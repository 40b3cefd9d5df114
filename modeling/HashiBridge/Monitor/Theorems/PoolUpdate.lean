import HashiBridge.Monitor.Lemmas.PoolFlows

/-!
# The pool after any passes

Flows of one Bitcoin history end in one pool, whatever their order and their split into passes.
-/

namespace HashiBridge.Monitor

open Lib Guardian UtxoPool

/-! ## Whole runs -/

/-- The machines are ready for collection. For one that follows a withdrawal this is that it can be taken,
by `WithdrawalOutcome.collected`. -/
def PoolStep.Closed : PoolStep → Prop
  | pass deposits withdrawals => (∀ machine ∈ deposits, machine.isReadyForGc = true) ∧
      ∀ machine ∈ withdrawals, machine.takeClosed.isSome = true
  | approve _ => True

def PoolStep.Shows (facts : OutPoint → OutputFacts) : PoolStep → Prop
  | pass deposits withdrawals =>
      (∀ machine ∈ deposits, ∀ deposit, machine.confirmed = some deposit →
        (utxoOf deposit .change).Shows (facts deposit.depositId)) ∧
      ∀ machine ∈ withdrawals, ∀ withdrawal, machine.finished = some withdrawal →
        ∀ output ∈ changeOutputs withdrawal, output.2.Shows (facts output.1)
  | approve _ => True

/-- The flows come from one Bitcoin history, and their passes respect what they depend on. -/
structure Consistent (facts : OutPoint → OutputFacts) (start : UtxoPool) (steps : List PoolStep) :
    Prop where
  closed : ∀ step ∈ steps, step.Closed
  start_shows : ∀ {outpoint utxo}, start.utxos.lookup outpoint = some utxo →
    utxo.Shows (facts outpoint)
  shows : ∀ step ∈ steps, step.Shows facts
  /-- Bitcoin spends an output once -/
  spent_once : (flowsOf steps).spent.Nodup
  /-- no deposit names a change output -/
  exclusive : ∀ outpoint, ((flowsOf steps).claimed start outpoint).change →
    ¬((flowsOf steps).claimed start outpoint).deposited
  /-- an input is Move's by the end of the additions of the pass that spends it -/
  available : ∀ {before step after}, steps = before ++ step :: after →
    ∀ outpoint ∈ step.flows.spent,
      ((flowsOf (before ++ [step])).claimed start outpoint).InMovePool
  /-- the flows of an output close no later than the pass that spends it -/
  in_time : ∀ {before after}, steps = before ++ after → ∀ outpoint ∈ (flowsOf before).spent,
    outpoint ∉ (flowsOf after).changes ∧
      ∀ requestedAt amount, (outpoint, requestedAt, amount) ∉ (flowsOf after).requests
  /-- an approval goes to the pool only after its deposit was taken -/
  approvals : ∀ {before sui after}, steps = before ++ .approve sui :: after →
    ((flowsOf before).claimed start sui.depositId).deposited

theorem depositFlows_changes (machines : List DepositStateMachine) :
    (depositFlows machines).changes = [] ∧ (depositFlows machines).spent = [] := by
  induction machines with
  | nil => exact ⟨rfl, rfl⟩
  | cons machine machines ih =>
      have hone : machine.flows.changes = [] ∧ machine.flows.spent = [] := by
        unfold DepositStateMachine.flows
        split <;> exact ⟨rfl, rfl⟩
      have hcons : depositFlows (machine :: machines) = machine.flows ++ depositFlows machines := rfl
      rw [hcons, Flows.append_changes, Flows.append_spent, hone.1, hone.2, ih.1, ih.2]
      exact ⟨rfl, rfl⟩

theorem takeClosed_eq {machine : WithdrawalStateMachine} (h : machine.takeClosed.isSome = true) :
    machine.takeClosed = some machine.finished := by
  obtain ⟨finished, hfinished⟩ := Option.isSome_iff_exists.mp h
  simp only [WithdrawalStateMachine.takeClosed, Option.bind_eq_bind, Option.bind_eq_some_iff,
    Option.pure_def, Option.some.injEq] at hfinished
  obtain ⟨e1, he1, e2, he2, e3, he3, -⟩ := hfinished
  simp [WithdrawalStateMachine.takeClosed, he1, he2, he3]

theorem takeClosedWithdrawals_closed {machines : List WithdrawalStateMachine}
    (h : ∀ machine ∈ machines, machine.takeClosed.isSome = true) :
    takeClosedWithdrawals machines = some (machines.filterMap WithdrawalStateMachine.finished) := by
  have hall : machines.mapM WithdrawalStateMachine.takeClosed =
      some (machines.map WithdrawalStateMachine.finished) := by
    induction machines with
    | nil => rfl
    | cons machine machines ih =>
        rw [List.mapM_cons, takeClosed_eq (h machine (.head _)),
          ih fun machine hmem => h machine (.tail _ hmem)]
        rfl
  rw [takeClosedWithdrawals, hall]
  simp [List.filterMap_map]

namespace Consistent

variable {facts : OutPoint → OutputFacts} {start pool : UtxoPool} {steps before after : List PoolStep}
  {flows later : Flows} {outpoint : OutPoint} {step : PoolStep} {timing : Timing}

variable (h : Consistent facts start steps)

include h

theorem not_deposited (hsteps : flowsOf steps = flows ++ later)
    (hchange : outpoint ∈ (flowsOf steps).changes) : ¬(flows.claimed start outpoint).deposited := by
  intro hdeposited
  refine h.exclusive outpoint (.inr hchange) ?_
  rw [hsteps, Flows.deposited_append]
  exact .inl hdeposited

theorem not_change (hsteps : flowsOf steps = flows ++ later)
    (hdeposited : ((flowsOf steps).claimed start outpoint).deposited) :
    ¬(flows.claimed start outpoint).change := by
  intro hchange
  refine h.exclusive outpoint ?_ hdeposited
  rw [hsteps, Flows.change_append]
  exact .inl hchange

theorem holds_start :
    Holds facts start ⟨[], [], [], []⟩ start := by
  refine ⟨fun outpoint => ?_, by simp⟩
  cases hheld : start.utxos.lookup outpoint with
  | none =>
      refine .inr ?_
      simp [Claimed.Entered, Flows.claimed, hheld]
  | some utxo =>
      refine ⟨by simp, h.start_shows hheld, ?_⟩
      cases horigin : utxo.origin with
      | change => exact .change (.inl (by simp [hheld, horigin]))
      | deposit =>
          refine .approved ?_ (.inl ⟨.deposit, by simp, ?_⟩) (.inl ?_) <;>
            simp [Flows.claimed, hheld, horigin]
      | unapprovedDeposit requestedAt amount =>
          refine .requested ?_ (.inl ⟨.unapprovedDeposit requestedAt amount, by simp, ?_⟩) ?_
            (.inl ?_) ?_
          · simp [Flows.claimed, hheld, horigin]
          · simp [hheld, horigin]
          · simp [Flows.claimed, hheld, horigin]
          · simp [hheld, horigin]
          · rintro otherAt otherAmount (hother | hother)
            · simp only [hheld, horigin, Option.map_some, Option.some.injEq,
                UtxoOrigin.unapprovedDeposit.injEq] at hother
              exact hother.1.ge
            · cases hother

theorem run_pass {deposits : List DepositStateMachine} {withdrawals : List WithdrawalStateMachine}
    (hsteps : steps = before ++ .pass deposits withdrawals :: after)
    (hpool : Holds facts start (flowsOf before) pool) :
    ∃ pool', gcAndUpdatePool pool deposits withdrawals = some (pool', []) ∧
      Holds facts start (flowsOf before ++ (depositFlows deposits ++ withdrawalFlows withdrawals))
        pool' := by
  let finished := withdrawals.filterMap WithdrawalStateMachine.finished
  let outputs := finished.flatMap changeOutputs
  let inputs := finished.flatMap UtxoPool.spends
  have hmem : PoolStep.pass deposits withdrawals ∈ steps := by simp [hsteps]
  obtain ⟨-, hclosed⟩ := h.closed _ hmem
  obtain ⟨hdeposits, hwithdrawals⟩ := h.shows _ hmem
  have hall : flowsOf steps = flowsOf before ++ (depositFlows deposits ++
      (withdrawalFlows withdrawals ++ flowsOf after)) := by
    rw [hsteps, flowsOf_append, ← Flows.append_assoc (depositFlows deposits)]
    rfl
  have hflows : withdrawalFlows withdrawals =
      ⟨[], [], outputs.map Prod.fst, []⟩ ++ ⟨[], [], [], inputs.map Prod.fst⟩ := by
    ext1 <;> simp [withdrawalFlows, outputs, inputs, UtxoPool.spends, List.map_flatMap,
      Function.comp_def, finished]
  have hspent : (flowsOf before ++ depositFlows deposits).spent = (flowsOf before).spent := by
    rw [Flows.append_spent, (depositFlows_changes deposits).2, List.append_nil]
  -- the deposits
  have hchange : ∀ request ∈ (depositFlows deposits).requests,
      ¬((flowsOf before).claimed start request.1).change := by
    intro request hrequest
    refine h.not_change hall (.inr ⟨request.2.1, request.2.2, ?_⟩)
    simp [hall, hrequest]
  have hunspent : ∀ request ∈ (depositFlows deposits).requests,
      request.1 ∉ (flowsOf before).spent := by
    intro request hrequest hspent
    refine (h.in_time hsteps request.1 hspent).2 request.2.1 request.2.2 ?_
    exact List.mem_append_left _ (List.mem_append_left _ hrequest)
  obtain ⟨pool₁, hrun₁, h₁⟩ := hpool.deposits hdeposits hchange hunspent
  -- the change
  have hshows : ∀ output ∈ outputs, output.2.Shows (facts output.1) ∧ output.2.origin = .change := by
    intro output houtput
    obtain ⟨withdrawal, hwithdrawal, houtput⟩ := List.mem_flatMap.mp houtput
    obtain ⟨machine, hmachine, hfinished⟩ := List.mem_filterMap.mp hwithdrawal
    exact ⟨hwithdrawals machine hmachine withdrawal hfinished output houtput,
      changeOutputs_origin houtput⟩
  have hchanges : ∀ output ∈ outputs, output.1 ∈ (withdrawalFlows withdrawals).changes :=
    fun output houtput => List.mem_map_of_mem houtput
  have hdeposited : ∀ output ∈ outputs,
      ¬((flowsOf before ++ depositFlows deposits).claimed start output.1).deposited := by
    intro output houtput
    refine h.not_deposited (hall.trans (Flows.append_assoc _ _ _).symm) ?_
    simp [hall, hchanges output houtput]
  have hunspent₁ : ∀ output ∈ outputs, output.1 ∉ (flowsOf before ++ depositFlows deposits).spent := by
    intro output houtput hmem
    rw [hspent] at hmem
    refine (h.in_time hsteps output.1 hmem).1 ?_
    exact List.mem_append_left _ (List.mem_append_right _ (hchanges output houtput))
  obtain ⟨pool₂, hrun₂, h₂⟩ := h₁.changes hshows hdeposited hunspent₁
  -- the inputs
  have hfinal : flowsOf before ++ (depositFlows deposits ++ withdrawalFlows withdrawals) =
      flowsOf before ++ depositFlows deposits ++ ⟨[], [], outputs.map Prod.fst, []⟩ ++
        ⟨[], [], [], inputs.map Prod.fst⟩ := by
    rw [hflows, ← Flows.append_assoc, ← Flows.append_assoc]
  have hmove : ∀ input ∈ inputs, ((flowsOf before ++ depositFlows deposits ++
      ⟨[], [], outputs.map Prod.fst, []⟩).claimed start input.1).InMovePool := by
    intro input hinput
    have hmem : input.1 ∈ (PoolStep.pass deposits withdrawals).flows.spent := by
      rw [PoolStep.flows, Flows.append_spent, hflows]
      exact List.mem_append_right _ (List.mem_map_of_mem hinput)
    have havailable := h.available hsteps input.1 hmem
    rwa [flowsOf_snoc, PoolStep.flows, hfinal, Flows.claimed_spent] at havailable
  have honce : ((flowsOf before).spent ++ (inputs.map Prod.fst ++ (flowsOf after).spent)).Nodup := by
    have hspent_once := h.spent_once
    rwa [hall, hflows, ← Flows.append_assoc, Flows.append_spent, hspent] at hspent_once
  have hunspent₂ : ∀ input ∈ inputs, input.1 ∉ (flowsOf before ++ depositFlows deposits ++
      ⟨[], [], outputs.map Prod.fst, []⟩).spent := by
    intro input hinput hmem
    rw [Flows.append_spent, hspent, List.append_nil] at hmem
    exact List.disjoint_of_nodup_append honce hmem
      (List.mem_append_left _ (List.mem_map_of_mem hinput))
  obtain ⟨pool₃, hrun₃, h₃⟩ :=
    h₂.inputs hmove hunspent₂ (List.Nodup.of_append_left (List.Nodup.of_append_right honce))
  refine ⟨pool₃, ?_, hfinal ▸ h₃⟩
  have hupdate : pool.update (takeClosedDeposits deposits) finished = (pool₃, []) := by
    rw [UtxoPool.update, hrun₁, addWithdrawals, addChangeOutputs_all, hrun₂, spendInputs_all, hrun₃]
    rfl
  rw [gcAndUpdatePool, takeClosedWithdrawals_closed hclosed, ← hupdate]
  rfl

theorem run_step (hsteps : steps = before ++ step :: after)
    (hpool : Holds facts start (flowsOf before) pool) :
    ∃ pool', step.run timing (pool, []) = some (pool', []) ∧
      Holds facts start (flowsOf (before ++ [step])) pool' := by
  rw [flowsOf_snoc]
  cases step with
  | approve sui =>
      have hdeposited := h.approvals hsteps
      have hall : flowsOf steps = flowsOf before ++ flowsOf (.approve sui :: after) := by
        rw [hsteps, flowsOf_append]
      refine ⟨_, rfl, hpool.approve (h.not_change hall ?_) hdeposited⟩
      rw [hall, Flows.deposited_append]
      exact .inl hdeposited
  | pass deposits withdrawals =>
      obtain ⟨pool', hpass, hpool'⟩ := h.run_pass hsteps hpool
      refine ⟨pool', ?_, hpool'⟩
      rw [PoolStep.run, hpass]
      rfl

theorem run :
    ∃ pool, runPool timing start steps = some (pool, []) ∧
      Holds facts start (flowsOf steps) pool := by
  suffices hrun : ∀ done rest, steps = done ++ rest → ∃ pool,
      runPool timing start done = some (pool, []) ∧ Holds facts start (flowsOf done) pool from
    hrun steps [] (List.append_nil steps).symm
  intro done
  -- induction on the steps that have run
  induction done using List.reverseRecOn with
  | nil => exact fun _ _ => ⟨start, rfl, h.holds_start⟩
  | append_singleton done step ih =>
      intro rest hsteps
      rw [List.append_assoc, List.singleton_append] at hsteps
      obtain ⟨pool, hrun, hpool⟩ := ih _ hsteps
      obtain ⟨pool', hstep, hpool'⟩ := h.run_step hsteps hpool
      refine ⟨pool', ?_, hpool'⟩
      rw [runPool, List.foldlM_append, ← runPool, hrun]
      simpa using hstep

end Consistent

/-! ## Two schedules -/

/-- The same flows, in other orders and passes; an approval may come with its machine or later. -/
structure Flows.Same (flows flows' : Flows) : Prop where
  requests : ∀ request, request ∈ flows.requests ↔ request ∈ flows'.requests
  approvals : ∀ outpoint, outpoint ∈ flows.approvals ↔ outpoint ∈ flows'.approvals
  changes : ∀ outpoint, outpoint ∈ flows.changes ↔ outpoint ∈ flows'.changes
  spent : ∀ outpoint, outpoint ∈ flows.spent ↔ outpoint ∈ flows'.spent

def DistinctTimes (start : UtxoPool) (flows : Flows) : Prop :=
  ∀ outpoint requestedAt amount amount',
    (flows.claimed start outpoint).requested requestedAt amount →
    (flows.claimed start outpoint).requested requestedAt amount' → amount = amount'

theorem Flows.Same.claimed {flows flows' : Flows} (h : flows.Same flows') (start : UtxoPool)
    (outpoint : OutPoint) : flows'.claimed start outpoint = flows.claimed start outpoint := by
  simp only [Flows.claimed, h.requests, h.approvals, h.changes]

theorem Holds.unique {facts : OutPoint → OutputFacts} {start pool pool' : UtxoPool} {flows : Flows}
    (h : Holds facts start flows pool) (h' : Holds facts start flows pool')
    (htimes : DistinctTimes start flows) : pool = pool' := by
  have hlookup : pool.utxos = pool'.utxos := by
    refine Finmap.ext_lookup fun outpoint => ?_
    cases hheld : pool.utxos.lookup outpoint with
    | none =>
        cases hheld' : pool'.utxos.lookup outpoint with
        | none => rfl
        | some utxo =>
            obtain ⟨hspent, -, hgives⟩ := h'.of_lookup hheld'
            obtain hspent' | hentered := h.of_absent hheld
            · exact absurd hspent' hspent
            · exact absurd hgives.entered hentered
    | some utxo =>
        obtain ⟨hspent, ⟨hamount, hscript, hseen⟩, hgives⟩ := h.of_lookup hheld
        obtain ⟨utxo', hheld'⟩ := h'.lookup hspent hgives.entered
        obtain ⟨-, ⟨hamount', hscript', hseen'⟩, hgives'⟩ := h'.of_lookup hheld'
        have horigin := hgives.unique hgives' (htimes outpoint)
        rw [hheld']
        cases utxo
        cases utxo'
        simp_all
  cases pool
  cases pool'
  congr

namespace ChangeChain

def machine (txid : Txid) (inputs : List OutPoint) (outputs : List TxOut) :
    WithdrawalStateMachine :=
  let tx : WithdrawalTx := ⟨[], [⟨0, []⟩], []⟩
  { seenEvents := [⟨.e1HashiApproved, txid, 0, txid, tx⟩, ⟨.e2GuardianApproved, txid, 0, txid, tx⟩,
      ⟨.e3BtcConfirmed, txid, 0, txid, tx⟩]
    expectedEvents := []
    btcCheckedAt := some 0
    btcConfirmation := some ⟨0, 0, inputs, outputs⟩
    wid := txid
    btcTxid := txid
    tx }

/-- The pool's deposit is spent by transaction 1, whose change is spent by transaction 2. -/
def start : UtxoPool := ⟨(∅ : Bag OutPoint Utxo).insert ⟨0, 0⟩ ⟨100, [], .deposit, 0⟩⟩

def first : WithdrawalStateMachine := machine 1 [⟨0, 0⟩] [⟨60, []⟩, ⟨40, []⟩]
def second : WithdrawalStateMachine := machine 2 [⟨1, 1⟩] [⟨40, []⟩]

def facts (outpoint : OutPoint) : OutputFacts :=
  if outpoint = ⟨1, 1⟩ then ⟨40, [], 0⟩ else ⟨100, [], 0⟩

def steps : List PoolStep := [.pass [] [second, first]]

theorem flowsOf_steps : flowsOf steps = ⟨[], [], [⟨1, 1⟩], [⟨1, 1⟩, ⟨0, 0⟩]⟩ := rfl

theorem lookup_start (outpoint : OutPoint) :
    start.utxos.lookup outpoint =
      if outpoint = ⟨0, 0⟩ then some ⟨100, [], .deposit, 0⟩ else none := by
  rw [start, Bag.lookup_insert_ite, Finmap.lookup_empty]

theorem claimed_steps (outpoint : OutPoint) :
    ((flowsOf steps).claimed start outpoint).change ↔ outpoint = ⟨1, 1⟩ := by
  rw [flowsOf_steps]
  simp only [Flows.claimed, lookup_start]
  split_ifs <;> simp

theorem consistent : Consistent facts start steps where
  closed := by
    simp only [steps, List.mem_singleton, forall_eq]
    exact ⟨by simp, by decide⟩
  start_shows := by
    intro outpoint utxo hheld
    rw [lookup_start] at hheld
    split_ifs at hheld with hfirst
    cases hheld
    subst hfirst
    exact ⟨rfl, rfl, rfl⟩
  shows := by
    simp only [steps, List.mem_singleton, forall_eq]
    refine ⟨by simp, ?_⟩
    simp only [List.mem_cons, List.not_mem_nil, or_false, forall_eq_or_imp, forall_eq]
    refine ⟨fun withdrawal hfinished output houtput => ?_,
      fun withdrawal hfinished output houtput => ?_⟩ <;> cases hfinished
    · cases houtput
    · change output ∈ [((⟨1, 1⟩, ⟨40, [], .change, 0⟩) : OutPoint × Utxo)] at houtput
      rw [List.mem_singleton.mp houtput]
      exact ⟨rfl, rfl, rfl⟩
  spent_once := by
    rw [flowsOf_steps]
    decide
  exclusive := by
    intro outpoint hchange
    obtain rfl := (claimed_steps outpoint).mp hchange
    rw [flowsOf_steps]
    simp [Flows.claimed, lookup_start]
  available := by
    intro before step after hsteps outpoint hmem
    cases before with
    | cons other before => simp [steps] at hsteps
    | nil =>
        obtain ⟨rfl, rfl⟩ := List.cons.inj hsteps
        change outpoint ∈ [⟨1, 1⟩, ⟨0, 0⟩] at hmem
        simp only [List.mem_cons, List.not_mem_nil, or_false] at hmem
        obtain rfl | rfl := hmem
        · exact .inl ((claimed_steps _).mpr rfl)
        · refine .inr ⟨.inl ⟨.deposit, by simp, ?_⟩, .inl ?_⟩ <;> simp [lookup_start]
  in_time := by
    intro before after hsteps outpoint hmem
    cases before with
    | nil => cases hmem
    | cons step before =>
        obtain ⟨rfl, hnone⟩ := List.cons.inj hsteps
        obtain ⟨rfl, rfl⟩ := List.append_eq_nil_iff.mp hnone.symm
        simp [flowsOf]
  approvals := by
    intro before sui after hsteps
    cases before with
    | nil => cases hsteps
    | cons other before => simp [steps] at hsteps

end ChangeChain

end HashiBridge.Monitor
