import HashiBridge.Monitor.Lemmas.UtxoPool
import HashiBridge.Monitor.PoolMaintenance

/-!
# What flows leave in the pool

The flows applied so far say, outpoint by outpoint, what the pool holds: what the start held, the
paid deposits and the change, without the spent inputs.
-/

namespace HashiBridge.Monitor

open Lib HashiBridge.Core Guardian UtxoPool

structure OutputFacts where
  amount : Nat
  scriptPubkey : Bytes
  blockTime : UnixSeconds

def Utxo.Shows (utxo : Utxo) (facts : OutputFacts) : Prop :=
  utxo.amount = facts.amount ∧ utxo.scriptPubkey = facts.scriptPubkey ∧
    utxo.firstSeen = facts.blockTime

/-! ## One outpoint -/

@[ext]
structure Claimed where
  change : Prop
  deposited : Prop
  approved : Prop
  requested : UnixSeconds → Nat → Prop

namespace Claimed

variable {claimed : Claimed} {origin origin' updated : UtxoOrigin} {requestedAt requestedAmount : Nat}
  {approval : Bool}

inductive Gives (claimed : Claimed) : UtxoOrigin → Prop
  | change (h : claimed.change) : Gives claimed .change
  | approved (hchange : ¬claimed.change) (hdeposited : claimed.deposited) (h : claimed.approved) :
      Gives claimed .deposit
  | requested {requestedAt requestedAmount : Nat} (hchange : ¬claimed.change)
      (hdeposited : claimed.deposited) (hnot : ¬claimed.approved)
      (h : claimed.requested requestedAt requestedAmount)
      (hlatest : ∀ otherAt otherAmount, claimed.requested otherAt otherAmount →
        otherAt ≤ requestedAt) :
      Gives claimed (.unapprovedDeposit requestedAt requestedAmount)

def Entered (claimed : Claimed) : Prop := claimed.change ∨ claimed.deposited

def InMovePool (claimed : Claimed) : Prop :=
  claimed.change ∨ claimed.deposited ∧ claimed.approved

def requestOrigin (requestedAt requestedAmount : Nat) (approval : Bool) : UtxoOrigin :=
  if approval then .deposit else .unapprovedDeposit requestedAt requestedAmount

def request (claimed : Claimed) (requestedAt requestedAmount : Nat) (approval : Bool) : Claimed where
  change := claimed.change
  deposited := True
  approved := claimed.approved ∨ approval = true
  requested := fun otherAt otherAmount => claimed.requested otherAt otherAmount ∨
    (otherAt = requestedAt ∧ otherAmount = requestedAmount)

theorem Gives.entered (h : claimed.Gives origin) : claimed.Entered := by
  cases h with
  | change h => exact .inl h
  | approved _ h _ => exact .inr h
  | requested _ h _ _ _ => exact .inr h

theorem Gives.ne_change (h : claimed.Gives origin) (hchange : ¬claimed.change) : origin ≠ .change := by
  rintro rfl
  cases h
  contradiction

theorem Gives.eq_change (h : claimed.Gives origin) (hdeposited : ¬claimed.deposited) :
    origin = .change := by
  cases h with
  | change _ => rfl
  | approved _ h _ => exact absurd h hdeposited
  | requested _ h _ _ _ => exact absurd h hdeposited

theorem Gives.inMovePool (h : claimed.Gives origin) (hmove : claimed.InMovePool) :
    origin.inMovePool = true := by
  cases h with
  | change _ => rfl
  | approved _ _ _ => rfl
  | requested hchange _ hnot _ _ =>
      obtain hmove | ⟨-, happroved⟩ := hmove
      · exact absurd hmove hchange
      · exact absurd happroved hnot

/-- A deposit that nothing was known about. -/
theorem gives_first (hentered : ¬claimed.Entered)
    (hrequested : ∀ otherAt otherAmount, claimed.requested otherAt otherAmount → claimed.deposited)
    (happroved : claimed.approved → claimed.deposited) :
    (claimed.request requestedAt requestedAmount approval).Gives
      (requestOrigin requestedAt requestedAmount approval) := by
  have hchange : ¬claimed.change := fun h => hentered (.inl h)
  have hdeposited : ¬claimed.deposited := fun h => hentered (.inr h)
  cases approval with
  | true => exact .approved hchange trivial (.inr rfl)
  | false =>
      refine .requested hchange trivial ?_ (.inr ⟨rfl, rfl⟩) ?_
      · rintro (h | h)
        · exact hdeposited (happroved h)
        · cases h
      · rintro otherAt otherAmount (h | ⟨rfl, -⟩)
        · exact absurd (hrequested _ _ h) hdeposited
        · exact le_rfl

theorem Gives.request (h : claimed.Gives origin) (hchange : ¬claimed.change)
    (requestedAt requestedAmount : Nat) (approval : Bool) :
    ∃ updated, origin.updatedBy (requestOrigin requestedAt requestedAmount approval) = some updated ∧
      (claimed.request requestedAt requestedAmount approval).Gives updated := by
  cases h with
  | change h => exact absurd h hchange
  | approved _ _ happroved =>
      refine ⟨.deposit, ?_, .approved hchange trivial (.inl happroved)⟩
      cases approval <;> rfl
  | @requested heldAt heldAmount _ _ hnot hheld hlatest =>
      cases approval with
      | true => exact ⟨.deposit, rfl, .approved hchange trivial (.inr rfl)⟩
      | false =>
          have hnot' : ¬(claimed.request requestedAt requestedAmount false).approved := by
            rintro (h | h)
            · exact hnot h
            · cases h
          refine ⟨_, rfl, ?_⟩
          split_ifs with hlater
          · refine .requested hchange trivial hnot' (.inr ⟨rfl, rfl⟩) ?_
            rintro otherAt otherAmount (h | ⟨rfl, -⟩)
            · exact (hlatest _ _ h).trans hlater.le
            · exact le_rfl
          · refine .requested hchange trivial hnot' (.inl hheld) ?_
            rintro otherAt otherAmount (h | ⟨rfl, -⟩)
            · exact hlatest _ _ h
            · exact not_lt.mp hlater

theorem Gives.unique (h : claimed.Gives origin) (h' : claimed.Gives origin')
    (htimes : ∀ requestedAt amount amount', claimed.requested requestedAt amount →
      claimed.requested requestedAt amount' → amount = amount') : origin = origin' := by
  cases h with
  | change h =>
      cases h' with
      | change _ => rfl
      | approved hchange _ _ => exact absurd h hchange
      | requested hchange _ _ _ _ => exact absurd h hchange
  | approved hchange _ happroved =>
      cases h' with
      | change h => exact absurd h hchange
      | approved _ _ _ => rfl
      | requested _ _ hnot _ _ => exact absurd happroved hnot
  | @requested requestedAt amount hchange _ hnot hrequested hlatest =>
      cases h' with
      | change h => exact absurd h hchange
      | approved _ _ happroved => exact absurd happroved hnot
      | @requested requestedAt' amount' _ _ _ hrequested' hlatest' =>
          obtain rfl : requestedAt = requestedAt' :=
            le_antisymm (hlatest' _ _ hrequested) (hlatest _ _ hrequested')
          rw [htimes _ _ _ hrequested hrequested']

def Entry (claimed : Claimed) (facts : OutputFacts) (spent : Prop) : Option Utxo → Prop
  | none => spent ∨ ¬claimed.Entered
  | some utxo => ¬spent ∧ utxo.Shows facts ∧ claimed.Gives utxo.origin

end Claimed

/-! ## Flows -/

/-- The flows applied to a pool: requests for paid deposits, approvals, change and spent inputs. -/
@[ext]
structure Flows where
  requests : List (DepositId × UnixSeconds × Nat)
  approvals : List DepositId
  changes : List OutPoint
  spent : List OutPoint

namespace Flows

instance : Append Flows where
  append flows later := ⟨flows.requests ++ later.requests, flows.approvals ++ later.approvals,
    flows.changes ++ later.changes, flows.spent ++ later.spent⟩

variable {flows later : Flows}

@[simp] theorem append_requests : (flows ++ later).requests = flows.requests ++ later.requests := rfl
@[simp] theorem append_approvals : (flows ++ later).approvals = flows.approvals ++ later.approvals := rfl
@[simp] theorem append_changes : (flows ++ later).changes = flows.changes ++ later.changes := rfl
@[simp] theorem append_spent : (flows ++ later).spent = flows.spent ++ later.spent := rfl

protected theorem append_assoc (flows later last : Flows) :
    flows ++ later ++ last = flows ++ (later ++ last) := by
  ext1 <;> simp

@[simp] protected theorem append_nil (flows : Flows) : flows ++ ⟨[], [], [], []⟩ = flows := by
  ext1 <;> simp

def claimed (flows : Flows) (start : UtxoPool) (outpoint : OutPoint) : Claimed where
  change := (start.utxos.lookup outpoint).map Utxo.origin = some .change ∨ outpoint ∈ flows.changes
  deposited := (∃ origin ≠ UtxoOrigin.change,
      (start.utxos.lookup outpoint).map Utxo.origin = some origin) ∨
    ∃ requestedAt amount, (outpoint, requestedAt, amount) ∈ flows.requests
  approved := (start.utxos.lookup outpoint).map Utxo.origin = some .deposit ∨
    outpoint ∈ flows.approvals
  requested := fun requestedAt amount =>
    (start.utxos.lookup outpoint).map Utxo.origin = some (.unapprovedDeposit requestedAt amount) ∨
      (outpoint, requestedAt, amount) ∈ flows.requests

section

variable {start : UtxoPool} {outpoint : OutPoint}

theorem change_append : ((flows ++ later).claimed start outpoint).change ↔
    (flows.claimed start outpoint).change ∨ outpoint ∈ later.changes := by
  simp [claimed, or_assoc]

theorem deposited_append : ((flows ++ later).claimed start outpoint).deposited ↔
    (flows.claimed start outpoint).deposited ∨
      ∃ requestedAt amount, (outpoint, requestedAt, amount) ∈ later.requests := by
  simp only [claimed, append_requests, List.mem_append, exists_or, or_assoc]

@[simp] theorem claimed_spent (spent : List OutPoint) :
    (flows ++ ⟨[], [], [], spent⟩).claimed start outpoint = flows.claimed start outpoint := by
  simp [claimed]

end

structure Only (flows : Flows) (outpoint : OutPoint) : Prop where
  requests : ∀ request ∈ flows.requests, request.1 = outpoint
  approvals : ∀ other ∈ flows.approvals, other = outpoint
  changes : ∀ other ∈ flows.changes, other = outpoint
  spent : ∀ other ∈ flows.spent, other = outpoint

theorem Only.claimed_other {start : UtxoPool} {outpoint other : OutPoint} (h : later.Only outpoint)
    (hother : other ≠ outpoint) : (flows ++ later).claimed start other = flows.claimed start other := by
  have hrequests : ∀ requestedAt amount, (other, requestedAt, amount) ∉ later.requests :=
    fun requestedAt amount hmem => hother (h.requests _ hmem)
  have happrovals : other ∉ later.approvals := fun hmem => hother (h.approvals _ hmem)
  have hchanges : other ∉ later.changes := fun hmem => hother (h.changes _ hmem)
  simp [claimed, hrequests, happrovals, hchanges]

def ofRequest (depositId : DepositId) (requestedAt amount : Nat) (approval : Bool) : Flows :=
  ⟨[(depositId, requestedAt, amount)], if approval then [depositId] else [], [], []⟩

theorem ofRequest_only (depositId : DepositId) (requestedAt amount : Nat) (approval : Bool) :
    (ofRequest depositId requestedAt amount approval).Only depositId := by
  constructor <;> simp [ofRequest]

@[simp] theorem ofRequest_spent (depositId : DepositId) (requestedAt amount : Nat) (approval : Bool) :
    (ofRequest depositId requestedAt amount approval).spent = [] :=
  rfl

theorem claimed_request (flows : Flows) (start : UtxoPool) (depositId : DepositId)
    (requestedAt amount : Nat) (approval : Bool) :
    (flows ++ ofRequest depositId requestedAt amount approval).claimed start depositId =
      (flows.claimed start depositId).request requestedAt amount approval := by
  ext
  case deposited =>
    refine iff_of_true (.inr ⟨requestedAt, amount, ?_⟩) trivial
    simp [ofRequest]
  all_goals simp [claimed, Claimed.request, ofRequest, or_assoc]

theorem deposited_of_requested {start : UtxoPool} {outpoint : OutPoint} {requestedAt amount : Nat}
    (h : (flows.claimed start outpoint).requested requestedAt amount) :
    (flows.claimed start outpoint).deposited := by
  obtain h | h := h
  · exact .inl ⟨_, by simp, h⟩
  · exact .inr ⟨_, _, h⟩

end Flows

def DepositStateMachine.flows (machine : DepositStateMachine) : Flows :=
  match machine.confirmed with
  | none => ⟨[], [], [], []⟩
  | some deposit => .ofRequest deposit.depositId machine.suiRequest.timestampSecs
      machine.suiRequest.amount machine.isApproved

def depositFlows (machines : List DepositStateMachine) : Flows :=
  machines.foldr (fun machine flows => machine.flows ++ flows) ⟨[], [], [], []⟩

/-- The outpoint of each change output and the inputs of closed withdrawals. -/
def withdrawalFlows (machines : List WithdrawalStateMachine) : Flows :=
  let withdrawals := machines.filterMap WithdrawalStateMachine.finished
  ⟨[], [], (withdrawals.flatMap changeOutputs).map Prod.fst,
    withdrawals.flatMap fun withdrawal => withdrawal.confirmation.inputs⟩

def PoolStep.flows : PoolStep → Flows
  | pass deposits withdrawals => depositFlows deposits ++ withdrawalFlows withdrawals
  | approve sui => ⟨[], [sui.depositId], [], []⟩

def flowsOf (steps : List PoolStep) : Flows :=
  steps.foldr (fun step flows => step.flows ++ flows) ⟨[], [], [], []⟩

theorem flowsOf_append (steps later : List PoolStep) :
    flowsOf (steps ++ later) = flowsOf steps ++ flowsOf later := by
  induction steps with
  | nil => rfl
  | cons step steps ih =>
      change step.flows ++ flowsOf (steps ++ later) = step.flows ++ flowsOf steps ++ flowsOf later
      rw [ih, Flows.append_assoc]

theorem flowsOf_snoc (steps : List PoolStep) (step : PoolStep) :
    flowsOf (steps ++ [step]) = flowsOf steps ++ step.flows := by
  rw [flowsOf_append]
  exact congrArg (flowsOf steps ++ ·) (Flows.append_nil step.flows)

/-! ## What the pool holds after some flows -/

structure Holds (facts : OutPoint → OutputFacts) (start : UtxoPool) (flows : Flows)
    (pool : UtxoPool) : Prop where
  entry : ∀ outpoint, (flows.claimed start outpoint).Entry (facts outpoint)
    (outpoint ∈ flows.spent) (pool.utxos.lookup outpoint)
  deposited : ∀ outpoint ∈ flows.approvals, (flows.claimed start outpoint).deposited

namespace Holds

variable {facts : OutPoint → OutputFacts} {start pool : UtxoPool} {flows : Flows}
  {outpoint : OutPoint} {utxo held : Utxo} (h : Holds facts start flows pool)

include h

theorem deposited_of_approved (happroved : (flows.claimed start outpoint).approved) :
    (flows.claimed start outpoint).deposited := by
  obtain happroved | happroved := happroved
  · exact .inl ⟨_, by simp, happroved⟩
  · exact h.deposited _ happroved

theorem of_lookup (hheld : pool.utxos.lookup outpoint = some held) :
    outpoint ∉ flows.spent ∧ held.Shows (facts outpoint) ∧
      (flows.claimed start outpoint).Gives held.origin := by
  have hentry := h.entry outpoint
  rwa [hheld] at hentry

theorem of_absent (habsent : pool.utxos.lookup outpoint = none) :
    outpoint ∈ flows.spent ∨ ¬(flows.claimed start outpoint).Entered := by
  have hentry := h.entry outpoint
  rwa [habsent] at hentry

theorem lookup (hspent : outpoint ∉ flows.spent)
    (hentered : (flows.claimed start outpoint).Entered) :
    ∃ held, pool.utxos.lookup outpoint = some held := by
  cases hheld : pool.utxos.lookup outpoint with
  | some held => exact ⟨held, rfl⟩
  | none =>
      obtain h | h := h.of_absent hheld
      · exact absurd h hspent
      · exact absurd hentered h

theorem at_outpoint {flow : Flows} {pool' : UtxoPool} (honly : flow.Only outpoint)
    (hlookup : ∀ other ≠ outpoint, pool'.utxos.lookup other = pool.utxos.lookup other)
    (hself : ((flows ++ flow).claimed start outpoint).Entry (facts outpoint)
      (outpoint ∈ (flows ++ flow).spent) (pool'.utxos.lookup outpoint))
    (hdeposited : (flows.claimed start outpoint).deposited ∨ outpoint ∈ flow.approvals →
      ((flows ++ flow).claimed start outpoint).deposited) :
    Holds facts start (flows ++ flow) pool' := by
  constructor
  · intro other
    by_cases heq : other = outpoint
    · subst heq
      exact hself
    · rw [honly.claimed_other heq, hlookup other heq, Flows.append_spent, List.mem_append,
        or_iff_left fun hspent => heq (honly.spent other hspent)]
      exact h.entry other
  · intro other happroved
    rw [Flows.append_approvals, List.mem_append] at happroved
    by_cases heq : other = outpoint
    · subst heq
      exact hdeposited (happroved.imp_left (h.deposited other))
    · rw [honly.claimed_other heq]
      exact h.deposited other (happroved.resolve_right fun h => heq (honly.approvals other h))

theorem insert {flow : Flows} (honly : flow.Only outpoint)
    (hspent : outpoint ∉ (flows ++ flow).spent) (hshows : utxo.Shows (facts outpoint))
    (hgives : ((flows ++ flow).claimed start outpoint).Gives utxo.origin)
    (hdeposited : (flows.claimed start outpoint).deposited ∨ outpoint ∈ flow.approvals →
      ((flows ++ flow).claimed start outpoint).deposited) :
    Holds facts start (flows ++ flow) ⟨pool.utxos.insert outpoint utxo⟩ := by
  refine h.at_outpoint honly (fun other hne => Finmap.lookup_insert_of_ne _ hne) ?_ hdeposited
  rw [Finmap.lookup_insert]
  exact ⟨hspent, hshows, hgives⟩

/-! ## One flow -/

theorem addRequest {requestedAt amount : Nat} {approval : Bool}
    (hshows : utxo.Shows (facts outpoint))
    (horigin : utxo.origin = Claimed.requestOrigin requestedAt amount approval)
    (hchange : ¬(flows.claimed start outpoint).change) (hspent : outpoint ∉ flows.spent) :
    ∃ pool', pool.add outpoint utxo = (pool', []) ∧
      Holds facts start (flows ++ .ofRequest outpoint requestedAt amount approval) pool' := by
  have honly := Flows.ofRequest_only outpoint requestedAt amount approval
  have hclaimed := flows.claimed_request start outpoint requestedAt amount approval
  have hspent' : outpoint ∉ (flows ++ .ofRequest outpoint requestedAt amount approval).spent := by
    simpa using hspent
  cases hheld : pool.utxos.lookup outpoint with
  | none =>
      have hentered := (h.of_absent hheld).resolve_left hspent
      refine ⟨_, add_absent hheld, h.insert honly hspent' hshows ?_ fun _ => hclaimed ▸ trivial⟩
      rw [hclaimed, horigin]
      exact Claimed.gives_first hentered (fun _ _ => Flows.deposited_of_requested)
        h.deposited_of_approved
  | some held =>
      obtain ⟨-, hfacts, hgives⟩ := h.of_lookup hheld
      obtain ⟨updated, hupdated, hgives⟩ := hgives.request hchange requestedAt amount approval
      rw [← horigin] at hupdated
      refine ⟨_, add_held hheld hupdated (hfacts.1.trans hshows.1.symm)
        (hfacts.2.1.trans hshows.2.1.symm), h.insert honly hspent' hfacts ?_ fun _ => hclaimed ▸ trivial⟩
      rw [hclaimed]
      exact hgives

theorem addChange (hshows : utxo.Shows (facts outpoint))
    (horigin : utxo.origin = .change) (hdeposited : ¬(flows.claimed start outpoint).deposited)
    (hspent : outpoint ∉ flows.spent) :
    ∃ pool', pool.add outpoint utxo = (pool', []) ∧
      Holds facts start (flows ++ ⟨[], [], [outpoint], []⟩) pool' := by
  have honly : (⟨[], [], [outpoint], []⟩ : Flows).Only outpoint := by
    constructor <;> simp
  have hspent' : outpoint ∉ (flows ++ ⟨[], [], [outpoint], []⟩).spent := by
    simpa using hspent
  have hgives : ((flows ++ ⟨[], [], [outpoint], []⟩).claimed start outpoint).Gives .change :=
    .change (.inr (by simp))
  cases hheld : pool.utxos.lookup outpoint with
  | none =>
      refine ⟨_, add_absent hheld, h.insert honly hspent' hshows (horigin ▸ hgives) ?_⟩
      simp [hdeposited]
  | some held =>
      obtain ⟨-, hfacts, hheldgives⟩ := h.of_lookup hheld
      have hupdated : held.origin.updatedBy utxo.origin = some .change := by
        rw [hheldgives.eq_change hdeposited, horigin]
        rfl
      refine ⟨_, add_held hheld hupdated (hfacts.1.trans hshows.1.symm)
        (hfacts.2.1.trans hshows.2.1.symm), h.insert honly hspent' hfacts hgives ?_⟩
      simp [hdeposited]

theorem spend (txid : Txid) (hspent : outpoint ∉ flows.spent)
    (hmove : (flows.claimed start outpoint).InMovePool) :
    ∃ pool', pool.spend outpoint txid = (pool', []) ∧
      Holds facts start (flows ++ ⟨[], [], [], [outpoint]⟩) pool' := by
  obtain ⟨held, hheld⟩ := h.lookup hspent (hmove.imp_right And.left)
  obtain ⟨-, -, hgives⟩ := h.of_lookup hheld
  have honly : (⟨[], [], [], [outpoint]⟩ : Flows).Only outpoint := by
    constructor <;> simp
  refine ⟨⟨pool.utxos.erase outpoint⟩, ?_, h.at_outpoint honly ?_ ?_ ?_⟩
  · simp [UtxoPool.spend, hheld, hgives.inMovePool hmove]
  · intro other hne
    exact Finmap.lookup_erase_ne hne
  · rw [Finmap.lookup_erase]
    exact .inl (by simp)
  · rintro (hdeposited | happroved)
    · exact hdeposited.imp_right fun ⟨requestedAt, amount, hmem⟩ => ⟨requestedAt, amount, by simpa⟩
    · cases happroved

theorem approve (hchange : ¬(flows.claimed start outpoint).change)
    (hdeposited : (flows.claimed start outpoint).deposited) :
    Holds facts start (flows ++ ⟨[], [outpoint], [], []⟩) (pool.markApproved outpoint) := by
  have honly : (⟨[], [outpoint], [], []⟩ : Flows).Only outpoint := by
    constructor <;> simp
  have hdeposited' : ((flows ++ ⟨[], [outpoint], [], []⟩).claimed start outpoint).deposited := by
    simpa [Flows.claimed] using hdeposited
  cases hheld : pool.utxos.lookup outpoint with
  | none =>
      have hspent := (h.of_absent hheld).resolve_right fun h => h (.inr hdeposited)
      have hsame : pool.markApproved outpoint = pool := by
        rw [markApproved, hheld]
      rw [hsame]
      refine h.at_outpoint honly (fun _ _ => rfl) ?_ fun _ => hdeposited'
      rw [hheld]
      exact .inl (by simpa using hspent)
  | some held =>
      obtain ⟨hspent, hfacts, hgives⟩ := h.of_lookup hheld
      rw [markApproved_held hheld (hgives.ne_change hchange)]
      refine h.insert honly (by simpa using hspent) hfacts (.approved ?_ hdeposited' ?_)
        fun _ => hdeposited'
      · simpa [Flows.claimed] using hchange
      · exact .inr (by simp)

/-! ## One pass -/

theorem deposits {machines : List DepositStateMachine}
    (hshows : ∀ machine ∈ machines, ∀ deposit, machine.confirmed = some deposit →
      (utxoOf deposit .change).Shows (facts deposit.depositId))
    (hchange : ∀ request ∈ (depositFlows machines).requests,
      ¬(flows.claimed start request.1).change)
    (hspent : ∀ request ∈ (depositFlows machines).requests, request.1 ∉ flows.spent) :
    ∃ pool', pool.forAll UtxoPool.addDeposit (takeClosedDeposits machines) = (pool', []) ∧
      Holds facts start (flows ++ depositFlows machines) pool' := by
  induction machines generalizing flows pool with
  | nil => exact ⟨pool, rfl, (Flows.append_nil flows).symm ▸ h⟩
  | cons machine machines ih =>
      have hcons : depositFlows (machine :: machines) = machine.flows ++ depositFlows machines := rfl
      rw [hcons] at hchange hspent ⊢
      cases hconfirmed : machine.confirmed with
      | none =>
          have hflows : machine.flows = ⟨[], [], [], []⟩ := by
            rw [DepositStateMachine.flows, hconfirmed]
          have hfinished : machine.intoFinished = none := by
            rw [DepositStateMachine.intoFinished, hconfirmed, Option.map_none]
          rw [takeClosedDeposits, List.filterMap_cons_none hfinished]
          rw [hflows] at hchange hspent ⊢
          exact ih h (fun machine hmem => hshows machine (.tail _ hmem)) hchange hspent
      | some deposit =>
          let request := machine.suiRequest
          let origin := Claimed.requestOrigin request.timestampSecs request.amount machine.isApproved
          have hflows : machine.flows = .ofRequest deposit.depositId request.timestampSecs
              request.amount machine.isApproved := by
            rw [DepositStateMachine.flows, hconfirmed]
          have hfinished : machine.intoFinished = some (.new deposit origin) := by
            rw [DepositStateMachine.intoFinished, hconfirmed]
            rfl
          have hshows' : (utxoOf deposit origin).Shows (facts deposit.depositId) :=
            hshows machine (.head _) deposit hconfirmed
          have hmem : (deposit.depositId, request.timestampSecs, request.amount) ∈
              (machine.flows ++ depositFlows machines).requests := by
            simp [hflows, Flows.ofRequest]
          obtain ⟨pool₁, hadd, h₁⟩ := h.addRequest hshows' rfl (hchange _ hmem) (hspent _ hmem)
          rw [← hflows] at h₁
          have hchange₁ : ∀ request ∈ (depositFlows machines).requests,
              ¬((flows ++ machine.flows).claimed start request.1).change := by
            intro request hmem
            rw [Flows.change_append, hflows]
            simpa [Flows.ofRequest] using hchange request (List.mem_append_right _ hmem)
          have hspent₁ : ∀ request ∈ (depositFlows machines).requests,
              request.1 ∉ (flows ++ machine.flows).spent := by
            intro request hmem
            rw [hflows]
            simpa using hspent request (List.mem_append_right _ hmem)
          obtain ⟨pool₂, hrest, h₂⟩ :=
            ih h₁ (fun machine hmem => hshows machine (.tail _ hmem)) hchange₁ hspent₁
          refine ⟨pool₂, ?_, Flows.append_assoc flows _ _ ▸ h₂⟩
          rw [takeClosedDeposits, List.filterMap_cons_some hfinished]
          exact (forAll_cons_clean hadd).trans hrest

theorem changes {outputs : List (OutPoint × Utxo)}
    (hshows : ∀ output ∈ outputs, output.2.Shows (facts output.1) ∧ output.2.origin = .change)
    (hdeposited : ∀ output ∈ outputs, ¬(flows.claimed start output.1).deposited)
    (hspent : ∀ output ∈ outputs, output.1 ∉ flows.spent) :
    ∃ pool', pool.forAll (fun pool output => pool.add output.1 output.2) outputs = (pool', []) ∧
      Holds facts start (flows ++ ⟨[], [], outputs.map Prod.fst, []⟩) pool' := by
  induction outputs generalizing flows pool with
  | nil => exact ⟨pool, rfl, (Flows.append_nil flows).symm ▸ h⟩
  | cons output outputs ih =>
      obtain ⟨hshow, horigin⟩ := hshows output (.head _)
      obtain ⟨pool₁, hadd, h₁⟩ :=
        h.addChange hshow horigin (hdeposited output (.head _)) (hspent output (.head _))
      have hdeposited₁ : ∀ other ∈ outputs,
          ¬((flows ++ ⟨[], [], [output.1], []⟩).claimed start other.1).deposited := by
        intro other hmem
        rw [Flows.deposited_append]
        simpa using hdeposited other (.tail _ hmem)
      have hspent₁ : ∀ other ∈ outputs, other.1 ∉ (flows ++ ⟨[], [], [output.1], []⟩).spent := by
        intro other hmem
        simpa using hspent other (.tail _ hmem)
      obtain ⟨pool₂, hrest, h₂⟩ :=
        ih h₁ (fun output hmem => hshows output (.tail _ hmem)) hdeposited₁ hspent₁
      refine ⟨pool₂, ?_, ?_⟩
      · rw [← hrest]
        exact forAll_cons_clean hadd
      · rwa [Flows.append_assoc] at h₂

theorem inputs {inputs : List (OutPoint × Txid)}
    (hmove : ∀ input ∈ inputs, (flows.claimed start input.1).InMovePool)
    (hspent : ∀ input ∈ inputs, input.1 ∉ flows.spent) (honce : (inputs.map Prod.fst).Nodup) :
    ∃ pool', pool.forAll (fun pool input => pool.spend input.1 input.2) inputs = (pool', []) ∧
      Holds facts start (flows ++ ⟨[], [], [], inputs.map Prod.fst⟩) pool' := by
  induction inputs generalizing flows pool with
  | nil => exact ⟨pool, rfl, (Flows.append_nil flows).symm ▸ h⟩
  | cons input inputs ih =>
      obtain ⟨hfirst, honce⟩ := List.nodup_cons.mp honce
      obtain ⟨pool₁, hspend, h₁⟩ :=
        h.spend input.2 (hspent input (.head _)) (hmove input (.head _))
      have hmove₁ : ∀ other ∈ inputs,
          ((flows ++ ⟨[], [], [], [input.1]⟩).claimed start other.1).InMovePool := by
        intro other hmem
        rw [Flows.claimed_spent]
        exact hmove other (.tail _ hmem)
      have hspent₁ : ∀ other ∈ inputs, other.1 ∉ (flows ++ ⟨[], [], [], [input.1]⟩).spent := by
        intro other hmem
        rw [Flows.append_spent, List.mem_append, List.mem_singleton, not_or]
        refine ⟨hspent other (.tail _ hmem), fun heq => hfirst ?_⟩
        rw [← heq]
        exact List.mem_map_of_mem hmem
      obtain ⟨pool₂, hrest, h₂⟩ := ih h₁ hmove₁ hspent₁ honce
      refine ⟨pool₂, ?_, ?_⟩
      · rw [← hrest]
        exact forAll_cons_clean hspend
      · rwa [Flows.append_assoc] at h₂

end Holds

end HashiBridge.Monitor
