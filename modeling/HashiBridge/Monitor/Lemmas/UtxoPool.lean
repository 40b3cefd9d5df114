import HashiBridge.Monitor.UtxoPool

/-!
# Updates of the pool

What adding and spending do to the pool where Bitcoin's facts agree with what it holds.
-/

namespace HashiBridge.Monitor.UtxoPool

open Lib Guardian

variable {pool : UtxoPool} {outpoint : OutPoint} {utxo held : Utxo} {origin : UtxoOrigin}
  {deposit : BtcConfirmedDeposit} {sui : SuiDepositApprovedEvent}

/-! ## Adding -/

theorem add_absent (h : pool.utxos.lookup outpoint = none) :
    pool.add outpoint utxo = (⟨pool.utxos.insert outpoint utxo⟩, []) := by
  rw [add, h]

theorem add_held (h : pool.utxos.lookup outpoint = some held)
    (horigin : held.origin.updatedBy utxo.origin = some origin) (hamount : held.amount = utxo.amount)
    (hscript : held.scriptPubkey = utxo.scriptPubkey) :
    pool.add outpoint utxo =
      (⟨pool.utxos.insert outpoint { held with origin }⟩, []) := by
  rw [add, h]
  simp [horigin, hamount, hscript]

theorem updatedBy_deposit {held new : UtxoOrigin} (hheld : held ≠ .change) (hnew : new ≠ .change) :
    ∃ origin ≠ .change, held.updatedBy new = some origin ∧
      (held = .deposit ∨ new = .deposit → origin = .deposit) := by
  cases held with
  | change => exact absurd rfl hheld
  | deposit =>
      refine ⟨.deposit, by simp, ?_, fun _ => rfl⟩
      cases new with
      | change => exact absurd rfl hnew
      | deposit => rfl
      | unapprovedDeposit requestedAt requestedAmount => rfl
  | unapprovedDeposit heldAt heldAmount =>
      cases new with
      | change => exact absurd rfl hnew
      | deposit => exact ⟨.deposit, by simp, rfl, fun _ => rfl⟩
      | unapprovedDeposit requestedAt requestedAmount =>
          refine ⟨_, ?_, rfl, by simp⟩
          split_ifs <;> simp

/-! ## Many items -/

section

variable {α β : Type} (update : UtxoPool → α → UtxoPool × List MonitorFinding) (items : List α)

theorem forAll_from (state : UtxoPool × List MonitorFinding) :
    items.foldl (fun state item =>
        ((update state.1 item).1, state.2 ++ (update state.1 item).2)) state =
      ((state.1.forAll update items).1, state.2 ++ (state.1.forAll update items).2) := by
  induction items generalizing state with
  | nil => simp [forAll]
  | cons item items ih =>
      rw [forAll, List.foldl_cons, List.foldl_cons, ih, ih]
      simp

theorem forAll_cons (item : α) :
    pool.forAll update (item :: items) =
      (((update pool item).1.forAll update items).1,
        (update pool item).2 ++ ((update pool item).1.forAll update items).2) := by
  rw [forAll, List.foldl_cons, forAll_from, List.nil_append]

theorem forAll_append (later : List α) :
    pool.forAll update (items ++ later) =
      (((pool.forAll update items).1.forAll update later).1,
        (pool.forAll update items).2 ++ ((pool.forAll update items).1.forAll update later).2) := by
  rw [forAll, List.foldl_append, forAll_from]
  rfl

theorem forAll_flatMap (parts : β → List α) (wholes : List β) :
    pool.forAll (fun pool whole => pool.forAll update (parts whole)) wholes =
      pool.forAll update (wholes.flatMap parts) := by
  induction wholes generalizing pool with
  | nil => rfl
  | cons whole wholes ih => rw [forAll_cons, List.flatMap_cons, forAll_append, ih]

variable {update items}

theorem forAll_cons_clean {item : α} {next : UtxoPool} (h : update pool item = (next, [])) :
    pool.forAll update (item :: items) = next.forAll update items := by
  rw [forAll_cons, h, List.nil_append]

end

theorem changeOutputs_origin {withdrawal : FinishedWithdrawal} {output : OutPoint × Utxo}
    (h : output ∈ changeOutputs withdrawal) : output.2.origin = .change := by
  obtain ⟨_, -, rfl⟩ := List.mem_map.mp h
  rfl

theorem addChangeOutputs_all (withdrawals : List FinishedWithdrawal) :
    pool.forAll addChangeOutputs withdrawals =
      pool.forAll (fun pool output => pool.add output.1 output.2)
        (withdrawals.flatMap changeOutputs) :=
  forAll_flatMap _ changeOutputs withdrawals

def spends (withdrawal : FinishedWithdrawal) : List (OutPoint × Txid) :=
  withdrawal.confirmation.inputs.map fun input => (input, withdrawal.txid)

theorem spendInputs_all (withdrawals : List FinishedWithdrawal) :
    pool.forAll spendInputs withdrawals =
      pool.forAll (fun pool spend => pool.spend spend.1 spend.2) (withdrawals.flatMap spends) := by
  have hone : spendInputs = fun pool withdrawal =>
      pool.forAll (fun pool spend => pool.spend spend.1 spend.2) (spends withdrawal) := by
    funext pool withdrawal
    rw [spendInputs, forAll, forAll, spends, List.foldl_map]
  rw [hone, forAll_flatMap]

/-! ## Approving -/

theorem markApproved_held (h : pool.utxos.lookup outpoint = some held)
    (hchange : held.origin ≠ .change) :
    pool.markApproved outpoint =
      ⟨pool.utxos.insert outpoint { held with origin := .deposit }⟩ := by
  rw [markApproved, h]
  cases horigin : held.origin with
  | change => exact absurd horigin hchange
  | unapprovedDeposit requestedAt requestedAmount => simp [horigin]
  | deposit =>
      have hsame : { held with origin := .deposit } = held := by rw [← horigin]
      simp only [horigin]
      rw [hsame, Bag.insert_lookup_self h]

/-! ## A pool that agrees with Bitcoin -/

/-- The pool has nothing else at the deposit's outpoint than Bitcoin does. A pool that holds change of the
bridge there does not agree: Move refuses to approve such an output. -/
def Agrees (pool : UtxoPool) (deposit : BtcConfirmedDeposit) : Prop :=
  ∀ held, pool.utxos.lookup deposit.depositId = some held → held.origin ≠ .change ∧
    held.amount = deposit.amount ∧ held.scriptPubkey = deposit.scriptPubkey ∧
    held.firstSeen = deposit.blockTime

def utxoOf (deposit : BtcConfirmedDeposit) (origin : UtxoOrigin) : Utxo :=
  (FinishedDeposit.new deposit origin).utxo

theorem Agrees.eq_utxoOf (h : pool.Agrees deposit)
    (hheld : pool.utxos.lookup deposit.depositId = some held) :
    held = utxoOf deposit held.origin ∧ held.origin ≠ .change := by
  obtain ⟨hchange, hamount, hscript, hseen⟩ := h held hheld
  refine ⟨?_, hchange⟩
  rw [utxoOf, FinishedDeposit.new, ← hamount, ← hscript, ← hseen]

theorem addDeposit_agreeing (h : pool.Agrees deposit) (new : UtxoOrigin) (hnew : new ≠ .change) :
    ∃ origin ≠ .change, pool.addDeposit (.new deposit new) =
      (⟨pool.utxos.insert deposit.depositId (utxoOf deposit origin)⟩, []) ∧
      (new = .deposit → origin = .deposit) := by
  cases hheld : pool.utxos.lookup deposit.depositId with
  | none => exact ⟨new, hnew, add_absent hheld, id⟩
  | some held =>
      obtain ⟨heq, hchange⟩ := h.eq_utxoOf hheld
      obtain ⟨origin, horigin, hupdated, hdeposit⟩ := updatedBy_deposit hchange hnew
      rw [heq] at hheld
      exact ⟨origin, horigin, add_held hheld hupdated rfl rfl, fun hnew => hdeposit (.inr hnew)⟩

theorem checkSuiApproval_held (hid : deposit.depositId = sui.depositId)
    (h : pool.utxos.lookup deposit.depositId = some (utxoOf deposit origin))
    (hchange : origin ≠ .change) (skew : Nat) :
    pool.checkSuiApproval sui skew =
      (⟨pool.utxos.insert deposit.depositId (utxoOf deposit .deposit)⟩,
        sui.judge (some deposit) skew) := by
  rw [checkSuiApproval, ← hid, h, markApproved_held h hchange]
  simp [utxoOf, FinishedDeposit.new, Option.filter_some, hchange]

end HashiBridge.Monitor.UtxoPool
