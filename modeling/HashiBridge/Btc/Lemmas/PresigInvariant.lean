import HashiBridge.Core.Lemmas.Signing
import HashiBridge.Btc.Ledger

/-!
# Single use of presignatures

A slot holds a presignature of its batch's epoch together with the transaction's randomness.
-/

namespace HashiBridge.Btc

open Lib HashiBridge.Core SigningBatch

/-- Slot `j` of transaction `w` is pending with presignature `i` of epoch `e`, to be signed with the
randomness `ρ`. -/
def WithdrawalRequestQueue.Holds (q : WithdrawalRequestQueue) (e i : Nat) (w : Address) (j : Nat)
    (ρ : Bytes) : Prop :=
  ∃ t, q.txnAt w = some t ∧ t.signing.epoch = e ∧
    t.signing.signatures[j]? = some (.pending ⟨i⟩) ∧ t.randomness = ρ

namespace Ledger

def Consumed (l : Ledger) (e i : Nat) : Prop := e < l.epoch ∨ (e = l.epoch ∧ i < l.numConsumed)

structure PresigInv (l : Ledger) : Prop where
  batch_epoch : ∀ {w t}, l.queue.txnAt w = some t → t.signing.epoch ≤ l.epoch
  consumed : ∀ {e i w j ρ}, l.queue.Holds e i w j ρ → l.Consumed e i
  unique : ∀ {e i w j ρ w' j' ρ'}, l.queue.Holds e i w j ρ → l.queue.Holds e i w' j' ρ' →
    w = w' ∧ j = j'

variable {l l' : Ledger} {op : Op}

theorem Consumed.step {e i : Nat} (h : l.Consumed e i) (hstep : Step l op l') :
    l'.Consumed e i := by
  unfold Consumed at h ⊢
  cases hstep with
  | commit | reassign =>
      simp only
      omega
  | @rotate epoch hle hsame =>
      simp only
      by_cases heq : l.epoch = epoch
      · obtain ⟨hzero, -⟩ := hsame heq
        omega
      · omega
  | receive | request | cancel | approve | fill | confirm | archiveRequest | archiveTxn | cleanup =>
      exact h

/-! ## Where an operation changes a batch -/

section Views

open WithdrawalRequestQueue

variable {q : WithdrawalRequestQueue} {w : Address} {t : WithdrawalTransaction}

theorem txnAt_of_lookup (h : q.withdrawalTxns.lookup w = some t) : q.txnAt w = some t := by
  rw [txnAt, h, Option.some_or]

theorem txnAt_insert (requests : Bag Address WithdrawalRequest) (w' : Address) :
    txnAt { q with requests, withdrawalTxns := q.withdrawalTxns.insert w t } w' =
      if w' = w then some t else q.txnAt w' := by
  simp only [txnAt, Bag.lookup_insert_ite]
  split_ifs <;> rfl

theorem txnAt_setTxn (w' : Address) :
    (q.setTxn w t).txnAt w' = if w' = w then some t else q.txnAt w' := txnAt_insert q.requests w'

theorem txnAt_archive (h : q.withdrawalTxns.lookup w = some t) (w' : Address) :
    txnAt { q with
      withdrawalTxns := q.withdrawalTxns.erase w
      confirmedTxns := q.confirmedTxns.insert w t } w' = q.txnAt w' := by
  simp only [txnAt, Bag.lookup_erase_ite, Bag.lookup_insert_ite]
  split_ifs with hw
  · rw [hw, h, Option.none_or, Option.some_or]
  · rfl

end Views

/-- What an operation can do to the transaction under an id: leave its signing data alone, create
it with the next block of presignatures, fill slots, or reassign a stale batch. -/
inductive SigningChange (l : Ledger) (op : Op) (l' : Ledger) (w : Address)
    (t' : WithdrawalTransaction) : Prop
  | same (t : WithdrawalTransaction) : l.queue.txnAt w = some t → t'.signing = t.signing →
      t'.randomness = t.randomness → SigningChange l op l' w t'
  | filled (t : WithdrawalTransaction) : l.queue.txnAt w = some t → Fills t t' →
      SigningChange l op l' w t'
  | fresh : op = .commit t' → t'.id = w → l.queue.txnAt w = none → l'.epoch = l.epoch →
      l'.numConsumed = l.numConsumed + t'.inputs.length →
      t'.signing = freshBatch l.numConsumed t'.inputs.length l.epoch → SigningChange l op l' w t'
  | reassigned (t : WithdrawalTransaction) : op = .reassign w → l.queue.txnAt w = some t →
      l'.epoch = l.epoch → l'.numConsumed = l.numConsumed + t.signing.pendingCount →
      l.Reassigns t t' → SigningChange l op l' w t'

theorem Step.signingChange (hstep : Step l op l') {w : Address} {t' : WithdrawalTransaction}
    (ht' : l'.queue.txnAt w = some t') : SigningChange l op l' w t' := by
  cases hstep with
  | @commit t records requests burned hc =>
      rw [txnAt_insert] at ht'
      split_ifs at ht' with hw
      · cases ht'
        subst hw
        exact .fresh rfl rfl hc.fresh rfl rfl hc.signing
      · exact .same t' ht' rfl rfl
  | @fill w₀ t t₁ ht hfills =>
      rw [txnAt_setTxn] at ht'
      split_ifs at ht' with hw
      · cases ht'
        subst hw
        exact .filled t (txnAt_of_lookup ht) hfills
      · exact .same t' ht' rfl rfl
  | @reassign w₀ t t₁ ht hreassigns =>
      rw [txnAt_setTxn] at ht'
      split_ifs at ht' with hw
      · cases ht'
        subst hw
        exact .reassigned t rfl (txnAt_of_lookup ht) rfl rfl hreassigns
      · exact .same t' ht' rfl rfl
  | @confirm w₀ t records now ht hunconfirmed hc =>
      rw [txnAt_setTxn] at ht'
      split_ifs at ht' with hw
      · cases ht'
        subst hw
        exact .same t (txnAt_of_lookup ht) rfl rfl
      · exact .same t' ht' rfl rfl
  | archiveTxn ht hconf hall =>
      rw [txnAt_archive ht] at ht'
      exact .same t' ht' rfl rfl
  | receive | request | cancel | approve | archiveRequest | cleanup | rotate =>
      exact .same t' ht' rfl rfl

/-! ## Slots are kept or taken from the next block -/

def KeepsSlots (l : Ledger) (w : Address) (t' : WithdrawalTransaction) : Prop :=
  ∀ (j : Nat) i, t'.signing.signatures[j]? = some (.pending ⟨i⟩) →
    l.queue.Holds t'.signing.epoch i w j t'.randomness

/-- The pending slots of the batch hold distinct presignatures of the block that the operation
allocates. -/
structure TakesBlock (l : Ledger) (op : Op) (l' : Ledger) (w : Address)
    (t' : WithdrawalTransaction) : Prop where
  allocates : op.allocates = some w
  epoch_eq : l'.epoch = l.epoch
  batch_epoch : t'.signing.epoch = l.epoch
  bounds : ∀ (j : Nat) i, t'.signing.signatures[j]? = some (.pending ⟨i⟩) →
    l.numConsumed ≤ i ∧ i < l'.numConsumed
  distinct : ∀ (j k : Nat) i, t'.signing.signatures[j]? = some (.pending ⟨i⟩) →
    t'.signing.signatures[k]? = some (.pending ⟨i⟩) → j = k

theorem freshBatch_slot {start count epoch : Nat} {j i : Nat}
    (h : (freshBatch start count epoch).signatures[j]? = some (.pending ⟨i⟩)) :
    j < count ∧ i = start + j := by
  simp only [freshBatch, List.getElem?_map, Option.map_eq_some_iff] at h
  obtain ⟨k, hk, hi⟩ := h
  obtain ⟨hlt, rfl⟩ := List.getElem?_eq_some_iff.mp hk
  simp at hlt hi
  exact ⟨hlt, hi.symm⟩

theorem reslotted {b b' : SigningBatch} {start epoch : Nat}
    (h : b.reallocate (block start b.pendingCount) epoch = .ok b') {j i : Nat}
    (hj : b'.signatures[j]? = some (.pending ⟨i⟩)) :
    (∃ p, b.signatures[j]? = some (.pending p)) ∧ i = start + pendingBefore b.signatures j := by
  obtain ⟨-, -, hslots⟩ := reallocate_block h
  rw [hslots, Option.map_eq_some_iff] at hj
  obtain ⟨s, hs, hreslot⟩ := hj
  cases s with
  | signed sig => cases hreslot
  | pending p =>
      simp only [reslot, MpcSig.pending.injEq, Presig.mk.injEq] at hreslot
      exact ⟨⟨p, hs⟩, hreslot.symm⟩

theorem SigningChange.slots {w : Address} {t' : WithdrawalTransaction}
    (h : SigningChange l op l' w t') : KeepsSlots l w t' ∨ TakesBlock l op l' w t' := by
  cases h with
  | same t ht hsigning hrandomness =>
      left
      intro j i hj
      exact ⟨t, ht, by rw [hsigning], by rw [← hsigning, hj], hrandomness.symm⟩
  | filled t ht hfills =>
      left
      intro j i hj
      exact ⟨t, ht, hfills.epoch_eq.symm, hfills.slots j _ hj, hfills.randomness_eq.symm⟩
  | fresh hop hid hnone hepoch hcount hsigning =>
      right
      refine ⟨by rw [hop, ← hid]; rfl, hepoch, by rw [hsigning]; rfl, ?_, ?_⟩
      · intro j i hj
        rw [hsigning] at hj
        obtain ⟨hlt, rfl⟩ := freshBatch_slot hj
        omega
      · intro j k i hj hk
        rw [hsigning] at hj hk
        have := (freshBatch_slot hj).2
        have := (freshBatch_slot hk).2
        omega
  | reassigned t hop ht hepoch hcount hreassigns =>
      right
      have hrealloc := hreassigns.signing_eq
      refine ⟨by rw [hop]; rfl, hepoch, (reallocate_block hrealloc).2.1, ?_, ?_⟩
      · intro j i hj
        obtain ⟨⟨p, hp⟩, rfl⟩ := reslotted hrealloc hj
        have := pendingBefore_lt_count hp
        omega
      · intro j k i hj hk
        obtain ⟨⟨p, hp⟩, hi⟩ := reslotted hrealloc hj
        obtain ⟨⟨q, hq⟩, hi'⟩ := reslotted hrealloc hk
        exact pendingBefore_inj hp hq (by omega)

theorem TakesBlock.not_consumed {w : Address} {t' : WithdrawalTransaction}
    (h : TakesBlock l op l' w t') {j i : Nat}
    (hj : t'.signing.signatures[j]? = some (.pending ⟨i⟩)) : ¬ l.Consumed t'.signing.epoch i := by
  have := h.bounds j i hj
  have := h.batch_epoch
  unfold Consumed
  omega

/-! ## The invariant -/

theorem Step.epoch_le (hstep : Step l op l') : l.epoch ≤ l'.epoch := by
  cases hstep with
  | rotate hle _ => exact hle
  | _ => exact Nat.le_refl _

theorem PresigInv.step (h : l.PresigInv) (hstep : Step l op l') : l'.PresigInv where
  batch_epoch := by
    intro w t' ht'
    have hle := hstep.epoch_le
    cases hstep.signingChange ht' with
    | same t ht hsigning _ =>
        rw [hsigning]
        exact (h.batch_epoch ht).trans hle
    | filled t ht hfills =>
        rw [hfills.epoch_eq]
        exact (h.batch_epoch ht).trans hle
    | fresh _ _ _ hepoch _ hsigning =>
        rw [hsigning, hepoch]
        exact Nat.le_refl _
    | reassigned t _ ht hepoch _ hreassigns =>
        rw [(reallocate_block hreassigns.signing_eq).2.1, hepoch]
  consumed := by
    rintro e i w j ρ ⟨t', ht', rfl, hj, -⟩
    rcases (hstep.signingChange ht').slots with hkeeps | htakes
    · exact (h.consumed (hkeeps j i hj)).step hstep
    · refine .inr ⟨by rw [htakes.batch_epoch, htakes.epoch_eq], (htakes.bounds j i hj).2⟩
  unique := by
    rintro e i w₁ j₁ ρ₁ w₂ j₂ ρ₂ ⟨t₁, ht₁, he₁, hj₁, -⟩ ⟨t₂, ht₂, he₂, hj₂, -⟩
    rcases (hstep.signingChange ht₁).slots with hkeeps₁ | htakes₁ <;>
      rcases (hstep.signingChange ht₂).slots with hkeeps₂ | htakes₂
    · have h₁ := hkeeps₁ j₁ i hj₁
      have h₂ := hkeeps₂ j₂ i hj₂
      rw [he₁] at h₁
      rw [he₂] at h₂
      exact h.unique h₁ h₂
    · -- a kept slot is consumed, a new one is not
      refine absurd (h.consumed (hkeeps₁ j₁ i hj₁)) ?_
      rw [he₁, ← he₂]
      exact htakes₂.not_consumed hj₂
    · refine absurd (h.consumed (hkeeps₂ j₂ i hj₂)) ?_
      rw [he₂, ← he₁]
      exact htakes₁.not_consumed hj₁
    · have hw : w₁ = w₂ := Option.some.inj (htakes₁.allocates.symm.trans htakes₂.allocates)
      subst hw
      rw [ht₁, Option.some.injEq] at ht₂
      subst ht₂
      exact ⟨rfl, htakes₁.distinct j₁ j₂ i hj₁ hj₂⟩

theorem Step.holds_before (hstep : Step l op l') {e i j : Nat} {w : Address} {ρ : Bytes}
    (hheld : l'.queue.Holds e i w j ρ) (hconsumed : l.Consumed e i) : l.queue.Holds e i w j ρ := by
  obtain ⟨t', ht', rfl, hj, rfl⟩ := hheld
  rcases (hstep.signingChange ht').slots with hkeeps | htakes
  · exact hkeeps j i hj
  · exact absurd hconsumed (htakes.not_consumed hj)

end Ledger

end HashiBridge.Btc
