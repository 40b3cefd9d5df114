import HashiBridge.Chain.Lemmas.Reachable

/-!
# Presignatures are used once

A presignature is an index of an epoch's allocator. Over any history, with reconfigurations completed
and aborted at any time, it is given to one input slot of one withdrawal, with one randomness.
-/

namespace HashiBridge.Chain

open Lib HashiBridge.Core Btc

variable {env : Env} {activated : List Nat} {w w' : World} {label : Label}

def Label.Reallocates (x : Address) (label : Label) : Prop :=
  ∃ sender digest fresh randomness,
    label = .call sender digest fresh (.bridge (.reallocatePresigs x randomness))

/-- What a reallocation of `x` leaves: each pending slot of its stale batch takes the index at its
place among the pending slots, from the counter on; the signed slots stay. -/
structure TakesNextBlock (w : World) (t t' : WithdrawalTransaction) (w' : World) : Prop where
  epoch_eq : w'.hashi.committeeSet.epoch = w.hashi.committeeSet.epoch
  numConsumed_eq : w'.hashi.presigAllocator.numConsumed =
    w.hashi.presigAllocator.numConsumed + t.signing.pendingCount
  slots : ∀ k, t'.signing.signatures[k]? = (t.signing.signatures[k]?).map
    (SigningBatch.reslot (w.hashi.presigAllocator.numConsumed +
      SigningBatch.pendingBefore t.signing.signatures k))

theorem reallocates_of_allocates (hinv : w.Inv env activated) (h : Refines env w label w')
    {x : Address} {t : WithdrawalTransaction} (ht : w.ledger.queue.txnAt x = some t)
    (hlabel : label.allocates = some x) : label.Reallocates x := by
  unfold Label.allocates at hlabel
  split at hlabel
  · cases hlabel
    exact ⟨_, _, _, _, rfl⟩
  · exact absurd (hinv.txn_ids ht) (h.fresh_new x (label.fresh_of_commits x hlabel))

theorem Label.Reallocates.reassign {x : Address} (hlabel : label.Reallocates x)
    (h : Refines env w label w') : Ledger.Step w.ledger (.reassign x) w'.ledger := by
  obtain ⟨sender, digest, fresh, randomness, rfl⟩ := hlabel
  obtain ⟨ops, heffect, hrun⟩ := h.ledger
  cases heffect
  exact hrun.of_single

/-- A stale batch becomes current by reallocation only, with the next block of indices. -/
theorem stale_batch_step (hinv : w.Inv env activated) (hstep : Step env w label w') {x : Address}
    {t t' : WithdrawalTransaction} (ht : w.ledger.queue.txnAt x = some t)
    (hstale : t.signing.epoch ≠ w.hashi.committeeSet.epoch)
    (ht' : w'.ledger.queue.txnAt x = some t')
    (hcurrent : t'.signing.epoch = w'.hashi.committeeSet.epoch) :
    label.Reallocates x ∧ TakesNextBlock w t t' w' := by
  have h := hstep.refines hinv
  by_cases hlabel : label.allocates = some x
  · have hreallocates := reallocates_of_allocates hinv h ht hlabel
    refine ⟨hreallocates, ?_⟩
    obtain ⟨t₀, t₁, ht₀, ht₁, hepoch, hcount, hreassigns⟩ := (hreallocates.reassign h).reassign_inv
    rw [ht, Option.some.injEq] at ht₀
    rw [ht', Option.some.injEq] at ht₁
    subst ht₀ ht₁
    exact ⟨hepoch, hcount, (SigningBatch.reallocate_block hreassigns.signing_eq).2.2⟩
  · obtain ⟨ops, heffect, hrun⟩ := h.ledger
    refine absurd hcurrent (Ledger.stale_kept_run hinv.sound hrun (fun op hop => ?_) ht hstale ht')
    rwa [(heffect.announces hop).allocates]

theorem no_second_reallocation (hinv : w.Inv env activated) {x : Address}
    {t : WithdrawalTransaction} (ht : w.ledger.queue.txnAt x = some t)
    (hcurrent : t.signing.epoch = w.hashi.committeeSet.epoch) (hlabel : label.Reallocates x) :
    ¬ Step env w label w' := by
  intro hstep
  obtain ⟨t₀, t₁, ht₀, -, -, -, hreassigns⟩ :=
    (hlabel.reassign (hstep.refines hinv)).reassign_inv
  rw [ht, Option.some.injEq] at ht₀
  subst ht₀
  exact (SigningBatch.reallocate_block hreassigns.signing_eq).1 hcurrent

variable {id epoch clock : Nat} {tr : List Label}

/-- Single use of presignatures. At two times of a history, a presignature is held by the same slot
with the same randomness. The pending slots of current batches hold distinct indices below the
counter. A stale batch becomes current by a reallocation only, which takes one contiguous block in
slot order, and it is not reallocated again in that epoch. -/
theorem presigs_used_once (hrun : Run (Step env) (publish id epoch clock) tr w) :
    (∀ {tr' w' e i x j ρ x' j' ρ'}, Run (Step env) w tr' w' →
      w.hashi.bitcoin.withdrawalQueue.Holds e i x j ρ →
      w'.hashi.bitcoin.withdrawalQueue.Holds e i x' j' ρ' → x' = x ∧ j' = j ∧ ρ' = ρ) ∧
    (∀ {i x j ρ}, w.hashi.bitcoin.withdrawalQueue.Holds w.hashi.committeeSet.epoch i x j ρ →
      i < w.hashi.presigAllocator.numConsumed ∧
      ∀ {i' x' j' ρ'}, w.hashi.bitcoin.withdrawalQueue.Holds w.hashi.committeeSet.epoch i' x' j' ρ' →
        (x', j') ≠ (x, j) → i' ≠ i) ∧
    (∀ {label w' x t t'}, Step env w label w' →
      w.hashi.bitcoin.withdrawalQueue.txnAt x = some t →
      t.signing.epoch ≠ w.hashi.committeeSet.epoch →
      w'.hashi.bitcoin.withdrawalQueue.txnAt x = some t' →
      t'.signing.epoch = w'.hashi.committeeSet.epoch →
      label.Reallocates x ∧ TakesNextBlock w t t' w') ∧
    (∀ {tr' w' label w'' x t}, w.hashi.bitcoin.withdrawalQueue.txnAt x = some t →
      t.signing.epoch = w.hashi.committeeSet.epoch → Run (Step env) w tr' w' →
      w'.hashi.committeeSet.epoch = w.hashi.committeeSet.epoch → label.Reallocates x →
      ¬ Step env w' label w'') := by
  have hinv := World.Inv.reachable hrun
  refine ⟨?_, ?_, fun hstep => stale_batch_step hinv hstep, ?_⟩
  · intro tr' w' e i x j ρ x' j' ρ' hrun' hheld hheld'
    obtain ⟨ops, hops⟩ := hinv.ledger_run hrun'
    exact hinv.sound.presigs.holds_unique hops hheld hheld'
  · intro i x j ρ hheld
    refine ⟨?_, fun hheld' hne heq => hne ?_⟩
    · rcases hinv.sound.presigs.consumed hheld with hlt | ⟨-, hlt⟩
      exacts [absurd hlt (Nat.lt_irrefl _), hlt]
    · obtain ⟨rfl, rfl⟩ := hinv.sound.presigs.unique hheld (heq ▸ hheld')
      rfl
  · intro tr' w' label w'' x t ht hcurrent hrun' hepoch hlabel
    obtain ⟨ops, hops⟩ := hinv.ledger_run hrun'
    obtain ⟨t', ht', hcurrent'⟩ := Ledger.current_batch_run hinv.sound hops ht hcurrent hepoch
    exact no_second_reallocation (hinv.run hrun') ht' hcurrent' hlabel

/-- A withdrawal committed in epoch 0 and reallocated in epoch 1: its slot held index 0 of epoch 0, it
holds index 0 of epoch 1 with new randomness, and no other slot does. -/
theorem presigs_used_once_of_rotation : ∃ w w',
    Run (Step Sample.env) (publish 99 0 0) (Sample.launch ++ Sample.deposits ++ Sample.withdrawal ++
      Sample.rotation) w ∧
    Step Sample.env w (Sample.call 1033 (.bridge (.reallocatePresigs 1018 [2]))) w' ∧
    w.hashi.bitcoin.withdrawalQueue.Holds 0 0 1018 0 [1] ∧
    w'.hashi.bitcoin.withdrawalQueue.Holds 1 0 1018 0 [2] ∧
    ∀ {x j ρ}, w'.hashi.bitcoin.withdrawalQueue.Holds 1 0 x j ρ → x = 1018 ∧ j = 0 ∧ ρ = [2] := by
  obtain ⟨w, hrun, htest⟩ := run_of_reaches Sample.env (publish 99 0 0)
    (Sample.launch ++ Sample.deposits ++ Sample.withdrawal ++ Sample.rotation)
    (fun w => decide ((w.hashi.bitcoin.withdrawalQueue.txnAt 1018).map
        (fun t => (t.signing, t.randomness)) = some (⟨[.pending ⟨0⟩], 0⟩, [1])) &&
      reaches Sample.env w [Sample.call 1033 (.bridge (.reallocatePresigs 1018 [2]))]
        (fun w' => decide ((w'.hashi.bitcoin.withdrawalQueue.txnAt 1018).map
          (fun t => (t.signing, t.randomness)) = some (⟨[.pending ⟨0⟩], 1⟩, [2]))))
    (by decide +kernel)
  obtain ⟨hbefore, hreaches⟩ := Bool.and_eq_true_iff.mp htest
  obtain ⟨w', hrun', hafter⟩ := run_of_reaches _ _ _ _ hreaches
  obtain ⟨t, ht, hsigning⟩ := Option.map_eq_some_iff.mp (of_decide_eq_true hbefore)
  obtain ⟨t', ht', hsigning'⟩ := Option.map_eq_some_iff.mp (of_decide_eq_true hafter)
  obtain ⟨hs, hρ⟩ := Prod.mk.inj hsigning
  obtain ⟨hs', hρ'⟩ := Prod.mk.inj hsigning'
  have hheld' : w'.hashi.bitcoin.withdrawalQueue.Holds 1 0 1018 0 [2] :=
    ⟨t', ht', by rw [hs'], by rw [hs']; rfl, hρ'⟩
  exact ⟨w, w', hrun, hrun'.of_single, ⟨t, ht, by rw [hs], by rw [hs]; rfl, hρ⟩, hheld',
    (presigs_used_once (hrun.trans hrun')).1 .nil hheld'⟩

end HashiBridge.Chain
