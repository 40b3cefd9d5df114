import HashiBridge.Core.Lemmas.EpochInvariant

/-!
# Committees behind the current one

A committee behind the current epoch has handed over, and a handoff stays for good.
-/

namespace HashiBridge.Core

open Lib

structure EpochState.After (s s' : EpochState) : Prop where
  handedOver : ∀ {e}, e ∈ s'.committees → e < s'.epoch → e ∈ s'.handoffs
  epoch_le : s.epoch ≤ s'.epoch
  handoffs : ∀ {e}, e ∈ s.handoffs → e ∈ s'.handoffs

theorem EpochState.After.step {certifies : Committee → Committee → CommitteeSignature → Prop}
    {now : Nat} {s₀ s s' : EpochState} {op : EpochOp} {activated : List Nat} (h : s₀.After s)
    (hinv : EpochInv certifies now s activated) (hstep : s.Step certifies now op s') :
    s₀.After s' := by
  cases hstep with
  | start _ _ _ _ =>
      refine ⟨fun he hlt => ?_, h.epoch_le, h.handoffs⟩
      rcases Finmap.mem_insert.mp he with rfl | he
      · -- the new committee is not behind the current one
        rcases hinv.epoch_le with hle | hkey
        · exact absurd hlt (Nat.not_lt.mpr hle)
        · exact absurd hlt (by simp [(hinv.unlaunched hkey).1])
      · exact h.handedOver he hlt
  | handoff => exact ⟨h.handedOver, h.epoch_le, h.handoffs⟩
  | genesis hpending _ hkey _ =>
      refine ⟨fun he hlt => ?_, ?_, h.handoffs⟩
      · have hp := hinv.unlaunched_committees hkey he
        rw [EpochState.pendingEpoch, hpending] at hp
        cases hp
        exact absurd hlt (Nat.lt_irrefl _)
      · exact h.epoch_le.trans (by simp [(hinv.unlaunched hkey).1])
  | finish hpending _ hkey _ =>
      have hp : s.pendingEpoch = some now := by rw [EpochState.pendingEpoch, hpending]; rfl
      refine ⟨fun {e} he hlt => Finmap.mem_insert.mpr ?_,
        h.epoch_le.trans (hinv.pending_lt hkey hp).le,
        fun he => Finmap.mem_insert.mpr (.inr (h.handoffs he))⟩
      rcases hinv.committee_le hkey he with hle | hpend
      · rcases hle.eq_or_lt with heq | hlt
        · exact .inl heq
        · exact .inr (h.handedOver he hlt)
      · rw [hp, Option.some.injEq] at hpend
        exact absurd hlt (by simp [hpend])
  | abort =>
      exact ⟨fun he => h.handedOver (Finmap.mem_erase.mp he).2, h.epoch_le, h.handoffs⟩

namespace CommitteeSet

variable {set : CommitteeSet}

theorem committeeAbove_iff {bound n : Nat} :
    set.committeeAbove bound n = true ↔ ∃ e, bound ≤ e ∧ e < n ∧ e ∈ set.committees := by
  induction n with
  | zero => simp [committeeAbove]
  | succ n ih =>
      rw [committeeAbove, Bool.and_eq_true, Bool.or_eq_true, ih, decide_eq_true_eq, decide_eq_true_eq]
      constructor
      · rintro ⟨hbound, hhas | ⟨e, hle, hlt, hmem⟩⟩
        · exact ⟨n, by omega, by omega, hhas⟩
        · exact ⟨e, hle, by omega, hmem⟩
      · rintro ⟨e, hle, hlt, hmem⟩
        refine ⟨by omega, ?_⟩
        by_cases he : e = n
        · exact .inl (he ▸ hmem)
        · exact .inr ⟨e, hle, by omega, hmem⟩

theorem isBeforePreviousCommittee_eq_ok {epoch : Nat} :
    set.isBeforePreviousCommittee epoch = .ok true ↔
      epoch + 1 < U64_SIZE ∧ ∃ e, epoch < e ∧ e < set.epoch ∧ e ∈ set.committees := by
  simp only [isBeforePreviousCommittee, bind_eq_ok, addU64_eq_ok, pure_eq_ok]
  constructor
  · rintro ⟨_, ⟨hfits, rfl⟩, habove⟩
    exact ⟨hfits, committeeAbove_iff.mp habove⟩
  · rintro ⟨hfits, hmem⟩
    exact ⟨_, ⟨hfits, rfl⟩, committeeAbove_iff.mpr hmem⟩

end CommitteeSet

end HashiBridge.Core
