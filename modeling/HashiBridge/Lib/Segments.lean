import Mathlib

/-!
# Consecutive segments

Segments of given sizes laid end to end: segment `k` starts where the sizes before it add up to.
-/

namespace HashiBridge.Lib

def offset (size : Nat → Nat) (k : Nat) : Nat := ∑ i ∈ Finset.range k, size i

variable {size size' : Nat → Nat} {j k g : Nat}

@[simp] theorem offset_zero (size : Nat → Nat) : offset size 0 = 0 := rfl

theorem offset_succ (size : Nat → Nat) (k : Nat) : offset size (k + 1) = offset size k + size k :=
  Finset.sum_range_succ size k

theorem offset_congr (h : ∀ i < k, size i = size' i) : offset size k = offset size' k :=
  Finset.sum_congr rfl fun i hi => h i (Finset.mem_range.mp hi)

theorem offset_mono (h : j ≤ k) : offset size j ≤ offset size k :=
  Finset.sum_le_sum_of_subset (Finset.range_subset_range.mpr h)

theorem offset_add_size_le (h : j < k) : offset size j + size j ≤ offset size k := by
  rw [← offset_succ]
  exact offset_mono h

/-- An index lies in one segment only. -/
theorem segment_unique (hj : offset size j ≤ g ∧ g < offset size j + size j)
    (hk : offset size k ≤ g ∧ g < offset size k + size k) : j = k := by
  rcases Nat.lt_trichotomy j k with h | h | h
  · have : offset size _ + size _ ≤ offset size _ := offset_add_size_le h
    omega
  · exact h
  · have : offset size _ + size _ ≤ offset size _ := offset_add_size_le h
    omega

theorem exists_segment {n : Nat} (h : g < offset size n) :
    ∃ i < n, offset size i ≤ g ∧ g < offset size i + size i := by
  induction n with
  | zero => exact absurd h (Nat.not_lt_zero g)
  | succ n ih =>
      rcases Nat.lt_or_ge g (offset size n) with hlt | hge
      · obtain ⟨i, hi, hsegment⟩ := ih hlt
        exact ⟨i, Nat.lt_succ_of_lt hi, hsegment⟩
      · rw [offset_succ] at h
        exact ⟨n, Nat.lt_succ_self n, hge, h⟩

/-- Find the segment of the `n`-th index from the start of segment `k` on, and the place in it. -/
def locate (size : Nat → Nat) : Nat → Nat → Nat → Option (Nat × Nat)
  | 0, _, _ => none
  | fuel + 1, k, n => if n < size k then some (k, n) else locate size fuel (k + 1) (n - size k)

theorem locate_eq_some {fuel n i r : Nat} :
    locate size fuel k n = some (i, r) ↔
      k ≤ i ∧ i < k + fuel ∧ offset size k + n = offset size i + r ∧ r < size i := by
  induction fuel generalizing k n with
  | zero =>
      simp only [locate, reduceCtorEq, false_iff]
      omega
  | succ fuel ih =>
      simp only [locate]
      split_ifs with hlt
      · constructor
        · intro h
          cases h
          exact ⟨le_rfl, by omega, rfl, hlt⟩
        · rintro ⟨-, -, heq, hr⟩
          obtain rfl : k = i :=
            @segment_unique size k i (offset size k + n) ⟨by omega, by omega⟩ ⟨by omega, by omega⟩
          rw [Nat.add_left_cancel heq]
      · rw [ih, offset_succ]
        constructor
        · rintro ⟨hk, hi, heq, hr⟩
          exact ⟨by omega, by omega, by omega, hr⟩
        · rintro ⟨hk, hi, heq, hr⟩
          have hne : k ≠ i := by
            rintro rfl
            omega
          exact ⟨by omega, by omega, by omega, hr⟩

theorem place_unique {α : Type} {xss : List (List α)} (hnodup : xss.flatten.Nodup)
    {k k' i i' : Nat} {xs xs' : List α} {a : α} (hk : xss[k]? = some xs) (hi : xs[i]? = some a)
    (hk' : xss[k']? = some xs') (hi' : xs'[i']? = some a) : k = k' ∧ i = i' := by
  obtain ⟨heach, hdisjoint⟩ := List.nodup_flatten.mp hnodup
  have hlt : ∀ {j j' : Nat} {ys ys' : List α}, xss[j]? = some ys → xss[j']? = some ys' → a ∈ ys →
      a ∈ ys' → ¬ j < j' := by
    intro j j' ys ys' hj hj' ha ha' hlt
    obtain ⟨hjlt, rfl⟩ := List.getElem?_eq_some_iff.mp hj
    obtain ⟨hjlt', rfl⟩ := List.getElem?_eq_some_iff.mp hj'
    exact List.pairwise_iff_getElem.mp hdisjoint j j' hjlt hjlt' hlt ha ha'
  have hmem := List.mem_of_getElem? hi
  have hmem' := List.mem_of_getElem? hi'
  obtain rfl : k = k' :=
    Nat.le_antisymm (Nat.le_of_not_lt (hlt hk' hk hmem' hmem)) (Nat.le_of_not_lt (hlt hk hk' hmem hmem'))
  obtain rfl : xs = xs' := Option.some.inj (hk.symm.trans hk')
  obtain ⟨hilt, hai⟩ := List.getElem?_eq_some_iff.mp hi
  obtain ⟨hilt', hai'⟩ := List.getElem?_eq_some_iff.mp hi'
  exact ⟨rfl, ((heach xs (List.mem_of_getElem? hk)).getElem_inj_iff).mp (hai.trans hai'.symm)⟩

end HashiBridge.Lib
