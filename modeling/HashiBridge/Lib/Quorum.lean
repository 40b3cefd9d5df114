import HashiBridge.Lib.Bitmap

/-!
# Weighted quorums

The weight of a set of positions of a list, and how far two heavy sets overlap.
-/

namespace HashiBridge.Lib

variable {α : Type*} (weight : α → Nat)

def weightAt (xs : List α) (i : Nat) : Nat := (xs[i]?.map weight).getD 0

def weightOf (xs : List α) (s : Finset Nat) : Nat := s.sum (weightAt weight xs)

variable {weight} {xs : List α}

theorem sum_select_eq (is : List Nat) :
    ((select xs is).map weight).sum = (is.map (weightAt weight xs)).sum := by
  induction is with
  | nil => rfl
  | cons i is ih =>
      cases h : xs[i]? with
      | none => simpa [select, weightAt, h] using ih
      | some x => simpa [select, weightAt, h] using ih

theorem weightOf_toFinset {is : List Nat} (his : is.Nodup) :
    weightOf weight xs is.toFinset = ((select xs is).map weight).sum := by
  rw [weightOf, List.sum_toFinset _ his, sum_select_eq]

theorem weightOf_mono {s t : Finset Nat} (h : s ⊆ t) :
    weightOf weight xs s ≤ weightOf weight xs t :=
  Finset.sum_le_sum_of_subset h

theorem weightOf_le_total (s : Finset Nat) : weightOf weight xs s ≤ (xs.map weight).sum := by
  have hsub := (select_sublist s.sortedLT_sort.pairwise xs).map weight
  calc weightOf weight xs s = weightOf weight xs (s.sort (· ≤ ·)).toFinset := by
        rw [Finset.sort_toFinset]
    _ = ((select xs (s.sort (· ≤ ·))).map weight).sum :=
        weightOf_toFinset (Finset.sort_nodup s _)
    _ ≤ (xs.map weight).sum := hsub.sum_le_sum fun _ _ => Nat.zero_le _

theorem weight_add_le (s t : Finset Nat) :
    weightOf weight xs s + weightOf weight xs t ≤
      (xs.map weight).sum + weightOf weight xs (s ∩ t) := by
  have hunion : weightOf weight xs (s ∪ t) ≤ (xs.map weight).sum := weightOf_le_total _
  have hsplit : weightOf weight xs (s ∪ t) + weightOf weight xs (s ∩ t) =
      weightOf weight xs s + weightOf weight xs t := Finset.sum_union_inter
  omega

end HashiBridge.Lib
