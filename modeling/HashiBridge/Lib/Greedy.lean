import Mathlib

/-!
# Greedy choices from a list

Taking candidates in descending order of value reaches a total with as few of them as any choice
does.
-/

namespace HashiBridge.Lib

variable {α : Type*}

/-! ## Largest first -/

section Largest

variable {value : α → Nat}

theorem sum_map_le_of_subperm (value : α → Nat) {xs ys : List α} (h : xs.Subperm ys) :
    (xs.map value).sum ≤ (ys.map value).sum := by
  obtain ⟨zs, hperm, hsub⟩ := h
  rw [← (hperm.map value).sum_eq]
  exact (hsub.map value).sum_le_sum fun _ _ => Nat.zero_le _

theorem sum_le_sum_take {pool choice : List α} {k : Nat}
    (hsorted : pool.Pairwise fun a b => value b ≤ value a) (hchoice : choice.Subperm pool)
    (hk : choice.length ≤ k) : (choice.map value).sum ≤ ((pool.take k).map value).sum := by
  induction pool generalizing choice k with
  | nil =>
      obtain rfl := List.subperm_nil.mp hchoice
      simp
  | cons a pool ih =>
      obtain ⟨hfirst, hrest⟩ := List.pairwise_cons.mp hsorted
      obtain ⟨zs, hperm, hsub⟩ := hchoice
      rw [← (hperm.map value).sum_eq]
      rw [← hperm.length_eq] at hk
      cases zs with
      | nil => simp
      | cons z zs =>
          obtain ⟨k, rfl⟩ : ∃ j, k = j + 1 := ⟨k - 1, by simp at hk; omega⟩
          -- the first candidate is worth any that is chosen in its place
          have hz : value z ≤ value a ∧ zs.Sublist pool := by
            cases hsub with
            | cons _ h =>
                have hmem : z ∈ pool := h.subset List.mem_cons_self
                exact ⟨hfirst z hmem, (List.sublist_cons_self z zs).trans h⟩
            | cons_cons _ h => exact ⟨le_rfl, h⟩
          have htail := ih hrest hz.2.subperm (Nat.le_of_succ_le_succ hk)
          simp only [List.take_succ_cons, List.map_cons, List.sum_cons]
          omega

theorem le_length_of_covers {pool choice : List α} {k total : Nat}
    (hsorted : pool.Pairwise fun a b => value b ≤ value a)
    (hshort : ∀ j < k, ((pool.take j).map value).sum < total) (hchoice : choice.Subperm pool)
    (hcovers : total ≤ (choice.map value).sum) : k ≤ choice.length := by
  by_contra hlt
  have hless := hshort choice.length (by omega)
  have hmost := sum_le_sum_take hsorted hchoice le_rfl
  omega

end Largest

/-! ## Extending a choice -/

/-- Add candidates in order as long as the choice passes the test. -/
def extendWhile (p : List α → Bool) (chosen : List α) : List α → List α
  | [] => chosen
  | a :: rest => if p (chosen ++ [a]) then extendWhile p (chosen ++ [a]) rest else chosen

variable {p : List α → Bool} {chosen : List α}

theorem extendWhile_eq_append (p : List α → Bool) (chosen candidates : List α) :
    ∃ added, extendWhile p chosen candidates = chosen ++ added ∧ added <+: candidates := by
  induction candidates generalizing chosen with
  | nil => exact ⟨[], by simp [extendWhile]⟩
  | cons a rest ih =>
      unfold extendWhile
      split_ifs
      · obtain ⟨added, heq, hadded⟩ := ih (chosen ++ [a])
        exact ⟨a :: added, by simp [heq], List.cons_prefix_cons.mpr ⟨rfl, hadded⟩⟩
      · exact ⟨[], by simp⟩

theorem extendWhile_passes (hchosen : p chosen) (candidates : List α) :
    p (extendWhile p chosen candidates) := by
  induction candidates generalizing chosen with
  | nil => exact hchosen
  | cons a rest ih =>
      unfold extendWhile
      split_ifs with ha
      · exact ih ha
      · exact hchosen

theorem extendWhile_mono (p : List α → Bool) (chosen : List α) {xs ys : List α} (h : xs <+: ys) :
    extendWhile p chosen xs <+: extendWhile p chosen ys := by
  induction xs generalizing chosen ys with
  | nil =>
      obtain ⟨added, heq, _⟩ := extendWhile_eq_append p chosen ys
      rw [heq]
      exact List.prefix_append chosen added
  | cons a xs ih =>
      obtain ⟨b, ys, rfl⟩ : ∃ b zs, ys = b :: zs := by
        cases ys with
        | nil => simp at h
        | cons b zs => exact ⟨b, zs, rfl⟩
      obtain ⟨rfl, hrest⟩ := List.cons_prefix_cons.mp h
      unfold extendWhile
      split_ifs
      · exact ih (chosen ++ [a]) hrest
      · exact List.prefix_rfl

end HashiBridge.Lib
