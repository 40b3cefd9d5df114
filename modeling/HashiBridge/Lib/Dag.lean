import Mathlib

/-!
# Heights in an acyclic graph

A graph gives every node the list of its parents. Where no node descends from itself, the height of
a node is the length of the longest chain of ancestors that ends in it.
-/

namespace HashiBridge.Lib

universe u

variable {α : Type u} {parents : α → List α}

def Parent (parents : α → List α) (p w : α) : Prop := p ∈ parents w

def Above (parents : α → List α) : α → α → Prop := Relation.ReflTransGen (Parent parents)

structure Acyclic (parents : α → List α) : Prop where
  wf : WellFounded (Parent parents)

theorem Above.refl (w : α) : Above parents w w := Relation.ReflTransGen.refl

theorem Above.head {v p w : α} (h : p ∈ parents w) (hv : Above parents v p) : Above parents v w :=
  Relation.ReflTransGen.tail hv h

theorem above_iff {v w : α} :
    Above parents v w ↔ v = w ∨ ∃ p ∈ parents w, Above parents v p := by
  constructor
  · intro h
    cases h with
    | refl => exact .inl rfl
    | tail hv hp => exact .inr ⟨_, hp, hv⟩
  · rintro (rfl | ⟨p, hp, hv⟩)
    · exact .refl v
    · exact .head hp hv

/-! ## Heights -/

theorem foldl_max_le {xs : List Nat} {a b : Nat} :
    xs.foldl max a ≤ b ↔ a ≤ b ∧ ∀ x ∈ xs, x ≤ b := by
  induction xs generalizing a with
  | nil => simp
  | cons x xs ih => simp [ih, and_assoc]

theorem le_foldl_max {xs : List Nat} {a x : Nat} (h : x ∈ xs) : x ≤ xs.foldl max a :=
  (foldl_max_le.mp (Nat.le_refl (xs.foldl max a))).2 x h

namespace Acyclic

/-- The number of nodes of the longest chain that ends in a node. -/
noncomputable def height (h : Acyclic parents) : α → Nat :=
  h.wf.fix fun w ih => 1 + ((parents w).attach.map fun p => ih p.1 p.2).foldl max 0

variable (h : Acyclic parents) {v p w : α}

theorem height_eq (w : α) : h.height w = 1 + ((parents w).map h.height).foldl max 0 := by
  rw [height, WellFounded.fix_eq]
  congr 2
  exact List.attach_map_val

theorem height_pos (w : α) : 0 < h.height w := by
  rw [h.height_eq]
  omega

theorem height_lt (hp : p ∈ parents w) : h.height p < h.height w := by
  rw [h.height_eq w]
  have := le_foldl_max (a := 0) (List.mem_map_of_mem (f := h.height) hp)
  omega

theorem height_le_of_above (hv : Above parents v w) : h.height v ≤ h.height w := by
  induction hv with
  | refl => exact Nat.le_refl _
  | tail _ hp ih => exact ih.trans (h.height_lt hp).le

theorem eq_of_above_of_height (hv : Above parents v w) (heq : h.height v = h.height w) : v = w := by
  obtain rfl | ⟨p, hp, hvp⟩ := above_iff.mp hv
  · rfl
  · have := h.height_le_of_above hvp
    have := h.height_lt hp
    omega

include h in
theorem not_above_parent (hp : p ∈ parents w) : ¬ Above parents w p := by
  intro hw
  have hle := height_le_of_above h hw
  have hlt := h.height_lt hp
  omega

theorem card_le_of_chain {s : Finset α} {n : Nat}
    (hchain : ∀ v ∈ s, ∀ w ∈ s, Above parents v w ∨ Above parents w v)
    (hheight : ∀ w ∈ s, h.height w ≤ n) : s.card ≤ n := by
  have hmaps : ∀ w ∈ s, h.height w ∈ Finset.Icc 1 n := fun w hw =>
    Finset.mem_Icc.mpr ⟨h.height_pos w, hheight w hw⟩
  have hinj : Set.InjOn h.height (s : Set α) := by
    intro v hv w hw heq
    rcases hchain v hv w hw with hvw | hwv
    · exact h.eq_of_above_of_height hvw heq
    · exact (h.eq_of_above_of_height hwv heq.symm).symm
  calc s.card ≤ (Finset.Icc 1 n).card := Finset.card_le_card_of_injOn h.height hmaps hinj
    _ = n := by simp

end Acyclic

/-! ## Unions -/

section Union

variable [DecidableEq α]

def unionAll (sets : List (Finset α)) : Finset α := sets.foldr (· ∪ ·) ∅

theorem mem_unionAll {sets : List (Finset α)} {a : α} :
    a ∈ unionAll sets ↔ ∃ s ∈ sets, a ∈ s := by
  induction sets with
  | nil => simp [unionAll]
  | cons s rest ih =>
      have : unionAll (s :: rest) = s ∪ unionAll rest := rfl
      simp [this, ih]

end Union

end HashiBridge.Lib
