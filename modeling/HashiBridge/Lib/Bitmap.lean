import Mathlib

/-!
# Bitmaps

A bitmap is a list of words of `width` bits. `setBits` lists the positions of its set bits in
order, and `select` takes the elements of a list at such positions.
-/

namespace HashiBridge.Lib

variable {α β : Type*}

/-! ## Set bits -/

/-- The positions of the set bits, the first word starting at `offset`. -/
def setBits (bit : β → Nat → Bool) (width : Nat) : Nat → List β → List Nat
  | _, [] => []
  | offset, word :: words =>
      ((List.range width).filter (bit word)).map (offset + ·) ++
        setBits bit width (offset + width) words

section SetBits

variable {bit : β → Nat → Bool} {width : Nat}

@[simp] theorem setBits_nil (offset : Nat) : setBits bit width offset [] = [] := rfl

@[simp] theorem setBits_cons (offset : Nat) (word : β) (words : List β) :
    setBits bit width offset (word :: words) =
      ((List.range width).filter (bit word)).map (offset + ·) ++
        setBits bit width (offset + width) words := rfl

theorem le_of_mem_setBits {words : List β} {offset i : Nat}
    (h : i ∈ setBits bit width offset words) : offset ≤ i := by
  induction words generalizing offset with
  | nil => simp at h
  | cons word words ih =>
      simp only [setBits_cons, List.mem_append, List.mem_map] at h
      rcases h with ⟨j, _, rfl⟩ | h
      · omega
      · have := ih h
        omega

theorem setBits_pairwise (offset : Nat) (words : List β) :
    (setBits bit width offset words).Pairwise (· < ·) := by
  induction words generalizing offset with
  | nil => simp
  | cons word words ih =>
      have hword : ((List.range width).filter (bit word)).Pairwise (· < ·) :=
        List.pairwise_lt_range.filter _
      rw [setBits_cons, List.pairwise_append]
      refine ⟨hword.map _ fun a b hab => by omega, ih _, ?_⟩
      intro i hi j hj
      simp only [List.mem_map, List.mem_filter, List.mem_range] at hi
      obtain ⟨k, ⟨hk, _⟩, rfl⟩ := hi
      have := le_of_mem_setBits hj
      omega

theorem setBits_nodup (offset : Nat) (words : List β) :
    (setBits bit width offset words).Nodup :=
  (setBits_pairwise offset words).imp fun h => Nat.ne_of_lt h

end SetBits

/-! ## Selection -/

/-- The elements of `xs` at the positions `is`. Positions outside `xs` are left out. -/
def select (xs : List α) (is : List Nat) : List α := is.filterMap (xs[·]?)

@[simp] theorem select_nil (xs : List α) : select xs [] = [] := rfl

theorem select_append (xs : List α) (is js : List Nat) :
    select xs (is ++ js) = select xs is ++ select xs js := List.filterMap_append

theorem select_cons_of_getElem? {xs : List α} {i : Nat} {x : α} (h : xs[i]? = some x)
    (is : List Nat) : select xs (i :: is) = x :: select xs is := by
  simp [select, h]

theorem select_sublist {is : List Nat} (his : is.Pairwise (· < ·)) (xs : List α) :
    (select xs is).Sublist xs := by
  induction xs generalizing is with
  | nil => simp [select]
  | cons x xs ih =>
      -- a position after the first is one of the tail's, one lower
      have tail : ∀ {js : List Nat}, js.Pairwise (· < ·) → (∀ j ∈ js, 0 < j) →
          (select (x :: xs) js).Sublist xs := by
        intro js hjs hpos
        have hshift : select (x :: xs) js = select xs (js.map (· - 1)) := by
          simp only [select, List.filterMap_map]
          refine List.filterMap_congr fun j hj => ?_
          obtain ⟨k, rfl⟩ := Nat.exists_eq_add_one.mpr (hpos j hj)
          simp
        rw [hshift]
        refine ih (List.pairwise_map.mpr (hjs.imp_of_mem fun ha hb hab => ?_))
        have := hpos _ ha
        have := hpos _ hb
        omega
      cases is with
      | nil => simp
      | cons i is =>
          obtain ⟨hi, hrest⟩ := List.pairwise_cons.mp his
          cases i with
          | zero =>
              rw [select_cons_of_getElem? List.getElem?_cons_zero]
              exact (tail hrest hi).cons_cons x
          | succ i =>
              refine (tail his ?_).cons x
              simp only [List.mem_cons]
              rintro j (rfl | hj)
              · omega
              · have := hi j hj
                omega

end HashiBridge.Lib
