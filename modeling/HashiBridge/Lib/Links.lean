import Mathlib

/-!
# Consecutive elements of a list

The pairs of neighbours of a list that only grows at its end. In an ascending list every link goes
up, and no link leaves the last element.
-/

namespace HashiBridge.Lib

universe u

variable {α : Type u}

def links (l : List α) : List (α × α) := l.zip l.tail

@[simp] theorem links_nil : links ([] : List α) = [] := rfl

theorem links_cons_cons (a b : α) (l : List α) : links (a :: b :: l) = (a, b) :: links (b :: l) := rfl

theorem links_concat {l : List α} {a : α} (h : l.getLast? = some a) (x : α) :
    links (l ++ [x]) = links l ++ [(a, x)] := by
  induction l with
  | nil => cases h
  | cons b l ih =>
      cases l with
      | nil =>
          cases h
          rfl
      | cons c l =>
          rw [List.getLast?_cons_cons] at h
          rw [List.cons_append, List.cons_append, links_cons_cons, links_cons_cons,
            ← List.cons_append, ih h, List.cons_append]

theorem mem_of_mem_links {l : List α} {a b : α} (h : (a, b) ∈ links l) : a ∈ l ∧ b ∈ l :=
  ⟨(List.of_mem_zip h).1, List.mem_of_mem_tail (List.of_mem_zip h).2⟩

section Ascending

variable [Preorder α]

theorem lt_of_mem_links {l : List α} (hl : l.Pairwise (· < ·)) {a b : α} (h : (a, b) ∈ links l) :
    a < b := by
  induction l with
  | nil => cases h
  | cons c l ih =>
      cases l with
      | nil => cases h
      | cons d l =>
          rw [links_cons_cons] at h
          rcases List.mem_cons.mp h with heq | h
          · cases heq
            exact List.rel_of_pairwise_cons hl List.mem_cons_self
          · exact ih (List.pairwise_cons.mp hl).2 h

theorem le_getLast {l : List α} (hl : l.Pairwise (· < ·)) {a b : α} (ha : a ∈ l)
    (hb : l.getLast? = some b) : a ≤ b := by
  obtain ⟨init, rfl⟩ := List.getLast?_eq_some_iff.mp hb
  rw [List.pairwise_append] at hl
  rcases List.mem_append.mp ha with ha | ha
  · exact le_of_lt (hl.2.2 a ha b (by simp))
  · rw [List.mem_singleton.mp ha]

theorem pairwise_concat {l : List α} (hl : l.Pairwise (· < ·)) {a x : α}
    (ha : l.getLast? = some a) (hx : a < x) : (l ++ [x]).Pairwise (· < ·) := by
  rw [List.pairwise_append]
  refine ⟨hl, List.pairwise_singleton .., ?_⟩
  intro b hb y hy
  rw [List.mem_singleton.mp hy]
  exact lt_of_le_of_lt (le_getLast hl hb ha) hx

end Ascending

end HashiBridge.Lib
