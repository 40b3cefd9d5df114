import Mathlib

/-!
# Packing items under a budget

A list cut into chunks of one size, and a packer that closes its batch when the next item would take
the running cost over the budget.
-/

namespace HashiBridge.Lib

variable {α : Type*}

/-! ## Chunks -/

/-- The list in consecutive pieces of `size` items; the last may be shorter. -/
def chunks (size : Nat) (xs : List α) : List (List α) :=
  (List.range ((xs.length + size - 1) / size)).map fun i => (xs.drop (i * size)).take size

theorem flatten_pieces (size n : Nat) (xs : List α) :
    ((List.range n).map fun i => (xs.drop (i * size)).take size).flatten = xs.take (n * size) := by
  induction n with
  | zero => simp
  | succ n ih =>
      rw [List.range_succ, List.map_append, List.flatten_append, ih, Nat.succ_mul, List.take_add]
      simp

theorem chunks_flatten {size : Nat} (hsize : 0 < size) (xs : List α) :
    (chunks size xs).flatten = xs := by
  rw [chunks, flatten_pieces]
  apply List.take_of_length_le
  have hdiv := Nat.div_add_mod (xs.length + size - 1) size
  have hmod := Nat.mod_lt (xs.length + size - 1) hsize
  rw [Nat.mul_comm] at hdiv
  omega

theorem length_of_mem_chunks {size : Nat} {xs c : List α} (h : c ∈ chunks size xs) :
    c.length ≤ size := by
  obtain ⟨i, -, rfl⟩ := List.mem_map.mp h
  exact List.length_take_le size _

theorem ne_nil_of_mem_chunks {size : Nat} (hsize : 0 < size) {xs c : List α}
    (h : c ∈ chunks size xs) : c ≠ [] := by
  obtain ⟨i, hi, rfl⟩ := List.mem_map.mp h
  have hround : (i + 1) * size ≤ xs.length + size - 1 :=
    (Nat.le_div_iff_mul_le hsize).mp (List.mem_range.mp hi)
  rw [Nat.succ_mul] at hround
  rw [← List.length_pos_iff, List.length_take, List.length_drop]
  omega

/-! ## Batches -/

structure Packer (α : Type*) where
  batch : List α
  used : Nat

namespace Packer

def empty : Packer α := ⟨[], 0⟩

def flush (budget cost : Nat) (p : Packer α) : List (List α) × Packer α :=
  if budget < p.used + cost then ([p.batch], empty) else ([], p)

def push (budget cost : Nat) (x : α) (p : Packer α) : List (List α) × Packer α :=
  let (closed, p) := p.flush budget cost
  (closed, ⟨p.batch ++ [x], p.used + cost⟩)

def rest (p : Packer α) : List (List α) :=
  if p.batch = [] then [] else [p.batch]

/-- The running cost is the cost of the batch, and within the budget. -/
structure Fits (budget : Nat) (cost : α → Nat) (p : Packer α) : Prop where
  used_eq : p.used = (p.batch.map cost).sum
  within : p.used ≤ budget

variable {budget : Nat} {cost : α → Nat} {p : Packer α}

theorem Fits.empty : (Packer.empty : Packer α).Fits budget cost :=
  ⟨rfl, Nat.zero_le _⟩

theorem Fits.push (h : p.Fits budget cost) {x : α} (hx : cost x ≤ budget) :
    (p.push budget (cost x) x).2.Fits budget cost := by
  unfold Packer.push flush
  split_ifs with hfull
  · refine ⟨?_, ?_⟩
    · simp [Packer.empty]
    · simpa [Packer.empty] using hx
  · refine ⟨?_, Nat.le_of_not_lt hfull⟩
    simp [h.used_eq]

theorem push_flatten (c : Nat) (x : α) :
    (p.push budget c x).1.flatten ++ (p.push budget c x).2.batch = p.batch ++ [x] := by
  unfold push flush
  split_ifs <;> simp [empty]

/-- A batch is closed only for an item that does not fit beside it, so it is not empty. -/
theorem closed_by_push (h : p.Fits budget cost) {x : α} (hx : cost x ≤ budget) {b : List α}
    (hb : b ∈ (p.push budget (cost x) x).1) : b = p.batch ∧ b ≠ [] ∧ (b.map cost).sum ≤ budget := by
  unfold push flush at hb
  split_ifs at hb with hfull
  · obtain rfl := List.mem_singleton.mp hb
    refine ⟨rfl, ?_, h.used_eq ▸ h.within⟩
    intro hnil
    have hused : p.used = 0 := by rw [h.used_eq, hnil, List.map_nil, List.sum_nil]
    omega
  · cases hb

theorem rest_flatten (p : Packer α) : p.rest.flatten = p.batch := by
  unfold rest
  split_ifs with h <;> simp [h]

theorem closed_at_end (h : p.Fits budget cost) {b : List α} (hb : b ∈ p.rest) :
    b = p.batch ∧ b ≠ [] ∧ (b.map cost).sum ≤ budget := by
  unfold rest at hb
  split_ifs at hb with hnil
  · cases hb
  · obtain rfl := List.mem_singleton.mp hb
    exact ⟨rfl, hnil, h.used_eq ▸ h.within⟩

end Packer

end HashiBridge.Lib
