import HashiBridge.Lib.Checked

/-!
# Sums of 64-bit words

Addition of words wraps. As long as the sum of the values fits a word, a sum of words is that sum.
-/

namespace HashiBridge.Lib

def valueSum (words : List UInt64) : Nat := (words.map UInt64.toNat).sum

@[simp] theorem valueSum_nil : valueSum [] = 0 := rfl

@[simp] theorem valueSum_cons (w : UInt64) (words : List UInt64) :
    valueSum (w :: words) = w.toNat + valueSum words := by
  simp [valueSum]

theorem le_valueSum {w : UInt64} {words : List UInt64} (h : w ∈ words) :
    w.toNat ≤ valueSum words := by
  induction words with
  | nil => cases h
  | cons v words ih =>
      rw [valueSum_cons]
      rcases List.mem_cons.mp h with rfl | h
      · omega
      · have := ih h
        omega

theorem toNat_lt (w : UInt64) : w.toNat < U64_SIZE := w.toNat_lt

theorem toNat_sum (words : List UInt64) : words.sum.toNat = valueSum words % U64_SIZE := by
  induction words with
  | nil => rfl
  | cons w words ih =>
      rw [List.sum_cons, UInt64.toNat_add, ih, valueSum_cons]
      exact Nat.add_mod_mod _ _ _

theorem toNat_sum_of_lt {words : List UInt64} (h : valueSum words < U64_SIZE) :
    words.sum.toNat = valueSum words := by
  rw [toNat_sum, Nat.mod_eq_of_lt h]

theorem toNat_sub {a b : UInt64} (h : b.toNat ≤ a.toNat) : (a - b).toNat = a.toNat - b.toNat :=
  UInt64.toNat_sub_of_le _ _ (UInt64.le_iff_toNat_le.mpr h)

theorem sum_eq_ofNat (words : List UInt64) : words.sum = UInt64.ofNat (valueSum words) := by
  induction words with
  | nil => rfl
  | cons w words ih => rw [List.sum_cons, valueSum_cons, UInt64.ofNat_add, ih, UInt64.ofNat_toNat]

theorem sum_map_ofNat {α : Type} (f : α → Nat) (xs : List α) :
    (xs.map fun x => UInt64.ofNat (f x)).sum = UInt64.ofNat (xs.map f).sum := by
  induction xs with
  | nil => rfl
  | cons x xs ih => rw [List.map_cons, List.sum_cons, List.map_cons, List.sum_cons,
      UInt64.ofNat_add, ih]

theorem toNat_ofNat {n : Nat} (h : n < U64_SIZE) : (UInt64.ofNat n).toNat = n :=
  UInt64.toNat_ofNat_of_lt' h

theorem ofNat_le_iff {n : Nat} {w : UInt64} (h : n < U64_SIZE) :
    UInt64.ofNat n ≤ w ↔ n ≤ w.toNat := by
  rw [UInt64.le_iff_toNat_le, toNat_ofNat h]

theorem lt_ofNat_iff {n : Nat} {w : UInt64} (h : n < U64_SIZE) :
    w < UInt64.ofNat n ↔ w.toNat < n := by
  rw [UInt64.lt_iff_toNat_lt, toNat_ofNat h]

theorem valueSum_map_sub {words : List UInt64} {d : UInt64} (h : ∀ w ∈ words, d.toNat ≤ w.toNat) :
    valueSum (words.map (· - d)) + words.length * d.toNat = valueSum words := by
  induction words with
  | nil => simp
  | cons w words ih =>
      have hw := h w List.mem_cons_self
      have hrest := ih fun v hv => h v (List.mem_cons_of_mem _ hv)
      rw [List.map_cons, valueSum_cons, valueSum_cons, toNat_sub hw, List.length_cons,
        Nat.add_mul]
      omega

end HashiBridge.Lib
