import Mathlib

/-!
# Interpolation at zero over a list of points

A polynomial given by the list of its coefficients, its value by powers, and its value at zero from
its values at a list of distinct points: the sums and products that a loop computes.
-/

namespace HashiBridge.Lib

open Polynomial

universe u

variable {F : Type u} [Field F]

/-! ## Coefficients -/

/-- The polynomial with the coefficients of a list, lowest first. -/
noncomputable def ofCoefficients (cs : List F) : F[X] := cs.foldr (fun c p => C c + X * p) 0

theorem ofCoefficients_cons (c : F) (cs : List F) :
    ofCoefficients (c :: cs) = C c + X * ofCoefficients cs := rfl

theorem coeff_ofCoefficients (cs : List F) (i : Nat) : (ofCoefficients cs).coeff i = cs.getD i 0 := by
  induction cs generalizing i with
  | nil => simp [ofCoefficients]
  | cons c cs ih =>
      cases i with
      | zero => simp [ofCoefficients_cons]
      | succ i => simp [ofCoefficients_cons, coeff_C_succ, ih]

theorem degree_ofCoefficients_lt (cs : List F) : (ofCoefficients cs).degree < cs.length := by
  rw [degree_lt_iff_coeff_zero]
  intro i hi
  rw [coeff_ofCoefficients, List.getD_eq_default _ _ hi]

theorem exists_ofCoefficients {p : F[X]} {t : Nat} (h : p.degree < t) :
    ∃ cs : List F, cs.length = t ∧ ofCoefficients cs = p := by
  refine ⟨(List.range t).map p.coeff, by simp, ?_⟩
  ext i
  rw [coeff_ofCoefficients]
  by_cases hi : i < t
  · simp [List.getD_eq_getElem?_getD, hi]
  · rw [List.getD_eq_default _ _ (by simpa using hi)]
    exact ((degree_lt_iff_coeff_zero p t).mp h i (by omega)).symm

/-- The value by growing powers: an accumulator and the next power. -/
def powerStep (x : F) (acc : F × F) (c : F) : F × F := (acc.1 + c * acc.2, acc.2 * x)

theorem foldl_powerStep (x : F) (cs : List F) (acc : F × F) :
    (cs.foldl (powerStep x) acc).1 = acc.1 + acc.2 * (ofCoefficients cs).eval x := by
  induction cs generalizing acc with
  | nil => simp [ofCoefficients]
  | cons c cs ih =>
      rw [List.foldl_cons, ih, ofCoefficients_cons]
      simp only [powerStep, eval_add, eval_mul, eval_C, eval_X]
      ring

/-! ## Interpolation -/

variable [DecidableEq F]

/-- The numerator and the denominator of the Lagrange weight of `x` at zero. -/
def numeratorAt (xs : List F) (x : F) : F := ((xs.filter (x ≠ ·)).map fun y => -y).prod

def denominatorAt (xs : List F) (x : F) : F := ((xs.filter (x ≠ ·)).map fun y => x - y).prod

theorem denominatorAt_ne_zero (xs : List F) (x : F) : denominatorAt xs x ≠ 0 := by
  rw [denominatorAt, ne_eq, List.prod_eq_zero_iff, List.mem_map]
  rintro ⟨y, hy, hzero⟩
  have hne := (List.mem_filter.mp hy).2
  rw [decide_eq_true_eq] at hne
  exact hne (sub_eq_zero.mp hzero)

theorem filter_prod_eq (xs : List F) (hxs : xs.Nodup) (x : F) (f : F → F) :
    ((xs.filter (x ≠ ·)).map f).prod = ∏ y ∈ xs.toFinset.erase x, f y := by
  have hfilter : xs.toFinset.erase x = (xs.filter (x ≠ ·)).toFinset := by
    ext y
    simp only [Finset.mem_erase, List.mem_toFinset, List.mem_filter, decide_eq_true_eq]
    rw [and_comm, ne_comm]
  rw [hfilter, List.prod_toFinset f (hxs.filter _)]

theorem eval_basis_zero (xs : List F) (hxs : xs.Nodup) (x : F) :
    (Lagrange.basis xs.toFinset id x).eval 0 = numeratorAt xs x * (denominatorAt xs x)⁻¹ := by
  rw [numeratorAt, denominatorAt, filter_prod_eq xs hxs, filter_prod_eq xs hxs, Lagrange.basis,
    eval_prod, ← Finset.prod_inv_distrib, ← Finset.prod_mul_distrib]
  refine Finset.prod_congr rfl fun y _ => ?_
  simp only [Lagrange.basisDivisor, id_eq, eval_mul, eval_C, eval_sub, eval_X, zero_sub]
  ring

theorem sum_weights_eq_eval_zero (p : F[X]) (xs : List F) (hxs : xs.Nodup)
    (hdegree : p.degree < xs.length) :
    (xs.map fun x => p.eval x * (numeratorAt xs x * (denominatorAt xs x)⁻¹)).sum = p.eval 0 := by
  have hinj : Set.InjOn id (xs.toFinset : Set F) := Function.injective_id.injOn
  have hcard : p.degree < xs.toFinset.card := by rwa [List.toFinset_card_of_nodup hxs]
  have hp := Lagrange.eq_interpolate hinj hcard
  have heval := congrArg (eval 0) hp
  rw [Lagrange.interpolate_apply, eval_finsetSum] at heval
  rw [heval, ← List.sum_toFinset _ hxs]
  refine Finset.sum_congr rfl fun x _ => ?_
  rw [eval_mul, eval_C, eval_basis_zero xs hxs, id_eq]

/-- Values at fewer than `t` points other than zero say nothing about the value at zero of a
polynomial of degree below `t`. -/
theorem exists_through (xs : List F) (hxs : xs.Nodup) (hzero : (0 : F) ∉ xs) (values : F → F)
    (secret : F) : ∃ p : F[X], p.degree < (xs.length + 1 : Nat) ∧ p.eval 0 = secret ∧
      ∀ x ∈ xs, p.eval x = values x := by
  let s := insert 0 xs.toFinset
  have hinj : Set.InjOn id (s : Set F) := Function.injective_id.injOn
  have hcard : s.card = xs.length + 1 := by
    rw [Finset.card_insert_of_notMem (by simpa using hzero), List.toFinset_card_of_nodup hxs]
  let r : F → F := fun x => if x = 0 then secret else values x
  refine ⟨Lagrange.interpolate s id r, ?_, ?_, fun x hx => ?_⟩
  · rw [← hcard]
    exact Lagrange.degree_interpolate_lt r hinj
  · have h := Lagrange.eval_interpolate_at_node r hinj (Finset.mem_insert_self 0 xs.toFinset)
    rwa [id_eq, show r 0 = secret from if_pos rfl] at h
  · have hmem : x ∈ s := Finset.mem_insert_of_mem (List.mem_toFinset.mpr hx)
    have hne : x ≠ 0 := by
      rintro rfl
      exact hzero hx
    have h := Lagrange.eval_interpolate_at_node r hinj hmem
    rwa [id_eq, show r x = values x from if_neg hne] at h

end HashiBridge.Lib
