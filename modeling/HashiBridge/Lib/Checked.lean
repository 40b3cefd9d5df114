import Mathlib

/-!
# Aborting computations

A computation that may abort is an `Except ε`.
-/

namespace HashiBridge.Lib

universe u v

variable {ε : Type u} {α β : Type v}

/-! ## Sequencing and assertions -/

variable {f : α → Except ε β} {x : Except ε α}

theorem bind_eq_ok {b : β} :
    (x >>= f) = .ok b ↔ ∃ a, x = .ok a ∧ f a = .ok b := by
  cases x <;> simp [bind, Except.bind]

theorem pure_eq_ok {a b : α} : (pure a : Except ε α) = .ok b ↔ a = b := by
  simp [pure, Except.pure]

theorem map_eq_ok {f : α → β} {b : β} :
    f <$> x = .ok b ↔ ∃ a, x = .ok a ∧ f a = b := by
  cases x <;> simp [Functor.map, Except.map]

theorem exists_of_isOk (h : x.isOk = true) : ∃ a, x = .ok a := by
  cases x with
  | ok a => exact ⟨a, rfl⟩
  | error e => cases h

variable {e : ε}

theorem bind_eq_error :
    (x >>= f) = .error e ↔ x = .error e ∨ ∃ a, x = .ok a ∧ f a = .error e := by
  cases x <;> simp [bind, Except.bind]

theorem mapError_eq_error {ε' : Type*} {f : ε → ε'} {e' : ε'} :
    x.mapError f = .error e' ↔ ∃ e, x = .error e ∧ f e = e' := by
  cases x <;> simp [Except.mapError]

theorem mapError_eq_ok {ε' : Type*} {f : ε → ε'} {a : α} :
    x.mapError f = .ok a ↔ x = .ok a := by
  cases x <;> simp [Except.mapError]

def require (p : Prop) [Decidable p] (e : ε) : Except ε Unit :=
  if p then .ok () else .error e

theorem require_eq_ok {p : Prop} [Decidable p] {u : Unit} :
    require p e = .ok u ↔ p := by
  unfold require
  split_ifs with h <;> simp [h]

theorem require_eq_error {p : Prop} [Decidable p] {e e' : ε} :
    require p e = .error e' ↔ ¬ p ∧ e = e' := by
  unfold require
  split_ifs with h <;> simp [h]

theorem require_pos {p : Prop} [Decidable p] (h : p) : require p e = .ok () := by
  simp [require, h]

def orAbort (o : Option α) (e : ε) : Except ε α :=
  match o with
  | some a => .ok a
  | none => .error e

theorem orAbort_eq_ok {o : Option α} {a : α} : orAbort o e = .ok a ↔ o = some a := by
  cases o <;> simp [orAbort]

/-! ## Checked 64-bit arithmetic -/

def U64_SIZE : Nat := 2 ^ 64

def addU64 (e : ε) (a b : Nat) : Except ε Nat :=
  if a + b < U64_SIZE then .ok (a + b) else .error e

theorem addU64_eq_ok {a b c : Nat} :
    addU64 e a b = .ok c ↔ a + b < U64_SIZE ∧ a + b = c := by
  unfold addU64
  split_ifs with h <;> simp [h]

def wrapU64 (n : Nat) : Nat := n % U64_SIZE

theorem wrapU64_of_lt {n : Nat} (h : n < U64_SIZE) : wrapU64 n = n := Nat.mod_eq_of_lt h

def saturateU64 (n : Nat) : Nat := min n (U64_SIZE - 1)

theorem saturateU64_le (n : Nat) : saturateU64 n ≤ n := Nat.min_le_left _ _

def mulU64 (e : ε) (a b : Nat) : Except ε Nat :=
  if a * b < U64_SIZE then .ok (a * b) else .error e

theorem mulU64_eq_ok {a b c : Nat} :
    mulU64 e a b = .ok c ↔ a * b < U64_SIZE ∧ a * b = c := by
  unfold mulU64
  split_ifs with h <;> simp [h]

def sumU64 (e : ε) (xs : List Nat) : Except ε Nat :=
  xs.foldlM (addU64 e) 0

theorem foldlM_addU64_eq_ok {xs : List Nat} {a c : Nat} (ha : a < U64_SIZE) :
    xs.foldlM (addU64 e) a = .ok c ↔ a + xs.sum < U64_SIZE ∧ a + xs.sum = c := by
  induction xs generalizing a with
  | nil => simp [pure_eq_ok, ha]
  | cons x xs ih =>
      simp only [List.foldlM_cons, bind_eq_ok, addU64_eq_ok, List.sum_cons]
      constructor
      · rintro ⟨_, ⟨hlt, rfl⟩, h⟩
        rw [ih hlt] at h
        omega
      · rintro ⟨hlt, hc⟩
        have hax : a + x < U64_SIZE := by omega
        exact ⟨a + x, ⟨hax, rfl⟩, (ih hax).2 (by omega)⟩

theorem sumU64_eq_ok {xs : List Nat} {c : Nat} :
    sumU64 e xs = .ok c ↔ xs.sum < U64_SIZE ∧ xs.sum = c := by
  have h : (0 : Nat) < U64_SIZE := by decide
  rw [sumU64, foldlM_addU64_eq_ok h, Nat.zero_add]

/-! ## Loops over a list -/

section Loops

variable {σ : Type v}

theorem foldlM_nil_eq_ok {f : σ → α → Except ε σ} {s t : σ} :
    ([] : List α).foldlM f s = .ok t ↔ s = t := by
  simp [pure_eq_ok]

variable {xs : List α}

theorem foldlM_cons_eq_ok {f : σ → α → Except ε σ} {x : α} {s t : σ} :
    (x :: xs).foldlM f s = .ok t ↔ ∃ m, f s x = .ok m ∧ xs.foldlM f m = .ok t := by
  simp [bind_eq_ok]

theorem foldlM_invariant {f : σ → α → Except ε σ} (P : σ → Prop) {s t : σ}
    (hs : P s) (hstep : ∀ s x s', x ∈ xs → P s → f s x = .ok s' → P s')
    (h : xs.foldlM f s = .ok t) : P t := by
  induction xs generalizing s with
  | nil => rwa [← foldlM_nil_eq_ok.mp h]
  | cons x xs ih =>
      obtain ⟨m, hm, ht⟩ := foldlM_cons_eq_ok.mp h
      exact ih (hstep s x m (by simp) hs hm)
        (fun s x s' hx => hstep s x s' (by simp [hx])) ht

theorem foldlM_succeeds {f : σ → α → Except ε σ} (P : σ → Prop) {s : σ} (hs : P s)
    (hstep : ∀ s x, x ∈ xs → P s → ∃ s', f s x = .ok s' ∧ P s') :
    ∃ t, xs.foldlM f s = .ok t ∧ P t := by
  induction xs generalizing s with
  | nil => exact ⟨s, foldlM_nil_eq_ok.mpr rfl, hs⟩
  | cons x xs ih =>
      obtain ⟨m, hm, hP⟩ := hstep s x (by simp) hs
      obtain ⟨t, ht, hPt⟩ := ih hP (fun s x hx => hstep s x (by simp [hx]))
      exact ⟨t, foldlM_cons_eq_ok.mpr ⟨m, hm, ht⟩, hPt⟩

theorem forM_eq_ok {f : α → Except ε PUnit} {u : PUnit} :
    xs.forM f = .ok u ↔ ∀ x ∈ xs, f x = .ok ⟨⟩ := by
  induction xs with
  | nil => simp [pure_eq_ok]
  | cons x xs ih =>
      rw [List.forM_eq_forM] at ih ⊢
      rw [List.forM_cons, bind_eq_ok, List.forall_mem_cons, ← ih]
      exact ⟨fun ⟨_, hx, hxs⟩ => ⟨hx, hxs⟩, fun ⟨hx, hxs⟩ => ⟨⟨⟩, hx, hxs⟩⟩

theorem mapM_eq_ok {ys : List β} :
    xs.mapM f = .ok ys ↔ List.Forall₂ (fun x y => f x = .ok y) xs ys := by
  induction xs generalizing ys with
  | nil =>
      simp only [List.mapM_nil, pure_eq_ok, List.forall₂_nil_left_iff]
      exact eq_comm
  | cons x xs ih =>
      simp only [List.mapM_cons, bind_eq_ok, pure_eq_ok, List.forall₂_cons_left_iff]
      constructor
      · rintro ⟨y, hy, zs, hzs, rfl⟩
        exact ⟨y, zs, hy, ih.mp hzs, rfl⟩
      · rintro ⟨y, zs, hy, hzs, rfl⟩
        exact ⟨y, hy, zs, ih.mpr hzs, rfl⟩

theorem exists_of_forall₂ {α β : Type} {R : α → β → Prop} {xs : List α} {ys : List β}
    (h : List.Forall₂ R xs ys) {x : α} (hx : x ∈ xs) : ∃ y ∈ ys, R x y := by
  induction h with
  | nil => cases hx
  | cons hxy _ ih =>
      rcases List.mem_cons.mp hx with rfl | hx
      · exact ⟨_, List.mem_cons_self, hxy⟩
      · obtain ⟨y, hy, hR⟩ := ih hx
        exact ⟨y, List.mem_cons_of_mem _ hy, hR⟩

theorem map_eq_of_forall₂ {α β γ : Type} {f : α → γ} {g : β → γ} {xs : List α} {ys : List β}
    (h : List.Forall₂ (fun x y => g y = f x) xs ys) : ys.map g = xs.map f := by
  induction h with
  | nil => rfl
  | cons hxy _ ih => rw [List.map_cons, List.map_cons, hxy, ih]

theorem filterMap_eq_of_forall₂ {α β γ : Type} {f : α → Option γ} {g : β → Option γ} {xs : List α}
    {ys : List β} (h : List.Forall₂ (fun x y => g y = f x) xs ys) :
    ys.filterMap g = xs.filterMap f := by
  induction h with
  | nil => rfl
  | cons hxy _ ih => rw [List.filterMap_cons, List.filterMap_cons, hxy, ih]

theorem mapM_succeeds {R : α → β → Prop}
    (h : ∀ x ∈ xs, ∃ y, f x = .ok y ∧ R x y) :
    ∃ ys, xs.mapM f = .ok ys ∧ List.Forall₂ R xs ys := by
  induction xs with
  | nil => exact ⟨[], rfl, .nil⟩
  | cons x xs ih =>
      obtain ⟨y, hy, hR⟩ := h x List.mem_cons_self
      obtain ⟨ys, hys, hall⟩ := ih fun x hx => h x (List.mem_cons_of_mem _ hx)
      exact ⟨y :: ys, mapM_eq_ok.mpr (.cons hy (mapM_eq_ok.mp hys)), .cons hR hall⟩

/-- A loop whose body never fails is a map. -/
theorem mapM_eq_map {g : α → β}
    (h : ∀ x ∈ xs, f x = .ok (g x)) : xs.mapM f = .ok (xs.map g) := by
  rw [mapM_eq_ok, List.forall₂_map_right_iff, List.forall₂_same]
  exact h

end Loops

end HashiBridge.Lib
