import Mathlib

/-!
# Fallible methods on a mutable object

A method reads and writes the object's state and may fail. Failing does not undo what it wrote.
`exec` runs a method from a state; the lemmas evaluate it step by step.
-/

namespace HashiBridge.Lib

variable {ε σ α β : Type}

abbrev Method (ε σ : Type) := ExceptT ε (StateM σ)

def exec (m : Method ε σ α) (s : σ) : Except ε α × σ := (m.run).run s

def attempt (x : Except ε α) : Method ε σ α :=
  match x with
  | .ok a => pure a
  | .error e => throw e

@[simp] theorem exec_pure (a : α) (s : σ) : exec (pure a : Method ε σ α) s = (.ok a, s) := rfl

@[simp] theorem exec_throw (e : ε) (s : σ) : exec (throw e : Method ε σ α) s = (.error e, s) := rfl

@[simp] theorem exec_get (s : σ) : exec (get : Method ε σ σ) s = (.ok s, s) := rfl

@[simp] theorem exec_set (s s' : σ) : exec (set s' : Method ε σ PUnit) s = (.ok ⟨⟩, s') := rfl

@[simp] theorem exec_attempt (x : Except ε α) (s : σ) :
    exec (attempt x : Method ε σ α) s = (x, s) := by
  cases x <;> rfl

theorem exec_bind (m : Method ε σ α) (f : α → Method ε σ β) (s : σ) :
    exec (m >>= f) s =
      match exec m s with
      | (.ok a, s') => exec (f a) s'
      | (.error e, s') => (.error e, s') := by
  rcases h : exec m s with ⟨_ | a, s'⟩ <;>
    simp only [exec, ExceptT.run_bind, StateT.run_bind] at h ⊢ <;> rw [h] <;> rfl

@[simp] theorem exec_map (f : α → β) (m : Method ε σ α) (s : σ) :
    exec (f <$> m) s = ((exec m s).1.map f, (exec m s).2) := by
  rw [map_eq_pure_bind, exec_bind]
  rcases exec m s with ⟨_ | a, mid⟩ <;> rfl

/-- Call a method for each argument in turn: which calls succeed, and the state they leave. -/
def callEach (m : α → Method ε σ Unit) (s : σ) : List α → List Bool × σ
  | [] => ([], s)
  | a :: as =>
      let (result, next) := exec (m a) s
      let (answers, last) := callEach m next as
      (result.isOk :: answers, last)

theorem callEach_related {ε' τ : Type} {m : α → Method ε σ Unit} {n : α → Method ε' τ Unit}
    {R : σ → τ → Prop} {P : α → Prop}
    (hstep : ∀ a s t, P a → R s t →
      (exec (m a) s).1.isOk = (exec (n a) t).1.isOk ∧ R (exec (m a) s).2 (exec (n a) t).2)
    {as : List α} (has : ∀ a ∈ as, P a) {s : σ} {t : τ} (h : R s t) :
    (callEach m s as).1 = (callEach n t as).1 ∧ R (callEach m s as).2 (callEach n t as).2 := by
  induction as generalizing s t with
  | nil => exact ⟨rfl, h⟩
  | cons a as ih =>
      obtain ⟨hok, hnext⟩ := hstep a s t (has a List.mem_cons_self) h
      obtain ⟨hanswers, hlast⟩ := ih (fun a ha => has a (List.mem_cons_of_mem _ ha)) hnext
      refine ⟨?_, hlast⟩
      simp only [callEach, hok, hanswers]

/-! ## Steps that only read -/

theorem exec_attempt_bind_ok {x : Except ε α} {f : α → Method ε σ β} {s s' : σ} {b : β} :
    exec (attempt x >>= f) s = (.ok b, s') ↔ ∃ a, x = .ok a ∧ exec (f a) s = (.ok b, s') := by
  rw [exec_bind, exec_attempt]
  cases x <;> simp

/-- If what follows leaves the state alone when it fails, so does the whole. -/
theorem exec_attempt_bind_error {x : Except ε α} {f : α → Method ε σ β} {s s' : σ} {e : ε}
    (hf : ∀ a, exec (f a) s = (.error e, s') → s' = s)
    (h : exec (attempt x >>= f) s = (.error e, s')) : s' = s := by
  rw [exec_bind, exec_attempt] at h
  cases x with
  | error _ =>
      cases h
      rfl
  | ok a => exact hf a h

end HashiBridge.Lib
