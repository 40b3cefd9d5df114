import Mathlib

/-!
# Runs of a transition system

A run is a sequence of steps together with the labels taken, so a statement about a whole history
is a statement about the list of labels and the state it leads to.
-/

namespace HashiBridge.Lib

universe u v

variable {σ : Type u} {α : Type v}

/-- `Run step s₀ tr s`: the steps labelled `tr` lead from `s₀` to `s`. -/
inductive Run (step : σ → α → σ → Prop) (s₀ : σ) : List α → σ → Prop
  | nil : Run step s₀ [] s₀
  | snoc {tr s a s'} : Run step s₀ tr s → step s a s' → Run step s₀ (tr ++ [a]) s'

variable {step : σ → α → σ → Prop} {s₀ s s' : σ} {tr tr' : List α}

theorem Run.single {a : α} (h : step s a s') : Run step s [a] s' := .snoc .nil h

theorem Run.of_nil (h : Run step s [] s') : s' = s := by
  generalize hl : ([] : List α) = l at h
  cases h with
  | nil => rfl
  | snoc => simp at hl

theorem Run.of_single {a : α} (h : Run step s [a] s') : step s a s' := by
  generalize hl : [a] = l at h
  cases h with
  | nil => cases hl
  | @snoc tr m b s' hrun hs =>
      obtain ⟨rfl, hab⟩ := List.append_inj' (show [] ++ [a] = tr ++ [b] from hl) rfl
      cases hab
      rwa [hrun.of_nil] at hs

theorem Run.trans (h : Run step s₀ tr s) (h' : Run step s tr' s') : Run step s₀ (tr ++ tr') s' := by
  induction h' with
  | nil => simpa using h
  | snoc _ hstep ih => rw [← List.append_assoc]; exact .snoc ih hstep

theorem Run.cons {a : α} (h : step s₀ a s) (h' : Run step s tr s') : Run step s₀ (a :: tr) s' :=
  (Run.single h).trans h'

theorem Run.mono {step' : σ → α → σ → Prop} (hstep : ∀ s a s', step s a s' → step' s a s')
    (h : Run step s₀ tr s) : Run step' s₀ tr s := by
  induction h with
  | nil => exact .nil
  | snoc _ hs ih => exact .snoc ih (hstep _ _ _ hs)

theorem Run.invariant {P : σ → Prop} (h₀ : P s₀) (hstep : ∀ s a s', P s → step s a s' → P s')
    (h : Run step s₀ tr s) : P s := by
  induction h with
  | nil => exact h₀
  | snoc _ hs ih => exact hstep _ _ _ ih hs

/-- As `Run.invariant`, for a property of the labels taken so far and the state. -/
theorem Run.history {P : List α → σ → Prop} (h₀ : P [] s₀)
    (hstep : ∀ tr s a s', P tr s → step s a s' → P (tr ++ [a]) s')
    (h : Run step s₀ tr s) : P tr s := by
  induction h with
  | nil => exact h₀
  | snoc _ hs ih => exact hstep _ _ _ _ ih hs

theorem Run.length_add_le (measure : σ → Nat) (hstep : ∀ s a s', step s a s' → measure s' < measure s)
    (h : Run step s₀ tr s) : tr.length + measure s ≤ measure s₀ := by
  induction h with
  | nil => simp
  | snoc _ hs ih =>
      have hless := hstep _ _ _ hs
      rw [List.length_append, List.length_singleton]
      omega

theorem Run.split (h : Run step s₀ (tr ++ tr') s) :
    ∃ m, Run step s₀ tr m ∧ Run step m tr' s := by
  generalize hl : tr ++ tr' = l at h
  induction h generalizing tr' with
  | nil =>
      obtain ⟨rfl, rfl⟩ := List.append_eq_nil_iff.mp hl
      exact ⟨s₀, .nil, .nil⟩
  | @snoc l' m a s' hrun hs ih =>
      rcases List.eq_nil_or_concat tr' with rfl | ⟨init, b, rfl⟩
      · rw [List.append_nil] at hl
        exact ⟨s', hl ▸ .snoc hrun hs, .nil⟩
      · rw [List.concat_eq_append, ← List.append_assoc] at hl
        obtain ⟨hinit, hb⟩ := List.append_inj' hl rfl
        obtain ⟨k, hk, hrest⟩ := ih hinit
        cases hb
        exact ⟨k, hk, by rw [List.concat_eq_append]; exact .snoc hrest hs⟩

/-- On the way from `s₀` to `s` a step was taken that satisfies `P`. -/
def Occurs (step : σ → α → σ → Prop) (s₀ : σ) (tr : List α) (s : σ) (P : σ → α → σ → Prop) : Prop :=
  ∃ pre post a label b, tr = pre ++ label :: post ∧ Run step s₀ pre a ∧ step a label b ∧
    Run step b post s ∧ P a label b

theorem Occurs.snoc {P : σ → α → σ → Prop} {a : α} (h : Occurs step s₀ tr s P) (hs : step s a s') :
    Occurs step s₀ (tr ++ [a]) s' P := by
  obtain ⟨pre, post, x, label, y, rfl, hpre, hlabel, hpost, hP⟩ := h
  exact ⟨pre, post ++ [a], x, label, y, by simp, hpre, hlabel, hpost.snoc hs, hP⟩

/-- What holds at the start holds at the end, unless a step that satisfies `P` was taken. -/
theorem Run.kept_or_occurs {P : σ → α → σ → Prop} {Q : σ → Prop} (h₀ : Q s₀)
    (hstep : ∀ tr s a s', Run step s₀ tr s → step s a s' → Q s → Q s' ∨ P s a s')
    (h : Run step s₀ tr s) : Q s ∨ Occurs step s₀ tr s P := by
  induction h with
  | nil => exact .inl h₀
  | @snoc tr s a s' hrun hs ih =>
      rcases ih with hQ | hoccurs
      · refine (hstep tr s a s' hrun hs hQ).imp_right fun hP => ?_
        exact ⟨tr, [], s, a, s', rfl, hrun, hs, .nil, hP⟩
      · exact .inr (hoccurs.snoc hs)

end HashiBridge.Lib
