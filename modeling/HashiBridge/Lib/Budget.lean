import Mathlib

/-!
# Budgets that accrue over time

A list of expenses, each covered by what the one before left over and what accrued since. Over any
stretch they cost at most what was left at its start and what accrues until its end.
-/

namespace HashiBridge.Lib

structure Spend where
  time : Nat
  amount : Nat
  left : Nat

def Covered (rate : Nat) : Nat → Nat → List Spend → Prop
  | _, _, [] => True
  | time, left, s :: rest =>
      time ≤ s.time ∧ s.amount + s.left ≤ left + rate * (s.time - time) ∧
        Covered rate s.time s.left rest

def endTime (time : Nat) (spends : List Spend) : Nat := (spends.getLast?.map Spend.time).getD time

theorem endTime_cons (time : Nat) (s : Spend) (rest : List Spend) :
    endTime time (s :: rest) = endTime s.time rest := by
  cases rest with
  | nil => rfl
  | cons r rest => simp [endTime, List.getLast?_cons]

namespace Covered

variable {rate time left : Nat} {spends : List Spend}

theorem le_endTime (h : Covered rate time left spends) : time ≤ endTime time spends := by
  induction spends generalizing time left with
  | nil => exact Nat.le_refl _
  | cons s rest ih =>
      rw [endTime_cons]
      exact Nat.le_trans h.1 (ih h.2.2)

theorem sum_le (h : Covered rate time left spends) :
    (spends.map Spend.amount).sum ≤ left + rate * (endTime time spends - time) := by
  induction spends generalizing time left with
  | nil => simp
  | cons s rest ih =>
      obtain ⟨htime, hcost, hrest⟩ := h
      have hend := hrest.le_endTime
      have hsum := ih hrest
      have haccrue : rate * (endTime s.time rest - time) =
          rate * (endTime s.time rest - s.time) + rate * (s.time - time) := by
        rw [← Nat.mul_add]
        congr 1
        omega
      rw [endTime_cons, List.map_cons, List.sum_cons, haccrue]
      omega

end Covered

end HashiBridge.Lib
