import HashiBridge.Lib.Segments

/-!
# The calendar

Dates of the Gregorian calendar from 1970 on, and the number of a date's day. The years are
segments of days, and the months are segments of the days of a year.
-/

namespace HashiBridge.Lib

def isLeap (year : Nat) : Bool := year % 4 = 0 && (year % 100 ≠ 0 || year % 400 = 0)

def daysInYear (year : Nat) : Nat := if isLeap year then 366 else 365

def daysInMonth (year : Nat) : Nat → Nat
  | 2 => if isLeap year then 29 else 28
  | 4 | 6 | 9 | 11 => 30
  | _ => 31

theorem daysInMonth_le (year month : Nat) : daysInMonth year month ≤ 31 := by
  unfold daysInMonth
  split
  · split_ifs <;> decide
  all_goals decide

def yearSize (i : Nat) : Nat := daysInYear (1970 + i)

def monthSize (year j : Nat) : Nat := daysInMonth year (j + 1)

theorem offset_monthSize (year : Nat) : offset (monthSize year) 12 = daysInYear year := by
  unfold offset monthSize daysInYear daysInMonth
  cases isLeap year <;> rfl

structure Date where
  year : Nat
  month : Nat
  day : Nat
deriving DecidableEq

namespace Date

def Valid (d : Date) : Prop :=
  1970 ≤ d.year ∧ (1 ≤ d.month ∧ d.month ≤ 12) ∧ 1 ≤ d.day ∧ d.day ≤ daysInMonth d.year d.month

instance (d : Date) : Decidable d.Valid := inferInstanceAs (Decidable (_ ∧ _))

def dayNumber (d : Date) : Nat :=
  offset yearSize (d.year - 1970) + (offset (monthSize d.year) (d.month - 1) + (d.day - 1))

def ofDayNumber (years n : Nat) : Option Date :=
  match locate yearSize years 0 n with
  | none => none
  | some (i, dayOfYear) =>
      match locate (monthSize (1970 + i)) 12 0 dayOfYear with
      | none => none
      | some (j, dayOfMonth) => some ⟨1970 + i, j + 1, dayOfMonth + 1⟩

variable {d e : Date} {years n : Nat}

theorem Valid.day_lt (h : d.Valid) : d.day - 1 < monthSize d.year (d.month - 1) := by
  obtain ⟨-, hmonth, hday⟩ := h
  unfold monthSize
  rw [Nat.sub_add_cancel hmonth.1]
  omega

theorem Valid.dayOfYear_lt (h : d.Valid) :
    offset (monthSize d.year) (d.month - 1) + (d.day - 1) < yearSize (d.year - 1970) := by
  have hday := h.day_lt
  have hmonth : d.month - 1 < 12 := by
    have := h.2.1
    omega
  have hend : offset (monthSize d.year) _ + _ ≤ _ := offset_add_size_le hmonth
  rw [offset_monthSize] at hend
  rw [yearSize, Nat.add_sub_cancel' h.1]
  omega

theorem ofDayNumber_eq_some :
    ofDayNumber years n = some d ↔ d.Valid ∧ d.year < 1970 + years ∧ d.dayNumber = n := by
  constructor
  · intro h
    unfold ofDayNumber at h
    split at h
    · cases h
    rename_i i dayOfYear hyear
    split at h
    · cases h
    rename_i j dayOfMonth hmonth
    cases h
    obtain ⟨-, hi, hn, -⟩ := locate_eq_some.mp hyear
    obtain ⟨-, hj, hm, hday⟩ := locate_eq_some.mp hmonth
    rw [offset_zero] at hn hm
    rw [monthSize] at hday
    have hvalid : Valid ⟨1970 + i, j + 1, dayOfMonth + 1⟩ :=
      ⟨Nat.le_add_right _ _, ⟨Nat.succ_pos j, by simpa using hj⟩, Nat.succ_pos _, hday⟩
    refine ⟨hvalid, by simpa using hi, ?_⟩
    simp only [dayNumber, Nat.add_sub_cancel_left, Nat.add_sub_cancel]
    omega
  · rintro ⟨hvalid, hyears, rfl⟩
    have hyear : locate yearSize years 0 d.dayNumber =
        some (d.year - 1970, offset (monthSize d.year) (d.month - 1) + (d.day - 1)) := by
      refine locate_eq_some.mpr ⟨Nat.zero_le _, ?_, ?_, hvalid.dayOfYear_lt⟩
      · have := hvalid.1
        omega
      · rw [offset_zero, Nat.zero_add, dayNumber]
    have hmonth : locate (monthSize d.year) 12 0
        (offset (monthSize d.year) (d.month - 1) + (d.day - 1)) =
        some (d.month - 1, d.day - 1) := by
      refine locate_eq_some.mpr ⟨Nat.zero_le _, ?_, ?_, hvalid.day_lt⟩
      · have := hvalid.2.1
        omega
      · rw [offset_zero, Nat.zero_add]
    obtain ⟨hepoch, hmonths, hdays⟩ := hvalid
    simp only [ofDayNumber, hyear, Nat.add_sub_cancel' hepoch, hmonth,
      Nat.sub_add_cancel hmonths.1, Nat.sub_add_cancel hdays.1]

theorem lex_of_dayNumber_lt (hd : d.Valid) (he : e.Valid) (h : d.dayNumber < e.dayNumber) :
    d.year < e.year ∨ d.year = e.year ∧
      (d.month < e.month ∨ d.month = e.month ∧ d.day < e.day) := by
  obtain ⟨dy, dm, dd⟩ := d
  obtain ⟨ey, em, ed⟩ := e
  have hdyear := hd.dayOfYear_lt
  have heyear := he.dayOfYear_lt
  have hdday := hd.day_lt
  have heday := he.day_lt
  obtain ⟨hdepoch, hdmonth, hdvalid⟩ := hd
  obtain ⟨heepoch, hemonth, hevalid⟩ := he
  simp only [dayNumber] at *
  rcases Nat.lt_trichotomy dy ey with hlt | rfl | hgt
  · exact .inl hlt
  · refine .inr ⟨rfl, ?_⟩
    rcases Nat.lt_trichotomy dm em with hlt | rfl | hgt
    · exact .inl hlt
    · exact .inr ⟨rfl, by omega⟩
    · have hbefore : offset (monthSize dy) _ + _ ≤ _ :=
        offset_add_size_le (show em - 1 < dm - 1 by omega)
      omega
  · have hbefore : offset yearSize _ + _ ≤ _ :=
      offset_add_size_le (show ey - 1970 < dy - 1970 by omega)
    omega

theorem dayNumber_inj (hd : d.Valid) (he : e.Valid) (h : d.dayNumber = e.dayNumber) : d = e := by
  have hd' := ofDayNumber_eq_some.mpr
    ⟨hd, show d.year < 1970 + (d.year + e.year) by omega, rfl⟩
  have he' := ofDayNumber_eq_some.mpr
    ⟨he, show e.year < 1970 + (d.year + e.year) by omega, rfl⟩
  rw [h, he'] at hd'
  exact (Option.some.inj hd').symm

theorem dayNumber_lt (h : d.Valid) (hyear : d.year < 1970 + years) :
    d.dayNumber < offset yearSize years := by
  have hday := h.dayOfYear_lt
  have hend : offset yearSize (d.year - 1970) + _ ≤ offset yearSize years :=
    offset_add_size_le (by have := h.1; omega)
  rw [dayNumber]
  omega

theorem offset_yearSize_le (years : Nat) : offset yearSize years ≤ 366 * years := by
  induction years with
  | zero => exact Nat.zero_le _
  | succ years ih =>
      have hsize : yearSize years ≤ 366 := by
        unfold yearSize daysInYear
        split_ifs <;> decide
      rw [offset_succ]
      omega

theorem exists_of_lt (h : n < offset yearSize years) : ∃ d, ofDayNumber years n = some d := by
  obtain ⟨i, hi, hle, hlt⟩ := exists_segment h
  have hmonths : n - offset yearSize i < offset (monthSize (1970 + i)) 12 := by
    rw [offset_monthSize]
    unfold yearSize at hlt hle ⊢
    omega
  obtain ⟨j, hj, hjle, hjlt⟩ := exists_segment hmonths
  refine ⟨⟨1970 + i, j + 1, n - offset yearSize i - offset (monthSize (1970 + i)) j + 1⟩,
    ofDayNumber_eq_some.mpr ⟨⟨Nat.le_add_right _ _, ⟨Nat.succ_pos j, hj⟩, Nat.succ_pos _, ?_⟩, ?_, ?_⟩⟩
  · change _ + 1 ≤ monthSize (1970 + i) j
    omega
  · exact Nat.add_lt_add_left hi 1970
  · simp only [dayNumber, Nat.add_sub_cancel_left, Nat.add_sub_cancel]
    omega

end Date

end HashiBridge.Lib
