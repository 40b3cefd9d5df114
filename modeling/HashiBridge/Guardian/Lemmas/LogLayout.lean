import HashiBridge.Guardian.LogLayout

/-!
# Paths of hours

A path names one hour, and the numbers of its parts, compared one after the other, order the hours
by time.
-/

namespace HashiBridge.Guardian

open Lib

/-! ## Decimal parts -/

theorem isDigit_of_mem_padded {width n : Nat} {c : Char} (h : c ∈ padded width n) :
    c.isDigit = true := by
  simp only [padded, List.leftpad, List.mem_append, List.mem_replicate] at h
  rcases h with ⟨-, rfl⟩ | h
  · rfl
  · exact Nat.isDigit_of_mem_toDigits (by decide) (by decide) h

theorem ofDigitChars_zeros (k : Nat) : Nat.ofDigitChars 10 (List.replicate k '0') 0 = 0 := by
  induction k with
  | zero => rfl
  | succ k ih => rw [List.replicate_succ, Nat.ofDigitChars_cons]; exact ih

theorem stripSign_padded (width n : Nat) : stripSign (padded width n) = padded width n := by
  unfold stripSign
  split
  · rename_i digits heq
    have hplus : '+' ∈ padded width n := heq ▸ List.mem_cons_self
    exact absurd (isDigit_of_mem_padded hplus) (by decide)
  · rfl

theorem parseU64_padded {width n : Nat} (h : n < U64_SIZE) : parseU64 (padded width n) = some n := by
  have hvalue : Nat.ofDigitChars 10 (padded width n) 0 = n := by
    rw [padded, List.leftpad, Nat.ofDigitChars_append, ofDigitChars_zeros]
    exact Nat.ofDigitChars_toDigits (by decide) (by decide)
  have hne : padded width n ≠ [] := by
    simp [padded, List.leftpad, Nat.toDigits_ne_nil]
  have hdigits : (padded width n).all Char.isDigit = true :=
    List.all_eq_true.mpr fun c hc => isDigit_of_mem_padded hc
  simp only [parseU64, stripSign_padded, hvalue, hne, hdigits, h, ne_eq, not_false_eq_true,
    and_self, if_true]

/-! ## Lists in lexicographic order -/

theorem lt_of_take_lt {a b : List Nat} {k : Nat} (h : a.take k < b.take k) : a < b := by
  induction k generalizing a b with
  | zero => simp at h
  | succ k ih =>
      cases a with
      | nil => cases b <;> simp_all
      | cons x a =>
          cases b with
          | nil => simp at h
          | cons y b =>
              rw [List.take_succ_cons, List.take_succ_cons, List.cons_lt_cons_iff] at h
              rw [List.cons_lt_cons_iff]
              exact h.imp_right fun ⟨heq, hlt⟩ => ⟨heq, ih hlt⟩

/-! ## Hours -/

namespace S3HourDirectory

variable {d e : S3HourDirectory} {root : PathPart} {t : Nat}

def hourNumber (d : S3HourDirectory) : Nat := d.date.dayNumber * 24 + d.hour

def components (d : S3HourDirectory) : List Nat := [d.date.year, d.date.month, d.date.day, d.hour]

theorem toUnixSeconds_eq (d : S3HourDirectory) :
    d.toUnixSeconds = d.hourNumber * SECONDS_PER_HOUR := by
  simp only [toUnixSeconds, hourNumber, SECONDS_PER_DAY, SECONDS_PER_HOUR]
  omega

theorem components_lt (h : d.hourNumber < e.hourNumber) : d.components < e.components := by
  simp only [components, List.cons_lt_cons_iff]
  have hd := d.hour_lt
  have he := e.hour_lt
  unfold hourNumber at h
  rcases Nat.lt_or_ge d.date.dayNumber e.date.dayNumber with hlt | hge
  · rcases Date.lex_of_dayNumber_lt d.date_valid e.date_valid hlt with hyear | ⟨hyear, hrest⟩
    · exact .inl hyear
    · rcases hrest with hmonth | ⟨hmonth, hday⟩
      · exact .inr ⟨hyear, .inl hmonth⟩
      · exact .inr ⟨hyear, .inr ⟨hmonth, .inl hday⟩⟩
  · have hday : e.date.dayNumber = d.date.dayNumber := by omega
    have hdate : d.date = e.date := Date.dayNumber_inj d.date_valid e.date_valid hday.symm
    have hhour : d.hour < e.hour := by omega
    rw [hdate]
    exact .inr ⟨rfl, .inr ⟨rfl, .inr ⟨rfl, .inl hhour⟩⟩⟩

theorem hourNumber_le_of_components_le (h : d.components ≤ e.components) :
    d.hourNumber ≤ e.hourNumber := by
  by_contra hlt
  exact absurd (components_lt (Nat.lt_of_not_le hlt)) (not_lt.mpr h)

theorem ext_components (hroot : d.root = e.root) (h : d.components = e.components) : d = e := by
  obtain ⟨dr, ⟨dy, dm, dd⟩, dh, _, _, _⟩ := d
  obtain ⟨er, ⟨ey, em, ed⟩, eh, _, _, _⟩ := e
  simp only [components, List.cons.injEq, and_true] at h
  obtain ⟨rfl, rfl, rfl, rfl⟩ := h
  cases hroot
  rfl

theorem ext_hourNumber (hroot : d.root = e.root) (h : d.hourNumber = e.hourNumber) : d = e := by
  refine ext_components hroot ?_
  have hd := d.hour_lt
  have he := e.hour_lt
  unfold hourNumber at h
  have hdate : d.date = e.date :=
    Date.dayNumber_inj d.date_valid e.date_valid (by omega)
  have hhour : d.hour = e.hour := by
    rw [hdate] at h
    omega
  rw [components, components, hdate, hhour]

theorem new_eq_ok :
    new root t = .ok d ↔
      t < 2 ^ 63 ∧ d.root = root ∧ d.hourNumber = t / SECONDS_PER_HOUR := by
  constructor
  · intro h
    unfold new at h
    split_ifs at h with hlt
    split at h
    · cases h
    rename_i date hdate
    obtain ⟨-, -, hday⟩ := Date.ofDayNumber_eq_some.mp hdate
    cases h
    refine ⟨Nat.lt_of_not_le hlt, rfl, ?_⟩
    simp only [hourNumber, hday, SECONDS_PER_DAY, SECONDS_PER_HOUR]
    omega
  · rintro ⟨hlt, rfl, hhour⟩
    have hd := d.hour_lt
    have hday : d.date.dayNumber = t / SECONDS_PER_DAY := by
      simp only [hourNumber, SECONDS_PER_DAY, SECONDS_PER_HOUR] at hhour ⊢
      omega
    have hdate : Date.ofDayNumber (MAX_YEAR + 1 - 1970) (t / SECONDS_PER_DAY) = some d.date := by
      refine Date.ofDayNumber_eq_some.mpr ⟨d.date_valid, ?_, hday⟩
      have := d.year_le
      simp only [MAX_YEAR] at *
      omega
    have hrest : t % SECONDS_PER_DAY / SECONDS_PER_HOUR = d.hour := by
      simp only [hourNumber, SECONDS_PER_DAY, SECONDS_PER_HOUR] at hhour hday ⊢
      omega
    unfold new
    rw [if_neg (Nat.not_le_of_lt hlt)]
    split
    · rename_i hnone
      rw [hdate] at hnone
      cases hnone
    · rename_i date hsome
      rw [hdate] at hsome
      cases hsome
      simp only [hrest]

theorem exists_new_of_le {n : Nat} (h : n ≤ d.hourNumber) :
    ∃ e, new d.root (n * SECONDS_PER_HOUR) = .ok e ∧ e.root = d.root ∧ e.hourNumber = n := by
  have hd := d.hour_lt
  have hyear : d.date.year < 1970 + 8030 := Nat.lt_succ_of_le d.year_le
  have hday : d.date.dayNumber < offset yearSize 8030 := Date.dayNumber_lt d.date_valid hyear
  have hbound := Date.offset_yearSize_le 8030
  unfold hourNumber at h
  obtain ⟨date, hdate⟩ := Date.exists_of_lt (show n / 24 < offset yearSize 8030 by omega)
  obtain ⟨hvalid, hlast, hnumber⟩ := Date.ofDayNumber_eq_some.mp hdate
  have hhour : date.dayNumber * 24 + n % 24 = n := by omega
  refine ⟨⟨d.root, date, n % 24, hvalid, Nat.le_of_lt_succ hlast, Nat.mod_lt n (by decide)⟩,
    new_eq_ok.mpr ⟨?_, rfl, ?_⟩, rfl, hhour⟩
  · simp only [SECONDS_PER_HOUR]
    omega
  · rw [Nat.mul_div_cancel n (by decide)]
    exact hhour

theorem exists_prevDir (d : S3HourDirectory) :
    ∃ e, d.prevDir = .ok e ∧ e.root = d.root ∧ e.hourNumber = d.hourNumber - 1 := by
  have hseconds : d.toUnixSeconds - SECONDS_PER_HOUR = (d.hourNumber - 1) * SECONDS_PER_HOUR := by
    rw [toUnixSeconds_eq, Nat.sub_mul, Nat.one_mul]
  rw [prevDir, hseconds]
  exact exists_new_of_le (Nat.sub_le _ _)

/-! ## Paths -/

theorem date_bounds (d : S3HourDirectory) : d.date.month ≤ 12 ∧ d.date.day ≤ 31 :=
  ⟨d.date_valid.2.1.2, d.date_valid.2.2.2.trans (daysInMonth_le _ _)⟩

theorem lt_of_mem_components {n : Nat} (h : n ∈ d.components) : n < U64_SIZE := by
  obtain ⟨hmonth, hday⟩ := d.date_bounds
  have hyear : d.date.year ≤ 9999 := d.year_le
  have hhour := d.hour_lt
  simp only [components, List.mem_cons, List.not_mem_nil, or_false] at h
  simp only [U64_SIZE]
  omega

theorem take_path (d : S3HourDirectory) (k : Nat) :
    d.path.take (k + 1) =
      d.root :: List.zipWith padded ([4, 2, 2, 2].take k) (d.components.take k) := by
  have hpath : d.path = d.root :: List.zipWith padded [4, 2, 2, 2] d.components := rfl
  rw [hpath, List.take_succ_cons, List.take_zipWith]

theorem take_path_congr (hroot : d.root = e.root) {k : Nat}
    (h : d.components.take k = e.components.take k) :
    d.path.take (k + 1) = e.path.take (k + 1) := by
  rw [take_path, take_path, hroot, h]

end S3HourDirectory

/-! ## Reading paths -/

theorem mapM_parseU64 {ws ns : List Nat} (message : String) (hlength : ws.length = ns.length)
    (h : ∀ n ∈ ns, n < U64_SIZE) :
    (List.zipWith padded ws ns).mapM (fun part => orAbort (parseU64 part) message) = .ok ns := by
  induction ns generalizing ws with
  | nil =>
      obtain rfl := List.length_eq_zero_iff.mp hlength
      rfl
  | cons n ns ih =>
      obtain ⟨w, ws, rfl⟩ := List.exists_cons_of_length_eq_add_one hlength
      have hrest := ih (Nat.succ.inj hlength) fun m hm => h m (List.mem_cons_of_mem _ hm)
      rw [List.zipWith_cons_cons, List.mapM_cons, parseU64_padded (h n List.mem_cons_self), hrest]
      rfl

namespace S3HourDirectory

variable {d e : S3HourDirectory}

theorem numeric_take_path (hroot : d.root ≠ []) (k : Nat) :
    S3NumericDirectory.fromPath (d.path.take (k + 1)) =
      .ok ⟨d.root, d.components.take k, d.path.take (k + 1)⟩ := by
  have hlength : ([4, 2, 2, 2].take k).length = (d.components.take k).length := by
    rw [List.length_take, List.length_take]
    rfl
  have hparse := fun message => mapM_parseU64 message hlength fun n hn =>
    lt_of_mem_components (d := d) (List.mem_of_mem_take hn)
  rw [take_path]
  simp only [S3NumericDirectory.fromPath, require, hroot, ne_eq, not_false_eq_true, if_true, hparse]
  rfl

theorem path_inj (hroot : d.root ≠ []) (h : d.path = e.path) : d = e := by
  have hroots : d.root = e.root := (List.cons.inj h).1
  have hd := numeric_take_path hroot 4
  have he := numeric_take_path (hroots ▸ hroot) 4
  rw [h] at hd
  have hcomponents := congrArg S3NumericDirectory.components (Except.ok.inj (hd.symm.trans he))
  exact ext_components hroots hcomponents

theorem fromPath_path (hroot : d.root ≠ []) : fromPath d.path = .ok d := by
  have hnumeric : S3NumericDirectory.fromPath d.path = .ok ⟨d.root, d.components, d.path⟩ :=
    numeric_take_path hroot 4
  obtain ⟨hmonth, hday⟩ := d.date_bounds
  have hyear : d.date.year ≤ 9999 := d.year_le
  have hhour := d.hour_lt
  have hbounds : d.date.year < 2 ^ 31 ∧ d.date.month < 2 ^ 8 ∧ d.date.day < 2 ^ 8 ∧
      d.hour < 2 ^ 8 := by omega
  have hvalid : (Date.mk d.date.year d.date.month d.date.day).Valid ∧ d.date.year ≤ MAX_YEAR ∧
      d.hour < 24 := ⟨d.date_valid, d.year_le, d.hour_lt⟩
  simp only [fromPath, bind_eq_ok]
  refine ⟨_, hnumeric, ?_⟩
  simp only [components, bind_eq_ok, require_eq_ok]
  refine ⟨(), hbounds.1, (), d.date_valid.1, (), hbounds.2.1, (), hbounds.2.2.1, (),
    hbounds.2.2.2, ?_⟩
  rw [dif_pos hvalid]
  exact bind_eq_ok.mpr ⟨(), require_pos trivial, rfl⟩

end S3HourDirectory

end HashiBridge.Guardian
