import HashiBridge.Node.LocalLimiter

/-!
# Detection of a stalled limiter mirror

A node's limiter mirror follows the guardian's sequence number with a lag.
-/

namespace HashiBridge.Node

def STALL_RECONCILE_TICKS : Nat := 20

structure Tick where
  localSeq : Nat
  guardianSeq : Nat
deriving DecidableEq

def pushSeq (window : List Nat) (seq : Nat) : List Nat :=
  let pushed := window ++ [seq]
  if STALL_RECONCILE_TICKS < pushed.length then pushed.tail else pushed

theorem pushSeq_length_le {window : List Nat} (h : window.length ≤ STALL_RECONCILE_TICKS)
    (seq : Nat) : (pushSeq window seq).length ≤ STALL_RECONCILE_TICKS := by
  rw [pushSeq]
  split
  · rw [List.length_tail, List.length_append, List.length_singleton]
    exact h
  · omega

structure LimiterStallTracker where
  /-- the guardian's number on each of the last ticks, oldest first -/
  guardianSeqWindow : List Nat
  finalizeRefused : Bool
  window_le : guardianSeqWindow.length ≤ STALL_RECONCILE_TICKS
deriving DecidableEq

namespace LimiterStallTracker

def default : LimiterStallTracker := ⟨[], false, Nat.zero_le _⟩

def setFinalizeRefused (self : LimiterStallTracker) (finalizeRefused : Bool) : LimiterStallTracker :=
  if finalizeRefused then ⟨[], true, Nat.zero_le _⟩ else { self with finalizeRefused := false }

/-- Once the window is full, its front is the guardian's number of a full window ago. -/
def stalled (self : LimiterStallTracker) (tick : Tick) : Bool :=
  self.guardianSeqWindow.length == STALL_RECONCILE_TICKS &&
    self.guardianSeqWindow.head?.any fun windowedSeq =>
      tick.localSeq < windowedSeq || tick.guardianSeq < tick.localSeq

def observe (self : LimiterStallTracker) (tick : Tick) : Bool × LimiterStallTracker :=
  if self.finalizeRefused then (false, self)
  else if self.stalled tick then (true, ⟨[], self.finalizeRefused, Nat.zero_le _⟩)
  else (false, ⟨pushSeq self.guardianSeqWindow tick.guardianSeq, self.finalizeRefused,
    pushSeq_length_le self.window_le _⟩)

/-- A run of ticks: what each of them returned, and the tracker at the end. -/
def observeAll (self : LimiterStallTracker) : List Tick → List Bool × LimiterStallTracker
  | [] => ([], self)
  | tick :: rest =>
      let (fired, next) := self.observe tick
      let (later, last) := next.observeAll rest
      (fired :: later, last)

def Quiet (self : LimiterStallTracker) (ticks : List Tick) : Prop :=
  true ∉ (self.observeAll ticks).1

instance (self : LimiterStallTracker) (ticks : List Tick) : Decidable (self.Quiet ticks) :=
  inferInstanceAs (Decidable (_ ∉ _))

end LimiterStallTracker

/-! ## The window -/

def lastSeqs (seqs : List Nat) : List Nat := seqs.drop (seqs.length - STALL_RECONCILE_TICKS)

theorem lastSeqs_length (seqs : List Nat) :
    (lastSeqs seqs).length = min seqs.length STALL_RECONCILE_TICKS := by
  rw [lastSeqs, List.length_drop]
  omega

theorem lastSeqs_of_le {seqs : List Nat} (h : seqs.length ≤ STALL_RECONCILE_TICKS) :
    lastSeqs seqs = seqs := by
  rw [lastSeqs, Nat.sub_eq_zero_of_le h, List.drop_zero]

theorem lastSeqs_head? (seqs : List Nat) :
    (lastSeqs seqs).head? = seqs[seqs.length - STALL_RECONCILE_TICKS]? := by
  rw [lastSeqs, List.head?_drop]

theorem pushSeq_lastSeqs (seqs : List Nat) (seq : Nat) :
    pushSeq (lastSeqs seqs) seq = lastSeqs (seqs ++ [seq]) := by
  have hlength := lastSeqs_length seqs
  simp only [pushSeq, List.length_append, List.length_singleton, hlength]
  by_cases hfull : STALL_RECONCILE_TICKS ≤ seqs.length
  · rw [if_pos (by omega), lastSeqs, lastSeqs, List.length_append, List.length_singleton,
      ← List.drop_append_of_le_length (by omega : seqs.length - STALL_RECONCILE_TICKS ≤ seqs.length),
      List.tail_drop]
    congr 1
    omega
  · rw [if_neg (by omega), lastSeqs_of_le (by omega), lastSeqs_of_le]
    rw [List.length_append, List.length_singleton]
    omega

namespace LimiterStallTracker

variable {self : LimiterStallTracker}

theorem quiet_cons {tick : Tick} {rest : List Tick} : self.Quiet (tick :: rest) ↔
    (self.observe tick).1 = false ∧ (self.observe tick).2.Quiet rest := by
  rw [Quiet, observeAll, List.mem_cons, not_or, Quiet]
  refine and_congr_left fun _ => ?_
  rw [eq_comm, Bool.not_eq_true]

/-- A tick is quiet unless the window is full and the mirror is short of its front or ahead. -/
theorem observe_quiet_iff (hrefused : self.finalizeRefused = false) {tick : Tick} :
    (self.observe tick).1 = false ↔
      (self.guardianSeqWindow.length = STALL_RECONCILE_TICKS →
        ∀ seq ∈ self.guardianSeqWindow.head?,
          seq ≤ tick.localSeq ∧ tick.localSeq ≤ tick.guardianSeq) := by
  have hstalled : (self.observe tick).1 = self.stalled tick := by
    rw [observe, hrefused, if_neg Bool.false_ne_true]
    split
    next h => exact h.symm
    next h => exact (Bool.eq_false_iff.mpr h).symm
  rw [hstalled, stalled]
  cases hhead : self.guardianSeqWindow.head? with
  | none => simp
  | some seq => simp

theorem observe_quiet (hrefused : self.finalizeRefused = false) {tick : Tick}
    (h : (self.observe tick).1 = false) :
    (self.observe tick).2.guardianSeqWindow = pushSeq self.guardianSeqWindow tick.guardianSeq ∧
      (self.observe tick).2.finalizeRefused = false := by
  rw [observe, hrefused, if_neg Bool.false_ne_true] at h ⊢
  split at h
  · cases h
  next hstalled =>
    rw [if_neg hstalled]
    exact ⟨rfl, rfl⟩

/-- A run is quiet just when every tick with a full window behind it, which starts at `seq`, has the
mirror between `seq` and the guardian's number. The numbers before the run are `seqs`. -/
theorem quiet_iff (hrefused : self.finalizeRefused = false) {seqs : List Nat}
    (hwindow : self.guardianSeqWindow = lastSeqs seqs) (ticks : List Tick) :
    self.Quiet ticks ↔ ∀ i tick seq, ticks[i]? = some tick →
      STALL_RECONCILE_TICKS ≤ seqs.length + i →
      (seqs ++ ticks.map Tick.guardianSeq)[seqs.length + i - STALL_RECONCILE_TICKS]? = some seq →
      seq ≤ tick.localSeq ∧ tick.localSeq ≤ tick.guardianSeq := by
  induction ticks generalizing self seqs with
  | nil =>
      refine iff_of_true List.not_mem_nil ?_
      intro i tick seq htick
      cases htick
  | cons tick rest ih =>
      have hfirst : (self.observe tick).1 = false ↔ ∀ seq,
          STALL_RECONCILE_TICKS ≤ seqs.length →
          seqs[seqs.length - STALL_RECONCILE_TICKS]? = some seq →
          seq ≤ tick.localSeq ∧ tick.localSeq ≤ tick.guardianSeq := by
        rw [observe_quiet_iff hrefused, hwindow, lastSeqs_length, lastSeqs_head?]
        constructor
        · intro h seq hfull hseq
          exact h (by omega) seq hseq
        · intro h hfull seq hseq
          exact h seq (by omega) hseq
      -- the rest of the run starts from the window with this tick's number
      have hrest (hquiet : (self.observe tick).1 = false) :
          (self.observe tick).2.Quiet rest ↔ ∀ i later seq, rest[i]? = some later →
            STALL_RECONCILE_TICKS ≤ seqs.length + (i + 1) →
            (seqs ++ (tick :: rest).map Tick.guardianSeq)[
              seqs.length + (i + 1) - STALL_RECONCILE_TICKS]? = some seq →
            seq ≤ later.localSeq ∧ later.localSeq ≤ later.guardianSeq := by
        obtain ⟨hpushed, hnext⟩ := observe_quiet hrefused hquiet
        rw [hwindow, pushSeq_lastSeqs] at hpushed
        rw [ih hnext hpushed, List.length_append, List.length_singleton, List.append_assoc,
          List.map_cons]
        simp only [Nat.add_assoc, Nat.add_comm 1, List.cons_append, List.nil_append]
      rw [quiet_cons]
      constructor
      · rintro ⟨hquiet, hlater⟩ i later seq htick hfull hseq
        cases i with
        | zero =>
            obtain rfl := Option.some.inj htick
            rw [Nat.add_zero] at hfull
            rw [Nat.add_zero, List.getElem?_append_left (by
              have : 0 < STALL_RECONCILE_TICKS := by decide
              omega)] at hseq
            exact hfirst.mp hquiet seq hfull hseq
        | succ i => exact (hrest hquiet).mp hlater i later seq htick hfull hseq
      · intro h
        have hquiet : (self.observe tick).1 = false := hfirst.mpr fun seq hfull hseq => by
          refine h 0 tick seq rfl hfull ?_
          rw [List.getElem?_append_left, Nat.add_zero, hseq]
          exact (List.getElem?_eq_some_iff.mp hseq).1
        exact ⟨hquiet, (hrest hquiet).mpr fun i later seq htick => h (i + 1) later seq htick⟩

/-! ## Whole runs -/

theorem quiet_default_iff (ticks : List Tick) : default.Quiet ticks ↔
    ∀ i seen tick, ticks[i]? = some seen → ticks[i + STALL_RECONCILE_TICKS]? = some tick →
      seen.guardianSeq ≤ tick.localSeq ∧ tick.localSeq ≤ tick.guardianSeq := by
  rw [quiet_iff rfl (lastSeqs_of_le (Nat.zero_le _)).symm]
  simp only [default, List.nil_append, List.length_nil, Nat.zero_add, List.getElem?_map]
  constructor
  · intro h i seen tick hseen htick
    refine h (i + STALL_RECONCILE_TICKS) tick seen.guardianSeq htick (Nat.le_add_left _ _) ?_
    rw [Nat.add_sub_cancel, hseen]
    rfl
  · intro h i tick seq htick hfull hseq
    obtain ⟨seen, hseen, rfl⟩ := Option.map_eq_some_iff.mp hseq
    refine h (i - STALL_RECONCILE_TICKS) seen tick hseen ?_
    rw [Nat.sub_add_cancel hfull, htick]

/-- Within the window after a tick, where the run is that long, the mirror reaches the number seen. -/
def Reaches (ticks : List Tick) : Prop :=
  ∀ suffix ∈ ticks.tails, ∀ seen ∈ suffix.head?, STALL_RECONCILE_TICKS < suffix.length →
    ∃ later ∈ suffix.take (STALL_RECONCILE_TICKS + 1), seen.guardianSeq ≤ later.localSeq

instance (ticks : List Tick) : Decidable (Reaches ticks) :=
  inferInstanceAs (Decidable (∀ _ ∈ _, _))

theorem quiet_of_reaches {ticks : List Tick}
    (hlocal : ticks.Pairwise fun a b => a.localSeq ≤ b.localSeq)
    (hbehind : ∀ tick ∈ ticks, tick.localSeq ≤ tick.guardianSeq) (hreaches : Reaches ticks) :
    default.Quiet ticks := by
  rw [quiet_default_iff]
  intro i seen tick hseen htick
  refine ⟨?_, hbehind tick (List.mem_of_getElem? htick)⟩
  have hlength := (List.getElem?_eq_some_iff.mp htick).1
  obtain ⟨later, hlater, hle⟩ := hreaches (ticks.drop i) ((List.mem_tails _ _).mpr (List.drop_suffix i ticks))
    seen (by rw [List.head?_drop]; exact hseen) (by rw [List.length_drop]; omega)
  obtain ⟨k, hk⟩ := List.mem_iff_getElem?.mp hlater
  rw [List.getElem?_take, List.getElem?_drop] at hk
  obtain ⟨hkbound, hk⟩ := Option.ite_none_right_eq_some.mp hk
  rcases Nat.lt_or_eq_of_le (Nat.le_of_lt_succ hkbound) with hlt | rfl
  · have hmono := List.pairwise_iff_getElem.mp hlocal (i + k) (i + STALL_RECONCILE_TICKS)
      (List.getElem?_eq_some_iff.mp hk).1 hlength (by omega)
    rw [(List.getElem?_eq_some_iff.mp hk).2, (List.getElem?_eq_some_iff.mp htick).2] at hmono
    exact Nat.le_trans hle hmono
  · obtain rfl := Option.some.inj (hk.symm.trans htick)
    exact hle

theorem Quiet.last {first last : Tick} {rest : List Tick} (hrefused : self.finalizeRefused = false)
    (hlength : rest.length + 1 = STALL_RECONCILE_TICKS)
    (h : self.Quiet (first :: rest ++ [last])) :
    first.guardianSeq ≤ last.localSeq ∧ last.localSeq ≤ last.guardianSeq := by
  refine (quiet_iff hrefused (lastSeqs_of_le self.window_le).symm _).mp h STALL_RECONCILE_TICKS last
    first.guardianSeq ?_ (Nat.le_add_left _ _) ?_
  · rw [List.getElem?_append_right (by rw [List.length_cons, hlength]), List.length_cons, hlength,
      Nat.sub_self]
    rfl
  · rw [Nat.add_sub_cancel, List.getElem?_append_right (Nat.le_refl _), Nat.sub_self]
    rfl

theorem observeAll_refused (h : self.finalizeRefused = true) (ticks : List Tick) :
    self.Quiet ticks ∧ (self.observeAll ticks).2 = self := by
  have hobserve (tick : Tick) : self.observe tick = (false, self) := by rw [observe, if_pos h]
  induction ticks with
  | nil => exact ⟨List.not_mem_nil, rfl⟩
  | cons tick rest ih =>
      rw [quiet_cons, observeAll, hobserve]
      exact ⟨⟨rfl, ih.1⟩, ih.2⟩

/-- What the tracker detects. A fresh tracker never fires just when, a window after each tick, the mirror
has reached the guardian's number seen at it and is not ahead; in particular on a run in which the
mirror never goes back, stays behind the guardian and reaches every number within the window. Whatever
the window holds, a mirror that is short of a number already seen, or ahead of the guardian, for one
tick more than the window is reported. A refusal that is set and cleared leaves a fresh tracker. -/
theorem limiter_stall_detection :
    (∀ ticks, default.Quiet ticks ↔
      ∀ i seen tick, ticks[i]? = some seen → ticks[i + STALL_RECONCILE_TICKS]? = some tick →
        seen.guardianSeq ≤ tick.localSeq ∧ tick.localSeq ≤ tick.guardianSeq) ∧
    (∀ ticks, (ticks.Pairwise fun a b => a.localSeq ≤ b.localSeq) →
      (∀ tick ∈ ticks, tick.localSeq ≤ tick.guardianSeq) → Reaches ticks → default.Quiet ticks) ∧
    (∀ (self : LimiterStallTracker) (earlier : List Tick) (first : Tick) (rest : List Tick),
      self.finalizeRefused = false → rest.length = STALL_RECONCILE_TICKS →
      ((earlier ++ first :: rest).Pairwise fun a b => a.guardianSeq ≤ b.guardianSeq) →
      (∃ seen ∈ earlier ++ [first], ∀ tick ∈ first :: rest, tick.localSeq < seen.guardianSeq) ∨
        (∀ tick ∈ first :: rest, tick.guardianSeq < tick.localSeq) →
      ¬ self.Quiet (first :: rest)) ∧
    ∀ (self : LimiterStallTracker) (ticks : List Tick),
      (self.setFinalizeRefused true).Quiet ticks ∧
        ((self.setFinalizeRefused true).observeAll ticks).2.setFinalizeRefused false = default := by
  refine ⟨quiet_default_iff, fun ticks => quiet_of_reaches, ?_, ?_⟩
  · intro self earlier first rest hrefused hlength hguardian hlost hquiet
    obtain ⟨middle, last, rfl⟩ : ∃ middle last, rest = middle ++ [last] := by
      rcases List.eq_nil_or_concat rest with rfl | ⟨middle, last, hconcat⟩
      · cases hlength
      · exact ⟨middle, last, hconcat.trans List.concat_eq_append⟩
    have hmem : last ∈ first :: (middle ++ [last]) :=
      List.mem_cons_of_mem _ (List.mem_append_right _ List.mem_cons_self)
    rw [List.length_append, List.length_singleton] at hlength
    obtain ⟨hreached, hbehind⟩ := Quiet.last hrefused hlength hquiet
    rcases hlost with ⟨seen, hseen, hshort⟩ | hahead
    · have hle : seen.guardianSeq ≤ first.guardianSeq := by
        rcases List.mem_append.mp hseen with hseen | hseen
        · exact (List.pairwise_append.mp hguardian).2.2 seen hseen first List.mem_cons_self
        · rw [List.mem_singleton.mp hseen]
      have := hshort last hmem
      omega
    · have := hahead last hmem
      omega
  · intro self ticks
    have hrefused : (self.setFinalizeRefused true).finalizeRefused = true := rfl
    obtain ⟨hquiet, hsame⟩ := observeAll_refused hrefused ticks
    refine ⟨hquiet, ?_⟩
    rw [hsame]
    rfl

/-- A mirror that reached the guardian's number and then went back by one is reported. -/
theorem fires_after_step_back : ∃ ticks : List Tick,
    (ticks.Pairwise fun a b => a.guardianSeq ≤ b.guardianSeq) ∧
    (∀ tick ∈ ticks, tick.localSeq ≤ tick.guardianSeq) ∧ Reaches ticks ∧ ¬ default.Quiet ticks :=
  ⟨List.replicate 20 ⟨5, 5⟩ ++ ⟨4, 5⟩ :: List.replicate 20 ⟨5, 5⟩, by decide, by decide, by decide,
    by decide⟩

end LimiterStallTracker
end HashiBridge.Node
