import HashiBridge.Guardian.Lemmas.LogLayout
import HashiBridge.Monitor.GuardianCursor

/-!
# The sequence audit accounts for every number

Every number below the next one is accepted once, waits as a gap, or was reported once as a gap; and a
guardian whose logs are late by a directory at most is never reported.
-/

namespace HashiBridge.Monitor

open Lib

def GuardianInconsistency.IsGap (seq : Nat) : GuardianInconsistency → Prop
  | seqGap s _ => s = seq
  | _ => False

instance (seq : Nat) : DecidablePred (GuardianInconsistency.IsGap seq)
  | .seqGap s _ => inferInstanceAs (Decidable (s = seq))
  | .seqDuplicate .. => inferInstanceAs (Decidable False)
  | .seqJump .. => inferInstanceAs (Decidable False)

@[simp] theorem GuardianInconsistency.isGap_duplicate {seq s : Nat} {key : String} :
    ¬ IsGap seq (seqDuplicate s key) := id

def acceptedCount (events : List CursorEvent) (seq : Nat) : Nat :=
  events.countP fun e => CursorEvent.Accepts seq e

def gapReports (events : List CursorEvent) (seq : Nat) : Nat :=
  (events.flatMap CursorEvent.findings).countP fun f => GuardianInconsistency.IsGap seq f

/-- The classes that a number is in, counted with multiplicity. -/
def classes (events : List CursorEvent) (cursor : GuardianCursor) (seq : Nat) : Nat :=
  acceptedCount events seq + (if seq ∈ cursor.gaps then 1 else 0) +
    (if seq ∈ cursor.dueGaps then 1 else 0) + gapReports events seq

theorem acceptedCount_snoc (events : List CursorEvent) (e : CursorEvent) (seq : Nat) :
    acceptedCount (events ++ [e]) seq =
      acceptedCount events seq + if CursorEvent.Accepts seq e then 1 else 0 := by
  rw [acceptedCount, List.countP_append, List.countP_singleton, acceptedCount]
  simp only [decide_eq_true_eq]

theorem gapReports_snoc (events : List CursorEvent) (e : CursorEvent) (seq : Nat) :
    gapReports (events ++ [e]) seq = gapReports events seq +
      e.findings.countP fun f => GuardianInconsistency.IsGap seq f := by
  rw [gapReports, List.flatMap_append, List.countP_append, List.flatMap_singleton, gapReports]

/-! ## One call -/

namespace GuardianCursor

variable {self next : GuardianCursor} {key : String} {seq : Nat}
  {finding : Option GuardianInconsistency} {findings : List GuardianInconsistency}

theorem record_cases (hseq : seq + 1 < U64_SIZE) (hskip : seq ≤ self.nextSeq + MAX_SEQ_SKIP)
    (h : self.record key seq = .ok (finding, next)) :
    key ∉ self.dirKeys ∧
    ((seq < self.nextSeq ∧ seq ∈ self.gaps ∧ finding = none ∧
        next = { self with dirKeys := insert key self.dirKeys, gaps := self.gaps.erase seq }) ∨
      (seq < self.nextSeq ∧ seq ∉ self.gaps ∧ seq ∈ self.dueGaps ∧ finding = none ∧
        next = { self with dirKeys := insert key self.dirKeys, dueGaps := self.dueGaps.erase seq }) ∨
      (seq < self.nextSeq ∧ seq ∉ self.gaps ∧ seq ∉ self.dueGaps ∧
        finding = some (.seqDuplicate seq key) ∧
        next = { self with dirKeys := insert key self.dirKeys }) ∨
      (self.nextSeq ≤ seq ∧ finding = none ∧
        next = { self with
          dirKeys := insert key self.dirKeys
          nextSeq := seq + 1
          gaps := self.gaps ∪ Finset.Ico self.nextSeq seq })) := by
  have hsucc : saturateU64 (seq + 1) = seq + 1 := Nat.min_eq_left (by omega)
  simp only [record, bind_eq_ok, require_eq_ok] at h
  obtain ⟨_, hkey, h⟩ := h
  refine ⟨hkey, ?_⟩
  split at h
  next hlt =>
    split at h
    next hgap =>
      obtain ⟨rfl, rfl⟩ := Prod.mk.inj (pure_eq_ok.mp h)
      exact Or.inl ⟨hlt, hgap, rfl, rfl⟩
    next hgap =>
      split at h
      next hdue =>
        obtain ⟨rfl, rfl⟩ := Prod.mk.inj (pure_eq_ok.mp h)
        exact Or.inr (Or.inl ⟨hlt, hgap, hdue, rfl, rfl⟩)
      next hdue =>
        obtain ⟨rfl, rfl⟩ := Prod.mk.inj (pure_eq_ok.mp h)
        exact Or.inr (Or.inr (Or.inl ⟨hlt, hgap, hdue, rfl, rfl⟩))
  next hge =>
    refine Or.inr (Or.inr (Or.inr ?_))
    split at h
    next heq =>
      obtain ⟨rfl, rfl⟩ := Prod.mk.inj (pure_eq_ok.mp h)
      refine ⟨heq.ge, rfl, ?_⟩
      rw [hsucc, heq, Finset.Ico_self, Finset.union_empty]
    next hne =>
      rw [if_neg (by simp only [Nat.not_lt] at hge ⊢; omega)] at h
      obtain ⟨rfl, rfl⟩ := Prod.mk.inj (pure_eq_ok.mp h)
      exact ⟨Nat.not_lt.mp hge, rfl, by rw [hsucc]⟩

theorem finishDir_cases (h : self.finishDir = .ok (findings, next)) :
    ∃ dir, self.dir.nextDir = .ok dir ∧
      findings = (self.dueGaps.sort (· ≤ ·)).map (fun seq => .seqGap seq dir.toUnixSeconds) ∧
      next = { self with dir, dirKeys := ∅, dueGaps := self.gaps, gaps := ∅ } := by
  simp only [finishDir, bind_eq_ok, pure_eq_ok, Prod.mk.injEq] at h
  obtain ⟨dir, hdir, rfl, rfl⟩ := h
  exact ⟨dir, hdir, rfl, rfl⟩

end GuardianCursor

theorem countP_gaps (seqs : Finset Nat) (expectBy seq : Nat) :
    (((seqs.sort (· ≤ ·)).map fun s => GuardianInconsistency.seqGap s expectBy).countP
      fun f => GuardianInconsistency.IsGap seq f) = if seq ∈ seqs then 1 else 0 := by
  rw [List.countP_map]
  have hcount : (seqs.sort (· ≤ ·)).countP ((fun f => decide (GuardianInconsistency.IsGap seq f)) ∘
      fun s => GuardianInconsistency.seqGap s expectBy) = (seqs.sort (· ≤ ·)).count seq := by
    refine List.countP_congr fun s _ => ?_
    rw [Function.comp_apply, beq_iff_eq, decide_eq_true_iff]
    rfl
  rw [hcount, (Finset.sort_nodup _ _).count]
  simp only [Finset.mem_sort]

/-! ## Classes -/

/-- Below the next number every number is in one class, from there on in none. -/
def Accounted (events : List CursorEvent) (cursor : GuardianCursor) : Prop :=
  ∀ seq, classes events cursor seq = if seq < cursor.nextSeq then 1 else 0

theorem accounted_new (dir : Guardian.S3HourDirectory) : Accounted [] (GuardianCursor.new dir) := by
  intro seq
  rfl

theorem Accounted.step {events : List CursorEvent} {self next : GuardianCursor} {e : CursorEvent}
    (h : Accounted events self) (hstep : CursorStep self e next) : Accounted (events ++ [e]) next := by
  intro s
  have hs := h s
  rw [classes] at hs
  rw [classes, acceptedCount_snoc, gapReports_snoc]
  cases hstep with
  | @record _ key seq finding hseq hskip hrecord =>
      obtain ⟨-, ⟨hlt, hgap, rfl, rfl⟩ | ⟨hlt, hgap, hdue, rfl, rfl⟩ | ⟨hlt, hgap, hdue, rfl, rfl⟩ |
        ⟨hge, rfl, rfl⟩⟩ := GuardianCursor.record_cases hseq hskip hrecord
      -- a number that fills a gap moves to the accepted ones
      · by_cases hsame : seq = s
        · subst hsame
          simp only [hlt, hgap, CursorEvent.accepts_read, Finset.mem_erase, ne_eq, not_true_eq_false,
            false_and, and_self, if_true, if_false] at hs ⊢
          simp only [CursorEvent.findings_read, Option.toList_none, List.countP_nil]
          omega
        · simp only [hsame, Ne.symm hsame, CursorEvent.accepts_read, Finset.mem_erase, ne_eq,
            not_false_eq_true, true_and, false_and, if_false]
          exact hs
      · by_cases hsame : seq = s
        · subst hsame
          simp only [hlt, hgap, hdue, CursorEvent.accepts_read, Finset.mem_erase, ne_eq,
            not_true_eq_false, false_and, and_self, if_true, if_false] at hs ⊢
          simp only [CursorEvent.findings_read, Option.toList_none, List.countP_nil]
          omega
        · simp only [hsame, Ne.symm hsame, CursorEvent.accepts_read, Finset.mem_erase, ne_eq,
            not_false_eq_true, true_and, false_and, if_false]
          exact hs
      · simp only [CursorEvent.accepts_read, reduceCtorEq, and_false, if_false,
          CursorEvent.findings_read, Option.toList_some, List.countP_singleton,
          GuardianInconsistency.isGap_duplicate, decide_false, Bool.false_eq_true]
        exact hs
      -- the number itself is accepted, and those that it skips become gaps
      · simp only [CursorEvent.accepts_read, and_true, Finset.mem_union, Finset.mem_Ico,
          CursorEvent.findings_read, Option.toList_none, List.countP_nil]
        by_cases hold : s < self.nextSeq
        · have hne : ¬ seq = s := by omega
          have hlt : s < seq + 1 := by omega
          simp only [hold, hne, hlt, Nat.not_le_of_lt hold, false_and, or_false, if_true, if_false]
            at hs ⊢
          omega
        · have hgap : s ∉ self.gaps := fun hgap => by
            rw [if_pos hgap, if_neg hold] at hs
            omega
          simp only [hold, hgap, Nat.not_lt.mp hold, false_or, true_and, if_false] at hs ⊢
          rcases Nat.lt_trichotomy s seq with hlt | rfl | hgt
          · have hne : ¬ seq = s := by omega
            simp only [hne, hlt, Nat.lt_succ_of_lt hlt, if_true, if_false]
            omega
          · simp only [Nat.lt_irrefl, Nat.lt_succ_self, if_true, if_false]
            omega
          · have hne : ¬ seq = s := by omega
            have hge : ¬ s < seq + 1 := by omega
            simp only [hne, hge, Nat.not_lt_of_lt hgt, if_false]
            omega
  | @finishDir _ findings hfinish =>
      obtain ⟨dir, -, rfl, rfl⟩ := GuardianCursor.finishDir_cases hfinish
      rw [CursorEvent.findings_finished, countP_gaps, if_neg CursorEvent.accepts_finished,
        if_neg (Finset.notMem_empty s)]
      dsimp only
      omega

theorem accounted_of_run {dir : Guardian.S3HourDirectory} {events : List CursorEvent}
    {cursor : GuardianCursor} (h : Run CursorStep (.new dir) events cursor) :
    Accounted events cursor :=
  h.history (accounted_new dir) fun _ _ _ _ hacc hstep => hacc.step hstep

namespace Accounted

variable {events : List CursorEvent} {self next : GuardianCursor} {key : String} {seq : Nat}
  {finding : Option GuardianInconsistency} (h : Accounted events self)
include h

theorem lt_of_gap (hgap : seq ∈ self.gaps) : seq < self.nextSeq := by
  by_contra hge
  have hseq := h seq
  rw [classes, if_pos hgap, if_neg hge] at hseq
  omega

theorem lt_of_due (hdue : seq ∈ self.dueGaps) : seq < self.nextSeq := by
  by_contra hge
  have hseq := h seq
  rw [classes, if_pos hdue, if_neg hge] at hseq
  omega

theorem notMem_dueGaps (hgap : seq ∈ self.gaps) : seq ∉ self.dueGaps := by
  intro hdue
  have hseq := h seq
  rw [classes, if_pos hgap, if_pos hdue] at hseq
  split at hseq <;> omega

theorem duplicate_iff (hseq : seq + 1 < U64_SIZE) (hskip : seq ≤ self.nextSeq + MAX_SEQ_SKIP)
    (hrecord : self.record key seq = .ok (finding, next)) :
    (finding = none ∨ finding = some (.seqDuplicate seq key)) ∧
      (finding = some (.seqDuplicate seq key) ↔
        0 < acceptedCount events seq ∨ 0 < gapReports events seq) := by
  have hclass := h seq
  rw [classes] at hclass
  obtain ⟨-, ⟨hlt, hgap, rfl, -⟩ | ⟨hlt, hgap, hdue, rfl, -⟩ | ⟨hlt, hgap, hdue, rfl, -⟩ |
    ⟨hge, rfl, -⟩⟩ := GuardianCursor.record_cases hseq hskip hrecord
  · rw [if_pos hlt, if_pos hgap] at hclass
    exact ⟨Or.inl rfl, iff_of_false (Option.some_ne_none _).symm (by omega)⟩
  · rw [if_pos hlt, if_pos hdue] at hclass
    exact ⟨Or.inl rfl, iff_of_false (Option.some_ne_none _).symm (by omega)⟩
  · rw [if_pos hlt, if_neg hgap, if_neg hdue] at hclass
    exact ⟨Or.inr rfl, iff_of_true rfl (by omega)⟩
  · rw [if_neg (Nat.not_lt.mpr hge)] at hclass
    exact ⟨Or.inl rfl, iff_of_false (Option.some_ne_none _).symm (by omega)⟩

end Accounted

/-! ## Late logs -/

variable {events : List CursorEvent} {self next cursor : GuardianCursor} {e : CursorEvent}
  {seq finished : Nat} {dir : Guardian.S3HourDirectory} {findings : List GuardianInconsistency}

/-- The number was skipped when `finished` directories were still to be finished, and is unread. -/
def Skipped (events : List CursorEvent) (seq finished : Nat) : Prop :=
  (∀ e ∈ events, ¬ e.Reads seq) ∧
    ∃ before key higher finding after, events = before ++ .read key higher finding :: after ∧
      seq < higher ∧ after.countP (fun e => e.Finishes) = finished

theorem Skipped.snoc (h : Skipped events seq finished) (hunread : ¬ e.Reads seq) :
    Skipped (events ++ [e]) seq (finished + [e].countP fun e => e.Finishes) := by
  obtain ⟨hevents, before, key, higher, finding, after, rfl, hhigher, rfl⟩ := h
  refine ⟨?_, before, key, higher, finding, after ++ [e], ?_, hhigher, List.countP_append⟩
  · rw [List.forall_mem_append, List.forall_mem_singleton]
    exact ⟨hevents, hunread⟩
  · rw [List.append_assoc, List.cons_append]

structure Waits (events : List CursorEvent) (cursor : GuardianCursor) : Prop where
  read_lt : ∀ e ∈ events, ∀ seq, e.Reads seq → seq < cursor.nextSeq
  gaps : ∀ seq ∈ cursor.gaps, Skipped events seq 0
  dueGaps : ∀ seq ∈ cursor.dueGaps, Skipped events seq 1

theorem waits_new (dir : Guardian.S3HourDirectory) : Waits [] (GuardianCursor.new dir) where
  read_lt := fun _ he => absurd he List.not_mem_nil
  gaps := fun _ hgap => absurd hgap (Finset.notMem_empty _)
  dueGaps := fun _ hdue => absurd hdue (Finset.notMem_empty _)

theorem Waits.read_snoc_lt {key : String} {finding : Option GuardianInconsistency} {bound : Nat}
    (h : Waits events self) (hbound : self.nextSeq ≤ bound) (hseq : seq < bound) :
    ∀ e ∈ events ++ [CursorEvent.read key seq finding], ∀ s, e.Reads s → s < bound :=
  List.forall_mem_append.mpr
    ⟨fun e he s hreads => Nat.lt_of_lt_of_le (h.read_lt e he s hreads) hbound,
      List.forall_mem_singleton.mpr fun _ hreads => hreads ▸ hseq⟩

theorem Waits.step (hacc : Accounted events self) (h : Waits events self)
    (hstep : CursorStep self e next) : Waits (events ++ [e]) next := by
  cases hstep with
  | @record _ key seq finding hseq hskip hrecord =>
      obtain ⟨-, ⟨hlt, hgap, rfl, rfl⟩ | ⟨hlt, hgap, hdue, rfl, rfl⟩ | ⟨hlt, hgap, hdue, rfl, rfl⟩ |
        ⟨hge, rfl, rfl⟩⟩ := GuardianCursor.record_cases hseq hskip hrecord
      · refine ⟨h.read_snoc_lt (Nat.le_refl _) hlt, fun s hs => ?_, fun s hs => ?_⟩
        · obtain ⟨hne, hs⟩ := Finset.mem_erase.mp hs
          exact (h.gaps s hs).snoc hne.symm
        · exact (h.dueGaps s hs).snoc fun heq => hacc.notMem_dueGaps hgap (heq ▸ hs)
      · refine ⟨h.read_snoc_lt (Nat.le_refl _) hlt, fun s hs => ?_, fun s hs => ?_⟩
        · exact (h.gaps s hs).snoc fun heq => hgap (heq ▸ hs)
        · obtain ⟨hne, hs⟩ := Finset.mem_erase.mp hs
          exact (h.dueGaps s hs).snoc hne.symm
      · refine ⟨h.read_snoc_lt (Nat.le_refl _) hlt, fun s hs => ?_, fun s hs => ?_⟩
        · exact (h.gaps s hs).snoc fun heq => hgap (heq ▸ hs)
        · exact (h.dueGaps s hs).snoc fun heq => hdue (heq ▸ hs)
      · refine ⟨h.read_snoc_lt (Nat.le_succ_of_le hge) (Nat.lt_succ_self seq), fun s hs => ?_,
          fun s hs => ?_⟩
        · rcases Finset.mem_union.mp hs with hs | hs
          · exact (h.gaps s hs).snoc ((hacc.lt_of_gap hs).trans_le hge).ne'
          · obtain ⟨hle, hlt⟩ := Finset.mem_Ico.mp hs
            refine ⟨?_, events, key, seq, none, [], rfl, hlt, rfl⟩
            rw [List.forall_mem_append, List.forall_mem_singleton]
            exact ⟨fun e he hreads => Nat.not_lt.mpr hle (h.read_lt e he s hreads), Nat.ne_of_gt hlt⟩
        · exact (h.dueGaps s hs).snoc ((hacc.lt_of_due hs).trans_le hge).ne'
  | @finishDir _ findings hfinish =>
      obtain ⟨dir, -, rfl, rfl⟩ := GuardianCursor.finishDir_cases hfinish
      exact ⟨List.forall_mem_append.mpr ⟨h.read_lt, List.forall_mem_singleton.mpr fun _ => False.elim⟩,
        fun s hs => absurd hs (Finset.notMem_empty s), fun s hs => (h.gaps s hs).snoc id⟩

def OneLogEach (events : List CursorEvent) : Prop :=
  ∀ before key seq finding after, events = before ++ .read key seq finding :: after →
    ∀ e ∈ before, ¬ e.Reads seq

/-- A number that a higher one skips is read before the end of the next directory, where the calls come
that far. -/
def Timely (events : List CursorEvent) : Prop :=
  ∀ before key higher finding after seq, before ++ .read key higher finding :: after <+: events →
    seq < higher → (∀ e ∈ before, ¬ e.Reads seq) → 2 ≤ after.countP (fun e => e.Finishes) →
    ∃ inTime rest, after = inTime ++ rest ∧ inTime.countP (fun e => e.Finishes) ≤ 1 ∧
      ∃ e ∈ inTime, e.Reads seq

theorem OneLogEach.of_snoc (h : OneLogEach (events ++ [e])) : OneLogEach events := by
  intro before key seq finding after hevents
  refine h before key seq finding (after ++ [e]) ?_
  rw [hevents, List.append_assoc, List.cons_append]

theorem Timely.of_snoc (h : Timely (events ++ [e])) : Timely events :=
  fun before key higher finding after seq hpre =>
    h before key higher finding after seq (hpre.trans (List.prefix_append events [e]))

theorem Waits.nothing_due (h : Waits events self)
    (htimely : Timely (events ++ [.finished findings])) : self.dueGaps = ∅ := by
  refine Finset.eq_empty_of_forall_notMem fun s hs => ?_
  obtain ⟨hunread, before, key, higher, finding, after, rfl, hhigher, hcount⟩ := h.dueGaps s hs
  obtain ⟨inTime, rest, hafter, -, e, he, hreads⟩ := htimely before key higher finding
    (after ++ [.finished findings]) s (by rw [List.append_assoc, List.cons_append])
    hhigher (fun e he => hunread e (List.mem_append_left _ he))
    (by rw [List.countP_append, hcount]; rfl)
  have hmem : e ∈ after ++ [.finished findings] := hafter ▸ List.mem_append_left rest he
  rcases List.mem_append.mp hmem with hmem | hmem
  · exact hunread e (List.mem_append_right _ (List.mem_cons_of_mem _ hmem)) hreads
  · rw [List.mem_singleton.mp hmem] at hreads
    exact hreads

theorem CursorEvent.Accepts.reads (h : e.Accepts seq) : e.Reads seq := by
  cases e with
  | read key s finding => exact h.1
  | finished findings => exact h

theorem no_finding_of_timely (h : Run CursorStep (.new dir) events cursor)
    (hone : OneLogEach events) (htimely : Timely events) :
    Waits events cursor ∧ ∀ e ∈ events, e.findings = [] := by
  induction h with
  | nil => exact ⟨waits_new dir, fun e he => absurd he List.not_mem_nil⟩
  | @snoc events self e next hrun hstep ih =>
      obtain ⟨hwaits, hnone⟩ := ih hone.of_snoc htimely.of_snoc
      have hacc := accounted_of_run hrun
      rw [List.forall_mem_append, List.forall_mem_singleton]
      refine ⟨hwaits.step hacc hstep, hnone, ?_⟩
      have hreports (seq : Nat) : gapReports events seq = 0 := by
        rw [gapReports, List.flatMap_eq_nil_iff.mpr hnone]
        rfl
      cases hstep with
      | @record _ key seq finding hseq hskip hrecord =>
          obtain ⟨rfl | hduplicate, hiff⟩ := hacc.duplicate_iff hseq hskip hrecord
          · rfl
          · rcases hiff.mp hduplicate with haccepted | hreported
            · obtain ⟨earlier, hearlier, haccepts⟩ := List.countP_pos_iff.mp haccepted
              exact absurd (decide_eq_true_iff.mp haccepts).reads
                (hone events key seq finding [] rfl earlier hearlier)
            · rw [hreports] at hreported
              exact absurd hreported (Nat.lt_irrefl 0)
      | @finishDir _ findings hfinish =>
          obtain ⟨dir', -, hfindings, -⟩ := GuardianCursor.finishDir_cases hfinish
          rw [CursorEvent.findings_finished, hfindings, hwaits.nothing_due htimely, Finset.sort_empty]
          rfl

/-- At every point each number below the next one is in one class, once; a log is a duplicate just when
its number was accepted before or reported as a gap, and shows nothing else; and nothing is reported of
a guardian that writes one log for each number and none of them late by more than a directory. -/
theorem guardian_sequence_accounted {dir : Guardian.S3HourDirectory} {events : List CursorEvent}
    {cursor : GuardianCursor} (h : Run CursorStep (.new dir) events cursor) :
    (∀ seq < cursor.nextSeq, classes events cursor seq = 1) ∧
    (∀ before key seq finding after, events = before ++ .read key seq finding :: after →
      (finding = none ∨ finding = some (.seqDuplicate seq key)) ∧
        (finding = some (.seqDuplicate seq key) ↔
          0 < acceptedCount before seq ∨ 0 < gapReports before seq)) ∧
    (OneLogEach events → Timely events → ∀ e ∈ events, e.findings = []) := by
  refine ⟨?_, ?_, fun hone htimely => (no_finding_of_timely h hone htimely).2⟩
  · intro seq hseq
    rw [accounted_of_run h seq, if_pos hseq]
  · intro before key seq finding after hevents
    subst hevents
    obtain ⟨self, hbefore, hafter⟩ := h.split
    obtain ⟨next, hread, -⟩ : ∃ next, Run CursorStep self [.read key seq finding] next ∧
        Run CursorStep next after cursor := Run.split hafter
    cases hread.of_single with
    | record hseq hskip hrecord => exact (accounted_of_run hbefore).duplicate_iff hseq hskip hrecord

theorem firstDay_valid : Date.Valid ⟨1970, 1, 1⟩ := by decide

theorem firstYear_le : 1970 ≤ Guardian.MAX_YEAR := by decide

theorem midnight_lt : 0 < 24 := by decide

def firstHour : Guardian.S3HourDirectory :=
  ⟨Guardian.S3_DIR_WITHDRAW, ⟨1970, 1, 1⟩, 0, firstDay_valid, firstYear_le, midnight_lt⟩

def secondHour : Guardian.S3HourDirectory := { firstHour with hour := 1, hour_lt := by decide }

theorem firstHour_nextDir : firstHour.nextDir = .ok secondHour :=
  Guardian.S3HourDirectory.new_eq_ok.mpr ⟨by decide, rfl, by decide⟩

/-- The number 1 comes first, and 0 follows in the next directory. -/
theorem guardian_sequence_accounted_late :
    Run CursorStep (.new firstHour) [.read "b" 1 none, .finished [], .read "a" 0 none]
      ⟨secondHour, {"a"}, 2, ∅, ∅⟩ ∧
    classes [.read "b" 1 none, .finished [], .read "a" 0 none] ⟨secondHour, {"a"}, 2, ∅, ∅⟩ 0 = 1 := by
  have hskip : CursorStep (.new firstHour) (.read "b" 1 none) ⟨firstHour, {"b"}, 2, {0}, ∅⟩ :=
    .record (by decide) (by decide) rfl
  have hfinish : CursorStep ⟨firstHour, {"b"}, 2, {0}, ∅⟩ (.finished []) ⟨secondHour, ∅, 2, ∅, {0}⟩ := by
    refine .finishDir ?_
    rw [GuardianCursor.finishDir, firstHour_nextDir, Finset.sort_empty]
    rfl
  have hlate : CursorStep ⟨secondHour, ∅, 2, ∅, {0}⟩ (.read "a" 0 none) ⟨secondHour, {"a"}, 2, ∅, ∅⟩ :=
    .record (by decide) (by decide) rfl
  have hrun := Run.cons hskip (.cons hfinish (.single hlate))
  exact ⟨hrun, (guardian_sequence_accounted hrun).1 0 (by decide)⟩

end HashiBridge.Monitor
