import HashiBridge.Guardian.Lemmas.LimiterRecovery

/-!
# Recovery finds the last withdrawal

Withdrawals are logged in the hour they are signed in, and the clock of a later one is less than an
hour behind.
-/

namespace HashiBridge.Guardian

open Lib

namespace LogStore

def Holds (store : LogStore) (log : WithdrawalLog) : Prop :=
  ∃ dir ∈ store.dirs, ∃ entry ∈ dir.2, entry.message = .withdrawal log

/-- Directories of hours, written as numbers, with withdrawal logs in the directory of their time.
A log with a higher sequence number is less than an hour older. -/
structure OfWithdrawals (store : LogStore) : Prop where
  numeric : ∀ dir ∈ store.dirs, dir.1.length = 5 ∧
    ∃ d, S3NumericDirectory.fromPath dir.1 = .ok d ∧ d.root = S3_DIR_WITHDRAW
  placed : ∀ dir ∈ store.dirs, ∀ entry ∈ dir.2, ∃ log d, entry.message = .withdrawal log ∧
    S3HourDirectory.withdraw (log.timestampMs / 1000) = .ok d ∧ dir.1 = d.path
  ordered : ∀ log log', store.Holds log → store.Holds log' → log.seq < log'.seq →
    log.timestampMs < log'.timestampMs + SECONDS_PER_HOUR * 1000

variable {store : LogStore} {log : WithdrawalLog} {d : S3HourDirectory}

theorem OfWithdrawals.withdrawDirs (h : store.OfWithdrawals) : WithdrawDirs store where
  numeric := h.numeric
  hours := by
    intro dir hdir hne
    obtain ⟨entry, hentry⟩ := List.exists_mem_of_ne_nil _ hne
    obtain ⟨log, d, -, hd, hpath⟩ := h.placed dir hdir entry hentry
    exact ⟨d, (S3HourDirectory.new_eq_ok.mp hd).2.1, hpath⟩

def hourOf (log : WithdrawalLog) : Nat := log.timestampMs / 1000 / SECONDS_PER_HOUR

theorem OfWithdrawals.exists_dir (h : store.OfWithdrawals) (hlog : store.Holds log) :
    ∃ d, Logged store d ∧ d.hourNumber = hourOf log ∧
      ∃ entry ∈ store.logsBelow d.path, entry.message = .withdrawal log := by
  obtain ⟨dir, hdir, entry, hentry, hmessage⟩ := hlog
  obtain ⟨log', d, hmessage', hd, hpath⟩ := h.placed dir hdir entry hentry
  rw [hmessage] at hmessage'
  cases hmessage'
  obtain ⟨-, hroot, hhour⟩ := S3HourDirectory.new_eq_ok.mp hd
  have hmem : entry ∈ store.logsBelow d.path :=
    mem_logsBelow.mpr ⟨dir, hdir, by rw [hpath], hentry⟩
  exact ⟨d, ⟨hroot, List.ne_nil_of_mem hmem⟩, hhour, entry, hmem, hmessage⟩

theorem OfWithdrawals.of_mem (h : store.OfWithdrawals) (hroot : d.root = S3_DIR_WITHDRAW)
    {entry : LogEntry} (hentry : entry ∈ store.logsBelow d.path) :
    ∃ log, entry.message = .withdrawal log ∧ store.Holds log ∧ hourOf log = d.hourNumber := by
  obtain ⟨dir, hdir, hpath, hmem⟩ := mem_logsBelow.mp hentry
  obtain ⟨log, e, hmessage, he, hdirpath⟩ := h.placed dir hdir entry hmem
  obtain ⟨-, heroot, hhour⟩ := S3HourDirectory.new_eq_ok.mp he
  have hsame : d.path = e.path := by
    rw [← hdirpath]
    exact hpath.eq_of_length (h.numeric dir hdir).1.symm
  obtain rfl := S3HourDirectory.path_inj (by rw [hroot]; decide) hsame
  exact ⟨log, hmessage, ⟨dir, hdir, entry, hmem, hmessage⟩, hhour.symm⟩

end LogStore

/-! ## The highest sequence number -/

theorem maxByNextSeq_spec (states : List LimiterState) :
    (states = [] ∧ maxByNextSeq states = none) ∨
    ∃ s ∈ states, maxByNextSeq states = some s ∧ ∀ s' ∈ states, s'.nextSeq ≤ s.nextSeq := by
  induction states using List.reverseRecOn with
  | nil => exact .inl ⟨rfl, rfl⟩
  | append_singleton states s ih =>
      refine .inr ?_
      simp only [maxByNextSeq, List.foldl_append, List.foldl_cons, List.foldl_nil] at ih ⊢
      rcases ih with ⟨rfl, hnone⟩ | ⟨best, hbest, hsome, hmax⟩
      · exact ⟨s, by simp, rfl, by simp⟩
      · rw [hsome]
        by_cases hle : best.nextSeq ≤ s.nextSeq
        · refine ⟨s, by simp, by simp [hle], List.forall_mem_append.mpr ⟨fun s' hs' => ?_, by simp⟩⟩
          exact UInt64.le_trans (hmax s' hs') hle
        · refine ⟨best, List.mem_append_left _ hbest, by simp [hle], List.forall_mem_append.mpr
            ⟨hmax, List.forall_mem_singleton.mpr ((UInt64.le_total _ _).resolve_left hle)⟩⟩

theorem bucketMaxPostState_eq {store : LogStore} (h : store.OfWithdrawals) {d : S3HourDirectory}
    (hroot : d.root = S3_DIR_WITHDRAW) :
    ∃ states, bucketMaxPostState (store.logsBelow d.path) = .ok (maxByNextSeq states) ∧
      ∀ s, s ∈ states ↔ ∃ log, store.Holds log ∧ LogStore.hourOf log = d.hourNumber ∧
        s = log.postState := by
  have hextract : ∀ entry ∈ store.logsBelow d.path, ∃ s, extractPostState entry = .ok s ∧
      ∃ log, entry.message = .withdrawal log ∧ s = log.postState := by
    intro entry hentry
    obtain ⟨log, hmessage, -⟩ := h.of_mem hroot hentry
    exact ⟨log.postState, by simp only [extractPostState, hmessage], log, hmessage, rfl⟩
  obtain ⟨states, hok, hstates⟩ := mapM_succeeds hextract
  refine ⟨states, by simp only [bucketMaxPostState, hok]; rfl, fun s => ⟨fun hs => ?_, ?_⟩⟩
  · obtain ⟨entry, hentry, log, hmessage, rfl⟩ := exists_of_forall₂ hstates.flip hs
    obtain ⟨log', hmessage', hholds, hhour⟩ := h.of_mem hroot hentry
    rw [hmessage] at hmessage'
    cases hmessage'
    exact ⟨log, hholds, hhour, rfl⟩
  · rintro ⟨log, hholds, hhour, rfl⟩
    obtain ⟨e, he, hehour, entry, hentry, hmessage⟩ := h.exists_dir hholds
    obtain rfl : e = d :=
      S3HourDirectory.ext_hourNumber (he.root.trans hroot.symm) (hehour.trans hhour)
    obtain ⟨s, hs, log', hmessage', rfl⟩ := exists_of_forall₂ hstates hentry
    rw [hmessage] at hmessage'
    cases hmessage'
    exact hs

theorem maxByNextSeq_of_two {hit : List LimiterState} (h : hit ≠ []) (peek : List LimiterState) :
    ∃ s, (s ∈ hit ∨ s ∈ peek) ∧
      maxByNextSeq ([maxByNextSeq hit, maxByNextSeq peek].filterMap id) = some s ∧
      ∀ s', s' ∈ hit ∨ s' ∈ peek → s'.nextSeq ≤ s.nextSeq := by
  rcases maxByNextSeq_spec hit with ⟨hnil, -⟩ | ⟨a, ha, hhit, hmaxa⟩
  · exact absurd hnil h
  rcases maxByNextSeq_spec peek with ⟨rfl, hpeek⟩ | ⟨b, hb, hpeek, hmaxb⟩
  · refine ⟨a, .inl ha, by rw [hhit, hpeek]; rfl, ?_⟩
    rintro s' (hs' | hs')
    · exact hmaxa s' hs'
    · cases hs'
  · rw [hhit, hpeek]
    have hlist : [some a, some b].filterMap id = [a, b] := rfl
    rw [hlist]
    rcases maxByNextSeq_spec [a, b] with ⟨hnil, -⟩ | ⟨s, hs, hsome, hmax⟩
    · cases hnil
    · have hall : ∀ s', s' ∈ hit ∨ s' ∈ peek → s'.nextSeq ≤ s.nextSeq := by
        rintro s' (hs' | hs')
        · exact UInt64.le_trans (hmaxa s' hs') (hmax a (by simp))
        · exact UInt64.le_trans (hmaxb s' hs') (hmax b (by simp))
      refine ⟨s, ?_, hsome, hall⟩
      simp only [List.mem_cons, List.not_mem_nil, or_false] at hs
      rcases hs with rfl | rfl
      · exact .inl ha
      · exact .inr hb

/-! ## Recovery -/

theorem LogStore.OfWithdrawals.recent {store : LogStore} (h : store.OfWithdrawals)
    {last log : WithdrawalLog} (hlast : store.Holds last) (hlog : store.Holds log)
    (hseq : last.seq < log.seq) (hhour : hourOf log ≤ hourOf last) :
    hourOf log = hourOf last ∨ hourOf log = hourOf last - 1 := by
  have htime := h.ordered last log hlast hlog hseq
  simp only [hourOf, SECONDS_PER_HOUR] at *
  omega

structure LogStore.IsLast (store : LogStore) (last : WithdrawalLog) : Prop where
  holds : store.Holds last
  highest : ∀ log, store.Holds log → log.seq ≤ last.seq

theorem seq_le_of_nextSeq_le {log log' : WithdrawalLog}
    (h : log.postState.nextSeq ≤ log'.postState.nextSeq) : log.seq ≤ log'.seq := by
  have hle := UInt64.le_iff_toNat_le.mp h
  rw [log.seq_eq, log'.seq_eq] at hle
  omega

theorem recovered_of_latest {store : LogStore} (h : store.OfWithdrawals) {cursor : S3HourDirectory}
    (hcursor : Latest store [S3_DIR_WITHDRAW] cursor) {hit peek : List LimiterState}
    (hhit : ∀ s, s ∈ hit ↔ ∃ log, store.Holds log ∧ LogStore.hourOf log = cursor.hourNumber ∧
      s = log.postState)
    (hpeek : ∀ s, s ∈ peek ↔ ∃ log, store.Holds log ∧
      LogStore.hourOf log = cursor.hourNumber - 1 ∧ s = log.postState) :
    ∃ last, store.IsLast last ∧
      maxByNextSeq ([maxByNextSeq hit, maxByNextSeq peek].filterMap id) = some last.postState := by
  obtain ⟨entry, hentry⟩ := List.exists_mem_of_ne_nil _ hcursor.logged.logs
  obtain ⟨newest, -, hnewest, hnewestHour⟩ := h.of_mem hcursor.logged.root hentry
  have hmem : newest.postState ∈ hit := (hhit _).mpr ⟨newest, hnewest, hnewestHour, rfl⟩
  obtain ⟨s, hs, hsome, hmax⟩ := maxByNextSeq_of_two (List.ne_nil_of_mem hmem) peek
  have hlog : ∃ last, store.Holds last ∧ s = last.postState := by
    rcases hs with hs | hs
    · obtain ⟨last, hlast, -, rfl⟩ := (hhit s).mp hs
      exact ⟨last, hlast, rfl⟩
    · obtain ⟨last, hlast, -, rfl⟩ := (hpeek s).mp hs
      exact ⟨last, hlast, rfl⟩
  obtain ⟨last, hlast, rfl⟩ := hlog
  refine ⟨last, ⟨hlast, fun log hlog => ?_⟩, hsome⟩
  have hnewestLe : newest.seq ≤ last.seq := seq_le_of_nextSeq_le (hmax _ (.inl hmem))
  rcases Nat.lt_or_ge newest.seq log.seq with hseq | hle
  · -- a log past the newest hour's is in one of the two hours
    obtain ⟨d, hd, hdhour, -⟩ := h.exists_dir hlog
    have hroot : [S3_DIR_WITHDRAW] <+: d.path := by
      rw [← hd.root]
      exact List.prefix_append [d.root] _
    have hhour : LogStore.hourOf log ≤ LogStore.hourOf newest := by
      rw [← hdhour, hnewestHour]
      exact S3HourDirectory.hourNumber_le_of_components_le (hcursor.highest d hd hroot)
    apply seq_le_of_nextSeq_le
    apply hmax
    rcases h.recent hnewest hlog hseq hhour with hsame | hbefore
    · exact .inl ((hhit _).mpr ⟨log, hlog, hsame.trans hnewestHour, rfl⟩)
    · exact .inr ((hpeek _).mpr ⟨log, hlog, hnewestHour ▸ hbefore, rfl⟩)
  · exact hle.trans hnewestLe

theorem recoverLimiterState_cases {store : LogStore} (h : store.OfWithdrawals)
    (config : LimiterConfig) :
    ((∀ log, ¬ store.Holds log) ∧
      recoverLimiterState store config = .ok (LimiterState.genesis config)) ∨
    ∃ last, store.IsLast last ∧
      recoverLimiterState store config = .ok (last.postState.cappedTo config) := by
  have hfind : (store.logsBelow [S3_DIR_WITHDRAW] = [] ∧ findLatestWithdrawalBucket store = .ok none) ∨
      ∃ d, Latest store [S3_DIR_WITHDRAW] d ∧ findLatestWithdrawalBucket store = .ok (some d) :=
    findLatestBucket_cases h.withdrawDirs rfl (by decide)
  rcases hfind with ⟨hempty, hfind⟩ | ⟨cursor, hcursor, hfind⟩
  · refine .inl ⟨fun log hlog => ?_, by simp only [recoverLimiterState, hfind]; rfl⟩
    obtain ⟨d, hd, -⟩ := h.exists_dir hlog
    have hroot : [S3_DIR_WITHDRAW] <+: d.path := by
      rw [← hd.root]
      exact List.prefix_append [d.root] _
    exact hd.logs_above hroot hempty
  · obtain ⟨previous, hprevious, hroot, hhour⟩ := cursor.exists_prevDir
    obtain ⟨hit, hhitOk, hhit⟩ := bucketMaxPostState_eq h hcursor.logged.root
    obtain ⟨peek, hpeekOk, hpeek⟩ := bucketMaxPostState_eq h (hroot.trans hcursor.logged.root)
    rw [hhour] at hpeek
    obtain ⟨last, hlast, hsome⟩ := recovered_of_latest h hcursor hhit hpeek
    refine .inr ⟨last, hlast, ?_⟩
    simp only [recoverLimiterState, bind_eq_ok]
    refine ⟨_, hfind, ?_⟩
    simp only [bind_eq_ok, mapError_eq_ok, orAbort_eq_ok, pure_eq_ok]
    exact ⟨_, hhitOk, previous, hprevious, _, hpeekOk, _, hsome, rfl⟩

/-- Recovery returns the state that the withdrawal with the highest sequence number left, capped to
the configuration, and the genesis state exactly where there is no withdrawal. -/
theorem recovery_returns_last {store : LogStore} (h : store.OfWithdrawals)
    (config : LimiterConfig) :
    ((∃ log, store.Holds log) → ∃ last, store.Holds last ∧
      (∀ log, store.Holds log → log.seq ≤ last.seq) ∧
      recoverLimiterState store config = .ok (last.postState.cappedTo config)) ∧
    (recoverLimiterState store config = .ok (LimiterState.genesis config) ↔
      ∀ log, ¬ store.Holds log) := by
  rcases recoverLimiterState_cases h config with ⟨hnone, hgenesis⟩ | ⟨last, hlast, hstate⟩
  · exact ⟨fun ⟨log, hlog⟩ => absurd hlog (hnone log), fun _ => hnone, fun _ => hgenesis⟩
  · refine ⟨fun _ => ⟨last, hlast.holds, hlast.highest, hstate⟩, fun hgenesis => ?_,
      fun hnone => absurd hlast.holds (hnone last)⟩
    -- a state after a withdrawal expects a sequence number past zero
    rw [hstate] at hgenesis
    have hseq := congrArg LimiterState.nextSeq (Except.ok.inj hgenesis)
    have hpos := last.seq_eq
    rw [show last.postState.nextSeq = 0 from hseq] at hpos
    cases hpos

namespace TwoHours

/-- The first hour of February 1970, the hour before it, and a later one without logs. -/
def february : S3HourDirectory := ⟨S3_DIR_WITHDRAW, ⟨1970, 2, 1⟩, 0, by decide, by decide, by decide⟩

def january : S3HourDirectory := ⟨S3_DIR_WITHDRAW, ⟨1970, 1, 31⟩, 23, by decide, by decide, by decide⟩

def later : S3HourDirectory := ⟨S3_DIR_WITHDRAW, ⟨1970, 2, 1⟩, 5, by decide, by decide, by decide⟩

/-- The later withdrawal was signed by a clock twenty seconds behind. -/
def sixth : WithdrawalLog := ⟨2678410000, 6, ⟨50, 2678410, 7⟩, by decide⟩

def seventh : WithdrawalLog := ⟨2678390000, 7, ⟨40, 2678410, 8⟩, by decide⟩

def store : LogStore :=
  ⟨[(january.path, [⟨"a", .withdrawal seventh⟩]), (later.path, []),
    (february.path, [⟨"b", .withdrawal sixth⟩])]⟩

theorem holds_iff {log : WithdrawalLog} : store.Holds log ↔ log = sixth ∨ log = seventh := by
  simp only [LogStore.Holds, store, List.mem_cons, List.not_mem_nil, or_false, exists_eq_or_imp,
    exists_eq_left, LogMessage.withdrawal.injEq, false_and, exists_false, false_or]
  rw [or_comm, @eq_comm _ sixth, @eq_comm _ seventh]

theorem numeric {d : S3HourDirectory} (h : d.root = S3_DIR_WITHDRAW) : d.path.length = 5 ∧
    ∃ n, S3NumericDirectory.fromPath d.path = .ok n ∧ n.root = S3_DIR_WITHDRAW :=
  ⟨rfl, _, d.numeric_take_path (by rw [h]; decide) 4, h⟩

theorem ofWithdrawals : store.OfWithdrawals := by
  refine ⟨?_, ?_, ?_⟩
  · rintro dir hdir
    simp only [store, List.mem_cons, List.not_mem_nil, or_false] at hdir
    rcases hdir with rfl | rfl | rfl <;> exact numeric rfl
  · intro dir hdir entry hentry
    simp only [store, List.mem_cons, List.not_mem_nil, or_false] at hdir
    rcases hdir with rfl | rfl | rfl
    · obtain rfl := List.mem_singleton.mp hentry
      exact ⟨seventh, january, rfl,
        S3HourDirectory.new_eq_ok.mpr ⟨by decide, rfl, by decide⟩, rfl⟩
    · cases hentry
    · obtain rfl := List.mem_singleton.mp hentry
      exact ⟨sixth, february, rfl,
        S3HourDirectory.new_eq_ok.mpr ⟨by decide, rfl, by decide⟩, rfl⟩
  · intro log log' hlog hlog' _
    rcases holds_iff.mp hlog with rfl | rfl <;> rcases holds_iff.mp hlog' with rfl | rfl <;> decide

end TwoHours

open TwoHours in
theorem recovery_returns_last_of_skew :
    recoverLimiterState store ⟨1, 30⟩ = .ok ⟨30, 2678410, 8⟩ := by
  obtain ⟨hlast, -⟩ := recovery_returns_last ofWithdrawals ⟨1, 30⟩
  obtain ⟨last, hholds, hmax, hok⟩ := hlast ⟨sixth, holds_iff.mpr (.inl rfl)⟩
  rcases holds_iff.mp hholds with rfl | rfl
  · exact absurd (hmax seventh (holds_iff.mpr (.inr rfl))) (by decide)
  · exact hok

end HashiBridge.Guardian
