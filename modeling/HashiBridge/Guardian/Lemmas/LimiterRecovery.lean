import HashiBridge.Guardian.LimiterRecovery
import HashiBridge.Guardian.Lemmas.LogLayout

/-!
# The search for the latest hour

The search goes down one part of the path at a time, from the highest number on, and stops at the
first directory with a log. The directory it finds has the highest numbers of all with a log.
-/

namespace HashiBridge.Guardian

open Lib

/-! ## Sorting -/

instance : Std.Total S3NumericDirectory.le := ⟨fun a b => le_total a.key b.key⟩

instance : IsTrans S3NumericDirectory S3NumericDirectory.le := ⟨fun _ _ _ h h' => le_trans h h'⟩

theorem S3NumericDirectory.fromPath_path {path : S3Path} {d : S3NumericDirectory}
    (h : fromPath path = .ok d) : d.path = path := by
  unfold fromPath at h
  cases path with
  | nil => cases h
  | cons root parts =>
      simp only [bind_eq_ok, pure_eq_ok] at h
      obtain ⟨-, -, -, -, rfl⟩ := h
      rfl

theorem S3NumericDirectory.paths_of_read {paths : List S3Path} {dirs : List S3NumericDirectory}
    (h : List.Forall₂ (fun p d => fromPath p = .ok d) paths dirs) :
    dirs.map path = paths ∧ ∀ d ∈ dirs, fromPath d.path = .ok d := by
  induction h with
  | nil => exact ⟨rfl, nofun⟩
  | cons hhead _ ih =>
      have hpath := fromPath_path hhead
      refine ⟨by rw [List.map_cons, hpath, ih.1], ?_⟩
      rintro d (_ | ⟨_, hd⟩)
      · rwa [hpath]
      · exact ih.2 d hd

theorem S3NumericDirectory.sortDesc_eq_ok {paths : List S3Path}
    (h : ∀ p ∈ paths, ∃ d, fromPath p = .ok d) :
    ∃ sorted, sortDesc paths = .ok sorted ∧ sorted.Perm paths ∧
      sorted.Pairwise fun p q => ∀ d e, fromPath p = .ok d → fromPath q = .ok e →
        e.key ≤ d.key := by
  have hread : ∀ p ∈ paths, ∃ d, fromPath p = .ok d ∧ fromPath p = .ok d :=
    fun p hp => (h p hp).imp fun d hd => ⟨hd, hd⟩
  obtain ⟨dirs, hdirs, hread⟩ := mapM_succeeds hread
  obtain ⟨hpaths, hback⟩ := paths_of_read hread
  have hperm : (dirs.insertionSort le).reverse.Perm dirs :=
    (List.reverse_perm _).trans (List.perm_insertionSort le dirs)
  refine ⟨(dirs.insertionSort le).reverse.map path, by simp [sortDesc, hdirs],
    hpaths ▸ hperm.map path, ?_⟩
  rw [List.pairwise_map, List.pairwise_reverse]
  refine (List.pairwise_insertionSort le dirs).imp_of_mem fun {a b} ha hb hle d e hd he => ?_
  rw [hback b ((List.perm_insertionSort le dirs).subset hb)] at hd
  rw [hback a ((List.perm_insertionSort le dirs).subset ha)] at he
  cases hd
  cases he
  exact hle

theorem S3NumericDirectory.components_le_of_key_le {d e : S3NumericDirectory}
    (hroot : d.root = e.root) (h : d.key ≤ e.key) : d.components ≤ e.components := by
  rcases Prod.Lex.toLex_le_toLex.mp h with hlt | ⟨-, hrest⟩
  · exact absurd hlt (by simp [hroot])
  · rcases Prod.Lex.toLex_le_toLex.mp hrest with hlt | ⟨heq, -⟩
    · exact hlt.le
    · exact heq.le

theorem S3NumericDirectory.fromPath_take {path : S3Path} {d : S3NumericDirectory} {k : Nat}
    (h : fromPath path = .ok d) :
    fromPath (path.take (k + 1)) = .ok ⟨d.root, d.components.take k, path.take (k + 1)⟩ := by
  cases path with
  | nil => cases h
  | cons root parts =>
      simp only [fromPath, bind_eq_ok, pure_eq_ok, require_eq_ok] at h
      obtain ⟨-, hroot, components, hcomponents, rfl⟩ := h
      have hread := mapM_eq_ok.mp hcomponents
      simp only [orAbort_eq_ok] at hread
      rw [List.take_succ_cons]
      simp only [fromPath, bind_eq_ok, pure_eq_ok, require_eq_ok]
      refine ⟨(), hroot, components.take k, mapM_eq_ok.mpr ?_, rfl⟩
      simp only [orAbort_eq_ok]
      exact List.forall₂_take k hread

/-! ## The first answer -/

theorem firstFound_cases {ε α β : Type} {f : α → Except ε (Option β)} {Q : α → Prop}
    {S : α → β → Prop} {as : List α}
    (h : ∀ a ∈ as, (¬ Q a ∧ f a = .ok none) ∨ ∃ b, Q a ∧ S a b ∧ f a = .ok (some b)) :
    ((∀ a ∈ as, ¬ Q a) ∧ firstFound f as = .ok none) ∨
    ∃ before a after b, as = before ++ a :: after ∧ (∀ a' ∈ before, ¬ Q a') ∧ Q a ∧ S a b ∧
      firstFound f as = .ok (some b) := by
  induction as with
  | nil => exact .inl ⟨nofun, rfl⟩
  | cons a as ih =>
      rcases h a List.mem_cons_self with ⟨hQ, hnone⟩ | ⟨b, hQ, hS, hsome⟩
      · have hstep : firstFound f (a :: as) = firstFound f as := by
          simp only [firstFound, hnone]
          rfl
        rw [hstep]
        rcases ih fun a ha => h a (List.mem_cons_of_mem _ ha) with
          ⟨hall, hfound⟩ | ⟨before, a', after, b, rfl, hbefore, hQ', hS, hfound⟩
        · exact .inl ⟨List.forall_mem_cons.mpr ⟨hQ, hall⟩, hfound⟩
        · exact .inr ⟨a :: before, a', after, b, rfl, List.forall_mem_cons.mpr ⟨hQ, hbefore⟩, hQ',
            hS, hfound⟩
      · refine .inr ⟨[], a, as, b, rfl, nofun, hQ, hS, ?_⟩
        simp only [firstFound, hsome]
        rfl

/-! ## The search -/

/-- The store holds directories of hours, and only an hour's own directory has logs. -/
structure WithdrawDirs (store : LogStore) : Prop where
  numeric : ∀ dir ∈ store.dirs, dir.1.length = 5 ∧
    ∃ d, S3NumericDirectory.fromPath dir.1 = .ok d ∧ d.root = S3_DIR_WITHDRAW
  hours : ∀ dir ∈ store.dirs, dir.2 ≠ [] →
    ∃ d : S3HourDirectory, d.root = S3_DIR_WITHDRAW ∧ dir.1 = d.path

namespace LogStore

variable {store : LogStore} {path : S3Path}

theorem mem_logsBelow {log : LogEntry} :
    log ∈ store.logsBelow path ↔ ∃ dir ∈ store.dirs, path <+: dir.1 ∧ log ∈ dir.2 := by
  simp only [logsBelow, List.mem_flatMap]
  constructor
  · rintro ⟨dir, hdir, hlog⟩
    split_ifs at hlog with hpath
    · exact ⟨dir, hdir, hpath, hlog⟩
    · cases hlog
  · rintro ⟨dir, hdir, hpath, hlog⟩
    exact ⟨dir, hdir, by rwa [if_pos hpath]⟩

theorem logsBelow_ne_nil :
    store.logsBelow path ≠ [] ↔ ∃ dir ∈ store.dirs, path <+: dir.1 ∧ dir.2 ≠ [] := by
  constructor
  · intro h
    obtain ⟨log, hlog⟩ := List.exists_mem_of_ne_nil _ h
    obtain ⟨dir, hdir, hpath, hmem⟩ := mem_logsBelow.mp hlog
    exact ⟨dir, hdir, hpath, List.ne_nil_of_mem hmem⟩
  · rintro ⟨dir, hdir, hpath, hne⟩
    obtain ⟨log, hlog⟩ := List.exists_mem_of_ne_nil _ hne
    exact List.ne_nil_of_mem (mem_logsBelow.mpr ⟨dir, hdir, hpath, hlog⟩)

theorem mem_listCommonPrefixes {sub : S3Path} :
    sub ∈ store.listCommonPrefixes path ↔ ∃ dir ∈ store.dirs,
      (path <+: dir.1 ∧ path.length < dir.1.length) ∧ dir.1.take (path.length + 1) = sub := by
  simp only [listCommonPrefixes, List.mem_dedup, List.mem_filterMap, Option.ite_none_right_eq_some,
    Option.some.injEq]

end LogStore

structure Logged (store : LogStore) (d : S3HourDirectory) : Prop where
  root : d.root = S3_DIR_WITHDRAW
  logs : store.logsBelow d.path ≠ []

variable {store : LogStore} {path : S3Path} {d e : S3HourDirectory}

theorem Logged.root_ne (h : Logged store d) : d.root ≠ [] := by
  rw [h.root]
  decide

theorem WithdrawDirs.exists_logged (h : WithdrawDirs store) (hlogs : store.logsBelow path ≠ []) :
    ∃ d, Logged store d ∧ path <+: d.path := by
  obtain ⟨dir, hdir, hpath, hne⟩ := LogStore.logsBelow_ne_nil.mp hlogs
  obtain ⟨d, hroot, hd⟩ := h.hours dir hdir hne
  refine ⟨d, ⟨hroot, LogStore.logsBelow_ne_nil.mpr ⟨dir, hdir, ?_, hne⟩⟩, hd ▸ hpath⟩
  rw [hd]

theorem Logged.mem_dirs (h : WithdrawDirs store) (hd : Logged store d) :
    ∃ dir ∈ store.dirs, dir.1 = d.path := by
  obtain ⟨dir, hdir, hpath, -⟩ := LogStore.logsBelow_ne_nil.mp hd.logs
  have hlength : d.path.length = dir.1.length := (h.numeric dir hdir).1.symm
  exact ⟨dir, hdir, (hpath.eq_of_length hlength).symm⟩

theorem Logged.logs_above (hd : Logged store d) (hpath : path <+: d.path) :
    store.logsBelow path ≠ [] := by
  obtain ⟨dir, hdir, hbelow, hne⟩ := LogStore.logsBelow_ne_nil.mp hd.logs
  exact LogStore.logsBelow_ne_nil.mpr ⟨dir, hdir, hpath.trans hbelow, hne⟩

structure Latest (store : LogStore) (path : S3Path) (d : S3HourDirectory) : Prop where
  logged : Logged store d
  below : path <+: d.path
  highest : ∀ e, Logged store e → path <+: e.path → e.components ≤ d.components

theorem Logged.mem_listed (h : WithdrawDirs store) (hd : Logged store d) (hpath : path <+: d.path)
    (hlength : path.length < 5) :
    d.path.take (path.length + 1) ∈ store.listCommonPrefixes path := by
  obtain ⟨dir, hdir, heq⟩ := hd.mem_dirs h
  exact LogStore.mem_listCommonPrefixes.mpr ⟨dir, hdir, heq ▸ ⟨hpath, hlength⟩, by rw [heq]⟩

theorem WithdrawDirs.listed (h : WithdrawDirs store) {sub : S3Path}
    (hsub : sub ∈ store.listCommonPrefixes path) :
    path <+: sub ∧ sub.length = path.length + 1 ∧
      ∃ d, S3NumericDirectory.fromPath sub = .ok d := by
  obtain ⟨dir, hdir, ⟨hpath, hlt⟩, rfl⟩ := LogStore.mem_listCommonPrefixes.mp hsub
  obtain ⟨-, d, hd, -⟩ := h.numeric dir hdir
  refine ⟨List.prefix_take_iff.mpr ⟨hpath, Nat.le_succ _⟩, ?_,
    ⟨_, S3NumericDirectory.fromPath_take hd⟩⟩
  rw [List.length_take]
  exact Nat.min_eq_left hlt

theorem components_le_of_next (hd : Logged store d) (he : Logged store e) {k : Nat}
    (hnext : e.path.take (k + 1) ≠ d.path.take (k + 1))
    (hkey : ∀ x y, S3NumericDirectory.fromPath (d.path.take (k + 1)) = .ok x →
      S3NumericDirectory.fromPath (e.path.take (k + 1)) = .ok y → y.key ≤ x.key) :
    e.components ≤ d.components := by
  have hroot : e.root = d.root := he.root.trans hd.root.symm
  have hle : e.components.take k ≤ d.components.take k :=
    S3NumericDirectory.components_le_of_key_le hroot
      (hkey _ _ (S3HourDirectory.numeric_take_path hd.root_ne k)
        (S3HourDirectory.numeric_take_path he.root_ne k))
  rcases hle.lt_or_eq with hlt | heq
  · exact (lt_of_take_lt hlt).le
  · exact absurd (S3HourDirectory.take_path_congr hroot heq) hnext

theorem findLatestBucket_cases (h : WithdrawDirs store) {depth : Nat} {path : S3Path}
    (hlength : path.length + depth = 5) (hdepth : depth < 5) :
    (store.logsBelow path = [] ∧ findLatestBucket store depth path = .ok none) ∨
    ∃ d, Latest store path d ∧ findLatestBucket store depth path = .ok (some d) := by
  induction depth generalizing path with
  | zero =>
      by_cases hlogs : store.logsBelow path = []
      · exact .inl ⟨hlogs, by simp [findLatestBucket, hlogs]⟩
      · obtain ⟨d, hd, hpath⟩ := h.exists_logged hlogs
        obtain rfl : path = d.path := hpath.eq_of_length hlength
        refine .inr ⟨d, ⟨hd, List.prefix_rfl, fun e he hpath => ?_⟩, ?_⟩
        · have heq : d.path = e.path := hpath.eq_of_length rfl
          rw [S3HourDirectory.path_inj hd.root_ne heq]
        · simp only [findLatestBucket, hlogs, if_false, S3HourDirectory.fromPath_path hd.root_ne]
          rfl
  | succ depth ih =>
      have hshort : path.length < 5 := by omega
      obtain ⟨sorted, hsorted, hperm, hdesc⟩ :=
        S3NumericDirectory.sortDesc_eq_ok fun sub hsub => (h.listed hsub).2.2
      have hlisted : ∀ {e}, Logged store e → path <+: e.path →
          e.path.take (path.length + 1) ∈ sorted :=
        fun he hbelow => hperm.mem_iff.mpr (he.mem_listed h hbelow hshort)
      have hstep : findLatestBucket store (depth + 1) path =
          firstFound (findLatestBucket store depth) sorted := by
        simp only [findLatestBucket, listSubdirsDesc, hsorted]
        rfl
      have hcases : ∀ sub ∈ sorted, (¬ store.logsBelow sub ≠ [] ∧
          findLatestBucket store depth sub = .ok none) ∨
          ∃ d, store.logsBelow sub ≠ [] ∧ Latest store sub d ∧
            findLatestBucket store depth sub = .ok (some d) := by
        intro sub hsub
        obtain ⟨-, hsublen, -⟩ := h.listed (hperm.mem_iff.mp hsub)
        rcases ih (show sub.length + depth = 5 by omega) (by omega) with
          ⟨hnone, hfind⟩ | ⟨d, hd, hfind⟩
        · exact .inl ⟨not_not.mpr hnone, hfind⟩
        · exact .inr ⟨d, hd.logged.logs_above hd.below, hd, hfind⟩
      rw [hstep]
      rcases firstFound_cases hcases with
        ⟨hnone, hfound⟩ | ⟨before, sub, after, d, rfl, hbefore, -, hd, hfound⟩
      · refine .inl ⟨?_, hfound⟩
        by_contra hlogs
        obtain ⟨d, hd, hpath⟩ := h.exists_logged hlogs
        exact hnone _ (hlisted hd hpath) (hd.logs_above (List.take_prefix _ _))
      · obtain ⟨hpath, hsublen, -⟩ := h.listed (hperm.mem_iff.mp (by simp : sub ∈ _))
        have hsub : sub = d.path.take (path.length + 1) := by
          rw [← hsublen]
          exact List.prefix_iff_eq_take.mp hd.below
        refine .inr ⟨d, ⟨hd.logged, hpath.trans hd.below, fun e he hbelow => ?_⟩, hfound⟩
        by_cases hsame : e.path.take (path.length + 1) = sub
        · exact hd.highest e he (hsame ▸ List.take_prefix _ _)
        · -- the directories before the one found have no logs, so the other one comes after it
          have hafter : e.path.take (path.length + 1) ∈ after := by
            rcases List.mem_append.mp (hlisted he hbelow) with hin | hin
            · exact absurd (he.logs_above (List.take_prefix _ _)) (hbefore _ hin)
            · exact (List.mem_cons.mp hin).resolve_left hsame
          obtain ⟨-, hrest, -⟩ := List.pairwise_append.mp hdesc
          have hkey := (List.pairwise_cons.mp hrest).1 _ hafter
          rw [hsub] at hkey hsame
          exact components_le_of_next hd.logged he hsame hkey

end HashiBridge.Guardian
