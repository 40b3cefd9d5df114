import HashiBridge.Mpc.Lemmas.Finalize

/-!
# The gates skip no attempt that would succeed

Aggregation is taken to succeed exactly on enough partials with few enough wrong ones.
-/

namespace HashiBridge.Mpc

open Lib

variable {S G Sig : Type} {t : Nat} {wrong : Eval S → Bool} {flagged flagged' : Finset Nat}
  {st st' : InputSigningState S G}

/-- At least `t` partials, with few enough wrong ones to correct them. -/
def FewWrong (t : Nat) (wrong : Eval S → Bool) (sigs : List (Eval S)) : Prop :=
  t ≤ sigs.length ∧ sigs.countP wrong ≤ (sigs.length - t) / 2

instance (sigs : List (Eval S)) : Decidable (FewWrong t wrong sigs) :=
  inferInstanceAs (Decidable (_ ∧ _))

def Corrects (aggregate : List (Eval S) → Except FastCryptoError (Sig × Blame)) (t : Nat)
    (wrong : Eval S → Bool) : Prop :=
  ∀ sigs, (FewWrong t wrong sigs → ∃ sig blame, aggregate sigs = .ok (sig, blame)) ∧
    (¬ FewWrong t wrong sigs → aggregate sigs = .error .invalidSignature)

/-! ## Histories of one input -/

structure InputWorld (S G : Type) where
  st : InputSigningState S G
  flagged : Finset Nat

inductive InputEvent (S : Type)
  | receive (evals : List (Eval S))
  | flag (indices : Finset Nat)
  | attempt (peersExhausted : Bool)

/-- Partials arrive, indices are flagged, and calls that come to nothing leave the input pending. A
call that ends with a signature or an error removes it. -/
inductive InputStep (aggregation : Aggregation S G Sig) (t : Nat) (verifyingKey : G) :
    InputWorld S G → InputEvent S → InputWorld S G → Prop
  | receive {w evals} : InputStep aggregation t verifyingKey w (.receive evals)
      { w with st := { w.st with partials := w.st.partials ++ evals } }
  | flag {w indices} : InputStep aggregation t verifyingKey w (.flag indices)
      { w with flagged := w.flagged ∪ indices }
  | attempt {w peersExhausted st'}
      (call : tryFinalizeSignature aggregation t verifyingKey peersExhausted w.flagged w.st =
        (if peersExhausted then .exhausted else .needMore, st')) :
      InputStep aggregation t verifyingKey w (.attempt peersExhausted) { w with st := st' }

/-! ## Failed attempts -/

/-- An earlier list of unflagged partials: while none of its indices is flagged, the unflagged
partials start with it. -/
def Tried (st : InputSigningState S G) (flagged : Finset Nat) (tried : List (Eval S)) : Prop :=
  (∀ e ∈ tried, e.index ∉ flagged) → tried <+: st.unflagged flagged

theorem Tried.receive {tried : List (Eval S)} (h : Tried st flagged tried) (evals : List (Eval S)) :
    Tried { st with partials := st.partials ++ evals } flagged tried := by
  intro hclear
  have hunflagged : InputSigningState.unflagged { st with partials := st.partials ++ evals } flagged =
      st.unflagged flagged ++ evals.filter fun e => e.index ∉ flagged := List.filter_append ..
  rw [hunflagged]
  exact (h hclear).trans (List.prefix_append _ _)

theorem Tried.flag {tried : List (Eval S)} (h : Tried st flagged tried) (indices : Finset Nat) :
    Tried st (flagged ∪ indices) tried := by
  intro hclear
  have hbefore : ∀ e ∈ tried, e.index ∉ flagged :=
    fun e he hmem => hclear e he (Finset.mem_union_left _ hmem)
  obtain ⟨rest, hrest⟩ := h hbefore
  have hfilter : st.unflagged (flagged ∪ indices) =
      (st.unflagged flagged).filter fun e => e.index ∉ flagged ∪ indices := by
    simp only [InputSigningState.unflagged, List.filter_filter]
    refine List.filter_congr fun e _ => ?_
    simp only [Finset.mem_union, not_or, Bool.decide_and]
    rw [Bool.eq_iff_iff]
    simp only [Bool.and_eq_true, decide_eq_true_eq]
    exact ⟨fun h => ⟨h, h.1⟩, fun h => h.1⟩
  rw [hfilter, ← hrest, List.filter_append, List.filter_eq_self.mpr fun e he =>
    decide_eq_true (hclear e he)]
  exact List.prefix_append _ _

/-- What the fields of an input say about attempts that failed. -/
structure Gates (t : Nat) (wrong : Eval S → Bool) (st : InputSigningState S G)
    (flagged : Finset Nat) : Prop where
  clean : st.cleanAttempted = true →
    t ≤ st.partials.length ∧ 0 < (st.partials.take t).countP wrong
  unflaggedPrefix : ∀ key, st.unflaggedPrefixAttempted = some key →
    ∃ tried, Tried st flagged tried ∧ key = tried.map Eval.index ∧ 0 < tried.countP wrong
  full : st.requiredFull = 0 ∨ ∃ n, t ≤ n ∧ n ≤ st.partials.length ∧
    st.requiredFull = nextRsAttemptAt t n ∧ (n - t) / 2 < (st.partials.take n).countP wrong
  idle : st.erasedAttempted = none → st.requiredErased = 0
  erased : ∀ key, st.erasedAttempted = some key →
    ∃ tried, Tried st flagged tried ∧ key = tried.map Eval.index ∧ t ≤ tried.length ∧
      st.requiredErased = nextRsAttemptAt t tried.length ∧
      (tried.length - t) / 2 < tried.countP wrong

namespace Gates

theorem new (st : InputSigningState S G) : Gates t wrong st.forget flagged where
  clean h := by cases h
  unflaggedPrefix key h := by cases h
  full := .inl rfl
  idle _ := rfl
  erased key h := by cases h

theorem receive (h : Gates t wrong st flagged) (evals : List (Eval S)) :
    Gates t wrong { st with partials := st.partials ++ evals } flagged where
  clean hattempted := by
    obtain ⟨hge, hwrong⟩ := h.clean hattempted
    refine ⟨by rw [List.length_append]; omega, ?_⟩
    rwa [List.take_append_of_le_length hge]
  unflaggedPrefix key hkey := by
    obtain ⟨tried, htried, hrest⟩ := h.unflaggedPrefix key hkey
    exact ⟨tried, htried.receive evals, hrest⟩
  full := by
    refine h.full.imp_right ?_
    rintro ⟨n, hge, hle, hrequired, hwrong⟩
    refine ⟨n, hge, by rw [List.length_append]; omega, hrequired, ?_⟩
    rwa [List.take_append_of_le_length hle]
  idle := h.idle
  erased key hkey := by
    obtain ⟨tried, htried, hrest⟩ := h.erased key hkey
    exact ⟨tried, htried.receive evals, hrest⟩

theorem flag (h : Gates t wrong st flagged) (indices : Finset Nat) :
    Gates t wrong st (flagged ∪ indices) where
  clean := h.clean
  unflaggedPrefix key hkey := by
    obtain ⟨tried, htried, hrest⟩ := h.unflaggedPrefix key hkey
    exact ⟨tried, htried.flag indices, hrest⟩
  full := h.full
  idle := h.idle
  erased key hkey := by
    obtain ⟨tried, htried, hrest⟩ := h.erased key hkey
    exact ⟨tried, htried.flag indices, hrest⟩

end Gates

section Correction

variable {aggregate : List (Eval S) → Except FastCryptoError (Sig × Blame)}

theorem Corrects.concludes_none (h : Corrects aggregate t wrong) {sigs : List (Eval S)} :
    concludes (aggregate sigs) = none ↔ ¬ FewWrong t wrong sigs := by
  by_cases hfew : FewWrong t wrong sigs
  · obtain ⟨sig, blame, hok⟩ := (h sigs).1 hfew
    simp [hok, concludes, hfew]
  · simp [(h sigs).2 hfew, concludes, hfew]

theorem Corrects.concludes_some (h : Corrects aggregate t wrong) {sigs : List (Eval S)}
    {outcome : FinalizeOutcome Sig} (hout : concludes (aggregate sigs) = some outcome) :
    ∃ sig blame, outcome = .done sig blame := by
  by_cases hfew : FewWrong t wrong sigs
  · obtain ⟨sig, blame, hok⟩ := (h sigs).1 hfew
    rw [hok] at hout
    cases hout
    exact ⟨sig, blame, rfl⟩
  · rw [(h sigs).2 hfew] at hout
    cases hout

theorem not_fewWrong {sigs : List (Eval S)} (hlength : t ≤ sigs.length) :
    ¬ FewWrong t wrong sigs ↔ (sigs.length - t) / 2 < sigs.countP wrong := by
  rw [FewWrong, not_and, not_le]
  exact ⟨fun h => h hlength, fun h _ => h⟩

theorem Tried.countP_le {tried : List (Eval S)} (h : Tried st flagged tried)
    (hclear : ∀ e ∈ tried, e.index ∉ flagged) :
    tried.countP wrong ≤ (st.unflagged flagged).countP wrong :=
  (h hclear).sublist.countP_le

theorem InputSigningState.notMem_of_mem_unflagged {e : Eval S} (h : e ∈ st.unflagged flagged) :
    e.index ∉ flagged :=
  of_decide_eq_true (List.mem_filter.mp h).2

theorem notMem_of_index_subset {tried some : List (Eval S)} (hsome : some ⊆ st.unflagged flagged)
    (h : tried.map Eval.index ⊆ some.map Eval.index) : ∀ e ∈ tried, e.index ∉ flagged := by
  intro e he
  obtain ⟨e', he', hidx⟩ := List.mem_map.mp (h (List.mem_map_of_mem he))
  rw [← hidx]
  exact InputSigningState.notMem_of_mem_unflagged (hsome he')

theorem take_unflagged_eq (hge : t ≤ st.partials.length)
    (hclear : ∀ e ∈ st.partials.take t, e.index ∉ flagged) :
    (st.unflagged flagged).take t = st.partials.take t := by
  have hself : (st.partials.take t).filter (fun e => decide (e.index ∉ flagged)) =
      st.partials.take t := List.filter_eq_self.mpr fun e he => decide_eq_true (hclear e he)
  have happend : st.unflagged flagged = st.partials.take t ++
      (st.partials.drop t).filter fun e => decide (e.index ∉ flagged) := by
    conv_lhs => rw [InputSigningState.unflagged, ← List.take_append_drop t st.partials]
    rw [List.filter_append, hself]
  have hlength : (st.partials.take t).length = t := List.length_take_of_le hge
  rw [happend, List.take_append_of_le_length (by omega), List.take_of_length_le (by omega)]

variable (h : Gates t wrong st flagged)

include h

/-- The count that the erased attempt waits for is reached: while the last one is a prefix of this
one, its wrong partials are here too. -/
theorem Gates.erasedGate_le (hfew : FewWrong t wrong (st.unflagged flagged)) :
    st.erasedGate ((st.unflagged flagged).map Eval.index) ≤ (st.unflagged flagged).length := by
  obtain ⟨hge, hfew⟩ := hfew
  unfold InputSigningState.erasedGate
  cases hprev : st.erasedAttempted with
  | none =>
      simp only [h.idle hprev]
      omega
  | some prev =>
      obtain ⟨tried, htried, rfl, hlong, hrequired, hwrong⟩ := h.erased prev hprev
      simp only
      split_ifs with hgone
      · omega
      · push Not at hgone
        have hclear := notMem_of_index_subset (List.Subset.refl _) hgone
        have hle : tried.countP wrong ≤ (st.unflagged flagged).countP wrong :=
          htried.countP_le hclear
        rw [hrequired, nextRsAttemptAt]
        omega

variable (hcorrects : Corrects aggregate t wrong) (hun : Unsuccessful aggregate t flagged st)

include hcorrects hun

theorem Gates.after
    : Gates t wrong (st.after t flagged) flagged := by
  have hself : ∀ tried, tried <+: st.unflagged flagged → Tried (st.after t flagged) flagged tried :=
    fun tried htried _ => htried
  constructor
  case clean =>
    intro hattempted
    cases hclean : st.cleanAttempted with
    | true => exact h.clean hclean
    | false =>
        have hge : t ≤ st.partials.length := by
          simpa [InputSigningState.after, hclean] using hattempted
        have hfail := hcorrects.concludes_none.mp (hun.clean hge hclean)
        have hlength : (st.partials.take t).length = t := List.length_take_of_le hge
        rw [not_fewWrong (by omega), hlength] at hfail
        exact ⟨hge, (Nat.zero_le _).trans_lt hfail⟩
  case unflaggedPrefix =>
    intro key hkey
    cases hdue : st.unflaggedPrefixKey t flagged with
    | none =>
        rw [InputSigningState.after, hdue, Option.none_or] at hkey
        exact h.unflaggedPrefix key hkey
    | some due =>
        rw [InputSigningState.after, hdue, Option.some_or, Option.some.injEq] at hkey
        obtain ⟨-, hge, rfl⟩ := InputSigningState.unflaggedPrefixKey_eq_some hdue
        have hfail := hcorrects.concludes_none.mp (hun.unflaggedPrefix _ hdue)
        have hlength : ((st.unflagged flagged).take t).length = t := List.length_take_of_le hge
        rw [not_fewWrong (by omega), hlength] at hfail
        exact ⟨_, hself _ (List.take_prefix _ _), hkey.symm, (Nat.zero_le _).trans_lt hfail⟩
  case full =>
    cases hdue : st.recoveryAttemptable t with
    | false =>
        have hrequired : (st.after t flagged).requiredFull = st.requiredFull := by
          rw [InputSigningState.after, hdue]
          rfl
        rw [hrequired]
        exact h.full
    | true =>
        have hrequired : (st.after t flagged).requiredFull =
            nextRsAttemptAt t st.partials.length := by
          rw [InputSigningState.after, hdue]
          rfl
        have hfail := hcorrects.concludes_none.mp (hun.full hdue)
        rw [InputSigningState.recoveryAttemptable, decide_eq_true_eq, max_le_iff] at hdue
        rw [not_fewWrong (by omega)] at hfail
        refine .inr ⟨st.partials.length, by omega, le_refl _, hrequired, ?_⟩
        have hall : (st.after t flagged).partials.take st.partials.length = st.partials :=
          List.take_length
        rwa [hall]
  case idle =>
    intro hnone
    cases hdue : st.erasedKey t flagged with
    | none =>
        rw [InputSigningState.after, hdue, Option.none_or] at hnone
        rw [InputSigningState.after, hdue]
        exact h.idle hnone
    | some due =>
        rw [InputSigningState.after, hdue, Option.some_or] at hnone
        cases hnone
  case erased =>
    intro key hkey
    cases hdue : st.erasedKey t flagged with
    | none =>
        rw [InputSigningState.after, hdue, Option.none_or] at hkey
        have hrequired : (st.after t flagged).requiredErased = st.requiredErased := by
          rw [InputSigningState.after, hdue]
          rfl
        rw [hrequired]
        exact h.erased key hkey
    | some due =>
        rw [InputSigningState.after, hdue, Option.some_or, Option.some.injEq] at hkey
        have hrequired : (st.after t flagged).requiredErased =
            nextRsAttemptAt t (st.unflagged flagged).length := by
          rw [InputSigningState.after, hdue]
          rfl
        obtain ⟨hge, -, rfl⟩ := InputSigningState.erasedKey_eq_some hdue
        have hfail := hcorrects.concludes_none.mp (hun.erased _ hdue)
        rw [not_fewWrong (by omega)] at hfail
        exact ⟨_, hself _ (List.prefix_refl _), hkey.symm, by omega, hrequired, hfail⟩

/-! ## Completeness -/

theorem Gates.clean_wrong (hge : t ≤ st.partials.length) :
    0 < (st.partials.take t).countP wrong := by
  have hlength : (st.partials.take t).length = t := List.length_take_of_le hge
  cases hattempted : st.cleanAttempted with
  | true => exact (h.clean hattempted).2
  | false =>
      have hfail := hcorrects.concludes_none.mp (hun.clean hge hattempted)
      rw [not_fewWrong (by omega)] at hfail
      exact (Nat.zero_le _).trans_lt hfail

theorem Gates.partials_fail
    : ¬ FewWrong t wrong st.partials := by
  rintro ⟨hge, hfew⟩
  have hpre : (st.partials.take t).countP wrong ≤ st.partials.countP wrong :=
    (List.take_sublist _ _).countP_le
  have hclean := h.clean_wrong hcorrects hun hge
  have hrequired : st.requiredFull ≤ st.partials.length := by
    rcases h.full with hzero | ⟨n, hn, hle, heq, hwrong⟩
    · omega
    · have hmono : (st.partials.take n).countP wrong ≤ st.partials.countP wrong :=
        (List.take_sublist _ _).countP_le
      rw [heq, nextRsAttemptAt]
      omega
  have hdue : st.recoveryAttemptable t = true := by
    rw [InputSigningState.recoveryAttemptable, decide_eq_true_eq, max_le_iff]
    omega
  exact hcorrects.concludes_none.mp (hun.full hdue) ⟨hge, hfew⟩

theorem Gates.first_unflagged_wrong (hge : t ≤ (st.unflagged flagged).length) :
    0 < ((st.unflagged flagged).take t).countP wrong := by
  have hsub : (st.unflagged flagged).length ≤ st.partials.length := List.length_filter_le _ _
  have hlength : ((st.unflagged flagged).take t).length = t := List.length_take_of_le hge
  cases hdue : st.unflaggedPrefixKey t flagged with
  | some key =>
      have hfail := hcorrects.concludes_none.mp (hun.unflaggedPrefix key hdue)
      rw [not_fewWrong (by omega)] at hfail
      exact (Nat.zero_le _).trans_lt hfail
  | none =>
      simp only [InputSigningState.unflaggedPrefixKey] at hdue
      split_ifs at hdue with hnone hnew
      · have hclear : ∀ e ∈ st.partials.take t, e.index ∉ flagged := by
          rcases hnone with hshort | hshort | hnone
          · omega
          · omega
          · exact fun e he hmem => hnone ⟨e, he, hmem⟩
        rw [take_unflagged_eq (by omega) hclear]
        exact h.clean_wrong hcorrects hun (by omega)
      · -- the same first partials were tried before
        obtain ⟨tried, htried, hkey, hwrong⟩ := h.unflaggedPrefix _ (not_not.mp hnew)
        have hindices : tried.map Eval.index ⊆ ((st.unflagged flagged).take t).map Eval.index := by
          rw [hkey]
          exact List.Subset.refl _
        have hclear := notMem_of_index_subset (List.take_subset t _) hindices
        have hcount : tried.length = t := by
          have hmap := congrArg List.length hkey
          rw [List.length_map, List.length_map] at hmap
          omega
        have hsame : (st.unflagged flagged).take t = tried := by
          rw [← hcount]
          exact (List.prefix_iff_eq_take.mp (htried hclear)).symm
        rwa [hsame]

theorem Gates.unflagged_fail
    :
    ¬ FewWrong t wrong (st.unflagged flagged) := by
  intro hfew
  have hsub : (st.unflagged flagged).length ≤ st.partials.length := List.length_filter_le _ _
  -- with nothing flagged among the partials this is the attempt on all of them
  by_cases hall : (st.unflagged flagged).length = st.partials.length
  · have heq : st.unflagged flagged = st.partials := List.filter_sublist.eq_of_length hall
    rw [heq] at hfew
    exact h.partials_fail hcorrects hun hfew
  have hgate := h.erasedGate_le hfew
  have hfirst := h.first_unflagged_wrong hcorrects hun hfew.1
  have hpre : ((st.unflagged flagged).take t).countP wrong ≤
      (st.unflagged flagged).countP wrong := (List.take_sublist _ _).countP_le
  have hwrongs := hfew.2
  cases hdue : st.erasedKey t flagged with
  | some key => exact hcorrects.concludes_none.mp (hun.erased key hdue) hfew
  | none =>
      simp only [InputSigningState.erasedKey] at hdue
      split_ifs at hdue with hnone hnew
      · omega
      · rw [max_le_iff, not_and_or, not_not] at hnew
        rcases hnew with hshort | hsame
        · omega
        · -- the same unflagged partials were tried before
          obtain ⟨tried, htried, hkey, hlong, hrequired, hwrong⟩ := h.erased _ hsame
          have hindices : tried.map Eval.index ⊆ (st.unflagged flagged).map Eval.index := by
            rw [hkey]
            exact List.Subset.refl _
          have hclear := notMem_of_index_subset (List.Subset.refl _) hindices
          have hcount : tried.length = (st.unflagged flagged).length := by
            have hmap := congrArg List.length hkey
            rw [List.length_map, List.length_map] at hmap
            exact hmap.symm
          have hle : tried.countP wrong ≤ (st.unflagged flagged).countP wrong :=
            htried.countP_le hclear
          rw [hcount] at hwrong
          omega

end Correction

/-! ## Runs -/

section Runs

variable {aggregation : Aggregation S G Sig} {verifyingKey : G}

theorem InputStep.gates {w w' : InputWorld S G} {event : InputEvent S}
    (hstep : InputStep aggregation t verifyingKey w event w')
    (hcorrects : Corrects (aggregation (w.st.context t verifyingKey)) t wrong)
    (h : Gates t wrong w.st w.flagged) : Gates t wrong w'.st w'.flagged ∧
      w'.st.context t verifyingKey = w.st.context t verifyingKey := by
  cases hstep with
  | receive => exact ⟨h.receive _, rfl⟩
  | flag => exact ⟨h.flag _, rfl⟩
  | @attempt peersExhausted st' call =>
      rcases tryFinalizeSignature_spec aggregation verifyingKey peersExhausted t w.flagged w.st with
        ⟨sigs, outcome, hsigs, hout, -⟩ | ⟨hnone, hun⟩
      · -- a call that ends with a signature does not leave the input pending
        obtain ⟨sig, blame, rfl⟩ := hcorrects.concludes_some hsigs
        rw [call] at hout
        cases peersExhausted <;> cases hout
      · rw [call, Prod.mk.injEq] at hnone
        rw [hnone.2]
        exact ⟨h.after hcorrects hun, rfl⟩

theorem aggregation_complete (aggregation : Aggregation S G Sig) (verifyingKey : G)
    (st₀ : InputSigningState S G) (flagged₀ : Finset Nat)
    (hcorrects : Corrects (aggregation (st₀.context t verifyingKey)) t wrong)
    {tr : List (InputEvent S)} {w : InputWorld S G}
    (hrun : Run (InputStep aggregation t verifyingKey) ⟨st₀.forget, flagged₀⟩ tr w)
    (hfew : FewWrong t wrong w.st.partials ∨ FewWrong t wrong (w.st.unflagged w.flagged))
    (peersExhausted : Bool) : ∃ sig blame,
      (tryFinalizeSignature aggregation t verifyingKey peersExhausted w.flagged w.st).1 =
        .done sig blame := by
  have hgates : Gates t wrong w.st w.flagged ∧
      w.st.context t verifyingKey = st₀.context t verifyingKey := by
    refine Run.invariant (P := fun w => Gates t wrong w.st w.flagged ∧
      w.st.context t verifyingKey = st₀.context t verifyingKey) ⟨Gates.new st₀, rfl⟩ ?_ hrun
    intro w event w' hw hstep
    obtain ⟨hgates, hcontext⟩ := hstep.gates (hw.2 ▸ hcorrects) hw.1
    exact ⟨hgates, hcontext.trans hw.2⟩
  obtain ⟨hgates, hcontext⟩ := hgates
  rw [← hcontext] at hcorrects
  rcases tryFinalizeSignature_spec aggregation verifyingKey peersExhausted t w.flagged w.st with
    ⟨sigs, outcome, hsigs, hout, -⟩ | ⟨-, hun⟩
  · obtain ⟨sig, blame, rfl⟩ := hcorrects.concludes_some hsigs
    exact ⟨sig, blame, hout⟩
  · rcases hfew with hfew | hfew
    · exact absurd hfew (hgates.partials_fail hcorrects hun)
    · exact absurd hfew (hgates.unflagged_fail hcorrects hun)

end Runs

namespace Sample

def correcting : Aggregation Bool Unit Unit := fun context sigs =>
  if FewWrong context.threshold (fun e => !e.value) sigs then .ok ((), .nobody)
  else .error .invalidSignature

theorem correcting_corrects (context : AggregationContext Bool Unit) :
    Corrects (correcting context) context.threshold fun e => !e.value := by
  intro sigs
  constructor
  · intro hfew
    exact ⟨(), .nobody, if_pos hfew⟩
  · intro hmany
    exact if_neg hmany

/-- An input with a wrong partial and a right one, with threshold two. -/
def halfWrong : InputSigningState Bool Unit :=
  .new 1 [] () false [] none [⟨1, false⟩, ⟨2, true⟩] 2 {10}

def corrected : InputWorld Bool Unit :=
  ⟨{ halfWrong.after 2 ∅ with partials := (halfWrong.after 2 ∅).partials ++ [⟨3, true⟩, ⟨4, true⟩] }, ∅⟩

end Sample

theorem aggregation_complete_sample : ∃ sig blame,
    (tryFinalizeSignature Sample.correcting 2 () false ∅ Sample.corrected.st).1 =
      .done sig blame := by
  have hrun : Run (InputStep Sample.correcting 2 ()) ⟨Sample.halfWrong.forget, ∅⟩
      [.attempt false, .receive [⟨3, true⟩, ⟨4, true⟩]] Sample.corrected :=
    .snoc (.snoc .nil (.attempt rfl)) .receive
  exact aggregation_complete Sample.correcting () Sample.halfWrong ∅
    (Sample.correcting_corrects _) hrun (.inl (by decide)) false

end HashiBridge.Mpc
