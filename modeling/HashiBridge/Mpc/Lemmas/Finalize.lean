import HashiBridge.Mpc.Finalize

/-!
# What one attempt to finalize an input does

A call ends with a signature, with an error that more partials cannot fix, or with nothing. In the
last case every attempt that was due has failed, the input remembers them, and none is due any more.
-/

namespace HashiBridge.Mpc

open Lib

variable {S G Sig : Type} {t : Nat} {flagged flagged' : Finset Nat} {st st' : InputSigningState S G}
  {aggregate : List (Eval S) → Except FastCryptoError (Sig × Blame)}

/-! ## Stages -/

theorem runStages_cons_none {σ β : Type} {stage : σ → Option β × σ} {stages : List (σ → Option β × σ)}
    {s s' : σ} : runStages (stage :: stages) s = (none, s') ↔
      ∃ m, stage s = (none, m) ∧ runStages stages m = (none, s') := by
  rw [runStages]
  split
  · next outcome m heq => simp [heq]
  · next m heq => simp [heq]

theorem runStages_some {σ β : Type} {stages : List (σ → Option β × σ)} {s s' : σ} {outcome : β}
    (h : runStages stages s = (some outcome, s')) :
    ∃ stage ∈ stages, ∃ m, (stage m).1 = some outcome := by
  induction stages generalizing s with
  | nil => cases h
  | cons stage stages ih =>
      rw [runStages] at h
      split at h
      · next o m heq =>
        cases h
        exact ⟨stage, List.mem_cons_self, s, by rw [heq]⟩
      · obtain ⟨later, hlater, m, hm⟩ := ih h
        exact ⟨later, List.mem_cons_of_mem _ hlater, m, hm⟩

theorem runStages_invariant {σ β α : Type} (f : σ → α) {stages : List (σ → Option β × σ)}
    {s s' : σ} {outcome : Option β} (h : runStages stages s = (outcome, s'))
    (hstage : ∀ stage ∈ stages, ∀ s, f (stage s).2 = f s) : f s' = f s := by
  induction stages generalizing s with
  | nil =>
      cases h
      rfl
  | cons stage stages ih =>
      have hfirst := hstage stage List.mem_cons_self s
      rw [runStages] at h
      split at h
      · next o m heq =>
        cases h
        rwa [heq] at hfirst
      · next m heq =>
        rw [heq] at hfirst
        exact (ih h fun stage hs => hstage stage (List.mem_cons_of_mem _ hs)).trans hfirst

/-! ## The gates -/

namespace InputSigningState

def forget (self : InputSigningState S G) : InputSigningState S G :=
  .new self.signingId self.message self.publicNonce self.beacon self.signingNonceBytes
    self.derivationAddress self.partials self.earlyExitFloor self.peersRemaining

theorem signingId_of_forget (h : st'.forget = st.forget) : st'.signingId = st.signingId := by
  change st'.forget.signingId = st.forget.signingId
  rw [h]

theorem partials_of_forget (h : st'.forget = st.forget) : st'.partials = st.partials := by
  change st'.forget.partials = st.forget.partials
  rw [h]

theorem peersRemaining_of_forget (h : st'.forget = st.forget) :
    st'.peersRemaining = st.peersRemaining := by
  change st'.forget.peersRemaining = st.forget.peersRemaining
  rw [h]

theorem signingNonceBytes_of_forget (h : st'.forget = st.forget) :
    st'.signingNonceBytes = st.signingNonceBytes := by
  change st'.forget.signingNonceBytes = st.forget.signingNonceBytes
  rw [h]

def after (t : Nat) (flagged : Finset Nat) (self : InputSigningState S G) :
    InputSigningState S G :=
  { self with
    cleanAttempted := self.cleanAttempted || decide (t ≤ self.partials.length)
    unflaggedPrefixAttempted :=
      (self.unflaggedPrefixKey t flagged).or self.unflaggedPrefixAttempted
    requiredFull :=
      if self.recoveryAttemptable t then nextRsAttemptAt t self.partials.length
      else self.requiredFull
    erasedAttempted := (self.erasedKey t flagged).or self.erasedAttempted
    requiredErased :=
      if (self.erasedKey t flagged).isSome then nextRsAttemptAt t (self.unflagged flagged).length
      else self.requiredErased }

theorem unflaggedPrefixKey_eq_some {key : List Nat} (h : st.unflaggedPrefixKey t flagged = some key) :
    t ≤ st.partials.length ∧ t ≤ (st.unflagged flagged).length ∧
      key = ((st.unflagged flagged).take t).map Eval.index := by
  simp only [unflaggedPrefixKey] at h
  split_ifs at h with hshort hnew
  simp only [not_or, not_lt] at hshort
  cases h
  exact ⟨hshort.1, hshort.2.1, rfl⟩

theorem erasedKey_eq_some {key : List Nat} (h : st.erasedKey t flagged = some key) :
    t + 2 ≤ (st.unflagged flagged).length ∧ (st.unflagged flagged).length < st.partials.length ∧
      key = (st.unflagged flagged).map Eval.index := by
  simp only [erasedKey] at h
  split_ifs at h with hall hdue
  cases h
  exact ⟨(le_max_left _ _).trans hdue.1, not_le.mp hall, rfl⟩

theorem lt_nextRsAttemptAt {n : Nat} (h : t ≤ n) : n < nextRsAttemptAt t n := by
  unfold nextRsAttemptAt
  omega

theorem unflaggedPrefixKey_congr
    (hprev : st'.unflaggedPrefixAttempted = st.unflaggedPrefixAttempted)
    (hpartials : st'.partials = st.partials) :
    st'.unflaggedPrefixKey t flagged = st.unflaggedPrefixKey t flagged := by
  unfold unflaggedPrefixKey unflagged
  rw [hpartials, hprev]

theorem recoveryAttemptable_congr (hrequired : st'.requiredFull = st.requiredFull)
    (hpartials : st'.partials = st.partials) :
    st'.recoveryAttemptable t = st.recoveryAttemptable t := by
  unfold recoveryAttemptable
  rw [hpartials, hrequired]

theorem erasedKey_congr (hprev : st'.erasedAttempted = st.erasedAttempted)
    (hrequired : st'.requiredErased = st.requiredErased) (hpartials : st'.partials = st.partials) :
    st'.erasedKey t flagged = st.erasedKey t flagged := by
  unfold erasedKey erasedGate unflagged
  rw [hpartials, hprev, hrequired]

/-! ### After a call that came to nothing, nothing is due -/

theorem unflaggedPrefixKey_after : (st.after t flagged).unflaggedPrefixKey t flagged = none := by
  cases hkey : st.unflaggedPrefixKey t flagged with
  | none =>
      have hprev : (st.after t flagged).unflaggedPrefixAttempted = st.unflaggedPrefixAttempted := by
        rw [after, hkey, Option.none_or]
      rw [unflaggedPrefixKey_congr hprev rfl, hkey]
  | some key =>
      obtain ⟨-, -, rfl⟩ := unflaggedPrefixKey_eq_some hkey
      have hprev : (st.after t flagged).unflaggedPrefixAttempted =
          some (((st.unflagged flagged).take t).map Eval.index) := by
        rw [after, hkey, Option.some_or]
      have hsame : (st.after t flagged).unflagged flagged = st.unflagged flagged := rfl
      simp only [unflaggedPrefixKey, hsame, hprev]
      split_ifs with hshort hnew
      · rfl
      · exact absurd rfl hnew
      · rfl

theorem recoveryAttemptable_after : (st.after t flagged).recoveryAttemptable t = false := by
  cases hdue : st.recoveryAttemptable t with
  | false =>
      have hrequired : (st.after t flagged).requiredFull = st.requiredFull := by
        rw [after, hdue]
        rfl
      rw [recoveryAttemptable_congr hrequired rfl, hdue]
  | true =>
      have hrequired : (st.after t flagged).requiredFull = nextRsAttemptAt t st.partials.length := by
        rw [after, hdue]
        rfl
      have hpartials : (st.after t flagged).partials = st.partials := rfl
      rw [recoveryAttemptable, decide_eq_true_eq, max_le_iff] at hdue
      rw [recoveryAttemptable, decide_eq_false_iff_not, max_le_iff, hrequired, hpartials, not_and,
        not_le]
      intro hge
      exact lt_nextRsAttemptAt (by omega)

theorem erasedKey_after : (st.after t flagged).erasedKey t flagged = none := by
  cases hkey : st.erasedKey t flagged with
  | none =>
      have hprev : (st.after t flagged).erasedAttempted = st.erasedAttempted := by
        rw [after, hkey, Option.none_or]
      have hrequired : (st.after t flagged).requiredErased = st.requiredErased := by
        rw [after, hkey]
        rfl
      rw [erasedKey_congr hprev hrequired rfl, hkey]
  | some key =>
      obtain ⟨-, -, rfl⟩ := erasedKey_eq_some hkey
      have hprev : (st.after t flagged).erasedAttempted =
          some ((st.unflagged flagged).map Eval.index) := by rw [after, hkey, Option.some_or]
      have hsame : (st.after t flagged).unflagged flagged = st.unflagged flagged := rfl
      simp only [erasedKey, hsame, hprev]
      split_ifs with hall hnew
      · rfl
      · exact absurd rfl hnew.2
      · rfl

theorem wouldAggregate_after : (st.after t flagged).wouldAggregate t flagged = false := by
  unfold wouldAggregate
  split_ifs with hshort hclean
  · rfl
  · have hge : t ≤ st.partials.length := not_lt.mp hshort
    simp [after, hge] at hclean
  · rw [unflaggedPrefixKey_after, recoveryAttemptable_after, erasedKey_after]
    rfl

end InputSigningState

/-! ## Calls -/

structure Unsuccessful (aggregate : List (Eval S) → Except FastCryptoError (Sig × Blame)) (t : Nat)
    (flagged : Finset Nat) (st : InputSigningState S G) : Prop where
  clean : t ≤ st.partials.length → st.cleanAttempted = false →
    concludes (aggregate (st.partials.take t)) = none
  unflaggedPrefix : ∀ key, st.unflaggedPrefixKey t flagged = some key →
    concludes (aggregate ((st.unflagged flagged).take t)) = none
  full : st.recoveryAttemptable t = true → concludes (aggregate st.partials) = none
  erased : ∀ key, st.erasedKey t flagged = some key →
    concludes (aggregate (st.unflagged flagged)) = none

theorem cleanStage_none (hge : t ≤ st.partials.length) : cleanStage t aggregate st = (none, st') ↔
    (st.cleanAttempted = false → concludes (aggregate (st.partials.take t)) = none) ∧
      st' = { st with cleanAttempted := st.cleanAttempted || decide (t ≤ st.partials.length) } := by
  unfold cleanStage
  cases hclean : st.cleanAttempted with
  | true =>
      obtain ⟨⟩ := st
      simp_all [eq_comm]
  | false => simp [hge, eq_comm]

theorem prefixStage_none : prefixStage t flagged aggregate st = (none, st') ↔
    (∀ key, st.unflaggedPrefixKey t flagged = some key →
      concludes (aggregate ((st.unflagged flagged).take t)) = none) ∧
    st' = { st with
      unflaggedPrefixAttempted :=
        (st.unflaggedPrefixKey t flagged).or st.unflaggedPrefixAttempted } := by
  unfold prefixStage
  cases st.unflaggedPrefixKey t flagged with
  | none =>
      simp only [Prod.mk.injEq, true_and, reduceCtorEq, false_implies, implies_true, Option.none_or]
      exact eq_comm
  | some key => simp [eq_comm]

theorem fullStage_none : fullStage t aggregate st = (none, st') ↔
    (st.recoveryAttemptable t = true → concludes (aggregate st.partials) = none) ∧
    st' = { st with
      requiredFull :=
        if st.recoveryAttemptable t then nextRsAttemptAt t st.partials.length
        else st.requiredFull } := by
  unfold fullStage
  cases st.recoveryAttemptable t with
  | false =>
      simp only [Bool.false_eq_true, if_false, Prod.mk.injEq, true_and, false_implies]
      exact eq_comm
  | true =>
      cases concludes (aggregate st.partials) with
      | none => simp [eq_comm]
      | some outcome => simp

theorem erasedStage_none : erasedStage t flagged aggregate st = (none, st') ↔
    (∀ key, st.erasedKey t flagged = some key →
      concludes (aggregate (st.unflagged flagged)) = none) ∧
    st' = { st with
      erasedAttempted := (st.erasedKey t flagged).or st.erasedAttempted
      requiredErased :=
        if (st.erasedKey t flagged).isSome then nextRsAttemptAt t (st.unflagged flagged).length
        else st.requiredErased } := by
  unfold erasedStage
  cases st.erasedKey t flagged with
  | none =>
      simp only [Prod.mk.injEq, true_and, reduceCtorEq, false_implies, implies_true, Option.none_or,
        Option.isSome_none, Bool.false_eq_true, if_false]
      exact eq_comm
  | some key =>
      cases concludes (aggregate (st.unflagged flagged)) with
      | none => simp [eq_comm]
      | some outcome => simp

/-- The stages come to nothing exactly where every due attempt fails. What a stage remembers does not
change whether a later one is due. -/
theorem runStages_none (hge : t ≤ st.partials.length) :
    runStages [cleanStage t aggregate, prefixStage t flagged aggregate, fullStage t aggregate,
      erasedStage t flagged aggregate] st = (none, st') ↔
    Unsuccessful aggregate t flagged st ∧ st' = st.after t flagged := by
  simp only [runStages_cons_none, cleanStage_none hge, prefixStage_none, fullStage_none,
    erasedStage_none]
  constructor
  · rintro ⟨_, ⟨hclean, rfl⟩, _, ⟨hpre, rfl⟩, _, ⟨hfull, rfl⟩, _, ⟨herased, rfl⟩, hlast⟩
    cases hlast
    exact ⟨⟨fun _ => hclean, hpre, hfull, herased⟩, rfl⟩
  · rintro ⟨⟨hclean, hpre, hfull, herased⟩, rfl⟩
    exact ⟨_, ⟨hclean hge, rfl⟩, _, ⟨hpre, rfl⟩, _, ⟨hfull, rfl⟩, _, ⟨herased, rfl⟩, rfl⟩

theorem stage_forget {stage : InputSigningState S G →
      Option (FinalizeOutcome Sig) × InputSigningState S G}
    (h : stage ∈ [cleanStage t aggregate, prefixStage t flagged aggregate, fullStage t aggregate,
      erasedStage t flagged aggregate]) (st : InputSigningState S G) :
    (stage st).2.forget = st.forget := by
  simp only [List.mem_cons, List.not_mem_nil, or_false] at h
  rcases h with rfl | rfl | rfl | rfl
  · unfold cleanStage
    split_ifs <;> rfl
  · unfold prefixStage
    split <;> rfl
  · unfold fullStage
    split_ifs
    · split <;> rfl
    · rfl
  · unfold erasedStage
    split
    · rfl
    · split <;> rfl

theorem stage_concludes {stage : InputSigningState S G →
      Option (FinalizeOutcome Sig) × InputSigningState S G}
    (h : stage ∈ [cleanStage t aggregate, prefixStage t flagged aggregate, fullStage t aggregate,
      erasedStage t flagged aggregate]) {st : InputSigningState S G} {outcome : FinalizeOutcome Sig}
    (hout : (stage st).1 = some outcome) : ∃ sigs, concludes (aggregate sigs) = some outcome := by
  simp only [List.mem_cons, List.not_mem_nil, or_false] at h
  rcases h with rfl | rfl | rfl | rfl
  · unfold cleanStage at hout
    split_ifs at hout
    exact ⟨_, hout⟩
  · unfold prefixStage at hout
    split at hout
    · cases hout
    · exact ⟨_, hout⟩
  · unfold fullStage at hout
    split_ifs at hout
    split at hout
    · next heq =>
      cases hout
      exact ⟨_, heq⟩
    · cases hout
  · unfold erasedStage at hout
    split at hout
    · cases hout
    · split at hout
      · next heq =>
        cases hout
        exact ⟨_, heq⟩
      · cases hout

theorem InputSigningState.not_due (h : st.wouldAggregate t flagged = false) :
    (t ≤ st.partials.length → st.cleanAttempted = true) ∧ st.unflaggedPrefixKey t flagged = none ∧
      st.recoveryAttemptable t = false ∧ st.erasedKey t flagged = none := by
  unfold wouldAggregate at h
  split_ifs at h with hshort hclean
  · refine ⟨fun hge => absurd hge (not_le.mpr hshort), ?_, ?_, ?_⟩
    · refine Option.eq_none_iff_forall_not_mem.mpr fun key hkey => ?_
      exact absurd (unflaggedPrefixKey_eq_some hkey).1 (not_le.mpr hshort)
    · rw [recoveryAttemptable, decide_eq_false_iff_not, max_le_iff]
      omega
    · refine Option.eq_none_iff_forall_not_mem.mpr fun key hkey => ?_
      obtain ⟨hge, hlt, -⟩ := erasedKey_eq_some hkey
      omega
  · simp only [Bool.or_eq_false_iff, Option.isSome_eq_false_iff, Option.isNone_iff_eq_none] at h
    exact ⟨fun _ => by simpa using hclean, h.1.1, h.1.2, h.2⟩

variable (aggregation : Aggregation S G Sig) (verifyingKey : G) (peersExhausted : Bool)

theorem tryFinalizeSignature_spec (t : Nat) (flagged : Finset Nat) (st : InputSigningState S G) :
    (∃ sigs outcome, concludes (aggregation (st.context t verifyingKey) sigs) = some outcome ∧
      (tryFinalizeSignature aggregation t verifyingKey peersExhausted flagged st).1 = outcome ∧
      (tryFinalizeSignature aggregation t verifyingKey peersExhausted flagged st).2.forget =
        st.forget) ∨
    (tryFinalizeSignature aggregation t verifyingKey peersExhausted flagged st =
        (if peersExhausted then .exhausted else .needMore, st.after t flagged) ∧
      Unsuccessful (aggregation (st.context t verifyingKey)) t flagged st) := by
  unfold tryFinalizeSignature
  cases hwould : st.wouldAggregate t flagged with
  | false =>
      obtain ⟨hclean, hpre, hfull, herased⟩ := st.not_due hwould
      have hsame : st.after t flagged = st := by
        have hattempted : (st.cleanAttempted || decide (t ≤ st.partials.length)) =
            st.cleanAttempted := by
          by_cases hge : t ≤ st.partials.length
          · simp [hclean hge]
          · simp [hge]
        rw [InputSigningState.after, hpre, hfull, herased, hattempted]
        rfl
      refine .inr ⟨by rw [hsame]; rfl, fun hge hno => ?_, fun key hkey => ?_, fun hdue => ?_,
        fun key hkey => ?_⟩
      · rw [hclean hge] at hno
        cases hno
      · rw [hpre] at hkey
        cases hkey
      · rw [hfull] at hdue
        cases hdue
      · rw [herased] at hkey
        cases hkey
  | true =>
      have hge : t ≤ st.partials.length := by
        unfold InputSigningState.wouldAggregate at hwould
        split_ifs at hwould with hshort
        · exact not_lt.mp hshort
        · exact not_lt.mp hshort
      simp only [Bool.not_true, Bool.false_eq_true, if_false]
      split
      · next outcome st' heq =>
        obtain ⟨stage, hstage, m, hm⟩ := runStages_some heq
        obtain ⟨sigs, hsigs⟩ := stage_concludes hstage hm
        exact .inl ⟨sigs, outcome, hsigs, rfl,
          runStages_invariant InputSigningState.forget heq fun stage hs => stage_forget hs⟩
      · next st' heq =>
        obtain ⟨hun, rfl⟩ := (runStages_none hge).mp heq
        exact .inr ⟨rfl, hun⟩

end HashiBridge.Mpc
