import HashiBridge.Mpc.Lemmas.Finalize

/-!
# A sweep settles every input it can

A pass that flags nothing new has tried every input it keeps with the flags it ends with, so nothing
is due for them.
-/

namespace HashiBridge.Mpc

open Lib HashiBridge.Core

/-! ## Swap-removal -/

section SwapRemove

variable {α : Type} {xs : List α} {i : Nat}

theorem swapRemove_append (ys : List α) (last : α) (i : Nat) :
    swapRemove (ys ++ [last]) i = if i < ys.length then ys.set i last else ys := by
  rw [swapRemove, List.getLast?_concat]
  simp only
  split_ifs with hi
  · rw [List.set_append_left _ _ hi, List.dropLast_concat]
  · by_cases heq : i = ys.length
    · subst heq
      rw [List.set_append_right _ _ (le_refl _), Nat.sub_self, List.set_cons_zero,
        List.dropLast_concat]
    · rw [List.set_eq_of_length_le (by simp; omega), List.dropLast_concat]

theorem swapRemove_perm (h : i < xs.length) : (swapRemove xs i).Perm (xs.eraseIdx i) := by
  rcases List.eq_nil_or_concat' xs with rfl | ⟨ys, last, rfl⟩
  · simp at h
  · rw [swapRemove_append]
    split_ifs with hi
    · rw [List.eraseIdx_append_of_lt_length hi]
      exact (List.set_perm_cons_eraseIdx hi last).trans (List.perm_append_singleton _ _).symm
    · have heq : i = ys.length := by
        rw [List.length_append, List.length_singleton] at h
        omega
      rw [heq, List.eraseIdx_append_of_length_le (le_refl _), Nat.sub_self]
      simp

theorem take_swapRemove (h : i < xs.length) : (swapRemove xs i).take i = xs.take i := by
  rcases List.eq_nil_or_concat' xs with rfl | ⟨ys, last, rfl⟩
  · simp at h
  · rw [List.length_append, List.length_singleton] at h
    rw [swapRemove_append, List.take_append_of_le_length (by omega)]
    split_ifs with hi
    · exact List.take_set_of_le (le_refl i)
    · rfl

end SwapRemove

/-! ## Rounds -/

variable {S G Sig : Type} {config : SigningEpochConfig G} {aggregation : Aggregation S G Sig}

theorem SigningEpochConfig.flagMismatched_spec (blame : Blame) (flagged : Finset Nat) :
    flagged ⊆ (config.flagMismatched blame flagged).2 ∧
      ((config.flagMismatched blame flagged).1 = false →
        (config.flagMismatched blame flagged).2 = flagged) := by
  have hgrow : ∀ indices, flagged ⊆ flagged ∪ config.mismatched indices ∧
      (decide (flagged.card < (flagged ∪ config.mismatched indices).card) = false →
        flagged ∪ config.mismatched indices = flagged) := by
    intro indices
    refine ⟨Finset.subset_union_left, fun hsame => ?_⟩
    rw [decide_eq_false_iff_not, not_lt] at hsame
    exact (Finset.eq_of_subset_of_card_le Finset.subset_union_left hsame).symm
  cases blame with
  | nobody => exact ⟨Finset.Subset.refl _, fun _ => rfl⟩
  | certain indices | inconclusive indices => exact hgrow indices

def TooManyInvalid (result : Except SigningError Sig) : Prop :=
  ∃ collected threshold, result = .error (.tooManyInvalidSignatures collected threshold)

theorem concludes_fit {sigs : Except FastCryptoError (Sig × Blame)} {outcome : FinalizeOutcome Sig}
    (h : concludes sigs = some outcome) :
    (∃ sig blame, outcome = .done sig blame) ∨
      ∃ message, outcome = .failed (.cryptoError message) := by
  cases sigs with
  | ok r =>
      cases h
      exact .inl ⟨_, _, rfl⟩
  | error e =>
      cases e with
      | invalidSignature => cases h
      | inconsistentInputs | other =>
          cases h
          exact .inr ⟨_, rfl⟩

/-- What a sweep starts from. -/
structure SweepStart (S G Sig : Type) where
  aggregation : Aggregation S G Sig
  config : SigningEpochConfig G
  pending : List (InputSigningState S G)
  flagged : Finset Nat
  sent : List (Address × Except SigningError Sig)

namespace SweepStart

variable (start : SweepStart S G Sig) {low mid high high' : Finset Nat}
  {st₀ st₁ prev st : InputSigningState S G} {result : Except SigningError Sig}
  {entry : Address × Except SigningError Sig}

/-- The call that a round makes on an input. -/
def attempt (flagged : Finset Nat) (st : InputSigningState S G) :
    FinalizeOutcome Sig × InputSigningState S G :=
  tryFinalizeSignature start.aggregation start.config.threshold start.config.verifyingKey
    (decide (st.peersRemaining = ∅)) flagged st

/-- The call on `prev` came to nothing and left `st`. -/
def Fruitless (flagged : Finset Nat)
    (prev st : InputSigningState S G) : Prop :=
  start.attempt flagged prev = (if prev.peersRemaining = ∅ then .exhausted else .needMore, st)

/-- The call on `st` ended with this result. -/
def Answers (flagged : Finset Nat) (st : InputSigningState S G)
    (result : Except SigningError Sig) : Prop :=
  (∃ sig blame, (start.attempt flagged st).1 = .done sig blame ∧ result = .ok sig) ∨
    ∃ message, (start.attempt flagged st).1 = .failed (.cryptoError message) ∧
      result = .error (.cryptoError message)

/-- Calls that came to nothing, under flags from `low` to `high`, led from `st₀` to `st`. -/
def Attempted (low high : Finset Nat) :
    InputSigningState S G → InputSigningState S G → Prop :=
  Relation.ReflTransGen fun prev next => ∃ flagged, low ⊆ flagged ∧ flagged ⊆ high ∧
    start.Fruitless flagged prev next

def Reached (high : Finset Nat) (st : InputSigningState S G) : Prop :=
  ∃ st₀ ∈ start.pending, start.Attempted start.flagged high st₀ st

def pass : Sweep S G Sig :=
  sweepPass start.aggregation start.config start.pending start.flagged start.sent

/-- The sweep goes on from what one of its passes left. -/
def after (s : Sweep S G Sig) : SweepStart S G Sig :=
  { start with pending := s.pending, flagged := s.flagged, sent := s.sent }

/-- The last pass, the one that flags nothing new, starts from `last`. -/
inductive LastPass : SweepStart S G Sig → SweepStart S G Sig → Prop
  | here {start : SweepStart S G Sig} (same : start.pass.grew = false) : LastPass start start
  | later {start last : SweepStart S G Sig} (grew : start.pass.grew = true)
      (rest : LastPass (start.after start.pass) last) : LastPass start last

/-- The last pass finds an input like this, which the calls before had left so. -/
def Found (flagged : Finset Nat) (st : InputSigningState S G) : Prop :=
  start.Reached flagged st ∧ ∃ last, start.LastPass last ∧ st ∈ last.pending

/-- The call of the last pass on an input came to nothing, under `flagged`, and left `st`. -/
def Settled (flagged : Finset Nat) (st : InputSigningState S G) : Prop :=
  ∃ prev, start.Found flagged prev ∧ start.Fruitless flagged prev st

/-- The result is that of the call on an input, as the calls before had left it. -/
def Resolved (high : Finset Nat)
    (entry : Address × Except SigningError Sig) : Prop :=
  ∃ flagged st, start.flagged ⊆ flagged ∧ flagged ⊆ high ∧ start.Reached flagged st ∧
    st.signingId = entry.1 ∧ start.Answers flagged st entry.2

/-- No peer remains for the input, and the call of the last pass on it, under `flagged`, came to
nothing. -/
def Exhausted (flagged : Finset Nat) (id : Address) : Prop :=
  ∃ st, start.Found flagged st ∧ st.signingId = id ∧ st.peersRemaining = ∅ ∧
    (start.attempt flagged st).1 = .exhausted

variable {start}

theorem Answers.fit {flagged : Finset Nat} (h : start.Answers flagged st result) :
    ¬ TooManyInvalid result := by
  rintro ⟨collected, threshold, rfl⟩
  rcases h with ⟨sig, blame, -, h⟩ | ⟨message, -, h⟩ <;> cases h

namespace Fruitless

variable {flagged : Finset Nat}

theorem eq_after (h : start.Fruitless flagged prev st) :
    st = prev.after start.config.threshold flagged := by
  unfold Fruitless attempt at h
  rcases tryFinalizeSignature_spec start.aggregation start.config.verifyingKey
      (decide (prev.peersRemaining = ∅)) start.config.threshold flagged prev with
    ⟨sigs, outcome, hsigs, hout, -⟩ | ⟨hcall, -⟩
  · rw [h] at hout
    rcases concludes_fit hsigs with ⟨sig, blame, rfl⟩ | ⟨message, rfl⟩ <;> split_ifs at hout
  · rw [hcall] at h
    exact (congrArg Prod.snd h).symm

theorem forget_eq (h : start.Fruitless flagged prev st) : st.forget = prev.forget := by
  rw [h.eq_after]
  rfl

/-- A second call under the same flags finds nothing due. -/
theorem call (h : start.Fruitless flagged prev st) (peersExhausted : Bool) :
    tryFinalizeSignature start.aggregation start.config.threshold start.config.verifyingKey
        peersExhausted flagged st =
      (if peersExhausted then .exhausted else .needMore, st) := by
  rw [h.eq_after]
  unfold tryFinalizeSignature
  rw [InputSigningState.wouldAggregate_after]
  rfl

end Fruitless

namespace Attempted

theorem forget_eq (h : start.Attempted low high st₀ st) : st.forget = st₀.forget := by
  induction h with
  | refl => rfl
  | tail _ hcall ih =>
      obtain ⟨flagged, -, -, hfruitless⟩ := hcall
      exact hfruitless.forget_eq.trans ih

theorem mono {low' : Finset Nat} (h : start.Attempted low high st₀ st) (hlow : low' ⊆ low)
    (hhigh : high ⊆ high') : start.Attempted low' high' st₀ st := by
  refine Relation.ReflTransGen.mono ?_ st₀ st h
  rintro prev next ⟨flagged, hge, hle, hcall⟩
  exact ⟨flagged, hlow.trans hge, hle.trans hhigh, hcall⟩

end Attempted

theorem Reached.more (h : start.Reached high st) (hhigh : high ⊆ high') : start.Reached high' st := by
  obtain ⟨st₀, hst₀, hattempted⟩ := h
  exact ⟨st₀, hst₀, hattempted.mono subset_rfl hhigh⟩

theorem Resolved.more (h : start.Resolved high entry) (hhigh : high ⊆ high') :
    start.Resolved high' entry := by
  obtain ⟨flagged, st, hge, hle, hrest⟩ := h
  exact ⟨flagged, st, hge, hle.trans hhigh, hrest⟩

theorem Reached.earlier {s : Sweep S G Sig} (h : (start.after s).Reached high st)
    (hpending : ∀ st ∈ s.pending, start.Reached s.flagged st) (hlow : start.flagged ⊆ s.flagged)
    (hhigh : s.flagged ⊆ high) : start.Reached high st := by
  obtain ⟨st₁, hst₁, hattempted⟩ := h
  obtain ⟨st₀, hst₀, hattempted₀⟩ := hpending st₁ hst₁
  have hlater : start.Attempted s.flagged high st₁ st := hattempted
  exact ⟨st₀, hst₀, (hattempted₀.mono subset_rfl hhigh).trans (hlater.mono hlow subset_rfl)⟩

end SweepStart

variable {start : SweepStart S G Sig} {s s' : Sweep S G Sig}

/-- What a round does to the input at the index: remove it with a result, or settle it. -/
inductive RoundEffect (start : SweepStart S G Sig) (s : Sweep S G Sig)
    (st : InputSigningState S G) : Sweep S G Sig → Prop
  | removed {pending : List (InputSigningState S G)} {flagged : Finset Nat} {grew : Bool}
      {result : Except SigningError Sig} (perm : pending.Perm (s.pending.eraseIdx s.i))
      (take_eq : pending.take s.i = s.pending.take s.i) (grows : s.flagged ⊆ flagged)
      (same : grew = false → flagged = s.flagged)
      (answers : start.Answers s.flagged st result) :
      RoundEffect start s st
        { s with
          pending, flagged, grew := s.grew || grew, sent := s.sent ++ [(st.signingId, result)] }
  | settled {st' : InputSigningState S G} {exhausted : List Address}
      (fruitless : start.Fruitless s.flagged st st')
      (exhausts : exhausted = s.exhausted ∨
        exhausted = s.exhausted ++ [st.signingId] ∧ st.peersRemaining = ∅) :
      RoundEffect start s st
        { s with pending := s.pending.set s.i st', i := s.i + 1, exhausted }

theorem Sweep.round_effect {st : InputSigningState S G} (h : s.pending[s.i]? = some st) :
    RoundEffect start s st (s.round start.aggregation start.config) := by
  have hlt : s.i < s.pending.length := (List.getElem?_eq_some_iff.mp h).1
  have hperm : ∀ st' : InputSigningState S G,
      (swapRemove (s.pending.set s.i st') s.i).Perm (s.pending.eraseIdx s.i) := by
    intro st'
    have hlt' : s.i < (s.pending.set s.i st').length := by rwa [List.length_set]
    have hset := swapRemove_perm hlt'
    rwa [List.eraseIdx_set_eq] at hset
  have htake : ∀ st' : InputSigningState S G,
      (swapRemove (s.pending.set s.i st') s.i).take s.i = s.pending.take s.i := by
    intro st'
    have hlt' : s.i < (s.pending.set s.i st').length := by rwa [List.length_set]
    rw [take_swapRemove hlt', List.take_set_of_le (le_refl _)]
  unfold Sweep.round
  rw [h]
  simp only
  rcases tryFinalizeSignature_spec start.aggregation start.config.verifyingKey
      (decide (st.peersRemaining = ∅)) start.config.threshold s.flagged st with
    ⟨sigs, outcome, hsigs, hout, -⟩ | ⟨hcall, -⟩
  · rcases concludes_fit hsigs with ⟨sig, blame, rfl⟩ | ⟨message, rfl⟩
    · rw [hout]
      obtain ⟨hgrows, hsame⟩ := start.config.flagMismatched_spec blame s.flagged
      exact .removed (hperm _) (htake _) hgrows hsame (.inl ⟨sig, blame, hout, rfl⟩)
    · rw [hout]
      have hremoved : RoundEffect start s st { s with
          pending := swapRemove (s.pending.set s.i (start.attempt s.flagged st).2) s.i
          flagged := s.flagged
          grew := s.grew || false
          sent := s.sent ++ [(st.signingId, .error (.cryptoError message))] } :=
        .removed (hperm _) (htake _) (Finset.Subset.refl _) (fun _ => rfl)
          (.inr ⟨message, hout, rfl⟩)
      rwa [Bool.or_false] at hremoved
  · have hfruitless : start.Fruitless s.flagged st (st.after start.config.threshold s.flagged) := by
      rw [SweepStart.Fruitless, SweepStart.attempt, hcall]
      simp only [decide_eq_true_eq]
    by_cases hpeers : st.peersRemaining = ∅
    · rw [hcall]
      simp only [hpeers, decide_true, if_true]
      exact .settled hfruitless (.inr ⟨rfl, hpeers⟩)
    · rw [hcall]
      simp only [hpeers, decide_false, Bool.false_eq_true, if_false]
      exact .settled hfruitless (.inl rfl)

/-! ## Passes -/

def accounted (pending : List (InputSigningState S G))
    (sent : List (Address × Except SigningError Sig)) : List Address :=
  pending.map InputSigningState.signingId ++ sent.map Prod.fst

theorem accounted_removed {xs ys : List (InputSigningState S G)} {i : Nat} (hi : i < xs.length)
    (perm : ys.Perm (xs.eraseIdx i)) (sent : List (Address × Except SigningError Sig))
    (result : Except SigningError Sig) :
    (accounted ys (sent ++ [(xs[i].signingId, result)])).Perm (accounted xs sent) := by
  have hids : (xs[i].signingId :: ys.map InputSigningState.signingId).Perm
      (xs.map InputSigningState.signingId) :=
    ((perm.cons xs[i]).trans (List.getElem_cons_eraseIdx_perm hi)).map InputSigningState.signingId
  rw [accounted, accounted, List.map_append, List.map_singleton, ← List.append_assoc]
  refine (List.perm_append_singleton _ _).trans ?_
  rw [← List.cons_append]
  exact hids.append_right _

/-- Where a pass stands. The inputs before the index have been tried, under the flags of the pass while
nothing new is flagged, and those from it on are as the pass found them. -/
structure PassInv (start : SweepStart S G Sig) (s : Sweep S G Sig) : Prop where
  index_le : s.i ≤ s.pending.length
  accounts : (accounted s.pending s.sent).Perm (accounted start.pending start.sent)
  grows : start.flagged ⊆ s.flagged
  inputs : ∀ st ∈ s.pending, start.Reached s.flagged st
  length_le : s.pending.length ≤ start.pending.length
  same : s.grew = false → s.flagged = start.flagged
  grew : s.grew = true → s.pending.length < start.pending.length
  settled : s.grew = false → ∀ st ∈ s.pending.take s.i,
    ∃ prev ∈ start.pending, start.Fruitless start.flagged prev st
  found : ∀ st ∈ s.pending.drop s.i, st ∈ start.pending
  exhausted : ∀ id ∈ s.exhausted,
    ∃ st ∈ s.pending.take s.i, st.signingId = id ∧ st.peersRemaining = ∅
  resolved : ∀ entry ∈ s.sent, entry ∈ start.sent ∨ start.Resolved s.flagged entry

namespace PassInv

theorem init : PassInv start ⟨start.pending, 0, start.flagged, false, [], start.sent⟩ where
  index_le := Nat.zero_le _
  accounts := List.Perm.refl _
  grows := Finset.Subset.refl _
  inputs st hst := ⟨st, hst, .refl⟩
  length_le := le_refl _
  same _ := rfl
  grew h := by cases h
  settled _ st hst := by simp at hst
  found _ hst := hst
  exhausted id hid := by cases hid
  resolved entry hentry := .inl hentry

theorem step (h : PassInv start s) {st : InputSigningState S G} (hst : s.pending[s.i]? = some st)
    (heffect : RoundEffect start s st s') :
    PassInv start s' ∧ s'.pending.length - s'.i + 1 = s.pending.length - s.i := by
  obtain ⟨hlt, rfl⟩ := List.getElem?_eq_some_iff.mp hst
  cases heffect with
  | @removed pending flagged grew result perm take_eq grows same answers =>
      have hlength : pending.length + 1 = s.pending.length := by
        have hlen := perm.length_eq
        rw [List.length_eraseIdx_of_lt hlt] at hlen
        omega
      have hids := accounted_removed hlt perm s.sent result
      have hinput := h.inputs _ (List.getElem_mem hlt)
      have hdrop : (pending.drop s.i).Perm (s.pending.drop (s.i + 1)) := by
        rw [← List.perm_append_left_iff (s.pending.take s.i), ← List.eraseIdx_eq_take_drop_succ,
          ← take_eq, List.take_append_drop]
        exact perm
      refine ⟨⟨?_, hids.trans h.accounts, h.grows.trans grows, ?_, ?_, ?_, ?_, ?_, ?_, ?_, ?_⟩, ?_⟩
      · show s.i ≤ pending.length
        omega
      · intro st hst
        exact (h.inputs st (List.mem_of_mem_eraseIdx (perm.subset hst))).more grows
      · show pending.length ≤ start.pending.length
        have hle := h.length_le
        omega
      · intro hgrew
        rw [Bool.or_eq_false_iff] at hgrew
        exact (same hgrew.2).trans (h.same hgrew.1)
      · intro _
        show pending.length < start.pending.length
        have hle := h.length_le
        omega
      · intro hgrew
        rw [Bool.or_eq_false_iff] at hgrew
        show ∀ st ∈ pending.take s.i, _
        rw [take_eq]
        exact h.settled hgrew.1
      · intro st hst
        exact h.found st (List.drop_subset_drop_left _ (Nat.le_succ _) (hdrop.subset hst))
      · show ∀ id ∈ s.exhausted, ∃ st ∈ pending.take s.i, _
        rw [take_eq]
        exact h.exhausted
      · intro entry hentry
        rcases List.mem_append.mp hentry with hold | hnew
        · exact (h.resolved entry hold).imp_right fun hresolved => hresolved.more grows
        · rw [List.mem_singleton] at hnew
          subst hnew
          exact .inr ⟨s.flagged, _, h.grows, grows, hinput, rfl, answers⟩
      · show pending.length - s.i + 1 = s.pending.length - s.i
        omega
  | @settled st' exhausted fruitless exhausts =>
      have forget_eq := fruitless.forget_eq
      have hid : st'.signingId = s.pending[s.i].signingId :=
        InputSigningState.signingId_of_forget forget_eq
      have hpeers : st'.peersRemaining = s.pending[s.i].peersRemaining :=
        InputSigningState.peersRemaining_of_forget forget_eq
      have htake : (s.pending.set s.i st').take (s.i + 1) = s.pending.take s.i ++ [st'] := by
        rw [List.take_add_one, List.take_set_of_le (le_refl _), List.getElem?_set_self hlt]
        rfl
      have hids : accounted (s.pending.set s.i st') s.sent = accounted s.pending s.sent := by
        have hlt' : s.i < (s.pending.map InputSigningState.signingId).length := by
          rwa [List.length_map]
        rw [accounted, List.map_set, hid, ← List.getElem_map InputSigningState.signingId (h := hlt'),
          List.set_getElem_self hlt', accounted]
      obtain ⟨st₀, hst₀, hattempted⟩ := h.inputs _ (List.getElem_mem hlt)
      refine ⟨⟨?_, hids ▸ h.accounts, h.grows, ?_, ?_, h.same, ?_, ?_, ?_, ?_, h.resolved⟩, ?_⟩
      · show s.i + 1 ≤ (s.pending.set s.i st').length
        rw [List.length_set]
        omega
      · intro st hst
        rcases List.mem_or_eq_of_mem_set hst with hold | rfl
        · exact h.inputs st hold
        · exact ⟨st₀, hst₀, hattempted.tail ⟨s.flagged, h.grows, Finset.Subset.refl _, fruitless⟩⟩
      · show (s.pending.set s.i st').length ≤ start.pending.length
        rw [List.length_set]
        exact h.length_le
      · intro hgrew
        show (s.pending.set s.i st').length < start.pending.length
        rw [List.length_set]
        exact h.grew hgrew
      · intro hgrew st hst
        rw [htake, List.mem_append, List.mem_singleton] at hst
        rcases hst with hold | rfl
        · exact h.settled hgrew st hold
        · refine ⟨_, h.found _ ?_, h.same hgrew ▸ fruitless⟩
          rw [← List.cons_getElem_drop_succ (h := hlt)]
          exact List.mem_cons_self
      · show ∀ st ∈ (s.pending.set s.i st').drop (s.i + 1), _
        rw [List.drop_set_of_lt (Nat.lt_succ_self _)]
        exact fun st hst => h.found st (List.drop_subset_drop_left _ (Nat.le_succ _) hst)
      · intro id hmem
        rw [htake]
        rcases exhausts with rfl | ⟨rfl, hnone⟩
        · obtain ⟨st, hst, hrest⟩ := h.exhausted id hmem
          exact ⟨st, List.mem_append_left _ hst, hrest⟩
        · rcases List.mem_append.mp hmem with hold | hnew
          · obtain ⟨st, hst, hrest⟩ := h.exhausted id hold
            exact ⟨st, List.mem_append_left _ hst, hrest⟩
          · rw [List.mem_singleton] at hnew
            exact ⟨st', by simp, hid.trans hnew.symm, hpeers.trans hnone⟩
      · show (s.pending.set s.i st').length - (s.i + 1) + 1 = s.pending.length - s.i
        rw [List.length_set]
        omega

theorem pass (start : SweepStart S G Sig) :
    PassInv start start.pass ∧ start.pass.i = start.pass.pending.length := by
  have hrounds : ∀ n (s : Sweep S G Sig), PassInv start s → s.pending.length - s.i = n →
      let out := (Sweep.round start.aggregation start.config)^[n] s
      PassInv start out ∧ out.i = out.pending.length := by
    intro n
    induction n with
    | zero =>
        intro s hs hn
        have hle := hs.index_le
        exact ⟨hs, by rw [Function.iterate_zero_apply]; omega⟩
    | succ n ih =>
        intro s hs hn
        have hlt : s.i < s.pending.length := by omega
        have hst := List.getElem?_eq_getElem hlt
        obtain ⟨hs', hn'⟩ := hs.step hst (Sweep.round_effect hst)
        rw [Function.iterate_succ_apply]
        exact ih _ hs' (by omega)
  exact hrounds _ _ init rfl

end PassInv

/-! ## Sweeps -/

/-- The sweep from a start, with fuel. -/
def SweepStart.run (start : SweepStart S G Sig) (fuel : Nat) : Option (SweepResult S G Sig) :=
  finalizeSweep start.aggregation start.config fuel start.pending start.flagged start.sent

variable {fuel : Nat} {out : SweepResult S G Sig}

theorem SweepStart.run_inputs (h : start.run fuel = some out) :
    start.flagged ⊆ out.flagged ∧ ∀ st ∈ out.pending, start.Reached out.flagged st := by
  induction fuel generalizing start with
  | zero => cases h
  | succ fuel ih =>
      obtain ⟨hpass, -⟩ := PassInv.pass start
      rw [run, finalizeSweep] at h
      cases hgrew : start.pass.grew with
      | false =>
          rw [pass] at hgrew
          simp only [hgrew] at h
          cases h
          exact ⟨hpass.grows, fun st hst => hpass.inputs st (List.mem_of_mem_filter hst)⟩
      | true =>
          rw [pass] at hgrew
          simp only [hgrew] at h
          have hrest : (start.after start.pass).run fuel = some out := h
          obtain ⟨hgrows, hinputs⟩ := ih hrest
          exact ⟨hpass.grows.trans hgrows, fun st hst =>
            (hinputs st hst).earlier hpass.inputs hpass.grows hgrows⟩

structure SweepSettles (start : SweepStart S G Sig) (out : SweepResult S G Sig) : Prop where
  accounts : (accounted out.pending out.sent).Perm (accounted start.pending start.sent)
  nothing_due : ∀ st ∈ out.pending, start.Settled out.flagged st
  sent : ∀ entry ∈ out.sent, entry ∈ start.sent ∨ start.Resolved out.flagged entry ∨
    TooManyInvalid entry.2 ∧ start.Exhausted out.flagged entry.1

theorem PassInv.conclude (hgrew : start.pass.grew = false)
    (hnodup : (accounted start.pending start.sent).Nodup) :
    SweepSettles start (start.pass.conclude start.config) := by
  obtain ⟨h, hend⟩ := pass start
  generalize hs : start.pass = s at *
  have htake : s.pending.take s.i = s.pending := by rw [hend, List.take_length]
  have hsettled : ∀ st ∈ s.pending, start.Settled s.flagged st := by
    intro st hst
    rw [h.same hgrew]
    obtain ⟨prev, hprev, hfruitless⟩ := h.settled hgrew st (htake.symm ▸ hst)
    exact ⟨prev, ⟨⟨prev, hprev, .refl⟩, start, .here (hs ▸ hgrew), hprev⟩, hfruitless⟩
  have hids : (s.pending.map InputSigningState.signingId).Nodup :=
    (List.nodup_append.mp (h.accounts.nodup_iff.mpr hnodup)).1
  constructor
  case accounts =>
    refine List.Perm.trans ?_ h.accounts
    have hsplit := (List.filter_append_perm (fun st => decide (st.signingId ∈ s.exhausted))
      s.pending).map InputSigningState.signingId
    rw [List.map_append] at hsplit
    simp only [accounted, Sweep.conclude, List.map_append, List.map_map]
    refine List.Perm.trans ?_ (hsplit.append_right _)
    have hneg : s.pending.filter (fun st => !decide (st.signingId ∈ s.exhausted)) =
        s.pending.filter fun st => decide (st.signingId ∉ s.exhausted) :=
      List.filter_congr fun st _ => (decide_not).symm
    rw [hneg, ← List.append_assoc]
    refine List.perm_append_comm.trans ?_
    rw [← List.append_assoc]
    exact List.Perm.refl _
  case nothing_due => exact fun st hst => hsettled st (List.mem_of_mem_filter hst)
  case sent =>
    intro entry hentry
    rcases List.mem_append.mp hentry with hold | hnew
    · exact (h.resolved entry hold).imp_right .inl
    · obtain ⟨st, hst, rfl⟩ := List.mem_map.mp hnew
      obtain ⟨hmem, hexhausted⟩ := List.mem_filter.mp hst
      obtain ⟨other, hother, hid, hpeers⟩ := h.exhausted _ (of_decide_eq_true hexhausted)
      rw [htake] at hother
      obtain rfl := List.inj_on_of_nodup_map hids hother hmem hid
      -- the call that left this state is the one of the last pass
      obtain ⟨prev, hprev, hfruitless⟩ := hsettled other hmem
      have hnone : prev.peersRemaining = ∅ := by
        rw [← InputSigningState.peersRemaining_of_forget hfruitless.forget_eq]
        exact hpeers
      refine .inr (.inr ⟨⟨_, _, rfl⟩, prev, hprev,
        (InputSigningState.signingId_of_forget hfruitless.forget_eq).symm, hnone, ?_⟩)
      show (start.attempt s.flagged prev).1 = .exhausted
      rw [hfruitless, if_pos hnone]

theorem SweepStart.run_settles (start : SweepStart S G Sig) (hfuel : start.pending.length < fuel)
    (hnodup : (accounted start.pending start.sent).Nodup) :
    ∃ out, start.run fuel = some out ∧ SweepSettles start out := by
  induction fuel generalizing start with
  | zero => omega
  | succ fuel ih =>
      obtain ⟨hpass, -⟩ := PassInv.pass start
      rw [run, finalizeSweep]
      cases hgrew : start.pass.grew with
      | false => exact ⟨_, if_neg (Bool.eq_false_iff.mp hgrew), PassInv.conclude hgrew hnodup⟩
      | true =>
          have hlt := hpass.grew hgrew
          obtain ⟨out, hout, hsettles⟩ := ih (start.after start.pass)
            (by simp only [after]; omega) (hpass.accounts.nodup_iff.mpr hnodup)
          have hgrows := (run_inputs hout).1
          have hfound : ∀ {st}, (start.after start.pass).Found out.flagged st →
              start.Found out.flagged st := by
            rintro st ⟨hreached, last, hlast, hst⟩
            exact ⟨hreached.earlier hpass.inputs hpass.grows hgrows, last, .later hgrew hlast, hst⟩
          refine ⟨out, (if_pos hgrew).trans hout, hsettles.accounts.trans hpass.accounts,
            fun st hst => ?_, fun entry hentry => ?_⟩
          · obtain ⟨prev, hprev, hfruitless⟩ := hsettles.nothing_due st hst
            exact ⟨prev, hfound hprev, hfruitless⟩
          · rcases hsettles.sent entry hentry with hold | ⟨f, st, hge, hle, hst, hanswers⟩ |
              ⟨htoo, st, hst, hexhausted⟩
            · exact (hpass.resolved entry hold).imp_right fun h => .inl (h.more hgrows)
            · exact .inr (.inl ⟨f, st, hpass.grows.trans hge, hle,
                hst.earlier hpass.inputs hpass.grows hge, hanswers⟩)
            · exact .inr (.inr ⟨htoo, st, hfound hst, hexhausted⟩)

/-- The sweep ends. Every result it sends is that of a call on the input as the calls before had left
it, and the last call on every other input was made with the final flags. -/
theorem finalizeSweep_fixpoint (aggregation : Aggregation S G Sig) (config : SigningEpochConfig G)
    (pending : List (InputSigningState S G))
    (hids : (pending.map InputSigningState.signingId).Nodup) (flagged : Finset Nat) (fuel : Nat)
    (hfuel : pending.length < fuel) :
    let start : SweepStart S G Sig := ⟨aggregation, config, pending, flagged, []⟩
    ∃ out, finalizeSweep aggregation config fuel pending flagged [] = some out ∧
      (out.sent.map Prod.fst).Nodup ∧
      (∀ id, id ∈ pending.map InputSigningState.signingId ↔
        id ∈ out.pending.map InputSigningState.signingId ∨ id ∈ out.sent.map Prod.fst) ∧
      (out.pending.map InputSigningState.signingId).Disjoint (out.sent.map Prod.fst) ∧
      (∀ st ∈ out.pending, ∃ st₀ ∈ pending, st.forget = st₀.forget) ∧
      (∀ st ∈ out.pending, start.Settled out.flagged st) ∧
      (∀ st ∈ out.pending, ∀ peersExhausted sig blame,
        (tryFinalizeSignature aggregation config.threshold config.verifyingKey peersExhausted
          out.flagged st).1 ≠ .done sig blame) ∧
      (∀ entry ∈ out.sent, ¬ TooManyInvalid entry.2 → start.Resolved out.flagged entry) ∧
      ∀ id collected threshold,
        (id, .error (.tooManyInvalidSignatures collected threshold)) ∈ out.sent →
        start.Exhausted out.flagged id := by
  intro start
  have hnodup : (accounted pending ([] : List (Address × Except SigningError Sig))).Nodup := by
    rwa [accounted, List.map_nil, List.append_nil]
  obtain ⟨out, hout, hsettles⟩ := start.run_settles hfuel hnodup
  have haccounts := hsettles.accounts
  have hparts := List.nodup_append'.mp (haccounts.nodup_iff.mpr hnodup)
  rw [accounted, accounted, List.map_nil, List.append_nil] at haccounts
  refine ⟨out, hout, hparts.2.1, fun id => ?_, hparts.2.2, fun st hst => ?_, hsettles.nothing_due,
    ?_, fun entry hentry hfit => ?_, ?_⟩
  · rw [← haccounts.mem_iff, List.mem_append]
  · obtain ⟨st₀, hst₀, hattempted⟩ := (SweepStart.run_inputs hout).2 st hst
    exact ⟨st₀, hst₀, hattempted.forget_eq⟩
  · intro st hst peersExhausted sig blame hdone
    obtain ⟨prev, -, hfruitless⟩ := hsettles.nothing_due st hst
    rw [hfruitless.call peersExhausted] at hdone
    cases peersExhausted <;> cases hdone
  · rcases hsettles.sent entry hentry with hnil | hresolved | ⟨htoo, -⟩
    · cases hnil
    · exact hresolved
    · exact absurd htoo hfit
  · intro id collected threshold hentry
    rcases hsettles.sent _ hentry with hnil | ⟨_, _, -, -, -, -, hanswers⟩ | ⟨-, hexhausted⟩
    · cases hnil
    · exact absurd ⟨collected, threshold, rfl⟩ hanswers.fit
    · exact hexhausted

namespace Sample

def threeShares : SigningEpochConfig Unit :=
  { address := 10, threshold := 2, verifyingKey := (),
    shareOwners := Finmap.insert 1 10 (Finmap.insert 2 11 (Finmap.singleton 3 12)) }

/-- Aggregation that needs every partial to be right, and blames share 3. -/
def allRight : Aggregation Bool Unit Unit := fun _ sigs =>
  if ∀ e ∈ sigs, e.value then .ok ((), .certain [3]) else .error .invalidSignature

def heldBack (signingId : Address) (third second : Bool) : InputSigningState Bool Unit :=
  .new signingId [] () false [] none [⟨3, third⟩, ⟨1, true⟩, ⟨2, second⟩] 2 ∅

end Sample

/-- The first input fails until the second one gets share 3 flagged, and the third one has another
wrong partial. -/
theorem finalizeSweep_fixpoint_heldBack :
    let pending := [Sample.heldBack 1 false true, Sample.heldBack 2 true true,
      Sample.heldBack 3 false false]
    let start : SweepStart Bool Unit Unit := ⟨Sample.allRight, Sample.threeShares, pending, ∅, []⟩
    ∃ out, start.run 4 = some out ∧
      out.sent = [(2, .ok ()), (1, .ok ()), (3, .error (.tooManyInvalidSignatures 3 2))] ∧
      start.Resolved out.flagged (1, .ok ()) ∧ start.Exhausted out.flagged 3 := by
  intro pending start
  obtain ⟨out, hout, -, -, -, -, -, -, hresolved, hexhausted⟩ :=
    finalizeSweep_fixpoint Sample.allRight Sample.threeShares pending (by decide) ∅ 4 (by decide)
  have hsent : out.sent =
      [(2, .ok ()), (1, .ok ()), (3, .error (.tooManyInvalidSignatures 3 2))] := by
    have hrun : (start.run 4).map SweepResult.sent =
        some [(2, .ok ()), (1, .ok ()), (3, .error (.tooManyInvalidSignatures 3 2))] := by
      decide +kernel
    rw [SweepStart.run, hout] at hrun
    exact Option.some.inj hrun
  refine ⟨out, hout, hsent, hresolved _ (by simp [hsent]) ?_, hexhausted 3 3 2 (by simp [hsent])⟩
  rintro ⟨collected, threshold, h⟩
  cases h

end HashiBridge.Mpc
