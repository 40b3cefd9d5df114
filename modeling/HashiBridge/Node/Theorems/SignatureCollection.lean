import HashiBridge.Node.SignatureCollection
import HashiBridge.Node.Theorems.Aggregator

/-!
# Collection stops only when it must

With one reply for each member, the weights of the members that give a usable signature and of those
that refuse are disjoint parts of the committee's weight.
-/

namespace HashiBridge.Node

open Lib HashiBridge.Core

variable {T G : Type}

/-- One reply for each member, by index; `none` is a task that was cut off. A signature names the member
that sends it. -/
structure Replies (c : Core.Committee) (G : Type) where
  reply : Nat → Option (Except NoSignature (MemberSignature G))
  named : ∀ (i : Nat) m signature, c.members[i]? = some m → reply i = some (.ok signature) →
    signature.address = m.validatorAddress

namespace Replies

variable {c : Core.Committee}

def taskResult (self : Replies c G) (i : Nat) : TaskResult G :=
  (self.reply i).map fun reply => (weightAt Core.CommitteeMember.weight c.members i, reply)

/-- The member sends a valid signature at the committee's epoch. -/
def usable (bls : Bls G) (message : Bytes) (self : Replies c G) (i : Nat) : Bool :=
  match self.reply i, c.members[i]? with
  | some (.ok signature), some m =>
      signature.epoch = c.epoch && bls.verify m.publicKey message signature.signature
  | _, _ => false

def refuses (self : Replies c G) (i : Nat) : Bool :=
  match self.reply i with
  | some (.error .alreadyApproved) => true
  | _ => false

def ahead (self : Replies c G) (i : Nat) : Bool :=
  match self.reply i with
  | some (.ok signature) => c.epoch < signature.epoch
  | _ => false

end Replies

/-! ## Weights -/

def weightWhere (c : Core.Committee) (p : Nat → Bool) (indices : List Nat) : Nat :=
  c.weightOf (indices.filter p).toFinset

section Weights

variable {c : Core.Committee} {p q : Nat → Bool} {indices : List Nat} {j : Nat}

theorem weightWhere_snoc_of_not (h : p j = false) :
    weightWhere c p (indices ++ [j]) = weightWhere c p indices := by
  rw [weightWhere, List.filter_append, List.filter_singleton, h, cond_false, List.append_nil,
    weightWhere]

theorem weightWhere_snoc (hnew : j ∉ indices) (h : p j = true) :
    weightWhere c p (indices ++ [j]) =
      weightWhere c p indices + weightAt Core.CommitteeMember.weight c.members j := by
  have hfresh : j ∉ (indices.filter p).toFinset := fun hmem =>
    hnew (List.mem_of_mem_filter (List.mem_toFinset.mp hmem))
  rw [weightWhere, List.filter_append, List.filter_singleton, h, cond_true, List.toFinset_append,
    List.toFinset_cons, List.toFinset_nil, Finset.union_comm, Finset.insert_union, Finset.empty_union,
    Core.Committee.weightOf, weightOf, Finset.sum_insert hfresh, Nat.add_comm]
  rfl

theorem weightWhere_le (c : Core.Committee) (p : Nat → Bool) (indices : List Nat) :
    weightWhere c p indices ≤ c.totalWeight := by
  rw [c.total_eq, weightWhere, Core.Committee.weightOf]
  exact weightOf_le_total _

theorem weightWhere_mono {all : List Nat} (h : ∀ i ∈ indices, i ∈ all) :
    weightWhere c p indices ≤ weightWhere c p all := by
  rw [weightWhere, weightWhere, Core.Committee.weightOf, Core.Committee.weightOf]
  refine weightOf_mono fun i hi => ?_
  rw [List.mem_toFinset, List.mem_filter] at hi ⊢
  exact ⟨h i hi.1, hi.2⟩

theorem weightWhere_add_le {all : List Nat} (h : ∀ i ∈ indices, p i = true → q i = false) :
    weightWhere c p indices + weightWhere c q all ≤ c.totalWeight := by
  have hdisjoint : (indices.filter p).toFinset ∩ (all.filter q).toFinset = ∅ := by
    refine Finset.eq_empty_of_forall_notMem fun i hi => ?_
    simp only [Finset.mem_inter, List.mem_toFinset, List.mem_filter] at hi
    obtain ⟨⟨hmem, hp⟩, -, hq⟩ := hi
    rw [h i hmem hp] at hq
    cases hq
  have hadd : weightWhere c p indices + weightWhere c q all ≤ weightSum c.members +
      c.weightOf ((indices.filter p).toFinset ∩ (all.filter q).toFinset) := by
    simp only [weightWhere, Core.Committee.weightOf]
    exact weight_add_le _ _
  rw [hdisjoint, ← c.total_eq] at hadd
  exact hadd

end Weights

section Collection

variable {bls : Bls G} {intent : Nat} {toBytes : T → Bytes} {c : Core.Committee}
  {hashiId : Address} {message : T} {replies : Replies c G}

/-! ## Verdicts -/

/-- Why the loop gave up, in terms of the members heard: a refusal outweighs the slack. -/
def GivesUp (replies : Replies c G) (quorumSlack : Nat) (heard : List Nat) : NoQuorum → Prop
  | .alreadyApproved => quorumSlack < weightWhere c replies.refuses heard
  | .staleCommittee .. => quorumSlack < weightWhere c replies.ahead heard
  | .short .. => False

def Verdict (bls : Bls G) (message : Bytes) (replies : Replies c G) (requiredWeight quorumSlack : Nat)
    (heard : List Nat) (complete : Prop) : Except NoQuorum Unit → Prop
  | .ok () => requiredWeight ≤ weightWhere c (replies.usable bls message) heard
  | .error (.short _ _) =>
      weightWhere c (replies.usable bls message) heard < requiredWeight ∧ complete
  | .error noQuorum => GivesUp replies quorumSlack heard noQuorum

theorem Verdict.after {message : Bytes} {requiredWeight quorumSlack j k : Nat} {done todo : List Nat}
    {result : Except NoQuorum Unit} (h : Verdict bls message replies requiredWeight quorumSlack
      (done ++ [j] ++ todo.take k) (k = todo.length) result) :
    Verdict bls message replies requiredWeight quorumSlack (done ++ (j :: todo).take (k + 1))
      (k + 1 = (j :: todo).length) result := by
  rw [List.take_succ_cons, List.length_cons, Nat.succ_inj, List.append_cons]
  exact h

theorem GivesUp.unreachable {other : Replies c G} {message : Bytes} {heard order : List Nat}
    {requiredWeight : Nat} {noQuorum : NoQuorum}
    (h : GivesUp replies (c.totalWeight - requiredWeight) heard noQuorum)
    (hsame : ∀ i ∈ heard, other.reply i = replies.reply i) :
    weightWhere c (other.usable bls message) order < requiredWeight := by
  -- a member that gives one of the two refusals gives no usable signature
  have hless {p : Nat → Bool} (hp : c.totalWeight - requiredWeight < weightWhere c p heard)
      (hrefuses : ∀ i ∈ heard, p i = true → other.usable bls message i = false) :
      weightWhere c (other.usable bls message) order < requiredWeight := by
    have hadd : weightWhere c p heard + weightWhere c (other.usable bls message) order ≤ c.totalWeight :=
      weightWhere_add_le hrefuses
    omega
  cases noQuorum with
  | alreadyApproved =>
      refine hless h fun i hi hrefuses => ?_
      rw [Replies.usable, hsame i hi]
      rw [Replies.refuses] at hrefuses
      split at hrefuses
      next hreply => rw [hreply]
      next => cases hrefuses
  | staleCommittee epoch peerEpoch =>
      refine hless h fun i hi hahead => ?_
      rw [Replies.usable, hsame i hi]
      rw [Replies.ahead] at hahead
      split at hahead
      next signature hreply =>
        rw [hreply]
        cases c.members[i]? with
        | none => rfl
        | some m => simp only [decide_eq_false (Nat.ne_of_gt (of_decide_eq_true hahead)), Bool.false_and]
      next => cases hahead
  | short weight required => exact h.elim

/-! ## The loop -/

variable [AddCommMonoid G]

structure Heard (bls : Bls G) (intent : Nat) (toBytes : T → Bytes) (c : Core.Committee)
    (hashiId : Address) (message : T) (replies : Replies c G) (done : List Nat)
    (state : Collecting T G) : Prop where
  stands : ∃ accepted, StandsFor bls intent toBytes c hashiId message accepted state.aggregator
  signers : state.aggregator.bitmap.iter.toFinset = (done.filter (replies.usable bls
    (signingMessage intent hashiId c.epoch (toBytes message)))).toFinset
  refused : state.alreadyApprovedWeight = weightWhere c replies.refuses done
  ahead : state.newerEpochWeight = weightWhere c replies.ahead done

namespace Heard

variable {state : Collecting T G} {done : List Nat}
  (h : Heard bls intent toBytes c hashiId message replies done state)

include h

theorem weight_eq : state.aggregator.weight = weightWhere c (replies.usable bls
      (signingMessage intent hashiId c.epoch (toBytes message))) done := by
  obtain ⟨accepted, hstands⟩ := h.stands
  rw [BlsSignatureAggregator.weight, hstands.signed, h.signers, weightWhere]

theorem skip {j : Nat} (husable : replies.usable bls (signingMessage intent hashiId c.epoch (toBytes message)) j = false)
    (hrefuses : replies.refuses j = false) (hahead : replies.ahead j = false) :
    Heard bls intent toBytes c hashiId message replies (done ++ [j]) state where
  stands := h.stands
  signers := by
    rw [h.signers, List.filter_append, List.filter_singleton, husable, cond_false, List.append_nil]
  refused := by rw [h.refused, weightWhere_snoc_of_not hrefuses]
  ahead := by rw [h.ahead, weightWhere_snoc_of_not hahead]

variable (hdistinct : (c.members.map Core.CommitteeMember.validatorAddress).Nodup)

include hdistinct

theorem add {j : Nat} {signature : MemberSignature G} (hnew : j ∉ done)
    (hlt : j < c.nMembers) (hreply : replies.reply j = some (.ok signature))
    (hepoch : ¬ c.epoch < signature.epoch) :
    Heard bls intent toBytes c hashiId message replies (done ++ [j])
      { state with aggregator := (state.aggregator.addSignature bls intent toBytes signature).2 } := by
  obtain ⟨accepted, hstands⟩ := h.stands
  obtain ⟨m, hm⟩ : ∃ m, c.members[j]? = some m := ⟨_, List.getElem?_eq_getElem hlt⟩
  have haddress := replies.named j m signature hm hreply
  have hindex : (Committee.fromMove c).indexOf signature.address = some j :=
    (indexOf_fromMove hdistinct).mpr ⟨m, hm, haddress.symm⟩
  have hmember : (Committee.fromMove c).members[j]? = some (.fromMove m) :=
    members_fromMove_getElem?.mpr ⟨m, hm, rfl⟩
  have hunsigned : j ∉ state.aggregator.bitmap.iter := by
    rw [← List.mem_toFinset, h.signers, List.mem_toFinset]
    exact fun hmem => hnew (List.mem_of_mem_filter hmem)
  have hrefuses : replies.refuses j = false := by rw [Replies.refuses, hreply]
  have hahead : replies.ahead j = false := by
    rw [Replies.ahead, hreply]
    exact decide_eq_false hepoch
  have husable : replies.usable bls (signingMessage intent hashiId c.epoch (toBytes message)) j =
      (decide (signature.epoch = c.epoch) && bls.verify m.publicKey
        (signingMessage intent hashiId c.epoch (toBytes message)) signature.signature) := by
    rw [Replies.usable, hreply, hm]
  rcases state.aggregator.addSignature_cases bls intent toBytes signature with
    ⟨error, heq⟩ | ⟨index, member, htakes, heq⟩
  · -- a rejected signature is not usable
    have hnot : replies.usable bls (signingMessage intent hashiId c.epoch (toBytes message)) j =
        false := by
      rw [husable, Bool.eq_false_iff]
      intro hboth
      obtain ⟨hsame, hvalid⟩ := Bool.and_eq_true_iff.mp hboth
      have haccepts : (state.aggregator.addSignature bls intent toBytes signature).1 = .ok () := by
        rw [← hstands.committee_eq] at hindex hmember
        refine BlsSignatureAggregator.Takes.accepted ⟨hindex, hmember, ?_, ?_, hunsigned⟩
        · rw [hstands.committee_eq, of_decide_eq_true hsame]
          rfl
        · rw [hstands.hashiId_eq, hstands.message_eq, of_decide_eq_true hsame]
          exact hvalid
      rw [heq] at haccepts
      cases haccepts
    rw [heq]
    exact h.skip hnot hrefuses hahead
  · have hnext := hstands.accept hdistinct htakes
    obtain ⟨hindex', hmember', hepoch', hvalid, -⟩ := htakes
    rw [hstands.committee_eq] at hindex' hmember' hepoch'
    rw [hstands.hashiId_eq, hstands.message_eq, ← hepoch'] at hvalid
    obtain rfl := Option.some.inj (hindex.symm.trans hindex')
    obtain rfl := Option.some.inj (hmember.symm.trans hmember')
    have hyes : replies.usable bls (signingMessage intent hashiId c.epoch (toBytes message)) j =
        true := by
      rw [husable]
      exact Bool.and_eq_true_iff.mpr ⟨decide_eq_true hepoch'.symm, hvalid⟩
    rw [heq]
    refine ⟨⟨_, hnext⟩, ?_, ?_, ?_⟩
    · rw [List.filter_append, List.filter_singleton, hyes, cond_true, List.toFinset_append, ← h.signers]
      ext i
      simp only [BlsSignatureAggregator.added, List.mem_toFinset, BitMap.mem_insert, Finset.mem_union,
        List.mem_singleton]
      exact or_comm
    · rw [h.refused, weightWhere_snoc_of_not hrefuses]
    · rw [h.ahead, weightWhere_snoc_of_not hahead]

theorem take {j : Nat} (quorumSlack : Nat) {reply : Except NoSignature (MemberSignature G)}
    (hnew : j ∉ done) (hlt : j < c.nMembers) (hreply : replies.reply j = some reply) :
    (∃ next, state.take bls intent toBytes quorumSlack
        (weightAt Core.CommitteeMember.weight c.members j, reply) = .ok next ∧
      Heard bls intent toBytes c hashiId message replies (done ++ [j]) next) ∨
    ∃ noQuorum, state.take bls intent toBytes quorumSlack
        (weightAt Core.CommitteeMember.weight c.members j, reply) = .error noQuorum ∧
      replies.usable bls (signingMessage intent hashiId c.epoch (toBytes message)) j = false ∧
      GivesUp replies quorumSlack (done ++ [j]) noQuorum := by
  have hepoch : state.aggregator.epoch = c.epoch := by
    obtain ⟨accepted, hstands⟩ := h.stands
    rw [BlsSignatureAggregator.epoch, hstands.committee_eq]
    rfl
  cases reply with
  | ok signature =>
      rw [Collecting.take, hepoch]
      by_cases hnewer : c.epoch < signature.epoch
      · have hahead : replies.ahead j = true := by
          rw [Replies.ahead, hreply]
          exact decide_eq_true hnewer
        have hweight : wrapU64 (state.newerEpochWeight +
            weightAt Core.CommitteeMember.weight c.members j) =
            weightWhere c replies.ahead (done ++ [j]) := by
          rw [h.ahead, ← weightWhere_snoc hnew hahead]
          exact wrapU64_of_lt (Nat.lt_of_le_of_lt (weightWhere_le _ _ _) c.total_lt)
        have husable : replies.usable bls
            (signingMessage intent hashiId c.epoch (toBytes message)) j = false := by
          rw [Replies.usable, hreply]
          cases c.members[j]? with
          | none => rfl
          | some m => simp only [decide_eq_false (Nat.ne_of_gt hnewer), Bool.false_and]
        rw [if_pos hnewer, hweight]
        by_cases hslack : weightWhere c replies.ahead (done ++ [j]) ≤ quorumSlack
        · refine Or.inl ⟨_, bind_eq_ok.mpr ⟨(), require_pos hslack, rfl⟩, h.stands, ?_, ?_, rfl⟩
          · rw [h.signers, List.filter_append, List.filter_singleton, husable, cond_false,
              List.append_nil]
          · rw [h.refused, weightWhere_snoc_of_not]
            rw [Replies.refuses, hreply]
        · exact Or.inr ⟨_, bind_eq_error.mpr (Or.inl (require_eq_error.mpr ⟨hslack, rfl⟩)), husable,
            Nat.lt_of_not_le hslack⟩
      · rw [if_neg hnewer]
        exact Or.inl ⟨_, rfl, h.add hdistinct hnew hlt hreply hnewer⟩
  | error noSignature =>
      have husable : replies.usable bls
          (signingMessage intent hashiId c.epoch (toBytes message)) j = false := by
        rw [Replies.usable, hreply]
      have hahead : replies.ahead j = false := by rw [Replies.ahead, hreply]
      cases noSignature with
      | alreadyApproved =>
          have hrefuses : replies.refuses j = true := by rw [Replies.refuses, hreply]
          have hweight : wrapU64 (state.alreadyApprovedWeight +
              weightAt Core.CommitteeMember.weight c.members j) =
              weightWhere c replies.refuses (done ++ [j]) := by
            rw [h.refused, ← weightWhere_snoc hnew hrefuses]
            exact wrapU64_of_lt (Nat.lt_of_le_of_lt (weightWhere_le _ _ _) c.total_lt)
          rw [Collecting.take, hweight]
          by_cases hslack : weightWhere c replies.refuses (done ++ [j]) ≤ quorumSlack
          · refine Or.inl ⟨_, bind_eq_ok.mpr ⟨(), require_pos hslack, rfl⟩, h.stands, ?_, rfl, ?_⟩
            · rw [h.signers, List.filter_append, List.filter_singleton, husable, cond_false,
                List.append_nil]
            · rw [h.ahead, weightWhere_snoc_of_not hahead]
          · exact Or.inr ⟨_, bind_eq_error.mpr (Or.inl (require_eq_error.mpr ⟨hslack, rfl⟩)), husable,
              Nat.lt_of_not_le hslack⟩
      | failed =>
          refine Or.inl ⟨state, rfl, h.skip husable ?_ hahead⟩
          rw [Replies.refuses, hreply]

theorem run (requiredWeight quorumSlack : Nat) {todo : List Nat}
    (hnodup : (done ++ todo).Nodup) (hlt : ∀ j ∈ todo, j < c.nMembers) :
    let collected := state.run bls intent toBytes requiredWeight quorumSlack
      (todo.map replies.taskResult)
    collected.aggregator.weight = weightWhere c (replies.usable bls
      (signingMessage intent hashiId c.epoch (toBytes message))) (done ++ todo.take collected.consumed) ∧
    Verdict bls (signingMessage intent hashiId c.epoch (toBytes message)) replies requiredWeight
      quorumSlack (done ++ todo.take collected.consumed) (collected.consumed = todo.length)
      collected.result := by
  induction todo generalizing done state with
  | nil =>
      simp only [List.map_nil, Collecting.run, h.weight_eq, List.take_nil, List.append_nil, true_and]
      split
      next hshort => exact ⟨hshort, rfl⟩
      next hquorum => exact Nat.not_lt.mp hquorum
  | cons j todo ih =>
      have hnew : j ∉ done := fun hmem =>
        (List.nodup_append.mp hnodup).2.2 j hmem j List.mem_cons_self rfl
      have hrest : (done ++ [j] ++ todo).Nodup := by
        rw [← List.append_cons]
        exact hnodup
      have hlater : ∀ i ∈ todo, i < c.nMembers := fun i hi => hlt i (List.mem_cons_of_mem _ hi)
      rw [List.map_cons]
      cases hreply : replies.reply j with
      | none =>
          have hskip : Heard bls intent toBytes c hashiId message replies (done ++ [j]) state := by
            refine h.skip ?_ ?_ ?_
            · rw [Replies.usable, hreply]
            · rw [Replies.refuses, hreply]
            · rw [Replies.ahead, hreply]
          obtain ⟨hweight, hverdict⟩ := ih hskip hrest hlater
          rw [Replies.taskResult, hreply, Option.map_none, Collecting.run]
          exact ⟨by rw [Collected.after, List.take_succ_cons, List.append_cons]; exact hweight,
            hverdict.after⟩
      | some reply =>
          rw [Replies.taskResult, hreply, Option.map_some, Collecting.run]
          rcases h.take hdistinct quorumSlack hnew (hlt j List.mem_cons_self) hreply with
            ⟨next, htake, hnext⟩ | ⟨noQuorum, htake, husable, hgives⟩
          · simp only [htake]
            split
            next hquorum =>
              rw [hnext.weight_eq] at hquorum
              exact ⟨hnext.weight_eq, hquorum⟩
            next =>
              obtain ⟨hweight, hverdict⟩ := ih hnext hrest hlater
              exact ⟨by rw [Collected.after, List.take_succ_cons, List.append_cons]; exact hweight,
                hverdict.after⟩
          · simp only [htake]
            refine ⟨h.weight_eq.trans (weightWhere_snoc_of_not husable).symm, ?_⟩
            cases noQuorum with
            | alreadyApproved => exact hgives
            | staleCommittee epoch peerEpoch => exact hgives
            | short weight required => exact hgives.elim

end Heard

theorem heard_new : Heard bls intent toBytes c hashiId message replies []
    ⟨.new hashiId (.fromMove c) message, 0, 0⟩ where
  stands := ⟨[], standsFor_new⟩
  signers := rfl
  refused := rfl
  ahead := rfl

end Collection

/-- For every committee with distinct addresses, every reply of each member and every order of arrival:
the collection succeeds just when the replies it took have accepted signatures of the threshold's
weight; it reports a refusal only when the threshold is out of reach, whatever the members that were not
heard reply; and it succeeds in every order if all replies together have that weight. -/
theorem collection_stops_only_when_it_must [AddCommMonoid G] (bls : Bls G) (intent : Nat)
    (toBytes : T → Bytes) (c : Core.Committee)
    (hdistinct : (c.members.map Core.CommitteeMember.validatorAddress).Nodup) (hashiId : Address)
    (message : T) (replies : Replies c G) (order : List Nat)
    (horder : order.Perm (List.range c.nMembers)) :
    let bytes := signingMessage intent hashiId c.epoch (toBytes message)
    let threshold := certificateThreshold (Committee.fromMove c).totalWeight
    let collected := collectSignatures bls intent toBytes (order.map replies.taskResult)
      (.new hashiId (.fromMove c) message) (Committee.fromMove c).totalWeight
    let heard := order.take collected.consumed
    collected.aggregator.weight = weightWhere c (replies.usable bls bytes) heard ∧
    (collected.result = .ok () ↔ threshold ≤ weightWhere c (replies.usable bls bytes) heard) ∧
    (collected.result = .error .alreadyApproved ∨
        (∃ epoch peerEpoch, collected.result = .error (.staleCommittee epoch peerEpoch)) →
      ∀ other : Replies c G, (∀ i ∈ heard, other.reply i = replies.reply i) →
        weightWhere c (other.usable bls bytes) order < threshold) ∧
    (threshold ≤ weightWhere c (replies.usable bls bytes) order → collected.result = .ok ()) := by
  intro bytes threshold collected heard
  have hnodup : order.Nodup := horder.nodup_iff.mpr List.nodup_range
  have hlt : ∀ j ∈ order, j < c.nMembers := fun j hj => List.mem_range.mp (horder.mem_iff.mp hj)
  have hnew : Heard bls intent toBytes c hashiId message replies []
      ⟨.new hashiId (.fromMove c) message, 0, 0⟩ := heard_new
  obtain ⟨hweight, hverdict⟩ := hnew.run hdistinct threshold
    ((Committee.fromMove c).totalWeight - threshold) (List.nil_append order ▸ hnodup) hlt
  change Verdict bls bytes replies threshold ((Committee.fromMove c).totalWeight - threshold) heard
    (collected.consumed = order.length) collected.result at hverdict
  rw [totalWeight_fromMove] at hverdict
  have hsub : ∀ i ∈ heard, i ∈ order := fun i hi => List.mem_of_mem_take hi
  -- a refusal is right about every choice of the other replies, also about the given one
  have hrefusal (noQuorum : NoQuorum)
      (hgives : GivesUp replies (c.totalWeight - threshold) heard noQuorum) :
      weightWhere c (replies.usable bls bytes) order < threshold :=
    hgives.unreachable fun _ _ => rfl
  refine ⟨hweight, ?_⟩
  cases hresult : collected.result with
  | ok u =>
      rw [hresult] at hverdict
      refine ⟨iff_of_true rfl hverdict, ?_, fun _ => rfl⟩
      rintro (h | ⟨epoch, peerEpoch, h⟩)
      · cases h
      · cases h
  | error noQuorum =>
      rw [hresult] at hverdict
      have hshort : weightWhere c (replies.usable bls bytes) order < threshold := by
        cases noQuorum with
        | alreadyApproved => exact hrefusal .alreadyApproved hverdict
        | staleCommittee epoch peerEpoch => exact hrefusal (.staleCommittee epoch peerEpoch) hverdict
        | short weight required =>
            obtain ⟨hless, hcomplete⟩ := hverdict
            have hall : heard = order := List.take_of_length_le hcomplete.ge
            rw [← hall]
            exact hless
      have hheard : weightWhere c (replies.usable bls bytes) heard < threshold :=
        Nat.lt_of_le_of_lt (weightWhere_mono hsub) hshort
      refine ⟨iff_of_false (fun h => by cases h) (Nat.not_le.mpr hheard), ?_,
        fun hreached => absurd hreached (Nat.not_le.mpr hshort)⟩
      rintro (h | ⟨epoch, peerEpoch, h⟩) other hsame
      · rw [Except.error.inj h] at hverdict
        have hgives : GivesUp replies (c.totalWeight - threshold) heard .alreadyApproved := hverdict
        exact hgives.unreachable hsame
      · rw [Except.error.inj h] at hverdict
        have hgives : GivesUp replies (c.totalWeight - threshold) heard
          (.staleCommittee epoch peerEpoch) := hverdict
        exact hgives.unreachable hsame

/-- Four members reply in turn; a signature is given by its epoch and its number. -/
def fourReplies (replies : List (Except NoSignature (Nat × Nat))) :
    Replies Core.Committee.fourMembers Nat where
  reply i := replies[i]?.map fun reply => reply.map fun s => ⟨s.1, i, s.2⟩
  named i m signature hm hreply := by
    have haddress : m.validatorAddress = i := by
      match i, hm with
      | 0, hm | 1, hm | 2, hm | 3, hm => cases hm; rfl
    obtain ⟨reply, -, hreply⟩ := Option.map_eq_some_iff.mp hreply
    cases reply with
    | error noSignature => cases hreply
    | ok s =>
        rw [← Except.ok.inj hreply]
        exact haddress.symm

namespace Sample

def collect (replies : List (Except NoSignature (Nat × Nat))) (order : List Nat) : Collected Bool Nat :=
  collectSignatures countingBls 0 Core.Committee.bcsBool (order.map (fourReplies replies).taskResult)
    (.new 7 (.fromMove Core.Committee.fourMembers) true)
    (Committee.fromMove Core.Committee.fourMembers).totalWeight

/-- One member refuses, one sends an invalid signature, one is at a newer epoch and one signs. -/
def mixed : List (Except NoSignature (Nat × Nat)) :=
  [.error .alreadyApproved, .ok (0, 7), .ok (5, 1), .ok (0, 1)]

def refusing : List (Except NoSignature (Nat × Nat)) :=
  [.error .alreadyApproved, .ok (0, 1), .error .alreadyApproved, .ok (0, 1)]

def agreeing : List (Except NoSignature (Nat × Nat)) :=
  [.error .alreadyApproved, .ok (0, 1), .ok (0, 1), .ok (0, 1)]

end Sample

/-- Of the quorum of three: one signature of four replies, two refusals after which no replies of the
other members reach it, and three signatures beside a refusal. -/
theorem collection_stops_only_when_it_must_mixed :
    (Sample.collect Sample.mixed [0, 1, 2, 3]).aggregator.weight = 1 ∧
    (Sample.collect Sample.refusing [2, 0, 1, 3]).result = .error .alreadyApproved ∧
    (∀ other : Replies Core.Committee.fourMembers Nat,
      (∀ i ∈ [2, 0], other.reply i = (fourReplies Sample.refusing).reply i) →
      weightWhere Core.Committee.fourMembers (other.usable countingBls
        (signingMessage 0 7 0 (Core.Committee.bcsBool true))) [2, 0, 1, 3] < 3) ∧
    (Sample.collect Sample.agreeing [1, 0, 2, 3]).result = .ok () := by
  have hstops := collection_stops_only_when_it_must countingBls 0 Core.Committee.bcsBool
    Core.Committee.fourMembers (by decide) 7 true
  obtain ⟨hweight, -, -, -⟩ := hstops (fourReplies Sample.mixed) [0, 1, 2, 3] (by decide)
  obtain ⟨-, -, hrefusal, -⟩ := hstops (fourReplies Sample.refusing) [2, 0, 1, 3] (by decide)
  obtain ⟨-, -, -, hsuccess⟩ := hstops (fourReplies Sample.agreeing) [1, 0, 2, 3] (by decide)
  have hrefused : (Sample.collect Sample.refusing [2, 0, 1, 3]).result = .error .alreadyApproved := by
    decide +kernel
  have hheard : [2, 0, 1, 3].take (Sample.collect Sample.refusing [2, 0, 1, 3]).consumed = [2, 0] := by
    decide +kernel
  have hthreshold : certificateThreshold (Committee.fromMove Core.Committee.fourMembers).totalWeight =
      3 := by decide +kernel
  rw [hthreshold] at hrefusal
  refine ⟨hweight.trans (by decide +kernel), hrefused, fun other hsame => ?_,
    hsuccess (by decide +kernel)⟩
  exact hrefusal (.inl hrefused) other fun i hi => hsame i (hheard ▸ hi)

end HashiBridge.Node
