import HashiBridge.Chain.Lemmas.Reachable

/-!
# Governance

A proposal is created once, gathers distinct votes, and is executed at most once, in time and with the
weight of voters who sit on the committee at that moment.
-/

namespace HashiBridge.Chain

open Lib HashiBridge.Core Btc

variable {env : Env} {activated : List Nat} {w w' : World} {label : Label} {tr : List Label}

/-! ## Calls as operations -/

theorem Refines.touched (h : Refines env w label w') {id : Address} (hid : label.touches = some id) :
    ∃ op, BallotOp.target op = some id ∧
      Proposals.Step w.hashi.seatedCommittee w.clock w.hashi.proposals op w'.hashi.proposals := by
  obtain ⟨ops, heffect, hrun⟩ := h.ballots
  unfold Label.touches at hid
  split at hid <;> cases hid
  all_goals
    obtain ⟨op, heffect, rfl⟩ := heffect
    cases heffect
    exact ⟨_, rfl, hrun.of_single⟩

theorem Refines.executed (h : Refines env w label w') {id : Address}
    (hid : label.executes = some id) :
    Proposals.Step w.hashi.seatedCommittee w.clock w.hashi.proposals (.execute id)
      w'.hashi.proposals := by
  obtain ⟨ops, heffect, hrun⟩ := h.ballots
  unfold Label.executes at hid
  split at hid <;> cases hid
  obtain ⟨op, heffect, rfl⟩ := heffect
  cases heffect
  exact hrun.of_single

/-! ## Archived proposals -/

theorem executed_kept_run (hinv : w.Inv env activated) (hrun : Run (Step env) w tr w') {id : Address}
    {p : Proposal} (hp : w.hashi.proposals.executed.lookup id = some p) :
    w'.hashi.proposals.executed.lookup id = some p := by
  induction hrun with
  | nil => exact hp
  | snoc hrun hstep ih =>
      obtain ⟨ops, -, hops⟩ := (hstep.refines (hinv.run hrun)).ballots
      exact hops.invariant (P := fun ps => ps.executed.lookup id = some p) ih
        fun _ _ _ hs hs' => hs'.executed_kept hs

theorem executed_untouched (hinv : w.Inv env activated) (hrun : Run (Step env) w tr w') {id : Address}
    (hid : id ∈ w.hashi.proposals.executed) {w'' : World} (hlabel : label.touches = some id) :
    ¬ Step env w' label w'' := by
  intro hstep
  obtain ⟨p, hp⟩ := Finmap.mem_iff.mp hid
  have hinv' := hinv.run hrun
  obtain ⟨op, htarget, hop⟩ := (hstep.refines hinv').touched hlabel
  exact hinv'.ballots.disjoint (hop.target_active htarget)
    (Bag.mem_of_lookup (executed_kept_run hinv hrun hp))

/-! ## Existence -/

def Proposed (tr : List Label) (id : Address) : Prop := ∃ label ∈ tr, label.proposes = some id

def Deleted (tr : List Label) (id : Address) : Prop := ∃ label ∈ tr, label.deletes = some id

theorem Label.deletes_of_proposes {id : Address} (h : label.proposes = some id) :
    label.deletes = none := by
  unfold Label.proposes at h
  split at h <;> cases h
  rfl

theorem Label.touches_of_deletes {id : Address} (h : label.deletes = some id) :
    label.touches = some id := by
  unfold Label.deletes at h
  split at h <;> cases h
  rfl

theorem proposal_exists_iff {id₀ epoch clock : Nat} (id : Address)
    (hrun : Run (Step env) (publish id₀ epoch clock) tr w) :
    (id ∈ w.hashi.proposals.active ∨ id ∈ w.hashi.proposals.executed) ↔
      Proposed tr id ∧ ¬ Deleted tr id := by
  refine present_iff
    (fun w => id ∈ w.hashi.proposals.active ∨ id ∈ w.hashi.proposals.executed) Label.proposes
    Label.deletes id (fun h => h.elim Finmap.notMem_empty Finmap.notMem_empty)
    (fun hinv hid => hinv.proposal_ids hid)
    (fun label hid => ⟨label.fresh_of_proposes id hid, label.deletes_of_proposes hid⟩)
    (fun hinv h => ⟨h.proposal_mem hinv.ballots id, fun hid => ?_⟩) hrun
  obtain ⟨op, htarget, hop⟩ := h.touched (Label.touches_of_deletes hid)
  exact .inl (hop.target_active htarget)

/-! ## Execution -/

/-- What an execution of the proposal `p` rests on: the time is not past its deadline, and distinct
voters who sit on the current committee carry the threshold's share of its weight, rounded up. -/
structure ExecutionGrounds (w : World) (p : Proposal) (committee : Committee)
    (voters : List Address) : Prop where
  in_time : w.clock ≤ p.createdTimestampMs + MAX_PROPOSAL_DURATION_MS
  current : w.hashi.currentCommittee = .ok committee
  distinct : voters.Nodup
  seated : ∀ v ∈ voters, v ∈ p.votes ∧ committee.hasMember v = true
  weight : divideAndRoundUp (committee.totalWeight * p.quorumThresholdBps) 10000 ≤
    (voters.map committee.getMemberWeight).sum

theorem execution_grounds (hinv : w.Inv env activated) (h : Refines env w label w') {id : Address}
    (hid : label.executes = some id) : id ∈ w'.hashi.proposals.executed ∧
      ∃ p committee, w.hashi.proposals.active.lookup id = some p ∧
        ExecutionGrounds w p committee (p.votes.filter fun v => committee.hasMember v) := by
  obtain ⟨hmem, p, committee, hp, hcommittee, hlive, hquorum⟩ :=
    (h.executed hid).execute_inv hinv.ballots
  refine ⟨hmem, p, committee, hp, hlive, Bag.borrow_eq_ok.mpr hcommittee,
    (hinv.ballots.active_votes hp).filter _, fun v hv => by simpa using hv, ?_⟩
  rw [← committee.support_filter] at hquorum
  exact hquorum

theorem Label.touches_of_executes {id : Address} (h : label.executes = some id) :
    label.touches = some id := by
  unfold Label.executes at h
  split at h <;> cases h
  rfl

theorem executes_count_le_one {id₀ epoch clock : Nat} (id : Address)
    (hrun : Run (Step env) (publish id₀ epoch clock) tr w) :
    tr.countP (fun label => decide (label.executes = some id)) ≤ 1 := by
  have h : tr.countP (fun label => decide (label.executes = some id)) = 0 ∨
      tr.countP (fun label => decide (label.executes = some id)) = 1 ∧
        id ∈ w.hashi.proposals.executed := by
    induction hrun with
    | nil => exact .inl rfl
    | @snoc tr m label m' hrun hstep ih =>
        have hinv := World.Inv.reachable hrun
        have href := hstep.refines hinv
        rw [List.countP_append, List.countP_singleton]
        by_cases hid : label.executes = some id
        · have hmem := (execution_grounds hinv href hid).1
          have hzero := ih.resolve_right fun h =>
            executed_untouched hinv .nil h.2 (Label.touches_of_executes hid) hstep
          exact .inr ⟨by simp [hid, hzero], hmem⟩
        · simp only [hid, decide_false, Bool.false_eq_true, if_false, Nat.add_zero]
          refine ih.imp_right fun ⟨hone, hmem⟩ => ⟨hone, ?_⟩
          obtain ⟨p, hp⟩ := Finmap.mem_iff.mp hmem
          exact Bag.mem_of_lookup (executed_kept_run hinv (.single hstep) hp)
  omega

theorem quorumReached_filter (p : Proposal) (committee : Committee) :
    p.quorumReached committee = .ok true ↔
      { p with votes := p.votes.filter fun v => committee.hasMember v }.quorumReached committee =
        .ok true := by
  have hsum : ((p.votes.filter fun v => committee.hasMember v).map committee.getMemberWeight).sum =
      (p.votes.map committee.getMemberWeight).sum := committee.support_filter p.votes
  simp only [Proposal.quorumReached, bind_eq_ok, sumU64_eq_ok, pure_eq_ok, hsum]

/-- Governance over every history: a proposal created and not deleted is active or executed and not
both, votes are distinct, an execution happens at most once and on the grounds above, votes from
outside the committee count for nothing, and an executed proposal is never touched again. -/
theorem proposals_executed_once {id₀ epoch clock : Nat}
    (hrun : Run (Step env) (publish id₀ epoch clock) tr w) :
    (∀ id, Proposed tr id ∧ ¬ Deleted tr id ↔
      id ∈ w.hashi.proposals.active ∨ id ∈ w.hashi.proposals.executed) ∧
    (∀ id, ¬ (id ∈ w.hashi.proposals.active ∧ id ∈ w.hashi.proposals.executed)) ∧
    (∀ {id p}, w.hashi.proposals.active.lookup id = some p ∨
      w.hashi.proposals.executed.lookup id = some p → p.votes.Nodup) ∧
    (∀ id, tr.countP (fun label => decide (label.executes = some id)) ≤ 1) ∧
    (∀ {label w' id}, Step env w label w' → label.executes = some id →
      id ∈ w'.hashi.proposals.executed ∧
      ∃ p committee, w.hashi.proposals.active.lookup id = some p ∧
        ExecutionGrounds w p committee (p.votes.filter fun v => committee.hasMember v)) ∧
    (∀ (p : Proposal) (committee : Committee), p.quorumReached committee = .ok true ↔
      { p with votes := p.votes.filter fun v => committee.hasMember v }.quorumReached committee =
        .ok true) ∧
    (∀ {id tr' w' label w''}, id ∈ w.hashi.proposals.executed → Run (Step env) w tr' w' →
      label.touches = some id → ¬ Step env w' label w'') := by
  have hinv := World.Inv.reachable hrun
  refine ⟨fun id => (proposal_exists_iff id hrun).symm,
    fun id h => hinv.ballots.disjoint h.1 h.2, fun h => ?_, fun id => executes_count_le_one id hrun,
    fun hstep hid => execution_grounds hinv (hstep.refines hinv) hid, quorumReached_filter,
    fun hid hrun' hlabel => executed_untouched hinv hrun' hid hlabel⟩
  exact h.elim hinv.ballots.active_votes hinv.ballots.executed_votes

/-- An emergency pause proposed and executed by the one validator cannot be executed again, voted on or
deleted. -/
theorem proposals_executed_once_of_pause : ∃ w,
    Run (Step Sample.env) (publish 99 0 0) (Sample.launch ++ [
      Sample.call 1050 (.governance (.propose 10 (.emergencyPause true) VecMap.empty)),
      Sample.call 1051 (.governance (.execute .emergencyPause 1050 0))]) w ∧
    1050 ∈ w.hashi.proposals.executed ∧
    ∀ {tr' w' label w''}, Run (Step Sample.env) w tr' w' → label.touches = some 1050 →
      ¬ Step Sample.env w' label w'' := by
  obtain ⟨w, hrun, htest⟩ := run_of_reaches Sample.env (publish 99 0 0)
    (Sample.launch ++ [
      Sample.call 1050 (.governance (.propose 10 (.emergencyPause true) VecMap.empty)),
      Sample.call 1051 (.governance (.execute .emergencyPause 1050 0))])
    (fun w => decide (1050 ∈ w.hashi.proposals.executed)) (by decide +kernel)
  have hmem : 1050 ∈ w.hashi.proposals.executed := of_decide_eq_true htest
  obtain ⟨-, -, -, -, -, -, huntouched⟩ := proposals_executed_once hrun
  exact ⟨w, hrun, hmem, fun hrun' => huntouched hmem hrun'⟩

end HashiBridge.Chain
