import HashiBridge.Core.Ballots

/-!
# Proposals are archived once, with distinct votes

The invariant of the voting machinery and what an execution means for the weight of its voters.
-/

namespace HashiBridge.Core

open Lib

variable {current : Option Committee} {now : Nat} {ps ps' : Proposals} {op : BallotOp}

/-- The two bags are disjoint, a proposal lies under its own id and its votes are distinct. -/
structure BallotInv (ps : Proposals) : Prop where
  disjoint : ∀ {id}, id ∈ ps.active → id ∉ ps.executed
  active_id : ∀ {id p}, ps.active.lookup id = some p → p.id = id
  executed_id : ∀ {id p}, ps.executed.lookup id = some p → p.id = id
  active_votes : ∀ {id p}, ps.active.lookup id = some p → p.votes.Nodup
  executed_votes : ∀ {id p}, ps.executed.lookup id = some p → p.votes.Nodup
  active_open : ∀ {id p}, ps.active.lookup id = some p → p.executedTimestampMs = none
  executed_closed : ∀ {id p}, ps.executed.lookup id = some p → ∃ time,
    p.executedTimestampMs = some time ∧
      time ≤ p.createdTimestampMs + MAX_PROPOSAL_DURATION_MS

namespace BallotInv

theorem init : BallotInv Proposals.create := by
  constructor <;> simp [Proposals.create, Finmap.notMem_empty]

theorem write (h : BallotInv ps) {p : Proposal} (hfresh : p.id ∉ ps.executed)
    (hvotes : p.votes.Nodup) (hopen : p.executedTimestampMs = none) :
    BallotInv { ps with active := ps.active.insert p.id p } := by
  exact { h with
    disjoint := by
      intro id hid
      rcases Finmap.mem_insert.mp hid with rfl | hid
      exacts [hfresh, h.disjoint hid]
    active_id := by
      intro id p' hp'
      rcases Bag.lookup_of_insert hp' with ⟨rfl, rfl⟩ | hp'
      exacts [rfl, h.active_id hp']
    active_votes := by
      intro id p' hp'
      rcases Bag.lookup_of_insert hp' with ⟨rfl, rfl⟩ | hp'
      exacts [hvotes, h.active_votes hp']
    active_open := by
      intro id p' hp'
      rcases Bag.lookup_of_insert hp' with ⟨rfl, rfl⟩ | hp'
      exacts [hopen, h.active_open hp'] }

theorem execute (h : BallotInv ps) {id : Address} {p : Proposal}
    (hp : ps.active.lookup id = some p)
    (hlive : now ≤ p.createdTimestampMs + MAX_PROPOSAL_DURATION_MS) :
    BallotInv {
      active := ps.active.erase id
      executed := ps.executed.insert p.id { p with executedTimestampMs := some now } } := by
  constructor
  case disjoint =>
    intro id' hid' hmem
    rw [Finmap.mem_erase] at hid'
    rcases Finmap.mem_insert.mp hmem with heq | hmem
    · rw [h.active_id hp] at heq
      exact hid'.1 heq
    · exact h.disjoint hid'.2 hmem
  case active_id => exact fun hp' => h.active_id (Bag.lookup_of_erase hp')
  case executed_id =>
    intro id' p' hp'
    rcases Bag.lookup_of_insert hp' with ⟨rfl, rfl⟩ | hp'
    exacts [rfl, h.executed_id hp']
  case active_votes => exact fun hp' => h.active_votes (Bag.lookup_of_erase hp')
  case executed_votes =>
    intro id' p' hp'
    have hvotes := h.active_votes hp
    rcases Bag.lookup_of_insert hp' with ⟨rfl, rfl⟩ | hp'
    exacts [hvotes, h.executed_votes hp']
  case active_open => exact fun hp' => h.active_open (Bag.lookup_of_erase hp')
  case executed_closed =>
    intro id' p' hp'
    rcases Bag.lookup_of_insert hp' with ⟨rfl, rfl⟩ | hp'
    exacts [⟨now, rfl, hlive⟩, h.executed_closed hp']

theorem delete (h : BallotInv ps) (id : Address) :
    BallotInv { ps with active := ps.active.erase id } := by
  exact ⟨fun hid => h.disjoint (Finmap.mem_erase.mp hid).2, fun hp => h.active_id (Bag.lookup_of_erase hp),
    h.executed_id, fun hp => h.active_votes (Bag.lookup_of_erase hp), h.executed_votes,
    fun hp => h.active_open (Bag.lookup_of_erase hp), h.executed_closed⟩

theorem step (h : BallotInv ps) (hstep : Proposals.Step current now ps op ps')
    (hfresh : ∀ id, op = .create id → id ∉ ps.executed) : BallotInv ps' := by
  cases hstep with
  | @create p hnew hvotes hopen _ _ =>
      exact h.write (hfresh p.id rfl) (by rw [hvotes]; exact List.nodup_singleton _) hopen
  | @vote id p voter committee hp hnot _ _ _ =>
      obtain rfl := h.active_id hp
      have hopen := h.active_open hp
      refine h.write (p := { p with votes := p.votes ++ [voter] })
        (h.disjoint (Bag.mem_of_lookup hp)) ?_ hopen
      exact List.nodup_append'.mpr ⟨h.active_votes hp, List.nodup_singleton _, by simpa using hnot⟩
  | @unvote id p voter hp hmem =>
      obtain rfl := h.active_id hp
      have hopen := h.active_open hp
      exact h.write (p := { p with votes := p.votes.erase voter })
        (h.disjoint (Bag.mem_of_lookup hp)) ((h.active_votes hp).erase _) hopen
  | execute hp _ _ hlive _ _ _ => exact h.execute hp hlive
  | delete => exact h.delete _

end BallotInv

/-! ## Archived proposals stay -/

theorem Proposals.Step.executed_kept (hstep : Proposals.Step current now ps op ps') {id : Address}
    {p : Proposal} (hp : ps.executed.lookup id = some p) : ps'.executed.lookup id = some p := by
  cases hstep with
  | execute _ _ hfresh _ _ _ _ =>
      rw [Bag.lookup_insert_ite, if_neg, hp]
      rintro rfl
      exact hfresh (Bag.mem_of_lookup hp)
  | create | vote | unvote | delete => exact hp

/-- A proposal exists after an operation if the operation created it, or if it existed and the
operation did not delete it. -/
theorem Proposals.Step.mem_iff (h : BallotInv ps) (hstep : Proposals.Step current now ps op ps')
    (id : Address) : (id ∈ ps'.active ∨ id ∈ ps'.executed) ↔
      op = .create id ∨ ((id ∈ ps.active ∨ id ∈ ps.executed) ∧ op ≠ .delete id) := by
  cases hstep with
  | @create p hnew _ _ _ _ =>
      simp only [Finmap.mem_insert, BallotOp.create.injEq, ne_eq, reduceCtorEq, not_false_eq_true,
        and_true, or_assoc, @eq_comm _ id]
  | @vote id₀ p voter _ hp _ _ _ _ | @unvote id₀ p voter hp _ =>
      simp only [Finmap.mem_insert, reduceCtorEq, ne_eq, not_false_eq_true, and_true, false_or]
      constructor
      · rintro ((rfl | hid) | hid)
        exacts [.inl (Bag.mem_of_lookup hp), .inl hid, .inr hid]
      · exact Or.imp_left .inr
  | @execute id₀ p _ hp _ _ _ _ _ _ =>
      obtain rfl := h.active_id hp
      simp only [Finmap.mem_insert, Finmap.mem_erase, reduceCtorEq, ne_eq, not_false_eq_true,
        and_true, false_or]
      have hactive := Bag.mem_of_lookup hp
      by_cases hid : id = p.id
      · simp [hid, hactive]
      · simp [hid]
  | @delete id₀ p hp hnot _ =>
      simp only [Finmap.mem_erase, reduceCtorEq, ne_eq, BallotOp.delete.injEq, false_or,
        @eq_comm _ id₀]
      by_cases hid : id = id₀
      · simp [hid, hnot]
      · simp [hid]

def BallotOp.target : BallotOp → Option Address
  | create _ => none
  | vote id _ | unvote id _ | execute id | delete id => some id

theorem Proposals.Step.target_active (hstep : Proposals.Step current now ps op ps') {id : Address}
    (hid : op.target = some id) : id ∈ ps.active := by
  cases hstep with
  | create => cases hid
  | vote hp _ _ _ _ | unvote hp _ | execute hp _ _ _ _ _ _ | delete hp _ _ =>
      cases hid
      exact Bag.mem_of_lookup hp

theorem Proposals.Step.execute_inv {id : Address} (h : BallotInv ps)
    (hstep : Proposals.Step current now ps (.execute id) ps') : id ∈ ps'.executed ∧
      ∃ p committee, ps.active.lookup id = some p ∧ current = some committee ∧
        now ≤ p.createdTimestampMs + MAX_PROPOSAL_DURATION_MS ∧
        committee.required p.quorumThresholdBps ≤ committee.support p.votes := by
  cases hstep with
  | @execute _ p committee hp _ _ hlive hcommittee _ hquorum =>
      refine ⟨Finmap.mem_insert.mpr (.inl (h.active_id hp).symm), p, committee, hp, hcommittee, hlive,
        hquorum⟩

/-! ## Votes outside the committee carry no weight -/

theorem Committee.getMemberWeight_of_not_hasMember {committee : Committee} {voter : Address}
    (h : committee.hasMember voter = false) : committee.getMemberWeight voter = 0 := by
  rw [Committee.hasMember, Option.isSome_eq_false_iff, Option.isNone_iff_eq_none] at h
  rw [Committee.getMemberWeight, h]
  rfl

theorem Committee.support_filter (committee : Committee) (voters : List Address) :
    committee.support (voters.filter fun v => committee.hasMember v) = committee.support voters := by
  induction voters with
  | nil => rfl
  | cons v voters ih =>
      cases hv : committee.hasMember v with
      | true => simpa [support, hv] using ih
      | false =>
          simpa [support, hv, Committee.getMemberWeight_of_not_hasMember hv] using ih

end HashiBridge.Core
