import HashiBridge.Core.Proposal

/-!
# Proposals as a state machine

What the voting machinery may do to the two bags of proposals at a given time and under a given
committee.
-/

namespace HashiBridge.Core

open Lib

inductive BallotOp
  | create (id : Address)
  | vote (id voter : Address)
  | unvote (id voter : Address)
  | execute (id : Address)
  | delete (id : Address)

def Committee.support (committee : Committee) (voters : List Address) : Nat :=
  (voters.map committee.getMemberWeight).sum

def Committee.required (committee : Committee) (thresholdBps : Nat) : Nat :=
  divideAndRoundUp (committee.totalWeight * thresholdBps) Threshold.MAX_BPS

/-- One operation of the voting machinery at time `now`; `current` is the current committee. -/
inductive Proposals.Step (current : Option Committee) (now : Nat) :
    Proposals → BallotOp → Proposals → Prop
  | create {ps p} : p.id ∉ ps.active → p.votes = [p.creator] → p.executedTimestampMs = none →
      p.createdTimestampMs = now →
      (∀ committee ∈ current, committee.hasMember p.creator = true) →
      Step current now ps (.create p.id) { ps with active := ps.active.insert p.id p }
  | vote {ps id p voter committee} : ps.active.lookup id = some p → voter ∉ p.votes →
      current = some committee → committee.hasMember voter = true →
      now ≤ p.createdTimestampMs + MAX_PROPOSAL_DURATION_MS →
      Step current now ps (.vote id voter) { ps with
        active := ps.active.insert id { p with votes := p.votes ++ [voter] } }
  | unvote {ps id p voter} : ps.active.lookup id = some p → voter ∈ p.votes →
      Step current now ps (.unvote id voter) { ps with
        active := ps.active.insert id { p with votes := p.votes.erase voter } }
  | execute {ps id p committee} : ps.active.lookup id = some p → id ∉ ps.executed →
      p.id ∉ ps.executed → now ≤ p.createdTimestampMs + MAX_PROPOSAL_DURATION_MS →
      current = some committee → p.quorumThresholdBps ≤ Threshold.MAX_BPS →
      committee.required p.quorumThresholdBps ≤ committee.support p.votes →
      Step current now ps (.execute id) {
        active := ps.active.erase id
        executed := ps.executed.insert p.id { p with executedTimestampMs := some now } }
  | delete {ps id p} : ps.active.lookup id = some p → id ∉ ps.executed →
      p.createdTimestampMs + MAX_PROPOSAL_DURATION_MS < now →
      Step current now ps (.delete id) { ps with active := ps.active.erase id }

end HashiBridge.Core
