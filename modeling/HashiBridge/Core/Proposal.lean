import HashiBridge.Core.CommitteeSet

/-!
# Governance proposals

A proposal carries its payload, the addresses that voted and the threshold it needs. Votes are
weighed against whatever committee is current when the quorum is checked.
-/

namespace HashiBridge.Core

open Lib

/-- The payload of a proposal, one constructor per proposal type. -/
inductive ProposalData
  | addConfig (epoch : Bool) (entries : VecMap String Value)
  | updateConfig (entries : VecMap String Value)
  | updateEpochConfig (entries : VecMap String Value)
  | upgrade (digest : Bytes) (exclusive : Bool)
  | enableVersion (version : Nat)
  | disableVersion (version : Nat)
  | ignoreMember (validatorAddress : Address) (ignored : Bool)
  | emergencyPause (pause : Bool)
deriving DecidableEq

inductive ProposalKind
  | addConfig | updateConfig | updateEpochConfig | upgrade | enableVersion | disableVersion
  | ignoreMember | emergencyPause
deriving DecidableEq

def ProposalData.kind : ProposalData → ProposalKind
  | addConfig .. => .addConfig
  | updateConfig .. => .updateConfig
  | updateEpochConfig .. => .updateEpochConfig
  | upgrade .. => .upgrade
  | enableVersion .. => .enableVersion
  | disableVersion .. => .disableVersion
  | ignoreMember .. => .ignoreMember
  | emergencyPause .. => .emergencyPause

structure Proposal where
  id : Address
  creator : Address
  votes : List Address
  quorumThresholdBps : Nat
  createdTimestampMs : Nat
  executedTimestampMs : Option Nat
  metadata : VecMap String String
  data : ProposalData
deriving DecidableEq

def MAX_PROPOSAL_DURATION_MS : Nat := 1000 * 60 * 60 * 24 * 7

namespace Proposal

def isExpired (self : Proposal) (now : Nat) : Except Abort Bool := do
  let deadline ← add self.createdTimestampMs MAX_PROPOSAL_DURATION_MS
  return decide (deadline < now)

def quorumReached (self : Proposal) (committee : Committee) : Except Abort Bool := do
  let validVotingPower ← sumU64 Abort.arithmetic (self.votes.map committee.getMemberWeight)
  let required ← Threshold.weightThreshold committee.totalWeight self.quorumThresholdBps
  return decide (required ≤ validVotingPower)

end Proposal

/-- Proposals not executed yet, and the archive of executed ones. -/
structure Proposals where
  active : Bag Address Proposal
  executed : Bag Address Proposal

namespace Proposals

def create : Proposals := ⟨∅, ∅⟩

def borrowActive (self : Proposals) (kind : ProposalKind) (proposalId : Address) :
    Except Abort Proposal := do
  let proposal ← self.active.borrow Abort.fieldDoesNotExist proposalId
  require (proposal.data.kind = kind) Abort.fieldTypeMismatch
  return proposal

def removeActive (self : Proposals) (kind : ProposalKind) (proposalId : Address) :
    Except Abort (Proposal × Proposals) := do
  let proposal ← self.borrowActive kind proposalId
  return (proposal, { self with active := self.active.erase proposalId })

end Proposals

end HashiBridge.Core
