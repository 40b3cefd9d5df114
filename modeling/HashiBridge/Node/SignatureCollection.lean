import HashiBridge.Node.Aggregator

/-!
# Collecting signatures

The leader asks every member for a signature and takes the replies as they arrive, until the signatures
reach a certificate's weight or the other replies rule it out.
-/

namespace HashiBridge.Node

open Lib HashiBridge.Core

variable {T G : Type}

inductive NoSignature
  | alreadyApproved
  | failed
deriving DecidableEq

inductive NoQuorum
  | alreadyApproved
  | staleCommittee (epoch peerEpoch : Nat)
  | short (weight requiredWeight : Nat)
deriving DecidableEq

/-- What a member's task ends with: its weight and reply, or nothing if the task was cut off. -/
abbrev TaskResult (G : Type) := Option (Nat × Except NoSignature (MemberSignature G))

structure Collecting (T G : Type) where
  aggregator : BlsSignatureAggregator T G
  alreadyApprovedWeight : Nat
  newerEpochWeight : Nat

structure Collected (T G : Type) where
  result : Except NoQuorum Unit
  aggregator : BlsSignatureAggregator T G
  consumed : Nat

def Collected.after (self : Collected T G) : Collected T G := { self with consumed := self.consumed + 1 }

namespace Collecting

variable [Add G] (bls : Bls G) (intent : Nat) (toBytes : T → Bytes)

/-- One reply: the locals afterwards, or the reason to give up. A quorum is out of reach once the
members that report the same refusal outweigh `quorumSlack`. -/
def take (quorumSlack : Nat) (self : Collecting T G) :
    Nat × Except NoSignature (MemberSignature G) → Except NoQuorum (Collecting T G)
  | (weight, .ok signature) =>
      if self.aggregator.epoch < signature.epoch then do
        let newerEpochWeight := wrapU64 (self.newerEpochWeight + weight)
        require (newerEpochWeight ≤ quorumSlack)
          (NoQuorum.staleCommittee self.aggregator.epoch signature.epoch)
        return { self with newerEpochWeight }
      else .ok { self with aggregator := (self.aggregator.addSignature bls intent toBytes signature).2 }
  | (weight, .error .alreadyApproved) => do
      let alreadyApprovedWeight := wrapU64 (self.alreadyApprovedWeight + weight)
      require (alreadyApprovedWeight ≤ quorumSlack) NoQuorum.alreadyApproved
      return { self with alreadyApprovedWeight }
  | (_, .error .failed) => .ok self

/-- The loop leaves as soon as the weight suffices; a task that was cut off skips the check. -/
def run (requiredWeight quorumSlack : Nat) (self : Collecting T G) :
    List (TaskResult G) → Collected T G
  | [] =>
      { result := if self.aggregator.weight < requiredWeight then
          .error (.short self.aggregator.weight requiredWeight) else .ok ()
        aggregator := self.aggregator
        consumed := 0 }
  | none :: rest => (run requiredWeight quorumSlack self rest).after
  | some reply :: rest =>
      match self.take bls intent toBytes quorumSlack reply with
      | .error noQuorum => ⟨.error noQuorum, self.aggregator, 1⟩
      | .ok next =>
          if requiredWeight ≤ next.aggregator.weight then ⟨.ok (), next.aggregator, 1⟩
          else (run requiredWeight quorumSlack next rest).after

end Collecting

/-- Add each member's signature to the aggregator until it reaches a certificate quorum. -/
def collectSignatures [Add G] (bls : Bls G) (intent : Nat) (toBytes : T → Bytes)
    (sigTasks : List (TaskResult G)) (aggregator : BlsSignatureAggregator T G) (totalWeight : Nat) :
    Collected T G :=
  let requiredWeight := certificateThreshold totalWeight
  Collecting.run bls intent toBytes requiredWeight (totalWeight - requiredWeight) ⟨aggregator, 0, 0⟩
    sigTasks

end HashiBridge.Node
