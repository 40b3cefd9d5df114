import HashiBridge.Chain.Machine
import HashiBridge.Node.TxExecutor

/-!
# Garbage collection of certificate buckets

The buckets that the leader's sweep picks from a page of the certificate bag.
-/

namespace HashiBridge.Node

open Lib HashiBridge.Core Chain

def MAX_TOB_PRUNES_PER_GC : Nat := 200
def KEY_GEN_CERT_RETENTION_EPOCHS : Nat := 8
def NONCE_CERT_MIN_AGE_EPOCHS : Nat := 2

def TobPruneTarget.certCall : TobPruneTarget → CertCall
  | .keyGen epoch => .destroyKeyGenCerts epoch
  | .nonceBatch epoch batchIndex => .destroyNonceCerts epoch batchIndex

section Find

variable (committeeEpochs : Finset Nat) (currentEpoch : Nat)

def pruneTarget (key : TobKey) : Option TobPruneTarget :=
  match key.protocolType, key.batchIndex with
  | .dkg, none | .keyRotation, none =>
      let lower := saturateU64 (key.epoch + 1)
      let strictlyBetween := lower < currentEpoch ∧ ∃ e ∈ committeeEpochs, lower ≤ e ∧ e < currentEpoch
      if saturateU64 (key.epoch + KEY_GEN_CERT_RETENTION_EPOCHS) ≤ currentEpoch ∧ strictlyBetween then
        some (.keyGen key.epoch)
      else none
  | .nonceGeneration, some batchIndex =>
      if saturateU64 (key.epoch + NONCE_CERT_MIN_AGE_EPOCHS) ≤ currentEpoch then
        some (.nonceBatch key.epoch batchIndex)
      else none
  | _, _ => none

structure PruneSets where
  keygenEpochs : Finset Nat
  nonceBatches : Bag Nat (Finset Nat)

namespace PruneSets

def batches (sets : PruneSets) (epoch : Nat) : Finset Nat := (sets.nonceBatches.lookup epoch).getD ∅

def add (sets : PruneSets) : TobPruneTarget → PruneSets
  | .keyGen epoch => { sets with keygenEpochs := insert epoch sets.keygenEpochs }
  | .nonceBatch epoch batchIndex => { sets with
      nonceBatches := sets.nonceBatches.insert epoch (insert batchIndex (sets.batches epoch)) }

def targets (sets : PruneSets) (epoch : Nat) : List TobPruneTarget :=
  (if epoch ∈ sets.keygenEpochs then [.keyGen epoch] else []) ++
    ((Iteration.sorted (· ≤ ·)).list (sets.batches epoch)).reverse.map (.nonceBatch epoch)

def listing (sets : PruneSets) : List TobPruneTarget :=
  ((Iteration.sorted (· ≤ ·)).list (sets.keygenEpochs ∪ sets.nonceBatches.keys)).flatMap sets.targets

end PruneSets

def findTobBucketsToPrune (keys : List TobKey) : List TobPruneTarget :=
  ((keys.filterMap (pruneTarget committeeEpochs currentEpoch)).foldl
    PruneSets.add ⟨∅, ∅⟩).listing.take MAX_TOB_PRUNES_PER_GC

end Find

end HashiBridge.Node
