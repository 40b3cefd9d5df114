import HashiBridge.Btc.WithdrawalQueue
import HashiBridge.Mpc.Signing

/-!
# Recovery of the presignatures after a restart

A restarted node walks over the batches of the epoch until it reaches the chain's cursor, keeps
those from the first one with a pending index on, and fills the slots that were not consumed.
-/

namespace HashiBridge.Mpc

open Lib HashiBridge.Core Btc

inductive WalkStep
  | continueWith (size : Nat)
  | last (size : Nat)
  | stop
  | missing
deriving DecidableEq

def walkStep (size : Option Nat) (batchStart numConsumed : Nat) : WalkStep :=
  match size with
  | some size => if numConsumed < batchStart + size then .last size else .continueWith size
  | none => if batchStart < numConsumed then .missing else .stop

structure Boundary where
  batchIndex : Nat
  start : Nat
  size : Nat
deriving DecidableEq

inductive RecoveryError
  | failed (message : String)
  /-- the walk did not end -/
  | diverges
deriving DecidableEq

inductive Walked
  | missing (batchIndex batchStart : Nat)
  | boundaries (boundaries : List Boundary)
deriving DecidableEq

/-- The walk over the batches, from the one at `batchIndex` on. -/
def walk (nonceBatchSize : Nat → Except String (Option Nat)) (numConsumed : Nat) :
    Nat → Nat → Nat → Except RecoveryError Walked
  | 0, _, _ => .error .diverges
  | fuel + 1, batchIndex, batchStart => do
      let size ← (nonceBatchSize batchIndex).mapError .failed
      match walkStep size batchStart numConsumed with
      | .missing => return .missing batchIndex batchStart
      | .stop => return .boundaries []
      | .last size => return .boundaries [⟨batchIndex, batchStart, size⟩]
      | .continueWith size =>
          match ← walk nonceBatchSize numConsumed fuel (batchIndex + 1) (batchStart + size) with
          | .missing batchIndex batchStart => return .missing batchIndex batchStart
          | .boundaries rest => return .boundaries (⟨batchIndex, batchStart, size⟩ :: rest)

/-! ## Pending indices -/

def addPending (numConsumed : Nat) (pending : Finset Nat) (signature : MpcSig) :
    Except String (Finset Nat) :=
  match signature with
  | .signed _ => .ok pending
  | .pending presig => do
      let index := presig.index
      require (index < numConsumed)
        s!"pending presig index {index} is not below allocation cursor {numConsumed}"
      require (index ∉ pending) s!"pending presig index {index} is assigned more than once"
      return insert index pending

def collectPending (epoch numConsumed : Nat) (txns : List WithdrawalTransaction) :
    Except String (Finset Nat) :=
  txns.foldlM (fun pending txn =>
    if txn.signing.epoch ≠ epoch then .ok pending
    else txn.signing.signatures.foldlM (addPending numConsumed) pending) ∅

/-! ## Recovery -/

/-- What a recovery reads: the chain's state at its start and at its end, and the answers to its
queries. -/
structure RecoveryEnv (S G : Type) where
  epoch : Nat
  numConsumed : Nat
  hasCommittee : Bool
  withdrawalTxns : Bag Address WithdrawalTransaction
  /-- whether the key generation manager is there, for the epoch -/
  managerReady : Except String Unit
  nonceBatchSize : Nat → Except String (Option Nat)
  recoverPresignatures : Nat → Except String (List (PresigTuple S G) × Bytes)
  laterEpoch : Nat
  laterCursor : Nat
  /-- the node's address and the share owners of the epoch -/
  configured : Except String Unit
  refillDivisor : Nat
  refill : RefillRequest

inductive PresigRecovery (S G : Type)
  | installed (manager : SigningManager S G)
  | missingBatch (epoch batchIndex batchStart : Nat)

variable {S G : Type}

namespace RecoveryEnv

def retain (self : RecoveryEnv S G) (boundary : Boundary) :
    Except String (RetainedBatch S G) := do
  let (presigs, dealerSetDigest) ← self.recoverPresignatures boundary.batchIndex
  let ⟨batchIndex, start, size⟩ := boundary
  let len := presigs.length
  require (presigs.length = size)
    s!"batch {batchIndex} boundary size {size} (Phase 1) != reconstructed len {len} (Phase 2)"
  return ⟨presigs, batchIndex, start, dealerSetDigest⟩

/-- The first boundary that holds a pending index, or else the last one. -/
def firstPending (boundaries : List Boundary) (pending : Finset Nat) : Nat :=
  (boundaries.findIdx? fun b => decide (∃ p ∈ pending, b.start ≤ p ∧ p < b.start + b.size)).getD
    (boundaries.length - 1)

def recoveredEnd (boundaries : List Boundary) : Nat :=
  (boundaries.getLast?.map fun b => b.start + b.size).getD 0

def install (self : RecoveryEnv S G) (pending : Finset Nat) (boundaries : List Boundary) :
    Except String (SigningManager S G) := do
  let epoch := self.epoch
  require (boundaries ≠ [])
    (s!"no certified nonce batches for epoch {epoch}: batch 0 is not yet sizeable and " ++
      "the cursor has drawn nothing")
  let recoveredEnd := recoveredEnd boundaries
  let retained ← (boundaries.drop (firstPending boundaries pending)).mapM self.retain
  require (self.laterEpoch = self.epoch) "epoch changed during presigning recovery"
  let latestCursor := self.laterCursor
  require (self.laterCursor ≤ recoveredEnd)
    s!"cursor {latestCursor} advanced past recovered end {recoveredEnd} during recovery"
  self.configured
  SigningManager.newRecovered self.epoch self.refillDivisor retained self.numConsumed pending
    self.refill

def pendingIndices (self : RecoveryEnv S G) : Except String (Finset Nat) :=
  collectPending self.epoch self.numConsumed (self.withdrawalTxns.sortedValues (· ≤ ·))

def recoverPresigningState (self : RecoveryEnv S G) (fuel : Nat) :
    Except RecoveryError (PresigRecovery S G) := do
  let epoch := self.epoch
  require self.hasCommittee (RecoveryError.failed s!"No committee found for epoch {epoch}")
  let pending ← self.pendingIndices.mapError .failed
  self.managerReady.mapError .failed
  match ← walk self.nonceBatchSize self.numConsumed fuel 0 0 with
  | .missing batchIndex batchStart => return .missingBatch epoch batchIndex batchStart
  | .boundaries boundaries => do
      let manager ← (self.install pending boundaries).mapError .failed
      return .installed manager

end RecoveryEnv

end HashiBridge.Mpc
