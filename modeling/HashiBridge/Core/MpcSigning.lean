import HashiBridge.Core.Basic

/-!
# Presignatures and the signing batch

The allocator numbers the presignatures of an epoch consecutively. A signing batch has one slot per
input: pending with the presignature it will consume, or signed.
-/

namespace HashiBridge.Core

open Lib

structure Presig where
  index : Nat
deriving DecidableEq

structure PresigAllocator where
  numConsumed : Nat
deriving DecidableEq

namespace PresigAllocator

def create : PresigAllocator := ⟨0⟩

def allocate (self : PresigAllocator) (count : Nat) :
    Except Abort (List Presig × PresigAllocator) := do
  let numConsumed ← add self.numConsumed count
  return ((List.range count).map fun j => ⟨self.numConsumed + j⟩, ⟨numConsumed⟩)

end PresigAllocator

inductive MpcSig
  | pending (presig : Presig)
  | signed (signature : Bytes)
deriving DecidableEq

def MpcSig.isPending : MpcSig → Bool
  | pending _ => true
  | signed _ => false

structure SigningBatch where
  signatures : List MpcSig
  epoch : Nat
deriving DecidableEq

namespace SigningBatch

def new (numInputs : Nat) (presigs : List Presig) (epoch : Nat) : Except Abort SigningBatch := do
  require (0 < numInputs) Abort.zeroInputs
  require (presigs.length = numInputs) Abort.allocationMismatch
  return { signatures := presigs.map .pending, epoch }

/-! ## Recording signatures -/

def fill (slot : MpcSig) (sig : Bytes) : MpcSig :=
  match slot with
  | .pending _ => .signed sig
  | .signed old => .signed old

/-- One round of the loop: the `k`-th index with the `k`-th signature. -/
def recordOne (signatures : List MpcSig) (entry : Nat × Bytes) : Except Abort (List MpcSig) :=
  match signatures[entry.1]? with
  | none => .error .indexOutOfRange
  | some slot => .ok (signatures.set entry.1 (fill slot entry.2))

def record (self : SigningBatch) (indices : List Nat) (sigs : List Bytes) :
    Except Abort SigningBatch := do
  require (indices.length = sigs.length) Abort.lengthMismatch
  let signatures ← (indices.zip sigs).foldlM recordOne self.signatures
  return { self with signatures }

/-! ## Counting slots -/

def signedCount (self : SigningBatch) : Nat := self.signatures.countP fun s => !s.isPending

def pendingCount (self : SigningBatch) : Nat := self.signatures.length - self.signedCount

def isComplete (self : SigningBatch) : Prop := self.signedCount = self.signatures.length

instance (self : SigningBatch) : Decidable self.isComplete :=
  inferInstanceAs (Decidable (_ = _))

def toSignatures (self : SigningBatch) : Except Abort (List Bytes) := do
  require self.isComplete Abort.notComplete
  self.signatures.mapM fun
    | .signed sig => .ok sig
    | .pending _ => .error .notComplete

/-! ## Reallocation -/

/-- The reverse walk over the slots, given here from the last slot to the first: every pending
slot takes the presignature at the back, where `presigs` is listed from the back. -/
def reassign : List MpcSig → List Presig → Except Abort (List MpcSig)
  | [], [] => .ok []
  | [], _ :: _ => .error .notEmpty
  | .signed sig :: slots, presigs => do
      let rest ← reassign slots presigs
      return .signed sig :: rest
  | .pending _ :: _, [] => .error .arithmetic
  | .pending _ :: slots, presig :: presigs => do
      let rest ← reassign slots presigs
      return .pending presig :: rest

def reallocate (self : SigningBatch) (presigs : List Presig) (currentEpoch : Nat) :
    Except Abort SigningBatch := do
  require (self.epoch ≠ currentEpoch) Abort.notStale
  require (presigs.length = self.pendingCount) Abort.allocationMismatch
  let walked ← reassign self.signatures.reverse presigs.reverse
  return { signatures := walked.reverse, epoch := currentEpoch }

end SigningBatch

end HashiBridge.Core
