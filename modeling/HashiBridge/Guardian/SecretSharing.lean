import HashiBridge.Guardian.Basic
import HashiBridge.Lib.Interpolation

/-!
# Shamir sharing of the Bitcoin key

The key is a non-zero scalar. A splitting evaluates a polynomial whose constant term is the key at
the share ids `1, 2, …`; a reconstruction interpolates at zero. Scalars are the elements of a field.
-/

namespace HashiBridge.Guardian

open Lib

structure ShareId where
  val : UInt16
  ne_zero : val ≠ 0
deriving DecidableEq

inductive SharingError
  | rejected (error : GuardianError)
  | panicked (message : String)
deriving DecidableEq

def ShareId.create (i : Nat) : Except SharingError ShareId :=
  if h : UInt16.ofNat i ≠ 0 then .ok ⟨UInt16.ofNat i, h⟩
  else .error (.panicked "validated num_shares fits in u16")

structure Share (F : Type) where
  id : ShareId
  value : F
deriving DecidableEq

/-! ## Parameters -/

def MIN_THRESHOLD : Nat := 2

def MAX_NUM_SHARES : Nat := 2 ^ 16 - 1

structure SecretSharingParams where
  numShares : Nat
  threshold : Nat
deriving DecidableEq

def SecretSharingParams.new (numShares threshold : Nat) : GuardianResult SecretSharingParams := do
  require (MIN_THRESHOLD ≤ threshold)
    (GuardianError.invalidInputs s!"threshold {threshold} below minimum {MIN_THRESHOLD}")
  require (threshold ≤ numShares)
    (GuardianError.invalidInputs s!"num_shares {numShares} below threshold {threshold}")
  require (numShares ≤ MAX_NUM_SHARES)
    (GuardianError.invalidInputs s!"{numShares} must be at most u16::MAX")
  return { numShares, threshold }

/-! ## Splitting -/

section Scalars

variable {F : Type} [Field F]

structure SecretKey (F : Type) [Field F] where
  scalar : F
  ne_zero : scalar ≠ 0

def toScalar (id : ShareId) : F := (id.val.toNat : F)

def evalPoly (pos : ShareId) (coefficients : List F) : F :=
  (coefficients.foldl (powerStep (toScalar pos)) (0, 1)).1

def splitSecret (sk : SecretKey F) (params : SecretSharingParams) (random : Nat → F) :
    Except SharingError (List (Share F)) :=
  let coefficients := sk.scalar :: (List.range (params.threshold - 1)).map random
  (List.range' 1 params.numShares).mapM fun i => do
    let id ← ShareId.create i
    return { id, value := evalPoly id coefficients }

/-! ## Reconstruction -/

def seeShare (seenIds : Finset ShareId) (share : Share F) : Except SharingError (Finset ShareId) :=
  if share.id ∈ seenIds then .error (.rejected (.invalidInputs "Duplicate share ID"))
  else .ok (insert share.id seenIds)

variable [DecidableEq F]

/-- One round of the weighted sum. The weight of a share is the value at zero of its Lagrange basis
polynomial. -/
def addShare (ids : List F) (result : F) (share : Share F) : Except SharingError F :=
  let curShareId := toScalar share.id
  let denominator := denominatorAt ids curShareId
  if denominator = 0 then
    .error (.panicked "Denominator is never zero because share IDs are unique")
  else .ok (result + share.value * (numeratorAt ids curShareId * denominator⁻¹))

def combineShares (shares : List (Share F)) (t : Nat) : Except SharingError (SecretKey F) := do
  let seenIds ← shares.foldlM seeShare ∅
  let received := seenIds.card
  require (t ≤ received)
    (SharingError.rejected (.invalidInputs s!"Received only {received} out of {t} shares"))
  let result ← shares.foldlM (addShare (shares.map fun share => toScalar share.id)) 0
  if h : result ≠ 0 then .ok ⟨result, h⟩
  else .error (.panicked "k256 scalar bytes are a valid k256 secret key")

end Scalars

end HashiBridge.Guardian
