import HashiBridge.Core.Committee

/-!
# Certificates off chain

The node's committee and its check of a certificate. A peer's bitmap may be any byte string, so
every function that indexes the members checks the set bits first.
-/

namespace HashiBridge.Node

open Lib HashiBridge.Core

def CERTIFICATE_THRESHOLD_BPS : Nat := 6667
def MAX_BPS : Nat := 10000

def certificateThreshold (totalWeight : Nat) : Nat :=
  divideAndRoundUp (wrapU64 (totalWeight * CERTIFICATE_THRESHOLD_BPS)) MAX_BPS

/-! ## Bitmaps -/

structure BitMap where
  bitmap : Bytes
deriving DecidableEq

namespace BitMap

def mask (bitIndex : Nat) : UInt8 := 1 <<< UInt8.ofNat (7 - bitIndex)

def iter (self : BitMap) : List Nat :=
  self.bitmap.zipIdx.flatMap fun (byte, byteIndex) =>
    (List.range 8).filterMap fun bitIndex =>
      if byte &&& mask bitIndex ≠ 0 then some (byteIndex * 8 + bitIndex) else none

end BitMap

/-! ## Committees -/

structure CommitteeMember where
  address : Address
  publicKey : PublicKey
  encryptionPublicKey : Bytes
  weight : Nat
deriving DecidableEq

structure Committee where
  epoch : Nat
  members : List CommitteeMember
  totalWeight : Nat
  config : Config
deriving DecidableEq

structure CommitteeSignature where
  epoch : Nat
  signature : Bytes
  signersBitmap : BitMap
deriving DecidableEq

structure SignedMessage (T : Type) where
  signature : CommitteeSignature
  message : T
deriving DecidableEq

inductive SignatureError
  | mismatch
  | insufficientWeight (signed required : Nat)
  /-- the error of the aggregate verification itself -/
  | verification
deriving DecidableEq

/-- Aggregate verification of a signature under a list of keys. -/
abbrev AggregateVerify := Bytes → List PublicKey → Bytes → Bool

def Committee.withConfig (members : List CommitteeMember) (epoch : Nat) (config : Config) :
    Committee :=
  { epoch, members, totalWeight := wrapU64 (members.map CommitteeMember.weight).sum, config }

def Committee.size (self : Committee) : Nat := self.members.length

/-! ## Verification -/

namespace CommitteeSignature

def verifyCommittee (self : CommitteeSignature) (committee : Committee) :
    Except SignatureError Unit :=
  if committee.epoch ≠ self.epoch ∨ self.signersBitmap.iter.any (committee.size ≤ ·) then
    .error .mismatch
  else .ok ()

/-- The members at the set bits. Past `verifyCommittee` no index is out of range. -/
def members (self : CommitteeSignature) (committee : Committee) : List CommitteeMember :=
  self.signersBitmap.iter.filterMap (committee.members[·]?)

def weight (self : CommitteeSignature) (committee : Committee) : Except SignatureError Nat := do
  self.verifyCommittee committee
  return wrapU64 ((self.members committee).map CommitteeMember.weight).sum

end CommitteeSignature

def signingMessage (intent : Nat) (hashiId : Address) (epoch : Nat) (message : Bytes) : Bytes :=
  bcsU16 intent ++ (bcsAddress hashiId ++ (bcsU64 epoch ++ message))

namespace Committee

variable {T : Type} (verify : AggregateVerify) (intent : Nat) (toBytes : T → Bytes)

def verifySignatureAnyWeight (self : Committee) (hashiId : Address)
    (signedMessage : SignedMessage T) : Except SignatureError Unit := do
  let signature := signedMessage.signature
  signature.verifyCommittee self
  let pks := (signature.members self).map CommitteeMember.publicKey
  let messageBytes := signingMessage intent hashiId signature.epoch (toBytes signedMessage.message)
  require (verify signature.signature pks messageBytes) SignatureError.verification

def verifySignatureAndWeight (self : Committee) (hashiId : Address)
    (signedMessage : SignedMessage T) (requiredWeight : Nat) : Except SignatureError Unit := do
  let signedWeight ← signedMessage.signature.weight self
  require (requiredWeight ≤ signedWeight)
    (SignatureError.insufficientWeight signedWeight requiredWeight)
  self.verifySignatureAnyWeight verify intent toBytes hashiId signedMessage

end Committee

/-! ## The view of the on-chain committee -/

def CommitteeMember.fromMove (m : Core.CommitteeMember) : CommitteeMember :=
  { address := m.validatorAddress, publicKey := m.publicKey
    encryptionPublicKey := m.encryptionPublicKey, weight := m.weight }

def Committee.fromMove (c : Core.Committee) : Committee :=
  withConfig (c.members.map CommitteeMember.fromMove) c.epoch c.epochConfig

def CommitteeSignature.fromMove (s : Core.CommitteeSignature) : CommitteeSignature :=
  { epoch := s.epoch, signature := s.signature, signersBitmap := ⟨s.signersBitmap⟩ }

end HashiBridge.Node
