import HashiBridge.Core.Config

/-!
# Committees and certificates

A committee pins an epoch's members with their weights. Its fields carry what the constructor
checks: it is not empty, every weight is positive and the total is the sum of the weights.
-/

namespace HashiBridge.Core

open Lib

/-! ## Thresholds -/

namespace Threshold

def MAX_BPS : Nat := 10000
def CERTIFICATE_THRESHOLD_BPS : Nat := 6667

def weightThreshold (totalWeight thresholdBps : Nat) : Except Abort Nat := do
  require (thresholdBps ≤ MAX_BPS) Abort.thresholdBpsTooHigh
  let product ← mul totalWeight thresholdBps
  return divideAndRoundUp product MAX_BPS

def certificateThreshold (totalWeight : Nat) : Except Abort Nat :=
  weightThreshold totalWeight CERTIFICATE_THRESHOLD_BPS

end Threshold

/-! ## Members and committees -/

structure CommitteeMember where
  validatorAddress : Address
  publicKey : PublicKey
  encryptionPublicKey : Bytes
  weight : Nat
  extraFields : Config
deriving DecidableEq

def weightSum (members : List CommitteeMember) : Nat := (members.map CommitteeMember.weight).sum

structure Committee where
  epoch : Nat
  members : List CommitteeMember
  totalWeight : Nat
  epochConfig : Config
  members_ne : members ≠ []
  weight_pos : ∀ m ∈ members, 0 < m.weight
  total_eq : totalWeight = weightSum members
  total_lt : totalWeight < U64_SIZE
deriving DecidableEq

structure CommitteeSignature where
  epoch : Nat
  signature : Bytes
  signersBitmap : Bytes
deriving DecidableEq

structure CertifiedMessage (T : Type) where
  message : T
  signature : CommitteeSignature
  stakeSupport : Nat
deriving DecidableEq

def addMemberWeight (total : Nat) (member : CommitteeMember) : Except Abort Nat := do
  require (0 < member.weight) Abort.incorrectCommittee
  add total member.weight

theorem addMemberWeight_loop {members : List CommitteeMember} {start total : Nat}
    (hstart : start < U64_SIZE) (h : members.foldlM addMemberWeight start = .ok total) :
    (∀ m ∈ members, 0 < m.weight) ∧ total = start + weightSum members ∧ total < U64_SIZE := by
  induction members generalizing start with
  | nil =>
      obtain rfl := foldlM_nil_eq_ok.mp h
      exact ⟨by simp, by simp [weightSum], hstart⟩
  | cons m members ih =>
      obtain ⟨_, hm, hrest⟩ := foldlM_cons_eq_ok.mp h
      simp only [addMemberWeight, bind_eq_ok, require_eq_ok, addU64_eq_ok] at hm
      obtain ⟨_, hpos, hlt, rfl⟩ := hm
      obtain ⟨hall, rfl, htotal⟩ := ih hlt hrest
      refine ⟨?_, by simp [weightSum, Nat.add_assoc], htotal⟩
      simpa using ⟨hpos, hall⟩

def newCommittee (epoch : Nat) (members : List CommitteeMember) (epochConfig : Config) :
    Except Abort Committee :=
  if hne : members ≠ [] then
    match h : members.foldlM addMemberWeight 0 with
    | .error e => .error e
    | .ok totalWeight =>
        have loop := addMemberWeight_loop (by decide) h
        .ok { epoch, members, totalWeight, epochConfig
              members_ne := hne
              weight_pos := loop.1
              total_eq := by rw [loop.2.1, Nat.zero_add]
              total_lt := loop.2.2 }
  else .error .assertion

def newCommitteeMember (validatorAddress : Address) (publicKey : PublicKey)
    (encryptionPublicKey : Bytes) (weight : Nat) : Except Abort CommitteeMember := do
  require (0 < weight) Abort.incorrectCommittee
  return { validatorAddress, publicKey, encryptionPublicKey, weight, extraFields := Config.empty }

namespace Committee

def nMembers (self : Committee) : Nat := self.members.length

def findMember (self : Committee) (validatorAddress : Address) : Option CommitteeMember :=
  self.members.find? fun member => member.validatorAddress = validatorAddress

def hasMember (self : Committee) (validatorAddress : Address) : Bool :=
  (self.findMember validatorAddress).isSome

def getMemberWeight (self : Committee) (validatorAddress : Address) : Nat :=
  ((self.findMember validatorAddress).map CommitteeMember.weight).getD 0

/-! ## Certificate verification -/

structure Signers where
  aggregateWeight : Nat
  publicKeys : List PublicKey
deriving DecidableEq

/-- Bit `bitIndex` of a bitmap byte, counted from the most significant. -/
def isSigner (byte : UInt8) (bitIndex : Nat) : Bool := byte.toNat.testBit (7 - bitIndex)

/-- One bit of the bitmap. A set bit past the last member is malformed. -/
def visitBit (self : Committee) (byte : UInt8) (offset : Nat) (acc : Signers) (bitIndex : Nat) :
    Except Abort Signers :=
  match self.members[offset + bitIndex]? with
  | none => do
      require (isSigner byte bitIndex = false) Abort.invalidBitmap
      return acc
  | some member =>
      if isSigner byte bitIndex then do
        let aggregateWeight ← add acc.aggregateWeight member.weight
        return ⟨aggregateWeight, acc.publicKeys ++ [member.publicKey]⟩
      else .ok acc

def visitByte (self : Committee) (state : Signers × Nat) (byte : UInt8) :
    Except Abort (Signers × Nat) := do
  let acc ← (List.range 8).foldlM (self.visitBit byte state.2) state.1
  return (acc, state.2 + 8)

/-- The signed bytes: the intent first, then the deployment, the epoch and the message. -/
def signingPreimage (hashiId : Address) (intent : Nat) (epoch : Nat) (message : Bytes) : Bytes :=
  bcsU16 intent ++ bcsAddress hashiId ++ bcsU64 epoch ++ message

def verifyCertificate {T : Type} (crypto : Crypto) (toBytes : T → Bytes) (self : Committee)
    (hashiId : Address) (intent : Nat) (message : T) (signature : CommitteeSignature)
    (threshold : Nat) : Except Abort (CertifiedMessage T) := do
  require (signature.epoch = self.epoch) Abort.assertion
  require (signature.signersBitmap.length ≤ divideAndRoundUp self.nMembers 8) Abort.invalidBitmap
  let (signers, _) ← signature.signersBitmap.foldlM self.visitByte (⟨0, []⟩, 0)
  require (threshold ≤ signers.aggregateWeight) Abort.notEnoughStake
  require (crypto.minPkVerify signature.signature (crypto.g1Sum signers.publicKeys)
    (signingPreimage hashiId intent signature.epoch (toBytes message))) Abort.sigVerification
  return { message, signature, stakeSupport := signers.aggregateWeight }

end Committee

end HashiBridge.Core
