import HashiBridge.Core.Committee

/-!
# The committee registry

Registered members, the committee of every epoch that formed one, the handoff certificates between
them and the pending epoch change while a reconfiguration is in flight.
-/

namespace HashiBridge.Core

open Lib

structure MemberInfo where
  validatorAddress : Address
  operatorAddress : Address
  nextEpochPublicKey : PublicKey
  endpointUrl : String
  tlsPublicKey : Bytes
  nextEpochEncryptionPublicKey : Bytes
  ignored : Bool
  resigned : Bool
  extraFields : Config
deriving DecidableEq

/-- The target of a reconfiguration in flight and the outgoing committee's certificate for it. -/
structure PendingEpochChange where
  epoch : Nat
  committeeHandoffCert : Option CommitteeSignature
deriving DecidableEq

structure CommitteeHandoff where
  nextEpoch : Nat
  cert : CommitteeSignature
deriving DecidableEq

structure CommitteeSet where
  members : Bag Address MemberInfo
  tlsPublicKeys : Bag Bytes Address
  epoch : Nat
  committees : Bag Nat Committee
  handoffs : Bag Nat CommitteeHandoff
  pendingEpochChange : Option PendingEpochChange
  mpcPublicKey : Bytes

def MPC_PUBLIC_KEY_LENGTH : Nat := 33

namespace MemberInfo

/-- The sender is the member's validator or operator key; the zero address never is. -/
def isAuthorized (self : MemberInfo) (ctx : TxContext) : Prop :=
  ctx.sender ≠ 0 ∧ (ctx.sender = self.validatorAddress ∨ ctx.sender = self.operatorAddress)

instance (self : MemberInfo) (ctx : TxContext) : Decidable (self.isAuthorized ctx) :=
  inferInstanceAs (Decidable (_ ∧ _))

def assertAuthorized (self : MemberInfo) (ctx : TxContext) : Except Abort Unit :=
  require (self.isAuthorized ctx) Abort.notAuthorized

end MemberInfo

namespace CommitteeSet

/-! ## Views -/

def create : CommitteeSet where
  members := ∅
  tlsPublicKeys := ∅
  epoch := 0
  committees := ∅
  handoffs := ∅
  pendingEpochChange := none
  mpcPublicKey := []

def hasMember (self : CommitteeSet) (validatorAddress : Address) : Prop :=
  validatorAddress ∈ self.members

instance (self : CommitteeSet) (a : Address) : Decidable (self.hasMember a) :=
  inferInstanceAs (Decidable (a ∈ self.members))

def member (self : CommitteeSet) (validatorAddress : Address) : Except Abort MemberInfo :=
  self.members.borrow .fieldDoesNotExist validatorAddress

def memberAuthorized (self : CommitteeSet) (validatorAddress : Address) (ctx : TxContext) : Bool :=
  match self.members.lookup validatorAddress with
  | some m => decide (m.isAuthorized ctx)
  | none => false

def hasCommittee (self : CommitteeSet) (epoch : Nat) : Prop := epoch ∈ self.committees

instance (self : CommitteeSet) (epoch : Nat) : Decidable (self.hasCommittee epoch) :=
  inferInstanceAs (Decidable (epoch ∈ self.committees))

def getCommittee (self : CommitteeSet) (epoch : Nat) : Except Abort Committee :=
  self.committees.borrow .fieldDoesNotExist epoch

def currentCommittee (self : CommitteeSet) : Except Abort Committee := self.getCommittee self.epoch

def isReconfiguring (self : CommitteeSet) : Bool := self.pendingEpochChange.isSome

def pendingEpoch (self : CommitteeSet) : Option Nat :=
  self.pendingEpochChange.map PendingEpochChange.epoch

/-- The walk down from the current epoch that looks for a committee above `bound`. -/
def committeeAbove (self : CommitteeSet) (bound : Nat) : Nat → Bool
  | 0 => false
  | e + 1 => bound < e + 1 && (decide (self.hasCommittee e) || self.committeeAbove bound e)

def isBeforePreviousCommittee (self : CommitteeSet) (epoch : Nat) : Except Abort Bool := do
  let bound ← add epoch 1
  return self.committeeAbove bound self.epoch

/-! ## The member registry -/

def setMember (self : CommitteeSet) (validatorAddress : Address) (m : MemberInfo) : CommitteeSet :=
  { self with members := self.members.insert validatorAddress m }

def registerMember (crypto : Crypto) (self : CommitteeSet) (validatorAddress : Address)
    (isActiveSuiValidator : Bool) : Except Abort CommitteeSet := do
  require isActiveSuiValidator Abort.notAnActiveSuiValidator
  require (¬ self.hasMember validatorAddress) Abort.memberAlreadyRegistered
  let members ← self.members.add Abort.fieldAlreadyExists validatorAddress
    { validatorAddress
      operatorAddress := validatorAddress
      nextEpochPublicKey := crypto.g1Identity
      endpointUrl := ""
      tlsPublicKey := []
      nextEpochEncryptionPublicKey := []
      ignored := false
      resigned := false
      extraFields := Config.empty }
  return { self with members }

def newMember (crypto : Crypto) (self : CommitteeSet) (activeValidators : List Address)
    (ctx : TxContext) : Except Abort CommitteeSet :=
  self.registerMember crypto ctx.sender (activeValidators.contains ctx.sender)

def INTENT_PROOF_OF_POSSESSION : Nat := 0x0000
def INTENT_TLS_PROOF_OF_POSSESSION : Nat := 0x0006

def verifyProofOfPossession (crypto : Crypto) (hashiId : Address) (epoch : Nat)
    (validatorAddress : Address) (blsPublicKey proofOfPossessionSignature : Bytes) : Bool :=
  crypto.minPkVerify proofOfPossessionSignature blsPublicKey
    (bcsU16 INTENT_PROOF_OF_POSSESSION ++ bcsAddress hashiId ++ bcsU64 epoch ++
      bcsAddress validatorAddress ++ blsPublicKey)

def verifyBlsPublicKey (crypto : Crypto) (hashiId : Address) (epoch : Nat)
    (validatorAddress : Address) (blsPublicKey proofOfPossessionSignature : Bytes) :
    Except Abort PublicKey := do
  require (verifyProofOfPossession crypto hashiId epoch validatorAddress blsPublicKey
    proofOfPossessionSignature) Abort.invalidBlsProofOfPossession
  orAbort (crypto.g1FromBytes blsPublicKey) Abort.invalidPoint

def verifyTlsProofOfPossession (crypto : Crypto) (hashiId validatorAddress : Address)
    (tlsPublicKey proofOfPossessionSignature : Bytes) : Bool :=
  crypto.ed25519Verify proofOfPossessionSignature tlsPublicKey
    (bcsU16 INTENT_TLS_PROOF_OF_POSSESSION ++ bcsAddress hashiId ++ bcsAddress validatorAddress ++
      tlsPublicKey)

def updateMember (self : CommitteeSet) (validatorAddress : Address) (ctx : TxContext)
    (update : MemberInfo → MemberInfo) : Except Abort CommitteeSet := do
  let m ← self.member validatorAddress
  m.assertAuthorized ctx
  return self.setMember validatorAddress (update m)

def setNextEpochPublicKey (crypto : Crypto) (self : CommitteeSet) (hashiId : Address)
    (validatorAddress : Address) (nextEpochPublicKey proofOfPossessionSignature : Bytes)
    (ctx : TxContext) : Except Abort CommitteeSet := do
  let key ← verifyBlsPublicKey crypto hashiId ctx.epoch validatorAddress nextEpochPublicKey
    proofOfPossessionSignature
  self.updateMember validatorAddress ctx fun m => { m with nextEpochPublicKey := key }

def setEndpointUrl (self : CommitteeSet) (validatorAddress : Address) (endpointUrl : String)
    (ctx : TxContext) : Except Abort CommitteeSet :=
  self.updateMember validatorAddress ctx fun m => { m with endpointUrl }

def setOperatorAddress (self : CommitteeSet) (validatorAddress operatorAddress : Address)
    (ctx : TxContext) : Except Abort CommitteeSet :=
  self.updateMember validatorAddress ctx fun m => { m with operatorAddress }

def setNextEpochEncryptionPublicKey (self : CommitteeSet) (validatorAddress : Address)
    (nextEpochEncryptionPublicKey : Bytes) (ctx : TxContext) : Except Abort CommitteeSet := do
  require (nextEpochEncryptionPublicKey.length = 32) Abort.invalidEncryptionPublicKeyLength
  self.updateMember validatorAddress ctx fun m => { m with nextEpochEncryptionPublicKey }

/-- Drop a key from the reverse index, where it is not the empty placeholder. -/
def dropTlsKey (tlsPublicKeys : Bag Bytes Address) (previous : Bytes) :
    Except Abort (Bag Bytes Address) :=
  if previous = [] then .ok tlsPublicKeys
  else Prod.snd <$> tlsPublicKeys.remove Abort.fieldDoesNotExist previous

def writeTlsPublicKey (self : CommitteeSet) (validatorAddress : Address) (tlsPublicKey : Bytes) :
    Except Abort CommitteeSet := do
  require (tlsPublicKey.length = 32) Abort.invalidTlsPublicKeyLength
  require (tlsPublicKey ∉ self.tlsPublicKeys ∨
    self.tlsPublicKeys.lookup tlsPublicKey = some validatorAddress) Abort.tlsPublicKeyInUse
  let m ← self.member validatorAddress
  let dropped ← dropTlsKey self.tlsPublicKeys m.tlsPublicKey
  let tlsPublicKeys ← dropped.add Abort.fieldAlreadyExists tlsPublicKey validatorAddress
  return { self.setMember validatorAddress { m with tlsPublicKey } with tlsPublicKeys }

def setTlsPublicKey (crypto : Crypto) (self : CommitteeSet) (hashiId validatorAddress : Address)
    (tlsPublicKey proofOfPossessionSignature : Bytes) (ctx : TxContext) :
    Except Abort CommitteeSet := do
  require (tlsPublicKey.length = 32) Abort.invalidTlsPublicKeyLength
  let m ← self.member validatorAddress
  m.assertAuthorized ctx
  require (verifyTlsProofOfPossession crypto hashiId validatorAddress tlsPublicKey
    proofOfPossessionSignature) Abort.invalidTlsProofOfPossession
  self.writeTlsPublicKey validatorAddress tlsPublicKey

def setMemberIgnored (self : CommitteeSet) (validatorAddress : Address) (ignored : Bool) :
    Except Abort CommitteeSet := do
  require (self.hasMember validatorAddress) Abort.memberNotRegistered
  let m ← self.member validatorAddress
  return self.setMember validatorAddress { m with ignored }

def isMemberIgnored (self : CommitteeSet) (validatorAddress : Address) : Except Abort Bool := do
  require (self.hasMember validatorAddress) Abort.memberNotRegistered
  let m ← self.member validatorAddress
  return m.ignored

def inCurrentOrPendingCommittee (self : CommitteeSet) (validatorAddress : Address) : Bool :=
  let serves (epoch : Nat) := (self.committees.lookup epoch).any (·.hasMember validatorAddress)
  serves self.epoch || self.pendingEpoch.any serves

def isActiveMember (self : CommitteeSet) (validatorAddress : Address) : Bool :=
  (self.members.lookup validatorAddress).any fun m => !m.resigned && !m.ignored

def assertNotLastActiveMember (self : CommitteeSet) (validatorAddress : Address) :
    Except Abort Unit :=
  match self.committees.lookup self.epoch with
  | none => .ok ()
  | some committee =>
      require (committee.hasMember validatorAddress = false ∨
        committee.members.any fun m =>
          decide (m.validatorAddress ≠ validatorAddress) && self.isActiveMember m.validatorAddress)
        Abort.lastActiveMember

/-- A serving member may resign only while another member of the committee stays active. -/
def assertMayResign (self : CommitteeSet) (validatorAddress : Address) : Except Abort Unit :=
  if self.inCurrentOrPendingCommittee validatorAddress then
    self.assertNotLastActiveMember validatorAddress
  else .ok ()

def requestResignation (self : CommitteeSet) (validatorAddress : Address) (ctx : TxContext) :
    Except Abort CommitteeSet := do
  require (self.hasMember validatorAddress) Abort.memberNotRegistered
  let m ← self.member validatorAddress
  m.assertAuthorized ctx
  require (m.resigned = false) Abort.alreadyResigned
  self.assertMayResign validatorAddress
  return self.setMember validatorAddress { m with resigned := true }

def clearResignation (self : CommitteeSet) (validatorAddress : Address) (ctx : TxContext) :
    Except Abort CommitteeSet := do
  require (self.hasMember validatorAddress) Abort.memberNotRegistered
  let m ← self.member validatorAddress
  m.assertAuthorized ctx
  require (m.resigned = true) Abort.notResigned
  return self.setMember validatorAddress { m with resigned := false }

def removeMember (self : CommitteeSet) (validatorAddress : Address) : Except Abort CommitteeSet := do
  let (m, members) ← self.members.remove Abort.fieldDoesNotExist validatorAddress
  let tlsPublicKeys ← dropTlsKey self.tlsPublicKeys m.tlsPublicKey
  return { self with members, tlsPublicKeys }

def removeInactiveMember (self : CommitteeSet) (validatorAddress : Address)
    (isActiveSuiValidator : Bool) : Except Abort CommitteeSet := do
  require (self.hasMember validatorAddress) Abort.memberNotRegistered
  require (self.inCurrentOrPendingCommittee validatorAddress = false) Abort.memberStillActive
  let m ← self.member validatorAddress
  require (m.ignored = false) Abort.cannotRemoveIgnoredMember
  require (m.resigned = true ∨ isActiveSuiValidator = false) Abort.memberNotRemovable
  self.removeMember validatorAddress

/-! ## Reconfiguration -/

/-- The committee seat of a validator, where it is a registered member with usable keys that is
neither ignored nor resigned. -/
def committeeSeat (crypto : Crypto) (self : CommitteeSet) (validator : Address × Nat) :
    Except Abort (Option CommitteeMember) :=
  match self.members.lookup validator.1 with
  | none => .ok none
  | some m =>
      if m.ignored ∨ m.resigned ∨ m.nextEpochPublicKey = crypto.g1Identity ∨
          m.nextEpochEncryptionPublicKey = [] then .ok none
      else some <$> newCommitteeMember validator.1 m.nextEpochPublicKey
        m.nextEpochEncryptionPublicKey validator.2

/-- The loop pops the validators from the back, so the committee lists them in reverse. -/
def newCommitteeFromVotingPowers (crypto : Crypto) (self : CommitteeSet) (epoch : Nat)
    (validatorSet : VecMap Address Nat) (epochConfig : Config) : Except Abort Committee := do
  let seats ← validatorSet.contents.reverse.mapM (self.committeeSeat crypto)
  newCommittee epoch seats.reduceOption epochConfig

def startReconfigFromVotingPowers (crypto : Crypto) (self : CommitteeSet)
    (validatorSet : VecMap Address Nat) (epochConfig : Config) (ctx : TxContext) :
    Except Abort CommitteeSet := do
  require (self.isReconfiguring = false) Abort.assertion
  require (¬ self.hasCommittee ctx.epoch) Abort.assertion
  require (self.epoch = 0 ∨ self.epoch ≠ ctx.epoch) Abort.assertion
  let committee ← self.newCommitteeFromVotingPowers crypto ctx.epoch validatorSet epochConfig
  let committees ← self.committees.add Abort.fieldAlreadyExists committee.epoch committee
  return { self with
    committees
    pendingEpochChange := some { epoch := committee.epoch, committeeHandoffCert := none } }

def setPendingCommitteeHandoffCert (self : CommitteeSet) (cert : CommitteeSignature) :
    Except Abort CommitteeSet := do
  let pending ← orAbort self.pendingEpochChange Abort.optionIsNone
  require (pending.committeeHandoffCert = none) Abort.assertion
  return { self with
    pendingEpochChange := some { pending with committeeHandoffCert := some cert } }

/-- Activate the pending committee. The first key is the one the key generation produced; every
later completion must present the same key and a handoff certificate. -/
def endReconfig (self : CommitteeSet) (mpcPublicKey : Bytes) :
    Except Abort (CommitteeSet × Nat × Option CommitteeSignature) := do
  require self.isReconfiguring Abort.assertion
  let pending ← orAbort self.pendingEpochChange Abort.optionIsNone
  require (self.hasCommittee pending.epoch) Abort.assertion
  require (mpcPublicKey.length = MPC_PUBLIC_KEY_LENGTH) Abort.invalidMpcPublicKey
  require (self.mpcPublicKey = [] ∨ pending.committeeHandoffCert.isSome) Abort.assertion
  require (self.mpcPublicKey = [] ∨ self.mpcPublicKey = mpcPublicKey) Abort.assertion
  return ({ self with epoch := pending.epoch, pendingEpochChange := none, mpcPublicKey },
    pending.epoch, pending.committeeHandoffCert)

def abortReconfig (self : CommitteeSet) (ctx : TxContext) : Except Abort CommitteeSet := do
  require self.isReconfiguring Abort.assertion
  let pending ← orAbort self.pendingEpochChange Abort.optionIsNone
  require (pending.epoch ≠ ctx.epoch) Abort.pendingEpochStillCurrent
  let (_, committees) ← self.committees.remove Abort.fieldDoesNotExist pending.epoch
  return { self with committees, pendingEpochChange := none }

def insertCommitteeHandoff (self : CommitteeSet) (fromEpoch nextEpoch : Nat)
    (cert : CommitteeSignature) : Except Abort CommitteeSet := do
  require (fromEpoch ∉ self.handoffs) Abort.assertion
  let handoffs ← self.handoffs.add Abort.fieldAlreadyExists fromEpoch { nextEpoch, cert }
  return { self with handoffs }

end CommitteeSet

end HashiBridge.Core
