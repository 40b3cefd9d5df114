import HashiBridge.Chain.Hashi

/-!
# Reconfiguration and member registry entry functions

A reconfiguration forms the next committee, collects the outgoing committee's handoff certificate
and completes under a certificate of the incoming committee, all within one Sui epoch; once Sui's
epoch has moved on it can only be aborted.
-/

namespace HashiBridge.Chain

open Lib HashiBridge.Core

namespace Hashi

/-! ## Reconfiguration -/

def assertReconfigNotHeld (self : Hashi) : Except Abort Unit := do
  let hold ← self.config.reconfigHold
  require (hold = false) Abort.reconfigHeld

def assertGenesisLaunchAuthorized (self : Hashi) : Except Abort Unit :=
  require (self.committeeSet.mpcPublicKey ≠ [] ∨ self.versioning.upgradeCap.isSome)
    Abort.genesisNotAuthorized

def startReconfig (env : Env) (self : Hashi) (validatorSet : VecMap Address Nat) (ctx : TxContext) :
    Except Abort Hashi := do
  self.versioning.assertVersionEnabled
  self.assertReconfigNotHeld
  require (self.committeeSet.isReconfiguring = false) Abort.assertion
  self.assertGenesisLaunchAuthorized
  let committeeSet ← self.committeeSet.startReconfigFromVotingPowers env.crypto validatorSet
    self.epochConfig ctx
  return { self with committeeSet }

def pendingEpochInWindow (self : Hashi) (ctx : TxContext) : Except Abort Nat := do
  let nextEpoch ← orAbort self.committeeSet.pendingEpoch Abort.notReconfiguring
  require (nextEpoch = ctx.epoch) Abort.reconfigWindowClosed
  return nextEpoch

/-- The handoff certificate of a completed reconfiguration is stored under the epoch it leaves; the
initial reconfiguration has none. -/
def storeHandoff (committeeSet : CommitteeSet) (isInitialReconfig : Bool) (fromEpoch epoch : Nat)
    (cert : Option CommitteeSignature) : Except Abort CommitteeSet :=
  if isInitialReconfig then do
    require (cert = none) Abort.optionIsSome
    return committeeSet
  else do
    let cert ← orAbort cert Abort.optionIsNone
    committeeSet.insertCommitteeHandoff fromEpoch epoch cert

def endReconfig (env : Env) (self : Hashi) (mpcPublicKey : Bytes) (mpcCert : CommitteeSignature)
    (ctx : TxContext) : Except Abort Hashi := do
  self.versioning.assertVersionEnabled
  let nextEpoch := mpcCert.epoch
  require (¬ (self.committeeSet.pendingEpoch ≠ some nextEpoch ∧
    self.committeeSet.epoch = nextEpoch ∧ self.committeeSet.hasCommittee nextEpoch))
    Abort.reconfigAlreadyCompleted
  let pendingEpoch ← self.pendingEpochInWindow ctx
  require (pendingEpoch = nextEpoch) Abort.wrongReconfigEpoch
  let nextCommittee ← self.committeeSet.getCommittee nextEpoch
  let _ ← self.verifyWithCommittee env nextCommittee (.reconfigCompletion nextEpoch mpcPublicKey)
    mpcCert
  let isInitialReconfig := self.committeeSet.mpcPublicKey.isEmpty
  let (ended, epoch, cert) ← self.committeeSet.endReconfig mpcPublicKey
  let committeeSet ← storeHandoff ended isInitialReconfig self.committeeSet.epoch epoch cert
  return { self with committeeSet, presigAllocator := .create }

def handoffCompleted (self : Hashi) (fromEpoch epoch : Nat) : Prop :=
  (self.committeeSet.handoffs.lookup fromEpoch).map CommitteeHandoff.nextEpoch = some epoch

instance (self : Hashi) (fromEpoch epoch : Nat) : Decidable (self.handoffCompleted fromEpoch epoch) :=
  inferInstanceAs (Decidable (_ = _))

def submitCommitteeHandoff (env : Env) (self : Hashi) (epoch : Nat) (cert : CommitteeSignature)
    (ctx : TxContext) : Except Abort Hashi := do
  self.versioning.assertVersionEnabled
  require (¬ self.handoffCompleted cert.epoch epoch) Abort.reconfigAlreadyCompleted
  let pendingEpoch ← self.pendingEpochInWindow ctx
  require (pendingEpoch = epoch) Abort.wrongReconfigEpoch
  require (self.committeeSet.mpcPublicKey ≠ []) Abort.initialReconfig
  let newCommittee ← self.committeeSet.getCommittee epoch
  let current ← self.currentCommittee
  let _ ← self.verifyWithCommittee env current (.committeeTransition newCommittee) cert
  let committeeSet ← self.committeeSet.setPendingCommitteeHandoffCert cert
  return { self with committeeSet }

def abortReconfig (self : Hashi) (epoch : Nat) (ctx : TxContext) : Except Abort Hashi := do
  self.versioning.assertVersionEnabled
  let pendingEpoch ← orAbort self.committeeSet.pendingEpoch Abort.notReconfiguring
  require (pendingEpoch = epoch) Abort.wrongReconfigEpoch
  let committeeSet ← self.committeeSet.abortReconfig ctx
  return { self with committeeSet }

/-! ## The member registry -/

def updateRegistry (self : Hashi) (update : CommitteeSet → Except Abort CommitteeSet) :
    Except Abort Hashi := do
  self.versioning.assertVersionEnabled
  let committeeSet ← update self.committeeSet
  return { self with committeeSet }

def register (env : Env) (self : Hashi) (activeValidators : List Address) (ctx : TxContext) :
    Except Abort Hashi :=
  self.updateRegistry fun set => set.newMember env.crypto activeValidators ctx

def updateNextEpochPublicKey (env : Env) (self : Hashi) (validator : Address)
    (nextEpochPublicKey proofOfPossessionSignature : Bytes) (ctx : TxContext) :
    Except Abort Hashi :=
  self.updateRegistry fun set => set.setNextEpochPublicKey env.crypto self.id validator
    nextEpochPublicKey proofOfPossessionSignature ctx

def updateOperatorAddress (self : Hashi) (validator operator : Address) (ctx : TxContext) :
    Except Abort Hashi :=
  self.updateRegistry fun set => set.setOperatorAddress validator operator ctx

def updateEndpointUrl (self : Hashi) (validator : Address) (endpointUrl : String)
    (ctx : TxContext) : Except Abort Hashi :=
  self.updateRegistry fun set => set.setEndpointUrl validator endpointUrl ctx

def updateTlsPublicKey (env : Env) (self : Hashi) (validator : Address)
    (tlsPublicKey proofOfPossessionSignature : Bytes) (ctx : TxContext) : Except Abort Hashi :=
  self.updateRegistry fun set => set.setTlsPublicKey env.crypto self.id validator tlsPublicKey
    proofOfPossessionSignature ctx

def updateNextEpochEncryptionPublicKey (self : Hashi) (validator : Address)
    (nextEpochEncryptionPublicKey : Bytes) (ctx : TxContext) : Except Abort Hashi :=
  self.updateRegistry fun set =>
    set.setNextEpochEncryptionPublicKey validator nextEpochEncryptionPublicKey ctx

def resign (self : Hashi) (validator : Address) (ctx : TxContext) : Except Abort Hashi :=
  self.updateRegistry fun set => set.requestResignation validator ctx

def withdrawResignation (self : Hashi) (validator : Address) (ctx : TxContext) :
    Except Abort Hashi :=
  self.updateRegistry fun set => set.clearResignation validator ctx

def removeInactiveMember (self : Hashi) (activeValidators : List Address) (validator : Address) :
    Except Abort Hashi :=
  self.updateRegistry fun set =>
    set.removeInactiveMember validator (activeValidators.contains validator)

end Hashi

end HashiBridge.Chain
