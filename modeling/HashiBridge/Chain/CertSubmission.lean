import HashiBridge.Chain.Hashi

/-!
# Certificate submission entry functions

Members submit their dealer certificates for the current or the pending epoch, the committee seals
a batch of nonce certificates, and old buckets are destroyed by anyone once they are not needed.
-/

namespace HashiBridge.Chain

open Lib HashiBridge.Core

namespace Hashi

def KEY_GEN_CERT_RETENTION_EPOCHS : Nat := 8
def NONCE_CERT_MIN_AGE_EPOCHS : Nat := 2

def dkgKey (epoch : Nat) : TobKey := ⟨epoch, none, .dkg⟩
def keyRotationKey (epoch : Nat) : TobKey := ⟨epoch, none, .keyRotation⟩
def nonceKey (epoch batchIndex : Nat) : TobKey := ⟨epoch, some batchIndex, .nonceGeneration⟩

/-! ## Submission -/

def assertCanSubmit (self : Hashi) (epoch : Nat) (dealer : Address) (ctx : TxContext) :
    Except Abort Unit := do
  self.versioning.assertVersionEnabled
  require (self.committeeSet.memberAuthorized dealer ctx) Abort.assertion
  require (epoch = self.committeeSet.epoch ∨ self.committeeSet.pendingEpoch = some epoch)
    Abort.assertion

def epochCerts (self : Hashi) (key : TobKey) : EpochCertsV1 :=
  (self.tob.lookup key).getD (.create key.epoch key.protocolType)

def submitCert (self : Hashi) (key : TobKey) (epoch : Nat) (dealer : Address)
    (messagesHash : Bytes) (cert : CommitteeSignature) (now : Nat) (ctx : TxContext) :
    Except Abort Hashi := do
  self.assertCanSubmit epoch dealer ctx
  let certs ← (self.epochCerts key).submitCertWithSignature epoch dealer messagesHash cert now
  return { self with tob := self.tob.insert key certs }

def submitDkgCert (self : Hashi) (epoch : Nat) (dealer : Address) (messagesHash : Bytes)
    (cert : CommitteeSignature) (now : Nat) (ctx : TxContext) : Except Abort Hashi :=
  self.submitCert (dkgKey epoch) epoch dealer messagesHash cert now ctx

def submitRotationCert (self : Hashi) (epoch : Nat) (dealer : Address) (messagesHash : Bytes)
    (cert : CommitteeSignature) (now : Nat) (ctx : TxContext) : Except Abort Hashi :=
  self.submitCert (keyRotationKey epoch) epoch dealer messagesHash cert now ctx

def submitNonceCert (self : Hashi) (epoch batchIndex : Nat) (dealer : Address)
    (messagesHash : Bytes) (cert : CommitteeSignature) (now : Nat) (ctx : TxContext) :
    Except Abort Hashi :=
  self.submitCert (nonceKey epoch batchIndex) epoch dealer messagesHash cert now ctx

/-- Seal a batch of nonce certificates with fresh randomness; a sealed one stays as it is. -/
def submitPresigDealerSet (env : Env) (self : Hashi) (batchIndex : Nat) (dealerSetDigest : Bytes)
    (cert : CommitteeSignature) (randomness : Bytes) : Except Abort Hashi := do
  self.versioning.assertVersionEnabled
  let epoch := self.committeeSet.epoch
  let _ ← self.verify env (.presigDealerSet epoch batchIndex dealerSetDigest) cert
  let bucket ← orAbort (self.tob.lookup (nonceKey epoch batchIndex)) Abort.noNonceBucket
  return if bucket.isSealed then self else
    { self with
      tob := self.tob.insert (nonceKey epoch batchIndex)
        { bucket with presigSeal := some { randomness, dealerSetDigest } } }

/-! ## Garbage collection -/

def destroyBucketIfPresent (currentEpoch : Nat) (self : Hashi) (key : TobKey) :
    Except Abort Hashi :=
  match self.tob.lookup key with
  | none => .ok self
  | some bucket => do
      bucket.destroyAll currentEpoch
      return { self with tob := self.tob.erase key }

def destroyKeyGenCerts (self : Hashi) (epoch : Nat) : Except Abort Hashi := do
  self.versioning.assertVersionEnabled
  let currentEpoch := self.committeeSet.epoch
  let bound ← add epoch KEY_GEN_CERT_RETENTION_EPOCHS
  require (bound ≤ currentEpoch) Abort.tooEarlyToDestroyKeyGenCerts
  let before ← self.committeeSet.isBeforePreviousCommittee epoch
  require before Abort.keyGenCertsStillNeeded
  let dropped ← self.destroyBucketIfPresent currentEpoch (dkgKey epoch)
  dropped.destroyBucketIfPresent currentEpoch (keyRotationKey epoch)

def destroyNonceCerts (self : Hashi) (epoch batchIndex : Nat) : Except Abort Hashi := do
  self.versioning.assertVersionEnabled
  let currentEpoch := self.committeeSet.epoch
  let bound ← add epoch NONCE_CERT_MIN_AGE_EPOCHS
  require (bound ≤ currentEpoch) Abort.tooEarlyToDestroyNonceCerts
  self.destroyBucketIfPresent currentEpoch (nonceKey epoch batchIndex)

end Hashi

end HashiBridge.Chain
