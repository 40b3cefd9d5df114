import HashiBridge.Core.Committee

/-!
# Certificate buckets of the MPC protocols

Dealer submissions are stored per epoch, protocol and batch in submission order, the first one of
each dealer. A bucket of nonce certificates is sealed once with the beacon's randomness.
-/

namespace HashiBridge.Core

open Lib

inductive ProtocolType
  | dkg | keyRotation | nonceGeneration
deriving DecidableEq

structure TobKey where
  epoch : Nat
  batchIndex : Option Nat
  protocolType : ProtocolType
deriving DecidableEq

structure PresigSealV1 where
  randomness : Bytes
  dealerSetDigest : Bytes
deriving DecidableEq

structure DealerSubmissionV1 where
  dealerAddress : Address
  messagesHash : Bytes
  signature : CommitteeSignature
  timestampMs : Nat
deriving DecidableEq

structure EpochCertsV1 where
  epoch : Nat
  protocolType : ProtocolType
  /-- submissions in order of arrival, by dealer -/
  certs : VecMap Address DealerSubmissionV1
  presigSeal : Option PresigSealV1
deriving DecidableEq

namespace EpochCertsV1

def create (epoch : Nat) (protocolType : ProtocolType) : EpochCertsV1 :=
  { epoch, protocolType, certs := VecMap.empty, presigSeal := none }

def submitCertWithSignature (self : EpochCertsV1) (epoch : Nat) (dealer : Address)
    (messagesHash : Bytes) (sig : CommitteeSignature) (timestampMs : Nat) :
    Except Abort EpochCertsV1 := do
  require (epoch = self.epoch) Abort.wrongEpoch
  return if self.certs.contains dealer then self else
    { self with
      certs := self.certs.upsert dealer
        { dealerAddress := dealer, messagesHash, signature := sig, timestampMs } }

def isSealed (self : EpochCertsV1) : Bool := self.presigSeal.isSome

def destroyAll (self : EpochCertsV1) (currentEpoch : Nat) : Except Abort Unit := do
  let bound ← add self.epoch 2
  require (bound ≤ currentEpoch) Abort.tooEarlyToDestroy

end EpochCertsV1

end HashiBridge.Core
