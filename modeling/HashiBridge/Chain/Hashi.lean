import HashiBridge.Core.Proposal
import HashiBridge.Core.Tob
import HashiBridge.Core.Treasury
import HashiBridge.Btc.BitcoinState

/-!
# The root object

`Hashi` aggregates every subsystem. The guards that the entry functions share are here: the pause
flag, the reconfiguration check and the verification of a committee certificate.
-/

namespace HashiBridge.Chain

open Lib HashiBridge.Core Btc

/-! ## Signed messages -/

inductive Message
  | committeeTransition (newCommittee : Committee)
  | reconfigCompletion (epoch : Nat) (mpcPublicKey : Bytes)
  | presigDealerSet (epoch batchIndex : Nat) (dealerSetDigest : Bytes)
  | depositConfirmation (requestId : Address) (utxo : Utxo)
  | requestApproval (requestId : Address)
  | withdrawalCommitment (requestIds : List Address) (selectedUtxos : List UtxoId)
      (outputs : List OutputUtxo) (txid : Address)
  | mpcInputSignatures (withdrawalId : Address) (indices : List Nat) (signatures : List Bytes)
  | withdrawalSigned (withdrawalId : Address) (signatures guardianSignatures : List Bytes)
  | withdrawalConfirmation (withdrawalId : Address)

def Message.intent : Message → Nat
  | committeeTransition .. => 0x0001
  | reconfigCompletion .. => 0x0002
  | presigDealerSet .. => 0x0007
  | depositConfirmation .. => 0x0100
  | requestApproval .. => 0x0101
  | withdrawalCommitment .. => 0x0102
  | mpcInputSignatures .. => 0x0103
  | withdrawalSigned .. => 0x0104
  | withdrawalConfirmation .. => 0x0105

/-- What the deployment runs against: the native cryptography, the canonical encoding of messages
and the id of the package. -/
structure Env where
  crypto : Crypto
  bcs : Message → Bytes
  packageId : Address

/-! ## The object and its guards -/

structure Hashi where
  id : Address
  committeeSet : CommitteeSet
  config : Config
  epochConfig : Config
  versioning : Versioning
  treasury : Treasury
  proposals : Proposals
  tob : Bag TobKey EpochCertsV1
  presigAllocator : PresigAllocator
  bitcoin : BitcoinState

namespace Hashi

def init (id : Address) : Hashi where
  id := id
  committeeSet := .create
  config := BtcConfig.initDefaults Config.create
  epochConfig := MpcConfig.initDefaults Config.empty
  versioning := .create
  treasury := .create
  proposals := .create
  tob := ∅
  presigAllocator := .create
  bitcoin := .create

def currentCommittee (self : Hashi) : Except Abort Committee := self.committeeSet.currentCommittee

def assertUnpaused (self : Hashi) : Except Abort Unit := do
  let paused ← self.config.paused
  require (paused = false) Abort.systemPaused

def assertNotReconfiguring (self : Hashi) : Except Abort Unit := do
  require (self.committeeSet.isReconfiguring = false) Abort.reconfiguring
  require (self.committeeSet.hasCommittee self.committeeSet.epoch) Abort.noCommittee

def verifyWithCommittee (env : Env) (self : Hashi) (committee : Committee) (message : Message)
    (sig : CommitteeSignature) : Except Abort (CertifiedMessage Message) := do
  let threshold ← Threshold.certificateThreshold committee.totalWeight
  committee.verifyCertificate env.crypto env.bcs self.id message.intent message sig threshold

def verify (env : Env) (self : Hashi) (message : Message) (sig : CommitteeSignature) :
    Except Abort (CertifiedMessage Message) := do
  let committee ← self.currentCommittee
  self.verifyWithCommittee env committee message sig

/-! ## Launch -/

def setOptional (set : Config → Nat → Config) (config : Config) (value : Option Nat) : Config :=
  match value with
  | some v => set config v
  | none => config

/-- The one-time launch switch: pin the parameters and take the capabilities into custody. -/
def finishPublish (env : Env) (self : Hashi) (upgradeCap : UpgradeCap) (bitcoinChainId : Address)
    (guardianUrl guardianNodeUrl : String) (guardianBtcPublicKey : Bytes)
    (bitcoinConfirmationThreshold bitcoinDepositTimeDelayMs : Option Nat) : Except Abort Hashi := do
  self.versioning.assertVersionEnabled
  require (upgradeCap.package = env.packageId) Abort.wrongUpgradeCap
  let versioning ← self.versioning.setUpgradeCap upgradeCap
  let launched := (BtcConfig.setBitcoinChainId self.config bitcoinChainId).setGuardianUrl guardianUrl
  let pinned ← (launched.setGuardianNodeUrl guardianNodeUrl).setGuardianBtcPublicKey
    guardianBtcPublicKey
  let config := setOptional BtcConfig.setBitcoinDepositTimeDelayMs
    (setOptional BtcConfig.setBitcoinConfirmationThreshold pinned bitcoinConfirmationThreshold)
    bitcoinDepositTimeDelayMs
  let minted ← self.treasury.registerTreasuryCap
  let treasury ← minted.registerMetadataCap
  return { self with versioning, config, treasury }

end Hashi

end HashiBridge.Chain
