import HashiBridge.Core.Config

/-!
# Bitcoin outputs and the pool of the bridge's outputs

An output is in `utxoRecords` from its insertion until the withdrawal that spends it is confirmed
and cleaned up; its id is then kept in `spentUtxos` for good.
-/

namespace HashiBridge.Btc

open Lib HashiBridge.Core

structure UtxoId where
  txid : Address
  vout : Nat
deriving DecidableEq

structure Utxo where
  id : UtxoId
  /-- in satoshis -/
  amount : Nat
  derivationPath : Option Address
deriving DecidableEq

/-- The BTC a deposit of this output mints: its amount, where it has a recipient. -/
def Utxo.minted (self : Utxo) : Nat := if self.derivationPath.isSome then self.amount else 0

structure UtxoRecord where
  utxo : Utxo
  producedBy : Option Address
  spentBy : Option Address
  spentEpoch : Option Nat
deriving DecidableEq

structure UtxoPool where
  utxoRecords : Bag UtxoId UtxoRecord
  /-- the epoch in which each former record was spent -/
  spentUtxos : Bag UtxoId Nat

namespace UtxoPool

def create : UtxoPool := ⟨∅, ∅⟩

def isSpentOrActive (self : UtxoPool) (utxoId : UtxoId) : Prop :=
  utxoId ∈ self.utxoRecords ∨ utxoId ∈ self.spentUtxos

instance (self : UtxoPool) (utxoId : UtxoId) : Decidable (self.isSpentOrActive utxoId) :=
  inferInstanceAs (Decidable (_ ∨ _))

def assertNotSpentOrActive (self : UtxoPool) (utxoId : UtxoId) : Except Abort Unit :=
  require (¬ self.isSpentOrActive utxoId) Abort.utxoAlreadyUsed

/-- Both insertions guard against an outpoint that is live or already spent. -/
def insertRecord (self : UtxoPool) (utxo : Utxo) (producedBy : Option Address) :
    Except Abort UtxoPool := do
  self.assertNotSpentOrActive utxo.id
  let utxoRecords ← self.utxoRecords.add Abort.fieldAlreadyExists utxo.id
    { utxo, producedBy, spentBy := none, spentEpoch := none }
  return { self with utxoRecords }

def insertActive (self : UtxoPool) (utxo : Utxo) : Except Abort UtxoPool :=
  self.insertRecord utxo none

/-- Insert an unconfirmed change output; it is selectable at once. -/
def insertPending (self : UtxoPool) (utxo : Utxo) (withdrawalId : Address) :
    Except Abort UtxoPool :=
  self.insertRecord utxo (some withdrawalId)

def getUtxo (self : UtxoPool) (utxoId : UtxoId) : Except Abort Utxo := do
  let record ← self.utxoRecords.borrow Abort.fieldDoesNotExist utxoId
  return record.utxo

def lock (self : UtxoPool) (utxoId : UtxoId) (withdrawalId : Address) : Except Abort UtxoPool := do
  let record ← self.utxoRecords.borrow Abort.fieldDoesNotExist utxoId
  require (record.spentBy = none) Abort.utxoAlreadyLocked
  return { self with
    utxoRecords := self.utxoRecords.insert utxoId { record with spentBy := some withdrawalId } }

def markSpent (self : UtxoPool) (utxoId : UtxoId) (epoch : Nat) : Except Abort UtxoPool := do
  let record ← self.utxoRecords.borrow Abort.fieldDoesNotExist utxoId
  return { self with
    utxoRecords := self.utxoRecords.insert utxoId { record with spentEpoch := some epoch } }

/-- Promote a change output; a record that is already gone is skipped. -/
def confirmPending (self : UtxoPool) (utxoId : UtxoId) : UtxoPool :=
  match self.utxoRecords.lookup utxoId with
  | none => self
  | some record =>
      { self with
        utxoRecords := self.utxoRecords.insert utxoId { record with producedBy := none } }

/-- Move a spent record's id to `spentUtxos`; a record that is already gone is skipped. -/
def cleanupSpent (self : UtxoPool) (utxoId : UtxoId) : Except Abort UtxoPool :=
  match self.utxoRecords.lookup utxoId with
  | none => .ok self
  | some record => do
      let epoch ← orAbort record.spentEpoch Abort.optionIsNone
      let spentUtxos ← self.spentUtxos.add Abort.fieldAlreadyExists utxoId epoch
      return { utxoRecords := self.utxoRecords.erase utxoId, spentUtxos }

end UtxoPool

/-! ## Bitcoin parameters of the configuration -/

namespace BtcConfig

def DUST_RELAY_MIN_VALUE : Nat := 546

def KEY_BITCOIN_CHAIN_ID : String := "bitcoin_chain_id"
def KEY_BITCOIN_DEPOSIT_TIME_DELAY_MS : String := "bitcoin_deposit_time_delay_ms"
def KEY_BITCOIN_DEPOSIT_MINIMUM : String := "bitcoin_deposit_minimum"
def KEY_BITCOIN_WITHDRAWAL_MINIMUM : String := "bitcoin_withdrawal_minimum"
def KEY_BITCOIN_CONFIRMATION_THRESHOLD : String := "bitcoin_confirmation_threshold"
def KEY_WITHDRAWAL_CANCELLATION_COOLDOWN_MS : String := "withdrawal_cancellation_cooldown_ms"

def initDefaults (config : Config) : Config :=
  ((((config.upsert KEY_BITCOIN_DEPOSIT_TIME_DELAY_MS (.u64 (10 * 60 * 1000))).upsert
    KEY_BITCOIN_DEPOSIT_MINIMUM (.u64 30000)).upsert
    KEY_BITCOIN_WITHDRAWAL_MINIMUM (.u64 30000)).upsert
    KEY_BITCOIN_CONFIRMATION_THRESHOLD (.u64 6)).upsert
    KEY_WITHDRAWAL_CANCELLATION_COOLDOWN_MS (.u64 (1000 * 60 * 60))

/-- The chain id is pinned at launch, never through the generic update path. -/
def isGovernableKey (key : String) : Bool := key != KEY_BITCOIN_CHAIN_ID

def setBitcoinChainId (self : Config) (bitcoinChainId : Address) : Config :=
  self.upsert KEY_BITCOIN_CHAIN_ID (.address bitcoinChainId)

def setBitcoinConfirmationThreshold (self : Config) (confirmations : Nat) : Config :=
  self.upsert KEY_BITCOIN_CONFIRMATION_THRESHOLD (.u64 confirmations)

def setBitcoinDepositTimeDelayMs (self : Config) (timeDelayMs : Nat) : Config :=
  self.upsert KEY_BITCOIN_DEPOSIT_TIME_DELAY_MS (.u64 timeDelayMs)

def u64At (self : Config) (key : String) : Except Abort Nat := do
  let v ← self.get key
  v.asU64

/-- Never below dust plus one, so that the worst-case fee is at least one satoshi. -/
def bitcoinWithdrawalMinimum (self : Config) : Except Abort Nat := do
  let minimum ← u64At self KEY_BITCOIN_WITHDRAWAL_MINIMUM
  return max minimum (DUST_RELAY_MIN_VALUE + 1)

def bitcoinDepositMinimum (self : Config) : Except Abort Nat := do
  let minimum ← u64At self KEY_BITCOIN_DEPOSIT_MINIMUM
  return max minimum DUST_RELAY_MIN_VALUE

def bitcoinDepositTimeDelayMs (self : Config) : Except Abort Nat :=
  u64At self KEY_BITCOIN_DEPOSIT_TIME_DELAY_MS

def bitcoinChainId (self : Config) : Except Abort Address := do
  let v ← self.get KEY_BITCOIN_CHAIN_ID
  v.asAddress

def bitcoinConfirmationThreshold (self : Config) : Except Abort Nat :=
  u64At self KEY_BITCOIN_CONFIRMATION_THRESHOLD

def withdrawalCancellationCooldownMs (self : Config) : Except Abort Nat :=
  u64At self KEY_WITHDRAWAL_CANCELLATION_COOLDOWN_MS

def worstCaseNetworkFee (self : Config) : Except Abort Nat := do
  let minimum ← bitcoinWithdrawalMinimum self
  return minimum - DUST_RELAY_MIN_VALUE

end BtcConfig

end HashiBridge.Btc
