import HashiBridge.Guardian.UnsignedTx

/-!
# The monitor's events and findings

The monitor follows withdrawals and deposits through events from Sui, the guardian's log and Bitcoin. Its
clock arithmetic is on `u64` and wraps, as in a release build.
-/

namespace HashiBridge.Monitor

open Lib HashiBridge.Core Guardian

abbrev Txid := Nat
abbrev UnixSeconds := Nat
abbrev WithdrawalID := Address

/-! ## Withdrawals -/

inductive WithdrawalEventType
  | e1HashiApproved
  | e2GuardianApproved
  | e3BtcConfirmed
deriving DecidableEq

namespace WithdrawalEventType

def successor : WithdrawalEventType → Option WithdrawalEventType
  | e1HashiApproved => some e2GuardianApproved
  | e2GuardianApproved => some e3BtcConfirmed
  | e3BtcConfirmed => none

def predecessor : WithdrawalEventType → Option WithdrawalEventType
  | e1HashiApproved => none
  | e2GuardianApproved => some e1HashiApproved
  | e3BtcConfirmed => some e2GuardianApproved

end WithdrawalEventType

/-- A withdrawal's inputs and outputs, as one of the sources states them. -/
structure WithdrawalTx where
  inputs : List Btc.Utxo
  withdrawalOutputs : List Btc.OutputUtxo
  changeOutputs : List Btc.OutputUtxo
deriving DecidableEq

structure MonitorWithdrawalEvent where
  eventType : WithdrawalEventType
  wid : WithdrawalID
  timestampSecs : UnixSeconds
  btcTxid : Txid
  tx : WithdrawalTx
deriving DecidableEq

structure BtcConfirmation where
  /-- the time of the block that holds it -/
  blockTime : UnixSeconds
  /-- the time of the block that made it deep enough -/
  confirmedTime : UnixSeconds
  inputs : List OutPoint
  outputs : List TxOut
deriving DecidableEq

def MonitorWithdrawalEvent.fromBtc (confirmation : BtcConfirmation) (wid : WithdrawalID)
    (btcTxid : Txid) (tx : WithdrawalTx) : MonitorWithdrawalEvent where
  eventType := .e3BtcConfirmed
  wid
  timestampSecs := confirmation.confirmedTime
  btcTxid
  tx

structure FinishedWithdrawal where
  txid : Txid
  confirmation : BtcConfirmation
  /-- the change outputs come after the payouts -/
  firstChangeVout : Nat
deriving DecidableEq

def FinishedWithdrawal.fromConfirmation (e2 : MonitorWithdrawalEvent)
    (confirmation : BtcConfirmation) : FinishedWithdrawal where
  txid := e2.btcTxid
  confirmation
  firstChangeVout := e2.tx.withdrawalOutputs.length

/-! ## Deposits -/

abbrev DepositId := OutPoint

structure SuiDepositRequestedEvent where
  requestId : Address
  timestampSecs : UnixSeconds
  depositId : DepositId
  amount : Nat
  scriptPubkey : Bytes
deriving DecidableEq

structure SuiDepositApprovedEvent where
  timestampSecs : UnixSeconds
  requestId : Address
  depositId : DepositId
  amount : Nat
  scriptPubkey : Bytes
deriving DecidableEq

def SuiDepositApprovedEvent.matchesRequest (self : SuiDepositApprovedEvent)
    (request : SuiDepositRequestedEvent) : Bool :=
  self.requestId = request.requestId ∧ self.depositId = request.depositId ∧
    self.amount = request.amount ∧ self.scriptPubkey = request.scriptPubkey

structure BtcConfirmedDeposit where
  depositId : DepositId
  amount : Nat
  scriptPubkey : Bytes
  blockTime : UnixSeconds
deriving DecidableEq

def BtcConfirmedDeposit.fromConfirmation (request : SuiDepositRequestedEvent)
    (confirmation : BtcConfirmation) : Option BtcConfirmedDeposit :=
  match confirmation.outputs[request.depositId.vout]? with
  | none => none
  | some output =>
      if output.scriptPubkey ≠ request.scriptPubkey then none
      else some
        { depositId := request.depositId
          amount := output.value
          scriptPubkey := output.scriptPubkey
          blockTime := confirmation.blockTime }

/-! ## The bridge's UTXOs -/

inductive UtxoOrigin
  | deposit
  /-- with the time and the amount of the latest request -/
  | unapprovedDeposit (requestedAt : UnixSeconds) (requestedAmount : Nat)
  | change
deriving DecidableEq

namespace UtxoOrigin

def inMovePool : UtxoOrigin → Bool
  | unapprovedDeposit _ _ => false
  | _ => true

/-- The origin of a held UTXO after a second add; none if a deposit and change claim one outpoint. -/
def updatedBy (self new : UtxoOrigin) : Option UtxoOrigin :=
  match self, new with
  | change, change => some change
  | change, _ => none
  | _, change => none
  | deposit, _ => some deposit
  | unapprovedDeposit _ _, deposit => some deposit
  | unapprovedDeposit heldAt _, unapprovedDeposit requestedAt _ =>
      some (if heldAt < requestedAt then new else self)

end UtxoOrigin

structure Utxo where
  amount : Nat
  scriptPubkey : Bytes
  origin : UtxoOrigin
  firstSeen : UnixSeconds
deriving DecidableEq

structure FinishedDeposit where
  depositId : DepositId
  utxo : Utxo
deriving DecidableEq

def FinishedDeposit.new (btc : BtcConfirmedDeposit) (origin : UtxoOrigin) : FinishedDeposit where
  depositId := btc.depositId
  utxo := { amount := btc.amount, scriptPubkey := btc.scriptPubkey, origin, firstSeen := btc.blockTime }

/-! ## Findings -/

inductive EventRelation
  | predecessor
  | successor
deriving DecidableEq

inductive EventTiming
  | late (event : MonitorWithdrawalEvent)
  | missing (cursor : UnixSeconds)
deriving DecidableEq

inductive EventDiff
  | txid
  | full
  | tx
deriving DecidableEq

inductive DepositMismatchReason
  | paymentDiffers (sui : SuiDepositApprovedEvent) (btc : BtcConfirmedDeposit)
  | approvalDiffers (request : SuiDepositRequestedEvent) (approval : SuiDepositApprovedEvent)
  | requestDiffers (held new : SuiDepositRequestedEvent)
deriving DecidableEq

inductive MonitorFinding
  | withdrawalUnapproved (wid : WithdrawalID) (eventType : WithdrawalEventType)
      (deadline : UnixSeconds) (timing : EventTiming)
  | withdrawalStuck (wid : WithdrawalID) (eventType : WithdrawalEventType)
      (deadline : UnixSeconds) (timing : EventTiming)
  /-- two events of one withdrawal disagree -/
  | withdrawalInvalid (wid : WithdrawalID) (kind : EventDiff) (held new : MonitorWithdrawalEvent)
  | depositUnbacked (sui : SuiDepositApprovedEvent)
  | depositMismatch (requestId : Address) (reason : DepositMismatchReason)
  | depositLate (sui : SuiDepositApprovedEvent) (deadline blockTime : UnixSeconds)
  | utxoOutsideMovePoolSpent (outpoint : OutPoint) (txid : Txid) (held : Option UtxoOrigin)
  | utxoOriginConflict (outpoint : OutPoint) (held new : UtxoOrigin)
  | utxoMismatch (outpoint : OutPoint) (heldAmount seenAmount : Nat) (heldScript seenScript : Bytes)
deriving DecidableEq

def MonitorFinding.withdrawalTiming (wid : WithdrawalID) (eventType : WithdrawalEventType)
    (relation : EventRelation) (deadline : UnixSeconds) (timing : EventTiming) : MonitorFinding :=
  match relation with
  | .predecessor => .withdrawalUnapproved wid eventType deadline timing
  | .successor => .withdrawalStuck wid eventType deadline timing

/-- Judge an approval against what Bitcoin paid at its outpoint, if anything. -/
def SuiDepositApprovedEvent.judge (self : SuiDepositApprovedEvent)
    (btcDepositInfo : Option BtcConfirmedDeposit) (skew : Nat) : List MonitorFinding :=
  match btcDepositInfo with
  | none => [.depositUnbacked self]
  | some paid =>
      let deadline := wrapU64 (self.timestampSecs + skew)
      (if deadline < paid.blockTime then [.depositLate self deadline paid.blockTime] else []) ++
      (if self.amount ≠ paid.amount ∨ self.scriptPubkey ≠ paid.scriptPubkey then
        [.depositMismatch self.requestId (.paymentDiffers self paid)] else [])

/-! ## Timing -/

structure EventBounds where
  e1HashiApproved : Nat
  e2GuardianApproved : Nat

def EventBounds.get (self : EventBounds) : WithdrawalEventType → Option Nat
  | .e1HashiApproved => some self.e1HashiApproved
  | .e2GuardianApproved => some self.e2GuardianApproved
  | .e3BtcConfirmed => none

structure Timing where
  /-- how late a successor may be, by its predecessor -/
  successorDelays : EventBounds
  /-- how long after its successor a predecessor may be recorded -/
  predecessorSkews : EventBounds
  depositApprovalSkew : Nat
  depositRequestWatch : Nat

namespace Timing

/-- The time by which the event's predecessor must be recorded; none panics. -/
def predecessorDeadline (self : Timing) (event : MonitorWithdrawalEvent) : Option UnixSeconds := do
  let predecessor ← event.eventType.predecessor
  let skew ← self.predecessorSkews.get predecessor
  return wrapU64 (event.timestampSecs + skew)

/-- The time by which the event's successor must follow; none panics. -/
def successorDeadline (self : Timing) (event : MonitorWithdrawalEvent) : Option UnixSeconds := do
  let delay ← self.successorDelays.get event.eventType
  return wrapU64 (event.timestampSecs + delay)

end Timing

end HashiBridge.Monitor
