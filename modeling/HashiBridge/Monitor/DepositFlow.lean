import HashiBridge.Monitor.UtxoPool

/-!
# The monitor's view of one deposit request

The machine asks Bitcoin about the request's transaction until it is confirmed or the watch ends,
and judges the request's approval against the answer.
-/

namespace HashiBridge.Monitor

open Lib Guardian

def EMPTY_LOOKUPS_BEFORE_ALERT : Nat := 2

inductive BtcAnswer
  | pending
  | paid (deposit : BtcConfirmedDeposit)
  /-- confirmed, but the claimed output is missing or pays another script -/
  | notPaid
  /-- not confirmed by the end of the watch -/
  | lapsed
deriving DecidableEq

def BtcAnswer.confirmed : BtcAnswer → Option BtcConfirmedDeposit
  | paid deposit => some deposit
  | _ => none

structure DepositStateMachine where
  suiRequest : SuiDepositRequestedEvent
  suiApproval : Option SuiDepositApprovedEvent
  emptyLookupsSinceApproval : Nat
  btcAnswer : BtcAnswer
deriving DecidableEq

namespace DepositStateMachine

def new (suiRequest : SuiDepositRequestedEvent) : DepositStateMachine :=
  ⟨suiRequest, none, 0, .pending⟩

def confirmed (self : DepositStateMachine) : Option BtcConfirmedDeposit := self.btcAnswer.confirmed

def isApproved (self : DepositStateMachine) : Bool := self.suiApproval.isSome

/-- The UTXO that Bitcoin paid, if any; it is approved if the machine holds an approval. -/
def intoFinished (self : DepositStateMachine) : Option FinishedDeposit :=
  let origin := if self.isApproved then .deposit
    else .unapprovedDeposit self.suiRequest.timestampSecs self.suiRequest.amount
  self.confirmed.map fun deposit => .new deposit origin

def judgeHeldSuiApproval (self : DepositStateMachine) (timing : Timing) : List MonitorFinding :=
  if self.btcAnswer = .pending then []
  else
    match self.suiApproval with
    | none => []
    | some sui => sui.judge self.confirmed timing.depositApprovalSkew

def addSuiApproval (self : DepositStateMachine) (event : SuiDepositApprovedEvent) (timing : Timing) :
    DepositStateMachine × List MonitorFinding :=
  if event.matchesRequest self.suiRequest = false then
    (self, [.depositMismatch self.suiRequest.requestId (.approvalDiffers self.suiRequest event)])
  else if self.suiApproval.isSome then (self, [])
  else
    let approved := { self with suiApproval := some event }
    (approved, approved.judgeHeldSuiApproval timing)

def isReadyForGc (self : DepositStateMachine) : Bool := self.btcAnswer ≠ .pending

def countEmptyLookup (self : DepositStateMachine) : DepositStateMachine × List MonitorFinding :=
  match self.suiApproval with
  | none => (self, [])
  | some sui =>
      let count := min 255 (self.emptyLookupsSinceApproval + 1)
      ({ self with emptyLookupsSinceApproval := count },
        if count < EMPTY_LOOKUPS_BEFORE_ALERT then [] else [.depositUnbacked sui])

def answerFrom (request : SuiDepositRequestedEvent) (confirmation : BtcConfirmation) : BtcAnswer :=
  match BtcConfirmedDeposit.fromConfirmation request confirmation with
  | none => .notPaid
  | some deposit => .paid deposit

def recordLookup (self : DepositStateMachine) (timing : Timing) (checkedAt : UnixSeconds)
    (confirmation : Option BtcConfirmation) : DepositStateMachine × List MonitorFinding :=
  let btcAnswer := match confirmation with
    | some confirmation => answerFrom self.suiRequest confirmation
    | none =>
        if wrapU64 (self.suiRequest.timestampSecs + timing.depositRequestWatch) ≤ checkedAt then .lapsed
        else self.btcAnswer
  let answered := { self with btcAnswer }
  if answered.btcAnswer = .pending then answered.countEmptyLookup
  else (answered, answered.judgeHeldSuiApproval timing)

def tryFetchBtcTx (self : DepositStateMachine) (timing : Timing) (checkedAt : UnixSeconds)
    (confirmation : Option BtcConfirmation) : DepositStateMachine × List MonitorFinding :=
  if self.btcAnswer ≠ .pending then (self, []) else self.recordLookup timing checkedAt confirmation

end DepositStateMachine

end HashiBridge.Monitor
