import HashiBridge.Monitor.Domain

/-!
# The monitor's view of one withdrawal

A withdrawal's three events come from three sources in any order. The machine keeps the first event
of each type, judges each pair of neighbours and expects the neighbours it has not seen.
-/

namespace HashiBridge.Monitor

abbrev ExpectedEvent := WithdrawalEventType × UnixSeconds × EventRelation

structure WithdrawalStateMachine where
  seenEvents : List MonitorWithdrawalEvent
  expectedEvents : List ExpectedEvent
  /-- the time of the last Bitcoin lookup -/
  btcCheckedAt : Option UnixSeconds
  btcConfirmation : Option BtcConfirmation
  wid : WithdrawalID
  btcTxid : Txid
  /-- as the first event states it -/
  tx : WithdrawalTx
deriving DecidableEq

/-! ## Lateness -/

def late (event : MonitorWithdrawalEvent) (relation : EventRelation) (deadline : UnixSeconds) :
    MonitorFinding :=
  .withdrawalTiming event.wid event.eventType relation deadline (.late event)

def neighborTimingFindings (predecessor successor : MonitorWithdrawalEvent) (timing : Timing) :
    Option (List MonitorFinding) := do
  let successorDeadline ← timing.successorDeadline predecessor
  let predecessorDeadline ← timing.predecessorDeadline successor
  return (if successorDeadline < successor.timestampSecs then
      [late successor .successor successorDeadline] else []) ++
    (if predecessorDeadline < predecessor.timestampSecs then
      [late predecessor .predecessor predecessorDeadline] else [])

/-! ## The machine -/

namespace WithdrawalStateMachine

def get (self : WithdrawalStateMachine) (eventType : WithdrawalEventType) :
    Option MonitorWithdrawalEvent :=
  self.seenEvents.find? fun event => event.eventType = eventType

def finished (self : WithdrawalStateMachine) : Option FinishedWithdrawal := do
  let e2 ← self.get .e2GuardianApproved
  let confirmation ← self.btcConfirmation
  return .fromConfirmation e2 confirmation

def eventsDiffer (self : WithdrawalStateMachine) (kind : EventDiff)
    (held new : MonitorWithdrawalEvent) : MonitorFinding :=
  .withdrawalInvalid self.wid kind held new

def expectsBtc (self : WithdrawalStateMachine) : Bool :=
  (self.get .e1HashiApproved).isSome && (self.get .e3BtcConfirmed).isNone

def isReadyForGc (self : WithdrawalStateMachine) : Bool := self.expectedEvents.isEmpty

def expectedEventTypes (self : WithdrawalStateMachine) : List WithdrawalEventType :=
  self.expectedEvents.map Prod.fst

def judgePredecessor (self : WithdrawalStateMachine) (newEvent : MonitorWithdrawalEvent)
    (timing : Timing) : Option (List MonitorFinding × List ExpectedEvent) :=
  match newEvent.eventType.predecessor with
  | none => some ([], [])
  | some eventType =>
      match self.get eventType with
      | some predecessor =>
          (neighborTimingFindings predecessor newEvent timing).map fun findings => (findings, [])
      | none =>
          (timing.predecessorDeadline newEvent).map fun deadline =>
            ([], [(eventType, deadline, .predecessor)])

def judgeSuccessor (self : WithdrawalStateMachine) (newEvent : MonitorWithdrawalEvent)
    (timing : Timing) : Option (List MonitorFinding × List ExpectedEvent) :=
  match newEvent.eventType.successor with
  | none => some ([], [])
  | some eventType =>
      match self.get eventType with
      | some successor =>
          (neighborTimingFindings newEvent successor timing).map fun findings => (findings, [])
      | none =>
          (timing.successorDeadline newEvent).map fun deadline =>
            ([], [(eventType, deadline, .successor)])

def record (self : WithdrawalStateMachine) (newEvent : MonitorWithdrawalEvent) (timing : Timing) :
    Option (WithdrawalStateMachine × List MonitorFinding) := do
  let txFindings ←
    if newEvent.tx ≠ self.tx then
      self.seenEvents.head?.map fun held => [self.eventsDiffer .tx held newEvent]
    else some []
  let (predecessorFindings, predecessorExpected) ← self.judgePredecessor newEvent timing
  let (successorFindings, successorExpected) ← self.judgeSuccessor newEvent timing
  let expected := self.expectedEvents ++ predecessorExpected ++ successorExpected
  return ({ self with
      expectedEvents := expected.filter fun entry => entry.1 ≠ newEvent.eventType
      seenEvents := self.seenEvents ++ [newEvent] },
    txFindings ++ predecessorFindings ++ successorFindings)

/-- Add an event: one that names another transaction or repeats with other contents is reported and
dropped. -/
def addEvent (self : WithdrawalStateMachine) (newEvent : MonitorWithdrawalEvent) (timing : Timing) :
    Option (WithdrawalStateMachine × List MonitorFinding) :=
  if self.btcTxid ≠ newEvent.btcTxid then
    self.seenEvents.head?.map fun held => (self, [self.eventsDiffer .txid held newEvent])
  else
    match self.get newEvent.eventType with
    | some existing =>
        some (self, if existing = newEvent then [] else [self.eventsDiffer .full existing newEvent])
    | none => self.record newEvent timing

/-- The machine of a first event; it panics if that gives a finding. -/
def new (event : MonitorWithdrawalEvent) (timing : Timing) : Option WithdrawalStateMachine := do
  let start : WithdrawalStateMachine :=
    { seenEvents := [], expectedEvents := [], btcCheckedAt := none, btcConfirmation := none,
      wid := event.wid, btcTxid := event.btcTxid, tx := event.tx }
  let (machine, findings) ← start.addEvent event timing
  if findings = [] then some machine else none

def recordLookup (self : WithdrawalStateMachine) (timing : Timing)
    (confirmation : Option BtcConfirmation) (checkedAt : UnixSeconds) :
    Option (WithdrawalStateMachine × List MonitorFinding) :=
  if self.expectsBtc then
    match confirmation with
    | some confirmation =>
        let eBtc := MonitorWithdrawalEvent.fromBtc confirmation self.wid self.btcTxid self.tx
        { self with btcCheckedAt := some checkedAt, btcConfirmation := some confirmation }.addEvent
          eBtc timing
    | none => some ({ self with btcCheckedAt := some checkedAt }, [])
  else some (self, [])

/-- Take a closed machine: all three events are expected to be there. -/
def takeClosed (self : WithdrawalStateMachine) : Option (Option FinishedWithdrawal) := do
  let _ ← self.get .e1HashiApproved
  let _ ← self.get .e2GuardianApproved
  let _ ← self.get .e3BtcConfirmed
  return self.finished

end WithdrawalStateMachine

def followEvent (timing : Timing) (state : WithdrawalStateMachine × List MonitorFinding)
    (event : MonitorWithdrawalEvent) : Option (WithdrawalStateMachine × List MonitorFinding) := do
  let (machine, findings) ← state.1.addEvent event timing
  return (machine, state.2 ++ findings)

def followWithdrawal (timing : Timing) :
    List MonitorWithdrawalEvent → Option (WithdrawalStateMachine × List MonitorFinding)
  | [] => none
  | first :: later => do
      let machine ← WithdrawalStateMachine.new first timing
      later.foldlM (followEvent timing) (machine, [])

end HashiBridge.Monitor
