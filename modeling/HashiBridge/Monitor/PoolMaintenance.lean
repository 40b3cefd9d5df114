import HashiBridge.Monitor.DepositFlow
import HashiBridge.Monitor.WithdrawalFlow

/-!
# Taking closed flows into the pool

Between ticks the auditor takes the machines that closed and applies them to the pool in one pass.
Hash maps give the machines in any order.
-/

namespace HashiBridge.Monitor

/-- The flows of the closed withdrawal machines; none if one of them lacks an event. -/
def takeClosedWithdrawals (machines : List WithdrawalStateMachine) :
    Option (List FinishedWithdrawal) := do
  let finished ← machines.mapM WithdrawalStateMachine.takeClosed
  return finished.filterMap id

def takeClosedDeposits (machines : List DepositStateMachine) : List FinishedDeposit :=
  machines.filterMap DepositStateMachine.intoFinished

def gcAndUpdatePool (pool : UtxoPool) (deposits : List DepositStateMachine)
    (withdrawals : List WithdrawalStateMachine) : Option (UtxoPool × List MonitorFinding) := do
  let confirmedWithdrawals ← takeClosedWithdrawals withdrawals
  return pool.update (takeClosedDeposits deposits) confirmedWithdrawals

/-- What changes the pool: a pass, or an approval of a deposit whose machine was taken. -/
inductive PoolStep
  | pass (deposits : List DepositStateMachine) (withdrawals : List WithdrawalStateMachine)
  | approve (sui : SuiDepositApprovedEvent)

def PoolStep.run (timing : Timing) (state : UtxoPool × List MonitorFinding) :
    PoolStep → Option (UtxoPool × List MonitorFinding)
  | pass deposits withdrawals => do
      let (pool, findings) ← gcAndUpdatePool state.1 deposits withdrawals
      return (pool, state.2 ++ findings)
  -- the verdict on the approval is not a finding of the update
  | approve sui => some ((state.1.checkSuiApproval sui timing.depositApprovalSkew).1, state.2)

def runPool (timing : Timing) (start : UtxoPool) (steps : List PoolStep) :
    Option (UtxoPool × List MonitorFinding) :=
  steps.foldlM (PoolStep.run timing) (start, [])

end HashiBridge.Monitor
