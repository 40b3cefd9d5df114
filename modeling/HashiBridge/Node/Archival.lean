import HashiBridge.Chain.Withdraw
import HashiBridge.Lib.Packing
import HashiBridge.Node.Withdrawals

/-!
# Archival of confirmed withdrawals

The node's garbage collector moves confirmed withdrawals to the cold bags.
-/

namespace HashiBridge.Node

open Lib HashiBridge.Core Btc Chain

def WITHDRAWAL_ARCHIVE_FIXED_RUNTIME_OBJECTS : Nat := 12
def WITHDRAWAL_ARCHIVE_RUNTIME_OBJECTS_PER_TXN : Nat := 3
def WITHDRAWAL_ARCHIVE_RUNTIME_OBJECTS_PER_REQUEST : Nat := 3
def WITHDRAWAL_ARCHIVE_RUNTIME_OBJECT_BUDGET : Nat := WITHDRAWAL_RUNTIME_OBJECT_BUDGET
def WITHDRAWAL_ARCHIVE_FINISH_RUNTIME_OBJECTS_PER_REQUEST : Nat := 2

structure ArchiveVictim where
  txnId : Address
  requestIds : List Address
deriving DecidableEq

inductive ArchiveCall
  | atomic (txnIds : List Address)
  | requests (txnId : Address) (requestIds : List Address)
  | finish (txnIds : List Address)
deriving DecidableEq

/-! ## The planner -/

def archiveBudget : Nat :=
  WITHDRAWAL_ARCHIVE_RUNTIME_OBJECT_BUDGET - WITHDRAWAL_ARCHIVE_FIXED_RUNTIME_OBJECTS

def requestsPerChunk : Nat :=
  (archiveBudget - WITHDRAWAL_ARCHIVE_RUNTIME_OBJECTS_PER_TXN) /
    WITHDRAWAL_ARCHIVE_RUNTIME_OBJECTS_PER_REQUEST

/-- The objects that archiving this many requests of a transaction touches. -/
def archiveCost (requests : Nat) : Nat :=
  WITHDRAWAL_ARCHIVE_RUNTIME_OBJECTS_PER_TXN +
    WITHDRAWAL_ARCHIVE_RUNTIME_OBJECTS_PER_REQUEST * requests

def finishCost (requests : Nat) : Nat :=
  WITHDRAWAL_ARCHIVE_RUNTIME_OBJECTS_PER_TXN +
    WITHDRAWAL_ARCHIVE_FINISH_RUNTIME_OBJECTS_PER_REQUEST * requests

structure ArchivePlan where
  calls : List ArchiveCall
  atomic : Packer Address
  finish : Packer Address

namespace ArchivePlan

def empty : ArchivePlan := ⟨[], .empty, .empty⟩

def add (plan : ArchivePlan) (victim : ArchiveVictim) : ArchivePlan :=
  if archiveCost victim.requestIds.length ≤ archiveBudget then
    let (closed, atomic) :=
      plan.atomic.push archiveBudget (archiveCost victim.requestIds.length) victim.txnId
    { plan with calls := plan.calls ++ closed.map .atomic, atomic }
  else
    let parts := (chunks requestsPerChunk victim.requestIds).map (.requests victim.txnId)
    let (closed, finish) :=
      plan.finish.push archiveBudget (finishCost victim.requestIds.length) victim.txnId
    { plan with calls := plan.calls ++ parts ++ closed.map .finish, finish }

end ArchivePlan

def planArchiveCalls (victims : List ArchiveVictim) : List ArchiveCall :=
  let plan := victims.foldl ArchivePlan.add .empty
  plan.calls ++ plan.atomic.rest.map .atomic ++ plan.finish.rest.map .finish

/-! ## Its execution -/

def ArchiveCall.execute (self : Hashi) : ArchiveCall → Except Abort Hashi
  | .atomic txnIds => self.archiveConfirmedWithdrawals txnIds
  | .requests txnId requestIds => self.archiveWithdrawalRequests txnId requestIds
  | .finish txnIds => self.finishArchiveWithdrawalTxns txnIds

def executeArchiveConfirmedWithdrawals (self : Hashi) (victims : List ArchiveVictim) :
    Except Abort Hashi :=
  (planArchiveCalls victims).foldlM ArchiveCall.execute self

end HashiBridge.Node
