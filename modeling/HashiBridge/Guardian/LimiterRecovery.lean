import HashiBridge.Guardian.Limiter
import HashiBridge.Guardian.LogLayout

/-!
# Recovery of the limiter's state

A new session takes over the state that the last withdrawal left. It looks for the latest hour with
a withdrawal log and reads that hour and the one before.
-/

namespace HashiBridge.Guardian

open Lib

/-- A withdrawal log. The state after a call expects the sequence number after the call's. -/
structure WithdrawalLog where
  timestampMs : Nat
  seq : Nat
  postState : LimiterState
  seq_eq : postState.nextSeq.toNat = seq + 1
deriving DecidableEq

inductive LogMessage
  | withdrawal (log : WithdrawalLog)
  | other
deriving DecidableEq

structure LogEntry where
  objectKey : String
  message : LogMessage
deriving DecidableEq

structure LogStore where
  dirs : List (S3Path × List LogEntry)

namespace LogStore

def listCommonPrefixes (store : LogStore) (path : S3Path) : List S3Path :=
  (store.dirs.filterMap fun (dir, _) =>
    if path <+: dir ∧ path.length < dir.length then some (dir.take (path.length + 1))
    else none).dedup

def logsBelow (store : LogStore) (path : S3Path) : List LogEntry :=
  store.dirs.flatMap fun (dir, logs) => if path <+: dir then logs else []

end LogStore

/-! ## The latest bucket -/

def firstFound {ε α β : Type} (f : α → Except ε (Option β)) : List α → Except ε (Option β)
  | [] => .ok none
  | a :: as => do
      match ← f a with
      | some b => return some b
      | none => firstFound f as

def listSubdirsDesc (store : LogStore) (path : S3Path) : GuardianResult (List S3Path) :=
  (S3NumericDirectory.sortDesc (store.listCommonPrefixes path)).mapError fun e =>
    .invalidS3Log s!"invalid withdrawal-log directory: {e}"

def findLatestBucket (store : LogStore) : Nat → S3Path → GuardianResult (Option S3HourDirectory)
  | 0, hour =>
      if store.logsBelow hour = [] then .ok none
      else do
        let text := String.ofList hour.text
        let dir ← (S3HourDirectory.fromPath hour).mapError fun e =>
          .invalidS3Log s!"invalid withdrawal-log directory {text}: {e}"
        return some dir
  | depth + 1, path => do
      let dirs ← listSubdirsDesc store path
      firstFound (findLatestBucket store depth) dirs

def findLatestWithdrawalBucket (store : LogStore) : GuardianResult (Option S3HourDirectory) :=
  findLatestBucket store 4 [S3_DIR_WITHDRAW]

/-! ## The state -/

/-- The state with the highest sequence number, the last one of several. -/
def maxByNextSeq (states : List LimiterState) : Option LimiterState :=
  states.foldl (fun best s =>
    match best with
    | none => some s
    | some b => if b.nextSeq ≤ s.nextSeq then some s else some b) none

def extractPostState (log : LogEntry) : GuardianResult LimiterState :=
  let key := log.objectKey
  match log.message with
  | .withdrawal withdrawal => .ok withdrawal.postState
  | .other => .error (.invalidS3Log s!"expected a withdrawal log at {key}")

def bucketMaxPostState (logs : List LogEntry) : GuardianResult (Option LimiterState) := do
  let states ← logs.mapM extractPostState
  return maxByNextSeq states

def recoverLimiterState (store : LogStore) (limiterConfig : LimiterConfig) :
    GuardianResult LimiterState := do
  match ← findLatestWithdrawalBucket store with
  | none => return LimiterState.genesis limiterConfig
  | some cursor =>
      let hit ← bucketMaxPostState (store.logsBelow cursor.path)
      let previous ← cursor.prevDir.mapError GuardianError.internalError
      let peek ← bucketMaxPostState (store.logsBelow previous.path)
      let recovered ← orAbort (maxByNextSeq ([hit, peek].filterMap id))
        (GuardianError.invalidS3Log "latest withdrawal bucket contained no verified withdrawal logs")
      return recovered.cappedTo limiterConfig

end HashiBridge.Guardian
