import HashiBridge.Lib.Packing

/-!
# The Sui transaction executor

Two loops of the executor: cutting a `vector<vector<u8>>` argument into pure arguments of a bounded
size, and destroying dead buckets of total order broadcast certificates in transactions that are
halved while they fail.
-/

namespace HashiBridge.Node

open Lib

/-! ## Argument chunks -/

/-- An unsigned number in base 128, low digits first, with the high bit set on all bytes but the
last. -/
def uleb128 (value : Nat) : List UInt8 :=
  if value < 128 then [value.toUInt8] else (value % 128 + 128).toUInt8 :: uleb128 (value / 128)
termination_by value
decreasing_by omega

def bcsBytes (entry : List UInt8) : List UInt8 := uleb128 entry.length ++ entry

def bcsVecVecU8 (data : List (List UInt8)) : List UInt8 :=
  uleb128 data.length ++ data.flatMap bcsBytes

def uleb128Len (value : Nat) : Nat :=
  if value ≤ 0x7f then 1
  else if value ≤ 0x3fff then 2
  else if value ≤ 0x1fffff then 3
  else 4

def entryBcsSize (entry : List UInt8) : Nat := uleb128Len entry.length + entry.length

structure ChunkLoop where
  chunks : List (List (List UInt8))
  currentChunk : List (List UInt8)
  currentSize : Nat

namespace ChunkLoop

def init : ChunkLoop := ⟨[], [], 3⟩

def flush (maxBytes : Nat) (loop : ChunkLoop) (entry : List UInt8) : ChunkLoop :=
  if loop.currentChunk ≠ [] ∧ maxBytes < loop.currentSize + entryBcsSize entry then
    ⟨loop.chunks ++ [loop.currentChunk], [], 3⟩
  else loop

def round (maxBytes : Nat) (loop : ChunkLoop) (entry : List UInt8) : ChunkLoop :=
  let loop := loop.flush maxBytes entry
  { loop with
    currentSize := loop.currentSize + entryBcsSize entry
    currentChunk := loop.currentChunk ++ [entry] }

def result (loop : ChunkLoop) : List (List (List UInt8)) := loop.chunks ++ [loop.currentChunk]

end ChunkLoop

def chunkVecVecU8 (data : List (List UInt8)) (maxBytes : Nat) : List (List (List UInt8)) :=
  if data = [] then [[]] else (data.foldl (ChunkLoop.round maxBytes) .init).result

/-! ## Destroying certificate buckets -/

inductive TobPruneTarget
  | keyGen (epoch : Nat)
  | nonceBatch (epoch batchIndex : Nat)
deriving DecidableEq

inductive ExecutionErrorKind
  | moveAbort
  | other

/-- What a failed execution reports; the module is that of the abort's location. -/
structure ExecutionError where
  kind : Option ExecutionErrorKind
  abortModule : Option String

inductive TxError
  /-- The status of an executed transaction. -/
  | executed (function : String) (error : Option ExecutionError)
  | rejected (error : Option ExecutionError)
  /-- The simulation that is part of building the transaction. -/
  | simulation (error : ExecutionError)
  /-- Building, signing or submitting. -/
  | notExecuted

namespace TxError

def transactionExecutionError : TxError → Option ExecutionError
  | .executed _ error => error
  | .rejected error => error
  | .simulation error => some error
  | .notExecuted => none

def isExecutionFailure : TxError → Bool
  | .executed .. | .rejected _ | .simulation _ => true
  | .notExecuted => false

def isTobBucketAbort (e : TxError) : Bool :=
  match e.transactionExecutionError with
  | some ⟨some .moveAbort, some module⟩ =>
      module = "cert_submission" || module = "tob" || module = "dynamic_field"
  | _ => false

end TxError

/-- A Move call of a transaction on the bridge's shared object: the function and its arguments. -/
structure DestroyCall where
  callPackageId : Nat
  initialSharedVersion : Nat
  function : String
  arguments : List Nat

def TobPruneTarget.call (callPackageId initialSharedVersion : Nat) : TobPruneTarget → DestroyCall
  | .keyGen epoch => ⟨callPackageId, initialSharedVersion, "destroy_key_gen_certs", [epoch]⟩
  | .nonceBatch epoch batchIndex =>
      ⟨callPackageId, initialSharedVersion, "destroy_nonce_certs", [epoch, batchIndex]⟩

/-- The status in a transaction's effects: an error, unless it succeeded. -/
inductive ExecutionStatus
  | success
  | failure (error : Option ExecutionError)

/-- The chain as the executor meets it: its state, and what a transaction does to it. -/
structure SuiNetwork (σ : Type) where
  initialSharedVersion : σ → Except TxError Nat
  execute : σ → List DestroyCall → Except TxError ExecutionStatus × σ

structure DestroyAttempt where
  chunk : List TobPruneTarget
  outcome : Except TxError Unit

/-- The variables of the destroying loop, with the transactions it sent. -/
structure DestroyLoop (σ : Type) where
  chain : σ
  attempts : List DestroyAttempt
  skipped : List TobPruneTarget

section Destroy

variable {σ : Type} (net : SuiNetwork σ) (callPackageId : Nat)

def destroyTobChunk (chain : σ) (chunk : List TobPruneTarget) (initialSharedVersion : Nat) :
    Except TxError Unit × σ :=
  match net.execute chain (chunk.map (TobPruneTarget.call callPackageId initialSharedVersion)) with
  | (.error e, chain) => (.error e, chain)
  | (.ok .success, chain) => (.ok (), chain)
  | (.ok (.failure error), chain) => (.error (.executed "destroy_tob_certs" error), chain)

/-- The loop over the queue. A chunk that fails to execute goes back in two halves, to the front. -/
def destroyQueue (version : Nat) (loop : DestroyLoop σ) :
    List (List TobPruneTarget) → Except TxError Unit × DestroyLoop σ
  | [] => (.ok (), loop)
  | chunk :: queue =>
      let (outcome, chain) := destroyTobChunk net callPackageId loop.chain chunk version
      let loop := { loop with chain := chain, attempts := loop.attempts ++ [⟨chunk, outcome⟩] }
      match outcome with
      | .ok () => destroyQueue version loop queue
      | .error e =>
          if h : 1 < chunk.length ∧ e.isExecutionFailure then
            let mid := chunk.length / 2
            destroyQueue version loop (chunk.take mid :: chunk.drop mid :: queue)
          else if e.isTobBucketAbort then
            destroyQueue version { loop with skipped := loop.skipped ++ chunk } queue
          else (.error e, loop)
termination_by queue => (queue.map fun chunk => 3 * chunk.length - 2).sum + queue.length
decreasing_by
  all_goals simp only [List.map_cons, List.sum_cons, List.length_cons, List.length_take,
    List.length_drop]
  all_goals omega

def TOB_DESTROYS_PER_TX : Nat := 10

/-- Destroy the buckets: the targets that were skipped, or the error that ended the loop. -/
def executeDestroyTobCerts (chain : σ) (targets : List TobPruneTarget) :
    Except TxError (List TobPruneTarget) × DestroyLoop σ :=
  let start : DestroyLoop σ := ⟨chain, [], []⟩
  match net.initialSharedVersion chain with
  | .error e => (.error e, start)
  | .ok version =>
      let (result, loop) :=
        destroyQueue net callPackageId version start (chunks TOB_DESTROYS_PER_TX targets)
      (result.map fun () => loop.skipped, loop)

end Destroy

end HashiBridge.Node
