import HashiBridge.Node.Ancestry

/-!
# The validator's checks of a withdrawal commitment

A leader proposes which requests to pay, from which outputs and into which outputs. A validator
signs the proposal only after `prepareWithdrawalTxCommitment` accepts it on its mirror of the chain.
-/

namespace HashiBridge.Node

open Lib HashiBridge.Core Btc

/-! ## The mirror -/

structure Mirror where
  requests : Bag Address Btc.WithdrawalRequest
  withdrawalTxns : Bag Address WithdrawalTransaction
  utxoRecords : Bag UtxoId UtxoRecord
  config : Config

namespace Mirror

/-- The withdrawal minimum of a mirrored configuration; a missing entry counts as the floor. -/
def bitcoinWithdrawalMinimum (config : Config) : Nat :=
  match config.tryGet BtcConfig.KEY_BITCOIN_WITHDRAWAL_MINIMUM with
  | some (.u64 v) => max v (DUST_RELAY_MIN_VALUE.toNat + 1)
  | _ => DUST_RELAY_MIN_VALUE.toNat + 1

def worstCaseNetworkFee (config : Config) : Nat :=
  bitcoinWithdrawalMinimum config - DUST_RELAY_MIN_VALUE.toNat

end Mirror

/-! ## Proposals and their refusals -/

structure WithdrawalTxCommitment where
  requestIds : List Address
  selectedUtxos : List UtxoId
  outputs : List OutputUtxo
  txid : Address
deriving DecidableEq

inductive RefusedItem
  | requestMissing (id : Address)
  | requestCommitted (id : Address)
  | requestUnapproved (id : Address)
  | outputBelowDust (id : Address) (expectedAmount : Nat)
  | inputMissing (id : UtxoId)
  | inputLocked (id : UtxoId) (spentBy : Address)
  | inputAncestorDepth (id : UtxoId) (depth : Nat)
deriving DecidableEq

inductive CommitmentError
  | noRequestIds
  | noSelectedUtxos
  | noOutputs
  | tooManyRequests (requestCount maxRequests : Nat)
  | tooManyInputs (inputCount requestCount maxInputs : Nat)
  | unsupportedAddressLength (len : Nat)
  | tooHeavy (weight maxWeight : Weight)
  | tooManyChangeOutputs (changeCount maxChange : Nat)
  | duplicateRequestIds
  | duplicateUtxoIds
  | refusedItems (items : List RefusedItem)
  | missingOutputs (requestCount outputCount : Nat)
  | inputsBelowOutputs (inputTotal outputTotal : Nat)
  | feeAboveBudget (perUserMinerFee maxNetworkFee : Nat)
  | outputAmountMismatch (i amount expected : Nat) (requestId : Address)
  | outputAddressMismatch (i : Nat) (requestId : Address)
  | depositAddress (error : String)
  | changeAddressMismatch (j : Nat)
  | changeBelowDust (j amount : Nat)
  | noLimiter
  | outflowAboveCapacity (outflow maxBucketCapacity : Nat)
  | feeBelowMinimum (fee minFee : Nat)
  /-- an index or a division that panics -/
  | panicked
deriving DecidableEq

/-! ## Shape -/

def MAX_WITHDRAWAL_REQUESTS : Nat := 447
def DEFAULT_MAX_INPUTS : Nat := 400
def DEFAULT_INPUT_BUDGET : Nat := 10
def DEFAULT_MAX_TX_WEIGHT : Weight := 400000
def WITHDRAWAL_RUNTIME_OBJECT_BUDGET : Nat := 922
def WITHDRAWAL_COMMIT_FIXED_RUNTIME_OBJECTS : Nat := 12
def WITHDRAWAL_COMMIT_RUNTIME_OBJECTS_PER_REQUEST : Nat := 2
def WITHDRAWAL_COMMIT_RUNTIME_OBJECTS_PER_INPUT : Nat := 1
def WITHDRAWAL_CONFIRM_FIXED_RUNTIME_OBJECTS : Nat := 43
def WITHDRAWAL_CONFIRM_RUNTIME_OBJECTS_PER_REQUEST : Nat := 0
def WITHDRAWAL_CONFIRM_RUNTIME_OBJECTS_PER_INPUT : Nat := 1
def WITHDRAWAL_MAX_CHANGE_OUTPUTS : Nat := 2

/-- The inputs that fit the object budget of one Sui transaction beside its requests. -/
def runtimeObjectInputBudget (fixedObjects objectsPerRequest objectsPerInput requestCount : Nat) :
    Nat :=
  let requestObjects := saturateU64 (requestCount * objectsPerRequest)
  (WITHDRAWAL_RUNTIME_OBJECT_BUDGET - fixedObjects - requestObjects) / objectsPerInput

def safeWithdrawalCommitMaxInputs (requestCount configuredMaxInputs : Nat) : Nat :=
  min configuredMaxInputs (runtimeObjectInputBudget WITHDRAWAL_COMMIT_FIXED_RUNTIME_OBJECTS
    WITHDRAWAL_COMMIT_RUNTIME_OBJECTS_PER_REQUEST WITHDRAWAL_COMMIT_RUNTIME_OBJECTS_PER_INPUT
    requestCount)

def safeWithdrawalConfirmMaxInputs (requestCount configuredMaxInputs : Nat) : Nat :=
  min configuredMaxInputs (runtimeObjectInputBudget WITHDRAWAL_CONFIRM_FIXED_RUNTIME_OBJECTS
    WITHDRAWAL_CONFIRM_RUNTIME_OBJECTS_PER_REQUEST WITHDRAWAL_CONFIRM_RUNTIME_OBJECTS_PER_INPUT
    requestCount)

def safeWithdrawalFlowMaxInputs (requestCount configuredMaxInputs : Nat) : Nat :=
  let requestInputBudget := saturateU64 (requestCount * DEFAULT_INPUT_BUDGET)
  min (min (min configuredMaxInputs requestInputBudget)
    (safeWithdrawalCommitMaxInputs requestCount configuredMaxInputs))
    (safeWithdrawalConfirmMaxInputs requestCount configuredMaxInputs)

/-- The weight of a proposal; an address of an unsupported length is an error. -/
def commitmentWeight (inputCount : Nat) (outputs : List OutputUtxo) :
    Except CommitmentError Weight :=
  match estimatedWithdrawalTxWeight inputCount outputs with
  | .ok weight => .ok weight
  | .error len => .error (.unsupportedAddressLength len)

def validateCommitmentShape (requestCount inputCount : Nat) (outputs : List OutputUtxo) :
    Except CommitmentError Unit := do
  require (requestCount ≤ MAX_WITHDRAWAL_REQUESTS)
    (CommitmentError.tooManyRequests requestCount MAX_WITHDRAWAL_REQUESTS)
  let maxInputs := safeWithdrawalFlowMaxInputs requestCount DEFAULT_MAX_INPUTS
  require (inputCount ≤ maxInputs)
    (CommitmentError.tooManyInputs inputCount requestCount maxInputs)
  let txWeight ← commitmentWeight inputCount outputs
  require (txWeight ≤ DEFAULT_MAX_TX_WEIGHT)
    (CommitmentError.tooHeavy txWeight DEFAULT_MAX_TX_WEIGHT)
  let changeCount := outputs.length - requestCount
  require (changeCount ≤ WITHDRAWAL_MAX_CHANGE_OUTPUTS)
    (CommitmentError.tooManyChangeOutputs changeCount WITHDRAWAL_MAX_CHANGE_OUTPUTS)

def checkCommitmentShape (approval : WithdrawalTxCommitment) : Except CommitmentError Unit := do
  require (approval.requestIds ≠ []) CommitmentError.noRequestIds
  require (approval.selectedUtxos ≠ []) CommitmentError.noSelectedUtxos
  require (approval.outputs ≠ []) CommitmentError.noOutputs
  validateCommitmentShape approval.requestIds.length approval.selectedUtxos.length approval.outputs
  require approval.requestIds.Nodup CommitmentError.duplicateRequestIds
  require approval.selectedUtxos.Nodup CommitmentError.duplicateUtxoIds

/-! ## Requests and inputs -/

def Mirror.commitmentRequest (self : Mirror) (id : Address) :
    Except RefusedItem Btc.WithdrawalRequest := do
  let request ← orAbort (self.requests.lookup id) (RefusedItem.requestMissing id)
  require (¬ request.isCommitted) (RefusedItem.requestCommitted id)
  require request.isApproved (RefusedItem.requestUnapproved id)
  return request

def Mirror.commitmentRequests (self : Mirror) :
    List Address → List Btc.WithdrawalRequest × List RefusedItem
  | [] => ([], [])
  | id :: ids =>
      let (requests, refused) := self.commitmentRequests ids
      match self.commitmentRequest id with
      | .ok request => (request :: requests, refused)
      | .error refusal => (requests, refusal :: refused)

inductive InputCheck
  | refused (items : List RefusedItem)
  | passed (utxos : List Utxo) (ancestors : Weight × Nat)

def UnconfirmedAncestry.checkInput (self : UnconfirmedAncestry) (id : UtxoId) :
    StateM Walked (Except RefusedItem Utxo) :=
  match self.utxoRecords.lookup id with
  | none => return .error (.inputMissing id)
  | some record =>
    match record.spentBy with
    | some spentBy => return .error (.inputLocked id spentBy)
    | none => do
        let depth ← self.depth record
        if MAX_ANCESTOR_DEPTH ≤ depth then return .error (.inputAncestorDepth id depth)
        else return .ok record.utxo

def UnconfirmedAncestry.collectInput (self : UnconfirmedAncestry)
    (found : List Utxo × List RefusedItem) (id : UtxoId) :
    StateM Walked (List Utxo × List RefusedItem) := do
  match ← self.checkInput id with
  | .ok utxo => return (found.1 ++ [utxo], found.2)
  | .error refusal => return (found.1, found.2 ++ [refusal])

/-- All inputs are checked, so that every refusal is reported, after those found before. -/
def checkSelectedInputs (selectedUtxos : List UtxoId) (utxoRecords : Bag UtxoId UtxoRecord)
    (withdrawalTxns : Bag Address WithdrawalTransaction) (refused : List RefusedItem) :
    InputCheck :=
  let ancestry : UnconfirmedAncestry := ⟨withdrawalTxns, utxoRecords⟩
  let ((utxos, refused), walked) :=
    (selectedUtxos.foldlM ancestry.collectInput ([], refused)).run ∅
  if refused ≠ [] then .refused refused
  else .passed utxos (UnconfirmedAncestry.package walked)

/-! ## Amounts -/

structure PreparedCommitment where
  selectedUtxos : List Utxo
  fee : Nat
  outflow : Nat
  maxBucketCapacity : Nat
  txWeight : Weight
  ancestorWeight : Weight
  ancestorFee : Nat
deriving DecidableEq

def belowWithdrawalDust (amount : Nat) : Bool := amount < DUST_RELAY_MIN_VALUE.toNat

/-- The check of output `i` against its request: a refusal for dust does not end the loop. -/
def checkRequestOutput (outputs : List OutputUtxo) (perUserMinerFee : Nat)
    (refused : List RefusedItem) (entry : Btc.WithdrawalRequest × Nat) :
    Except CommitmentError (List RefusedItem) := do
  let (request, i) := entry
  let output ← orAbort outputs[i]? CommitmentError.panicked
  let expectedAmount := request.btcAmount - perUserMinerFee
  if belowWithdrawalDust expectedAmount then
    return refused ++ [.outputBelowDust request.id expectedAmount]
  else do
    require (output.amount = expectedAmount)
      (CommitmentError.outputAmountMismatch i output.amount expectedAmount request.id)
    require (output.bitcoinAddress = request.bitcoinAddress)
      (CommitmentError.outputAddressMismatch i request.id)
    return refused

def checkChangeOutput (expectedAddress : Bytes) (entry : OutputUtxo × Nat) :
    Except CommitmentError Unit := do
  let (changeOutput, j) := entry
  require (changeOutput.bitcoinAddress = expectedAddress)
    (CommitmentError.changeAddressMismatch j)
  require (TR_DUST_RELAY_MIN_VALUE.toNat ≤ changeOutput.amount)
    (CommitmentError.changeBelowDust j changeOutput.amount)

def limiterOutflow (inputTotal : Nat) (changeOutputs : List OutputUtxo) : Nat :=
  inputTotal - wrapU64 (changeOutputs.map OutputUtxo.amount).sum

def checkCommitmentOutflow (inputTotal : Nat) (changeOutputs : List OutputUtxo)
    (maxBucketCapacity : Option Nat) : Except CommitmentError (Nat × Nat) := do
  let maxBucketCapacity ← orAbort maxBucketCapacity CommitmentError.noLimiter
  let outflow := limiterOutflow inputTotal changeOutputs
  require (outflow ≤ maxBucketCapacity)
    (CommitmentError.outflowAboveCapacity outflow maxBucketCapacity)
  return (outflow, maxBucketCapacity)

def feeWu (feeRate : FeeRate) (weight : Weight) : Option Nat :=
  if feeRate.toNat * weight.toNat + 999 < U64_SIZE then
    some ((feeRate.toNat * weight.toNat + 999) / 1000)
  else none

/-! ## The validator -/

/-- What a validator reads besides the proposal: its mirror, the witness program of the bridge's own
address, the capacity of its local limiter and its configured fee floor. -/
structure Validator where
  mirror : Mirror
  rootProgram : Except String Bytes
  maxBucketCapacity : Option Nat
  withdrawalMinFeeRate : FeeRate

namespace Validator

def checkChangeOutputs (self : Validator) (changeOutputs : List OutputUtxo) :
    Except CommitmentError Unit :=
  match changeOutputs with
  | [] => .ok ()
  | _ => do
      let expectedAddress ← match self.rootProgram with
        | .ok program => .ok program
        | .error error => .error (CommitmentError.depositAddress error)
      changeOutputs.zipIdx.forM (checkChangeOutput expectedAddress)

def prepareWithdrawalTxCommitment (self : Validator) (approval : WithdrawalTxCommitment) :
    Except CommitmentError PreparedCommitment := do
  checkCommitmentShape approval
  let (requests, refused) := self.mirror.commitmentRequests approval.requestIds
  match checkSelectedInputs approval.selectedUtxos self.mirror.utxoRecords
      self.mirror.withdrawalTxns refused with
  | .refused refused => .error (.refusedItems refused)
  | .passed selectedUtxos ancestors => do
    let requestCount := requests.length
    require (requestCount ≤ approval.outputs.length)
      (CommitmentError.missingOutputs requestCount approval.outputs.length)
    let inputTotal := wrapU64 (selectedUtxos.map Utxo.amount).sum
    let outputTotal := wrapU64 (approval.outputs.map OutputUtxo.amount).sum
    require (outputTotal ≤ inputTotal) (CommitmentError.inputsBelowOutputs inputTotal outputTotal)
    let fee := inputTotal - outputTotal
    require (requestCount ≠ 0) CommitmentError.panicked
    let perUserMinerFee := fee / requestCount
    let maxNetworkFee := Mirror.worstCaseNetworkFee self.mirror.config
    require (perUserMinerFee ≤ maxNetworkFee)
      (CommitmentError.feeAboveBudget perUserMinerFee maxNetworkFee)
    let refused ← requests.zipIdx.foldlM (checkRequestOutput approval.outputs perUserMinerFee) []
    require (refused = []) (CommitmentError.refusedItems refused)
    let changeOutputs := approval.outputs.drop requestCount
    self.checkChangeOutputs changeOutputs
    let (outflow, maxBucketCapacity) ←
      checkCommitmentOutflow inputTotal changeOutputs self.maxBucketCapacity
    let txWeight ← commitmentWeight selectedUtxos.length approval.outputs
    let minFee := (feeWu (max self.withdrawalMinFeeRate 250) txWeight).getD 0
    require (minFee ≤ fee) (CommitmentError.feeBelowMinimum fee minFee)
    return { selectedUtxos, fee, outflow, maxBucketCapacity, txWeight
             ancestorWeight := ancestors.1, ancestorFee := ancestors.2 }

end Validator

end HashiBridge.Node
