import HashiBridge.Btc.UtxoPool

/-!
# Coin selection

The leader's planning of a batched withdrawal: requests oldest first, inputs largest first,
consolidation while fees are low, then the fee split over the requests.
-/

namespace HashiBridge.Node

open Lib HashiBridge.Core Btc

abbrev Weight := UInt64

abbrev FeeRate := UInt64

def TXIN_BASE_WEIGHT : Weight := 164
def TXOUT_BASE_WEIGHT : Weight := 36
def DUST_RELAY_MIN_VALUE : UInt64 := 546
def TR_DUST_RELAY_MIN_VALUE : UInt64 := 330
def WPKH_DUST_RELAY_MIN_VALUE : UInt64 := 294
def RECOVERY_PRIORITY_AGE_BLOCKS : Nat := 30 * 24 * 6
def MAX_ANCESTOR_DEPTH : Nat := 25

/-! ## Errors -/

inductive CoinSelectionError
  | emptyPool
  | noRequests
  | feeExceedsCap (feePerRequest maxFeePerRequest totalDeduction : UInt64) (nRequests : Nat)
      (transactionFee cpfpDeficit : UInt64) (selectedInputs pendingInputs : Nat)
      (unconfirmedAncestors : Nat)
  | subDustChange (change dustThreshold : UInt64)
  | insufficientFunds (available selected required : UInt64) (selectedInputs maxInputs : Nat)
  | exceedsMaxWeight (weight maxWeight : Weight)
  | exceedsMaxAncestorPackageWeight (weight ancestorWeight maxWeight : Weight)
      (selectedInputs pendingInputs unconfirmedAncestors : Nat)
  | requestAmountTooSmall (requestId : Address) (amount feePerRequest : UInt64)
deriving DecidableEq

inductive Failure
  | returned (error : CoinSelectionError)
  | panicked (message : String)
deriving DecidableEq

abbrev Fallible := Except Failure

def isErr (x : Fallible Unit) : Fallible Bool :=
  match x with
  | .ok () => .ok false
  | .error (.returned _) => .ok true
  | .error (.panicked message) => .error (.panicked message)

def filterFallible {α : Type} (p : α → Fallible Bool) : List α → Fallible (List α)
  | [] => .ok []
  | a :: rest => do
      let keep ← p a
      let kept ← filterFallible p rest
      return if keep then a :: kept else kept

def divCeil (x n : UInt64) : UInt64 := if x % n = 0 then x / n else x / n + 1

/-! ## Candidates and requests -/

inductive SpendPath
  | taprootScriptPath2of2
  | taprootKeyPath
  | custom (weight : Weight)
deriving DecidableEq

namespace SpendPath

def satisfactionWeight : SpendPath → Weight
  | taprootScriptPath2of2 => 268
  | taprootKeyPath => 66
  | custom weight => weight

def inputWeight (self : SpendPath) : Fallible Weight := do
  require (TXIN_BASE_WEIGHT.toNat + self.satisfactionWeight.toNat < U64_SIZE)
    (Failure.panicked "input weight overflow")
  return TXIN_BASE_WEIGHT + self.satisfactionWeight

end SpendPath

structure AncestorTx where
  id : Address
  confirmations : Nat
  txWeight : Weight
  txFee : UInt64
deriving DecidableEq

inductive UtxoStatus
  | confirmed
  /-- the ancestors, from the creating transaction back to the oldest unconfirmed one -/
  | pending (chain : List AncestorTx)
deriving DecidableEq

namespace UtxoStatus

def chain : UtxoStatus → List AncestorTx
  | confirmed => []
  | pending chain => chain

def isConfirmed : UtxoStatus → Bool
  | confirmed => true
  | pending _ => false

def mempoolChainDepth (self : UtxoStatus) : Nat :=
  (self.chain.filter fun a => a.confirmations = 0).length

def unconfirmedAncestorWeight (self : UtxoStatus) : Weight :=
  ((self.chain.filter fun a => a.confirmations = 0).map AncestorTx.txWeight).sum

end UtxoStatus

structure UtxoCandidate where
  id : UtxoId
  amount : UInt64
  confirmationAgeBlocks : Option Nat
  spendPath : SpendPath
  status : UtxoStatus
deriving DecidableEq

structure WithdrawalRequest where
  id : Address
  /-- the witness program -/
  recipient : Bytes
  amount : UInt64
  timestampMs : Nat
deriving DecidableEq

structure CoinSelectionParams where
  maxTxWeight : Weight
  maxAncestorPackageWeight : Weight
  maxInputs : Nat
  maxWithdrawalRequests : Nat
  maxFeePerRequest : UInt64
  minFeeRate : FeeRate
  longTermFeeRate : FeeRate
  highFeeRateThreshold : FeeRate
  inputBudget : Nat
  maxMempoolChainDepth : Nat
  /-- the script of the change address -/
  changeScript : Bytes
deriving DecidableEq

structure WithdrawalOutput where
  requestId : Address
  recipient : Bytes
  amount : UInt64
deriving DecidableEq

structure CoinSelectionResult where
  inputs : List UtxoCandidate
  withdrawalOutputs : List WithdrawalOutput
  change : Option UInt64
  fee : UInt64
  selectedRequests : List WithdrawalRequest
deriving DecidableEq

/-! ## Weights, fees and dust -/

def varintWeight (n : Nat) : Weight :=
  if n ≤ 252 then 4
  else if n ≤ 0xFFFF then 12
  else if n ≤ 0xFFFFFFFF then 20
  else 36

def outputWeightForRecipient (request : WithdrawalRequest) : Weight :=
  match request.recipient.length with
  | 20 => TXOUT_BASE_WEIGHT + 22 * 4
  | _ => TXOUT_BASE_WEIGHT + 34 * 4

def outputWeightForScript (script : Bytes) : Weight := (8 + 1 + UInt64.ofNat script.length) * 4

def dustThresholdForChange (script : Bytes) : UInt64 :=
  match script.length with
  | 22 => WPKH_DUST_RELAY_MIN_VALUE
  | 34 => TR_DUST_RELAY_MIN_VALUE
  | _ => DUST_RELAY_MIN_VALUE

def feeForWeight (feeRate : FeeRate) (weight : Weight) : Fallible UInt64 := do
  require (feeRate.toNat * weight.toNat + 999 < U64_SIZE) (Failure.panicked
    "fee computation overflow: fee rate or weight is unreasonably large")
  return UInt64.ofNat ((feeRate.toNat * weight.toNat + 999) / 1000)

/-! ## The builder -/

structure PendingOutput where
  request : WithdrawalRequest
  netAmount : UInt64
deriving DecidableEq

def PendingOutput.dustThreshold (self : PendingOutput) : UInt64 :=
  match self.request.recipient.length with
  | 20 => WPKH_DUST_RELAY_MIN_VALUE
  | _ => TR_DUST_RELAY_MIN_VALUE

structure TransactionBuilder where
  feeRate : FeeRate
  params : CoinSelectionParams
  inputs : List UtxoCandidate
  outputs : List PendingOutput
  /-- the excess of the inputs over the requests, once computed -/
  rawChange : Option UInt64
  finalChange : Option UInt64
deriving DecidableEq

def firstById (seen : List Address) : List AncestorTx → List AncestorTx
  | [] => []
  | a :: rest => if a.id ∈ seen then firstById seen rest else a :: firstById (a.id :: seen) rest

namespace TransactionBuilder

def totalRequested (self : TransactionBuilder) : UInt64 :=
  (self.outputs.map fun o => o.request.amount).sum

def inputTotal (self : TransactionBuilder) : UInt64 := (self.inputs.map UtxoCandidate.amount).sum

def weightFor (self : TransactionBuilder) (inputCount : Nat) (inputWeight : Weight)
    (hasChange : Bool) : Weight :=
  let outputCount := self.outputs.length + if hasChange then 1 else 0
  -- version, lock time, segwit marker and flag
  let fixed := 32 + 2 + varintWeight inputCount + varintWeight outputCount
  let outputs := (self.outputs.map fun o => outputWeightForRecipient o.request).sum
  let change := if hasChange then outputWeightForScript self.params.changeScript else 0
  fixed + inputWeight + outputs + change

/-- The weight of the transaction, with a change output unless the change is known to be 0. -/
def weight (self : TransactionBuilder) : Fallible Weight := do
  let inputWeights ← self.inputs.mapM fun u => u.spendPath.inputWeight
  let hasChange := self.rawChange.all (0 < ·)
  return self.weightFor self.inputs.length inputWeights.sum hasChange

def weightWithCandidate (self : TransactionBuilder) (candidate : UtxoCandidate)
    (totalRequested : UInt64) : Fallible Weight := do
  let inputWeight ← candidate.spendPath.inputWeight
  return self.weightFor 1 inputWeight (totalRequested < candidate.amount)

def computeRawChange (self : TransactionBuilder) : Fallible TransactionBuilder := do
  let inputTotal := self.inputTotal
  let totalRequested := self.totalRequested
  require (totalRequested ≤ inputTotal) (Failure.panicked
    s!"input_total ({inputTotal}) < total_requested ({totalRequested})")
  return { self with rawChange := some (inputTotal - totalRequested) }

def unconfirmedAncestors (self : TransactionBuilder) : List AncestorTx :=
  firstById [] ((self.inputs.flatMap fun u => u.status.chain).filter fun a => a.confirmations = 0)

def unconfirmedAncestorWeight (self : TransactionBuilder) : Weight :=
  (self.unconfirmedAncestors.map AncestorTx.txWeight).sum

def pendingInputCount (self : TransactionBuilder) : Nat :=
  (self.inputs.filter fun u => !u.status.isConfirmed).length

def exceedsAnyWeightLimit (self : TransactionBuilder) : Fallible Bool := do
  let weight ← self.weight
  return self.params.maxTxWeight < weight ||
    self.params.maxAncestorPackageWeight < weight + self.unconfirmedAncestorWeight

def checkWeight (self : TransactionBuilder) : Fallible Unit := do
  let weight ← self.weight
  require (weight ≤ self.params.maxTxWeight)
    (Failure.returned (.exceedsMaxWeight weight self.params.maxTxWeight))
  let ancestorWeight := self.unconfirmedAncestorWeight
  require (weight + ancestorWeight ≤ self.params.maxAncestorPackageWeight)
    (Failure.returned (.exceedsMaxAncestorPackageWeight weight ancestorWeight
      self.params.maxAncestorPackageWeight self.inputs.length self.pendingInputCount
      self.unconfirmedAncestors.length))

def cpfpDeficit (self : TransactionBuilder) : Fallible UInt64 := do
  let ancestorFee := (self.unconfirmedAncestors.map AncestorTx.txFee).sum
  let neededAncestorFee ← feeForWeight self.feeRate self.unconfirmedAncestorWeight
  return if ancestorFee ≤ neededAncestorFee then neededAncestorFee - ancestorFee else 0

def requiredFee (self : TransactionBuilder) : Fallible UInt64 := do
  let weight ← self.weight
  let ownFee ← feeForWeight self.feeRate weight
  let deficit ← self.cpfpDeficit
  return ownFee + deficit

def checkFees (self : TransactionBuilder) : Fallible Unit :=
  let n := UInt64.ofNat self.outputs.length
  if n = 0 then .ok ()
  else do
    let weight ← self.weight
    let transactionFee ← feeForWeight self.feeRate weight
    let cpfpDeficit ← self.cpfpDeficit
    let totalDeduction := transactionFee + cpfpDeficit
    let deductionPerRequest := divCeil totalDeduction n
    require (deductionPerRequest ≤ self.params.maxFeePerRequest)
      (Failure.returned (.feeExceedsCap deductionPerRequest self.params.maxFeePerRequest
        totalDeduction self.outputs.length transactionFee cpfpDeficit self.inputs.length
        self.pendingInputCount self.unconfirmedAncestors.length))
    self.outputs.forM fun output =>
      require (deductionPerRequest + output.dustThreshold ≤ output.request.amount)
        (Failure.returned (.requestAmountTooSmall output.request.id output.request.amount
          deductionPerRequest))

/-- Whether the smallest transaction that spends a pending candidate can pay for it. -/
def candidateFitsFeeBudget (self : TransactionBuilder) (candidate : UtxoCandidate)
    (totalRequested : UInt64) : Fallible Bool :=
  if candidate.status.isConfirmed then .ok true
  else do
    let err ← isErr (checkFees
      { self with
        inputs := [candidate]
        outputs := self.outputs.map fun o => { o with netAmount := 0 }
        rawChange := some (if totalRequested ≤ candidate.amount then
          candidate.amount - totalRequested else 0)
        finalChange := none })
    return !err

def finalizeFees (self : TransactionBuilder) : Fallible (TransactionBuilder × UInt64) := do
  let rawChange ← orAbort self.rawChange
    (Failure.panicked "finalize_fees called before compute_raw_change")
  let dustThreshold := dustThresholdForChange self.params.changeScript
  require (rawChange = 0 ∨ dustThreshold ≤ rawChange)
    (Failure.returned (.subDustChange rawChange dustThreshold))
  self.checkFees
  let n := UInt64.ofNat self.outputs.length
  let requiredFee ← self.requiredFee
  require (n ≠ 0) (Failure.panicked "attempt to divide by zero")
  let deductionPerRequest := divCeil requiredFee n
  let outputs := self.outputs.map fun o =>
    { o with netAmount := o.request.amount - deductionPerRequest }
  let finalChange := if 0 < rawChange then some rawChange else none
  let outputTotal := (outputs.map PendingOutput.netAmount).sum
  let minerFee := self.inputTotal - outputTotal - finalChange.getD 0
  require (requiredFee ≤ minerFee)
    (Failure.panicked s!"miner_fee ({minerFee}) < required_fee ({requiredFee})")
  return ({ self with outputs, finalChange }, minerFee)

end TransactionBuilder

/-! ## Selection -/

def utxoIdLe (a b : UtxoId) : Bool := a.txid < b.txid || (a.txid == b.txid && a.vout ≤ b.vout)

def largestFirst (a b : UtxoCandidate) : Bool :=
  b.amount < a.amount || (a.amount == b.amount && utxoIdLe a.id b.id)

def smallestFirst (a b : UtxoCandidate) : Bool :=
  a.amount < b.amount || (a.amount == b.amount && utxoIdLe a.id b.id)

def UtxoCandidate.urgent (self : UtxoCandidate) : Bool :=
  self.confirmationAgeBlocks.any (RECOVERY_PRIORITY_AGE_BLOCKS < ·)

def consolidationFirst (a b : UtxoCandidate) : Bool :=
  match a.urgent, b.urgent with
  | true, true =>
      let ageA := a.confirmationAgeBlocks.getD 0
      let ageB := b.confirmationAgeBlocks.getD 0
      ageB < ageA || (ageA == ageB && smallestFirst a b)
  | true, false => true
  | false, true => false
  | false, false => smallestFirst a b

def selectRequests (requests : List WithdrawalRequest) (maxWithdrawalRequests : Nat) :
    List PendingOutput :=
  ((requests.insertionSort fun a b => a.timestampMs ≤ b.timestampMs).take
    maxWithdrawalRequests).map fun request => ⟨request, 0⟩

namespace TransactionBuilder

def isEligible (self : TransactionBuilder) (totalRequested : UInt64) (u : UtxoCandidate) :
    Fallible Bool :=
  if u.status.mempoolChainDepth ≤ self.params.maxMempoolChainDepth ∧
      u.status.mempoolChainDepth < MAX_ANCESTOR_DEPTH then do
    let weight ← self.weightWithCandidate u totalRequested
    if u.status.unconfirmedAncestorWeight + weight ≤ self.params.maxAncestorPackageWeight then
      self.candidateFitsFeeBudget u totalRequested
    else .ok false
  else .ok false

def fund (maxInputs : Nat) (totalRequested : UInt64) :
    List UtxoCandidate → List UtxoCandidate → UInt64 → List UtxoCandidate × UInt64
  | [], inputs, inputTotal => (inputs, inputTotal)
  | u :: pool, inputs, inputTotal =>
      if maxInputs ≤ inputs.length ∨ totalRequested ≤ inputTotal then (inputs, inputTotal)
      else fund maxInputs totalRequested pool (inputs ++ [u]) (inputTotal + u.amount)

def maxConsolidation (self : TransactionBuilder) : Nat :=
  if self.feeRate < self.params.longTermFeeRate then
    min (self.params.maxInputs - self.inputs.length)
      (wrapU64 (self.outputs.length * self.params.inputBudget))
  else if self.feeRate < self.params.highFeeRateThreshold then
    min (self.params.maxInputs - self.inputs.length)
      (wrapU64 (self.outputs.length * self.params.inputBudget) / 2)
  else 0

def exceedsAnyLimit (self : TransactionBuilder) : Fallible Bool := do
  let feesFail ← isErr self.checkFees
  if feesFail then return true else self.exceedsAnyWeightLimit

/-- Add inputs one by one. The first that breaks a limit is taken back and ends the loop. -/
def consolidate (self : TransactionBuilder) : List UtxoCandidate → Fallible TransactionBuilder
  | [] => .ok self
  | u :: rest =>
      if self.params.maxInputs ≤ self.inputs.length then .ok self
      else do
        let next ← computeRawChange { self with inputs := self.inputs ++ [u] }
        let tooMuch ← next.exceedsAnyLimit
        if tooMuch then computeRawChange { next with inputs := next.inputs.dropLast }
        else next.consolidate rest

def result (self : TransactionBuilder) (minerFee : UInt64) : CoinSelectionResult where
  inputs := self.inputs
  withdrawalOutputs := self.outputs.map fun o => ⟨o.request.id, o.request.recipient, o.netAmount⟩
  change := self.finalChange
  fee := minerFee
  selectedRequests := self.outputs.map PendingOutput.request

end TransactionBuilder

open TransactionBuilder in
def selectCoins (utxos : List UtxoCandidate) (requests : List WithdrawalRequest)
    (params : CoinSelectionParams) (feeRate : FeeRate) : Fallible CoinSelectionResult := do
  require (utxos ≠ []) (Failure.returned .emptyPool)
  require (requests ≠ []) (Failure.returned .noRequests)
  require (params.maxWithdrawalRequests ≠ 0) (Failure.returned .noRequests)
  let builder : TransactionBuilder :=
    { feeRate := if feeRate < params.minFeeRate then params.minFeeRate else feeRate
      params, inputs := []
      outputs := selectRequests requests params.maxWithdrawalRequests
      rawChange := none, finalChange := none }
  let totalRequested := builder.totalRequested
  let eligible ← filterFallible (builder.isEligible totalRequested) utxos
  let pool := eligible.insertionSort fun a b => largestFirst a b
  let (inputs, inputTotal) := fund params.maxInputs totalRequested pool [] 0
  require (totalRequested ≤ inputTotal) (Failure.returned (.insufficientFunds
    (pool.map UtxoCandidate.amount).sum inputTotal totalRequested inputs.length params.maxInputs))
  let builder ← computeRawChange { builder with inputs }
  builder.checkFees
  builder.checkWeight
  let extras := if builder.rawChange.any (0 < ·) then
      ((pool.filter fun u => u.status.isConfirmed && !inputs.any fun s => s.id == u.id).insertionSort
        fun a b => consolidationFirst a b).take builder.maxConsolidation
    else []
  let builder ← builder.consolidate extras
  let builder ← builder.computeRawChange
  let (builder, minerFee) ← builder.finalizeFees
  return builder.result minerFee

end HashiBridge.Node
