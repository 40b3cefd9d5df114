import HashiBridge.Node.Withdrawals

/-!
# The leader's choice of a withdrawal batch

The leader offers coin selection every unlocked output whose chain of unconfirmed withdrawals is
short enough, and retries with fewer requests until a selection succeeds.
-/

namespace HashiBridge.Node

open Lib HashiBridge.Core Btc

/-! ## Settings -/

def DEFAULT_MAX_ANCESTOR_PACKAGE_WEIGHT : Weight := 400000
def DEFAULT_LONG_TERM_FEE_RATE : FeeRate := 10 * 250
def DEFAULT_HIGH_FEE_RATE_THRESHOLD : FeeRate := 30 * 250
def CONSOLIDATION_MODE_MAX_REQUESTS : Nat := 40
def MAINNET_MAX_FEE_RATE : FeeRate := 100 * 250
def SIGNET_MAX_FEE_RATE : FeeRate := 9 * 250

inductive Network
  | bitcoin
  | signet
  | other
deriving DecidableEq

inductive WithdrawalCommitmentError
  | btcTxBuildFailed (error : String)
  /-- the build failure "Unsupported script pubkey for withdrawal output: {script}" -/
  | unsupportedScript (script : Bytes)
  | feeEstimateFailed (error : String)
  /-- the error of the last attempt, if there was one -/
  | utxoSelectionFailed (last : Option CoinSelectionError)
  | panicked (message : String)
deriving DecidableEq

def WithdrawalCommitmentError.ofFailure : Failure → WithdrawalCommitmentError
  | .returned error => .utxoSelectionFailed (some error)
  | .panicked message => .panicked message

/-- What the leader reads: its mirror at the start and when the inputs are resolved again, its
configuration, its change script, and what its Bitcoin monitor answers. -/
structure Leader where
  mirror : Mirror
  later : Mirror
  network : Network
  withdrawalMinFeeRate : FeeRate
  withdrawalMaxBatchSize : Nat
  maxMempoolChainDepth : Nat
  depositScript : Except String Bytes
  recentFeeRate : Except String FeeRate
  confirmationAges : List UtxoId → Bag UtxoId Nat
  txConfirmations : Bag Address Nat
  unsignedWeight : List Utxo → List OutputUtxo → Weight
  computeTxid : List Utxo → List OutputUtxo → Address

def withdrawalFeeRate (network : Network) (withdrawalMinFeeRate estimate : FeeRate) : FeeRate :=
  let estimate := match network with
    | .bitcoin => min estimate MAINNET_MAX_FEE_RATE
    | .signet => min estimate SIGNET_MAX_FEE_RATE
    | .other => estimate
  max estimate withdrawalMinFeeRate

def withdrawalBatchRequestCap (pendingRequests availableUtxos : Nat) : Nat :=
  if availableUtxos < pendingRequests then MAX_WITHDRAWAL_REQUESTS
  else CONSOLIDATION_MODE_MAX_REQUESTS

def witnessProgramFromAddress (script : Bytes) : Except WithdrawalCommitmentError Bytes :=
  match script with
  | 0x00 :: 0x14 :: rest =>
      if rest.length = 20 then .ok rest else .error (.unsupportedScript script)
  | 0x51 :: 0x20 :: rest =>
      if rest.length = 32 then .ok rest else .error (.unsupportedScript script)
  | _ => .error (.unsupportedScript script)

/-! ## Candidates -/

theorem utxoIdLe_iff {a b : UtxoId} : utxoIdLe a b ↔
    @LT.lt Nat _ a.txid b.txid ∨ @Eq Nat a.txid b.txid ∧ a.vout ≤ b.vout := by
  simp [utxoIdLe]

instance : IsTrans UtxoId fun a b => utxoIdLe a b where
  trans a b c := by
    simp only [utxoIdLe_iff]
    omega

instance : Std.Antisymm fun a b : UtxoId => utxoIdLe a b where
  antisymm a b hab hba := by
    obtain ⟨txid, vout⟩ := a
    rw [utxoIdLe_iff] at hab hba
    obtain ⟨rfl, rfl⟩ : @Eq Nat txid b.txid ∧ vout = b.vout := by
      simp only at hab hba
      omega
    rfl

instance : Std.Total fun a b : UtxoId => utxoIdLe a b where
  total a b := by
    simp only [utxoIdLe_iff]
    omega

/-- A bad output address is a bug, checked upstream: the build panics. -/
def buildUnsignedWithdrawalTx (outputs : List OutputUtxo) : Except WithdrawalCommitmentError Unit :=
  require (∀ o ∈ outputs, o.bitcoinAddress.length = 32 ∨ o.bitcoinAddress.length = 20)
    (WithdrawalCommitmentError.panicked "invalid bitcoin address in output")

/-- The weight of a signed ancestor from that of its unsigned transaction. -/
def signedWeightOf (unsigned : Weight) (inputCount : Nat) : Fallible Weight := do
  let satisfactionWeight := SpendPath.taprootScriptPath2of2.satisfactionWeight
  require (satisfactionWeight.toNat * inputCount < U64_SIZE)
    (Failure.panicked "ancestor satisfaction weight overflow")
  return unsigned + satisfactionWeight * UInt64.ofNat inputCount + 2

namespace Leader

def ancestorTx (self : Leader) (wid : Address) (txn : WithdrawalTransaction) :
    Except WithdrawalCommitmentError AncestorTx := do
  let unsigned := self.unsignedWeight txn.inputs (allOutputs txn)
  let txWeight ← (signedWeightOf unsigned txn.inputs.length).mapError .ofFailure
  return { id := wid
           confirmations := (self.txConfirmations.lookup wid).getD 0
           txWeight
           txFee := UInt64.ofNat (withdrawalTxnFee txn) }

/-- The withdrawals that the inputs of one come from, whether or not they are still in flight. -/
def spentFrom (self : Leader) (txn : WithdrawalTransaction) : List Address :=
  txn.inputs.filterMap fun input =>
    (self.mirror.utxoRecords.lookup input.id).bind UtxoRecord.producedBy

/-- The breadth-first walk over a queue of withdrawals with their depths. Each is recorded once. -/
def walkAncestors (self : Leader) :
    Nat → List (Address × Nat) → List Address → Except WithdrawalCommitmentError (List AncestorTx)
  | 0, _, _ => return []
  | _ + 1, [], _ => return []
  | fuel + 1, (wid, depth) :: queue, seen =>
      if MAX_ANCESTOR_DEPTH ≤ depth ∨ wid ∈ seen then self.walkAncestors fuel queue seen
      else
        match self.mirror.withdrawalTxns.lookup wid with
        | none => self.walkAncestors fuel queue (wid :: seen)
        | some txn => do
            buildUnsignedWithdrawalTx (allOutputs txn)
            let ancestor ← self.ancestorTx wid txn
            let parents := (self.spentFrom txn).map fun parent => (parent, depth + 1)
            let chain ← self.walkAncestors fuel (queue ++ parents) (wid :: seen)
            return ancestor :: chain

/-- Every entry of the queue is the first one or comes from an input of a withdrawal that is
recorded once. -/
def walkFuel (self : Leader) : Nat :=
  self.mirror.withdrawalTxns.sum (fun txn => txn.inputs.length) + 2

def buildAncestorChain (self : Leader) (producingId : Address) :
    Except WithdrawalCommitmentError (List AncestorTx) :=
  self.walkAncestors self.walkFuel [(producingId, 0)] []

def buildUtxoStatus (self : Leader) (record : UtxoRecord) :
    Except WithdrawalCommitmentError UtxoStatus :=
  match record.producedBy with
  | none => .ok .confirmed
  | some producingId => do
      let chain ← self.buildAncestorChain producingId
      return if chain = [] then .confirmed else .pending chain

end Leader

def UnconfirmedAncestry.candidateRecords (self : UnconfirmedAncestry) (excluded : List UtxoId) :
    List UtxoRecord → StateM Walked (List UtxoRecord)
  | [] => return []
  | record :: rest =>
      if record.spentBy = none ∧ record.utxo.id ∉ excluded then do
        let depth ← self.depth record
        let kept ← self.candidateRecords excluded rest
        return if depth < MAX_ANCESTOR_DEPTH then record :: kept else kept
      else self.candidateRecords excluded rest

def confirmedUnlockedUtxoIds (mirror : Mirror) : List UtxoId :=
  ((mirror.utxoRecords.sortedValues fun a b => utxoIdLe a b).filter fun record =>
    record.spentBy.isNone &&
      record.producedBy.all fun producer => producer ∉ mirror.withdrawalTxns).map fun record =>
        record.utxo.id

namespace Leader

def candidate (self : Leader) (ages : Bag UtxoId Nat) (record : UtxoRecord) :
    Except WithdrawalCommitmentError UtxoCandidate := do
  let status ← self.buildUtxoStatus record
  return { id := record.utxo.id
           amount := UInt64.ofNat record.utxo.amount
           confirmationAgeBlocks := ages.lookup record.utxo.id
           spendPath := .taprootScriptPath2of2
           status }

def candidates (self : Leader) (feeRate : FeeRate) (excluded : List UtxoId) :
    Except WithdrawalCommitmentError (List UtxoCandidate) :=
  let ages := if feeRate < DEFAULT_HIGH_FEE_RATE_THRESHOLD then
      self.confirmationAges (confirmedUnlockedUtxoIds self.mirror)
    else ∅
  let ancestry : UnconfirmedAncestry := ⟨self.mirror.withdrawalTxns, self.mirror.utxoRecords⟩
  let records := self.mirror.utxoRecords.sortedValues fun a b => utxoIdLe a b
  let (kept, _) := (ancestry.candidateRecords excluded records).run ∅
  kept.mapM (self.candidate ages)

/-! ## Retrying with fewer requests -/

def params (self : Leader) (changeScript : Bytes) (requestCount maxInputs : Nat) :
    CoinSelectionParams where
  maxTxWeight := DEFAULT_MAX_TX_WEIGHT
  maxAncestorPackageWeight := DEFAULT_MAX_ANCESTOR_PACKAGE_WEIGHT
  maxInputs := maxInputs
  maxWithdrawalRequests := requestCount
  maxFeePerRequest := UInt64.ofNat (Mirror.worstCaseNetworkFee self.mirror.config)
  minFeeRate := self.withdrawalMinFeeRate
  longTermFeeRate := DEFAULT_LONG_TERM_FEE_RATE
  highFeeRateThreshold := DEFAULT_HIGH_FEE_RATE_THRESHOLD
  inputBudget := DEFAULT_INPUT_BUDGET
  maxMempoolChainDepth := self.maxMempoolChainDepth
  changeScript := changeScript

end Leader

/-- A request that cannot pay its share is dropped; any other error shrinks the batch. -/
def nextRequestCount (error : CoinSelectionError) (requests : List WithdrawalRequest)
    (requestCount : Nat) : List WithdrawalRequest × Nat :=
  match error with
  | .requestAmountTooSmall requestId _ _ =>
      if requests.any fun request => request.id == requestId then
        let kept := requests.filter fun request => request.id ≠ requestId
        (kept, min requestCount kept.length)
      else (requests, requestCount - 1)
  | _ => (requests, requestCount - 1)

namespace Leader

/-- Each failed attempt drops a request or shrinks the batch, which bounds the attempts. -/
def selectBatch (self : Leader) (changeScript : Bytes) (feeRate : FeeRate)
    (candidates : List UtxoCandidate) :
    Nat → List WithdrawalRequest → Nat → Option CoinSelectionError →
      Except WithdrawalCommitmentError CoinSelectionResult
  | 0, _, _, last => .error (.utxoSelectionFailed last)
  | fuel + 1, requests, requestCount, last =>
      if requestCount = 0 then .error (.utxoSelectionFailed last)
      else
        let maxInputs := safeWithdrawalFlowMaxInputs requestCount DEFAULT_MAX_INPUTS
        if maxInputs = 0 then
          self.selectBatch changeScript feeRate candidates fuel requests (requestCount - 1) last
        else
          match selectCoins candidates (requests.take requestCount)
              (self.params changeScript requestCount maxInputs) feeRate with
          | .ok selection => .ok selection
          | .error (.panicked message) => .error (.panicked message)
          | .error (.returned error) =>
              let (requests, requestCount) := nextRequestCount error requests requestCount
              self.selectBatch changeScript feeRate candidates fuel requests requestCount
                (some error)

end Leader

def mapRequest (request : Btc.WithdrawalRequest) : WithdrawalRequest where
  id := request.id
  recipient := request.bitcoinAddress
  amount := UInt64.ofNat request.btcAmount
  timestampMs := request.createdTimestampMs

namespace Leader

def activeUtxo (mirror : Mirror) (id : UtxoId) : Option Utxo :=
  match mirror.utxoRecords.lookup id with
  | some record => if record.spentBy.isNone then some record.utxo else none
  | none => none

def outputs (changeScript : Bytes) (result : CoinSelectionResult) :
    Except WithdrawalCommitmentError (List OutputUtxo) := do
  let paid := result.withdrawalOutputs.map fun o => ⟨o.amount.toNat, o.recipient⟩
  match result.change with
  | none => return paid
  | some change => do
      let program ← witnessProgramFromAddress changeScript
      return paid ++ [⟨change.toNat, program⟩]

def buildWithdrawalTxCommitment (self : Leader) (requests : List Btc.WithdrawalRequest)
    (excludedInputs : List UtxoId) : Except WithdrawalCommitmentError WithdrawalTxCommitment := do
  let estimate ← self.recentFeeRate.mapError WithdrawalCommitmentError.feeEstimateFailed
  let feeRate := withdrawalFeeRate self.network self.withdrawalMinFeeRate estimate
  let changeScript ← self.depositScript.mapError WithdrawalCommitmentError.btcTxBuildFailed
  let candidates ← self.candidates feeRate excludedInputs
  let batchRequestCap := withdrawalBatchRequestCap requests.length candidates.length
  let configuredMaxRequests :=
    min (min self.withdrawalMaxBatchSize batchRequestCap) requests.length
  let result ← self.selectBatch changeScript feeRate candidates
    (requests.length + configuredMaxRequests + 1) (requests.map mapRequest) configuredMaxRequests
    none
  let outputs ← outputs changeScript result
  let selectedInputUtxos ← orAbort (result.inputs.mapM fun c => activeUtxo self.later c.id)
    (WithdrawalCommitmentError.btcTxBuildFailed
      "a selected UTXO disappeared from the pool between selection and tx build")
  buildUnsignedWithdrawalTx outputs
  return { requestIds := result.selectedRequests.map WithdrawalRequest.id
           selectedUtxos := result.inputs.map UtxoCandidate.id
           outputs
           txid := self.computeTxid selectedInputUtxos outputs }

end Leader

end HashiBridge.Node
