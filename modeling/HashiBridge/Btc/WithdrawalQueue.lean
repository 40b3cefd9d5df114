import HashiBridge.Core.Committee
import HashiBridge.Core.MpcSigning
import HashiBridge.Btc.UtxoPool

/-!
# Withdrawal requests and withdrawal transactions

A request keeps its BTC in escrow until it is committed to a transaction; the link to that
transaction marks the escrow as drained.
-/

namespace HashiBridge.Btc

open Lib HashiBridge.Core

structure WithdrawalRequest where
  id : Address
  sender : Address
  btcAmount : Nat
  bitcoinAddress : Bytes
  createdTimestampMs : Nat
  approvalCert : Option CommitteeSignature
  approvedTimestampMs : Option Nat
  /-- the transaction this request was committed into -/
  withdrawalTxnId : Option Address
  suiTxDigest : Bytes
  /-- the escrowed balance -/
  btc : Nat
deriving DecidableEq

structure OutputUtxo where
  amount : Nat
  bitcoinAddress : Bytes
deriving DecidableEq

structure CommittedRequestInfo where
  btcAmount : Nat
  bitcoinAddress : Bytes
deriving DecidableEq

structure WithdrawalTransaction where
  id : Address
  txid : Address
  requestIds : List Address
  inputs : List Utxo
  withdrawalOutputs : List OutputUtxo
  /-- the trailing outputs of the Bitcoin transaction -/
  changeOutputs : List OutputUtxo
  createdTimestampMs : Nat
  signedTimestampMs : Option Nat
  confirmedTimestampMs : Option Nat
  randomness : Bytes
  signing : SigningBatch
  guardianSignatures : Option (List Bytes)
deriving DecidableEq

def allOutputs (txn : WithdrawalTransaction) : List OutputUtxo :=
  txn.withdrawalOutputs ++ txn.changeOutputs

@[ext]
structure WithdrawalRequestQueue where
  requests : Bag Address WithdrawalRequest
  processed : Bag Address WithdrawalRequest
  withdrawalTxns : Bag Address WithdrawalTransaction
  confirmedTxns : Bag Address WithdrawalTransaction

def U32_MAX : Nat := 2 ^ 32 - 1

namespace WithdrawalRequest

def isApproved (self : WithdrawalRequest) : Prop := self.approvalCert.isSome

instance (self : WithdrawalRequest) : Decidable self.isApproved :=
  inferInstanceAs (Decidable (_ = true))

def isCommitted (self : WithdrawalRequest) : Prop := self.withdrawalTxnId.isSome

instance (self : WithdrawalRequest) : Decidable self.isCommitted :=
  inferInstanceAs (Decidable (_ = true))

def create (btc : Nat) (bitcoinAddress : Bytes) (now : Nat) (ctx : TxContext) :
    Except Abort WithdrawalRequest := do
  require (bitcoinAddress.length = 32 ∨ bitcoinAddress.length = 20) Abort.assertion
  return { id := ctx.fresh, sender := ctx.sender, btcAmount := btc, bitcoinAddress
           createdTimestampMs := now, approvalCert := none, approvedTimestampMs := none
           withdrawalTxnId := none, suiTxDigest := ctx.digest, btc }

def commitTo (self : WithdrawalRequest) (withdrawalTxnId : Address) : WithdrawalRequest :=
  { self with btc := 0, withdrawalTxnId := some withdrawalTxnId }

end WithdrawalRequest

namespace WithdrawalTransaction

def txnFullySigned (self : WithdrawalTransaction) : Prop :=
  self.signing.isComplete ∧ self.guardianSignatures.isSome

instance (self : WithdrawalTransaction) : Decidable self.txnFullySigned :=
  inferInstanceAs (Decidable (_ ∧ _))

def isConfirmed (self : WithdrawalTransaction) : Prop := self.confirmedTimestampMs.isSome

instance (self : WithdrawalTransaction) : Decidable self.isConfirmed :=
  inferInstanceAs (Decidable (_ = true))

/-- Change output `j` sits at `vout` number `withdrawalOutputs.length + j`, which fits a `u32`. -/
def changeUtxoIds (self : WithdrawalTransaction) : List UtxoId :=
  (List.range self.changeOutputs.length).map fun j => ⟨self.txid, self.withdrawalOutputs.length + j⟩

def buildChangeUtxos (self : WithdrawalTransaction) : List Utxo :=
  self.changeOutputs.mapIdx fun j change =>
    { id := ⟨self.txid, self.withdrawalOutputs.length + j⟩, amount := change.amount
      derivationPath := none }

def checkOutput (requestInfos : List CommittedRequestInfo) (outputs : List OutputUtxo)
    (perUserMinerFee i : Nat) : Except Abort Unit := do
  let info ← orAbort requestInfos[i]? Abort.outOfBounds
  let output ← orAbort outputs[i]? Abort.outOfBounds
  let floor ← add perUserMinerFee BtcConfig.DUST_RELAY_MIN_VALUE
  require (floor ≤ info.btcAmount) Abort.outputBelowDust
  require (output.amount = info.btcAmount - perUserMinerFee) Abort.outputAmountMismatch
  require (output.bitcoinAddress = info.bitcoinAddress) Abort.outputAddressMismatch

/-- The constructor's checks on amounts, fee and outputs; the outputs are one per request followed
by the change. -/
def new (fresh : Address) (requestIds : List Address) (requestInfos : List CommittedRequestInfo)
    (inputs : List Utxo) (outputs : List OutputUtxo) (txid : Address) (presigs : List Presig)
    (epoch : Nat) (config : Config) (now : Nat) (randomness : Bytes) :
    Except Abort WithdrawalTransaction := do
  let maxNetworkFee ← BtcConfig.worstCaseNetworkFee config
  let inputAmount ← sumU64 Abort.arithmetic (inputs.map Utxo.amount)
  let outputAmount ← sumU64 Abort.arithmetic (outputs.map OutputUtxo.amount)
  require (outputAmount ≤ inputAmount) Abort.inputsBelowOutputs
  let minerFee := inputAmount - outputAmount
  let requestCount := requestIds.length
  require (requestCount ≤ outputs.length) Abort.outputCountMismatch
  require (outputs.length ≤ U32_MAX) Abort.outputCountMismatch
  -- the remainder by a request count of zero aborts
  require (requestCount ≠ 0) Abort.arithmetic
  require (minerFee % requestCount = 0) Abort.minerFeeNotEvenlySplit
  let perUserMinerFee := minerFee / requestCount
  require (perUserMinerFee ≤ maxNetworkFee) Abort.minerFeeExceedsMax
  (List.range requestCount).forM (checkOutput requestInfos outputs perUserMinerFee)
  let signing ← SigningBatch.new inputs.length presigs epoch
  return { id := fresh, txid, requestIds, inputs
           withdrawalOutputs := outputs.take requestCount
           changeOutputs := outputs.drop requestCount
           createdTimestampMs := now, signedTimestampMs := none, confirmedTimestampMs := none
           randomness, signing, guardianSignatures := none }

end WithdrawalTransaction

namespace WithdrawalRequestQueue

def create : WithdrawalRequestQueue := ⟨∅, ∅, ∅, ∅⟩

/-! ## Requests -/

def insertWithdrawal (self : WithdrawalRequestQueue) (request : WithdrawalRequest) :
    Except Abort WithdrawalRequestQueue := do
  let requests ← self.requests.add Abort.fieldAlreadyExists request.id request
  return { self with requests }

def borrowRequest (self : WithdrawalRequestQueue) (requestId : Address) :
    Except Abort WithdrawalRequest :=
  self.requests.borrow Abort.fieldDoesNotExist requestId

/-- Record an approval; a second one needs a certificate of a strictly later epoch. -/
def approveWithdrawal (self : WithdrawalRequestQueue) (requestId : Address)
    (cert : CommitteeSignature) (now : Nat) : Except Abort WithdrawalRequestQueue := do
  let request ← self.borrowRequest requestId
  require (¬ request.isCommitted) Abort.cannotApproveCommittedRequest
  require (∀ old ∈ request.approvalCert, old.epoch < cert.epoch) Abort.approvalCertNotNewer
  return { self with
    requests := self.requests.insert requestId
      { request with approvalCert := some cert, approvedTimestampMs := some now } }

def extractRequestInfos (self : WithdrawalRequestQueue) (requestIds : List Address) :
    Except Abort (List CommittedRequestInfo) :=
  requestIds.mapM fun id => do
    let request ← self.borrowRequest id
    return { btcAmount := request.btcAmount, bitcoinAddress := request.bitcoinAddress }

/-- One round of the commit loop: drain the escrow into the running balance and link the request. -/
def commitRequest (withdrawalTxnId : Address) (state : Bag Address WithdrawalRequest × Nat)
    (id : Address) : Except Abort (Bag Address WithdrawalRequest × Nat) := do
  let request ← state.1.borrow Abort.fieldDoesNotExist id
  require request.isApproved Abort.requestNotApproved
  require (¬ request.isCommitted) Abort.requestAlreadyCommitted
  let totalBtc ← add state.2 request.btc
  return (state.1.insert id (request.commitTo withdrawalTxnId), totalBtc)

/-- Commit the requests of a transaction; the result is the balance to burn. -/
def commitRequests (self : WithdrawalRequestQueue) (txn : WithdrawalTransaction) :
    Except Abort (WithdrawalRequestQueue × Nat) := do
  let (requests, totalBtc) ← txn.requestIds.foldlM (commitRequest txn.id) (self.requests, 0)
  return ({ self with requests }, totalBtc)

def cancelWithdrawal (self : WithdrawalRequestQueue) (requestId : Address) :
    Except Abort (WithdrawalRequestQueue × Nat) := do
  let (request, requests) ← self.requests.remove Abort.fieldDoesNotExist requestId
  require (¬ request.isCommitted) Abort.requestNotCancellable
  return ({ self with requests }, request.btc)

def isRequestProcessing (self : WithdrawalRequestQueue) (requestId : Address) : Bool :=
  match self.requests.lookup requestId with
  | some request => decide request.isCommitted
  | none => decide (requestId ∈ self.processed)

/-! ## Transactions -/

def insertWithdrawalTxn (self : WithdrawalRequestQueue) (txn : WithdrawalTransaction) :
    Except Abort WithdrawalRequestQueue := do
  let withdrawalTxns ← self.withdrawalTxns.add Abort.fieldAlreadyExists txn.id txn
  return { self with withdrawalTxns }

def borrowWithdrawalTxn (self : WithdrawalRequestQueue) (withdrawalId : Address) :
    Except Abort WithdrawalTransaction :=
  self.withdrawalTxns.borrow Abort.fieldDoesNotExist withdrawalId

def setTxn (self : WithdrawalRequestQueue) (withdrawalId : Address) (txn : WithdrawalTransaction) :
    WithdrawalRequestQueue :=
  { self with withdrawalTxns := self.withdrawalTxns.insert withdrawalId txn }

def recordInputSignatures (self : WithdrawalRequestQueue) (withdrawalId : Address)
    (indices : List Nat) (signatures : List Bytes) : Except Abort WithdrawalRequestQueue := do
  let txn ← self.borrowWithdrawalTxn withdrawalId
  require (¬ txn.txnFullySigned) Abort.withdrawalAlreadyFinalized
  let signing ← txn.signing.record indices signatures
  return self.setTxn withdrawalId { txn with signing }

def finalizeWithdrawalTxn (self : WithdrawalRequestQueue) (withdrawalId : Address)
    (guardianSignatures : List Bytes) (now : Nat) : Except Abort WithdrawalRequestQueue := do
  let txn ← self.borrowWithdrawalTxn withdrawalId
  require (¬ txn.txnFullySigned) Abort.withdrawalAlreadyFinalized
  require txn.signing.isComplete Abort.withdrawalNotFullySigned
  return self.setTxn withdrawalId
    { txn with guardianSignatures := some guardianSignatures, signedTimestampMs := some now }

def markTxnConfirmed (self : WithdrawalRequestQueue) (withdrawalId : Address) (now : Nat) :
    Except Abort WithdrawalRequestQueue := do
  let txn ← self.borrowWithdrawalTxn withdrawalId
  require (txn.confirmedTimestampMs = none) Abort.withdrawalAlreadyConfirmed
  return self.setTxn withdrawalId { txn with confirmedTimestampMs := some now }

def reallocatePresigsForWithdrawalTxn (self : WithdrawalRequestQueue) (withdrawalId : Address)
    (presigs : List Presig) (currentEpoch : Nat) (randomness : Bytes) :
    Except Abort WithdrawalRequestQueue := do
  let txn ← self.borrowWithdrawalTxn withdrawalId
  let signing ← txn.signing.reallocate presigs currentEpoch
  -- the randomness is redrawn only where a slot is reassigned
  return self.setTxn withdrawalId
    { txn with signing, randomness := if presigs = [] then txn.randomness else randomness }

/-! ## Archival -/

/-- Move one request of a confirmed transaction to `processed`; one already there is skipped. -/
def archiveRequest (withdrawalId : Address) (self : WithdrawalRequestQueue) (requestId : Address) :
    Except Abort WithdrawalRequestQueue :=
  match self.requests.lookup requestId with
  | none => .ok self
  | some request => do
      require (request.withdrawalTxnId = some withdrawalId) Abort.requestTxnMismatch
      let processed ← self.processed.add Abort.fieldAlreadyExists requestId request
      return { self with requests := self.requests.erase requestId, processed }

def archiveTxn (self : WithdrawalRequestQueue) (withdrawalId : Address) :
    Except Abort WithdrawalRequestQueue := do
  let (txn, withdrawalTxns) ← self.withdrawalTxns.remove Abort.fieldDoesNotExist withdrawalId
  let confirmedTxns ← self.confirmedTxns.add Abort.fieldAlreadyExists withdrawalId txn
  return { self with withdrawalTxns, confirmedTxns }

def archiveWithdrawalTxn (self : WithdrawalRequestQueue) (withdrawalId : Address) :
    Except Abort WithdrawalRequestQueue :=
  match self.withdrawalTxns.lookup withdrawalId with
  | none => .ok self
  | some txn => do
      require txn.isConfirmed Abort.withdrawalNotConfirmed
      let archived ← txn.requestIds.foldlM (archiveRequest withdrawalId) self
      archived.archiveTxn withdrawalId

def archiveWithdrawalRequests (self : WithdrawalRequestQueue) (withdrawalId : Address)
    (requestIds : List Address) : Except Abort WithdrawalRequestQueue :=
  match self.withdrawalTxns.lookup withdrawalId with
  | none => .ok self
  | some txn => do
      require txn.isConfirmed Abort.withdrawalNotConfirmed
      requestIds.foldlM (archiveRequest withdrawalId) self

/-- Archive the transaction once all its requests are processed; skip it before that. -/
def finishArchiveWithdrawalTxn (self : WithdrawalRequestQueue) (withdrawalId : Address) :
    Except Abort WithdrawalRequestQueue :=
  match self.withdrawalTxns.lookup withdrawalId with
  | none => .ok self
  | some txn => do
      require txn.isConfirmed Abort.withdrawalNotConfirmed
      if ∀ id ∈ txn.requestIds, id ∈ self.processed then self.archiveTxn withdrawalId
      else .ok self

end WithdrawalRequestQueue

end HashiBridge.Btc
