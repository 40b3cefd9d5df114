import HashiBridge.Node.Lemmas.CoinSelection

/-!
# What a withdrawal transaction weighs and owes

A draft pays requests from inputs and returns the excess as change.
-/

namespace HashiBridge.Node

open Lib HashiBridge.Core Btc

structure Draft where
  /-- the effective rate, in satoshis per thousand weight units -/
  feeRate : Nat
  params : CoinSelectionParams
  inputs : List UtxoCandidate
  requests : List WithdrawalRequest

namespace Draft

variable (d : Draft)

def withInputs (inputs : List UtxoCandidate) : Draft := { d with inputs }

@[simp] theorem withInputs_inputs (inputs : List UtxoCandidate) :
    (d.withInputs inputs).inputs = inputs := rfl

@[simp] theorem withInputs_requests (inputs : List UtxoCandidate) :
    (d.withInputs inputs).requests = d.requests := rfl

@[simp] theorem withInputs_params (inputs : List UtxoCandidate) :
    (d.withInputs inputs).params = d.params := rfl

/-! ## Amounts -/

def inputTotal : Nat := valueSum (d.inputs.map UtxoCandidate.amount)

def requested : Nat := valueSum (d.requests.map WithdrawalRequest.amount)

def change : Nat := d.inputTotal - d.requested

def changeDust : Nat := (dustThresholdForChange d.params.changeScript).toNat

def ChangePasses : Prop := d.change = 0 ∨ d.changeDust ≤ d.change

/-! ## Weights -/

def inputWeight : Nat :=
  (d.inputs.map fun u => TXIN_BASE_WEIGHT.toNat + u.spendPath.satisfactionWeight.toNat).sum

def outputWeight : Nat := valueSum (d.requests.map outputWeightForRecipient)

def weightWith (hasChange : Bool) : Nat :=
  34 + (varintWeight d.inputs.length).toNat +
    (varintWeight (d.requests.length + if hasChange then 1 else 0)).toNat + d.inputWeight +
    d.outputWeight + if hasChange then (9 + d.params.changeScript.length) * 4 else 0

def weight : Nat := d.weightWith (0 < d.change)

/-- The unconfirmed ancestors of the inputs, as often as the inputs list them. -/
def zeroConf : List AncestorTx :=
  (d.inputs.flatMap fun u => u.status.chain).filter fun a => a.confirmations = 0

def ancestors : List AncestorTx := firstById [] d.zeroConf

def ancestorWeight : Nat := valueSum (d.ancestors.map AncestorTx.txWeight)

def ancestorFee : Nat := valueSum (d.ancestors.map AncestorTx.txFee)

def packageWeight : Nat := d.weight + d.ancestorWeight

def WeightPasses : Prop :=
  d.weight ≤ d.params.maxTxWeight.toNat ∧
    d.packageWeight ≤ d.params.maxAncestorPackageWeight.toNat

/-! ## Fees -/

def feeOf (weight : Nat) : Nat := (d.feeRate * weight + 999) / 1000

def deficit : Nat := d.feeOf d.ancestorWeight - d.ancestorFee

def requiredFee : Nat := d.feeOf d.weight + d.deficit

def share : Nat := d.requiredFee ⌈/⌉ d.requests.length

def FeesPass : Prop :=
  d.share ≤ d.params.maxFeePerRequest.toNat ∧
    ∀ r ∈ d.requests, d.share + r.dustThreshold.toNat ≤ r.amount.toNat

def Passes : Prop := d.FeesPass ∧ d.WeightPasses

instance : Decidable d.ChangePasses := inferInstanceAs (Decidable (_ ∨ _))

instance : Decidable d.WeightPasses := inferInstanceAs (Decidable (_ ∧ _))

instance : Decidable d.FeesPass := inferInstanceAs (Decidable (_ ∧ _))

instance : Decidable d.Passes := inferInstanceAs (Decidable (_ ∧ _))

def Eligible (u : UtxoCandidate) : Prop :=
  let alone := d.withInputs [u]
  u.status.mempoolChainDepth ≤ d.params.maxMempoolChainDepth ∧
    u.status.mempoolChainDepth < MAX_ANCESTOR_DEPTH ∧
    valueSum (alone.zeroConf.map AncestorTx.txWeight) + alone.weight ≤
      d.params.maxAncestorPackageWeight.toNat ∧
    (u.status.isConfirmed ∨ alone.FeesPass)

instance (u : UtxoCandidate) : Decidable (d.Eligible u) :=
  inferInstanceAs (Decidable (_ ∧ _ ∧ _ ∧ (_ ∨ _)))

/-- The draft as a plan: every request is paid its amount less the share. -/
def result : CoinSelectionResult where
  inputs := d.inputs
  withdrawalOutputs := d.requests.map fun r =>
    ⟨r.id, r.recipient, r.amount - UInt64.ofNat d.share⟩
  change := if 0 < d.change then some (UInt64.ofNat d.change) else none
  fee := UInt64.ofNat (d.requests.length * d.share)
  selectedRequests := d.requests

/-! ## Sums that fit -/

/-- The most the transaction and all the ancestors it lists can weigh. -/
def grossWeight : Nat := d.weightWith true + valueSum (d.zeroConf.map AncestorTx.txWeight)

/-- Amounts, fees and weights of everything in the draft add up without overflow. -/
structure Fits : Prop where
  amounts : d.inputTotal < U64_SIZE
  requested : d.requested < U64_SIZE
  ancestorFees : valueSum (d.zeroConf.map AncestorTx.txFee) < U64_SIZE
  weight : d.grossWeight < U64_SIZE
  fee : d.feeRate * d.grossWeight + 999 < U64_SIZE

end Draft

def effectiveFeeRate (params : CoinSelectionParams) (feeRate : FeeRate) : FeeRate :=
  if feeRate < params.minFeeRate then params.minFeeRate else feeRate

/-- The requests of a batch: the oldest ones, requests of one time in the order given. -/
def oldestRequests (requests : List WithdrawalRequest) (maxWithdrawalRequests : Nat) :
    List WithdrawalRequest :=
  (requests.insertionSort fun a b => a.timestampMs ≤ b.timestampMs).take maxWithdrawalRequests

def batchDraft (requests : List WithdrawalRequest) (params : CoinSelectionParams)
    (feeRate : FeeRate) (inputs : List UtxoCandidate) : Draft where
  feeRate := (effectiveFeeRate params feeRate).toNat
  params := params
  inputs := inputs
  requests := oldestRequests requests params.maxWithdrawalRequests

def TransactionBuilder.draft (b : TransactionBuilder) : Draft where
  feeRate := b.feeRate.toNat
  params := b.params
  inputs := b.inputs
  requests := b.outputs.map PendingOutput.request

end HashiBridge.Node
