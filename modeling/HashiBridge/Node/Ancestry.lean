import HashiBridge.Btc.WithdrawalQueue
import HashiBridge.Node.CoinSelection

/-!
# Unconfirmed ancestors of an output

A change output of an in-flight withdrawal is spendable at once, so withdrawals chain up in the
mempool.
-/

namespace HashiBridge.Node

open Lib HashiBridge.Core Btc

/-! ## Weights and fees of a withdrawal transaction -/

def SCRIPT_PATH_2OF2_TXIN_WEIGHT : Weight := 164 + 268
def TX_FIXED_WEIGHT_WU : Weight := 34
def P2TR_OUTPUT_WEIGHT_WU : Weight := 172
def P2WPKH_OUTPUT_WEIGHT_WU : Weight := 124

/-- The weight of an output, or the unsupported length of its address. -/
def outputWeightForWitnessProgram (bitcoinAddress : Bytes) : Except Nat Weight :=
  match bitcoinAddress.length with
  | 32 => .ok P2TR_OUTPUT_WEIGHT_WU
  | 20 => .ok P2WPKH_OUTPUT_WEIGHT_WU
  | len => .error len

def estimatedWithdrawalTxWeight (inputCount : Nat) (outputs : List OutputUtxo) :
    Except Nat Weight := do
  let inputWeight := SCRIPT_PATH_2OF2_TXIN_WEIGHT * UInt64.ofNat inputCount
  let outputWeights ← outputs.mapM fun output => outputWeightForWitnessProgram output.bitcoinAddress
  return TX_FIXED_WEIGHT_WU + inputWeight + outputWeights.sum + varintWeight inputCount +
    varintWeight outputs.length

def withdrawalTxnWeight (txn : WithdrawalTransaction) : Except Nat Weight :=
  estimatedWithdrawalTxWeight txn.inputs.length (txn.withdrawalOutputs ++ txn.changeOutputs)

def withdrawalTxnFee (txn : WithdrawalTransaction) : Nat :=
  wrapU64 (txn.inputs.map Utxo.amount).sum -
    wrapU64 ((txn.withdrawalOutputs ++ txn.changeOutputs).map OutputUtxo.amount).sum

/-! ## The walk -/

structure Ancestor where
  depth : Nat
  weight : Weight
  fee : Nat
deriving DecidableEq

structure UnconfirmedAncestry where
  withdrawalTxns : Bag Address WithdrawalTransaction
  utxoRecords : Bag UtxoId UtxoRecord

abbrev Walked := Bag Address Ancestor

namespace UnconfirmedAncestry

def pendingTxids (self : UnconfirmedAncestry) : Multiset Address :=
  self.withdrawalTxns.entries.map fun e => e.2.txid

def parent (self : UnconfirmedAncestry) (input : Utxo) : Option Address :=
  if input.id.txid ∈ self.pendingTxids then
    (self.utxoRecords.lookup input.id).bind UtxoRecord.producedBy
  else none

/-- The entry of a withdrawal; one whose weight cannot be estimated counts nothing. -/
def entry (txn : WithdrawalTransaction) (depth : Nat) : Ancestor :=
  match withdrawalTxnWeight txn with
  | .ok weight => ⟨depth, weight, withdrawalTxnFee txn⟩
  | .error _ => ⟨depth, 0, 0⟩

/-- The depth of an in-flight withdrawal, 0 for any other. While its inputs are walked, a
withdrawal stands at the limit, which ends a cycle. -/
def chainDepth (self : UnconfirmedAncestry) : Nat → Address → StateM Walked Nat
  | 0, _ => pure MAX_ANCESTOR_DEPTH
  | fuel + 1, wid => do
      let walked ← get
      match walked.lookup wid with
      | some ancestor => return ancestor.depth
      | none =>
        match self.withdrawalTxns.lookup wid with
        | none => return 0
        | some txn => do
          modify (Finmap.insert wid (entry txn MAX_ANCESTOR_DEPTH))
          let deepestParent ← txn.inputs.foldlM (fun deepest input =>
            match self.parent input with
            | none => pure deepest
            | some parent => do
                let depth ← self.chainDepth fuel parent
                return max deepest depth) 0
          let depth := 1 + deepestParent
          modify (Finmap.insert wid (entry txn depth))
          return depth

/-- Enough fuel to enter every withdrawal and to look one more up. -/
def fuel (self : UnconfirmedAncestry) : Nat := self.withdrawalTxns.keys.card + 1

def depth (self : UnconfirmedAncestry) (record : UtxoRecord) : StateM Walked Nat :=
  match record.producedBy with
  | none => pure 0
  | some producingId => self.chainDepth self.fuel producingId

def package (walked : Walked) : Weight × Nat :=
  (UInt64.ofNat (walked.sum fun a => a.weight.toNat), saturateU64 (walked.sum Ancestor.fee))

end UnconfirmedAncestry

end HashiBridge.Node
