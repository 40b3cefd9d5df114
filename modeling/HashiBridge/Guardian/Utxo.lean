import HashiBridge.Core.Basic

/-!
# The transaction a guardian signs

`TxUTXOs` is built by `new` only, which checks the inputs and outputs of a request from the wire.
Its fields keep what was checked.
-/

namespace HashiBridge.Guardian

open Lib HashiBridge.Core

structure OutPoint where
  txid : Nat
  vout : Nat
deriving DecidableEq

structure InputUTXO where
  outpoint : OutPoint
  amount : Nat
  derivationPath : Bytes
deriving DecidableEq

/-- An output to a user's address, or change that the enclave derives itself. -/
inductive OutputUTXO
  | external (address : String) (amount : Nat)
  | internal (derivationPath : Bytes) (amount : Nat)
deriving DecidableEq

namespace OutputUTXO

def amount : OutputUTXO → Nat
  | external _ amount => amount
  | internal _ amount => amount

def internalAmount : OutputUTXO → Option Nat
  | external _ _ => none
  | internal _ amount => some amount

def address : OutputUTXO → Option String
  | external address _ => some address
  | internal _ _ => none

end OutputUTXO

structure TxUTXOsWire where
  inputs : List InputUTXO
  outputs : List OutputUTXO
deriving DecidableEq

structure BitcoinLib where
  requireNetwork : String → Bool
  network : String
  debugAddress : String → String
  displayOutPoint : OutPoint → String
  displayAmount : Nat → String

structure TxUTXOs where
  inputs : List InputUTXO
  outputs : List OutputUTXO
  inputs_ne : inputs ≠ []
  outputs_ne : outputs ≠ []
  input_pos : ∀ utxo ∈ inputs, 0 < utxo.amount
  output_pos : ∀ utxo ∈ outputs, 0 < utxo.amount
  outpoints_nodup : (inputs.map InputUTXO.outpoint).Nodup
  inputs_lt : (inputs.map InputUTXO.amount).sum < U64_SIZE
  fee_pos : (outputs.map OutputUTXO.amount).sum < (inputs.map InputUTXO.amount).sum
deriving DecidableEq

def firstDuplicate (seen : List OutPoint) : List OutPoint → Option OutPoint
  | [] => none
  | p :: ps => if p ∈ seen then some p else firstDuplicate (p :: seen) ps

theorem firstDuplicate_eq_none {seen ps : List OutPoint} (h : firstDuplicate seen ps = none) :
    ps.Nodup ∧ ∀ p ∈ ps, p ∉ seen := by
  induction ps generalizing seen with
  | nil => simp
  | cons p ps ih =>
      unfold firstDuplicate at h
      split_ifs at h with hp
      obtain ⟨hnodup, hnew⟩ := ih h
      simp only [List.nodup_cons, hnodup, and_true, List.forall_mem_cons]
      refine ⟨fun hmem => hnew p hmem List.mem_cons_self, hp, ?_⟩
      intro q hq hseen
      exact hnew q hq (List.mem_cons_of_mem _ hseen)

namespace TxUTXOs

def new (lib : BitcoinLib) (inputs : List InputUTXO) (outputs : List OutputUTXO) :
    Except String TxUTXOs :=
  let inputSum := (inputs.map InputUTXO.amount).sum
  let outputSum := (outputs.map OutputUTXO.amount).sum
  if hinputs : inputs = [] then .error "input utxos must not be empty"
  else if houtputs : outputs = [] then .error "output utxos must not be empty"
  else
    match (outputs.filterMap OutputUTXO.address).find? (!lib.requireNetwork ·) with
    | some address =>
        let debug := lib.debugAddress address
        let network := lib.network
        .error s!"invalid address {debug} for network {network}"
    | none =>
      if hin : ∃ utxo ∈ inputs, utxo.amount = 0 then .error "input amount must be > 0"
      else if hout : ∃ utxo ∈ outputs, utxo.amount = 0 then .error "output amount must be > 0"
      else
        match hdup : firstDuplicate [] (inputs.map InputUTXO.outpoint) with
        | some outpoint =>
            let display := lib.displayOutPoint outpoint
            .error s!"duplicate input outpoint: {display}"
        | none =>
          if hsum : inputSum < U64_SIZE then
            if outputSum < U64_SIZE then
              if hfee : outputSum < inputSum then
                .ok { inputs, outputs, inputs_ne := hinputs, outputs_ne := houtputs
                      input_pos := fun utxo hmem =>
                        Nat.pos_of_ne_zero fun h0 => hin ⟨utxo, hmem, h0⟩
                      output_pos := fun utxo hmem =>
                        Nat.pos_of_ne_zero fun h0 => hout ⟨utxo, hmem, h0⟩
                      outpoints_nodup := (firstDuplicate_eq_none hdup).1
                      inputs_lt := hsum, fee_pos := hfee }
              else
                let ins := lib.displayAmount inputSum
                let outs := lib.displayAmount outputSum
                .error s!"fees must be greater than zero: input_sum={ins} output_sum={outs}"
            else .error "total output amount overflows"
          else .error "total input amount overflows"

def grossOutflowAmount (self : TxUTXOs) : Nat :=
  (self.inputs.map InputUTXO.amount).sum - (self.outputs.filterMap OutputUTXO.internalAmount).sum

end TxUTXOs

end HashiBridge.Guardian
