import HashiBridge.Guardian.Serialization
import HashiBridge.Lib.Word
import HashiBridge.Node.Batching

/-!
# The weights of a withdrawal agree

Coin selection, the validators' estimate and the weight of an ancestor are three formulas.
-/

namespace HashiBridge.Node

open Lib HashiBridge.Core Btc Guardian

def IsScriptPath2of2 (witness : List Bytes) : Prop := witness.map List.length = [64, 64, 70, 65]

structure Signs (unsigned signed : Transaction) : Prop where
  version : signed.version = unsigned.version
  lockTime : signed.lockTime = unsigned.lockTime
  output : signed.output = unsigned.output
  input : List.Forall₂ (fun plain full : TxIn =>
    ∃ witness, full = { plain with witness } ∧ IsScriptPath2of2 witness) unsigned.input signed.input

/-! ## The serialized weight -/

/-- The weight of a withdrawal by its counts: `sizes` are the lengths of the witness programs. -/
def withdrawalWeight (inputCount : Nat) (sizes : List Nat) : Nat :=
  34 + 4 * (compactSize inputCount).length + 4 * (compactSize sizes.length).length +
    432 * inputCount + (sizes.map fun size => 4 * (11 + size)).sum

theorem sum_const {α : Type} {f : α → Nat} {c : Nat} {xs : List α} (h : ∀ x ∈ xs, f x = c) :
    (xs.map f).sum = c * xs.length := by
  rw [List.map_congr_left h, List.map_const', List.sum_replicate, smul_eq_mul, Nat.mul_comm]

theorem IsScriptPath2of2.encodeWitness_length {input : TxIn} (h : IsScriptPath2of2 input.witness) :
    input.encodeWitness.length = 268 := by
  have hlength : input.witness.length = 4 := by
    rw [← List.length_map List.length, h]
    rfl
  have hbytes : ∀ element : Bytes, (encodeBytes element).length =
      (compactSize element.length).length + element.length := fun element => by
    rw [encodeBytes, List.length_append]
  have hsizes : input.witness.map (fun element : Bytes =>
      (compactSize element.length).length + element.length) =
      (input.witness.map List.length).map fun size => (compactSize size).length + size := by
    rw [List.map_map]
    rfl
  rw [TxIn.encodeWitness, encodeVec_length hbytes, hlength, hsizes, h]
  rfl

namespace Signs

variable {unsigned signed : Transaction} (h : Signs unsigned signed)
include h

theorem input_length : signed.input.length = unsigned.input.length := h.input.length_eq.symm

theorem encodeBase_eq : signed.encodeBase = unsigned.encodeBase := by
  have hencode : signed.input.map TxIn.encode = unsigned.input.map TxIn.encode := by
    apply map_eq_of_forall₂
    refine h.input.imp ?_
    rintro plain full ⟨witness, rfl, -⟩
    rfl
  simp only [Transaction.encodeBase, Transaction.encodeBody, encodeVec, h.version, h.lockTime,
    h.output, h.input_length, List.flatMap_def, hencode]

theorem witness_of_mem {input : TxIn} (hmem : input ∈ signed.input) :
    IsScriptPath2of2 input.witness := by
  obtain ⟨plain, -, witness, rfl, hwitness⟩ := exists_of_forall₂ h.input.flip hmem
  exact hwitness

theorem usesSegwitSerialization : signed.usesSegwitSerialization = true := by
  rw [Transaction.usesSegwitSerialization, Bool.or_eq_true]
  cases hinput : signed.input with
  | nil => exact Or.inr rfl
  | cons input rest =>
      have hmem : input ∈ signed.input := hinput ▸ List.mem_cons_self
      have hwitness := h.witness_of_mem hmem
      have hne : input.witness ≠ [] := by
        intro hnil
        rw [IsScriptPath2of2, hnil] at hwitness
        cases hwitness
      refine Or.inl ?_
      rw [List.any_cons, List.isEmpty_eq_false_iff.mpr hne]
      rfl

theorem witnessSize : signed.witnessSize = 268 * signed.input.length := by
  exact sum_const fun input hmem => (h.witness_of_mem hmem).encodeWitness_length

theorem weight_signed :
    signed.weight = 4 * unsigned.encodeBase.length + 2 + 268 * unsigned.input.length := by
  rw [Transaction.weight_eq, h.usesSegwitSerialization, if_pos rfl, h.witnessSize, h.encodeBase_eq,
    h.input_length, Nat.add_assoc]

end Signs

/-! ## The unsigned transaction -/

def IsProgram (bytes : Bytes) : Prop := bytes.length = 20 ∨ bytes.length = 32

theorem scriptPubkeyFromWitnessProgram_length {program : Bytes} (h : IsProgram program) :
    ∃ script, scriptPubkeyFromWitnessProgram program = .ok script ∧
      script.length = program.length + 2 := by
  rcases h with h | h
  · refine ⟨0x00 :: 20 :: program, ?_, rfl⟩
    rw [scriptPubkeyFromWitnessProgram, if_neg (by omega), if_pos h]
  · refine ⟨0x51 :: 32 :: program, ?_, rfl⟩
    rw [scriptPubkeyFromWitnessProgram, if_pos h]

/-- The script of a program is short, so its length takes one byte. -/
theorem txOut_encode_length {output : TxOut} {size : Nat} (hsize : size ≤ 32)
    (h : output.scriptPubkey.length = size + 2) : output.encode.length = 11 + size := by
  rw [TxOut.encode_length, compactSize_length_of_le (by omega), h]
  omega

theorem unsignedWithdrawalTx_succeeds (utxos : List Utxo) {outputs : List OutputUtxo}
    (h : ∀ o ∈ outputs, IsProgram o.bitcoinAddress) :
    ∃ unsigned, unsignedWithdrawalTx utxos outputs = .ok unsigned ∧
      unsigned.input = utxos.map (fun utxo => (InputUTXO.ofMove utxo).txin) ∧
      4 * unsigned.encodeBase.length + 2 + 268 * utxos.length =
        withdrawalWeight utxos.length (outputs.map fun o => o.bitcoinAddress.length) := by
  obtain ⟨txOutputs, htx, hscripts⟩ := mapM_succeeds
    (f := fun output : OutputUtxo => do
      let scriptPubkey ← scriptPubkeyFromWitnessProgram output.bitcoinAddress
      return ({ value := output.amount, scriptPubkey } : TxOut))
    (R := fun output txOutput => txOutput.encode.length = 11 + output.bitcoinAddress.length)
    fun output (hmem : output ∈ outputs) => by
      obtain ⟨script, hscript, hlength⟩ := scriptPubkeyFromWitnessProgram_length (h output hmem)
      refine ⟨⟨output.amount, script⟩, bind_eq_ok.mpr ⟨script, hscript, rfl⟩, ?_⟩
      exact txOut_encode_length (by rcases h output hmem with h | h <;> omega) hlength
  refine ⟨constructTx (utxos.map fun utxo => (InputUTXO.ofMove utxo).txin) txOutputs, ?_, rfl, ?_⟩
  · rw [unsignedWithdrawalTx, htx]
    rfl
  · have hinputs : ((utxos.map fun utxo => (InputUTXO.ofMove utxo).txin).map
        fun input => input.encode.length).sum = 41 * utxos.length := by
      rw [List.map_map]
      exact sum_const fun utxo _ => rfl
    have houtputs : (txOutputs.map fun output => output.encode.length).sum =
        (outputs.map fun o => 11 + o.bitcoinAddress.length).sum := by
      rw [map_eq_of_forall₂ hscripts]
    have hfour : (outputs.map fun o => 4 * (11 + o.bitcoinAddress.length)).sum =
        4 * (outputs.map fun o => 11 + o.bitcoinAddress.length).sum := by
      rw [List.sum_map_mul_left]
    rw [Transaction.encodeBase_length, withdrawalWeight, List.map_map, List.length_map]
    simp only [constructTx, Function.comp_def, List.length_map, hinputs, houtputs, hfour,
      hscripts.length_eq]
    omega

/-- Without a witness the old format is used, unless there is no input. -/
theorem weight_unsigned {tx : Transaction} (h : ∀ input ∈ tx.input, input.witness = []) :
    tx.weight = 4 * tx.encodeBase.length + if tx.input.length = 0 then 2 else 0 := by
  rw [Transaction.weight_eq, Transaction.usesSegwitSerialization, Transaction.witnessSize]
  cases hinput : tx.input with
  | nil => rfl
  | cons input rest =>
      have hany : (input :: rest).any (fun input => !input.witness.isEmpty) = false := by
        rw [← hinput, List.any_eq_false]
        intro input hmem
        rw [h input hmem]
        exact Bool.false_ne_true
      rw [hany]
      rfl

/-! ## The formulas -/

theorem varintWeight_eq (n : Nat) : varintWeight n = UInt64.ofNat (4 * (compactSize n).length) := by
  rw [varintWeight, compactSize]
  split
  · rfl
  · split
    · rfl
    · split <;> rfl

theorem outputWeightForWitnessProgram_eq {program : Bytes} (h : IsProgram program) :
    outputWeightForWitnessProgram program = .ok (UInt64.ofNat (4 * (11 + program.length))) := by
  rw [outputWeightForWitnessProgram]
  rcases h with h | h
  · rw [h]
    rfl
  · rw [h]
    rfl

theorem outputWeightForRecipient_eq {request : WithdrawalRequest} (h : IsProgram request.recipient) :
    outputWeightForRecipient request = UInt64.ofNat (4 * (11 + request.recipient.length)) := by
  rw [outputWeightForRecipient]
  rcases h with h | h
  · rw [h]
    rfl
  · rw [h]
    rfl

theorem estimatedWithdrawalTxWeight_eq (inputCount : Nat) {outputs : List OutputUtxo}
    (h : ∀ o ∈ outputs, IsProgram o.bitcoinAddress) :
    estimatedWithdrawalTxWeight inputCount outputs = .ok (UInt64.ofNat
      (withdrawalWeight inputCount (outputs.map fun o => o.bitcoinAddress.length))) := by
  have hweights := mapM_eq_map (f := fun output : OutputUtxo =>
      outputWeightForWitnessProgram output.bitcoinAddress)
    fun o hmem => outputWeightForWitnessProgram_eq (h o hmem)
  simp only [estimatedWithdrawalTxWeight, hweights, bind_eq_ok, pure_eq_ok]
  refine ⟨_, rfl, ?_⟩
  rw [sum_map_ofNat, varintWeight_eq, varintWeight_eq, withdrawalWeight, List.map_map,
    List.length_map]
  simp only [UInt64.ofNat_add, UInt64.ofNat_mul, Function.comp_def]
  change TX_FIXED_WEIGHT_WU + _ + _ + _ + _ = TX_FIXED_WEIGHT_WU + _ + _ + _ + _
  rw [show SCRIPT_PATH_2OF2_TXIN_WEIGHT = UInt64.ofNat 432 from rfl]
  ac_rfl

/-- A selection of script-path inputs for programs, with change to a 32-byte program where the inputs
exceed the requests. -/
structure IsSelection (b : TransactionBuilder) (change : UInt64) (changeProgram : Bytes) : Prop where
  inputs : ∀ u ∈ b.inputs, u.spendPath = .taprootScriptPath2of2
  recipients : ∀ o ∈ b.outputs, IsProgram o.request.recipient
  rawChange : b.rawChange = some change
  finalChange : b.finalChange = if 0 < change then some change else none
  changeScript : b.params.changeScript = 0x51 :: 32 :: changeProgram
  program_length : changeProgram.length = 32

namespace IsSelection

variable {b : TransactionBuilder} {change : UInt64} {changeProgram : Bytes}
  (h : IsSelection b change changeProgram)

def sizes (b : TransactionBuilder) (change : UInt64) : List Nat :=
  (b.outputs.map fun o => o.request.recipient.length) ++ if 0 < change then [32] else []

include h

theorem weight_eq :
    b.weight = .ok (UInt64.ofNat (withdrawalWeight b.inputs.length (sizes b change))) := by
  have hinputs : b.inputs.mapM (fun u => u.spendPath.inputWeight) =
      .ok (b.inputs.map fun _ => UInt64.ofNat 432) := mapM_eq_map fun u hu => by
    rw [h.inputs u hu]
    rfl
  have hsum : (b.inputs.map fun _ => UInt64.ofNat 432).sum = UInt64.ofNat (432 * b.inputs.length) := by
    rw [sum_map_ofNat fun _ => 432, sum_const fun _ _ => rfl]
  have houtputs : (b.outputs.map fun o => outputWeightForRecipient o.request).sum =
      UInt64.ofNat (b.outputs.map fun o => 4 * (11 + o.request.recipient.length)).sum := by
    rw [List.map_congr_left fun o ho => outputWeightForRecipient_eq (h.recipients o ho),
      sum_map_ofNat]
  have hchange : outputWeightForScript b.params.changeScript = UInt64.ofNat (4 * (11 + 32)) := by
    rw [outputWeightForScript, h.changeScript, List.length_cons, List.length_cons, h.program_length]
    rfl
  simp only [TransactionBuilder.weight, hinputs, bind_eq_ok, pure_eq_ok]
  refine ⟨_, rfl, ?_⟩
  rw [TransactionBuilder.weightFor, hsum, houtputs, hchange, h.rawChange, varintWeight_eq,
    varintWeight_eq, withdrawalWeight, sizes, Option.all_some, List.map_append, List.map_map,
    List.length_append, List.length_map, List.sum_append]
  have hfixed : (32 + 2 : Weight) = UInt64.ofNat 34 := rfl
  by_cases hpos : 0 < change
  · simp only [hpos, decide_true, if_true, hfixed, List.length_singleton, List.map_cons, List.map_nil,
      List.sum_cons, List.sum_nil, Nat.add_zero, UInt64.ofNat_add, Function.comp_def]
    ac_rfl
  · simp only [hpos, decide_false, Bool.false_eq_true, if_false, hfixed, List.length_nil, List.map_nil,
      List.sum_nil, Nat.add_zero, UInt64.add_zero, UInt64.ofNat_add, Function.comp_def]

theorem outputs_succeeds (minerFee : UInt64) :
    ∃ outputs, Leader.outputs b.params.changeScript (b.result minerFee) = .ok outputs ∧
      (∀ o ∈ outputs, IsProgram o.bitcoinAddress) ∧
      outputs.map (fun o => o.bitcoinAddress.length) = sizes b change := by
  have hpaid : ∀ o ∈ (b.result minerFee).withdrawalOutputs.map fun o =>
      (⟨o.amount.toNat, o.recipient⟩ : OutputUtxo), IsProgram o.bitcoinAddress := by
    intro o ho
    rw [TransactionBuilder.result, List.map_map, List.mem_map] at ho
    obtain ⟨pending, hpending, rfl⟩ := ho
    exact h.recipients pending hpending
  have hprogram : witnessProgramFromAddress b.params.changeScript = .ok changeProgram := by
    rw [h.changeScript, witnessProgramFromAddress, if_pos h.program_length]
  by_cases hpos : 0 < change
  · have hchange : (b.result minerFee).change = some change := by
      rw [TransactionBuilder.result, h.finalChange, if_pos hpos]
    refine ⟨((b.result minerFee).withdrawalOutputs.map fun o => ⟨o.amount.toNat, o.recipient⟩) ++
      [⟨change.toNat, changeProgram⟩], ?_, ?_, ?_⟩
    · simp only [Leader.outputs, hchange, hprogram]
      rfl
    · exact List.forall_mem_append.mpr
        ⟨hpaid, List.forall_mem_singleton.mpr (Or.inr h.program_length)⟩
    · rw [sizes, if_pos hpos, List.map_append, List.map_map, TransactionBuilder.result, List.map_map,
        List.map_singleton, h.program_length]
      rfl
  · have hchange : (b.result minerFee).change = none := by
      rw [TransactionBuilder.result, h.finalChange, if_neg hpos]
    refine ⟨(b.result minerFee).withdrawalOutputs.map fun o => ⟨o.amount.toNat, o.recipient⟩, ?_,
      hpaid, ?_⟩
    · simp only [Leader.outputs, hchange]
      rfl
    · rw [sizes, if_neg hpos, List.append_nil, List.map_map, TransactionBuilder.result, List.map_map]
      rfl

end IsSelection

theorem signedWeightOf_eq {unsigned signed : Transaction} (h : Signs unsigned signed)
    (hplain : ∀ input ∈ unsigned.input, input.witness = []) :
    signedWeightOf (UInt64.ofNat unsigned.weight) unsigned.input.length =
      if 268 * unsigned.input.length < U64_SIZE then
        .ok (UInt64.ofNat signed.weight + if unsigned.input.length = 0 then 2 else 0)
      else .error (.panicked "ancestor satisfaction weight overflow") := by
  have hsatisfaction : SpendPath.taprootScriptPath2of2.satisfactionWeight = UInt64.ofNat 268 := rfl
  have hvalue : (UInt64.ofNat 268).toNat = 268 := rfl
  simp only [signedWeightOf, hsatisfaction, hvalue]
  by_cases hfits : 268 * unsigned.input.length < U64_SIZE
  · rw [if_pos hfits, require_pos hfits, weight_unsigned hplain, h.weight_signed]
    refine congrArg Except.ok ?_
    change _ + UInt64.ofNat 2 = _
    by_cases hzero : unsigned.input.length = 0
    · rw [if_pos hzero, if_pos hzero]
      change _ = _ + UInt64.ofNat 2
      simp only [UInt64.ofNat_add, UInt64.ofNat_mul]
    · rw [if_neg hzero, if_neg hzero]
      simp only [UInt64.ofNat_add, UInt64.ofNat_mul, Nat.add_zero, UInt64.add_zero]
      ac_rfl
  · rw [if_neg hfits, require_eq_error.mpr ⟨hfits, rfl⟩]
    rfl

/-- The four weights of one selection: the builder's, the validators' estimate of the commitment, the
one that is charged for an ancestor, and the serialized weight of the signed transaction. -/
theorem withdrawal_weights_agree {b : TransactionBuilder} {change : UInt64} {changeProgram : Bytes}
    (h : IsSelection b change changeProgram) (minerFee : UInt64) (utxos : List Utxo)
    (hutxos : utxos.length = b.inputs.length) :
    ∃ outputs unsigned, Leader.outputs b.params.changeScript (b.result minerFee) = .ok outputs ∧
      unsignedWithdrawalTx utxos outputs = .ok unsigned ∧
      (∃ signed, Signs unsigned signed) ∧
      ∀ signed, Signs unsigned signed →
        b.weight = .ok (UInt64.ofNat signed.weight) ∧
        estimatedWithdrawalTxWeight utxos.length outputs = .ok (UInt64.ofNat signed.weight) ∧
        signedWeightOf (UInt64.ofNat unsigned.weight) utxos.length =
          if 268 * utxos.length < U64_SIZE then
            .ok (UInt64.ofNat signed.weight + if utxos.length = 0 then 2 else 0)
          else .error (.panicked "ancestor satisfaction weight overflow") := by
  obtain ⟨outputs, houtputs, hprograms, hsizes⟩ := h.outputs_succeeds minerFee
  obtain ⟨unsigned, hunsigned, hinput, hweight⟩ := unsignedWithdrawalTx_succeeds utxos hprograms
  have hlength : unsigned.input.length = utxos.length := by rw [hinput, List.length_map]
  have hplain : ∀ input ∈ unsigned.input, input.witness = [] := by
    intro input hmem
    rw [hinput, List.mem_map] at hmem
    obtain ⟨utxo, -, rfl⟩ := hmem
    rfl
  refine ⟨outputs, unsigned, houtputs, hunsigned, ?_, ?_⟩
  · let witness : List Bytes := [64, 64, 70, 65].map fun size => List.replicate size 0
    refine ⟨{ unsigned with input := unsigned.input.map fun plain => { plain with witness } },
      rfl, rfl, rfl, ?_⟩
    rw [List.forall₂_map_right_iff, List.forall₂_same]
    exact fun plain _ => ⟨witness, rfl, by rfl⟩
  · intro signed hsigned
    have hsignedWeight : signed.weight = withdrawalWeight utxos.length (IsSelection.sizes b change) := by
      rw [hsigned.weight_signed, hlength, hweight, hsizes]
    have hcharged := signedWeightOf_eq hsigned hplain
    rw [hlength] at hcharged
    refine ⟨?_, ?_, hcharged⟩
    · rw [h.weight_eq, hsignedWeight, hutxos]
    · rw [estimatedWithdrawalTxWeight_eq utxos.length hprograms, hsizes, hsignedWeight]

def twoInputs : TransactionBuilder :=
  let input : UtxoCandidate := ⟨⟨1, 0⟩, 60000, none, .taprootScriptPath2of2, .confirmed⟩
  { feeRate := 1000
    params := ⟨400000, 400000, 700, 70, 10000, 1000, 1000, 1000, 10, 25,
      0x51 :: 32 :: List.replicate 32 7⟩
    inputs := [input, { input with id := ⟨2, 0⟩ }]
    outputs := [⟨⟨1, List.replicate 20 1, 50000, 0⟩, 49000⟩, ⟨⟨2, List.replicate 32 2, 50000, 0⟩, 49000⟩]
    rawChange := some 20000
    finalChange := some 20000 }

theorem twoInputs_isSelection : IsSelection twoInputs 20000 (List.replicate 32 7) where
  inputs := by decide
  recipients := by
    intro o ho
    simp only [twoInputs, List.mem_cons, List.not_mem_nil, or_false] at ho
    rcases ho with rfl | rfl
    · exact Or.inl rfl
    · exact Or.inr rfl
  rawChange := rfl
  finalChange := rfl
  changeScript := rfl
  program_length := rfl

theorem withdrawal_weights_agree_twoInputs : ∃ outputs unsigned signed,
    Leader.outputs twoInputs.params.changeScript (twoInputs.result 2000) = .ok outputs ∧
      unsignedWithdrawalTx [⟨⟨1, 0⟩, 60000, none⟩, ⟨⟨2, 0⟩, 60000, none⟩] outputs = .ok unsigned ∧
      Signs unsigned signed ∧ twoInputs.weight = .ok (UInt64.ofNat signed.weight) := by
  obtain ⟨outputs, unsigned, houtputs, hunsigned, ⟨signed, hsigned⟩, hall⟩ :=
    withdrawal_weights_agree twoInputs_isSelection 2000
      [⟨⟨1, 0⟩, 60000, none⟩, ⟨⟨2, 0⟩, 60000, none⟩] rfl
  exact ⟨outputs, unsigned, signed, houtputs, hunsigned, hsigned, (hall signed hsigned).1⟩

def noInputs : TransactionBuilder :=
  { twoInputs with inputs := [], outputs := [], rawChange := some 0, finalChange := none }

/-- Without inputs the unsigned transaction already has the segwit marker and flag, and the weight of an
ancestor adds them again. -/
theorem signedWeightOf_noInputs : ∃ unsigned, IsSelection noInputs 0 (List.replicate 32 7) ∧
    Leader.outputs noInputs.params.changeScript (noInputs.result 0) = .ok [] ∧
    unsignedWithdrawalTx [] [] = .ok unsigned ∧ Signs unsigned unsigned ∧
    noInputs.weight = .ok 42 ∧ estimatedWithdrawalTxWeight 0 [] = .ok 42 ∧ unsigned.weight = 42 ∧
    signedWeightOf (UInt64.ofNat unsigned.weight) 0 = .ok 44 := by
  refine ⟨constructTx [] [], ⟨?_, ?_, rfl, rfl, rfl, rfl⟩, rfl, rfl, ⟨rfl, rfl, rfl, .nil⟩, rfl, rfl,
    rfl, rfl⟩
  · intro u hu
    cases hu
  · intro o ho
    cases ho

end HashiBridge.Node
