import HashiBridge.Guardian.UnsignedTx

/-!
# One transaction from two sides

`WellCommitted` is what the chain checks about a committed withdrawal.
-/

namespace HashiBridge.Guardian

open Lib HashiBridge.Core Btc

variable {lib : ScriptLib} {t : WithdrawalTransaction} {requested : List Nat}

/-! ## The constructor -/

theorem firstDuplicate_of_nodup {seen ps : List OutPoint} (hnodup : ps.Nodup)
    (hnew : ∀ p ∈ ps, p ∉ seen) : firstDuplicate seen ps = none := by
  induction ps generalizing seen with
  | nil => rfl
  | cons p ps ih =>
      obtain ⟨hp, hps⟩ := List.nodup_cons.mp hnodup
      rw [firstDuplicate, if_neg (hnew p List.mem_cons_self)]
      refine ih hps fun q hq hseen => ?_
      rcases List.mem_cons.mp hseen with rfl | hseen
      exacts [hp hq, hnew q (List.mem_cons_of_mem _ hq) hseen]

structure TxUTXOs.Checked (bitcoin : BitcoinLib) (inputs : List InputUTXO)
    (outputs : List OutputUTXO) : Prop where
  inputs_ne : inputs ≠ []
  outputs_ne : outputs ≠ []
  addresses : ∀ address ∈ outputs.filterMap OutputUTXO.address, bitcoin.requireNetwork address = true
  input_pos : ∀ utxo ∈ inputs, 0 < utxo.amount
  output_pos : ∀ utxo ∈ outputs, 0 < utxo.amount
  outpoints_nodup : (inputs.map InputUTXO.outpoint).Nodup
  inputs_lt : (inputs.map InputUTXO.amount).sum < U64_SIZE
  outputs_lt : (outputs.map OutputUTXO.amount).sum < U64_SIZE
  fee_pos : (outputs.map OutputUTXO.amount).sum < (inputs.map InputUTXO.amount).sum

theorem TxUTXOs.new_of_checked {bitcoin : BitcoinLib} {inputs : List InputUTXO}
    {outputs : List OutputUTXO} (h : Checked bitcoin inputs outputs) :
    ∃ utxos, new bitcoin inputs outputs = .ok utxos := by
  have haddresses : (outputs.filterMap OutputUTXO.address).find? (!bitcoin.requireNetwork ·) =
      none := by
    rw [List.find?_eq_none]
    intro address haddress
    simp [h.addresses address haddress]
  have hin : ¬ ∃ utxo ∈ inputs, utxo.amount = 0 := by
    rintro ⟨utxo, hmem, hzero⟩
    exact absurd (h.input_pos utxo hmem) (by omega)
  have hout : ¬ ∃ utxo ∈ outputs, utxo.amount = 0 := by
    rintro ⟨utxo, hmem, hzero⟩
    exact absurd (h.output_pos utxo hmem) (by omega)
  have hdup : firstDuplicate [] (inputs.map InputUTXO.outpoint) = none :=
    firstDuplicate_of_nodup h.outpoints_nodup fun _ _ => List.not_mem_nil
  unfold new
  rw [dif_neg h.inputs_ne, dif_neg h.outputs_ne, haddresses]
  dsimp only
  rw [dif_neg hin, dif_neg hout]
  split
  · next outpoint hfound =>
      rw [hdup] at hfound
      cases hfound
  · rw [dif_pos h.inputs_lt, if_pos h.outputs_lt, dif_pos h.fee_pos]
    exact ⟨_, rfl⟩

theorem TxUTXOs.new_eq_ok {bitcoin : BitcoinLib} {inputs : List InputUTXO}
    {outputs : List OutputUTXO} {utxos : TxUTXOs} (h : new bitcoin inputs outputs = .ok utxos) :
    utxos.inputs = inputs ∧ utxos.outputs = outputs := by
  unfold new at h
  dsimp only at h
  repeat' split at h
  all_goals cases h
  exact ⟨rfl, rfl⟩

/-! ## Outputs -/

/-- The guardian's output pays the script and amount of the on-chain output. -/
structure SameOutput (lib : ScriptLib) (output : OutputUtxo) (rebuilt : OutputUTXO) : Prop where
  amount_eq : rebuilt.amount = output.amount
  script_eq : scriptPubkeyFromWitnessProgram output.bitcoinAddress =
    .ok (rebuilt.toTxout lib).scriptPubkey
  checked : ∀ address ∈ rebuilt.address, lib.requireNetwork address = true

theorem OutputUTXO.toTxout_value (lib : ScriptLib) (output : OutputUTXO) :
    (output.toTxout lib).value = output.amount := by
  cases output <;> rfl

theorem scriptPubkey_of_length {program : Bytes} (h : program.length = 20 ∨ program.length = 32) :
    ∃ script, scriptPubkeyFromWitnessProgram program = .ok script := by
  unfold scriptPubkeyFromWitnessProgram
  rcases h with h | h
  · rw [if_neg (by omega), if_pos h]
    exact ⟨_, rfl⟩
  · rw [if_pos h]
    exact ⟨_, rfl⟩

theorem outputFromMove_payout {output : OutputUtxo} {i numRequests : Nat} (hi : i < numRequests)
    (hlength : output.bitcoinAddress.length = 20 ∨ output.bitcoinAddress.length = 32) :
    ∃ rebuilt, TxUTXOs.outputFromMove lib numRequests (output, i) = .ok rebuilt ∧
      SameOutput lib output rebuilt ∧ rebuilt.internalAmount = none := by
  obtain ⟨script, hscript⟩ := scriptPubkey_of_length hlength
  obtain ⟨address, haddress, hnetwork, hback⟩ := lib.fromScript_ok _ script hscript
  refine ⟨.external address output.amount, ?_, ⟨rfl, ?_, ?_⟩, rfl⟩
  · simp only [TxUTXOs.outputFromMove, if_pos hi, hscript, bind_eq_ok, mapError_eq_ok, pure_eq_ok]
    exact ⟨script, rfl, address, haddress, rfl⟩
  · rw [hscript, OutputUTXO.toTxout, hback]
  · rintro _ ⟨⟩
    exact hnetwork

theorem outputFromMove_change {output : OutputUtxo} {i numRequests : Nat} (hi : ¬ i < numRequests)
    (hroot : PaysRoot lib output) :
    ∃ rebuilt, TxUTXOs.outputFromMove lib numRequests (output, i) = .ok rebuilt ∧
      SameOutput lib output rebuilt ∧ rebuilt.internalAmount = some output.amount := by
  refine ⟨.internal ZERO_PATH output.amount, ?_, ⟨rfl, ?_, ?_⟩, rfl⟩
  · simp only [TxUTXOs.outputFromMove, if_neg hi]
    rfl
  · rw [hroot, getDepositAddress, lib.taprootAddress_script]
    rfl
  · rintro _ ⟨⟩

/-! ## Whole transactions -/

structure WellCommitted (t : WithdrawalTransaction) (requested : List Nat) : Prop where
  requests_ne : t.requestIds ≠ []
  payouts_length : t.withdrawalOutputs.length = t.requestIds.length
  payout_program : ∀ o ∈ t.withdrawalOutputs,
    o.bitcoinAddress.length = 20 ∨ o.bitcoinAddress.length = 32
  payout_pos : ∀ o ∈ t.withdrawalOutputs, 0 < o.amount
  inputs_ne : t.inputs ≠ []
  inputs_nodup : (t.inputs.map Utxo.id).Nodup
  inputs_fit : (t.inputs.map Utxo.amount).sum < U64_SIZE
  outputs_fit : ((allOutputs t).map OutputUtxo.amount).sum < U64_SIZE
  balanced : (t.inputs.map Utxo.amount).sum =
    (t.changeOutputs.map OutputUtxo.amount).sum + requested.sum

structure SameOutputs (lib : ScriptLib) (t : WithdrawalTransaction) (outputs : List OutputUTXO) :
    Prop where
  same : List.Forall₂ (SameOutput lib) (allOutputs t) outputs
  internal : outputs.filterMap OutputUTXO.internalAmount = t.changeOutputs.map OutputUtxo.amount

theorem filterMap_after {α β : Type} (f : α → β) (xs ys : List α) :
    (xs ++ ys).zipIdx.filterMap (fun e => if e.2 < xs.length then none else some (f e.1)) =
      ys.map f := by
  have hpayouts : xs.zipIdx.filterMap
      (fun e => if e.2 < xs.length then none else some (f e.1)) = [] := by
    rw [List.filterMap_eq_nil_iff]
    rintro ⟨x, i⟩ hentry
    rw [List.mem_zipIdx_iff_getElem?] at hentry
    exact if_pos (List.getElem?_eq_some_iff.mp hentry).1
  have hchange : ∀ (ys : List α) (k : Nat), xs.length ≤ k → (ys.zipIdx k).filterMap
      (fun e => if e.2 < xs.length then none else some (f e.1)) = ys.map f := by
    intro ys
    induction ys with
    | nil => intro k _; rfl
    | cons y ys ih =>
        intro k hk
        rw [List.zipIdx_cons, List.filterMap_cons, if_neg (Nat.not_lt.mpr hk), List.map_cons]
        dsimp only
        rw [ih (k + 1) (by omega)]
  rw [List.zipIdx_append, List.filterMap_append, hpayouts, List.nil_append,
    hchange ys _ (by omega)]

theorem WellCommitted.outputs (h : WellCommitted t requested)
    (hroot : ∀ o ∈ t.changeOutputs, PaysRoot lib o) :
    ∃ outputs, (allOutputs t).zipIdx.mapM (TxUTXOs.outputFromMove lib t.requestIds.length) =
      .ok outputs ∧ SameOutputs lib t outputs := by
  have hentry : ∀ entry ∈ (allOutputs t).zipIdx, ∃ rebuilt,
      TxUTXOs.outputFromMove lib t.requestIds.length entry = .ok rebuilt ∧
      SameOutput lib entry.1 rebuilt ∧ rebuilt.internalAmount =
        if entry.2 < t.withdrawalOutputs.length then none else some entry.1.amount := by
    rintro ⟨output, i⟩ hmem
    rw [List.mem_zipIdx_iff_getElem?, allOutputs] at hmem
    rw [← h.payouts_length]
    split_ifs with hi
    · rw [List.getElem?_append_left hi] at hmem
      exact outputFromMove_payout hi (h.payout_program output (List.mem_of_getElem? hmem))
    · rw [List.getElem?_append_right (by omega)] at hmem
      exact outputFromMove_change hi (hroot output (List.mem_of_getElem? hmem))
  obtain ⟨outputs, houtputs, hall⟩ := mapM_succeeds hentry
  refine ⟨outputs, houtputs, ⟨?_, ?_⟩⟩
  · have hsame := hall.imp fun _ _ h => h.1
    rw [← List.forall₂_map_left_iff (f := Prod.fst), List.zipIdx_map_fst] at hsame
    exact hsame
  · rw [filterMap_eq_of_forall₂ (hall.imp fun _ _ h => h.2)]
    exact filterMap_after OutputUtxo.amount _ _

section Amounts

variable {outputs : List OutputUTXO}

theorem SameOutputs.amounts (h : SameOutputs lib t outputs) :
    outputs.map OutputUTXO.amount = (allOutputs t).map OutputUtxo.amount :=
  map_eq_of_forall₂ (h.same.imp fun _ _ h => h.amount_eq)

theorem SameOutputs.pos_iff (h : SameOutputs lib t outputs) :
    (∀ o ∈ outputs, 0 < o.amount) ↔ ∀ o ∈ allOutputs t, 0 < o.amount := by
  rw [← List.forall_mem_map (f := OutputUTXO.amount) (P := (0 < ·)), h.amounts, List.forall_mem_map]

theorem SameOutputs.addresses (h : SameOutputs lib t outputs) :
    ∀ address ∈ outputs.filterMap OutputUTXO.address, lib.requireNetwork address = true := by
  intro address haddress
  obtain ⟨rebuilt, hrebuilt, hsome⟩ := List.mem_filterMap.mp haddress
  obtain ⟨output, -, hsame⟩ := exists_of_forall₂ h.same.flip hrebuilt
  exact hsame.checked address hsome

theorem SameOutputs.unsigned (h : SameOutputs lib t outputs) :
    unsignedWithdrawalTx t.inputs (allOutputs t) = .ok (constructTx
      ((t.inputs.map InputUTXO.ofMove).map InputUTXO.txin) (outputs.map (OutputUTXO.toTxout lib))) := by
  have houtputs : (allOutputs t).mapM (fun output => do
      let scriptPubkey ← scriptPubkeyFromWitnessProgram output.bitcoinAddress
      return ({ value := output.amount, scriptPubkey } : TxOut)) =
        .ok (outputs.map (OutputUTXO.toTxout lib)) := by
    rw [mapM_eq_ok, List.forall₂_map_right_iff]
    refine h.same.imp fun output rebuilt hsame => ?_
    rw [hsame.script_eq, ← hsame.amount_eq, ← OutputUTXO.toTxout_value lib]
    rfl
  rw [unsignedWithdrawalTx, houtputs, List.map_map]
  rfl

end Amounts

theorem map_ofMove_amount (inputs : List Utxo) :
    (inputs.map InputUTXO.ofMove).map InputUTXO.amount = inputs.map Utxo.amount := by
  rw [List.map_map]
  rfl

theorem nodup_outpoints {inputs : List Utxo} (h : (inputs.map Utxo.id).Nodup) :
    ((inputs.map InputUTXO.ofMove).map InputUTXO.outpoint).Nodup := by
  have hid : Function.Injective fun id : UtxoId => (⟨id.txid, id.vout⟩ : OutPoint) := by
    rintro ⟨txid, vout⟩ ⟨txid', vout'⟩ heq
    cases heq
    rfl
  rw [List.map_map, show InputUTXO.outpoint ∘ InputUTXO.ofMove =
    (fun id : UtxoId => (⟨id.txid, id.vout⟩ : OutPoint)) ∘ Utxo.id from rfl, ← List.map_map]
  exact h.map hid

theorem withdrawalSigningMessages_eq (lib : ScriptLib) (tx : Transaction) (inputs : List Utxo) :
    withdrawalSigningMessages lib tx inputs = lib.sighashes tx
      (((inputs.map InputUTXO.ofMove).map (InputUTXO.prevoutAndLeafHash lib)).map Prod.fst)
      (((inputs.map InputUTXO.ofMove).map (InputUTXO.prevoutAndLeafHash lib)).map Prod.snd) := by
  unfold withdrawalSigningMessages
  simp only [List.map_map]
  congr 1
  refine List.map_congr_left fun input _ => ?_
  simp only [Function.comp_apply, InputUTXO.prevoutAndLeafHash, InputUTXO.ofMove,
    ScriptLib.taprootScriptPubkey, getDepositAddress, lib.taprootAddress_script]

end HashiBridge.Guardian
