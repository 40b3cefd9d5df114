import HashiBridge.Chain.Lemmas.Recipients
import HashiBridge.Guardian.Lemmas.UnsignedTx

/-!
# The guardian signs what the committee committed

A withdrawal committed in a reachable world, whose change pays the root address and whose fee is
positive: the guardian accepts it unless one of its amounts is zero, rebuilds the committee's
transaction and charges its limiter what the requests asked for.
-/

namespace HashiBridge.Guardian

open Lib HashiBridge.Core Btc

variable {env : Chain.Env} {w w' : Chain.World} {label : Chain.Label} {tr : List Chain.Label}
  {lib : ScriptLib} {t : WithdrawalTransaction} {requested : List Nat}

/-! ## Committed withdrawals -/

/-- The amounts of the requests that a withdrawal pays, in the queue before it was committed. -/
def requestedAmounts (queue : WithdrawalRequestQueue) (t : WithdrawalTransaction) : List Nat :=
  t.requestIds.map (queue.requests.weight WithdrawalRequest.btcAmount)

theorem payout_program {queue : WithdrawalRequestQueue} (hqueue : Chain.WellAddressed queue)
    {config : Config} {ids : List Address} {infos : List CommittedRequestInfo} {inputs : List Utxo}
    {outputs : List OutputUtxo} {presigs : List Presig}
    (hinfos : queue.extractRequestInfos ids = .ok infos)
    (haccepted : WithdrawalTransaction.Accepted config ids.length infos inputs outputs presigs) :
    ∀ o ∈ outputs.take ids.length,
      (o.bitcoinAddress.length = 20 ∨ o.bitcoinAddress.length = 32) ∧ 0 < o.amount := by
  intro o ho
  obtain ⟨i, hi, rfl⟩ := List.mem_take_iff_getElem.mp ho
  have hcount : i < ids.length := by omega
  obtain ⟨info, output, hinfo, houtput, -, hfloor, hamount, haddress⟩ :=
    (haccepted.outputs_match i hcount).exists_pair
  rw [List.getElem?_eq_getElem (by omega), Option.some.injEq] at houtput
  rw [WithdrawalRequestQueue.extractRequestInfos, mapM_eq_ok] at hinfos
  obtain ⟨id, -, hid⟩ := exists_of_forall₂ hinfos.flip (List.mem_of_getElem? hinfo)
  simp only [WithdrawalRequestQueue.borrowRequest, bind_eq_ok, Bag.borrow_eq_ok,
    pure_eq_ok] at hid
  obtain ⟨r, hr, rfl⟩ := hid
  rw [houtput, haddress, hamount]
  refine ⟨hqueue id r hr, ?_⟩
  have hdust : 0 < BtcConfig.DUST_RELAY_MIN_VALUE := by decide
  omega

theorem wellCommitted_of_step {id₀ epoch clock : Nat} {id : Address}
    (hrun : Run (Chain.Step env) (Chain.publish id₀ epoch clock) tr w)
    (hstep : Chain.Step env w label w') (hlabel : label.commits = some id)
    (ht : w'.ledger.queue.withdrawalTxns.lookup id = some t) :
    WellCommitted t (requestedAmounts w.ledger.queue t) := by
  have hqueue := Chain.wellAddressed_reachable hrun
  unfold Chain.Label.commits at hlabel
  split at hlabel <;> cases hlabel
  simp only [Chain.Step, Chain.exec, Chain.Call.run, Chain.BridgeCall.run,
    Chain.Hashi.commitWithdrawalTx, bind_eq_ok, pure_eq_ok,
    WithdrawalRequestQueue.insertWithdrawalTxn_eq_ok] at hstep
  obtain ⟨_, -, _, ⟨_, ⟨_, -, _, -, _, -, _, -, inputs, -, infos, hinfos, ⟨presigs, _⟩, -, t', hnew,
    locked, hlock, ⟨committed, _⟩, hcommit, _, -, pool, hinsert, _, ⟨-, rfl⟩, rfl⟩, rfl⟩, rfl⟩ := hstep
  obtain ⟨haccepted, htxn⟩ := WithdrawalTransaction.new_eq_ok.mp hnew
  obtain ⟨requests, rfl, -, hopen, -, -⟩ := WithdrawalRequestQueue.commitRequests_eq_ok hcommit
  obtain ⟨-, hnodup, -⟩ := Chain.Hashi.lock_and_insert hlock hinsert
  -- the transaction found is the one that was inserted
  have hid : t'.id = id := by rw [htxn]
  have hsame : t' = t := by
    have hfound : (w.ledger.queue.withdrawalTxns.insert t'.id t').lookup id = some t := ht
    rw [hid, Finmap.lookup_insert, Option.some.injEq] at hfound
    exact hfound
  subst hsame
  obtain ⟨hcount, hamounts⟩ := WithdrawalRequestQueue.extractRequestInfos_amounts hinfos
  have hbalanced := haccepted.balanced hcount
  rw [hamounts] at hbalanced
  have hpayouts := payout_program hqueue hinfos haccepted
  have hne := haccepted.count_ne
  have hinputs := haccepted.inputs_ne
  subst htxn
  refine ⟨?_, ?_, fun o ho => (hpayouts o ho).1, fun o ho => (hpayouts o ho).2, ?_, hnodup,
    haccepted.inputs_fit, ?_, hbalanced⟩
  · rintro rfl
    exact hne rfl
  · exact List.length_take_of_le haccepted.count_le
  · rintro rfl
    exact absurd hinputs (Nat.lt_irrefl 0)
  · rw [allOutputs, List.take_append_drop]
    exact haccepted.outputs_fit

/-! ## Acceptance -/

def NoZeroAmount (t : WithdrawalTransaction) : Prop :=
  (∀ u ∈ t.inputs, 0 < u.amount) ∧ ∀ o ∈ t.changeOutputs, 0 < o.amount

instance (t : WithdrawalTransaction) : Decidable (NoZeroAmount t) :=
  inferInstanceAs (Decidable (_ ∧ _))

def PaysFee (t : WithdrawalTransaction) : Prop :=
  ((allOutputs t).map OutputUtxo.amount).sum < (t.inputs.map Utxo.amount).sum

instance (t : WithdrawalTransaction) : Decidable (PaysFee t) := inferInstanceAs (Decidable (_ < _))

theorem WellCommitted.checked (h : WellCommitted t requested) (hfee : PaysFee t)
    (hzero : NoZeroAmount t) {outputs : List OutputUTXO} (hout : SameOutputs lib t outputs) :
    TxUTXOs.Checked lib.toBitcoinLib (t.inputs.map InputUTXO.ofMove) outputs where
  inputs_ne := by simpa using h.inputs_ne
  outputs_ne := by
    rintro rfl
    have hlength := hout.same.length_eq
    rw [allOutputs, List.length_append, h.payouts_length, List.length_nil] at hlength
    exact h.requests_ne (List.length_eq_zero_iff.mp (by omega))
  addresses := hout.addresses
  input_pos := by
    rw [List.forall_mem_map]
    exact hzero.1
  output_pos := by
    rw [hout.pos_iff, allOutputs, List.forall_mem_append]
    exact ⟨h.payout_pos, hzero.2⟩
  outpoints_nodup := nodup_outpoints h.inputs_nodup
  inputs_lt := by
    rw [map_ofMove_amount]
    exact h.inputs_fit
  outputs_lt := by
    rw [hout.amounts]
    exact h.outputs_fit
  fee_pos := by
    rw [hout.amounts, map_ofMove_amount]
    exact hfee

theorem WellCommitted.rebuilt (h : WellCommitted t requested)
    (hroot : ∀ o ∈ t.changeOutputs, PaysRoot lib o) {utxos : TxUTXOs}
    (hutxos : TxUTXOs.fromWithdrawalTxn lib t = .ok utxos) :
    utxos.inputs = t.inputs.map InputUTXO.ofMove ∧ SameOutputs lib t utxos.outputs := by
  obtain ⟨outputs, hmap, hout⟩ := h.outputs hroot
  simp only [TxUTXOs.fromWithdrawalTxn, hmap, bind_eq_ok, mapError_eq_ok] at hutxos
  obtain ⟨_, ⟨⟩, hnew⟩ := hutxos
  obtain ⟨hinputs, houtputs⟩ := TxUTXOs.new_eq_ok hnew
  exact ⟨hinputs, houtputs ▸ hout⟩

theorem WellCommitted.accepted_iff (h : WellCommitted t requested)
    (hroot : ∀ o ∈ t.changeOutputs, PaysRoot lib o) (hfee : PaysFee t) :
    (∃ utxos, TxUTXOs.fromWithdrawalTxn lib t = .ok utxos) ↔ NoZeroAmount t := by
  constructor
  · rintro ⟨utxos, hutxos⟩
    obtain ⟨hinputs, hout⟩ := h.rebuilt hroot hutxos
    have hin := utxos.input_pos
    have hpos := hout.pos_iff.mp utxos.output_pos
    rw [hinputs, List.forall_mem_map] at hin
    rw [allOutputs, List.forall_mem_append] at hpos
    exact ⟨hin, hpos.2⟩
  · intro hzero
    obtain ⟨outputs, hmap, hout⟩ := h.outputs hroot
    obtain ⟨utxos, hnew⟩ := TxUTXOs.new_of_checked (h.checked hfee hzero hout)
    refine ⟨utxos, ?_⟩
    simp only [TxUTXOs.fromWithdrawalTxn, hmap, bind_eq_ok, mapError_eq_ok]
    exact ⟨outputs, rfl, hnew⟩

/-! ## Agreement -/

/-- The two sides agree on the transaction, its id and messages, and the outflow; no sum wraps and no
difference is cut off at zero. -/
structure Agrees (lib : ScriptLib) (t : WithdrawalTransaction) (requested : List Nat)
    (utxos : TxUTXOs) : Prop where
  tx : unsignedWithdrawalTx t.inputs (allOutputs t) = .ok (utxos.unsignedTx lib)
  messages : utxos.signingMessagesAndTxid lib =
    (withdrawalSigningMessages lib (utxos.unsignedTx lib) t.inputs,
      lib.computeTxid (utxos.unsignedTx lib))
  gross_eq : utxos.grossOutflowAmount = withdrawalLimiterConsumptionAmount t
  gross_requested : utxos.grossOutflowAmount = requested.sum
  inputs_fit : (t.inputs.map Utxo.amount).sum < U64_SIZE
  change_le : (t.changeOutputs.map OutputUtxo.amount).sum ≤ (t.inputs.map Utxo.amount).sum

theorem WellCommitted.agrees (h : WellCommitted t requested)
    (hroot : ∀ o ∈ t.changeOutputs, PaysRoot lib o) {utxos : TxUTXOs}
    (hutxos : TxUTXOs.fromWithdrawalTxn lib t = .ok utxos) : Agrees lib t requested utxos := by
  obtain ⟨hinputs, hout⟩ := h.rebuilt hroot hutxos
  have hle : (t.changeOutputs.map OutputUtxo.amount).sum ≤ (t.inputs.map Utxo.amount).sum := by
    rw [h.balanced]
    exact Nat.le_add_right _ _
  have hgross : utxos.grossOutflowAmount =
      (t.inputs.map Utxo.amount).sum - (t.changeOutputs.map OutputUtxo.amount).sum := by
    rw [TxUTXOs.grossOutflowAmount, hinputs, map_ofMove_amount, hout.internal]
  refine ⟨?_, ?_, ?_, ?_, h.inputs_fit, hle⟩
  · rw [hout.unsigned, TxUTXOs.unsignedTx, TxUTXOs.computeAllOutputs, hinputs]
  · rw [withdrawalSigningMessages_eq, ← hinputs]
    rfl
  · have hwrap := h.inputs_fit
    rw [hgross, withdrawalLimiterConsumptionAmount, Node.limiterOutflow, wrapU64_of_lt hwrap,
      wrapU64_of_lt (Nat.lt_of_le_of_lt hle hwrap)]
  · rw [hgross, h.balanced, Nat.add_sub_cancel_left]

/-- For every withdrawal committed in a reachable world whose change pays the root address and whose
fee is positive: the guardian accepts it exactly when no input and no change output has amount zero,
and then both sides sign the same transaction and charge the same amount. -/
theorem committed_tx_agrees {id₀ epoch clock : Nat} {id : Address}
    (hrun : Run (Chain.Step env) (Chain.publish id₀ epoch clock) tr w)
    (hstep : Chain.Step env w label w') (hlabel : label.commits = some id)
    (ht : w'.ledger.queue.withdrawalTxns.lookup id = some t)
    (hroot : ∀ o ∈ t.changeOutputs, PaysRoot lib o) (hfee : PaysFee t) :
    ((∃ utxos, TxUTXOs.fromWithdrawalTxn lib t = .ok utxos) ↔ NoZeroAmount t) ∧
    ∀ utxos, TxUTXOs.fromWithdrawalTxn lib t = .ok utxos →
      Agrees lib t (requestedAmounts w.ledger.queue t) utxos := by
  have hcommitted := wellCommitted_of_step hrun hstep hlabel ht
  exact ⟨hcommitted.accepted_iff hroot hfee, fun utxos hutxos => hcommitted.agrees hroot hutxos⟩

namespace Sample

def writeScript (script : Bytes) : String := String.ofList (script.map fun b => Char.ofNat b.toNat)

def readScript (address : String) : Bytes := address.toList.map fun c => UInt8.ofNat c.toNat

theorem readScript_writeScript (script : Bytes) : readScript (writeScript script) = script := by
  rw [readScript, writeScript, String.toList_ofList, List.map_map]
  refine List.map_id'' (fun b => ?_) script
  have hvalid : b.toNat.isValidChar := .inl (Nat.lt_trans b.toNat_lt (by decide))
  rw [Function.comp_apply, Char.ofNat, dif_pos hvalid]
  exact UInt8.ofNat_toNat

/-- A library whose addresses spell their scripts, with one key for every path. -/
def scripts : ScriptLib where
  requireNetwork _ := true
  network := "regtest"
  debugAddress address := address
  displayOutPoint _ := ""
  displayAmount _ := ""
  fromScript script := .ok (writeScript script)
  scriptPubkey := readScript
  taprootOutputKey _ := List.replicate 32 7
  taprootAddress _ := writeScript (0x51 :: 32 :: List.replicate 32 7)
  tapLeafHash path := path
  sighashes _ prevouts _ := prevouts.map TxOut.scriptPubkey
  computeTxid _ := 700
  fromScript_ok _ script _ := ⟨_, rfl, rfl, readScript_writeScript script⟩
  taprootOutputKey_length _ := List.length_replicate
  taprootAddress_script _ := readScript_writeScript _

theorem paysRoot (amount : Nat) : PaysRoot scripts ⟨amount, List.replicate 32 7⟩ := by
  rw [PaysRoot, getDepositAddress, scripts.taprootAddress_script]
  rfl

/-- The deposits of the sample deployment and an approved request of 400000. -/
def approved : List Chain.Label :=
  Chain.Sample.launch ++ Chain.Sample.deposits ++ Chain.Sample.withdrawal.take 2

def commit (change : List OutputUtxo) : Chain.Label :=
  Chain.Sample.call 1018 (.bridge (.commitWithdrawalTx [1016] [⟨500, 0⟩]
    (⟨399000, List.replicate 20 0⟩ :: change) 700 (Chain.Sample.cert 0) [1]))

theorem commit_run (change : List OutputUtxo)
    (h : Chain.reaches Chain.Sample.env (Chain.publish 99 0 0) (approved ++ [commit change])
      (fun w => (w.ledger.queue.withdrawalTxns.lookup 1018).any fun t =>
        decide (t.changeOutputs = change ∧ PaysFee t)) = true) :
    ∃ w w' t, Run (Chain.Step Chain.Sample.env) (Chain.publish 99 0 0) approved w ∧
      Chain.Step Chain.Sample.env w (commit change) w' ∧
      w'.ledger.queue.withdrawalTxns.lookup 1018 = some t ∧ t.changeOutputs = change ∧
      PaysFee t := by
  obtain ⟨w', hrun, htest⟩ := Chain.run_of_reaches _ _ _ _ h
  obtain ⟨w, hpre, hstep⟩ := hrun.split
  rw [Option.any_eq_true] at htest
  obtain ⟨t, ht, htest⟩ := htest
  rw [decide_eq_true_eq] at htest
  exact ⟨w, w', t, hpre, hstep.of_single, ht, htest.1, htest.2⟩

end Sample

/-- The sample withdrawal with 600000 of change. -/
theorem committed_tx_agrees_of_change : ∃ w t,
    PaysFee t ∧ t.changeOutputs = [⟨600000, List.replicate 32 7⟩] ∧
    ((∃ utxos, TxUTXOs.fromWithdrawalTxn Sample.scripts t = .ok utxos) ↔ NoZeroAmount t) ∧
    ∀ utxos, TxUTXOs.fromWithdrawalTxn Sample.scripts t = .ok utxos →
      Agrees Sample.scripts t (requestedAmounts w t) utxos := by
  obtain ⟨w, w', t, hrun, hstep, ht, hchange, hfee⟩ :=
    Sample.commit_run [⟨600000, List.replicate 32 7⟩] (by decide +kernel)
  have hroot : ∀ o ∈ t.changeOutputs, PaysRoot Sample.scripts o := by
    rw [hchange, List.forall_mem_singleton]
    exact Sample.paysRoot 600000
  exact ⟨_, t, hfee, hchange, committed_tx_agrees hrun hstep rfl ht hroot hfee⟩

/-- A committed withdrawal with an output of zero satoshis among its change: it pays a fee and its
change pays the root address, but the guardian refuses it. -/
theorem zero_change_refused : ∃ w w' t,
    Run (Chain.Step Chain.Sample.env) (Chain.publish 99 0 0) Sample.approved w ∧
    Chain.Step Chain.Sample.env w
      (Sample.commit [⟨600000, List.replicate 32 7⟩, ⟨0, List.replicate 32 7⟩]) w' ∧
    w'.ledger.queue.withdrawalTxns.lookup 1018 = some t ∧
    (∀ o ∈ t.changeOutputs, PaysRoot Sample.scripts o) ∧ PaysFee t ∧
    ∀ utxos, TxUTXOs.fromWithdrawalTxn Sample.scripts t ≠ .ok utxos := by
  obtain ⟨w, w', t, hrun, hstep, ht, hchange, hfee⟩ :=
    Sample.commit_run [⟨600000, List.replicate 32 7⟩, ⟨0, List.replicate 32 7⟩] (by decide +kernel)
  have hroot : ∀ o ∈ t.changeOutputs, PaysRoot Sample.scripts o := by
    rw [hchange, List.forall_mem_cons, List.forall_mem_singleton]
    exact ⟨Sample.paysRoot 600000, Sample.paysRoot 0⟩
  refine ⟨w, w', t, hrun, hstep, ht, hroot, hfee, fun utxos hutxos => ?_⟩
  have hzero := ((wellCommitted_of_step hrun hstep rfl ht).accepted_iff hroot hfee).mp ⟨utxos, hutxos⟩
  have hpos := hzero.2 ⟨0, List.replicate 32 7⟩ (by rw [hchange]; simp)
  exact absurd hpos (Nat.lt_irrefl 0)

end HashiBridge.Guardian
