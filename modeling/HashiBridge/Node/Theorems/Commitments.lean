import HashiBridge.Chain.Theorems.ConfigGovernance
import HashiBridge.Node.Lemmas.Withdrawals

/-!
# Certified commitments and the contract

A commitment that a validator accepts on a mirror equal to the chain's state, against the checks of
the contract's commit path on that state.
-/

namespace HashiBridge.Node

open Lib HashiBridge.Core Btc

def Mirror.ofHashi (hashi : Chain.Hashi) : Mirror where
  requests := hashi.bitcoin.withdrawalQueue.requests
  withdrawalTxns := hashi.bitcoin.withdrawalQueue.withdrawalTxns
  utxoRecords := hashi.bitcoin.utxoPool.utxoRecords
  config := hashi.config

namespace WithdrawalTxCommitment

/-- The checks of the contract's commit path on requests, inputs and amounts, in its order: the
constructor of the transaction, the locks and the commitment of the requests. -/
def commitChecks (approval : WithdrawalTxCommitment) (hashi : Chain.Hashi) (presigs : List Presig)
    (fresh : Address) (now : Nat) (randomness : Bytes) : Except Abort Unit := do
  let inputs ← approval.selectedUtxos.mapM hashi.bitcoin.utxoPool.getUtxo
  let requestInfos ← hashi.bitcoin.withdrawalQueue.extractRequestInfos approval.requestIds
  let txn ← WithdrawalTransaction.new fresh approval.requestIds requestInfos inputs approval.outputs
    approval.txid presigs hashi.committeeSet.epoch hashi.config now randomness
  let _ ← (txn.inputs.map Utxo.id).foldlM (fun pool id => pool.lock id txn.id) hashi.bitcoin.utxoPool
  let _ ← hashi.bitcoin.withdrawalQueue.commitRequests txn

theorem commitChecks_of_commitWithdrawalTx {approval : WithdrawalTxCommitment} {env : Chain.Env}
    {hashi hashi' : Chain.Hashi} {cert : Core.CommitteeSignature} {now : Nat} {randomness : Bytes}
    {ctx : TxContext}
    (h : hashi.commitWithdrawalTx env approval.requestIds approval.selectedUtxos approval.outputs
      approval.txid cert now randomness ctx = .ok hashi') :
    ∃ presigs, presigs.length = approval.selectedUtxos.length ∧
      approval.commitChecks hashi presigs ctx.fresh now randomness = .ok () := by
  simp only [Chain.Hashi.commitWithdrawalTx, PresigAllocator.allocate, bind_eq_ok, pure_eq_ok] at h
  obtain ⟨_, -, _, -, _, -, _, -, inputs, hinputs, infos, hinfos, _, ⟨_, -, rfl⟩, txn, htxn,
    pool, hpool, committed, hcommitted, -⟩ := h
  refine ⟨(List.range inputs.length).map fun j => ⟨hashi.presigAllocator.numConsumed + j⟩, ?_, ?_⟩
  · rw [List.length_map, List.length_range, (mapM_eq_ok.mp hinputs).length_eq]
  · simp only [commitChecks, bind_eq_ok]
    exact ⟨inputs, hinputs, infos, hinfos, txn, htxn, pool, hpool, committed, hcommitted, rfl⟩

def inputTotal (approval : WithdrawalTxCommitment) (hashi : Chain.Hashi) : Nat :=
  (approval.selectedUtxos.map
    (hashi.bitcoin.utxoPool.utxoRecords.weight fun record => record.utxo.amount)).sum

def outputTotal (approval : WithdrawalTxCommitment) : Nat :=
  WithdrawalTransaction.outputSum approval.outputs

/-- Both totals are `u64` values and the fee splits evenly over the requests. -/
structure SplitsEvenly (approval : WithdrawalTxCommitment) (hashi : Chain.Hashi) : Prop where
  inputs_fit : approval.inputTotal hashi < U64_SIZE
  outputs_fit : approval.outputTotal < U64_SIZE
  fee_even : (approval.inputTotal hashi - approval.outputTotal) % approval.requestIds.length = 0

instance (approval : WithdrawalTxCommitment) (hashi : Chain.Hashi) :
    Decidable (approval.SplitsEvenly hashi) :=
  decidable_of_iff (approval.inputTotal hashi < U64_SIZE ∧ approval.outputTotal < U64_SIZE ∧
    (approval.inputTotal hashi - approval.outputTotal) % approval.requestIds.length = 0)
    ⟨fun ⟨h, h', h''⟩ => ⟨h, h', h''⟩, fun h => ⟨h.inputs_fit, h.outputs_fit, h.fee_even⟩⟩

end WithdrawalTxCommitment

namespace Validator.Certifies

variable {validator : Validator} {approval : WithdrawalTxCommitment} {hashi : Chain.Hashi}
  {requests : List Btc.WithdrawalRequest} {inputs : List Utxo} {presigs : List Presig}

theorem worstCaseNetworkFee_eq {config : Config} (hmin : Chain.HasMinimum config) :
    BtcConfig.worstCaseNetworkFee config = .ok (Mirror.worstCaseNetworkFee config) := by
  obtain ⟨v, hv⟩ := hmin
  have hget : config.get BtcConfig.KEY_BITCOIN_WITHDRAWAL_MINIMUM = .ok (.u64 v) :=
    orAbort_eq_ok.mpr hv
  simp only [BtcConfig.worstCaseNetworkFee, BtcConfig.bitcoinWithdrawalMinimum, BtcConfig.u64At,
    hget, Mirror.worstCaseNetworkFee, Mirror.bitcoinWithdrawalMinimum, hv]
  rfl

variable (h : validator.Certifies approval requests inputs)

include h

theorem length_eq :
    requests.length = approval.requestIds.length := h.payable.length_eq.symm

variable (hmirror : validator.mirror = .ofHashi hashi)

include hmirror

theorem getUtxos :
    approval.selectedUtxos.mapM hashi.bitcoin.utxoPool.getUtxo = .ok inputs := by
  refine mapM_eq_ok.mpr (h.spendable.imp fun id utxo => ?_)
  rintro ⟨record, hrecord, -, rfl⟩
  rw [hmirror] at hrecord
  exact UtxoPool.getUtxo_eq_ok.mpr ⟨record, hrecord, rfl⟩

def infos (requests : List Btc.WithdrawalRequest) : List CommittedRequestInfo :=
  requests.map fun r => ⟨r.btcAmount, r.bitcoinAddress⟩

theorem extractRequestInfos :
    hashi.bitcoin.withdrawalQueue.extractRequestInfos approval.requestIds = .ok (infos requests) := by
  refine mapM_eq_ok.mpr (List.forall₂_map_right_iff.mpr (h.payable.imp fun id request => ?_))
  rintro ⟨hlookup, -, -⟩
  rw [hmirror] at hlookup
  simp only [WithdrawalRequestQueue.borrowRequest, bind_eq_ok, Bag.borrow_eq_ok, pure_eq_ok]
  exact ⟨request, hlookup, rfl⟩

theorem inputTotal_eq :
    approval.inputTotal hashi = WithdrawalTransaction.inputSum inputs := by
  have hspendable := h.spendable
  rw [hmirror] at hspendable
  unfold WithdrawalTxCommitment.inputTotal WithdrawalTransaction.inputSum
  clear h
  generalize approval.selectedUtxos = ids at hspendable
  congr 1
  induction hspendable with
  | nil => rfl
  | cons hhead _ ih =>
      obtain ⟨record, hrecord, -, rfl⟩ := hhead
      rw [List.map_cons, List.map_cons, ih]
      exact congrArg (· :: _) (Bag.weight_of_lookup hrecord)

theorem share_eq (heven : approval.SplitsEvenly hashi) :
    approval.share inputs requests.length =
      WithdrawalTransaction.feeShare inputs approval.outputs approval.requestIds.length := by
  have hinputs := heven.inputs_fit
  have houtputs := heven.outputs_fit
  rw [h.inputTotal_eq hmirror] at hinputs
  unfold WithdrawalTxCommitment.outputTotal at houtputs
  rw [WithdrawalTxCommitment.share, wrapU64_of_lt hinputs, wrapU64_of_lt houtputs, h.length_eq,
    WithdrawalTransaction.feeShare]

theorem accepted (hmin : Chain.HasMinimum hashi.config) (heven : approval.SplitsEvenly hashi)
    (hpresigs : presigs.length = approval.selectedUtxos.length) :
    WithdrawalTransaction.Accepted hashi.config approval.requestIds.length (infos requests) inputs
      approval.outputs presigs := by
  have hshare := h.share_eq hmirror heven
  have hlength := h.length_eq
  have htotal := h.inputTotal_eq hmirror
  have hinputs := heven.inputs_fit
  rw [htotal] at hinputs
  have houtputs := heven.outputs_fit
  unfold WithdrawalTxCommitment.outputTotal at houtputs
  have hcovered := h.covered
  rw [wrapU64_of_lt hinputs, wrapU64_of_lt houtputs] at hcovered
  have hle : WithdrawalTransaction.feeShare inputs approval.outputs approval.requestIds.length ≤
      WithdrawalTransaction.inputSum inputs -
        WithdrawalTransaction.outputSum approval.outputs := Nat.div_le_self _ _
  constructor
  case fee_within =>
    refine ⟨_, worstCaseNetworkFee_eq hmin, ?_⟩
    have := h.share_le
    rwa [hshare, hmirror] at this
  case inputs_fit => exact hinputs
  case outputs_fit => exact houtputs
  case covered => exact hcovered
  case count_le => exact hlength ▸ h.outputs_ge
  case outputs_le =>
    have hchange := h.change_le
    have hcount := h.requests_le
    simp only [MAX_WITHDRAWAL_REQUESTS, WITHDRAWAL_MAX_CHANGE_OUTPUTS, U32_MAX] at *
    omega
  case count_ne => exact fun hzero => h.requests_ne (List.length_eq_zero_iff.mp hzero)
  case fee_even =>
    have := heven.fee_even
    rwa [htotal] at this
  case outputs_match =>
    intro i hi
    obtain ⟨request, hrequest⟩ : ∃ request, requests[i]? = some request :=
      ⟨_, List.getElem?_eq_getElem (hlength ▸ hi)⟩
    obtain ⟨output, houtput, hfloor, hamount, haddress⟩ :=
      (h.pays (request, i) (List.mk_mem_zipIdx_iff_getElem?.mpr hrequest)).exists_output
    simp only [hshare] at hfloor hamount
    have hdust : DUST_RELAY_MIN_VALUE.toNat = BtcConfig.DUST_RELAY_MIN_VALUE := rfl
    have hpos : 0 < BtcConfig.DUST_RELAY_MIN_VALUE := by decide
    -- the output is part of the outputs, so the share and the floor fit beside it
    have hpart : output.amount ≤ WithdrawalTransaction.outputSum approval.outputs :=
      List.single_le_sum (fun _ _ => Nat.zero_le _) _
        (List.mem_map_of_mem (List.mem_of_getElem? houtput))
    refine ⟨⟨request.btcAmount, request.bitcoinAddress⟩, output, ?_, houtput, ?_, ?_, hamount,
      haddress⟩
    · simp [infos, hrequest]
    · omega
    · simp only
      omega
  case inputs_ne =>
    rw [← h.spendable.length_eq]
    exact List.length_pos_iff.mpr h.inputs_ne
  case presigs_length => rw [hpresigs, h.spendable.length_eq]

theorem inputs_ids {circulating : Nat}
    (hinv : (hashi.ledger circulating).Inv) : approval.selectedUtxos = inputs.map Utxo.id := by
  have hsame : List.Forall₂ Eq approval.selectedUtxos (inputs.map Utxo.id) := by
    refine List.forall₂_map_right_iff.mpr (h.spendable.imp fun id utxo => ?_)
    rintro ⟨record, hrecord, -, rfl⟩
    rw [hmirror] at hrecord
    exact (hinv.pool.record_id hrecord).symm
  rwa [List.forall₂_eq_eq_eq] at hsame

theorem escrows_fit {circulating : Nat} (hinv : (hashi.ledger circulating).Inv)
    (haccepted : WithdrawalTransaction.Accepted hashi.config approval.requestIds.length
      (infos requests) inputs approval.outputs presigs) :
    (approval.requestIds.map
      (hashi.bitcoin.withdrawalQueue.requests.weight WithdrawalRequest.btc)).sum < U64_SIZE := by
  have hmap : approval.requestIds.map
      (hashi.bitcoin.withdrawalQueue.requests.weight WithdrawalRequest.btc) =
        (infos requests).map CommittedRequestInfo.btcAmount := by
    have hsame : List.Forall₂ (fun id (r : Btc.WithdrawalRequest) =>
        hashi.bitcoin.withdrawalQueue.requests.weight WithdrawalRequest.btc id = r.btcAmount)
        approval.requestIds requests := by
      refine h.payable.imp fun id request => ?_
      rintro ⟨hlookup, hopen, -⟩
      rw [hmirror] at hlookup
      exact (Bag.weight_of_lookup hlookup).trans (hinv.queue.escrow_open hlookup hopen)
    have heq := List.forall₂_map_left_iff.mpr (List.forall₂_map_right_iff.mpr hsame)
    rw [List.forall₂_eq_eq_eq] at heq
    rw [heq, infos, List.map_map]
    rfl
  have hbalanced := haccepted.balanced (by rw [infos, List.length_map, h.length_eq])
  have hinputs := haccepted.inputs_fit
  rw [hmap]
  omega

theorem commitChecks_ok (hmin : Chain.HasMinimum hashi.config)
    {circulating : Nat} (hinv : (hashi.ledger circulating).Inv)
    (heven : approval.SplitsEvenly hashi)
    (hpresigs : presigs.length = approval.selectedUtxos.length) (fresh : Address) (now : Nat)
    (randomness : Bytes) :
    approval.commitChecks hashi presigs fresh now randomness = .ok () := by
  have haccepted := h.accepted hmirror hmin heven hpresigs
  have hids := h.inputs_ids hmirror hinv
  simp only [WithdrawalTxCommitment.commitChecks, bind_eq_ok]
  refine ⟨inputs, h.getUtxos hmirror, infos requests, h.extractRequestInfos hmirror, _,
    WithdrawalTransaction.new_eq_ok.mpr ⟨haccepted, rfl⟩, ?_⟩
  obtain ⟨pool, hpool⟩ := UtxoPool.lock_loop_succeeds (p := hashi.bitcoin.utxoPool) (w := fresh)
    h.inputs_nodup fun id hid => by
      obtain ⟨utxo, -, record, hrecord, hfree, -⟩ := exists_of_forall₂ h.spendable hid
      rw [hmirror] at hrecord
      exact ⟨record, hrecord, hfree⟩
  rw [hids] at hpool
  obtain ⟨committed, hcommitted⟩ := WithdrawalRequestQueue.commitRequests_succeeds
    (q := hashi.bitcoin.withdrawalQueue)
    (t := { id := fresh, txid := approval.txid, requestIds := approval.requestIds, inputs
            withdrawalOutputs := approval.outputs.take approval.requestIds.length
            changeOutputs := approval.outputs.drop approval.requestIds.length
            createdTimestampMs := now, signedTimestampMs := none, confirmedTimestampMs := none
            randomness, signing := ⟨presigs.map .pending, hashi.committeeSet.epoch⟩
            guardianSignatures := none })
    h.requests_nodup
    (fun id hid => by
      obtain ⟨request, -, hlookup, hopen, happroved⟩ := exists_of_forall₂ h.payable hid
      rw [hmirror] at hlookup
      exact ⟨request, hlookup, hopen, happroved⟩)
    (h.escrows_fit hmirror hinv haccepted)
  exact ⟨pool, hpool, committed, hcommitted, rfl⟩

end Validator.Certifies

/-! ## The theorem -/

/-- On what a validator accepts, the contract's checks pass exactly when both totals are `u64`
values and the fee is a multiple of the number of requests; otherwise no commit call succeeds. -/
theorem certified_commitment_passes_iff {env : Chain.Env} {id epoch clock : Nat}
    {tr : List Chain.Label} {w : Chain.World}
    (hrun : Run (Chain.Step env) (Chain.publish id epoch clock) tr w) {validator : Validator}
    (hmirror : validator.mirror = .ofHashi w.hashi) {approval : WithdrawalTxCommitment}
    {prepared : PreparedCommitment}
    (hprepare : validator.prepareWithdrawalTxCommitment approval = .ok prepared) :
    (∀ presigs fresh now randomness, presigs.length = approval.selectedUtxos.length →
      (approval.commitChecks w.hashi presigs fresh now randomness = .ok () ↔
        approval.SplitsEvenly w.hashi)) ∧
    ((∃ cert now randomness ctx hashi', w.hashi.commitWithdrawalTx env approval.requestIds
      approval.selectedUtxos approval.outputs approval.txid cert now randomness ctx = .ok hashi') →
        approval.SplitsEvenly w.hashi) := by
  obtain ⟨requests, hcertifies⟩ := Validator.prepareWithdrawalTxCommitment_eq_ok hprepare
  have hinv := (Chain.World.Inv.reachable hrun).sound.inv
  have hmin := Chain.hasMinimum_of_run hrun
  have hneeds : ∀ {presigs fresh now randomness},
      approval.commitChecks w.hashi presigs fresh now randomness = .ok () →
        approval.SplitsEvenly w.hashi := by
    intro presigs fresh now randomness hchecks
    simp only [WithdrawalTxCommitment.commitChecks, bind_eq_ok] at hchecks
    obtain ⟨inputs, hinputs, infos, -, txn, htxn, -⟩ := hchecks
    rw [hcertifies.getUtxos hmirror] at hinputs
    cases hinputs
    obtain ⟨haccepted, -⟩ := WithdrawalTransaction.new_eq_ok.mp htxn
    have htotal := hcertifies.inputTotal_eq hmirror
    exact ⟨htotal ▸ haccepted.inputs_fit, haccepted.outputs_fit, htotal ▸ haccepted.fee_even⟩
  refine ⟨fun presigs fresh now randomness hpresigs => ⟨hneeds, fun heven => ?_⟩, ?_⟩
  · exact hcertifies.commitChecks_ok hmirror hmin hinv heven hpresigs fresh now randomness
  · rintro ⟨cert, now, randomness, ctx, hashi', hcommit⟩
    obtain ⟨presigs, -, hchecks⟩ :=
      WithdrawalTxCommitment.commitChecks_of_commitWithdrawalTx hcommit
    exact hneeds hchecks

/-! ## Samples -/

namespace Sample

/-- Two approved requests of 400000 and 300000 beside the sample deposits. -/
def twoRequests : List Chain.Label := Chain.Sample.launch ++ Chain.Sample.deposits ++ [
  Chain.Sample.call 1016 (.bridge (.requestWithdrawal 400000 (List.replicate 20 0))),
  Chain.Sample.call 1017 (.bridge (.approveRequest 1016 (Chain.Sample.cert 0))),
  Chain.Sample.call 1018 (.bridge (.requestWithdrawal 300000 (List.replicate 20 0))),
  Chain.Sample.call 1019 (.bridge (.approveRequest 1018 (Chain.Sample.cert 0)))]

def validator (hashi : Chain.Hashi) : Validator :=
  ⟨.ofHashi hashi, .ok (List.replicate 32 1), some 100000000, 250⟩

/-- Both requests paid at a share of 1000 from the deposit of 1000000. -/
def twoPaid (change : Nat) : WithdrawalTxCommitment where
  requestIds := [1016, 1018]
  selectedUtxos := [⟨500, 0⟩]
  outputs := [⟨399000, List.replicate 20 0⟩, ⟨299000, List.replicate 20 0⟩,
    ⟨change, List.replicate 32 1⟩]
  txid := 700

end Sample

open Sample in
theorem certified_commitment_passes_iff_of_even : ∃ w prepared,
    Run (Chain.Step Chain.Sample.env) (Chain.publish 99 0 0) twoRequests w ∧
      (validator w.hashi).prepareWithdrawalTxCommitment (twoPaid 300000) = .ok prepared ∧
      (twoPaid 300000).commitChecks w.hashi [⟨0⟩] 1020 0 [] = .ok () := by
  obtain ⟨w, hrun, htest⟩ := Chain.run_of_reaches Chain.Sample.env (Chain.publish 99 0 0) twoRequests
    (fun w => ((validator w.hashi).prepareWithdrawalTxCommitment (twoPaid 300000)).isOk &&
      decide ((twoPaid 300000).SplitsEvenly w.hashi)) (by decide +kernel)
  simp only [Bool.and_eq_true, decide_eq_true_eq] at htest
  obtain ⟨prepared, hprepared⟩ := exists_of_isOk htest.1
  exact ⟨w, prepared, hrun, hprepared,
    ((certified_commitment_passes_iff hrun rfl hprepared).1 [⟨0⟩] 1020 0 [] rfl).mpr htest.2⟩

open Sample in
/-- One satoshi less of change makes the fee odd: the validator accepts, and the contract refuses
the split. -/
theorem certified_commitment_refused : ∃ w prepared,
    Run (Chain.Step Chain.Sample.env) (Chain.publish 99 0 0) twoRequests w ∧
      (validator w.hashi).prepareWithdrawalTxCommitment (twoPaid 299999) = .ok prepared ∧
      (twoPaid 299999).commitChecks w.hashi [⟨0⟩] 1020 0 [] = .error .minerFeeNotEvenlySplit := by
  obtain ⟨w, hrun, htest⟩ := Chain.run_of_reaches Chain.Sample.env (Chain.publish 99 0 0) twoRequests
    (fun w => ((validator w.hashi).prepareWithdrawalTxCommitment (twoPaid 299999)).isOk &&
      decide ((twoPaid 299999).commitChecks w.hashi [⟨0⟩] 1020 0 [] =
        .error .minerFeeNotEvenlySplit)) (by decide +kernel)
  simp only [Bool.and_eq_true, decide_eq_true_eq] at htest
  obtain ⟨prepared, hprepared⟩ := exists_of_isOk htest.1
  exact ⟨w, prepared, hrun, hprepared, htest.2⟩

end HashiBridge.Node
