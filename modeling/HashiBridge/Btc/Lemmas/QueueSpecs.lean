import HashiBridge.Lib.Loop
import HashiBridge.Btc.WithdrawalQueue

/-!
# What the withdrawal queue's functions do

One lemma per function. `WithdrawalTransaction.new_eq_ok` lists every check of the constructor;
`new_balanced` draws from them that the inputs pay exactly for the requests and the change.
-/

namespace HashiBridge.Btc

open Lib HashiBridge.Core

/-! ## The constructor of a transaction -/

variable {infos : List CommittedRequestInfo} {t : WithdrawalTransaction} {presigs : List Presig}
  {now : Nat}

namespace WithdrawalTransaction

structure OutputMatches (infos : List CommittedRequestInfo) (outputs : List OutputUtxo)
    (share i : Nat) : Prop where
  exists_pair : ∃ info output, infos[i]? = some info ∧ outputs[i]? = some output ∧
    share + BtcConfig.DUST_RELAY_MIN_VALUE < U64_SIZE ∧
    share + BtcConfig.DUST_RELAY_MIN_VALUE ≤ info.btcAmount ∧
    output.amount = info.btcAmount - share ∧ output.bitcoinAddress = info.bitcoinAddress

variable {outputs : List OutputUtxo}

theorem checkOutput_eq_ok
    {share i : Nat} {u : Unit} :
    checkOutput infos outputs share i = .ok u ↔ OutputMatches infos outputs share i := by
  simp only [checkOutput, bind_eq_ok, orAbort_eq_ok, addU64_eq_ok, require_eq_ok]
  constructor
  · rintro ⟨info, hinfo, output, houtput, _, ⟨hfit, rfl⟩, _, hfloor, _, hamount, haddress⟩
    exact ⟨info, output, hinfo, houtput, hfit, hfloor, hamount, haddress⟩
  · rintro ⟨info, output, hinfo, houtput, hfit, hfloor, hamount, haddress⟩
    exact ⟨info, hinfo, output, houtput, _, ⟨hfit, rfl⟩, (), hfloor, (), hamount, haddress⟩

def inputSum (inputs : List Utxo) : Nat := (inputs.map Utxo.amount).sum

def outputSum (outputs : List OutputUtxo) : Nat := (outputs.map OutputUtxo.amount).sum

def feeShare (inputs : List Utxo) (outputs : List OutputUtxo) (count : Nat) : Nat :=
  (inputSum inputs - outputSum outputs) / count

structure Accepted (config : Config) (count : Nat) (infos : List CommittedRequestInfo)
    (inputs : List Utxo) (outputs : List OutputUtxo) (presigs : List Presig) : Prop where
  fee_within : ∃ maxNetworkFee, BtcConfig.worstCaseNetworkFee config = .ok maxNetworkFee ∧
    feeShare inputs outputs count ≤ maxNetworkFee
  inputs_fit : inputSum inputs < U64_SIZE
  outputs_fit : outputSum outputs < U64_SIZE
  covered : outputSum outputs ≤ inputSum inputs
  count_le : count ≤ outputs.length
  outputs_le : outputs.length ≤ U32_MAX
  count_ne : count ≠ 0
  fee_even : (inputSum inputs - outputSum outputs) % count = 0
  outputs_match : ∀ i < count, OutputMatches infos outputs (feeShare inputs outputs count) i
  inputs_ne : 0 < inputs.length
  presigs_length : presigs.length = inputs.length

theorem new_eq_ok {fresh : Address} {requestIds : List Address}
    {inputs : List Utxo} {txid : Address}
    {epoch : Nat} {config : Config} {randomness : Bytes} :
    new fresh requestIds infos inputs outputs txid presigs epoch config now randomness = .ok t ↔
      Accepted config requestIds.length infos inputs outputs presigs ∧
      t = { id := fresh, txid, requestIds, inputs
            withdrawalOutputs := outputs.take requestIds.length
            changeOutputs := outputs.drop requestIds.length
            createdTimestampMs := now, signedTimestampMs := none, confirmedTimestampMs := none
            randomness, signing := ⟨presigs.map .pending, epoch⟩, guardianSignatures := none } := by
  simp only [new, SigningBatch.new, bind_eq_ok, sumU64_eq_ok, require_eq_ok, pure_eq_ok, forM_eq_ok,
    checkOutput_eq_ok, List.mem_range]
  constructor
  · rintro ⟨maxFee, hmaxFee, _, ⟨hin, rfl⟩, _, ⟨hout, rfl⟩, _, hcovered, _, hcount, _, houtputs, _,
      hne, _, heven, _, hfee, _, hmatch, _, ⟨_, hinputs, _, hpresigs, rfl⟩, rfl⟩
    exact ⟨⟨⟨maxFee, hmaxFee, hfee⟩, hin, hout, hcovered, hcount, houtputs, hne, heven, hmatch,
      hinputs, hpresigs⟩, rfl⟩
  · rintro ⟨⟨⟨maxFee, hmaxFee, hfee⟩, hin, hout, hcovered, hcount, houtputs, hne, heven, hmatch,
      hinputs, hpresigs⟩, rfl⟩
    exact ⟨maxFee, hmaxFee, _, ⟨hin, rfl⟩, _, ⟨hout, rfl⟩, (), hcovered, (), hcount, (), houtputs,
      (), hne, (), heven, (), hfee, (), hmatch, _, ⟨(), hinputs, (), hpresigs, rfl⟩, rfl⟩

theorem Accepted.amounts {config : Config} {count : Nat}
    {inputs : List Utxo}
    (h : Accepted config count infos inputs outputs presigs) (hcount : infos.length = count) :
    outputSum (outputs.take count) + count * feeShare inputs outputs count =
      (infos.map CommittedRequestInfo.btcAmount).sum := by
  have hmap : (outputs.take count).map (fun o => o.amount + feeShare inputs outputs count) =
      infos.map CommittedRequestInfo.btcAmount := by
    refine List.ext_getElem? fun i => ?_
    by_cases hi : i < count
    · obtain ⟨info, output, hinfo, houtput, -, hfloor, hamount, -⟩ := (h.outputs_match i hi).exists_pair
      rw [List.getElem?_map, List.getElem?_map, List.getElem?_take_of_lt hi, houtput, hinfo,
        Option.map_some, Option.map_some, hamount, Nat.sub_add_cancel (by omega)]
    · rw [List.getElem?_eq_none (by simp; omega), List.getElem?_eq_none (by simp; omega)]
  have hlength : (outputs.take count).length = count := by
    rw [List.length_take, Nat.min_eq_left h.count_le]
  rw [← hmap, List.sum_map_add, List.map_const', List.sum_replicate_nat, hlength]
  rfl

theorem Accepted.balanced {config : Config} {count : Nat}
    {inputs : List Utxo}
    (h : Accepted config count infos inputs outputs presigs) (hcount : infos.length = count) :
    inputSum inputs =
      outputSum (outputs.drop count) + (infos.map CommittedRequestInfo.btcAmount).sum := by
  have hamounts := h.amounts hcount
  have hsplit : outputSum (outputs.take count) + outputSum (outputs.drop count) =
      outputSum outputs := by
    rw [outputSum, outputSum, outputSum, ← List.sum_append, ← List.map_append,
      List.take_append_drop]
  -- the fee is the sum of the shares
  have hfee : count * feeShare inputs outputs count = inputSum inputs - outputSum outputs :=
    Nat.mul_div_cancel' (Nat.dvd_of_mod_eq_zero h.fee_even)
  have := h.covered
  omega

end WithdrawalTransaction

/-! ## Requests -/

namespace WithdrawalRequestQueue

variable {q q' : WithdrawalRequestQueue}

theorem insertWithdrawal_eq_ok {r : WithdrawalRequest} : q.insertWithdrawal r = .ok q' ↔
    r.id ∉ q.requests ∧ q' = { q with requests := q.requests.insert r.id r } := by
  simp only [insertWithdrawal, bind_eq_ok, Bag.add_eq_ok, pure_eq_ok]
  constructor
  · rintro ⟨_, ⟨hnew, rfl⟩, rfl⟩
    exact ⟨hnew, rfl⟩
  · rintro ⟨hnew, rfl⟩
    exact ⟨_, ⟨hnew, rfl⟩, rfl⟩

theorem not_isCommitted_iff {r : WithdrawalRequest} :
    ¬ r.isCommitted ↔ r.withdrawalTxnId = none := by
  simp [WithdrawalRequest.isCommitted]

theorem approveWithdrawal_eq_ok {id : Address} {cert : CommitteeSignature}
    (h : q.approveWithdrawal id cert now = .ok q') :
    ∃ r, q.requests.lookup id = some r ∧ r.withdrawalTxnId = none ∧
      (∀ old ∈ r.approvalCert, old.epoch < cert.epoch) ∧
      q' = { q with
        requests := q.requests.insert id
          { r with approvalCert := some cert, approvedTimestampMs := some now } } := by
  simp only [approveWithdrawal, borrowRequest, bind_eq_ok, Bag.borrow_eq_ok, require_eq_ok,
    pure_eq_ok, not_isCommitted_iff] at h
  obtain ⟨r, hr, _, hopen, _, hnewer, rfl⟩ := h
  exact ⟨r, hr, hopen, hnewer, rfl⟩

theorem cancelWithdrawal_eq_ok {id : Address} {btc : Nat} (h : q.cancelWithdrawal id = .ok (q', btc)) :
    ∃ r, q.requests.lookup id = some r ∧ r.withdrawalTxnId = none ∧ btc = r.btc ∧
      q' = { q with requests := q.requests.erase id } := by
  simp only [cancelWithdrawal, bind_eq_ok, Bag.remove_eq_ok, require_eq_ok, pure_eq_ok,
    not_isCommitted_iff, Prod.mk.injEq] at h
  obtain ⟨⟨r, requests⟩, ⟨hr, rfl⟩, _, hopen, rfl, rfl⟩ := h
  exact ⟨r, hr, hopen, rfl, rfl⟩

theorem extractRequestInfos_amounts {ids : List Address}
    (h : q.extractRequestInfos ids = .ok infos) : infos.length = ids.length ∧
      infos.map CommittedRequestInfo.btcAmount =
        ids.map (q.requests.weight WithdrawalRequest.btcAmount) := by
  rw [extractRequestInfos, mapM_eq_ok] at h
  refine ⟨h.length_eq.symm, ?_⟩
  induction h with
  | nil => rfl
  | cons hid _ ih =>
      simp only [borrowRequest, bind_eq_ok, Bag.borrow_eq_ok, pure_eq_ok] at hid
      obtain ⟨r, hr, rfl⟩ := hid
      rw [List.map_cons, List.map_cons, ih, Bag.weight_of_lookup hr]

/-! ## Commitment of requests -/

theorem commitRequest_eq_ok {w id : Address} {state state' : Bag Address WithdrawalRequest × Nat}
    (h : commitRequest w state id = .ok state') :
    ∃ r, state.1.lookup id = some r ∧ r.withdrawalTxnId = none ∧
      state' = (state.1.insert id (r.commitTo w), state.2 + r.btc) := by
  simp only [commitRequest, bind_eq_ok, Bag.borrow_eq_ok, require_eq_ok, addU64_eq_ok, pure_eq_ok,
    not_isCommitted_iff] at h
  obtain ⟨r, hr, _, -, _, hopen, _, ⟨-, rfl⟩, rfl⟩ := h
  exact ⟨r, hr, hopen, rfl⟩

variable {w : Address}

theorem commitRequest_loop {ids : List Address}
    {state state' : Bag Address WithdrawalRequest × Nat}
    (h : ids.foldlM (commitRequest w) state = .ok state') :
    ids.Nodup ∧ (∀ id ∈ ids, ∃ r, state.1.lookup id = some r ∧ r.withdrawalTxnId = none) ∧
      ∀ id, state'.1.lookup id = if id ∈ ids then
        (state.1.lookup id).map (·.commitTo w) else state.1.lookup id := by
  refine foldlM_update_once (fun state id => state.1.lookup id)
    (fun r => r.withdrawalTxnId = none) (·.commitTo w) ?_ ?_ h
  · intro r hopen
    cases hopen
  · intro s id s' hround
    obtain ⟨r, hr, hopen, rfl⟩ := commitRequest_eq_ok hround
    exact ⟨r, hr, hopen, fun id' => Bag.lookup_insert_ite ..⟩

theorem commitRequest_total {ids : List Address}
    {state state' : Bag Address WithdrawalRequest × Nat}
    (h : ids.foldlM (commitRequest w) state = .ok state') :
    state'.2 = state.2 + (ids.map (state.1.weight WithdrawalRequest.btc)).sum := by
  induction ids generalizing state with
  | nil =>
      obtain rfl := foldlM_nil_eq_ok.mp h
      simp
  | cons id ids ih =>
      obtain ⟨hnodup, -, -⟩ := commitRequest_loop h
      obtain ⟨m, hround, hrest⟩ := foldlM_cons_eq_ok.mp h
      obtain ⟨r, hr, -, rfl⟩ := commitRequest_eq_ok hround
      -- the later ids differ from this one, so their escrows are as before
      have hlater :
          ids.map (Bag.weight WithdrawalRequest.btc (state.1.insert id (r.commitTo w))) =
            ids.map (state.1.weight WithdrawalRequest.btc) := by
        refine List.map_congr_left fun id' hid' => ?_
        have hne : id' ≠ id := fun heq => (List.nodup_cons.mp hnodup).1 (heq ▸ hid')
        rw [Bag.weight, Bag.lookup_insert_ite, if_neg hne, Bag.weight]
      rw [ih hrest, hlater, List.map_cons, List.sum_cons, Bag.weight_of_lookup hr, Nat.add_assoc]

theorem commitRequests_eq_ok {total : Nat}
    (h : q.commitRequests t = .ok (q', total)) :
    ∃ requests, q' = { q with requests } ∧ t.requestIds.Nodup ∧
      (∀ id ∈ t.requestIds, ∃ r, q.requests.lookup id = some r ∧ r.withdrawalTxnId = none) ∧
      (∀ id, requests.lookup id = if id ∈ t.requestIds then
        (q.requests.lookup id).map (·.commitTo t.id) else q.requests.lookup id) ∧
      total = (t.requestIds.map (q.requests.weight WithdrawalRequest.btc)).sum := by
  simp only [commitRequests, bind_eq_ok, pure_eq_ok, Prod.mk.injEq] at h
  obtain ⟨⟨requests, btc⟩, hloop, rfl, rfl⟩ := h
  obtain ⟨hnodup, hopen, hlinked⟩ := commitRequest_loop hloop
  have htotal := commitRequest_total hloop
  rw [Nat.zero_add] at htotal
  exact ⟨requests, rfl, hnodup, hopen, hlinked, htotal⟩

theorem commitRequests_succeeds (hnodup : t.requestIds.Nodup)
    (hopen : ∀ id ∈ t.requestIds, ∃ r, q.requests.lookup id = some r ∧ r.withdrawalTxnId = none ∧
      r.isApproved)
    (hfits : (t.requestIds.map (q.requests.weight WithdrawalRequest.btc)).sum < U64_SIZE) :
    ∃ result, q.commitRequests t = .ok result := by
  have hloop : ∃ state, t.requestIds.foldlM (commitRequest t.id) (q.requests, 0) = .ok state := by
    refine foldlM_succeeds_rest (fun (state : Bag Address WithdrawalRequest × Nat) ids =>
      ids.Nodup ∧ (∀ id ∈ ids, ∃ r, state.1.lookup id = some r ∧ r.withdrawalTxnId = none ∧
        r.isApproved) ∧
      state.2 + (ids.map (state.1.weight WithdrawalRequest.btc)).sum < U64_SIZE) ?_
      ⟨hnodup, hopen, by simpa using hfits⟩
    rintro state id rest ⟨hnodup, hopen, hfits⟩
    obtain ⟨hid, hrest⟩ := List.nodup_cons.mp hnodup
    obtain ⟨r, hr, hnone, happroved⟩ := hopen id List.mem_cons_self
    rw [List.map_cons, List.sum_cons, Bag.weight_of_lookup hr] at hfits
    have hne : ∀ id' ∈ rest, id' ≠ id := fun id' hid' heq => hid (heq ▸ hid')
    have hlater : rest.map (Bag.weight WithdrawalRequest.btc (state.1.insert id (r.commitTo t.id))) =
        rest.map (state.1.weight WithdrawalRequest.btc) := by
      refine List.map_congr_left fun id' hid' => ?_
      rw [Bag.weight, Bag.lookup_insert_ite, if_neg (hne id' hid'), Bag.weight]
    refine ⟨(state.1.insert id (r.commitTo t.id), state.2 + r.btc), ?_, hrest, ?_, ?_⟩
    · simp only [commitRequest, bind_eq_ok, Bag.borrow_eq_ok, require_eq_ok, addU64_eq_ok,
        pure_eq_ok, not_isCommitted_iff]
      exact ⟨r, hr, (), happroved, (), hnone, _, ⟨by omega, rfl⟩, rfl⟩
    · intro id' hid'
      obtain ⟨r', hr', hnone', happroved'⟩ := hopen id' (List.mem_cons_of_mem _ hid')
      exact ⟨r', by rw [Bag.lookup_insert_ite, if_neg (hne id' hid'), hr'], hnone', happroved'⟩
    · rw [hlater]
      omega
  obtain ⟨state, hstate⟩ := hloop
  exact ⟨({ q with requests := state.1 }, state.2), by
    simp only [commitRequests, bind_eq_ok, pure_eq_ok]
    exact ⟨state, hstate, rfl⟩⟩

/-! ## Transactions -/

theorem insertWithdrawalTxn_eq_ok : q.insertWithdrawalTxn t = .ok q' ↔
    t.id ∉ q.withdrawalTxns ∧ q' = { q with withdrawalTxns := q.withdrawalTxns.insert t.id t } := by
  simp only [insertWithdrawalTxn, bind_eq_ok, Bag.add_eq_ok, pure_eq_ok]
  constructor
  · rintro ⟨_, ⟨hnew, rfl⟩, rfl⟩
    exact ⟨hnew, rfl⟩
  · rintro ⟨hnew, rfl⟩
    exact ⟨_, ⟨hnew, rfl⟩, rfl⟩

theorem recordInputSignatures_eq_ok {indices : List Nat} {signatures : List Bytes}
    (h : q.recordInputSignatures w indices signatures = .ok q') :
    ∃ t signing, q.withdrawalTxns.lookup w = some t ∧ ¬ t.txnFullySigned ∧
      t.signing.record indices signatures = .ok signing ∧ q' = q.setTxn w { t with signing } := by
  simp only [recordInputSignatures, borrowWithdrawalTxn, bind_eq_ok, Bag.borrow_eq_ok,
    require_eq_ok, pure_eq_ok] at h
  obtain ⟨t, ht, _, hunsigned, signing, hrecord, rfl⟩ := h
  exact ⟨t, signing, ht, hunsigned, hrecord, rfl⟩

theorem finalizeWithdrawalTxn_eq_ok {guardianSignatures : List Bytes}
    (h : q.finalizeWithdrawalTxn w guardianSignatures now = .ok q') :
    ∃ t, q.withdrawalTxns.lookup w = some t ∧ ¬ t.txnFullySigned ∧ t.signing.isComplete ∧
      q' = q.setTxn w { t with
        guardianSignatures := some guardianSignatures, signedTimestampMs := some now } := by
  simp only [finalizeWithdrawalTxn, borrowWithdrawalTxn, bind_eq_ok, Bag.borrow_eq_ok,
    require_eq_ok, pure_eq_ok] at h
  obtain ⟨t, ht, _, hunsigned, _, hcomplete, rfl⟩ := h
  exact ⟨t, ht, hunsigned, hcomplete, rfl⟩

theorem markTxnConfirmed_eq_ok : q.markTxnConfirmed w now = .ok q' ↔
    ∃ t, q.withdrawalTxns.lookup w = some t ∧ t.confirmedTimestampMs = none ∧
      q' = q.setTxn w { t with confirmedTimestampMs := some now } := by
  simp only [markTxnConfirmed, borrowWithdrawalTxn, bind_eq_ok, Bag.borrow_eq_ok, require_eq_ok,
    pure_eq_ok]
  constructor
  · rintro ⟨t, ht, _, hunconfirmed, rfl⟩
    exact ⟨t, ht, hunconfirmed, rfl⟩
  · rintro ⟨t, ht, hunconfirmed, rfl⟩
    exact ⟨t, ht, (), hunconfirmed, rfl⟩

theorem reallocatePresigs_eq_ok {epoch : Nat}
    {randomness : Bytes}
    (h : q.reallocatePresigsForWithdrawalTxn w presigs epoch randomness = .ok q') :
    ∃ t signing, q.withdrawalTxns.lookup w = some t ∧
      t.signing.reallocate presigs epoch = .ok signing ∧
      q' = q.setTxn w { t with
        signing, randomness := if presigs = [] then t.randomness else randomness } := by
  simp only [reallocatePresigsForWithdrawalTxn, borrowWithdrawalTxn, bind_eq_ok, Bag.borrow_eq_ok,
    pure_eq_ok] at h
  obtain ⟨t, ht, signing, hrealloc, rfl⟩ := h
  exact ⟨t, signing, ht, hrealloc, rfl⟩

/-! ## Archival -/

theorem archiveRequest_eq_ok {w id : Address} (h : archiveRequest w q id = .ok q') :
    (q.requests.lookup id = none ∧ q' = q) ∨
    ∃ r, q.requests.lookup id = some r ∧ r.withdrawalTxnId = some w ∧
      q' = { q with requests := q.requests.erase id, processed := q.processed.insert id r } := by
  unfold archiveRequest at h
  split at h
  · next hnone =>
    cases h
    exact .inl ⟨hnone, rfl⟩
  · next r hr =>
    simp only [bind_eq_ok, require_eq_ok, Bag.add_eq_ok, pure_eq_ok] at h
    obtain ⟨_, hlink, _, ⟨-, rfl⟩, rfl⟩ := h
    exact .inr ⟨r, hr, hlink, rfl⟩

theorem archiveTxn_eq_ok (h : q.archiveTxn w = .ok q') :
    ∃ t, q.withdrawalTxns.lookup w = some t ∧ q' = { q with
      withdrawalTxns := q.withdrawalTxns.erase w
      confirmedTxns := q.confirmedTxns.insert w t } := by
  simp only [archiveTxn, bind_eq_ok, Bag.remove_eq_ok, Bag.add_eq_ok, pure_eq_ok] at h
  obtain ⟨⟨t, _⟩, ⟨ht, rfl⟩, _, ⟨-, rfl⟩, rfl⟩ := h
  exact ⟨t, ht, rfl⟩

end WithdrawalRequestQueue

end HashiBridge.Btc
