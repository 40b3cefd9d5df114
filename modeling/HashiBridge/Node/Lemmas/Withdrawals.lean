import HashiBridge.Btc.Lemmas.QueueSpecs
import HashiBridge.Node.Withdrawals

/-!
# What an accepted commitment satisfies

One lemma per check of the validator, and `prepareWithdrawalTxCommitment_eq_ok`, which collects
what the contract will check again.
-/

namespace HashiBridge.Node

open Lib HashiBridge.Core Btc

/-! ## Requests and inputs -/

def Mirror.Payable (mirror : Mirror) (id : Address) (request : Btc.WithdrawalRequest) : Prop :=
  mirror.requests.lookup id = some request ∧ request.withdrawalTxnId = none ∧ request.isApproved

theorem Mirror.commitmentRequest_eq_ok {mirror : Mirror} {id : Address}
    {request : Btc.WithdrawalRequest} :
    mirror.commitmentRequest id = .ok request ↔ mirror.Payable id request := by
  simp only [commitmentRequest, bind_eq_ok, orAbort_eq_ok, require_eq_ok, pure_eq_ok, Payable,
    WithdrawalRequestQueue.not_isCommitted_iff]
  constructor
  · rintro ⟨_, hlookup, _, hopen, _, happroved, rfl⟩
    exact ⟨hlookup, hopen, happroved⟩
  · rintro ⟨hlookup, hopen, happroved⟩
    exact ⟨request, hlookup, (), hopen, (), happroved, rfl⟩

theorem Mirror.commitmentRequests_of_unrefused {mirror : Mirror} {ids : List Address}
    (h : (mirror.commitmentRequests ids).2 = []) :
    List.Forall₂ mirror.Payable ids (mirror.commitmentRequests ids).1 := by
  induction ids with
  | nil => exact .nil
  | cons id ids ih =>
      cases hrequest : mirror.commitmentRequest id with
      | ok request =>
          simp only [commitmentRequests, hrequest] at h ⊢
          exact .cons (commitmentRequest_eq_ok.mp hrequest) (ih h)
      | error refusal =>
          simp only [commitmentRequests, hrequest] at h
          cases h

namespace UnconfirmedAncestry

variable {a : UnconfirmedAncestry} {walked walked' : Walked}

def Spendable (a : UnconfirmedAncestry) (id : UtxoId) (utxo : Utxo) : Prop :=
  ∃ record, a.utxoRecords.lookup id = some record ∧ record.spentBy = none ∧ record.utxo = utxo

theorem checkInput_of_missing {id : UtxoId} (h : a.utxoRecords.lookup id = none) :
    (a.checkInput id).run walked = (.error (.inputMissing id), walked) := by
  simp only [checkInput, h]
  rfl

theorem checkInput_of_locked {id : UtxoId} {record : UtxoRecord} {spentBy : Address}
    (h : a.utxoRecords.lookup id = some record) (hspent : record.spentBy = some spentBy) :
    (a.checkInput id).run walked = (.error (.inputLocked id spentBy), walked) := by
  simp only [checkInput, h, hspent]
  rfl

theorem checkInput_of_depth {id : UtxoId} {record : UtxoRecord} {depth : Nat}
    (h : a.utxoRecords.lookup id = some record) (hspent : record.spentBy = none)
    (hdepth : (a.depth record).run walked = (depth, walked')) :
    (a.checkInput id).run walked =
      (if MAX_ANCESTOR_DEPTH ≤ depth then .error (.inputAncestorDepth id depth)
        else .ok record.utxo, walked') := by
  simp only [checkInput, h, hspent, StateT.run_bind, hdepth]
  change (if MAX_ANCESTOR_DEPTH ≤ depth then _ else _ : StateM Walked _).run walked' = _
  split_ifs <;> rfl

theorem checkInput_eq_ok {id : UtxoId} {utxo : Utxo}
    (h : (a.checkInput id).run walked = (.ok utxo, walked')) : a.Spendable id utxo := by
  cases hrecord : a.utxoRecords.lookup id with
  | none =>
      rw [checkInput_of_missing hrecord] at h
      cases h
  | some record =>
      cases hspent : record.spentBy with
      | some spentBy =>
          rw [checkInput_of_locked hrecord hspent] at h
          cases h
      | none =>
          rw [checkInput_of_depth hrecord hspent rfl] at h
          refine ⟨record, hrecord, hspent, ?_⟩
          split_ifs at h
          · cases h
          · cases h
            rfl

theorem collectInput_run (found : List Utxo × List RefusedItem) (id : UtxoId) :
    (a.collectInput found id).run walked =
      (match ((a.checkInput id).run walked).1 with
        | .ok utxo => (found.1 ++ [utxo], found.2)
        | .error refusal => (found.1, found.2 ++ [refusal]), ((a.checkInput id).run walked).2) := by
  simp only [collectInput, StateT.run_bind]
  generalize (a.checkInput id).run walked = result
  obtain ⟨outcome, walked'⟩ := result
  cases outcome <;> rfl

theorem collectInput_loop {ids : List UtxoId} {found : List Utxo × List RefusedItem}
    {utxos : List Utxo}
    (h : (ids.foldlM a.collectInput found).run walked = ((utxos, []), walked')) :
    found.2 = [] ∧ ∃ taken, utxos = found.1 ++ taken ∧ List.Forall₂ a.Spendable ids taken := by
  induction ids generalizing found walked with
  | nil =>
      cases h
      exact ⟨rfl, [], (List.append_nil _).symm, .nil⟩
  | cons id ids ih =>
      rw [List.foldlM_cons, StateT.run_bind, collectInput_run] at h
      cases hcheck : (a.checkInput id).run walked with
      | mk outcome walked₁ =>
          rw [hcheck] at h
          cases outcome with
          | error refusal =>
              obtain ⟨hnil, -⟩ := ih h
              exact absurd hnil (by simp)
          | ok utxo =>
              obtain ⟨hnil, taken, htaken, hall⟩ := ih h
              refine ⟨hnil, utxo :: taken, ?_, .cons (checkInput_eq_ok hcheck) hall⟩
              rw [htaken, List.append_assoc, List.singleton_append]

end UnconfirmedAncestry

section

variable {selectedUtxos : List UtxoId} {utxoRecords : Bag UtxoId UtxoRecord}
  {withdrawalTxns : Bag Address WithdrawalTransaction} {refused : List RefusedItem}

theorem checkSelectedInputs_of_loop {utxos : List Utxo} {items : List RefusedItem}
    {walked : Walked}
    (h : (selectedUtxos.foldlM (UnconfirmedAncestry.collectInput ⟨withdrawalTxns, utxoRecords⟩)
      ([], refused)).run ∅ = ((utxos, items), walked)) :
    checkSelectedInputs selectedUtxos utxoRecords withdrawalTxns refused =
      if items = [] then .passed utxos (UnconfirmedAncestry.package walked)
      else .refused items := by
  simp only [checkSelectedInputs, h, ne_eq, ite_not]

theorem checkSelectedInputs_passed {utxos : List Utxo} {ancestors : Weight × Nat}
    (h : checkSelectedInputs selectedUtxos utxoRecords withdrawalTxns refused =
      .passed utxos ancestors) :
    refused = [] ∧
      List.Forall₂ (UnconfirmedAncestry.Spendable ⟨withdrawalTxns, utxoRecords⟩) selectedUtxos
        utxos := by
  cases hloop : (selectedUtxos.foldlM
      (UnconfirmedAncestry.collectInput ⟨withdrawalTxns, utxoRecords⟩) ([], refused)).run ∅ with
  | mk found walked =>
      obtain ⟨taken, items⟩ := found
      rw [checkSelectedInputs_of_loop hloop] at h
      split_ifs at h with hitems
      cases h
      rw [hitems] at hloop
      obtain ⟨hrefused, taken, htaken, hall⟩ := UnconfirmedAncestry.collectInput_loop hloop
      rw [htaken]
      exact ⟨hrefused, hall⟩

end

/-! ## Amounts -/

/-- Output `i` pays a request its amount less the share, and that is not dust. -/
structure PaysRequest (outputs : List OutputUtxo) (share : Nat)
    (entry : Btc.WithdrawalRequest × Nat) : Prop where
  exists_output : ∃ output, outputs[entry.2]? = some output ∧
    DUST_RELAY_MIN_VALUE.toNat ≤ entry.1.btcAmount - share ∧
    output.amount = entry.1.btcAmount - share ∧ output.bitcoinAddress = entry.1.bitcoinAddress

theorem checkRequestOutput_eq_ok {outputs : List OutputUtxo} {share : Nat}
    {refused refused' : List RefusedItem} {entry : Btc.WithdrawalRequest × Nat}
    (h : checkRequestOutput outputs share refused entry = .ok refused') (hnil : refused' = []) :
    refused = [] ∧ PaysRequest outputs share entry := by
  simp only [checkRequestOutput, bind_eq_ok, orAbort_eq_ok] at h
  obtain ⟨output, houtput, h⟩ := h
  split_ifs at h with hdust
  · simp only [pure_eq_ok] at h
    simp [← h] at hnil
  · simp only [bind_eq_ok, require_eq_ok, pure_eq_ok] at h
    obtain ⟨_, hamount, _, haddress, rfl⟩ := h
    refine ⟨hnil, output, houtput, ?_, hamount, haddress⟩
    simpa [belowWithdrawalDust] using hdust

theorem checkRequestOutput_loop {outputs : List OutputUtxo} {share : Nat}
    {entries : List (Btc.WithdrawalRequest × Nat)} {refused : List RefusedItem}
    (h : entries.foldlM (checkRequestOutput outputs share) refused = .ok []) :
    refused = [] ∧ ∀ entry ∈ entries, PaysRequest outputs share entry := by
  induction entries generalizing refused with
  | nil => exact ⟨foldlM_nil_eq_ok.mp h, by simp⟩
  | cons entry rest ih =>
      obtain ⟨refused₁, hentry, hrest⟩ := foldlM_cons_eq_ok.mp h
      obtain ⟨hnil, hall⟩ := ih hrest
      obtain ⟨hrefused, hpays⟩ := checkRequestOutput_eq_ok hentry hnil
      exact ⟨hrefused, List.forall_mem_cons.mpr ⟨hpays, hall⟩⟩

/-! ## The validator -/

def WithdrawalTxCommitment.share (approval : WithdrawalTxCommitment) (inputs : List Utxo)
    (requestCount : Nat) : Nat :=
  (wrapU64 (WithdrawalTransaction.inputSum inputs) -
    wrapU64 (WithdrawalTransaction.outputSum approval.outputs)) / requestCount

/-- What the contract will read of an accepted commitment: requests, inputs and amounts. -/
structure Validator.Certifies (validator : Validator) (approval : WithdrawalTxCommitment)
    (requests : List Btc.WithdrawalRequest) (inputs : List Utxo) : Prop where
  requests_nodup : approval.requestIds.Nodup
  requests_ne : approval.requestIds ≠ []
  requests_le : approval.requestIds.length ≤ MAX_WITHDRAWAL_REQUESTS
  inputs_nodup : approval.selectedUtxos.Nodup
  inputs_ne : approval.selectedUtxos ≠ []
  payable : List.Forall₂ validator.mirror.Payable approval.requestIds requests
  spendable : List.Forall₂ (UnconfirmedAncestry.Spendable
    ⟨validator.mirror.withdrawalTxns, validator.mirror.utxoRecords⟩) approval.selectedUtxos inputs
  outputs_ge : requests.length ≤ approval.outputs.length
  change_le : approval.outputs.length ≤ approval.requestIds.length + WITHDRAWAL_MAX_CHANGE_OUTPUTS
  covered : wrapU64 (WithdrawalTransaction.outputSum approval.outputs) ≤
    wrapU64 (WithdrawalTransaction.inputSum inputs)
  share_le : approval.share inputs requests.length ≤
    Mirror.worstCaseNetworkFee validator.mirror.config
  pays : ∀ entry ∈ requests.zipIdx,
    PaysRequest approval.outputs (approval.share inputs requests.length) entry

theorem Validator.prepareWithdrawalTxCommitment_eq_ok {validator : Validator}
    {approval : WithdrawalTxCommitment} {prepared : PreparedCommitment}
    (h : validator.prepareWithdrawalTxCommitment approval = .ok prepared) :
    ∃ requests, validator.Certifies approval requests prepared.selectedUtxos := by
  simp only [prepareWithdrawalTxCommitment, checkCommitmentShape, validateCommitmentShape,
    bind_eq_ok, require_eq_ok] at h
  obtain ⟨_, ⟨_, hrequests, _, hinputs, _, -, _, ⟨_, hcount, _, -, _, -, _, -, hchange⟩, _, hnodup,
    hnodup'⟩, h⟩ := h
  split at h
  · cases h
  · next selectedUtxos ancestors hcheck =>
    obtain ⟨hrefused, hspendable⟩ := checkSelectedInputs_passed hcheck
    have hpayable := Mirror.commitmentRequests_of_unrefused hrefused
    simp only [bind_eq_ok, require_eq_ok, pure_eq_ok] at h
    obtain ⟨_, houtputs, _, hcovered, _, -, _, hshare, refused, hloop, _, hnone, _, -, _, -, _, -,
      _, -, rfl⟩ := h
    rw [hnone] at hloop
    exact ⟨_, {
      requests_nodup := hnodup, requests_ne := hrequests, requests_le := hcount
      inputs_nodup := hnodup', inputs_ne := hinputs, payable := hpayable, spendable := hspendable
      outputs_ge := houtputs, change_le := by omega, covered := hcovered, share_le := hshare
      pays := (checkRequestOutput_loop hloop).2 }⟩

end HashiBridge.Node
