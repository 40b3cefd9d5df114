import HashiBridge.Node.Batching
import HashiBridge.Node.Lemmas.Ancestry
import HashiBridge.Node.Lemmas.CoinSelection
import HashiBridge.Node.Lemmas.Withdrawals

/-!
# What the leader may choose

Every input that the leader selects is a record that was unlocked, not excluded and short of the
depth limit. A validator's check asks the same of each input, so it accepts the leader's choice.
-/

namespace HashiBridge.Node

open Lib HashiBridge.Core Btc

namespace UnconfirmedAncestry

variable {a : UnconfirmedAncestry} {h : Acyclic a.parents} {walked : Walked}

/-- An output that the checks let through: unlocked, and its chain is short of the limit. -/
def Available (h : Acyclic a.parents) (id : UtxoId) : Prop :=
  ∃ record, a.utxoRecords.lookup id = some record ∧ record.spentBy = none ∧
    recordDepth h record < MAX_ANCESTOR_DEPTH

/-! ## The check of a commitment -/

theorem checkInput_isOk (hcons : a.Consistent) (hs : Sound h walked fun _ => True) (id : UtxoId) :
    ∃ outcome walked', (a.checkInput id).run walked = (outcome, walked') ∧
      Sound h walked' (fun _ => True) ∧ (outcome.isOk ↔ Available h id) := by
  cases hrecord : a.utxoRecords.lookup id with
  | none =>
      refine ⟨_, walked, checkInput_of_missing hrecord, hs, ?_⟩
      simp [Available, hrecord, Except.isOk, Except.toBool]
  | some record =>
      cases hspent : record.spentBy with
      | some spentBy =>
          refine ⟨_, walked, checkInput_of_locked hrecord hspent, hs, ?_⟩
          simp [Available, hrecord, hspent, Except.isOk, Except.toBool]
      | none =>
          obtain ⟨walked', hdepth, hs'⟩ := depth_eq hcons hs record
          refine ⟨_, walked', checkInput_of_depth hrecord hspent hdepth, hs', ?_⟩
          split_ifs with hlimit
          · simp [Available, hrecord, hspent, Except.isOk, Except.toBool, hlimit]
          · simpa [Available, hrecord, hspent, Except.isOk, Except.toBool] using hlimit

theorem collectInput_loop_iff (hcons : a.Consistent) (hs : Sound h walked fun _ => True)
    (ids : List UtxoId) (found : List Utxo × List RefusedItem) :
    ∃ utxos items walked', (ids.foldlM a.collectInput found).run walked =
        ((utxos, items), walked') ∧
      (items = [] ↔ found.2 = [] ∧ ∀ id ∈ ids, Available h id) := by
  induction ids generalizing found walked with
  | nil => exact ⟨found.1, found.2, walked, rfl, by simp⟩
  | cons id ids ih =>
      obtain ⟨outcome, walked₁, hcheck, hs₁, hiff⟩ := checkInput_isOk hcons hs id
      simp only [List.foldlM_cons, StateT.run_bind, collectInput_run, hcheck]
      cases outcome with
      | error refusal =>
          obtain ⟨utxos, items, walked', hrun, hitems⟩ :=
            ih hs₁ (found.1, found.2 ++ [refusal])
          have hnot : ¬ Available h id := fun havailable => by cases hiff.mpr havailable
          exact ⟨utxos, items, walked', hrun, by simp [hitems, hnot]⟩
      | ok utxo =>
          obtain ⟨utxos, items, walked', hrun, hitems⟩ := ih hs₁ (found.1 ++ [utxo], found.2)
          have hid : Available h id := hiff.mp rfl
          exact ⟨utxos, items, walked', hrun, by simp [hitems, hid]⟩

theorem checkSelectedInputs_iff (hcons : a.Consistent) (h : Acyclic a.parents)
    (selected : List UtxoId) :
    (∃ utxos ancestors, checkSelectedInputs selected a.utxoRecords a.withdrawalTxns [] =
      .passed utxos ancestors) ↔ ∀ id ∈ selected, Available h id := by
  obtain ⟨utxos, items, walked, hloop, hiff⟩ :=
    collectInput_loop_iff hcons (sound_empty h fun _ => True) selected ([], [])
  rw [checkSelectedInputs_of_loop hloop]
  split_ifs with hitems
  · have hall := (hiff.mp hitems).2
    exact ⟨fun _ => hall, fun _ => ⟨utxos, package walked, rfl⟩⟩
  · have hnot : ¬ ∀ id ∈ selected, Available h id := fun hall => hitems (hiff.mpr ⟨rfl, hall⟩)
    simp [hnot]

/-! ## The leader's candidates -/

theorem candidateRecords_available (hcons : a.Consistent) (hs : Sound h walked fun _ => True)
    (excluded : List UtxoId) {records : List UtxoRecord}
    (hrecords : ∀ record ∈ records, ∃ id, a.utxoRecords.lookup id = some record) :
    ∀ record ∈ ((a.candidateRecords excluded records).run walked).1,
      Available h record.utxo.id ∧ record.utxo.id ∉ excluded := by
  induction records generalizing walked with
  | nil =>
      intro record hrecord
      cases hrecord
  | cons first rest ih =>
      have hrest := fun record hrecord => hrecords record (List.mem_cons_of_mem _ hrecord)
      unfold candidateRecords
      split_ifs with hopen
      · obtain ⟨walked', hdepth, hs'⟩ := depth_eq hcons hs first
        simp only [StateT.run_bind, hdepth]
        change ∀ record ∈ if recordDepth h first < MAX_ANCESTOR_DEPTH then
          first :: ((a.candidateRecords excluded rest).run walked').1
          else ((a.candidateRecords excluded rest).run walked').1, _
        split_ifs with hshallow
        · intro record hrecord
          obtain rfl | hrecord := List.mem_cons.mp hrecord
          · obtain ⟨id, hid⟩ := hrecords record List.mem_cons_self
            obtain rfl := hcons.id_eq hid
            exact ⟨⟨record, hid, hopen.1, hshallow⟩, hopen.2⟩
          · exact ih hs' hrest record hrecord
        · exact ih hs' hrest
      · exact ih hs hrest

end UnconfirmedAncestry

namespace Leader

variable {leader : Leader}

def ancestry (leader : Leader) : UnconfirmedAncestry :=
  ⟨leader.mirror.withdrawalTxns, leader.mirror.utxoRecords⟩

theorem candidates_available (hcons : leader.ancestry.Consistent)
    (h : Acyclic leader.ancestry.parents) {feeRate : FeeRate} {excluded : List UtxoId}
    {candidates : List UtxoCandidate} (hok : leader.candidates feeRate excluded = .ok candidates) :
    ∀ c ∈ candidates, UnconfirmedAncestry.Available h c.id ∧ c.id ∉ excluded := by
  have hkept := UnconfirmedAncestry.candidateRecords_available hcons
    (UnconfirmedAncestry.sound_empty h fun _ => True) excluded
    fun record hrecord => (Bag.mem_sortedValues fun a b => utxoIdLe a b).mp hrecord
  intro c hc
  have hforall := mapM_eq_ok.mp hok
  obtain ⟨record, hrecord, hcandidate⟩ := exists_of_forall₂ hforall.flip hc
  simp only [candidate, bind_eq_ok, pure_eq_ok] at hcandidate
  obtain ⟨_, _, rfl⟩ := hcandidate
  exact hkept record hrecord

theorem selectBatch_subset {changeScript : Bytes} {feeRate : FeeRate}
    {candidates : List UtxoCandidate} {fuel : Nat} {requests : List WithdrawalRequest}
    {requestCount : Nat} {last : Option CoinSelectionError} {result : CoinSelectionResult}
    (hok : leader.selectBatch changeScript feeRate candidates fuel requests requestCount last =
      .ok result) : result.inputs ⊆ candidates := by
  induction fuel generalizing requests requestCount last with
  | zero => cases hok
  | succ fuel ih =>
      simp only [selectBatch] at hok
      split_ifs at hok
      · exact ih hok
      · split at hok
        next selection hselection =>
          cases hok
          exact selectCoins_subset hselection
        next => cases hok
        next => exact ih hok

theorem buildWithdrawalTxCommitment_available (hcons : leader.ancestry.Consistent)
    (h : Acyclic leader.ancestry.parents) {requests : List Btc.WithdrawalRequest}
    {excluded : List UtxoId} {commitment : WithdrawalTxCommitment}
    (hok : leader.buildWithdrawalTxCommitment requests excluded = .ok commitment) :
    ∀ id ∈ commitment.selectedUtxos,
      UnconfirmedAncestry.Available h id ∧ id ∉ excluded := by
  simp only [buildWithdrawalTxCommitment, bind_eq_ok, pure_eq_ok] at hok
  obtain ⟨_, _, _, _, candidates, hcandidates, result, hresult, _, _, _, _, _, _, rfl⟩ := hok
  intro id hid
  obtain ⟨c, hc, rfl⟩ := List.mem_map.mp hid
  exact candidates_available hcons h hcandidates c (selectBatch_subset hresult hc)

end Leader

end HashiBridge.Node
