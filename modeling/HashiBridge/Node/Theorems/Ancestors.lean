import HashiBridge.Node.Lemmas.Batching

/-!
# The ancestor limit

Bitcoin Core relays a transaction with at most 25 transactions in its ancestor set, itself included.
The node bounds the longest chain of each input and not the union of the chains.
-/

namespace HashiBridge.Node

open Lib HashiBridge.Core Btc

namespace UnconfirmedAncestry

variable {a : UnconfirmedAncestry}

noncomputable def ancestorsOf (a : UnconfirmedAncestry) (id : UtxoId) : Finset Address :=
  (a.producer id).elim ∅ a.above

/-- The distinct unconfirmed ancestors of a transaction with the given inputs. -/
noncomputable def ancestors (a : UnconfirmedAncestry) (selected : List UtxoId) : Finset Address :=
  unionAll (selected.map a.ancestorsOf)

open Classical in
/-- The distinct unconfirmed ancestors of all the outputs that the checks let through. -/
noncomputable def availableAncestors (a : UnconfirmedAncestry) (h : Acyclic a.parents) :
    Finset Address :=
  (a.utxoRecords.keys.filter fun id => Available h id).biUnion a.ancestorsOf

/-- The inputs of a commitment that passes the validator's check, or that a leader builds. -/
def Chosen (a : UnconfirmedAncestry) (selected : List UtxoId) : Prop :=
  (∃ refused utxos ancestors, checkSelectedInputs selected a.utxoRecords a.withdrawalTxns refused =
      .passed utxos ancestors) ∨
    ∃ leader requests excluded commitment, Leader.ancestry leader = a ∧
      leader.buildWithdrawalTxCommitment requests excluded = .ok commitment ∧
      commitment.selectedUtxos = selected

theorem chosen_iff (hcons : a.Consistent) (h : Acyclic a.parents) (selected : List UtxoId) :
    a.Chosen selected ↔ ∀ id ∈ selected, Available h id := by
  constructor
  · rintro (⟨refused, utxos, ancestors, hpassed⟩ |
      ⟨leader, requests, excluded, commitment, rfl, hbuilt, rfl⟩)
    · obtain ⟨rfl, -⟩ := checkSelectedInputs_passed hpassed
      exact (checkSelectedInputs_iff hcons h selected).mp ⟨utxos, ancestors, hpassed⟩
    · intro id hid
      exact (Leader.buildWithdrawalTxCommitment_available hcons h hbuilt id hid).1
  · intro havailable
    obtain ⟨utxos, ancestors, hpassed⟩ := (checkSelectedInputs_iff hcons h selected).mpr havailable
    exact .inl ⟨[], utxos, ancestors, hpassed⟩

theorem mem_ancestorsOf {v : Address} {id : UtxoId} :
    v ∈ a.ancestorsOf id ↔ ∃ w, a.producer id = some w ∧ v ∈ a.above w := by
  unfold ancestorsOf
  cases a.producer id <;> simp

theorem mem_ancestors {v : Address} {selected : List UtxoId} :
    v ∈ a.ancestors selected ↔ ∃ id ∈ selected, v ∈ a.ancestorsOf id := by
  simp [ancestors, mem_unionAll]

theorem height_lt_of_available {h : Acyclic a.parents} {v : Address} {id : UtxoId}
    (havailable : Available h id) (hv : v ∈ a.ancestorsOf id) : h.height v < MAX_ANCESTOR_DEPTH := by
  obtain ⟨record, hrecord, -, hdepth⟩ := havailable
  obtain ⟨w, hproducer, habove⟩ := mem_ancestorsOf.mp hv
  obtain ⟨record', hrecord', hproduced, hw⟩ := producer_eq_some.mp hproducer
  obtain rfl : record = record' := Option.some.inj (hrecord.symm.trans hrecord')
  have hheight : recordDepth h record = h.height w := by
    rw [recordDepth, hproduced, Option.elim_some, depthOf, if_pos hw]
  calc h.height v ≤ h.height w := h.height_le_of_above (mem_above.mp habove).2
    _ < MAX_ANCESTOR_DEPTH := hheight ▸ hdepth

theorem mem_keys_of_available {h : Acyclic a.parents} {id : UtxoId} (havailable : Available h id) :
    id ∈ a.utxoRecords.keys := by
  obtain ⟨record, hrecord, -⟩ := havailable
  exact Finmap.mem_keys.mpr (Bag.mem_of_lookup hrecord)

theorem mem_availableAncestors {h : Acyclic a.parents} {v : Address} :
    v ∈ a.availableAncestors h ↔ ∃ id, Available h id ∧ v ∈ a.ancestorsOf id := by
  simp only [availableAncestors, Finset.mem_biUnion, Finset.mem_filter]
  constructor
  · rintro ⟨id, ⟨-, havailable⟩, hv⟩
    exact ⟨id, havailable, hv⟩
  · rintro ⟨id, havailable, hv⟩
    exact ⟨id, ⟨mem_keys_of_available havailable, havailable⟩, hv⟩

theorem availableAncestors_subset (h : Acyclic a.parents) :
    a.availableAncestors h ⊆ a.withdrawalTxns.keys := by
  intro v hv
  obtain ⟨id, -, hmem⟩ := mem_availableAncestors.mp hv
  obtain ⟨w, -, habove⟩ := mem_ancestorsOf.mp hmem
  exact Finmap.mem_keys.mpr (mem_above.mp habove).1

/-- Every chosen transaction stays within the limit exactly when the available outputs together have
at most 24 unconfirmed ancestors. A transaction whose ancestors form one line always does. -/
theorem chosen_within_limit_iff (hcons : a.Consistent) (h : Acyclic a.parents) :
    ((∀ selected, a.Chosen selected → (a.ancestors selected).card ≤ MAX_ANCESTOR_DEPTH - 1) ↔
      (a.availableAncestors h).card ≤ MAX_ANCESTOR_DEPTH - 1) ∧
    ∀ selected, (∀ v ∈ a.ancestors selected, ∀ w ∈ a.ancestors selected,
        Above a.parents v w ∨ Above a.parents w v) →
      a.Chosen selected → (a.ancestors selected).card ≤ MAX_ANCESTOR_DEPTH - 1 := by
  simp only [chosen_iff hcons h]
  refine ⟨⟨fun hlimit => ?_, fun hcount selected havailable => ?_⟩, fun selected hline havailable => ?_⟩
  · -- a validator lets all of them through at once
    classical
    let all := (a.utxoRecords.keys.filter fun id => Available h id).toList
    have hall : ∀ id, id ∈ all ↔ id ∈ a.utxoRecords.keys ∧ Available h id := fun id => by
      rw [Finset.mem_toList, Finset.mem_filter]
    refine le_trans (Finset.card_le_card fun v hv => ?_) (hlimit all fun id hid => ((hall id).mp hid).2)
    obtain ⟨id, havailable, hmem⟩ := mem_availableAncestors.mp hv
    exact mem_ancestors.mpr
      ⟨id, (hall id).mpr ⟨mem_keys_of_available havailable, havailable⟩, hmem⟩
  · refine le_trans (Finset.card_le_card fun v hv => ?_) hcount
    obtain ⟨id, hid, hmem⟩ := mem_ancestors.mp hv
    exact mem_availableAncestors.mpr ⟨id, havailable id hid, hmem⟩
  · refine h.card_le_of_chain hline fun w hw => ?_
    obtain ⟨id, hid, hmem⟩ := mem_ancestors.mp hw
    exact Nat.le_sub_one_of_lt (height_lt_of_available (havailable id hid) hmem)

end UnconfirmedAncestry

/-! ## Samples -/

namespace Sample

/-- An in-flight withdrawal of 50000 from a deposit of 100000, with 49000 of change. -/
def fanTxn (i : Nat) : WithdrawalTransaction where
  id := 100 + i
  txid := 200 + i
  requestIds := []
  inputs := [⟨⟨300 + i, 0⟩, 100000, none⟩]
  withdrawalOutputs := [⟨50000, List.replicate 20 0⟩]
  changeOutputs := [⟨49000, List.replicate 32 1⟩]
  createdTimestampMs := 0
  signedTimestampMs := none
  confirmedTimestampMs := none
  randomness := []
  signing := ⟨[], 0⟩
  guardianSignatures := none

def fanOf (n : Nat) : UnconfirmedAncestry where
  withdrawalTxns := ((List.range n).map fun i => ⟨100 + i, fanTxn i⟩).toFinmap
  utxoRecords := ((List.range n).flatMap fun i =>
    [⟨⟨300 + i, 0⟩, ⟨⟨⟨300 + i, 0⟩, 100000, none⟩, none, some (100 + i), none⟩⟩,
      ⟨⟨200 + i, 1⟩, ⟨⟨⟨200 + i, 1⟩, 49000, none⟩, some (100 + i), none, none⟩⟩]).toFinmap

def fan : UnconfirmedAncestry := fanOf 25

def fanChange : List UtxoId := (List.range 25).map fun i => ⟨200 + i, 1⟩

def fanConfig : Config :=
  Config.empty.upsert BtcConfig.KEY_BITCOIN_WITHDRAWAL_MINIMUM (.u64 30000)

def fanMirror : Mirror := ⟨∅, fan.withdrawalTxns, fan.utxoRecords, fanConfig⟩

/-- A leader at 3 satoshis per virtual byte, to which every transaction weighs 500. -/
def fanLeader : Leader where
  mirror := fanMirror
  later := fanMirror
  network := .bitcoin
  withdrawalMinFeeRate := 750
  withdrawalMaxBatchSize := 447
  maxMempoolChainDepth := 5
  depositScript := .ok (0x51 :: 0x20 :: List.replicate 32 1)
  recentFeeRate := .ok 750
  confirmationAges _ := ∅
  txConfirmations := ∅
  unsignedWeight _ _ := 500
  computeTxid _ _ := 700

def fanRequest (i : Nat) : Btc.WithdrawalRequest :=
  ⟨400 + i, 0, 400000, List.replicate 20 0, i, none, none, none, [], 400000⟩

theorem fanOf_consistent {n : Nat} (hn : n = 1 ∨ n = 25) : (fanOf n).Consistent where
  id_eq hrecord := Bag.forall_lookup (fun id (record : UtxoRecord) => record.utxo.id = id)
    (by rcases hn with rfl | rfl <;> decide +kernel) hrecord
  txid_eq {id record w txn} hrecord hproduced htxn :=
    Bag.forall_lookup (fun id record => ∀ w ∈ record.producedBy,
        ∀ txn ∈ (fanOf n).withdrawalTxns.lookup w, txn.txid = id.txid)
      (by rcases hn with rfl | rfl <;> decide +kernel) hrecord w hproduced txn htxn

theorem fanOf_acyclic {n : Nat} (hn : n = 1 ∨ n = 25) : Acyclic (fanOf n).parents where
  wf := ⟨fun w => ⟨w, fun p hp => by
    have hnone : (fanOf n).parents w = [] := by
      by_cases hw : w ∈ (fanOf n).withdrawalTxns
      · have hall : ∀ v ∈ (fanOf n).withdrawalTxns.keys, (fanOf n).parents v = [] := by
          rcases hn with rfl | rfl <;> decide +kernel
        exact hall w (Finmap.mem_keys.mpr hw)
      · exact UnconfirmedAncestry.parents_of_notMem hw
    rw [Parent, hnone] at hp
    cases hp⟩⟩

theorem fan_consistent : fan.Consistent := fanOf_consistent (.inr rfl)

theorem fan_acyclic : Acyclic fan.parents := fanOf_acyclic (.inr rfl)

theorem fan_built : ∃ commitment,
    fanLeader.buildWithdrawalTxCommitment ((List.range 3).map fanRequest) [] = .ok commitment ∧
      commitment.selectedUtxos = fanChange := by
  have hbuilt : (fanLeader.buildWithdrawalTxCommitment ((List.range 3).map fanRequest) []).map
      WithdrawalTxCommitment.selectedUtxos = .ok fanChange := by decide +kernel
  cases hresult : fanLeader.buildWithdrawalTxCommitment ((List.range 3).map fanRequest) [] with
  | error e =>
      rw [hresult] at hbuilt
      cases hbuilt
  | ok commitment =>
      rw [hresult] at hbuilt
      exact ⟨commitment, rfl, Except.ok.inj hbuilt⟩

theorem fan_mem_ancestorsOf {i : Nat} (hi : i < 25) : 100 + i ∈ fan.ancestorsOf ⟨200 + i, 1⟩ := by
  have hall : ∀ i < 25, fan.producer ⟨200 + i, 1⟩ = some (100 + i) ∧
      100 + i ∈ fan.withdrawalTxns := by decide +kernel
  obtain ⟨hproducer, hmem⟩ := hall i hi
  exact UnconfirmedAncestry.mem_ancestorsOf.mpr
    ⟨100 + i, hproducer, UnconfirmedAncestry.mem_above.mpr ⟨hmem, .refl _⟩⟩

end Sample

open Sample in
/-- With one withdrawal in flight its change output may be selected. -/
theorem chosen_within_limit_of_one : (fanOf 1).Chosen [⟨200, 1⟩] ∧
    ∀ selected, (fanOf 1).Chosen selected →
      ((fanOf 1).ancestors selected).card ≤ MAX_ANCESTOR_DEPTH - 1 := by
  have hacyclic := fanOf_acyclic (.inl rfl)
  refine ⟨.inl ⟨[], _, _, rfl⟩,
    (UnconfirmedAncestry.chosen_within_limit_iff (fanOf_consistent (.inl rfl)) hacyclic).1.mpr ?_⟩
  exact (Finset.card_le_card (UnconfirmedAncestry.availableAncestors_subset hacyclic)).trans
    (by decide)

open Sample in
/-- The change outputs of 25 unrelated in-flight withdrawals have depth 1 each. The leader selects
them all, a validator accepts them, and the transaction has 25 unconfirmed ancestors. -/
theorem chosen_exceeds_limit : fan.Consistent ∧ Acyclic fan.parents ∧
    (∃ utxos ancestors, checkSelectedInputs fanChange fan.utxoRecords fan.withdrawalTxns [] =
      .passed utxos ancestors) ∧
    (∃ commitment, fanLeader.buildWithdrawalTxCommitment ((List.range 3).map fanRequest) [] =
      .ok commitment ∧ commitment.selectedUtxos = fanChange) ∧
    MAX_ANCESTOR_DEPTH - 1 < (fan.ancestors fanChange).card := by
  refine ⟨fan_consistent, fan_acyclic, ?_, fan_built, ?_⟩
  · obtain ⟨commitment, hbuilt, hselected⟩ := fan_built
    rw [UnconfirmedAncestry.checkSelectedInputs_iff fan_consistent fan_acyclic,
      ← UnconfirmedAncestry.chosen_iff fan_consistent fan_acyclic]
    exact .inr ⟨fanLeader, _, _, commitment, rfl, hbuilt, hselected⟩
  · have hsub : (Finset.range 25).map (addLeftEmbedding 100) ⊆ fan.ancestors fanChange := by
      intro v hv
      obtain ⟨i, hi, rfl⟩ := Finset.mem_map.mp hv
      have hi := Finset.mem_range.mp hi
      exact UnconfirmedAncestry.mem_ancestors.mpr
        ⟨⟨200 + i, 1⟩, List.mem_map.mpr ⟨i, List.mem_range.mpr hi, rfl⟩, fan_mem_ancestorsOf hi⟩
    calc MAX_ANCESTOR_DEPTH - 1 < ((Finset.range 25).map (addLeftEmbedding 100)).card := by
          rw [Finset.card_map, Finset.card_range]
          decide
      _ ≤ (fan.ancestors fanChange).card := Finset.card_le_card hsub

end HashiBridge.Node
