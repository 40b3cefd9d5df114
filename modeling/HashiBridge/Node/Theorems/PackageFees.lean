import HashiBridge.Node.Theorems.Selection

/-!
# Packages of unconfirmed ancestors

A plan and its unconfirmed ancestors together pay the fee rate, however the ancestors overlap. A
pending candidate that the filter refuses has no use in any plan where it is the only pending input.
-/

namespace HashiBridge.Node

open Lib HashiBridge.Core Btc

variable {utxos pool : List UtxoCandidate} {requests : List WithdrawalRequest}
  {params : CoinSelectionParams} {feeRate : FeeRate} {b : TransactionBuilder}
  {result : CoinSelectionResult}

/-! ## Ancestors counted once -/

theorem firstById_nodup (seen : List Address) (as : List AncestorTx) :
    ((firstById seen as).map AncestorTx.id).Nodup ∧ ∀ a ∈ firstById seen as, a.id ∉ seen := by
  induction as generalizing seen with
  | nil => simp [firstById]
  | cons a as ih =>
      unfold firstById
      split_ifs with hseen
      · exact ih seen
      · obtain ⟨hnodup, hfresh⟩ := ih (a.id :: seen)
        constructor
        · rw [List.map_cons, List.nodup_cons]
          refine ⟨fun hmem => ?_, hnodup⟩
          obtain ⟨a', ha', hid⟩ := List.mem_map.mp hmem
          exact hfresh a' ha' (hid ▸ List.mem_cons_self)
        · rintro a' (_ | ⟨_, ha'⟩)
          · exact hseen
          · exact fun hmem => hfresh a' ha' (List.mem_cons_of_mem _ hmem)

theorem exists_firstById {seen : List Address} {as : List AncestorTx} {a : AncestorTx}
    (ha : a ∈ as) (hseen : a.id ∉ seen) : ∃ a' ∈ firstById seen as, a'.id = a.id := by
  induction as generalizing seen with
  | nil => cases ha
  | cons first as ih =>
      unfold firstById
      by_cases hid : a.id = first.id
      · rw [if_neg (hid ▸ hseen)]
        exact ⟨first, List.mem_cons_self, hid.symm⟩
      · have ha' : a ∈ as := by
          rcases List.mem_cons.mp ha with rfl | ha'
          · exact absurd rfl hid
          · exact ha'
        split_ifs
        · exact ih ha' hseen
        · have hseen' : a.id ∉ first.id :: seen := by simpa [hid] using hseen
          obtain ⟨a', hmem, heq⟩ := ih ha' hseen'
          exact ⟨a', List.mem_cons_of_mem _ hmem, heq⟩

def Draft.AncestorsAgree (d : Draft) : Prop :=
  ∀ a ∈ d.zeroConf, ∀ a' ∈ d.zeroConf, a.id = a'.id → a = a'

theorem Draft.AncestorsAgree.sum_ancestors {d : Draft} (h : d.AncestorsAgree)
    (f : AncestorTx → UInt64) :
    valueSum (d.ancestors.map f) = ∑ a ∈ d.zeroConf.toFinset, (f a).toNat := by
  have hnodup : d.ancestors.Nodup := (firstById_nodup [] d.zeroConf).1.of_map
  have hsame : d.ancestors.toFinset = d.zeroConf.toFinset := by
    ext a
    simp only [List.mem_toFinset]
    constructor
    · exact fun ha => (firstById_sublist [] d.zeroConf).subset ha
    · intro ha
      obtain ⟨a', ha', hid⟩ := exists_firstById ha (List.not_mem_nil (a := a.id))
      have hmem := (firstById_sublist [] d.zeroConf).subset ha'
      rwa [← h a' hmem a ha hid]
  rw [← hsame, List.sum_toFinset _ hnodup, valueSum, List.map_map]
  rfl

/-! ## The fee rate of a package -/

theorem Draft.le_feeOf (d : Draft) (weight : Nat) :
    d.feeRate * weight ≤ 1000 * d.feeOf weight := by
  rw [feeOf]
  omega

theorem Draft.package_le (d : Draft) :
    d.feeRate * (d.weight + d.ancestorWeight) ≤ 1000 * (d.requiredFee + d.ancestorFee) := by
  have hown := d.le_feeOf d.weight
  have hancestors := d.le_feeOf d.ancestorWeight
  rw [Nat.mul_add, requiredFee, deficit]
  omega

/-- **The package pays the fee rate.** With the distinct unconfirmed ancestors of the selected
inputs, each counted once, a plan pays at least the effective rate for all their weight. -/
theorem package_pays_fee_rate (hfits : (batchDraft requests params feeRate utxos).Fits)
    (hok : selectCoins utxos requests params feeRate = .ok result)
    (hagree : (batchDraft requests params feeRate result.inputs).AncestorsAgree) :
    let d := batchDraft requests params feeRate result.inputs
    let ancestors := d.zeroConf.toFinset
    (effectiveFeeRate params feeRate).toNat * (d.weight + ∑ a ∈ ancestors, a.txWeight.toNat) ≤
      1000 * (result.fee.toNat + ∑ a ∈ ancestors, a.txFee.toNat) := by
  intro d ancestors
  obtain ⟨pool, b, _, hbase, hpasses, _, rfl⟩ := selectCoins_eq_ok hfits hok
  have hdraft : d = (b.withInputs (Base.finalInputs pool b)).draft := by
    rw [TransactionBuilder.withInputs_draft, hbase.draft_eq]
    rfl
  have hlast : (b.withInputs (Base.finalInputs pool b)).draft.Fits :=
    (hbase.fits hfits).mono Base.finalInputs_subperm
  have hfee := (TransactionBuilder.fee_bounds hlast (hbase.final_admits hpasses).2.1
    hbase.some_outputs).1
  have hweight : d.ancestorWeight = ∑ a ∈ ancestors, a.txWeight.toNat :=
    hagree.sum_ancestors AncestorTx.txWeight
  have hpaid : d.ancestorFee = ∑ a ∈ ancestors, a.txFee.toNat :=
    hagree.sum_ancestors AncestorTx.txFee
  rw [← hweight, ← hpaid]
  refine d.package_le.trans (Nat.mul_le_mul_left 1000 (Nat.add_le_add_right ?_ _))
  rw [hdraft]
  exact hfee

namespace Sample

def parent : AncestorTx where
  id := 50
  confirmations := 0
  txWeight := 800
  txFee := 10

def pendingUtxo (vout : Nat) (amount : UInt64) (chain : List AncestorTx) : UtxoCandidate :=
  { confirmedUtxo vout amount with status := .pending chain }

def siblings : List UtxoCandidate := [pendingUtxo 0 40000 [parent], pendingUtxo 1 50000 [parent]]

theorem siblings_fits : (batchDraft asked settings 1000 siblings).Fits :=
  ⟨by decide +kernel, by decide +kernel, by decide +kernel, by decide +kernel, by decide +kernel⟩

theorem siblings_agree (inputs : List UtxoCandidate) (h : inputs ⊆ siblings) :
    (batchDraft asked settings 1000 inputs).AncestorsAgree := by
  have hparent : ∀ a ∈ (batchDraft asked settings 1000 inputs).zeroConf, a = parent := by
    intro a ha
    simp only [Draft.zeroConf, List.mem_filter, List.mem_flatMap] at ha
    obtain ⟨⟨u, hu, ha⟩, _⟩ := ha
    have hu' := h hu
    simp only [siblings, List.mem_cons, List.not_mem_nil, or_false] at hu'
    rcases hu' with rfl | rfl <;> simpa [pendingUtxo, UtxoStatus.chain] using ha
  intro a ha a' ha' _
  rw [hparent a ha, hparent a' ha']

end Sample

open Sample in
theorem package_pays_fee_rate_of_siblings : ∃ result,
    selectCoins siblings asked settings 1000 = .ok result ∧
      let d := batchDraft asked settings 1000 result.inputs
      let ancestors := d.zeroConf.toFinset
      1000 * (d.weight + ∑ a ∈ ancestors, a.txWeight.toNat) ≤
        1000 * (result.fee.toNat + ∑ a ∈ ancestors, a.txFee.toNat) := by
  obtain ⟨result, hok⟩ := exists_of_isOk
    (show (selectCoins siblings asked settings 1000).isOk = true by decide +kernel)
  exact ⟨result, hok, package_pays_fee_rate siblings_fits hok
    (siblings_agree _ (selectCoins_subset hok))⟩

namespace Sample

def heavy (id : Address) : AncestorTx where
  id := id
  confirmations := 0
  txWeight := 2 ^ 63
  txFee := 0

def heavyChild : List UtxoCandidate := [pendingUtxo 0 90000 [heavy 50, heavy 51]]

def heavyPlan : CoinSelectionResult where
  inputs := heavyChild
  withdrawalOutputs := [⟨2, List.replicate 32 0, 29505⟩, ⟨1, List.replicate 32 0, 39505⟩]
  change := some 20000
  fee := 990
  selectedRequests := [ask 2 30000 3, ask 1 40000 5]

end Sample

open Sample in
/-- The weights of two ancestors wrap to 0, so nothing is paid for them. -/
theorem package_underpaid_on_wrap :
    selectCoins heavyChild asked settings 1000 = .ok heavyPlan ∧
      let d := batchDraft asked settings 1000 heavyPlan.inputs
      let ancestors := d.zeroConf.toFinset
      1000 * (heavyPlan.fee.toNat + ∑ a ∈ ancestors, a.txFee.toNat) <
        1000 * (d.weight + ∑ a ∈ ancestors, a.txWeight.toNat) := by
  constructor <;> decide +kernel

/-! ## What the filter discards -/

section Monotone

variable {d : Draft} {inputs : List UtxoCandidate}

/-- More inputs can add a change output but never remove one. -/
theorem Draft.weight_mono (h : inputs.Subperm d.inputs) :
    (d.withInputs inputs).weight ≤ d.weight := by
  have htotal : (d.withInputs inputs).inputTotal ≤ d.inputTotal := valueSum_map_le_of_subperm _ h
  have hchange : (d.withInputs inputs).change ≤ d.change := Nat.sub_le_sub_right htotal _
  have hinputs := weightWith_mono h (0 < (d.withInputs inputs).change)
  refine hinputs.trans ?_
  rw [Draft.weight]
  by_cases hpositive : 0 < (d.withInputs inputs).change
  · rw [decide_eq_true hpositive, decide_eq_true (Nat.lt_of_lt_of_le hpositive hchange)]
  · rw [decide_eq_false hpositive]
    rcases Nat.eq_zero_or_pos d.change with hzero | hpos
    · rw [hzero]
      rfl
    · rw [decide_eq_true hpos]
      exact d.weightWith_le false

theorem Draft.feeOf_mono {m n : Nat} (h : m ≤ n) : d.feeOf m ≤ d.feeOf n :=
  Nat.div_le_div_right (Nat.add_le_add_right (Nat.mul_le_mul_left _ h) _)

theorem Draft.feesPass_of_more (h : inputs.Subperm d.inputs)
    (hancestors : (d.withInputs inputs).zeroConf = d.zeroConf) (hsome : d.requests ≠ [])
    (hpass : d.FeesPass) : (d.withInputs inputs).FeesPass := by
  have hdeficit : (d.withInputs inputs).deficit = d.deficit := by
    simp only [deficit, ancestorWeight, ancestorFee, ancestors, hancestors]
    rfl
  have hrequired : (d.withInputs inputs).requiredFee ≤ d.requiredFee := by
    rw [requiredFee, requiredFee, hdeficit]
    exact Nat.add_le_add_right (feeOf_mono (weight_mono h)) _
  have hpos : 0 < d.requests.length := List.length_pos_iff.mpr hsome
  have hshare : (d.withInputs inputs).share ≤ d.share := by
    rw [share, share, withInputs_requests, ceilDiv_le_iff_le_smul hpos]
    exact hrequired.trans ((ceilDiv_le_iff_le_smul hpos).mp le_rfl)
  refine ⟨hshare.trans hpass.1, fun r hr => ?_⟩
  have hr' := hpass.2 r hr
  omega

end Monotone

theorem flatMap_chain_of_confirmed {inputs extras : List UtxoCandidate} {u : UtxoCandidate}
    (hextras : ∀ v ∈ extras, v.status.isConfirmed = true) (h : inputs.Perm (u :: extras)) :
    (inputs.flatMap fun v => v.status.chain) = u.status.chain := by
  have hchain : ∀ v : UtxoCandidate, v.status.isConfirmed = true → v.status.chain = [] := by
    intro v hv
    cases hstatus : v.status with
    | confirmed => rfl
    | pending chain =>
        rw [hstatus] at hv
        cases hv
  obtain ⟨before, after, rfl⟩ := List.append_of_mem (h.symm.subset List.mem_cons_self)
  have hrest : (before ++ after).Perm extras :=
    (List.perm_middle.symm.trans h).cons_inv
  have hnone : ∀ v ∈ before ++ after, v.status.chain = [] :=
    fun v hv => hchain v (hextras v (hrest.subset hv))
  have hbefore : (before.flatMap fun v => v.status.chain) = [] :=
    List.flatMap_eq_nil_iff.mpr fun v hv => hnone v (List.mem_append_left after hv)
  have hafter : (after.flatMap fun v => v.status.chain) = [] :=
    List.flatMap_eq_nil_iff.mpr fun v hv => hnone v (List.mem_append_right before hv)
  rw [List.flatMap_append, List.flatMap_cons, hbefore, hafter, List.nil_append, List.append_nil]

theorem firstById_of_nodup {seen : List Address} {as : List AncestorTx}
    (hnodup : (as.map AncestorTx.id).Nodup) (hseen : ∀ a ∈ as, a.id ∉ seen) :
    firstById seen as = as := by
  induction as generalizing seen with
  | nil => rfl
  | cons a as ih =>
      rw [List.map_cons, List.nodup_cons] at hnodup
      rw [firstById, if_neg (hseen a List.mem_cons_self), ih hnodup.2]
      intro a' ha' hmem
      rcases List.mem_cons.mp hmem with heq | hmem
      · exact hnodup.1 (heq ▸ List.mem_map_of_mem ha')
      · exact hseen a' (List.mem_cons_of_mem a ha') hmem

/-- The filter refuses a candidate for its package weight or for its fee. -/
def Refuses (requests : List WithdrawalRequest) (params : CoinSelectionParams) (feeRate : FeeRate)
    (u : UtxoCandidate) : Prop :=
  let builder := batchBuilder requests params feeRate
  (∃ weight, builder.weightWithCandidate u builder.totalRequested = .ok weight ∧
    ¬ u.status.unconfirmedAncestorWeight + weight ≤ params.maxAncestorPackageWeight) ∨
  builder.candidateFitsFeeBudget u builder.totalRequested = .ok false

/-- **The filter discards nothing usable.** A transaction that spends a refused candidate with
confirmed inputs, and covers the requests, fails a check. -/
theorem refused_candidate_unusable {u : UtxoCandidate} {extras inputs : List UtxoCandidate}
    (hrequests : requests ≠ []) (hmax : params.maxWithdrawalRequests ≠ 0)
    (hchain : (u.status.chain.map AncestorTx.id).Nodup) (hrefused : Refuses requests params feeRate u)
    (hextras : ∀ v ∈ extras, v.status.isConfirmed = true) (hinputs : inputs.Perm (u :: extras))
    (hfits : (batchDraft requests params feeRate inputs).Fits)
    (hfunded : TransactionBuilder.computeRawChange
      { batchBuilder requests params feeRate with inputs } = .ok b) :
    ¬ (b.checkFees = .ok () ∧ b.checkWeight = .ok ()) := by
  rintro ⟨hfees, hweight⟩
  set builder := batchBuilder requests params feeRate with hbuilder
  have hsome : builder.outputs ≠ [] := selectRequests_ne_nil hrequests hmax
  have hdraft : (builder.withInputs inputs).draft = batchDraft requests params feeRate inputs := by
    rw [TransactionBuilder.withInputs_draft, batchBuilder_draft]
    rfl
  obtain rfl := TransactionBuilder.computeRawChange_withInputs (hdraft ▸ hfits) hfunded
  have hall : (builder.withInputs inputs).draft.Fits := hdraft ▸ hfits
  have hcounted := builder.withInputs_counted inputs
  rw [(TransactionBuilder.checkFees_decides hall hcounted hsome).eq_ok] at hfees
  rw [(TransactionBuilder.checkWeight_decides hall hcounted).eq_ok] at hweight
  have hsub : [u].Subperm inputs :=
    (List.singleton_sublist.mpr (hinputs.symm.subset List.mem_cons_self)).subperm
  have halone : (builder.draft.withInputs [u]).Fits := hall.mono hsub
  -- the candidate alone brings every ancestor
  have hancestors : (builder.draft.withInputs [u]).zeroConf =
      (builder.withInputs inputs).draft.zeroConf := by
    have hflat := flatMap_chain_of_confirmed hextras hinputs
    rw [Draft.zeroConf, Draft.zeroConf, TransactionBuilder.withInputs_draft,
      Draft.withInputs_inputs, Draft.withInputs_inputs, hflat, List.flatMap_singleton]
  rcases hrefused with ⟨weight, hcandidate, hheavy⟩ | hbudget
  · rw [TransactionBuilder.weightWithCandidate_eq halone] at hcandidate
    cases hcandidate
    rw [TransactionBuilder.chainWeight_eq builder.draft u, ← UInt64.ofNat_add,
      ofNat_le_iff (TransactionBuilder.listedWeight_lt halone)] at hheavy
    have hmore : (builder.draft.withInputs [u]).weight ≤ (builder.withInputs inputs).draft.weight :=
      Draft.weight_mono (d := (builder.withInputs inputs).draft) hsub
    have hdistinct : firstById [] (builder.withInputs inputs).draft.zeroConf =
        (builder.withInputs inputs).draft.zeroConf := by
      refine firstById_of_nodup ?_ (by simp)
      rw [← hancestors, Draft.zeroConf, Draft.withInputs_inputs, List.flatMap_singleton]
      exact hchain.sublist (List.filter_sublist.map _)
    have hpackage := hweight.2
    rw [Draft.packageWeight, Draft.ancestorWeight, Draft.ancestors, hdistinct, ← hancestors] at hpackage
    have hlimit : (builder.withInputs inputs).draft.params.maxAncestorPackageWeight.toNat =
      params.maxAncestorPackageWeight.toNat := rfl
    omega
  · rw [TransactionBuilder.candidateFitsFeeBudget_eq halone hsome] at hbudget
    have hnot := of_decide_eq_false (Except.ok.inj hbudget)
    have hrequested : (builder.withInputs inputs).draft.requests ≠ [] :=
      mt List.map_eq_nil_iff.mp hsome
    exact hnot (.inr (Draft.feesPass_of_more (d := (builder.withInputs inputs).draft) hsub
      hancestors hrequested hfees))

namespace Sample

def bulky : UtxoCandidate := { pendingUtxo 0 90000 [parent] with spendPath := .custom 500000 }

theorem bulky_fits : (batchDraft asked settings 1000 [bulky, confirmedUtxo 1 1000]).Fits :=
  ⟨by decide +kernel, by decide +kernel, by decide +kernel, by decide +kernel, by decide +kernel⟩

theorem bulky_refused : Refuses asked settings 1000 bulky :=
  .inl ⟨500722, by decide +kernel, by decide +kernel⟩

def bulkyDraft : TransactionBuilder :=
  (batchBuilder asked settings 1000).withInputs [bulky, confirmedUtxo 1 1000]

end Sample

open Sample in
theorem refused_candidate_unusable_of_bulky :
    ¬ (bulkyDraft.checkFees = .ok () ∧ bulkyDraft.checkWeight = .ok ()) :=
  refused_candidate_unusable (by decide) (by decide) (by decide) bulky_refused
    (fun v (hv : v ∈ [confirmedUtxo 1 1000]) => by cases hv with
      | head => rfl
      | tail _ hv => cases hv)
    (List.Perm.refl _) bulky_fits (by decide +kernel)

namespace Sample

/-- An input whose weight brings the sum of the weights past the end of the range. -/
def wrapping : UtxoCandidate :=
  { confirmedUtxo 1 1000 with spendPath := .custom (2 ^ 64 - 500164) }

def wrapped : TransactionBuilder :=
  (batchBuilder asked settings 1000).withInputs [bulky, wrapping]

end Sample

open Sample in
/-- The refused candidate passes both checks with an input that makes the weight wrap. -/
theorem refused_candidate_wraps : Refuses asked settings 1000 bulky ∧
    TransactionBuilder.computeRawChange
      { batchBuilder asked settings 1000 with inputs := [bulky, wrapping] } = .ok wrapped ∧
    wrapped.checkFees = .ok () ∧ wrapped.checkWeight = .ok () :=
  ⟨bulky_refused, by decide +kernel, by decide +kernel, by decide +kernel⟩

end HashiBridge.Node
