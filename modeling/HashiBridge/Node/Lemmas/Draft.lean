import HashiBridge.Lib.Greedy
import HashiBridge.Node.Draft

/-!
# The builder computes its draft

As long as the sums of the draft fit, no computation of the builder panics, and its weight, fees and
checks are those of the draft.
-/

namespace HashiBridge.Node

open Lib HashiBridge.Core Btc

/-! ## Drafts with fewer inputs -/

theorem firstById_sublist (seen : List Address) (as : List AncestorTx) :
    (firstById seen as).Sublist as := by
  induction as generalizing seen with
  | nil => exact List.Sublist.refl []
  | cons a as ih =>
      unfold firstById
      split_ifs
      · exact (ih seen).cons a
      · exact (ih (a.id :: seen)).cons_cons a

theorem varintWeight_mono {m n : Nat} (h : m ≤ n) :
    (varintWeight m).toNat ≤ (varintWeight n).toNat := by
  unfold varintWeight
  split_ifs <;> first | omega | decide

theorem valueSum_map_le_of_subperm {α : Type} (f : α → UInt64) {xs ys : List α}
    (h : xs.Subperm ys) : valueSum (xs.map f) ≤ valueSum (ys.map f) := by
  simpa [valueSum, Function.comp_def] using sum_map_le_of_subperm (fun a => (f a).toNat) h

variable {inputs : List UtxoCandidate}

namespace Draft

variable {d : Draft}

theorem zeroConf_subperm (h : inputs.Subperm d.inputs) :
    (d.withInputs inputs).zeroConf.Subperm d.zeroConf := by
  obtain ⟨kept, hperm, hsub⟩ := h
  refine List.Subperm.filter _ ?_
  refine (hperm.symm.flatMap_right fun u => u.status.chain).subperm.trans ?_
  exact (hsub.flatMap fun u => u.status.chain).subperm

theorem weightWith_mono (h : inputs.Subperm d.inputs)
    (hasChange : Bool) :
    (d.withInputs inputs).weightWith hasChange ≤ d.weightWith hasChange := by
  have hcount := varintWeight_mono h.length_le
  have hinputs : (d.withInputs inputs).inputWeight ≤ d.inputWeight :=
    sum_map_le_of_subperm _ h
  have houtputs : (d.withInputs inputs).outputWeight = d.outputWeight := rfl
  simp only [weightWith, houtputs, withInputs_inputs, withInputs_requests, withInputs_params]
  omega

theorem weightWith_le (d : Draft) (hasChange : Bool) : d.weightWith hasChange ≤ d.weightWith true := by
  cases hasChange with
  | true => exact le_rfl
  | false =>
      have hcount := varintWeight_mono (Nat.add_le_add_left (Nat.zero_le 1) d.requests.length)
      simp only [weightWith, if_true, Bool.false_eq_true, if_false]
      omega

theorem grossWeight_mono (h : inputs.Subperm d.inputs) :
    (d.withInputs inputs).grossWeight ≤ d.grossWeight :=
  Nat.add_le_add (weightWith_mono h true) (valueSum_map_le_of_subperm _ (zeroConf_subperm h))

theorem Fits.mono (hfits : d.Fits) (h : inputs.Subperm d.inputs) :
    (d.withInputs inputs).Fits where
  amounts := Nat.lt_of_le_of_lt (valueSum_map_le_of_subperm _ h) hfits.amounts
  requested := hfits.requested
  ancestorFees :=
    Nat.lt_of_le_of_lt (valueSum_map_le_of_subperm _ (zeroConf_subperm h)) hfits.ancestorFees
  weight := Nat.lt_of_le_of_lt (grossWeight_mono h) hfits.weight
  fee := Nat.lt_of_le_of_lt
    (Nat.add_le_add_right (Nat.mul_le_mul_left d.feeRate (grossWeight_mono h)) 999) hfits.fee

/-! ## Bounds of a draft that fits -/

theorem ancestorWeight_le (d : Draft) :
    d.ancestorWeight ≤ valueSum (d.zeroConf.map AncestorTx.txWeight) :=
  valueSum_map_le_of_subperm _ (firstById_sublist [] d.zeroConf).subperm

theorem ancestorFee_le (d : Draft) :
    d.ancestorFee ≤ valueSum (d.zeroConf.map AncestorTx.txFee) :=
  valueSum_map_le_of_subperm _ (firstById_sublist [] d.zeroConf).subperm

theorem packageWeight_le (d : Draft) : d.packageWeight ≤ d.grossWeight :=
  Nat.add_le_add (d.weightWith_le _) d.ancestorWeight_le

namespace Fits

theorem packageWeight_lt (hfits : d.Fits) : d.packageWeight < U64_SIZE :=
  Nat.lt_of_le_of_lt d.packageWeight_le hfits.weight

theorem weight_lt (hfits : d.Fits) : d.weight < U64_SIZE :=
  Nat.lt_of_le_of_lt (Nat.le_add_right _ _) hfits.packageWeight_lt

theorem ancestorWeight_lt (hfits : d.Fits) : d.ancestorWeight < U64_SIZE :=
  Nat.lt_of_le_of_lt (Nat.le_add_left _ _) hfits.packageWeight_lt

theorem ancestorFee_lt (hfits : d.Fits) : d.ancestorFee < U64_SIZE :=
  Nat.lt_of_le_of_lt d.ancestorFee_le hfits.ancestorFees

theorem change_lt (hfits : d.Fits) : d.change < U64_SIZE :=
  Nat.lt_of_le_of_lt (Nat.sub_le _ _) hfits.amounts

theorem package_fee_lt (hfits : d.Fits) :
    d.feeRate * d.weight + d.feeRate * d.ancestorWeight + 999 < U64_SIZE := by
  have hle := Nat.mul_le_mul_left d.feeRate d.packageWeight_le
  rw [packageWeight, Nat.mul_add] at hle
  have hfee := hfits.fee
  omega

theorem requiredFee_lt (hfits : d.Fits) : d.requiredFee + 546 < U64_SIZE := by
  have hfee := hfits.package_fee_lt
  simp only [requiredFee, deficit, feeOf, U64_SIZE] at hfee ⊢
  omega

theorem inputWeight_lt (hfits : d.Fits) {u : UtxoCandidate} (hu : u ∈ d.inputs) :
    TXIN_BASE_WEIGHT.toNat + u.spendPath.satisfactionWeight.toNat < U64_SIZE := by
  have hle : TXIN_BASE_WEIGHT.toNat + u.spendPath.satisfactionWeight.toNat ≤ d.inputWeight :=
    List.single_le_sum (by simp) _ (List.mem_map_of_mem hu)
  have hweight := hfits.weight
  simp only [grossWeight, weightWith] at hweight
  omega

theorem requests_length_lt (hfits : d.Fits) : d.requests.length < U64_SIZE := by
  have hle : d.requests.length ≤ d.outputWeight := by
    have hone : ∀ w ∈ (d.requests.map outputWeightForRecipient).map UInt64.toNat, 1 ≤ w := by
      intro w hw
      simp only [List.map_map, List.mem_map, Function.comp_apply] at hw
      obtain ⟨r, _, rfl⟩ := hw
      unfold outputWeightForRecipient
      split <;> decide
    simpa [outputWeight, valueSum] using List.length_le_sum_of_one_le _ hone
  have hweight := hfits.weight
  simp only [grossWeight, weightWith] at hweight
  omega

end Fits

end Draft

/-! ## The computations of the builder -/

theorem feeForWeight_eq {feeRate : FeeRate} {weight : Nat} (hweight : weight < U64_SIZE)
    (hfee : feeRate.toNat * weight + 999 < U64_SIZE) :
    feeForWeight feeRate (UInt64.ofNat weight) =
      .ok (UInt64.ofNat ((feeRate.toNat * weight + 999) / 1000)) := by
  simp only [feeForWeight, toNat_ofNat hweight, bind_eq_ok, require_eq_ok, pure_eq_ok]
  exact ⟨(), hfee, trivial⟩

theorem divCeil_ofNat {x n : Nat} (hx : x < U64_SIZE) (hn : n < U64_SIZE) (hpos : 0 < n) :
    divCeil (UInt64.ofNat x) (UInt64.ofNat n) = UInt64.ofNat (x ⌈/⌉ n) := by
  have hmod : UInt64.ofNat x % UInt64.ofNat n = UInt64.ofNat (x % n) :=
    (UInt64.ofNat_mod hx hn).symm
  have hzero : UInt64.ofNat (x % n) = 0 ↔ x % n = 0 := by
    rw [← UInt64.toNat_inj, toNat_ofNat ((Nat.mod_le x n).trans_lt hx)]
    rfl
  rw [divCeil, hmod, ← UInt64.ofNat_div hx hn, Nat.ceilDiv_eq_add_pred_div]
  have hsplit := Nat.div_add_mod x n
  split_ifs with h
  · rw [hzero] at h
    congr 1
    rw [h, Nat.add_zero] at hsplit
    rw [← hsplit, Nat.mul_div_cancel_left _ hpos, Nat.add_sub_assoc hpos, Nat.mul_add_div hpos,
      Nat.div_eq_of_lt (Nat.sub_lt hpos Nat.one_pos), Nat.add_zero]
  · rw [hzero] at h
    have hround : (x + n - 1) / n = x / n + 1 := by
      have hlt := Nat.mod_lt x hpos
      rw [Nat.div_eq_iff hpos]
      constructor
      · rw [Nat.add_mul, Nat.one_mul, Nat.mul_comm]
        omega
      · rw [Nat.add_mul, Nat.one_mul, Nat.mul_comm]
        omega
    rw [hround, UInt64.ofNat_add]
    rfl

namespace TransactionBuilder

variable {b : TransactionBuilder}

def Counted (b : TransactionBuilder) : Prop := b.rawChange = some (UInt64.ofNat b.draft.change)

theorem totalRequested_eq (b : TransactionBuilder) :
    b.totalRequested = UInt64.ofNat b.draft.requested := by
  rw [totalRequested, sum_eq_ofNat, Draft.requested, draft, List.map_map]
  rfl

theorem inputTotal_eq (b : TransactionBuilder) :
    b.inputTotal = UInt64.ofNat b.draft.inputTotal := sum_eq_ofNat _

theorem weightFor_eq (b : TransactionBuilder) (hasChange : Bool) :
    b.weightFor b.inputs.length (UInt64.ofNat b.draft.inputWeight) hasChange =
      UInt64.ofNat (b.draft.weightWith hasChange) := by
  have houtputs : (b.outputs.map fun o => outputWeightForRecipient o.request).sum =
      UInt64.ofNat b.draft.outputWeight := by
    rw [sum_eq_ofNat, Draft.outputWeight, draft, List.map_map]
    rfl
  have hlength : b.draft.requests.length = b.outputs.length := List.length_map _
  simp only [weightFor, Draft.weightWith, houtputs, hlength, UInt64.ofNat_add, UInt64.ofNat_toNat]
  cases hasChange with
  | true =>
      simp only [if_true, outputWeightForScript, UInt64.ofNat_mul, UInt64.ofNat_add]
      rfl
  | false => rfl

theorem inputWeights_eq (hfits : b.draft.Fits) :
    ∃ weights, b.inputs.mapM (fun u => u.spendPath.inputWeight) = .ok weights ∧
      weights.sum = UInt64.ofNat b.draft.inputWeight := by
  have hall : ∀ u ∈ b.inputs, u.spendPath.inputWeight =
      .ok (TXIN_BASE_WEIGHT + u.spendPath.satisfactionWeight) := by
    intro u hu
    simp only [SpendPath.inputWeight, bind_eq_ok, require_eq_ok, pure_eq_ok]
    exact ⟨(), hfits.inputWeight_lt hu, trivial⟩
  refine ⟨b.inputs.map fun u => TXIN_BASE_WEIGHT + u.spendPath.satisfactionWeight, ?_, ?_⟩
  · rw [mapM_eq_ok, List.forall₂_map_right_iff, List.forall₂_same]
    exact hall
  · simp only [Draft.inputWeight, draft]
    induction b.inputs with
    | nil => rfl
    | cons u us ih =>
        simp only [List.map_cons, List.sum_cons, ih, UInt64.ofNat_add, UInt64.ofNat_toNat]

theorem hasChange_eq (hfits : b.draft.Fits) (hcounted : b.Counted) :
    b.rawChange.all (0 < ·) = decide (0 < b.draft.change) := by
  rw [hcounted, Option.all_some, decide_eq_decide, lt_ofNat_iff hfits.change_lt]
  rfl

theorem weight_eq (hfits : b.draft.Fits) (hcounted : b.Counted) :
    b.weight = .ok (UInt64.ofNat b.draft.weight) := by
  obtain ⟨weights, hweights, hsum⟩ := inputWeights_eq hfits
  simp only [weight, bind_eq_ok, pure_eq_ok]
  refine ⟨weights, hweights, ?_⟩
  rw [hsum, hasChange_eq hfits hcounted, weightFor_eq]
  rfl

theorem unconfirmedAncestorWeight_eq (b : TransactionBuilder) :
    b.unconfirmedAncestorWeight = UInt64.ofNat b.draft.ancestorWeight := sum_eq_ofNat _

theorem packageWeight_eq (b : TransactionBuilder) :
    UInt64.ofNat b.draft.weight + UInt64.ofNat b.draft.ancestorWeight =
      UInt64.ofNat b.draft.packageWeight := (UInt64.ofNat_add _ _).symm

theorem cpfpDeficit_eq (hfits : b.draft.Fits) :
    b.cpfpDeficit = .ok (UInt64.ofNat b.draft.deficit) := by
  have hfee := hfits.package_fee_lt
  have hneeded : feeForWeight b.feeRate b.unconfirmedAncestorWeight =
      .ok (UInt64.ofNat (b.draft.feeOf b.draft.ancestorWeight)) := by
    rw [unconfirmedAncestorWeight_eq]
    refine feeForWeight_eq hfits.ancestorWeight_lt ?_
    change b.draft.feeRate * b.draft.ancestorWeight + 999 < U64_SIZE
    omega
  have hpaid : (b.unconfirmedAncestors.map AncestorTx.txFee).sum =
      UInt64.ofNat b.draft.ancestorFee := sum_eq_ofNat _
  have hlt : b.draft.feeOf b.draft.ancestorWeight < U64_SIZE := by
    rw [Draft.feeOf]
    omega
  simp only [cpfpDeficit, bind_eq_ok, pure_eq_ok]
  refine ⟨_, hneeded, ?_⟩
  rw [hpaid, Draft.deficit]
  split_ifs with hle
  · rw [ofNat_le_iff hfits.ancestorFee_lt, toNat_ofNat hlt] at hle
    rw [UInt64.ofNat_sub hle]
  · rw [ofNat_le_iff hfits.ancestorFee_lt, toNat_ofNat hlt] at hle
    rw [Nat.sub_eq_zero_of_le (Nat.le_of_not_le hle)]
    rfl

theorem ownFee_eq (hfits : b.draft.Fits) :
    feeForWeight b.feeRate (UInt64.ofNat b.draft.weight) =
      .ok (UInt64.ofNat (b.draft.feeOf b.draft.weight)) := by
  refine feeForWeight_eq hfits.weight_lt ?_
  have hfee := hfits.package_fee_lt
  change b.draft.feeRate * b.draft.weight + 999 < U64_SIZE
  omega

theorem requiredFee_eq (hfits : b.draft.Fits) (hcounted : b.Counted) :
    b.requiredFee = .ok (UInt64.ofNat b.draft.requiredFee) := by
  simp only [requiredFee, bind_eq_ok, pure_eq_ok]
  exact ⟨_, weight_eq hfits hcounted, _, ownFee_eq hfits, _, cpfpDeficit_eq hfits,
    (UInt64.ofNat_add _ _).symm⟩

theorem shareOf_eq (hfits : b.draft.Fits) (hsome : b.outputs ≠ []) :
    b.shareOf (UInt64.ofNat b.draft.requiredFee) = UInt64.ofNat b.draft.share := by
  have hlength : b.draft.requests.length = b.outputs.length := List.length_map _
  have hcount := hfits.requests_length_lt
  have hfee := hfits.requiredFee_lt
  rw [hlength] at hcount
  rw [shareOf, divCeil_ofNat (by omega) hcount (List.length_pos_iff.mpr hsome), Draft.share,
    hlength]

theorem share_le_requiredFee (b : TransactionBuilder) :
    b.draft.share ≤ b.draft.requiredFee := by
  rcases Nat.eq_zero_or_pos b.draft.requests.length with hzero | hpos
  · simp [Draft.share, hzero]
  · rw [Draft.share, ceilDiv_le_iff_le_smul hpos]
    exact Nat.le_mul_of_pos_left _ hpos

end TransactionBuilder

/-! ## The checks of the builder -/

def CoinSelectionError.IsInsufficientFunds : CoinSelectionError → Prop
  | .insufficientFunds .. => True
  | _ => False

/-- A check that passes just when `p` holds, and returns an error otherwise. -/
def Decides (check : Fallible Unit) (p : Prop) : Prop :=
  p ∧ check = .ok () ∨ ¬ p ∧ ∃ e, ¬ e.IsInsufficientFunds ∧ check = .error (.returned e)

namespace Decides

variable {check rest : Fallible Unit} {p q : Prop}

theorem require [Decidable p] {e : CoinSelectionError} (he : ¬ e.IsInsufficientFunds) :
    Decides (Lib.require p (Failure.returned e)) p := by
  by_cases hp : p
  · exact .inl ⟨hp, require_pos hp⟩
  · exact .inr ⟨hp, e, he, require_eq_error.mpr ⟨hp, rfl⟩⟩

theorem congr (h : Decides check p) (hpq : p ↔ q) : Decides check q := by rwa [← hpq]

theorem andThen (h : Decides check p) (hrest : Decides rest q) :
    Decides (check >>= fun _ => rest) (p ∧ q) := by
  obtain ⟨hp, rfl⟩ | ⟨hp, e, he, rfl⟩ := h
  · obtain ⟨hq, rfl⟩ | ⟨hq, e, he, rfl⟩ := hrest
    · exact .inl ⟨⟨hp, hq⟩, rfl⟩
    · exact .inr ⟨fun h => hq h.2, e, he, rfl⟩
  · exact .inr ⟨fun h => hp h.1, e, he, rfl⟩

theorem forM {α : Type} {f : α → Fallible Unit} {p : α → Prop} (h : ∀ a, Decides (f a) (p a))
    (xs : List α) : Decides (xs.forM f) (∀ a ∈ xs, p a) := by
  induction xs with
  | nil => exact .inl ⟨by simp, rfl⟩
  | cons a xs ih =>
      rw [List.forM_eq_forM] at ih ⊢
      rw [List.forM_cons]
      exact ((h a).andThen ih).congr (by simp)

theorem eq_ok (h : Decides check p) : check = .ok () ↔ p := by
  obtain ⟨hp, rfl⟩ | ⟨hp, e, _, rfl⟩ := h
  · simp [hp]
  · simp [hp]

theorem isErr_eq [Decidable p] (h : Decides check p) : isErr check = .ok (!decide p) := by
  obtain ⟨hp, rfl⟩ | ⟨hp, e, _, rfl⟩ := h
  · simp [isErr, hp]
  · simp [isErr, hp]

end Decides

namespace TransactionBuilder

variable {b : TransactionBuilder}

theorem outputs_count_ne_zero (hfits : b.draft.Fits) (hsome : b.outputs ≠ []) :
    UInt64.ofNat b.outputs.length ≠ 0 := by
  intro hzero
  have hlength : b.draft.requests.length = b.outputs.length := List.length_map _
  have hcount := congrArg UInt64.toNat hzero
  rw [toNat_ofNat (hlength ▸ hfits.requests_length_lt)] at hcount
  exact hsome (List.length_eq_zero_iff.mp hcount)

theorem checkFees_decides (hfits : b.draft.Fits) (hcounted : b.Counted) (hsome : b.outputs ≠ []) :
    Decides b.checkFees b.draft.FeesPass := by
  have hrequired := hfits.requiredFee_lt
  have hle := b.share_le_requiredFee
  have hn := outputs_count_ne_zero hfits hsome
  have hshare : divCeil (UInt64.ofNat (b.draft.feeOf b.draft.weight) +
      UInt64.ofNat b.draft.deficit) (UInt64.ofNat b.outputs.length) =
        UInt64.ofNat b.draft.share := by
    rw [← UInt64.ofNat_add]
    exact shareOf_eq hfits hsome
  -- one output affords its share if its amount covers share and threshold
  have houtput : ∀ o : PendingOutput, UInt64.ofNat b.draft.share + o.dustThreshold ≤
      o.request.amount ↔
        b.draft.share + o.request.dustThreshold.toNat ≤ o.request.amount.toNat := by
    intro o
    have hdust : o.request.dustThreshold.toNat ≤ 330 := by
      unfold WithdrawalRequest.dustThreshold PendingOutput.dustThreshold
      split <;> decide
    have hword : UInt64.ofNat b.draft.share + o.dustThreshold =
        UInt64.ofNat (b.draft.share + o.request.dustThreshold.toNat) := by
      rw [UInt64.ofNat_add, UInt64.ofNat_toNat]
      rfl
    rw [hword, ofNat_le_iff (by omega)]
  simp only [checkFees, if_neg hn, weight_eq hfits hcounted, ownFee_eq hfits, cpfpDeficit_eq hfits,
    bind, Except.bind, hshare]
  refine ((Decides.require (by exact id)).andThen
    (Decides.forM (fun o => Decides.require (by exact id)) _)).congr ?_
  rw [ofNat_le_iff (by omega), Draft.FeesPass]
  simp only [houtput]
  refine and_congr Iff.rfl ?_
  simp only [show b.draft.requests = b.outputs.map PendingOutput.request from rfl,
    List.forall_mem_map]

theorem checkWeight_decides (hfits : b.draft.Fits) (hcounted : b.Counted) :
    Decides b.checkWeight b.draft.WeightPasses := by
  simp only [checkWeight, weight_eq hfits hcounted, unconfirmedAncestorWeight_eq, bind,
    Except.bind, packageWeight_eq]
  refine ((Decides.require (by exact id)).andThen (Decides.require (by exact id))).congr ?_
  rw [ofNat_le_iff hfits.weight_lt, ofNat_le_iff hfits.packageWeight_lt]
  rfl

theorem exceedsAnyLimit_eq (hfits : b.draft.Fits) (hcounted : b.Counted) (hsome : b.outputs ≠ []) :
    b.exceedsAnyLimit = .ok (!decide b.draft.Passes) := by
  have hweight : b.exceedsAnyWeightLimit = .ok (!decide b.draft.WeightPasses) := by
    simp only [exceedsAnyWeightLimit, weight_eq hfits hcounted, unconfirmedAncestorWeight_eq,
      bind_eq_ok, pure_eq_ok]
    refine ⟨_, rfl, ?_⟩
    rw [← decide_not, ← Bool.decide_or, decide_eq_decide, packageWeight_eq,
      lt_ofNat_iff hfits.weight_lt, lt_ofNat_iff hfits.packageWeight_lt, Draft.WeightPasses,
      not_and_or, Nat.not_le, Nat.not_le]
    rfl
  simp only [exceedsAnyLimit, (checkFees_decides hfits hcounted hsome).isErr_eq, bind, Except.bind]
  by_cases hfees : b.draft.FeesPass
  · simp [hfees, hweight, Draft.Passes]
  · simp [hfees, Draft.Passes, pure, Except.pure]

/-! ## The change and the fee split -/

def withInputs (b : TransactionBuilder) (inputs : List UtxoCandidate) : TransactionBuilder :=
  { b with inputs, rawChange := some (UInt64.ofNat (b.draft.withInputs inputs).change) }

theorem withInputs_counted (b : TransactionBuilder) (inputs : List UtxoCandidate) :
    (b.withInputs inputs).Counted := rfl

theorem withInputs_draft (b : TransactionBuilder) (inputs : List UtxoCandidate) :
    (b.withInputs inputs).draft = b.draft.withInputs inputs := rfl

theorem Counted.withInputs_self (h : b.Counted) : b.withInputs b.inputs = b := by
  obtain ⟨feeRate, params, inputs, outputs, rawChange, finalChange⟩ := b
  exact congrArg (TransactionBuilder.mk feeRate params inputs outputs · finalChange) h.symm

theorem computeRawChange_eq (hfits : b.draft.Fits)
    (hcovered : b.draft.requested ≤ b.draft.inputTotal) :
    b.computeRawChange = .ok (b.withInputs b.inputs) := by
  rw [computeRawChange_eq_ok, totalRequested_eq, inputTotal_eq, ofNat_le_iff hfits.requested,
    toNat_ofNat hfits.amounts]
  refine ⟨hcovered, ?_⟩
  rw [← UInt64.ofNat_sub hcovered]
  rfl

theorem computeRawChange_withInputs {b' : TransactionBuilder}
    (hfits : (b.withInputs inputs).draft.Fits)
    (h : computeRawChange { b with inputs } = .ok b') : b' = b.withInputs inputs := by
  have hfits' : TransactionBuilder.draft { b with inputs } |>.Fits := hfits
  have hcovered := (computeRawChange_eq_ok.mp h).1
  rw [totalRequested_eq, inputTotal_eq, ofNat_le_iff hfits'.requested,
    toNat_ofNat hfits'.amounts] at hcovered
  exact Except.ok.inj (h.symm.trans (computeRawChange_eq hfits' hcovered))

theorem requiredFee_le (hsome : b.outputs ≠ []) :
    b.draft.requiredFee ≤ b.draft.requests.length * b.draft.share := by
  have hpos : 0 < b.draft.requests.length := by
    rw [draft, List.length_map]
    exact List.length_pos_iff.mpr hsome
  exact (ceilDiv_le_iff_le_smul hpos).mp le_rfl

def nets (b : TransactionBuilder) : List UInt64 :=
  b.outputs.map fun o => o.request.amount - UInt64.ofNat b.draft.share

theorem valueSum_nets (hfits : b.draft.Fits) (hfees : b.draft.FeesPass) :
    valueSum b.nets + b.draft.requests.length * b.draft.share = b.draft.requested := by
  have hshare : (UInt64.ofNat b.draft.share).toNat = b.draft.share := by
    have hlt := hfits.requiredFee_lt
    have hle := b.share_le_requiredFee
    exact toNat_ofNat (by omega)
  set amounts := b.draft.requests.map WithdrawalRequest.amount with hamounts
  have hnets : b.nets = amounts.map (· - UInt64.ofNat b.draft.share) := by
    simp [nets, hamounts, draft, Function.comp_def]
  have hall : ∀ w ∈ amounts, (UInt64.ofNat b.draft.share).toNat ≤ w.toNat := by
    intro w hw
    obtain ⟨r, hr, rfl⟩ := List.mem_map.mp hw
    have hr' := hfees.2 r hr
    omega
  have hpaid := valueSum_map_sub hall
  rwa [← hnets, hshare, hamounts, List.length_map] at hpaid

theorem minerFee_eq (hfits : b.draft.Fits) (hfees : b.draft.FeesPass)
    (hcovered : b.draft.requested ≤ b.draft.inputTotal) :
    b.inputTotal - b.nets.sum - UInt64.ofNat b.draft.change =
      UInt64.ofNat (b.draft.requests.length * b.draft.share) := by
  have hpaid := valueSum_nets hfits hfees
  have hchange : b.draft.change = b.draft.inputTotal - b.draft.requested := rfl
  rw [sum_eq_ofNat, inputTotal_eq, ← UInt64.ofNat_sub (by omega), ← UInt64.ofNat_sub (by omega)]
  congr 1
  omega

theorem changePasses_iff (hfits : b.draft.Fits) : b.draft.ChangePasses ↔
    UInt64.ofNat b.draft.change = 0 ∨
      dustThresholdForChange b.params.changeScript ≤ UInt64.ofNat b.draft.change := by
  rw [← UInt64.toNat_inj, UInt64.le_iff_toNat_le, toNat_ofNat hfits.change_lt]
  rfl

theorem finalizeFees_of_changePasses (hfits : b.draft.Fits) (hcounted : b.Counted)
    (hsome : b.outputs ≠ []) (hcovered : b.draft.requested ≤ b.draft.inputTotal)
    (hfees : b.draft.FeesPass) (hchange : b.draft.ChangePasses) :
    ∃ b' fee, b.finalizeFees = .ok (b', fee) ∧ b'.result fee = b.draft.result := by
  have hshare := shareOf_eq hfits hsome
  have hnets : (b.outputs.map (b.charged (UInt64.ofNat b.draft.requiredFee))).map
      PendingOutput.netAmount = b.nets := by
    simp only [List.map_map, nets, Function.comp_def, charged, hshare]
  have hminer := minerFee_eq hfits hfees hcovered
  have hpays : UInt64.ofNat b.draft.requiredFee ≤
      UInt64.ofNat (b.draft.requests.length * b.draft.share) := by
    have hlt := hfits.requested
    have hpaid := valueSum_nets hfits hfees
    have hle := requiredFee_le hsome
    rw [ofNat_le_iff (by omega), toNat_ofNat (by omega)]
    exact hle
  refine ⟨{ b with
    outputs := b.outputs.map (b.charged (UInt64.ofNat b.draft.requiredFee))
    finalChange := if 0 < UInt64.ofNat b.draft.change then some (UInt64.ofNat b.draft.change)
      else none }, UInt64.ofNat (b.draft.requests.length * b.draft.share), ?_, ?_⟩
  · simp only [finalizeFees, bind_eq_ok, require_eq_ok, orAbort_eq_ok, pure_eq_ok,
      Prod.mk.injEq]
    refine ⟨_, hcounted, (), (changePasses_iff hfits).mp hchange, (),
      (checkFees_decides hfits hcounted hsome).eq_ok.mpr hfees, _, requiredFee_eq hfits hcounted,
      (), outputs_count_ne_zero hfits hsome, (), ?_, rfl, ?_⟩
    · rw [change_getD]
      exact hnets ▸ hminer ▸ hpays
    · rw [change_getD]
      exact hnets ▸ hminer
  · have hpositive : 0 < UInt64.ofNat b.draft.change ↔ 0 < b.draft.change :=
      lt_ofNat_iff hfits.change_lt
    have hrequests : b.draft.requests = b.outputs.map PendingOutput.request := rfl
    simp only [result, Draft.result, charged, hshare, hpositive, hrequests, List.map_map,
      List.length_map, Function.comp_def]
    rfl

theorem finalizeFees_of_dust (hfits : b.draft.Fits) (hcounted : b.Counted)
    (hchange : ¬ b.draft.ChangePasses) :
    b.finalizeFees = .error (.returned (.subDustChange (UInt64.ofNat b.draft.change)
      (dustThresholdForChange b.params.changeScript))) := by
  have hraw : b.rawChange = some (UInt64.ofNat b.draft.change) := hcounted
  rw [changePasses_iff hfits] at hchange
  simp only [finalizeFees, hraw, orAbort, bind, Except.bind, Lib.require, if_neg hchange]

end TransactionBuilder

end HashiBridge.Node
