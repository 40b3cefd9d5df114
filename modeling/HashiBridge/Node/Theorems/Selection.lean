import HashiBridge.Node.Batching
import HashiBridge.Node.Lemmas.Selection

/-!
# What coin selection guarantees

A plan balances, charges every request the same share and keeps to its limits. Funding fails only if
no choice of candidates covers the requests, and takes as few as possible.
-/

namespace HashiBridge.Node

open Lib HashiBridge.Core Btc

variable {utxos pool : List UtxoCandidate} {requests : List WithdrawalRequest}
  {params : CoinSelectionParams} {feeRate : FeeRate} {b : TransactionBuilder}
  {result : CoinSelectionResult}

/-! ## The requests of a batch -/

theorem filter_insertionSort (requests : List WithdrawalRequest) (time : Nat) :
    (requests.insertionSort fun a b => a.timestampMs ≤ b.timestampMs).filter
      (fun r => r.timestampMs = time) = requests.filter fun r => r.timestampMs = time := by
  set before : WithdrawalRequest → WithdrawalRequest → Prop :=
    fun a b => a.timestampMs ≤ b.timestampMs
  set same : WithdrawalRequest → Bool := fun r => r.timestampMs = time with hsame
  have hordered : (requests.filter same).Pairwise before := by
    refine List.Pairwise.imp_of_mem ?_ (List.pairwise_of_forall fun _ _ => trivial)
    intro a b ha hb _
    have ha' : a.timestampMs = time := by simpa [hsame] using (List.mem_filter.mp ha).2
    have hb' : b.timestampMs = time := by simpa [hsame] using (List.mem_filter.mp hb).2
    exact (ha'.trans hb'.symm).le
  have hsub : (requests.filter same).Sublist (requests.insertionSort before) :=
    List.sublist_insertionSort hordered List.filter_sublist
  have hkept : (requests.filter same).Sublist ((requests.insertionSort before).filter same) := by
    simpa using hsub.filter same
  refine (hkept.eq_of_length ?_).symm
  exact ((List.perm_insertionSort before requests).filter same).length_eq.symm

instance : IsTrans WithdrawalRequest fun a b => a.timestampMs ≤ b.timestampMs :=
  ⟨fun _ _ _ => Nat.le_trans⟩

instance : Std.Total fun a b : WithdrawalRequest => a.timestampMs ≤ b.timestampMs :=
  ⟨fun a b => Nat.le_total a.timestampMs b.timestampMs⟩

/-- The selected requests are the first ones in the order of time, where requests of one time keep
the order given. -/
def OldestFirst (requests : List WithdrawalRequest) (limit : Nat)
    (selected : List WithdrawalRequest) : Prop :=
  ∃ sorted : List WithdrawalRequest, sorted.Perm requests ∧
    sorted.Pairwise (fun a b => a.timestampMs ≤ b.timestampMs) ∧
    (∀ time, sorted.filter (fun r => r.timestampMs = time) =
      requests.filter fun r => r.timestampMs = time) ∧
    selected = sorted.take limit ∧ selected.length = min limit requests.length

theorem oldestFirst_oldestRequests (requests : List WithdrawalRequest) (limit : Nat) :
    OldestFirst requests limit (oldestRequests requests limit) := by
  have hperm := List.perm_insertionSort
    (fun a b : WithdrawalRequest => a.timestampMs ≤ b.timestampMs) requests
  refine ⟨_, hperm, List.pairwise_insertionSort _ _, filter_insertionSort requests, rfl, ?_⟩
  rw [oldestRequests, List.length_take, hperm.length_eq]

/-! ## The plan of a draft -/

/-- Every request pays the same share, within the cap, and keeps its output above dust. -/
structure Charges (maxFeePerRequest : UInt64) (result : CoinSelectionResult) (share : Nat) :
    Prop where
  share_le : share ≤ maxFeePerRequest.toNat
  outputs : result.withdrawalOutputs.map (fun o => (o.requestId, o.recipient, o.amount.toNat)) =
    result.selectedRequests.map fun r => (r.id, r.recipient, r.amount.toNat - share)
  affords : ∀ r ∈ result.selectedRequests, share + r.dustThreshold.toNat ≤ r.amount.toNat

namespace TransactionBuilder

theorem share_lt (hfits : b.draft.Fits) : b.draft.share < U64_SIZE := by
  have hlt := hfits.requiredFee_lt
  have hle := b.share_le_requiredFee
  omega

theorem charges (hfits : b.draft.Fits) (hfees : b.draft.FeesPass) :
    Charges b.params.maxFeePerRequest b.draft.result b.draft.share where
  share_le := hfees.1
  outputs := by
    simp only [Draft.result, List.map_map]
    refine List.map_congr_left fun r hr => ?_
    have hr' := hfees.2 r hr
    have hword := toNat_ofNat (share_lt hfits)
    simp only [Function.comp_apply, toNat_sub (show (UInt64.ofNat b.draft.share).toNat ≤
      r.amount.toNat by omega), hword]
  affords := hfees.2

theorem fee_eq (hfits : b.draft.Fits) (hfees : b.draft.FeesPass) :
    b.draft.result.fee.toNat = b.draft.requests.length * b.draft.share := by
  have hpaid := valueSum_nets hfits hfees
  have hlt := hfits.requested
  exact toNat_ofNat (by omega)

theorem change_eq (hfits : b.draft.Fits) :
    (b.draft.result.change.getD 0).toNat = b.draft.change := by
  simp only [Draft.result]
  split_ifs with hpos
  · exact toNat_ofNat hfits.change_lt
  · have hzero : b.draft.change = 0 := by omega
    rw [hzero]
    rfl

theorem balance (hfits : b.draft.Fits) (hfees : b.draft.FeesPass)
    (hcovered : b.draft.requested ≤ b.draft.inputTotal) :
    b.draft.inputTotal = valueSum (b.draft.result.withdrawalOutputs.map WithdrawalOutput.amount) +
      (b.draft.result.change.getD 0).toNat + b.draft.result.fee.toNat := by
  have hnets : b.draft.result.withdrawalOutputs.map WithdrawalOutput.amount = b.nets := by
    simp [Draft.result, nets, draft, Function.comp_def]
  have hpaid := valueSum_nets hfits hfees
  have hchange : b.draft.change = b.draft.inputTotal - b.draft.requested := rfl
  rw [hnets, change_eq hfits, fee_eq hfits hfees]
  omega

theorem fee_bounds (hfits : b.draft.Fits) (hfees : b.draft.FeesPass) (hsome : b.outputs ≠ []) :
    b.draft.requiredFee ≤ b.draft.result.fee.toNat ∧
      b.draft.result.fee.toNat < b.draft.requiredFee + b.draft.requests.length := by
  have hlength : b.draft.requests.length = b.outputs.length := List.length_map _
  have hpos : 0 < b.draft.requests.length := hlength ▸ List.length_pos_iff.mpr hsome
  rw [fee_eq hfits hfees]
  refine ⟨requiredFee_le hsome, ?_⟩
  have hround := Nat.mul_div_le (b.draft.requiredFee + b.draft.requests.length - 1)
    b.draft.requests.length
  rw [← Nat.ceilDiv_eq_add_pred_div] at hround
  rw [Draft.share]
  omega

end TransactionBuilder

/-! ## Successful selections -/

theorem selectCoins_eq_ok (hfits : (batchDraft requests params feeRate utxos).Fits)
    (h : selectCoins utxos requests params feeRate = .ok result) :
    ∃ pool b, preConsolidation utxos requests params feeRate = .ok (pool, b) ∧
      Base utxos requests params feeRate pool b ∧ b.draft.Passes ∧
      (b.draft.withInputs (Base.finalInputs pool b)).ChangePasses ∧
      result = (b.draft.withInputs (Base.finalInputs pool b)).result := by
  have hrun := h
  rw [selectCoins_eq, bind_eq_ok] at hrun
  obtain ⟨⟨pool, b⟩, hpre, _⟩ := hrun
  have hbase := preConsolidation_base hfits hpre
  refine ⟨pool, b, hpre, hbase, ?_⟩
  by_cases hpasses : b.draft.Passes
  · rw [hbase.selectCoins_of_passes hpre hfits hpasses] at h
    split_ifs at h with hchange
    exact ⟨hpasses, hchange, (Except.ok.inj h).symm⟩
  · obtain ⟨e, _, herror⟩ := hbase.selectCoins_of_not_passes hpre hfits hpasses
    rw [herror] at h
    cases h

theorem preConsolidation_error (hfits : (batchDraft requests params feeRate utxos).Fits)
    {failure : Failure} (h : preConsolidation utxos requests params feeRate = .error failure) :
    ∃ e, failure = .returned e := by
  simp only [preConsolidation, bind_eq_error, require_eq_error, require_eq_ok] at h
  obtain ⟨_, rfl⟩ | ⟨_, hutxos, ⟨_, rfl⟩ | ⟨_, hrequests, ⟨_, rfl⟩ | ⟨_, hmax, h⟩⟩⟩ := h
  · exact ⟨_, rfl⟩
  · exact ⟨_, rfl⟩
  · exact ⟨_, rfl⟩
  · rw [eligibleCandidates_eq hfits hrequests hmax] at h
    obtain h | ⟨_, heligible, h | ⟨_, _, h⟩⟩ := h
    · cases h
    · cases heligible
      have hpool : ((batchBuilder requests params feeRate).draft.withInputs (fundingOrder
          (utxos.filter fun u => decide ((batchDraft requests params feeRate []).Eligible u)))).Fits := by
        rw [batchBuilder_draft]
        exact hfits.mono fundingOrder_filter_subperm
      obtain ⟨_, _, ⟨_, hok⟩ | ⟨_, e, _, herror⟩⟩ := TransactionBuilder.fundFrom_cases hpool
      · cases h.symm.trans hok
      · cases h.symm.trans herror
        exact ⟨e, rfl⟩
    · cases h

/-! ## Sound plans -/

structure SoundPlan (utxos : List UtxoCandidate) (requests : List WithdrawalRequest)
    (params : CoinSelectionParams) (feeRate : FeeRate) (result : CoinSelectionResult) : Prop where
  distinct : (result.inputs.map UtxoCandidate.id).Nodup
  members : result.inputs ⊆ utxos
  count : result.inputs.length ≤ params.maxInputs
  oldest : OldestFirst requests params.maxWithdrawalRequests result.selectedRequests
  balance : valueSum (result.inputs.map UtxoCandidate.amount) =
    valueSum (result.withdrawalOutputs.map WithdrawalOutput.amount) +
      (result.change.getD 0).toNat + result.fee.toNat
  change_dust : ∀ change ∈ result.change, dustThresholdForChange params.changeScript ≤ change
  change_eq : valueSum (result.inputs.map UtxoCandidate.amount) =
    valueSum (result.selectedRequests.map WithdrawalRequest.amount) + (result.change.getD 0).toNat
  charges : ∃ share, Charges params.maxFeePerRequest result share
  fee : let required := (batchDraft requests params feeRate result.inputs).requiredFee
    required ≤ result.fee.toNat ∧ result.fee.toNat < required + result.selectedRequests.length
  weight : (batchDraft requests params feeRate result.inputs).weight ≤ params.maxTxWeight.toNat
  packageWeight : (batchDraft requests params feeRate result.inputs).packageWeight ≤
    params.maxAncestorPackageWeight.toNat

theorem nodup_of_subperm {α : Type} {xs ys : List α} (h : xs.Subperm ys) (hys : ys.Nodup) :
    xs.Nodup := by
  obtain ⟨zs, hperm, hsub⟩ := h
  exact hperm.nodup_iff.mp (hsub.nodup hys)

theorem Base.soundPlan (h : Base utxos requests params feeRate pool b)
    (hids : (utxos.map UtxoCandidate.id).Nodup)
    (hfits : (batchDraft requests params feeRate utxos).Fits) (hpasses : b.draft.Passes)
    (hchange : (b.draft.withInputs (finalInputs pool b)).ChangePasses) :
    SoundPlan utxos requests params feeRate
      (b.draft.withInputs (finalInputs pool b)).result := by
  set last := b.withInputs (finalInputs pool b) with hlast
  have hdraft : last.draft = b.draft.withInputs (finalInputs pool b) := rfl
  have hbatch : last.draft = batchDraft requests params feeRate (finalInputs pool b) := by
    rw [hdraft, h.draft_eq]
    rfl
  have hsub := Base.finalInputs_subperm.trans h.extras_subperm
  have hlastFits : last.draft.Fits := hbatch ▸ hfits.mono hsub
  have hsome : last.outputs ≠ [] := h.some_outputs
  have hcovered : last.draft.requested ≤ last.draft.inputTotal := h.final_covered
  obtain ⟨hcount, hfees, hweight, hpackage⟩ := h.final_admits hpasses
  have hparams : last.params = params := h.params_eq
  rw [← hdraft] at hchange ⊢
  constructor
  case distinct =>
    have hmap : (last.draft.inputs.map UtxoCandidate.id).Subperm (utxos.map UtxoCandidate.id) := by
      obtain ⟨kept, hperm, hkept⟩ := hsub
      exact ⟨_, hperm.map _, hkept.map _⟩
    exact nodup_of_subperm hmap hids
  case members => exact hsub.subset
  case count => exact hcount
  case oldest =>
    have hselected : last.draft.result.selectedRequests =
        oldestRequests requests params.maxWithdrawalRequests := by
      rw [hbatch]
      rfl
    rw [hselected]
    exact oldestFirst_oldestRequests _ _
  case balance => exact TransactionBuilder.balance hlastFits hfees hcovered
  case change_dust =>
    intro change hmem
    simp only [Draft.result, Option.mem_def] at hmem
    split_ifs at hmem with hpos
    cases hmem
    have hdust : last.draft.changeDust ≤ last.draft.change := hchange.resolve_left (by omega)
    rw [UInt64.le_iff_toNat_le, toNat_ofNat hlastFits.change_lt, ← hparams]
    exact hdust
  case change_eq =>
    rw [TransactionBuilder.change_eq hlastFits]
    exact (Nat.add_sub_cancel' hcovered).symm
  case charges =>
    exact ⟨last.draft.share, hparams ▸ TransactionBuilder.charges hlastFits hfees⟩
  case fee =>
    have hbounds := TransactionBuilder.fee_bounds hlastFits hfees hsome
    rw [hbatch] at hbounds ⊢
    exact hbounds
  case weight =>
    have hw : last.draft.weight ≤ last.params.maxTxWeight.toNat := hweight
    rw [hbatch, hparams] at hw
    rw [hbatch]
    exact hw
  case packageWeight =>
    have hw : last.draft.packageWeight ≤ last.params.maxAncestorPackageWeight.toNat := hpackage
    rw [hbatch, hparams] at hw
    rw [hbatch]
    exact hw

/-- **Coin selection is sound.** If the ids of the outputs are distinct and no sum overflows, a
selection does not panic, and what it returns is a sound plan. -/
theorem select_coins_sound (hids : (utxos.map UtxoCandidate.id).Nodup)
    (hfits : (batchDraft requests params feeRate utxos).Fits) :
    (∀ message, selectCoins utxos requests params feeRate ≠ .error (.panicked message)) ∧
    ∀ result, selectCoins utxos requests params feeRate = .ok result →
      SoundPlan utxos requests params feeRate result := by
  constructor
  · intro message hpanic
    cases hpre : preConsolidation utxos requests params feeRate with
    | error failure =>
        obtain ⟨e, rfl⟩ := preConsolidation_error hfits hpre
        rw [selectCoins_eq, hpre] at hpanic
        cases hpanic
    | ok stage =>
        obtain ⟨pool, b⟩ := stage
        have hbase := preConsolidation_base hfits hpre
        by_cases hpasses : b.draft.Passes
        · rw [hbase.selectCoins_of_passes hpre hfits hpasses] at hpanic
          split_ifs at hpanic
          cases hpanic
        · obtain ⟨e, _, herror⟩ := hbase.selectCoins_of_not_passes hpre hfits hpasses
          cases hpanic.symm.trans herror
  · intro result hok
    obtain ⟨pool, b, _, hbase, hpasses, hchange, rfl⟩ := selectCoins_eq_ok hfits hok
    exact hbase.soundPlan hids hfits hpasses hchange

namespace Sample

def confirmedUtxo (vout : Nat) (amount : UInt64) : UtxoCandidate where
  id := ⟨7, vout⟩
  amount := amount
  confirmationAgeBlocks := none
  spendPath := .taprootScriptPath2of2
  status := .confirmed

def ask (id : Address) (amount : UInt64) (timestampMs : Nat) : WithdrawalRequest where
  id := id
  recipient := List.replicate 32 0
  amount := amount
  timestampMs := timestampMs

def settings : CoinSelectionParams where
  maxTxWeight := 400000
  maxAncestorPackageWeight := 400000
  maxInputs := 10
  maxWithdrawalRequests := 2
  maxFeePerRequest := 5000
  minFeeRate := 0
  longTermFeeRate := 2500
  highFeeRateThreshold := 7500
  inputBudget := 1
  maxMempoolChainDepth := 10
  changeScript := List.replicate 34 0

def offered : List UtxoCandidate := [confirmedUtxo 0 4000, confirmedUtxo 1 30000, confirmedUtxo 2 60000]

def asked : List WithdrawalRequest := [ask 1 40000 5, ask 2 30000 3, ask 3 9000 8]

theorem offered_fits : (batchDraft asked settings 1000 offered).Fits :=
  ⟨by decide +kernel, by decide +kernel, by decide +kernel, by decide +kernel, by decide +kernel⟩

theorem offered_ok : (selectCoins offered asked settings 1000).isOk = true := by decide +kernel

end Sample

open Sample in
theorem select_coins_sound_of_offered : ∃ result,
    selectCoins offered asked settings 1000 = .ok result ∧
      SoundPlan offered asked settings 1000 result := by
  obtain ⟨result, hok⟩ := exists_of_isOk offered_ok
  exact ⟨result, hok, (select_coins_sound (by decide) offered_fits).2 result hok⟩

/-! ## Funding -/

theorem largestFirst_iff {u v : UtxoCandidate} : largestFirst u v = true ↔
    v.amount.toNat < u.amount.toNat ∨ u.amount.toNat = v.amount.toNat ∧ utxoIdLe u.id v.id := by
  simp only [largestFirst, Bool.or_eq_true, Bool.and_eq_true, decide_eq_true_eq, beq_iff_eq,
    UInt64.lt_iff_toNat_lt, ← UInt64.toNat_inj]

instance : IsTrans UtxoCandidate fun u v => largestFirst u v where
  trans u v w := by
    simp only [largestFirst_iff]
    rintro (huv | ⟨huv, hid⟩) (hvw | ⟨hvw, hid'⟩)
    · exact .inl (by omega)
    · exact .inl (by omega)
    · exact .inl (by omega)
    · exact .inr ⟨by omega, IsTrans.trans (r := fun a b => utxoIdLe a b) _ _ _ hid hid'⟩

instance : Std.Total fun u v : UtxoCandidate => largestFirst u v where
  total u v := by
    simp only [largestFirst_iff]
    rcases Nat.lt_trichotomy u.amount.toNat v.amount.toNat with h | h | h
    · exact .inr (.inl h)
    · rcases Std.Total.total (r := fun a b => utxoIdLe a b) u.id v.id with hid | hid
      · exact .inl (.inr ⟨h, hid⟩)
      · exact .inr (.inr ⟨h.symm, hid⟩)
    · exact .inl (.inl h)

theorem fundingOrder_descending (candidates : List UtxoCandidate) :
    (fundingOrder candidates).Pairwise fun u v => v.amount.toNat ≤ u.amount.toNat := by
  refine (List.pairwise_insertionSort (fun u v => largestFirst u v) candidates).imp ?_
  intro u v h
  rcases largestFirst_iff.mp h with h | h <;> omega

def Covers (d : Draft) (candidates choice : List UtxoCandidate) : Prop :=
  choice.Subperm candidates ∧ d.requested ≤ (d.withInputs choice).inputTotal

theorem inputTotal_withInputs (d : Draft) (inputs : List UtxoCandidate) :
    (d.withInputs inputs).inputTotal = (inputs.map fun u => u.amount.toNat).sum := by
  simp [Draft.inputTotal, valueSum, Function.comp_def]

section FundedBy

variable {d : Draft} {candidates choice : List UtxoCandidate} {k : Nat}

theorem FundedBy.length_le_of_covers (h : FundedBy d (fundingOrder candidates) k)
    (hcovers : Covers d candidates choice) : k ≤ choice.length := by
  obtain ⟨hsub, htotal⟩ := hcovers
  simp only [inputTotal_withInputs] at htotal
  refine le_length_of_covers (fundingOrder_descending candidates) ?_
    (hsub.trans (List.perm_insertionSort _ _).symm.subperm) htotal
  intro j hj
  simpa only [inputTotal_withInputs] using h.short j hj

theorem FundedBy.not_covers (h : FundedBy d (fundingOrder candidates) k)
    (hshort : (d.withInputs ((fundingOrder candidates).take k)).inputTotal < d.requested)
    (hlimit : choice.length ≤ d.params.maxInputs) : ¬ Covers d candidates choice := by
  rintro ⟨hsub, htotal⟩
  have hpool : choice.Subperm (fundingOrder candidates) :=
    hsub.trans (List.perm_insertionSort _ _).symm.subperm
  have hk : choice.length ≤ k := by
    have hlength := hpool.length_le
    rcases h.stops with hcovered | hmax | hall <;> omega
  have hmost := sum_le_sum_take (fundingOrder_descending candidates) hpool hk
  simp only [inputTotal_withInputs] at htotal hshort
  omega

end FundedBy

/-- **Funding is complete and minimal.** A selection runs out of funds exactly if no choice of
eligible candidates within the input limit covers the requests. Otherwise the inputs chosen before
consolidation are as few as any choice that covers them. -/
theorem funding_minimal (hutxos : utxos ≠ []) (hrequests : requests ≠ [])
    (hmax : params.maxWithdrawalRequests ≠ 0)
    (hfits : (batchDraft requests params feeRate utxos).Fits) :
    ∃ eligible, eligibleCandidates utxos requests params feeRate = .ok eligible ∧
      let d := batchDraft requests params feeRate []
      let outOfFunds := ∃ e, e.IsInsufficientFunds ∧
        selectCoins utxos requests params feeRate = .error (.returned e)
      (outOfFunds ↔
        ¬ ∃ choice, Covers d eligible choice ∧ choice.length ≤ params.maxInputs) ∧
      (¬ outOfFunds → ∃ pool b, preConsolidation utxos requests params feeRate = .ok (pool, b) ∧
        IsLeast { n | ∃ choice, Covers d eligible choice ∧ choice.length = n }
          b.inputs.length) := by
  refine ⟨_, eligibleCandidates_eq hfits hrequests hmax, ?_⟩
  intro d outOfFunds
  set eligible := utxos.filter fun u => decide (d.Eligible u)
  have hpre := preConsolidation_eq hfits hutxos hrequests hmax
  have hdraft : (batchBuilder requests params feeRate).draft = d :=
    batchBuilder_draft requests params feeRate
  have hpool : ((batchBuilder requests params feeRate).draft.withInputs
      (fundingOrder eligible)).Fits := by
    rw [hdraft]
    exact hfits.mono fundingOrder_filter_subperm
  obtain ⟨k, hfunded, hcases⟩ := TransactionBuilder.fundFrom_cases hpool
  rw [hdraft] at hfunded hcases
  obtain ⟨hcovered, hok⟩ | ⟨hshort, e, he, herror⟩ := hcases
  · have hchoice : Covers d eligible ((fundingOrder eligible).take k) :=
      ⟨(List.take_sublist _ _).subperm.trans (List.perm_insertionSort _ _).subperm, hcovered⟩
    have hlength : ((fundingOrder eligible).take k).length = k :=
      List.length_take_of_le hfunded.length_le
    have hstage : preConsolidation utxos requests params feeRate =
        .ok (fundingOrder eligible,
          (batchBuilder requests params feeRate).withInputs ((fundingOrder eligible).take k)) := by
      rw [hpre]
      exact congrArg _ hok
    -- past the funding no error speaks of funds
    have hnot : ¬ outOfFunds := by
      rintro ⟨e, he, herror⟩
      have hbase := preConsolidation_base hfits hstage
      by_cases hpasses : ((batchBuilder requests params feeRate).withInputs
          ((fundingOrder eligible).take k)).draft.Passes
      · rw [hbase.selectCoins_of_passes hstage hfits hpasses] at herror
        split_ifs at herror
        cases herror
        exact he
      · obtain ⟨e', he', herror'⟩ := hbase.selectCoins_of_not_passes hstage hfits hpasses
        cases herror.symm.trans herror'
        exact he' he
    refine ⟨⟨fun h => absurd h hnot, fun h => absurd ⟨_, hchoice, ?_⟩ h⟩, fun _ =>
      ⟨_, _, hstage, ⟨_, hchoice, rfl⟩, ?_⟩⟩
    · rintro n ⟨choice, hcovers, rfl⟩
      exact hlength.trans_le (hfunded.length_le_of_covers hcovers)
    · exact hlength.trans_le hfunded.limit
  · have hout : outOfFunds := by
      refine ⟨e, he, ?_⟩
      rw [selectCoins_eq, hpre, herror]
      rfl
    refine ⟨⟨fun _ => ?_, fun _ => hout⟩, fun h => absurd hout h⟩
    rintro ⟨choice, hcovers, hlimit⟩
    exact hfunded.not_covers hshort hlimit hcovers

open Sample in
theorem funding_minimal_of_offered : ∃ pool b,
    preConsolidation offered asked settings 1000 = .ok (pool, b) ∧
      IsLeast { n | ∃ eligible choice, eligibleCandidates offered asked settings 1000 = .ok eligible ∧
        Covers (batchDraft asked settings 1000 []) eligible choice ∧ choice.length = n }
          b.inputs.length := by
  obtain ⟨result, hok⟩ := exists_of_isOk offered_ok
  obtain ⟨eligible, heligible, _, hleast⟩ :=
    funding_minimal (by decide) (by decide) (by decide) offered_fits
  obtain ⟨pool, b, hpre, ⟨choice, hcovers, hlength⟩, hlower⟩ := hleast <| by
    rintro ⟨e, _, herror⟩
    cases hok.symm.trans herror
  refine ⟨pool, b, hpre, ⟨eligible, choice, heligible, hcovers, hlength⟩, ?_⟩
  rintro n ⟨eligible', choice', heligible', hcovers', rfl⟩
  cases heligible.symm.trans heligible'
  exact hlower ⟨choice', hcovers', rfl⟩

namespace Sample

def halves : List UtxoCandidate := [confirmedUtxo 0 (2 ^ 63), confirmedUtxo 1 (2 ^ 63)]

def huge : List WithdrawalRequest := [ask 1 (2 ^ 64 - 1) 0]

end Sample

open Sample in
/-- Two outputs of half the range cover the request, but their sum wraps to 0. -/
theorem funding_wraps : ∃ eligible choice e,
    eligibleCandidates halves huge settings 0 = .ok eligible ∧
      Covers (batchDraft huge settings 0 []) eligible choice ∧
      choice.length ≤ settings.maxInputs ∧ e.IsInsufficientFunds ∧
      selectCoins halves huge settings 0 = .error (.returned e) := by
  refine ⟨halves, halves, .insufficientFunds 0 0 (2 ^ 64 - 1) 2 10, ?_,
    ⟨List.Subperm.refl _, ?_⟩, ?_, trivial, ?_⟩ <;> decide +kernel

/-! ## Consolidation -/

def TransactionBuilder.withBudget (b : TransactionBuilder) (inputBudget : Nat) :
    TransactionBuilder :=
  { b with params := { b.params with inputBudget } }

section Budget

variable (b : TransactionBuilder) (inputBudget : Nat)

theorem computeRawChange_withBudget :
    (b.withBudget inputBudget).computeRawChange =
      (·.withBudget inputBudget) <$> b.computeRawChange := by
  have hrequested : (b.withBudget inputBudget).totalRequested = b.totalRequested := rfl
  have hinputs : (b.withBudget inputBudget).inputTotal = b.inputTotal := rfl
  by_cases hcovered : b.totalRequested ≤ b.inputTotal
  · simp only [TransactionBuilder.computeRawChange, hrequested, hinputs, require_pos hcovered]
    rfl
  · simp only [TransactionBuilder.computeRawChange, hrequested, hinputs, Lib.require,
      if_neg hcovered]
    rfl

theorem fundFrom_withBudget (pool : List UtxoCandidate) :
    (b.withBudget inputBudget).fundFrom pool =
      (·.withBudget inputBudget) <$> b.fundFrom pool := by
  simp only [TransactionBuilder.fundFrom, map_bind]
  exact bind_congr fun _ => computeRawChange_withBudget { b with inputs := _ } inputBudget

theorem preConsolidation_withBudget (utxos : List UtxoCandidate)
    (requests : List WithdrawalRequest) (params : CoinSelectionParams) (feeRate : FeeRate)
    (inputBudget : Nat) :
    preConsolidation utxos requests { params with inputBudget } feeRate =
      (fun stage => (stage.1, stage.2.withBudget inputBudget)) <$>
        preConsolidation utxos requests params feeRate := by
  simp only [preConsolidation, map_bind]
  iterate 4 refine bind_congr fun _ => ?_
  rw [show batchBuilder requests { params with inputBudget } feeRate =
    (batchBuilder requests params feeRate).withBudget inputBudget from rfl, fundFrom_withBudget]
  simp only [map_eq_pure_bind, bind_assoc, pure_bind]

theorem extras_withBudget (pool : List UtxoCandidate) (h : b.params.inputBudget ≤ inputBudget)
    (hfits : b.outputs.length * inputBudget < U64_SIZE) :
    b.extras pool <+: (b.withBudget inputBudget).extras pool := by
  have hmono : ∀ {m n : Nat}, m ≤ n →
      (if b.feeRate < b.params.longTermFeeRate then min (b.params.maxInputs - b.inputs.length) m
        else if b.feeRate < b.params.highFeeRateThreshold then
          min (b.params.maxInputs - b.inputs.length) (m / 2) else 0) ≤
      (if b.feeRate < b.params.longTermFeeRate then min (b.params.maxInputs - b.inputs.length) n
        else if b.feeRate < b.params.highFeeRateThreshold then
          min (b.params.maxInputs - b.inputs.length) (n / 2) else 0) := by
    intro m n hmn
    split_ifs <;> omega
  have hproduct : wrapU64 (b.outputs.length * b.params.inputBudget) ≤
      wrapU64 (b.outputs.length * inputBudget) := by
    rw [wrapU64_of_lt hfits]
    exact (Nat.mod_le _ _).trans (Nat.mul_le_mul_left b.outputs.length h)
  have hmore : b.maxConsolidation ≤ (b.withBudget inputBudget).maxConsolidation := hmono hproduct
  simp only [TransactionBuilder.extras]
  change _ <+: if b.rawChange.any (0 < ·) then List.take
    (b.withBudget inputBudget).maxConsolidation _ else []
  split_ifs
  · exact List.take_prefix_take_left hmore
  · exact List.prefix_rfl

end Budget

theorem mem_extras {u : UtxoCandidate} (h : u ∈ b.extras pool) :
    u ∈ pool ∧ u.status = .confirmed := by
  rw [TransactionBuilder.extras] at h
  split_ifs at h
  · have hsorted := (List.perm_insertionSort _ _).subset (List.mem_of_mem_take h)
    obtain ⟨hpool, hfresh⟩ := List.mem_filter.mp hsorted
    refine ⟨hpool, ?_⟩
    cases hstatus : u.status with
    | confirmed => rfl
    | pending chain => simp [hstatus, UtxoStatus.isConfirmed] at hfresh
  · cases h

theorem length_extras_le (b : TransactionBuilder) (pool : List UtxoCandidate) :
    (b.extras pool).length ≤ b.maxConsolidation := by
  rw [TransactionBuilder.extras]
  split_ifs
  · exact List.length_take_le _ _
  · exact Nat.zero_le _

theorem extras_of_no_change (hcounted : b.Counted) (hzero : b.draft.change = 0) :
    b.extras pool = [] := by
  have hraw : b.rawChange = some 0 := by
    rw [hcounted, hzero]
    rfl
  rw [TransactionBuilder.extras, hraw]
  rfl

theorem changePasses_of_initial {d : Draft} {inputs more : List UtxoCandidate}
    (hinitial : inputs <+: more) (hpositive : 0 < (d.withInputs inputs).change)
    (h : (d.withInputs inputs).ChangePasses) : (d.withInputs more).ChangePasses := by
  have htotal : (d.withInputs inputs).inputTotal ≤ (d.withInputs more).inputTotal :=
    valueSum_map_le_of_subperm _ hinitial.sublist.subperm
  have hdust : (d.withInputs inputs).changeDust ≤ (d.withInputs inputs).change :=
    h.resolve_left (by omega)
  right
  refine Nat.le_trans hdust ?_
  simp only [Draft.change]
  exact Nat.sub_le_sub_right htotal _

namespace Base

theorem passes_of_checks (h : Base utxos requests params feeRate pool b)
    (hfits : (batchDraft requests params feeRate utxos).Fits) (hfees : b.checkFees = .ok ())
    (hweight : b.checkWeight = .ok ()) : b.draft.Passes := by
  have hbase : b.draft.Fits := (h.fits hfits).mono (List.sublist_append_left _ _).subperm
  exact ⟨(TransactionBuilder.checkFees_decides hbase h.counted h.some_outputs).eq_ok.mp hfees,
    (TransactionBuilder.checkWeight_decides hbase h.counted).eq_ok.mp hweight⟩

theorem final_changePasses (h : Base utxos requests params feeRate pool b)
    (hchange : b.draft.ChangePasses) :
    (b.draft.withInputs (finalInputs pool b)).ChangePasses := by
  rcases Nat.eq_zero_or_pos b.draft.change with hzero | hpositive
  · rw [finalInputs, extras_of_no_change h.counted hzero]
    exact hchange
  · exact changePasses_of_initial (initial_finalInputs pool b) hpositive hchange

theorem finalInputs_withBudget {inputBudget : Nat} (hle : b.params.inputBudget ≤ inputBudget)
    (hfits : b.outputs.length * inputBudget < U64_SIZE) :
    finalInputs pool b <+: finalInputs pool (b.withBudget inputBudget) :=
  extendWhile_mono b.admits b.inputs (extras_withBudget b inputBudget pool hle hfits)

end Base

structure Consolidates (params : CoinSelectionParams) (pool : List UtxoCandidate)
    (b : TransactionBuilder) (result : CoinSelectionResult) (added : List UtxoCandidate) : Prop where
  inputs : result.inputs = b.inputs ++ added
  confirmed : ∀ u ∈ added, u ∈ pool ∧ u.status = .confirmed
  limit : result.inputs.length ≤ params.maxInputs
  cap : added.length ≤ b.maxConsolidation
  charges : ∃ share, Charges params.maxFeePerRequest result share

theorem Base.consolidates (h : Base utxos requests params feeRate pool b)
    (hfits : (batchDraft requests params feeRate utxos).Fits) (hpasses : b.draft.Passes) :
    ∃ added, Consolidates params pool b (b.draft.withInputs (finalInputs pool b)).result added := by
  obtain ⟨added, heq, hadded⟩ := extendWhile_eq_append b.admits b.inputs (b.extras pool)
  have hlast : (b.withInputs (finalInputs pool b)).draft.Fits :=
    (h.fits hfits).mono Base.finalInputs_subperm
  obtain ⟨hcount, hlastPasses⟩ := h.final_admits hpasses
  refine ⟨added, heq, fun u hu => mem_extras (hadded.subset hu), hcount,
    hadded.length_le.trans (length_extras_le b pool),
    (b.draft.withInputs (finalInputs pool b)).share, ?_⟩
  have hcharges := TransactionBuilder.charges hlast hlastPasses.1
  rwa [TransactionBuilder.withInputs_draft, show (b.withInputs (finalInputs pool b)).params = params
    from h.params_eq] at hcharges

theorem Fits.withBudget (hfits : (batchDraft requests params feeRate utxos).Fits)
    (inputBudget : Nat) :
    (batchDraft requests { params with inputBudget } feeRate utxos).Fits :=
  ⟨hfits.amounts, hfits.requested, hfits.ancestorFees, hfits.weight, hfits.fee⟩

/-- **Consolidation is harmless.** A builder that passes the checks before consolidation is only
extended, by confirmed candidates and within the limits. If its change is kept, the selection
succeeds. If its change is dust, the selection succeeds or still ends with dust. A larger budget for
extra inputs, whose product with the number of requests does not wrap, does not turn a plan into an
error. -/
theorem consolidation_harmless (hfits : (batchDraft requests params feeRate utxos).Fits) :
    (∀ pool b, preConsolidation utxos requests params feeRate = .ok (pool, b) →
      b.checkFees = .ok () → b.checkWeight = .ok () →
      let dust := dustThresholdForChange params.changeScript
      ((∀ change ∈ b.rawChange, change = 0 ∨ dust ≤ change) →
        ∃ result, selectCoins utxos requests params feeRate = .ok result) ∧
      (∀ result, selectCoins utxos requests params feeRate = .ok result →
        ∃ added, Consolidates params pool b result added) ∧
      ∀ change ∈ b.rawChange, 0 < change → change < dust →
        b.finalizeFees = .error (.returned (.subDustChange change dust)) ∧
        ((∃ result, selectCoins utxos requests params feeRate = .ok result) ∨
          ∃ left, selectCoins utxos requests params feeRate =
            .error (.returned (.subDustChange left dust)))) ∧
    ∀ inputBudget result, params.inputBudget ≤ inputBudget →
      (selectRequests requests params.maxWithdrawalRequests).length * inputBudget < U64_SIZE →
      selectCoins utxos requests params feeRate = .ok result →
      ∃ result', selectCoins utxos requests { params with inputBudget } feeRate = .ok result' := by
  constructor
  · intro pool b hpre hfees hweight dust
    have hbase := preConsolidation_base hfits hpre
    have hpasses := hbase.passes_of_checks hfits hfees hweight
    have hraw : b.rawChange = some (UInt64.ofNat b.draft.change) := hbase.counted
    have hfirst : b.draft.Fits := (hbase.fits hfits).mono (List.sublist_append_left _ _).subperm
    have hselect := hbase.selectCoins_of_passes hpre hfits hpasses
    have hchangePasses := TransactionBuilder.changePasses_iff hfirst
    rw [hbase.params_eq] at hchangePasses
    refine ⟨fun hchange => ?_, fun result hok => ?_, fun change hchange hpositive hsmall => ?_⟩
    · rw [hselect, if_pos (hbase.final_changePasses (hchangePasses.mpr (hchange _ hraw)))]
      exact ⟨_, rfl⟩
    · rw [hselect] at hok
      split_ifs at hok
      cases hok
      exact hbase.consolidates hfits hpasses
    · obtain rfl : UInt64.ofNat b.draft.change = change := Option.some.inj (hraw.symm.trans hchange)
      have hdust : ¬ b.draft.ChangePasses := by
        rw [hchangePasses]
        rintro (hzero | hle)
        · rw [hzero] at hpositive
          exact absurd hpositive (UInt64.lt_irrefl 0)
        · exact absurd hsmall (UInt64.not_lt.mpr hle)
      constructor
      · rw [TransactionBuilder.finalizeFees_of_dust hfirst hbase.counted hdust, hbase.params_eq]
      · rw [hselect]
        split_ifs
        · exact .inl ⟨_, rfl⟩
        · exact .inr ⟨_, rfl⟩
  · intro inputBudget result hle hproduct hok
    obtain ⟨pool, b, hpre, hbase, hpasses, hchange, _⟩ := selectCoins_eq_ok hfits hok
    have hfits' := Fits.withBudget hfits inputBudget
    have hpre' : preConsolidation utxos requests { params with inputBudget } feeRate =
        .ok (pool, b.withBudget inputBudget) := by
      rw [preConsolidation_withBudget, hpre]
      rfl
    have hbase' := preConsolidation_base hfits' hpre'
    have hchange' : ((b.withBudget inputBudget).draft.withInputs
        (Base.finalInputs pool (b.withBudget inputBudget))).ChangePasses := by
      rcases Nat.eq_zero_or_pos b.draft.change with hzero | hpositive
      · exact hbase'.final_changePasses (.inl hzero)
      · have hgrown : b.draft.change ≤ (b.draft.withInputs (Base.finalInputs pool b)).change :=
          Nat.sub_le_sub_right (valueSum_map_le_of_subperm _
            (Base.initial_finalInputs pool b).sublist.subperm) _
        have hbudget : b.params.inputBudget ≤ inputBudget := by
          rw [hbase.params_eq]
          exact hle
        have houtputs : b.outputs = selectRequests requests params.maxWithdrawalRequests := by
          rw [hbase.builder]
          rfl
        exact changePasses_of_initial (d := b.draft)
          (Base.finalInputs_withBudget hbudget (houtputs ▸ hproduct))
          (Nat.lt_of_lt_of_le hpositive hgrown) hchange
    rw [hbase'.selectCoins_of_passes hpre' hfits' hpasses, if_pos hchange']
    exact ⟨_, rfl⟩

open Sample in
theorem consolidation_harmless_of_budget : ∃ result,
    selectCoins offered asked { settings with inputBudget := 5 } 1000 = .ok result := by
  obtain ⟨result, hok⟩ := exists_of_isOk offered_ok
  exact (consolidation_harmless offered_fits).2 5 result (by decide) (by decide) hok

namespace Sample

def nearlyFull : List UtxoCandidate := [confirmedUtxo 0 (2 ^ 64 - 1), confirmedUtxo 1 1000]

def nearlyHuge : List WithdrawalRequest := [ask 1 (2 ^ 64 - 2000) 0]

def funded : TransactionBuilder where
  feeRate := 0
  params := settings
  inputs := [confirmedUtxo 0 (2 ^ 64 - 1)]
  outputs := [⟨ask 1 (2 ^ 64 - 2000) 0, 0⟩]
  rawChange := some 1999
  finalChange := none

end Sample

open Sample in
/-- The builder passes the checks and its change is kept, but the sum with a further input wraps. -/
theorem consolidation_wraps :
    preConsolidation nearlyFull nearlyHuge settings 0 = .ok (nearlyFull, funded) ∧
      funded.checkFees = .ok () ∧ funded.checkWeight = .ok () ∧
      (∀ change ∈ funded.rawChange, dustThresholdForChange settings.changeScript ≤ change) ∧
      ¬ ∃ result, selectCoins nearlyFull nearlyHuge settings 0 = .ok result := by
  refine ⟨by decide +kernel, by decide +kernel, by decide +kernel, ?_, ?_⟩
  · intro change hchange
    cases hchange
    decide
  · rintro ⟨result, hok⟩
    have hfails : (selectCoins nearlyFull nearlyHuge settings 0).isOk = false := by decide +kernel
    rw [hok] at hfails
    cases hfails

end HashiBridge.Node
