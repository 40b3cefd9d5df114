import HashiBridge.Node.Lemmas.Draft

/-!
# The stages of a selection

Filter, funding loop and consolidation loop over drafts.
-/

namespace HashiBridge.Node

open Lib HashiBridge.Core Btc

/-! ## Stages -/

def batchBuilder (requests : List WithdrawalRequest) (params : CoinSelectionParams)
    (feeRate : FeeRate) : TransactionBuilder where
  feeRate := effectiveFeeRate params feeRate
  params := params
  inputs := []
  outputs := selectRequests requests params.maxWithdrawalRequests
  rawChange := none
  finalChange := none

def eligibleCandidates (utxos : List UtxoCandidate) (requests : List WithdrawalRequest)
    (params : CoinSelectionParams) (feeRate : FeeRate) : Fallible (List UtxoCandidate) :=
  let builder := batchBuilder requests params feeRate
  filterFallible (builder.isEligible builder.totalRequested) utxos

def fundingOrder (candidates : List UtxoCandidate) : List UtxoCandidate :=
  candidates.insertionSort fun a b => largestFirst a b

def TransactionBuilder.fundFrom (self : TransactionBuilder) (pool : List UtxoCandidate) :
    Fallible TransactionBuilder := do
  let (inputs, inputTotal) := fund self.params.maxInputs self.totalRequested pool [] 0
  require (self.totalRequested ≤ inputTotal) (Failure.returned (.insufficientFunds
    (pool.map UtxoCandidate.amount).sum inputTotal self.totalRequested inputs.length
    self.params.maxInputs))
  computeRawChange { self with inputs }

def preConsolidation (utxos : List UtxoCandidate) (requests : List WithdrawalRequest)
    (params : CoinSelectionParams) (feeRate : FeeRate) :
    Fallible (List UtxoCandidate × TransactionBuilder) := do
  require (utxos ≠ []) (Failure.returned .emptyPool)
  require (requests ≠ []) (Failure.returned .noRequests)
  require (params.maxWithdrawalRequests ≠ 0) (Failure.returned .noRequests)
  let eligible ← eligibleCandidates utxos requests params feeRate
  let pool := fundingOrder eligible
  let builder ← (batchBuilder requests params feeRate).fundFrom pool
  return (pool, builder)

def TransactionBuilder.extras (self : TransactionBuilder) (pool : List UtxoCandidate) :
    List UtxoCandidate :=
  if self.rawChange.any (0 < ·) then
    ((pool.filter fun u => u.status.isConfirmed && !self.inputs.any fun s => s.id == u.id).insertionSort
      fun a b => consolidationFirst a b).take self.maxConsolidation
  else []

theorem selectCoins_eq (utxos : List UtxoCandidate) (requests : List WithdrawalRequest)
    (params : CoinSelectionParams) (feeRate : FeeRate) :
    selectCoins utxos requests params feeRate = (do
      let (pool, builder) ← preConsolidation utxos requests params feeRate
      builder.checkFees
      builder.checkWeight
      let builder ← builder.consolidate (builder.extras pool)
      let builder ← builder.computeRawChange
      let (builder, minerFee) ← builder.finalizeFees
      return builder.result minerFee) := by
  simp only [selectCoins, preConsolidation, TransactionBuilder.fundFrom, bind_assoc, pure_bind]
  iterate 3 refine bind_congr fun _ => ?_
  refine bind_congr fun eligible => bind_congr fun _ => ?_
  -- the change leaves the inputs alone
  set builder := batchBuilder requests params feeRate
  set pool := fundingOrder eligible
  set inputs := (TransactionBuilder.fund params.maxInputs builder.totalRequested pool [] 0).1
  change (TransactionBuilder.computeRawChange { builder with inputs } >>= _) =
    (TransactionBuilder.computeRawChange { builder with inputs } >>= _)
  cases hfunded : TransactionBuilder.computeRawChange { builder with inputs } with
  | error e => rfl
  | ok funded =>
      have hinputs : funded.inputs = inputs := TransactionBuilder.computeRawChange_inputs hfunded
      change (pure funded >>= _) = (pure funded >>= _)
      rw [pure_bind, pure_bind, TransactionBuilder.extras, hinputs]
      rfl

/-! ## The filter -/

theorem filterFallible_eq {α : Type} {p : α → Fallible Bool} {q : α → Bool} {xs : List α}
    (h : ∀ x ∈ xs, p x = .ok (q x)) : filterFallible p xs = .ok (xs.filter q) := by
  induction xs with
  | nil => rfl
  | cons x xs ih =>
      have hrest := ih fun y hy => h y (List.mem_cons_of_mem x hy)
      simp only [filterFallible, h x List.mem_cons_self, hrest, bind_eq_ok, pure_eq_ok]
      refine ⟨_, rfl, _, rfl, ?_⟩
      cases hx : q x <;> simp [hx]

namespace TransactionBuilder

variable {b : TransactionBuilder} {u : UtxoCandidate}

theorem candidate_change_eq (hfits : (b.draft.withInputs [u]).Fits) :
    (if b.totalRequested ≤ u.amount then u.amount - b.totalRequested else 0) =
      UInt64.ofNat (b.draft.withInputs [u]).change := by
  have hchange : (b.draft.withInputs [u]).change =
      u.amount.toNat - b.draft.requested := by
    simp [Draft.change, Draft.inputTotal, Draft.requested]
  have hrequested : b.draft.requested < U64_SIZE := hfits.requested
  rw [hchange, totalRequested_eq]
  split_ifs with hle
  · rw [ofNat_le_iff hrequested] at hle
    rw [UInt64.ofNat_sub hle, UInt64.ofNat_toNat]
  · rw [ofNat_le_iff hrequested] at hle
    rw [Nat.sub_eq_zero_of_le (Nat.le_of_not_le hle)]
    rfl

theorem weightWithCandidate_eq (hfits : (b.draft.withInputs [u]).Fits) :
    b.weightWithCandidate u b.totalRequested =
      .ok (UInt64.ofNat (b.draft.withInputs [u]).weight) := by
  have hinput : u.spendPath.inputWeight =
      .ok (UInt64.ofNat (b.draft.withInputs [u]).inputWeight) := by
    simp only [SpendPath.inputWeight, bind_eq_ok, require_eq_ok, pure_eq_ok]
    refine ⟨(), hfits.inputWeight_lt (List.mem_singleton_self u), ?_⟩
    simp only [Draft.inputWeight, Draft.withInputs_inputs, List.map_singleton, List.sum_singleton,
      UInt64.ofNat_add, UInt64.ofNat_toNat]
  have hchange : (b.totalRequested < u.amount) ↔
      0 < (b.draft.withInputs [u]).change := by
    have hrequested : b.draft.requested < U64_SIZE := hfits.requested
    rw [totalRequested_eq, UInt64.lt_iff_toNat_lt, toNat_ofNat hrequested]
    simp [Draft.change, Draft.inputTotal, Draft.requested]
  simp only [weightWithCandidate, hinput, bind_eq_ok, pure_eq_ok]
  refine ⟨_, rfl, ?_⟩
  rw [decide_eq_decide.mpr hchange]
  exact weightFor_eq (b.withInputs [u]) _

theorem candidateFitsFeeBudget_eq (hfits : (b.draft.withInputs [u]).Fits)
    (hsome : b.outputs ≠ []) :
    b.candidateFitsFeeBudget u b.totalRequested =
      .ok (decide (u.status.isConfirmed ∨ (b.draft.withInputs [u]).FeesPass)) := by
  unfold candidateFitsFeeBudget
  by_cases hconfirmed : u.status.isConfirmed
  · simp [hconfirmed]
  · rw [if_neg hconfirmed]
    set alone : TransactionBuilder := { b with
      inputs := [u]
      outputs := b.outputs.map fun o => { o with netAmount := 0 }
      rawChange := some (if b.totalRequested ≤ u.amount then u.amount - b.totalRequested else 0)
      finalChange := none } with halone
    have hdraft : alone.draft = b.draft.withInputs [u] := by
      simp [halone, draft, Draft.withInputs, Function.comp_def]
    have hcounted : alone.Counted := by
      rw [Counted, hdraft, ← candidate_change_eq hfits]
    have hdecides := checkFees_decides (hdraft ▸ hfits) hcounted (by simpa [halone] using hsome)
    rw [hdraft] at hdecides
    simp only [hdecides.isErr_eq, bind_eq_ok, pure_eq_ok]
    exact ⟨_, rfl, by simp [hconfirmed]⟩

theorem chainWeight_eq (d : Draft) (u : UtxoCandidate) : u.status.unconfirmedAncestorWeight =
    UInt64.ofNat (valueSum ((d.withInputs [u]).zeroConf.map AncestorTx.txWeight)) := by
  rw [UtxoStatus.unconfirmedAncestorWeight, sum_eq_ofNat]
  simp [Draft.zeroConf]

theorem listedWeight_lt {d : Draft} (hfits : d.Fits) :
    valueSum (d.zeroConf.map AncestorTx.txWeight) + d.weight < U64_SIZE := by
  have hweight := hfits.weight
  have hle := d.weightWith_le (0 < d.change)
  rw [Draft.grossWeight] at hweight
  rw [Draft.weight]
  omega

theorem isEligible_eq (hfits : (b.draft.withInputs [u]).Fits)
    (hsome : b.outputs ≠ []) :
    b.isEligible b.totalRequested u = .ok (decide (b.draft.Eligible u)) := by
  unfold isEligible
  split_ifs with hdepth
  · simp only [weightWithCandidate_eq hfits, bind, Except.bind, chainWeight_eq b.draft u,
      ← UInt64.ofNat_add, ofNat_le_iff (listedWeight_lt hfits),
      candidateFitsFeeBudget_eq hfits hsome]
    split_ifs with hpackage
    · congr 1
      rw [decide_eq_decide]
      exact ⟨fun h => ⟨hdepth.1, hdepth.2, hpackage, h⟩, fun h => h.2.2.2⟩
    · congr 1
      exact (decide_eq_false fun h => hpackage h.2.2.1).symm
  · congr 1
    exact (decide_eq_false fun h => hdepth ⟨h.1, h.2.1⟩).symm

/-! ## The funding loop -/

/-- The loop takes candidates from the front. It stops at the first that covers the requests, at
the input limit, or at the end. -/
theorem fund_eq (maxInputs : Nat) {requested : Nat} (taken : List UtxoCandidate)
    {pool : List UtxoCandidate}
    (hfit : valueSum ((taken ++ pool).map UtxoCandidate.amount) < U64_SIZE)
    (hrequested : requested < U64_SIZE) :
    ∃ k ≤ pool.length, fund maxInputs (UInt64.ofNat requested) pool taken
        (UInt64.ofNat (valueSum (taken.map UtxoCandidate.amount))) =
          (taken ++ pool.take k,
            UInt64.ofNat (valueSum ((taken ++ pool.take k).map UtxoCandidate.amount))) ∧
      (k = 0 ∨ taken.length + k ≤ maxInputs) ∧
      (∀ j < k, valueSum ((taken ++ pool.take j).map UtxoCandidate.amount) < requested) ∧
      (requested ≤ valueSum ((taken ++ pool.take k).map UtxoCandidate.amount) ∨
        maxInputs ≤ taken.length + k ∨ k = pool.length) := by
  induction pool generalizing taken with
  | nil => exact ⟨0, le_rfl, by simp [fund], .inl rfl, by simp, .inr (.inr rfl)⟩
  | cons u pool ih =>
      have htaken : valueSum (taken.map UtxoCandidate.amount) < U64_SIZE := by
        refine Nat.lt_of_le_of_lt (valueSum_map_le_of_subperm _ ?_) hfit
        exact (List.sublist_append_left taken (u :: pool)).subperm
      unfold fund
      split_ifs with hstop
      · rw [ofNat_le_iff hrequested, toNat_ofNat htaken] at hstop
        refine ⟨0, Nat.zero_le _, by simp, .inl rfl, by simp, ?_⟩
        simpa using hstop.symm
      · rw [ofNat_le_iff hrequested, toNat_ofNat htaken, not_or] at hstop
        have hnext : UInt64.ofNat (valueSum (taken.map UtxoCandidate.amount)) + u.amount =
            UInt64.ofNat (valueSum ((taken ++ [u]).map UtxoCandidate.amount)) := by
          simp [valueSum, UInt64.ofNat_add]
        have hlength : (taken ++ [u]).length = taken.length + 1 := List.length_append
        have hlist : ∀ k, taken ++ (u :: pool).take (k + 1) = (taken ++ [u]) ++ pool.take k := by
          simp
        have hfit' : valueSum (((taken ++ [u]) ++ pool).map UtxoCandidate.amount) < U64_SIZE := by
          simpa using hfit
        obtain ⟨k, hk, heq, hlimit, hshort, hend⟩ := ih (taken ++ [u]) hfit'
        rw [hnext, heq]
        refine ⟨k + 1, Nat.succ_le_succ hk, by rw [hlist], .inr (by omega), ?_, ?_⟩
        · intro j hj
          cases j with
          | zero => simpa using hstop.2
          | succ j =>
              rw [hlist]
              exact hshort j (Nat.lt_of_succ_lt_succ hj)
        · rw [hlist, List.length_cons]
          omega

/-! ## The consolidation loop -/

def admits (b : TransactionBuilder) (inputs : List UtxoCandidate) : Bool :=
  decide (inputs.length ≤ b.params.maxInputs ∧ (b.draft.withInputs inputs).Passes)

theorem inputTotal_mono {d : Draft} {inputs inputs' : List UtxoCandidate}
    (h : inputs.Subperm inputs') :
    (d.withInputs inputs).inputTotal ≤ (d.withInputs inputs').inputTotal :=
  valueSum_map_le_of_subperm _ h

theorem consolidate_eq {extras : List UtxoCandidate}
    (hfits : (b.draft.withInputs (b.inputs ++ extras)).Fits) (hcounted : b.Counted)
    (hsome : b.outputs ≠ []) (hcovered : b.draft.requested ≤ b.draft.inputTotal) :
    b.consolidate extras = .ok (b.withInputs (extendWhile b.admits b.inputs extras)) := by
  induction extras generalizing b with
  | nil => rw [consolidate, extendWhile, hcounted.withInputs_self]
  | cons u extras ih =>
      set next := b.withInputs (b.inputs ++ [u]) with hnext
      have hsub : (b.inputs ++ [u]).Subperm (b.inputs ++ u :: extras) :=
        ((List.singleton_sublist.mpr List.mem_cons_self).append_left b.inputs).subperm
      have hnextFits : next.draft.Fits := hfits.mono hsub
      have hgrows : b.draft.inputTotal ≤ next.draft.inputTotal :=
        inputTotal_mono (d := b.draft) (List.sublist_append_left b.inputs [u]).subperm
      have hcomputed : computeRawChange { b with inputs := b.inputs ++ [u] } = .ok next :=
        computeRawChange_eq (b := { b with inputs := b.inputs ++ [u] }) hnextFits
          (hcovered.trans hgrows)
      have hlimit : next.exceedsAnyLimit = .ok (!decide next.draft.Passes) :=
        exceedsAnyLimit_eq hnextFits (b.withInputs_counted _) hsome
      rw [consolidate, extendWhile]
      by_cases hfull : b.params.maxInputs ≤ b.inputs.length
      · have hnot : b.admits (b.inputs ++ [u]) = false := by
          refine decide_eq_false fun h => ?_
          have := h.1
          rw [List.length_append, List.length_singleton] at this
          omega
        rw [if_pos hfull, hnot, if_neg Bool.false_ne_true, hcounted.withInputs_self]
      · have hroom : (b.inputs ++ [u]).length ≤ b.params.maxInputs := by
          rw [List.length_append, List.length_singleton]
          omega
        rw [if_neg hfull, hcomputed]
        change (next.exceedsAnyLimit >>= _) = _
        rw [hlimit]
        by_cases hpasses : next.draft.Passes
        · have hadmits : b.admits (b.inputs ++ [u]) = true := decide_eq_true ⟨hroom, hpasses⟩
          have hrest : (b.draft.withInputs ((b.inputs ++ [u]) ++ extras)).Fits := by
            rw [List.append_assoc]
            exact hfits
          rw [hadmits, if_pos rfl, decide_eq_true hpasses]
          exact ih hrest (b.withInputs_counted _) hsome (hcovered.trans hgrows)
        · have hadmits : b.admits (b.inputs ++ [u]) = false := decide_eq_false fun h => hpasses h.2
          have hback : { next with inputs := next.inputs.dropLast } =
              { b with rawChange := next.rawChange } := by
            simp [hnext, withInputs]
          have hfirst : b.draft.Fits := hfits.mono (List.sublist_append_left _ _).subperm
          rw [hadmits, if_neg Bool.false_ne_true, decide_eq_false hpasses]
          change computeRawChange { next with inputs := next.inputs.dropLast } = _
          rw [hback]
          exact computeRawChange_eq (b := { b with rawChange := next.rawChange }) hfirst hcovered

end TransactionBuilder

/-! ## Before consolidation -/

section Selection

variable {utxos pool : List UtxoCandidate} {requests : List WithdrawalRequest}
  {params : CoinSelectionParams} {feeRate : FeeRate} {b : TransactionBuilder}

theorem batchBuilder_draft (requests : List WithdrawalRequest) (params : CoinSelectionParams)
    (feeRate : FeeRate) :
    (batchBuilder requests params feeRate).draft = batchDraft requests params feeRate [] := by
  simp [batchBuilder, TransactionBuilder.draft, batchDraft, selectRequests, oldestRequests,
    Function.comp_def]

theorem selectRequests_ne_nil (hrequests : requests ≠ []) {maxWithdrawalRequests : Nat}
    (hmax : maxWithdrawalRequests ≠ 0) : selectRequests requests maxWithdrawalRequests ≠ [] := by
  have hlength := (List.perm_insertionSort (fun a b : WithdrawalRequest =>
    a.timestampMs ≤ b.timestampMs) requests).length_eq
  have hpos := List.length_pos_iff.mpr hrequests
  rw [← List.length_pos_iff, selectRequests, List.length_map, List.length_take]
  omega

theorem eligibleCandidates_eq (hfits : (batchDraft requests params feeRate utxos).Fits)
    (hrequests : requests ≠ []) (hmax : params.maxWithdrawalRequests ≠ 0) :
    eligibleCandidates utxos requests params feeRate = .ok (utxos.filter fun u =>
      decide ((batchDraft requests params feeRate []).Eligible u)) := by
  refine filterFallible_eq fun u hu => ?_
  rw [← batchBuilder_draft]
  refine TransactionBuilder.isEligible_eq ?_ (selectRequests_ne_nil hrequests hmax)
  rw [batchBuilder_draft]
  exact hfits.mono (List.singleton_sublist.mpr hu).subperm

theorem fundingOrder_filter_subperm {p : UtxoCandidate → Bool} :
    (fundingOrder (utxos.filter p)).Subperm utxos :=
  (List.perm_insertionSort _ _).subperm.trans List.filter_sublist.subperm

/-- What the funding loop leaves behind: a number of candidates from the front of the pool. -/
structure FundedBy (d : Draft) (pool : List UtxoCandidate) (k : Nat) : Prop where
  length_le : k ≤ pool.length
  limit : k ≤ d.params.maxInputs
  short : ∀ j < k, (d.withInputs (pool.take j)).inputTotal < d.requested
  stops : d.requested ≤ (d.withInputs (pool.take k)).inputTotal ∨ d.params.maxInputs ≤ k ∨
    k = pool.length

theorem fund_fundedBy {d : Draft} (hamounts : (d.withInputs pool).inputTotal < U64_SIZE)
    (hrequested : d.requested < U64_SIZE) :
    ∃ k, FundedBy d pool k ∧ TransactionBuilder.fund d.params.maxInputs
      (UInt64.ofNat d.requested) pool [] 0 =
        (pool.take k, UInt64.ofNat (d.withInputs (pool.take k)).inputTotal) := by
  obtain ⟨k, hk, heq, hlimit, hshort, hstops⟩ :=
    TransactionBuilder.fund_eq d.params.maxInputs [] hamounts hrequested
  rw [List.length_nil, Nat.zero_add] at hlimit hstops
  refine ⟨k, ⟨hk, ?_, hshort, hstops⟩, heq⟩
  rcases hlimit with rfl | hlimit
  · exact Nat.zero_le _
  · exact hlimit

theorem TransactionBuilder.fundFrom_cases (hfits : (b.draft.withInputs pool).Fits) :
    ∃ k, FundedBy b.draft pool k ∧
      (b.draft.requested ≤ (b.draft.withInputs (pool.take k)).inputTotal ∧
        b.fundFrom pool = .ok (b.withInputs (pool.take k)) ∨
      (b.draft.withInputs (pool.take k)).inputTotal < b.draft.requested ∧
        ∃ e, e.IsInsufficientFunds ∧ b.fundFrom pool = .error (.returned e)) := by
  have hrequested : b.draft.requested < U64_SIZE := hfits.requested
  obtain ⟨k, hfunded, hfund⟩ := fund_fundedBy hfits.amounts hrequested
  have htaken : (b.draft.withInputs (pool.take k)).Fits :=
    hfits.mono (List.take_sublist k pool).subperm
  have hword : b.totalRequested ≤ UInt64.ofNat (b.draft.withInputs (pool.take k)).inputTotal ↔
      b.draft.requested ≤ (b.draft.withInputs (pool.take k)).inputTotal := by
    rw [totalRequested_eq, ofNat_le_iff hrequested, toNat_ofNat htaken.amounts]
  rw [← totalRequested_eq] at hfund
  refine ⟨k, hfunded, ?_⟩
  rw [fundFrom, show b.params = b.draft.params from rfl, hfund]
  by_cases hcovered : b.draft.requested ≤ (b.draft.withInputs (pool.take k)).inputTotal
  · refine .inl ⟨hcovered, ?_⟩
    simp only [bind_eq_ok, require_eq_ok]
    exact ⟨(), hword.mpr hcovered,
      computeRawChange_eq (b := { b with inputs := pool.take k }) htaken hcovered⟩
  · refine .inr ⟨Nat.lt_of_not_le hcovered, ?_⟩
    simp only [Lib.require, if_neg (mt hword.mp hcovered)]
    exact ⟨.insufficientFunds _ _ _ _ _, trivial, rfl⟩

theorem preConsolidation_eq (hfits : (batchDraft requests params feeRate utxos).Fits)
    (hutxos : utxos ≠ []) (hrequests : requests ≠ []) (hmax : params.maxWithdrawalRequests ≠ 0) :
    preConsolidation utxos requests params feeRate =
      (fundingOrder (utxos.filter fun u =>
        decide ((batchDraft requests params feeRate []).Eligible u)), ·) <$>
      (batchBuilder requests params feeRate).fundFrom (fundingOrder (utxos.filter fun u =>
        decide ((batchDraft requests params feeRate []).Eligible u))) := by
  simp only [preConsolidation, require_pos hutxos, require_pos hrequests, require_pos hmax,
    eligibleCandidates_eq hfits hrequests hmax, map_eq_pure_bind]
  rfl

/-- The builder before consolidation: funded from the front of the pool. -/
structure Base (utxos : List UtxoCandidate) (requests : List WithdrawalRequest)
    (params : CoinSelectionParams) (feeRate : FeeRate) (pool : List UtxoCandidate)
    (b : TransactionBuilder) : Prop where
  batch : requests ≠ [] ∧ params.maxWithdrawalRequests ≠ 0
  candidates : pool.Subperm utxos
  funded : b.inputs <+: pool
  limit : b.inputs.length ≤ params.maxInputs
  builder : b = (batchBuilder requests params feeRate).withInputs b.inputs
  covered : b.draft.requested ≤ b.draft.inputTotal

theorem preConsolidation_base (hfits : (batchDraft requests params feeRate utxos).Fits)
    (h : preConsolidation utxos requests params feeRate = .ok (pool, b)) :
    Base utxos requests params feeRate pool b := by
  obtain ⟨hutxos, hrequests, hmax⟩ :
      utxos ≠ [] ∧ requests ≠ [] ∧ params.maxWithdrawalRequests ≠ 0 := by
    simp only [preConsolidation, bind_eq_ok, require_eq_ok] at h
    obtain ⟨_, hutxos, _, hrequests, _, hmax, _⟩ := h
    exact ⟨hutxos, hrequests, hmax⟩
  rw [preConsolidation_eq hfits hutxos hrequests hmax, map_eq_ok] at h
  obtain ⟨_, hfund, heq⟩ := h
  simp only [Prod.mk.injEq] at heq
  obtain ⟨rfl, rfl⟩ := heq
  set pool := fundingOrder (utxos.filter fun u =>
    decide ((batchDraft requests params feeRate []).Eligible u))
  have hsub : pool.Subperm utxos := fundingOrder_filter_subperm
  have hpool : ((batchBuilder requests params feeRate).draft.withInputs pool).Fits := by
    rw [batchBuilder_draft]
    exact hfits.mono hsub
  obtain ⟨k, hfunded, hcases⟩ := TransactionBuilder.fundFrom_cases hpool
  obtain ⟨hcovered, hok⟩ | ⟨_, e, _, herror⟩ := hcases
  · cases hfund.symm.trans hok
    have hlimit : (pool.take k).length ≤ params.maxInputs :=
      (List.length_take_le k pool).trans hfunded.limit
    exact ⟨⟨hrequests, hmax⟩, hsub, List.take_prefix k pool, hlimit, rfl, hcovered⟩
  · cases hfund.symm.trans herror

namespace Base

def finalInputs (pool : List UtxoCandidate) (b : TransactionBuilder) : List UtxoCandidate :=
  extendWhile b.admits b.inputs (b.extras pool)

theorem finalInputs_subperm : (finalInputs pool b).Subperm (b.inputs ++ b.extras pool) := by
  obtain ⟨added, heq, hadded⟩ := extendWhile_eq_append b.admits b.inputs (b.extras pool)
  rw [finalInputs, heq]
  exact (hadded.sublist.append_left b.inputs).subperm

theorem initial_finalInputs (pool : List UtxoCandidate) (b : TransactionBuilder) :
    b.inputs <+: finalInputs pool b := by
  obtain ⟨added, heq, _⟩ := extendWhile_eq_append b.admits b.inputs (b.extras pool)
  exact ⟨added, heq.symm⟩

variable (h : Base utxos requests params feeRate pool b)

include h

theorem draft_eq :
    b.draft = batchDraft requests params feeRate b.inputs := by
  have hdraft := congrArg TransactionBuilder.draft h.builder
  rwa [TransactionBuilder.withInputs_draft, batchBuilder_draft] at hdraft

theorem counted : b.Counted := by
  rw [h.builder]
  exact TransactionBuilder.withInputs_counted _ _

theorem some_outputs : b.outputs ≠ [] := by
  rw [h.builder]
  exact selectRequests_ne_nil h.batch.1 h.batch.2

theorem params_eq : b.params = params := by
  rw [h.builder]
  rfl

theorem extras_subperm :
    (b.inputs ++ b.extras pool).Subperm utxos := by
  refine List.Subperm.trans ?_ h.candidates
  obtain ⟨rest, rfl⟩ := h.funded
  rw [TransactionBuilder.extras]
  split_ifs with hchange
  · set fresh : UtxoCandidate → Bool := fun u =>
      u.status.isConfirmed && !b.inputs.any fun s => s.id == u.id with hfresh
    have hnone : b.inputs.filter fresh = [] := by
      rw [List.filter_eq_nil_iff]
      intro u hu hfresh'
      have hany : (b.inputs.any fun s => s.id == u.id) = true :=
        List.any_eq_true.mpr ⟨u, hu, beq_self_eq_true u.id⟩
      simp [hfresh, hany] at hfresh'
    rw [List.filter_append, hnone, List.nil_append, List.subperm_append_left]
    refine (List.take_sublist _ _).subperm.trans ((List.perm_insertionSort _ _).subperm.trans ?_)
    exact List.filter_sublist.subperm
  · rw [List.append_nil]
    exact (List.sublist_append_left _ _).subperm

theorem fits (hfits : (batchDraft requests params feeRate utxos).Fits) :
    (b.draft.withInputs (b.inputs ++ b.extras pool)).Fits := by
  rw [h.draft_eq]
  exact hfits.mono h.extras_subperm

/-! ## After consolidation -/

theorem final_covered :
    b.draft.requested ≤ (b.draft.withInputs (finalInputs pool b)).inputTotal :=
  h.covered.trans (valueSum_map_le_of_subperm _ (initial_finalInputs pool b).sublist.subperm)

theorem final_admits (hpasses : b.draft.Passes) :
    (finalInputs pool b).length ≤ params.maxInputs ∧
      (b.draft.withInputs (finalInputs pool b)).Passes := by
  have hfirst : b.admits b.inputs = true := by
    refine decide_eq_true ⟨?_, hpasses⟩
    rw [h.params_eq]
    exact h.limit
  have hlast := of_decide_eq_true (extendWhile_passes hfirst (b.extras pool))
  rwa [h.params_eq] at hlast

theorem selectCoins_of_passes
    (hpre : preConsolidation utxos requests params feeRate = .ok (pool, b))
    (hfits : (batchDraft requests params feeRate utxos).Fits) (hpasses : b.draft.Passes) :
    let last := b.draft.withInputs (finalInputs pool b)
    selectCoins utxos requests params feeRate =
      if last.ChangePasses then .ok last.result
      else .error (.returned (.subDustChange (UInt64.ofNat last.change)
        (dustThresholdForChange params.changeScript))) := by
  intro last
  have hall := h.fits hfits
  have hbase : b.draft.Fits := hall.mono (List.sublist_append_left _ _).subperm
  have hlast : last.Fits := hall.mono finalInputs_subperm
  have hcounted := b.withInputs_counted (finalInputs pool b)
  have hfees := TransactionBuilder.checkFees_decides hbase h.counted h.some_outputs
  have hweight := TransactionBuilder.checkWeight_decides hbase h.counted
  have hrun := TransactionBuilder.consolidate_eq hall h.counted h.some_outputs h.covered
  have hagain : (b.withInputs (finalInputs pool b)).computeRawChange =
      .ok (b.withInputs (finalInputs pool b)) :=
    TransactionBuilder.computeRawChange_eq (b := b.withInputs (finalInputs pool b)) hlast
      h.final_covered
  rw [selectCoins_eq, hpre]
  change (b.checkFees >>= _) = _
  rw [hfees.eq_ok.mpr hpasses.1]
  change (b.checkWeight >>= _) = _
  rw [hweight.eq_ok.mpr hpasses.2]
  change (b.consolidate (b.extras pool) >>= _) = _
  rw [hrun]
  change ((b.withInputs (finalInputs pool b)).computeRawChange >>= _) = _
  rw [hagain]
  change ((b.withInputs (finalInputs pool b)).finalizeFees >>= _) = _
  split_ifs with hchange
  · obtain ⟨paid, fee, hok, hresult⟩ := TransactionBuilder.finalizeFees_of_changePasses
      (b := b.withInputs (finalInputs pool b)) hlast hcounted h.some_outputs h.final_covered
      (h.final_admits hpasses).2.1 hchange
    rw [hok]
    exact congrArg Except.ok hresult
  · rw [TransactionBuilder.finalizeFees_of_dust (b := b.withInputs (finalInputs pool b)) hlast
      hcounted hchange, TransactionBuilder.withInputs, h.params_eq]
    rfl

theorem selectCoins_of_not_passes
    (hpre : preConsolidation utxos requests params feeRate = .ok (pool, b))
    (hfits : (batchDraft requests params feeRate utxos).Fits) (hpasses : ¬ b.draft.Passes) :
    ∃ e, ¬ e.IsInsufficientFunds ∧
      selectCoins utxos requests params feeRate = .error (.returned e) := by
  have hbase : b.draft.Fits := (h.fits hfits).mono (List.sublist_append_left _ _).subperm
  rw [selectCoins_eq, hpre]
  change ∃ e, _ ∧ (b.checkFees >>= _) = _
  obtain ⟨hfees, hok⟩ | ⟨_, e, he, herror⟩ :=
    TransactionBuilder.checkFees_decides hbase h.counted h.some_outputs
  · rw [hok]
    change ∃ e, _ ∧ (b.checkWeight >>= _) = _
    obtain ⟨hweight, _⟩ | ⟨_, e, he, herror⟩ :=
      TransactionBuilder.checkWeight_decides hbase h.counted
    · exact absurd ⟨hfees, hweight⟩ hpasses
    · rw [herror]
      exact ⟨e, he, rfl⟩
  · rw [herror]
    exact ⟨e, he, rfl⟩

end Base

end Selection

end HashiBridge.Node
