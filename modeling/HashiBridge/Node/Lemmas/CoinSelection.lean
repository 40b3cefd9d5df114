import HashiBridge.Lib.Loop
import HashiBridge.Lib.Word
import HashiBridge.Node.CoinSelection

/-!
# What a successful selection returns

Consolidation changes the inputs only, so a result comes from a builder for the selected requests
whose inputs cover them. `selectCoins_planned` says what such a result holds.
-/

namespace HashiBridge.Node

open Lib HashiBridge.Core Btc

namespace TransactionBuilder

variable {b b' : TransactionBuilder}

theorem computeRawChange_eq_ok : b.computeRawChange = .ok b' ↔
    b.totalRequested ≤ b.inputTotal ∧
      b' = { b with rawChange := some (b.inputTotal - b.totalRequested) } := by
  simp only [computeRawChange, bind_eq_ok, require_eq_ok, pure_eq_ok, exists_const, @eq_comm _ b']

def SameBatch (b b' : TransactionBuilder) : Prop := b'.outputs = b.outputs ∧ b'.params = b.params

theorem computeRawChange_sameBatch (h : b.computeRawChange = .ok b') : b.SameBatch b' := by
  obtain ⟨_, rfl⟩ := computeRawChange_eq_ok.mp h
  exact ⟨rfl, rfl⟩

theorem consolidate_sameBatch {extras : List UtxoCandidate} (h : b.consolidate extras = .ok b') :
    b.SameBatch b' := by
  induction extras generalizing b with
  | nil =>
      cases h
      exact ⟨rfl, rfl⟩
  | cons u extras ih =>
      unfold consolidate at h
      split_ifs at h with hfull
      · cases h
        exact ⟨rfl, rfl⟩
      · simp only [bind_eq_ok] at h
        obtain ⟨next, hnext, tooMuch, _, h⟩ := h
        obtain ⟨houtputs, hparams⟩ := computeRawChange_sameBatch hnext
        cases tooMuch with
        | true =>
            obtain ⟨houtputs', hparams'⟩ := computeRawChange_sameBatch h
            exact ⟨houtputs'.trans houtputs, hparams'.trans hparams⟩
        | false =>
            obtain ⟨houtputs', hparams'⟩ := ih h
            exact ⟨houtputs'.trans houtputs, hparams'.trans hparams⟩

def shareOf (b : TransactionBuilder) (requiredFee : UInt64) : UInt64 :=
  divCeil requiredFee (UInt64.ofNat b.outputs.length)

def charged (b : TransactionBuilder) (requiredFee : UInt64) (o : PendingOutput) : PendingOutput :=
  { o with netAmount := o.request.amount - b.shareOf requiredFee }

theorem checkFees_eq_ok {u : Unit} (hn : UInt64.ofNat b.outputs.length ≠ 0)
    (h : b.checkFees = .ok u) :
    ∃ fee, b.requiredFee = .ok fee ∧ b.shareOf fee ≤ b.params.maxFeePerRequest ∧
      ∀ o ∈ b.outputs, b.shareOf fee + o.dustThreshold ≤ o.request.amount := by
  simp only [checkFees, if_neg hn, bind_eq_ok, require_eq_ok, forM_eq_ok] at h
  obtain ⟨weight, hweight, own, hown, deficit, hdeficit, _, hcap, houtputs⟩ := h
  refine ⟨own + deficit, ?_, hcap, houtputs⟩
  simp only [requiredFee, bind_eq_ok, pure_eq_ok]
  exact ⟨weight, hweight, own, hown, deficit, hdeficit, rfl⟩

theorem finalizeFees_eq_ok {fee : UInt64} (h : b.finalizeFees = .ok (b', fee)) :
    ∃ change required, b.rawChange = some change ∧ b.requiredFee = .ok required ∧
      UInt64.ofNat b.outputs.length ≠ 0 ∧
      b.shareOf required ≤ b.params.maxFeePerRequest ∧
      (∀ o ∈ b.outputs, b.shareOf required + o.dustThreshold ≤ o.request.amount) ∧
      b' = { b with
        outputs := b.outputs.map (b.charged required)
        finalChange := if 0 < change then some change else none } ∧
      fee = b.inputTotal - (b'.outputs.map PendingOutput.netAmount).sum -
        b'.finalChange.getD 0 := by
  simp only [finalizeFees, bind_eq_ok, require_eq_ok, orAbort_eq_ok, pure_eq_ok,
    Prod.mk.injEq] at h
  obtain ⟨change, hchange, _, _, _, hfees, required, hrequired, _, hn, _, _, rfl, rfl⟩ := h
  obtain ⟨required', hrequired', hcap, houtputs⟩ := checkFees_eq_ok hn hfees
  obtain rfl : required' = required := Except.ok.inj (hrequired'.symm.trans hrequired)
  exact ⟨change, required', hchange, hrequired, hn, hcap, houtputs, rfl, rfl⟩

end TransactionBuilder

def WithdrawalRequest.dustThreshold (self : WithdrawalRequest) : UInt64 :=
  PendingOutput.dustThreshold ⟨self, 0⟩

/-- A result that pays every request its amount less `share`, in words. -/
structure Planned (maxFeePerRequest : UInt64) (result : CoinSelectionResult) (share : UInt64) :
    Prop where
  count : UInt64.ofNat result.selectedRequests.length ≠ 0
  covered : (result.selectedRequests.map WithdrawalRequest.amount).sum ≤
    (result.inputs.map UtxoCandidate.amount).sum
  share_le : share ≤ maxFeePerRequest
  affords : ∀ r ∈ result.selectedRequests, share + r.dustThreshold ≤ r.amount
  outputs : result.withdrawalOutputs =
    result.selectedRequests.map fun r => ⟨r.id, r.recipient, r.amount - share⟩
  change : result.change.getD 0 = (result.inputs.map UtxoCandidate.amount).sum -
    (result.selectedRequests.map WithdrawalRequest.amount).sum
  fee : result.fee = (result.inputs.map UtxoCandidate.amount).sum -
    (result.withdrawalOutputs.map WithdrawalOutput.amount).sum - result.change.getD 0

theorem change_getD (change : UInt64) :
    (if 0 < change then some change else none).getD 0 = change := by
  split_ifs with h
  · rfl
  · have : change.toNat = 0 := by
      rw [UInt64.lt_iff_toNat_lt] at h
      simpa using h
    exact (UInt64.toNat_inj.mp this).symm

theorem TransactionBuilder.finalizeFees_planned {b b' : TransactionBuilder} {fee : UInt64}
    (hcovered : b.totalRequested ≤ b.inputTotal)
    (hraw : b.rawChange = some (b.inputTotal - b.totalRequested))
    (h : b.finalizeFees = .ok (b', fee)) :
    ∃ share, Planned b.params.maxFeePerRequest (b'.result fee) share := by
  obtain ⟨change, required, hchange, _, hn, hcap, haffords, rfl, rfl⟩ := finalizeFees_eq_ok h
  obtain rfl := Option.some.inj (hraw.symm.trans hchange)
  have hrequested : b.totalRequested = ((b.outputs.map PendingOutput.request).map
      WithdrawalRequest.amount).sum := by
    rw [List.map_map]
    rfl
  have hselected : (b.outputs.map (b.charged required)).map PendingOutput.request =
      b.outputs.map PendingOutput.request := by
    rw [List.map_map]
    rfl
  refine ⟨b.shareOf required, ?_⟩
  constructor
  case count => simpa only [result, List.length_map] using hn
  case covered =>
    simp only [result, hselected, ← hrequested]
    exact hcovered
  case share_le => exact hcap
  case affords =>
    simp only [result, hselected]
    intro r hr
    obtain ⟨o, ho, rfl⟩ := List.mem_map.mp hr
    exact haffords o ho
  case outputs => simp [result, charged, Function.comp_def]
  case change =>
    simp only [result, hselected, ← hrequested]
    exact change_getD _
  case fee =>
    simp only [result, List.map_map]
    rfl

theorem selectCoins_planned {utxos : List UtxoCandidate} {requests : List WithdrawalRequest}
    {params : CoinSelectionParams} {feeRate : FeeRate} {result : CoinSelectionResult}
    (h : selectCoins utxos requests params feeRate = .ok result) :
    (∃ share, Planned params.maxFeePerRequest result share) ∧
      result.selectedRequests =
        (requests.insertionSort fun a b => a.timestampMs ≤ b.timestampMs).take
          params.maxWithdrawalRequests := by
  simp only [selectCoins, bind_eq_ok, require_eq_ok, pure_eq_ok, Prod.exists] at h
  obtain ⟨_, _, _, _, _, _, pool, _, _, _, funded, hfunded, _, _, _, _, last, hlast, final, hfinal,
    paid, fee, hpaid, rfl⟩ := h
  obtain ⟨houtputs, hparams⟩ := TransactionBuilder.computeRawChange_sameBatch hfunded
  obtain ⟨houtputs', hparams'⟩ := TransactionBuilder.consolidate_sameBatch hlast
  obtain ⟨houtputs'', hparams''⟩ := TransactionBuilder.computeRawChange_sameBatch hfinal
  have hbatch : final.outputs = selectRequests requests params.maxWithdrawalRequests :=
    houtputs''.trans (houtputs'.trans houtputs)
  have hparam : final.params = params := hparams''.trans (hparams'.trans hparams)
  constructor
  · obtain ⟨hcovered, hraw⟩ := TransactionBuilder.computeRawChange_eq_ok.mp hfinal
    have hplanned := TransactionBuilder.finalizeFees_planned (hraw ▸ hcovered)
      (by rw [hraw]; rfl) hpaid
    rwa [hparam] at hplanned
  · obtain ⟨_, _, _, _, _, _, _, rfl, _⟩ := TransactionBuilder.finalizeFees_eq_ok hpaid
    simp [TransactionBuilder.result, TransactionBuilder.charged, hbatch, selectRequests,
      Function.comp_def]

/-! ## Where the inputs come from -/

theorem filterFallible_subset {α : Type} {p : α → Fallible Bool} {xs kept : List α}
    (h : filterFallible p xs = .ok kept) : kept ⊆ xs := by
  induction xs generalizing kept with
  | nil =>
      cases h
      exact List.Subset.refl []
  | cons x xs ih =>
      simp only [filterFallible, bind_eq_ok, pure_eq_ok] at h
      obtain ⟨keep, _, rest, hrest, rfl⟩ := h
      cases keep with
      | true => exact List.cons_subset_cons x (ih hrest)
      | false => exact List.subset_cons_of_subset x (ih hrest)

namespace TransactionBuilder

variable {b b' : TransactionBuilder}

theorem fund_subset (maxInputs : Nat) (totalRequested : UInt64) (pool inputs : List UtxoCandidate)
    (inputTotal : UInt64) :
    (fund maxInputs totalRequested pool inputs inputTotal).1 ⊆ inputs ++ pool := by
  induction pool generalizing inputs inputTotal with
  | nil => simp [fund]
  | cons u pool ih =>
      unfold fund
      split_ifs
      · exact List.subset_append_left inputs (u :: pool)
      · have hrest := ih (inputs ++ [u]) (inputTotal + u.amount)
        rwa [List.append_assoc, List.singleton_append] at hrest

theorem computeRawChange_inputs (h : b.computeRawChange = .ok b') : b'.inputs = b.inputs := by
  obtain ⟨_, rfl⟩ := computeRawChange_eq_ok.mp h
  rfl

theorem consolidate_subset {extras : List UtxoCandidate} (h : b.consolidate extras = .ok b') :
    b'.inputs ⊆ b.inputs ++ extras := by
  induction extras generalizing b with
  | nil =>
      cases h
      exact List.subset_append_left _ []
  | cons u extras ih =>
      unfold consolidate at h
      split_ifs at h with hfull
      · cases h
        exact List.subset_append_left _ (u :: extras)
      · simp only [bind_eq_ok] at h
        obtain ⟨next, hnext, tooMuch, _, h⟩ := h
        have hinputs : next.inputs = b.inputs ++ [u] := computeRawChange_inputs hnext
        cases tooMuch with
        | true =>
            have hback : b'.inputs = next.inputs.dropLast := computeRawChange_inputs h
            rw [hback, hinputs, List.dropLast_concat]
            exact List.subset_append_left b.inputs (u :: extras)
        | false =>
            have hrest := ih h
            rwa [hinputs, List.append_assoc, List.singleton_append] at hrest

end TransactionBuilder

theorem ite_nil_subset {α : Type} {p : Prop} [Decidable p] {xs : List α} :
    (if p then xs else []) ⊆ xs := by
  split_ifs <;> simp

theorem selectCoins_subset {utxos : List UtxoCandidate} {requests : List WithdrawalRequest}
    {params : CoinSelectionParams} {feeRate : FeeRate} {result : CoinSelectionResult}
    (h : selectCoins utxos requests params feeRate = .ok result) : result.inputs ⊆ utxos := by
  simp only [selectCoins, bind_eq_ok, require_eq_ok, pure_eq_ok, Prod.exists] at h
  obtain ⟨_, _, _, _, _, _, eligible, heligible, _, _, funded, hfunded, _, _, _, _, last, hlast,
    final, hfinal, paid, fee, hpaid, rfl⟩ := h
  set pool := eligible.insertionSort fun a b => largestFirst a b with hpool
  have hpool_sub : pool ⊆ utxos := fun u hu =>
    filterFallible_subset heligible ((List.perm_insertionSort _ eligible).subset hu)
  have hfunded_sub : funded.inputs ⊆ pool := by
    rw [TransactionBuilder.computeRawChange_inputs hfunded]
    exact TransactionBuilder.fund_subset _ _ pool [] 0
  have hpaid_inputs : paid.inputs = last.inputs := by
    obtain ⟨_, _, _, _, _, _, _, hcharged, _⟩ := TransactionBuilder.finalizeFees_eq_ok hpaid
    have hfinal_inputs := TransactionBuilder.computeRawChange_inputs hfinal
    rw [hcharged]
    exact hfinal_inputs
  intro u hu
  have hu' : u ∈ last.inputs := hpaid_inputs ▸ hu
  apply hpool_sub
  obtain hu' | hu' := List.mem_append.mp (TransactionBuilder.consolidate_subset hlast hu')
  · exact hfunded_sub hu'
  · have hsorted := (List.perm_insertionSort _ _).subset
      (List.mem_of_mem_take (ite_nil_subset hu'))
    exact List.mem_of_mem_filter hsorted

end HashiBridge.Node
