import HashiBridge.Btc.Lemmas.QueueSpecs
import HashiBridge.Node.Lemmas.CoinSelection

/-!
# Selections and the chain's checks

The transaction of a coin selection against the constructor of a withdrawal transaction.
-/

namespace HashiBridge.Node

open Lib HashiBridge.Core Btc

namespace CoinSelectionResult

/-! ## The transaction of a result -/

def requestIds (self : CoinSelectionResult) : List Address :=
  self.selectedRequests.map WithdrawalRequest.id

def requestInfos (self : CoinSelectionResult) : List CommittedRequestInfo :=
  self.selectedRequests.map fun r => ⟨r.amount.toNat, r.recipient⟩

def utxos (self : CoinSelectionResult) (derivationPath : UtxoId → Option Address) : List Utxo :=
  self.inputs.map fun u => ⟨u.id, u.amount.toNat, derivationPath u.id⟩

def outputUtxos (self : CoinSelectionResult) (changeAddress : Bytes) : List OutputUtxo :=
  self.withdrawalOutputs.map (fun o => ⟨o.amount.toNat, o.recipient⟩) ++
    self.change.toList.map fun c => ⟨c.toNat, changeAddress⟩

def share (self : CoinSelectionResult) : Nat := self.fee.toNat / self.selectedRequests.length

/-- The totals are `u64` values and the outputs have `u32` indices. -/
structure Fits (result : CoinSelectionResult) : Prop where
  inputs : valueSum (result.inputs.map UtxoCandidate.amount) < U64_SIZE
  requests : valueSum (result.selectedRequests.map WithdrawalRequest.amount) < U64_SIZE
  outputs : result.withdrawalOutputs.length + result.change.toList.length ≤ U32_MAX

/-- Every request is at least its fee share and the chain's dust floor. -/
def AboveFloor (self : CoinSelectionResult) : Prop :=
  ∀ r ∈ self.selectedRequests, self.share + BtcConfig.DUST_RELAY_MIN_VALUE ≤ r.amount.toNat

variable {self : CoinSelectionResult}

theorem inputSum_utxos (self : CoinSelectionResult) (derivationPath : UtxoId → Option Address) :
    WithdrawalTransaction.inputSum (self.utxos derivationPath) =
      valueSum (self.inputs.map UtxoCandidate.amount) := by
  simp [WithdrawalTransaction.inputSum, utxos, valueSum, Function.comp_def]

theorem outputSum_outputUtxos (self : CoinSelectionResult) (changeAddress : Bytes) :
    WithdrawalTransaction.outputSum (self.outputUtxos changeAddress) =
      valueSum (self.withdrawalOutputs.map WithdrawalOutput.amount) +
        (self.change.getD 0).toNat := by
  cases hchange : self.change <;>
    simp [WithdrawalTransaction.outputSum, outputUtxos, valueSum, hchange, Function.comp_def]

theorem length_outputUtxos (self : CoinSelectionResult) (changeAddress : Bytes) :
    (self.outputUtxos changeAddress).length =
      self.withdrawalOutputs.length + self.change.toList.length := by
  simp [outputUtxos]

/-! ## Amounts without wrapping -/

/-- A planned result in natural numbers: every request pays `share`, the inputs pay for requests
and change, and the fee is the sum of the shares. -/
structure Settles (result : CoinSelectionResult) (share : Nat) : Prop where
  nonempty : result.selectedRequests ≠ []
  covered : valueSum (result.selectedRequests.map WithdrawalRequest.amount) ≤
    valueSum (result.inputs.map UtxoCandidate.amount)
  afford : ∀ r ∈ result.selectedRequests, share ≤ r.amount.toNat
  amounts : result.withdrawalOutputs.map (fun o => (o.amount.toNat, o.recipient)) =
    result.selectedRequests.map fun r => (r.amount.toNat - share, r.recipient)
  balance : valueSum (result.inputs.map UtxoCandidate.amount) =
    valueSum (result.withdrawalOutputs.map WithdrawalOutput.amount) + (result.change.getD 0).toNat +
      result.selectedRequests.length * share
  fee : result.fee.toNat = result.selectedRequests.length * share
  change : (result.change.getD 0).toNat =
    valueSum (result.inputs.map UtxoCandidate.amount) -
      valueSum (result.selectedRequests.map WithdrawalRequest.amount)

theorem dustThreshold_le (r : WithdrawalRequest) : r.dustThreshold.toNat ≤ 330 := by
  unfold WithdrawalRequest.dustThreshold PendingOutput.dustThreshold
  split <;> decide

theorem Planned.settles {maxFee d : UInt64} (h : Planned maxFee self d)
    (hmax : maxFee.toNat + BtcConfig.DUST_RELAY_MIN_VALUE < U64_SIZE) (hfits : self.Fits) :
    self.Settles d.toNat := by
  have hshare : d.toNat ≤ maxFee.toNat := UInt64.le_iff_toNat_le.mp h.share_le
  have hafford : ∀ r ∈ self.selectedRequests, d.toNat ≤ r.amount.toNat := by
    intro r hr
    have hle := UInt64.le_iff_toNat_le.mp (h.affords r hr)
    have hdust := dustThreshold_le r
    have hfit : d.toNat + r.dustThreshold.toNat < 2 ^ 64 := by
      simp only [BtcConfig.DUST_RELAY_MIN_VALUE, U64_SIZE] at hmax
      omega
    rw [UInt64.toNat_add, Nat.mod_eq_of_lt hfit] at hle
    omega
  have hinputs := toNat_sum_of_lt hfits.inputs
  have hrequests := toNat_sum_of_lt hfits.requests
  have hcovered := UInt64.le_iff_toNat_le.mp h.covered
  have hchange : (self.change.getD 0).toNat =
      valueSum (self.inputs.map UtxoCandidate.amount) -
        valueSum (self.selectedRequests.map WithdrawalRequest.amount) := by
    rw [h.change, toNat_sub hcovered, hinputs, hrequests]
  have hnets : self.withdrawalOutputs.map WithdrawalOutput.amount =
      (self.selectedRequests.map WithdrawalRequest.amount).map (· - d) := by
    rw [h.outputs, List.map_map, List.map_map]
    rfl
  have hpaid : valueSum (self.withdrawalOutputs.map WithdrawalOutput.amount) +
      self.selectedRequests.length * d.toNat =
        valueSum (self.selectedRequests.map WithdrawalRequest.amount) := by
    rw [hnets, ← List.length_map WithdrawalRequest.amount]
    refine valueSum_map_sub fun w hw => ?_
    obtain ⟨r, hr, rfl⟩ := List.mem_map.mp hw
    exact hafford r hr
  rw [hinputs, hrequests] at hcovered
  constructor
  case nonempty =>
    rintro hnil
    exact h.count (by rw [hnil]; rfl)
  case covered => exact hcovered
  case afford => exact hafford
  case amounts =>
    rw [h.outputs, List.map_map]
    refine List.map_congr_left fun r hr => ?_
    simp only [Function.comp_apply, toNat_sub (hafford r hr)]
  case balance => omega
  case fee =>
    have houtputs : (self.withdrawalOutputs.map WithdrawalOutput.amount).sum.toNat =
        valueSum (self.withdrawalOutputs.map WithdrawalOutput.amount) :=
      toNat_sum_of_lt (Nat.lt_of_le_of_lt (by omega) hfits.requests)
    have hfirst := toNat_sub (a := (self.inputs.map UtxoCandidate.amount).sum)
      (b := (self.withdrawalOutputs.map WithdrawalOutput.amount).sum) (by omega)
    rw [h.fee, toNat_sub (by omega), hfirst]
    omega
  case change => exact hchange

/-! ## Agreement with the constructor -/

variable {config : Config} {minimum : UInt64} {maxFee : UInt64}

theorem Settles.share_eq {d : Nat} (h : self.Settles d) : self.share = d := by
  have hpos : 0 < self.selectedRequests.length := List.length_pos_iff.mpr h.nonempty
  rw [share, h.fee, Nat.mul_div_cancel_left _ hpos]

theorem Settles.feeShare_eq {d : Nat} (h : self.Settles d)
    (derivationPath : UtxoId → Option Address) (changeAddress : Bytes) :
    WithdrawalTransaction.feeShare (self.utxos derivationPath) (self.outputUtxos changeAddress)
      self.selectedRequests.length = d := by
  have hpos : 0 < self.selectedRequests.length := List.length_pos_iff.mpr h.nonempty
  rw [WithdrawalTransaction.feeShare, inputSum_utxos, outputSum_outputUtxos, h.balance,
    Nat.add_sub_cancel_left, Nat.mul_div_cancel_left _ hpos]

theorem Settles.outputMatches {d : Nat} (h : self.Settles d) (hfloor : self.AboveFloor)
    (changeAddress : Bytes) {i : Nat} (hi : i < self.selectedRequests.length) :
    WithdrawalTransaction.OutputMatches self.requestInfos (self.outputUtxos changeAddress) d i := by
  have hlength : self.withdrawalOutputs.length = self.selectedRequests.length := by
    have := congrArg List.length h.amounts
    simpa using this
  obtain ⟨r, hr⟩ : ∃ r, self.selectedRequests[i]? = some r :=
    ⟨_, List.getElem?_eq_getElem hi⟩
  obtain ⟨o, ho⟩ : ∃ o, self.withdrawalOutputs[i]? = some o :=
    ⟨_, List.getElem?_eq_getElem (hlength ▸ hi)⟩
  have hpair := congrArg (·[i]?) h.amounts
  simp only [List.getElem?_map, hr, ho, Option.map_some, Option.some.injEq, Prod.mk.injEq] at hpair
  have habove := hfloor r (List.mem_of_getElem? hr)
  rw [h.share_eq] at habove
  refine ⟨⟨r.amount.toNat, r.recipient⟩, ⟨o.amount.toNat, o.recipient⟩, ?_, ?_,
    Nat.lt_of_le_of_lt habove (toNat_lt _), habove, hpair.1, hpair.2⟩
  · simp [requestInfos, hr]
  · rw [outputUtxos, List.getElem?_append_left (by simpa [hlength] using hi), List.getElem?_map,
      ho, Option.map_some]

theorem Settles.accepted {d : Nat} (h : self.Settles d) (hfits : self.Fits)
    (hfloor : self.AboveFloor) (hcap : BtcConfig.worstCaseNetworkFee config = .ok maxFee.toNat)
    (hshare : d ≤ maxFee.toNat) (hpositive : ∀ r ∈ self.selectedRequests, 0 < r.amount)
    (derivationPath : UtxoId → Option Address) (changeAddress : Bytes) {presigs : List Presig}
    (hpresigs : presigs.length = self.inputs.length) :
    WithdrawalTransaction.Accepted config self.requestIds.length self.requestInfos
      (self.utxos derivationPath) (self.outputUtxos changeAddress) presigs := by
  have hcount : self.requestIds.length = self.selectedRequests.length := List.length_map _
  have hoccupied : self.withdrawalOutputs.length = self.selectedRequests.length := by
    simpa using congrArg List.length h.amounts
  have hbalance := h.balance
  have hins := self.inputSum_utxos derivationPath
  have houts := self.outputSum_outputUtxos changeAddress
  have hlength := self.length_outputUtxos changeAddress
  have hshareEq := h.feeShare_eq derivationPath changeAddress
  rw [hcount]
  constructor
  case fee_within => exact ⟨_, hcap, hshareEq ▸ hshare⟩
  case inputs_fit => exact hins ▸ hfits.inputs
  case outputs_fit =>
    have := hfits.inputs
    omega
  case covered => omega
  case count_le => omega
  case outputs_le =>
    have := hfits.outputs
    omega
  case count_ne => exact Nat.ne_of_gt (List.length_pos_iff.mpr h.nonempty)
  case fee_even =>
    rw [hins, houts, hbalance, Nat.add_sub_cancel_left, Nat.mul_mod_right]
  case outputs_match =>
    intro i hi
    rw [hshareEq]
    exact h.outputMatches hfloor changeAddress hi
  case inputs_ne =>
    -- an empty list of inputs covers no positive request
    obtain ⟨r, hr⟩ := List.exists_mem_of_ne_nil _ h.nonempty
    have hr0 := UInt64.lt_iff_toNat_lt.mp (hpositive r hr)
    have hle : r.amount.toNat ≤
        valueSum (self.selectedRequests.map WithdrawalRequest.amount) :=
      le_valueSum (List.mem_map_of_mem hr)
    have hcovered := h.covered
    rw [utxos, List.length_map, List.length_pos_iff]
    intro hnil
    rw [hnil, List.map_nil, valueSum_nil] at hcovered
    exact absurd (Nat.lt_of_lt_of_le hr0 (hle.trans hcovered)) (Nat.not_lt_zero _)
  case presigs_length => simpa [utxos] using hpresigs

theorem fits_of_accepted (derivationPath : UtxoId → Option Address) (changeAddress : Bytes)
    {presigs : List Presig}
    (h : WithdrawalTransaction.Accepted config self.requestIds.length self.requestInfos
      (self.utxos derivationPath) (self.outputUtxos changeAddress) presigs) : self.Fits := by
  have hbalanced := h.balanced (by simp [requestInfos, requestIds])
  have hrequests : (self.requestInfos.map CommittedRequestInfo.btcAmount).sum =
      valueSum (self.selectedRequests.map WithdrawalRequest.amount) := by
    simp [requestInfos, valueSum, Function.comp_def]
  have hinputs := h.inputs_fit
  have houtputs := h.outputs_le
  constructor
  · rwa [inputSum_utxos] at hinputs
  · omega
  · rwa [length_outputUtxos] at houtputs

theorem Settles.aboveFloor {d : Nat} (hsettles : self.Settles d)
    (derivationPath : UtxoId → Option Address) (changeAddress : Bytes) {presigs : List Presig}
    (h : WithdrawalTransaction.Accepted config self.requestIds.length self.requestInfos
      (self.utxos derivationPath) (self.outputUtxos changeAddress) presigs) :
    self.AboveFloor := by
  have hcount : self.requestIds.length = self.selectedRequests.length := List.length_map _
  rw [hcount] at h
  intro r hr
  obtain ⟨i, hi, hri⟩ := List.mem_iff_getElem.mp hr
  obtain ⟨info, _, hinfo, _, _, hfloor, _⟩ := (h.outputs_match i hi).exists_pair
  rw [hsettles.feeShare_eq] at hfloor
  rw [hsettles.share_eq]
  simp only [requestInfos, List.getElem?_map, List.getElem?_eq_getElem hi, hri, Option.map_some,
    Option.some.injEq] at hinfo
  rwa [← hinfo] at hfloor

end CoinSelectionResult

/-! ## The theorem -/

/-- The transaction of a selection passes the constructor's checks exactly when its totals fit and
every request is at least its share and the chain's floor. When they fit, every other check
passes, and the floor is met by requests of at least the current withdrawal minimum. -/
theorem selection_commits_iff {utxos : List UtxoCandidate} {requests : List WithdrawalRequest}
    {params : CoinSelectionParams} {feeRate : FeeRate} {result : CoinSelectionResult}
    {config : Config} {minimum : UInt64}
    (hselect : selectCoins utxos requests params feeRate = .ok result)
    (hpositive : ∀ r ∈ requests, 0 < r.amount)
    (hminimum : BtcConfig.bitcoinWithdrawalMinimum config = .ok minimum.toNat)
    (hcap : BtcConfig.worstCaseNetworkFee config = .ok params.maxFeePerRequest.toNat)
    (derivationPath : UtxoId → Option Address) (changeAddress : Bytes) (fresh txid : Address)
    (epoch now : Nat) (randomness : Bytes) {presigs : List Presig}
    (hpresigs : presigs.length = result.inputs.length) :
    ((∃ t, WithdrawalTransaction.new fresh result.requestIds result.requestInfos
        (result.utxos derivationPath) (result.outputUtxos changeAddress) txid presigs epoch config
        now randomness = .ok t) ↔ result.Fits ∧ result.AboveFloor) ∧
    (result.Fits → result.Settles result.share ∧
      result.share ≤ params.maxFeePerRequest.toNat) ∧
    (result.Fits → (∀ r ∈ requests, minimum ≤ r.amount) → result.AboveFloor) := by
  obtain ⟨⟨d, hplanned⟩, hselected⟩ := selectCoins_planned hselect
  have hmem : ∀ r ∈ result.selectedRequests, r ∈ requests := by
    intro r hr
    rw [hselected] at hr
    exact (List.perm_insertionSort _ _).mem_iff.mp (List.mem_of_mem_take hr)
  -- the cap is the minimum less the floor
  have hmin : params.maxFeePerRequest.toNat + BtcConfig.DUST_RELAY_MIN_VALUE =
      minimum.toNat := by
    simp only [BtcConfig.worstCaseNetworkFee, hminimum, bind_eq_ok, pure_eq_ok, Except.ok.injEq,
      exists_eq_left'] at hcap
    simp only [BtcConfig.bitcoinWithdrawalMinimum, bind_eq_ok, pure_eq_ok] at hminimum
    obtain ⟨_, _, hmax⟩ := hminimum
    omega
  have hroom : params.maxFeePerRequest.toNat + BtcConfig.DUST_RELAY_MIN_VALUE < U64_SIZE :=
    hmin ▸ toNat_lt minimum
  have hshare : d.toNat ≤ params.maxFeePerRequest.toNat :=
    UInt64.le_iff_toNat_le.mp hplanned.share_le
  have hsettles : result.Fits → result.Settles d.toNat :=
    fun hfits => CoinSelectionResult.Planned.settles hplanned hroom hfits
  refine ⟨?_, ?_, ?_⟩
  · simp only [WithdrawalTransaction.new_eq_ok, exists_and_left, exists_eq, and_true]
    constructor
    · intro haccepted
      have hfits := CoinSelectionResult.fits_of_accepted derivationPath changeAddress haccepted
      exact ⟨hfits, (hsettles hfits).aboveFloor derivationPath changeAddress haccepted⟩
    · rintro ⟨hfits, hfloor⟩
      exact (hsettles hfits).accepted hfits hfloor hcap hshare
        (fun r hr => hpositive r (hmem r hr)) derivationPath changeAddress hpresigs
  · intro hfits
    rw [(hsettles hfits).share_eq]
    exact ⟨hsettles hfits, hshare⟩
  · intro hfits hrequests r hr
    have hle := UInt64.le_iff_toNat_le.mp (hrequests r (hmem r hr))
    rw [(hsettles hfits).share_eq]
    omega

/-! ## Samples -/

namespace Sample

def config : Config := BtcConfig.initDefaults Config.empty

/-- The default limits at 1 sat/vB, with the cap that the default withdrawal minimum gives. -/
def params : CoinSelectionParams :=
  { maxTxWeight := 400000, maxAncestorPackageWeight := 400000, maxInputs := 400
    maxWithdrawalRequests := 447, maxFeePerRequest := 29454, minFeeRate := 250
    longTermFeeRate := 2500, highFeeRateThreshold := 7500, inputBudget := 10
    maxMempoolChainDepth := 5, changeScript := List.replicate 34 0 }

def candidate (txid : Address) (amount : UInt64) : UtxoCandidate :=
  ⟨⟨txid, 0⟩, amount, none, .taprootScriptPath2of2, .confirmed⟩

def request (amount : UInt64) : WithdrawalRequest := ⟨7, List.replicate 32 1, amount, 5⟩

/-- Select coins for one request and hand the transaction to the chain. -/
def commit (utxos : List UtxoCandidate) (amount : UInt64) :
    Fallible (Except Abort WithdrawalTransaction) := do
  let result ← selectCoins utxos [request amount] params 250
  return WithdrawalTransaction.new 1 result.requestIds result.requestInfos
    (result.utxos fun _ => none) (result.outputUtxos (List.replicate 32 0)) 2
    (result.inputs.map fun _ => ⟨0⟩) 0 config 0 []

/-- The selection for a request of exactly the withdrawal minimum. -/
def minimumResult : CoinSelectionResult where
  inputs := [candidate 1 100000]
  withdrawalOutputs := [⟨7, List.replicate 32 1, 29795⟩]
  change := some 70000
  fee := 205
  selectedRequests := [request 30000]

end Sample

open Sample in
theorem selection_commits_iff_of_minimum :
    ∃ t, WithdrawalTransaction.new 1 minimumResult.requestIds minimumResult.requestInfos
      (minimumResult.utxos fun _ => none) (minimumResult.outputUtxos (List.replicate 32 0)) 2 [⟨0⟩]
      0 config 0 [] = .ok t := by
  have hselect : selectCoins [candidate 1 100000] [request 30000] params 250 =
      .ok minimumResult := by decide +kernel
  have hminimum : BtcConfig.bitcoinWithdrawalMinimum config = .ok (30000 : UInt64).toNat := by
    decide +kernel
  have hcap : BtcConfig.worstCaseNetworkFee config = .ok params.maxFeePerRequest.toNat := by
    decide +kernel
  have hfits : minimumResult.Fits := ⟨by decide +kernel, by decide +kernel, by decide +kernel⟩
  obtain ⟨hiff, _, hfloor⟩ := selection_commits_iff hselect (by decide +kernel) hminimum hcap
    (fun _ => none) (List.replicate 32 0) 1 2 0 0 [] (rfl : [Presig.mk 0].length = _)
  exact hiff.mpr ⟨hfits, hfloor hfits (by decide +kernel)⟩

open Sample in
/-- Two selections that the chain refuses under the same cap: an output above the relay threshold
of its type and below the chain's floor, and inputs whose total is no `u64`. -/
theorem selection_refused_on_chain :
    BtcConfig.worstCaseNetworkFee config = .ok params.maxFeePerRequest.toNat ∧
      commit [candidate 1 10000] 600 = .ok (.error .outputBelowDust) ∧
      commit [candidate 1 0x8000000000000005, candidate 2 0x8000000000000005,
        candidate 3 0x8000000000000000] 0x800000000000000A = .ok (.error .arithmetic) := by
  decide +kernel

end HashiBridge.Node
