import HashiBridge.Mpc.Lemmas.Recovery
import HashiBridge.Mpc.Theorems.PresigUse

/-!
# A restarted node has the presignatures it would have had

The recovered manager holds, batch by batch, the slots that the chain has not consumed or that a
withdrawal still waits for, under the numbers and offsets of a node that never restarted.
-/

namespace HashiBridge.Mpc

open Lib HashiBridge.Core Btc

variable {S G : Type}

/-- A run of a node that never restarted: it began with batch 0 at index 0, and every batch it was
given has the size that the certificates fix. -/
structure LiveRun (oracle : SigningOracle S G) (size : Nat → Option Nat) (tr : List (Label S G))
    (w : World S G) : Prop where
  exists_start : ∃ epoch refillDivisor presignatures digest refill,
    size 0 = some presignatures.length ∧
      Run (Step oracle) ⟨.new epoch refillDivisor presignatures digest 0 0 refill, []⟩ tr w
  given : ∀ k ps digest, Label.setNextBatch k ps digest ∈ tr → size k = some ps.length

theorem LiveRun.installed {oracle : SigningOracle S G} {size : Nat → Option Nat}
    {tr : List (Label S G)} {w : World S G} (h : LiveRun oracle size tr w) :
    ∃ installed dropped, Covers 0 0 installed dropped w.manager.batches ∧
      (∀ t ∈ handedOver tr, t.IsElement 0 0 installed) ∧
      ∀ k ps, installed[k]? = some ps → size k = some ps.length ∧
        offset (sizeAt installed) k = offset (knownSize size) k := by
  obtain ⟨epoch, refillDivisor, presignatures, digest, refill, hsize, hrun⟩ := h.exists_start
  have hcons : Consecutive 0 0 [(⟨presignatures, 0, 0, digest⟩ : RetainedBatch S G)] := by
    intro k r hr
    rw [List.getElem?_singleton] at hr
    split_ifs at hr with hk
    cases hr
    subst hk
    exact ⟨rfl, rfl⟩
  obtain ⟨installed, dropped, haccount⟩ := account_of_run .new hcons hrun
  have hfixed : ∀ k ps, installed[k]? = some ps → size k = some ps.length := by
    intro k ps hps
    obtain ⟨r, hr, rfl⟩ | ⟨digest, hmem⟩ := haccount.supplied k ps hps
    · rw [List.getElem?_singleton] at hr
      split_ifs at hr with hk
      cases hr
      subst hk
      exact hsize
    · rw [Nat.zero_add] at hmem
      exact h.given k ps digest hmem
  refine ⟨installed, dropped, haccount.balanced.covers, fun t ht =>
    haccount.balanced.element t (List.mem_append_right _ ht), fun k ps hps => ⟨hfixed k ps hps, ?_⟩⟩
  refine offset_congr fun i hi => ?_
  have hlt : k < installed.length := (List.getElem?_eq_some_iff.mp hps).1
  have hget : installed[i]? = some (installed.get ⟨i, by omega⟩) := List.getElem?_eq_getElem _
  rw [sizeAt_of_getElem? hget, knownSize_of_some (hfixed i _ hget)]

structure RecoveredExactly (env : RecoveryEnv S G) (size : Nat → Option Nat) (pending : Finset Nat)
    (recoveredEnd : Nat) (manager : SigningManager S G) : Prop where
  /-- a slot is filled just when its index is pending or not consumed -/
  available : ∀ b ∈ manager.batches, ∀ g, b.contains g →
    ((∃ presig, b.pool[g - b.startIndex]? = some (some presig)) ↔ g ∈ pending ∨ env.numConsumed ≤ g)
  /-- no index that can still be signed with is dropped -/
  covered : ∀ g, g ∈ pending ∨ env.numConsumed ≤ g ∧ g < recoveredEnd →
    ∃ b ∈ manager.batches, b.contains g
  /-- batches have the numbers and the places that the sizes fix -/
  placed : ∀ b ∈ manager.batches, size b.batchIndex = some b.pool.length ∧
    b.startIndex = offset (knownSize size) b.batchIndex
  /-- the last batch ends where the next one starts, and it is the last up to the cursor -/
  last : ∃ b, manager.batches.getLast? = some b ∧ b.endIndex = recoveredEnd ∧
    recoveredEnd = offset (knownSize size) (b.batchIndex + 1) ∧
    manager.batchIndex = b.batchIndex ∧ manager.availablePresigEndIndex = recoveredEnd ∧
    b.startIndex ≤ env.numConsumed ∧ (env.numConsumed < recoveredEnd ∨
      env.numConsumed = recoveredEnd ∧ size (b.batchIndex + 1) = none)

theorem RecoveryEnv.IsRecovered.contains_iff {env : RecoveryEnv S G} {size : Nat → Option Nat}
    {pending : Finset Nat} {k g : Nat} {b : PresigBatch S G}
    (h : env.IsRecovered size pending k b) : b.contains g ↔
      offset (knownSize size) k ≤ g ∧ g < offset (knownSize size) k + knownSize size k := by
  rw [PresigBatch.contains_iff, h.startIndex_eq, h.length_eq]

theorem RecoveredExactly.same_place {env : RecoveryEnv S G} {size : Nat → Option Nat}
    {pending : Finset Nat} {recoveredEnd : Nat} {manager : SigningManager S G}
    (h : RecoveredExactly env size pending recoveredEnd manager) {oracle : SigningOracle S G}
    {tr : List (Label S G)} {w : World S G} (hlive : LiveRun oracle size tr w)
    {b : PresigBatch S G} (hb : b ∈ manager.batches) {g : Nat} (hg : b.contains g) :
    (∀ b' ∈ w.manager.batches, b'.contains g →
      b'.batchIndex = b.batchIndex ∧ b'.startIndex = b.startIndex) ∧
    ∀ t ∈ handedOver tr, t.input.globalPresigIndex = g →
      t.batchIndex = b.batchIndex ∧ t.position = g - b.startIndex := by
  obtain ⟨installed, dropped, hcovers, helement, hfixed⟩ := hlive.installed
  obtain ⟨hsize, hstart⟩ := h.placed b hb
  have hb_place : offset (knownSize size) b.batchIndex ≤ g ∧
      g < offset (knownSize size) b.batchIndex + knownSize size b.batchIndex := by
    rw [knownSize_of_some hsize, ← hstart]
    exact PresigBatch.contains_iff.mp hg
  refine ⟨fun b' hb' hg' => ?_, fun t ht hgt => ?_⟩
  · obtain ⟨j, hj⟩ := List.mem_iff_getElem?.mp hb'
    obtain ⟨ps, hps, hrest⟩ := hcovers.batch hj
    obtain ⟨hsize', hoffset⟩ := hfixed _ ps hps
    have hnumber : b'.batchIndex = dropped + j := by rw [hrest.batchIndex_eq, Nat.zero_add]
    have hstart' : b'.startIndex = offset (knownSize size) b'.batchIndex := by
      rw [hrest.startIndex_eq, Nat.zero_add, hoffset, hnumber]
    have hb'_place : offset (knownSize size) b'.batchIndex ≤ g ∧
        g < offset (knownSize size) b'.batchIndex + knownSize size b'.batchIndex := by
      rw [hnumber] at hstart' ⊢
      rw [knownSize_of_some hsize', ← hstart', ← hrest.length_eq]
      exact PresigBatch.contains_iff.mp hg'
    have hsame := segment_unique hb'_place hb_place
    exact ⟨hsame, by rw [hstart', hstart, hsame]⟩
  · obtain ⟨k, ps, hbatch, hps, hpresig, hindex⟩ := helement t ht
    obtain ⟨hsize', hoffset⟩ := hfixed k ps hps
    rw [Nat.zero_add] at hbatch hindex
    have hlt : t.position < ps.length := (List.getElem?_eq_some_iff.mp hpresig).1
    have ht_place : offset (knownSize size) t.batchIndex ≤ g ∧
        g < offset (knownSize size) t.batchIndex + knownSize size t.batchIndex := by
      rw [hbatch, knownSize_of_some hsize']
      omega
    have hsame := segment_unique ht_place hb_place
    refine ⟨hsame, ?_⟩
    rw [hstart, ← hsame, hbatch]
    omega

namespace RecoveryEnv

variable {env : RecoveryEnv S G} {size : Nat → Option Nat} {pending : Finset Nat} {n : Nat}
  {manager : SigningManager S G}

theorem recoveredExactly_of_install (hends : EndsAt size env.numConsumed 0 n)
    (hpending : ∀ p ∈ pending, p < env.numConsumed)
    (hinstall : env.install pending ((List.range' 0 n).map (boundaryAt size)) = .ok manager) :
    RecoveredExactly env size pending (offset (knownSize size) n) manager := by
  obtain ⟨hn, hnext, -, hlength, hbatch⟩ := install_eq_ok hinstall
  set first := firstPending ((List.range' 0 n).map (boundaryAt size)) pending with hfirst
  have hfirst_lt : first < n := firstPending_lt hn
  have hcursor : env.numConsumed ≤ offset (knownSize size) n := by
    obtain ⟨-, -, hlt⟩ | ⟨heq, -⟩ := hends.holds_cursor
    · exact hlt.le
    · exact heq.le
  have hsome : ∀ {k}, k < n → size k = some (knownSize size k) := fun {k} hk => by
    obtain ⟨m, hm⟩ := Option.isSome_iff_exists.mp (hends.sized k (Nat.zero_le k) hk)
    rw [hm, knownSize_of_some hm]
  have hmem : ∀ b ∈ manager.batches, ∃ j, first + j < n ∧
      env.IsRecovered size pending (first + j) b := by
    intro b hb
    obtain ⟨j, hj⟩ := List.mem_iff_getElem?.mp hb
    have := (List.getElem?_eq_some_iff.mp hj).1
    exact ⟨j, by omega, hbatch hj⟩
  -- every batch from the first retained one on is there
  have hat : ∀ k, first ≤ k → k < n → ∃ b ∈ manager.batches, env.IsRecovered size pending k b := by
    intro k hle hlt
    have hj : k - first < manager.batches.length := by omega
    refine ⟨_, List.getElem_mem hj, ?_⟩
    have hrecovered := hbatch (List.getElem?_eq_getElem hj)
    rwa [Nat.add_sub_cancel' hle] at hrecovered
  constructor
  case available =>
    intro b hb g hg
    obtain ⟨j, -, hrecovered⟩ := hmem b hb
    rw [PresigBatch.contains_iff] at hg
    have havailable := hrecovered.available_iff (g - b.startIndex) (by omega)
    rwa [Nat.add_sub_cancel' hg.1] at havailable
  case covered =>
    rintro g (hg | ⟨hle, hlt⟩)
    · obtain ⟨i, hi, hplace⟩ := exists_segment (Nat.lt_of_lt_of_le (hpending g hg) hcursor)
      obtain ⟨b, hb, hrecovered⟩ := hat i (firstPending_le hi hg hplace.1 hplace.2) hi
      exact ⟨b, hb, hrecovered.contains_iff.mpr hplace⟩
    · obtain ⟨-, hstart, -⟩ | ⟨heq, -⟩ := hends.holds_cursor
      · obtain ⟨b, hb, hrecovered⟩ := hat (n - 1) (by omega) (by omega)
        refine ⟨b, hb, hrecovered.contains_iff.mpr ⟨by omega, ?_⟩⟩
        rw [← offset_succ, Nat.sub_one_add_one hn]
        exact hlt
      · omega
  case placed =>
    intro b hb
    obtain ⟨j, hj, hrecovered⟩ := hmem b hb
    rw [hrecovered.batchIndex_eq, hrecovered.startIndex_eq, hrecovered.length_eq]
    exact ⟨hsome hj, rfl⟩
  case last =>
    have hpos : manager.batches.length - 1 < manager.batches.length := by omega
    have hlast : manager.batches.getLast? = some (manager.batches.get ⟨_, hpos⟩) := by
      rw [List.getLast?_eq_getElem?]
      exact List.getElem?_eq_getElem hpos
    obtain ⟨b, hb⟩ : ∃ b, manager.batches.getLast? = some b := ⟨_, hlast⟩
    have hrecovered : env.IsRecovered size pending (n - 1) b := by
      have := hbatch (by rwa [List.getLast?_eq_getElem?] at hb)
      rwa [show first + (manager.batches.length - 1) = n - 1 by omega] at this
    have hend : b.endIndex = offset (knownSize size) n := by
      rw [PresigBatch.endIndex, hrecovered.startIndex_eq, hrecovered.length_eq, ← offset_succ,
        Nat.sub_one_add_one hn]
    have hnumber : b.batchIndex + 1 = n := by
      rw [hrecovered.batchIndex_eq, Nat.sub_one_add_one hn]
    refine ⟨b, hb, hend, by rw [hnumber], ?_, ?_, ?_, ?_⟩
    · rw [SigningManager.batchIndex, hb]
      rfl
    · rw [SigningManager.availablePresigEndIndex, hb, hnext]
      exact hend
    · rw [hrecovered.startIndex_eq]
      obtain ⟨-, hstart, -⟩ | ⟨heq, -⟩ := hends.holds_cursor
      · exact hstart
      · rw [heq]
        exact offset_mono (Nat.sub_le n 1)
    · rw [hnumber]
      obtain ⟨-, -, hlt⟩ | hstop := hends.holds_cursor
      · exact .inl hlt
      · exact .inr hstop

theorem not_endsAt_of_firstMissing {k : Nat}
    (hmissing : FirstMissing size env.numConsumed 0 k) : ¬ EndsAt size env.numConsumed 0 n := by
  intro hends
  have hle : n ≤ k := by
    refine Nat.le_of_not_lt fun hlt => ?_
    have := hends.sized k (Nat.zero_le k) hlt
    rw [hmissing.missing] at this
    cases this
  have hoffset : offset (knownSize size) n ≤ offset (knownSize size) k := offset_mono hle
  have := hmissing.below
  obtain ⟨-, -, hlt⟩ | ⟨heq, -⟩ := hends.holds_cursor <;> omega

theorem FirstMissing.unique {numConsumed k k' : Nat} (h : FirstMissing size numConsumed 0 k)
    (h' : FirstMissing size numConsumed 0 k') : k = k' := by
  rcases Nat.lt_trichotomy k k' with hlt | heq | hlt
  · have := h'.sized k (Nat.zero_le k) hlt
    rw [h.missing] at this
    cases this
  · exact heq
  · have := h.sized k' (Nat.zero_le k') hlt
    rw [h'.missing] at this
    cases this

theorem recoverPresigningState_eq_ok {fuel : Nat} {outcome : PresigRecovery S G}
    (h : env.recoverPresigningState fuel = .ok outcome) :
    ∃ pending, env.pendingIndices = .ok pending ∧
      ((∃ k start, walk env.nonceBatchSize env.numConsumed fuel 0 0 = .ok (.missing k start) ∧
        outcome = .missingBatch env.epoch k start) ∨
      ∃ boundaries manager,
        walk env.nonceBatchSize env.numConsumed fuel 0 0 = .ok (.boundaries boundaries) ∧
        env.install pending boundaries = .ok manager ∧ outcome = .installed manager) := by
  simp only [recoverPresigningState, bind_eq_ok, mapError_eq_ok, require_eq_ok] at h
  obtain ⟨-, -, pending, hpending, -, -, walked, hwalk, h⟩ := h
  refine ⟨pending, hpending, ?_⟩
  cases walked with
  | missing k start =>
      cases h
      exact .inl ⟨k, start, hwalk, rfl⟩
  | boundaries boundaries =>
      simp only [bind_eq_ok, mapError_eq_ok, pure_eq_ok] at h
      obtain ⟨manager, hinstall, rfl⟩ := h
      exact .inr ⟨boundaries, manager, hwalk, hinstall, rfl⟩

theorem recoverPresigningState_installed
    (hfixed : ∀ k answer, env.nonceBatchSize k = .ok answer → answer = size k) {fuel : Nat}
    (h : env.recoverPresigningState fuel = .ok (.installed manager)) :
    ∃ pending n, env.pendingIndices = .ok pending ∧ EndsAt size env.numConsumed 0 n ∧
      RecoveredExactly env size pending (offset (knownSize size) n) manager := by
  obtain ⟨pending, hpending, ⟨k, start, -, houtcome⟩ | ⟨boundaries, manager', hwalk, hinstall, houtcome⟩⟩ :=
    recoverPresigningState_eq_ok h
  · cases houtcome
  · cases houtcome
    obtain ⟨n, rfl, hends⟩ := walk_boundaries hfixed (Nat.zero_le _) hwalk
    rw [Nat.zero_add] at hends
    have hbelow : ∀ p ∈ pending, p < env.numConsumed := fun p hp =>
      (collectPending_eq_ok hpending p).2 hp
    exact ⟨pending, n, hpending, hends, recoveredExactly_of_install hends hbelow hinstall⟩

/-- Where the queries answer with the sizes that the certificates fix, an installed manager holds
exactly what a node that never restarted could still use, at the same places; a missing batch is
reported just when the first batch without a size starts below the cursor; and the walk ends. -/
theorem recovery_exact (hpos : ∀ k m, size k = some m → 0 < m)
    (hfixed : ∀ k answer, env.nonceBatchSize k = .ok answer → answer = size k) (fuel : Nat) :
    (∀ manager, env.recoverPresigningState fuel = .ok (.installed manager) →
      ∃ pending recoveredEnd, env.pendingIndices = .ok pending ∧
        RecoveredExactly env size pending recoveredEnd manager ∧
        ∀ {oracle : SigningOracle S G} {tr w}, LiveRun oracle size tr w →
          ∀ b ∈ manager.batches, ∀ g, b.contains g →
            (∀ b' ∈ w.manager.batches, b'.contains g →
              b'.batchIndex = b.batchIndex ∧ b'.startIndex = b.startIndex) ∧
            ∀ t ∈ handedOver tr, t.input.globalPresigIndex = g →
              t.batchIndex = b.batchIndex ∧ t.position = g - b.startIndex) ∧
    (∀ outcome, env.recoverPresigningState fuel = .ok outcome → ∀ k,
      (outcome = .missingBatch env.epoch k (offset (knownSize size) k) ↔
        FirstMissing size env.numConsumed 0 k) ∧
      ∀ epoch start, outcome = .missingBatch epoch k start →
        epoch = env.epoch ∧ start = offset (knownSize size) k) ∧
    (env.numConsumed < fuel →
      env.recoverPresigningState fuel ≠ .error .diverges ∧
      ∀ k, FirstMissing size env.numConsumed 0 k → env.hasCommittee →
        (∃ pending, env.pendingIndices = .ok pending) → env.managerReady = .ok () →
        (∀ i ≤ k, ∃ answer, env.nonceBatchSize i = .ok answer) →
        env.recoverPresigningState fuel =
          .ok (.missingBatch env.epoch k (offset (knownSize size) k))) := by
  refine ⟨fun manager h => ?_, fun outcome h k => ?_, fun hfuel => ⟨?_, ?_⟩⟩
  · obtain ⟨pending, n, hpending, -, hexact⟩ := recoverPresigningState_installed hfixed h
    refine ⟨pending, _, hpending, hexact, fun {oracle tr w} hlive b hb g hg => ?_⟩
    exact hexact.same_place hlive hb hg
  · obtain ⟨pending, hpending, ⟨k', start, hwalk, rfl⟩ | ⟨boundaries, manager, hwalk, -, rfl⟩⟩ :=
      recoverPresigningState_eq_ok h
    · obtain ⟨rfl, hfirst⟩ := walk_missing hfixed (Nat.zero_le _) hwalk
      refine ⟨⟨fun heq => ?_, fun hmissing => ?_⟩, fun epoch start heq => ?_⟩
      · cases heq
        exact hfirst
      · rw [FirstMissing.unique hfirst hmissing]
      · cases heq
        exact ⟨rfl, rfl⟩
    · obtain ⟨n, -, hends⟩ := walk_boundaries hfixed (Nat.zero_le _) hwalk
      refine ⟨⟨nofun, fun hmissing => ?_⟩, nofun⟩
      exact absurd hends (not_endsAt_of_firstMissing hmissing)
  · intro hdiverges
    have hwalk : walk env.nonceBatchSize env.numConsumed fuel 0 0 ≠ .error .diverges :=
      walk_terminates hfixed hpos (Nat.zero_le _) (by omega)
    simp only [recoverPresigningState, bind_eq_error, mapError_eq_error, require_eq_error,
      reduceCtorEq, and_false, exists_false, false_or] at hdiverges
    obtain ⟨-, -, pending, -, -, -, hdiverges | ⟨walked, -, hdiverges⟩⟩ := hdiverges
    · exact hwalk hdiverges
    · cases walked with
      | missing => cases hdiverges
      | boundaries boundaries =>
          simp only [bind_eq_error, mapError_eq_error, reduceCtorEq, and_false, exists_false,
            false_or] at hdiverges
          obtain ⟨manager, -, hdiverges⟩ := hdiverges
          cases hdiverges
  · rintro k hmissing hcommittee ⟨pending, hpending⟩ hready hquery
    have hwalk := walk_of_firstMissing hfixed hpos hquery hmissing (Nat.zero_le k)
      (show env.numConsumed < offset (knownSize size) 0 + fuel by rw [offset_zero]; omega)
    simp only [recoverPresigningState, hpending, hready, require_pos hcommittee]
    rw [offset_zero] at hwalk
    simp only [hwalk]
    rfl

end RecoveryEnv

/-! ## A sample recovery -/

namespace Sample

/-- Batches of two and of three presignatures, and no more yet. -/
def sizes : Nat → Option Nat
  | 0 => some 2
  | 1 => some 3
  | _ => none

/-- A withdrawal that waits for index 1, which the chain has handed out. -/
def waiting : WithdrawalTransaction where
  id := 60
  txid := 61
  requestIds := []
  inputs := []
  withdrawalOutputs := []
  changeOutputs := []
  createdTimestampMs := 0
  signedTimestampMs := none
  confirmedTimestampMs := none
  randomness := []
  signing := ⟨[.signed [], .pending ⟨1⟩], 5⟩
  guardianSignatures := none

def recovery : RecoveryEnv Nat Nat where
  epoch := 5
  numConsumed := 3
  hasCommittee := true
  withdrawalTxns := Finmap.singleton 60 waiting
  managerReady := .ok ()
  nonceBatchSize k := .ok (sizes k)
  recoverPresignatures k := .ok (List.replicate ((sizes k).getD 0) ([k], k), [7])
  laterEpoch := 5
  laterCursor := 4
  configured := .ok ()
  refillDivisor := 2
  refill := ⟨0, 0⟩

end Sample

open Sample in
theorem recovery_exact_of_pending : ∃ manager pending recoveredEnd,
    recovery.recoverPresigningState 4 = .ok (.installed manager) ∧
      manager.batches.map (fun b => b.pool.map Option.isSome) =
        [[false, true], [false, true, true]] ∧
      RecoveredExactly recovery sizes pending recoveredEnd manager := by
  have hpos : ∀ k m, sizes k = some m → 0 < m := by
    intro k m h
    match k with
    | 0 => cases h; decide
    | 1 => cases h; decide
    | k + 2 => cases h
  obtain ⟨manager, hinstalled, hslots⟩ : ∃ manager,
      recovery.recoverPresigningState 4 = .ok (.installed manager) ∧
        manager.batches.map (fun b => b.pool.map Option.isSome) =
          [[false, true], [false, true, true]] := ⟨_, rfl, rfl⟩
  have hfixed : ∀ k answer, recovery.nonceBatchSize k = .ok answer → answer = sizes k :=
    fun k answer h => (Except.ok.inj h).symm
  have hexact := (RecoveryEnv.recovery_exact hpos hfixed 4).1
  obtain ⟨pending, recoveredEnd, -, hrecovered, -⟩ := hexact manager hinstalled
  exact ⟨manager, pending, recoveredEnd, hinstalled, hslots, hrecovered⟩

end HashiBridge.Mpc
