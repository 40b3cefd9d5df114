import HashiBridge.Mpc.AvidState

/-!
# Nonce state per dealer is bounded

Every insertion leaves at most the cap of unprotected indices for its dealer. What the cap evicts leaves
all five maps, and is no protected index, no entry of another dealer and not what was inserted.
-/

namespace HashiBridge.Mpc

open Lib HashiBridge.Core

variable {T : AvidTypes}

/-- What the five maps hold under a key. -/
structure AvidEntries (T : AvidTypes) where
  roundState : Option (AvidRoundState T)
  verifiedCommon : Option T.VerifiedCommon
  output : Option (TaggedAvidOutput T)
  echoes : Option T.HeldEchoes
  complaint : Option T.Response

namespace AvidEntries

def nothing : AvidEntries T := ⟨none, none, none, none, none⟩

structure Within (after before : AvidEntries T) : Prop where
  roundState : before.roundState = none → after.roundState = none
  verifiedCommon : before.verifiedCommon = none → after.verifiedCommon = none
  output : before.output = none → after.output = none
  echoes : before.echoes = none → after.echoes = none
  complaint : before.complaint = none → after.complaint = none

theorem Within.of_eq {after before : AvidEntries T} (h : after = before) : after.Within before :=
  h ▸ ⟨id, id, id, id, id⟩

end AvidEntries

namespace AvidState

variable {state before put : AvidState T} {dealer : Address} {batchIndex inserted : Nat}
  {key : NonceKey}

/-! ## What the maps hold under a key -/

def entries (state : AvidState T) (key : NonceKey) : AvidEntries T :=
  ⟨state.currentAvidRoundState.lookup key, state.currentAvidVerifiedCommon.lookup key,
    state.dealerAvidNonceOutputs.lookup key, state.avidHeldEchoes.lookup key,
    state.complaintResponses.lookup (.nonceGeneration key.1 key.2)⟩

/-- The state holds an output that a certificate marks. -/
def Certified (state : AvidState T) (key : NonceKey) : Prop :=
  ∃ output, (state.entries key).output = some output ∧ output.certDigest ≠ none

theorem mem_indicesOf {V : Type} {map : Bag NonceKey V} :
    batchIndex ∈ indicesOf map.keys dealer ↔ map.lookup (batchIndex, dealer) ≠ none := by
  simp [indicesOf, Finmap.mem_keys, Finmap.lookup_eq_none]

theorem mem_complaintKeys : batchIndex ∈ indicesOf state.complaintKeys dealer ↔
    (state.entries (batchIndex, dealer)).complaint ≠ none := by
  rw [entries, ne_eq, Finmap.lookup_eq_none, not_not]
  simp only [indicesOf, complaintKeys, Finset.mem_image, Finset.mem_filter, Finset.mem_eraseNone,
    Finmap.mem_keys, Prod.exists, exists_and_right, exists_eq_right]
  constructor
  · rintro ⟨held, hheld, heq⟩
    cases held with
    | dkg _ => cases heq
    | rotation _ _ => cases heq
    | nonceGeneration _ _ =>
        cases heq
        exact hheld
  · exact fun hheld => ⟨_, hheld, rfl⟩

theorem mem_heldIndices : batchIndex ∈ state.heldIndices dealer ↔
    state.entries (batchIndex, dealer) ≠ .nothing := by
  simp only [heldIndices, Finset.mem_union, mem_indicesOf, mem_complaintKeys]
  simp only [entries, AvidEntries.nothing, ne_eq, AvidEntries.mk.injEq, not_and_or, or_assoc]

theorem not_protected (h : state.avidIndexProtected batchIndex dealer = false) :
    state.avidPartyPhases.lookup batchIndex = none ∧ ¬ state.Certified (batchIndex, dealer) := by
  rw [avidIndexProtected, Bool.or_eq_false_iff] at h
  obtain ⟨hphase, houtput⟩ := h
  refine ⟨by simpa using hphase, ?_⟩
  rintro ⟨output, hheld, hmark⟩
  rw [show state.dealerAvidNonceOutputs.lookup (batchIndex, dealer) = some output from hheld] at houtput
  exact hmark (by simpa using houtput)

theorem certified_congr {state' : AvidState T}
    (h : (state.entries key).output = (state'.entries key).output) :
    state.Certified key ↔ state'.Certified key := by
  unfold Certified
  rw [h]

theorem not_certified (h : state.entries key = .nothing) : ¬ state.Certified key := by
  rintro ⟨output, houtput, -⟩
  rw [h] at houtput
  cases houtput

/-! ## Evictions -/

def evictAll (state : AvidState T) (dealer : Address) (indices : List Nat) : AvidState T :=
  indices.foldl (fun state evicted => state.evictAvidIndex evicted dealer) state

theorem evictAvidIndex_self :
    (state.evictAvidIndex batchIndex dealer).entries (batchIndex, dealer) = .nothing := by
  simp [entries, evictAvidIndex, AvidEntries.nothing]

theorem nonceGeneration_ne (h : key ≠ (batchIndex, dealer)) :
    ComplaintResponsesKey.nonceGeneration key.1 key.2 ≠ .nonceGeneration batchIndex dealer := by
  intro heq
  cases heq
  exact h rfl

theorem evictAvidIndex_other (h : key ≠ (batchIndex, dealer)) :
    (state.evictAvidIndex batchIndex dealer).entries key = state.entries key := by
  simp only [entries, evictAvidIndex, Finmap.lookup_erase_ne h,
    Finmap.lookup_erase_ne (nonceGeneration_ne h)]

theorem evictAll_other {indices : List Nat} (h : ¬(key.2 = dealer ∧ key.1 ∈ indices)) :
    (state.evictAll dealer indices).entries key = state.entries key := by
  induction indices generalizing state with
  | nil => rfl
  | cons evicted indices ih =>
      have hfirst : key ≠ (evicted, dealer) := by
        rintro rfl
        exact h ⟨rfl, .head _⟩
      have hrest : ¬(key.2 = dealer ∧ key.1 ∈ indices) := fun hmem => h ⟨hmem.1, .tail _ hmem.2⟩
      exact (ih hrest).trans (evictAvidIndex_other hfirst)

theorem evictAll_mem {indices : List Nat} (h : batchIndex ∈ indices) :
    (state.evictAll dealer indices).entries (batchIndex, dealer) = .nothing := by
  induction indices generalizing state with
  | nil => cases h
  | cons evicted indices ih =>
      by_cases hlater : batchIndex ∈ indices
      · exact ih hlater
      · obtain rfl : batchIndex = evicted := (List.mem_cons.mp h).resolve_right hlater
        have hrest : ((state.evictAvidIndex batchIndex dealer).evictAll dealer indices).entries
            (batchIndex, dealer) = (state.evictAvidIndex batchIndex dealer).entries (batchIndex, dealer) :=
          evictAll_other fun hmem => hlater hmem.2
        exact hrest.trans evictAvidIndex_self

theorem evictAll_phases (indices : List Nat) :
    (state.evictAll dealer indices).avidPartyPhases = state.avidPartyPhases := by
  induction indices generalizing state with
  | nil => rfl
  | cons evicted indices ih => exact ih

theorem evictAll_responses (indices : List Nat) {response : ComplaintResponsesKey}
    (h : ∀ batchIndex dealer, response ≠ .nonceGeneration batchIndex dealer) :
    (state.evictAll dealer indices).complaintResponses.lookup response =
      state.complaintResponses.lookup response := by
  induction indices generalizing state with
  | nil => rfl
  | cons evicted indices ih => exact ih.trans (Finmap.lookup_erase_ne (h _ _))

/-! ## The cap -/

def excessIndices (state : AvidState T) (dealer : Address) (inserted : Nat) : List Nat :=
  ((state.unprotectedIndices dealer).erase inserted).sort.take
    ((state.unprotectedIndices dealer).card - AVID_UNPROTECTED_INDICES_PER_DEALER)

theorem capAvidDealerState_eq :
    state.capAvidDealerState dealer inserted =
      state.evictAll dealer (state.excessIndices dealer inserted) :=
  rfl

theorem mem_excessIndices (h : batchIndex ∈ state.excessIndices dealer inserted) :
    batchIndex ∈ state.unprotectedIndices dealer ∧ batchIndex ≠ inserted := by
  have hmem := (Finset.mem_sort _).mp (List.mem_of_mem_take h)
  exact ⟨Finset.mem_of_mem_erase hmem, Finset.ne_of_mem_erase hmem⟩

theorem excessIndices_nodup : (state.excessIndices dealer inserted).Nodup :=
  (Finset.sort_nodup _ _).sublist (List.take_sublist _ _)

theorem excessIndices_length : (state.excessIndices dealer inserted).length =
    (state.unprotectedIndices dealer).card - AVID_UNPROTECTED_INDICES_PER_DEALER := by
  have hcard : (state.unprotectedIndices dealer).card - 1 ≤
      ((state.unprotectedIndices dealer).erase inserted).card := Finset.pred_card_le_card_erase
  rw [excessIndices, List.length_take, Finset.length_sort]
  unfold AVID_UNPROTECTED_INDICES_PER_DEALER
  omega

theorem unprotectedIndices_cap :
    (state.capAvidDealerState dealer inserted).unprotectedIndices dealer =
      state.unprotectedIndices dealer \ (state.excessIndices dealer inserted).toFinset := by
  ext other
  rw [Finset.mem_sdiff, List.mem_toFinset, capAvidDealerState_eq]
  by_cases hevicted : other ∈ state.excessIndices dealer inserted
  · refine iff_of_false (fun hmem => ?_) fun h => h.2 hevicted
    exact mem_heldIndices.mp (Finset.mem_filter.mp hmem).1 (evictAll_mem hevicted)
  · have hsame : (state.evictAll dealer (state.excessIndices dealer inserted)).entries (other, dealer) =
        state.entries (other, dealer) := evictAll_other fun h => hevicted h.2
    have houtput := congrArg AvidEntries.output hsame
    simp only [entries] at houtput
    rw [and_iff_left hevicted, unprotectedIndices, unprotectedIndices, Finset.mem_filter,
      Finset.mem_filter, mem_heldIndices, mem_heldIndices, hsame, avidIndexProtected,
      avidIndexProtected, evictAll_phases, houtput]

theorem card_unprotectedIndices_cap :
    ((state.capAvidDealerState dealer inserted).unprotectedIndices dealer).card ≤
      AVID_UNPROTECTED_INDICES_PER_DEALER := by
  have hsub : (state.excessIndices dealer inserted).toFinset ⊆ state.unprotectedIndices dealer :=
    fun other hmem => (mem_excessIndices (List.mem_toFinset.mp hmem)).1
  rw [unprotectedIndices_cap, Finset.card_sdiff_of_subset hsub,
    List.toFinset_card_of_nodup excessIndices_nodup, excessIndices_length]
  omega

theorem certified_cap :
    (state.capAvidDealerState dealer inserted).Certified key ↔ state.Certified key := by
  rw [capAvidDealerState_eq]
  by_cases hevicted : key.2 = dealer ∧ key.1 ∈ state.excessIndices dealer inserted
  · obtain ⟨rfl, hmem⟩ := hevicted
    refine iff_of_false (not_certified (evictAll_mem hmem)) ?_
    exact (not_protected (Finset.mem_filter.mp (mem_excessIndices hmem).1).2).2
  · exact certified_congr (congrArg AvidEntries.output (evictAll_other hevicted))

/-! ## Insertions -/

/-- An insertion before its cap: something is put under one key, where a mark stays if `kept`. -/
structure PutAt (before put : AvidState T) (key : NonceKey) (kept : Prop) : Prop where
  held : put.entries key ≠ .nothing
  others : ∀ other ≠ key, put.entries other = before.entries other
  phases : put.avidPartyPhases = before.avidPartyPhases
  responses : ∀ response, (∀ batchIndex dealer, response ≠ .nonceGeneration batchIndex dealer) →
    put.complaintResponses.lookup response = before.complaintResponses.lookup response
  certified : put.Certified key ↔ kept ∧ before.Certified key

def PutCapped (before after : AvidState T) (key : NonceKey) (kept : Prop) : Prop :=
  ∃ put, before.PutAt put key kept ∧ put.capAvidDealerState key.2 key.1 = after

/-- An insertion: its key is held afterwards, its dealer is within the cap, and any other key is as
before or was evicted from all maps, as an unprotected one of the same dealer. -/
structure Inserted (before after : AvidState T) (key : NonceKey) : Prop where
  held : after.entries key ≠ .nothing
  bounded : (after.unprotectedIndices key.2).card ≤ AVID_UNPROTECTED_INDICES_PER_DEALER
  others : ∀ other ≠ key, after.entries other = before.entries other ∨
    after.entries other = .nothing ∧ other.2 = key.2 ∧
      before.avidPartyPhases.lookup other.1 = none ∧ ¬ before.Certified other
  phases : after.avidPartyPhases = before.avidPartyPhases
  responses : ∀ response, (∀ batchIndex dealer, response ≠ .nonceGeneration batchIndex dealer) →
    after.complaintResponses.lookup response = before.complaintResponses.lookup response

theorem PutAt.capped {kept : Prop} (h : before.PutAt put key kept) :
    before.Inserted (put.capAvidDealerState key.2 key.1) key := by
  have hself : (put.evictAll key.2 (put.excessIndices key.2 key.1)).entries key = put.entries key :=
    evictAll_other fun hmem => (mem_excessIndices hmem.2).2 rfl
  refine ⟨hself ▸ h.held, card_unprotectedIndices_cap, ?_, (evictAll_phases _).trans h.phases,
    fun response hresponse => (evictAll_responses _ hresponse).trans (h.responses _ hresponse)⟩
  intro other hother
  by_cases hevicted : other.2 = key.2 ∧ other.1 ∈ put.excessIndices key.2 key.1
  · obtain ⟨hdealer, hmem⟩ := hevicted
    have hunprotected := (Finset.mem_filter.mp (mem_excessIndices hmem).1).2
    rw [← hdealer] at hunprotected hmem
    obtain ⟨hphase, hcertified⟩ := not_protected hunprotected
    refine .inr ⟨hdealer ▸ evictAll_mem hmem, hdealer, h.phases ▸ hphase, ?_⟩
    rwa [← certified_congr (congrArg AvidEntries.output (h.others other hother))]
  · exact .inl ((evictAll_other hevicted).trans (h.others other hother))

end AvidState

/-! ## Runs -/

/-- A call that touches the maps, with the answers of the store. -/
inductive AvidCall (T : AvidTypes)
  | optimistic (stored : Except String Unit) (dealer : Address) (batchIndex : Nat)
      (message : AvssMessage T)
  | echoes (stored : Except String Unit) (batchIndex : Nat) (dealer : Address) (held : T.HeldEchoes)
  | verifiedCommon (read : Except MpcError (Option (AvidRoundState T))) (dealer : Address)
      (batchIndex : Nat)
  | output (dealer : Address) (batchIndex : Nat) (output : T.Output) (commonHash : MessagesHash)
  | complaint (key : ComplaintResponsesKey) (response : T.Response)
  | beginPhase (batchIndex : Nat)
  | endPhase (batchIndex : Nat)
  | finishPhase (batchIndex : Nat) (certified : List Address)
  | certify (dealer : Address) (batchIndex : Nat) (digest : MessagesHash)
  | prune (batchIndex : Nat)

namespace AvidCall

open AvidState

variable {env : AvidEnv T} {state : AvidState T} {call : AvidCall T} {key : NonceKey}

def apply (env : AvidEnv T) (state : AvidState T) : AvidCall T → AvidState T
  | optimistic stored dealer batchIndex message =>
      (state.trySignAvidNonceOptimistic env stored dealer batchIndex message).toOption.getD state
  | echoes stored batchIndex dealer held =>
      (state.persistAndCacheAvidHeldEchoes stored batchIndex dealer held).toOption.getD state
  | verifiedCommon read dealer batchIndex =>
      ((state.avidRoundVerifiedCommon env read dealer batchIndex).toOption.map Prod.fst).getD state
  | output dealer batchIndex received commonHash =>
      state.insertAvidOutput dealer batchIndex received commonHash
  | complaint key response => state.cacheComplaintResponse key response
  | beginPhase batchIndex => state.beginAvidPartyPhase batchIndex
  | endPhase batchIndex => state.endAvidPartyPhase batchIndex
  | finishPhase batchIndex certified => state.finishAvidPartyPhase batchIndex certified
  | certify dealer batchIndex digest => state.certifyAvidOutput dealer batchIndex digest
  | prune batchIndex => state.pruneNonceState batchIndex

/-- The key that a call inserts under; none if it fails, finds its entry cached or inserts nothing. -/
def inserts (env : AvidEnv T) (state : AvidState T) : AvidCall T → Option NonceKey
  | optimistic stored dealer batchIndex message =>
      (state.trySignAvidNonceOptimistic env stored dealer batchIndex message).toOption.map
        fun _ => (batchIndex, dealer)
  | echoes stored batchIndex dealer held =>
      (state.persistAndCacheAvidHeldEchoes stored batchIndex dealer held).toOption.map
        fun _ => (batchIndex, dealer)
  | verifiedCommon read dealer batchIndex =>
      if (state.currentAvidVerifiedCommon.lookup (batchIndex, dealer)).isSome then none
      else (state.avidRoundVerifiedCommon env read dealer batchIndex).toOption.map
        fun _ => (batchIndex, dealer)
  | output dealer batchIndex _ _ => some (batchIndex, dealer)
  | complaint (.nonceGeneration batchIndex dealer) _ => some (batchIndex, dealer)
  | _ => none

def AddsNothing (before after : AvidState T) : Prop :=
  ∀ key, (after.entries key).Within (before.entries key)

def marks (key : NonceKey) : AvidCall T → Bool
  | certify dealer batchIndex _ => (batchIndex, dealer) = key
  | _ => false

/-- The call replaces or drops the output under the key, marked or not. -/
def unmarks (key : NonceKey) : AvidCall T → Bool
  | output dealer batchIndex _ _ => (batchIndex, dealer) = key
  | finishPhase batchIndex certified => key.1 = batchIndex && !certified.contains key.2
  | prune batchIndex => key.1 < batchIndex - (PRUNE_KEEP_RECENT_BATCHES - 1)
  | _ => false

/-! ### Insertions -/

variable {dealer : Address} {batchIndex : Nat}

theorem certified_cached {certDigest : Option MessagesHash} {commonHash : MessagesHash}
    (h : state.cachedCertDigest dealer batchIndex commonHash = .ok certDigest) :
    certDigest ≠ none ↔ state.Certified (batchIndex, dealer) := by
  simp only [Certified, entries]
  unfold cachedCertDigest at h
  cases hheld : state.dealerAvidNonceOutputs.lookup (batchIndex, dealer) with
  | none =>
      rw [hheld] at h
      cases h
      simp
  | some cached =>
      simp only [hheld] at h
      split_ifs at h
      cases h
      simp

theorem put_optimistic {stored : Except String Unit} {message : AvssMessage T} {after : AvidState T}
    (h : state.trySignAvidNonceOptimistic env stored dealer batchIndex message = .ok after) :
    state.PutCapped after (batchIndex, dealer) True := by
  unfold trySignAvidNonceOptimistic at h
  obtain ⟨_, -, h⟩ := bind_eq_ok.mp h
  obtain ⟨certDigest, hcached, h⟩ := bind_eq_ok.mp h
  obtain ⟨⟨output, verified⟩, -, h⟩ := bind_eq_ok.mp h
  obtain ⟨_, -, h⟩ := bind_eq_ok.mp h
  cases h
  refine ⟨_, ?_, rfl⟩
  refine ⟨?_, fun other hother => ?_, rfl, fun _ _ => rfl, ?_⟩
  · simp [entries, AvidEntries.nothing]
  · simp only [entries, Finmap.lookup_insert_of_ne _ hother]
  · -- a cached output passes its mark on
    rw [true_and, ← certified_cached hcached]
    simp [Certified, entries]

theorem put_echoes {stored : Except String Unit} {held : T.HeldEchoes} {after : AvidState T}
    (h : state.persistAndCacheAvidHeldEchoes stored batchIndex dealer held = .ok after) :
    state.PutCapped after (batchIndex, dealer) True := by
  obtain ⟨_, -, h⟩ := bind_eq_ok.mp h
  cases h
  refine ⟨_, ?_, rfl⟩
  refine ⟨?_, fun other hother => ?_, rfl, fun _ _ => rfl, .of_eq (true_and _).symm⟩
  · simp [entries, AvidEntries.nothing]
  · simp only [entries, Finmap.lookup_insert_of_ne _ hother]

theorem put_verifiedCommon {read : Except MpcError (Option (AvidRoundState T))}
    {verified : T.VerifiedCommon} {after : AvidState T}
    (hnone : state.currentAvidVerifiedCommon.lookup (batchIndex, dealer) = none)
    (h : state.avidRoundVerifiedCommon env read dealer batchIndex = .ok (after, verified)) :
    state.PutCapped after (batchIndex, dealer) True := by
  rw [avidRoundVerifiedCommon, hnone] at h
  obtain ⟨_, -, h⟩ := bind_eq_ok.mp h
  obtain ⟨_, -, h⟩ := bind_eq_ok.mp h
  obtain ⟨_, -, h⟩ := bind_eq_ok.mp h
  cases h
  refine ⟨_, ?_, rfl⟩
  refine ⟨?_, fun other hother => ?_, rfl, fun _ _ => rfl, .of_eq (true_and _).symm⟩
  · simp [entries, AvidEntries.nothing]
  · simp only [entries, Finmap.lookup_insert_of_ne _ hother]

theorem put_output (received : T.Output) (commonHash : MessagesHash) :
    state.PutCapped (state.insertAvidOutput dealer batchIndex received commonHash)
      (batchIndex, dealer) False := by
  refine ⟨_, ?_, rfl⟩
  refine ⟨?_, fun other hother => ?_, rfl, fun _ _ => rfl, ?_⟩
  · simp [entries, AvidEntries.nothing]
  · simp only [entries, Finmap.lookup_insert_of_ne _ hother]
  · simp [Certified, entries]

theorem put_complaint (response : T.Response) :
    state.PutCapped (state.cacheComplaintResponse (.nonceGeneration batchIndex dealer) response)
      (batchIndex, dealer) True := by
  refine ⟨_, ?_, rfl⟩
  refine ⟨?_, fun other hother => ?_, rfl, fun _ hresponse => ?_, .of_eq (true_and _).symm⟩
  · simp [entries, AvidEntries.nothing]
  · simp only [entries, Finmap.lookup_insert_of_ne _ (nonceGeneration_ne hother)]
  · exact Finmap.lookup_insert_of_ne _ (hresponse _ _)

theorem eq_ok_of_toOption {α : Type} {result : Except MpcError α} {a : α}
    (h : result.toOption = some a) : result = .ok a := by
  cases result with
  | error _ => cases h
  | ok _ =>
      cases h
      rfl

theorem apply_puts (h : call.inserts env state = some key) :
    state.PutCapped (call.apply env state) key (call.unmarks key = false) := by
  cases call with
  | optimistic stored dealer batchIndex message =>
      obtain ⟨after, hafter, rfl⟩ := Option.map_eq_some_iff.mp h
      rw [apply, hafter, Option.getD_some]
      simpa [unmarks] using put_optimistic (eq_ok_of_toOption hafter)
  | echoes stored batchIndex dealer held =>
      obtain ⟨after, hafter, rfl⟩ := Option.map_eq_some_iff.mp h
      rw [apply, hafter, Option.getD_some]
      simpa [unmarks] using put_echoes (eq_ok_of_toOption hafter)
  | verifiedCommon read dealer batchIndex =>
      rw [inserts] at h
      split_ifs at h with hcached
      obtain ⟨after, hafter, rfl⟩ := Option.map_eq_some_iff.mp h
      rw [apply, hafter, Option.map_some, Option.getD_some]
      have hnone := Option.not_isSome_iff_eq_none.mp hcached
      simpa [unmarks] using put_verifiedCommon hnone (eq_ok_of_toOption hafter)
  | output dealer batchIndex output commonHash =>
      cases h
      simpa [unmarks, apply] using put_output output commonHash
  | complaint complaintKey response =>
      cases complaintKey with
      | dkg _ => cases h
      | rotation _ _ => cases h
      | nonceGeneration _ _ =>
          cases h
          simpa [unmarks, apply] using put_complaint response
  | beginPhase _ => cases h
  | endPhase _ => cases h
  | finishPhase _ _ => cases h
  | certify _ _ _ => cases h
  | prune _ => cases h

theorem apply_inserts (h : call.inserts env state = some key) :
    state.Inserted (call.apply env state) key := by
  obtain ⟨put, hput, happly⟩ := apply_puts h
  exact happly ▸ hput.capped

/-! ### Other calls -/

def fallible : AvidCall T → Bool
  | optimistic .. => true
  | echoes .. => true
  | verifiedCommon .. => true
  | _ => false

theorem apply_refused (hfallible : call.fallible = true) (h : call.inserts env state = none) :
    call.apply env state = state := by
  cases call with
  | optimistic stored dealer batchIndex message =>
      rw [apply, Option.map_eq_none_iff.mp h, Option.getD_none]
  | echoes stored batchIndex dealer held =>
      rw [apply, Option.map_eq_none_iff.mp h, Option.getD_none]
  | verifiedCommon read dealer batchIndex =>
      rw [inserts] at h
      split_ifs at h with hcached
      · obtain ⟨verified, hverified⟩ := Option.isSome_iff_exists.mp hcached
        have hsame : state.avidRoundVerifiedCommon env read dealer batchIndex = .ok (state, verified) := by
          rw [avidRoundVerifiedCommon, hverified]
        rw [apply, hsame]
        rfl
      · rw [apply, Option.map_eq_none_iff.mp h, Option.map_none, Option.getD_none]
  | _ => cases hfallible

theorem lookup_retain_none {K V : Type} [DecidableEq K] {keep : K → V → Bool} {map : Bag K V} {k : K}
    (h : map.lookup k = none) : (map.retain keep).lookup k = none := by
  rw [Bag.lookup_retain, h, Option.filter_none]

def edits : AvidCall T → Bool
  | finishPhase .. => true
  | certify .. => true
  | prune .. => true
  | _ => false

theorem entries_endPhase (batchIndex : Nat) :
    (state.endAvidPartyPhase batchIndex).entries key = state.entries key := by
  unfold endAvidPartyPhase
  split
  · rfl
  · split_ifs <;> rfl

theorem apply_entries (hedits : call.edits ≠ true) (h : call.inserts env state = none) :
    (call.apply env state).entries key = state.entries key := by
  cases call with
  | optimistic _ _ _ _ | echoes _ _ _ _ | verifiedCommon _ _ _ => rw [apply_refused rfl h]
  | output _ _ _ _ => cases h
  | complaint complaintKey response =>
      cases complaintKey with
      | nonceGeneration _ _ => cases h
      | dkg _ | rotation _ _ =>
          simp only [entries, apply, cacheComplaintResponse]
          rw [Finmap.lookup_insert_of_ne _ (by simp)]
  | beginPhase _ => rfl
  | endPhase batchIndex => exact entries_endPhase batchIndex
  | finishPhase _ _ | certify _ _ _ | prune _ => exact absurd rfl hedits

theorem addsNothing_certify (dealer : Address) (batchIndex : Nat) (digest : MessagesHash) :
    AddsNothing state (state.certifyAvidOutput dealer batchIndex digest) := by
  intro key
  unfold certifyAvidOutput
  split
  · exact .of_eq rfl
  · next cached hcached =>
    refine ⟨id, id, fun h => ?_, id, id⟩
    simp only [entries] at h ⊢
    rw [Bag.lookup_insert_ite, if_neg, h]
    rintro rfl
    cases hcached.symm.trans h

theorem apply_addsNothing (h : call.inserts env state = none) :
    AddsNothing state (call.apply env state) := by
  by_cases hedits : call.edits = true
  · cases call with
    | finishPhase batchIndex certified =>
        intro key
        have hend : ((state.endAvidPartyPhase batchIndex).entries key).Within (state.entries key) :=
          .of_eq (entries_endPhase batchIndex)
        exact ⟨hend.roundState, hend.verifiedCommon, fun h => lookup_retain_none (hend.output h),
          hend.echoes, hend.complaint⟩
    | certify dealer batchIndex digest => exact addsNothing_certify dealer batchIndex digest
    | prune batchIndex =>
        intro key
        dsimp only [apply, pruneNonceState]
        split_ifs
        · exact .of_eq rfl
        · exact ⟨lookup_retain_none, lookup_retain_none, lookup_retain_none, lookup_retain_none,
            lookup_retain_none⟩
    | _ => cases hedits
  · exact fun key => .of_eq (apply_entries hedits h)

/-! ### Party phases -/

def begins (batchIndex : Nat) : AvidCall T → Bool
  | beginPhase other => other = batchIndex
  | _ => false

def ends (batchIndex : Nat) : AvidCall T → Bool
  | endPhase other => other = batchIndex
  | finishPhase other _ => other = batchIndex
  | _ => false

theorem phases_fallible (h : call.fallible = true) :
    (call.apply env state).avidPartyPhases = state.avidPartyPhases := by
  cases hinserts : call.inserts env state with
  | none => rw [apply_refused h hinserts]
  | some key => exact (apply_inserts hinserts).phases

theorem lookup_endPhase (batchIndex other : Nat) :
    (state.endAvidPartyPhase other).avidPartyPhases.lookup batchIndex =
      if other = batchIndex then
        (state.avidPartyPhases.lookup batchIndex).bind fun running =>
          if running - 1 = 0 then none else some (running - 1)
      else state.avidPartyPhases.lookup batchIndex := by
  unfold endAvidPartyPhase
  split
  · next hnone =>
    split_ifs with heq
    · rw [← heq, hnone, Option.bind_none]
    · rfl
  · next running hrunning =>
    by_cases heq : other = batchIndex
    · subst heq
      rw [if_pos rfl, hrunning, Option.bind_some]
      split_ifs
      · exact Finmap.lookup_erase _ _
      · exact Finmap.lookup_insert _
    · rw [if_neg heq]
      split_ifs
      · exact Finmap.lookup_erase_ne (Ne.symm heq)
      · exact Finmap.lookup_insert_of_ne _ (Ne.symm heq)

theorem ends_of_begins (h : call.begins batchIndex = true) :
    call.ends batchIndex = false := by
  cases call with
  | beginPhase _ => rfl
  | _ => cases h

theorem lookup_phases (batchIndex : Nat) :
    (call.apply env state).avidPartyPhases.lookup batchIndex =
      if call.begins batchIndex then some ((state.avidPartyPhases.lookup batchIndex).getD 0 + 1)
      else if call.ends batchIndex then
        (state.avidPartyPhases.lookup batchIndex).bind fun running =>
          if running - 1 = 0 then none else some (running - 1)
      else state.avidPartyPhases.lookup batchIndex := by
  cases call with
  | optimistic stored dealer index message => rw [phases_fallible rfl]; rfl
  | echoes stored index dealer held => rw [phases_fallible rfl]; rfl
  | verifiedCommon read dealer index => rw [phases_fallible rfl]; rfl
  | output dealer index received commonHash => rw [(apply_inserts rfl).phases]; rfl
  | complaint key response =>
      cases key with
      | dkg _ => rfl
      | rotation _ _ => rfl
      | nonceGeneration _ _ => rw [(apply_inserts rfl).phases]; rfl
  | beginPhase other =>
      rw [apply, beginAvidPartyPhase, Bag.lookup_insert_ite]
      by_cases heq : other = batchIndex
      · subst heq
        simp [begins]
      · simp [begins, ends, heq, Ne.symm heq]
  | endPhase other =>
      rw [apply, lookup_endPhase]
      simp [begins, ends]
  | finishPhase other certified =>
      have hphases : (apply env state (.finishPhase other certified)).avidPartyPhases =
          (state.endAvidPartyPhase other).avidPartyPhases := rfl
      rw [hphases, lookup_endPhase]
      simp [begins, ends]
  | certify dealer index digest =>
      have hphases : (state.certifyAvidOutput dealer index digest).avidPartyPhases =
          state.avidPartyPhases := by
        unfold certifyAvidOutput
        split <;> rfl
      rw [apply, hphases]
      rfl
  | prune index =>
      have hphases : (state.pruneNonceState index).avidPartyPhases = state.avidPartyPhases := by
        dsimp only [pruneNonceState]
        split_ifs <;> rfl
      rw [apply, hphases]
      rfl

/-! ### Certificates -/

theorem marks_of_inserts (h : call.inserts env state = some key) (other : NonceKey) :
    call.marks other = false ∧ (other ≠ key → call.unmarks other = false) := by
  cases call with
  | output _ _ _ _ =>
      cases h
      simpa [marks, unmarks] using Ne.symm
  | finishPhase _ _ | certify _ _ _ | prune _ => cases h
  | _ => exact ⟨rfl, fun _ => rfl⟩

theorem marks_of_not_edits (hedits : call.edits ≠ true) (h : call.inserts env state = none)
    (key : NonceKey) : call.marks key = false ∧ call.unmarks key = false := by
  cases call with
  | output _ _ _ _ => cases h
  | finishPhase _ _ | certify _ _ _ | prune _ => exact absurd rfl hedits
  | _ => exact ⟨rfl, rfl⟩

theorem certified_retain (keep : NonceKey → TaggedAvidOutput T → Bool) {kept : Prop}
    (hkept : ∀ output, output.certDigest ≠ none → (keep key output = true ↔ kept)) :
    Certified { state with dealerAvidNonceOutputs := state.dealerAvidNonceOutputs.retain keep } key ↔
      kept ∧ state.Certified key := by
  simp only [Certified, entries, Bag.lookup_retain, Option.filter_eq_some_iff]
  constructor
  · rintro ⟨output, ⟨hheld, hkeep⟩, hmark⟩
    exact ⟨(hkept output hmark).mp hkeep, output, hheld, hmark⟩
  · rintro ⟨hk, output, hheld, hmark⟩
    exact ⟨output, ⟨hheld, (hkept output hmark).mpr hk⟩, hmark⟩

theorem certified_edit (hedits : call.edits = true) : (call.apply env state).Certified key ↔
    call.marks key = true ∧ (state.entries key).output ≠ none ∨
      call.unmarks key = false ∧ state.Certified key := by
  cases call with
  | finishPhase batchIndex certified =>
      have hkept : ∀ output : TaggedAvidOutput T, output.certDigest ≠ none →
          ((key.1 ≠ batchIndex || (certified.contains key.2 && output.certDigest.isSome)) = true ↔
            (unmarks (T := T) key (.finishPhase batchIndex certified)) = false) := by
        intro output hmark
        simp [unmarks, Option.isSome_iff_ne_none.mpr hmark, imp_iff_not_or]
      rw [apply, finishAvidPartyPhase, consumeCertifiedNonceOutputs, certified_retain _ hkept,
        certified_congr (congrArg AvidEntries.output (entries_endPhase batchIndex))]
      simp [marks]
  | certify dealer batchIndex digest =>
      simp only [apply, certifyAvidOutput, marks, unmarks, decide_eq_true_eq, true_and]
      cases hheld : state.dealerAvidNonceOutputs.lookup (batchIndex, dealer) with
      | none =>
          refine ⟨.inr, fun h => h.resolve_left ?_⟩
          rintro ⟨rfl, hne⟩
          exact hne hheld
      | some cached =>
          by_cases hkey : key = (batchIndex, dealer)
          · subst hkey
            simp [Certified, entries, hheld]
          · simp [Certified, entries, Finmap.lookup_insert_of_ne _ hkey, Ne.symm hkey]
  | prune batchIndex =>
      simp only [marks, Bool.false_eq_true, false_and, false_or, unmarks, decide_eq_false_iff_not,
        not_lt, apply, pruneNonceState]
      split_ifs with hzero
      · rw [hzero, iff_and_self]
        exact fun _ => Nat.zero_le _
      · refine Iff.trans ?_ (certified_retain (fun key _ =>
          batchIndex - (PRUNE_KEEP_RECENT_BATCHES - 1) ≤ key.1) fun _ _ => decide_eq_true_iff)
        exact certified_congr rfl
  | _ => cases hedits

theorem certified_apply : (call.apply env state).Certified key ↔
    call.marks key = true ∧ (state.entries key).output ≠ none ∨
      call.unmarks key = false ∧ state.Certified key := by
  by_cases hedits : call.edits = true
  · exact certified_edit hedits
  cases hinserts : call.inserts env state with
  | none =>
      obtain ⟨hmarks, hunmarks⟩ := marks_of_not_edits hedits hinserts key
      rw [certified_congr (congrArg AvidEntries.output (apply_entries hedits hinserts))]
      simp [hmarks, hunmarks]
  | some inserted =>
      obtain ⟨put, hput, happly⟩ := apply_puts hinserts
      obtain ⟨hmarks, hunmarks⟩ := marks_of_inserts hinserts key
      rw [← happly, certified_cap, hmarks]
      by_cases hkey : key = inserted
      · subst hkey
        simp [hput.certified]
      · rw [certified_congr (congrArg AvidEntries.output (hput.others key hkey))]
        simp [hunmarks hkey]

end AvidCall

def runAvid (env : AvidEnv T) (calls : List (AvidCall T)) : AvidState T :=
  calls.foldl (AvidCall.apply env) .new

theorem runAvid_snoc (env : AvidEnv T) (calls : List (AvidCall T)) (call : AvidCall T) :
    runAvid env (calls ++ [call]) = call.apply env (runAvid env calls) := by
  rw [runAvid, List.foldl_append]
  rfl

def runningPhases (calls : List (AvidCall T)) (batchIndex : Nat) : Nat :=
  calls.countP (AvidCall.begins batchIndex) - calls.countP (AvidCall.ends batchIndex)

/-- Every phase that ends has begun, as the marks of the phases ensure. -/
def PhasesMatch (calls : List (AvidCall T)) : Prop :=
  ∀ done later, calls = done ++ later → ∀ batchIndex,
    done.countP (AvidCall.ends batchIndex) ≤ done.countP (AvidCall.begins batchIndex)

def phaseCount (running : Nat) : Option Nat := if running = 0 then none else some running

theorem phaseCount_begin (running : Nat) :
    some ((phaseCount running).getD 0 + 1) = phaseCount (running + 1) := by
  cases running with
  | zero => rfl
  | succ running => rfl

theorem phaseCount_end (running : Nat) :
    ((phaseCount running).bind fun running => if running - 1 = 0 then none else some (running - 1)) =
      phaseCount (running - 1) := by
  cases running with
  | zero => rfl
  | succ running => rfl

theorem lookup_runAvid {env : AvidEnv T} {calls : List (AvidCall T)} (h : PhasesMatch calls)
    (batchIndex : Nat) : (runAvid env calls).avidPartyPhases.lookup batchIndex =
      phaseCount (runningPhases calls batchIndex) := by
  induction calls using List.reverseRecOn with
  | nil => rfl
  | append_singleton calls call ih =>
      have hbefore : PhasesMatch calls := fun done later hcalls =>
        h done (later ++ [call]) (by rw [hcalls, List.append_assoc])
      have hmatch := hbefore calls [] (List.append_nil _).symm batchIndex
      rw [runAvid_snoc, AvidCall.lookup_phases, ih hbefore, phaseCount_begin, phaseCount_end]
      have hcount : runningPhases (calls ++ [call]) batchIndex =
          calls.countP (AvidCall.begins batchIndex) + (if call.begins batchIndex then 1 else 0) -
            (calls.countP (AvidCall.ends batchIndex) + if call.ends batchIndex then 1 else 0) := by
        rw [runningPhases, List.countP_append, List.countP_append, List.countP_singleton,
          List.countP_singleton]
      rw [hcount, runningPhases]
      by_cases hbegins : call.begins batchIndex = true
      · rw [if_pos hbegins, if_pos hbegins, AvidCall.ends_of_begins hbegins, if_neg (by simp),
          ← Nat.sub_add_comm hmatch]
        rfl
      · rw [if_neg hbegins, if_neg hbegins, Nat.add_zero]
        by_cases hends : call.ends batchIndex = true
        · rw [if_pos hends, if_pos hends, Nat.sub_sub]
        · rw [if_neg hends, if_neg hends, Nat.add_zero]

theorem certified_runAvid {env : AvidEnv T} {calls : List (AvidCall T)} {key : NonceKey} :
    (runAvid env calls).Certified key ↔ ∃ done mark later, calls = done ++ mark :: later ∧
      mark.marks key = true ∧ ((runAvid env done).entries key).output ≠ none ∧
      ∀ call ∈ later, call.unmarks key = false := by
  induction calls using List.reverseRecOn with
  | nil =>
      refine iff_of_false (AvidState.not_certified rfl) ?_
      rintro ⟨done, mark, later, hcalls, -⟩
      cases done <;> cases hcalls
  | append_singleton calls call ih =>
      rw [runAvid_snoc, AvidCall.certified_apply, ih]
      constructor
      · rintro (⟨hmarks, hheld⟩ | ⟨hkeeps, done, mark, later, rfl, hmark, hheld, hlater⟩)
        · exact ⟨calls, call, [], rfl, hmarks, hheld, by simp⟩
        · exact ⟨done, mark, later ++ [call], by simp, hmark, hheld,
            List.forall_mem_append.mpr ⟨hlater, List.forall_mem_singleton.mpr hkeeps⟩⟩
      · rintro ⟨done, mark, later, hcalls, hmark, hheld, hlater⟩
        rcases List.eq_nil_or_concat' later with rfl | ⟨later, last, rfl⟩
        · obtain ⟨rfl, hlast⟩ := List.append_inj' hcalls rfl
          cases hlast
          exact .inl ⟨hmark, hheld⟩
        · rw [← List.cons_append, ← List.append_assoc] at hcalls
          obtain ⟨rfl, hlast⟩ := List.append_inj' hcalls rfl
          cases hlast
          exact .inr ⟨hlater _ (by simp), done, mark, later, rfl, hmark, hheld,
            fun other hother => hlater other (by simp [hother])⟩

/-- Along every run of calls, an insertion leaves its dealer within the cap and evicts only unprotected
indices of that dealer, from all maps at once and never what it inserted; no other call adds an entry.
An index with a running phase is protected, and so is an output that was certified and not replaced
or dropped since. -/
theorem avid_dealer_state_bounded (env : AvidEnv T) (calls : List (AvidCall T)) (call : AvidCall T) :
    (∀ key, call.inserts env (runAvid env calls) = some key →
      (runAvid env calls).Inserted (call.apply env (runAvid env calls)) key) ∧
    (call.inserts env (runAvid env calls) = none →
      AvidCall.AddsNothing (runAvid env calls) (call.apply env (runAvid env calls))) ∧
    (PhasesMatch calls → ∀ batchIndex, (runAvid env calls).avidPartyPhases.lookup batchIndex = none ↔
      runningPhases calls batchIndex = 0) ∧
    (∀ key, (runAvid env calls).Certified key ↔ ∃ done mark later, calls = done ++ mark :: later ∧
      mark.marks key = true ∧ ((runAvid env done).entries key).output ≠ none ∧
      ∀ call ∈ later, call.unmarks key = false) := by
  refine ⟨fun key => AvidCall.apply_inserts, AvidCall.apply_addsNothing, fun h batchIndex => ?_,
    fun key => certified_runAvid⟩
  rw [lookup_runAvid h, phaseCount]
  split_ifs with hzero <;> simp [hzero]

namespace Sample

abbrev units : AvidTypes := ⟨Unit, Unit, Unit, Unit, Unit, Unit⟩

def avidEnv : AvidEnv units :=
  ⟨⟨0, [], 0, Config.empty⟩, fun _ => [], fun _ _ => .ok ((), ())⟩

def outputOf (dealer : Address) (batchIndex : Nat) : AvidCall units := .output dealer batchIndex () []

/-- A phase runs for index 7 and the output of index 0 is certified. -/
def sixHeld : List (AvidCall units) :=
  [.beginPhase 7, outputOf 1 7, outputOf 1 0, .certify 1 0 [], outputOf 1 1, outputOf 1 2,
    outputOf 1 3, outputOf 1 4]

theorem sixHeld_match : PhasesMatch sixHeld := by
  intro done later hcalls batchIndex
  have hnone : ∀ call ∈ sixHeld, call.ends batchIndex = false := by
    intro call hcall
    fin_cases hcall <;> rfl
  have hends : done.countP (AvidCall.ends batchIndex) = 0 := List.countP_eq_zero.mpr fun call hcall =>
    Bool.eq_false_iff.mp (hnone call (hcalls ▸ List.mem_append_left later hcall))
  rw [hends]
  exact Nat.zero_le _

def sevenHeld : AvidState units :=
  let before := runAvid avidEnv sixHeld
  { before with
    dealerAvidNonceOutputs := before.dealerAvidNonceOutputs.insert (5, 1) ⟨(), [], none⟩ }

theorem sevenHeld_excess : sevenHeld.excessIndices 1 5 = [1] := by
  have hunprotected : sevenHeld.unprotectedIndices 1 = {1, 2, 3, 4, 5} := by decide +kernel
  have hsort : ([1, 2, 3, 4] : List Nat).toFinset.sort = [1, 2, 3, 4] :=
    (List.toFinset_sort (· ≤ ·) (by decide)).mpr (by decide)
  rw [AvidState.excessIndices, hunprotected,
    show ({1, 2, 3, 4, 5} : Finset Nat).erase 5 = [1, 2, 3, 4].toFinset by decide, hsort]
  rfl

def fiveHeld : List (AvidCall units) :=
  [.beginPhase 0, outputOf 1 0, outputOf 1 1, outputOf 1 2, outputOf 1 3, outputOf 1 4, .endPhase 0]

end Sample

open Sample in
/-- The fifth unprotected index takes the place of the smallest one. -/
theorem avid_dealer_state_bounded_evicting :
    let before := runAvid avidEnv sixHeld
    let after := (outputOf 1 5).apply avidEnv before
    before.Inserted after (5, 1) ∧ before.unprotectedIndices 1 = {1, 2, 3, 4} ∧
      after.entries (1, 1) = .nothing ∧ after.entries (7, 1) = before.entries (7, 1) ∧
        after.entries (0, 1) = before.entries (0, 1) := by
  intro before after
  obtain ⟨hinserted, -, hphases, hcertified⟩ :=
    avid_dealer_state_bounded avidEnv sixHeld (outputOf 1 5)
  have h : before.Inserted after (5, 1) := hinserted (5, 1) rfl
  refine ⟨h, by decide +kernel, ?_, ?_, ?_⟩
  · have hevicted : 1 ∈ sevenHeld.excessIndices 1 5 := sevenHeld_excess ▸ .head _
    exact AvidState.evictAll_mem hevicted
  · refine (h.others (7, 1) (by decide)).resolve_right fun hgone => ?_
    exact absurd ((hphases sixHeld_match 7).mp hgone.2.2.1) (by decide)
  · refine (h.others (0, 1) (by decide)).resolve_right fun hgone => ?_
    exact hgone.2.2.2 ((hcertified (0, 1)).mpr
      ⟨[.beginPhase 7, outputOf 1 7, outputOf 1 0], .certify 1 0 [], _, rfl, rfl, nofun, by decide⟩)

open Sample in
/-- When its phase ends, dealer 1 holds five unprotected indices, and an insertion of dealer 2 leaves
them. -/
theorem avid_cap_exceeded :
    (outputOf 2 9).inserts avidEnv (runAvid avidEnv fiveHeld) = some (9, 2) ∧
      AVID_UNPROTECTED_INDICES_PER_DEALER <
        (((outputOf 2 9).apply avidEnv (runAvid avidEnv fiveHeld)).unprotectedIndices 1).card :=
  ⟨rfl, by decide +kernel⟩

end HashiBridge.Mpc
