import HashiBridge.Mpc.Collection
import HashiBridge.Mpc.Theorems.FinalizeSweep

/-!
# Partial signatures are bound to their owners

The indices of an input's partials are never compared with each other.
-/

namespace HashiBridge.Mpc

open Lib HashiBridge.Core

variable {S G Sig ε : Type} {config : SigningEpochConfig G} {aggregation : Aggregation S G Sig}

/-! ## One list -/

theorem SigningEpochConfig.retainOwned_spec (peer : Address) (sigs : List (Eval S)) :
    ((config.retainOwned peer sigs).1.map Eval.index).Nodup ∧
      ∀ e ∈ (config.retainOwned peer sigs).1,
        e ∈ sigs ∧ config.shareOwners.lookup e.index = some peer := by
  suffices h : ∀ (rest : List (Eval S)) (acc : List (Eval S) × Finset Nat),
      rest ⊆ sigs → (acc.1.map Eval.index).Nodup →
      (∀ e ∈ acc.1, e ∈ sigs ∧ config.shareOwners.lookup e.index = some peer) →
      (∀ e ∈ acc.1, e.index ∈ acc.2) →
      let kept := (rest.foldl (fun (acc : List (Eval S) × Finset Nat) e =>
        if config.shareOwners.lookup e.index = some peer ∧ e.index ∉ acc.2 then
          (acc.1 ++ [e], insert e.index acc.2)
        else acc) acc).1
      (kept.map Eval.index).Nodup ∧
        ∀ e ∈ kept, e ∈ sigs ∧ config.shareOwners.lookup e.index = some peer from
    h sigs ([], ∅) (List.Subset.refl _) List.nodup_nil (by simp) (by simp)
  intro rest
  induction rest with
  | nil => exact fun acc _ hnodup howned _ => ⟨hnodup, howned⟩
  | cons e rest ih =>
      intro acc hsub hnodup howned hseen
      obtain ⟨he, hrest⟩ := List.cons_subset.mp hsub
      rw [List.foldl_cons]
      split_ifs with hkeep
      · refine ih _ hrest ?_ ?_ ?_
        · have hnew : e.index ∉ acc.1.map Eval.index := by
            intro hmem
            obtain ⟨other, hother, hindex⟩ := List.mem_map.mp hmem
            exact hkeep.2 (hindex ▸ hseen other hother)
          rw [List.map_append, List.map_singleton]
          exact List.nodup_append_comm.mp (List.nodup_cons.mpr ⟨hnew, hnodup⟩)
        · exact List.forall_mem_append.mpr ⟨howned, List.forall_mem_singleton.mpr ⟨he, hkeep.1⟩⟩
        · exact List.forall_mem_append.mpr ⟨fun other hother => Finset.mem_insert_of_mem
            (hseen other hother), List.forall_mem_singleton.mpr (Finset.mem_insert_self _ _)⟩
      · exact ih _ hrest hnodup howned hseen

theorem nonceReport_accepted {signingNonces : Bag Address Bytes} {signingId : Address}
    {signingNonceBytes : Bytes} (h : nonceReport signingNonces signingId signingNonceBytes = .accepted)
    {nonce : Bytes} (hnonce : signingNonces.lookup signingId = some nonce) :
    nonce = signingNonceBytes := by
  rw [nonceReport, hnonce] at h
  by_contra hne
  simp only [ne_eq, hne, not_false_eq_true, if_true] at h
  split_ifs at h

structure Merge (S : Type) where
  peer : Address
  response : GetPartialSignaturesResponse S
  sigs : List (Eval S)

def Merge.kept (config : SigningEpochConfig G) (self : Merge S) : List (Eval S) :=
  (config.retainOwned self.peer self.sigs).1

theorem InputSigningState.answer_eq (config : SigningEpochConfig G) (peer : Address)
    (response : GetPartialSignaturesResponse S) (sigs : List (Eval S))
    (st : InputSigningState S G) :
    ∃ merges : List (Merge S), st.answer config peer response.signingNonces sigs =
        { st with
          peersRemaining := st.peersRemaining.erase peer
          partials := st.partials ++ merges.flatMap (Merge.kept config) } ∧
      (merges = [] ∨ merges = [⟨peer, response, sigs⟩] ∧
        nonceReport response.signingNonces st.signingId st.signingNonceBytes = .accepted) := by
  unfold answer
  cases hreport : nonceReport response.signingNonces st.signingId st.signingNonceBytes with
  | unusable | differs => exact ⟨[], by simp [hreport], .inl rfl⟩
  | accepted =>
      cases hover : config.overOwnedCount peer sigs with
      | some _ => exact ⟨[], by simp [hreport], .inl rfl⟩
      | none => exact ⟨[⟨peer, response, sigs⟩], by simp [hreport, Merge.kept], .inr ⟨rfl, rfl⟩⟩

/-! ## Positions -/

theorem positions_lookup {pending : List (InputSigningState S G)} {signingId : Address} {i : Nat}
    (h : (positions pending).lookup signingId = some i) :
    (pending.map InputSigningState.signingId)[i]? = some signingId := by
  generalize hids : pending.map InputSigningState.signingId = ids
  rw [positions, hids] at h
  suffices hfold : ∀ (entries : List (Address × Nat)) (index : Bag Address Nat),
      (∀ entry ∈ entries, ids[entry.2]? = some entry.1) →
      (∀ id i, index.lookup id = some i → ids[i]? = some id) →
      ∀ id i, (entries.foldl (fun index entry => index.insert entry.1 entry.2) index).lookup id =
        some i → ids[i]? = some id by
    refine hfold ids.zipIdx ∅ (fun entry hentry => ?_) (fun id i hnone => ?_) signingId i h
    · exact List.mem_zipIdx_iff_getElem?.mp hentry
    · rw [Finmap.lookup_empty] at hnone
      cases hnone
  intro entries
  induction entries with
  | nil => exact fun index _ hindex => hindex
  | cons entry entries ih =>
      intro index hentries hindex
      refine ih _ (fun e he => hentries e (List.mem_cons_of_mem _ he)) fun id i hlookup => ?_
      rcases Bag.lookup_of_insert hlookup with ⟨rfl, rfl⟩ | hlookup
      exacts [hentries entry List.mem_cons_self, hindex id i hlookup]

theorem positions_congr {pending pending' : List (InputSigningState S G)}
    (h : pending'.map InputSigningState.signingId = pending.map InputSigningState.signingId) :
    positions pending' = positions pending := by
  rw [positions, positions, h]

/-! ## One answer -/

section Answer

variable {index : Bag Address Nat} {peer : Address} {response : GetPartialSignaturesResponse S}

theorem InputSigningState.signingId_answer {nonces : Bag Address Bytes} {sigs : List (Eval S)}
    {st : InputSigningState S G} : (st.answer config peer nonces sigs).signingId = st.signingId := by
  obtain ⟨merges, heq, -⟩ := st.answer_eq config peer ⟨[], nonces⟩ sigs
  exact heq ▸ rfl

theorem Round.mergeList_ids (nonces : Bag Address Bytes) (round : Round S G)
    (entry : Address × List (Eval S)) :
    (round.mergeList config index peer nonces entry).pending.map InputSigningState.signingId =
      round.pending.map InputSigningState.signingId := by
  unfold mergeList
  cases index.lookup entry.1 with
  | none => rfl
  | some i =>
      simp only
      cases hi : round.pending[i]? with
      | none => rfl
      | some st =>
          simp only
          split_ifs with hpeer
          · rw [List.map_set, InputSigningState.signingId_answer]
            refine List.ext_getElem? fun j => ?_
            rw [List.getElem?_set]
            split_ifs with hj hlt
            · rw [List.getElem?_map, ← hj, hi]
              rfl
            · rw [← hj, List.getElem?_eq_none (not_lt.mp hlt)]
            · rfl
          · rfl

theorem Round.mergeResponse_ids (round : Round S G) :
    (round.mergeResponse config index peer response).pending.map InputSigningState.signingId =
      round.pending.map InputSigningState.signingId := by
  unfold mergeResponse
  induction response.partialSigs generalizing round with
  | nil => rfl
  | cons entry entries ih => exact (ih _).trans (mergeList_ids _ round entry)

theorem Round.mergeResponse_forall {P : InputSigningState S G → Prop} {round : Round S G}
    (hindex : ∀ id i, index.lookup id = some i →
      (round.pending.map InputSigningState.signingId)[i]? = some id)
    (hround : ∀ st ∈ round.pending, P st)
    (hanswer : ∀ st sigs, (st.signingId, sigs) ∈ response.partialSigs → peer ∈ st.peersRemaining →
      P st → P (st.answer config peer response.signingNonces sigs)) :
    ∀ st ∈ (round.mergeResponse config index peer response).pending, P st := by
  suffices h : ∀ (entries : List (Address × List (Eval S))) (r : Round S G),
      entries ⊆ response.partialSigs →
      r.pending.map InputSigningState.signingId = round.pending.map InputSigningState.signingId →
      (∀ st ∈ r.pending, P st) →
      ∀ st ∈ (entries.foldl (Round.mergeList config index peer response.signingNonces) r).pending,
        P st from
    h response.partialSigs round (List.Subset.refl _) rfl hround
  intro entries
  induction entries with
  | nil => exact fun r _ _ hP => hP
  | cons entry entries ih =>
      intro r hsub hids hP
      obtain ⟨hentry, hentries⟩ := List.cons_subset.mp hsub
      refine ih _ hentries ((mergeList_ids _ r entry).trans hids) ?_
      unfold mergeList
      cases hlookup : index.lookup entry.1 with
      | none => exact hP
      | some i =>
          cases hi : r.pending[i]? with
          | none => simpa only [hi] using hP
          | some st =>
              simp only [hi]
              split_ifs with hpeer
              · intro other hother
                rcases List.mem_or_eq_of_mem_set hother with hold | rfl
                · exact hP other hold
                · have hid := hindex _ _ hlookup
                  rw [← hids, List.getElem?_map, hi] at hid
                  have hsame : st.signingId = entry.1 := Option.some.inj hid
                  exact hanswer st entry.2 (hsame ▸ hentry) hpeer (hP st (List.mem_of_getElem? hi))
              · exact hP

end Answer

/-! ## Runs -/

structure CollectWorld (S G : Type) where
  pending : List (InputSigningState S G)
  flagged : Finset Nat

inductive CollectEvent (S : Type)
  | response (peer : Address) (response : GetPartialSignaturesResponse S)
  | sweep

/-- The loop of `complete`: answers that are merged, and sweeps. -/
inductive CollectStep (aggregation : Aggregation S G Sig) (config : SigningEpochConfig G) :
    CollectWorld S G → CollectEvent S → CollectWorld S G → Prop
  | response {w : CollectWorld S G} {peer : Address} {response : GetPartialSignaturesResponse S}
      (progressed : Bool) :
      CollectStep aggregation config w (.response peer response)
        { w with
          pending := (Round.mergeResponse config (positions w.pending) peer response
            ⟨w.pending, progressed⟩).pending }
  | sweep {w : CollectWorld S G} {fuel : Nat} {sent : List (Address × Except SigningError Sig)}
      {out : SweepResult S G Sig}
      (settles : finalizeSweep aggregation config fuel w.pending w.flagged sent = some out) :
      CollectStep aggregation config w .sweep ⟨out.pending, out.flagged⟩

theorem collectPartialSigsFromPeers_run (flagged : Finset Nat)
    (arrivals : List (Address × Except ε (GetPartialSignaturesResponse S)))
    (pending : List (InputSigningState S G)) :
    ∃ tr, Run (CollectStep aggregation config) ⟨pending, flagged⟩ tr
      ⟨(collectPartialSigsFromPeers config flagged arrivals pending).pending, flagged⟩ := by
  suffices h : ∀ (round : Round S G),
      round.pending.map InputSigningState.signingId = pending.map InputSigningState.signingId →
      ∃ tr, Run (CollectStep aggregation config) ⟨round.pending, flagged⟩ tr
        ⟨(round.mergeArrivals config flagged (positions pending) arrivals).pending, flagged⟩ from
    h ⟨pending, false⟩ rfl
  induction arrivals with
  | nil => exact fun round _ => ⟨[], .nil⟩
  | cons arrival arrivals ih =>
      intro round hids
      obtain ⟨peer, result⟩ := arrival
      cases result with
      | error e => exact ih round hids
      | ok response =>
          have hstep : CollectStep aggregation config ⟨round.pending, flagged⟩
              (.response peer response)
              ⟨(round.mergeResponse config (positions pending) peer response).pending, flagged⟩ := by
            rw [← positions_congr hids]
            exact .response round.progressed
          rw [Round.mergeArrivals]
          split_ifs with hready
          · exact ⟨_, .single hstep⟩
          · obtain ⟨tr, hrun⟩ := ih _ ((Round.mergeResponse_ids round).trans hids)
            exact ⟨_, .cons hstep hrun⟩

/-! ## Owners -/

/-- How `st` came to its partials from those of `st₀`, where `supplied` says which answers there have
been. -/
structure OwnerBound (config : SigningEpochConfig G)
    (supplied : Address → GetPartialSignaturesResponse S → Prop)
    (st₀ st : InputSigningState S G) (merges : List (Merge S)) : Prop where
  same_id : st.signingId = st₀.signingId
  same_nonce : st.signingNonceBytes = st₀.signingNonceBytes
  partials : st.partials = st₀.partials ++ merges.flatMap (Merge.kept config)
  once : (merges.map Merge.peer).Nodup
  remaining : st.peersRemaining ⊆ st₀.peersRemaining
  asked : ∀ m ∈ merges, m.peer ∈ st₀.peersRemaining ∧ m.peer ∉ st.peersRemaining
  supplied : ∀ m ∈ merges, supplied m.peer m.response ∧
    (st₀.signingId, m.sigs) ∈ m.response.partialSigs
  nonce : ∀ m ∈ merges,
    nonceReport m.response.signingNonces st₀.signingId st₀.signingNonceBytes = .accepted

namespace OwnerBound

variable {supplied supplied' : Address → GetPartialSignaturesResponse S → Prop}
  {st₀ st st' : InputSigningState S G} {merges : List (Merge S)}

theorem init (st : InputSigningState S G) : OwnerBound config supplied st st [] := by
  constructor <;> simp

theorem mono (h : OwnerBound config supplied st₀ st merges)
    (hmono : ∀ peer response, supplied peer response → supplied' peer response) :
    OwnerBound config supplied' st₀ st merges :=
  { h with supplied := fun m hm => ⟨hmono _ _ (h.supplied m hm).1, (h.supplied m hm).2⟩ }

theorem of_forget (h : OwnerBound config supplied st₀ st merges) (hforget : st'.forget = st.forget) :
    OwnerBound config supplied st₀ st' merges := by
  have hpeers := InputSigningState.peersRemaining_of_forget hforget
  constructor
  case same_id => exact (InputSigningState.signingId_of_forget hforget).trans h.same_id
  case same_nonce => exact (InputSigningState.signingNonceBytes_of_forget hforget).trans h.same_nonce
  case partials => exact (InputSigningState.partials_of_forget hforget).trans h.partials
  case once => exact h.once
  case remaining => exact hpeers ▸ h.remaining
  case asked => exact hpeers ▸ h.asked
  case supplied => exact h.supplied
  case nonce => exact h.nonce

theorem answer (h : OwnerBound config supplied st₀ st merges) {peer : Address}
    {response : GetPartialSignaturesResponse S} {sigs : List (Eval S)}
    (hsigs : (st.signingId, sigs) ∈ response.partialSigs) (hpeer : peer ∈ st.peersRemaining)
    (hsupplied : supplied peer response) :
    ∃ merges', OwnerBound config supplied st₀ (st.answer config peer response.signingNonces sigs)
      merges' := by
  obtain ⟨new, heq, hnew⟩ := st.answer_eq config peer response sigs
  have hfresh : ∀ m ∈ merges, m.peer ≠ peer := by
    intro m hm hsame
    exact (h.asked m hm).2 (hsame ▸ hpeer)
  have hmem : ∀ m ∈ new, m = ⟨peer, response, sigs⟩ ∧
      nonceReport response.signingNonces st.signingId st.signingNonceBytes = .accepted := by
    rcases hnew with rfl | ⟨rfl, hreport⟩
    · exact fun m hm => absurd hm List.not_mem_nil
    · exact fun m hm => ⟨List.mem_singleton.mp hm, hreport⟩
  refine ⟨merges ++ new, ?_⟩
  rw [heq]
  constructor
  case same_id => exact h.same_id
  case same_nonce => exact h.same_nonce
  case partials =>
    simp only [h.partials, List.flatMap_append, List.append_assoc]
  case once =>
    rw [List.map_append]
    refine List.nodup_append'.mpr ⟨h.once, ?_, ?_⟩
    · rcases hnew with rfl | ⟨rfl, -⟩ <;> simp
    · intro p hold hnew'
      obtain ⟨m, hm, rfl⟩ := List.mem_map.mp hold
      obtain ⟨m', hm', hsame⟩ := List.mem_map.mp hnew'
      rw [(hmem m' hm').1] at hsame
      exact hfresh m hm hsame.symm
  case remaining => exact (Finset.erase_subset _ _).trans h.remaining
  case asked =>
    intro m hm
    rcases List.mem_append.mp hm with hold | hlast
    · exact ⟨(h.asked m hold).1, fun hmem' => (h.asked m hold).2 (Finset.mem_of_mem_erase hmem')⟩
    · rw [(hmem m hlast).1]
      exact ⟨h.remaining hpeer, Finset.notMem_erase _ _⟩
  case supplied =>
    refine List.forall_mem_append.mpr ⟨h.supplied, fun m hm => ?_⟩
    rw [(hmem m hm).1]
    exact ⟨hsupplied, h.same_id ▸ hsigs⟩
  case nonce =>
    refine List.forall_mem_append.mpr ⟨h.nonce, fun m hm => ?_⟩
    obtain ⟨rfl, hreport⟩ := hmem m hm
    rwa [h.same_id, h.same_nonce] at hreport

end OwnerBound

/-- `peer` gave the answer at a time when an input under `signingId` waited for it. -/
def Answered (aggregation : Aggregation S G Sig) (config : SigningEpochConfig G)
    (w₀ : CollectWorld S G) (tr : List (CollectEvent S)) (w : CollectWorld S G) (signingId : Address)
    (peer : Address) (response : GetPartialSignaturesResponse S) : Prop :=
  Occurs (CollectStep aggregation config) w₀ tr w fun earlier event _ =>
    event = .response peer response ∧
      ∃ st ∈ earlier.pending, st.signingId = signingId ∧ peer ∈ st.peersRemaining

section Runs

variable {w₀ w w' : CollectWorld S G} {tr : List (CollectEvent S)} {event : CollectEvent S}

def Collected (aggregation : Aggregation S G Sig) (config : SigningEpochConfig G)
    (w₀ : CollectWorld S G) (tr : List (CollectEvent S)) (w : CollectWorld S G) : Prop :=
  ∀ st ∈ w.pending, ∃ st₀ ∈ w₀.pending, ∃ merges,
    OwnerBound config (Answered aggregation config w₀ tr w st₀.signingId) st₀ st merges

theorem Collected.step (hrun : Run (CollectStep aggregation config) w₀ tr w)
    (h : Collected aggregation config w₀ tr w) (hstep : CollectStep aggregation config w event w') :
    Collected aggregation config w₀ (tr ++ [event]) w' := by
  have hkept : ∀ st ∈ w.pending, ∃ st₀ ∈ w₀.pending, ∃ merges, OwnerBound config
      (Answered aggregation config w₀ (tr ++ [event]) w' st₀.signingId) st₀ st merges := by
    intro st hst
    obtain ⟨st₀, hst₀, merges, hbound⟩ := h st hst
    exact ⟨st₀, hst₀, merges, hbound.mono fun _ _ hoccurs => hoccurs.snoc hstep⟩
  cases hstep with
  | sweep settles =>
      intro st hst
      have hsweep : SweepStart.run ⟨aggregation, config, _, _, _⟩ _ = some _ := settles
      obtain ⟨prev, hprev, hattempted⟩ := (SweepStart.run_inputs hsweep).2 st hst
      obtain ⟨st₀, hst₀, merges, hbound⟩ := hkept prev hprev
      exact ⟨st₀, hst₀, merges, hbound.of_forget hattempted.forget_eq⟩
  | @response peer response progressed =>
      -- while the lists of one answer are merged, an input waits for fewer and fewer peers
      let merged := Round.mergeResponse config (positions w.pending) peer response
        ⟨w.pending, progressed⟩
      suffices hP : ∀ st ∈ merged.pending, (∃ before ∈ w.pending, before.signingId = st.signingId ∧
          st.peersRemaining ⊆ before.peersRemaining) ∧
          ∃ st₀ ∈ w₀.pending, ∃ merges, OwnerBound config (Answered aggregation config w₀
            (tr ++ [.response peer response]) ⟨merged.pending, w.flagged⟩ st₀.signingId)
            st₀ st merges from
        fun st hst => (hP st hst).2
      refine Round.mergeResponse_forall (fun id i => positions_lookup)
        (fun st hst => ⟨⟨st, hst, rfl, Finset.Subset.refl _⟩, hkept st hst⟩) ?_
      intro st sigs hsigs hpeer ⟨⟨before, hbefore, hid, hsub⟩, st₀, hst₀, merges, hbound⟩
      refine ⟨⟨before, hbefore, ?_, ?_⟩, st₀, hst₀, hbound.answer hsigs hpeer ?_⟩
      · rw [hid, InputSigningState.signingId_answer]
      · obtain ⟨new, heq, -⟩ := st.answer_eq config peer response sigs
        rw [heq]
        exact (Finset.erase_subset _ _).trans hsub
      · exact ⟨tr, [], w, _, _, rfl, hrun, .response progressed, .nil, rfl, before, hbefore,
          hid.trans hbound.same_id, hsub hpeer⟩

theorem collected (hrun : Run (CollectStep aggregation config) w₀ tr w) :
    Collected aggregation config w₀ tr w := by
  induction hrun with
  | nil => exact fun st hst => ⟨st, hst, [], OwnerBound.init st⟩
  | snoc hrun hstep ih => exact ih.step hrun hstep

end Runs

/-- What the local node starts with: partials at distinct indices of its own, and peers other than
itself to ask. -/
structure Prepared (config : SigningEpochConfig G) (st : InputSigningState S G) : Prop where
  distinct : (st.partials.map Eval.index).Nodup
  owned : ∀ e ∈ st.partials, config.shareOwners.lookup e.index = some config.address
  peers : config.address ∉ st.peersRemaining

namespace OwnerBound

variable {supplied : Address → GetPartialSignaturesResponse S → Prop}
  {st₀ st : InputSigningState S G} {merges : List (Merge S)}

theorem indices_nodup (h : OwnerBound config supplied st₀ st merges) (hlocal : Prepared config st₀) :
    (st.partials.map Eval.index).Nodup := by
  rw [h.partials, List.map_append]
  refine List.nodup_append'.mpr ⟨hlocal.distinct, ?_, ?_⟩
  · rw [List.map_flatMap]
    refine List.nodup_flatMap.mpr ⟨fun m _ => (config.retainOwned_spec m.peer m.sigs).1, ?_⟩
    refine (List.pairwise_map.mp h.once).imp fun {m m'} hne => ?_
    intro index hleft hright
    obtain ⟨e, he, rfl⟩ := List.mem_map.mp hleft
    obtain ⟨e', he', hindex⟩ := List.mem_map.mp hright
    have howner := ((config.retainOwned_spec m.peer m.sigs).2 e he).2
    have howner' := ((config.retainOwned_spec m'.peer m'.sigs).2 e' he').2
    rw [hindex, howner] at howner'
    exact hne (Option.some.inj howner')
  · intro index hleft hright
    obtain ⟨e, he, rfl⟩ := List.mem_map.mp hleft
    obtain ⟨e', he', hindex⟩ := List.mem_map.mp hright
    obtain ⟨m, hm, hkept⟩ := List.mem_flatMap.mp he'
    have howner' := ((config.retainOwned_spec m.peer m.sigs).2 e' hkept).2
    rw [hindex, hlocal.owned e he] at howner'
    exact hlocal.peers (Option.some.inj howner' ▸ (h.asked m hm).1)

theorem wrong_le (h : OwnerBound config supplied st₀ st merges) (hlocal : Prepared config st₀)
    (wrong : Eval S → Prop) [DecidablePred wrong] (misbehaving : Finset Address)
    (hright : ∀ e ∈ st₀.partials, ¬ wrong e)
    (hhonest : ∀ m ∈ merges, m.peer ∉ misbehaving → ∀ e ∈ m.sigs, ¬ wrong e) :
    (st.partials.filter (wrong ·)).length ≤ (misbehaving.biUnion config.ownedBy).card := by
  have hnodup : ((st.partials.filter (wrong ·)).map Eval.index).Nodup :=
    (h.indices_nodup hlocal).sublist (List.filter_sublist.map Eval.index)
  rw [← List.length_map Eval.index, ← List.toFinset_card_of_nodup hnodup]
  refine Finset.card_le_card fun index hindex => ?_
  obtain ⟨e, he, rfl⟩ := List.mem_map.mp (List.mem_toFinset.mp hindex)
  obtain ⟨hmem, hwrong⟩ := List.mem_filter.mp he
  rw [h.partials] at hmem
  rcases List.mem_append.mp hmem with hown | hmerged
  · exact absurd (of_decide_eq_true hwrong) (hright e hown)
  · obtain ⟨m, hm, hkept⟩ := List.mem_flatMap.mp hmerged
    obtain ⟨hsigs, howner⟩ := (config.retainOwned_spec m.peer m.sigs).2 e hkept
    have hpeer : m.peer ∈ misbehaving := by
      by_contra hhon
      exact hhonest m hm hhon e hsigs (of_decide_eq_true hwrong)
    refine Finset.mem_biUnion.mpr ⟨m.peer, hpeer, Finset.mem_filter.mpr ⟨?_, howner⟩⟩
    exact Finmap.mem_keys.mpr (Bag.mem_of_lookup howner)

end OwnerBound

theorem Answered.event_mem {w₀ w : CollectWorld S G} {tr : List (CollectEvent S)}
    {signingId peer : Address} {response : GetPartialSignaturesResponse S}
    (h : Answered aggregation config w₀ tr w signingId peer response) :
    .response peer response ∈ tr := by
  obtain ⟨pre, post, a, label, b, rfl, -, -, -, rfl, -⟩ := h
  exact List.mem_append_right _ List.mem_cons_self

theorem partials_ownerBound (aggregation : Aggregation S G Sig) (config : SigningEpochConfig G)
    {w₀ w : CollectWorld S G} {tr : List (CollectEvent S)}
    (hlocal : ∀ st ∈ w₀.pending, Prepared config st)
    (hrun : Run (CollectStep aggregation config) w₀ tr w) :
    ∀ st ∈ w.pending, ∃ st₀ ∈ w₀.pending, ∃ merges : List (Merge S),
      st.signingId = st₀.signingId ∧ (st.partials.map Eval.index).Nodup ∧
      st.partials = st₀.partials ++ merges.flatMap (Merge.kept config) ∧
      (merges.map Merge.peer).Nodup ∧
      (∀ m ∈ merges, Answered aggregation config w₀ tr w st.signingId m.peer m.response ∧
        (st.signingId, m.sigs) ∈ m.response.partialSigs ∧
        (∀ e ∈ m.kept config, e ∈ m.sigs ∧ config.shareOwners.lookup e.index = some m.peer) ∧
        ∀ nonce, m.response.signingNonces.lookup st.signingId = some nonce →
          nonce = st.signingNonceBytes) ∧
      ∀ (wrong : Eval S → Prop) [DecidablePred wrong] (misbehaving : Finset Address),
        (∀ e ∈ st₀.partials, ¬ wrong e) →
        (∀ peer response sigs, peer ∉ misbehaving → .response peer response ∈ tr →
          (st.signingId, sigs) ∈ response.partialSigs →
          nonceReport response.signingNonces st.signingId st.signingNonceBytes = .accepted →
          ∀ e ∈ sigs, ¬ wrong e) →
        (st.partials.filter (wrong ·)).length ≤ (misbehaving.biUnion config.ownedBy).card := by
  intro st hst
  obtain ⟨st₀, hst₀, merges, hbound⟩ := collected hrun st hst
  refine ⟨st₀, hst₀, merges, hbound.same_id, hbound.indices_nodup (hlocal st₀ hst₀),
    hbound.partials, hbound.once, ?_, ?_⟩
  · intro m hm
    rw [hbound.same_id, hbound.same_nonce]
    obtain ⟨hsupplied, hsigs⟩ := hbound.supplied m hm
    exact ⟨hsupplied, hsigs, (config.retainOwned_spec m.peer m.sigs).2,
      fun nonce hnonce => nonceReport_accepted (hbound.nonce m hm) hnonce⟩
  · intro wrong _ misbehaving hright hhonest
    refine hbound.wrong_le (hlocal st₀ hst₀) wrong misbehaving hright fun m hm hpeer => ?_
    rw [hbound.same_id, hbound.same_nonce] at hhonest
    obtain ⟨hsupplied, hsigs⟩ := hbound.supplied m hm
    exact hhonest m.peer m.response m.sigs hpeer (Answered.event_mem hsupplied) hsigs
      (hbound.nonce m hm)

namespace Sample

def ownShare : CollectWorld Bool Unit :=
  ⟨[.new 1 [] () false [] none [⟨1, true⟩] 2 {11, 12}], ∅⟩

/-- A list that repeats an index is longer than what peer 11 owns. -/
def repeating : GetPartialSignaturesResponse Bool :=
  ⟨[(1, [⟨2, true⟩, ⟨2, false⟩])], ∅⟩

def single : GetPartialSignaturesResponse Bool := ⟨[(1, [⟨3, true⟩])], ∅⟩

def answered : CollectWorld Bool Unit :=
  ⟨[.new 1 [] () false [] none [⟨1, true⟩, ⟨3, true⟩] 2 ∅], ∅⟩

end Sample

theorem partials_ownerBound_answered : ∃ st ∈ Sample.answered.pending,
    st.partials.length = 2 ∧ (st.partials.map Eval.index).Nodup := by
  have hlocal : ∀ st ∈ Sample.ownShare.pending, Prepared Sample.threeShares st := by
    intro st hst
    obtain rfl := List.mem_singleton.mp hst
    exact ⟨by decide, by decide, by decide⟩
  have hrun : Run (CollectStep Sample.allRight Sample.threeShares) Sample.ownShare
      [.response 11 Sample.repeating, .response 12 Sample.single] Sample.answered :=
    .snoc (.single (.response false)) (.response false)
  obtain ⟨-, -, -, -, hnodup, -⟩ := partials_ownerBound Sample.allRight Sample.threeShares hlocal
    hrun _ List.mem_cons_self
  exact ⟨_, List.mem_cons_self, rfl, hnodup⟩

end HashiBridge.Mpc
