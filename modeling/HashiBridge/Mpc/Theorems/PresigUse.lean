import HashiBridge.Mpc.Lemmas.Signing

/-!
# A presignature is used once

Over every interleaving of calls and refills, a slot's presignature is handed to the generation of
partial signatures at most once, and it is the one that the global index names.
-/

namespace HashiBridge.Mpc

open Lib HashiBridge.Core

section Accounts

variable {S G : Type} {first base dropped : Nat} {installed : List (List (PresigTuple S G))}
  {batches : List (PresigBatch S G)} {out : List (Taken S G)} {oracle : SigningOracle S G}
  {retained : List (RetainedBatch S G)} {tr : List (Label S G)} {w : World S G} {t : Taken S G}
  {m m' : SigningManager S G} {partials : LocalPartials S G} {input : SignInput S}

/-- The batch number and the position a presignature was taken from. -/
def Taken.slot (t : Taken S G) : Nat × Nat := (t.batchIndex, t.position)

/-- The presignature of the input's global index: the element at that index less the total size of
the batches before its own. -/
def Taken.IsElement (first base : Nat) (installed : List (List (PresigTuple S G)))
    (t : Taken S G) : Prop :=
  ∃ k ps, t.batchIndex = first + k ∧ installed[k]? = some ps ∧
    ps[t.position]? = some t.presig ∧
    t.input.globalPresigIndex = base + offset (sizeAt installed) k + t.position

structure Balanced (first base : Nat) (installed : List (List (PresigTuple S G))) (dropped : Nat)
    (batches : List (PresigBatch S G)) (out : List (Taken S G)) : Prop where
  covers : Covers first base installed dropped batches
  element : ∀ t ∈ out, t.IsElement first base installed
  emptied : ∀ t ∈ out, ∀ b ∈ batches, b.batchIndex = t.batchIndex →
    b.pool[t.position]? = some none
  slots_nodup : (out.map Taken.slot).Nodup

namespace Balanced

variable (h : Balanced first base installed dropped batches out)

include h

theorem perm {out' : List (Taken S G)}
    (hperm : out.Perm out') : Balanced first base installed dropped batches out' where
  covers := h.covers
  element t ht := h.element t (hperm.mem_iff.mpr ht)
  emptied t ht := h.emptied t (hperm.mem_iff.mpr ht)
  slots_nodup := (hperm.map Taken.slot).nodup_iff.mp h.slots_nodup

theorem prune :
    ∃ dropped', Balanced first base installed dropped' (SigningManager.prune batches) out := by
  obtain ⟨dropped', hcovers⟩ := h.covers.prune
  refine ⟨dropped', hcovers, h.element, fun t ht b hb => ?_, h.slots_nodup⟩
  exact h.emptied t ht b ((prune_suffix batches).subset hb)

/-- Nothing was taken from a batch installed only now. -/
theorem append {latest : PresigBatch S G}
    (hlatest : batches.getLast? = some latest) (ps : List (PresigTuple S G)) (digest : Bytes) :
    Balanced first base (installed ++ [ps]) dropped
      (batches ++ [⟨ps.map some, latest.endIndex, latest.batchIndex + 1, digest⟩]) out where
  covers := h.covers.append hlatest ps digest
  element t ht := by
    obtain ⟨k, old, hbatch, hold, hpresig, hindex⟩ := h.element t ht
    have hk : k < installed.length := (List.getElem?_eq_some_iff.mp hold).1
    refine ⟨k, old, hbatch, ?_, hpresig, ?_⟩
    · rw [List.getElem?_append_left hk, hold]
    · rw [offset_append installed ps hk.le, hindex]
  emptied t ht b hb heq := by
    obtain hb | hb := List.mem_append.mp hb
    · exact h.emptied t ht b hb heq
    · obtain ⟨k, old, hbatch, hold, -⟩ := h.element t ht
      have hk : k < installed.length := (List.getElem?_eq_some_iff.mp hold).1
      have hnew : (batches ++ [b])[batches.length]? = some b := by simp
      obtain rfl := List.mem_singleton.mp hb
      obtain ⟨_, -, hrest⟩ := (h.covers.append hlatest ps digest).batch hnew
      have hnumber := hrest.batchIndex_eq
      have hlength := h.covers.length_eq
      omega
  slots_nodup := h.slots_nodup

theorem take {j : Nat} {b : PresigBatch S G} (hb : batches[j]? = some b)
    (hcontains : b.contains t.input.globalPresigIndex) (hbatch : t.batchIndex = b.batchIndex)
    (hposition : t.position = t.input.globalPresigIndex - b.startIndex)
    (hslot : b.pool[t.position]? = some (some t.presig)) :
    Balanced first base installed dropped (batches.set j (b.emptied t.position)) (t :: out) where
  covers := h.covers.set hb
  element t' ht' := by
    obtain rfl | ht' := List.mem_cons.mp ht'
    · obtain ⟨ps, hps, hrest⟩ := h.covers.batch hb
      refine ⟨dropped + j, ps, hbatch.trans hrest.batchIndex_eq, hps, hrest.slot_eq hslot, ?_⟩
      have hstart := hrest.startIndex_eq
      rw [PresigBatch.contains_iff] at hcontains
      omega
    · exact h.element t' ht'
  emptied t' ht' b' hb' heq := by
    have hj : j < batches.length := (List.getElem?_eq_some_iff.mp hb).1
    have hlt : t.position < b.pool.length := (List.getElem?_eq_some_iff.mp hslot).1
    obtain rfl | ht' := List.mem_cons.mp ht'
    · -- the only batch of that number is the one just emptied
      have hset : b.emptied t'.position ∈ batches.set j (b.emptied t'.position) :=
        List.mem_set hj _
      rw [(h.covers.set hb).eq_of_batchIndex hb' hset (heq.trans hbatch)]
      simp [PresigBatch.emptied, hlt]
    · obtain hb' | rfl := List.mem_or_eq_of_mem_set hb'
      · exact h.emptied t' ht' b' hb' heq
      · have hempty := h.emptied t' ht' b (List.mem_of_getElem? hb) heq
        simp only [PresigBatch.emptied, List.getElem?_set]
        split_ifs
        · rfl
        · exact hempty
  slots_nodup := by
    rw [List.map_cons, List.nodup_cons]
    refine ⟨fun hmem => ?_, h.slots_nodup⟩
    obtain ⟨t', ht', hsame⟩ := List.mem_map.mp hmem
    obtain ⟨hnumber, hpos⟩ := Prod.ext_iff.mp hsame
    have hempty := h.emptied t' ht' b (List.mem_of_getElem? hb) (hbatch.symm.trans hnumber.symm)
    have hpos' : t'.position = t.position := hpos
    rw [hpos', hslot] at hempty
    cases hempty

end Balanced

/-! ## The account of a run -/

/-- How a manager comes into being, and the batches it holds then. -/
inductive Built : SigningManager S G → List (RetainedBatch S G) → Prop
  | new {epoch refillDivisor presignatures dealerSetDigest batchIndex batchStartIndex refill} :
      Built (.new epoch refillDivisor presignatures dealerSetDigest batchIndex batchStartIndex refill)
        [⟨presignatures, batchIndex, batchStartIndex, dealerSetDigest⟩]
  | recovered {epoch refillDivisor retained numConsumed pending refill m}
      (h : SigningManager.newRecovered epoch refillDivisor retained numConsumed pending refill =
        .ok m) : Built m retained

/-- Batches numbered from `first` on, laid end to end from index `base` on. -/
def Consecutive (first base : Nat) (retained : List (RetainedBatch S G)) : Prop :=
  ∀ k r, retained[k]? = some r → r.batchIndex = first + k ∧
    r.startIndex = base + offset (sizeAt (retained.map RetainedBatch.presignatures)) k

/-- Every installed batch was there from the start, or was given under its number. -/
def Supplied (retained : List (RetainedBatch S G)) (first : Nat) (tr : List (Label S G))
    (installed : List (List (PresigTuple S G))) : Prop :=
  ∀ k ps, installed[k]? = some ps → (∃ r, retained[k]? = some r ∧ r.presignatures = ps) ∨
    ∃ digest, Label.setNextBatch (first + k) ps digest ∈ tr

def Taken.presigDelta (oracle : SigningOracle S G) (t : Taken S G) : S :=
  oracle.presigDelta t.randomness t.input.globalPresigIndex t.presig.2 t.dealerSetDigest

def Taken.output (oracle : SigningOracle S G) (t : Taken S G) (partials : LocalPartials S G) :
    PartialSigningOutput S G :=
  .new oracle partials.publicNonce t.input.messageDelta (t.presigDelta oracle) t.input.message
    t.input.derivationAddress partials.partialSigs

/-- Where the batches and the cached outputs of a manager come from. -/
structure Recorded (oracle : SigningOracle S G) (retained : List (RetainedBatch S G)) (first : Nat)
    (tr : List (Label S G)) (m : SigningManager S G) (installed : List (List (PresigTuple S G))) :
    Prop where
  supplied : Supplied retained first tr installed
  staged : ∀ next, m.nextBatch = some next → ∃ ps,
    Label.setNextBatch next.batchIndex ps next.dealerSetDigest ∈ tr ∧ next.pool = ps.map some
  cached : ∀ id existing, m.partialSigningOutputs.lookup id = some existing →
    ∃ t partials, Label.generate t (.ok partials) ∈ tr ∧ t.input.signingId = id ∧
      existing = t.output oracle partials

theorem Recorded.extend (h : Recorded oracle retained first tr m installed)
    (hsame : SigningManager.SameBut m m') (label : Label S G) :
    Recorded oracle retained first (tr ++ [label]) m' installed where
  supplied k ps hps := by
    obtain hr | ⟨digest, hmem⟩ := h.supplied k ps hps
    · exact .inl hr
    · exact .inr ⟨digest, List.mem_append_left _ hmem⟩
  staged next hnext := by
    obtain ⟨ps, hmem, hpool⟩ := h.staged next (hsame.nextBatch_eq ▸ hnext)
    exact ⟨ps, List.mem_append_left _ hmem, hpool⟩
  cached id existing hexisting := by
    obtain ⟨t, partials, hmem, hid⟩ := h.cached id existing (hsame.outputs_eq ▸ hexisting)
    exact ⟨t, partials, List.mem_append_left _ hmem, hid⟩

structure Account (oracle : SigningOracle S G) (retained : List (RetainedBatch S G))
    (first base : Nat) (tr : List (Label S G)) (w : World S G)
    (installed : List (List (PresigTuple S G))) (dropped : Nat) : Prop
    extends Recorded oracle retained first tr w.manager installed where
  balanced : Balanced first base installed dropped w.manager.batches
    (w.inFlight ++ handedOver tr)

namespace Account

variable {inFlight : List (Taken S G)}

/-- A longer trace that hands nothing over, on the same manager up to a refill request. -/
theorem extend {label : Label S G} (h : Account oracle retained first base tr w installed dropped)
    (hlabel : handedOver [label] = []) (hsame : SigningManager.SameBut w.manager m) :
    Account oracle retained first base (tr ++ [label]) ⟨m, w.inFlight⟩ installed dropped where
  toRecorded := h.toRecorded.extend hsame label
  balanced := by
    rw [handedOver, List.filterMap_append, ← handedOver, ← handedOver, hlabel, List.append_nil,
      hsame.batches_eq]
    exact h.balanced

theorem advance (h : Account oracle retained first base tr ⟨m, inFlight⟩ installed dropped) :
    ∃ installed', Account oracle retained first base tr ⟨m.advance, inFlight⟩ installed'
      dropped := by
  obtain ⟨houtputs, ⟨hbatches, hnext⟩ | ⟨latest, next, hlatest, hnext, hnumber, hnone, hbatches⟩⟩ :=
    m.advance_cases
  · refine ⟨installed, ⟨h.supplied, fun next hstaged => ?_, ?_⟩, ?_⟩
    · obtain hkept | hnone := hnext
      · exact h.staged next (hkept ▸ hstaged)
      · exact absurd (hnone ▸ hstaged) nofun
    · simpa only [houtputs] using h.cached
    · simpa only [hbatches] using h.balanced
  · obtain ⟨ps, hmem, hpool⟩ := h.staged next hnext
    refine ⟨installed ++ [ps], ⟨?_, fun next' hstaged => ?_, ?_⟩, ?_⟩
    · intro k ps' hps'
      rcases Nat.lt_trichotomy k installed.length with hk | rfl | hk
      · rw [List.getElem?_append_left hk] at hps'
        exact h.supplied k ps' hps'
      · -- the number of the new batch follows that of the latest one
        have hlast := hlatest
        rw [List.getLast?_eq_getElem?] at hlast
        obtain ⟨_, -, hrest⟩ := h.balanced.covers.batch hlast
        have hlength := h.balanced.covers.length_eq
        have hpos : m.batches.length ≠ 0 := by
          intro hzero
          rw [List.length_eq_zero_iff.mp hzero] at hlatest
          cases hlatest
        have hfirst : first + installed.length = next.batchIndex := by
          have := hrest.batchIndex_eq
          simp only at hlength
          omega
        obtain rfl : ps = ps' := by simpa using hps'
        exact .inr ⟨next.dealerSetDigest, hfirst ▸ hmem⟩
      · rw [List.getElem?_eq_none (by simpa using hk)] at hps'
        cases hps'
    · exact absurd (hnone ▸ hstaged) nofun
    · simpa only [houtputs] using h.cached
    · simp only [hbatches, hpool]
      exact h.balanced.append hlatest ps _

theorem take {seals : Bag Nat PresigSealV1}
    (h : Account oracle retained first base tr ⟨m, inFlight⟩ installed dropped)
    (htakes : SigningManager.TakesFrom m t m') :
    ∃ dropped', Account oracle retained first base (tr ++ [.take t seals]) ⟨m', t :: inFlight⟩
      installed dropped' := by
  obtain ⟨j, b, hb, hcontains, hbatch, hposition, hslot, hbatches⟩ := htakes.exists_slot
  obtain ⟨dropped', hbalanced⟩ := (h.balanced.take hb hcontains hbatch hposition hslot).prune
  have hrest := h.toRecorded.extend (.refl m) (.take t seals)
  refine ⟨dropped', ⟨hrest.supplied, ?_, ?_⟩, ?_⟩
  · simpa only [htakes.nextBatch_eq] using hrest.staged
  · simpa only [htakes.outputs_eq] using hrest.cached
  · simpa only [hbatches, handedOver, List.filterMap_append, List.filterMap_cons,
      List.filterMap_nil, List.append_nil, List.cons_append] using hbalanced

theorem generate {before after : List (Taken S G)} {result : Except SigningError (LocalPartials S G)}
    (h : Account oracle retained first base tr ⟨m, before ++ t :: after⟩ installed dropped)
    (hgenerate : m.generate oracle t = (result, m')) :
    Account oracle retained first base (tr ++ [.generate t result]) ⟨m', before ++ after⟩ installed
      dropped := by
  have hmoved : (before ++ t :: after ++ handedOver tr).Perm
      (before ++ after ++ handedOver (tr ++ [.generate t result])) := by
    simp only [handedOver, List.filterMap_append, List.filterMap_cons, List.filterMap_nil,
      List.append_assoc, List.cons_append]
    refine List.Perm.append_left before ?_
    rw [← List.append_assoc after]
    exact (List.perm_append_singleton t _).symm
  have hrest := h.toRecorded.extend (.refl m) (.generate t result)
  simp only [SigningManager.generate] at hgenerate
  split at hgenerate
  · cases hgenerate
    exact ⟨hrest, h.balanced.perm hmoved⟩
  next publicNonce partialSigs _ =>
    cases hgenerate
    refine ⟨⟨hrest.supplied, hrest.staged, fun id existing hexisting => ?_⟩, h.balanced.perm hmoved⟩
    simp only [Bag.lookup_insert_ite] at hexisting
    split_ifs at hexisting with hid
    · cases hexisting
      exact ⟨t, _, List.mem_append_right _ (List.mem_singleton_self _), hid.symm, rfl⟩
    · exact hrest.cached id existing hexisting

theorem setNextBatch {batchIndex : Nat} {presignatures : List (PresigTuple S G)} {digest : Bytes}
    (h : Account oracle retained first base tr ⟨m, inFlight⟩ installed dropped) :
    Account oracle retained first base
      (tr ++ [.setNextBatch batchIndex presignatures digest])
      ⟨m.setNextBatch batchIndex presignatures digest, inFlight⟩ installed dropped := by
  have hrest := h.extend
    (show handedOver [Label.setNextBatch batchIndex presignatures digest] = [] from rfl) (.refl m)
  unfold SigningManager.setNextBatch
  split_ifs
  · exact hrest
  · refine ⟨⟨hrest.supplied, fun next hnext => ?_, hrest.cached⟩, hrest.balanced⟩
    cases hnext
    exact ⟨presignatures, List.mem_append_right _ (List.mem_singleton_self _), rfl⟩

theorem step {label : Label S G} {w' : World S G}
    (h : Account oracle retained first base tr w installed dropped)
    (hstep : Step oracle w label w') :
    ∃ installed' dropped', Account oracle retained first base (tr ++ [label]) w' installed'
      dropped' := by
  obtain ⟨m, inFlight⟩ := w
  cases hstep with
  | refused htake =>
      obtain ⟨_, -, hr, -⟩ | ⟨-, m₁, hm₁, ⟨e, -, hsame⟩ | ⟨t, hr, -⟩⟩ :=
        SigningManager.takePresig_cases htake
      · cases hr
      · obtain rfl | rfl := hm₁
        · exact ⟨_, _, h.extend rfl hsame⟩
        · obtain ⟨installed', h'⟩ := h.advance
          exact ⟨_, _, h'.extend rfl hsame⟩
      · cases hr
  | cached htake =>
      obtain ⟨_, -, -, rfl⟩ | ⟨-, m₁, -, ⟨e, hr, -⟩ | ⟨t, hr, -⟩⟩ :=
        SigningManager.takePresig_cases htake
      · exact ⟨_, _, h.extend rfl (.refl _)⟩
      · cases hr
      · cases hr
  | take htake =>
      obtain ⟨_, -, hr, -⟩ | ⟨-, m₁, hm₁, ⟨e, hr, -⟩ | ⟨t, hr, -, htakes⟩⟩ :=
        SigningManager.takePresig_cases htake
      · cases hr
      · cases hr
      · cases hr
        obtain rfl | rfl := hm₁
        · exact ⟨_, h.take htakes⟩
        · obtain ⟨installed', h'⟩ := h.advance
          exact ⟨_, h'.take htakes⟩
  | generate hin hgenerate =>
      obtain rfl : inFlight = _ := hin
      exact ⟨_, _, h.generate hgenerate⟩
  | setNextBatch => exact ⟨_, _, h.setNextBatch⟩

end Account

theorem recoverBatch_isRestOf
    (hcons : Consecutive first base retained) {numConsumed : Nat} {pending : Finset Nat} {k : Nat}
    {r : RetainedBatch S G} (hr : retained[k]? = some r) :
    IsRestOf first base (retained.map RetainedBatch.presignatures) k r.presignatures
      (SigningManager.recoverBatch numConsumed pending r) where
  batchIndex_eq := (hcons k r hr).1
  startIndex_eq := (hcons k r hr).2
  length_eq := by simp [SigningManager.recoverBatch]
  slot_eq {i p} hslot := by
    simp only [SigningManager.recoverBatch, List.getElem?_map, List.getElem?_zipIdx,
      Option.map_eq_some_iff] at hslot
    obtain ⟨-, ⟨a, ha, rfl⟩, hp⟩ := hslot
    split_ifs at hp
    cases hp
    exact ha

theorem Built.covers (hbuilt : Built m retained) (hcons : Consecutive first base retained) :
    Covers first base (retained.map RetainedBatch.presignatures) 0 m.batches ∧
      m.nextBatch = none ∧ m.partialSigningOutputs = ∅ := by
  cases hbuilt with
  | new =>
      refine ⟨⟨rfl, fun {j b} hb => ?_⟩, rfl, rfl⟩
      simp only [SigningManager.new, List.getElem?_singleton] at hb
      split_ifs at hb with hj
      cases hb
      subst hj
      obtain ⟨hnumber, hstart⟩ := hcons 0 _ rfl
      refine ⟨_, rfl, hnumber, hstart, by simp, fun {i p} hslot => ?_⟩
      simpa using hslot
  | recovered h =>
      simp only [SigningManager.newRecovered, bind_eq_ok, require_eq_ok, pure_eq_ok] at h
      obtain ⟨-, -, rfl⟩ := h
      refine ⟨⟨by simp, fun {j b} hb => ?_⟩, rfl, rfl⟩
      simp only [List.getElem?_map, Option.map_eq_some_iff] at hb
      obtain ⟨r, hr, rfl⟩ := hb
      rw [Nat.zero_add]
      exact ⟨r.presignatures, by simp [hr], recoverBatch_isRestOf hcons hr⟩

theorem Account.start (hbuilt : Built m retained) (hcons : Consecutive first base retained) :
    Account oracle retained first base [] ⟨m, []⟩ (retained.map RetainedBatch.presignatures) 0 := by
  obtain ⟨hcovers, hnext, houtputs⟩ := hbuilt.covers hcons
  refine ⟨⟨fun k ps hps => .inl ?_, ?_, ?_⟩, ⟨hcovers, nofun, nofun, List.nodup_nil⟩⟩
  · simp only [List.getElem?_map, Option.map_eq_some_iff] at hps
    exact hps
  · intro next hstaged
    rw [hnext] at hstaged
    cases hstaged
  · intro id existing hexisting
    rw [houtputs] at hexisting
    cases hexisting

theorem account_of_run (hbuilt : Built m retained) (hcons : Consecutive first base retained)
    (hrun : Run (Step oracle) ⟨m, []⟩ tr w) :
    ∃ installed dropped, Account oracle retained first base tr w installed dropped := by
  refine Run.history (P := fun tr w => ∃ installed dropped,
    Account oracle retained first base tr w installed dropped) ⟨_, _, .start hbuilt hcons⟩ ?_ hrun
  rintro tr w label w' ⟨installed, dropped, h⟩ hstep
  exact h.step hstep

/-! ## Cached requests -/

/-- A request with the message, the derivation address and the signing nonce of an earlier one. -/
structure Taken.Unchanged (oracle : SigningOracle S G) (t : Taken S G)
    (partials : LocalPartials S G) (input : SignInput S) : Prop where
  message_eq : input.message = t.input.message
  derivationAddress_eq : input.derivationAddress = t.input.derivationAddress
  nonce_eq : oracle.signingNonceBytes partials.publicNonce
      (oracle.signingDelta input.messageDelta (t.presigDelta oracle)) =
    (t.output oracle partials).signingNonceBytes

def Taken.cachedReply (oracle : SigningOracle S G) (t : Taken S G) (partials : LocalPartials S G)
    (input : SignInput S) : LocalPartials S G where
  publicNonce := partials.publicNonce
  partialSigs := partials.partialSigs
  beacon := oracle.signingDelta input.messageDelta (t.presigDelta oracle)
  nonce := (t.output oracle partials).signingNonceBytes

theorem replyCached_of_unchanged (h : t.Unchanged oracle partials input) :
    SigningManager.replyCached oracle input (t.output oracle partials) =
      .ok (t.cachedReply oracle partials input) := by
  have hdigest : (t.output oracle partials).requestDigest =
      signingRequestDigest oracle input.message input.derivationAddress := by
    rw [h.message_eq, h.derivationAddress_eq]
    rfl
  have hnonce := h.nonce_eq
  simp only [SigningManager.replyCached, bind_eq_ok, require_eq_ok, pure_eq_ok]
  exact ⟨(), ⟨hdigest, hnonce.symm⟩, by rw [Taken.cachedReply, ← hnonce]; rfl⟩

/-- The bytes of another message or address hash to the digest of the earlier request, and the signing
nonce is the same. -/
structure Taken.Collides (oracle : SigningOracle S G) (t : Taken S G)
    (partials : LocalPartials S G) (input : SignInput S) : Prop where
  bytes_ne : signingRequestBytes t.input.message t.input.derivationAddress ≠
    signingRequestBytes input.message input.derivationAddress
  hash_eq : oracle.blake2b256 (signingRequestBytes t.input.message t.input.derivationAddress) =
    oracle.blake2b256 (signingRequestBytes input.message input.derivationAddress)
  nonce_eq : oracle.signingNonceBytes partials.publicNonce
      (oracle.signingDelta input.messageDelta (t.presigDelta oracle)) =
    (t.output oracle partials).signingNonceBytes

theorem replyCached_of_changed (h : ¬ t.Unchanged oracle partials input)
    (hcollides : ¬ t.Collides oracle partials input) :
    SigningManager.replyCached oracle input (t.output oracle partials) =
      .error (.requestChanged input.signingId) := by
  simp only [SigningManager.replyCached]
  rw [require, if_neg]
  · rfl
  · rintro ⟨hdigest, hnonce⟩
    have hbytes : signingRequestBytes t.input.message t.input.derivationAddress =
        signingRequestBytes input.message input.derivationAddress :=
      by_contra fun hne => hcollides ⟨hne, hdigest, hnonce.symm⟩
    obtain ⟨hmessage, haddress⟩ :=
      signingRequestBytes_inj t.input.length_lt input.length_lt hbytes
    exact h ⟨hmessage.symm, haddress.symm, hnonce.symm⟩

/-! ## The theorem -/

theorem Balanced.presigs_nodup (h : Balanced first base installed dropped batches out)
    (hdistinct : installed.flatten.Nodup) : (out.map Taken.presig).Nodup := by
  refine (List.Nodup.of_map _ h.slots_nodup).map_on fun t ht t' ht' heq => ?_
  refine List.inj_on_of_nodup_map h.slots_nodup ht ht' ?_
  obtain ⟨k, ps, hbatch, hps, hpresig, -⟩ := h.element t ht
  obtain ⟨k', ps', hbatch', hps', hpresig', -⟩ := h.element t' ht'
  rw [← heq] at hpresig'
  obtain ⟨rfl, hposition⟩ := place_unique hdistinct hps hpresig hps' hpresig'
  rw [Taken.slot, Taken.slot, hbatch, hbatch', hposition]

/-- Over every run: no slot is handed over twice, nor any tuple where the batches hold none twice;
what is handed over for a global index is the element at that index less the total size of all
lower-numbered batches; the batches held have consecutive numbers and adjacent, disjoint ranges;
and a cached signing id returns the partials cached for it to an unchanged request and fails
otherwise, but for a collision of the hash. -/
theorem node_presigs_used_once (hbuilt : Built m retained) (hcons : Consecutive first base retained)
    (hrun : Run (Step oracle) ⟨m, []⟩ tr w) :
    ((handedOver tr).map Taken.slot).Nodup ∧
    (∃ installed dropped, Supplied retained first tr installed ∧
      Covers first base installed dropped w.manager.batches ∧
      (∀ t ∈ handedOver tr, t.IsElement first base installed) ∧
      (installed.flatten.Nodup → ((handedOver tr).map Taken.presig).Nodup)) ∧
    (w.manager.batches.IsChain PresigBatch.Precedes ∧
      w.manager.batches.Pairwise fun b b' => b.endIndex ≤ b'.startIndex) ∧
    (∀ input seals existing,
      w.manager.partialSigningOutputs.lookup input.signingId = some existing →
      w.manager.takePresig input seals = (.ok (.cached existing), w.manager) ∧
      ∃ t partials, Label.generate t (.ok partials) ∈ tr ∧
        t.input.signingId = input.signingId ∧
        (t.Unchanged oracle partials input →
          SigningManager.replyCached oracle input existing =
            .ok (t.cachedReply oracle partials input)) ∧
        (¬ t.Unchanged oracle partials input → ¬ t.Collides oracle partials input →
          SigningManager.replyCached oracle input existing =
            .error (.requestChanged input.signingId))) := by
  obtain ⟨installed, dropped, haccount⟩ := account_of_run hbuilt hcons hrun
  have hbalanced := haccount.balanced
  have hsub : handedOver tr ⊆ w.inFlight ++ handedOver tr := List.subset_append_right _ _
  have hhanded : ∀ {β : Type} {f : Taken S G → β}, ((w.inFlight ++ handedOver tr).map f).Nodup →
      ((handedOver tr).map f).Nodup := fun {β f} hnodup => by
    rw [List.map_append] at hnodup
    exact hnodup.of_append_right
  refine ⟨hhanded hbalanced.slots_nodup, ⟨installed, dropped, haccount.supplied, hbalanced.covers,
    fun t ht => hbalanced.element t (hsub ht), fun hdistinct =>
      hhanded (hbalanced.presigs_nodup hdistinct)⟩,
    ⟨hbalanced.covers.isChain, hbalanced.covers.disjoint⟩, ?_⟩
  intro input seals existing hexisting
  obtain ⟨t, partials, hmem, hid, rfl⟩ := haccount.cached input.signingId existing hexisting
  refine ⟨?_, t, partials, hmem, hid, replyCached_of_unchanged, replyCached_of_changed⟩
  rw [SigningManager.takePresig, hexisting]

end Accounts

/-! ## A sample run -/

namespace Sample

/-- Scalars and points are numbers, and the hash repeats the sum of the bytes. -/
def oracle : SigningOracle Nat Nat where
  blake2b256 bytes := List.replicate 32 bytes.sum
  presigDelta _ g nonce _ := g + nonce
  signingDelta a b := a + b
  signingNonceBytes nonce beacon := [UInt8.ofNat (nonce + beacon)]
  generatePartialSignatures _ presig beacon _ := .ok (presig.2, [(1, beacon)])

def manager : SigningManager Nat Nat := .new 5 2 [([1], 10), ([2], 20)] [7] 0 0 ⟨0, 0⟩

def input (signingId globalPresigIndex : Nat) : SignInput Nat :=
  ⟨signingId, [1, 2, 3], globalPresigIndex, none, 100, by decide⟩

def changed : SignInput Nat := { input 40 1 with message := [1, 2, 4], length_lt := by decide }

def seals : Bag Nat PresigSealV1 :=
  Finmap.insert 1 ⟨List.replicate 32 2, [8]⟩ (Finmap.singleton 0 ⟨List.replicate 32 1, [7]⟩)

/-- The next batch is prefetched while a call is in flight; a second call for the same index fails,
and one for the next batch installs it. -/
theorem exists_run : ∃ tr w, Run (Step oracle) ⟨manager, []⟩ tr w ∧ (handedOver tr).length = 2 ∧
    (∃ existing, w.manager.partialSigningOutputs.lookup 40 = some existing) ∧
    (handedOver tr).map (fun t => (t.input.message, t.input.derivationAddress, t.input.messageDelta)) =
      [([1, 2, 3], none, 100), ([1, 2, 3], none, 100)] := by
  have h₁ : Run (Step oracle) ⟨manager, []⟩ _ _ :=
    .single (.take (show manager.takePresig (input 40 1) seals = _ from rfl))
  have h₂ := h₁.snoc (show Step oracle _ (.setNextBatch 1 [([3], 30)] [8]) _ from .setNextBatch)
  have h₃ := h₂.snoc (.refused (show SigningManager.takePresig _ (input 41 1) seals = _ from rfl))
  have h₄ := h₃.snoc (.generate (show [_] = [] ++ _ :: [] from rfl) rfl)
  have h₅ := h₄.snoc (.take (show SigningManager.takePresig _ (input 42 2) seals = _ from rfl))
  have h₆ := h₅.snoc (.generate (show [_] = [] ++ _ :: [] from rfl) rfl)
  exact ⟨_, _, h₆, rfl, ⟨_, rfl⟩, rfl⟩

end Sample

open Sample in
theorem node_presigs_used_once_of_two : ∃ tr w existing,
    Run (Step oracle) ⟨manager, []⟩ tr w ∧ (handedOver tr).length = 2 ∧
      ((handedOver tr).map Taken.slot).Nodup ∧ w.manager.batches.IsChain PresigBatch.Precedes ∧
      w.manager.takePresig changed seals = (.ok (.cached existing), w.manager) ∧
      (∃ reply, SigningManager.replyCached oracle (input 40 7) existing = .ok reply) ∧
      SigningManager.replyCached oracle changed existing = .error (.requestChanged 40) := by
  obtain ⟨tr, w, hrun, hlength, ⟨existing, hexisting⟩, hsame⟩ := exists_run
  have hcons : Consecutive 0 0 [(⟨[([1], 10), ([2], 20)], 0, 0, [7]⟩ : RetainedBatch Nat Nat)] := by
    intro k r hr
    simp only [List.getElem?_singleton] at hr
    split_ifs at hr with hk
    cases hr
    subst hk
    exact ⟨rfl, rfl⟩
  have hrequest : ∀ t partials, Label.generate t (.ok partials) ∈ tr →
      t.input.message = [1, 2, 3] ∧ t.input.derivationAddress = none ∧ t.input.messageDelta = 100 := by
    intro t partials hmem
    have hhanded : t ∈ handedOver tr := List.mem_filterMap.mpr ⟨_, hmem, rfl⟩
    simpa [hsame] using List.mem_map_of_mem (f := fun t : Taken Nat Nat =>
      (t.input.message, t.input.derivationAddress, t.input.messageDelta)) hhanded
  obtain ⟨hnodup, -, ⟨hchain, -⟩, hcached⟩ := node_presigs_used_once .new hcons hrun
  obtain ⟨-, t, partials, hmem, -, hunchanged, -⟩ := hcached (input 40 7) seals existing hexisting
  obtain ⟨hcache, t', partials', hmem', -, -, hchanged⟩ := hcached changed seals existing hexisting
  obtain ⟨hmessage, haddress, hdelta⟩ := hrequest t partials hmem
  obtain ⟨hmessage', haddress', -⟩ := hrequest t' partials' hmem'
  refine ⟨tr, w, existing, hrun, hlength, hnodup, hchain, hcache, ⟨_, hunchanged ⟨?_, ?_, ?_⟩⟩,
    hchanged (fun h => ?_) fun h => ?_⟩
  · exact hmessage.symm
  · exact haddress.symm
  · rw [show (input 40 7).messageDelta = t.input.messageDelta from hdelta.symm]
    rfl
  · exact absurd (h.message_eq.trans hmessage') (by decide)
  · have hhash := h.hash_eq
    rw [hmessage', haddress'] at hhash
    exact absurd hhash (by decide)

end HashiBridge.Mpc
