import HashiBridge.Node.Database

/-!
# What pruning keeps

Pruning keeps the keys and messages that the target committee, the committees before it and the
pending registrations refer to, and everything recent.
-/

namespace HashiBridge.Node

open Lib HashiBridge.Core Guardian

/-! ## Epochs in keys -/

theorem littleEndian_fromLeBytes (bytes : Bytes) :
    littleEndian bytes.length (fromLeBytes bytes) = bytes := by
  induction bytes with
  | nil => rfl
  | cons byte bytes ih =>
      have hbyte : UInt8.ofNat (byte.toNat + 256 * fromLeBytes bytes) = byte := by
        apply UInt8.toNat_inj.mp
        rw [UInt8.toNat_ofNat']
        have hlt := byte.toNat_lt
        omega
      have hrest : (byte.toNat + 256 * fromLeBytes bytes) / 256 = fromLeBytes bytes := by
        have hlt := byte.toNat_lt
        omega
      rw [List.length_cons, fromLeBytes, littleEndian, hbyte, hrest, ih]

theorem toBeBytes_of_indexEpoch {key : Bytes} {epoch : Nat} (h : indexEpoch key = some epoch) :
    toBeBytes epoch = key := by
  unfold indexEpoch at h
  split_ifs at h with hlength
  cases h
  have hround := littleEndian_fromLeBytes key.reverse
  rw [List.length_reverse, hlength] at hround
  rw [toBeBytes, fromBeBytes, hround, List.reverse_reverse]

/-! ## Keyspaces -/

namespace Keyspace

variable {keyspace : Keyspace} {keys : List Bytes} {key value value' : Bytes}

theorem mem_removeAll :
    (key, value) ∈ (keyspace.removeAll keys).contents ↔
      (key, value) ∈ keyspace.contents ∧ key ∉ keys := by
  induction keys generalizing keyspace with
  | nil => simp [removeAll]
  | cons k keys ih =>
      change (key, value) ∈ (removeAll (keyspace.erase k) keys).contents ↔ _
      rw [ih, VecMap.erase, List.mem_filter]
      simp only [List.mem_cons, not_or, decide_eq_true_eq, ne_eq]
      tauto

theorem value_eq (h : (key, value) ∈ keyspace.contents) (h' : (key, value') ∈ keyspace.contents) :
    value = value' :=
  congrArg Prod.snd (List.inj_on_of_nodup_map keyspace.nodup h h' rfl)

end Keyspace

/-! ## Messages -/

/-- The row is of an epoch below the cutoff that is not referenced. -/
def Stale (cutoff : Nat) (isReferenced : Nat → Bytes → Bool) (key value : Bytes) : Prop :=
  ∃ epoch, leadingEpoch key = some epoch ∧ epoch < cutoff ∧ isReferenced epoch value = false

section Messages

variable {rows : Keyspace} {cutoff : Nat} {isReferenced : Nat → Bytes → Bool} {key value : Bytes}

theorem mem_keysToDelete {k : Bytes} :
    k ∈ rows.contents.filterMap (fun (key, value) =>
      (leadingEpoch key).bind fun epoch =>
        if cutoff ≤ epoch then none else if isReferenced epoch value then none else some key) ↔
    ∃ value, (k, value) ∈ rows.contents ∧ Stale cutoff isReferenced k value := by
  rw [List.mem_filterMap]
  constructor
  · rintro ⟨⟨key, value⟩, hrow, hkey⟩
    obtain ⟨epoch, hepoch, hkey⟩ := Option.bind_eq_some_iff.mp hkey
    split_ifs at hkey with hcutoff hreferenced
    cases hkey
    exact ⟨value, hrow, epoch, hepoch, Nat.lt_of_not_le hcutoff, Bool.eq_false_iff.mpr hreferenced⟩
  · rintro ⟨value, hrow, epoch, hepoch, hlt, hreferenced⟩
    refine ⟨(k, value), hrow, Option.bind_eq_some_iff.mpr ⟨epoch, hepoch, ?_⟩⟩
    rw [if_neg (Nat.not_le_of_lt hlt), hreferenced]
    rfl

theorem mem_pruneKeyspaceWith :
    (key, value) ∈ (pruneKeyspaceWith rows cutoff isReferenced).1.contents ↔
      (key, value) ∈ rows.contents ∧ ¬Stale cutoff isReferenced key value := by
  rw [pruneKeyspaceWith, Keyspace.mem_removeAll, mem_keysToDelete]
  refine and_congr_right fun hrow => not_congr ⟨?_, fun hstale => ⟨value, hrow, hstale⟩⟩
  rintro ⟨value', hrow', hstale⟩
  rwa [Keyspace.value_eq hrow hrow']

theorem pruneKeyspaceWith_twice (rows : Keyspace) (cutoff : Nat)
    (isReferenced : Nat → Bytes → Bool) :
    pruneKeyspaceWith (pruneKeyspaceWith rows cutoff isReferenced).1 cutoff isReferenced =
      ((pruneKeyspaceWith rows cutoff isReferenced).1, 0) := by
  have hnone : ∀ k, k ∉ (pruneKeyspaceWith rows cutoff isReferenced).1.contents.filterMap
      (fun (key, value) => (leadingEpoch key).bind fun epoch =>
        if cutoff ≤ epoch then none else if isReferenced epoch value then none else some key) := by
    intro k hk
    obtain ⟨value, hrow, hstale⟩ := mem_keysToDelete.mp hk
    exact (mem_pruneKeyspaceWith.mp hrow).2 hstale
  rw [pruneKeyspaceWith, List.eq_nil_iff_forall_not_mem.mpr hnone]
  rfl

end Messages

/-! ## Keys -/

section Keys

variable {keys index : Keyspace} {referenced : Finset Bytes} {cutoff : Nat} {pubkey value key : Bytes}

def Expired (index : Keyspace) (referenced : Finset Bytes) (cutoff : Nat) (pubkey : Bytes) : Prop :=
  pubkey ∉ referenced ∧
    ∀ key epoch, (key, pubkey) ∈ index.contents → indexEpoch key = some epoch → epoch < cutoff

theorem mem_epochsOf {epoch : Nat} :
    epoch ∈ epochsOf index pubkey ↔
      ∃ key, (key, pubkey) ∈ index.contents ∧ indexEpoch key = some epoch := by
  rw [epochsOf, List.mem_filterMap]
  constructor
  · rintro ⟨⟨key, value⟩, hrow, hepoch⟩
    change (if value = pubkey then indexEpoch key else none) = some epoch at hepoch
    split_ifs at hepoch with hvalue
    exact ⟨key, hvalue ▸ hrow, hepoch⟩
  · rintro ⟨key, hrow, hepoch⟩
    exact ⟨(key, pubkey), hrow, (if_pos rfl).trans hepoch⟩

theorem recent_iff :
    ((epochsOf index pubkey).max?.any fun epoch => cutoff ≤ epoch) = true ↔
      ∃ key epoch, (key, pubkey) ∈ index.contents ∧ indexEpoch key = some epoch ∧ cutoff ≤ epoch := by
  rw [Option.any_eq_true]
  constructor
  · rintro ⟨epoch, hmax, hcutoff⟩
    obtain ⟨key, hrow, hepoch⟩ := mem_epochsOf.mp (List.max?_mem hmax)
    exact ⟨key, epoch, hrow, hepoch, of_decide_eq_true hcutoff⟩
  · rintro ⟨key, epoch, hrow, hepoch, hcutoff⟩
    have hmem : epoch ∈ epochsOf index pubkey := mem_epochsOf.mpr ⟨key, hrow, hepoch⟩
    obtain ⟨latest, hlatest⟩ := Option.isSome_iff_exists.mp (List.isSome_max?_of_mem hmem)
    have hle := (List.max?_eq_some_iff.mp hlatest).2 epoch hmem
    exact ⟨latest, hlatest, decide_eq_true (hcutoff.trans hle)⟩

def expiredKeys (keys index : Keyspace) (referenced : Finset Bytes) (cutoff : Nat) : List Bytes :=
  keys.keys.filter fun pubkey =>
    pubkey ∉ referenced ∧
      ¬((epochsOf index pubkey).max?.any fun epoch => cutoff ≤ epoch) = true

theorem prunePubkeyKeyspace_eq :
    prunePubkeyKeyspace keys index referenced cutoff =
      (keys.removeAll (expiredKeys keys index referenced cutoff),
        (expiredKeys keys index referenced cutoff).foldl
          (fun rows pubkey => rows.removeAll ((epochsOf index pubkey).map toBeBytes)) index,
        (expiredKeys keys index referenced cutoff).length) :=
  rfl

theorem mem_expiredKeys :
    pubkey ∈ expiredKeys keys index referenced cutoff ↔
      (∃ value, (pubkey, value) ∈ keys.contents) ∧ Expired index referenced cutoff pubkey := by
  rw [expiredKeys, List.mem_filter, decide_eq_true_eq, recent_iff, VecMap.keys, List.mem_map]
  refine and_congr ⟨?_, ?_⟩ (and_congr_right' ?_)
  · rintro ⟨⟨_, value⟩, hrow, rfl⟩
    exact ⟨value, hrow⟩
  · rintro ⟨value, hrow⟩
    exact ⟨(pubkey, value), hrow, rfl⟩
  · push Not
    rfl

theorem mem_prunedKeys :
    (pubkey, value) ∈ (prunePubkeyKeyspace keys index referenced cutoff).1.contents ↔
      (pubkey, value) ∈ keys.contents ∧ ¬Expired index referenced cutoff pubkey := by
  rw [prunePubkeyKeyspace_eq, Keyspace.mem_removeAll, mem_expiredKeys]
  refine and_congr_right fun hrow => not_congr ⟨And.right, fun h => ⟨⟨value, hrow⟩, h⟩⟩

theorem mem_foldl_removeAll {rows : Keyspace} {pubkeys : List Bytes} :
    (key, value) ∈ (pubkeys.foldl
      (fun rows pubkey => rows.removeAll ((epochsOf index pubkey).map toBeBytes)) rows).contents ↔
      (key, value) ∈ rows.contents ∧
        ∀ pubkey ∈ pubkeys, key ∉ (epochsOf index pubkey).map toBeBytes := by
  induction pubkeys generalizing rows with
  | nil => simp
  | cons pubkey pubkeys ih =>
      rw [List.foldl_cons, ih, Keyspace.mem_removeAll, List.forall_mem_cons, and_assoc]

theorem mem_map_toBeBytes (hrow : (key, pubkey) ∈ index.contents) {pubkey' : Bytes} :
    key ∈ (epochsOf index pubkey').map toBeBytes ↔ pubkey' = pubkey ∧ (indexEpoch key).isSome := by
  rw [List.mem_map]
  constructor
  · rintro ⟨epoch, hmem, rfl⟩
    obtain ⟨key', hrow', hepoch⟩ := mem_epochsOf.mp hmem
    rw [toBeBytes_of_indexEpoch hepoch] at hrow ⊢
    exact ⟨Keyspace.value_eq hrow' hrow, by rw [hepoch]; rfl⟩
  · rintro ⟨rfl, hsome⟩
    obtain ⟨epoch, hepoch⟩ := Option.isSome_iff_exists.mp hsome
    exact ⟨epoch, mem_epochsOf.mpr ⟨key, hrow, hepoch⟩, toBeBytes_of_indexEpoch hepoch⟩

theorem mem_prunedIndex :
    (key, pubkey) ∈ (prunePubkeyKeyspace keys index referenced cutoff).2.1.contents ↔
      (key, pubkey) ∈ index.contents ∧
        ¬((∃ value, (pubkey, value) ∈ keys.contents) ∧ Expired index referenced cutoff pubkey ∧
          (indexEpoch key).isSome) := by
  rw [prunePubkeyKeyspace_eq, mem_foldl_removeAll]
  refine and_congr_right fun hrow => ?_
  simp only [mem_map_toBeBytes hrow, mem_expiredKeys]
  constructor
  · rintro h ⟨hkey, hexpired, hsome⟩
    exact h pubkey ⟨hkey, hexpired⟩ ⟨rfl, hsome⟩
  · rintro h _ ⟨hkey, hexpired⟩ ⟨rfl, hsome⟩
    exact h ⟨hkey, hexpired, hsome⟩

theorem prunePubkeyKeyspace_twice (keys index : Keyspace) (referenced : Finset Bytes)
    (cutoff : Nat) :
    let pruned := prunePubkeyKeyspace keys index referenced cutoff
    prunePubkeyKeyspace pruned.1 pruned.2.1 referenced cutoff = (pruned.1, pruned.2.1, 0) := by
  intro pruned
  have hnone : ∀ pubkey, pubkey ∉ expiredKeys pruned.1 pruned.2.1 referenced cutoff := by
    intro pubkey hmem
    obtain ⟨⟨value, hrow⟩, hreferenced, hold⟩ := mem_expiredKeys.mp hmem
    obtain ⟨-, hkept⟩ := mem_prunedKeys.mp hrow
    -- a key that the first pass kept has kept its index rows
    refine hkept ⟨hreferenced, fun key epoch hindex hepoch => hold key epoch ?_ hepoch⟩
    exact mem_prunedIndex.mpr ⟨hindex, fun hgone => hkept hgone.2.1⟩
  rw [prunePubkeyKeyspace_eq, List.eq_nil_iff_forall_not_mem.mpr hnone]
  rfl

end Keys

/-! ## References -/

namespace CommitteeSet

variable {set : CommitteeSet} {target epoch : Nat} {committee : Committee}

def Precedes (set : CommitteeSet) (target epoch : Nat) (committee : Committee) : Prop :=
  set.committees.tryGet epoch = some committee ∧ epoch < target ∧
    ∀ epoch' committee', set.committees.tryGet epoch' = some committee' → epoch' < target →
      epoch' ≤ epoch

/-- The committee hands over to the target: the current one where the target is pending, the last one
before it otherwise. -/
def RotatesFrom (set : CommitteeSet) (target epoch : Nat) (committee : Committee) : Prop :=
  if set.pendingEpochChange = some target then
    epoch = set.epoch ∧ set.committees.tryGet epoch = some committee
  else set.Precedes target epoch committee

theorem mem_keys_iff {V : Type} {m : VecMap Nat V} {k : Nat} :
    k ∈ m.keys ↔ ∃ v, m.tryGet k = some v := by
  simp only [VecMap.keys, VecMap.tryGet, List.mem_map, Option.map_eq_some_iff]
  constructor
  · rintro ⟨row, hrow, rfl⟩
    have hsome : (m.contents.find? fun p => p.1 = row.1).isSome := by
      rw [List.find?_isSome]
      exact ⟨row, hrow, by simp⟩
    obtain ⟨found, hfound⟩ := Option.isSome_iff_exists.mp hsome
    exact ⟨found.2, found, hfound, rfl⟩
  · rintro ⟨v, row, hrow, -⟩
    have hkey := List.find?_some hrow
    exact ⟨row, List.mem_of_find?_eq_some hrow, of_decide_eq_true hkey⟩

theorem precedingCommittee_eq_some :
    set.precedingCommittee target = some (epoch, committee) ↔
      set.Precedes target epoch committee := by
  simp only [precedingCommittee, Option.bind_eq_some_iff, Option.map_eq_some_iff, Prod.mk.injEq,
    List.max?_eq_some_iff, List.mem_filter, decide_eq_true_eq, mem_keys_iff]
  constructor
  · rintro ⟨e, ⟨⟨-, hlt⟩, hlast⟩, c, hc, rfl, rfl⟩
    exact ⟨hc, hlt, fun e' c' hc' hlt' => hlast e' ⟨⟨c', hc'⟩, hlt'⟩⟩
  · rintro ⟨hc, hlt, hlast⟩
    refine ⟨epoch, ⟨⟨⟨committee, hc⟩, hlt⟩, ?_⟩, committee, hc, rfl, rfl⟩
    rintro e' ⟨⟨c', hc'⟩, hlt'⟩
    exact hlast e' c' hc' hlt'

theorem previousCommitteeForTarget_eq_some :
    set.previousCommitteeForTarget target = some (epoch, committee) ↔
      set.RotatesFrom target epoch committee := by
  unfold previousCommitteeForTarget RotatesFrom
  split_ifs
  · simp only [Option.map_eq_some_iff, Prod.mk.injEq]
    constructor
    · rintro ⟨c, hc, rfl, rfl⟩
      exact ⟨rfl, hc⟩
    · rintro ⟨rfl, hc⟩
      exact ⟨committee, hc, rfl, rfl⟩
  · exact precedingCommittee_eq_some

/-- The committee is the target's own or one of the two before it. -/
def Live (set : CommitteeSet) (target : Nat) (committee : Committee) : Prop :=
  set.committees.tryGet target = some committee ∨
    ∃ epoch, set.RotatesFrom target epoch committee ∨ set.Precedes target epoch committee

def NeedsEncryptionKey (set : CommitteeSet) (target : Nat) (pubkey : Bytes) : Prop :=
  (∃ committee, set.Live target committee ∧
    ∃ member ∈ committee.members, member.encryptionPublicKey = pubkey) ∨
  ∃ row ∈ set.members.contents, row.2.nextEpochEncryptionPublicKey = some pubkey

def NeedsSigningKey (set : CommitteeSet) (target : Nat) (pubkey : Bytes) : Prop :=
  (∃ committee, set.Live target committee ∧
    ∃ member ∈ committee.members, member.publicKey = pubkey) ∨
  ∃ row ∈ set.members.contents, row.2.nextEpochPublicKey = pubkey

/-- The committee of the epoch hands over to the target or is the last one before it. -/
def NeedsMessages (set : CommitteeSet) (target epoch : Nat) : Prop :=
  ∃ committee, set.RotatesFrom target epoch committee ∨ set.Precedes target epoch committee

end CommitteeSet

namespace PruningReferences

theorem mem_foldl {α β : Type} [DecidableEq β] {step : PruningReferences → α → PruningReferences}
    (field : PruningReferences → Finset β) (adds : α → Finset β)
    (hstep : ∀ references item, field (step references item) = adds item ∪ field references)
    (items : List α) (references : PruningReferences) (b : β) :
    b ∈ field (items.foldl step references) ↔
      b ∈ field references ∨ ∃ item ∈ items, b ∈ adds item := by
  induction items generalizing references with
  | nil => simp
  | cons item items ih =>
      rw [List.foldl_cons, ih, hstep, Finset.mem_union]
      simp only [List.mem_cons, exists_eq_or_imp]
      tauto

end PruningReferences

section References

open PruningReferences

variable {set : CommitteeSet} {target : Nat}

theorem CommitteeSet.Live.mem {committee : Committee} (h : set.Live target committee) :
    committee ∈ (set.committees.tryGet target).toList ++
      ((set.previousCommitteeForTarget target).map Prod.snd).toList ++
      ((set.precedingCommittee target).map Prod.snd).toList := by
  rcases h with htarget | ⟨epoch, hrotates | hprecedes⟩
  · simp [htarget]
  · simp [previousCommitteeForTarget_eq_some.mpr hrotates]
  · simp [precedingCommittee_eq_some.mpr hprecedes]

theorem mem_encryptionKeys {pubkey : Bytes} (h : set.NeedsEncryptionKey target pubkey) :
    pubkey ∈ (buildPruningReferences set target).encryptionKeys := by
  rw [buildPruningReferences,
    mem_foldl (·.encryptionKeys) (fun info => info.nextEpochEncryptionPublicKey.toFinset) ?_,
    mem_foldl (·.encryptionKeys) (fun _ => ∅) ?_,
    mem_foldl (·.encryptionKeys) (fun member => {member.encryptionPublicKey}) ?_]
  · rcases h with ⟨committee, hlive, member, hmember, rfl⟩ | ⟨row, hrow, hkey⟩
    · left; left; right
      exact ⟨member, List.mem_flatMap.mpr ⟨committee, hlive.mem, hmember⟩, by simp⟩
    · right
      exact ⟨row.2, List.mem_map_of_mem hrow, by simp [hkey]⟩
  · intro references member
    rfl
  · intro references committee
    simp [addCommitteeEpoch]
  · rintro references ⟨address, signing, _ | encryption⟩
    · exact (Finset.empty_union _).symm
    · exact Finset.insert_eq _ _

theorem mem_signingKeys {pubkey : Bytes} (h : set.NeedsSigningKey target pubkey) :
    pubkey ∈ (buildPruningReferences set target).signingKeys := by
  rw [buildPruningReferences,
    mem_foldl (·.signingKeys) (fun info => {info.nextEpochPublicKey}) ?_,
    mem_foldl (·.signingKeys) (fun _ => ∅) ?_,
    mem_foldl (·.signingKeys) (fun member => {member.publicKey}) ?_]
  · rcases h with ⟨committee, hlive, member, hmember, rfl⟩ | ⟨row, hrow, hkey⟩
    · left; left; right
      exact ⟨member, List.mem_flatMap.mpr ⟨committee, hlive.mem, hmember⟩, by simp⟩
    · right
      exact ⟨row.2, List.mem_map_of_mem hrow, by simp [hkey]⟩
  · intro references member
    rfl
  · intro references committee
    simp [addCommitteeEpoch]
  · intro references info
    rfl

theorem mem_committeeEpochs {epoch : Nat} (h : set.NeedsMessages target epoch) :
    epoch ∈ (buildPruningReferences set target).committeeEpochs := by
  rw [buildPruningReferences,
    mem_foldl (·.committeeEpochs) (fun _ => ∅) ?_,
    mem_foldl (·.committeeEpochs) (fun committee => {committee.1}) ?_]
  · left; right
    obtain ⟨committee, hrotates | hprecedes⟩ := h
    · exact ⟨(epoch, committee), by
        simp [CommitteeSet.previousCommitteeForTarget_eq_some.mpr hrotates], by simp⟩
    · exact ⟨(epoch, committee), by
        simp [CommitteeSet.precedingCommittee_eq_some.mpr hprecedes], by simp⟩
  · intro references committee
    rfl
  · intro references info
    simp [addPendingRegistration]

end References

/-! ## The database -/

structure KeysKept (needed : Bytes → Prop) (cutoff : Nat) (keys index keys' index' : Keyspace) :
    Prop where
  referenced : ∀ {pubkey value}, (pubkey, value) ∈ keys.contents → needed pubkey →
    (pubkey, value) ∈ keys'.contents
  /-- A key stays as long as one of its epochs is at or above the cutoff. -/
  recent : ∀ {pubkey value key epoch}, (pubkey, value) ∈ keys.contents →
    (key, pubkey) ∈ index.contents → indexEpoch key = some epoch → cutoff ≤ epoch →
    (pubkey, value) ∈ keys'.contents
  recent_index : ∀ {key pubkey epoch}, (key, pubkey) ∈ index.contents →
    indexEpoch key = some epoch → cutoff ≤ epoch → (key, pubkey) ∈ index'.contents
  /-- A row that stays has not lost its key. -/
  index_key : ∀ {key pubkey epoch value}, (key, pubkey) ∈ index'.contents →
    indexEpoch key = some epoch → (pubkey, value) ∈ keys.contents →
    (pubkey, value) ∈ keys'.contents

structure MessagesKept (needed : Nat → Prop) (cutoff : Nat) (rows rows' : Keyspace) : Prop where
  referenced : ∀ {key value epoch}, (key, value) ∈ rows.contents → leadingEpoch key = some epoch →
    needed epoch → (key, value) ∈ rows'.contents
  recent : ∀ {key value epoch}, (key, value) ∈ rows.contents → leadingEpoch key = some epoch →
    cutoff ≤ epoch → (key, value) ∈ rows'.contents

theorem keysKept {needed : Bytes → Prop} {cutoff : Nat} {keys index : Keyspace}
    {referenced : Finset Bytes} (hneeded : ∀ pubkey, needed pubkey → pubkey ∈ referenced) :
    KeysKept needed cutoff keys index (prunePubkeyKeyspace keys index referenced cutoff).1
      (prunePubkeyKeyspace keys index referenced cutoff).2.1 where
  referenced hrow hneed := mem_prunedKeys.mpr ⟨hrow, fun hexpired => hexpired.1 (hneeded _ hneed)⟩
  recent hrow hindex hepoch hcutoff := by
    refine mem_prunedKeys.mpr ⟨hrow, fun hexpired => ?_⟩
    exact absurd (hexpired.2 _ _ hindex hepoch) (Nat.not_lt.mpr hcutoff)
  recent_index hindex hepoch hcutoff := by
    refine mem_prunedIndex.mpr ⟨hindex, fun hgone => ?_⟩
    exact absurd (hgone.2.1.2 _ _ hindex hepoch) (Nat.not_lt.mpr hcutoff)
  index_key hindex hepoch hrow := by
    obtain ⟨-, hkept⟩ := mem_prunedIndex.mp hindex
    refine mem_prunedKeys.mpr ⟨hrow, fun hexpired => hkept ⟨⟨_, hrow⟩, hexpired, ?_⟩⟩
    rw [hepoch]
    rfl

theorem messagesKept {needed : Nat → Prop} {cutoff : Nat} {rows : Keyspace}
    {isReferenced : Nat → Bytes → Bool}
    (hneeded : ∀ epoch value, needed epoch → isReferenced epoch value = true) :
    MessagesKept needed cutoff rows (pruneKeyspaceWith rows cutoff isReferenced).1 where
  referenced hrow hepoch hneed := by
    refine mem_pruneKeyspaceWith.mpr ⟨hrow, ?_⟩
    rintro ⟨epoch', hepoch', -, hfalse⟩
    rw [hepoch, Option.some.injEq] at hepoch'
    rw [← hepoch', hneeded _ _ hneed] at hfalse
    cases hfalse
  recent hrow hepoch hcutoff := by
    refine mem_pruneKeyspaceWith.mpr ⟨hrow, ?_⟩
    rintro ⟨epoch', hepoch', hlt, -⟩
    rw [hepoch, Option.some.injEq] at hepoch'
    omega

theorem roundsKept {cutoff : Nat} {rows : Keyspace} :
    MessagesKept (fun _ => False) cutoff rows (pruneKeyspace rows cutoff).1 :=
  messagesKept fun _ _ => False.elim

theorem pruneMessagesBelow_twice (db : Database) (cutoff : Nat) (references : PruningReferences) :
    (db.pruneMessagesBelow cutoff references).1.pruneMessagesBelow cutoff references =
      ((db.pruneMessagesBelow cutoff references).1, 0) := by
  have hencryption := prunePubkeyKeyspace_twice db.encryptionKeys db.encryptionEpochIndex
    references.encryptionKeys (cutoff - RETENTION_EXTRA_EPOCHS)
  have hsigning := prunePubkeyKeyspace_twice db.signingKeys db.signingEpochIndex
    references.signingKeys (cutoff - RETENTION_EXTRA_EPOCHS)
  have hmessages := fun rows => pruneKeyspaceWith_twice rows (cutoff - RETENTION_EXTRA_EPOCHS)
    fun epoch _ => decide (epoch ∈ references.committeeEpochs)
  have hrounds := fun rows => pruneKeyspaceWith_twice rows cutoff fun _ _ => false
  simp only [Database.pruneMessagesBelow, pruneKeyspace, hencryption, hsigning, hmessages, hrounds]

/-- A pass with the references of a target keeps every key and message that is still needed and
everything recent, leaves no index row without the key it had, and leaves nothing for a second pass.
The state of the AVID rounds has no retention beyond the cutoff itself. -/
theorem key_pruning (set : CommitteeSet) (target cutoff : Nat) (db : Database) :
    let references := buildPruningReferences set target
    let db' := (db.pruneMessagesBelow cutoff references).1
    let retentionCutoff := cutoff - RETENTION_EXTRA_EPOCHS
    KeysKept (set.NeedsEncryptionKey target) retentionCutoff db.encryptionKeys
      db.encryptionEpochIndex db'.encryptionKeys db'.encryptionEpochIndex ∧
    KeysKept (set.NeedsSigningKey target) retentionCutoff db.signingKeys
      db.signingEpochIndex db'.signingKeys db'.signingEpochIndex ∧
    MessagesKept (set.NeedsMessages target) retentionCutoff db.dealerMessages db'.dealerMessages ∧
    MessagesKept (set.NeedsMessages target) retentionCutoff db.rotationMessages
      db'.rotationMessages ∧
    MessagesKept (fun _ => False) cutoff db.avidRoundStates db'.avidRoundStates ∧
    MessagesKept (fun _ => False) cutoff db.avidDealerBuilders db'.avidDealerBuilders ∧
    MessagesKept (fun _ => False) cutoff db.avidHeldEchoes db'.avidHeldEchoes ∧
    db'.pruneMessagesBelow cutoff references = (db', 0) := by
  intro references db' retentionCutoff
  have hmessages : ∀ (epoch : Nat) (_ : Bytes), set.NeedsMessages target epoch →
      decide (epoch ∈ references.committeeEpochs) = true :=
    fun epoch _ h => decide_eq_true (mem_committeeEpochs h)
  refine ⟨keysKept fun _ h => mem_encryptionKeys h, keysKept fun _ h => mem_signingKeys h,
    messagesKept hmessages, messagesKept hmessages, roundsKept, roundsKept, roundsKept,
    pruneMessagesBelow_twice db cutoff references⟩

/-- A row of a round that ended one epoch ago is deleted, although it is above the retention cutoff. -/
theorem pruned_above_retentionCutoff :
    let rows : Keyspace := ⟨[(toBeBytes 9, [])], by decide⟩
    let db : Database := ⟨.empty, .empty, .empty, .empty, .empty, .empty, rows, .empty, .empty⟩
    let set : CommitteeSet := ⟨.empty, 10, none, .empty⟩
    leadingEpoch (toBeBytes 9) = some 9 ∧ 10 - RETENTION_EXTRA_EPOCHS ≤ 9 ∧
      (db.pruneMessagesBelow 10 (buildPruningReferences set 10)).1.avidRoundStates.contents = [] := by
  decide

end HashiBridge.Node
