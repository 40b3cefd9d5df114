import HashiBridge.Chain.Theorems.CertBuckets
import HashiBridge.Node.GarbageCollection

/-!
# A sweep destroys what it picked

The chain's guards only get weaker as epochs pass, so the targets picked from an outdated view still
pass them, and a transaction that destroys several targets does not abort.
-/

namespace HashiBridge.Node

open Lib HashiBridge.Core Chain

variable {env : Env} {now : Nat} {ctx : TxContext} {hashi : Hashi} {w w' : World} {tr tr' : List Label}
  {target : TobPruneTarget} {targets : List TobPruneTarget}

@[simp] def TobPruneTarget.keys : TobPruneTarget → List TobKey
  | .keyGen epoch => [Hashi.dkgKey epoch, Hashi.keyRotationKey epoch]
  | .nonceBatch epoch batchIndex => [Hashi.nonceKey epoch batchIndex]

/-! ## What is picked -/

namespace PruneSets

def Has (sets : PruneSets) : TobPruneTarget → Prop
  | .keyGen epoch => epoch ∈ sets.keygenEpochs
  | .nonceBatch epoch batchIndex => batchIndex ∈ sets.batches epoch

theorem has_add {sets : PruneSets} (t : TobPruneTarget) :
    (sets.add t).Has target ↔ sets.Has target ∨ target = t := by
  cases t <;> cases target <;> simp [Has, add, batches, Bag.lookup_insert_ite, or_comm]
  split_ifs with h
  · rw [h]
    simp
  · simp [h]

theorem has_foldl (sets : PruneSets) :
    (targets.foldl add sets).Has target ↔ sets.Has target ∨ target ∈ targets := by
  induction targets generalizing sets with
  | nil => simp
  | cons t targets ih => rw [List.foldl_cons, ih, has_add, List.mem_cons, or_assoc]

theorem mem_listing {sets : PruneSets} : target ∈ sets.listing ↔ sets.Has target := by
  have hkey : ∀ {e b}, b ∈ sets.batches e → e ∈ sets.nonceBatches := by
    intro e b hb
    by_contra hnot
    simp [batches, Bag.lookup_of_notMem hnot] at hb
  cases target <;> simp [listing, Has, PruneSets.targets, Iteration.mem_list, Finmap.mem_keys]
  · exact .inl
  · exact fun hb => .inr (hkey hb)

end PruneSets

theorem stale_of_found {keys : List TobKey} (hmax : hashi.committeeSet.epoch + 1 < U64_SIZE)
    (hfound : target ∈ findTobBucketsToPrune hashi.committeeSet.committees.keys
      hashi.committeeSet.epoch keys) : ∀ key ∈ target.keys, hashi.Stale key := by
  have hmem := PruneSets.mem_listing.mp (List.mem_of_mem_take hfound)
  obtain ⟨key, -, h⟩ := List.mem_filterMap.mp ((PruneSets.has_foldl _).mp hmem |>.resolve_left
    (by cases target <;> simp [PruneSets.Has, PruneSets.batches]))
  have hsat : ∀ {n}, saturateU64 n ≤ hashi.committeeSet.epoch → n ≤ hashi.committeeSet.epoch := by
    intro n hn
    unfold saturateU64 at hn
    omega
  unfold pruneTarget at h
  split at h
  case h_3 =>
    split_ifs at h with hage
    cases h
    simp only [TobPruneTarget.keys, List.mem_singleton, forall_eq]
    exact ⟨hsat hage, fun hbatch => by cases hbatch⟩
  case h_4 => cases h
  all_goals
    dsimp only at h
    split_ifs at h with hpick
    cases h
    obtain ⟨hage, -, e, hmem, hlow, hhigh⟩ := hpick
    have hage : key.epoch + 8 ≤ hashi.committeeSet.epoch := hsat hage
    have hlow : key.epoch < e := by
      unfold saturateU64 at hlow
      omega
    have hstale : ∀ key', key'.epoch = key.epoch → hashi.Stale key' := by
      intro key' hkey'
      rw [← hkey'] at hage hlow
      exact ⟨(Nat.add_le_add_left (by decide) _).trans hage,
        fun _ => ⟨hage, e, hlow, hhigh, Finmap.mem_keys.mp hmem⟩⟩
    simp [hstale, Hashi.dkgKey, Hashi.keyRotationKey]

/-! ## What is destroyed -/

theorem lookup_foldl_erase {K V : Type} [DecidableEq K] (ks : List K) (b : Bag K V) (k : K) :
    (ks.foldl (fun b k => b.erase k) b).lookup k = if k ∈ ks then none else b.lookup k := by
  induction ks generalizing b with
  | nil => simp
  | cons k' ks ih =>
      rw [List.foldl_cons, ih, Bag.lookup_erase_ite]
      by_cases hk : k = k' <;> simp [hk]

variable (henabled : hashi.versioning.assertVersionEnabled = .ok ())
  (hmax : hashi.committeeSet.epoch + 1 < U64_SIZE)
  (hepochs : ∀ {key bucket}, hashi.tob.lookup key = some bucket → bucket.epoch = key.epoch)

include henabled hmax hepochs

theorem certCall_run (h : ∀ key ∈ target.keys, hashi.Stale key) :
    target.certCall.run env now ctx hashi =
      .ok { hashi with tob := target.keys.foldl (fun b k => b.erase k) hashi.tob } := by
  have hdestroy : ∀ {tob key}, key ∈ target.keys → tob.lookup key = hashi.tob.lookup key →
      ({ hashi with tob } : Hashi).destroyBucketIfPresent hashi.committeeSet.epoch key =
        .ok { hashi with tob := tob.erase key } := by
    intro tob key hkey htob
    refine Hashi.destroyBucketIfPresent_eq_ok.mpr ⟨fun bucket hbucket => ?_, rfl⟩
    have hage : key.epoch + 2 ≤ hashi.committeeSet.epoch := (h key hkey).age
    rw [hepochs (htob.symm.trans hbucket)]
    exact ⟨by omega, hage⟩
  cases target with
  | keyGen epoch =>
      obtain ⟨hage, hbetween⟩ := (h (Hashi.dkgKey epoch) (by simp)).keyGen rfl
      have hage : epoch + 8 ≤ hashi.committeeSet.epoch := hage
      simp only [TobPruneTarget.certCall, CertCall.run, Hashi.destroyKeyGenCerts, bind_eq_ok,
        addU64_eq_ok, require_eq_ok]
      refine ⟨(), henabled, _, ⟨?_, rfl⟩, (), hage, true,
        CommitteeSet.isBeforePreviousCommittee_eq_ok.mpr ⟨by omega, hbetween⟩, (), rfl, _,
        hdestroy (by simp) rfl, hdestroy (by simp) ?_⟩
      · exact Nat.lt_of_le_of_lt hage (by omega)
      · rw [Bag.lookup_erase_ite, if_neg (by simp [Hashi.dkgKey, Hashi.keyRotationKey])]
  | nonceBatch epoch batchIndex =>
      have hage := (h (Hashi.nonceKey epoch batchIndex) (by simp)).age
      simp only [TobPruneTarget.certCall, CertCall.run, Hashi.destroyNonceCerts, bind_eq_ok,
        addU64_eq_ok, require_eq_ok]
      exact ⟨(), henabled, _, ⟨Nat.lt_of_le_of_lt hage (by omega), rfl⟩, (), hage,
        hdestroy (by simp) rfl⟩

theorem certCalls_run (h : ∀ target ∈ targets, ∀ key ∈ target.keys, hashi.Stale key) :
    (targets.map TobPruneTarget.certCall).foldlM (fun hashi call => call.run env now ctx hashi) hashi =
      .ok { hashi with tob :=
        (targets.flatMap TobPruneTarget.keys).foldl (fun b k => b.erase k) hashi.tob } := by
  induction targets generalizing hashi with
  | nil => rfl
  | cons t targets ih =>
      rw [List.forall_mem_cons] at h
      rw [List.map_cons, foldlM_cons_eq_ok]
      refine ⟨_, certCall_run henabled hmax hepochs h.1, ?_⟩
      rw [List.flatMap_cons, List.foldl_append]
      refine ih henabled hmax (fun {key bucket} hbucket => ?_) fun t' ht' key hkey => ?_
      · dsimp only at hbucket
        rw [lookup_foldl_erase] at hbucket
        split_ifs at hbucket
        exact hepochs hbucket
      · obtain ⟨hage, hkeyGen⟩ := h.2 t' ht' key hkey
        exact ⟨hage, hkeyGen⟩

omit henabled hmax hepochs

/-- What a sweep picked from its view of a reachable chain, on whatever pages, can be destroyed at any
later time: the calls of all targets in one transaction run through, and they take away the buckets
of the targets and no other. -/
theorem picked_buckets_destroyed {id epoch clock : Nat} (now : Nat) (ctx : TxContext)
    (hreach : Run (Step env) (publish id epoch clock) tr w) (hrun : Run (Step env) w tr' w')
    (targets : List TobPruneTarget) (hmax : w'.hashi.committeeSet.epoch + 1 < U64_SIZE)
    (hpicked : ∀ target ∈ targets, ∃ keys, target ∈ findTobBucketsToPrune
      w.hashi.committeeSet.committees.keys w.hashi.committeeSet.epoch keys)
    (henabled : w'.hashi.versioning.assertVersionEnabled = .ok ()) :
    ∃ tob, (targets.map TobPruneTarget.certCall).foldlM
        (fun hashi call => call.run env now ctx hashi) w'.hashi = .ok { w'.hashi with tob } ∧
      ∀ key, tob.lookup key =
        if key ∈ targets.flatMap TobPruneTarget.keys then none else w'.hashi.tob.lookup key := by
  have hafter := epochs_after hreach hrun
  have hle : w.hashi.committeeSet.epoch ≤ w'.hashi.committeeSet.epoch := hafter.epoch_le
  have hstale : ∀ target ∈ targets, ∀ key ∈ target.keys, w'.hashi.Stale key := by
    intro target htarget key hkey
    obtain ⟨keys, hfound⟩ := hpicked target htarget
    obtain ⟨hage, hkeyGen⟩ := stale_of_found (by omega) hfound key hkey
    refine ⟨hage.trans hle, fun hbatch => ?_⟩
    obtain ⟨hage, e, hlow, hhigh, hmem⟩ := hkeyGen hbatch
    -- the committee between has handed over, and so is still known
    have hhanded := hafter.handoffs ((epochs_after hreach .nil).handedOver hmem hhigh)
    obtain ⟨handoff, hlookup⟩ := Finmap.mem_iff.mp hhanded
    obtain ⟨_, _, hcommittee, -⟩ :=
      (World.Inv.reachable (hreach.trans hrun)).epochs.handoff_cert hlookup
    exact ⟨hage.trans hle, e, hlow, hhigh.trans_le hle, Bag.mem_of_lookup hcommittee⟩
  exact ⟨_, certCalls_run henabled hmax
    (fun hbucket => (logs_of_reachable (hreach.trans hrun) hbucket).epoch_eq) hstale,
    lookup_foldl_erase _ _⟩

/-- In epoch 2 the nonce certificates of epoch 0 are picked and destroyed. -/
theorem picked_nonces_destroyed : ∃ w tob,
    Run (Step Sample.env) (publish 99 0 0) (Sample.nonces ++ Sample.skip) w ∧
    w.hashi.destroyNonceCerts 0 0 = .ok { w.hashi with tob } ∧
    tob.lookup (Hashi.nonceKey 0 0) = none := by
  obtain ⟨w, hrun, htest⟩ := run_of_reaches Sample.env (publish 99 0 0)
    (Sample.nonces ++ Sample.skip)
    (fun w => decide (w.hashi.committeeSet.epoch = 2 ∧
      w.hashi.versioning.assertVersionEnabled = .ok () ∧
      .nonceBatch 0 0 ∈ findTobBucketsToPrune w.hashi.committeeSet.committees.keys
        w.hashi.committeeSet.epoch [Hashi.nonceKey 0 0])) (by decide +kernel)
  obtain ⟨hepoch, henabled, hfound⟩ := of_decide_eq_true htest
  obtain ⟨tob, hdestroyed, htob⟩ := picked_buckets_destroyed 0 ⟨10, 2, [], 1074⟩ hrun .nil
    [.nonceBatch 0 0] (by rw [hepoch]; decide)
    (fun t ht => ⟨_, List.mem_singleton.mp ht ▸ hfound⟩) henabled
  simp only [List.map_cons, List.map_nil, foldlM_cons_eq_ok, foldlM_nil_eq_ok] at hdestroyed
  obtain ⟨_, hcall, rfl⟩ := hdestroyed
  exact ⟨w, tob, hrun, hcall, by rw [htob]; rfl⟩

end HashiBridge.Node
