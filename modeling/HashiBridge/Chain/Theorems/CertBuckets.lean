import HashiBridge.Chain.Lemmas.TobSteps

/-!
# Certificate buckets are append-only logs

A bucket keeps the first submission of each dealer in order of time. From any reachable world on it is
only appended to and sealed once, not even that after its epoch, until a call destroys it; by then
no later reconfiguration reads it.
-/

namespace HashiBridge.Core.EpochCertsV1

variable {old new : EpochCertsV1}

/-- What the bucket under `key` holds at time `now`. -/
structure Logs (key : TobKey) (now : Nat) (bucket : EpochCertsV1) : Prop where
  epoch_eq : bucket.epoch = key.epoch
  dealer_eq : ∀ entry ∈ bucket.certs.contents, entry.2.dealerAddress = entry.1
  ascending : bucket.certs.contents.Pairwise fun entry later =>
    entry.2.timestampMs ≤ later.2.timestampMs
  past : ∀ entry ∈ bucket.certs.contents, entry.2.timestampMs ≤ now
  seals : bucket.isSealed → key.protocolType = .nonceGeneration

structure Extends (old new : EpochCertsV1) : Prop where
  epoch_eq : new.epoch = old.epoch
  protocol_eq : new.protocolType = old.protocolType
  certs : old.certs.contents <+: new.certs.contents
  seals : old.isSealed → new.presigSeal = old.presigSeal

theorem Extends.refl (old : EpochCertsV1) : old.Extends old :=
  ⟨rfl, rfl, List.prefix_rfl, fun _ => rfl⟩

theorem Extends.trans {mid : EpochCertsV1} (h : old.Extends mid) (h' : mid.Extends new) :
    old.Extends new where
  epoch_eq := h'.epoch_eq.trans h.epoch_eq
  protocol_eq := h'.protocol_eq.trans h.protocol_eq
  certs := h.certs.trans h'.certs
  seals hold := (h'.seals (by rwa [isSealed, h.seals hold])).trans (h.seals hold)

end HashiBridge.Core.EpochCertsV1

namespace HashiBridge.Chain

open Lib HashiBridge.Core EpochCertsV1

variable {env : Env} {w w' : World} {tr tr' : List Label} {self : Hashi} {now id epoch clock : Nat}
  {key : TobKey} {old new bucket : EpochCertsV1}

namespace Hashi.BucketEffect

theorem logs (h : self.BucketEffect now key (some new))
    (hold : ∀ {old}, self.tob.lookup key = some old → Logs key now old) : Logs key now new := by
  generalize hnew : some new = result at h
  cases h with
  | keep => exact hold hnew.symm
  | @submit dealer _ _ _ hdealer =>
      cases hnew
      have hlogs : Logs key now (self.epochCerts key) := by
        unfold Hashi.epochCerts
        cases hlookup : self.tob.lookup key with
        | none => constructor <;> simp [create, VecMap.empty, isSealed]
        | some old => exact hold hlookup
      constructor
      case epoch_eq => exact hlogs.epoch_eq
      case seals => exact hlogs.seals
      all_goals simp only [VecMap.contents_upsert hdealer]
      case dealer_eq => simpa [or_imp, forall_and] using fun a b hab => hlogs.dealer_eq (a, b) hab
      case past => simpa [or_imp, forall_and] using fun a b hab => hlogs.past (a, b) hab
      case ascending =>
        -- the new entry is stamped with the present
        exact List.pairwise_append.mpr ⟨hlogs.ascending, List.pairwise_singleton ..,
          fun entry hentry later hlater => List.mem_singleton.mp hlater ▸ hlogs.past entry hentry⟩
  | sealed _ hnonce hbucket _ =>
      cases hnew
      exact { hold hbucket with seals := fun _ => hnonce }
  | destroy => cases hnew

theorem grows {result : Option EpochCertsV1} (h : self.BucketEffect now key result)
    (hold : self.tob.lookup key = some old) :
    (∃ new, result = some new ∧ old.Extends new ∧ (new = old ∨
      key.epoch = self.committeeSet.epoch ∨ self.committeeSet.pendingEpoch = some key.epoch)) ∨
    (result = none ∧ self.Stale key) := by
  cases h with
  | keep => exact .inl ⟨old, hold, .refl old, .inl rfl⟩
  | submit hopen hdealer =>
      have hcerts : self.epochCerts key = old := by rw [Hashi.epochCerts, hold]; rfl
      rw [hcerts] at hdealer ⊢
      exact .inl ⟨_, rfl, ⟨rfl, rfl, VecMap.contents_upsert hdealer _ ▸ List.prefix_append .., fun _ => rfl⟩,
        .inr hopen⟩
  | sealed hepoch _ hbucket hnone =>
      cases hold.symm.trans hbucket
      exact .inl ⟨_, rfl, ⟨rfl, rfl, List.prefix_rfl, by simp [isSealed, hnone]⟩, .inr (.inl hepoch)⟩
  | destroy hstale => exact .inr ⟨rfl, hstale⟩

end Hashi.BucketEffect

theorem logs_of_reachable (hreach : Run (Step env) (publish id epoch clock) tr w)
    (hbucket : w.hashi.tob.lookup key = some bucket) : Logs key w.clock bucket := by
  induction hreach generalizing bucket with
  | nil => cases hbucket
  | snoc hrun hstep ih =>
      have hinv := World.Inv.reachable hrun
      have heffect := hstep.bucketEffect key hinv
      rw [hbucket] at heffect
      have hlogs := heffect.logs ih
      exact { hlogs with past := fun entry hentry =>
        (hlogs.past entry hentry).trans (hstep.refines hinv).clock_le }

/-- The bucket under `key` continues what it was in `w`, unchanged if its epoch was behind. -/
def World.Continues (w : World) (key : TobKey) (bucket : EpochCertsV1) (w' : World) : Prop :=
  ∃ bucket', w'.hashi.tob.lookup key = some bucket' ∧ bucket.Extends bucket' ∧
    (key.epoch < w.hashi.committeeSet.epoch → bucket' = bucket)

/-- From a reachable world on, a certificate bucket is a log in order of time that is only extended,
and stays as it is once its epoch is behind the current one. A step that takes it away comes two
epochs later at the earliest, and for the certificates of a key generation only after eight epochs
and when the committee of a later epoch has itself handed over. -/
theorem certificates_kept_until_superseded (hreach : Run (Step env) (publish id epoch clock) tr w)
    (hbucket : w.hashi.tob.lookup key = some bucket) (hrun : Run (Step env) w tr' w') :
    Logs key w.clock bucket ∧
    (w.Continues key bucket w' ∨
      Occurs (Step env) w tr' w' fun before _ after =>
        after.hashi.tob.lookup key = none ∧ key.epoch + 2 ≤ before.hashi.committeeSet.epoch ∧
        (key.batchIndex = none → key.epoch + 8 ≤ before.hashi.committeeSet.epoch ∧
          ∃ e, key.epoch < e ∧ e < before.hashi.committeeSet.epoch ∧
            e ∈ before.hashi.committeeSet.handoffs)) := by
  refine ⟨logs_of_reachable hreach hbucket, hrun.kept_or_occurs
    (Q := w.Continues key bucket) ⟨bucket, hbucket, .refl bucket, fun _ => rfl⟩ ?_⟩
  rintro tr₁ s label s' hrun₁ hstep ⟨old, hold, hextends, hfrozen⟩
  have hinv := World.Inv.reachable (hreach.trans hrun₁)
  have hafter := epochs_after hreach hrun₁
  rcases (hstep.bucketEffect key hinv).grows hold with
    ⟨new, hnew, hgrown, hopen⟩ | ⟨hgone, hstale⟩
  · refine .inl ⟨new, hnew, hextends.trans hgrown, fun hbehind => ?_⟩
    rw [← hfrozen hbehind]
    have hlt : key.epoch < s.epochs.epoch := hbehind.trans_le hafter.epoch_le
    refine hopen.resolve_right fun hopen => ?_
    rcases hopen with heq | hpending
    · exact absurd heq hlt.ne
    · -- a pending epoch lies past the current one
      by_cases hkey : s.epochs.mpcPublicKey = []
      · exact absurd hlt (by simp [(hinv.epochs.unlaunched hkey).1])
      · exact absurd (hinv.epochs.pending_lt hkey hpending) hlt.not_gt
  · refine .inr ⟨hgone, hstale.age, fun hbatch => ?_⟩
    obtain ⟨hage, e, hlow, hhigh, hmem⟩ := hstale.keyGen hbatch
    exact ⟨hage, e, hlow, hhigh, hafter.handedOver hmem hhigh⟩

/-- A nonce certificate of epoch 0. -/
def Sample.nonces : List Label := Sample.launch ++ [
  Sample.call 1070 (.certs (.submitNonceCert 0 0 10 [] (Sample.cert 0)))]

/-- The change to epoch 2. -/
def Sample.skip : List Label := [
  .advance 2 1000,
  Sample.call 1071 (.reconfig (.startReconfig (VecMap.empty.upsert 10 100))),
  Sample.call 1072 (.reconfig (.submitCommitteeHandoff 2 (Sample.cert 0))),
  Sample.call 1073 (.reconfig (.endReconfig Sample.mpcKey (Sample.cert 2)))]

/-- The certificate of epoch 0 is gone after its destruction, which came in epoch 2 or later. -/
theorem certificates_kept_until_destroyed : ∃ w pre before label after,
    Run (Step Sample.env) (publish 99 0 0) Sample.nonces w ∧
    Run (Step Sample.env) w pre before ∧ Step Sample.env before label after ∧
    after.hashi.tob.lookup (Hashi.nonceKey 0 0) = none ∧ 2 ≤ before.hashi.committeeSet.epoch := by
  obtain ⟨w, hrun, htest⟩ := run_of_reaches Sample.env (publish 99 0 0) Sample.nonces
    (fun w => (w.hashi.tob.lookup (Hashi.nonceKey 0 0)).isSome &&
      reaches Sample.env w
        (Sample.skip ++ [Sample.call 1074 (.certs (.destroyNonceCerts 0 0))])
        (fun w' => (w'.hashi.tob.lookup (Hashi.nonceKey 0 0)).isNone)) (by decide +kernel)
  obtain ⟨hbucket, hreaches⟩ := Bool.and_eq_true_iff.mp htest
  obtain ⟨bucket, hbucket⟩ := Option.isSome_iff_exists.mp hbucket
  obtain ⟨w', hrun', hgone⟩ := run_of_reaches _ _ _ _ hreaches
  rcases (certificates_kept_until_superseded hrun hbucket hrun').2 with
    ⟨_, hkept, -⟩ | ⟨pre, _, before, label, after, -, hpre, hstep, -, hnone, hage, -⟩
  · simp [hkept] at hgone
  · exact ⟨w, pre, before, label, after, hrun, hpre, hstep, hnone, hage⟩

end HashiBridge.Chain
