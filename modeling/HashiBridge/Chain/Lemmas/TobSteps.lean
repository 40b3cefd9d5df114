import HashiBridge.Chain.Lemmas.Reachable
import HashiBridge.Core.Lemmas.CommitteeEpochs

/-!
# What a step does to a certificate bucket

`BucketEffect` lists it: a submission or the seal goes into a bucket of the current or the pending
epoch, and a destroyed bucket is behind the committees that still need it.
-/

namespace HashiBridge.Chain

open Lib HashiBridge.Core Btc

variable {env : Env} {activated : List Nat} {w w' : World} {label : Label} {tr : List Label}
  {self hashi' : Hashi} {now : Nat} {ctx : TxContext} {key : TobKey}

namespace Hashi

/-- The bucket under `key` is not needed any more. -/
structure Stale (hashi : Hashi) (key : TobKey) : Prop where
  age : key.epoch + NONCE_CERT_MIN_AGE_EPOCHS ≤ hashi.committeeSet.epoch
  keyGen : key.batchIndex = none →
    key.epoch + KEY_GEN_CERT_RETENTION_EPOCHS ≤ hashi.committeeSet.epoch ∧
      ∃ e, key.epoch < e ∧ e < hashi.committeeSet.epoch ∧ e ∈ hashi.committeeSet.committees

inductive BucketEffect (self : Hashi) (now : Nat) (key : TobKey) : Option EpochCertsV1 → Prop
  | keep : BucketEffect self now key (self.tob.lookup key)
  | submit {dealer messagesHash signature} :
      (key.epoch = self.committeeSet.epoch ∨ self.committeeSet.pendingEpoch = some key.epoch) →
      (self.epochCerts key).certs.contains dealer = false →
      BucketEffect self now key (some { self.epochCerts key with
        certs := (self.epochCerts key).certs.upsert dealer ⟨dealer, messagesHash, signature, now⟩ })
  | sealed {bucket presigSeal} : key.epoch = self.committeeSet.epoch →
      key.protocolType = .nonceGeneration → self.tob.lookup key = some bucket →
      bucket.presigSeal = none →
      BucketEffect self now key (some { bucket with presigSeal := some presigSeal })
  | destroy : self.Stale key → BucketEffect self now key none

theorem submitCert_effect {key' : TobKey} {epoch : Nat} {dealer : Address} {messagesHash : Bytes}
    {cert : CommitteeSignature}
    (h : self.submitCert key' epoch dealer messagesHash cert now ctx = .ok hashi')
    (hepoch : epoch = key'.epoch) :
    self.BucketEffect now key (hashi'.tob.lookup key) := by
  simp only [submitCert, assertCanSubmit, EpochCertsV1.submitCertWithSignature, bind_eq_ok,
    require_eq_ok, pure_eq_ok] at h
  obtain ⟨_, ⟨_, -, _, -, hopen⟩, _, ⟨_, -, rfl⟩, rfl⟩ := h
  subst hepoch
  dsimp only
  rw [Bag.lookup_insert_ite]
  split_ifs with hkey hdealer
  · -- the dealer's first submission stays, and with it the bucket
    subst hkey
    unfold epochCerts at hdealer ⊢
    cases hlookup : self.tob.lookup key with
    | none => simp [hlookup, EpochCertsV1.create, VecMap.contains, VecMap.tryGet, VecMap.empty] at hdealer
    | some bucket => exact hlookup ▸ .keep
  · subst hkey
    exact .submit hopen (Bool.not_eq_true _ ▸ hdealer)
  · exact .keep

theorem destroyBucketIfPresent_eq_ok {currentEpoch : Nat} :
    self.destroyBucketIfPresent currentEpoch key = .ok hashi' ↔
      (∀ bucket, self.tob.lookup key = some bucket →
        bucket.epoch + 2 < U64_SIZE ∧ bucket.epoch + 2 ≤ currentEpoch) ∧
      hashi' = { self with tob := self.tob.erase key } := by
  unfold destroyBucketIfPresent
  cases hlookup : self.tob.lookup key with
  | none =>
      have herase : self.tob.erase key = self.tob := Finmap.ext_lookup fun k => by
        rw [Bag.lookup_erase_ite]
        split_ifs with hk
        · rw [hk, hlookup]
        · rfl
      rw [herase]
      exact ⟨fun h => ⟨nofun, (Except.ok.inj h).symm⟩, fun h => congrArg _ h.2.symm⟩
  | some bucket =>
      simp only [EpochCertsV1.destroyAll, bind_eq_ok, addU64_eq_ok, require_eq_ok, pure_eq_ok,
        Option.some.injEq, forall_eq']
      constructor
      · rintro ⟨_, ⟨_, ⟨hfits, rfl⟩, hle⟩, rfl⟩
        exact ⟨⟨hfits, hle⟩, rfl⟩
      · rintro ⟨⟨hfits, hle⟩, rfl⟩
        exact ⟨(), ⟨_, ⟨hfits, rfl⟩, hle⟩, rfl⟩

end Hashi

theorem CertCall.bucketEffect {call : CertCall} (h : call.run env now ctx self = .ok hashi') :
    self.BucketEffect now key (hashi'.tob.lookup key) := by
  have herase : ∀ (hashi : Hashi) (key' : TobKey), (key = key' → self.Stale key) →
      self.BucketEffect now key (hashi.tob.lookup key) →
      self.BucketEffect now key ((hashi.tob.erase key').lookup key) := by
    intro hashi key' hstale hkept
    rw [Bag.lookup_erase_ite]
    split_ifs with hkey
    exacts [.destroy (hstale hkey), hkept]
  cases call with
  | submitDkgCert | submitRotationCert | submitNonceCert => exact Hashi.submitCert_effect h rfl
  | submitPresigDealerSet batchIndex dealerSetDigest cert randomness =>
      simp only [CertCall.run, Hashi.submitPresigDealerSet, bind_eq_ok, pure_eq_ok,
        orAbort_eq_ok] at h
      obtain ⟨_, -, _, -, bucket, hbucket, rfl⟩ := h
      split_ifs with hsealed
      · exact .keep
      · dsimp only
        rw [Bag.lookup_insert_ite]
        split_ifs with hkey
        · subst hkey
          exact .sealed rfl rfl hbucket (by simpa [EpochCertsV1.isSealed] using hsealed)
        · exact .keep
  | destroyKeyGenCerts epoch =>
      simp only [CertCall.run, Hashi.destroyKeyGenCerts, bind_eq_ok, addU64_eq_ok, require_eq_ok,
        Hashi.destroyBucketIfPresent_eq_ok] at h
      obtain ⟨_, -, _, ⟨-, rfl⟩, _, hage, before, hbefore, _, rfl, _, ⟨-, rfl⟩, -, rfl⟩ := h
      obtain ⟨-, hbetween⟩ := CommitteeSet.isBeforePreviousCommittee_eq_ok.mp hbefore
      have hstale : key.epoch = epoch → self.Stale key := by
        rintro rfl
        exact ⟨(Nat.add_le_add_left (by decide) _).trans hage, fun _ => ⟨hage, hbetween⟩⟩
      exact herase _ _ (fun hkey => hstale (congrArg TobKey.epoch hkey))
        (herase _ _ (fun hkey => hstale (congrArg TobKey.epoch hkey)) .keep)
  | destroyNonceCerts epoch batchIndex =>
      simp only [CertCall.run, Hashi.destroyNonceCerts, bind_eq_ok, addU64_eq_ok, require_eq_ok,
        Hashi.destroyBucketIfPresent_eq_ok] at h
      obtain ⟨_, -, _, ⟨-, rfl⟩, _, hage, -, rfl⟩ := h
      refine herase _ _ ?_ .keep
      rintro rfl
      exact ⟨hage, fun hbatch => by cases hbatch⟩

theorem Step.bucketEffect (hstep : Step env w label w') (key : TobKey) (hinv : w.Inv env activated) :
    w.hashi.BucketEffect w.clock key (w'.hashi.tob.lookup key) := by
  have hkeep : w'.hashi.tob = w.hashi.tob →
      w.hashi.BucketEffect w.clock key (w'.hashi.tob.lookup key) := fun h => h ▸ .keep
  cases hstep.taken with
  | advance => exact .keep
  | bridge hfresh hrun => exact hkeep (by rw [(hinv.bridge_refines hfresh hrun).2])
  | reconfig _ hrun => exact hkeep (by rw [(ReconfigCall.refines hrun).2])
  | governance _ hrun =>
      refine hkeep ?_
      rcases GovernanceCall.frame hrun with ⟨_, rfl⟩ | ⟨_, _, _, _, _, -, -, -, hpayload⟩
      · rfl
      · rcases Hashi.executePayload_frame hpayload with ⟨_, _, _, rfl⟩ | ⟨_, _, _, -, -, rfl⟩ <;> rfl
  | publish _ hrun =>
      simp only [Hashi.finishPublish, bind_eq_ok, pure_eq_ok] at hrun
      obtain ⟨_, -, _, -, _, -, _, -, _, -, _, -, rfl⟩ := hrun
      exact .keep
  | @registry _ _ _ entry _ _ hrun =>
      cases entry <;>
      · simp only [RegistryCall.run, Hashi.register, Hashi.updateNextEpochPublicKey,
          Hashi.updateOperatorAddress, Hashi.updateEndpointUrl, Hashi.updateTlsPublicKey,
          Hashi.updateNextEpochEncryptionPublicKey, Hashi.resign, Hashi.withdrawResignation,
          Hashi.removeInactiveMember, Hashi.updateRegistry, bind_eq_ok, pure_eq_ok] at hrun
        obtain ⟨_, -, _, -, rfl⟩ := hrun
        exact .keep
  | certs _ hrun => exact CertCall.bucketEffect hrun

theorem epochs_after_run {s : EpochState} (h : s.After w.epochs) (hinv : w.Inv env activated)
    (hrun : Run (Step env) w tr w') : s.After w'.epochs := by
  induction hrun with
  | nil => exact h
  | snoc hrun hstep ih =>
      have hinv := hinv.run hrun
      exact @Refines.epochs_of_step env _ _ _ [] (fun s' _ => s.After s') (hstep.refines hinv) ih
        fun op s' hmove => ih.step hinv.epochs hmove

theorem epochs_after {id epoch clock : Nat} {tr' : List Label}
    (hreach : Run (Step env) (publish id epoch clock) tr w) (hrun : Run (Step env) w tr' w') :
    w.epochs.After w'.epochs := by
  have hpublish : (publish id epoch clock).epochs.After (publish id epoch clock).epochs :=
    ⟨fun he => absurd he Finmap.notMem_empty, Nat.le_refl _, fun he => he⟩
  have hinit := epochs_after_run hpublish (World.Inv.init id epoch clock) hreach
  exact epochs_after_run ⟨hinit.handedOver, Nat.le_refl _, fun he => he⟩ (World.Inv.reachable hreach) hrun

end HashiBridge.Chain
