import HashiBridge.Chain.Views

/-!
# Calls that move neither the ledger nor the epochs

The launch switch, the member registry and certificate submission.
-/

namespace HashiBridge.Chain

open Lib HashiBridge.Core Btc

variable {env : Env} {self hashi' : Hashi} {now : Nat} {ctx : TxContext}

structure Quiet (hashi hashi' : Hashi) : Prop where
  id_eq : hashi'.id = hashi.id
  bitcoin_eq : hashi'.bitcoin = hashi.bitcoin
  supply_eq : hashi'.treasury.supply = hashi.treasury.supply
  presig_eq : hashi'.presigAllocator = hashi.presigAllocator
  epochs_eq : hashi'.committeeSet.epochs = hashi.committeeSet.epochs

theorem Quiet.trans {a b c : Hashi} (h : Quiet a b) (h' : Quiet b c) : Quiet a c :=
  ⟨h'.id_eq.trans h.id_eq, h'.bitcoin_eq.trans h.bitcoin_eq, h'.supply_eq.trans h.supply_eq,
    h'.presig_eq.trans h.presig_eq, h'.epochs_eq.trans h.epochs_eq⟩

theorem Quiet.ledger_eq (h : Quiet self hashi') (circulating : Nat) :
    hashi'.ledger circulating = self.ledger circulating := by
  have hepoch : hashi'.committeeSet.epoch = self.committeeSet.epoch :=
    congrArg EpochState.epoch h.epochs_eq
  simp only [Hashi.ledger, h.bitcoin_eq, h.supply_eq, h.presig_eq, hepoch]

/-! ## The launch switch -/

theorem Hashi.finishPublish_quiet {upgradeCap : UpgradeCap} {bitcoinChainId : Address}
    {guardianUrl guardianNodeUrl : String} {guardianBtcPublicKey : Bytes}
    {confirmations delay : Option Nat}
    (h : self.finishPublish env upgradeCap bitcoinChainId guardianUrl guardianNodeUrl
      guardianBtcPublicKey confirmations delay = .ok hashi') :
    Quiet self hashi' ∧ hashi'.proposals = self.proposals := by
  simp only [finishPublish, Treasury.registerTreasuryCap, Treasury.registerMetadataCap, bind_eq_ok,
    pure_eq_ok, require_eq_ok] at h
  obtain ⟨_, -, _, -, _, -, _, -, _, ⟨_, hcap, rfl⟩, _, ⟨_, -, rfl⟩, rfl⟩ := h
  -- the registered capability has minted nothing
  exact ⟨⟨rfl, rfl, by simp [Treasury.supply, hcap], rfl, rfl⟩, rfl⟩

/-! ## The member registry -/

namespace CommitteeSet

variable {set set' : CommitteeSet} {validator : Address}

theorem updateMember_epochs {update : MemberInfo → MemberInfo}
    (h : set.updateMember validator ctx update = .ok set') : set'.epochs = set.epochs := by
  simp only [CommitteeSet.updateMember, bind_eq_ok, pure_eq_ok] at h
  obtain ⟨_, -, _, -, rfl⟩ := h
  rfl

theorem setMemberIgnored_epochs {ignored : Bool}
    (h : set.setMemberIgnored validator ignored = .ok set') : set'.epochs = set.epochs := by
  simp only [CommitteeSet.setMemberIgnored, bind_eq_ok, pure_eq_ok] at h
  obtain ⟨_, -, _, -, rfl⟩ := h
  rfl

end CommitteeSet

theorem Hashi.updateRegistry_quiet {update : CommitteeSet → Except Abort CommitteeSet}
    (hupdate : ∀ set set', update set = .ok set' → set'.epochs = set.epochs)
    (h : self.updateRegistry update = .ok hashi') :
    Quiet self hashi' ∧ hashi'.proposals = self.proposals := by
  simp only [updateRegistry, bind_eq_ok, pure_eq_ok] at h
  obtain ⟨_, -, set, hset, rfl⟩ := h
  exact ⟨⟨rfl, rfl, rfl, rfl, hupdate _ _ hset⟩, rfl⟩

theorem RegistryCall.quiet {call : RegistryCall} (h : call.run env ctx self = .ok hashi') :
    Quiet self hashi' ∧ hashi'.proposals = self.proposals := by
  cases call <;>
    simp only [RegistryCall.run, Hashi.register, Hashi.updateNextEpochPublicKey,
      Hashi.updateOperatorAddress, Hashi.updateEndpointUrl, Hashi.updateTlsPublicKey,
      Hashi.updateNextEpochEncryptionPublicKey, Hashi.resign, Hashi.withdrawResignation,
      Hashi.removeInactiveMember] at h <;>
    refine Hashi.updateRegistry_quiet (fun set set' hset => ?_) h
  case register activeValidators =>
    simp only [CommitteeSet.newMember, CommitteeSet.registerMember, bind_eq_ok, pure_eq_ok] at hset
    obtain ⟨_, -, _, -, _, -, rfl⟩ := hset
    rfl
  case updateNextEpochPublicKey validator key proof =>
    simp only [CommitteeSet.setNextEpochPublicKey, bind_eq_ok] at hset
    obtain ⟨_, -, hset⟩ := hset
    exact CommitteeSet.updateMember_epochs hset
  case updateOperatorAddress validator operator => exact CommitteeSet.updateMember_epochs hset
  case updateEndpointUrl validator endpointUrl => exact CommitteeSet.updateMember_epochs hset
  case updateTlsPublicKey validator key proof =>
    simp only [CommitteeSet.setTlsPublicKey, CommitteeSet.writeTlsPublicKey, bind_eq_ok,
      pure_eq_ok] at hset
    obtain ⟨_, -, _, -, _, -, _, -, _, -, _, -, _, -, _, -, _, -, rfl⟩ := hset
    rfl
  case updateNextEpochEncryptionPublicKey validator key =>
    simp only [CommitteeSet.setNextEpochEncryptionPublicKey, bind_eq_ok] at hset
    obtain ⟨_, -, hset⟩ := hset
    exact CommitteeSet.updateMember_epochs hset
  case resign validator =>
    simp only [CommitteeSet.requestResignation, bind_eq_ok, pure_eq_ok] at hset
    obtain ⟨_, -, _, -, _, -, _, -, _, -, rfl⟩ := hset
    rfl
  case withdrawResignation validator =>
    simp only [CommitteeSet.clearResignation, bind_eq_ok, pure_eq_ok] at hset
    obtain ⟨_, -, _, -, _, -, _, -, rfl⟩ := hset
    rfl
  case removeInactiveMember activeValidators validator =>
    simp only [CommitteeSet.removeInactiveMember, CommitteeSet.removeMember, bind_eq_ok,
      pure_eq_ok] at hset
    obtain ⟨_, -, _, -, _, -, _, -, _, -, _, -, _, -, rfl⟩ := hset
    rfl

/-! ## Certificates -/

theorem quiet_tob (self : Hashi) (tob : Bag TobKey EpochCertsV1) :
    Quiet self { self with tob } := ⟨rfl, rfl, rfl, rfl, rfl⟩

theorem Hashi.submitCert_tob {key : TobKey} {epoch : Nat} {dealer : Address} {messagesHash : Bytes}
    {cert : CommitteeSignature}
    (h : self.submitCert key epoch dealer messagesHash cert now ctx = .ok hashi') :
    ∃ tob, hashi' = { self with tob } := by
  simp only [submitCert, bind_eq_ok, pure_eq_ok] at h
  obtain ⟨_, -, _, -, rfl⟩ := h
  exact ⟨_, rfl⟩

theorem Hashi.destroyBucketIfPresent_tob {currentEpoch : Nat} {key : TobKey}
    (h : self.destroyBucketIfPresent currentEpoch key = .ok hashi') :
    ∃ tob, hashi' = { self with tob } := by
  unfold destroyBucketIfPresent at h
  split at h
  · cases h
    exact ⟨_, rfl⟩
  · simp only [bind_eq_ok, pure_eq_ok] at h
    obtain ⟨_, -, rfl⟩ := h
    exact ⟨_, rfl⟩

theorem CertCall.tob_only {call : CertCall} (h : call.run env now ctx self = .ok hashi') :
    ∃ tob, hashi' = { self with tob } := by
  cases call with
  | submitDkgCert | submitRotationCert | submitNonceCert => exact Hashi.submitCert_tob h
  | submitPresigDealerSet batchIndex dealerSetDigest cert randomness =>
      simp only [CertCall.run, Hashi.submitPresigDealerSet, bind_eq_ok, pure_eq_ok] at h
      obtain ⟨_, -, _, -, bucket, -, rfl⟩ := h
      split_ifs
      exacts [⟨_, rfl⟩, ⟨_, rfl⟩]
  | destroyKeyGenCerts epoch =>
      simp only [CertCall.run, Hashi.destroyKeyGenCerts, bind_eq_ok] at h
      obtain ⟨_, -, _, -, _, -, _, -, _, -, dropped, hdropped, h⟩ := h
      obtain ⟨tob, rfl⟩ := Hashi.destroyBucketIfPresent_tob hdropped
      obtain ⟨tob', rfl⟩ := Hashi.destroyBucketIfPresent_tob h
      exact ⟨tob', rfl⟩
  | destroyNonceCerts epoch batchIndex =>
      simp only [CertCall.run, Hashi.destroyNonceCerts, bind_eq_ok] at h
      obtain ⟨_, -, _, -, _, -, h⟩ := h
      exact Hashi.destroyBucketIfPresent_tob h

theorem CertCall.quiet {call : CertCall} (h : call.run env now ctx self = .ok hashi') :
    Quiet self hashi' ∧ hashi'.proposals = self.proposals := by
  obtain ⟨tob, rfl⟩ := CertCall.tob_only h
  exact ⟨quiet_tob self tob, rfl⟩

end HashiBridge.Chain
