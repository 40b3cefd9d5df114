import HashiBridge.Chain.Lemmas.Reachable

/-!
# What a step does to the configuration stores

`Follows` says how a store may change: no key is lost, no value changes its type, and the two pinned
keys keep their value.
-/

namespace HashiBridge.Core

open Lib

namespace Value

variable {a b c : Value}

theorem sameVariant_refl (a : Value) : a.sameVariant a = true := by
  cases a <;> rfl

theorem sameVariant_trans (h : a.sameVariant b = true) (h' : b.sameVariant c = true) :
    a.sameVariant c = true := by
  cases a <;> cases b <;> first | (cases c <;> first | rfl | cases h'; done) | cases h

theorem u64_of_sameVariant {n : Nat} (h : (u64 n).sameVariant b = true) : ∃ m, b = .u64 m := by
  cases b <;> first | exact ⟨_, rfl⟩ | cases h

theorem bool_of_sameVariant {p : Bool} (h : (bool p).sameVariant b = true) : ∃ q, b = .bool q := by
  cases b <;> first | exact ⟨_, rfl⟩ | cases h

theorem string_of_sameVariant {s : String} (h : (string s).sameVariant b = true) :
    ∃ t, b = .string t := by
  cases b <;> first | exact ⟨_, rfl⟩ | cases h

end Value

theorem Config.tryGet_upsert (config : Config) (key key' : String) (value : Value) :
    (config.upsert key value).tryGet key' = if key' = key then some value else config.tryGet key' :=
  VecMap.tryGet_upsert ..

theorem Config.tryGet_of_notContains {config : Config} {key : String}
    (h : config.contains key = false) : config.tryGet key = none := by
  simpa [Config.contains, Config.tryGet, VecMap.contains] using h

end HashiBridge.Core

namespace HashiBridge.Chain

open Lib HashiBridge.Core Btc

variable {env : Env} {self hashi' : Hashi} {now : Nat} {ctx : TxContext}

/-! ## Stores that follow one another -/

/-- The keys that the package pins for the deployment's lifetime. -/
def Pinned (key : String) : Prop :=
  key = BtcConfig.KEY_BITCOIN_CHAIN_ID ∨ key = Config.GUARDIAN_BTC_PUBLIC_KEY_KEY

theorem not_pinned_of_governable {key : String}
    (h : (Config.isGovernableKey key && BtcConfig.isGovernableKey key) = true) : ¬ Pinned key := by
  simp only [Config.isGovernableKey, BtcConfig.isGovernableKey, Bool.and_eq_true, bne_iff_ne] at h
  exact fun hkey => hkey.elim h.2 h.1

structure Follows (config config' : Config) : Prop where
  typed : ∀ {key v}, config.tryGet key = some v →
    ∃ v', config'.tryGet key = some v' ∧ v.sameVariant v' = true
  pinned : ∀ {key v}, Pinned key → config.tryGet key = some v → config'.tryGet key = some v

namespace Follows

variable {config config' config'' : Config} {key : String} {value : Value}

theorem refl (config : Config) : Follows config config :=
  ⟨fun h => ⟨_, h, Value.sameVariant_refl _⟩, fun _ h => h⟩

theorem trans (h : Follows config config') (h' : Follows config' config'') :
    Follows config config'' := by
  refine ⟨fun hv => ?_, fun hkey hv => h'.pinned hkey (h.pinned hkey hv)⟩
  obtain ⟨v', hv', hsame⟩ := h.typed hv
  obtain ⟨v'', hv'', hsame'⟩ := h'.typed hv'
  exact ⟨v'', hv'', Value.sameVariant_trans hsame hsame'⟩

theorem u64 (h : Follows config config') {n : Nat} (hn : config.tryGet key = some (.u64 n)) :
    ∃ m, config'.tryGet key = some (.u64 m) := by
  obtain ⟨v, hv, hsame⟩ := h.typed hn
  obtain ⟨m, rfl⟩ := Value.u64_of_sameVariant hsame
  exact ⟨m, hv⟩

theorem bool (h : Follows config config') {p : Bool} (hp : config.tryGet key = some (.bool p)) :
    ∃ q, config'.tryGet key = some (.bool q) := by
  obtain ⟨v, hv, hsame⟩ := h.typed hp
  obtain ⟨q, rfl⟩ := Value.bool_of_sameVariant hsame
  exact ⟨q, hv⟩

theorem string (h : Follows config config') {s : String} (hs : config.tryGet key = some (.string s)) :
    ∃ t, config'.tryGet key = some (.string t) := by
  obtain ⟨v, hv, hsame⟩ := h.typed hs
  obtain ⟨t, rfl⟩ := Value.string_of_sameVariant hsame
  exact ⟨t, hv⟩

theorem upsert (h : Follows config config')
    (htyped : ∀ v, config.tryGet key = some v → v.sameVariant value = true)
    (hpinned : Pinned key → config.tryGet key = none) :
    Follows config (config'.upsert key value) := by
  refine ⟨fun {key' v} hv => ?_, fun {key' v} hkey hv => ?_⟩
  · rw [Config.tryGet_upsert]
    split_ifs with heq
    · subst heq
      exact ⟨value, rfl, htyped v hv⟩
    · exact h.typed hv
  · rw [Config.tryGet_upsert]
    split_ifs with heq
    · subst heq
      rw [hpinned hkey] at hv
      cases hv
    · exact h.pinned hkey hv

theorem upsertAll {entries : VecMap String Value}
    (htyped : ∀ entry ∈ entries.contents, ∀ v, config.tryGet entry.1 = some v →
      v.sameVariant entry.2 = true)
    (hpinned : ∀ entry ∈ entries.contents, ¬ Pinned entry.1) :
    Follows config (upsertAll config entries) := by
  unfold Chain.upsertAll
  -- every prefix of the writes follows the first store
  suffices hfold : ∀ (contents : List (String × Value)) (config' : Config),
      (∀ entry ∈ contents, ∀ v, config.tryGet entry.1 = some v → v.sameVariant entry.2 = true) →
      (∀ entry ∈ contents, ¬ Pinned entry.1) → Follows config config' →
      Follows config (contents.foldl (fun config entry => config.upsert entry.1 entry.2) config') from
    hfold _ _ htyped hpinned (.refl config)
  intro contents
  induction contents with
  | nil => exact fun config' _ _ h => h
  | cons entry rest ih =>
      intro config' htyped hpinned h
      rw [List.forall_mem_cons] at htyped hpinned
      exact ih _ htyped.2 hpinned.2 (h.upsert htyped.1 fun hkey => absurd hkey hpinned.1)

theorem update {entries : VecMap String Value}
    (hvalid : ∀ entry ∈ entries.contents, ¬ Pinned entry.1 ∧
      config.isValidConfigUpdate entry.1 entry.2 = true) :
    Follows config (Chain.upsertAll config entries) := by
  refine upsertAll (fun entry hentry v hv => ?_) fun entry hentry => (hvalid entry hentry).1
  have hupdate := (hvalid entry hentry).2
  rwa [Config.isValidConfigUpdate, hv] at hupdate

theorem add {entries : VecMap String Value}
    (hvalid : ∀ entry ∈ entries.contents, ¬ Pinned entry.1 ∧ config.contains entry.1 = false) :
    Follows config (Chain.upsertAll config entries) := by
  refine upsertAll (fun entry hentry v hv => ?_) fun entry hentry => (hvalid entry hentry).1
  rw [Config.tryGet_of_notContains (hvalid entry hentry).2] at hv
  cases hv

end Follows

/-- Every MPC value is in its range, no retired key is present and the parameters are consistent. -/
structure MpcValid (config : Config) : Prop where
  ranges : ∀ {key v}, config.tryGet key = some v → MpcConfig.isValidValue key v = true
  consistent : MpcConfig.isConsistent config = .ok true

theorem MpcValid.upsertAll {config : Config} {entries : VecMap String Value} (h : MpcValid config)
    (hentries : ∀ entry ∈ entries.contents, MpcConfig.isValidValue entry.1 entry.2 = true)
    (hconsistent : MpcConfig.isConsistent (upsertAll config entries) = .ok true) :
    MpcValid (upsertAll config entries) := by
  suffices hranges : ∀ key v, (Chain.upsertAll config entries).tryGet key = some v →
      MpcConfig.isValidValue key v = true from ⟨hranges _ _, hconsistent⟩
  have hold : ∀ key v, config.tryGet key = some v → MpcConfig.isValidValue key v = true :=
    fun _ _ => h.ranges
  unfold Chain.upsertAll
  generalize entries.contents = contents at hentries
  clear hconsistent h
  induction contents generalizing config with
  | nil => exact hold
  | cons entry rest ih =>
      rw [List.forall_mem_cons] at hentries
      refine ih (fun key v hv => ?_) hentries.2
      rw [Config.tryGet_upsert] at hv
      split_ifs at hv with hkey
      · cases hv
        rw [hkey]
        exact hentries.1
      · exact hold key v hv

/-! ## Effects -/

structure Stores where
  config : Config
  epochConfig : Config
  launched : Bool

def Hashi.stores (self : Hashi) : Stores :=
  ⟨self.config, self.epochConfig, self.versioning.upgradeCap.isSome⟩

def launchConfig (config : Config) (bitcoinChainId : Address) (guardianUrl guardianNodeUrl : String)
    (guardianBtcPublicKey : Bytes) (confirmations delay : Option Nat) : Config :=
  Hashi.setOptional BtcConfig.setBitcoinDepositTimeDelayMs
    (Hashi.setOptional BtcConfig.setBitcoinConfirmationThreshold
      ((((BtcConfig.setBitcoinChainId config bitcoinChainId).setGuardianUrl
        guardianUrl).setGuardianNodeUrl guardianNodeUrl).upsert Config.GUARDIAN_BTC_PUBLIC_KEY_KEY
        (.bytes guardianBtcPublicKey)) confirmations) delay

/-- What a call does to the stores, and what it checked. A proposal is executed by a committee. -/
inductive ConfigEffect (self : Hashi) : Stores → Prop
  | kept : ConfigEffect self self.stores
  | launch {bitcoinChainId guardianUrl guardianNodeUrl guardianBtcPublicKey confirmations delay}
      (unlaunched : self.versioning.upgradeCap = none) :
      ConfigEffect self ⟨launchConfig self.config bitcoinChainId guardianUrl guardianNodeUrl
        guardianBtcPublicKey confirmations delay, self.epochConfig, true⟩
  | update {entries} (seated : self.committeeSet.epoch ∈ self.committeeSet.committees)
      (valid : ∀ entry ∈ entries.contents, ¬ Pinned entry.1 ∧
        self.config.isValidConfigUpdate entry.1 entry.2 = true) :
      ConfigEffect self { self.stores with config := upsertAll self.config entries }
  | updateEpoch {entries}
      (valid : ∀ entry ∈ entries.contents, ¬ Pinned entry.1 ∧
        self.epochConfig.isValidConfigUpdate entry.1 entry.2 = true)
      (ranges : ∀ entry ∈ entries.contents, MpcConfig.isValidValue entry.1 entry.2 = true)
      (consistent : MpcConfig.isConsistent (upsertAll self.epochConfig entries) = .ok true) :
      ConfigEffect self { self.stores with epochConfig := upsertAll self.epochConfig entries }
  | add {entries} (seated : self.committeeSet.epoch ∈ self.committeeSet.committees)
      (valid : ∀ entry ∈ entries.contents, ¬ Pinned entry.1 ∧ self.config.contains entry.1 = false) :
      ConfigEffect self { self.stores with config := upsertAll self.config entries }
  | addEpoch {entries}
      (valid : ∀ entry ∈ entries.contents, ¬ Pinned entry.1 ∧
        self.epochConfig.contains entry.1 = false)
      (ranges : ∀ entry ∈ entries.contents, MpcConfig.isValidValue entry.1 entry.2 = true)
      (consistent : MpcConfig.isConsistent (upsertAll self.epochConfig entries) = .ok true) :
      ConfigEffect self { self.stores with epochConfig := upsertAll self.epochConfig entries }
  | pause {pause : Bool} (seated : self.committeeSet.epoch ∈ self.committeeSet.committees) :
      ConfigEffect self { self.stores with config := self.config.setPaused pause }

theorem ConfigEffect.of_eq (h : hashi'.stores = self.stores) : ConfigEffect self hashi'.stores := by
  rw [h]
  exact .kept

/-! ## Calls -/

theorem Hashi.finishPublish_configEffect {upgradeCap : UpgradeCap} {bitcoinChainId : Address}
    {guardianUrl guardianNodeUrl : String} {guardianBtcPublicKey : Bytes}
    {confirmations delay : Option Nat}
    (h : self.finishPublish env upgradeCap bitcoinChainId guardianUrl guardianNodeUrl
      guardianBtcPublicKey confirmations delay = .ok hashi') : ConfigEffect self hashi'.stores := by
  simp only [finishPublish, Config.setGuardianBtcPublicKey, Versioning.setUpgradeCap, bind_eq_ok,
    pure_eq_ok, require_eq_ok] at h
  obtain ⟨_, -, _, -, _, ⟨_, hnone, rfl⟩, _, ⟨_, -, _, -, _, -, rfl⟩, _, -, _, -, rfl⟩ := h
  exact .launch hnone

theorem assertConsistent_eq_ok {config : Config} (h : assertConsistent config = .ok ()) :
    MpcConfig.isConsistent config = .ok true := by
  simp only [assertConsistent, bind_eq_ok, require_eq_ok] at h
  obtain ⟨_, hconsistent, rfl⟩ := h
  exact hconsistent

theorem Hashi.executePayload_configEffect {newPackage : Address} {data : ProposalData}
    (hseated : self.committeeSet.epoch ∈ self.committeeSet.committees)
    (h : self.executePayload newPackage data = .ok hashi') : ConfigEffect self hashi'.stores := by
  cases data with
  | updateConfig entries =>
      simp only [executePayload, UpdateConfig.execute, UpdateConfig.assertValidEntry,
        assertGovernable, bind_eq_ok, pure_eq_ok, forM_eq_ok, require_eq_ok] at h
      obtain ⟨_, hvalid, rfl⟩ := h
      refine .update hseated fun entry hentry => ?_
      obtain ⟨_, hgovernable, hupdate⟩ := hvalid entry hentry
      exact ⟨not_pinned_of_governable hgovernable, hupdate⟩
  | updateEpochConfig entries =>
      simp only [executePayload, UpdateEpochConfig.execute, UpdateEpochConfig.assertValidEntry,
        assertGovernable, bind_eq_ok, pure_eq_ok, forM_eq_ok, require_eq_ok, Bool.and_eq_true] at h
      obtain ⟨_, hvalid, _, hconsistent, rfl⟩ := h
      refine .updateEpoch (fun entry hentry => ?_) (fun entry hentry => ?_)
        (assertConsistent_eq_ok hconsistent)
      · obtain ⟨_, hgovernable, hupdate, -⟩ := hvalid entry hentry
        exact ⟨not_pinned_of_governable (Bool.and_eq_true_iff.mpr hgovernable), hupdate⟩
      · obtain ⟨_, -, -, hrange⟩ := hvalid entry hentry
        exact hrange
  | addConfig epoch entries =>
      simp only [executePayload, AddConfig.execute, AddConfig.assertValidEntry, assertGovernable,
        bind_eq_ok, forM_eq_ok, require_eq_ok] at h
      obtain ⟨_, hvalid, h⟩ := h
      have habsent : ∀ entry ∈ entries.contents, ¬ Pinned entry.1 ∧
          (AddConfig.store self epoch).contains entry.1 = false := fun entry hentry => by
        obtain ⟨_, hgovernable, _, habsent, -⟩ := hvalid entry hentry
        exact ⟨not_pinned_of_governable hgovernable, habsent⟩
      cases epoch with
      | false =>
          cases h
          exact .add hseated habsent
      | true =>
          simp only [bind_eq_ok, pure_eq_ok] at h
          obtain ⟨_, hconsistent, rfl⟩ := h
          refine .addEpoch habsent (fun entry hentry => ?_) (assertConsistent_eq_ok hconsistent)
          obtain ⟨_, -, _, -, hrange⟩ := hvalid entry hentry
          exact hrange.resolve_left (by decide)
  | upgrade digest exclusive =>
      simp only [executePayload, Upgrade.executeAndFinalize, Versioning.authorizeUpgrade,
        Versioning.commitUpgrade, bind_eq_ok, pure_eq_ok, orAbort_eq_ok, require_eq_ok] at h
      obtain ⟨_, ⟨cap, hcap, _, -, rfl⟩, _, -, _, ⟨_, -, _, -, _, -, _, -, rfl⟩, rfl⟩ := h
      exact .of_eq (by simp [stores, hcap])
  | enableVersion version =>
      simp only [executePayload, EnableVersion.execute, Versioning.enableVersion, bind_eq_ok,
        pure_eq_ok] at h
      obtain ⟨_, ⟨_, -, rfl⟩, rfl⟩ := h
      exact .kept
  | disableVersion version =>
      simp only [executePayload, DisableVersion.execute, Versioning.disableVersion, bind_eq_ok,
        pure_eq_ok] at h
      obtain ⟨_, ⟨_, -, _, -, rfl⟩, rfl⟩ := h
      exact .kept
  | ignoreMember validatorAddress ignored =>
      simp only [executePayload, IgnoreMember.execute, bind_eq_ok, pure_eq_ok] at h
      obtain ⟨_, -, rfl⟩ := h
      exact .kept
  | emergencyPause pause =>
      cases h
      exact .pause hseated

theorem GovernanceCall.configEffect {call : GovernanceCall} (h : call.run now ctx self = .ok hashi') :
    ConfigEffect self hashi'.stores := by
  rcases GovernanceCall.frame h with ⟨_, rfl⟩ | ⟨_, _, _, _, _, -, -, hseated, hpayload⟩
  · exact .kept
  · have heffect := Hashi.executePayload_configEffect (by exact hseated) hpayload
    -- archiving a proposal leaves the stores alone
    generalize hashi'.stores = stores at heffect ⊢
    cases heffect with
    | kept => exact .kept
    | launch hnone => exact .launch hnone
    | update hseated hvalid => exact .update hseated hvalid
    | updateEpoch hvalid hranges hconsistent => exact .updateEpoch hvalid hranges hconsistent
    | add hseated hvalid => exact .add hseated hvalid
    | addEpoch hvalid hranges hconsistent => exact .addEpoch hvalid hranges hconsistent
    | pause hseated => exact .pause hseated

theorem RegistryCall.stores_eq {call : RegistryCall} (h : call.run env ctx self = .ok hashi') :
    hashi'.stores = self.stores := by
  cases call <;>
  · simp only [RegistryCall.run, Hashi.register, Hashi.updateNextEpochPublicKey,
      Hashi.updateOperatorAddress, Hashi.updateEndpointUrl, Hashi.updateTlsPublicKey,
      Hashi.updateNextEpochEncryptionPublicKey, Hashi.resign, Hashi.withdrawResignation,
      Hashi.removeInactiveMember, Hashi.updateRegistry, bind_eq_ok, pure_eq_ok] at h
    obtain ⟨_, -, _, -, rfl⟩ := h
    rfl

theorem Step.configEffect {w w' : World} {label : Label} {activated : List Nat}
    (hinv : w.Inv env activated) (hstep : Step env w label w') :
    ConfigEffect w.hashi w'.hashi.stores := by
  cases hstep.taken with
  | advance => exact .kept
  | bridge hfresh hrun =>
      obtain ⟨-, hframe⟩ := hinv.bridge_refines hfresh hrun
      rw [hframe]
      exact .kept
  | reconfig _ hrun =>
      obtain ⟨-, hframe⟩ := ReconfigCall.refines hrun
      rw [hframe]
      exact .kept
  | governance _ hrun => exact GovernanceCall.configEffect hrun
  | publish _ hrun => exact Hashi.finishPublish_configEffect hrun
  | registry _ hrun => exact .of_eq (RegistryCall.stores_eq hrun)
  | certs _ hrun =>
      obtain ⟨tob, rfl⟩ := CertCall.tob_only hrun
      exact .kept

end HashiBridge.Chain
