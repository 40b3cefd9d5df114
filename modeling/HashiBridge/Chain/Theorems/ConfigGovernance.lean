import HashiBridge.Chain.Lemmas.ConfigSteps

/-!
# Configuration governance

Whatever proposals are created, drift and execute, the stores follow the published ones and the
epoch store stays valid, and with it every copy that a committee pins.
-/

namespace HashiBridge.Chain

open Lib HashiBridge.Core Btc

variable {env : Env} {activated : List Nat} {w w' : World} {label : Label} {tr : List Label}

def publishedConfig : Config := BtcConfig.initDefaults Config.create

def publishedEpochConfig : Config := MpcConfig.initDefaults Config.empty

/-! ## Committees -/

theorem newCommittee_epochConfig {epoch : Nat} {members : List CommitteeMember} {epochConfig : Config}
    {c : Committee} (h : newCommittee epoch members epochConfig = .ok c) :
    c.epochConfig = epochConfig := by
  unfold newCommittee at h
  split_ifs at h
  split at h <;> cases h
  rfl

theorem Hashi.startReconfig_pins {self hashi' : Hashi} {ctx : TxContext}
    {validatorSet : VecMap Address Nat} (h : self.startReconfig env validatorSet ctx = .ok hashi') :
    (self.committeeSet.mpcPublicKey ≠ [] ∨ self.versioning.upgradeCap.isSome) ∧
    ctx.epoch ∉ self.committeeSet.committees ∧ ∃ c, c.epochConfig = self.epochConfig ∧
      hashi'.committeeSet.committees = self.committeeSet.committees.insert ctx.epoch c := by
  simp only [startReconfig, assertGenesisLaunchAuthorized, CommitteeSet.startReconfigFromVotingPowers,
    CommitteeSet.newCommitteeFromVotingPowers, bind_eq_ok, pure_eq_ok, require_eq_ok,
    Bag.add_eq_ok] at h
  obtain ⟨_, -, _, -, _, -, _, hlaunched, _, ⟨_, -, _, hnone, _, -, committee, ⟨_, -, hnew⟩, _,
    ⟨-, rfl⟩, rfl⟩, rfl⟩ := h
  refine ⟨hlaunched, hnone, committee, newCommittee_epochConfig hnew, ?_⟩
  rw [newCommittee_epoch hnew]

inductive CommitteeEffect (env : Env) (w : World) (s : EpochState) : Prop
  | kept (same : s = w.epochs)
  | start {c : Committee} (pins : c.epochConfig = w.hashi.epochConfig)
      (launched : w.epochs.mpcPublicKey ≠ [] ∨ w.hashi.versioning.upgradeCap.isSome)
      (new : w.epoch ∉ w.epochs.committees)
      (committees : s.committees = w.epochs.committees.insert w.epoch c)
  | move {op : EpochOp} (other : ∀ c, op ≠ .start c)
      (step : EpochState.Step (Certifies env w.hashi) w.epoch w.epochs op s)

theorem Step.committeeEffect (hinv : w.Inv env activated) (hstep : Step env w label w') :
    CommitteeEffect env w w'.epochs := by
  obtain ⟨ops, heffect, hrun⟩ := (hstep.refines hinv).epochs
  by_cases hreconfig : ∃ sender digest fresh entry, label = .call sender digest fresh (.reconfig entry)
  case neg =>
    have hops : ops = [] := by
      unfold Label.EpochEffect at heffect
      split at heffect
      · exact absurd ⟨_, _, _, _, rfl⟩ hreconfig
      · exact heffect
    subst hops
    exact .kept hrun.of_nil
  obtain ⟨sender, digest, fresh, entry, rfl⟩ := hreconfig
  obtain ⟨op, hop, rfl⟩ := heffect
  have hmove := hrun.of_single
  cases entry with
  | startReconfig validatorSet =>
      simp only [Step, exec, Call.run, ReconfigCall.run, keepCirculating, bind_eq_ok, pure_eq_ok] at hstep
      obtain ⟨_, -, ⟨hashi', _⟩, ⟨_, hstart, heq⟩, rfl⟩ := hstep
      cases heq
      obtain ⟨hlaunched, hnew, c, hpins, hcommittees⟩ := Hashi.startReconfig_pins hstart
      exact .start hpins hlaunched hnew hcommittees
  | submitCommitteeHandoff epoch cert =>
      obtain ⟨-, rfl⟩ := hop
      exact .move (by simp) hmove
  | endReconfig mpcPublicKey mpcCert =>
      obtain ⟨-, rfl⟩ := hop
      exact .move (by simp) hmove
  | abortReconfig epoch =>
      cases hop
      exact .move (by simp) hmove

namespace CommitteeEffect

variable {s : EpochState} {e : Nat} {c : Committee}

theorem origin (h : CommitteeEffect env w s) (hc : s.committees.lookup e = some c) :
    w.epochs.committees.lookup e = some c ∨ c.epochConfig = w.hashi.epochConfig := by
  cases h with
  | kept same => exact .inl (same ▸ hc)
  | @start c' pins _ _ committees =>
      rcases Bag.lookup_of_insert (committees ▸ hc) with ⟨-, rfl⟩ | hc
      exacts [.inr pins, .inl hc]
  | move other step =>
      left
      cases step with
      | start => exact absurd rfl (other _)
      | handoff | genesis | finish => exact hc
      | abort => exact Bag.lookup_of_erase hc

theorem unlaunched (h : CommitteeEffect env w s) (hcap : w.hashi.versioning.upgradeCap = none)
    (hempty : w.epochs.committees = ∅) (hkey : w.epochs.mpcPublicKey = []) : s = w.epochs := by
  cases h with
  | kept same => exact same
  | start _ launched => simp [hcap, hkey] at launched
  | move other step =>
      cases step with
      | start => exact absurd rfl (other _)
      | handoff _ hlaunched => exact absurd hkey hlaunched
      | genesis _ hmem | finish _ hmem | abort _ _ hmem =>
          rw [hempty] at hmem
          exact absurd hmem Finmap.notMem_empty

theorem committee_kept (h : CommitteeEffect env w s) (hinv : w.Inv env activated)
    (hc : w.epochs.committees.lookup e = some c ∨ e ∉ w.epochs.committees ∧ e < w.epoch) :
    s.committees.lookup e = some c ∨ e ∉ s.committees ∧ e < w.epoch := by
  cases h with
  | kept same => rwa [same]
  | start _ _ new committees =>
      rw [committees, Bag.lookup_insert_ite]
      rcases hc with hc | ⟨hgone, hlt⟩
      · have hne : e ≠ w.epoch := by
          rintro rfl
          exact new (Bag.mem_of_lookup hc)
        exact .inl (by rw [if_neg hne, hc])
      · refine .inr ⟨fun hmem => ?_, hlt⟩
        rcases Finmap.mem_insert.mp hmem with rfl | hmem
        · exact Nat.lt_irrefl _ hlt
        · exact hgone hmem
  | move other step =>
      cases step with
      | start => exact absurd rfl (other _)
      | handoff | genesis | finish => exact hc
      | @abort pending hpending hne hmem =>
          have hle := (hinv.epochs.pending_mem (p := pending.epoch)
            (by rw [EpochState.pendingEpoch, hpending]; rfl)).2
          by_cases he : e = pending.epoch
          · subst he
            exact .inr ⟨fun hmem => (Finmap.mem_erase.mp hmem).1 rfl, by omega⟩
          · rcases hc with hc | ⟨hgone, hlt⟩
            · exact .inl (by rw [Bag.lookup_erase_ite, if_neg he, hc])
            · exact .inr ⟨fun hmem => hgone (Finmap.mem_erase.mp hmem).2, hlt⟩

end CommitteeEffect

/-! ## The stores of a reachable state -/

structure LaunchKeys (config : Config) : Prop where
  chainId : ∃ id, config.tryGet BtcConfig.KEY_BITCOIN_CHAIN_ID = some (.address id)
  guardianKey : ∃ key, config.tryGet Config.GUARDIAN_BTC_PUBLIC_KEY_KEY = some (.bytes key)
  guardianUrl : ∃ url, config.tryGet Config.GUARDIAN_URL_KEY = some (.string url)
  guardianNodeUrl : ∃ url, config.tryGet Config.GUARDIAN_NODE_URL_KEY = some (.string url)

theorem LaunchKeys.follows {config config' : Config} (h : LaunchKeys config)
    (hfollows : Follows config config') : LaunchKeys config' where
  chainId := by
    obtain ⟨id, hid⟩ := h.chainId
    exact ⟨id, hfollows.pinned (.inl rfl) hid⟩
  guardianKey := by
    obtain ⟨key, hkey⟩ := h.guardianKey
    exact ⟨key, hfollows.pinned (.inr rfl) hkey⟩
  guardianUrl := by
    obtain ⟨url, hurl⟩ := h.guardianUrl
    exact hfollows.string hurl
  guardianNodeUrl := by
    obtain ⟨url, hurl⟩ := h.guardianNodeUrl
    exact hfollows.string hurl

structure ConfigInv (hashi : Hashi) : Prop where
  instant : Follows publishedConfig hashi.config
  epoch : Follows publishedEpochConfig hashi.epochConfig
  valid : MpcValid hashi.epochConfig
  committees : ∀ {e c}, hashi.committeeSet.committees.lookup e = some c → MpcValid c.epochConfig
  unlaunched : hashi.versioning.upgradeCap = none → hashi.config = publishedConfig ∧
    hashi.committeeSet.committees = ∅ ∧ hashi.committeeSet.mpcPublicKey = []
  launched : hashi.versioning.upgradeCap.isSome → LaunchKeys hashi.config

section Launch

variable {bitcoinChainId : Address} {guardianUrl guardianNodeUrl : String}
  {guardianBtcPublicKey : Bytes} {confirmations delay : Option Nat}

theorem tryGet_setOptional {set : Config → Nat → Config} {config : Config} {value : Option Nat}
    {key key' : String} (hset : ∀ config v, set config v = config.upsert key (.u64 v))
    (hkey : key' ≠ key) : (Hashi.setOptional set config value).tryGet key' = config.tryGet key' := by
  cases value with
  | none => rfl
  | some v => rw [Hashi.setOptional, hset, Config.tryGet_upsert, if_neg hkey]

theorem Follows.setOptional {config config' : Config} {set : Config → Nat → Config}
    {value : Option Nat} {key : String} (h : Follows config config')
    (hset : ∀ config v, set config v = config.upsert key (.u64 v))
    (hkey : ∃ v, config.tryGet key = some (.u64 v)) (hpinned : ¬ Pinned key) :
    Follows config (Hashi.setOptional set config' value) := by
  cases value with
  | none => exact h
  | some v =>
      rw [Hashi.setOptional, hset]
      refine h.upsert (fun v' hv' => ?_) fun hkey => absurd hkey hpinned
      obtain ⟨n, hn⟩ := hkey
      rw [hn] at hv'
      cases hv'
      rfl

theorem follows_launchConfig : Follows publishedConfig (launchConfig publishedConfig bitcoinChainId
    guardianUrl guardianNodeUrl guardianBtcPublicKey confirmations delay) := by
  have hnew : ∀ {config : Config} {key : String} {value : Value}, Follows publishedConfig config →
      publishedConfig.tryGet key = none → Follows publishedConfig (config.upsert key value) :=
    fun h hnone => h.upsert (fun v hv => by rw [hnone] at hv; cases hv) fun _ => hnone
  refine Follows.setOptional (Follows.setOptional (hnew (hnew (hnew (hnew (.refl _) ?_) ?_) ?_) ?_)
    (fun _ _ => rfl) ⟨6, ?_⟩ ?_) (fun _ _ => rfl) ⟨10 * 60 * 1000, ?_⟩ ?_
  all_goals first | decide +kernel | (rintro (h | h) <;> exact absurd h (by decide))

theorem launchKeys_launchConfig (config : Config) : LaunchKeys (launchConfig config bitcoinChainId
    guardianUrl guardianNodeUrl guardianBtcPublicKey confirmations delay) := by
  have hkeys : ∀ key, key ≠ BtcConfig.KEY_BITCOIN_CONFIRMATION_THRESHOLD →
      key ≠ BtcConfig.KEY_BITCOIN_DEPOSIT_TIME_DELAY_MS →
      (launchConfig config bitcoinChainId guardianUrl guardianNodeUrl guardianBtcPublicKey
        confirmations delay).tryGet key =
      ((((BtcConfig.setBitcoinChainId config bitcoinChainId).setGuardianUrl
        guardianUrl).setGuardianNodeUrl guardianNodeUrl).upsert Config.GUARDIAN_BTC_PUBLIC_KEY_KEY
        (.bytes guardianBtcPublicKey)).tryGet key := fun key h h' =>
    Eq.trans (tryGet_setOptional (fun _ _ => rfl) h') (tryGet_setOptional (fun _ _ => rfl) h)
  constructor
  · refine ⟨bitcoinChainId, ?_⟩
    rw [hkeys _ (by decide) (by decide)]
    simp [Config.tryGet_upsert, Config.setGuardianUrl, Config.setGuardianNodeUrl,
      BtcConfig.setBitcoinChainId, Config.GUARDIAN_BTC_PUBLIC_KEY_KEY, BtcConfig.KEY_BITCOIN_CHAIN_ID,
      Config.GUARDIAN_URL_KEY, Config.GUARDIAN_NODE_URL_KEY]
  · refine ⟨guardianBtcPublicKey, ?_⟩
    rw [hkeys _ (by decide) (by decide), Config.tryGet_upsert, if_pos rfl]
  · refine ⟨guardianUrl, ?_⟩
    rw [hkeys _ (by decide) (by decide)]
    simp [Config.tryGet_upsert, Config.setGuardianUrl, Config.setGuardianNodeUrl,
      Config.GUARDIAN_BTC_PUBLIC_KEY_KEY, Config.GUARDIAN_URL_KEY, Config.GUARDIAN_NODE_URL_KEY]
  · refine ⟨guardianNodeUrl, ?_⟩
    rw [hkeys _ (by decide) (by decide)]
    simp [Config.tryGet_upsert, Config.setGuardianNodeUrl, Config.GUARDIAN_BTC_PUBLIC_KEY_KEY,
      Config.GUARDIAN_NODE_URL_KEY]

end Launch

theorem ConfigEffect.sound {self : Hashi} {stores : Stores} (h : ConfigEffect self stores)
    (hinv : ConfigInv self) :
    Follows self.config stores.config ∧ Follows self.epochConfig stores.epochConfig ∧
    MpcValid stores.epochConfig ∧ (stores.launched = true → LaunchKeys stores.config) ∧
    (stores.launched = false → self.versioning.upgradeCap = none ∧ stores.config = self.config) := by
  have hunlaunched : self.committeeSet.epoch ∈ self.committeeSet.committees →
      self.stores.launched = false → False := fun hseated hnone => by
    rw [(hinv.unlaunched (Option.isSome_eq_false_iff.mp hnone |> Option.isNone_iff_eq_none.mp)).2.1]
      at hseated
    exact Finmap.notMem_empty hseated
  -- an instant store that follows keeps the launch keys
  have hinstant : ∀ {config : Config}, Follows self.config config →
      self.committeeSet.epoch ∈ self.committeeSet.committees →
      Follows self.config config ∧ Follows self.epochConfig self.epochConfig ∧
      MpcValid self.epochConfig ∧ (self.stores.launched = true → LaunchKeys config) ∧
      (self.stores.launched = false → self.versioning.upgradeCap = none ∧ config = self.config) :=
    fun hfollows hseated => ⟨hfollows, .refl _, hinv.valid,
      fun hlaunched => (hinv.launched hlaunched).follows hfollows,
      fun hnone => (hunlaunched hseated hnone).elim⟩
  have hcap : self.stores.launched = false → self.versioning.upgradeCap = none := fun hnone =>
    Option.isNone_iff_eq_none.mp (Option.isSome_eq_false_iff.mp hnone)
  cases h with
  | kept => exact ⟨.refl _, .refl _, hinv.valid, hinv.launched, fun hnone => ⟨hcap hnone, rfl⟩⟩
  | launch unlaunched =>
      rw [(hinv.unlaunched unlaunched).1]
      exact ⟨follows_launchConfig, .refl _, hinv.valid, fun _ => launchKeys_launchConfig _,
        fun hnone => absurd hnone (by simp)⟩
  | update seated valid => exact hinstant (.update valid) seated
  | add seated valid => exact hinstant (.add valid) seated
  | updateEpoch valid ranges consistent =>
      exact ⟨.refl _, .update valid, hinv.valid.upsertAll ranges consistent, hinv.launched,
        fun hnone => ⟨hcap hnone, rfl⟩⟩
  | addEpoch valid ranges consistent =>
      exact ⟨.refl _, .add valid, hinv.valid.upsertAll ranges consistent, hinv.launched,
        fun hnone => ⟨hcap hnone, rfl⟩⟩
  | pause seated =>
      refine hinstant (Follows.upsert (.refl _) (fun v hv => ?_) fun hkey => ?_) seated
      · have hseeded : publishedConfig.tryGet Config.PAUSED_KEY = some (.bool false) := by
          decide +kernel
        obtain ⟨q, hq⟩ := hinv.instant.bool hseeded
        rw [hq] at hv
        cases hv
        rfl
      · rcases hkey with hkey | hkey <;> exact absurd hkey (by decide)

namespace ConfigInv

theorem init (id : Address) : ConfigInv (Hashi.init id) where
  instant := .refl _
  epoch := .refl _
  valid := by
    refine ⟨fun {key v} hv => ?_,
      show MpcConfig.isConsistent publishedEpochConfig = .ok true by decide +kernel⟩
    change publishedEpochConfig.tryGet key = some v at hv
    simp only [publishedEpochConfig, MpcConfig.initDefaults, Config.tryGet_upsert] at hv
    split_ifs at hv with hwindow hfaulty hdelta
    · cases hv
      subst hwindow
      decide +kernel
    · cases hv
      subst hfaulty
      decide +kernel
    · cases hv
      subst hdelta
      decide +kernel
    · cases hv
  committees h := by cases h
  unlaunched _ := ⟨rfl, rfl, rfl⟩
  launched h := by cases h

theorem step (h : ConfigInv w.hashi) (hinv : w.Inv env activated) (hstep : Step env w label w') :
    ConfigInv w'.hashi ∧ Follows w.hashi.config w'.hashi.config ∧
      Follows w.hashi.epochConfig w'.hashi.epochConfig := by
  have hcommittees := hstep.committeeEffect hinv
  obtain ⟨hinstant, hepoch, hvalid, hlaunched, hunlaunched⟩ := (hstep.configEffect hinv).sound h
  refine ⟨⟨h.instant.trans hinstant, h.epoch.trans hepoch, hvalid, ?_, ?_, hlaunched⟩, hinstant,
    hepoch⟩
  · intro e c hc
    rcases hcommittees.origin hc with hold | hpins
    · exact h.committees hold
    · rw [hpins]
      exact h.valid
  · intro hcap
    obtain ⟨hcap₀, hconfig⟩ := hunlaunched (by simp [Hashi.stores, hcap])
    obtain ⟨hpublished, hempty, hkey⟩ := h.unlaunched hcap₀
    have hepochs := hcommittees.unlaunched hcap₀ hempty hkey
    refine ⟨hconfig.trans hpublished, ?_, ?_⟩
    · exact (congrArg EpochState.committees hepochs).trans hempty
    · exact (congrArg EpochState.mpcPublicKey hepochs).trans hkey

theorem run (h : ConfigInv w.hashi) (hinv : w.Inv env activated) (hrun : Run (Step env) w tr w') :
    ConfigInv w'.hashi ∧ Follows w.hashi.config w'.hashi.config ∧
      Follows w.hashi.epochConfig w'.hashi.epochConfig := by
  induction hrun with
  | nil => exact ⟨h, .refl _, .refl _⟩
  | snoc hrun hstep ih =>
      obtain ⟨h', hinstant, hepoch⟩ := ih
      obtain ⟨h'', hinstant', hepoch'⟩ := h'.step (hinv.run hrun) hstep
      exact ⟨h'', hinstant.trans hinstant', hepoch.trans hepoch'⟩

theorem reachable {id₀ epoch clock : Nat} (hrun : Run (Step env) (publish id₀ epoch clock) tr w) :
    ConfigInv w.hashi :=
  ((init id₀ : ConfigInv (publish id₀ epoch clock).hashi).run (World.Inv.init id₀ epoch clock) hrun).1

end ConfigInv

theorem committee_fixed (hinv : w.Inv env activated) (hrun : Run (Step env) w tr w') {e : Nat}
    {c c' : Committee} (hc : w.epochs.committees.lookup e = some c)
    (hc' : w'.epochs.committees.lookup e = some c') : c' = c := by
  have hkept : w'.epochs.committees.lookup e = some c ∨ e ∉ w'.epochs.committees ∧ e < w'.epoch := by
    clear hc'
    induction hrun with
    | nil => exact .inl hc
    | snoc hrun hstep ih =>
        have hinv' := hinv.run hrun
        have hle := (hstep.refines hinv').epoch_le
        exact ((hstep.committeeEffect hinv').committee_kept hinv' ih).imp_right
          fun hgone => ⟨hgone.1, by omega⟩
  rcases hkept with hkept | ⟨hgone, -⟩
  · rw [hkept, Option.some.injEq] at hc'
    exact hc'.symm
  · exact absurd (Bag.mem_of_lookup hc') hgone

/-! ## Accessors -/

def HasMinimum (config : Config) : Prop :=
  ∃ v, config.tryGet BtcConfig.KEY_BITCOIN_WITHDRAWAL_MINIMUM = some (.u64 v)

theorem Follows.hasMinimum {config : Config} (h : Follows publishedConfig config) :
    HasMinimum config := by
  have hseeded : publishedConfig.tryGet BtcConfig.KEY_BITCOIN_WITHDRAWAL_MINIMUM =
      some (.u64 30000) := by decide +kernel
  exact h.u64 hseeded

theorem hasMinimum_of_run {id epoch clock : Nat}
    (hrun : Run (Step env) (publish id epoch clock) tr w) : HasMinimum w.hashi.config :=
  (ConfigInv.reachable hrun).instant.hasMinimum

/-- No accessor of a seeded key aborts; the chain id is seeded at the launch. -/
structure Readable (hashi : Hashi) : Prop where
  paused : ∃ v, hashi.config.paused = .ok v
  reconfigHold : ∃ v, hashi.config.reconfigHold = .ok v
  emergencyPause : ∃ v, hashi.config.emergencyPauseThresholdBps = .ok v
  emergencyUnpause : ∃ v, hashi.config.emergencyUnpauseThresholdBps = .ok v
  guardianUrl : ∃ v, hashi.config.guardianUrl = .ok v
  guardianNodeUrl : ∃ v, hashi.config.guardianNodeUrl = .ok v
  guardianKey : ∃ v, hashi.config.guardianBtcPublicKey = .ok v
  chainId : hashi.versioning.upgradeCap.isSome → ∃ v, BtcConfig.bitcoinChainId hashi.config = .ok v
  withdrawalMinimum : ∃ v, BtcConfig.bitcoinWithdrawalMinimum hashi.config = .ok v
  depositMinimum : ∃ v, BtcConfig.bitcoinDepositMinimum hashi.config = .ok v
  depositDelay : ∃ v, BtcConfig.bitcoinDepositTimeDelayMs hashi.config = .ok v
  confirmations : ∃ v, BtcConfig.bitcoinConfirmationThreshold hashi.config = .ok v
  cooldown : ∃ v, BtcConfig.withdrawalCancellationCooldownMs hashi.config = .ok v
  delta : ∃ v, MpcConfig.weightReductionAllowedDelta hashi.epochConfig = .ok v
  maxFaulty : ∃ v, MpcConfig.maxFaultyInBasisPoints hashi.epochConfig = .ok v
  window : ∃ v, MpcConfig.nonceAccumulationWindowMs hashi.epochConfig = .ok v

section Accessors

variable {published config : Config} {key : String}

theorem Config.get_of_tryGet {v : Value} (h : config.tryGet key = some v) : config.get key = .ok v :=
  orAbort_eq_ok.mpr h

theorem Follows.u64At (h : Follows published config) {n : Nat}
    (hseeded : published.tryGet key = some (.u64 n)) : ∃ v, BtcConfig.u64At config key = .ok v := by
  obtain ⟨v, hv⟩ := h.u64 hseeded
  refine ⟨v, ?_⟩
  rw [BtcConfig.u64At, Config.get_of_tryGet hv]
  rfl

theorem Follows.u64Or (h : Follows published config) {n : Nat}
    (hseeded : published.tryGet key = some (.u64 n)) (default : Nat) :
    ∃ v, config.u64Or key default = .ok v := by
  obtain ⟨v, hv⟩ := h.u64 hseeded
  refine ⟨v, ?_⟩
  rw [Config.u64Or, hv]
  rfl

end Accessors

theorem ConfigInv.published_or_launched {hashi : Hashi} (h : ConfigInv hashi) :
    hashi.config = publishedConfig ∨ LaunchKeys hashi.config := by
  cases hcap : hashi.versioning.upgradeCap with
  | none => exact .inl (h.unlaunched hcap).1
  | some cap => exact .inr (h.launched (by rw [hcap]; rfl))

theorem ConfigInv.readable {hashi : Hashi} (h : ConfigInv hashi) : Readable hashi where
  paused := by
    have hseeded : publishedConfig.tryGet Config.PAUSED_KEY = some (.bool false) := by decide +kernel
    obtain ⟨v, hv⟩ := h.instant.bool hseeded
    exact ⟨v, by rw [Config.paused, Config.get_of_tryGet hv]; rfl⟩
  reconfigHold := by
    have hseeded : publishedConfig.tryGet Config.RECONFIG_HOLD_KEY = some (.bool false) := by
      decide +kernel
    obtain ⟨v, hv⟩ := h.instant.bool hseeded
    exact ⟨v, by rw [Config.reconfigHold, hv]; rfl⟩
  emergencyPause := h.instant.u64Or (show publishedConfig.tryGet _ = some (.u64 500) by decide +kernel) _
  emergencyUnpause :=
    h.instant.u64Or (show publishedConfig.tryGet _ = some (.u64 6667) by decide +kernel) _
  guardianUrl := by
    unfold Config.guardianUrl
    rcases h.published_or_launched with hconfig | hkeys
    · rw [hconfig]
      exact ⟨none, by decide +kernel⟩
    · obtain ⟨url, hurl⟩ := hkeys.guardianUrl
      exact ⟨some url, by rw [hurl]; rfl⟩
  guardianNodeUrl := by
    unfold Config.guardianNodeUrl
    rcases h.published_or_launched with hconfig | hkeys
    · rw [hconfig]
      exact ⟨none, by decide +kernel⟩
    · obtain ⟨url, hurl⟩ := hkeys.guardianNodeUrl
      exact ⟨some url, by rw [hurl]; rfl⟩
  guardianKey := by
    unfold Config.guardianBtcPublicKey
    rcases h.published_or_launched with hconfig | hkeys
    · rw [hconfig]
      exact ⟨none, by decide +kernel⟩
    · obtain ⟨key, hkey⟩ := hkeys.guardianKey
      exact ⟨some key, by rw [hkey]; rfl⟩
  chainId hlaunched := by
    obtain ⟨id, hid⟩ := (h.launched hlaunched).chainId
    exact ⟨id, by rw [BtcConfig.bitcoinChainId, Config.get_of_tryGet hid]; rfl⟩
  withdrawalMinimum := by
    have hseeded : publishedConfig.tryGet BtcConfig.KEY_BITCOIN_WITHDRAWAL_MINIMUM =
        some (.u64 30000) := by decide +kernel
    obtain ⟨v, hv⟩ := h.instant.u64At hseeded
    exact ⟨_, by rw [BtcConfig.bitcoinWithdrawalMinimum, hv]; rfl⟩
  depositMinimum := by
    have hseeded : publishedConfig.tryGet BtcConfig.KEY_BITCOIN_DEPOSIT_MINIMUM =
        some (.u64 30000) := by decide +kernel
    obtain ⟨v, hv⟩ := h.instant.u64At hseeded
    exact ⟨_, by rw [BtcConfig.bitcoinDepositMinimum, hv]; rfl⟩
  depositDelay := h.instant.u64At (show publishedConfig.tryGet _ = some (.u64 600000) by decide +kernel)
  confirmations := h.instant.u64At (show publishedConfig.tryGet _ = some (.u64 6) by decide +kernel)
  cooldown := h.instant.u64At (show publishedConfig.tryGet _ = some (.u64 3600000) by decide +kernel)
  delta := h.epoch.u64Or (show publishedEpochConfig.tryGet _ = some (.u64 800) by decide +kernel) _
  maxFaulty := h.epoch.u64Or (show publishedEpochConfig.tryGet _ = some (.u64 3333) by decide +kernel) _
  window := h.epoch.u64Or (show publishedEpochConfig.tryGet _ = some (.u64 2000) by decide +kernel) _

/-! ## Every run -/

theorem MpcValid.retired {config : Config} (h : MpcValid config) :
    config.tryGet MpcConfig.KEY_REMOVED_THRESHOLD_IN_BASIS_POINTS = none ∧
      config.tryGet MpcConfig.KEY_REMOVED_NONCE_GENERATION_PROTOCOL = none := by
  refine ⟨Option.eq_none_iff_forall_not_mem.mpr fun v hv => ?_,
    Option.eq_none_iff_forall_not_mem.mpr fun v hv => ?_⟩
  · exact absurd (h.ranges hv) (by simp [MpcConfig.isValidValue])
  · refine absurd (h.ranges hv) ?_
    simp [MpcConfig.isValidValue, MpcConfig.KEY_REMOVED_NONCE_GENERATION_PROTOCOL,
      MpcConfig.KEY_REMOVED_THRESHOLD_IN_BASIS_POINTS, MpcConfig.KEY_WEIGHT_REDUCTION_ALLOWED_DELTA,
      MpcConfig.KEY_MAX_FAULTY_IN_BASIS_POINTS]

def EpochStoreSound (config : Config) : Prop :=
  MpcValid config ∧ config.tryGet MpcConfig.KEY_REMOVED_THRESHOLD_IN_BASIS_POINTS = none ∧
    config.tryGet MpcConfig.KEY_REMOVED_NONCE_GENERATION_PROTOCOL = none

/-- In every state reached from publication: whatever follows keeps the pinned values, every key and
the type of every value, and the committees as they formed; the epoch store and every pinned copy are
sound; the worst-case fee is at least one, with no underflow on the way; and every accessor of a
seeded key returns. -/
theorem config_governed {id₀ epoch clock : Nat}
    (hrun : Run (Step env) (publish id₀ epoch clock) tr w) :
    (∀ tr' w', Run (Step env) w tr' w' →
      Follows w.hashi.config w'.hashi.config ∧ Follows w.hashi.epochConfig w'.hashi.epochConfig ∧
      ∀ e c c', w.epochs.committees.lookup e = some c → w'.epochs.committees.lookup e = some c' →
        c' = c) ∧
    EpochStoreSound w.hashi.epochConfig ∧
    (∀ e c, w.epochs.committees.lookup e = some c → EpochStoreSound c.epochConfig) ∧
    (∃ minimum fee, BtcConfig.bitcoinWithdrawalMinimum w.hashi.config = .ok minimum ∧
      BtcConfig.DUST_RELAY_MIN_VALUE ≤ minimum ∧
      BtcConfig.worstCaseNetworkFee w.hashi.config = .ok fee ∧ 1 ≤ fee) ∧
    Readable w.hashi := by
  have hinv := World.Inv.reachable hrun
  have hconfig := ConfigInv.reachable hrun
  have hsound : ∀ {config}, MpcValid config → EpochStoreSound config := fun h => ⟨h, h.retired⟩
  refine ⟨fun tr' w' hlater => ?_, hsound hconfig.valid, fun e c hc => hsound (hconfig.committees hc),
    ?_, hconfig.readable⟩
  · obtain ⟨-, hinstant, hepoch⟩ := hconfig.run hinv hlater
    exact ⟨hinstant, hepoch, fun e c c' => committee_fixed hinv hlater⟩
  · obtain ⟨minimum, hminimum⟩ := hconfig.readable.withdrawalMinimum
    have hfloor : BtcConfig.DUST_RELAY_MIN_VALUE + 1 ≤ minimum := by
      simp only [BtcConfig.bitcoinWithdrawalMinimum, bind_eq_ok, pure_eq_ok] at hminimum
      obtain ⟨v, -, rfl⟩ := hminimum
      exact le_max_right _ _
    refine ⟨minimum, minimum - BtcConfig.DUST_RELAY_MIN_VALUE, hminimum, by omega, ?_, by omega⟩
    rw [BtcConfig.worstCaseNetworkFee, hminimum]
    rfl

/-- The sample deployment launches and then proposes and executes an update of the two MPC
parameters, in the order that is inconsistent halfway. -/
def Sample.mpcUpdate : List Label := [
  call 1050 (.governance (.propose 10 (.updateEpochConfig
    ((VecMap.empty.upsert MpcConfig.KEY_MAX_FAULTY_IN_BASIS_POINTS (.u64 500)).upsert
      MpcConfig.KEY_WEIGHT_REDUCTION_ALLOWED_DELTA (.u64 400))) VecMap.empty)),
  call 1051 (.governance (.execute .updateEpochConfig 1050 0))]

theorem config_governed_of_mpcUpdate : ∃ w,
    Run (Step Sample.env) (publish 99 0 0) (Sample.launch ++ Sample.mpcUpdate) w ∧
    w.hashi.epochConfig.tryGet MpcConfig.KEY_MAX_FAULTY_IN_BASIS_POINTS = some (.u64 500) ∧
    EpochStoreSound w.hashi.epochConfig ∧ Readable w.hashi := by
  obtain ⟨w, hrun, htest⟩ := run_of_reaches Sample.env (publish 99 0 0)
    (Sample.launch ++ Sample.mpcUpdate)
    (fun w => w.hashi.epochConfig.tryGet MpcConfig.KEY_MAX_FAULTY_IN_BASIS_POINTS = some (.u64 500))
    (by decide +kernel)
  obtain ⟨-, hsound, -, -, hreadable⟩ := config_governed hrun
  exact ⟨w, hrun, of_decide_eq_true htest, hsound, hreadable⟩

end HashiBridge.Chain
