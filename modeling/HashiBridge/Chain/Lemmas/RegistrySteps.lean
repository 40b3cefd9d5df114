import HashiBridge.Core.Lemmas.RegistryInvariant
import HashiBridge.Chain.Lemmas.Reachable

/-!
# Every step is a step of the member registry

The registry entry functions, the execution of an ignore proposal and the reconfiguration calls, each
as one operation of the abstract registry. Every other call leaves the registry alone.
-/

namespace HashiBridge.Chain

open Lib HashiBridge.Core Btc

variable {env : Env} {activated : List Nat} {w w' : World} {label : Label} {self hashi' : Hashi}
  {now : Nat} {ctx : TxContext}

def World.registry (w : World) : Registry := w.hashi.committeeSet.registry

def Label.Marks (w : World) (label : Label) (validator : Address) (ignored : Bool) : Prop :=
  ∃ id p, label.executes = some id ∧ w.hashi.proposals.active.lookup id = some p ∧
    p.data = .ignoreMember validator ignored

def Label.starts : Label → Bool
  | .call _ _ _ (.reconfig (.startReconfig _)) => true
  | _ => false

/-! ## Registry calls -/

namespace CommitteeSet

variable {set set' : CommitteeSet} {validator : Address}

def Registers (set set' : CommitteeSet) : Prop :=
  ∃ op, set.registry.Step op set'.registry ∧ (∀ v ignored, op ≠ .mark v ignored) ∧
    ∀ c, op ≠ .form c

theorem updateMember_registers {update : MemberInfo → MemberInfo}
    (h : set.updateMember validator ctx update = .ok set')
    (hkey : ∀ m, (update m).tlsPublicKey = m.tlsPublicKey)
    (hmark : ∀ m, (update m).ignored = m.ignored) : Registers set set' := by
  simp only [CommitteeSet.updateMember, CommitteeSet.member, bind_eq_ok, pure_eq_ok,
    Bag.borrow_eq_ok] at h
  obtain ⟨m, hm, _, -, rfl⟩ := h
  exact ⟨.update validator, .update hm (hkey m) (hmark m), by simp, by simp⟩

theorem registerMember_registers {crypto : Crypto} {active : Bool}
    (h : set.registerMember crypto validator active = .ok set') : Registers set set' := by
  simp only [CommitteeSet.registerMember, bind_eq_ok, pure_eq_ok, Bag.add_eq_ok] at h
  obtain ⟨_, -, _, -, _, ⟨hnew, rfl⟩, rfl⟩ := h
  exact ⟨.register validator, .register hnew rfl, by simp, by simp⟩

theorem writeTlsPublicKey_registers {key : Bytes}
    (h : set.writeTlsPublicKey validator key = .ok set') : Registers set set' := by
  simp only [CommitteeSet.writeTlsPublicKey, CommitteeSet.member, bind_eq_ok, pure_eq_ok,
    require_eq_ok, Bag.borrow_eq_ok, Bag.add_eq_ok] at h
  obtain ⟨_, hlength, _, hfree, m, hm, _, hdrop, _, ⟨-, rfl⟩, rfl⟩ := h
  obtain ⟨-, rfl⟩ := CommitteeSet.dropTlsKey_eq_ok.mp hdrop
  have hne : key ≠ [] := by
    rintro rfl
    cases hlength
  exact ⟨.writeTlsKey validator key, .writeTlsKey hm hne hfree, by simp, by simp⟩

theorem requestResignation_registers (h : set.requestResignation validator ctx = .ok set') :
    Registers set set' := by
  simp only [CommitteeSet.requestResignation, CommitteeSet.member, bind_eq_ok, pure_eq_ok,
    Bag.borrow_eq_ok] at h
  obtain ⟨_, -, m, hm, _, -, _, -, _, -, rfl⟩ := h
  exact ⟨.update validator, .update hm rfl rfl, by simp, by simp⟩

theorem clearResignation_registers (h : set.clearResignation validator ctx = .ok set') :
    Registers set set' := by
  simp only [CommitteeSet.clearResignation, CommitteeSet.member, bind_eq_ok, pure_eq_ok,
    Bag.borrow_eq_ok] at h
  obtain ⟨_, -, m, hm, _, -, _, -, rfl⟩ := h
  exact ⟨.update validator, .update hm rfl rfl, by simp, by simp⟩

theorem not_serves_of_idle (h : set.inCurrentOrPendingCommittee validator = false) :
    ¬ set.registry.Serves set.registry.epoch validator ∧
      ∀ e ∈ set.registry.pending, ¬ set.registry.Serves e validator := by
  simp only [CommitteeSet.inCurrentOrPendingCommittee, Bool.or_eq_false_iff] at h
  obtain ⟨hcurrent, hpending⟩ := h
  have hidle : ∀ {e}, (set.committees.lookup e).any (·.hasMember validator) = false →
      ¬ set.registry.Serves e validator := by
    rintro e he ⟨c, hc, hv⟩
    rw [show set.committees.lookup e = some c from hc, Option.any_some, hv] at he
    cases he
  refine ⟨hidle hcurrent, fun e he => hidle ?_⟩
  rwa [show set.pendingEpoch = some e from he, Option.any_some] at hpending

theorem removeInactiveMember_registers {active : Bool}
    (h : set.removeInactiveMember validator active = .ok set') : Registers set set' := by
  simp only [CommitteeSet.removeInactiveMember, CommitteeSet.removeMember, CommitteeSet.member,
    bind_eq_ok, pure_eq_ok, require_eq_ok, Bag.borrow_eq_ok, Bag.remove_eq_ok] at h
  obtain ⟨_, -, _, hidle, m, hm, _, hunmarked, _, -, ⟨m', _⟩, ⟨hm', rfl⟩, _, hdrop, rfl⟩ := h
  -- the row that goes is the one that was checked
  cases hm.symm.trans hm'
  obtain ⟨-, rfl⟩ := CommitteeSet.dropTlsKey_eq_ok.mp hdrop
  obtain ⟨hcurrent, hpending⟩ := not_serves_of_idle hidle
  exact ⟨.remove validator, .remove hm hunmarked hcurrent hpending, by simp, by simp⟩

end CommitteeSet

theorem RegistryCall.registers {call : RegistryCall} (h : call.run env ctx self = .ok hashi') :
    CommitteeSet.Registers self.committeeSet hashi'.committeeSet := by
  cases call <;>
    simp only [RegistryCall.run, Hashi.register, Hashi.updateNextEpochPublicKey,
      Hashi.updateOperatorAddress, Hashi.updateEndpointUrl, Hashi.updateTlsPublicKey,
      Hashi.updateNextEpochEncryptionPublicKey, Hashi.resign, Hashi.withdrawResignation,
      Hashi.removeInactiveMember, Hashi.updateRegistry, bind_eq_ok, pure_eq_ok] at h <;>
    obtain ⟨_, -, set, hset, rfl⟩ := h
  case register activeValidators => exact CommitteeSet.registerMember_registers hset
  case updateNextEpochPublicKey validator key proof =>
    simp only [CommitteeSet.setNextEpochPublicKey, bind_eq_ok] at hset
    obtain ⟨_, -, hset⟩ := hset
    exact CommitteeSet.updateMember_registers hset (fun _ => rfl) (fun _ => rfl)
  case updateOperatorAddress validator operator =>
    exact CommitteeSet.updateMember_registers hset (fun _ => rfl) (fun _ => rfl)
  case updateEndpointUrl validator endpointUrl =>
    exact CommitteeSet.updateMember_registers hset (fun _ => rfl) (fun _ => rfl)
  case updateTlsPublicKey validator key proof =>
    simp only [CommitteeSet.setTlsPublicKey, bind_eq_ok] at hset
    obtain ⟨_, -, _, -, _, -, _, -, hset⟩ := hset
    exact CommitteeSet.writeTlsPublicKey_registers hset
  case updateNextEpochEncryptionPublicKey validator key =>
    simp only [CommitteeSet.setNextEpochEncryptionPublicKey, bind_eq_ok] at hset
    obtain ⟨_, -, hset⟩ := hset
    exact CommitteeSet.updateMember_registers hset (fun _ => rfl) (fun _ => rfl)
  case resign validator => exact CommitteeSet.requestResignation_registers hset
  case withdrawResignation validator => exact CommitteeSet.clearResignation_registers hset
  case removeInactiveMember activeValidators validator =>
    exact CommitteeSet.removeInactiveMember_registers hset

/-! ## Committee formation -/

theorem CommitteeSet.committeeSeat_eq_some {crypto : Crypto} {set : CommitteeSet}
    {validator : Address × Nat} {seat : CommitteeMember}
    (h : set.committeeSeat crypto validator = .ok (some seat)) :
    ∃ m, set.members.lookup seat.validatorAddress = some m ∧ m.Eligible := by
  unfold CommitteeSet.committeeSeat at h
  split at h
  · cases h
  · next m hm =>
      split_ifs at h with hskip
      · cases h
      · simp only [not_or, Bool.not_eq_true] at hskip
        simp only [newCommitteeMember, map_eq_ok, bind_eq_ok, pure_eq_ok, Option.some.injEq] at h
        obtain ⟨_, ⟨_, -, rfl⟩, rfl⟩ := h
        exact ⟨m, hm, hskip.1, hskip.2.1⟩

theorem newCommittee_members {epoch : Nat} {members : List CommitteeMember} {epochConfig : Config}
    {c : Committee} (h : newCommittee epoch members epochConfig = .ok c) : c.members = members := by
  unfold newCommittee at h
  split_ifs at h
  split at h <;> cases h
  rfl

theorem CommitteeSet.newCommittee_eligible {crypto : Crypto} {set : CommitteeSet} {epoch : Nat}
    {validatorSet : VecMap Address Nat} {epochConfig : Config} {c : Committee}
    (h : set.newCommitteeFromVotingPowers crypto epoch validatorSet epochConfig = .ok c) :
    ∀ seat ∈ c.members, ∃ m, set.members.lookup seat.validatorAddress = some m ∧ m.Eligible := by
  simp only [CommitteeSet.newCommitteeFromVotingPowers, bind_eq_ok, mapM_eq_ok] at h
  obtain ⟨seats, hseats, hnew⟩ := h
  intro seat hseat
  rw [newCommittee_members hnew, List.reduceOption_mem_iff] at hseat
  obtain ⟨validator, -, hvalidator⟩ := exists_of_forall₂ hseats.flip hseat
  exact committeeSeat_eq_some hvalidator

/-! ## Reconfiguration -/

theorem ReconfigCall.registers {call : ReconfigCall} (h : call.run env ctx self = .ok hashi') :
    ∃ op, self.committeeSet.registry.Step op hashi'.committeeSet.registry ∧
      (∀ v ignored, op ≠ .mark v ignored) ∧
      ∀ c, op = .form c → ∃ validatorSet, call = .startReconfig validatorSet := by
  cases call with
  | startReconfig validatorSet =>
      simp only [ReconfigCall.run, Hashi.startReconfig, CommitteeSet.startReconfigFromVotingPowers,
        bind_eq_ok, pure_eq_ok, require_eq_ok, Bag.add_eq_ok] at h
      obtain ⟨_, -, _, -, _, hidle, _, -, _, ⟨_, -, _, -, _, -, committee, hnew, _,
        ⟨habsent, rfl⟩, rfl⟩, rfl⟩ := h
      have hnone : self.committeeSet.registry.pending = none := by
        simpa [CommitteeSet.isReconfiguring, CommitteeSet.registry, CommitteeSet.pendingEpoch]
          using hidle
      exact ⟨.form committee, .form hnone habsent (CommitteeSet.newCommittee_eligible hnew), by simp,
        fun _ _ => ⟨_, rfl⟩⟩
  | submitCommitteeHandoff epoch cert =>
      simp only [ReconfigCall.run, Hashi.submitCommitteeHandoff,
        CommitteeSet.setPendingCommitteeHandoffCert, bind_eq_ok, pure_eq_ok, orAbort_eq_ok] at h
      obtain ⟨_, -, _, -, _, -, _, -, _, -, _, -, _, -, _, -, _, ⟨pending, hpending, _, -, rfl⟩,
        rfl⟩ := h
      refine ⟨.keep, ?_, by simp, by simp⟩
      -- the certificate is all that changes
      have hsame : some pending.epoch = self.committeeSet.pendingEpoch := by
        rw [CommitteeSet.pendingEpoch, hpending, Option.map_some]
      simp only [CommitteeSet.registry, CommitteeSet.pendingEpoch, Option.map_some] at hsame ⊢
      rw [hsame]
      exact .keep
  | endReconfig mpcPublicKey mpcCert =>
      simp only [ReconfigCall.run, Hashi.endReconfig, CommitteeSet.endReconfig, bind_eq_ok,
        pure_eq_ok, orAbort_eq_ok] at h
      obtain ⟨_, -, _, -, _, -, _, -, _, -, _, -, _, ⟨_, -, pending, hpending, _, -, _, -, _, -,
        _, -, rfl⟩, committeeSet, hstore, rfl⟩ := h
      have hnext : self.committeeSet.registry.pending = some pending.epoch := by
        rw [CommitteeSet.registry, CommitteeSet.pendingEpoch, hpending, Option.map_some]
      refine ⟨.activate pending.epoch, ?_, by simp, by simp⟩
      unfold Hashi.storeHandoff at hstore
      split_ifs at hstore
      · simp only [bind_eq_ok, pure_eq_ok] at hstore
        obtain ⟨_, -, rfl⟩ := hstore
        exact .activate hnext
      · simp only [bind_eq_ok, CommitteeSet.insertCommitteeHandoff, pure_eq_ok] at hstore
        obtain ⟨_, -, _, -, _, -, rfl⟩ := hstore
        exact .activate hnext
  | abortReconfig epoch =>
      simp only [ReconfigCall.run, Hashi.abortReconfig, CommitteeSet.abortReconfig, bind_eq_ok,
        pure_eq_ok, orAbort_eq_ok, Bag.remove_eq_ok] at h
      obtain ⟨_, -, _, -, _, -, _, ⟨_, -, pending, hpending, _, -, ⟨_, _⟩, ⟨-, rfl⟩, rfl⟩, rfl⟩ := h
      have hnext : self.committeeSet.registry.pending = some pending.epoch := by
        rw [CommitteeSet.registry, CommitteeSet.pendingEpoch, hpending, Option.map_some]
      exact ⟨.abandon pending.epoch, .abandon hnext, by simp, by simp⟩

/-! ## Governance -/

theorem Hashi.executePayload_registers {newPackage : Address} {data : ProposalData}
    (h : self.executePayload newPackage data = .ok hashi') :
    hashi'.committeeSet = self.committeeSet ∨ ∃ validator ignored,
      data = .ignoreMember validator ignored ∧ self.committeeSet.registry.Step
        (.mark validator ignored) hashi'.committeeSet.registry := by
  rcases executePayload_frame h with ⟨_, _, _, rfl⟩ | ⟨validator, ignored, set, rfl, hset, rfl⟩
  · exact .inl rfl
  · simp only [CommitteeSet.setMemberIgnored, CommitteeSet.member, bind_eq_ok, pure_eq_ok,
      Bag.borrow_eq_ok] at hset
    obtain ⟨_, -, m, hm, rfl⟩ := hset
    exact .inr ⟨validator, ignored, rfl, .mark hm⟩

theorem GovernanceCall.registers {call : GovernanceCall} (h : call.run now ctx self = .ok hashi') :
    hashi'.committeeSet = self.committeeSet ∨ ∃ kind id newPackage p validator ignored,
      call = .execute kind id newPackage ∧ self.proposals.active.lookup id = some p ∧
      p.data = .ignoreMember validator ignored ∧
      self.committeeSet.registry.Step (.mark validator ignored) hashi'.committeeSet.registry := by
  rcases GovernanceCall.frame h with ⟨_, rfl⟩ | ⟨kind, id, newPackage, p, _, rfl, hp, -, hpayload⟩
  · exact .inl rfl
  · refine (Hashi.executePayload_registers hpayload).imp_right ?_
    rintro ⟨validator, ignored, hdata, hstep⟩
    exact ⟨kind, id, newPackage, p, validator, ignored, rfl, hp, hdata, hstep⟩

/-! ## Steps -/

theorem Step.registry (hinv : w.Inv env activated) (hstep : Step env w label w') :
    ∃ op, w.registry.Step op w'.registry ∧
      (∀ v ignored, op = .mark v ignored → label.Marks w v ignored) ∧
      ∀ c, op = .form c → label.starts = true := by
  have hkeep : w'.hashi.committeeSet = w.hashi.committeeSet → ∃ op,
      w.registry.Step op w'.registry ∧
      (∀ v ignored, op = .mark v ignored → label.Marks w v ignored) ∧
      ∀ c, op = .form c → label.starts = true := by
    intro hsame
    refine ⟨.keep, ?_, by simp, by simp⟩
    rw [World.registry, World.registry, hsame]
    exact .keep
  cases hstep.taken with
  | advance => exact hkeep rfl
  | bridge hfresh hrun =>
      obtain ⟨-, hframe⟩ := hinv.bridge_refines hfresh hrun
      refine hkeep ?_
      rw [hframe]
  | reconfig _ hrun =>
      obtain ⟨op, hop, hmark, hform⟩ := ReconfigCall.registers hrun
      refine ⟨op, hop, fun v ignored hv => absurd hv (hmark v ignored), fun c hc => ?_⟩
      obtain ⟨validatorSet, rfl⟩ := hform c hc
      rfl
  | governance _ hrun =>
      rcases GovernanceCall.registers hrun with hsame | ⟨kind, id, newPackage, p, validator, ignored,
        rfl, hp, hdata, hop⟩
      · exact hkeep hsame
      · refine ⟨_, hop, ?_, by simp⟩
        rintro v i ⟨⟩
        exact ⟨id, p, rfl, hp, hdata⟩
  | publish _ hrun =>
      simp only [Hashi.finishPublish, bind_eq_ok, pure_eq_ok] at hrun
      obtain ⟨_, -, _, -, _, -, _, -, _, -, _, -, rfl⟩ := hrun
      exact hkeep rfl
  | registry _ hrun =>
      obtain ⟨op, hop, hmark, hform⟩ := RegistryCall.registers hrun
      exact ⟨op, hop, fun v ignored hv => absurd hv (hmark v ignored), fun c hc => absurd hc (hform c)⟩
  | certs _ hrun =>
      obtain ⟨tob, rfl⟩ := CertCall.tob_only hrun
      exact hkeep rfl

end HashiBridge.Chain
