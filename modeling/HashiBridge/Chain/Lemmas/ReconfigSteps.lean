import HashiBridge.Core.Lemmas.EpochInvariant
import HashiBridge.Chain.Views

/-!
# Reconfiguration calls refine the epoch machine

Every reconfiguration call that succeeds is one transition of the committee epochs at Sui's epoch,
and touches nothing but the committee set and, on completion, the presignature allocator.
-/

namespace HashiBridge.Chain

open Lib HashiBridge.Core Btc

variable {env : Env} {self hashi' : Hashi} {ctx : TxContext}

def ReconfigFrame (hashi hashi' : Hashi) : Prop :=
  hashi' = { hashi with
    committeeSet := hashi'.committeeSet, presigAllocator := hashi'.presigAllocator }

namespace Hashi

/-! ## Start -/

theorem newCommittee_epoch {epoch : Nat} {members : List CommitteeMember} {epochConfig : Config}
    {c : Committee} (h : newCommittee epoch members epochConfig = .ok c) : c.epoch = epoch := by
  unfold newCommittee at h
  split_ifs at h
  split at h <;> cases h
  rfl

theorem startReconfig_step {validatorSet : VecMap Address Nat}
    (h : self.startReconfig env validatorSet ctx = .ok hashi') :
    (∃ committee, EpochState.Step (Certifies env self) ctx.epoch self.committeeSet.epochs
      (.start committee) hashi'.committeeSet.epochs) ∧ ReconfigFrame self hashi' ∧
      hashi'.presigAllocator = self.presigAllocator := by
  simp only [startReconfig, CommitteeSet.startReconfigFromVotingPowers,
    CommitteeSet.newCommitteeFromVotingPowers, bind_eq_ok, pure_eq_ok, require_eq_ok,
    Bag.add_eq_ok] at h
  obtain ⟨_, -, _, -, _, hidle, _, -, _, ⟨_, -, _, hnone, _, hepoch, committee, ⟨_, -, hnew⟩, _,
    ⟨-, rfl⟩, rfl⟩, rfl⟩ := h
  have hcommittee := newCommittee_epoch hnew
  have hpending : self.committeeSet.epochs.pending = none := by
    simpa [CommitteeSet.isReconfiguring, CommitteeSet.epochs] using hidle
  refine ⟨⟨committee, ?_⟩, rfl, rfl⟩
  rw [hcommittee]
  exact .start hpending hcommittee hnone hepoch

/-! ## Handoff and completion -/

theorem pendingEpochInWindow_eq_ok {epoch : Nat} (h : self.pendingEpochInWindow ctx = .ok epoch) :
    epoch = ctx.epoch ∧
      ∃ cert, self.committeeSet.pendingEpochChange = some ⟨ctx.epoch, cert⟩ := by
  simp only [pendingEpochInWindow, CommitteeSet.pendingEpoch, bind_eq_ok, orAbort_eq_ok,
    require_eq_ok, pure_eq_ok, Option.map_eq_some_iff] at h
  obtain ⟨_, ⟨⟨_, cert⟩, hpending, rfl⟩, _, rfl, rfl⟩ := h
  exact ⟨rfl, cert, hpending⟩

theorem submitCommitteeHandoff_step {epoch : Nat} {cert : CommitteeSignature}
    (h : self.submitCommitteeHandoff env epoch cert ctx = .ok hashi') :
    (epoch = ctx.epoch ∧ EpochState.Step (Certifies env self) ctx.epoch self.committeeSet.epochs
      (.handoff cert) hashi'.committeeSet.epochs) ∧ ReconfigFrame self hashi' ∧
      hashi'.presigAllocator = self.presigAllocator := by
  simp only [submitCommitteeHandoff, CommitteeSet.getCommittee, currentCommittee,
    CommitteeSet.currentCommittee, CommitteeSet.setPendingCommitteeHandoffCert, bind_eq_ok,
    pure_eq_ok, require_eq_ok, orAbort_eq_ok, Bag.borrow_eq_ok] at h
  obtain ⟨_, -, _, -, _, hwindow, _, rfl, _, hkey, incoming, hin, outgoing, hout, certified, hverify, _,
    ⟨pending, hpending, _, hnone, rfl⟩, rfl⟩ := h
  obtain ⟨rfl, cert', hpending'⟩ := pendingEpochInWindow_eq_ok hwindow
  rw [hpending, Option.some.injEq] at hpending'
  subst hpending'
  cases hnone
  exact ⟨⟨rfl, .handoff hpending hkey hout hin ⟨certified, hverify⟩⟩, rfl, rfl⟩

theorem endReconfig_step {mpcPublicKey : Bytes} {mpcCert : CommitteeSignature}
    (h : self.endReconfig env mpcPublicKey mpcCert ctx = .ok hashi') :
    (mpcCert.epoch = ctx.epoch ∧ EpochState.Step (Certifies env self) ctx.epoch
      self.committeeSet.epochs (.finish mpcPublicKey) hashi'.committeeSet.epochs) ∧
      ReconfigFrame self hashi' ∧ hashi'.presigAllocator = .create := by
  simp only [endReconfig, CommitteeSet.endReconfig, bind_eq_ok, pure_eq_ok, require_eq_ok,
    orAbort_eq_ok] at h
  obtain ⟨_, -, _, -, _, hwindow, _, rfl, _, -, _, -, _, ⟨_, -, pending, hpending, _, hmem, _, hlength,
    _, hcert, _, hkey, rfl⟩, committeeSet, hstore, rfl⟩ := h
  obtain ⟨hnow, cert, hpending'⟩ := pendingEpochInWindow_eq_ok hwindow
  rw [hpending, Option.some.injEq] at hpending'
  subst hpending'
  refine ⟨⟨hnow, ?_⟩, rfl, rfl⟩
  unfold storeHandoff at hstore
  split_ifs at hstore with hinitial
  · -- the first completion stores no handoff
    simp only [bind_eq_ok, require_eq_ok, pure_eq_ok] at hstore
    obtain ⟨_, hnone, rfl⟩ := hstore
    cases hnone
    exact .genesis hpending hmem (List.isEmpty_iff.mp hinitial) hlength
  · simp only [bind_eq_ok, orAbort_eq_ok, CommitteeSet.insertCommitteeHandoff, require_eq_ok,
      pure_eq_ok, Bag.add_eq_ok] at hstore
    obtain ⟨cert', hsome, _, hfresh, _, ⟨-, rfl⟩, rfl⟩ := hstore
    cases hsome
    have hnonempty : self.committeeSet.mpcPublicKey ≠ [] := fun hnil =>
      hinitial (List.isEmpty_iff.mpr hnil)
    obtain rfl := hkey.resolve_left hnonempty
    exact .finish hpending hmem hnonempty hfresh

/-! ## Abort -/

theorem abortReconfig_step (env : Env) {epoch : Nat} (h : self.abortReconfig epoch ctx = .ok hashi') :
    EpochState.Step (Certifies env self) ctx.epoch self.committeeSet.epochs (.abort epoch)
      hashi'.committeeSet.epochs ∧ ReconfigFrame self hashi' ∧
      hashi'.presigAllocator = self.presigAllocator := by
  simp only [abortReconfig, CommitteeSet.abortReconfig, CommitteeSet.pendingEpoch, bind_eq_ok,
    pure_eq_ok, require_eq_ok, orAbort_eq_ok, Bag.remove_eq_ok, Option.map_eq_some_iff] at h
  obtain ⟨_, -, _, ⟨pending, hpending, rfl⟩, _, rfl, _, ⟨_, -, pending', hpending', _, hne, ⟨c, _⟩,
    ⟨hc, rfl⟩, rfl⟩, rfl⟩ := h
  rw [hpending, Option.some.injEq] at hpending'
  subst hpending'
  exact ⟨.abort hpending hne (Bag.mem_of_lookup hc), rfl, rfl⟩

end Hashi

theorem ReconfigCall.refines {call : ReconfigCall} (h : call.run env ctx self = .ok hashi') :
    (∃ op, call.Effect ctx.epoch op ∧ EpochState.Step (Certifies env self) ctx.epoch
      self.committeeSet.epochs op hashi'.committeeSet.epochs) ∧ ReconfigFrame self hashi' := by
  cases call with
  | startReconfig validatorSet =>
      obtain ⟨⟨committee, hstep⟩, hframe, -⟩ := Hashi.startReconfig_step h
      exact ⟨⟨_, ⟨committee, rfl⟩, hstep⟩, hframe⟩
  | submitCommitteeHandoff epoch cert =>
      obtain ⟨⟨hnow, hstep⟩, hframe, -⟩ := Hashi.submitCommitteeHandoff_step h
      exact ⟨⟨_, ⟨hnow, rfl⟩, hstep⟩, hframe⟩
  | endReconfig mpcPublicKey mpcCert =>
      obtain ⟨⟨hnow, hstep⟩, hframe, -⟩ := Hashi.endReconfig_step h
      exact ⟨⟨_, ⟨hnow, rfl⟩, hstep⟩, hframe⟩
  | abortReconfig epoch =>
      obtain ⟨hstep, hframe, -⟩ := Hashi.abortReconfig_step env h
      exact ⟨⟨_, rfl, hstep⟩, hframe⟩

end HashiBridge.Chain
