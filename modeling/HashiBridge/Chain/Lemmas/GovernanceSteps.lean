import HashiBridge.Core.Lemmas.BallotInvariant
import HashiBridge.Chain.Lemmas.QuietCalls

/-!
# Governance calls refine the voting machinery

Every governance call that succeeds is one operation on the proposals. Executing a payload can
change configuration, versions and registrations, but no committee, no epoch and no proposal.
-/

namespace HashiBridge.Chain

open Lib HashiBridge.Core Btc

variable {env : Env} {self hashi' : Hashi} {now : Nat} {ctx : TxContext}

/-! ## Payloads -/

variable {data : ProposalData}

/-- A payload writes the stores and the versions, or marks a member. -/
theorem Hashi.executePayload_frame {newPackage : Address}
    (h : self.executePayload newPackage data = .ok hashi') :
    (∃ config epochConfig versioning, hashi' = { self with config, epochConfig, versioning }) ∨
      ∃ validator ignored committeeSet, data = .ignoreMember validator ignored ∧
        self.committeeSet.setMemberIgnored validator ignored = .ok committeeSet ∧
        hashi' = { self with committeeSet } := by
  cases data with
  | updateConfig entries =>
      simp only [executePayload, UpdateConfig.execute, bind_eq_ok, pure_eq_ok] at h
      obtain ⟨_, -, rfl⟩ := h
      exact .inl ⟨_, _, _, rfl⟩
  | updateEpochConfig entries =>
      simp only [executePayload, UpdateEpochConfig.execute, bind_eq_ok, pure_eq_ok] at h
      obtain ⟨_, -, _, -, rfl⟩ := h
      exact .inl ⟨_, _, _, rfl⟩
  | addConfig epoch entries =>
      simp only [executePayload, AddConfig.execute, bind_eq_ok] at h
      obtain ⟨_, -, h⟩ := h
      cases epoch with
      | false =>
          cases h
          exact .inl ⟨_, _, _, rfl⟩
      | true =>
          simp only [bind_eq_ok, pure_eq_ok] at h
          obtain ⟨_, -, rfl⟩ := h
          exact .inl ⟨_, _, _, rfl⟩
  | upgrade digest exclusive =>
      simp only [executePayload, Upgrade.executeAndFinalize, bind_eq_ok, pure_eq_ok] at h
      obtain ⟨_, -, _, -, _, -, rfl⟩ := h
      exact .inl ⟨_, _, _, rfl⟩
  | enableVersion version =>
      simp only [executePayload, EnableVersion.execute, bind_eq_ok, pure_eq_ok] at h
      obtain ⟨_, -, rfl⟩ := h
      exact .inl ⟨_, _, _, rfl⟩
  | disableVersion version =>
      simp only [executePayload, DisableVersion.execute, bind_eq_ok, pure_eq_ok] at h
      obtain ⟨_, -, rfl⟩ := h
      exact .inl ⟨_, _, _, rfl⟩
  | ignoreMember validatorAddress ignored =>
      simp only [executePayload, IgnoreMember.execute, bind_eq_ok, pure_eq_ok] at h
      obtain ⟨set, hset, rfl⟩ := h
      exact .inr ⟨_, _, set, rfl, hset, rfl⟩
  | emergencyPause pause =>
      cases h
      exact .inl ⟨_, _, _, rfl⟩

theorem Hashi.executePayload_quiet {newPackage : Address}
    (h : self.executePayload newPackage data = .ok hashi') :
    Quiet self hashi' ∧ hashi'.proposals = self.proposals := by
  rcases executePayload_frame h with ⟨_, _, _, rfl⟩ | ⟨_, _, set, -, hset, rfl⟩
  · exact ⟨⟨rfl, rfl, rfl, rfl, rfl⟩, rfl⟩
  · exact ⟨⟨rfl, rfl, rfl, rfl, CommitteeSet.setMemberIgnored_epochs hset⟩, rfl⟩

/-! ## Votes -/

theorem quiet_proposals (self : Hashi) (proposals : Proposals) :
    Quiet self { self with proposals } := ⟨rfl, rfl, rfl, rfl, rfl⟩

theorem Hashi.createProposal_eq_ok {validatorAddress : Address}
    {quorumThresholdBps : Nat} {metadata : VecMap String String}
    (h : self.createProposal validatorAddress data quorumThresholdBps metadata now ctx =
      .ok hashi') :
    self.committeeSet.memberAuthorized validatorAddress ctx = true ∧
      (¬ self.hasCurrentCommittee ∨ self.seated validatorAddress = true) ∧
      ctx.fresh ∉ self.proposals.active ∧
      hashi' = { self with
        proposals := { self.proposals with
          active := self.proposals.active.insert ctx.fresh
            { id := ctx.fresh, creator := validatorAddress, votes := [validatorAddress]
              quorumThresholdBps, createdTimestampMs := now, executedTimestampMs := none, metadata
              data } } } := by
  simp only [createProposal, bind_eq_ok, pure_eq_ok, require_eq_ok, Bag.add_eq_ok] at h
  obtain ⟨_, hauthorized, _, hseated, _, -, _, ⟨hnew, rfl⟩, rfl⟩ := h
  exact ⟨hauthorized, hseated, hnew, rfl⟩

theorem Hashi.proposeWith_step {check : Except Abort Unit} {thresholdBps : Except Abort Nat}
    {validatorAddress : Address} {metadata : VecMap String String}
    (h : self.proposeWith check thresholdBps validatorAddress data metadata now ctx = .ok hashi') :
    Proposals.Step self.seatedCommittee now self.proposals (.create ctx.fresh) hashi'.proposals ∧
      Quiet self hashi' := by
  simp only [proposeWith, bind_eq_ok] at h
  obtain ⟨_, -, _, -, threshold, -, h⟩ := h
  obtain ⟨-, hseated, hnew, rfl⟩ := createProposal_eq_ok h
  refine ⟨Proposals.Step.create
    (p := { id := ctx.fresh, creator := validatorAddress, votes := [validatorAddress]
            quorumThresholdBps := threshold, createdTimestampMs := now, executedTimestampMs := none
            metadata, data })
    hnew rfl rfl rfl fun committee hcommittee => ?_, quiet_proposals ..⟩
  have hmem : self.hasCurrentCommittee := Bag.mem_of_lookup hcommittee
  have hany := hseated.resolve_left (not_not.mpr hmem)
  rw [Hashi.seated, show self.committeeSet.committees.lookup _ = some committee from hcommittee]
    at hany
  exact hany

variable {kind : ProposalKind}

theorem Hashi.borrowActive_eq_ok {proposals : Proposals}
    {proposalId : Address} {p : Proposal} (h : proposals.borrowActive kind proposalId = .ok p) :
    proposals.active.lookup proposalId = some p := by
  simp only [Proposals.borrowActive, bind_eq_ok, Bag.borrow_eq_ok, pure_eq_ok] at h
  obtain ⟨_, hp, _, -, rfl⟩ := h
  exact hp

theorem Hashi.isExpired_eq_ok {p : Proposal} {expired : Bool} (h : p.isExpired now = .ok expired) :
    expired = decide (p.createdTimestampMs + MAX_PROPOSAL_DURATION_MS < now) := by
  simp only [Proposal.isExpired, bind_eq_ok, addU64_eq_ok, pure_eq_ok] at h
  obtain ⟨_, ⟨-, rfl⟩, rfl⟩ := h
  rfl

theorem Hashi.quorumReached_eq_ok {p : Proposal} {committee : Committee}
    (h : p.quorumReached committee = .ok true) : p.quorumThresholdBps ≤ Threshold.MAX_BPS ∧
      committee.required p.quorumThresholdBps ≤ committee.support p.votes := by
  simp only [Proposal.quorumReached, Threshold.weightThreshold, bind_eq_ok, sumU64_eq_ok,
    require_eq_ok, mulU64_eq_ok, pure_eq_ok, decide_eq_true_eq] at h
  obtain ⟨_, ⟨-, rfl⟩, _, ⟨_, hbps, _, ⟨-, rfl⟩, rfl⟩, hle⟩ := h
  exact ⟨hbps, hle⟩

theorem Hashi.vote_step {validatorAddress proposalId : Address}
    (h : self.vote kind validatorAddress proposalId now ctx = .ok hashi') :
    Proposals.Step self.seatedCommittee now self.proposals (.vote proposalId validatorAddress)
      hashi'.proposals ∧ Quiet self hashi' := by
  simp only [vote, currentCommittee, CommitteeSet.currentCommittee, CommitteeSet.getCommittee,
    bind_eq_ok, pure_eq_ok, require_eq_ok, Bag.borrow_eq_ok] at h
  obtain ⟨_, -, _, -, _, -, _, hseated, p, hp, _, hnot, expired, hexpired, _, hlive, committee,
    hcommittee, _, -, rfl⟩ := h
  rw [isExpired_eq_ok hexpired, decide_eq_false_iff_not, Nat.not_lt] at hlive
  rw [Hashi.seated, hcommittee] at hseated
  exact ⟨.vote (borrowActive_eq_ok hp) hnot hcommittee hseated hlive, quiet_proposals ..⟩

theorem Hashi.removeVote_step {validatorAddress proposalId : Address}
    (h : self.removeVote kind validatorAddress proposalId ctx = .ok hashi') :
    Proposals.Step self.seatedCommittee now self.proposals (.unvote proposalId validatorAddress)
      hashi'.proposals ∧ Quiet self hashi' := by
  simp only [removeVote, bind_eq_ok, pure_eq_ok, require_eq_ok] at h
  obtain ⟨_, -, _, -, p, hp, _, hmem, rfl⟩ := h
  exact ⟨.unvote (borrowActive_eq_ok hp) hmem, quiet_proposals ..⟩

theorem Hashi.deleteExpired_step {proposalId : Address}
    (h : self.deleteExpired kind proposalId now = .ok hashi') :
    Proposals.Step self.seatedCommittee now self.proposals (.delete proposalId) hashi'.proposals ∧
      Quiet self hashi' := by
  simp only [deleteExpired, Proposals.removeActive, bind_eq_ok, pure_eq_ok, require_eq_ok] at h
  obtain ⟨_, -, _, hfresh, _, ⟨p, hp, rfl⟩, expired, hexpired, _, hpast, rfl⟩ := h
  rw [isExpired_eq_ok hexpired, decide_eq_true_eq] at hpast
  exact ⟨.delete (borrowActive_eq_ok hp) hfresh hpast, quiet_proposals ..⟩

theorem Hashi.executeProposal_step {proposalId : Address}
    (h : self.executeProposal kind proposalId now = .ok (hashi', data)) :
    Proposals.Step self.seatedCommittee now self.proposals (.execute proposalId) hashi'.proposals ∧
      Quiet self hashi' := by
  simp only [executeProposal, Proposals.removeActive, currentCommittee,
    CommitteeSet.currentCommittee, CommitteeSet.getCommittee, bind_eq_ok, pure_eq_ok, require_eq_ok,
    Bag.borrow_eq_ok, Bag.add_eq_ok, Prod.mk.injEq] at h
  obtain ⟨_, -, _, hfresh, _, ⟨p, hp, rfl⟩, expired, hexpired, _, hlive, committee, hcommittee,
    reached, hreached, _, hquorum, _, ⟨hfresh', rfl⟩, rfl, -⟩ := h
  rw [isExpired_eq_ok hexpired, decide_eq_false_iff_not, Nat.not_lt] at hlive
  rw [hquorum] at hreached
  obtain ⟨hbps, hle⟩ := quorumReached_eq_ok hreached
  exact ⟨.execute (borrowActive_eq_ok hp) hfresh hfresh' hlive hcommittee hbps hle,
    quiet_proposals ..⟩

theorem GovernanceCall.refines {call : GovernanceCall} (h : call.run now ctx self = .ok hashi') :
    (∃ op, call.Effect ctx.fresh op ∧
      Proposals.Step self.seatedCommittee now self.proposals op hashi'.proposals) ∧
      Quiet self hashi' := by
  cases call with
  | propose validatorAddress data metadata =>
      have hpropose : Proposals.Step self.seatedCommittee now self.proposals (.create ctx.fresh)
          hashi'.proposals ∧ Quiet self hashi' := by
        cases data <;> exact Hashi.proposeWith_step h
      exact ⟨⟨_, rfl, hpropose.1⟩, hpropose.2⟩
  | vote kind validatorAddress proposalId =>
      obtain ⟨hstep, hquiet⟩ := Hashi.vote_step h
      exact ⟨⟨_, rfl, hstep⟩, hquiet⟩
  | removeVote kind validatorAddress proposalId =>
      obtain ⟨hstep, hquiet⟩ := Hashi.removeVote_step h
      exact ⟨⟨_, rfl, hstep⟩, hquiet⟩
  | execute kind proposalId newPackage =>
      simp only [GovernanceCall.run, Hashi.execute, bind_eq_ok] at h
      obtain ⟨⟨archived, data⟩, harchive, hpayload⟩ := h
      obtain ⟨hstep, hquiet⟩ := Hashi.executeProposal_step harchive
      obtain ⟨hquiet', hproposals⟩ := Hashi.executePayload_quiet hpayload
      exact ⟨⟨_, rfl, by rw [hproposals]; exact hstep⟩, hquiet.trans hquiet'⟩
  | deleteExpired kind proposalId =>
      obtain ⟨hstep, hquiet⟩ := Hashi.deleteExpired_step h
      exact ⟨⟨_, rfl, hstep⟩, hquiet⟩

/-- Every call but an execution writes the proposals only, and an execution archives its proposal
before it applies the payload. -/
theorem GovernanceCall.frame {call : GovernanceCall} (h : call.run now ctx self = .ok hashi') :
    (∃ proposals, hashi' = { self with proposals }) ∨
      ∃ kind id newPackage p proposals, call = .execute kind id newPackage ∧
        self.proposals.active.lookup id = some p ∧
        self.committeeSet.epoch ∈ self.committeeSet.committees ∧
        ({ self with proposals } : Hashi).executePayload newPackage p.data = .ok hashi' := by
  cases call with
  | propose validatorAddress data metadata =>
      have hpropose : ∃ check threshold, self.proposeWith check threshold validatorAddress data
          metadata now ctx = .ok hashi' := by
        cases data <;> exact ⟨_, _, h⟩
      obtain ⟨check, threshold, hpropose⟩ := hpropose
      simp only [Hashi.proposeWith, bind_eq_ok] at hpropose
      obtain ⟨_, -, _, -, _, -, hcreate⟩ := hpropose
      obtain ⟨-, -, -, rfl⟩ := Hashi.createProposal_eq_ok hcreate
      exact .inl ⟨_, rfl⟩
  | vote kind validatorAddress proposalId =>
      simp only [GovernanceCall.run, Hashi.vote, bind_eq_ok, pure_eq_ok] at h
      obtain ⟨_, -, _, -, _, -, _, -, _, -, _, -, _, -, _, -, _, -, _, -, rfl⟩ := h
      exact .inl ⟨_, rfl⟩
  | removeVote kind validatorAddress proposalId =>
      simp only [GovernanceCall.run, Hashi.removeVote, bind_eq_ok, pure_eq_ok] at h
      obtain ⟨_, -, _, -, _, -, _, -, rfl⟩ := h
      exact .inl ⟨_, rfl⟩
  | execute kind proposalId newPackage =>
      simp only [GovernanceCall.run, Hashi.execute, Hashi.executeProposal, Proposals.removeActive,
        Hashi.currentCommittee, CommitteeSet.currentCommittee, CommitteeSet.getCommittee, bind_eq_ok,
        pure_eq_ok, Bag.borrow_eq_ok] at h
      obtain ⟨⟨archived, _⟩, ⟨_, -, _, -, _, ⟨p, hp, rfl⟩, _, -, _, -, _, hcommittee, _, -, _, -, _, -,
        rfl, rfl⟩, hpayload⟩ := h
      exact .inr ⟨kind, proposalId, newPackage, p, _, rfl, Hashi.borrowActive_eq_ok hp,
        Bag.mem_of_lookup hcommittee, hpayload⟩
  | deleteExpired kind proposalId =>
      simp only [GovernanceCall.run, Hashi.deleteExpired, bind_eq_ok, pure_eq_ok] at h
      obtain ⟨_, -, _, -, _, -, _, -, _, -, rfl⟩ := h
      exact .inl ⟨_, rfl⟩

end HashiBridge.Chain
