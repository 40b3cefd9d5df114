import HashiBridge.Chain.Hashi

/-!
# Governance entry functions

Creating, voting on, executing and deleting proposals, and what each proposal type checks and
changes.
-/

namespace HashiBridge.Chain

open Lib HashiBridge.Core Btc

namespace Hashi

/-! ## The voting machinery -/

def hasCurrentCommittee (self : Hashi) : Prop := self.committeeSet.hasCommittee self.committeeSet.epoch

instance (self : Hashi) : Decidable self.hasCurrentCommittee :=
  inferInstanceAs (Decidable (self.committeeSet.hasCommittee _))

def seated (self : Hashi) (validatorAddress : Address) : Bool :=
  (self.committeeSet.committees.lookup self.committeeSet.epoch).any (·.hasMember validatorAddress)

/-- The creator's vote alone may reach the quorum; before genesis there is nothing to weigh. -/
def creationQuorum (self : Hashi) (proposal : Proposal) : Except Abort Bool :=
  match self.committeeSet.committees.lookup self.committeeSet.epoch with
  | some committee => proposal.quorumReached committee
  | none => .ok false

def createProposal (self : Hashi) (validatorAddress : Address) (data : ProposalData)
    (quorumThresholdBps : Nat) (metadata : VecMap String String) (now : Nat) (ctx : TxContext) :
    Except Abort Hashi := do
  require (self.committeeSet.memberAuthorized validatorAddress ctx) Abort.unauthorizedCaller
  require (¬ self.hasCurrentCommittee ∨ self.seated validatorAddress) Abort.notCommitteeMember
  let proposal : Proposal :=
    { id := ctx.fresh, creator := validatorAddress, votes := [validatorAddress], quorumThresholdBps
      createdTimestampMs := now, executedTimestampMs := none, metadata, data }
  -- the quorum check decides an event only, but its arithmetic can abort
  let _ ← self.creationQuorum proposal
  let active ← self.proposals.active.add Abort.fieldAlreadyExists proposal.id proposal
  return { self with proposals := { self.proposals with active } }

def vote (self : Hashi) (kind : ProposalKind) (validatorAddress proposalId : Address) (now : Nat)
    (ctx : TxContext) : Except Abort Hashi := do
  self.versioning.assertVersionEnabled
  require (self.committeeSet.memberAuthorized validatorAddress ctx) Abort.unauthorizedCaller
  require self.hasCurrentCommittee Abort.proposalNoCommittee
  require (self.seated validatorAddress) Abort.notCommitteeMember
  let proposal ← self.proposals.borrowActive kind proposalId
  require (validatorAddress ∉ proposal.votes) Abort.voteAlreadyCounted
  let expired ← proposal.isExpired now
  require (expired = false) Abort.proposalExpired
  let voted := { proposal with votes := proposal.votes ++ [validatorAddress] }
  let committee ← self.currentCommittee
  let _ ← voted.quorumReached committee
  return { self with
    proposals := { self.proposals with active := self.proposals.active.insert proposalId voted } }

def removeVote (self : Hashi) (kind : ProposalKind) (validatorAddress proposalId : Address)
    (ctx : TxContext) : Except Abort Hashi := do
  self.versioning.assertVersionEnabled
  require (self.committeeSet.memberAuthorized validatorAddress ctx) Abort.unauthorizedCaller
  let proposal ← self.proposals.borrowActive kind proposalId
  require (validatorAddress ∈ proposal.votes) Abort.noVoteFound
  let cleared := { proposal with votes := proposal.votes.erase validatorAddress }
  return { self with
    proposals := { self.proposals with active := self.proposals.active.insert proposalId cleared } }

def deleteExpired (self : Hashi) (kind : ProposalKind) (proposalId : Address) (now : Nat) :
    Except Abort Hashi := do
  self.versioning.assertVersionEnabled
  require (proposalId ∉ self.proposals.executed) Abort.proposalAlreadyExecuted
  let (proposal, proposals) ← self.proposals.removeActive kind proposalId
  let expired ← proposal.isExpired now
  require expired Abort.proposalNotExpired
  return { self with proposals }

def executeProposal (self : Hashi) (kind : ProposalKind) (proposalId : Address) (now : Nat) :
    Except Abort (Hashi × ProposalData) := do
  self.versioning.assertVersionEnabled
  require (proposalId ∉ self.proposals.executed) Abort.proposalAlreadyExecuted
  let (proposal, proposals) ← self.proposals.removeActive kind proposalId
  let expired ← proposal.isExpired now
  require (expired = false) Abort.proposalExpired
  let committee ← self.currentCommittee
  let reached ← proposal.quorumReached committee
  require reached Abort.quorumNotReached
  let executed ← proposals.executed.add Abort.fieldAlreadyExists proposal.id
    { proposal with executedTimestampMs := some now }
  return ({ self with proposals := { proposals with executed } }, proposal.data)

/-- The threshold of every proposal type but the emergency pause. -/
def THRESHOLD_BPS : Nat := 6667

def proposeWith (self : Hashi) (check : Except Abort Unit) (thresholdBps : Except Abort Nat)
    (validatorAddress : Address) (data : ProposalData) (metadata : VecMap String String) (now : Nat)
    (ctx : TxContext) : Except Abort Hashi := do
  self.versioning.assertVersionEnabled
  check
  let threshold ← thresholdBps
  self.createProposal validatorAddress data threshold metadata now ctx

end Hashi

/-! ## Checks of the config proposals -/

/-- Keys pinned for the deployment's lifetime are refused by every config proposal. -/
def assertGovernable (key : String) : Except Abort Unit :=
  require (Config.isGovernableKey key && BtcConfig.isGovernableKey key) Abort.protectedConfigKey

def upsertAll (store : Config) (entries : VecMap String Value) : Config :=
  entries.contents.foldl (fun config entry => config.upsert entry.1 entry.2) store

def assertConsistent (epochConfig : Config) : Except Abort Unit := do
  let consistent ← MpcConfig.isConsistent epochConfig
  require consistent Abort.inconsistentMpcConfig

def checkEntries (entries : VecMap String Value) (check : String × Value → Except Abort Unit) :
    Except Abort Unit := do
  require (entries.contents ≠ []) Abort.noEntriesProvided
  entries.contents.forM check

/-! ## The proposal types

Each type has its checks at proposal time and what its execution changes once the voting machinery
has released the payload. -/

namespace UpdateConfig

/-- An entry names an existing key of the instant store with a value of the stored type. -/
def assertValidEntry (hashi : Hashi) (entry : String × Value) : Except Abort Unit := do
  assertGovernable entry.1
  require (hashi.config.isValidConfigUpdate entry.1 entry.2) Abort.invalidConfigEntry

def propose (hashi : Hashi) (validatorAddress : Address) (entries : VecMap String Value)
    (metadata : VecMap String String) (now : Nat) (ctx : TxContext) : Except Abort Hashi :=
  hashi.proposeWith (checkEntries entries (assertValidEntry hashi)) (.ok Hashi.THRESHOLD_BPS)
    validatorAddress (.updateConfig entries) metadata now ctx

def execute (hashi : Hashi) (entries : VecMap String Value) : Except Abort Hashi := do
  entries.contents.forM (assertValidEntry hashi)
  return { hashi with config := upsertAll hashi.config entries }

end UpdateConfig

namespace UpdateEpochConfig

/-- An entry names an existing key of the epoch store with a value of the stored type that keeps
the MPC parameters in range. -/
def assertValidEntry (hashi : Hashi) (entry : String × Value) : Except Abort Unit := do
  assertGovernable entry.1
  require (hashi.epochConfig.isValidConfigUpdate entry.1 entry.2 &&
    MpcConfig.isValidValue entry.1 entry.2) Abort.invalidConfigEntry

def propose (hashi : Hashi) (validatorAddress : Address) (entries : VecMap String Value)
    (metadata : VecMap String String) (now : Nat) (ctx : TxContext) : Except Abort Hashi :=
  hashi.proposeWith (checkEntries entries (assertValidEntry hashi)) (.ok Hashi.THRESHOLD_BPS)
    validatorAddress (.updateEpochConfig entries) metadata now ctx

def execute (hashi : Hashi) (entries : VecMap String Value) : Except Abort Hashi := do
  entries.contents.forM (assertValidEntry hashi)
  let epochConfig := upsertAll hashi.epochConfig entries
  assertConsistent epochConfig
  return { hashi with epochConfig }

end UpdateEpochConfig

namespace AddConfig

def store (hashi : Hashi) (epoch : Bool) : Config := if epoch then hashi.epochConfig else hashi.config

def assertValidEntry (hashi : Hashi) (epoch : Bool) (entry : String × Value) :
    Except Abort Unit := do
  assertGovernable entry.1
  require ((store hashi epoch).contains entry.1 = false) Abort.configKeyAlreadyExists
  require (epoch = false ∨ MpcConfig.isValidValue entry.1 entry.2) Abort.invalidConfigEntry

def propose (hashi : Hashi) (validatorAddress : Address) (epoch : Bool)
    (entries : VecMap String Value) (metadata : VecMap String String) (now : Nat)
    (ctx : TxContext) : Except Abort Hashi :=
  hashi.proposeWith (checkEntries entries (assertValidEntry hashi epoch)) (.ok Hashi.THRESHOLD_BPS)
    validatorAddress (.addConfig epoch entries) metadata now ctx

def execute (hashi : Hashi) (epoch : Bool) (entries : VecMap String Value) : Except Abort Hashi := do
  entries.contents.forM (assertValidEntry hashi epoch)
  match epoch with
  | false => return { hashi with config := upsertAll hashi.config entries }
  | true =>
      let epochConfig := upsertAll hashi.epochConfig entries
      assertConsistent epochConfig
      return { hashi with epochConfig }

end AddConfig

namespace Upgrade

def propose (hashi : Hashi) (validatorAddress : Address) (digest : Bytes) (exclusive : Bool)
    (metadata : VecMap String String) (now : Nat) (ctx : TxContext) : Except Abort Hashi :=
  hashi.proposeWith (.ok ()) (.ok Hashi.THRESHOLD_BPS) validatorAddress (.upgrade digest exclusive)
    metadata now ctx

/-- The upgrade is committed in the transaction that executes it: its authorization can be neither
stored nor dropped. -/
def executeAndFinalize (hashi : Hashi) (exclusive : Bool) (newPackage : Address) :
    Except Abort Hashi := do
  let authorized ← hashi.versioning.authorizeUpgrade
  authorized.assertVersionEnabled
  let versioning ← authorized.commitUpgrade newPackage exclusive
  return { hashi with versioning }

end Upgrade

namespace EnableVersion

def propose (hashi : Hashi) (validatorAddress : Address) (version : Nat)
    (metadata : VecMap String String) (now : Nat) (ctx : TxContext) : Except Abort Hashi :=
  hashi.proposeWith (.ok ()) (.ok Hashi.THRESHOLD_BPS) validatorAddress (.enableVersion version)
    metadata now ctx

def execute (hashi : Hashi) (version : Nat) : Except Abort Hashi := do
  let versioning ← hashi.versioning.enableVersion version
  return { hashi with versioning }

end EnableVersion

namespace DisableVersion

def propose (hashi : Hashi) (validatorAddress : Address) (version : Nat)
    (metadata : VecMap String String) (now : Nat) (ctx : TxContext) : Except Abort Hashi :=
  hashi.proposeWith (.ok ()) (.ok Hashi.THRESHOLD_BPS) validatorAddress (.disableVersion version)
    metadata now ctx

def execute (hashi : Hashi) (version : Nat) : Except Abort Hashi := do
  let versioning ← hashi.versioning.disableVersion version
  return { hashi with versioning }

end DisableVersion

namespace IgnoreMember

def assertChangesState (hashi : Hashi) (target : Address) (ignored : Bool) : Except Abort Unit := do
  require (hashi.committeeSet.hasMember target) Abort.targetNotRegistered
  let current ← hashi.committeeSet.isMemberIgnored target
  require (current ≠ ignored) Abort.alreadyInRequestedState

def propose (hashi : Hashi) (validatorAddress target : Address) (ignored : Bool)
    (metadata : VecMap String String) (now : Nat) (ctx : TxContext) : Except Abort Hashi :=
  hashi.proposeWith (assertChangesState hashi target ignored) (.ok Hashi.THRESHOLD_BPS)
    validatorAddress (.ignoreMember target ignored) metadata now ctx

def execute (hashi : Hashi) (validatorAddress : Address) (ignored : Bool) : Except Abort Hashi := do
  let committeeSet ← hashi.committeeSet.setMemberIgnored validatorAddress ignored
  return { hashi with committeeSet }

end IgnoreMember

namespace EmergencyPause

def threshold (hashi : Hashi) (pause : Bool) : Except Abort Nat :=
  if pause then hashi.config.emergencyPauseThresholdBps
  else hashi.config.emergencyUnpauseThresholdBps

def propose (hashi : Hashi) (validatorAddress : Address) (pause : Bool)
    (metadata : VecMap String String) (now : Nat) (ctx : TxContext) : Except Abort Hashi :=
  hashi.proposeWith (.ok ()) (threshold hashi pause) validatorAddress (.emergencyPause pause)
    metadata now ctx

def execute (hashi : Hashi) (pause : Bool) : Except Abort Hashi :=
  .ok { hashi with config := hashi.config.setPaused pause }

end EmergencyPause

namespace Hashi

def propose (self : Hashi) (validatorAddress : Address) (data : ProposalData)
    (metadata : VecMap String String) (now : Nat) (ctx : TxContext) : Except Abort Hashi :=
  match data with
  | .updateConfig entries => UpdateConfig.propose self validatorAddress entries metadata now ctx
  | .updateEpochConfig entries =>
      UpdateEpochConfig.propose self validatorAddress entries metadata now ctx
  | .addConfig epoch entries => AddConfig.propose self validatorAddress epoch entries metadata now ctx
  | .upgrade digest exclusive =>
      Upgrade.propose self validatorAddress digest exclusive metadata now ctx
  | .enableVersion version => EnableVersion.propose self validatorAddress version metadata now ctx
  | .disableVersion version => DisableVersion.propose self validatorAddress version metadata now ctx
  | .ignoreMember target ignored =>
      IgnoreMember.propose self validatorAddress target ignored metadata now ctx
  | .emergencyPause pause => EmergencyPause.propose self validatorAddress pause metadata now ctx

def executePayload (self : Hashi) (newPackage : Address) : ProposalData → Except Abort Hashi
  | .updateConfig entries => UpdateConfig.execute self entries
  | .updateEpochConfig entries => UpdateEpochConfig.execute self entries
  | .addConfig epoch entries => AddConfig.execute self epoch entries
  | .upgrade _ exclusive => Upgrade.executeAndFinalize self exclusive newPackage
  | .enableVersion version => EnableVersion.execute self version
  | .disableVersion version => DisableVersion.execute self version
  | .ignoreMember validatorAddress ignored => IgnoreMember.execute self validatorAddress ignored
  | .emergencyPause pause => EmergencyPause.execute self pause

def execute (self : Hashi) (kind : ProposalKind) (proposalId newPackage : Address) (now : Nat) :
    Except Abort Hashi := do
  let (archived, data) ← self.executeProposal kind proposalId now
  archived.executePayload newPackage data

end Hashi

end HashiBridge.Chain
