import HashiBridge.Btc.Ledger
import HashiBridge.Core.Ballots
import HashiBridge.Core.Epochs
import HashiBridge.Chain.Machine

/-!
# What the calls are for

The root object seen as a ledger and as a chain of committee epochs, and the effect that each call
is meant to have on the two. A call that aborts has none.
-/

namespace HashiBridge.Chain

open Lib HashiBridge.Core Btc

/-! ## Views -/

def donatedBy (request : DepositRequest) : Nat := Ledger.donation request.utxo

def Hashi.ledger (hashi : Hashi) (circulating : Nat) : Ledger where
  pool := hashi.bitcoin.utxoPool
  queue := hashi.bitcoin.withdrawalQueue
  supply := hashi.treasury.supply
  circulating := circulating
  donated := hashi.bitcoin.depositQueue.processed.sum donatedBy
  epoch := hashi.committeeSet.epoch
  numConsumed := hashi.presigAllocator.numConsumed

def World.ledger (w : World) : Ledger := w.hashi.ledger w.circulating

def World.epochs (w : World) : EpochState := w.hashi.committeeSet.epochs

def Hashi.seatedCommittee (hashi : Hashi) : Option Committee :=
  hashi.committeeSet.committees.lookup hashi.committeeSet.epoch

def Certifies (env : Env) (hashi : Hashi) (outgoing incoming : Committee)
    (cert : CommitteeSignature) : Prop :=
  ∃ certified, hashi.verifyWithCommittee env outgoing (.committeeTransition incoming) cert =
    .ok certified

/-! ## Effects -/

def BridgeCall.Effect (fresh : Address) (ops : List Op) : BridgeCall → Prop
  | deposit _ | approveDeposit _ _ | deleteExpiredDeposit _ => ops = []
  | confirmDeposit _ => ∃ utxo, ops = [.receive utxo]
  | requestWithdrawal _ _ => ∃ r, r.id = fresh ∧ ops = [.request r]
  | cancelWithdrawal requestId => ops = [.cancel requestId]
  | approveRequest requestId _ => ops = [.approve requestId]
  | commitWithdrawalTx requestIds _ _ _ _ _ =>
      ∃ t, t.id = fresh ∧ t.requestIds = requestIds ∧ ops = [.commit t]
  | commitInputSignatures withdrawalId _ _ _ | finalizeWithdrawal withdrawalId _ _ =>
      ops = [.fill withdrawalId]
  | confirmWithdrawal withdrawalId _ => ops = [.confirm withdrawalId]
  | archiveConfirmedWithdrawals withdrawalIds | finishArchiveWithdrawalTxns withdrawalIds =>
      ∀ op ∈ ops, op.Archives withdrawalIds
  | archiveWithdrawalRequests withdrawalId _ => ∀ op ∈ ops, op.Archives [withdrawalId]
  | reallocatePresigs withdrawalId _ => ops = [.reassign withdrawalId]
  | cleanupSpentUtxos _ => ∀ op ∈ ops, ∃ id, op = .cleanup id

def ReconfigCall.Effect (now : Nat) (op : EpochOp) : ReconfigCall → Prop
  | startReconfig _ => ∃ committee, op = .start committee
  | submitCommitteeHandoff epoch cert => epoch = now ∧ op = .handoff cert
  | endReconfig mpcPublicKey mpcCert => mpcCert.epoch = now ∧ op = .finish mpcPublicKey
  | abortReconfig epoch => op = .abort epoch

def GovernanceCall.Effect (fresh : Address) (op : BallotOp) : GovernanceCall → Prop
  | propose _ _ _ => op = .create fresh
  | vote _ validatorAddress proposalId => op = .vote proposalId validatorAddress
  | removeVote _ validatorAddress proposalId => op = .unvote proposalId validatorAddress
  | execute _ proposalId _ => op = .execute proposalId
  | deleteExpired _ proposalId => op = .delete proposalId

namespace Label

def LedgerEffect (ops : List Op) : Label → Prop
  | .call _ _ fresh (.bridge entry) => entry.Effect fresh ops
  | .call _ _ _ (.reconfig (.endReconfig _ mpcCert)) => ops = [.rotate mpcCert.epoch]
  | _ => ops = []

def EpochEffect (now : Nat) (ops : List EpochOp) : Label → Prop
  | .call _ _ _ (.reconfig entry) => ∃ op, entry.Effect now op ∧ ops = [op]
  | _ => ops = []

def BallotEffect (ops : List BallotOp) : Label → Prop
  | .call _ _ fresh (.governance entry) => ∃ op, entry.Effect fresh op ∧ ops = [op]
  | _ => ops = []

def activates : Label → Option Nat
  | .call _ _ _ (.reconfig (.endReconfig _ mpcCert)) => some mpcCert.epoch
  | _ => none

def aborts : Label → Option Nat
  | .call _ _ _ (.reconfig (.abortReconfig epoch)) => some epoch
  | _ => none

def settles (label : Label) : Option Nat := label.activates.or label.aborts

def requests : Label → Option Address
  | .call _ _ fresh (.bridge (.requestWithdrawal _ _)) => some fresh
  | _ => none

def cancels : Label → Option Address
  | .call _ _ _ (.bridge (.cancelWithdrawal requestId)) => some requestId
  | _ => none

def commits : Label → Option Address
  | .call _ _ fresh (.bridge (.commitWithdrawalTx ..)) => some fresh
  | _ => none

/-- The withdrawal transaction to which a label hands out presignatures. -/
def allocates : Label → Option Address
  | .call _ _ _ (.bridge (.reallocatePresigs withdrawalId _)) => some withdrawalId
  | label => label.commits

def proposes : Label → Option Address
  | .call _ _ fresh (.governance (.propose ..)) => some fresh
  | _ => none

def deletes : Label → Option Address
  | .call _ _ _ (.governance (.deleteExpired _ proposalId)) => some proposalId
  | _ => none

def executes : Label → Option Address
  | .call _ _ _ (.governance (.execute _ proposalId _)) => some proposalId
  | _ => none

def touches : Label → Option Address
  | .call _ _ _ (.governance (.vote _ _ proposalId))
  | .call _ _ _ (.governance (.removeVote _ _ proposalId))
  | .call _ _ _ (.governance (.execute _ proposalId _))
  | .call _ _ _ (.governance (.deleteExpired _ proposalId)) => some proposalId
  | _ => none

def fresh : Label → Option Address
  | .advance _ _ => none
  | .call _ _ id _ => some id

theorem fresh_of_requests (label : Label) (id : Address) (h : label.requests = some id) :
    label.fresh = some id := by
  unfold requests at h
  split at h <;> cases h
  rfl

theorem fresh_of_commits (label : Label) (id : Address) (h : label.commits = some id) :
    label.fresh = some id := by
  unfold commits at h
  split at h <;> cases h
  rfl

theorem fresh_of_proposes (label : Label) (id : Address) (h : label.proposes = some id) :
    label.fresh = some id := by
  unfold proposes at h
  split at h <;> cases h
  rfl

end Label

/-- A step of the world is a run of each of the three machines, with the effect of its label. -/
structure Refines (env : Env) (w : World) (label : Label) (w' : World) : Prop where
  ledger : ∃ ops, label.LedgerEffect ops ∧ Run Ledger.Step w.ledger ops w'.ledger
  epochs : ∃ ops, label.EpochEffect w.epoch ops ∧
    Run (EpochState.Step (Certifies env w.hashi) w.epoch) w.epochs ops w'.epochs
  ballots : ∃ ops, label.BallotEffect ops ∧
    Run (Proposals.Step w.hashi.seatedCommittee w.clock) w.hashi.proposals ops w'.hashi.proposals
  id_eq : w'.hashi.id = w.hashi.id
  epoch_le : w.epoch ≤ w'.epoch
  clock_le : w.clock ≤ w'.clock
  fresh_new : ∀ id, label.fresh = some id → id ∉ w.ids
  ids_eq : w'.ids = w.ids ∪ label.fresh.toFinset

end HashiBridge.Chain
