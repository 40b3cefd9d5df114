import HashiBridge.Chain.Hashi

/-!
# Withdrawal entry functions

Request, cancellation, approval, commitment, signing, confirmation and the permissionless archival
and cleanup calls. Randomness drawn on chain is an argument.
-/

namespace HashiBridge.Chain

open Lib HashiBridge.Core Btc

namespace Hashi

def withQueue (self : Hashi) (withdrawalQueue : WithdrawalRequestQueue) : Hashi :=
  { self with bitcoin := { self.bitcoin with withdrawalQueue } }

def withPool (self : Hashi) (utxoPool : UtxoPool) : Hashi :=
  { self with bitcoin := { self.bitcoin with utxoPool } }

/-! ## Requests -/

def requestWithdrawal (self : Hashi) (now : Nat) (btc : Nat) (bitcoinAddress : Bytes)
    (ctx : TxContext) : Except Abort Hashi := do
  self.versioning.assertVersionEnabled
  self.assertUnpaused
  let minimum ← BtcConfig.bitcoinWithdrawalMinimum self.config
  require (minimum ≤ btc) Abort.belowMinimumWithdrawal
  require (bitcoinAddress.length = 20 ∨ bitcoinAddress.length = 32) Abort.invalidBitcoinAddress
  let request ← WithdrawalRequest.create btc bitcoinAddress now ctx
  let queue ← self.bitcoin.withdrawalQueue.insertWithdrawal request
  let bitcoin ← (self.withQueue queue).bitcoin.indexUserRequest ctx.sender request.id
  return { self with bitcoin }

def cancelWithdrawal (self : Hashi) (requestId : Address) (now : Nat) (ctx : TxContext) :
    Except Abort (Hashi × Nat) := do
  self.versioning.assertVersionEnabled
  require (self.bitcoin.withdrawalQueue.isRequestProcessing requestId = false)
    Abort.cannotCancelProcessingWithdrawal
  let request ← self.bitcoin.withdrawalQueue.borrowRequest requestId
  require (request.sender = ctx.sender) Abort.unauthorizedCancellation
  let cooldown ← BtcConfig.withdrawalCancellationCooldownMs self.config
  let earliest ← add request.createdTimestampMs cooldown
  require (earliest ≤ now) Abort.cooldownNotElapsed
  let (queue, btc) ← self.bitcoin.withdrawalQueue.cancelWithdrawal requestId
  return ({ self with
    bitcoin := (self.withQueue queue).bitcoin.unindexUserRequest ctx.sender requestId }, btc)

def approveRequest (env : Env) (self : Hashi) (requestId : Address) (cert : CommitteeSignature)
    (now : Nat) : Except Abort Hashi := do
  self.versioning.assertVersionEnabled
  self.assertUnpaused
  self.assertNotReconfiguring
  let _ ← self.verify env (.requestApproval requestId) cert
  let queue ← self.bitcoin.withdrawalQueue.approveWithdrawal requestId cert now
  return self.withQueue queue

/-! ## Commitment -/

/-- Commit approved requests to a Bitcoin transaction: lock its inputs, drain and burn the escrow
of its requests and add its change to the pool. -/
def commitWithdrawalTx (env : Env) (self : Hashi) (requestIds : List Address)
    (selectedUtxos : List UtxoId) (outputs : List OutputUtxo) (txid : Address)
    (cert : CommitteeSignature) (now : Nat) (randomness : Bytes) (ctx : TxContext) :
    Except Abort Hashi := do
  self.versioning.assertVersionEnabled
  self.assertUnpaused
  self.assertNotReconfiguring
  let _ ← self.verify env (.withdrawalCommitment requestIds selectedUtxos outputs txid) cert
  let inputs ← selectedUtxos.mapM self.bitcoin.utxoPool.getUtxo
  let requestInfos ← self.bitcoin.withdrawalQueue.extractRequestInfos requestIds
  let (presigs, presigAllocator) ← self.presigAllocator.allocate inputs.length
  let txn ← WithdrawalTransaction.new ctx.fresh requestIds requestInfos inputs outputs txid presigs
    self.committeeSet.epoch self.config now randomness
  let locked ← (txn.inputs.map Utxo.id).foldlM (fun pool id => pool.lock id txn.id)
    self.bitcoin.utxoPool
  let (committed, btcToBurn) ← self.bitcoin.withdrawalQueue.commitRequests txn
  let treasury ← self.treasury.burn btcToBurn
  let pool ← txn.buildChangeUtxos.foldlM (fun pool utxo => pool.insertPending utxo txn.id) locked
  let queue ← committed.insertWithdrawalTxn txn
  return { (self.withQueue queue).withPool pool with treasury, presigAllocator }

/-! ## Signing -/

def commitInputSignatures (env : Env) (self : Hashi) (withdrawalId : Address) (indices : List Nat)
    (signatures : List Bytes) (cert : CommitteeSignature) : Except Abort Hashi := do
  self.versioning.assertVersionEnabled
  self.assertUnpaused
  self.assertNotReconfiguring
  let _ ← self.verify env (.mpcInputSignatures withdrawalId indices signatures) cert
  let queue ← self.bitcoin.withdrawalQueue.recordInputSignatures withdrawalId indices signatures
  return self.withQueue queue

def finalizeWithdrawal (env : Env) (self : Hashi) (withdrawalId : Address)
    (guardianSignatures : List Bytes) (cert : CommitteeSignature) (now : Nat) :
    Except Abort Hashi := do
  self.versioning.assertVersionEnabled
  self.assertUnpaused
  self.assertNotReconfiguring
  let txn ← self.bitcoin.withdrawalQueue.borrowWithdrawalTxn withdrawalId
  let signatures ← txn.signing.toSignatures
  let _ ← self.verify env (.withdrawalSigned withdrawalId signatures guardianSignatures) cert
  let queue ← self.bitcoin.withdrawalQueue.finalizeWithdrawalTxn withdrawalId guardianSignatures now
  return self.withQueue queue

/-- Give the pending inputs of a stale signing batch fresh presignatures. -/
def reallocatePresigs (self : Hashi) (withdrawalId : Address) (randomness : Bytes) :
    Except Abort Hashi := do
  self.versioning.assertVersionEnabled
  self.assertUnpaused
  self.assertNotReconfiguring
  let txn ← self.bitcoin.withdrawalQueue.borrowWithdrawalTxn withdrawalId
  let (presigs, presigAllocator) ← self.presigAllocator.allocate txn.signing.pendingCount
  let queue ← self.bitcoin.withdrawalQueue.reallocatePresigsForWithdrawalTxn withdrawalId presigs
    self.committeeSet.epoch randomness
  return { self.withQueue queue with presigAllocator }

/-! ## Confirmation, archival and cleanup -/

/-- Record the confirmation, mark the inputs spent and promote the change. -/
def confirmWithdrawal (env : Env) (self : Hashi) (withdrawalId : Address)
    (cert : CommitteeSignature) (now : Nat) : Except Abort Hashi := do
  self.versioning.assertVersionEnabled
  self.assertUnpaused
  let _ ← self.verify env (.withdrawalConfirmation withdrawalId) cert
  let txn ← self.bitcoin.withdrawalQueue.borrowWithdrawalTxn withdrawalId
  require txn.txnFullySigned Abort.withdrawNotFullySigned
  let queue ← self.bitcoin.withdrawalQueue.markTxnConfirmed withdrawalId now
  let spent ← (txn.inputs.map Utxo.id).foldlM
    (fun pool id => pool.markSpent id self.committeeSet.epoch) self.bitcoin.utxoPool
  let pool := txn.changeUtxoIds.foldl UtxoPool.confirmPending spent
  return (self.withQueue queue).withPool pool

def archiveConfirmedWithdrawals (self : Hashi) (withdrawalIds : List Address) :
    Except Abort Hashi := do
  self.versioning.assertVersionEnabled
  let queue ← withdrawalIds.foldlM WithdrawalRequestQueue.archiveWithdrawalTxn
    self.bitcoin.withdrawalQueue
  return self.withQueue queue

def archiveWithdrawalRequests (self : Hashi) (withdrawalId : Address) (requestIds : List Address) :
    Except Abort Hashi := do
  self.versioning.assertVersionEnabled
  let queue ← self.bitcoin.withdrawalQueue.archiveWithdrawalRequests withdrawalId requestIds
  return self.withQueue queue

def finishArchiveWithdrawalTxns (self : Hashi) (withdrawalIds : List Address) :
    Except Abort Hashi := do
  self.versioning.assertVersionEnabled
  let queue ← withdrawalIds.foldlM WithdrawalRequestQueue.finishArchiveWithdrawalTxn
    self.bitcoin.withdrawalQueue
  return self.withQueue queue

def cleanupSpentUtxos (self : Hashi) (utxoIds : List UtxoId) : Except Abort Hashi := do
  self.versioning.assertVersionEnabled
  let pool ← utxoIds.foldlM UtxoPool.cleanupSpent self.bitcoin.utxoPool
  return self.withPool pool

end Hashi

end HashiBridge.Chain
