import HashiBridge.Lib.Run
import HashiBridge.Btc.BitcoinState

/-!
# The ledger behind the bridge's calls

An entry function that takes a list of ids does many small things, and a request or a transaction
changes bags without changing what it is.
-/

namespace HashiBridge.Btc

open Lib HashiBridge.Core

/-! ## Views of the queue -/

/-- What a transaction is for the pool and its requests: everything but its signatures. -/
structure TxnBody where
  requestIds : List Address
  inputIds : List UtxoId
  changeIds : List UtxoId
  confirmed : Bool
deriving DecidableEq

def WithdrawalTransaction.body (t : WithdrawalTransaction) : TxnBody :=
  ⟨t.requestIds, t.inputs.map Utxo.id, t.changeUtxoIds, t.confirmedTimestampMs.isSome⟩

namespace WithdrawalRequestQueue

def requestAt (q : WithdrawalRequestQueue) (id : Address) : Option WithdrawalRequest :=
  (q.requests.lookup id).or (q.processed.lookup id)

def txnAt (q : WithdrawalRequestQueue) (w : Address) : Option WithdrawalTransaction :=
  (q.withdrawalTxns.lookup w).or (q.confirmedTxns.lookup w)

def bodyAt (q : WithdrawalRequestQueue) (w : Address) : Option TxnBody :=
  (q.txnAt w).map WithdrawalTransaction.body

def liveBody (q : WithdrawalRequestQueue) (w : Address) : Option TxnBody :=
  (q.withdrawalTxns.lookup w).map WithdrawalTransaction.body

def doneBody (q : WithdrawalRequestQueue) (w : Address) : Option TxnBody :=
  (q.confirmedTxns.lookup w).map WithdrawalTransaction.body

theorem bodyAt_eq (q : WithdrawalRequestQueue) (w : Address) :
    q.bodyAt w = (q.liveBody w).or (q.doneBody w) := Option.map_or

end WithdrawalRequestQueue

/-! ## The ledger and its operations -/

/-- The state that deposits and withdrawals move: the pool, the queue, the BTC supply and the part of
it outside the bridge, the confirmed deposits without a recipient, the committee epoch and the
presignature counter. -/
@[ext]
structure Ledger where
  pool : UtxoPool
  queue : WithdrawalRequestQueue
  supply : Nat
  circulating : Nat
  donated : Nat
  epoch : Nat
  numConsumed : Nat

inductive Op
  | receive (utxo : Utxo)
  | request (r : WithdrawalRequest)
  | cancel (id : Address)
  | approve (id : Address)
  | commit (t : WithdrawalTransaction)
  | fill (w : Address)
  | reassign (w : Address)
  | confirm (w : Address)
  | archiveRequest (w id : Address)
  | archiveTxn (w : Address)
  | cleanup (id : UtxoId)
  | rotate (epoch : Nat)

/-- The transaction to which an operation hands out presignatures. -/
def Op.allocates : Op → Option Address
  | commit t => some t.id
  | reassign w => some w
  | _ => none

/-- The operation archives one of the transactions, or a request of one of them. -/
def Op.Archives (ws : List Address) (op : Op) : Prop :=
  ∃ w ∈ ws, op = .archiveTxn w ∨ ∃ id, op = .archiveRequest w id

namespace Ledger

def donation (utxo : Utxo) : Nat := if utxo.derivationPath.isSome then 0 else utxo.amount

/-- A block of pending slots from the allocator's next index on. -/
def freshBatch (start count epoch : Nat) : SigningBatch :=
  ⟨(List.range count).map fun j => .pending ⟨start + j⟩, epoch⟩

/-- What the commitment of `t` reads from the ledger and leaves in the records and requests. -/
structure Commits (l : Ledger) (t : WithdrawalTransaction) (records : Bag UtxoId UtxoRecord)
    (requests : Bag Address WithdrawalRequest) (burned : Nat) : Prop where
  fresh : l.queue.txnAt t.id = none
  unconfirmed : t.confirmedTimestampMs = none
  signing : t.signing = freshBatch l.numConsumed t.inputs.length l.epoch
  inputs_nodup : (t.inputs.map Utxo.id).Nodup
  inputs_free : ∀ u ∈ t.inputs, ∃ r,
    l.pool.utxoRecords.lookup u.id = some r ∧ r.utxo = u ∧ r.spentBy = none
  inputs_locked : ∀ id ∈ t.inputs.map Utxo.id, records.lookup id =
    (l.pool.utxoRecords.lookup id).map fun r => { r with spentBy := some t.id }
  change_new : ∀ id ∈ t.changeUtxoIds, ¬ l.pool.isSpentOrActive id
  change_added : ∀ u ∈ t.buildChangeUtxos, records.lookup u.id = some ⟨u, some t.id, none, none⟩
  records_rest : ∀ id, id ∉ t.inputs.map Utxo.id → id ∉ t.changeUtxoIds →
    records.lookup id = l.pool.utxoRecords.lookup id
  requests_nodup : t.requestIds.Nodup
  requests_open : ∀ id ∈ t.requestIds, ∃ r,
    l.queue.requests.lookup id = some r ∧ r.withdrawalTxnId = none
  requests_linked : ∀ id, requests.lookup id =
    if id ∈ t.requestIds then (l.queue.requests.lookup id).map (·.commitTo t.id)
    else l.queue.requests.lookup id
  balanced : (t.inputs.map Utxo.amount).sum = (t.changeOutputs.map OutputUtxo.amount).sum +
    (t.requestIds.map (l.queue.requests.weight WithdrawalRequest.btcAmount)).sum
  burned_eq : burned = (t.requestIds.map (l.queue.requests.weight WithdrawalRequest.btc)).sum
  burned_le : burned ≤ l.supply

/-- What confirming `t` leaves in the records: its inputs are spent and its change is promoted. -/
structure Confirms (l : Ledger) (t : WithdrawalTransaction) (records : Bag UtxoId UtxoRecord) :
    Prop where
  inputs_present : ∀ id ∈ t.inputs.map Utxo.id, id ∈ l.pool.utxoRecords
  records_eq : ∀ id, records.lookup id = (l.pool.utxoRecords.lookup id).map fun r =>
    { r with
      spentEpoch := if id ∈ t.inputs.map Utxo.id then some l.epoch else r.spentEpoch
      producedBy := if id ∈ t.changeUtxoIds then none else r.producedBy }

/-- What recording signatures and finalizing do to a transaction: pending slots may become signed,
nothing else about the batch changes. -/
structure Fills (t t' : WithdrawalTransaction) : Prop where
  body_eq : t'.body = t.body
  randomness_eq : t'.randomness = t.randomness
  epoch_eq : t'.signing.epoch = t.signing.epoch
  slots : ∀ (j : Nat) p, t'.signing.signatures[j]? = some (MpcSig.pending p) →
    t.signing.signatures[j]? = some (MpcSig.pending p)

/-- What reallocation does: the batch of a stale epoch takes the next block of presignatures for its
pending slots. -/
structure Reassigns (l : Ledger) (t t' : WithdrawalTransaction) : Prop where
  body_eq : t'.body = t.body
  signing_eq : t.signing.reallocate
    ((List.range t.signing.pendingCount).map fun j => ⟨l.numConsumed + j⟩) l.epoch = .ok t'.signing
  randomness_eq : t.signing.pendingCount = 0 → t'.randomness = t.randomness

inductive Step : Ledger → Op → Ledger → Prop
  | receive {l utxo} : ¬ l.pool.isSpentOrActive utxo.id →
      Step l (.receive utxo) { l with
        pool := { l.pool with
          utxoRecords := l.pool.utxoRecords.insert utxo.id ⟨utxo, none, none, none⟩ }
        supply := l.supply + utxo.minted
        circulating := l.circulating + utxo.minted
        donated := l.donated + donation utxo }
  | request {l r} : l.queue.requestAt r.id = none → r.withdrawalTxnId = none →
      r.btc = r.btcAmount → r.btc ≤ l.circulating →
      Step l (.request r) { l with
        queue := { l.queue with requests := l.queue.requests.insert r.id r }
        circulating := l.circulating - r.btc }
  | cancel {l id r} : l.queue.requests.lookup id = some r → r.withdrawalTxnId = none →
      Step l (.cancel id) { l with
        queue := { l.queue with requests := l.queue.requests.erase id }
        circulating := l.circulating + r.btc }
  | approve {l id r r'} : l.queue.requests.lookup id = some r → r.withdrawalTxnId = none →
      r'.withdrawalTxnId = none → r'.btc = r.btc → r'.btcAmount = r.btcAmount →
      Step l (.approve id) { l with
        queue := { l.queue with requests := l.queue.requests.insert id r' } }
  | commit {l t records requests burned} : l.Commits t records requests burned →
      Step l (.commit t) { l with
        pool := { l.pool with utxoRecords := records }
        queue := { l.queue with
          requests, withdrawalTxns := l.queue.withdrawalTxns.insert t.id t }
        supply := l.supply - burned
        numConsumed := l.numConsumed + t.inputs.length }
  | fill {l w t t'} : l.queue.withdrawalTxns.lookup w = some t → Fills t t' →
      Step l (.fill w) { l with queue := l.queue.setTxn w t' }
  | reassign {l w t t'} : l.queue.withdrawalTxns.lookup w = some t → l.Reassigns t t' →
      Step l (.reassign w) { l with
        queue := l.queue.setTxn w t'
        numConsumed := l.numConsumed + t.signing.pendingCount }
  | confirm {l w t records now} : l.queue.withdrawalTxns.lookup w = some t →
      t.confirmedTimestampMs = none → l.Confirms t records →
      Step l (.confirm w) { l with
        pool := { l.pool with utxoRecords := records }
        queue := l.queue.setTxn w { t with confirmedTimestampMs := some now } }
  | archiveRequest {l w t id r} : l.queue.withdrawalTxns.lookup w = some t → t.isConfirmed →
      l.queue.requests.lookup id = some r → r.withdrawalTxnId = some w →
      Step l (.archiveRequest w id) { l with
        queue := { l.queue with
          requests := l.queue.requests.erase id, processed := l.queue.processed.insert id r } }
  | archiveTxn {l w t} : l.queue.withdrawalTxns.lookup w = some t → t.isConfirmed →
      (∀ id ∈ t.requestIds, id ∈ l.queue.processed) →
      Step l (.archiveTxn w) { l with
        queue := { l.queue with
          withdrawalTxns := l.queue.withdrawalTxns.erase w
          confirmedTxns := l.queue.confirmedTxns.insert w t } }
  | cleanup {l id r epoch} : l.pool.utxoRecords.lookup id = some r → r.spentEpoch = some epoch →
      Step l (.cleanup id) { l with
        pool := ⟨l.pool.utxoRecords.erase id, l.pool.spentUtxos.insert id epoch⟩ }
  | rotate {l epoch} : l.epoch ≤ epoch →
      (l.epoch = epoch → l.numConsumed = 0 ∧ ∀ w, l.queue.txnAt w = none) →
      Step l (.rotate epoch) { l with epoch, numConsumed := 0 }

end Ledger

end HashiBridge.Btc
