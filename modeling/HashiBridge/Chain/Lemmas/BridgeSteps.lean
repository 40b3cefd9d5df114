import HashiBridge.Btc.Lemmas.Archival
import HashiBridge.Btc.Lemmas.PresigInvariant
import HashiBridge.Btc.Lemmas.PoolSpecs
import HashiBridge.Chain.Views

/-!
# Deposit and withdrawal calls refine the ledger

Every call that succeeds is a run of ledger operations, and touches nothing but the Bitcoin state,
the treasury and the presignature allocator.
-/

namespace HashiBridge.Chain

open Lib HashiBridge.Core Btc

variable {env : Env} {self hashi' : Hashi} {circulating now : Nat} {ctx : TxContext}

def BridgeFrame (hashi hashi' : Hashi) : Prop :=
  hashi' = { hashi with
    bitcoin := hashi'.bitcoin, treasury := hashi'.treasury
    presigAllocator := hashi'.presigAllocator }

namespace Hashi

/-! ## The index of user requests -/

theorem indexUserRequest_eq_ok {b b' : BitcoinState} {user id : Address}
    (h : b.indexUserRequest user id = .ok b') : ∃ userRequests, b' = { b with userRequests } := by
  simp only [BitcoinState.indexUserRequest, bind_eq_ok, require_eq_ok, pure_eq_ok] at h
  obtain ⟨_, -, rfl⟩ := h
  exact ⟨_, rfl⟩

theorem unindexUserRequest_eq (b : BitcoinState) (user id : Address) :
    ∃ userRequests, b.unindexUserRequest user id = { b with userRequests } := by
  unfold BitcoinState.unindexUserRequest
  split
  · exact ⟨_, rfl⟩
  · exact ⟨_, rfl⟩

theorem indexRecipient_eq_ok {b b' : BitcoinState} {recipient : Option Address} {id : Address}
    (h : indexRecipient b recipient id = .ok b') : ∃ userRequests, b' = { b with userRequests } := by
  cases recipient with
  | none =>
      cases h
      exact ⟨_, rfl⟩
  | some user => exact indexUserRequest_eq_ok h

/-! ## Deposits -/

theorem deposit_step {utxo : Utxo} (h : self.deposit utxo now ctx = .ok hashi') :
    hashi'.ledger circulating = self.ledger circulating ∧ BridgeFrame self hashi' := by
  simp only [deposit, DepositRequestQueue.insertDeposit, bind_eq_ok, Bag.add_eq_ok, pure_eq_ok] at h
  obtain ⟨_, -, _, -, _, -, _, -, _, -, _, ⟨_, ⟨-, rfl⟩, rfl⟩, rfl⟩ := h
  exact ⟨rfl, rfl⟩

variable {cert : CommitteeSignature} {requestId : Address}

theorem approveDeposit_step
    (h : self.approveDeposit env requestId cert now = .ok hashi') :
    hashi'.ledger circulating = self.ledger circulating ∧ BridgeFrame self hashi' := by
  simp only [approveDeposit, DepositRequestQueue.approve, bind_eq_ok, pure_eq_ok] at h
  obtain ⟨_, -, _, -, _, -, _, -, _, -, _, -, _, -, _, -, _, ⟨_, -, rfl⟩, rfl⟩ := h
  exact ⟨rfl, rfl⟩

theorem deleteExpiredDeposit_step
    (h : self.deleteExpiredDeposit requestId now = .ok hashi') :
    hashi'.ledger circulating = self.ledger circulating ∧ BridgeFrame self hashi' := by
  simp only [deleteExpiredDeposit, DepositRequestQueue.deleteExpired,
    DepositRequestQueue.removeRequest, bind_eq_ok, pure_eq_ok] at h
  obtain ⟨_, -, _, ⟨_, -, _, ⟨_, -, rfl⟩, _, -, _, -, rfl⟩, rfl⟩ := h
  exact ⟨rfl, rfl⟩

theorem mintFor_supply {treasury treasury' : Treasury} {utxo : Utxo}
    (h : mintFor treasury utxo = .ok treasury') :
    treasury'.supply = treasury.supply + utxo.minted := by
  unfold mintFor at h
  unfold Utxo.minted
  split_ifs at h ⊢ with hpath
  · exact Treasury.mintBalance_supply h
  · cases h
    rfl

theorem confirmDeposit_step {minted : Nat}
    (h : self.confirmDeposit env requestId now = .ok (hashi', minted)) :
    (∃ utxo, Ledger.Step (self.ledger circulating) (.receive utxo)
      (hashi'.ledger (circulating + minted))) ∧ BridgeFrame self hashi' := by
  simp only [confirmDeposit, DepositRequestQueue.borrowRequest, DepositRequestQueue.removeRequest,
    DepositRequestQueue.insertProcessed, UtxoPool.insertActive, bind_eq_ok, pure_eq_ok,
    Bag.borrow_eq_ok, Bag.remove_eq_ok, Bag.add_eq_ok, UtxoPool.insertRecord_eq_ok,
    Prod.mk.injEq] at h
  obtain ⟨_, -, _, -, _, -, borrowed, hborrowed, _, -, _, ⟨⟨request, _⟩, ⟨hrequest, rfl⟩, rfl⟩, _, -,
    _, -, _, -, _, -, _, -, _, -, treasury, hmint, _, ⟨hnew, rfl⟩, _, ⟨_, ⟨hprocessed, rfl⟩, rfl⟩,
    bitcoin, hindex, rfl, rfl⟩ := h
  -- the request taken out of the bag is the one that was borrowed
  obtain rfl : borrowed = request := by
    rw [hborrowed] at hrequest
    exact Option.some.inj hrequest
  obtain ⟨userRequests, rfl⟩ := indexRecipient_eq_ok hindex
  have hdonated := Bag.sum_insert donatedBy self.bitcoin.depositQueue.processed borrowed.id
    { borrowed with confirmedTimestampMs := some now }
  rw [Bag.weight_of_notMem (Bag.lookup_of_notMem hprocessed), Nat.add_zero] at hdonated
  refine ⟨⟨borrowed.utxo, ?_⟩, rfl⟩
  convert Ledger.Step.receive (l := self.ledger circulating) hnew using 1
  exact Ledger.ext rfl rfl (mintFor_supply hmint) rfl hdonated rfl rfl

/-! ## Requests -/

theorem requestWithdrawal_step {btc : Nat} {bitcoinAddress : Bytes}
    (h : self.requestWithdrawal now btc bitcoinAddress ctx = .ok hashi')
    (hfresh : self.bitcoin.withdrawalQueue.requestAt ctx.fresh = none)
    (hle : btc ≤ circulating) :
    (∃ r, r.id = ctx.fresh ∧ Ledger.Step (self.ledger circulating) (.request r)
      (hashi'.ledger (circulating - btc))) ∧ BridgeFrame self hashi' := by
  simp only [requestWithdrawal, WithdrawalRequest.create, bind_eq_ok, pure_eq_ok,
    WithdrawalRequestQueue.insertWithdrawal_eq_ok] at h
  obtain ⟨_, -, _, -, _, -, _, -, _, -, _, ⟨_, -, rfl⟩, _, ⟨-, rfl⟩, bitcoin, hindex, rfl⟩ := h
  obtain ⟨userRequests, rfl⟩ := indexUserRequest_eq_ok hindex
  exact ⟨⟨_, rfl, .request hfresh rfl rfl hle⟩, rfl⟩

theorem cancelWithdrawal_step {refund : Nat}
    (h : self.cancelWithdrawal requestId now ctx = .ok (hashi', refund)) :
    Ledger.Step (self.ledger circulating) (.cancel requestId)
      (hashi'.ledger (circulating + refund)) ∧ BridgeFrame self hashi' := by
  simp only [cancelWithdrawal, bind_eq_ok, pure_eq_ok, Prod.mk.injEq] at h
  obtain ⟨_, -, _, -, _, -, _, -, _, -, _, -, _, -, ⟨queue, btc⟩, hcancel, rfl, rfl⟩ := h
  obtain ⟨r, hr, hopen, rfl, rfl⟩ := WithdrawalRequestQueue.cancelWithdrawal_eq_ok hcancel
  obtain ⟨userRequests, hindex⟩ := unindexUserRequest_eq
    (self.withQueue { self.bitcoin.withdrawalQueue with
      requests := self.bitcoin.withdrawalQueue.requests.erase requestId }).bitcoin
    ctx.sender requestId
  simp only [hindex]
  exact ⟨.cancel hr hopen, rfl⟩

theorem approveRequest_step
    (h : self.approveRequest env requestId cert now = .ok hashi') :
    Ledger.Step (self.ledger circulating) (.approve requestId) (hashi'.ledger circulating) ∧
      BridgeFrame self hashi' := by
  simp only [approveRequest, bind_eq_ok, pure_eq_ok] at h
  obtain ⟨_, -, _, -, _, -, _, -, queue, happrove, rfl⟩ := h
  obtain ⟨r, hr, hopen, -, rfl⟩ := WithdrawalRequestQueue.approveWithdrawal_eq_ok happrove
  exact ⟨.approve hr hopen hopen rfl rfl, rfl⟩

/-! ## Commitment -/

theorem allocate_eq_ok {allocator allocator' : PresigAllocator} {count : Nat} {presigs : List Presig}
    (h : allocator.allocate count = .ok (presigs, allocator')) :
    presigs = SigningBatch.block allocator.numConsumed count ∧
      allocator'.numConsumed = allocator.numConsumed + count := by
  simp only [PresigAllocator.allocate, bind_eq_ok, addU64_eq_ok, pure_eq_ok, Prod.mk.injEq] at h
  obtain ⟨_, ⟨-, rfl⟩, rfl, rfl⟩ := h
  exact ⟨rfl, rfl⟩

theorem getUtxo_selected {pool : UtxoPool} {ids : List UtxoId} {inputs : List Utxo}
    (h : ids.mapM pool.getUtxo = .ok inputs) :
    ∀ u ∈ inputs, ∃ id r, pool.utxoRecords.lookup id = some r ∧ r.utxo = u := by
  rw [mapM_eq_ok] at h
  induction h with
  | nil => simp
  | @cons id u _ _ hget _ ih =>
      rintro v (_ | ⟨_, hv⟩)
      · exact ⟨id, UtxoPool.getUtxo_eq_ok.mp hget⟩
      · exact ih v hv

theorem lock_and_insert {p locked pool : UtxoPool} {t : WithdrawalTransaction}
    (hlock : (t.inputs.map Utxo.id).foldlM (fun pool id => pool.lock id t.id) p = .ok locked)
    (hinsert : t.buildChangeUtxos.foldlM (fun pool utxo => pool.insertPending utxo t.id) locked =
      .ok pool) :
    pool.spentUtxos = p.spentUtxos ∧ (t.inputs.map Utxo.id).Nodup ∧
      (∀ id ∈ t.inputs.map Utxo.id, ∃ r, p.utxoRecords.lookup id = some r ∧ r.spentBy = none) ∧
      (∀ id ∈ t.inputs.map Utxo.id, pool.utxoRecords.lookup id =
        (p.utxoRecords.lookup id).map fun r => { r with spentBy := some t.id }) ∧
      (∀ id ∈ t.changeUtxoIds, ¬ p.isSpentOrActive id) ∧
      (∀ u ∈ t.buildChangeUtxos, pool.utxoRecords.lookup u.id = some ⟨u, some t.id, none, none⟩) ∧
      (∀ id, id ∉ t.inputs.map Utxo.id → id ∉ t.changeUtxoIds →
        pool.utxoRecords.lookup id = p.utxoRecords.lookup id) := by
  obtain ⟨hlockSpent, hnodup, hfree, hlocked⟩ := UtxoPool.lock_loop hlock
  obtain ⟨hinsertSpent, hnew, hrest⟩ := UtxoPool.insertPending_loop hinsert
  rw [t.buildChangeUtxos_ids] at hrest
  -- locking neither adds nor removes an outpoint
  have hused : ∀ id, locked.isSpentOrActive id ↔ p.isSpentOrActive id := by
    intro id
    have hmem : id ∈ locked.utxoRecords ↔ id ∈ p.utxoRecords := by
      rw [← not_iff_not, Bag.notMem_iff, Bag.notMem_iff, hlocked]
      split_ifs
      · exact Option.map_eq_none_iff
      · rfl
    rw [UtxoPool.isSpentOrActive, UtxoPool.isSpentOrActive, hlockSpent, hmem]
  have hchange : ∀ id ∈ t.changeUtxoIds, ¬ p.isSpentOrActive id := by
    intro id hid
    rw [← t.buildChangeUtxos_ids] at hid
    obtain ⟨u, hu, rfl⟩ := List.mem_map.mp hid
    exact fun hactive => (hnew u hu).1 ((hused _).mpr hactive)
  refine ⟨hinsertSpent.trans hlockSpent, hnodup, hfree, ?_, hchange, fun u hu => (hnew u hu).2, ?_⟩
  · intro id hid
    have hnot : id ∉ t.changeUtxoIds := fun hch => by
      obtain ⟨r, hr, -⟩ := hfree id hid
      exact hchange id hch (.inl (Bag.mem_of_lookup hr))
    rw [hrest id hnot, hlocked, if_pos hid]
  · intro id hin hch
    rw [hrest id hch, hlocked, if_neg hin]

theorem commitWithdrawalTx_step {requestIds : List Address} {selectedUtxos : List UtxoId}
    {outputs : List OutputUtxo} {txid : Address} {randomness : Bytes}
    (h : self.commitWithdrawalTx env requestIds selectedUtxos outputs txid cert now randomness ctx =
      .ok hashi')
    (hinv : (self.ledger circulating).Inv)
    (hfresh : self.bitcoin.withdrawalQueue.txnAt ctx.fresh = none) :
    (∃ t, t.id = ctx.fresh ∧ t.requestIds = requestIds ∧
      Ledger.Step (self.ledger circulating) (.commit t) (hashi'.ledger circulating)) ∧
      BridgeFrame self hashi' := by
  simp only [commitWithdrawalTx, bind_eq_ok, pure_eq_ok,
    WithdrawalRequestQueue.insertWithdrawalTxn_eq_ok] at h
  obtain ⟨_, -, _, -, _, -, _, -, inputs, hinputs, infos, hinfos, ⟨presigs, allocator⟩, hallocate, t,
    ht, locked, hlock, ⟨committed, burned⟩, hcommit, treasury, hburn, pool, hinsert, queue,
    ⟨-, rfl⟩, rfl⟩ := h
  obtain ⟨rfl, hconsumed⟩ := allocate_eq_ok hallocate
  obtain ⟨haccepted, htxn⟩ := WithdrawalTransaction.new_eq_ok.mp ht
  have hid : t.id = ctx.fresh := by rw [htxn]
  have hrequestIds : t.requestIds = requestIds := by rw [htxn]
  have hinputsEq : t.inputs = inputs := by rw [htxn]
  obtain ⟨requests, rfl, hnodup, hopen, hlinked, hburned⟩ :=
    WithdrawalRequestQueue.commitRequests_eq_ok hcommit
  obtain ⟨hcount, hamounts⟩ := WithdrawalRequestQueue.extractRequestInfos_amounts hinfos
  obtain ⟨hspent, hinNodup, hfree, hlocked, hchange, hadded, hrest⟩ := lock_and_insert hlock hinsert
  obtain ⟨hle, hsupply⟩ := Treasury.burn_supply hburn
  have hcommits : (self.ledger circulating).Commits t pool.utxoRecords requests burned := by
    refine ⟨?fresh, ?unconfirmed, ?signing, hinNodup, ?free, hlocked, hchange, hadded, hrest, hnodup,
      hopen, hlinked, ?balanced, hburned, hle⟩
    case fresh => rwa [hid]
    case unconfirmed => rw [htxn]
    case signing => simp [htxn, SigningBatch.block, Ledger.freshBatch, Hashi.ledger]
    case free =>
      intro u hu
      rw [hinputsEq] at hu
      obtain ⟨id, r, hr, rfl⟩ := getUtxo_selected hinputs u hu
      obtain ⟨r', hr', hs⟩ := hfree r.utxo.id (List.mem_map_of_mem (hinputsEq ▸ hu))
      -- a record lies under its own outpoint
      have hkey : r.utxo.id = id := hinv.pool.record_id hr
      rw [← hkey] at hr
      rw [hr] at hr'
      cases hr'
      exact ⟨r, hr, rfl, hs⟩
    case balanced =>
      have hbalanced := haccepted.balanced hcount
      rw [hamounts] at hbalanced
      rw [htxn]
      exact hbalanced
  refine ⟨⟨t, hid, hrequestIds, ?_⟩, rfl⟩
  convert Ledger.Step.commit hcommits using 1
  refine Ledger.ext ?_ rfl ?_ rfl rfl rfl ?_
  · exact congrArg (UtxoPool.mk pool.utxoRecords) hspent
  · exact Nat.eq_sub_of_add_eq hsupply
  · rw [hinputsEq]
    exact hconsumed

/-! ## Signing -/

variable {withdrawalId : Address}

theorem commitInputSignatures_step {indices : List Nat}
    {signatures : List Bytes}
    (h : self.commitInputSignatures env withdrawalId indices signatures cert = .ok hashi') :
    Ledger.Step (self.ledger circulating) (.fill withdrawalId) (hashi'.ledger circulating) ∧
      BridgeFrame self hashi' := by
  simp only [commitInputSignatures, bind_eq_ok, pure_eq_ok] at h
  obtain ⟨_, -, _, -, _, -, _, -, queue, hrecord, rfl⟩ := h
  obtain ⟨t, signing, ht, -, hsigning, rfl⟩ :=
    WithdrawalRequestQueue.recordInputSignatures_eq_ok hrecord
  obtain ⟨hepoch, hfills⟩ := SigningBatch.record_onlyFills hsigning
  exact ⟨.fill ht ⟨rfl, rfl, hepoch, hfills⟩, rfl⟩

theorem finalizeWithdrawal_step {guardianSignatures : List Bytes}
    (h : self.finalizeWithdrawal env withdrawalId guardianSignatures cert now = .ok hashi') :
    Ledger.Step (self.ledger circulating) (.fill withdrawalId) (hashi'.ledger circulating) ∧
      BridgeFrame self hashi' := by
  simp only [finalizeWithdrawal, bind_eq_ok, pure_eq_ok] at h
  obtain ⟨_, -, _, -, _, -, _, -, _, -, _, -, queue, hfinalize, rfl⟩ := h
  obtain ⟨t, ht, -, -, rfl⟩ := WithdrawalRequestQueue.finalizeWithdrawalTxn_eq_ok hfinalize
  exact ⟨.fill ht ⟨rfl, rfl, rfl, fun _ _ hslot => hslot⟩, rfl⟩

theorem reallocatePresigs_step {randomness : Bytes}
    (h : self.reallocatePresigs withdrawalId randomness = .ok hashi') :
    Ledger.Step (self.ledger circulating) (.reassign withdrawalId) (hashi'.ledger circulating) ∧
      BridgeFrame self hashi' := by
  simp only [reallocatePresigs, WithdrawalRequestQueue.borrowWithdrawalTxn, bind_eq_ok, pure_eq_ok,
    Bag.borrow_eq_ok] at h
  obtain ⟨_, -, _, -, _, -, t, ht, ⟨presigs, allocator⟩, hallocate, queue, hreallocate, rfl⟩ := h
  obtain ⟨rfl, hconsumed⟩ := allocate_eq_ok hallocate
  obtain ⟨t', signing, ht', hsigning, rfl⟩ :=
    WithdrawalRequestQueue.reallocatePresigs_eq_ok hreallocate
  rw [ht, Option.some.injEq] at ht'
  subst ht'
  have hreassigns : (self.ledger circulating).Reassigns t { t with
      signing
      randomness := if SigningBatch.block self.presigAllocator.numConsumed t.signing.pendingCount = []
        then t.randomness else randomness } :=
    ⟨rfl, hsigning, fun hzero => if_pos (SigningBatch.block_eq_nil.mpr hzero)⟩
  refine ⟨?_, rfl⟩
  convert Ledger.Step.reassign ht hreassigns using 1
  exact Ledger.ext rfl rfl rfl rfl rfl rfl hconsumed

/-! ## Confirmation, archival and cleanup -/

theorem confirmWithdrawal_step
    (h : self.confirmWithdrawal env withdrawalId cert now = .ok hashi') :
    Ledger.Step (self.ledger circulating) (.confirm withdrawalId) (hashi'.ledger circulating) ∧
      BridgeFrame self hashi' := by
  simp only [confirmWithdrawal, WithdrawalRequestQueue.borrowWithdrawalTxn, bind_eq_ok, pure_eq_ok,
    Bag.borrow_eq_ok, WithdrawalRequestQueue.markTxnConfirmed_eq_ok] at h
  obtain ⟨_, -, _, -, _, -, t, ht, _, -, queue, ⟨t', ht', hunconfirmed, rfl⟩, spent, hspent, rfl⟩ := h
  rw [ht, Option.some.injEq] at ht'
  subst ht'
  obtain ⟨hspentUtxos, hpresent, hmarked⟩ := UtxoPool.markSpent_loop hspent
  obtain ⟨hpromotedUtxos, hpromoted⟩ := UtxoPool.confirmPending_loop spent t.changeUtxoIds
  have hconfirms : (self.ledger circulating).Confirms t
      (t.changeUtxoIds.foldl UtxoPool.confirmPending spent).utxoRecords := by
    refine ⟨fun id hid => Finmap.mem_iff.mpr (hpresent id hid), fun id => ?_⟩
    rw [hpromoted, hmarked]
    -- one case per way the outpoint is listed
    by_cases hin : id ∈ t.inputs.map Utxo.id <;> by_cases hch : id ∈ t.changeUtxoIds <;>
      simp only [hin, hch, if_true, if_false, Option.map_map] <;>
      first | rfl | exact (Option.map_id' ..).symm
  refine ⟨?_, rfl⟩
  convert Ledger.Step.confirm ht hunconfirmed hconfirms using 1
  refine Ledger.ext ?_ rfl rfl rfl rfl rfl rfl
  exact congrArg (UtxoPool.mk _) (hpromotedUtxos.trans hspentUtxos)

theorem archiveConfirmedWithdrawals_steps {withdrawalIds : List Address}
    (h : self.archiveConfirmedWithdrawals withdrawalIds = .ok hashi')
    (hinv : (self.ledger circulating).Inv) :
    (∃ ops, Run Ledger.Step (self.ledger circulating) ops (hashi'.ledger circulating) ∧
      ∀ op ∈ ops, op.Archives withdrawalIds) ∧ BridgeFrame self hashi' := by
  simp only [archiveConfirmedWithdrawals, bind_eq_ok, pure_eq_ok] at h
  obtain ⟨_, -, queue, hloop, rfl⟩ := h
  exact ⟨WithdrawalRequestQueue.archival_loop (l := self.ledger circulating)
    (fun q w q' hq hround => WithdrawalRequestQueue.archiveWithdrawalTxn_run hq hround) hinv hloop,
    rfl⟩

theorem archiveWithdrawalRequests_steps {requestIds : List Address}
    (h : self.archiveWithdrawalRequests withdrawalId requestIds = .ok hashi') :
    (∃ ops, Run Ledger.Step (self.ledger circulating) ops (hashi'.ledger circulating) ∧
      ∀ op ∈ ops, op.Archives [withdrawalId]) ∧ BridgeFrame self hashi' := by
  simp only [archiveWithdrawalRequests, bind_eq_ok, pure_eq_ok] at h
  obtain ⟨_, -, queue, harchive, rfl⟩ := h
  exact ⟨WithdrawalRequestQueue.archiveWithdrawalRequests_run (l := self.ledger circulating) harchive,
    rfl⟩

theorem finishArchiveWithdrawalTxns_steps {withdrawalIds : List Address}
    (h : self.finishArchiveWithdrawalTxns withdrawalIds = .ok hashi')
    (hinv : (self.ledger circulating).Inv) :
    (∃ ops, Run Ledger.Step (self.ledger circulating) ops (hashi'.ledger circulating) ∧
      ∀ op ∈ ops, op.Archives withdrawalIds) ∧ BridgeFrame self hashi' := by
  simp only [finishArchiveWithdrawalTxns, bind_eq_ok, pure_eq_ok] at h
  obtain ⟨_, -, queue, hloop, rfl⟩ := h
  exact ⟨WithdrawalRequestQueue.archival_loop (l := self.ledger circulating)
    (fun q w q' _ hround => WithdrawalRequestQueue.finishArchiveWithdrawalTxn_run hround) hinv hloop,
    rfl⟩

theorem cleanupSpentUtxos_steps {utxoIds : List UtxoId}
    (h : self.cleanupSpentUtxos utxoIds = .ok hashi') :
    (∃ ops, Run Ledger.Step (self.ledger circulating) ops (hashi'.ledger circulating) ∧
      ∀ op ∈ ops, ∃ id, op = .cleanup id) ∧ BridgeFrame self hashi' := by
  simp only [cleanupSpentUtxos, bind_eq_ok, pure_eq_ok] at h
  obtain ⟨_, -, pool, hloop, rfl⟩ := h
  refine ⟨(foldlM_run (fun pool => { self.ledger circulating with pool }) (fun _ => True) _ trivial ?_
    hloop).2, rfl⟩
  intro p id p' _ _ hround
  refine ⟨trivial, ?_⟩
  rcases UtxoPool.cleanupSpent_eq_ok hround with rfl | ⟨r, epoch, hr, hepoch, rfl⟩
  · exact ⟨[], .nil, by simp⟩
  · exact ⟨[.cleanup id], .single (.cleanup hr hepoch), by simp⟩

end Hashi

theorem BridgeCall.refines {call : BridgeCall} {circulating' : Nat}
    (h : call.run env now ctx self circulating = .ok (hashi', circulating'))
    (hinv : (self.ledger circulating).Inv)
    (hrequest : self.bitcoin.withdrawalQueue.requestAt ctx.fresh = none)
    (htxn : self.bitcoin.withdrawalQueue.txnAt ctx.fresh = none) :
    (∃ ops, call.Effect ctx.fresh ops ∧
      Run Ledger.Step (self.ledger circulating) ops (hashi'.ledger circulating')) ∧
      BridgeFrame self hashi' := by
  cases call <;> simp only [BridgeCall.run, bind_eq_ok, pure_eq_ok, Prod.mk.injEq] at h
  case deposit utxo =>
    obtain ⟨_, h, rfl, rfl⟩ := h
    obtain ⟨hledger, hframe⟩ := Hashi.deposit_step h
    exact ⟨⟨[], rfl, by rw [hledger]; exact .nil⟩, hframe⟩
  case approveDeposit requestId cert =>
    obtain ⟨_, h, rfl, rfl⟩ := h
    obtain ⟨hledger, hframe⟩ := Hashi.approveDeposit_step h
    exact ⟨⟨[], rfl, by rw [hledger]; exact .nil⟩, hframe⟩
  case confirmDeposit requestId =>
    obtain ⟨⟨_, minted⟩, h, rfl, rfl⟩ := h
    obtain ⟨⟨utxo, hstep⟩, hframe⟩ := Hashi.confirmDeposit_step h
    exact ⟨⟨[.receive utxo], ⟨utxo, rfl⟩, .single hstep⟩, hframe⟩
  case deleteExpiredDeposit requestId =>
    obtain ⟨_, h, rfl, rfl⟩ := h
    obtain ⟨hledger, hframe⟩ := Hashi.deleteExpiredDeposit_step h
    exact ⟨⟨[], rfl, by rw [hledger]; exact .nil⟩, hframe⟩
  case requestWithdrawal btc bitcoinAddress =>
    obtain ⟨_, hle, _, h, rfl, rfl⟩ := h
    obtain ⟨⟨r, hid, hstep⟩, hframe⟩ :=
      Hashi.requestWithdrawal_step h hrequest (require_eq_ok.mp hle)
    exact ⟨⟨[.request r], ⟨r, hid, rfl⟩, .single hstep⟩, hframe⟩
  case cancelWithdrawal requestId =>
    obtain ⟨⟨_, refund⟩, h, rfl, rfl⟩ := h
    obtain ⟨hstep, hframe⟩ := Hashi.cancelWithdrawal_step h
    exact ⟨⟨_, rfl, .single hstep⟩, hframe⟩
  case approveRequest requestId cert =>
    obtain ⟨_, h, rfl, rfl⟩ := h
    obtain ⟨hstep, hframe⟩ := Hashi.approveRequest_step h
    exact ⟨⟨_, rfl, .single hstep⟩, hframe⟩
  case commitWithdrawalTx requestIds selectedUtxos outputs txid cert randomness =>
    obtain ⟨_, h, rfl, rfl⟩ := h
    obtain ⟨⟨t, hid, hids, hstep⟩, hframe⟩ := Hashi.commitWithdrawalTx_step h hinv htxn
    exact ⟨⟨[.commit t], ⟨t, hid, hids, rfl⟩, .single hstep⟩, hframe⟩
  case commitInputSignatures withdrawalId indices signatures cert =>
    obtain ⟨_, h, rfl, rfl⟩ := h
    obtain ⟨hstep, hframe⟩ := Hashi.commitInputSignatures_step h
    exact ⟨⟨_, rfl, .single hstep⟩, hframe⟩
  case finalizeWithdrawal withdrawalId guardianSignatures cert =>
    obtain ⟨_, h, rfl, rfl⟩ := h
    obtain ⟨hstep, hframe⟩ := Hashi.finalizeWithdrawal_step h
    exact ⟨⟨_, rfl, .single hstep⟩, hframe⟩
  case confirmWithdrawal withdrawalId cert =>
    obtain ⟨_, h, rfl, rfl⟩ := h
    obtain ⟨hstep, hframe⟩ := Hashi.confirmWithdrawal_step h
    exact ⟨⟨_, rfl, .single hstep⟩, hframe⟩
  case archiveConfirmedWithdrawals withdrawalIds =>
    obtain ⟨_, h, rfl, rfl⟩ := h
    obtain ⟨⟨ops, hrun, hops⟩, hframe⟩ := Hashi.archiveConfirmedWithdrawals_steps h hinv
    exact ⟨⟨ops, hops, hrun⟩, hframe⟩
  case archiveWithdrawalRequests withdrawalId requestIds =>
    obtain ⟨_, h, rfl, rfl⟩ := h
    obtain ⟨⟨ops, hrun, hops⟩, hframe⟩ := Hashi.archiveWithdrawalRequests_steps h
    exact ⟨⟨ops, hops, hrun⟩, hframe⟩
  case finishArchiveWithdrawalTxns withdrawalIds =>
    obtain ⟨_, h, rfl, rfl⟩ := h
    obtain ⟨⟨ops, hrun, hops⟩, hframe⟩ := Hashi.finishArchiveWithdrawalTxns_steps h hinv
    exact ⟨⟨ops, hops, hrun⟩, hframe⟩
  case reallocatePresigs withdrawalId randomness =>
    obtain ⟨_, h, rfl, rfl⟩ := h
    obtain ⟨hstep, hframe⟩ := Hashi.reallocatePresigs_step h
    exact ⟨⟨_, rfl, .single hstep⟩, hframe⟩
  case cleanupSpentUtxos utxoIds =>
    obtain ⟨_, h, rfl, rfl⟩ := h
    obtain ⟨⟨ops, hrun, hops⟩, hframe⟩ := Hashi.cleanupSpentUtxos_steps h
    exact ⟨⟨ops, hops, hrun⟩, hframe⟩

end HashiBridge.Chain
