import HashiBridge.Btc.Lemmas.PoolInvariant
import HashiBridge.Btc.Lemmas.QueueInvariant

/-!
# Invariants of the ledger

Every operation keeps the two lifecycles, the equation between the unspent outputs and the supply,
and the equation between the supply and its holders.
-/

namespace HashiBridge.Btc

open Lib HashiBridge.Core

/-! ## What the queue's updates do to the transactions' bodies -/

namespace WithdrawalRequestQueue

variable {q : WithdrawalRequestQueue} {w : Address} {t t' : WithdrawalTransaction}

theorem liveBody_of_lookup (h : q.withdrawalTxns.lookup w = some t) :
    q.liveBody w = some t.body := by
  rw [liveBody, h, Option.map_some]

theorem bodyAt_of_lookup (h : q.withdrawalTxns.lookup w = some t) : q.bodyAt w = some t.body := by
  rw [bodyAt_eq, liveBody_of_lookup h, Option.some_or]

theorem liveBody_insert (requests : Bag Address WithdrawalRequest) (w' : Address) :
    liveBody { q with requests, withdrawalTxns := q.withdrawalTxns.insert w t } w' =
      if w' = w then some t.body else q.liveBody w' := by
  simp only [liveBody, Bag.lookup_insert_ite]
  split_ifs <;> rfl

theorem bodyAt_insert (requests : Bag Address WithdrawalRequest) (w' : Address) :
    bodyAt { q with requests, withdrawalTxns := q.withdrawalTxns.insert w t } w' =
      if w' = w then some t.body else q.bodyAt w' := by
  rw [bodyAt_eq, bodyAt_eq, liveBody_insert]
  split_ifs <;> rfl

theorem liveBody_setTxn (w' : Address) :
    (q.setTxn w t).liveBody w' = if w' = w then some t.body else q.liveBody w' :=
  liveBody_insert q.requests w'

theorem bodyAt_setTxn (w' : Address) :
    (q.setTxn w t).bodyAt w' = if w' = w then some t.body else q.bodyAt w' :=
  bodyAt_insert q.requests w'

theorem liveBody_setTxn_same (h : q.withdrawalTxns.lookup w = some t) (hbody : t'.body = t.body) :
    (q.setTxn w t').liveBody = q.liveBody := by
  funext w'
  rw [liveBody_setTxn]
  split_ifs with hw
  · rw [hw, liveBody_of_lookup h, hbody]
  · rfl

theorem bodyAt_setTxn_same (h : q.withdrawalTxns.lookup w = some t) (hbody : t'.body = t.body) :
    (q.setTxn w t').bodyAt = q.bodyAt := by
  funext w'
  rw [bodyAt_eq, bodyAt_eq, liveBody_setTxn_same h hbody]
  rfl

/-- The queue after an in-flight transaction moved to the archive. -/
def archived (q : WithdrawalRequestQueue) (w : Address) (t : WithdrawalTransaction) :
    WithdrawalRequestQueue :=
  { q with withdrawalTxns := q.withdrawalTxns.erase w, confirmedTxns := q.confirmedTxns.insert w t }

theorem liveBody_archived (w' : Address) :
    (q.archived w t).liveBody w' = if w' = w then none else q.liveBody w' := by
  simp only [liveBody, archived, Bag.lookup_erase_ite]
  split_ifs <;> rfl

theorem doneBody_archived (w' : Address) :
    (q.archived w t).doneBody w' = if w' = w then some t.body else q.doneBody w' := by
  simp only [doneBody, archived, Bag.lookup_insert_ite]
  split_ifs <;> rfl

theorem bodyAt_archived (h : q.withdrawalTxns.lookup w = some t) :
    (q.archived w t).bodyAt = q.bodyAt := by
  funext w'
  rw [bodyAt_eq, bodyAt_eq, liveBody_archived, doneBody_archived]
  split_ifs with hw
  · rw [hw, liveBody_of_lookup h, Option.none_or, Option.some_or]
  · rfl

end WithdrawalRequestQueue

/-! ## Change outputs -/

namespace WithdrawalTransaction

variable (t : WithdrawalTransaction)

theorem buildChangeUtxos_ids : t.buildChangeUtxos.map Utxo.id = t.changeUtxoIds := by
  apply List.ext_getElem <;> simp [buildChangeUtxos, changeUtxoIds]

theorem buildChangeUtxos_amounts :
    t.buildChangeUtxos.map Utxo.amount = t.changeOutputs.map OutputUtxo.amount := by
  apply List.ext_getElem <;> simp [buildChangeUtxos]

theorem changeUtxoIds_nodup : t.changeUtxoIds.Nodup := by
  refine List.nodup_range.map fun i j h => ?_
  simpa using h

end WithdrawalTransaction

namespace Ledger

open WithdrawalRequestQueue

structure Inv (l : Ledger) : Prop where
  pool : PoolInv l.pool.utxoRecords.lookup (· ∈ l.pool.spentUtxos) l.queue.bodyAt
  queue : QueueInv l.queue.requests.lookup l.queue.processed.lookup l.queue.liveBody
    l.queue.doneBody

variable {l l' : Ledger} {op : Op}

/-! ## The lifecycles -/

theorem inputs_unlocked {t : WithdrawalTransaction} {records : Bag UtxoId UtxoRecord}
    {requests : Bag Address WithdrawalRequest} {burned : Nat}
    (hc : l.Commits t records requests burned) {id : UtxoId} (hid : id ∈ t.inputs.map Utxo.id) :
    ∃ r, l.pool.utxoRecords.lookup id = some r ∧ r.spentBy = none := by
  obtain ⟨u, hu, rfl⟩ := List.mem_map.mp hid
  obtain ⟨r, hr, -, hs⟩ := hc.inputs_free u hu
  exact ⟨r, hr, hs⟩

theorem Inv.commit_pool (h : l.Inv) {t : WithdrawalTransaction} {records : Bag UtxoId UtxoRecord}
    {requests : Bag Address WithdrawalRequest} {burned : Nat}
    (hc : l.Commits t records requests burned) :
    PoolInv records.lookup (· ∈ l.pool.spentUtxos)
      (bodyAt { l.queue with
        requests, withdrawalTxns := l.queue.withdrawalTxns.insert t.id t }) := by
  refine h.pool.commit (b := t.body) ?fresh (bodyAt_insert requests) ?unconfirmed hc.inputs_nodup
    (fun id hid => inputs_unlocked hc hid) hc.inputs_locked ?new ?added hc.records_rest
  case fresh => rw [bodyAt, hc.fresh, Option.map_none]
  case unconfirmed =>
    rw [WithdrawalTransaction.body, hc.unconfirmed]
    rfl
  case new =>
    intro id hid
    obtain ⟨hactive, hspent⟩ := not_or.mp (hc.change_new id hid)
    exact ⟨Bag.lookup_of_notMem hactive, hspent⟩
  case added =>
    intro id hid
    rw [WithdrawalTransaction.body, ← t.buildChangeUtxos_ids] at hid
    obtain ⟨u, hu, rfl⟩ := List.mem_map.mp hid
    exact ⟨u, rfl, hc.change_added u hu⟩

theorem Inv.commit_queue (h : l.Inv) {t : WithdrawalTransaction} {records : Bag UtxoId UtxoRecord}
    {requests : Bag Address WithdrawalRequest} {burned : Nat}
    (hc : l.Commits t records requests burned) :
    QueueInv requests.lookup l.queue.processed.lookup
      (liveBody { l.queue with
        requests, withdrawalTxns := l.queue.withdrawalTxns.insert t.id t }) l.queue.doneBody := by
  refine h.queue.commit ?_ (show t.body.requestIds.Nodup from hc.requests_nodup) hc.requests_open
    hc.requests_linked (liveBody_insert requests)
  rw [← bodyAt_eq, bodyAt, hc.fresh, Option.map_none]

theorem Inv.setTxn_same (h : l.Inv) {w : Address} {t t' : WithdrawalTransaction}
    (ht : l.queue.withdrawalTxns.lookup w = some t) (hbody : t'.body = t.body) :
    Inv { l with queue := l.queue.setTxn w t' } where
  pool := by
    rw [bodyAt_setTxn_same ht hbody]
    exact h.pool
  queue := by
    rw [liveBody_setTxn_same ht hbody]
    exact h.queue

theorem Inv.step (h : l.Inv) (hstep : Step l op l') : l'.Inv := by
  cases hstep with
  | @receive utxo hnew =>
      obtain ⟨hactive, hspent⟩ := not_or.mp hnew
      exact ⟨h.pool.receive (Bag.lookup_of_notMem hactive) hspent
        fun id => Bag.lookup_insert_ite .., h.queue⟩
  | @request r hnone hopen hfull _ =>
      obtain ⟨hlive, hproc⟩ := Option.or_eq_none_iff.mp hnone
      refine ⟨h.pool, h.queue.write_open hopen hfull ⟨hproc, ?_⟩
        fun id => Bag.lookup_insert_ite ..⟩
      intro r' hr'
      rw [hlive] at hr'
      cases hr'
  | @cancel id r hr hopen =>
      exact ⟨h.pool, h.queue.cancel hr hopen fun id => Bag.lookup_erase_ite ..⟩
  | @approve id r r' hr hopen hopen' hbtc hamount =>
      refine ⟨h.pool, h.queue.write_open hopen' ?_ ⟨h.queue.requests_disjoint hr, ?_⟩
        fun id => Bag.lookup_insert_ite ..⟩
      · rw [hbtc, hamount, h.queue.escrow_open hr hopen]
      · intro r₁ hr₁
        rw [hr] at hr₁
        cases hr₁
        exact hopen
  | commit hc => exact ⟨h.commit_pool hc, h.commit_queue hc⟩
  | fill ht hfills => exact h.setTxn_same ht hfills.body_eq
  | reassign ht hreassigns =>
      have hsame := h.setTxn_same ht hreassigns.body_eq
      exact ⟨hsame.pool, hsame.queue⟩
  | @confirm w t records now ht hunconfirmed hc =>
      have hconf : t.body.confirmed = false := by
        rw [WithdrawalTransaction.body, hunconfirmed]
        rfl
      exact ⟨h.pool.confirm (bodyAt_of_lookup ht) hconf bodyAt_setTxn hc.records_eq,
        h.queue.confirm (liveBody_of_lookup ht) liveBody_setTxn⟩
  | @archiveRequest w t id r ht hconf hr hlink =>
      exact ⟨h.pool, h.queue.archiveRequest hr hlink (liveBody_of_lookup ht) hconf
        (fun id => Bag.lookup_erase_ite ..) fun id => Bag.lookup_insert_ite ..⟩
  | @archiveTxn w t ht hconf hall =>
      have hpool := h.pool
      rw [← bodyAt_archived ht] at hpool
      exact ⟨hpool, h.queue.archiveTxn (liveBody_of_lookup ht) hconf
        (fun id hid => Finmap.mem_iff.mp (hall id hid)) liveBody_archived doneBody_archived⟩
  | @cleanup id r epoch hr hepoch =>
      exact ⟨h.pool.cleanup hr hepoch (fun id => Bag.lookup_erase_ite ..)
        fun id => Finmap.mem_insert, h.queue⟩
  | rotate => exact ⟨h.pool, h.queue⟩

/-! ## Solvency -/

/-- What a record adds to the outputs no withdrawal has reserved. -/
def unspent (r : UtxoRecord) : Nat := if r.spentBy = none then r.utxo.amount else 0

/-- The unreserved outputs carry the supply and the deposits without a recipient. -/
def Solvent (l : Ledger) : Prop :=
  l.pool.utxoRecords.sum unspent = l.supply + l.donated

/-- The supply is held outside the bridge or in the escrow of requests. -/
def Held (l : Ledger) : Prop :=
  l.supply = l.circulating + l.queue.requests.sum WithdrawalRequest.btc

theorem minted_add_donation (utxo : Utxo) : utxo.minted + donation utxo = utxo.amount := by
  unfold Utxo.minted donation
  split_ifs <;> simp

section Commit

variable {t : WithdrawalTransaction} {records : Bag UtxoId UtxoRecord}
  {requests : Bag Address WithdrawalRequest} {burned : Nat}

theorem Commits.burned_eq_amounts (hc : l.Commits t records requests burned) (h : l.Inv) :
    burned = (t.requestIds.map (l.queue.requests.weight WithdrawalRequest.btcAmount)).sum := by
  rw [hc.burned_eq]
  congr 1
  refine List.map_congr_left fun id hid => ?_
  obtain ⟨r, hr, hopen⟩ := hc.requests_open id hid
  rw [Bag.weight_of_lookup hr, Bag.weight_of_lookup hr, h.queue.escrow_open hr hopen]

theorem Commits.unspent_sum (hc : l.Commits t records requests burned) :
    records.sum unspent + (t.inputs.map Utxo.amount).sum =
      l.pool.utxoRecords.sum unspent + (t.changeOutputs.map OutputUtxo.amount).sum := by
  have hdisjoint : ∀ id ∈ t.inputs.map Utxo.id, id ∉ t.changeUtxoIds := by
    intro id hin hch
    obtain ⟨r, hr, -⟩ := inputs_unlocked hc hin
    exact hc.change_new id hch (.inl (Bag.mem_of_lookup hr))
  have hkeys : (t.inputs.map Utxo.id ++ t.changeUtxoIds).Nodup :=
    List.nodup_append'.mpr ⟨hc.inputs_nodup, t.changeUtxoIds_nodup, hdisjoint⟩
  have hagree := Bag.sum_of_agree unspent hkeys l.pool.utxoRecords records
    fun id hid => by
      rw [List.mem_append, not_or] at hid
      exact hc.records_rest id hid.1 hid.2
  -- the weights of both lists of outpoints, before and after
  have hin : (t.inputs.map Utxo.id).map (l.pool.utxoRecords.weight unspent) =
      t.inputs.map Utxo.amount := by
    rw [List.map_map]
    refine List.map_congr_left fun u hu => ?_
    obtain ⟨r, hr, rfl, hs⟩ := hc.inputs_free u hu
    simp [Bag.weight_of_lookup hr, unspent, hs]
  have hin' : ((t.inputs.map Utxo.id).map (records.weight unspent)).sum = 0 := by
    refine List.sum_eq_zero fun x hx => ?_
    obtain ⟨id, hid, rfl⟩ := List.mem_map.mp hx
    obtain ⟨r, hr, -⟩ := inputs_unlocked hc hid
    have hr' := hc.inputs_locked id hid
    rw [hr, Option.map_some] at hr'
    simp [Bag.weight_of_lookup hr', unspent]
  have hch : (t.changeUtxoIds.map (l.pool.utxoRecords.weight unspent)).sum = 0 := by
    refine List.sum_eq_zero fun x hx => ?_
    obtain ⟨id, hid, rfl⟩ := List.mem_map.mp hx
    exact Bag.weight_of_notMem (Bag.lookup_of_notMem (not_or.mp (hc.change_new id hid)).1)
  have hch' : t.changeUtxoIds.map (records.weight unspent) =
      t.changeOutputs.map OutputUtxo.amount := by
    rw [← t.buildChangeUtxos_ids, ← t.buildChangeUtxos_amounts, List.map_map]
    refine List.map_congr_left fun u hu => ?_
    simp [Bag.weight_of_lookup (hc.change_added u hu), unspent]
  simp only [List.map_append, List.sum_append, hin, hin', hch, hch', Nat.add_zero,
    Nat.zero_add] at hagree
  exact hagree

theorem Commits.escrow_sum (hc : l.Commits t records requests burned) :
    requests.sum WithdrawalRequest.btc + burned = l.queue.requests.sum WithdrawalRequest.btc := by
  have hagree := Bag.sum_of_agree WithdrawalRequest.btc hc.requests_nodup l.queue.requests requests
    fun id hid => by rw [hc.requests_linked, if_neg hid]
  have hdrained : (t.requestIds.map (requests.weight WithdrawalRequest.btc)).sum = 0 := by
    refine List.sum_eq_zero fun x hx => ?_
    obtain ⟨id, hid, rfl⟩ := List.mem_map.mp hx
    obtain ⟨r, hr, -⟩ := hc.requests_open id hid
    have hr' := hc.requests_linked id
    rw [if_pos hid, hr, Option.map_some] at hr'
    rw [Bag.weight_of_lookup hr']
    rfl
  rw [hdrained, Nat.add_zero, ← hc.burned_eq] at hagree
  exact hagree

end Commit

theorem Solvent.step (hs : l.Solvent) (h : l.Inv) (hstep : Step l op l') : l'.Solvent := by
  unfold Solvent at hs ⊢
  cases hstep with
  | @receive utxo hnew =>
      have hsum := Bag.sum_insert unspent l.pool.utxoRecords utxo.id ⟨utxo, none, none, none⟩
      rw [Bag.weight_of_notMem (Bag.lookup_of_notMem (not_or.mp hnew).1)] at hsum
      have hminted := minted_add_donation utxo
      have hfree : unspent ⟨utxo, none, none, none⟩ = utxo.amount := rfl
      simp only
      omega
  | @commit t records requests burned hc =>
      have hsum := hc.unspent_sum
      have hbalanced := hc.balanced
      rw [← hc.burned_eq_amounts h] at hbalanced
      have hle := hc.burned_le
      simp only
      omega
  | @confirm w t records now ht hunconfirmed hc =>
      rw [← hs]
      refine Bag.sum_congr fun id => ?_
      rw [Bag.weight, hc.records_eq, Bag.weight, Option.map_map]
      rfl
  | @cleanup id r epoch hr hepoch =>
      -- a record with a spending epoch is reserved
      have hreserved : unspent r = 0 := if_neg fun hnone => by
        rw [h.pool.unlocked hr hnone] at hepoch
        cases hepoch
      have hsum := Bag.sum_erase unspent l.pool.utxoRecords id
      rw [Bag.weight_of_lookup hr, hreserved, Nat.zero_add] at hsum
      rw [← hs, ← hsum]
  | request | cancel | approve | fill | reassign | archiveRequest | archiveTxn | rotate => exact hs

theorem Held.step (hh : l.Held) (h : l.Inv) (hstep : Step l op l') : l'.Held := by
  unfold Held at hh ⊢
  cases hstep with
  | receive =>
      simp only
      omega
  | @request r hnone hopen hfull hle =>
      have hsum := Bag.sum_insert WithdrawalRequest.btc l.queue.requests r.id r
      rw [Bag.weight_of_notMem (Option.or_eq_none_iff.mp hnone).1] at hsum
      simp only
      omega
  | @cancel id r hr hopen =>
      have hsum := Bag.sum_erase WithdrawalRequest.btc l.queue.requests id
      rw [Bag.weight_of_lookup hr] at hsum
      simp only
      omega
  | @approve id r r' hr hopen hopen' hbtc hamount =>
      have hsum := Bag.sum_insert WithdrawalRequest.btc l.queue.requests id r'
      rw [Bag.weight_of_lookup hr] at hsum
      simp only
      omega
  | @commit t records requests burned hc =>
      have hsum := hc.escrow_sum
      simp only
      omega
  | @archiveRequest w t id r ht hconf hr hlink =>
      -- the escrow of a committed request is empty
      have hdrained : r.btc = 0 := h.queue.escrow_drained (by rw [hr, Option.some_or]) hlink
      have hsum := Bag.sum_erase WithdrawalRequest.btc l.queue.requests id
      rw [Bag.weight_of_lookup hr, hdrained, Nat.zero_add] at hsum
      simp only
      omega
  | fill | reassign | confirm | archiveTxn | cleanup | rotate => exact hh

end Ledger

end HashiBridge.Btc
