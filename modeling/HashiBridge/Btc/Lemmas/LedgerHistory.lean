import HashiBridge.Btc.Lemmas.LedgerInvariant
import HashiBridge.Btc.Lemmas.PresigInvariant

/-!
# What enters and leaves the ledger

Which operations create and destroy requests, transactions and outpoints. Archival moves requests and
transactions between bags without destroying them, and an outpoint once used stays used.
-/

namespace HashiBridge.Btc

open Lib HashiBridge.Core

namespace Ledger

variable {l l' : Ledger} {op : Op} {ops : List Op}

structure Sound (l : Ledger) : Prop where
  inv : l.Inv
  solvent : l.Solvent
  held : l.Held
  presigs : l.PresigInv

theorem Sound.init : (⟨.create, .create, 0, 0, 0, 0, 0⟩ : Ledger).Sound := by
  have hspent : (· ∈ UtxoPool.create.spentUtxos) = fun _ => False :=
    funext fun _ => eq_false Finmap.notMem_empty
  refine ⟨⟨?_, .empty⟩, rfl, rfl, ?_⟩
  · change PoolInv _ (· ∈ UtxoPool.create.spentUtxos) _
    rw [hspent]
    exact .empty
  · constructor
    case batch_epoch => rintro w t ⟨⟩
    case consumed => rintro e i w j ρ ⟨t, ⟨⟩, -⟩
    case unique => rintro e i w j ρ w' j' ρ' ⟨t, ⟨⟩, -⟩

theorem Sound.step (h : l.Sound) (hstep : Step l op l') : l'.Sound :=
  ⟨h.inv.step hstep, h.solvent.step h.inv hstep, h.held.step h.inv hstep, h.presigs.step hstep⟩

theorem Sound.run (h : l.Sound) (hrun : Run Step l ops l') : l'.Sound :=
  hrun.invariant h fun _ _ _ hs hstep => hs.step hstep

theorem Inv.run (h : l.Inv) (hrun : Run Step l ops l') : l'.Inv :=
  hrun.invariant h fun _ _ _ hs hstep => hs.step hstep

/-! ## Requests -/

def Creates (op : Op) (id : Address) : Prop := ∃ r, op = .request r ∧ r.id = id

theorem requestAt_insert_isSome {q : WithdrawalRequestQueue} {id₀ id : Address}
    {r : WithdrawalRequest} :
    (WithdrawalRequestQueue.requestAt { q with requests := q.requests.insert id₀ r } id).isSome =
      true ↔ id = id₀ ∨ (q.requestAt id).isSome = true := by
  simp only [WithdrawalRequestQueue.requestAt, Bag.lookup_insert_ite]
  split_ifs with hid <;> simp [hid]

/-- A request exists after an operation if the operation created it, or if it existed and the
operation did not cancel it. -/
theorem Step.requestAt_isSome (h : l.Inv) (hstep : Step l op l') (id : Address) :
    (l'.queue.requestAt id).isSome = true ↔
      Creates op id ∨ ((l.queue.requestAt id).isSome = true ∧ op ≠ .cancel id) := by
  cases hstep with
  | @request r hnone _ _ _ =>
      rw [requestAt_insert_isSome]
      simp [Creates, @eq_comm _ id]
  | @cancel id₀ r hr hopen =>
      have hproc := h.queue.requests_disjoint hr
      simp only [WithdrawalRequestQueue.requestAt, Bag.lookup_erase_ite]
      split_ifs with hid
      · subst hid
        simp [Creates, hproc]
      · simp [Creates, Ne.symm hid]
  | @approve id₀ r r' hr hopen hopen' _ _ =>
      rw [requestAt_insert_isSome]
      have hsome : (l.queue.requestAt id₀).isSome = true := by
        simp [WithdrawalRequestQueue.requestAt, hr]
      constructor
      · rintro (rfl | hid)
        exacts [.inr ⟨hsome, by simp⟩, .inr ⟨hid, by simp⟩]
      · rintro (⟨r, ⟨⟩, -⟩ | ⟨hid, -⟩)
        exact .inr hid
  | @commit t records requests burned hc =>
      have hsome : (requests.lookup id).isSome = (l.queue.requests.lookup id).isSome := by
        rw [hc.requests_linked]
        split_ifs <;> simp
      simp [Creates, WithdrawalRequestQueue.requestAt, Option.isSome_or, hsome]
  | @archiveRequest w t id₀ r ht hconf hr hlink =>
      simp only [WithdrawalRequestQueue.requestAt, Bag.lookup_erase_ite, Bag.lookup_insert_ite]
      split_ifs with hid
      · subst hid
        simp [Creates, hr]
      · simp [Creates]
  | receive | fill | reassign | confirm | archiveTxn | cleanup | rotate =>
      simp [Creates, WithdrawalRequestQueue.requestAt, WithdrawalRequestQueue.setTxn]

theorem Step.cancel_exists {id : Address} (hstep : Step l (.cancel id) l') :
    (l.queue.requestAt id).isSome = true := by
  cases hstep with
  | cancel hr _ => simp [WithdrawalRequestQueue.requestAt, hr]

theorem requestAt_isSome_run (h : l.Inv) (hrun : Run Step l ops l') {id : Address}
    (hops : ∀ op ∈ ops, ¬ Creates op id ∧ op ≠ .cancel id) :
    (l'.queue.requestAt id).isSome = true ↔ (l.queue.requestAt id).isSome = true := by
  induction hrun with
  | nil => rfl
  | @snoc tr m op l' hrun hstep ih =>
      obtain ⟨hcreate, hcancel⟩ := hops op (by simp)
      rw [hstep.requestAt_isSome (h.run hrun),
        ih fun op hop => hops op (List.mem_append_left _ hop)]
      simp [hcreate, hcancel]

/-! ## Transactions -/

theorem Step.txnAt_isSome (hstep : Step l op l') (w : Address) :
    (l'.queue.txnAt w).isSome = true ↔
      (l.queue.txnAt w).isSome = true ∨ ∃ t, op = .commit t ∧ t.id = w := by
  cases hstep with
  | @commit t records requests burned hc =>
      rw [txnAt_insert]
      split_ifs with hw
      · simp [hw]
      · simp [Ne.symm hw]
  | @fill w₀ t t' ht _ | @reassign w₀ t t' ht _ | @confirm w₀ t records now ht _ _ =>
      rw [txnAt_setTxn]
      split_ifs with hw
      · simp [hw, txnAt_of_lookup ht]
      · simp
  | archiveTxn ht =>
      rw [txnAt_archive ht]
      simp
  | receive | request | cancel | approve | archiveRequest | cleanup | rotate =>
      simp [WithdrawalRequestQueue.txnAt]

variable {w : Address}

theorem txnAt_isSome_run (hrun : Run Step l ops l') :
    (l'.queue.txnAt w).isSome = true ↔
      (l.queue.txnAt w).isSome = true ∨ ∃ t, .commit t ∈ ops ∧ t.id = w := by
  induction hrun with
  | nil => simp
  | @snoc tr m op l' hrun hstep ih =>
      rw [hstep.txnAt_isSome, ih]
      simp only [List.mem_append, List.mem_singleton, or_and_right, exists_or, or_assoc,
        @eq_comm _ op]

theorem Step.unallocated (hstep : Step l op l') (hop : op.allocates = none)
    (hzero : l.numConsumed = 0) (hnone : ∀ w, l.queue.txnAt w = none) :
    l'.numConsumed = 0 ∧ ∀ w, l'.queue.txnAt w = none := by
  constructor
  · cases hstep with
    | commit | reassign => cases hop
    | rotate => rfl
    | _ => exact hzero
  · intro w
    rw [← Option.not_isSome_iff_eq_none, hstep.txnAt_isSome, not_or]
    refine ⟨by simp [hnone w], ?_⟩
    rintro ⟨t, rfl, -⟩
    cases hop

theorem unallocated_run (hrun : Run Step l ops l') (hops : ∀ op ∈ ops, op.allocates = none)
    (hzero : l.numConsumed = 0) (hnone : ∀ w, l.queue.txnAt w = none) :
    l'.numConsumed = 0 ∧ ∀ w, l'.queue.txnAt w = none := by
  induction hrun with
  | nil => exact ⟨hzero, hnone⟩
  | snoc _ hstep ih =>
      obtain ⟨hz, hn⟩ := ih fun op hop => hops op (List.mem_append_left _ hop)
      exact hstep.unallocated (hops _ (by simp)) hz hn

/-! ## Presignatures -/

theorem Consumed.run {e i : Nat} (h : l.Consumed e i) (hrun : Run Step l ops l') :
    l'.Consumed e i :=
  hrun.invariant (P := fun l => l.Consumed e i) h fun _ _ _ hc hstep => hc.step hstep

theorem holds_before_run (hrun : Run Step l ops l') {e i j : Nat} {ρ : Bytes}
    (hheld : l'.queue.Holds e i w j ρ) (hconsumed : l.Consumed e i) : l.queue.Holds e i w j ρ := by
  induction hrun with
  | nil => exact hheld
  | snoc hrun hstep ih => exact ih (hstep.holds_before hheld (hconsumed.run hrun))

theorem PresigInv.holds_unique (h : l.PresigInv) (hrun : Run Step l ops l') {e i j j' : Nat}
    {w w' : Address} {ρ ρ' : Bytes} (hheld : l.queue.Holds e i w j ρ)
    (hheld' : l'.queue.Holds e i w' j' ρ') : w' = w ∧ j' = j ∧ ρ' = ρ := by
  have hback := holds_before_run hrun hheld' (h.consumed hheld)
  obtain ⟨rfl, rfl⟩ := h.unique hheld hback
  obtain ⟨t, ht, -, -, rfl⟩ := hheld
  obtain ⟨t', ht', -, -, rfl⟩ := hback
  rw [ht, Option.some.injEq] at ht'
  exact ⟨rfl, rfl, by rw [ht']⟩

theorem Step.reassign_inv (hstep : Step l (.reassign w) l') : ∃ t t',
    l.queue.txnAt w = some t ∧ l'.queue.txnAt w = some t' ∧ l'.epoch = l.epoch ∧
      l'.numConsumed = l.numConsumed + t.signing.pendingCount ∧ l.Reassigns t t' := by
  cases hstep with
  | @reassign _ t t' ht hreassigns =>
      exact ⟨t, t', txnAt_of_lookup ht, by rw [txnAt_setTxn, if_pos rfl], rfl, rfl, hreassigns⟩

theorem Step.batch_epoch_mono (h : l.PresigInv) (hstep : Step l op l')
    {t t' : WithdrawalTransaction} (ht : l.queue.txnAt w = some t)
    (ht' : l'.queue.txnAt w = some t') : t.signing.epoch ≤ t'.signing.epoch := by
  cases hstep.signingChange ht' with
  | same t₀ ht₀ hsigning _ =>
      rw [ht, Option.some.injEq] at ht₀
      rw [hsigning, ht₀]
  | filled t₀ ht₀ hfills =>
      rw [ht, Option.some.injEq] at ht₀
      rw [hfills.epoch_eq, ht₀]
  | fresh _ _ hnone _ _ _ =>
      rw [ht] at hnone
      cases hnone
  | reassigned t₀ _ ht₀ _ _ hreassigns =>
      rw [(SigningBatch.reallocate_block hreassigns.signing_eq).2.1]
      exact h.batch_epoch ht

theorem batch_epoch_mono_run (h : l.Sound) (hrun : Run Step l ops l')
    {t : WithdrawalTransaction} (ht : l.queue.txnAt w = some t) :
    ∃ t', l'.queue.txnAt w = some t' ∧ t.signing.epoch ≤ t'.signing.epoch := by
  induction hrun with
  | nil => exact ⟨t, ht, Nat.le_refl _⟩
  | @snoc tr m op l' hrun hstep ih =>
      obtain ⟨t', ht', hle⟩ := ih
      have hsome : (l'.queue.txnAt w).isSome = true :=
        (hstep.txnAt_isSome w).mpr (.inl (by rw [ht']; rfl))
      obtain ⟨t'', ht''⟩ := Option.isSome_iff_exists.mp hsome
      exact ⟨t'', ht'', hle.trans (hstep.batch_epoch_mono (h.run hrun).presigs ht' ht'')⟩

theorem current_batch_run (h : l.Sound) (hrun : Run Step l ops l')
    {t : WithdrawalTransaction} (ht : l.queue.txnAt w = some t) (hcurrent : t.signing.epoch = l.epoch)
    (hepoch : l'.epoch = l.epoch) :
    ∃ t', l'.queue.txnAt w = some t' ∧ t'.signing.epoch = l'.epoch := by
  obtain ⟨t', ht', hle⟩ := batch_epoch_mono_run h hrun ht
  have hle' := (h.run hrun).presigs.batch_epoch ht'
  exact ⟨t', ht', by omega⟩

theorem Step.stale_kept (h : l.PresigInv) (hstep : Step l op l')
    (hop : op.allocates ≠ some w) {t t' : WithdrawalTransaction} (ht : l.queue.txnAt w = some t)
    (hstale : t.signing.epoch ≠ l.epoch) (ht' : l'.queue.txnAt w = some t') :
    t'.signing.epoch ≠ l'.epoch := by
  have hle := h.batch_epoch ht
  have hle' := hstep.epoch_le
  have hsame : t'.signing.epoch = t.signing.epoch := by
    cases hstep.signingChange ht' with
    | same t₀ ht₀ hsigning _ =>
        rw [ht, Option.some.injEq] at ht₀
        rw [hsigning, ht₀]
    | filled t₀ ht₀ hfills =>
        rw [ht, Option.some.injEq] at ht₀
        rw [hfills.epoch_eq, ht₀]
    | fresh hcommit hid _ _ _ _ => exact absurd (by rw [hcommit, ← hid]; rfl) hop
    | reassigned t₀ hreassign _ _ _ _ => exact absurd (by rw [hreassign]; rfl) hop
  omega

theorem stale_kept_run (h : l.Sound) (hrun : Run Step l ops l')
    (hops : ∀ op ∈ ops, op.allocates ≠ some w) {t t' : WithdrawalTransaction}
    (ht : l.queue.txnAt w = some t) (hstale : t.signing.epoch ≠ l.epoch)
    (ht' : l'.queue.txnAt w = some t') : t'.signing.epoch ≠ l'.epoch := by
  induction hrun generalizing t' with
  | nil =>
      rw [ht, Option.some.injEq] at ht'
      rwa [← ht']
  | @snoc tr m op l' hrun hstep ih =>
      obtain ⟨tm, htm, -⟩ := batch_epoch_mono_run h hrun ht
      have hm := ih (fun op hop => hops op (List.mem_append_left _ hop)) htm
      exact hstep.stale_kept (h.run hrun).presigs (hops op (by simp)) htm hm ht'

/-! ## Outpoints -/

def Adds (op : Op) (id : UtxoId) : Prop :=
  (∃ utxo, op = .receive utxo ∧ utxo.id = id) ∨ ∃ t, op = .commit t ∧ id ∈ t.changeUtxoIds

theorem Step.mem_records (hstep : Step l op l') (id : UtxoId) :
    id ∈ l'.pool.utxoRecords ↔
      Adds op id ∨ (id ∈ l.pool.utxoRecords ∧ op ≠ .cleanup id) := by
  cases hstep with
  | @receive utxo hnew =>
      rw [Finmap.mem_insert]
      simp [Adds, eq_comm]
  | @commit t records requests burned hc =>
      have hadds : Adds (.commit t) id ↔ id ∈ t.changeUtxoIds := by simp [Adds]
      rw [hadds]
      simp only [ne_eq, reduceCtorEq, not_false_eq_true, and_true]
      by_cases hch : id ∈ t.changeUtxoIds
      · rw [← t.buildChangeUtxos_ids] at hch
        obtain ⟨u, hu, rfl⟩ := List.mem_map.mp hch
        have hmem : u.id ∈ t.changeUtxoIds := by
          rw [← t.buildChangeUtxos_ids]
          exact List.mem_map_of_mem hu
        simp [hmem, Bag.mem_of_lookup (hc.change_added u hu)]
      · by_cases hin : id ∈ t.inputs.map Utxo.id
        · obtain ⟨r, hr, -⟩ := inputs_unlocked hc hin
          have hr' := hc.inputs_locked id hin
          rw [hr, Option.map_some] at hr'
          simp [Bag.mem_of_lookup hr, Bag.mem_of_lookup hr']
        · have hrest := hc.records_rest id hin hch
          simp only [hch, false_or, Finmap.mem_iff, hrest]
  | @confirm w t records now ht hunconfirmed hc =>
      simp [Adds, Finmap.mem_iff, hc.records_eq]
  | @cleanup id₀ r epoch hr hepoch =>
      rw [Finmap.mem_erase]
      simp [Adds, eq_comm, and_comm]
  | request | cancel | approve | fill | reassign | archiveRequest | archiveTxn | rotate => simp [Adds]

variable {id : UtxoId}

theorem Step.adds_new (hstep : Step l op l') (hadds : Adds op id) :
    ¬ l.pool.isSpentOrActive id := by
  rcases hadds with ⟨utxo, rfl, rfl⟩ | ⟨t, rfl, hid⟩
  · cases hstep with
    | receive hnew => exact hnew
  · cases hstep with
    | commit hc => exact hc.change_new id hid

theorem Step.used_mono (hstep : Step l op l') (hused : l.pool.isSpentOrActive id) :
    l'.pool.isSpentOrActive id := by
  unfold UtxoPool.isSpentOrActive at hused ⊢
  rw [hstep.mem_records]
  cases hstep with
  | @cleanup id₀ r epoch hr hepoch =>
      rw [Finmap.mem_insert]
      by_cases hid : id = id₀
      · exact .inr (.inl hid)
      · exact hused.imp (fun hlive => .inr ⟨hlive, by simpa using Ne.symm hid⟩) .inr
  | _ => exact hused.imp (fun hlive => .inr ⟨hlive, by simp⟩) fun hspent => hspent

theorem used_mono_run (hrun : Run Step l ops l') (hused : l.pool.isSpentOrActive id) :
    l'.pool.isSpentOrActive id :=
  hrun.invariant (P := fun l => l.pool.isSpentOrActive id) hused
    fun _ _ _ h hstep => hstep.used_mono h

theorem enters_new_run (hrun : Run Step l ops l') (hout : id ∉ l.pool.utxoRecords)
    (hin : id ∈ l'.pool.utxoRecords) : ¬ l.pool.isSpentOrActive id := by
  induction hrun with
  | nil => exact absurd hin hout
  | @snoc tr m op l' hrun hstep ih =>
      rcases (hstep.mem_records id).mp hin with hadds | ⟨hin, -⟩
      · exact fun hused => hstep.adds_new hadds (used_mono_run hrun hused)
      · exact ih hin

theorem Step.spentBy_kept (hstep : Step l op l') {r r' : UtxoRecord}
    (hr : l.pool.utxoRecords.lookup id = some r) (hs : r.spentBy = some w)
    (hr' : l'.pool.utxoRecords.lookup id = some r') : r'.spentBy = some w := by
  cases hstep with
  | @receive utxo hnew =>
      rcases Bag.lookup_of_insert hr' with ⟨rfl, -⟩ | hr'
      · exact absurd (.inl (Bag.mem_of_lookup hr)) hnew
      · rw [hr] at hr'
        exact Option.some.inj hr' ▸ hs
  | @commit t records requests burned hc =>
      have hin : id ∉ t.inputs.map Utxo.id := fun hin => by
        obtain ⟨r₁, hr₁, hs₁⟩ := inputs_unlocked hc hin
        rw [hr, Option.some.injEq] at hr₁
        rw [hr₁, hs₁] at hs
        cases hs
      have hch : id ∉ t.changeUtxoIds := fun hch =>
        hc.change_new id hch (.inl (Bag.mem_of_lookup hr))
      rw [hc.records_rest id hin hch, hr] at hr'
      exact Option.some.inj hr' ▸ hs
  | @confirm w₀ t records now ht hunconfirmed hc =>
      rw [hc.records_eq, hr, Option.map_some, Option.some.injEq] at hr'
      exact hr' ▸ hs
  | @cleanup id₀ r₀ epoch hr₀ hepoch =>
      rw [← Option.some.inj (hr.symm.trans (Bag.lookup_of_erase hr'))]
      exact hs
  | request | cancel | approve | fill | reassign | archiveRequest | archiveTxn | rotate =>
      rw [hr] at hr'
      exact Option.some.inj hr' ▸ hs

theorem spentBy_kept_run (hrun : Run Step l ops l') {r r' : UtxoRecord}
    (hr : l.pool.utxoRecords.lookup id = some r) (hs : r.spentBy = some w)
    (hr' : l'.pool.utxoRecords.lookup id = some r') : r'.spentBy = some w := by
  induction hrun generalizing r' with
  | nil =>
      rw [hr, Option.some.injEq] at hr'
      rwa [← hr']
  | @snoc tr m op l' hrun hstep ih =>
      -- a record that is there after the step was there before it: the outpoint was used already
      have hmem : id ∈ m.pool.utxoRecords := by
        rcases (hstep.mem_records id).mp (Bag.mem_of_lookup hr') with hadds | ⟨hin, -⟩
        · have hused : l.pool.isSpentOrActive id := .inl (Bag.mem_of_lookup hr)
          exact absurd (used_mono_run hrun hused) (hstep.adds_new hadds)
        · exact hin
      obtain ⟨rm, hrm⟩ := Finmap.mem_iff.mp hmem
      exact hstep.spentBy_kept hrm (ih hrm) hr'

end Ledger

end HashiBridge.Btc
