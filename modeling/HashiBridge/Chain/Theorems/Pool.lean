import HashiBridge.Chain.Lemmas.Reachable

/-!
# The lifecycle of outputs

An outpoint enters the pool once, is reserved by one withdrawal, is spent when that withdrawal is
confirmed and is then moved to the spent set by anyone.
-/

namespace HashiBridge.Chain

open Lib HashiBridge.Core Btc

variable {env : Env} {activated : List Nat} {w : World} {tr : List Label}

structure PoolLifecycle (pool : UtxoPool) (q : WithdrawalRequestQueue) : Prop where
  disjoint : ∀ id, ¬ (id ∈ pool.utxoRecords ∧ id ∈ pool.spentUtxos)
  spentBy_iff : ∀ {id r x}, pool.utxoRecords.lookup id = some r →
    (r.spentBy = some x ↔ ∃ t, q.txnAt x = some t ∧ id ∈ t.inputs.map Utxo.id)
  spentBy_unique : ∀ {id x t x' t'}, q.txnAt x = some t → q.txnAt x' = some t' →
    id ∈ t.inputs.map Utxo.id → id ∈ t'.inputs.map Utxo.id → x' = x
  spentEpoch_iff : ∀ {id r}, pool.utxoRecords.lookup id = some r →
    (r.spentEpoch.isSome = true ↔ ∃ x t, r.spentBy = some x ∧ q.txnAt x = some t ∧ t.isConfirmed)
  producedBy_iff : ∀ {id r x}, pool.utxoRecords.lookup id = some r →
    (r.producedBy = some x ↔ ∃ t, q.txnAt x = some t ∧ id ∈ t.changeUtxoIds ∧ ¬ t.isConfirmed)

theorem bodyAt_of_txnAt {q : WithdrawalRequestQueue} {x : Address} {t : WithdrawalTransaction}
    (h : q.txnAt x = some t) : q.bodyAt x = some t.body := by
  rw [WithdrawalRequestQueue.bodyAt, h, Option.map_some]

theorem txnAt_of_bodyAt {q : WithdrawalRequestQueue} {x : Address} {b : TxnBody}
    (h : q.bodyAt x = some b) : ∃ t, q.txnAt x = some t ∧ t.body = b :=
  Option.map_eq_some_iff.mp h

theorem poolLifecycle {l : Ledger} (hinv : l.Inv) : PoolLifecycle l.pool l.queue := by
  have h := hinv.pool
  constructor
  case disjoint =>
    rintro id ⟨hlive, hspent⟩
    obtain ⟨r, hr⟩ := Finmap.mem_iff.mp hlive
    exact h.disjoint hr hspent
  case spentBy_iff =>
    intro id r x hr
    constructor
    · intro hs
      obtain ⟨b, hb, hin, -⟩ := h.locked hr hs
      obtain ⟨t, ht, rfl⟩ := txnAt_of_bodyAt hb
      exact ⟨t, ht, hin⟩
    · rintro ⟨t, ht, hin⟩
      rcases h.input_state (bodyAt_of_txnAt ht) hin with ⟨r', hr', hs⟩ | ⟨hspent, -⟩
      · rw [hr, Option.some.injEq] at hr'
        rwa [hr']
      · exact absurd hspent (h.disjoint hr)
  case spentBy_unique =>
    intro id x t x' t' ht ht' hin hin'
    exact h.input_unique (bodyAt_of_txnAt ht') (bodyAt_of_txnAt ht) hin' hin
  case spentEpoch_iff =>
    intro id r hr
    constructor
    · intro hsome
      cases hs : r.spentBy with
      | none =>
          rw [h.unlocked hr hs] at hsome
          cases hsome
      | some x =>
          obtain ⟨b, hb, -, hconf⟩ := h.locked hr hs
          obtain ⟨t, ht, rfl⟩ := txnAt_of_bodyAt hb
          exact ⟨x, t, rfl, ht, hconf.symm.trans hsome⟩
    · rintro ⟨x, t, hs, ht, hconf⟩
      obtain ⟨b, hb, -, hsame⟩ := h.locked hr hs
      rw [bodyAt_of_txnAt ht, Option.some.injEq] at hb
      rw [hsame, ← hb]
      exact hconf
  case producedBy_iff =>
    intro id r x hr
    constructor
    · intro hp
      obtain ⟨b, hb, hch, hconf⟩ := h.produced hr hp
      obtain ⟨t, ht, rfl⟩ := txnAt_of_bodyAt hb
      exact ⟨t, ht, hch, by simpa [WithdrawalTransaction.body, WithdrawalTransaction.isConfirmed]
        using hconf⟩
    · rintro ⟨t, ht, hch, hunconfirmed⟩
      rcases h.change_state (bodyAt_of_txnAt ht) hch with ⟨r', hr', hp⟩ | hspent
      · rw [hr, Option.some.injEq] at hr'
        rw [hr']
        exact hp (by simpa [WithdrawalTransaction.body, WithdrawalTransaction.isConfirmed]
          using hunconfirmed)
      · exact absurd hspent (h.disjoint hr)

theorem markSpent_inputs_succeeds {l : Ledger} (hinv : l.Inv) {x : Address}
    {t : WithdrawalTransaction} (ht : l.queue.withdrawalTxns.lookup x = some t)
    (hunconfirmed : t.confirmedTimestampMs = none) (epoch : Nat) :
    ∃ pool, (t.inputs.map Utxo.id).foldlM (fun pool id => pool.markSpent id epoch) l.pool =
      .ok pool := by
  refine UtxoPool.markSpent_loop_succeeds fun id hid => ?_
  have hbody := bodyAt_of_txnAt (Ledger.txnAt_of_lookup ht)
  rcases hinv.pool.input_state hbody hid with ⟨r, hr, -⟩ | ⟨-, hconf⟩
  · exact ⟨r, hr⟩
  · -- only a confirmed withdrawal's inputs are cleaned up
    simp [WithdrawalTransaction.body, hunconfirmed] at hconf

theorem confirmWithdrawal_succeeds (hinv : w.ledger.Inv) {x : Address} {t : WithdrawalTransaction}
    {cert : CommitteeSignature} {certified : CertifiedMessage Message}
    (ht : w.hashi.bitcoin.withdrawalQueue.withdrawalTxns.lookup x = some t)
    (hsigned : t.txnFullySigned) (hunconfirmed : t.confirmedTimestampMs = none)
    (hversion : w.hashi.versioning.assertVersionEnabled = .ok ())
    (hunpaused : w.hashi.assertUnpaused = .ok ())
    (hverify : w.hashi.verify env (.withdrawalConfirmation x) cert = .ok certified) :
    ∃ hashi', w.hashi.confirmWithdrawal env x cert w.clock = .ok hashi' := by
  obtain ⟨pool, hpool⟩ := markSpent_inputs_succeeds hinv ht hunconfirmed w.hashi.committeeSet.epoch
  simp only [Hashi.confirmWithdrawal, WithdrawalRequestQueue.borrowWithdrawalTxn,
    WithdrawalRequestQueue.markTxnConfirmed, bind_eq_ok, pure_eq_ok, require_eq_ok,
    Bag.borrow_eq_ok]
  exact ⟨_, (), hversion, (), hunpaused, certified, hverify, t, ht, (), hsigned, _,
    ⟨t, ht, (), hunconfirmed, rfl⟩, pool, hpool, rfl⟩

/-- The pool in every reachable world and over every continuation: the records match the withdrawals,
an outpoint that was in the records is never added again, a reservation never changes, and a
confirmation never aborts on the pool. -/
theorem outputs_lifecycle {id₀ epoch clock : Nat}
    (hrun : Run (Step env) (publish id₀ epoch clock) tr w) :
    PoolLifecycle w.hashi.bitcoin.utxoPool w.hashi.bitcoin.withdrawalQueue ∧
    (∀ {id tr' w' label w''}, id ∈ w.hashi.bitcoin.utxoPool.utxoRecords →
      Run (Step env) w tr' w' → Step env w' label w'' →
      id ∈ w''.hashi.bitcoin.utxoPool.utxoRecords → id ∈ w'.hashi.bitcoin.utxoPool.utxoRecords) ∧
    (∀ {id r x tr' w' r'}, w.hashi.bitcoin.utxoPool.utxoRecords.lookup id = some r →
      r.spentBy = some x → Run (Step env) w tr' w' →
      w'.hashi.bitcoin.utxoPool.utxoRecords.lookup id = some r' → r'.spentBy = some x) ∧
    (∀ {x t}, w.hashi.bitcoin.withdrawalQueue.withdrawalTxns.lookup x = some t →
      t.txnFullySigned → t.confirmedTimestampMs = none →
      (∃ pool, (t.inputs.map Utxo.id).foldlM
        (fun pool id => pool.markSpent id w.hashi.committeeSet.epoch) w.hashi.bitcoin.utxoPool =
          .ok pool) ∧
      ∀ {cert certified}, w.hashi.versioning.assertVersionEnabled = .ok () →
        w.hashi.assertUnpaused = .ok () →
        w.hashi.verify env (.withdrawalConfirmation x) cert = .ok certified →
        ∃ hashi', w.hashi.confirmWithdrawal env x cert w.clock = .ok hashi') := by
  have hinv := World.Inv.reachable hrun
  refine ⟨poolLifecycle hinv.sound.inv, ?_, ?_, ?_⟩
  · intro id tr' w' label w'' hin hrun' hstep hin''
    by_contra hout
    obtain ⟨ops, hops⟩ := hinv.ledger_run hrun'
    obtain ⟨ops', -, hops'⟩ := (hstep.refines (hinv.run hrun')).ledger
    exact Ledger.enters_new_run hops' hout hin'' (Ledger.used_mono_run hops (.inl hin))
  · intro id r x tr' w' r' hr hs hrun' hr'
    obtain ⟨ops, hops⟩ := hinv.ledger_run hrun'
    exact Ledger.spentBy_kept_run hops hr hs hr'
  · intro x t ht hsigned hunconfirmed
    exact ⟨markSpent_inputs_succeeds hinv.sound.inv ht hunconfirmed _, fun hversion hunpaused =>
      confirmWithdrawal_succeeds hinv.sound.inv ht hsigned hunconfirmed hversion hunpaused⟩

/-- A child that spends unconfirmed change is confirmed and cleaned up first; its parent is confirmed
all the same. -/
theorem outputs_lifecycle_of_child : ∃ w,
    Run (Step Sample.env) (publish 99 0 0) (Sample.launch ++ Sample.deposits ++ Sample.withdrawal ++
      Sample.signing ++ Sample.child) w ∧
    ⟨700, 1⟩ ∈ w.hashi.bitcoin.utxoPool.spentUtxos ∧
    ∃ hashi', w.hashi.confirmWithdrawal Sample.env 1018 (Sample.cert 0) w.clock = .ok hashi' := by
  obtain ⟨w, hrun, htest⟩ := run_of_reaches Sample.env (publish 99 0 0)
    (Sample.launch ++ Sample.deposits ++ Sample.withdrawal ++ Sample.signing ++ Sample.child)
    (fun w => decide (⟨700, 1⟩ ∈ w.hashi.bitcoin.utxoPool.spentUtxos ∧
      w.hashi.versioning.assertVersionEnabled = .ok () ∧ w.hashi.assertUnpaused = .ok () ∧
      (w.hashi.verify Sample.env (.withdrawalConfirmation 1018) (Sample.cert 0)).isOk = true ∧
      (w.hashi.bitcoin.withdrawalQueue.withdrawalTxns.lookup 1018).any (fun t =>
        decide (t.txnFullySigned ∧ t.confirmedTimestampMs = none)) = true)) (by decide +kernel)
  obtain ⟨hspent, hversion, hunpaused, hverify, htxn⟩ := of_decide_eq_true htest
  obtain ⟨t, ht, hstate⟩ := (Option.any_eq_true _ _).mp htxn
  obtain ⟨hsigned, hunconfirmed⟩ := of_decide_eq_true hstate
  obtain ⟨certified, hcertified⟩ := exists_of_isOk hverify
  exact ⟨w, hrun, hspent, ((outputs_lifecycle hrun).2.2.2 ht hsigned hunconfirmed).2 hversion hunpaused
    hcertified⟩

end HashiBridge.Chain
