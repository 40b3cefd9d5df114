import HashiBridge.Btc.Lemmas.LedgerInvariant
import HashiBridge.Btc.Lemmas.QueueSpecs

/-!
# The archival calls

The permissionless archival functions take arbitrary ids. Each of them is a run of archival
operations on the ledger.
-/

namespace HashiBridge.Btc

open Lib HashiBridge.Core

theorem Op.Archives.mono {op : Op} {ws ws' : List Address} (h : op.Archives ws)
    (hsub : ∀ w ∈ ws, w ∈ ws') : op.Archives ws' := by
  obtain ⟨w, hw, hop⟩ := h
  exact ⟨w, hsub w hw, hop⟩

/-- Archival of `ws` takes the ledger's queue from `q` to `q'`. -/
abbrev Ledger.Archival (l : Ledger) (ws : List Address) (q q' : WithdrawalRequestQueue) : Prop :=
  ∃ ops, Run Step { l with queue := q } ops { l with queue := q' } ∧ ∀ op ∈ ops, op.Archives ws

namespace WithdrawalRequestQueue

variable {l : Ledger} {q q' : WithdrawalRequestQueue} {w : Address} {t : WithdrawalTransaction}
  {ids ws : List Address}

/-! ## Requests -/

theorem archiveRequest_loop (ht : q.withdrawalTxns.lookup w = some t) (hconf : t.isConfirmed)
    (h : ids.foldlM (archiveRequest w) q = .ok q') :
    q'.withdrawalTxns = q.withdrawalTxns ∧ l.Archival [w] q q' := by
  refine foldlM_run (fun q => { l with queue := q })
    (fun q' => q'.withdrawalTxns = q.withdrawalTxns) _ rfl ?_ h
  intro s id s' _ hs hround
  rcases archiveRequest_eq_ok hround with ⟨-, rfl⟩ | ⟨r, hr, hlink, rfl⟩
  · exact ⟨hs, [], .nil, by simp⟩
  · refine ⟨hs, [.archiveRequest w id], .single (.archiveRequest ?_ hconf hr hlink), ?_⟩
    · rw [hs]
      exact ht
    · simp [Op.Archives]

theorem archiveRequest_keeps_absent {id id' : Address} (h : archiveRequest w q id = .ok q')
    (habsent : q.requests.lookup id' = none) : q'.requests.lookup id' = none := by
  rcases archiveRequest_eq_ok h with ⟨-, rfl⟩ | ⟨r, -, -, rfl⟩
  · exact habsent
  · rw [Bag.lookup_erase_ite]
    split_ifs
    exacts [rfl, habsent]

theorem archiveRequest_absent {id : Address} (h : archiveRequest w q id = .ok q') :
    q'.requests.lookup id = none := by
  rcases archiveRequest_eq_ok h with ⟨hnone, rfl⟩ | ⟨r, -, -, rfl⟩
  · exact hnone
  · rw [Bag.lookup_erase_ite, if_pos rfl]

theorem archiveRequest_loop_absent (h : ids.foldlM (archiveRequest w) q = .ok q') :
    ∀ id ∈ ids, q'.requests.lookup id = none :=
  foldlM_each (fun id q => q.requests.lookup id = none) (fun _ _ _ hx => archiveRequest_absent hx)
    (fun _ _ _ _ hx habsent => archiveRequest_keeps_absent hx habsent) h

/-! ## Transactions -/

theorem processed_of_absent (hinv : Ledger.Inv { l with queue := q })
    (ht : q.withdrawalTxns.lookup w = some t) {id : Address} (hid : id ∈ t.requestIds)
    (habsent : q.requests.lookup id = none) : id ∈ q.processed := by
  obtain ⟨r, hr, -⟩ := hinv.queue.backlink (b := t.body)
    (by rw [liveBody_of_lookup ht, Option.some_or]) hid
  rw [habsent, Option.none_or] at hr
  exact Bag.mem_of_lookup hr

theorem archiveTxn_run (ht : q.withdrawalTxns.lookup w = some t) (hconf : t.isConfirmed)
    (hall : ∀ id ∈ t.requestIds, id ∈ q.processed) (h : q.archiveTxn w = .ok q') :
    l.Archival [w] q q' := by
  obtain ⟨t', ht', rfl⟩ := archiveTxn_eq_ok h
  rw [ht, Option.some.injEq] at ht'
  subst ht'
  exact ⟨[.archiveTxn w], .single (.archiveTxn ht hconf hall), by simp [Op.Archives]⟩

theorem archiveWithdrawalTxn_run (hinv : Ledger.Inv { l with queue := q })
    (h : q.archiveWithdrawalTxn w = .ok q') : l.Archival [w] q q' := by
  unfold archiveWithdrawalTxn at h
  split at h
  · cases h
    exact ⟨[], .nil, by simp⟩
  · next t ht =>
    simp only [bind_eq_ok, require_eq_ok] at h
    obtain ⟨_, hconf, m, hloop, harchive⟩ := h
    obtain ⟨hsame, ops, hrun, hops⟩ := archiveRequest_loop (l := l) ht hconf hloop
    have hinvm := hrun.invariant hinv fun _ _ _ hi hs => hi.step hs
    have htm : m.withdrawalTxns.lookup w = some t := by rw [hsame, ht]
    obtain ⟨ops', hrun', hops'⟩ := archiveTxn_run (l := l) htm hconf
      (fun id hid => processed_of_absent hinvm htm hid (archiveRequest_loop_absent hloop id hid))
      harchive
    exact ⟨ops ++ ops', hrun.trans hrun', List.forall_mem_append.mpr ⟨hops, hops'⟩⟩

theorem archiveWithdrawalRequests_run (h : q.archiveWithdrawalRequests w ids = .ok q') :
    l.Archival [w] q q' := by
  unfold archiveWithdrawalRequests at h
  split at h
  · cases h
    exact ⟨[], .nil, by simp⟩
  · next t ht =>
    simp only [bind_eq_ok, require_eq_ok] at h
    obtain ⟨_, hconf, hloop⟩ := h
    exact (archiveRequest_loop ht hconf hloop).2

theorem finishArchiveWithdrawalTxn_run (h : q.finishArchiveWithdrawalTxn w = .ok q') :
    l.Archival [w] q q' := by
  unfold finishArchiveWithdrawalTxn at h
  split at h
  · cases h
    exact ⟨[], .nil, by simp⟩
  · next t ht =>
    simp only [bind_eq_ok, require_eq_ok] at h
    obtain ⟨_, hconf, h⟩ := h
    split_ifs at h with hall
    · exact archiveTxn_run ht hconf hall h
    · cases h
      exact ⟨[], .nil, by simp⟩

/-! ## Loops over transactions -/

theorem archival_loop {f : WithdrawalRequestQueue → Address → Except Abort WithdrawalRequestQueue}
    (hf : ∀ q w q', Ledger.Inv { l with queue := q } → f q w = .ok q' → l.Archival [w] q q')
    (hinv : Ledger.Inv { l with queue := q }) (h : ws.foldlM f q = .ok q') : l.Archival ws q q' := by
  refine (foldlM_run (fun q => { l with queue := q }) (fun q => Ledger.Inv { l with queue := q }) _
    hinv ?_ h).2
  intro s w s' hw hs hround
  obtain ⟨ops, hrun, hops⟩ := hf s w s' hs hround
  exact ⟨hrun.invariant hs fun _ _ _ hi hstep => hi.step hstep, ops, hrun,
    fun op hop => (hops op hop).mono (by simpa using hw)⟩

end WithdrawalRequestQueue

end HashiBridge.Btc
