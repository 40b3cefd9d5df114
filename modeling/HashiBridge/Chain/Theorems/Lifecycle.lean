import HashiBridge.Btc.Lemmas.Convergence
import HashiBridge.Chain.Lemmas.Reachable

/-!
# The lifecycle of withdrawals

A request is created, may be cancelled, is committed to one transaction and is archived after that
transaction is confirmed. Archival is open to everyone and takes any ids in any chunks; it converges.
-/

namespace HashiBridge.Chain

open Lib HashiBridge.Core Btc

variable {env : Env} {activated : List Nat} {w w' : World} {label : Label} {tr : List Label}

def Created (tr : List Label) (id : Address) : Prop := ∃ label ∈ tr, label.requests = some id

def Cancelled (tr : List Label) (id : Address) : Prop := ∃ label ∈ tr, label.cancels = some id

/-! ## The partition -/

structure LifecyclePartition (tr : List Label) (q : WithdrawalRequestQueue) : Prop where
  exists_iff : ∀ id, Created tr id ∧ ¬ Cancelled tr id ↔ id ∈ q.requests ∨ id ∈ q.processed
  requests_disjoint : ∀ id, ¬ (id ∈ q.requests ∧ id ∈ q.processed)
  escrow : ∀ {id r}, q.requestAt id = some r →
    r.btc = if r.withdrawalTxnId = none then r.btcAmount else 0
  committed : ∀ {id r x}, q.requestAt id = some r → r.withdrawalTxnId = some x →
    (∃ t, q.txnAt x = some t ∧ t.requestIds.count id = 1) ∧
      ∀ x' t', q.txnAt x' = some t' → id ∈ t'.requestIds → x' = x
  txns_disjoint : ∀ x, ¬ (x ∈ q.withdrawalTxns ∧ x ∈ q.confirmedTxns)
  processed_confirmed : ∀ {id r}, q.processed.lookup id = some r →
    ∃ x t, r.withdrawalTxnId = some x ∧ q.txnAt x = some t ∧ t.isConfirmed
  archived_processed : ∀ {x t}, q.confirmedTxns.lookup x = some t → ∀ id ∈ t.requestIds,
    id ∈ q.processed
  cancelled_free : ∀ {id x t}, Cancelled tr id → q.txnAt x = some t → id ∉ t.requestIds

theorem requestAt_isSome_iff {q : WithdrawalRequestQueue} {id : Address} :
    (q.requestAt id).isSome = true ↔ id ∈ q.requests ∨ id ∈ q.processed := by
  rw [WithdrawalRequestQueue.requestAt, Option.isSome_or, Bool.or_eq_true, Finmap.mem_iff,
    Finmap.mem_iff, Option.isSome_iff_exists, Option.isSome_iff_exists]

theorem Refines.cancels_exists (h : Refines env w label w') {id : Address}
    (hid : label.cancels = some id) : (w.ledger.queue.requestAt id).isSome = true := by
  obtain ⟨ops, heffect, hrun⟩ := h.ledger
  obtain rfl := heffect.of_cancels hid
  exact hrun.of_single.cancel_exists

theorem Label.cancels_of_requests {id : Address} (h : label.requests = some id) :
    label.cancels = none := by
  unfold Label.requests at h
  split at h <;> cases h
  rfl

theorem request_exists_iff {id₀ epoch clock : Nat} (id : Address)
    (hrun : Run (Step env) (publish id₀ epoch clock) tr w) :
    (w.ledger.queue.requestAt id).isSome = true ↔ Created tr id ∧ ¬ Cancelled tr id := by
  refine present_iff (fun w => (w.ledger.queue.requestAt id).isSome = true) Label.requests
    Label.cancels id (by simp [publish, World.ledger, Hashi.ledger, Hashi.init, BitcoinState.create,
      WithdrawalRequestQueue.create, WithdrawalRequestQueue.requestAt])
    (fun hinv hsome => ?_) (fun label hid => ⟨label.fresh_of_requests id hid, ?_⟩)
    (fun hinv h => ⟨h.requestAt_isSome hinv.sound.inv id, h.cancels_exists⟩) hrun
  · obtain ⟨r, hr⟩ := Option.isSome_iff_exists.mp hsome
    exact hinv.request_ids hr
  · exact label.cancels_of_requests hid

theorem lifecyclePartition {id₀ epoch clock : Nat}
    (hrun : Run (Step env) (publish id₀ epoch clock) tr w) :
    LifecyclePartition tr w.hashi.bitcoin.withdrawalQueue := by
  have hinv := (World.Inv.reachable hrun).sound.inv.queue
  have hbody : ∀ {x t}, w.ledger.queue.txnAt x = some t →
      (w.ledger.queue.liveBody x).or (w.ledger.queue.doneBody x) = some t.body := by
    intro x t ht
    rw [← WithdrawalRequestQueue.bodyAt_eq, WithdrawalRequestQueue.bodyAt, ht, Option.map_some]
  constructor
  case exists_iff =>
    intro id
    rw [← requestAt_isSome_iff]
    exact (request_exists_iff id hrun).symm
  case requests_disjoint =>
    rintro id ⟨hreq, hproc⟩
    obtain ⟨r, hr⟩ := Finmap.mem_iff.mp hreq
    obtain ⟨r', hr'⟩ := Finmap.mem_iff.mp hproc
    rw [show w.hashi.bitcoin.withdrawalQueue.processed.lookup id = none from
      hinv.requests_disjoint hr] at hr'
    cases hr'
  case escrow =>
    intro id r hr
    split_ifs with hopen
    · rw [WithdrawalRequestQueue.requestAt, Option.or_eq_some_iff] at hr
      rcases hr with hr | ⟨-, hr⟩
      · exact hinv.escrow_open hr hopen
      · obtain ⟨x, b, hlink, -⟩ := hinv.processed_confirmed hr
        rw [hopen] at hlink
        cases hlink
    · obtain ⟨x, hx⟩ := Option.ne_none_iff_exists'.mp hopen
      exact hinv.escrow_drained hr hx
  case committed =>
    intro id r x hr hlink
    obtain ⟨b, hb, hid⟩ := hinv.link hr hlink
    rw [← WithdrawalRequestQueue.bodyAt_eq, WithdrawalRequestQueue.bodyAt,
      Option.map_eq_some_iff] at hb
    obtain ⟨t, ht, rfl⟩ := hb
    refine ⟨⟨t, ht, List.count_eq_one_of_mem (hinv.requests_nodup (hbody ht)) hid⟩, ?_⟩
    intro x' t' ht' hid'
    obtain ⟨r', hr', hlink'⟩ := hinv.backlink (hbody ht') hid'
    have hrr : r' = r := Option.some.inj (hr'.symm.trans hr)
    rw [hrr, hlink] at hlink'
    exact (Option.some.inj hlink').symm
  case txns_disjoint =>
    rintro x ⟨hlive, hdone⟩
    obtain ⟨t, ht⟩ := Finmap.mem_iff.mp hlive
    obtain ⟨t', ht'⟩ := Finmap.mem_iff.mp hdone
    have hnone := hinv.txns_disjoint (WithdrawalRequestQueue.liveBody_of_lookup ht)
    have hsome : w.ledger.queue.doneBody x = some t'.body := by
      rw [WithdrawalRequestQueue.doneBody]
      exact congrArg _ ht'
    rw [hnone] at hsome
    cases hsome
  case processed_confirmed =>
    intro id r hr
    obtain ⟨x, b, hlink, hb, hconf⟩ := hinv.processed_confirmed hr
    rw [← WithdrawalRequestQueue.bodyAt_eq, WithdrawalRequestQueue.bodyAt,
      Option.map_eq_some_iff] at hb
    obtain ⟨t, ht, rfl⟩ := hb
    exact ⟨x, t, hlink, ht, hconf⟩
  case archived_processed =>
    intro x t ht id hid
    have hdone : w.ledger.queue.doneBody x = some t.body := by
      rw [WithdrawalRequestQueue.doneBody]
      exact congrArg _ ht
    obtain ⟨r, hr⟩ := (hinv.archived hdone).2 id hid
    exact Bag.mem_of_lookup hr
  case cancelled_free =>
    intro id x t hcancelled ht hid
    obtain ⟨r, hr, -⟩ := hinv.backlink (hbody ht) hid
    have hsome : (w.ledger.queue.requestAt id).isSome = true := Option.isSome_iff_exists.mpr ⟨r, hr⟩
    exact ((request_exists_iff id hrun).mp hsome).2 hcancelled

/-! ## Archival -/

/-- An archival call whose withdrawals are all among `ws`; the request ids are arbitrary. -/
def Label.ArchivesOnly (ws : List Address) : Label → Prop
  | .call _ _ _ (.bridge (.archiveConfirmedWithdrawals withdrawalIds))
  | .call _ _ _ (.bridge (.finishArchiveWithdrawalTxns withdrawalIds)) => ∀ x ∈ withdrawalIds, x ∈ ws
  | .call _ _ _ (.bridge (.archiveWithdrawalRequests withdrawalId _)) => withdrawalId ∈ ws
  | _ => False

/-- The two queues agree on a withdrawal and on the requests committed to it. -/
structure SameWithdrawal (x : Address) (q q' : WithdrawalRequestQueue) : Prop where
  withdrawalTxns_eq : q'.withdrawalTxns.lookup x = q.withdrawalTxns.lookup x
  confirmedTxns_eq : q'.confirmedTxns.lookup x = q.confirmedTxns.lookup x
  requests_eq : ∀ {id r}, q.requestAt id = some r → r.withdrawalTxnId = some x →
    q'.requests.lookup id = q.requests.lookup id ∧ q'.processed.lookup id = q.processed.lookup id

/-- Archival from a world on, where the package version is enabled. -/
structure ArchivalConverges (env : Env) (w : World) : Prop where
  /-- Attempts in any order, chunking and repetition, with any aborts among them, that leave none of
  `ws` in flight have moved exactly what one call moves. -/
  converges : ∀ {ws : List Address} {labels : List Label}, (∀ label ∈ labels, label.ArchivesOnly ws) →
    (∀ x ∈ ws, x ∉ (labels.foldl (attempt env) w).hashi.bitcoin.withdrawalQueue.withdrawalTxns) →
    w.hashi.archiveConfirmedWithdrawals ws =
      .ok (w.hashi.withQueue (labels.foldl (attempt env) w).hashi.bitcoin.withdrawalQueue)
  /-- Whatever else the attempts archived, a withdrawal they took out of flight and its requests lie
  where one call for it puts them. -/
  converges_at : ∀ {ws : List Address} {labels : List Label} {x : Address},
    (∀ label ∈ labels, label.ArchivesOnly ws) →
    x ∉ (labels.foldl (attempt env) w).hashi.bitcoin.withdrawalQueue.withdrawalTxns →
    ∃ q, w.hashi.archiveConfirmedWithdrawals [x] = .ok (w.hashi.withQueue q) ∧
      SameWithdrawal x q (labels.foldl (attempt env) w).hashi.bitcoin.withdrawalQueue
  archive_succeeds : ∀ {ws : List Address}, (∀ x ∈ ws, w.hashi.bitcoin.withdrawalQueue.Settled x) →
    ∃ q, w.hashi.archiveConfirmedWithdrawals ws = .ok (w.hashi.withQueue q) ∧
      ∀ x ∈ ws, x ∉ q.withdrawalTxns
  requests_succeed : ∀ {x ids}, w.hashi.bitcoin.withdrawalQueue.Settled x →
    (∀ id ∈ ids, ∀ r, w.hashi.bitcoin.withdrawalQueue.requests.lookup id = some r →
      r.withdrawalTxnId = some x) →
    ∃ q, w.hashi.archiveWithdrawalRequests x ids = .ok (w.hashi.withQueue q)
  finish_succeeds : ∀ {ws : List Address}, (∀ x ∈ ws, w.hashi.bitcoin.withdrawalQueue.Settled x) →
    ∃ q, w.hashi.finishArchiveWithdrawalTxns ws = .ok (w.hashi.withQueue q) ∧
      ∀ x ∈ ws, q.Finished x

theorem Label.ArchivesOnly.effect {ws : List Address} (h : label.ArchivesOnly ws) {ops : List Op}
    (heffect : label.LedgerEffect ops) : ∀ op ∈ ops, op.Archives ws := by
  intro op hop
  unfold Label.ArchivesOnly at h
  split at h
  · exact (heffect op hop).mono h
  · exact (heffect op hop).mono h
  · exact (heffect op hop).mono (by simpa using h)
  · cases h

theorem archived_of_attempts (hinv : w.Inv env activated) {ws : List Address} {labels : List Label}
    (h : ∀ label ∈ labels, label.ArchivesOnly ws) :
    WithdrawalRequestQueue.Archived ws w.ledger.queue (labels.foldl (attempt env) w).ledger.queue ∧
      (labels.foldl (attempt env) w).ledger.Inv := by
  obtain ⟨tr, hsub, hrun⟩ := run_of_attempts env w labels
  refine ⟨?_, (hinv.run hrun).sound.inv⟩
  generalize labels.foldl (attempt env) w = w' at hrun
  induction hrun with
  | nil => exact .refl _
  | snoc hrun hstep ih =>
      obtain ⟨ops, heffect, hops⟩ := (hstep.refines (hinv.run hrun)).ledger
      exact (ih fun l hl => hsub l (List.mem_append_left _ hl)).trans
        (Ledger.archived_run hops ((h _ (hsub _ (by simp))).effect heffect))

theorem settled_of_archived {ws : List Address} (hinv' : w'.ledger.Inv)
    (harch : WithdrawalRequestQueue.Archived ws w.ledger.queue w'.ledger.queue) {x : Address}
    (hx : w'.ledger.queue.withdrawalTxns.lookup x = none) : w.ledger.queue.Settled x := by
  intro t ht
  have hdone : w'.ledger.queue.confirmedTxns.lookup x = some t := by
    rw [Ledger.confirmedTxns_of_absent hx, harch.txnAt_eq, WithdrawalRequestQueue.txnAt, ht,
      Option.some_or]
  have hbody : w'.ledger.queue.doneBody x = some t.body := by
    rw [WithdrawalRequestQueue.doneBody, hdone, Option.map_some]
  exact (hinv'.queue.archived hbody).1

theorem archive_loop_succeeds (hinv : w.ledger.Inv) {ws : List Address}
    (hsettled : ∀ x ∈ ws, w.ledger.queue.Settled x) :
    ∃ q, ws.foldlM WithdrawalRequestQueue.archiveWithdrawalTxn w.ledger.queue = .ok q ∧
      Ledger.Inv { w.ledger with queue := q } ∧
      WithdrawalRequestQueue.Archived ws w.ledger.queue q ∧
      ∀ x ∈ ws, q.withdrawalTxns.lookup x = none := by
  obtain ⟨q, hq⟩ := WithdrawalRequestQueue.archival_loop_succeeds (l := w.ledger) hinv
    (fun _ _ _ h hq => WithdrawalRequestQueue.archiveWithdrawalTxn_run h hq)
    (fun _ _ h hs => WithdrawalRequestQueue.archiveWithdrawalTxn_succeeds h hs) hsettled
  obtain ⟨ops, hrun, hops⟩ := WithdrawalRequestQueue.archival_loop (l := w.ledger)
    (fun _ _ _ h hq => WithdrawalRequestQueue.archiveWithdrawalTxn_run h hq) hinv hq
  exact ⟨q, hq, hinv.run hrun, Ledger.archived_run hrun hops,
    WithdrawalRequestQueue.archiveWithdrawalTxn_loop_absent hq⟩

theorem same_of_absent {l l' : Ledger} (hinv : l.Inv) (hinv' : l'.Inv) {x : Address}
    (hrequests : ∀ id, l'.queue.requestAt id = l.queue.requestAt id)
    (htxn : l'.queue.txnAt x = l.queue.txnAt x) (h : l.queue.withdrawalTxns.lookup x = none)
    (h' : l'.queue.withdrawalTxns.lookup x = none) : SameWithdrawal x l.queue l'.queue := by
  refine ⟨h'.trans h.symm, ?_, fun {id r} hr hlink => ?_⟩
  · rw [Ledger.confirmedTxns_of_absent h, Ledger.confirmedTxns_of_absent h', htxn]
  · obtain ⟨hreq, hproc⟩ := hinv.request_of_absent h hr hlink
    obtain ⟨hreq', hproc'⟩ := hinv'.request_of_absent h' ((hrequests id).trans hr) hlink
    exact ⟨hreq'.trans hreq.symm, hproc'.trans hproc.symm⟩

theorem archivalConverges (hinv : w.Inv env activated)
    (hversion : w.hashi.versioning.assertVersionEnabled = .ok ()) : ArchivalConverges env w := by
  have hledger := hinv.sound.inv
  constructor
  case converges =>
    intro ws labels hlabels hdone
    obtain ⟨harch, hinv'⟩ := archived_of_attempts hinv hlabels
    have habsent := fun x hx => Finmap.lookup_eq_none.mpr (hdone x hx)
    obtain ⟨q, hq, hinvq, harchq, habsentq⟩ := archive_loop_succeeds hledger fun x hx =>
      settled_of_archived hinv' harch (habsent x hx)
    have heq := Ledger.archived_unique hinvq hinv' harchq harch habsentq habsent
    exact bind_eq_ok.mpr ⟨(), hversion, bind_eq_ok.mpr ⟨q, hq, congrArg _ (congrArg _ heq)⟩⟩
  case converges_at =>
    intro ws labels x hlabels hdone
    obtain ⟨harch, hinv'⟩ := archived_of_attempts hinv hlabels
    have habsent := Finmap.lookup_eq_none.mpr hdone
    obtain ⟨q, hq, hinvq, harchq, habsentq⟩ := archive_loop_succeeds hledger
      fun y (hy : y ∈ [x]) => settled_of_archived hinv' harch (List.mem_singleton.mp hy ▸ habsent)
    have habsentx := habsentq x (List.mem_singleton_self x)
    refine ⟨q, bind_eq_ok.mpr ⟨(), hversion, bind_eq_ok.mpr ⟨q, hq, rfl⟩⟩, ?_⟩
    exact same_of_absent hinvq hinv'
      (fun id => (harch.requestAt_eq id).trans (harchq.requestAt_eq id).symm)
      ((harch.txnAt_eq x).trans (harchq.txnAt_eq x).symm) habsentx habsent
  case archive_succeeds =>
    intro ws hsettled
    obtain ⟨q, hq, -, -, habsent⟩ := archive_loop_succeeds hledger hsettled
    exact ⟨q, bind_eq_ok.mpr ⟨(), hversion, bind_eq_ok.mpr ⟨q, hq, rfl⟩⟩,
      fun x hx => Finmap.lookup_eq_none.mp (habsent x hx)⟩
  case requests_succeed =>
    intro x ids hsettled hlink
    obtain ⟨q, hq⟩ :=
      WithdrawalRequestQueue.archiveWithdrawalRequests_succeeds (l := w.ledger) hledger hsettled hlink
    exact ⟨q, bind_eq_ok.mpr ⟨(), hversion, bind_eq_ok.mpr ⟨q, hq, rfl⟩⟩⟩
  case finish_succeeds =>
    intro ws hsettled
    obtain ⟨q, hq⟩ := WithdrawalRequestQueue.archival_loop_succeeds (l := w.ledger) hledger
      (fun _ _ _ _ hq => WithdrawalRequestQueue.finishArchiveWithdrawalTxn_run hq)
      (fun _ _ h hs => WithdrawalRequestQueue.finishArchiveWithdrawalTxn_succeeds h hs) hsettled
    exact ⟨q, bind_eq_ok.mpr ⟨(), hversion, bind_eq_ok.mpr ⟨q, hq, rfl⟩⟩,
      WithdrawalRequestQueue.finishArchiveWithdrawalTxn_loop hq⟩

/-- The lifecycle partition after every history, and the convergence of archival from every reachable
world in which the package version is enabled. -/
theorem withdrawal_lifecycle {id epoch clock : Nat}
    (hrun : Run (Step env) (publish id epoch clock) tr w) :
    LifecyclePartition tr w.hashi.bitcoin.withdrawalQueue ∧
      (w.hashi.versioning.assertVersionEnabled = .ok () → ArchivalConverges env w) :=
  ⟨lifecyclePartition hrun, archivalConverges (World.Inv.reachable hrun)⟩

/-- Archival of a confirmed withdrawal by chunks, with an aborting call among them, moves what one
call moves. -/
theorem withdrawal_lifecycle_of_chunks : ∃ w,
    Run (Step Sample.env) (publish 99 0 0) (Sample.launch ++ Sample.deposits ++ Sample.withdrawal ++
      Sample.signing ++ Sample.confirmation) w ∧
    1018 ∈ w.hashi.bitcoin.withdrawalQueue.withdrawalTxns ∧
    w.hashi.archiveConfirmedWithdrawals [1018] = .ok (w.hashi.withQueue
      ([Sample.call 1022 (.bridge (.archiveWithdrawalRequests 1018 [1016, 7])),
        Sample.call 1021 (.bridge (.archiveConfirmedWithdrawals [1018])),
        Sample.call 1023 (.bridge (.finishArchiveWithdrawalTxns [1018, 1018]))].foldl
          (attempt Sample.env) w).hashi.bitcoin.withdrawalQueue) := by
  obtain ⟨w, hrun, htest⟩ := run_of_reaches Sample.env (publish 99 0 0)
    (Sample.launch ++ Sample.deposits ++ Sample.withdrawal ++ Sample.signing ++ Sample.confirmation)
    (fun w => decide (w.hashi.versioning.assertVersionEnabled = .ok () ∧
      1018 ∈ w.hashi.bitcoin.withdrawalQueue.withdrawalTxns ∧
      1018 ∉ ([Sample.call 1022 (.bridge (.archiveWithdrawalRequests 1018 [1016, 7])),
        Sample.call 1021 (.bridge (.archiveConfirmedWithdrawals [1018])),
        Sample.call 1023 (.bridge (.finishArchiveWithdrawalTxns [1018, 1018]))].foldl
          (attempt Sample.env) w).hashi.bitcoin.withdrawalQueue.withdrawalTxns)) (by decide +kernel)
  obtain ⟨hversion, hlive, hdone⟩ := of_decide_eq_true htest
  refine ⟨w, hrun, hlive, ((withdrawal_lifecycle hrun).2 hversion).converges ?_ (by simpa using hdone)⟩
  simp [Label.ArchivesOnly, Sample.call]

end HashiBridge.Chain
