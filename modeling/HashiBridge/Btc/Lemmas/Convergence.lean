import HashiBridge.Btc.Lemmas.Archival
import HashiBridge.Btc.Lemmas.LedgerHistory

/-!
# Archival converges

Archival moves an object from one bag to another and never changes what it is. Where it has ended,
the bag each object lies in is determined, so the order and the chunking of the calls do not matter.
-/

namespace HashiBridge.Btc

open Lib HashiBridge.Core

variable {l l' : Ledger} {op : Op} {ops : List Op} {ws : List Address}

/-! ## What archival keeps -/

/-- Archival of `ws` keeps every object, and leaves the objects of other transactions where they
are. -/
structure WithdrawalRequestQueue.Archived (ws : List Address) (q q' : WithdrawalRequestQueue) :
    Prop where
  requestAt_eq : ∀ id, q'.requestAt id = q.requestAt id
  txnAt_eq : ∀ w, q'.txnAt w = q.txnAt w
  absent : ∀ w, q.withdrawalTxns.lookup w = none → q'.withdrawalTxns.lookup w = none
  txns_rest : ∀ w, w ∉ ws → q'.withdrawalTxns.lookup w = q.withdrawalTxns.lookup w ∧
    q'.confirmedTxns.lookup w = q.confirmedTxns.lookup w
  requests_rest : ∀ id, (∀ r w, q.requestAt id = some r → r.withdrawalTxnId = some w → w ∉ ws) →
    q'.requests.lookup id = q.requests.lookup id ∧ q'.processed.lookup id = q.processed.lookup id

namespace WithdrawalRequestQueue.Archived

variable {q q' q'' : WithdrawalRequestQueue}

theorem refl (q : WithdrawalRequestQueue) : Archived ws q q :=
  ⟨fun _ => rfl, fun _ => rfl, fun _ h => h, fun _ _ => ⟨rfl, rfl⟩, fun _ _ => ⟨rfl, rfl⟩⟩

theorem trans (h : Archived ws q q') (h' : Archived ws q' q'') : Archived ws q q'' where
  requestAt_eq id := (h'.requestAt_eq id).trans (h.requestAt_eq id)
  txnAt_eq w := (h'.txnAt_eq w).trans (h.txnAt_eq w)
  absent w hw := h'.absent w (h.absent w hw)
  txns_rest w hw :=
    ⟨(h'.txns_rest w hw).1.trans (h.txns_rest w hw).1,
      (h'.txns_rest w hw).2.trans (h.txns_rest w hw).2⟩
  requests_rest id hid := by
    have hid' : ∀ r w, q'.requestAt id = some r → r.withdrawalTxnId = some w → w ∉ ws := by
      intro r w hr
      exact hid r w (h.requestAt_eq id ▸ hr)
    exact ⟨(h'.requests_rest id hid').1.trans (h.requests_rest id hid).1,
      (h'.requests_rest id hid').2.trans (h.requests_rest id hid).2⟩

end WithdrawalRequestQueue.Archived

namespace Ledger

open WithdrawalRequestQueue (Archived)

theorem Step.archived (hstep : Step l op l') (hop : op.Archives ws) :
    Archived ws l.queue l'.queue := by
  obtain ⟨w, hw, hop⟩ := hop
  cases hstep with
  | @archiveRequest w₀ t id r ht hconf hr hlink =>
      obtain rfl : w₀ = w := by simpa using hop
      refine ⟨fun id' => ?_, fun _ => rfl, fun _ h => h, fun _ _ => ⟨rfl, rfl⟩, fun id' hid' => ?_⟩
      · simp only [WithdrawalRequestQueue.requestAt, Bag.lookup_erase_ite, Bag.lookup_insert_ite]
        split_ifs with hid
        · rw [hid, hr, Option.none_or, Option.some_or]
        · rfl
      · have hne : id' ≠ id := by
          rintro rfl
          exact hid' r w₀ (by rw [WithdrawalRequestQueue.requestAt, hr, Option.some_or]) hlink hw
        simp [hne]
  | @archiveTxn w₀ t ht hconf hall =>
      obtain rfl : w₀ = w := by simpa using hop
      refine ⟨fun _ => rfl, txnAt_archive ht, fun w' hw' => ?_, fun w' hw' => ?_, fun _ _ => ⟨rfl, rfl⟩⟩
      · rw [Bag.lookup_erase_ite]
        split_ifs
        exacts [rfl, hw']
      · have hne : w' ≠ w₀ := by
          rintro rfl
          exact hw' hw
        simp [hne]
  | _ => simp at hop

theorem archived_run (hrun : Run Step l ops l') (hops : ∀ op ∈ ops, op.Archives ws) :
    Archived ws l.queue l'.queue := by
  induction hrun with
  | nil => exact .refl _
  | snoc _ hstep ih =>
      exact (ih fun op hop => hops op (List.mem_append_left _ hop)).trans
        (hstep.archived (hops _ (by simp)))

theorem requests_absent_run {id : Address} (hrun : Run Step l ops l')
    (hops : ∀ op ∈ ops, op.Archives ws) (habsent : l.queue.requests.lookup id = none) :
    l'.queue.requests.lookup id = none := by
  induction hrun with
  | nil => exact habsent
  | snoc _ hstep ih =>
      have hprev := ih fun op hop => hops op (List.mem_append_left _ hop)
      obtain ⟨w, -, hop⟩ := hops _ (List.mem_append_right _ (List.mem_singleton_self _))
      cases hstep with
      | archiveRequest ht hconf hr hlink =>
          rw [Bag.lookup_erase_ite]
          split_ifs
          exacts [rfl, hprev]
      | archiveTxn ht hconf hall => exact hprev
      | _ => simp at hop

/-! ## Where archival has ended -/

theorem confirmedTxns_of_absent {q : WithdrawalRequestQueue} {w : Address}
    (h : q.withdrawalTxns.lookup w = none) : q.confirmedTxns.lookup w = q.txnAt w := by
  rw [WithdrawalRequestQueue.txnAt, h, Option.none_or]

theorem Inv.request_of_absent (h : l.Inv) {w id : Address} {r : WithdrawalRequest}
    (habsent : l.queue.withdrawalTxns.lookup w = none) (hr : l.queue.requestAt id = some r)
    (hlink : r.withdrawalTxnId = some w) :
    l.queue.requests.lookup id = none ∧ l.queue.processed.lookup id = some r := by
  obtain ⟨b, hb, hid⟩ := h.queue.link hr hlink
  have hlive : l.queue.liveBody w = none := by
    rw [WithdrawalRequestQueue.liveBody, habsent, Option.map_none]
  rw [hlive, Option.none_or] at hb
  obtain ⟨r', hr'⟩ := (h.queue.archived hb).2 id hid
  have hnone : l.queue.requests.lookup id = none := by
    cases hreq : l.queue.requests.lookup id with
    | none => rfl
    | some r₀ =>
        rw [h.queue.requests_disjoint hreq] at hr'
        cases hr'
  refine ⟨hnone, ?_⟩
  rwa [WithdrawalRequestQueue.requestAt, hnone, Option.none_or] at hr

theorem archived_unique {l₁ l₂ : Ledger} (h₁ : l₁.Inv) (h₂ : l₂.Inv)
    (harch₁ : Archived ws l.queue l₁.queue) (harch₂ : Archived ws l.queue l₂.queue)
    (hdone₁ : ∀ w ∈ ws, l₁.queue.withdrawalTxns.lookup w = none)
    (hdone₂ : ∀ w ∈ ws, l₂.queue.withdrawalTxns.lookup w = none) : l₁.queue = l₂.queue := by
  have htxns : ∀ w, l₁.queue.withdrawalTxns.lookup w = l₂.queue.withdrawalTxns.lookup w ∧
      l₁.queue.confirmedTxns.lookup w = l₂.queue.confirmedTxns.lookup w := by
    intro w
    by_cases hw : w ∈ ws
    · rw [confirmedTxns_of_absent (hdone₁ w hw), confirmedTxns_of_absent (hdone₂ w hw),
        hdone₁ w hw, hdone₂ w hw, harch₁.txnAt_eq, harch₂.txnAt_eq]
      exact ⟨rfl, rfl⟩
    · rw [(harch₁.txns_rest w hw).1, (harch₁.txns_rest w hw).2, (harch₂.txns_rest w hw).1,
        (harch₂.txns_rest w hw).2]
      exact ⟨rfl, rfl⟩
  have hrequests : ∀ id, l₁.queue.requests.lookup id = l₂.queue.requests.lookup id ∧
      l₁.queue.processed.lookup id = l₂.queue.processed.lookup id := by
    intro id
    by_cases hid : ∀ r w, l.queue.requestAt id = some r → r.withdrawalTxnId = some w → w ∉ ws
    · rw [(harch₁.requests_rest id hid).1, (harch₁.requests_rest id hid).2,
        (harch₂.requests_rest id hid).1, (harch₂.requests_rest id hid).2]
      exact ⟨rfl, rfl⟩
    · push Not at hid
      obtain ⟨r, w, hr, hlink, hw⟩ := hid
      obtain ⟨hreq₁, hproc₁⟩ := h₁.request_of_absent (hdone₁ w hw)
        ((harch₁.requestAt_eq id).trans hr) hlink
      obtain ⟨hreq₂, hproc₂⟩ := h₂.request_of_absent (hdone₂ w hw)
        ((harch₂.requestAt_eq id).trans hr) hlink
      rw [hreq₁, hreq₂, hproc₁, hproc₂]
      exact ⟨rfl, rfl⟩
  ext1
  · exact Finmap.ext_lookup fun id => (hrequests id).1
  · exact Finmap.ext_lookup fun id => (hrequests id).2
  · exact Finmap.ext_lookup fun w => (htxns w).1
  · exact Finmap.ext_lookup fun w => (htxns w).2

end Ledger

/-! ## Archival does not abort -/

namespace WithdrawalRequestQueue

variable {q q' : WithdrawalRequestQueue} {w : Address} {t : WithdrawalTransaction}
  {ids : List Address}

section Succeeds

variable (hinv : Ledger.Inv { l with queue := q })

include hinv

theorem archiveRequest_succeeds {id : Address}
    (hlink : ∀ r, q.requests.lookup id = some r → r.withdrawalTxnId = some w) :
    ∃ q', archiveRequest w q id = .ok q' := by
  unfold archiveRequest
  split
  · exact ⟨q, rfl⟩
  · next r hr =>
    have hfresh : id ∉ q.processed := by
      rw [← Finmap.lookup_eq_none]
      exact hinv.queue.requests_disjoint hr
    simp only [bind_eq_ok, pure_eq_ok, require_eq_ok, Bag.add_eq_ok]
    exact ⟨_, (), hlink r hr, _, ⟨hfresh, rfl⟩, rfl⟩

theorem archiveRequest_loop_succeeds
    (ht : q.withdrawalTxns.lookup w = some t) (hconf : t.isConfirmed)
    (hlink : ∀ id ∈ ids, ∀ r, q.requests.lookup id = some r → r.withdrawalTxnId = some w) :
    ∃ q', ids.foldlM (archiveRequest w) q = .ok q' := by
  obtain ⟨q', hq', -⟩ := foldlM_succeeds (f := archiveRequest w)
    (fun q => Ledger.Inv { l with queue := q } ∧ q.withdrawalTxns.lookup w = some t ∧
      ∀ id ∈ ids, ∀ r, q.requests.lookup id = some r → r.withdrawalTxnId = some w)
    ⟨hinv, ht, hlink⟩ (fun s id hid hs => by
      obtain ⟨hinv, ht, hlink⟩ := hs
      obtain ⟨s', hs'⟩ := archiveRequest_succeeds hinv (hlink id hid)
      refine ⟨s', hs', ?_⟩
      rcases archiveRequest_eq_ok hs' with ⟨-, rfl⟩ | ⟨r, hr, hrlink, rfl⟩
      · exact ⟨hinv, ht, hlink⟩
      · refine ⟨hinv.step (.archiveRequest ht hconf hr hrlink), ht, fun id' hid' r' hr' => ?_⟩
        exact hlink id' hid' r' (Bag.lookup_of_erase hr'))
  exact ⟨q', hq'⟩

theorem archiveTxn_succeeds (ht : q.withdrawalTxns.lookup w = some t) :
    ∃ q', q.archiveTxn w = .ok q' ∧ q'.withdrawalTxns.lookup w = none := by
  have hfresh : w ∉ q.confirmedTxns := by
    have hdone := hinv.queue.txns_disjoint (liveBody_of_lookup ht)
    rw [← Finmap.lookup_eq_none]
    simpa [doneBody] using hdone
  simp only [archiveTxn, bind_eq_ok, pure_eq_ok, Bag.remove_eq_ok, Bag.add_eq_ok]
  refine ⟨_, ⟨(t, q.withdrawalTxns.erase w), ⟨ht, rfl⟩, _, ⟨hfresh, rfl⟩, rfl⟩, ?_⟩
  rw [Bag.lookup_erase_ite, if_pos rfl]

def Settled (q : WithdrawalRequestQueue) (w : Address) : Prop :=
  ∀ t, q.withdrawalTxns.lookup w = some t → t.isConfirmed

theorem Settled.archived (h : q.Settled w) (harch : Archived ws q q') : q'.Settled w := by
  intro t ht
  have htxn : q.txnAt w = some t := by
    rw [← harch.txnAt_eq, txnAt, ht, Option.some_or]
  rw [txnAt, Option.or_eq_some_iff] at htxn
  rcases htxn with hlive | ⟨-, hdone⟩
  · exact h t hlive
  · have hbody : q.doneBody w = some t.body := by rw [doneBody, hdone, Option.map_some]
    exact (hinv.queue.archived hbody).1

theorem archiveWithdrawalTxn_succeeds (h : q.Settled w) :
    ∃ q', q.archiveWithdrawalTxn w = .ok q' := by
  unfold archiveWithdrawalTxn
  split
  · exact ⟨q, rfl⟩
  · next t ht =>
    have hlink : ∀ id ∈ t.requestIds, ∀ r, q.requests.lookup id = some r →
        r.withdrawalTxnId = some w := by
      intro id hid r hr
      obtain ⟨r', hr', hlink⟩ := hinv.queue.backlink (b := t.body)
        (by rw [liveBody_of_lookup ht, Option.some_or]) hid
      rw [hr, Option.some_or, Option.some.injEq] at hr'
      rwa [hr']
    obtain ⟨m, hloop⟩ := archiveRequest_loop_succeeds hinv ht (h t ht) hlink
    obtain ⟨hsame, ops, hrun, -⟩ := archiveRequest_loop (l := l) ht (h t ht) hloop
    obtain ⟨q', hq', -⟩ := archiveTxn_succeeds (hinv.run hrun) (by rw [hsame, ht])
    exact ⟨q', bind_eq_ok.mpr ⟨(), require_pos (h t ht), bind_eq_ok.mpr ⟨m, hloop, hq'⟩⟩⟩

theorem archiveWithdrawalRequests_succeeds (h : q.Settled w)
    (hlink : ∀ id ∈ ids, ∀ r, q.requests.lookup id = some r → r.withdrawalTxnId = some w) :
    ∃ q', q.archiveWithdrawalRequests w ids = .ok q' := by
  unfold archiveWithdrawalRequests
  split
  · exact ⟨q, rfl⟩
  · next t ht =>
    obtain ⟨m, hloop⟩ := archiveRequest_loop_succeeds hinv ht (h t ht) hlink
    exact ⟨m, bind_eq_ok.mpr ⟨(), require_pos (h t ht), hloop⟩⟩

theorem finishArchiveWithdrawalTxn_succeeds
    (h : q.Settled w) : ∃ q', q.finishArchiveWithdrawalTxn w = .ok q' := by
  unfold finishArchiveWithdrawalTxn
  split
  · exact ⟨q, rfl⟩
  · next t ht =>
    simp only [bind_eq_ok, require_eq_ok]
    split_ifs with hall
    · obtain ⟨q', hq', -⟩ := archiveTxn_succeeds hinv ht
      exact ⟨q', (), h t ht, hq'⟩
    · exact ⟨q, (), h t ht, rfl⟩

/-! ## Loops over transactions do not abort -/

theorem archival_loop_succeeds
    {f : WithdrawalRequestQueue → Address → Except Abort WithdrawalRequestQueue}
    (hf : ∀ q w q', Ledger.Inv { l with queue := q } → f q w = .ok q' → l.Archival [w] q q')
    (hok : ∀ q w, Ledger.Inv { l with queue := q } → q.Settled w → ∃ q', f q w = .ok q')
    (h : ∀ w ∈ ws, q.Settled w) :
    ∃ q', ws.foldlM f q = .ok q' := by
  obtain ⟨q', hq', -⟩ := foldlM_succeeds (f := f)
    (fun q => Ledger.Inv { l with queue := q } ∧ ∀ w ∈ ws, q.Settled w) ⟨hinv, h⟩
    (fun s w hw hs => by
      obtain ⟨hinv, h⟩ := hs
      obtain ⟨s', hs'⟩ := hok s w hinv (h w hw)
      obtain ⟨ops, hrun, hops⟩ := hf s w s' hinv hs'
      have harch := Ledger.archived_run hrun hops
      exact ⟨s', hs', hinv.run hrun, fun x hx => (h x hx).archived hinv harch⟩)
  exact ⟨q', hq'⟩

end Succeeds

theorem archiveWithdrawalTxn_absent
    (h : q.archiveWithdrawalTxn w = .ok q') : q'.withdrawalTxns.lookup w = none := by
  unfold archiveWithdrawalTxn at h
  split at h
  · next hnone =>
    cases h
    exact hnone
  · simp only [bind_eq_ok, require_eq_ok] at h
    obtain ⟨_, -, m, -, h⟩ := h
    obtain ⟨t, -, rfl⟩ := archiveTxn_eq_ok h
    rw [Bag.lookup_erase_ite, if_pos rfl]

theorem archiveWithdrawalTxn_keeps_absent {x : Address}
    (h : q.archiveWithdrawalTxn w = .ok q') (hx : q.withdrawalTxns.lookup x = none) :
    q'.withdrawalTxns.lookup x = none := by
  unfold archiveWithdrawalTxn at h
  split at h
  · cases h
    exact hx
  · next t ht =>
    simp only [bind_eq_ok, require_eq_ok] at h
    obtain ⟨_, hconf, m, hloop, h⟩ := h
    obtain ⟨hsame, -⟩ := archiveRequest_loop (l := ⟨.create, q, 0, 0, 0, 0, 0⟩) ht hconf hloop
    obtain ⟨t, -, rfl⟩ := archiveTxn_eq_ok h
    rw [Bag.lookup_erase_ite, hsame, hx, ite_self]

theorem archiveWithdrawalTxn_loop_absent
    (h : ws.foldlM archiveWithdrawalTxn q = .ok q') :
    ∀ w ∈ ws, q'.withdrawalTxns.lookup w = none :=
  foldlM_each (fun w q => q.withdrawalTxns.lookup w = none)
    (fun _ _ _ hw => archiveWithdrawalTxn_absent hw)
    (fun _ _ _ _ hw hx => archiveWithdrawalTxn_keeps_absent hw hx) h

/-- The transaction is out of flight, or one of its requests is not archived yet. -/
def Finished (w : Address) (q : WithdrawalRequestQueue) : Prop :=
  ∀ t, q.withdrawalTxns.lookup w = some t → ∃ id ∈ t.requestIds, id ∉ q.processed

/-- What finishing leaves: the transaction archived where its requests are, and nothing else. -/
theorem finishArchiveWithdrawalTxn_eq_ok
    (h : q.finishArchiveWithdrawalTxn w = .ok q') :
    (q' = q ∧ q.Finished w) ∨ ∃ t, q.withdrawalTxns.lookup w = some t ∧ q' = { q with
      withdrawalTxns := q.withdrawalTxns.erase w
      confirmedTxns := q.confirmedTxns.insert w t } := by
  unfold finishArchiveWithdrawalTxn at h
  split at h
  · next hnone =>
    cases h
    exact .inl ⟨rfl, fun t ht => by rw [hnone] at ht; cases ht⟩
  · next t ht =>
    simp only [bind_eq_ok, require_eq_ok] at h
    obtain ⟨_, -, h⟩ := h
    split_ifs at h with hall
    · exact .inr (archiveTxn_eq_ok h)
    · cases h
      push Not at hall
      refine .inl ⟨rfl, fun t' ht' => ?_⟩
      rw [ht, Option.some.injEq] at ht'
      rwa [← ht']

theorem finishArchiveWithdrawalTxn_loop
    (h : ws.foldlM finishArchiveWithdrawalTxn q = .ok q') : ∀ w ∈ ws, q'.Finished w := by
  refine foldlM_each Finished (fun s w s' hw => ?_) (fun s w s' x hw hx => ?_) h
  · rcases finishArchiveWithdrawalTxn_eq_ok hw with ⟨rfl, hfin⟩ | ⟨t, -, rfl⟩
    · exact hfin
    · intro t' ht'
      rw [Bag.lookup_erase_ite, if_pos rfl] at ht'
      cases ht'
  · rcases finishArchiveWithdrawalTxn_eq_ok hw with ⟨rfl, -⟩ | ⟨t, -, rfl⟩
    · exact hx
    · exact fun t' ht' => hx t' (Bag.lookup_of_erase ht')

end WithdrawalRequestQueue

end HashiBridge.Btc
