import HashiBridge.Chain.Lemmas.DepositSteps
import HashiBridge.Core.Lemmas.Certificates

/-!
# Deposits over time

A mint goes back to an approval of the same request in the same epoch.
-/

namespace HashiBridge.Chain

open Lib HashiBridge.Core Btc

variable {env : Env} {activated : List Nat} {start w w' : World} {label : Label} {tr : List Label}
  {id : Address} {cert : CommitteeSignature}

/-! ## Requests -/

structure DepositInv (w : World) : Prop where
  keyed : ∀ {id r}, w.deposits.requests.lookup id = some r → r.id = id
  ids : ∀ {id}, id ∈ w.deposits.requests ∨ id ∈ w.deposits.processed → id ∈ w.ids
  disjoint : ∀ id, ¬ (id ∈ w.deposits.requests ∧ id ∈ w.deposits.processed)

namespace DepositInv

theorem init (id epoch clock : Nat) : DepositInv (publish id epoch clock) := by
  constructor
  · intro id r hr
    cases hr
  · rintro id (h | h) <;> exact absurd h Finmap.notMem_empty
  · rintro id ⟨h, -⟩
    exact absurd h Finmap.notMem_empty

theorem step (h : DepositInv w) (href : Refines env w label w') (hstep : Step env w label w') :
    DepositInv w' := by
  have hmono : ∀ {id}, id ∈ w.ids → id ∈ w'.ids := fun hid => by
    rw [href.ids_eq]
    exact Finset.mem_union_left _ hid
  have heffect := hstep.depositEffect
  generalize hqueue : w'.deposits = queue at heffect
  cases heffect with
  | kept =>
      refine ⟨?_, ?_, ?_⟩ <;> rw [hqueue]
      exacts [h.keyed, fun hid => hmono (h.ids hid), h.disjoint]
  | @request sender fresh digest utxo =>
      have hnew : fresh ∉ w.ids := href.fresh_new fresh rfl
      have hfresh : fresh ∈ w'.ids := by
        rw [href.ids_eq]
        exact Finset.mem_union_right _ (by simp [Label.fresh])
      refine ⟨?_, ?_, ?_⟩ <;> rw [hqueue]
      · intro id r hr
        rcases Bag.lookup_of_insert hr with ⟨hid, rfl⟩ | hr
        exacts [hid.symm, h.keyed hr]
      · rintro id (hid | hid)
        · rcases Finmap.mem_insert.mp hid with rfl | hid
          exacts [hfresh, hmono (h.ids (.inl hid))]
        · exact hmono (h.ids (.inr hid))
      · rintro id ⟨hid, hdone⟩
        rcases Finmap.mem_insert.mp hid with rfl | hid
        exacts [hnew (h.ids (.inr hdone)), h.disjoint id ⟨hid, hdone⟩]
  | @approve sender fresh id₀ digest cert r certified found idle verified =>
      have hmem : ∀ {id}, id ∈ w'.deposits.requests → id ∈ w.deposits.requests := by
        intro id hid
        rw [hqueue] at hid
        rcases Finmap.mem_insert.mp hid with rfl | hid
        exacts [Bag.mem_of_lookup found, hid]
      have hdone : w'.deposits.processed = w.deposits.processed := by rw [hqueue]
      refine ⟨?_, ?_, ?_⟩
      · intro id r' hr'
        rw [hqueue, Bag.lookup_insert_ite] at hr'
        split_ifs at hr' with hid
        · cases hr'
          rw [hid]
          exact (h.keyed found : r.id = id₀)
        · exact h.keyed hr'
      · rw [hdone]
        exact fun hid => hmono (h.ids (hid.imp_left hmem))
      · rw [hdone]
        exact fun id hid => h.disjoint id ⟨hmem hid.1, hid.2⟩
  | @confirm sender fresh id₀ digest cert r certified approvedAt delay found =>
      have hid₀ : id₀ ∈ w.deposits.requests := Bag.mem_of_lookup found
      have hkey := h.keyed found
      refine ⟨?_, ?_, ?_⟩ <;> rw [hqueue]
      · exact fun hr' => h.keyed (Bag.lookup_of_erase hr')
      · rintro id (hid | hid)
        · exact hmono (h.ids (.inl (Finmap.mem_erase.mp hid).2))
        · rcases Finmap.mem_insert.mp hid with rfl | hid
          · rw [hkey]
            exact hmono (h.ids (.inl hid₀))
          · exact hmono (h.ids (.inr hid))
      · rintro id ⟨hid, hdone⟩
        obtain ⟨hne, hid⟩ := Finmap.mem_erase.mp hid
        rcases Finmap.mem_insert.mp hdone with rfl | hdone
        exacts [hne hkey, h.disjoint id ⟨hid, hdone⟩]
  | @delete sender fresh id₀ digest r found =>
      refine ⟨?_, ?_, ?_⟩ <;> rw [hqueue]
      · exact fun hr' => h.keyed (Bag.lookup_of_erase hr')
      · rintro id (hid | hid)
        exacts [hmono (h.ids (.inl (Finmap.mem_erase.mp hid).2)), hmono (h.ids (.inr hid))]
      · rintro id ⟨hid, hdone⟩
        exact h.disjoint id ⟨(Finmap.mem_erase.mp hid).2, hdone⟩

theorem run (h : DepositInv w) (hinv : w.Inv env activated) (hrun : Run (Step env) w tr w') :
    DepositInv w' := by
  induction hrun with
  | nil => exact h
  | snoc hrun hstep ih => exact ih.step (hstep.refines (hinv.run hrun)) hstep

end DepositInv

theorem Step.absent_stays (href : Refines env w label w') (hstep : Step env w label w')
    (hid : id ∈ w.ids) (habsent : id ∉ w.deposits.requests) : id ∉ w'.deposits.requests := by
  have heffect := hstep.depositEffect
  generalize hqueue : w'.deposits = queue at heffect
  cases heffect with
  | kept => exact habsent
  | request =>
      rw [Finmap.mem_insert, not_or]
      refine ⟨?_, habsent⟩
      rintro rfl
      exact href.fresh_new id rfl hid
  | approve found =>
      rw [Finmap.mem_insert, not_or]
      refine ⟨?_, habsent⟩
      rintro rfl
      exact habsent (Bag.mem_of_lookup found)
  | confirm => exact fun h => habsent (Finmap.mem_erase.mp h).2
  | delete => exact fun h => habsent (Finmap.mem_erase.mp h).2

theorem absent_run (hinv : w.Inv env activated) (hrun : Run (Step env) w tr w') (hid : id ∈ w.ids)
    (habsent : id ∉ w.deposits.requests) : id ∉ w'.deposits.requests := by
  have h : id ∈ w'.ids ∧ id ∉ w'.deposits.requests := by
    induction hrun with
    | nil => exact ⟨hid, habsent⟩
    | snoc hrun hstep ih =>
        have href := hstep.refines (hinv.run hrun)
        refine ⟨?_, Step.absent_stays href hstep ih.1 ih.2⟩
        rw [href.ids_eq]
        exact Finset.mem_union_left _ ih.1
  exact h.2

theorem Step.not_of_absent (hstep : Step env w label w') (habsent : id ∉ w.deposits.requests) :
    label.confirms ≠ some id ∧ ∀ cert, label.approves ≠ some (id, cert) := by
  obtain ⟨queue, heffect⟩ : ∃ queue, DepositEffect env w label queue := ⟨_, hstep.depositEffect⟩
  cases heffect with
  | kept approves confirms expires =>
      rw [approves, confirms]
      exact ⟨by simp, by simp⟩
  | request => exact ⟨by simp [Label.confirms], by simp [Label.approves]⟩
  | approve found =>
      refine ⟨by simp [Label.confirms], ?_⟩
      rintro cert ⟨⟩
      exact habsent (Bag.mem_of_lookup found)
  | confirm found =>
      refine ⟨?_, by simp [Label.approves]⟩
      rintro ⟨⟩
      exact habsent (Bag.mem_of_lookup found)
  | delete => exact ⟨by simp [Label.confirms], by simp [Label.approves]⟩

theorem Step.leaves (hstep : Step env w label w')
    (hlabel : label.confirms = some id ∨ label.expires = some id) :
    id ∈ w.deposits.requests ∧ id ∉ w'.deposits.requests := by
  have heffect := hstep.depositEffect
  generalize hqueue : w'.deposits = queue at heffect
  cases heffect with
  | kept approves confirms expires =>
      rw [confirms, expires] at hlabel
      rcases hlabel with h | h <;> cases h
  | request | approve => rcases hlabel with h | h <;> cases h
  | confirm found | delete found =>
      rcases hlabel with ⟨⟨⟩⟩ | ⟨⟨⟩⟩
      exact ⟨Bag.mem_of_lookup found, fun h => (Finmap.mem_erase.mp h).1 rfl⟩

/-! ## Approvals -/

/-- The history holds an approval of the request for `utxo` at time `approvedAt`. -/
structure ApprovedIn (env : Env) (start : World) (tr : List Label) (w : World) (id : Address)
    (utxo : Utxo) (cert : CommitteeSignature) (approvedAt : Nat) (post : List Label) : Prop where
  approval : ∃ pre label before after certified r, tr = pre ++ label :: post ∧
    label.approves = some (id, cert) ∧ Run (Step env) start pre before ∧
    Step env before label after ∧ Run (Step env) after post w ∧
    before.clock = approvedAt ∧ before.deposits.requests.lookup id = some r ∧ r.utxo = utxo ∧
    before.hashi.assertNotReconfiguring = .ok () ∧
    before.hashi.verify env (.depositConfirmation id utxo) cert = .ok certified

theorem ApprovedIn.snoc {utxo : Utxo} {approvedAt : Nat} {post : List Label}
    (h : ApprovedIn env start tr w id utxo cert approvedAt post) (hstep : Step env w label w') :
    ApprovedIn env start (tr ++ [label]) w' id utxo cert approvedAt (post ++ [label]) := by
  obtain ⟨pre, approve, before, after, certified, r, rfl, happroves, hpre, happrove, hpost, hrest⟩ :=
    h.approval
  exact ⟨pre, approve, before, after, certified, r, by simp, happroves, hpre, happrove,
    .snoc hpost hstep, hrest⟩

/-- Every stored certificate was recorded by an approval of the history. -/
def ApprovalsRecorded (env : Env) (start : World) (tr : List Label) (w : World) : Prop :=
  ∀ id r cert, w.deposits.requests.lookup id = some r → r.approvalCert = some cert →
    ∃ approvedAt post, r.approvedTimestampMs = some approvedAt ∧
      ApprovedIn env start tr w id r.utxo cert approvedAt post

theorem ApprovalsRecorded.step (h : ApprovalsRecorded env start tr w)
    (hrun : Run (Step env) start tr w) (hstep : Step env w label w') :
    ApprovalsRecorded env start (tr ++ [label]) w' := by
  -- a request that the step did not write keeps its approval
  have hold : ∀ {id r cert}, w.deposits.requests.lookup id = some r → r.approvalCert = some cert →
      ∃ approvedAt post, r.approvedTimestampMs = some approvedAt ∧
        ApprovedIn env start (tr ++ [label]) w' id r.utxo cert approvedAt post := by
    intro id r cert hr hcert
    obtain ⟨approvedAt, post, happroved, happroval⟩ := h id r cert hr hcert
    exact ⟨approvedAt, _, happroved, happroval.snoc hstep⟩
  intro id r cert hr hcert
  have heffect := hstep.depositEffect
  generalize hqueue : w'.deposits = queue at heffect hr
  cases heffect with
  | kept => exact hold hr hcert
  | request =>
      rcases Bag.lookup_of_insert hr with ⟨-, rfl⟩ | hr
      · cases hcert
      · exact hold hr hcert
  | @approve sender fresh id₀ digest cert₀ r₀ certified found idle verified =>
      rcases Bag.lookup_of_insert hr with ⟨rfl, rfl⟩ | hr
      · cases hcert
        exact ⟨w.clock, [], rfl, tr, _, w, w', certified, r₀, rfl, rfl, hrun, hstep, .nil, rfl,
          found, rfl, idle, verified⟩
      · exact hold hr hcert
  | confirm | delete => exact hold (Bag.lookup_of_erase hr) hcert

theorem approvalsRecorded {id₀ epoch clock : Nat}
    (hrun : Run (Step env) (publish id₀ epoch clock) tr w) :
    ApprovalsRecorded env (publish id₀ epoch clock) tr w := by
  induction hrun with
  | nil =>
      intro id r cert hr
      cases hr
  | snoc hrun hstep ih => exact ih.step hrun hstep

/-! ## Epochs between an approval and a mint -/

theorem verify_epoch (hinv : w.Inv env activated) {message : Message}
    {certified : CertifiedMessage Message} (h : w.hashi.verify env message cert = .ok certified) :
    cert.epoch = w.epochs.epoch := by
  simp only [Hashi.verify, Hashi.verifyWithCommittee, Hashi.currentCommittee,
    CommitteeSet.currentCommittee, CommitteeSet.getCommittee, bind_eq_ok, Bag.borrow_eq_ok,
    Committee.verifyCertificate_eq_ok] at h
  obtain ⟨committee, hcommittee, _, -, hepoch, -⟩ := h
  rw [hepoch]
  exact hinv.epochs.committee_epoch hcommittee

theorem launched_of_idle (hinv : w.Inv env activated)
    (hidle : w.hashi.assertNotReconfiguring = .ok ()) : w.epochs.mpcPublicKey ≠ [] := by
  simp only [Hashi.assertNotReconfiguring, bind_eq_ok, require_eq_ok] at hidle
  obtain ⟨_, hpending, hseated⟩ := hidle
  intro hkey
  have hnone : w.hashi.committeeSet.pendingEpochChange = none := by
    simpa [CommitteeSet.isReconfiguring] using hpending
  have hsome := hinv.epochs.unlaunched_committees hkey hseated
  rw [EpochState.pendingEpoch, show w.epochs.pending = none from hnone] at hsome
  cases hsome

theorem not_activates_of_same_epoch {between : List Nat}
    (hinv : w.Inv env activated) (hinv' : w'.Inv env (activated ++ between))
    (hkey : w.epochs.mpcPublicKey ≠ []) (hkey' : w'.epochs.mpcPublicKey ≠ [])
    (hepoch : w.epochs.epoch = w'.epochs.epoch) : between = [] := by
  by_contra hne
  have hlast := hinv'.epochs.last hkey'
  rw [List.getLast?_append_of_ne_nil _ hne] at hlast
  have hbefore := List.mem_of_getLast? (hinv.epochs.last hkey)
  have hlt := (List.pairwise_append.mp hinv'.epochs.ascending).2.2 _ hbefore _
    (List.mem_of_getLast? hlast)
  omega

theorem ApprovedIn.not_activates {id₀ epoch clock : Nat} {utxo : Utxo} {approvedAt : Nat}
    {post : List Label} {message : Message} {certified : CertifiedMessage Message}
    (h : ApprovedIn env (publish id₀ epoch clock) tr w id utxo cert approvedAt post)
    (hidle : w.hashi.assertNotReconfiguring = .ok ())
    (hverified : w.hashi.verify env message cert = .ok certified) :
    ∀ label ∈ post, label.activates = none := by
  obtain ⟨pre, approve, before, after, _, _, rfl, happroves, hpre, happrove, hpost, -, -, -, hidle',
    hverified'⟩ := h.approval
  have hinv := World.Inv.reachable hpre
  have hafter := (hinv.step happrove).run hpost
  have hquiet : approve.activates = none := by
    unfold Label.approves at happroves
    split at happroves <;> cases happroves
    rfl
  rw [hquiet, Option.toList_none, List.append_nil] at hafter
  have hepoch : before.epochs.epoch = w.epochs.epoch :=
    (verify_epoch hinv hverified').symm.trans (verify_epoch hafter hverified)
  have hnone := not_activates_of_same_epoch hinv hafter (launched_of_idle hinv hidle')
    (launched_of_idle hafter hidle) hepoch
  intro label hlabel
  exact List.filterMap_eq_nil_iff.mp hnone label hlabel

/-! ## Outpoints -/

theorem Step.confirm_unused (hstep : Step env w label w') (hlabel : label.confirms = some id) {r : DepositRequest}
    (hr : w.deposits.requests.lookup id = some r) :
    ¬ w.hashi.bitcoin.utxoPool.isSpentOrActive r.utxo.id := by
  obtain ⟨queue, heffect⟩ : ∃ queue, DepositEffect env w label queue := ⟨_, hstep.depositEffect⟩
  cases heffect with
  | kept approves confirms =>
      rw [confirms] at hlabel
      cases hlabel
  | request | approve | delete => cases hlabel
  | confirm found unused =>
      cases hlabel
      cases found.symm.trans hr
      exact unused

theorem Step.confirm_uses (hstep : Step env w label w') (hlabel : label.confirms = some id)
    {r : DepositRequest} (hr : w.deposits.requests.lookup id = some r) :
    w'.hashi.bitcoin.utxoPool.isSpentOrActive r.utxo.id := by
  unfold Label.confirms at hlabel
  split at hlabel <;> cases hlabel
  simp only [Step, exec, Call.run, BridgeCall.run, Hashi.confirmDeposit,
    DepositRequestQueue.borrowRequest, UtxoPool.insertActive, bind_eq_ok, pure_eq_ok,
    Bag.borrow_eq_ok, UtxoPool.insertRecord_eq_ok] at hstep
  obtain ⟨_, -, _, ⟨_, ⟨_, -, _, -, _, -, r', hr', _, -, _, -, _, -, _, -, _, -, _, -, _, -, _, -,
    _, -, _, ⟨-, rfl⟩, _, -, _, hindex, rfl⟩, rfl⟩, rfl⟩ := hstep
  cases hr'.symm.trans hr
  obtain ⟨_, rfl⟩ := Hashi.indexRecipient_eq_ok hindex
  exact .inl (Finmap.mem_insert.mpr (.inl rfl))

theorem used_not_confirmed (hinv : w.Inv env activated) {outpoint : UtxoId}
    (hused : w.hashi.bitcoin.utxoPool.isSpentOrActive outpoint) (hrun : Run (Step env) w tr w')
    {w'' : World} (hstep : Step env w' label w'') (hlabel : label.confirms = some id)
    {r : DepositRequest} (hr : w'.deposits.requests.lookup id = some r) : r.utxo.id ≠ outpoint := by
  obtain ⟨ops, hops⟩ := hinv.ledger_run hrun
  rintro rfl
  exact hstep.confirm_unused hlabel hr (Ledger.used_mono_run hops hused)

/-! ## Safety -/

/-- A mint: the request's approval, the delay and the epochs since. -/
structure MintedAfterApproval (env : Env) (start : World) (tr : List Label) (w : World)
    (id : Address) : Prop where
  approved : ∃ r cert certified approvedAt delay post,
    w.deposits.requests.lookup id = some r ∧
    ApprovedIn env start tr w id r.utxo cert approvedAt post ∧
    w.hashi.verify env (.depositConfirmation id r.utxo) cert = .ok certified ∧
    BtcConfig.bitcoinDepositTimeDelayMs w.hashi.config = .ok delay ∧
    approvedAt + delay ≤ w.clock ∧
    ∀ label ∈ post, label.activates = none

theorem mintedAfterApproval {id₀ epoch clock : Nat}
    (hrun : Run (Step env) (publish id₀ epoch clock) tr w) (hstep : Step env w label w')
    (hlabel : label.confirms = some id) :
    MintedAfterApproval env (publish id₀ epoch clock) tr w id := by
  obtain ⟨queue, heffect⟩ : ∃ queue, DepositEffect env w label queue := ⟨_, hstep.depositEffect⟩
  cases heffect with
  | kept approves confirms =>
      rw [confirms] at hlabel
      cases hlabel
  | request | approve | delete => cases hlabel
  | @confirm sender fresh id digest cert r certified approvedAt delay found unused idle approval
      approved verified configured elapsed =>
      cases hlabel
      obtain ⟨recorded, post, hrecorded, happroval⟩ := approvalsRecorded hrun _ r cert found approval
      cases approved.symm.trans hrecorded
      exact ⟨r, cert, certified, approvedAt, delay, post, found, happroval, verified, configured,
        elapsed, happroval.not_activates idle verified⟩

/-- Over every run from publication: a mint follows an approval of the same request and output by
the committee that is still current, by at least the delay; an outpoint is confirmed once at most,
and never after it was in the pool; a confirmed or deleted request is never approved or confirmed
again; and no request is both open and processed. -/
theorem deposits_safe {id₀ epoch clock : Nat}
    (hrun : Run (Step env) (publish id₀ epoch clock) tr w) :
    (∀ {label id w'}, label.confirms = some id → Step env w label w' →
      MintedAfterApproval env (publish id₀ epoch clock) tr w id) ∧
    (∀ {label id r w' tr' later label' id' r' w''}, label.confirms = some id →
      Step env w label w' → w.deposits.requests.lookup id = some r →
      Run (Step env) w' tr' later → label'.confirms = some id' → Step env later label' w'' →
      later.deposits.requests.lookup id' = some r' → r'.utxo.id ≠ r.utxo.id) ∧
    (∀ {outpoint tr' later label id r w''},
      w.hashi.bitcoin.utxoPool.isSpentOrActive outpoint → Run (Step env) w tr' later →
      label.confirms = some id → Step env later label w'' →
      later.deposits.requests.lookup id = some r → r.utxo.id ≠ outpoint) ∧
    (∀ {label id w' tr' later label' w''}, label.confirms = some id ∨ label.expires = some id →
      Step env w label w' → Run (Step env) w' tr' later → Step env later label' w'' →
      label'.confirms ≠ some id ∧ ∀ cert, label'.approves ≠ some (id, cert)) ∧
    ∀ id, ¬ (id ∈ w.deposits.requests ∧ id ∈ w.deposits.processed) := by
  have hinv := World.Inv.reachable hrun
  have hdeposits := (DepositInv.init id₀ epoch clock).run (World.Inv.init id₀ epoch clock) hrun
  refine ⟨fun hlabel hstep => mintedAfterApproval hrun hstep hlabel, ?_, ?_, ?_,
    hdeposits.disjoint⟩
  · intro label id r w' tr' later label' id' r' w'' hlabel hstep hr hlater hlabel' hstep' hr'
    exact used_not_confirmed (hinv.step hstep) (hstep.confirm_uses hlabel hr) hlater hstep' hlabel'
      hr'
  · intro outpoint tr' later label id r w'' hused hlater hlabel hstep hr
    exact used_not_confirmed hinv hused hlater hstep hlabel hr
  · intro label id w' tr' later label' w'' hlabel hstep hlater hstep'
    obtain ⟨hpresent, habsent⟩ := hstep.leaves hlabel
    have href := hstep.refines hinv
    have hid : id ∈ w'.ids := by
      rw [href.ids_eq]
      exact Finset.mem_union_left _ (hdeposits.ids (.inl hpresent))
    exact hstep'.not_of_absent (absent_run (hinv.step hstep) hlater hid habsent)

/-- The first deposit of the sample deployment is approved and can be confirmed. -/
theorem deposits_safe_of_first : ∃ w,
    Run (Step Sample.env) (publish 99 0 0) (Sample.launch ++ Sample.deposits.take 4) w ∧
    MintedAfterApproval Sample.env (publish 99 0 0) (Sample.launch ++ Sample.deposits.take 4) w
      1010 := by
  obtain ⟨w, hrun, htest⟩ := run_of_reaches Sample.env (publish 99 0 0)
    (Sample.launch ++ Sample.deposits.take 4)
    (fun w => (exec Sample.env w (Sample.call 1014 (.bridge (.confirmDeposit 1010)))).isOk)
    (by decide +kernel)
  obtain ⟨w', hstep⟩ := exists_of_isOk htest
  exact ⟨w, hrun, (deposits_safe hrun).1 rfl hstep⟩

end HashiBridge.Chain
