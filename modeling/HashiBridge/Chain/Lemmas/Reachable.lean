import HashiBridge.Btc.Lemmas.LedgerHistory
import HashiBridge.Chain.Lemmas.BridgeSteps
import HashiBridge.Chain.Lemmas.ReconfigSteps
import HashiBridge.Chain.Lemmas.GovernanceSteps

/-!
# The invariant of the whole machine

Every step refines the ledger, the epochs and the proposals, so their invariants hold of every
reachable world.
-/

namespace HashiBridge.Chain

open Lib HashiBridge.Core Btc

variable {env : Env} {w w' : World} {label : Label} {activated : List Nat}

structure World.Inv (env : Env) (w : World) (activated : List Nat) : Prop where
  sound : w.ledger.Sound
  epochs : EpochInv (Certifies env w.hashi) w.epoch w.epochs activated
  unlaunched : w.epochs.mpcPublicKey = [] →
    w.ledger.numConsumed = 0 ∧ ∀ x, w.ledger.queue.txnAt x = none
  ballots : BallotInv w.hashi.proposals
  request_ids : ∀ {id r}, w.ledger.queue.requestAt id = some r → id ∈ w.ids
  txn_ids : ∀ {id t}, w.ledger.queue.txnAt id = some t → id ∈ w.ids
  proposal_ids : ∀ {id}, id ∈ w.hashi.proposals.active ∨ id ∈ w.hashi.proposals.executed → id ∈ w.ids

/-! ## Refinement of one step -/

theorem Certifies.of_id_eq {hashi hashi' : Hashi} (h : hashi'.id = hashi.id) :
    Certifies env hashi' = Certifies env hashi := by
  funext outgoing incoming cert
  simp only [Certifies, Hashi.verifyWithCommittee, h]

variable {hashi' : Hashi}

theorem refines_call {sender fresh : Address} {digest : Bytes} {call : Call}
    {circulating' : Nat} (hfresh : fresh ∉ w.ids) (hid : hashi'.id = w.hashi.id)
    (hledger : ∃ ops, (Label.call sender digest fresh call).LedgerEffect ops ∧
      Run Ledger.Step w.ledger ops (hashi'.ledger circulating'))
    (hepochs : ∃ ops, (Label.call sender digest fresh call).EpochEffect w.epoch ops ∧
      Run (EpochState.Step (Certifies env w.hashi) w.epoch) w.epochs ops hashi'.committeeSet.epochs)
    (hballots : ∃ ops, (Label.call sender digest fresh call).BallotEffect ops ∧
      Run (Proposals.Step w.hashi.seatedCommittee w.clock) w.hashi.proposals ops hashi'.proposals) :
    Refines env w (.call sender digest fresh call)
      { w with hashi := hashi', circulating := circulating', ids := insert fresh w.ids } where
  ledger := hledger
  epochs := hepochs
  ballots := hballots
  id_eq := hid
  epoch_le := Nat.le_refl _
  clock_le := Nat.le_refl _
  fresh_new := by
    rintro id ⟨⟩
    exact hfresh
  ids_eq := by
    ext id
    simp [Label.fresh]

theorem refines_quiet {sender fresh : Address} {digest : Bytes} {call : Call}
    (hfresh : fresh ∉ w.ids) (hquiet : Quiet w.hashi hashi')
    (hproposals : hashi'.proposals = w.hashi.proposals)
    (hledger : (Label.call sender digest fresh call).LedgerEffect [])
    (hepochs : (Label.call sender digest fresh call).EpochEffect w.epoch [])
    (hballots : (Label.call sender digest fresh call).BallotEffect []) :
    Refines env w (.call sender digest fresh call)
      { w with hashi := hashi', ids := insert fresh w.ids } := by
  refine refines_call hfresh hquiet.id_eq ⟨[], hledger, ?_⟩ ⟨[], hepochs, ?_⟩ ⟨[], hballots, ?_⟩
  · rw [hquiet.ledger_eq]
    exact .nil
  · rw [hquiet.epochs_eq]
    exact .nil
  · rw [hproposals]
    exact .nil

theorem rotate_step (hinv : w.Inv env activated) {mpcPublicKey : Bytes}
    (hstep : EpochState.Step (Certifies env w.hashi) w.epoch w.epochs (.finish mpcPublicKey)
      hashi'.committeeSet.epochs)
    (hframe : ReconfigFrame w.hashi hashi') (hreset : hashi'.presigAllocator = .create) :
    Ledger.Step w.ledger (.rotate w.epoch) (hashi'.ledger w.circulating) := by
  obtain ⟨hepoch, hpending⟩ := hstep.finish_inv
  have hstep : Ledger.Step w.ledger (.rotate w.epoch) { w.ledger with
      epoch := w.epoch, numConsumed := 0 } := by
    refine .rotate ?_ fun hsame => hinv.unlaunched ?_
    · by_cases hkey : w.epochs.mpcPublicKey = []
      · have hzero : w.epochs.epoch = 0 := (hinv.epochs.unlaunched hkey).1
        exact hzero.trans_le (Nat.zero_le _)
      · exact (hinv.epochs.pending_lt hkey hpending).le
    · -- after genesis the pending epoch is past the current one
      by_contra hkey
      exact absurd hsame (hinv.epochs.pending_lt hkey hpending).ne
  convert hstep using 1
  rw [hframe]
  exact Ledger.ext rfl rfl rfl rfl rfl hepoch (by rw [Hashi.ledger, hreset]; rfl)

theorem reconfig_ledger_eq {hashi hashi' : Hashi} {now circulating : Nat} {op : EpochOp}
    (hstep : EpochState.Step (Certifies env hashi) now hashi.committeeSet.epochs op
      hashi'.committeeSet.epochs) (hop : op.activates now = none)
    (hframe : ReconfigFrame hashi hashi')
    (hpresig : hashi'.presigAllocator = hashi.presigAllocator) :
    hashi'.ledger circulating = hashi.ledger circulating := by
  have hepoch : hashi'.committeeSet.epoch = hashi.committeeSet.epoch := hstep.epoch_eq hop
  rw [hframe]
  exact Ledger.ext rfl rfl rfl rfl rfl hepoch (congrArg PresigAllocator.numConsumed hpresig)

theorem ReconfigCall.ledger_run (hinv : w.Inv env activated) {sender fresh : Address}
    {digest : Bytes} {call : ReconfigCall}
    (h : call.run env ⟨sender, w.epoch, digest, fresh⟩ w.hashi = .ok hashi') :
    ∃ ops, (Label.call sender digest fresh (.reconfig call)).LedgerEffect ops ∧
      Run Ledger.Step w.ledger ops (hashi'.ledger w.circulating) := by
  cases call with
  | startReconfig validatorSet =>
      obtain ⟨⟨committee, hstep⟩, hframe, hpresig⟩ := Hashi.startReconfig_step h
      exact ⟨[], rfl, by rw [reconfig_ledger_eq hstep rfl hframe hpresig]; exact .nil⟩
  | submitCommitteeHandoff epoch cert =>
      obtain ⟨⟨-, hstep⟩, hframe, hpresig⟩ := Hashi.submitCommitteeHandoff_step h
      exact ⟨[], rfl, by rw [reconfig_ledger_eq hstep rfl hframe hpresig]; exact .nil⟩
  | endReconfig mpcPublicKey mpcCert =>
      obtain ⟨⟨hnow, hstep⟩, hframe, hreset⟩ := Hashi.endReconfig_step h
      exact ⟨[.rotate w.epoch], by rw [Label.LedgerEffect, hnow],
        .single (rotate_step hinv hstep hframe hreset)⟩
  | abortReconfig epoch =>
      obtain ⟨hstep, hframe, hpresig⟩ := Hashi.abortReconfig_step env h
      exact ⟨[], rfl, by rw [reconfig_ledger_eq hstep rfl hframe hpresig]; exact .nil⟩

/-- A fresh id names no request and no transaction yet. -/
theorem World.Inv.bridge_refines (hinv : w.Inv env activated) {sender fresh : Address}
    {digest : Bytes} {call : BridgeCall} {circulating' : Nat} (hfresh : fresh ∉ w.ids)
    (h : call.run env w.clock ⟨sender, w.epoch, digest, fresh⟩ w.hashi w.circulating =
      .ok (hashi', circulating')) :
    (∃ ops, call.Effect fresh ops ∧ Run Ledger.Step w.ledger ops (hashi'.ledger circulating')) ∧
      BridgeFrame w.hashi hashi' := by
  refine BridgeCall.refines h hinv.sound.inv ?_ ?_
  · exact Option.eq_none_iff_forall_not_mem.mpr fun r hr => hfresh (hinv.request_ids hr)
  · exact Option.eq_none_iff_forall_not_mem.mpr fun t ht => hfresh (hinv.txn_ids ht)

theorem Step.refines (hinv : w.Inv env activated) (hstep : Step env w label w') :
    Refines env w label w' := by
  cases hstep.taken with
  | advance hepoch hclock =>
      exact ⟨⟨[], rfl, .nil⟩, ⟨[], rfl, .nil⟩, ⟨[], rfl, .nil⟩, rfl, hepoch, hclock,
        (fun _ h => by cases h), by simp [Label.fresh]⟩
  | bridge hfresh hrun =>
      obtain ⟨hledger, hframe⟩ := hinv.bridge_refines hfresh hrun
      rw [hframe]
      exact refines_call hfresh rfl (hframe ▸ hledger) ⟨[], rfl, .nil⟩ ⟨[], rfl, .nil⟩
  | reconfig hfresh hrun =>
      obtain ⟨⟨op, heffect, hstep⟩, hframe⟩ := ReconfigCall.refines hrun
      refine refines_call hfresh (by rw [hframe]) (ReconfigCall.ledger_run hinv hrun)
        ⟨[op], ⟨op, heffect, rfl⟩, .single hstep⟩ ⟨[], rfl, ?_⟩
      rw [hframe]
      exact .nil
  | governance hfresh hrun =>
      obtain ⟨⟨op, heffect, hstep⟩, hquiet⟩ := GovernanceCall.refines hrun
      refine refines_call hfresh hquiet.id_eq ⟨[], rfl, ?_⟩ ⟨[], rfl, ?_⟩
        ⟨[op], ⟨op, heffect, rfl⟩, .single hstep⟩
      · rw [hquiet.ledger_eq]
        exact .nil
      · rw [hquiet.epochs_eq]
        exact .nil
  | publish hfresh hrun =>
      obtain ⟨hquiet, hproposals⟩ := Hashi.finishPublish_quiet hrun
      exact refines_quiet hfresh hquiet hproposals rfl rfl rfl
  | registry hfresh hrun =>
      obtain ⟨hquiet, hproposals⟩ := RegistryCall.quiet hrun
      exact refines_quiet hfresh hquiet hproposals rfl rfl rfl
  | certs hfresh hrun =>
      obtain ⟨hquiet, hproposals⟩ := CertCall.quiet hrun
      exact refines_quiet hfresh hquiet hproposals rfl rfl rfl

def Label.isBridge : Label → Bool
  | .call _ _ _ (.bridge _) => true
  | _ => false

theorem Step.bitcoin_eq (hstep : Step env w label w') (hlabel : label.isBridge = false) :
    w'.hashi.bitcoin = w.hashi.bitcoin := by
  cases hstep.taken with
  | advance => rfl
  | bridge => cases hlabel
  | reconfig _ hrun =>
      obtain ⟨-, hframe⟩ := ReconfigCall.refines hrun
      dsimp only
      rw [hframe]
  | governance _ hrun => exact (GovernanceCall.refines hrun).2.bitcoin_eq
  | publish _ hrun => exact (Hashi.finishPublish_quiet hrun).1.bitcoin_eq
  | registry _ hrun => exact (RegistryCall.quiet hrun).1.bitcoin_eq
  | certs _ hrun => exact (CertCall.quiet hrun).1.bitcoin_eq

/-! ## What a step creates and destroys -/

/-- The operations of a label create, cancel, commit and allocate only what the label says. -/
structure Label.Announces (label : Label) (op : Op) : Prop where
  requests : ∀ r, op = .request r → label.requests = some r.id
  cancels : ∀ id, op = .cancel id → label.cancels = some id
  commits : ∀ t, op = .commit t → label.commits = some t.id
  allocates : op.allocates = label.allocates

variable {ops : List Op}

theorem Label.LedgerEffect.announces (h : label.LedgerEffect ops) {op : Op}
    (hop : op ∈ ops) : label.Announces op := by
  -- the ways an effect names its operations
  have hnil : ops = [] → label.Announces op := by
    rintro rfl
    cases hop
  have hsingle : ∀ op₀, ops = [op₀] → label.Announces op₀ → label.Announces op := by
    rintro op₀ rfl h₀
    rwa [List.mem_singleton.mp hop]
  match label, h with
  | .advance .., h | .call _ _ _ (.finishPublish ..), h | .call _ _ _ (.registry _), h
  | .call _ _ _ (.governance _), h | .call _ _ _ (.certs _), h
  | .call _ _ _ (.reconfig (.startReconfig _)), h
  | .call _ _ _ (.reconfig (.submitCommitteeHandoff ..)), h
  | .call _ _ _ (.reconfig (.abortReconfig _)), h
  | .call _ _ _ (.bridge (.deposit _)), h | .call _ _ _ (.bridge (.approveDeposit ..)), h
  | .call _ _ _ (.bridge (.deleteExpiredDeposit _)), h => exact hnil h
  | .call _ _ _ (.reconfig (.endReconfig ..)), h
  | .call _ _ _ (.bridge (.approveRequest ..)), h
  | .call _ _ _ (.bridge (.commitInputSignatures ..)), h
  | .call _ _ _ (.bridge (.finalizeWithdrawal ..)), h
  | .call _ _ _ (.bridge (.confirmWithdrawal ..)), h
  | .call _ _ _ (.bridge (.cancelWithdrawal _)), h
  | .call _ _ _ (.bridge (.reallocatePresigs ..)), h =>
      refine hsingle _ h ?_
      constructor <;> simp [Label.cancels, Label.allocates, Label.commits, Op.allocates]
  | .call _ _ _ (.bridge (.confirmDeposit _)), h =>
      obtain ⟨utxo, h⟩ := h
      refine hsingle _ h ?_
      constructor <;> simp [Label.allocates, Label.commits, Op.allocates]
  | .call _ _ _ (.bridge (.requestWithdrawal ..)), h =>
      obtain ⟨r, hr, h⟩ := h
      refine hsingle _ h ?_
      constructor <;> simp [Label.requests, Label.allocates, Label.commits, Op.allocates, hr]
  | .call _ _ _ (.bridge (.commitWithdrawalTx ..)), h =>
      obtain ⟨t, ht, -, h⟩ := h
      refine hsingle _ h ?_
      constructor <;> simp [Label.allocates, Label.commits, Op.allocates, ht]
  | .call _ _ _ (.bridge (.archiveConfirmedWithdrawals _)), h
  | .call _ _ _ (.bridge (.archiveWithdrawalRequests ..)), h
  | .call _ _ _ (.bridge (.finishArchiveWithdrawalTxns _)), h =>
      obtain ⟨w, -, rfl | ⟨id, rfl⟩⟩ := h op hop <;>
        constructor <;> simp [Label.allocates, Label.commits, Op.allocates]
  | .call _ _ _ (.bridge (.cleanupSpentUtxos _)), h =>
      obtain ⟨id, rfl⟩ := h op hop
      constructor <;> simp [Label.allocates, Label.commits, Op.allocates]

variable {id : Address}

theorem Label.LedgerEffect.of_requests (h : label.LedgerEffect ops)
    (hid : label.requests = some id) : ∃ r : WithdrawalRequest, r.id = id ∧ ops = [.request r] := by
  unfold Label.requests at hid
  split at hid <;> cases hid
  exact h

theorem Label.LedgerEffect.of_cancels (h : label.LedgerEffect ops)
    (hid : label.cancels = some id) : ops = [.cancel id] := by
  unfold Label.cancels at hid
  split at hid <;> cases hid
  exact h

theorem Label.LedgerEffect.of_commits (h : label.LedgerEffect ops)
    (hid : label.commits = some id) : ∃ t : WithdrawalTransaction, t.id = id ∧ ops = [.commit t] := by
  unfold Label.commits at hid
  split at hid <;> cases hid
  obtain ⟨t, ht, -, hops⟩ := h
  exact ⟨t, ht, hops⟩

/-- A withdrawal request exists after a step if the step created it, or if it existed and the step
did not cancel it. -/
theorem Refines.requestAt_isSome (h : Refines env w label w') (hinv : w.ledger.Inv) (id : Address) :
    (w'.ledger.queue.requestAt id).isSome = true ↔ label.requests = some id ∨
      ((w.ledger.queue.requestAt id).isSome = true ∧ label.cancels ≠ some id) := by
  obtain ⟨ops, heffect, hrun⟩ := h.ledger
  by_cases hreq : label.requests = some id
  · obtain ⟨r, hr, rfl⟩ := heffect.of_requests hreq
    simp only [hreq, true_or, iff_true]
    exact (hrun.of_single.requestAt_isSome hinv id).mpr (.inl ⟨r, rfl, hr⟩)
  by_cases hcancel : label.cancels = some id
  · obtain rfl := heffect.of_cancels hcancel
    rw [hrun.of_single.requestAt_isSome hinv id]
    simp [hreq, hcancel, Ledger.Creates]
  · -- neither: every operation keeps the request
    simp only [hreq, hcancel, false_or, ne_eq, not_false_eq_true, and_true]
    refine Ledger.requestAt_isSome_run hinv hrun fun op hop => ⟨?_, ?_⟩
    · rintro ⟨r, rfl, hr⟩
      exact hreq (hr ▸ (heffect.announces hop).requests r rfl)
    · rintro rfl
      exact hcancel ((heffect.announces hop).cancels id rfl)

theorem Refines.txnAt_isSome (h : Refines env w label w') (id : Address) :
    (w'.ledger.queue.txnAt id).isSome = true ↔
      label.commits = some id ∨ (w.ledger.queue.txnAt id).isSome = true := by
  obtain ⟨ops, heffect, hrun⟩ := h.ledger
  rw [Ledger.txnAt_isSome_run hrun, or_comm]
  refine or_congr_left ⟨?_, ?_⟩
  · rintro ⟨t, ht, rfl⟩
    exact (heffect.announces ht).commits t rfl
  · intro hid
    obtain ⟨t, ht, rfl⟩ := heffect.of_commits hid
    exact ⟨t, List.mem_singleton_self _, ht⟩

theorem Refines.proposal_mem (h : Refines env w label w') (hinv : BallotInv w.hashi.proposals)
    (id : Address) : (id ∈ w'.hashi.proposals.active ∨ id ∈ w'.hashi.proposals.executed) ↔
      label.proposes = some id ∨ ((id ∈ w.hashi.proposals.active ∨ id ∈ w.hashi.proposals.executed) ∧
        label.deletes ≠ some id) := by
  obtain ⟨ops, heffect, hrun⟩ := h.ballots
  match label, heffect with
  | .call _ _ _ (.governance entry), ⟨op, heffect, hops⟩ =>
      subst hops
      rw [hrun.of_single.mem_iff hinv]
      cases entry <;> simp [GovernanceCall.Effect] at heffect <;> subst heffect <;>
        simp [Label.proposes, Label.deletes]
  | .advance .., hops | .call _ _ _ (.finishPublish ..), hops | .call _ _ _ (.bridge _), hops
  | .call _ _ _ (.reconfig _), hops | .call _ _ _ (.registry _), hops
  | .call _ _ _ (.certs _), hops =>
      subst hops
      rw [hrun.of_nil]
      simp [Label.proposes, Label.deletes]

theorem Step.allocates_seated (hstep : Step env w label w')
    (hid : label.allocates = some id) : w.epochs.pending = none ∧ w.epochs.epoch ∈ w.epochs.committees := by
  have hguard : w.hashi.assertNotReconfiguring = .ok () →
      w.epochs.pending = none ∧ w.epochs.epoch ∈ w.epochs.committees := by
    intro h
    simp only [Hashi.assertNotReconfiguring, bind_eq_ok, require_eq_ok] at h
    obtain ⟨_, hidle, hseated⟩ := h
    exact ⟨by simpa [CommitteeSet.isReconfiguring, World.epochs, CommitteeSet.epochs] using hidle,
      hseated⟩
  unfold Step at hstep
  unfold Label.allocates Label.commits at hid
  split at hid
  · simp only [exec, Call.run, BridgeCall.run, Hashi.reallocatePresigs, bind_eq_ok] at hstep
    obtain ⟨_, -, _, ⟨_, ⟨_, -, _, -, _, h, -⟩, -⟩, -⟩ := hstep
    exact hguard h
  · split at hid <;> cases hid
    simp only [exec, Call.run, BridgeCall.run, Hashi.commitWithdrawalTx, bind_eq_ok] at hstep
    obtain ⟨_, -, _, ⟨_, ⟨_, -, _, -, _, h, -⟩, -⟩, -⟩ := hstep
    exact hguard h

theorem Refines.key_eq (h : Refines env w label w')
    (hkey : w.epochs.mpcPublicKey ≠ []) : w'.epochs.mpcPublicKey = w.epochs.mpcPublicKey := by
  obtain ⟨ops, -, hrun⟩ := h.epochs
  refine hrun.invariant (P := fun s => s.mpcPublicKey = w.epochs.mpcPublicKey) rfl ?_
  intro s op s' hs hstep
  rw [hstep.key_eq (hs ▸ hkey), hs]

/-- What a transition of the epochs brings about, with the epoch it activates, a step does with the
one that its label activates. -/
theorem Refines.epochs_of_step {P : EpochState → List Nat → Prop} (h : Refines env w label w')
    (hkept : P w.epochs activated)
    (hstep : ∀ op s', EpochState.Step (Certifies env w.hashi) w.epoch w.epochs op s' →
      P s' (activated ++ (op.activates w.epoch).toList)) :
    P w'.epochs (activated ++ label.activates.toList) := by
  obtain ⟨ops, heffect, hrun⟩ := h.epochs
  match label, heffect with
  | .call _ _ _ (.reconfig entry), ⟨op, heffect, hops⟩ =>
      subst hops
      have hstep := hstep op _ hrun.of_single
      cases entry with
      | startReconfig =>
          obtain ⟨committee, rfl⟩ := heffect
          exact hstep
      | submitCommitteeHandoff =>
          obtain ⟨-, rfl⟩ := heffect
          exact hstep
      | endReconfig =>
          obtain ⟨hnow, rfl⟩ := heffect
          rwa [Label.activates, hnow]
      | abortReconfig =>
          obtain rfl := heffect
          exact hstep
  | .advance .., hops | .call _ _ _ (.finishPublish ..), hops | .call _ _ _ (.bridge _), hops
  | .call _ _ _ (.governance _), hops | .call _ _ _ (.registry _), hops
  | .call _ _ _ (.certs _), hops =>
      subst hops
      rw [hrun.of_nil]
      simpa [Label.activates] using hkept

/-! ## The invariant -/

variable {tr : List Label}

namespace World.Inv

theorem init (id epoch clock : Nat) : (publish id epoch clock).Inv env [] where
  sound := Ledger.Sound.init
  epochs := EpochInv.init
  unlaunched _ := ⟨rfl, fun _ => rfl⟩
  ballots := BallotInv.init
  request_ids h := by cases h
  txn_ids h := by cases h
  proposal_ids h := by
    rcases h with h | h <;> exact absurd h Finmap.notMem_empty

theorem epochs_step (hinv : w.Inv env activated) (h : Refines env w label w') :
    EpochInv (Certifies env w'.hashi) w'.epoch w'.epochs (activated ++ label.activates.toList) := by
  rw [Certifies.of_id_eq h.id_eq]
  refine EpochInv.advance ?_ h.epoch_le
  exact h.epochs_of_step (P := EpochInv (Certifies env w.hashi) w.epoch) hinv.epochs
    fun op s' hstep => hinv.epochs.step hstep

theorem unlaunched_step (hinv : w.Inv env activated) (hstep : Step env w label w')
    (h : Refines env w label w') (hkey' : w'.epochs.mpcPublicKey = []) :
    w'.ledger.numConsumed = 0 ∧ ∀ x, w'.ledger.queue.txnAt x = none := by
  have hkey : w.epochs.mpcPublicKey = [] := by
    by_contra hkey
    exact hkey (h.key_eq hkey ▸ hkey')
  obtain ⟨hzero, hnone⟩ := hinv.unlaunched hkey
  obtain ⟨ops, heffect, hrun⟩ := h.ledger
  refine Ledger.unallocated_run hrun (fun op hop => ?_) hzero hnone
  rw [(heffect.announces hop).allocates]
  -- a seated committee would be the pending one
  refine Option.eq_none_iff_forall_not_mem.mpr fun id hid => ?_
  obtain ⟨hidle, hseated⟩ := hstep.allocates_seated hid
  have hpending := hinv.epochs.unlaunched_committees hkey hseated
  rw [EpochState.pendingEpoch, hidle] at hpending
  cases hpending

theorem ballots_step (hinv : w.Inv env activated) (h : Refines env w label w') :
    BallotInv w'.hashi.proposals := by
  obtain ⟨ops, heffect, hrun⟩ := h.ballots
  match label, heffect with
  | .call _ _ _ (.governance entry), ⟨op, heffect, hops⟩ =>
      subst hops
      refine hinv.ballots.step hrun.of_single fun id hop hid => ?_
      subst hop
      cases entry <;> cases heffect
      exact h.fresh_new _ rfl (hinv.proposal_ids (.inr hid))
  | .advance .., hops | .call _ _ _ (.finishPublish ..), hops | .call _ _ _ (.bridge _), hops
  | .call _ _ _ (.reconfig _), hops | .call _ _ _ (.registry _), hops
  | .call _ _ _ (.certs _), hops =>
      subst hops
      rw [hrun.of_nil]
      exact hinv.ballots

/-- An object that exists after a step was created by it or existed before, so its id has been
handed out. -/
theorem ids_step (h : Refines env w label w') {created : Option Address}
    (hcreated : ∀ id, created = some id → label.fresh = some id)
    (hid : created = some id ∨ id ∈ w.ids) : id ∈ w'.ids := by
  rw [h.ids_eq, Finset.mem_union]
  rcases hid with hid | hid
  · exact .inr (by rw [hcreated id hid]; simp)
  · exact .inl hid

theorem step (hinv : w.Inv env activated) (hstep : Step env w label w') :
    w'.Inv env (activated ++ label.activates.toList) := by
  have h := hstep.refines hinv
  obtain ⟨ops, heffect, hrun⟩ := h.ledger
  refine ⟨hinv.sound.run hrun, hinv.epochs_step h, hinv.unlaunched_step hstep h,
    hinv.ballots_step h, ?_, ?_, ?_⟩
  · intro id r hr
    have hsome := (h.requestAt_isSome hinv.sound.inv id).mp (by rw [hr]; rfl)
    refine ids_step h label.fresh_of_requests (hsome.imp_right fun hsome => ?_)
    obtain ⟨r, hr⟩ := Option.isSome_iff_exists.mp hsome.1
    exact hinv.request_ids hr
  · intro id t ht
    have hsome := (h.txnAt_isSome id).mp (by rw [ht]; rfl)
    refine ids_step h label.fresh_of_commits (hsome.imp_right fun hsome => ?_)
    obtain ⟨t, ht⟩ := Option.isSome_iff_exists.mp hsome
    exact hinv.txn_ids ht
  · intro id hid
    have hmem := (h.proposal_mem hinv.ballots id).mp hid
    exact ids_step h label.fresh_of_proposes (hmem.imp_right fun hmem => hinv.proposal_ids hmem.1)

theorem run (hinv : w.Inv env activated) (hrun : Run (Step env) w tr w') :
    w'.Inv env (activated ++ tr.filterMap Label.activates) := by
  refine hrun.history (P := fun tr w' => w'.Inv env (activated ++ tr.filterMap Label.activates))
    (by simpa using hinv) ?_
  intro tr m label m' hm hstep
  have h := hm.step hstep
  have hlast : [label].filterMap Label.activates = label.activates.toList := by
    cases ha : label.activates <;> simp [ha]
  rwa [← hlast, List.append_assoc, ← List.filterMap_append] at h

theorem reachable {id epoch clock : Nat}
    (hrun : Run (Step env) (publish id epoch clock) tr w) :
    w.Inv env (tr.filterMap Label.activates) := by
  simpa using (init id epoch clock).run hrun

theorem ledger_run (hinv : w.Inv env activated) (hrun : Run (Step env) w tr w') :
    ∃ ops, Run Ledger.Step w.ledger ops w'.ledger := by
  induction hrun with
  | nil => exact ⟨[], .nil⟩
  | snoc hrun hstep ih =>
      obtain ⟨ops, hops⟩ := ih
      obtain ⟨ops', -, hops'⟩ := (hstep.refines (hinv.run hrun)).ledger
      exact ⟨ops ++ ops', hops.trans hops'⟩

end World.Inv

/-! ## Objects over a history -/

/-- An object that is created under a fresh id and destroyed only while it exists is there exactly if
the history created it and did not destroy it. -/
theorem present_iff (present : World → Prop) (creates destroys : Label → Option Address)
    (id : Address) {id₀ epoch clock : Nat} (hinit : ¬ present (publish id₀ epoch clock))
    (hids : ∀ {w activated}, w.Inv env activated → present w → id ∈ w.ids)
    (hfresh : ∀ label, creates label = some id → label.fresh = some id ∧ destroys label = none)
    (hstep : ∀ {w label w' activated}, w.Inv env activated → Refines env w label w' →
      (present w' ↔ creates label = some id ∨ (present w ∧ destroys label ≠ some id)) ∧
      (destroys label = some id → present w))
    (hrun : Run (Step env) (publish id₀ epoch clock) tr w) :
    present w ↔ (∃ label ∈ tr, creates label = some id) ∧
      ¬ ∃ label ∈ tr, destroys label = some id := by
  -- a destroyed object existed, so its id is taken
  have h : (present w ↔ (∃ label ∈ tr, creates label = some id) ∧
      ¬ ∃ label ∈ tr, destroys label = some id) ∧
      ((∃ label ∈ tr, destroys label = some id) → id ∈ w.ids) := by
    induction hrun with
    | nil => simp [hinit]
    | @snoc tr m label m' hrun hs ih =>
        obtain ⟨hiff, hgone⟩ := ih
        have hinv := World.Inv.reachable hrun
        have href := hs.refines hinv
        obtain ⟨hpresent, hexisted⟩ := hstep hinv href
        have hmono : id ∈ m.ids → id ∈ m'.ids := fun hid => by
          rw [href.ids_eq]
          exact Finset.mem_union_left _ hid
        simp only [List.mem_append, List.mem_singleton, or_and_right, exists_or, exists_eq_left]
        refine ⟨?_, ?_⟩
        · rw [hpresent, hiff]
          by_cases hcreates : creates label = some id
          · obtain ⟨hnew, hkeeps⟩ := hfresh label hcreates
            have hnot : ¬ ∃ label ∈ tr, destroys label = some id := fun hd =>
              href.fresh_new id hnew (hgone hd)
            simp [hcreates, hnot, hkeeps]
          · simp only [hcreates, false_or, false_and, or_false, not_or]
            exact and_assoc
        · rintro (hd | hd)
          exacts [hmono (hgone hd), hmono (hids hinv (hexisted hd))]
  exact h.1

end HashiBridge.Chain
