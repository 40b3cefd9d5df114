import HashiBridge.Chain.Lemmas.Reachable

/-!
# Safety of reconfiguration

The activated epochs are one ascending chain, and the stored handoffs are exactly its links. A
pending epoch is completed or aborted once, and never both at one Sui epoch.
-/

namespace HashiBridge.Chain

open Lib HashiBridge.Core Btc

variable {env : Env} {activated : List Nat} {w w' : World} {label : Label} {tr : List Label}

/-! ## The chain of handoffs -/

/-- The handoffs after a history: the links of the activated epochs, each certified by the committee it
leaves over the committee it enters. -/
structure HandoffChain (env : Env) (w : World) (activated : List Nat) : Prop where
  ascending : activated.Pairwise (· < ·)
  last : w.hashi.committeeSet.mpcPublicKey ≠ [] →
    activated.getLast? = some w.hashi.committeeSet.epoch
  links_iff : ∀ {e n}, (w.hashi.committeeSet.handoffs.lookup e).map CommitteeHandoff.nextEpoch =
    some n ↔ (e, n) ∈ links activated
  certified : ∀ {e n cert}, w.hashi.committeeSet.handoffs.lookup e = some ⟨n, cert⟩ →
    ∃ outgoing incoming, w.hashi.committeeSet.committees.lookup e = some outgoing ∧
      w.hashi.committeeSet.committees.lookup n = some incoming ∧
      Certifies env w.hashi outgoing incoming cert
  fresh : w.hashi.committeeSet.mpcPublicKey ≠ [] →
    w.hashi.committeeSet.epoch ∉ w.hashi.committeeSet.handoffs

/-- A completion after genesis: the epoch goes up and one handoff is added, whose certificate the
outgoing committee gave over the incoming one. -/
structure Advances (env : Env) (w : World) (n : Nat) (w' : World) : Prop where
  epoch_lt : w.hashi.committeeSet.epoch < n
  epoch_eq : w'.hashi.committeeSet.epoch = n
  handoff : ∃ cert outgoing incoming,
    w'.hashi.committeeSet.handoffs =
      w.hashi.committeeSet.handoffs.insert w.hashi.committeeSet.epoch ⟨n, cert⟩ ∧
    w.hashi.currentCommittee = .ok outgoing ∧
    w.hashi.committeeSet.committees.lookup n = some incoming ∧
    Certifies env w.hashi outgoing incoming cert

theorem handoffChain (hinv : w.Inv env activated) : HandoffChain env w activated where
  ascending := hinv.epochs.ascending
  last := hinv.epochs.last
  links_iff := hinv.epochs.handoff_links
  certified := hinv.epochs.handoff_cert
  fresh := hinv.epochs.epoch_notMem_handoffs

theorem Refines.finish (h : Refines env w label w') {n : Nat} (hn : label.activates = some n) :
    n = w.epoch ∧ ∃ mpcPublicKey, EpochState.Step (Certifies env w.hashi) w.epoch w.epochs
      (.finish mpcPublicKey) w'.epochs := by
  unfold Label.activates at hn
  split at hn <;> cases hn
  obtain ⟨ops, ⟨op, heffect, rfl⟩, hrun⟩ := h.epochs
  obtain ⟨hnow, rfl⟩ := heffect
  exact ⟨hnow, _, hrun.of_single⟩

theorem advances (hinv : w.Inv env activated) (h : Refines env w label w') {n : Nat}
    (hn : label.activates = some n) (hkey : w.hashi.committeeSet.mpcPublicKey ≠ []) :
    Advances env w n w' := by
  obtain ⟨rfl, mpcPublicKey, hstep⟩ := h.finish hn
  obtain ⟨cert, hpending, hfresh, heq⟩ := hstep.finish_handoff hkey
  obtain ⟨-, outgoing, incoming, hout, hin, hcert⟩ := hinv.epochs.pending_cert hpending
  have hpendingEpoch : w.epochs.pendingEpoch = some w.epoch := by
    rw [EpochState.pendingEpoch, hpending]
    rfl
  exact ⟨hinv.epochs.pending_lt hkey hpendingEpoch, congrArg EpochState.epoch heq, cert, outgoing,
    incoming, congrArg EpochState.handoffs heq, Bag.borrow_eq_ok.mpr hout, hin, hcert⟩

/-! ## Settling -/

theorem Refines.abort (h : Refines env w label w') {p : Nat} (hp : label.aborts = some p) :
    EpochState.Step (Certifies env w.hashi) w.epoch w.epochs (.abort p) w'.epochs := by
  unfold Label.aborts at hp
  split at hp <;> cases hp
  obtain ⟨ops, ⟨op, rfl, rfl⟩, hrun⟩ := h.epochs
  exact hrun.of_single

theorem Refines.settles (hinv : w.Inv env activated) (h : Refines env w label w') {p : Nat}
    (hp : label.settles = some p) :
    w.epochs.pendingEpoch = some p ∧ w'.epochs.Settled w'.epoch p := by
  have hle : ∀ p, w.epochs.pendingEpoch = some p → p ≤ w.epoch := fun p hp =>
    (hinv.epochs.pending_mem hp).2
  rw [Label.settles, Option.or_eq_some_iff] at hp
  rcases hp with hp | ⟨-, hp⟩
  · obtain ⟨rfl, mpcPublicKey, hstep⟩ := h.finish hp
    exact (hstep.settled hle rfl).imp_right fun hs => hs.advance h.epoch_le
  · exact ((h.abort hp).settled hle rfl).imp_right fun hs => hs.advance h.epoch_le

theorem settled_step (h : Refines env w label w') {p : Nat} (hp : w.epochs.Settled w.epoch p) :
    w'.epochs.Settled w'.epoch p := by
  obtain ⟨ops, -, hrun⟩ := h.epochs
  refine EpochState.Settled.advance ?_ h.epoch_le
  exact hrun.invariant (P := fun s => s.Settled w.epoch p) hp fun _ _ _ hs hstep => hs.step hstep

theorem settled_run (hinv : w.Inv env activated) (hrun : Run (Step env) w tr w') {p : Nat}
    (hp : w.epochs.Settled w.epoch p) : w'.epochs.Settled w'.epoch p := by
  induction hrun with
  | nil => exact hp
  | snoc hrun hstep ih => exact settled_step (hstep.refines (hinv.run hrun)) ih

theorem not_completes_and_aborts (hinv : w.Inv env activated) {label' : Label} {w'' : World}
    {n p : Nat} (hn : label.activates = some n) (hp : label'.aborts = some p)
    (hstep : Step env w label w') : ¬ Step env w label' w'' := by
  intro hstep'
  obtain ⟨-, mpcPublicKey, hfinish⟩ := (hstep.refines hinv).finish hn
  obtain ⟨hpending, hne, -⟩ := ((hstep'.refines hinv).abort hp).abort_inv
  rw [hfinish.finish_inv.2, Option.some.injEq] at hpending
  exact hne hpending.symm

/-! ## Aborts -/

/-- What an abort of the pending epoch `p` leaves unchanged. The current committee is unchanged unless
the pending committee lies under the current epoch, which is only so for a genesis that was started at
Sui epoch 0. -/
structure AbortsCleanly (w : World) (p : Nat) (w' : World) : Prop where
  epoch_eq : w'.hashi.committeeSet.epoch = w.hashi.committeeSet.epoch
  key_eq : w'.hashi.committeeSet.mpcPublicKey = w.hashi.committeeSet.mpcPublicKey
  handoffs_eq : w'.hashi.committeeSet.handoffs = w.hashi.committeeSet.handoffs
  presig_eq : w'.hashi.presigAllocator = w.hashi.presigAllocator
  committees_eq : w'.hashi.committeeSet.committees = w.hashi.committeeSet.committees.erase p
  current_eq : w.hashi.committeeSet.mpcPublicKey ≠ [] ∨ p ≠ 0 →
    w'.hashi.currentCommittee = w.hashi.currentCommittee

theorem presig_eq_of_abort (hstep : Step env w label w') {p : Nat} (hp : label.aborts = some p) :
    w'.hashi.presigAllocator = w.hashi.presigAllocator := by
  unfold Label.aborts at hp
  split at hp <;> cases hp
  simp only [Step, exec, Call.run, keepCirculating, bind_eq_ok, pure_eq_ok, require_eq_ok] at hstep
  obtain ⟨_, -, _, ⟨hashi', h, rfl⟩, rfl⟩ := hstep
  exact (Hashi.abortReconfig_step env h).2.2

theorem abortsCleanly (hinv : w.Inv env activated) (hstep : Step env w label w') {p : Nat}
    (hp : label.aborts = some p) : AbortsCleanly w p w' := by
  obtain ⟨hpending, -, heq⟩ := ((hstep.refines hinv).abort hp).abort_inv
  have hepoch : w'.hashi.committeeSet.epoch = w.hashi.committeeSet.epoch :=
    congrArg EpochState.epoch heq
  have hcommittees : w'.hashi.committeeSet.committees = w.hashi.committeeSet.committees.erase p :=
    congrArg EpochState.committees heq
  refine ⟨hepoch, congrArg EpochState.mpcPublicKey heq, congrArg EpochState.handoffs heq,
    presig_eq_of_abort hstep hp, hcommittees, fun hcase => ?_⟩
  have hne : w.hashi.committeeSet.epoch ≠ p := by
    by_cases hkey : w.hashi.committeeSet.mpcPublicKey = []
    · have hzero : w.hashi.committeeSet.epoch = 0 := (hinv.epochs.unlaunched hkey).1
      rw [hzero]
      exact (hcase.resolve_left (not_not_intro hkey)).symm
    · exact (hinv.epochs.pending_lt hkey hpending).ne
  have hlookup : w'.hashi.committeeSet.committees.lookup w'.hashi.committeeSet.epoch =
      w.hashi.committeeSet.committees.lookup w.hashi.committeeSet.epoch := by
    rw [hepoch, hcommittees, Bag.lookup_erase_ite, if_neg hne]
  simp only [Hashi.currentCommittee, CommitteeSet.currentCommittee, CommitteeSet.getCommittee,
    Bag.borrow, hlookup]

/-- Safety of reconfiguration over every history: the key never changes once set, the handoffs are the
certified links of the activated epochs, a pending epoch is settled once and no world enables both ways,
and an abort takes the pending committee away only. -/
theorem reconfiguration_safe {id epoch clock : Nat}
    (hrun : Run (Step env) (publish id epoch clock) tr w) :
    (∀ {tr' w'}, w.hashi.committeeSet.mpcPublicKey ≠ [] → Run (Step env) w tr' w' →
      w'.hashi.committeeSet.mpcPublicKey = w.hashi.committeeSet.mpcPublicKey) ∧
    HandoffChain env w (tr.filterMap Label.activates) ∧
    (∀ {label w' n}, Step env w label w' → label.activates = some n →
      w.hashi.committeeSet.mpcPublicKey ≠ [] → Advances env w n w') ∧
    (∀ {label w' tr' w'' label' w''' p}, Step env w label w' → label.settles = some p →
      Run (Step env) w' tr' w'' → label'.settles = some p → ¬ Step env w'' label' w''') ∧
    (∀ {label label' w' w'' n p}, label.activates = some n → label'.aborts = some p →
      Step env w label w' → ¬ Step env w label' w'') ∧
    (∀ {label w' p}, Step env w label w' → label.aborts = some p → AbortsCleanly w p w') := by
  have hinv := World.Inv.reachable hrun
  refine ⟨?_, handoffChain hinv, fun hstep => advances hinv (hstep.refines hinv), ?_,
    not_completes_and_aborts hinv, fun hstep => abortsCleanly hinv hstep⟩
  · intro tr' w' hkey hrun'
    induction hrun' with
    | nil => rfl
    | snoc hrun' hstep ih =>
        have hkey' := ih ▸ hkey
        exact ((hstep.refines (hinv.run hrun')).key_eq hkey').trans ih
  · intro label w' tr' w'' label' w''' p hstep hp hrun' hp' hstep'
    have hinv' := hinv.step hstep
    have hsettled := settled_run hinv' hrun' ((hstep.refines hinv).settles hinv hp).2
    exact hsettled.1 ((hstep'.refines (hinv'.run hrun')).settles (hinv'.run hrun') hp').1

/-- After a completed rotation from epoch 0 to epoch 1 the one stored handoff is the link between
them. -/
theorem reconfiguration_safe_of_rotation : ∃ w,
    Run (Step Sample.env) (publish 99 0 0) (Sample.launch ++ Sample.rotation) w ∧
    ((w.hashi.committeeSet.handoffs.lookup 0).map CommitteeHandoff.nextEpoch = some 1) ∧
    ∀ {tr' w'}, Run (Step Sample.env) w tr' w' →
      w'.hashi.committeeSet.mpcPublicKey = Sample.mpcKey := by
  obtain ⟨w, hrun, htest⟩ := run_of_reaches Sample.env (publish 99 0 0)
    (Sample.launch ++ Sample.rotation)
    (fun w => decide (w.hashi.committeeSet.mpcPublicKey = Sample.mpcKey)) (by decide +kernel)
  have hkey : w.hashi.committeeSet.mpcPublicKey = Sample.mpcKey := of_decide_eq_true htest
  obtain ⟨hconstant, hchain, -⟩ := reconfiguration_safe hrun
  refine ⟨w, hrun, hchain.links_iff.mpr (by decide), fun hrun' => ?_⟩
  rw [← hkey]
  exact hconstant (by rw [hkey]; decide) hrun'

/-- A genesis started at Sui epoch 0 puts its pending committee under the current epoch 0, so its abort
takes the current committee away. -/
theorem abort_of_genesis_drops_current_committee : ∃ w w' committee,
    Run (Step Sample.env) (publish 99 0 0) (Sample.register ++ [.advance 1 0]) w ∧
    Step Sample.env w (Sample.call 1007 (.reconfig (.abortReconfig 0))) w' ∧
    w.hashi.currentCommittee = .ok committee ∧
    w'.hashi.currentCommittee = .error .fieldDoesNotExist := by
  obtain ⟨w, hrun, htest⟩ := run_of_reaches Sample.env (publish 99 0 0)
    (Sample.register ++ [.advance 1 0])
    (fun w => w.hashi.currentCommittee.isOk &&
      reaches Sample.env w [Sample.call 1007 (.reconfig (.abortReconfig 0))]
        (fun w' => decide (w'.hashi.currentCommittee = .error .fieldDoesNotExist))) (by decide +kernel)
  obtain ⟨hbefore, hreaches⟩ := Bool.and_eq_true_iff.mp htest
  obtain ⟨committee, hcommittee⟩ := exists_of_isOk hbefore
  obtain ⟨w', hrun', hafter⟩ := run_of_reaches _ _ _ _ hreaches
  exact ⟨w, w', committee, hrun, hrun'.of_single, hcommittee, of_decide_eq_true hafter⟩

end HashiBridge.Chain
