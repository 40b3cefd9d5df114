import HashiBridge.Monitor.WithdrawalFlow

/-!
# The order of a withdrawal's events does not matter

What the machine has seen and what it reported about neighbours depends only on which of the
withdrawal's own events have come. Contradicting events are dropped and leave no trace.
-/

namespace HashiBridge.Monitor

open WithdrawalEventType

/-- The three events of one withdrawal, which agree on the transaction. -/
structure WithdrawalFlow where
  event : WithdrawalEventType → MonitorWithdrawalEvent
  btcTxid : Txid
  tx : WithdrawalTx
  eventType_eq : ∀ t, (event t).eventType = t
  btcTxid_eq : ∀ t, (event t).btcTxid = btcTxid
  tx_eq : ∀ t, (event t).tx = tx

namespace WithdrawalFlow

variable {flow : WithdrawalFlow} {timing : Timing} {types : List WithdrawalEventType}

theorem event_inj {t t' : WithdrawalEventType} (h : flow.event t = flow.event t') : t = t' := by
  rw [← flow.eventType_eq t, h, flow.eventType_eq]

/-- What an arrival may be: one of the events, or after the first of them one that names another
transaction, or after an event of its type one with other contents. -/
inductive Admissible (flow : WithdrawalFlow) (before : List MonitorWithdrawalEvent)
    (event : MonitorWithdrawalEvent) : Prop
  | own (t : WithdrawalEventType) (h : event = flow.event t)
  | otherTxid (hbefore : before ≠ []) (h : event.btcTxid ≠ flow.btcTxid)
  | otherContents (t : WithdrawalEventType) (hbefore : flow.event t ∈ before)
      (htype : event.eventType = t) (h : event ≠ flow.event t)

/-- The arrivals are in any order, with repetitions and contradictions among them. -/
def Arrivals (flow : WithdrawalFlow) (arrivals : List MonitorWithdrawalEvent) : Prop :=
  arrivals ≠ [] ∧ ∀ before event, before ++ [event] <+: arrivals → flow.Admissible before event

theorem arrivals_snoc {arrivals : List MonitorWithdrawalEvent} {event : MonitorWithdrawalEvent}
    (h : arrivals = [] ∨ flow.Arrivals arrivals) (hevent : flow.Admissible arrivals event) :
    flow.Arrivals (arrivals ++ [event]) := by
  refine ⟨by simp, fun before event' hprefix => ?_⟩
  rcases List.prefix_concat_iff.mp hprefix with heq | hprefix
  · obtain ⟨rfl, hlast⟩ := List.append_inj' heq rfl
    cases hlast
    exact hevent
  · rcases h with rfl | h
    · simp at hprefix
    · exact h.2 before event' hprefix

def lateness (flow : WithdrawalFlow) (timing : Timing) (predecessor successor : WithdrawalEventType) :
    List MonitorFinding :=
  (neighborTimingFindings (flow.event predecessor) (flow.event successor) timing).getD []

def latenessOf (flow : WithdrawalFlow) (timing : Timing) (types : List WithdrawalEventType) :
    Multiset MonitorFinding :=
  (if e1HashiApproved ∈ types ∧ e2GuardianApproved ∈ types then
    (flow.lateness timing e1HashiApproved e2GuardianApproved : Multiset MonitorFinding) else 0) +
  (if e2GuardianApproved ∈ types ∧ e3BtcConfirmed ∈ types then
    (flow.lateness timing e2GuardianApproved e3BtcConfirmed : Multiset MonitorFinding) else 0)

theorem neighborTimingFindings_eq (flow : WithdrawalFlow) (timing : Timing)
    {t t' : WithdrawalEventType} (h : t.successor = some t') :
    neighborTimingFindings (flow.event t) (flow.event t') timing =
      some (flow.lateness timing t t') := by
  have hsome : ∃ findings,
      neighborTimingFindings (flow.event t) (flow.event t') timing = some findings := by
    cases t <;> cases h <;>
      simp [neighborTimingFindings, Timing.successorDeadline, Timing.predecessorDeadline,
        flow.eventType_eq, EventBounds.get, predecessor]
  obtain ⟨findings, hfindings⟩ := hsome
  rw [lateness, hfindings, Option.getD_some]

end WithdrawalFlow

def MonitorFinding.isLate : MonitorFinding → Bool
  | withdrawalUnapproved _ _ _ (.late _) => true
  | withdrawalStuck _ _ _ (.late _) => true
  | _ => false

theorem isLate_of_mem_neighborTimingFindings {predecessor successor : MonitorWithdrawalEvent}
    {timing : Timing} {findings : List MonitorFinding}
    (h : neighborTimingFindings predecessor successor timing = some findings) :
    ∀ finding ∈ findings, finding.isLate = true := by
  unfold neighborTimingFindings at h
  simp only [Option.bind_eq_bind, Option.bind_eq_some_iff, Option.pure_def, Option.some.injEq] at h
  obtain ⟨d, -, d', -, rfl⟩ := h
  intro finding hfinding
  rcases List.mem_append.mp hfinding with hmem | hmem
  · split_ifs at hmem
    · obtain rfl := List.mem_singleton.mp hmem
      rfl
    · cases hmem
  · split_ifs at hmem
    · obtain rfl := List.mem_singleton.mp hmem
      rfl
    · cases hmem

/-! ## The machine -/

namespace WithdrawalStateMachine

variable {flow : WithdrawalFlow} {timing : Timing} {types : List WithdrawalEventType}
  {machine machine' : WithdrawalStateMachine} {findings : List MonitorFinding}
  {t : WithdrawalEventType}

/-- The machine has seen the flow's events of these types, in this order, and nothing else. -/
structure Holds (flow : WithdrawalFlow) (types : List WithdrawalEventType)
    (machine : WithdrawalStateMachine) : Prop where
  nodup : types.Nodup
  seen : machine.seenEvents = types.map flow.event
  btcTxid : machine.btcTxid = flow.btcTxid
  tx : machine.tx = flow.tx
  /-- The expected types are the unseen neighbours of the seen ones. -/
  expected : ∀ t, t ∈ machine.expectedEventTypes ↔
    t ∉ types ∧ ∃ t' ∈ types, t'.predecessor = some t ∨ t'.successor = some t

theorem Holds.get_eq (h : machine.Holds flow types) (t : WithdrawalEventType) :
    machine.get t = if t ∈ types then some (flow.event t) else none := by
  rw [get, h.seen]
  have hnodup := h.nodup
  clear h
  induction types with
  | nil => rfl
  | cons t' types ih =>
      rw [List.nodup_cons] at hnodup
      rw [List.map_cons, List.find?_cons, flow.eventType_eq]
      by_cases heq : t' = t
      · simp [heq]
      · simp [heq, Ne.symm heq, ih hnodup.2]

/-- What judging a new event against one of its neighbours gives: their lateness, or the expectation
of the neighbour. -/
structure Judged (flow : WithdrawalFlow) (types : List WithdrawalEventType)
    (neighbour : Option WithdrawalEventType) (pair : WithdrawalEventType → List MonitorFinding)
    (result : List MonitorFinding × List ExpectedEvent) : Prop where
  late : ∀ finding ∈ result.1, finding.isLate = true
  findings : result.1 = neighbour.elim [] fun t => if t ∈ types then pair t else []
  expected : ∀ t, t ∈ result.2.map Prod.fst ↔ neighbour = some t ∧ t ∉ types

namespace Judged

variable {pair : WithdrawalEventType → List MonitorFinding} {n : WithdrawalEventType}

theorem none : Judged flow types .none pair ([], []) :=
  ⟨by simp, rfl, by simp⟩

theorem seen (hmem : n ∈ types) (hlate : ∀ finding ∈ pair n, finding.isLate = true) :
    Judged flow types (some n) pair (pair n, []) := by
  refine ⟨hlate, by simp [hmem], fun t => ?_⟩
  simp only [List.map_nil, List.not_mem_nil, Option.some.injEq, false_iff, not_and, not_not]
  rintro rfl
  exact hmem

theorem unseen (hmem : n ∉ types) (deadline : UnixSeconds) (relation : EventRelation) :
    Judged flow types (some n) pair ([], [(n, deadline, relation)]) := by
  refine ⟨by simp, by simp [hmem], fun t => ?_⟩
  simp only [List.map_cons, List.map_nil, List.mem_singleton, Option.some.injEq]
  constructor
  · rintro rfl
    exact ⟨rfl, hmem⟩
  · rintro ⟨rfl, -⟩
    rfl

end Judged

theorem Holds.judgePredecessor (h : machine.Holds flow types) (timing : Timing)
    (t : WithdrawalEventType) :
    ∃ result, machine.judgePredecessor (flow.event t) timing = some result ∧
      Judged flow types t.predecessor (fun p => flow.lateness timing p t) result := by
  unfold WithdrawalStateMachine.judgePredecessor
  rw [flow.eventType_eq]
  cases hp : t.predecessor with
  | none => exact ⟨_, rfl, .none⟩
  | some p =>
      have hneighbour : p.successor = some t := by cases t <;> cases hp <;> rfl
      have hpair := flow.neighborTimingFindings_eq timing hneighbour
      by_cases hmem : p ∈ types
      · refine ⟨_, ?_, .seen hmem (isLate_of_mem_neighborTimingFindings hpair)⟩
        simp only [h.get_eq, if_pos hmem, hpair, Option.map_some]
      · obtain ⟨deadline, hdeadline⟩ : ∃ d, timing.predecessorDeadline (flow.event t) = some d := by
          cases t <;> cases hp <;>
            simp [Timing.predecessorDeadline, flow.eventType_eq, predecessor, EventBounds.get]
        refine ⟨_, ?_, .unseen hmem deadline .predecessor⟩
        simp only [h.get_eq, if_neg hmem, hdeadline, Option.map_some]

theorem Holds.judgeSuccessor (h : machine.Holds flow types) (timing : Timing)
    (t : WithdrawalEventType) :
    ∃ result, machine.judgeSuccessor (flow.event t) timing = some result ∧
      Judged flow types t.successor (fun s => flow.lateness timing t s) result := by
  unfold WithdrawalStateMachine.judgeSuccessor
  rw [flow.eventType_eq]
  cases hs : t.successor with
  | none => exact ⟨_, rfl, .none⟩
  | some s =>
      have hpair := flow.neighborTimingFindings_eq timing hs
      by_cases hmem : s ∈ types
      · refine ⟨_, ?_, .seen hmem (isLate_of_mem_neighborTimingFindings hpair)⟩
        simp only [h.get_eq, if_pos hmem, hpair, Option.map_some]
      · obtain ⟨deadline, hdeadline⟩ : ∃ d, timing.successorDeadline (flow.event t) = some d := by
          cases t <;> cases hs <;> simp [Timing.successorDeadline, flow.eventType_eq, EventBounds.get]
        refine ⟨_, ?_, .unseen hmem deadline .successor⟩
        simp only [h.get_eq, if_neg hmem, hdeadline, Option.map_some]

theorem latenessOf_snoc (timing : Timing) (ht : t ∉ types) :
    flow.latenessOf timing (types ++ [t]) = flow.latenessOf timing types +
      ((t.predecessor.elim [] fun p => if p ∈ types then flow.lateness timing p t else []) ++
        (t.successor.elim [] fun s => if s ∈ types then flow.lateness timing t s else []) :
          List MonitorFinding) := by
  unfold WithdrawalFlow.latenessOf
  cases t with
  | e1HashiApproved =>
      by_cases h2 : e2GuardianApproved ∈ types <;>
        simp [ht, h2, predecessor, successor, add_comm]
  | e2GuardianApproved =>
      by_cases h1 : e1HashiApproved ∈ types <;> by_cases h3 : e3BtcConfirmed ∈ types <;>
        simp [ht, h1, h3, predecessor, successor]
  | e3BtcConfirmed =>
      by_cases h2 : e2GuardianApproved ∈ types <;> simp [ht, h2, predecessor, successor]

theorem mem_map_filter_ne {entries : List ExpectedEvent} {t t' : WithdrawalEventType} :
    t' ∈ (entries.filter fun entry => entry.1 ≠ t).map Prod.fst ↔
      t' ≠ t ∧ t' ∈ entries.map Prod.fst := by
  simp only [List.mem_map, List.mem_filter, decide_eq_true_eq]
  constructor
  · rintro ⟨entry, ⟨hmem, hne⟩, rfl⟩
    exact ⟨hne, entry, hmem, rfl⟩
  · rintro ⟨hne, entry, hmem, rfl⟩
    exact ⟨entry, ⟨hmem, hne⟩, rfl⟩

theorem Holds.record (h : machine.Holds flow types) (ht : t ∉ types) (timing : Timing) :
    ∃ machine' findings, machine.record (flow.event t) timing = some (machine', findings) ∧
      machine'.Holds flow (types ++ [t]) ∧ (∀ finding ∈ findings, finding.isLate = true) ∧
      flow.latenessOf timing (types ++ [t]) = flow.latenessOf timing types + findings := by
  obtain ⟨⟨before, expectedBefore⟩, hbefore, hjudged⟩ := h.judgePredecessor timing t
  obtain ⟨⟨after, expectedAfter⟩, hafter, hjudged'⟩ := h.judgeSuccessor timing t
  refine ⟨{ machine with
      expectedEvents := (machine.expectedEvents ++ expectedBefore ++ expectedAfter).filter
        fun entry => entry.1 ≠ t
      seenEvents := machine.seenEvents ++ [flow.event t] }, before ++ after, ?_, ?_, ?_, ?_⟩
  · have htx : ¬((flow.event t).tx ≠ machine.tx) := by rw [flow.tx_eq, h.tx]; exact fun hne => hne rfl
    simp only [WithdrawalStateMachine.record, if_neg htx, hbefore, hafter, flow.eventType_eq,
      Option.bind_eq_bind, Option.bind_some, List.nil_append, Option.pure_def]
  · refine ⟨?_, by simp [h.seen], h.btcTxid, h.tx, fun t' => ?_⟩
    · rw [List.nodup_append']
      exact ⟨h.nodup, List.nodup_singleton t, by simpa using ht⟩
    · have hold := h.expected t'
      rw [expectedEventTypes] at hold
      rw [expectedEventTypes, mem_map_filter_ne, List.map_append, List.map_append, List.mem_append,
        List.mem_append, hold, hjudged.expected, hjudged'.expected]
      constructor
      · rintro ⟨hne, (⟨hnot, t'', hmem, hn⟩ | ⟨hp, hnot⟩) | ⟨hs, hnot⟩⟩
        · exact ⟨by simp [hnot, hne], t'', by simp [hmem], hn⟩
        · exact ⟨by simp [hnot, hne], t, by simp, .inl hp⟩
        · exact ⟨by simp [hnot, hne], t, by simp, .inr hs⟩
      · rintro ⟨hnot, t'', hmem, hn⟩
        rw [List.mem_append, List.mem_singleton, not_or] at hnot
        refine ⟨hnot.2, ?_⟩
        rcases List.mem_append.mp hmem with hmem | hmem
        · exact .inl (.inl ⟨hnot.1, t'', hmem, hn⟩)
        · obtain rfl := List.mem_singleton.mp hmem
          rcases hn with hp | hs
          · exact .inl (.inr ⟨hp, hnot.1⟩)
          · exact .inr ⟨hs, hnot.1⟩
  · exact List.forall_mem_append.mpr ⟨hjudged.late, hjudged'.late⟩
  · rw [latenessOf_snoc timing ht, ← hjudged.findings, ← hjudged'.findings]

theorem Holds.addEvent_own (h : machine.Holds flow types) (t : WithdrawalEventType)
    (timing : Timing) :
    ∃ machine' findings types', machine.addEvent (flow.event t) timing = some (machine', findings) ∧
      machine'.Holds flow types' ∧ (∀ t', t' ∈ types' ↔ t' ∈ types ∨ t' = t) ∧
      (∀ finding ∈ findings, finding.isLate = true) ∧
      flow.latenessOf timing types' = flow.latenessOf timing types + findings := by
  have htxid : ¬(machine.btcTxid ≠ (flow.event t).btcTxid) := by
    rw [h.btcTxid, flow.btcTxid_eq]
    exact fun hne => hne rfl
  unfold WithdrawalStateMachine.addEvent
  rw [if_neg htxid, flow.eventType_eq, h.get_eq]
  by_cases hmem : t ∈ types
  · refine ⟨machine, [], types, ?_, h, fun t' => ?_, by simp, by simp⟩
    · rw [if_pos hmem]
      simp
    · constructor
      · exact Or.inl
      · rintro (hmem' | rfl)
        exacts [hmem', hmem]
  · obtain ⟨machine', findings, hrecord, hholds, hlate, hsum⟩ := h.record hmem timing
    refine ⟨machine', findings, types ++ [t], ?_, hholds, by simp, hlate, hsum⟩
    rw [if_neg hmem]
    exact hrecord

/-- An event that the machine cannot keep: it names another transaction, or its type was seen. -/
def Rejects (machine : WithdrawalStateMachine) (event : MonitorWithdrawalEvent) : Prop :=
  event.btcTxid ≠ machine.btcTxid ∨ (machine.get event.eventType).isSome

theorem Holds.addEvent_rejected (h : machine.Holds flow types) (hne : types ≠ [])
    {event : MonitorWithdrawalEvent} (hreject : machine.Rejects event) (timing : Timing) :
    ∃ findings, machine.addEvent event timing = some (machine, findings) ∧
      ∀ finding ∈ findings, finding.isLate = false := by
  unfold WithdrawalStateMachine.addEvent
  by_cases htxid : machine.btcTxid ≠ event.btcTxid
  · obtain ⟨first, rest, rfl⟩ := List.exists_cons_of_ne_nil hne
    rw [if_pos htxid, h.seen]
    exact ⟨_, rfl, by simp [eventsDiffer, MonitorFinding.isLate]⟩
  · rw [if_neg htxid]
    rcases hreject with hother | hseen
    · exact absurd (Ne.symm hother) htxid
    · obtain ⟨existing, hexisting⟩ := Option.isSome_iff_exists.mp hseen
      rw [hexisting]
      refine ⟨_, rfl, ?_⟩
      split_ifs <;> simp [eventsDiffer, MonitorFinding.isLate]

end WithdrawalStateMachine

/-! ## Runs -/

section Runs

variable {flow : WithdrawalFlow} {timing : Timing} {arrivals later : List MonitorWithdrawalEvent}
  {machine : WithdrawalStateMachine} {findings : List MonitorFinding}

/-- The state after some arrivals: the machine holds the flow's events among them, and the lateness
findings so far are those of the complete pairs. -/
def Followed (flow : WithdrawalFlow) (timing : Timing) (arrivals : List MonitorWithdrawalEvent)
    (machine : WithdrawalStateMachine) (findings : List MonitorFinding) : Prop :=
  ∃ types ≠ [], machine.Holds flow types ∧ (∀ t, t ∈ types ↔ flow.event t ∈ arrivals) ∧
    (findings.filter MonitorFinding.isLate : Multiset MonitorFinding) =
      flow.latenessOf timing types

namespace Followed

variable (h : Followed flow timing arrivals machine findings)

include h

theorem own (t : WithdrawalEventType) :
    ∃ machine' more, machine.addEvent (flow.event t) timing = some (machine', more) ∧
      Followed flow timing (arrivals ++ [flow.event t]) machine' (findings ++ more) := by
  obtain ⟨types, hne, hholds, hmem, hlate⟩ := h
  obtain ⟨machine', more, types', hadd, hholds', hmem', hmore, hsum⟩ := hholds.addEvent_own t timing
  refine ⟨machine', more, hadd, types', ?_, hholds', fun t' => ?_, ?_⟩
  · exact List.ne_nil_of_mem ((hmem' t).mpr (.inr rfl))
  · rw [hmem', hmem, List.mem_append, List.mem_singleton]
    exact or_congr_right ⟨congrArg _, WithdrawalFlow.event_inj⟩
  · rw [List.filter_append, List.filter_eq_self.mpr hmore, hsum, ← hlate, Multiset.coe_add]

/-- A lookup that finds the transaction is the arrival of the Bitcoin event. -/
theorem lookup {confirmation : BtcConfirmation} (checkedAt : UnixSeconds)
    (hexpects : machine.expectsBtc = true)
    (hevent : .fromBtc confirmation machine.wid machine.btcTxid machine.tx =
      flow.event e3BtcConfirmed) :
    ∃ machine' more,
      machine.recordLookup timing (some confirmation) checkedAt = some (machine', more) ∧
      Followed flow timing (arrivals ++ [flow.event e3BtcConfirmed]) machine' (findings ++ more) := by
  obtain ⟨types, hne, hholds, hrest⟩ := h
  have hnoted : Followed flow timing arrivals { machine with
      btcCheckedAt := some checkedAt, btcConfirmation := some confirmation } findings :=
    ⟨types, hne, { hholds with }, hrest⟩
  simp only [WithdrawalStateMachine.recordLookup, if_pos hexpects, hevent]
  exact hnoted.own e3BtcConfirmed

theorem rejected {event : MonitorWithdrawalEvent} (hreject : machine.Rejects event)
    (hother : ∀ t, event ≠ flow.event t) :
    ∃ more, machine.addEvent event timing = some (machine, more) ∧
      Followed flow timing (arrivals ++ [event]) machine (findings ++ more) := by
  obtain ⟨types, hne, hholds, hmem, hlate⟩ := h
  obtain ⟨more, hadd, hmore⟩ := hholds.addEvent_rejected hne hreject timing
  have hnone : more.filter MonitorFinding.isLate = [] := by
    rw [List.filter_eq_nil_iff]
    exact fun finding hfinding => Bool.eq_false_iff.mp (hmore finding hfinding)
  refine ⟨more, hadd, types, hne, hholds, fun t => ?_, ?_⟩
  · rw [hmem, List.mem_append, List.mem_singleton]
    exact ⟨Or.inl, fun hor => hor.resolve_right fun heq => hother t heq.symm⟩
  · rw [List.filter_append, hnone, List.append_nil, hlate]

theorem admissible {event : MonitorWithdrawalEvent} (hevent : flow.Admissible arrivals event) :
    ∃ machine' more, machine.addEvent event timing = some (machine', more) ∧
      Followed flow timing (arrivals ++ [event]) machine' (findings ++ more) := by
  cases hevent with
  | own t heq =>
      rw [heq]
      exact h.own t
  | otherTxid hbefore hother =>
      obtain ⟨types, -, hholds, -⟩ := id h
      obtain ⟨more, hadd, hnext⟩ := h.rejected (.inl (by rwa [hholds.btcTxid])) fun t heq =>
        hother (by rw [heq, flow.btcTxid_eq])
      exact ⟨machine, more, hadd, hnext⟩
  | otherContents t hbefore htype hother =>
      obtain ⟨types, -, hholds, hmem, -⟩ := id h
      have hseen : (machine.get event.eventType).isSome := by
        rw [htype, hholds.get_eq, if_pos ((hmem t).mpr hbefore)]
        rfl
      obtain ⟨more, hadd, hnext⟩ := h.rejected (.inr hseen) fun t' heq => by
        rw [heq, flow.eventType_eq] at htype
        exact hother (htype ▸ heq)
      exact ⟨machine, more, hadd, hnext⟩

theorem run (hlater : ∀ before event, before ++ [event] <+: arrivals ++ later →
      flow.Admissible before event) :
    ∃ machine' findings', later.foldlM (followEvent timing) (machine, findings) =
      some (machine', findings') ∧ Followed flow timing (arrivals ++ later) machine' findings' := by
  induction later generalizing arrivals machine findings with
  | nil => exact ⟨machine, findings, rfl, by rwa [List.append_nil]⟩
  | cons event later ih =>
      obtain ⟨machine', more, hadd, hnext⟩ := h.admissible (hlater arrivals event ⟨later, by simp⟩)
      rw [List.append_cons] at hlater ⊢
      obtain ⟨machine'', findings'', hfold, hend⟩ := ih hnext hlater
      refine ⟨machine'', findings'', ?_, hend⟩
      simp only [List.foldlM_cons, followEvent, hadd, Option.bind_eq_bind, Option.bind_some,
        Option.pure_def]
      exact hfold

end Followed

theorem latenessOf_single {types : List WithdrawalEventType} {t : WithdrawalEventType}
    (h : ∀ t', t' ∈ types ↔ t' = t) : flow.latenessOf timing types = 0 := by
  cases t <;> simp [WithdrawalFlow.latenessOf, h]

theorem Followed.first (flow : WithdrawalFlow) (timing : Timing) (t : WithdrawalEventType) :
    ∃ machine, WithdrawalStateMachine.new (flow.event t) timing = some machine ∧
      Followed flow timing [flow.event t] machine [] := by
  let start : WithdrawalStateMachine :=
    ⟨[], [], none, none, (flow.event t).wid, (flow.event t).btcTxid, (flow.event t).tx⟩
  have hstart : start.Holds flow [] :=
    ⟨List.nodup_nil, rfl, flow.btcTxid_eq t, flow.tx_eq t, by simp [start,
      WithdrawalStateMachine.expectedEventTypes]⟩
  obtain ⟨machine, findings, types, hadd, hholds, hmem, -, hsum⟩ := hstart.addEvent_own t timing
  have hsingle : ∀ t', t' ∈ types ↔ t' = t := by simpa using hmem
  have hnone : flow.latenessOf timing [] = 0 := by simp [WithdrawalFlow.latenessOf]
  have hfindings : findings = [] := by
    rw [latenessOf_single hsingle, hnone, zero_add] at hsum
    exact Multiset.coe_eq_zero findings |>.mp hsum.symm
  refine ⟨machine, ?_, types, List.ne_nil_of_mem ((hsingle t).mpr rfl), hholds, fun t' => ?_, ?_⟩
  · rw [WithdrawalStateMachine.new]
    simp only [Option.bind_eq_bind]
    rw [hadd]
    simp [hfindings]
  · rw [hsingle, List.mem_singleton]
    exact ⟨congrArg _, WithdrawalFlow.event_inj⟩
  · rw [latenessOf_single hsingle]
    rfl

theorem followed (h : flow.Arrivals arrivals) :
    ∃ machine findings, followWithdrawal timing arrivals = some (machine, findings) ∧
      Followed flow timing arrivals machine findings := by
  obtain ⟨hne, hadmissible⟩ := h
  obtain ⟨first, later, rfl⟩ := List.exists_cons_of_ne_nil hne
  cases hadmissible [] first ⟨later, rfl⟩ with
  | own t heq =>
      subst heq
      obtain ⟨machine, hnew, hfirst⟩ := Followed.first flow timing t
      obtain ⟨machine', findings', hfold, hend⟩ := hfirst.run hadmissible
      refine ⟨machine', findings', ?_, hend⟩
      simp only [followWithdrawal, hnew, Option.bind_eq_bind, Option.bind_some]
      exact hfold
  | otherTxid hbefore _ => exact absurd rfl hbefore
  | otherContents t hbefore _ _ => cases hbefore

/-! ## The outcome -/

def WithdrawalFlow.arrived (flow : WithdrawalFlow) (arrivals : List MonitorWithdrawalEvent) :
    List WithdrawalEventType :=
  [e1HashiApproved, e2GuardianApproved, e3BtcConfirmed].filter fun t => flow.event t ∈ arrivals

theorem WithdrawalFlow.mem_arrived {t : WithdrawalEventType} :
    t ∈ flow.arrived arrivals ↔ flow.event t ∈ arrivals := by
  rw [arrived, List.mem_filter, decide_eq_true_eq]
  exact ⟨And.right, fun h => ⟨by cases t <;> simp, h⟩⟩

theorem latenessOf_congr {types types' : List WithdrawalEventType} (h : ∀ t, t ∈ types ↔ t ∈ types') :
    flow.latenessOf timing types = flow.latenessOf timing types' := by
  simp only [WithdrawalFlow.latenessOf, h]

/-- What is known of the machine after the arrivals; all of it is determined by which of the flow's
events are among them. -/
structure WithdrawalOutcome (flow : WithdrawalFlow) (timing : Timing)
    (arrivals : List MonitorWithdrawalEvent) (machine : WithdrawalStateMachine)
    (findings : List MonitorFinding) : Prop where
  seen : ∀ event, event ∈ machine.seenEvents ↔ event ∈ arrivals ∧ ∃ t, event = flow.event t
  late : (findings.filter MonitorFinding.isLate : Multiset MonitorFinding) =
    flow.latenessOf timing (flow.arrived arrivals)
  unexpected : ∀ t, (machine.get t).isSome → t ∉ machine.expectedEventTypes
  ready : machine.isReadyForGc = true ↔ ∀ t, (machine.get t).isSome
  collected : machine.isReadyForGc = true ↔ machine.takeClosed.isSome
  rejected : ∀ event, machine.Rejects event →
    ∃ more, machine.addEvent event timing = some (machine, more)

theorem WithdrawalStateMachine.takeClosed_isSome :
    machine.takeClosed.isSome = true ↔ ∀ t, (machine.get t).isSome = true := by
  simp only [takeClosed, Option.isSome_iff_exists, Option.bind_eq_bind, Option.bind_eq_some_iff]
  constructor
  · rintro ⟨_, e1, he1, e2, he2, e3, he3, -⟩ t
    cases t
    exacts [⟨e1, he1⟩, ⟨e2, he2⟩, ⟨e3, he3⟩]
  · intro hall
    obtain ⟨e1, he1⟩ := hall e1HashiApproved
    obtain ⟨e2, he2⟩ := hall e2GuardianApproved
    obtain ⟨e3, he3⟩ := hall e3BtcConfirmed
    exact ⟨_, e1, he1, e2, he2, e3, he3, rfl⟩

theorem WithdrawalStateMachine.Holds.ready {types : List WithdrawalEventType} (hne : types ≠ [])
    (h : machine.Holds flow types) : machine.isReadyForGc = true ↔ ∀ t, t ∈ types := by
  have hempty : machine.isReadyForGc = true ↔ ∀ t, t ∉ machine.expectedEventTypes := by
    rw [WithdrawalStateMachine.isReadyForGc, List.isEmpty_iff, ← List.map_eq_nil_iff (f := Prod.fst),
      List.eq_nil_iff_forall_not_mem]
    rfl
  rw [hempty]
  simp only [h.expected]
  constructor
  · intro hnone
    -- one of the types was seen, and every unseen neighbour of a seen type would be expected
    have hclosed : ∀ t' ∈ types, ∀ t, t'.predecessor = some t ∨ t'.successor = some t → t ∈ types :=
      fun t' ht' t hn => by_contra fun hnot => hnone t ⟨hnot, t', ht', hn⟩
    obtain ⟨seen, hseen⟩ := List.exists_mem_of_ne_nil types hne
    have h2 : e2GuardianApproved ∈ types := by
      cases seen with
      | e1HashiApproved => exact hclosed _ hseen _ (.inr rfl)
      | e2GuardianApproved => exact hseen
      | e3BtcConfirmed => exact hclosed _ hseen _ (.inl rfl)
    intro t
    cases t with
    | e1HashiApproved => exact hclosed _ h2 _ (.inl rfl)
    | e2GuardianApproved => exact h2
    | e3BtcConfirmed => exact hclosed _ h2 _ (.inr rfl)
  · intro hall t hexpected
    exact hexpected.1 (hall t)

theorem Followed.outcome (h : Followed flow timing arrivals machine findings) :
    WithdrawalOutcome flow timing arrivals machine findings := by
  obtain ⟨types, hne, hholds, hmem, hlate⟩ := h
  have hget : ∀ t, (machine.get t).isSome ↔ t ∈ types := by
    intro t
    rw [hholds.get_eq]
    split_ifs with ht <;> simp [ht]
  have hready : machine.isReadyForGc = true ↔ ∀ t, (machine.get t).isSome := by
    simp only [hholds.ready hne, hget]
  constructor
  case seen =>
    intro event
    rw [hholds.seen, List.mem_map]
    constructor
    · rintro ⟨t, ht, rfl⟩
      exact ⟨(hmem t).mp ht, t, rfl⟩
    · rintro ⟨hevent, t, rfl⟩
      exact ⟨t, (hmem t).mpr hevent, rfl⟩
  case late =>
    rw [hlate]
    exact latenessOf_congr fun t => (hmem t).trans WithdrawalFlow.mem_arrived.symm
  case unexpected =>
    intro t ht hexpected
    exact ((hholds.expected t).mp hexpected).1 ((hget t).mp ht)
  case ready => exact hready
  case collected => rw [hready, WithdrawalStateMachine.takeClosed_isSome]
  case rejected =>
    intro event hreject
    obtain ⟨more, hadd, -⟩ := hholds.addEvent_rejected hne hreject timing
    exact ⟨more, hadd⟩

/-- Every order of arrival is followed without a panic, and two orders in which the same events of the
withdrawal come end with the same events seen and the same lateness reported. -/
theorem withdrawal_flow_order_independent (flow : WithdrawalFlow) (timing : Timing) :
    (∀ arrivals, flow.Arrivals arrivals →
      ∃ machine findings, followWithdrawal timing arrivals = some (machine, findings) ∧
        WithdrawalOutcome flow timing arrivals machine findings) ∧
    ∀ arrivals arrivals' machine machine' findings findings',
      flow.Arrivals arrivals → flow.Arrivals arrivals' →
      (∀ t, flow.event t ∈ arrivals ↔ flow.event t ∈ arrivals') →
      followWithdrawal timing arrivals = some (machine, findings) →
      followWithdrawal timing arrivals' = some (machine', findings') →
      (∀ event, event ∈ machine.seenEvents ↔ event ∈ machine'.seenEvents) ∧
        (findings.filter MonitorFinding.isLate).Perm (findings'.filter MonitorFinding.isLate) := by
  have hfollow : ∀ arrivals, flow.Arrivals arrivals →
      ∃ machine findings, followWithdrawal timing arrivals = some (machine, findings) ∧
        WithdrawalOutcome flow timing arrivals machine findings := by
    intro arrivals harrivals
    obtain ⟨machine, findings, hrun, hfollowed⟩ := followed harrivals
    exact ⟨machine, findings, hrun, hfollowed.outcome⟩
  refine ⟨hfollow, ?_⟩
  intro arrivals arrivals' machine machine' findings findings' harr harr' hsame hrun hrun'
  obtain ⟨_, _, heq, hout⟩ := hfollow arrivals harr
  obtain ⟨_, _, heq', hout'⟩ := hfollow arrivals' harr'
  rw [hrun] at heq
  rw [hrun'] at heq'
  cases heq
  cases heq'
  constructor
  · intro event
    rw [hout.seen, hout'.seen]
    refine and_congr_left ?_
    rintro ⟨t, rfl⟩
    exact hsame t
  · rw [← Multiset.coe_eq_coe, hout.late, hout'.late]
    apply latenessOf_congr
    intro t
    rw [WithdrawalFlow.mem_arrived, WithdrawalFlow.mem_arrived, hsame]

end Runs

namespace LateFlow

open WithdrawalFlow

/-- The guardian approves twenty seconds after the bridge. -/
def flow : WithdrawalFlow where
  event t := ⟨t, 1, if t = e1HashiApproved then 0 else 20, 7, ⟨[], [], []⟩⟩
  btcTxid := 7
  tx := ⟨[], [], []⟩
  eventType_eq _ := rfl
  btcTxid_eq _ := rfl
  tx_eq _ := rfl

def timing : Timing := ⟨⟨10, 10⟩, ⟨10, 10⟩, 0, 0⟩

/-- An event that names another transaction. -/
def stray : MonitorWithdrawalEvent := ⟨e3BtcConfirmed, 1, 20, 8, ⟨[], [], []⟩⟩

def inOrder : List MonitorWithdrawalEvent :=
  [flow.event e1HashiApproved, flow.event e2GuardianApproved, flow.event e3BtcConfirmed]

def reordered : List MonitorWithdrawalEvent :=
  [flow.event e3BtcConfirmed, stray, flow.event e1HashiApproved, flow.event e2GuardianApproved]

theorem arrivals_inOrder : flow.Arrivals inOrder := by
  have h1 : flow.Arrivals [flow.event e1HashiApproved] := arrivals_snoc (.inl rfl) (.own _ rfl)
  exact arrivals_snoc (.inr (arrivals_snoc (.inr h1) (.own _ rfl))) (.own _ rfl)

theorem arrivals_reordered : flow.Arrivals reordered := by
  have h1 : flow.Arrivals [flow.event e3BtcConfirmed] := arrivals_snoc (.inl rfl) (.own _ rfl)
  have h2 : flow.Arrivals [flow.event e3BtcConfirmed, stray] :=
    arrivals_snoc (.inr h1) (.otherTxid (by simp) (by decide))
  exact arrivals_snoc (.inr (arrivals_snoc (.inr h2) (.own _ rfl))) (.own _ rfl)

end LateFlow

open LateFlow in
theorem withdrawal_flow_order_independent_late : ∃ machine machine' findings findings',
    followWithdrawal timing inOrder = some (machine, findings) ∧
    followWithdrawal timing reordered = some (machine', findings') ∧
    (∀ event, event ∈ machine.seenEvents ↔ event ∈ machine'.seenEvents) ∧
    (findings.filter MonitorFinding.isLate).Perm (findings'.filter MonitorFinding.isLate) ∧
    findings.filter MonitorFinding.isLate = [late (flow.event e2GuardianApproved) .successor 10] := by
  obtain ⟨-, hsame⟩ := withdrawal_flow_order_independent flow timing
  obtain ⟨hseen, hperm⟩ := hsame inOrder reordered _ _ _ _ arrivals_inOrder arrivals_reordered
    (fun t => by cases t <;> simp [inOrder, reordered]) rfl rfl
  exact ⟨_, _, _, _, rfl, rfl, hseen, hperm, rfl⟩

end HashiBridge.Monitor
