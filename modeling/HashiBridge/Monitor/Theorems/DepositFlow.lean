import HashiBridge.Monitor.DepositFlow
import HashiBridge.Monitor.Lemmas.UtxoPool

/-!
# Where an approval lands does not matter

A matching approval gets one verdict, against Bitcoin's answer: from the machine when the answer comes,
from the machine at once when the answer is there, or from the pool when the machine was collected.
-/

namespace HashiBridge.Monitor

open Lib Guardian

/-- A lookup of a request's transaction: its time and what it found. -/
abbrev Lookup := UnixSeconds × Option BtcConfirmation

namespace DepositStateMachine

variable {request : SuiDepositRequestedEvent} {timing : Timing} {machine : DepositStateMachine}
  {sui : SuiDepositApprovedEvent} {lookup : Lookup} {lookups : List Lookup} {answer : BtcAnswer}

def lookUpAll (timing : Timing) (machine : DepositStateMachine) :
    List Lookup → DepositStateMachine × List MonitorFinding
  | [] => (machine, [])
  | lookup :: lookups =>
      let next := machine.tryFetchBtcTx timing lookup.1 lookup.2
      let rest := lookUpAll timing next.1 lookups
      (rest.1, next.2 ++ rest.2)

/-- The answer that a lookup gives; an empty one within the watch gives none. -/
def answerOf (request : SuiDepositRequestedEvent) (timing : Timing) (lookup : Lookup) :
    Option BtcAnswer :=
  match lookup.2 with
  | some confirmation => some (answerFrom request confirmation)
  | none =>
      if wrapU64 (request.timestampSecs + timing.depositRequestWatch) ≤ lookup.1 then some .lapsed
      else none

def firstAnswer (request : SuiDepositRequestedEvent) (timing : Timing) (lookups : List Lookup) :
    BtcAnswer :=
  (lookups.findSome? (answerOf request timing)).getD .pending

def emptyLookups (request : SuiDepositRequestedEvent) (timing : Timing) (lookups : List Lookup) :
    Nat :=
  (lookups.takeWhile fun lookup => (answerOf request timing lookup).isNone).length

def verdict (sui : SuiDepositApprovedEvent) (answer : BtcAnswer) (timing : Timing) :
    List MonitorFinding :=
  if answer = .pending then [] else sui.judge answer.confirmed timing.depositApprovalSkew

/-! ## One lookup -/

theorem answerFrom_ne_pending (confirmation : BtcConfirmation) :
    answerFrom request confirmation ≠ .pending := by
  unfold answerFrom
  split <;> simp

theorem answerOf_ne_pending (h : answerOf request timing lookup = some answer) : answer ≠ .pending := by
  unfold answerOf at h
  split at h
  · cases h
    exact answerFrom_ne_pending _
  · split_ifs at h
    cases h
    simp

theorem tryFetchBtcTx_answered (h : machine.btcAnswer ≠ .pending) :
    machine.tryFetchBtcTx timing lookup.1 lookup.2 = (machine, []) :=
  if_pos h

theorem tryFetchBtcTx_empty (hpending : machine.btcAnswer = .pending)
    (h : answerOf machine.suiRequest timing lookup = none) :
    machine.tryFetchBtcTx timing lookup.1 lookup.2 = machine.countEmptyLookup := by
  obtain ⟨checkedAt, confirmation⟩ := lookup
  cases confirmation with
  | some confirmation => cases h
  | none =>
      have hwatch : ¬wrapU64 (machine.suiRequest.timestampSecs + timing.depositRequestWatch) ≤
          checkedAt := by
        intro hle
        simp [answerOf, hle] at h
      simp only [tryFetchBtcTx, recordLookup, hwatch, if_false, hpending, ne_eq, not_true, if_true]
      rw [← hpending]

theorem tryFetchBtcTx_answer (hpending : machine.btcAnswer = .pending)
    (h : answerOf machine.suiRequest timing lookup = some answer) :
    machine.tryFetchBtcTx timing lookup.1 lookup.2 =
      ({ machine with btcAnswer := answer },
        { machine with btcAnswer := answer }.judgeHeldSuiApproval timing) := by
  have hne := answerOf_ne_pending h
  obtain ⟨checkedAt, confirmation⟩ := lookup
  cases confirmation with
  | some confirmation =>
      cases h
      simp [tryFetchBtcTx, recordLookup, hpending, hne]
  | none =>
      unfold answerOf at h
      split_ifs at h with hwatch
      cases h
      simp [tryFetchBtcTx, recordLookup, hpending, hwatch]

/-! ## Runs of lookups -/

theorem lookUpAll_answered (h : machine.btcAnswer ≠ .pending) :
    machine.lookUpAll timing lookups = (machine, []) := by
  induction lookups with
  | nil => rfl
  | cons lookup lookups ih => rw [lookUpAll, tryFetchBtcTx_answered h, ih, List.nil_append]

theorem firstAnswer_cons_some (h : answerOf request timing lookup = some answer) :
    firstAnswer request timing (lookup :: lookups) = answer := by
  rw [firstAnswer, List.findSome?_cons, h, Option.getD_some]

theorem firstAnswer_cons_none (h : answerOf request timing lookup = none) :
    firstAnswer request timing (lookup :: lookups) = firstAnswer request timing lookups := by
  rw [firstAnswer, List.findSome?_cons, h, firstAnswer]

theorem emptyLookups_cons_some (h : answerOf request timing lookup = some answer) :
    emptyLookups request timing (lookup :: lookups) = 0 := by
  rw [emptyLookups, List.takeWhile_cons_of_neg (by simp [h]), List.length_nil]

theorem emptyLookups_cons_none (h : answerOf request timing lookup = none) :
    emptyLookups request timing (lookup :: lookups) = emptyLookups request timing lookups + 1 := by
  rw [emptyLookups, List.takeWhile_cons_of_pos (by simp [h]), List.length_cons, emptyLookups]

theorem lookUpAll_unapproved (hpending : machine.btcAnswer = .pending)
    (happroval : machine.suiApproval = none) :
    machine.lookUpAll timing lookups =
      ({ machine with btcAnswer := firstAnswer machine.suiRequest timing lookups }, []) := by
  induction lookups with
  | nil =>
      rw [lookUpAll, firstAnswer, List.findSome?_nil, Option.getD_none, ← hpending]
  | cons lookup lookups ih =>
      cases hanswer : answerOf machine.suiRequest timing lookup with
      | none =>
          have hcount : machine.countEmptyLookup = (machine, []) := by
            rw [countEmptyLookup, happroval]
          rw [lookUpAll, tryFetchBtcTx_empty hpending hanswer, hcount, ih,
            firstAnswer_cons_none hanswer, List.nil_append]
      | some answer =>
          have hclosed : { machine with btcAnswer := answer }.btcAnswer ≠ .pending :=
            answerOf_ne_pending hanswer
          rw [lookUpAll, tryFetchBtcTx_answer hpending hanswer, lookUpAll_answered hclosed,
            firstAnswer_cons_some hanswer, judgeHeldSuiApproval, happroval]
          simp

/-- The alerts of the empty lookups after an approval; the first one after it is silent. -/
def alerts (sui : SuiDepositApprovedEvent) (counted waiting : Nat) : List MonitorFinding :=
  List.replicate (if counted = 0 then waiting - 1 else waiting) (.depositUnbacked sui)

theorem alerts_succ (counted waiting : Nat) :
    (if min 255 (counted + 1) < EMPTY_LOOKUPS_BEFORE_ALERT then []
      else [MonitorFinding.depositUnbacked sui]) ++ alerts sui (min 255 (counted + 1)) waiting =
      alerts sui counted (waiting + 1) := by
  have hpos : min 255 (counted + 1) ≠ 0 := by omega
  unfold alerts
  rw [if_neg hpos]
  by_cases hfirst : counted = 0
  · simp [hfirst, EMPTY_LOOKUPS_BEFORE_ALERT]
  · have hlater : ¬min 255 (counted + 1) < EMPTY_LOOKUPS_BEFORE_ALERT := by
      unfold EMPTY_LOOKUPS_BEFORE_ALERT
      omega
    rw [if_neg hlater, if_neg hfirst, List.replicate_succ, List.singleton_append]

theorem lookUpAll_approved (hpending : machine.btcAnswer = .pending)
    (happroval : machine.suiApproval = some sui) :
    ∃ counted, machine.lookUpAll timing lookups =
      ({ machine with
          btcAnswer := firstAnswer machine.suiRequest timing lookups
          emptyLookupsSinceApproval := counted },
        alerts sui machine.emptyLookupsSinceApproval
            (emptyLookups machine.suiRequest timing lookups) ++
          verdict sui (firstAnswer machine.suiRequest timing lookups) timing) := by
  induction lookups generalizing machine with
  | nil =>
      refine ⟨machine.emptyLookupsSinceApproval, ?_⟩
      rw [lookUpAll, firstAnswer, List.findSome?_nil, Option.getD_none, ← hpending, verdict,
        if_pos hpending]
      simp [alerts, emptyLookups]
  | cons lookup lookups ih =>
      cases hanswer : answerOf machine.suiRequest timing lookup with
      | none =>
          let counted := min 255 (machine.emptyLookupsSinceApproval + 1)
          have hcount : machine.countEmptyLookup =
              ({ machine with emptyLookupsSinceApproval := counted },
                if counted < EMPTY_LOOKUPS_BEFORE_ALERT then [] else [.depositUnbacked sui]) := by
            rw [countEmptyLookup, happroval]
          obtain ⟨final, hfinal⟩ :=
            @ih { machine with emptyLookupsSinceApproval := counted } hpending happroval
          refine ⟨final, ?_⟩
          rw [lookUpAll, tryFetchBtcTx_empty hpending hanswer, hcount, hfinal,
            firstAnswer_cons_none hanswer, emptyLookups_cons_none hanswer, ← alerts_succ,
            List.append_assoc]
      | some answer =>
          have hclosed : { machine with btcAnswer := answer }.btcAnswer ≠ .pending :=
            answerOf_ne_pending hanswer
          refine ⟨machine.emptyLookupsSinceApproval, ?_⟩
          rw [lookUpAll, tryFetchBtcTx_answer hpending hanswer, lookUpAll_answered hclosed,
            firstAnswer_cons_some hanswer, emptyLookups_cons_some hanswer, judgeHeldSuiApproval,
            happroval, verdict]
          simp [alerts, confirmed]

end DepositStateMachine

/-! ## Every place of the approval -/

namespace DepositStateMachine

variable {request : SuiDepositRequestedEvent} {timing : Timing} {machine : DepositStateMachine}
  {sui : SuiDepositApprovedEvent} {before after lookups : List Lookup} {deposit : BtcConfirmedDeposit}

theorem firstAnswer_append :
    firstAnswer request timing (before ++ after) =
      if firstAnswer request timing before = .pending then firstAnswer request timing after
      else firstAnswer request timing before := by
  induction before with
  | nil => rfl
  | cons lookup before ih =>
      rw [List.cons_append]
      cases hanswer : answerOf request timing lookup with
      | none => rw [firstAnswer_cons_none hanswer, firstAnswer_cons_none hanswer, ih]
      | some answer =>
          rw [firstAnswer_cons_some hanswer, firstAnswer_cons_some hanswer,
            if_neg (answerOf_ne_pending hanswer)]

theorem depositId_of_firstAnswer (h : firstAnswer request timing lookups = .paid deposit) :
    deposit.depositId = request.depositId := by
  induction lookups with
  | nil => cases h
  | cons lookup lookups ih =>
      cases hanswer : answerOf request timing lookup with
      | none => exact ih (firstAnswer_cons_none hanswer ▸ h)
      | some answer =>
          rw [firstAnswer_cons_some hanswer] at h
          subst h
          unfold answerOf at hanswer
          split at hanswer
          · next confirmation _ =>
            rw [Option.some.injEq] at hanswer
            unfold answerFrom at hanswer
            split at hanswer
            · cases hanswer
            · next paid hpaid =>
              cases hanswer
              unfold BtcConfirmedDeposit.fromConfirmation at hpaid
              split at hpaid
              · cases hpaid
              · split_ifs at hpaid
                cases hpaid
                rfl
          · split_ifs at hanswer
            cases hanswer

def waiting (request : SuiDepositRequestedEvent) (timing : Timing) (before after : List Lookup) :
    Nat :=
  if firstAnswer request timing before = .pending then emptyLookups request timing after else 0

theorem addSuiApproval_first (hmatch : sui.matchesRequest machine.suiRequest = true)
    (hnone : machine.suiApproval = none) :
    machine.addSuiApproval sui timing = ({ machine with suiApproval := some sui },
      { machine with suiApproval := some sui }.judgeHeldSuiApproval timing) := by
  simp [addSuiApproval, hmatch, hnone]

theorem approved_among_lookups (hmatch : sui.matchesRequest request = true) :
    let opened := (new request).lookUpAll timing before
    let approved := opened.1.addSuiApproval sui timing
    let closed := approved.1.lookUpAll timing after
    opened.2 = [] ∧
    approved.2 ++ closed.2 = alerts sui 0 (waiting request timing before after) ++
      verdict sui (firstAnswer request timing (before ++ after)) timing ∧
    closed.1.suiRequest = request ∧ closed.1.suiApproval = some sui ∧
    closed.1.btcAnswer = firstAnswer request timing (before ++ after) := by
  intro opened approved closed
  have hopened : opened = (⟨request, none, 0, firstAnswer request timing before⟩, []) :=
    lookUpAll_unapproved rfl rfl
  have happroved : approved = (⟨request, some sui, 0, firstAnswer request timing before⟩,
      verdict sui (firstAnswer request timing before) timing) := by
    change opened.1.addSuiApproval sui timing = _
    rw [hopened, addSuiApproval_first hmatch rfl]
    rfl
  refine ⟨by rw [hopened], ?_⟩
  by_cases hpending : firstAnswer request timing before = .pending
  · obtain ⟨counted, hclosed⟩ : ∃ counted, closed =
        (⟨request, some sui, counted, firstAnswer request timing after⟩,
          alerts sui 0 (emptyLookups request timing after) ++
            verdict sui (firstAnswer request timing after) timing) := by
      change ∃ counted, approved.1.lookUpAll timing after = _
      rw [happroved, hpending]
      exact lookUpAll_approved rfl rfl
    rw [firstAnswer_append, if_pos hpending, waiting, if_pos hpending, happroved, hclosed, hpending]
    exact ⟨rfl, rfl, rfl, rfl⟩
  · have hclosed : closed = (approved.1, []) := by
      apply lookUpAll_answered
      rw [happroved]
      exact hpending
    rw [firstAnswer_append, if_neg hpending, waiting, if_neg hpending, hclosed, happroved]
    exact ⟨by simp [alerts], rfl, rfl, rfl⟩

end DepositStateMachine

section

open DepositStateMachine UtxoPool

/-- A matching approval gets one verdict, against Bitcoin's answer, whether it comes among the lookups
or after the machine was collected. In each case a paid output ends in the pool as an approved deposit.
A second approval adds nothing, and one that differs from the request leaves the machine as it is. The
verdict of the pool is that of one without a change output at the outpoint. -/
theorem deposit_approval_judged_alike :
    (∀ {request : SuiDepositRequestedEvent} {timing : Timing} {sui : SuiDepositApprovedEvent}
        {before after : List Lookup} {answer : BtcAnswer},
      sui.matchesRequest request = true → firstAnswer request timing (before ++ after) = answer →
      answer ≠ .pending →
      let opened := (new request).lookUpAll timing before
      let approved := opened.1.addSuiApproval sui timing
      let closed := approved.1.lookUpAll timing after
      opened.2 = [] ∧
      approved.2 ++ closed.2 = alerts sui 0 (waiting request timing before after) ++
        sui.judge answer.confirmed timing.depositApprovalSkew ∧
      closed.1.isReadyForGc = true ∧
      ∀ deposit, answer = .paid deposit →
        closed.1.intoFinished = some (.new deposit .deposit)) ∧
    (∀ {request : SuiDepositRequestedEvent} {timing : Timing} {sui : SuiDepositApprovedEvent}
        {lookups : List Lookup} {deposit : BtcConfirmedDeposit} {pool : UtxoPool},
      sui.matchesRequest request = true → firstAnswer request timing lookups = .paid deposit →
      pool.Agrees deposit →
      let collected := (new request).lookUpAll timing lookups
      ∃ finished pool', collected.2 = [] ∧ collected.1.intoFinished = some finished ∧
        (pool.addDeposit finished).2 = [] ∧
        (pool.addDeposit finished).1.checkSuiApproval sui timing.depositApprovalSkew =
          (pool', sui.judge (some deposit) timing.depositApprovalSkew) ∧
        pool.addDeposit (.new deposit .deposit) = (pool', []) ∧
        pool'.utxos.lookup deposit.depositId = some (utxoOf deposit .deposit)) ∧
    (∀ {machine : DepositStateMachine} {timing : Timing} {sui : SuiDepositApprovedEvent},
      machine.isApproved = true → sui.matchesRequest machine.suiRequest = true →
      machine.addSuiApproval sui timing = (machine, [])) ∧
    (∀ {machine : DepositStateMachine} {timing : Timing} {sui : SuiDepositApprovedEvent},
      sui.matchesRequest machine.suiRequest = false →
      (machine.addSuiApproval sui timing).1 = machine) := by
  refine ⟨?_, ?_, ?_, ?_⟩
  · intro request timing sui before after answer hmatch hanswer hne
    rw [← hanswer] at hne
    obtain ⟨hopened, hfindings, hrequest, happroval, hclosed⟩ :=
      @approved_among_lookups request timing sui before after hmatch
    rw [verdict, if_neg hne] at hfindings
    rw [hanswer] at hclosed hfindings hne
    refine ⟨hopened, hfindings, ?_, fun deposit hpaid => ?_⟩
    · rw [isReadyForGc, hclosed]
      simpa using hne
    · rw [intoFinished, confirmed, isApproved, hclosed, happroval, hpaid]
      rfl
  · intro request timing sui lookups deposit pool hmatch hanswer hagrees
    have hcollected : (new request).lookUpAll timing lookups =
        (⟨request, none, 0, .paid deposit⟩, []) := by
      rw [← hanswer]
      exact lookUpAll_unapproved rfl rfl
    have hid : deposit.depositId = sui.depositId := by
      have hrequest := depositId_of_firstAnswer hanswer
      simp only [SuiDepositApprovedEvent.matchesRequest, decide_eq_true_eq] at hmatch
      rw [hrequest, hmatch.2.1]
    let requested := UtxoOrigin.unapprovedDeposit request.timestampSecs request.amount
    obtain ⟨origin, horigin, hadd, -⟩ := addDeposit_agreeing hagrees requested (by simp [requested])
    obtain ⟨_, -, happroved, hdeposit⟩ := addDeposit_agreeing hagrees .deposit (by simp)
    rw [hdeposit rfl] at happroved
    refine ⟨.new deposit requested, _, by rw [hcollected], by rw [hcollected]; rfl, by rw [hadd], ?_,
      happroved, Finmap.lookup_insert _⟩
    have hheld : (⟨pool.utxos.insert deposit.depositId (utxoOf deposit origin)⟩ :
        UtxoPool).utxos.lookup deposit.depositId = some (utxoOf deposit origin) :=
      Finmap.lookup_insert _
    rw [hadd, checkSuiApproval_held hid hheld horigin, Finmap.insert_insert]
  · intro machine timing sui happroved hmatch
    rw [isApproved] at happroved
    simp [addSuiApproval, hmatch, happroved]
  · intro machine timing sui hdiffers
    simp [addSuiApproval, hdiffers]

namespace PaidLess

def request : SuiDepositRequestedEvent := ⟨1, 100, ⟨7, 0⟩, 50, []⟩

def approval : SuiDepositApprovedEvent := ⟨150, 1, ⟨7, 0⟩, 50, []⟩

def timing : Timing := ⟨⟨0, 0⟩, ⟨0, 0⟩, 10, 1000⟩

/-- Bitcoin pays forty of the fifty that the request states. -/
def found : Lookup := (160, some ⟨110, 115, [], [⟨40, []⟩]⟩)

def paid : BtcConfirmedDeposit := ⟨⟨7, 0⟩, 40, [], 110⟩

def mismatch : MonitorFinding := .depositMismatch 1 (.paymentDiffers approval paid)

end PaidLess

open PaidLess in
/-- The payment is reported whether the approval comes before it or after the machine was collected. -/
theorem deposit_approval_judged_alike_paidLess :
    (let opened := (new request).lookUpAll timing [(120, none)]
     let approved := opened.1.addSuiApproval approval timing
     approved.2 ++ (approved.1.lookUpAll timing [found]).2 = [mismatch]) ∧
    ∃ finished pool', ((new request).lookUpAll timing [(120, none), found]).1.intoFinished =
        some finished ∧
      (UtxoPool.addDeposit ⟨∅⟩ finished).1.checkSuiApproval approval 10 = (pool', [mismatch]) := by
  obtain ⟨hlooked, hcollected, -, -⟩ := deposit_approval_judged_alike
  have hmatch : approval.matchesRequest request = true := by decide
  obtain ⟨-, hverdict, -⟩ := @hlooked request timing approval [(120, none)] [found] (.paid paid) hmatch
    (by decide) (by decide)
  obtain ⟨finished, pool', -, hfinished, -, hcheck, -⟩ := @hcollected request timing approval
    [(120, none), found] paid ⟨∅⟩ hmatch (by decide) (by simp [UtxoPool.Agrees])
  exact ⟨hverdict, finished, pool', hfinished, hcheck⟩

end

end HashiBridge.Monitor
