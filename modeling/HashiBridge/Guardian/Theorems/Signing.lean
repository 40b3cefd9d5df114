import HashiBridge.Guardian.StandardWithdrawal
import HashiBridge.Guardian.Theorems.Outflow

/-!
# What a guardian signs in a stretch of time

The endpoint moves the limiter by one accepted call for each withdrawal it signs, and not at all
otherwise.
-/

namespace HashiBridge.Guardian

open Lib HashiBridge.Core

namespace Enclave

variable {env : Env} {now : Nat} {e e' : Enclave}

/-! ## One request -/

theorem validateRequestTimestamp_eq_ok {timestamp : Nat} {u : Unit}
    (h : validateRequestTimestamp timestamp now = .ok u) :
    now ≤ timestamp + MAX_REQUEST_AGE_SECS ∧ timestamp ≤ now + MAX_CLOCK_SKEW_SECS := by
  simp only [validateRequestTimestamp, bind_eq_ok, require_eq_ok] at h
  obtain ⟨_, hskew, hage⟩ := h
  have hwrap : wrapU64 (now + MAX_CLOCK_SKEW_SECS) ≤ now + MAX_CLOCK_SKEW_SECS :=
    Nat.mod_le _ _
  omega

def logged (env : Env) (signed : Node.SignedMessage StandardWithdrawalRequest)
    (postState : LimiterState) : WithdrawalLogMessage :=
  ⟨(env.btcSign signed.message.utxos).1, signed.message, signed.signature,
    (env.btcSign signed.message.utxos).2, postState⟩

/-- A signed request passed every check, and its outflow is taken from the limiter. -/
structure Signs (env : Env) (now : Nat) (e : Enclave)
    (signed : Node.SignedMessage StandardWithdrawalRequest) (l : RateLimiter) (e' : Enclave) :
    Prop where
  activated : e.lifecycle = some (.withdraw .activated)
  certified : ∃ committee hashiId, e.committee = some committee ∧
    e.hashiObjectId = some hashiId ∧ verifyHashiCert env hashiId committee signed = .ok ()
  limiter : e.rateLimiter = some l
  admits : l.Admits signed.message.seq signed.message.timestampSecs
    signed.message.utxos.grossOutflowAmount
  notOld : now ≤ signed.message.timestampSecs + MAX_REQUEST_AGE_SECS
  notAhead : signed.message.timestampSecs ≤ now + MAX_CLOCK_SKEW_SECS
  after : e' =
    let next := l.debited signed.message.timestampSecs signed.message.utxos.grossOutflowAmount
    { e with rateLimiter := some next
             withdrawLog := logged env signed next.state :: e.withdrawLog }

theorem standardWithdrawal_ok {request : SignedStandardWithdrawalRequestWire}
    {signatures : List Bytes}
    (h : exec (standardWithdrawal env now request) e = (.ok signatures, e')) :
    ∃ signed l, validateAddr env request = .ok signed ∧ Signs env now e signed l e' := by
  simp only [standardWithdrawal] at h
  rw [exec_bind, exec_get] at h
  simp only [exec_attempt_bind_ok, require_eq_ok, orAbort_eq_ok, requireFullyInitialized,
    requireLifecycle] at h
  obtain ⟨_, _, signed, hvalid, _, hactivated, committee, hcommittee, hashiId, hid, _, hcert, _,
    htime, h⟩ := h
  obtain ⟨hold, hahead⟩ := validateRequestTimestamp_eq_ok htime
  cases hl : e.rateLimiter with
  | none => simp [consumeFromLimiter, exec_bind, hl] at h
  | some l =>
      by_cases hadmits : l.Admits signed.message.seq signed.message.timestampSecs
          signed.message.utxos.grossOutflowAmount
      · simp [consumeFromLimiter, exec_bind, hl, RateLimiter.exec_consume_of_admits hadmits] at h
        exact ⟨signed, l, hvalid, hactivated, ⟨committee, hashiId, hcommittee, hid, hcert⟩, hl,
          hadmits, hold, hahead, h.2.symm⟩
      · obtain ⟨err, herr⟩ := RateLimiter.exec_consume_of_not_admits hadmits
        simp [consumeFromLimiter, exec_bind, hl, herr] at h

theorem standardWithdrawal_error {request : SignedStandardWithdrawalRequestWire}
    {err : GuardianError}
    (h : exec (standardWithdrawal env now request) e = (.error err, e')) : e' = e := by
  simp only [standardWithdrawal] at h
  rw [exec_bind, exec_get] at h
  revert h
  refine exec_attempt_bind_error fun _ => exec_attempt_bind_error fun signed =>
    exec_attempt_bind_error fun _ => exec_attempt_bind_error fun _ =>
      exec_attempt_bind_error fun _ => exec_attempt_bind_error fun _ =>
        exec_attempt_bind_error fun _ h => ?_
  cases hl : e.rateLimiter with
  | none =>
      simp [consumeFromLimiter, exec_bind, hl] at h
      exact h.2.symm
  | some l =>
      by_cases hadmits : l.Admits signed.message.seq signed.message.timestampSecs
          signed.message.utxos.grossOutflowAmount
      · simp [consumeFromLimiter, exec_bind, hl, RateLimiter.exec_consume_of_admits hadmits,
          Except.map] at h
      · obtain ⟨err', herr⟩ := RateLimiter.exec_consume_of_not_admits hadmits
        -- the rejected call writes back the limiter it read
        have hsame : { e with rateLimiter := some l } = e := by rw [← hl]
        simp [consumeFromLimiter, exec_bind, hl, herr, hsame] at h
        exact h.2.symm

/-! ## Runs of requests -/

/-- Serve requests at the given readings of the clock. Each withdrawal joins the log with the
reading it was signed at. -/
def serve (env : Env) (e : Enclave) :
    List (Nat × SignedStandardWithdrawalRequestWire) → Enclave × List (Nat × WithdrawalLogMessage)
  | [] => (e, [])
  | (now, request) :: rest =>
      let next := (exec (standardWithdrawal env now request) e).2
      let signed := next.withdrawLog.take (next.withdrawLog.length - e.withdrawLog.length)
      let (final, log) := next.serve env rest
      (final, signed.map (now, ·) ++ log)

def entry (config : LimiterConfig) (message : WithdrawalLogMessage) : RateLimiter.Accepted :=
  ⟨config, message.requestData.seq, message.requestData.timestampSecs,
    message.requestData.utxos.grossOutflowAmount, message.postState⟩

def NearClock (now : Nat) (message : WithdrawalLogMessage) : Prop :=
  now ≤ message.requestData.timestampSecs + MAX_REQUEST_AGE_SECS ∧
    message.requestData.timestampSecs ≤ now + MAX_CLOCK_SKEW_SECS

theorem serve_simulates {l : RateLimiter} (hl : e.rateLimiter = some l)
    (requests : List (Nat × SignedStandardWithdrawalRequestWire)) :
    ∃ events : List RateLimiter.Event, (∀ config, .restart config ∉ events) ∧
      (e.serve env requests).1.rateLimiter = some (l.run events).1 ∧
      (e.serve env requests).2.map (fun p => entry l.config p.2) = (l.run events).2 ∧
      ∀ p ∈ (e.serve env requests).2, NearClock p.1 p.2 := by
  induction requests generalizing e l with
  | nil => exact ⟨[], by simp, hl, rfl, by simp [serve]⟩
  | cons head rest ih =>
      obtain ⟨now, request⟩ := head
      rcases hexec : exec (standardWithdrawal env now request) e with ⟨err | signatures, next⟩
      · obtain rfl := standardWithdrawal_error hexec
        obtain ⟨events, hsession, hlimiter, hlog, hnear⟩ := ih hl
        refine ⟨events, hsession, ?_, ?_, ?_⟩ <;>
          simpa only [serve, hexec, Nat.sub_self, List.take_zero, List.map_nil, List.nil_append]
      · obtain ⟨signed, l', _, hsigns⟩ := standardWithdrawal_ok hexec
        obtain rfl : l = l' := Option.some.inj (hl.symm.trans hsigns.limiter)
        have hstep := RateLimiter.exec_consume_of_admits hsigns.admits
        have hafter := hsigns.after
        obtain ⟨events, hsession, hlimiter, hlog, hnear⟩ := ih (congrArg rateLimiter hafter)
        have hnew : next.withdrawLog.take (next.withdrawLog.length - e.withdrawLog.length) =
            [logged env signed (l.debited signed.message.timestampSecs
              signed.message.utxos.grossOutflowAmount).state] := by
          rw [hafter]
          simp
        refine ⟨.consume signed.message.seq signed.message.timestampSecs
          signed.message.utxos.grossOutflowAmount :: events, ?_, ?_, ?_, ?_⟩
        · intro config
          simpa using hsession config
        · simpa only [serve, hexec, RateLimiter.run, RateLimiter.step, hstep] using hlimiter
        · simp only [serve, hexec, hnew, RateLimiter.run, RateLimiter.step, hstep, List.map_cons,
            List.map_nil, List.singleton_append, Option.toList_some]
          exact congrArg₂ List.cons rfl hlog
        · simp only [serve, hexec, hnew, List.map_cons, List.map_nil, List.singleton_append,
            List.mem_cons, forall_eq_or_imp]
          exact ⟨⟨hsigns.notOld, hsigns.notAhead⟩, hnear⟩

/-- Between two readings of its clock a guardian signs away at most a full bucket and the refill
of the time between, lengthened by the age and the skew it tolerates. -/
theorem signed_outflow_bounded {l : RateLimiter} (hl : e.rateLimiter = some l)
    (requests : List (Nat × SignedStandardWithdrawalRequestWire))
    {before window after : List (Nat × WithdrawalLogMessage)}
    {first last : Nat × WithdrawalLogMessage}
    (hlog : (e.serve env requests).2 = before ++ window ++ after)
    (hfirst : window.head? = some first) (hlast : window.getLast? = some last) :
    (window.map fun p => p.2.requestData.utxos.grossOutflowAmount).sum ≤
      l.config.maxBucketCapacity + l.config.refillRate *
        (last.1 + (MAX_CLOCK_SKEW_SECS + MAX_REQUEST_AGE_SECS) - first.1) := by
  obtain ⟨events, hsession, _, hrun, hnear⟩ := serve_simulates hl requests
  rw [hlog] at hrun hnear
  simp only [List.map_append] at hrun
  have hcontinues := RateLimiter.run_continues l events
  rw [← hrun] at hcontinues
  have hbudget : RateLimiter.WithinBudget l.config.maxBucketCapacity l.config.refillRate
      (window.map fun p => entry l.config p.2) := by
    refine hcontinues.withinBudget fun a ha => ?_
    obtain ⟨p, _, rfl⟩ := List.mem_map.mp ha
    exact ⟨Nat.le_refl _, Nat.le_refl _⟩
  obtain ⟨_, hsum⟩ := hbudget _ _ (by rw [List.head?_map, hfirst]; rfl)
    (by rw [List.getLast?_map, hlast]; rfl)
  rw [List.map_map] at hsum
  refine Nat.le_trans hsum (Nat.add_le_add_left (Nat.mul_le_mul_left _ ?_) _)
  obtain ⟨hold, _⟩ := hnear first (by simp [List.mem_of_mem_head? hfirst])
  obtain ⟨_, hahead⟩ := hnear last (by simp [List.mem_of_getLast? hlast])
  simp only [entry]
  omega

/-! ## Two withdrawals -/

def Sample.enclaveEnv : Env where
  bitcoin := ⟨fun _ => true, "regtest", fun address => address, fun _ => "", fun _ => ""⟩
  verify _ _ _ := true
  bcsRequest _ := []
  parseSignature _ := .ok ()
  debugSignatureError _ := ""
  btcSign _ := (0, [])

def Sample.enclave : Enclave where
  deployed := true
  hashiObjectId := some 1
  lifecycle := some (.withdraw .activated)
  committee := some ⟨0, [⟨10, [], [], 1⟩], 1, ⟨VecMap.empty⟩⟩
  rateLimiter := some ⟨⟨1, 2000⟩, ⟨2000, 0, 0⟩, Nat.le_refl _⟩
  withdrawLog := []

/-- A withdrawal of 1000 with its fee. -/
def Sample.request (seq : UInt64) (timestampSecs : Nat) : SignedStandardWithdrawalRequestWire :=
  ⟨⟨1, ⟨[⟨⟨1, 0⟩, 1000, []⟩], [.external "" 900]⟩, timestampSecs, seq⟩, ⟨0, [], [128]⟩⟩

/-- A bucket of 2000 that refills by one a second signs away two withdrawals of 1000 in a minute. -/
theorem signed_outflow_of_two : ∃ first last,
    (Sample.enclave.serve Sample.enclaveEnv
      [(100, Sample.request 0 100), (160, Sample.request 1 160)]).2 = [first, last] ∧
    first.2.requestData.utxos.grossOutflowAmount + last.2.requestData.utxos.grossOutflowAmount ≤
      2000 + 1 * (last.1 + (MAX_CLOCK_SKEW_SECS + MAX_REQUEST_AGE_SECS) - first.1) := by
  obtain ⟨first, last, hlog⟩ := List.length_eq_two.mp (show (Sample.enclave.serve Sample.enclaveEnv
    [(100, Sample.request 0 100), (160, Sample.request 1 160)]).2.length = 2 by decide +kernel)
  refine ⟨first, last, hlog, ?_⟩
  have hbound := signed_outflow_bounded rfl _ (hlog.trans (show _ = [] ++ [first, last] ++ [] from rfl))
    rfl rfl
  simpa using hbound

end Enclave

end HashiBridge.Guardian
