import HashiBridge.Guardian.Basic

/-!
# The guardian's rate limiter

A token bucket. Its state never holds more tokens than the bucket does: `RateLimiter` carries that
as a field, which `new` checks.
-/

namespace HashiBridge.Guardian

open Lib HashiBridge.Core

structure LimiterConfig where
  /-- in sats per second -/
  refillRate : Nat
  /-- in sats -/
  maxBucketCapacity : Nat
deriving DecidableEq

structure LimiterState where
  numTokensAvailable : Nat
  /-- in unix seconds -/
  lastUpdatedAt : Nat
  nextSeq : UInt64
deriving DecidableEq

namespace LimiterState

def genesis (config : LimiterConfig) : LimiterState :=
  { numTokensAvailable := config.maxBucketCapacity, lastUpdatedAt := 0, nextSeq := 0 }

def cappedTo (self : LimiterState) (config : LimiterConfig) : LimiterState :=
  { self with numTokensAvailable := min self.numTokensAvailable config.maxBucketCapacity }

/-- The tokens at `timestamp`. A timestamp before the last update gives no refill. -/
def capacityAt (self : LimiterState) (config : LimiterConfig) (timestamp : Nat) : Nat :=
  let elapsed := timestamp - self.lastUpdatedAt
  let refilled := saturateU64 (elapsed * config.refillRate)
  min (saturateU64 (self.numTokensAvailable + refilled)) config.maxBucketCapacity

theorem capacityAt_le_max (self : LimiterState) (config : LimiterConfig) (timestamp : Nat) :
    self.capacityAt config timestamp ≤ config.maxBucketCapacity := Nat.min_le_right _ _

theorem capacityAt_le_refilled (self : LimiterState) (config : LimiterConfig) (timestamp : Nat) :
    self.capacityAt config timestamp ≤
      self.numTokensAvailable + config.refillRate * (timestamp - self.lastUpdatedAt) := by
  simp only [capacityAt, Nat.mul_comm config.refillRate]
  have hrefill := saturateU64_le ((timestamp - self.lastUpdatedAt) * config.refillRate)
  refine (Nat.min_le_left _ _).trans ((saturateU64_le _).trans ?_)
  omega

end LimiterState

structure RateLimiter where
  config : LimiterConfig
  state : LimiterState
  tokens_le : state.numTokensAvailable ≤ config.maxBucketCapacity
deriving DecidableEq

namespace RateLimiter

def new (config : LimiterConfig) (state : LimiterState) : GuardianResult RateLimiter :=
  if h : config.maxBucketCapacity < state.numTokensAvailable then
    .error (.invalidInputs "num_tokens_available exceeds max_bucket_capacity")
  else .ok ⟨config, state, Nat.not_lt.mp h⟩

def consume (seq : UInt64) (timestamp amountSats : Nat) : GuardianM RateLimiter Unit := do
  let self ← get
  let ⟨_, lastUpdatedAt, nextSeq⟩ := self.state
  if seq ≠ nextSeq then
    throw (.limiterSequenceMismatch nextSeq seq)
  if timestamp < lastUpdatedAt then
    throw (.invalidInputs s!"timestamp {timestamp} < last_updated_at {lastUpdatedAt}")
  let capacity := self.state.capacityAt self.config timestamp
  if capacity < amountSats then
    throw (.rateLimitExceeded amountSats capacity)
  set { self with
    state := ⟨capacity - amountSats, timestamp, nextSeq + 1⟩
    tokens_le := (Nat.sub_le _ _).trans (self.state.capacityAt_le_max _ _) }

/-! ## Runs -/

/-- What happens to a limiter: a call, or the end of the session and a new one that recovers the
state under its own configuration. -/
inductive Event
  | consume (seq : UInt64) (timestamp amountSats : Nat)
  | restart (config : LimiterConfig)

/-- An accepted call as the withdrawal log keeps it, with the configuration of its session. -/
structure Accepted where
  config : LimiterConfig
  seq : UInt64
  timestamp : Nat
  amountSats : Nat
  postState : LimiterState

def step (self : RateLimiter) : Event → RateLimiter × Option Accepted
  | .consume seq timestamp amountSats =>
      match exec (consume seq timestamp amountSats) self with
      | (.ok (), next) => (next, some ⟨self.config, seq, timestamp, amountSats, next.state⟩)
      | (.error _, next) => (next, none)
  | .restart config =>
      match new config (self.state.cappedTo config) with
      | .ok next => (next, none)
      | .error _ => (self, none)

def run (self : RateLimiter) : List Event → RateLimiter × List Accepted
  | [] => (self, [])
  | event :: events =>
      let (next, accepted) := self.step event
      let (final, log) := next.run events
      (final, accepted.toList ++ log)

end RateLimiter

end HashiBridge.Guardian
