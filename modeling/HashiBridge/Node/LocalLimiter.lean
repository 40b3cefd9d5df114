import HashiBridge.Guardian.Limiter

/-!
# The node's copy of the guardian's limiter

A node mirrors the guardian's token bucket and advances it for every signed withdrawal. It takes
over the guardian's policy, and its state where the two project different capacities.
-/

namespace HashiBridge.Node

open Lib HashiBridge.Core Guardian

structure LimiterView where
  config : LimiterConfig
  state : LimiterState
deriving DecidableEq

inductive LocalLimiterError
  | staleTimestamp (localLast incoming : Nat)
  | insufficientCapacity (needed available : Nat)
  | seqMismatch (expected incoming : UInt64)
deriving DecidableEq

namespace LimiterView

def capacityAt (self : LimiterView) (timestampSecs : Nat) : Nat :=
  self.state.capacityAt self.config timestampSecs

def validateConsume (self : LimiterView) (expectedSeq : UInt64) (timestampSecs amountSats : Nat) :
    Except LocalLimiterError Unit := do
  require (expectedSeq = self.state.nextSeq)
    (LocalLimiterError.seqMismatch self.state.nextSeq expectedSeq)
  require (self.state.lastUpdatedAt ≤ timestampSecs)
    (LocalLimiterError.staleTimestamp self.state.lastUpdatedAt timestampSecs)
  let capacity := self.capacityAt timestampSecs
  require (amountSats ≤ capacity) (LocalLimiterError.insufficientCapacity amountSats capacity)

def applyConsume (appliedSeq : UInt64) (timestampSecs amountSats : Nat) :
    Method LocalLimiterError LimiterView Unit := do
  let self ← get
  let ⟨_, lastUpdatedAt, nextSeq⟩ := self.state
  if appliedSeq ≠ nextSeq then
    throw (.seqMismatch nextSeq appliedSeq)
  if timestampSecs < lastUpdatedAt then
    throw (.staleTimestamp lastUpdatedAt timestampSecs)
  let capacity := self.capacityAt timestampSecs
  if capacity < amountSats then
    throw (.insufficientCapacity amountSats capacity)
  set { self with state := ⟨capacity - amountSats, timestampSecs, nextSeq + 1⟩ }

/-- Take a policy over. The answer is the policy it replaces, where the two differ. -/
def adoptConfig (self : LimiterView) (config : LimiterConfig) :
    Option LimiterConfig × LimiterView :=
  if self.config = config then (none, self)
  else (some self.config, { config, state := self.state.cappedTo config })

/-- Take the guardian's state over where it projects another capacity at the later of the two
times. Nothing is done while the sequence numbers differ. -/
def reconcileTokenDrift (self : LimiterView) (state : LimiterState) : Bool × LimiterView :=
  if self.state.nextSeq ≠ state.nextSeq then (false, self)
  else
    let common := max self.state.lastUpdatedAt state.lastUpdatedAt
    if self.capacityAt common = state.capacityAt self.config common then (false, self)
    else (true, { self with state })

end LimiterView

end HashiBridge.Node
