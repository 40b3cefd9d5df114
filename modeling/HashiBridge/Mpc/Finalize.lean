import HashiBridge.Mpc.Signing

/-!
# Aggregation of the partial signatures of pending inputs

An input is tried on the first partials, on the first unflagged ones, on all and on all unflagged
ones. Five fields of its state remember earlier failures and gate the next attempts.
-/

namespace HashiBridge.Mpc

open Lib HashiBridge.Core

variable {S G Sig : Type}

structure Eval (S : Type) where
  index : Nat
  value : S
deriving DecidableEq

/-- Which share indices disagreed with a recovered polynomial, and whether their owners can be
blamed. -/
inductive Blame
  | nobody
  | certain (indices : List Nat)
  | inconclusive (indices : List Nat)
deriving DecidableEq

inductive FastCryptoError
  | invalidSignature
  | inconsistentInputs
  | other (message : String)
deriving DecidableEq

structure AggregationContext (S G : Type) where
  message : Bytes
  nonce : G
  beacon : S
  vk : G
  deriv : Option Bytes
  threshold : Nat

abbrev Aggregation (S G Sig : Type) :=
  AggregationContext S G → List (Eval S) → Except FastCryptoError (Sig × Blame)

/-! ## The committee's shares -/

structure SigningEpochConfig (G : Type) where
  address : Address
  threshold : Nat
  verifyingKey : G
  shareOwners : Bag Nat Address

namespace SigningEpochConfig

def ownedBy (self : SigningEpochConfig G) (owner : Address) : Finset Nat :=
  self.shareOwners.keys.filter fun idx => self.shareOwners.lookup idx = some owner

/-- A list of more partials than its sender owns shares: its length and the number owned. -/
def overOwnedCount (self : SigningEpochConfig G) (peer : Address) (sigs : List (Eval S)) :
    Option (Nat × Nat) :=
  let owned := (self.ownedBy peer).card
  if owned < sigs.length then some (sigs.length, owned) else none

/-- The partials at indices that `peer` owns, the first of each index, and the number dropped. -/
def retainOwned (self : SigningEpochConfig G) (peer : Address) (sigs : List (Eval S)) :
    List (Eval S) × Nat :=
  let kept := (sigs.foldl (fun (acc : List (Eval S) × Finset Nat) e =>
    if self.shareOwners.lookup e.index = some peer ∧ e.index ∉ acc.2 then
      (acc.1 ++ [e], insert e.index acc.2)
    else acc) ([], ∅)).1
  (kept, sigs.length - kept.length)

def mismatched (self : SigningEpochConfig G) (indices : List Nat) : Finset Nat :=
  self.shareOwners.keys.filter fun idx =>
    ∃ blamed ∈ indices, self.shareOwners.lookup blamed = self.shareOwners.lookup idx

def flagMismatched (self : SigningEpochConfig G) (blame : Blame) (flagged : Finset Nat) :
    Bool × Finset Nat :=
  match blame with
  | .nobody => (false, flagged)
  | .certain indices | .inconclusive indices =>
      let flagged' := flagged ∪ self.mismatched indices
      (decide (flagged.card < flagged'.card), flagged')

end SigningEpochConfig

/-! ## An input -/

structure InputSigningState (S G : Type) where
  signingId : Address
  message : Bytes
  publicNonce : G
  derivationAddress : Option Bytes
  signingNonceBytes : Bytes
  beacon : S
  partials : List (Eval S)
  earlyExitFloor : Nat
  /-- peers not yet merged for this input -/
  peersRemaining : Finset Address
  cleanAttempted : Bool
  unflaggedPrefixAttempted : Option (List Nat)
  erasedAttempted : Option (List Nat)
  /-- the partial counts that the next full and erased recovery attempts wait for -/
  requiredFull : Nat
  requiredErased : Nat

def nextRsAttemptAt (threshold n : Nat) : Nat := threshold + 2 * ((n - threshold) / 2 + 1)

namespace InputSigningState

def new (signingId : Address) (message : Bytes) (publicNonce : G) (beacon : S)
    (signingNonceBytes : Bytes) (derivationAddress : Option Bytes) (partials : List (Eval S))
    (earlyExitFloor : Nat) (peersRemaining : Finset Address) : InputSigningState S G :=
  { signingId, message, publicNonce, derivationAddress, signingNonceBytes, beacon, earlyExitFloor
    partials, peersRemaining
    cleanAttempted := false
    unflaggedPrefixAttempted := none
    erasedAttempted := none
    requiredFull := 0
    requiredErased := 0 }

def unflagged (self : InputSigningState S G) (flagged : Finset Nat) : List (Eval S) :=
  self.partials.filter fun e => e.index ∉ flagged

/-- The key of the attempt on the first unflagged partials, where it is due. -/
def unflaggedPrefixKey (self : InputSigningState S G) (t : Nat) (flagged : Finset Nat) :
    Option (List Nat) :=
  let unflagged := self.unflagged flagged
  if self.partials.length < t ∨ unflagged.length < t ∨
      ¬ ∃ e ∈ self.partials.take t, e.index ∈ flagged then none
  else
    let key := (unflagged.take t).map Eval.index
    if self.unflaggedPrefixAttempted ≠ some key then some key else none

def recoveryAttemptable (self : InputSigningState S G) (t : Nat) : Bool :=
  max (t + 2) self.requiredFull ≤ self.partials.length

/-- The count an erased attempt waits for. It is void once an index of the last one is flagged. -/
def erasedGate (self : InputSigningState S G) (key : List Nat) : Nat :=
  match self.erasedAttempted with
  | some prev => if ∃ idx ∈ prev, idx ∉ key then 0 else self.requiredErased
  | none => self.requiredErased

/-- The key of the attempt on all unflagged partials, where it is due. -/
def erasedKey (self : InputSigningState S G) (t : Nat) (flagged : Finset Nat) : Option (List Nat) :=
  let unflagged := self.unflagged flagged
  if self.partials.length ≤ unflagged.length then none
  else
    let key := unflagged.map Eval.index
    if max (t + 2) (self.erasedGate key) ≤ unflagged.length ∧ self.erasedAttempted ≠ some key then
      some key
    else none

def wouldAggregate (self : InputSigningState S G) (t : Nat) (flagged : Finset Nat) : Bool :=
  if self.partials.length < t then false
  else if !self.cleanAttempted then true
  else (self.unflaggedPrefixKey t flagged).isSome || self.recoveryAttemptable t ||
    (self.erasedKey t flagged).isSome

def canAttempt (self : InputSigningState S G) (t : Nat) (flagged : Finset Nat) : Bool :=
  decide (self.earlyExitFloor ≤ self.partials.length) && self.wouldAggregate t flagged

end InputSigningState

/-! ## Trying an input -/

inductive FinalizeOutcome (Sig : Type)
  | done (sig : Sig) (blame : Blame)
  | needMore
  | exhausted
  | failed (error : SigningError)

def concludes : Except FastCryptoError (Sig × Blame) → Option (FinalizeOutcome Sig)
  | .ok (sig, blame) => some (.done sig blame)
  | .error .invalidSignature => none
  | .error .inconsistentInputs => some <| .failed <| .cryptoError <|
      "the presigning tuple, beacon, message, verifying key or derivation address " ++
      "does not match the ones the signers used, so retrying will not help"
  | .error (.other message) => some (.failed (.cryptoError message))

def runStages {σ β : Type} : List (σ → Option β × σ) → σ → Option β × σ
  | [], s => (none, s)
  | stage :: stages, s =>
      match stage s with
      | (some outcome, s') => (some outcome, s')
      | (none, s') => runStages stages s'

section Stages

variable (t : Nat) (flagged : Finset Nat)
  (aggregate : List (Eval S) → Except FastCryptoError (Sig × Blame))

def cleanStage (st : InputSigningState S G) :
    Option (FinalizeOutcome Sig) × InputSigningState S G :=
  if st.cleanAttempted then (none, st)
  else (concludes (aggregate (st.partials.take t)), { st with cleanAttempted := true })

def prefixStage (st : InputSigningState S G) :
    Option (FinalizeOutcome Sig) × InputSigningState S G :=
  match st.unflaggedPrefixKey t flagged with
  | none => (none, st)
  | some key =>
      (concludes (aggregate ((st.unflagged flagged).take t)),
        { st with unflaggedPrefixAttempted := some key })

def fullStage (st : InputSigningState S G) :
    Option (FinalizeOutcome Sig) × InputSigningState S G :=
  if st.recoveryAttemptable t then
    match concludes (aggregate st.partials) with
    | some outcome => (some outcome, st)
    | none => (none, { st with requiredFull := nextRsAttemptAt t st.partials.length })
  else (none, st)

def erasedStage (st : InputSigningState S G) :
    Option (FinalizeOutcome Sig) × InputSigningState S G :=
  match st.erasedKey t flagged with
  | none => (none, st)
  | some key =>
      match concludes (aggregate (st.unflagged flagged)) with
      | some outcome => (some outcome, { st with erasedAttempted := some key })
      | none =>
          (none, { st with
            erasedAttempted := some key
            requiredErased := nextRsAttemptAt t (st.unflagged flagged).length })

end Stages

variable (aggregation : Aggregation S G Sig)

def InputSigningState.context (self : InputSigningState S G) (threshold : Nat) (verifyingKey : G) :
    AggregationContext S G :=
  ⟨self.message, self.publicNonce, self.beacon, verifyingKey, self.derivationAddress, threshold⟩

def tryFinalizeSignature (t : Nat) (verifyingKey : G) (peersExhausted : Bool)
    (flagged : Finset Nat) (st : InputSigningState S G) :
    FinalizeOutcome Sig × InputSigningState S G :=
  let needMoreOrFail := if peersExhausted then .exhausted else .needMore
  if !st.wouldAggregate t flagged then (needMoreOrFail, st)
  else
    let aggregate := aggregation (st.context t verifyingKey)
    let stages := [cleanStage t aggregate, prefixStage t flagged aggregate, fullStage t aggregate,
      erasedStage t flagged aggregate]
    match runStages stages st with
    | (some outcome, st') => (outcome, st')
    | (none, st') => (needMoreOrFail, st')

/-! ## A sweep over the pending inputs -/

def swapRemove {α : Type} (xs : List α) (i : Nat) : List α :=
  match xs.getLast? with
  | none => []
  | some last => (xs.set i last).dropLast

structure Sweep (S G Sig : Type) where
  pending : List (InputSigningState S G)
  i : Nat
  flagged : Finset Nat
  grew : Bool
  exhausted : List Address
  /-- results sent so far -/
  sent : List (Address × Except SigningError Sig)

variable (config : SigningEpochConfig G)

def Sweep.round (self : Sweep S G Sig) : Sweep S G Sig :=
  match self.pending[self.i]? with
  | none => self
  | some st =>
      let (outcome, st') := tryFinalizeSignature aggregation config.threshold config.verifyingKey
        (decide (st.peersRemaining = ∅)) self.flagged st
      let pending := self.pending.set self.i st'
      match outcome with
      | .needMore => { self with pending, i := self.i + 1 }
      | .exhausted =>
          { self with pending, exhausted := self.exhausted ++ [st.signingId], i := self.i + 1 }
      | .done sig blame =>
          let (grew, flagged) := config.flagMismatched blame self.flagged
          { self with
            pending := swapRemove pending self.i
            sent := self.sent ++ [(st.signingId, .ok sig)]
            grew := self.grew || grew
            flagged }
      | .failed e =>
          { self with
            pending := swapRemove pending self.i
            sent := self.sent ++ [(st.signingId, .error e)] }

/-- One pass: every round advances the index or shortens the list, so the loop takes as many rounds
as there are inputs. -/
def sweepPass (pending : List (InputSigningState S G)) (flagged : Finset Nat)
    (sent : List (Address × Except SigningError Sig)) : Sweep S G Sig :=
  (Sweep.round aggregation config)^[pending.length]
    { pending, i := 0, flagged, grew := false, exhausted := [], sent }

structure SweepResult (S G Sig : Type) where
  pending : List (InputSigningState S G)
  flagged : Finset Nat
  sent : List (Address × Except SigningError Sig)

def Sweep.conclude (self : Sweep S G Sig) : SweepResult S G Sig where
  pending := self.pending.filter fun st => st.signingId ∉ self.exhausted
  flagged := self.flagged
  sent := self.sent ++ (self.pending.filter fun st => st.signingId ∈ self.exhausted).map fun st =>
    (st.signingId, .error (.tooManyInvalidSignatures st.partials.length config.threshold))

def finalizeSweep : Nat → List (InputSigningState S G) → Finset Nat →
    List (Address × Except SigningError Sig) → Option (SweepResult S G Sig)
  | 0, _, _, _ => none
  | fuel + 1, pending, flagged, sent =>
      let pass := sweepPass aggregation config pending flagged sent
      if pass.grew then finalizeSweep fuel pass.pending pass.flagged pass.sent
      else some (pass.conclude config)

end HashiBridge.Mpc
