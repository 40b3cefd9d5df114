import HashiBridge.Lib.Bag

/-!
# Collecting the signatures of a withdrawal's inputs

The leader asks every committee member for the signatures of a chunk of inputs.
-/

namespace HashiBridge.Node

open Lib

structure SignWithdrawalTransactionPartial where
  inputIndex : Nat
  signature : List UInt8

structure Schnorr where
  Signature : Type
  PublicKey : Type
  fromByteArray : List UInt8 → Except String Signature
  verify : PublicKey → List UInt8 → Signature → Bool

variable (S : Schnorr)

/-! ## One member's stream -/

inductive CollectOutcome
  | ignored
  | recorded
  | complete
deriving DecidableEq

/-- The signatures of one member, for the requested inputs only. -/
structure ExpectedSignatureCollector where
  expected : Finset Nat
  collected : Bag Nat S.Signature

namespace ExpectedSignatureCollector

variable {S}

def new (expectedIndices : List Nat) : ExpectedSignatureCollector S :=
  ⟨expectedIndices.toFinset, ∅⟩

def isComplete (self : ExpectedSignatureCollector S) : Bool :=
  self.collected.keys.card = self.expected.card

def parse (idx : Nat) (signature : List UInt8) : Except String S.Signature :=
  if signature.length ≠ 64 then
    .error s!"returned invalid signature length for input_index {idx}"
  else
    match S.fromByteArray signature with
    | .ok sig => .ok sig
    | .error e => .error s!"returned invalid signature for input_index {idx}: {e}"

/-- Record one streamed signature. An index that was not requested is ignored before its signature
is read; an error leaves the collector as it is. -/
def record (self : ExpectedSignatureCollector S) (idx : Nat) (signature : List UInt8) :
    Except String (CollectOutcome × ExpectedSignatureCollector S) := do
  if idx ∉ self.expected then
    return (.ignored, self)
  if idx ∈ self.collected then
    throw s!"returned duplicate input_index {idx}"
  let sig ← parse idx signature
  let self := { self with collected := self.collected.insert idx sig }
  return (if self.isComplete then .complete else .recorded, self)

def intoCollected (self : ExpectedSignatureCollector S) : List (Nat × S.Signature) :=
  (Iteration.sorted (· ≤ ·)).entries self.collected

/-- Read the stream to its end, to its first error or to the last requested signature. -/
def readStream (self : ExpectedSignatureCollector S) :
    List (Except String SignWithdrawalTransactionPartial) → ExpectedSignatureCollector S
  | [] => self
  | .error _ :: _ => self
  | .ok item :: stream =>
      match self.record item.inputIndex item.signature with
      | .ok (.complete, self) => self
      | .ok (_, self) => self.readStream stream
      | .error _ => self.readStream stream

end ExpectedSignatureCollector

def collectMemberSignatures (stream : List (Except String SignWithdrawalTransactionPartial))
    (expectedIndices : List Nat) : List (Nat × S.Signature) :=
  ((ExpectedSignatureCollector.new expectedIndices).readStream stream).intoCollected

/-! ## The union over the members -/

section Union

variable {S} (expected : Finset Nat) (verify : Nat → S.Signature → Bool)

def mergeCandidate (union : Bag Nat S.Signature) (candidate : Nat × S.Signature) :
    Bag Nat S.Signature :=
  if candidate.1 ∉ expected ∨ candidate.1 ∈ union then union
  else if verify candidate.1 candidate.2 then union.insert candidate.1 candidate.2
  else union

def mergeIntoUnion (union : Bag Nat S.Signature) (candidates : List (Nat × S.Signature)) :
    Bag Nat S.Signature × Bool :=
  let union := candidates.foldl (mergeCandidate expected verify) union
  (union, union.keys.card = expected.card)

def mergeResults (union : Bag Nat S.Signature) :
    List (Except String (List (Nat × S.Signature))) → Bag Nat S.Signature
  | [] => union
  | .error _ :: results => mergeResults union results
  | .ok candidates :: results =>
      match mergeIntoUnion expected verify union candidates with
      | (union, true) => union
      | (union, false) => mergeResults union results

end Union

abbrev MemberResponse := Except String (List (Except String SignWithdrawalTransactionPartial))

structure VerifyEnv where
  inputVerifyingKey : Nat → Except String S.PublicKey
  signingMessages : List (List UInt8)

/-- The check of a candidate: its input needs a key, derived for the requested ones, and a message. -/
def VerifyEnv.verifies {S : Schnorr} (env : VerifyEnv S) (expectedIndices : List Nat) (idx : Nat)
    (sig : S.Signature) : Bool :=
  let key := if idx ∈ expectedIndices then (env.inputVerifyingKey idx).toOption else none
  match key, env.signingMessages[idx]? with
  | some pk, some msg => S.verify pk msg sig
  | _, _ => false

def signatureUnion (env : VerifyEnv S) (expectedIndices : List Nat) (responses : List MemberResponse) :
    Bag Nat S.Signature :=
  mergeResults expectedIndices.toFinset (env.verifies expectedIndices) ∅
    (responses.map fun response =>
      response.map fun stream => collectMemberSignatures S stream expectedIndices)

def collectWithdrawalTxSignatures (env : VerifyEnv S) (expectedIndices : List Nat)
    (responses : List MemberResponse) : Option (List (Nat × S.Signature)) :=
  let union := signatureUnion S env expectedIndices responses
  if union.keys = ∅ then none else some ((Iteration.sorted (· ≤ ·)).entries union)

end HashiBridge.Node
