import HashiBridge.Core.Tob
import HashiBridge.Lib.Run

/-!
# The signing manager of a node

A node holds the presignatures of an epoch in batches of consecutive numbers, and takes one for each
input it signs.
-/

namespace HashiBridge.Mpc

open Lib HashiBridge.Core

abbrev PresigTuple (S G : Type) := List S × G

/-- The group operations and hashes that signing calls. The node's key shares are fixed for the
epoch and part of `generatePartialSignatures`. -/
structure SigningOracle (S G : Type) where
  blake2b256 : Bytes → Bytes
  /-- from the randomness of a seal, a global index, a public nonce and a dealer set digest -/
  presigDelta : Bytes → Nat → G → Bytes → S
  signingDelta : S → S → S
  signingNonceBytes : G → S → Bytes
  /-- from a message, a presignature, a beacon and a derivation address -/
  generatePartialSignatures : Bytes → PresigTuple S G → S → Option Bytes →
    Except String (G × List (Nat × S))

inductive SigningError
  | cryptoError (error : String)
  | poolExhausted
  | requestChanged (signingId : Address)
  | presigBatchNotSealed (batchIndex : Nat)
  | sealDealerSetMismatch (batchIndex : Nat)
  | malformedSealRandomness (batchIndex : Nat)
  | tooManyInvalidSignatures (collected threshold : Nat)
deriving DecidableEq

variable {S G : Type}

/-! ## Batches -/

structure PresigBatch (S G : Type) where
  /-- a slot is emptied when its presignature is taken -/
  pool : List (Option (PresigTuple S G))
  startIndex : Nat
  batchIndex : Nat
  dealerSetDigest : Bytes

namespace PresigBatch

def endIndex (self : PresigBatch S G) : Nat := self.startIndex + self.pool.length

def contains (self : PresigBatch S G) (globalIndex : Nat) : Bool :=
  self.startIndex ≤ globalIndex && globalIndex < self.endIndex

def isFullyConsumed (self : PresigBatch S G) : Bool := self.pool.all Option.isNone

def remaining (self : PresigBatch S G) : Nat := self.pool.countP Option.isSome

/-- The randomness of the batch's seal, which must be over the dealers the batch was built from. -/
def checkSeal (self : PresigBatch S G) (seals : Bag Nat PresigSealV1) :
    Except SigningError Bytes := do
  let presigSeal ← orAbort (seals.lookup self.batchIndex)
    (SigningError.presigBatchNotSealed self.batchIndex)
  require (presigSeal.dealerSetDigest = self.dealerSetDigest)
    (SigningError.sealDealerSetMismatch self.batchIndex)
  require (presigSeal.randomness.length = 32)
    (SigningError.malformedSealRandomness self.batchIndex)
  return presigSeal.randomness

end PresigBatch

structure PrefetchedBatch (S G : Type) where
  batchIndex : Nat
  pool : List (Option (PresigTuple S G))
  dealerSetDigest : Bytes

structure RefillRequest where
  epoch : Nat
  batchIndex : Nat
deriving DecidableEq

/-! ## Requests and their outputs -/

structure SignInput (S : Type) where
  signingId : Address
  message : Bytes
  globalPresigIndex : Nat
  derivationAddress : Option Bytes
  messageDelta : S
  length_lt : message.length < U64_SIZE

def signingRequestBytes (message : Bytes) (derivationAddress : Option Bytes) : Bytes :=
  toLittleEndian 8 message.length ++ message ++
    match derivationAddress with
    | some a => 1 :: a
    | none => [0]

def signingRequestDigest (oracle : SigningOracle S G) (message : Bytes)
    (derivationAddress : Option Bytes) : Bytes :=
  oracle.blake2b256 (signingRequestBytes message derivationAddress)

structure PartialSigningOutput (S G : Type) where
  publicNonce : G
  presigDelta : S
  signingNonceBytes : Bytes
  requestDigest : Bytes
  partialSigs : List (Nat × S)

def PartialSigningOutput.new (oracle : SigningOracle S G) (publicNonce : G) (messageDelta : S)
    (presigDelta : S) (message : Bytes) (derivationAddress : Option Bytes)
    (partialSigs : List (Nat × S)) : PartialSigningOutput S G where
  publicNonce := publicNonce
  presigDelta := presigDelta
  signingNonceBytes :=
    oracle.signingNonceBytes publicNonce (oracle.signingDelta messageDelta presigDelta)
  requestDigest := signingRequestDigest oracle message derivationAddress
  partialSigs := partialSigs

structure LocalPartials (S G : Type) where
  publicNonce : G
  partialSigs : List (Nat × S)
  beacon : S
  nonce : Bytes

structure Taken (S G : Type) where
  input : SignInput S
  presig : PresigTuple S G
  randomness : Bytes
  dealerSetDigest : Bytes
  batchIndex : Nat
  position : Nat

inductive CacheOrPresig (S G : Type)
  | cached (existing : PartialSigningOutput S G)
  | presig (taken : Taken S G)

/-! ## The manager -/

structure SigningManager (S G : Type) where
  epoch : Nat
  refillDivisor : Nat
  batches : List (PresigBatch S G)
  partialSigningOutputs : Bag Address (PartialSigningOutput S G)
  nextBatch : Option (PrefetchedBatch S G)
  refill : RefillRequest

/-- A reconstructed batch: its presignatures, number, first index and dealers. -/
structure RetainedBatch (S G : Type) where
  presignatures : List (PresigTuple S G)
  batchIndex : Nat
  startIndex : Nat
  dealerSetDigest : Bytes

namespace SigningManager

def new (epoch refillDivisor : Nat) (presignatures : List (PresigTuple S G))
    (dealerSetDigest : Bytes) (batchIndex batchStartIndex : Nat) (refill : RefillRequest) :
    SigningManager S G where
  epoch := epoch
  refillDivisor := refillDivisor
  batches := [⟨presignatures.map some, batchStartIndex, batchIndex, dealerSetDigest⟩]
  partialSigningOutputs := ∅
  nextBatch := none
  refill := refill

/-- A recovered slot is filled where its index is pending or not consumed yet. -/
def enabled (numConsumed : Nat) (pending : Finset Nat) (global : Nat) : Bool :=
  numConsumed ≤ global || global ∈ pending

def recoverBatch (numConsumed : Nat) (pending : Finset Nat) (retained : RetainedBatch S G) :
    PresigBatch S G where
  pool := retained.presignatures.zipIdx.map fun (presig, i) =>
    if enabled numConsumed pending (retained.startIndex + i) then some presig else none
  startIndex := retained.startIndex
  batchIndex := retained.batchIndex
  dealerSetDigest := retained.dealerSetDigest

def coveredPending (pending : Finset Nat) (retained : RetainedBatch S G) : Nat :=
  (List.range retained.presignatures.length).countP fun i => retained.startIndex + i ∈ pending

def newRecovered (epoch refillDivisor : Nat) (retained : List (RetainedBatch S G))
    (numConsumed : Nat) (pending : Finset Nat) (refill : RefillRequest) :
    Except String (SigningManager S G) := do
  let covered := (retained.map (coveredPending pending)).sum
  let total := pending.card
  require (covered = pending.card)
    s!"recovered signing manager covers {covered} of {total} pending presig indices"
  return { epoch, refillDivisor
           batches := retained.map (recoverBatch numConsumed pending)
           partialSigningOutputs := ∅
           nextBatch := none
           refill }

def batchIndex (self : SigningManager S G) : Nat :=
  (self.batches.getLast?.map PresigBatch.batchIndex).getD 0

def requestRefill (self : SigningManager S G) (batchIndex : Nat) : SigningManager S G :=
  { self with refill := ⟨self.epoch, batchIndex⟩ }

/-- A result that is not newer than the latest batch is discarded. -/
def setNextBatch (self : SigningManager S G) (batchIndex : Nat)
    (presignatures : List (PresigTuple S G)) (dealerSetDigest : Bytes) : SigningManager S G :=
  if self.batches.getLast?.any fun latest => batchIndex ≤ latest.batchIndex then self
  else { self with nextBatch := some ⟨batchIndex, presignatures.map some, dealerSetDigest⟩ }

def availablePresigEndIndex (self : SigningManager S G) : Nat :=
  let batchEnd := (self.batches.getLast?.map PresigBatch.endIndex).getD 0
  match self.nextBatch with
  | some next => if next.batchIndex = self.batchIndex + 1 then batchEnd + next.pool.length
      else batchEnd
  | none => batchEnd

/-! ## Taking a presignature -/

/-- Install the prefetched batch after the latest one if its number is the next. -/
def advance (self : SigningManager S G) : SigningManager S G :=
  match self.batches.getLast?, self.nextBatch with
  | some latest, some next =>
      if next.batchIndex = latest.batchIndex + 1 then
        { self with
          nextBatch := none
          batches := self.batches ++
            [⟨next.pool, latest.endIndex, latest.batchIndex + 1, next.dealerSetDigest⟩] }
      else if next.batchIndex < latest.batchIndex + 1 then { self with nextBatch := none }
      else self.requestRefill (latest.batchIndex + 1)
  | _, _ => self

def position (self : SigningManager S G) (globalIndex : Nat) : Option Nat :=
  self.batches.findIdx? fun b => b.contains globalIndex

/-- Fully consumed batches are dropped from the front; the last one anchors the next. -/
def prune : List (PresigBatch S G) → List (PresigBatch S G)
  | b :: b' :: rest => if b.isFullyConsumed then prune (b' :: rest) else b :: b' :: rest
  | batches => batches

def refillIfLow (self : SigningManager S G) : SigningManager S G :=
  match self.batches.getLast? with
  | some latest =>
      if latest.remaining ≤ latest.pool.length / self.refillDivisor then
        self.requestRefill (latest.batchIndex + 1)
      else self
  | none => self

def takeSlot (self : SigningManager S G) (b : Nat) (batch : PresigBatch S G) (position : Nat) :
    SigningManager S G :=
  { self with batches := self.batches.set b { batch with pool := batch.pool.set position none } }

/-- Take the presignature of an input from the batch that covers it. -/
def takeFrom (self : SigningManager S G) (b : Nat) (batch : PresigBatch S G) (input : SignInput S)
    (seals : Bag Nat PresigSealV1) : Except SigningError (Taken S G) × SigningManager S G :=
  match batch.checkSeal seals with
  | .error e => (.error e, self)
  | .ok randomness =>
      let position := input.globalPresigIndex - batch.startIndex
      match batch.pool[position]? with
      | some (some presig) =>
          let self := (self.takeSlot b batch position).refillIfLow
          (.ok { input, presig, randomness, position
                 dealerSetDigest := batch.dealerSetDigest, batchIndex := batch.batchIndex },
            { self with batches := prune self.batches })
      | _ => (.error .poolExhausted, self)

def takePresig (self : SigningManager S G) (input : SignInput S) (seals : Bag Nat PresigSealV1) :
    Except SigningError (CacheOrPresig S G) × SigningManager S G :=
  match self.partialSigningOutputs.lookup input.signingId with
  | some existing => (.ok (.cached existing), self)
  | none =>
      let self := if (self.position input.globalPresigIndex).isSome then self else self.advance
      match self.position input.globalPresigIndex with
      | none =>
          (.error .poolExhausted,
            if self.nextBatch.isNone then self.requestRefill (self.batchIndex + 1) else self)
      | some b =>
          match self.batches[b]? with
          | none => (.error .poolExhausted, self)
          | some batch =>
              let (taken, self) := self.takeFrom b batch input seals
              (taken.map .presig, self)

/-! ## After the first lock -/

/-- A cached output is returned only for the request it was computed for. -/
def replyCached (oracle : SigningOracle S G) (input : SignInput S)
    (existing : PartialSigningOutput S G) : Except SigningError (LocalPartials S G) := do
  let digest := signingRequestDigest oracle input.message input.derivationAddress
  let beacon := oracle.signingDelta input.messageDelta existing.presigDelta
  let nonce := oracle.signingNonceBytes existing.publicNonce beacon
  require (existing.requestDigest = digest ∧ existing.signingNonceBytes = nonce)
    (SigningError.requestChanged input.signingId)
  return ⟨existing.publicNonce, existing.partialSigs, beacon, nonce⟩

def generate (oracle : SigningOracle S G) (self : SigningManager S G) (taken : Taken S G) :
    Except SigningError (LocalPartials S G) × SigningManager S G :=
  let input := taken.input
  let presigDelta := oracle.presigDelta taken.randomness input.globalPresigIndex taken.presig.2
    taken.dealerSetDigest
  let beacon := oracle.signingDelta input.messageDelta presigDelta
  match oracle.generatePartialSignatures input.message taken.presig beacon
      input.derivationAddress with
  | .error e => (.error (.cryptoError e), self)
  | .ok (publicNonce, partialSigs) =>
      let output := PartialSigningOutput.new oracle publicNonce input.messageDelta presigDelta
        input.message input.derivationAddress partialSigs
      (.ok ⟨publicNonce, partialSigs, beacon, output.signingNonceBytes⟩,
        { self with
          partialSigningOutputs := self.partialSigningOutputs.insert input.signingId output })

end SigningManager

/-! ## Concurrent calls -/

structure World (S G : Type) where
  manager : SigningManager S G
  inFlight : List (Taken S G)

inductive Label (S G : Type)
  /-- a call that ends before any presignature is used -/
  | reply (input : SignInput S) (seals : Bag Nat PresigSealV1)
      (result : Except SigningError (LocalPartials S G))
  | take (taken : Taken S G) (seals : Bag Nat PresigSealV1)
  | generate (taken : Taken S G) (result : Except SigningError (LocalPartials S G))
  | setNextBatch (batchIndex : Nat) (presignatures : List (PresigTuple S G))
      (dealerSetDigest : Bytes)

inductive Step (oracle : SigningOracle S G) : World S G → Label S G → World S G → Prop
  | refused {w input seals e manager} (h : w.manager.takePresig input seals = (.error e, manager)) :
      Step oracle w (.reply input seals (.error e)) { w with manager }
  | cached {w input seals existing manager}
      (h : w.manager.takePresig input seals = (.ok (.cached existing), manager)) :
      Step oracle w (.reply input seals (SigningManager.replyCached oracle input existing))
        { w with manager }
  | take {w input seals taken manager}
      (h : w.manager.takePresig input seals = (.ok (.presig taken), manager)) :
      Step oracle w (.take taken seals) ⟨manager, taken :: w.inFlight⟩
  | generate {w taken before after result manager} (hin : w.inFlight = before ++ taken :: after)
      (h : w.manager.generate oracle taken = (result, manager)) :
      Step oracle w (.generate taken result) ⟨manager, before ++ after⟩
  | setNextBatch {w batchIndex presignatures dealerSetDigest} :
      Step oracle w (.setNextBatch batchIndex presignatures dealerSetDigest)
        { w with manager := w.manager.setNextBatch batchIndex presignatures dealerSetDigest }

/-- The presignatures that a run hands to the generation of partial signatures. -/
def handedOver (tr : List (Label S G)) : List (Taken S G) :=
  tr.filterMap fun
    | .generate taken _ => some taken
    | _ => none

end HashiBridge.Mpc
