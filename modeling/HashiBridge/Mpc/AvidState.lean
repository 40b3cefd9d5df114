import HashiBridge.Lib.Retain
import HashiBridge.Mpc.Certificates

/-!
# Nonce state per dealer

A node keeps five maps of nonce state, by batch index and dealer. A dealer chooses its batch
indices, so every insertion caps how many of them the maps hold for it together.
-/

namespace HashiBridge.Mpc

open Lib HashiBridge.Core

def PRUNE_KEEP_RECENT_BATCHES : Nat := 2
def AVID_UNPROTECTED_INDICES_PER_DEALER : Nat := 4

abbrev MessagesHash := Bytes

abbrev NonceKey := Nat × Address

inductive ComplaintResponsesKey
  | dkg (dealer : Address)
  | rotation (dealer : Address) (shareIndex : Nat)
  | nonceGeneration (batchIndex : Nat) (dealer : Address)
deriving DecidableEq

structure AvidTypes where
  Common : Type
  Ciphertext : Type
  VerifiedCommon : Type
  HeldEchoes : Type
  Output : Type
  Response : Type

variable {T : AvidTypes}

structure AvssMessage (T : AvidTypes) where
  common : T.Common
  ciphertext : T.Ciphertext

structure AvidRoundState (T : AvidTypes) where
  common : T.Common
  ownCiphertext : T.Ciphertext

structure TaggedAvidOutput (T : AvidTypes) where
  output : T.Output
  commonHash : MessagesHash
  certDigest : Option MessagesHash

structure AvidEnv (T : AvidTypes) where
  committee : Node.Committee
  commonHash : T.Common → MessagesHash
  processAvssMessage : NonceKey → AvssMessage T → Except MpcError (T.Output × T.VerifiedCommon)

/-- The five maps, and the number of running party phases by batch index. -/
structure AvidState (T : AvidTypes) where
  currentAvidRoundState : Bag NonceKey (AvidRoundState T)
  currentAvidVerifiedCommon : Bag NonceKey T.VerifiedCommon
  avidHeldEchoes : Bag NonceKey T.HeldEchoes
  complaintResponses : Bag ComplaintResponsesKey T.Response
  dealerAvidNonceOutputs : Bag NonceKey (TaggedAvidOutput T)
  avidPartyPhases : Bag Nat Nat

namespace AvidState

def new : AvidState T := ⟨∅, ∅, ∅, ∅, ∅, ∅⟩

/-! ## Party phases -/

def beginAvidPartyPhase (self : AvidState T) (batchIndex : Nat) : AvidState T :=
  let running := (self.avidPartyPhases.lookup batchIndex).getD 0
  { self with avidPartyPhases := self.avidPartyPhases.insert batchIndex (running + 1) }

def endAvidPartyPhase (self : AvidState T) (batchIndex : Nat) : AvidState T :=
  match self.avidPartyPhases.lookup batchIndex with
  | none => self
  | some running =>
      if running - 1 = 0 then
        { self with avidPartyPhases := self.avidPartyPhases.erase batchIndex }
      else
        { self with avidPartyPhases := self.avidPartyPhases.insert batchIndex (running - 1) }

/-! ## The cap -/

def avidIndexProtected (self : AvidState T) (batchIndex : Nat) (dealer : Address) : Bool :=
  (self.avidPartyPhases.lookup batchIndex).isSome ||
    (self.dealerAvidNonceOutputs.lookup (batchIndex, dealer)).any fun output =>
      output.certDigest.isSome

def indicesOf (keys : Finset NonceKey) (dealer : Address) : Finset Nat :=
  (keys.filter fun key => key.2 = dealer).image Prod.fst

def complaintKeys (self : AvidState T) : Finset NonceKey :=
  (self.complaintResponses.keys.image fun key =>
    match key with
    | .nonceGeneration batchIndex dealer => some (batchIndex, dealer)
    | _ => none).eraseNone

def heldIndices (self : AvidState T) (dealer : Address) : Finset Nat :=
  indicesOf self.currentAvidRoundState.keys dealer ∪
    indicesOf self.currentAvidVerifiedCommon.keys dealer ∪
    indicesOf self.dealerAvidNonceOutputs.keys dealer ∪
    indicesOf self.avidHeldEchoes.keys dealer ∪ indicesOf self.complaintKeys dealer

def unprotectedIndices (self : AvidState T) (dealer : Address) : Finset Nat :=
  (self.heldIndices dealer).filter fun batchIndex => self.avidIndexProtected batchIndex dealer = false

def evictAvidIndex (self : AvidState T) (batchIndex : Nat) (dealer : Address) : AvidState T :=
  let key := (batchIndex, dealer)
  { self with
    currentAvidRoundState := self.currentAvidRoundState.erase key
    currentAvidVerifiedCommon := self.currentAvidVerifiedCommon.erase key
    dealerAvidNonceOutputs := self.dealerAvidNonceOutputs.erase key
    avidHeldEchoes := self.avidHeldEchoes.erase key
    complaintResponses := self.complaintResponses.erase (.nonceGeneration batchIndex dealer) }

def capAvidDealerState (self : AvidState T) (dealer : Address) (inserted : Nat) : AvidState T :=
  let unprotected := self.unprotectedIndices dealer
  let excess := unprotected.card - AVID_UNPROTECTED_INDICES_PER_DEALER
  ((unprotected.erase inserted).sort.take excess).foldl
    (fun state evicted => state.evictAvidIndex evicted dealer) self

/-! ## Insertions -/

/-- The certificate of a cached output, which must be over the same common message. -/
def cachedCertDigest (self : AvidState T) (dealer : Address) (batchIndex : Nat)
    (commonHash : MessagesHash) : Except MpcError (Option MessagesHash) :=
  match self.dealerAvidNonceOutputs.lookup (batchIndex, dealer) with
  | some cached =>
      if cached.commonHash = commonHash then .ok cached.certDigest
      else .error (.invalidMessage dealer "this node already holds an output over a different common")
  | none => .ok none

/-- Process a dealer's round-1 message; `stored` is the answer of the store. -/
def trySignAvidNonceOptimistic (env : AvidEnv T) (stored : Except String Unit) (self : AvidState T)
    (dealer : Address) (batchIndex : Nat) (message : AvssMessage T) :
    Except MpcError (AvidState T) := do
  require (indexOf env.committee dealer).isSome
    (MpcError.invalidMessage dealer "Dealer not in committee")
  let commonHash := env.commonHash message.common
  let certDigest ← self.cachedCertDigest dealer batchIndex commonHash
  let (output, verifiedCommon) ← env.processAvssMessage (batchIndex, dealer) message
  stored.mapError .storageError
  let cached := { self with
    currentAvidRoundState := self.currentAvidRoundState.insert (batchIndex, dealer)
      ⟨message.common, message.ciphertext⟩
    dealerAvidNonceOutputs := self.dealerAvidNonceOutputs.insert (batchIndex, dealer)
      ⟨output, commonHash, certDigest⟩
    currentAvidVerifiedCommon :=
      self.currentAvidVerifiedCommon.insert (batchIndex, dealer) verifiedCommon }
  return cached.capAvidDealerState dealer batchIndex

def persistAndCacheAvidHeldEchoes (stored : Except String Unit) (self : AvidState T)
    (batchIndex : Nat) (dealer : Address) (held : T.HeldEchoes) : Except MpcError (AvidState T) := do
  stored.mapError .storageError
  let cached := { self with avidHeldEchoes := self.avidHeldEchoes.insert (batchIndex, dealer) held }
  return cached.capAvidDealerState dealer batchIndex

def getAvidRoundState (read : Except MpcError (Option (AvidRoundState T))) (self : AvidState T)
    (batchIndex : Nat) (dealer : Address) : Except MpcError (Option (AvidRoundState T)) :=
  match self.currentAvidRoundState.lookup (batchIndex, dealer) with
  | some state => .ok (some state)
  | none => read

/-- The verified common message of a round, recomputed and cached where it is missing. -/
def avidRoundVerifiedCommon (env : AvidEnv T) (read : Except MpcError (Option (AvidRoundState T)))
    (self : AvidState T) (dealer : Address) (batchIndex : Nat) :
    Except MpcError (AvidState T × T.VerifiedCommon) :=
  match self.currentAvidVerifiedCommon.lookup (batchIndex, dealer) with
  | some verified => .ok (self, verified)
  | none => do
      let state ← orAbort (← self.getAvidRoundState read batchIndex dealer)
        (.notReady "no verified common message for this AVID round")
      let (_, verifiedCommon) ← env.processAvssMessage (batchIndex, dealer)
        ⟨state.common, state.ownCiphertext⟩
      let cached := { self with
        currentAvidVerifiedCommon :=
          self.currentAvidVerifiedCommon.insert (batchIndex, dealer) verifiedCommon }
      return (cached.capAvidDealerState dealer batchIndex, verifiedCommon)

/-- Cache an output that was decoded from echoes or recovered by a complaint; it is not certified. -/
def insertAvidOutput (self : AvidState T) (dealer : Address) (batchIndex : Nat) (output : T.Output)
    (commonHash : MessagesHash) : AvidState T :=
  let cached := { self with
    dealerAvidNonceOutputs :=
      self.dealerAvidNonceOutputs.insert (batchIndex, dealer) ⟨output, commonHash, none⟩ }
  cached.capAvidDealerState dealer batchIndex

def cacheComplaintResponse (self : AvidState T) (key : ComplaintResponsesKey) (response : T.Response) :
    AvidState T :=
  let cached := { self with complaintResponses := self.complaintResponses.insert key response }
  match key with
  | .nonceGeneration batchIndex dealer => cached.capAvidDealerState dealer batchIndex
  | _ => cached

/-! ## Certificates and pruning -/

def certifyAvidOutput (self : AvidState T) (dealer : Address) (batchIndex : Nat)
    (digest : MessagesHash) : AvidState T :=
  match self.dealerAvidNonceOutputs.lookup (batchIndex, dealer) with
  | none => self
  | some cached =>
      { self with
        dealerAvidNonceOutputs := self.dealerAvidNonceOutputs.insert (batchIndex, dealer)
          { cached with certDigest := some digest } }

def consumeCertifiedNonceOutputs (self : AvidState T) (batchIndex : Nat) (certified : List Address) :
    AvidState T :=
  { self with
    dealerAvidNonceOutputs := self.dealerAvidNonceOutputs.retain fun key output =>
      key.1 ≠ batchIndex || (certified.contains key.2 && output.certDigest.isSome) }

def pruneNonceState (self : AvidState T) (batchIndex : Nat) : AvidState T :=
  let cutoff := batchIndex - (PRUNE_KEEP_RECENT_BATCHES - 1)
  if cutoff = 0 then self
  else
    { self with
      currentAvidRoundState := self.currentAvidRoundState.retain fun key _ => cutoff ≤ key.1
      currentAvidVerifiedCommon := self.currentAvidVerifiedCommon.retain fun key _ => cutoff ≤ key.1
      dealerAvidNonceOutputs := self.dealerAvidNonceOutputs.retain fun key _ => cutoff ≤ key.1
      avidHeldEchoes := self.avidHeldEchoes.retain fun key _ => cutoff ≤ key.1
      complaintResponses := self.complaintResponses.retain fun key _ =>
        match key with
        | .nonceGeneration batchIndex _ => cutoff ≤ batchIndex
        | _ => true }

def finishAvidPartyPhase (self : AvidState T) (batchIndex : Nat) (certified : List Address) :
    AvidState T :=
  (self.endAvidPartyPhase batchIndex).consumeCertifiedNonceOutputs batchIndex certified

end AvidState

end HashiBridge.Mpc
