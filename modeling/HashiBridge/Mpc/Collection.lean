import HashiBridge.Mpc.Finalize

/-!
# Collecting partial signatures from peers

A poll round asks the peers that an input still waits for. Each answer holds one list of partials
for every signing id, and the list is merged into the input once it has passed the checks.
-/

namespace HashiBridge.Mpc

open Lib HashiBridge.Core

variable {S G ε : Type}

def POINT_SIZE_IN_BYTES : Nat := 33

structure GetPartialSignaturesResponse (S : Type) where
  partialSigs : List (Address × List (Eval S))
  signingNonces : Bag Address Bytes

/-- How the nonce that a peer reports for an input compares with the local one. -/
inductive NonceReport
  | unusable
  | differs
  | accepted
deriving DecidableEq

/-- A peer that reports nonces at all has to report one for every input. -/
def nonceReport (signingNonces : Bag Address Bytes) (signingId : Address)
    (signingNonceBytes : Bytes) : NonceReport :=
  match signingNonces.lookup signingId with
  | some nonce =>
      if nonce.length ≠ POINT_SIZE_IN_BYTES then .unusable
      else if nonce ≠ signingNonceBytes then .differs
      else .accepted
  | none => if signingNonces ≠ ∅ then .unusable else .accepted

def positions (pending : List (InputSigningState S G)) : Bag Address Nat :=
  (pending.map InputSigningState.signingId).zipIdx.foldl
    (fun index entry => index.insert entry.1 entry.2) ∅

variable (config : SigningEpochConfig G)

def InputSigningState.answer (peer : Address) (signingNonces : Bag Address Bytes)
    (sigs : List (Eval S)) (self : InputSigningState S G) : InputSigningState S G :=
  let self := { self with peersRemaining := self.peersRemaining.erase peer }
  match nonceReport signingNonces self.signingId self.signingNonceBytes with
  | .unusable | .differs => self
  | .accepted =>
      match config.overOwnedCount peer sigs with
      | some _ => self
      | none => { self with partials := self.partials ++ (config.retainOwned peer sigs).1 }

structure Round (S G : Type) where
  pending : List (InputSigningState S G)
  /-- whether any partial was merged -/
  progressed : Bool

def Round.mergeList (index : Bag Address Nat) (peer : Address) (signingNonces : Bag Address Bytes)
    (self : Round S G) (entry : Address × List (Eval S)) : Round S G :=
  match index.lookup entry.1 with
  | none => self
  | some i =>
      match self.pending[i]? with
      | none => self
      | some st =>
          if peer ∈ st.peersRemaining then
            let st' := st.answer config peer signingNonces entry.2
            { pending := self.pending.set i st'
              progressed := self.progressed || decide (st.partials.length < st'.partials.length) }
          else self

def Round.mergeResponse (index : Bag Address Nat) (peer : Address)
    (response : GetPartialSignaturesResponse S) (self : Round S G) : Round S G :=
  response.partialSigs.foldl (Round.mergeList config index peer response.signingNonces) self

/-- The answers of a round in the order they arrive, up to the deadline. The round ends early once
every input can be tried or waits for nobody. -/
def Round.mergeArrivals (flagged : Finset Nat) (index : Bag Address Nat) :
    List (Address × Except ε (GetPartialSignaturesResponse S)) → Round S G → Round S G
  | [], self => self
  | (_, .error _) :: arrivals, self => mergeArrivals flagged index arrivals self
  | (peer, .ok response) :: arrivals, self =>
      let self := self.mergeResponse config index peer response
      if self.pending.all fun st =>
          st.peersRemaining = ∅ ∨ st.canAttempt config.threshold flagged then self
      else mergeArrivals flagged index arrivals self

def collectPartialSigsFromPeers (flagged : Finset Nat)
    (arrivals : List (Address × Except ε (GetPartialSignaturesResponse S)))
    (pending : List (InputSigningState S G)) : Round S G :=
  Round.mergeArrivals config flagged (positions pending) arrivals ⟨pending, false⟩

end HashiBridge.Mpc
