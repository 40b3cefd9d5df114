import HashiBridge.Core.CommitteeSet

/-!
# Committee epochs as a state machine

What a reconfiguration moves: the current epoch, the committees, the stored handoffs, the pending
change and the MPC key. The member registry is left out.
-/

namespace HashiBridge.Core

open Lib

structure EpochState where
  epoch : Nat
  committees : Bag Nat Committee
  handoffs : Bag Nat CommitteeHandoff
  pending : Option PendingEpochChange
  mpcPublicKey : Bytes

def CommitteeSet.epochs (set : CommitteeSet) : EpochState :=
  { epoch := set.epoch, committees := set.committees, handoffs := set.handoffs
    pending := set.pendingEpochChange, mpcPublicKey := set.mpcPublicKey }

inductive EpochOp
  | start (committee : Committee)
  | handoff (cert : CommitteeSignature)
  | finish (mpcPublicKey : Bytes)
  | abort (epoch : Nat)

def EpochOp.activates (now : Nat) : EpochOp → Option Nat
  | finish _ => some now
  | _ => none

/-- The pending epoch that a transition at Sui epoch `now` completes or aborts. -/
def EpochOp.settles (now : Nat) : EpochOp → Option Nat
  | finish _ => some now
  | abort epoch => some epoch
  | _ => none

namespace EpochState

def pendingEpoch (s : EpochState) : Option Nat := s.pending.map PendingEpochChange.epoch

/-- One transition at Sui epoch `now`. `certifies outgoing incoming cert` says that `cert` verified
against the outgoing committee over the incoming one. -/
inductive Step (certifies : Committee → Committee → CommitteeSignature → Prop) (now : Nat) :
    EpochState → EpochOp → EpochState → Prop
  | start {s committee} : s.pending = none → committee.epoch = now → now ∉ s.committees →
      (s.epoch = 0 ∨ s.epoch ≠ now) →
      Step certifies now s (.start committee) { s with
        committees := s.committees.insert now committee, pending := some ⟨now, none⟩ }
  | handoff {s cert outgoing incoming} : s.pending = some ⟨now, none⟩ → s.mpcPublicKey ≠ [] →
      s.committees.lookup s.epoch = some outgoing → s.committees.lookup now = some incoming →
      certifies outgoing incoming cert →
      Step certifies now s (.handoff cert) { s with pending := some ⟨now, some cert⟩ }
  | genesis {s mpcPublicKey} : s.pending = some ⟨now, none⟩ → now ∈ s.committees →
      s.mpcPublicKey = [] → mpcPublicKey.length = MPC_PUBLIC_KEY_LENGTH →
      Step certifies now s (.finish mpcPublicKey) { s with
        epoch := now, pending := none, mpcPublicKey }
  | finish {s cert} : s.pending = some ⟨now, some cert⟩ → now ∈ s.committees →
      s.mpcPublicKey ≠ [] → s.epoch ∉ s.handoffs →
      Step certifies now s (.finish s.mpcPublicKey) { s with
        epoch := now, pending := none, handoffs := s.handoffs.insert s.epoch ⟨now, cert⟩ }
  | abort {s pending} : s.pending = some pending → pending.epoch ≠ now →
      pending.epoch ∈ s.committees →
      Step certifies now s (.abort pending.epoch) { s with
        committees := s.committees.erase pending.epoch, pending := none }

end EpochState

end HashiBridge.Core
