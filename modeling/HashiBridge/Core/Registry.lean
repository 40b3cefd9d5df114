import HashiBridge.Lib.ReverseIndex
import HashiBridge.Core.CommitteeSet

/-!
# The member registry as a state machine

What registrations, marks, keys and committees are for: the members, the index of their TLS keys,
and which committees they sit on.
-/

namespace HashiBridge.Core

open Lib

/-- The TLS key of a registration; the empty placeholder is none. -/
def MemberInfo.tlsKey (m : MemberInfo) : Option Bytes :=
  if m.tlsPublicKey = [] then none else some m.tlsPublicKey

def MemberInfo.Eligible (m : MemberInfo) : Prop := m.ignored = false ∧ m.resigned = false

structure Registry where
  members : Bag Address MemberInfo
  tlsPublicKeys : Bag Bytes Address
  epoch : Nat
  committees : Bag Nat Committee
  pending : Option Nat

def CommitteeSet.registry (set : CommitteeSet) : Registry :=
  { members := set.members, tlsPublicKeys := set.tlsPublicKeys, epoch := set.epoch
    committees := set.committees, pending := set.pendingEpoch }

inductive RegistryOp
  | keep
  | register (validator : Address)
  | update (validator : Address)
  | mark (validator : Address) (ignored : Bool)
  | writeTlsKey (validator : Address) (key : Bytes)
  | remove (validator : Address)
  | form (committee : Committee)
  | activate (epoch : Nat)
  | abandon (epoch : Nat)

namespace Registry

def Serves (r : Registry) (epoch : Nat) (validator : Address) : Prop :=
  ∃ c, r.committees.lookup epoch = some c ∧ c.hasMember validator = true

def Marked (r : Registry) (validator : Address) : Prop :=
  ∃ m, r.members.lookup validator = some m ∧ m.ignored = true

inductive Step : Registry → RegistryOp → Registry → Prop
  | keep {r} : Step r .keep r
  | register {r validator m} : validator ∉ r.members → m.tlsKey = none →
      Step r (.register validator) { r with members := r.members.insert validator m }
  | update {r validator m m'} : r.members.lookup validator = some m →
      m'.tlsPublicKey = m.tlsPublicKey → m'.ignored = m.ignored →
      Step r (.update validator) { r with members := r.members.insert validator m' }
  | mark {r validator m ignored} : r.members.lookup validator = some m →
      Step r (.mark validator ignored) { r with
        members := r.members.insert validator { m with ignored } }
  | writeTlsKey {r validator m tlsPublicKey} : r.members.lookup validator = some m →
      tlsPublicKey ≠ [] →
      (tlsPublicKey ∉ r.tlsPublicKeys ∨ r.tlsPublicKeys.lookup tlsPublicKey = some validator) →
      Step r (.writeTlsKey validator tlsPublicKey) { r with
        members := r.members.insert validator { m with tlsPublicKey }
        tlsPublicKeys := (unindex r.tlsPublicKeys m.tlsKey).insert tlsPublicKey validator }
  | remove {r validator m} : r.members.lookup validator = some m → m.ignored = false →
      ¬ r.Serves r.epoch validator → (∀ e ∈ r.pending, ¬ r.Serves e validator) →
      Step r (.remove validator) { r with
        members := r.members.erase validator
        tlsPublicKeys := unindex r.tlsPublicKeys m.tlsKey }
  | form {r committee} : r.pending = none → committee.epoch ∉ r.committees →
      (∀ seat ∈ committee.members, ∃ m, r.members.lookup seat.validatorAddress = some m ∧
        m.Eligible) →
      Step r (.form committee) { r with
        committees := r.committees.insert committee.epoch committee
        pending := some committee.epoch }
  | activate {r epoch} : r.pending = some epoch →
      Step r (.activate epoch) { r with epoch, pending := none }
  | abandon {r epoch} : r.pending = some epoch →
      Step r (.abandon epoch) { r with committees := r.committees.erase epoch, pending := none }

end Registry

end HashiBridge.Core
