import HashiBridge.Core.Tob
import HashiBridge.Node.Committee

/-!
# Parties and errors of the protocols
-/

namespace HashiBridge.Mpc

open Lib HashiBridge.Core

inductive MpcError
  | invalidConfig (reason : String)
  | notEnoughParticipants (expected got : Nat)
  | invalidMessage (sender : Address) (reason : String)
  | notEnoughApprovals (needed got : Nat)
  | invalidCertificate (reason : String)
  | broadcastError (reason : String)
  | pairwiseCommunicationError (reason : String)
  | storedMessageDiverged (dealer : Address)
  | storedRowRefused (dealer : Address) (reason : String)
  | storageError (reason : String)
  | cryptoError (reason : String)
  | notFound (reason : String)
  | notReady (reason : String)
  | protocolFailed (reason : String)
deriving DecidableEq

/-- The last member with the address: a later one replaces an earlier one in the index. -/
def indexOf (committee : Node.Committee) (address : Address) : Option Nat :=
  committee.members.zipIdx.foldl
    (fun found (member, index) => if member.address = address then some index else found) none

end HashiBridge.Mpc
