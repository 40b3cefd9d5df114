import HashiBridge.Btc.DepositQueue
import HashiBridge.Btc.WithdrawalQueue

/-!
# The Bitcoin side of the bridge

The two request queues, the pool and an index from each user to the ids of their requests.
-/

namespace HashiBridge.Btc

open Lib HashiBridge.Core

structure BitcoinState where
  depositQueue : DepositRequestQueue
  withdrawalQueue : WithdrawalRequestQueue
  utxoPool : UtxoPool
  /-- the request ids of each user that has any -/
  userRequests : Bag Address (Finset Address)

namespace BitcoinState

def create : BitcoinState where
  depositQueue := .create
  withdrawalQueue := .create
  utxoPool := .create
  userRequests := ∅

def requestsOf (self : BitcoinState) (user : Address) : Finset Address :=
  (self.userRequests.lookup user).getD ∅

def indexUserRequest (self : BitcoinState) (user requestId : Address) :
    Except Abort BitcoinState := do
  require (requestId ∉ self.requestsOf user) Abort.fieldAlreadyExists
  return { self with
    userRequests := self.userRequests.insert user (insert requestId (self.requestsOf user)) }

/-- Drop an id from a user's index, and the user's entry with its last id. -/
def unindexUserRequest (self : BitcoinState) (user requestId : Address) : BitcoinState :=
  match self.userRequests.lookup user with
  | none => self
  | some ids =>
      let rest := ids.erase requestId
      { self with
        userRequests := if rest = ∅ then self.userRequests.erase user
          else self.userRequests.insert user rest }

end BitcoinState

end HashiBridge.Btc
