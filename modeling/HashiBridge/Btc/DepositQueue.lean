import HashiBridge.Core.Committee
import HashiBridge.Btc.UtxoPool

/-!
# Deposit requests

Active requests await the committee's approval and confirmation; confirmed ones are archived in
`processed`, and a request that was never confirmed can be deleted once it passes the maximum age.
-/

namespace HashiBridge.Btc

open Lib HashiBridge.Core

structure DepositRequest where
  id : Address
  sender : Address
  createdTimestampMs : Nat
  suiTxDigest : Bytes
  utxo : Utxo
  approvalCert : Option CommitteeSignature
  approvedTimestampMs : Option Nat
  confirmedTimestampMs : Option Nat
deriving DecidableEq

structure DepositRequestQueue where
  requests : Bag Address DepositRequest
  processed : Bag Address DepositRequest

def MAX_DEPOSIT_REQUEST_AGE_MS : Nat := 1000 * 60 * 60 * 24

namespace DepositRequest

def create (utxo : Utxo) (now : Nat) (ctx : TxContext) : DepositRequest :=
  { id := ctx.fresh, sender := ctx.sender, createdTimestampMs := now, suiTxDigest := ctx.digest
    utxo, approvalCert := none, approvedTimestampMs := none, confirmedTimestampMs := none }

def isExpired (self : DepositRequest) (now : Nat) : Except Abort Bool := do
  let deadline ← add self.createdTimestampMs MAX_DEPOSIT_REQUEST_AGE_MS
  return decide (deadline < now)

end DepositRequest

namespace DepositRequestQueue

def create : DepositRequestQueue := ⟨∅, ∅⟩

def insertDeposit (self : DepositRequestQueue) (request : DepositRequest) :
    Except Abort DepositRequestQueue := do
  let requests ← self.requests.add Abort.fieldAlreadyExists request.id request
  return { self with requests }

def borrowRequest (self : DepositRequestQueue) (requestId : Address) : Except Abort DepositRequest :=
  self.requests.borrow Abort.fieldDoesNotExist requestId

def approve (self : DepositRequestQueue) (requestId : Address) (cert : CommitteeSignature)
    (now : Nat) : Except Abort DepositRequestQueue := do
  let request ← self.borrowRequest requestId
  return { self with
    requests := self.requests.insert requestId
      { request with approvalCert := some cert, approvedTimestampMs := some now } }

def removeRequest (self : DepositRequestQueue) (requestId : Address) :
    Except Abort (DepositRequest × DepositRequestQueue) := do
  let (request, requests) ← self.requests.remove Abort.fieldDoesNotExist requestId
  return (request, { self with requests })

def insertProcessed (self : DepositRequestQueue) (request : DepositRequest) :
    Except Abort DepositRequestQueue := do
  let processed ← self.processed.add Abort.fieldAlreadyExists request.id request
  return { self with processed }

def deleteExpired (self : DepositRequestQueue) (requestId : Address) (now : Nat) :
    Except Abort DepositRequestQueue := do
  require (requestId ∉ self.processed) Abort.depositAlreadyProcessed
  let (request, rest) ← self.removeRequest requestId
  let expired ← request.isExpired now
  require expired Abort.depositRequestNotExpired
  return rest

end DepositRequestQueue

end HashiBridge.Btc
