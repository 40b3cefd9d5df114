import HashiBridge.Chain.Withdraw

/-!
# Deposit entry functions

A deposit is requested, approved by the committee and, after the configured delay, confirmed: BTC is
minted to the recipient of the output's derivation path, if it has one, and the output joins the
pool.
-/

namespace HashiBridge.Chain

open Lib HashiBridge.Core Btc

namespace Hashi

def withDeposits (self : Hashi) (depositQueue : DepositRequestQueue) : Hashi :=
  { self with bitcoin := { self.bitcoin with depositQueue } }

def deposit (self : Hashi) (utxo : Utxo) (now : Nat) (ctx : TxContext) : Except Abort Hashi := do
  self.versioning.assertVersionEnabled
  self.assertUnpaused
  let minimum ← BtcConfig.bitcoinDepositMinimum self.config
  require (minimum ≤ utxo.amount) Abort.belowMinimumDeposit
  self.bitcoin.utxoPool.assertNotSpentOrActive utxo.id
  let queue ← self.bitcoin.depositQueue.insertDeposit (.create utxo now ctx)
  return self.withDeposits queue

def approveDeposit (env : Env) (self : Hashi) (requestId : Address) (cert : CommitteeSignature)
    (now : Nat) : Except Abort Hashi := do
  self.versioning.assertVersionEnabled
  self.assertUnpaused
  self.assertNotReconfiguring
  let request ← self.bitcoin.depositQueue.borrowRequest requestId
  self.bitcoin.utxoPool.assertNotSpentOrActive request.utxo.id
  let committee ← self.currentCommittee
  require (∀ existing ∈ request.approvalCert, existing.epoch ≠ committee.epoch)
    Abort.alreadyApprovedThisEpoch
  let _ ← self.verify env (.depositConfirmation requestId request.utxo) cert
  let queue ← self.bitcoin.depositQueue.approve requestId cert now
  return self.withDeposits queue

def mintFor (treasury : Treasury) (utxo : Utxo) : Except Abort Treasury :=
  if utxo.derivationPath.isSome then treasury.mintBalance utxo.amount else .ok treasury

def indexRecipient (bitcoin : BitcoinState) (recipient : Option Address) (requestId : Address) :
    Except Abort BitcoinState :=
  match recipient with
  | some user => bitcoin.indexUserRequest user requestId
  | none => .ok bitcoin

/-- Confirm an approved deposit; the result carries the balance sent to the recipient. -/
def confirmDeposit (env : Env) (self : Hashi) (requestId : Address) (now : Nat) :
    Except Abort (Hashi × Nat) := do
  self.versioning.assertVersionEnabled
  self.assertUnpaused
  self.assertNotReconfiguring
  let borrowed ← self.bitcoin.depositQueue.borrowRequest requestId
  self.bitcoin.utxoPool.assertNotSpentOrActive borrowed.utxo.id
  let (request, removed) ← self.bitcoin.depositQueue.removeRequest requestId
  let cert ← orAbort request.approvalCert Abort.optionIsNone
  let approvedTimestampMs ← orAbort request.approvedTimestampMs Abort.optionIsNone
  let _ ← self.verify env (.depositConfirmation requestId borrowed.utxo) cert
  let delay ← BtcConfig.bitcoinDepositTimeDelayMs self.config
  let earliest ← add approvedTimestampMs delay
  require (earliest ≤ now) Abort.depositTimeDelayNotPassed
  let treasury ← mintFor self.treasury borrowed.utxo
  let pool ← self.bitcoin.utxoPool.insertActive borrowed.utxo
  let queue ← removed.insertProcessed { request with confirmedTimestampMs := some now }
  let bitcoin ← indexRecipient ((self.withDeposits queue).withPool pool).bitcoin
    request.utxo.derivationPath request.id
  return ({ self with bitcoin, treasury }, borrowed.utxo.minted)

def deleteExpiredDeposit (self : Hashi) (requestId : Address) (now : Nat) : Except Abort Hashi := do
  self.versioning.assertVersionEnabled
  let queue ← self.bitcoin.depositQueue.deleteExpired requestId now
  return self.withDeposits queue

end Hashi

end HashiBridge.Chain
