import HashiBridge.Monitor.Domain

/-!
# The monitor's pool of the bridge's UTXOs

The pool changes by Bitcoin facts alone: the outputs of paid deposits and the change of withdrawals
enter it, the inputs of withdrawals leave it.
-/

namespace HashiBridge.Monitor

open Lib Guardian

structure UtxoPool where
  utxos : Bag OutPoint Utxo
deriving DecidableEq

namespace UtxoPool

/-- Add a UTXO; a second add may change the origin, and must repeat the amount and the script. -/
def add (self : UtxoPool) (outpoint : OutPoint) (utxo : Utxo) : UtxoPool × List MonitorFinding :=
  match self.utxos.lookup outpoint with
  | none => (⟨self.utxos.insert outpoint utxo⟩, [])
  | some held =>
      let updated := held.origin.updatedBy utxo.origin
      let conflict := if updated.isNone then
        [.utxoOriginConflict outpoint held.origin utxo.origin] else []
      let mismatch := if held.amount ≠ utxo.amount ∨ held.scriptPubkey ≠ utxo.scriptPubkey then
        [.utxoMismatch outpoint held.amount utxo.amount held.scriptPubkey utxo.scriptPubkey] else []
      (⟨self.utxos.insert outpoint { held with origin := updated.getD held.origin }⟩,
        conflict ++ mismatch)

def addDeposit (self : UtxoPool) (deposit : FinishedDeposit) : UtxoPool × List MonitorFinding :=
  self.add deposit.depositId deposit.utxo

def markApproved (self : UtxoPool) (depositId : DepositId) : UtxoPool :=
  match self.utxos.lookup depositId with
  | some utxo =>
      match utxo.origin with
      | .unapprovedDeposit _ _ => ⟨self.utxos.insert depositId { utxo with origin := .deposit }⟩
      | _ => self
  | none => self

/-- Judge an approval against the deposit that the pool holds, and mark that approved in any case. -/
def checkSuiApproval (self : UtxoPool) (sui : SuiDepositApprovedEvent) (skew : Nat) :
    UtxoPool × List MonitorFinding :=
  let paid := ((self.utxos.lookup sui.depositId).filter fun utxo => utxo.origin ≠ .change).map
    fun utxo => { depositId := sui.depositId, amount := utxo.amount,
                  scriptPubkey := utxo.scriptPubkey, blockTime := utxo.firstSeen :
                    BtcConfirmedDeposit }
  (self.markApproved sui.depositId, sui.judge paid skew)

def spend (self : UtxoPool) (outpoint : OutPoint) (txid : Txid) : UtxoPool × List MonitorFinding :=
  let held := self.utxos.lookup outpoint
  (⟨self.utxos.erase outpoint⟩,
    if (held.map fun utxo => utxo.origin.inMovePool) = some true then []
    else [.utxoOutsideMovePoolSpent outpoint txid (held.map Utxo.origin)])

def forAll {α : Type} (update : UtxoPool → α → UtxoPool × List MonitorFinding) (self : UtxoPool)
    (items : List α) : UtxoPool × List MonitorFinding :=
  items.foldl (fun state item =>
    ((update state.1 item).1, state.2 ++ (update state.1 item).2)) (self, [])

/-- The change outputs of a withdrawal: every output from the first change vout on. -/
def changeOutputs (withdrawal : FinishedWithdrawal) : List (OutPoint × Utxo) :=
  (withdrawal.confirmation.outputs.zipIdx.drop withdrawal.firstChangeVout).map fun (output, vout) =>
    (⟨withdrawal.txid, vout % 2 ^ 32⟩,
      { amount := output.value, scriptPubkey := output.scriptPubkey, origin := .change,
        firstSeen := withdrawal.confirmation.blockTime })

def addChangeOutputs (self : UtxoPool) (withdrawal : FinishedWithdrawal) :
    UtxoPool × List MonitorFinding :=
  self.forAll (fun pool output => pool.add output.1 output.2) (changeOutputs withdrawal)

def spendInputs (self : UtxoPool) (withdrawal : FinishedWithdrawal) :
    UtxoPool × List MonitorFinding :=
  self.forAll (fun pool input => pool.spend input withdrawal.txid) withdrawal.confirmation.inputs

/-- Apply withdrawals that Bitcoin confirmed: all change enters, then all inputs are spent. -/
def addWithdrawals (self : UtxoPool) (withdrawals : List FinishedWithdrawal) :
    UtxoPool × List MonitorFinding :=
  let added := self.forAll addChangeOutputs withdrawals
  let spent := added.1.forAll spendInputs withdrawals
  (spent.1, added.2 ++ spent.2)

def update (self : UtxoPool) (deposits : List FinishedDeposit)
    (withdrawals : List FinishedWithdrawal) : UtxoPool × List MonitorFinding :=
  let added := self.forAll addDeposit deposits
  let applied := added.1.addWithdrawals withdrawals
  (applied.1, added.2 ++ applied.2)

end UtxoPool

end HashiBridge.Monitor
