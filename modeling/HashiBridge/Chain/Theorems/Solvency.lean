import HashiBridge.Chain.Lemmas.Reachable

/-!
# Solvency

The outputs that no withdrawal has reserved carry exactly the BTC supply and the deposits that were
made without a recipient, whatever the certificates say and whatever ids the callers pass.
-/

namespace HashiBridge.Chain

open Lib HashiBridge.Core Btc

variable {env : Env} {id epoch clock : Nat} {tr : List Label} {w : World}

/-- In every reachable world the unreserved outputs equal the supply plus the donated deposits, and
the supply is what circulates plus what uncommitted requests hold in escrow. -/
theorem unreserved_outputs_eq_supply (hrun : Run (Step env) (publish id epoch clock) tr w) :
    w.hashi.bitcoin.utxoPool.utxoRecords.sum Ledger.unspent =
        w.hashi.treasury.supply + w.hashi.bitcoin.depositQueue.processed.sum donatedBy ∧
      w.hashi.treasury.supply =
        w.circulating + w.hashi.bitcoin.withdrawalQueue.requests.sum WithdrawalRequest.btc :=
  have h := World.Inv.reachable hrun
  ⟨h.sound.solvent, h.sound.held⟩

/-- Two deposits and a committed withdrawal: the change and the donated deposit are left. -/
theorem unreserved_outputs_eq_supply_of_withdrawal : ∃ w,
    Run (Step Sample.env) (publish 99 0 0) (Sample.launch ++ Sample.deposits ++ Sample.withdrawal) w ∧
      w.hashi.treasury.supply = 600000 ∧
      w.hashi.bitcoin.depositQueue.processed.sum donatedBy = 500000 ∧
      w.hashi.bitcoin.utxoPool.utxoRecords.sum Ledger.unspent = 1100000 := by
  obtain ⟨w, hrun, htest⟩ := run_of_reaches Sample.env (publish 99 0 0)
    (Sample.launch ++ Sample.deposits ++ Sample.withdrawal)
    (fun w => decide (w.hashi.treasury.supply = 600000 ∧
      w.hashi.bitcoin.depositQueue.processed.sum donatedBy = 500000)) (by decide +kernel)
  obtain ⟨hsupply, hdonated⟩ := of_decide_eq_true htest
  have hsolvent := (unreserved_outputs_eq_supply hrun).1
  rw [hsupply, hdonated] at hsolvent
  exact ⟨w, hrun, hsupply, hdonated, hsolvent⟩

end HashiBridge.Chain
