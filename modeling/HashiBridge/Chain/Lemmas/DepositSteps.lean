import HashiBridge.Chain.Lemmas.Reachable

/-!
# What a step does to the deposit requests

Four calls move the queue of deposit requests. `DepositEffect` says for each of them what it
required and what it left; every other step leaves the queue alone.
-/

namespace HashiBridge.Chain

open Lib HashiBridge.Core Btc

variable {env : Env} {w w' : World} {label : Label} {self hashi' : Hashi} {now : Nat}
  {ctx : TxContext}

def World.deposits (w : World) : DepositRequestQueue := w.hashi.bitcoin.depositQueue

namespace Label

def approves : Label → Option (Address × CommitteeSignature)
  | .call _ _ _ (.bridge (.approveDeposit requestId cert)) => some (requestId, cert)
  | _ => none

def confirms : Label → Option Address
  | .call _ _ _ (.bridge (.confirmDeposit requestId)) => some requestId
  | _ => none

def expires : Label → Option Address
  | .call _ _ _ (.bridge (.deleteExpiredDeposit requestId)) => some requestId
  | _ => none

end Label

/-! ## Withdrawals -/

namespace BridgeCall

def isDeposit : BridgeCall → Bool
  | deposit _ | approveDeposit _ _ | confirmDeposit _ | deleteExpiredDeposit _ => true
  | _ => false

def indexes : BridgeCall → Bool
  | requestWithdrawal _ _ | cancelWithdrawal _ | confirmDeposit _ => true
  | _ => false

theorem side_kept {call : BridgeCall} {circulating circulating' : Nat}
    (hcall : call.isDeposit = false) (hindexes : call.indexes = false)
    (h : call.run env now ctx self circulating = .ok (hashi', circulating')) :
    hashi'.bitcoin.depositQueue = self.bitcoin.depositQueue ∧
      hashi'.bitcoin.userRequests = self.bitcoin.userRequests := by
  cases call with
  | deposit | approveDeposit | confirmDeposit | deleteExpiredDeposit => cases hcall
  | requestWithdrawal | cancelWithdrawal => cases hindexes
  | approveRequest =>
      simp only [run, Hashi.approveRequest, bind_eq_ok, pure_eq_ok, Prod.mk.injEq] at h
      obtain ⟨_, ⟨_, -, _, -, _, -, _, -, _, -, rfl⟩, rfl, rfl⟩ := h
      exact ⟨rfl, rfl⟩
  | commitWithdrawalTx =>
      simp only [run, Hashi.commitWithdrawalTx, bind_eq_ok, pure_eq_ok, Prod.mk.injEq] at h
      obtain ⟨_, ⟨_, -, _, -, _, -, _, -, _, -, _, -, _, -, _, -, _, -, _, -, _, -, _, -, _, -, rfl⟩,
        rfl, rfl⟩ := h
      exact ⟨rfl, rfl⟩
  | commitInputSignatures =>
      simp only [run, Hashi.commitInputSignatures, bind_eq_ok, pure_eq_ok, Prod.mk.injEq] at h
      obtain ⟨_, ⟨_, -, _, -, _, -, _, -, _, -, rfl⟩, rfl, rfl⟩ := h
      exact ⟨rfl, rfl⟩
  | finalizeWithdrawal =>
      simp only [run, Hashi.finalizeWithdrawal, bind_eq_ok, pure_eq_ok, Prod.mk.injEq] at h
      obtain ⟨_, ⟨_, -, _, -, _, -, _, -, _, -, _, -, _, -, rfl⟩, rfl, rfl⟩ := h
      exact ⟨rfl, rfl⟩
  | confirmWithdrawal =>
      simp only [run, Hashi.confirmWithdrawal, bind_eq_ok, pure_eq_ok, Prod.mk.injEq] at h
      obtain ⟨_, ⟨_, -, _, -, _, -, _, -, _, -, _, -, _, -, rfl⟩, rfl, rfl⟩ := h
      exact ⟨rfl, rfl⟩
  | archiveConfirmedWithdrawals =>
      simp only [run, Hashi.archiveConfirmedWithdrawals, bind_eq_ok, pure_eq_ok, Prod.mk.injEq] at h
      obtain ⟨_, ⟨_, -, _, -, rfl⟩, rfl, rfl⟩ := h
      exact ⟨rfl, rfl⟩
  | archiveWithdrawalRequests =>
      simp only [run, Hashi.archiveWithdrawalRequests, bind_eq_ok, pure_eq_ok, Prod.mk.injEq] at h
      obtain ⟨_, ⟨_, -, _, -, rfl⟩, rfl, rfl⟩ := h
      exact ⟨rfl, rfl⟩
  | finishArchiveWithdrawalTxns =>
      simp only [run, Hashi.finishArchiveWithdrawalTxns, bind_eq_ok, pure_eq_ok, Prod.mk.injEq] at h
      obtain ⟨_, ⟨_, -, _, -, rfl⟩, rfl, rfl⟩ := h
      exact ⟨rfl, rfl⟩
  | reallocatePresigs =>
      simp only [run, Hashi.reallocatePresigs, bind_eq_ok, pure_eq_ok, Prod.mk.injEq] at h
      obtain ⟨_, ⟨_, -, _, -, _, -, _, -, _, -, _, -, rfl⟩, rfl, rfl⟩ := h
      exact ⟨rfl, rfl⟩
  | cleanupSpentUtxos =>
      simp only [run, Hashi.cleanupSpentUtxos, bind_eq_ok, pure_eq_ok, Prod.mk.injEq] at h
      obtain ⟨_, ⟨_, -, _, -, rfl⟩, rfl, rfl⟩ := h
      exact ⟨rfl, rfl⟩

theorem deposits_kept {call : BridgeCall} {circulating circulating' : Nat}
    (hcall : call.isDeposit = false)
    (h : call.run env now ctx self circulating = .ok (hashi', circulating')) :
    hashi'.bitcoin.depositQueue = self.bitcoin.depositQueue := by
  cases call with
  | deposit | approveDeposit | confirmDeposit | deleteExpiredDeposit => cases hcall
  | requestWithdrawal =>
      simp only [run, Hashi.requestWithdrawal, bind_eq_ok, pure_eq_ok, Prod.mk.injEq] at h
      obtain ⟨_, -, _, ⟨_, -, _, -, _, -, _, -, _, -, _, -, _, -, _, hindex, rfl⟩, rfl, rfl⟩ := h
      obtain ⟨_, rfl⟩ := Hashi.indexUserRequest_eq_ok hindex
      rfl
  | cancelWithdrawal requestId =>
      simp only [run, Hashi.cancelWithdrawal, bind_eq_ok, pure_eq_ok, Prod.mk.injEq] at h
      obtain ⟨_, ⟨_, -, _, -, _, -, _, -, _, -, _, -, _, -, ⟨queue, _⟩, -, rfl⟩, rfl, rfl⟩ := h
      obtain ⟨_, hindex⟩ := Hashi.unindexUserRequest_eq (self.withQueue queue).bitcoin ctx.sender
        requestId
      simp only [hindex]
      rfl
  | _ => exact (side_kept rfl rfl h).1

end BridgeCall

/-! ## Effects -/

/-- What a step from `w` does to the deposit queue, and what it required. -/
inductive DepositEffect (env : Env) (w : World) : Label → DepositRequestQueue → Prop
  | kept {label : Label} (approves : label.approves = none) (confirms : label.confirms = none)
      (expires : label.expires = none) : DepositEffect env w label w.deposits
  | request {sender fresh : Address} {digest : Bytes} {utxo : Utxo} :
      DepositEffect env w (.call sender digest fresh (.bridge (.deposit utxo))) { w.deposits with
        requests := w.deposits.requests.insert fresh
          (.create utxo w.clock ⟨sender, w.epoch, digest, fresh⟩) }
  | approve {sender fresh id : Address} {digest : Bytes} {cert : CommitteeSignature}
      {r : DepositRequest} {certified : CertifiedMessage Message}
      (found : w.deposits.requests.lookup id = some r)
      (idle : w.hashi.assertNotReconfiguring = .ok ())
      (verified : w.hashi.verify env (.depositConfirmation id r.utxo) cert = .ok certified) :
      DepositEffect env w (.call sender digest fresh (.bridge (.approveDeposit id cert)))
        { w.deposits with
          requests := w.deposits.requests.insert id
            { r with approvalCert := some cert, approvedTimestampMs := some w.clock } }
  | confirm {sender fresh id : Address} {digest : Bytes} {cert : CommitteeSignature}
      {r : DepositRequest} {certified : CertifiedMessage Message} {approvedAt delay : Nat}
      (found : w.deposits.requests.lookup id = some r)
      (unused : ¬ w.hashi.bitcoin.utxoPool.isSpentOrActive r.utxo.id)
      (idle : w.hashi.assertNotReconfiguring = .ok ())
      (approval : r.approvalCert = some cert) (approved : r.approvedTimestampMs = some approvedAt)
      (verified : w.hashi.verify env (.depositConfirmation id r.utxo) cert = .ok certified)
      (configured : BtcConfig.bitcoinDepositTimeDelayMs w.hashi.config = .ok delay)
      (elapsed : approvedAt + delay ≤ w.clock) :
      DepositEffect env w (.call sender digest fresh (.bridge (.confirmDeposit id)))
        ⟨w.deposits.requests.erase id,
          w.deposits.processed.insert r.id { r with confirmedTimestampMs := some w.clock }⟩
  | delete {sender fresh id : Address} {digest : Bytes} {r : DepositRequest}
      (found : w.deposits.requests.lookup id = some r) :
      DepositEffect env w (.call sender digest fresh (.bridge (.deleteExpiredDeposit id)))
        { w.deposits with requests := w.deposits.requests.erase id }

theorem BridgeCall.depositEffect {sender fresh : Address} {digest : Bytes} {call : BridgeCall}
    {circulating' : Nat}
    (h : call.run env w.clock ⟨sender, w.epoch, digest, fresh⟩ w.hashi w.circulating =
      .ok (hashi', circulating')) :
    DepositEffect env w (.call sender digest fresh (.bridge call)) hashi'.bitcoin.depositQueue := by
  cases call with
  | deposit utxo =>
      simp only [run, Hashi.deposit, DepositRequestQueue.insertDeposit, bind_eq_ok, pure_eq_ok,
        Bag.add_eq_ok, Prod.mk.injEq] at h
      obtain ⟨_, ⟨_, -, _, -, _, -, _, -, _, -, _, ⟨_, ⟨-, rfl⟩, rfl⟩, rfl⟩, rfl, rfl⟩ := h
      exact .request
  | approveDeposit id cert =>
      simp only [run, Hashi.approveDeposit, DepositRequestQueue.approve,
        DepositRequestQueue.borrowRequest, bind_eq_ok, pure_eq_ok, Bag.borrow_eq_ok,
        Prod.mk.injEq] at h
      obtain ⟨_, ⟨_, -, _, -, _, hidle, r, hr, _, -, _, -, _, -, _, hverified, _, ⟨r', hr', rfl⟩, rfl⟩,
        rfl, rfl⟩ := h
      cases hr.symm.trans hr'
      exact .approve hr hidle hverified
  | confirmDeposit id =>
      simp only [run, Hashi.confirmDeposit, DepositRequestQueue.borrowRequest,
        DepositRequestQueue.removeRequest, DepositRequestQueue.insertProcessed,
        UtxoPool.assertNotSpentOrActive, bind_eq_ok, pure_eq_ok, Bag.borrow_eq_ok, Bag.remove_eq_ok,
        Bag.add_eq_ok, require_eq_ok, orAbort_eq_ok, addU64_eq_ok, Prod.mk.injEq] at h
      obtain ⟨_, ⟨_, -, _, -, _, hidle, r, hr, _, hunused, _, ⟨⟨r', _⟩, ⟨hr', rfl⟩, rfl⟩, cert, hcert,
        approvedAt, happroved, _, hverified, delay, hdelay, _, ⟨-, rfl⟩, _, helapsed, _, -, _, -, _,
        ⟨_, ⟨-, rfl⟩, rfl⟩, _, hindex, rfl⟩, rfl, rfl⟩ := h
      -- the request taken out of the bag is the one that was borrowed
      cases hr.symm.trans hr'
      obtain ⟨_, rfl⟩ := Hashi.indexRecipient_eq_ok hindex
      exact .confirm hr hunused hidle hcert happroved hverified hdelay helapsed
  | deleteExpiredDeposit id =>
      simp only [run, Hashi.deleteExpiredDeposit, DepositRequestQueue.deleteExpired,
        DepositRequestQueue.removeRequest, bind_eq_ok, pure_eq_ok, Bag.remove_eq_ok,
        Prod.mk.injEq] at h
      obtain ⟨_, ⟨_, -, _, ⟨_, -, _, ⟨⟨r, _⟩, ⟨hr, rfl⟩, rfl⟩, _, -, _, -, rfl⟩, rfl⟩, rfl, rfl⟩ := h
      exact .delete hr
  | _ =>
      rw [deposits_kept rfl h]
      exact .kept rfl rfl rfl

theorem Step.depositEffect (hstep : Step env w label w') :
    DepositEffect env w label w'.deposits := by
  cases hstep.taken with
  | bridge _ hrun => exact BridgeCall.depositEffect hrun
  | _ =>
      rw [World.deposits, hstep.bitcoin_eq rfl]
      exact .kept rfl rfl rfl

end HashiBridge.Chain
