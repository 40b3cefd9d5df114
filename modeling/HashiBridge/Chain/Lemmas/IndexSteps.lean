import HashiBridge.Chain.Lemmas.DepositSteps
import HashiBridge.Chain.Lemmas.Recipients
import HashiBridge.Lib.MultiIndex

/-!
# What a step does to the index of user requests

A request is indexed under its sender when it is created and a deposit under its recipient when it
is confirmed; a cancellation takes the request from its sender again.
-/

namespace HashiBridge.Chain

open Lib HashiBridge.Core Btc MultiIndex

variable {env : Env} {activated : List Nat} {w w' : World} {label : Label}

def World.userRequests (w : World) : Bag Address (Finset Address) := w.hashi.bitcoin.userRequests

/-! ## The operations -/

theorem indexUserRequest_attach {b b' : BitcoinState} {user id : Address} :
    b.indexUserRequest user id = .ok b' ↔ id ∉ members b.userRequests user ∧
      b' = { b with userRequests := attach b.userRequests user id } := by
  simp only [BitcoinState.indexUserRequest, bind_eq_ok, require_eq_ok, pure_eq_ok]
  constructor
  · rintro ⟨_, hnew, h⟩
    exact ⟨hnew, h.symm⟩
  · rintro ⟨hnew, h⟩
    exact ⟨(), hnew, h.symm⟩

theorem unindexUserRequest_detach (b : BitcoinState) (user id : Address) :
    (b.unindexUserRequest user id).userRequests = detach b.userRequests user id := by
  unfold BitcoinState.unindexUserRequest detach
  cases b.userRequests.lookup user with
  | none => rfl
  | some ids => rfl

/-! ## Effects -/

inductive IndexEffect (w : World) : Label → Bag Address (Finset Address) → Prop
  | kept {label : Label} (requests : label.requests = none) (cancels : label.cancels = none)
      (confirms : label.confirms = none) : IndexEffect w label w.userRequests
  | request {sender fresh : Address} {digest bitcoinAddress : Bytes} {btc : Nat} :
      IndexEffect w (.call sender digest fresh (.bridge (.requestWithdrawal btc bitcoinAddress)))
        (attach w.userRequests sender fresh)
  | cancel {sender fresh id : Address} {digest : Bytes} {r : WithdrawalRequest}
      (found : w.ledger.queue.requests.lookup id = some r) (own : r.sender = sender) :
      IndexEffect w (.call sender digest fresh (.bridge (.cancelWithdrawal id)))
        (detach w.userRequests sender id)
  | donate {sender fresh id : Address} {digest : Bytes} {r : DepositRequest}
      (found : w.deposits.requests.lookup id = some r) (unaddressed : r.utxo.derivationPath = none) :
      IndexEffect w (.call sender digest fresh (.bridge (.confirmDeposit id))) w.userRequests
  | confirm {sender fresh id user : Address} {digest : Bytes} {r : DepositRequest}
      (found : w.deposits.requests.lookup id = some r)
      (addressed : r.utxo.derivationPath = some user) :
      IndexEffect w (.call sender digest fresh (.bridge (.confirmDeposit id)))
        (attach w.userRequests user r.id)

namespace BridgeCall

variable {entry : BridgeCall} {ctx : TxContext} {hashi' : Hashi} {circulating' : Nat}

theorem indexEffect
    (h : entry.run env w.clock ctx w.hashi w.circulating = .ok (hashi', circulating')) :
    IndexEffect w (.call ctx.sender ctx.digest ctx.fresh (.bridge entry))
      hashi'.bitcoin.userRequests := by
  cases entry with
  | requestWithdrawal btc bitcoinAddress =>
      simp only [run, Hashi.requestWithdrawal, WithdrawalRequest.create, bind_eq_ok, pure_eq_ok,
        Prod.mk.injEq] at h
      obtain ⟨_, -, _, ⟨_, -, _, -, _, -, _, -, _, -, _, ⟨_, -, rfl⟩, queue, -, _, hindex, rfl⟩, rfl,
        rfl⟩ := h
      obtain ⟨-, rfl⟩ := indexUserRequest_attach.mp hindex
      exact .request
  | cancelWithdrawal id =>
      simp only [run, Hashi.cancelWithdrawal, WithdrawalRequestQueue.borrowRequest, bind_eq_ok,
        pure_eq_ok, require_eq_ok, Bag.borrow_eq_ok, Prod.mk.injEq] at h
      obtain ⟨_, ⟨_, -, _, -, r, hr, _, hown, _, -, _, -, _, -, ⟨queue, _⟩, -, rfl⟩, rfl, rfl⟩ := h
      dsimp only
      rw [unindexUserRequest_detach]
      exact .cancel hr hown
  | confirmDeposit id =>
      simp only [run, Hashi.confirmDeposit, DepositRequestQueue.borrowRequest,
        DepositRequestQueue.removeRequest, bind_eq_ok, pure_eq_ok, Bag.borrow_eq_ok,
        Bag.remove_eq_ok, Prod.mk.injEq] at h
      obtain ⟨_, ⟨_, -, _, -, _, -, _, -, _, -, _, ⟨⟨r, _⟩, ⟨hr, rfl⟩, rfl⟩, _, -, _, -, _, -, _, -,
        _, -, _, -, _, -, _, -, _, -, _, hindex, rfl⟩, rfl, rfl⟩ := h
      cases hpath : r.utxo.derivationPath with
      | none =>
          rw [hpath] at hindex
          cases hindex
          exact .donate hr hpath
      | some user =>
          rw [hpath] at hindex
          obtain ⟨-, rfl⟩ := indexUserRequest_attach.mp hindex
          exact .confirm hr hpath
  | deposit utxo =>
      simp only [run, Hashi.deposit, bind_eq_ok, pure_eq_ok, Prod.mk.injEq] at h
      obtain ⟨_, ⟨_, -, _, -, _, -, _, -, _, -, _, -, rfl⟩, rfl, rfl⟩ := h
      exact .kept rfl rfl rfl
  | approveDeposit id cert =>
      simp only [run, Hashi.approveDeposit, bind_eq_ok, pure_eq_ok, Prod.mk.injEq] at h
      obtain ⟨_, ⟨_, -, _, -, _, -, _, -, _, -, _, -, _, -, _, -, _, -, rfl⟩, rfl, rfl⟩ := h
      exact .kept rfl rfl rfl
  | deleteExpiredDeposit id =>
      simp only [run, Hashi.deleteExpiredDeposit, bind_eq_ok, pure_eq_ok, Prod.mk.injEq] at h
      obtain ⟨_, ⟨_, -, _, -, rfl⟩, rfl, rfl⟩ := h
      exact .kept rfl rfl rfl
  | _ =>
      rw [(side_kept rfl rfl h).2]
      exact .kept rfl rfl rfl

end BridgeCall

theorem Step.indexEffect (hstep : Step env w label w') : IndexEffect w label w'.userRequests := by
  cases hstep.taken with
  | bridge _ hrun => exact BridgeCall.indexEffect hrun
  | _ =>
      rw [World.userRequests, hstep.bitcoin_eq rfl]
      exact .kept rfl rfl rfl

end HashiBridge.Chain
