import HashiBridge.Chain.Lemmas.Reachable

/-!
# Recipients of withdrawals

Every queued request pays a witness program of 20 or 32 bytes: the entry function checks it, and no
later call writes it.
-/

namespace HashiBridge.Btc

open Lib HashiBridge.Core

variable {l l' : Ledger} {op : Op} {ops : List Op}

def Op.addsNoRequest : Op → Bool
  | request _ | approve _ | commit _ => false
  | _ => true

namespace Ledger

theorem Step.requests_sub (hstep : Step l op l') (hop : op.addsNoRequest = true) {id : Address}
    {r : WithdrawalRequest} (hr : l'.queue.requests.lookup id = some r) :
    l.queue.requests.lookup id = some r := by
  cases hstep with
  | request | approve | commit => cases hop
  | cancel | archiveRequest => exact Bag.lookup_of_erase hr
  | _ => exact hr

theorem requests_sub_run (hrun : Run Step l ops l') (hops : ∀ op ∈ ops, op.addsNoRequest = true)
    {id : Address} {r : WithdrawalRequest} (hr : l'.queue.requests.lookup id = some r) :
    l.queue.requests.lookup id = some r := by
  induction hrun with
  | nil => exact hr
  | snoc _ hstep ih =>
      simp only [List.forall_mem_append, List.forall_mem_singleton] at hops
      exact ih hops.1 (hstep.requests_sub hops.2 hr)

end Ledger

end HashiBridge.Btc

namespace HashiBridge.Chain

open Lib HashiBridge.Core Btc

variable {env : Env} {activated : List Nat} {w w' : World} {label : Label} {tr : List Label}

def WellAddressed (queue : WithdrawalRequestQueue) : Prop :=
  ∀ id r, queue.requests.lookup id = some r →
    r.bitcoinAddress.length = 20 ∨ r.bitcoinAddress.length = 32

def BridgeCall.writesRequest : BridgeCall → Bool
  | requestWithdrawal _ _ | approveRequest _ _ | commitWithdrawalTx .. => true
  | _ => false

theorem BridgeCall.Effect.addsNoRequest {call : BridgeCall} {fresh : Address} {ops : List Op}
    (h : call.Effect fresh ops) (hcall : call.writesRequest = false) :
    ∀ op ∈ ops, op.addsNoRequest = true := by
  have harchives : ∀ {ws : List Address} {op : Op}, op.Archives ws → op.addsNoRequest = true := by
    rintro ws op ⟨x, -, rfl | ⟨id, rfl⟩⟩ <;> rfl
  cases call with
  | requestWithdrawal | approveRequest | commitWithdrawalTx => cases hcall
  | deposit | approveDeposit | deleteExpiredDeposit | cancelWithdrawal | commitInputSignatures
  | finalizeWithdrawal | confirmWithdrawal | reallocatePresigs =>
      cases h
      simp [Op.addsNoRequest]
  | confirmDeposit =>
      obtain ⟨utxo, rfl⟩ := h
      simp [Op.addsNoRequest]
  | archiveConfirmedWithdrawals | archiveWithdrawalRequests | finishArchiveWithdrawalTxns =>
      exact fun op hop => harchives (h op hop)
  | cleanupSpentUtxos =>
      intro op hop
      obtain ⟨id, rfl⟩ := h op hop
      rfl

theorem Label.LedgerEffect.addsNoRequest {ops : List Op} (h : label.LedgerEffect ops)
    (hlabel : ∀ sender digest fresh entry, label ≠ .call sender digest fresh (.bridge entry)) :
    ∀ op ∈ ops, op.addsNoRequest = true := by
  unfold Label.LedgerEffect at h
  split at h
  · exact absurd rfl (hlabel _ _ _ _)
  · subst h
    simp [Op.addsNoRequest]
  · subst h
    simp

/-- The request was there before with the same sender and recipient. -/
def KeptFrom (queue : WithdrawalRequestQueue) (id : Address) (r : WithdrawalRequest) : Prop :=
  ∃ r₀, queue.requests.lookup id = some r₀ ∧ r₀.sender = r.sender ∧
    r₀.bitcoinAddress = r.bitcoinAddress

/-- The label creates the request under its id, for its sender and a witness program. -/
def Label.CreatesRequest (label : Label) (id : Address) (r : WithdrawalRequest) : Prop :=
  ∃ digest btc, label = .call r.sender digest id (.bridge (.requestWithdrawal btc r.bitcoinAddress)) ∧
    (r.bitcoinAddress.length = 20 ∨ r.bitcoinAddress.length = 32)

theorem Step.request_origin (hinv : w.Inv env activated) (hstep : Step env w label w') {id : Address}
    {r : WithdrawalRequest} (hr : w'.ledger.queue.requests.lookup id = some r) :
    label.CreatesRequest id r ∨ KeptFrom w.ledger.queue id r := by
  obtain ⟨ops, heffect, hrun⟩ := (hstep.refines hinv).ledger
  have hshrink : (∀ op ∈ ops, op.addsNoRequest = true) → KeptFrom w.ledger.queue id r :=
    fun hops => ⟨r, Ledger.requests_sub_run hrun hops hr, rfl, rfl⟩
  by_cases hbridge : ∃ sender digest fresh entry, label = .call sender digest fresh (.bridge entry)
  case neg =>
    simp only [not_exists] at hbridge
    exact .inr (hshrink (heffect.addsNoRequest hbridge))
  obtain ⟨sender, digest, fresh, entry, rfl⟩ := hbridge
  have hentry : entry.Effect fresh ops := heffect
  simp only [Step, exec, Call.run, bind_eq_ok, pure_eq_ok] at hstep
  obtain ⟨_, -, ⟨hashi', circulating'⟩, hrun', rfl⟩ := hstep
  cases entry with
  | requestWithdrawal btc bitcoinAddress =>
      simp only [BridgeCall.run, Hashi.requestWithdrawal, WithdrawalRequest.create, bind_eq_ok,
        pure_eq_ok, require_eq_ok, WithdrawalRequestQueue.insertWithdrawal_eq_ok,
        Prod.mk.injEq] at hrun'
      obtain ⟨_, -, _, ⟨_, -, _, -, _, -, _, -, _, hlength, _, ⟨_, -, rfl⟩, queue, ⟨-, rfl⟩, _,
        hindex, rfl⟩, rfl, rfl⟩ := hrun'
      obtain ⟨_, rfl⟩ := Hashi.indexUserRequest_eq_ok hindex
      rcases Bag.lookup_of_insert hr with ⟨rfl, rfl⟩ | hr
      exacts [.inl ⟨_, _, rfl, hlength⟩, .inr ⟨r, hr, rfl, rfl⟩]
  | approveRequest requestId cert =>
      simp only [BridgeCall.run, Hashi.approveRequest, bind_eq_ok, pure_eq_ok, Prod.mk.injEq] at hrun'
      obtain ⟨_, ⟨_, -, _, -, _, -, _, -, queue, happrove, rfl⟩, rfl, rfl⟩ := hrun'
      obtain ⟨r₀, hr₀, -, -, rfl⟩ := WithdrawalRequestQueue.approveWithdrawal_eq_ok happrove
      rcases Bag.lookup_of_insert hr with ⟨rfl, rfl⟩ | hr
      exacts [.inr ⟨r₀, hr₀, rfl, rfl⟩, .inr ⟨r, hr, rfl, rfl⟩]
  | commitWithdrawalTx requestIds selectedUtxos outputs txid cert randomness =>
      simp only [BridgeCall.run, Hashi.commitWithdrawalTx, bind_eq_ok, pure_eq_ok,
        WithdrawalRequestQueue.insertWithdrawalTxn_eq_ok, Prod.mk.injEq] at hrun'
      obtain ⟨_, ⟨_, -, _, -, _, -, _, -, _, -, _, -, _, -, t, -, _, -, ⟨committed, _⟩, hcommit, _, -,
        _, -, _, ⟨-, rfl⟩, rfl⟩, rfl, rfl⟩ := hrun'
      obtain ⟨requests, rfl, -, -, hlinked, -⟩ := WithdrawalRequestQueue.commitRequests_eq_ok hcommit
      change requests.lookup id = some r at hr
      rw [hlinked] at hr
      split_ifs at hr
      · -- linking a request keeps its sender and recipient
        obtain ⟨r₀, hr₀, rfl⟩ := Option.map_eq_some_iff.mp hr
        exact .inr ⟨r₀, hr₀, rfl, rfl⟩
      · exact .inr ⟨r, hr, rfl, rfl⟩
  | _ => exact .inr (hshrink (BridgeCall.Effect.addsNoRequest hentry rfl))

theorem WellAddressed.step (h : WellAddressed w.ledger.queue) (hinv : w.Inv env activated)
    (hstep : Step env w label w') : WellAddressed w'.ledger.queue := by
  intro id r hr
  rcases hstep.request_origin hinv hr with ⟨_, _, -, hlength⟩ | ⟨r₀, hr₀, -, hsame⟩
  · exact hlength
  · rw [← hsame]
    exact h id r₀ hr₀

theorem WellAddressed.run (h : WellAddressed w.ledger.queue) (hinv : w.Inv env activated)
    (hrun : Run (Step env) w tr w') : WellAddressed w'.ledger.queue := by
  induction hrun with
  | nil => exact h
  | snoc hrun hstep ih => exact WellAddressed.step ih (hinv.run hrun) hstep

theorem wellAddressed_reachable {id₀ epoch clock : Nat}
    (hrun : Run (Step env) (publish id₀ epoch clock) tr w) : WellAddressed w.ledger.queue :=
  WellAddressed.run (fun _ _ hr => by cases hr) (World.Inv.init id₀ epoch clock) hrun

end HashiBridge.Chain
