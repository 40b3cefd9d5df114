import HashiBridge.Lib.Run
import HashiBridge.Chain.Deposit
import HashiBridge.Chain.Reconfig
import HashiBridge.Chain.CertSubmission
import HashiBridge.Chain.Governance

/-!
# The bridge as a transition system

A label is a transaction that calls one entry function, or the passing of Sui's epoch and clock,
which never go back.
-/

namespace HashiBridge.Chain

open Lib HashiBridge.Core Btc

/-! ## Calls -/

inductive BridgeCall
  | deposit (utxo : Utxo)
  | approveDeposit (requestId : Address) (cert : CommitteeSignature)
  | confirmDeposit (requestId : Address)
  | deleteExpiredDeposit (requestId : Address)
  | requestWithdrawal (btc : Nat) (bitcoinAddress : Bytes)
  | cancelWithdrawal (requestId : Address)
  | approveRequest (requestId : Address) (cert : CommitteeSignature)
  | commitWithdrawalTx (requestIds : List Address) (selectedUtxos : List UtxoId)
      (outputs : List OutputUtxo) (txid : Address) (cert : CommitteeSignature) (randomness : Bytes)
  | commitInputSignatures (withdrawalId : Address) (indices : List Nat) (signatures : List Bytes)
      (cert : CommitteeSignature)
  | finalizeWithdrawal (withdrawalId : Address) (guardianSignatures : List Bytes)
      (cert : CommitteeSignature)
  | confirmWithdrawal (withdrawalId : Address) (cert : CommitteeSignature)
  | archiveConfirmedWithdrawals (withdrawalIds : List Address)
  | archiveWithdrawalRequests (withdrawalId : Address) (requestIds : List Address)
  | finishArchiveWithdrawalTxns (withdrawalIds : List Address)
  | reallocatePresigs (withdrawalId : Address) (randomness : Bytes)
  | cleanupSpentUtxos (utxoIds : List UtxoId)

inductive ReconfigCall
  | startReconfig (validatorSet : VecMap Address Nat)
  | submitCommitteeHandoff (epoch : Nat) (cert : CommitteeSignature)
  | endReconfig (mpcPublicKey : Bytes) (mpcCert : CommitteeSignature)
  | abortReconfig (epoch : Nat)

inductive RegistryCall
  | register (activeValidators : List Address)
  | updateNextEpochPublicKey (validator : Address) (key proof : Bytes)
  | updateOperatorAddress (validator operator : Address)
  | updateEndpointUrl (validator : Address) (endpointUrl : String)
  | updateTlsPublicKey (validator : Address) (key proof : Bytes)
  | updateNextEpochEncryptionPublicKey (validator : Address) (key : Bytes)
  | resign (validator : Address)
  | withdrawResignation (validator : Address)
  | removeInactiveMember (activeValidators : List Address) (validator : Address)

inductive GovernanceCall
  | propose (validatorAddress : Address) (data : ProposalData) (metadata : VecMap String String)
  | vote (kind : ProposalKind) (validatorAddress proposalId : Address)
  | removeVote (kind : ProposalKind) (validatorAddress proposalId : Address)
  | execute (kind : ProposalKind) (proposalId newPackage : Address)
  | deleteExpired (kind : ProposalKind) (proposalId : Address)

inductive CertCall
  | submitDkgCert (epoch : Nat) (dealer : Address) (messagesHash : Bytes)
      (cert : CommitteeSignature)
  | submitRotationCert (epoch : Nat) (dealer : Address) (messagesHash : Bytes)
      (cert : CommitteeSignature)
  | submitNonceCert (epoch batchIndex : Nat) (dealer : Address) (messagesHash : Bytes)
      (cert : CommitteeSignature)
  | submitPresigDealerSet (batchIndex : Nat) (dealerSetDigest : Bytes) (cert : CommitteeSignature)
      (randomness : Bytes)
  | destroyKeyGenCerts (epoch : Nat)
  | destroyNonceCerts (epoch batchIndex : Nat)

inductive Call
  | finishPublish (upgradeCap : UpgradeCap) (bitcoinChainId : Address)
      (guardianUrl guardianNodeUrl : String) (guardianBtcPublicKey : Bytes)
      (bitcoinConfirmationThreshold bitcoinDepositTimeDelayMs : Option Nat)
  | bridge (call : BridgeCall)
  | reconfig (call : ReconfigCall)
  | registry (call : RegistryCall)
  | governance (call : GovernanceCall)
  | certs (call : CertCall)

/-! ## Execution -/

section Execution

variable (env : Env) (now : Nat) (ctx : TxContext)

/-- A deposit or withdrawal call, with the BTC that circulates outside the bridge. -/
def BridgeCall.run (hashi : Hashi) (circulating : Nat) : BridgeCall → Except Abort (Hashi × Nat)
  | deposit utxo => do
      let hashi ← hashi.deposit utxo now ctx
      return (hashi, circulating)
  | approveDeposit requestId cert => do
      let hashi ← hashi.approveDeposit env requestId cert now
      return (hashi, circulating)
  | confirmDeposit requestId => do
      let (hashi, minted) ← hashi.confirmDeposit env requestId now
      return (hashi, circulating + minted)
  | deleteExpiredDeposit requestId => do
      let hashi ← hashi.deleteExpiredDeposit requestId now
      return (hashi, circulating)
  | requestWithdrawal btc bitcoinAddress => do
      require (btc ≤ circulating) Abort.insufficientBalance
      let hashi ← hashi.requestWithdrawal now btc bitcoinAddress ctx
      return (hashi, circulating - btc)
  | cancelWithdrawal requestId => do
      let (hashi, refund) ← hashi.cancelWithdrawal requestId now ctx
      return (hashi, circulating + refund)
  | approveRequest requestId cert => do
      let hashi ← hashi.approveRequest env requestId cert now
      return (hashi, circulating)
  | commitWithdrawalTx requestIds selectedUtxos outputs txid cert randomness => do
      let hashi ← hashi.commitWithdrawalTx env requestIds selectedUtxos outputs txid cert now
        randomness ctx
      return (hashi, circulating)
  | commitInputSignatures withdrawalId indices signatures cert => do
      let hashi ← hashi.commitInputSignatures env withdrawalId indices signatures cert
      return (hashi, circulating)
  | finalizeWithdrawal withdrawalId guardianSignatures cert => do
      let hashi ← hashi.finalizeWithdrawal env withdrawalId guardianSignatures cert now
      return (hashi, circulating)
  | confirmWithdrawal withdrawalId cert => do
      let hashi ← hashi.confirmWithdrawal env withdrawalId cert now
      return (hashi, circulating)
  | archiveConfirmedWithdrawals withdrawalIds => do
      let hashi ← hashi.archiveConfirmedWithdrawals withdrawalIds
      return (hashi, circulating)
  | archiveWithdrawalRequests withdrawalId requestIds => do
      let hashi ← hashi.archiveWithdrawalRequests withdrawalId requestIds
      return (hashi, circulating)
  | finishArchiveWithdrawalTxns withdrawalIds => do
      let hashi ← hashi.finishArchiveWithdrawalTxns withdrawalIds
      return (hashi, circulating)
  | reallocatePresigs withdrawalId randomness => do
      let hashi ← hashi.reallocatePresigs withdrawalId randomness
      return (hashi, circulating)
  | cleanupSpentUtxos utxoIds => do
      let hashi ← hashi.cleanupSpentUtxos utxoIds
      return (hashi, circulating)

def ReconfigCall.run (hashi : Hashi) : ReconfigCall → Except Abort Hashi
  | startReconfig validatorSet => hashi.startReconfig env validatorSet ctx
  | submitCommitteeHandoff epoch cert => hashi.submitCommitteeHandoff env epoch cert ctx
  | endReconfig mpcPublicKey mpcCert => hashi.endReconfig env mpcPublicKey mpcCert ctx
  | abortReconfig epoch => hashi.abortReconfig epoch ctx

def RegistryCall.run (hashi : Hashi) : RegistryCall → Except Abort Hashi
  | register activeValidators => hashi.register env activeValidators ctx
  | updateNextEpochPublicKey validator key proof =>
      hashi.updateNextEpochPublicKey env validator key proof ctx
  | updateOperatorAddress validator operator => hashi.updateOperatorAddress validator operator ctx
  | updateEndpointUrl validator endpointUrl => hashi.updateEndpointUrl validator endpointUrl ctx
  | updateTlsPublicKey validator key proof => hashi.updateTlsPublicKey env validator key proof ctx
  | updateNextEpochEncryptionPublicKey validator key =>
      hashi.updateNextEpochEncryptionPublicKey validator key ctx
  | resign validator => hashi.resign validator ctx
  | withdrawResignation validator => hashi.withdrawResignation validator ctx
  | removeInactiveMember activeValidators validator =>
      hashi.removeInactiveMember activeValidators validator

def GovernanceCall.run (hashi : Hashi) : GovernanceCall → Except Abort Hashi
  | propose validatorAddress data metadata => hashi.propose validatorAddress data metadata now ctx
  | vote kind validatorAddress proposalId => hashi.vote kind validatorAddress proposalId now ctx
  | removeVote kind validatorAddress proposalId =>
      hashi.removeVote kind validatorAddress proposalId ctx
  | execute kind proposalId newPackage => hashi.execute kind proposalId newPackage now
  | deleteExpired kind proposalId => hashi.deleteExpired kind proposalId now

def CertCall.run (hashi : Hashi) : CertCall → Except Abort Hashi
  | submitDkgCert epoch dealer messagesHash cert =>
      hashi.submitDkgCert epoch dealer messagesHash cert now ctx
  | submitRotationCert epoch dealer messagesHash cert =>
      hashi.submitRotationCert epoch dealer messagesHash cert now ctx
  | submitNonceCert epoch batchIndex dealer messagesHash cert =>
      hashi.submitNonceCert epoch batchIndex dealer messagesHash cert now ctx
  | submitPresigDealerSet batchIndex dealerSetDigest cert randomness =>
      hashi.submitPresigDealerSet env batchIndex dealerSetDigest cert randomness
  | destroyKeyGenCerts epoch => hashi.destroyKeyGenCerts epoch
  | destroyNonceCerts epoch batchIndex => hashi.destroyNonceCerts epoch batchIndex

def keepCirculating (circulating : Nat) (result : Except Abort Hashi) : Except Abort (Hashi × Nat) := do
  let hashi ← result
  return (hashi, circulating)

def Call.run (hashi : Hashi) (circulating : Nat) : Call → Except Abort (Hashi × Nat)
  | finishPublish upgradeCap bitcoinChainId guardianUrl guardianNodeUrl guardianBtcPublicKey
      bitcoinConfirmationThreshold bitcoinDepositTimeDelayMs =>
      keepCirculating circulating
        (hashi.finishPublish env upgradeCap bitcoinChainId guardianUrl guardianNodeUrl
          guardianBtcPublicKey bitcoinConfirmationThreshold bitcoinDepositTimeDelayMs)
  | bridge call => call.run env now ctx hashi circulating
  | reconfig call => keepCirculating circulating (call.run env ctx hashi)
  | registry call => keepCirculating circulating (call.run env ctx hashi)
  | governance call => keepCirculating circulating (call.run now ctx hashi)
  | certs call => keepCirculating circulating (call.run env now ctx hashi)

/-! ## Worlds and steps -/

structure World where
  hashi : Hashi
  /-- Sui's epoch -/
  epoch : Nat
  /-- Sui's clock, in milliseconds -/
  clock : Nat
  /-- every object id handed out so far -/
  ids : Finset Address
  /-- BTC outside the bridge -/
  circulating : Nat

inductive Label
  | advance (epoch clock : Nat)
  | call (sender : Address) (digest : Bytes) (fresh : Address) (call : Call)

def publish (id epoch clock : Nat) : World :=
  { hashi := Hashi.init id, epoch, clock, ids := {id}, circulating := 0 }

def exec (w : World) : Label → Except Abort World
  | .advance epoch clock => do
      require (w.epoch ≤ epoch ∧ w.clock ≤ clock) Abort.assertion
      return { w with epoch, clock }
  | .call sender digest fresh call => do
      require (fresh ∉ w.ids) Abort.assertion
      let (hashi, circulating) ← call.run env w.clock ⟨sender, w.epoch, digest, fresh⟩ w.hashi
        w.circulating
      return { w with hashi, circulating, ids := insert fresh w.ids }

def Step (w : World) (label : Label) (w' : World) : Prop := exec env w label = .ok w'

inductive Taken (w : World) : Label → World → Prop
  | advance {epoch clock} (epoch_le : w.epoch ≤ epoch) (clock_le : w.clock ≤ clock) :
      Taken w (.advance epoch clock) { w with epoch, clock }
  | publish {sender digest fresh cap chainId url nodeUrl key confirmations delay hashi}
      (unused : fresh ∉ w.ids)
      (ran : w.hashi.finishPublish env cap chainId url nodeUrl key confirmations delay = .ok hashi) :
      Taken w
        (.call sender digest fresh (.finishPublish cap chainId url nodeUrl key confirmations delay))
        { w with hashi, ids := insert fresh w.ids }
  | bridge {sender digest fresh call hashi circulating} (unused : fresh ∉ w.ids)
      (ran : BridgeCall.run env w.clock ⟨sender, w.epoch, digest, fresh⟩ w.hashi w.circulating call =
        .ok (hashi, circulating)) :
      Taken w (.call sender digest fresh (.bridge call))
        { w with hashi, circulating, ids := insert fresh w.ids }
  | reconfig {sender digest fresh call hashi} (unused : fresh ∉ w.ids)
      (ran : ReconfigCall.run env ⟨sender, w.epoch, digest, fresh⟩ w.hashi call = .ok hashi) :
      Taken w (.call sender digest fresh (.reconfig call)) { w with hashi, ids := insert fresh w.ids }
  | registry {sender digest fresh call hashi} (unused : fresh ∉ w.ids)
      (ran : RegistryCall.run env ⟨sender, w.epoch, digest, fresh⟩ w.hashi call = .ok hashi) :
      Taken w (.call sender digest fresh (.registry call)) { w with hashi, ids := insert fresh w.ids }
  | governance {sender digest fresh call hashi} (unused : fresh ∉ w.ids)
      (ran : GovernanceCall.run w.clock ⟨sender, w.epoch, digest, fresh⟩ w.hashi call = .ok hashi) :
      Taken w (.call sender digest fresh (.governance call))
        { w with hashi, ids := insert fresh w.ids }
  | certs {sender digest fresh call hashi} (unused : fresh ∉ w.ids)
      (ran : CertCall.run env w.clock ⟨sender, w.epoch, digest, fresh⟩ w.hashi call = .ok hashi) :
      Taken w (.call sender digest fresh (.certs call)) { w with hashi, ids := insert fresh w.ids }

def execAll (w : World) (labels : List Label) : Except Abort World := labels.foldlM (exec env) w

def attempt (w : World) (label : Label) : World :=
  match exec env w label with
  | .ok w' => w'
  | .error _ => w

variable {env} {w w' : World} {labels : List Label}

theorem Step.taken {label : Label} (h : Step env w label w') : Taken env w label w' := by
  unfold Step at h
  cases label with
  | advance epoch clock =>
      simp only [exec, bind_eq_ok, require_eq_ok, pure_eq_ok] at h
      obtain ⟨_, ⟨hepoch, hclock⟩, rfl⟩ := h
      exact .advance hepoch hclock
  | call sender digest fresh call =>
      simp only [exec, bind_eq_ok, require_eq_ok, pure_eq_ok] at h
      obtain ⟨_, hfresh, ⟨hashi', circulating'⟩, hrun, rfl⟩ := h
      have hkept : ∀ {result}, keepCirculating w.circulating result = .ok (hashi', circulating') →
          result = .ok hashi' ∧ w.circulating = circulating' := by
        intro result hkeep
        simp only [keepCirculating, bind_eq_ok, pure_eq_ok, Prod.mk.injEq] at hkeep
        obtain ⟨_, hresult, rfl, rfl⟩ := hkeep
        exact ⟨hresult, rfl⟩
      cases call with
      | bridge entry => exact .bridge hfresh hrun
      | finishPublish =>
          obtain ⟨hentry, rfl⟩ := hkept hrun
          exact .publish hfresh hentry
      | reconfig entry =>
          obtain ⟨hentry, rfl⟩ := hkept hrun
          exact .reconfig hfresh hentry
      | registry entry =>
          obtain ⟨hentry, rfl⟩ := hkept hrun
          exact .registry hfresh hentry
      | governance entry =>
          obtain ⟨hentry, rfl⟩ := hkept hrun
          exact .governance hfresh hentry
      | certs entry =>
          obtain ⟨hentry, rfl⟩ := hkept hrun
          exact .certs hfresh hentry

theorem run_of_execAll (h : execAll env w labels = .ok w') : Run (Step env) w labels w' := by
  induction labels generalizing w with
  | nil => rw [foldlM_nil_eq_ok.mp h]; exact .nil
  | cons label labels ih =>
      obtain ⟨m, hm, hrest⟩ := foldlM_cons_eq_ok.mp h
      exact Run.cons hm (ih hrest)

variable (env) in
theorem run_of_attempts (w : World) (labels : List Label) :
    ∃ tr, (∀ label ∈ tr, label ∈ labels) ∧ Run (Step env) w tr (labels.foldl (attempt env) w) := by
  induction labels generalizing w with
  | nil => exact ⟨[], by simp, .nil⟩
  | cons label labels ih =>
      obtain ⟨tr, hsub, hrun⟩ := ih (attempt env w label)
      rw [List.foldl_cons]
      cases hexec : exec env w label with
      | ok m =>
          rw [show attempt env w label = m by simp only [attempt, hexec]] at hrun ⊢
          exact ⟨label :: tr, by simpa using fun l hl => .inr (hsub l hl), .cons hexec hrun⟩
      | error e =>
          rw [show attempt env w label = w by simp only [attempt, hexec]] at hrun ⊢
          exact ⟨tr, fun l hl => List.mem_cons_of_mem _ (hsub l hl), hrun⟩

variable (env) in
/-- The labels run without an abort to a world that passes a test. -/
def reaches (w : World) (labels : List Label) (test : World → Bool) : Bool :=
  match execAll env w labels with
  | .ok w' => test w'
  | .error _ => false

variable (env w labels) in
theorem run_of_reaches (test : World → Bool) (h : reaches env w labels test = true) :
    ∃ w', Run (Step env) w labels w' ∧ test w' = true := by
  unfold reaches at h
  split at h
  · next w' hw' => exact ⟨w', run_of_execAll hw', h⟩
  · cases h

end Execution

/-! ## A deployment with one validator -/

namespace Sample

def env : Env := ⟨⟨fun _ _ _ => true, fun _ => [], fun b => some b, [], fun _ _ _ => true⟩, fun _ => [], 7⟩

def cert (epoch : Nat) : CommitteeSignature := ⟨epoch, [], [128]⟩

def mpcKey : Bytes := List.replicate 33 2

def call (fresh : Address) (call : Call) : Label := .call 10 [] fresh call

/-- Publication and registration of validator 10, up to the first reconfiguration. -/
def register : List Label := [
  call 1001 (.finishPublish ⟨7, 1, 0⟩ 3 "" "" (List.replicate 32 1) none (some 0)),
  call 1002 (.registry (.register [10])),
  call 1003 (.registry (.updateNextEpochPublicKey 10 (List.replicate 32 1) [])),
  call 1004 (.registry (.updateNextEpochEncryptionPublicKey 10 (List.replicate 32 1))),
  call 1005 (.reconfig (.startReconfig (VecMap.empty.upsert 10 100)))]

def launch : List Label := register ++ [call 1006 (.reconfig (.endReconfig mpcKey (cert 0)))]

/-- A deposit of 1000000 with a recipient and one of 500000 without. -/
def deposits : List Label := [
  call 1010 (.bridge (.deposit ⟨⟨500, 0⟩, 1000000, some 20⟩)),
  call 1011 (.bridge (.deposit ⟨⟨501, 0⟩, 500000, none⟩)),
  call 1012 (.bridge (.approveDeposit 1010 (cert 0))),
  call 1013 (.bridge (.approveDeposit 1011 (cert 0))),
  call 1014 (.bridge (.confirmDeposit 1010)),
  call 1015 (.bridge (.confirmDeposit 1011))]

/-- A withdrawal of 400000 from the first deposit, with 600000 of change. -/
def withdrawal : List Label := [
  call 1016 (.bridge (.requestWithdrawal 400000 (List.replicate 20 0))),
  call 1017 (.bridge (.approveRequest 1016 (cert 0))),
  call 1018 (.bridge (.commitWithdrawalTx [1016] [⟨500, 0⟩]
    [⟨399000, List.replicate 20 0⟩, ⟨600000, []⟩] 700 (cert 0) [1]))]

def signing : List Label := [
  call 1019 (.bridge (.commitInputSignatures 1018 [0] [[5]] (cert 0))),
  call 1020 (.bridge (.finalizeWithdrawal 1018 [[6]] (cert 0)))]

def confirmation : List Label := [call 1021 (.bridge (.confirmWithdrawal 1018 (cert 0)))]

/-- A second withdrawal that spends the unconfirmed change of the first one, up to its cleanup. -/
def child : List Label := [
  call 1040 (.bridge (.requestWithdrawal 300000 (List.replicate 20 0))),
  call 1041 (.bridge (.approveRequest 1040 (cert 0))),
  call 1042 (.bridge (.commitWithdrawalTx [1040] [⟨700, 1⟩]
    [⟨299000, List.replicate 20 0⟩, ⟨300000, []⟩] 701 (cert 0) [3])),
  call 1043 (.bridge (.commitInputSignatures 1042 [0] [[5]] (cert 0))),
  call 1044 (.bridge (.finalizeWithdrawal 1042 [[6]] (cert 0))),
  call 1045 (.bridge (.confirmWithdrawal 1042 (cert 0))),
  call 1046 (.bridge (.cleanupSpentUtxos [⟨700, 1⟩]))]

def rotation : List Label := [
  .advance 1 1000,
  call 1030 (.reconfig (.startReconfig (VecMap.empty.upsert 10 100))),
  call 1031 (.reconfig (.submitCommitteeHandoff 1 (cert 0))),
  call 1032 (.reconfig (.endReconfig mpcKey (cert 1)))]

end Sample

end HashiBridge.Chain
