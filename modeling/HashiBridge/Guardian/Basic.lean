import HashiBridge.Core.Basic
import HashiBridge.Lib.Method

/-!
# Results of the guardian

The lifecycle of an enclave session and the errors its endpoints return.
-/

namespace HashiBridge.Guardian

open Lib

inductive CeremonyStage
  | operatorInitialized | awaitingKeyProvisionerConfirmations | completed
deriving DecidableEq

inductive WithdrawStage
  | operatorInitialized | provisionerInitialized | activated
deriving DecidableEq

inductive EnclaveLifecycle
  | ceremony (stage : CeremonyStage)
  | withdraw (stage : WithdrawStage)
deriving DecidableEq

inductive GuardianError
  | internalError (message : String)
  | invalidInputs (message : String)
  | unauthenticated (message : String)
  | lifecycleMismatch (expected actual : Option EnclaveLifecycle)
  | limiterSequenceMismatch (expected actual : UInt64)
  | rateLimitExceeded (requestedSats capacitySats : Nat)
  | invalidS3Log (message : String)
deriving DecidableEq

abbrev GuardianResult := Except GuardianError

abbrev GuardianM := Method GuardianError

end HashiBridge.Guardian
