import HashiBridge.Guardian.Limiter
import HashiBridge.Guardian.Utxo
import HashiBridge.Node.Committee

/-!
# Signing a withdrawal

`standardWithdrawal` is the guardian's endpoint: it checks the request's certificate and its
timestamp against the clock, takes the outflow from the limiter, signs and logs.
-/

namespace HashiBridge.Guardian

open Lib HashiBridge.Core

def MAX_CLOCK_SKEW_SECS : Nat := 5 * 60
def MAX_REQUEST_AGE_SECS : Nat := 30 * 60

structure StandardWithdrawalRequestWire where
  wid : Address
  utxos : TxUTXOsWire
  timestampSecs : Nat
  seq : UInt64
deriving DecidableEq

structure StandardWithdrawalRequest where
  wid : Address
  utxos : TxUTXOs
  timestampSecs : Nat
  seq : UInt64
deriving DecidableEq

structure SignedStandardWithdrawalRequestWire where
  data : StandardWithdrawalRequestWire
  signature : Core.CommitteeSignature
deriving DecidableEq

structure WithdrawalLogMessage where
  txid : Nat
  requestData : StandardWithdrawalRequest
  requestSign : Node.CommitteeSignature
  enclaveSignatures : List Bytes
  postState : LimiterState
deriving DecidableEq

structure Env where
  bitcoin : BitcoinLib
  verify : Node.AggregateVerify
  bcsRequest : StandardWithdrawalRequest → Bytes
  /-- a signature that does not parse, in debug form -/
  parseSignature : Bytes → Except String Unit
  debugSignatureError : Node.SignatureError → String
  btcSign : TxUTXOs → Nat × List Bytes

structure Enclave where
  /-- whether the deployment, and with it the network, is set -/
  deployed : Bool
  hashiObjectId : Option Address
  lifecycle : Option EnclaveLifecycle
  committee : Option Node.Committee
  rateLimiter : Option RateLimiter
  /-- the withdrawals logged so far, newest first -/
  withdrawLog : List WithdrawalLogMessage
deriving DecidableEq

def GUARDIAN_WITHDRAWAL_REQUEST : Nat := 0x0106

def validateAddr (env : Env) (signedRequest : SignedStandardWithdrawalRequestWire) :
    GuardianResult (Node.SignedMessage StandardWithdrawalRequest) := do
  let data := signedRequest.data
  let utxos ← (TxUTXOs.new env.bitcoin data.utxos.inputs data.utxos.outputs).mapError
    .invalidInputs
  (env.parseSignature signedRequest.signature.signature).mapError .invalidInputs
  return { signature := .fromMove signedRequest.signature
           message := ⟨data.wid, utxos, data.timestampSecs, data.seq⟩ }

def verifyHashiCert (env : Env) (hashiId : Address) (committee : Node.Committee)
    (signedRequest : Node.SignedMessage StandardWithdrawalRequest) : GuardianResult Unit :=
  let threshold := Node.certificateThreshold committee.totalWeight
  (committee.verifySignatureAndWeight env.verify GUARDIAN_WITHDRAWAL_REQUEST env.bcsRequest hashiId
    signedRequest threshold).mapError fun e =>
      let debug := env.debugSignatureError e
      .unauthenticated s!"signature verification failed: {debug}"

def validateRequestTimestamp (requestTimestampSecs guardianNow : Nat) : GuardianResult Unit := do
  require (requestTimestampSecs ≤ wrapU64 (guardianNow + MAX_CLOCK_SKEW_SECS))
    (GuardianError.invalidInputs (s!"request timestamp {requestTimestampSecs} is too far in " ++
      s!"the future (guardian clock: {guardianNow})"))
  require (guardianNow - requestTimestampSecs ≤ MAX_REQUEST_AGE_SECS)
    (GuardianError.invalidInputs (s!"request timestamp {requestTimestampSecs} is too old " ++
      s!"(guardian clock: {guardianNow}, maximum age: {MAX_REQUEST_AGE_SECS} seconds)"))

namespace Enclave

def requireLifecycle (self : Enclave) (expected : Option EnclaveLifecycle) : GuardianResult Unit :=
  require (self.lifecycle = expected) (GuardianError.lifecycleMismatch expected self.lifecycle)

def requireFullyInitialized (self : Enclave) : GuardianResult Unit :=
  self.requireLifecycle (some (.withdraw .activated))

def consumeFromLimiter (seq : UInt64) (timestamp amountSats : Nat) :
    GuardianM Enclave LimiterState := do
  let self ← get
  match self.rateLimiter with
  | none => throw (.internalError "rate limiter not initialized")
  | some limiter =>
      let (result, limiter) := exec (RateLimiter.consume seq timestamp amountSats) limiter
      set { self with rateLimiter := some limiter }
      attempt result
      return limiter.state

def standardWithdrawal (env : Env) (now : Nat)
    (signedRequest : SignedStandardWithdrawalRequestWire) : GuardianM Enclave (List Bytes) := do
  let self ← get
  attempt (require self.deployed (GuardianError.invalidInputs "Deployment is uninitialized"))
  let signedRequest ← attempt (validateAddr env signedRequest)
  attempt self.requireFullyInitialized
  let committee ← attempt (orAbort self.committee
    (GuardianError.invalidInputs "committee not initialized"))
  let hashiId ← attempt (orAbort self.hashiObjectId
    (GuardianError.invalidInputs "Hashi object id is not initialized"))
  attempt (verifyHashiCert env hashiId committee signedRequest)
  let request := signedRequest.message
  attempt (validateRequestTimestamp request.timestampSecs now)
  let postState ← consumeFromLimiter request.seq request.timestampSecs
    request.utxos.grossOutflowAmount
  let (txid, enclaveSignatures) := env.btcSign request.utxos
  let self ← get
  set { self with withdrawLog :=
    ⟨txid, request, signedRequest.signature, enclaveSignatures, postState⟩ :: self.withdrawLog }
  return enclaveSignatures

end Enclave

end HashiBridge.Guardian
