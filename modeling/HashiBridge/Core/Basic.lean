import HashiBridge.Lib.Bag
import HashiBridge.Lib.VecMap

/-!
# Values shared by every module of the package

Addresses and object ids are natural numbers, byte strings are lists of bytes, and a `u64` is a
natural number whose arithmetic aborts where the machine's would.
-/

namespace HashiBridge.Core

open Lib

abbrev Address := Nat

abbrev Bytes := List UInt8

/-- Why a call aborts. Assertions without an error constant are `assertion`; an error constant
that two modules declare under one name carries the module's name. -/
inductive Abort
  -- the Move runtime and the framework
  | assertion | arithmetic | fieldDoesNotExist | fieldAlreadyExists | fieldTypeMismatch
  | optionIsNone | optionIsSome | outOfBounds
  | keyDoesNotExist | keyAlreadyExists | invalidPoint | insufficientBalance | notEmpty
  | currencyAlreadyExists | upgradeAlreadyAuthorized
  -- config, config_value, threshold, versioning
  | invalidConfigValue | badGuardianBtcPublicKeyLength | guardianBtcPublicKeyImmutable
  | thresholdBpsTooHigh | versionDisabled | disableCurrentVersion
  -- committee
  | invalidBitmap | sigVerification | notEnoughStake | incorrectCommittee
  -- committee_set
  | memberNotRegistered | alreadyResigned | notResigned | lastActiveMember | memberStillActive
  | cannotRemoveIgnoredMember | memberNotRemovable | tlsPublicKeyInUse
  | invalidTlsPublicKeyLength | invalidTlsProofOfPossession | notAuthorized
  | notAnActiveSuiValidator | invalidEncryptionPublicKeyLength | invalidBlsProofOfPossession
  | pendingEpochStillCurrent | invalidMpcPublicKey | memberAlreadyRegistered
  -- reconfig
  | notReconfiguring | reconfigAlreadyCompleted | reconfigWindowClosed | wrongReconfigEpoch
  | initialReconfig | genesisNotAuthorized | reconfigHeld
  -- hashi
  | systemPaused | reconfiguring | noCommittee | wrongUpgradeCap
  -- mpc_signing
  | zeroInputs | indexOutOfRange | lengthMismatch | notStale | allocationMismatch | notComplete
  -- proposal and the proposal types
  | unauthorizedCaller | voteAlreadyCounted | quorumNotReached | noVoteFound | proposalNotExpired
  | proposalExpired | proposalAlreadyExecuted | notCommitteeMember | proposalNoCommittee
  | configKeyAlreadyExists | invalidConfigEntry | noEntriesProvided | protectedConfigKey
  | inconsistentMpcConfig | targetNotRegistered | alreadyInRequestedState
  -- tob and cert_submission
  | wrongEpoch | tooEarlyToDestroy | tooEarlyToDestroyNonceCerts | tooEarlyToDestroyKeyGenCerts
  | keyGenCertsStillNeeded | noNonceBucket
  -- utxo_pool, deposit and deposit_queue
  | utxoAlreadyLocked | utxoAlreadyUsed | belowMinimumDeposit | depositTimeDelayNotPassed
  | alreadyApprovedThisEpoch | depositRequestNotExpired | depositAlreadyProcessed
  -- withdraw
  | belowMinimumWithdrawal | invalidBitcoinAddress | unauthorizedCancellation | cooldownNotElapsed
  | cannotCancelProcessingWithdrawal | withdrawNotFullySigned
  -- withdrawal_queue
  | requestNotApproved | requestAlreadyCommitted | outputBelowDust | outputAmountMismatch
  | outputAddressMismatch | minerFeeExceedsMax | minerFeeNotEvenlySplit | inputsBelowOutputs
  | outputCountMismatch | withdrawalAlreadyFinalized | withdrawalNotFullySigned
  | cannotApproveCommittedRequest | approvalCertNotNewer | requestNotCancellable
  | withdrawalNotConfirmed | withdrawalAlreadyConfirmed | requestTxnMismatch
deriving DecidableEq, Repr

/-- What the transaction gives to an entry function: the sender, Sui's epoch, the digest of the
transaction and the id the next created object receives. -/
structure TxContext where
  sender : Address
  epoch : Nat
  digest : Bytes
  fresh : Address
deriving DecidableEq

/-! ## Checked arithmetic and canonical encodings -/

abbrev add (a b : Nat) : Except Abort Nat := addU64 .arithmetic a b

abbrev mul (a b : Nat) : Except Abort Nat := mulU64 .arithmetic a b

def divideAndRoundUp (x y : Nat) : Nat := if x % y = 0 then x / y else x / y + 1

theorem divideAndRoundUp_le_iff {x y z : Nat} (hy : 0 < y) :
    divideAndRoundUp x y ≤ z ↔ x ≤ y * z := by
  have hdiv := Nat.div_add_mod x y
  have hmod := Nat.mod_lt x hy
  unfold divideAndRoundUp
  split_ifs with h
  · rw [h, Nat.add_zero] at hdiv
    rw [← Nat.mul_le_mul_left_iff hy, hdiv]
  · rw [Nat.succ_le_iff, ← Nat.mul_lt_mul_left hy]
    constructor
    · intro hlt
      -- the next multiple of `y` is past `x`
      have hle : y * (x / y + 1) ≤ y * z := Nat.mul_le_mul_left y (Nat.lt_of_mul_lt_mul_left hlt)
      rw [Nat.mul_succ] at hle
      omega
    · intro hle
      omega

def toLittleEndian : Nat → Nat → Bytes
  | 0, _ => []
  | n + 1, x => UInt8.ofNat (x % 256) :: toLittleEndian n (x / 256)

def bcsU16 (x : Nat) : Bytes := toLittleEndian 2 x

def bcsU64 (x : Nat) : Bytes := toLittleEndian 8 x

/-- The canonical encoding of an address: 32 bytes, most significant first. -/
def bcsAddress (a : Address) : Bytes := (toLittleEndian 32 a).reverse

/-! ## Cryptography as an oracle -/

abbrev PublicKey := Bytes

/-- The native functions the package calls. Nothing is assumed about them: a certificate may
verify over any message. -/
structure Crypto where
  /-- `bls12381_min_pk_verify signature publicKey message` -/
  minPkVerify : Bytes → Bytes → Bytes → Bool
  /-- the compressed bytes of `uncompressed_g1_sum` -/
  g1Sum : List PublicKey → Bytes
  /-- `g1_to_uncompressed_g1 (g1_from_bytes bytes)`, where the bytes are a group element -/
  g1FromBytes : Bytes → Option PublicKey
  /-- the group's identity in uncompressed form -/
  g1Identity : PublicKey
  /-- `ed25519_verify signature publicKey message` -/
  ed25519Verify : Bytes → Bytes → Bytes → Bool

end HashiBridge.Core
