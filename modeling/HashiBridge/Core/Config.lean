import HashiBridge.Core.Basic

/-!
# Typed configuration stores

A store maps text keys to typed values. Reading a value at another type than the stored one aborts,
so the governance checks at the end decide which updates keep a store readable.
-/

namespace HashiBridge.Core

open Lib

inductive Value
  | u64 (value : Nat)
  | u128 (value : Nat)
  | u256 (value : Nat)
  | address (value : Address)
  | string (value : String)
  | bool (value : Bool)
  | bytes (value : Bytes)
deriving DecidableEq

namespace Value

def sameVariant : Value → Value → Bool
  | u64 _, u64 _ => true
  | u128 _, u128 _ => true
  | u256 _, u256 _ => true
  | address _, address _ => true
  | string _, string _ => true
  | bool _, bool _ => true
  | bytes _, bytes _ => true
  | _, _ => false

def asU64 : Value → Except Abort Nat
  | u64 num => .ok num
  | _ => .error .invalidConfigValue

def asBool : Value → Except Abort Bool
  | bool val => .ok val
  | _ => .error .invalidConfigValue

def asBytes : Value → Except Abort Bytes
  | bytes bs => .ok bs
  | _ => .error .invalidConfigValue

def asAddress : Value → Except Abort Address
  | address addr => .ok addr
  | _ => .error .invalidConfigValue

def asString : Value → Except Abort String
  | string str => .ok str
  | _ => .error .invalidConfigValue

end Value

structure Config where
  config : VecMap String Value
deriving DecidableEq

namespace Config

/-! ## The store -/

def empty : Config := ⟨VecMap.empty⟩

def get (self : Config) (key : String) : Except Abort Value := self.config.get .keyDoesNotExist key

def tryGet (self : Config) (key : String) : Option Value := self.config.tryGet key

def contains (self : Config) (key : String) : Bool := self.config.contains key

def upsert (self : Config) (key : String) (value : Value) : Config :=
  ⟨self.config.upsert key value⟩

def u64Or (self : Config) (key : String) (default : Nat) : Except Abort Nat :=
  match self.tryGet key with
  | some v => v.asU64
  | none => .ok default

def isValidConfigUpdate (self : Config) (key : String) (value : Value) : Bool :=
  match self.tryGet key with
  | some v => v.sameVariant value
  | none => false

/-! ## Core accessors -/

def PAUSED_KEY : String := "paused"
def RECONFIG_HOLD_KEY : String := "reconfig_hold"
def GUARDIAN_URL_KEY : String := "guardian_url"
def GUARDIAN_NODE_URL_KEY : String := "guardian_node_url"
def GUARDIAN_BTC_PUBLIC_KEY_KEY : String := "guardian_btc_public_key"
def GUARDIAN_BTC_PUBLIC_KEY_LEN : Nat := 32
def EMERGENCY_PAUSE_THRESHOLD_BPS_KEY : String := "governance_emergency_pause_threshold_bps"
def EMERGENCY_UNPAUSE_THRESHOLD_BPS_KEY : String := "governance_emergency_unpause_threshold_bps"
def DEFAULT_EMERGENCY_PAUSE_THRESHOLD_BPS : Nat := 500
def DEFAULT_EMERGENCY_UNPAUSE_THRESHOLD_BPS : Nat := 6667

def create : Config :=
  (((empty.upsert PAUSED_KEY (.bool false)).upsert RECONFIG_HOLD_KEY (.bool false)).upsert
    EMERGENCY_PAUSE_THRESHOLD_BPS_KEY (.u64 DEFAULT_EMERGENCY_PAUSE_THRESHOLD_BPS)).upsert
    EMERGENCY_UNPAUSE_THRESHOLD_BPS_KEY (.u64 DEFAULT_EMERGENCY_UNPAUSE_THRESHOLD_BPS)

/-- The guardian key is written once, never through the generic update path. -/
def isGovernableKey (key : String) : Bool := key != GUARDIAN_BTC_PUBLIC_KEY_KEY

def paused (self : Config) : Except Abort Bool := do
  let v ← self.get PAUSED_KEY
  v.asBool

def setPaused (self : Config) (paused : Bool) : Config := self.upsert PAUSED_KEY (.bool paused)

def reconfigHold (self : Config) : Except Abort Bool :=
  match self.tryGet RECONFIG_HOLD_KEY with
  | some v => v.asBool
  | none => .ok false

def guardianUrl (self : Config) : Except Abort (Option String) :=
  match self.tryGet GUARDIAN_URL_KEY with
  | some v => some <$> v.asString
  | none => .ok none

def guardianNodeUrl (self : Config) : Except Abort (Option String) :=
  match self.tryGet GUARDIAN_NODE_URL_KEY with
  | some v => some <$> v.asString
  | none => .ok none

def guardianBtcPublicKey (self : Config) : Except Abort (Option Bytes) :=
  match self.tryGet GUARDIAN_BTC_PUBLIC_KEY_KEY with
  | some v => some <$> v.asBytes
  | none => .ok none

def setGuardianUrl (self : Config) (url : String) : Config :=
  self.upsert GUARDIAN_URL_KEY (.string url)

def setGuardianNodeUrl (self : Config) (url : String) : Config :=
  self.upsert GUARDIAN_NODE_URL_KEY (.string url)

def setGuardianBtcPublicKey (self : Config) (btcPublicKey : Bytes) : Except Abort Config := do
  require (btcPublicKey.length = GUARDIAN_BTC_PUBLIC_KEY_LEN) Abort.badGuardianBtcPublicKeyLength
  let existing ← self.guardianBtcPublicKey
  require (existing = none ∨ existing = some btcPublicKey) Abort.guardianBtcPublicKeyImmutable
  return self.upsert GUARDIAN_BTC_PUBLIC_KEY_KEY (.bytes btcPublicKey)

def emergencyPauseThresholdBps (self : Config) : Except Abort Nat :=
  self.u64Or EMERGENCY_PAUSE_THRESHOLD_BPS_KEY DEFAULT_EMERGENCY_PAUSE_THRESHOLD_BPS

def emergencyUnpauseThresholdBps (self : Config) : Except Abort Nat :=
  self.u64Or EMERGENCY_UNPAUSE_THRESHOLD_BPS_KEY DEFAULT_EMERGENCY_UNPAUSE_THRESHOLD_BPS

end Config

/-! ## MPC parameters -/

namespace MpcConfig

def DEFAULT_WEIGHT_REDUCTION_ALLOWED_DELTA : Nat := 800
def DEFAULT_MAX_FAULTY_IN_BASIS_POINTS : Nat := 3333
def DEFAULT_NONCE_ACCUMULATION_WINDOW_MS : Nat := 2000
def MAX_NONCE_ACCUMULATION_WINDOW_MS : Nat := 10000
def MAX_BPS : Nat := 10000
def MAX_FAULTY_BPS : Nat := 3333

def KEY_REMOVED_THRESHOLD_IN_BASIS_POINTS : String := "mpc_threshold_in_basis_points"
def KEY_MAX_FAULTY_IN_BASIS_POINTS : String := "mpc_max_faulty_in_basis_points"
def KEY_WEIGHT_REDUCTION_ALLOWED_DELTA : String := "mpc_weight_reduction_allowed_delta"
def KEY_REMOVED_NONCE_GENERATION_PROTOCOL : String := "mpc_nonce_generation_protocol"
def KEY_NONCE_ACCUMULATION_WINDOW_MS : String := "mpc_nonce_accumulation_window_ms"

def u64Within (lo hi : Nat) : Value → Bool
  | .u64 num => lo ≤ num && num ≤ hi
  | _ => false

/-- The range check of a value bound for the epoch store; keys of other modules pass and retired
keys are refused. -/
def isValidValue (key : String) (value : Value) : Bool :=
  if key = KEY_REMOVED_THRESHOLD_IN_BASIS_POINTS then false
  else if key = KEY_WEIGHT_REDUCTION_ALLOWED_DELTA then u64Within 0 MAX_BPS value
  else if key = KEY_MAX_FAULTY_IN_BASIS_POINTS then u64Within 1 MAX_FAULTY_BPS value
  else if key = KEY_REMOVED_NONCE_GENERATION_PROTOCOL then false
  else if key = KEY_NONCE_ACCUMULATION_WINDOW_MS then
    u64Within 0 MAX_NONCE_ACCUMULATION_WINDOW_MS value
  else true

def weightReductionAllowedDelta (config : Config) : Except Abort Nat :=
  config.u64Or KEY_WEIGHT_REDUCTION_ALLOWED_DELTA DEFAULT_WEIGHT_REDUCTION_ALLOWED_DELTA

def maxFaultyInBasisPoints (config : Config) : Except Abort Nat :=
  config.u64Or KEY_MAX_FAULTY_IN_BASIS_POINTS DEFAULT_MAX_FAULTY_IN_BASIS_POINTS

def nonceAccumulationWindowMs (config : Config) : Except Abort Nat :=
  config.u64Or KEY_NONCE_ACCUMULATION_WINDOW_MS DEFAULT_NONCE_ACCUMULATION_WINDOW_MS

def initDefaults (config : Config) : Config :=
  ((config.upsert KEY_WEIGHT_REDUCTION_ALLOWED_DELTA
      (.u64 DEFAULT_WEIGHT_REDUCTION_ALLOWED_DELTA)).upsert
    KEY_MAX_FAULTY_IN_BASIS_POINTS (.u64 DEFAULT_MAX_FAULTY_IN_BASIS_POINTS)).upsert
    KEY_NONCE_ACCUMULATION_WINDOW_MS (.u64 DEFAULT_NONCE_ACCUMULATION_WINDOW_MS)

def isConsistent (config : Config) : Except Abort Bool := do
  let delta ← weightReductionAllowedDelta config
  let faulty ← maxFaultyInBasisPoints config
  return decide (delta < faulty)

end MpcConfig

end HashiBridge.Core
