import HashiBridge.Core.Basic

/-!
# Custody of the package's capabilities

The treasury holds the BTC mint capability, whose total supply is the amount minted less the amount
burned. Versioning holds the set of enabled package versions and the package's upgrade capability.
-/

namespace HashiBridge.Core

open Lib

/-! ## Treasury -/

structure Treasury where
  /-- the total supply of the registered capability -/
  treasuryCap : Option Nat
  metadataCap : Bool
deriving DecidableEq

namespace Treasury

def create : Treasury := ⟨none, false⟩

def supply (self : Treasury) : Nat := self.treasuryCap.getD 0

def registerTreasuryCap (self : Treasury) : Except Abort Treasury := do
  require (self.treasuryCap = none) Abort.fieldAlreadyExists
  return { self with treasuryCap := some 0 }

def registerMetadataCap (self : Treasury) : Except Abort Treasury := do
  require (self.metadataCap = false) Abort.fieldAlreadyExists
  return { self with metadataCap := true }

def mintBalance (self : Treasury) (amount : Nat) : Except Abort Treasury := do
  let supply ← orAbort self.treasuryCap Abort.fieldDoesNotExist
  require (amount < U64_SIZE - 1 - supply) Abort.arithmetic
  return { self with treasuryCap := some (supply + amount) }

def burn (self : Treasury) (amount : Nat) : Except Abort Treasury := do
  let supply ← orAbort self.treasuryCap Abort.fieldDoesNotExist
  require (amount ≤ supply) Abort.arithmetic
  return { self with treasuryCap := some (supply - amount) }

theorem mintBalance_supply {self self' : Treasury} {amount : Nat}
    (h : self.mintBalance amount = .ok self') : self'.supply = self.supply + amount := by
  simp only [mintBalance, bind_eq_ok, orAbort_eq_ok, require_eq_ok, pure_eq_ok] at h
  obtain ⟨supply, hsupply, _, -, rfl⟩ := h
  simp [Treasury.supply, hsupply]

theorem burn_supply {self self' : Treasury} {amount : Nat} (h : self.burn amount = .ok self') :
    amount ≤ self.supply ∧ self'.supply + amount = self.supply := by
  simp only [burn, bind_eq_ok, orAbort_eq_ok, require_eq_ok, pure_eq_ok] at h
  obtain ⟨supply, hsupply, _, hle, rfl⟩ := h
  simp only [Treasury.supply, hsupply, Option.getD_some]
  omega

end Treasury

/-! ## Versioning -/

structure UpgradeCap where
  package : Address
  version : Nat
  policy : Nat
deriving DecidableEq

structure Versioning where
  enabledVersions : Finset Nat
  upgradeCap : Option UpgradeCap
deriving DecidableEq

namespace Versioning

def PACKAGE_VERSION : Nat := 1

def create : Versioning := ⟨{PACKAGE_VERSION}, none⟩

def assertVersionEnabled (self : Versioning) : Except Abort Unit :=
  require (PACKAGE_VERSION ∈ self.enabledVersions) Abort.versionDisabled

def disableVersion (self : Versioning) (version : Nat) : Except Abort Versioning := do
  require (version ≠ PACKAGE_VERSION) Abort.disableCurrentVersion
  require (version ∈ self.enabledVersions) Abort.keyDoesNotExist
  return { self with enabledVersions := self.enabledVersions.erase version }

def enableVersion (self : Versioning) (version : Nat) : Except Abort Versioning := do
  require (version ∉ self.enabledVersions) Abort.keyAlreadyExists
  return { self with enabledVersions := insert version self.enabledVersions }

/-- Take the ticket for one upgrade; the capability is blocked until the upgrade is committed. -/
def authorizeUpgrade (self : Versioning) : Except Abort Versioning := do
  let cap ← orAbort self.upgradeCap Abort.optionIsNone
  require (cap.package ≠ 0) Abort.upgradeAlreadyAuthorized
  return { self with upgradeCap := some { cap with package := 0 } }

/-- Commit the upgrade and enable its version: alone, or beside the ones enabled before. -/
def commitUpgrade (self : Versioning) (package : Address) (exclusive : Bool) :
    Except Abort Versioning := do
  let cap ← orAbort self.upgradeCap Abort.optionIsNone
  require (cap.package = 0) Abort.assertion
  let version ← add cap.version 1
  require (exclusive = true ∨ version ∉ self.enabledVersions) Abort.keyAlreadyExists
  return { enabledVersions := if exclusive then {version} else insert version self.enabledVersions
           upgradeCap := some { cap with package, version } }

def setUpgradeCap (self : Versioning) (cap : UpgradeCap) : Except Abort Versioning := do
  require (self.upgradeCap = none) Abort.optionIsSome
  return { self with upgradeCap := some cap }

end Versioning

end HashiBridge.Core
