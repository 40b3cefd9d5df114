import HashiBridge.Guardian.Basic
import HashiBridge.Lib.Calendar

/-!
# Directories of the guardian's logs

A log lies in the directory of the hour it was signed in. A path is kept as the list of its parts,
without the slash at the end, and a part as its characters.
-/

namespace HashiBridge.Guardian

open Lib

abbrev PathPart := List Char

abbrev S3Path := List PathPart

def S3Path.text (path : S3Path) : List Char := path.flatMap (· ++ ['/'])

def S3_DIR_WITHDRAW : PathPart := "withdraw".toList

def SECONDS_PER_HOUR : Nat := 60 * 60

def SECONDS_PER_DAY : Nat := 24 * SECONDS_PER_HOUR

def stripSign : PathPart → PathPart
  | '+' :: digits => digits
  | digits => digits

/-- The number that a part spells in decimal, with an optional sign, if it is a `u64`. -/
def parseU64 (part : PathPart) : Option Nat :=
  let digits := stripSign part
  if digits ≠ [] ∧ digits.all Char.isDigit ∧ Nat.ofDigitChars 10 digits 0 < U64_SIZE then
    some (Nat.ofDigitChars 10 digits 0)
  else none

def padded (width n : Nat) : PathPart := (Nat.toDigits 10 n).leftpad width '0'

/-! ## Numeric directories -/

structure S3NumericDirectory where
  root : PathPart
  components : List Nat
  path : S3Path
deriving DecidableEq

namespace S3NumericDirectory

def fromPath (path : S3Path) : Except String S3NumericDirectory :=
  let text := String.ofList path.text
  match path with
  | [] => .error "missing directory prefix"
  | root :: parts => do
      require (root ≠ []) s!"empty directory prefix in {text}"
      let components ← parts.mapM fun part =>
        orAbort (parseU64 part) s!"invalid numeric directory component in {text}"
      return { root, components, path }

/-- The order of directories: the first part, then the numbers, then the path as it is written. -/
def key (dir : S3NumericDirectory) : List Char ×ₗ List Nat ×ₗ List Char :=
  toLex (dir.root, toLex (dir.components, dir.path.text))

def le (a b : S3NumericDirectory) : Prop := a.key ≤ b.key

instance : DecidableRel le := fun a b => inferInstanceAs (Decidable (a.key ≤ b.key))

def sortDesc (paths : List S3Path) : Except String (List S3Path) := do
  let dirs ← paths.mapM fromPath
  return (dirs.insertionSort le).reverse.map path

end S3NumericDirectory

/-! ## Directories of an hour -/

def MAX_YEAR : Nat := 9999

structure S3HourDirectory where
  root : PathPart
  date : Date
  hour : Nat
  date_valid : date.Valid
  year_le : date.year ≤ MAX_YEAR
  hour_lt : hour < 24
deriving DecidableEq

namespace S3HourDirectory

def new (root : PathPart) (t : Nat) : Except String S3HourDirectory :=
  if 2 ^ 63 ≤ t then .error "timestamp exceeds i64 range"
  else
    match h : Date.ofDayNumber (MAX_YEAR + 1 - 1970) (t / SECONDS_PER_DAY) with
    | none => .error "timestamp outside supported calendar range"
    | some date =>
        have hdate := Date.ofDayNumber_eq_some.mp h
        .ok { root, date, hour := t % SECONDS_PER_DAY / SECONDS_PER_HOUR
              date_valid := hdate.1
              year_le := by
                have := hdate.2.1
                simp only [MAX_YEAR] at *
                omega
              hour_lt := Nat.div_lt_of_lt_mul (Nat.mod_lt t (by decide)) }

def withdraw (t : Nat) : Except String S3HourDirectory := new S3_DIR_WITHDRAW t

def toUnixSeconds (self : S3HourDirectory) : Nat :=
  self.date.dayNumber * SECONDS_PER_DAY + self.hour * SECONDS_PER_HOUR

/-- The directory of the hour before, or the same one at the epoch. -/
def prevDir (self : S3HourDirectory) : Except String S3HourDirectory :=
  new self.root (self.toUnixSeconds - SECONDS_PER_HOUR)

def nextDir (self : S3HourDirectory) : Except String S3HourDirectory :=
  new self.root (saturateU64 (self.toUnixSeconds + SECONDS_PER_HOUR))

def path (self : S3HourDirectory) : S3Path :=
  [self.root, padded 4 self.date.year, padded 2 self.date.month, padded 2 self.date.day,
    padded 2 self.hour]

/-- The directory of a path, which must be written as `path` writes it. -/
def fromPath (path : S3Path) : Except String S3HourDirectory := do
  let dir ← S3NumericDirectory.fromPath path
  let text := String.ofList dir.path.text
  match dir.components with
  | [year, month, day, hour] =>
      require (year < 2 ^ 31) "year out of range"
      require (1970 ≤ year) s!"directory predates the Unix epoch: {text}"
      require (month < 2 ^ 8) "month out of range"
      require (day < 2 ^ 8) "day out of range"
      require (hour < 2 ^ 8) "hour out of range"
      if h : (Date.mk year month day).Valid ∧ year ≤ MAX_YEAR ∧ hour < 24 then
        let complete : S3HourDirectory := ⟨dir.root, ⟨year, month, day⟩, hour, h.1, h.2.1, h.2.2⟩
        let canonical := String.ofList complete.path.text
        let stripped := String.ofList dir.path.text.dropLast
        require (complete.path = dir.path)
          s!"noncanonical directory path {stripped}; expected {canonical}"
        return complete
      else throw s!"invalid path {text}"
  | _ => throw s!"expected a complete YYYY/MM/DD/HH directory, got {text}"

end S3HourDirectory

end HashiBridge.Guardian
