import HashiBridge.Guardian.UnsignedTx

/-!
# The serialization of Bitcoin transactions

The Bitcoin library writes a transaction without witnesses in the old format, and one with a
witness, or without inputs, in the segwit format.
-/

namespace HashiBridge.Guardian

open Lib HashiBridge.Core

/-! ## Encodings -/

def littleEndian : Nat → Nat → Bytes
  | 0, _ => []
  | width + 1, n => UInt8.ofNat n :: littleEndian width (n / 256)

def compactSize (n : Nat) : Bytes :=
  if n ≤ 252 then [UInt8.ofNat n]
  else if n ≤ 0xFFFF then 0xFD :: littleEndian 2 n
  else if n ≤ 0xFFFFFFFF then 0xFE :: littleEndian 4 n
  else 0xFF :: littleEndian 8 n

def encodeVec {α : Type} (encode : α → Bytes) (xs : List α) : Bytes :=
  compactSize xs.length ++ xs.flatMap encode

def encodeBytes (bytes : Bytes) : Bytes := compactSize bytes.length ++ bytes

def OutPoint.encode (self : OutPoint) : Bytes := littleEndian 32 self.txid ++ littleEndian 4 self.vout

def TxIn.encode (self : TxIn) : Bytes :=
  self.previousOutput.encode ++ encodeBytes self.scriptSig ++ littleEndian 4 self.sequence

def TxIn.encodeWitness (self : TxIn) : Bytes := encodeVec encodeBytes self.witness

def TxOut.encode (self : TxOut) : Bytes := littleEndian 8 self.value ++ encodeBytes self.scriptPubkey

namespace Transaction

/-- A transaction without inputs could be taken for the other format, so it is written in this
one. -/
def usesSegwitSerialization (self : Transaction) : Bool :=
  self.input.any (fun input => !input.witness.isEmpty) || self.input.isEmpty

def encodeBody (self : Transaction) : Bytes :=
  encodeVec TxIn.encode self.input ++ encodeVec TxOut.encode self.output

def encodeBase (self : Transaction) : Bytes :=
  littleEndian 4 self.version ++ self.encodeBody ++ littleEndian 4 self.lockTime

def encode (self : Transaction) : Bytes :=
  if self.usesSegwitSerialization then
    littleEndian 4 self.version ++ [0, 1] ++ self.encodeBody ++
      self.input.flatMap TxIn.encodeWitness ++ littleEndian 4 self.lockTime
  else self.encodeBase

def weight (self : Transaction) : Nat := 3 * self.encodeBase.length + self.encode.length

end Transaction

/-! ## Lengths -/

@[simp] theorem littleEndian_length (width n : Nat) : (littleEndian width n).length = width := by
  induction width generalizing n with
  | zero => rfl
  | succ width ih => rw [littleEndian, List.length_cons, ih]

theorem compactSize_length_of_le {n : Nat} (h : n ≤ 252) : (compactSize n).length = 1 := by
  rw [compactSize, if_pos h]
  rfl

theorem encodeVec_length {α : Type} {encode : α → Bytes} {size : α → Nat}
    (h : ∀ a, (encode a).length = size a) (xs : List α) :
    (encodeVec encode xs).length = (compactSize xs.length).length + (xs.map size).sum := by
  rw [encodeVec, List.length_append, List.length_flatMap]
  congr 2
  exact List.map_congr_left fun a _ => h a

theorem TxOut.encode_length (self : TxOut) :
    self.encode.length =
      8 + ((compactSize self.scriptPubkey.length).length + self.scriptPubkey.length) := by
  simp only [TxOut.encode, encodeBytes, List.length_append, littleEndian_length]

namespace Transaction

def witnessSize (self : Transaction) : Nat :=
  (self.input.map fun input => input.encodeWitness.length).sum

theorem encodeBase_length (self : Transaction) :
    self.encodeBase.length = 8 + ((compactSize self.input.length).length +
      (self.input.map fun input => input.encode.length).sum) +
      ((compactSize self.output.length).length +
        (self.output.map fun output => output.encode.length).sum) := by
  simp only [encodeBase, encodeBody, List.length_append, littleEndian_length,
    encodeVec_length fun _ => rfl]
  omega

theorem weight_eq (self : Transaction) :
    self.weight = 4 * self.encodeBase.length +
      if self.usesSegwitSerialization then 2 + self.witnessSize else 0 := by
  rw [weight, encode]
  split
  · simp only [encodeBase, witnessSize, List.length_append, List.length_flatMap, List.length_cons,
      List.length_nil]
    omega
  · omega

end Transaction

end HashiBridge.Guardian
