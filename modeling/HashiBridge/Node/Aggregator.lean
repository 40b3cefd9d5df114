import HashiBridge.Node.Committee

/-!
# Building a certificate

Members' signatures on a message are verified one by one and added to an aggregate, with a bitmap of
the signers and their weight.
-/

namespace HashiBridge.Node

open Lib HashiBridge.Core

variable {T G : Type}

structure Bls (G : Type) where
  /-- of one signature, under a key on a message -/
  verify : PublicKey → Bytes → G → Bool
  /-- the bytes of an aggregate -/
  toBytes : G → Bytes
  aggregateVerify : AggregateVerify

structure MemberSignature (G : Type) where
  epoch : Nat
  address : Address
  signature : G
deriving DecidableEq

inductive AggregatorError
  | epochMismatch (signature committee : Nat)
  | unknownAddress (address : Address)
  /-- the error of the verification itself -/
  | invalidSignature
  | duplicate
  | empty
  | certificate (error : SignatureError)
deriving DecidableEq

/-! ## Bitmaps -/

namespace BitMap

def new : BitMap := ⟨[]⟩

/-- Set a bit, with zero bytes appended where the bitmap is too short. The answer is the bit's old
value. -/
def insert (self : BitMap) (b : Nat) : Bool × BitMap :=
  let byteIndex := b / 8
  let bitMask := mask (b % 8)
  let bitmap := self.bitmap ++ List.replicate (byteIndex + 1 - self.bitmap.length) 0
  let byte := bitmap.getD byteIndex 0
  (byte &&& bitMask ≠ 0, ⟨bitmap.set byteIndex (byte ||| bitMask)⟩)

end BitMap

/-! ## Members -/

namespace Committee

/-- The index under an address: of members with one address the last is kept. -/
def indexOf (self : Committee) (address : Address) : Option Nat :=
  (self.members.zipIdx.reverse.find? fun entry => entry.1.address = address).map Prod.snd

def member (self : Committee) (address : Address) : Except AggregatorError CommitteeMember :=
  orAbort ((self.indexOf address).bind (self.members[·]?)) (.unknownAddress address)

def verify (bls : Bls G) (intent : Nat) (toBytes : T → Bytes) (self : Committee) (hashiId : Address)
    (message : T) (signature : MemberSignature G) : Except AggregatorError Unit := do
  require (self.epoch = signature.epoch)
    (AggregatorError.epochMismatch signature.epoch self.epoch)
  let messageBytes := signingMessage intent hashiId signature.epoch (toBytes message)
  let member ← self.member signature.address
  require (bls.verify member.publicKey messageBytes signature.signature)
    AggregatorError.invalidSignature

end Committee

/-! ## The aggregator -/

structure BlsSignatureAggregator (T G : Type) where
  committee : Committee
  hashiId : Address
  aggregateSignature : Option G
  bitmap : BitMap
  message : T
  /-- the weight of the signers -/
  signed : Nat
deriving DecidableEq

namespace BlsSignatureAggregator

def new (hashiId : Address) (committee : Committee) (message : T) : BlsSignatureAggregator T G :=
  { committee, hashiId, aggregateSignature := none, bitmap := .new, message, signed := 0 }

def weight (self : BlsSignatureAggregator T G) : Nat := self.signed

def epoch (self : BlsSignatureAggregator T G) : Nat := self.committee.epoch

def addSigner (self : BlsSignatureAggregator T G) (index : Nat) : BlsSignatureAggregator T G :=
  { self with
    signed := wrapU64 (self.signed + ((self.committee.members[index]?).map CommitteeMember.weight).getD 0) }

variable [Add G] (bls : Bls G) (intent : Nat) (toBytes : T → Bytes)

/-- Add a member's signature. The bit is set before the check for a repetition. -/
def addSignature (self : BlsSignatureAggregator T G) (signature : MemberSignature G) :
    Except AggregatorError Unit × BlsSignatureAggregator T G :=
  match self.committee.verify bls intent toBytes self.hashiId self.message signature with
  | .error error => (.error error, self)
  | .ok () =>
      match self.committee.indexOf signature.address with
      | none => (.error (.unknownAddress signature.address), self)
      | some index =>
          let (previous, bitmap) := self.bitmap.insert index
          let self := { self with bitmap }
          if previous then (.error .duplicate, self)
          else
            let aggregate := match self.aggregateSignature with
              | none => signature.signature
              | some aggregateSignature => aggregateSignature + signature.signature
            (.ok (), { self with aggregateSignature := some aggregate }.addSigner index)

def finish (self : BlsSignatureAggregator T G) : Except AggregatorError (SignedMessage T) :=
  match self.aggregateSignature with
  | none => .error .empty
  | some signature => do
      let signedMessage : SignedMessage T :=
        { signature := ⟨self.committee.epoch, bls.toBytes signature, self.bitmap⟩
          message := self.message }
      (self.committee.verifySignatureAnyWeight bls.aggregateVerify intent toBytes self.hashiId
        signedMessage).mapError AggregatorError.certificate
      return signedMessage

/-- Add signatures one after the other. The answer lists those that were accepted. -/
def addSignatures (self : BlsSignatureAggregator T G) :
    List (MemberSignature G) → List (MemberSignature G) × BlsSignatureAggregator T G
  | [] => ([], self)
  | signature :: rest =>
      let (result, next) := self.addSignature bls intent toBytes signature
      let (accepted, last) := next.addSignatures rest
      (if result.isOk then signature :: accepted else accepted, last)

end BlsSignatureAggregator

end HashiBridge.Node
