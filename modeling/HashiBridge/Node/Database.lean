import HashiBridge.Guardian.Serialization
import HashiBridge.Node.Committee

/-!
# The node's key and message store

A keyspace maps byte strings to byte strings.
-/

namespace HashiBridge.Node

open Lib HashiBridge.Core Guardian

/-! ## Keyspaces -/

abbrev Keyspace := VecMap Bytes Bytes

namespace Keyspace

def removeAll (keyspace : Keyspace) (keys : List Bytes) : Keyspace := keys.foldl VecMap.erase keyspace

end Keyspace

def toBeBytes (epoch : Nat) : Bytes := (littleEndian 8 epoch).reverse

def fromLeBytes : Bytes → Nat
  | [] => 0
  | byte :: bytes => byte.toNat + 256 * fromLeBytes bytes

def fromBeBytes (bytes : Bytes) : Nat := fromLeBytes bytes.reverse

def leadingEpoch (key : Bytes) : Option Nat :=
  if 8 ≤ key.length then some (fromBeBytes (key.take 8)) else none

def indexEpoch (key : Bytes) : Option Nat :=
  if key.length = 8 then some (fromBeBytes key) else none

def pruneKeyspaceWith (keyspace : Keyspace) (cutoffEpoch : Nat) (isReferenced : Nat → Bytes → Bool) :
    Keyspace × Nat :=
  let keysToDelete := keyspace.contents.filterMap fun (key, value) =>
    (leadingEpoch key).bind fun epoch =>
      if cutoffEpoch ≤ epoch then none
      else if isReferenced epoch value then none
      else some key
  (keyspace.removeAll keysToDelete, keysToDelete.length)

def pruneKeyspace (keyspace : Keyspace) (cutoffEpoch : Nat) : Keyspace × Nat :=
  pruneKeyspaceWith keyspace cutoffEpoch fun _ _ => false

def epochsOf (sideIndex : Keyspace) (pubkey : Bytes) : List Nat :=
  sideIndex.contents.filterMap fun (key, value) => if value = pubkey then indexEpoch key else none

/-- Delete the keys that are neither referenced nor recent, each with its rows of the side index. -/
def prunePubkeyKeyspace (keyspace sideIndex : Keyspace) (referenced : Finset Bytes)
    (retentionCutoff : Nat) : Keyspace × Keyspace × Nat :=
  let toDelete := keyspace.keys.filter fun pubkey =>
    let recent := (epochsOf sideIndex pubkey).max?.any fun epoch => retentionCutoff ≤ epoch
    pubkey ∉ referenced ∧ ¬recent
  (keyspace.removeAll toDelete,
    toDelete.foldl (fun index pubkey => index.removeAll ((epochsOf sideIndex pubkey).map toBeBytes))
      sideIndex,
    toDelete.length)

/-! ## References -/

structure MemberInfo where
  validatorAddress : Address
  nextEpochPublicKey : Bytes
  nextEpochEncryptionPublicKey : Option Bytes
deriving DecidableEq

structure CommitteeSet where
  members : VecMap Address MemberInfo
  epoch : Nat
  pendingEpochChange : Option Nat
  committees : VecMap Nat Committee

namespace CommitteeSet

def precedingCommittee (self : CommitteeSet) (target : Nat) : Option (Nat × Committee) :=
  ((self.committees.keys.filter fun epoch => epoch < target).max?).bind fun epoch =>
    (self.committees.tryGet epoch).map fun committee => (epoch, committee)

def previousCommitteeForTarget (self : CommitteeSet) (target : Nat) : Option (Nat × Committee) :=
  if self.pendingEpochChange = some target then
    (self.committees.tryGet self.epoch).map fun committee => (self.epoch, committee)
  else self.precedingCommittee target

end CommitteeSet

structure PruningReferences where
  encryptionKeys : Finset Bytes
  signingKeys : Finset Bytes
  committeeEpochs : Finset Nat

namespace PruningReferences

def empty : PruningReferences := ⟨∅, ∅, ∅⟩

def addMemberPubkeys (self : PruningReferences) (encryptionPublicKey signingPublicKey : Bytes) :
    PruningReferences :=
  { self with
    encryptionKeys := insert encryptionPublicKey self.encryptionKeys
    signingKeys := insert signingPublicKey self.signingKeys }

def addPendingRegistration (self : PruningReferences)
    (nextEpochEncryptionPublicKey : Option Bytes) (nextEpochSigningPublicKey : Bytes) :
    PruningReferences :=
  { self with
    encryptionKeys := match nextEpochEncryptionPublicKey with
      | some encryptionPublicKey => insert encryptionPublicKey self.encryptionKeys
      | none => self.encryptionKeys
    signingKeys := insert nextEpochSigningPublicKey self.signingKeys }

def addCommitteeEpoch (self : PruningReferences) (epoch : Nat) : PruningReferences :=
  { self with committeeEpochs := insert epoch self.committeeEpochs }

end PruningReferences

def buildPruningReferences (committeeSet : CommitteeSet) (targetEpoch : Nat) : PruningReferences :=
  let previous := committeeSet.previousCommitteeForTarget targetEpoch
  let preceding := committeeSet.precedingCommittee targetEpoch
  let committees := (committeeSet.committees.tryGet targetEpoch).toList ++
    (previous.map Prod.snd).toList ++ (preceding.map Prod.snd).toList
  let withMembers := (committees.flatMap Committee.members).foldl
    (fun referenced member =>
      referenced.addMemberPubkeys member.encryptionPublicKey member.publicKey) .empty
  let withEpochs := (previous.toList ++ preceding.toList).foldl
    (fun referenced committee => referenced.addCommitteeEpoch committee.1) withMembers
  (committeeSet.members.contents.map Prod.snd).foldl
    (fun referenced info => referenced.addPendingRegistration info.nextEpochEncryptionPublicKey
      info.nextEpochPublicKey) withEpochs

/-! ## The database -/

structure Database where
  encryptionKeys : Keyspace
  signingKeys : Keyspace
  encryptionEpochIndex : Keyspace
  signingEpochIndex : Keyspace
  dealerMessages : Keyspace
  rotationMessages : Keyspace
  avidRoundStates : Keyspace
  avidDealerBuilders : Keyspace
  avidHeldEchoes : Keyspace

def RETENTION_EXTRA_EPOCHS : Nat := 7

def Database.pruneMessagesBelow (self : Database) (cutoffEpoch : Nat)
    (pruningReferences : PruningReferences) : Database × Nat :=
  let retentionCutoff := cutoffEpoch - RETENTION_EXTRA_EPOCHS
  let (encryptionKeys, encryptionEpochIndex, encryptionDeleted) := prunePubkeyKeyspace
    self.encryptionKeys self.encryptionEpochIndex pruningReferences.encryptionKeys retentionCutoff
  let (signingKeys, signingEpochIndex, signingDeleted) := prunePubkeyKeyspace
    self.signingKeys self.signingEpochIndex pruningReferences.signingKeys retentionCutoff
  let isReferencedEpoch := fun epoch _ => decide (epoch ∈ pruningReferences.committeeEpochs)
  let (dealerMessages, dealerDeleted) :=
    pruneKeyspaceWith self.dealerMessages retentionCutoff isReferencedEpoch
  let (rotationMessages, rotationDeleted) :=
    pruneKeyspaceWith self.rotationMessages retentionCutoff isReferencedEpoch
  let (avidRoundStates, roundsDeleted) := pruneKeyspace self.avidRoundStates cutoffEpoch
  let (avidDealerBuilders, buildersDeleted) := pruneKeyspace self.avidDealerBuilders cutoffEpoch
  let (avidHeldEchoes, echoesDeleted) := pruneKeyspace self.avidHeldEchoes cutoffEpoch
  ({ encryptionKeys, signingKeys, encryptionEpochIndex, signingEpochIndex, dealerMessages,
     rotationMessages, avidRoundStates, avidDealerBuilders, avidHeldEchoes },
    encryptionDeleted + signingDeleted + dealerDeleted + rotationDeleted + roundsDeleted +
      buildersDeleted + echoesDeleted)

end HashiBridge.Node
