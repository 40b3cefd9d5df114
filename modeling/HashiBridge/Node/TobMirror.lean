import HashiBridge.Core.Tob
import HashiBridge.Lib.LinkedTable

/-!
# The node's mirror of a certificate bucket

The bucket's field holds the head and the size of its linked table, the nodes are objects of their
own. The mirror reads them one by one, so each may show the table at a different time.
-/

namespace HashiBridge.Node

open Lib HashiBridge.Core

abbrev CertNode := LinkedTableNode Address DealerSubmissionV1

def certsTable (bucket : EpochCertsV1) : LinkedTable Address DealerSubmissionV1 :=
  .ofList bucket.certs.contents

structure TobBucket where
  certsId : Address
  head : Option Address
  size : Nat
  nodes : Bag Address CertNode
  presigSeal : Option PresigSealV1

structure IncompleteTobWalk where
  walked : Nat
  size : Nat
deriving DecidableEq

namespace TobBucket

def walk (self : TobBucket) : Nat → Option Address → List (Address × DealerSubmissionV1)
  | 0, _ => []
  | _ + 1, none => []
  | n + 1, some dealer =>
      match self.nodes.lookup dealer with
      | none => []
      | some node => (dealer, node.value) :: self.walk n node.next

def certsInOrder (self : TobBucket) : List (Address × DealerSubmissionV1) :=
  self.walk self.nodes.keys.card self.head

def completeCertsInOrder (self : TobBucket) :
    Except IncompleteTobWalk (List (Address × DealerSubmissionV1)) :=
  let certs := self.certsInOrder
  if certs.length < self.size then .error ⟨certs.length, self.size⟩ else .ok certs

/-- A bucket whose field was read before its nodes were listed. A node that has vanished in between
is left out. -/
def scrape (certsId : Address) (field : EpochCertsV1) (listing : List (Address × Option CertNode)) :
    TobBucket where
  certsId
  head := (certsTable field).head
  size := (certsTable field).size
  nodes := listing.foldl (fun nodes entry =>
    match entry.2 with
    | none => nodes
    | some node => nodes.insert entry.1 node) ∅
  presigSeal := field.presigSeal

end TobBucket

end HashiBridge.Node
