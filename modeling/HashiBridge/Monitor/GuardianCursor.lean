import HashiBridge.Guardian.LogLayout
import HashiBridge.Lib.Run

/-!
# The audit of the guardian's sequence numbers

The monitor reads the guardian's withdrawal logs one hourly directory at a time.
-/

namespace HashiBridge.Monitor

open Lib Guardian

def MAX_SEQ_SKIP : Nat := 10

inductive GuardianInconsistency
  | seqDuplicate (seq : Nat) (objectKey : String)
  | seqJump (nextSeq seq : Nat) (objectKey : String)
  | seqGap (seq expectBy : Nat)
deriving DecidableEq

structure GuardianCursor where
  /-- the directory read now -/
  dir : S3HourDirectory
  /-- the keys read in it -/
  dirKeys : Finset String
  /-- the number after the highest one read -/
  nextSeq : Nat
  /-- the numbers skipped in `dir` -/
  gaps : Finset Nat
  /-- the numbers skipped in the directory before -/
  dueGaps : Finset Nat
deriving DecidableEq

namespace GuardianCursor

def new (dir : S3HourDirectory) : GuardianCursor := ⟨dir, ∅, 0, ∅, ∅⟩

/-- Record a log: the inconsistency it shows, if any. The error is the assertion on a key that is read
twice. -/
def record (self : GuardianCursor) (key : String) (seq : Nat) :
    Except String (Option GuardianInconsistency × GuardianCursor) := do
  require (key ∉ self.dirKeys) s!"the guardian log {key} was read twice"
  let self := { self with dirKeys := insert key self.dirKeys }
  if seq < self.nextSeq then
    -- a late log for a gap, or a duplicate
    if seq ∈ self.gaps then return (none, { self with gaps := self.gaps.erase seq })
    else if seq ∈ self.dueGaps then return (none, { self with dueGaps := self.dueGaps.erase seq })
    else return (some (.seqDuplicate seq key), self)
  else if seq = self.nextSeq then return (none, { self with nextSeq := saturateU64 (seq + 1) })
  else
    let nextSeq := self.nextSeq
    let self := { self with nextSeq := saturateU64 (seq + 1) }
    if MAX_SEQ_SKIP < seq - nextSeq then return (some (.seqJump nextSeq seq key), self)
    else return (none, { self with gaps := self.gaps ∪ Finset.Ico nextSeq seq })

/-- Move to the next directory: a gap for each due number that no log filled. -/
def finishDir (self : GuardianCursor) :
    Except String (List GuardianInconsistency × GuardianCursor) := do
  let dir ← self.dir.nextDir
  let expectBy := dir.toUnixSeconds
  return ((self.dueGaps.sort (· ≤ ·)).map fun seq => .seqGap seq expectBy,
    { self with dir, dirKeys := ∅, dueGaps := self.gaps, gaps := ∅ })

end GuardianCursor

/-! ## Calls -/

inductive CursorEvent
  | read (key : String) (seq : Nat) (finding : Option GuardianInconsistency)
  | finished (findings : List GuardianInconsistency)
deriving DecidableEq

namespace CursorEvent

def findings : CursorEvent → List GuardianInconsistency
  | read _ _ finding => finding.toList
  | finished findings => findings

def Reads (seq : Nat) : CursorEvent → Prop
  | read _ s _ => s = seq
  | finished _ => False

def Accepts (seq : Nat) : CursorEvent → Prop
  | read _ s finding => s = seq ∧ finding = none
  | finished _ => False

def Finishes : CursorEvent → Prop
  | read .. => False
  | finished _ => True

instance (seq : Nat) : DecidablePred (Reads seq)
  | read _ s _ => inferInstanceAs (Decidable (s = seq))
  | finished _ => inferInstanceAs (Decidable False)

instance (seq : Nat) : DecidablePred (Accepts seq)
  | read _ s finding => inferInstanceAs (Decidable (s = seq ∧ finding = none))
  | finished _ => inferInstanceAs (Decidable False)

instance : DecidablePred Finishes
  | read .. => inferInstanceAs (Decidable False)
  | finished _ => inferInstanceAs (Decidable True)

@[simp] theorem accepts_read {seq s : Nat} {key : String} {finding : Option GuardianInconsistency} :
    Accepts seq (read key s finding) ↔ s = seq ∧ finding = none := Iff.rfl

@[simp] theorem accepts_finished {seq : Nat} {findings : List GuardianInconsistency} :
    ¬ Accepts seq (finished findings) := id

@[simp] theorem findings_read (key : String) (seq : Nat) (finding : Option GuardianInconsistency) :
    (read key seq finding).findings = finding.toList := rfl

@[simp] theorem findings_finished (findings : List GuardianInconsistency) :
    (finished findings).findings = findings := rfl

end CursorEvent

/-- A call that succeeds. A log skips at most `MAX_SEQ_SKIP` numbers, and its own has a successor. -/
inductive CursorStep : GuardianCursor → CursorEvent → GuardianCursor → Prop
  | record {self next : GuardianCursor} {key : String} {seq : Nat}
      {finding : Option GuardianInconsistency} :
      seq + 1 < U64_SIZE → seq ≤ self.nextSeq + MAX_SEQ_SKIP →
      self.record key seq = .ok (finding, next) → CursorStep self (.read key seq finding) next
  | finishDir {self next : GuardianCursor} {findings : List GuardianInconsistency} :
      self.finishDir = .ok (findings, next) → CursorStep self (.finished findings) next

end HashiBridge.Monitor
