import HashiBridge.Core.Lemmas.Signing

/-!
# A signing batch accumulates the first signature of every slot

Abstractly a batch is a partial map from slots to signatures that only ever grows: a slot takes the
first signature a successful call records for it. Reallocation does not touch the map.
-/

namespace HashiBridge.Core

open Lib

def MpcSig.signature? : MpcSig → Option Bytes
  | pending _ => none
  | signed sig => some sig

inductive BatchCall
  | record (indices : List Nat) (sigs : List Bytes)
  | reallocate (presigs : List Presig) (currentEpoch : Nat)
deriving DecidableEq

/-- The slots a call signs in a batch of `numInputs` slots, in the order of its loop. A call that
aborts signs none. -/
def BatchCall.writes (numInputs : Nat) : BatchCall → List (Nat × Bytes)
  | record indices sigs =>
      if indices.length = sigs.length ∧ ∀ i ∈ indices, i < numInputs then indices.zip sigs else []
  | reallocate _ _ => []

namespace SigningBatch

variable {b b' : SigningBatch} {indices : List Nat} {sigs : List Bytes} {presigs : List Presig}
  {epoch : Nat} {slots slots' : List MpcSig} {entries entries' : List (Nat × Bytes)}

def perform (self : SigningBatch) : BatchCall → Except Abort SigningBatch
  | .record indices sigs => self.record indices sigs
  | .reallocate presigs currentEpoch => self.reallocate presigs currentEpoch

/-- A call in a transaction of its own: an abort leaves the batch as it was. -/
def attempt (self : SigningBatch) (call : BatchCall) : SigningBatch :=
  (self.perform call).toOption.getD self

def signatureAt (self : SigningBatch) (i : Nat) : Option Bytes :=
  self.signatures[i]?.bind MpcSig.signature?

def firstRecorded (numInputs : Nat) (calls : List BatchCall) (i : Nat) : Option Bytes :=
  (calls.flatMap (BatchCall.writes numInputs)).lookup i

theorem attempt_of_ok {call : BatchCall} (h : b.perform call = .ok b') : b.attempt call = b' := by
  rw [attempt, h]
  rfl

theorem attempt_of_error {call : BatchCall} {e : Abort} (h : b.perform call = .error e) :
    b.attempt call = b := by
  rw [attempt, h]
  rfl

/-! ## Recording -/

/-- The slots after the writes of a loop: each pending slot takes its first signature. -/
def filled (entries : List (Nat × Bytes)) (slots : List MpcSig) : List MpcSig :=
  slots.mapIdx fun i slot => (entries.lookup i).elim slot (fill slot)

theorem getElem?_filled (i : Nat) :
    (filled entries slots)[i]? = slots[i]?.map fun slot => (entries.lookup i).elim slot (fill slot) :=
  List.getElem?_mapIdx

theorem length_filled : (filled entries slots).length = slots.length := List.length_mapIdx

theorem fill_fill (slot : MpcSig) (sig sig' : Bytes) : fill (fill slot sig) sig' = fill slot sig := by
  cases slot <;> rfl

theorem filled_append :
    filled (entries ++ entries') slots = filled entries' (filled entries slots) := by
  refine List.ext_getElem? fun i => ?_
  rw [getElem?_filled, getElem?_filled, getElem?_filled, List.lookup_append, Option.map_map]
  congr 1
  funext slot
  cases entries.lookup i with
  | none => rfl
  | some sig =>
      cases entries'.lookup i with
      | none => rfl
      | some sig' => exact (fill_fill slot sig sig').symm

theorem filled_comm (h : ∀ i, entries.lookup i = none ∨ entries'.lookup i = none) :
    filled entries' (filled entries slots) = filled entries (filled entries' slots) := by
  refine List.ext_getElem? fun i => ?_
  rw [getElem?_filled, getElem?_filled, getElem?_filled, getElem?_filled, Option.map_map,
    Option.map_map]
  congr 1
  funext slot
  rcases h i with hnone | hnone
  · simp only [Function.comp_apply, hnone, Option.elim_none]
  · simp only [Function.comp_apply, hnone, Option.elim_none]

theorem filled_single {i : Nat} {sig : Bytes} {slot : MpcSig} (h : slots[i]? = some slot) :
    filled [(i, sig)] slots = slots.set i (fill slot sig) := by
  refine List.ext_getElem? fun j => ?_
  rw [getElem?_filled, List.getElem?_set]
  by_cases hij : i = j
  · subst hij
    have hlt := (List.getElem?_eq_some_iff.mp h).1
    have hlookup : List.lookup i [(i, sig)] = some sig := by simp [List.lookup]
    rw [if_pos rfl, if_pos hlt, h, hlookup]
    rfl
  · have hne : (j == i) = false := beq_false_of_ne (Ne.symm hij)
    have hlookup : List.lookup j [(i, sig)] = none := by simp [List.lookup, hne]
    rw [if_neg hij, hlookup]
    exact Option.map_id_apply

theorem recordOne_eq_ok {entry : Nat × Bytes} :
    recordOne slots entry = .ok slots' ↔ entry.1 < slots.length ∧ slots' = filled [entry] slots := by
  unfold recordOne
  split
  · next hnone =>
    rw [List.getElem?_eq_none_iff] at hnone
    simp only [reduceCtorEq, false_iff, not_and]
    intro hlt
    omega
  · next slot hslot =>
    have hlt := (List.getElem?_eq_some_iff.mp hslot).1
    rw [filled_single hslot, Except.ok.injEq, eq_comm]
    exact (and_iff_right hlt).symm

theorem recordOne_loop_eq_ok : entries.foldlM recordOne slots = .ok slots' ↔
    (∀ entry ∈ entries, entry.1 < slots.length) ∧ slots' = filled entries slots := by
  induction entries generalizing slots with
  | nil =>
      have hnil : filled [] slots = slots := by
        refine List.ext_getElem? fun i => ?_
        rw [getElem?_filled]
        exact Option.map_id_apply
      rw [foldlM_nil_eq_ok, hnil, eq_comm]
      simp
  | cons entry entries ih =>
      have happend : filled ([entry] ++ entries) slots = filled entries (filled [entry] slots) :=
        filled_append
      rw [List.singleton_append] at happend
      simp only [foldlM_cons_eq_ok, recordOne_eq_ok, ih, List.forall_mem_cons, happend]
      constructor
      · rintro ⟨_, ⟨hlt, rfl⟩, hall, rfl⟩
        rw [length_filled] at hall
        exact ⟨⟨hlt, hall⟩, rfl⟩
      · rintro ⟨⟨hlt, hall⟩, rfl⟩
        refine ⟨_, ⟨hlt, rfl⟩, ?_, rfl⟩
        rwa [length_filled]

/-- Recording aborts only on lists of different lengths and on an index out of range. -/
theorem record_eq_ok : b.record indices sigs = .ok b' ↔
    (indices.length = sigs.length ∧ ∀ i ∈ indices, i < b.signatures.length) ∧
      b' = { b with signatures := filled (indices.zip sigs) b.signatures } := by
  simp only [record, bind_eq_ok, require_eq_ok, pure_eq_ok, recordOne_loop_eq_ok]
  constructor
  · rintro ⟨_, hlength, _, ⟨hall, rfl⟩, rfl⟩
    refine ⟨⟨hlength, fun i hi => ?_⟩, rfl⟩
    rw [← List.map_fst_zip (Nat.le_of_eq hlength)] at hi
    obtain ⟨entry, hentry, rfl⟩ := List.mem_map.mp hi
    exact hall entry hentry
  · rintro ⟨⟨hlength, hall⟩, rfl⟩
    exact ⟨(), hlength, _, ⟨fun entry hentry => hall _ (List.of_mem_zip hentry).1, rfl⟩, rfl⟩

theorem attempt_record : (b.attempt (.record indices sigs)) = { b with
    signatures := filled (BatchCall.writes b.signatures.length (.record indices sigs))
      b.signatures } := by
  by_cases hok : indices.length = sigs.length ∧ ∀ i ∈ indices, i < b.signatures.length
  · rw [BatchCall.writes, if_pos hok]
    exact attempt_of_ok (record_eq_ok.mpr ⟨hok, rfl⟩)
  · have hnil : filled [] b.signatures = b.signatures := (recordOne_loop_eq_ok.mp rfl).2.symm
    rw [BatchCall.writes, if_neg hok, hnil]
    cases hrecord : b.record indices sigs with
    | error e => exact attempt_of_error hrecord
    | ok b' => exact absurd (record_eq_ok.mp hrecord).1 hok

/-! ## Reallocation -/

theorem exists_reassign :
    (∃ out, reassign slots presigs = .ok out) ↔ presigs.length = slots.countP MpcSig.isPending := by
  induction slots generalizing presigs with
  | nil => cases presigs <;> simp [reassign]
  | cons slot slots ih =>
      cases slot with
      | signed sig =>
          rw [List.countP_cons_of_neg (by simp [MpcSig.isPending]), ← ih]
          simp only [reassign, bind_eq_ok, pure_eq_ok]
          constructor
          · rintro ⟨_, rest, hrest, -⟩
            exact ⟨rest, hrest⟩
          · rintro ⟨rest, hrest⟩
            exact ⟨_, rest, hrest, rfl⟩
      | pending old =>
          rw [List.countP_cons_of_pos rfl]
          cases presigs with
          | nil => simp [reassign]
          | cons presig presigs =>
              rw [List.length_cons, Nat.add_right_cancel_iff, ← ih]
              simp only [reassign, bind_eq_ok, pure_eq_ok]
              constructor
              · rintro ⟨_, rest, hrest, -⟩
                exact ⟨rest, hrest⟩
              · rintro ⟨rest, hrest⟩
                exact ⟨_, rest, hrest, rfl⟩

/-- Reallocation aborts only on a batch that is not stale and on a wrong number of
presignatures: the back of the list never runs dry, and nothing is left over. -/
theorem reallocate_eq_ok : b.reallocate presigs epoch = .ok b' ↔
    (b.epoch ≠ epoch ∧ presigs.length = b.pendingCount) ∧
      b' = ⟨assign b.signatures presigs, epoch⟩ := by
  simp only [reallocate, bind_eq_ok, require_eq_ok, pure_eq_ok]
  constructor
  · rintro ⟨_, hstale, _, hcount, out, hout, rfl⟩
    rw [reassign_reverse hout]
    exact ⟨⟨hstale, hcount⟩, rfl⟩
  · rintro ⟨⟨hstale, hcount⟩, rfl⟩
    obtain ⟨out, hout⟩ : ∃ out, reassign b.signatures.reverse presigs.reverse = .ok out := by
      rw [exists_reassign, List.length_reverse, List.countP_reverse, hcount, pendingCount_eq]
    refine ⟨(), hstale, (), hcount, out, hout, ?_⟩
    rw [reassign_reverse hout]

theorem length_assign : (assign slots presigs).length = slots.length := by
  fun_induction assign slots presigs with
  | case1 => rfl
  | case2 sig slots presigs ih | case3 old slots ih | case4 old slots presig presigs ih =>
      rw [List.length_cons, List.length_cons, ih]

theorem assign_signed {k : Nat} {sig : Bytes} (h : slots[k]? = some (.signed sig)) :
    (assign slots presigs)[k]? = some (.signed sig) := by
  fun_induction assign slots presigs generalizing k with
  | case1 => simp at h
  | case2 sig' slots presigs ih | case3 old slots ih =>
      cases k with
      | zero => exact h
      | succ k => exact ih h
  | case4 old slots presig presigs ih =>
      cases k with
      | zero => cases h
      | succ k => exact ih h

theorem assign_pending {k : Nat} {old : Presig} (h : slots[k]? = some (.pending old)) :
    (assign slots presigs)[k]? = some (.pending (presigs[pendingBefore slots k]?.getD old)) := by
  fun_induction assign slots presigs generalizing k with
  | case1 => simp at h
  | case2 sig slots presigs ih =>
      cases k with
      | zero => simp at h
      | succ k =>
          have hbefore : pendingBefore (.signed sig :: slots) (k + 1) = pendingBefore slots k :=
            List.countP_cons_of_neg (by simp [MpcSig.isPending])
          rw [hbefore]
          exact ih h
  | case3 first slots ih =>
      cases k with
      | zero => simpa using h
      | succ k => simpa using ih h
  | case4 first slots presig presigs ih =>
      have hbefore : ∀ k, pendingBefore (.pending first :: slots) (k + 1) =
          pendingBefore slots k + 1 := fun k => List.countP_cons_of_pos rfl
      cases k with
      | zero => simp [pendingBefore]
      | succ k =>
          rw [hbefore, List.getElem?_cons_succ]
          exact ih h

theorem signatureAt_reallocate {i : Nat} :
    (SigningBatch.mk (assign b.signatures presigs) epoch).signatureAt i = b.signatureAt i := by
  unfold signatureAt
  cases hslot : b.signatures[i]? with
  | none =>
      rw [List.getElem?_eq_none_iff] at hslot
      rw [List.getElem?_eq_none_iff.mpr (by rw [length_assign]; exact hslot)]
  | some slot =>
      cases slot with
      | signed sig => rw [assign_signed hslot]
      | pending old =>
          rw [assign_pending hslot]
          rfl

/-! ## Sequences of calls -/

theorem attempt_spec (call : BatchCall) :
    (b.attempt call).signatures.length = b.signatures.length ∧ ∀ i < b.signatures.length,
      (b.attempt call).signatureAt i =
        (b.signatureAt i).or ((call.writes b.signatures.length).lookup i) := by
  cases call with
  | record indices sigs =>
      rw [attempt_record]
      refine ⟨length_filled, fun i hi => ?_⟩
      simp only [signatureAt, getElem?_filled, List.getElem?_eq_getElem hi, Option.map_some,
        Option.bind_some]
      cases hlookup : (BatchCall.writes b.signatures.length (.record indices sigs)).lookup i with
      | none => simp
      | some sig => cases b.signatures[i] <;> rfl
  | reallocate presigs epoch =>
      have hnone : ∀ i, (b.signatureAt i).or
          ((BatchCall.writes b.signatures.length (.reallocate presigs epoch)).lookup i) =
            b.signatureAt i := fun i => Option.or_none
      cases hrun : b.reallocate presigs epoch with
      | error e =>
          have hsame : b.attempt (.reallocate presigs epoch) = b := attempt_of_error hrun
          rw [hsame]
          exact ⟨rfl, fun i _ => (hnone i).symm⟩
      | ok b' =>
          have hnew : b.attempt (.reallocate presigs epoch) = b' := attempt_of_ok hrun
          rw [hnew]
          obtain ⟨-, rfl⟩ := reallocate_eq_ok.mp hrun
          exact ⟨length_assign, fun i _ => signatureAt_reallocate.trans (hnone i).symm⟩

theorem attempts_spec (calls : List BatchCall) :
    (calls.foldl attempt b).signatures.length = b.signatures.length ∧ ∀ i < b.signatures.length,
      (calls.foldl attempt b).signatureAt i =
        (b.signatureAt i).or (firstRecorded b.signatures.length calls i) := by
  induction calls generalizing b with
  | nil => exact ⟨rfl, fun i _ => Option.or_none.symm⟩
  | cons call calls ih =>
      obtain ⟨hlength, hone⟩ := attempt_spec (b := b) call
      obtain ⟨hlength', hrest⟩ := ih (b := b.attempt call)
      refine ⟨hlength'.trans hlength, fun i hi => ?_⟩
      rw [List.foldl_cons, hrest i (hlength ▸ hi), hone i hi, hlength, firstRecorded, firstRecorded,
        List.flatMap_cons, List.lookup_append, Option.or_assoc]

/-! ## Views -/

theorem signedCount_le : b.signedCount ≤ b.signatures.length := List.countP_le_length

theorem isComplete_iff : b.isComplete ↔ ∀ i < b.signatures.length, (b.signatureAt i).isSome := by
  rw [isComplete, signedCount, List.countP_eq_length]
  constructor
  · intro h i hi
    have hslot := h b.signatures[i] (List.getElem_mem hi)
    rw [signatureAt, List.getElem?_eq_getElem hi, Option.bind_some]
    cases hsig : b.signatures[i] with
    | pending p => simp [hsig, MpcSig.isPending] at hslot
    | signed sig => rfl
  · intro h slot hslot
    obtain ⟨i, hi, rfl⟩ := List.getElem_of_mem hslot
    have hsome := h i hi
    rw [signatureAt, List.getElem?_eq_getElem hi, Option.bind_some] at hsome
    cases hsig : b.signatures[i] with
    | pending p => simp [hsig, MpcSig.signature?] at hsome
    | signed sig => rfl

theorem toSignatures_eq_ok {out : List Bytes} : b.toSignatures = .ok out ↔
    out.length = b.signatures.length ∧ ∀ i < b.signatures.length, b.signatureAt i = out[i]? := by
  simp only [toSignatures, bind_eq_ok, require_eq_ok, mapM_eq_ok, List.forall₂_iff_get]
  constructor
  · rintro ⟨_, -, hlength, hall⟩
    refine ⟨hlength.symm, fun i hi => ?_⟩
    have hslot := hall i hi (hlength ▸ hi)
    rw [signatureAt, List.getElem?_eq_getElem hi, List.getElem?_eq_getElem (hlength ▸ hi),
      Option.bind_some]
    cases hsig : b.signatures[i] with
    | pending p =>
        rw [List.get_eq_getElem, hsig] at hslot
        cases hslot
    | signed sig =>
        rw [List.get_eq_getElem, hsig] at hslot
        cases hslot
        rfl
  · rintro ⟨hlength, hall⟩
    have hsome : ∀ i (hi : i < b.signatures.length), b.signatures[i].signature? = some out[i] := by
      intro i hi
      have hslot := hall i hi
      rwa [signatureAt, List.getElem?_eq_getElem hi, Option.bind_some,
        List.getElem?_eq_getElem] at hslot
    refine ⟨(), isComplete_iff.mpr fun i hi => ?_, hlength.symm, fun i hi hi' => ?_⟩
    · rw [signatureAt, List.getElem?_eq_getElem hi, Option.bind_some, hsome i hi]
      rfl
    · have hslot := hsome i hi
      rw [List.get_eq_getElem]
      cases hsig : b.signatures[i] with
      | pending p =>
          rw [hsig] at hslot
          cases hslot
      | signed sig =>
          rw [hsig] at hslot
          cases hslot
          rfl

/-! ## The accumulator -/

def recordedAt (self : SigningBatch) (calls : List BatchCall) (i : Nat) : Option Bytes :=
  (self.signatureAt i).or (firstRecorded self.signatures.length calls i)

structure Accumulates (b : SigningBatch) : Prop where
  /-- A slot holds the signature recorded for it first. -/
  first_wins : ∀ (calls : List BatchCall), ∀ i < b.signatures.length,
    (calls.foldl attempt b).signatureAt i = b.recordedAt calls i
  forever : ∀ (calls later : List BatchCall) i sig, (calls.foldl attempt b).signatureAt i = some sig →
    ((calls ++ later).foldl attempt b).signatureAt i = some sig
  record_fails : ∀ (indices : List Nat) (sigs : List Bytes), (∀ b', b.record indices sigs ≠ .ok b') →
    b.attempt (.record indices sigs) = b ∧
      ¬ (indices.length = sigs.length ∧ ∀ i ∈ indices, i < b.signatures.length)
  /-- Reallocation changes the pending slots and no other, each to the presignature of its rank. -/
  reallocated : ∀ (presigs : List Presig) epoch b', b.reallocate presigs epoch = .ok b' →
    b'.epoch = epoch ∧ b'.signatures.length = b.signatures.length ∧
    (∀ (k : Nat) sig, b.signatures[k]? = some (.signed sig) → b'.signatures[k]? = some (.signed sig)) ∧
    ∀ (k : Nat) old, b.signatures[k]? = some (.pending old) →
      ∃ presig, presigs[pendingBefore b.signatures k]? = some presig ∧
        b'.signatures[k]? = some (.pending presig)
  reallocate_fails : ∀ (presigs : List Presig) epoch, (∀ b', b.reallocate presigs epoch ≠ .ok b') →
    b.attempt (.reallocate presigs epoch) = b ∧
      ¬ (b.epoch ≠ epoch ∧ presigs.length = b.pendingCount)
  /-- Records of different slots commute, whether they abort or not. -/
  commute : ∀ (indices : List Nat) sigs (indices' : List Nat) sigs', indices.Disjoint indices' →
    (b.attempt (.record indices sigs)).attempt (.record indices' sigs') =
      (b.attempt (.record indices' sigs')).attempt (.record indices sigs)
  counts : ∀ (calls : List BatchCall), (calls.foldl attempt b).signedCount + (calls.foldl attempt b).pendingCount =
    b.signatures.length
  complete : ∀ (calls : List BatchCall), (∃ out, (calls.foldl attempt b).toSignatures = .ok out) ↔
    ∀ i < b.signatures.length, (b.recordedAt calls i).isSome
  listed : ∀ (calls : List BatchCall) out, (calls.foldl attempt b).toSignatures = .ok out →
    out.length = b.signatures.length ∧ ∀ i < b.signatures.length, b.recordedAt calls i = out[i]?
  /-- A new batch has a slot for every input, and nothing is recorded in it. -/
  fresh : ∀ numInputs presigs epoch, new numInputs presigs epoch = .ok b →
    b.signatures.length = numInputs ∧
      ∀ calls i, b.recordedAt calls i = firstRecorded numInputs calls i

theorem lookup_writes_eq_none {numInputs i : Nat} (h : i ∉ indices) :
    (BatchCall.writes numInputs (.record indices sigs)).lookup i = none := by
  rw [BatchCall.writes]
  split_ifs
  · rw [List.lookup_eq_none_iff]
    intro entry hentry
    rw [bne_iff_ne]
    rintro rfl
    exact h (List.of_mem_zip hentry).1
  · rfl

theorem attempt_record_comm {indices' : List Nat} {sigs' : List Bytes}
    (h : indices.Disjoint indices') :
    (b.attempt (.record indices sigs)).attempt (.record indices' sigs') =
      (b.attempt (.record indices' sigs')).attempt (.record indices sigs) := by
  simp only [attempt_record, length_filled, SigningBatch.mk.injEq, and_true]
  refine filled_comm fun i => ?_
  by_cases hi : i ∈ indices
  · exact .inr (lookup_writes_eq_none fun hi' => h hi hi')
  · exact .inl (lookup_writes_eq_none hi)

theorem signatureAt_lt {i : Nat} {sig : Bytes} (h : b.signatureAt i = some sig) :
    i < b.signatures.length := by
  by_contra hge
  rw [signatureAt, List.getElem?_eq_none (by omega)] at h
  cases h

theorem fresh_signatureAt {numInputs : Nat} (h : new numInputs presigs epoch = .ok b) :
    b.signatures.length = numInputs ∧ ∀ i, b.signatureAt i = none := by
  simp only [new, bind_eq_ok, require_eq_ok, pure_eq_ok] at h
  obtain ⟨_, -, _, hlength, rfl⟩ := h
  refine ⟨by rw [List.length_map, hlength], fun i => ?_⟩
  rw [signatureAt, List.getElem?_map]
  cases presigs[i]? <;> rfl

theorem signingBatch_accumulates (b : SigningBatch) : b.Accumulates where
  first_wins calls := (attempts_spec calls).2
  forever calls later i sig h := by
    have hlt := signatureAt_lt h
    rw [List.foldl_append, (attempts_spec later).2 i hlt, h]
    rfl
  record_fails indices sigs h := by
    have hfails : ¬ (indices.length = sigs.length ∧ ∀ i ∈ indices, i < b.signatures.length) :=
      fun hok => h _ (record_eq_ok.mpr ⟨hok, rfl⟩)
    refine ⟨?_, hfails⟩
    cases hrun : b.record indices sigs with
    | ok b' => exact absurd hrun (h b')
    | error e => exact attempt_of_error hrun
  reallocated presigs epoch b' h := by
    obtain ⟨⟨-, hcount⟩, rfl⟩ := reallocate_eq_ok.mp h
    refine ⟨rfl, length_assign, fun k sig hk => assign_signed hk, fun k old hk => ?_⟩
    have hlt := pendingBefore_lt_count hk
    rw [← hcount] at hlt
    refine ⟨_, List.getElem?_eq_getElem hlt, ?_⟩
    rw [assign_pending hk, List.getElem?_eq_getElem hlt, Option.getD_some]
  reallocate_fails presigs epoch h := by
    have hfails : ¬ (b.epoch ≠ epoch ∧ presigs.length = b.pendingCount) :=
      fun hok => h _ (reallocate_eq_ok.mpr ⟨hok, rfl⟩)
    refine ⟨?_, hfails⟩
    cases hrun : b.reallocate presigs epoch with
    | ok b' => exact absurd hrun (h b')
    | error e => exact attempt_of_error hrun
  commute _ _ _ _ h := attempt_record_comm h
  counts calls := by
    have hle := signedCount_le (b := calls.foldl attempt b)
    have hlength := (attempts_spec (b := b) calls).1
    rw [pendingCount]
    omega
  complete calls := by
    obtain ⟨hlength, hat⟩ := attempts_spec (b := b) calls
    constructor
    · rintro ⟨out, hout⟩ i hi
      obtain ⟨houtlen, hall⟩ := toSignatures_eq_ok.mp hout
      have hi' : i < (calls.foldl attempt b).signatures.length := hlength.symm ▸ hi
      rw [recordedAt, ← hat i hi, hall i hi', List.getElem?_eq_getElem (houtlen.symm ▸ hi')]
      rfl
    · intro hall
      have hsome : ∀ i (hi : i < b.signatures.length), ∃ sig, b.recordedAt calls i = some sig :=
        fun i hi => Option.isSome_iff_exists.mp (hall i hi)
      refine ⟨List.ofFn fun i : Fin b.signatures.length => (b.recordedAt calls i).getD [], ?_⟩
      rw [toSignatures_eq_ok, List.length_ofFn, hlength]
      refine ⟨rfl, fun i hi => ?_⟩
      obtain ⟨sig, hsig⟩ := hsome i hi
      rw [hat i hi, ← recordedAt, hsig, List.getElem?_ofFn, dif_pos hi, hsig]
      rfl
  listed calls out h := by
    obtain ⟨hlength, hat⟩ := attempts_spec (b := b) calls
    obtain ⟨houtlen, hall⟩ := toSignatures_eq_ok.mp h
    refine ⟨houtlen.trans hlength, fun i hi => ?_⟩
    rw [recordedAt, ← hat i hi]
    exact hall i (hlength.symm ▸ hi)
  fresh numInputs presigs epoch h := by
    obtain ⟨hlength, hnone⟩ := fresh_signatureAt h
    refine ⟨hlength, fun calls i => ?_⟩
    rw [recordedAt, hnone i, hlength]
    rfl

end SigningBatch

end HashiBridge.Core
