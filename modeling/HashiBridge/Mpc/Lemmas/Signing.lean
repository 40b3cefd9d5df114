import HashiBridge.Lib.Segments
import HashiBridge.Mpc.Signing

/-!
# Batches, slots and where they came from

`Covers` relates the batches a manager still holds to all that were ever installed: pruning drops
them from the front, a new one is appended, and taking a presignature empties its slot.
-/

namespace HashiBridge.Mpc

open Lib HashiBridge.Core

variable {S G : Type}

/-! ## Installed batches -/

def sizeAt (installed : List (List (PresigTuple S G))) (k : Nat) : Nat :=
  (installed[k]?.map List.length).getD 0

variable {k : Nat}

theorem sizeAt_of_getElem? {installed : List (List (PresigTuple S G))}
    {ps : List (PresigTuple S G)} (h : installed[k]? = some ps) : sizeAt installed k = ps.length := by
  simp [sizeAt, h]

theorem offset_append (installed : List (List (PresigTuple S G))) (ps : List (PresigTuple S G))
    (h : k ≤ installed.length) :
    offset (sizeAt (installed ++ [ps])) k = offset (sizeAt installed) k :=
  offset_congr fun i hi => by
    simp only [sizeAt, List.getElem?_append_left (Nat.lt_of_lt_of_le hi h)]

/-- Batch `b` is what is left of the `k`-th installed batch, which held the presignatures `ps`.
Numbers start at `first` and indices at `base`. -/
structure IsRestOf (first base : Nat) (installed : List (List (PresigTuple S G))) (k : Nat)
    (ps : List (PresigTuple S G)) (b : PresigBatch S G) : Prop where
  batchIndex_eq : b.batchIndex = first + k
  startIndex_eq : b.startIndex = base + offset (sizeAt installed) k
  length_eq : b.pool.length = ps.length
  slot_eq : ∀ {i : Nat} {p : PresigTuple S G}, b.pool[i]? = some (some p) → ps[i]? = some p

/-- The batches held are what is left of the installed ones after the first `dropped`. -/
structure Covers (first base : Nat) (installed : List (List (PresigTuple S G))) (dropped : Nat)
    (batches : List (PresigBatch S G)) : Prop where
  length_eq : dropped + batches.length = installed.length
  batch : ∀ {j : Nat} {b : PresigBatch S G}, batches[j]? = some b →
    ∃ ps, installed[dropped + j]? = some ps ∧ IsRestOf first base installed (dropped + j) ps b

variable {first base dropped : Nat} {installed : List (List (PresigTuple S G))}
  {batches : List (PresigBatch S G)} {b : PresigBatch S G}

theorem IsRestOf.endIndex_eq {ps : List (PresigTuple S G)}
    (h : IsRestOf first base installed k ps b) (hk : installed[k]? = some ps) :
    b.endIndex = base + offset (sizeAt installed) (k + 1) := by
  rw [PresigBatch.endIndex, h.startIndex_eq, h.length_eq, offset_succ, sizeAt_of_getElem? hk]
  omega

theorem IsRestOf.append {ps ps' : List (PresigTuple S G)}
    (h : IsRestOf first base installed k ps b) (hk : k ≤ installed.length) :
    IsRestOf first base (installed ++ [ps']) k ps b where
  batchIndex_eq := h.batchIndex_eq
  startIndex_eq := by rw [h.startIndex_eq, offset_append installed ps' hk]
  length_eq := h.length_eq
  slot_eq := h.slot_eq

theorem PresigBatch.contains_iff {g : Nat} :
    b.contains g ↔ b.startIndex ≤ g ∧ g < b.startIndex + b.pool.length := by
  rw [contains, endIndex, Bool.and_eq_true, decide_eq_true_eq, decide_eq_true_eq]

def PresigBatch.emptied (b : PresigBatch S G) (i : Nat) : PresigBatch S G :=
  { b with pool := b.pool.set i none }

theorem IsRestOf.emptied {ps : List (PresigTuple S G)}
    (h : IsRestOf first base installed k ps b) (i : Nat) :
    IsRestOf first base installed k ps (b.emptied i) where
  batchIndex_eq := h.batchIndex_eq
  startIndex_eq := h.startIndex_eq
  length_eq := by rw [PresigBatch.emptied, List.length_set, h.length_eq]
  slot_eq {i' p} hslot := by
    refine h.slot_eq ?_
    simp only [PresigBatch.emptied, List.getElem?_set] at hslot
    split_ifs at hslot with hi hlt
    · cases hslot
    · exact hslot

/-- The next number, and a range that starts where the last one ends. -/
def PresigBatch.Precedes (b b' : PresigBatch S G) : Prop :=
  b'.batchIndex = b.batchIndex + 1 ∧ b'.startIndex = b.endIndex

namespace Covers

theorem tail (h : Covers first base installed dropped (b :: batches)) :
    Covers first base installed (dropped + 1) batches where
  length_eq := by
    have := h.length_eq
    rw [List.length_cons] at this
    omega
  batch {j b'} hb' := by
    have hnext : (b :: batches)[j + 1]? = some b' := by simpa using hb'
    have hrest := h.batch hnext
    rwa [← Nat.add_assoc, Nat.add_right_comm] at hrest

variable (h : Covers first base installed dropped batches)

include h

theorem append {latest : PresigBatch S G}
    (hlatest : batches.getLast? = some latest) (ps : List (PresigTuple S G)) (digest : Bytes) :
    Covers first base (installed ++ [ps]) dropped
      (batches ++ [⟨ps.map some, latest.endIndex, latest.batchIndex + 1, digest⟩]) where
  length_eq := by
    have := h.length_eq
    simp only [List.length_append, List.length_singleton]
    omega
  batch {j b} hb := by
    have hlength := h.length_eq
    rcases Nat.lt_or_ge j batches.length with hj | hj
    · rw [List.getElem?_append_left hj] at hb
      obtain ⟨old, hold, hrest⟩ := h.batch hb
      have hk : dropped + j < installed.length := by omega
      exact ⟨old, by rw [List.getElem?_append_left hk, hold], hrest.append hk.le⟩
    · rw [List.getElem?_append_right hj, List.getElem?_singleton] at hb
      split_ifs at hb with hzero
      cases hb
      -- the latest batch is the last of the installed ones
      obtain rfl : j = batches.length := by omega
      have hpos : 0 < batches.length := by
        cases batches with
        | nil => cases hlatest
        | cons => exact Nat.succ_pos _
      rw [List.getLast?_eq_getElem?] at hlatest
      obtain ⟨old, hold, hrest⟩ := h.batch hlatest
      have hnext : dropped + (batches.length - 1) + 1 = dropped + batches.length := by omega
      refine ⟨ps, ?_, ?_⟩
      · rw [hlength, List.getElem?_append_right le_rfl, Nat.sub_self]
        rfl
      · refine ⟨?_, ?_, by simp, ?_⟩
        · change latest.batchIndex + 1 = _
          rw [hrest.batchIndex_eq]
          omega
        · change latest.endIndex = _
          rw [hrest.endIndex_eq hold, hnext, offset_append installed ps hlength.le]
        · intro i p hslot
          simpa using hslot

theorem set {j i : Nat} (hb : batches[j]? = some b) :
    Covers first base installed dropped (batches.set j (b.emptied i)) where
  length_eq := by rw [List.length_set, h.length_eq]
  batch {j' b'} hb' := by
    rw [List.getElem?_set] at hb'
    split_ifs at hb' with hj hlt
    · cases hb'
      subst hj
      obtain ⟨ps, hps, hrest⟩ := h.batch hb
      exact ⟨ps, hps, hrest.emptied i⟩
    · exact h.batch hb'

theorem eq_of_batchIndex {b b' : PresigBatch S G} (hb : b ∈ batches) (hb' : b' ∈ batches)
    (heq : b.batchIndex = b'.batchIndex) : b = b' := by
  obtain ⟨j, hj⟩ := List.mem_iff_getElem?.mp hb
  obtain ⟨j', hj'⟩ := List.mem_iff_getElem?.mp hb'
  obtain ⟨_, -, hrest⟩ := h.batch hj
  obtain ⟨_, -, hrest'⟩ := h.batch hj'
  have hjj : j = j' := by
    have := hrest.batchIndex_eq
    have := hrest'.batchIndex_eq
    omega
  subst hjj
  exact Option.some.inj (hj.symm.trans hj')

theorem isChain :
    batches.IsChain PresigBatch.Precedes := by
  rw [List.isChain_iff_getElem]
  intro j hj
  obtain ⟨ps, hps, hrest⟩ := h.batch (List.getElem?_eq_getElem (by omega : j < batches.length))
  obtain ⟨_, -, hrest'⟩ := h.batch (List.getElem?_eq_getElem hj)
  refine ⟨?_, ?_⟩
  · rw [hrest'.batchIndex_eq, hrest.batchIndex_eq]
    omega
  · rw [hrest'.startIndex_eq, hrest.endIndex_eq hps, Nat.add_assoc]

theorem disjoint :
    batches.Pairwise fun b b' => b.endIndex ≤ b'.startIndex := by
  rw [List.pairwise_iff_getElem]
  intro j j' hj hj' hlt
  obtain ⟨ps, hps, hrest⟩ := h.batch (List.getElem?_eq_getElem hj)
  obtain ⟨_, -, hrest'⟩ := h.batch (List.getElem?_eq_getElem hj')
  rw [hrest'.startIndex_eq, hrest.endIndex_eq hps]
  exact Nat.add_le_add_left (offset_mono (by omega)) base

end Covers

theorem prune_suffix (batches : List (PresigBatch S G)) : SigningManager.prune batches <:+ batches := by
  fun_induction SigningManager.prune batches with
  | case1 b b' rest _ ih => exact ih.trans (List.suffix_cons b _)
  | case2 => exact List.suffix_rfl
  | case3 => exact List.suffix_rfl

theorem Covers.prune (h : Covers first base installed dropped batches) :
    ∃ dropped', Covers first base installed dropped' (SigningManager.prune batches) := by
  fun_induction SigningManager.prune batches generalizing dropped with
  | case1 b b' rest _ ih => exact ih h.tail
  | case2 => exact ⟨dropped, h⟩
  | case3 => exact ⟨dropped, h⟩

/-! ## What the first lock section does -/

namespace SigningManager

variable {m m' : SigningManager S G} {input : SignInput S} {seals : Bag Nat PresigSealV1}

structure SameBut (m m' : SigningManager S G) : Prop where
  batches_eq : m'.batches = m.batches
  nextBatch_eq : m'.nextBatch = m.nextBatch
  outputs_eq : m'.partialSigningOutputs = m.partialSigningOutputs

theorem SameBut.refl (m : SigningManager S G) : SameBut m m := ⟨rfl, rfl, rfl⟩

theorem sameBut_requestRefill (m : SigningManager S G) (k : Nat) : SameBut m (m.requestRefill k) :=
  ⟨rfl, rfl, rfl⟩

theorem sameBut_refillIfLow (m : SigningManager S G) : SameBut m m.refillIfLow := by
  unfold refillIfLow
  split
  · split_ifs
    · exact sameBut_requestRefill m _
    · exact .refl m
  · exact .refl m

theorem advance_cases (m : SigningManager S G) :
    m.advance.partialSigningOutputs = m.partialSigningOutputs ∧
      ((m.advance.batches = m.batches ∧
          (m.advance.nextBatch = m.nextBatch ∨ m.advance.nextBatch = none)) ∨
        ∃ latest next, m.batches.getLast? = some latest ∧ m.nextBatch = some next ∧
          next.batchIndex = latest.batchIndex + 1 ∧ m.advance.nextBatch = none ∧
          m.advance.batches = m.batches ++
            [⟨next.pool, latest.endIndex, latest.batchIndex + 1, next.dealerSetDigest⟩]) := by
  unfold advance
  split
  next latest next hlatest hnext =>
    split_ifs with hnumber hstale
    · exact ⟨rfl, .inr ⟨latest, next, hlatest, hnext, hnumber, rfl, rfl⟩⟩
    · exact ⟨rfl, .inl ⟨rfl, .inr rfl⟩⟩
    · exact ⟨rfl, .inl ⟨rfl, .inl rfl⟩⟩
  next => exact ⟨rfl, .inl ⟨rfl, .inl rfl⟩⟩

/-- `t` is taken from slot `t.position` of the batch that covers the input's index. -/
structure TakesFrom (m : SigningManager S G) (t : Taken S G) (m' : SigningManager S G) : Prop where
  exists_slot : ∃ j b, m.batches[j]? = some b ∧ b.contains t.input.globalPresigIndex ∧
    t.batchIndex = b.batchIndex ∧ t.position = t.input.globalPresigIndex - b.startIndex ∧
    b.pool[t.position]? = some (some t.presig) ∧
    m'.batches = prune (m.batches.set j (b.emptied t.position))
  nextBatch_eq : m'.nextBatch = m.nextBatch
  outputs_eq : m'.partialSigningOutputs = m.partialSigningOutputs

theorem takeFrom_cases {j : Nat} (hb : m.batches[j]? = some b)
    (hcontains : b.contains input.globalPresigIndex) {r : Except SigningError (Taken S G)}
    (h : m.takeFrom j b input seals = (r, m')) :
    (∃ e, r = .error e ∧ m' = m) ∨ ∃ t, r = .ok t ∧ t.input = input ∧ TakesFrom m t m' := by
  unfold takeFrom at h
  split at h
  · cases h
    exact .inl ⟨_, rfl, rfl⟩
  · dsimp only at h
    split at h
    next randomness _ presig hslot =>
      cases h
      have hsame := sameBut_refillIfLow (m.takeSlot j b (input.globalPresigIndex - b.startIndex))
      refine .inr ⟨_, rfl, rfl, ⟨j, b, hb, hcontains, rfl, rfl, hslot, ?_⟩, hsame.nextBatch_eq,
        hsame.outputs_eq⟩
      change prune _ = _
      rw [hsame.batches_eq]
      rfl
    next =>
      cases h
      exact .inl ⟨_, rfl, rfl⟩

theorem position_eq_some {g j : Nat} (h : m.position g = some j) :
    ∃ b, m.batches[j]? = some b ∧ b.contains g := by
  obtain ⟨hj, hcontains, -⟩ := List.findIdx?_eq_some_iff_getElem.mp h
  exact ⟨m.batches[j], List.getElem?_eq_getElem hj, hcontains⟩

/-- A cached request changes nothing. Any other may install the prefetched batch, and then either
fails or takes one presignature. -/
theorem takePresig_cases {r : Except SigningError (CacheOrPresig S G)}
    (h : m.takePresig input seals = (r, m')) :
    (∃ existing, m.partialSigningOutputs.lookup input.signingId = some existing ∧
      r = .ok (.cached existing) ∧ m' = m) ∨
    (m.partialSigningOutputs.lookup input.signingId = none ∧ ∃ m₁, (m₁ = m ∨ m₁ = m.advance) ∧
      ((∃ e, r = .error e ∧ SameBut m₁ m') ∨
        ∃ t, r = .ok (.presig t) ∧ t.input = input ∧ TakesFrom m₁ t m')) := by
  unfold takePresig at h
  split at h
  next existing hexisting =>
    cases h
    exact .inl ⟨existing, hexisting, rfl, rfl⟩
  next hnone =>
    refine .inr ⟨hnone, if (m.position input.globalPresigIndex).isSome then m else m.advance,
      ?_, ?_⟩
    · split_ifs
      · exact .inl rfl
      · exact .inr rfl
    · dsimp only at h
      generalize (if (m.position input.globalPresigIndex).isSome then m else m.advance) = m₁ at h ⊢
      split at h
      · cases h
        refine .inl ⟨_, rfl, ?_⟩
        split_ifs
        · exact sameBut_requestRefill m₁ _
        · exact .refl m₁
      next j hposition =>
        obtain ⟨b, hb, hcontains⟩ := position_eq_some hposition
        rw [hb] at h
        dsimp only at h
        cases htake : m₁.takeFrom j b input seals with
        | mk taken m₂ =>
            rw [htake] at h
            cases h
            obtain ⟨e, rfl, rfl⟩ | ⟨t, rfl, hinput, htakes⟩ := takeFrom_cases hb hcontains htake
            · exact .inl ⟨e, rfl, .refl m₂⟩
            · exact .inr ⟨t, rfl, hinput, htakes⟩

end SigningManager

/-! ## The digest of a request -/

theorem length_toLittleEndian (n x : Nat) : (toLittleEndian n x).length = n := by
  induction n generalizing x with
  | zero => rfl
  | succ n ih => rw [toLittleEndian, List.length_cons, ih]

theorem toLittleEndian_inj {n x y : Nat} (hx : x < 256 ^ n) (hy : y < 256 ^ n)
    (h : toLittleEndian n x = toLittleEndian n y) : x = y := by
  induction n generalizing x y with
  | zero =>
      rw [Nat.pow_zero, Nat.lt_one_iff] at hx hy
      rw [hx, hy]
  | succ n ih =>
      obtain ⟨hdigit, hrest⟩ := List.cons.inj h
      have hmod : x % 256 = y % 256 := by
        have hx' : x % 256 < UInt8.size := Nat.mod_lt x (by decide)
        have hy' : y % 256 < UInt8.size := Nat.mod_lt y (by decide)
        have := congrArg UInt8.toNat hdigit
        rwa [UInt8.toNat_ofNat_of_lt' hx', UInt8.toNat_ofNat_of_lt' hy'] at this
      have hdiv : x / 256 = y / 256 := by
        refine ih ?_ ?_ hrest
        · exact Nat.div_lt_of_lt_mul (by rwa [Nat.pow_succ, Nat.mul_comm] at hx)
        · exact Nat.div_lt_of_lt_mul (by rwa [Nat.pow_succ, Nat.mul_comm] at hy)
      omega

/-- What is hashed determines the message and the address, since the length comes first. -/
theorem signingRequestBytes_inj {message message' : Bytes} {address address' : Option Bytes}
    (hlt : message.length < U64_SIZE) (hlt' : message'.length < U64_SIZE)
    (h : signingRequestBytes message address = signingRequestBytes message' address') :
    message = message' ∧ address = address' := by
  unfold signingRequestBytes at h
  rw [List.append_assoc, List.append_assoc] at h
  obtain ⟨hlens, hrest⟩ := List.append_inj h
    (by rw [length_toLittleEndian, length_toLittleEndian])
  have hlength : message.length = message'.length := toLittleEndian_inj hlt hlt' hlens
  obtain ⟨hmessage, htail⟩ := List.append_inj hrest hlength
  refine ⟨hmessage, ?_⟩
  cases address <;> cases address' <;> simp_all

end HashiBridge.Mpc
