import HashiBridge.Core.Committee
import HashiBridge.Lib.Loop
import HashiBridge.Lib.Quorum

/-!
# Reading a certificate

The walk over a signers bitmap collects the members at its set bits, in order. Since the positions
ascend, their weights never add up to more than the committee's total, so no addition aborts.
-/

namespace HashiBridge.Core

open Lib

namespace Committee

def signerIndices (bitmap : Bytes) : List Nat := setBits isSigner 8 0 bitmap

def signersOf (self : Committee) (bitmap : Bytes) : List CommitteeMember :=
  select self.members (signerIndices bitmap)

def Signers.extend (acc : Signers) (members : List CommitteeMember) : Signers :=
  ⟨acc.aggregateWeight + weightSum members,
    acc.publicKeys ++ members.map CommitteeMember.publicKey⟩

@[simp] theorem Signers.extend_nil (acc : Signers) : acc.extend [] = acc := by
  simp [Signers.extend, weightSum]

theorem Signers.extend_append (acc : Signers) (as bs : List CommitteeMember) :
    acc.extend (as ++ bs) = (acc.extend as).extend bs := by
  simp [Signers.extend, weightSum, Nat.add_assoc]

structure Walk (committee : Committee) (is : List Nat) (acc acc' : Signers) : Prop where
  inRange : ∀ i ∈ is, i < committee.nMembers
  collected : acc' = acc.extend (select committee.members is)
  fits : acc'.aggregateWeight < U64_SIZE

variable {self : Committee} {acc acc' : Signers}

theorem walk_nil (hacc : acc.aggregateWeight < U64_SIZE) : self.Walk [] acc acc' ↔ acc' = acc := by
  constructor
  · intro h
    simpa using h.collected
  · rintro rfl
    exact ⟨by simp, by simp, hacc⟩

theorem walk_append {is js : List Nat} :
    self.Walk (is ++ js) acc acc' ↔ ∃ mid, self.Walk is acc mid ∧ self.Walk js mid acc' := by
  constructor
  · rintro ⟨hrange, rfl, hfits⟩
    rw [select_append, Signers.extend_append] at hfits ⊢
    refine ⟨_, ⟨fun i hi => hrange i (by simp [hi]), rfl, ?_⟩,
      ⟨fun i hi => hrange i (by simp [hi]), rfl, hfits⟩⟩
    exact Nat.lt_of_le_of_lt (Nat.le_add_right _ _) hfits
  · rintro ⟨mid, ⟨hi, rfl, _⟩, ⟨hj, rfl, hfits⟩⟩
    exact ⟨List.forall_mem_append.mpr ⟨hi, hj⟩, by rw [select_append, Signers.extend_append], hfits⟩

theorem visitBit_eq_ok {byte : UInt8} {offset bitIndex : Nat}
    (hacc : acc.aggregateWeight < U64_SIZE) :
    self.visitBit byte offset acc bitIndex = .ok acc' ↔
      self.Walk (([bitIndex].filter (isSigner byte)).map (offset + ·)) acc acc' := by
  cases hbit : isSigner byte bitIndex with
  | false =>
      rw [List.filter_cons_of_neg (by simp [hbit]), List.filter_nil, List.map_nil, walk_nil hacc]
      cases hmem : self.members[offset + bitIndex]? <;>
        simp [visitBit, hmem, hbit, require, bind, Except.bind, pure, Except.pure, @eq_comm _ acc]
  | true =>
      rw [List.filter_cons_of_pos hbit, List.filter_nil, List.map_cons, List.map_nil]
      cases hmem : self.members[offset + bitIndex]? with
      | none =>
          have hlen := List.getElem?_eq_none_iff.mp hmem
          simp only [visitBit, hmem, hbit, bind_eq_ok, require_eq_ok]
          constructor
          · rintro ⟨_, h, _⟩
            cases h
          · intro h
            have := h.inRange _ (List.mem_singleton_self _)
            exact absurd hlen (Nat.not_le.mpr this)
      | some member =>
          obtain ⟨hlt, _⟩ := List.getElem?_eq_some_iff.mp hmem
          have hsel : select self.members [offset + bitIndex] = [member] := by simp [select, hmem]
          simp only [visitBit, hmem, hbit, ↓reduceIte, bind_eq_ok, pure_eq_ok, add, addU64_eq_ok]
          constructor
          · rintro ⟨_, ⟨hfits, rfl⟩, rfl⟩
            exact ⟨by simpa [nMembers] using hlt, by simp [hsel, Signers.extend, weightSum], hfits⟩
          · rintro ⟨_, rfl, hfits⟩
            simp only [hsel, Signers.extend, weightSum, List.map_cons, List.map_nil,
              List.sum_singleton] at hfits ⊢
            exact ⟨_, ⟨hfits, rfl⟩, rfl⟩

theorem visitBit_loop {byte : UInt8} {offset : Nat} (bits : List Nat)
    (hacc : acc.aggregateWeight < U64_SIZE) :
    bits.foldlM (self.visitBit byte offset) acc = .ok acc' ↔
      self.Walk ((bits.filter (isSigner byte)).map (offset + ·)) acc acc' := by
  induction bits generalizing acc with
  | nil => rw [foldlM_nil_eq_ok, List.filter_nil, List.map_nil, walk_nil hacc, eq_comm]
  | cons bit bits ih =>
      rw [foldlM_cons_eq_ok, ← List.singleton_append, List.filter_append, List.map_append,
        walk_append]
      refine exists_congr fun mid => ?_
      rw [visitBit_eq_ok hacc]
      exact and_congr_right fun hmid => ih hmid.fits

theorem visitByte_loop (bytes : Bytes) {offset offset' : Nat}
    (hacc : acc.aggregateWeight < U64_SIZE) :
    bytes.foldlM self.visitByte (acc, offset) = .ok (acc', offset') ↔
      self.Walk (setBits isSigner 8 offset bytes) acc acc' ∧
        offset' = offset + 8 * bytes.length := by
  induction bytes generalizing acc offset with
  | nil =>
      rw [foldlM_nil_eq_ok, setBits_nil, walk_nil hacc, Prod.mk.injEq, List.length_nil,
        @eq_comm _ acc, @eq_comm _ offset]
      rfl
  | cons byte bytes ih =>
      rw [foldlM_cons_eq_ok, setBits_cons, walk_append]
      simp only [visitByte, bind_eq_ok, pure_eq_ok, visitBit_loop _ hacc, List.length_cons]
      constructor
      · rintro ⟨_, ⟨mid, hmid, rfl⟩, hrest⟩
        obtain ⟨hwalk, rfl⟩ := (ih hmid.fits).mp hrest
        exact ⟨⟨mid, hmid, hwalk⟩, by omega⟩
      · rintro ⟨⟨mid, hmid, hwalk⟩, rfl⟩
        exact ⟨_, ⟨mid, hmid, rfl⟩, (ih hmid.fits).mpr ⟨hwalk, by omega⟩⟩

theorem weightSum_signersOf_le (self : Committee) (bitmap : Bytes) :
    weightSum (self.signersOf bitmap) ≤ self.totalWeight := by
  rw [self.total_eq]
  exact ((select_sublist (setBits_pairwise _ _) _).map _).sum_le_sum fun _ _ => Nat.zero_le _

theorem walk_signerIndices (bitmap : Bytes) :
    self.Walk (signerIndices bitmap) ⟨0, []⟩ acc ↔
      (∀ i ∈ signerIndices bitmap, i < self.nMembers) ∧
        acc = ⟨weightSum (self.signersOf bitmap),
          (self.signersOf bitmap).map CommitteeMember.publicKey⟩ := by
  have hextend : Signers.extend ⟨0, []⟩ (self.signersOf bitmap) =
      ⟨weightSum (self.signersOf bitmap),
        (self.signersOf bitmap).map CommitteeMember.publicKey⟩ := by
    simp [Signers.extend]
  constructor
  · rintro ⟨hrange, rfl, _⟩
    exact ⟨hrange, hextend⟩
  · rintro ⟨hrange, rfl⟩
    refine ⟨hrange, hextend.symm, ?_⟩
    exact Nat.lt_of_le_of_lt (self.weightSum_signersOf_le bitmap) self.total_lt

theorem verifyCertificate_eq_ok {T : Type} {crypto : Crypto} {toBytes : T → Bytes}
    {hashiId : Address} {intent : Nat} {message : T} {signature : CommitteeSignature}
    {threshold : Nat} {certified : CertifiedMessage T} :
    self.verifyCertificate crypto toBytes hashiId intent message signature threshold =
        .ok certified ↔
      signature.epoch = self.epoch ∧
      signature.signersBitmap.length ≤ divideAndRoundUp self.nMembers 8 ∧
      (∀ i ∈ signerIndices signature.signersBitmap, i < self.nMembers) ∧
      threshold ≤ weightSum (self.signersOf signature.signersBitmap) ∧
      crypto.minPkVerify signature.signature
        (crypto.g1Sum ((self.signersOf signature.signersBitmap).map CommitteeMember.publicKey))
        (signingPreimage hashiId intent signature.epoch (toBytes message)) = true ∧
      certified =
        ⟨message, signature, weightSum (self.signersOf signature.signersBitmap)⟩ := by
  have hzero : (⟨0, []⟩ : Signers).aggregateWeight < U64_SIZE := by decide
  simp only [verifyCertificate, bind_eq_ok, require_eq_ok, pure_eq_ok, Prod.exists,
    visitByte_loop _ hzero]
  constructor
  · rintro ⟨_, hepoch, _, hlen, signers, _, ⟨hwalk, _⟩, _, hweight, _, hverify, rfl⟩
    obtain ⟨hrange, rfl⟩ := (walk_signerIndices _).mp hwalk
    exact ⟨hepoch, hlen, hrange, hweight, hverify, rfl⟩
  · rintro ⟨hepoch, hlen, hrange, hweight, hverify, rfl⟩
    exact ⟨(), hepoch, (), hlen, _, _, ⟨(walk_signerIndices _).mpr ⟨hrange, rfl⟩, rfl⟩, (),
      hweight, (), hverify, rfl⟩

end Committee

end HashiBridge.Core
