import HashiBridge.Node.Aggregator
import HashiBridge.Node.Theorems.Certificates

/-!
# The certificate of the accepted signatures

Whatever is added, in whatever order, the aggregator stands for the members whose signature was
accepted: its bitmap has their indices, its weight is theirs, and the chain accepts its certificate just
when that weight reaches the threshold.
-/

namespace HashiBridge.Node

open Lib HashiBridge.Core

variable {T G : Type}

/-! ## Setting a bit -/

namespace BitMap

variable {self : BitMap} {b i : Nat}

theorem mem_iter : i ∈ self.iter ↔
    ∃ byte, self.bitmap[i / 8]? = some byte ∧ byte &&& mask (i % 8) ≠ 0 := by
  simp only [iter, List.mem_flatMap, List.mem_filterMap, Option.ite_none_right_eq_some, Prod.exists,
    List.mk_mem_zipIdx_iff_getElem?, List.mem_range, Option.some.injEq]
  constructor
  · rintro ⟨byte, byteIndex, hbyte, bitIndex, hbit, hset, rfl⟩
    have hdiv : (byteIndex * 8 + bitIndex) / 8 = byteIndex := by omega
    have hmod : (byteIndex * 8 + bitIndex) % 8 = bitIndex := by omega
    exact ⟨byte, by rw [hdiv, hbyte], by rw [hmod]; exact hset⟩
  · rintro ⟨byte, hbyte, hset⟩
    exact ⟨byte, i / 8, hbyte, i % 8, Nat.mod_lt i (by decide), hset, by omega⟩

theorem iter_pairwise (self : BitMap) : self.iter.Pairwise (· < ·) := by
  rw [show self = ⟨self.bitmap⟩ from rfl, iter_eq]
  exact setBits_pairwise 0 self.bitmap

theorem and_or_mask {j k : Nat} (hj : j < 8) (hk : k < 8) (byte : UInt8) :
    (byte ||| mask k) &&& mask j ≠ 0 ↔ j = k ∨ byte &&& mask j ≠ 0 := by
  rw [and_mask_ne_zero hj, and_mask_ne_zero hj]
  have hmask : (mask k).toNat = 2 ^ (7 - k) := by
    interval_cases k <;> rfl
  rw [Core.Committee.isSigner, UInt8.toNat_or, Nat.testBit_or, hmask, Nat.testBit_two_pow,
    Bool.or_eq_true, decide_eq_true_eq, Core.Committee.isSigner]
  constructor
  · rintro (h | h)
    · exact Or.inr h
    · exact Or.inl (by omega)
  · rintro (rfl | h)
    · exact Or.inr rfl
    · exact Or.inl h

theorem or_mask_of_and {k : Nat} (hk : k < 8) {byte : UInt8} (h : byte &&& mask k ≠ 0) :
    byte ||| mask k = byte := by
  rw [and_mask_ne_zero hk, Core.Committee.isSigner] at h
  have hmask : (mask k).toNat = 2 ^ (7 - k) := by
    interval_cases k <;> rfl
  rw [← UInt8.toNat_inj, UInt8.toNat_or, hmask]
  refine Nat.eq_of_testBit_eq fun j => ?_
  rw [Nat.testBit_or, Nat.testBit_two_pow]
  by_cases hj : 7 - k = j
  · subst hj
    rw [h]
    rfl
  · rw [decide_eq_false hj, Bool.or_false]

def padded (self : BitMap) (b : Nat) : Bytes :=
  self.bitmap ++ List.replicate (b / 8 + 1 - self.bitmap.length) 0

theorem padded_length : (self.padded b).length = max self.bitmap.length (b / 8 + 1) := by
  rw [padded, List.length_append, List.length_replicate]
  omega

theorem padded_getElem? {k : Nat} {byte : UInt8} :
    (self.padded b)[k]? = some byte ↔ self.bitmap[k]? = some byte ∨
      (self.bitmap.length ≤ k ∧ k < b / 8 + 1 ∧ byte = 0) := by
  rw [padded]
  rcases Nat.lt_or_ge k self.bitmap.length with hlt | hge
  · rw [List.getElem?_append_left hlt]
    constructor
    · exact Or.inl
    · rintro (h | ⟨hle, -⟩)
      · exact h
      · omega
  · rw [List.getElem?_append_right hge, List.getElem?_replicate, Option.ite_none_right_eq_some,
      List.getElem?_eq_none hge, Option.some.injEq]
    constructor
    · rintro ⟨hlt, rfl⟩
      exact Or.inr ⟨hge, by omega, rfl⟩
    · rintro (h | ⟨-, hlt, rfl⟩)
      · cases h
      · exact ⟨by omega, rfl⟩

/-- Padding sets no bit. -/
theorem exists_padded (self : BitMap) (b : Nat) {k j : Nat} :
    (∃ byte, (self.padded b)[k]? = some byte ∧ byte &&& mask j ≠ 0) ↔
      ∃ byte, self.bitmap[k]? = some byte ∧ byte &&& mask j ≠ 0 := by
  constructor
  · rintro ⟨byte, hbyte, hset⟩
    rcases padded_getElem?.mp hbyte with hbyte | ⟨-, -, rfl⟩
    · exact ⟨byte, hbyte, hset⟩
    · exact absurd UInt8.zero_and hset
  · rintro ⟨byte, hbyte, hset⟩
    exact ⟨byte, padded_getElem?.mpr (Or.inl hbyte), hset⟩

theorem insert_eq (self : BitMap) (b : Nat) : ∃ byte, (self.padded b)[b / 8]? = some byte ∧
    self.insert b = (decide (byte &&& mask (b % 8) ≠ 0),
      ⟨(self.padded b).set (b / 8) (byte ||| mask (b % 8))⟩) := by
  have hlt : b / 8 < (self.padded b).length := by
    rw [padded_length]
    omega
  refine ⟨(self.padded b)[b / 8], List.getElem?_eq_getElem hlt, ?_⟩
  rw [insert, ← padded, List.getD_eq_getElem _ _ hlt]

theorem insert_fst : (self.insert b).1 = true ↔ b ∈ self.iter := by
  obtain ⟨byte, hbyte, heq⟩ := self.insert_eq b
  rw [heq, decide_eq_true_iff, mem_iter, ← exists_padded self b, hbyte]
  simp only [Option.some.injEq, exists_eq_left']

theorem mem_insert : i ∈ (self.insert b).2.iter ↔ i = b ∨ i ∈ self.iter := by
  obtain ⟨byte, hbyte, heq⟩ := self.insert_eq b
  have hlt := (List.getElem?_eq_some_iff.mp hbyte).1
  rw [heq, mem_iter, mem_iter, ← exists_padded self b]
  by_cases hword : b / 8 = i / 8
  · -- the byte that is set
    simp only [← hword, List.getElem?_set_self hlt, hbyte, Option.some.injEq, exists_eq_left']
    rw [and_or_mask (Nat.mod_lt i (by decide)) (Nat.mod_lt b (by decide))]
    have hsame : i % 8 = b % 8 ↔ i = b := by omega
    rw [hsame]
  · have hne : i ≠ b := fun h => hword (h ▸ rfl)
    simp only [List.getElem?_set_ne hword, hne, false_or]

theorem insert_of_mem (h : b ∈ self.iter) : (self.insert b).2 = self := by
  obtain ⟨byte', hbyte', hset⟩ := mem_iter.mp h
  obtain ⟨byte, hbyte, heq⟩ := self.insert_eq b
  obtain rfl := Option.some.inj (hbyte.symm.trans (padded_getElem?.mpr (Or.inl hbyte')))
  have hlt := (List.getElem?_eq_some_iff.mp hbyte').1
  have hpadded : self.padded b = self.bitmap := by
    rw [padded, Nat.sub_eq_zero_of_le hlt, List.replicate_zero, List.append_nil]
  rw [heq, or_mask_of_and (Nat.mod_lt b (by decide)) hset, hpadded]
  obtain ⟨hbound, hget⟩ := List.getElem?_eq_some_iff.mp hbyte'
  rw [← hget, List.set_getElem_self]

theorem insert_length : (self.insert b).2.bitmap.length = max self.bitmap.length (b / 8 + 1) := by
  obtain ⟨byte, -, heq⟩ := self.insert_eq b
  rw [heq, List.length_set, padded_length]

end BitMap

/-! ## One signature -/

theorem Committee.indexOf_eq_some {c : Committee}
    (hdistinct : (c.members.map CommitteeMember.address).Nodup) {address : Address} {i : Nat} :
    c.indexOf address = some i ↔ ∃ m, c.members[i]? = some m ∧ m.address = address := by
  have hfound {entry : CommitteeMember × Nat}
      (h : (c.members.zipIdx.reverse.find? fun entry => entry.1.address = address) = some entry) :
      c.members[entry.2]? = some entry.1 ∧ entry.1.address = address := by
    have hmatch := List.find?_some h
    exact ⟨List.mem_zipIdx_iff_getElem?.mp (List.mem_reverse.mp (List.mem_of_find?_eq_some h)),
      of_decide_eq_true hmatch⟩
  rw [indexOf, Option.map_eq_some_iff]
  constructor
  · rintro ⟨entry, hentry, rfl⟩
    exact ⟨entry.1, hfound hentry⟩
  · rintro ⟨m, hm, haddress⟩
    have hsome : (c.members.zipIdx.reverse.find? fun entry => entry.1.address = address).isSome := by
      rw [List.find?_isSome]
      exact ⟨(m, i), List.mem_reverse.mpr (List.mem_zipIdx_iff_getElem?.mpr hm),
        decide_eq_true haddress⟩
    obtain ⟨entry, hentry⟩ := Option.isSome_iff_exists.mp hsome
    obtain ⟨hget, hsame⟩ := hfound hentry
    refine ⟨entry, hentry, ?_⟩
    have hmap (j : Nat) (m : CommitteeMember) (h : c.members[j]? = some m) :
        (c.members.map CommitteeMember.address)[j]? = some m.address := by
      rw [List.getElem?_map, h]
      rfl
    have hboth := (hmap _ _ hget).trans ((congrArg some (hsame.trans haddress.symm)).trans
      (hmap _ _ hm).symm)
    exact (List.getElem?_inj (List.getElem?_eq_some_iff.mp (hmap _ _ hget)).1 hdistinct).mp hboth

namespace BlsSignatureAggregator

variable [AddCommMonoid G] {bls : Bls G} {intent : Nat} {toBytes : T → Bytes}
  {self : BlsSignatureAggregator T G} {signature : MemberSignature G}

/-- The signature is valid and of a member, at this index, who has not signed yet. -/
structure Takes (bls : Bls G) (intent : Nat) (toBytes : T → Bytes)
    (aggregator : BlsSignatureAggregator T G) (signature : MemberSignature G) (index : Nat)
    (member : CommitteeMember) : Prop where
  atIndex : aggregator.committee.indexOf signature.address = some index
  isMember : aggregator.committee.members[index]? = some member
  epoch_eq : aggregator.committee.epoch = signature.epoch
  valid : bls.verify member.publicKey (signingMessage intent aggregator.hashiId signature.epoch
    (toBytes aggregator.message)) signature.signature = true
  unsigned : index ∉ aggregator.bitmap.iter

def added (self : BlsSignatureAggregator T G) (signature : MemberSignature G) (index : Nat)
    (member : CommitteeMember) : BlsSignatureAggregator T G :=
  { self with
    aggregateSignature := some (self.aggregateSignature.elim signature.signature
      (· + signature.signature))
    bitmap := (self.bitmap.insert index).2
    signed := wrapU64 (self.signed + member.weight) }

/-- What a call can do: it is rejected and changes nothing, or the signature is taken and added. -/
theorem addSignature_cases (bls : Bls G) (intent : Nat) (toBytes : T → Bytes)
    (self : BlsSignatureAggregator T G) (signature : MemberSignature G) :
    (∃ error, self.addSignature bls intent toBytes signature = (.error error, self)) ∨
    ∃ index member, self.Takes bls intent toBytes signature index member ∧
      self.addSignature bls intent toBytes signature = (.ok (), self.added signature index member) := by
  rw [addSignature]
  cases hverify : self.committee.verify bls intent toBytes self.hashiId self.message signature with
  | error error => exact Or.inl ⟨error, rfl⟩
  | ok u =>
      simp only [Committee.verify, Committee.member, bind_eq_ok, require_eq_ok, orAbort_eq_ok,
        Option.bind_eq_some_iff] at hverify
      obtain ⟨-, hepoch, member, ⟨index, hindex, hmember⟩, hvalid⟩ := hverify
      simp only [hindex]
      by_cases hmem : index ∈ self.bitmap.iter
      · rw [if_pos (BitMap.insert_fst.mpr hmem), BitMap.insert_of_mem hmem]
        exact Or.inl ⟨.duplicate, rfl⟩
      · rw [if_neg fun h => hmem (BitMap.insert_fst.mp h)]
        refine Or.inr ⟨index, member, ⟨hindex, hmember, hepoch, hvalid, hmem⟩, ?_⟩
        rw [addSigner, hmember, added]
        cases self.aggregateSignature with
        | none => rfl
        | some aggregate => rfl

theorem Takes.accepted {index : Nat} {member : CommitteeMember}
    (h : self.Takes bls intent toBytes signature index member) :
    (self.addSignature bls intent toBytes signature).1 = .ok () := by
  have hverify : self.committee.verify bls intent toBytes self.hashiId self.message signature =
      .ok () := by
    simp only [Committee.verify, Committee.member, h.atIndex, Option.bind_some, h.isMember, bind_eq_ok,
      require_eq_ok, orAbort_eq_ok]
    exact ⟨(), h.epoch_eq, member, rfl, h.valid⟩
  rw [addSignature, hverify]
  simp only [h.atIndex]
  rw [if_neg fun hset => h.unsigned (BitMap.insert_fst.mp hset)]

end BlsSignatureAggregator

/-! ## What the aggregator stands for -/

/-- The aggregate is the sum of one valid signature for each key. -/
def SumsValid [AddCommMonoid G] (bls : Bls G) (aggregate : G) (keys : List PublicKey)
    (message : Bytes) : Prop :=
  ∃ signatures, List.Forall₂ (fun key signature => bls.verify key message signature = true) keys
    signatures ∧ signatures.sum = aggregate

/-- Aggregates verify, off chain and on chain, just when they are such sums. -/
structure BlsLaw [AddCommMonoid G] (bls : Bls G) (crypto : Crypto) : Prop where
  node : ∀ aggregate keys message, keys ≠ [] →
    (bls.aggregateVerify (bls.toBytes aggregate) keys message = true ↔
      SumsValid bls aggregate keys message)
  chain : ∀ aggregate keys message, keys ≠ [] →
    (crypto.minPkVerify (bls.toBytes aggregate) (crypto.g1Sum keys) message = true ↔
      SumsValid bls aggregate keys message)

structure StandsFor [AddCommMonoid G] (bls : Bls G) (intent : Nat) (toBytes : T → Bytes)
    (c : Core.Committee) (hashiId : Address) (message : T) (accepted : List (MemberSignature G))
    (aggregator : BlsSignatureAggregator T G) : Prop where
  committee_eq : aggregator.committee = Committee.fromMove c
  hashiId_eq : aggregator.hashiId = hashiId
  message_eq : aggregator.message = message
  nodup : (accepted.map MemberSignature.address).Nodup
  isMember : ∀ s ∈ accepted, ∃ m ∈ c.members, m.validatorAddress = s.address
  mem_iter : ∀ i, i ∈ aggregator.bitmap.iter ↔
    ∃ m, c.members[i]? = some m ∧ m.validatorAddress ∈ accepted.map MemberSignature.address
  length_le : aggregator.bitmap.bitmap.length ≤ divideAndRoundUp c.nMembers 8
  signed : aggregator.signed = c.weightOf aggregator.bitmap.iter.toFinset
  aggregate : ∃ σ : Nat → G,
    (∀ i ∈ aggregator.bitmap.iter, ∀ m, c.members[i]? = some m → bls.verify m.publicKey
      (signingMessage intent hashiId c.epoch (toBytes message)) (σ i) = true) ∧
    aggregator.aggregateSignature =
      if aggregator.bitmap.iter = [] then none else some (∑ i ∈ aggregator.bitmap.iter.toFinset, σ i)

theorem forall₂_select {c : Core.Committee} {R : PublicKey → G → Prop} {σ : Nat → G} {indices : List Nat}
    (h : ∀ i ∈ indices, ∃ m, c.members[i]? = some m ∧ R m.publicKey (σ i)) :
    List.Forall₂ R ((select c.members indices).map Core.CommitteeMember.publicKey)
      (indices.map σ) := by
  induction indices with
  | nil => exact .nil
  | cons i indices ih =>
      obtain ⟨m, hm, hR⟩ := h i List.mem_cons_self
      rw [select_cons_of_getElem? hm, List.map_cons, List.map_cons]
      exact .cons hR (ih fun j hj => h j (List.mem_cons_of_mem _ hj))

section

variable [AddCommMonoid G] {bls : Bls G} {intent : Nat} {toBytes : T → Bytes} {c : Core.Committee}
  {hashiId : Address} {message : T}

theorem standsFor_new :
    StandsFor bls intent toBytes c hashiId message [] (.new hashiId (.fromMove c) message) where
  committee_eq := rfl
  hashiId_eq := rfl
  message_eq := rfl
  nodup := List.nodup_nil
  isMember := fun _ h => absurd h List.not_mem_nil
  mem_iter := fun _ => iff_of_false List.not_mem_nil fun ⟨_, _, h⟩ => List.not_mem_nil h
  length_le := Nat.zero_le _
  signed := rfl
  aggregate := ⟨fun _ => 0, fun _ h => absurd h List.not_mem_nil, rfl⟩

theorem members_fromMove_getElem? {i : Nat} {member : CommitteeMember} :
    (Committee.fromMove c).members[i]? = some member ↔
      ∃ m, c.members[i]? = some m ∧ CommitteeMember.fromMove m = member := by
  rw [Committee.fromMove, Committee.withConfig, List.getElem?_map, Option.map_eq_some_iff]

theorem indexOf_fromMove (hdistinct : (c.members.map Core.CommitteeMember.validatorAddress).Nodup)
    {address : Address} {i : Nat} : (Committee.fromMove c).indexOf address = some i ↔
      ∃ m, c.members[i]? = some m ∧ m.validatorAddress = address := by
  have hnode : ((Committee.fromMove c).members.map CommitteeMember.address).Nodup := by
    rw [Committee.fromMove, Committee.withConfig, List.map_map]
    exact hdistinct
  rw [Committee.indexOf_eq_some hnode]
  constructor
  · rintro ⟨member, hmember, rfl⟩
    obtain ⟨m, hm, rfl⟩ := members_fromMove_getElem?.mp hmember
    exact ⟨m, hm, rfl⟩
  · rintro ⟨m, hm, rfl⟩
    exact ⟨.fromMove m, members_fromMove_getElem?.mpr ⟨m, hm, rfl⟩, rfl⟩

theorem weightOf_insert {i : Nat} {m : Core.CommitteeMember} {indices : Finset Nat}
    (hm : c.members[i]? = some m) (hi : i ∉ indices) :
    c.weightOf (insert i indices) = c.weightOf indices + m.weight ∧
      c.weightOf indices + m.weight < U64_SIZE := by
  have hinsert : c.weightOf (insert i indices) = c.weightOf indices + m.weight := by
    rw [Core.Committee.weightOf, weightOf, Finset.sum_insert hi, weightAt, hm, Nat.add_comm]
    rfl
  refine ⟨hinsert, ?_⟩
  rw [← hinsert]
  refine Nat.lt_of_le_of_lt ?_ c.total_lt
  rw [c.total_eq]
  exact weightOf_le_total _

theorem StandsFor.accept
    (hdistinct : (c.members.map Core.CommitteeMember.validatorAddress).Nodup)
    {accepted : List (MemberSignature G)} {self : BlsSignatureAggregator T G}
    (h : StandsFor bls intent toBytes c hashiId message accepted self)
    {signature : MemberSignature G} {index : Nat} {member : CommitteeMember}
    (htakes : self.Takes bls intent toBytes signature index member) :
    StandsFor bls intent toBytes c hashiId message (accepted ++ [signature])
      (self.added signature index member) := by
  unfold BlsSignatureAggregator.added
  obtain ⟨hindex, hmember, hepoch, hvalid, hnew⟩ := htakes
  rw [h.committee_eq] at hindex hmember hepoch
  rw [h.hashiId_eq, h.message_eq, ← hepoch] at hvalid
  obtain ⟨m, hm, haddress⟩ := (indexOf_fromMove hdistinct).mp hindex
  obtain ⟨m', hm', rfl⟩ := members_fromMove_getElem?.mp hmember
  obtain rfl := Option.some.inj (hm.symm.trans hm')
  have hlt : index < c.nMembers := (List.getElem?_eq_some_iff.mp hm).1
  have hiter : (self.bitmap.insert index).2.iter.toFinset =
      insert index self.bitmap.iter.toFinset := by
    ext i
    rw [List.mem_toFinset, BitMap.mem_insert, Finset.mem_insert, List.mem_toFinset]
  have hfresh : index ∉ self.bitmap.iter.toFinset := fun hmem => hnew (List.mem_toFinset.mp hmem)
  have hunsigned : signature.address ∉ accepted.map MemberSignature.address := fun hmem =>
    hnew ((h.mem_iter index).mpr ⟨m, hm, haddress ▸ hmem⟩)
  refine ⟨h.committee_eq, h.hashiId_eq, h.message_eq, ?_, ?_, ?_, ?_, ?_, ?_⟩
  · rw [List.map_append, List.map_singleton]
    exact List.nodup_append.mpr ⟨h.nodup, List.nodup_singleton _, fun a ha b hb heq =>
      hunsigned (by rw [← List.mem_singleton.mp hb, ← heq]; exact ha)⟩
  · exact List.forall_mem_append.mpr
      ⟨h.isMember, List.forall_mem_singleton.mpr ⟨m, List.mem_of_getElem? hm, haddress⟩⟩
  · intro i
    simp only [BitMap.mem_insert, h.mem_iter, List.map_append, List.map_singleton, List.mem_append,
      List.mem_singleton]
    constructor
    · rintro (rfl | ⟨m', hm', hmem⟩)
      · exact ⟨m, hm, Or.inr haddress⟩
      · exact ⟨m', hm', Or.inl hmem⟩
    · rintro ⟨m', hm', hmem | hsame⟩
      · exact Or.inr ⟨m', hm', hmem⟩
      · have hi := (indexOf_fromMove hdistinct).mpr ⟨m', hm', hsame⟩
        exact Or.inl (Option.some.inj (hi.symm.trans hindex))
  · have hbound : index / 8 + 1 ≤ divideAndRoundUp c.nMembers 8 := by
      have hround := (divideAndRoundUp_le_iff (x := c.nMembers) (z := divideAndRoundUp c.nMembers 8)
        (by decide : 0 < 8)).mp (Nat.le_refl _)
      omega
    rw [BitMap.insert_length]
    exact Nat.max_le.mpr ⟨h.length_le, hbound⟩
  · obtain ⟨hinsert, hfits⟩ := weightOf_insert hm hfresh
    rw [hiter, hinsert, h.signed]
    exact wrapU64_of_lt hfits
  · obtain ⟨σ, hσ, haggregate⟩ := h.aggregate
    have hkept : ∑ i ∈ self.bitmap.iter.toFinset, Function.update σ index signature.signature i =
        ∑ i ∈ self.bitmap.iter.toFinset, σ i :=
      Finset.sum_congr rfl fun i hi => Function.update_of_ne (fun heq : i = index => hfresh (heq ▸ hi)) _ _
    refine ⟨Function.update σ index signature.signature, ?_, ?_⟩
    · intro i hi m' hm'
      by_cases hsame : i = index
      · rw [hsame] at hm' ⊢
        rw [Function.update_self, ← Option.some.inj (hm.symm.trans hm')]
        exact hvalid
      · rw [Function.update_of_ne hsame]
        exact hσ i ((BitMap.mem_insert.mp hi).resolve_left hsame) m' hm'
    · have hne : (self.bitmap.insert index).2.iter ≠ [] :=
        List.ne_nil_of_mem (BitMap.mem_insert.mpr (Or.inl rfl))
      rw [if_neg hne, hiter, Finset.sum_insert hfresh, Function.update_self, hkept, haggregate]
      by_cases hempty : self.bitmap.iter = []
      · rw [if_pos hempty, hempty]
        simp
      · rw [if_neg hempty, Option.elim_some, add_comm]

theorem StandsFor.addSignatures
    (hdistinct : (c.members.map Core.CommitteeMember.validatorAddress).Nodup)
    {accepted : List (MemberSignature G)} {self : BlsSignatureAggregator T G}
    (h : StandsFor bls intent toBytes c hashiId message accepted self)
    (signatures : List (MemberSignature G)) :
    StandsFor bls intent toBytes c hashiId message
      (accepted ++ (self.addSignatures bls intent toBytes signatures).1)
      (self.addSignatures bls intent toBytes signatures).2 := by
  induction signatures generalizing accepted self with
  | nil =>
      rw [BlsSignatureAggregator.addSignatures, List.append_nil]
      exact h
  | cons signature rest ih =>
      rw [BlsSignatureAggregator.addSignatures]
      rcases self.addSignature_cases bls intent toBytes signature with
        ⟨error, heq⟩ | ⟨index, member, htakes, heq⟩
      · rw [heq]
        exact ih h
      · have hnext := ih (h.accept hdistinct htakes)
        rw [heq]
        rw [List.append_assoc, List.singleton_append] at hnext
        exact hnext

def CommitteeSignature.toMove (self : CommitteeSignature) : Core.CommitteeSignature :=
  ⟨self.epoch, self.signature, self.signersBitmap.bitmap⟩

namespace StandsFor

variable {accepted : List (MemberSignature G)} {aggregator : BlsSignatureAggregator T G}
  (h : StandsFor bls intent toBytes c hashiId message accepted aggregator)
include h

theorem iter_eq_nil : aggregator.bitmap.iter = [] ↔ accepted = [] := by
  constructor
  · intro hempty
    refine List.eq_nil_iff_forall_not_mem.mpr fun s hs => ?_
    obtain ⟨m, hmem, haddress⟩ := h.isMember s hs
    obtain ⟨i, hi⟩ := List.mem_iff_getElem?.mp hmem
    have hiter := (h.mem_iter i).mpr ⟨m, hi, haddress ▸ List.mem_map_of_mem hs⟩
    rw [hempty] at hiter
    exact List.not_mem_nil hiter
  · rintro rfl
    refine List.eq_nil_iff_forall_not_mem.mpr fun i hi => ?_
    obtain ⟨m, -, hmem⟩ := (h.mem_iter i).mp hi
    exact List.not_mem_nil hmem

theorem inRange : ∀ i ∈ aggregator.bitmap.iter, i < c.nMembers := fun i hi => by
  obtain ⟨m, hm, -⟩ := (h.mem_iter i).mp hi
  exact (List.getElem?_eq_some_iff.mp hm).1

theorem weight_eq : aggregator.weight = weightSum (c.signersOf aggregator.bitmap.bitmap) := by
  rw [BlsSignatureAggregator.weight, h.signed, BitMap.iter_eq, Core.Committee.weightOf_signerIndices]

theorem weight_eq_filter
    (hdistinct : (c.members.map Core.CommitteeMember.validatorAddress).Nodup) :
    aggregator.weight = weightSum (c.members.filter fun m =>
      m.validatorAddress ∈ accepted.map MemberSignature.address) := by
  have hmembers : c.members.Nodup := hdistinct.of_map
  have hsub : (c.signersOf aggregator.bitmap.bitmap).Sublist c.members :=
    select_sublist (setBits_pairwise _ _) _
  have hperm : (c.signersOf aggregator.bitmap.bitmap).Perm (c.members.filter fun m =>
      m.validatorAddress ∈ accepted.map MemberSignature.address) := by
    refine (List.perm_ext_iff_of_nodup (hmembers.sublist hsub)
      (hmembers.sublist List.filter_sublist)).mpr fun m => ?_
    simp only [Core.Committee.signersOf, select, ← BitMap.iter_eq, List.mem_filterMap, h.mem_iter,
      List.mem_filter, decide_eq_true_eq]
    constructor
    · rintro ⟨i, ⟨m', hm', hmem⟩, hm⟩
      obtain rfl := Option.some.inj (hm'.symm.trans hm)
      exact ⟨List.mem_of_getElem? hm, hmem⟩
    · rintro ⟨hm, hmem⟩
      obtain ⟨i, hi⟩ := List.mem_iff_getElem?.mp hm
      exact ⟨i, ⟨m, hi, hmem⟩, hi⟩
  rw [h.weight_eq, weightSum, weightSum]
  exact (hperm.map _).sum_eq

theorem sumsValid (hne : accepted ≠ []) :
    ∃ aggregate, aggregator.aggregateSignature = some aggregate ∧
      (c.signersOf aggregator.bitmap.bitmap).map Core.CommitteeMember.publicKey ≠ [] ∧
      SumsValid bls aggregate
        ((c.signersOf aggregator.bitmap.bitmap).map Core.CommitteeMember.publicKey)
        (signingMessage intent hashiId c.epoch (toBytes message)) := by
  have hiter : aggregator.bitmap.iter ≠ [] := fun hempty => hne (h.iter_eq_nil.mp hempty)
  obtain ⟨σ, hσ, haggregate⟩ := h.aggregate
  rw [if_neg hiter] at haggregate
  have hvalid : List.Forall₂ (fun key signature => bls.verify key
      (signingMessage intent hashiId c.epoch (toBytes message)) signature = true)
      ((select c.members aggregator.bitmap.iter).map Core.CommitteeMember.publicKey)
      (aggregator.bitmap.iter.map σ) := forall₂_select fun i hi => by
    obtain ⟨m, hm, -⟩ := (h.mem_iter i).mp hi
    exact ⟨m, hm, hσ i hi m hm⟩
  have hsigners : select c.members aggregator.bitmap.iter = c.signersOf aggregator.bitmap.bitmap := by
    rw [BitMap.iter_eq, Core.Committee.signersOf]
  rw [hsigners] at hvalid
  refine ⟨_, haggregate, ?_, aggregator.bitmap.iter.map σ, hvalid, ?_⟩
  · intro hnil
    have hlength := hvalid.length_eq
    rw [hnil, List.length_map] at hlength
    exact hiter (List.length_eq_zero_iff.mp hlength.symm)
  · exact (List.sum_toFinset σ (aggregator.bitmap.iter_pairwise.imp Nat.ne_of_lt)).symm

theorem finish_eq {crypto : Crypto} (law : BlsLaw bls crypto) :
    (accepted = [] → aggregator.finish bls intent toBytes = .error .empty) ∧
    (accepted ≠ [] → ∃ signed, aggregator.finish bls intent toBytes = .ok signed ∧
      ∀ threshold, c.Certifies crypto toBytes hashiId intent threshold signed.message
        signed.signature.toMove ↔ threshold ≤ aggregator.weight) := by
  constructor
  · intro hempty
    obtain ⟨σ, -, haggregate⟩ := h.aggregate
    rw [if_pos (h.iter_eq_nil.mpr hempty)] at haggregate
    rw [BlsSignatureAggregator.finish, haggregate]
  · intro hne
    obtain ⟨aggregate, haggregate, hkeys, hsums⟩ := h.sumsValid hne
    let signature : Core.CommitteeSignature :=
      ⟨c.epoch, bls.toBytes aggregate, aggregator.bitmap.bitmap⟩
    have hrange : ∀ i ∈ Core.Committee.signerIndices aggregator.bitmap.bitmap, i < c.nMembers := by
      rw [← BitMap.iter_eq]
      exact h.inRange
    have hcommittee : (CommitteeSignature.fromMove signature).verifyCommittee (.fromMove c) =
        .ok () := CommitteeSignature.verifyCommittee_eq_ok.mpr ⟨rfl, hrange⟩
    have hmembers : ((CommitteeSignature.fromMove signature).members (.fromMove c)).map
        CommitteeMember.publicKey =
        (c.signersOf aggregator.bitmap.bitmap).map Core.CommitteeMember.publicKey := by
      rw [CommitteeSignature.members_fromMove, List.map_map]
      rfl
    have hpreimage : Core.Committee.signingPreimage hashiId intent c.epoch (toBytes message) =
        signingMessage intent hashiId c.epoch (toBytes message) := by
      simp only [signingMessage, Core.Committee.signingPreimage, List.append_assoc]
    refine ⟨⟨.fromMove signature, message⟩, ?_, fun threshold => ?_⟩
    · have hverified : (Committee.fromMove c).verifySignatureAnyWeight bls.aggregateVerify intent
          toBytes hashiId ⟨.fromMove signature, message⟩ = .ok () := by
        refine bind_eq_ok.mpr ⟨(), hcommittee, ?_⟩
        rw [hmembers]
        exact require_pos ((law.node _ _ _ hkeys).mpr hsums)
      simp only [BlsSignatureAggregator.finish, haggregate, h.committee_eq, h.hashiId_eq,
        h.message_eq, bind_eq_ok, pure_eq_ok]
      exact ⟨(), mapError_eq_ok.mpr hverified, rfl⟩
    · rw [h.weight_eq]
      constructor
      · intro hcertifies
        exact hcertifies.threshold_le
      · intro hthreshold
        refine ⟨_, Core.Committee.verifyCertificate_eq_ok.mpr
          ⟨rfl, h.length_le, hrange, hthreshold, ?_, rfl⟩⟩
        have hchain := (law.chain _ _ _ hkeys).mpr hsums
        rw [← hpreimage] at hchain
        exact hchain

end StandsFor

end

/-- For a committee with distinct addresses and any sequence of calls: the weight is that of the members
whose signature was accepted, the bitmap lists their indices, a rejected call changes nothing, and the
certificate exists as soon as one signature was accepted and is worth that weight on chain. -/
theorem certificate_building [AddCommMonoid G] {bls : Bls G} {crypto : Crypto}
    (law : BlsLaw bls crypto) (intent : Nat) (toBytes : T → Bytes) (c : Core.Committee)
    (hdistinct : (c.members.map Core.CommitteeMember.validatorAddress).Nodup) (hashiId : Address)
    (message : T) (signatures : List (MemberSignature G)) :
    ∀ accepted aggregator, BlsSignatureAggregator.addSignatures bls intent toBytes
        (.new hashiId (.fromMove c) message) signatures = (accepted, aggregator) →
      aggregator.weight = weightSum (c.members.filter fun m =>
        m.validatorAddress ∈ accepted.map MemberSignature.address) ∧
      aggregator.bitmap.iter.Pairwise (· < ·) ∧
      (∀ i, i ∈ aggregator.bitmap.iter ↔
        ∃ m, c.members[i]? = some m ∧ m.validatorAddress ∈ accepted.map MemberSignature.address) ∧
      (∀ signature error next,
        aggregator.addSignature bls intent toBytes signature = (.error error, next) →
          next = aggregator) ∧
      ((∃ signed, aggregator.finish bls intent toBytes = .ok signed) ↔ accepted ≠ []) ∧
      ∀ signed, aggregator.finish bls intent toBytes = .ok signed → ∀ threshold,
        c.Certifies crypto toBytes hashiId intent threshold signed.message
          signed.signature.toMove ↔ threshold ≤ aggregator.weight := by
  intro accepted aggregator hrun
  have h : StandsFor bls intent toBytes c hashiId message accepted aggregator := by
    have hnew : StandsFor bls intent toBytes c hashiId message []
        (.new hashiId (.fromMove c) message) := standsFor_new
    have hstands := hnew.addSignatures hdistinct signatures
    rw [hrun, List.nil_append] at hstands
    exact hstands
  obtain ⟨hempty, hcertificate⟩ := h.finish_eq law
  refine ⟨h.weight_eq_filter hdistinct, aggregator.bitmap.iter_pairwise, h.mem_iter, ?_, ?_, ?_⟩
  · intro signature error next hrejected
    rcases aggregator.addSignature_cases bls intent toBytes signature with
      ⟨error', heq⟩ | ⟨index, member, -, heq⟩
    · exact (Prod.mk.inj (hrejected.symm.trans heq)).2
    · cases (Prod.mk.inj (hrejected.symm.trans heq)).1
  · constructor
    · rintro ⟨signed, hfinish⟩ hnil
      rw [hempty hnil] at hfinish
      cases hfinish
    · intro hne
      obtain ⟨signed, hfinish, -⟩ := hcertificate hne
      exact ⟨signed, hfinish⟩
  · intro signed hfinish threshold
    have hne : accepted ≠ [] := fun hnil => by
      rw [hempty hnil] at hfinish
      cases hfinish
    obtain ⟨signed', hfinish', hiff⟩ := hcertificate hne
    obtain rfl := Except.ok.inj (hfinish.symm.trans hfinish')
    exact hiff threshold

/-! ## A sample -/

/-- Signatures are numbers, of which 1 is valid under every key; aggregates count them. -/
def countingBls : Bls Nat where
  verify _ _ signature := signature = 1
  toBytes aggregate := List.replicate aggregate 0
  aggregateVerify signature keys _ := signature.length = keys.length

def countingCrypto : Crypto where
  minPkVerify signature key _ := signature.length = key.length
  g1Sum keys := List.replicate keys.length 0
  g1FromBytes _ := none
  g1Identity := []
  ed25519Verify _ _ _ := false

theorem sumsValid_counting {aggregate : Nat} {keys : List PublicKey} {message : Bytes} :
    SumsValid countingBls aggregate keys message ↔ aggregate = keys.length := by
  constructor
  · rintro ⟨signatures, hvalid, rfl⟩
    induction hvalid with
    | nil => rfl
    | cons hone _ ih =>
        rw [List.sum_cons, ih, of_decide_eq_true hone, List.length_cons, Nat.add_comm]
  · rintro rfl
    refine ⟨keys.map fun _ => 1, ?_, ?_⟩
    · rw [List.forall₂_map_right_iff, List.forall₂_same]
      exact fun _ _ => rfl
    · rw [List.map_const', List.sum_replicate, smul_eq_mul, Nat.mul_one]

theorem countingLaw : BlsLaw countingBls countingCrypto where
  node aggregate keys message _ := by
    rw [sumsValid_counting, countingBls, decide_eq_true_iff, List.length_replicate]
  chain aggregate keys message _ := by
    rw [sumsValid_counting, countingBls, countingCrypto, decide_eq_true_iff, List.length_replicate,
      List.length_replicate]

/-- A stranger, an invalid signature, a stale epoch, three members and a repetition. -/
def mixedSignatures : List (MemberSignature Nat) :=
  [⟨0, 9, 1⟩, ⟨0, 3, 7⟩, ⟨1, 2, 1⟩, ⟨0, 3, 1⟩, ⟨0, 0, 1⟩, ⟨0, 3, 1⟩, ⟨0, 2, 1⟩]

theorem certificate_building_mixed : ∃ aggregator signed,
    BlsSignatureAggregator.addSignatures countingBls 0 Core.Committee.bcsBool
        (.new 7 (.fromMove Core.Committee.fourMembers) true) mixedSignatures =
      ([⟨0, 3, 1⟩, ⟨0, 0, 1⟩, ⟨0, 2, 1⟩], aggregator) ∧ aggregator.weight = 3 ∧
    aggregator.finish countingBls 0 Core.Committee.bcsBool = .ok signed ∧
    Core.Committee.fourMembers.Certifies countingCrypto Core.Committee.bcsBool 7 0 3 signed.message
      signed.signature.toMove := by
  obtain ⟨aggregator, hrun⟩ : ∃ aggregator, BlsSignatureAggregator.addSignatures countingBls 0
      Core.Committee.bcsBool (.new 7 (.fromMove Core.Committee.fourMembers) true) mixedSignatures =
      ([⟨0, 3, 1⟩, ⟨0, 0, 1⟩, ⟨0, 2, 1⟩], aggregator) := ⟨_, rfl⟩
  obtain ⟨hweight, -, -, -, hfinish, hcertifies⟩ := certificate_building countingLaw 0
    Core.Committee.bcsBool Core.Committee.fourMembers (by decide) 7 true mixedSignatures _ _ hrun
  have hthree : aggregator.weight = 3 := by
    rw [hweight]
    decide
  obtain ⟨signed, hsigned⟩ := hfinish.mpr (List.cons_ne_nil _ _)
  exact ⟨aggregator, signed, hrun, hthree, hsigned, (hcertifies signed hsigned 3).mpr hthree.ge⟩

end HashiBridge.Node
