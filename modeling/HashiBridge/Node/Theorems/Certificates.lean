import HashiBridge.Core.Theorems.Quorum
import HashiBridge.Node.Committee

/-!
# The two verifiers of a certificate

The chain and the node decode the same signers from a bitmap. They differ on its length: the chain
refuses a bitmap longer than the committee needs, the node reads set bits only.
-/

namespace HashiBridge.Node

open Lib HashiBridge.Core

/-! ## Decoding -/

theorem BitMap.and_mask_ne_zero {bitIndex : Nat} (h : bitIndex < 8) (byte : UInt8) :
    byte &&& mask bitIndex ≠ 0 ↔ Core.Committee.isSigner byte bitIndex = true := by
  have hmask : (mask bitIndex).toNat = 2 ^ (7 - bitIndex) := by
    interval_cases bitIndex <;> rfl
  rw [ne_eq, ← UInt8.toNat_inj, UInt8.toNat_and, hmask, Nat.and_two_pow, UInt8.toNat_zero,
    Core.Committee.isSigner]
  cases byte.toNat.testBit (7 - bitIndex) <;> simp

theorem BitMap.zipIdx_flatMap (bytes : Bytes) (start : Nat) :
    ((bytes.zipIdx start).flatMap fun (byte, byteIndex) =>
      (List.range 8).filterMap fun bitIndex =>
        if byte &&& mask bitIndex ≠ 0 then some (byteIndex * 8 + bitIndex) else none) =
      setBits Core.Committee.isSigner 8 (start * 8) bytes := by
  induction bytes generalizing start with
  | nil => rfl
  | cons byte bytes ih =>
      rw [List.zipIdx_cons, List.flatMap_cons, ih, setBits_cons, Nat.add_mul, Nat.one_mul]
      congr 1
      rw [← List.filterMap_eq_filter, List.map_filterMap]
      refine List.filterMap_congr fun bitIndex hbit => ?_
      have hiff := and_mask_ne_zero (List.mem_range.mp hbit) byte
      cases hs : Core.Committee.isSigner byte bitIndex with
      | true => simp [hiff.mpr hs, hs, Option.guard]
      | false => simp [not_not.mp (mt hiff.mp (by simp [hs])), hs, Option.guard]

theorem BitMap.iter_eq (bytes : Bytes) :
    (BitMap.mk bytes).iter = Core.Committee.signerIndices bytes := by
  have h := zipIdx_flatMap bytes 0
  rwa [Nat.zero_mul] at h

namespace CommitteeSignature

variable {c : Core.Committee} {s : Core.CommitteeSignature}

theorem members_fromMove :
    (fromMove s).members (Committee.fromMove c) =
      (c.signersOf s.signersBitmap).map CommitteeMember.fromMove := by
  simp only [members, fromMove, BitMap.iter_eq, Committee.fromMove, Committee.withConfig,
    Core.Committee.signersOf, select, List.map_filterMap, List.getElem?_map]

theorem weight_fromMove :
    (((fromMove s).members (Committee.fromMove c)).map CommitteeMember.weight).sum =
      weightSum (c.signersOf s.signersBitmap) := by
  rw [members_fromMove, List.map_map]
  rfl

theorem verifyCommittee_eq_ok {u : Unit} :
    (fromMove s).verifyCommittee (Committee.fromMove c) = .ok u ↔
      s.epoch = c.epoch ∧
        ∀ i ∈ Core.Committee.signerIndices s.signersBitmap, i < c.nMembers := by
  have hsize : (Committee.fromMove c).size = c.nMembers := List.length_map _
  have hepoch : (Committee.fromMove c).epoch = c.epoch := rfl
  simp only [verifyCommittee, fromMove, BitMap.iter_eq, hsize, hepoch]
  split_ifs with h
  · simp only [List.any_eq_true, decide_eq_true_eq] at h
    simp only [false_iff, not_and]
    rintro hs hall
    rcases h with hne | ⟨i, hi, hle⟩
    · exact hne hs.symm
    · exact absurd (hall i hi) (Nat.not_lt.mpr hle)
  · simp only [not_or, not_not, List.any_eq_true, decide_eq_true_eq, not_exists, not_and,
      Nat.not_le] at h
    exact iff_of_true rfl ⟨h.1.symm, h.2⟩

end CommitteeSignature

/-! ## Agreement -/

def aggregateVerify (crypto : Crypto) : AggregateVerify :=
  fun signature keys message => crypto.minPkVerify signature (crypto.g1Sum keys) message

section Agreement

variable {T : Type} {crypto : Crypto} {toBytes : T → Bytes} {c : Core.Committee}
  {hashiId : Address} {intent : Nat} {message : T} {s : Core.CommitteeSignature}

theorem totalWeight_fromMove (c : Core.Committee) :
    (Committee.fromMove c).totalWeight = c.totalWeight := by
  have hsum : (((c.members.map CommitteeMember.fromMove).map CommitteeMember.weight).sum) =
      c.totalWeight := by
    rw [c.total_eq, List.map_map]
    rfl
  simp only [Committee.fromMove, Committee.withConfig, hsum]
  exact wrapU64_of_lt c.total_lt

theorem CommitteeSignature.weight_eq_ok {weight : Nat} :
    (fromMove s).weight (Committee.fromMove c) = .ok weight ↔
      (s.epoch = c.epoch ∧
        ∀ i ∈ Core.Committee.signerIndices s.signersBitmap, i < c.nMembers) ∧
      weightSum (c.signersOf s.signersBitmap) = weight := by
  have hfits := Nat.lt_of_le_of_lt (c.weightSum_signersOf_le s.signersBitmap) c.total_lt
  simp only [CommitteeSignature.weight, bind_eq_ok, pure_eq_ok, verifyCommittee_eq_ok,
    weight_fromMove, wrapU64_of_lt hfits, exists_const]

theorem Committee.verifySignatureAndWeight_eq_ok {requiredWeight : Nat} {u : Unit} :
    (Committee.fromMove c).verifySignatureAndWeight (aggregateVerify crypto) intent toBytes
        hashiId ⟨.fromMove s, message⟩ requiredWeight = .ok u ↔
      (s.epoch = c.epoch ∧
        ∀ i ∈ Core.Committee.signerIndices s.signersBitmap, i < c.nMembers) ∧
      requiredWeight ≤ weightSum (c.signersOf s.signersBitmap) ∧
      crypto.minPkVerify s.signature
        (crypto.g1Sum ((c.signersOf s.signersBitmap).map Core.CommitteeMember.publicKey))
        (Core.Committee.signingPreimage hashiId intent s.epoch (toBytes message)) = true := by
  have hkeys : ((CommitteeSignature.fromMove s).members (Committee.fromMove c)).map
      CommitteeMember.publicKey =
      (c.signersOf s.signersBitmap).map Core.CommitteeMember.publicKey := by
    rw [CommitteeSignature.members_fromMove, List.map_map]
    rfl
  have hbytes : signingMessage intent hashiId s.epoch (toBytes message) =
      Core.Committee.signingPreimage hashiId intent s.epoch (toBytes message) := by
    simp [signingMessage, Core.Committee.signingPreimage]
  simp only [verifySignatureAndWeight, verifySignatureAnyWeight, bind_eq_ok,
    CommitteeSignature.weight_eq_ok, CommitteeSignature.verifyCommittee_eq_ok, require_eq_ok,
    hkeys, aggregateVerify]
  constructor
  · rintro ⟨_, ⟨hcommittee, rfl⟩, _, hweight, _, _, hverify⟩
    exact ⟨hcommittee, hweight, hbytes ▸ hverify⟩
  · rintro ⟨hcommittee, hweight, hverify⟩
    exact ⟨_, ⟨hcommittee, rfl⟩, (), hweight, (), hcommittee, hbytes ▸ hverify⟩

end Agreement

/-- The chain accepts a certificate exactly when the node does and the bitmap is no longer than
the committee needs. The signers, their order and their weight are then the same. -/
theorem certificate_accepted_iff {T : Type} (crypto : Crypto) (toBytes : T → Bytes)
    (c : Core.Committee)
    (htotal : c.totalWeight * Threshold.CERTIFICATE_THRESHOLD_BPS < U64_SIZE)
    (hashiId : Address) (intent : Nat) (message : T) (signature : Core.CommitteeSignature) :
    ((∃ threshold, Threshold.certificateThreshold c.totalWeight = .ok threshold ∧
        c.Certifies crypto toBytes hashiId intent threshold message signature) ↔
      (Committee.fromMove c).verifySignatureAndWeight (aggregateVerify crypto) intent toBytes
        hashiId ⟨.fromMove signature, message⟩
        (certificateThreshold (Committee.fromMove c).totalWeight) = .ok () ∧
      signature.signersBitmap.length ≤ divideAndRoundUp c.nMembers 8) ∧
    ∀ threshold certified, Threshold.certificateThreshold c.totalWeight = .ok threshold →
      c.verifyCertificate crypto toBytes hashiId intent message signature threshold =
        .ok certified →
      ∃ signers : List Core.CommitteeMember,
        signature.signersBitmap.foldlM c.visitByte (⟨0, []⟩, 0) =
          .ok (⟨weightSum signers, signers.map Core.CommitteeMember.publicKey⟩,
            8 * signature.signersBitmap.length) ∧
        (CommitteeSignature.fromMove signature).members (Committee.fromMove c) =
          signers.map CommitteeMember.fromMove ∧
        (CommitteeSignature.fromMove signature).weight (Committee.fromMove c) =
          .ok (weightSum signers) ∧
        certified.stakeSupport = weightSum signers := by
  have hthreshold : certificateThreshold (Committee.fromMove c).totalWeight =
      divideAndRoundUp (c.totalWeight * Threshold.CERTIFICATE_THRESHOLD_BPS)
        Threshold.MAX_BPS := by
    simp only [certificateThreshold, totalWeight_fromMove]
    rw [show CERTIFICATE_THRESHOLD_BPS = Threshold.CERTIFICATE_THRESHOLD_BPS from rfl,
      wrapU64_of_lt htotal]
    rfl
  constructor
  · rw [Committee.verifySignatureAndWeight_eq_ok, hthreshold]
    constructor
    · rintro ⟨threshold, ht, certified, hok⟩
      obtain ⟨_, rfl⟩ := Threshold.certificateThreshold_eq_ok.mp ht
      obtain ⟨hepoch, hlen, hrange, hweight, hverify, _⟩ :=
        Core.Committee.verifyCertificate_eq_ok.mp hok
      exact ⟨⟨⟨hepoch, hrange⟩, hweight, hverify⟩, hlen⟩
    · rintro ⟨⟨⟨hepoch, hrange⟩, hweight, hverify⟩, hlen⟩
      exact ⟨_, Threshold.certificateThreshold_eq_ok.mpr ⟨htotal, rfl⟩, _,
        Core.Committee.verifyCertificate_eq_ok.mpr
          ⟨hepoch, hlen, hrange, hweight, hverify, rfl⟩⟩
  · intro threshold certified _ hok
    obtain ⟨hepoch, _, hrange, _, _, rfl⟩ := Core.Committee.verifyCertificate_eq_ok.mp hok
    refine ⟨c.signersOf signature.signersBitmap, ?_, CommitteeSignature.members_fromMove,
      CommitteeSignature.weight_eq_ok.mpr ⟨⟨hepoch, hrange⟩, rfl⟩, rfl⟩
    refine (Core.Committee.visitByte_loop _ (by decide)).mpr ⟨?_, (Nat.zero_add _).symm⟩
    exact (Core.Committee.walk_signerIndices _).mpr ⟨hrange, rfl⟩

theorem certificate_accepted_iff_of_four :
    ∃ threshold, Threshold.certificateThreshold Core.Committee.fourMembers.totalWeight =
        .ok threshold ∧
      Core.Committee.fourMembers.Certifies Core.Committee.signsOnes Core.Committee.bcsBool 7 0
        threshold true ⟨0, [], [224]⟩ := by
  have htotal : Core.Committee.fourMembers.totalWeight * Threshold.CERTIFICATE_THRESHOLD_BPS <
      U64_SIZE := by decide +kernel
  refine (certificate_accepted_iff _ _ Core.Committee.fourMembers htotal 7 0 true _).1.mpr
    ⟨?_, by decide⟩
  decide +kernel

/-- A zero byte after a bitmap that both accept: the node still accepts, the chain does not. -/
theorem zero_padded_bitmap_splits_verifiers :
    (Committee.fromMove Core.Committee.fourMembers).verifySignatureAndWeight
        (aggregateVerify Core.Committee.signsOnes) 0 Core.Committee.bcsBool 7
        ⟨.fromMove ⟨0, [], [224, 0]⟩, true⟩
        (certificateThreshold (Committee.fromMove Core.Committee.fourMembers).totalWeight) =
          .ok () ∧
      Threshold.certificateThreshold Core.Committee.fourMembers.totalWeight = .ok 3 ∧
      Core.Committee.fourMembers.verifyCertificate Core.Committee.signsOnes
        Core.Committee.bcsBool 7 0 true ⟨0, [], [224, 0]⟩ 3 = .error .invalidBitmap := by
  decide +kernel

end HashiBridge.Node
