import HashiBridge.Core.Lemmas.Certificates

/-!
# Quorum intersection

A certificate needs two thirds of the weight, so any two share members of more than a third.
-/

namespace HashiBridge.Core

open Lib

theorem Threshold.certificateThreshold_eq_ok {totalWeight threshold : Nat} :
    Threshold.certificateThreshold totalWeight = .ok threshold ↔
      totalWeight * CERTIFICATE_THRESHOLD_BPS < U64_SIZE ∧
        threshold = divideAndRoundUp (totalWeight * CERTIFICATE_THRESHOLD_BPS) MAX_BPS := by
  simp only [certificateThreshold, weightThreshold, bind_eq_ok, require_eq_ok, pure_eq_ok, mul,
    mulU64_eq_ok]
  constructor
  · rintro ⟨_, _, _, ⟨hlt, rfl⟩, rfl⟩
    exact ⟨hlt, rfl⟩
  · rintro ⟨hlt, rfl⟩
    exact ⟨(), by decide, _, ⟨hlt, rfl⟩, rfl⟩

namespace Committee

def weightOf (self : Committee) (indices : Finset Nat) : Nat :=
  Lib.weightOf CommitteeMember.weight self.members indices

def commonSigners (bitmap₁ bitmap₂ : Bytes) : Finset Nat :=
  (signerIndices bitmap₁).toFinset ∩ (signerIndices bitmap₂).toFinset

variable {self : Committee}

theorem weightOf_signerIndices (bitmap : Bytes) :
    self.weightOf (signerIndices bitmap).toFinset = weightSum (self.signersOf bitmap) :=
  weightOf_toFinset (setBits_nodup 0 bitmap)

theorem weightSum_add_le (bitmap₁ bitmap₂ : Bytes) :
    weightSum (self.signersOf bitmap₁) + weightSum (self.signersOf bitmap₂) ≤
      self.totalWeight + self.weightOf (commonSigners bitmap₁ bitmap₂) := by
  rw [← weightOf_signerIndices, ← weightOf_signerIndices, self.total_eq]
  exact weight_add_le _ _

theorem totalWeight_pos (self : Committee) : 0 < self.totalWeight := by
  obtain ⟨m, hm⟩ := List.exists_mem_of_ne_nil _ self.members_ne
  have hle : m.weight ≤ weightSum self.members :=
    List.single_le_sum (fun _ _ => Nat.zero_le _) _ (List.mem_map_of_mem hm)
  have hpos := self.weight_pos m hm
  rw [self.total_eq]
  omega

theorem third_lt_common {threshold : Nat} {bitmap₁ bitmap₂ : Bytes}
    (ht : Threshold.certificateThreshold self.totalWeight = .ok threshold)
    (h₁ : threshold ≤ weightSum (self.signersOf bitmap₁))
    (h₂ : threshold ≤ weightSum (self.signersOf bitmap₂)) :
    self.totalWeight < 3 * self.weightOf (commonSigners bitmap₁ bitmap₂) ∧
      2 * threshold ≤ self.totalWeight + self.weightOf (commonSigners bitmap₁ bitmap₂) := by
  have hadd := self.weightSum_add_le bitmap₁ bitmap₂
  have hpos := self.totalWeight_pos
  obtain ⟨_, hthreshold⟩ := Threshold.certificateThreshold_eq_ok.mp ht
  have hround : self.totalWeight * 6667 ≤ 10000 * threshold :=
    (divideAndRoundUp_le_iff (by decide)).mp hthreshold.ge
  constructor <;> omega

def Certifies {T : Type} (self : Committee) (crypto : Crypto) (toBytes : T → Bytes)
    (hashiId : Address) (intent threshold : Nat) (message : T) (signature : CommitteeSignature) :
    Prop :=
  ∃ certified, self.verifyCertificate crypto toBytes hashiId intent message signature threshold =
    .ok certified

theorem Certifies.threshold_le {T : Type} {crypto : Crypto} {toBytes : T → Bytes}
    {hashiId : Address} {intent threshold : Nat} {message : T} {signature : CommitteeSignature}
    (h : self.Certifies crypto toBytes hashiId intent threshold message signature) :
    threshold ≤ weightSum (self.signersOf signature.signersBitmap) := by
  obtain ⟨_, hok⟩ := h
  obtain ⟨_, _, _, hweight, _⟩ := verifyCertificate_eq_ok.mp hok
  exact hweight

/-- Any two certificates of a committee have signers in common that weigh more than a third of
it. So conflicting messages are not both certified while the members who sign both weigh at most
a third, whatever signing means, as long as the signers of a certificate sign its message. -/
theorem quorums_intersect (crypto : Crypto) (c : Committee) {threshold : Nat}
    (ht : Threshold.certificateThreshold c.totalWeight = .ok threshold) :
    (∀ {T₁ T₂ : Type} (toBytes₁ : T₁ → Bytes) (toBytes₂ : T₂ → Bytes) (hashiId₁ hashiId₂ : Address)
        (intent₁ intent₂ : Nat) (message₁ : T₁) (message₂ : T₂)
        (signature₁ signature₂ : CommitteeSignature),
      c.Certifies crypto toBytes₁ hashiId₁ intent₁ threshold message₁ signature₁ →
      c.Certifies crypto toBytes₂ hashiId₂ intent₂ threshold message₂ signature₂ →
      let common := commonSigners signature₁.signersBitmap signature₂.signersBitmap
      c.totalWeight < 3 * c.weightOf common ∧
        2 * threshold ≤ c.totalWeight + c.weightOf common) ∧
    ∀ {T : Type} (toBytes : T → Bytes) (hashiId : Address) (intent : Nat)
        (conflict : T → T → Prop) (signs : Nat → T → Prop) (equivocators : Finset Nat),
      (∀ message signature, c.Certifies crypto toBytes hashiId intent threshold message signature →
        ∀ i ∈ signerIndices signature.signersBitmap, signs i message) →
      (∀ i message₁ message₂, conflict message₁ message₂ → signs i message₁ →
        signs i message₂ → i ∈ equivocators) →
      3 * c.weightOf equivocators ≤ c.totalWeight →
      ∀ message₁ message₂ signature₁ signature₂, conflict message₁ message₂ →
        c.Certifies crypto toBytes hashiId intent threshold message₁ signature₁ →
        ¬ c.Certifies crypto toBytes hashiId intent threshold message₂ signature₂ := by
  constructor
  · intro T₁ T₂ toBytes₁ toBytes₂ hashiId₁ hashiId₂ intent₁ intent₂ message₁ message₂ signature₁
      signature₂ h₁ h₂
    exact third_lt_common ht h₁.threshold_le h₂.threshold_le
  · intro T toBytes hashiId intent conflict signs equivocators hsigns hequivocators hthird
      message₁ message₂ signature₁ signature₂ hconflict h₁ h₂
    have hcommon := (third_lt_common ht h₁.threshold_le h₂.threshold_le).1
    have hsub : commonSigners signature₁.signersBitmap signature₂.signersBitmap ⊆
        equivocators := by
      intro i hi
      simp only [commonSigners, Finset.mem_inter, List.mem_toFinset] at hi
      exact hequivocators i message₁ message₂ hconflict (hsigns _ _ h₁ i hi.1)
        (hsigns _ _ h₂ i hi.2)
    have hmono : c.weightOf _ ≤ c.weightOf equivocators := weightOf_mono hsub
    omega

def fourMembers : Committee where
  epoch := 0
  members := (List.range 4).map fun i => ⟨i, [], [], 1, Config.empty⟩
  totalWeight := 4
  epochConfig := Config.empty
  members_ne := by decide
  weight_pos := by decide
  total_eq := by decide
  total_lt := by decide

def signsOnes : Crypto where
  minPkVerify _ _ message := message.getLast? = some 1
  g1Sum _ := []
  g1FromBytes _ := none
  g1Identity := []
  ed25519Verify _ _ _ := false

def bcsBool (b : Bool) : Bytes := [if b then 1 else 0]

theorem signsOnes_certifies {message : Bool} {signature : CommitteeSignature}
    (h : fourMembers.Certifies signsOnes bcsBool 7 0 3 message signature) : message = true := by
  obtain ⟨_, hok⟩ := h
  obtain ⟨_, _, _, _, hverify, _⟩ := verifyCertificate_eq_ok.mp hok
  cases message with
  | true => rfl
  | false => simp [signsOnes, signingPreimage, bcsBool] at hverify

theorem quorums_intersect_of_four :
    let certifies := fourMembers.Certifies signsOnes bcsBool 7 0 3
    certifies true ⟨0, [], [224]⟩ ∧ certifies true ⟨0, [], [112]⟩ ∧
      4 < 3 * fourMembers.weightOf (commonSigners [224] [112]) ∧
      ∀ signature, ¬ certifies false signature := by
  have ht : Threshold.certificateThreshold fourMembers.totalWeight = .ok 3 := by
    decide +kernel
  have hfirst : fourMembers.Certifies signsOnes bcsBool 7 0 3 true ⟨0, [], [224]⟩ :=
    exists_of_isOk (by decide +kernel)
  have hsecond : fourMembers.Certifies signsOnes bcsBool 7 0 3 true ⟨0, [], [112]⟩ :=
    exists_of_isOk (by decide +kernel)
  have hquorums := quorums_intersect signsOnes fourMembers ht
  refine ⟨hfirst, hsecond, (hquorums.1 _ _ _ _ _ _ _ _ _ _ hfirst hsecond).1, ?_⟩
  intro signature
  refine hquorums.2 bcsBool 7 0 (· ≠ ·) (fun _ message => message = true) ∅ ?_ ?_ (by decide)
    true false _ signature (by decide) hfirst
  · intro message signature h i _
    exact signsOnes_certifies h
  · rintro i message₁ message₂ hne rfl rfl
    exact absurd rfl hne

end Committee

end HashiBridge.Core
