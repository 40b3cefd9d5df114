import HashiBridge.Node.SignatureUnion

/-!
# The union of the members' signatures

A member contributes, for each requested input, the first signature of its stream that can be read.
-/

namespace HashiBridge.Node

open Lib

variable {S : Schnorr}

theorem card_keys_eq_iff {b : Bag Nat S.Signature} {expected : Finset Nat} (h : b.keys ⊆ expected) :
    b.keys.card = expected.card ↔ ∀ idx ∈ expected, idx ∈ b := by
  constructor
  · intro hcard idx hidx
    rw [← Finmap.mem_keys, Finset.eq_of_subset_of_card_le h hcard.ge]
    exact hidx
  · intro hall
    exact congrArg Finset.card (h.antisymm fun idx hidx => Finmap.mem_keys.mpr (hall idx hidx))

/-! ## One member -/

/-- An item for the input with 64 bytes that are a signature. -/
def WellFormed (S : Schnorr) (idx : Nat) (item : SignWithdrawalTransactionPartial)
    (sig : S.Signature) : Prop :=
  item.inputIndex = idx ∧ item.signature.length = 64 ∧ S.fromByteArray item.signature = .ok sig

/-- The first well-formed item for an input, before the stream ends or fails. -/
def FirstWellFormed (S : Schnorr) (idx : Nat)
    (stream : List (Except String SignWithdrawalTransactionPartial)) (sig : S.Signature) : Prop :=
  ∃ before item after, stream = List.map .ok before ++ .ok item :: after ∧ WellFormed S idx item sig ∧
    ∀ earlier ∈ before, ∀ sig, ¬ WellFormed S idx earlier sig

/-- The first item for an input that the collector reads. -/
def firstParsed (S : Schnorr) (idx : Nat) :
    List (Except String SignWithdrawalTransactionPartial) → Option S.Signature
  | [] => none
  | .error _ :: _ => none
  | .ok item :: stream =>
      if item.inputIndex = idx then
        (ExpectedSignatureCollector.parse idx item.signature).toOption.or (firstParsed S idx stream)
      else firstParsed S idx stream

theorem ExpectedSignatureCollector.parse_eq_ok {idx : Nat} {signature : List UInt8}
    {sig : S.Signature} : parse idx signature = .ok sig ↔
      signature.length = 64 ∧ S.fromByteArray signature = .ok sig := by
  unfold parse
  split_ifs with hlength
  · simp [hlength]
  · rw [ne_eq, not_not] at hlength
    cases S.fromByteArray signature <;> simp [hlength]

section First

variable {idx : Nat} {item : SignWithdrawalTransactionPartial} {sig : S.Signature}
  {stream : List (Except String SignWithdrawalTransactionPartial)}

theorem not_firstWellFormed_error {e : String} : ¬ FirstWellFormed S idx (.error e :: stream) sig := by
  rintro ⟨before, item, after, heq, -⟩
  cases before <;> cases heq

theorem firstWellFormed_cons : FirstWellFormed S idx (.ok item :: stream) sig ↔
    WellFormed S idx item sig ∨
      (∀ sig, ¬ WellFormed S idx item sig) ∧ FirstWellFormed S idx stream sig := by
  constructor
  · rintro ⟨before, first, after, heq, hfirst, hbefore⟩
    cases before with
    | nil =>
        cases heq
        exact .inl hfirst
    | cons other before =>
        cases heq
        exact .inr ⟨hbefore item List.mem_cons_self, before, first, after, rfl, hfirst,
          fun other hother => hbefore other (List.mem_cons_of_mem _ hother)⟩
  · rintro (hitem | ⟨hitem, before, first, after, rfl, hfirst, hbefore⟩)
    · exact ⟨[], item, stream, rfl, hitem, by simp⟩
    · refine ⟨item :: before, first, after, rfl, hfirst, fun earlier hearlier => ?_⟩
      rcases List.mem_cons.mp hearlier with rfl | hmem
      · exact hitem
      · exact hbefore earlier hmem

theorem firstParsed_eq_some : firstParsed S idx stream = some sig ↔ FirstWellFormed S idx stream sig := by
  induction stream with
  | nil => simp [firstParsed, FirstWellFormed]
  | cons head stream ih =>
      cases head with
      | error e => simp [firstParsed, not_firstWellFormed_error]
      | ok item =>
          have hwellFormed : ∀ sig, WellFormed S idx item sig ↔ item.inputIndex = idx ∧
              ExpectedSignatureCollector.parse idx item.signature = .ok sig := fun sig => by
            rw [ExpectedSignatureCollector.parse_eq_ok, WellFormed]
          rw [firstParsed, firstWellFormed_cons, ← ih]
          simp only [hwellFormed]
          by_cases heq : item.inputIndex = idx
          · cases ExpectedSignatureCollector.parse (S := S) idx item.signature <;>
              simp [heq, Except.toOption]
          · simp [heq]

end First

namespace ExpectedSignatureCollector

variable {self : ExpectedSignatureCollector S}

def Wanted (self : ExpectedSignatureCollector S) : Prop := self.collected.keys ⊆ self.expected

theorem Wanted.insert (h : self.Wanted) {idx : Nat} (hidx : idx ∈ self.expected) (sig : S.Signature) :
    Wanted { self with collected := self.collected.insert idx sig } := by
  intro k hk
  rcases Finmap.mem_insert.mp (Finmap.mem_keys.mp hk) with rfl | hold
  · exact hidx
  · exact h (Finmap.mem_keys.mpr hold)

theorem record_cases (self : ExpectedSignatureCollector S) (idx : Nat) (signature : List UInt8) :
    (idx ∉ self.expected ∧ self.record idx signature = .ok (.ignored, self)) ∨
    (idx ∈ self.expected ∧ (idx ∈ self.collected ∨ ∃ e, parse (S := S) idx signature = .error e) ∧
      ∃ e, self.record idx signature = .error e) ∨
    ∃ sig, idx ∈ self.expected ∧ idx ∉ self.collected ∧ parse idx signature = .ok sig ∧
      let after := { self with collected := self.collected.insert idx sig }
      self.record idx signature = .ok (if after.isComplete then .complete else .recorded, after) := by
  unfold record
  by_cases hexpected : idx ∈ self.expected
  · by_cases hheld : idx ∈ self.collected
    · exact .inr (.inl ⟨hexpected, .inl hheld, _, by simp [hexpected, hheld]; rfl⟩)
    · cases hparse : parse (S := S) idx signature with
      | error e =>
          exact .inr (.inl ⟨hexpected, .inr ⟨e, rfl⟩, e, by simp [hexpected, hheld]⟩)
      | ok sig =>
          exact .inr (.inr ⟨sig, hexpected, hheld, rfl, by simp [hexpected, hheld]⟩)
  · exact .inl ⟨hexpected, by simp [hexpected]; rfl⟩

theorem Wanted.lookup_eq_none (h : self.Wanted) {idx : Nat} (hidx : idx ∉ self.expected) :
    self.collected.lookup idx = none :=
  Bag.lookup_of_notMem fun hmem => hidx (h (Finmap.mem_keys.mpr hmem))

theorem Wanted.or_of_isComplete (h : self.Wanted) (hcomplete : self.isComplete) {idx : Nat}
    (hidx : idx ∈ self.expected) (more : Option S.Signature) :
    (self.collected.lookup idx).or more = self.collected.lookup idx := by
  obtain ⟨sig, hsig⟩ :=
    Finmap.mem_iff.mp ((card_keys_eq_iff h).mp (of_decide_eq_true hcomplete) idx hidx)
  rw [hsig]
  rfl

theorem lookup_readStream (h : self.Wanted)
    (stream : List (Except String SignWithdrawalTransactionPartial)) {idx : Nat}
    (hidx : idx ∈ self.expected) :
    (self.readStream stream).collected.lookup idx =
      (self.collected.lookup idx).or (firstParsed S idx stream) := by
  induction stream generalizing self with
  | nil => simp [readStream, firstParsed]
  | cons head stream ih =>
      cases head with
      | error e => simp [readStream, firstParsed]
      | ok item =>
          rw [readStream, firstParsed]
          rcases self.record_cases item.inputIndex item.signature with
            ⟨hother, hrecord⟩ | ⟨hin, hbad, e, hrecord⟩ | ⟨sig, hin, hnew, hparse, hrecord⟩
          · rw [hrecord]
            dsimp only
            rw [ih h hidx, if_neg fun heq : item.inputIndex = idx => hother (heq ▸ hidx)]
          · rw [hrecord]
            dsimp only
            rw [ih h hidx]
            split_ifs with heq
            · subst heq
              rcases hbad with hheld | ⟨e, hparse⟩
              · obtain ⟨old, hold⟩ := Finmap.mem_iff.mp hheld
                rw [hold, Option.some_or, Option.some_or]
              · rw [hparse]
                rfl
            · rfl
          · have hafter := h.insert hin sig
            -- what was there, with the item in front of the rest of the stream
            have hor : (self.collected.lookup idx).or (if item.inputIndex = idx then
                (parse idx item.signature).toOption.or (firstParsed S idx stream)
                else firstParsed S idx stream) =
                  ((self.collected.insert item.inputIndex sig).lookup idx).or
                    (firstParsed S idx stream) := by
              rw [Bag.lookup_insert_ite]
              by_cases heq : item.inputIndex = idx
              · subst heq
                rw [if_pos rfl, if_pos rfl, hparse, Bag.lookup_of_notMem hnew]
                rfl
              · rw [if_neg heq, if_neg (Ne.symm heq)]
            rw [hrecord, hor]
            by_cases hcomplete :
                isComplete { self with collected := self.collected.insert item.inputIndex sig }
            · rw [if_pos hcomplete]
              exact (hafter.or_of_isComplete hcomplete hidx _).symm
            · rw [if_neg hcomplete]
              exact ih hafter hidx

theorem readStream_wanted (h : self.Wanted)
    (stream : List (Except String SignWithdrawalTransactionPartial)) :
    (self.readStream stream).Wanted ∧ (self.readStream stream).expected = self.expected := by
  induction stream generalizing self with
  | nil => exact ⟨h, rfl⟩
  | cons head stream ih =>
      cases head with
      | error e => exact ⟨h, rfl⟩
      | ok item =>
          rw [readStream]
          rcases self.record_cases item.inputIndex item.signature with
            ⟨-, hrecord⟩ | ⟨-, -, e, hrecord⟩ | ⟨sig, hin, -, -, hrecord⟩
          · rw [hrecord]
            exact ih h
          · rw [hrecord]
            exact ih h
          · rw [hrecord]
            split_ifs
            · exact ⟨h.insert hin sig, rfl⟩
            · exact ih (h.insert hin sig)

end ExpectedSignatureCollector

theorem mem_collectMemberSignatures {expectedIndices : List Nat}
    {stream : List (Except String SignWithdrawalTransactionPartial)} {idx : Nat} {sig : S.Signature} :
    (idx, sig) ∈ collectMemberSignatures S stream expectedIndices ↔
      idx ∈ expectedIndices ∧ FirstWellFormed S idx stream sig := by
  have hnew : (ExpectedSignatureCollector.new (S := S) expectedIndices).Wanted :=
    Finset.empty_subset _
  have hwanted := ExpectedSignatureCollector.readStream_wanted hnew stream
  rw [collectMemberSignatures, ExpectedSignatureCollector.intoCollected, Iteration.mem_entries]
  by_cases hidx : idx ∈ expectedIndices
  · have hexpected : idx ∈ (ExpectedSignatureCollector.new (S := S) expectedIndices).expected :=
      List.mem_toFinset.mpr hidx
    rw [ExpectedSignatureCollector.lookup_readStream hnew stream hexpected, ← firstParsed_eq_some]
    simp [ExpectedSignatureCollector.new, hidx]
  · have hother : idx ∉ ((ExpectedSignatureCollector.new (S := S) expectedIndices).readStream
        stream).expected := by
      rw [hwanted.2]
      exact fun hmem => hidx (List.mem_toFinset.mp hmem)
    simp [hwanted.1.lookup_eq_none hother, hidx]

/-! ## Merging -/

/-- A merge of the `valid` candidates: entries stay, new ones are valid, and every input with a valid
candidate is covered. -/
structure Merged (valid : Nat → S.Signature → Prop) (before after : Bag Nat S.Signature) : Prop where
  keeps : ∀ idx sig, before.lookup idx = some sig → after.lookup idx = some sig
  sound : ∀ idx sig, after.lookup idx = some sig → before.lookup idx = some sig ∨ valid idx sig
  covers : ∀ idx sig, valid idx sig → idx ∈ after

namespace Merged

variable {valid valid' : Nat → S.Signature → Prop} {a b c : Bag Nat S.Signature}

theorem refl (h : ∀ idx sig, valid idx sig → idx ∈ a) : Merged valid a a :=
  ⟨fun _ _ => id, fun _ _ => .inl, h⟩

theorem mem (h : Merged valid a b) {idx : Nat} (hidx : idx ∈ a) : idx ∈ b := by
  obtain ⟨sig, hsig⟩ := Finmap.mem_iff.mp hidx
  exact Bag.mem_of_lookup (h.keeps idx sig hsig)

theorem trans (hab : Merged valid a b) (hbc : Merged valid' b c) :
    Merged (fun idx sig => valid idx sig ∨ valid' idx sig) a c where
  keeps idx sig hsig := hbc.keeps idx sig (hab.keeps idx sig hsig)
  sound idx sig hsig := by
    rcases hbc.sound idx sig hsig with hb | hvalid
    · exact (hab.sound idx sig hb).imp_right .inl
    · exact .inr (.inr hvalid)
  covers idx sig hvalid := by
    rcases hvalid with hfirst | hsecond
    · exact hbc.mem (hab.covers idx sig hfirst)
    · exact hbc.covers idx sig hsecond

theorem congr (h : Merged valid a b) (heq : ∀ idx sig, valid idx sig ↔ valid' idx sig) :
    Merged valid' a b where
  keeps := h.keeps
  sound idx sig hsig := (h.sound idx sig hsig).imp_right (heq idx sig).mp
  covers idx sig hvalid := h.covers idx sig ((heq idx sig).mpr hvalid)

end Merged

variable (expected : Finset Nat) (verify : Nat → S.Signature → Bool)

theorem merged_mergeCandidate (union : Bag Nat S.Signature) (candidate : Nat × S.Signature) :
    Merged (fun idx sig => idx ∈ expected ∧ (idx, sig) = candidate ∧ verify idx sig) union
      (mergeCandidate expected verify union candidate) := by
  unfold mergeCandidate
  split_ifs with hskip hverify
  · refine .refl ?_
    rintro idx sig ⟨hidx, rfl, -⟩
    exact hskip.resolve_left fun hother => hother hidx
  · rw [not_or, not_not] at hskip
    refine ⟨?_, ?_, ?_⟩
    · intro idx sig hsig
      have hne : idx ≠ candidate.1 := by
        rintro rfl
        exact hskip.2 (Bag.mem_of_lookup hsig)
      rwa [Finmap.lookup_insert_of_ne _ hne]
    · intro idx sig hsig
      rcases Bag.lookup_of_insert hsig with ⟨rfl, rfl⟩ | hsig
      exacts [.inr ⟨hskip.1, rfl, hverify⟩, .inl hsig]
    · rintro idx sig ⟨-, rfl, -⟩
      exact Finmap.mem_insert.mpr (.inl rfl)
  · refine .refl ?_
    rintro idx sig ⟨-, rfl, hvalid⟩
    exact absurd hvalid hverify

theorem merged_candidates (union : Bag Nat S.Signature) (candidates : List (Nat × S.Signature)) :
    Merged (fun idx sig => idx ∈ expected ∧ (idx, sig) ∈ candidates ∧ verify idx sig) union
      (mergeIntoUnion expected verify union candidates).1 := by
  unfold mergeIntoUnion
  dsimp only
  induction candidates generalizing union with
  | nil => exact .refl (by simp)
  | cons candidate candidates ih =>
      refine ((merged_mergeCandidate expected verify union candidate).trans (ih _)).congr ?_
      intro idx sig
      rw [List.mem_cons]
      tauto

variable {expected} {union : Bag Nat S.Signature} (h : union.keys ⊆ expected)

include h in
theorem keys_mergeIntoUnion_subset (candidates : List (Nat × S.Signature)) :
    (mergeIntoUnion expected verify union candidates).1.keys ⊆ expected := by
  intro idx hidx
  obtain ⟨sig, hsig⟩ := Finmap.mem_iff.mp (Finmap.mem_keys.mp hidx)
  rcases (merged_candidates expected verify union candidates).sound idx sig hsig with hold | hnew
  · exact h (Finmap.mem_keys.mpr (Bag.mem_of_lookup hold))
  · exact hnew.1

include h in
theorem mergeIntoUnion_complete (candidates : List (Nat × S.Signature)) :
    (mergeIntoUnion expected verify union candidates).2 = true ↔
      ∀ idx ∈ expected, idx ∈ (mergeIntoUnion expected verify union candidates).1 := by
  rw [← card_keys_eq_iff (keys_mergeIntoUnion_subset verify h candidates)]
  exact decide_eq_true_iff

def ValidAmong (expected : Finset Nat) (verify : Nat → S.Signature → Bool)
    (results : List (Except String (List (Nat × S.Signature)))) (idx : Nat) (sig : S.Signature) : Prop :=
  idx ∈ expected ∧ (∃ candidates, .ok candidates ∈ results ∧ (idx, sig) ∈ candidates) ∧
    verify idx sig

include h in
theorem merged_mergeResults (results : List (Except String (List (Nat × S.Signature)))) :
    Merged (ValidAmong expected verify results) union (mergeResults expected verify union results) := by
  induction results generalizing union with
  | nil => exact .refl (by simp [ValidAmong])
  | cons result results ih =>
      cases result with
      | error e =>
          rw [mergeResults]
          exact (ih h).congr fun idx sig => by simp [ValidAmong]
      | ok candidates =>
          have hmerged := merged_candidates expected verify union candidates
          have hsubset := keys_mergeIntoUnion_subset verify h candidates
          have hsplit : ∀ idx sig, ((idx ∈ expected ∧ (idx, sig) ∈ candidates ∧ verify idx sig) ∨
              ValidAmong expected verify results idx sig) ↔
                ValidAmong expected verify (.ok candidates :: results) idx sig := by
            intro idx sig
            simp only [ValidAmong, List.mem_cons, Except.ok.injEq, exists_or, or_and_right,
              exists_eq_left]
            tauto
          have hcomplete := mergeIntoUnion_complete verify h candidates
          rw [mergeResults]
          rcases hrun : mergeIntoUnion expected verify union candidates with ⟨after, complete⟩
          rw [hrun] at hmerged hsubset hcomplete
          cases complete with
          | true =>
              have hall := hcomplete.mp rfl
              refine (hmerged.trans (.refl ?_)).congr hsplit
              exact fun idx sig hvalid => hall idx hvalid.1
          | false => exact (hmerged.trans (ih hsubset)).congr hsplit

include h in
theorem mergeResults_append_keeps
    (earlier later : List (Except String (List (Nat × S.Signature)))) {idx : Nat} {sig : S.Signature}
    (hsig : (mergeResults expected verify union earlier).lookup idx = some sig) :
    (mergeResults expected verify union (earlier ++ later)).lookup idx = some sig := by
  induction earlier generalizing union with
  | nil => exact (merged_mergeResults verify h later).keeps idx sig hsig
  | cons result earlier ih =>
      cases result with
      | error e => exact ih h hsig
      | ok candidates =>
          have hsubset := keys_mergeIntoUnion_subset verify h candidates
          rw [mergeResults] at hsig
          rw [List.cons_append, mergeResults]
          rcases hrun : mergeIntoUnion expected verify union candidates with ⟨after, complete⟩
          rw [hrun] at hsig hsubset
          cases complete with
          | true => exact hsig
          | false => exact ih hsubset hsig

/-! ## All members -/

theorem keys_empty_subset : (∅ : Bag Nat S.Signature).keys ⊆ expected := Finset.empty_subset _

theorem merged_signatureUnion (env : VerifyEnv S) (expectedIndices : List Nat)
    (responses : List MemberResponse) :
    Merged (fun idx sig => idx ∈ expectedIndices ∧ (∃ stream, .ok stream ∈ responses ∧
      FirstWellFormed S idx stream sig) ∧ env.verifies expectedIndices idx sig) ∅
      (signatureUnion S env expectedIndices responses) := by
  refine (merged_mergeResults _ keys_empty_subset _).congr ?_
  intro idx sig
  have hcandidates : (∃ candidates, Except.ok candidates ∈ responses.map (fun response =>
      response.map fun stream => collectMemberSignatures S stream expectedIndices) ∧
        (idx, sig) ∈ candidates) ↔
      idx ∈ expectedIndices ∧ ∃ stream, .ok stream ∈ responses ∧
        FirstWellFormed S idx stream sig := by
    constructor
    · rintro ⟨candidates, hmem, hcandidate⟩
      obtain ⟨response, hresponse, hmap⟩ := List.mem_map.mp hmem
      cases response with
      | error e => cases hmap
      | ok stream =>
          obtain rfl := Except.ok.inj hmap
          obtain ⟨hidx, hfirst⟩ := mem_collectMemberSignatures.mp hcandidate
          exact ⟨hidx, stream, hresponse, hfirst⟩
    · rintro ⟨hidx, stream, hresponse, hfirst⟩
      exact ⟨_, List.mem_map.mpr ⟨_, hresponse, rfl⟩, mem_collectMemberSignatures.mpr ⟨hidx, hfirst⟩⟩
  rw [ValidAmong, hcandidates, List.mem_toFinset]
  tauto

/-- The union holds an input exactly when some member's first well-formed signature for it verifies,
every signature in it verifies, what it holds after some members is never changed by later ones, and
a merge reports completion exactly when every requested input is covered. -/
theorem signatureUnion_exact (env : VerifyEnv S) (expectedIndices : List Nat)
    (responses : List MemberResponse) :
    (∀ idx, idx ∈ signatureUnion S env expectedIndices responses ↔
      idx ∈ expectedIndices ∧ ∃ stream, .ok stream ∈ responses ∧
        ∃ sig, FirstWellFormed S idx stream sig ∧ env.verifies expectedIndices idx sig) ∧
    (∀ idx sig, (signatureUnion S env expectedIndices responses).lookup idx = some sig →
      env.verifies expectedIndices idx sig) ∧
    (∀ earlier later, responses = earlier ++ later → ∀ idx sig,
      (signatureUnion S env expectedIndices earlier).lookup idx = some sig →
        (signatureUnion S env expectedIndices responses).lookup idx = some sig) ∧
    (∀ earlier stream later, responses = earlier ++ .ok stream :: later →
      let (union, complete) := mergeIntoUnion expectedIndices.toFinset (env.verifies expectedIndices)
        (signatureUnion S env expectedIndices earlier) (collectMemberSignatures S stream expectedIndices)
      complete = true ↔ ∀ idx ∈ expectedIndices, idx ∈ union) ∧
    ∀ idx sig, (idx, sig) ∈ (collectWithdrawalTxSignatures S env expectedIndices responses).getD [] ↔
      (signatureUnion S env expectedIndices responses).lookup idx = some sig := by
  have hmerged := merged_signatureUnion env expectedIndices
  have hsound : ∀ responses idx sig,
      (signatureUnion S env expectedIndices responses).lookup idx = some sig →
        idx ∈ expectedIndices ∧ (∃ stream, .ok stream ∈ responses ∧
          FirstWellFormed S idx stream sig) ∧ env.verifies expectedIndices idx sig := by
    intro responses idx sig hsig
    exact ((hmerged responses).sound idx sig hsig).resolve_left (by simp)
  refine ⟨?_, ?_, ?_, ?_, ?_⟩
  · intro idx
    constructor
    · intro hmem
      obtain ⟨sig, hsig⟩ := Finmap.mem_iff.mp hmem
      obtain ⟨hidx, ⟨stream, hstream, hfirst⟩, hverifies⟩ := hsound responses idx sig hsig
      exact ⟨hidx, stream, hstream, sig, hfirst, hverifies⟩
    · rintro ⟨hidx, stream, hstream, sig, hfirst, hverifies⟩
      exact (hmerged responses).covers idx sig ⟨hidx, ⟨stream, hstream, hfirst⟩, hverifies⟩
  · exact fun idx sig hsig => (hsound responses idx sig hsig).2.2
  · rintro earlier later rfl idx sig hsig
    rw [signatureUnion, List.map_append]
    exact mergeResults_append_keeps _ keys_empty_subset _ _ hsig
  · rintro earlier stream later -
    have hsubset : (signatureUnion S env expectedIndices earlier).keys ⊆ expectedIndices.toFinset := by
      intro idx hidx
      obtain ⟨sig, hsig⟩ := Finmap.mem_iff.mp (Finmap.mem_keys.mp hidx)
      exact List.mem_toFinset.mpr (hsound earlier idx sig hsig).1
    have hcomplete := mergeIntoUnion_complete (env.verifies expectedIndices) hsubset
      (collectMemberSignatures S stream expectedIndices)
    simpa only [List.mem_toFinset] using hcomplete
  · intro idx sig
    unfold collectWithdrawalTxSignatures
    dsimp only
    split_ifs with hnone
    · have hno : idx ∉ signatureUnion S env expectedIndices responses := by
        rw [← Finmap.mem_keys, hnone]
        exact Finset.notMem_empty idx
      simp [Bag.lookup_of_notMem hno]
    · exact Iteration.mem_entries _

namespace Sample

/-- Bytes are read by their first one, and a signature is the message. -/
abbrev firstByte : Schnorr where
  Signature := UInt8
  PublicKey := Unit
  fromByteArray
    | 0 :: _ | [] => .error "malformed"
    | byte :: _ => .ok byte
  verify _ message sig := message = [sig]

def twoMessages : VerifyEnv firstByte := ⟨fun _ => .ok (), [[7], [8]]⟩

def item (idx : Nat) (byte : UInt8) (length : Nat) :
    Except String SignWithdrawalTransactionPartial :=
  .ok ⟨idx, List.replicate length byte⟩

/-- A failed call, a stream that fails after bad, unrequested and repeated items, and two members of
which the first sends a wrong signature. -/
def fourMembers : List MemberResponse :=
  [.error "unreachable",
    .ok [item 0 7 63, item 5 7 64, item 0 0 64, item 0 7 64, item 0 9 64, .error "reset", item 1 8 64],
    .ok [item 1 9 64, item 1 8 64], .ok [item 1 8 64]]

end Sample

open Sample in
theorem signatureUnion_exact_fourMembers :
    collectWithdrawalTxSignatures firstByte twoMessages [0, 1] fourMembers =
      some [(0, (7 : UInt8)), (1, (8 : UInt8))] ∧
    ∀ idx ∈ [0, 1], ∃ stream, .ok stream ∈ fourMembers ∧ ∃ sig,
      FirstWellFormed firstByte idx stream sig ∧ twoMessages.verifies [0, 1] idx sig := by
  have hlist : collectWithdrawalTxSignatures firstByte twoMessages [0, 1] fourMembers =
      some [(0, (7 : UInt8)), (1, (8 : UInt8))] := by decide +kernel
  refine ⟨hlist, fun idx hidx => ?_⟩
  obtain ⟨hmem, -, -, -, hreturned⟩ := signatureUnion_exact twoMessages [0, 1] fourMembers
  obtain ⟨sig, hsig⟩ : ∃ sig, (idx, sig) ∈
      (collectWithdrawalTxSignatures firstByte twoMessages [0, 1] fourMembers).getD [] := by
    rw [hlist]
    fin_cases hidx
    · exact ⟨(7 : UInt8), .head _⟩
    · exact ⟨(8 : UInt8), .tail _ (.head _)⟩
  exact ((hmem idx).mp (Bag.mem_of_lookup ((hreturned idx sig).mp hsig))).2

end HashiBridge.Node
