import HashiBridge.Guardian.SecretSharing

/-!
# Any threshold of shares gives the key back, and fewer say nothing

A share is a point of the splitting polynomial, so a reconstruction is the interpolation at zero of
a polynomial of degree below the threshold.
-/

namespace HashiBridge.Guardian

open Lib Polynomial

variable {F : Type} [Field F] {sk sk' : SecretKey F} {params : SecretSharingParams}
  {random : Nat → F} {shares shares' : List (Share F)} {t : Nat}

/-! ## Splitting -/

theorem evalPoly_eq (pos : ShareId) (coefficients : List F) :
    evalPoly pos coefficients = (ofCoefficients coefficients).eval (toScalar pos) := by
  rw [evalPoly, foldl_powerStep]
  ring

noncomputable def splitPolynomial (sk : SecretKey F) (t : Nat) (random : Nat → F) : F[X] :=
  ofCoefficients (sk.scalar :: (List.range (t - 1)).map random)

theorem splitPolynomial_zero : (splitPolynomial sk t random).eval 0 = sk.scalar := by
  simp [splitPolynomial, ofCoefficients_cons]

theorem degree_splitPolynomial_lt (ht : 1 ≤ t) : (splitPolynomial sk t random).degree < t := by
  have h := degree_ofCoefficients_lt (sk.scalar :: (List.range (t - 1)).map random)
  rwa [List.length_cons, List.length_map, List.length_range, Nat.sub_add_cancel ht] at h

theorem ShareId.create_eq_ok {i : Nat} {id : ShareId} (h : ShareId.create i = .ok id) :
    id.val.toNat = i % 2 ^ 16 := by
  unfold ShareId.create at h
  split_ifs at h
  cases h
  exact UInt16.toNat_ofNat'

theorem ShareId.create_succeeds {i : Nat} (h : 1 ≤ i) (hi : i ≤ MAX_NUM_SHARES) :
    ∃ id, ShareId.create i = .ok id := by
  have hlt : i < 2 ^ 16 := by
    unfold MAX_NUM_SHARES at hi
    omega
  have hne : UInt16.ofNat i ≠ 0 := by
    intro hzero
    have hval : (UInt16.ofNat i).toNat = (0 : UInt16).toNat := congrArg UInt16.toNat hzero
    rw [UInt16.toNat_ofNat', Nat.mod_eq_of_lt hlt, UInt16.toNat_zero] at hval
    omega
  exact ⟨⟨_, hne⟩, dif_pos hne⟩

theorem splitSecret_share (h : splitSecret sk params random = .ok shares) {share : Share F}
    (hshare : share ∈ shares) : share.id.val.toNat ≤ params.numShares ∧
      share.value = (splitPolynomial sk params.threshold random).eval (toScalar share.id) := by
  rw [splitSecret, mapM_eq_ok] at h
  obtain ⟨i, hi, hrow⟩ := exists_of_forall₂ h.flip hshare
  simp only [bind_eq_ok, pure_eq_ok] at hrow
  obtain ⟨id, hid, rfl⟩ := hrow
  have hle := (List.mem_range'_1.mp hi).2
  refine ⟨?_, evalPoly_eq id _⟩
  rw [ShareId.create_eq_ok hid]
  have hmod := Nat.mod_le i (2 ^ 16)
  omega

theorem splitSecret_succeeds (h : params.numShares ≤ MAX_NUM_SHARES) :
    ∃ shares, splitSecret sk params random = .ok shares ∧ shares.length = params.numShares := by
  have hrows : ∀ i ∈ List.range' 1 params.numShares, ∃ share, (do
      let id ← ShareId.create i
      return Share.mk id (evalPoly id (sk.scalar :: (List.range (params.threshold - 1)).map random))) =
        (.ok share : Except SharingError (Share F)) ∧ True := by
    intro i hi
    have hi := List.mem_range'_1.mp hi
    obtain ⟨id, hid⟩ := ShareId.create_succeeds hi.1 (by omega)
    exact ⟨_, bind_eq_ok.mpr ⟨id, hid, rfl⟩, trivial⟩
  obtain ⟨shares, hshares, hall⟩ := mapM_succeeds (R := fun _ _ => True) hrows
  exact ⟨shares, hshares, by rw [← hall.length_eq, List.length_range']⟩

/-! ## Distinct scalars -/

section Order

variable (order : Nat) [CharP F order]

theorem toScalar_injOn {a b : ShareId} (ha : a.val.toNat < order) (hb : b.val.toNat < order)
    (h : (toScalar a : F) = toScalar b) : a = b := by
  have hval : a.val.toNat = b.val.toNat := CharP.natCast_injOn_Iio F order ha hb h
  obtain ⟨a, ha⟩ := a
  obtain ⟨b, hb⟩ := b
  rw [ShareId.mk.injEq]
  exact UInt16.toNat_inj.mp hval

theorem toScalar_ne_zero {a : ShareId} (ha : a.val.toNat < order) : (toScalar a : F) ≠ 0 := by
  intro hzero
  have hval : a.val.toNat = 0 :=
    CharP.natCast_injOn_Iio F order ha (Nat.zero_lt_of_lt ha) (hzero.trans Nat.cast_zero.symm)
  exact a.ne_zero (UInt16.toNat_inj.mp hval)

theorem nodup_scalars {ids : List ShareId} (hids : ids.Nodup)
    (hlt : ∀ id ∈ ids, id.val.toNat < order) : (ids.map (toScalar (F := F))).Nodup := by
  refine hids.map_on fun a ha b hb h => ?_
  exact toScalar_injOn order (hlt a ha) (hlt b hb) h

end Order

/-! ## Reconstruction -/

omit [Field F] in
theorem seeShare_loop (seen : Finset ShareId) (hnodup : (shares.map Share.id).Nodup)
    (hnew : ∀ share ∈ shares, share.id ∉ seen) :
    shares.foldlM seeShare seen = .ok ((shares.map Share.id).toFinset ∪ seen) := by
  induction shares generalizing seen with
  | nil => simp [pure_eq_ok]
  | cons share shares ih =>
      rw [List.map_cons, List.nodup_cons] at hnodup
      refine foldlM_cons_eq_ok.mpr ⟨_, if_neg (hnew share List.mem_cons_self), ?_⟩
      rw [ih _ hnodup.2, List.map_cons, List.toFinset_cons, Finset.insert_union,
        Finset.union_insert]
      intro other hother hmem
      rcases Finset.mem_insert.mp hmem with heq | hseen
      · exact hnodup.1 (heq ▸ List.mem_map_of_mem hother)
      · exact hnew other (List.mem_cons_of_mem _ hother) hseen

omit [Field F] in
theorem seeShare_loop_repeated (seen : Finset ShareId)
    (h : ¬ ((shares.map Share.id).Nodup ∧ ∀ share ∈ shares, share.id ∉ seen)) :
    shares.foldlM seeShare seen = .error (.rejected (.invalidInputs "Duplicate share ID")) := by
  induction shares generalizing seen with
  | nil => simp at h
  | cons share shares ih =>
      rw [List.foldlM_cons]
      by_cases hseen : share.id ∈ seen
      · rw [seeShare, if_pos hseen]
        rfl
      · rw [seeShare, if_neg hseen]
        refine ih _ fun ⟨hnodup, hnew⟩ => h ⟨?_, ?_⟩
        · rw [List.map_cons, List.nodup_cons]
          refine ⟨fun hmem => ?_, hnodup⟩
          obtain ⟨other, hother, heq⟩ := List.mem_map.mp hmem
          exact hnew other hother (heq ▸ Finset.mem_insert_self _ _)
        · refine List.forall_mem_cons.mpr ⟨hseen, fun other hother hmem => ?_⟩
          exact hnew other hother (Finset.mem_insert_of_mem hmem)

variable [DecidableEq F]

theorem addShare_loop (ids : List F) (acc : F) : shares.foldlM (addShare ids) acc =
    .ok (acc + (shares.map fun share => share.value *
      (numeratorAt ids (toScalar share.id) * (denominatorAt ids (toScalar share.id))⁻¹)).sum) := by
  induction shares generalizing acc with
  | nil => simp [pure_eq_ok]
  | cons share shares ih =>
      refine foldlM_cons_eq_ok.mpr ⟨_, if_neg (denominatorAt_ne_zero ids (toScalar share.id)), ?_⟩
      rw [ih, List.map_cons, List.sum_cons, add_assoc]

theorem combineShares_of_points {p : F[X]} (hp : p.eval 0 = sk.scalar)
    (hpoints : ∀ share ∈ shares, share.value = p.eval (toScalar share.id))
    (hscalars : (shares.map fun share => (toScalar share.id : F)).Nodup) (ht : t ≤ shares.length)
    (hdegree : p.degree < shares.length) : combineShares shares t = .ok sk := by
  have hids : (shares.map Share.id).Nodup := by
    refine List.Nodup.of_map (toScalar (F := F)) ?_
    rwa [List.map_map]
  have hcard : ((shares.map Share.id).toFinset ∪ ∅).card = shares.length := by
    rw [Finset.union_empty, List.toFinset_card_of_nodup hids, List.length_map]
  have hsum : (shares.map fun share => share.value *
      (numeratorAt (shares.map fun share => toScalar share.id) (toScalar share.id) *
        (denominatorAt (shares.map fun share => toScalar share.id) (toScalar share.id))⁻¹)).sum =
      sk.scalar := by
    rw [← hp, ← sum_weights_eq_eval_zero p _ hscalars (by rwa [List.length_map]), List.map_map]
    congr 1
    refine List.map_congr_left fun share hshare => ?_
    rw [hpoints share hshare]
    rfl
  simp only [combineShares, bind_eq_ok, require_eq_ok]
  refine ⟨_, seeShare_loop ∅ hids (by simp), (), hcard ▸ ht, sk.scalar, ?_, ?_⟩
  · rw [addShare_loop, hsum, zero_add]
  · rw [dif_pos sk.ne_zero]

theorem combineShares_rejects (h : ¬ (shares.map Share.id).Nodup ∨ shares.length < t) :
    ∃ message, combineShares shares t = .error (.rejected (.invalidInputs message)) := by
  unfold combineShares
  by_cases hnodup : (shares.map Share.id).Nodup
  · have hfew := h.resolve_left (not_not_intro hnodup)
    have hcard : ((shares.map Share.id).toFinset ∪ ∅).card = shares.length := by
      rw [Finset.union_empty, List.toFinset_card_of_nodup hnodup, List.length_map]
    have hshort : ¬ t ≤ ((shares.map Share.id).toFinset ∪ ∅).card := by omega
    rw [seeShare_loop ∅ hnodup (by simp)]
    simp only [bind, Except.bind, require, if_neg hshort]
    exact ⟨_, rfl⟩
  · rw [seeShare_loop_repeated ∅ fun hok => hnodup hok.1]
    exact ⟨_, rfl⟩

/-! ## The round trip -/

section RoundTrip

variable (order : Nat) [CharP F order]

theorem combineShares_split (ht : 1 ≤ params.threshold) (hn : params.numShares < order)
    (hsplit : splitSecret sk params random = .ok shares) {chosen : List (Share F)}
    (hchosen : chosen ⊆ shares) (hids : (chosen.map Share.id).Nodup)
    (hlength : params.threshold ≤ chosen.length) :
    combineShares chosen params.threshold = .ok sk := by
  have hlt : ∀ id ∈ chosen.map Share.id, id.val.toNat < order := by
    intro id hid
    obtain ⟨share, hshare, rfl⟩ := List.mem_map.mp hid
    have hle := (splitSecret_share hsplit (hchosen hshare)).1
    omega
  have hscalars := nodup_scalars (F := F) order hids hlt
  rw [List.map_map] at hscalars
  have hdegree : (splitPolynomial sk params.threshold random).degree < params.threshold :=
    degree_splitPolynomial_lt ht
  exact combineShares_of_points splitPolynomial_zero
    (fun share hshare => (splitSecret_share hsplit (hchosen hshare)).2) hscalars hlength
    (hdegree.trans_le (by exact_mod_cast hlength))

theorem exists_consistent (ht : 1 ≤ t) {ids : List ShareId} (hids : ids.Nodup)
    (hlt : ∀ id ∈ ids, id.val.toNat < order) (hlength : ids.length = t - 1)
    (values : ShareId → F) (candidate : F) : ∃ coefficients : List F,
      coefficients.length = t ∧ coefficients.head? = some candidate ∧
        ∀ id ∈ ids, evalPoly id coefficients = values id := by
  have hzero : (0 : F) ∉ ids.map toScalar := by
    intro hmem
    obtain ⟨id, hid, heq⟩ := List.mem_map.mp hmem
    exact toScalar_ne_zero order (hlt id hid) heq
  -- the value wanted at a scalar is that of the id it comes from
  let wanted : F → F := fun x => ((ids.find? fun id => toScalar id = x).map values).getD 0
  have hwanted : ∀ id ∈ ids, wanted (toScalar id) = values id := by
    intro id hid
    have hsome : (ids.find? fun other => toScalar other = (toScalar id : F)).isSome := by
      rw [List.find?_isSome]
      exact ⟨id, hid, decide_eq_true rfl⟩
    obtain ⟨found, hfound⟩ := Option.isSome_iff_exists.mp hsome
    have heq := List.find?_some hfound
    rw [decide_eq_true_eq] at heq
    have hsame := toScalar_injOn order (hlt found (List.mem_of_find?_eq_some hfound)) (hlt id hid) heq
    simp only [wanted, hfound, Option.map_some, Option.getD_some, hsame]
  obtain ⟨p, hdegree, hsecret, hpoints⟩ :=
    exists_through (ids.map toScalar) (nodup_scalars order hids hlt) hzero wanted candidate
  rw [List.length_map, hlength, Nat.sub_add_cancel ht] at hdegree
  obtain ⟨coefficients, hcount, rfl⟩ := exists_ofCoefficients hdegree
  refine ⟨coefficients, hcount, ?_, fun id hid => ?_⟩
  · cases coefficients with
    | nil =>
        rw [List.length_nil] at hcount
        omega
    | cons c cs => simpa [ofCoefficients_cons] using hsecret
  · rw [evalPoly_eq, hpoints _ (List.mem_map_of_mem hid), hwanted id hid]

omit [Field F] order in
theorem SecretSharingParams.new_eq_ok {numShares threshold : Nat}
    (h : SecretSharingParams.new numShares threshold = .ok params) :
    2 ≤ params.threshold ∧ params.threshold ≤ params.numShares ∧ params.numShares ≤ MAX_NUM_SHARES := by
  simp only [SecretSharingParams.new, bind_eq_ok, require_eq_ok, pure_eq_ok] at h
  obtain ⟨_, hmin, _, hle, _, hmax, rfl⟩ := h
  exact ⟨hmin, hle, hmax⟩

theorem secretSharing_roundTrip (sk : SecretKey F) (params : SecretSharingParams) (random : Nat → F)
    (ht : 1 ≤ params.threshold) (hn : params.numShares < order) :
    (params.numShares ≤ MAX_NUM_SHARES →
      ∃ shares, splitSecret sk params random = .ok shares ∧ shares.length = params.numShares) ∧
    (∀ shares, splitSecret sk params random = .ok shares →
      (∀ chosen, chosen ⊆ shares → (chosen.map Share.id).Nodup →
        params.threshold ≤ chosen.length → combineShares chosen params.threshold = .ok sk) ∧
      ∀ chosen chosen' key key', chosen ⊆ shares → chosen' ⊆ shares →
        combineShares chosen params.threshold = .ok key →
        combineShares chosen' params.threshold = .ok key' → key = key') ∧
    (∀ list : List (Share F), ¬ (list.map Share.id).Nodup ∨ list.length < params.threshold →
      ∃ message, combineShares list params.threshold = .error (.rejected (.invalidInputs message))) ∧
    ∀ ids : List ShareId, ids.Nodup → (∀ id ∈ ids, id.val.toNat < order) →
      ids.length = params.threshold - 1 → ∀ (values : ShareId → F) (candidate : F),
        ∃ coefficients : List F, coefficients.length = params.threshold ∧
          coefficients.head? = some candidate ∧
          ∀ id ∈ ids, evalPoly id coefficients = values id := by
  refine ⟨splitSecret_succeeds, fun shares hsplit => ⟨fun chosen hchosen hids hlength =>
      combineShares_split order ht hn hsplit hchosen hids hlength, ?_⟩,
    fun list hlist => combineShares_rejects hlist,
    fun ids hids hlt hlength values candidate =>
      exists_consistent order ht hids hlt hlength values candidate⟩
  have honly : ∀ chosen key, chosen ⊆ shares →
      combineShares chosen params.threshold = .ok key → key = sk := by
    intro chosen key hchosen hkey
    by_cases hfit : (chosen.map Share.id).Nodup ∧ params.threshold ≤ chosen.length
    · rw [combineShares_split order ht hn hsplit hchosen hfit.1 hfit.2] at hkey
      exact (Except.ok.inj hkey).symm
    · have hunfit : ¬ (chosen.map Share.id).Nodup ∨ chosen.length < params.threshold := by
        rw [← not_le]
        exact not_and_or.mp hfit
      obtain ⟨message, hrejected⟩ := combineShares_rejects hunfit
      rw [hrejected] at hkey
      cases hkey
  intro chosen chosen' key key' hchosen hchosen' hkey hkey'
  rw [honly chosen key hchosen hkey, honly chosen' key' hchosen' hkey']

instance fact_prime_seven : Fact (Nat.Prime 7) := ⟨by norm_num⟩

/-- Three shares of the key 3 in the field with seven elements, with threshold two. -/
theorem secretSharing_roundTrip_seven :
    splitSecret (F := ZMod 7) ⟨3, by decide⟩ ⟨3, 2⟩ (fun _ => 2) =
      .ok [⟨⟨1, by decide⟩, 5⟩, ⟨⟨2, by decide⟩, 0⟩, ⟨⟨3, by decide⟩, 2⟩] ∧
    combineShares (F := ZMod 7) [⟨⟨3, by decide⟩, 2⟩, ⟨⟨1, by decide⟩, 5⟩] 2 =
      .ok ⟨3, by decide⟩ := by
  have hsplit : splitSecret (F := ZMod 7) ⟨3, by decide⟩ ⟨3, 2⟩ (fun _ => 2) =
      .ok [⟨⟨1, by decide⟩, 5⟩, ⟨⟨2, by decide⟩, 0⟩, ⟨⟨3, by decide⟩, 2⟩] := rfl
  obtain ⟨ht, -⟩ := SecretSharingParams.new_eq_ok (rfl : SecretSharingParams.new 3 2 = .ok ⟨3, 2⟩)
  have h := secretSharing_roundTrip 7 (F := ZMod 7) ⟨3, by decide⟩ ⟨3, 2⟩ (fun _ => 2)
    (Nat.le_of_succ_le ht) (by decide)
  exact ⟨hsplit, (h.2.1 _ hsplit).1 _ (by decide) (by decide) (by decide)⟩

end RoundTrip

end HashiBridge.Guardian
