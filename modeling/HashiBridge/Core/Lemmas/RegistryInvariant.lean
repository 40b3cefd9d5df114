import HashiBridge.Core.Registry

/-!
# The member registry invariant

Committee members are registered, and the TLS index inverts the registered keys.
-/

namespace HashiBridge.Core

open Lib

variable {r r' : Registry} {op : RegistryOp} {validator : Address}

theorem Committee.hasMember_of_mem {c : Committee} {seat : CommitteeMember} (h : seat ∈ c.members) :
    c.hasMember seat.validatorAddress = true := by
  rw [Committee.hasMember, Committee.findMember, List.find?_isSome]
  exact ⟨seat, h, decide_eq_true rfl⟩

theorem Committee.exists_seat {c : Committee} (h : c.hasMember validator = true) :
    ∃ seat ∈ c.members, seat.validatorAddress = validator := by
  rw [Committee.hasMember, Committee.findMember, List.find?_isSome] at h
  simpa using h

theorem MemberInfo.tlsKey_eq_some {m : MemberInfo} {key : Bytes} :
    m.tlsKey = some key ↔ key ≠ [] ∧ m.tlsPublicKey = key := by
  unfold MemberInfo.tlsKey
  split_ifs with hnil
  · simp only [false_iff, not_and]
    rintro hne rfl
    exact hne hnil
  · rw [Option.some_inj]
    exact ⟨fun h => ⟨h ▸ hnil, h⟩, And.right⟩

structure RegistryInv (r : Registry) : Prop where
  current : ∀ {v}, r.Serves r.epoch v → v ∈ r.members
  pending : ∀ {e v}, r.pending = some e → r.Serves e v → v ∈ r.members
  index : Inverts MemberInfo.tlsKey r.tlsPublicKeys r.members

namespace RegistryInv

theorem init : RegistryInv CommitteeSet.create.registry := by
  refine ⟨?_, ?_, Inverts.empty _⟩
  · rintro v ⟨c, hc, -⟩
    cases hc
  · intro e v he
    cases he

theorem grow (h : RegistryInv r) {members : Bag Address MemberInfo} {keys : Bag Bytes Address}
    (hsub : ∀ v, v ∈ r.members → v ∈ members) (hindex : Inverts MemberInfo.tlsKey keys members) :
    RegistryInv { r with members, tlsPublicKeys := keys } :=
  ⟨fun hv => hsub _ (h.current hv), fun he hv => hsub _ (h.pending he hv), hindex⟩

theorem insert (h : RegistryInv r) {m : MemberInfo} {keys : Bag Bytes Address}
    (hindex : Inverts MemberInfo.tlsKey keys (r.members.insert validator m)) :
    RegistryInv { r with members := r.members.insert validator m, tlsPublicKeys := keys } :=
  h.grow (fun _ hv => Finmap.mem_insert.mpr (.inr hv)) hindex

theorem step (h : RegistryInv r) (hstep : r.Step op r') : RegistryInv r' := by
  cases hstep with
  | keep => exact h
  | register hnew hkey => exact h.insert (h.index.insert_unkeyed hnew hkey)
  | @update validator m m' hm hkey =>
      exact h.insert (h.index.update hm (by simp only [MemberInfo.tlsKey, hkey]))
  | mark hm => exact h.insert (h.index.update hm rfl)
  | writeTlsKey hm hne hfree => exact h.insert (h.index.rekey hm (if_neg hne) hfree)
  | @remove validator m hm _ hcurrent hpending =>
      -- a member on either committee is not the one that goes
      refine ⟨fun {v} hv => ?_, fun {e v} he hv => ?_, h.index.erase hm⟩
      · rw [Finmap.mem_erase]
        refine ⟨?_, h.current hv⟩
        rintro rfl
        exact hcurrent hv
      · rw [Finmap.mem_erase]
        refine ⟨?_, h.pending he hv⟩
        rintro rfl
        exact hpending e he hv
  | @form committee hnone hnew hseats =>
      have hnamed : ∀ {v}, committee.hasMember v = true → v ∈ r.members := by
        intro v hv
        obtain ⟨seat, hseat, rfl⟩ := Committee.exists_seat hv
        obtain ⟨m, hm, -⟩ := hseats seat hseat
        exact Bag.mem_of_lookup hm
      refine ⟨?_, ?_, h.index⟩
      · rintro v ⟨c, hc, hv⟩
        rcases Bag.lookup_of_insert hc with ⟨-, rfl⟩ | hc
        exacts [hnamed hv, h.current ⟨c, hc, hv⟩]
      · rintro e v he ⟨c, hc, hv⟩
        cases he
        rw [Finmap.lookup_insert] at hc
        cases hc
        exact hnamed hv
  | activate hpending =>
      refine ⟨fun hv => h.pending hpending hv, fun he => ?_, h.index⟩
      cases he
  | abandon hpending =>
      refine ⟨?_, fun he => ?_, h.index⟩
      · rintro v ⟨c, hc, hv⟩
        exact h.current ⟨c, Bag.lookup_of_erase hc, hv⟩
      · cases he

end RegistryInv

/-! ## Marks -/

theorem Registry.Step.marked (hstep : r.Step op r') (h : r.Marked validator) :
    r'.Marked validator ∨ op = .mark validator false := by
  obtain ⟨m, hm, hignored⟩ := h
  -- a row that changes under the same mark, or another row
  have hinsert : ∀ {v m'} {s : Registry}, s.members = r.members.insert v m' →
      (v = validator → m'.ignored = true) → s.Marked validator := by
    intro v m' s hs hsame
    by_cases hv : v = validator
    · subst hv
      exact ⟨m', by rw [hs, Finmap.lookup_insert], hsame rfl⟩
    · exact ⟨m, by rw [hs, Finmap.lookup_insert_of_ne _ (Ne.symm hv), hm], hignored⟩
  cases hstep with
  | keep | form | activate | abandon => exact .inl ⟨m, hm, hignored⟩
  | register hnew =>
      refine .inl (hinsert rfl fun hv => ?_)
      subst hv
      exact absurd (Bag.mem_of_lookup hm) hnew
  | update hm' _ hmark =>
      refine .inl (hinsert rfl fun hv => ?_)
      subst hv
      rw [hm, Option.some.injEq] at hm'
      rw [hmark, ← hm', hignored]
  | @mark v m' ignored hm' =>
      by_cases hv : v = validator ∧ ignored = false
      · obtain ⟨rfl, rfl⟩ := hv
        exact .inr rfl
      · exact .inl (hinsert rfl fun hv' => by simpa [hv'] using hv)
  | writeTlsKey hm' =>
      refine .inl (hinsert rfl fun hv => ?_)
      subst hv
      rw [hm, Option.some.injEq] at hm'
      rw [← hm', hignored]
  | @remove v m' hm' hunmarked =>
      have hne : validator ≠ v := by
        rintro rfl
        rw [hm, Option.some.injEq] at hm'
        rw [← hm', hignored] at hunmarked
        cases hunmarked
      exact .inl ⟨m, by rw [Finmap.lookup_erase_ne hne, hm], hignored⟩

/-- A committee that a step brings in has eligible members only. -/
theorem Registry.Step.formed (hstep : r.Step op r') {e : Nat} {c : Committee}
    (hnew : r.committees.lookup e ≠ some c) (hc : r'.committees.lookup e = some c) :
    op = .form c ∧ c.epoch = e ∧ ∀ seat ∈ c.members, ∃ m,
      r.members.lookup seat.validatorAddress = some m ∧ m.Eligible := by
  cases hstep with
  | form hnone habsent hseats =>
      rcases Bag.lookup_of_insert hc with ⟨he, rfl⟩ | hc
      exacts [⟨rfl, he.symm, hseats⟩, absurd hc hnew]
  | abandon => exact absurd (Bag.lookup_of_erase hc) hnew
  | _ => exact absurd hc hnew

/-! ## No abort on the index -/

namespace CommitteeSet

variable {set set' : CommitteeSet} {m : MemberInfo}

theorem dropTlsKey_eq_ok {keys keys' : Bag Bytes Address} :
    dropTlsKey keys m.tlsPublicKey = .ok keys' ↔
      (∀ k ∈ m.tlsKey, k ∈ keys) ∧ unindex keys m.tlsKey = keys' := by
  unfold dropTlsKey MemberInfo.tlsKey
  split_ifs with hkey
  · simp [unindex]
  · simp only [map_eq_ok, Bag.remove_eq_ok, Finmap.mem_iff, unindex]
    constructor
    · rintro ⟨⟨owner, _⟩, ⟨hfound, rfl⟩, rfl⟩
      exact ⟨fun k hk => ⟨owner, by rw [← Option.some_inj.mp hk, hfound]⟩, rfl⟩
    · rintro ⟨hmem, rfl⟩
      obtain ⟨owner, hfound⟩ := hmem m.tlsPublicKey rfl
      exact ⟨⟨owner, _⟩, ⟨hfound, rfl⟩, rfl⟩

theorem writeTlsPublicKey_isOk (h : RegistryInv set.registry) {key : Bytes} :
    (set.writeTlsPublicKey validator key).isOk = true ↔ validator ∈ set.members ∧
      key.length = 32 ∧ ∀ {v m}, set.members.lookup v = some m → m.tlsPublicKey = key →
        v = validator := by
  have hfree (hlen : key.length = 32) :
      (key ∉ set.tlsPublicKeys ∨ set.tlsPublicKeys.lookup key = some validator) ↔
        ∀ {v m}, set.members.lookup v = some m → m.tlsPublicKey = key → v = validator := by
    have hne : key ≠ [] := by
      rintro rfl
      cases hlen
    constructor
    · intro hfree v m hm hmk
      have hfound := (h.index key v).mpr ⟨m, hm, MemberInfo.tlsKey_eq_some.mpr ⟨hne, hmk⟩⟩
      refine hfree.elim (fun hnone => absurd (Bag.mem_of_lookup hfound) hnone) fun hown => ?_
      exact Option.some_inj.mp (hfound.symm.trans hown)
    · intro howner
      cases hfound : set.tlsPublicKeys.lookup key with
      | none => exact .inl (Bag.notMem_iff.mpr hfound)
      | some v =>
          obtain ⟨m, hm, hmk⟩ := (h.index key v).mp hfound
          rw [howner hm (MemberInfo.tlsKey_eq_some.mp hmk).2]
          exact .inr rfl
  constructor
  · intro hok
    obtain ⟨set', hset⟩ := exists_of_isOk hok
    simp only [writeTlsPublicKey, member, bind_eq_ok, require_eq_ok, Bag.borrow_eq_ok] at hset
    obtain ⟨_, hlen, _, hkey, m, hm, -⟩ := hset
    exact ⟨Bag.mem_of_lookup hm, hlen, (hfree hlen).mp hkey⟩
  · rintro ⟨hmem, hlen, howner⟩
    obtain ⟨m, hm⟩ := Finmap.mem_iff.mp hmem
    have hkey := (hfree hlen).mpr howner
    have hdrop : dropTlsKey set.tlsPublicKeys m.tlsPublicKey =
        .ok (unindex set.tlsPublicKeys m.tlsKey) :=
      dropTlsKey_eq_ok.mpr ⟨fun k hk => h.index.key_mem hm hk, rfl⟩
    have hadd : (unindex set.tlsPublicKeys m.tlsKey).add Abort.fieldAlreadyExists key validator =
        .ok _ := Bag.add_eq_ok.mpr ⟨h.index.notMem_unindex hm hkey, rfl⟩
    have hborrow : set.member validator = .ok m := Bag.borrow_eq_ok.mpr hm
    simp only [writeTlsPublicKey, require_pos hlen, require_pos hkey, hborrow, hdrop, hadd, bind,
      Except.bind]
    rfl

theorem removeMember_isOk (h : RegistryInv set.registry) (hmem : validator ∈ set.members) :
    (set.removeMember validator).isOk = true := by
  obtain ⟨m, hm⟩ := Finmap.mem_iff.mp hmem
  have hremove : set.members.remove Abort.fieldDoesNotExist validator =
      .ok (m, set.members.erase validator) := Bag.remove_eq_ok.mpr ⟨hm, rfl⟩
  have hdrop : dropTlsKey set.tlsPublicKeys m.tlsPublicKey =
      .ok (unindex set.tlsPublicKeys m.tlsKey) :=
    dropTlsKey_eq_ok.mpr ⟨fun k hk => h.index.key_mem hm hk, rfl⟩
  simp only [removeMember, hremove, hdrop, bind, Except.bind]
  rfl

theorem removeInactiveMember_isOk (h : RegistryInv set.registry) {active : Bool} :
    (set.removeInactiveMember validator active).isOk = true ↔
      set.inCurrentOrPendingCommittee validator = false ∧
      ∃ m, set.members.lookup validator = some m ∧ m.ignored = false ∧
        (m.resigned = true ∨ active = false) := by
  constructor
  · intro hok
    obtain ⟨set', hset⟩ := exists_of_isOk hok
    simp only [removeInactiveMember, member, bind_eq_ok, require_eq_ok, Bag.borrow_eq_ok] at hset
    obtain ⟨_, -, _, hidle, m, hm, _, hunmarked, _, hgone, -⟩ := hset
    exact ⟨hidle, m, hm, hunmarked, hgone⟩
  · rintro ⟨hidle, m, hm, hunmarked, hgone⟩
    have hmem : set.hasMember validator := Bag.mem_of_lookup hm
    have hborrow : set.member validator = .ok m := Bag.borrow_eq_ok.mpr hm
    obtain ⟨removed, hremoved⟩ := exists_of_isOk (removeMember_isOk h hmem)
    simp only [removeInactiveMember, require_pos hmem, require_pos hidle, hborrow,
      require_pos hunmarked, require_pos hgone, hremoved, bind, Except.bind]
    rfl

end CommitteeSet

end HashiBridge.Core
