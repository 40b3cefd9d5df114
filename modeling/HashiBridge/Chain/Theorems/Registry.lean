import HashiBridge.Chain.Lemmas.RegistrySteps

/-!
# The member registry over time

Committee members stay registered, the TLS index stays the inverse of the registered keys, a mark
stays until governance takes it away, and a committee is formed from eligible members.
-/

namespace HashiBridge.Chain

open Lib HashiBridge.Core Btc

variable {env : Env} {activated : List Nat} {start w w' : World} {label : Label}
  {tr : List Label} {validator : Address}

theorem registryInv_run (hinv : w.Inv env activated) (h : RegistryInv w.registry)
    (hrun : Run (Step env) w tr w') : RegistryInv w'.registry := by
  induction hrun with
  | nil => exact h
  | snoc hrun hstep ih =>
      obtain ⟨op, hop, -⟩ := hstep.registry (hinv.run hrun)
      exact ih.step hop

/-! ## Marks and formations -/

theorem marked_run (hinv : w.Inv env activated) (h : w.registry.Marked validator)
    (hrun : Run (Step env) w tr w') : w'.registry.Marked validator ∨
      Occurs (Step env) w tr w' fun a label _ => label.Marks a validator false := by
  refine Run.kept_or_occurs (Q := fun w => w.registry.Marked validator) h ?_ hrun
  intro tr a label b hpre hstep hmarked
  obtain ⟨op, hop, hmarks, -⟩ := hstep.registry (hinv.run hpre)
  exact (hop.marked hmarked).imp_right (hmarks validator false)

/-- The step forms the committee from registered members that are neither ignored nor resigned. -/
def FormsFrom (e : Nat) (c : Committee) (a : World) (label : Label) (b : World) : Prop :=
  label.starts = true ∧ e ∉ a.hashi.committeeSet.committees ∧
    b.hashi.committeeSet.committees.lookup e = some c ∧
    ∀ seat ∈ c.members, ∃ m, a.hashi.committeeSet.members.lookup seat.validatorAddress = some m ∧
      m.ignored = false ∧ m.resigned = false

theorem Step.formsFrom (hinv : w.Inv env activated) (hstep : Step env w label w') {e : Nat}
    {c : Committee} (hnew : w.hashi.committeeSet.committees.lookup e ≠ some c)
    (hc : w'.hashi.committeeSet.committees.lookup e = some c) : FormsFrom e c w label w' := by
  obtain ⟨op, hop, -, hstarts⟩ := hstep.registry hinv
  obtain ⟨rfl, rfl, hseats⟩ := hop.formed hnew hc
  refine ⟨hstarts c rfl, ?_, hc, hseats⟩
  -- the committee is new under its epoch
  obtain ⟨r, hr⟩ : ∃ r, w.registry.Step (.form c) r := ⟨_, hop⟩
  cases hr with
  | form hnone habsent hseats => exact habsent

theorem formed_run (hinv : start.Inv env activated)
    (hempty : start.hashi.committeeSet.committees = ∅) (hrun : Run (Step env) start tr w) {e : Nat}
    {c : Committee} (hc : w.hashi.committeeSet.committees.lookup e = some c) :
    Occurs (Step env) start tr w (FormsFrom e c) := by
  have hnone : start.hashi.committeeSet.committees.lookup e ≠ some c := by
    rw [hempty]
    nofun
  refine (Run.kept_or_occurs (Q := fun w => w.hashi.committeeSet.committees.lookup e ≠ some c) hnone
    ?_ hrun).resolve_left (not_not.mpr hc)
  intro tr a label b hpre hstep hnew
  by_cases hb : b.hashi.committeeSet.committees.lookup e = some c
  · exact .inr (hstep.formsFrom (hinv.run hpre) hnew hb)
  · exact .inl hb

/-! ## Soundness -/

structure RegistrySound (set : CommitteeSet) : Prop where
  current : ∀ {c}, set.committees.lookup set.epoch = some c → ∀ seat ∈ c.members,
    seat.validatorAddress ∈ set.members
  pending : ∀ {e c}, set.pendingEpoch = some e → set.committees.lookup e = some c →
    ∀ seat ∈ c.members, seat.validatorAddress ∈ set.members
  index : ∀ key v, set.tlsPublicKeys.lookup key = some v ↔
    key ≠ [] ∧ ∃ m, set.members.lookup v = some m ∧ m.tlsPublicKey = key
  distinct : ∀ {v v' m m'}, set.members.lookup v = some m → set.members.lookup v' = some m' →
    m.tlsPublicKey ≠ [] → m.tlsPublicKey = m'.tlsPublicKey → v = v'
  /-- a TLS write fails only on an unknown member, a malformed key or another member's key -/
  write : ∀ v key, (set.writeTlsPublicKey v key).isOk = true ↔ v ∈ set.members ∧
    key.length = 32 ∧ ∀ {v' m}, set.members.lookup v' = some m → m.tlsPublicKey = key → v' = v
  remove : ∀ v, v ∈ set.members → (set.removeMember v).isOk = true
  removeInactive : ∀ v active, (set.removeInactiveMember v active).isOk = true ↔
    set.inCurrentOrPendingCommittee v = false ∧ ∃ m, set.members.lookup v = some m ∧
      m.ignored = false ∧ (m.resigned = true ∨ active = false)

theorem RegistrySound.of_inv {set : CommitteeSet} (h : RegistryInv set.registry) :
    RegistrySound set where
  current hc seat hseat := h.current ⟨_, hc, Committee.hasMember_of_mem hseat⟩
  pending he hc seat hseat := h.pending he ⟨_, hc, Committee.hasMember_of_mem hseat⟩
  index key v := by
    rw [show set.tlsPublicKeys.lookup key = some v ↔ _ from h.index key v]
    simp only [MemberInfo.tlsKey_eq_some]
    constructor
    · rintro ⟨m, hm, hne, hkey⟩
      exact ⟨hne, m, hm, hkey⟩
    · rintro ⟨hne, m, hm, hkey⟩
      exact ⟨m, hm, hne, hkey⟩
  distinct hm hm' hne hsame := h.index.owner_unique hm hm'
    (MemberInfo.tlsKey_eq_some.mpr ⟨hne, rfl⟩) (MemberInfo.tlsKey_eq_some.mpr ⟨hne, hsame.symm⟩)
  write v key := CommitteeSet.writeTlsPublicKey_isOk h
  remove v hmem := CommitteeSet.removeMember_isOk h hmem
  removeInactive v active := CommitteeSet.removeInactiveMember_isOk h

/-- In every reachable world the registry is sound; a member that is marked as ignored is registered
with the mark at any later time, unless a proposal that clears it was executed in between; and
every committee, present or about to appear, is formed from registered members that are neither
ignored nor resigned at that step. -/
theorem registry_sound {id₀ epoch clock : Nat}
    (hrun : Run (Step env) (publish id₀ epoch clock) tr w) :
    RegistrySound w.hashi.committeeSet ∧
    (∀ {validator tr' later}, w.registry.Marked validator → Run (Step env) w tr' later →
      later.registry.Marked validator ∨
        Occurs (Step env) w tr' later fun a label _ => label.Marks a validator false) ∧
    (∀ {e c}, w.hashi.committeeSet.committees.lookup e = some c →
      Occurs (Step env) (publish id₀ epoch clock) tr w (FormsFrom e c)) ∧
    ∀ {label w' e c}, Step env w label w' →
      w.hashi.committeeSet.committees.lookup e ≠ some c →
      w'.hashi.committeeSet.committees.lookup e = some c → FormsFrom e c w label w' := by
  have hstart : (publish id₀ epoch clock).Inv env [] := World.Inv.init id₀ epoch clock
  have hinv := World.Inv.reachable hrun
  have hregistry := registryInv_run hstart RegistryInv.init hrun
  refine ⟨.of_inv hregistry, ?_, ?_, ?_⟩
  · intro validator tr' later hmarked hlater
    exact marked_run hinv hmarked hlater
  · intro e c hc
    exact formed_run hstart rfl hrun hc
  · intro label w' e c hstep hnew hc
    exact hstep.formsFrom hinv hnew hc

namespace Sample

/-- Validator 10 sets its TLS key, and governance marks it as ignored. -/
def ignoreFirst : List Label := [
  call 1010 (.registry (.updateTlsPublicKey 10 (List.replicate 32 4) [])),
  call 1011 (.governance (.propose 10 (.ignoreMember 10 true) VecMap.empty)),
  call 1012 (.governance (.execute .ignoreMember 1011 0))]

end Sample

/-- The mark of the ignored validator of the sample deployment outlives a change of its endpoint. -/
theorem registry_sound_of_ignored : ∃ w later,
    Run (Step Sample.env) (publish 99 0 0) (Sample.launch ++ Sample.ignoreFirst) w ∧
    Run (Step Sample.env) w [Sample.call 1013 (.registry (.updateEndpointUrl 10 "url"))] later ∧
    RegistrySound w.hashi.committeeSet ∧ w.registry.Marked 10 ∧
    (later.registry.Marked 10 ∨ Occurs (Step Sample.env) w
      [Sample.call 1013 (.registry (.updateEndpointUrl 10 "url"))] later
      fun a label _ => label.Marks a 10 false) := by
  obtain ⟨w, hrun, htest⟩ := run_of_reaches Sample.env (publish 99 0 0)
    (Sample.launch ++ Sample.ignoreFirst)
    (fun w => (w.hashi.committeeSet.members.lookup 10).any (·.ignored) &&
      (exec Sample.env w (Sample.call 1013 (.registry (.updateEndpointUrl 10 "url")))).isOk)
    (by decide +kernel)
  rw [Bool.and_eq_true, Option.any_eq_true] at htest
  obtain ⟨⟨m, hm, hignored⟩, hok⟩ := htest
  obtain ⟨later, hstep⟩ := exists_of_isOk hok
  have hmarked : w.registry.Marked 10 := ⟨m, hm, hignored⟩
  exact ⟨w, later, hrun, .single hstep, (registry_sound hrun).1, hmarked,
    (registry_sound hrun).2.1 hmarked (.single hstep)⟩

end HashiBridge.Chain
