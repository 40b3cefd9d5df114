import HashiBridge.Lib.Bag

/-!
# Reverse indexes

A table whose rows may carry a key, and an index from keys back to the rows.
-/

namespace HashiBridge.Lib

variable {A K V : Type} [DecidableEq A] [DecidableEq K]

/-- `index` maps a key to a row exactly where that row carries the key. -/
def Inverts (key : V → Option K) (index : Bag K A) (rows : Bag A V) : Prop :=
  ∀ k a, index.lookup k = some a ↔ ∃ v, rows.lookup a = some v ∧ key v = some k

def unindex (index : Bag K A) : Option K → Bag K A
  | none => index
  | some k => index.erase k

variable {key : V → Option K} {index : Bag K A} {rows : Bag A V} {a : A} {v v' : V} {k : K}

omit [DecidableEq A] in
theorem lookup_unindex (index : Bag K A) (old : Option K) (k : K) :
    (unindex index old).lookup k = if old = some k then none else index.lookup k := by
  cases old with
  | none => rfl
  | some k' =>
      rw [unindex, Bag.lookup_erase_ite]
      by_cases hk : k = k'
      · rw [if_pos hk, if_pos (by rw [hk])]
      · rw [if_neg hk, if_neg (by simpa using Ne.symm hk)]

namespace Inverts

theorem empty (key : V → Option K) : Inverts key (∅ : Bag K A) ∅ := by
  intro k a
  simp

variable (h : Inverts key index rows)

include h

theorem owner_unique {a' : A} (ha : rows.lookup a = some v)
    (ha' : rows.lookup a' = some v') (hk : key v = some k) (hk' : key v' = some k) : a = a' := by
  have howner := (h k a).mpr ⟨v, ha, hk⟩
  rw [(h k a').mpr ⟨v', ha', hk'⟩, Option.some.injEq] at howner
  exact howner.symm

theorem key_mem (ha : rows.lookup a = some v) (hk : key v = some k) :
    k ∈ index :=
  Bag.mem_of_lookup ((h k a).mpr ⟨v, ha, hk⟩)

theorem update (ha : rows.lookup a = some v) (hkey : key v' = key v) :
    Inverts key index (rows.insert a v') := by
  intro k b
  rw [h k b, Bag.lookup_insert_ite]
  split_ifs with hb
  · subst hb
    simp [ha, hkey]
  · rfl

theorem insert (ha : a ∉ rows) (hk : key v = some k) (hnew : k ∉ index) :
    Inverts key (index.insert k a) (rows.insert a v) := by
  intro k' b
  rw [Bag.lookup_insert_ite, Bag.lookup_insert_ite]
  by_cases hb : b = a
  · subst hb
    rw [if_pos rfl]
    split_ifs with hk'
    · simp [hk', hk]
    · have hnone : index.lookup k' ≠ some b := fun hfound => by
        obtain ⟨_, hrow, -⟩ := (h k' b).mp hfound
        exact ha (Bag.mem_of_lookup hrow)
      simpa [hk, hnone] using Ne.symm hk'
  · rw [if_neg hb]
    split_ifs with hk'
    · subst hk'
      have hnone : ¬ ∃ v, rows.lookup b = some v ∧ key v = some k' := fun hrow =>
        hnew (Bag.mem_of_lookup ((h k' b).mpr hrow))
      simpa [Ne.symm hb] using hnone
    · exact h k' b

theorem insert_unkeyed (ha : a ∉ rows) (hk : key v = none) :
    Inverts key index (rows.insert a v) := by
  intro k b
  rw [h k b, Bag.lookup_insert_ite]
  split_ifs with hb
  · subst hb
    simp [hk, Bag.lookup_of_notMem ha]
  · rfl

theorem erase (ha : rows.lookup a = some v) :
    Inverts key (unindex index (key v)) (rows.erase a) := by
  intro k b
  rw [lookup_unindex, Bag.lookup_erase_ite]
  split_ifs with hk hb hb
  · simp
  · -- the key's one owner is the row that goes
    have hnone : ¬ ∃ v, rows.lookup b = some v ∧ key v = some k := by
      rintro ⟨v', hb', hk'⟩
      exact hb (h.owner_unique hb' ha hk' hk)
    simpa using hnone
  · subst hb
    have hnone : index.lookup k ≠ some b := fun hfound => by
      obtain ⟨v', hrow, hk'⟩ := (h k b).mp hfound
      rw [ha, Option.some.injEq] at hrow
      subst hrow
      exact hk hk'
    simpa using hnone
  · exact h k b

theorem notMem_unindex (ha : rows.lookup a = some v)
    (hfree : k ∉ index ∨ index.lookup k = some a) : k ∉ unindex index (key v) := by
  rw [Bag.notMem_iff, lookup_unindex]
  split_ifs with hk
  · rfl
  · refine hfree.elim Bag.lookup_of_notMem fun hown => ?_
    obtain ⟨v', hrow, hk'⟩ := (h k a).mp hown
    rw [ha, Option.some.injEq] at hrow
    subst hrow
    exact absurd hk' hk

theorem rekey (ha : rows.lookup a = some v) (hk : key v' = some k)
    (hfree : k ∉ index ∨ index.lookup k = some a) :
    Inverts key ((unindex index (key v)).insert k a) (rows.insert a v') := by
  have hgone : a ∉ rows.erase a := by simp [Finmap.mem_erase]
  rw [← Bag.insert_erase_self (b := rows)]
  exact (h.erase ha).insert hgone hk (h.notMem_unindex ha hfree)

end Inverts

end HashiBridge.Lib
