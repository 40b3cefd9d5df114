import HashiBridge.Lib.Bag

/-!
# Indexes with many values for a key

A table from a key to the set of its values that drops a key with its last value. `Tidy` says that no
key is kept for nothing; then a key is present exactly when it has a value.
-/

namespace HashiBridge.Lib

variable {K V : Type} [DecidableEq K] [DecidableEq V]

namespace MultiIndex

omit [DecidableEq V] in
def members (index : Bag K (Finset V)) (k : K) : Finset V := (index.lookup k).getD ∅

def attach (index : Bag K (Finset V)) (k : K) (v : V) : Bag K (Finset V) :=
  index.insert k (insert v (members index k))

def detach (index : Bag K (Finset V)) (k : K) (v : V) : Bag K (Finset V) :=
  match index.lookup k with
  | none => index
  | some vs => if vs.erase v = ∅ then index.erase k else index.insert k (vs.erase v)

def Tidy (index : Bag K (Finset V)) : Prop := ∀ k, index.lookup k ≠ some ∅

variable {index : Bag K (Finset V)} {k k' : K} {v x : V}

theorem mem_attach :
    x ∈ members (attach index k v) k' ↔ (k' = k ∧ x = v) ∨ x ∈ members index k' := by
  rw [members, attach, Bag.lookup_insert_ite]
  split_ifs with hk
  · subst hk
    simp
  · simp [hk, members]

theorem mem_detach :
    x ∈ members (detach index k v) k' ↔ x ∈ members index k' ∧ ¬ (k' = k ∧ x = v) := by
  unfold detach
  cases hlookup : index.lookup k with
  | none =>
      -- the key has no value to take
      have hmembers : members index k = ∅ := by rw [members, hlookup]; rfl
      refine ⟨fun hx => ⟨hx, ?_⟩, And.left⟩
      rintro ⟨rfl, -⟩
      simp [hmembers] at hx
  | some vs =>
      have hmembers : members index k = vs := by rw [members, hlookup]; rfl
      -- either way the key is left with the other values
      have hvalues : ∀ index', (∀ k', members index' k' = if k' = k then vs.erase v
          else members index k') →
          (x ∈ members index' k' ↔ x ∈ members index k' ∧ ¬ (k' = k ∧ x = v)) := by
        intro index' h
        rw [h]
        split_ifs with hk
        · subst hk
          rw [hmembers, Finset.mem_erase]
          tauto
        · tauto
      dsimp only
      split_ifs with hempty
      · refine hvalues _ fun k' => ?_
        rw [members, Bag.lookup_erase_ite]
        split_ifs
        · exact hempty.symm
        · rfl
      · refine hvalues _ fun k' => ?_
        rw [members, Bag.lookup_insert_ite]
        split_ifs
        · rfl
        · rfl

namespace Tidy

omit [DecidableEq V] in
theorem empty : Tidy (∅ : Bag K (Finset V)) := by
  intro k
  simp

theorem attach (h : Tidy index) (k : K) (v : V) : Tidy (attach index k v) := by
  intro k'
  rw [MultiIndex.attach, Bag.lookup_insert_ite]
  split_ifs
  · simp
  · exact h k'

theorem detach (h : Tidy index) (k : K) (v : V) : Tidy (detach index k v) := by
  intro k'
  unfold MultiIndex.detach
  split
  · exact h k'
  · split_ifs with hrest
    · rw [Bag.lookup_erase_ite]
      split_ifs
      · simp
      · exact h k'
    · rw [Bag.lookup_insert_ite]
      split_ifs
      · simpa using hrest
      · exact h k'

omit [DecidableEq V] in
theorem mem_iff (h : Tidy index) : k ∈ index ↔ ∃ v, v ∈ members index k := by
  unfold members
  cases hlookup : index.lookup k with
  | none => simp [Bag.notMem_iff.mpr hlookup]
  | some vs =>
      have hvs : vs ≠ ∅ := fun hvs => h k (by rw [hlookup, hvs])
      have hmem : ∃ v, v ∈ vs := Finset.nonempty_iff_ne_empty.mpr hvs
      simpa [Bag.mem_of_lookup hlookup] using hmem

end Tidy

end MultiIndex

end HashiBridge.Lib
