import HashiBridge.Lib.Checked

/-!
# Insertion-ordered maps

A map kept as a vector of entries with pairwise distinct keys. The distinctness is a field, so
every operation that returns a map returns a well-formed one.
-/

namespace HashiBridge.Lib

universe u

structure VecMap (K V : Type u) where
  contents : List (K × V)
  nodup : (contents.map Prod.fst).Nodup
deriving DecidableEq

namespace VecMap

variable {ε K V : Type u}

def empty : VecMap K V := ⟨[], List.nodup_nil⟩

def keys (m : VecMap K V) : List K := m.contents.map Prod.fst

variable [DecidableEq K]

def tryGet (m : VecMap K V) (k : K) : Option V :=
  (m.contents.find? fun p => p.1 = k).map Prod.snd

def contains (m : VecMap K V) (k : K) : Bool := (m.tryGet k).isSome

def get (e : ε) (m : VecMap K V) (k : K) : Except ε V := orAbort (m.tryGet k) e

def erase (m : VecMap K V) (k : K) : VecMap K V where
  contents := m.contents.filter fun p => p.1 ≠ k
  nodup := m.nodup.sublist (List.Sublist.map _ List.filter_sublist)

theorem notMem_keys_erase (m : VecMap K V) (k : K) : k ∉ (m.erase k).contents.map Prod.fst := by
  simp [erase]

/-- Drop the entry under `k`, if there is one, and append the new entry. -/
def upsert (m : VecMap K V) (k : K) (v : V) : VecMap K V where
  contents := (m.erase k).contents ++ [(k, v)]
  nodup := by
    rw [List.map_append, List.nodup_append']
    refine ⟨(m.erase k).nodup, List.nodup_singleton k, ?_⟩
    rintro _ hk (_ | ⟨_, ⟨⟩⟩)
    exact m.notMem_keys_erase k hk

theorem find?_filter_ne {l : List (K × V)} {k k' : K} (h : k' ≠ k) :
    (l.filter fun p => p.1 ≠ k).find? (fun p => p.1 = k') = l.find? fun p => p.1 = k' := by
  induction l with
  | nil => rfl
  | cons p l ih =>
      by_cases hp : p.1 = k
      · have hk : p.1 ≠ k' := fun hk => h (hk.symm.trans hp)
        simpa [hp, h.symm] using ih
      · by_cases hk : p.1 = k' <;> simp_all

theorem tryGet_erase_self (m : VecMap K V) (k : K) : (m.erase k).tryGet k = none := by
  simp [tryGet, erase]

theorem tryGet_upsert (m : VecMap K V) (k k' : K) (v : V) :
    (m.upsert k v).tryGet k' = if k' = k then some v else m.tryGet k' := by
  split_ifs with h
  · subst h
    have hnone := m.tryGet_erase_self k'
    simp only [tryGet, Option.map_eq_none_iff] at hnone
    simp [tryGet, upsert, List.find?_append, hnone]
  · have hfind := find?_filter_ne (l := m.contents) h
    simp only [tryGet, upsert, erase, List.find?_append]
    rw [hfind]
    simp [Ne.symm h]

theorem contents_upsert {m : VecMap K V} {k : K} (h : m.contains k = false) (v : V) :
    (m.upsert k v).contents = m.contents ++ [(k, v)] := by
  have hne : ∀ p ∈ m.contents, p.1 ≠ k := by simpa [contains, tryGet] using h
  simp only [upsert, erase]
  rw [List.filter_eq_self.mpr fun p hp => by simpa using hne p hp]

end VecMap

end HashiBridge.Lib
