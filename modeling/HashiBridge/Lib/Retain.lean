import HashiBridge.Lib.Bag

/-!
# Keeping part of a bag
-/

namespace HashiBridge.Lib.Bag

universe u v

variable {K : Type u} {V : Type v}

def retain (keep : K → V → Bool) (b : Bag K V) : Bag K V where
  entries := b.entries.filter fun entry => keep entry.1 entry.2
  nodupKeys := by
    rw [← Multiset.nodup_keys]
    exact Multiset.nodup_of_le (Multiset.map_le_map (Multiset.filter_le _ _)) b.nodupKeys.nodup_keys

theorem lookup_retain [DecidableEq K] (keep : K → V → Bool) (b : Bag K V) (k : K) :
    (b.retain keep).lookup k = (b.lookup k).filter (keep k) := by
  ext v
  rw [Option.filter_eq_some_iff, ← Option.mem_def, ← Option.mem_def, Finmap.mem_lookup_iff,
    Finmap.mem_lookup_iff, retain, Multiset.mem_filter]

end HashiBridge.Lib.Bag
