import HashiBridge.Lib.Checked

/-!
# Keyed object bags

A bag maps a key to at most one value. Borrowing or removing a missing key aborts, and so does
adding a present one.
-/

namespace HashiBridge.Lib

universe u v

abbrev Bag (K : Type u) (V : Type v) := Finmap (fun _ : K => V)

namespace Bag

variable {ε K V : Type u} [DecidableEq K]

/-! ## Aborting accessors -/

def borrow (e : ε) (b : Bag K V) (k : K) : Except ε V := orAbort (b.lookup k) e

def add (e : ε) (b : Bag K V) (k : K) (v : V) : Except ε (Bag K V) :=
  if k ∈ b then .error e else .ok (b.insert k v)

def remove (e : ε) (b : Bag K V) (k : K) : Except ε (V × Bag K V) :=
  match b.lookup k with
  | some v => .ok (v, b.erase k)
  | none => .error e

variable {b : Bag K V} {k : K}

theorem borrow_eq_ok {e : ε} {v : V} :
    b.borrow e k = .ok v ↔ b.lookup k = some v := orAbort_eq_ok

theorem add_eq_ok {e : ε} {b b' : Bag K V} {v : V} :
    b.add e k v = .ok b' ↔ k ∉ b ∧ b.insert k v = b' := by
  unfold add
  split_ifs with h <;> simp [h]

theorem remove_eq_ok {e : ε} {p : V × Bag K V} :
    b.remove e k = .ok p ↔ b.lookup k = some p.1 ∧ b.erase k = p.2 := by
  unfold remove
  cases b.lookup k <;> simp [Prod.ext_iff]

/-! ## Pointwise contents -/

theorem mem_of_lookup {v : V} (h : b.lookup k = some v) :
    k ∈ b := Finmap.mem_iff.mpr ⟨v, h⟩

theorem lookup_of_notMem (h : k ∉ b) : b.lookup k = none :=
  Finmap.lookup_eq_none.mpr h

theorem notMem_iff : k ∉ b ↔ b.lookup k = none :=
  Finmap.lookup_eq_none.symm

theorem forall_lookup (P : K → V → Prop) (h : ∀ e ∈ b.entries, P e.1 e.2)
    {v : V} (hv : b.lookup k = some v) : P k v :=
  h ⟨k, v⟩ (Finmap.mem_lookup_iff.mp hv)

theorem lookup_insert_ite (b : Bag K V) (k k' : K) (v : V) :
    (b.insert k v).lookup k' = if k' = k then some v else b.lookup k' := by
  split_ifs with h
  · subst h
    exact Finmap.lookup_insert b
  · exact Finmap.lookup_insert_of_ne b h

theorem lookup_erase_ite (b : Bag K V) (k k' : K) :
    (b.erase k).lookup k' = if k' = k then none else b.lookup k' := by
  split_ifs with h
  · subst h
    exact Finmap.lookup_erase k' b
  · exact Finmap.lookup_erase_ne h

theorem lookup_of_insert {k' : K} {v v' : V} (h : (b.insert k v).lookup k' = some v') :
    (k' = k ∧ v' = v) ∨ b.lookup k' = some v' := by
  rw [lookup_insert_ite] at h
  split_ifs at h with hk
  · exact .inl ⟨hk, (Option.some.inj h).symm⟩
  · exact .inr h

theorem lookup_of_erase {k' : K} {v : V} (h : (b.erase k).lookup k' = some v) :
    b.lookup k' = some v := by
  rw [lookup_erase_ite] at h
  split_ifs at h
  exact h

theorem insert_erase_self {v : V} : (b.erase k).insert k v = b.insert k v := by
  refine Finmap.ext_lookup fun k' => ?_
  simp only [lookup_insert_ite, lookup_erase_ite]
  split_ifs <;> rfl

theorem insert_lookup_self {v : V} (h : b.lookup k = some v) :
    b.insert k v = b := by
  refine Finmap.ext_lookup fun k' => ?_
  rw [lookup_insert_ite]
  split_ifs with hk
  · rw [hk, h]
  · rfl

/-! ## Totals -/

def weight (f : V → Nat) (b : Bag K V) (k : K) : Nat := ((b.lookup k).map f).getD 0

def sum (f : V → Nat) (b : Bag K V) : Nat := (b.entries.map fun e => f e.2).sum

omit [DecidableEq K] in
@[simp] theorem sum_empty (f : V → Nat) : sum f (∅ : Bag K V) = 0 := rfl

theorem weight_of_lookup {f : V → Nat} {v : V} (h : b.lookup k = some v) :
    weight f b k = f v := by simp [weight, h]

theorem weight_of_notMem {f : V → Nat} (h : b.lookup k = none) :
    weight f b k = 0 := by simp [weight, h]

theorem sum_erase (f : V → Nat) (b : Bag K V) (k : K) : weight f b k + sum f (b.erase k) = sum f b := by
  cases h : b.lookup k with
  | none =>
      have herase : b.erase k = b := by
        refine Finmap.ext_lookup fun k' => ?_
        rw [lookup_erase_ite]
        split_ifs with hk
        · rw [hk, h]
        · rfl
      rw [weight_of_notMem h, herase, Nat.zero_add]
  | some v =>
      have hinsert : b.entries = ⟨k, v⟩ ::ₘ (b.erase k).entries := by
        rw [← Finmap.entries_insert_of_notMem Finmap.notMem_erase_self, insert_erase_self,
          insert_lookup_self h]
      rw [weight_of_lookup h, sum, sum, hinsert, Multiset.map_cons, Multiset.sum_cons]

theorem sum_insert (f : V → Nat) (b : Bag K V) (k : K) (v : V) :
    sum f (b.insert k v) + weight f b k = sum f b + f v := by
  have hnew := sum_erase f (b.insert k v) k
  have hold := sum_erase f b k
  have herase : (b.insert k v).erase k = b.erase k := by
    refine Finmap.ext_lookup fun k' => ?_
    rw [lookup_erase_ite, lookup_erase_ite, lookup_insert_ite]
    split_ifs <;> rfl
  rw [herase, weight_of_lookup (Finmap.lookup_insert b)] at hnew
  omega

theorem sum_of_agree (f : V → Nat) {ks : List K} (hks : ks.Nodup) (b b' : Bag K V)
    (h : ∀ k, k ∉ ks → b'.lookup k = b.lookup k) :
    sum f b' + (ks.map (weight f b)).sum = sum f b + (ks.map (weight f b')).sum := by
  induction ks generalizing b b' with
  | nil =>
      have : b' = b := Finmap.ext_lookup fun k => h k (by simp)
      simp [this]
  | cons k ks ih =>
      obtain ⟨hk, hks⟩ := List.nodup_cons.mp hks
      -- erase `k` on both sides; the remaining keys keep their weights
      have herase : ∀ (c : Bag K V), ∀ j ∈ ks, weight f (c.erase k) j = weight f c j := by
        intro c j hj
        rw [weight, lookup_erase_ite, if_neg (fun hjk : j = k => hk (hjk ▸ hj)), weight]
      have hmap (c : Bag K V) : ks.map (weight f (c.erase k)) = ks.map (weight f c) :=
        List.map_congr_left (herase c)
      have hagree : ∀ j, j ∉ ks → (b'.erase k).lookup j = (b.erase k).lookup j := by
        intro j hj
        rw [lookup_erase_ite, lookup_erase_ite]
        split_ifs with hjk
        · rfl
        · exact h j (by simp [hj, hjk])
      have hrest := ih hks _ _ hagree
      rw [hmap, hmap] at hrest
      have hb := sum_erase f b k
      have hb' := sum_erase f b' k
      simp only [List.map_cons, List.sum_cons]
      omega

theorem sum_congr {f : V → Nat} {b b' : Bag K V} (h : ∀ k, weight f b' k = weight f b k) :
    sum f b' = sum f b := by
  have hagree := sum_of_agree f (b.keys ∪ b'.keys).nodup_toList b b'
    fun k hk => by
      simp only [Finset.mem_toList, Finset.mem_union, Finmap.mem_keys, not_or] at hk
      rw [lookup_of_notMem hk.1, lookup_of_notMem hk.2]
  rw [List.map_congr_left fun k _ => h k] at hagree
  omega

/-! ## Entries in the order of their keys -/

section Order

variable (le : K → K → Prop) [DecidableRel le] [IsTrans K le] [Std.Antisymm le] [Std.Total le]

omit [DecidableEq K] in
theorem insertionSort_eq_of_perm {xs ys : List K} (h : xs.Perm ys) :
    xs.insertionSort le = ys.insertionSort le := by
  refine List.Perm.eq_of_pairwise (fun a b _ _ => Std.Antisymm.antisymm a b)
    (List.pairwise_insertionSort le xs) (List.pairwise_insertionSort le ys) ?_
  exact (List.perm_insertionSort le xs).trans (h.trans (List.perm_insertionSort le ys).symm)

def sortedKeys (b : Bag K V) : List K :=
  Quot.liftOn b.keys.val (List.insertionSort le) fun _ _ => insertionSort_eq_of_perm le

def sortedValues (b : Bag K V) : List V := (b.sortedKeys le).filterMap b.lookup

omit [DecidableEq K] in
theorem mem_sortedKeys : k ∈ b.sortedKeys le ↔ k ∈ b := by
  have hperm : (b.sortedKeys le : Multiset K) = b.keys.val := by
    unfold sortedKeys
    induction b.keys.val using Quotient.inductionOn with
    | h xs => exact Quotient.sound (List.perm_insertionSort le xs)
  rw [← Finmap.mem_keys, ← Finset.mem_val, ← hperm, Multiset.mem_coe]

theorem mem_sortedValues {v : V} :
    v ∈ b.sortedValues le ↔ ∃ k, b.lookup k = some v := by
  simp only [sortedValues, List.mem_filterMap, mem_sortedKeys]
  exact ⟨fun ⟨k, _, hv⟩ => ⟨k, hv⟩, fun ⟨k, hv⟩ => ⟨k, mem_of_lookup hv, hv⟩⟩

end Order

end Bag

/-! ## Unordered iteration -/

/-- An order in which the elements of an unordered collection are visited. -/
structure Iteration (α : Type u) where
  list : Finset α → List α
  perm : ∀ s, (list s : Multiset α) = s.val

namespace Iteration

variable {α : Type u} (it : Iteration α)

theorem mem_list {s : Finset α} {a : α} : a ∈ it.list s ↔ a ∈ s := by
  rw [← Multiset.mem_coe, it.perm, Finset.mem_val]

def sorted (le : α → α → Prop) [DecidableRel le] [IsTrans α le] [Std.Antisymm le] [Std.Total le] :
    Iteration α where
  list s := Quot.liftOn s.val (List.insertionSort le) fun _ _ => Bag.insertionSort_eq_of_perm le
  perm s := by
    induction s.val using Quotient.inductionOn with
    | h xs => exact Quotient.sound (List.perm_insertionSort le xs)

variable {V : Type u} [DecidableEq α]

def entries (b : Bag α V) : List (α × V) :=
  (it.list b.keys).filterMap fun k => (b.lookup k).map (k, ·)

theorem mem_entries {b : Bag α V} {k : α} {v : V} : (k, v) ∈ it.entries b ↔ b.lookup k = some v := by
  simp only [entries, List.mem_filterMap, it.mem_list, Finmap.mem_keys, Option.map_eq_some_iff,
    Prod.mk.injEq]
  constructor
  · rintro ⟨k', -, v', hv', rfl, rfl⟩
    exact hv'
  · exact fun hv => ⟨k, Bag.mem_of_lookup hv, v, hv, rfl, rfl⟩

end Iteration

end HashiBridge.Lib
