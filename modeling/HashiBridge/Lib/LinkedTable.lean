import HashiBridge.Lib.Bag

/-!
# Linked tables

A table whose nodes link to the keys before and after them.
-/

namespace HashiBridge.Lib

universe u

structure LinkedTableNode (K V : Type u) where
  prev : Option K
  next : Option K
  value : V
deriving DecidableEq

structure LinkedTable (K V : Type u) where
  head : Option K
  tail : Option K
  size : Nat
  nodes : Bag K (LinkedTableNode K V)

namespace LinkedTable

variable {K V : Type u}

def empty : LinkedTable K V := ⟨none, none, 0, ∅⟩

variable [DecidableEq K]

def linkTail (self : LinkedTable K V) (k : K) : Bag K (LinkedTableNode K V) :=
  match self.tail with
  | none => self.nodes
  | some last =>
      match self.nodes.lookup last with
      | none => self.nodes
      | some node => self.nodes.insert last { node with next := some k }

def pushBack (self : LinkedTable K V) (k : K) (value : V) : LinkedTable K V where
  head := self.head.or (some k)
  tail := some k
  size := self.size + 1
  nodes := (self.linkTail k).insert k ⟨self.tail, none, value⟩

def ofList (entries : List (K × V)) : LinkedTable K V :=
  entries.foldl (fun table entry => table.pushBack entry.1 entry.2) empty

theorem ofList_concat (entries : List (K × V)) (k : K) (value : V) :
    ofList (entries ++ [(k, value)]) = (ofList entries).pushBack k value := by
  rw [ofList, List.foldl_append]
  rfl

omit [DecidableEq K] in
theorem position_unique {entries : List (K × V)} (h : (entries.map Prod.fst).Nodup) {i j : Nat}
    {k : K} (hi : entries[i]?.map Prod.fst = some k) (hj : entries[j]?.map Prod.fst = some k) :
    i = j := by
  rw [← List.getElem?_map] at hi hj
  exact (List.getElem?_inj (List.getElem?_eq_some_iff.mp hi).1 h).mp (hi.trans hj.symm)

def NodeOf (entries : List (K × V)) (k : K) (node : LinkedTableNode K V) : Prop :=
  ∃ i, entries[i]? = some (k, node.value) ∧ node.next = entries[i + 1]?.map Prod.fst

structure Represents (table : LinkedTable K V) (entries : List (K × V)) : Prop where
  head : table.head = entries.head?.map Prod.fst
  tail : table.tail = entries.getLast?.map Prod.fst
  size : table.size = entries.length
  node : ∀ k node, table.nodes.lookup k = some node → NodeOf entries k node

theorem lookup_linkTail {table : LinkedTable K V} {k k' : K} {node : LinkedTableNode K V}
    (h : (table.linkTail k).lookup k' = some node) :
    (table.tail ≠ some k' ∧ table.nodes.lookup k' = some node) ∨
      table.tail = some k' ∧ node.next = some k ∧
        ∃ old, table.nodes.lookup k' = some old ∧ old.value = node.value := by
  unfold linkTail at h
  cases htail : table.tail with
  | none =>
      rw [htail] at h
      exact .inl ⟨nofun, h⟩
  | some last =>
      rw [htail] at h
      cases hlast : table.nodes.lookup last with
      | none =>
          simp only [hlast] at h
          refine .inl ⟨?_, h⟩
          rintro ⟨⟩
          rw [hlast] at h
          cases h
      | some old =>
          simp only [hlast, Bag.lookup_insert_ite] at h
          split_ifs at h with hk
          · cases h
            exact .inr ⟨by rw [hk], rfl, old, by rw [hk, hlast], rfl⟩
          · exact .inl ⟨fun heq => hk (Option.some.inj heq).symm, h⟩

theorem Represents.pushBack {table : LinkedTable K V} {entries : List (K × V)}
    (h : table.Represents entries) {k : K} (value : V)
    (hnodup : ((entries ++ [(k, value)]).map Prod.fst).Nodup) :
    (table.pushBack k value).Represents (entries ++ [(k, value)]) := by
  have hkeys : (entries.map Prod.fst).Nodup := by
    rw [List.map_append] at hnodup
    exact (List.nodup_append.mp hnodup).1
  constructor
  case head =>
    change table.head.or (some k) = _
    rw [h.head]
    cases entries <;> rfl
  case tail => simp [LinkedTable.pushBack]
  case size =>
    rw [List.length_append]
    exact congrArg (· + 1) h.size
  case node =>
    intro k' node hlookup
    simp only [LinkedTable.pushBack, Bag.lookup_insert_ite] at hlookup
    split_ifs at hlookup with hk
    · cases hlookup
      exact ⟨entries.length, by rw [hk]; simp, by simp⟩
    · rcases lookup_linkTail hlookup with ⟨hinner, hold⟩ | ⟨hlast, hnext, old, hold, hvalue⟩
      · obtain ⟨i, hi, hnext⟩ := h.node k' node hold
        have hlt := (List.getElem?_eq_some_iff.mp hi).1
        have hmore : i + 1 < entries.length := by
          by_contra hge
          refine hinner ?_
          rw [h.tail, List.getLast?_eq_getElem?, show entries.length - 1 = i by omega, hi]
          rfl
        refine ⟨i, ?_, ?_⟩
        · rw [List.getElem?_append_left hlt, hi]
        · rw [List.getElem?_append_left hmore, hnext]
      · obtain ⟨i, hi, -⟩ := h.node k' old hold
        have hlt := (List.getElem?_eq_some_iff.mp hi).1
        have hend : i + 1 = entries.length := by
          rw [h.tail, List.getLast?_eq_getElem?] at hlast
          have hindex := position_unique hkeys (congrArg (Option.map Prod.fst) hi) hlast
          omega
        refine ⟨i, ?_, ?_⟩
        · rw [List.getElem?_append_left hlt, hi, hvalue]
        · rw [hnext, hend, List.getElem?_concat_length]
          rfl

theorem represents_ofList {entries : List (K × V)} (h : (entries.map Prod.fst).Nodup) :
    (ofList entries).Represents entries := by
  induction entries using List.reverseRecOn with
  | nil => exact ⟨rfl, rfl, rfl, fun k node hnone => by cases hnone⟩
  | append_singleton entries entry ih =>
      obtain ⟨k, value⟩ := entry
      rw [ofList_concat]
      refine (ih ?_).pushBack value h
      rw [List.map_append] at h
      exact (List.nodup_append.mp h).1

end LinkedTable

end HashiBridge.Lib
