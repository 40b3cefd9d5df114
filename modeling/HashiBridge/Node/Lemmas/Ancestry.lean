import HashiBridge.Lib.Dag
import HashiBridge.Node.Ancestry

/-!
# What the ancestor walk computes

In a consistent and acyclic set of in-flight withdrawals the depth of a withdrawal is its height in
the graph, whatever was walked before, and the walk leaves behind exactly what lies above it.
-/

namespace HashiBridge.Node

open Lib HashiBridge.Core Btc

namespace UnconfirmedAncestry

variable {a : UnconfirmedAncestry}

/-! ## The graph -/

def producer (a : UnconfirmedAncestry) (id : UtxoId) : Option Address :=
  ((a.utxoRecords.lookup id).bind UtxoRecord.producedBy).filter (· ∈ a.withdrawalTxns)

/-- The in-flight withdrawals that an in-flight withdrawal spends from. -/
def parents (a : UnconfirmedAncestry) (w : Address) : List Address :=
  match a.withdrawalTxns.lookup w with
  | none => []
  | some txn => txn.inputs.filterMap fun input => a.producer input.id

/-- Records are kept under the ids of their outputs, and a change output carries the id of the
transaction that produced it. -/
structure Consistent (a : UnconfirmedAncestry) : Prop where
  id_eq : ∀ {id record}, a.utxoRecords.lookup id = some record → record.utxo.id = id
  txid_eq : ∀ {id record w txn}, a.utxoRecords.lookup id = some record →
    record.producedBy = some w → a.withdrawalTxns.lookup w = some txn → txn.txid = id.txid

variable {w : Address}

theorem producer_eq_some {id : UtxoId} : a.producer id = some w ↔
    ∃ record, a.utxoRecords.lookup id = some record ∧ record.producedBy = some w ∧
      w ∈ a.withdrawalTxns := by
  simp only [producer, Option.filter_eq_some_iff, Option.bind_eq_some_iff, decide_eq_true_eq]
  constructor
  · rintro ⟨⟨record, hrecord, hproduced⟩, hw⟩
    exact ⟨record, hrecord, hproduced, hw⟩
  · rintro ⟨record, hrecord, hproduced, hw⟩
    exact ⟨⟨record, hrecord, hproduced⟩, hw⟩

variable {txn : WithdrawalTransaction}

theorem parents_of_lookup
    (h : a.withdrawalTxns.lookup w = some txn) :
    a.parents w = txn.inputs.filterMap fun input => a.producer input.id := by
  rw [parents, h]

theorem parents_of_notMem (h : w ∉ a.withdrawalTxns) : a.parents w = [] := by
  rw [parents, Bag.lookup_of_notMem h]

theorem parent_filter (h : a.Consistent) (input : Utxo) :
    (a.parent input).filter (· ∈ a.withdrawalTxns) = a.producer input.id := by
  unfold parent producer
  split_ifs with hpending
  · rfl
  · symm
    rw [Option.filter_none, Option.filter_eq_none_iff]
    intro w hw hmem
    obtain ⟨record, hrecord, hproduced⟩ := Option.bind_eq_some_iff.mp hw
    obtain ⟨txn, htxn⟩ := Finmap.mem_iff.mp (of_decide_eq_true hmem)
    refine hpending (Multiset.mem_map.mpr ⟨⟨w, txn⟩, ?_, h.txid_eq hrecord hproduced htxn⟩)
    exact Finmap.mem_lookup_iff.mp htxn

noncomputable def above (a : UnconfirmedAncestry) (w : Address) : Finset Address :=
  open Classical in a.withdrawalTxns.keys.filter fun v => Above a.parents v w

theorem mem_above {v w : Address} :
    v ∈ a.above w ↔ v ∈ a.withdrawalTxns ∧ Above a.parents v w := by
  classical
  simp [above, Finmap.mem_keys]

theorem card_above_le (w : Address) : (a.above w).card ≤ a.withdrawalTxns.keys.card := by
  classical
  exact Finset.card_filter_le _ _

theorem card_above_lt (h : Acyclic a.parents) {p w : Address} (hw : w ∈ a.withdrawalTxns)
    (hp : p ∈ a.parents w) : (a.above p).card < (a.above w).card := by
  refine Finset.card_lt_card (Finset.ssubset_iff_of_subset ?_ |>.mpr ⟨w, ?_, ?_⟩)
  · intro v hv
    obtain ⟨hmem, habove⟩ := mem_above.mp hv
    exact mem_above.mpr ⟨hmem, .head hp habove⟩
  · exact mem_above.mpr ⟨hw, .refl w⟩
  · intro hwp
    exact h.not_above_parent hp (mem_above.mp hwp).2

theorem above_eq_empty (hw : w ∉ a.withdrawalTxns) : a.above w = ∅ := by
  refine Finset.eq_empty_of_forall_notMem fun v hv => ?_
  obtain ⟨hmem, habove⟩ := mem_above.mp hv
  obtain rfl | ⟨p, hp, -⟩ := above_iff.mp habove
  · exact hw hmem
  · rw [parents_of_notMem hw] at hp
    cases hp

/-! ## The state of a walk -/

noncomputable def depthOf (h : Acyclic a.parents) (w : Address) : Nat :=
  if w ∈ a.withdrawalTxns then h.height w else 0

/-- The entry of a withdrawal that the walk has left again, with all its parents entered. -/
structure Left (h : Acyclic a.parents) (walked : Walked) (v : Address) : Prop where
  entry_eq : ∃ txn, a.withdrawalTxns.lookup v = some txn ∧
    walked.lookup v = some (entry txn (h.height v))
  parents_mem : ∀ p ∈ a.parents v, p ∈ walked

structure Sound (h : Acyclic a.parents) (walked : Walked) (s : Address → Prop) : Prop where
  inflight : ∀ v ∈ walked, v ∈ a.withdrawalTxns
  left : ∀ v ∈ walked, s v → Left h walked v

/-- A walk within `s` changes nothing but what it enters and leaves there. -/
def Grown (h : Acyclic a.parents) (walked walked' : Walked) (s : Address → Prop) : Prop :=
  ∀ v, walked'.lookup v = walked.lookup v ∨ s v ∧ Left h walked' v

variable {h : Acyclic a.parents} {walked walked' walked'' : Walked} {s t : Address → Prop}

theorem Left.mem {v : Address} (hl : Left h walked v) : v ∈ walked := by
  obtain ⟨txn, -, hentry⟩ := hl.entry_eq
  exact Bag.mem_of_lookup hentry

theorem Grown.refl : Grown h walked walked s := fun _ => .inl rfl

theorem Grown.mem (hg : Grown h walked walked' s) {v : Address} (hv : v ∈ walked) :
    v ∈ walked' := by
  rcases hg v with heq | ⟨-, hl⟩
  · obtain ⟨ancestor, hancestor⟩ := Finmap.mem_iff.mp hv
    exact Finmap.mem_iff.mpr ⟨ancestor, heq.trans hancestor⟩
  · exact hl.mem

theorem Grown.keeps_left (hg : Grown h walked walked' s) {v : Address} (hl : Left h walked v) :
    Left h walked' v := by
  rcases hg v with heq | ⟨-, hl'⟩
  · obtain ⟨txn, htxn, hentry⟩ := hl.entry_eq
    exact ⟨⟨txn, htxn, heq.trans hentry⟩, fun p hp => hg.mem (hl.parents_mem p hp)⟩
  · exact hl'

theorem Grown.mono (hg : Grown h walked walked' s) (hst : ∀ v, s v → t v) :
    Grown h walked walked' t :=
  fun v => (hg v).imp_right fun ⟨hs, hl⟩ => ⟨hst v hs, hl⟩

theorem Grown.trans (hg : Grown h walked walked' s) (hg' : Grown h walked' walked'' s) :
    Grown h walked walked'' s := by
  intro v
  rcases hg' v with heq' | hl'
  · rcases hg v with heq | ⟨hs, hl⟩
    · exact .inl (heq'.trans heq)
    · exact .inr ⟨hs, hg'.keeps_left hl⟩
  · exact .inr hl'

theorem Sound.grown (hs : Sound h walked t) (hg : Grown h walked walked' s) :
    Sound h walked' t := by
  constructor
  · intro v hv
    rcases hg v with heq | ⟨-, hl⟩
    · obtain ⟨ancestor, hancestor⟩ := Finmap.mem_iff.mp hv
      exact hs.inflight v (Bag.mem_of_lookup (heq.symm.trans hancestor))
    · obtain ⟨txn, htxn, -⟩ := hl.entry_eq
      exact Bag.mem_of_lookup htxn
  · intro v hv ht
    rcases hg v with heq | ⟨-, hl⟩
    · obtain ⟨ancestor, hancestor⟩ := Finmap.mem_iff.mp hv
      exact hg.keeps_left (hs.left v (Bag.mem_of_lookup (heq.symm.trans hancestor)) ht)
    · exact hl

theorem Sound.mono (hs : Sound h walked t) (hst : ∀ v, s v → t v) : Sound h walked s :=
  ⟨hs.inflight, fun v hv hsv => hs.left v hv (hst v hsv)⟩

theorem sound_empty (h : Acyclic a.parents) (s : Address → Prop) : Sound h ∅ s :=
  ⟨fun _ hv => absurd hv Finmap.notMem_empty, fun _ hv => absurd hv Finmap.notMem_empty⟩

/-! ## The depth of a withdrawal -/

def round (a : UnconfirmedAncestry) (fuel deepest : Nat) (input : Utxo) : StateM Walked Nat :=
  match a.parent input with
  | none => pure deepest
  | some parent => max deepest <$> a.chainDepth fuel parent

variable {input : Utxo}

theorem round_of_none {fuel deepest : Nat} (hparent : a.parent input = none) :
    (a.round fuel deepest input).run walked = (deepest, walked) := by
  rw [round, hparent]
  rfl

theorem round_of_some {fuel deepest depth : Nat}
    (hparent : a.parent input = some w)
    (hw : (a.chainDepth fuel w).run walked = (depth, walked')) :
    (a.round fuel deepest input).run walked = (max deepest depth, walked') := by
  simp only [round, hparent, StateT.run_map, hw]
  rfl

variable {fuel : Nat}

theorem chainDepth_of_walked {ancestor : Ancestor}
    (hw : walked.lookup w = some ancestor) :
    (a.chainDepth (fuel + 1) w).run walked = (ancestor.depth, walked) := by
  simp [chainDepth, hw]
  rfl

theorem chainDepth_of_notMem (hw : walked.lookup w = none)
    (hmem : a.withdrawalTxns.lookup w = none) :
    (a.chainDepth (fuel + 1) w).run walked = (0, walked) := by
  simp [chainDepth, hw, hmem]
  rfl

theorem chainDepth_of_mem
    (hw : walked.lookup w = none) (hmem : a.withdrawalTxns.lookup w = some txn) {deepest : Nat}
    (hloop : (txn.inputs.foldlM (a.round fuel) 0).run
      (walked.insert w (entry txn MAX_ANCESTOR_DEPTH)) = (deepest, walked')) :
    (a.chainDepth (fuel + 1) w).run walked =
      (1 + deepest, walked'.insert w (entry txn (1 + deepest))) := by
  simp only [chainDepth, hmem, bind_pure_comp, StateT.run_bind, StateT.run_get, pure_bind, hw,
    StateT.run_modify, StateT.run_map, map_pure]
  change (fun p : Nat × Walked => (1 + p.1, p.2.insert w (entry txn (1 + p.1)))) <$>
    (txn.inputs.foldlM (a.round fuel) 0).run _ = _
  rw [hloop]
  rfl

/-- What a walk from `w` does to a state that is sound above `w`. -/
structure Walks (h : Acyclic a.parents) (fuel : Nat) (w : Address) (walked walked' : Walked) :
    Prop where
  result : (a.chainDepth fuel w).run walked = (depthOf h w, walked')
  grown : Grown h walked walked' (Above a.parents · w)
  entered : w ∈ a.withdrawalTxns → w ∈ walked'

theorem Sound.of_notMem (hs : Sound h walked s) (hw : w ∉ a.withdrawalTxns) :
    Sound h walked (Above a.parents · w) := by
  refine ⟨hs.inflight, fun v hv habove => absurd (hs.inflight v hv) fun hmem => ?_⟩
  have hempty := above_eq_empty hw
  exact Finset.notMem_empty v (hempty ▸ mem_above.mpr ⟨hmem, habove⟩)

theorem Grown.of_notMem (hg : Grown h walked walked' (Above a.parents · w))
    (hw : w ∉ a.withdrawalTxns) : Grown h walked walked' s := by
  refine fun v => (hg v).imp_right fun ⟨habove, hl⟩ => ?_
  obtain ⟨txn, htxn, -⟩ := hl.entry_eq
  have hempty := above_eq_empty hw
  exact absurd (hempty ▸ mem_above.mpr ⟨Bag.mem_of_lookup htxn, habove⟩) (Finset.notMem_empty v)

theorem round_walks (hcons : a.Consistent)
    (ih : ∀ w walked, (a.above w).card < fuel → Sound h walked (Above a.parents · w) →
      ∃ walked', Walks h fuel w walked walked')
    (hfuel : ∀ w, a.parent input = some w → (a.above w).card < fuel)
    (hs : Sound h walked s)
    (hinside : ∀ p, a.producer input.id = some p → ∀ v, Above a.parents v p → s v)
    (deepest : Nat) :
    ∃ walked', (a.round fuel deepest input).run walked =
        (max deepest ((a.producer input.id).elim 0 h.height), walked') ∧
      Grown h walked walked' s ∧ ∀ p, a.producer input.id = some p → p ∈ walked' := by
  have hfilter := parent_filter hcons input
  cases hparent : a.parent input with
  | none =>
      rw [hparent, Option.filter_none] at hfilter
      refine ⟨walked, ?_, .refl, ?_⟩
      · rw [round_of_none hparent, ← hfilter, Option.elim_none, Nat.max_zero]
      · simp [← hfilter]
  | some q =>
      by_cases hq : q ∈ a.withdrawalTxns
      · have hproducer : a.producer input.id = some q := by
          rw [← hfilter, hparent, Option.filter_some, if_pos (decide_eq_true hq)]
        obtain ⟨walked', hw⟩ := ih q walked (hfuel q hparent) (hs.mono (hinside q hproducer))
        refine ⟨walked', ?_, hw.grown.mono (hinside q hproducer), ?_⟩
        · rw [round_of_some hparent hw.result, hproducer, depthOf, if_pos hq, Option.elim_some]
        · rintro p hp
          cases hproducer.symm.trans hp
          exact hw.entered hq
      · have hproducer : a.producer input.id = none := by
          rw [← hfilter, hparent, Option.filter_some, if_neg (by simpa using hq)]
        obtain ⟨walked', hw⟩ := ih q walked (hfuel q hparent) (hs.of_notMem hq)
        refine ⟨walked', ?_, hw.grown.of_notMem hq, ?_⟩
        · rw [round_of_some hparent hw.result, hproducer, depthOf, if_neg hq, Option.elim_none]
        · simp [hproducer]

theorem Sound.enter (hs : Sound h walked (Above a.parents · w)) (ancestor : Ancestor)
    (hw : w ∈ a.withdrawalTxns) :
    Sound h (walked.insert w ancestor) fun v => ∃ p ∈ a.parents w, Above a.parents v p := by
  constructor
  · intro v hv
    rcases Finmap.mem_insert.mp hv with rfl | hv
    · exact hw
    · exact hs.inflight v hv
  · rintro v hv ⟨p, hp, habove⟩
    have hne : v ≠ w := by
      rintro rfl
      exact h.not_above_parent hp habove
    have hl := hs.left v ((Finmap.mem_insert.mp hv).resolve_left hne) (.head hp habove)
    obtain ⟨txn, htxn, hentry⟩ := hl.entry_eq
    exact ⟨⟨txn, htxn, (Finmap.lookup_insert_of_ne _ hne).trans hentry⟩,
      fun q hq => Finmap.mem_insert.mpr (.inr (hl.parents_mem q hq))⟩

theorem Grown.leave {ancestor : Ancestor}
    (hg : Grown h (walked.insert w ancestor) walked'
      fun v => ∃ p ∈ a.parents w, Above a.parents v p)
    (htxn : a.withdrawalTxns.lookup w = some txn) (hentered : ∀ p ∈ a.parents w, p ∈ walked') :
    Grown h walked (walked'.insert w (entry txn (h.height w))) (Above a.parents · w) := by
  intro v
  by_cases hv : v = w
  · subst hv
    exact .inr ⟨.refl v, ⟨txn, htxn, Finmap.lookup_insert _⟩,
      fun p hp => Finmap.mem_insert.mpr (.inr (hentered p hp))⟩
  · rw [Finmap.lookup_insert_of_ne _ hv]
    rcases hg v with heq | ⟨⟨p, hp, habove⟩, hl⟩
    · exact .inl (heq.trans (Finmap.lookup_insert_of_ne _ hv))
    · obtain ⟨txn', htxn', hentry⟩ := hl.entry_eq
      exact .inr ⟨.head hp habove,
        ⟨txn', htxn', (Finmap.lookup_insert_of_ne _ hv).trans hentry⟩,
        fun q hq => Finmap.mem_insert.mpr (.inr (hl.parents_mem q hq))⟩

theorem mem_parents {w p : Address}
    (htxn : a.withdrawalTxns.lookup w = some txn) (hinput : input ∈ txn.inputs)
    (hp : a.producer input.id = some p) : p ∈ a.parents w := by
  rw [parents_of_lookup htxn]
  exact List.mem_filterMap.mpr ⟨input, hinput, hp⟩

theorem producers_card_lt (h : Acyclic a.parents)
    (hfuel : (a.above w).card < fuel + 1)
    (htxn : a.withdrawalTxns.lookup w = some txn) :
    ∀ input ∈ txn.inputs, ∀ q, a.parent input = some q → (a.above q).card < fuel := by
  intro input hinput q hparent
  have hmem : w ∈ a.withdrawalTxns := Bag.mem_of_lookup htxn
  by_cases hq : q ∈ a.withdrawalTxns
  · have hproducer : a.producer input.id = some q := by
      unfold parent at hparent
      split_ifs at hparent
      rw [producer, hparent, Option.filter_some, if_pos (decide_eq_true hq)]
    have hlt := card_above_lt h hmem (mem_parents htxn hinput hproducer)
    omega
  · have hpos : 0 < (a.above w).card := Finset.card_pos.mpr ⟨w, mem_above.mpr ⟨hmem, .refl w⟩⟩
    rw [above_eq_empty hq, Finset.card_empty]
    omega

theorem loop_walks (hcons : a.Consistent)
    (ih : ∀ w walked, (a.above w).card < fuel → Sound h walked (Above a.parents · w) →
      ∃ walked', Walks h fuel w walked walked')
    {inputs : List Utxo}
    (hfuel : ∀ input ∈ inputs, ∀ w, a.parent input = some w → (a.above w).card < fuel)
    (hs : Sound h walked s)
    (hinside : ∀ input ∈ inputs, ∀ p, a.producer input.id = some p →
      ∀ v, Above a.parents v p → s v) (deepest : Nat) :
    ∃ walked', (inputs.foldlM (a.round fuel) deepest).run walked =
        (((inputs.filterMap fun input => a.producer input.id).map h.height).foldl max deepest,
          walked') ∧
      Grown h walked walked' s ∧
      ∀ p ∈ inputs.filterMap fun input => a.producer input.id, p ∈ walked' := by
  induction inputs generalizing walked deepest with
  | nil => exact ⟨walked, rfl, .refl, by simp⟩
  | cons input rest ihrest =>
      obtain ⟨walked₁, hround, hgrown₁, hentered₁⟩ := round_walks hcons ih
        (hfuel input List.mem_cons_self) hs (hinside input List.mem_cons_self) deepest
      obtain ⟨walked₂, hloop, hgrown₂, hentered₂⟩ := ihrest
        (fun u hu => hfuel u (List.mem_cons_of_mem _ hu)) (hs.grown hgrown₁)
        (fun u hu => hinside u (List.mem_cons_of_mem _ hu))
        (max deepest ((a.producer input.id).elim 0 h.height))
      refine ⟨walked₂, ?_, hgrown₁.trans hgrown₂, ?_⟩
      · rw [List.foldlM_cons, StateT.run_bind, hround]
        refine hloop.trans ?_
        cases hproducer : a.producer input.id <;> simp [hproducer]
      · intro p hp
        rw [List.mem_filterMap] at hp
        obtain ⟨u, hu, hproducer⟩ := hp
        rcases List.mem_cons.mp hu with rfl | hu
        · exact hgrown₂.mem (hentered₁ p hproducer)
        · exact hentered₂ p (List.mem_filterMap.mpr ⟨u, hu, hproducer⟩)

theorem chainDepth_walks (hcons : a.Consistent) (fuel : Nat) (w : Address) (walked : Walked)
    (hfuel : (a.above w).card < fuel) (hs : Sound h walked (Above a.parents · w)) :
    ∃ walked', Walks h fuel w walked walked' := by
  induction fuel generalizing w walked with
  | zero => exact absurd hfuel (Nat.not_lt_zero _)
  | succ fuel ih =>
      cases hwalked : walked.lookup w with
      | some ancestor =>
          obtain ⟨txn, htxn, hentry⟩ :=
            (hs.left w (Bag.mem_of_lookup hwalked) (.refl w)).entry_eq
          refine ⟨walked, ?_, .refl, fun _ => Bag.mem_of_lookup hwalked⟩
          cases hentry.symm.trans hwalked
          rw [chainDepth_of_walked hentry, depthOf, if_pos (Bag.mem_of_lookup htxn)]
          cases hweight : withdrawalTxnWeight txn <;> simp [entry, hweight]
      | none =>
          cases htxn : a.withdrawalTxns.lookup w with
          | none =>
              have hnot : w ∉ a.withdrawalTxns := Bag.notMem_iff.mpr htxn
              refine ⟨walked, ?_, .refl, fun hmem => absurd hmem hnot⟩
              rw [chainDepth_of_notMem hwalked htxn, depthOf, if_neg hnot]
          | some txn =>
              have hmem : w ∈ a.withdrawalTxns := Bag.mem_of_lookup htxn
              have hparents := parents_of_lookup htxn
              obtain ⟨walked', hloop, hgrown, hentered⟩ := loop_walks hcons ih
                (producers_card_lt h hfuel htxn) (hs.enter (entry txn MAX_ANCESTOR_DEPTH) hmem)
                (fun input hinput p hp v hv => ⟨p, mem_parents htxn hinput hp, hv⟩) 0
              have hheight : 1 + ((txn.inputs.filterMap fun input =>
                  a.producer input.id).map h.height).foldl max 0 = h.height w := by
                rw [h.height_eq w, hparents]
              rw [← hparents] at hentered
              refine ⟨walked'.insert w (entry txn (h.height w)), ?_,
                hgrown.leave htxn hentered, fun _ => Finmap.mem_insert.mpr (.inl rfl)⟩
              rw [chainDepth_of_mem hwalked htxn hloop, hheight, depthOf, if_pos hmem]

/-! ## The depth of an output -/

noncomputable def recordDepth (h : Acyclic a.parents) (record : UtxoRecord) : Nat :=
  record.producedBy.elim 0 (depthOf h)

theorem depth_eq (hcons : a.Consistent) (hs : Sound h walked fun _ => True) (record : UtxoRecord) :
    ∃ walked', (a.depth record).run walked = (recordDepth h record, walked') ∧
      Sound h walked' fun _ => True := by
  rw [depth, recordDepth]
  cases record.producedBy with
  | none => exact ⟨walked, rfl, hs⟩
  | some w =>
      have hfuel : (a.above w).card < a.fuel := Nat.lt_succ_of_le (card_above_le w)
      obtain ⟨walked', hw⟩ := chainDepth_walks hcons a.fuel w walked hfuel
        (hs.mono fun _ _ => trivial)
      exact ⟨walked', hw.result, hs.grown hw.grown⟩

end UnconfirmedAncestry

end HashiBridge.Node
