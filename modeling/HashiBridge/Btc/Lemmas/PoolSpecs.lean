import HashiBridge.Lib.Loop
import HashiBridge.Btc.UtxoPool

/-!
# What the pool's functions do

One lemma per function, and for the functions that entry functions call in a loop, one for the whole
loop, outpoint by outpoint.
-/

namespace HashiBridge.Btc

open Lib HashiBridge.Core

namespace UtxoPool

variable {p p' : UtxoPool}

/-! ## Insertion -/

theorem insertRecord_eq_ok {utxo : Utxo} {producedBy : Option Address} :
    p.insertRecord utxo producedBy = .ok p' ↔ ¬ p.isSpentOrActive utxo.id ∧
      p' = { p with utxoRecords := p.utxoRecords.insert utxo.id ⟨utxo, producedBy, none, none⟩ } := by
  simp only [insertRecord, assertNotSpentOrActive, bind_eq_ok, require_eq_ok, Bag.add_eq_ok,
    pure_eq_ok]
  constructor
  · rintro ⟨_, hnew, records, ⟨-, rfl⟩, rfl⟩
    exact ⟨hnew, rfl⟩
  · rintro ⟨hnew, rfl⟩
    exact ⟨(), hnew, _, ⟨fun hmem => hnew (.inl hmem), rfl⟩, rfl⟩

variable {w : Address}

theorem insertPending_loop {utxos : List Utxo}
    (h : utxos.foldlM (fun pool utxo => pool.insertPending utxo w) p = .ok p') :
    p'.spentUtxos = p.spentUtxos ∧
      (∀ u ∈ utxos, ¬ p.isSpentOrActive u.id ∧
        p'.utxoRecords.lookup u.id = some ⟨u, some w, none, none⟩) ∧
      ∀ id, id ∉ utxos.map Utxo.id → p'.utxoRecords.lookup id = p.utxoRecords.lookup id := by
  -- the spent set never changes, so every round checks against the one the loop started with
  have hspent : p'.spentUtxos = p.spentUtxos := by
    refine foldlM_invariant (fun q => q.spentUtxos = p.spentUtxos) rfl ?_ h
    intro q u q' _ hq hround
    obtain ⟨-, rfl⟩ := insertRecord_eq_ok.mp hround
    exact hq
  have hnotSpent : ∀ u ∈ utxos, u.id ∉ p.spentUtxos := by
    clear hspent
    induction utxos generalizing p with
    | nil => simp
    | cons u utxos ih =>
        obtain ⟨q, hround, hrest⟩ := foldlM_cons_eq_ok.mp h
        obtain ⟨hnew, rfl⟩ := insertRecord_eq_ok.mp hround
        rintro v (_ | ⟨_, hv⟩)
        exacts [(not_or.mp hnew).2, ih hrest v hv]
  obtain ⟨-, hnew, hrest⟩ := foldlM_insert_new (fun pool id => pool.utxoRecords.lookup id)
    Utxo.id (fun u => (⟨u, some w, none, none⟩ : UtxoRecord))
    (fun q u q' hround => by
      obtain ⟨hnew, rfl⟩ := insertRecord_eq_ok.mp hround
      exact ⟨Bag.lookup_of_notMem (not_or.mp hnew).1, fun id => Bag.lookup_insert_ite ..⟩) h
  refine ⟨hspent, fun u hu => ⟨?_, (hnew u hu).2⟩, hrest⟩
  exact not_or.mpr ⟨Bag.notMem_iff.mpr (hnew u hu).1, hnotSpent u hu⟩

/-! ## Reading and locking -/

variable {id : UtxoId}

theorem getUtxo_eq_ok {utxo : Utxo} :
    p.getUtxo id = .ok utxo ↔ ∃ r, p.utxoRecords.lookup id = some r ∧ r.utxo = utxo := by
  simp only [getUtxo, bind_eq_ok, Bag.borrow_eq_ok, pure_eq_ok]

theorem lock_eq_ok : p.lock id w = .ok p' ↔
    ∃ r, p.utxoRecords.lookup id = some r ∧ r.spentBy = none ∧
      p' = { p with utxoRecords := p.utxoRecords.insert id { r with spentBy := some w } } := by
  simp only [lock, bind_eq_ok, Bag.borrow_eq_ok, require_eq_ok, pure_eq_ok]
  constructor
  · rintro ⟨r, hr, _, hs, rfl⟩
    exact ⟨r, hr, hs, rfl⟩
  · rintro ⟨r, hr, hs, rfl⟩
    exact ⟨r, hr, (), hs, rfl⟩

variable {ids : List UtxoId}

theorem lock_loop
    (h : ids.foldlM (fun pool id => pool.lock id w) p = .ok p') :
    p'.spentUtxos = p.spentUtxos ∧ ids.Nodup ∧
      (∀ id ∈ ids, ∃ r, p.utxoRecords.lookup id = some r ∧ r.spentBy = none) ∧
      ∀ id, p'.utxoRecords.lookup id = if id ∈ ids then
        (p.utxoRecords.lookup id).map fun r => { r with spentBy := some w }
        else p.utxoRecords.lookup id := by
  refine ⟨?_, foldlM_update_once (fun pool id => pool.utxoRecords.lookup id)
    (fun r => r.spentBy = none) (fun r => { r with spentBy := some w }) (by simp) ?_ h⟩
  · refine foldlM_invariant (fun q => q.spentUtxos = p.spentUtxos) rfl ?_ h
    intro q id q' _ hq hround
    obtain ⟨r, -, -, rfl⟩ := lock_eq_ok.mp hround
    exact hq
  · intro q id q' hround
    obtain ⟨r, hr, hs, rfl⟩ := lock_eq_ok.mp hround
    exact ⟨r, hr, hs, fun id' => Bag.lookup_insert_ite ..⟩

theorem lock_loop_succeeds (hnodup : ids.Nodup)
    (h : ∀ id ∈ ids, ∃ r, p.utxoRecords.lookup id = some r ∧ r.spentBy = none) :
    ∃ p', ids.foldlM (fun pool id => pool.lock id w) p = .ok p' := by
  refine foldlM_succeeds_rest (fun (q : UtxoPool) ids => ids.Nodup ∧
    ∀ id ∈ ids, ∃ r, q.utxoRecords.lookup id = some r ∧ r.spentBy = none) ?_ ⟨hnodup, h⟩
  rintro q id rest ⟨hnodup, hfree⟩
  obtain ⟨hid, hrest⟩ := List.nodup_cons.mp hnodup
  obtain ⟨r, hr, hs⟩ := hfree id List.mem_cons_self
  refine ⟨_, lock_eq_ok.mpr ⟨r, hr, hs, rfl⟩, hrest, fun id' hid' => ?_⟩
  obtain ⟨r', hr', hs'⟩ := hfree id' (List.mem_cons_of_mem _ hid')
  have hne : id' ≠ id := fun heq => hid (heq ▸ hid')
  exact ⟨r', by rw [Bag.lookup_insert_ite, if_neg hne, hr'], hs'⟩

/-! ## Confirmation -/

theorem markSpent_eq_ok {epoch : Nat} : p.markSpent id epoch = .ok p' ↔
    ∃ r, p.utxoRecords.lookup id = some r ∧
      p' = { p with utxoRecords := p.utxoRecords.insert id { r with spentEpoch := some epoch } } := by
  simp only [markSpent, bind_eq_ok, Bag.borrow_eq_ok, pure_eq_ok, eq_comm (a := p')]

theorem markSpent_loop {epoch : Nat}
    (h : ids.foldlM (fun pool id => pool.markSpent id epoch) p = .ok p') :
    p'.spentUtxos = p.spentUtxos ∧ (∀ id ∈ ids, ∃ r, p.utxoRecords.lookup id = some r) ∧
      ∀ id, p'.utxoRecords.lookup id = if id ∈ ids then
        (p.utxoRecords.lookup id).map fun r => { r with spentEpoch := some epoch }
        else p.utxoRecords.lookup id := by
  refine ⟨?_, foldlM_update_idem (fun pool id => pool.utxoRecords.lookup id)
    (fun r => { r with spentEpoch := some epoch }) (fun _ => rfl) ?_ h⟩
  · refine foldlM_invariant (fun q => q.spentUtxos = p.spentUtxos) rfl ?_ h
    intro q id q' _ hq hround
    obtain ⟨r, -, rfl⟩ := markSpent_eq_ok.mp hround
    exact hq
  · intro q id q' hround
    obtain ⟨r, hr, rfl⟩ := markSpent_eq_ok.mp hround
    exact ⟨r, hr, fun id' => Bag.lookup_insert_ite ..⟩

theorem markSpent_loop_succeeds {epoch : Nat}
    (h : ∀ id ∈ ids, ∃ r, p.utxoRecords.lookup id = some r) :
    ∃ p', ids.foldlM (fun pool id => pool.markSpent id epoch) p = .ok p' := by
  obtain ⟨p', hp', -⟩ := foldlM_succeeds (f := fun (pool : UtxoPool) id => pool.markSpent id epoch)
    (fun q => ∀ id ∈ ids, ∃ r, q.utxoRecords.lookup id = some r) h
    (fun q id hid hq => by
      obtain ⟨r, hr⟩ := hq id hid
      refine ⟨_, markSpent_eq_ok.mpr ⟨r, hr, rfl⟩, fun id' hid' => ?_⟩
      rw [Bag.lookup_insert_ite]
      split_ifs
      exacts [⟨_, rfl⟩, hq id' hid'])
  exact ⟨p', hp'⟩

theorem confirmPending_lookup (p : UtxoPool) (id id' : UtxoId) :
    (p.confirmPending id).utxoRecords.lookup id' = if id' = id then
      (p.utxoRecords.lookup id').map fun r => { r with producedBy := none }
      else p.utxoRecords.lookup id' := by
  unfold confirmPending
  split
  · next hnone =>
    split_ifs with hid
    · rw [hid, hnone, Option.map_none]
    · rfl
  · next r hr =>
    rw [Bag.lookup_insert_ite]
    split_ifs with hid
    · rw [hid, hr, Option.map_some]
    · rfl

theorem confirmPending_spentUtxos (p : UtxoPool) (id : UtxoId) :
    (p.confirmPending id).spentUtxos = p.spentUtxos := by
  unfold confirmPending
  split <;> rfl

theorem confirmPending_loop (p : UtxoPool) (ids : List UtxoId) :
    (ids.foldl confirmPending p).spentUtxos = p.spentUtxos ∧
      ∀ id, (ids.foldl confirmPending p).utxoRecords.lookup id = if id ∈ ids then
        (p.utxoRecords.lookup id).map fun r => { r with producedBy := none }
        else p.utxoRecords.lookup id := by
  induction ids generalizing p with
  | nil => simp
  | cons id₀ ids ih =>
      obtain ⟨hspent, hview⟩ := ih (p.confirmPending id₀)
      refine ⟨by rw [List.foldl_cons, hspent, confirmPending_spentUtxos], fun id => ?_⟩
      rw [List.foldl_cons, hview, confirmPending_lookup]
      by_cases hid : id = id₀
      · subst hid
        -- an outpoint listed again keeps its promotion
        by_cases hmem : id ∈ ids
        · simp only [hmem, if_true, List.mem_cons, true_or, Option.map_map]
          rfl
        · simp [hmem]
      · simp [hid]

/-! ## Cleanup -/

theorem cleanupSpent_eq_ok (h : p.cleanupSpent id = .ok p') :
    p' = p ∨ ∃ r epoch, p.utxoRecords.lookup id = some r ∧ r.spentEpoch = some epoch ∧
      p' = ⟨p.utxoRecords.erase id, p.spentUtxos.insert id epoch⟩ := by
  unfold cleanupSpent at h
  split at h
  · cases h
    exact .inl rfl
  · next r hr =>
    simp only [bind_eq_ok, orAbort_eq_ok, Bag.add_eq_ok, pure_eq_ok] at h
    obtain ⟨epoch, hepoch, spent, ⟨-, rfl⟩, rfl⟩ := h
    exact .inr ⟨r, epoch, hr, hepoch, rfl⟩

end UtxoPool

end HashiBridge.Btc
