import HashiBridge.Core.MpcSigning

/-!
# What recording and reallocation do to the slots of a batch

Recording only ever turns a pending slot into a signed one.
-/

namespace HashiBridge.Core

open Lib

namespace SigningBatch

/-! ## Recording -/

/-- The pending slots of `after` are pending in `before`, with the same presignature. -/
def OnlyFills (before after : List MpcSig) : Prop :=
  ∀ (j : Nat) p, after[j]? = some (.pending p) → before[j]? = some (.pending p)

theorem recordOne_onlyFills {slots slots' : List MpcSig} {entry : Nat × Bytes}
    (h : recordOne slots entry = .ok slots') : OnlyFills slots slots' := by
  unfold recordOne at h
  split at h
  · cases h
  · next slot hslot =>
    cases h
    intro j p hj
    rw [List.getElem?_set] at hj
    split_ifs at hj with hentry
    · -- the written slot is signed whatever it was
      cases slot <;> simp [fill] at hj
    · exact hj

theorem record_onlyFills {b b' : SigningBatch} {indices : List Nat} {sigs : List Bytes}
    (h : b.record indices sigs = .ok b') :
    b'.epoch = b.epoch ∧ OnlyFills b.signatures b'.signatures := by
  simp only [record, bind_eq_ok, require_eq_ok, pure_eq_ok] at h
  obtain ⟨_, -, slots, hloop, rfl⟩ := h
  refine ⟨rfl, ?_⟩
  refine foldlM_invariant (OnlyFills b.signatures) (fun j p hj => hj) ?_ hloop
  intro s entry s' _ hs hstep j p hj
  exact hs j p (recordOne_onlyFills hstep j p hj)

/-! ## Reallocation -/

def pendingBefore (slots : List MpcSig) (k : Nat) : Nat := (slots.take k).countP MpcSig.isPending

theorem pendingCount_eq (b : SigningBatch) : b.pendingCount = b.signatures.countP MpcSig.isPending := by
  have h := List.length_eq_countP_add_countP MpcSig.isPending (l := b.signatures)
  have hsigned : b.signedCount = b.signatures.countP (fun s => decide ¬ (s.isPending = true)) := by
    simp [signedCount]
  rw [pendingCount, hsigned]
  omega

/-- The slots where the pending ones take the presignatures in order. -/
def assign : List MpcSig → List Presig → List MpcSig
  | [], _ => []
  | .signed sig :: slots, presigs => .signed sig :: assign slots presigs
  | .pending old :: slots, [] => .pending old :: assign slots []
  | .pending _ :: slots, presig :: presigs => .pending presig :: assign slots presigs

theorem reassign_append {xs ys : List MpcSig} {presigs : List Presig} {out : List MpcSig}
    (h : reassign (xs ++ ys) presigs = .ok out) :
    ∃ ps qs os os', presigs = ps ++ qs ∧ out = os ++ os' ∧ reassign xs ps = .ok os ∧
      reassign ys qs = .ok os' := by
  induction xs generalizing presigs out with
  | nil => exact ⟨[], presigs, [], out, rfl, rfl, rfl, h⟩
  | cons x xs ih =>
      cases x with
      | signed sig =>
          simp only [List.cons_append, reassign, bind_eq_ok, pure_eq_ok] at h
          obtain ⟨rest, hrest, rfl⟩ := h
          obtain ⟨ps, qs, os, os', rfl, rfl, hxs, hys⟩ := ih hrest
          refine ⟨ps, qs, .signed sig :: os, os', rfl, rfl, ?_, hys⟩
          simp only [reassign, hxs]
          rfl
      | pending old =>
          cases presigs with
          | nil => simp [reassign] at h
          | cons p presigs =>
              simp only [List.cons_append, reassign, bind_eq_ok, pure_eq_ok] at h
              obtain ⟨rest, hrest, rfl⟩ := h
              obtain ⟨ps, qs, os, os', rfl, rfl, hxs, hys⟩ := ih hrest
              refine ⟨p :: ps, qs, .pending p :: os, os', rfl, rfl, ?_, hys⟩
              simp only [reassign, hxs]
              rfl

theorem reassign_reverse {slots : List MpcSig} {presigs : List Presig} {out : List MpcSig}
    (h : reassign slots.reverse presigs.reverse = .ok out) : out.reverse = assign slots presigs := by
  induction slots generalizing presigs out with
  | nil =>
      cases hp : presigs.reverse with
      | nil =>
          rw [hp] at h
          cases h
          rfl
      | cons p ps =>
          rw [hp] at h
          cases h
  | cons s slots ih =>
      rw [List.reverse_cons] at h
      obtain ⟨ps, qs, os, os', hsplit, rfl, hslots, hlast⟩ := reassign_append h
      have hps : presigs = qs.reverse ++ ps.reverse := by
        rw [← List.reverse_append, ← hsplit, List.reverse_reverse]
      have hih : os.reverse = assign slots ps.reverse :=
        ih (by rw [List.reverse_reverse]; exact hslots)
      cases s with
      | signed sig =>
          cases qs with
          | nil =>
              cases hlast
              simp [hps, hih, assign]
          | cons q qs => cases hlast
      | pending old =>
          match qs, hlast with
          | [q], hlast =>
              cases hlast
              simp [hps, hih, assign]

def block (start count : Nat) : List Presig := (List.range count).map fun j => ⟨start + j⟩

theorem block_succ (start count : Nat) :
    block start (count + 1) = ⟨start⟩ :: block (start + 1) count := by
  simp only [block, List.range_succ_eq_map, List.map_cons, List.map_map, Nat.add_zero]
  congr 1
  refine List.map_congr_left fun j _ => ?_
  simp only [Function.comp_apply, Presig.mk.injEq]
  omega

theorem block_eq_nil {start count : Nat} : block start count = [] ↔ count = 0 := by
  simp [block]

/-- A pending slot takes the presignature `index`; a signed one stays. -/
def reslot (index : Nat) : MpcSig → MpcSig
  | .pending _ => .pending ⟨index⟩
  | .signed sig => .signed sig

theorem assign_block (slots : List MpcSig) (start k : Nat) :
    (assign slots (block start (slots.countP MpcSig.isPending)))[k]? =
      slots[k]?.map (reslot (start + pendingBefore slots k)) := by
  induction slots generalizing start k with
  | nil => rfl
  | cons s slots ih =>
      cases s with
      | signed sig =>
          have hcount : (MpcSig.signed sig :: slots).countP MpcSig.isPending =
              slots.countP MpcSig.isPending := List.countP_cons_of_neg (by simp [MpcSig.isPending])
          rw [hcount, assign]
          cases k with
          | zero => rfl
          | succ k =>
              have hbefore : pendingBefore (.signed sig :: slots) (k + 1) = pendingBefore slots k :=
                List.countP_cons_of_neg (by simp [MpcSig.isPending])
              rw [List.getElem?_cons_succ, List.getElem?_cons_succ, ih, hbefore]
      | pending old =>
          have hcount : (MpcSig.pending old :: slots).countP MpcSig.isPending =
              slots.countP MpcSig.isPending + 1 := List.countP_cons_of_pos rfl
          rw [hcount, block_succ, assign]
          cases k with
          | zero => rfl
          | succ k =>
              have hbefore : pendingBefore (.pending old :: slots) (k + 1) =
                  pendingBefore slots k + 1 := List.countP_cons_of_pos rfl
              rw [List.getElem?_cons_succ, List.getElem?_cons_succ, ih, hbefore, Nat.add_assoc,
                Nat.add_comm 1]

/-- A reallocation of a contiguous block: the batch was stale, its pending slots take the block in
slot order, its signed slots stay. -/
theorem reallocate_block {b b' : SigningBatch} {start epoch : Nat}
    (h : b.reallocate (block start b.pendingCount) epoch = .ok b') :
    b.epoch ≠ epoch ∧ b'.epoch = epoch ∧ ∀ k, b'.signatures[k]? =
      b.signatures[k]?.map (reslot (start + pendingBefore b.signatures k)) := by
  simp only [reallocate, bind_eq_ok, require_eq_ok, pure_eq_ok] at h
  obtain ⟨_, hstale, _, -, out, hout, rfl⟩ := h
  refine ⟨hstale, rfl, fun k => ?_⟩
  rw [reassign_reverse hout, pendingCount_eq, assign_block]

/-! ## Positions of pending slots -/

theorem pendingBefore_lt {slots : List MpcSig} {j k : Nat} {p : Presig}
    (hj : slots[j]? = some (.pending p)) (hjk : j < k) :
    pendingBefore slots j < pendingBefore slots k := by
  have hpre : slots.take (j + 1) <+: slots.take k := List.take_prefix_take_left (by omega)
  have hcount : (slots.take (j + 1)).countP MpcSig.isPending = pendingBefore slots j + 1 := by
    rw [List.take_add_one, hj, List.countP_append]
    rfl
  have hle := hpre.sublist.countP_le (p := MpcSig.isPending)
  unfold pendingBefore
  unfold pendingBefore at hcount
  omega

theorem pendingBefore_lt_count {b : SigningBatch} {j : Nat} {p : Presig}
    (hj : b.signatures[j]? = some (.pending p)) :
    pendingBefore b.signatures j < b.pendingCount := by
  have hlt : j < b.signatures.length := (List.getElem?_eq_some_iff.mp hj).1
  have h := pendingBefore_lt hj hlt
  rwa [pendingBefore, pendingBefore, List.take_length, ← pendingCount_eq] at h

theorem pendingBefore_inj {slots : List MpcSig} {j k : Nat} {p q : Presig}
    (hj : slots[j]? = some (.pending p)) (hk : slots[k]? = some (.pending q))
    (h : pendingBefore slots j = pendingBefore slots k) : j = k := by
  rcases Nat.lt_trichotomy j k with hlt | rfl | hlt
  · exact absurd (pendingBefore_lt hj hlt) (by omega)
  · rfl
  · exact absurd (pendingBefore_lt hk hlt) (by omega)

end SigningBatch

end HashiBridge.Core
