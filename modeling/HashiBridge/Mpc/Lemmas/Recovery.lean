import HashiBridge.Mpc.Lemmas.Signing
import HashiBridge.Mpc.Recovery

/-!
# What the recovery walk finds

The walk lays the batches end to end and stops at the one that holds the cursor, or right at the
cursor where the next batch has no size yet. The retained batches are a suffix of those walked.
-/

namespace HashiBridge.Mpc

open Lib HashiBridge.Core Btc

/-! ## Pending indices -/

theorem addPending_eq_ok {numConsumed : Nat} {pending pending' : Finset Nat} {signature : MpcSig}
    (h : addPending numConsumed pending signature = .ok pending') (p : Nat) :
    (p ∈ pending' ↔ p ∈ pending ∨ signature = .pending ⟨p⟩) ∧
      (signature = .pending ⟨p⟩ → p < numConsumed) := by
  unfold addPending at h
  split at h
  · cases h
    simp
  next presig =>
    simp only [bind_eq_ok, require_eq_ok, pure_eq_ok] at h
    obtain ⟨_, hlt, _, _, rfl⟩ := h
    obtain ⟨index⟩ := presig
    simp only [Finset.mem_insert, MpcSig.pending.injEq, Core.Presig.mk.injEq]
    refine ⟨by tauto, ?_⟩
    rintro rfl
    exact hlt

theorem addPending_loop {numConsumed : Nat} {signatures : List MpcSig}
    {pending pending' : Finset Nat}
    (h : signatures.foldlM (addPending numConsumed) pending = .ok pending') (p : Nat) :
    (p ∈ pending' ↔ p ∈ pending ∨ MpcSig.pending ⟨p⟩ ∈ signatures) ∧
      (MpcSig.pending ⟨p⟩ ∈ signatures → p < numConsumed) := by
  induction signatures generalizing pending with
  | nil =>
      cases foldlM_nil_eq_ok.mp h
      simp
  | cons signature signatures ih =>
      obtain ⟨mid, hmid, hrest⟩ := foldlM_cons_eq_ok.mp h
      obtain ⟨hmem, hlt⟩ := addPending_eq_ok hmid p
      obtain ⟨hmem', hlt'⟩ := ih hrest
      rw [hmem', hmem, List.mem_cons, or_assoc, @eq_comm _ signature]
      refine ⟨Iff.rfl, ?_⟩
      rintro (hp | hp)
      · exact hlt hp.symm
      · exact hlt' hp

theorem collectPending_eq_ok {epoch numConsumed : Nat} {txns : List WithdrawalTransaction}
    {pending : Finset Nat} (h : collectPending epoch numConsumed txns = .ok pending) (p : Nat) :
    (p ∈ pending ↔ ∃ txn ∈ txns, txn.signing.epoch = epoch ∧
      MpcSig.pending ⟨p⟩ ∈ txn.signing.signatures) ∧ (p ∈ pending → p < numConsumed) := by
  unfold collectPending at h
  suffices hloop : ∀ (txns : List WithdrawalTransaction) (start : Finset Nat),
      txns.foldlM (fun pending txn => if txn.signing.epoch ≠ epoch then .ok pending
        else txn.signing.signatures.foldlM (addPending numConsumed) pending) start = .ok pending →
      (p ∈ pending ↔ p ∈ start ∨ ∃ txn ∈ txns, txn.signing.epoch = epoch ∧
        MpcSig.pending ⟨p⟩ ∈ txn.signing.signatures) ∧
      (p ∈ pending → p ∈ start ∨ p < numConsumed) by
    obtain ⟨hmem, hlt⟩ := hloop txns ∅ h
    exact ⟨by simpa using hmem, fun hp => by simpa using hlt hp⟩
  clear h txns
  intro txns
  induction txns with
  | nil =>
      intro start h
      cases foldlM_nil_eq_ok.mp h
      simpa using Or.inl
  | cons txn txns ih =>
      intro start h
      obtain ⟨mid, hmid, hrest⟩ := foldlM_cons_eq_ok.mp h
      obtain ⟨hmem, hlt⟩ := ih mid hrest
      split_ifs at hmid with hepoch
      · cases hmid
        rw [hmem]
        simp only [List.exists_mem_cons_iff, hepoch, false_and, false_or, true_and]
        exact fun hp => hlt (hmem.mpr hp)
      · obtain ⟨hmid_mem, hmid_lt⟩ := addPending_loop hmid p
        simp only [ne_eq, not_not] at hepoch
        rw [hmem, hmid_mem]
        simp only [List.exists_mem_cons_iff, hepoch, true_and, or_assoc]
        rintro (hp | hp | hp)
        · exact .inl hp
        · exact .inr (hmid_lt hp)
        · obtain hp | hp := hlt (hmem.mpr (.inr hp))
          · obtain hp | hp := hmid_mem.mp hp
            · exact .inl hp
            · exact .inr (hmid_lt hp)
          · exact .inr hp

/-! ## The walk -/

def knownSize (size : Nat → Option Nat) (k : Nat) : Nat := (size k).getD 0

def boundaryAt (size : Nat → Option Nat) (k : Nat) : Boundary :=
  ⟨k, offset (knownSize size) k, knownSize size k⟩

/-- A walk to batch `k`: all batches before it have a size, and it ends at the cursor. -/
structure EndsAt (size : Nat → Option Nat) (numConsumed start k : Nat) : Prop where
  sized : ∀ i, start ≤ i → i < k → (size i).isSome
  holds_cursor : (start < k ∧ offset (knownSize size) (k - 1) ≤ numConsumed ∧
      numConsumed < offset (knownSize size) k) ∨
    numConsumed = offset (knownSize size) k ∧ size k = none

/-- Batch `k` is the first without a size, and starts below the cursor. -/
structure FirstMissing (size : Nat → Option Nat) (numConsumed start k : Nat) : Prop where
  sized : ∀ i, start ≤ i → i < k → (size i).isSome
  missing : size k = none
  below : offset (knownSize size) k < numConsumed

section Walk

variable {query : Nat → Except String (Option Nat)} {size : Nat → Option Nat}
  {numConsumed fuel k : Nat}

theorem knownSize_of_some {n : Nat} (h : size k = some n) : knownSize size k = n := by
  simp [knownSize, h]

theorem walk_succ (query : Nat → Except String (Option Nat)) (numConsumed fuel k start : Nat) :
    walk query numConsumed (fuel + 1) k start =
      (query k).mapError .failed >>= fun size =>
        match walkStep size start numConsumed with
        | .missing => .ok (.missing k start)
        | .stop => .ok (.boundaries [])
        | .last size => .ok (.boundaries [⟨k, start, size⟩])
        | .continueWith size =>
            walk query numConsumed fuel (k + 1) (start + size) >>= fun
              | .missing k' start' => .ok (.missing k' start')
              | .boundaries rest => .ok (.boundaries (⟨k, start, size⟩ :: rest)) := rfl

variable (hfixed : ∀ k r, query k = .ok r → r = size k)

include hfixed

theorem walk_cases (hle : offset (knownSize size) k ≤ numConsumed) {result : Walked}
    (h : walk query numConsumed (fuel + 1) k (offset (knownSize size) k) = .ok result) :
    (size k = none ∧ offset (knownSize size) k < numConsumed ∧
      result = .missing k (offset (knownSize size) k)) ∨
    (size k = none ∧ numConsumed = offset (knownSize size) k ∧ result = .boundaries []) ∨
    ((size k).isSome ∧ numConsumed < offset (knownSize size) (k + 1) ∧
      result = .boundaries [boundaryAt size k]) ∨
    ((size k).isSome ∧ offset (knownSize size) (k + 1) ≤ numConsumed ∧ ∃ rest,
      walk query numConsumed fuel (k + 1) (offset (knownSize size) (k + 1)) = .ok rest ∧
        result = match rest with
          | .missing k' start' => .missing k' start'
          | .boundaries rest => .boundaries (boundaryAt size k :: rest)) := by
  rw [walk_succ] at h
  simp only [bind_eq_ok, mapError_eq_ok] at h
  obtain ⟨answer, hanswer, h⟩ := h
  obtain rfl := hfixed k answer hanswer
  cases hsize : size k with
  | none =>
      rw [hsize, walkStep] at h
      split_ifs at h with hbelow
      · cases h
        exact .inl ⟨rfl, hbelow, rfl⟩
      · cases h
        exact .inr (.inl ⟨rfl, by omega, rfl⟩)
  | some n =>
      have hknown := knownSize_of_some hsize
      have hsucc : offset (knownSize size) (k + 1) = offset (knownSize size) k + n := by
        rw [offset_succ, hknown]
      have hboundary : boundaryAt size k = ⟨k, offset (knownSize size) k, n⟩ := by
        rw [boundaryAt, hknown]
      rw [hsize, walkStep] at h
      rw [hsucc, hboundary]
      split_ifs at h with hholds
      · cases h
        exact .inr (.inr (.inl ⟨rfl, hholds, rfl⟩))
      · simp only [bind_eq_ok] at h
        obtain ⟨rest, hrest, h⟩ := h
        refine .inr (.inr (.inr ⟨rfl, by omega, rest, hrest, ?_⟩))
        cases rest <;> cases h <;> rfl

theorem walk_boundaries (hle : offset (knownSize size) k ≤ numConsumed) {boundaries : List Boundary}
    (h : walk query numConsumed fuel k (offset (knownSize size) k) = .ok (.boundaries boundaries)) :
    ∃ n, boundaries = (List.range' k n).map (boundaryAt size) ∧
      EndsAt size numConsumed k (k + n) := by
  induction fuel generalizing k boundaries with
  | zero => cases h
  | succ fuel ih =>
      obtain ⟨-, -, hr⟩ | ⟨hnone, hcursor, hr⟩ | ⟨hsome, hholds, hr⟩ | ⟨hsome, hbefore, rest, hrest, hr⟩ :=
        walk_cases hfixed hle h
      · cases hr
      · cases hr
        exact ⟨0, rfl, by intros; omega, .inr ⟨hcursor, hnone⟩⟩
      · cases hr
        refine ⟨1, rfl, fun i hi hlt => ?_, .inl ⟨by omega, by simpa using hle, hholds⟩⟩
        obtain rfl : i = k := by omega
        exact hsome
      · cases rest with
        | missing => cases hr
        | boundaries rest =>
            cases hr
            obtain ⟨n, rfl, hends⟩ := ih hbefore hrest
            have hnext : k + (n + 1) = k + 1 + n := by omega
            refine ⟨n + 1, rfl, fun i hi hlt => ?_, ?_⟩
            · rcases Nat.eq_or_lt_of_le hi with rfl | hi
              · exact hsome
              · exact hends.sized i hi (by omega)
            · rw [hnext]
              obtain ⟨-, hbounds⟩ | hstop := hends.holds_cursor
              · exact .inl ⟨by omega, hbounds⟩
              · exact .inr hstop

theorem walk_missing (hle : offset (knownSize size) k ≤ numConsumed) {k' start' : Nat}
    (h : walk query numConsumed fuel k (offset (knownSize size) k) = .ok (.missing k' start')) :
    start' = offset (knownSize size) k' ∧ FirstMissing size numConsumed k k' := by
  induction fuel generalizing k with
  | zero => cases h
  | succ fuel ih =>
      obtain ⟨hnone, hbelow, hr⟩ | ⟨-, -, hr⟩ | ⟨-, -, hr⟩ | ⟨hsome, hbefore, rest, hrest, hr⟩ :=
        walk_cases hfixed hle h
      · cases hr
        exact ⟨rfl, by intros; omega, hnone, hbelow⟩
      · cases hr
      · cases hr
      · cases rest with
        | boundaries => cases hr
        | missing =>
            cases hr
            obtain ⟨hstart, hfirst⟩ := ih hbefore hrest
            refine ⟨hstart, fun i hi hlt => ?_, hfirst.missing, hfirst.below⟩
            rcases Nat.eq_or_lt_of_le hi with rfl | hi
            · exact hsome
            · exact hfirst.sized i hi hlt

theorem walk_terminates
    (hpos : ∀ k n, size k = some n → 0 < n) {start : Nat} (hle : start ≤ numConsumed)
    (hfuel : numConsumed < start + fuel) :
    walk query numConsumed fuel k start ≠ .error .diverges := by
  induction fuel generalizing k start with
  | zero => omega
  | succ fuel ih =>
      rw [walk_succ]
      cases hanswer : query k with
      | error e => nofun
      | ok answer =>
          obtain rfl := hfixed k answer hanswer
          change (match walkStep (size k) start numConsumed with
            | .missing => _ | .stop => _ | .last size => _ | .continueWith size => _) ≠ _
          cases hsize : size k with
          | none =>
              rw [walkStep]
              split_ifs <;> nofun
          | some n =>
              rw [walkStep]
              split_ifs with hholds
              · nofun
              · have hn := hpos k n hsize
                have hrest := @ih (k + 1) (start + n) (by omega) (by omega)
                dsimp only
                cases hwalk : walk query numConsumed fuel (k + 1) (start + n) with
                | error e =>
                    rw [hwalk] at hrest
                    exact hrest
                | ok rest => cases rest <;> nofun

theorem walk_of_firstMissing
    (hpos : ∀ k n, size k = some n → 0 < n) {k' : Nat} (hquery : ∀ i ≤ k', ∃ r, query i = .ok r)
    (hmissing : FirstMissing size numConsumed k k') (hk : k ≤ k')
    (hfuel : numConsumed < offset (knownSize size) k + fuel) :
    walk query numConsumed fuel k (offset (knownSize size) k) =
      .ok (.missing k' (offset (knownSize size) k')) := by
  induction fuel generalizing k with
  | zero =>
      have hle : offset (knownSize size) k ≤ offset (knownSize size) k' := offset_mono hk
      have := hmissing.below
      omega
  | succ fuel ih =>
      obtain ⟨answer, hanswer⟩ := hquery k hk
      obtain rfl := hfixed k answer hanswer
      rw [walk_succ, hanswer]
      change (match walkStep (size k) _ numConsumed with
        | .missing => _ | .stop => _ | .last size => _ | .continueWith size => _) = _
      rcases Nat.eq_or_lt_of_le hk with rfl | hlt
      · rw [hmissing.missing, walkStep, if_pos hmissing.below]
      · obtain ⟨n, hn⟩ := Option.isSome_iff_exists.mp (hmissing.sized k le_rfl hlt)
        have hsucc : offset (knownSize size) k + n = offset (knownSize size) (k + 1) := by
          rw [offset_succ, knownSize_of_some hn]
        have hnext : offset (knownSize size) (k + 1) ≤ offset (knownSize size) k' := offset_mono hlt
        have hbelow := hmissing.below
        have hpositive := hpos k n hn
        rw [hn, walkStep, if_neg (by omega)]
        dsimp only
        have hrest := ih (k := k + 1)
          ⟨fun i hi => hmissing.sized i (by omega), hmissing.missing, hbelow⟩ hlt (by omega)
        rw [hsucc, hrest]
        rfl

end Walk

/-! ## The retained batches -/

namespace RecoveryEnv

variable {S G : Type} {env : RecoveryEnv S G} {size : Nat → Option Nat} {pending : Finset Nat}
  {n : Nat}

theorem firstPending_lt (hn : n ≠ 0) :
    firstPending ((List.range' 0 n).map (boundaryAt size)) pending < n := by
  unfold firstPending
  cases hfind : ((List.range' 0 n).map (boundaryAt size)).findIdx? fun b =>
      decide (∃ p ∈ pending, b.start ≤ p ∧ p < b.start + b.size) with
  | none => simpa using Nat.sub_one_lt hn
  | some i =>
      obtain ⟨hi, -⟩ := List.findIdx?_eq_some_iff_getElem.mp hfind
      simpa using hi

theorem firstPending_le {i p : Nat} (hi : i < n) (hp : p ∈ pending)
    (hle : offset (knownSize size) i ≤ p)
    (hlt : p < offset (knownSize size) i + knownSize size i) :
    firstPending ((List.range' 0 n).map (boundaryAt size)) pending ≤ i := by
  have hget : ((List.range' 0 n).map (boundaryAt size))[i]? = some (boundaryAt size i) := by
    simp [hi]
  unfold firstPending
  cases hfind : ((List.range' 0 n).map (boundaryAt size)).findIdx? fun b =>
      decide (∃ p ∈ pending, b.start ≤ p ∧ p < b.start + b.size) with
  | none =>
      have hnone := List.findIdx?_eq_none_iff.mp hfind _ (List.mem_of_getElem? hget)
      simp only [decide_eq_false_iff_not] at hnone
      exact absurd ⟨p, hp, hle, hlt⟩ hnone
  | some j =>
      obtain ⟨hj, -, hbefore⟩ := List.findIdx?_eq_some_iff_getElem.mp hfind
      refine Nat.le_of_not_lt fun hij => ?_
      have hnone := hbefore i hij
      simp only [List.getElem_map, List.getElem_range', decide_eq_true_eq] at hnone
      exact hnone ⟨p, hp, by simpa [boundaryAt] using hle, by simpa [boundaryAt] using hlt⟩

theorem retain_eq_ok {b : Boundary} {r : RetainedBatch S G} (h : env.retain b = .ok r) :
    r.batchIndex = b.batchIndex ∧ r.startIndex = b.start ∧ r.presignatures.length = b.size := by
  simp only [retain, bind_eq_ok, require_eq_ok, pure_eq_ok, Prod.exists] at h
  obtain ⟨presigs, digest, -, -, hlength, rfl⟩ := h
  exact ⟨rfl, rfl, hlength⟩

structure IsRecovered (env : RecoveryEnv S G) (size : Nat → Option Nat) (pending : Finset Nat)
    (k : Nat) (b : PresigBatch S G) : Prop where
  batchIndex_eq : b.batchIndex = k
  startIndex_eq : b.startIndex = offset (knownSize size) k
  length_eq : b.pool.length = knownSize size k
  available_iff : ∀ i < b.pool.length, (∃ presig, b.pool[i]? = some (some presig)) ↔
    b.startIndex + i ∈ pending ∨ env.numConsumed ≤ b.startIndex + i

theorem isRecovered_of_retain {k : Nat} {r : RetainedBatch S G}
    (h : env.retain (boundaryAt size k) = .ok r) :
    IsRecovered env size pending k (SigningManager.recoverBatch env.numConsumed pending r) := by
  obtain ⟨hnumber, hstart, hlength⟩ := retain_eq_ok h
  refine ⟨hnumber, hstart, ?_, fun i hi => ?_⟩
  · simpa [SigningManager.recoverBatch, boundaryAt] using hlength
  have hi' : i < r.presignatures.length := by simpa [SigningManager.recoverBatch] using hi
  simp only [SigningManager.recoverBatch, List.getElem?_map, List.getElem?_zipIdx,
    List.getElem?_eq_getElem hi', Option.map_some, Option.some.injEq]
  simp only [SigningManager.enabled, Nat.zero_add, Bool.or_eq_true, decide_eq_true_eq]
  split_ifs with henabled
  · exact ⟨fun _ => henabled.symm, fun _ => ⟨_, rfl⟩⟩
  · constructor
    · rintro ⟨_, hsome⟩
      cases hsome
    · intro h
      exact absurd h.symm henabled

theorem install_eq_ok {manager : SigningManager S G}
    (h : env.install pending ((List.range' 0 n).map (boundaryAt size)) = .ok manager) :
    n ≠ 0 ∧ manager.nextBatch = none ∧ env.laterCursor ≤ offset (knownSize size) n ∧
      firstPending ((List.range' 0 n).map (boundaryAt size)) pending + manager.batches.length = n ∧
      ∀ {j b}, manager.batches[j]? = some b → IsRecovered env size pending
        (firstPending ((List.range' 0 n).map (boundaryAt size)) pending + j) b := by
  simp only [install, bind_eq_ok, require_eq_ok, SigningManager.newRecovered, pure_eq_ok] at h
  obtain ⟨_, hne, retained, hretained, _, _, _, hcursor, _, _, _, _, rfl⟩ := h
  have hn : n ≠ 0 := by
    rintro rfl
    exact hne rfl
  have hforall := mapM_eq_ok.mp hretained
  have hlt : firstPending ((List.range' 0 n).map (boundaryAt size)) pending < n :=
    firstPending_lt hn
  set k := firstPending ((List.range' 0 n).map (boundaryAt size)) pending
  have hend : recoveredEnd ((List.range' 0 n).map (boundaryAt size)) =
      offset (knownSize size) n := by
    obtain ⟨m, rfl⟩ := Nat.exists_eq_succ_of_ne_zero hn
    rw [recoveredEnd, List.getLast?_map, List.getLast?_range', if_neg hn]
    simp [boundaryAt, offset_succ]
  have hlength : retained.length = n - k := by
    simpa using hforall.length_eq.symm
  refine ⟨hn, rfl, hend ▸ hcursor, ?_, fun {j b} hb => ?_⟩
  · rw [List.length_map, hlength]
    omega
  · simp only [List.getElem?_map, Option.map_eq_some_iff] at hb
    obtain ⟨r, hr, rfl⟩ := hb
    have hj : j < n - k := hlength ▸ (List.getElem?_eq_some_iff.mp hr).1
    have hboundary : (((List.range' 0 n).map (boundaryAt size)).drop k)[j]? =
        some (boundaryAt size (k + j)) := by
      rw [List.getElem?_drop, List.getElem?_map, List.getElem?_range' (by omega)]
      simp
    obtain ⟨hx, hxeq⟩ := List.getElem?_eq_some_iff.mp hboundary
    obtain ⟨hy, hyeq⟩ := List.getElem?_eq_some_iff.mp hr
    have hretain := hforall.get hx hy
    rw [List.get_eq_getElem, List.get_eq_getElem, hxeq, hyeq] at hretain
    exact isRecovered_of_retain hretain

end RecoveryEnv

end HashiBridge.Mpc
