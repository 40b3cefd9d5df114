import HashiBridge.Node.TxExecutor

/-!
# A refused bucket does not block the others

The queue of chunks, concatenated, is what is left of the target list.
-/

namespace HashiBridge.Node

open Lib

/-! ## What was sent -/

namespace DestroyAttempt

def succeeded (attempt : DestroyAttempt) : Bool := attempt.outcome.toBool

def settled (attempt : DestroyAttempt) : Bool := attempt.succeeded || attempt.chunk.length ≤ 1

end DestroyAttempt

def destroyedChunks (attempts : List DestroyAttempt) : List (List TobPruneTarget) :=
  (attempts.filter DestroyAttempt.succeeded).map DestroyAttempt.chunk

/-- The targets in the order in which they were destroyed or given up. -/
def handledTargets (attempts : List DestroyAttempt) : List TobPruneTarget :=
  (attempts.filter DestroyAttempt.settled).flatMap DestroyAttempt.chunk

section

variable {σ : Type} {net : SuiNetwork σ} {callPackageId limit : Nat}
  {refused : TobPruneTarget → Prop} [DecidablePred refused]

/-- The chain fails to execute a chunk exactly when it has a refused target or more targets than fit
into one transaction. A target is refused by an abort in one of the modules of the buckets. -/
structure RefusesExactly (net : SuiNetwork σ) (callPackageId : Nat) (refused : TobPruneTarget → Prop)
    (limit : Nat) : Prop where
  limit_pos : 1 ≤ limit
  fails_iff : ∀ chain chunk version,
    (∃ e, (destroyTobChunk net callPackageId chain chunk version).1 = .error e) ↔
      (∃ target ∈ chunk, refused target) ∨ limit < chunk.length
  execution : ∀ chain chunk version e,
    (destroyTobChunk net callPackageId chain chunk version).1 = .error e → e.isExecutionFailure
  refusal : ∀ chain target version e,
    (destroyTobChunk net callPackageId chain [target] version).1 = .error e → e.isTobBucketAbort

structure WorksOff (refused : TobPruneTarget → Prop) [DecidablePred refused]
    (targets : List TobPruneTarget) (before after : DestroyLoop σ) : Prop where
  skipped : after.skipped = before.skipped ++ targets.filter (refused ·)
  handled : handledTargets after.attempts = handledTargets before.attempts ++ targets
  destroyed : (destroyedChunks after.attempts).flatten =
    (destroyedChunks before.attempts).flatten ++ targets.filter (¬ refused ·)

theorem WorksOff.refl (loop : DestroyLoop σ) : WorksOff refused [] loop loop :=
  ⟨by simp, by simp, by simp⟩

theorem WorksOff.trans {first second : List TobPruneTarget} {a b c : DestroyLoop σ}
    (hab : WorksOff refused first a b) (hbc : WorksOff refused second b c) :
    WorksOff refused (first ++ second) a c where
  skipped := by rw [hbc.skipped, hab.skipped, List.filter_append, List.append_assoc]
  handled := by rw [hbc.handled, hab.handled, List.append_assoc]
  destroyed := by rw [hbc.destroyed, hab.destroyed, List.filter_append, List.append_assoc]

/-! ## One transaction -/

variable (loop : DestroyLoop σ) (chain : σ) {chunk : List TobPruneTarget}

theorem worksOff_success (h : ∀ target ∈ chunk, ¬ refused target) :
    WorksOff refused chunk loop
      { loop with chain := chain, attempts := loop.attempts ++ [⟨chunk, .ok ()⟩] } where
  skipped := by simpa [List.filter_eq_nil_iff] using h
  handled := by simp [handledTargets, DestroyAttempt.settled, DestroyAttempt.succeeded, Except.toBool]
  destroyed := by
    have hall : chunk.filter (¬ refused ·) = chunk := List.filter_eq_self.mpr (by simpa using h)
    rw [hall]
    simp [destroyedChunks, List.filter_cons, DestroyAttempt.succeeded, Except.toBool]

theorem worksOff_split (e : TxError) (h : 1 < chunk.length) :
    WorksOff refused [] loop
      { loop with chain := chain, attempts := loop.attempts ++ [⟨chunk, .error e⟩] } where
  skipped := by simp
  handled := by
    simp [handledTargets, DestroyAttempt.settled, DestroyAttempt.succeeded, Except.toBool, h]
  destroyed := by simp [destroyedChunks, DestroyAttempt.succeeded, Except.toBool]

theorem worksOff_skip (e : TxError) {target : TobPruneTarget} (h : refused target) :
    WorksOff refused [target] loop
      { loop with
        chain := chain
        attempts := loop.attempts ++ [⟨[target], .error e⟩]
        skipped := loop.skipped ++ [target] } where
  skipped := by simp [h]
  handled := by simp [handledTargets, DestroyAttempt.settled, DestroyAttempt.succeeded, Except.toBool]
  destroyed := by simp [destroyedChunks, DestroyAttempt.succeeded, Except.toBool, h]

/-! ## The queue -/

omit [DecidablePred refused] in
theorem RefusesExactly.single (h : RefusesExactly net callPackageId refused limit) {version : Nat}
    {e : TxError} {chain' : σ}
    (hfail : destroyTobChunk net callPackageId chain chunk version = (.error e, chain'))
    (hwhole : ¬ (1 < chunk.length ∧ e.isExecutionFailure)) :
    ∃ target, chunk = [target] ∧ refused target ∧ e.isTobBucketAbort := by
  have herror : (destroyTobChunk net callPackageId chain chunk version).1 = .error e := by rw [hfail]
  have hshort : chunk.length ≤ 1 :=
    Nat.le_of_not_lt fun hlong => hwhole ⟨hlong, h.execution _ _ _ _ herror⟩
  have hlimit := h.limit_pos
  rcases (h.fails_iff _ _ _).mp ⟨e, herror⟩ with ⟨target, hmem, hrefused⟩ | hlong
  · obtain rfl : chunk = [target] := by
      obtain ⟨only, rfl⟩ := List.length_eq_one_iff.mp
        (Nat.le_antisymm hshort (List.length_pos_of_mem hmem))
      rw [List.mem_singleton.mp hmem]
    exact ⟨target, rfl, hrefused, h.refusal _ _ _ _ herror⟩
  · omega

theorem destroyQueue_worksOff (h : RefusesExactly net callPackageId refused limit) (version : Nat)
    (queue : List (List TobPruneTarget)) :
    (destroyQueue net callPackageId version loop queue).1 = .ok () ∧
      WorksOff refused queue.flatten loop
        (destroyQueue net callPackageId version loop queue).2 := by
  fun_induction destroyQueue net callPackageId version loop queue with
  | case1 loop => exact ⟨rfl, .refl loop⟩
  | case2 loop chunk queue chain hsent after ih =>
      have hclean : ∀ target ∈ chunk, ¬ refused target := by
        intro target hmem hrefused
        obtain ⟨e, he⟩ := (h.fails_iff loop.chain chunk version).mpr (.inl ⟨target, hmem, hrefused⟩)
        rw [hsent] at he
        cases he
      exact ⟨ih.1, (worksOff_success loop chain hclean).trans ih.2⟩
  | case3 loop chunk queue chain e hhalves mid hsent after ih =>
      refine ⟨ih.1, ?_⟩
      have hjoin : (chunk.take mid :: chunk.drop mid :: queue).flatten = (chunk :: queue).flatten := by
        rw [List.flatten_cons, List.flatten_cons, ← List.append_assoc, List.take_append_drop,
          List.flatten_cons]
      rw [← hjoin]
      exact (worksOff_split loop chain e hhalves.1).trans ih.2
  | case4 loop chunk queue chain e hwhole habort hsent after ih =>
      obtain ⟨target, rfl, hrefused, -⟩ := h.single loop.chain hsent hwhole
      exact ⟨ih.1, (worksOff_skip loop chain e hrefused).trans ih.2⟩
  | case5 loop chunk queue chain e hwhole hother hsent after =>
      obtain ⟨target, -, -, habort⟩ := h.single loop.chain hsent hwhole
      exact absurd habort hother

theorem countP_mem_of_count_flatten_eq_one {target : TobPruneTarget}
    {groups : List (List TobPruneTarget)} (h : groups.flatten.count target = 1) :
    groups.countP (target ∈ ·) = 1 := by
  induction groups with
  | nil => simp at h
  | cons group groups ih =>
      rw [List.flatten_cons, List.count_append] at h
      rw [List.countP_cons]
      by_cases hmem : target ∈ group
      · have hpos := List.count_pos_iff.mpr hmem
        have hrest : groups.flatten.count target = 0 := by omega
        have hnone : groups.countP (target ∈ ·) = 0 := by
          simpa [List.countP_eq_zero, List.count_eq_zero] using hrest
        simp [hmem, hnone]
      · rw [List.count_eq_zero_of_not_mem hmem, Nat.zero_add] at h
        simp [hmem, ih h]

/-- The targets are worked off in list order: the refused ones are skipped and returned, and every
other one is destroyed by exactly one transaction that went through. -/
theorem executeDestroyTobCerts_destroys_all_but_refused
    (h : RefusesExactly net callPackageId refused limit) (chain : σ) (version : Nat)
    (hversion : net.initialSharedVersion chain = .ok version) (targets : List TobPruneTarget) :
    (executeDestroyTobCerts net callPackageId chain targets).1 = .ok (targets.filter (refused ·)) ∧
    let attempts := (executeDestroyTobCerts net callPackageId chain targets).2.attempts
    handledTargets attempts = targets ∧
    (destroyedChunks attempts).flatten = targets.filter (¬ refused ·) ∧
    ∀ target, ¬ refused target → targets.count target = 1 →
      (destroyedChunks attempts).countP (target ∈ ·) = 1 := by
  obtain ⟨hok, hworks⟩ :=
    destroyQueue_worksOff ⟨chain, [], []⟩ h version (chunks TOB_DESTROYS_PER_TX targets)
  rw [chunks_flatten (by decide)] at hworks
  unfold executeDestroyTobCerts
  rw [hversion]
  dsimp only
  rw [hok]
  have hdestroyed := hworks.destroyed
  refine ⟨?_, hworks.handled, hdestroyed, ?_⟩
  · rw [hworks.skipped]
    rfl
  · intro target hkept honce
    refine countP_mem_of_count_flatten_eq_one ?_
    rw [hdestroyed]
    simpa [List.count_filter, hkept, destroyedChunks] using honce

end

namespace Sample

/-- A chain that refuses to destroy nonce buckets and takes two calls in a transaction. -/
def pickyNetwork : SuiNetwork Unit where
  initialSharedVersion _ := .ok 1
  execute chain calls :=
    if (∃ call ∈ calls, call.function = "destroy_nonce_certs") ∨ 2 < calls.length then
      (.ok (.failure (some ⟨some .moveAbort, some "tob"⟩)), chain)
    else (.ok .success, chain)

def IsNonceBatch : TobPruneTarget → Prop
  | .keyGen _ => False
  | .nonceBatch .. => True

instance : DecidablePred IsNonceBatch
  | .keyGen _ => isFalse id
  | .nonceBatch .. => isTrue trivial

theorem destroyTobChunk_pickyNetwork (chain : Unit) (chunk : List TobPruneTarget) (version : Nat) :
    (destroyTobChunk pickyNetwork 0 chain chunk version).1 =
      if (∃ target ∈ chunk, IsNonceBatch target) ∨ 2 < chunk.length then
        .error (.executed "destroy_tob_certs" (some ⟨some .moveAbort, some "tob"⟩))
      else .ok () := by
  have hfunction : ∀ target : TobPruneTarget,
      (target.call 0 version).function = "destroy_nonce_certs" ↔ IsNonceBatch target := by
    intro target
    cases target <;> simp [TobPruneTarget.call, IsNonceBatch]
  simp only [destroyTobChunk, pickyNetwork, List.mem_map, exists_exists_and_eq_and, hfunction,
    List.length_map]
  split_ifs <;> rfl

theorem pickyNetwork_refuses : RefusesExactly pickyNetwork 0 IsNonceBatch 2 where
  limit_pos := by decide
  fails_iff chain chunk version := by
    rw [destroyTobChunk_pickyNetwork]
    split_ifs with hfails <;> simp [hfails]
  execution chain chunk version e := by
    rw [destroyTobChunk_pickyNetwork]
    split_ifs
    · rintro ⟨⟩
      rfl
    · simp
  refusal chain target version e := by
    rw [destroyTobChunk_pickyNetwork]
    split_ifs
    · rintro ⟨⟩
      decide
    · simp

end Sample

theorem executeDestroyTobCerts_around_nonceBatch :
    (executeDestroyTobCerts Sample.pickyNetwork 0 ()
      [.keyGen 1, .nonceBatch 2 0, .keyGen 3]).1 = .ok [.nonceBatch 2 0] :=
  (executeDestroyTobCerts_destroys_all_but_refused Sample.pickyNetwork_refuses () 1 rfl
    [.keyGen 1, .nonceBatch 2 0, .keyGen 3]).1

end HashiBridge.Node
