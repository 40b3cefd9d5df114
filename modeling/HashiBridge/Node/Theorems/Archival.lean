import HashiBridge.Chain.Theorems.Lifecycle
import HashiBridge.Node.Archival

/-!
# Archival planning

The planner covers every withdrawal once, within the object budget, and its calls archive every
withdrawal when they are executed in order.
-/

namespace HashiBridge.Node

open Lib HashiBridge.Core Btc Chain

variable {victims done : List ArchiveVictim} {victim : ArchiveVictim} {calls new : List ArchiveCall}
  {plan : ArchivePlan}

/-! ## Reading a plan -/

namespace ArchiveCall

def atomicIds : ArchiveCall → List Address
  | atomic txnIds => txnIds
  | _ => []

def finishIds : ArchiveCall → List Address
  | finish txnIds => txnIds
  | _ => []

def chunksOf (txnId : Address) : ArchiveCall → List (List Address)
  | requests id requestIds => if id = txnId then [requestIds] else []
  | _ => []

def Nonempty : ArchiveCall → Prop
  | atomic txnIds => txnIds ≠ []
  | requests _ requestIds => requestIds ≠ []
  | finish txnIds => txnIds ≠ []

end ArchiveCall

open ArchiveCall (atomicIds finishIds chunksOf)

def requestCount (victims : List ArchiveVictim) (txnId : Address) : Nat :=
  ((victims.find? fun v => v.txnId = txnId).map fun v => v.requestIds.length).getD 0

def ArchiveCall.cost (victims : List ArchiveVictim) : ArchiveCall → Nat
  | .atomic txnIds => (txnIds.map fun id => archiveCost (requestCount victims id)).sum
  | .requests _ requestIds => archiveCost requestIds.length
  | .finish txnIds => (txnIds.map fun id => finishCost (requestCount victims id)).sum

/-- The calls archive the transaction once: in one atomic call, or by chunks that add up to its
requests and one finish after them. -/
def ArchivesOnce (calls : List ArchiveCall) (victim : ArchiveVictim) : Prop :=
  ((calls.flatMap atomicIds).count victim.txnId = 1 ∧
    calls.flatMap (chunksOf victim.txnId) = [] ∧ victim.txnId ∉ calls.flatMap finishIds) ∨
  (victim.txnId ∉ calls.flatMap atomicIds ∧ (calls.flatMap finishIds).count victim.txnId = 1 ∧
    ∃ before txnIds after, calls = before ++ .finish txnIds :: after ∧ victim.txnId ∈ txnIds ∧
      (before.flatMap (chunksOf victim.txnId)).flatten = victim.requestIds ∧
      after.flatMap (chunksOf victim.txnId) = [])

def ArchiveCall.Names (victims : List ArchiveVictim) : ArchiveCall → Prop
  | .atomic txnIds => ∀ id ∈ txnIds, ∃ v ∈ victims, v.txnId = id
  | .requests txnId requestIds => ∃ v ∈ victims, v.txnId = txnId ∧ ∀ r ∈ requestIds, r ∈ v.requestIds
  | .finish txnIds => ∀ id ∈ txnIds, ∃ v ∈ victims, v.txnId = id

/-! ## The order of the calls -/

/-- Each finish comes after the whole of the requests of the transactions it names. -/
def Ordered (victims : List ArchiveVictim) (calls : List ArchiveCall) : Prop :=
  ∀ before txnIds, before ++ [.finish txnIds] <+: calls → ∀ v ∈ victims, v.txnId ∈ txnIds →
    (before.flatMap (chunksOf v.txnId)).flatten = v.requestIds

theorem Ordered.append (h : Ordered victims calls)
    (hnew : ∀ before txnIds, before ++ [.finish txnIds] <+: new → ∀ v ∈ victims, v.txnId ∈ txnIds →
      ((calls ++ before).flatMap (chunksOf v.txnId)).flatten = v.requestIds) :
    Ordered victims (calls ++ new) := by
  induction new using List.reverseRecOn with
  | nil => simpa using h
  | append_singleton new call ih =>
      intro before txnIds hbefore
      rw [← List.append_assoc, List.prefix_concat_iff] at hbefore
      rcases hbefore with heq | hbefore
      · obtain ⟨rfl, hcall⟩ := List.append_inj' heq rfl
        exact hnew new txnIds (by rw [hcall])
      · exact ih (fun before txnIds hb => hnew before txnIds (hb.trans (List.prefix_append _ _)))
          before txnIds hbefore

theorem mem_of_starts {before : List ArchiveCall} {call : ArchiveCall}
    (h : before ++ [call] <+: new) : call ∈ new :=
  h.subset (by simp)

theorem Ordered.append_other (h : Ordered victims calls)
    (hnew : ∀ txnIds, ArchiveCall.finish txnIds ∉ new) : Ordered victims (calls ++ new) :=
  h.append fun _ txnIds hbefore => absurd (mem_of_starts hbefore) (hnew txnIds)

theorem Ordered.append_finish (h : Ordered victims calls) {batches : List (List Address)}
    (hnew : ∀ txnIds ∈ batches, ∀ v ∈ victims, v.txnId ∈ txnIds →
      (calls.flatMap (chunksOf v.txnId)).flatten = v.requestIds) :
    Ordered victims (calls ++ batches.map .finish) := by
  refine h.append fun before txnIds hbefore v hv hid => ?_
  have hnone : before.flatMap (chunksOf v.txnId) = [] := by
    rw [List.flatMap_eq_nil_iff]
    intro call hcall
    have hmem : call ∈ batches.map ArchiveCall.finish :=
      hbefore.subset (List.mem_append_left _ hcall)
    obtain ⟨ids, -, rfl⟩ := List.mem_map.mp hmem
    rfl
  obtain ⟨ids, hids, heq⟩ := List.mem_map.mp (mem_of_starts hbefore)
  cases heq
  rw [List.flatMap_append, hnone, List.append_nil]
  exact hnew _ hids v hv hid

/-! ## What the rounds add -/

@[simp] theorem atomicIds_atomic (batches : List (List Address)) :
    (batches.map ArchiveCall.atomic).flatMap atomicIds = batches.flatten := by
  simp [List.flatMap_map, atomicIds, List.flatMap_id']

@[simp] theorem finishIds_finish (batches : List (List Address)) :
    (batches.map ArchiveCall.finish).flatMap finishIds = batches.flatten := by
  simp [List.flatMap_map, finishIds, List.flatMap_id']

@[simp] theorem chunksOf_requests (txnId id : Address) (parts : List (List Address)) :
    (parts.map (ArchiveCall.requests id)).flatMap (chunksOf txnId) =
      if id = txnId then parts else [] := by
  split_ifs with h <;> simp [List.flatMap_map, chunksOf, h]

@[simp] theorem atomicIds_finish (batches : List (List Address)) :
    (batches.map ArchiveCall.finish).flatMap atomicIds = [] := by
  simp [atomicIds]

@[simp] theorem atomicIds_requests (id : Address) (parts : List (List Address)) :
    (parts.map (ArchiveCall.requests id)).flatMap atomicIds = [] := by
  simp [atomicIds]

@[simp] theorem finishIds_atomic (batches : List (List Address)) :
    (batches.map ArchiveCall.atomic).flatMap finishIds = [] := by
  simp [finishIds]

@[simp] theorem finishIds_requests (id : Address) (parts : List (List Address)) :
    (parts.map (ArchiveCall.requests id)).flatMap finishIds = [] := by
  simp [finishIds]

@[simp] theorem chunksOf_atomic (txnId : Address) (batches : List (List Address)) :
    (batches.map ArchiveCall.atomic).flatMap (chunksOf txnId) = [] := by
  simp [chunksOf]

@[simp] theorem chunksOf_finish (txnId : Address) (batches : List (List Address)) :
    (batches.map ArchiveCall.finish).flatMap (chunksOf txnId) = [] := by
  simp [chunksOf]

/-! ## The loop -/

abbrev Small (victim : ArchiveVictim) : Prop :=
  archiveCost victim.requestIds.length ≤ archiveBudget

def partsOf (txnId : Address) (victim : ArchiveVictim) : List (List Address) :=
  if Small victim then [] else
    if victim.txnId = txnId then chunks requestsPerChunk victim.requestIds else []

theorem flatMap_partsOf (hids : (done.map ArchiveVictim.txnId).Nodup) (hv : victim ∈ done) :
    done.flatMap (partsOf victim.txnId) = partsOf victim.txnId victim := by
  induction done with
  | nil => cases hv
  | cons v rest ih =>
      rw [List.map_cons, List.nodup_cons] at hids
      rw [List.flatMap_cons]
      rcases List.mem_cons.mp hv with rfl | hrest
      · have hnone : rest.flatMap (partsOf victim.txnId) = [] := by
          rw [List.flatMap_eq_nil_iff]
          intro v hv
          have hne : v.txnId ≠ victim.txnId := fun heq =>
            hids.1 (heq ▸ List.mem_map_of_mem hv)
          simp [partsOf, hne]
        rw [hnone, List.append_nil]
      · have hne : v.txnId ≠ victim.txnId := fun heq =>
          hids.1 (heq ▸ List.mem_map_of_mem hrest)
        rw [ih hids.2 hrest]
        simp [partsOf, hne]

theorem partsOf_flatten (hlarge : ¬Small victim) :
    (partsOf victim.txnId victim).flatten = victim.requestIds := by
  rw [partsOf, if_neg hlarge, if_pos rfl, chunks_flatten (by decide)]

theorem requestCount_of_mem (hids : (victims.map ArchiveVictim.txnId).Nodup)
    (hv : victim ∈ victims) : requestCount victims victim.txnId = victim.requestIds.length := by
  have hsome : (victims.find? fun v => v.txnId = victim.txnId).isSome := by
    rw [List.find?_isSome]
    exact ⟨victim, hv, by simp⟩
  obtain ⟨found, hfound⟩ := Option.isSome_iff_exists.mp hsome
  have hid := List.find?_some hfound
  have heq := List.inj_on_of_nodup_map hids (List.mem_of_find?_eq_some hfound) hv
    (of_decide_eq_true hid)
  rw [requestCount, hfound, heq, Option.map_some, Option.getD_some]

/-- What the calls and the open batches make of the victims seen so far. -/
structure PlanCovers (victims done : List ArchiveVictim) (calls : List ArchiveCall)
    (atomic finish : List Address) : Prop where
  atomic_eq : calls.flatMap atomicIds ++ atomic = (done.filter fun v => Small v).map (·.txnId)
  finish_eq : calls.flatMap finishIds ++ finish = (done.filter fun v => ¬Small v).map (·.txnId)
  chunks_eq : ∀ txnId, calls.flatMap (chunksOf txnId) = done.flatMap (partsOf txnId)
  ordered : Ordered victims calls
  sound : ∀ call ∈ calls, call.Nonempty ∧ call.cost victims ≤ archiveBudget

structure ArchivePlan.Inv (victims done : List ArchiveVictim) (plan : ArchivePlan) : Prop where
  planned : PlanCovers victims done plan.calls plan.atomic.batch plan.finish.batch
  atomic_fits : plan.atomic.Fits archiveBudget fun id => archiveCost (requestCount victims id)
  finish_fits : plan.finish.Fits archiveBudget fun id => finishCost (requestCount victims id)

theorem ArchivePlan.Inv.empty (victims : List ArchiveVictim) :
    ArchivePlan.empty.Inv victims [] where
  planned := {
    atomic_eq := rfl
    finish_eq := rfl
    chunks_eq := fun _ => rfl
    ordered := fun before txnIds h => by simp [ArchivePlan.empty] at h
    sound := fun _ h => by cases h }
  atomic_fits := .empty
  finish_fits := .empty

namespace PlanCovers

variable {atomic atomic' finish finish' : List Address} {batches : List (List Address)}
  (h : PlanCovers victims done calls atomic finish)

include h

theorem complete (hids : (victims.map ArchiveVictim.txnId).Nodup) (hsub : done <+: victims)
    {v : ArchiveVictim} (hv : v ∈ victims) (hfinish : v.txnId ∈ finish) :
    (calls.flatMap (chunksOf v.txnId)).flatten = v.requestIds := by
  have hmem : v.txnId ∈ (done.filter fun v => ¬Small v).map (·.txnId) := by
    rw [← h.finish_eq]
    exact List.mem_append_right _ hfinish
  obtain ⟨u, hu, hid⟩ := List.mem_map.mp hmem
  obtain ⟨hu, hlarge⟩ := List.mem_filter.mp hu
  obtain rfl := List.inj_on_of_nodup_map hids (hsub.subset hu) hv hid
  have hdone : (done.map ArchiveVictim.txnId).Nodup := hids.sublist (hsub.sublist.map _)
  rw [h.chunks_eq, flatMap_partsOf hdone hu, partsOf_flatten (of_decide_eq_true hlarge)]

theorem add_small (hsmall : Small victim) :
    PlanCovers victims (done ++ [victim]) calls (atomic ++ [victim.txnId]) finish where
  atomic_eq := by
    rw [← List.append_assoc, h.atomic_eq]
    simp [hsmall]
  finish_eq := by
    rw [h.finish_eq]
    simp [hsmall]
  chunks_eq txnId := by
    rw [h.chunks_eq]
    simp [partsOf, hsmall]
  ordered := h.ordered
  sound := h.sound

theorem add_large (hlarge : ¬Small victim) :
    PlanCovers victims (done ++ [victim])
      (calls ++ (chunks requestsPerChunk victim.requestIds).map (.requests victim.txnId))
      atomic (finish ++ [victim.txnId]) where
  atomic_eq := by
    rw [List.flatMap_append, atomicIds_requests, List.append_nil, h.atomic_eq]
    simp [hlarge]
  finish_eq := by
    rw [List.flatMap_append, finishIds_requests, List.append_nil, ← List.append_assoc, h.finish_eq]
    simp [Nat.lt_of_not_le hlarge]
  chunks_eq txnId := by
    rw [List.flatMap_append, chunksOf_requests, h.chunks_eq, List.flatMap_append]
    simp [partsOf, hlarge]
  ordered := h.ordered.append_other (by simp)
  sound := by
    refine List.forall_mem_append.mpr ⟨h.sound, List.forall_mem_map.mpr fun part hpart => ?_⟩
    have hlength : part.length ≤ 302 := length_of_mem_chunks hpart
    refine ⟨ne_nil_of_mem_chunks (by decide) hpart, ?_⟩
    change 3 + 3 * part.length ≤ 910
    omega

theorem close_atomic (hopen : batches.flatten ++ atomic' = atomic)
    (hsound : ∀ b ∈ batches, (ArchiveCall.atomic b).Nonempty ∧
      (ArchiveCall.atomic b).cost victims ≤ archiveBudget) :
    PlanCovers victims done (calls ++ batches.map .atomic) atomic' finish where
  atomic_eq := by
    rw [List.flatMap_append, atomicIds_atomic, List.append_assoc, hopen, h.atomic_eq]
  finish_eq := by
    rw [List.flatMap_append, finishIds_atomic, List.append_nil, h.finish_eq]
  chunks_eq txnId := by
    rw [List.flatMap_append, chunksOf_atomic, List.append_nil, h.chunks_eq]
  ordered := h.ordered.append_other (by simp)
  sound := List.forall_mem_append.mpr ⟨h.sound, List.forall_mem_map.mpr hsound⟩

theorem close_finish (hids : (victims.map ArchiveVictim.txnId).Nodup) (hsub : done <+: victims)
    (hopen : batches.flatten ++ finish' = finish)
    (hsound : ∀ b ∈ batches, (ArchiveCall.finish b).Nonempty ∧
      (ArchiveCall.finish b).cost victims ≤ archiveBudget) :
    PlanCovers victims done (calls ++ batches.map .finish) atomic finish' where
  atomic_eq := by
    rw [List.flatMap_append, atomicIds_finish, List.append_nil, h.atomic_eq]
  finish_eq := by
    rw [List.flatMap_append, finishIds_finish, List.append_assoc, hopen, h.finish_eq]
  chunks_eq txnId := by
    rw [List.flatMap_append, chunksOf_finish, List.append_nil, h.chunks_eq]
  ordered := by
    refine h.ordered.append_finish fun txnIds htxnIds v hv hid => ?_
    apply h.complete hids hsub hv
    rw [← hopen]
    exact List.mem_append_left _ (List.mem_flatten.mpr ⟨txnIds, htxnIds, hid⟩)
  sound := List.forall_mem_append.mpr ⟨h.sound, List.forall_mem_map.mpr hsound⟩

end PlanCovers

theorem ArchivePlan.Inv.add (h : plan.Inv victims done)
    (hids : (victims.map ArchiveVictim.txnId).Nodup) (hsub : done ++ [victim] <+: victims)
    (hsize : victim.requestIds.length ≤ MAX_WITHDRAWAL_REQUESTS) :
    (plan.add victim).Inv victims (done ++ [victim]) := by
  have hcount := requestCount_of_mem hids (hsub.subset (by simp) : victim ∈ victims)
  unfold ArchivePlan.add
  split_ifs with hsmall
  · have hcost : archiveCost (requestCount victims victim.txnId) ≤ archiveBudget := by rwa [hcount]
    rw [← hcount]
    refine ⟨(h.planned.add_small hsmall).close_atomic (Packer.push_flatten _ _) ?_,
      h.atomic_fits.push hcost, h.finish_fits⟩
    intro b hb
    exact (Packer.closed_by_push h.atomic_fits hcost hb).2
  · have hcost : finishCost (requestCount victims victim.txnId) ≤ archiveBudget := by
      rw [hcount]
      change 3 + 2 * victim.requestIds.length ≤ 910
      have hmax : victim.requestIds.length ≤ 447 := hsize
      omega
    rw [← hcount]
    refine ⟨(h.planned.add_large hsmall).close_finish hids hsub (Packer.push_flatten _ _) ?_,
      h.atomic_fits, h.finish_fits.push hcost⟩
    intro b hb
    exact (Packer.closed_by_push h.finish_fits hcost hb).2

theorem ArchivePlan.Inv.foldl (hids : (victims.map ArchiveVictim.txnId).Nodup)
    (hsize : ∀ v ∈ victims, v.requestIds.length ≤ MAX_WITHDRAWAL_REQUESTS)
    {rest : List ArchiveVictim} (hvictims : done ++ rest = victims) (h : plan.Inv victims done) :
    (rest.foldl ArchivePlan.add plan).Inv victims victims := by
  induction rest generalizing done plan with
  | nil =>
      rw [List.append_nil] at hvictims
      rwa [hvictims] at h
  | cons v rest ih =>
      have hv : v ∈ victims := by rw [← hvictims]; simp
      have hnext : done ++ [v] ++ rest = victims := by rw [← hvictims]; simp
      exact ih hnext (h.add hids ⟨rest, hnext⟩ (hsize v hv))

theorem planCovers_planArchiveCalls (hids : (victims.map ArchiveVictim.txnId).Nodup)
    (hsize : ∀ v ∈ victims, v.requestIds.length ≤ MAX_WITHDRAWAL_REQUESTS) :
    PlanCovers victims victims (planArchiveCalls victims) [] [] := by
  have h := ArchivePlan.Inv.foldl hids hsize (List.nil_append victims) (.empty victims)
  refine (h.planned.close_atomic ?_ fun b hb => (Packer.closed_at_end h.atomic_fits hb).2)
    |>.close_finish hids (List.prefix_refl _) ?_ fun b hb => (Packer.closed_at_end h.finish_fits hb).2
  · rw [List.append_nil, Packer.rest_flatten]
  · rw [List.append_nil, Packer.rest_flatten]

/-! ## Coverage -/

theorem PlanCovers.names (h : PlanCovers victims victims calls [] []) {call : ArchiveCall}
    (hcall : call ∈ calls) : call.Names victims := by
  cases call with
  | atomic txnIds =>
      intro id hid
      have hmem : id ∈ (victims.filter fun v => Small v).map (·.txnId) := by
        rw [← h.atomic_eq, List.append_nil]
        exact List.mem_flatMap.mpr ⟨_, hcall, hid⟩
      obtain ⟨v, hv, rfl⟩ := List.mem_map.mp hmem
      exact ⟨v, (List.mem_filter.mp hv).1, rfl⟩
  | requests txnId requestIds =>
      have hmem : requestIds ∈ victims.flatMap (partsOf txnId) := by
        rw [← h.chunks_eq]
        exact List.mem_flatMap.mpr ⟨_, hcall, by simp [chunksOf]⟩
      obtain ⟨v, hv, hpart⟩ := List.mem_flatMap.mp hmem
      unfold partsOf at hpart
      split_ifs at hpart with hsmall hid
      · cases hpart
      · refine ⟨v, hv, hid, fun r hr => ?_⟩
        have hsize : 0 < requestsPerChunk := by decide
        rw [← chunks_flatten hsize v.requestIds]
        exact List.mem_flatten.mpr ⟨requestIds, hpart, hr⟩
      · cases hpart
  | finish txnIds =>
      intro id hid
      have hmem : id ∈ (victims.filter fun v => ¬Small v).map (·.txnId) := by
        rw [← h.finish_eq, List.append_nil]
        exact List.mem_flatMap.mpr ⟨_, hcall, hid⟩
      obtain ⟨v, hv, rfl⟩ := List.mem_map.mp hmem
      exact ⟨v, (List.mem_filter.mp hv).1, rfl⟩

theorem count_filter (hids : (victims.map ArchiveVictim.txnId).Nodup) (hv : victim ∈ victims)
    (test : ArchiveVictim → Bool) :
    ((victims.filter test).map (·.txnId)).count victim.txnId = if test victim then 1 else 0 := by
  have hnodup : ((victims.filter test).map (·.txnId)).Nodup :=
    hids.sublist (List.filter_sublist.map _)
  rw [hnodup.count]
  refine if_congr ?_ rfl rfl
  constructor
  · intro hmem
    obtain ⟨u, hu, hid⟩ := List.mem_map.mp hmem
    obtain ⟨hu, htest⟩ := List.mem_filter.mp hu
    rwa [List.inj_on_of_nodup_map hids hu hv hid] at htest
  · intro htest
    exact List.mem_map_of_mem (List.mem_filter.mpr ⟨hv, htest⟩)

theorem ArchiveCall.Nonempty.chunk {call : ArchiveCall} (h : call.Nonempty) {txnId : Address}
    {part : List Address} (hpart : part ∈ call.chunksOf txnId) : part ≠ [] := by
  cases call with
  | requests id requestIds =>
      change part ∈ (if id = txnId then [requestIds] else []) at hpart
      split_ifs at hpart
      · obtain rfl := List.mem_singleton.mp hpart
        exact h
      · cases hpart
  | atomic txnIds => cases hpart
  | finish txnIds => cases hpart

theorem PlanCovers.archivesOnce (h : PlanCovers victims victims calls [] [])
    (hids : (victims.map ArchiveVictim.txnId).Nodup) (hv : victim ∈ victims) :
    ArchivesOnce calls victim := by
  have hatomic := count_filter hids hv fun v => Small v
  have hfinish := count_filter hids hv fun v => ¬Small v
  rw [← h.atomic_eq, List.append_nil] at hatomic
  rw [← h.finish_eq, List.append_nil] at hfinish
  have hparts : calls.flatMap (chunksOf victim.txnId) = partsOf victim.txnId victim := by
    rw [h.chunks_eq, flatMap_partsOf hids hv]
  by_cases hsmall : Small victim
  · left
    refine ⟨by simpa [hsmall] using hatomic, by rw [hparts, partsOf, if_pos hsmall], ?_⟩
    rw [← List.count_eq_zero]
    simpa [hsmall] using hfinish
  · right
    have hone : (calls.flatMap finishIds).count victim.txnId = 1 := by
      simpa [Nat.lt_of_not_le hsmall] using hfinish
    refine ⟨?_, hone, ?_⟩
    · rw [← List.count_eq_zero]
      simpa [hsmall] using hatomic
    · have hmem : victim.txnId ∈ calls.flatMap finishIds := by
        rw [← List.count_pos_iff, hone]
        exact Nat.one_pos
      obtain ⟨call, hcall, hid⟩ := List.mem_flatMap.mp hmem
      cases call with
      | finish txnIds =>
          obtain ⟨before, after, rfl⟩ := List.append_of_mem hcall
          have hbefore := h.ordered before txnIds ⟨after, by simp⟩ victim hv hid
          have hflat := partsOf_flatten hsmall
          rw [← hparts, List.flatMap_append, List.flatten_append, hbefore] at hflat
          have hnil : (after.flatMap (chunksOf victim.txnId)).flatten = [] := by
            simpa [chunksOf] using hflat
          refine ⟨before, txnIds, after, rfl, hid, hbefore, ?_⟩
          -- a chunk after the finish would be empty, and the plan has no empty chunk
          rw [List.eq_nil_iff_forall_not_mem]
          intro part hpart
          have hpart_nil := List.flatten_eq_nil_iff.mp hnil part hpart
          obtain ⟨call, hcall, hpart⟩ := List.mem_flatMap.mp hpart
          exact (h.sound call (by simp [hcall])).1.chunk hpart hpart_nil
      | atomic txnIds => cases hid
      | requests txnId requestIds => cases hid

/-! ## Execution -/

section Execution

variable {l : Ledger} {q q' : WithdrawalRequestQueue} {before : List ArchiveCall} {call : ArchiveCall}

def ArchiveCall.onQueue (q : WithdrawalRequestQueue) :
    ArchiveCall → Except Abort WithdrawalRequestQueue
  | .atomic txnIds => txnIds.foldlM WithdrawalRequestQueue.archiveWithdrawalTxn q
  | .requests txnId requestIds => q.archiveWithdrawalRequests txnId requestIds
  | .finish txnIds => txnIds.foldlM WithdrawalRequestQueue.finishArchiveWithdrawalTxn q

theorem ArchiveCall.execute_of_onQueue {hashi : Hashi}
    (hversion : hashi.versioning.assertVersionEnabled = .ok ()) (h : call.onQueue q = .ok q') :
    call.execute (hashi.withQueue q) = .ok (hashi.withQueue q') := by
  cases call with
  | atomic txnIds => exact bind_eq_ok.mpr ⟨(), hversion, bind_eq_ok.mpr ⟨q', h, rfl⟩⟩
  | requests txnId requestIds => exact bind_eq_ok.mpr ⟨(), hversion, bind_eq_ok.mpr ⟨q', h, rfl⟩⟩
  | finish txnIds => exact bind_eq_ok.mpr ⟨(), hversion, bind_eq_ok.mpr ⟨q', h, rfl⟩⟩

def Awaits (q : WithdrawalRequestQueue) (victim : ArchiveVictim) : Prop :=
  ∃ t, q.withdrawalTxns.lookup victim.txnId = some t ∧ t.isConfirmed ∧
    t.requestIds = victim.requestIds

def ArchiveCall.Handled (q : WithdrawalRequestQueue) : ArchiveCall → Prop
  | .atomic txnIds => ∀ id ∈ txnIds, q.withdrawalTxns.lookup id = none
  | .requests _ requestIds => ∀ id ∈ requestIds, q.requests.lookup id = none
  | .finish txnIds => ∀ id ∈ txnIds, q.withdrawalTxns.lookup id = none

structure Progress (l : Ledger) (victims : List ArchiveVictim) (before : List ArchiveCall)
    (q : WithdrawalRequestQueue) : Prop where
  inv : Ledger.Inv { l with queue := q }
  archived : WithdrawalRequestQueue.Archived (victims.map (·.txnId)) l.queue q
  handled : ∀ call ∈ before, call.Handled q

theorem Progress.of_run (h : Progress l victims before q) {ops : List Op}
    (hrun : Run Ledger.Step { l with queue := q } ops { l with queue := q' })
    (hops : ∀ op ∈ ops, op.Archives (victims.map (·.txnId))) : Progress l victims before q' := by
  have harch := Ledger.archived_run hrun hops
  refine ⟨h.inv.run hrun, h.archived.trans harch, fun call hcall => ?_⟩
  have hdone := h.handled call hcall
  cases call with
  | atomic txnIds => exact fun id hid => harch.absent id (hdone id hid)
  | requests txnId requestIds =>
      exact fun id hid => Ledger.requests_absent_run hrun hops (hdone id hid)
  | finish txnIds => exact fun id hid => harch.absent id (hdone id hid)

theorem Progress.snoc (h : Progress l victims before q) (hcall : call.Handled q) :
    Progress l victims (before ++ [call]) q := by
  refine ⟨h.inv, h.archived, ?_⟩
  exact List.forall_mem_append.mpr ⟨h.handled, List.forall_mem_singleton.mpr hcall⟩

namespace Progress

variable {v : ArchiveVictim} (h : Progress l victims before q)

include h

theorem requestIds_eq (hv : Awaits l.queue v) {t : WithdrawalTransaction}
    (ht : q.withdrawalTxns.lookup v.txnId = some t) : t.requestIds = v.requestIds := by
  obtain ⟨t₀, ht₀, -, hrequests⟩ := hv
  have htxn := h.archived.txnAt_eq v.txnId
  rw [WithdrawalRequestQueue.txnAt, ht, Option.some_or, WithdrawalRequestQueue.txnAt, ht₀,
    Option.some_or, Option.some.injEq] at htxn
  rw [htxn, hrequests]

variable (hinv : l.Inv)

include hinv

theorem settled (hv : Awaits l.queue v) :
    q.Settled v.txnId := by
  obtain ⟨t, ht, hconf, -⟩ := hv
  have hsettled : l.queue.Settled v.txnId := by
    intro t' ht'
    rw [ht, Option.some.injEq] at ht'
    rwa [← ht']
  exact hsettled.archived (l := l) hinv h.archived

theorem request (hv : Awaits l.queue v) {id : Address} (hid : id ∈ v.requestIds) :
    ∃ r, q.requestAt id = some r ∧ r.withdrawalTxnId = some v.txnId := by
  obtain ⟨t, ht, -, hrequests⟩ := hv
  obtain ⟨r, hr, hlink⟩ := hinv.queue.backlink (b := t.body)
    (by rw [WithdrawalRequestQueue.liveBody_of_lookup ht, Option.some_or]) (hrequests ▸ hid)
  exact ⟨r, (h.archived.requestAt_eq id).trans hr, hlink⟩

theorem chunk_handled (hv : Awaits l.queue v) {requestIds : List Address}
    (hsub : ∀ r ∈ requestIds, r ∈ v.requestIds)
    (hq' : q.archiveWithdrawalRequests v.txnId requestIds = .ok q') :
    (ArchiveCall.requests v.txnId requestIds).Handled q' := by
  intro id hid
  unfold WithdrawalRequestQueue.archiveWithdrawalRequests at hq'
  split at hq'
  · next hnone =>
    cases hq'
    obtain ⟨r, hr, hlink⟩ := h.request hinv hv (hsub id hid)
    exact (h.inv.request_of_absent hnone hr hlink).1
  · simp only [bind_eq_ok, require_eq_ok] at hq'
    obtain ⟨_, -, hloop⟩ := hq'
    exact WithdrawalRequestQueue.archiveRequest_loop_absent hloop id hid

variable (hawaits : ∀ v ∈ victims, Awaits l.queue v)

include hawaits

theorem loop {f : WithdrawalRequestQueue → Address → Except Abort WithdrawalRequestQueue}
    (hf : ∀ q w q', Ledger.Inv { l with queue := q } → f q w = .ok q' → l.Archival [w] q q')
    (hok : ∀ q w, Ledger.Inv { l with queue := q } → q.Settled w → ∃ q', f q w = .ok q')
    {txnIds : List Address} (hnames : ∀ id ∈ txnIds, ∃ v ∈ victims, v.txnId = id) :
    ∃ q', txnIds.foldlM f q = .ok q' ∧ l.Archival (victims.map (·.txnId)) q q' := by
  have hsettled : ∀ id ∈ txnIds, q.Settled id := by
    intro id hid
    obtain ⟨v, hv, rfl⟩ := hnames id hid
    exact h.settled hinv (hawaits v hv)
  obtain ⟨q', hq'⟩ := WithdrawalRequestQueue.archival_loop_succeeds h.inv hf hok hsettled
  obtain ⟨ops, hrun, hops⟩ := WithdrawalRequestQueue.archival_loop hf h.inv hq'
  refine ⟨q', hq', ops, hrun, fun op hop => (hops op hop).mono fun id hid => ?_⟩
  obtain ⟨v, hv, rfl⟩ := hnames id hid
  exact List.mem_map_of_mem hv

theorem atomic {txnIds : List Address} (hnames : (ArchiveCall.atomic txnIds).Names victims) :
    ∃ q', (ArchiveCall.atomic txnIds).onQueue q = .ok q' ∧
      Progress l victims (before ++ [.atomic txnIds]) q' := by
  obtain ⟨q', hq', ops, hrun, hops⟩ := h.loop hinv hawaits
    (fun _ _ _ h hq => WithdrawalRequestQueue.archiveWithdrawalTxn_run h hq)
    (fun _ _ h hs => WithdrawalRequestQueue.archiveWithdrawalTxn_succeeds h hs) hnames
  have habsent := WithdrawalRequestQueue.archiveWithdrawalTxn_loop_absent hq'
  exact ⟨q', hq', (h.of_run hrun hops).snoc habsent⟩

theorem requests {txnId : Address} {requestIds : List Address}
    (hnames : (ArchiveCall.requests txnId requestIds).Names victims) :
    ∃ q', (ArchiveCall.requests txnId requestIds).onQueue q = .ok q' ∧
      Progress l victims (before ++ [.requests txnId requestIds]) q' := by
  obtain ⟨v, hv, rfl, hsub⟩ := hnames
  have hlink : ∀ id ∈ requestIds, ∀ r, q.requests.lookup id = some r →
      r.withdrawalTxnId = some v.txnId := by
    intro id hid r hr
    obtain ⟨r', hr', hlink⟩ := h.request hinv (hawaits v hv) (hsub id hid)
    rw [WithdrawalRequestQueue.requestAt, hr, Option.some_or, Option.some.injEq] at hr'
    rwa [hr']
  obtain ⟨q', hq'⟩ := WithdrawalRequestQueue.archiveWithdrawalRequests_succeeds h.inv
    (h.settled hinv (hawaits v hv)) hlink
  obtain ⟨ops, hrun, hops⟩ := WithdrawalRequestQueue.archiveWithdrawalRequests_run (l := l) hq'
  have hmine : ∀ op ∈ ops, op.Archives (victims.map (·.txnId)) := by
    intro op hop
    apply (hops op hop).mono
    simpa using ⟨v, hv, rfl⟩
  exact ⟨q', hq', (h.of_run hrun hmine).snoc (h.chunk_handled hinv (hawaits v hv) hsub hq')⟩

theorem finish {txnIds : List Address}
    (hnames : (ArchiveCall.finish txnIds).Names victims)
    (hcomplete : ∀ v ∈ victims, v.txnId ∈ txnIds →
      (before.flatMap (chunksOf v.txnId)).flatten = v.requestIds) :
    ∃ q', (ArchiveCall.finish txnIds).onQueue q = .ok q' ∧
      Progress l victims (before ++ [.finish txnIds]) q' := by
  obtain ⟨q', hq', ops, hrun, hops⟩ := h.loop hinv hawaits
    (fun _ _ _ _ hq => WithdrawalRequestQueue.finishArchiveWithdrawalTxn_run hq)
    (fun _ _ h hs => WithdrawalRequestQueue.finishArchiveWithdrawalTxn_succeeds h hs) hnames
  have hfinished := WithdrawalRequestQueue.finishArchiveWithdrawalTxn_loop hq'
  have hnext := h.of_run hrun hops
  refine ⟨q', hq', hnext.snoc fun id hid => ?_⟩
  obtain ⟨v, hv, rfl⟩ := hnames id hid
  rw [Option.eq_none_iff_forall_ne_some]
  intro t ht
  have hrequests := hnext.requestIds_eq (hawaits v hv) ht
  obtain ⟨r, hr, hmissing⟩ := hfinished _ hid t ht
  -- the request was in a chunk before this call, so it is processed
  have hpart : r ∈ (before.flatMap (chunksOf v.txnId)).flatten := by
    rw [hcomplete v hv hid, ← hrequests]
    exact hr
  obtain ⟨part, hpart, hrpart⟩ := List.mem_flatten.mp hpart
  obtain ⟨call, hcall, hpart⟩ := List.mem_flatMap.mp hpart
  have hgone : q'.requests.lookup r = none := by
    have hdone := hnext.handled call hcall
    cases call with
    | atomic txnIds => cases hpart
    | finish txnIds => cases hpart
    | requests id requestIds =>
        change part ∈ (if id = v.txnId then [requestIds] else []) at hpart
        split_ifs at hpart
        · rw [List.mem_singleton.mp hpart] at hrpart
          exact hdone r hrpart
        · cases hpart
  exact hmissing (WithdrawalRequestQueue.processed_of_absent hnext.inv ht hr hgone)

theorem run {hashi : Hashi} (hversion : hashi.versioning.assertVersionEnabled = .ok ())
    (hnames : ∀ call ∈ before ++ calls, call.Names victims)
    (hordered : Ordered victims (before ++ calls)) :
    ∃ q', calls.foldlM ArchiveCall.execute (hashi.withQueue q) = .ok (hashi.withQueue q') ∧
      Progress l victims (before ++ calls) q' := by
  induction calls generalizing before q with
  | nil => exact ⟨q, rfl, by simpa using h⟩
  | cons call calls ih =>
      have hcall : call.Names victims := hnames call (by simp)
      have hstep : ∃ q', call.onQueue q = .ok q' ∧ Progress l victims (before ++ [call]) q' := by
        cases call with
        | atomic txnIds => exact h.atomic hinv hawaits hcall
        | requests txnId requestIds => exact h.requests hinv hawaits hcall
        | finish txnIds =>
            exact h.finish hinv hawaits hcall (hordered before txnIds ⟨calls, by simp⟩)
      obtain ⟨m, hm, hprogress⟩ := hstep
      rw [List.append_cons] at hnames hordered
      obtain ⟨q', hq', hend⟩ := ih hprogress hnames hordered
      rw [List.append_cons]
      exact ⟨q', foldlM_cons_eq_ok.mpr ⟨_, ArchiveCall.execute_of_onQueue hversion hm, hq'⟩, hend⟩

end Progress

end Execution

/-! ## The plan -/

/-- The withdrawal and its requests lie in the cold bags, as they were in flight. -/
structure InArchive (q q' : WithdrawalRequestQueue) (victim : ArchiveVictim) : Prop where
  txn : q'.withdrawalTxns.lookup victim.txnId = none ∧
    q'.confirmedTxns.lookup victim.txnId = q.withdrawalTxns.lookup victim.txnId
  requests : ∀ id ∈ victim.requestIds, q'.requests.lookup id = none ∧
    q'.processed.lookup id = q.requestAt id

theorem Progress.inArchive {l : Ledger} {q : WithdrawalRequestQueue}
    (h : Progress l victims calls q) (hinv : l.Inv) (hv : Awaits l.queue victim)
    (hgone : q.withdrawalTxns.lookup victim.txnId = none) : InArchive l.queue q victim where
  txn := by
    obtain ⟨t, ht, -⟩ := hv
    refine ⟨hgone, ?_⟩
    rw [Ledger.confirmedTxns_of_absent hgone, h.archived.txnAt_eq, WithdrawalRequestQueue.txnAt, ht,
      Option.some_or]
  requests id hid := by
    obtain ⟨r, hr, hlink⟩ := h.request hinv hv hid
    obtain ⟨habsent, hprocessed⟩ := h.inv.request_of_absent hgone hr hlink
    exact ⟨habsent, by rw [hprocessed, ← h.archived.requestAt_eq, hr]⟩

theorem ArchivesOnce.gone {q : WithdrawalRequestQueue} (h : ArchivesOnce calls victim)
    (hhandled : ∀ call ∈ calls, call.Handled q) : q.withdrawalTxns.lookup victim.txnId = none := by
  rcases h with ⟨hone, -⟩ | ⟨-, -, before, txnIds, after, rfl, hid, -⟩
  · have hmem : victim.txnId ∈ calls.flatMap atomicIds := by
      rw [← List.count_pos_iff, hone]
      exact Nat.one_pos
    obtain ⟨call, hcall, hid⟩ := List.mem_flatMap.mp hmem
    have hdone := hhandled call hcall
    cases call with
    | atomic txnIds => exact hdone _ hid
    | requests txnId requestIds => cases hid
    | finish txnIds => cases hid
  · exact hhandled (.finish txnIds) (by simp) _ hid

/-- The planner archives each of the withdrawals once, names nothing else, keeps every call non-empty
and within the object budget; and its calls, executed in order on a reachable chain that holds the
withdrawals as confirmed, archive all of them. -/
theorem archival_planning (hids : (victims.map ArchiveVictim.txnId).Nodup)
    (hsize : ∀ v ∈ victims, v.requestIds.length ≤ MAX_WITHDRAWAL_REQUESTS) :
    (∀ v ∈ victims, ArchivesOnce (planArchiveCalls victims) v) ∧
    (∀ call ∈ planArchiveCalls victims, call.Names victims ∧ call.Nonempty ∧
      call.cost victims + WITHDRAWAL_ARCHIVE_FIXED_RUNTIME_OBJECTS ≤
        WITHDRAWAL_ARCHIVE_RUNTIME_OBJECT_BUDGET) ∧
    ∀ {env : Env} {id epoch clock : Nat} {tr : List Label} {w : World},
      Run (Step env) (publish id epoch clock) tr w →
      w.hashi.versioning.assertVersionEnabled = .ok () →
      (∀ v ∈ victims, Awaits w.hashi.bitcoin.withdrawalQueue v) →
      ∃ q, executeArchiveConfirmedWithdrawals w.hashi victims = .ok (w.hashi.withQueue q) ∧
        ∀ v ∈ victims, InArchive w.hashi.bitcoin.withdrawalQueue q v := by
  have hplan := planCovers_planArchiveCalls hids hsize
  refine ⟨fun v hv => hplan.archivesOnce hids hv, fun call hcall => ?_, ?_⟩
  · obtain ⟨hne, hcost⟩ := hplan.sound call hcall
    have hbudget : call.cost victims ≤ 910 := hcost
    refine ⟨hplan.names hcall, hne, ?_⟩
    change call.cost victims + 12 ≤ 922
    omega
  · intro env id epoch clock tr w hrun hversion hawaits
    have hinv := (World.Inv.reachable hrun).sound.inv
    have hstart : Progress w.ledger victims [] w.ledger.queue :=
      ⟨hinv, .refl _, fun _ h => by cases h⟩
    obtain ⟨q, hq, hend⟩ := hstart.run hinv hawaits hversion (fun call hcall => hplan.names hcall)
      hplan.ordered
    refine ⟨q, hq, fun v hv => hend.inArchive hinv (hawaits v hv) ?_⟩
    exact (hplan.archivesOnce hids hv).gone hend.handled

namespace Sample

open Chain.Sample

/-- Beside the sample withdrawal one of two requests from the second deposit, both confirmed. -/
def confirmed : List Label := launch ++ deposits ++ withdrawal ++ signing ++ confirmation ++ [
  call 1050 (.bridge (.requestWithdrawal 200000 (List.replicate 20 0))),
  call 1051 (.bridge (.approveRequest 1050 (cert 0))),
  call 1052 (.bridge (.requestWithdrawal 100000 (List.replicate 20 0))),
  call 1053 (.bridge (.approveRequest 1052 (cert 0))),
  call 1054 (.bridge (.commitWithdrawalTx [1050, 1052] [⟨501, 0⟩]
    [⟨199000, List.replicate 20 0⟩, ⟨99000, List.replicate 20 0⟩, ⟨200000, []⟩] 702 (cert 0) [2])),
  call 1055 (.bridge (.commitInputSignatures 1054 [0] [[5]] (cert 0))),
  call 1056 (.bridge (.finalizeWithdrawal 1054 [[6]] (cert 0))),
  call 1057 (.bridge (.confirmWithdrawal 1054 (cert 0)))]

def pair : List ArchiveVictim := [⟨1018, [1016]⟩, ⟨1054, [1050, 1052]⟩]

end Sample

/-- A withdrawal too large for one call is covered by its chunks, and the confirmed ones of a
reachable chain are archived together. -/
theorem archival_planning_both :
    ArchivesOnce (planArchiveCalls [⟨1, List.range 303⟩, ⟨2, [7]⟩]) ⟨1, List.range 303⟩ ∧
    ∃ w, Run (Step Sample.env) (publish 99 0 0) Sample.confirmed w ∧
      ∃ q, executeArchiveConfirmedWithdrawals w.hashi Sample.pair = .ok (w.hashi.withQueue q) ∧
        ∀ v ∈ Sample.pair, InArchive w.hashi.bitcoin.withdrawalQueue q v := by
  constructor
  · exact (archival_planning (by decide) (by simp [MAX_WITHDRAWAL_REQUESTS])).1 _ (by simp)
  · obtain ⟨w, hrun, htest⟩ := run_of_reaches Sample.env (publish 99 0 0) Sample.confirmed
      (fun w => decide (w.hashi.versioning.assertVersionEnabled = .ok () ∧ ∀ v ∈ Sample.pair,
        (w.hashi.bitcoin.withdrawalQueue.withdrawalTxns.lookup v.txnId).any
          fun t : WithdrawalTransaction => t.isConfirmed ∧ t.requestIds = v.requestIds)) (by decide +kernel)
    obtain ⟨hversion, hany⟩ := of_decide_eq_true htest
    have hall : ∀ v ∈ Sample.pair, Awaits w.hashi.bitcoin.withdrawalQueue v := by
      intro v hv
      obtain ⟨t, ht, htest⟩ := (Option.any_eq_true _ _).mp (hany v hv)
      exact ⟨t, ht, of_decide_eq_true htest⟩
    exact ⟨w, hrun, (archival_planning (by decide) (by decide)).2.2 hrun hversion hall⟩

end HashiBridge.Node
