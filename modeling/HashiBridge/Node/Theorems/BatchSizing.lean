import HashiBridge.Lib.Run
import HashiBridge.Node.Batching

/-!
# Sizing a withdrawal batch

The leader's loop over request counts as a transition system in which a selection may fail in any
way. A round lowers the count or removes a request, and the count stays within the list.
-/

namespace HashiBridge.Node

open Lib HashiBridge.Core Btc

/-- The loop variables: the requests that are left, and how many of them to try. -/
structure Batch where
  requests : List WithdrawalRequest
  requestCount : Nat

inductive Round
  /-- no input fits the limits beside so many requests -/
  | skipped
  | failed (error : CoinSelectionError)

namespace Batch

def maxInputs (self : Batch) : Nat :=
  safeWithdrawalFlowMaxInputs self.requestCount DEFAULT_MAX_INPUTS

def attempted (self : Batch) : List WithdrawalRequest := self.requests.take self.requestCount

def next (self : Batch) (error : CoinSelectionError) : Batch :=
  let (requests, requestCount) := nextRequestCount error self.requests self.requestCount
  ⟨requests, requestCount⟩

inductive Step : Batch → Round → Batch → Prop
  | skip {self : Batch} (hcount : self.requestCount ≠ 0) (hlimit : self.maxInputs = 0) :
      Step self .skipped { self with requestCount := self.requestCount - 1 }
  | fail {self : Batch} (hcount : self.requestCount ≠ 0) (hlimit : self.maxInputs ≠ 0)
      (error : CoinSelectionError) : Step self (.failed error) (self.next error)

variable {start self next : Batch} {round : Round} {rounds : List Round}

/-! ## One round -/

theorem next_cases (self : Batch) (error : CoinSelectionError) :
    (∃ id amount fee, error = .requestAmountTooSmall id amount fee ∧
      (∃ r ∈ self.requests, r.id = id) ∧
      (self.next error).requests = self.requests.filter (fun r => r.id ≠ id) ∧
      (self.next error).requestCount =
        min self.requestCount (self.requests.filter fun r => r.id ≠ id).length) ∨
    self.next error = { self with requestCount := self.requestCount - 1 } := by
  cases error with
  | requestAmountTooSmall id amount fee =>
      by_cases hany : (self.requests.any fun r => r.id == id) = true
      · left
        refine ⟨id, amount, fee, rfl, by simpa using hany, ?_, ?_⟩ <;>
          simp [Batch.next, nextRequestCount, hany]
      · right
        simp [Batch.next, nextRequestCount, hany]
  | _ => exact .inr rfl

theorem length_filter_lt {requests : List WithdrawalRequest} {id : Address}
    (h : ∃ r ∈ requests, r.id = id) :
    (requests.filter fun r => r.id ≠ id).length < requests.length := by
  refine List.length_filter_lt_length_iff_exists.mpr ?_
  simpa using h

def measure (self : Batch) : Nat := self.requests.length + self.requestCount

theorem Step.measure_lt (h : Step self round next) : next.measure < self.measure := by
  cases h with
  | skip hcount hlimit =>
      simp only [measure]
      omega
  | fail hcount hlimit error =>
      obtain ⟨id, _, _, _, hmem, hrequests, hnext⟩ | hnext := self.next_cases error
      · have hless := length_filter_lt hmem
        rw [measure, measure, hrequests, hnext]
        omega
      · rw [hnext, measure, measure]
        simp only
        omega

theorem Step.count_le (h : Step self round next) (hle : self.requestCount ≤ self.requests.length) :
    next.requestCount ≤ next.requests.length := by
  cases h with
  | skip hcount hlimit =>
      simp only
      omega
  | fail hcount hlimit error =>
      obtain ⟨id, _, _, _, _, hrequests, hnext⟩ | hnext := self.next_cases error
      · rw [hrequests, hnext]
        exact Nat.min_le_right _ _
      · rw [hnext]
        simp only
        omega

/-- A round keeps the order, and removes a request only if the selection reported it. -/
theorem Step.requests (h : Step self round next) :
    next.requests.Sublist self.requests ∧ ∀ r ∈ self.requests, r ∉ next.requests →
      ∃ amount fee, round = .failed (.requestAmountTooSmall r.id amount fee) := by
  cases h with
  | skip hcount hlimit => exact ⟨List.Sublist.refl _, fun r hr hnot => absurd hr hnot⟩
  | fail hcount hlimit error =>
      obtain ⟨id, amount, fee, rfl, _, hrequests, _⟩ | hnext := self.next_cases error
      · rw [hrequests]
        refine ⟨List.filter_sublist, fun r hr hnot => ⟨amount, fee, ?_⟩⟩
        have hid : r.id = id := by
          by_contra hne
          exact hnot (List.mem_filter.mpr ⟨hr, by simpa using hne⟩)
        rw [hid]
      · rw [hnext]
        exact ⟨List.Sublist.refl _, fun r hr hnot => absurd hr hnot⟩

theorem maxInputs_of_one (h : self.requestCount = 1) : self.maxInputs ≠ 0 := by
  rw [maxInputs, h]
  decide

theorem Step.ends (h : Step self round next) (hend : next.requestCount = 0) :
    (self.requestCount = 1 ∧ ∃ error, round = .failed error) ∨ next.requests = [] := by
  cases h with
  | skip hcount hlimit =>
      have hone : self.requestCount = 1 := by
        simp only at hend
        omega
      exact absurd hlimit (maxInputs_of_one hone)
  | fail hcount hlimit error =>
      obtain ⟨id, _, _, _, _, hrequests, hnext⟩ | hnext := self.next_cases error
      · right
        rw [hrequests]
        rw [hnext] at hend
        exact List.length_eq_zero_iff.mp (by omega)
      · left
        rw [hnext] at hend
        simp only at hend
        exact ⟨by omega, error, rfl⟩

/-! ## Whole runs -/

structure Sound (start : Batch) (rounds : List Round) (self : Batch) : Prop where
  /-- with the round that succeeds, if one is still to come -/
  rounds_le : rounds.length + (if self.requestCount = 0 then 0 else 1) ≤ 2 * start.requests.length
  slice : self.requestCount ≤ self.requests.length
  order : self.requests.Sublist start.requests
  removed : ∀ r ∈ start.requests, r ∉ self.requests →
    ∃ amount fee, Round.failed (.requestAmountTooSmall r.id amount fee) ∈ rounds

theorem run_sound (hstart : start.requestCount ≤ start.requests.length)
    (h : Run Step start rounds self) : Sound start rounds self := by
  have hmeasure := h.length_add_le measure fun _ _ _ => Step.measure_lt
  have hslice : self.requestCount ≤ self.requests.length :=
    h.invariant (P := fun batch => batch.requestCount ≤ batch.requests.length) hstart
      fun _ _ _ hle hs => hs.count_le hle
  have hrequests : self.requests.Sublist start.requests ∧
      ∀ r ∈ start.requests, r ∉ self.requests →
        ∃ amount fee, Round.failed (.requestAmountTooSmall r.id amount fee) ∈ rounds := by
    refine h.history (P := fun rounds self => self.requests.Sublist start.requests ∧
      ∀ r ∈ start.requests, r ∉ self.requests →
        ∃ amount fee, Round.failed (.requestAmountTooSmall r.id amount fee) ∈ rounds)
      ⟨List.Sublist.refl _, fun r hr hnot => absurd hr hnot⟩ ?_
    rintro rounds self round next ⟨horder, hremoved⟩ hs
    obtain ⟨horder', hremoved'⟩ := hs.requests
    refine ⟨horder'.trans horder, fun r hr hnot => ?_⟩
    by_cases hleft : r ∈ self.requests
    · obtain ⟨amount, fee, rfl⟩ := hremoved' r hleft hnot
      exact ⟨amount, fee, by simp⟩
    · obtain ⟨amount, fee, hmem⟩ := hremoved r hr hleft
      exact ⟨amount, fee, List.mem_append_left _ hmem⟩
  refine ⟨?_, hslice, hrequests.1, hrequests.2⟩
  simp only [measure] at hmeasure
  split_ifs with hzero <;> omega

def FailedAtOne (start : Batch) (rounds : List Round) : Prop :=
  ∃ before self error, rounds = before ++ [.failed error] ∧ Run Step start before self ∧
    self.requestCount = 1

theorem run_ends (h : Run Step start rounds self) (hend : self.requestCount = 0) :
    FailedAtOne start rounds ∨ start.requestCount = 0 ∨ self.requests = [] := by
  cases h with
  | nil => exact .inr (.inl hend)
  | snoc hrun hs =>
      obtain ⟨hone, error, rfl⟩ | hnone := hs.ends hend
      · exact .inl ⟨_, _, error, rfl, hrun, hone⟩
      · exact .inr (.inr hnone)

end Batch

/-! ## The leader's loop -/

section Leader

variable (leader : Leader) (changeScript : Bytes) (feeRate : FeeRate)
  (candidates : List UtxoCandidate)

def Leader.selection (batch : Batch) : Fallible CoinSelectionResult :=
  selectCoins candidates batch.attempted
    (leader.params changeScript batch.requestCount batch.maxInputs) feeRate

def Leader.Round (self : Batch) (round : Node.Round) (next : Batch) : Prop :=
  self.Step round next ∧ ∀ error, round = .failed error →
    leader.selection changeScript feeRate candidates self = .error (.returned error)

/-- How the loop ends: with the plan of a selection or its panic, or with no request to try. -/
def Leader.Concludes (self : Batch) (outcome : Except WithdrawalCommitmentError CoinSelectionResult) :
    Prop :=
  (self.requestCount ≠ 0 ∧ self.maxInputs ≠ 0 ∧
    ((∃ plan, leader.selection changeScript feeRate candidates self = .ok plan ∧ outcome = .ok plan) ∨
      ∃ message, leader.selection changeScript feeRate candidates self = .error (.panicked message) ∧
        outcome = .error (.panicked message))) ∨
  self.requestCount = 0 ∧ ∃ last, outcome = .error (.utxoSelectionFailed last)

section Rounds

variable {leader changeScript feeRate candidates} {self : Batch} (fuel : Nat)
  (last : Option CoinSelectionError)

theorem Leader.selectBatch_succ (hcount : self.requestCount ≠ 0) :
    leader.selectBatch changeScript feeRate candidates (fuel + 1) self.requests self.requestCount last =
      if self.maxInputs = 0 then
        leader.selectBatch changeScript feeRate candidates fuel self.requests (self.requestCount - 1) last
      else
        match leader.selection changeScript feeRate candidates self with
        | .ok plan => .ok plan
        | .error (.panicked message) => .error (.panicked message)
        | .error (.returned error) =>
            leader.selectBatch changeScript feeRate candidates fuel (self.next error).requests
              (self.next error).requestCount (some error) := by
  rw [selectBatch, if_neg hcount]
  rfl

end Rounds

theorem Leader.selectBatch_concludes {fuel : Nat} {self : Batch} (hfuel : self.measure < fuel)
    (last : Option CoinSelectionError) : ∃ rounds final,
      Run (leader.Round changeScript feeRate candidates) self rounds final ∧
      leader.Concludes changeScript feeRate candidates final
        (leader.selectBatch changeScript feeRate candidates fuel self.requests self.requestCount
          last) := by
  induction fuel generalizing self last with
  | zero => cases hfuel
  | succ fuel ih =>
      by_cases hcount : self.requestCount = 0
      · rw [selectBatch, if_pos hcount]
        exact ⟨[], self, .nil, .inr ⟨hcount, last, rfl⟩⟩
      -- a round lowers the measure, so the rest of the fuel is enough for what follows
      have hrest : ∀ {round next}, leader.Round changeScript feeRate candidates self round next →
          ∀ last, ∃ rounds final,
            Run (leader.Round changeScript feeRate candidates) self rounds final ∧
            leader.Concludes changeScript feeRate candidates final
              (leader.selectBatch changeScript feeRate candidates fuel next.requests
                next.requestCount last) := by
        intro round next hround last
        have hless := hround.1.measure_lt
        obtain ⟨rounds, final, hrun, hconcludes⟩ := ih (show next.measure < fuel by omega) last
        exact ⟨round :: rounds, final, hrun.cons hround, hconcludes⟩
      by_cases hlimit : self.maxInputs = 0
      · have hround : leader.Round changeScript feeRate candidates self .skipped
            { self with requestCount := self.requestCount - 1 } :=
          ⟨.skip hcount hlimit, fun error heq => by simp at heq⟩
        rw [selectBatch_succ fuel last hcount, if_pos hlimit]
        exact hrest hround last
      rw [selectBatch_succ fuel last hcount, if_neg hlimit]
      cases hselection : leader.selection changeScript feeRate candidates self with
      | ok plan => exact ⟨[], self, .nil, .inl ⟨hcount, hlimit, .inl ⟨plan, hselection, rfl⟩⟩⟩
      | error failure =>
          cases failure with
          | panicked message =>
              exact ⟨[], self, .nil, .inl ⟨hcount, hlimit, .inr ⟨message, hselection, rfl⟩⟩⟩
          | returned error =>
              have hround : leader.Round changeScript feeRate candidates self (.failed error)
                  (self.next error) := by
                refine ⟨.fail hcount hlimit error, fun error' heq => ?_⟩
                cases heq
                exact hselection
              exact hrest hround (some error)

end Leader

/-- **The batch sizing loop.** For every list of requests, every limit on their number and every
sequence of selection errors, the rounds are at most twice the requests, the slice ends within the
list, only requests reported as too small are removed, and the rest keep their order. The loop ends
without a plan only if its last attempt was a single request that failed, or no count had room for an
input, or every request was removed. The leader's loop takes such rounds and reaches an end. -/
theorem batch_sizing_loop (requests : List WithdrawalRequest) (limit : Nat) :
    let start : Batch := ⟨requests, min limit requests.length⟩
    (∀ rounds final, Run Batch.Step start rounds final →
      Batch.Sound start rounds final ∧
      (final.requestCount = 0 → Batch.FailedAtOne start rounds ∨
        (∀ count, 0 < count → count ≤ start.requestCount →
          safeWithdrawalFlowMaxInputs count DEFAULT_MAX_INPUTS = 0) ∨ final.requests = [])) ∧
    ∀ (leader : Leader) changeScript feeRate candidates, ∃ rounds final,
      Run (leader.Round changeScript feeRate candidates) start rounds final ∧
      Run Batch.Step start rounds final ∧
      leader.Concludes changeScript feeRate candidates final
        (leader.selectBatch changeScript feeRate candidates
          (requests.length + start.requestCount + 1) requests start.requestCount none) := by
  intro start
  constructor
  · intro rounds final hrun
    refine ⟨Batch.run_sound (Nat.min_le_right _ _) hrun, fun hend => ?_⟩
    rcases Batch.run_ends hrun hend with hone | hnone | hempty
    · exact .inl hone
    · exact .inr (.inl fun count hpos hle => by omega)
    · exact .inr (.inr hempty)
  · intro leader changeScript feeRate candidates
    obtain ⟨rounds, final, hrun, hconcludes⟩ := leader.selectBatch_concludes changeScript feeRate
      candidates (Nat.lt_succ_self start.measure) none
    exact ⟨rounds, final, hrun, hrun.mono fun _ _ _ hs => hs.1, hconcludes⟩

end HashiBridge.Node
