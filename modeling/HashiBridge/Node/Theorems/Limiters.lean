import HashiBridge.Guardian.Theorems.Outflow
import HashiBridge.Node.LocalLimiter

/-!
# The two limiters

A capacity projects forward from the capacity at any time past the last update, so two states that
agree once agree from then on. An accepted call leaves both limiters in one state.
-/

namespace HashiBridge.Guardian.LimiterState

open Lib

variable {a g : LimiterState} {config : LimiterConfig}

theorem capacityAt_eq (h : config.maxBucketCapacity < U64_SIZE) (a : LimiterState) (t : Nat) :
    a.capacityAt config t =
      min (a.numTokensAvailable + (t - a.lastUpdatedAt) * config.refillRate)
        config.maxBucketCapacity := by
  simp only [capacityAt, saturateU64]
  omega

theorem capacityAt_later (h : config.maxBucketCapacity < U64_SIZE) {t u : Nat}
    (ht : a.lastUpdatedAt ≤ t) (htu : t ≤ u) :
    a.capacityAt config u =
      min (a.capacityAt config t + (u - t) * config.refillRate) config.maxBucketCapacity := by
  have hsplit : (u - a.lastUpdatedAt) * config.refillRate =
      (t - a.lastUpdatedAt) * config.refillRate + (u - t) * config.refillRate := by
    rw [← Nat.add_mul]
    congr 1
    omega
  rw [capacityAt_eq h, capacityAt_eq h, hsplit]
  omega

def SameCapacity (config : LimiterConfig) (a g : LimiterState) : Prop :=
  ∀ t, a.lastUpdatedAt ≤ t → g.lastUpdatedAt ≤ t → a.capacityAt config t = g.capacityAt config t

theorem sameCapacity_iff (h : config.maxBucketCapacity < U64_SIZE) :
    SameCapacity config a g ↔
      a.capacityAt config (max a.lastUpdatedAt g.lastUpdatedAt) =
        g.capacityAt config (max a.lastUpdatedAt g.lastUpdatedAt) := by
  constructor
  · intro hsame
    exact hsame _ (Nat.le_max_left _ _) (Nat.le_max_right _ _)
  · intro heq t ha hg
    have hle : max a.lastUpdatedAt g.lastUpdatedAt ≤ t := Nat.max_le.mpr ⟨ha, hg⟩
    rw [capacityAt_later h (Nat.le_max_left _ _) hle, heq,
      ← capacityAt_later h (Nat.le_max_right _ _) hle]

end HashiBridge.Guardian.LimiterState

namespace HashiBridge.Node

open Lib HashiBridge.Core Guardian

structure Consume where
  seq : UInt64
  timestamp : Nat
  amountSats : Nat

namespace LimiterView

variable {l : LimiterView} {call : Consume}

def Admits (l : LimiterView) (call : Consume) : Prop :=
  call.seq = l.state.nextSeq ∧ l.state.lastUpdatedAt ≤ call.timestamp ∧
    call.amountSats ≤ l.capacityAt call.timestamp

def debited (l : LimiterView) (call : Consume) : LimiterView :=
  { l with
    state := ⟨l.capacityAt call.timestamp - call.amountSats, call.timestamp,
      l.state.nextSeq + 1⟩ }

theorem validateConsume_eq_ok :
    l.validateConsume call.seq call.timestamp call.amountSats = .ok () ↔ l.Admits call := by
  simp [validateConsume, Admits, bind_eq_ok, require_eq_ok]

theorem exec_applyConsume_of_admits (h : l.Admits call) :
    exec (applyConsume call.seq call.timestamp call.amountSats) l = (.ok (), l.debited call) := by
  obtain ⟨hseq, htime, hamount⟩ := h
  simp [applyConsume, exec_bind, hseq, Nat.not_lt.mpr htime, Nat.not_lt.mpr hamount, debited]

theorem exec_applyConsume_of_not_admits (h : ¬ l.Admits call) :
    ∃ e, exec (applyConsume call.seq call.timestamp call.amountSats) l = (.error e, l) := by
  by_cases hseq : call.seq = l.state.nextSeq
  · by_cases htime : call.timestamp < l.state.lastUpdatedAt
    · exact ⟨_, by simp [applyConsume, exec_bind, hseq, htime]; rfl⟩
    · have hamount : l.capacityAt call.timestamp < call.amountSats := by
        by_contra hle
        exact h ⟨hseq, Nat.not_lt.mp htime, Nat.not_lt.mp hle⟩
      exact ⟨_, by simp [applyConsume, exec_bind, hseq, htime, hamount]; rfl⟩
  · exact ⟨_, by simp [applyConsume, exec_bind, hseq]; rfl⟩

/-! ## Taking over -/

theorem adoptConfig_config (l : LimiterView) (config : LimiterConfig) :
    (l.adoptConfig config).2.config = config := by
  unfold adoptConfig
  split_ifs with h
  · exact h
  · rfl

theorem adoptConfig_state (l : LimiterView) (config : LimiterConfig) :
    let adopted := (l.adoptConfig config).2.state
    adopted.numTokensAvailable ≤ l.state.numTokensAvailable ∧
      adopted.lastUpdatedAt = l.state.lastUpdatedAt ∧ adopted.nextSeq = l.state.nextSeq := by
  unfold adoptConfig
  split_ifs with h
  · exact ⟨le_rfl, rfl, rfl⟩
  · exact ⟨Nat.min_le_left _ _, rfl, rfl⟩

theorem reconcileTokenDrift_cases (hmax : l.config.maxBucketCapacity < U64_SIZE)
    (g : LimiterState) :
    (l.reconcileTokenDrift g = (false, l) ∧ (l.state.nextSeq ≠ g.nextSeq ∨
      LimiterState.SameCapacity l.config l.state g)) ∨
    (l.reconcileTokenDrift g = (true, { l with state := g }) ∧ l.state.nextSeq = g.nextSeq ∧
      ¬ LimiterState.SameCapacity l.config l.state g) := by
  rw [LimiterState.sameCapacity_iff hmax]
  unfold reconcileTokenDrift
  by_cases hseq : l.state.nextSeq = g.nextSeq
  · simp only [ne_eq, hseq, not_true, if_false, false_or, true_and]
    split_ifs with heq
    · exact .inl ⟨rfl, heq⟩
    · exact .inr ⟨rfl, heq⟩
  · simp [hseq]

end LimiterView

/-! ## The two limiters together -/

/-- Limiters of one policy that are in the same state, or that have not accepted a call since
`time` and project the same capacity from then on. -/
structure Interchangeable (config : LimiterConfig) (time : Nat) (l : LimiterView)
    (r : RateLimiter) : Prop where
  localConfig : l.config = config
  guardianConfig : r.config = config
  seq : l.state.nextSeq = r.state.nextSeq
  capacity : LimiterState.SameCapacity config l.state r.state
  state : l.state = r.state ∨ l.state.lastUpdatedAt ≤ time ∧ r.state.lastUpdatedAt ≤ time

namespace Interchangeable

variable {config : LimiterConfig} {time : Nat} {l : LimiterView} {r : RateLimiter} {call : Consume}

theorem capacityAt_eq (h : Interchangeable config time l r) {t : Nat} (ht : time ≤ t) :
    l.capacityAt t = r.state.capacityAt r.config t := by
  rw [LimiterView.capacityAt, h.localConfig, h.guardianConfig]
  rcases h.state with hstate | ⟨hlocal, hguardian⟩
  · rw [hstate]
  · exact h.capacity t (hlocal.trans ht) (hguardian.trans ht)

theorem admits_iff (h : Interchangeable config time l r) (htime : time ≤ call.timestamp) :
    l.Admits call ↔ r.Admits call.seq call.timestamp call.amountSats := by
  rw [LimiterView.Admits, RateLimiter.Admits, h.capacityAt_eq htime, h.seq]
  rcases h.state with hstate | ⟨hlocal, hguardian⟩
  · rw [hstate]
  · simp only [hlocal.trans htime, hguardian.trans htime]

theorem debited (h : Interchangeable config time l r) (htime : time ≤ call.timestamp) :
    Interchangeable config time (l.debited call) (r.debited call.timestamp call.amountSats) := by
  have hstate : (l.debited call).state = (r.debited call.timestamp call.amountSats).state := by
    simp only [LimiterView.debited, RateLimiter.debited, h.capacityAt_eq htime, h.seq]
  refine ⟨h.localConfig, h.guardianConfig, congrArg _ hstate, ?_, .inl hstate⟩
  intro t _ _
  rw [hstate]

theorem consume (call : Consume) (l : LimiterView) (r : RateLimiter)
    (htime : time ≤ call.timestamp) (h : Interchangeable config time l r) :
    let left := exec (LimiterView.applyConsume call.seq call.timestamp call.amountSats) l
    let right := exec (RateLimiter.consume call.seq call.timestamp call.amountSats) r
    left.1.isOk = right.1.isOk ∧ Interchangeable config time left.2 right.2 := by
  by_cases hadmits : l.Admits call
  · have hguardian := (h.admits_iff htime).mp hadmits
    rw [LimiterView.exec_applyConsume_of_admits hadmits,
      RateLimiter.exec_consume_of_admits hguardian]
    exact ⟨rfl, h.debited htime⟩
  · have hguardian := fun hr => hadmits ((h.admits_iff htime).mpr hr)
    obtain ⟨e, he⟩ := LimiterView.exec_applyConsume_of_not_admits hadmits
    obtain ⟨e', he'⟩ := RateLimiter.exec_consume_of_not_admits hguardian
    rw [he, he']
    exact ⟨rfl, h⟩

end Interchangeable

theorem taken_interchanges {l : LimiterView} {g : LimiterState}
    (hmax : l.config.maxBucketCapacity < U64_SIZE) (hseq : l.state.nextSeq = g.nextSeq) :
    let taken := (l.reconcileTokenDrift g).2
    taken.config = l.config ∧ taken.state.nextSeq = g.nextSeq ∧
      taken.state.lastUpdatedAt ≤ max l.state.lastUpdatedAt g.lastUpdatedAt ∧
      LimiterState.SameCapacity l.config taken.state g := by
  obtain ⟨hkept, hagree⟩ | ⟨htaken, -⟩ := LimiterView.reconcileTokenDrift_cases hmax g
  · rw [hkept]
    exact ⟨rfl, hseq, le_max_left _ _, hagree.resolve_left (not_not.mpr hseq)⟩
  · rw [htaken]
    exact ⟨rfl, rfl, le_max_right _ _, fun _ _ _ => rfl⟩

/-- After a node has taken over the guardian's policy and state, its limiter and the guardian's
project the same capacity and answer every sequence of calls alike. Reconciling keeps the state
exactly where the sequence numbers differ or the projections agree, and taking over a policy adds no
tokens. -/
theorem limiters_interchangeable (view : LimiterView) (config : LimiterConfig) (g : LimiterState)
    (hmax : config.maxBucketCapacity < U64_SIZE)
    (hview : view.config.maxBucketCapacity < U64_SIZE) :
    let adopted := (view.adoptConfig config).2
    let taken := (adopted.reconcileTokenDrift g).2
    (view.state.nextSeq = g.nextSeq →
      (∀ t, view.state.lastUpdatedAt ≤ t → g.lastUpdatedAt ≤ t →
        taken.capacityAt t = g.capacityAt config t) ∧
      ∀ r, RateLimiter.new config g = .ok r → ∀ calls : List Consume,
        (∀ call ∈ calls, view.state.lastUpdatedAt ≤ call.timestamp ∧
          g.lastUpdatedAt ≤ call.timestamp) →
        let left := callEach (fun call : Consume =>
          LimiterView.applyConsume call.seq call.timestamp call.amountSats) taken calls
        let right := callEach (fun call : Consume =>
          RateLimiter.consume call.seq call.timestamp call.amountSats) r calls
        left.1 = right.1 ∧ ∀ t, left.2.state.lastUpdatedAt ≤ t → right.2.state.lastUpdatedAt ≤ t →
          left.2.capacityAt t = right.2.state.capacityAt config t) ∧
    (view.reconcileTokenDrift g = (false, view) ↔ view.state.nextSeq ≠ g.nextSeq ∨
      ∀ t, view.state.lastUpdatedAt ≤ t → g.lastUpdatedAt ≤ t →
        view.capacityAt t = g.capacityAt view.config t) ∧
    adopted.state.numTokensAvailable ≤ view.state.numTokensAvailable ∧
    adopted.state.nextSeq = view.state.nextSeq := by
  intro adopted taken
  have hconfig : adopted.config = config := view.adoptConfig_config config
  obtain ⟨htokens, hupdated, hadopted⟩ := view.adoptConfig_state config
  refine ⟨fun hseq => ?_, ?_, htokens, hadopted⟩
  · have hmax' : adopted.config.maxBucketCapacity < U64_SIZE := by rwa [hconfig]
    obtain ⟨hpolicy, hnext, hlast, hcapacity⟩ := taken_interchanges hmax' (hadopted.trans hseq)
    rw [hconfig] at hpolicy hcapacity
    refine ⟨fun t hview ht => ?_, fun r hr calls hcalls => ?_⟩
    · rw [LimiterView.capacityAt, hpolicy]
      exact hcapacity t (hlast.trans (max_le (hupdated.trans_le hview) ht)) ht
    · obtain ⟨hrconfig, rfl⟩ := RateLimiter.new_eq_ok.mp hr
      have hstart : Interchangeable config
          (max adopted.state.lastUpdatedAt r.state.lastUpdatedAt) taken r :=
        ⟨hpolicy, hrconfig, hnext, hcapacity, .inr ⟨hlast, le_max_right _ _⟩⟩
      obtain ⟨hanswers, hend⟩ := callEach_related Interchangeable.consume
        (fun call hcall => max_le (hupdated.trans_le (hcalls call hcall).1) (hcalls call hcall).2)
        hstart
      refine ⟨hanswers, fun t hlocal hguardian => ?_⟩
      rw [LimiterView.capacityAt, hend.localConfig]
      exact hend.capacity t hlocal hguardian
  · obtain ⟨hkept, hagree⟩ | ⟨htaken, hseq, hdiffer⟩ :=
      LimiterView.reconcileTokenDrift_cases hview g
    · exact ⟨fun _ => hagree, fun _ => hkept⟩
    · rw [htaken]
      constructor
      · intro h
        cases h
      · rintro (hne | hagree)
        · exact absurd hseq hne
        · exact absurd hagree hdiffer

/-- A node whose state is three seconds older than the guardian's, on the same line of refill. -/
theorem limiters_interchangeable_of_refill :
    let view : LimiterView := ⟨⟨10, 100⟩, ⟨20, 5, 4⟩⟩
    let g : LimiterState := ⟨50, 8, 4⟩
    view.reconcileTokenDrift g = (false, view) ∧ view.capacityAt 9 = 60 ∧
      view.capacityAt 9 = g.capacityAt ⟨10, 100⟩ 9 := by
  intro view g
  obtain ⟨hsame, -⟩ :=
    limiters_interchangeable view ⟨10, 100⟩ g (by decide) (by decide)
  have hkept : ((view.adoptConfig ⟨10, 100⟩).2.reconcileTokenDrift g).2 = view := by decide +kernel
  have hcapacity := (hsame rfl).1 9 (by decide) (by decide)
  rw [hkept] at hcapacity
  exact ⟨by decide +kernel, by decide +kernel, hcapacity⟩

end HashiBridge.Node
