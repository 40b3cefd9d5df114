import HashiBridge.Guardian.Limiter
import HashiBridge.Lib.Budget

/-!
# The outflow bound

An accepted call takes its amount from what the call before left in the bucket and what was refilled
since.
-/

namespace HashiBridge.Guardian

open Lib HashiBridge.Core

namespace RateLimiter

variable {l l' : RateLimiter} {seq : UInt64} {timestamp amount : Nat}

/-! ## One call -/

theorem new_eq_ok {config : LimiterConfig} {state : LimiterState} :
    new config state = .ok l ↔ l.config = config ∧ l.state = state := by
  unfold new
  split_ifs with h
  · simp only [false_iff]
    rintro ⟨rfl, rfl⟩
    exact absurd l.tokens_le (Nat.not_le.mpr h)
  · obtain ⟨_, _, _⟩ := l
    simp [@eq_comm _ config, @eq_comm _ state]

theorem new_cappedTo (config : LimiterConfig) (state : LimiterState) :
    ∃ l, new config (state.cappedTo config) = .ok l :=
  ⟨⟨config, state.cappedTo config, Nat.min_le_right _ _⟩, new_eq_ok.mpr ⟨rfl, rfl⟩⟩

def debited (l : RateLimiter) (timestamp amount : Nat) : RateLimiter where
  config := l.config
  state := ⟨l.state.capacityAt l.config timestamp - amount, timestamp, l.state.nextSeq + 1⟩
  tokens_le := (Nat.sub_le _ _).trans (l.state.capacityAt_le_max _ _)

def Admits (l : RateLimiter) (seq : UInt64) (timestamp amount : Nat) : Prop :=
  seq = l.state.nextSeq ∧ l.state.lastUpdatedAt ≤ timestamp ∧
    amount ≤ l.state.capacityAt l.config timestamp

theorem exec_consume_of_admits (h : l.Admits seq timestamp amount) :
    exec (consume seq timestamp amount) l = (.ok (), l.debited timestamp amount) := by
  obtain ⟨hseq, htime, hamount⟩ := h
  simp [consume, exec_bind, hseq, Nat.not_lt.mpr htime, Nat.not_lt.mpr hamount, debited]

theorem exec_consume_of_not_admits (h : ¬ l.Admits seq timestamp amount) :
    ∃ e, exec (consume seq timestamp amount) l = (.error e, l) := by
  by_cases hseq : seq = l.state.nextSeq
  · by_cases htime : timestamp < l.state.lastUpdatedAt
    · exact ⟨_, by simp [consume, exec_bind, hseq, htime]; rfl⟩
    · have hamount : l.state.capacityAt l.config timestamp < amount := by
        by_contra hle
        exact h ⟨hseq, Nat.not_lt.mp htime, Nat.not_lt.mp hle⟩
      exact ⟨_, by simp [consume, exec_bind, hseq, htime, hamount]; rfl⟩
  · exact ⟨_, by simp [consume, exec_bind, hseq]; rfl⟩

theorem consume_rejected {e : GuardianError}
    (h : exec (consume seq timestamp amount) l = (.error e, l')) : l' = l := by
  by_cases hadmits : l.Admits seq timestamp amount
  · rw [exec_consume_of_admits hadmits] at h
    cases h
  · obtain ⟨e', he⟩ := exec_consume_of_not_admits hadmits
    rw [he] at h
    cases h
    rfl

/-! ## Runs -/

structure Accepted.Follows (a : Accepted) (s : LimiterState) : Prop where
  seq : a.seq = s.nextSeq
  time : s.lastUpdatedAt ≤ a.timestamp
  paid : a.amountSats + a.postState.numTokensAvailable ≤
    s.numTokensAvailable + a.config.refillRate * (a.timestamp - s.lastUpdatedAt)
  within : a.amountSats + a.postState.numTokensAvailable ≤ a.config.maxBucketCapacity
  updated : a.postState.lastUpdatedAt = a.timestamp
  next : a.postState.nextSeq = a.seq + 1

def Continues : LimiterState → List Accepted → Prop
  | _, [] => True
  | s, a :: log => a.Follows s ∧ Continues a.postState log

structure Lowers (s s' : LimiterState) : Prop where
  tokens : s'.numTokensAvailable ≤ s.numTokensAvailable
  time : s'.lastUpdatedAt = s.lastUpdatedAt
  seq : s'.nextSeq = s.nextSeq

theorem Lowers.continues {s s' : LimiterState} {log : List Accepted} (h : Lowers s s')
    (hlog : Continues s' log) : Continues s log := by
  cases log with
  | nil => trivial
  | cons a log =>
      obtain ⟨hfollows, hrest⟩ := hlog
      refine ⟨⟨hfollows.seq.trans h.seq, h.time ▸ hfollows.time, ?_, hfollows.within,
        hfollows.updated, hfollows.next⟩, hrest⟩
      have hpaid := hfollows.paid
      have htokens := h.tokens
      rw [h.time] at hpaid
      omega

theorem follows_debited (h : l.Admits seq timestamp amount) :
    Accepted.Follows ⟨l.config, seq, timestamp, amount, (l.debited timestamp amount).state⟩
      l.state := by
  obtain ⟨hseq, htime, hamount⟩ := h
  have hsub : amount + (l.state.capacityAt l.config timestamp - amount) =
      l.state.capacityAt l.config timestamp := Nat.add_sub_cancel' hamount
  exact {
    seq := hseq
    time := htime
    paid := hsub.trans_le (l.state.capacityAt_le_refilled _ _)
    within := hsub.trans_le (l.state.capacityAt_le_max _ _)
    updated := rfl
    next := congrArg (· + 1) hseq.symm }

/-- A step either accepts a call that follows the state, or accepts nothing and at most takes
tokens away. -/
theorem step_cases (l : RateLimiter) (event : Event) :
    (∃ a, (l.step event).2 = some a ∧ a.Follows l.state ∧
      a.postState = (l.step event).1.state ∧ a.config = l.config) ∨
    ((l.step event).2 = none ∧ Lowers l.state (l.step event).1.state) := by
  cases event with
  | consume seq timestamp amount =>
      by_cases h : l.Admits seq timestamp amount
      · simp only [step, exec_consume_of_admits h]
        exact .inl ⟨_, rfl, follows_debited h, rfl, rfl⟩
      · obtain ⟨e, he⟩ := exec_consume_of_not_admits h
        simp only [step, he]
        exact .inr ⟨trivial, Nat.le_refl _, rfl, rfl⟩
  | restart config =>
      obtain ⟨next, hnext⟩ := new_cappedTo config l.state
      obtain ⟨_, hstate⟩ := new_eq_ok.mp hnext
      simp only [step, hnext, hstate]
      exact .inr ⟨trivial, Nat.min_le_left _ _, rfl, rfl⟩

theorem run_continues (l : RateLimiter) (events : List Event) :
    Continues l.state (l.run events).2 := by
  induction events generalizing l with
  | nil => trivial
  | cons event events ih =>
      have hrest := ih (l.step event).1
      rcases step_cases l event with ⟨a, hstep, hfollows, hpost, _⟩ | ⟨hnone, hlowers⟩
      · simp only [run, hstep]
        exact ⟨hfollows, hpost ▸ hrest⟩
      · simp only [run, hnone]
        exact hlowers.continues hrest

theorem run_config {events : List Event} (h : ∀ config, Event.restart config ∉ events)
    (l : RateLimiter) : ∀ a ∈ (l.run events).2, a.config = l.config := by
  induction events generalizing l with
  | nil => simp [run]
  | cons event events ih =>
      have hrest := ih (fun config hmem => h config (List.mem_cons_of_mem _ hmem))
        (l.step event).1
      have hkeeps : (l.step event).1.config = l.config := by
        cases event with
        | consume seq timestamp amount =>
            by_cases hadmits : l.Admits seq timestamp amount
            · simp [step, exec_consume_of_admits hadmits, debited]
            · obtain ⟨e, he⟩ := exec_consume_of_not_admits hadmits
              simp [step, he]
        | restart config => exact absurd List.mem_cons_self (h config)
      rw [hkeeps] at hrest
      intro a ha
      rcases step_cases l event with ⟨b, hstep, _, _, hconfig⟩ | ⟨hnone, _⟩
      · simp only [run, hstep, Option.toList_some, List.singleton_append, List.mem_cons] at ha
        rcases ha with rfl | ha
        · exact hconfig
        · exact hrest a ha
      · simp only [run, hnone, Option.toList_none, List.nil_append] at ha
        exact hrest a ha

/-! ## Windows -/

theorem Continues.seq_eq {s : LimiterState} {log : List Accepted} (h : Continues s log) {i : Nat}
    {a : Accepted} (ha : log[i]? = some a) : a.seq = s.nextSeq + UInt64.ofNat i := by
  induction log generalizing s i with
  | nil => simp at ha
  | cons b log ih =>
      obtain ⟨hfollows, hrest⟩ := h
      cases i with
      | zero =>
          obtain rfl : b = a := by simpa using ha
          simpa using hfollows.seq
      | succ i =>
          rw [ih hrest (by simpa using ha), hfollows.next, hfollows.seq, UInt64.ofNat_add,
            UInt64.add_assoc, UInt64.add_comm 1]
          rfl

theorem Continues.of_append {s : LimiterState} {before log : List Accepted}
    (h : Continues s (before ++ log)) : ∃ s', Continues s' log := by
  induction before generalizing s with
  | nil => exact ⟨s, h⟩
  | cons a before ih => exact ih h.2

def Accepted.spend (a : Accepted) : Spend :=
  ⟨a.timestamp, a.amountSats, a.postState.numTokensAvailable⟩

theorem Continues.covered {s : LimiterState} {rate : Nat} {window after : List Accepted}
    (h : Continues s (window ++ after)) (hrate : ∀ a ∈ window, a.config.refillRate ≤ rate) :
    Covered rate s.lastUpdatedAt s.numTokensAvailable (window.map Accepted.spend) := by
  induction window generalizing s with
  | nil => trivial
  | cons a window ih =>
      obtain ⟨hfollows, hrest⟩ := h
      have hpaid := hfollows.paid
      have hmul := Nat.mul_le_mul_right (a.timestamp - s.lastUpdatedAt)
        (hrate a List.mem_cons_self)
      have hcovered := ih hrest fun b hb => hrate b (List.mem_cons_of_mem _ hb)
      rw [hfollows.updated] at hcovered
      refine ⟨hfollows.time, ?_, hcovered⟩
      simp only [Accepted.spend]
      omega

/-- From the first call of a window to the last one, both included, at most a full bucket and
the refill of the time between flow out. -/
def WithinBudget (capacity rate : Nat) (window : List Accepted) : Prop :=
  ∀ first last, window.head? = some first → window.getLast? = some last →
    first.timestamp ≤ last.timestamp ∧
      (window.map Accepted.amountSats).sum ≤
        capacity + rate * (last.timestamp - first.timestamp)

theorem Continues.withinBudget {s : LimiterState} {capacity rate : Nat}
    {before window after : List Accepted} (h : Continues s (before ++ window ++ after))
    (hconfig : ∀ a ∈ window,
      a.config.maxBucketCapacity ≤ capacity ∧ a.config.refillRate ≤ rate) :
    WithinBudget capacity rate window := by
  intro first last hfirst hlast
  obtain ⟨rest, rfl⟩ := List.head?_eq_some_iff.mp hfirst
  rw [List.append_assoc] at h
  obtain ⟨s', hfollows, hrest⟩ := h.of_append
  have hcovered := hrest.covered fun a ha => (hconfig a (List.mem_cons_of_mem _ ha)).2
  rw [hfollows.updated] at hcovered
  have hend : endTime first.timestamp (rest.map Accepted.spend) = last.timestamp := by
    rw [List.getLast?_cons] at hlast
    simp only [endTime, List.getLast?_map, Option.map_map]
    cases hl : rest.getLast? with
    | none => simp_all
    | some b => simp_all [Accepted.spend]
  have hsum : ((rest.map Accepted.spend).map Spend.amount).sum =
      (rest.map Accepted.amountSats).sum := by
    rw [List.map_map]
    rfl
  have htime := hcovered.le_endTime
  have hle := hcovered.sum_le
  have hwithin := hfollows.within
  have hcapacity := (hconfig first List.mem_cons_self).1
  rw [hend] at htime hle
  rw [hsum] at hle
  rw [List.map_cons, List.sum_cons]
  exact ⟨htime, by omega⟩

/-! ## The bound -/

/-- Over every run of a limiter, any window of accepted calls stays within a full bucket and the
refill of its duration: those of its configuration in one session, the largest ones across
sessions that recover the state. The bucket never overflows, each accepted sequence number is the
`u64` successor of the one before, a rejected call changes nothing and a recovered state is usable. -/
theorem outflow_bounded {config : LimiterConfig} {state : LimiterState} {limiter : RateLimiter}
    (hnew : new config state = .ok limiter) (events : List Event) :
    let final := (limiter.run events).1
    let log := (limiter.run events).2
    ((∀ config', Event.restart config' ∉ events) →
      ∀ before window after, log = before ++ window ++ after →
        WithinBudget config.maxBucketCapacity config.refillRate window) ∧
    (∀ before window after capacity rate, log = before ++ window ++ after →
      (∀ a ∈ window, a.config.maxBucketCapacity ≤ capacity ∧ a.config.refillRate ≤ rate) →
      WithinBudget capacity rate window) ∧
    final.state.numTokensAvailable ≤ final.config.maxBucketCapacity ∧
    (∀ i a, log[i]? = some a → a.seq = state.nextSeq + UInt64.ofNat i) ∧
    (∀ seq timestamp amount e next,
      exec (consume seq timestamp amount) final = (.error e, next) → next = final) ∧
    ∀ config', ∃ next, new config' (final.state.cappedTo config') = .ok next := by
  obtain ⟨rfl, rfl⟩ := new_eq_ok.mp hnew
  have hcontinues := run_continues limiter events
  refine ⟨?_, ?_, (limiter.run events).1.tokens_le, fun i a => hcontinues.seq_eq,
    fun _ _ _ _ _ => consume_rejected, fun config' => new_cappedTo config' _⟩
  · intro hsession before window after hlog
    rw [hlog] at hcontinues
    refine hcontinues.withinBudget fun a ha => ?_
    have hconfig := run_config hsession limiter a (by rw [hlog]; simp [ha])
    rw [hconfig]
    exact ⟨Nat.le_refl _, Nat.le_refl _⟩
  · intro before window after capacity rate hlog hbound
    rw [hlog] at hcontinues
    exact hcontinues.withinBudget hbound

/-- Two sessions: a call, one out of turn, then a larger refill and a smaller bucket. -/
def twoSessions : List Event :=
  [.consume 0 5 60, .consume 0 6 10, .restart ⟨20, 80⟩, .consume 1 6 50]

theorem outflow_bounded_of_sessions :
    ∃ limiter, new ⟨10, 100⟩ (.genesis ⟨10, 100⟩) = .ok limiter ∧
      (limiter.run twoSessions).2.map Accepted.amountSats = [60, 50] ∧
      WithinBudget 100 20 (limiter.run twoSessions).2 := by
  obtain ⟨limiter, hnew⟩ := exists_of_isOk
    (by decide : (new ⟨10, 100⟩ (.genesis ⟨10, 100⟩)).isOk = true)
  have hlimiter : limiter = ⟨⟨10, 100⟩, .genesis ⟨10, 100⟩, by decide⟩ := by
    cases hnew
    rfl
  refine ⟨limiter, hnew, ?_, ?_⟩
  · rw [hlimiter]
    decide +kernel
  · refine (outflow_bounded hnew twoSessions).2.1 [] _ [] 100 20 (by simp) ?_
    rw [hlimiter]
    decide +kernel

end RateLimiter

end HashiBridge.Guardian
