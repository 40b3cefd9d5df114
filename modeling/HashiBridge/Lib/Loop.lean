import HashiBridge.Lib.Bag
import HashiBridge.Lib.Run

/-!
# Loops that write one entry per round

A loop over keys whose state is seen through a view `σ → K → Option V`.
-/

namespace HashiBridge.Lib

universe u v

variable {ε : Type u} {σ K V : Type v} [DecidableEq K]

def Writes (view : σ → K → Option V) (s : σ) (k : K) (v : V) (s' : σ) : Prop :=
  ∀ k', view s' k' = if k' = k then some v else view s k'

variable {s t : σ}

/-- A loop whose rounds update an entry that satisfies `p` to one that does not: no key occurs
twice, and every listed entry is updated once. -/
theorem foldlM_update_once (view : σ → K → Option V) (p : V → Prop) (g : V → V)
    (hg : ∀ v, ¬ p (g v)) {f : σ → K → Except ε σ}
    (hf : ∀ s k s', f s k = .ok s' → ∃ v, view s k = some v ∧ p v ∧ Writes view s k (g v) s')
    {ks : List K} (h : ks.foldlM f s = .ok t) :
    ks.Nodup ∧ (∀ k ∈ ks, ∃ v, view s k = some v ∧ p v) ∧
      ∀ k, view t k = if k ∈ ks then (view s k).map g else view s k := by
  induction ks generalizing s with
  | nil =>
      obtain rfl := foldlM_nil_eq_ok.mp h
      simp
  | cons k ks ih =>
      obtain ⟨m, hm, ht⟩ := foldlM_cons_eq_ok.mp h
      obtain ⟨v, hv, hp, hw⟩ := hf s k m hm
      obtain ⟨hnodup, hall, hview⟩ := ih ht
      -- the updated entry fails `p`, so its key is not among the later ones
      have hk : k ∉ ks := by
        intro hk
        obtain ⟨v', hv', hp'⟩ := hall k hk
        rw [hw k, if_pos rfl, Option.some.injEq] at hv'
        exact hg v (hv' ▸ hp')
      have hne : ∀ k' ∈ ks, k' ≠ k := fun k' hk' hkk => hk (hkk ▸ hk')
      refine ⟨List.nodup_cons.mpr ⟨hk, hnodup⟩, ?_, ?_⟩
      · rintro k' (_ | ⟨_, hk'⟩)
        · exact ⟨v, hv, hp⟩
        · obtain ⟨v', hv', hp'⟩ := hall k' hk'
          rw [hw k', if_neg (hne k' hk')] at hv'
          exact ⟨v', hv', hp'⟩
      · intro k'
        rw [hview k', hw k']
        by_cases hkk : k' = k
        · subst hkk
          simp [hk, hv]
        · simp [hkk]

theorem foldlM_update_idem (view : σ → K → Option V) (g : V → V) (hg : ∀ v, g (g v) = g v)
    {f : σ → K → Except ε σ}
    (hf : ∀ s k s', f s k = .ok s' → ∃ v, view s k = some v ∧ Writes view s k (g v) s')
    {ks : List K} (h : ks.foldlM f s = .ok t) :
    (∀ k ∈ ks, ∃ v, view s k = some v) ∧
      ∀ k, view t k = if k ∈ ks then (view s k).map g else view s k := by
  induction ks generalizing s with
  | nil =>
      obtain rfl := foldlM_nil_eq_ok.mp h
      simp
  | cons k ks ih =>
      obtain ⟨m, hm, ht⟩ := foldlM_cons_eq_ok.mp h
      obtain ⟨v, hv, hw⟩ := hf s k m hm
      obtain ⟨hall, hview⟩ := ih ht
      constructor
      · rintro k' (_ | ⟨_, hk'⟩)
        · exact ⟨v, hv⟩
        · obtain ⟨v', hv'⟩ := hall k' hk'
          rw [hw k'] at hv'
          split_ifs at hv' with hkk
          · exact ⟨v, hkk ▸ hv⟩
          · exact ⟨v', hv'⟩
      · intro k'
        rw [hview k', hw k']
        by_cases hkk : k' = k
        · subst hkk
          by_cases hk : k' ∈ ks <;> simp [hk, hv, hg]
        · simp [hkk]

variable {A : Type v} {f : σ → A → Except ε σ} {as : List A}

theorem foldlM_insert_new (view : σ → K → Option V) (key : A → K) (value : A → V)
    (hf : ∀ s a s', f s a = .ok s' →
      view s (key a) = none ∧ Writes view s (key a) (value a) s')
    (h : as.foldlM f s = .ok t) :
    (as.map key).Nodup ∧ (∀ a ∈ as, view s (key a) = none ∧ view t (key a) = some (value a)) ∧
      ∀ k, k ∉ as.map key → view t k = view s k := by
  induction as generalizing s with
  | nil =>
      obtain rfl := foldlM_nil_eq_ok.mp h
      simp
  | cons a as ih =>
      obtain ⟨m, hm, ht⟩ := foldlM_cons_eq_ok.mp h
      obtain ⟨hnone, hw⟩ := hf s a m hm
      obtain ⟨hnodup, hall, hrest⟩ := ih ht
      have hself : view m (key a) = some (value a) := by rw [hw, if_pos rfl]
      have hk : key a ∉ as.map key := by
        intro hk
        obtain ⟨b, hb, hkey⟩ := List.mem_map.mp hk
        have := (hall b hb).1
        rw [hkey, hself] at this
        cases this
      have hne : ∀ b ∈ as, key b ≠ key a := fun b hb hkey => hk (List.mem_map.mpr ⟨b, hb, hkey⟩)
      refine ⟨List.nodup_cons.mpr ⟨hk, hnodup⟩, ?_, ?_⟩
      · rintro b (_ | ⟨_, hb⟩)
        · exact ⟨hnone, by rw [hrest _ hk, hself]⟩
        · refine ⟨?_, (hall b hb).2⟩
          have := (hall b hb).1
          rwa [hw, if_neg (hne b hb)] at this
      · intro k hkn
        rw [List.map_cons, List.mem_cons, not_or] at hkn
        rw [hrest k hkn.2, hw, if_neg hkn.1]

omit [DecidableEq K] in
theorem foldlM_each (P : A → σ → Prop)
    (hround : ∀ s a s', f s a = .ok s' → P a s')
    (hkeep : ∀ s a s' b, f s a = .ok s' → P b s → P b s')
    (h : as.foldlM f s = .ok t) : ∀ a ∈ as, P a t := by
  induction as generalizing s with
  | nil => simp
  | cons a as ih =>
      obtain ⟨m, hm, hrest⟩ := foldlM_cons_eq_ok.mp h
      rintro b (_ | ⟨_, hb⟩)
      · exact foldlM_invariant (P a) (hround s a m hm) (fun s x s' _ hs hx => hkeep s x s' a hx hs) hrest
      · exact ih hrest b hb

omit [DecidableEq K] in
/-- A loop succeeds when every round does on a state that is fit for the elements left, and leaves
one that is fit for the rest. -/
theorem foldlM_succeeds_rest (P : σ → List A → Prop)
    (hround : ∀ s a as, P s (a :: as) → ∃ s', f s a = .ok s' ∧ P s' as) {s : σ}
    (h : P s as) : ∃ t, as.foldlM f s = .ok t := by
  induction as generalizing s with
  | nil => exact ⟨s, foldlM_nil_eq_ok.mpr rfl⟩
  | cons a as ih =>
      obtain ⟨m, hm, hfit⟩ := hround s a as h
      obtain ⟨t, ht⟩ := ih hfit
      exact ⟨t, foldlM_cons_eq_ok.mpr ⟨m, hm, ht⟩⟩

theorem foldlM_run {τ β : Type*} {step : τ → β → τ → Prop} (view : σ → τ)
    (P : σ → Prop) (Q : β → Prop) (hs : P s)
    (hround : ∀ s a s', a ∈ as → P s → f s a = .ok s' →
      P s' ∧ ∃ tr, Run step (view s) tr (view s') ∧ ∀ b ∈ tr, Q b)
    (h : as.foldlM f s = .ok t) : P t ∧ ∃ tr, Run step (view s) tr (view t) ∧ ∀ b ∈ tr, Q b := by
  induction as generalizing s with
  | nil =>
      obtain rfl := foldlM_nil_eq_ok.mp h
      exact ⟨hs, [], .nil, by simp⟩
  | cons a as ih =>
      obtain ⟨m, hm, ht⟩ := foldlM_cons_eq_ok.mp h
      obtain ⟨hPm, tr, hrun, hQ⟩ := hround s a m (by simp) hs hm
      obtain ⟨hPt, tr', hrun', hQ'⟩ := ih hPm (fun s a s' ha => hround s a s' (by simp [ha])) ht
      exact ⟨hPt, tr ++ tr', hrun.trans hrun', List.forall_mem_append.mpr ⟨hQ, hQ'⟩⟩

end HashiBridge.Lib
