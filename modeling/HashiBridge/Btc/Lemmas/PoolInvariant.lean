import HashiBridge.Btc.Ledger

/-!
# The pool and the transactions that use it

`PoolInv` relates the records, the spent set and the transactions' bodies.
-/

namespace HashiBridge.Btc

open Lib HashiBridge.Core

structure PoolInv (records : UtxoId → Option UtxoRecord) (spent : UtxoId → Prop)
    (body : Address → Option TxnBody) : Prop where
  record_id : ∀ {id r}, records id = some r → r.utxo.id = id
  disjoint : ∀ {id r}, records id = some r → ¬ spent id
  unlocked : ∀ {id r}, records id = some r → r.spentBy = none → r.spentEpoch = none
  locked : ∀ {id r w}, records id = some r → r.spentBy = some w →
    ∃ b, body w = some b ∧ id ∈ b.inputIds ∧ r.spentEpoch.isSome = b.confirmed
  spent_input : ∀ {id}, spent id → ∃ w b, body w = some b ∧ id ∈ b.inputIds ∧ b.confirmed = true
  inputs_nodup : ∀ {w b}, body w = some b → b.inputIds.Nodup
  input_state : ∀ {w b id}, body w = some b → id ∈ b.inputIds →
    (∃ r, records id = some r ∧ r.spentBy = some w) ∨ (spent id ∧ b.confirmed = true)
  input_unique : ∀ {w b w' b' id}, body w = some b → body w' = some b' → id ∈ b.inputIds →
    id ∈ b'.inputIds → w = w'
  produced : ∀ {id r w}, records id = some r → r.producedBy = some w →
    ∃ b, body w = some b ∧ id ∈ b.changeIds ∧ b.confirmed = false
  change_state : ∀ {w b id}, body w = some b → id ∈ b.changeIds →
    (∃ r, records id = some r ∧ (b.confirmed = false → r.producedBy = some w)) ∨ spent id
  change_unique : ∀ {w b w' b' id}, body w = some b → body w' = some b' → id ∈ b.changeIds →
    id ∈ b'.changeIds → w = w'

namespace PoolInv

variable {records records' : UtxoId → Option UtxoRecord} {spent spent' : UtxoId → Prop}
  {body body' : Address → Option TxnBody}

theorem empty : PoolInv (fun _ => none) (fun _ => False) (fun _ => none) := by
  constructor <;> simp

theorem receive (h : PoolInv records spent body) {utxo : Utxo} (hnew : records utxo.id = none)
    (hspent : ¬ spent utxo.id)
    (hrec : ∀ id, records' id = if id = utxo.id then some ⟨utxo, none, none, none⟩ else records id) :
    PoolInv records' spent body := by
  have hkept : ∀ {id r}, records id = some r → records' id = some r := by
    intro id r hr
    rw [hrec, if_neg (by rintro rfl; rw [hnew] at hr; cases hr), hr]
  have hcases : ∀ {id r}, records' id = some r →
      (id = utxo.id ∧ r = ⟨utxo, none, none, none⟩) ∨ records id = some r := by
    intro id r hr
    rw [hrec] at hr
    split_ifs at hr with hid
    · exact .inl ⟨hid, (Option.some.inj hr).symm⟩
    · exact .inr hr
  exact { h with
    record_id := by intro id r hr; rcases hcases hr with ⟨rfl, rfl⟩ | hr; exacts [rfl, h.record_id hr]
    disjoint := by intro id r hr; rcases hcases hr with ⟨rfl, rfl⟩ | hr; exacts [hspent, h.disjoint hr]
    unlocked := by
      intro id r hr hs
      rcases hcases hr with ⟨rfl, rfl⟩ | hr
      exacts [rfl, h.unlocked hr hs]
    locked := by
      intro id r w hr hs
      rcases hcases hr with ⟨rfl, rfl⟩ | hr
      · cases hs
      · exact h.locked hr hs
    input_state := by
      intro w b id hb hid
      rcases h.input_state hb hid with ⟨r, hr, hs⟩ | hspent
      exacts [.inl ⟨r, hkept hr, hs⟩, .inr hspent]
    produced := by
      intro id r w hr hp
      rcases hcases hr with ⟨rfl, rfl⟩ | hr
      · cases hp
      · exact h.produced hr hp
    change_state := by
      intro w b id hb hid
      rcases h.change_state hb hid with ⟨r, hr, hp⟩ | hspent
      exacts [.inl ⟨r, hkept hr, hp⟩, .inr hspent] }

theorem commit (h : PoolInv records spent body) {w : Address} {b : TxnBody}
    (hfresh : body w = none) (hbody : ∀ w', body' w' = if w' = w then some b else body w')
    (hconf : b.confirmed = false) (hnodup : b.inputIds.Nodup)
    (hfree : ∀ id ∈ b.inputIds, ∃ r, records id = some r ∧ r.spentBy = none)
    (hlocked : ∀ id ∈ b.inputIds, records' id =
      (records id).map fun r => { r with spentBy := some w })
    (hnew : ∀ id ∈ b.changeIds, records id = none ∧ ¬ spent id)
    (hadded : ∀ id ∈ b.changeIds, ∃ u, u.id = id ∧ records' id = some ⟨u, some w, none, none⟩)
    (hrest : ∀ id, id ∉ b.inputIds → id ∉ b.changeIds → records' id = records id) :
    PoolInv records' spent body' := by
  -- a record of the new pool is a locked input, a new change output or an old record
  have hcases : ∀ {id r}, records' id = some r →
      (id ∈ b.inputIds ∧ ∃ r₀, records id = some r₀ ∧ r₀.spentBy = none ∧
        r = { r₀ with spentBy := some w }) ∨
      (id ∈ b.changeIds ∧ ∃ u, u.id = id ∧ r = ⟨u, some w, none, none⟩) ∨
      (id ∉ b.inputIds ∧ records id = some r) := by
    intro id r hr
    by_cases hin : id ∈ b.inputIds
    · obtain ⟨r₀, hr₀, hs₀⟩ := hfree id hin
      rw [hlocked id hin, hr₀] at hr
      exact .inl ⟨hin, r₀, hr₀, hs₀, (Option.some.inj hr).symm⟩
    · by_cases hch : id ∈ b.changeIds
      · obtain ⟨u, hu, hr'⟩ := hadded id hch
        rw [hr'] at hr
        exact .inr (.inl ⟨hch, u, hu, (Option.some.inj hr).symm⟩)
      · rw [hrest id hin hch] at hr
        exact .inr (.inr ⟨hin, hr⟩)
  have hself : body' w = some b := by rw [hbody, if_pos rfl]
  have hkept : ∀ {w' b'}, body w' = some b' → body' w' = some b' := by grind
  have hbodies : ∀ {w' b'}, body' w' = some b' → (w' = w ∧ b' = b) ∨ body w' = some b' := by grind
  -- an input of `w` was not locked before, so no earlier transaction lists it
  have hinput : ∀ {w' b' id}, body w' = some b' → id ∈ b'.inputIds → id ∉ b.inputIds := by
    intro w' b' id hb' hid' hid
    obtain ⟨r, hr, hs⟩ := hfree id hid
    rcases h.input_state hb' hid' with ⟨r', hr', hs'⟩ | ⟨hspent, -⟩
    · grind
    · exact h.disjoint hr hspent
  have hchange : ∀ {w' b' id}, body w' = some b' → id ∈ b'.changeIds → id ∉ b.changeIds := by
    intro w' b' id hb' hid' hid
    rcases h.change_state hb' hid' with ⟨r', hr', -⟩ | hspent
    · rw [(hnew id hid).1] at hr'
      cases hr'
    · exact (hnew id hid).2 hspent
  constructor
  case record_id =>
    intro id r hr
    rcases hcases hr with ⟨-, r₀, hr₀, -, rfl⟩ | ⟨-, u, hu, rfl⟩ | ⟨-, hr⟩
    exacts [(h.record_id hr₀ : r₀.utxo.id = id), hu, h.record_id hr]
  case disjoint =>
    intro id r hr
    rcases hcases hr with ⟨-, r₀, hr₀, -, -⟩ | ⟨hid, -⟩ | ⟨-, hr⟩
    exacts [h.disjoint hr₀, (hnew id hid).2, h.disjoint hr]
  case unlocked =>
    intro id r hr hs
    rcases hcases hr with ⟨-, r₀, -, -, rfl⟩ | ⟨-, u, -, rfl⟩ | ⟨-, hr⟩
    · cases hs
    · rfl
    · exact h.unlocked hr hs
  case locked =>
    intro id r w' hr hs
    rcases hcases hr with ⟨hid, r₀, hr₀, hs₀, rfl⟩ | ⟨-, u, -, rfl⟩ | ⟨-, hr⟩
    · cases hs
      refine ⟨b, hself, hid, ?_⟩
      rw [hconf, show _ = none from h.unlocked hr₀ hs₀]
      rfl
    · cases hs
    · obtain ⟨b', hb', hid, heq⟩ := h.locked hr hs
      exact ⟨b', hkept hb', hid, heq⟩
  case spent_input =>
    intro id hid
    obtain ⟨w', b', hb', hrest⟩ := h.spent_input hid
    exact ⟨w', b', hkept hb', hrest⟩
  case inputs_nodup =>
    intro w' b' hb'
    rcases hbodies hb' with ⟨-, rfl⟩ | hb'
    exacts [hnodup, h.inputs_nodup hb']
  case input_state =>
    intro w' b' id hb' hid
    rcases hbodies hb' with ⟨rfl, rfl⟩ | hb'
    · obtain ⟨r, hr, -⟩ := hfree id hid
      exact .inl ⟨_, by rw [hlocked id hid, hr]; rfl, rfl⟩
    · have hnot := hinput hb' hid
      rcases h.input_state hb' hid with ⟨r, hr, hs⟩ | hspent
      · have hnochange : id ∉ b.changeIds := fun hc => by
          rw [(hnew id hc).1] at hr
          cases hr
        exact .inl ⟨r, by rw [hrest id hnot hnochange, hr], hs⟩
      · exact .inr hspent
  case input_unique =>
    intro w₁ b₁ w₂ b₂ id hb₁ hb₂ hid₁ hid₂
    rcases hbodies hb₁ with ⟨rfl, rfl⟩ | hb₁ <;> rcases hbodies hb₂ with ⟨rfl, rfl⟩ | hb₂
    · rfl
    · exact absurd hid₁ (hinput hb₂ hid₂)
    · exact absurd hid₂ (hinput hb₁ hid₁)
    · exact h.input_unique hb₁ hb₂ hid₁ hid₂
  case produced =>
    intro id r w' hr hp
    rcases hcases hr with ⟨-, r₀, hr₀, -, rfl⟩ | ⟨hid, u, -, rfl⟩ | ⟨-, hr⟩
    · obtain ⟨b', hb', hrest⟩ := h.produced hr₀ hp
      exact ⟨b', hkept hb', hrest⟩
    · cases hp
      exact ⟨b, hself, hid, hconf⟩
    · obtain ⟨b', hb', hrest⟩ := h.produced hr hp
      exact ⟨b', hkept hb', hrest⟩
  case change_state =>
    intro w' b' id hb' hid
    rcases hbodies hb' with ⟨rfl, rfl⟩ | hb'
    · obtain ⟨u, -, hu⟩ := hadded id hid
      exact .inl ⟨_, hu, fun _ => rfl⟩
    · rcases h.change_state hb' hid with ⟨r, hr, hp⟩ | hspent
      · left
        by_cases hin : id ∈ b.inputIds
        · exact ⟨{ r with spentBy := some w }, by rw [hlocked id hin, hr]; rfl, hp⟩
        · exact ⟨r, by rw [hrest id hin (hchange hb' hid), hr], hp⟩
      · exact .inr hspent
  case change_unique =>
    intro w₁ b₁ w₂ b₂ id hb₁ hb₂ hid₁ hid₂
    rcases hbodies hb₁ with ⟨rfl, rfl⟩ | hb₁ <;> rcases hbodies hb₂ with ⟨rfl, rfl⟩ | hb₂
    · rfl
    · exact absurd hid₁ (hchange hb₂ hid₂)
    · exact absurd hid₂ (hchange hb₁ hid₁)
    · exact h.change_unique hb₁ hb₂ hid₁ hid₂

/-- A confirmation marks the inputs spent and promotes the change that is still recorded. -/
theorem confirm (h : PoolInv records spent body) {w : Address} {b : TxnBody} {epoch : Nat}
    (hw : body w = some b) (hconf : b.confirmed = false)
    (hbody : ∀ w', body' w' = if w' = w then some { b with confirmed := true } else body w')
    (hrec : ∀ id, records' id = (records id).map fun r =>
      { r with
        spentEpoch := if id ∈ b.inputIds then some epoch else r.spentEpoch
        producedBy := if id ∈ b.changeIds then none else r.producedBy }) :
    PoolInv records' spent body' := by
  have hcases : ∀ {id r}, records' id = some r → ∃ r₀, records id = some r₀ ∧
      r.utxo = r₀.utxo ∧ r.spentBy = r₀.spentBy ∧
      r.spentEpoch = (if id ∈ b.inputIds then some epoch else r₀.spentEpoch) ∧
      r.producedBy = (if id ∈ b.changeIds then none else r₀.producedBy) := by
    intro id r hr
    rw [hrec] at hr
    obtain ⟨r₀, hr₀, rfl⟩ := Option.map_eq_some_iff.mp hr
    exact ⟨r₀, hr₀, rfl, rfl, rfl, rfl⟩
  have hkept : ∀ {id r₀}, records id = some r₀ → ∃ r, records' id = some r ∧
      r.spentBy = r₀.spentBy ∧
      r.producedBy = (if id ∈ b.changeIds then none else r₀.producedBy) := by
    intro id r₀ hr₀
    have hr := hrec id
    rw [hr₀, Option.map_some] at hr
    exact ⟨_, hr, rfl, rfl⟩
  -- the bodies change in the confirmation flag of `w` only
  have hback : ∀ {w' b'}, body' w' = some b' → ∃ b₀, body w' = some b₀ ∧
      b'.inputIds = b₀.inputIds ∧ b'.changeIds = b₀.changeIds ∧
      b'.confirmed = (if w' = w then true else b₀.confirmed) := by
    intro w' b' hb'
    rw [hbody] at hb'
    split_ifs at hb' with hw'
    · subst hw'
      cases hb'
      exact ⟨b, hw, rfl, rfl, by simp⟩
    · exact ⟨b', hb', rfl, rfl, by simp [hw']⟩
  have hforth : ∀ {w' b₀}, body w' = some b₀ → ∃ b', body' w' = some b' ∧
      b'.inputIds = b₀.inputIds ∧ b'.changeIds = b₀.changeIds ∧
      b'.confirmed = (if w' = w then true else b₀.confirmed) := by
    intro w' b₀ hb₀
    by_cases hw' : w' = w
    · subst hw'
      rw [hw] at hb₀
      cases hb₀
      have hb := hbody w'
      rw [if_pos rfl] at hb
      exact ⟨_, hb, rfl, rfl, by simp⟩
    · exact ⟨b₀, by rw [hbody, if_neg hw', hb₀], rfl, rfl, by simp [hw']⟩
  constructor
  case record_id =>
    intro id r hr
    obtain ⟨r₀, hr₀, hutxo, -⟩ := hcases hr
    rw [hutxo, h.record_id hr₀]
  case disjoint =>
    intro id r hr
    obtain ⟨r₀, hr₀, -⟩ := hcases hr
    exact h.disjoint hr₀
  case unlocked =>
    intro id r hr hs
    obtain ⟨r₀, hr₀, -, hs₀, he, -⟩ := hcases hr
    have hnot : id ∉ b.inputIds := by
      intro hin
      rcases h.input_state hw hin with ⟨r₁, hr₁, hs₁⟩ | ⟨-, hc⟩
      · grind
      · rw [hconf] at hc
        cases hc
    rw [he, if_neg hnot]
    exact h.unlocked hr₀ (hs₀ ▸ hs)
  case locked =>
    intro id r w' hr hs
    obtain ⟨r₀, hr₀, -, hs₀, he, -⟩ := hcases hr
    obtain ⟨b₀, hb₀, hin, heq⟩ := h.locked hr₀ (hs₀ ▸ hs)
    obtain ⟨b', hb', hinp, -, hc⟩ := hforth hb₀
    refine ⟨b', hb', hinp ▸ hin, ?_⟩
    -- only `w` lists the inputs of `w`
    by_cases hw' : w' = w
    · subst hw'
      rw [hw] at hb₀
      cases hb₀
      simp [he, hin, hc]
    · have hnot : id ∉ b.inputIds := fun hin' => hw' (h.input_unique hb₀ hw hin hin')
      simp [he, hnot, hc, hw', heq]
  case spent_input =>
    intro id hid
    obtain ⟨w', b₀, hb₀, hin, hc₀⟩ := h.spent_input hid
    obtain ⟨b', hb', hinp, -, hc⟩ := hforth hb₀
    exact ⟨w', b', hb', hinp ▸ hin, by rw [hc, hc₀]; simp⟩
  case inputs_nodup =>
    intro w' b' hb'
    obtain ⟨b₀, hb₀, hinp, -⟩ := hback hb'
    exact hinp ▸ h.inputs_nodup hb₀
  case input_state =>
    intro w' b' id hb' hin
    obtain ⟨b₀, hb₀, hinp, -, hc⟩ := hback hb'
    rcases h.input_state hb₀ (hinp ▸ hin) with ⟨r₀, hr₀, hs₀⟩ | ⟨hspent, hc₀⟩
    · obtain ⟨r, hr, hs, -⟩ := hkept hr₀
      exact .inl ⟨r, hr, hs.trans hs₀⟩
    · exact .inr ⟨hspent, by rw [hc, hc₀]; simp⟩
  case input_unique =>
    intro w₁ b₁ w₂ b₂ id hb₁ hb₂ hid₁ hid₂
    obtain ⟨c₁, hc₁, hinp₁, -⟩ := hback hb₁
    obtain ⟨c₂, hc₂, hinp₂, -⟩ := hback hb₂
    exact h.input_unique hc₁ hc₂ (hinp₁ ▸ hid₁) (hinp₂ ▸ hid₂)
  case produced =>
    intro id r w' hr hp
    obtain ⟨r₀, hr₀, -, -, -, hp₀⟩ := hcases hr
    have hnot : id ∉ b.changeIds := fun hch => by
      rw [hp₀, if_pos hch] at hp
      cases hp
    rw [hp₀, if_neg hnot] at hp
    obtain ⟨b₀, hb₀, hch, hc₀⟩ := h.produced hr₀ hp
    obtain ⟨b', hb', -, hchg, hc⟩ := hforth hb₀
    have hw' : w' ≠ w := by
      rintro rfl
      rw [hw] at hb₀
      cases hb₀
      exact hnot hch
    exact ⟨b', hb', hchg ▸ hch, by rw [hc, if_neg hw', hc₀]⟩
  case change_state =>
    intro w' b' id hb' hch
    obtain ⟨b₀, hb₀, -, hchg, hc⟩ := hback hb'
    rcases h.change_state hb₀ (hchg ▸ hch) with ⟨r₀, hr₀, hp₀⟩ | hspent
    · obtain ⟨r, hr, -, hp⟩ := hkept hr₀
      refine .inl ⟨r, hr, fun hc' => ?_⟩
      -- an unconfirmed transaction is not `w`, whose change outputs no other transaction has
      have hw' : w' ≠ w := fun heq => by simp [hc, heq] at hc'
      have hnot : id ∉ b.changeIds := fun hch' =>
        hw' (h.change_unique hb₀ hw (hchg ▸ hch) hch')
      rw [hp, if_neg hnot]
      exact hp₀ (by rwa [hc, if_neg hw'] at hc')
    · exact .inr hspent
  case change_unique =>
    intro w₁ b₁ w₂ b₂ id hb₁ hb₂ hid₁ hid₂
    obtain ⟨c₁, hc₁, -, hchg₁, -⟩ := hback hb₁
    obtain ⟨c₂, hc₂, -, hchg₂, -⟩ := hback hb₂
    exact h.change_unique hc₁ hc₂ (hchg₁ ▸ hid₁) (hchg₂ ▸ hid₂)

theorem cleanup (h : PoolInv records spent body) {id₀ : UtxoId} {r₀ : UtxoRecord} {epoch : Nat}
    (hr₀ : records id₀ = some r₀) (hepoch : r₀.spentEpoch = some epoch)
    (hrec : ∀ id, records' id = if id = id₀ then none else records id)
    (hspent : ∀ id, spent' id ↔ id = id₀ ∨ spent id) : PoolInv records' spent' body := by
  have hcases : ∀ {id r}, records' id = some r → id ≠ id₀ ∧ records id = some r := by
    intro id r hr
    rw [hrec] at hr
    split_ifs at hr with hid
    exact ⟨hid, hr⟩
  -- the record is locked by a confirmed transaction, which lists it among its inputs
  obtain ⟨w₀, hw₀⟩ : ∃ w, r₀.spentBy = some w := by
    cases hs : r₀.spentBy with
    | none =>
        rw [h.unlocked hr₀ hs] at hepoch
        cases hepoch
    | some w => exact ⟨w, rfl⟩
  obtain ⟨b₀, hb₀, hin₀, hc₀⟩ := h.locked hr₀ hw₀
  have hconf : b₀.confirmed = true := by rw [← hc₀, hepoch]; rfl
  exact { h with
    record_id := fun hr => h.record_id (hcases hr).2
    disjoint := by
      intro id r hr hsp
      obtain ⟨hne, hr⟩ := hcases hr
      exact h.disjoint hr (((hspent id).mp hsp).resolve_left hne)
    unlocked := fun hr hs => h.unlocked (hcases hr).2 hs
    locked := fun hr hs => h.locked (hcases hr).2 hs
    spent_input := by
      intro id hid
      rcases (hspent id).mp hid with rfl | hid
      exacts [⟨w₀, b₀, hb₀, hin₀, hconf⟩, h.spent_input hid]
    input_state := by
      intro w b id hb hin
      by_cases hid : id = id₀
      · subst hid
        obtain rfl := h.input_unique hb hb₀ hin hin₀
        rw [hb₀] at hb
        cases hb
        exact .inr ⟨(hspent id).mpr (.inl rfl), hconf⟩
      · rcases h.input_state hb hin with ⟨r, hr, hs⟩ | ⟨hsp, hc⟩
        · exact .inl ⟨r, by rw [hrec, if_neg hid, hr], hs⟩
        · exact .inr ⟨(hspent id).mpr (.inr hsp), hc⟩
    produced := fun hr hp => h.produced (hcases hr).2 hp
    change_state := by
      intro w b id hb hch
      by_cases hid : id = id₀
      · exact .inr ((hspent id).mpr (.inl hid))
      · rcases h.change_state hb hch with ⟨r, hr, hp⟩ | hsp
        · exact .inl ⟨r, by rw [hrec, if_neg hid, hr], hp⟩
        · exact .inr ((hspent id).mpr (.inr hsp)) }

end PoolInv

end HashiBridge.Btc
