import HashiBridge.Btc.Ledger

/-!
# Requests and the transactions they are committed to

The link field, the escrowed balance and the bag a request lies in are three encodings of one
lifecycle. `QueueInv` keeps them together.
-/

namespace HashiBridge.Btc

open Lib HashiBridge.Core

structure QueueInv (requests processed : Address → Option WithdrawalRequest)
    (live done : Address → Option TxnBody) : Prop where
  requests_disjoint : ∀ {id r}, requests id = some r → processed id = none
  txns_disjoint : ∀ {w b}, live w = some b → done w = none
  escrow_open : ∀ {id r}, requests id = some r → r.withdrawalTxnId = none → r.btc = r.btcAmount
  escrow_drained : ∀ {id r w}, (requests id).or (processed id) = some r →
    r.withdrawalTxnId = some w → r.btc = 0
  link : ∀ {id r w}, (requests id).or (processed id) = some r → r.withdrawalTxnId = some w →
    ∃ b, (live w).or (done w) = some b ∧ id ∈ b.requestIds
  backlink : ∀ {w b id}, (live w).or (done w) = some b → id ∈ b.requestIds →
    ∃ r, (requests id).or (processed id) = some r ∧ r.withdrawalTxnId = some w
  requests_nodup : ∀ {w b}, (live w).or (done w) = some b → b.requestIds.Nodup
  processed_confirmed : ∀ {id r}, processed id = some r →
    ∃ w b, r.withdrawalTxnId = some w ∧ (live w).or (done w) = some b ∧ b.confirmed = true
  archived : ∀ {w b}, done w = some b →
    b.confirmed = true ∧ ∀ id ∈ b.requestIds, ∃ r, processed id = some r

namespace QueueInv

variable {requests requests' processed processed' : Address → Option WithdrawalRequest}
  {live live' done done' : Address → Option TxnBody}

theorem empty : QueueInv (fun _ => none) (fun _ => none) (fun _ => none) (fun _ => none) := by
  constructor <;> simp

variable (h : QueueInv requests processed live done)

include h

/-- A write of an uncommitted request with a full escrow under an id that no committed request has:
a new request, or one whose approval changes. -/
theorem write_open {id₀ : Address}
    {r₀ : WithdrawalRequest} (hopen : r₀.withdrawalTxnId = none) (hfull : r₀.btc = r₀.btcAmount)
    (hbefore : processed id₀ = none ∧ ∀ r, requests id₀ = some r → r.withdrawalTxnId = none)
    (hreq : ∀ id, requests' id = if id = id₀ then some r₀ else requests id) :
    QueueInv requests' processed live done := by
  have hcases : ∀ {id r}, (requests' id).or (processed id) = some r →
      (id = id₀ ∧ r = r₀) ∨ (id ≠ id₀ ∧ (requests id).or (processed id) = some r) := by
    intro id r hr
    rw [hreq] at hr
    split_ifs at hr with hid
    · exact .inl ⟨hid, (Option.some.inj hr).symm⟩
    · exact .inr ⟨hid, hr⟩
  have hlive : ∀ {id r}, requests' id = some r →
      (id = id₀ ∧ r = r₀) ∨ (id ≠ id₀ ∧ requests id = some r) := by
    intro id r hr
    rw [hreq] at hr
    split_ifs at hr with hid
    · exact .inl ⟨hid, (Option.some.inj hr).symm⟩
    · exact .inr ⟨hid, hr⟩
  exact { h with
    requests_disjoint := by
      intro id r hr
      rcases hlive hr with ⟨rfl, -⟩ | ⟨-, hr⟩
      exacts [hbefore.1, h.requests_disjoint hr]
    escrow_open := by
      intro id r hr hw
      rcases hlive hr with ⟨rfl, rfl⟩ | ⟨-, hr⟩
      exacts [hfull, h.escrow_open hr hw]
    escrow_drained := by
      intro id r w hr hw
      rcases hcases hr with ⟨rfl, rfl⟩ | ⟨-, hr⟩
      · rw [hopen] at hw
        cases hw
      · exact h.escrow_drained hr hw
    link := by
      intro id r w hr hw
      rcases hcases hr with ⟨rfl, rfl⟩ | ⟨-, hr⟩
      · rw [hopen] at hw
        cases hw
      · exact h.link hr hw
    backlink := by
      intro w b id hb hid
      obtain ⟨r, hr, hw⟩ := h.backlink hb hid
      -- the id is linked, so it is not the open one
      have hne : id ≠ id₀ := by
        rintro rfl
        rw [hbefore.1, Option.or_none] at hr
        rw [hbefore.2 r hr] at hw
        cases hw
      exact ⟨r, by rw [hreq, if_neg hne, hr], hw⟩ }

theorem cancel {id₀ : Address} {r₀ : WithdrawalRequest}
    (hr₀ : requests id₀ = some r₀) (hopen : r₀.withdrawalTxnId = none)
    (hreq : ∀ id, requests' id = if id = id₀ then none else requests id) :
    QueueInv requests' processed live done := by
  have hcases : ∀ {id r}, (requests' id).or (processed id) = some r →
      (requests id).or (processed id) = some r := by
    intro id r hr
    rw [hreq] at hr
    split_ifs at hr with hid
    · subst hid
      rw [h.requests_disjoint hr₀] at hr
      cases hr
    · exact hr
  have hlive : ∀ {id r}, requests' id = some r → requests id = some r := by
    intro id r hr
    rw [hreq] at hr
    split_ifs at hr
    exact hr
  exact { h with
    requests_disjoint := fun hr => h.requests_disjoint (hlive hr)
    escrow_open := fun hr => h.escrow_open (hlive hr)
    escrow_drained := fun hr => h.escrow_drained (hcases hr)
    link := fun hr => h.link (hcases hr)
    backlink := by
      intro w b id hb hid
      obtain ⟨r, hr, hw⟩ := h.backlink hb hid
      have hne : id ≠ id₀ := by
        rintro rfl
        rw [hr₀, Option.some_or, Option.some.injEq] at hr
        rw [← hr, hopen] at hw
        cases hw
      exact ⟨r, by rw [hreq, if_neg hne, hr], hw⟩ }

variable {b₀ : TxnBody}

theorem commit {w₀ : Address}
    (hfresh : (live w₀).or (done w₀) = none) (hnodup : b₀.requestIds.Nodup)
    (hopen : ∀ id ∈ b₀.requestIds, ∃ r, requests id = some r ∧ r.withdrawalTxnId = none)
    (hreq : ∀ id, requests' id =
      if id ∈ b₀.requestIds then (requests id).map (·.commitTo w₀) else requests id)
    (hlive : ∀ w, live' w = if w = w₀ then some b₀ else live w) :
    QueueInv requests' processed live' done := by
  obtain ⟨hlive₀, hdone₀⟩ : live w₀ = none ∧ done w₀ = none := by simpa using hfresh
  have hbody : ∀ w, (live' w).or (done w) = if w = w₀ then some b₀ else (live w).or (done w) := by
    intro w
    rw [hlive]
    split_ifs <;> rfl
  have hcases : ∀ {id r}, requests' id = some r →
      (id ∈ b₀.requestIds ∧ r.withdrawalTxnId = some w₀ ∧ r.btc = 0) ∨
      (id ∉ b₀.requestIds ∧ requests id = some r) := by
    intro id r hr
    rw [hreq] at hr
    split_ifs at hr with hid
    · obtain ⟨r₁, -, rfl⟩ := Option.map_eq_some_iff.mp hr
      exact .inl ⟨hid, rfl, rfl⟩
    · exact .inr ⟨hid, hr⟩
  have hat : ∀ {id r}, (requests' id).or (processed id) = some r →
      (id ∈ b₀.requestIds ∧ r.withdrawalTxnId = some w₀ ∧ r.btc = 0) ∨
      (id ∉ b₀.requestIds ∧ (requests id).or (processed id) = some r) := by
    intro id r hr
    rcases Option.or_eq_some_iff.mp hr with hr | ⟨hnone, hr⟩
    · rcases hcases hr with hin | ⟨hnot, hr⟩
      exacts [.inl hin, .inr ⟨hnot, by rw [hr, Option.some_or]⟩]
    · have hnot : id ∉ b₀.requestIds := fun hin => by
        obtain ⟨r₁, hr₁, -⟩ := hopen id hin
        rw [hreq, if_pos hin, hr₁] at hnone
        cases hnone
      rw [hreq, if_neg hnot] at hnone
      exact .inr ⟨hnot, by rw [hnone, Option.none_or, hr]⟩
  -- a request linked before is not one of the newly committed
  have hlinked : ∀ {id r w}, (requests id).or (processed id) = some r →
      r.withdrawalTxnId = some w → id ∉ b₀.requestIds := by
    intro id r w hr hw hin
    obtain ⟨r₁, hr₁, hopen₁⟩ := hopen id hin
    rw [hr₁, Option.some_or, Option.some.injEq] at hr
    rw [← hr, hopen₁] at hw
    cases hw
  have hold : ∀ {w b}, (live w).or (done w) = some b → (live' w).or (done w) = some b := by
    intro w b hb
    rw [hbody, if_neg (by rintro rfl; rw [hfresh] at hb; cases hb), hb]
  constructor
  case requests_disjoint =>
    intro id r hr
    rcases hcases hr with ⟨hin, -⟩ | ⟨-, hr⟩
    · obtain ⟨r₁, hr₁, -⟩ := hopen id hin
      exact h.requests_disjoint hr₁
    · exact h.requests_disjoint hr
  case txns_disjoint =>
    intro w b hb
    rw [hlive] at hb
    split_ifs at hb with hw
    · rw [hw, hdone₀]
    · exact h.txns_disjoint hb
  case escrow_open =>
    intro id r hr hw
    rcases hcases hr with ⟨-, hlink, -⟩ | ⟨-, hr⟩
    · rw [hw] at hlink
      cases hlink
    · exact h.escrow_open hr hw
  case escrow_drained =>
    intro id r w hr hw
    rcases hat hr with ⟨-, -, hbtc⟩ | ⟨-, hr⟩
    exacts [hbtc, h.escrow_drained hr hw]
  case link =>
    intro id r w hr hw
    rcases hat hr with ⟨hin, hlink, -⟩ | ⟨-, hr⟩
    · rw [hw, Option.some.injEq] at hlink
      exact ⟨b₀, by rw [hbody, if_pos hlink], hin⟩
    · obtain ⟨b, hb, hin⟩ := h.link hr hw
      exact ⟨b, hold hb, hin⟩
  case backlink =>
    intro w b id hb hin
    rw [hbody] at hb
    split_ifs at hb with hw
    · cases hb
      subst hw
      obtain ⟨r, hr, -⟩ := hopen id hin
      exact ⟨r.commitTo w, by rw [hreq, if_pos hin, hr]; rfl, rfl⟩
    · obtain ⟨r, hr, hw⟩ := h.backlink hb hin
      exact ⟨r, by rw [hreq, if_neg (hlinked hr hw), hr], hw⟩
  case requests_nodup =>
    intro w b hb
    rw [hbody] at hb
    split_ifs at hb with hw
    · cases hb
      exact hnodup
    · exact h.requests_nodup hb
  case processed_confirmed =>
    intro id r hr
    obtain ⟨w, b, hw, hb, hc⟩ := h.processed_confirmed hr
    exact ⟨w, b, hw, hold hb, hc⟩
  case archived => exact h.archived

theorem confirm {w₀ : Address} (hb₀ : live w₀ = some b₀)
    (hlive : ∀ w, live' w = if w = w₀ then some { b₀ with confirmed := true } else live w) :
    QueueInv requests processed live' done := by
  -- forwards: every transaction keeps its requests and stays confirmed if it was
  have hfwd : ∀ {w b}, (live w).or (done w) = some b →
      ∃ b', (live' w).or (done w) = some b' ∧ b'.requestIds = b.requestIds ∧
        (b.confirmed = true → b'.confirmed = true) := by
    intro w b hb
    by_cases hw : w = w₀
    · subst hw
      rw [hb₀, Option.some_or, Option.some.injEq] at hb
      subst hb
      exact ⟨{ b₀ with confirmed := true }, by rw [hlive, if_pos rfl, Option.some_or], rfl,
        fun _ => rfl⟩
    · exact ⟨b, by rw [hlive, if_neg hw, hb], rfl, id⟩
  have hback : ∀ {w b'}, (live' w).or (done w) = some b' →
      ∃ b, (live w).or (done w) = some b ∧ b'.requestIds = b.requestIds := by
    intro w b' hb'
    rw [hlive] at hb'
    split_ifs at hb' with hw
    · cases hb'
      exact ⟨b₀, by rw [hw, hb₀, Option.some_or], rfl⟩
    · exact ⟨b', hb', rfl⟩
  exact { h with
    txns_disjoint := by
      intro w b hb
      rw [hlive] at hb
      split_ifs at hb with hw
      · rw [hw]
        exact h.txns_disjoint hb₀
      · exact h.txns_disjoint hb
    link := by
      intro id r w hr hw
      obtain ⟨b, hb, hin⟩ := h.link hr hw
      obtain ⟨b', hb', hids, -⟩ := hfwd hb
      exact ⟨b', hb', hids ▸ hin⟩
    backlink := by
      intro w b' id hb' hin
      obtain ⟨b, hb, hids⟩ := hback hb'
      exact h.backlink hb (hids ▸ hin)
    requests_nodup := by
      intro w b' hb'
      obtain ⟨b, hb, hids⟩ := hback hb'
      exact hids ▸ h.requests_nodup hb
    processed_confirmed := by
      intro id r hr
      obtain ⟨w, b, hw, hb, hc⟩ := h.processed_confirmed hr
      obtain ⟨b', hb', -, hc'⟩ := hfwd hb
      exact ⟨w, b', hw, hb', hc' hc⟩ }

theorem archiveRequest {id₀ w₀ : Address} {r₀ : WithdrawalRequest} (hr₀ : requests id₀ = some r₀)
    (hlink : r₀.withdrawalTxnId = some w₀) (hb₀ : live w₀ = some b₀) (hc₀ : b₀.confirmed = true)
    (hreq : ∀ id, requests' id = if id = id₀ then none else requests id)
    (hproc : ∀ id, processed' id = if id = id₀ then some r₀ else processed id) :
    QueueInv requests' processed' live done := by
  -- the move is invisible to whoever looks in both bags
  have hat : ∀ id, (requests' id).or (processed' id) = (requests id).or (processed id) := by
    intro id
    rw [hreq, hproc]
    split_ifs with hid
    · rw [hid, hr₀, Option.none_or, Option.some_or]
    · rfl
  have hlive : ∀ {id r}, requests' id = some r → id ≠ id₀ ∧ requests id = some r := by
    intro id r hr
    rw [hreq] at hr
    split_ifs at hr with hid
    exact ⟨hid, hr⟩
  exact { h with
    requests_disjoint := by
      intro id r hr
      obtain ⟨hid, hr⟩ := hlive hr
      rw [hproc, if_neg hid]
      exact h.requests_disjoint hr
    escrow_open := fun hr => h.escrow_open (hlive hr).2
    escrow_drained := fun hr => h.escrow_drained (hat _ ▸ hr)
    link := fun hr => h.link (hat _ ▸ hr)
    backlink := by
      intro w b id hb hin
      rw [hat]
      exact h.backlink hb hin
    processed_confirmed := by
      intro id r hr
      rw [hproc] at hr
      split_ifs at hr with hid
      · cases hr
        exact ⟨w₀, b₀, hlink, by rw [hb₀, Option.some_or], hc₀⟩
      · exact h.processed_confirmed hr
    archived := by
      intro w b hb
      obtain ⟨hc, hall⟩ := h.archived hb
      refine ⟨hc, fun id hin => ?_⟩
      rw [hproc]
      split_ifs
      exacts [⟨_, rfl⟩, hall id hin] }

theorem archiveTxn {w₀ : Address} (hb₀ : live w₀ = some b₀) (hc₀ : b₀.confirmed = true)
    (hall₀ : ∀ id ∈ b₀.requestIds, ∃ r, processed id = some r)
    (hlive : ∀ w, live' w = if w = w₀ then none else live w)
    (hdone : ∀ w, done' w = if w = w₀ then some b₀ else done w) :
    QueueInv requests processed live' done' := by
  have hbody : ∀ w, (live' w).or (done' w) = (live w).or (done w) := by
    intro w
    rw [hlive, hdone]
    split_ifs with hw
    · rw [hw, hb₀, Option.none_or, Option.some_or]
    · rfl
  exact { h with
    txns_disjoint := by
      intro w b hb
      rw [hlive] at hb
      split_ifs at hb with hw
      rw [hdone, if_neg hw]
      exact h.txns_disjoint hb
    link := by
      intro id r w hr hw
      rw [hbody]
      exact h.link hr hw
    backlink := fun hb => h.backlink (hbody _ ▸ hb)
    requests_nodup := fun hb => h.requests_nodup (hbody _ ▸ hb)
    processed_confirmed := by
      intro id r hr
      obtain ⟨w, b, hw, hb, hc⟩ := h.processed_confirmed hr
      exact ⟨w, b, hw, by rw [hbody, hb], hc⟩
    archived := by
      intro w b hb
      rw [hdone] at hb
      split_ifs at hb with hw
      · cases hb
        exact ⟨hc₀, hall₀⟩
      · exact h.archived hb }

end QueueInv

end HashiBridge.Btc
