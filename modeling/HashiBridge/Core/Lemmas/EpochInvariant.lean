import HashiBridge.Lib.Links
import HashiBridge.Core.Epochs

/-!
# The chain of committee epochs

`EpochInv` relates the state to the list of epochs activated so far. Its fields are stable under
every transition and under the passing of Sui's epoch; the handoffs are exactly the links of the
list.
-/

namespace HashiBridge.Core

open Lib

variable {certifies : Committee → Committee → CommitteeSignature → Prop} {now : Nat}
  {s s' : EpochState} {op : EpochOp} {activated : List Nat}

/-- The state at Sui epoch `now`, after the epochs `activated` in this order. -/
structure EpochInv (certifies : Committee → Committee → CommitteeSignature → Prop) (now : Nat)
    (s : EpochState) (activated : List Nat) : Prop where
  unlaunched : s.mpcPublicKey = [] → s.epoch = 0 ∧ activated = []
  unlaunched_committees : s.mpcPublicKey = [] → ∀ {e}, e ∈ s.committees → s.pendingEpoch = some e
  last : s.mpcPublicKey ≠ [] → activated.getLast? = some s.epoch
  key_length : s.mpcPublicKey ≠ [] → s.mpcPublicKey.length = MPC_PUBLIC_KEY_LENGTH
  current : s.mpcPublicKey ≠ [] → s.epoch ∈ s.committees
  epoch_le : s.epoch ≤ now ∨ s.mpcPublicKey = []
  pending_mem : ∀ {p}, s.pendingEpoch = some p → p ∈ s.committees ∧ p ≤ now
  pending_lt : s.mpcPublicKey ≠ [] → ∀ {p}, s.pendingEpoch = some p → s.epoch < p
  committee_le : s.mpcPublicKey ≠ [] → ∀ {e}, e ∈ s.committees →
    e ≤ s.epoch ∨ s.pendingEpoch = some e
  committee_epoch : ∀ {e c}, s.committees.lookup e = some c → c.epoch = e
  pending_cert : ∀ {p cert}, s.pending = some ⟨p, some cert⟩ → s.mpcPublicKey ≠ [] ∧
    ∃ outgoing incoming, s.committees.lookup s.epoch = some outgoing ∧
      s.committees.lookup p = some incoming ∧ certifies outgoing incoming cert
  ascending : activated.Pairwise (· < ·)
  handoff_links : ∀ {e n}, (s.handoffs.lookup e).map CommitteeHandoff.nextEpoch = some n ↔
    (e, n) ∈ links activated
  handoff_cert : ∀ {e n cert}, s.handoffs.lookup e = some ⟨n, cert⟩ →
    ∃ outgoing incoming, s.committees.lookup e = some outgoing ∧
      s.committees.lookup n = some incoming ∧ certifies outgoing incoming cert

namespace EpochInv

/-! ## Consequences -/

theorem init : EpochInv certifies now CommitteeSet.create.epochs [] := by
  constructor <;>
    simp [CommitteeSet.create, CommitteeSet.epochs, EpochState.pendingEpoch, Finmap.notMem_empty]

variable (h : EpochInv certifies now s activated)

include h

theorem activated_le (hkey : s.mpcPublicKey ≠ []) {e : Nat} (he : e ∈ activated) : e ≤ s.epoch :=
  le_getLast h.ascending he (h.last hkey)

theorem epoch_notMem_handoffs (hkey : s.mpcPublicKey ≠ []) :
    s.epoch ∉ s.handoffs := by
  intro hmem
  obtain ⟨handoff, hlookup⟩ := Finmap.mem_iff.mp hmem
  have hlink : (s.epoch, handoff.nextEpoch) ∈ links activated := by
    rw [← h.handoff_links, hlookup, Option.map_some]
  have hup := lt_of_mem_links h.ascending hlink
  have hle := h.activated_le hkey (mem_of_mem_links hlink).2
  omega

theorem handoff_le {e : Nat} {handoff : CommitteeHandoff}
    (he : s.handoffs.lookup e = some handoff) : s.mpcPublicKey ≠ [] ∧ e ≤ s.epoch ∧
      handoff.nextEpoch ≤ s.epoch := by
  have hlink : (e, handoff.nextEpoch) ∈ links activated := by
    rw [← h.handoff_links, he, Option.map_some]
  have hkey : s.mpcPublicKey ≠ [] := fun hkey => by
    rw [(h.unlaunched hkey).2] at hlink
    cases hlink
  obtain ⟨hfrom, hto⟩ := mem_of_mem_links hlink
  exact ⟨hkey, h.activated_le hkey hfrom, h.activated_le hkey hto⟩

/-- Sui's epoch never goes back. -/
theorem advance {now' : Nat} (hle : now ≤ now') :
    EpochInv certifies now' s activated :=
  { h with
    epoch_le := h.epoch_le.imp_left fun hepoch => hepoch.trans hle
    pending_mem := fun hp => (h.pending_mem hp).imp_right fun hp => hp.trans hle }

/-! ## The transitions -/

theorem start {committee : Committee}
    (hidle : s.pending = none) (hepoch : committee.epoch = now) (hnew : now ∉ s.committees) :
    EpochInv certifies now { s with
      committees := s.committees.insert now committee, pending := some ⟨now, none⟩ } activated := by
  have hidleEpoch : s.pendingEpoch = none := by rw [EpochState.pendingEpoch, hidle]; rfl
  have hkept : ∀ {e c}, s.committees.lookup e = some c →
      (s.committees.insert now committee).lookup e = some c := by
    intro e c hc
    rw [Bag.lookup_insert_ite, if_neg, hc]
    rintro rfl
    exact hnew (Bag.mem_of_lookup hc)
  exact { h with
    unlaunched_committees := by
      intro hkey e he
      rcases Finmap.mem_insert.mp he with rfl | he
      · rfl
      · have hp := h.unlaunched_committees hkey he
        rw [hidleEpoch] at hp
        cases hp
    current := fun hkey => Finmap.mem_insert.mpr (.inr (h.current hkey))
    pending_mem := by
      intro p hp
      cases hp
      exact ⟨Finmap.mem_insert.mpr (.inl rfl), Nat.le_refl _⟩
    pending_lt := by
      intro hkey p hp
      cases hp
      -- the current epoch has a committee and the new one had none
      have hcurrent := h.current hkey
      refine Nat.lt_of_le_of_ne (h.epoch_le.resolve_right hkey) fun (heq : s.epoch = now) => hnew ?_
      rwa [heq] at hcurrent
    committee_le := by
      intro hkey e he
      rcases Finmap.mem_insert.mp he with rfl | he
      · exact .inr rfl
      · refine .inl ((h.committee_le hkey he).resolve_right ?_)
        rw [hidleEpoch]
        simp
    committee_epoch := by
      intro e c hc
      rcases Bag.lookup_of_insert hc with ⟨rfl, rfl⟩ | hc
      exacts [hepoch, h.committee_epoch hc]
    pending_cert := nofun
    handoff_cert := by
      intro e n cert he
      obtain ⟨outgoing, incoming, hout, hin, hcert⟩ := h.handoff_cert he
      exact ⟨outgoing, incoming, hkept hout, hkept hin, hcert⟩ }

theorem handoff {cert : CommitteeSignature}
    {outgoing incoming : Committee} (hpending : s.pending = some ⟨now, none⟩)
    (hkey : s.mpcPublicKey ≠ []) (hout : s.committees.lookup s.epoch = some outgoing)
    (hin : s.committees.lookup now = some incoming) (hcert : certifies outgoing incoming cert) :
    EpochInv certifies now { s with pending := some ⟨now, some cert⟩ } activated := by
  have hepoch : s.pendingEpoch = some now := by rw [EpochState.pendingEpoch, hpending]; rfl
  exact { h with
    unlaunched_committees := fun hnil => absurd hnil hkey
    pending_mem := by intro p hp; cases hp; exact h.pending_mem hepoch
    pending_lt := by intro hkey p hp; cases hp; exact h.pending_lt hkey hepoch
    committee_le := by
      intro hkey e he
      rcases h.committee_le hkey he with hle | hp
      · exact .inl hle
      · rw [hepoch] at hp
        exact .inr hp
    pending_cert := by
      intro p cert' hp
      cases hp
      exact ⟨hkey, outgoing, incoming, hout, hin, hcert⟩ }

theorem genesis {mpcPublicKey : Bytes}
    (hpending : s.pending = some ⟨now, none⟩) (hmem : now ∈ s.committees)
    (hkey : s.mpcPublicKey = []) (hlength : mpcPublicKey.length = MPC_PUBLIC_KEY_LENGTH) :
    EpochInv certifies now { s with epoch := now, pending := none, mpcPublicKey }
      (activated ++ [now]) := by
  obtain ⟨-, rfl⟩ := h.unlaunched hkey
  have hnonempty : mpcPublicKey ≠ [] := fun hnil => by rw [hnil] at hlength; cases hlength
  have hepoch : s.pendingEpoch = some now := by rw [EpochState.pendingEpoch, hpending]; rfl
  exact { h with
    unlaunched := fun hnil => absurd hnil hnonempty
    unlaunched_committees := fun hnil => absurd hnil hnonempty
    last := fun _ => rfl
    key_length := fun _ => hlength
    current := fun _ => hmem
    epoch_le := .inl (Nat.le_refl _)
    pending_mem := nofun
    pending_lt := nofun
    committee_le := by
      intro _ e he
      have hp := h.unlaunched_committees hkey he
      rw [hepoch] at hp
      cases hp
      exact .inl (Nat.le_refl _)
    pending_cert := nofun
    ascending := by simp }

theorem finish {cert : CommitteeSignature}
    (hpending : s.pending = some ⟨now, some cert⟩) (hmem : now ∈ s.committees)
    (hkey : s.mpcPublicKey ≠ []) :
    EpochInv certifies now { s with
      epoch := now, pending := none, handoffs := s.handoffs.insert s.epoch ⟨now, cert⟩ }
      (activated ++ [now]) := by
  have hepoch : s.pendingEpoch = some now := by rw [EpochState.pendingEpoch, hpending]; rfl
  have hlt := h.pending_lt hkey hepoch
  have hfresh := h.epoch_notMem_handoffs hkey
  exact { h with
    unlaunched := fun hnil => absurd hnil hkey
    unlaunched_committees := fun hnil => absurd hnil hkey
    last := fun _ => List.getLast?_concat ..
    current := fun _ => hmem
    epoch_le := .inl (Nat.le_refl _)
    pending_mem := nofun
    pending_lt := nofun
    committee_le := by
      intro _ e he
      rcases h.committee_le hkey he with hle | hp
      · exact .inl (hle.trans hlt.le)
      · rw [hepoch] at hp
        cases hp
        exact .inl (Nat.le_refl _)
    pending_cert := nofun
    ascending := pairwise_concat h.ascending (h.last hkey) hlt
    handoff_links := by
      intro e n
      rw [links_concat (h.last hkey), List.mem_append, List.mem_singleton, ← h.handoff_links,
        Bag.lookup_insert_ite]
      split_ifs with he
      · subst he
        rw [Bag.lookup_of_notMem hfresh]
        simp [eq_comm]
      · simp [he]
    handoff_cert := by
      intro e n cert' he
      rcases Bag.lookup_of_insert he with ⟨hcur, hsame⟩ | he
      · cases hsame
        obtain ⟨-, outgoing, incoming, hout, hin, hcert⟩ := h.pending_cert hpending
        exact ⟨outgoing, incoming, hcur ▸ hout, hin, hcert⟩
      · exact h.handoff_cert he }

theorem abort {pending : PendingEpochChange} (hpending : s.pending = some pending) :
    EpochInv certifies now { s with
      committees := s.committees.erase pending.epoch, pending := none } activated := by
  have hepoch : s.pendingEpoch = some pending.epoch := by
    rw [EpochState.pendingEpoch, hpending]
    rfl
  -- an epoch at most the current one is not the pending one
  have hne : s.mpcPublicKey ≠ [] → ∀ {e}, e ≤ s.epoch → e ≠ pending.epoch := by
    intro hkey e hle heq
    have := h.pending_lt hkey hepoch
    omega
  exact { h with
    unlaunched_committees := by
      intro hkey e he
      rw [Finmap.mem_erase] at he
      have hp := h.unlaunched_committees hkey he.2
      rw [hepoch] at hp
      cases hp
      exact absurd rfl he.1
    current := by
      exact fun hkey => Finmap.mem_erase.mpr ⟨hne hkey (Nat.le_refl _), h.current hkey⟩
    pending_mem := nofun
    pending_lt := nofun
    committee_le := by
      intro hkey e he
      rw [Finmap.mem_erase] at he
      rcases h.committee_le hkey he.2 with hle | hp
      · exact .inl hle
      · rw [hepoch] at hp
        cases hp
        exact absurd rfl he.1
    committee_epoch := fun hc => h.committee_epoch (Bag.lookup_of_erase hc)
    pending_cert := nofun
    handoff_cert := by
      intro e n cert he
      obtain ⟨hkey, hfrom, hto⟩ := h.handoff_le he
      obtain ⟨outgoing, incoming, hout, hin, hcert⟩ := h.handoff_cert he
      refine ⟨outgoing, incoming, ?_, ?_, hcert⟩
      · rw [Bag.lookup_erase_ite, if_neg (hne hkey hfrom), hout]
      · rw [Bag.lookup_erase_ite, if_neg (hne hkey hto), hin] }

theorem step (hstep : s.Step certifies now op s') :
    EpochInv certifies now s' (activated ++ (op.activates now).toList) := by
  cases hstep with
  | start hidle hepoch hnew _ => simpa [EpochOp.activates] using h.start hidle hepoch hnew
  | handoff hpending hkey hout hin hcert =>
      simpa [EpochOp.activates] using h.handoff hpending hkey hout hin hcert
  | genesis hpending hmem hkey hlength => exact h.genesis hpending hmem hkey hlength
  | finish hpending hmem hkey _ => exact h.finish hpending hmem hkey
  | abort hpending _ _ => simpa [EpochOp.activates] using h.abort hpending

end EpochInv

/-! ## Pending epochs are settled once -/

namespace EpochState

/-- The epoch is not pending and can never be again: it has a committee, or Sui's epoch has passed
it. -/
def Settled (now : Nat) (s : EpochState) (p : Nat) : Prop :=
  s.pendingEpoch ≠ some p ∧ (p ∈ s.committees ∨ p < now)

theorem Settled.advance {p : Nat} (h : s.Settled now p) {now' : Nat} (hle : now ≤ now') :
    s.Settled now' p :=
  ⟨h.1, h.2.imp_right fun hlt => Nat.lt_of_lt_of_le hlt hle⟩

theorem Settled.step {p : Nat} (h : s.Settled now p) (hstep : s.Step certifies now op s') :
    s'.Settled now p := by
  obtain ⟨hpending, hgone⟩ := h
  cases hstep with
  | start hidle hepoch hnew _ =>
      refine ⟨fun hp => ?_, hgone.imp_left fun hmem => Finmap.mem_insert.mpr (.inr hmem)⟩
      cases hp
      rcases hgone with hmem | hlt
      exacts [hnew hmem, Nat.lt_irrefl _ hlt]
  | handoff hp _ _ _ _ =>
      refine ⟨fun hp' => hpending ?_, hgone⟩
      rw [pendingEpoch, hp]
      exact hp'
  | genesis | finish => exact ⟨by simp [pendingEpoch], hgone⟩
  | @abort pending hp _ _ =>
      refine ⟨by simp [pendingEpoch], hgone.imp_left fun hmem => Finmap.mem_erase.mpr ⟨?_, hmem⟩⟩
      rintro rfl
      exact hpending (by rw [pendingEpoch, hp]; rfl)

theorem Step.settled (hstep : s.Step certifies now op s')
    (hle : ∀ p, s.pendingEpoch = some p → p ≤ now) {p : Nat} (hsettles : op.settles now = some p) :
    s.pendingEpoch = some p ∧ s'.Settled now p := by
  cases hstep with
  | start | handoff => cases hsettles
  | genesis hpending hmem | finish hpending hmem =>
      cases hsettles
      exact ⟨by rw [pendingEpoch, hpending]; rfl, by simp [pendingEpoch], .inl hmem⟩
  | @abort pending hpending hne _ =>
      cases hsettles
      have hp : s.pendingEpoch = some pending.epoch := by rw [pendingEpoch, hpending]; rfl
      have := hle _ hp
      exact ⟨hp, by simp [pendingEpoch], .inr (by omega)⟩

/-! ## What a transition keeps -/

theorem Step.finish_inv {mpcPublicKey : Bytes}
    (hstep : s.Step certifies now (.finish mpcPublicKey) s') :
    s'.epoch = now ∧ s.pendingEpoch = some now := by
  cases hstep with
  | genesis hpending | finish hpending => exact ⟨rfl, by rw [pendingEpoch, hpending]; rfl⟩

theorem Step.finish_handoff {mpcPublicKey : Bytes}
    (hstep : s.Step certifies now (.finish mpcPublicKey) s') (hkey : s.mpcPublicKey ≠ []) :
    ∃ cert, s.pending = some ⟨now, some cert⟩ ∧ s.epoch ∉ s.handoffs ∧
      s' = { s with
        epoch := now, pending := none, handoffs := s.handoffs.insert s.epoch ⟨now, cert⟩ } := by
  cases hstep with
  | genesis _ _ hnil _ => exact absurd hnil hkey
  | @finish cert hpending _ _ hfresh => exact ⟨cert, hpending, hfresh, rfl⟩

theorem Step.abort_inv {p : Nat} (hstep : s.Step certifies now (.abort p) s') :
    s.pendingEpoch = some p ∧ p ≠ now ∧
      s' = { s with committees := s.committees.erase p, pending := none } := by
  cases hstep with
  | abort hpending hne _ => exact ⟨by rw [pendingEpoch, hpending]; rfl, hne, rfl⟩

theorem Step.epoch_eq (hstep : s.Step certifies now op s') (hop : op.activates now = none) :
    s'.epoch = s.epoch := by
  cases hstep with
  | genesis | finish => cases hop
  | start | handoff | abort => rfl

theorem Step.key_eq (hstep : s.Step certifies now op s') (hkey : s.mpcPublicKey ≠ []) :
    s'.mpcPublicKey = s.mpcPublicKey := by
  cases hstep with
  | genesis _ _ hnil _ => exact absurd hnil hkey
  | start | handoff | finish | abort => rfl

end EpochState

end HashiBridge.Core
