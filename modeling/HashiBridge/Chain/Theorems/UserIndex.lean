import HashiBridge.Chain.Lemmas.IndexSteps
import HashiBridge.Chain.Theorems.Deposits

/-!
# The index of user requests

The index is a function of the history: a user's ids are the withdrawals the user requested and did
not cancel and the confirmed deposits for the user.
-/

namespace HashiBridge.Chain

open Lib HashiBridge.Core Btc MultiIndex

variable {env : Env} {activated : List Nat} {w w' : World} {label : Label} {tr : List Label}
  {id user : Address}

/-! ## The history -/

namespace Label

def creates : Label → Option (Address × Address)
  | .call sender _ fresh (.bridge (.requestWithdrawal _ _)) => some (sender, fresh)
  | _ => none

def deposits : Label → Option (Address × Utxo)
  | .call _ _ fresh (.bridge (.deposit utxo)) => some (fresh, utxo)
  | _ => none

theorem fresh_of_creates (h : label.creates = some (user, id)) : label.fresh = some id := by
  unfold creates at h
  split at h <;> cases h
  rfl

theorem fresh_of_deposits {utxo : Utxo} (h : label.deposits = some (id, utxo)) :
    label.fresh = some id := by
  unfold deposits at h
  split at h <;> cases h
  rfl

theorem deposits_of_creates (h : label.creates = some (user, id)) : label.deposits = none := by
  unfold creates at h
  split at h <;> cases h
  rfl

end Label

def CreatedIn (tr : List Label) (user id : Address) : Prop :=
  ∃ label ∈ tr, label.creates = some (user, id)

def CancelledIn (tr : List Label) (id : Address) : Prop := ∃ label ∈ tr, label.cancels = some id

def DepositedIn (tr : List Label) (id : Address) (utxo : Utxo) : Prop :=
  ∃ label ∈ tr, label.deposits = some (id, utxo)

def ConfirmedIn (tr : List Label) (id : Address) : Prop := ∃ label ∈ tr, label.confirms = some id

/-- The ids that belong to a user: withdrawals requested and never cancelled, and confirmed deposits
for the user. -/
def BelongsTo (tr : List Label) (user id : Address) : Prop :=
  (CreatedIn tr user id ∧ ¬ CancelledIn tr id) ∨
    (ConfirmedIn tr id ∧ ∃ utxo, DepositedIn tr id utxo ∧ utxo.derivationPath = some user)

section Append

@[simp] theorem created_append :
    CreatedIn (tr ++ [label]) user id ↔ CreatedIn tr user id ∨ label.creates = some (user, id) := by
  simp [CreatedIn, or_and_right, exists_or]

@[simp] theorem cancelled_append :
    CancelledIn (tr ++ [label]) id ↔ CancelledIn tr id ∨ label.cancels = some id := by
  simp [CancelledIn, or_and_right, exists_or]

@[simp] theorem deposited_append {utxo : Utxo} :
    DepositedIn (tr ++ [label]) id utxo ↔ DepositedIn tr id utxo ∨ label.deposits = some (id, utxo) := by
  simp [DepositedIn, or_and_right, exists_or]

@[simp] theorem confirmed_append :
    ConfirmedIn (tr ++ [label]) id ↔ ConfirmedIn tr id ∨ label.confirms = some id := by
  simp [ConfirmedIn, or_and_right, exists_or]

end Append

/-! ## Ids of the history -/

theorem Step.lookup_of_cancels (hinv : w.Inv env activated) (hstep : Step env w label w')
    (hcancels : label.cancels = some id) : w'.ledger.queue.requests.lookup id = none := by
  obtain ⟨ops, heffect, hrun⟩ := (hstep.refines hinv).ledger
  unfold Label.cancels at hcancels
  split at hcancels <;> cases hcancels
  have hops : ops = [.cancel id] := heffect
  subst hops
  generalize w'.ledger = l' at hrun
  cases hrun.of_single
  exact Finmap.lookup_erase id w.ledger.queue.requests

/-- Every object of the two flows goes back to the one label that handed out its id. -/
structure Origins (tr : List Label) (w : World) : Prop where
  handed : ∀ {label id}, label ∈ tr → label.fresh = some id → id ∈ w.ids
  once : ∀ {label label' id}, label ∈ tr → label' ∈ tr → label.fresh = some id →
    label'.fresh = some id → label = label'
  requests : ∀ {id r}, w.ledger.queue.requests.lookup id = some r →
    CreatedIn tr r.sender id ∧ ¬ CancelledIn tr id
  deposits : ∀ {id r}, w.deposits.requests.lookup id = some r →
    DepositedIn tr id r.utxo ∧ ¬ ConfirmedIn tr id
  cancelled : ∀ {id}, CancelledIn tr id → id ∈ w.ids
  confirmed : ∀ {id}, ConfirmedIn tr id → id ∈ w.ids

namespace Origins

theorem init (id epoch clock : Nat) : Origins [] (publish id epoch clock) where
  handed h := by cases h
  once h := by cases h
  requests h := by cases h
  deposits h := by cases h
  cancelled h := by simp [CancelledIn] at h
  confirmed h := by simp [ConfirmedIn] at h

theorem created_mem (h : Origins tr w) (hid : CreatedIn tr user id) : id ∈ w.ids := by
  obtain ⟨label, hlabel, hcreates⟩ := hid
  exact h.handed hlabel (Label.fresh_of_creates hcreates)

theorem deposited_mem {utxo : Utxo} (h : Origins tr w) (hid : DepositedIn tr id utxo) : id ∈ w.ids := by
  obtain ⟨label, hlabel, hdeposits⟩ := hid
  exact h.handed hlabel (Label.fresh_of_deposits hdeposits)

theorem creator_unique (h : Origins tr w) {user' : Address} (hid : CreatedIn tr user id)
    (hid' : CreatedIn tr user' id) : user' = user := by
  obtain ⟨label, hlabel, hcreates⟩ := hid
  obtain ⟨label', hlabel', hcreates'⟩ := hid'
  obtain rfl := h.once hlabel hlabel' (Label.fresh_of_creates hcreates)
    (Label.fresh_of_creates hcreates')
  rw [hcreates, Option.some.injEq, Prod.mk.injEq] at hcreates'
  exact hcreates'.1.symm

theorem output_unique (h : Origins tr w) {utxo utxo' : Utxo} (hid : DepositedIn tr id utxo)
    (hid' : DepositedIn tr id utxo') : utxo' = utxo := by
  obtain ⟨label, hlabel, hdeposits⟩ := hid
  obtain ⟨label', hlabel', hdeposits'⟩ := hid'
  obtain rfl := h.once hlabel hlabel' (Label.fresh_of_deposits hdeposits)
    (Label.fresh_of_deposits hdeposits')
  rw [hdeposits, Option.some.injEq, Prod.mk.injEq] at hdeposits'
  exact hdeposits'.2.symm

theorem not_deposited (h : Origins tr w) {utxo : Utxo} (hid : CreatedIn tr user id) :
    ¬ DepositedIn tr id utxo := by
  obtain ⟨label, hlabel, hcreates⟩ := hid
  rintro ⟨label', hlabel', hdeposits⟩
  obtain rfl := h.once hlabel hlabel' (Label.fresh_of_creates hcreates)
    (Label.fresh_of_deposits hdeposits)
  rw [Label.deposits_of_creates hcreates] at hdeposits
  cases hdeposits

theorem created_of_cancels (h : Origins tr w) (hstep : Step env w label w')
    (hcancels : label.cancels = some id) : ∃ user, CreatedIn tr user id := by
  have heffect := hstep.indexEffect
  generalize w'.userRequests = index at heffect
  cases heffect with
  | kept _ hnone => rw [hnone] at hcancels; cases hcancels
  | request | donate | confirm => cases hcancels
  | cancel found =>
      cases hcancels
      exact ⟨_, (h.requests found).1⟩

theorem deposited_of_confirms (h : Origins tr w) (hstep : Step env w label w')
    (hconfirms : label.confirms = some id) : ∃ utxo, DepositedIn tr id utxo := by
  have heffect := hstep.indexEffect
  generalize w'.userRequests = index at heffect
  cases heffect with
  | kept _ _ hnone => rw [hnone] at hconfirms; cases hconfirms
  | request | cancel => cases hconfirms
  | donate found | confirm found =>
      cases hconfirms
      exact ⟨_, (h.deposits found).1⟩

theorem deposit_origin (hstep : Step env w label w') {r : DepositRequest}
    (hr : w'.deposits.requests.lookup id = some r) : label.deposits = some (id, r.utxo) ∨
      ∃ r₀, w.deposits.requests.lookup id = some r₀ ∧ r₀.utxo = r.utxo := by
  have heffect := hstep.depositEffect
  generalize w'.deposits = queue at heffect hr
  cases heffect with
  | kept => exact .inr ⟨r, hr, rfl⟩
  | request =>
      rcases Bag.lookup_of_insert hr with ⟨rfl, rfl⟩ | hr
      exacts [.inl rfl, .inr ⟨r, hr, rfl⟩]
  | approve found =>
      rcases Bag.lookup_of_insert hr with ⟨rfl, rfl⟩ | hr
      exacts [.inr ⟨_, found, rfl⟩, .inr ⟨r, hr, rfl⟩]
  | confirm | delete => exact .inr ⟨r, Bag.lookup_of_erase hr, rfl⟩

theorem belongsTo_mem (h : Origins tr w) (hid : BelongsTo tr user id) : id ∈ w.ids := by
  rcases hid with ⟨hcreated, -⟩ | ⟨hconfirmed, -⟩
  · exact h.created_mem hcreated
  · exact h.confirmed hconfirmed

theorem step (h : Origins tr w) (hinv : w.Inv env activated) (hstep : Step env w label w') :
    Origins (tr ++ [label]) w' := by
  have href := hstep.refines hinv
  have hmono : ∀ {id}, id ∈ w.ids → id ∈ w'.ids := fun hid => by
    rw [href.ids_eq]
    exact Finset.mem_union_left _ hid
  -- the label's own id was not handed out before
  have hapart : ∀ {label' id}, label' ∈ tr → label'.fresh = some id → label.fresh ≠ some id :=
    fun hlabel hid hnew => href.fresh_new _ hnew (h.handed hlabel hid)
  constructor
  · intro label' id hlabel hid
    rcases List.mem_append.mp hlabel with hold | hnew
    · exact hmono (h.handed hold hid)
    · rw [List.mem_singleton.mp hnew] at hid
      rw [href.ids_eq, hid]
      simp
  · intro l l' id hl hl' hid hid'
    rcases List.mem_append.mp hl with hold | hnew <;> rcases List.mem_append.mp hl' with hold' | hnew'
    · exact h.once hold hold' hid hid'
    · rw [List.mem_singleton.mp hnew'] at hid'
      exact absurd hid' (hapart hold hid)
    · rw [List.mem_singleton.mp hnew] at hid
      exact absurd hid (hapart hold' hid')
    · rw [List.mem_singleton.mp hnew, List.mem_singleton.mp hnew']
  · intro id r hr
    rw [created_append, cancelled_append]
    have hother : label.cancels ≠ some id := fun hcancels => by
      rw [hstep.lookup_of_cancels hinv hcancels] at hr
      cases hr
    rcases hstep.request_origin hinv hr with ⟨digest, btc, rfl, -⟩ | ⟨r₀, hr₀, hsender, -⟩
    · refine ⟨.inr rfl, not_or.mpr ⟨fun hid => ?_, hother⟩⟩
      exact href.fresh_new id rfl (h.cancelled hid)
    · rw [← hsender]
      exact ⟨.inl (h.requests hr₀).1, not_or.mpr ⟨(h.requests hr₀).2, hother⟩⟩
  · intro id r hr
    rw [deposited_append, confirmed_append]
    have hother : label.confirms ≠ some id := fun hconfirms =>
      (hstep.leaves (.inl hconfirms)).2 (Bag.mem_of_lookup hr)
    rcases deposit_origin hstep hr with hnew | ⟨r₀, hr₀, hutxo⟩
    · refine ⟨.inr hnew, not_or.mpr ⟨fun hid => ?_, hother⟩⟩
      exact href.fresh_new id (Label.fresh_of_deposits hnew) (h.confirmed hid)
    · rw [← hutxo]
      exact ⟨.inl (h.deposits hr₀).1, not_or.mpr ⟨(h.deposits hr₀).2, hother⟩⟩
  · intro id hid
    rcases cancelled_append.mp hid with hold | hnew
    · exact hmono (h.cancelled hold)
    · obtain ⟨user, huser⟩ := h.created_of_cancels hstep hnew
      exact hmono (h.created_mem huser)
  · intro id hid
    rcases confirmed_append.mp hid with hold | hnew
    · exact hmono (h.confirmed hold)
    · obtain ⟨utxo, hutxo⟩ := h.deposited_of_confirms hstep hnew
      exact hmono (h.deposited_mem hutxo)

end Origins

/-! ## The index -/

structure IndexInv (tr : List Label) (w : World) : Prop where
  tidy : Tidy w.userRequests
  exact : ∀ user id, id ∈ members w.userRequests user ↔ BelongsTo tr user id

namespace IndexInv

theorem init (id epoch clock : Nat) : IndexInv [] (publish id epoch clock) where
  tidy := Tidy.empty
  exact user id := by
    simp [BelongsTo, CreatedIn, ConfirmedIn, members, World.userRequests, publish, Hashi.init,
      BitcoinState.create]

theorem belongsTo_of_request {sender fresh : Address} (h : Origins tr w) (hnew : fresh ∉ w.ids)
    (hcreates : label.creates = some (sender, fresh)) (hcancels : label.cancels = none)
    (hconfirms : label.confirms = none) (hdeposits : label.deposits = none) :
    BelongsTo (tr ++ [label]) user id ↔ (sender = user ∧ fresh = id) ∨ BelongsTo tr user id := by
  simp only [BelongsTo, created_append, cancelled_append, deposited_append, confirmed_append,
    hcreates, hcancels, hconfirms, hdeposits, reduceCtorEq, Option.some.injEq, Prod.mk.injEq,
    or_false]
  constructor
  · rintro (⟨hid | hid, hopen⟩ | hid)
    · exact .inr (.inl ⟨hid, hopen⟩)
    · exact .inl hid
    · exact .inr (.inr hid)
  · rintro (hid | ⟨hid, hopen⟩ | hid)
    · refine .inl ⟨.inr hid, fun hcancelled => hnew ?_⟩
      rw [hid.2]
      exact h.cancelled hcancelled
    · exact .inl ⟨.inl hid, hopen⟩
    · exact .inr hid

theorem belongsTo_of_cancel {sender cancelled : Address} (h : Origins tr w)
    (hcreated : CreatedIn tr sender cancelled) (hcreates : label.creates = none)
    (hcancels : label.cancels = some cancelled) (hconfirms : label.confirms = none)
    (hdeposits : label.deposits = none) :
    BelongsTo (tr ++ [label]) user id ↔
      BelongsTo tr user id ∧ ¬ (sender = user ∧ cancelled = id) := by
  simp only [BelongsTo, created_append, cancelled_append, deposited_append, confirmed_append,
    hcreates, hcancels, hconfirms, hdeposits, reduceCtorEq, Option.some.injEq, or_false, not_or]
  constructor
  · rintro (⟨hid, hopen, hother⟩ | ⟨hconfirmed, utxo, hutxo, hpath⟩)
    · exact ⟨.inl ⟨hid, hopen⟩, fun hsame => hother hsame.2⟩
    · refine ⟨.inr ⟨hconfirmed, utxo, hutxo, hpath⟩, ?_⟩
      rintro ⟨-, rfl⟩
      exact h.not_deposited hcreated hutxo
  · rintro ⟨⟨hid, hopen⟩ | hid, hother⟩
    · refine .inl ⟨hid, hopen, ?_⟩
      -- only its creator had the cancelled request
      rintro rfl
      exact hother ⟨h.creator_unique hid hcreated, rfl⟩
    · exact .inr hid

theorem belongsTo_of_confirm {confirmed : Address} {utxo : Utxo} (h : Origins tr w)
    (hdeposited : DepositedIn tr confirmed utxo) (hcreates : label.creates = none)
    (hcancels : label.cancels = none) (hconfirms : label.confirms = some confirmed)
    (hdeposits : label.deposits = none) :
    BelongsTo (tr ++ [label]) user id ↔
      (confirmed = id ∧ utxo.derivationPath = some user) ∨ BelongsTo tr user id := by
  simp only [BelongsTo, created_append, cancelled_append, deposited_append, confirmed_append,
    hcreates, hcancels, hconfirms, hdeposits, reduceCtorEq, Option.some.injEq, or_false]
  constructor
  · rintro (hid | ⟨hid | rfl, utxo', hutxo', hpath⟩)
    · exact .inr (.inl hid)
    · exact .inr (.inr ⟨hid, utxo', hutxo', hpath⟩)
    · rw [h.output_unique hdeposited hutxo'] at hpath
      exact .inl ⟨rfl, hpath⟩
  · rintro (⟨rfl, hpath⟩ | hid | ⟨hid, houtput⟩)
    · exact .inr ⟨.inr rfl, utxo, hdeposited, hpath⟩
    · exact .inl hid
    · exact .inr ⟨.inl hid, houtput⟩

/-- A step of no interest to the index may still open a deposit, whose id is not confirmed yet. -/
theorem belongsTo_of_kept (h : Origins tr w) (hnew : ∀ id, label.fresh = some id → id ∉ w.ids)
    (hcreates : label.creates = none) (hcancels : label.cancels = none)
    (hconfirms : label.confirms = none) :
    BelongsTo (tr ++ [label]) user id ↔ BelongsTo tr user id := by
  simp only [BelongsTo, created_append, cancelled_append, deposited_append, confirmed_append,
    hcreates, hcancels, hconfirms, reduceCtorEq, or_false]
  refine or_congr_right (and_congr_right fun hconfirmed => exists_congr fun utxo => ?_)
  refine and_congr_left fun _ => or_iff_left fun hdeposits => ?_
  exact hnew id (Label.fresh_of_deposits hdeposits) (h.confirmed hconfirmed)

theorem creates_of_requests (h : label.requests = none) : label.creates = none := by
  unfold Label.creates
  split
  · cases h
  · rfl

theorem step (h : IndexInv tr w) (horigins : Origins tr w) (hdeposits : DepositInv w)
    (href : Refines env w label w') (hstep : Step env w label w') : IndexInv (tr ++ [label]) w' := by
  have heffect := hstep.indexEffect
  generalize hindex : w'.userRequests = index at heffect
  cases heffect with
  | kept hrequests hcancels hconfirms =>
      refine ⟨hindex ▸ h.tidy, fun user id => ?_⟩
      rw [hindex, h.exact, belongsTo_of_kept horigins href.fresh_new (creates_of_requests hrequests)
        hcancels hconfirms]
  | @request sender fresh =>
      refine ⟨hindex ▸ h.tidy.attach _ _, fun user id => ?_⟩
      rw [hindex, mem_attach, h.exact, belongsTo_of_request horigins (href.fresh_new fresh rfl)
        rfl rfl rfl rfl, eq_comm (a := user), eq_comm (a := id)]
  | cancel found own =>
      refine ⟨hindex ▸ h.tidy.detach _ _, fun user id => ?_⟩
      rw [hindex, mem_detach, h.exact, belongsTo_of_cancel horigins (own ▸ (horigins.requests found).1) rfl
        rfl rfl rfl, eq_comm (a := user), eq_comm (a := id)]
  | donate found unaddressed =>
      refine ⟨hindex ▸ h.tidy, fun user id => ?_⟩
      rw [hindex, h.exact, belongsTo_of_confirm horigins (horigins.deposits found).1 rfl rfl
        rfl rfl, unaddressed]
      simp
  | confirm found addressed =>
      refine ⟨hindex ▸ h.tidy.attach _ _, fun user id => ?_⟩
      rw [hindex, mem_attach, h.exact, hdeposits.keyed found, belongsTo_of_confirm horigins
        (horigins.deposits found).1 rfl rfl rfl rfl, addressed, Option.some.injEq, and_comm,
        eq_comm (a := user), eq_comm (a := id)]

end IndexInv

theorem origins_reachable {id₀ epoch clock : Nat}
    (hrun : Run (Step env) (publish id₀ epoch clock) tr w) : Origins tr w ∧ IndexInv tr w := by
  induction hrun with
  | nil => exact ⟨.init id₀ epoch clock, .init id₀ epoch clock⟩
  | snoc hrun hstep ih =>
      have hinv := World.Inv.reachable hrun
      have hdeposits := (DepositInv.init id₀ epoch clock).run (World.Inv.init id₀ epoch clock) hrun
      exact ⟨ih.1.step hinv hstep, ih.2.step ih.1 hdeposits (hstep.refines hinv) hstep⟩

/-- In every state reached from publication a user has an entry exactly when an id belongs to the
user, and the entry holds exactly those ids. So the index never refuses the id of a new withdrawal or
of an open deposit, and a cancellation finds its request under the sender. -/
theorem user_index_exact {id₀ epoch clock : Nat}
    (hrun : Run (Step env) (publish id₀ epoch clock) tr w) :
    (∀ user, user ∈ w.userRequests ↔ ∃ id, BelongsTo tr user id) ∧
    (∀ user ids, w.userRequests.lookup user = some ids → ∀ id, id ∈ ids ↔ BelongsTo tr user id) ∧
    (∀ queue sender fresh, fresh ∉ w.ids →
      ∃ bitcoin, (w.hashi.withQueue queue).bitcoin.indexUserRequest sender fresh = .ok bitcoin) ∧
    (∀ id r, w.ledger.queue.requests.lookup id = some r → id ∈ w.hashi.bitcoin.requestsOf r.sender) ∧
    ∀ queue pool id r, w.deposits.requests.lookup id = some r →
      ∃ bitcoin, Hashi.indexRecipient ((w.hashi.withDeposits queue).withPool pool).bitcoin
        r.utxo.derivationPath r.id = .ok bitcoin := by
  obtain ⟨horigins, hindex⟩ := origins_reachable hrun
  have hdeposits := (DepositInv.init id₀ epoch clock).run (World.Inv.init id₀ epoch clock) hrun
  refine ⟨fun user => ?_, ?_, ?_, ?_, ?_⟩
  · rw [hindex.tidy.mem_iff]
    exact exists_congr fun id => hindex.exact user id
  · intro user ids hids id
    rw [← hindex.exact, members, hids]
    rfl
  · intro queue sender fresh hfresh
    refine ⟨_, indexUserRequest_attach.mpr ⟨fun hold => hfresh ?_, rfl⟩⟩
    exact horigins.belongsTo_mem ((hindex.exact _ _).mp hold)
  · intro id r hr
    exact (hindex.exact _ _).mpr (.inl (horigins.requests hr))
  · intro queue pool id r hr
    cases hpath : r.utxo.derivationPath with
    | none => exact ⟨_, rfl⟩
    | some user =>
        refine ⟨_, indexUserRequest_attach.mpr ⟨fun hold => ?_, rfl⟩⟩
        rw [hdeposits.keyed hr] at hold
        obtain ⟨hdeposited, hopen⟩ := horigins.deposits hr
        rcases (hindex.exact user id).mp hold with ⟨hcreated, -⟩ | ⟨hconfirmed, -⟩
        · exact horigins.not_deposited hcreated hdeposited
        · exact hopen hconfirmed

/-- A withdrawal that its sender takes back after the cooldown. -/
def Sample.cancellation : List Label := [
  call 1016 (.bridge (.requestWithdrawal 400000 (List.replicate 20 0))),
  .advance 0 1000000000,
  call 1017 (.bridge (.cancelWithdrawal 1016))]

/-- After it the sender has no entry, and the recipient of the deposit has one. -/
theorem user_index_exact_of_cancellation : ∃ w,
    Run (Step Sample.env) (publish 99 0 0)
      (Sample.launch ++ Sample.deposits ++ Sample.cancellation) w ∧
    20 ∈ w.userRequests ∧ 10 ∉ w.userRequests := by
  obtain ⟨w, hrun, htest⟩ := run_of_reaches Sample.env (publish 99 0 0)
    (Sample.launch ++ Sample.deposits ++ Sample.cancellation)
    (fun w => (w.userRequests.lookup 10).isNone) (by decide +kernel)
  refine ⟨w, hrun, ((user_index_exact hrun).1 20).mpr ⟨1010, .inr ⟨?_, ⟨⟨500, 0⟩, 1000000, some 20⟩, ?_,
    rfl⟩⟩, Bag.notMem_iff.mpr (Option.isNone_iff_eq_none.mp htest)⟩
  · exact ⟨Sample.call 1014 (.bridge (.confirmDeposit 1010)), by simp [Sample.deposits], rfl⟩
  · exact ⟨Sample.call 1010 (.bridge (.deposit ⟨⟨500, 0⟩, 1000000, some 20⟩)),
      by simp [Sample.deposits], rfl⟩

end HashiBridge.Chain
