import HashiBridge.Node.TobMirror

/-!
# A walk over a partial mirror returns a prefix of the insertion order

Buckets only grow at their end, so a link that is there is the same at every later time.
-/

namespace HashiBridge.Node

open Lib HashiBridge.Core

/-! ## Histories of a bucket -/

inductive BucketStep : EpochCertsV1 → EpochCertsV1 → Prop
  | submit {bucket bucket' : EpochCertsV1} {epoch : Nat} {dealer : Address} {messagesHash : Bytes}
      {sig : Core.CommitteeSignature} {timestampMs : Nat}
      (call : bucket.submitCertWithSignature epoch dealer messagesHash sig timestampMs =
        .ok bucket') : BucketStep bucket bucket'
  | seals {bucket : EpochCertsV1} {presigSeal : PresigSealV1} (unsealed : bucket.presigSeal = none) :
      BucketStep bucket { bucket with presigSeal := some presigSeal }

/-- The states of a bucket from one height to the next, with any number of calls in between. -/
def BucketHistory (history : Nat → EpochCertsV1) : Prop :=
  ∀ height, Relation.ReflTransGen BucketStep (history height) (history (height + 1))

theorem BucketStep.contents_append {bucket bucket' : EpochCertsV1} (h : BucketStep bucket bucket') :
    bucket.certs.contents <+: bucket'.certs.contents := by
  cases h with
  | seals => exact List.prefix_rfl
  | @submit _ epoch dealer _ _ _ call =>
      simp only [EpochCertsV1.submitCertWithSignature, bind_eq_ok, pure_eq_ok] at call
      obtain ⟨-, -, rfl⟩ := call
      split_ifs with hcontains
      · exact List.prefix_rfl
      · -- the dealer is new, so nothing is dropped
        have hkept : (bucket.certs.erase dealer).contents = bucket.certs.contents := by
          refine List.filter_eq_self.mpr fun entry hentry => ?_
          simp only [VecMap.contains, VecMap.tryGet, Option.isSome_map, List.find?_isSome] at hcontains
          exact decide_eq_true fun hsame => hcontains ⟨entry, hentry, decide_eq_true hsame⟩
        exact ⟨_, congrArg (· ++ _) hkept.symm⟩

theorem contents_append_of_reflTransGen {bucket bucket' : EpochCertsV1}
    (h : Relation.ReflTransGen BucketStep bucket bucket') :
    bucket.certs.contents <+: bucket'.certs.contents := by
  induction h with
  | refl => exact List.prefix_rfl
  | tail _ hstep ih => exact ih.trans hstep.contents_append

theorem getElem?_of_append {α : Type} {l l' : List α} (h : l <+: l') {i : Nat} {a : α}
    (hi : l[i]? = some a) : l'[i]? = some a := by
  obtain ⟨rest, rfl⟩ := h
  rw [List.getElem?_append_left (List.getElem?_eq_some_iff.mp hi).1, hi]

section History

variable {history : Nat → EpochCertsV1} {height height' : Nat} {bucket bucket' : TobBucket}

theorem BucketHistory.contents_mono (h : BucketHistory history) (hle : height ≤ height') :
    (history height).certs.contents <+: (history height').certs.contents := by
  induction hle with
  | refl => exact List.prefix_rfl
  | step _ ih =>
      exact ih.trans (contents_append_of_reflTransGen (h _))

/-- The mirror's field shows the bucket at `height`, and each of its nodes at a height of its own. -/
structure Mirrors (history : Nat → EpochCertsV1) (height : Nat) (bucket : TobBucket) : Prop where
  head : bucket.head = (certsTable (history height)).head
  size : bucket.size = (certsTable (history height)).size
  nodes : ∀ dealer node, bucket.nodes.lookup dealer = some node →
    ∃ h, (certsTable (history h)).nodes.lookup dealer = some node

theorem Mirrors.scrape (certsId : Address) {listing : List (Address × Option CertNode)}
    (h : ∀ dealer node, (dealer, some node) ∈ listing →
      ∃ h, (certsTable (history h)).nodes.lookup dealer = some node) :
    Mirrors history height (.scrape certsId (history height) listing) := by
  refine ⟨rfl, rfl, ?_⟩
  unfold TobBucket.scrape
  induction listing using List.reverseRecOn with
  | nil => exact fun dealer node hnone => by cases hnone
  | append_singleton listing entry ih =>
      intro dealer node hlookup
      have hrest := ih fun dealer node hmem => h dealer node (List.mem_append_left _ hmem)
      obtain ⟨key, value⟩ := entry
      simp only [List.foldl_append, List.foldl_cons, List.foldl_nil] at hlookup
      cases value with
      | none => exact hrest dealer node hlookup
      | some new =>
          simp only [Bag.lookup_insert_ite] at hlookup
          split_ifs at hlookup with hkey
          · cases hlookup
            exact h dealer node (by rw [hkey]; simp)
          · exact hrest dealer node hlookup

/-! ## Walks -/

@[simp] theorem TobBucket.walk_none (bucket : TobBucket) (n : Nat) : bucket.walk n none = [] := by
  cases n <;> rfl

theorem Mirrors.walk_append (h : Mirrors history height bucket) (hhistory : BucketHistory history)
    (n : Nat) {i start : Nat} {dealer : Address}
    (hstart : (history start).certs.contents[i]?.map Prod.fst = some dealer) :
    ∃ last, bucket.walk n (some dealer) <+: (history last).certs.contents.drop i := by
  induction n generalizing i start dealer with
  | zero => exact ⟨start, List.nil_prefix⟩
  | succ n ih =>
      rw [TobBucket.walk]
      cases hnode : bucket.nodes.lookup dealer with
      | none => exact ⟨start, List.nil_prefix⟩
      | some node =>
          obtain ⟨read, hread⟩ := h.nodes dealer node hnode
          have hrepresents := LinkedTable.represents_ofList (history read).certs.nodup
          obtain ⟨j, hj, hnext⟩ := hrepresents.node dealer node hread
          -- both heights show the dealer, so the later one does at a single position
          obtain rfl : i = j := by
            obtain ⟨entry, hentry, hkey⟩ := Option.map_eq_some_iff.mp hstart
            have hi := getElem?_of_append (hhistory.contents_mono (le_max_left start read)) hentry
            have hj := getElem?_of_append (hhistory.contents_mono (le_max_right start read)) hj
            refine LinkedTable.position_unique (history (max start read)).certs.nodup ?_
              (congrArg (Option.map Prod.fst) hj)
            rw [hi, ← hkey]
            rfl
          change ∃ last, (dealer, node.value) :: bucket.walk n node.next <+: _
          cases hlink : node.next with
          | none =>
              refine ⟨read, ?_⟩
              rw [TobBucket.walk_none, List.drop_eq_getElem?_toList_append, hj]
              exact List.prefix_append _ _
          | some dealer' =>
              obtain ⟨last, hlast⟩ := ih (hnext.symm.trans hlink)
              refine ⟨max read last, ?_⟩
              rw [List.drop_eq_getElem?_toList_append,
                getElem?_of_append (hhistory.contents_mono (le_max_left read last)) hj]
              refine List.cons_prefix_cons.mpr ⟨rfl, hlast.trans ?_⟩
              exact (hhistory.contents_mono (le_max_right read last)).drop _

theorem Mirrors.certsInOrder_append (h : Mirrors history height bucket)
    (hhistory : BucketHistory history) :
    ∃ last, bucket.certsInOrder <+: (history last).certs.contents := by
  have hrepresents := LinkedTable.represents_ofList (history height).certs.nodup
  rw [TobBucket.certsInOrder]
  cases hhead : bucket.head with
  | none => exact ⟨height, by rw [TobBucket.walk_none]; exact List.nil_prefix⟩
  | some dealer =>
      have hstart : (history height).certs.contents[0]?.map Prod.fst = some dealer := by
        rw [← List.head?_eq_getElem?, ← hrepresents.head, ← hhead, h.head]
        rfl
      exact h.walk_append hhistory _ hstart

theorem Mirrors.complete_append (h : Mirrors history height bucket)
    (hhistory : BucketHistory history) {certs : List (Address × DealerSubmissionV1)}
    (hok : bucket.completeCertsInOrder = .ok certs) :
    (history height).certs.contents <+: certs ∧
      ∃ last, certs <+: (history last).certs.contents := by
  have hsize : bucket.size = (history height).certs.contents.length :=
    h.size.trans (LinkedTable.represents_ofList (history height).certs.nodup).size
  obtain ⟨last, hlast⟩ := h.certsInOrder_append hhistory
  simp only [TobBucket.completeCertsInOrder] at hok
  split_ifs at hok with hshort
  cases hok
  refine ⟨?_, last, hlast⟩
  refine List.prefix_of_prefix_length_le (hhistory.contents_mono (le_max_left height last))
    (hlast.trans (hhistory.contents_mono (le_max_right height last))) ?_
  omega

end History

theorem certs_walk_complete {history : Nat → EpochCertsV1} (hhistory : BucketHistory history)
    {height : Nat} {bucket : TobBucket} (h : Mirrors history height bucket) :
    (bucket.certsInOrder.map Prod.fst).Nodup ∧
    (∀ certs, bucket.completeCertsInOrder = .ok certs →
      (history height).certs.contents <+: certs ∧
        ∃ last, certs <+: (history last).certs.contents) ∧
    (∀ e, bucket.completeCertsInOrder = .error e →
      e = ⟨bucket.certsInOrder.length, bucket.size⟩ ∧ e.walked < e.size) ∧
    ∀ height' bucket', Mirrors history height' bucket' → ∀ certs certs',
      bucket.completeCertsInOrder = .ok certs → bucket'.completeCertsInOrder = .ok certs' →
      certs <+: certs' ∨ certs' <+: certs := by
  refine ⟨?_, fun certs hok => h.complete_append hhistory hok, ?_, ?_⟩
  · obtain ⟨last, hlast⟩ := h.certsInOrder_append hhistory
    exact (history last).certs.nodup.sublist (hlast.sublist.map Prod.fst)
  · intro e herror
    simp only [TobBucket.completeCertsInOrder] at herror
    split_ifs at herror with hshort
    cases herror
    exact ⟨rfl, hshort⟩
  · intro height' bucket' h' certs certs' hok hok'
    obtain ⟨-, last, hlast⟩ := h.complete_append hhistory hok
    obtain ⟨-, last', hlast'⟩ := h'.complete_append hhistory hok'
    exact List.prefix_or_prefix_of_prefix
      (hlast.trans (hhistory.contents_mono (le_max_left last last')))
      (hlast'.trans (hhistory.contents_mono (le_max_right last last')))

namespace Sample

def dealing (dealer : Address) : DealerSubmissionV1 := ⟨dealer, [], ⟨5, [], []⟩, 1⟩

def oneDealer : EpochCertsV1 :=
  { epoch := 5, protocolType := .dkg, certs := VecMap.empty.upsert 1 (dealing 1), presigSeal := none }

def twoDealers : Nat → EpochCertsV1
  | 0 => oneDealer
  | _ + 1 => { oneDealer with certs := oneDealer.certs.upsert 2 (dealing 2) }

def mirror : TobBucket :=
  .scrape 9 oneDealer [(1, some ⟨none, some 2, dealing 1⟩), (2, some ⟨some 1, none, dealing 2⟩)]

end Sample

theorem certs_walk_complete_twoDealers :
    Sample.mirror.completeCertsInOrder = .ok [(1, Sample.dealing 1), (2, Sample.dealing 2)] ∧
      Sample.oneDealer.certs.contents <+: [(1, Sample.dealing 1), (2, Sample.dealing 2)] := by
  have hhistory : BucketHistory Sample.twoDealers := by
    intro height
    cases height with
    | zero =>
        have hcall : Sample.oneDealer.submitCertWithSignature 5 2 [] ⟨5, [], []⟩ 1 =
            .ok (Sample.twoDealers 1) := rfl
        exact .single (.submit hcall)
    | succ => exact .refl
  have hmirror : Mirrors Sample.twoDealers 0 Sample.mirror := by
    refine Mirrors.scrape 9 fun dealer node hmem => ⟨1, ?_⟩
    simp only [List.mem_cons, List.not_mem_nil, or_false, Prod.mk.injEq, Option.some.injEq] at hmem
    rcases hmem with ⟨rfl, rfl⟩ | ⟨rfl, rfl⟩ <;> rfl
  have hok : Sample.mirror.completeCertsInOrder =
      .ok [(1, Sample.dealing 1), (2, Sample.dealing 2)] := rfl
  exact ⟨hok, ((certs_walk_complete hhistory hmirror).2.1 _ hok).1⟩

end HashiBridge.Node
