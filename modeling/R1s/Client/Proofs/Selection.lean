/-
Which offer `chooseWithPreferences` selects. The ranking is a strict total
order on offers with distinct IDs, so the eligible offers have one least
element, and that is the head whatever order the map yields the offers in
and whatever sorted arrangement `sort.Slice` leaves.

# Two levels

`Least` and `Sorts` are about an arbitrary comparison: what a minimum is,
and what a sort leaves. `rank` puts an offer into the lexicographic order
(hops, not cached, allocator, offer ID), and the comparison of the code is
shown to be that order.
-/
import R1s.Client.Proofs.Core

namespace R1s.Client

-- ===== minima of a comparison

section Comparison

variable {α : Type*} {before : α → α → Bool} {l sorted : List α} {a b : α}

/-- `a` is in the list and before everything else there. -/
def Least (before : α → α → Bool) (l : List α) (a : α) : Prop :=
  a ∈ l ∧ ∀ b ∈ l, b ≠ a → before a b = true

/-- What `sort.Slice` leaves of a list: a permutation in which nothing is
before an earlier element. -/
structure Sorts (before : α → α → Bool) (l sorted : List α) : Prop where
  perm : sorted.Perm l
  pairwise : sorted.Pairwise fun a b => before b a = false

/-- A strict order in which the members of the list are comparable. -/
structure Ranks (before : α → α → Bool) (l : List α) : Prop where
  irrefl : ∀ a, before a a = false
  trans : ∀ {a b c}, before a b = true → before b c = true → before a c = true
  total : ∀ a ∈ l, ∀ b ∈ l, a ≠ b → before a b = true ∨ before b a = true

theorem Ranks.least_unique (h : Ranks before l) (ha : Least before l a)
    (hb : Least before l b) : a = b := by
  by_contra hne
  have hab : before a b = true := ha.2 b hb.1 (Ne.symm hne)
  have hba : before b a = true := hb.2 a ha.1 hne
  have haa : before a a = true := h.trans hab hba
  rw [h.irrefl] at haa
  cases haa

theorem first_eq_none : first before l = none ↔ l = [] := by
  cases l with
  | nil => exact ⟨fun _ => rfl, fun _ => rfl⟩
  | cons b rest =>
    unfold first
    split <;> simp

theorem Ranks.tail (h : Ranks before (b :: l)) : Ranks before l :=
  ⟨h.irrefl, h.trans, fun a ha c hc => h.total a (List.mem_cons_of_mem _ ha) c
    (List.mem_cons_of_mem _ hc)⟩

theorem Ranks.least_first (h : Ranks before l) (hfirst : first before l = some a) :
    Least before l a := by
  refine ⟨first_mem hfirst, ?_⟩
  induction l generalizing a with
  | nil => cases hfirst
  | cons b rest ih =>
    unfold first at hfirst
    split at hfirst
    next hnone =>
      cases hfirst
      intro c hc hne
      rw [first_eq_none.mp hnone, List.mem_singleton] at hc
      exact absurd hc hne
    rename_i c hc
    have hleast : ∀ d ∈ rest, d ≠ c → before c d = true := ih h.tail hc
    have hmem : c ∈ rest := first_mem hc
    intro d hd hne
    by_cases hbefore : before c b = true
    · rw [if_pos hbefore] at hfirst
      cases hfirst
      rcases List.mem_cons.mp hd with rfl | hd
      · exact hbefore
      · exact hleast d hd hne
    · -- `b` stays in front: it is before `c`, and so before the rest
      rw [if_neg hbefore] at hfirst
      cases hfirst
      rcases List.mem_cons.mp hd with rfl | hd
      · exact absurd rfl hne
      · by_cases hdc : d = c
        · rw [hdc] at hne ⊢
          exact (h.total b List.mem_cons_self c (List.mem_cons_of_mem _ hmem)
            (Ne.symm hne)).resolve_right hbefore
        · by_cases hbc : b = c
          · exact hbc ▸ hleast d hd hdc
          · have hfront : before b c = true :=
              (h.total b List.mem_cons_self c (List.mem_cons_of_mem _ hmem)
                hbc).resolve_right hbefore
            exact h.trans hfront (hleast d hd hdc)

/-- The head of a sorted arrangement is the minimum. -/
theorem Sorts.least_head (hsort : Sorts before l sorted) (h : Ranks before l)
    (hhead : sorted.head? = some a) : Least before l a := by
  obtain ⟨rest, rfl⟩ : ∃ rest, sorted = a :: rest := by
    cases sorted with
    | nil => cases hhead
    | cons b rest => exact ⟨rest, by cases hhead; rfl⟩
  have hmem : a ∈ l := hsort.perm.mem_iff.mp List.mem_cons_self
  refine ⟨hmem, ?_⟩
  intro b hb hne
  have hrest : b ∈ rest :=
    (List.mem_cons.mp (hsort.perm.mem_iff.mpr hb)).resolve_left hne
  have hnot : before b a = false := (List.pairwise_cons.mp hsort.pairwise).1 b hrest
  rcases h.total a hmem b hb (Ne.symm hne) with hab | hba
  · exact hab
  · rw [hnot] at hba
    cases hba

/-- Scanning for the first and sorting agree. -/
theorem Sorts.head_eq (hsort : Sorts before l sorted) (h : Ranks before l) :
    sorted.head? = first before l := by
  cases hfirst : first before l with
  | none =>
    rw [first_eq_none] at hfirst
    rw [hfirst] at hsort
    rw [hsort.perm.eq_nil, List.head?_nil]
  | some a =>
    cases hhead : sorted.head? with
    | none =>
      rw [List.head?_eq_none_iff] at hhead
      have hnil : l = [] := (hhead ▸ hsort.perm).symm.eq_nil
      rw [hnil] at hfirst
      cases hfirst
    | some b =>
      exact congrArg some (h.least_unique (hsort.least_head h hhead) (h.least_first hfirst))

end Comparison

-- ===== the ranking of offers

/-- The place of an offer: fewer hops, then a node of its own that caches
the image, then the allocator's identity, then the offer ID. -/
def rank (image : GoString) (s : State) (o : OfferRecord) :
    ℕ ×ₗ Bool ×ₗ Bytes ×ₗ GoString :=
  toLex (((s.allocators.lookup o.allocatorID).map KnownAllocator.hops).getD 0,
    toLex (!(image != [] && nodeCaches o.offer.node image),
      toLex (o.allocatorID, o.offer.offerID)))

variable {s : State} {image : GoString} {now : Int}
  {constraints : Option PlacementConstraints} {offers : FMap GoString OfferRecord}

theorem ranksBefore_iff {o o' : OfferRecord} :
    ranksBefore image s o o' = true ↔ rank image s o < rank image s o' := by
  simp only [rank, Prod.Lex.toLex_lt_toLex]
  unfold ranksBefore
  dsimp only
  split
  next hhops => simp [hhops]
  rename_i hhops
  rw [not_not] at hhops
  split
  next hcached =>
    cases hleft : (image != [] && nodeCaches o.offer.node image) <;>
      cases hright : (image != [] && nodeCaches o'.offer.node image) <;> simp_all
  rename_i hcached
  rw [not_not] at hcached
  rw [hhops, hcached]
  split
  next hid => simp [hid]
  next hid =>
    rw [not_not] at hid
    simp [hid, List.lt_irrefl]

theorem rank_trans {a b c : ℕ ×ₗ Bool ×ₗ Bytes ×ₗ GoString} (hab : a < b) (hbc : b < c) :
    a < c := by
  have hbytes : ∀ {x y z : List UInt8}, x < y → y < z → x < z := List.lt_trans
  simp only [Prod.Lex.lt_iff] at hab hbc ⊢
  grind

/-- Offers with different IDs never rank alike. -/
theorem rank_total {o o' : OfferRecord} (hne : o.offer.offerID ≠ o'.offer.offerID) :
    rank image s o < rank image s o' ∨ rank image s o' < rank image s o := by
  have hbytes : ∀ {x y : List UInt8}, x ≠ y → x < y ∨ y < x := by
    intro x y hxy
    by_contra hnot
    rw [not_or] at hnot
    exact hxy (List.le_antisymm (List.not_lt.mp hnot.2) (List.not_lt.mp hnot.1))
  have hids := hbytes hne
  have hallocators := @hbytes o.allocatorID o'.allocatorID
  simp only [rank, Prod.Lex.toLex_lt_toLex]
  generalize (!(image != [] && nodeCaches o.offer.node image)) = b
  generalize (!(image != [] && nodeCaches o'.offer.node image)) = b'
  have hbool : b < b' ∨ b' < b ∨ b = b' := by cases b <;> cases b' <;> decide
  grind

/-- The offers of the map in the order it yields them, filtered. -/
def candidates (offers : FMap GoString OfferRecord) (now : Int)
    (constraints : Option PlacementConstraints) (s : State) : List OfferRecord :=
  (offers.entries.map Sigma.snd).filter (eligible now constraints s)

variable {o : OfferRecord}

theorem mem_candidates :
    o ∈ candidates offers now constraints s ↔
      (∃ k, offers.lookup k = some o) ∧ eligible now constraints s o = true := by
  rw [candidates, List.mem_filter, List.mem_map]
  refine and_congr_left fun _ => ⟨?_, ?_⟩
  · rintro ⟨entry, hentry, rfl⟩
    exact ⟨entry.1, AList.mem_entries.mp hentry⟩
  · rintro ⟨k, hk⟩
    exact ⟨⟨k, o⟩, AList.mem_entries.mpr hk, rfl⟩

/-- The recorded offers carry distinct IDs. -/
def DistinctIDs (offers : FMap GoString OfferRecord) : Prop :=
  ∀ k k' o o', offers.lookup k = some o → offers.lookup k' = some o' →
    o.offer.offerID = o'.offer.offerID → k = k'

theorem ranks_candidates (hids : DistinctIDs offers) :
    Ranks (ranksBefore image s) (candidates offers now constraints s) := by
  constructor
  · intro a
    rw [← Bool.not_eq_true, ranksBefore_iff, rank]
    simp [Prod.Lex.toLex_lt_toLex, List.lt_irrefl]
  · intro a b c hab hbc
    exact ranksBefore_iff.mpr (rank_trans (ranksBefore_iff.mp hab) (ranksBefore_iff.mp hbc))
  · intro a ha b hb hne
    obtain ⟨⟨k, hk⟩, -⟩ := mem_candidates.mp ha
    obtain ⟨⟨k', hk'⟩, -⟩ := mem_candidates.mp hb
    have hdiffer : a.offer.offerID ≠ b.offer.offerID := by
      intro heq
      obtain rfl : k = k' := hids k k' a b hk hk' heq
      exact hne (Option.some.inj (hk.symm.trans hk'))
    rw [ranksBefore_iff, ranksBefore_iff]
    exact rank_total hdiffer

/-- The choice is the minimum of the candidates. -/
theorem choose_eq_some (hids : DistinctIDs offers) {a : KnownAllocator} :
    choose offers now constraints image s = some (o, a) ↔
      Least (ranksBefore image s) (candidates offers now constraints s) o ∧
        s.allocators.lookup o.allocatorID = some a := by
  have hranks : Ranks (ranksBefore image s) (candidates offers now constraints s) :=
    ranks_candidates hids
  unfold choose
  rw [← candidates, Option.bind_eq_some_iff]
  constructor
  · rintro ⟨o', ho', hmap⟩
    obtain ⟨a', ha', heq⟩ := Option.map_eq_some_iff.mp hmap
    cases heq
    exact ⟨hranks.least_first ho', ha'⟩
  · rintro ⟨hleast, ha⟩
    refine ⟨o, ?_, by rw [ha]; rfl⟩
    cases hfirst : first (ranksBefore image s) (candidates offers now constraints s) with
    | none =>
      rw [first_eq_none] at hfirst
      exact absurd hleast.1 (by rw [hfirst]; exact List.not_mem_nil)
    | some o' => exact congrArg some (hranks.least_unique (hranks.least_first hfirst) hleast)

theorem choose_eq_none :
    choose offers now constraints image s = none ↔ candidates offers now constraints s = [] := by
  unfold choose
  rw [← candidates]
  cases hfirst : first (ranksBefore image s) (candidates offers now constraints s) with
  | none => simpa using first_eq_none.mp hfirst
  | some o =>
    -- an eligible offer names a known allocator
    obtain ⟨-, heligible⟩ := mem_candidates.mp (first_mem hfirst)
    obtain ⟨a, ha, -⟩ := (Option.any_eq_true _ _).mp heligible
    have hne : candidates offers now constraints s ≠ [] := by
      intro hnil
      rw [hnil] at hfirst
      cases hfirst
    simp [ha, hne]

-- ===== selection

theorem newRelease_error {messageID : GoString} {sentAt : Int} {err : Err}
    (h : newRelease messageID sentAt o s = .error err) : err.is .noOffer = false := by
  unfold newRelease at h
  split at h
  · cases h
    rfl
  split at h
  · cases h
    rfl
  split at h
  · cases h
    rfl
  · cases h

theorem prepareReleases_error {i : Input} {selected : GoString} {err : Err}
    (keys : List GoString) (n : Nat) (offers : FMap GoString OfferRecord)
    (h : prepareReleases i selected s keys n offers = .error err) : err.is .noOffer = false := by
  induction keys generalizing n offers with
  | nil => cases h
  | cons key rest ih =>
    unfold prepareReleases at h
    split at h
    · exact ih n offers h
    split at h
    · exact ih n offers h
    split at h
    next err' hrelease =>
      cases h
      exact newRelease_error hrelease
    next intent _ => exact ih _ _ h

/-- `Select` on a request without an execution reports that there is no
offer only when none was chosen. -/
theorem select_noOffer {cfg : Config} {i : Input} {requestID : GoString}
    {record : RequestRecord} (hrecord : s.requests.lookup requestID = some record)
    (hfree : record.executionID = []) :
    (select cfg i requestID s).2 = .error Sentinel.noOffer.err ↔
      choose record.offers (i.time 0) record.request.constraints
        ((record.request.workload.map Workload.image).getD []) s = none := by
  have hother : ∀ {err : Err}, err.is .noOffer = false → err ≠ Sentinel.noOffer.err := by
    rintro _ h rfl
    cases h
  simp only [select, hrecord, hfree, ne_eq, not_true_eq_false, if_false]
  cases choose record.offers (i.time 0) record.request.constraints
    ((record.request.workload.map Workload.image).getD []) s with
  | none => simp
  | some choice =>
    simp only [reduceCtorEq, iff_false]
    split
    · exact fun h => hother (by rfl) (Except.error.inj h)
    · split
      next err herr => exact fun h => hother (prepareReleases_error _ _ _ herr) (Except.error.inj h)
      · exact fun h => by cases h

/-- The selected offer is the one eligible offer that ranks before all
others; there is none exactly when no offer is eligible. Both are said over
the lookups of the map, so neither arrival nor iteration order plays a part,
and every order of listing and every sorted arrangement has that offer at
its head. -/
theorem choose_least (hids : DistinctIDs offers) (now : Int)
    (constraints : Option PlacementConstraints) (image : GoString) (s : State) :
    (choose offers now constraints image s = none ↔
      ∀ k o, offers.lookup k = some o → eligible now constraints s o = false) ∧
    (∀ o a, choose offers now constraints image s = some (o, a) ↔
      (∃ k, offers.lookup k = some o) ∧ eligible now constraints s o = true ∧
        s.allocators.lookup o.allocatorID = some a ∧
        ∀ k o', offers.lookup k = some o' → eligible now constraints s o' = true → o' ≠ o →
          rank image s o < rank image s o') ∧
    (∀ listed sorted, listed.Perm (candidates offers now constraints s) →
      Sorts (ranksBefore image s) listed sorted →
      sorted.head? = (choose offers now constraints image s).map Prod.fst) ∧
    ∀ (cfg : Config) (i : Input) (requestID : GoString) (record : RequestRecord),
      s.requests.lookup requestID = some record → record.executionID = [] →
      record.offers = offers → record.request.constraints = constraints → i.time 0 = now →
      ((select cfg i requestID s).2 = .error Sentinel.noOffer.err ↔
        ∀ k o, offers.lookup k = some o → eligible now constraints s o = false) := by
  have hranks : Ranks (ranksBefore image s) (candidates offers now constraints s) :=
    ranks_candidates hids
  have hempty : candidates offers now constraints s = [] ↔
      ∀ k o, offers.lookup k = some o → eligible now constraints s o = false := by
    rw [List.eq_nil_iff_forall_not_mem]
    constructor
    · intro h k o hk
      rw [← Bool.not_eq_true]
      exact fun heligible => h o (mem_candidates.mpr ⟨⟨k, hk⟩, heligible⟩)
    · intro h o ho
      obtain ⟨⟨k, hk⟩, heligible⟩ := mem_candidates.mp ho
      rw [h k o hk] at heligible
      cases heligible
  refine ⟨choose_eq_none.trans hempty, ?_, ?_, ?_⟩
  · intro o a
    rw [choose_eq_some hids]
    constructor
    · rintro ⟨⟨hmem, hleast⟩, ha⟩
      obtain ⟨hk, heligible⟩ := mem_candidates.mp hmem
      refine ⟨hk, heligible, ha, fun k o' hk' heligible' hne => ?_⟩
      exact ranksBefore_iff.mp (hleast o' (mem_candidates.mpr ⟨⟨k, hk'⟩, heligible'⟩) hne)
    · rintro ⟨hk, heligible, ha, hleast⟩
      refine ⟨⟨mem_candidates.mpr ⟨hk, heligible⟩, fun o' hmem hne => ?_⟩, ha⟩
      obtain ⟨⟨k, hk'⟩, heligible'⟩ := mem_candidates.mp hmem
      exact ranksBefore_iff.mpr (hleast k o' hk' heligible' hne)
  · intro listed sorted hlisted hsort
    have hsorts : Sorts (ranksBefore image s) (candidates offers now constraints s) sorted :=
      ⟨hsort.perm.trans hlisted, hsort.pairwise⟩
    rw [hsorts.head_eq hranks]
    cases hchoose : choose offers now constraints image s with
    | none => exact first_eq_none.mpr (choose_eq_none.mp hchoose)
    | some choice =>
      obtain ⟨o, ho, hmap⟩ := Option.bind_eq_some_iff.mp hchoose
      obtain ⟨a, -, rfl⟩ := Option.map_eq_some_iff.mp hmap
      exact ho
  · rintro cfg i requestID record hrecord hfree rfl rfl rfl
    exact (select_noOffer hrecord hfree).trans (choose_eq_none.trans hempty)

/-- An offer made by `allocator`, whose node caches `images`. -/
def offered (id allocator : GoString) (images : List GoString) : OfferRecord :=
  ⟨⟨id, text "r", text "small", some (Timestamp.new 10),
    some ⟨[], [], [], [], [], .empty, images⟩⟩, allocator, 0, none⟩

/-- Two offers of equal distance: the one whose node caches the image comes
before the one with the smaller identity. -/
theorem choose_least_cached :
    let warm := offered (text "o2") (text "b") [text "img"]
    let offers : FMap GoString OfferRecord :=
      (AList.insert (text "o1") (offered (text "o1") (text "a") []) ∅).insert (text "o2") warm
    let s : State := { State.empty with
      allocators := (AList.insert (text "a") { identity := text "a", destination := text "d" }
        ∅).insert (text "b") { identity := text "b", destination := text "d" } }
    DistinctIDs offers ∧
      ∀ k o, offers.lookup k = some o → eligible 5 none s o = true → o ≠ warm →
        rank (text "img") s warm < rank (text "img") s o := by
  intro warm offers s
  have hids : DistinctIDs offers := by
    have hkey : ∀ k o, offers.lookup k = some o → o.offer.offerID = k := by
      intro k o hk
      rw [AList.lookup_insert_if, AList.lookup_insert_if] at hk
      split at hk
      next heq =>
        cases hk
        exact heq.symm
      split at hk
      next heq =>
        cases hk
        exact heq.symm
      · cases hk
    intro k k' o o' hk hk' heq
    rw [← hkey k o hk, ← hkey k' o' hk', heq]
  have hchoice : choose offers 5 none (text "img") s =
      some (warm, { identity := text "b", destination := text "d" }) := rfl
  exact ⟨hids, (((choose_least hids 5 none (text "img") s).2.1 _ _).mp hchoice).2.2.2⟩

end R1s.Client
