/-
The accounts after a reload: a snapshot of a linked state that loads
gives a linked state whose ledger counts its holders again.

The loader trusts nothing about the ledger: it rebuilds it from the
offers, slot by slot, and fails when a class has no room. What it takes
from the snapshot are the references between offers and executions. IDs
are replaced byte by byte where they are not UTF-8, on both sides of a
reference alike, except that an offer's own ID travels inside a protobuf
message and so must be valid.
-/
import R1s.Lib.Loop
import R1s.Allocator.Proofs.Ledger

namespace R1s.Allocator

variable {cfg : Config}

-- ===== the load loops

theorem loadOffer_ok {acc acc' : FMap GoString OfferRecord × FMap GoString GoString}
    {saved : OfferRecord} (h : loadOffer acc saved = .ok acc') :
    acc.1.lookup saved.offer.offerID = none
      ∧ acc' = (acc.1.insert saved.offer.offerID saved,
          acc.2.insert (authorityKey saved.client saved.request.requestID)
            saved.offer.offerID) := by
  simp only [loadOffer] at h
  split at h
  case isTrue => cases h
  case isFalse =>
    split at h
    case isTrue => cases h
    case isFalse hfresh =>
      split at h
      case isTrue => cases h
      case isFalse =>
        cases h
        refine ⟨?_, rfl⟩
        simpa using hfresh

/-- The loaded offers are the saved ones under their own IDs. -/
theorem lookup_loadOffers {l : List OfferRecord}
    {acc : FMap GoString OfferRecord × FMap GoString GoString}
    (h : l.foldlM loadOffer (∅, ∅) = .ok acc) (o : GoString) (r : OfferRecord) :
    acc.1.lookup o = some r ↔ r ∈ l ∧ r.offer.offerID = o := by
  have hI := Loop.foldlM_ok
    (fun done (acc : FMap GoString OfferRecord × FMap GoString GoString) =>
      ∀ o r, acc.1.lookup o = some r ↔ r ∈ done ∧ r.offer.offerID = o) (by simp) ?_ h
  · exact hI o r
  · intro done saved acc acc' hI hok o r
    obtain ⟨hfresh, rfl⟩ := loadOffer_ok hok
    rw [AList.lookup_insert_if, List.mem_append, List.mem_singleton]
    split
    next heq =>
      subst heq
      constructor
      · intro hsome
        cases hsome
        exact ⟨.inr rfl, rfl⟩
      · rintro ⟨hmem | rfl, hid⟩
        · have := (hI _ r).mpr ⟨hmem, hid⟩
          rw [hfresh] at this
          cases this
        · rfl
    rename_i hne
    rw [hI o r]
    constructor
    · exact fun ⟨hmem, hid⟩ => ⟨.inl hmem, hid⟩
    · rintro ⟨hmem | rfl, hid⟩
      · exact ⟨hmem, hid⟩
      · exact absurd hid.symm hne

variable {now : Int}

theorem loadExecution_ok {acc acc' : FMap GoString ExecutionRecord} {saved : ExecutionRecord}
    (h : loadExecution cfg now acc saved = .ok acc') :
    acc.lookup saved.id = none ∧ saved.id ≠ [] ∧ saved.phase.terminal = saved.released
      ∧ acc' = acc.insert saved.id (saved.restore cfg now) := by
  unfold loadExecution at h
  split at h
  case isTrue => cases h
  case isFalse hfields =>
    split at h
    case isTrue => cases h
    case isFalse hfresh =>
      split at h
      case isTrue => cases h
      case isFalse =>
        split at h
        case isTrue => cases h
        case isFalse htimes =>
          cases h
          simp only [not_or, Decidable.not_not, ne_eq] at hfields htimes
          exact ⟨by simpa using hfresh, hfields.1, htimes.2.2, rfl⟩

/-- The loaded executions are the saved ones, restored, under their own
IDs. -/
theorem lookup_loadExecutions {l : List ExecutionRecord} {acc : FMap GoString ExecutionRecord}
    (h : l.foldlM (loadExecution cfg now) ∅ = .ok acc) (k : GoString) (x : ExecutionRecord) :
    acc.lookup k = some x ↔ ∃ s ∈ l, s.id = k ∧ k ≠ [] ∧ s.phase.terminal = s.released
      ∧ x = s.restore cfg now := by
  have hI := Loop.foldlM_ok
    (fun done (acc : FMap GoString ExecutionRecord) =>
      ∀ k x, acc.lookup k = some x ↔ ∃ s ∈ done, s.id = k ∧ k ≠ []
        ∧ s.phase.terminal = s.released ∧ x = s.restore cfg now) (by simp) ?_ h
  · exact hI k x
  · intro done saved acc acc' hI hok k x
    obtain ⟨hfresh, hid, hterm, rfl⟩ := loadExecution_ok hok
    rw [AList.lookup_insert_if]
    simp only [List.mem_append, List.mem_singleton]
    split
    next heq =>
      subst heq
      constructor
      · intro hsome
        cases hsome
        exact ⟨saved, .inr rfl, rfl, hid, hterm, rfl⟩
      · rintro ⟨s, hmem | rfl, hsid, hne, hst, rfl⟩
        · have := (hI _ _).mpr ⟨s, hmem, hsid, hne, hst, rfl⟩
          rw [hfresh] at this
          cases this
        · rfl
    rename_i hne
    rw [hI k x]
    constructor
    · rintro ⟨s, hmem, hs⟩
      exact ⟨s, .inl hmem, hs⟩
    · rintro ⟨s, hmem | rfl, hsid, hs⟩
      · exact ⟨s, hmem, hsid, hs⟩
      · exact absurd hsid.symm hne

-- ===== the new ledger

/-- An assigned offer has its execution, with the same class. -/
def Matched (executions : FMap GoString ExecutionRecord) (r : OfferRecord) : Prop :=
  r.status = .assigned → ∃ x, executions.lookup r.execution = some x
    ∧ x.offerID = r.offer.offerID ∧ x.resourceClass = r.offer.resourceClass

variable {executions : FMap GoString ExecutionRecord} {r : OfferRecord}

theorem reserveLoaded_ok {used used' : GoString → Nat}
    (h : reserveLoaded cfg executions used r = .ok used') :
    Matched executions r
      ∧ (∀ cls, used' cls
          = used cls + if r.holds executions && r.offer.resourceClass = cls then 1 else 0)
      ∧ ((∀ cls, used cls ≤ cfg.limit cls) → ∀ cls, used' cls ≤ cfg.limit cls) := by
  unfold reserveLoaded at h
  split at h
  case isTrue => cases h
  case isFalse hmatched =>
    have hmatch : Matched executions r := by
      intro hs
      simp only [hs, true_and, Bool.not_eq_false] at hmatched
      unfold OfferRecord.matched at hmatched
      split at hmatched
      next x hx =>
        simp only [Bool.and_eq_true, decide_eq_true_eq] at hmatched
        exact ⟨x, hx, hmatched⟩
      · cases hmatched
    split at h
    case isTrue hholds =>
      split at h
      case h_2 => cases h
      case h_1 used₁ hres =>
        cases h
        obtain ⟨rfl, hroom⟩ := reserve_spec hres
        refine ⟨hmatch, ?_, ?_⟩
        · intro cls
          by_cases hc : cls = r.offer.resourceClass
          · subst hc
            simp [hholds]
          · simp [Function.update_of_ne hc, Ne.symm hc]
        · intro hle cls
          by_cases hc : cls = r.offer.resourceClass
          · subst hc
            rw [Function.update_self]
            exact hroom
          · rw [Function.update_of_ne hc]
            exact hle cls
    case isFalse hholds =>
      cases h
      refine ⟨hmatch, ?_, fun hle => hle⟩
      intro cls
      simp [hholds]

/-- The rebuilt ledger counts the holders among the loaded offers. -/
theorem reserveLoaded_all {used used' : GoString → Nat} {l : List OfferRecord}
    (h : l.foldlM (reserveLoaded cfg executions) used = .ok used') :
    (∀ r ∈ l, Matched executions r)
      ∧ (∀ cls, used' cls = used cls
          + l.countP fun r => r.holds executions && r.offer.resourceClass = cls)
      ∧ ((∀ cls, used cls ≤ cfg.limit cls) → ∀ cls, used' cls ≤ cfg.limit cls) := by
  refine Loop.foldlM_ok
    (fun done (acc : GoString → Nat) =>
      (∀ r ∈ done, Matched executions r)
      ∧ (∀ cls, acc cls = used cls
          + done.countP fun r => r.holds executions && r.offer.resourceClass = cls)
      ∧ ((∀ cls, used cls ≤ cfg.limit cls) → ∀ cls, acc cls ≤ cfg.limit cls))
    ⟨by simp, by simp, fun hle => hle⟩ ?_ h
  rintro done r acc acc' ⟨hall, hcount, hle⟩ hok
  obtain ⟨hmatch, hstep, hle'⟩ := reserveLoaded_ok hok
  refine ⟨?_, ?_, fun h0 => hle' (hle h0)⟩
  · intro r' hr'
    rcases List.mem_append.mp hr' with hold | hnew
    · exact hall r' hold
    · rw [List.mem_singleton.mp hnew]
      exact hmatch
  · intro cls
    rw [hstep cls, hcount cls, List.countP_append, List.countP_singleton, Nat.add_assoc]

-- ===== the result

variable {granted : Int} {m : Mem}

/-- What a load that succeeds went through. -/
theorem load_ok {snap : Snapshot} (h : load cfg granted now snap = .ok m) :
    ∃ index executions used,
      snap.offers.foldlM loadOffer (∅, ∅) = .ok index
      ∧ snap.executions.foldlM (loadExecution cfg granted) ∅ = .ok executions
      ∧ ((expireOffers now (loaded snap index executions)).offers.entries.map Sigma.snd).foldlM
          (reserveLoaded cfg executions) (expireOffers now (loaded snap index executions)).used
          = .ok used
      ∧ m = { expireOffers now (loaded snap index executions) with used := used } := by
  unfold load at h
  split at h
  case isTrue => cases h
  case isFalse =>
    obtain ⟨index, hindex, h⟩ := Loop.bind_ok h
    obtain ⟨executions, hexecs, h⟩ := Loop.bind_ok h
    obtain ⟨used, hused, h⟩ := Loop.bind_ok h
    cases h
    exact ⟨index, executions, used, hindex, hexecs, hused, rfl⟩

variable {i : SaveIn}

theorem mem_snapshot_offers :
    r ∈ (snapshot cfg i m).offers ↔ ∃ o r₀, m.offers.lookup o = some r₀ ∧ r = r₀.save := by
  simp only [snapshot, List.mem_map]
  constructor
  · rintro ⟨⟨o, r₀⟩, hmem, rfl⟩
    exact ⟨o, r₀, AList.mem_entries.mp hmem, rfl⟩
  · rintro ⟨o, r₀, hr₀, rfl⟩
    exact ⟨⟨o, r₀⟩, AList.mem_entries.mpr hr₀, rfl⟩

theorem mem_snapshot_executions {x : ExecutionRecord} :
    x ∈ (snapshot cfg i m).executions ↔
      ∃ k x₀, m.executions.lookup k = some x₀ ∧ x = x₀.save := by
  simp only [snapshot, List.mem_map]
  constructor
  · rintro ⟨⟨k, x₀⟩, hmem, rfl⟩
    exact ⟨k, x₀, AList.mem_entries.mp hmem, rfl⟩
  · rintro ⟨k, x₀, hx₀, rfl⟩
    exact ⟨⟨k, x₀⟩, AList.mem_entries.mpr hx₀, rfl⟩

/-- The ID of an offer in an encodable state is valid UTF-8. -/
theorem valid_offerID {o : GoString} (hm : m.encodable = true) (ho : m.offers.lookup o = some r) :
    Utf8.valid r.offer.offerID = true := by
  simp only [Mem.encodable, Bool.and_eq_true, List.all_eq_true] at hm
  have hr := hm.1.1 ⟨o, r⟩ (AList.mem_entries.mpr ho)
  simp only [OfferRecord.encodable, ExecutionOffer.utf8, Bool.and_eq_true] at hr
  exact hr.1.1.1.1

/-- The references survive the snapshot. -/
theorem linked_loaded {src : Mem} {index : FMap GoString OfferRecord × FMap GoString GoString}
    (hl : Linked src) (henc : src.encodable = true)
    (hindex : (snapshot cfg i src).offers.foldlM loadOffer (∅, ∅) = .ok index)
    (hexecs : (snapshot cfg i src).executions.foldlM (loadExecution cfg granted) ∅ = .ok executions)
    (hmatched : ∀ r ∈ (expireOffers now
      (loaded (snapshot cfg i src) index executions)).offers.entries.map Sigma.snd,
        Matched executions r) :
    Linked (loaded (snapshot cfg i src) index executions) where
  offer_id hr := ((lookup_loadOffers hindex _ _).mp hr).2
  assigned {o r} hr hs := by
    have hid := ((lookup_loadOffers hindex _ _).mp hr).2
    have hkept : r.expire now = r := by
      refine expire_kept fun hlapsed => ?_
      rw [lapsed_outstanding hlapsed] at hs
      cases hs
    have hentry : (expireOffers now
        (loaded (snapshot cfg i src) index executions)).offers.lookup o = some r := by
      show (index.1.mapVal fun _ r => r.expire now).lookup o = some r
      have hr' : index.1.lookup o = some r := hr
      rw [AList.lookup_mapVal, hr', Option.map_some, hkept]
    obtain ⟨x, hx, hoff, hcls⟩ := hmatched r
      (List.mem_map.mpr ⟨⟨o, r⟩, AList.mem_entries.mpr hentry, rfl⟩) hs
    exact ⟨x, hx, hoff.trans hid, hcls⟩
  unassigned {o r} hr hs := by
    obtain ⟨hmem, -⟩ := (lookup_loadOffers hindex _ _).mp hr
    obtain ⟨o₀, r₀, hr₀, rfl⟩ := mem_snapshot_offers.mp hmem
    show Utf8.replaceInvalid r₀.execution = []
    rw [hl.unassigned hr₀ hs]
    rfl
  execution {k x} hk := by
    obtain ⟨s, hmem, hid, hne, -, rfl⟩ := (lookup_loadExecutions hexecs _ _).mp hk
    obtain ⟨k₀, x₀, hx₀, rfl⟩ := mem_snapshot_executions.mp hmem
    obtain ⟨-, hid₀, r₀, hr₀, hs₀, he₀⟩ := hl.execution hx₀
    have hoff := hl.offer_id hr₀
    have hvalid : Utf8.replaceInvalid x₀.offerID = x₀.offerID := by
      refine (Utf8.replaceInvalid_eq_self _).mpr ?_
      rw [← hoff]
      exact valid_offerID henc hr₀
    refine ⟨hne, hid, r₀.save, ?_, hs₀, ?_⟩
    · show index.1.lookup (Utf8.replaceInvalid x₀.offerID) = some r₀.save
      rw [hvalid]
      exact (lookup_loadOffers hindex _ _).mpr
        ⟨mem_snapshot_offers.mpr ⟨_, r₀, hr₀, rfl⟩, hoff⟩
    · show Utf8.replaceInvalid r₀.execution = k
      rw [he₀, ← hid₀]
      exact hid
  terminal {k x} hk := by
    obtain ⟨s, -, -, -, hterm, rfl⟩ := (lookup_loadExecutions hexecs _ _).mp hk
    intro hphase
    show s.released = true
    rw [← hterm]
    exact hphase

/-- Reloading the snapshot of a linked state settles the accounts anew. -/
theorem ledgerInv_load {src : Mem} (hl : Linked src) (henc : src.encodable = true)
    (h : load cfg granted now (snapshot cfg i src) = .ok m) : LedgerInv cfg m := by
  obtain ⟨index, executions, used, hindex, hexecs, hused, rfl⟩ := load_ok h
  obtain ⟨hmatched, hcount, hle⟩ := reserveLoaded_all hused
  have hlinked := (linked_loaded hl henc hindex hexecs hmatched).expireOffers now
  have hzero : ∀ cls, (expireOffers now
      (loaded (snapshot cfg i src) index executions)).used cls = 0 :=
    fun cls => Nat.zero_sub _
  refine ⟨hlinked.congr rfl rfl, ?_, hle ?_⟩
  · intro cls
    show used cls = _
    rw [hcount cls, hzero cls, Nat.zero_add, List.countP_map]
    rfl
  · intro cls
    rw [hzero cls]
    exact Nat.zero_le _

end R1s.Allocator
