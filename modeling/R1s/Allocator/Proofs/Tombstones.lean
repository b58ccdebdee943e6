/-
Offers and tombstones at one ID. A sweep that goes through either leaves
the offer of an ID where it is or buries it: the offer is gone and a
tombstone with the sweep's clock stands in its place (`swept_at`).
Every other section but the cleanup leaves the tombstones alone
(`Calm`).

# Names

A tombstone is saved under its offer's ID in a JSON object, so it comes
back from a reload under the same ID only if that is valid UTF-8. In an
allocator with a store it is: an offer with any other ID could not be
saved, and an offer that is not saved is not minted (`Buried`).
-/
import R1s.Allocator.Proofs.Cache

namespace R1s.Allocator

variable {cfg : Config} {w w' : World} {i : Input}

-- ===== the sweep

variable {o : GoString}

variable {r : OfferRecord}

theorem collectable_mono {now : Int} {execs execs' : FMap GoString ExecutionRecord}
    (hsub : ∀ k x, execs'.lookup k = some x → execs.lookup k = some x)
    (h : r.collectable now execs' = true) : r.collectable now execs = true := by
  unfold OfferRecord.collectable at h ⊢
  split at h
  · rfl
  · rfl
  · obtain ⟨x, hx, hdone⟩ := (Option.any_eq_true _ _).mp h
    exact (Option.any_eq_true _ _).mpr ⟨x, hsub _ x hx, hdone⟩
  · cases h

/-- What the collection loop makes of an ID: nothing, or the tombstone of
an offer that passed the loop's test when the loop began. -/
theorem sweepCollected_at (m : Mem) (o : GoString) :
    ((sweepCollected m).offers.lookup o = m.offers.lookup o ∧
      (sweepCollected m).tombstones.lookup o = m.tombstones.lookup o) ∨
    ∃ r, m.offers.lookup o = some r ∧ (busyKeys m).contains r.key = false ∧
      r.collectable m.highWater m.executions = true ∧
      (sweepCollected m).offers.lookup o = none ∧
      (sweepCollected m).tombstones.lookup o = some (buryOffer m.highWater o r) := by
  refine (sweepCollected_rule (P := fun m' =>
    (∀ k x, m'.executions.lookup k = some x → m.executions.lookup k = some x) ∧
    (m'.offers.lookup o = m.offers.lookup o ∧ m'.tombstones.lookup o = m.tombstones.lookup o ∨
      ∃ r, m.offers.lookup o = some r ∧ (busyKeys m).contains r.key = false ∧
      r.collectable m.highWater m.executions = true ∧ m'.offers.lookup o = none ∧
      m'.tombstones.lookup o = some (buryOffer m.highWater o r)))
    ⟨fun _ _ hx => hx, .inl ⟨rfl, rfl⟩⟩ ?_).2
  intro m' o' r hm' ho ho'
  obtain ⟨hsub, hat⟩ := hm'
  refine ⟨fun k x hx => hsub k x (collectOffer_executions hx), ?_⟩
  by_cases heq : o' = o
  · -- The round of this ID: no round before it touched it.
    subst heq
    obtain ⟨-, htomb⟩ | ⟨_, _, _, _, hgone, _⟩ := hat
    · unfold collectOffer
      split
      · exact .inl ⟨ho'.trans ho.symm, htomb⟩
      rename_i hdue
      simp only [Bool.or_eq_true, Bool.not_eq_true', not_or, Bool.not_eq_true,
        Bool.not_eq_false] at hdue
      exact .inr ⟨r, ho, hdue.1, collectable_mono hsub hdue.2, AList.lookup_erase _ _,
        AList.lookup_insert _⟩
    · rw [ho'] at hgone
      cases hgone
  · obtain ⟨hoffers, htombs⟩ :=
      collectOffer_other m.highWater (busyKeys m) m' heq
    rwa [hoffers, htombs]

theorem sweepReady_highWater (now : Int) (m : Mem) :
    (sweepReady cfg now m).highWater = max m.highWater now := by
  show (effectiveNow now m).highWater = _
  rw [effectiveNow_eq]

theorem sweepReady_tombstones (now : Int) (m : Mem) :
    (sweepReady cfg now m).tombstones = m.tombstones := by
  show (effectiveNow now m).tombstones = _
  rw [effectiveNow_eq]

theorem sameOffers_sweepReady (cfg : Config) (now : Int) (m : Mem) :
    SameOffers m (sweepReady cfg now m) := by
  have hexp := (untouched_expireOffers (effectiveNow now m).highWater (effectiveNow now m)).offers
  have hclock : SameOffers m (effectiveNow now m) := .of_eq (by rw [effectiveNow_eq])
  exact hclock.trans ⟨hexp.kept, hexp.absent⟩

/-- The state a sweep saves. -/
def swept (cfg : Config) (now : Int) (m : Mem) : Mem :=
  sweepDropped (sweepCollected (sweepReady cfg now m))

/-- The sweep's test of an offer, on the state it looks at. -/
def OfferRecord.due (m : Mem) (r : OfferRecord) : Bool :=
  !(busyKeys m).contains r.key && r.collectable m.highWater m.executions

/-- A tombstone outlives a sweep at `now`. -/
def Tombstone.outlives (now : Int) (t : Tombstone) : Bool :=
  t.cleanupPending || now < t.expiresAt

theorem swept_highWater (now : Int) (m : Mem) :
    (swept cfg now m).highWater = max m.highWater now :=
  (sweepCollected_frame _).1.trans (sweepReady_highWater now m)

variable {m : Mem}

theorem swept_executions {now : Int} {k : GoString} {x : ExecutionRecord}
    (h : (swept cfg now m).executions.lookup k = some x) : m.executions.lookup k = some x :=
  sweep_executions h

/-- What a sweep makes of an ID: its offer is kept and its tombstone
dropped if it is over, or the offer was due and is buried. -/
theorem swept_at (cfg : Config) (now : Int) (m : Mem) (o : GoString) :
    ((swept cfg now m).offers.lookup o = (sweepReady cfg now m).offers.lookup o ∧
      (swept cfg now m).tombstones.lookup o
        = (m.tombstones.lookup o).filter (Tombstone.outlives (max m.highWater now))) ∨
    ∃ r, (sweepReady cfg now m).offers.lookup o = some r ∧
      r.due (sweepReady cfg now m) = true ∧ (swept cfg now m).offers.lookup o = none ∧
      (swept cfg now m).tombstones.lookup o
        = some (buryOffer (max m.highWater now) o r) := by
  have hclock : (sweepCollected (sweepReady cfg now m)).highWater = max m.highWater now :=
    swept_highWater now m
  have htombs : (swept cfg now m).tombstones.lookup o
      = ((sweepCollected (sweepReady cfg now m)).tombstones.lookup o).filter
          (Tombstone.outlives (max m.highWater now)) := by
    show ((sweepCollected (sweepReady cfg now m)).tombstones.keep _).lookup o = _
    rw [AList.lookup_keep, ← hclock]
    rfl
  have hoffers : (swept cfg now m).offers.lookup o
      = (sweepCollected (sweepReady cfg now m)).offers.lookup o := rfl
  rw [htombs, hoffers]
  rcases sweepCollected_at (sweepReady cfg now m) o with
    ⟨hkept, htomb⟩ | ⟨r, hr, hbusy, hdue, hgone, htomb⟩
  · refine .inl ⟨hkept, ?_⟩
    rw [htomb, sweepReady_tombstones]
  · refine .inr ⟨r, hr, ?_, hgone, ?_⟩
    · simp only [OfferRecord.due, hbusy, hdue]
      rfl
    · rw [htomb, sweepReady_highWater, Option.filter_some_pos]
      have hhorizon : (0 : Int) < commandHorizon := by decide
      simp only [Tombstone.outlives, buryOffer, Bool.or_eq_true, decide_eq_true_eq]
      exact .inr (decide_eq_true (Int.lt_add_of_pos_right _ hhorizon))

/-- A sweep that goes through saves what it leaves. -/
theorem sweepCollect_ok {pending : List Tombstone} (h : sweepCollect cfg i w = (w', .ok pending)) :
    persist cfg i.saved (w.setMem (swept cfg i.now w.mem)) = .ok w' ∧
      pending = ((swept cfg i.now w.mem).tombstones.entries.map Sigma.snd).filter
        Tombstone.cleanupPending := by
  unfold sweepCollect at h
  dsimp only at h
  split at h
  · cases h
  next w₁ hp =>
    cases h
    exact ⟨hp, rfl⟩

theorem sweepCollect_error {err : GoErr} (h : sweepCollect cfg i w = (w', .error err)) :
    w' = w := by
  unfold sweepCollect at h
  dsimp only at h
  split at h
  · cases h
    rfl
  · cases h

-- ===== the rest

/-- The section leaves the tombstones and the offers where they are; the
clock does not go back. -/
structure Calm (cfg : Config) (w w' : World) : Prop where
  tombstones : w'.mem.tombstones = w.mem.tombstones
  offers : SameOffers w.mem w'.mem
  clock : w.mem.highWater ≤ w'.mem.highWater
  disk : Stored cfg w w'

theorem Frame.calm (h : Frame cfg w w') : Calm cfg w w' :=
  ⟨h.mem.tombstones, h.mem.offers, le_of_eq h.mem.highWater.symm, h.disk⟩

theorem advance_calm {tid : Nat} {pc : Pc cfg} {next : Next cfg} (hpc : pc.buries = false)
    (h : advance tid pc i w = some (w', next)) : Calm cfg w w' ∨ Mints i pc w w' := by
  obtain ⟨b, m, ha, hl⟩ := advance_effect h
  have hmem := hl.mem
  cases ha.touches with
  | nothing h =>
    have hframe : Frame cfg w w' := ⟨hmem ▸ h, hl.disk.1⟩
    exact .inl hframe.calm
  | mint hp hq hnew herr hfree =>
    cases hp
    exact .inr (hl.mints hq hnew herr hfree)
  | six hp hframed hcalm hcache =>
    cases hp
    obtain ⟨htombs, hoffers, hclock⟩ := hcalm hpc
    exact .inl ⟨hmem ▸ htombs, hmem ▸ hoffers, hmem ▸ hclock, hl.disk.1⟩

/-- The cleanup rewrites one tombstone: the pending one is put back, or
what is under its ID loses its mark. -/
theorem clean_tombstones (i : Input) (dead : Tombstone) (pending : List Tombstone)
    (err evictErr : Option GoErr) (w : World) :
    (clean i dead pending err evictErr w : World × Next cfg).1 = w ∨
    ∃ t, (t = dead ∨ t = { (w.mem.tombstones.lookup dead.offerID).getD .zero with
        cleanupPending := false }) ∧
      (clean i dead pending err evictErr w : World × Next cfg).1.mem
        = { w.mem with tombstones := w.mem.tombstones.insert dead.offerID t } ∧
      Stored cfg w (clean i dead pending err evictErr w : World × Next cfg).1 := by
  unfold clean
  split
  · exact .inl rfl
  right
  unfold sweepCleanup
  dsimp only
  split
  next w' hp =>
    have hl : Lands cfg i w _ true w' := .saved hp
    exact ⟨_, .inr rfl, hl.mem, hl.disk.1⟩
  refine ⟨dead, .inl rfl, ?_, .inl rfl⟩
  show ({ w.mem with tombstones := AList.insert dead.offerID dead (AList.insert _ _ _) } : Mem)
    = _
  rw [AList.insert_insert]

-- ===== the names

/-- A tombstone with work left is under its own ID, and with a store the
offers can be encoded and the IDs of the tombstones are valid UTF-8. -/
structure Buried (cfg : Config) (m : Mem) : Prop where
  keyed : ∀ k t, m.tombstones.lookup k = some t → t.cleanupPending = true → t.offerID = k
  offers : cfg.stored = true → ∀ o r, m.offers.lookup o = some r → r.encodable = true
  tombstones : cfg.stored = true → ∀ k t, m.tombstones.lookup k = some t →
    Utf8.valid k = true

theorem SameOffer.encodable {r' : OfferRecord} (h : SameOffer r r') (hr : r.encodable = true) :
    r'.encodable = true := by
  unfold OfferRecord.encodable at hr ⊢
  rw [h.offer, h.request]
  exact hr

theorem Buried.calm (h : Buried cfg w.mem) (hc : Calm cfg w w') : Buried cfg w'.mem := by
  refine ⟨?_, ?_, ?_⟩
  · rw [hc.tombstones]
    exact h.keyed
  · intro hstored o r' hr'
    obtain ⟨r, hr, hsame⟩ := hc.offers.before hr'
    exact hsame.encodable (h.offers hstored o r hr)
  · rw [hc.tombstones]
    exact h.tombstones

theorem encodable_offer (h : m.encodable = true) (hr : m.offers.lookup o = some r) :
    r.encodable = true := by
  simp only [Mem.encodable, Bool.and_eq_true, List.all_eq_true] at h
  exact h.1.1 ⟨o, r⟩ (AList.mem_entries.mpr hr)

theorem Minted.disk {e : Envelope} {request : ExecutionRequest}
    (h : Minted cfg i e request w w') (hstored : cfg.stored = true) :
    w'.mem.encodable = true ∧ ∃ saved, w'.disk = some (snapshot cfg saved w'.mem) := by
  obtain ⟨m, hp⟩ := h.saved
  obtain ⟨henc, hdisk⟩ := persist_stored hp hstored
  have hmem := persist_mem hp
  rw [hmem]
  exact ⟨henc, i.saved, hdisk⟩

theorem Buried.minted {e : Envelope} {request : ExecutionRequest} (h : Buried cfg w.mem)
    (hm : Minted cfg i e request w w') : Buried cfg w'.mem := by
  refine ⟨?_, ?_, ?_⟩
  · rw [hm.tombstones]
    exact h.keyed
  · intro hstored o r hr
    exact encodable_offer (hm.disk hstored).1 hr
  · rw [hm.tombstones]
    exact h.tombstones

/-- The ID of an offer that can be encoded is valid UTF-8, and so is its
request's. -/
theorem OfferRecord.valid_ids (h : r.encodable = true) :
    Utf8.valid r.offer.offerID = true ∧ Utf8.valid r.offer.requestID = true := by
  simp only [OfferRecord.encodable, ExecutionOffer.utf8, Bool.and_eq_true] at h
  exact ⟨h.1.1.1.1, h.1.1.1.2⟩

theorem Buried.swept (h : Buried cfg m) (hl : Linked m) (now : Int) :
    Buried cfg (swept cfg now m) := by
  have hready := sameOffers_sweepReady cfg now m
  refine ⟨?_, ?_, ?_⟩
  · intro k t ht hpending
    rcases swept_at cfg now m k with ⟨-, htomb⟩ | ⟨r, -, -, -, htomb⟩
    · rw [htomb] at ht
      exact h.keyed k t (Option.filter_eq_some_iff.mp ht).1 hpending
    · rw [htomb] at ht
      cases ht
      rfl
  · intro hstored o r hr
    rcases swept_at cfg now m o with ⟨hkept, -⟩ | ⟨r', -, -, hgone, -⟩
    · rw [hkept] at hr
      obtain ⟨r₀, hr₀, hsame⟩ := hready.before hr
      exact hsame.encodable (h.offers hstored o r₀ hr₀)
    · rw [hgone] at hr
      cases hr
  · intro hstored k t ht
    rcases swept_at cfg now m k with ⟨-, htomb⟩ | ⟨r, hr, -, -, -⟩
    · rw [htomb] at ht
      exact h.tombstones hstored k t (Option.filter_eq_some_iff.mp ht).1
    · obtain ⟨r₀, hr₀, hsame⟩ := hready.before hr
      rw [← hl.offer_id hr₀]
      exact (OfferRecord.valid_ids (h.offers hstored k r₀ hr₀)).1

theorem Buried.cleaned {dead t : Tombstone} (h : Buried cfg m)
    (hvalid : cfg.stored = true → Utf8.valid dead.offerID = true)
    (ht : t = dead ∨ t.cleanupPending = false) :
    Buried cfg { m with tombstones := m.tombstones.insert dead.offerID t } := by
  refine ⟨?_, h.offers, ?_⟩
  · intro k t' ht' hpending
    rcases AList.of_lookup_insert ht' with ⟨heq, rfl⟩ | ⟨-, ht'⟩
    · rcases ht with rfl | hclean
      · exact heq.symm
      · rw [hclean] at hpending
        cases hpending
    · exact h.keyed k t' ht' hpending
  · intro hstored k t' ht'
    rcases AList.of_lookup_insert ht' with ⟨rfl, -⟩ | ⟨-, ht'⟩
    · exact hvalid hstored
    · exact h.tombstones hstored k t' ht'

-- ===== reloads

section Loaded

variable {saved : SaveIn} {src m : Mem} {granted now : Int}
  (hload : load cfg granted now (snapshot cfg saved src) = .ok m)

include hload

theorem load_highWater : m.highWater = src.highWater := by
  obtain ⟨index, executions, used, -, -, -, rfl⟩ := load_ok hload
  rfl

theorem load_tombstones : m.tombstones
    = (src.tombstones.entries.map fun e => (Utf8.replaceInvalid e.1, e.2.save)).foldl
        (fun acc e => acc.insert e.1 e.2) ∅ := by
  obtain ⟨index, executions, used, -, -, -, rfl⟩ := load_ok hload
  rfl

/-- With valid IDs every tombstone comes back under its own. -/
theorem lookup_load_tombstones
    (hvalid : ∀ k t, src.tombstones.lookup k = some t → Utf8.valid k = true) (o : GoString) :
    m.tombstones.lookup o = (src.tombstones.lookup o).map Tombstone.save := by
  have hself : ∀ e ∈ src.tombstones.entries, Utf8.replaceInvalid e.1 = e.1 := by
    intro e he
    exact (Utf8.replaceInvalid_eq_self e.1).mpr (hvalid e.1 e.2 (AList.mem_entries.mp he))
  have hkeys : ((src.tombstones.entries.map fun e =>
    (Utf8.replaceInvalid e.1, e.2.save)).map Prod.fst).Nodup := by
    have heq : (src.tombstones.entries.map fun e =>
      (Utf8.replaceInvalid e.1, e.2.save)).map Prod.fst
      = src.tombstones.entries.map Sigma.fst := by
      rw [List.map_map]
      exact List.map_congr_left hself
    rw [heq]
    exact src.tombstones.nodupKeys
  rw [load_tombstones hload]
  cases ht : src.tombstones.lookup o with
  | none =>
    rw [AList.lookup_foldl_insert_other]
    · rfl
    · intro e he heq
      obtain ⟨e₀, he₀, rfl⟩ := List.mem_map.mp he
      have hkey : e₀.1 = o := (hself e₀ he₀).symm.trans heq
      have hthere := AList.mem_entries.mp he₀
      rw [hkey, ht] at hthere
      cases hthere
  | some t =>
    refine AList.lookup_foldl_insert_mem _ _ hkeys ?_
    have hmem := AList.mem_entries.mpr ht
    refine List.mem_map.mpr ⟨⟨o, t⟩, hmem, ?_⟩
    rw [hself _ hmem]

/-- An offer comes back as it was, but for its status. -/
theorem load_offer (hl : Linked src) {o : GoString} {r : OfferRecord}
    (hr : src.offers.lookup o = some r) : ∃ r', m.offers.lookup o = some r' ∧ SameOffer r r' := by
  obtain ⟨index, executions, used, hindex, -, -, rfl⟩ := load_ok hload
  have hid : r.offer.offerID = o := hl.offer_id hr
  have hloaded : index.1.lookup o = some r.save :=
    (lookup_loadOffers hindex _ _).mpr ⟨mem_snapshot_offers.mpr ⟨o, r, hr, rfl⟩, hid⟩
  obtain ⟨r', hr', hsame⟩ := (untouched_expireOffers now
    (loaded (snapshot cfg saved src) index executions)).offers.kept o r.save hloaded
  exact ⟨r', hr', hsame.offer, hsame.request, hsame.client⟩

/-- An offer that comes back was there. -/
theorem load_offer_before (hl : Linked src) {o : GoString} {r' : OfferRecord}
    (hr' : m.offers.lookup o = some r') : ∃ r, src.offers.lookup o = some r ∧ SameOffer r r' := by
  obtain ⟨index, executions, used, hindex, -, -, rfl⟩ := load_ok hload
  obtain ⟨r₀, hr₀, hsame⟩ := (untouched_expireOffers now
    (loaded (snapshot cfg saved src) index executions)).offers.before hr'
  obtain ⟨hmem, hid⟩ := (lookup_loadOffers hindex _ _).mp hr₀
  obtain ⟨o', r, hr, rfl⟩ := mem_snapshot_offers.mp hmem
  have ho : o' = o := (hl.offer_id hr).symm.trans hid
  subst ho
  exact ⟨r, hr, hsame.offer, hsame.request, hsame.client⟩

theorem Buried.load (h : Buried cfg src) (hl : Linked src) (hstored : cfg.stored = true) :
    Buried cfg m := by
  have htombs := lookup_load_tombstones hload (h.tombstones hstored)
  refine ⟨?_, ?_, ?_⟩
  · intro k t ht hpending
    rw [htombs] at ht
    obtain ⟨t₀, ht₀, rfl⟩ := Option.map_eq_some_iff.mp ht
    show Utf8.replaceInvalid t₀.offerID = k
    rw [h.keyed k t₀ ht₀ hpending]
    exact (Utf8.replaceInvalid_eq_self k).mpr (h.tombstones hstored k t₀ ht₀)
  · intro _ o r' hr'
    obtain ⟨r, hr, hsame⟩ := load_offer_before hload hl hr'
    exact hsame.encodable (h.offers hstored o r hr)
  · intro _ k t ht
    rw [htombs] at ht
    obtain ⟨t₀, ht₀, -⟩ := Option.map_eq_some_iff.mp ht
    exact h.tombstones hstored k t₀ ht₀

end Loaded

theorem Buried.empty : Buried cfg Mem.empty :=
  ⟨fun _ _ h => (nomatch h), fun _ _ _ h => (nomatch h), fun _ _ _ h => (nomatch h)⟩

end R1s.Allocator
