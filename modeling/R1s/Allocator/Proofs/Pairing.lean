/-
Executions and the offers they came from, and why a cancellation in
flight keeps its record.

# Pairs

An execution has the client and the request of its offer, and the offer
names the execution. `Paired` holds of the memory, of what was saved and
of what comes back from it.

# Records in use

A sweep passes over the offers of requests with a command in flight. The
cancellation of an execution is such a command until it returns, so its
record is there when its stop answers (`cancel_keeps_record`).
-/
import R1s.Allocator.Proofs.Lifecycle
import R1s.Allocator.Proofs.Wellformed

namespace R1s.Allocator

variable {cfg : Config} {pc : Option (Pc cfg)} {m m' : Mem} {i : Input}

-- ===== pairs

/-- Every execution has its offer: of the same client and request, and
assigned to it. -/
structure Paired (m : Mem) : Prop where
  offer : ∀ {o r}, m.offers.lookup o = some r → r.offer.offerID = o
  execution : ∀ {k x}, m.executions.lookup k = some x → x.id = k ∧
    ∃ r, m.offers.lookup x.offerID = some r ∧ r.status = .assigned ∧ r.execution = k
      ∧ r.client = x.client ∧ r.request = x.request

theorem Paired.empty : Paired Mem.empty := ⟨nofun, nofun⟩

variable {used : GoString → Nat} {x : ExecutionRecord}

section Updates

variable (h : Paired m)
include h

/-- Offers that are not assigned may change status. -/
theorem Paired.offers (hexecutions : m'.executions = m.executions)
    (hkept : ∀ {o r}, m.offers.lookup o = some r → r.status = .assigned →
      m'.offers.lookup o = some r)
    (hoffer : ∀ {o r}, m'.offers.lookup o = some r → r.offer.offerID = o) : Paired m' := by
  refine ⟨hoffer, ?_⟩
  intro k x hx
  rw [hexecutions] at hx
  obtain ⟨hid, r, hr, hstatus, hrest⟩ := h.execution hx
  exact ⟨hid, r, hkept hr hstatus, hstatus, hrest⟩

/-- One offer rewritten that no execution holds. -/
theorem Paired.setOffer {o : GoString} {r r' : OfferRecord} (hr : m.offers.lookup o = some r)
    (hfree : r.status ≠ .assigned) (hid : r'.offer = r.offer) :
    Paired { m with offers := m.offers.insert o r', used := used } := by
  refine h.offers rfl ?_ ?_
  · intro o₀ r₀ hr₀ hstatus
    have hne : o₀ ≠ o := by
      rintro rfl
      rw [hr] at hr₀
      cases hr₀
      exact hfree hstatus
    exact (AList.lookup_insert_ne hne).trans hr₀
  · intro o₀ r₀ hr₀
    rcases AList.of_lookup_insert hr₀ with ⟨heq, rfl⟩ | ⟨-, hr₀⟩
    · rw [hid, heq]
      exact h.offer hr
    · exact h.offer hr₀

/-- One execution rewritten. -/
theorem Paired.setExecution {k : GoString} {x' : ExecutionRecord} {tunnels : Tunnel.Registry}
    (hx : m.executions.lookup k = some x) (hid : x'.id = x.id) (hoffer : x'.offerID = x.offerID)
    (hclient : x'.client = x.client) (hrequest : x'.request = x.request) :
    Paired { m with executions := m.executions.insert k x', used := used, tunnels := tunnels } := by
  refine ⟨h.offer, ?_⟩
  intro k₀ x₀ hx₀
  rcases AList.of_lookup_insert hx₀ with ⟨heq, rfl⟩ | ⟨-, hx₀⟩
  · rw [hid, hoffer, hclient, hrequest, heq]
    exact h.execution hx
  · exact h.execution hx₀

theorem Paired.expired (now : Int) : Paired (expireOffers now m) := by
  refine h.offers rfl ?_ ?_
  · intro o r hr hstatus
    show (m.offers.mapVal fun _ r => r.expire now).lookup o = some r
    rw [AList.lookup_mapVal, hr, Option.map_some]
    unfold OfferRecord.expire
    rw [if_neg]
    simp [OfferRecord.lapsed, hstatus]
  · intro o r' hr'
    change (m.offers.mapVal fun _ r => r.expire now).lookup o = some r' at hr'
    rw [AList.lookup_mapVal] at hr'
    obtain ⟨r, hr, rfl⟩ := Option.map_eq_some_iff.mp hr'
    have hid := h.offer hr
    unfold OfferRecord.expire
    split <;> exact hid

/-- An offer collected with its execution. -/
theorem Paired.collectOffer {entry : Σ _ : GoString, OfferRecord}
    (hentry : m.offers.lookup entry.1 = some entry.2) (now : Int) (busy : List GoString) :
    Paired (collectOffer now busy m entry) := by
  unfold Allocator.collectOffer
  split
  · exact h
  refine ⟨?_, ?_⟩
  · intro o r hr
    exact h.offer (AList.of_lookup_erase hr).2
  · intro k x hx
    obtain ⟨hne, hx⟩ := AList.of_lookup_erase hx
    obtain ⟨hid, r, hr, hstatus, hexec, hrest⟩ := h.execution hx
    have hother : x.offerID ≠ entry.1 := by
      intro heq
      rw [heq, hentry] at hr
      cases hr
      exact hne hexec.symm
    exact ⟨hid, r, (AList.lookup_erase_ne hother).trans hr, hstatus, hexec, hrest⟩

theorem Paired.ready (now : Int) : Paired (sweepReady cfg now m) := by
  have hclocked : Paired (effectiveNow now m) := by
    rw [effectiveNow_eq]
    exact ⟨h.offer, h.execution⟩
  have hexpired := hclocked.expired (effectiveNow now m).highWater
  exact ⟨hexpired.offer, hexpired.execution⟩

theorem Paired.swept (now : Int) : Paired (swept cfg now m) := by
  have hcollected : Paired (sweepCollected (sweepReady cfg now m)) :=
    sweepCollected_rule (h.ready now) fun hm' _ ho => hm'.collectOffer ho _ _
  exact ⟨hcollected.offer, hcollected.execution⟩

theorem Paired.minted {e : Envelope} {q : ExecutionRequest} {requests : FMap GoString GoString}
    (hfree : m.offers.lookup i.id = none) :
    Paired
      { m with
        offers := m.offers.insert i.id (mintRecord cfg i e q), requests := requests,
        used := used } := by
  refine h.offers rfl ?_ ?_
  · intro o r hr _
    have hne : o ≠ i.id := AList.ne_of_lookup hr hfree
    exact (AList.lookup_insert_ne hne).trans hr
  · intro o r hr
    rcases AList.of_lookup_insert hr with ⟨heq, rfl⟩ | ⟨-, hr⟩
    · exact heq.symm
    · exact h.offer hr

theorem Paired.assigned {q : ExecutionAssign} {r : OfferRecord}
    (hr : m.offers.lookup q.offerID = some r) (hstatus : r.status = .outstanding) :
    Paired
      { m with
        offers := m.offers.insert q.offerID
          { r with status := .assigned, execution := q.executionID },
        executions := m.executions.insert q.executionID (assignRecord cfg i q r) } := by
  have hfree : r.status ≠ .assigned := by
    rw [hstatus]
    exact nofun
  have hbase : Paired
      { m with
        offers := m.offers.insert q.offerID
          { r with status := .assigned, execution := q.executionID } } :=
    h.setOffer hr hfree rfl
  refine ⟨hbase.offer, ?_⟩
  intro k x hx
  rcases AList.of_lookup_insert hx with ⟨heq, rfl⟩ | ⟨-, hx⟩
  · refine ⟨heq.symm, { r with status := .assigned, execution := q.executionID }, ?_, rfl,
      heq.symm, rfl, rfl⟩
    show (m.offers.insert q.offerID _).lookup r.offer.offerID = _
    rw [h.offer hr, AList.lookup_insert]
  · exact hbase.execution hx

end Updates

theorem Update.paired (hu : Update cfg pc i m m') (h : Paired m) : Paired m' := by
  cases hu with
  | clock | cached | unindexed | cleaned | bound | session => exact ⟨h.offer, h.execution⟩
  | expired now => exact h.expired now
  | minted hpc hq hnew herr hid hfree hsaved => exact h.minted hfree
  | assigned hpc hq hr hstatus hclient hrequest hnew hsaved => exact h.assigned hr hstatus
  | unassigned hr hstatus | freed hr hstatus =>
    refine h.setOffer hr ?_ rfl
    rw [hstatus]
    exact nofun
  | @unfreed o r used hr =>
    -- The record is written back as it is.
    have hsame : ∀ o', (m.offers.insert o r).lookup o' = m.offers.lookup o' := by
      intro o'
      rw [AList.lookup_insert_if]
      split
      next heq => rw [heq, hr]
      · rfl
    refine h.offers rfl (fun hr₀ _ => (hsame _).trans hr₀) fun hr₀ => h.offer ?_
    exact (hsame _).symm.trans hr₀
  | reworked hx hwork =>
    exact h.setExecution hx hwork.id hwork.offerID hwork.client hwork.request
  | finished hx | unfinished hx => exact h.setExecution hx rfl rfl rfl rfl
  | swept hpc => exact h.swept i.now

-- ===== the runs

theorem Paired.load {saved : SaveIn} {src : Mem} {granted now : Int} (h : Paired src)
    (hproper : Wellformed cfg src) (hstored : cfg.stored = true)
    (hload : load cfg granted now (snapshot cfg saved src) = .ok m) : Paired m := by
  obtain ⟨index, executions, used, hindex, hexecs, -, rfl⟩ := load_ok hload
  have hoffers := lookup_loaded_offers hproper hstored hindex
  have hbase : Paired (loaded (snapshot cfg saved src) index executions) := by
    refine ⟨fun hr => h.offer ((hoffers _).symm.trans hr), ?_⟩
    intro k x hx
    obtain ⟨y, hy, hid, -, -, rfl⟩ := (lookup_loadExecutions hexecs k x).mp hx
    obtain ⟨k₀, x₀, hx₀, rfl⟩ := mem_snapshot_executions.mp hy
    -- The IDs are valid UTF-8 and come back as they were.
    obtain ⟨hvalid, hvalidOffer, -⟩ := (hproper.execution hx₀).utf8 hstored
    have hsaved : x₀.save.id = x₀.id := (Utf8.replaceInvalid_eq_self _).mpr hvalid
    have hsavedOffer : x₀.save.offerID = x₀.offerID :=
      (Utf8.replaceInvalid_eq_self _).mpr hvalidOffer
    obtain ⟨hid₀, r, hr, hstatus, hexec, hrest⟩ := h.execution hx₀
    refine ⟨hid, r, ?_, hstatus, ?_, hrest⟩
    · show index.1.lookup x₀.save.offerID = some r
      rw [hsavedOffer, hoffers]
      exact hr
    · rw [hexec, ← hid₀, ← hsaved, hid]
  have hexpired := hbase.expired now
  exact ⟨hexpired.offer, hexpired.execution⟩

variable {s : System cfg}

/-- An invariant of the memory that every section of a run keeps and that
a saved memory has when it comes back. -/
theorem memory_invariant {ok : System cfg → Label cfg → Prop} {I : Mem → Prop}
    (hempty : I .empty)
    (hsection : ∀ s l t, (machine cfg).ReachWhen ok s → l.isRestart = false → ok s l →
      s.step l = some t → I s.world.mem → I t.world.mem)
    (hload : ∀ (s₀ : System cfg) saved granted now m, (machine cfg).ReachWhen ok s₀ →
      cfg.stored = true → I s₀.world.mem →
      Allocator.load cfg granted now (snapshot cfg saved s₀.world.mem) = .ok m → I m)
    (hs : (machine cfg).ReachWhen ok s) :
    I s.world.mem ∧ ∀ snap, s.world.disk = some snap →
      ∃ saved s₀, (machine cfg).ReachWhen ok s₀ ∧ I s₀.world.mem
        ∧ snap = snapshot cfg saved s₀.world.mem := by
  induction hs with
  | init h0 =>
    cases h0
    exact ⟨hempty, fun _ h => nomatch h⟩
  | @step s t l hs hok hstep ih =>
    have ht : (machine cfg).ReachWhen ok t := .step hs hok hstep
    by_cases hl : l.isRestart = false
    · have hmem := hsection s l t hs hl hok hstep ih.1
      refine ⟨hmem, ?_⟩
      intro snap hsnap
      rcases (step_changes hl hstep).disk with hsame | ⟨-, saved, hsaved⟩
      · rw [hsame] at hsnap
        exact ih.2 snap hsnap
      · exact ⟨saved, t, ht, hmem, (Option.some.inj (hsaved.symm.trans hsnap)).symm⟩
    · obtain ⟨granted, now, rfl⟩ := l.restarts hl
      obtain ⟨hstored, hrestart, hdisk, -⟩ := restart_step hstep
      refine ⟨?_, fun snap hsnap => ih.2 snap (hdisk.symm.trans hsnap)⟩
      obtain ⟨-, hmem⟩ | ⟨snap, hsnap, hrestart⟩ := hrestart
      · rw [hmem]
        exact hempty
      · obtain ⟨saved, s₀, hs₀, hI, rfl⟩ := ih.2 snap hsnap
        exact hload s₀ saved granted now _ hs₀ hstored hI hrestart

/-- The store has the memory of a state of the run. -/
theorem saved_reachable (hs : (machine cfg).Reach s) {snap : Snapshot}
    (hsnap : s.world.disk = some snap) :
    ∃ saved s₀, (machine cfg).Reach s₀ ∧ snap = snapshot cfg saved s₀.world.mem := by
  obtain ⟨saved, s₀, hs₀, -, hsaved⟩ :=
    (memory_invariant (I := fun _ => True) trivial (fun _ _ _ _ _ _ _ _ => trivial)
      (fun _ _ _ _ _ _ _ _ _ => trivial) hs).2 snap hsnap
  exact ⟨saved, s₀, hs₀, hsaved⟩

/-- The store has the memory as it is, or what it had before, and then
the section has saved nothing. -/
theorem stored_cases {t : System cfg} (ht : (machine cfg).Reach t)
    (hc : Changes cfg pc i s.world t.world) {snap : Snapshot} (hsnap : t.world.disk = some snap) :
    (∃ saved, snap = snapshot cfg saved t.world.mem) ∨
      s.world.disk = some snap ∧ ¬Flushed cfg t.world := by
  by_cases hfresh : ∃ saved, t.world.disk = some (snapshot cfg saved t.world.mem)
  · obtain ⟨saved, hsaved⟩ := hfresh
    exact .inl ⟨saved, (Option.some.inj (hsaved.symm.trans hsnap)).symm⟩
  · rcases hc.disk with hsame | ⟨-, hsaved⟩
    · refine .inr ⟨hsame.symm.trans hsnap, fun hflushed => hfresh ?_⟩
      exact hflushed ((sound_reachable ht).disk hsnap).1
    · exact absurd hsaved hfresh

theorem paired_reachable (hs : (machine cfg).Reach s) : Paired s.world.mem := by
  refine (memory_invariant .empty ?_ ?_ hs).1
  · intro s l t _ hl _ hstep h
    exact (step_changes hl hstep).invariant (fun _ _ hu hm => hu.paired hm) h
  · intro s₀ saved granted now m hs₀ hstored h hload
    exact h.load (sound_reachable hs₀).mem hstored hload

/-- The executions that come back are the saved ones. -/
theorem lookup_load_executions {s₀ : System cfg} (hs₀ : (machine cfg).Reach s₀)
    {saved : SaveIn} {granted now : Int} (hstored : cfg.stored = true)
    (hload : load cfg granted now (snapshot cfg saved s₀.world.mem) = .ok m) (k : GoString) :
    m.executions.lookup k
      = (s₀.world.mem.executions.lookup k).map fun x => x.save.restore cfg granted := by
  obtain ⟨index, executions, used, -, hexecs, -, rfl⟩ := load_ok hload
  have hsaved : ∀ {k x}, s₀.world.mem.executions.lookup k = some x → x.save.id = k := by
    intro k x hx
    rw [← ((paired_reachable hs₀).execution hx).1]
    exact (Utf8.replaceInvalid_eq_self _).mpr
      (((sound_reachable hs₀).mem.execution hx).utf8 hstored).1
  refine Option.ext fun y => ?_
  show executions.lookup k = some y ↔ _
  rw [lookup_loadExecutions hexecs, Option.map_eq_some_iff]
  constructor
  · rintro ⟨z, hz, hid, -, -, rfl⟩
    obtain ⟨k₀, x₀, hx₀, rfl⟩ := mem_snapshot_executions.mp hz
    rw [hsaved hx₀] at hid
    subst hid
    exact ⟨x₀, hx₀, rfl⟩
  · rintro ⟨x, hx, rfl⟩
    exact ⟨x.save, mem_snapshot_executions.mpr ⟨k, x, hx, rfl⟩, hsaved hx,
      ((ledgerWorld_reachable hs₀).mem.linked.execution hx).1,
      (orderly_reachable hs₀ hx).symm, rfl⟩

-- ===== records in use

/-- The collection loop passes over the record of a busy request. -/
theorem sweepCollected_kept {k : GoString}
    (hbusy : ∀ {o r}, m.offers.lookup o = some r → r.execution = k →
      (busyKeys m).contains r.key = true) (hx : m.executions.lookup k = some x) :
    (sweepCollected m).executions.lookup k = some x := by
  refine sweepCollected_rule (P := fun m' => m'.executions.lookup k = some x) hx ?_
  intro m' o r hx' ho _
  unfold collectOffer
  split
  · exact hx'
  rename_i hcollect
  have hother : k ≠ r.execution := by
    intro heq
    apply hcollect
    rw [hbusy ho heq.symm]
    rfl
  exact (AList.lookup_erase_ne hother).trans hx'

/-- The request of a cancellation in flight is busy. -/
theorem cancel_busy {tid : Nat} {e : Envelope} {q : ExecutionCancel} (howns : Owns m.replay tid e)
    (hq : e.payload = some (.executionCancel q)) (hx : m.executions.lookup q.executionID = some x) :
    authorityKey x.client x.request.requestID ∈ busyKeys m := by
  obtain ⟨entry, hentry, hbusy, henv, -⟩ := howns
  refine List.mem_filterMap.mpr ⟨⟨replayKey e, entry⟩, AList.mem_entries.mpr hentry, ?_⟩
  rw [if_neg (by rw [hbusy]; exact nofun), henv]
  simp only [busyKey, hq, hx, Option.map_some]

/-- A cancellation in flight keeps its record through a sweep. -/
theorem cancel_keeps_record (hs : (machine cfg).Reach s) {tid : Nat} {e : Inbound cfg}
    {q : ExecutionCancel} (hpc : (s.threads.lookup tid).bind Pc.handles = some e)
    (hq : e.1.payload = some (.executionCancel q))
    (hx : s.world.mem.executions.lookup q.executionID = some x) (i : Input) :
    (sweepCollect cfg i s.world).1.mem.executions.lookup q.executionID = some x := by
  have hledger := ledgerWorld_reachable hs
  have hready := (hledger.mem.sweepReady i.now).inv.linked
  have hpaired : Paired (sweepReady cfg i.now s.world.mem) :=
    (paired_reachable hs).ready i.now
  have hx' : (sweepReady cfg i.now s.world.mem).executions.lookup q.executionID = some x := by
    show (effectiveNow i.now s.world.mem).executions.lookup q.executionID = some x
    rw [effectiveNow_executions]
    exact hx
  have hbusy := cancel_busy (m := sweepReady cfg i.now s.world.mem)
    (((cacheInv_reachable hs).owned tid e hpc).trimmed ?_) hq hx'
  · unfold sweepCollect
    dsimp only
    split
    · exact hx
    rename_i w' hp
    rw [persist_mem hp]
    refine sweepCollected_kept ?_ hx'
    intro o r hentry hexec
    -- The only offer that names the execution is its own.
    have hassigned : r.status = .assigned := by
      by_contra hfree
      have hnone := hready.unassigned hentry hfree
      exact (hready.execution hx').1 (hexec.symm.trans hnone)
    obtain ⟨x₀, hx₀, hoffer, -⟩ := hready.assigned hentry hassigned
    rw [hexec, hx'] at hx₀
    cases hx₀
    obtain ⟨-, _, hr, -, -, hclient, hrequest⟩ := hpaired.execution hx'
    rw [hoffer, hentry] at hr
    cases hr
    have hkey : r.key = authorityKey x.client x.request.requestID := by
      rw [OfferRecord.key, ((sound_reachable hs).mem.ready i.now).offer hentry |>.request,
        hclient, hrequest]
    rw [hkey]
    exact List.elem_eq_true_of_mem hbusy
  · show Trimmed s.world.mem.replay (prune cfg _ (effectiveNow i.now s.world.mem).replay)
    have hsame : (effectiveNow i.now s.world.mem).replay = s.world.mem.replay := by
      rw [effectiveNow_eq]
    rw [hsame]
    exact trimmed_prune _ _

end R1s.Allocator
