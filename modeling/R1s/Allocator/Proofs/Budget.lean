/-
The record budget. Only a request looks at it: it asks for room for an
offer and the execution the offer may become. An assignment adds a record
for which that room was kept, and a collection turns the two into one
tombstone, so the budget holds as long as tombstones come from
collections.

# The other source

The cleanup of a sweep writes the tombstone it found pending back under
its ID, whether or not it is still there. It is: only a sweep drops
tombstones, and the daemon's loop calls `Sweep` again when the last call
has returned (`Attentive`).
-/
import R1s.Allocator.Proofs.Collection
import R1s.Allocator.Proofs.Retirement
import R1s.Allocator.Proofs.Stoppers

namespace R1s.Allocator

variable {cfg : Config} {pc : Option (Pc cfg)} {i : Input} {m m' : Mem}

-- ===== the budget

/-- The records of the memory, an offer counted with the execution it may
become. -/
def Mem.records (m : Mem) : Nat := 2 * m.offers.size + m.tombstones.size

theorem records_expired (now : Int) (m : Mem) : (expireOffers now m).records = m.records := by
  unfold Mem.records expireOffers AList.mapVal AList.size
  simp

/-- A request that is accepted has room for two records. -/
theorem records_of_requestErr {e : Envelope} {q : ExecutionRequest}
    (h : requestErr cfg e q m = none) : m.records + 2 ≤ cfg.maxRecords := by
  unfold requestErr at h
  split at h
  · cases h
  split at h
  · cases h
  next hroom =>
    unfold Mem.records
    omega

/-- A round of the collection turns an offer into a tombstone. -/
theorem records_collectOffer (now : Int) (busy : List GoString) {m : Mem}
    {entry : Σ _ : GoString, OfferRecord} (h : m.offers.lookup entry.1 = some entry.2) :
    (collectOffer now busy m entry).records ≤ m.records := by
  unfold collectOffer
  split
  · exact Nat.le_refl _
  unfold Mem.records
  dsimp only
  have hoffers := AList.size_erase_some h
  have htombs := AList.size_insert_le m.tombstones entry.1 (buryOffer now entry.1 entry.2)
  omega

theorem records_swept (now : Int) (m : Mem) : (swept cfg now m).records ≤ m.records := by
  have hready : (sweepReady cfg now m).records = m.records := by
    show (expireOffers (effectiveNow now m).highWater (effectiveNow now m)).records = _
    rw [records_expired, effectiveNow_eq]
    rfl
  have hcollected : (sweepCollected (sweepReady cfg now m)).records ≤ m.records := by
    refine sweepCollected_rule (P := fun m' => m'.records ≤ m.records) (le_of_eq hready) ?_
    exact fun hm' _ ho => (records_collectOffer _ _ ho).trans hm'
  refine le_trans ?_ hcollected
  have hkept : (sweepDropped (sweepCollected (sweepReady cfg now m))).tombstones.size
      ≤ (sweepCollected (sweepReady cfg now m)).tombstones.size :=
    List.length_filter_le _ _
  unfold Mem.records
  show 2 * (sweepCollected (sweepReady cfg now m)).offers.size
    + (sweepDropped (sweepCollected (sweepReady cfg now m))).tombstones.size ≤ _
  omega

-- ===== updates

/-- Every update but that of a cleanup keeps to the budget. -/
theorem Update.records (hu : Update cfg pc i m m')
    (hpc : ∀ dead pending err evictErr, pc ≠ some (.cleaning (dead :: pending) err evictErr))
    (h : m.records ≤ cfg.maxRecords) : m'.records ≤ cfg.maxRecords := by
  have replaced {o : GoString} {r r' : OfferRecord} (hr : m.offers.lookup o = some r) :
      2 * (m.offers.insert o r').size + m.tombstones.size ≤ cfg.maxRecords := by
    rw [AList.size_replace hr]
    exact h
  cases hu with
  | expired now =>
    rw [records_expired]
    exact h
  | minted hpc hq hnew herr hid hfree hsaved =>
    have hroom := records_of_requestErr herr
    unfold Mem.records at hroom ⊢
    dsimp only
    rw [AList.size_insert_new hfree]
    omega
  | assigned _ _ hr | unassigned hr | freed hr | unfreed hr => exact replaced hr
  | swept => exact le_trans (records_swept i.now m) h
  | cleaned hcleaning => exact absurd hcleaning (hpc _ _ _ _)
  | clock | cached | unindexed | reworked | finished | unfinished | bound | session => exact h

-- ===== reloads

/-- What comes back has no records that were not saved. -/
theorem records_load {s : System cfg} (hs : (machine cfg).Reach s) {saved : SaveIn}
    {granted now : Int} (hstored : cfg.stored = true)
    (hload : load cfg granted now (snapshot cfg saved s.world.mem) = .ok m) :
    m.records ≤ s.world.mem.records := by
  have hlinked := (ledgerWorld_reachable hs).mem.linked
  have hvalid := fun k t ht => ((sound_reachable hs).mem.tombstone hstored (k := k) (t := t) ht).1
  have hoffers : m.offers.size ≤ s.world.mem.offers.size := by
    refine AList.size_le_of_lookup fun o r' hr' => ?_
    obtain ⟨r, hr, -⟩ := load_offer_before hload hlinked hr'
    rw [hr]
    rfl
  have htombs : m.tombstones.size ≤ s.world.mem.tombstones.size := by
    refine AList.size_le_of_lookup fun k t ht => ?_
    rw [lookup_load_tombstones hload hvalid] at ht
    obtain ⟨t₀, ht₀, -⟩ := Option.map_eq_some_iff.mp ht
    rw [ht₀]
    rfl
  unfold Mem.records
  omega

-- ===== cleanups

variable {s t : System cfg} {dead : Tombstone}

/-- The tombstone is in the memory, whether or not it is cleaned up. -/
def Mem.entombs (m : Mem) (dead : Tombstone) : Prop :=
  (m.tombstones.lookup dead.offerID).isSome = true

/-- There is one sweep, and what it has to clean up is still there. -/
structure Attentive (s : System cfg) : Prop where
  sole : SoleSweep s
  there : ∀ dead, s.Cleans dead → s.world.mem.entombs dead

theorem Cleans.sweeps (h : s.Cleans dead) :
    ∃ tid pc, s.threads.lookup tid = some pc ∧ pc.sweeps = true ∧ pc.pendingOf ≠ none := by
  obtain ⟨tid, pending, hpending, -⟩ := h
  obtain ⟨pc, hpc, hof⟩ := Option.bind_eq_some_iff.mp hpending
  refine ⟨tid, pc, hpc, ?_, ?_⟩
  · cases pc <;> first | rfl | cases hof
  · rw [hof]
    exact nofun

/-- What a collection pass leaves to be cleaned up is there, and nothing
was left to another sweep. -/
theorem Attentive.collected {tid : Nat} {err : Option GoErr} {r : World × Next cfg}
    (hs : (machine cfg).Reach s) (h : Attentive s)
    (hpc : s.threads.lookup tid = some (.collecting err))
    (hr : advance tid (.collecting err) i s.world = some r)
    (hdead : (s.resume tid (.collecting err) i r).Cleans dead) : r.1.mem.entombs dead := by
  rcases cleans_run hpc hr hdead with hbefore | ⟨-, pending, -, hsweep, hin⟩
  · obtain ⟨tid', pc', hpc', hsweeps, hof⟩ := Cleans.sweeps hbefore
    obtain rfl := h.sole hpc rfl hpc' hsweeps
    rw [hpc] at hpc'
    cases hpc'
    exact absurd rfl hof
  · obtain ⟨hsaved, rfl⟩ := sweepCollect_ok hsweep
    have hkeyed : ∀ k t, (swept cfg i.now s.world.mem).tombstones.lookup k = some t →
        t.cleanupPending = true → t.offerID = k := by
      intro k t ht hdue
      rcases (titled_reachable hs).swept i.now k t ht with hkey | ⟨-, hclean⟩
      · exact hkey
      · rw [hdue] at hclean
        cases hclean
    unfold Mem.entombs
    rw [persist_mem hsaved]
    show ((swept cfg i.now s.world.mem).tombstones.lookup dead.offerID).isSome = true
    rw [(pending_tombstone hkeyed hin).1]
    rfl

/-- A section other than the collection pass drops no tombstone. -/
theorem advance_entombs {tid : Nat} {p : Pc cfg} {r : World × Next cfg}
    (hne : ∀ err, p ≠ .collecting err) (hr : advance tid p i s.world = some r)
    (h : s.world.mem.entombs dead) : r.1.mem.entombs dead := by
  by_cases hburies : p.buries = false
  · have htombs : r.1.mem.tombstones = s.world.mem.tombstones := by
      rcases advance_calm hburies hr with hcalm | ⟨_, _, -, -, hminted⟩
      · exact hcalm.tombstones
      · exact hminted.tombstones
    unfold Mem.entombs
    rw [htombs]
    exact h
  · cases p with
    | collecting err => exact absurd rfl (hne err)
    | cleaning pending err evictErr =>
      cases pending with
      | nil => exact absurd rfl hburies
      | cons dead' pending =>
        cases hr
        show (clean i dead' pending err evictErr s.world : World × Next cfg).1.mem.entombs dead
        rcases clean_tombstones i dead' pending err evictErr s.world with hsame | ⟨t, -, hmem, -⟩
        · rw [hsame]
          exact h
        · rw [hmem]
          show ((s.world.mem.tombstones.insert dead'.offerID t).lookup dead.offerID).isSome = true
          rw [AList.lookup_insert_if]
          split
          · rfl
          · exact h
    | _ => exact absurd rfl hburies

theorem Attentive.step {l : Label cfg} (hs : (machine cfg).Reach s) (h : Attentive s)
    (hserved : s.served l = true) (hstep : s.step l = some t) : Attentive t := by
  refine ⟨h.sole.step hserved hstep, ?_⟩
  intro dead hdead
  cases step_kind hstep with
  | @run tid i pc r hpc hr =>
    by_cases hcollect : ∃ err, pc = .collecting err
    · obtain ⟨err, rfl⟩ := hcollect
      exact h.collected hs hpc hr hdead
    · have hne : ∀ err, pc ≠ .collecting err := fun err heq => hcollect ⟨err, heq⟩
      exact advance_entombs hne hr (h.there dead (cleans_before hpc hr hne hdead))
  | other _ _ hframe hentered =>
    have hbefore := h.there dead (hentered.cleans hdead)
    unfold Mem.entombs at hbefore ⊢
    rw [hframe.mem.tombstones]
    exact hbefore
  | restart =>
    obtain ⟨-, -, -, hthreads⟩ := restart_step hstep
    obtain ⟨tid, pending, hpending, -⟩ := hdead
    rw [hthreads] at hpending
    cases hpending

theorem attentive_reachable (hs : (machine cfg).ReachWhen (fun s l => s.served l = true) s) :
    Attentive s := by
  refine machine_invariant ⟨?_, ?_⟩ ?_ ?_ hs
  · intro tid tid' pc pc' hpc
    cases hpc
  · rintro dead ⟨tid, pending, hpending, -⟩
    cases hpending
  · intro s l t hs h hserved _ hstep
    exact h.step hs hserved hstep
  · intro s t granted now hs h hserved hstep
    exact h.step hs hserved hstep

-- ===== runs

theorem records_clean {w : World} {pending : List Tombstone} {err evictErr : Option GoErr}
    (hthere : w.mem.entombs dead) :
    (clean i dead pending err evictErr w : World × Next cfg).1.mem.records = w.mem.records := by
  unfold clean
  split
  · rfl
  obtain ⟨t, ht⟩ := Option.isSome_iff_exists.mp hthere
  unfold sweepCleanup
  dsimp only
  split
  next hp =>
    rw [persist_mem hp]
    show 2 * w.mem.offers.size + (w.mem.tombstones.insert dead.offerID _).size = _
    rw [AList.size_replace ht]
    rfl
  show 2 * w.mem.offers.size
    + ((w.mem.tombstones.insert dead.offerID _).insert dead.offerID dead).size = _
  rw [AList.insert_insert, AList.size_replace ht]
  rfl

theorem records_section {l : Label cfg} (hl : l.isRestart = false) (hattentive : Attentive s)
    (hstep : s.step l = some t) (h : s.world.mem.records ≤ cfg.maxRecords) :
    t.world.mem.records ≤ cfg.maxRecords := by
  by_cases hpc : ∃ dead pending err evictErr,
      s.point l = some (.cleaning (dead :: pending) err evictErr)
  · obtain ⟨dead, pending, err, evictErr, hpc⟩ := hpc
    cases l with
    | run tid i =>
      obtain ⟨pc, r, hthread, hr, rfl⟩ := run_step hstep
      obtain rfl := Option.some.inj (hthread.symm.trans hpc)
      cases hr
      have hcleans : s.Cleans dead :=
        ⟨tid, dead :: pending, Option.bind_eq_some_iff.mpr ⟨_, hpc, rfl⟩, .head _⟩
      have hsame : (clean i dead pending err evictErr s.world : World × Next cfg).1.mem.records
          = s.world.mem.records := records_clean (hattentive.there dead hcleans)
      show (clean i dead pending err evictErr s.world).1.mem.records ≤ _
      rw [hsame]
      exact h
    | _ => cases hpc
  · refine (step_changes hl hstep).invariant (I := fun m => m.records ≤ cfg.maxRecords) ?_ h
    intro m m' hu hm
    refine hu.records ?_ hm
    intro dead pending err evictErr hcleaning
    exact hpc ⟨dead, pending, err, evictErr, hcleaning⟩

/-- An execution is named by one assigned offer. -/
theorem Linked.sole_offer (h : Linked m) {k : GoString} {x : ExecutionRecord}
    (hx : m.executions.lookup k = some x) :
    ∃! o, ∃ r, m.offers.lookup o = some r ∧ r.status = .assigned ∧ r.execution = k := by
  obtain ⟨-, -, r, hr, hstatus, hexecution⟩ := h.execution hx
  refine ⟨x.offerID, ⟨r, hr, hstatus, hexecution⟩, ?_⟩
  rintro o ⟨r', hr', hstatus', hexecution'⟩
  obtain ⟨x', hx', hoffer, -⟩ := h.assigned hr' hstatus'
  rw [hexecution', hx] at hx'
  cases hx'
  exact hoffer.symm

theorem Linked.executions_le (h : Linked m) : m.executions.size ≤ m.offers.size := by
  refine AList.size_le_of_points ExecutionRecord.offerID ?_ ?_
  · intro k x hx
    obtain ⟨-, -, r, hr, -⟩ := h.execution hx
    rw [hr]
    rfl
  · intro k x k' x' hx hx' hoffer
    obtain ⟨-, -, r, hr, -, hexecution⟩ := h.execution hx
    obtain ⟨-, -, r', hr', -, hexecution'⟩ := h.execution hx'
    rw [← hoffer, hr] at hr'
    cases hr'
    exact hexecution.symm.trans hexecution'

/-- In every run in the daemon's order, where the calls of `Sweep` do not
overlap, the offers counted twice and the tombstones keep to the limit,
every execution is named by exactly one assigned offer, and the records
together keep to the limit. -/
theorem records_keep_to_the_limit (cfg : Config) {s : System cfg}
    (hs : (machine cfg).ReachWhen (fun s l => s.served l = true) s) :
    2 * s.world.mem.offers.size + s.world.mem.tombstones.size ≤ cfg.maxRecords ∧
    (∀ k x, s.world.mem.executions.lookup k = some x →
      ∃! o, ∃ r, s.world.mem.offers.lookup o = some r ∧ r.status = .assigned ∧
        r.execution = k) ∧
    s.world.mem.offers.size + s.world.mem.executions.size + s.world.mem.tombstones.size
      ≤ cfg.maxRecords := by
  have reach : ∀ {s : System cfg}, (machine cfg).ReachWhen (fun s l => s.served l = true) s →
      (machine cfg).Reach s := fun h => h.mono fun _ _ _ => trivial
  have hrecords : s.world.mem.records ≤ cfg.maxRecords := by
    refine (memory_invariant (I := fun m => m.records ≤ cfg.maxRecords)
      (Nat.zero_le _) ?_ ?_ hs).1
    · intro s l t hs hl _ hstep h
      exact records_section hl (attentive_reachable hs) hstep h
    · intro s₀ saved granted now m hs₀ hstored h hload
      exact le_trans (records_load (reach hs₀) hstored hload) h
  have hlinked := (ledgerWorld_reachable (reach hs)).mem.linked
  have hexecutions := hlinked.executions_le
  refine ⟨hrecords, fun k x hx => hlinked.sole_offer hx, ?_⟩
  unfold Mem.records at hrecords
  omega

-- ===== samples

/-- The sample allocator with room for two records. -/
def twoRecords : Config := { oneSlot with maxRecords := 2 }

/-- A request of `alice` sent at `now`. -/
def requestAt (messageID requestID : GoString) (now : Int) : Envelope :=
  ⟨messageID, alice, [], some (Timestamp.new now),
    some (.executionRequest { sampleRequest with requestID := requestID })⟩

/-- An offer is made, assigned, started and completed. -/
def completedRun : List (Label twoRecords) :=
  [ .call 0 ⟨requestAt (text "m1") (text "r") epoch, by decide +kernel⟩,
    .run 0 { now := epoch }, .run 0 { now := epoch },
    .run 0 { now := epoch, id := text "o", id2 := text "a1" }, .run 0 { now := epoch },
    .call 1 ⟨fromAlice (text "m2") (.executionAssign ⟨text "r", text "o", text "x"⟩),
      by decide +kernel⟩,
    .run 1 { now := epoch }, .run 1 { now := epoch }, .run 1 { now := epoch },
    .run 1 { now := epoch }, .run 1 { now := epoch },
    .completed ⟨text "x", none, [], none⟩ { now := epoch } ]

/-- Past the retention of the completed execution. -/
def retired : Int := epoch + 25 * hour

/-- A sweep with one cleanup, to its end. -/
def cleanedRun (tid : Nat) : List (Label twoRecords) :=
  [ .sweep tid, .run tid { now := retired }, .run tid { now := retired },
    .run tid { now := retired }, .run tid { now := retired } ]

/-- A sweep finds its tombstone, and the records keep to the limit. -/
theorem lone_sweep_keeps_the_limit :
    ∃ s, (machine twoRecords).ReachWhen (fun s l => s.served l = true) s ∧
      s.world.mem.tombstones.size = 1 ∧
      2 * s.world.mem.offers.size + s.world.mem.tombstones.size ≤ twoRecords.maxRecords := by
  obtain ⟨s, hs, hp⟩ := (machine twoRecords).exists_reachWhen (fun s l => s.served l = true) rfl
    (completedRun ++ cleanedRun 3) (fun s => s.world.mem.tombstones.size = 1)
    (by decide +kernel)
  exact ⟨s, hs, hp, (records_keep_to_the_limit twoRecords hs).1⟩

end R1s.Allocator
