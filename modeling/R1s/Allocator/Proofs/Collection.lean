/-
What a sweep's collection pass may take.

The pass copies five maps, works on the copies and puts the originals
back when the save fails, so a failed pass is no pass. One that is saved
buries offers: each leaves one tombstone under its own ID, and the record
of its execution goes with it.

# Records in use

The pass leaves the offer of a request that a command in flight works
on. It reads that from the replay cache, so it rests on the cache keeping
a command's entry, not done, for as long as its handler runs: that is
what lets an assignment and a cancellation find their record again after
the runtime's answer.
-/
import R1s.Allocator.Proofs.Pairing
import R1s.Allocator.Proofs.Starts
import R1s.Allocator.Proofs.SweepPass

namespace R1s.Allocator

variable {cfg : Config} {s t : System cfg} {pc : Option (Pc cfg)} {i : Input} {m m' : Mem}

-- ===== the titles

/-- A tombstone names the offer it is kept under, unless a cleanup wrote
it where none was. -/
def Titled (m : Mem) : Prop :=
  ∀ k t, m.tombstones.lookup k = some t →
    t.offerID = k ∨ t.offerID = [] ∧ t.cleanupPending = false

theorem Titled.insert (h : Titled m) {dead t : Tombstone}
    (ht : t.offerID = dead.offerID ∨ t.offerID = [] ∧ t.cleanupPending = false) :
    Titled { m with tombstones := m.tombstones.insert dead.offerID t } := by
  intro k t' ht'
  rcases AList.of_lookup_insert ht' with ⟨heq, rfl⟩ | ⟨-, ht'⟩
  · rw [heq]
    exact ht
  · exact h k t' ht'

theorem Titled.swept (h : Titled m) (now : Int) : Titled (swept cfg now m) := by
  intro k t ht
  rcases swept_at cfg now m k with ⟨-, htomb⟩ | ⟨r, -, -, -, htomb⟩
  · rw [htomb] at ht
    exact h k t (Option.filter_eq_some_iff.mp ht).1
  · rw [htomb] at ht
    cases ht
    exact .inl rfl

theorem Update.titled (hu : Update cfg pc i m m') (h : Titled m) : Titled m' := by
  cases hu with
  | swept => exact h.swept i.now
  | @cleaned dead t pending err evictErr hpc ht =>
    refine h.insert ?_
    rcases ht with rfl | rfl
    · exact .inl rfl
    · cases hold : m.tombstones.lookup dead.offerID with
      | none => exact .inr ⟨rfl, rfl⟩
      | some t => exact (h _ t hold).imp_right fun h => ⟨h.1, rfl⟩
  | clock | expired | cached | minted | unindexed | assigned | unassigned | freed | unfreed
  | reworked | finished | unfinished | bound | session => exact h

theorem titled_reachable (hs : (machine cfg).Reach s) : Titled s.world.mem := by
  refine (memory_invariant (I := Titled) (fun _ _ h => nomatch h) ?_ ?_ hs).1
  · intro s l t _ hl _ hstep h
    exact (step_changes hl hstep).invariant (fun _ _ hu => hu.titled) h
  · intro s₀ saved granted now m hs₀ hstored h hload k t ht
    have hproper : ∀ {k t}, s₀.world.mem.tombstones.lookup k = some t →
        Utf8.valid k = true ∧ t.utf8 = true := (sound_reachable hs₀).mem.tombstone hstored
    rw [lookup_load_tombstones hload fun k t ht => (hproper ht).1] at ht
    obtain ⟨t₀, ht₀, rfl⟩ := Option.map_eq_some_iff.mp ht
    have hvalid : Utf8.replaceInvalid t₀.offerID = t₀.offerID := by
      have hutf8 := (hproper ht₀).2
      simp only [Tombstone.utf8, Bool.and_eq_true] at hutf8
      rw [Utf8.replaceInvalid_eq_self]
      simp [hutf8]
    show Utf8.replaceInvalid t₀.offerID = k
      ∨ Utf8.replaceInvalid t₀.offerID = [] ∧ t₀.cleanupPending = false
    rw [hvalid]
    exact h k t₀ ht₀

-- ===== in flight

/-- A call in progress works on the request under `key`: it asked for it,
assigns its offer or cancels its execution. -/
def System.BusyWith (s : System cfg) (key : GoString) : Prop :=
  ∃ tid e, (s.threads.lookup tid).bind Pc.handles = some e ∧
    busyKey s.world.mem e.1 = some key

/-- The cache of a sweep has every entry in flight. -/
theorem trimmed_ready (now : Int) (m : Mem) : Trimmed m.replay (sweepReady cfg now m).replay := by
  show Trimmed m.replay (prune cfg _ (effectiveNow now m).replay)
  have hsame : (effectiveNow now m).replay = m.replay := by rw [effectiveNow_eq]
  rw [hsame]
  exact trimmed_prune _ _

theorem ready_executions (now : Int) (m : Mem) :
    (sweepReady cfg now m).executions = m.executions := by
  show (effectiveNow now m).executions = _
  rw [effectiveNow_executions]

theorem ready_offer (now : Int) (m : Mem) (o : GoString) :
    (sweepReady cfg now m).offers.lookup o
      = (m.offers.lookup o).map (OfferRecord.expire (max m.highWater now)) := by
  show ((effectiveNow now m).offers.mapVal fun _ r =>
    r.expire (effectiveNow now m).highWater).lookup o = _
  rw [AList.lookup_mapVal, effectiveNow_eq]

/-- What a call in progress works on is in the sweep's busy set. -/
theorem busy_of_flight (hs : (machine cfg).Reach s) {key : GoString} (h : s.BusyWith key)
    (now : Int) : key ∈ busyKeys (sweepReady cfg now s.world.mem) := by
  obtain ⟨tid, e, hpc, hkey⟩ := h
  obtain ⟨entry, hentry, hflight, henv, -⟩ :=
    ((cacheInv_reachable hs).owned tid e hpc).trimmed (trimmed_ready now s.world.mem)
  refine List.mem_filterMap.mpr ⟨⟨replayKey e.1, entry⟩, AList.mem_entries.mpr hentry, ?_⟩
  rw [if_neg (by rw [hflight]; exact nofun), henv, ← hkey]
  unfold busyKey
  rw [ready_executions]

-- ===== what is spared

/-- The pass at `now` may not take the offer: it is outstanding and not
expired, its execution has not ended or is retained, or a call in
progress works on its request. -/
def System.Spares (s : System cfg) (now : Int) (r : OfferRecord) : Prop :=
  (r.status = .outstanding ∧ now < asTime r.offer.expiresAt) ∨
  (r.status = .assigned ∧ ∃ x, s.world.mem.executions.lookup r.execution = some x ∧
    (x.phase.terminal = false ∨ now < x.retainUntil)) ∨
  s.BusyWith r.key

theorem expire_key (now : Int) (r : OfferRecord) : (r.expire now).key = r.key := by
  unfold OfferRecord.expire
  split <;> rfl

variable {now : Int} {r : OfferRecord}

theorem expire_of_not_lapsed (h : r.lapsed now = false) : r.expire now = r := by
  unfold OfferRecord.expire
  rw [h]
  rfl

/-- An offer that is spared is not due. -/
theorem spares_not_due (hs : (machine cfg).Reach s)
    (h : s.Spares (max s.world.mem.highWater now) r) :
    (r.expire (max s.world.mem.highWater now)).due (sweepReady cfg now s.world.mem) = false := by
  unfold OfferRecord.due
  rw [expire_key, ready_executions, sweepReady_highWater, Bool.and_eq_false_iff]
  rcases h with ⟨hstatus, hlater⟩ | ⟨hstatus, x, hx, hheld⟩ | hbusy
  · right
    rw [expire_of_not_lapsed (by simp [OfferRecord.lapsed, hlater])]
    unfold OfferRecord.collectable
    rw [hstatus]
  · right
    rw [expire_of_not_lapsed (by simp [OfferRecord.lapsed, hstatus])]
    unfold OfferRecord.collectable
    rw [hstatus]
    rw [hx, Option.any_some, Bool.and_eq_false_iff]
    rcases hheld with hlive | hretained
    · exact .inl hlive
    · exact .inr (by simp [hretained])
  · left
    rw [Bool.not_eq_false']
    exact List.elem_eq_true_of_mem (busy_of_flight hs hbusy now)

/-- What a pass at `now` makes of the state `s`. -/
structure Collection (s : System cfg) (now : Int) (m : Mem) : Prop where
  /-- A collected offer leaves a tombstone with its client, request and
  execution, -/
  buried : ∀ {o r}, s.world.mem.offers.lookup o = some r → m.offers.lookup o = none →
    ∃ t, m.tombstones.lookup o = some t ∧ t.offerID = o ∧ t.client = r.client ∧
      t.requestID = r.offer.requestID ∧ t.executionID = r.execution
  /-- and that one only. -/
  sole : ∀ {o r k t}, s.world.mem.offers.lookup o = some r → m.tombstones.lookup k = some t →
    t.offerID = o → k = o
  /-- Other tombstones are old ones. -/
  old : ∀ {k t}, m.tombstones.lookup k = some t →
    s.world.mem.tombstones.lookup k = some t ∨
      (s.world.mem.offers.lookup k).isSome ∧ m.offers.lookup k = none
  /-- A spared offer stays, with its request, -/
  offers : ∀ {o r}, s.world.mem.offers.lookup o = some r → s.Spares now r →
    m.offers.lookup o = some (r.expire now) ∧ m.requests.lookup r.key = some o
  /-- and so does the execution of one. -/
  executions : ∀ {k x}, s.world.mem.executions.lookup k = some x →
    (x.phase.terminal = false ∨ now < x.retainUntil ∨
      s.BusyWith (authorityKey x.client x.request.requestID)) →
    m.executions.lookup k = some x

theorem swept_spared (hs : (machine cfg).Reach s) {o : GoString}
    (hr : s.world.mem.offers.lookup o = some r) (h : s.Spares (max s.world.mem.highWater now) r) :
    (swept cfg now s.world.mem).offers.lookup o
      = some (r.expire (max s.world.mem.highWater now)) := by
  have hready : (sweepReady cfg now s.world.mem).offers.lookup o = _ := ready_offer now _ o
  rw [hr, Option.map_some] at hready
  rcases swept_at cfg now s.world.mem o with ⟨hkept, -⟩ | ⟨r', hr', hdue, -, -⟩
  · rw [hkept, hready]
  · rw [hready] at hr'
    cases hr'
    rw [spares_not_due hs h] at hdue
    cases hdue

theorem collection_swept (hs : (machine cfg).Reach s) (now : Int) :
    Collection s (max s.world.mem.highWater now) (swept cfg now s.world.mem) := by
  have hsound := (sound_reachable hs).mem
  have hledger := (ledgerWorld_reachable hs).mem
  have hlinked : Linked (swept cfg now s.world.mem) := (hledger.sweep now).inv.linked
  constructor
  case buried =>
    intro o r hr hgone
    have hready : (sweepReady cfg now s.world.mem).offers.lookup o = _ := ready_offer now _ o
    rw [hr, Option.map_some] at hready
    rcases swept_at cfg now s.world.mem o with ⟨hkept, -⟩ | ⟨r', hr', -, -, htomb⟩
    · rw [hkept, hready] at hgone
      cases hgone
    · rw [hready] at hr'
      cases hr'
      refine ⟨_, htomb, rfl, ?_⟩
      unfold buryOffer OfferRecord.expire
      split <;> exact ⟨rfl, rfl, rfl⟩
  case sole =>
    intro o r k t hr ht hoffer
    have hnamed := (hsound.offer hr).named
    rcases (titled_reachable hs).swept now k t ht with hkey | hblank
    · exact hkey.symm.trans hoffer
    · exact absurd (hoffer.symm.trans hblank.1) hnamed
  case old =>
    intro k t ht
    rcases swept_at cfg now s.world.mem k with ⟨-, htomb⟩ | ⟨r, hr, -, hgone, -⟩
    · rw [htomb] at ht
      exact .inl (Option.filter_eq_some_iff.mp ht).1
    · rw [ready_offer] at hr
      obtain ⟨r₀, hr₀, -⟩ := Option.map_eq_some_iff.mp hr
      exact .inr ⟨by rw [hr₀]; rfl, hgone⟩
  case offers =>
    intro o r hr hspared
    have hkept := swept_spared hs hr hspared
    refine ⟨hkept, (hsound.swept now).index.mpr ⟨_, hkept, ?_⟩⟩
    exact expire_key _ r
  case executions =>
    intro k x hx hheld
    obtain ⟨-, r, hr, hstatus, hexec, hclient, hrequest⟩ := (paired_reachable hs).execution hx
    have hspared : s.Spares (max s.world.mem.highWater now) r := by
      rcases hheld with hlive | hretained | hbusy
      · exact .inr (.inl ⟨hstatus, x, by rw [hexec]; exact hx, .inl hlive⟩)
      · exact .inr (.inl ⟨hstatus, x, by rw [hexec]; exact hx, .inr hretained⟩)
      · have hkey : r.key = authorityKey x.client x.request.requestID := by
          rw [OfferRecord.key, (hsound.offer hr).request, hclient, hrequest]
        rw [← hkey] at hbusy
        exact .inr (.inr hbusy)
    have hkept := swept_spared hs hr hspared
    rw [expire_of_not_lapsed (by simp [OfferRecord.lapsed, hstatus])] at hkept
    -- Its offer is there and assigned, so the record is.
    obtain ⟨x', hx', -⟩ := hlinked.assigned hkept hstatus
    rw [hexec] at hx'
    have hsame := swept_executions hx'
    rw [hx] at hsame
    cases hsame
    exact hx'

/-- From every reachable state, on the maps of pointers the allocator has
and wherever the copies are put: a pass whose save fails leaves every
field as it was, and one that is saved buries each offer it takes under
one tombstone of its own and takes no record in use. -/
theorem collection_takes_nothing_in_use (cfg : Config) {s : System cfg}
    (hs : (machine cfg).Reach s) {f : Fields} (hf : f.mem = s.world.mem)
    {addr : GoString → Nat} (haddr : Cells.Fresh addr f.offers) (i : Input) :
    (∀ err, (f.pass cfg addr i s.world.disk).2.2 = .error err →
      (f.pass cfg addr i s.world.disk).1.mem = s.world.mem) ∧
    ∀ pending, (f.pass cfg addr i s.world.disk).2.2 = .ok pending →
      Collection s (max s.world.mem.highWater i.now)
        (f.pass cfg addr i s.world.disk).1.mem := by
  have hpass : sweepCollect cfg i ⟨f.mem, s.world.disk⟩ = _ := Fields.pass_refines haddr i _
  rw [hf] at hpass
  constructor
  · intro err herr
    rw [herr] at hpass
    exact congrArg World.mem (sweepCollect_error hpass)
  · intro pending hok
    rw [hok] at hpass
    have hmem := persist_mem (sweepCollect_ok hpass).1
    change (f.pass cfg addr i s.world.disk).1.mem = swept cfg i.now s.world.mem at hmem
    rw [hmem]
    exact collection_swept hs i.now

/-- The offer of the sample request, collected a minute after it was
minted. -/
theorem lapsed_offer_is_collected :
    ∃ (s : System oneSlot) (f : Fields) (i : Input), (machine oneSlot).Reach s ∧
      f.mem = s.world.mem ∧
      Collection s (max s.world.mem.highWater i.now)
        (f.pass oneSlot (fun _ => 1) i s.world.disk).1.mem := by
  obtain ⟨s, hs, hp⟩ := (machine oneSlot).exists_reach rfl requestRun
    (fun s => s.world.mem.offers.entries.length = 1 &&
      (match (sweepCollect oneSlot { now := epoch + minute } s.world).2 with
        | .ok _ => true
        | .error _ => false))
    (by decide +kernel)
  rw [Bool.and_eq_true, decide_eq_true_eq, List.length_eq_one_iff] at hp
  obtain ⟨⟨⟨o, r⟩, hoffers⟩, hok⟩ := hp
  let f : Fields := ⟨(∅ : FMap GoString Nat).insert o 0, fun _ => r, s.world.mem⟩
  have hf : f.mem = s.world.mem := by
    have hsame : s.world.mem.offers = Cells.deref f.cells f.offers := AList.ext hoffers
    show ({ s.world.mem with offers := Cells.deref f.cells f.offers } : Mem) = _
    rw [← hsame]
  have hentry : ∀ e ∈ f.offers.entries, e = ⟨o, 0⟩ := fun e he => List.mem_singleton.mp he
  have haddr : Cells.Fresh (fun _ => 1) f.offers := by
    constructor
    · intro e e' he he' _
      rw [hentry e he, hentry e' he']
    · intro e e' he _
      rw [hentry e he]
      exact nofun
  have hpass : sweepCollect oneSlot { now := epoch + minute } ⟨f.mem, s.world.disk⟩ = _ :=
    Fields.pass_refines haddr _ _
  rw [hf] at hpass
  refine ⟨s, f, { now := epoch + minute }, hs, hf, ?_⟩
  rw [hpass] at hok
  split at hok
  next pending heq =>
    exact (collection_takes_nothing_in_use oneSlot hs hf haddr _).2 pending heq
  · cases hok

-- ===== records awaited

/-- The command that waits for the runtime, and the execution its handler
looks up afterwards. -/
def Pc.awaits : Pc cfg → Option (Inbound cfg × GoString)
  | .starting e id | .stopping e _ id _ _ => some (e, id)
  | _ => none

/-- The record is there, of the request the command works on. -/
def Awaited (m : Mem) (e : Envelope) (id : GoString) : Prop :=
  ∃ x, m.executions.lookup id = some x ∧
    ((∃ q, e.payload = some (.executionAssign q) ∧ e.sender = x.client ∧
      q.requestID = x.request.requestID) ∨
    ∃ q, e.payload = some (.executionCancel q) ∧ q.executionID = id)

variable {id : GoString}

/-- The command keeps the request of the record busy. -/
theorem Awaited.busy {e : Envelope} (h : Awaited m e id) :
    ∃ x, m.executions.lookup id = some x ∧
      busyKey m e = some (authorityKey x.client x.request.requestID) := by
  obtain ⟨x, hx, ⟨q, hq, hclient, hrequest⟩ | ⟨q, hq, rfl⟩⟩ := h
  · refine ⟨x, hx, ?_⟩
    simp only [busyKey, hq, hclient, hrequest]
  · refine ⟨x, hx, ?_⟩
    simp only [busyKey, hq, hx, Option.map_some]

/-- A record that stays is of the same request. -/
theorem Awaited.kin {e : Envelope} (h : Awaited m e id)
    (hkin : ∀ x, m.executions.lookup id = some x →
      ∃ x', m'.executions.lookup id = some x' ∧ x'.client = x.client ∧ x'.request = x.request) :
    Awaited m' e id := by
  obtain ⟨x, hx, hwhy⟩ := h
  obtain ⟨x', hx', hclient, hrequest⟩ := hkin x hx
  refine ⟨x', hx', ?_⟩
  rw [hclient, hrequest]
  exact hwhy

variable {w' : World}

/-- A section leaves a record with its client and request, or a sweep
takes it. -/
theorem Turn.kin {pc : Pc cfg} {next : Next cfg} {clock : Int} {k : GoString}
    {x : ExecutionRecord} {o' : Option ExecutionRecord}
    (h : Turn pc i next clock w' k (some x) o') :
    (∃ x', o' = some x' ∧ x'.client = x.client ∧ x'.request = x.request) ∨
      ∃ err, pc = .collecting err := by
  cases h with
  | same | cancelled | evicted | reattached | renewed => exact .inl ⟨_, rfl, rfl, rfl⟩
  | started =>
    left
    refine ⟨_, rfl, ?_⟩
    unfold startedRecord
    split
    · split <;> exact ⟨rfl, rfl⟩
    · exact ⟨rfl, rfl⟩
  | unstopped =>
    left
    refine ⟨_, rfl, ?_⟩
    unfold Allocator.unstopped
    split <;> exact ⟨rfl, rfl⟩
  | stopped | evictStopped | recoverStopped | lost =>
    left
    refine ⟨_, rfl, ?_⟩
    unfold Allocator.stopped
    split <;> exact ⟨rfl, rfl⟩
  | collected hpc => exact .inr ⟨_, hpc⟩

variable {e : Inbound cfg}

/-- The handler's first section leaves the record it goes on to wait for. -/
theorem handle_awaits {e' : Inbound cfg} {w : World} {pc' : Pc cfg} (hwf : Wellformed cfg w.mem)
    (hlinked : Linked w.mem) (h : handle i e w = some (w', .goto pc'))
    (hpc : pc'.awaits = some (e', id)) : Awaited w'.mem e'.1 id := by
  cases handle_succ h with
  | starting =>
    cases hpc
    obtain ⟨q, r, ha, rfl, hl⟩ := handle_assigns h
    have hproper := (hwf.expired i.now).offer ha.offer
    rw [hl.mem]
    refine ⟨assignRecord cfg i q r, AList.lookup_insert _,
      .inl ⟨q, ha.payload, ha.client.symm, ?_⟩⟩
    rw [← ha.request]
    exact hproper.request
  | stopping =>
    cases hpc
    have hadv : advance 0 (.handling e) i w = some (w', _) := h
    cases advance_condemns hadv rfl with
    | cancelled hactive hpc hq hx hx' =>
      cases hpc
      have hid := (hlinked.execution hx).2.1
      rw [hid]
      exact ⟨_, hx', .inr ⟨_, hq, rfl⟩⟩
  | handled | binding => cases hpc

/-- A handler that waits for the runtime has its record. -/
def System.Attends (s : System cfg) : Prop :=
  ∀ tid e id, (s.threads.lookup tid).bind Pc.awaits = some (e, id) →
    Awaited s.world.mem e.1 id

theorem awaits_handles {pc : Pc cfg} (h : pc.awaits = some (e, id)) : pc.handles = some e := by
  cases pc <;> cases h <;> rfl

theorem entry_awaits {pc : Pc cfg} (h : pc.entry = true) : pc.awaits = none := by
  cases pc <;> first | rfl | cases h

/-- A section leaves the record of every handler that waits. -/
theorem System.Attends.section {tid tid' : Nat} {pc : Pc cfg} {next : Next cfg} (h : s.Attends)
    (hs : (machine cfg).Reach s) (hr : advance tid pc i s.world = some (w', next))
    (hpc' : (s.threads.lookup tid').bind Pc.awaits = some (e, id)) : Awaited w'.mem e.1 id := by
  have hawaited := h tid' e id hpc'
  refine hawaited.kin ?_
  intro x hx
  have hturn := advance_turn (ledgerWorld_reachable hs) hr id
  rw [hx] at hturn
  rcases hturn.kin with hkept | ⟨err, rfl⟩
  · exact hkept
  · -- The sweep finds the command in flight.
    obtain ⟨pc', hthread, hpc'⟩ := Option.bind_eq_some_iff.mp hpc'
    obtain ⟨x₀, hx₀, hbusy⟩ := hawaited.busy
    rw [hx] at hx₀
    cases hx₀
    have hflight : s.BusyWith (authorityKey x.client x.request.requestID) := by
      refine ⟨tid', e, ?_, hbusy⟩
      rw [hthread]
      exact awaits_handles hpc'
    cases hr
    generalize hsweep : sweepCollect cfg i s.world = r
    obtain ⟨w₁, result⟩ := r
    cases result with
    | error err =>
      rw [sweepCollect_error hsweep]
      exact ⟨x, hx, rfl, rfl⟩
    | ok pending =>
      rw [persist_mem (sweepCollect_ok hsweep).1]
      exact ⟨x, (collection_swept hs i.now).executions hx (.inr (.inr hflight)), rfl, rfl⟩

theorem attends_reachable (hs : (machine cfg).Reach s) : s.Attends := by
  refine machine_invariant (I := System.Attends) ?_ ?_ ?_ hs
  · intro tid e id hpc
    cases hpc
  · intro s l t hs h _ hl hstep tid' e id hpc'
    cases step_move hl hstep with
    | @run tid pc i r hpc hr =>
      by_cases htid : tid' = tid
      · subst htid
        rw [resume_self] at hpc'
        obtain ⟨pc', hnext, hpc'⟩ := Option.bind_eq_some_iff.mp hpc'
        have hgoto := Next.pc_eq_some.mp hnext
        obtain ⟨w', next⟩ := r
        subst hgoto
        have hsucc := advance_succ hr
        cases hsucc with
        | starting | stopping =>
          exact handle_awaits (sound_reachable hs).mem
            (ledgerWorld_reachable hs).mem.linked hr hpc'
        | _ => cases hpc'
      · rw [resume_other Pc.awaits (fun _ _ _ => rfl) s htid] at hpc'
        exact h.section hs hr hpc'
    | completed c i =>
      refine (h tid' e id hpc').kin ?_
      intro x hx
      rcases runtimeCompleted_executions i c s.world with hsame | ⟨x₀, hx₀, -, hset⟩
      · exact ⟨x, (hsame id).trans hx, rfl, rfl⟩
      · by_cases hid : id = c.executionID
        · subst hid
          rw [hx] at hx₀
          cases hx₀
          refine ⟨finishRecord cfg s.world.mem.highWater x c.phase c.text c.exitCode i.now,
            ?_, rfl, rfl⟩
          rw [hset, if_pos rfl]
        · exact ⟨x, by rw [hset, if_neg hid]; exact hx, rfl, rfl⟩
    | @entered _ tid pc hfree hpc =>
      rw [AList.lookup_insert_if] at hpc'
      split at hpc'
      · rw [Option.bind_some, entry_awaits hpc] at hpc'
        cases hpc'
      · exact h tid' e id hpc'
    | quiet hsame =>
      refine (h tid' e id hpc').kin ?_
      intro x hx
      exact ⟨x, by rw [hsame]; exact hx, rfl, rfl⟩
  · intro s t granted now _ _ _ hstep tid' e id hpc'
    obtain ⟨-, -, -, hthreads⟩ := restart_step hstep
    rw [hthreads] at hpc'
    cases hpc'

/-- In every reachable state the handler of an assignment or a
cancellation that is back from the runtime finds its record: the section
that looks it up has a step. -/
theorem awaited_records_exist (cfg : Config) {s : System cfg} (hs : (machine cfg).Reach s)
    {tid : Nat} {pc : Pc cfg} (hpc : s.threads.lookup tid = some pc) {e : Inbound cfg}
    {id : GoString} (hawaits : pc.awaits = some (e, id)) :
    (s.world.mem.executions.lookup id).isSome = true ∧
      ∀ i, (s.step (.run tid i)).isSome = true := by
  obtain ⟨x, hx, -⟩ := attends_reachable hs tid e id (by rw [hpc]; exact hawaits)
  refine ⟨by rw [hx]; rfl, ?_⟩
  intro i
  show ((s.threads.lookup tid).bind fun pc =>
    (advance tid pc i s.world).map (s.resume tid pc i)).isSome = true
  rw [hpc, Option.bind_some, Option.isSome_map]
  cases pc <;> cases hawaits
  case starting =>
    simp only [advance, Option.isSome_map, assignFinish, hx]
    rfl
  case stopping =>
    simp only [advance, Option.isSome_map, cancelFinish, hx]
    split <;> rfl

/-- The sample assignment while its runtime starts. -/
theorem started_record_is_found :
    ∃ (s : System oneSlot) (e : Inbound oneSlot), (machine oneSlot).Reach s ∧
      s.threads.lookup 1 = some (.starting e (text "x")) ∧
      (s.world.mem.executions.lookup (text "x")).isSome = true := by
  obtain ⟨s, hs, hp⟩ := (machine oneSlot).exists_reach rfl
    (requestRun ++ assignRun)
    (fun s => (s.threads.lookup 1).any fun pc =>
      (pc.awaits.any fun a => a.2 = text "x") && pc.startOf.isSome)
    (by decide +kernel)
  rw [Option.any_eq_true] at hp
  obtain ⟨pc, hpc, hp⟩ := hp
  rw [Bool.and_eq_true] at hp
  cases pc with
  | starting e id =>
    obtain rfl : id = text "x" := of_decide_eq_true hp.1
    exact ⟨s, e, hs, hpc, (awaited_records_exist oneSlot hs hpc rfl).1⟩
  | _ => cases hp.2

end R1s.Allocator
