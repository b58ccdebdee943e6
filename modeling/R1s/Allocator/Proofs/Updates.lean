/-
The ways a section changes the memory, listed once. A section of a call,
a completion or a view is a short sequence of the updates below; an
invariant of the memory that every update keeps holds at the end of every
section, and the store holds either what it held or the snapshot of that
end.

An update names the point the call stood at where the change depends on
it: a mint and an assignment have their command, a bind its request, a
failed stop the phase it returns to.
-/
import R1s.Allocator.Proofs.Tombstones

namespace R1s.Allocator

variable {cfg : Config} {pc : Option (Pc cfg)} {w w' : World} {i : Input}

-- ===== the updates

/-- A record changed in place: another phase of a live execution, or
another lease. `clock` is the high-water clock. -/
structure Reworked (pc : Option (Pc cfg)) (i : Input) (clock : Int) (k : GoString)
    (x x' : ExecutionRecord) : Prop where
  id : x'.id = x.id
  offerID : x'.offerID = x.offerID
  client : x'.client = x.client
  resourceClass : x'.resourceClass = x.resourceClass
  request : x'.request = x.request
  startedAt : x'.startedAt = x.startedAt
  released : x'.released = x.released
  retainUntil : x'.retainUntil = x.retainUntil
  occurredAt : x'.occurredAt = x.occurredAt ∨ x'.occurredAt = i.now ∨ x'.occurredAt = clock
  live : x'.phase = x.phase ∨ x.phase.terminal = false ∧ x'.phase.terminal = false
  phase : x'.phase = x.phase ∨ x'.phase = .running ∨ x'.phase = .cancelling ∨
    ∃ p previous, pc = some p ∧ p.stopOf = some (k, previous) ∧ x'.phase = previous.1

inductive Update (cfg : Config) (pc : Option (Pc cfg)) (i : Input) : Mem → Mem → Prop
  | clock {m} : Update cfg pc i m { m with highWater := max m.highWater i.now }
  | expired {m} (now : Int) : Update cfg pc i m (expireOffers now m)
  | cached {m} (hpc : pc.bind Pc.atHandler = none) (replay : FMap GoString ReplayEntry) :
      Update cfg pc i m { m with replay := replay }
  | minted {m e q used} (hpc : pc = some (.handling e))
      (hq : e.1.payload = some (.executionRequest q)) (hnew : m.requested e.1 q = none)
      (herr : requestErr cfg e.1 q m = none) (hid : i.id ≠ [])
      (hfree : m.offers.lookup i.id = none)
      (hsaved : cfg.stored = true → (mintRecord cfg i e.1 q).encodable = true) :
      Update cfg pc i m
        { m with
          offers := m.offers.insert i.id (mintRecord cfg i e.1 q),
          requests := m.requests.insert (authorityKey e.1.sender q.requestID) i.id,
          used := used }
  /-- A mint undone leaves no entry under its key. -/
  | unindexed {m key used} (hkey : (m.requests.lookup key).bind m.offers.lookup = none) :
      Update cfg pc i m { m with requests := m.requests.erase key, used := used }
  | assigned {m e q r} (hpc : pc = some (.handling e))
      (hq : e.1.payload = some (.executionAssign q)) (hr : m.offers.lookup q.offerID = some r)
      (hstatus : r.status = .outstanding) (hclient : r.client = e.1.sender)
      (hrequest : r.offer.requestID = q.requestID)
      (hnew : m.executions.lookup q.executionID = none)
      (hsaved : cfg.stored = true →
        ∀ k entry, m.replay.lookup k = some entry → entry.envelope.utf8 = true) :
      Update cfg pc i m
        { m with
          offers := m.offers.insert q.offerID
            { r with status := .assigned, execution := q.executionID },
          executions := m.executions.insert q.executionID (assignRecord cfg i q r) }
  | unassigned {m o r} (hr : m.offers.lookup o = some r) (hstatus : r.status = .outstanding) :
      Update cfg pc i m
        { m with
          offers := m.offers.insert o { r with status := .outstanding, execution := [] } }
  | freed {m o r status used} (hr : m.offers.lookup o = some r) (hstatus : r.status = .outstanding)
      (hnext : status = .released ∨ status = .expired) :
      Update cfg pc i m
        { m with offers := m.offers.insert o { r with status := status }, used := used }
  | unfreed {m o r used} (hr : m.offers.lookup o = some r) :
      Update cfg pc i m { m with offers := m.offers.insert o r, used := used }
  | reworked {m k x x'} (hx : m.executions.lookup k = some x)
      (h : Reworked pc i m.highWater k x x') : Update cfg pc i m (m.setExecution k x')
  | finished {m k x phase detail exitCode} (hx : m.executions.lookup k = some x)
      (hlive : x.phase.terminal = false) (hend : phase.terminal = true) :
      Update cfg pc i m (finish cfg k x phase detail exitCode i.now m)
  /-- A completion undone: the binding stays dropped. -/
  | unfinished {m k x} (hx : m.executions.lookup k = some x) :
      Update cfg pc i m
        { m with
          executions := m.executions.insert k x, tunnels := m.tunnels.invalidate x.id }
  | swept {m} (hpc : pc.bind Pc.atHandler = none) : Update cfg pc i m (swept cfg i.now m)
  | cleaned {m dead t pending err evictErr}
      (hpc : pc = some (.cleaning (dead :: pending) err evictErr))
      (ht : t = dead ∨
        t = { (m.tombstones.lookup dead.offerID).getD .zero with cleanupPending := false }) :
      Update cfg pc i m { m with tombstones := m.tombstones.insert dead.offerID t }
  | bound {m e q now targets endpoint tunnels} (hpc : pc = some (.binding e q now))
      (h : m.tunnels.bind q.executionID q.yggPeerPubkey targets endpoint = .ok tunnels) :
      Update cfg pc i m { m with tunnels := tunnels }
  /-- A session opens or closes on a binding. -/
  | session {m tunnels}
      (h : ∀ id, (tunnels.records.lookup id).isSome = (m.tunnels.records.lookup id).isSome) :
      Update cfg pc i m { m with tunnels := tunnels }

/-- A sequence of updates. -/
abbrev Updates (cfg : Config) (pc : Option (Pc cfg)) (i : Input) : Mem → Mem → Prop :=
  Relation.ReflTransGen (Update cfg pc i)

/-- A section from `w` to `w'`. -/
structure Changes (cfg : Config) (pc : Option (Pc cfg)) (i : Input) (w w' : World) : Prop where
  mem : Updates cfg pc i w.mem w'.mem
  disk : Stored cfg w w'
  unstored : cfg.stored = false → w'.disk = w.disk

/-- The invariant rule of a section. -/
theorem Changes.invariant {I : Mem → Prop} (h : Changes cfg pc i w w')
    (hupdate : ∀ m m', Update cfg pc i m m' → I m → I m') (hw : I w.mem) : I w'.mem := by
  have hrun : ∀ m', Updates cfg pc i w.mem m' → I m' := by
    intro m' hm'
    induction hm' with
    | refl => exact hw
    | tail _ hstep ih => exact hupdate _ _ hstep ih
  exact hrun w'.mem h.mem

-- ===== commands

variable {k : GoString} {m : Mem}

/-- The commands of a cache that can be saved are valid UTF-8. -/
theorem encodable_entry {entry : ReplayEntry} (h : m.encodable = true)
    (hentry : m.replay.lookup k = some entry) : entry.envelope.utf8 = true := by
  simp only [Mem.encodable, Bool.and_eq_true, List.all_eq_true] at h
  have henc := h.2 ⟨k, entry⟩ (AList.mem_entries.mpr hentry)
  simp only [ReplayEntry.encodable, Bool.and_eq_true] at henc
  exact henc.1

theorem Reworked.refl {clock : Int} (x : ExecutionRecord) : Reworked pc i clock k x x :=
  ⟨rfl, rfl, rfl, rfl, rfl, rfl, rfl, rfl, .inl rfl, .inl rfl, .inl rfl⟩

variable {x : ExecutionRecord}

/-- A live record that starts to run. -/
theorem Reworked.running {clock : Int} (hx : x.phase = .starting) (revision : UInt64) :
    Reworked pc i clock k x
      { x with phase := .running, occurredAt := i.now, revision := revision } :=
  ⟨rfl, rfl, rfl, rfl, rfl, rfl, rfl, rfl, .inr (.inl rfl), .inr ⟨by rw [hx]; rfl, rfl⟩,
    .inr (.inl rfl)⟩

variable {id : GoString}

theorem startReturned_updates (hx : m.executions.lookup id = some x) :
    Updates cfg pc i m (startReturned cfg i id x m) := by
  unfold startReturned
  split
  next hphase =>
    split
    · exact .single (.finished hx (by rw [hphase]; rfl) rfl)
    · exact .single (.reworked hx (.running hphase _))
  · exact .refl

/-- A stop that failed returns its own record. -/
theorem stopFailed_updates {p : Pc cfg} {previous : ActivePhase}
    (hx : m.executions.lookup id = some x) (hp : p.stopOf = some (id, previous))
    (detail : GoString) : Updates cfg (some p) i m (stopFailed i id x previous detail m) := by
  unfold stopFailed
  split
  next hphase =>
    refine .single (.reworked hx ?_)
    exact ⟨rfl, rfl, rfl, rfl, rfl, rfl, rfl, rfl, .inr (.inl rfl),
      .inr ⟨by rw [hphase]; rfl, previous.2.1⟩, .inr (.inr (.inr ⟨p, previous, rfl, hp, rfl⟩))⟩
  · exact .refl

theorem stopSucceeded_updates {detail : GoString} {phase : ExecutionPhase}
    (hx : m.executions.lookup id = some x) (hend : phase.terminal = true) :
    Updates cfg pc i m (stopSucceeded cfg i.now id x phase detail m) := by
  unfold stopSucceeded
  split
  · exact .refl
  next hlive => exact .single (.finished hx (by simpa using hlive) hend)

-- ===== sessions

theorem bound_insert (r : Tunnel.Registry) {rec rec' : Tunnel.Record}
    (h : r.records.lookup k = some rec) (id : GoString) :
    ((r.records.insert k rec').lookup id).isSome = (r.records.lookup id).isSome := by
  rw [AList.lookup_insert_if]
  split
  next heq => rw [heq, h]; rfl
  · rfl

theorem bound_open {r r' : Tunnel.Registry} {peerKey : Bytes} {session : Tunnel.Session}
    (h : r.open k peerKey = .ok (r', session)) (id : GoString) :
    (r'.records.lookup id).isSome = (r.records.lookup id).isSome := by
  unfold Tunnel.Registry.open at h
  split at h
  · cases h
  split at h
  · cases h
  rename_i rec hrec
  split at h
  · cases h
  split at h
  · cases h
  · cases h
    exact bound_insert r hrec id

theorem bound_closeSession (r : Tunnel.Registry) (k id : GoString) :
    ((r.closeSession k).records.lookup id).isSome = (r.records.lookup id).isSome := by
  unfold Tunnel.Registry.closeSession
  split
  next rec hrec =>
    split
    · exact bound_insert r hrec id
    · rfl
  · rfl

theorem bound_release (r : Tunnel.Registry) (session : Tunnel.Session) (id : GoString) :
    ((r.release session).records.lookup id).isSome = (r.records.lookup id).isSome := by
  unfold Tunnel.Registry.release
  split
  next rec hrec =>
    split
    · exact bound_insert r hrec id
    · rfl
  · rfl

-- ===== sections

/-- Every move of a section is a sequence of updates. -/
theorem Alters.updates {m' : Mem} {b : Bool} {next : Option (Next cfg)}
    (ha : Alters cfg pc i next m b m')
    (hsaved : b = true → cfg.stored = true → m'.encodable = true) : Updates cfg pc i m m' := by
  have hexp : Update cfg pc i m (expireOffers i.now m) := .expired i.now
  cases ha with
  | same | missed => exact .refl
  | clock => exact .single .clock
  | expired hpc now => exact .single (.expired now)
  | minted hpc hm hq hnew herr hid hfree hused =>
    subst hm
    refine .tail (.single hexp) (.minted hpc hq hnew herr hid hfree fun hstored => ?_)
    exact encodable_offer (hsaved rfl hstored) (AList.lookup_insert _)
  | unminted hpc hm hkey =>
    subst hm
    exact .tail (.single hexp) (.unindexed hkey)
  | assigned hpc ha =>
    refine .tail (.single hexp) (.assigned hpc ha.payload ha.offer ha.outstanding ha.client
      ha.request ha.fresh fun hstored k entry hentry => ?_)
    exact encodable_entry (hsaved rfl hstored) hentry
  | unassigned hpc hm hr hstatus =>
    subst hm
    exact .tail (.single hexp) (.unassigned hr hstatus)
  | started hpc hx => exact startReturned_updates hx
  | cancelled hpc hq hactive hx =>
    exact .single (.reworked hx ⟨rfl, rfl, rfl, rfl, rfl, rfl, rfl, rfl, .inr (.inl rfl),
      .inr ⟨hactive.1, rfl⟩, .inr (.inr (.inl rfl))⟩)
  | rewritten hpc hx => exact .single (.reworked hx (.refl _))
  | unstopped hpc hstop hfails hx =>
    subst hpc
    exact stopFailed_updates hx hstop _
  | @stopped _ _ _ phase _ hpc hend hx => exact stopSucceeded_updates hx phase.2
  | reattached hpc hx hphase => exact .single (.reworked hx (.running hphase _))
  | released hpc hr hstatus =>
    refine .single (.freed hr hstatus ?_)
    unfold releasedStatus
    split
    · exact .inl rfl
    · exact .inr rfl
  | unreleased hpc hr => exact .single (.unfreed hr)
  | renewed hpc hq hx =>
    exact .single (.reworked hx
      ⟨rfl, rfl, rfl, rfl, rfl, rfl, rfl, rfl, .inl rfl, .inl rfl, .inl rfl⟩)
  | bound hpc h => exact .single (.bound hpc h)
  | begun hpc hm b replay =>
    subst hm hpc
    exact .tail (.single hexp) (.cached rfl replay)
  | answered hpc replay =>
    subst hpc
    exact .single (.cached rfl replay)
  | evicted hpc hm hactive hx =>
    subst hm
    exact .tail (.single .clock) (.reworked hx ⟨rfl, rfl, rfl, rfl, rfl, rfl, rfl, rfl,
      .inr (.inr rfl), .inr ⟨hactive.1, rfl⟩, .inr (.inr (.inl rfl))⟩)
  | unevicted hpc hm hx =>
    subst hm
    exact .tail (.single .clock) (.reworked hx (.refl _))
  | swept hpc =>
    subst hpc
    exact .single (.swept rfl)
  | cleaned hpc => exact .single (.cleaned hpc (.inr rfl))
  | uncleaned hpc => exact .single (.cleaned hpc (.inl rfl))
  | opened hpc h => exact .single (.session (bound_open h))
  | rechecked => exact .single (.session (bound_closeSession _ _))
  | closed => exact .single (.session (bound_release _ _))
  | @completed c x hpc hx hlive => exact .single (.finished hx hlive c.phase_terminal)
  | uncompleted hpc hx => exact .single (.unfinished hx)

theorem Effect.changes {next : Option (Next cfg)} (h : Effect cfg pc i next w w') :
    Changes cfg pc i w w' := by
  obtain ⟨b, m, ha, hl⟩ := h
  refine ⟨?_, hl.disk.1, hl.disk.2⟩
  rw [hl.mem]
  refine ha.updates fun hb => ?_
  subst hb
  exact hl.encodable

/-- Every section is a sequence of updates. -/
theorem advance_changes {tid : Nat} {p : Pc cfg} {next : Next cfg}
    (h : advance tid p i w = some (w', next)) : Changes cfg (some p) i w w' :=
  (advance_effect h).changes

/-- Every step but a restart is a section. -/
theorem step_changes {s t : System cfg} {l : Label cfg} (hl : l.isRestart = false)
    (h : s.step l = some t) : Changes cfg (s.point l) l.input s.world t.world := by
  obtain ⟨next, he⟩ := step_effect hl h
  exact he.changes

end R1s.Allocator
