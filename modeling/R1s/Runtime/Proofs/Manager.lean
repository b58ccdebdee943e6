/-
The execution manager by itself: what a section of a call can do to the
registry, and the invariant that every start in progress and every
monitor holds the registered entry of its execution.
-/
import R1s.Runtime.Manager

namespace R1s.Runtime

open Allocator (Fault FaultMark)
open Option (bind_eq_some_iff map_eq_some_iff)
open AList (lookup_insert lookup_insert_if of_lookup_erase of_lookup_insert)

variable {p : Platform} {m m' : Manager} {c c' : Call} {i : CallIn}

-- ===== what calls hold

/-- The start that holds an entry. -/
def Call.launchOf : Call → Option (GoString × Nat)
  | .launching _ id q => some (id, q)
  | .launched id q _ => some (id, q)
  | _ => none

/-- The execution a start may still launch or hand to a monitor. -/
def Call.pendingOf : Call → Option GoString
  | .claiming _ request => some request.executionID
  | .launching _ id _ => some id
  | .launched id _ none => some id
  | _ => none

/-- A fault that does not say that the task is missing. -/
abbrev Present (f : Fault) : Prop := FaultMark.missing ∉ f.marks

variable {f : Fault}

theorem present_fault {allowed : List FaultMark} (hallowed : .missing ∉ allowed)
    (h : i.fault allowed = some f) : Present f := by
  obtain ⟨problem, _, rfl⟩ := map_eq_some_iff.mp h
  intro hmem
  have := (List.mem_filter.mp hmem).2
  simp [hallowed] at this

/-- The registry and the flags of its entries are the same. -/
structure SameRegistry (m m' : Manager) : Prop where
  entries : m'.entries = m.entries
  monitors : m'.monitors = m.monitors
  calls : m'.calls = m.calls
  fresh : m'.fresh = m.fresh
  flags : ∀ q, (m'.heap.lookup q).map (fun e => (e.ready, e.done, e.doneErr))
    = (m.heap.lookup q).map (fun e => (e.ready, e.done, e.doneErr))

theorem SameRegistry.refl (m : Manager) : SameRegistry m m := ⟨rfl, rfl, rfl, rfl, fun _ => rfl⟩

variable {e e' : Entry} {q : Nat}

/-- Marks of a stop do not count. -/
theorem sameRegistry_setEntry (he : m.heap.lookup q = some e) (hready : e'.ready = e.ready)
    (hdone : e'.done = e.done) (herr : e'.doneErr = e.doneErr) :
    SameRegistry m (m.setEntry q e') := by
  refine ⟨rfl, rfl, rfl, rfl, fun q' => ?_⟩
  show ((m.heap.insert q e').lookup q').map _ = _
  rw [lookup_insert_if]
  split
  next heq =>
    subst heq
    rw [he]
    simp [hready, hdone, herr]
  · rfl

theorem sameRegistry_unmark (he : m.heap.lookup q = some e) (failure : Option Fault) :
    SameRegistry m (m.unmark q e failure) := by
  unfold Manager.unmark
  split
  · exact .refl m
  · exact sameRegistry_setEntry he rfl rfl rfl

-- ===== call sections

/-- The sections of calls that leave the registry alone. -/
inductive QuietCall (m : Manager) : Call → Call → Prop
  | refused {recover request f} : QuietCall m (.claiming recover request) (.returned (some f))
  | joined {recover request q} : QuietCall m (.claiming recover request) (.awaitingReady q)
  | ready {q err} : QuietCall m (.awaitingReady q) (.returned err)
  | unseen {id f} (hf : Present f) : QuietCall m (.looking id) (.returned (some f))
  | absent {id} (h : m.entry id = none) : QuietCall m (.looking id) (.stoppingTask id)
  | early {id q} : QuietCall m (.looking id) (.awaitingStart id q)
  | settled {id q e} (h : m.entry id = some (q, e)) (hready : e.ready = true)
      (hdone : e.done = true) : QuietCall m (.looking id) (.returned none)
  | finishing {id q e} (h : m.entry id = some (q, e)) (hready : e.ready = true) :
      QuietCall m (.looking id) (.awaitingMonitor q)
  | found {id q e} (h : m.entry id = some (q, e)) (hready : e.ready = true) :
      QuietCall m (.looking id) (.killing q)
  | unstopped {id f} (hf : Present f) : QuietCall m (.stoppingTask id) (.returned (some f))
  | stopped {id} : QuietCall m (.stoppingTask id) (.returned none)
  | cancelled {c : Call} {f} (hf : Present f) {q}
      (hc : (∃ id, c = .awaitingStart id q) ∨ c = .awaitingMonitor q ∨ c = .killing q
        ∨ c = .awaitingExit q) :
      QuietCall m c (.returned (some f))
  | again {id q} : QuietCall m (.awaitingStart id q) (.looking id)
  | finished {q : Nat} {e} (h : m.heap.lookup q = some e) (hdone : e.done = true) :
      QuietCall m (.awaitingMonitor q) (.returned none)
  | killed {q : Nat} : QuietCall m (.killing q) (.awaitingExit q)
  | exited {q : Nat} {e} (h : m.heap.lookup q = some e) (hdone : e.done = true) :
      QuietCall m (.awaitingExit q) (.returned e.doneErr)
  | unforgotten {id err} : QuietCall m (.forgetting id) (.returned err)

/-- What a section of a call does. -/
inductive CallMove (m : Manager) : Call → Manager → Call → Prop
  | quiet {m' : Manager} {c c' : Call} (hsame : SameRegistry m m')
      (htasks : ∀ id, m'.tasks.lookup id = some .running → m.tasks.lookup id = some .running)
      (hc : QuietCall m c c') : CallMove m c m' c'
  | claimed {recover request fingerprint} (hfree : m.entry request.executionID = none) :
      CallMove m (.claiming recover request)
        { m with
          entries := m.entries.insert request.executionID m.fresh,
          heap := m.heap.insert m.fresh { fingerprint := fingerprint },
          fresh := m.fresh + 1 }
        (.launching recover request.executionID m.fresh)
  | launched {recover id q tasks err} :
      CallMove m (.launching recover id q) { m with tasks := tasks } (.launched id q err)
  | startFailed {id q f e} (he : m.heap.lookup q = some e) :
      CallMove m (.launched id q (some f))
        { m.setEntry q { e with ready := true, startErr := some f } with
          entries := m.entries.erase id }
        (.returned (some f))
  | started {id q e} (he : m.heap.lookup q = some e) :
      CallMove m (.launched id q none)
        { m.setEntry q { e with ready := true, startErr := none } with
          monitors := m.monitors.insert q ⟨id, .watching⟩ }
        (.returned none)
  | forgotten {id q e} (h : m.entry id = some (q, e)) (hdone : e.done = true) :
      CallMove m (.forgetting id) { m with entries := m.entries.erase id } (.returned none)

/-- A section that changes nothing. -/
theorem CallMove.stays (hc : QuietCall m c c') : CallMove m c m c' :=
  .quiet (.refl m) (fun _ h => h) hc

theorem present_contextErr : Present contextErr := by decide

theorem claim_move (recover : Bool) (request : StartRequest) (m : Manager) :
    CallMove m (.claiming recover request) (m.claim p recover request).1
      (m.claim p recover request).2 := by
  unfold Manager.claim
  split
  · exact .stays .refused
  split
  · exact .stays .refused
  split
  · split
    · exact .stays .refused
    · exact .stays .joined
  next hfree => exact .claimed hfree

variable {id : GoString}

/-- A failed launch changes the container at most. -/
theorem leave_eq (recover : Bool) (id : GoString) (left : Option (Option Task)) (m : Manager) :
    m.leave recover id left = { m with tasks := (m.leave recover id left).tasks } := by
  unfold Manager.leave
  split
  · rfl
  split <;> rfl

variable {err : Option Fault}

/-- The backend answers, and only the container may have changed. -/
theorem launch_eq {recover : Bool} (h : m.launch recover id q i = some (m', c')) :
    ∃ tasks err, m' = { m with tasks := tasks } ∧ c' = .launched id q err := by
  unfold Manager.launch at h
  split at h
  · cases h
    exact ⟨_, _, leave_eq recover id i.left m, rfl⟩
  split at h
  · split at h
    · cases h
      exact ⟨_, _, rfl, rfl⟩
    · cases h
  split at h
  all_goals
    cases h
    exact ⟨_, _, rfl, rfl⟩

theorem launch_move {recover : Bool} (h : m.launch recover id q i = some (m', c')) :
    CallMove m (.launching recover id q) m' c' := by
  obtain ⟨tasks, err, rfl, rfl⟩ := launch_eq h
  exact .launched

theorem finishStart_move (h : m.finishStart id q err = some (m', c')) :
    CallMove m (.launched id q err) m' c' := by
  obtain ⟨e, he, heq⟩ := map_eq_some_iff.mp h
  cases err with
  | some f =>
    cases heq
    exact .startFailed he
  | none =>
    cases heq
    exact .started he

theorem look_move (id : GoString) (m : Manager) :
    CallMove m (.looking id) (m.look id).1 (m.look id).2 := by
  unfold Manager.look
  split
  · exact .stays (.unseen (by decide))
  split
  · exact .stays (.unseen (by decide))
  split
  next hnone => exact .stays (.absent hnone)
  rename_i q e hsome
  split
  · exact .stays .early
  rename_i hready
  have hr : e.ready = true := by simpa using hready
  split
  next hdone => exact .stays (.settled hsome hr hdone)
  split
  · exact .stays (.finishing hsome hr)
  obtain ⟨q', _, hmap⟩ := bind_eq_some_iff.mp hsome
  obtain ⟨e', he, heq⟩ := map_eq_some_iff.mp hmap
  cases heq
  exact .quiet (sameRegistry_setEntry he rfl rfl rfl) (fun _ h => h)
    (.found hsome hr)

theorem stopTask_move (id : GoString) (i : CallIn) (m : Manager) :
    CallMove m (.stoppingTask id) (m.stopTask id i).1 (m.stopTask id i).2 := by
  unfold Manager.stopTask
  split
  next f hf => exact .stays (.unstopped (present_fault (by decide) hf))
  refine .quiet ⟨rfl, rfl, rfl, rfl, fun _ => rfl⟩ (fun k hk => ?_) .stopped
  obtain ⟨-, hk⟩ := of_lookup_erase hk
  exact hk

theorem kill_move (h : m.kill q i = some (m', c')) : CallMove m (.killing q) m' c' := by
  obtain ⟨e, he, heq⟩ := map_eq_some_iff.mp h
  split at heq
  next f hf =>
    cases heq
    refine .quiet (sameRegistry_unmark he _) (fun k hk => ?_)
      (.cancelled (present_fault (by decide) hf) (.inr (.inr (.inl rfl))))
    unfold Manager.unmark at hk
    split at hk <;> exact hk
  · cases heq
    exact .stays .killed

theorem waitExit_move (h : m.waitExit q i = some (m', c')) :
    CallMove m (.awaitingExit q) m' c' := by
  obtain ⟨e, he, heq⟩ := bind_eq_some_iff.mp h
  split at heq
  · cases heq
    refine .quiet (sameRegistry_unmark he _) (fun k hk => ?_)
      (.cancelled present_contextErr (.inr (.inr (.inr rfl))))
    unfold Manager.unmark at hk
    split at hk <;> exact hk
  split at heq
  next hdone =>
    cases heq
    exact .stays (.exited he hdone)
  · cases heq

theorem forget_move (id : GoString) (i : CallIn) (m : Manager) :
    CallMove m (.forgetting id) (m.forget id i).1 (m.forget id i).2 := by
  unfold Manager.forget
  split
  · exact .stays .unforgotten
  split
  · exact .stays .unforgotten
  rename_i q e hsome
  split
  · exact .stays .unforgotten
  next hdone =>
    split
    · exact .stays .unforgotten
    · exact .forgotten hsome (by simpa using hdone)

theorem pair_move {r : Manager × Call} (hmove : CallMove m c r.1 r.2)
    (h : some r = some (m', c')) : CallMove m c m' c' := by
  cases h
  exact hmove

/-- Every section of every call. -/
theorem advance_move (h : m.advance p c i = some (m', c')) : CallMove m c m' c' := by
  cases c with
  | claiming recover request => exact pair_move (claim_move recover request m) h
  | launching recover id q => exact launch_move h
  | launched id q err => exact finishStart_move h
  | awaitingReady q =>
    obtain ⟨c₁, hc, heq⟩ := map_eq_some_iff.mp h
    cases heq
    unfold Manager.waitUntilReady at hc
    split at hc
    · cases hc
      exact .stays .ready
    obtain ⟨e, _, hready⟩ := bind_eq_some_iff.mp hc
    split at hready
    · cases hready
      exact .stays .ready
    · cases hready
  | looking id => exact pair_move (look_move id m) h
  | stoppingTask id => exact pair_move (stopTask_move id i m) h
  | awaitingStart id q =>
    obtain ⟨c₁, hc, heq⟩ := map_eq_some_iff.mp h
    cases heq
    unfold Manager.waitStart at hc
    split at hc
    · cases hc
      exact .stays (.cancelled present_contextErr (.inl ⟨id, rfl⟩))
    obtain ⟨e, _, hready⟩ := bind_eq_some_iff.mp hc
    split at hready
    · cases hready
      exact .stays .again
    · cases hready
  | awaitingMonitor q =>
    obtain ⟨c₁, hc, heq⟩ := map_eq_some_iff.mp h
    cases heq
    unfold Manager.waitMonitor at hc
    split at hc
    · cases hc
      exact .stays (.cancelled present_contextErr (.inr (.inl rfl)))
    obtain ⟨e, he, hdone⟩ := bind_eq_some_iff.mp hc
    split at hdone
    next hd =>
      cases hdone
      exact .stays (.finished he hd)
    · cases hdone
  | killing q => exact kill_move h
  | awaitingExit q => exact waitExit_move h
  | forgetting id => exact pair_move (forget_move id i m) h
  | returned err => cases h

-- ===== the invariant

/-- A start in progress and a monitor hold the registered entry of their
execution; no error kept for a stop says that the task is missing. -/
structure MgrInv (m : Manager) : Prop where
  fresh : ∀ {q e}, m.heap.lookup q = some e → q < m.fresh
  entry : ∀ {id q}, m.entries.lookup id = some q → ∃ e, m.heap.lookup q = some e
  launch : ∀ {tid id q}, (m.calls.lookup tid).bind Call.launchOf = some (id, q) →
    ∃ e, m.heap.lookup q = some e ∧ e.ready = false ∧ e.done = false
      ∧ m.entries.lookup id = some q
  owner : ∀ {tid tid' id id' q}, (m.calls.lookup tid).bind Call.launchOf = some (id, q) →
    (m.calls.lookup tid').bind Call.launchOf = some (id', q) → tid = tid'
  watch : ∀ {q mon}, m.monitors.lookup q = some mon →
    ∃ e, m.heap.lookup q = some e ∧ e.ready = true ∧ e.done = false
      ∧ m.entries.lookup mon.id = some q
  marks : ∀ {q e f}, m.heap.lookup q = some e → e.doneErr = some f → Present f
  closing : ∀ {q mon f}, m.monitors.lookup q = some mon → mon.pc = .closing (some f) →
    Present f

theorem mgrInv_empty : MgrInv .empty := ⟨nofun, nofun, nofun, nofun, nofun, nofun, nofun⟩

theorem MgrInv.entry_eq_none (h : MgrInv m) (hnone : m.entry id = none) :
    m.entries.lookup id = none := by
  cases hq : m.entries.lookup id with
  | none => rfl
  | some q =>
    obtain ⟨e, he⟩ := h.entry hq
    simp [Manager.entry, hq, he] at hnone

theorem entry_some (h : m.entry id = some (q, e)) :
    m.entries.lookup id = some q ∧ m.heap.lookup q = some e := by
  obtain ⟨q', hq, hmap⟩ := bind_eq_some_iff.mp h
  obtain ⟨e', he, heq⟩ := map_eq_some_iff.mp hmap
  cases heq
  exact ⟨hq, he⟩

/-- The flags of an entry that stays. -/
theorem SameRegistry.lookup (h : SameRegistry m m') (he : m'.heap.lookup q = some e') :
    ∃ e, m.heap.lookup q = some e ∧ e.ready = e'.ready ∧ e.done = e'.done
      ∧ e.doneErr = e'.doneErr := by
  have hflags := h.flags q
  rw [he] at hflags
  obtain ⟨e, hq, heq⟩ := map_eq_some_iff.mp hflags.symm
  simp only [Prod.mk.injEq] at heq
  exact ⟨e, hq, heq.1, heq.2.1, heq.2.2⟩

theorem SameRegistry.symm (h : SameRegistry m m') : SameRegistry m' m :=
  ⟨h.entries.symm, h.monitors.symm, h.calls.symm, h.fresh.symm, fun q => (h.flags q).symm⟩

theorem MgrInv.congr (h : MgrInv m) (hsame : SameRegistry m m') : MgrInv m' := by
  have hkeep : ∀ {q e ready done}, m.heap.lookup q = some e → e.ready = ready →
      e.done = done → ∃ e', m'.heap.lookup q = some e' ∧ e'.ready = ready ∧ e'.done = done := by
    intro q e ready done he hr hd
    obtain ⟨e', he', hr', hd', _⟩ := hsame.symm.lookup he
    exact ⟨e', he', hr'.trans hr, hd'.trans hd⟩
  constructor
  case fresh =>
    intro q e' he'
    obtain ⟨e, he, _⟩ := hsame.lookup he'
    rw [hsame.fresh]
    exact h.fresh he
  case entry =>
    intro id q hq
    rw [hsame.entries] at hq
    obtain ⟨e, he⟩ := h.entry hq
    obtain ⟨e', he', _⟩ := hkeep he rfl rfl
    exact ⟨e', he'⟩
  case launch =>
    intro tid id q hl
    rw [hsame.calls] at hl
    obtain ⟨e, he, hr, hd, hq⟩ := h.launch hl
    obtain ⟨e', he', hr', hd'⟩ := hkeep he hr hd
    rw [hsame.entries]
    exact ⟨e', he', hr', hd', hq⟩
  case owner =>
    intro tid tid' id id' q hl hl'
    rw [hsame.calls] at hl hl'
    exact h.owner hl hl'
  case watch =>
    intro q mon hq
    rw [hsame.monitors] at hq
    obtain ⟨e, he, hr, hd, hid⟩ := h.watch hq
    obtain ⟨e', he', hr', hd'⟩ := hkeep he hr hd
    rw [hsame.entries]
    exact ⟨e', he', hr', hd', hid⟩
  case marks =>
    intro q e' f he' hf
    obtain ⟨e, he, _, _, herr⟩ := hsame.lookup he'
    exact h.marks he (herr.trans hf)
  case closing =>
    intro q mon f hq hpc
    rw [hsame.monitors] at hq
    exact h.closing hq hpc

variable {tid : Nat}

/-- A call that moves to a point that holds no entry, or the one it
held. -/
theorem MgrInv.setCall (h : MgrInv m)
    (hc : c'.launchOf = none ∨ c'.launchOf = (m.calls.lookup tid).bind Call.launchOf) :
    MgrInv { m with calls := m.calls.insert tid c' } := by
  have hold : ∀ {t x}, ((m.calls.insert tid c').lookup t).bind Call.launchOf = some x →
      (m.calls.lookup t).bind Call.launchOf = some x := by
    intro t x ht
    rw [lookup_insert_if] at ht
    split at ht
    next heq =>
      rcases hc with hnone | hsame
      · simp only [Option.bind_some, hnone] at ht
        cases ht
      · rw [heq, ← hsame]
        exact ht
    · exact ht
  exact ⟨h.fresh, h.entry, fun hl => h.launch (hold hl),
    fun hl hl' => h.owner (hold hl) (hold hl'), h.watch, h.marks, h.closing⟩

theorem MgrInv.eraseCall (h : MgrInv m) (tid : Nat) :
    MgrInv { m with calls := m.calls.erase tid } := by
  have hold : ∀ {t x}, ((m.calls.erase tid).lookup t).bind Call.launchOf = some x →
      (m.calls.lookup t).bind Call.launchOf = some x := by
    intro t x ht
    rw [AList.lookup_erase_if] at ht
    split at ht
    · cases ht
    · exact ht
  exact ⟨h.fresh, h.entry, fun hl => h.launch (hold hl),
    fun hl hl' => h.owner (hold hl) (hold hl'), h.watch, h.marks, h.closing⟩

theorem QuietCall.launchOf (h : QuietCall m c c') : c'.launchOf = none := by
  cases h <;> rfl

theorem MgrInv.claimed {recover : Bool} {fingerprint : GoString} (h : MgrInv m)
    (hfree : m.entries.lookup id = none) :
    MgrInv
      { m with
        entries := m.entries.insert id m.fresh,
        heap := m.heap.insert m.fresh { fingerprint := fingerprint },
        fresh := m.fresh + 1,
        calls := m.calls.insert tid (.launching recover id m.fresh) } := by
  -- What was registered or held before is below the new pointer.
  have hheap : ∀ {q e}, m.heap.lookup q = some e →
      (m.heap.insert m.fresh { fingerprint := fingerprint }).lookup q = some e := by
    intro q e he
    rw [AList.lookup_insert_ne (Nat.ne_of_lt (h.fresh he))]
    exact he
  have hentries : ∀ {k q}, m.entries.lookup k = some q →
      (m.entries.insert id m.fresh).lookup k = some q := by
    intro k q hq
    have hne : k ≠ id := AList.ne_of_lookup hq hfree
    rw [AList.lookup_insert_ne hne]
    exact hq
  have hcall : ∀ {t k q},
      ((m.calls.insert tid (.launching recover id m.fresh)).lookup t).bind Call.launchOf
        = some (k, q) →
      t = tid ∧ k = id ∧ q = m.fresh ∨ (m.calls.lookup t).bind Call.launchOf = some (k, q) := by
    intro t k q ht
    rw [lookup_insert_if] at ht
    split at ht
    next heq =>
      cases ht
      exact .inl ⟨heq, rfl, rfl⟩
    · exact .inr ht
  constructor
  case fresh =>
    intro q e he
    rcases of_lookup_insert he with ⟨heq, -⟩ | ⟨-, he⟩
    · rw [heq]
      exact Nat.lt_succ_self _
    · exact Nat.lt_succ_of_lt (h.fresh he)
  case entry =>
    intro k q hq
    rcases of_lookup_insert hq with ⟨-, rfl⟩ | ⟨-, hq⟩
    · exact ⟨_, lookup_insert _⟩
    · obtain ⟨e, he⟩ := h.entry hq
      exact ⟨e, hheap he⟩
  case launch =>
    intro t k q ht
    rcases hcall ht with ⟨_, rfl, rfl⟩ | hold
    · exact ⟨_, lookup_insert _, rfl, rfl, lookup_insert _⟩
    · obtain ⟨e, he, hr, hd, hq⟩ := h.launch hold
      exact ⟨e, hheap he, hr, hd, hentries hq⟩
  case owner =>
    intro t t' k k' q ht ht'
    rcases hcall ht with ⟨rfl, _, hq⟩ | hold <;> rcases hcall ht' with ⟨rfl, _, hq'⟩ | hold'
    · rfl
    · obtain ⟨e, he, _⟩ := h.launch hold'
      exact absurd hq (Nat.ne_of_lt (h.fresh he))
    · obtain ⟨e, he, _⟩ := h.launch hold
      exact absurd hq' (Nat.ne_of_lt (h.fresh he))
    · exact h.owner hold hold'
  case watch =>
    intro q mon hq
    obtain ⟨e, he, hr, hd, hid⟩ := h.watch hq
    exact ⟨e, hheap he, hr, hd, hentries hid⟩
  case marks =>
    intro q e f he hf
    rcases of_lookup_insert he with ⟨-, rfl⟩ | ⟨-, he⟩
    · cases hf
    · exact h.marks he hf
  case closing => exact h.closing

variable {q' : Nat} {mon : Monitor}

/-- Writing an entry back under its pointer keeps pointers valid. -/
theorem lookup_setEntry (hne : q' ≠ q) :
    (m.setEntry q e).heap.lookup q' = m.heap.lookup q' := AList.lookup_insert_ne hne

theorem setEntry_exists (h : ∃ e', m.heap.lookup q' = some e') :
    ∃ e', (m.setEntry q e).heap.lookup q' = some e' := by
  by_cases hq : q' = q
  · rw [hq]
    exact ⟨e, lookup_insert _⟩
  · rw [lookup_setEntry hq]
    exact h

theorem MgrInv.fresh_setEntry {e₁ : Entry} (h : MgrInv m) (he : m.heap.lookup q = some e)
    (hq' : (m.setEntry q e₁).heap.lookup q' = some e') : q' < m.fresh := by
  by_cases hq : q' = q
  · rw [hq]
    exact h.fresh he
  · rw [lookup_setEntry hq] at hq'
    exact h.fresh hq'

theorem MgrInv.marks_setEntry {e₁ : Entry} (h : MgrInv m) (he : m.heap.lookup q = some e)
    (hq' : (m.setEntry q e₁).heap.lookup q' = some e') (herr : e₁.doneErr = e.doneErr)
    (hf : e'.doneErr = some f) : Present f := by
  by_cases hq : q' = q
  · rw [hq] at hq'
    have heq : e₁ = e' := Option.some.inj ((lookup_insert _).symm.trans hq')
    rw [← heq, herr] at hf
    exact h.marks he hf
  · rw [lookup_setEntry hq] at hq'
    exact h.marks hq' hf

section Starting

variable (h : MgrInv m) (hc : (m.calls.lookup tid).bind Call.launchOf = some (id, q))
include h hc

/-- The parts of a finished start the two outcomes share: the entry is
ready, and the call holds it no longer. -/
theorem MgrInv.readied {t : Nat} {k : GoString}
    (ht : ((m.calls.insert tid (.returned err)).lookup t).bind Call.launchOf = some (k, q')) :
    (m.calls.lookup t).bind Call.launchOf = some (k, q') ∧ q' ≠ q ∧ k ≠ id := by
  rw [lookup_insert_if] at ht
  split at ht
  · cases ht
  rename_i hne
  have hq : q' ≠ q := by
    rintro rfl
    exact hne (h.owner ht hc)
  refine ⟨ht, hq, ?_⟩
  rintro rfl
  obtain ⟨_, _, _, _, hreg⟩ := h.launch hc
  obtain ⟨_, _, _, _, hreg'⟩ := h.launch ht
  rw [hreg] at hreg'
  cases hreg'
  exact hq rfl

/-- A monitor's entry is not the one a start holds. -/
theorem MgrInv.watch_ne (hmon : m.monitors.lookup q' = some mon) : q' ≠ q ∧ mon.id ≠ id := by
  obtain ⟨e, he, hr, _, hreg⟩ := h.launch hc
  obtain ⟨e', he', hr', _, hreg'⟩ := h.watch hmon
  have hq : q' ≠ q := by
    rintro rfl
    rw [he] at he'
    cases he'
    rw [hr] at hr'
    cases hr'
  refine ⟨hq, ?_⟩
  intro heq
  rw [heq, hreg] at hreg'
  cases hreg'
  exact hq rfl

theorem MgrInv.startFailed (he : m.heap.lookup q = some e) :
    MgrInv
      { m.setEntry q { e with ready := true, startErr := some f } with
        entries := m.entries.erase id,
        calls := m.calls.insert tid (.returned (some f)) } where
  fresh := h.fresh_setEntry he
  entry := by
    intro k q' hq
    exact setEntry_exists (h.entry (of_lookup_erase hq).2)
  launch := by
    intro t k q' ht
    obtain ⟨hold, hne, hk⟩ := h.readied hc ht
    obtain ⟨e', he', hr, hd, hq⟩ := h.launch hold
    refine ⟨e', ?_, hr, hd, ?_⟩
    · exact (lookup_setEntry hne).trans he'
    · exact (AList.lookup_erase_ne hk).trans hq
  owner := fun ht ht' => h.owner (h.readied hc ht).1 (h.readied hc ht').1
  watch := by
    intro q' mon hmon
    obtain ⟨hne, hk⟩ := h.watch_ne hc hmon
    obtain ⟨e', he', hr, hd, hq⟩ := h.watch hmon
    refine ⟨e', ?_, hr, hd, ?_⟩
    · exact (lookup_setEntry hne).trans he'
    · exact (AList.lookup_erase_ne hk).trans hq
  marks := fun hq hf => h.marks_setEntry he hq rfl hf
  closing := h.closing

theorem MgrInv.started (he : m.heap.lookup q = some e) :
    MgrInv
      { m.setEntry q { e with ready := true, startErr := none } with
        monitors := m.monitors.insert q ⟨id, .watching⟩,
        calls := m.calls.insert tid (.returned none) } where
  fresh := h.fresh_setEntry he
  entry := fun hq => setEntry_exists (h.entry hq)
  launch := by
    intro t k q' ht
    obtain ⟨hold, hne, _⟩ := h.readied hc ht
    obtain ⟨e', he', hr, hd, hq⟩ := h.launch hold
    exact ⟨e', (lookup_setEntry hne).trans he', hr, hd, hq⟩
  owner := fun ht ht' => h.owner (h.readied hc ht).1 (h.readied hc ht').1
  watch := by
    intro q' mon hmon
    rcases of_lookup_insert hmon with ⟨heq, rfl⟩ | ⟨hne, hmon⟩
    · obtain ⟨e', he', _, hd, hq⟩ := h.launch hc
      rw [he] at he'
      cases he'
      rw [heq]
      exact ⟨_, lookup_insert _, rfl, hd, hq⟩
    · obtain ⟨e', he', hr, hd, hq⟩ := h.watch hmon
      exact ⟨e', (lookup_setEntry hne).trans he', hr, hd, hq⟩
  marks := fun hq hf => h.marks_setEntry he hq rfl hf
  closing := by
    intro q' mon f hmon hpc
    rcases of_lookup_insert hmon with ⟨-, rfl⟩ | ⟨-, hmon⟩
    · cases hpc
    · exact h.closing hmon hpc

end Starting

/-- An entry that is done may leave the registry. -/
theorem MgrInv.forgotten (h : MgrInv m) (hreg : m.entries.lookup id = some q)
    (he : m.heap.lookup q = some e) (hdone : e.done = true) :
    MgrInv { m with entries := m.entries.erase id } := by
  have hkeep : ∀ {k q' e'}, m.heap.lookup q' = some e' → e'.done = false →
      m.entries.lookup k = some q' → (m.entries.erase id).lookup k = some q' := by
    intro k q' e' he' hd hq
    have hne : k ≠ id := by
      rintro rfl
      rw [hreg] at hq
      cases hq
      rw [he] at he'
      cases he'
      rw [hdone] at hd
      cases hd
    exact (AList.lookup_erase_ne hne).trans hq
  constructor
  case fresh => exact h.fresh
  case entry =>
    intro k q' hq
    exact h.entry (of_lookup_erase hq).2
  case launch =>
    intro t k q' ht
    obtain ⟨e', he', hr, hd, hq⟩ := h.launch ht
    exact ⟨e', he', hr, hd, hkeep he' hd hq⟩
  case owner => exact h.owner
  case watch =>
    intro q' mon hmon
    obtain ⟨e', he', hr, hd, hq⟩ := h.watch hmon
    exact ⟨e', he', hr, hd, hkeep he' hd hq⟩
  case marks => exact h.marks
  case closing => exact h.closing

/-- A section of a call keeps the invariant. -/
theorem MgrInv.run (h : MgrInv m) (hr : m.run p tid i = some m') : MgrInv m' := by
  obtain ⟨c, hc, hmap⟩ := bind_eq_some_iff.mp hr
  obtain ⟨⟨m₁, c'⟩, hadv, heq⟩ := map_eq_some_iff.mp hmap
  cases heq
  have hmove := advance_move hadv
  have hcall : (m.calls.lookup tid).bind Call.launchOf = c.launchOf := by rw [hc]; rfl
  cases hmove with
  | quiet hsame _ hq => exact (h.congr hsame).setCall (.inl hq.launchOf)
  | claimed hfree => exact h.claimed (h.entry_eq_none hfree)
  | launched =>
    exact MgrInv.setCall (h.congr ⟨rfl, rfl, rfl, rfl, fun _ => rfl⟩) (.inr hcall.symm)
  | startFailed he => exact h.startFailed hcall he
  | started he => exact h.started hcall he
  | forgotten hentry hdone =>
    obtain ⟨hreg, he⟩ := entry_some hentry
    exact (h.forgotten hreg he hdone).setCall (.inl rfl)

-- ===== monitors

variable {pc : MonitorPc} (h : MgrInv m) (hmon : m.monitors.lookup q = some mon)
include h hmon

/-- A monitor moves on. -/
theorem MgrInv.setMonitor (hpc : ∀ f, pc = .closing (some f) → Present f) :
    MgrInv { m with monitors := m.monitors.insert q { mon with pc := pc } } := by
  refine ⟨h.fresh, h.entry, h.launch, h.owner, ?_, h.marks, ?_⟩
  · intro q' mon' hq'
    rcases of_lookup_insert hq' with ⟨heq, rfl⟩ | ⟨-, hq'⟩
    · rw [heq]
      obtain ⟨e, he, hr, hd, hreg⟩ := h.watch hmon
      exact ⟨e, he, hr, hd, hreg⟩
    · exact h.watch hq'
  · intro q' mon' f hq' hclosing
    rcases of_lookup_insert hq' with ⟨-, rfl⟩ | ⟨-, hq'⟩
    · exact hpc f hclosing
    · exact h.closing hq' hclosing

theorem MgrInv.observe {code : UInt32} (ho : m.observe q mon code err = some m') : MgrInv m' := by
  unfold Manager.observe at ho
  split at ho
  · cases ho
  obtain ⟨e, he, heq⟩ := map_eq_some_iff.mp ho
  cases heq
  refine MgrInv.setMonitor (h.congr (sameRegistry_setEntry he rfl rfl rfl)) hmon ?_
  intro f hf
  split at hf <;> cases hf

theorem MgrInv.reported {reportErr : Option Fault} (hp : ∀ f, reportErr = some f → Present f) :
    MgrInv (m.reported q mon reportErr) := by
  refine h.setMonitor hmon fun f hf => ?_
  split at hf
  · cases hf
    exact hp f rfl
  · cases hf

theorem MgrInv.cleanup (hclean : m.cleanup q mon i = some m') : MgrInv m' := by
  unfold Manager.cleanup at hclean
  split at hclean
  next f hf =>
    cases hclean
    refine h.setMonitor hmon fun f' hf' => ?_
    cases hf'
    exact present_fault (by decide) hf
  split at hclean
  · cases hclean
  cases hclean
  have htasks : MgrInv { m with tasks := m.tasks.erase mon.id } :=
    h.congr ⟨rfl, rfl, rfl, rfl, fun _ => rfl⟩
  refine htasks.setMonitor hmon fun f hf => ?_
  cases hf

theorem MgrInv.finish (hpc : mon.pc = .closing err) (hf : m.finish q err = some m') :
    MgrInv m' := by
  obtain ⟨e, he, heq⟩ := map_eq_some_iff.mp hf
  cases heq
  constructor
  case fresh => exact h.fresh_setEntry he
  case entry => exact fun hq => setEntry_exists (h.entry hq)
  case launch =>
    intro t k q' ht
    obtain ⟨e', he', hr, hd, hq⟩ := h.launch ht
    have hne : q' ≠ q := (h.watch_ne ht hmon).1.symm
    exact ⟨e', (lookup_setEntry hne).trans he', hr, hd, hq⟩
  case owner => exact h.owner
  case watch =>
    intro q' mon' hq'
    obtain ⟨hne, hq'⟩ := of_lookup_erase hq'
    obtain ⟨e', he', hr, hd, hq⟩ := h.watch hq'
    exact ⟨e', (lookup_setEntry hne).trans he', hr, hd, hq⟩
  case marks =>
    intro q' e' f hq' hf'
    by_cases hq : q' = q
    · rw [hq] at hq'
      cases (lookup_insert _).symm.trans hq'
      exact h.closing hmon (hpc.trans (congrArg _ hf'))
    · exact h.marks ((lookup_setEntry hq).symm.trans hq') hf'
  case closing =>
    intro q' mon' f hq' hclosing
    exact h.closing (of_lookup_erase hq').2 hclosing

end R1s.Runtime
