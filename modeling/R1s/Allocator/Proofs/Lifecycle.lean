/-
The life of one execution record in one process: it is created STARTING
with revision 1, each later section leaves its state alone or moves it to
the next revision, and nothing but the sweep touches it once it is
terminal. A revision is a 64-bit number that nothing keeps from wrapping,
so it is compared along a run by the changes in between (`changes`).

# Two levels

`RecordStep` says what each section does to a record, point by point.
`RecordMove` forgets the points: it is all a property of whole lives
needs, and the completions are in it too. `Outlived` is what a run of
one process makes of it.
-/
import R1s.Allocator.Proofs.Frames
import R1s.Allocator.Proofs.Phases

namespace R1s.Allocator

variable {cfg : Config} {s t : System cfg}

-- ===== record moves

/-- The two records announce the same state. -/
structure SameState (x x' : ExecutionRecord) : Prop where
  id : x'.id = x.id
  phase : x'.phase = x.phase
  detail : x'.detail = x.detail
  exitCode : x'.exitCode = x.exitCode
  occurredAt : x'.occurredAt = x.occurredAt
  revision : x'.revision = x.revision
  released : x'.released = x.released

/-- The next revision of a record that is not terminal. -/
structure NextState (x x' : ExecutionRecord) : Prop where
  live : x.phase.terminal = false
  id : x'.id = x.id
  revision : x'.revision = x.revision + 1
  released : x.released = x.phase.terminal → x'.released = x'.phase.terminal

/-- What a step of a process does to the record under a key. -/
inductive RecordMove : Option ExecutionRecord → Option ExecutionRecord → Prop
  | absent : RecordMove none none
  | created {x} (hphase : x.phase = .starting) (hrevision : x.revision = 1)
      (hreleased : x.released = false) : RecordMove none (some x)
  | kept {x x'} (h : SameState x x') : RecordMove (some x) (some x')
  | advanced {x x'} (h : NextState x x') : RecordMove (some x) (some x')
  | collected {x} (h : x.phase.terminal = true) : RecordMove (some x) none

theorem SameState.refl (x : ExecutionRecord) : SameState x x := ⟨rfl, rfl, rfl, rfl, rfl, rfl, rfl⟩

theorem RecordMove.same (o : Option ExecutionRecord) : RecordMove o o := by
  cases o with
  | none => exact .absent
  | some x => exact .kept (.refl x)

variable {x : ExecutionRecord}

/-- Ending a live record. -/
theorem nextState_finish (hlive : x.phase.terminal = false) {phase : ExecutionPhase}
    (hphase : phase.terminal = true) (highWater now : Int) (detail : GoString)
    (exitCode : Option Int) :
    NextState x (finishRecord cfg highWater x phase detail exitCode now) :=
  ⟨hlive, rfl, rfl, fun _ => hphase.symm⟩

variable {x' : ExecutionRecord}

/-- Moving a live record to another live phase. -/
theorem nextState_live (hlive : x.phase.terminal = false) (hlive' : x'.phase.terminal = false)
    (hid : x'.id = x.id) (hrevision : x'.revision = x.revision + 1)
    (hreleased : x'.released = x.released) : NextState x x' := by
  refine ⟨hlive, hid, hrevision, ?_⟩
  intro h
  rw [hreleased, h, hlive, hlive']

theorem recordMove_started (highWater : Int) (i : Input) (x : ExecutionRecord) :
    RecordMove (some x) (some (startedRecord cfg highWater i x)) := by
  unfold startedRecord
  split
  next hphase =>
    have hlive : x.phase.terminal = false := by
      rw [hphase]
      rfl
    split
    · exact .advanced (nextState_finish hlive rfl highWater i.now _ none)
    · exact .advanced (nextState_live hlive rfl rfl rfl rfl)
  · exact .same _

theorem recordMove_unstopped (i : Input) (previous : ActivePhase) (detail : GoString)
    (x : ExecutionRecord) : RecordMove (some x) (some (unstopped i previous detail x)) := by
  unfold unstopped
  split
  next hphase =>
    have hlive : x.phase.terminal = false := by
      rw [hphase]
      rfl
    exact .advanced (nextState_live hlive previous.2.1 rfl rfl rfl)
  · exact .same _

theorem recordMove_stopped (highWater now : Int) (phase : EndPhase) (detail : GoString)
    (x : ExecutionRecord) :
    RecordMove (some x) (some (stopped cfg highWater now phase.1 detail x)) := by
  unfold stopped
  split
  · exact .same _
  next hlive =>
    exact .advanced (nextState_finish (by simpa using hlive) phase.2 highWater now detail none)

variable {k : GoString}

theorem RecordStep.move {pc : Pc cfg} {i : Input} {next : Next cfg} {highWater : Int}
    {o o' : Option ExecutionRecord} (h : RecordStep pc i next highWater k o o') :
    RecordMove o o' := by
  cases h with
  | same => exact .same _
  | assigned => exact .created rfl rfl rfl
  | started => exact recordMove_started highWater i _
  | cancelling hactive => exact .advanced (nextState_live hactive.1 rfl rfl rfl rfl)
  | unstopped => exact recordMove_unstopped i _ _ _
  | stopped phase | recovered phase => exact recordMove_stopped highWater i.now phase _ _
  | reattached _ hphase =>
    refine .advanced (nextState_live ?_ rfl rfl rfl rfl)
    rw [hphase]
    rfl
  | renewed => exact .kept ⟨rfl, rfl, rfl, rfl, rfl, rfl, rfl⟩
  | collected _ hend => exact .collected hend

/-- Every step of a process. -/
theorem step_recordMove {l : Label cfg} (hw : LedgerWorld cfg s.world)
    (hl : l.isRestart = false) (h : s.step l = some t) (k : GoString) :
    RecordMove (s.world.mem.executions.lookup k) (t.world.mem.executions.lookup k) := by
  cases step_move hl h with
  | run hpc hr => exact (advance_record hw hr k).move
  | completed c i =>
    rcases runtimeCompleted_executions i c s.world with hsame | ⟨x, hx, hlive, hset⟩
    · show RecordMove _ ((runtimeCompleted cfg i c s.world).1.mem.executions.lookup k)
      rw [hsame k]
      exact .same _
    · show RecordMove _ ((runtimeCompleted cfg i c s.world).1.mem.executions.lookup k)
      rw [hset k]
      split
      next hk =>
        rw [hk, hx]
        exact .advanced (nextState_finish hlive c.phase_terminal _ i.now c.text c.exitCode)
      · exact .same _
  | entered => exact .same _
  | quiet hsame =>
    rw [hsame]
    exact .same _

-- ===== the revisions

theorem max_one_revision {r : UInt64} (h : r ≠ 0) : max 1 r = r := by
  have hpos : r.toNat ≠ 0 := fun h0 => h (UInt64.toNat_inj.mp h0)
  refine if_pos (UInt64.le_iff_toNat_le.mpr ?_)
  exact Nat.one_le_iff_ne_zero.mpr hpos

theorem toNat_next_revision {r : UInt64} (h : r + 1 ≠ 0) : (r + 1).toNat = r.toNat + 1 := by
  have hne : (r + 1).toNat ≠ 0 := fun h0 => h (UInt64.toNat_inj.mp h0)
  have hr := r.toNat_lt
  rw [UInt64.toNat_add, UInt64.toNat_one] at hne ⊢
  omega

-- ===== the records

/-- A record is released when it is terminal. -/
def Orderly (x : ExecutionRecord) : Prop := x.released = x.phase.terminal

theorem RecordMove.orderly {o : Option ExecutionRecord} (h : RecordMove o (some x'))
    (ho : ∀ x, o = some x → Orderly x) : Orderly x' := by
  cases h with
  | created hphase hrevision hreleased =>
    rw [Orderly, hreleased, hphase]
    rfl
  | kept hsame =>
    rw [Orderly, hsame.released, hsame.phase]
    exact ho _ rfl
  | advanced hnext => exact hnext.released (ho _ rfl)

/-- A loaded record passed the loader's checks. -/
theorem orderly_loaded {granted now : Int} {snap : Snapshot} {m : Mem}
    (h : load cfg granted now snap = .ok m) (hx : m.executions.lookup k = some x) : Orderly x := by
  obtain ⟨index, executions, used, -, hexecs, -, rfl⟩ := load_ok h
  obtain ⟨saved, -, -, -, hreleased, rfl⟩ := (lookup_loadExecutions hexecs k x).mp hx
  exact hreleased.symm

theorem orderly_reachable (hs : (machine cfg).Reach s)
    (hx : s.world.mem.executions.lookup k = some x) : Orderly x := by
  have hinv : ∀ k x, s.world.mem.executions.lookup k = some x → Orderly x := by
    refine machine_invariant
      (I := fun s => ∀ k x, s.world.mem.executions.lookup k = some x → Orderly x) ?_ ?_ ?_ hs
    · intro k x hx
      cases hx
    · intro s l t hs ih _ hl hstep k x hx
      have hmove := step_recordMove (ledgerWorld_reachable hs) hl hstep k
      rw [hx] at hmove
      exact hmove.orderly (ih k)
    · intro s t granted now _ _ _ hstep k x hx
      obtain ⟨-, hload, -, -⟩ := restart_step hstep
      obtain ⟨-, hempty⟩ | ⟨snap, -, hload⟩ := hload
      · rw [hempty] at hx
        cases hx
      · exact orderly_loaded hload hx
  exact hinv k x hx

-- ===== the lives

/-- The step leaves the process up and finds the execution there. -/
abbrev livesOn (id : GoString) (s : System cfg) (l : Label cfg) : Prop :=
  l.isRestart = false ∧ (s.world.mem.executions.lookup id).isSome = true

/-- The changes of the record so far, with those of the step. -/
def changes (id : GoString) (s : System cfg) (_ : Label cfg) (t : System cfg) (n : Nat) : Nat :=
  if (t.world.mem.executions.lookup id).map ExecutionRecord.revision =
      (s.world.mem.executions.lookup id).map ExecutionRecord.revision then n
  else n + 1

/-- What became of a record along a run with `n` changes of it. -/
structure Outlived (n : Nat) (x x' : ExecutionRecord) : Prop where
  revision : x'.revision = x.revision + UInt64.ofNat n
  same : n = 0 → SameState x x'
  terminal : x.phase.terminal = true → n = 0

theorem Outlived.refl (x : ExecutionRecord) : Outlived 0 x x :=
  ⟨(UInt64.add_zero _).symm, fun _ => .refl x, fun _ => rfl⟩

theorem SameState.trans {x'' : ExecutionRecord} (h : SameState x x') (h' : SameState x' x'') :
    SameState x x'' where
  id := h'.id.trans h.id
  phase := h'.phase.trans h.phase
  detail := h'.detail.trans h.detail
  exitCode := h'.exitCode.trans h.exitCode
  occurredAt := h'.occurredAt.trans h.occurredAt
  revision := h'.revision.trans h.revision
  released := h'.released.trans h.released

theorem Outlived.move {n : Nat} {x'' : ExecutionRecord} (h : Outlived n x x')
    (hm : RecordMove (some x') (some x'')) :
    Outlived (if some x''.revision = some x'.revision then n else n + 1) x x'' := by
  cases hm with
  | kept hsame =>
    rw [if_pos (congrArg some hsame.revision)]
    exact ⟨hsame.revision.trans h.revision, fun hn => (h.same hn).trans hsame, h.terminal⟩
  | advanced hnext =>
    have hne : x''.revision ≠ x'.revision := by
      rw [hnext.revision]
      simp
    rw [if_neg fun heq => hne (Option.some.inj heq)]
    refine ⟨?_, nofun, ?_⟩
    · rw [hnext.revision, h.revision, UInt64.add_assoc, UInt64.ofNat_add]
      rfl
    · intro hend
      -- A terminal record is still the same, and has no next revision.
      have hsame := h.same (h.terminal hend)
      have hlive := hnext.live
      rw [hsame.phase, hend] at hlive
      cases hlive

/-- A record that changed has a greater revision, up to the wrap. -/
theorem Outlived.grown {n : Nat} (h : Outlived n x x') (hn : n ≠ 0)
    (hwrap : x.revision.toNat + n < 2 ^ 64) : x.revision < x'.revision := by
  rw [UInt64.lt_iff_toNat_lt, h.revision, UInt64.toNat_add, UInt64.toNat_ofNat']
  omega

/-- Along a run of one process that does not drop the execution. -/
theorem outlived_run {id : GoString} (hs : (machine cfg).Reach s) {t : System cfg × Nat}
    (ht : (((machine cfg).startAt s).observe 0 (changes id)).ReachWhen
      (fun u l => livesOn id u.1 l) t)
    (hx : s.world.mem.executions.lookup id = some x) :
    ∀ x', t.1.world.mem.executions.lookup id = some x' → Outlived t.2 x x' := by
  refine ht.observed (I := fun t n =>
    ∀ x', t.world.mem.executions.lookup id = some x' → Outlived n x x') ?_ ?_
  · rintro _ rfl x' hx'
    cases hx.symm.trans hx'
    exact .refl x
  · rintro u l v n hu - ih ⟨hl, hthere⟩ hstep x' hx'
    obtain ⟨y, hy⟩ := Option.isSome_iff_exists.mp hthere
    have hw := ledgerWorld_reachable (TransitionSystem.reach_startAt hs hu)
    have hmove := step_recordMove hw hl hstep id
    rw [hy, hx'] at hmove
    have hlife := (ih y hy).move hmove
    rw [changes, hx', hy]
    exact hlife

/-- Between two moments of one process an execution is released exactly
when it is terminal, a terminal one keeps its state, and a phase that
changed has a greater revision: as long as the revisions from 1 on are
fewer than there are 64-bit numbers, where `n` counts the changes of the
record between the two moments. -/
theorem execution_states_settle (cfg : Config) {s t : System cfg} (id : GoString) {n : Nat}
    {x x' : ExecutionRecord} (hs : (machine cfg).Reach s)
    (ht : (((machine cfg).startAt s).observe 0 (changes id)).ReachWhen
      (fun u l => livesOn id u.1 l) (t, n))
    (hx : s.world.mem.executions.lookup id = some x)
    (hx' : t.world.mem.executions.lookup id = some x') :
    (x'.released = true ↔ x'.phase.terminal = true) ∧
      (x.phase.terminal = true →
        x'.phase = x.phase ∧ x'.detail = x.detail ∧ x'.exitCode = x.exitCode ∧
          x'.revision = x.revision) ∧
      (x.revision.toNat + n < 2 ^ 64 → x'.phase ≠ x.phase → x.revision < x'.revision) := by
  have hlife := outlived_run hs ht hx x' hx'
  have hreach := TransitionSystem.reach_startAt hs (TransitionSystem.reach_of_observe ht)
  refine ⟨by rw [orderly_reachable hreach hx'], ?_, ?_⟩
  · intro hend
    have hsame := hlife.same (hlife.terminal hend)
    exact ⟨hsame.phase, hsame.detail, hsame.exitCode, hsame.revision⟩
  · intro hwrap hphase
    refine hlife.grown ?_ hwrap
    intro hn
    exact hphase (hlife.same hn).phase

/-- The sample execution, assigned. -/
def assignedState : System oneSlot :=
  (machine oneSlot).runTo (System.initial oneSlot) (requestRun ++ assignRun)

/-- From STARTING to CANCELLED, in three changes. -/
theorem cancelled_execution_settles :
    ∃ t x x',
      (((machine oneSlot).startAt assignedState).observe 0 (changes (text "x"))).ReachWhen
        (fun u l => livesOn (text "x") u.1 l) (t, 3) ∧
      assignedState.world.mem.executions.lookup (text "x") = some x ∧
      t.world.mem.executions.lookup (text "x") = some x' ∧
      x.revision.toNat + 3 < 2 ^ 64 ∧ x'.phase ≠ x.phase ∧
      (x'.released = true ↔ x'.phase.terminal = true) ∧ x.revision < x'.revision := by
  have hs : (machine oneSlot).Reach assignedState :=
    TransitionSystem.reach_runTo rfl (by decide +kernel)
  obtain ⟨⟨t, n⟩, ht, hn, hp⟩ := (((machine oneSlot).startAt assignedState).observe 0
      (changes (text "x"))).exists_reachWhen (fun u l => livesOn (text "x") u.1 l)
    (.observe rfl) (answerRun 1 none ++ cancelRun ++ answerRun 2 none)
    (fun t => t.2 = 3 ∧ ((t.1.world.mem.executions.lookup (text "x")).map
      ExecutionRecord.phase) = some .cancelled) (by decide +kernel)
  subst hn
  have hfirst : (assignedState.world.mem.executions.lookup (text "x")).map
      (fun x => (x.phase, x.revision)) = some (.starting, 1) := by decide +kernel
  obtain ⟨x, hx, hstarting⟩ := Option.map_eq_some_iff.mp hfirst
  obtain ⟨hphase, hrevision⟩ := Prod.mk.inj hstarting
  obtain ⟨x', hx', hcancelled⟩ := Option.map_eq_some_iff.mp hp
  have hne : x'.phase ≠ x.phase := by
    rw [hphase, hcancelled]
    decide
  have hwrap : x.revision.toNat + 3 < 2 ^ 64 := by
    rw [hrevision]
    decide
  obtain ⟨hreleased, -, hgrown⟩ :=
    execution_states_settle oneSlot (text "x") hs ht hx hx'
  exact ⟨t, x, x', ht, hx, hx', hwrap, hne, hreleased, hgrown hwrap hne⟩

end R1s.Allocator
