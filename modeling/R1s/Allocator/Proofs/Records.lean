/-
What one step does to one execution record, said once for every property
of records.

# The relation

`RecordStep` lists the ways a section of a call changes the record under
a key: the assignment creates it, the runtime's answers advance or end
it, a renewal moves its lease, a sweep drops it. Every constructor names
the point the call stood at, so a proof about records is one case split
here instead of one per section.
-/
import R1s.Allocator.Proofs.Turns

namespace R1s.Allocator

variable {cfg : Config} {s : System cfg} {w w' : World} {i : Input}

-- ===== record steps

/-- What a section of a call at `pc` does to the record under `k`. -/
inductive RecordStep (pc : Pc cfg) (i : Input) (next : Next cfg) (highWater : Int)
    (k : GoString) : Option ExecutionRecord → Option ExecutionRecord → Prop
  /-- The section is about another execution, or the record is gone. -/
  | same {o} (h : o = none ∨ pc.startOf ≠ some k ∧ ∀ p, pc.stopOf ≠ some (k, p)) :
      RecordStep pc i next highWater k o o
  | assigned {e q offer} (hpc : pc = .handling e) (hq : e.1.payload = some (.executionAssign q))
      (hk : q.executionID = k) (hnext : next = .goto (.starting e k)) :
      RecordStep pc i next highWater k none (some (assignRecord cfg i q offer))
  | started {e x} (hpc : pc = .starting e k) :
      RecordStep pc i next highWater k (some x) (some (startedRecord cfg highWater i x))
  | cancelling {x detail now} (hactive : x.phase.terminal = false ∧ x.phase ≠ .cancelling)
      (hpc : pc.startOf = none ∧ pc.stopOf = none)
      (hnext : next.pc.bind Pc.stopOf = some (k, ⟨x.phase, hactive⟩)) :
      RecordStep pc i next highWater k (some x) (some (cancelling x detail now))
  | unstopped {x previous detail} (hpc : pc.stopOf = some (k, previous))
      (hfails : pc.stopFails i = true) :
      RecordStep pc i next highWater k (some x) (some (unstopped i previous detail x))
  | stopped {x previous detail} (phase : EndPhase) (hpc : pc.stopOf = some (k, previous))
      (hok : pc.stopFails i = false) :
      RecordStep pc i next highWater k (some x)
        (some (stopped cfg highWater i.now phase.1 detail x))
  | recovered {x detail} (phase : EndPhase) (hpc : pc.recovers = true) :
      RecordStep pc i next highWater k (some x)
        (some (stopped cfg highWater i.now phase.1 detail x))
  | reattached {ids x} (hpc : pc = .reattaching ids k) (hx : x.phase = .starting) :
      RecordStep pc i next highWater k (some x)
        (some { x with phase := .running, occurredAt := i.now, revision := x.revision + 1 })
  | renewed {e q x until_} (hpc : pc = .handling e)
      (hq : e.1.payload = some (.executionLeaseRenew q)) (hk : q.executionID = k)
      (hclient : x.client = e.1.sender) (hlive : x.phase.terminal = false) :
      RecordStep pc i next highWater k (some x) (some { x with leaseUntil := until_ })
  | collected {err x} (hpc : pc = .collecting err) (hend : x.phase.terminal = true) :
      RecordStep pc i next highWater k (some x) none

variable {pc : Pc cfg} {next : Next cfg} {clock : Int}

theorem Turn.recordStep {k : GoString} {o o' : Option ExecutionRecord}
    (h : Turn pc i next clock w' k o o') : RecordStep pc i next clock k o o' := by
  cases h with
  | same h => exact .same h
  | assigned hpc hq hk hnext => exact .assigned hpc hq hk hnext
  | started hpc => exact .started hpc
  | cancelled hactive hpc hq hk hnext | evicted hactive hpc hlapsed hnext =>
    subst hpc hnext
    exact .cancelling hactive ⟨rfl, rfl⟩ rfl
  | unstopped hpc hfails => exact .unstopped hpc hfails
  | stopped hpc hok =>
    subst hpc
    exact .stopped ⟨.cancelled, rfl⟩ rfl (congrArg Option.isSome hok)
  | evictStopped hpc hok =>
    subst hpc
    exact .stopped ⟨.failed, rfl⟩ rfl hok
  | @recoverStopped ids phase detail x hpc =>
    subst hpc
    exact .recovered phase rfl
  | lost hpc hf =>
    subst hpc
    exact .recovered ⟨.failed, rfl⟩ rfl
  | reattached hpc hx => exact .reattached hpc hx
  | renewed hpc hq hk hclient hactive hnext hsaved =>
    exact .renewed hpc hq hk hclient hactive.1
  | collected hpc hend hsaved => exact .collected hpc hend

/-- Every section of every call. -/
theorem advance_record {tid : Nat} (hw : LedgerWorld cfg w)
    (h : advance tid pc i w = some (w', next)) (k : GoString) :
    RecordStep pc i next w.mem.highWater k (w.mem.executions.lookup k)
      (w'.mem.executions.lookup k) :=
  (advance_turn hw h k).recordStep

/-- A call that goes on to a start has created the record. -/
theorem handle_starts {e : Inbound cfg} {id : GoString}
    (h : handle i e w = some (w', .goto (.starting e id))) :
    ∃ q offer, e.1.payload = some (.executionAssign q) ∧ q.executionID = id
      ∧ w.mem.executions.lookup id = none
      ∧ w'.mem.executions.lookup id = some (assignRecord cfg i q offer) := by
  obtain ⟨q, r, ha, rfl, hl⟩ := handle_assigns h
  refine ⟨q, r, ha.payload, rfl, ha.fresh, ?_⟩
  rw [hl.mem]
  exact AList.lookup_insert _

-- ===== system steps

/-- The steps of a process: a section of a call, a completion, a call
that enters, or a section that touches no record and no call. -/
inductive Move (s : System cfg) : Label cfg → System cfg → Prop
  | run {tid pc i r} (hpc : s.threads.lookup tid = some pc)
      (hr : advance tid pc i s.world = some r) : Move s (.run tid i) (s.resume tid pc i r)
  | completed (c : Completion) (i : Input) :
      Move s (.completed c i) { s with world := (runtimeCompleted cfg i c s.world).1 }
  | entered {l tid pc} (hfree : s.threads.lookup tid = none) (hpc : pc.entry = true) :
      Move s l { s with threads := s.threads.insert tid pc }
  | quiet {l w} (hsame : w.mem.executions = s.world.mem.executions) :
      Move s l { s with world := w }

theorem spawn_move {t : System cfg} {l : Label cfg} {tid : Nat} {pc : Pc cfg}
    (hpc : pc.entry = true) (h : s.spawn tid pc = some t) : Move s l t := by
  unfold System.spawn at h
  split at h
  case isTrue => cases h
  case isFalse hfree =>
    cases h
    exact .entered (by simpa using hfree) hpc

theorem step_move {t : System cfg} {l : Label cfg} (hl : l.isRestart = false)
    (h : s.step l = some t) : Move s l t := by
  cases l with
  | call | sweep | evictLeases | recover | openTunnel => exact spawn_move rfl h
  | closeTunnel session =>
    cases h
    exact .quiet rfl
  | run tid i =>
    obtain ⟨pc, r, hpc, hr, rfl⟩ := run_step h
    exact .run hpc hr
  | completed c i =>
    cases h
    exact .completed c i
  | expire i =>
    cases h
    exact .quiet (sweepExpired_executions i s.world)
  | view now =>
    cases h
    exact .quiet rfl
  | restart granted now => cases hl

end R1s.Allocator
