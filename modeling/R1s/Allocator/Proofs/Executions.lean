/-
What the moves of a section do to the execution records: they leave them
all alone, or change exactly one of them.
-/
import R1s.Allocator.Proofs.LedgerRun

namespace R1s.Allocator

variable {cfg : Config} {w w' : World} {i : Input}

/-- The records are the same under every ID. -/
def SameExecutions (m m' : Mem) : Prop :=
  ∀ k, m'.executions.lookup k = m.executions.lookup k

/-- The record under `k` became `x'`, the others are the same. -/
def SetExecution (k : GoString) (x' : ExecutionRecord) (m m' : Mem) : Prop :=
  ∀ k', m'.executions.lookup k' = if k' = k then some x' else m.executions.lookup k'

theorem SameExecutions.refl (m : Mem) : SameExecutions m m := fun _ => rfl

variable {m : Mem}

theorem SameExecutions.of_eq {m' : Mem} (h : m'.executions = m.executions) :
    SameExecutions m m' := fun k => by rw [h]

theorem setExecution_set (m : Mem) (k : GoString) (x' : ExecutionRecord) :
    SetExecution k x' m (m.setExecution k x') := fun _ => AList.lookup_insert_if _ _ _ _

variable {x : ExecutionRecord}

variable {k : GoString}

/-- Writing a record over itself changes nothing. -/
theorem sameExecutions_rewrite (hx : m.executions.lookup k = some x) :
    SameExecutions m (m.setExecution k x) := by
  intro k'
  rw [setExecution_set m k x k']
  split
  next heq => rw [heq, hx]
  · rfl

/-- The record a finished execution gets, with the release of its slot
and the closing of its tunnel left aside. -/
theorem finish_set (m : Mem) (k : GoString) (x : ExecutionRecord) (phase : ExecutionPhase)
    (detail : GoString) (exitCode : Option Int) (now : Int) :
    SetExecution k (finishRecord cfg m.highWater x phase detail exitCode now) m
      (finish cfg k x phase detail exitCode now m) :=
  fun _ => AList.lookup_insert_if _ _ _ _

theorem effectiveNow_executions (now : Int) (m : Mem) :
    (effectiveNow now m).executions = m.executions := by
  unfold effectiveNow
  split <;> rfl

-- ===== the runtime's answers

/-- The record after the runtime answered a start. -/
def startedRecord (cfg : Config) (highWater : Int) (i : Input) (x : ExecutionRecord) :
    ExecutionRecord :=
  if x.phase = .starting then
    match i.fault with
    | some f => finishRecord cfg highWater x .failed f.text none i.now
    | none => { x with phase := .running, occurredAt := i.now, revision := x.revision + 1 }
  else x

variable {id : GoString}

theorem startReturned_set (hx : m.executions.lookup id = some x) (i : Input) :
    SetExecution id (startedRecord cfg m.highWater i x) m (startReturned cfg i id x m) := by
  intro k
  unfold startReturned startedRecord
  split
  · cases i.fault with
    | some f => exact finish_set _ _ _ _ _ _ _ k
    | none => exact setExecution_set _ _ _ k
  · split
    next heq => rw [heq, hx]
    · rfl

/-- The record after a stop that failed. -/
def unstopped (i : Input) (previous : ActivePhase) (detail : GoString) (x : ExecutionRecord) :
    ExecutionRecord :=
  if x.phase = .cancelling then
    { x with
      phase := previous.1, detail := detail, occurredAt := i.now, revision := x.revision + 1 }
  else x

/-- The record after a stop that went through. -/
def stopped (cfg : Config) (highWater : Int) (now : Int) (phase : ExecutionPhase)
    (detail : GoString) (x : ExecutionRecord) : ExecutionRecord :=
  if x.phase.terminal then x else finishRecord cfg highWater x phase detail none now

variable {detail : GoString}

theorem stopped_terminal {highWater now : Int} (phase : EndPhase) :
    (stopped cfg highWater now phase.1 detail x).phase.terminal = true := by
  unfold stopped
  split
  next hend => exact hend
  · exact phase.2

theorem stopFailed_set {previous : ActivePhase} (hx : m.executions.lookup id = some x) (i : Input) :
    SetExecution id (unstopped i previous detail x) m (stopFailed i id x previous detail m) := by
  intro k
  unfold stopFailed unstopped
  split
  · exact setExecution_set _ _ _ k
  · split
    next heq => rw [heq, hx]
    · rfl

theorem stopSucceeded_set {phase : ExecutionPhase} (hx : m.executions.lookup id = some x)
    (now : Int) :
    SetExecution id (stopped cfg m.highWater now phase detail x) m
      (stopSucceeded cfg now id x phase detail m) := by
  intro k
  unfold stopSucceeded stopped
  split
  · split
    next heq => rw [heq, hx]
    · rfl
  · exact finish_set _ _ _ _ _ _ _ k

-- ===== completions, sweeps

/-- A completion ends one live record, or changes nothing. -/
theorem runtimeCompleted_executions (i : Input) (c : Completion) (w : World) :
    SameExecutions w.mem (runtimeCompleted cfg i c w).1.mem ∨
    ∃ x, w.mem.executions.lookup c.executionID = some x ∧ x.phase.terminal = false
      ∧ SetExecution c.executionID
          (finishRecord cfg w.mem.highWater x c.phase c.text c.exitCode i.now) w.mem
          (runtimeCompleted cfg i c w).1.mem := by
  rcases runtimeCompleted_cases i c w with heq | ⟨x, -, hx, hlive, hp | ⟨-, heq⟩⟩
  · rw [heq]
    exact .inl (.refl _)
  · refine .inr ⟨x, hx, hlive, fun k => ?_⟩
    rw [persist_mem hp]
    exact finish_set _ _ _ _ _ _ _ k
  · rw [heq]
    exact .inl (sameExecutions_rewrite hx)

theorem collectOffer_executions {now : Int} {busy : List GoString}
    {entry : Σ _ : GoString, OfferRecord}
    (h : (collectOffer now busy m entry).executions.lookup k = some x) :
    m.executions.lookup k = some x := by
  unfold collectOffer at h
  split at h
  · exact h
  obtain ⟨-, h⟩ := AList.of_lookup_erase h
  exact h

/-- The collection loop only drops records. -/
theorem sweepCollected_executions
    (h : (sweepCollected m).executions.lookup k = some x) : m.executions.lookup k = some x :=
  sweepCollected_rule (P := fun m' => m'.executions.lookup k = some x → _) id
    (fun hm' _ _ h' => hm' (collectOffer_executions h')) h

/-- A sweep only drops records. -/
theorem sweep_executions {now : Int}
    (h : (sweepDropped (sweepCollected (sweepReady cfg now m))).executions.lookup k = some x) :
    m.executions.lookup k = some x := by
  have hready := sweepCollected_executions h
  change (effectiveNow now m).executions.lookup k = some x at hready
  rwa [effectiveNow_executions] at hready

theorem sweepExpired_executions (i : Input) (w : World) :
    (sweepExpired cfg i w).mem.executions = w.mem.executions := by
  unfold sweepExpired
  split
  · rfl
  · rw [tryPersist_mem]
    rfl

end R1s.Allocator
