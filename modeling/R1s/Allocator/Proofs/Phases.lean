/-
The phase of an execution between calls: STARTING and CANCELLING stand
only while the call that will leave them is in progress.

# Where it fails

A stop captures the phase it found and a failed stop restores it. When
the assignment's start returns between the two, it finds CANCELLING and
advances nothing; the failed stop then restores STARTING although no
start is left to end it (`stop_restores_starting`).

# Where it holds

`phases_settle`: as long as a failed stop that captured STARTING finds
the start still in progress, every record without a call in progress is
RUNNING or terminal. A STARTING record has its start in progress and a
CANCELLING record its stop (`PhaseInv`).
-/
import R1s.Allocator.Proofs.Records

namespace R1s.Allocator

variable {cfg : Config} {s : System cfg} {w w' : World} {i : Input}

-- ===== the coverage

/-- The phase is settled, or the call that will leave it is in
progress. -/
structure Covered (s : System cfg) (k : GoString) (phase : ExecutionPhase) : Prop where
  known : phase ≠ .unspecified
  starting : phase = .starting → s.Starts k
  cancelling : phase = .cancelling → s.Stops k

/-- Every record is covered, and a captured phase is a phase a record
had. -/
structure PhaseInv (s : System cfg) : Prop where
  covered : ∀ {k x}, s.world.mem.executions.lookup k = some x → Covered s k x.phase
  captured : ∀ {t id previous}, (s.threads.lookup t).bind Pc.stopOf = some (id, previous) →
    previous.1 ≠ .unspecified

theorem Covered.running (s : System cfg) (k : GoString) : Covered s k .running :=
  ⟨nofun, nofun, nofun⟩

variable {phase : ExecutionPhase}

theorem Covered.terminal (s : System cfg) (k : GoString) (h : phase.terminal = true) :
    Covered s k phase := by
  refine ⟨?_, ?_, ?_⟩
  all_goals
    intro hp
    rw [hp] at h
    cases h

variable {k : GoString}

/-- Coverage is about the calls only. -/
theorem Covered.setWorld (h : Covered s k phase) (w : World) :
    Covered { s with world := w } k phase :=
  ⟨h.known, h.starting, h.cancelling⟩

variable {pc : Pc cfg} {tid : Nat}

/-- A start in progress stays so unless its own call moves. -/
theorem System.Starts.resume (h : s.Starts k) (hpc : s.threads.lookup tid = some pc)
    (hne : pc.startOf ≠ some k) (i : Input) (r : World × Next cfg) :
    (s.resume tid pc i r).Starts k := by
  obtain ⟨t, ht⟩ := h
  have htid : t ≠ tid := by
    intro heq
    rw [heq, hpc] at ht
    exact hne ht
  refine ⟨t, ?_⟩
  rw [resume_other Pc.startOf (fun _ _ _ => rfl) s htid]
  exact ht

/-- A stop in progress stays so unless its own call moves. -/
theorem System.Stops.resume (h : s.Stops k) (hpc : s.threads.lookup tid = some pc)
    (hne : ∀ p, pc.stopOf ≠ some (k, p)) (i : Input) (r : World × Next cfg) :
    (s.resume tid pc i r).Stops k := by
  obtain ⟨t, previous, ht⟩ := h
  have htid : t ≠ tid := by
    intro heq
    rw [heq, hpc] at ht
    exact hne previous ht
  refine ⟨t, previous, ?_⟩
  rw [resume_other Pc.stopOf (fun _ _ _ => rfl) s htid]
  exact ht

theorem Covered.resume (h : Covered s k phase) (hpc : s.threads.lookup tid = some pc)
    (hstart : phase = .starting → pc.startOf ≠ some k)
    (hstop : phase = .cancelling → ∀ p, pc.stopOf ≠ some (k, p)) (i : Input)
    (r : World × Next cfg) : Covered (s.resume tid pc i r) k phase where
  known := h.known
  starting := fun hp => (h.starting hp).resume hpc (hstart hp) i r
  cancelling := fun hp => (h.cancelling hp).resume hpc (hstop hp) i r

-- ===== one section

/-- A call that goes on to a stop captured the phase of a record. -/
theorem advance_stops {next : Next cfg} {id : GoString} {previous : ActivePhase}
    (h : advance tid pc i w = some (w', next))
    (hnext : next.pc.bind Pc.stopOf = some (id, previous)) :
    ∃ k x, w.mem.executions.lookup k = some x ∧ previous.1 = x.phase := by
  obtain ⟨pc', hpc', hstop⟩ := Option.bind_eq_some_iff.mp hnext
  obtain rfl := Next.pc_eq_some.mp hpc'
  cases advance_condemns h hstop with
  | cancelled hactive hpc hq hx | evicted hactive hpc hx =>
    cases hstop
    exact ⟨_, _, hx, rfl⟩

/-- A failed stop that captured STARTING finds the start in progress, if
the record still waits for the stop. -/
def System.stopInOrder (s : System cfg) : Label cfg → Bool
  | .run tid i =>
    (s.threads.lookup tid).all fun pc =>
      pc.stopOf.all fun stop =>
        !pc.stopFails i || stop.2.1 ≠ .starting
          || (s.world.mem.executions.lookup stop.1).all (fun x => x.phase ≠ .cancelling)
          || s.threads.any fun _ other => other.startOf = some stop.1
  | _ => true

theorem starts_of_any {id : GoString}
    (h : (s.threads.any fun _ pc => decide (pc.startOf = some id)) = true) : s.Starts id := by
  obtain ⟨t, pc, hpc, hid⟩ := AList.any_eq_true.mp h
  refine ⟨t, ?_⟩
  rw [hpc]
  simpa using hid

theorem startOf_of_stopOf {stop : GoString × ActivePhase} (h : pc.stopOf = some stop) :
    pc.startOf = none := by
  cases pc <;> first | rfl | cases h

/-- One section keeps every record covered. -/
theorem PhaseInv.run {next : Next cfg} (h : PhaseInv s) (hw : LedgerWorld cfg s.world)
    (hpc : s.threads.lookup tid = some pc) (hr : advance tid pc i s.world = some (w', next))
    (hok : s.stopInOrder (.run tid i) = true) : PhaseInv (s.resume tid pc i (w', next)) where
  covered := by
    intro k x' hx'
    have hstep := advance_record hw hr k
    have hx₁ : w'.mem.executions.lookup k = some x' := hx'
    rw [hx₁] at hstep
    cases hx : s.world.mem.executions.lookup k with
    | none =>
      rw [hx] at hstep
      cases hstep with
      | assigned he hq hk hnext =>
        refine ⟨nofun, fun _ => ⟨tid, ?_⟩, nofun⟩
        rw [resume_self, hnext]
        rfl
    | some x =>
      have hcov := h.covered hx
      rw [hx] at hstep
      cases hstep with
      | same hother =>
        rcases hother with hnone | ⟨hstart, hstop⟩
        · cases hnone
        · exact hcov.resume hpc (fun _ => hstart) (fun _ => hstop) i _
      | started he =>
        unfold startedRecord
        split
        · cases i.fault with
          | some f => exact Covered.terminal _ _ rfl
          | none => exact Covered.running _ _
        next hphase =>
          refine hcov.resume hpc (fun hp => absurd hp hphase) (fun _ p hp => ?_) i _
          rw [he] at hp
          cases hp
      | cancelling hactive hidle hnext =>
        refine ⟨nofun, nofun, fun _ => ⟨tid, ⟨x.phase, hactive⟩, ?_⟩⟩
        rw [resume_self]
        exact hnext
      | @unstopped _ previous detail hstop hfails =>
        have hstart : ∀ {id}, pc.startOf ≠ some id := by
          intro id
          rw [startOf_of_stopOf hstop]
          exact nofun
        unfold unstopped
        split
        next hphase =>
          -- The captured phase comes back: STARTING only with its start.
          have hcaptured : (s.threads.lookup tid).bind Pc.stopOf = some (k, previous) := by
            rw [hpc]
            exact hstop
          refine ⟨h.captured hcaptured, fun hp => ?_, fun hp => ?_⟩
          · have hprevious : previous.1 = .starting := hp
            have hstarts : s.Starts k := by
              apply starts_of_any
              simpa [System.stopInOrder, hpc, hstop, hfails, hx, hphase, hprevious]
                using hok
            exact hstarts.resume hpc hstart i _
          · exact absurd hp previous.2.2
        next hphase =>
          exact hcov.resume hpc (fun _ => hstart) (fun hp => absurd hp hphase) i _
      | stopped phase _ _ | recovered phase _ => exact Covered.terminal _ _ (stopped_terminal phase)
      | reattached he hphase => exact Covered.running _ _
      | renewed he hq hk hclient hlive =>
        refine hcov.resume hpc (fun _ hp => ?_) (fun _ p hp => ?_) i _
        · rw [he] at hp
          cases hp
        · rw [he] at hp
          cases hp
  captured := by
    intro t id previous ht
    by_cases htid : t = tid
    · rw [htid, resume_self] at ht
      obtain ⟨k, x, hx, hphase⟩ := advance_stops hr ht
      rw [hphase]
      exact (h.covered hx).known
    · rw [resume_other Pc.stopOf (fun _ _ _ => rfl) s htid] at ht
      exact h.captured ht

-- ===== the runs

theorem PhaseInv.entered (h : PhaseInv s) (hfree : s.threads.lookup tid = none)
    (hpc : pc.entry = true) : PhaseInv { s with threads := s.threads.insert tid pc } := by
  have hother : ∀ {t : Nat} {β : Type} {g : Pc cfg → Option β} {b : β},
      (s.threads.lookup t).bind g = some b →
      ((s.threads.insert tid pc).lookup t).bind g = some b := by
    intro t β g b ht
    have hne : t ≠ tid := by
      intro heq
      rw [heq, hfree] at ht
      cases ht
    rw [AList.lookup_insert_ne hne]
    exact ht
  constructor
  · intro k x hx
    have hcov := h.covered hx
    refine ⟨hcov.known, fun hp => ?_, fun hp => ?_⟩
    · obtain ⟨t, ht⟩ := hcov.starting hp
      exact ⟨t, hother ht⟩
    · obtain ⟨t, previous, ht⟩ := hcov.cancelling hp
      exact ⟨t, previous, hother ht⟩
  · intro t id previous ht
    by_cases htid : t = tid
    · rw [htid] at ht
      simp only [AList.lookup_insert, Option.bind_some, (entry_idle hpc).2] at ht
      cases ht
    · simp only [AList.lookup_insert_ne htid] at ht
      exact h.captured ht

/-- The condition of a run: no reload, and the stops are in order. -/
abbrev System.orderly (s : System cfg) (l : Label cfg) : Prop :=
  l.isRestart = false ∧ s.stopInOrder l = true

theorem PhaseInv.step {t : System cfg} {l : Label cfg} (h : PhaseInv s)
    (hw : LedgerWorld cfg s.world) (hok : s.orderly l) (hstep : s.step l = some t) :
    PhaseInv t := by
  have hmove := step_move hok.1 hstep
  cases hmove with
  | run hpc hr => exact h.run hw hpc hr hok.2
  | entered hfree hpc => exact h.entered hfree hpc
  | quiet hsame =>
    refine ⟨fun hx => ?_, h.captured⟩
    rw [hsame] at hx
    exact (h.covered hx).setWorld _
  | completed c i =>
    refine ⟨fun {k x} hx => ?_, h.captured⟩
    rcases @runtimeCompleted_executions cfg i c s.world with hsame | ⟨y, hy, _, hset⟩
    · rw [hsame k] at hx
      exact (h.covered hx).setWorld _
    · rw [hset k] at hx
      split at hx
      · cases hx
        refine Covered.terminal _ _ ?_
        unfold Completion.phase
        split <;> rfl
      · exact (h.covered hx).setWorld _

theorem phaseInv_reachable (hs : (machine cfg).ReachWhen System.orderly s) : PhaseInv s := by
  refine hs.invariant_with (J := fun s => LedgerWorld cfg s.world)
    (fun s hs => ledgerWorld_reachable (hs.mono fun _ _ _ => trivial)) ?_ ?_
  · intro s h0
    cases h0
    exact ⟨nofun, nofun⟩
  · intro s l t hw _ h hok hstep
    exact h.step hw hok hstep

/-- A call between the two sections of an assignment, a cancellation or
an eviction of `id`. -/
def System.inFlight (s : System cfg) (id : GoString) : Bool :=
  s.threads.any fun _ pc => pc.startOf = some id || pc.stopOf.any fun stop => stop.1 = id

/-- In a run without reloads whose stops are in order, an execution no
call is in progress for is RUNNING or terminal. -/
theorem phases_settle (cfg : Config) {s : System cfg}
    (hs : (machine cfg).ReachWhen System.orderly s) {id : GoString} {x : ExecutionRecord}
    (hx : s.world.mem.executions.lookup id = some x) (hidle : s.inFlight id = false) :
    x.phase = .running ∨ x.phase.terminal = true := by
  have hcov := (phaseInv_reachable hs).covered hx
  have hnone : ∀ {t pc}, s.threads.lookup t = some pc →
      pc.startOf ≠ some id ∧ ∀ p, pc.stopOf ≠ some (id, p) := by
    intro t pc hpc
    have hne : ¬s.inFlight id = true := by simp [hidle]
    constructor
    · intro hstart
      exact hne (AList.any_eq_true.mpr ⟨t, pc, hpc, by simp [hstart]⟩)
    · intro p hstop
      exact hne (AList.any_eq_true.mpr ⟨t, pc, hpc, by simp [hstop]⟩)
  cases hphase : x.phase
  case unspecified => exact absurd hphase hcov.known
  case starting =>
    obtain ⟨t, ht⟩ := hcov.starting hphase
    obtain ⟨pc, hpc, hstart⟩ := Option.bind_eq_some_iff.mp ht
    exact absurd hstart (hnone hpc).1
  case cancelling =>
    obtain ⟨t, previous, ht⟩ := hcov.cancelling hphase
    obtain ⟨pc, hpc, hstop⟩ := Option.bind_eq_some_iff.mp ht
    exact absurd hstop ((hnone hpc).2 previous)
  case running => exact .inl rfl
  all_goals exact .inr rfl

-- ===== a stop out of order

def cancelCommand : Inbound oneSlot :=
  ⟨fromAlice (text "m3") (.executionCancel ⟨text "x", text "stop"⟩), by decide +kernel⟩

/-- The sections of a cancellation of the sample execution up to the
runtime's stop. -/
def cancelRun : List (Label oneSlot) :=
  [ .call 2 cancelCommand, .run 2 { now := epoch }, .run 2 { now := epoch },
    .run 2 { now := epoch } ]

/-- The runtime's answer to a call and the return of its handler. -/
def answerRun (tid : Nat) (fault : Option Fault) : List (Label oneSlot) :=
  [.run tid { now := epoch, id := text "a", fault := fault }, .run tid { now := epoch }]

def killFault : Fault := ⟨[], text "kill failed"⟩

/-- The start returns while the stop is in progress, and the stop fails:
no call is left and the record is STARTING. -/
theorem stop_restores_starting :
    ∃ s, (machine oneSlot).ReachWhen (fun _ l => l.isRestart = false) s ∧
      s.threads.keys = [] ∧
      (s.world.mem.executions.lookup (text "x")).map ExecutionRecord.phase
        = some .starting := by
  exact (machine oneSlot).exists_reachWhen _ rfl
    (requestRun ++ assignRun ++ cancelRun ++ answerRun 1 none ++ answerRun 2 (some killFault)) _
    (by decide +kernel)

/-- With the answers in the other order the start ends what the failed
stop restored. -/
theorem phases_settle_after_failed_stop :
    ∃ s x, (machine oneSlot).ReachWhen System.orderly s ∧ s.inFlight (text "x") = false ∧
      s.world.mem.executions.lookup (text "x") = some x ∧
      (x.phase = .running ∨ x.phase.terminal = true) := by
  obtain ⟨s, hs, hp⟩ := (machine oneSlot).exists_reachWhen System.orderly rfl
    (requestRun ++ assignRun ++ cancelRun ++ answerRun 2 (some killFault) ++ answerRun 1 none)
    (fun s => s.inFlight (text "x") = false ∧
      (s.world.mem.executions.lookup (text "x")).isSome)
    (by decide +kernel)
  obtain ⟨x, hx⟩ := Option.isSome_iff_exists.mp hp.2
  exact ⟨s, x, hs, hp.1, hx, phases_settle oneSlot hs hx hp.1⟩

end R1s.Allocator
