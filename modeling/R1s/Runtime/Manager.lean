/-
The execution manager over containerd (`internal/runtime/containerd`:
execution_manager.go, completion_monitor.go), one definition per critical
section or backend call.

# State

Entries live behind pointers that calls and monitors keep after the
registry has dropped them, so the registry maps an execution ID to a
pointer into a heap that only grows. `tasks` is containerd's own state:
the container of each execution and whether its task still runs.

# What is decided outside

`CallIn` holds what a backend call returns and leaves, or that the
caller's context ended. Of containerd is taken: a start that succeeds
leaves a running task, or the ended one it resumed; one that fails may
leave anything of what it created, since the errors of its own cleanup
are ignored; a recovery that fails may delete a container without a
started task. A stop that succeeds, and a cleanup that succeeds, leave no
container, and a task that runs is not deleted; a stop of an absent
container may succeed and does nothing. A task's wait gives a status only
once the task has ended, but it may fail at any time.
-/
import R1s.Runtime.Specification

namespace R1s.Runtime

open Allocator (Fault FaultMark Completion quote)

/-- The task of a container. -/
inductive Task
  | running
  | exited
deriving DecidableEq

/-- `execution`: the channels are flags, the process is the task of the
execution. -/
structure Entry where
  fingerprint : GoString
  ready : Bool := false
  done : Bool := false
  startErr : Option Fault := none
  doneErr : Option Fault := none
  stopping : Bool := false
  finishing : Bool := false
  stopFailure : Option Fault := none

/-- Where a monitor stands. -/
inductive MonitorPc
  | watching
  | reporting (err : Option Fault) (detail : GoString) (exitCode : Int)
  | cleaning
  | closing (err : Option Fault)

/-- The monitor of a started execution. -/
structure Monitor where
  id : GoString
  pc : MonitorPc

/-- Where a call of the runtime stands: `start` and `recover` up to
`returned`, then `stop`, then `forget`. -/
inductive Call
  | claiming (recover : Bool) (request : StartRequest)
  | launching (recover : Bool) (id : GoString) (entry : Nat)
  | launched (id : GoString) (entry : Nat) (err : Option Fault)
  | awaitingReady (entry : Nat)
  | looking (id : GoString)
  | stoppingTask (id : GoString)
  | awaitingStart (id : GoString) (entry : Nat)
  | awaitingMonitor (entry : Nat)
  | killing (entry : Nat)
  | awaitingExit (entry : Nat)
  | forgetting (id : GoString)
  | returned (err : Option Fault)

/-- `executionManager` with its calls and monitors, and containerd. -/
structure Manager where
  closed : Bool
  entries : FMap GoString Nat
  heap : FMap Nat Entry
  fresh : Nat
  monitors : FMap Nat Monitor
  calls : FMap Nat Call
  tasks : FMap GoString Task

def Manager.empty : Manager := ⟨false, ∅, ∅, 0, ∅, ∅, ∅⟩

/-- What a section of a call takes from outside. -/
structure CallIn where
  problem : Option GoString := none
  marks : List FaultMark := []
  cancelled : Bool := false
  /-- What a start or a recovery leaves of a container whose task does not
  run, when it is not what was there. -/
  left : Option (Option Task) := none

/-- The error of a backend call, which carries at most the marks
`allowed`. -/
def CallIn.fault (allowed : List FaultMark) (i : CallIn) : Option Fault :=
  i.problem.map fun problem => ⟨i.marks.filter (· ∈ allowed), problem⟩

def closedErr : Fault := ⟨[], text "containerd runtime is closed"⟩

def contextErr : Fault := ⟨[], text "context canceled"⟩

def conflictErr (id : GoString) : Fault :=
  ⟨[.conflict], text "runtime execution conflicts with durable state: " ++ quote id⟩

/-- `errors.Join` of two errors. -/
def joinFault : Option Fault → Option Fault → Option Fault
  | some a, some b => some ⟨a.marks ++ b.marks, a.text ++ 0x0A :: b.text⟩
  | some a, none => some a
  | none, b => b

/-- The entry registered for an execution. -/
def Manager.entry (m : Manager) (id : GoString) : Option (Nat × Entry) :=
  (m.entries.lookup id).bind fun q => (m.heap.lookup q).map fun e => (q, e)

def Manager.setEntry (m : Manager) (q : Nat) (e : Entry) : Manager :=
  { m with heap := m.heap.insert q e }

-- ===== starting

/-- `start` and `recover` up to the claim of the entry. -/
def Manager.claim (p : Platform) (recover : Bool) (request : StartRequest) (m : Manager) :
    Manager × Call :=
  match prepareExecution p request with
  | .error f => (m, .returned (some f))
  | .ok fingerprint =>
    if m.closed then (m, .returned (some closedErr))
    else
      match m.entry request.executionID with
      | some (q, e) =>
        if e.fingerprint ≠ fingerprint then
          (m, .returned (some (conflictErr request.executionID)))
        else (m, .awaitingReady q)
      | none =>
        ({ m with
            entries := m.entries.insert request.executionID m.fresh,
            heap := m.heap.insert m.fresh { fingerprint := fingerprint },
            fresh := m.fresh + 1 },
          .launching recover request.executionID m.fresh)

/-- What a failed start or recovery leaves. Neither touches a task that
runs, a start does not delete the container it found, and a recovery
starts nothing. -/
def Manager.leave (recover : Bool) (id : GoString) (left : Option (Option Task))
    (m : Manager) : Manager :=
  if m.tasks.lookup id = some .running then m
  else
    match recover, left with
    | false, some (some task) => { m with tasks := m.tasks.insert id task }
    | true, some none => { m with tasks := m.tasks.erase id }
    | _, _ => m

/-- The backend's start or recovery. A recovery succeeds only on a
container that is there, and a start that finds an ended task resumes
it, unless the task is gone. -/
def Manager.launch (recover : Bool) (id : GoString) (q : Nat) (i : CallIn) (m : Manager) :
    Option (Manager × Call) :=
  match i.fault (if recover then [.missing, .conflict] else [.conflict]) with
  | some f => some (m.leave recover id i.left, .launched id q (some f))
  | none =>
    if recover then
      if (m.tasks.lookup id).isSome then some (m, .launched id q none) else none
    else
      match m.tasks.lookup id, i.left with
      | some .exited, some (some .exited) => some (m, .launched id q none)
      | _, _ => some ({ m with tasks := m.tasks.insert id .running }, .launched id q none)

/-- `finishStart`, and the monitor of a started execution. -/
def Manager.finishStart (id : GoString) (q : Nat) (err : Option Fault) (m : Manager) :
    Option (Manager × Call) :=
  (m.heap.lookup q).map fun e =>
    let m := m.setEntry q { e with ready := true, startErr := err }
    match err with
    | some _ => ({ m with entries := m.entries.erase id }, .returned err)
    | none => ({ m with monitors := m.monitors.insert q ⟨id, .watching⟩ }, .returned none)

/-- `waitUntilReady`. -/
def Manager.waitUntilReady (q : Nat) (i : CallIn) (m : Manager) : Option Call :=
  if i.cancelled then some (.returned (some contextErr))
  else (m.heap.lookup q).bind fun e => if e.ready then some (.returned e.startErr) else none

-- ===== stopping

/-- `stop` under the registry's lock. -/
def Manager.look (id : GoString) (m : Manager) : Manager × Call :=
  if blank id then
    (m, .returned (some (invalidRequest (text "execution ID is required"))))
  else if m.closed then (m, .returned (some closedErr))
  else
    match m.entry id with
    | none => (m, .stoppingTask id)
    | some (q, e) =>
      if !e.ready then (m, .awaitingStart id q)
      else if e.done then (m, .returned none)
      else if e.finishing then (m, .awaitingMonitor q)
      else (m.setEntry q { e with stopping := true, stopFailure := none }, .killing q)

/-- The backend's stop of an execution without an entry. -/
def Manager.stopTask (id : GoString) (i : CallIn) (m : Manager) : Manager × Call :=
  match i.fault [.conflict] with
  | some f => (m, .returned (some f))
  | none => ({ m with tasks := m.tasks.erase id }, .returned none)

/-- `stop` while another start holds the entry. -/
def Manager.waitStart (id : GoString) (q : Nat) (i : CallIn) (m : Manager) : Option Call :=
  if i.cancelled then some (.returned (some contextErr))
  else (m.heap.lookup q).bind fun e => if e.ready then some (.looking id) else none

/-- `stop` while the monitor finishes the execution. -/
def Manager.waitMonitor (q : Nat) (i : CallIn) (m : Manager) : Option Call :=
  if i.cancelled then some (.returned (some contextErr))
  else (m.heap.lookup q).bind fun e => if e.done then some (.returned none) else none

/-- A stop that gives up takes its mark back unless the execution is
done. -/
def Manager.unmark (q : Nat) (e : Entry) (failure : Option Fault) (m : Manager) : Manager :=
  if e.done then m
  else m.setEntry q { e with stopping := false, stopFailure := failure }

/-- The kill of the task. -/
def Manager.kill (q : Nat) (i : CallIn) (m : Manager) : Option (Manager × Call) :=
  (m.heap.lookup q).map fun e =>
    match i.fault [] with
    | some f => (m.unmark q e e.stopFailure, .returned (some f))
    | none => (m, .awaitingExit q)

/-- `stop` after the kill. -/
def Manager.waitExit (q : Nat) (i : CallIn) (m : Manager) : Option (Manager × Call) :=
  (m.heap.lookup q).bind fun e =>
    if i.cancelled then some (m.unmark q e (some contextErr), .returned (some contextErr))
    else if e.done then some (m, .returned e.doneErr)
    else none

/-- `forget`. -/
def Manager.forget (id : GoString) (i : CallIn) (m : Manager) : Manager × Call :=
  if i.cancelled then (m, .returned (some contextErr))
  else
    match m.entry id with
    | none => (m, .returned none)
    | some (_, e) =>
      if !e.done then (m, .returned (some ⟨[], text "runtime cleanup still active"⟩))
      else if e.doneErr.isSome then (m, .returned e.doneErr)
      else ({ m with entries := m.entries.erase id }, .returned none)

-- ===== a step

/-- One section of a call. -/
def Manager.advance (p : Platform) (c : Call) (i : CallIn) (m : Manager) :
    Option (Manager × Call) :=
  match c with
  | .claiming recover request => some (m.claim p recover request)
  | .launching recover id q => m.launch recover id q i
  | .launched id q err => m.finishStart id q err
  | .awaitingReady q => (m.waitUntilReady q i).map fun c => (m, c)
  | .looking id => some (m.look id)
  | .stoppingTask id => some (m.stopTask id i)
  | .awaitingStart id q => (m.waitStart id q i).map fun c => (m, c)
  | .awaitingMonitor q => (m.waitMonitor q i).map fun c => (m, c)
  | .killing q => m.kill q i
  | .awaitingExit q => m.waitExit q i
  | .forgetting id => some (m.forget id i)
  | .returned _ => none

/-- One section of the call `tid`. -/
def Manager.run (p : Platform) (tid : Nat) (i : CallIn) (m : Manager) : Option Manager :=
  (m.calls.lookup tid).bind fun c =>
    (m.advance p c i).map fun r => { r.1 with calls := r.1.calls.insert tid r.2 }

/-- The task of an execution ends. -/
def Manager.exit (id : GoString) (m : Manager) : Option Manager :=
  if m.tasks.lookup id = some .running then
    some { m with tasks := m.tasks.insert id .exited }
  else none

/-- What a monitor reports. -/
def completion (id : GoString) (err : Option Fault) (detail : GoString) (exitCode : Int) :
    Completion := ⟨id, err, detail, some exitCode⟩

/-- The first section of `monitor`, once the wait for the task has given
`code` or failed with `err`. -/
def Manager.observe (q : Nat) (mon : Monitor) (code : UInt32) (err : Option Fault)
    (m : Manager) : Option Manager :=
  if err = none ∧ m.tasks.lookup mon.id = some .running then none
  else
    (m.heap.lookup q).map fun e =>
      let detail :=
        if err.isSome then [] else text "container exited with code " ++ text (toString code.toNat)
      let pc : MonitorPc :=
        if e.stopping then .cleaning
        else .reporting (joinFault err e.stopFailure) detail code.toInt32.toInt
      { m.setEntry q { e with finishing := true } with
        monitors := m.monitors.insert q { mon with pc := pc } }

/-- The monitor after the reporter returned. -/
def Manager.reported (q : Nat) (mon : Monitor) (reportErr : Option Fault) (m : Manager) :
    Manager :=
  { m with
    monitors := m.monitors.insert q
      { mon with pc := if reportErr.isSome then .closing reportErr else .cleaning } }

/-- The cleanup of the task, which does not succeed while the task
runs. -/
def Manager.cleanup (q : Nat) (mon : Monitor) (i : CallIn) (m : Manager) : Option Manager :=
  match i.fault [] with
  | some f =>
    some { m with monitors := m.monitors.insert q { mon with pc := .closing (some f) } }
  | none =>
    if m.tasks.lookup mon.id = some .running then none
    else
      some { m with
        tasks := m.tasks.erase mon.id,
        monitors := m.monitors.insert q { mon with pc := .closing none } }

/-- The last section of `monitor`. -/
def Manager.finish (q : Nat) (err : Option Fault) (m : Manager) : Option Manager :=
  (m.heap.lookup q).map fun e =>
    { m.setEntry q { e with doneErr := err, done := true } with
      monitors := m.monitors.erase q }

/-- `close`: tasks outlive the adapter. -/
def Manager.close (m : Manager) : Manager := { m with closed := true }

/-- A new process: the registry is empty, containerd keeps its tasks. -/
def Manager.restart (m : Manager) : Manager := { Manager.empty with tasks := m.tasks }

end R1s.Runtime
