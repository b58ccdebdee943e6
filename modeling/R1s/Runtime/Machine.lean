/-
The execution manager on its own: callers and the reporter are free.

# Steps

A call of the runtime begins, takes one section, or returns; a task ends;
a monitor takes one section, for which the label holds what the reporter
and the cleanup answer; the runtime is closed. Every thread makes one
call, so what a call returned stays readable.

# Notes

What a run has done to an entry outlives the entry, so it is noted beside
the run: the exits that were reported, the tasks that were cleaned up,
the returns of the `stop` calls that worked on it, and the backend calls
made for it with their results.
-/
import R1s.Runtime.Manager
import R1s.Lib.Transition

namespace R1s.Runtime

open Allocator (Fault)

/-- Where a call of the adapter begins: `start` and `recover`, `stop`,
`forget`. -/
def Call.begins : Call → Bool
  | .claiming .. | .looking _ | .forgetting _ => true
  | _ => false

/-- The steps of the manager. -/
inductive ManagerLabel
  | begin (tid : Nat) (c : Call)
  | call (tid : Nat) (i : CallIn)
  | exit (id : GoString)
  | watch (entry : Nat) (code : UInt32) (err : Option Fault) (report i : CallIn)
  | close

/-- What the completion reporter returns; its errors carry at most the
allocator's marks. -/
def reporterErr (report : CallIn) : Option Fault :=
  report.fault [.transition, .notFound, .store]

/-- One section of the monitor of an entry. -/
def Manager.watch (q : Nat) (code : UInt32) (err : Option Fault) (report i : CallIn)
    (m : Manager) : Option Manager :=
  (m.monitors.lookup q).bind fun mon =>
    match mon.pc with
    | .watching => m.observe q mon code err
    | .reporting .. => some (m.reported q mon (reporterErr report))
    | .cleaning => m.cleanup q mon i
    | .closing err => m.finish q err

/-- A step of the manager. -/
def Manager.step (p : Platform) (m : Manager) : ManagerLabel → Option Manager
  | .begin tid c =>
    if c.begins ∧ m.calls.lookup tid = none then
      some { m with calls := m.calls.insert tid c }
    else none
  | .call tid i => m.run p tid i
  | .exit id => m.exit id
  | .watch q code err report i => m.watch q code err report i
  | .close => some m.close

/-- The runs of the manager. -/
def manager (p : Platform) : TransitionSystem Manager ManagerLabel where
  init m := m = .empty
  step := Manager.step p

-- ===== notes

/-- What a `stop` that worked on an entry returned, and whether the entry
was done by then. -/
structure StopReturn where
  entry : Nat
  done : Bool
  err : Option Fault
deriving DecidableEq

/-- What has happened to the entries. -/
structure Notes where
  reported : List Nat := []
  cleaned : List Nat := []
  returns : List StopReturn := []
  asked : List (Nat × Option Fault) := []

/-- The entry a `stop` works on in its next section. -/
def Manager.stopOf (m : Manager) : Call → Option Nat
  | .looking id => (m.entry id).map (·.1)
  | .awaitingStart _ q | .awaitingMonitor q | .killing q | .awaitingExit q => some q
  | _ => none

/-- The channel `done` of an entry is closed. -/
def Manager.isDone (m : Manager) (q : Nat) : Bool := (m.heap.lookup q).any Entry.done

/-- The notes after a section of a call that went from `c` to `c'`. -/
def Notes.call (m : Manager) (c c' : Call) (n : Notes) : Notes :=
  match c, c' with
  | .launching _ _ q, .launched _ _ err => { n with asked := (q, err) :: n.asked }
  | c, .returned err =>
    match m.stopOf c with
    | some q => { n with returns := ⟨q, m.isDone q, err⟩ :: n.returns }
    | none => n
  | _, _ => n

/-- The notes after a section of a monitor that stood at `pc`. -/
def Notes.watch (q : Nat) (pc : MonitorPc) (i : CallIn) (n : Notes) : Notes :=
  match pc with
  | .reporting .. => { n with reported := q :: n.reported }
  | .cleaning =>
    if (i.fault []).isNone then { n with cleaned := q :: n.cleaned } else n
  | _ => n

/-- The notes after a step. -/
def note (m : Manager) (l : ManagerLabel) (m' : Manager) (n : Notes) : Notes :=
  match l with
  | .call tid _ =>
    match m.calls.lookup tid, m'.calls.lookup tid with
    | some c, some c' => n.call m c c'
    | _, _ => n
  | .watch q _ _ _ i =>
    match m.monitors.lookup q with
    | some mon => n.watch q mon.pc i
    | none => n
  | _ => n

/-- The runs of the manager with their notes. -/
def noted (p : Platform) : TransitionSystem (Manager × Notes) ManagerLabel :=
  (manager p).observe {} note

end R1s.Runtime
