/-
An allocator and the containerd runtime it drives: the two locks and the
regions between them.

A call of the allocator that waits outside its lock makes one call of the
runtime, under the name of its thread. Its next section runs when the
runtime's call has returned, on what it returned; completions come from
the monitors only. The sections of both sides interleave freely.
-/
import R1s.Runtime.Manager
import R1s.Allocator.Machine

namespace R1s.Runtime

open Allocator

variable (cfg : Config)

/-- The runtime call a call of the allocator makes at its point. -/
def callOf (w : World) : Pc cfg → Option Call
  | .starting _ id =>
    (w.mem.executions.lookup id).map fun r => .claiming false (startRequest r)
  | .stopping _ _ id _ _ => some (.looking id)
  | .evictStopping _ _ id _ _ => some (.looking id)
  | .recoverStopping _ id _ _ => some (.looking id)
  | .reattaching _ id =>
    (w.mem.executions.lookup id).map fun r => .claiming true (startRequest r)
  | .cleaning (dead :: _) _ _ => some (.forgetting dead.executionID)
  | _ => none

variable {cfg}

/-- The call waits for the runtime. -/
def waits : Pc cfg → Bool
  | .starting _ _ | .stopping .. | .evictStopping .. | .recoverStopping .. | .reattaching _ _ =>
    true
  | .cleaning (_ :: _) _ _ => true
  | _ => false

/-- The section's input is what the runtime returned; dropping the logs
may fail after the runtime forgot the execution. -/
def answers (pc : Pc cfg) (err : Option Fault) (i : Input) : Bool :=
  match pc with
  | .cleaning .. => err.isNone || i.fault = err
  | _ => i.fault = err

/-- The marks of an error of the completion reporter. -/
def Sentinel.mark : Sentinel → Option FaultMark
  | .invalidTransition => some .transition
  | .executionNotFound => some .notFound
  | .store => some .store
  | _ => none

def reportFault (err : GoErr) : Fault := ⟨err.sentinels.filterMap Sentinel.mark, err.text⟩

variable (cfg)

/-- An allocator with its runtime. -/
structure Node where
  sys : System cfg
  mgr : Manager

/-- The steps of a node. -/
inductive NodeLabel
  | alloc (l : Label cfg)
  | call (tid : Nat) (i : CallIn)
  | exit (id : GoString)
  | watch (entry : Nat) (code : UInt32) (err : Option Fault) (i : CallIn) (saved : Input)
  | close

variable {cfg}

/-- The thread `tid` moved on: its next runtime call begins. -/
def Node.enter (n : Node cfg) (tid : Nat) (s : System cfg) : Node cfg where
  sys := s
  mgr :=
    { n.mgr with
      calls :=
        match (s.threads.lookup tid).bind (callOf cfg s.world) with
        | some c => n.mgr.calls.insert tid c
        | none => n.mgr.calls.erase tid }

/-- The answer of the runtime, if the call has to wait for one, fits the
section's input. -/
def Node.answered (n : Node cfg) (tid : Nat) (pc : Pc cfg) (i : Input) : Bool :=
  !waits pc ||
    match n.mgr.calls.lookup tid with
    | some (.returned err) => answers pc err i
    | _ => false

/-- A step of the allocator. -/
def Node.alloc (n : Node cfg) : Label cfg → Option (Node cfg)
  | .completed _ _ => none
  | .restart granted now =>
    (n.sys.step (.restart granted now)).map fun s => ⟨s, n.mgr.restart⟩
  | .run tid i =>
    (n.sys.threads.lookup tid).bind fun pc =>
      if n.answered tid pc i then (n.sys.step (.run tid i)).map (n.enter tid) else none
  | l => (n.sys.step l).map fun s => { n with sys := s }

/-- A section of the monitor of an entry. -/
def Node.watch (n : Node cfg) (q : Nat) (code : UInt32) (err : Option Fault) (i : CallIn)
    (saved : Input) : Option (Node cfg) :=
  (n.mgr.monitors.lookup q).bind fun mon =>
    match mon.pc with
    | .watching => (n.mgr.observe q mon code err).map fun m => { n with mgr := m }
    | .reporting err detail exitCode =>
      let r := runtimeCompleted cfg saved (completion mon.id err detail exitCode) n.sys.world
      some ⟨{ n.sys with world := r.1 }, n.mgr.reported q mon (r.2.map reportFault)⟩
    | .cleaning => (n.mgr.cleanup q mon i).map fun m => { n with mgr := m }
    | .closing err => (n.mgr.finish q err).map fun m => { n with mgr := m }

/-- A step of the node. -/
def Node.step (p : Platform) (n : Node cfg) : NodeLabel cfg → Option (Node cfg)
  | .alloc l => n.alloc l
  | .call tid i => (n.mgr.run p tid i).map fun m => { n with mgr := m }
  | .exit id => (n.mgr.exit id).map fun m => { n with mgr := m }
  | .watch q code err i saved => n.watch q code err i saved
  | .close => some { n with mgr := n.mgr.close }

variable (cfg)

/-- The runs of a node. -/
def node (p : Platform) : TransitionSystem (Node cfg) (NodeLabel cfg) where
  init n := n = ⟨System.initial cfg, .empty⟩
  step := Node.step p

end R1s.Runtime
