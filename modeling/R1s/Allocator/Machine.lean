/-
The allocator as a transition system: calls in progress, each at a point
between two critical sections, over the shared memory and the store.

# Calls

`Handle` (dispatch.go) goes through the freshness check, the replay cache
and its handler; a handler that calls the runtime waits outside the lock
(`starting`, `stopping`, `binding`). The background calls are `Sweep`,
`EvictExpiredLeases`, `Recover` and `OpenTunnelSession`. Runtime
completions, `SweepExpired`, the views and `CloseTunnel` are one section
each and need no thread.

A step runs one section of one call, so every interleaving of sections is
a run. A section that would dereference nil has no step: the process dies
there. A restart forgets the calls in progress and rebuilds the memory
from the store; only an allocator with a store has one.
-/
import R1s.Lib.Transition
import R1s.Allocator.Background

namespace R1s.Allocator

variable (cfg : Config)

/-- An envelope `Handle` lets past `ValidateEnvelope`. -/
abbrev Inbound := { e : Envelope // validateEnvelope cfg.sum256 e = none }

/-- Where a call stands between two sections. -/
inductive Pc
  | received (e : Inbound cfg)
  | logging (e : Inbound cfg) (q : ExecutionLogsRequest)
  | dispatching (e : Inbound cfg)
  | waiting (e : Inbound cfg) (owner : Nat)
  | answered (e : Inbound cfg) (reply : Reply)
  | handling (e : Inbound cfg)
  | starting (e : Inbound cfg) (id : GoString)
  | stopping (e : Inbound cfg) (reason id : GoString) (previousPhase : ActivePhase)
      (previousDetail : GoString)
  | binding (e : Inbound cfg) (request : ExecutionTunnelOpen) (now : Int)
  | finishing (e : Inbound cfg) (reply : Reply)
  | evicting (sweep : Bool) (err : Option GoErr)
  | evictStopping (sweep : Bool) (err : Option GoErr) (id : GoString)
      (previousPhase : ActivePhase) (previousDetail : GoString)
  | collecting (evictErr : Option GoErr)
  | cleaning (pending : List Tombstone) (err evictErr : Option GoErr)
  | scanning
  | recovering (ids : List GoString)
  | recoverStopping (ids : List GoString) (id : GoString) (phase : EndPhase)
      (detail : GoString)
  | reattaching (ids : List GoString) (id : GoString)
  | tunnelOpening (id : GoString) (peerKey : Bytes)
  | tunnelGranting (id : GoString) (peerKey : Bytes)
  | tunnelChecking (id : GoString) (session : Tunnel.Session)
deriving DecidableEq

/-- What a section leads to: the next point of the call, a return of
`Handle`, or a return of a background call. -/
inductive Next
  | goto (pc : Pc cfg)
  | ret (reply : Reply)
  | done (err : Option GoErr)
deriving DecidableEq

variable {cfg}

/-- The command is one `Handle` keys into the replay cache. -/
def replayed (e : Envelope) : Bool :=
  match e.payload with
  | some (.executionRequest _) | some (.executionAssign _) | some (.executionCancel _)
  | some (.executionInspect _) | some (.executionOfferRelease _)
  | some (.executionLeaseRenew _) | some (.executionTunnelOpen _) => true
  | _ => false

/-- The replay key of a command. -/
def replayKey (e : Envelope) : GoString := authorityKey e.sender e.messageID

def contextErr : GoErr := ⟨[], text "context canceled"⟩

/-- A return of `Handle` with an error response. -/
def rejected (i : Input) (now : Int) (e : Inbound cfg) (err : GoErr) : Next cfg :=
  .ret ⟨errorResponse cfg now i.random e.1 err, some err⟩

/-- The start of `Handle`. -/
def receive (i : Input) (e : Inbound cfg) (w : World) : World × Next cfg :=
  let checked := checkFreshness i.now e.1 w.mem
  let w := w.setMem checked.1
  match checked.2 with
  | some err => (w, rejected i i.later e err)
  | none =>
    match e.1.payload with
    | some (.executionLogsRequest q) => (w, .goto (.logging e q))
    | _ =>
      if replayed e.1 then (w, .goto (.dispatching e))
      else (w, .ret (.fail Sentinel.unsupportedMessage.err))

/-- `beginReplay`, called by `tid`. -/
def beginReplay (tid : Nat) (i : Input) (e : Inbound cfg) (w : World) : World × Next cfg :=
  let m := expireOffers i.now w.mem
  let begun := beginCache cfg i.saved.order tid (replayKey e.1) e.1 i.now m.replay
  let w := w.setMem { m with replay := begun.1 }
  match begun.2 with
  | .conflict => (w, rejected i i.later e Sentinel.replayConflict.err)
  | .full => (w, rejected i i.later e Sentinel.replayCapacity.err)
  | .duplicate entry =>
    (w, .goto (if entry.done then .answered e ⟨entry.responses, entry.err⟩
      else .waiting e entry.owner))
  | .fresh =>
    match persist cfg i.saved w with
    | .ok w' => (w', .goto (.handling e))
    | .error err =>
      (w.setMem { m with replay := begun.1.erase (replayKey e.1) },
        rejected i i.later e err)

/-- Where a handler's first section leads. -/
def Outcome.next (e : Inbound cfg) : Outcome → Next cfg
  | .reply r => .goto (.finishing e r)
  | .start id => .goto (.starting e id)
  | .stop reason id previousPhase previousDetail =>
    .goto (.stopping e reason id previousPhase previousDetail)
  | .bind request now => .goto (.binding e request now)

/-- The dispatch of `Handle` to the command's handler. -/
def handle (i : Input) (e : Inbound cfg) (w : World) : Option (World × Next cfg) :=
  let single (r : World × Reply) : Option (World × Next cfg) :=
    some (r.1, .goto (.finishing e r.2))
  let first (r : World × Outcome) : Option (World × Next cfg) := some (r.1, r.2.next e)
  match e.1.payload with
  | some (.executionRequest q) => single (handleRequest cfg i e.1 q w)
  | some (.executionAssign q) => first (assignBegin cfg i e.1 q w)
  | some (.executionCancel q) => first (cancelBegin cfg i e.1 q w)
  | some (.executionInspect q) => single (handleInspect cfg i e.1 q w)
  | some (.executionOfferRelease q) => single (handleOfferRelease cfg i e.1 q w)
  | some (.executionLeaseRenew q) => single (handleLeaseRenew cfg i e.1 q w)
  | some (.executionTunnelOpen q) => first (w, tunnelCheck i e.1 q w)
  | _ => none

/-- The reply `Handle` publishes: an error without a response gets one. -/
def published (i : Input) (e : Inbound cfg) (reply : Reply) : Reply :=
  match reply.err with
  | some err =>
    if reply.responses = [] then ⟨errorResponse cfg i.now i.random e.1 err, reply.err⟩
    else reply
  | none => reply

/-- `finishReplay` and the return of `Handle`. -/
def finishReplay (tid : Nat) (i : Input) (e : Inbound cfg) (reply : Reply) (w : World) :
    World × Next cfg :=
  let reply := published i e reply
  let saved := tryPersist cfg i.saved (w.setMem
    { w.mem with
      replay := finishCache cfg i.saved.order tid (replayKey e.1) reply w.mem.replay })
  (saved.1, .ret ⟨reply.responses, joinErrs [reply.err, saved.2]⟩)

-- ===== background calls

/-- Where `EvictExpiredLeases` returns to: the rest of `Sweep`, or its own
caller. -/
def evicted (sweep : Bool) (err : Option GoErr) : Next cfg :=
  if sweep then .goto (.collecting err) else .done err

/-- A round of `EvictExpiredLeases` up to the stop. -/
def evictRound (i : Input) (sweep : Bool) (err : Option GoErr) (w : World) :
    Option (World × Next cfg) :=
  (evictBegin cfg i w).map fun r =>
    (r.1,
      match r.2 with
      | .idle => evicted sweep err
      | .failed e => evicted sweep (joinErrs [err, some e])
      | .stop id previousPhase previousDetail =>
        .goto (.evictStopping sweep err id previousPhase previousDetail))

/-- The end of a round of `EvictExpiredLeases`: a failed eviction ends
the loop. -/
def evictStopped (i : Input) (sweep : Bool) (err : Option GoErr) (id : GoString)
    (previousPhase : ActivePhase) (previousDetail : GoString) (w : World) :
    World × Next cfg :=
  let r := evictFinish cfg i id previousPhase previousDetail w
  let err := joinErrs [err, r.2]
  (r.1, if r.2.isSome then evicted sweep err else .goto (.evicting sweep err))

/-- The collection pass of `Sweep`. -/
def collect (i : Input) (evictErr : Option GoErr) (w : World) : World × Next cfg :=
  let r := sweepCollect cfg i w
  (r.1,
    match r.2 with
    | .error err => .done (joinErrs [evictErr, some err])
    | .ok pending => .goto (.cleaning pending none evictErr))

/-- One tombstone of the cleanup pass of `Sweep`: `i.fault` is the error
of dropping the runtime's bookkeeping and the logs. -/
def clean (i : Input) (dead : Tombstone) (pending : List Tombstone)
    (err evictErr : Option GoErr) (w : World) : World × Next cfg :=
  match i.fault with
  | some f => (w, .goto (.cleaning pending (joinErrs [err, some f.err]) evictErr))
  | none =>
    let r := sweepCleanup cfg i dead w
    (r.1, .goto (.cleaning pending (joinErrs [err, r.2]) evictErr))

/-- The start of `Recover`. -/
def scan (w : World) : Next cfg :=
  if cfg.recoverer then .goto (.recovering (recoverIDs w.mem))
  else if w.mem.executions.any fun _ r => !r.phase.terminal then
    .done (some Sentinel.recoveryUnsupported.err)
  else .done none

/-- `Recover` at the head of its list. -/
def recoverNext (i : Input) (id : GoString) (ids : List GoString) (w : World) : Next cfg :=
  if i.cancelled then .done (some contextErr)
  else
    match recoverBegin i.now id w.mem with
    | .skip => .goto (.recovering ids)
    | .stop phase detail => .goto (.recoverStopping ids id phase detail)
    | .reattach => .goto (.reattaching ids id)

/-- A section of `Recover` that may fail leads on or ends the call. -/
def recovered (ids : List GoString) (r : World × Option GoErr) : World × Next cfg :=
  (r.1, if r.2.isSome then .done r.2 else .goto (.recovering ids))

/-- `Recover` after a stop. -/
def recoverStop (i : Input) (ids : List GoString) (id : GoString) (phase : EndPhase)
    (detail : GoString) (w : World) : World × Next cfg :=
  match i.fault.filter fun f => !f.err.is .runtimeMissing with
  | some f => (w, .done (joinErrs [some Sentinel.runtimeStop.err, some f.err]))
  | none => recovered ids (recoverStopped cfg i id phase.1 detail w)

/-- The execution is known and not terminal. -/
def Mem.live (m : Mem) (id : GoString) : Bool :=
  (m.executions.lookup id).any fun r => !r.phase.terminal

/-- `OpenTunnelSession` between its two liveness checks. -/
def grantSession (id : GoString) (peerKey : Bytes) (w : World) : World × Next cfg :=
  match w.mem.tunnels.open id peerKey with
  | .error _ => (w, .done (some ⟨[], text "tunnel session refused"⟩))
  | .ok (tunnels, session) =>
    (w.setMem { w.mem with tunnels := tunnels }, .goto (.tunnelChecking id session))

/-- The second liveness check of `OpenTunnelSession`. -/
def recheckSession (id : GoString) (w : World) : World × Next cfg :=
  if w.mem.live id then (w, .done none)
  else
    (w.setMem { w.mem with tunnels := w.mem.tunnels.closeSession id },
      .done (some Sentinel.invalidTransition.err))

-- ===== a step

/-- One section of the call `tid` that stands at `pc`. -/
def advance (tid : Nat) (pc : Pc cfg) (i : Input) (w : World) : Option (World × Next cfg) :=
  match pc with
  | .received e => some (receive i e w)
  | .logging e q => some (w, .ret (handleLogs cfg i e.1 q w))
  | .dispatching e => some (beginReplay tid i e w)
  | .waiting _ _ => if i.cancelled then some (w, .ret (.fail contextErr)) else none
  | .answered _ reply => some (w, .ret (if i.cancelled then .fail contextErr else reply))
  | .handling e => handle i e w
  | .starting e id =>
    (assignFinish cfg i e.1 id w).map fun r => (r.1, .goto (.finishing e r.2))
  | .stopping e reason id previousPhase previousDetail =>
    (cancelFinish cfg i e.1 reason id previousPhase previousDetail w).map fun r =>
      (r.1, .goto (.finishing e r.2))
  | .binding e request now =>
    let r := tunnelBind cfg i now e.1 request w
    some (r.1, .goto (.finishing e r.2))
  | .finishing e reply => some (finishReplay tid i e reply w)
  | .evicting sweep err => evictRound i sweep err w
  | .evictStopping sweep err id previousPhase previousDetail =>
    some (evictStopped i sweep err id previousPhase previousDetail w)
  | .collecting evictErr => some (collect i evictErr w)
  | .cleaning [] err evictErr => some (w, .done (joinErrs [err, evictErr]))
  | .cleaning (dead :: pending) err evictErr => some (clean i dead pending err evictErr w)
  | .scanning => some (w, scan w)
  | .recovering [] => some (w, .done none)
  | .recovering (id :: ids) => some (w, recoverNext i id ids w)
  | .recoverStopping ids id phase detail => some (recoverStop i ids id phase detail w)
  | .reattaching ids id => some (recovered ids (recoverReattached cfg i id w))
  | .tunnelOpening id peerKey =>
    some (w,
      if w.mem.live id then .goto (.tunnelGranting id peerKey)
      else .done (some Sentinel.invalidTransition.err))
  | .tunnelGranting id peerKey => some (grantSession id peerKey w)
  | .tunnelChecking id _ => some (recheckSession id w)

variable (cfg)

/-- The allocator's process and its store. -/
structure System where
  world : World
  threads : FMap Nat (Pc cfg)

/-- The steps of a run. -/
inductive Label
  | call (tid : Nat) (e : Inbound cfg)
  | sweep (tid : Nat)
  | evictLeases (tid : Nat)
  | recover (tid : Nat)
  | openTunnel (tid : Nat) (id : GoString) (peerKey : Bytes)
  | closeTunnel (session : Tunnel.Session)
  | run (tid : Nat) (i : Input)
  | completed (c : Completion) (i : Input)
  | expire (i : Input)
  | view (now : Int)
  | restart (granted now : Int)

variable {cfg}

/-- A call enters under a thread name that is not in use. -/
def System.spawn (s : System cfg) (tid : Nat) (pc : Pc cfg) : Option (System cfg) :=
  if (s.threads.lookup tid).isSome then none
  else some { s with threads := s.threads.insert tid pc }

/-- Calls that wait for `owner`'s entry get what it published. -/
def wake (owner : Nat) (reply : Reply) : Pc cfg → Pc cfg
  | .waiting e o => if o = owner then .answered e reply else .waiting e o
  | pc => pc

/-- The threads after `tid`, which stood at `pc`, ran a section. -/
def System.resume (s : System cfg) (tid : Nat) (pc : Pc cfg) (i : Input)
    (r : World × Next cfg) : System cfg where
  world := r.1
  threads :=
    match r.2 with
    | .goto pc' => s.threads.insert tid pc'
    | .ret _ =>
      match pc with
      | .finishing e reply =>
        (s.threads.erase tid).mapVal fun _ => wake tid (published i e reply)
      | _ => s.threads.erase tid
    | .done _ => s.threads.erase tid

/-- A step of the allocator. -/
def System.step (s : System cfg) : Label cfg → Option (System cfg)
  | .call tid e => s.spawn tid (.received e)
  | .sweep tid => s.spawn tid (.evicting true none)
  | .evictLeases tid => s.spawn tid (.evicting false none)
  | .recover tid => s.spawn tid .scanning
  | .openTunnel tid id peerKey => s.spawn tid (.tunnelOpening id peerKey)
  | .closeTunnel session =>
    some { s with
      world := s.world.setMem
        { s.world.mem with tunnels := s.world.mem.tunnels.release session } }
  | .run tid i =>
    (s.threads.lookup tid).bind fun pc =>
      (advance tid pc i s.world).map (s.resume tid pc i)
  | .completed c i => some { s with world := (runtimeCompleted cfg i c s.world).1 }
  | .expire i => some { s with world := sweepExpired cfg i s.world }
  | .view now =>
    some { s with world := s.world.setMem (expireOffers now s.world.mem) }
  | .restart granted now =>
    if cfg.stored then
      match restart cfg granted now s.world.disk with
      | .ok m => some { world := ⟨m, s.world.disk⟩, threads := ∅ }
      | .error _ => none
    else none

variable (cfg)

/-- The allocator on an empty store. -/
def System.initial : System cfg := ⟨⟨.empty, none⟩, ∅⟩

/-- The allocator's runs. -/
def machine : TransitionSystem (System cfg) (Label cfg) where
  init s := s = System.initial cfg
  step := System.step

end R1s.Allocator
