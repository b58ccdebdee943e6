/-
What a critical section reads from outside and what it answers with
(`internal/allocator`: feedback.go, the envelope builders of views.go,
the freshness check of retention_policy.go).

A section is what a handler does between taking and releasing the
allocator's lock. `Input` holds what the outside decides during one:
clock readings, generated IDs, the outcome of the save and of the runtime
call the section starts from. A handler that calls the runtime ends its
first section with an `Outcome` that says so and continues, after the
call, in a section of its own.
-/
import R1s.Allocator.State

namespace R1s.Allocator

variable (cfg : Config)

-- ===== inputs

/-- The sixteen bytes `randomID` reads. -/
abbrev Random := { b : Bytes // b.length = 16 }

def Random.zero : Random := ⟨List.replicate 16 0, rfl⟩

/-- `randomID`. -/
def randomID (r : Random) : GoString := hexEncode r.1

/-- `runtime.LogChunk`. -/
structure LogChunk where
  data : Bytes
  nextOffset : Nat
  eof : Bool
  truncated : Bool
deriving DecidableEq

/-- What the environment decides during one section. `now` and `later`
are successive clock readings, `id` and `id2` successive `newID` results;
`fault` is the outcome of the runtime or log-store call the section
starts from, and `pick` the key a map iteration meets first. -/
structure Input where
  now : Int := 0
  later : Int := 0
  id : GoString := []
  id2 : GoString := []
  random : Random := Random.zero
  saved : SaveIn := {}
  fault : Option Fault := none
  chunk : LogChunk := ⟨[], 0, false, false⟩
  cancelled : Bool := false
  pick : GoString := []

/-- A phase a stopped execution can return to: neither terminal nor
already cancelling. -/
abbrev ActivePhase := { p : ExecutionPhase // p.terminal = false ∧ p ≠ .cancelling }

/-- A phase a recovered execution is ended with. -/
abbrev EndPhase := { p : ExecutionPhase // p.terminal = true }

/-- How a handler's first section ends: with its reply, or before a call
made outside the lock. -/
inductive Outcome
  | reply (r : Reply)
  | start (id : GoString)
  | stop (reason id : GoString) (previousPhase : ActivePhase) (previousDetail : GoString)
  | bind (request : ExecutionTunnelOpen) (now : Int)

-- ===== responses

/-- The command error `errorResponse` chooses. -/
def commandError (err : GoErr) : CommandError :=
  if err.is .admission then
    ⟨"DENIED", text "identity is not admitted by local policy", false⟩
  else if err.is .store then
    ⟨"OUTCOME_UNKNOWN", text "state commit failed; inspect the same allocator", true⟩
  else if err.is .unauthorized || err.is .offerNotFound || err.is .executionNotFound then
    ⟨"NOT_FOUND", text "resource unavailable to this identity", false⟩
  else if err.is .capacityExhausted || err.is .replayCapacity then
    ⟨"CAPACITY", text "allocator capacity or command queue exhausted", true⟩
  else if err.is .incompatible then
    ⟨"INCOMPATIBLE", err.text, false⟩
  else if err.is .offerExpired || err.is .offerReleased || err.is .resultExpired
      || err.is .commandExpired then
    ⟨"EXPIRED", text "reservation or retained result expired", false⟩
  else if err.is .executionConflict || err.is .replayConflict
      || err.is .offerAlreadyAssigned then
    ⟨"CONFLICT", text "command conflicts with durable state", false⟩
  else if err.is .tunnelDisabled then
    ⟨"TUNNEL", text "direct-access tunnels are disabled on this allocator", false⟩
  else if err.is .tunnelNoEndpoint then
    ⟨"TUNNEL", text "tunnel endpoint is not ready on this allocator", true⟩
  else if err.is .invalidTransition then
    ⟨"CONFLICT", text "command conflicts with the current execution phase", false⟩
  else if err.is .invalidEnvelope || err.is .unsupportedMessage || err.is .leaseTooLong then
    ⟨"INVALID_REQUEST", text "invalid or unsupported command", false⟩
  else if err.is .runtimeStart || err.is .runtimeStop then
    ⟨"UNAVAILABLE", text "runtime operation failed; inspect the same allocator", true⟩
  else ⟨"INTERNAL", text "allocator could not process command", false⟩

/-- An envelope of this allocator. -/
def envelope (messageID correlationID : GoString) (now : Int) (payload : Payload) :
    Envelope :=
  ⟨messageID, cfg.identity, correlationID, some (Timestamp.new now), some payload⟩

/-- `errorResponse`. -/
def errorResponse (now : Int) (random : Random) (command : Envelope) (err : GoErr) :
    List Envelope :=
  [envelope cfg (randomID random) command.messageID now (.commandError (commandError err))]

def emptyMessageID : GoErr := Sentinel.invalidConfig.wrap (text "empty message ID")

/-- An envelope under a generated message ID, which must not be empty. -/
def respond (messageID correlationID : GoString) (now : Int) (payload : Payload) :
    Except GoErr Envelope :=
  if messageID = [] then .error emptyMessageID
  else .ok (envelope cfg messageID correlationID now payload)

/-- A reply of one response, or the error that kept it from being
built. -/
def replyOf : Except GoErr Envelope → Reply
  | .ok response => .ok response
  | .error err => .fail err

/-- `stateFromRecord`. -/
def stateFromRecord (r : ExecutionRecord) : ExecutionState where
  executionID := r.id
  phase := r.phase
  occurredAt := some (Timestamp.new r.occurredAt)
  detail := r.detail
  exitCode := r.exitCode
  revision := r.revision.toNat

/-- `stateEnvelopeLocked`. -/
def stateEnvelope (record : Option ExecutionRecord) (correlationID : GoString) (now : Int)
    (messageID : GoString) : Except GoErr Envelope :=
  match record with
  | none => .error (Sentinel.executionNotFound.wrap (text "missing execution record"))
  | some r => respond cfg messageID correlationID now (.executionState (stateFromRecord r))

-- ===== freshness

/-- `effectiveNowLocked`: the clock never moves backwards. -/
def effectiveNow (now : Int) (m : Mem) : Mem :=
  if m.highWater < now then { m with highWater := now } else m

/-- The execution a command names for `checkFreshness`. -/
def namedExecution (e : Envelope) : GoString :=
  match e.payload with
  | some (.executionInspect q) => q.executionID
  | some (.executionCancel q) => q.executionID
  | some (.executionAssign q) => q.executionID
  | some (.executionLogsRequest q) => q.executionID
  | some (.executionLeaseRenew q) => q.executionID
  | some (.executionTunnelOpen q) => q.executionID
  | _ => []

/-- The command was sent within the replay horizon, seen from `now`. -/
def withinHorizon (now : Int) (e : Envelope) : Bool :=
  !(asTime e.sentAt < now - commandHorizon) && !(now + 2 * minute < asTime e.sentAt)

/-- The record's retained result is over for its owner. -/
def ExecutionRecord.resultOver (now : Int) (sender : Bytes) (r : ExecutionRecord) : Bool :=
  r.client = sender && r.phase.terminal && !(now < r.retainUntil)

def Tombstone.guards (sender : Bytes) (id : GoString) (t : Tombstone) : Bool :=
  t.executionID ≠ [] && t.executionID = id && t.client = sender

/-- The verdict of `checkFreshness` once the clock is read. -/
def freshnessErr (e : Envelope) (m : Mem) : Option GoErr :=
  if !withinHorizon m.highWater e then some Sentinel.commandExpired.err
  else if (m.executions.lookup (namedExecution e)).any
      (ExecutionRecord.resultOver m.highWater e.sender) then
    some Sentinel.resultExpired.err
  else if m.tombstones.any fun _ t => t.guards e.sender (namedExecution e) then
    some Sentinel.resultExpired.err
  else none

/-- `checkFreshness`. -/
def checkFreshness (now : Int) (e : Envelope) (m : Mem) : Mem × Option GoErr :=
  let m := effectiveNow now m
  (m, freshnessErr e m)

end R1s.Allocator
