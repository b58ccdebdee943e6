/-
Durable state (`internal/allocator`: state.go, durable_errors.go): the
snapshot taken after every accepted transition, and the allocator
rebuilt from it.

# What the encodings do

JSON writes a string with every invalid byte replaced, keeps byte slices
and times, and refuses a time outside years 0 to 9999. A protobuf message
with a string field that is not valid UTF-8 cannot be encoded, and then
the save fails before the store is asked.
-/
import R1s.Allocator.Capacity
import R1s.Allocator.Replay

namespace R1s

-- ===== encodable messages

/-- Keys and values of a string map are valid UTF-8. -/
def StringMap.utf8 (m : StringMap) : Bool :=
  m.entries.all fun entry => Utf8.valid entry.1 && Utf8.valid entry.2

def Workload.utf8 (w : Workload) : Bool :=
  Utf8.valid w.image && w.command.all Utf8.valid && w.args.all Utf8.valid
    && w.environment.utf8 && Utf8.valid w.workingDirectory

def NodeCapabilities.utf8 (n : NodeCapabilities) : Bool :=
  Utf8.valid n.os && Utf8.valid n.arch && Utf8.valid n.runtime
    && n.resourceProfiles.all Utf8.valid && n.devices.all Utf8.valid && n.labels.utf8
    && n.cachedImages.all Utf8.valid

def PlacementConstraints.utf8 (c : PlacementConstraints) : Bool :=
  Utf8.valid c.os && Utf8.valid c.arch && Utf8.valid c.runtime && c.labels.utf8
    && c.devices.all Utf8.valid

def ExecutionRequest.utf8 (q : ExecutionRequest) : Bool :=
  Utf8.valid q.requestID && q.workload.all Workload.utf8 && Utf8.valid q.resourceClass
    && q.constraints.all PlacementConstraints.utf8 && Utf8.valid q.runID

def ExecutionOffer.utf8 (o : ExecutionOffer) : Bool :=
  Utf8.valid o.offerID && Utf8.valid o.requestID && Utf8.valid o.resourceClass
    && o.node.all NodeCapabilities.utf8

def Payload.utf8 : Payload → Bool
  | .executionRequest m => m.utf8
  | .executionOffer m => m.utf8
  | .executionAssign m =>
    Utf8.valid m.requestID && Utf8.valid m.offerID && Utf8.valid m.executionID
  | .executionCancel m => Utf8.valid m.executionID && Utf8.valid m.reason
  | .executionState m => Utf8.valid m.executionID && Utf8.valid m.detail
  | .executionInspect m => Utf8.valid m.executionID
  | .executionOfferRelease m => Utf8.valid m.requestID && Utf8.valid m.offerID
  | .executionOfferReleaseAck m => Utf8.valid m.requestID && Utf8.valid m.offerID
  | .commandError m => Utf8.valid m.detail
  | .executionLogsRequest m => Utf8.valid m.executionID && Utf8.valid m.stream
  | .executionLogsResponse m => Utf8.valid m.executionID && Utf8.valid m.stream
  | .executionLeaseRenew m => Utf8.valid m.executionID
  | .executionLeaseRenewAck m => Utf8.valid m.executionID
  | .executionTunnelOpen m => Utf8.valid m.executionID
  | .executionTunnelOpenAck m => Utf8.valid m.executionID

/-- `proto.Marshal` accepts the envelope. -/
def Envelope.utf8 (e : Envelope) : Bool :=
  Utf8.valid e.messageID && Utf8.valid e.correlationID && e.payload.all Payload.utf8

/-- `time.Time.MarshalJSON` accepts the instant: years 0 to 9999. -/
def jsonTime (t : Int) : Bool := -31622400000000000 ≤ t && t < 315537897600000000000

namespace Allocator

variable (cfg : Config)

-- ===== saved errors

/-- The sentinels with a durable code. -/
def durableErrors : List Sentinel :=
  [ .resultExpired, .commandExpired, .admission, .offerReleased, .unsupportedMessage,
    .capacityExhausted, .offerNotFound, .offerExpired, .offerAlreadyAssigned,
    .executionNotFound, .executionConflict, .unauthorized, .invalidTransition,
    .runtimeStart, .runtimeStop, .idCollision, .replayCapacity, .replayConflict, .store ]

/-- `classifyError`: the first match of a map iteration, in an order that
starts with `prefer`. -/
def classifyError (prefer : List Sentinel) (err : GoErr) : Option Sentinel :=
  ((prefer.filter fun s => s ∈ durableErrors) ++ durableErrors).find? err.is

/-- `restoreError`. -/
def restoreError (code : Option Sentinel) (message : GoString) : GoErr :=
  match code with
  | some s => s.wrap message
  | none => ⟨[], message⟩

-- ===== saving

/-- What the environment decides about one save: whether the store
refuses it, and the iteration orders. -/
structure SaveIn where
  fault : Option Fault := none
  order : List GoString := []
  prefer : List Sentinel := []

def storeErr (inner : GoString) : GoErr :=
  ⟨[.store], Sentinel.store.text ++ 0x0A :: inner⟩

def OfferRecord.encodable (r : OfferRecord) : Bool := r.offer.utf8 && r.request.utf8

def ReplayEntry.encodable (entry : ReplayEntry) : Bool :=
  entry.envelope.utf8 && (!entry.done || entry.responses.all Envelope.utf8)

def ExecutionRecord.jsonTimes (r : ExecutionRecord) : Bool :=
  jsonTime r.retainUntil && jsonTime r.leaseUntil && jsonTime r.occurredAt
    && jsonTime r.startedAt

/-- Every message of the state can be encoded. -/
def Mem.encodable (m : Mem) : Bool :=
  m.offers.entries.all (fun e => e.2.encodable)
    && m.executions.entries.all (fun e => e.2.request.utf8)
    && m.replay.entries.all fun e => e.2.encodable

/-- Every time of the state can be written as JSON. -/
def Mem.jsonTimes (m : Mem) : Bool :=
  jsonTime m.highWater && m.tombstones.entries.all (fun e => jsonTime e.2.expiresAt)
    && m.executions.entries.all (fun e => e.2.jsonTimes)
    && m.replay.entries.all fun e => jsonTime e.2.seenAt

/-- A tombstone's JSON form. -/
def Tombstone.save (t : Tombstone) : Tombstone :=
  { t with
    requestID := Utf8.replaceInvalid t.requestID,
    offerID := Utf8.replaceInvalid t.offerID,
    executionID := Utf8.replaceInvalid t.executionID }

/-- `persistedOffer`. -/
def OfferRecord.save (r : OfferRecord) : OfferRecord :=
  { r with execution := Utf8.replaceInvalid r.execution }

/-- `persistedExecution`. -/
def ExecutionRecord.save (r : ExecutionRecord) : ExecutionRecord :=
  { r with
    id := Utf8.replaceInvalid r.id,
    offerID := Utf8.replaceInvalid r.offerID,
    resourceClass := Utf8.replaceInvalid r.resourceClass,
    detail := Utf8.replaceInvalid r.detail }

/-- `persistedReplay`: responses and error of a finished entry only. -/
def ReplayEntry.save (prefer : List Sentinel) (key : GoString) (entry : ReplayEntry) :
    PersistedReplay where
  key := Utf8.replaceInvalid key
  seenAt := entry.seenAt
  envelope := entry.envelope
  responses := if entry.done then entry.responses else []
  error :=
    if entry.done then Utf8.replaceInvalid ((entry.err.map GoErr.text).getD []) else []
  errorCode := if entry.done then entry.err.bind (classifyError prefer) else none
  complete := entry.done

/-- The snapshot `persistLocked` builds. -/
def snapshot (i : SaveIn) (m : Mem) : Snapshot where
  identity := cfg.identity
  highWater := m.highWater
  tombstones := m.tombstones.entries.map fun e => (Utf8.replaceInvalid e.1, e.2.save)
  offers := m.offers.entries.map fun e => e.2.save
  executions := m.executions.entries.map fun e => e.2.save
  replay := (visit i.order m.replay).filterMap fun key =>
    (m.replay.lookup key).map fun entry => entry.save i.prefer key

/-- `persistLocked`. -/
def persist (i : SaveIn) (w : World) : Except GoErr World :=
  if !cfg.stored then .ok w
  else if !w.mem.encodable then
    .error (storeErr (text "string field contains invalid UTF-8"))
  else if !w.mem.jsonTimes then
    .error (storeErr (text "Time.MarshalJSON: year outside of range [0,9999]"))
  else
    match i.fault with
    | some f => .error ⟨.store :: f.err.sentinels, Sentinel.store.text ++ 0x0A :: f.text⟩
    | none => .ok { w with disk := some (snapshot cfg i w.mem) }

-- ===== loading

/-- An error of `loadLocked` about the stored data. -/
def loadErr (detail : GoString) : GoErr := Sentinel.store.wrap detail

/-- One round of the offer loop of `loadLocked`: the offers and the
request index so far. -/
def loadOffer (acc : FMap GoString OfferRecord × FMap GoString GoString)
    (saved : OfferRecord) :
    Except GoErr (FMap GoString OfferRecord × FMap GoString GoString) :=
  let requestKey := authorityKey saved.client saved.request.requestID
  if saved.offer.offerID = [] ∨ saved.request.requestID = []
      ∨ saved.offer.requestID ≠ saved.request.requestID then
    .error (loadErr (text "invalid durable offer"))
  else if (acc.1.lookup saved.offer.offerID).isSome then
    .error (loadErr (text "duplicate durable offer " ++ quote saved.offer.offerID))
  else if (acc.2.lookup requestKey).isSome then
    .error (loadErr (text "duplicate durable request " ++ quote saved.request.requestID))
  else
    .ok (acc.1.insert saved.offer.offerID saved, acc.2.insert requestKey saved.offer.offerID)

/-- The record `loadLocked` builds of a saved execution: missing bounds
of older snapshots are filled in. -/
def ExecutionRecord.restore (now : Int) (saved : ExecutionRecord) : ExecutionRecord :=
  { saved with
    revision := max 1 saved.revision,
    retainUntil :=
      if saved.phase.terminal ∧ saved.retainUntil = 0 then saved.occurredAt + cfg.retention
      else saved.retainUntil,
    leaseUntil :=
      if ¬saved.phase.terminal ∧ saved.leaseUntil = 0 then now + cfg.leaseTTL
      else saved.leaseUntil }

/-- One round of the execution loop of `loadLocked`. -/
def loadExecution (now : Int) (acc : FMap GoString ExecutionRecord)
    (saved : ExecutionRecord) : Except GoErr (FMap GoString ExecutionRecord) :=
  if saved.id = [] ∨ saved.offerID = [] ∨ saved.resourceClass = []
      ∨ saved.request.requestID = [] then
    .error (loadErr (text "invalid durable execution"))
  else if (acc.lookup saved.id).isSome then
    .error (loadErr (text "duplicate durable execution " ++ quote saved.id))
  else if saved.phase = .unspecified then
    .error (loadErr (text "invalid durable execution phase"))
  else if saved.startedAt = 0 ∨ saved.occurredAt = 0
      ∨ saved.phase.terminal ≠ saved.released then
    .error (loadErr (text "inconsistent durable execution " ++ quote saved.id))
  else .ok (acc.insert saved.id (saved.restore cfg now))

/-- The entry `loadLocked` builds of a saved command. -/
def PersistedReplay.restore (saved : PersistedReplay) : ReplayEntry where
  seenAt := saved.seenAt
  done := true
  envelope := saved.envelope
  responses := saved.responses
  err := if saved.error = [] then none else some (restoreError saved.errorCode saved.error)
  owner := 0

/-- One round of the replay loop of `loadLocked`: unfinished commands are
forgotten. -/
def loadReplay (acc : FMap GoString ReplayEntry) (saved : PersistedReplay) :
    FMap GoString ReplayEntry :=
  if !saved.complete ∨ saved.key = [] then acc else acc.insert saved.key saved.restore

/-- The offer still holds its slot: it is outstanding, or assigned to an
execution that has not released it. -/
def OfferRecord.holds (executions : FMap GoString ExecutionRecord) (r : OfferRecord) : Bool :=
  match r.status with
  | .outstanding => true
  | .assigned =>
    match executions.lookup r.execution with
    | some x => !x.released
    | none => false
  | _ => false

/-- The offer's execution is there and names the offer and its class. -/
def OfferRecord.matched (executions : FMap GoString ExecutionRecord) (r : OfferRecord) : Bool :=
  match executions.lookup r.execution with
  | some x => x.offerID = r.offer.offerID && x.resourceClass = r.offer.resourceClass
  | none => false

/-- The last loop of `loadLocked`: an assigned offer needs its execution,
and every holder takes its slot. -/
def reserveLoaded (executions : FMap GoString ExecutionRecord) (used : GoString → Nat)
    (r : OfferRecord) : Except GoErr (GoString → Nat) :=
  if r.status = .assigned ∧ r.matched executions = false then
    .error (loadErr (text "assigned offer " ++ quote r.offer.offerID
      ++ text " has no matching execution"))
  else if r.holds executions then
    match reserve cfg used r.offer.resourceClass with
    | some used => .ok used
    | none =>
      .error (Sentinel.invalidConfig.wrap
        (text "durable state exceeds configured capacity for class "
          ++ quote r.offer.resourceClass))
  else .ok used

/-- The state of an allocator before it loads. -/
def Mem.empty : Mem where
  highWater := 0
  tombstones := ∅
  used := fun _ => 0
  offers := ∅
  requests := ∅
  executions := ∅
  replay := ∅
  tunnels := Tunnel.Registry.new

/-- The state read from a snapshot, before offers expire and slots are
taken. -/
def loaded (snap : Snapshot)
    (index : FMap GoString OfferRecord × FMap GoString GoString)
    (executions : FMap GoString ExecutionRecord) : Mem where
  highWater := snap.highWater
  tombstones := snap.tombstones.foldl (fun acc e => acc.insert e.1 e.2) ∅
  used := fun _ => 0
  offers := index.1
  requests := index.2
  executions := executions
  replay := snap.replay.foldl loadReplay ∅
  tunnels := Tunnel.Registry.new

/-- `loadLocked` on a decoded snapshot; `granted` is the clock read for a
fresh lease, `now` the one read before offers expire. -/
def load (granted now : Int) (snap : Snapshot) : Except GoErr Mem := do
  if snap.identity ≠ cfg.identity then
    throw (loadErr (text "state belongs to a different allocator identity"))
  let index ← snap.offers.foldlM loadOffer (∅, ∅)
  let executions ← snap.executions.foldlM (loadExecution cfg granted) ∅
  let m := expireOffers now (loaded snap index executions)
  let used ← (m.offers.entries.map Sigma.snd).foldlM (reserveLoaded cfg executions) m.used
  return { m with used := used }

/-- The allocator `New` returns over what the store holds. -/
def restart (granted now : Int) (disk : Option Snapshot) : Except GoErr Mem :=
  match disk with
  | none => .ok .empty
  | some snap => load cfg granted now snap

end Allocator

end R1s
