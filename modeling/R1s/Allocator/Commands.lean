/-
The command handlers (`internal/allocator`: offers.go, assign.go,
cancel.go, release.go, lease.go, logs.go, tunnel.go, and `finishLocked`
of runtime_bridge.go), one definition per critical section.

Records live behind pointers in the source; here an update of a record is
an insertion under its key, and a rollback writes the earlier values
back as the source does, field by field.
-/
import R1s.Allocator.Feedback

namespace R1s.Allocator

variable (cfg : Config)

def World.setMem (w : World) (m : Mem) : World := { w with mem := m }

/-- `persistLocked` where the section goes on after a failure. -/
def tryPersist (i : SaveIn) (w : World) : World × Option GoErr :=
  match persist cfg i w with
  | .ok w' => (w', none)
  | .error err => (w, some err)

/-- A section that leaves the state as `w` and replies with an error. -/
def refuse (w : World) (err : GoErr) : World × Outcome := (w, .reply (.fail err))

-- ===== requests

/-- The answer to a request whose offer record exists. -/
def resendOffer (i : Input) (e : Envelope) (request : ExecutionRequest)
    (record : OfferRecord) : Reply :=
  if record.status = .expired then .fail Sentinel.offerExpired.err
  else if record.request ≠ request then
    .fail (Sentinel.executionConflict.wrap
      (text "request ID " ++ quote request.requestID
        ++ text " was reused with different content"))
  else if record.status = .released then .fail Sentinel.offerReleased.err
  else replyOf (respond cfg i.id e.messageID i.now (.executionOffer record.offer))

def Tombstone.retires (sender : Bytes) (requestID : GoString) (t : Tombstone) : Bool :=
  t.client = sender && t.requestID = requestID

/-- The checks a request passes before an offer is minted. -/
def requestErr (e : Envelope) (request : ExecutionRequest) (m : Mem) : Option GoErr :=
  if m.tombstones.any fun _ t => t.retires e.sender request.requestID then
    some Sentinel.resultExpired.err
  else if cfg.maxRecords < m.offers.size * 2 + m.tombstones.size + 2 then
    some Sentinel.capacityExhausted.err
  else
    match admitLocked cfg m e.sender false with
    | some err => some err
    | none =>
      if available cfg m.used request.resourceClass = 0 then
        some (capacityErr request.resourceClass)
      else if !placementMatches request.constraints cfg.node then
        some (Sentinel.incompatible.wrap
          (placementConflictDetails request.constraints cfg.node))
      else if cfg.node.any fun n => !n.resourceProfiles.contains request.resourceClass then
        some (Sentinel.admission.wrap (text "resource class " ++ quote request.resourceClass))
      else none

/-- The offer minted for a request. -/
def mintOffer (i : Input) (request : ExecutionRequest) : ExecutionOffer where
  offerID := i.id
  requestID := request.requestID
  resourceClass := request.resourceClass
  expiresAt := some (Timestamp.new (i.now + cfg.offerTTL))
  node := cfg.node

/-- The record a minted offer is kept in. -/
def mintRecord (i : Input) (e : Envelope) (request : ExecutionRequest) : OfferRecord where
  offer := mintOffer cfg i request
  request := request
  client := e.sender
  status := .outstanding
  execution := []
  resources := (cfg.admission.profiles.lookup request.resourceClass).getD .zero

/-- The end of `handleRequest`: reserve a slot, record the offer and
save, undoing both when the save fails. -/
def commitOffer (i : Input) (e : Envelope) (request : ExecutionRequest)
    (response : Envelope) (w : World) : World × Reply :=
  let m := w.mem
  let requestKey := authorityKey e.sender request.requestID
  let dropped (used : GoString → Nat) : Mem :=
    { m with
      offers := (m.offers.insert i.id (mintRecord cfg i e request)).erase i.id,
      requests := (m.requests.insert requestKey i.id).erase requestKey,
      used := used }
  match reserve cfg m.used request.resourceClass with
  | none => (w.setMem (dropped m.used), .fail (capacityErr request.resourceClass))
  | some used =>
    let recorded : Mem :=
      { m with
        offers := m.offers.insert i.id (mintRecord cfg i e request),
        requests := m.requests.insert requestKey i.id,
        used := used }
    match persist cfg i.saved (w.setMem recorded) with
    | .error err => (w.setMem (dropped (release used request.resourceClass)), .fail err)
    | .ok w' => (w', .ok response)

/-- `handleRequest` once no record answers it. -/
def newOffer (i : Input) (e : Envelope) (request : ExecutionRequest) (w : World) :
    World × Reply :=
  match requestErr cfg e request w.mem with
  | some err => (w, .fail err)
  | none =>
    if i.id = [] then
      (w, .fail (Sentinel.invalidConfig.wrap (text "empty offer ID")))
    else if (w.mem.offers.lookup i.id).isSome then
      (w, .fail (Sentinel.idCollision.wrap (text "offer " ++ quote i.id)))
    else
      match respond cfg i.id2 e.messageID i.now (.executionOffer (mintOffer cfg i request)) with
      | .error err => (w, .fail err)
      | .ok response => commitOffer cfg i e request response w

/-- The record a request's key leads to. -/
def Mem.requested (m : Mem) (e : Envelope) (request : ExecutionRequest) :
    Option OfferRecord :=
  (m.requests.lookup (authorityKey e.sender request.requestID)).bind m.offers.lookup

/-- `handleRequest`. -/
def handleRequest (i : Input) (e : Envelope) (request : ExecutionRequest) (w : World) :
    World × Reply :=
  let w := w.setMem (expireOffers i.now w.mem)
  match w.mem.requested e request with
  | some record => (w, resendOffer cfg i e request record)
  | none => newOffer cfg i e request w

-- ===== inspect

/-- `handleInspect`. -/
def handleInspect (i : Input) (e : Envelope) (inspect : ExecutionInspect) (w : World) :
    World × Reply :=
  match w.mem.executions.lookup inspect.executionID with
  | none => (w, .fail (Sentinel.executionNotFound.wrap (quote inspect.executionID)))
  | some record =>
    if record.client ≠ e.sender then (w, .fail Sentinel.unauthorized.err)
    else (w, replyOf (stateEnvelope cfg (some record) e.messageID i.now i.id))

-- ===== finishing

/-- `finishLocked` on the record. -/
def finishRecord (highWater : Int) (r : ExecutionRecord) (phase : ExecutionPhase)
    (detail : GoString) (exitCode : Option Int) (now : Int) : ExecutionRecord :=
  { r with
    phase := phase,
    detail := detail,
    exitCode := exitCode,
    occurredAt := now,
    revision := r.revision + 1,
    retainUntil := max now highWater + cfg.retention,
    released := true }

/-- `finishLocked` for the record under `key`: the terminal state, the
slot given back unless it already was, and the tunnel closed. -/
def finish (key : GoString) (r : ExecutionRecord) (phase : ExecutionPhase)
    (detail : GoString) (exitCode : Option Int) (now : Int) (m : Mem) : Mem :=
  { m with
    executions :=
      m.executions.insert key (finishRecord cfg m.highWater r phase detail exitCode now),
    used := if r.released then m.used else release m.used r.resourceClass,
    tunnels := m.tunnels.invalidate r.id }

/-- A record changed in place. -/
def Mem.setExecution (m : Mem) (key : GoString) (r : ExecutionRecord) : Mem :=
  { m with executions := m.executions.insert key r }

-- ===== assignment

/-- The record an assignment creates. -/
def assignRecord (i : Input) (assign : ExecutionAssign) (offer : OfferRecord) :
    ExecutionRecord where
  id := assign.executionID
  offerID := offer.offer.offerID
  client := offer.client
  resourceClass := offer.offer.resourceClass
  request := offer.request
  phase := .starting
  detail := []
  exitCode := none
  occurredAt := i.now
  startedAt := i.now
  released := false
  retainUntil := 0
  leaseUntil := i.now + cfg.leaseTTL
  revision := 1
  resources := offer.resources

/-- The reservation of `handleAssign`: offer and execution change together
and are saved before the runtime is asked. -/
def commitAssign (i : Input) (assign : ExecutionAssign) (offer : OfferRecord) (w : World) :
    World × Outcome :=
  let m := w.mem
  let record := assignRecord cfg i assign offer
  let assigned : Mem :=
    { m with
      offers := m.offers.insert assign.offerID
        { offer with status := .assigned, execution := record.id },
      executions := m.executions.insert record.id record }
  match persist cfg i.saved (w.setMem assigned) with
  | .error err =>
    refuse (w.setMem
      { m with
        offers := m.offers.insert assign.offerID
          { offer with status := .outstanding, execution := [] },
        executions := (m.executions.insert record.id record).erase record.id }) err
  | .ok w' => (w', .start record.id)

/-- `handleAssign` on an outstanding offer. -/
def assignOutstanding (i : Input) (e : Envelope) (assign : ExecutionAssign)
    (offer : OfferRecord) (w : World) : World × Outcome :=
  match w.mem.executions.lookup assign.executionID with
  | some existing =>
    if existing.offerID = offer.offer.offerID ∧ existing.client = e.sender then
      (w, .reply ⟨[], none⟩)
    else refuse w (Sentinel.executionConflict.wrap (quote assign.executionID))
  | none =>
    if !placementMatches offer.request.constraints cfg.node then
      refuse w (Sentinel.incompatible.wrap
        (placementConflictDetails offer.request.constraints cfg.node))
    else
      match admitLocked cfg w.mem e.sender true with
      | some err => refuse w err
      | none => commitAssign cfg i assign offer w

/-- `handleAssign` up to the runtime's start. -/
def assignBegin (i : Input) (e : Envelope) (assign : ExecutionAssign) (w : World) :
    World × Outcome :=
  let w := w.setMem (expireOffers i.now w.mem)
  match w.mem.offers.lookup assign.offerID with
  | none => refuse w (Sentinel.offerNotFound.wrap (quote assign.offerID))
  | some offer =>
    if offer.client ≠ e.sender then refuse w Sentinel.unauthorized.err
    else if offer.offer.requestID ≠ assign.requestID then
      refuse w (Sentinel.executionConflict.wrap
        (text "assignment request does not match offer"))
    else
      match offer.status with
      | .released => refuse w Sentinel.offerReleased.err
      | .expired => refuse w Sentinel.offerExpired.err
      | .assigned =>
        if offer.execution ≠ assign.executionID then
          refuse w Sentinel.offerAlreadyAssigned.err
        else
          (w, .reply (replyOf (stateEnvelope cfg
            (w.mem.executions.lookup offer.execution) e.messageID i.now i.id)))
      | .outstanding => assignOutstanding cfg i e assign offer w

/-- The record advanced by the runtime's answer to a start. -/
def startReturned (i : Input) (id : GoString) (current : ExecutionRecord) (m : Mem) : Mem :=
  if current.phase = .starting then
    match i.fault with
    | some f => finish cfg id current .failed f.text none i.now m
    | none =>
      m.setExecution id
        { current with
          phase := .running, occurredAt := i.now, revision := current.revision + 1 }
  else m

/-- `handleAssign` after the runtime's start. Without a record the source
dereferences nil: there is no result. -/
def assignFinish (i : Input) (e : Envelope) (id : GoString) (w : World) :
    Option (World × Reply) :=
  match w.mem.executions.lookup id with
  | none => none
  | some current =>
    let startErr := i.fault.map Fault.err
    let w := w.setMem (startReturned cfg i id current w.mem)
    let response := stateEnvelope cfg (w.mem.executions.lookup id) e.messageID i.later i.id
    let (w, persistErr) := tryPersist cfg i.saved w
    some (w,
      match response with
      | .error err => .fail err
      | .ok response =>
        if persistErr.isSome then ⟨[response], joinErrs [startErr, persistErr]⟩
        else if startErr.isSome then
          ⟨[response], joinErrs [some Sentinel.runtimeStart.err, startErr]⟩
        else .ok response)

-- ===== cancellation

/-- The record put into CANCELLING. -/
def cancelling (r : ExecutionRecord) (detail : GoString) (now : Int) : ExecutionRecord :=
  { r with
    phase := .cancelling, detail := detail, occurredAt := now, revision := r.revision + 1 }

/-- The CANCELLING transition that cancellation and eviction commit
before they stop the task; a failed save writes the four fields back. -/
def beginStop (i : Input) (key : GoString) (r : ExecutionRecord) (detail : GoString)
    (now : Int) (w : World) : Except (World × GoErr) World :=
  let stopping := cancelling r detail now
  match persist cfg i.saved (w.setMem (w.mem.setExecution key stopping)) with
  | .ok w' => .ok w'
  | .error err =>
    .error (w.setMem (w.mem.setExecution key
      { stopping with
        phase := r.phase, detail := r.detail, occurredAt := r.occurredAt,
        revision := r.revision }), err)

/-- `handleCancel` up to the runtime's stop. -/
def cancelBegin (i : Input) (e : Envelope) (cancel : ExecutionCancel) (w : World) :
    World × Outcome :=
  match w.mem.executions.lookup cancel.executionID with
  | none => refuse w (Sentinel.executionNotFound.wrap (quote cancel.executionID))
  | some record =>
    if record.client ≠ e.sender then refuse w Sentinel.unauthorized.err
    else if h : record.phase.terminal = false ∧ record.phase ≠ .cancelling then
      match beginStop cfg i cancel.executionID record cancel.reason i.now w with
      | .error (w', err) => refuse w' err
      | .ok w' => (w', .stop cancel.reason record.id ⟨record.phase, h⟩ record.detail)
    else
      (w, .reply (replyOf (stateEnvelope cfg (some record) e.messageID i.now i.id)))

/-- A failed stop: a record still CANCELLING returns to the phase and
detail captured before the stop. -/
def stopFailed (i : Input) (id : GoString) (current : ExecutionRecord)
    (previousPhase : ActivePhase) (previousDetail : GoString) (m : Mem) : Mem :=
  if current.phase = .cancelling then
    m.setExecution id
      { current with
        phase := previousPhase.1, detail := previousDetail, occurredAt := i.now,
        revision := current.revision + 1 }
  else m

/-- A stop that went through ends the execution unless it already is
terminal. -/
def stopSucceeded (now : Int) (id : GoString) (current : ExecutionRecord)
    (phase : ExecutionPhase) (detail : GoString) (m : Mem) : Mem :=
  if current.phase.terminal then m else finish cfg id current phase detail none now m

/-- `handleCancel` after the runtime's stop. -/
def cancelFinish (i : Input) (e : Envelope) (reason : GoString) (id : GoString)
    (previousPhase : ActivePhase) (previousDetail : GoString) (w : World) :
    Option (World × Reply) :=
  match w.mem.executions.lookup id with
  | none => none
  | some current =>
    match i.fault with
    | some f =>
      let (w, persistErr) := tryPersist cfg i.saved
        (w.setMem (stopFailed i id current previousPhase previousDetail w.mem))
      some (w, ⟨[], joinErrs [some Sentinel.runtimeStop.err, some f.err, persistErr]⟩)
    | none =>
      let w := w.setMem (stopSucceeded cfg i.now id current .cancelled reason w.mem)
      let response :=
        stateEnvelope cfg (w.mem.executions.lookup id) e.messageID i.later i.id
      let (w, persistErr) := tryPersist cfg i.saved w
      some (w,
        match response with
        | .error err => .fail err
        | .ok response => ⟨[response], persistErr⟩)

-- ===== release

/-- The record `handleOfferRelease` works on: a collected offer answers
through its tombstone. -/
def releaseTarget (m : Mem) (offerID : GoString) : Option OfferRecord :=
  match m.offers.lookup offerID with
  | some record => some record
  | none =>
    (m.tombstones.lookup offerID).map fun dead =>
      { offer := ⟨dead.offerID, dead.requestID, [], none, none⟩,
        request := ⟨[], none, none, [], none, [], 0⟩,
        client := dead.client, status := .expired, execution := [], resources := .zero }

/-- The outcome reported for a record after the release. -/
def releaseOutcome : OfferStatus → OfferReleaseOutcome
  | .expired => .expired
  | .assigned => .assigned
  | _ => .released

/-- The status an outstanding offer leaves with. -/
def releasedStatus (now : Int) (r : OfferRecord) : OfferStatus :=
  if now < asTime r.offer.expiresAt then .released else .expired

/-- `handleOfferRelease`. -/
def handleOfferRelease (i : Input) (e : Envelope) (rel : ExecutionOfferRelease) (w : World) :
    World × Reply :=
  match releaseTarget w.mem rel.offerID with
  | none => (w, .fail Sentinel.offerNotFound.err)
  | some record =>
    if record.client ≠ e.sender then (w, .fail Sentinel.unauthorized.err)
    else if record.offer.requestID ≠ rel.requestID then
      (w, .fail Sentinel.executionConflict.err)
    else if i.id = [] then (w, .fail emptyMessageID)
    else
      let ack (status : OfferStatus) : Reply :=
        .ok (envelope cfg i.id e.messageID i.now
          (.executionOfferReleaseAck ⟨rel.requestID, rel.offerID, releaseOutcome status⟩))
      if record.status = .outstanding then
        let status := releasedStatus i.now record
        let cls := record.offer.resourceClass
        let m := w.mem
        let freed : Mem :=
          { m with
            offers := m.offers.insert rel.offerID { record with status := status },
            used := release m.used cls }
        match persist cfg i.saved (w.setMem freed) with
        | .ok w' => (w', ack status)
        | .error err =>
          (w.setMem
            { m with
              offers := m.offers.insert rel.offerID record,
              used := (reserve cfg freed.used cls).getD freed.used }, .fail err)
      else (w, ack record.status)

-- ===== lease renewal

/-- The enum's text. -/
def phaseName : ExecutionPhase → GoString
  | .unspecified => text "EXECUTION_PHASE_UNSPECIFIED"
  | .starting => text "EXECUTION_PHASE_STARTING"
  | .running => text "EXECUTION_PHASE_RUNNING"
  | .cancelling => text "EXECUTION_PHASE_CANCELLING"
  | .cancelled => text "EXECUTION_PHASE_CANCELLED"
  | .completed => text "EXECUTION_PHASE_COMPLETED"
  | .failed => text "EXECUTION_PHASE_FAILED"

/-- `handleLeaseRenew`. -/
def handleLeaseRenew (i : Input) (e : Envelope) (renew : ExecutionLeaseRenew) (w : World) :
    World × Reply :=
  match w.mem.executions.lookup renew.executionID with
  | none => (w, .fail (Sentinel.executionNotFound.wrap (quote renew.executionID)))
  | some record =>
    let duration := ((renew.leaseDuration).map PbDuration.asDuration).getD 0
    if record.client ≠ e.sender then (w, .fail Sentinel.unauthorized.err)
    else if record.phase.terminal then
      (w, .fail (Sentinel.invalidTransition.wrap
        (text "execution " ++ quote record.id ++ text " is " ++ phaseName record.phase)))
    else if record.phase = .cancelling then
      (w, .fail (Sentinel.invalidTransition.wrap
        (text "execution " ++ quote record.id ++ text " is cancelling")))
    else if maxLeaseTTL < duration then
      (w, .fail (Sentinel.leaseTooLong.wrap (text "lease duration exceeds 168h0m0s")))
    else
      let renewed := { record with leaseUntil := i.now + duration }
      match persist cfg i.saved (w.setMem (w.mem.setExecution renew.executionID renewed)) with
      | .error err =>
        (w.setMem (w.mem.setExecution renew.executionID
          { renewed with leaseUntil := record.leaseUntil }), .fail err)
      | .ok w' =>
        (w', replyOf (respond cfg i.id e.messageID i.now
          (.executionLeaseRenewAck
            ⟨record.id, some (Timestamp.new renewed.leaseUntil)⟩)))

-- ===== logs

/-- The error `handleLogs` reports for a failed read. -/
def logErr (f : Fault) : GoErr :=
  if f.err.is .logsMissing then Sentinel.executionNotFound.err
  else if f.err.is .logOffset then Sentinel.executionConflict.err
  else f.err

/-- `handleLogs`. Log data passes the replay cache by. -/
def handleLogs (i : Input) (e : Envelope) (q : ExecutionLogsRequest) (w : World) : Reply :=
  let refused (err : GoErr) : Reply := ⟨errorResponse cfg i.now i.random e err, some err⟩
  if (w.mem.executions.lookup q.executionID).all fun r => r.client ≠ e.sender then
    refused Sentinel.executionNotFound.err
  else if !cfg.logs then refused Sentinel.executionNotFound.err
  else
    match i.fault with
    | some f => refused (logErr f)
    | none =>
      .ok (envelope cfg (randomID i.random) e.messageID i.now
        (.executionLogsResponse
          { executionID := q.executionID, stream := q.stream, offset := q.offset,
            data := i.chunk.data, nextOffset := i.chunk.nextOffset, eof := i.chunk.eof,
            truncated := i.chunk.truncated, sha256 := cfg.sum256 i.chunk.data }))

-- ===== tunnels

/-- `handleTunnelOpen` under the allocator's lock. -/
def tunnelCheck (i : Input) (e : Envelope) (request : ExecutionTunnelOpen) (w : World) :
    Outcome :=
  match w.mem.executions.lookup request.executionID with
  | none => .reply (.fail (Sentinel.executionNotFound.wrap (quote request.executionID)))
  | some record =>
    if record.client ≠ e.sender then .reply (.fail Sentinel.unauthorized.err)
    else if record.phase.terminal then
      .reply (.fail (Sentinel.invalidTransition.wrap
        (text "execution " ++ quote record.id ++ text " is " ++ phaseName record.phase)))
    else .bind request i.now

/-- `handleTunnelOpen` after the lock is released: the binding has the
registry's own lock only. -/
def tunnelBind (i : Input) (now : Int) (e : Envelope) (request : ExecutionTunnelOpen)
    (w : World) : World × Reply :=
  if !cfg.tunnelEnabled then (w, .fail Sentinel.tunnelDisabled.err)
  else
    match validateTunnelTargets request.targets with
    | .error problem => (w, .fail (Sentinel.invalidEnvelope.wrap (text problem)))
    | .ok targets =>
      let endpoint := cfg.tunnelEndpoint
      if endpoint.address = [] ∨ endpoint.pubKey = [] then
        (w, .fail Sentinel.tunnelNoEndpoint.err)
      else
        match w.mem.tunnels.bind request.executionID request.yggPeerPubkey targets
            endpoint with
        | .error problem => (w, .fail ⟨[], text problem⟩)
        | .ok tunnels =>
          (w.setMem { w.mem with tunnels := tunnels },
            replyOf (respond cfg i.id e.messageID now
              (.executionTunnelOpenAck
                ⟨request.executionID, endpoint.address, endpoint.pubKey, targets⟩)))

end R1s.Allocator
