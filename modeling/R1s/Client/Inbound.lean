/-
The messages the client core accepts (`internal/client`: inbound.go,
feedback.go, lease_ack.go, and the handlers of logs.go, release.go and
tunnel.go), the core as a state machine over all its operations, and the
public client's way from an envelope to the waiters
(`handleEnvelope`, `dispatchEnvelope` of `client/client.go`).
-/
import R1s.Client.Commands
import R1s.Lib.Transition

namespace R1s.Client

open Allocator (quote visit)

variable (cfg : Config)

-- ===== the offers

/-- `CapabilitiesEqual`: deep equality, where a nil set equals only
itself. -/
def capabilitiesEqual (left right : Option NodeCapabilities) : Bool := decide (left = right)

/-- The catalog with the offer's capabilities, the freshest evidence. -/
def refreshNode (sender : Bytes) (offer : ExecutionOffer) (s : State) : State :=
  match s.allocators.lookup sender with
  | some allocator =>
    if offer.node.isSome && !capabilitiesEqual allocator.node offer.node then
      { s with
        allocators := s.allocators.insert sender { allocator with node := offer.node } }
    else s
  | none => s

/-- `handleOfferLocked`. -/
def handleOffer (i : Input) (e : Envelope) (offer : ExecutionOffer) (s : State) :
    State × Option Err :=
  match s.requests.lookup offer.requestID with
  | none => (s, some (Sentinel.requestNotFound.wrap (quote offer.requestID)))
  | some record =>
    if record.messageID ≠ e.correlationID
        ∨ offer.resourceClass ≠ record.request.resourceClass then
      (s, some Sentinel.conflict.err)
    else if (s.allocators.lookup e.sender).isNone then (s, some Sentinel.unauthorized.err)
    else
      let s := refreshNode e.sender offer s
      match record.offers.lookup offer.offerID with
      | some existing =>
        if existing.allocatorID ≠ e.sender ∨ existing.offer ≠ offer then
          (s, some Sentinel.conflict.err)
        else (s, none)
      | none =>
        let fresh : OfferRecord := ⟨offer, e.sender, i.time 0, none⟩
        let put (o : OfferRecord) : State :=
          { s with
            requests := s.requests.insert offer.requestID
              { record with offers := record.offers.insert offer.offerID o } }
        if record.executionID = [] then (put fresh, none)
        else
          match s.executions.lookup record.executionID with
          | none => (s, some nilRecord)
          | some execution =>
            if execution.offerID = offer.offerID ∧ execution.allocatorID = e.sender then
              (s, some Sentinel.conflict.err)
            else
              match newRelease (i.id 0) (i.time 1) fresh s with
              | .error err => (s, some err)
              | .ok intent => (put { fresh with release := some intent }, none)

/-- `handleReleaseAckLocked`. -/
def handleReleaseAck (e : Envelope) (ack : ExecutionOfferReleaseAck) (s : State) :
    State × Option Err :=
  match s.requests.lookup ack.requestID with
  | none => (s, some Sentinel.requestNotFound.err)
  | some request =>
    match request.offers.lookup ack.offerID with
    | none => (s, some Sentinel.conflict.err)
    | some offer =>
      match offer.release with
      | none => (s, some Sentinel.conflict.err)
      | some release =>
        if offer.allocatorID ≠ e.sender then (s, some Sentinel.unauthorized.err)
        else if release.messageID ≠ e.correlationID then (s, some Sentinel.conflict.err)
        else if ack.outcome = .assigned then (s, some Sentinel.conflict.err)
        else
          ({ s with
              requests := s.requests.insert ack.requestID
                { request with
                  offers := request.offers.insert ack.offerID
                    { offer with release := some { release with acknowledged := true } } } },
            none)

-- ===== the states

/-- What `handleStateLocked` makes of a state beside the one it has. -/
inductive Observation
  | ignored | refused | taken
deriving DecidableEq

/-- The order of observed states: by revision, or by time where neither
has one; nothing follows a terminal state. -/
def observes (known : Option ExecutionState) (state : ExecutionState) : Observation :=
  match known with
  | none => .taken
  | some old =>
    let after : Observation := if old.phase.terminal ∧ old ≠ state then .refused else .taken
    let same : Observation := if old = state then .ignored else .refused
    if 0 < old.revision ∨ 0 < state.revision then
      if state.revision < old.revision then .ignored
      else if state.revision = old.revision then same
      else after
    else if asTime state.occurredAt < asTime old.occurredAt then .ignored
    else if asTime state.occurredAt = asTime old.occurredAt then same
    else after

/-- `handleStateLocked`: an eviction for lease expiry turns the intent into
a duty to request again. -/
def handleState (e : Envelope) (state : ExecutionState) (s : State) : State × Option Err :=
  match s.executions.lookup state.executionID with
  | none => (s, some (Sentinel.executionNotFound.wrap (quote state.executionID)))
  | some record =>
    if record.allocatorID ≠ e.sender then (s, some Sentinel.unauthorized.err)
    else
      match observes record.state state with
      | .ignored => (s, none)
      | .refused => (s, some Sentinel.conflict.err)
      | .taken =>
        let record := { record with state := some state }
        let record :=
          if state.phase.terminal && lostLeaseState state then
            { record with leaseLost := true, leaseRenewMessageID := [] }
          else record
        (s.setExecution state.executionID record, none)

/-- `handleRenewAckLocked`. -/
def handleRenewAck (i : Input) (e : Envelope) (ack : ExecutionLeaseRenewAck) (s : State) :
    State × Option Err :=
  match s.executions.lookup ack.executionID with
  | none => (s, some Sentinel.executionNotFound.err)
  | some record =>
    if record.leaseRenewMessageID = [] ∨ record.allocatorID ≠ e.sender
        ∨ record.leaseRenewMessageID ≠ e.correlationID then
      (s, some Sentinel.unauthorized.err)
    else if record.leaseLost then (s, some Sentinel.conflict.err)
    else
      (s.setExecution ack.executionID
          { record with
            leaseRenewMessageID := [], leaseRenewedAt := i.time 0,
            leaseExpiresAt := asTime ack.expiresAt },
        none)

-- ===== the errors

/-- `logAuthorityLocked`. -/
def logAuthority (e : Envelope) (s : State) : Bool :=
  s.logRequest.any fun q =>
    e.correlationID = s.logMessageID
      && (s.executions.lookup q.executionID).any fun record => record.allocatorID = e.sender

/-- A release of the request that the error answers. -/
def RequestRecord.releasedBy (r : RequestRecord) (e : Envelope) : Bool :=
  r.offers.any fun _ offer =>
    offer.release.any (fun release => release.messageID = e.correlationID)
      && offer.allocatorID = e.sender

/-- A command about the execution that the error answers. -/
def ExecutionRecord.answeredBy (r : ExecutionRecord) (e : Envelope) : Bool :=
  r.allocatorID = e.sender
    && (e.correlationID = r.assignmentMessageID || e.correlationID = r.inspectMessageID
      || e.correlationID = r.cancelMessageID || e.correlationID = r.leaseRenewMessageID)

/-- The scan of `handleErrorLocked` over the requests: a request whose
message the error answers decides anew by the catalog. -/
def requestAuthority (e : Envelope) (s : State) : List GoString → Bool → Bool
  | [], authorized => authorized
  | key :: rest, authorized =>
    match s.requests.lookup key with
    | none => requestAuthority e s rest authorized
    | some request =>
      let authorized :=
        if request.messageID = e.correlationID then (s.allocators.lookup e.sender).isSome
        else authorized
      requestAuthority e s rest (authorized || request.releasedBy e)

/-- `markRenewalFailureLocked`: an authoritative loss asks for a new
request. -/
def markRenewalFailure (code : String) (r : ExecutionRecord) : ExecutionRecord :=
  if code = "NOT_FOUND" ∨ code = "EXPIRED" then
    { r with leaseRenewMessageID := [], leaseLost := true }
  else r

/-- `handleErrorLocked` on one execution. -/
def ExecutionRecord.failed (e : Envelope) (code : String) (r : ExecutionRecord) :
    ExecutionRecord :=
  if r.answeredBy e
      && (e.correlationID = r.leaseRenewMessageID || e.correlationID = r.inspectMessageID) then
    markRenewalFailure code r
  else r

/-- `handleErrorLocked`. -/
def handleError (i : Input) (e : Envelope) (failure : CommandError) (s : State) :
    State × Option Err :=
  let authorized :=
    requestAuthority e s (visit i.order s.requests) (logAuthority e s)
      || s.executions.any fun _ r => r.answeredBy e
  ({ s with executions := s.executions.mapVal fun _ r => r.failed e failure.code },
    if authorized then none else some Sentinel.unauthorized.err)

/-- `handleLogsLocked`. -/
def handleLogs (e : Envelope) (r : ExecutionLogsResponse) (s : State) : Option Err :=
  if !logAuthority e s then some Sentinel.unauthorized.err
  else
    match s.logRequest with
    | none => some nilRecord
    | some q =>
      if r.executionID ≠ q.executionID ∨ r.stream ≠ q.stream ∨ r.offset ≠ q.offset
          ∨ q.maxBytes < r.data.length then
        some Sentinel.conflict.err
      else none

/-- `handleTunnelOpenAckLocked`. -/
def handleTunnelOpenAck (e : Envelope) (ack : ExecutionTunnelOpenAck) (s : State) :
    Option Err :=
  match s.executions.lookup ack.executionID with
  | none => some (Sentinel.executionNotFound.wrap (quote ack.executionID))
  | some record => if record.allocatorID ≠ e.sender then some Sentinel.unauthorized.err else none

/-- `Handle`. -/
def handle (i : Input) (e : Envelope) (s : State) : State × Option Err :=
  match validateEnvelope cfg.sum256 e with
  | some err => (s, some (invalidErr err))
  | none =>
    match e.payload with
    | some (.executionLogsResponse r) => (s, handleLogs e r s)
    | some (.commandError failure) => handleError i e failure s
    | some (.executionOffer offer) => handleOffer i e offer s
    | some (.executionState state) => handleState e state s
    | some (.executionOfferReleaseAck ack) => handleReleaseAck e ack s
    | some (.executionLeaseRenewAck ack) => handleRenewAck i e ack s
    | some (.executionTunnelOpenAck ack) => (s, handleTunnelOpenAck e ack s)
    | _ => (s, some Sentinel.unsupportedMessage.err)

-- ===== the machine

/-- The operations of the core. -/
inductive Op
  | register (a : KnownAllocator)
  | createRequest (i : Input) (workload : Option Workload) (policy : Option ExecutionPolicy)
      (resourceClass : GoString) (constraints : Option PlacementConstraints)
  | nextAttempt (i : Input) (previous : ExecutionRequest)
  | select (i : Input) (requestID : GoString)
  | releases (now : Int)
  | inspect (i : Input) (executionID : GoString)
  | cancel (i : Input) (executionID reason : GoString)
  | logs (i : Input) (q : ExecutionLogsRequest)
  | tunnelOpen (i : Input) (q : ExecutionTunnelOpen)
  | maintain (i : Input) (executionID : GoString) (leaseDuration : Int)
  | recordIntent (executionID : GoString) (leaseDuration : Int) (allocators : List GoString)
  | rebind (oldExecutionID newExecutionID : GoString)
  | handle (i : Input) (e : Envelope)

/-- A command handed out: its destination, or none for a request, which
the caller sends where it likes. -/
abbrev Handed := Option GoString × Envelope

def handed : Except Err Addressed → List Handed
  | .ok command => [(some command.1, command.2)]
  | .error _ => []

def handedRequest : Except Err (GoString × Envelope) → List Handed
  | .ok created => [(none, created.2)]
  | .error _ => []

/-- The state after an operation and the commands it hands out. -/
def Op.apply (s : State) : Op → State × List Handed
  | .register a => ((Client.register a s).1, [])
  | .createRequest i workload policy resourceClass constraints =>
    let r := createRequestWithConstraints cfg i workload policy resourceClass constraints s
    (r.1, handedRequest r.2)
  | .nextAttempt i previous =>
    let r := createNextAttempt cfg i previous s
    (r.1, handedRequest r.2)
  | .select i requestID =>
    let r := Client.select cfg i requestID s
    (r.1, handed r.2)
  | .releases now => (s, (pendingReleases cfg now s).map fun c => (some c.1, c.2))
  | .inspect i executionID =>
    let r := Client.inspect cfg i executionID s
    (r.1, handed r.2)
  | .cancel i executionID reason =>
    let r := Client.cancel cfg i executionID reason s
    (r.1, handed r.2)
  | .logs i q =>
    let r := Client.logs cfg i q s
    (r.1, handed r.2)
  | .tunnelOpen i q => (s, handed (Client.tunnelOpen cfg i q s))
  | .maintain i executionID leaseDuration =>
    let r := Client.maintain cfg i executionID leaseDuration s
    (r.1,
      match r.2 with
      | .ok (some command) => [(some command.1, command.2)]
      | _ => [])
  | .recordIntent executionID leaseDuration allocators =>
    ((recordLeaseIntent executionID leaseDuration allocators s).1, [])
  | .rebind oldExecutionID newExecutionID =>
    ((rebindLeaseIntent oldExecutionID newExecutionID s).1, [])
  | .handle i e => ((Client.handle cfg i e s).1, [])

/-- The runs of a client core. -/
def machine : TransitionSystem State Op where
  init s := s = .empty
  step s op := some (op.apply cfg s).1

-- ===== waiters

/-- The channels registered per correlation ID, each with room for one
envelope. -/
abbrev Waiters := FMap GoString (List (Option Envelope))

/-- `dispatchEnvelope`: a full channel is passed over. -/
def dispatchEnvelope (e : Envelope) (waiters : Waiters) : Waiters :=
  if e.correlationID = [] then waiters
  else
    match waiters.lookup e.correlationID with
    | none => waiters
    | some channels =>
      waiters.insert e.correlationID (channels.map fun held => held.orElse fun _ => some e)

/-- A destination an endpoint knows for an identity. -/
abbrev Route := { d : GoString // blank d = false }

/-- `handleEnvelope` of the public client: `route` is the endpoint's
destination for the sender. -/
def handleEnvelope (route : Option Route) (i : Input) (e : Envelope) (s : State)
    (waiters : Waiters) : State × Waiters × Option Err :=
  let registered : State × Option Err :=
    match route with
    | some d => register { identity := e.sender, destination := d.1 } s
    | none => (s, none)
  match registered.2 with
  | some err => (registered.1, waiters, some err)
  | none =>
    let handled := handle cfg i e registered.1
    match handled.2 with
    | some err => (handled.1, waiters, some err)
    | none => (handled.1, dispatchEnvelope e waiters, none)

end R1s.Client
