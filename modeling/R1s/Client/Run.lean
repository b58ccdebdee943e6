/-
The run controller (`client/run.go`, with `beginRun`, `registerWaiter`
and `send` of `client/client.go`): one logical run of the public client,
from the first request through renewals and reschedules to its result.

# The machine

The controller is one goroutine. Its state holds a program counter `Pc`
whose constructors are the places where it calls the core, sends, or
waits in a `select`; each holds the local variables that are still
needed. Between any two of its steps the transport may deliver an
envelope, another method of the client may use the core, and the caller's
context may end.

# Conventions

- A call of the core is one step: the core's lock covers it.
- A send is one step, with the outcome the transport gives. What happens
  while it is under way happens before or after it. A send in a goroutine
  of its own is noted when it starts, its result is dropped.
- Timers and tickers may fire at any time; of the ready cases of a
  `select` any may be taken.
- Only the controller's own waiter is kept; other methods wait on channels
  of their own.
- `sends` lists everything handed to the transport by the controller and
  `events` every call of `OnEvent`, the newest first.
-/
import R1s.Client.Inbound
import R1s.Presence.Descriptor

namespace R1s.Client

open Allocator (quote)
open Presence (Service)

-- ===== errors

/-- How a context ends: `ctx.Err()`. -/
inductive ContextEnd
  | canceled | deadlineExceeded
deriving DecidableEq

def ContextEnd.err : ContextEnd → Err
  | .canceled => Sentinel.canceled.err
  | .deadlineExceeded => Sentinel.deadlineExceeded.err

/-- `errors.New`. -/
def newErr (message : GoString) : Err := ⟨[], message⟩

/-- `fmt.Errorf("…: %w", err)`. -/
def Err.within (err : Err) (context : GoString) : Err :=
  ⟨err.sentinels, context ++ R1s.text ": " ++ err.text⟩

/-- `RemoteFailure`. -/
def remoteFailure (e : Envelope) : Option Err :=
  match e.payload with
  | some (.commandError failure) =>
    some (newErr (text "allocator " ++ text failure.code ++ text ": " ++ failure.detail))
  | _ => none

-- ===== values

/-- `Attempt`. -/
structure Attempt where
  runID : GoString := []
  number : Nat := 0
  requestID : GoString := []
  executionID : GoString := []
  allocator : Bytes := []
deriving DecidableEq

/-- `Result`. -/
structure Result where
  attempt : Attempt := {}
  state : Option ExecutionState := none
deriving DecidableEq

/-- `RunOptions`. -/
structure RunOptions where
  offerWait : Int := 0
  leaseDuration : Int := 0

/-- `Event`. -/
inductive Event
  | attemptAssigned (attempt : Attempt) (previous : GoString)
  | leaseLost (attempt : Attempt) (previous : GoString)
  | renewalError (attempt : Attempt) (err : Err)
deriving DecidableEq

/-- An envelope handed to the transport, and whether its send failed. -/
structure Sent where
  destination : GoString
  envelope : Envelope
  failed : Bool := false
deriving DecidableEq

/-- The variables of `renewOrReRequest`, with the attempt `holdRun` called
it for. -/
structure Renewal where
  active : Attempt
  activeID : GoString
  rerequested : Bool
deriving DecidableEq

/-- Who waits for an attempt: `Run`, or on the loss of an execution
`holdRun` or `renewOrReRequest`. -/
inductive Caller
  | run
  | hold (active : Attempt)
  | renew (r : Renewal)
deriving DecidableEq

/-- The execution that `reRequestLost` replaces. -/
def Caller.lostID : Caller → GoString
  | .run => []
  | .hold active => active.executionID
  | .renew r => r.activeID

/-- The variables of `requestAttempt` once its request exists. -/
structure Asked where
  caller : Caller
  request : ExecutionRequest
  allocators : List GoString
  requestID : GoString
  envelope : Envelope

/-- Where the controller stands. -/
inductive Pc
  | idle
  -- `requestAttempt`
  | creating (caller : Caller) (request : ExecutionRequest) (allocators : List GoString)
  | asking (a : Asked) (rest sent : List GoString)
  | collecting (a : Asked) (sent : List GoString) (remoteErr : Option Err)
  | selecting (a : Asked) (remoteErr : Option Err)
  | recording (a : Asked) (destination : GoString) (assignment : Envelope)
  | assigning (a : Asked) (destination : GoString) (assignment : Envelope)
  | describing (a : Asked) (executionID : GoString)
  | snapshotting (a : Asked) (executionID : GoString) (created : ExecutionRequest)
  -- `reRequestLost`
  | losing (caller : Caller)
  | routing (caller : Caller) (request : ExecutionRequest)
  | rebinding (caller : Caller) (replacement : Attempt)
  -- `holdRun`
  | holding (active : Attempt)
  | ending (active : Attempt) (state : ExecutionState)
  | watching (active : Attempt)
  | timing (active : Attempt)
  | waiting (active : Attempt)
  | inspecting (active : Attempt)
  | sendingInspect (active : Attempt) (destination : GoString) (envelope : Envelope)
  | awaitingState (active : Attempt) (messageID : GoString)
  -- `renewOrReRequest`
  | maintaining (r : Renewal)
  | renewing (r : Renewal) (destination : GoString) (envelope : Envelope)
  | awaitingAck (r : Renewal) (messageID : GoString)
  | doubting (r : Renewal) (err : Err)
  | renewed (r : Renewal)
  -- `Run`
  | failing (result : Result) (err : Err)
  | cancelling (result : Result) (err : Err)
  | sendingCancel (result : Result) (err : Err) (destination : GoString) (envelope : Envelope)
  /-- With what the context said when `Run` last looked. -/
  | returned (result : Result) (err : Option Err) (context : Option ContextEnd)

/-- The public client while it controls a run. -/
structure Controller where
  core : State := .empty
  waiters : Waiters := ∅
  bootstrapDestinations : List GoString := []
  started : Bool := false
  closed : Bool := false
  context : Option ContextEnd := none
  stateChanged : Bool := false
  options : RunOptions := {}
  sends : List Sent := []
  events : List Event := []
  pc : Pc := .idle

namespace Controller

variable (cfg : Config) (s : Controller)

/-- The controller goes on at `pc`. -/
def goto (pc : Pc) : Controller := { s with pc := pc }

/-- `send`, or a send in a goroutine of its own. -/
def send (destination : GoString) (e : Envelope) (failed : Bool) : Controller :=
  { s with sends := ⟨destination, e, failed⟩ :: s.sends }

/-- `emit`. -/
def emit (event : Event) : Controller := { s with events := event :: s.events }

/-- `registerWaiter`. -/
def await (messageID : GoString) : Controller :=
  { s with waiters := s.waiters.insert messageID [none] }

/-- The cancellation `registerWaiter` returns. -/
def forget (messageID : GoString) : Controller :=
  { s with waiters := s.waiters.erase messageID }

/-- The envelope in the channel is received. -/
def take (messageID : GoString) : Controller :=
  { s with waiters := s.waiters.insert messageID [none] }

/-- What the controller's channel holds. -/
def held (messageID : GoString) : Option Envelope :=
  (s.waiters.lookup messageID).bind fun channels => channels.head?.join

-- ===== the returns

/-- `renewOrReRequest` returns an error to `holdRun`, which keeps its
attempt. -/
def renewFailed (active : Attempt) (err : Err) : Controller :=
  (if err.is .canceled then s else s.emit (.renewalError active err)).goto (.waiting active)

/-- `reRequestLost` returns an error. -/
def rerequestFailed (caller : Caller) (err : Err) : Controller :=
  match caller with
  | .run => s.goto (.returned {} (some err) s.context)
  | .hold active => s.goto (.failing { attempt := active } err)
  | .renew r => s.renewFailed r.active err

/-- `requestAttempt` returns an error. -/
def attemptFailed (caller : Caller) (err : Err) : Controller :=
  match caller with
  | .run => s.goto (.returned {} (some err) s.context)
  | caller => s.rerequestFailed caller (err.within (text "re-request after lease expiry"))

/-- `requestAttempt` returns its attempt. -/
def attemptDone (caller : Caller) (attempt : Attempt) : Controller :=
  match caller with
  | .run => (s.emit (.attemptAssigned attempt [])).goto (.holding attempt)
  | caller => s.goto (.rebinding caller attempt)

/-- `holdRun` takes a replacement for its attempt. -/
def replaced (previous : GoString) (replacement : Attempt) (pc : Pc) : Controller :=
  ((s.emit (.leaseLost replacement previous)).emit
    (.attemptAssigned replacement previous)).goto pc

/-- `reRequestLost` returns its replacement. -/
def rerequested (caller : Caller) (replacement : Attempt) : Controller :=
  match caller with
  | .run => s
  | .hold active => s.replaced active.executionID replacement (.holding replacement)
  | .renew r => s.goto (.maintaining ⟨r.active, replacement.executionID, true⟩)

/-- `Inspect` returns to `holdRun`. -/
def inspected (active : Attempt) (err : Option Err) : Controller :=
  match err with
  | some err =>
    if err.is .canceled then s.goto (.failing { attempt := active } err)
    else s.goto (.holding active)
  | none => s.goto (.holding active)

-- ===== `requestAttempt`

/-- The bootstrap destinations that were not sent to, each in a goroutine
of its own. -/
def bootstrap (e : Envelope) : List GoString → List GoString → Controller →
    Controller × List GoString
  | [], sent, s => (s, sent)
  | destination :: rest, sent, s =>
    if destination ∈ sent then bootstrap e rest sent s
    else bootstrap e rest (destination :: sent) (s.send destination e false)

/-- The allocator of a discovered service. -/
def discoveredAllocator (identity : Bytes) (service : Service) : KnownAllocator :=
  let tunnel := service.tunnelEndpoint
  { identity := identity, destination := service.destination, hops := service.hops,
    capacity := some service.descriptor.capacity, node := service.descriptor.summary,
    tunnelHost := (tunnel.map fun t => t.1).getD [],
    tunnelPort := (tunnel.map fun t => t.2.1).getD 0,
    tunnelDestination := (tunnel.map fun t => t.2.2).getD [] }

/-- `hex.DecodeString`. -/
def hexDecode : GoString → Option Bytes
  | [] => some []
  | [_] => none
  | high :: low :: rest =>
    match Form.hexValue high, Form.hexValue low, hexDecode rest with
    | some h, some l, some bytes => some ((h * 16 + l) :: bytes)
    | _, _, _ => none

/-- A discovery while offers are collected. -/
def discover (a : Asked) (sent : List GoString) (remoteErr : Option Err) (service : Service) :
    Controller :=
  if (service.descriptor.capacity.lookup a.request.resourceClass).getD 0 = 0 then s
  else
    match hexDecode service.identity with
    | none => s
    | some identity =>
      let registered := register (discoveredAllocator identity service) s.core
      let t := { s with core := registered.1 }
      match registered.2 with
      | some err => (t.forget a.envelope.messageID).attemptFailed a.caller err
      | none =>
        if !placementCompatible a.request.constraints service.descriptor.summary
            || service.destination ∈ sent then t
        else
          (t.send service.destination a.envelope false).goto
            (.collecting a (service.destination :: sent) remoteErr)

/-- A new request, or the next attempt of the lost one. -/
def createAttempt (i : Input) (caller : Caller) (request : ExecutionRequest) (core : State) :
    State × Except Err (GoString × Envelope) :=
  match caller with
  | .run =>
    createRequestWithConstraints cfg i request.workload request.policy request.resourceClass
      request.constraints core
  | _ => createNextAttempt cfg i request core

def create (i : Input) (caller : Caller) (request : ExecutionRequest)
    (allocators : List GoString) : Controller :=
  let created := createAttempt cfg i caller request s.core
  let t := { s with core := created.1 }
  match created.2 with
  | .error err => t.attemptFailed caller err
  | .ok (requestID, e) =>
    (t.await e.messageID).goto
      (.asking ⟨caller, request, allocators, requestID, e⟩ allocators [])

/-- The strict send to the next of the known allocators. -/
def ask (a : Asked) (destination : GoString) (rest sent : List GoString)
    (outcome : Option Err) : Controller :=
  match outcome with
  | some err =>
    ((s.send destination a.envelope true).forget a.envelope.messageID).attemptFailed a.caller err
  | none =>
    (s.send destination a.envelope false).goto (.asking a rest (destination :: sent))

/-- After the strict sends: a first request goes to the bootstrap
destinations too. -/
def asked (a : Asked) (sent : List GoString) : Controller :=
  match a.caller with
  | .run =>
    let b := bootstrap a.envelope s.bootstrapDestinations sent s
    b.1.goto (.collecting a b.2 none)
  | _ => s.goto (.collecting a sent none)

/-- A message for the request while offers are collected. -/
def collectReply (a : Asked) (sent : List GoString) (remoteErr : Option Err) (e : Envelope) :
    Controller :=
  (s.take a.envelope.messageID).goto
    (.collecting a sent ((remoteFailure e).or remoteErr))

/-- `Select` when the offer window is over. -/
def choose (i : Input) (a : Asked) (remoteErr : Option Err) : Controller :=
  let selected := select cfg i a.requestID s.core
  let t := { s with core := selected.1 }
  match selected.2 with
  | .error err =>
    (t.forget a.envelope.messageID).attemptFailed a.caller
      (if err.is .noOffer then remoteErr.getD err else err)
  | .ok (destination, assignment) => t.goto (.recording a destination assignment)

/-- `assignment.GetExecutionAssign().GetExecutionId()`. -/
def executionOf (assignment : Envelope) : GoString :=
  match assignment.payload with
  | some (.executionAssign assign) => assign.executionID
  | _ => []

/-- The lease duty, recorded before the assignment can have an effect. -/
def record (a : Asked) (destination : GoString) (assignment : Envelope) : Controller :=
  let recorded :=
    recordLeaseIntent (executionOf assignment) s.options.leaseDuration a.allocators s.core
  let t := { s with core := recorded.1 }
  match recorded.2 with
  | some err => (t.forget a.envelope.messageID).attemptFailed a.caller err
  | none => t.goto (.assigning a destination assignment)

def assign (a : Asked) (destination : GoString) (assignment : Envelope) (outcome : Option Err) :
    Controller :=
  match outcome with
  | some err =>
    ((s.send destination assignment true).forget a.envelope.messageID).attemptFailed a.caller err
  | none =>
    (s.send destination assignment false).goto (.describing a (executionOf assignment))

def describe (a : Asked) (executionID : GoString) : Controller :=
  match requestForExecution executionID s.core with
  | none =>
    (s.forget a.envelope.messageID).attemptFailed a.caller
      (newErr (text "client: execution " ++ executionID ++ text " has no in-memory request"))
  | some created => s.goto (.snapshotting a executionID created)

/-- The attempt of an execution and its request. -/
def attempt (requestID executionID : GoString) (request : ExecutionRequest) : Attempt :=
  ⟨request.runID, request.attempt, requestID, executionID,
    ((s.core.executions.lookup executionID).map ExecutionRecord.allocatorID).getD []⟩

-- ===== `reRequestLost`

def lose (caller : Caller) : Controller :=
  match requestForExecution caller.lostID s.core with
  | none =>
    s.rerequestFailed caller (Sentinel.executionNotFound.wrap
      (text "execution " ++ quote caller.lostID ++ text " has no recorded request"))
  | some request => s.goto (.routing caller request)

def route (caller : Caller) (request : ExecutionRequest) : Controller :=
  s.goto (.creating caller request
    (allocatorDestinations request.resourceClass request.constraints s.core))

def rebind (caller : Caller) (replacement : Attempt) : Controller :=
  let rebound := rebindLeaseIntent caller.lostID replacement.executionID s.core
  let t := { s with core := rebound.1 }
  match rebound.2 with
  | some err =>
    t.rerequestFailed caller
      (err.within (text "lease intent not rebound to " ++ replacement.executionID))
  | none => t.rerequested caller replacement

-- ===== `holdRun`

/-- The observed state, when it is terminal. -/
def terminalState (executionID : GoString) : Option ExecutionState :=
  ((s.core.executions.lookup executionID).bind ExecutionRecord.state).filter
    fun state => state.phase.terminal

def hold (active : Attempt) : Controller :=
  match s.terminalState active.executionID with
  | some state => s.goto (.ending active state)
  | none => s.goto (.watching active)

def finish (active : Attempt) (state : ExecutionState) : Controller :=
  if leaseIntentLost active.executionID s.core then s.goto (.watching active)
  else s.goto (.returned ⟨active, some state⟩ none s.context)

def watch (active : Attempt) : Controller :=
  if leaseIntentLost active.executionID s.core then s.goto (.losing (.hold active))
  else s.goto (.timing active)

def checkDue (i : Input) (active : Attempt) : Controller :=
  if leaseDue (i.time 0) active.executionID s.core then
    s.goto (.maintaining ⟨active, active.executionID, false⟩)
  else s.goto (.waiting active)

/-- `Inspect`. -/
def inspect (i : Input) (active : Attempt) : Controller :=
  let inspected := Client.inspect cfg i active.executionID s.core
  let t := { s with core := inspected.1 }
  match inspected.2 with
  | .error err => t.inspected active (some err)
  | .ok (destination, e) => (t.await e.messageID).goto (.sendingInspect active destination e)

def sendInspect (active : Attempt) (destination : GoString) (e : Envelope)
    (outcome : Option Err) : Controller :=
  match outcome with
  | some err => ((s.send destination e true).forget e.messageID).inspected active (some err)
  | none => (s.send destination e false).goto (.awaitingState active e.messageID)

/-- `response.GetExecutionState().GetExecutionId()`. -/
def stateOf (response : Envelope) : GoString :=
  match response.payload with
  | some (.executionState state) => state.executionID
  | _ => []

def stateReply (active : Attempt) (messageID : GoString) (response : Envelope) : Controller :=
  match remoteFailure response with
  | some err => (s.forget messageID).inspected active (some err)
  | none =>
    if stateOf response = active.executionID then (s.forget messageID).inspected active none
    else s.take messageID

-- ===== `renewOrReRequest`

def maintain (i : Input) (r : Renewal) : Controller :=
  let maintained := Client.maintain cfg i r.activeID s.options.leaseDuration s.core
  let t := { s with core := maintained.1 }
  match maintained.2 with
  | .error err => t.renewFailed r.active err
  | .ok none => t.goto (.losing (.renew r))
  | .ok (some (destination, e)) => (t.await e.messageID).goto (.renewing r destination e)

def renew (r : Renewal) (destination : GoString) (e : Envelope) (outcome : Option Err) :
    Controller :=
  match outcome with
  | some err => ((s.send destination e true).forget e.messageID).renewFailed r.active err
  | none => (s.send destination e false).goto (.awaitingAck r e.messageID)

/-- `awaitLeaseAck` on a reply. -/
def ackReply (r : Renewal) (messageID : GoString) (e : Envelope) : Controller :=
  match remoteFailure e with
  | some err => (s.forget messageID).goto (.doubting r err)
  | none =>
    match e.payload with
    | some (.executionLeaseRenewAck ack) =>
      if ack.executionID = r.activeID then (s.forget messageID).goto (.renewed r)
      else s.take messageID
    | _ => s.take messageID

/-- The renewal failed: was the lease lost? -/
def doubt (r : Renewal) (err : Err) : Controller :=
  if leaseIntentLost r.activeID s.core then s.goto (.losing (.renew r))
  else s.renewFailed r.active err

/-- `attemptFor`. -/
def attemptFor (executionID : GoString) : Attempt :=
  match requestForExecution executionID s.core with
  | some request => s.attempt request.requestID executionID request
  | none =>
    { executionID := executionID,
      allocator :=
        ((s.core.executions.lookup executionID).map ExecutionRecord.allocatorID).getD [] }

/-- `renewOrReRequest` returns. -/
def renewalDone (r : Renewal) : Controller :=
  if r.rerequested then
    s.replaced r.active.executionID (s.attemptFor r.activeID)
      (.waiting (s.attemptFor r.activeID))
  else s.goto (.waiting r.active)

-- ===== `Run`

def cancelReason : GoString := text "run controller context canceled"

/-- `bestEffortCancel`: the ID generator of the public client never gives
an empty ID. -/
def bestEffortCancel (i : Input) (result : Result) (err : Err) : Option Controller :=
  if result.attempt.executionID = [] then
    some (s.goto (.returned result (some err) s.context))
  else if i.id 0 = [] then none
  else
    let cancelled := cancel cfg i result.attempt.executionID cancelReason s.core
    let t := { s with core := cancelled.1 }
    match cancelled.2 with
    | .error _ => some (t.goto (.returned result (some err) s.context))
    | .ok (destination, e) => some (t.goto (.sendingCancel result err destination e))

/-- `Run` up to the first attempt: a call that is refused leaves nothing
behind. -/
def beginRun (request : Option ExecutionRequest) (options : RunOptions) : Controller × Option Err :=
  match request with
  | none => (s, some (newErr (text "client: execution request is required")))
  | some request =>
    let offerWait := if options.offerWait = 0 then 10 * 1000000000 else options.offerWait
    let leaseDuration :=
      if options.leaseDuration = 0 then defaultLease else options.leaseDuration
    if offerWait < 0 then
      (s, some (newErr (text "client: offer wait must be positive")))
    else if leaseDuration < 0 then
      (s, some (newErr (text "client: lease duration must be positive")))
    else if s.closed then (s, some (newErr (text "r1s client is closed")))
    else if !s.started then (s, some (newErr (text "r1s client is not started")))
    else
      match s.pc with
      | .idle =>
        (({ s with options := ⟨offerWait, leaseDuration⟩ }).goto (.creating .run request []),
          none)
      | _ => (s, some (newErr (text "r1s client already controls or controlled a run")))

end Controller

-- ===== the machine

/-- What decides the controller's next step. -/
inductive Move
  /-- A call of the core, or a step of its own. -/
  | next (i : Input)
  /-- The outcome of a send. -/
  | sent (outcome : Option Err)
  /-- `ctx.Done()`. -/
  | done
  /-- A timer. -/
  | timer
  /-- An envelope in its channel. -/
  | receive
  | discovered (service : Service)
  /-- `stateChanged`. -/
  | changed
  /-- The ticker. -/
  | tick

namespace Controller

variable (cfg : Config) (s : Controller)

/-- The next step of the controller's goroutine. -/
def turn (m : Move) : Option Controller :=
  match s.pc, m with
  | .creating caller request allocators, .next i => some (s.create cfg i caller request allocators)
  | .asking a (destination :: rest) sent, .sent outcome =>
    some (s.ask a destination rest sent outcome)
  | .asking a [] sent, .next _ => some (s.asked a sent)
  | .collecting a _ _, .done =>
    s.context.map fun c => (s.forget a.envelope.messageID).attemptFailed a.caller c.err
  | .collecting a _ remoteErr, .timer => some (s.goto (.selecting a remoteErr))
  | .collecting a sent remoteErr, .receive =>
    (s.held a.envelope.messageID).map (s.collectReply a sent remoteErr)
  | .collecting a sent remoteErr, .discovered service => some (s.discover a sent remoteErr service)
  | .selecting a remoteErr, .next i => some (s.choose cfg i a remoteErr)
  | .recording a destination assignment, .next _ => some (s.record a destination assignment)
  | .assigning a destination assignment, .sent outcome =>
    some (s.assign a destination assignment outcome)
  | .describing a executionID, .next _ => some (s.describe a executionID)
  | .snapshotting a executionID created, .next _ =>
    some ((s.forget a.envelope.messageID).attemptDone a.caller
      (s.attempt a.requestID executionID created))
  | .losing caller, .next _ => some (s.lose caller)
  | .routing caller request, .next _ => some (s.route caller request)
  | .rebinding caller replacement, .next _ => some (s.rebind caller replacement)
  | .holding active, .next _ => some (s.hold active)
  | .ending active state, .next _ => some (s.finish active state)
  | .watching active, .next _ => some (s.watch active)
  | .timing active, .next i => some (s.checkDue i active)
  | .waiting active, .done =>
    s.context.map fun c => s.goto (.failing { attempt := active } c.err)
  | .waiting active, .changed =>
    if s.stateChanged then some ({ s with stateChanged := false }.goto (.holding active))
    else none
  | .waiting active, .tick => some (s.goto (.inspecting active))
  | .inspecting active, .next i => some (s.inspect cfg i active)
  | .sendingInspect active destination e, .sent outcome =>
    some (s.sendInspect active destination e outcome)
  | .awaitingState active messageID, .done =>
    s.context.map fun c => (s.forget messageID).inspected active (some c.err)
  | .awaitingState active messageID, .timer =>
    some ((s.forget messageID).inspected active
      (some (newErr (text "timed out waiting for execution " ++ active.executionID
        ++ text " state"))))
  | .awaitingState active messageID, .receive =>
    (s.held messageID).map (s.stateReply active messageID)
  | .maintaining r, .next i => some (s.maintain cfg i r)
  | .renewing r destination e, .sent outcome => some (s.renew r destination e outcome)
  | .awaitingAck r messageID, .done =>
    s.context.map fun c => (s.forget messageID).goto (.doubting r c.err)
  | .awaitingAck r messageID, .timer =>
    some ((s.forget messageID).goto
      (.doubting r (newErr (text "timed out waiting for execution " ++ r.activeID
        ++ text " lease renewal"))))
  | .awaitingAck r messageID, .receive => (s.held messageID).map (s.ackReply r messageID)
  | .doubting r err, .next _ => some (s.doubt r err)
  | .renewed r, .next _ => some (s.renewalDone r)
  | .failing result err, .next _ =>
    some (s.goto (if s.context.isSome then .cancelling result err
      else .returned result (some err) s.context))
  | .cancelling result err, .next i => s.bestEffortCancel cfg i result err
  | .sendingCancel result err destination e, .sent outcome =>
    some ((s.send destination e outcome.isSome).goto (.returned result (some err) s.context))
  | _, _ => none

/-- `handleEnvelope`. -/
def deliver (route : Option Route) (i : Input) (e : Envelope) : Controller :=
  let handled := handleEnvelope cfg route i e s.core s.waiters
  let observed : Bool :=
    match handled.2.2, e.payload with
    | none, some (.executionState _) => true
    | _, _ => false
  { s with
    core := handled.1, waiters := handled.2.1, stateChanged := s.stateChanged || observed }

end Controller

/-- The core's operations that other methods of the public client use. -/
def Op.public : Op → Bool
  | .releases _ | .inspect _ _ | .logs _ _ | .tunnelOpen _ _ => true
  | _ => false

/-- What can happen next. -/
inductive RunLabel
  | start (failed : Bool)
  | close
  | run (request : Option ExecutionRequest) (options : RunOptions)
  | endContext (c : ContextEnd)
  | deliver (route : Option Route) (i : Input) (e : Envelope)
  | other (op : Op)
  | move (m : Move)

/-- One step. -/
def Controller.step (cfg : Config) (s : Controller) : RunLabel → Option Controller
  | .start failed => if s.closed || failed then some s else some { s with started := true }
  | .close => some { s with closed := true }
  | .run request options => some (s.beginRun request options).1
  | .endContext c => some { s with context := s.context.or (some c) }
  | .deliver route i e => some (s.deliver cfg route i e)
  | .other op => if op.public then some { s with core := (op.apply cfg s.core).1 } else none
  | .move m => s.turn cfg m

/-- The runs of the controller, from a new client on. -/
def runs (cfg : Config) : TransitionSystem Controller RunLabel where
  init s := ∃ destinations, s = { bootstrapDestinations := destinations }
  step := Controller.step cfg

end R1s.Client
