/-
The commands the client core creates (`internal/client`: commands.go,
envelopes.go, selection.go, lease_intent.go, logs.go, release.go,
tunnel.go, snapshots.go): each records in memory what it needs to
recognise the answer and returns the envelope with its destination.
-/
import R1s.Client.Types

namespace R1s.Client

open Allocator (hexEncode leaseExpiredDetail quote visit)

variable (cfg : Config)

-- ===== envelopes

/-- An envelope of this client. -/
def envelope (messageID : GoString) (sentAt : Int) (payload : Payload) : Envelope :=
  ⟨messageID, cfg.identity, [], some (Timestamp.new sentAt), some payload⟩

/-- `requestEnvelopeLocked`. -/
def requestEnvelope (record : RequestRecord) : Envelope :=
  envelope cfg record.messageID record.createdAt (.executionRequest record.request)

/-- `assignmentEnvelopeLocked`. -/
def assignmentEnvelope (record : ExecutionRecord) : Envelope :=
  envelope cfg record.assignmentMessageID record.assignmentSentAt
    (.executionAssign ⟨record.requestID, record.offerID, record.id⟩)

/-- A command and the destination it is for. -/
abbrev Addressed := GoString × Envelope

-- ===== requests

/-- `initialRunID`. -/
def initialRunID (requestID : GoString) : GoString :=
  hexEncode ((cfg.sum256 requestID).take 16)

/-- `createRequest`. -/
def createRequest (i : Input) (workload : Option Workload) (policy : Option ExecutionPolicy)
    (resourceClass : GoString) (constraints : Option PlacementConstraints) (runID : GoString)
    (attempt : Nat) (s : State) : State × Except Err (GoString × Envelope) :=
  let requestID := i.id 0
  let messageID := i.id 1
  if requestID = [] ∨ (s.requests.lookup requestID).isSome ∨ messageID = [] then
    (s, .error duplicateID)
  else
    let record : RequestRecord :=
      { request :=
          { requestID := requestID, workload := workload, policy := policy,
            resourceClass := resourceClass, constraints := constraints,
            runID := if runID = [] then initialRunID cfg requestID else runID,
            attempt := attempt },
        messageID := messageID, createdAt := i.time 0, offers := ∅, executionID := [] }
    match validateEnvelope cfg.sum256 (requestEnvelope cfg record) with
    | some err => (s, .error (invalidErr err))
    | none =>
      ({ s with requests := s.requests.insert requestID record },
        .ok (requestID, requestEnvelope cfg record))

/-- `CreateRequestWithConstraints`. -/
def createRequestWithConstraints (i : Input) (workload : Option Workload)
    (policy : Option ExecutionPolicy) (resourceClass : GoString)
    (constraints : Option PlacementConstraints) (s : State) :
    State × Except Err (GoString × Envelope) :=
  createRequest cfg i workload policy resourceClass constraints [] 1 s

/-- `CreateNextAttempt`: the attempt after the last 64-bit number is
refused. -/
def createNextAttempt (i : Input) (previous : ExecutionRequest) (s : State) :
    State × Except Err (GoString × Envelope) :=
  if previous.attempt = 2 ^ 64 - 1 then
    (s, .error (Sentinel.invalidConfig.wrap (text "previous run attempt is invalid")))
  else
    createRequest cfg i previous.workload previous.policy previous.resourceClass
      previous.constraints previous.runID (previous.attempt + 1) s

-- ===== selection

/-- `newReleaseLocked` with the next ID and clock reading. -/
def newRelease (messageID : GoString) (sentAt : Int) (offer : OfferRecord) (s : State) :
    Except Err ReleaseIntent :=
  match s.allocators.lookup offer.allocatorID with
  | none => .error Sentinel.invalidAllocator.err
  | some allocator =>
    if allocator.destination = [] then .error Sentinel.invalidAllocator.err
    else if messageID = [] then
      .error (Sentinel.invalidConfig.wrap (text "empty release message ID"))
    else .ok ⟨messageID, sentAt, allocator.destination, false⟩

/-- The loop of `Select` over the losing offers: the `n`-th release takes
the `n`-th generated ID after the two of the assignment. -/
def prepareReleases (i : Input) (selected : GoString) (s : State) :
    List GoString → Nat → FMap GoString OfferRecord → Except Err (FMap GoString OfferRecord)
  | [], _, offers => .ok offers
  | key :: rest, n, offers =>
    match offers.lookup key with
    | none => prepareReleases i selected s rest n offers
    | some offer =>
      if key = selected ∨ offer.release.isSome then
        prepareReleases i selected s rest n offers
      else
        match newRelease (i.id n) (i.time (n - 1)) offer s with
        | .error err => .error err
        | .ok intent =>
          prepareReleases i selected s rest (n + 1)
            (offers.insert key { offer with release := some intent })

/-- A nil dereference. -/
def nilRecord : Err := ⟨[], text "nil pointer dereference"⟩

/-- `Select`: the assignment of the request's execution, chosen on the
first call and the same ever after. -/
def select (i : Input) (requestID : GoString) (s : State) : State × Except Err Addressed :=
  match s.requests.lookup requestID with
  | none => (s, .error (Sentinel.requestNotFound.wrap (quote requestID)))
  | some record =>
    if record.executionID ≠ [] then
      match s.executions.lookup record.executionID with
      | none => (s, .error nilRecord)
      | some execution =>
        (s, .ok (execution.destination, assignmentEnvelope cfg execution))
    else
      let image := (record.request.workload.map Workload.image).getD []
      match choose record.offers (i.time 0) record.request.constraints image s with
      | none => (s, .error Sentinel.noOffer.err)
      | some (selected, allocator) =>
        let executionID := i.id 0
        if executionID = [] ∨ (s.executions.lookup executionID).isSome ∨ i.id 1 = [] then
          (s, .error duplicateID)
        else
          let execution : ExecutionRecord :=
            { id := executionID, requestID := requestID, offerID := selected.offer.offerID,
              allocatorID := selected.allocatorID, destination := allocator.destination,
              assignmentMessageID := i.id 1, assignmentSentAt := i.time 0 }
          match prepareReleases i selected.offer.offerID s (visit i.order record.offers) 2
              record.offers with
          | .error err => (s, .error err)
          | .ok offers =>
            ({ s with
                requests := s.requests.insert requestID
                  { record with offers := offers, executionID := executionID },
                executions := s.executions.insert executionID execution },
              .ok (execution.destination, assignmentEnvelope cfg execution))

/-- `PendingReleases` in the order of their message IDs. -/
def pendingReleases (now : Int) (s : State) : List Addressed :=
  (s.requests.entries.flatMap fun request =>
    request.2.offers.entries.filterMap fun offer =>
      offer.2.release.bind fun intent =>
        if intent.acknowledged || !decide (now < asTime offer.2.offer.expiresAt) then none
        else
          some (intent.destination, envelope cfg intent.messageID intent.sentAt
            (.executionOfferRelease
              ⟨request.2.request.requestID, offer.2.offer.offerID⟩))).insertionSort
    fun a b => ¬b.2.messageID < a.2.messageID

-- ===== executions

/-- `Inspect`: a fresh message each time. -/
def inspect (i : Input) (executionID : GoString) (s : State) : State × Except Err Addressed :=
  match s.executions.lookup executionID with
  | none => (s, .error (Sentinel.executionNotFound.wrap (quote executionID)))
  | some record =>
    if i.id 0 = [] then (s, .error emptyID)
    else
      (s.setExecution executionID
          { record with inspectMessageID := i.id 0, inspectSentAt := i.time 0 },
        .ok (record.destination,
          envelope cfg (i.id 0) (i.time 0) (.executionInspect ⟨executionID⟩)))

/-- `Cancel`: one message for one reason. A generator that fails leaves
the reason and the time behind. -/
def cancel (i : Input) (executionID reason : GoString) (s : State) :
    State × Except Err Addressed :=
  match s.executions.lookup executionID with
  | none => (s, .error (Sentinel.executionNotFound.wrap (quote executionID)))
  | some record =>
    let sending (r : ExecutionRecord) : Addressed :=
      (r.destination, envelope cfg r.cancelMessageID r.cancelSentAt
        (.executionCancel ⟨executionID, reason⟩))
    if record.cancelMessageID = [] then
      let r :=
        { record with
          cancelMessageID := i.id 0, cancelSentAt := i.time 0, cancelReason := reason }
      (s.setExecution executionID r, if i.id 0 = [] then .error emptyID else .ok (sending r))
    else if record.cancelReason ≠ reason then (s, .error Sentinel.conflict.err)
    else (s, .ok (sending record))

/-- `Logs`: the client has one outstanding log read. -/
def logs (i : Input) (q : ExecutionLogsRequest) (s : State) : State × Except Err Addressed :=
  match s.executions.lookup q.executionID with
  | none => (s, .error Sentinel.executionNotFound.err)
  | some record =>
    let e := envelope cfg (i.id 0) (i.time 0) (.executionLogsRequest q)
    match validateEnvelope cfg.sum256 e with
    | some err => (s, .error (invalidErr err))
    | none =>
      ({ s with logMessageID := e.messageID, logRequest := some q },
        .ok (record.destination, e))

/-- `TunnelOpen`. -/
def tunnelOpen (i : Input) (q : ExecutionTunnelOpen) (s : State) : Except Err Addressed :=
  match s.executions.lookup q.executionID with
  | none => .error (Sentinel.executionNotFound.wrap (quote q.executionID))
  | some record =>
    if q.yggPeerPubkey = [] ∨ maxPeerKeySize < q.yggPeerPubkey.length then
      .error (Sentinel.invalidConfig.wrap
        (text "invalid tunnel peer key size " ++ text (toString q.yggPeerPubkey.length)))
    else
      match validateTunnelTargets q.targets with
      | .error problem => .error (Sentinel.invalidEnvelope.wrap (text problem))
      | .ok _ =>
        let e := envelope cfg (i.id 0) (i.time 0) (.executionTunnelOpen q)
        match validateEnvelope cfg.sum256 e with
        | some err => .error (invalidErr err)
        | none => .ok (record.destination, e)

-- ===== leases

/-- `protocol.DefaultLease`. -/
def defaultLease : Int := 10 * minute

/-- `isLostLeaseState`. -/
def lostLeaseState (state : ExecutionState) : Bool :=
  state.phase = .failed && state.detail = leaseExpiredDetail

/-- The last observed state ends the execution. -/
def ExecutionRecord.ended (r : ExecutionRecord) : Bool :=
  r.state.any fun state => state.phase.terminal

/-- `Maintain`: the renewal of the execution's lease, or `none` when the
lease is lost. -/
def maintain (i : Input) (executionID : GoString) (leaseDuration : Int) (s : State) :
    State × Except Err (Option Addressed) :=
  match s.executions.lookup executionID with
  | none => (s, .error Sentinel.executionNotFound.err)
  | some record =>
    if record.leaseLost then (s, .ok none)
    else if record.ended then
      if record.state.any lostLeaseState then
        (s.setExecution executionID { record with leaseLost := true }, .ok none)
      else (s, .error Sentinel.conflict.err)
    else
      let duration := if 0 < leaseDuration then leaseDuration else record.leaseDuration
      let record :=
        { record with leaseDuration := if duration ≤ 0 then defaultLease else duration }
      if i.id 0 = [] then
        (s.setExecution executionID record, .error Sentinel.invalidConfig.err)
      else
        (s.setExecution executionID
            { record with leaseRenewMessageID := i.id 0, leaseRenewedAt := i.time 0 },
          .ok (some (record.destination,
            envelope cfg (i.id 0) (i.time 0)
              (.executionLeaseRenew
                ⟨record.id, some (PbDuration.new record.leaseDuration)⟩))))

/-- The recorded intent is due at `now`. -/
def ExecutionRecord.due (now : Int) (r : ExecutionRecord) : Bool :=
  decide (0 < r.leaseDuration) && !r.leaseLost && !r.ended
    && (r.leaseRenewedAt = 0 || !decide (now < r.leaseRenewedAt + r.leaseDuration / 3))

/-- `LeaseDue`. -/
def leaseDue (now : Int) (executionID : GoString) (s : State) : Bool :=
  (s.executions.lookup executionID).any (ExecutionRecord.due now)

/-- `LeaseIntentLost`. -/
def leaseIntentLost (executionID : GoString) (s : State) : Bool :=
  (s.executions.lookup executionID).any ExecutionRecord.leaseLost

/-- `pinnedAllocators`. -/
def pinnedAllocators (destinations : List GoString) : List GoString :=
  (destinations.filter (· ≠ [])).foldl
    (fun pinned d => if d ∈ pinned then pinned else pinned ++ [d]) []

/-- `RecordLeaseIntent`. -/
def recordLeaseIntent (executionID : GoString) (leaseDuration : Int)
    (allocators : List GoString) (s : State) : State × Option Err :=
  match s.executions.lookup executionID with
  | none => (s, some Sentinel.executionNotFound.err)
  | some record =>
    if record.leaseLost || record.ended then (s, some Sentinel.conflict.err)
    else
      (s.setExecution executionID
          { record with
            leaseDuration := if leaseDuration ≤ 0 then defaultLease else leaseDuration,
            leaseAllocators := pinnedAllocators allocators },
        none)

/-- `RebindLeaseIntent`. -/
def rebindLeaseIntent (oldExecutionID newExecutionID : GoString) (s : State) :
    State × Option Err :=
  match s.executions.lookup oldExecutionID, s.executions.lookup newExecutionID with
  | some previous, some replacement =>
    if oldExecutionID = newExecutionID then (s, some Sentinel.executionNotFound.err)
    else if previous.leaseDuration ≤ 0 then (s, some Sentinel.conflict.err)
    else
      ((s.setExecution newExecutionID
          { replacement with
            leaseDuration := previous.leaseDuration,
            leaseAllocators := previous.leaseAllocators,
            leaseLost := false, leaseExpiresAt := 0 }).setExecution oldExecutionID
          { previous with leaseDuration := 0, leaseLost := false, leaseAllocators := [] },
        none)
  | _, _ => (s, some Sentinel.executionNotFound.err)

/-- `RequestForExecution`. -/
def requestForExecution (executionID : GoString) (s : State) : Option ExecutionRequest :=
  (s.executions.lookup executionID).bind fun record =>
    (s.requests.lookup record.requestID).map RequestRecord.request

end R1s.Client
