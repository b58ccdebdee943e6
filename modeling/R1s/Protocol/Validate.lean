/-
The envelope validator (`internal/protocol`: base.go, contract.go,
feedback.go, lease.go, release.go, tunnel.go, targets.go): required
metadata, then the complete active payload, each violation with the
field path and problem the source reports.

`sum256` is SHA-256. Nothing here depends on its values: the validator
recomputes the digest a log response carries.
-/
import R1s.Protocol.Placement

namespace R1s

variable (sum256 : Bytes → Bytes)

-- ===== field checks

/-- A required text field: `strings.TrimSpace(value) == ""` is a
violation. -/
def checkText (field : String) (value : GoString) : Option ValidationError :=
  if blank value then invalid field "is required" else none

/-- `validTimestamp`. -/
def validTimestamp (field : String) : Option Timestamp → Option ValidationError
  | none => invalid field "is required"
  | some ts =>
    match ts.checkValid with
    | some problem => invalid field problem
    | none => none

/-- `protocol.MaxLogBytes`. -/
def maxLogBytes : Nat := 65536

/-- `tunnel.MaxPeerKeySize`. -/
def maxPeerKeySize : Nat := 64

/-- `protocol.ErrorCodes`. -/
def errorCodes : List String :=
  [ "INVALID_REQUEST", "CAPACITY", "NOT_FOUND", "CONFLICT", "EXPIRED", "UNAVAILABLE", "DENIED",
    "INTERNAL", "OUTCOME_UNKNOWN", "INCOMPATIBLE" ]

-- ===== requests, offers

/-- `[0-9a-f]`. -/
def isLowerHex (b : UInt8) : Bool :=
  (0x30 ≤ b && b ≤ 0x39) || (0x61 ≤ b && b ≤ 0x66)

/-- `validRunID`: 16 bytes in lowercase hexadecimal. A string that its
own lowercase form equals decodes exactly when every byte is a lowercase
digit. -/
def validRunID (value : GoString) : Bool :=
  value.length = 32 && value.all isLowerHex

def validateWorkload : Option Workload → Option ValidationError
  | none => invalid "execution_request.workload" "is required"
  | some workload =>
    if blank workload.image then invalid "execution_request.workload.image" "is required"
    else if workload.environment.entries.any fun entry => blank entry.1 then
      invalid "execution_request.workload.environment" "contains an empty key"
    else none

def validateRequest (request : ExecutionRequest) : Option ValidationError :=
  firstError
    [ checkText "execution_request.request_id" request.requestID,
      if validRunID request.runID then none
      else invalid "execution_request.run_id" "must be 32 lowercase hexadecimal characters",
      if request.attempt = 0 then invalid "execution_request.attempt" "must be positive"
      else none,
      checkText "execution_request.resource_class" request.resourceClass,
      validateConstraints request.constraints,
      validateWorkload request.workload,
      if request.policy = none then invalid "execution_request.policy" "is required" else none ]

def validateOffer (envelope : Envelope) (offer : ExecutionOffer) : Option ValidationError :=
  firstError
    [ checkText "execution_offer.offer_id" offer.offerID,
      checkText "execution_offer.request_id" offer.requestID,
      checkText "execution_offer.resource_class" offer.resourceClass,
      validTimestamp "execution_offer.expires_at" offer.expiresAt,
      if asTime envelope.sentAt < asTime offer.expiresAt then none
      else invalid "execution_offer.expires_at" "must be after sent_at",
      validateCapabilities offer.node ]

def validateAssign (assign : ExecutionAssign) : Option ValidationError :=
  firstError
    [ checkText "execution_assign.request_id" assign.requestID,
      checkText "execution_assign.offer_id" assign.offerID,
      checkText "execution_assign.execution_id" assign.executionID ]

def validateCancel (cancel : ExecutionCancel) : Option ValidationError :=
  checkText "execution_cancel.execution_id" cancel.executionID

def validateInspect (inspect : ExecutionInspect) : Option ValidationError :=
  checkText "execution_inspect.execution_id" inspect.executionID

def validateState (state : ExecutionState) : Option ValidationError :=
  firstError
    [ checkText "execution_state.execution_id" state.executionID,
      if state.phase = .unspecified then
        invalid "execution_state.phase" "is required and must be known"
      else none,
      validTimestamp "execution_state.occurred_at" state.occurredAt ]

-- ===== release, lease, tunnel

def validateOfferRelease (release : ExecutionOfferRelease) : Option ValidationError :=
  if blank release.requestID || blank release.offerID then
    invalid "execution_offer_release" "request_id and offer_id are required"
  else none

def validateOfferReleaseAck (envelope : Envelope) (ack : ExecutionOfferReleaseAck) :
    Option ValidationError :=
  if blank envelope.correlationID then
    invalid "correlation_id" "is required for offer release acknowledgement"
  else if blank ack.requestID || blank ack.offerID then
    invalid "execution_offer_release_ack" "request_id and offer_id are required"
  else if ack.outcome = .unspecified then
    invalid "execution_offer_release_ack.outcome" "is not supported"
  else none

def validateLeaseDuration : Option PbDuration → Option ValidationError
  | none => invalid "execution_lease_renew.lease_duration" "is required"
  | some d =>
    match d.checkValid with
    | some problem => invalid "execution_lease_renew.lease_duration" problem
    | none =>
      if d.asDuration ≤ 0 then
        invalid "execution_lease_renew.lease_duration" "must be positive"
      else none

def validateLeaseRenew (renew : ExecutionLeaseRenew) : Option ValidationError :=
  firstError
    [ checkText "execution_lease_renew.execution_id" renew.executionID,
      validateLeaseDuration renew.leaseDuration ]

def validateLeaseRenewAck (ack : ExecutionLeaseRenewAck) : Option ValidationError :=
  firstError
    [ checkText "execution_lease_renew_ack.execution_id" ack.executionID,
      validTimestamp "execution_lease_renew_ack.expires_at" ack.expiresAt ]

/-- The scan of `protocol.ValidateTunnelTargets` from index `i` on. -/
def tunnelTargetsFrom (i : Nat) : List Nat → Except String (List Nat)
  | [] => .ok []
  | port :: rest =>
    if port = 0 then .error ("tunnel target[" ++ toString i ++ "]: port must be positive")
    else if 0xFFFF < port then .error ("tunnel target[" ++ toString i ++ "]: port too large")
    else (tunnelTargetsFrom (i + 1) rest).map (port :: ·)

/-- `protocol.ValidateTunnelTargets`: at least one target, each a port in
1..65535. The error is the text behind the `ErrInvalidEnvelope` it wraps. -/
def validateTunnelTargets (targets : List Nat) : Except String (List Nat) :=
  if targets = [] then .error "no tunnel targets supplied" else tunnelTargetsFrom 0 targets

def validateTunnelOpen (request : ExecutionTunnelOpen) : Option ValidationError :=
  firstError
    [ checkText "execution_tunnel_open.execution_id" request.executionID,
      if request.yggPeerPubkey = [] then
        invalid "execution_tunnel_open.ygg_peer_pubkey" "is required"
      else none,
      if maxPeerKeySize < request.yggPeerPubkey.length then
        invalid "execution_tunnel_open.ygg_peer_pubkey" "is too large"
      else none,
      if request.targets = [] then invalid "execution_tunnel_open.targets" "is required"
      else none,
      -- This error wraps the sentinel without naming a field.
      match validateTunnelTargets request.targets with
      | .error problem => invalid "" problem
      | .ok _ => none ]

def validateTunnelOpenAck (ack : ExecutionTunnelOpenAck) : Option ValidationError :=
  checkText "execution_tunnel_open_ack.execution_id" ack.executionID

-- ===== errors, logs

/-- `validateError`: a known code, a correlation and a bounded detail. -/
def validateError (envelope : Envelope) (failure : CommandError) : Option ValidationError :=
  if !errorCodes.contains failure.code || blank envelope.correlationID
      || 256 < failure.detail.length then
    invalid "command_error" "requires a known code, correlation, and bounded detail"
  else none

def isLogStream (stream : GoString) : Bool :=
  stream = text "stdout" || stream = text "stderr"

def validateLogsRequest (q : ExecutionLogsRequest) : Option ValidationError :=
  if blank q.executionID || !isLogStream q.stream || q.maxBytes = 0
      || maxLogBytes < q.maxBytes then
    invalid "execution_logs_request" "requires execution, stdout/stderr, and 1..65536 bytes"
  else none

def validateLogsResponse (envelope : Envelope) (r : ExecutionLogsResponse) :
    Option ValidationError :=
  if envelope.correlationID = [] || r.executionID = [] || !isLogStream r.stream
      || maxLogBytes < r.data.length || r.nextOffset < r.offset
      || r.nextOffset - r.offset != r.data.length then
    invalid "execution_logs_response" "invalid range or correlation"
  else if sum256 r.data = r.sha256 then none
  else invalid "execution_logs_response.sha256" "checksum mismatch"

-- ===== the envelope

def validatePayload (envelope : Envelope) : Option Payload → Option ValidationError
  | none => invalid "payload" "is required"
  | some (.commandError m) => validateError envelope m
  | some (.executionLogsRequest m) => validateLogsRequest m
  | some (.executionLogsResponse m) => validateLogsResponse sum256 envelope m
  | some (.executionRequest m) => validateRequest m
  | some (.executionOffer m) => validateOffer envelope m
  | some (.executionAssign m) => validateAssign m
  | some (.executionCancel m) => validateCancel m
  | some (.executionState m) => validateState m
  | some (.executionInspect m) => validateInspect m
  | some (.executionOfferRelease m) => validateOfferRelease m
  | some (.executionLeaseRenew m) => validateLeaseRenew m
  | some (.executionLeaseRenewAck m) => validateLeaseRenewAck m
  | some (.executionTunnelOpen m) => validateTunnelOpen m
  | some (.executionTunnelOpenAck m) => validateTunnelOpenAck m
  | some (.executionOfferReleaseAck m) => validateOfferReleaseAck envelope m

/-- `protocol.ValidateEnvelope`. -/
def validateEnvelope (envelope : Envelope) : Option ValidationError :=
  firstError
    [ checkText "message_id" envelope.messageID,
      if envelope.sender = [] then invalid "sender" "is required" else none,
      validTimestamp "sent_at" envelope.sentAt,
      validatePayload sum256 envelope envelope.payload ]

-- ===== what acceptance implies

theorem firstError_eq_none {checks : List (Option ValidationError)} :
    firstError checks = none ↔ ∀ c ∈ checks, c = none := by
  induction checks with
  | nil => simp [firstError]
  | cons c checks ih =>
    cases c with
    | none => simpa [firstError] using ih
    | some err => simp [firstError]

theorem checkText_eq_none {field : String} {value : GoString} :
    checkText field value = none ↔ blank value = false := by
  unfold checkText
  split
  next h => simp [invalid, h]
  next h => simp [h]

theorem ne_nil_of_not_blank {s : GoString} (h : blank s = false) : s ≠ [] := by
  rintro rfl
  cases h

variable {e : Envelope} {sum256 : Bytes → Bytes} (h : validateEnvelope sum256 e = none)
include h

theorem validatePayload_of_valid : validatePayload sum256 e e.payload = none :=
  firstError_eq_none.mp h _ (by simp)

theorem sender_ne_of_valid : e.sender ≠ [] := by
  intro hempty
  have hsender := firstError_eq_none.mp h
    (if e.sender = [] then invalid "sender" "is required" else none) (by simp)
  rw [if_pos hempty] at hsender
  cases hsender

/-- An accepted error names the command it answers. -/
theorem correlationID_ne_of_error {failure : CommandError}
    (hp : e.payload = some (.commandError failure)) : e.correlationID ≠ [] := by
  intro hempty
  have hpayload := validatePayload_of_valid h
  rw [hp] at hpayload
  change validateError e failure = none at hpayload
  unfold validateError at hpayload
  have hblank : blank e.correlationID = true := by
    rw [hempty]
    rfl
  simp [hblank, invalid] at hpayload

/-- An accepted assignment names its execution. -/
theorem executionID_ne_of_valid {assign : ExecutionAssign}
    (hp : e.payload = some (.executionAssign assign)) : assign.executionID ≠ [] := by
  have hassign := validatePayload_of_valid h
  rw [hp] at hassign
  have hid := firstError_eq_none.mp hassign
    (checkText "execution_assign.execution_id" assign.executionID) (by simp)
  exact ne_nil_of_not_blank (checkText_eq_none.mp hid)

end R1s
