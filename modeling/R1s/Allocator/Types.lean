/-
The allocator's data (`internal/allocator`: errors.go, config.go,
retention_policy.go, replay.go, state_schema.go): error values, the
configuration `New` accepts, the records, the in-memory state and the
durable snapshot.

# Conventions

- An `error` is the list of sentinels `errors.Is` finds in it together
  with its text. `%q` is written as the text between quotes; the texts
  of command errors only reach logs and the saved replay entry, with the
  exception of `ErrIncompatible`, whose text quotes nothing.
- Errors of the runtime, the log store and the state store are inputs
  (`Fault`). They carry at most the sentinels of `internal/runtime` and
  those of the completion reporter.
- A protobuf message in the snapshot stands for its encoding: decoding
  an encoded message gives the message back, and encoding fails exactly
  when a string field is not valid UTF-8.
- `replayEntry.done` is a flag; `owner` names the `Handle` call that
  holds the entry's pointer and will close its channel.
- Metrics are left out.
-/
import R1s.Protocol.Validate
import R1s.Tunnel.Registry
import R1s.Lib.Utf8

namespace R1s.Allocator

-- ===== errors

/-- The sentinel errors of the allocator, and the ones of other packages
it tests for. -/
inductive Sentinel
  | offerReleased | invalidConfig | unsupportedMessage | capacityExhausted
  | offerNotFound | offerExpired | offerAlreadyAssigned
  | executionNotFound | executionConflict | unauthorized | invalidTransition
  | runtimeStart | runtimeStop | idCollision | replayCapacity | replayConflict
  | leaseTooLong | store | recoveryUnsupported | incompatible
  | admission | resultExpired | commandExpired | tunnelDisabled | tunnelNoEndpoint
  | invalidEnvelope
  | runtimeMissing | runtimeConflict | logsMissing | logOffset
deriving DecidableEq

def Sentinel.text : Sentinel → GoString
  | offerReleased => R1s.text "offer was released"
  | invalidConfig => R1s.text "invalid allocator configuration"
  | unsupportedMessage => R1s.text "unsupported allocator message"
  | capacityExhausted => R1s.text "allocator capacity exhausted"
  | offerNotFound => R1s.text "offer not found"
  | offerExpired => R1s.text "offer expired"
  | offerAlreadyAssigned => R1s.text "offer already assigned"
  | executionNotFound => R1s.text "execution not found"
  | executionConflict => R1s.text "execution conflicts with existing execution"
  | unauthorized => R1s.text "sender is not authorized"
  | invalidTransition => R1s.text "invalid execution transition"
  | runtimeStart => R1s.text "runtime start failed"
  | runtimeStop => R1s.text "runtime stop failed"
  | idCollision => R1s.text "generated identifier already exists"
  | replayCapacity => R1s.text "replay capacity exhausted"
  | replayConflict => R1s.text "message ID reused with different content"
  | leaseTooLong => R1s.text "lease duration exceeds the allocator bound"
  | store => R1s.text "allocator state store failed"
  | recoveryUnsupported => R1s.text "runtime does not support recovery"
  | incompatible => R1s.text "node does not satisfy placement constraints"
  | admission => R1s.text "client admission denied"
  | resultExpired => R1s.text "retained result expired"
  | commandExpired => R1s.text "command outside replay horizon"
  | tunnelDisabled => R1s.text "direct-access tunnels are disabled on this allocator"
  | tunnelNoEndpoint => R1s.text "tunnel endpoint is not ready"
  | invalidEnvelope => R1s.text "invalid envelope"
  | runtimeMissing => R1s.text "runtime execution is missing"
  | runtimeConflict => R1s.text "runtime execution conflicts with durable state"
  | logsMissing => R1s.text "logs are missing or expired"
  | logOffset => R1s.text "log offset is outside retained data"

/-- A Go error: the sentinels it wraps and its text. -/
structure GoErr where
  sentinels : List Sentinel
  text : GoString
deriving DecidableEq

/-- `errors.Is`. -/
def GoErr.is (err : GoErr) (s : Sentinel) : Bool := err.sentinels.contains s

/-- A sentinel returned as it is. -/
def Sentinel.err (s : Sentinel) : GoErr := ⟨[s], s.text⟩

/-- `fmt.Errorf("%w: …", s, …)`. -/
def Sentinel.wrap (s : Sentinel) (detail : GoString) : GoErr :=
  ⟨[s], s.text ++ R1s.text ": " ++ detail⟩

/-- `%q`. -/
def quote (s : GoString) : GoString := R1s.text "\"" ++ s ++ R1s.text "\""

/-- `errors.Join`: nil errors are discarded, texts stand on lines of
their own. -/
def joinErrs (errs : List (Option GoErr)) : Option GoErr :=
  match errs.filterMap id with
  | [] => none
  | err :: rest =>
    some ⟨err.sentinels ++ rest.flatMap GoErr.sentinels,
      err.text ++ rest.flatMap fun e => 0x0A :: e.text⟩

/-- The marks the runtime and the log store put on their errors. The last
three come from the allocator itself: a stop returns what the completion
reporter returned to the runtime. -/
inductive FaultMark
  | missing | conflict | logsMissing | logOffset | transition | notFound | store
deriving DecidableEq

def FaultMark.sentinel : FaultMark → Sentinel
  | transition => .invalidTransition
  | notFound => .executionNotFound
  | store => .store
  | missing => .runtimeMissing
  | conflict => .runtimeConflict
  | logsMissing => .logsMissing
  | logOffset => .logOffset

/-- An error of the runtime, the log store or the state store. -/
structure Fault where
  marks : List FaultMark
  text : GoString
deriving DecidableEq

def Fault.err (f : Fault) : GoErr := ⟨f.marks.map FaultMark.sentinel, f.text⟩

-- ===== configuration

/-- `runtime.Resources`. -/
structure Resources where
  memoryBytes : Int
  cpuMilli : Int
  pids : Int
deriving DecidableEq

/-- The zero `Resources`. -/
def Resources.zero : Resources := ⟨0, 0, 0⟩

structure Quota where
  offers : Nat
  executions : Nat
deriving DecidableEq

structure AdmissionPolicy where
  profiles : FMap GoString Resources
  /-- `none` admits every authenticated client. -/
  allowedClients : Option (List GoString)
  defaultQuota : Quota
  clientQuotas : FMap GoString Quota

/-- How far back a command may be sent, and how long a tombstone guards
its resources. -/
def commandHorizon : Int := 7 * 24 * hour

def maxLeaseTTL : Int := commandHorizon

/-- `protocol.LeaseExpiredDetail`. -/
def leaseExpiredDetail : GoString := R1s.text "execution lease expired"

/-- The configuration of a constructed allocator: what `New` stores after
its checks and defaults. -/
structure Config where
  identity : Bytes
  limits : FMap GoString Nat
  maxRecords : Nat
  offerTTL : Int
  leaseTTL : Int
  retention : Int
  replayTTL : Int
  replayCapacity : Nat
  admission : AdmissionPolicy
  node : Option NodeCapabilities
  tunnelEnabled : Bool
  tunnelEndpoint : Tunnel.Endpoint
  /-- SHA-256. Nothing depends on its values. -/
  sum256 : Bytes → Bytes
  /-- A state store is configured. -/
  stored : Bool
  /-- A log store is configured. -/
  logs : Bool
  /-- The runtime implements `Recoverer`. -/
  recoverer : Bool
  identity_ne : identity ≠ []
  limits_pos : ∀ cls slots, limits.lookup cls = some slots → blank cls = false ∧ 0 < slots
  offerTTL_pos : 0 < offerTTL
  leaseTTL_pos : 0 < leaseTTL
  retention_le : 0 < retention ∧ retention ≤ commandHorizon
  replayTTL_pos : 0 < replayTTL
  replayCapacity_pos : 0 < replayCapacity
  node_valid : validateCapabilities node = none

/-- `limits[class]`. -/
def Config.limit (cfg : Config) (cls : GoString) : Nat :=
  (cfg.limits.lookup cls).getD 0

-- ===== records

inductive OfferStatus
  | outstanding | assigned | expired | released
deriving DecidableEq

structure OfferRecord where
  offer : ExecutionOffer
  request : ExecutionRequest
  client : Bytes
  status : OfferStatus
  execution : GoString
  resources : Resources
deriving DecidableEq

structure ExecutionRecord where
  id : GoString
  offerID : GoString
  client : Bytes
  resourceClass : GoString
  request : ExecutionRequest
  phase : ExecutionPhase
  detail : GoString
  exitCode : Option Int
  occurredAt : Int
  startedAt : Int
  released : Bool
  retainUntil : Int
  leaseUntil : Int
  revision : UInt64
  resources : Resources
deriving DecidableEq

structure Tombstone where
  client : Bytes
  requestID : GoString
  offerID : GoString
  executionID : GoString
  expiresAt : Int
  cleanupPending : Bool
deriving DecidableEq

structure ReplayEntry where
  seenAt : Int
  done : Bool
  envelope : Envelope
  responses : List Envelope
  err : Option GoErr
  owner : Nat
deriving DecidableEq

-- ===== state

/-- The mutable part of `Allocator`. -/
structure Mem where
  highWater : Int
  tombstones : FMap GoString Tombstone
  used : GoString → Nat
  offers : FMap GoString OfferRecord
  requests : FMap GoString GoString
  executions : FMap GoString ExecutionRecord
  replay : FMap GoString ReplayEntry
  tunnels : Tunnel.Registry

/-- `persistedReplay`. -/
structure PersistedReplay where
  key : GoString
  seenAt : Int
  envelope : Envelope
  responses : List Envelope
  error : GoString
  errorCode : Option Sentinel
  complete : Bool
deriving DecidableEq

/-- `persistedState`, at the current version. -/
structure Snapshot where
  identity : Bytes
  highWater : Int
  tombstones : List (GoString × Tombstone)
  offers : List OfferRecord
  executions : List ExecutionRecord
  replay : List PersistedReplay
deriving DecidableEq

/-- The memory of the running process and the snapshot in the store. -/
structure World where
  mem : Mem
  disk : Option Snapshot

/-- `authorityKey`. -/
def authorityKey (identity : Bytes) (id : GoString) : GoString := identity ++ 0 :: id

/-- What `Handle` and its handlers return. -/
structure Reply where
  responses : List Envelope
  err : Option GoErr
deriving DecidableEq

def Reply.ok (response : Envelope) : Reply := ⟨[response], none⟩
def Reply.fail (err : GoErr) : Reply := ⟨[], some err⟩

end R1s.Allocator
