/-
The wire contract's data: the messages of `api/proto/r1s/v1/control.proto`
and the Go values they are made of.

# Conventions

- A Go `string` is a byte sequence, not a list of characters, and the
  code depends on the difference (authority keys join raw identity
  bytes with a text ID, runtime error texts may be any bytes), so
  `GoString` is `List UInt8`. Only the fixed words the code compares
  command errors by are Lean `String`s.
- `time.Time` is an `Int`: nanoseconds since Go's zero time,
  0001-01-01T00:00:00Z, so `IsZero` is equality with zero. A
  `time.Duration` is an `Int` of nanoseconds.
- A protobuf `map` field is listed in key order, which makes equal maps
  equal lists; nothing in the code updates one.
- A `oneof` wrapper always holds its message: the decoder never leaves
  it nil.
- `ExecutionPhase` keeps the numbers the schema names. A number it does
  not name reaches no state: the validator refuses it like
  `unspecified`.
-/
import Mathlib

namespace R1s

-- ===== Go's own values

/-- A byte slice. -/
abbrev Bytes := List UInt8

/-- A Go string: any bytes, valid UTF-8 or not. -/
abbrev GoString := List UInt8

instance : LawfulBEq GoString := inferInstance

/-- The bytes of a text literal. -/
def text (s : String) : GoString := s.toUTF8.data.toList

/-- `time.Minute`. -/
def minute : Int := 60 * 1000000000

/-- `time.Hour`. -/
def hour : Int := 60 * minute

/-- Drop one leading white-space code point of Go's `unicode.IsSpace`,
`none` when the string starts with none. -/
def dropSpace : GoString → Option GoString
  | 0x09 :: rest | 0x0A :: rest | 0x0B :: rest | 0x0C :: rest | 0x0D :: rest
  | 0x20 :: rest => some rest
  | 0xC2 :: 0x85 :: rest | 0xC2 :: 0xA0 :: rest => some rest
  | 0xE1 :: 0x9A :: 0x80 :: rest => some rest
  | 0xE2 :: 0x80 :: b :: rest =>
    if (0x80 ≤ b && b ≤ 0x8A) || b = 0xA8 || b = 0xA9 || b = 0xAF then some rest
    else none
  | 0xE2 :: 0x81 :: 0x9F :: rest => some rest
  | 0xE3 :: 0x80 :: 0x80 :: rest => some rest
  | _ => none

/-- `strings.TrimSpace(s) == ""`, with the string's length as fuel: a
code point is at least one byte. -/
def blankFuel : Nat → GoString → Bool
  | _, [] => true
  | 0, _ :: _ => false
  | fuel + 1, s =>
    match dropSpace s with
    | some rest => blankFuel fuel rest
    | none => false

/-- `strings.TrimSpace(s) == ""`. -/
def blank (s : GoString) : Bool := blankFuel s.length s

-- ===== timestamps, durations

/-- `timestamppb.Timestamp`: Unix seconds and nanoseconds. -/
structure Timestamp where
  seconds : Int
  nanos : Int
deriving DecidableEq

/-- Seconds from 0001-01-01 to the Unix epoch. -/
def unixEpoch : Int := 62135596800

/-- `timestamppb.New`. -/
def Timestamp.new (t : Int) : Timestamp :=
  ⟨t / 1000000000 - unixEpoch, t % 1000000000⟩

/-- `(*Timestamp).AsTime`. -/
def Timestamp.asTime (ts : Timestamp) : Int :=
  (ts.seconds + unixEpoch) * 1000000000 + ts.nanos

/-- `(*Timestamp).CheckValid`: years 1 to 9999, nanoseconds in range. -/
def Timestamp.checkValid (ts : Timestamp) : Option String :=
  if ts.seconds < -62135596800 then some "timestamp before 0001-01-01"
  else if 253402300799 < ts.seconds then some "timestamp after 9999-12-31"
  else if ts.nanos < 0 ∨ 1000000000 ≤ ts.nanos then
    some "timestamp has out-of-range nanos"
  else none

/-- `AsTime` through a getter: a missing timestamp reads as the Unix
epoch. -/
def asTime : Option Timestamp → Int
  | some ts => ts.asTime
  | none => Timestamp.asTime ⟨0, 0⟩

@[simp] theorem Timestamp.asTime_new (t : Int) : (Timestamp.new t).asTime = t := by
  have := Int.mul_ediv_add_emod t 1000000000
  simp only [Timestamp.new, Timestamp.asTime]
  omega

@[simp] theorem asTime_some (ts : Timestamp) : asTime (some ts) = ts.asTime := rfl

/-- The instants a protobuf timestamp can carry: 0001-01-01 up to, not
including, 10000-01-01. -/
def Stampable (t : Int) : Prop := 0 ≤ t ∧ t < 315537897600000000000

instance (t : Int) : Decidable (Stampable t) :=
  inferInstanceAs (Decidable (_ ∧ _))

theorem Timestamp.checkValid_new {t : Int} : (Timestamp.new t).checkValid = none ↔ Stampable t := by
  have hdiv := Int.mul_ediv_add_emod t 1000000000
  have hnanos : ¬(t % 1000000000 < 0 ∨ 1000000000 ≤ t % 1000000000) := by omega
  simp only [Timestamp.new, Timestamp.checkValid, Stampable, unixEpoch]
  by_cases hlow : t / 1000000000 - 62135596800 < -62135596800
  · simp only [hlow, if_true, reduceCtorEq, false_iff]
    omega
  · by_cases hhigh : 253402300799 < t / 1000000000 - 62135596800
    · simp only [hlow, hhigh, if_true, if_false, reduceCtorEq, false_iff]
      omega
    · simp only [hlow, hhigh, hnanos, if_false, true_iff]
      omega

/-- `durationpb.Duration`. -/
structure PbDuration where
  seconds : Int
  nanos : Int
deriving DecidableEq

/-- The largest and smallest `time.Duration`. -/
def maxDuration : Int := 9223372036854775807
def minDuration : Int := -9223372036854775808

/-- `(*Duration).AsDuration`: saturates at the range of `int64`. -/
def PbDuration.asDuration (d : PbDuration) : Int :=
  max minDuration (min maxDuration (d.seconds * 1000000000 + d.nanos))

/-- `(*Duration).CheckValid`. -/
def PbDuration.checkValid (d : PbDuration) : Option String :=
  if d.seconds < -315576000000 then some "duration exceeds -10000 years"
  else if 315576000000 < d.seconds then some "duration exceeds +10000 years"
  else if d.nanos ≤ -1000000000 ∨ 1000000000 ≤ d.nanos then
    some "duration has out-of-range nanos"
  else if (0 < d.seconds ∧ d.nanos < 0) ∨ (d.seconds < 0 ∧ 0 < d.nanos) then
    some "duration has seconds and nanos with different signs"
  else none

/-- `durationpb.New`: Go's division truncates toward zero. -/
def PbDuration.new (d : Int) : PbDuration :=
  ⟨d.tdiv 1000000000, d.tmod 1000000000⟩

-- ===== messages

/-- A protobuf `map<string, string>`, listed in key order. -/
structure StringMap where
  entries : List (GoString × GoString)
  sorted : entries.Pairwise fun a b => a.1 < b.1

/-- Equal maps have equal listings. -/
instance : DecidableEq StringMap := fun a b =>
  match decEq a.entries b.entries with
  | .isTrue h => .isTrue (by cases a; cases b; cases h; rfl)
  | .isFalse h => .isFalse fun heq => h (congrArg StringMap.entries heq)

/-- `m[key]` of a Go map: the zero value for a missing key. -/
def StringMap.get (m : StringMap) (key : GoString) : GoString :=
  (m.entries.lookup key).getD []

def StringMap.empty : StringMap := ⟨[], List.Pairwise.nil⟩

structure Workload where
  image : GoString
  command : List GoString
  args : List GoString
  environment : StringMap
  workingDirectory : GoString
deriving DecidableEq

/-- Every field of the policy is retired; the message is still
required. -/
structure ExecutionPolicy where
deriving DecidableEq

structure NodeCapabilities where
  os : GoString
  arch : GoString
  runtime : GoString
  resourceProfiles : List GoString
  devices : List GoString
  labels : StringMap
  cachedImages : List GoString
deriving DecidableEq

structure PlacementConstraints where
  os : GoString
  arch : GoString
  runtime : GoString
  labels : StringMap
  devices : List GoString
deriving DecidableEq

structure ExecutionRequest where
  requestID : GoString
  workload : Option Workload
  policy : Option ExecutionPolicy
  resourceClass : GoString
  constraints : Option PlacementConstraints
  runID : GoString
  attempt : Nat
deriving DecidableEq

structure ExecutionOffer where
  offerID : GoString
  requestID : GoString
  resourceClass : GoString
  expiresAt : Option Timestamp
  node : Option NodeCapabilities
deriving DecidableEq

structure ExecutionAssign where
  requestID : GoString
  offerID : GoString
  executionID : GoString
deriving DecidableEq

structure ExecutionOfferRelease where
  requestID : GoString
  offerID : GoString
deriving DecidableEq

inductive OfferReleaseOutcome
  | unspecified | released | expired | assigned
deriving DecidableEq

structure ExecutionOfferReleaseAck where
  requestID : GoString
  offerID : GoString
  outcome : OfferReleaseOutcome
deriving DecidableEq

structure ExecutionCancel where
  executionID : GoString
  reason : GoString
deriving DecidableEq

structure ExecutionInspect where
  executionID : GoString
deriving DecidableEq

inductive ExecutionPhase
  | unspecified | starting | running | cancelling | cancelled | completed | failed
deriving DecidableEq

/-- `protocol.Terminal`: the phase ends the execution's lifetime. -/
def ExecutionPhase.terminal : ExecutionPhase → Bool
  | .cancelled | .completed | .failed => true
  | _ => false

structure ExecutionState where
  executionID : GoString
  phase : ExecutionPhase
  occurredAt : Option Timestamp
  detail : GoString
  exitCode : Option Int
  revision : Nat
deriving DecidableEq

structure CommandError where
  code : String
  detail : GoString
  retryable : Bool
deriving DecidableEq

structure ExecutionLogsRequest where
  executionID : GoString
  stream : GoString
  offset : Nat
  maxBytes : Nat
deriving DecidableEq

structure ExecutionLogsResponse where
  executionID : GoString
  stream : GoString
  offset : Nat
  data : Bytes
  nextOffset : Nat
  eof : Bool
  truncated : Bool
  sha256 : Bytes
deriving DecidableEq

structure ExecutionLeaseRenew where
  executionID : GoString
  leaseDuration : Option PbDuration
deriving DecidableEq

structure ExecutionLeaseRenewAck where
  executionID : GoString
  expiresAt : Option Timestamp
deriving DecidableEq

structure ExecutionTunnelOpen where
  executionID : GoString
  yggPeerPubkey : Bytes
  targets : List Nat
deriving DecidableEq

structure ExecutionTunnelOpenAck where
  executionID : GoString
  allocatorEndpoint : Bytes
  allocatorEndpointPubkey : Bytes
  targets : List Nat
deriving DecidableEq

/-- The envelope's `oneof payload`. -/
inductive Payload
  | executionRequest (m : ExecutionRequest)
  | executionOffer (m : ExecutionOffer)
  | executionAssign (m : ExecutionAssign)
  | executionCancel (m : ExecutionCancel)
  | executionState (m : ExecutionState)
  | executionInspect (m : ExecutionInspect)
  | executionOfferRelease (m : ExecutionOfferRelease)
  | executionOfferReleaseAck (m : ExecutionOfferReleaseAck)
  | commandError (m : CommandError)
  | executionLogsRequest (m : ExecutionLogsRequest)
  | executionLogsResponse (m : ExecutionLogsResponse)
  | executionLeaseRenew (m : ExecutionLeaseRenew)
  | executionLeaseRenewAck (m : ExecutionLeaseRenewAck)
  | executionTunnelOpen (m : ExecutionTunnelOpen)
  | executionTunnelOpenAck (m : ExecutionTunnelOpenAck)
deriving DecidableEq

/-- The authenticated unit exchanged by transports. -/
structure Envelope where
  messageID : GoString
  sender : Bytes
  correlationID : GoString
  sentAt : Option Timestamp
  payload : Option Payload
deriving DecidableEq

end R1s
