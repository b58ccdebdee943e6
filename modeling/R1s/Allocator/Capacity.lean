/-
Slot accounting and admission (`internal/allocator`: capacity.go,
admission.go and `expireOffersLocked` of views.go).

The ledger is the function `used`: a Go map read at an absent key gives
zero.
-/
import R1s.Allocator.Types

namespace R1s.Allocator

variable (cfg : Config)

-- ===== the ledger

/-- `capacityLedger.reserve`: `none` is the capacity error. -/
def reserve (used : GoString → Nat) (cls : GoString) : Option (GoString → Nat) :=
  match cfg.limits.lookup cls with
  | none => none
  | some limit =>
    if limit ≤ used cls then none
    else some (Function.update used cls (used cls + 1))

/-- The error `capacityLedger.reserve` returns. -/
def capacityErr (cls : GoString) : GoErr :=
  Sentinel.capacityExhausted.wrap (text "resource class " ++ quote cls)

/-- `capacityLedger.release`: a count of zero stays. -/
def release (used : GoString → Nat) (cls : GoString) : GoString → Nat :=
  Function.update used cls (used cls - 1)

/-- `capacityLedger.available`. -/
def available (used : GoString → Nat) (cls : GoString) : Nat :=
  cfg.limit cls - used cls

-- ===== offer expiry

/-- The offer is outstanding and its TTL has elapsed at `now`. -/
def OfferRecord.lapsed (now : Int) (r : OfferRecord) : Bool :=
  r.status = .outstanding && !(now < asTime r.offer.expiresAt)

/-- The loop body of `expireOffersLocked` on the record. -/
def OfferRecord.expire (now : Int) (r : OfferRecord) : OfferRecord :=
  if r.lapsed now then { r with status := .expired } else r

/-- `expireOffersLocked`. The loop releases one slot of the offer's class
for each offer it expires; a guarded decrement made `n` times is a
truncated subtraction of `n`. -/
def expireOffers (now : Int) (m : Mem) : Mem :=
  { m with
    offers := m.offers.mapVal fun _ r => r.expire now,
    used := fun cls =>
      m.used cls - m.offers.count fun _ r => r.lapsed now && r.offer.resourceClass = cls }

/-- How many offers `expireOffersLocked` reports. -/
def expiredCount (now : Int) (m : Mem) : Nat :=
  m.offers.count fun _ r => r.lapsed now

-- ===== admission

def hexDigit (n : UInt8) : UInt8 := if n < 10 then 0x30 + n else 0x57 + n

/-- `hex.EncodeToString`. -/
def hexEncode (b : Bytes) : GoString :=
  b.flatMap fun x => [hexDigit (x / 16), hexDigit (x % 16)]

/-- The quota that applies to a client. -/
def quotaOf (owner : Bytes) : Quota :=
  (cfg.admission.clientQuotas.lookup (hexEncode owner)).getD cfg.admission.defaultQuota

def admitted (owner : Bytes) : Bool :=
  match cfg.admission.allowedClients with
  | none => true
  | some allowed => allowed.contains (hexEncode owner)

/-- The client's outstanding offers, in a `uint32`. -/
def outstandingOf (m : Mem) (owner : Bytes) : Nat :=
  (m.offers.count fun _ r => r.status = .outstanding && r.client = owner) % 2 ^ 32

/-- The client's non-terminal executions, in a `uint32`. -/
def activeOf (m : Mem) (owner : Bytes) : Nat :=
  (m.executions.count fun _ r => !r.phase.terminal && r.client = owner) % 2 ^ 32

/-- `admitLocked`. -/
def admitLocked (m : Mem) (owner : Bytes) (assigning : Bool) : Option GoErr :=
  let quota := quotaOf cfg owner
  if !admitted cfg owner then some Sentinel.admission.err
  else if assigning && 0 < quota.executions && quota.executions ≤ activeOf m owner then
    some Sentinel.capacityExhausted.err
  else if !assigning && 0 < quota.offers && quota.offers ≤ outstandingOf m owner then
    some Sentinel.capacityExhausted.err
  else none

end R1s.Allocator
