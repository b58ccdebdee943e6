/-
The client core's data (`internal/client`: client.go, errors.go,
release.go) and its allocator catalog (allocators.go): known routes, the
destinations of a request, and the ranking that selects an offer.

# Conventions

- An `error` is the list of sentinels `errors.Is` finds in it together
  with its text.
- Maps iterate in the order the input gives. The catalog is keyed by the
  identity itself where the source uses its hexadecimal form.
- Cloning has no counterpart: values are not shared.
-/
import R1s.Allocator.Feedback

namespace R1s.Client

open Allocator (hexEncode quote visit)

-- ===== errors

/-- The sentinels of the core, of the validator and of `context`. -/
inductive Sentinel
  | invalidConfig | invalidAllocator | unsupportedMessage | requestNotFound
  | executionNotFound | noOffer | conflict | unauthorized
  | invalidEnvelope | canceled | deadlineExceeded
deriving DecidableEq

def Sentinel.text : Sentinel → GoString
  | invalidConfig => R1s.text "invalid client configuration"
  | invalidAllocator => R1s.text "invalid allocator"
  | unsupportedMessage => R1s.text "unsupported client message"
  | requestNotFound => R1s.text "request not found"
  | executionNotFound => R1s.text "execution not found"
  | noOffer => R1s.text "no usable offer"
  | conflict => R1s.text "client state conflict"
  | unauthorized => R1s.text "unauthorized allocator"
  | invalidEnvelope => R1s.text "invalid envelope"
  | canceled => R1s.text "context canceled"
  | deadlineExceeded => R1s.text "context deadline exceeded"

structure Err where
  sentinels : List Sentinel
  text : GoString
deriving DecidableEq

/-- `errors.Is`. -/
def Err.is (err : Err) (s : Sentinel) : Bool := err.sentinels.contains s

def Sentinel.err (s : Sentinel) : Err := ⟨[s], s.text⟩

/-- `fmt.Errorf("%w: …", s, …)`. -/
def Sentinel.wrap (s : Sentinel) (detail : GoString) : Err :=
  ⟨[s], s.text ++ R1s.text ": " ++ detail⟩

/-- The `ValidationError` of an envelope. -/
def invalidErr (err : ValidationError) : Err :=
  Sentinel.invalidEnvelope.wrap (text err.field ++ text ": " ++ text err.problem)

/-- `ErrInvalidConfig` for an ID generator that failed. -/
def duplicateID : Err :=
  Sentinel.invalidConfig.wrap (text "ID generator returned an empty or duplicate ID")

def emptyID : Err := Sentinel.invalidConfig.wrap (text "ID generator returned an empty ID")

-- ===== records

/-- The configuration `New` accepts. -/
structure Config where
  identity : Bytes
  /-- SHA-256. -/
  sum256 : Bytes → Bytes
  identity_ne : identity ≠ []

/-- What the environment decides during one operation: the successive
clock readings and generated IDs, and the iteration order of maps. -/
structure Input where
  times : List Int := []
  ids : List GoString := []
  order : List GoString := []

/-- The `n`-th clock reading. -/
def Input.time (i : Input) (n : Nat) : Int := i.times.getD n 0

/-- The `n`-th generated ID. -/
def Input.id (i : Input) (n : Nat) : GoString := i.ids.getD n []

/-- `client.Allocator`: a discovered allocator and the route to it. A nil
map of capacities is `none`. -/
structure KnownAllocator where
  identity : Bytes
  destination : GoString
  hops : Nat := 0
  capacity : Option (FMap GoString Nat) := none
  node : Option NodeCapabilities := none
  tunnelHost : GoString := []
  tunnelPort : Int := 0
  tunnelDestination : GoString := []

structure ReleaseIntent where
  messageID : GoString
  sentAt : Int
  destination : GoString
  acknowledged : Bool
deriving DecidableEq

structure OfferRecord where
  offer : ExecutionOffer
  allocatorID : Bytes
  receivedAt : Int
  release : Option ReleaseIntent
deriving DecidableEq

structure RequestRecord where
  request : ExecutionRequest
  messageID : GoString
  createdAt : Int
  offers : FMap GoString OfferRecord
  executionID : GoString

structure ExecutionRecord where
  id : GoString
  requestID : GoString
  offerID : GoString
  allocatorID : Bytes
  destination : GoString
  assignmentMessageID : GoString
  assignmentSentAt : Int
  inspectMessageID : GoString := []
  inspectSentAt : Int := 0
  cancelMessageID : GoString := []
  cancelSentAt : Int := 0
  cancelReason : GoString := []
  state : Option ExecutionState := none
  leaseDuration : Int := 0
  leaseAllocators : List GoString := []
  leaseLost : Bool := false
  leaseRenewedAt : Int := 0
  leaseRenewMessageID : GoString := []
  leaseExpiresAt : Int := 0
deriving DecidableEq

/-- `client.Client`. -/
structure State where
  logMessageID : GoString
  logRequest : Option ExecutionLogsRequest
  allocators : FMap Bytes KnownAllocator
  requests : FMap GoString RequestRecord
  executions : FMap GoString ExecutionRecord

/-- `New`. -/
def State.empty : State := ⟨[], none, ∅, ∅, ∅⟩

/-- The record under `key` changed. -/
def State.setExecution (s : State) (key : GoString) (r : ExecutionRecord) : State :=
  { s with executions := s.executions.insert key r }

-- ===== catalog

/-- `RegisterAllocator`: what the candidate leaves out is kept from the
entry before. -/
def register (candidate : KnownAllocator) (s : State) : State × Option Err :=
  if candidate.identity = [] ∨ blank candidate.destination then
    (s, some Sentinel.invalidAllocator.err)
  else
    let merged :=
      match s.allocators.lookup candidate.identity with
      | none => candidate
      | some previous =>
        let c := candidate
        let c :=
          if c.capacity.isNone then
            { c with capacity := previous.capacity, hops := previous.hops }
          else c
        let c := if c.node.isNone then { c with node := previous.node } else c
        if c.tunnelPort = 0 then
          { c with
            tunnelHost := previous.tunnelHost, tunnelPort := previous.tunnelPort,
            tunnelDestination := previous.tunnelDestination }
        else c
    ({ s with allocators := s.allocators.insert candidate.identity merged }, none)

/-- `Capacity[resourceClass]`. -/
def KnownAllocator.slots (a : KnownAllocator) (resourceClass : GoString) : Nat :=
  ((a.capacity.getD ∅).lookup resourceClass).getD 0

/-- `AllocatorDestinations`. -/
def allocatorDestinations (resourceClass : GoString)
    (constraints : Option PlacementConstraints) (s : State) : List GoString :=
  ((s.allocators.entries.filter fun e =>
    e.2.slots resourceClass ≠ 0 && placementCompatible constraints e.2.node).map
    fun e => e.2.destination).insertionSort fun a b => ¬b < a

def nodeCaches (node : Option NodeCapabilities) (image : GoString) : Bool :=
  node.any fun n => n.cachedImages.contains image

/-- The offer is live, its allocator is known and the node it names, or
else the catalog's, meets the constraints. -/
def eligible (now : Int) (constraints : Option PlacementConstraints) (s : State)
    (offer : OfferRecord) : Bool :=
  (s.allocators.lookup offer.allocatorID).any fun allocator =>
    !blank allocator.destination && decide (now < asTime offer.offer.expiresAt)
      && placementMatches constraints (offer.offer.node.or allocator.node)

/-- The comparison of `chooseWithPreferences`: fewer hops, then a cached
image, then the smaller identity, then the smaller offer ID. -/
def ranksBefore (image : GoString) (s : State) (left right : OfferRecord) : Bool :=
  let hops (o : OfferRecord) : Nat :=
    ((s.allocators.lookup o.allocatorID).map KnownAllocator.hops).getD 0
  let cached (o : OfferRecord) : Bool := image != [] && nodeCaches o.offer.node image
  if hops left ≠ hops right then hops left < hops right
  else if cached left ≠ cached right then cached left
  else if left.allocatorID ≠ right.allocatorID then left.allocatorID < right.allocatorID
  else left.offer.offerID < right.offer.offerID

/-- The first of a list in the order `before`. -/
def first {α : Type*} (before : α → α → Bool) : List α → Option α
  | [] => none
  | a :: rest =>
    match first before rest with
    | none => some a
    | some b => some (if before b a then b else a)

/-- `chooseWithPreferences`: the best eligible offer and its allocator.
No two offers of a request rank alike, so the order they are met in does
not matter. -/
def choose (offers : FMap GoString OfferRecord) (now : Int)
    (constraints : Option PlacementConstraints) (image : GoString) (s : State) :
    Option (OfferRecord × KnownAllocator) :=
  (first (ranksBefore image s)
      ((offers.entries.map Sigma.snd).filter (eligible now constraints s))).bind fun selected =>
    (s.allocators.lookup selected.allocatorID).map fun allocator => (selected, allocator)

end R1s.Client
