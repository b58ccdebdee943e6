/-
Presence metadata (`internal/transport/rns/descriptor.go`, the `Service`
of endpoint.go, `summaryNode` of `client/run.go`): what an allocator
announces of itself, the text fields that carry it, and the node a client
makes of them.

# Conventions

- The metadata map reaches the other side as it was given: the transport
  delivers presence or drops it.
- `net.ParseIP` followed by `String` is the parameter `Addresses`; the
  text of an address is never blank.
- An error is its text. Where the source ranges over a map the first
  violation in listing order is reported.
-/
import R1s.Allocator.Types
import R1s.Lib.Form

namespace R1s.Presence

open Allocator (quote)

-- ===== values

/-- Slots per class: a Go `map[string]uint32`. -/
abbrev Capacity := { m : FMap GoString Nat // ∀ e ∈ m.entries, e.2 < 2 ^ 32 }

/-- `Descriptor`. -/
structure Descriptor where
  capacity : FMap GoString Nat
  os : GoString := []
  arch : GoString := []
  runtime : GoString := []
  tunnelHost : GoString := []
  tunnelPort : Int := 0
  tunnelDestination : GoString := []

structure TunnelAdvertisement where
  host : GoString
  port : Int
  destinationHash : GoString

/-- The canonical text of an IP address, `none` for any other host. -/
structure Addresses where
  canonical : GoString → Option GoString
  nonblank : ∀ {host address}, canonical host = some address → blank address = false

/-- `fmt.Errorf("%w: …", ErrInvalidDescriptor, …)`. -/
def invalidDescriptor (detail : GoString) : GoString :=
  text "invalid r1s presence metadata: " ++ detail

variable (addresses : Addresses)

/-- The tunnel fields of `newDescriptor`: a zero port is no tunnel. -/
def withTunnel (d : Descriptor) : Option TunnelAdvertisement → Except GoString Descriptor
  | none => .ok d
  | some tunnel =>
    if tunnel.port = 0 then .ok d
    else if tunnel.port < 1 ∨ 65535 < tunnel.port ∨ blank tunnel.host then
      .error (invalidDescriptor (text "tunnel host and valid port are required"))
    else
      .ok { d with
        tunnelHost := (addresses.canonical tunnel.host).getD tunnel.host,
        tunnelPort := tunnel.port, tunnelDestination := tunnel.destinationHash }

/-- `newDescriptor`. -/
def newDescriptor (capacity : FMap GoString Nat) (node : Option NodeCapabilities)
    (tunnel : Option TunnelAdvertisement) : Except GoString Descriptor :=
  if capacity.entries.any fun e => blank e.1 || e.2 = 0 then
    .error (invalidDescriptor (text "capacity entries must have a class and non-zero slots"))
  else if capacity.entries = [] then
    .error (invalidDescriptor (text "capacity is required"))
  else
    withTunnel addresses
      { capacity := capacity, os := (node.map NodeCapabilities.os).getD [],
        arch := (node.map NodeCapabilities.arch).getD [],
        runtime := (node.map NodeCapabilities.runtime).getD [] }
      tunnel

-- ===== metadata

abbrev Metadata := FMap GoString GoString

/-- `metadata[key]`. -/
def Metadata.get (m : Metadata) (key : String) : GoString := (m.lookup (text key)).getD []

/-- The field is left out when it is empty. -/
def Metadata.put (m : Metadata) (key : String) (value : GoString) : Metadata :=
  if value = [] then m else m.insert (text key) value

/-- The capacity entries in the order of their classes. -/
def capacityPairs (capacity : FMap GoString Nat) : List Form.Pair :=
  (capacity.entries.map fun e => (e.1, Form.formatNat e.2)).insertionSort fun a b => ¬b.1 < a.1

/-- `strconv.Itoa`. -/
def itoa (n : Int) : GoString :=
  if n < 0 then 0x2D :: Form.formatNat n.natAbs else Form.formatNat n.natAbs

/-- `metadata`. -/
def Descriptor.metadata (d : Descriptor) : Metadata :=
  let m : Metadata :=
    (∅ : Metadata).insert (text "c") (Form.encode (capacityPairs d.capacity))
  let m := (((((m.put "o" d.os).put "a" d.arch).put "r" d.runtime).put "h" d.tunnelHost).put "d"
    d.tunnelDestination)
  if 0 < d.tunnelPort then m.insert (text "p") (itoa d.tunnelPort) else m

/-- `strconv.ParseUint(s, 10, 32)`. -/
def parseSlots (s : GoString) : Option Nat :=
  (Form.parseNat s).filter (· < 2 ^ 32)

/-- `strconv.Atoi`. -/
def atoi : GoString → Option Int
  | 0x2D :: digits => ((Form.parseNat digits).filter (· ≤ 2 ^ 63)).map fun n => -(n : Int)
  | 0x2B :: digits => ((Form.parseNat digits).filter (· < 2 ^ 63)).map Int.ofNat
  | digits => ((Form.parseNat digits).filter (· < 2 ^ 63)).map Int.ofNat

/-- One class of the capacity field, given once and with slots. -/
def readClass (pairs : List Form.Pair) (capacity : FMap GoString Nat) (pair : Form.Pair) :
    Except GoString (FMap GoString Nat) :=
  if (pairs.filter fun p => p.1 = pair.1).length ≠ 1 then
    .error (invalidDescriptor (text "duplicate capacity class " ++ quote pair.1))
  else
    match parseSlots pair.2 with
    | none => .error (invalidDescriptor (text "invalid capacity for class " ++ quote pair.1))
    | some slots =>
      if slots = 0 then
        .error (invalidDescriptor (text "invalid capacity for class " ++ quote pair.1))
      else .ok (capacity.insert pair.1 slots)

/-- The tunnel fields: all or none. -/
def readTunnel (m : Metadata) : Except GoString (Option TunnelAdvertisement) :=
  if m.get "p" ≠ [] then
    match atoi (m.get "p") with
    | none => .error (invalidDescriptor (text "invalid tunnel port"))
    | some port => .ok (some ⟨m.get "h", port, m.get "d"⟩)
  else if m.get "h" ≠ [] ∨ m.get "d" ≠ [] then
    .error (invalidDescriptor (text "incomplete tunnel metadata"))
  else .ok none

/-- A node that names nothing but these. -/
def scalarNode (os arch runtime : GoString) : NodeCapabilities :=
  ⟨os, arch, runtime, [], [], .empty, []⟩

/-- `parseDescriptorMetadata`. -/
def parseDescriptorMetadata (m : Metadata) : Except GoString Descriptor :=
  match Form.decode (m.get "c") with
  | none => .error (invalidDescriptor (text "capacity metadata is required"))
  | some pairs =>
    if m.get "c" = [] then
      .error (invalidDescriptor (text "capacity metadata is required"))
    else do
      let capacity ← pairs.foldlM (readClass pairs) ∅
      let tunnel ← readTunnel m
      newDescriptor addresses capacity
        (some (scalarNode (m.get "o") (m.get "a") (m.get "r"))) tunnel

-- ===== the client

/-- `Service`. -/
structure Service where
  destination : GoString
  identity : GoString
  descriptor : Descriptor
  hops : Nat

/-- `TunnelEndpoint`. -/
def Service.tunnelEndpoint (s : Service) : Option (GoString × Int × GoString) :=
  if s.descriptor.tunnelPort ≤ 0 ∨ s.descriptor.tunnelHost = [] then none
  else
    some (s.descriptor.tunnelHost, s.descriptor.tunnelPort, s.descriptor.tunnelDestination)

/-- `summaryNode`. -/
def summaryNode (os arch runtime : GoString) : Option NodeCapabilities :=
  if os = [] ∧ arch = [] ∧ runtime = [] then none else some (scalarNode os arch runtime)

/-- The node the client reads from a descriptor. -/
def Descriptor.summary (d : Descriptor) : Option NodeCapabilities :=
  summaryNode d.os d.arch d.runtime

end R1s.Presence
