/-
Node placement (`internal/protocol/placement.go`): the bounds on
capability and constraint metadata, the allocator's authoritative match,
the client's advisory one, and the text of an incompatible rejection.

An error is `some` of the field and problem the source names; `none` is
Go's nil. Where the source ranges over a map the first violation in
listing order is reported, so only the choice among several violations
can differ from a given Go run.
-/
import R1s.Protocol.Wire

namespace R1s

/-- `protocol.ValidationError`: a field that violates the wire
contract. -/
structure ValidationError where
  field : String
  problem : String
deriving DecidableEq

/-- `protocol.invalid`. -/
def invalid (field problem : String) : Option ValidationError :=
  some ⟨field, problem⟩

/-- The first error of a list of checks made in order. -/
def firstError : List (Option ValidationError) → Option ValidationError
  | [] => none
  | some e :: _ => some e
  | none :: rest => firstError rest

-- ===== the bounds

def maxCapabilityKeyLen : Nat := 64
def maxCapabilityValueLen : Nat := 128
def maxCapabilityLabels : Nat := 8
def maxCapabilityDevices : Nat := 8
def maxCapabilityProfiles : Nat := 16
def maxCapabilityCache : Nat := 16
def maxCapabilityCacheImage : Nat := 256

/-- `[a-z0-9]`. -/
def isLowerAlnum (b : UInt8) : Bool :=
  (0x61 ≤ b && b ≤ 0x7A) || (0x30 ≤ b && b ≤ 0x39)

/-- `capabilityKey`: a letter or digit, then letters, digits and the
punctuation dot, underscore, slash and dash. -/
def capabilityKey : GoString → Bool
  | [] => false
  | b :: rest =>
    isLowerAlnum b
      && rest.all fun c => isLowerAlnum c || c = 0x2E || c = 0x5F || c = 0x2F || c = 0x2D

/-- `capabilityValue`: as `capabilityKey`, with colon and plus besides. -/
def capabilityValue : GoString → Bool
  | [] => false
  | b :: rest =>
    isLowerAlnum b
      && rest.all fun c => isLowerAlnum c || c = 0x2E || c = 0x5F || c = 0x2F
          || c = 0x3A || c = 0x2B || c = 0x2D

/-- A present value is lowercase ASCII and bounded. -/
def boundedValue (value : GoString) : Bool :=
  value.length ≤ maxCapabilityValueLen && capabilityValue value

/-- One of the `os`, `arch` and `runtime` checks: an empty value is
absent. -/
def checkScalar (field : String) (value : GoString) : Option ValidationError :=
  if value = [] then none
  else if boundedValue value then none
  else invalid field "must be lowercase ASCII and bounded"

/-- A bounded list of names, each a bounded value. -/
def checkNames (field tooMany each : String) (limit : Nat) (names : List GoString) :
    Option ValidationError :=
  if limit < names.length then invalid field tooMany
  else if names.all boundedValue then none
  else invalid field each

/-- One label: a bounded key, then a bounded value. -/
def checkLabel (field : String) (label : GoString × GoString) : Option ValidationError :=
  if label.1 = [] || maxCapabilityKeyLen < label.1.length || !capabilityKey label.1 then
    invalid field "each label key must be lowercase ASCII and bounded"
  else if boundedValue label.2 then none
  else invalid field "each label value must be bounded"

def checkLabels (field : String) (labels : StringMap) : Option ValidationError :=
  if maxCapabilityLabels < labels.entries.length then invalid field "too many labels"
  else firstError (labels.entries.map (checkLabel field))

/-- The advertised image cache: bounded references of any spelling. -/
def checkCache (images : List GoString) : Option ValidationError :=
  if maxCapabilityCache < images.length then
    invalid "node_capabilities.cached_images" "too many entries"
  else if images.all fun image => image != [] && image.length ≤ maxCapabilityCacheImage then none
  else invalid "node_capabilities.cached_images" "entry must be a bounded image reference"

/-- `protocol.ValidateCapabilities`. -/
def validateCapabilities : Option NodeCapabilities → Option ValidationError
  | none => none
  | some node => firstError
      [ checkScalar "node_capabilities.os" node.os,
        checkScalar "node_capabilities.arch" node.arch,
        checkScalar "node_capabilities.runtime" node.runtime,
        checkCache node.cachedImages,
        checkNames "node_capabilities.devices" "too many devices"
          "each device must be a lowercase ASCII name" maxCapabilityDevices node.devices,
        checkNames "node_capabilities.resource_profiles" "too many profiles"
          "each profile must be a bounded lowercase name" maxCapabilityProfiles
          node.resourceProfiles,
        checkLabels "node_capabilities.labels" node.labels ]

/-- `protocol.ValidateConstraints`. -/
def validateConstraints : Option PlacementConstraints → Option ValidationError
  | none => none
  | some constraints => firstError
      [ checkScalar "placement_constraints.os" constraints.os,
        checkScalar "placement_constraints.arch" constraints.arch,
        checkScalar "placement_constraints.runtime" constraints.runtime,
        checkNames "placement_constraints.devices" "too many devices"
          "each device must be a lowercase ASCII name" maxCapabilityDevices constraints.devices,
        checkLabels "placement_constraints.labels" constraints.labels ]

-- ===== matching

/-- A non-empty requirement that the node's value does not meet. -/
def scalarConflict (required actual : GoString) : Bool :=
  required != [] && required != actual

/-- `protocol.PlacementMatches`: the allocator's authoritative check. -/
def placementMatches : Option PlacementConstraints → Option NodeCapabilities → Bool
  | none, _ => true
  | some _, none => false
  | some constraints, some node =>
    !scalarConflict constraints.os node.os
      && !scalarConflict constraints.arch node.arch
      && !scalarConflict constraints.runtime node.runtime
      && constraints.labels.entries.all (fun label => node.labels.get label.1 = label.2)
      && constraints.devices.all fun required => node.devices.contains required

/-- `protocol.PlacementCompatible`: the client's advisory check, where a
node that advertises nothing is unknown, not incompatible. -/
def placementCompatible (constraints : Option PlacementConstraints)
    (node : Option NodeCapabilities) : Bool :=
  match constraints with
  | none => true
  | some c =>
    if c.os.length + c.arch.length + c.runtime.length + c.labels.entries.length
        + c.devices.length = 0 then true
    else if node = none then true
    else placementMatches constraints node

/-- `strings.Join(parts, ",")`. -/
def joinComma : List GoString → GoString
  | [] => []
  | [part] => part
  | part :: rest => part ++ text "," ++ joinComma rest

/-- The unmet requirements, each as the rejection names it. -/
def placementMissing (constraints : PlacementConstraints) (node : NodeCapabilities) :
    List GoString :=
  (if scalarConflict constraints.os node.os then [text "os=" ++ constraints.os] else [])
    ++ (if scalarConflict constraints.arch node.arch then [text "arch=" ++ constraints.arch]
        else [])
    ++ (if scalarConflict constraints.runtime node.runtime then
          [text "runtime=" ++ constraints.runtime] else [])
    ++ (constraints.labels.entries.filter fun label => node.labels.get label.1 != label.2).map
        (fun label => text "label=" ++ label.1 ++ text "=" ++ label.2)
    ++ (constraints.devices.filter fun required => !node.devices.contains required).map
        fun required => text "device=" ++ required

/-- `protocol.PlacementConflictDetails`. -/
def placementConflictDetails : Option PlacementConstraints → Option NodeCapabilities → GoString
  | some constraints, some node =>
    match placementMissing constraints node with
    | [] => text "node satisfies no placement constraints"
    | missing => text "node does not satisfy placement constraints: " ++ joinComma missing
  | _, _ => text "node satisfies no placement constraints"

end R1s
