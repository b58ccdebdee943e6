/-
Start requests and their specification (`internal/runtime/containerd`:
specification.go, client.go; `internal/runtime`: runtime.go,
resources.go; `startRequestLocked` of the allocator): what the execution
manager checks and fingerprints before it claims an entry.

The image reference parser, the deterministic protobuf encoding and
SHA-256 come from other packages; they are the fields of `Platform`.
-/
import R1s.Allocator.Background
import R1s.Lib.Form

namespace R1s.Runtime

open Allocator (Fault Resources ExecutionRecord hexEncode)

/-- `runtime.StartRequest`. -/
structure StartRequest where
  executionID : GoString
  runID : GoString
  attempt : Nat
  client : Bytes
  workload : Option Workload
  policy : Option ExecutionPolicy
  resources : Resources
  startedAt : Int
deriving DecidableEq

/-- `startRequestLocked`. -/
def startRequest (r : ExecutionRecord) : StartRequest where
  executionID := r.id
  runID := r.request.runID
  attempt := r.request.attempt
  client := r.client
  workload := r.request.workload
  policy := r.request.policy
  resources := r.resources
  startedAt := r.startedAt

/-- What the adapter takes from other packages. -/
structure Platform where
  pinnedDigest : GoString → Except GoString GoString
  workloadBytes : Workload → Except GoString Bytes
  policyBytes : ExecutionPolicy → Except GoString Bytes
  sum256 : Bytes → Bytes

/-- `ErrInvalidRequest` with its detail. -/
def invalidRequest (detail : GoString) : Fault :=
  ⟨[], text "invalid containerd start request: " ++ detail⟩

/-- `Resources.Validate`. -/
def validateResources (r : Resources) : Option Fault :=
  if r = .zero then none
  else if r.memoryBytes < 1048576 ∨ r.cpuMilli ≤ 0 ∨ 1000000 < r.cpuMilli ∨ r.pids ≤ 0
      ∨ 1000000 < r.pids then
    some ⟨[], text "invalid resource profile: all limits must be positive and bounded"⟩
  else none

/-- `binary.BigEndian.PutUint64`. -/
def bigEndian64 (n : Nat) : Bytes :=
  (List.range 8).reverse.map fun byte => UInt8.ofNat (n / 256 ^ byte)

/-- `writeHashPart`. -/
def hashPart (value : Bytes) : Bytes := bigEndian64 value.length ++ value

/-- `json.Marshal` of a resource profile. -/
def resourcesJSON (r : Resources) : Bytes :=
  text "\x7b\"memory_bytes\":" ++ text (toString r.memoryBytes)
    ++ text ",\"cpu_milli\":" ++ text (toString r.cpuMilli)
    ++ text ",\"pids\":" ++ text (toString r.pids) ++ text "\x7d"

/-- The bytes `fingerprint` feeds to the hash. -/
def hashInput (r : StartRequest) (workload policy : Bytes) : Bytes :=
  hashPart r.client ++ hashPart r.runID ++ hashPart (bigEndian64 r.attempt)
    ++ hashPart workload ++ hashPart policy
    ++ if r.resources = .zero then [] else hashPart (resourcesJSON r.resources)

/-- `fingerprint` of a request with a workload and a policy. -/
def fingerprint (p : Platform) (r : StartRequest) (workload : Workload)
    (policy : ExecutionPolicy) : Except Fault GoString :=
  match p.workloadBytes workload with
  | .error problem => .error (invalidRequest (text "marshal workload: " ++ problem))
  | .ok workload =>
    match p.policyBytes policy with
    | .error problem => .error (invalidRequest (text "marshal policy: " ++ problem))
    | .ok policy => .ok (hexEncode (p.sum256 (hashInput r workload policy)))

/-- `prepareExecution`: the fingerprint of an acceptable request. -/
def prepareExecution (p : Platform) (r : StartRequest) : Except Fault GoString :=
  if blank r.executionID then .error (invalidRequest (text "execution ID is required"))
  else if blank r.runID ∨ r.attempt = 0 then
    .error (invalidRequest (text "run ID and positive attempt are required"))
  else
    match r.workload, r.policy with
    | some workload, some policy =>
      match p.pinnedDigest workload.image with
      | .error problem => .error (invalidRequest problem)
      | .ok _ =>
        match validateResources r.resources with
        | some f => .error f
        | none => fingerprint p r workload policy
    | _, _ => .error (invalidRequest (text "workload and policy are required"))

-- ===== the container's environment

/-- `runEnv`. -/
def runEnv : GoString := text "R1S_RUN_ID"

/-- `attemptEnv`. -/
def attemptEnv : GoString := text "R1S_ATTEMPT"

/-- An entry `key=value`. -/
def envEntry (key value : GoString) : GoString := key ++ 0x3D :: value

/-- `environment`: the workload's variables in the order of their keys,
but for those the runtime sets itself. -/
def environment (workload : Workload) (runID : GoString) (attempt : Nat) : List GoString :=
  (workload.environment.entries.filter fun e => e.1 ≠ runEnv && e.1 ≠ attemptEnv).map
      (fun e => envEntry e.1 e.2)
    ++ [envEntry runEnv runID, envEntry attemptEnv (Form.formatNat attempt)]

end R1s.Runtime
