/-
The allocator-side tunnel registry (`internal/tunnel/registry.go`,
`session.go`): one record per execution with the owner's declared peer
key and port list, and at most one live session.

A `*Session` is compared by pointer in the source, so a session carries
the serial number it was issued under; `closed` lists the serials whose
done channel was closed, once per `close`.
-/
import R1s.Lib.FinMap
import R1s.Protocol.Wire

namespace R1s.Tunnel

/-- `tunnel.Endpoint`: an opaque overlay advertisement. -/
structure Endpoint where
  address : Bytes
  pubKey : Bytes
deriving DecidableEq

structure Session where
  serial : Nat
  executionID : GoString
  peerKey : Bytes
  targets : List Nat
  endpoint : Endpoint
deriving DecidableEq

/-- `tunnel.record`. -/
structure Record where
  peerKey : Bytes
  targets : List Nat
  endpoint : Endpoint
  session : Option Session
deriving DecidableEq

structure Registry where
  records : FMap GoString Record
  issued : Nat
  closed : List Nat
deriving DecidableEq

/-- `tunnel.NewRegistry`. -/
def Registry.new : Registry := ⟨∅, 0, []⟩

/-- `Registry.Bind`: the error's text, or the registry with the binding
replaced. A live session is left alone. -/
def Registry.bind (r : Registry) (executionID : GoString) (peerKey : Bytes)
    (targets : List Nat) (endpoint : Endpoint) : Except String Registry :=
  if executionID = [] then .error "tunnel binding: execution ID is required"
  else if peerKey = [] then .error "tunnel binding: peer key is required"
  else if targets = [] then .error "tunnel binding: at least one target port is required"
  else
    let session := (r.records.lookup executionID).bind Record.session
    .ok { r with records := r.records.insert executionID ⟨peerKey, targets, endpoint, session⟩ }

/-- Why `Registry.Open` refuses. -/
inductive OpenError
  | noExecutionID | notBound | peerKeyMismatch | sessionBusy
deriving DecidableEq

/-- `Registry.Open`: the key is checked before the session, so a stranger
cannot learn whether one is live. -/
def Registry.open (r : Registry) (executionID : GoString) (peerKey : Bytes) :
    Except OpenError (Registry × Session) :=
  if executionID = [] then .error .noExecutionID
  else
    match r.records.lookup executionID with
    | none => .error .notBound
    | some rec =>
      if rec.peerKey ≠ peerKey then .error .peerKeyMismatch
      else if rec.session.isSome then .error .sessionBusy
      else
        let session := ⟨r.issued, executionID, peerKey, rec.targets, rec.endpoint⟩
        .ok ({ r with
                records := r.records.insert executionID { rec with session := some session },
                issued := r.issued + 1 }, session)

/-- `Registry.CloseSession`: ends the session, keeps the binding. -/
def Registry.closeSession (r : Registry) (executionID : GoString) : Registry :=
  match r.records.lookup executionID with
  | some rec =>
    match rec.session with
    | some session =>
      { r with
        records := r.records.insert executionID { rec with session := none },
        closed := r.closed ++ [session.serial] }
    | none => r
  | none => r

/-- `Registry.Invalidate`: ends the session and drops the record. -/
def Registry.invalidate (r : Registry) (executionID : GoString) : Registry :=
  { r with
    records := r.records.erase executionID,
    closed := r.closed ++
      match (r.records.lookup executionID).bind Record.session with
      | some session => [session.serial]
      | none => [] }

/-- `Registry.Release`: ends this session only, never a newer one. -/
def Registry.release (r : Registry) (session : Session) : Registry :=
  match r.records.lookup session.executionID with
  | some rec =>
    if rec.session.map Session.serial = some session.serial then
      { r with
        records := r.records.insert session.executionID { rec with session := none },
        closed := r.closed ++ [session.serial] }
    else r
  | none => r

/-- `Registry.Active`. -/
def Registry.active (r : Registry) (session : Session) : Bool :=
  match r.records.lookup session.executionID with
  | some rec => rec.session.map Session.serial = some session.serial
  | none => false

end R1s.Tunnel
