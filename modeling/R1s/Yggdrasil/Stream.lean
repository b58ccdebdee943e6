/-
The frames of the overlay edge and one logical stream of a pair
(`internal/tunnel/yggdrasil`: framing.go, stream.go, and the segment size
of `newPair` in pair.go).

A frame is one packet. A stream's methods run under its own lock and hand
frames to the pair after they release it, so a method here returns the
stream and the frame it still has to write. `none` is a wait on a
condition variable.
-/
import R1s.Protocol.Wire

namespace R1s.Yggdrasil

-- ===== frames

inductive FrameType
  | data | eof | close | preamble | accept | streamOpen | windowUpdate
deriving DecidableEq

structure Frame where
  typ : FrameType
  streamID : UInt32
  payload : Bytes
deriving DecidableEq

/-- `maxPacketPayload`. -/
def maxPacketPayload : Nat := 16 * 1024

/-- `frameHeaderSize`. -/
def frameHeaderSize : Nat := 7

/-- The low `k` bytes of `n`, big-endian. -/
def bigEndian : Nat → Nat → Bytes
  | 0, _ => []
  | k + 1, n => bigEndian k (n / 256) ++ [UInt8.ofNat n]

/-- The number big-endian bytes stand for. -/
def ofBigEndian (b : Bytes) : Nat := b.foldl (fun n c => n * 256 + c.toNat) 0

theorem ofBigEndian_append (b : Bytes) (c : UInt8) :
    ofBigEndian (b ++ [c]) = ofBigEndian b * 256 + c.toNat := by
  simp [ofBigEndian]

theorem length_bigEndian (k n : Nat) : (bigEndian k n).length = k := by
  induction k generalizing n with
  | zero => rfl
  | succ k ih => simp [bigEndian, ih]

theorem ofBigEndian_bigEndian (k n : Nat) : ofBigEndian (bigEndian k n) = n % 256 ^ k := by
  induction k generalizing n with
  | zero => simp [bigEndian, ofBigEndian, Nat.mod_one]
  | succ k ih =>
    have hpow : 256 ^ (k + 1) = 256 * 256 ^ k := Nat.pow_succ'
    rw [bigEndian, ofBigEndian_append, ih, UInt8.toNat_ofNat', hpow, Nat.mod_mul]
    omega

/-- The teardown outcomes of `tunnel.Reason`. -/
inductive Reason
  | closed | executionEnded | grantRejected | grantExpired | grantRevoked | unauthorized
  | sessionFailed | meshUnreachable
deriving DecidableEq

/-- `reasonCodes`. -/
def Reason.code : Reason → UInt8
  | .closed => 1
  | .executionEnded => 2
  | .grantRejected => 3
  | .grantExpired => 4
  | .grantRevoked => 5
  | .unauthorized => 6
  | .sessionFailed => 7
  | .meshUnreachable => 8

/-- `reasonFromCode`. -/
def reasonFromCode (code : UInt8) : Reason :=
  ([.closed, .executionEnded, .grantRejected, .grantExpired, .grantRevoked, .unauthorized,
    .meshUnreachable].find? fun r : Reason => r.code == code).getD .sessionFailed

/-- `tunnel.SessionError`. -/
structure SessionError where
  reason : Reason
  detail : GoString
deriving DecidableEq

/-- `closePayload`, with the detail cut at `closeDetailMax`. -/
def closePayload (e : SessionError) : Bytes := e.reason.code :: e.detail.take 512

/-- `parseClosePayload`. -/
def parseClosePayload : Bytes → SessionError
  | [] => ⟨.sessionFailed, text "close frame without reason"⟩
  | code :: detail => ⟨reasonFromCode code, detail⟩

-- ===== a stream

/-- `streamWindowSize`. -/
def streamWindowSize : Nat := 64 * 1024

/-- `windowUpdateThreshold`. -/
def windowUpdateThreshold : Nat := 16 * 1024

/-- `streamConn`. -/
structure Stream where
  id : UInt32
  inbox : Bytes := []
  eof : Bool := false
  peerErr : Option SessionError := none
  closed : Bool := false
  readDone : Bool := false
  writeEOF : Bool := false
  recvAvail : Int := streamWindowSize
  grantPending : Nat := 0
  peerWindow : Int := streamWindowSize
deriving DecidableEq

/-- Why `sendData` fails: the write side is closed, or the peer has torn
the stream down. -/
inductive WriteError
  | closed
  | peer (err : SessionError)
deriving DecidableEq

/-- `sendData`. -/
def Stream.sendData (s : Stream) (payload : Bytes) : Option (Stream × Except WriteError Frame) :=
  if s.peerWindow < payload.length ∧ !s.closed ∧ !s.writeEOF ∧ s.peerErr = none then none
  else if s.closed || s.writeEOF then some (s, .error .closed)
  else
    match s.peerErr with
    | some err => some (s, .error (.peer err))
    | none =>
      some ({ s with peerWindow := s.peerWindow - payload.length },
        .ok ⟨.data, s.id, payload⟩)

/-- What `Read` returns. -/
inductive ReadResult
  | data (bytes : Bytes)
  | aborted
  | failed (err : SessionError)
  | eof
deriving DecidableEq

/-- `Read` into a buffer of `n` bytes, with the window update it writes
after the lock is released. After the peer's teardown it ends the
stream. -/
def Stream.read (s : Stream) (n : Nat) : Option (Stream × ReadResult × Option Frame) :=
  if s.readDone then some (s, .aborted, none)
  else if s.inbox ≠ [] then
    let got := s.inbox.take n
    let pending := s.grantPending + got.length
    let taken := { s with inbox := s.inbox.drop n, recvAvail := s.recvAvail + got.length }
    if windowUpdateThreshold ≤ pending then
      some ({ taken with grantPending := 0 }, .data got,
        some ⟨.windowUpdate, s.id, bigEndian 4 pending⟩)
    else some ({ taken with grantPending := pending }, .data got, none)
  else
    match s.peerErr with
    | some err => some ({ s with closed := true }, .failed err, none)
    | none =>
      if s.eof then some (s, .eof, none)
      else if s.closed then some (s, .aborted, none)
      else none

/-- `CloseRead`. -/
def Stream.closeRead (s : Stream) : Stream := { s with readDone := true, inbox := [] }

/-- `CloseWrite`. -/
def Stream.closeWrite (s : Stream) : Stream × Option Frame :=
  if s.closed || s.writeEOF then (s, none)
  else ({ s with writeEOF := true }, some ⟨.eof, s.id, []⟩)

/-- `end`: the stream is closed once, and the peer is told why. -/
def Stream.finish (s : Stream) (err : Option SessionError) : Stream × Option Frame :=
  if s.closed then (s, none)
  else ({ s with closed := true }, err.map fun e => ⟨.close, s.id, closePayload e⟩)

/-- The bytes a window update grants. -/
def Frame.granted (f : Frame) : Nat :=
  if f.typ = .windowUpdate ∧ 4 ≤ f.payload.length then ofBigEndian (f.payload.take 4) else 0

/-- `ingest`: `none` when the peer has sent beyond the window, which ends
the stream. -/
def Stream.ingest (s : Stream) (f : Frame) : Option Stream :=
  match f.typ with
  | .data =>
    if s.recvAvail < f.payload.length then none
    else
      some { s with
        recvAvail := s.recvAvail - f.payload.length, inbox := s.inbox ++ f.payload }
  | .eof => some { s with eof := true }
  | .close =>
    some (if s.peerErr = none ∧ f.payload ≠ [] then
      { s with peerErr := some (parseClosePayload f.payload) } else s)
  | .windowUpdate => some { s with peerWindow := s.peerWindow + f.granted }
  | _ => some s

/-- The segment size `newPair` derives from the packet interface's MTU,
which Go converts from `uint64` to `int`. -/
def maxSeg (mtu : UInt64) : Nat :=
  let seg := (Int64.ofNat mtu.toNat).toInt - frameHeaderSize
  if seg ≤ 0 ∨ maxPacketPayload < seg then maxPacketPayload else seg.toNat

theorem maxSeg_le (mtu : UInt64) : maxSeg mtu ≤ maxPacketPayload := by
  unfold maxSeg
  dsimp only
  split
  · exact Nat.le_refl _
  · omega

end R1s.Yggdrasil
