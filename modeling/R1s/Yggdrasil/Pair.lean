/-
The client's end of a mesh connection (`internal/tunnel/yggdrasil`:
dial.go, `register` of mux.go, pair.go, `writeFrame` of
pair_handshake.go, `openStream` of pair_streams.go).

# Who is at the other end

An advertisement names an address and a public key. The dialer waits for
a path to the key and registers a pair for the address, and nothing
compares the two.

# Stream IDs

The counter is a `uint32` that starts at one. The IDs in use are below it
until it wraps, and after 2^32 - 1 opens it stands at zero, the ID of
frames for the whole pair.
-/
import R1s.Tunnel.Registry
import R1s.Yggdrasil.Framing

namespace R1s.Yggdrasil

-- ===== the pair

/-- `pairConn` on the client edge. `session` is nil there, so the peer
opens no streams. -/
structure Pair where
  peer : Bytes
  remote : Bytes
  maxSeg : Nat
  streams : FMap UInt32 Stream := ∅
  nextID : UInt32 := 1
  clientReady : Bool := false
  closed : Bool := false

/-- `newPair`. -/
def newPair (mtu : UInt64) (remote peerKey : Bytes) : Pair :=
  { peer := peerKey, remote := remote, maxSeg := maxSeg mtu }

/-- `writeFrame`: the address and the packet. -/
def Pair.writeFrame (p : Pair) (f : Frame) : Option (Bytes × Bytes) :=
  if p.closed then none else some (p.remote, appendFrame [] f)

/-- The pair with one more stream. -/
def Pair.opened (p : Pair) : Pair :=
  { p with nextID := p.nextID + 1, streams := p.streams.insert p.nextID { id := p.nextID } }

/-- `openStream` up to the unlock, with the stream's ID. -/
def Pair.openStream (p : Pair) : Option (UInt32 × Pair) :=
  if p.closed || !p.clientReady then none else some (p.nextID, p.opened)

/-- What happens to a pair: the allocator accepts the preamble, a stream
is opened, a stream ends or could not be announced, the pair ends. -/
inductive PairEvent
  | accepted
  | openStream
  | remove (id : UInt32)
  | terminate
deriving DecidableEq

def Pair.after (p : Pair) : PairEvent → Pair
  | .accepted => { p with clientReady := true }
  | .openStream => (p.openStream.map Prod.snd).getD p
  | .remove id => { p with streams := p.streams.erase id }
  | .terminate => { p with closed := true, streams := ∅ }

def Pair.run (p : Pair) (es : List PairEvent) : Pair := es.foldl Pair.after p

theorem after_openStream (p : Pair) :
    p.after .openStream = p ∨ p.after .openStream = p.opened := by
  show (p.openStream.map Prod.snd).getD p = p ∨ (p.openStream.map Prod.snd).getD p = p.opened
  unfold Pair.openStream
  split
  · exact .inl rfl
  · exact .inr rfl

-- ===== dialling

inductive DialError
  | incomplete | context | meshUnreachable | edgeClosed | sessionBusy

structure Mux where
  mtu : UInt64
  closed : Bool := false
  pairs : FMap Bytes Pair := ∅

/-- `register`. -/
def Mux.register (m : Mux) (remote : Bytes) : Except DialError (Mux × Pair) :=
  if m.closed then .error .edgeClosed
  else if (m.pairs.lookup remote).isSome then .error .sessionBusy
  else
    let pair := newPair m.mtu remote remote
    .ok ({ m with pairs := m.pairs.insert remote pair }, pair)

/-- `Dial` with a context that is over or not and what `awaitPath` returns
for a key. -/
def Mux.dial (m : Mux) (ended : Bool) (awaitPath : Bytes → Option DialError)
    (endpoint : Tunnel.Endpoint) : Except DialError (Mux × Pair) :=
  if endpoint.address = [] ∨ endpoint.pubKey = [] then .error .incomplete
  else if ended then .error .context
  else
    match awaitPath endpoint.pubKey with
    | some err => .error err
    | none => m.register endpoint.address

theorem run_remote (p : Pair) (es : List PairEvent) : (p.run es).remote = p.remote := by
  induction es generalizing p with
  | nil => rfl
  | cons e es ih =>
    refine (ih (p.after e)).trans ?_
    cases e with
    | openStream =>
      rcases after_openStream p with h | h
      · rw [h]
      · rw [h]
        rfl
    | accepted | remove id | terminate => rfl

/-- The peer of a dialled pair has the advertised key, and every packet
it sends from then on goes to that key, exactly when the advertisement
gives the key as the address. -/
theorem dialled_peer_is_advertised {m m' : Mux} {ended : Bool}
    {awaitPath : Bytes → Option DialError} {endpoint : Tunnel.Endpoint} {p : Pair}
    (h : m.dial ended awaitPath endpoint = .ok (m', p)) :
    (p.peer = endpoint.pubKey ∧ ∀ es f addr packet,
      (p.run es).writeFrame f = some (addr, packet) → addr = endpoint.pubKey) ↔
    endpoint.address = endpoint.pubKey := by
  have hpair : p = newPair m.mtu endpoint.address endpoint.address := by
    unfold Mux.dial at h
    split at h
    · cases h
    split at h
    · cases h
    split at h
    · cases h
    unfold Mux.register at h
    split at h
    · cases h
    split at h <;> cases h
    rfl
  subst hpair
  constructor
  · exact fun hpinned => hpinned.1
  · intro hsame
    refine ⟨hsame, ?_⟩
    intro es f addr packet hwrite
    unfold Pair.writeFrame at hwrite
    split at hwrite
    · cases hwrite
    cases hwrite
    exact (run_remote _ es).trans hsame

theorem dialled_to_the_key : ∃ m p,
    Mux.dial ⟨65535, false, ∅⟩ false (fun _ => none) ⟨[1], [1]⟩ = .ok (m, p) ∧ p.peer = [1] := by
  obtain ⟨m, p, h⟩ : ∃ m p,
    Mux.dial ⟨65535, false, ∅⟩ false (fun _ => none) ⟨[1], [1]⟩ = .ok (m, p) := ⟨_, _, rfl⟩
  exact ⟨m, p, h, ((dialled_peer_is_advertised h).mpr rfl).1⟩

/-- An advertisement of key 2 at address 1: the pair's peer is 1. -/
theorem dialled_to_another_key : ∃ m p,
    Mux.dial ⟨65535, false, ∅⟩ false (fun _ => none) ⟨[1], [2]⟩ = .ok (m, p) ∧ p.peer = [1] :=
  ⟨_, _, rfl, rfl⟩

-- ===== stream IDs

/-- The pair after `n` calls of `openStream`. -/
structure Numbered (n : Nat) (p : Pair) : Prop where
  pos : 0 < p.nextID.toNat
  next : p.nextID.toNat ≤ n + 1
  below : ∀ id s, p.streams.lookup id = some s → id.toNat < p.nextID.toNat

theorem Numbered.openStream {n : Nat} {p : Pair} (h : Numbered n p) (hn : n + 2 < 2 ^ 32) :
    Numbered (n + 1) (p.after .openStream) := by
  have hle := h.next
  rcases after_openStream p with heq | heq
  · rw [heq]
    exact ⟨h.pos, by omega, h.below⟩
  rw [heq]
  have hnext : p.opened.nextID.toNat = p.nextID.toNat + 1 := by
    show (p.nextID + 1).toNat = _
    rw [UInt32.toNat_add]
    exact Nat.mod_eq_of_lt (by simp; omega)
  refine ⟨by omega, by omega, ?_⟩
  intro id s hs
  rw [hnext]
  rcases AList.of_lookup_insert hs with ⟨rfl, -⟩ | ⟨-, hs⟩
  · exact Nat.lt_succ_self _
  · exact Nat.lt_succ_of_lt (h.below id s hs)

theorem numbered_run (mtu : UInt64) (remote : Bytes) (es : List PairEvent)
    (hfew : es.count .openStream + 1 < 2 ^ 32) :
    Numbered (es.count .openStream) ((newPair mtu remote remote).run es) := by
  induction es using List.reverseRecOn with
  | nil =>
    refine ⟨Nat.one_pos, Nat.le_refl _, ?_⟩
    intro id s hs
    cases hs
  | append_singleton es e ih =>
    unfold Pair.run at ih ⊢
    rw [List.count_append] at hfew ⊢
    rw [List.foldl_append]
    have h := ih (by omega)
    cases e with
    | openStream =>
      rw [List.count_singleton_self] at hfew ⊢
      exact h.openStream (by omega)
    | accepted => exact ⟨h.pos, Nat.le_trans h.next (by omega), h.below⟩
    | remove id =>
      exact ⟨h.pos, Nat.le_trans h.next (by omega),
        fun id s hs => h.below id s (AList.of_lookup_erase hs).2⟩
    | terminate =>
      refine ⟨h.pos, Nat.le_trans h.next (by omega), ?_⟩
      intro id s hs
      cases hs

/-- With fewer than 2^32 - 1 calls of `openStream` before it, a stream
gets an ID that is neither zero nor that of an open stream. -/
theorem opened_stream_id_is_new (mtu : UInt64) (remote : Bytes) (es : List PairEvent)
    (hfew : es.count .openStream < 2 ^ 32 - 1) {id : UInt32} {p : Pair}
    (h : ((newPair mtu remote remote).run es).openStream = some (id, p)) :
    id ≠ 0 ∧ ((newPair mtu remote remote).run es).streams.lookup id = none := by
  have hnum := numbered_run mtu remote es (by omega)
  unfold Pair.openStream at h
  split at h
  · cases h
  cases h
  constructor
  · intro hzero
    have hpos := hnum.pos
    rw [hzero] at hpos
    cases hpos
  · refine Option.eq_none_iff_forall_ne_some.mpr ?_
    intro s hs
    exact absurd (hnum.below _ s hs) (Nat.lt_irrefl _)

/-- Two streams are opened and the first is closed. -/
def openedAndClosed : List PairEvent := [.accepted, .openStream, .openStream, .remove 1]

/-- The next stream gets neither the ID that was given up nor the one in
use. -/
theorem third_stream_id_is_new :
    ∃ p q, (newPair 65535 [1] [1]).run openedAndClosed = p ∧ p.streams.keys = [2] ∧
      p.openStream = some (3, q) ∧ (3 : UInt32) ≠ 0 ∧ p.streams.lookup 3 = none :=
  ⟨_, _, rfl, rfl, rfl,
    opened_stream_id_is_new 65535 [1] openedAndClosed (by decide) rfl⟩

/-- The counter after `n` streams. -/
theorem openStream_run (n : Nat) {p : Pair} (hopen : (p.closed || !p.clientReady) = false) :
    ∃ p', (p.run (List.replicate n .openStream)).openStream = some (p.nextID + .ofNat n, p') := by
  induction n generalizing p with
  | zero => exact ⟨p.opened, by simp [Pair.run, Pair.openStream, hopen]⟩
  | succ n ih =>
    have hafter : p.after .openStream = p.opened := by
      simp [Pair.after, Pair.openStream, hopen]
    obtain ⟨p', hp'⟩ := @ih p.opened hopen
    refine ⟨p', ?_⟩
    rw [List.replicate_succ, Pair.run, List.foldl_cons, hafter]
    refine hp'.trans ?_
    show some (p.nextID + 1 + _, p') = _
    rw [UInt32.add_assoc, UInt32.add_comm 1, UInt32.ofNat_add]
    rfl

/-- The stream opened after 2^32 - 1 others gets ID zero. -/
theorem stream_id_wraps_to_zero :
    ∃ es p, ((newPair 65535 [1] [1]).run es).openStream = some (0, p) := by
  obtain ⟨p, hp⟩ := @openStream_run (2 ^ 32 - 1) ((newPair 65535 [1] [1]).run [.accepted]) rfl
  have hwrap : ((newPair 65535 [1] [1]).run [.accepted]).nextID + .ofNat (2 ^ 32 - 1) = 0 := rfl
  rw [hwrap, Pair.run, Pair.run, ← List.foldl_append] at hp
  exact ⟨_, p, hp⟩

end R1s.Yggdrasil
