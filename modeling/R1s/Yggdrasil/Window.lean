/-
The flow control of one stream: two ends, the frames each has still to
write, and the packets on the way, which arrive in order.

# What is conserved

Every byte of a direction's window is in one place: the writer may still
send it, it is on the way as data, it lies in the reader's inbox, it has
been read and not granted yet, or it is on the way as a grant (`Flow`). A
section of one end moves bytes within that end (`Steady`), and a delivery
moves them between the two.
-/
import R1s.Lib.Transition
import R1s.Yggdrasil.Stream

namespace R1s.Yggdrasil

open Option (getD_some map_eq_some_iff map_some some_ne_none)
open Function (update update_of_ne update_self)

-- ===== the link

/-- One end: its stream, the frames its methods have still to write, in
no order, and those written and not delivered yet. -/
structure End where
  stream : Stream
  outgoing : List Frame := []
  wire : List Frame := []
deriving DecidableEq

inductive Label
  /-- `sendData` with one segment of a `Write`. -/
  | write (d : Bool) (payload : Bytes)
  | read (d : Bool) (n : Nat)
  | closeWrite (d : Bool)
  | closeRead (d : Bool)
  | close (d : Bool) (err : SessionError)
  /-- `writeFrame`, by the method that has the frame. -/
  | flush (d : Bool) (f : Frame)
  /-- The oldest packet `d` wrote arrives. -/
  | deliver (d : Bool)
deriving DecidableEq

def End.emit (e : End) (s : Stream) (f : Option Frame) : End :=
  { e with stream := s, outgoing := e.outgoing ++ f.toList }

def End.setStream (e : End) (s : Stream) : End := { e with stream := s }

def End.setWire (e : End) (wire : List Frame) : End := { e with wire := wire }

/-- A frame arrives: a closed stream is no longer registered, and one
that was sent beyond its window is ended. -/
def End.receive (e : End) (f : Frame) : End :=
  if e.stream.closed then e
  else
    match e.stream.ingest f with
    | some s => e.setStream s
    | none =>
      let r := e.stream.finish
        (some ⟨.sessionFailed, text "per-stream flow-control violation"⟩)
      e.emit r.1 r.2

/-- The section of one end. -/
def End.run (mtu : UInt64) (e : End) : Label → Option End
  | .write _ payload =>
    if maxSeg mtu < payload.length then none
    else (e.stream.sendData payload).map fun r => e.emit r.1 r.2.toOption
  | .read _ n => (e.stream.read n).map fun r => e.emit r.1 r.2.2
  | .closeWrite _ => some (e.emit e.stream.closeWrite.1 e.stream.closeWrite.2)
  | .closeRead _ => some (e.emit e.stream.closeRead none)
  | .close _ err =>
    some (e.emit (e.stream.finish (some err)).1 (e.stream.finish (some err)).2)
  | .flush _ f =>
    if f ∈ e.outgoing then
      some { e with outgoing := e.outgoing.erase f, wire := e.wire ++ [f] }
    else none
  | .deliver _ => none

def Label.side : Label → Bool
  | .write d _ | .read d _ | .closeWrite d | .closeRead d | .close d _ | .flush d _
  | .deliver d => d

/-- The stream between two ends whose pairs have the MTU `mtu`. -/
def link (mtu : UInt64) (id : UInt32) : TransitionSystem (Bool → End) Label where
  init s := s = fun _ => { stream := { id := id } }
  step s l :=
    match l with
    | .deliver d =>
      match (s d).wire with
      | [] => none
      | f :: rest =>
        some (update (update s d ((s d).setWire rest)) (!d)
          ((s !d).receive f))
    | l => ((s l.side).run mtu l).map (update s l.side)

/-- The step takes an end's read side down, or the whole end. -/
def Label.aborts : Label → Bool
  | .closeRead _ | .close .. => true
  | _ => false

-- ===== conservation

/-- The data bytes of a frame. -/
def Frame.carried (f : Frame) : Nat := if f.typ = .data then f.payload.length else 0

/-- The data bytes an end has on the way. -/
def End.inFlight (e : End) : Nat :=
  (e.outgoing.map Frame.carried).sum + (e.wire.map Frame.carried).sum

/-- The grants an end has on the way. -/
def End.granting (e : End) : Nat :=
  (e.outgoing.map Frame.granted).sum + (e.wire.map Frame.granted).sum

/-- The window of the direction from `x` to `y`. -/
def Flow (x y : End) : Prop :=
  x.stream.peerWindow + x.inFlight + y.stream.inbox.length + y.stream.grantPending + y.granting
    = streamWindowSize

/-- What an end may still accept and what lies in its inbox make up the
window. -/
def End.Whole (e : End) : Prop :=
  e.stream.recvAvail + e.stream.inbox.length = streamWindowSize

/-- What one end keeps by itself as long as neither end aborts. -/
structure Kept (e : End) : Prop where
  window : 0 ≤ e.stream.peerWindow
  room : e.Whole
  avail : 0 ≤ e.stream.recvAvail
  pending : e.stream.grantPending < windowUpdateThreshold
  closed : e.stream.closed = false
  readDone : e.stream.readDone = false
  peerErr : e.stream.peerErr = none
  frames : ∀ f, f ∈ e.outgoing ∨ f ∈ e.wire → f.typ ≠ .close

/-- A section of one end moves bytes within the end. -/
structure Steady (e e' : End) : Prop where
  sent : e'.stream.peerWindow + e'.inFlight = e.stream.peerWindow + e.inFlight
  held : e'.stream.inbox.length + e'.stream.grantPending + e'.granting
    = e.stream.inbox.length + e.stream.grantPending + e.granting
  kept : Kept e'

variable {e e' x y : End} {f : Frame} {l : Label} {mtu : UInt64} {id : UInt32}

theorem Flow.left (h : Flow x y) (hx : Steady x e') : Flow e' y := by
  have hsent := hx.sent
  unfold Flow at h ⊢
  omega

theorem Flow.right (h : Flow x y) (hy : Steady y e') : Flow x e' := by
  have hheld := hy.held
  unfold Flow at h ⊢
  omega

theorem inFlight_emit (e : End) (s : Stream) (f : Option Frame) :
    (e.emit s f).inFlight = e.inFlight + (f.map Frame.carried).getD 0 := by
  cases f with
  | none => simp [End.inFlight, End.emit]
  | some f =>
    simp only [End.inFlight, End.emit, Option.toList_some, List.map_append, List.sum_append,
      List.map_cons, List.map_nil, List.sum_cons, List.sum_nil, map_some, getD_some]
    omega

theorem granting_emit (e : End) (s : Stream) (f : Option Frame) :
    (e.emit s f).granting = e.granting + (f.map Frame.granted).getD 0 := by
  cases f with
  | none => simp [End.granting, End.emit]
  | some f =>
    simp only [End.granting, End.emit, Option.toList_some, List.map_append, List.sum_append,
      List.map_cons, List.map_nil, List.sum_cons, List.sum_nil, map_some, getD_some]
    omega

theorem granted_windowUpdate {n : Nat} (h : n < 2 ^ 32) :
    (⟨.windowUpdate, id, bigEndian 4 n⟩ : Frame).granted = n := by
  unfold Frame.granted
  rw [if_pos ⟨rfl, Nat.le_of_eq (length_bigEndian 4 n).symm⟩]
  rw [List.take_of_length_le (Nat.le_of_eq (length_bigEndian 4 n)), ofBigEndian_bigEndian]
  exact Nat.mod_eq_of_lt h

/-- The frames an end has after it emits one. -/
theorem Kept.frames_emit (h : Kept e) {s : Stream} {o : Option Frame}
    (ho : ∀ f, o = some f → f.typ ≠ .close) :
    ∀ f, f ∈ (e.emit s o).outgoing ∨ f ∈ (e.emit s o).wire → f.typ ≠ .close := by
  rintro f (hf | hf)
  · rcases List.mem_append.mp hf with hold | hnew
    · exact h.frames f (.inl hold)
    · exact ho f (Option.mem_toList.mp hnew)
  · exact h.frames f (.inr hf)

theorem Kept.emit_none (h : Kept e) : Steady e (e.emit e.stream none) := by
  have hsame : e.emit e.stream none = e := by simp [End.emit]
  rw [hsame]
  exact ⟨rfl, rfl, h⟩

theorem Kept.write (h : Kept e) {payload : Bytes} {r : Stream × Except WriteError Frame}
    (hr : e.stream.sendData payload = some r) : Steady e (e.emit r.1 r.2.toOption) := by
  unfold Stream.sendData at hr
  split at hr
  · cases hr
  rename_i hwait
  rw [h.closed, h.peerErr] at hr
  split at hr
  · cases hr
    exact h.emit_none
  rename_i heof
  cases hr
  have hroom : payload.length ≤ e.stream.peerWindow := by
    by_contra hlt
    refine hwait ⟨by omega, ?_, ?_, h.peerErr⟩
    · rw [h.closed]
      rfl
    · simpa using heof
  refine ⟨?_, ?_, ⟨?_, h.room, h.avail, h.pending, rfl, h.readDone, rfl, ?_⟩⟩
  · rw [inFlight_emit]
    simp only [End.emit, Except.toOption, map_some, getD_some, Frame.carried,
      if_true]
    omega
  · rw [granting_emit]
    simp [End.emit, Except.toOption, Frame.granted]
  · simp only [End.emit]
    omega
  · refine h.frames_emit fun f hf => ?_
    cases hf
    exact nofun

theorem End.Whole.read (h : e.Whole) {n : Nat} {r : Stream × ReadResult × Option Frame}
    (hr : e.stream.read n = some r) : (e.emit r.1 r.2.2).Whole := by
  have htaken : (e.stream.recvAvail + (e.stream.inbox.take n).length : Int)
      + (e.stream.inbox.drop n).length = streamWindowSize := by
    have hlength := congrArg List.length (List.take_append_drop n e.stream.inbox)
    rw [List.length_append] at hlength
    unfold End.Whole at h
    omega
  unfold Stream.read at hr
  split at hr
  · cases hr
    exact h
  split at hr
  · dsimp only at hr
    split at hr
    all_goals
      cases hr
      exact htaken
  split at hr
  · cases hr
    exact h
  split at hr
  · cases hr
    exact h
  split at hr
  · cases hr
    exact h
  · cases hr

theorem Kept.read (h : Kept e) {n : Nat} {r : Stream × ReadResult × Option Frame}
    (hr : e.stream.read n = some r) : Steady e (e.emit r.1 r.2.2) := by
  have hroom := h.room
  have hwhole := h.room.read hr
  have havail := h.avail
  have hpending := h.pending
  have hlength : (e.stream.inbox.take n).length + (e.stream.inbox.drop n).length
      = e.stream.inbox.length := by
    rw [← List.length_append, List.take_append_drop]
  unfold Stream.read at hr
  rw [h.readDone, h.peerErr, h.closed] at hr
  simp only [Bool.false_eq_true, if_false] at hr
  split at hr
  · unfold End.Whole streamWindowSize at hroom
    unfold windowUpdateThreshold at *
    split at hr
    next hdue =>
      cases hr
      refine ⟨?_, ?_, ⟨h.window, hwhole, ?_, ?_, rfl, rfl, rfl, ?_⟩⟩
      · rw [inFlight_emit]
        simp [End.emit, Frame.carried]
      · rw [granting_emit, map_some, getD_some, granted_windowUpdate (by omega)]
        simp only [End.emit]
        omega
      · simp only [End.emit]
        omega
      · simp only [End.emit, windowUpdateThreshold]
        omega
      · refine h.frames_emit fun f hf => ?_
        cases hf
        exact nofun
    cases hr
    refine ⟨?_, ?_, ⟨h.window, hwhole, ?_, ?_, rfl, rfl, rfl, h.frames_emit nofun⟩⟩
    · rw [inFlight_emit]
      simp [End.emit]
    · rw [granting_emit]
      simp only [End.emit, Option.map_none, Option.getD_none]
      omega
    · simp only [End.emit]
      omega
    · simp only [End.emit, windowUpdateThreshold]
      omega
  split at hr
  · cases hr
    exact h.emit_none
  · cases hr

/-- `CloseWrite` moves no byte. -/
theorem Kept.closeWrite (h : Kept e) :
    Steady e (e.emit e.stream.closeWrite.1 e.stream.closeWrite.2) := by
  unfold Stream.closeWrite
  split
  · exact h.emit_none
  refine ⟨?_, ?_, ⟨h.window, h.room, h.avail, h.pending, h.closed, h.readDone, h.peerErr, ?_⟩⟩
  · rw [inFlight_emit]
    simp [End.emit, Frame.carried]
  · rw [granting_emit]
    simp [End.emit, Frame.granted]
  · refine h.frames_emit fun f hf => ?_
    cases hf
    exact nofun

theorem Kept.flush (h : Kept e) (hf : f ∈ e.outgoing) :
    Steady e { e with outgoing := e.outgoing.erase f, wire := e.wire ++ [f] } := by
  have hcarried := List.sum_map_erase Frame.carried hf
  have hgranted := List.sum_map_erase Frame.granted hf
  refine ⟨?_, ?_, ⟨h.window, h.room, h.avail, h.pending, h.closed, h.readDone, h.peerErr, ?_⟩⟩
  · simp only [End.inFlight, List.map_append, List.sum_append, List.map_cons, List.map_nil,
      List.sum_cons, List.sum_nil]
    omega
  · simp only [End.granting, List.map_append, List.sum_append, List.map_cons, List.map_nil,
      List.sum_cons, List.sum_nil]
    omega
  · rintro g (hg | hg)
    · exact h.frames g (.inl (List.mem_of_mem_erase hg))
    · rcases List.mem_append.mp hg with hold | hnew
      · exact h.frames g (.inr hold)
      · rw [List.mem_singleton.mp hnew]
        exact h.frames f (.inl hf)

/-- Every section of one end but an abort. -/
theorem Kept.run (h : Kept e) (hl : l.aborts = false) (hrun : e.run mtu l = some e') :
    Steady e e' := by
  cases l with
  | write d payload =>
    simp only [End.run] at hrun
    split at hrun
    · cases hrun
    · obtain ⟨r, hr, rfl⟩ := map_eq_some_iff.mp hrun
      exact h.write hr
  | read d n =>
    obtain ⟨r, hr, rfl⟩ := map_eq_some_iff.mp hrun
    exact h.read hr
  | closeWrite d =>
    cases hrun
    exact h.closeWrite
  | flush d f =>
    simp only [End.run] at hrun
    split at hrun
    next hf =>
      cases hrun
      exact h.flush hf
    · cases hrun
  | deliver d => cases hrun
  | closeRead | close => cases hl

/-- A frame within the window is taken in. -/
theorem Kept.receive (h : Kept y) (hroom : f.carried ≤ y.stream.recvAvail)
    (hclose : f.typ ≠ .close) :
    ∃ s, y.stream.ingest f = some s ∧ Kept (y.setStream s) ∧
      s.peerWindow = y.stream.peerWindow + f.granted ∧
      s.inbox.length = y.stream.inbox.length + f.carried ∧
      s.grantPending = y.stream.grantPending := by
  have hwindow := h.window
  have hfull := h.room
  obtain ⟨typ, id, payload⟩ := f
  cases typ with
  | data =>
    change (payload.length : Int) ≤ y.stream.recvAvail at hroom
    have hin : y.stream.ingest ⟨.data, id, payload⟩ = some { y.stream with
        recvAvail := y.stream.recvAvail - payload.length,
        inbox := y.stream.inbox ++ payload } := by
      simp only [Stream.ingest]
      rw [if_neg (Int.not_lt.mpr hroom)]
    refine ⟨_, hin, ⟨h.window, ?_, ?_, h.pending, h.closed, h.readDone, h.peerErr, h.frames⟩,
      ?_, List.length_append, rfl⟩
    · unfold End.Whole at hfull ⊢
      simp only [End.setStream, List.length_append]
      push_cast
      omega
    · show 0 ≤ y.stream.recvAvail - payload.length
      omega
    · simp [Frame.granted]
  | windowUpdate =>
    refine ⟨_, rfl, ⟨?_, h.room, h.avail, h.pending, h.closed, h.readDone, h.peerErr, h.frames⟩,
      rfl, rfl, rfl⟩
    show 0 ≤ y.stream.peerWindow + _
    omega
  | eof =>
    refine ⟨_, rfl, ⟨h.window, h.room, h.avail, h.pending, h.closed, h.readDone, h.peerErr,
      h.frames⟩, ?_, rfl, rfl⟩
    simp [Frame.granted]
  | close => exact absurd rfl hclose
  | preamble | accept | streamOpen =>
    refine ⟨_, rfl, h, ?_, rfl, rfl⟩
    simp [Frame.granted]

-- ===== all runs

/-- Both ends and both directions. -/
structure Conserved (s : Bool → End) : Prop where
  kept : ∀ d, Kept (s d)
  flow : ∀ d, Flow (s d) (s !d)

variable {d : Bool} {s : Bool → End}

/-- The frame that arrives next fits the reader's window. -/
theorem Conserved.fits (h : Conserved s) {rest : List Frame} (hwire : (s d).wire = f :: rest) :
    f.carried ≤ (s !d).stream.recvAvail := by
  have hflow := h.flow d
  have hwindow := (h.kept d).window
  have hroom := (h.kept !d).room
  have hin : f.carried ≤ (s d).inFlight := by
    unfold End.inFlight
    rw [hwire, List.map_cons, List.sum_cons]
    omega
  unfold Flow at hflow
  unfold End.Whole at hroom
  omega

theorem Conserved.deliver (h : Conserved s) {rest : List Frame} (hwire : (s d).wire = f :: rest) :
    Conserved (update (update s d ((s d).setWire rest)) (!d)
      ((s !d).receive f)) := by
  have hclose : f.typ ≠ .close :=
    (h.kept d).frames f (.inr (by rw [hwire]; exact List.mem_cons_self))
  obtain ⟨y, hy, hkept, hwindow, hinbox, hpending⟩ := (h.kept !d).receive (h.fits hwire) hclose
  have hreceive : (s !d).receive f = (s !d).setStream y := by
    unfold End.receive
    rw [(h.kept !d).closed, hy]
    rfl
  have hcarried : (s d).inFlight = f.carried + ((s d).setWire rest).inFlight := by
    simp only [End.inFlight, End.setWire, hwire, List.map_cons, List.sum_cons]
    omega
  have hgranted : (s d).granting = f.granted + ((s d).setWire rest).granting := by
    simp only [End.granting, End.setWire, hwire, List.map_cons, List.sum_cons]
    omega
  have hsender : Kept ((s d).setWire rest) := by
    have hold := h.kept d
    refine ⟨hold.window, hold.room, hold.avail, hold.pending, hold.closed, hold.readDone,
      hold.peerErr, ?_⟩
    rintro g (hg | hg)
    · exact hold.frames g (.inl hg)
    · exact hold.frames g (.inr (by rw [hwire]; exact List.mem_cons_of_mem f hg))
  have hforth := h.flow d
  have hback := h.flow !d
  rw [Bool.not_not] at hback
  rw [hreceive]
  unfold Flow at hforth hback
  -- The sender's direction gives up data, the other one a grant.
  have hnew : ∀ b, update (update s d ((s d).setWire rest)) (!d)
      ((s !d).setStream y) b
        = if b = d then (s d).setWire rest else (s !d).setStream y := by
    intro b
    by_cases hb : b = d
    · subst hb
      rw [update_of_ne (by simp), update_self, if_pos rfl]
    · obtain rfl := Bool.eq_not.mpr hb
      rw [update_self, if_neg hb]
  refine ⟨fun b => ?_, fun b => ?_⟩
  · rw [hnew]
    split
    · exact hsender
    · exact hkept
  · rw [hnew, hnew]
    unfold Flow
    have hread : ((s !d).setStream y).granting = (s !d).granting := rfl
    have hwrite : ((s !d).setStream y).inFlight = (s !d).inFlight := rfl
    by_cases hb : b = d
    · rw [if_pos hb, if_neg (by simp [hb]), hread]
      show (s d).stream.peerWindow + _ + y.inbox.length + y.grantPending + _ = _
      omega
    · obtain rfl := Bool.eq_not.mpr hb
      rw [if_neg hb, if_pos (Bool.not_not d), hwrite]
      show y.peerWindow + _ + (s d).stream.inbox.length + (s d).stream.grantPending + _ = _
      omega

theorem Conserved.section (h : Conserved s) (hd : Steady (s d) e) :
    Conserved (update s d e) := by
  refine ⟨fun b => ?_, fun b => ?_⟩
  · by_cases hb : b = d
    · subst hb
      rw [update_self]
      exact hd.kept
    · rw [update_of_ne hb]
      exact h.kept b
  · by_cases hb : b = d
    · subst hb
      rw [update_self, update_of_ne (by simp)]
      exact (h.flow b).left hd
    · obtain rfl := Bool.eq_not.mpr hb
      rw [update_of_ne hb, Bool.not_not, update_self]
      have hback := h.flow !d
      rw [Bool.not_not] at hback
      exact hback.right hd

theorem conserved_reachable (hs : (link mtu id).ReachWhen (fun _ l => l.aborts = false) s) :
    Conserved s := by
  refine hs.invariant ?_ ?_
  · rintro s rfl
    have hpos : (0 : Int) ≤ streamWindowSize := by decide
    have hdue : 0 < windowUpdateThreshold := by decide
    refine ⟨fun d => ⟨hpos, rfl, hpos, hdue, rfl, rfl, rfl, ?_⟩, fun d => rfl⟩
    rintro f (hf | hf) <;> cases hf
  · intro s l t h hl hstep
    have other (hrun : ((s l.side).run mtu l).map (update s l.side) = some t) :
        Conserved t := by
      obtain ⟨e, he, rfl⟩ := map_eq_some_iff.mp hrun
      exact h.section ((h.kept l.side).run hl he)
    cases l with
    | deliver d =>
      simp only [link] at hstep
      split at hstep
      · cases hstep
      next f rest hwire =>
        cases hstep
        exact h.deliver hwire
    | _ => exact other hstep

/-- One stream between two ends over a network that delivers in order and
loses nothing, as long as neither end aborts. In each direction the
window is conserved, the inbox keeps to it and no frame that arrives
violates it. When everything on the way has arrived and the inbox is
read, the writer may send a whole segment. -/
theorem stream_window_is_conserved (mtu : UInt64) (id : UInt32) {s : Bool → End}
    (hs : (link mtu id).ReachWhen (fun _ l => l.aborts = false) s) (d : Bool) :
    (s d).stream.peerWindow + (s d).inFlight + (s !d).stream.inbox.length
        + (s !d).stream.grantPending + (s !d).granting = 65536 ∧
    (s d).stream.inbox.length ≤ 65536 ∧
    (∀ f rest, (s d).wire = f :: rest → (s !d).stream.ingest f ≠ none) ∧
    ((∀ b, (s b).outgoing = [] ∧ (s b).wire = []) → (s !d).stream.inbox = [] →
      maxSeg mtu ≤ (s d).stream.peerWindow ∧
      ∀ payload, payload.length ≤ maxSeg mtu → (s d).stream.sendData payload ≠ none) := by
  have h := conserved_reachable hs
  refine ⟨h.flow d, ?_, ?_, ?_⟩
  · have hroom := (h.kept d).room
    have havail := (h.kept d).avail
    unfold End.Whole streamWindowSize at hroom
    omega
  · intro f rest hwire
    have hclose : f.typ ≠ .close :=
      (h.kept d).frames f (.inr (by rw [hwire]; exact List.mem_cons_self))
    obtain ⟨y, hy, -⟩ := (h.kept !d).receive (h.fits hwire) hclose
    rw [hy]
    exact some_ne_none y
  · intro hquiet hempty
    have hflow := h.flow d
    have hpending := (h.kept !d).pending
    have hseg := maxSeg_le mtu
    unfold Flow End.inFlight End.granting at hflow
    rw [(hquiet d).1, (hquiet d).2, (hquiet !d).1, (hquiet !d).2, hempty] at hflow
    simp only [List.map_nil, List.sum_nil, List.length_nil] at hflow
    unfold streamWindowSize at hflow
    unfold windowUpdateThreshold at hpending
    unfold maxPacketPayload at hseg
    refine ⟨by omega, fun payload hpayload => ?_⟩
    unfold Stream.sendData
    rw [if_neg (fun hwait => by omega)]
    split
    · exact some_ne_none _
    · split
      · exact some_ne_none _
      · exact some_ne_none _

/-- A segment is written, sent and read. -/
theorem read_segment_waits_for_its_grant :
    ∃ s, (link 1400 1).ReachWhen (fun _ l => l.aborts = false) s ∧
      (s false).stream.peerWindow = 65533 ∧ (s true).stream.grantPending = 3 ∧
      (s false).stream.inbox.length ≤ 65536 := by
  obtain ⟨s, hs, hwindow, hpending⟩ := (link 1400 1).exists_reachWhen
    (fun _ l => l.aborts = false) rfl
    [.write false [1, 2, 3], .flush false ⟨.data, 1, [1, 2, 3]⟩, .deliver false, .read true 10]
    (fun s => (s false).stream.peerWindow = 65533 ∧ (s true).stream.grantPending = 3)
    (by decide +kernel)
  exact ⟨s, hs, hwindow, hpending, (stream_window_is_conserved 1400 1 hs false).2.1⟩

-- ===== after CloseRead

/-- A frame arrives at an end, or `Read` is called there. -/
inductive Arrival
  | frame (f : Frame)
  | read (n : Nat)
deriving DecidableEq

def End.arrive (e : End) : Arrival → End
  | .frame f => e.receive f
  | .read n => ((e.stream.read n).map fun r => e.emit r.1 r.2.2).getD e

theorem receive_without_data (hf : f.carried = 0) :
    (e.receive f).stream.readDone = e.stream.readDone ∧
      (e.receive f).stream.inbox = e.stream.inbox ∧
      (e.receive f).stream.recvAvail = e.stream.recvAvail := by
  unfold End.receive
  cases hclosed : e.stream.closed
  · cases htyp : f.typ
    case data =>
      have hnil : f.payload = [] := by simpa [Frame.carried, htyp] using hf
      by_cases hroom : e.stream.recvAvail < 0
      all_goals simp [Stream.ingest, htyp, hnil, hroom, Stream.finish, hclosed, End.emit,
        End.setStream]
    case close =>
      by_cases hfirst : e.stream.peerErr = none ∧ f.payload ≠ []
      all_goals simp [Stream.ingest, htyp, hfirst, End.setStream]
    all_goals simp [Stream.ingest, htyp, End.setStream]
  · exact ⟨rfl, rfl, rfl⟩

theorem End.Whole.congr (h : e.Whole) (havail : e'.stream.recvAvail = e.stream.recvAvail)
    (hinbox : e'.stream.inbox = e.stream.inbox) : e'.Whole := by
  unfold End.Whole
  rw [havail, hinbox]
  exact h

theorem End.Whole.receive (h : e.Whole) (f : Frame) : (e.receive f).Whole := by
  by_cases hf : f.carried = 0
  · obtain ⟨-, hinbox, havail⟩ := receive_without_data (e := e) hf
    exact h.congr havail hinbox
  have htyp : f.typ = .data := by
    by_contra hother
    exact hf (if_neg hother)
  unfold End.receive
  split
  · exact h
  next hopen =>
    simp only [Stream.ingest, htyp]
    by_cases hroom : e.stream.recvAvail < f.payload.length
    · rw [if_pos hroom]
      simp only [Stream.finish, hopen]
      exact h.congr rfl rfl
    · rw [if_neg hroom]
      unfold End.Whole at h ⊢
      simp only [End.setStream, List.length_append]
      push_cast
      omega

/-- Every section of one end but `CloseRead`. -/
theorem End.Whole.run (h : e.Whole) (hl : l ≠ .closeRead l.side) (hrun : e.run mtu l = some e') :
    e'.Whole := by
  cases l with
  | write d payload =>
    simp only [End.run] at hrun
    split at hrun
    · cases hrun
    obtain ⟨r, hr, rfl⟩ := map_eq_some_iff.mp hrun
    unfold Stream.sendData at hr
    split at hr
    · cases hr
    split at hr
    · cases hr
      exact h
    split at hr
    all_goals
      cases hr
      exact h
  | read d n =>
    obtain ⟨r, hr, rfl⟩ := map_eq_some_iff.mp hrun
    exact h.read hr
  | closeRead d => exact absurd rfl hl
  | closeWrite d =>
    cases hrun
    unfold Stream.closeWrite
    split <;> exact h
  | close d err =>
    cases hrun
    unfold Stream.finish
    split <;> exact h
  | flush d f =>
    simp only [End.run] at hrun
    split at hrun
    · cases hrun
      exact h
    · cases hrun
  | deliver d => cases hrun

/-- Whatever the ends do, an end has its whole window until its own
`CloseRead`. -/
theorem whole_reachable (hs : (link mtu id).ReachWhen (fun _ l => l ≠ .closeRead d) s) :
    (s d).Whole := by
  refine hs.invariant (I := fun s => (s d).Whole) ?_ ?_
  · rintro s rfl
    rfl
  · intro s l t h hl hstep
    have other (hrun : ((s l.side).run mtu l).map (update s l.side) = some t) : (t d).Whole := by
      obtain ⟨e, he, rfl⟩ := map_eq_some_iff.mp hrun
      by_cases hside : d = l.side
      · subst hside
        rw [update_self]
        exact h.run hl he
      · rw [update_of_ne hside]
        exact h
    cases l with
    | deliver b =>
      simp only [link] at hstep
      split at hstep
      · cases hstep
      next f rest hwire =>
        cases hstep
        by_cases hback : d = !b
        · subst hback
          rw [update_self]
          exact h.receive f
        · obtain rfl := Bool.ne_not.mp hback
          rw [update_of_ne hback, update_self]
          exact h.congr rfl rfl
    | _ => exact other hstep

/-- When nothing lies unread in the inbox at `CloseRead` and no data
arrives after it, the inbox stays empty and the window whole. -/
theorem aborted_read_keeps_the_window (mtu : UInt64) (id : UInt32) {s : Bool → End} {d : Bool}
    (hs : (link mtu id).ReachWhen (fun _ l => l ≠ .closeRead d) s)
    (hempty : (s d).stream.inbox = []) (as : List Arrival)
    (has : ∀ f, .frame f ∈ as → f.carried = 0) :
    let t := as.foldl End.arrive ((s d).setStream (s d).stream.closeRead)
    t.stream.inbox = [] ∧ t.stream.recvAvail = 65536 := by
  have hwhole : (s d).stream.recvAvail = 65536 := by
    have h := whole_reachable hs
    unfold End.Whole streamWindowSize at h
    simpa [hempty] using h
  suffices h : ∀ x : End, x.stream.readDone = true →
      (as.foldl End.arrive x).stream.inbox = x.stream.inbox ∧
        (as.foldl End.arrive x).stream.recvAvail = x.stream.recvAvail by
    obtain ⟨hinbox, havail⟩ := h ((s d).setStream (s d).stream.closeRead) rfl
    exact ⟨hinbox, havail.trans hwhole⟩
  intro x hdone
  induction as generalizing x with
  | nil => exact ⟨rfl, rfl⟩
  | cons a as ih =>
    have hrest := ih (fun f hf => has f (List.mem_cons_of_mem _ hf)) (x.arrive a)
    cases a with
    | frame f =>
      obtain ⟨hkept, hinbox, havail⟩ := receive_without_data (e := x) (has f List.mem_cons_self)
      rw [← hinbox, ← havail]
      exact hrest (hkept.trans hdone)
    | read n =>
      have hsame : (x.arrive (.read n)).stream = x.stream := by
        simp [End.arrive, Stream.read, hdone, End.emit]
      rw [hsame] at hrest
      exact hrest hdone

/-- One byte after `CloseRead` is kept, and the window is short of it. -/
theorem aborted_read_keeps_a_byte :
    let e : End := { stream := { id := 1 } }
    let t := [Arrival.frame ⟨.data, 1, [7]⟩, .read 1].foldl End.arrive
      (e.setStream e.stream.closeRead)
    t.stream.inbox = [7] ∧ t.stream.recvAvail = e.stream.recvAvail - 1 := by
  decide

/-- A byte is sent and read before `CloseRead`, and the end of the peer's
data comes after it. -/
theorem aborted_read_at_eof :
    ∃ s, (link 1400 1).ReachWhen (fun _ l => l ≠ .closeRead true) s ∧
      (s true).stream.grantPending = 1 ∧ (s true).stream.inbox = [] ∧
      let t := [Arrival.frame ⟨.eof, 1, []⟩, .read 1].foldl End.arrive
        ((s true).setStream (s true).stream.closeRead)
      t.stream.inbox = [] ∧ t.stream.recvAvail = 65536 := by
  obtain ⟨s, hs, hpending, hempty⟩ := (link 1400 1).exists_reachWhen
    (fun _ l => l ≠ .closeRead true) rfl
    [.write false [7], .flush false ⟨.data, 1, [7]⟩, .deliver false, .read true 1]
    (fun s => (s true).stream.grantPending = 1 ∧ (s true).stream.inbox = []) (by decide +kernel)
  refine ⟨s, hs, hpending, hempty, aborted_read_keeps_the_window 1400 1 hs hempty _ ?_⟩
  intro f hf
  simp at hf
  subst hf
  rfl

end R1s.Yggdrasil
