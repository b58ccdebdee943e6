/-
The log tail of a run (`cmd/r1s`: run_tail.go).

# State

One goroutine polls, and the events of the run switch the active
execution. A poll takes the active execution and its offsets under the
lock, fetches a chunk for each stream without it, and looks at the
offsets and writes in two more sections. A fetch is inconclusive or
returns bytes of the execution's own stream from the offset on; the
streams grow while they are read.

# What the offsets tell

A chunk is dropped when the offset has changed since. A new execution
starts at offset zero, so a chunk from the start of the old one passes
for it, and an execution that becomes active again is written from its
start. Where no switch meets such a chunk and none goes back, every
stream is written as it is (`Tracks`).
-/
import R1s.Lib.Transition
import R1s.Logstore.Store

namespace R1s.RunTail

open Logstore (Stream)
open Function (update update_of_ne update_self)

-- ===== the tail

/-- Bytes the tail wrote, with the execution they were fetched for and the
one whose offsets counted them. -/
structure Piece where
  fetched : GoString
  counted : GoString
  stream : Stream
  data : Bytes

inductive Output
  | marker (line : GoString)
  | piece (p : Piece)

/-- `runTail`: detached, everything goes to one file. -/
structure Tail where
  detached : Bool := false
  target : Stream → Bool := fun _ => true
  active : GoString := []
  seen : GoString := []
  off : Stream → Nat := fun _ => 0
  runID : GoString := []
  attempt : Nat := 0
  out : List Output := []

def Tail.marker (t : Tail) : GoString :=
  if t.seen = [] then
    text "[r1s] run=" ++ t.runID ++ text " attempt=" ++ text (toString t.attempt) ++ text "\n"
  else text "[r1s] rescheduled attempt=" ++ text (toString t.attempt) ++ text "\n"

def Tail.setActive (executionID runID : GoString) (attempt : Nat) (t : Tail) : Tail :=
  let t := { t with
    active := executionID, runID := if runID = [] then t.runID else runID, attempt := attempt }
  if executionID = t.seen then t
  else { t with
    off := fun _ => 0, seen := executionID,
    out := if t.detached then t.out ++ [.marker t.marker] else t.out }

/-- `write`: the file takes both streams, and there may be no target. -/
def Tail.write (executionID : GoString) (st : Stream) (data : Bytes) (t : Tail) : Tail :=
  if t.detached || t.target st then
    { t with
      out := t.out ++ [.piece ⟨executionID, t.seen, st, data⟩],
      off := update t.off st (t.off st + data.length) }
  else t

-- ===== the poller

/-- What a poll took under the lock. -/
structure Poll where
  executionID : GoString
  offsets : Stream → Nat

inductive Pc
  | idle
  | fetching (p : Poll) (st : Stream)
  | fetched (p : Poll) (st : Stream) (data : Bytes)
  | checked (p : Poll) (st : Stream) (data : Bytes)

/-- The next stream of the loop. -/
def Poll.next (p : Poll) : Stream → Pc
  | .stdout => .fetching p .stderr
  | .stderr => .idle

structure Run where
  tail : Tail := {}
  pc : Pc := .idle
  logs : GoString → Stream → Bytes := fun _ _ => []

inductive Label
  | setActive (executionID runID : GoString) (attempt : Nat)
  | poll
  /-- `tailChunk` fails or returns at most that many bytes. -/
  | fetch (size : Option Nat)
  | check
  | write
  | grow (executionID : GoString) (st : Stream) (data : Bytes)

def Run.fetch (s : Run) (p : Poll) (st : Stream) : Option Nat → Pc
  | none => p.next st
  | some size =>
    let data := ((s.logs p.executionID st).drop (p.offsets st)).take size
    if data = [] then p.next st else .fetched p st data

/-- The source has more to give. -/
def Run.grow (s : Run) (x : GoString) (st : Stream) (data : Bytes) : Run :=
  let streams := update (s.logs x) st (s.logs x st ++ data)
  { s with logs := update s.logs x streams }

def Run.step (s : Run) : Label → Option Run
  | .setActive x runID attempt => some { s with tail := s.tail.setActive x runID attempt }
  | .poll =>
    match s.pc with
    | .idle =>
      if s.tail.active = [] then some s
      else some { s with pc := .fetching ⟨s.tail.active, s.tail.off⟩ .stdout }
    | _ => none
  | .fetch size =>
    match s.pc with
    | .fetching p st => some { s with pc := s.fetch p st size }
    | _ => none
  | .check =>
    match s.pc with
    | .fetched p st data =>
      some { s with pc := if s.tail.off st ≠ p.offsets st then p.next st else .checked p st data }
    | _ => none
  | .write =>
    match s.pc with
    | .checked p st data =>
      some { s with tail := s.tail.write p.executionID st data, pc := p.next st }
    | _ => none
  | .grow x st data => some (s.grow x st data)

def tails : TransitionSystem Run Label where
  init s := ∃ detached target logs, s = { tail := { detached, target }, logs }
  step := Run.step

-- ===== what was written

def Tail.pieces (t : Tail) : List Piece :=
  t.out.filterMap fun o => match o with
    | .marker _ => none
    | .piece p => some p

/-- The bytes written for a stream of an execution. -/
def Tail.written (t : Tail) (x : GoString) (st : Stream) : Bytes :=
  t.pieces.flatMap fun p => if p.fetched = x ∧ p.stream = st then p.data else []

/-- Every stream is written from its start and as it is, and counted as
its own. -/
structure Faithful (s : Run) : Prop where
  own : ∀ p ∈ s.tail.pieces, p.fetched = p.counted
  written : ∀ x st, s.tail.written x st <+: s.logs x st

/-- The streams of a poll that are not over. -/
def pending : Stream → List Stream
  | .stdout => [.stdout, .stderr]
  | .stderr => [.stderr]

/-- No chunk of the poll passes for one of a new execution. -/
def Pc.calm : Pc → Bool
  | .idle => true
  | .fetching p st | .fetched p st _ => (pending st).all fun st => p.offsets st ≠ 0
  | .checked _ _ _ => false

/-- A switch leaves no such chunk behind and is to an execution of which
nothing was written. -/
def calm (s : Run) : Label → Bool
  | .setActive x _ _ =>
    decide (x = s.tail.seen) || s.pc.calm && s.tail.pieces.all fun p => decide (p.fetched ≠ x)
  | _ => true

-- ===== the invariant

/-- The poll is of the execution whose offsets it took. -/
def Poll.Live (p : Poll) (t : Tail) (sts : List Stream) : Prop :=
  p.executionID = t.seen ∧ ∀ st ∈ sts, p.offsets st = t.off st

/-- The poll will be found to be stale. -/
def Poll.Stale (p : Poll) (t : Tail) (sts : List Stream) : Prop :=
  ∀ st ∈ sts, p.offsets st ≠ 0 ∧ t.off st = 0

def Poll.Fetched (p : Poll) (s : Run) (st : Stream) (data : Bytes) : Prop :=
  data <+: (s.logs p.executionID st).drop (p.offsets st)

def Pc.Sound (s : Run) : Pc → Prop
  | .idle => True
  | .fetching p st => p.Live s.tail (pending st) ∨ p.Stale s.tail (pending st)
  | .fetched p st data => p.Fetched s st data ∧
      (p.Live s.tail (pending st) ∨ p.Stale s.tail (pending st))
  | .checked p st data => p.Fetched s st data ∧ p.Live s.tail (pending st)

structure Tracks (s : Run) : Prop extends Faithful s where
  active : s.tail.active = s.tail.seen
  off : ∀ st, s.tail.off st = (s.tail.written s.tail.seen st).length
  sound : s.pc.Sound s

variable {s t : Run} {p : Poll} {st : Stream} {data : Bytes}

/-- A poll that goes on to its next stream stays what it is. -/
theorem sound_next
    (h : p.Live s.tail (pending st) ∨ p.Stale s.tail (pending st)) : (p.next st).Sound s := by
  cases st with
  | stderr => exact trivial
  | stdout =>
    refine h.imp (fun h => ⟨h.1, ?_⟩) (fun h => ?_)
    · exact fun st hst => h.2 st (List.mem_cons_of_mem _ hst)
    · exact fun st hst => h st (List.mem_cons_of_mem _ hst)

/-- Nothing but the place of the poller changes. -/
theorem Tracks.goto {pc : Pc} (h : Tracks s) (hpc : pc.Sound s) : Tracks { s with pc := pc } := by
  refine ⟨⟨h.own, h.written⟩, h.active, h.off, ?_⟩
  cases pc <;> exact hpc

theorem Tracks.setActive (h : Tracks s) (x runID : GoString) (attempt : Nat)
    (hcalm : calm s (.setActive x runID attempt) = true) :
    Tracks { s with tail := s.tail.setActive x runID attempt } := by
  unfold Tail.setActive
  dsimp only
  split
  next hseen =>
    refine ⟨⟨h.own, h.written⟩, hseen, h.off, ?_⟩
    have hsound := h.sound
    generalize s.pc = pc at hsound ⊢
    cases pc <;> exact hsound
  rename_i hnew
  rw [calm, decide_eq_false hnew, Bool.false_or, Bool.and_eq_true, List.all_eq_true] at hcalm
  obtain ⟨hpc, hfresh⟩ := hcalm
  generalize ht : Tail.mk _ _ _ _ _ _ _ _ = t
  have hpieces : t.pieces = s.tail.pieces := by
    rw [← ht]
    unfold Tail.pieces
    dsimp only
    split <;> simp
  have hwritten (y : GoString) (st : Stream) : t.written y st = s.tail.written y st := by
    rw [Tail.written, hpieces, Tail.written]
  have hoff : t.off = fun _ => 0 := by rw [← ht]
  have hseen : t.active = x ∧ t.seen = x := by
    rw [← ht]
    exact ⟨rfl, rfl⟩
  refine ⟨⟨?_, ?_⟩, hseen.1.trans hseen.2.symm, ?_, ?_⟩
  · show ∀ p ∈ t.pieces, _
    rw [hpieces]
    exact h.own
  · intro y st
    rw [hwritten]
    exact h.written y st
  · intro st
    rw [hwritten, hoff, hseen.2]
    have hnone : s.tail.written x st = [] := by
      refine List.flatMap_eq_nil_iff.mpr fun p hp => if_neg fun hpx => ?_
      exact absurd hpx.1 (of_decide_eq_true (hfresh p hp))
    rw [hnone, List.length_nil]
  · have hsound := h.sound
    have hstale {p : Poll} {st : Stream}
        (hall : ((pending st).all fun st => p.offsets st ≠ 0) = true) :
        p.Stale t (pending st) := by
      intro st' hst'
      exact ⟨of_decide_eq_true (List.all_eq_true.mp hall st' hst'), by rw [hoff]⟩
    generalize s.pc = pc at hsound hpc ⊢
    cases pc with
    | idle => exact trivial
    | fetching p st => exact .inr (hstale hpc)
    | fetched p st data => exact ⟨hsound.1, .inr (hstale hpc)⟩
    | checked p st data => cases hpc

/-- The written chunk continues its stream. -/
theorem Tracks.write (h : Tracks s) (hpc : s.pc = .checked p st data) :
    Tracks { s with tail := s.tail.write p.executionID st data, pc := p.next st } := by
  have hsound := h.sound
  rw [hpc] at hsound
  obtain ⟨hdata, hlive⟩ := hsound
  have hst : st ∈ pending st := by cases st <;> exact List.mem_cons_self
  unfold Tail.write
  split
  · have hcontinues : s.tail.written p.executionID st ++ data <+: s.logs p.executionID st := by
      obtain ⟨rest, hrest⟩ := h.written p.executionID st
      have hlength : p.offsets st = (s.tail.written p.executionID st).length := by
        rw [hlive.2 st hst, h.off, hlive.1]
      rw [Poll.Fetched, hlength, ← hrest, List.drop_left] at hdata
      rw [← hrest]
      exact (List.prefix_append_right_inj _).mpr hdata
    have hpieces (t : Tail) (q : Piece) (ht : t.out = s.tail.out ++ [.piece q]) :
        t.pieces = s.tail.pieces ++ [q] := by
      rw [Tail.pieces, ht, List.filterMap_append]
      rfl
    have hwritten (t : Tail) (ht : t.out = s.tail.out ++ [.piece ⟨p.executionID, s.tail.seen, st,
        data⟩]) (x : GoString) (st' : Stream) : t.written x st' =
        s.tail.written x st' ++ if p.executionID = x ∧ st = st' then data else [] := by
      rw [Tail.written, hpieces t _ ht, List.flatMap_append, List.flatMap_singleton]
      rfl
    refine ⟨⟨?_, ?_⟩, h.active, ?_, ?_⟩
    · intro q hq
      rw [hpieces _ _ rfl] at hq
      rcases List.mem_append.mp hq with hq | hq
      · exact h.own q hq
      · rw [List.mem_singleton.mp hq]
        exact hlive.1
    · intro x st'
      rw [hwritten _ rfl]
      split
      next heq =>
        rw [← heq.1, ← heq.2]
        exact hcontinues
      · rw [List.append_nil]
        exact h.written x st'
    · intro st'
      rw [hwritten _ rfl]
      show update s.tail.off st _ st' = (s.tail.written s.tail.seen st' ++ _).length
      by_cases heq : st' = st
      · subst heq
        rw [update_self, if_pos ⟨hlive.1, rfl⟩, List.length_append, h.off]
      · rw [update_of_ne heq, if_neg (fun hn => heq hn.2.symm), List.append_nil, h.off]
    · cases st with
      | stderr => exact trivial
      | stdout =>
        refine .inl ⟨hlive.1, fun st hst => ?_⟩
        rw [List.mem_singleton.mp hst]
        exact hlive.2 .stderr (by simp [pending])
  · exact h.goto (sound_next (.inl hlive))

theorem Tracks.grow (h : Tracks s) (x : GoString) (st : Stream) (data : Bytes) :
    Tracks (s.grow x st data) := by
  have hgrows (y : GoString) (st' : Stream) : s.logs y st' <+: (s.grow x st data).logs y st' := by
    unfold Run.grow
    dsimp only
    by_cases hy : y = x
    · subst hy
      rw [update_self]
      by_cases hst : st' = st
      · subst hst
        rw [update_self]
        exact List.prefix_append _ _
      · rewrite [update_of_ne hst]
        exact List.prefix_rfl
    · rewrite [update_of_ne hy]
      exact List.prefix_rfl
  refine ⟨⟨h.own, fun y st' => (h.written y st').trans (hgrows y st')⟩, h.active, h.off, ?_⟩
  have hfetched {p : Poll} {st' : Stream} {d : Bytes} (hd : p.Fetched s st' d) :
      p.Fetched (s.grow x st data) st' d := by
    obtain ⟨rest, hrest⟩ := hgrows p.executionID st'
    rw [Poll.Fetched, ← hrest, List.drop_append]
    exact hd.trans (List.prefix_append _ _)
  have hsound := h.sound
  show s.pc.Sound (s.grow x st data)
  generalize s.pc = pc at hsound ⊢
  cases pc with
  | idle => exact trivial
  | fetching p st => exact hsound
  | fetched | checked => exact ⟨hfetched hsound.1, hsound.2⟩

theorem Tracks.step {l : Label} (h : Tracks s) (hcalm : calm s l = true)
    (hstep : s.step l = some t) : Tracks t := by
  have hsound := h.sound
  cases l with
  | setActive x runID attempt =>
    cases hstep
    exact h.setActive x runID attempt hcalm
  | grow x st data =>
    cases hstep
    exact h.grow x st data
  | poll =>
    simp only [Run.step] at hstep
    split at hstep
    · split at hstep
      · cases hstep
        exact h
      · cases hstep
        exact h.goto (.inl ⟨h.active, fun _ _ => rfl⟩)
    · cases hstep
  | fetch size =>
    simp only [Run.step] at hstep
    split at hstep
    next p st hpc =>
      cases hstep
      rw [hpc] at hsound
      refine h.goto ?_
      cases size with
      | none => exact sound_next hsound
      | some size =>
        simp only [Run.fetch]
        split
        · exact sound_next hsound
        · exact ⟨List.take_prefix _ _, hsound⟩
    · cases hstep
  | check =>
    simp only [Run.step] at hstep
    split at hstep
    next p st data hpc =>
      cases hstep
      rw [hpc] at hsound
      refine h.goto ?_
      split
      · exact sound_next hsound.2
      next heq =>
        refine ⟨hsound.1, hsound.2.resolve_right fun hstale => ?_⟩
        obtain ⟨hne, hzero⟩ := hstale st (by cases st <;> exact List.mem_cons_self)
        omega
    · cases hstep
  | write =>
    simp only [Run.step] at hstep
    split at hstep
    next hpc =>
      cases hstep
      exact h.write hpc
    · cases hstep

/-- In every run in which no switch meets a chunk from the start of a
stream or goes back, what the tail writes is what was logged. -/
theorem calm_tails_are_faithful (h : tails.ReachWhen (fun s l => calm s l = true) s) :
    Faithful s := by
  have htracks := h.invariant (I := Tracks) ?_ fun s l t hs hcalm hstep => hs.step hcalm hstep
  · exact htracks.toFaithful
  · rintro s ⟨detached, target, logs, rfl⟩
    exact ⟨⟨List.forall_mem_nil _, fun _ _ => List.nil_prefix⟩, rfl, fun _ => rfl, trivial⟩

-- ===== switches

/-- `a` has logged one byte and is active. -/
def begun : List Label := [.grow (text "a") .stdout (text "o"), .setActive (text "a") [] 1]

def polled : List Label := [.poll, .fetch (some 65536), .check, .write, .fetch none]

/-- A byte of `a` is counted as one of `b` when the switch comes between
fetch and write, and is written twice when `a` becomes active again. -/
theorem switches_misroute_and_repeat :
    (∃ s, tails.Reach s ∧ ∃ p ∈ s.tail.pieces, p.fetched = text "a" ∧ p.counted = text "b") ∧
    ∃ s, tails.Reach s ∧ s.tail.written (text "a") .stdout = text "oo" ∧
      s.logs (text "a") .stdout = text "o" := by
  refine ⟨?_, ?_⟩
  · exact tails.exists_reach (s := {}) ⟨false, fun _ => true, _, rfl⟩
      (begun ++ [.poll, .fetch (some 65536), .setActive (text "b") [] 2, .check, .write]) _
      (by decide +kernel)
  · exact tails.exists_reach (s := {}) ⟨false, fun _ => true, _, rfl⟩
      (begun ++ polled ++ [.setActive (text "b") [] 2, .setActive (text "a") [] 3] ++ polled) _
      (by decide +kernel)

/-- A switch between two polls. -/
theorem calm_switch_is_faithful :
    ∃ s, tails.ReachWhen (fun s l => calm s l = true) s ∧ Faithful s ∧
      s.tail.written (text "a") .stdout = text "o" ∧
      s.tail.written (text "b") .stdout = text "k" := by
  obtain ⟨s, hs, hp⟩ := tails.exists_reachWhen (fun s l => calm s l = true)
    (s := {}) ⟨false, fun _ => true, _, rfl⟩
    (begun ++ polled ++ [.grow (text "b") .stdout (text "k"), .setActive (text "b") [] 2] ++ polled)
    (fun s => s.tail.written (text "a") .stdout = text "o" ∧
      s.tail.written (text "b") .stdout = text "k") (by decide +kernel)
  exact ⟨s, hs, calm_tails_are_faithful hs, hp⟩

end R1s.RunTail
