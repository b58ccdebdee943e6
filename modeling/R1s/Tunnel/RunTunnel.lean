/-
The tunnel of a run on the client's side (`client`: tunnel.go).

`RunTunnel` keeps one pair and uses it for every `Dial` while the active
execution is the one it was made for. Whether the pair has ended is known
to the pair alone: `OpenStream` of an ended pair fails and the tunnel
keeps it, so only a switch to another execution brings a new one.

The transport decides how each step of a `Dial` ends, and pairs end when
it likes. `trimSpace` stands for `strings.TrimSpace`, of which nothing is
used, and `opener` for whether the transport's pairs open streams.
-/
import R1s.Protocol.Wire

namespace R1s.Tunnel

/-- A `RunTunnel` and the pairs of its transport. -/
structure RunTunnel where
  allowed : List UInt16
  active : GoString := []
  dialer : Bool := false
  pair : Option Nat := none
  pairExec : GoString := []
  closed : Bool := false
  made : Nat := 0
  ended : Nat → Bool := fun _ => false

inductive DialErr
  | targetNotAllowed | runTunnelClosed | noActiveExecution | canceled
  | edge | openTunnel | dial | preamble | cannotOpen | notReady | streamOpen
deriving DecidableEq

/-- What the transport answers during one `Dial`. -/
structure DialIn where
  canceled : Bool := false
  edgeFails : Bool := false
  openFails : Bool := false
  dialFails : Bool := false
  preambleFails : Bool := false
  /-- The new pair ends before a stream is opened on it. -/
  ends : Bool := false
  streamFails : Bool := false

/-- The execution a `Dial` tried to establish a pair for, and its error. -/
structure Dialed where
  attempted : Option GoString
  err : Option DialErr

namespace RunTunnel

variable (trimSpace : GoString → GoString) (opener : Bool) (s : RunTunnel)

/-- The pair ends: by the peer, the network, a protocol error or `Close`. -/
def terminate (pair : Nat) : RunTunnel := { s with ended := Function.update s.ended pair true }

/-- The pair is closed and forgotten. -/
def dropPair : RunTunnel :=
  { s with
    pair := none, pairExec := [],
    ended := fun pair => s.ended pair || decide (s.pair = some pair) }

def setActive (executionID : GoString) : RunTunnel :=
  if s.closed then s
  else
    let s := { s with active := trimSpace executionID }
    if s.pair.isSome ∧ s.pairExec ≠ s.active then s.dropPair else s

def establishLocked (i : DialIn) : RunTunnel × Option DialErr :=
  if !s.dialer && i.edgeFails then (s, some .edge)
  else
    let s := { s with dialer := true }
    if i.openFails then (s, some .openTunnel)
    else if i.dialFails then (s, some .dial)
    else
      let pair := s.made
      let s := { s with
        made := pair + 1, ended := Function.update s.ended pair (i.preambleFails || i.ends) }
      if i.preambleFails then (s, some .preamble)
      else ({ s with pair := some pair, pairExec := s.active }, none)

/-- `OpenStream` on the pair that is held. -/
def openStream (i : DialIn) : RunTunnel × Option DialErr :=
  if !opener then (s.dropPair, some .cannotOpen)
  else if s.pair.any s.ended then (s, some .notReady)
  else (s, if i.streamFails then some .streamOpen else none)

def dial (port : UInt16) (i : DialIn) : RunTunnel × Dialed :=
  if port ∉ s.allowed then (s, ⟨none, some .targetNotAllowed⟩)
  else if s.closed then (s, ⟨none, some .runTunnelClosed⟩)
  else if s.active = [] then (s, ⟨none, some .noActiveExecution⟩)
  else if i.canceled then (s, ⟨none, some .canceled⟩)
  else if s.pair = none ∨ s.pairExec ≠ s.active then
    match s.establishLocked i with
    | (t, some err) => (t, ⟨some s.active, some err⟩)
    | (t, none) => let opened := t.openStream opener i; (opened.1, ⟨some s.active, opened.2⟩)
  else let opened := s.openStream opener i; (opened.1, ⟨none, opened.2⟩)

def close : RunTunnel :=
  if s.closed then s
    else { s.dropPair with closed := true, dialer := false, pairExec := s.pairExec }

inductive Label
  | setActive (executionID : GoString)
  | dial (port : UInt16) (i : DialIn)
  | terminate (pair : Nat)
  | close

def step : Label → RunTunnel
  | .setActive x => s.setActive trimSpace x
  | .dial port i => (s.dial opener port i).1
  | .terminate pair => s.terminate pair
  | .close => s.close

/-- No `Dial` but those refused for their port or their context, and no
`Close`. -/
def Label.quiet (allowed : List UInt16) : Label → Bool
  | .setActive _ | .terminate _ => true
  | .dial port i => decide (port ∉ allowed) || i.canceled
  | .close => false

/-- The label names another execution. -/
def Label.switches (active : GoString) : Label → Bool
  | .setActive x => decide (trimSpace x ≠ active)
  | _ => false

-- ===== the pair that is held

/-- The pair is the one held for the active execution, and it has ended. -/
structure Dead (pair : Nat) : Prop where
  held : s.pair = some pair
  exec : s.pairExec = s.active
  ended : s.ended pair = true

variable {s} {pair : Nat} {l : Label} {port : UInt16} {i : DialIn}

theorem dial_refused (h : (Label.dial port i).quiet s.allowed = true) :
    (s.dial opener port i).1 = s := by
  unfold dial
  rw [Label.quiet, Bool.or_eq_true, decide_eq_true_eq] at h
  split
  · rfl
  split
  · rfl
  split
  · rfl
  rename_i hport _ _
  rw [if_pos (h.resolve_left hport)]

/-- Nothing else opens, closes or widens the tunnel, or makes a pair. -/
theorem step_quiet (hl : l.quiet s.allowed = true) :
    let t := s.step trimSpace opener l
    t.closed = s.closed ∧ t.allowed = s.allowed ∧ (s.pair = none → t.pair = none) := by
  cases l with
  | setActive x =>
    dsimp only [step, setActive]
    split
    · exact ⟨rfl, rfl, id⟩
    split
    · exact ⟨rfl, rfl, fun _ => rfl⟩
    · exact ⟨rfl, rfl, id⟩
  | dial port i =>
    dsimp only [step]
    rw [dial_refused opener hl]
    exact ⟨rfl, rfl, id⟩
  | terminate pair => exact ⟨rfl, rfl, id⟩
  | close => cases hl

/-- Only a switch lets the ended pair go. -/
theorem step_dead (h : s.Dead pair) (hopen : s.closed = false) (hl : l.quiet s.allowed = true) :
    let t := s.step trimSpace opener l
    if l.switches trimSpace s.active then t.pair = none
    else t.Dead pair ∧ t.active = s.active := by
  cases l with
  | setActive x =>
    dsimp only [step, setActive, Label.switches]
    rw [hopen, if_neg Bool.false_ne_true, h.held, h.exec]
    by_cases hx : trimSpace x = s.active
    · simp only [hx, ne_eq, not_true_eq_false, decide_false, and_false, if_false,
        Bool.false_eq_true]
      exact ⟨⟨rfl, rfl, h.ended⟩, trivial⟩
    · simp only [ne_eq, hx, Ne.symm hx, not_false_eq_true, decide_true, if_true, Option.isSome_some,
        and_self, dropPair]
  | dial port i =>
    dsimp only [step]
    rw [dial_refused opener hl]
    exact ⟨h, rfl⟩
  | terminate other =>
    refine ⟨⟨h.held, h.exec, ?_⟩, rfl⟩
    show Function.update s.ended other true pair = true
    by_cases hp : pair = other
    · rw [hp, Function.update_self]
    · rw [Function.update_of_ne hp]
      exact h.ended
  | close => cases hl

/-- A tunnel without a pair gets none. -/
theorem run_none (ls : List Label) (hs : s.pair = none)
    (hquiet : ∀ l ∈ ls, l.quiet s.allowed = true) :
    let t := ls.foldl (step trimSpace opener) s
    t.closed = s.closed ∧ t.allowed = s.allowed ∧ t.pair = none := by
  induction ls generalizing s with
  | nil => exact ⟨rfl, rfl, hs⟩
  | cons l rest ih =>
    obtain ⟨hclosed, hallowed, hpair⟩ := step_quiet trimSpace opener
      (hquiet l List.mem_cons_self)
    obtain ⟨hclosed', hallowed', hpair'⟩ := ih (hpair hs) fun l' hl' => by
      rw [hallowed]
      exact hquiet l' (List.mem_cons_of_mem _ hl')
    exact ⟨hclosed'.trans hclosed, hallowed'.trans hallowed, hpair'⟩

/-- An ended pair is held until the first switch. -/
theorem run_dead (ls : List Label) (h : s.Dead pair) (hopen : s.closed = false)
    (hquiet : ∀ l ∈ ls, l.quiet s.allowed = true) :
    let t := ls.foldl (step trimSpace opener) s
    t.closed = false ∧ t.allowed = s.allowed ∧
      if ls.any (Label.switches trimSpace s.active) then t.pair = none else t.Dead pair := by
  induction ls generalizing s with
  | nil => exact ⟨hopen, rfl, h⟩
  | cons l rest ih =>
    have hl := hquiet l List.mem_cons_self
    obtain ⟨hclosed, hallowed, -⟩ := step_quiet trimSpace opener hl
    have hstep := step_dead trimSpace opener h hopen hl
    have hrest : ∀ l' ∈ rest, l'.quiet (s.step trimSpace opener l).allowed = true := by
      rw [hallowed]
      exact fun l' hl' => hquiet l' (List.mem_cons_of_mem _ hl')
    cases hswitch : l.switches trimSpace s.active with
    | true =>
      rw [hswitch] at hstep
      obtain ⟨hclosed', hallowed', hpair⟩ := run_none trimSpace opener rest hstep hrest
      refine ⟨hclosed'.trans (hclosed.trans hopen), hallowed'.trans hallowed, ?_⟩
      rw [List.any_cons, hswitch]
      exact hpair
    | false =>
      rw [hswitch] at hstep
      obtain ⟨hdead, hactive⟩ := hstep
      obtain ⟨hclosed', hallowed', hpair⟩ := ih hdead (hclosed.trans hopen) hrest
      rw [hactive] at hpair
      refine ⟨hclosed', hallowed'.trans hallowed, ?_⟩
      rw [List.any_cons, hswitch]
      exact hpair

/-- A `Dial` that gets that far makes a pair exactly when none is held for
the active execution. -/
theorem dial_attempts (hport : port ∈ s.allowed) (hopen : s.closed = false)
    (hactive : s.active ≠ [])
    (hi : i.canceled = false) : (s.dial opener port i).2.attempted = some s.active ↔
      s.pair = none ∨ s.pairExec ≠ s.active := by
  unfold dial
  rw [if_neg (not_not_intro hport), hopen, if_neg Bool.false_ne_true, if_neg hactive, hi,
    if_neg Bool.false_ne_true]
  split
  next hmake =>
    simp only [hmake, iff_true]
    split <;> rfl
  next hheld => simp [hheld]

/-- After the pair of the active execution has ended, the next `Dial` makes
a new one exactly when another execution was made active in between. -/
theorem dial_after_end_iff (ls : List Label) (h : s.Dead pair) (hopen : s.closed = false)
    (hquiet : ∀ l ∈ ls, l.quiet s.allowed = true) (hport : port ∈ s.allowed)
    (hi : i.canceled = false) :
    let t := ls.foldl (step trimSpace opener) s
    t.active ≠ [] → ((t.dial opener port i).2.attempted = some t.active ↔
      ∃ x, .setActive x ∈ ls ∧ trimSpace x ≠ s.active) := by
  intro t hactive
  obtain ⟨hclosed, hallowed, hpair⟩ := run_dead trimSpace opener ls h hopen hquiet
  rw [dial_attempts opener (hallowed ▸ hport) hclosed hactive hi]
  have hany : ls.any (Label.switches trimSpace s.active) = true ↔
      ∃ x, .setActive x ∈ ls ∧ trimSpace x ≠ s.active := by
    rw [List.any_eq_true]
    constructor
    · rintro ⟨l, hl, hswitch⟩
      cases l with
      | setActive x => exact ⟨x, hl, of_decide_eq_true hswitch⟩
      | _ => cases hswitch
    · rintro ⟨x, hl, hx⟩
      exact ⟨.setActive x, hl, decide_eq_true hx⟩
  rw [← hany]
  cases hswitch : ls.any (Label.switches trimSpace s.active) with
  | true =>
    rw [hswitch] at hpair
    exact iff_of_true (.inl hpair) rfl
  | false =>
    rw [hswitch] at hpair
    refine iff_of_false ?_ Bool.false_ne_true
    rintro (hnone | hother)
    · cases hnone.symm.trans hpair.held
    · exact hother hpair.exec

-- ===== a pair that ends

/-- A pair for `a` that the peer closes. -/
def lost : RunTunnel :=
  [Label.setActive (text "a"), .dial 80 {}, .terminate 0].foldl (step (fun x => x) true)
    { allowed := [80] }

/-- The next `Dial`, and every one after it, fails on the ended pair. -/
theorem dial_fails_on_the_ended_pair :
    lost.Dead 0 ∧ (lost.dial true 80 {}).2.attempted = none ∧
      (lost.dial true 80 {}).2.err = some .notReady ∧
      ((lost.dial true 80 {}).1.dial true 80 {}).2.err = some .notReady :=
  ⟨⟨by decide, by decide, by decide⟩, by decide, by decide, by decide⟩

/-- After a switch and back there is a new pair. -/
theorem dial_after_a_switch :
    let ls := [Label.setActive (text "b"), .setActive (text "a")]
    ((ls.foldl (step (fun x => x) true) lost).dial true 80 {}).2.attempted = some (text "a") := by
  have hdead : lost.Dead 0 := ⟨by decide, by decide, by decide⟩
  exact (dial_after_end_iff (fun x => x) true _ hdead (by decide) (by decide) (by decide) rfl
    (by decide)).mpr ⟨text "b", List.mem_cons_self, by decide⟩

end RunTunnel

end R1s.Tunnel
