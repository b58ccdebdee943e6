/-
How executions end: a client's cancellation whose stop completes ends in
CANCELLED, and FAILED with the lease text is left by lease evictions only.

# Where it fails

After a crash `Recover` tells an interrupted eviction from an interrupted
cancellation by the record's detail, which for a cancellation is the
client's reason. A client that gives the eviction's text as its reason is
taken for an eviction (`reason_passes_for_eviction`).

# Where it holds

`endings_tell_causes`: in runs where no client gives that text as a
reason, no runtime reports it, and calls come in the daemon's order.
-/
import R1s.Allocator.Proofs.Stoppers

namespace R1s.Allocator

variable {cfg : Config} {s t : System cfg} {j : Journal} {w w' : World} {i : Input}

-- ===== the endings

/-- What the ending of a record says of it. -/
structure Ended (x : ExecutionRecord) (ending : Option Cause) : Prop where
  client : ending = some .client → x.phase = .cancelled
  lease : x.phase = .failed → x.detail = leaseExpiredDetail → ending = some .lease

/-- Every record that has ended has its ending. -/
def Concluded (j : Journal) (m : Mem) : Prop :=
  ∀ k x, m.executions.lookup k = some x → x.phase.terminal = true →
    ∃ ending, j.endings.lookup k = some ending ∧ Ended x ending

variable {cause : ExecutionRecord → Option Cause} {id k : GoString} {m m' : Mem}

theorem closed_other (h : k ≠ id) : (j.closed m m' id cause).lookup k = j.endings.lookup k := by
  unfold Journal.closed
  split
  · split
    · exact AList.lookup_insert_ne h
    · rfl
  · rfl

variable {x : ExecutionRecord}

/-- An execution that has ended keeps its ending. -/
theorem closed_ended (hx : m.executions.lookup k = some x) (hend : x.phase.terminal = true) :
    (j.closed m m' id cause).lookup k = j.endings.lookup k := by
  by_cases hk : k = id
  · subst hk
    unfold Journal.closed
    split
    next x₀ x' hx₀ hx' =>
      rw [hx] at hx₀
      cases hx₀
      rw [if_neg]
      rintro ⟨hlive, -⟩
      rw [hend] at hlive
      cases hlive
    · rfl
  · exact closed_other hk

variable {x' : ExecutionRecord}

theorem closed_at (hx : m.executions.lookup k = some x) (hx' : m'.executions.lookup k = some x')
    (hlive : x.phase.terminal = false) (hend : x'.phase.terminal = true) :
    (j.closed m m' k cause).lookup k = some (cause x) := by
  unfold Journal.closed
  rw [hx, hx']
  show (if _ then _ else _ : FMap GoString (Option Cause)).lookup k = _
  rw [if_pos ⟨hlive, hend⟩]
  exact AList.lookup_insert _

variable {pc : Pc cfg} {tid : Nat}

/-- A section changes the ending of no execution that has ended. -/
theorem turn_endings_ended (i : Input) (next : Option (Pc cfg))
    (hx : m.executions.lookup k = some x) (hend : x.phase.terminal = true) :
    (j.turn m m' tid i pc next).endings.lookup k = j.endings.lookup k := by
  unfold Journal.turn
  dsimp only
  split
  · exact closed_ended hx hend
  · rfl

theorem turn_endings_at (i : Input) (next : Option (Pc cfg)) (hpc : pc.concludes = some k)
    (hx : m.executions.lookup k = some x) (hx' : m'.executions.lookup k = some x')
    (hlive : x.phase.terminal = false) (hend : x'.phase.terminal = true) :
    (j.turn m m' tid i pc next).endings.lookup k = some (j.endCause tid k x pc) := by
  unfold Journal.turn
  rw [hpc]
  exact closed_at hx hx' hlive hend

-- ===== one section

variable {next : Next cfg}

/-- A record that has ended stays as it is until it is collected. -/
theorem Turn.ended {clock : Int} {o' : Option ExecutionRecord}
    (h : Turn pc i next clock w' k (some x) o') (hend : x.phase.terminal = true) :
    o' = some x ∨ o' = none ∧ Flushed cfg w' := by
  have hphase : ∀ {phase : ExecutionPhase}, phase.terminal = false → x.phase ≠ phase := by
    rintro phase hlive rfl
    rw [hend] at hlive
    cases hlive
  cases h with
  | same h => exact .inl rfl
  | started | unstopped => exact .inl (congrArg some (if_neg (hphase rfl)))
  | cancelled hactive | evicted hactive | renewed hpc hq hk hclient hactive =>
    exact absurd rfl (hphase hactive.1)
  | stopped | evictStopped | recoverStopped | lost => exact .inl (congrArg some (if_pos hend))
  | reattached hpc hx => exact absurd hx (hphase rfl)
  | collected hpc hend hsaved => exact .inr ⟨rfl, hsaved⟩

theorem stopped_live {clock now : Int} {phase : ExecutionPhase} {detail : GoString}
    (h : x.phase.terminal = false) :
    stopped cfg clock now phase detail x = finishRecord cfg clock x phase detail none now := by
  unfold stopped
  rw [if_neg]
  rw [h]
  exact nofun

/-- The condition: the daemon's order of calls, and no text that passes
for an eviction's. -/
abbrev candid (s : System cfg × Journal) (l : Label cfg) : Prop :=
  scheduled s l ∧ l.plainReport = true

/-- A section that ends an execution notes why. -/
theorem Attended.ends (hs : (machine cfg).Reach s) (h : Attended s j)
    (hpc : s.threads.lookup tid = some pc) (hr : advance tid pc i s.world = some (w', next))
    (hplain : (Label.run tid i : Label cfg).plainReport = true)
    (hx : s.world.mem.executions.lookup k = some x) (hlive : x.phase.terminal = false)
    (hx' : w'.mem.executions.lookup k = some x') (hend : x'.phase.terminal = true) :
    pc.concludes = some k ∧ Ended x' (j.endCause tid k x pc) := by
  have hreport : ∀ f, i.fault = some f → f.text ≠ leaseExpiredDetail := by
    intro f hf
    simpa [Label.plainReport, hf] using hplain
  have hturn := advance_turn (ledgerWorld_reachable hs) hr k
  rw [hx, hx'] at hturn
  cases hturn with
  | same h =>
    rw [hend] at hlive
    cases hlive
  | @started e x hat =>
    subst hat
    refine ⟨rfl, nofun, ?_⟩
    intro hfailed hdetail
    unfold startedRecord at hend hdetail
    split at hdetail
    · cases hf : i.fault with
      | none =>
        rw [hf] at hend
        rename_i hstarting
        rw [if_pos hstarting] at hend
        cases hend
      | some f =>
        rw [hf] at hdetail
        exact absurd hdetail (hreport f hf)
    next hnot =>
      rw [if_neg hnot, hlive] at hend
      cases hend
  | cancelled | evicted | reattached => cases hend
  | @unstopped x previous detail hat hfails =>
    unfold Allocator.unstopped at hend
    split at hend
    · rw [show _ = false from previous.2.1] at hend
      cases hend
    · rw [hlive] at hend
      cases hend
  | @stopped e reason detail previous x hat hok =>
    subst hat
    refine ⟨rfl, fun _ => ?_, fun hfailed => ?_⟩
    · rw [stopped_live hlive]
      rfl
    · rw [stopped_live hlive] at hfailed
      cases hfailed
  | @evictStopped sweep err previous detail x hat hok =>
    subst hat
    obtain ⟨-, hlease, -⟩ := h.fits hpc rfl hx hlive
    refine ⟨rfl, fun hclient => ?_, fun _ _ => hlease⟩
    rw [show j.endCause tid k x _ = j.causes.lookup k from rfl, hlease] at hclient
    cases hclient
  | @recoverStopped ids phase detail x hat =>
    subst hat
    rw [stopped_live hlive]
    refine ⟨rfl, ?_⟩
    rcases h.fits hpc rfl hx hlive with
      ⟨hphase, hdetail, hend', -⟩ | ⟨hphase, hend', hdetail, hfound⟩
    · have hcause : j.endCause tid k x (.recoverStopping ids k phase detail : Pc cfg)
          = j.causes.lookup k := if_pos hphase
      rw [hcause]
      rcases h.mem k x hx hphase with ⟨hclient, hother⟩ | ⟨hlease, htext, -⟩
      · refine ⟨fun _ => ?_, fun _ heq => ?_⟩
        · show phase.1 = .cancelled
          rw [hend', if_neg hother]
        · exact absurd (hdetail.symm.trans heq) hother
      · refine ⟨fun heq => ?_, fun _ _ => hlease⟩
        rw [hlease] at heq
        cases heq
    · have hcause : j.endCause tid k x (.recoverStopping ids k phase detail : Pc cfg)
          = some .lease := (if_neg hphase).trans (if_pos hfound)
      rw [hcause]
      exact ⟨nofun, fun _ _ => rfl⟩
  | @lost ids f x hat hf =>
    subst hat
    refine ⟨rfl, nofun, ?_⟩
    intro _ hdetail
    rw [stopped_live hlive] at hdetail
    exact absurd hdetail (hreport f hf)
  | renewed hat hq hk hclient hactive =>
    rw [hactive.1] at hend
    cases hend

-- ===== the runs

/-- The endings of the memory and of what was saved; an execution that
has ended in the store has ended in memory. -/
structure EndInv (s : System cfg) (j : Journal) : Prop where
  mem : Concluded j s.world.mem
  disk : ∀ {snap}, s.world.disk = some snap →
    ∃ saved s₀, (machine cfg).Reach s₀ ∧ Concluded j s₀.world.mem
      ∧ (∀ k y, s₀.world.mem.executions.lookup k = some y → y.phase.terminal = true →
        ∃ x, s.world.mem.executions.lookup k = some x ∧ x.phase.terminal = true)
      ∧ snap = snapshot cfg saved s₀.world.mem

variable {j' : Journal}

theorem Concluded.congr (h : Concluded j m) (hj : j'.endings = j.endings) : Concluded j' m := by
  intro k x hx hend
  rw [hj]
  exact h k x hx hend

/-- A step that ends executions and notes why. -/
theorem EndInv.step (ht : (machine cfg).Reach t) (h : EndInv s j) {l : Label cfg}
    (hc : Changes cfg (s.point l) l.input s.world t.world)
    (hended : ∀ {k x}, s.world.mem.executions.lookup k = some x → x.phase.terminal = true →
      j'.endings.lookup k = j.endings.lookup k ∧
        (t.world.mem.executions.lookup k = some x ∨
          t.world.mem.executions.lookup k = none ∧ Flushed cfg t.world))
    (hnew : ∀ {k x'}, t.world.mem.executions.lookup k = some x' → x'.phase.terminal = true →
      s.world.mem.executions.lookup k = some x' ∨
        ∃ ending, j'.endings.lookup k = some ending ∧ Ended x' ending) :
    EndInv t j' := by
  have hmem : Concluded j' t.world.mem := by
    intro k x' hx' hend
    rcases hnew hx' hend with hold | hnoted
    · rw [(hended hold hend).1]
      exact h.mem k x' hold hend
    · exact hnoted
  refine ⟨hmem, ?_⟩
  intro snap hsnap
  rcases stored_cases ht hc hsnap with ⟨saved, rfl⟩ | ⟨hsame, hunsaved⟩
  · exact ⟨saved, t, ht, hmem, fun k y hy hend => ⟨y, hy, hend⟩, rfl⟩
  · obtain ⟨saved, s₀, hs₀, hsrc, hlink, rfl⟩ := h.disk hsame
    refine ⟨saved, s₀, hs₀, ?_, ?_, rfl⟩
    · intro k y hy hend
      obtain ⟨x, hx, hend'⟩ := hlink k y hy hend
      rw [(hended hx hend').1]
      exact hsrc k y hy hend
    · intro k y hy hend
      obtain ⟨x, hx, hend'⟩ := hlink k y hy hend
      rcases (hended hx hend').2 with hkept | ⟨-, hflushed⟩
      · exact ⟨x, hkept, hend'⟩
      · exact absurd hflushed hunsaved

theorem EndInv.run (hs : (machine cfg).Reach s) (h : EndInv s j) (ha : Attended s j)
    {r : World × Next cfg} (hpc : s.threads.lookup tid = some pc)
    (hr : advance tid pc i s.world = some r)
    (hplain : (Label.run tid i : Label cfg).plainReport = true)
    (hstep : s.step (.run tid i) = some (s.resume tid pc i r))
    (ht : (machine cfg).Reach (s.resume tid pc i r)) :
    EndInv (s.resume tid pc i r) (j.note s (.run tid i) (s.resume tid pc i r)) := by
  obtain ⟨w', next⟩ := r
  rw [note_run hpc]
  have hturn := advance_turn (ledgerWorld_reachable hs) hr
  refine h.step ht (step_changes rfl hstep) ?_ ?_
  · intro k x hx hend
    refine ⟨turn_endings_ended i next.pc hx hend, ?_⟩
    have hk := hturn k
    rw [hx] at hk
    exact hk.ended hend
  · intro k x' hx' hend
    have hk := hturn k
    cases hx : s.world.mem.executions.lookup k with
    | none =>
      change w'.mem.executions.lookup k = some x' at hx'
      rw [hx, hx'] at hk
      cases hk
      cases hend
    | some x =>
      by_cases hended : x.phase.terminal = true
      · rw [hx] at hk
        refine .inl ?_
        rcases hk.ended hended with hkept | ⟨hgone, -⟩
        · exact hkept.symm.trans hx'
        · rw [show w'.mem.executions.lookup k = some x' from hx'] at hgone
          cases hgone
      · rw [Bool.not_eq_true] at hended
        obtain ⟨hconcludes, hwhy⟩ := ha.ends hs hpc hr hplain hx hended hx' hend
        exact .inr ⟨_, turn_endings_at i next.pc hconcludes hx hx' hended hend, hwhy⟩

theorem EndInv.restart (h : EndInv s j) {granted now : Int}
    (hstep : s.step (.restart granted now) = some t) :
    EndInv t (j.note s (.restart granted now) t) := by
  obtain ⟨hstored, hload, hdisk, -⟩ := restart_step hstep
  obtain ⟨hnone, hmem⟩ | ⟨snap, hsnap, hload⟩ := hload
  · refine ⟨?_, ?_⟩
    · rw [hmem]
      exact fun _ _ hx => nomatch hx
    · simp [hdisk, hnone]
  obtain ⟨saved, s₀, hs₀, hsrc, hlink, rfl⟩ := h.disk hsnap
  have hlookup := lookup_load_executions hs₀ hstored hload
  refine ⟨?_, ?_⟩
  · intro k x hx hend
    rw [hlookup] at hx
    obtain ⟨x₀, hx₀, rfl⟩ := Option.map_eq_some_iff.mp hx
    obtain ⟨ending, hending, hclient, hlease⟩ := hsrc k x₀ hx₀ hend
    refine ⟨ending, hending, hclient, fun hfailed hdetail => hlease hfailed ?_⟩
    exact Utf8.eq_of_replaceInvalid_ascii hdetail (by decide +kernel)
  · intro snap' hsnap'
    rw [hdisk, hsnap] at hsnap'
    cases hsnap'
    refine ⟨saved, s₀, hs₀, hsrc.congr rfl, ?_, rfl⟩
    intro k y hy hend
    refine ⟨y.save.restore cfg granted, ?_, hend⟩
    rw [hlookup, hy]
    rfl

/-- A completion notes no cause. -/
theorem EndInv.completed (ht : (machine cfg).Reach t) (h : EndInv s j) {c : Completion}
    (hplain : (Label.completed c i : Label cfg).plainReport = true)
    (hstep : s.step (.completed c i) = some t) : EndInv t (j.note s (.completed c i) t) := by
  have hworld : t.world = (runtimeCompleted cfg i c s.world).1 := by
    cases hstep
    rfl
  have htext : c.text ≠ leaseExpiredDetail := by simpa [Label.plainReport] using hplain
  refine h.step ht (step_changes rfl hstep) ?_ ?_
  · intro k x hx hend
    refine ⟨closed_ended hx hend, .inl ?_⟩
    rcases @runtimeCompleted_executions cfg i c s.world with hsame | ⟨x₀, hx₀, hlive, hset⟩
    · rw [hworld, hsame k, hx]
    · rw [hworld, hset k, if_neg, hx]
      rintro rfl
      rw [hx] at hx₀
      cases hx₀
      rw [hend] at hlive
      cases hlive
  · intro k x' hx' hend
    rcases @runtimeCompleted_executions cfg i c s.world with hsame | ⟨x₀, hx₀, hlive, hset⟩
    · rw [hworld, hsame k] at hx'
      exact .inl hx'
    · by_cases hk : k = c.executionID
      · subst hk
        refine .inr ⟨none, closed_at hx₀ hx' hlive hend, nofun, ?_⟩
        intro _ hdetail
        rw [hworld, hset, if_pos rfl] at hx'
        cases hx'
        exact absurd hdetail htext
      · rw [hworld, hset k, if_neg hk] at hx'
        exact .inl hx'

/-- A step that touches no record. -/
theorem EndInv.quiet (ht : (machine cfg).Reach t) (h : EndInv s j) {l : Label cfg}
    (hc : Changes cfg (s.point l) l.input s.world t.world) (hj : j'.endings = j.endings)
    (hsame : t.world.mem.executions = s.world.mem.executions) : EndInv t j' := by
  refine h.step ht hc ?_ ?_
  · intro k x hx _
    exact ⟨by rw [hj], .inl (by rw [hsame, hx])⟩
  · intro k x' hx' _
    rw [hsame] at hx'
    exact .inl hx'

theorem endInv_reachable {s : System cfg × Journal} (hs : (journaled cfg).ReachWhen candid s) :
    EndInv s.1 s.2 := by
  refine hs.invariant_with (J := fun s => (machine cfg).Reach s.1 ∧ Attended s.1 s.2)
    (I := fun s => EndInv s.1 s.2)
    (fun s hs => ⟨TransitionSystem.reach_of_observe hs,
      attended_reachable (fun _ _ hok => hok.1) hs⟩) ?_ ?_
  · rintro ⟨s, j⟩ ⟨hs, hj⟩
    replace hs : s = System.initial cfg := hs
    subst hs
    exact ⟨fun _ _ hx => (nomatch hx), fun hsnap => nomatch hsnap⟩
  · rintro ⟨s, j⟩ l ⟨t, j'⟩ ⟨hreach, ha⟩ ⟨hreach', -⟩ h hok hstep
    obtain ⟨hstep, hnote⟩ := TransitionSystem.observe_step hstep
    change j' = j.note s l t at hnote
    subst hnote
    change s.step l = some t at hstep
    cases l with
    | run tid i =>
      obtain ⟨pc, r, hpc, hr, rfl⟩ := run_step hstep
      exact h.run hreach ha hpc hr hok.2 hstep hreach'
    | completed c i => exact h.completed hreach' hok.2 hstep
    | restart granted now => exact h.restart hstep
    | expire i =>
      have hsame : t.world.mem.executions = s.world.mem.executions := by
        cases hstep
        exact sweepExpired_executions i s.world
      exact h.quiet hreach' (step_changes rfl hstep) rfl hsame
    | closeTunnel | view =>
      refine h.quiet hreach' (step_changes rfl hstep) rfl ?_
      cases hstep
      rfl
    | call | sweep | evictLeases | recover | openTunnel =>
      refine h.quiet hreach' (step_changes rfl hstep) rfl ?_
      rw [System.spawn_world hstep]

-- ===== the theorem

/-- The execution whose stop completes in the section. -/
def Pc.stopCompletes (i : Input) : Pc cfg → Option GoString
  | .stopping _ _ id _ _ => if i.fault.isNone then some id else none
  | .evictStopping _ _ id _ _ | .recoverStopping _ id _ _ =>
    if i.fault.all fun f => f.err.is .runtimeMissing then some id else none
  | _ => none

def System.stopCompletes (s : System cfg) : Label cfg → Option GoString
  | .run tid i => (s.threads.lookup tid).bind (Pc.stopCompletes i)
  | _ => none

/-- A stop that completes ends a client's cancellation in CANCELLED. -/
theorem Attended.cancels (h : Attended s j) (hpc : s.threads.lookup tid = some pc)
    (hr : advance tid pc i s.world = some (w', next)) (hstop : pc.stopCompletes i = some id)
    (hx : s.world.mem.executions.lookup id = some x) (hphase : x.phase = .cancelling)
    (hcause : j.causes.lookup id = some .client) :
    ∃ x', w'.mem.executions.lookup id = some x' ∧ x'.phase = .cancelled := by
  have hlive : x.phase.terminal = false := by
    rw [hphase]
    rfl
  cases pc with
  | stopping e reason id' previous detail =>
    simp only [Pc.stopCompletes, Option.ite_none_right_eq_some, Option.isNone_iff_eq_none,
      Option.some.injEq] at hstop
    obtain ⟨hok, rfl⟩ := hstop
    obtain ⟨r, hfin, heq⟩ := Option.map_eq_some_iff.mp hr
    cases heq
    unfold cancelFinish at hfin
    rw [hx, hok] at hfin
    cases hfin
    show ∃ x', (tryPersist cfg i.saved _).1.mem.executions.lookup id' = some x' ∧ _
    rw [tryPersist_mem]
    refine ⟨_, (stopSucceeded_set hx i.now id').trans (if_pos rfl), ?_⟩
    rw [stopped_live hlive]
    rfl
  | evictStopping sweep err id' previous detail =>
    -- The record would have the lease for its cause.
    simp only [Pc.stopCompletes, Option.ite_none_right_eq_some, Option.some.injEq] at hstop
    obtain ⟨-, rfl⟩ := hstop
    obtain ⟨-, hlease, -⟩ := h.fits hpc rfl hx hlive
    rw [hcause] at hlease
    cases hlease
  | recoverStopping ids id' phase detail =>
    simp only [Pc.stopCompletes, Option.ite_none_right_eq_some, Option.some.injEq] at hstop
    obtain ⟨hok, rfl⟩ := hstop
    have hend : phase.1 = .cancelled := by
      rcases h.fits hpc rfl hx hlive with ⟨-, -, hend, -⟩ | ⟨hactive, -⟩
      · rcases h.mem id' x hx hphase with ⟨-, hother⟩ | ⟨hlease, -⟩
        · rw [hend, if_neg hother]
        · rw [hcause] at hlease
          cases hlease
      · exact absurd hphase hactive
    have hfault : (i.fault.filter fun f => !f.err.is .runtimeMissing) = none := by
      cases hf : i.fault with
      | none => rfl
      | some f =>
        rw [hf, Option.all_some] at hok
        simp [hok]
    have hworld : w' = (recoverStopped cfg i id' phase.1 detail s.world).1 := by
      rw [world_eq hr]
      unfold recoverStop
      rw [hfault]
      rfl
    rw [hworld]
    unfold recoverStopped
    rw [hx, tryPersist_mem]
    refine ⟨_, (stopSucceeded_set hx i.now id').trans (if_pos rfl), ?_⟩
    rw [stopped_live hlive]
    exact hend
  | _ => cases hstop

/-- In every run in the daemon's order in which nobody else uses the
eviction's text, an execution whose stop was a client's ended in
CANCELLED, one that is FAILED with that text was ended by a lease
eviction, and a client's stop that completes ends its execution. -/
theorem endings_tell_causes (cfg : Config) {s : System cfg × Journal}
    (hs : (journaled cfg).ReachWhen candid s) :
    (∀ k x, s.1.world.mem.executions.lookup k = some x → x.phase.terminal = true →
      ∃ ending, s.2.endings.lookup k = some ending ∧
        (ending = some .client → x.phase = .cancelled) ∧
        (x.phase = .failed → x.detail = leaseExpiredDetail → ending = some .lease)) ∧
    ∀ l t id x, s.1.step l = some t → s.1.stopCompletes l = some id →
      s.1.world.mem.executions.lookup id = some x → x.phase = .cancelling →
      s.2.causes.lookup id = some .client →
      ∃ x', t.world.mem.executions.lookup id = some x' ∧ x'.phase = .cancelled := by
  constructor
  · intro k x hx hend
    obtain ⟨ending, hending, hclient, hlease⟩ := (endInv_reachable hs).mem k x hx hend
    exact ⟨ending, hending, hclient, hlease⟩
  · intro l t id x hstep hstop hx hphase hcause
    cases l with
    | run tid i =>
      obtain ⟨pc, ⟨w', next⟩, hpc, hr, rfl⟩ := run_step hstep
      have hat : pc.stopCompletes i = some id := by
        simpa [System.stopCompletes, hpc] using hstop
      exact (attended_reachable (fun _ _ hok => hok.1) hs).cancels hpc hr hat hx hphase hcause
    | _ => cases hstop

-- ===== a borrowed reason

/-- A cancellation of the sample execution with a reason of the client's
choice, up to the runtime's stop. -/
def cancelWith (e : Inbound oneSlot) : List (Label oneSlot) :=
  [ .call 2 e, .run 2 { now := epoch }, .run 2 { now := epoch }, .run 2 { now := epoch } ]

/-- The eviction's text as a reason. -/
def borrowedCancel : Inbound oneSlot :=
  ⟨fromAlice (text "m3") (.executionCancel ⟨text "x", leaseExpiredDetail⟩), by decide +kernel⟩

/-- A restart and its recovery, whose stop goes through. -/
def recoverRun : List (Label oneSlot) :=
  [ .restart epoch epoch, .recover 3, .run 3 { now := epoch }, .run 3 { now := epoch },
    .run 3 { now := epoch } ]

/-- The crash comes between the two sections of a cancellation whose
reason is the eviction's text: the recovered execution is FAILED, as if
its lease had run out. -/
theorem reason_passes_for_eviction :
    ∃ s, (journaled oneSlot).ReachWhen
        (fun s l => s.1.served l = true ∧ l.plainReport = true) s ∧
      s.2.endings.lookup (text "x") = some (some .client) ∧
      ((s.1.world.mem.executions.lookup (text "x")).map fun x => (x.phase, x.detail))
        = some (.failed, leaseExpiredDetail) := by
  exact (journaled oneSlot).exists_reachWhen _ (.observe rfl)
    (requestRun ++ assignRun ++ answerRun 1 none ++ cancelWith borrowedCancel ++ recoverRun) _
    (by decide +kernel)

/-- With a reason of its own the same run ends in CANCELLED. -/
theorem recovered_cancellation_is_cancelled :
    ∃ s x, (journaled oneSlot).ReachWhen candid s ∧
      s.1.world.mem.executions.lookup (text "x") = some x ∧
      s.2.endings.lookup (text "x") = some (some .client) ∧ x.phase = .cancelled := by
  obtain ⟨s, hs, hp⟩ := (journaled oneSlot).exists_reachWhen candid (.observe rfl)
    (requestRun ++ assignRun ++ answerRun 1 none ++ cancelWith cancelCommand ++ recoverRun)
    (fun s => s.2.endings.lookup (text "x") = some (some .client) ∧
      (s.1.world.mem.executions.lookup (text "x")).any fun x => x.phase.terminal)
    (by decide +kernel)
  simp only [Option.any_eq_true] at hp
  obtain ⟨hending, x, hx, hend⟩ := hp
  obtain ⟨ending, hlookup, hclient, -⟩ := (endings_tell_causes oneSlot hs).1 _ x hx hend
  rw [hending] at hlookup
  exact ⟨s, x, hs, hx, hending, hclient (Option.some.inj hlookup).symm⟩

end R1s.Allocator
