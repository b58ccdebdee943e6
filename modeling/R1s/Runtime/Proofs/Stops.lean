/-
Stops against the completion monitor.

# Who speaks for an exit

A `stop` marks the entry before it kills; a monitor that finds the mark
leaves the exit to the stop and reports nothing. The mark is taken back
by a stop that gives up, but a monitor that has already looked does not
look again: an exit found under the mark of a stop that then gives up is
told to nobody. `swallowed_exit` is such a run.

# One entry at a time

`Desk` is what holds of one entry as long as no stop gives up on an exit
that was left to it, and the cleanup of such an exit succeeds. A step
changes one entry at most; `Tended.update` takes care of the others.
-/
import R1s.Runtime.Proofs.Coalescing

namespace R1s.Runtime

open Allocator (Fault)
open AList (lookup_insert)

variable {p : Platform} {m m' : Manager} {c c' : Call} {i : CallIn} {n n' : Notes}
  {l : ManagerLabel}

-- ===== stops under way

/-- The entry a stop has marked and waits for. -/
def Call.stops : Call → Option Nat
  | .killing q | .awaitingExit q => some q
  | _ => none

/-- A stop that marked the entry has not returned. -/
def Held (m : Manager) (q : Nat) : Prop := ∃ tid, (m.calls.lookup tid).bind Call.stops = some q

/-- A stop that worked on the entry returned nil. -/
def Returned (n : Notes) (q : Nat) : Prop := ∃ r ∈ n.returns, r.entry = q ∧ r.err = none

variable {q tid : Nat}

/-- A thread that held an entry still does after its section, or held
another one. -/
theorem Held.moved (h : Held m q) (hcalls : m'.calls = m.calls) (hc : m.calls.lookup tid = some c)
    (hkeep : c.stops = some q → c'.stops = some q) :
    Held { m' with calls := m'.calls.insert tid c' } q := by
  obtain ⟨t, ht⟩ := h
  refine ⟨t, ?_⟩
  simp only [hcalls, AList.lookup_insert_if]
  by_cases htid : t = tid
  · subst htid
    rw [hc] at ht
    rw [if_pos rfl]
    exact hkeep ht
  · rw [if_neg htid]
    exact ht

theorem held_insert (hc : c.stops = some q) : Held { m with calls := m.calls.insert tid c } q := by
  refine ⟨tid, ?_⟩
  rw [lookup_insert]
  exact hc

theorem Held.congr (h : Held m q) (hcalls : m'.calls = m.calls) : Held m' q := by
  obtain ⟨t, ht⟩ := h
  refine ⟨t, ?_⟩
  rw [hcalls]
  exact ht

theorem reported_call : (n.call m c c').reported = n.reported := by
  unfold Notes.call
  split
  · rfl
  · split <;> rfl
  · rfl

theorem cleaned_call : (n.call m c c').cleaned = n.cleaned := by
  unfold Notes.call
  split
  · rfl
  · split <;> rfl
  · rfl

variable {pc : MonitorPc}

theorem returns_watch : (n.watch q pc i).returns = n.returns := by
  unfold Notes.watch
  split
  · rfl
  · split <;> rfl
  · rfl

/-- The returns noted by a section of a call: one more when a stop that
works on an entry returns. -/
theorem returns_call (m : Manager) (n : Notes) (c c' : Call) :
    (n.call m c c').returns = n.returns
      ∨ ∃ q err, m.stopOf c = some q ∧ c' = .returned err
        ∧ (n.call m c c').returns = ⟨q, m.isDone q, err⟩ :: n.returns := by
  unfold Notes.call
  split
  · exact .inl rfl
  · split
    next q hq => exact .inr ⟨q, _, hq, rfl, rfl⟩
    · exact .inl rfl
  · exact .inl rfl

theorem Returned.call (h : Returned n q) : Returned (n.call m c c') q := by
  obtain ⟨r, hr, hq, herr⟩ := h
  refine ⟨r, ?_, hq, herr⟩
  rcases returns_call m n c c' with heq | ⟨_, _, _, _, heq⟩
  · rw [heq]
    exact hr
  · rw [heq]
    exact List.mem_cons_of_mem _ hr

-- ===== one entry

/-- The monitor has looked at the mark and has nothing left to report. -/
def MonitorPc.passed : MonitorPc → Bool
  | .cleaning | .closing _ => true
  | _ => false

/-- An entry between its stops and its monitor: a mark has a stop behind
it; an exit that was not reported was left to a mark that still stands,
and once the entry is done a stop returns nil for it or has done so. -/
structure Desk (e : Entry) (pc : Option MonitorPc) (held reported returned : Prop) : Prop where
  early : e.ready = false → e.finishing = false ∧ e.stopping = false ∧ e.done = false
  marked : e.stopping = true → e.done = false → held
  watching : pc = some .watching → e.finishing = false
  skipped : ¬reported → pc.any MonitorPc.passed = true →
    e.stopping = true ∧ e.finishing = true
  clean : ∀ {err}, ¬reported → pc = some (.closing err) → err = none
  done : e.done = true → ¬reported →
    e.finishing = true ∧ e.doneErr = none ∧ (held ∨ returned)

variable {e : Entry}

theorem Desk.mono {pc : Option MonitorPc} {held held' reported returned returned' : Prop}
    (h : Desk e pc held reported returned) (hheld : held → held') (hret : returned → returned') :
    Desk e pc held' reported returned' where
  early := h.early
  marked := fun hs hd => hheld (h.marked hs hd)
  watching := h.watching
  skipped := h.skipped
  clean := h.clean
  done := by
    intro hd hr
    obtain ⟨hf, herr, hor⟩ := h.done hd hr
    exact ⟨hf, herr, hor.imp hheld hret⟩

/-- Where the monitor of an entry stands. -/
def Manager.monitorPc (m : Manager) (q : Nat) : Option MonitorPc :=
  (m.monitors.lookup q).map Monitor.pc

/-- Every entry is tended. -/
def Tended (m : Manager) (n : Notes) : Prop :=
  ∀ q e, m.heap.lookup q = some e →
    Desk e (m.monitorPc q) (Held m q) (q ∈ n.reported) (Returned n q)

/-- A step at the entry `q`, the others being left alone. -/
theorem Tended.update (h : Tended m n) (hheap : ∀ q', q' ≠ q → m'.heap.lookup q' = m.heap.lookup q')
    (hpc : ∀ q', q' ≠ q → m'.monitorPc q' = m.monitorPc q')
    (hheld : ∀ q', q' ≠ q → Held m q' → Held m' q')
    (hrep : ∀ q', q' ≠ q → (q' ∈ n'.reported ↔ q' ∈ n.reported))
    (hret : ∀ q', Returned n q' → Returned n' q')
    (hq : ∀ {e'}, m'.heap.lookup q = some e' →
      Desk e' (m'.monitorPc q) (Held m' q) (q ∈ n'.reported) (Returned n' q)) :
    Tended m' n' := by
  intro q' e' he'
  by_cases hne : q' = q
  · subst hne
    exact hq he'
  · rw [hheap q' hne] at he'
    rw [hpc q' hne, propext (hrep q' hne)]
    exact (h q' e' he').mono (hheld q' hne) (hret q')

/-- A section that changes no entry, of a thread that keeps what it
holds. -/
theorem Tended.quiet (h : Tended m n) (hheap : m'.heap = m.heap)
    (hmonitors : m'.monitors = m.monitors) (hcalls : m'.calls = m.calls)
    (hc : m.calls.lookup tid = some c) (hkeep : ∀ {q}, c.stops = some q → c'.stops = some q) :
    Tended { m' with calls := m'.calls.insert tid c' } (n.call m c c') := by
  intro q e he
  simp only [hheap] at he
  have hpc : ({ m' with calls := m'.calls.insert tid c' } : Manager).monitorPc q
      = m.monitorPc q := by
    simp only [Manager.monitorPc, hmonitors]
  rw [hpc, reported_call]
  exact (h q e he).mono (fun hh => hh.moved hcalls hc hkeep) Returned.call

-- ===== the guard

/-- No stop gives up on an exit that its monitor has already seen, and
the cleanup of an exit that was left to a stop succeeds. -/
def Manager.steadfast (m : Manager) : ManagerLabel → Bool
  | .call tid i =>
    match m.calls.lookup tid with
    | some (.killing q) => !(m.heap.lookup q).any Entry.finishing || i.problem.isNone
    | some (.awaitingExit q) => !(m.heap.lookup q).any Entry.finishing || !i.cancelled
    | _ => true
  | .watch q _ _ _ i =>
    match m.monitorPc q with
    | some .cleaning => !(m.heap.lookup q).any Entry.stopping || i.problem.isNone
    | _ => true
  | _ => true

theorem fault_eq_none : i.fault [] = none ↔ i.problem = none := by
  simp [CallIn.fault]

variable {f : Fault}

theorem steadfast_kill (hok : m.steadfast (.call tid i) = true)
    (hc : m.calls.lookup tid = some (.killing q)) (he : m.heap.lookup q = some e)
    (hf : i.fault [] = some f) : e.finishing = false := by
  have hproblem : i.problem ≠ none := by
    intro hnone
    rw [fault_eq_none.mpr hnone] at hf
    cases hf
  simpa [Manager.steadfast, hc, he, hproblem] using hok

theorem steadfast_wait (hok : m.steadfast (.call tid i) = true)
    (hc : m.calls.lookup tid = some (.awaitingExit q)) (he : m.heap.lookup q = some e)
    (hcancel : i.cancelled = true) : e.finishing = false := by
  simpa [Manager.steadfast, hc, he, hcancel] using hok

variable {err : Option Fault}

theorem steadfast_cleanup {code : UInt32} {report : CallIn}
    (hok : m.steadfast (.watch q code err report i) = true) (hpc : m.monitorPc q = some .cleaning)
    (he : m.heap.lookup q = some e) (hf : i.fault [] = some f) : e.stopping = false := by
  have hproblem : i.problem ≠ none := by
    intro hnone
    rw [fault_eq_none.mpr hnone] at hf
    cases hf
  simpa [Manager.steadfast, hpc, he, hproblem] using hok

-- ===== the steps

theorem monitorPc_eq_none (hm : MgrInv m) (hq : m.heap.lookup q = none) : m.monitorPc q = none := by
  cases hmon : m.monitors.lookup q with
  | none => simp [Manager.monitorPc, hmon]
  | some mon =>
    obtain ⟨e, he, _⟩ := hm.watch hmon
    rw [hq] at he
    cases he

/-- A stop gives up: the entry is not done and its monitor has not looked
yet, so that it will report. -/
theorem Tended.unmarked {failure : Option Fault} (h : Tended m n)
    (hc : m.calls.lookup tid = some c) (hstops : c.stops = some q) (he : m.heap.lookup q = some e)
    (hfin : e.finishing = false) :
    Tended
      { m.unmark q e failure with
        calls := (m.unmark q e failure).calls.insert tid (.returned (some f)) }
      (n.call m c (.returned (some f))) := by
  have hd := h q e he
  have hother : ∀ q', q' ≠ q → Held m q' →
      Held { m.unmark q e failure with
        calls := (m.unmark q e failure).calls.insert tid (.returned (some f)) } q' := by
    intro q' hne hheld
    refine hheld.moved unmark_calls hc ?_
    intro hs
    rw [hstops] at hs
    cases hs
    exact absurd rfl hne
  by_cases hdone : e.done = true
  · -- A done entry that was not reported has its monitor's mark set.
    by_cases hrep : q ∈ n.reported
    · have hsame : m.unmark q e failure = m := by rw [Manager.unmark, if_pos hdone]
      rw [hsame] at hother ⊢
      refine h.update (q := q) (fun _ _ => rfl) (fun _ _ => rfl) hother
        (fun _ _ => by rw [reported_call]) (fun _ => Returned.call) ?_
      intro e' he'
      cases he.symm.trans he'
      rw [reported_call]
      exact
        { hd with
          marked := fun _ hnd => by rw [hdone] at hnd; cases hnd
          skipped := fun hno => absurd hrep hno
          clean := fun hno => absurd hrep hno
          done := fun _ hno => absurd hrep hno }
    · obtain ⟨hfinishing, _⟩ := hd.done hdone hrep
      rw [hfin] at hfinishing
      cases hfinishing
  · have hset : m.unmark q e failure
        = m.setEntry q { e with stopping := false, stopFailure := failure } := by
      rw [Manager.unmark, if_neg hdone]
    rw [hset] at hother ⊢
    refine h.update (q := q) (fun q' hne => lookup_setEntry hne) (fun _ _ => rfl) hother
      (fun _ _ => by rw [reported_call]) (fun _ => Returned.call) ?_
    intro e' he'
    rw [Manager.setEntry, lookup_insert] at he'
    cases he'
    rw [reported_call]
    exact
      { early := fun hr => ⟨hfin, rfl, (hd.early hr).2.2⟩
        marked := by rintro ⟨⟩
        watching := fun _ => hfin
        skipped := by
          intro hno hpassed
          obtain ⟨_, hfinishing⟩ := hd.skipped hno hpassed
          rw [hfin] at hfinishing
          cases hfinishing
        clean := hd.clean
        done := fun hd' => absurd hd' hdone }

/-- A stop returns what the monitor stored. -/
theorem Tended.exited (h : Tended m n) (hc : m.calls.lookup tid = some (.awaitingExit q))
    (he : m.heap.lookup q = some e) (hdone : e.done = true) :
    Tended { m with calls := m.calls.insert tid (.returned e.doneErr) }
      (n.call m (.awaitingExit q) (.returned e.doneErr)) := by
  have hd := h q e he
  refine h.update (q := q) (fun _ _ => rfl) (fun _ _ => rfl) ?_
    (fun _ _ => by rw [reported_call]) (fun _ => Returned.call) ?_
  · intro q' hne hheld
    refine hheld.moved rfl hc ?_
    rintro ⟨⟩
    exact absurd rfl hne
  · intro e' he'
    cases he.symm.trans he'
    rw [reported_call]
    exact
      { hd with
        marked := fun _ hnd => by rw [hdone] at hnd; cases hnd
        done := by
          intro _ hno
          obtain ⟨hfin, herr, _⟩ := hd.done hdone hno
          refine ⟨hfin, herr, .inr ⟨⟨q, m.isDone q, e.doneErr⟩, ?_, rfl, herr⟩⟩
          exact List.mem_cons_self }

/-- The entry of a start that ends. -/
theorem Tended.readied {id : GoString} {entries : FMap GoString Nat} {monitors : FMap Nat Monitor}
    (h : Tended m n) (hc : m.calls.lookup tid = some (.launched id q err))
    (he : m.heap.lookup q = some e) (hearly : e.ready = false)
    (hmonitors : monitors = m.monitors ∨ monitors = m.monitors.insert q ⟨id, .watching⟩) :
    Tended
      { m.setEntry q { e with ready := true, startErr := err } with
        entries := entries, monitors := monitors,
        calls := m.calls.insert tid (.returned err) }
      (n.call m (.launched id q err) (.returned err)) := by
  have hd := h q e he
  obtain ⟨hfin, hstop, hnd⟩ := hd.early hearly
  refine h.update (q := q) (fun q' hne => lookup_setEntry hne) ?_ ?_
    (fun _ _ => by rw [reported_call]) (fun _ => Returned.call) ?_
  · intro q' hne
    rcases hmonitors with rfl | rfl
    · rfl
    · simp only [Manager.monitorPc, AList.lookup_insert_ne hne]
  · intro q' hne hheld
    exact (hheld.moved (rfl : m.calls = m.calls) hc (by rintro ⟨⟩)).congr rfl
  · intro e' he'
    simp only [Manager.setEntry, lookup_insert] at he'
    cases he'
    rw [reported_call]
    refine ⟨(by rintro ⟨⟩), ?_, fun _ => hfin, ?_, ?_, ?_⟩
    · intro hs
      rw [hstop] at hs
      cases hs
    · intro hno hpassed
      rcases hmonitors with rfl | rfl
      · exact hd.skipped hno hpassed
      · simp only [Manager.monitorPc, lookup_insert] at hpassed
        cases hpassed
    · intro err' hno hclosing
      rcases hmonitors with rfl | rfl
      · exact hd.clean hno hclosing
      · simp only [Manager.monitorPc, lookup_insert] at hclosing
        cases hclosing
    · intro hdone
      rw [hnd] at hdone
      cases hdone

/-- A section of a call, within the guard. -/
theorem Tended.call (h : Tended m n) (hm : MgrInv m) (hok : m.steadfast (.call tid i) = true)
    (hc : m.calls.lookup tid = some c) (hstep : CallStep p m i c m' c') :
    Tended { m' with calls := m'.calls.insert tid c' } (n.call m c c') := by
  have hlaunch : ∀ {id q err}, c = .launched id q err →
      ∃ e, m.heap.lookup q = some e ∧ e.ready = false := by
    rintro id q err rfl
    have hbind : (m.calls.lookup tid).bind Call.launchOf = some (id, q) := by
      rw [hc]
      rfl
    obtain ⟨e, he, hready, _⟩ := hm.launch hbind
    exact ⟨e, he, hready⟩
  cases hstep with
  | claimed _ _ =>
    refine h.update (q := m.fresh) (fun q' hne => AList.lookup_insert_ne hne) (fun _ _ => rfl)
      (fun q' _ hheld => (hheld.moved (rfl : m.calls = m.calls) hc (by rintro ⟨⟩)).congr rfl)
      (fun _ _ => by rw [reported_call]) (fun _ => Returned.call) ?_
    intro e' he'
    simp only [lookup_insert] at he'
    cases he'
    have hnone : m.heap.lookup m.fresh = none := by
      cases hq : m.heap.lookup m.fresh with
      | none => rfl
      | some e => exact absurd (hm.fresh hq) (Nat.lt_irrefl _)
    have hpc := monitorPc_eq_none hm hnone
    refine ⟨fun _ => ⟨rfl, rfl, rfl⟩, (by rintro ⟨⟩), fun _ => rfl, ?_, ?_, (by rintro ⟨⟩)⟩
    · intro _ hpassed
      replace hpassed : (m.monitorPc m.fresh).any MonitorPc.passed = true := hpassed
      rw [hpc] at hpassed
      cases hpassed
    · intro err _ hclosing
      replace hclosing : m.monitorPc m.fresh = some (.closing err) := hclosing
      rw [hpc] at hclosing
      cases hclosing
  | failed he =>
    obtain ⟨e, he', hearly⟩ := hlaunch rfl
    cases he.symm.trans he'
    exact h.readied hc he hearly (.inl rfl)
  | started he =>
    obtain ⟨e, he', hearly⟩ := hlaunch rfl
    cases he.symm.trans he'
    exact h.readied hc he hearly (.inr rfl)
  | @marked id q e hentry hready hdone hfin =>
    have he := (entry_some hentry).2
    have hd := h q e he
    refine h.update (q := q) (fun q' hne => lookup_setEntry hne) (fun _ _ => rfl)
      (fun q' _ hheld => hheld.moved rfl hc (by rintro ⟨⟩)) (fun _ _ => by rw [reported_call])
      (fun _ => Returned.call) ?_
    intro e' he'
    simp only [Manager.setEntry, lookup_insert] at he'
    cases he'
    rw [reported_call]
    refine ⟨?_, fun _ _ => held_insert rfl, fun _ => hfin, ?_, hd.clean, ?_⟩
    · intro hr
      rw [hready] at hr
      cases hr
    · intro hno hpassed
      exact ⟨rfl, (hd.skipped hno hpassed).2⟩
    · intro hdone'
      rw [hdone] at hdone'
      cases hdone'
  | unkilled he hf => exact h.unmarked hc rfl he (steadfast_kill hok hc he hf)
  | gaveUp he hcancel => exact h.unmarked hc rfl he (steadfast_wait hok hc he hcancel)
  | exited he hdone => exact h.exited hc he hdone
  | killed => exact h.quiet rfl rfl rfl hc id
  | left _ hwait =>
    refine h.quiet rfl rfl rfl hc ?_
    rcases hwait with rfl | ⟨id, rfl⟩ | rfl <;> rintro _ ⟨⟩
  | _ => exact h.quiet rfl rfl rfl hc (by rintro _ ⟨⟩)

variable {mon : Monitor} {q' : Nat}

theorem monitorPc_insert :
    ({ m with monitors := m.monitors.insert q mon } : Manager).monitorPc q'
      = if q' = q then some mon.pc else m.monitorPc q' := by
  rw [Manager.monitorPc, AList.lookup_insert_if]
  split <;> rfl

theorem reported_watch (hne : q' ≠ q) : q' ∈ (n.watch q pc i).reported ↔ q' ∈ n.reported := by
  unfold Notes.watch
  split
  · simp [hne]
  · split <;> rfl
  · rfl

theorem Returned.watch (h : Returned n q') : Returned (n.watch q pc i) q' := by
  obtain ⟨r, hr, hq⟩ := h
  refine ⟨r, ?_, hq⟩
  rw [returns_watch]
  exact hr

/-- A monitor moves on from `pc`, the entry being left alone. -/
theorem Tended.passed {tasks : FMap GoString Task} (h : Tended m n) (he : m.heap.lookup q = some e)
    (hdesk : Desk e (some mon.pc) (Held m q) (q ∈ (n.watch q pc i).reported) (Returned n q)) :
    Tended { m with tasks := tasks, monitors := m.monitors.insert q mon } (n.watch q pc i) := by
  refine h.update (q := q) (fun _ _ => rfl) ?_ (fun _ _ hh => hh.congr rfl)
    (fun _ hne => reported_watch hne) (fun _ => Returned.watch) ?_
  · intro q' hne
    exact (monitorPc_insert (m := m)).trans (if_neg hne)
  · intro e' he'
    cases he.symm.trans he'
    have hnew : ({ m with tasks := tasks, monitors := m.monitors.insert q mon } :
        Manager).monitorPc q = some mon.pc := (monitorPc_insert (m := m)).trans (if_pos rfl)
    rw [hnew]
    exact hdesk.mono (fun hh => hh.congr rfl) Returned.watch

/-- The monitor looks at the mark. -/
theorem Tended.observed {detail : GoString} {exitCode : Int} (h : Tended m n)
    (he : m.heap.lookup q = some e) (hready : e.ready = true) (hnd : e.done = false) :
    Tended
      { m.setEntry q { e with finishing := true } with
        monitors := m.monitors.insert q
          { mon with pc := if e.stopping then .cleaning else .reporting err detail exitCode } }
      (n.watch q .watching i) := by
  have hd := h q e he
  refine h.update (q := q) (fun q' hne => lookup_setEntry hne) ?_ (fun _ _ hh => hh.congr rfl)
    (fun _ hne => reported_watch hne) (fun _ => Returned.watch) ?_
  · intro q' hne
    exact (monitorPc_insert (m := m)).trans (if_neg hne)
  · intro e' he'
    simp only [Manager.setEntry, lookup_insert] at he'
    cases he'
    simp only [Manager.monitorPc, lookup_insert, Option.map_some]
    refine ⟨?_, ?_, ?_, ?_, ?_, ?_⟩
    · intro hr
      rw [hready] at hr
      cases hr
    · intro hs _
      exact (hd.marked hs hnd).congr rfl
    · intro hw
      split at hw <;> cases hw
    · intro _ hpassed
      split at hpassed
      next hs => exact ⟨hs, rfl⟩
      · cases hpassed
    · intro err' _ hclosing
      split at hclosing <;> cases hclosing
    · intro hdone
      rw [hnd] at hdone
      cases hdone

/-- The monitor closes the entry. -/
theorem Tended.finished (h : Tended m n) (he : m.heap.lookup q = some e) (hready : e.ready = true)
    (hnd : e.done = false) (hpc : m.monitorPc q = some (.closing err)) :
    Tended
      { m.setEntry q { e with doneErr := err, done := true } with
        monitors := m.monitors.erase q }
      (n.watch q (.closing err) i) := by
  have hd := h q e he
  rw [hpc] at hd
  refine h.update (q := q) (fun q' hne => lookup_setEntry hne) ?_ (fun _ _ hh => hh.congr rfl)
    (fun _ hne => reported_watch hne) (fun _ => Returned.watch) ?_
  · intro q' hne
    simp only [Manager.monitorPc, AList.lookup_erase_ne hne]
  · intro e' he'
    simp only [Manager.setEntry, lookup_insert] at he'
    cases he'
    simp only [Manager.monitorPc, AList.lookup_erase, Option.map_none]
    refine ⟨?_, (by rintro _ ⟨⟩), (by rintro ⟨⟩), (by rintro _ ⟨⟩), (by rintro _ _ ⟨⟩), ?_⟩
    · intro hr
      rw [hready] at hr
      cases hr
    · intro _ hno
      obtain ⟨hs, hfin⟩ := hd.skipped hno rfl
      exact ⟨hfin, hd.clean hno rfl, .inl ((hd.marked hs hnd).congr rfl)⟩

/-- A section of a monitor, within the guard. -/
theorem Tended.watch {code : UInt32} {report : CallIn} (h : Tended m n) (hm : MgrInv m)
    (hok : m.steadfast (.watch q code err report i) = true)
    (hmon : m.monitors.lookup q = some mon) (hstep : MonitorStep m q report i mon.pc m') :
    Tended m' (n.watch q mon.pc i) := by
  obtain ⟨e, he, hready, hnd, _⟩ := hm.watch hmon
  have hd := h q e he
  have hpc : m.monitorPc q = some mon.pc := by
    rw [Manager.monitorPc, hmon]
    rfl
  rw [hpc] at hd
  generalize mon.pc = pc at hstep hpc hd
  cases hstep with
  | observed hmon' he' =>
    cases he.symm.trans he'
    exact h.observed he hready hnd
  | @reported _ err₁ detail exitCode _ =>
    have hin : q ∈ (n.watch q (.reporting err₁ detail exitCode) i).reported :=
      List.mem_cons_self
    refine h.passed he ⟨hd.early, hd.marked, ?_, fun hno => absurd hin hno,
      fun hno => absurd hin hno, fun _ hno => absurd hin hno⟩
    intro hw
    split at hw <;> cases hw
  | uncleaned _ hf =>
    -- The mark is down, so the exit was reported.
    have hstop := steadfast_cleanup hok hpc he hf
    have hrep : q ∈ n.reported := by
      by_contra hno
      obtain ⟨hs, _⟩ := hd.skipped hno rfl
      rw [hstop] at hs
      cases hs
    have hin : q ∈ (n.watch q .cleaning i).reported := by
      rw [Notes.watch, hf]
      exact hrep
    exact h.passed he ⟨hd.early, hd.marked, (by rintro ⟨⟩), fun hno => absurd hin hno,
      fun hno => absurd hin hno, fun _ hno => absurd hin hno⟩
  | cleaned _ hf =>
    have hsame : (n.watch q .cleaning i).reported = n.reported := by
      rw [Notes.watch, hf]
      rfl
    refine h.passed he ?_
    rw [hsame]
    refine ⟨hd.early, hd.marked, (by rintro ⟨⟩), fun hno _ => hd.skipped hno rfl, ?_, ?_⟩
    · intro err' _ hclosing
      cases hclosing
      rfl
    · intro hdone
      rw [hnd] at hdone
      cases hdone
  | finished he' =>
    cases he.symm.trans he'
    exact h.finished he hready hnd hpc

theorem tended_step (h : Tended m n) (hm : MgrInv m) (hok : m.steadfast l = true)
    (hstep : NotedStep p m n l m' n') : Tended m' n' := by
  cases hstep with
  | @begin tid c hbegins hnew =>
    intro q e he
    refine (h q e he).mono ?_ id
    rintro ⟨t, ht⟩
    refine ⟨t, ?_⟩
    have hne : t ≠ tid := by
      rintro rfl
      rw [hnew] at ht
      cases ht
    rw [AList.lookup_insert_ne hne]
    exact ht
  | call hc hstep => exact h.call hm hok hc hstep
  | exit | close => exact fun q e he => (h q e he).mono (fun hh => hh.congr rfl) id
  | watch hmon hstep => exact h.watch hm hok hmon hstep

theorem tended_reachable {s : Manager × Notes}
    (h : (noted p).ReachWhen (fun s l => s.1.steadfast l = true) s) : Tended s.1 s.2 := by
  refine TransitionSystem.ReachWhen.invariant_with (J := fun s => MgrInv s.1)
    (I := fun s => Tended s.1 s.2) (fun _ => mgrInv_noted) ?_ ?_ h
  · rintro ⟨m, n⟩ ⟨hm, _⟩
    replace hm : m = .empty := hm
    subst hm
    rintro _ _ ⟨⟩
  · intro s l t hm _ hs hok hstep
    exact tended_step hs hm hok (noted_step hstep)

-- ===== exits are told

/-- In every run in which no stop gives up on an exit that its monitor
has already seen, and cleanups of exits left to a stop succeed: whenever
a started process has exited and its monitor has finished, the exit was
reported, a stop that worked on it returned nil, or one that waits for
it has not returned yet. -/
theorem exits_are_told (p : Platform) {s : Manager × Notes}
    (h : (noted p).ReachWhen (fun s l => s.1.steadfast l = true) s) {q : Nat} {e : Entry}
    (he : s.1.heap.lookup q = some e) (hdone : e.done = true) :
    q ∈ s.2.reported ∨ Returned s.2 q ∨ Held s.1 q := by
  by_cases hrep : q ∈ s.2.reported
  · exact .inl hrep
  · obtain ⟨_, _, hor⟩ := (tended_reachable h q e he).done hdone hrep
    exact .inr hor.symm

/-- A start that succeeds. -/
def startedRun : List ManagerLabel :=
  [ .begin 0 (.claiming false sampleStart), .call 0 {}, .call 0 {}, .call 0 {} ]

/-- A section of the monitor of the first entry that goes well. -/
def watchOn : ManagerLabel := .watch 0 0 none {} {}

/-- A stop marks the entry; the task ends and the monitor leaves the exit
to the mark; the kill then fails, and the stop with it. -/
def swallowedRun : List ManagerLabel :=
  startedRun ++ [ .begin 1 (.looking (text "x")), .call 1 {}, .exit (text "x"), watchOn,
    .call 1 { problem := some (text "kill failed") }, watchOn, watchOn ]

def Call.over : Call → Bool
  | .returned _ => true
  | _ => false

/-- Every call has returned. -/
def Manager.idle (m : Manager) : Bool := !m.calls.any fun _ c => !c.over

theorem over_of_idle (h : m.idle = true) (hc : m.calls.lookup tid = some c) : c.over = true := by
  by_contra hno
  have hany : m.calls.any (fun _ c => !c.over) = true :=
    AList.any_eq_true.mpr ⟨tid, c, hc, by simpa using hno⟩
  rw [Manager.idle, hany] at h
  cases h

/-- An exit that nobody was told of: the monitor has finished, nothing
was reported, every call has returned, and the one stop returned the
error of its kill. -/
theorem swallowed_exit :
    ∃ s, (noted samplePlatform).Reach s ∧ s.1.isDone 0 = true ∧ s.2.reported = []
      ∧ s.2.returns = [⟨0, false, some ⟨[], text "kill failed"⟩⟩]
      ∧ ∀ tid c, s.1.calls.lookup tid = some c → c.over = true := by
  obtain ⟨s, hs, hp⟩ := (noted samplePlatform).exists_reach (.observe rfl) swallowedRun
    (fun s => s.1.isDone 0 ∧ s.2.reported = [] ∧
      s.2.returns = [⟨0, false, some ⟨[], text "kill failed"⟩⟩] ∧ s.1.idle)
    (by decide +kernel)
  obtain ⟨hdone, hrep, hret, hidle⟩ := hp
  exact ⟨s, hs, hdone, hrep, hret, fun tid c hc => over_of_idle hidle hc⟩

/-- A stop whose kill fails before the task ends; the exit is reported
after it. -/
def toldRun : List ManagerLabel :=
  startedRun ++ [ .begin 1 (.looking (text "x")), .call 1 {},
    .call 1 { problem := some (text "kill failed") }, .exit (text "x"), watchOn, watchOn,
    watchOn, watchOn ]

/-- The exit of a process whose only stop failed was reported. -/
theorem failed_stop_leaves_the_report :
    ∃ s, (noted samplePlatform).ReachWhen (fun s l => s.1.steadfast l = true) s
      ∧ s.2.returns = [⟨0, false, some ⟨[], text "kill failed"⟩⟩]
      ∧ (0 ∈ s.2.reported ∨ Returned s.2 0 ∨ Held s.1 0) := by
  obtain ⟨s, hs, hp⟩ := (noted samplePlatform).exists_reachWhen
    (fun s l => s.1.steadfast l = true) (.observe rfl) toldRun
    (fun s => s.1.isDone 0 ∧ s.2.returns = [⟨0, false, some ⟨[], text "kill failed"⟩⟩])
    (by decide +kernel)
  obtain ⟨hdone, hret⟩ := hp
  obtain ⟨e, he, hd⟩ := (Option.any_eq_true _ _).mp hdone
  exact ⟨s, hs, hret, exits_are_told samplePlatform hs he hd⟩

end R1s.Runtime
