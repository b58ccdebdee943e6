/-
What each section of a runtime call and of a monitor does, exactly.

`CallStep` keeps of a section what the manager becomes, field by field,
and the input that decided it: the invariants about marks, results and
start errors read nothing of the code but this relation and
`MonitorStep`. `step_cases` puts the two together with the steps that
touch no entry.
-/
import R1s.Runtime.Machine
import R1s.Runtime.Proofs.Manager

namespace R1s.Runtime

open Allocator (Fault)
open Option (bind_eq_some_iff map_eq_some_iff)

variable {p : Platform} {m m' : Manager} {c c' : Call} {i : CallIn}

-- ===== calls

/-- What a section of a call does. -/
inductive CallStep (p : Platform) (m : Manager) (i : CallIn) : Call → Manager → Call → Prop
  | refused {recover request f} : CallStep p m i (.claiming recover request) m (.returned (some f))
  | joined {recover request q e} (h : m.entry request.executionID = some (q, e)) :
      CallStep p m i (.claiming recover request) m (.awaitingReady q)
  | claimed {recover request fingerprint} (hprep : prepareExecution p request = .ok fingerprint)
      (hfree : m.entry request.executionID = none) :
      CallStep p m i (.claiming recover request)
        { m with
          entries := m.entries.insert request.executionID m.fresh,
          heap := m.heap.insert m.fresh { fingerprint := fingerprint },
          fresh := m.fresh + 1 }
        (.launching recover request.executionID m.fresh)
  | asked {recover id q tasks err} :
      CallStep p m i (.launching recover id q) { m with tasks := tasks } (.launched id q err)
  | failed {id q f e} (he : m.heap.lookup q = some e) :
      CallStep p m i (.launched id q (some f))
        { m.setEntry q { e with ready := true, startErr := some f } with
          entries := m.entries.erase id }
        (.returned (some f))
  | started {id q e} (he : m.heap.lookup q = some e) :
      CallStep p m i (.launched id q none)
        { m.setEntry q { e with ready := true, startErr := none } with
          monitors := m.monitors.insert q ⟨id, .watching⟩ }
        (.returned none)
  | answered {q e} (he : m.heap.lookup q = some e) (hready : e.ready = true) :
      CallStep p m i (.awaitingReady q) m (.returned e.startErr)
  | left {c q} (hcancel : i.cancelled = true)
      (hc : c = .awaitingReady q ∨ (∃ id, c = .awaitingStart id q) ∨ c = .awaitingMonitor q) :
      CallStep p m i c m (.returned (some contextErr))
  | unseen {id f} (hwhy : blank id = true ∨ m.closed = true) :
      CallStep p m i (.looking id) m (.returned (some f))
  | absent {id} (h : m.entry id = none) : CallStep p m i (.looking id) m (.stoppingTask id)
  | early {id q e} (h : m.entry id = some (q, e)) :
      CallStep p m i (.looking id) m (.awaitingStart id q)
  | settled {id q e} (h : m.entry id = some (q, e)) (hdone : e.done = true) :
      CallStep p m i (.looking id) m (.returned none)
  | finishing {id q e} (h : m.entry id = some (q, e)) :
      CallStep p m i (.looking id) m (.awaitingMonitor q)
  | marked {id q e} (h : m.entry id = some (q, e)) (hready : e.ready = true)
      (hdone : e.done = false) (hfin : e.finishing = false) :
      CallStep p m i (.looking id)
        (m.setEntry q { e with stopping := true, stopFailure := none }) (.killing q)
  | unstopped {id f} : CallStep p m i (.stoppingTask id) m (.returned (some f))
  | stopped {id} :
      CallStep p m i (.stoppingTask id) { m with tasks := m.tasks.erase id } (.returned none)
  | again {id q} : CallStep p m i (.awaitingStart id q) m (.looking id)
  | watched {q e} (he : m.heap.lookup q = some e) (hdone : e.done = true) :
      CallStep p m i (.awaitingMonitor q) m (.returned none)
  | unkilled {q e f} (he : m.heap.lookup q = some e) (hf : i.fault [] = some f) :
      CallStep p m i (.killing q) (m.unmark q e e.stopFailure) (.returned (some f))
  | killed {q} : CallStep p m i (.killing q) m (.awaitingExit q)
  | gaveUp {q e} (he : m.heap.lookup q = some e) (hcancel : i.cancelled = true) :
      CallStep p m i (.awaitingExit q) (m.unmark q e (some contextErr))
        (.returned (some contextErr))
  | exited {q e} (he : m.heap.lookup q = some e) (hdone : e.done = true) :
      CallStep p m i (.awaitingExit q) m (.returned e.doneErr)
  | unforgotten {id err} : CallStep p m i (.forgetting id) m (.returned err)
  | forgot {id q e} (h : m.entry id = some (q, e)) (hdone : e.done = true) :
      CallStep p m i (.forgetting id) { m with entries := m.entries.erase id } (.returned none)

theorem claim_step (recover : Bool) (request : StartRequest) :
    CallStep p m i (.claiming recover request) (m.claim p recover request).1
      (m.claim p recover request).2 := by
  unfold Manager.claim
  split
  · exact .refused
  rename_i fingerprint hprep
  by_cases hclosed : m.closed = true
  · rw [if_pos hclosed]
    exact .refused
  · rw [if_neg hclosed]
    split
    next q e he =>
      split
      · exact .refused
      · exact .joined he
    next hfree => exact .claimed hprep hfree

variable {q : Nat}

theorem launch_step {recover : Bool} {id : GoString} (h : m.launch recover id q i = some (m', c')) :
    CallStep p m i (.launching recover id q) m' c' := by
  obtain ⟨tasks, err, rfl, rfl⟩ := launch_eq h
  exact .asked

variable {err : Option Fault}

theorem finishStart_step {id : GoString} (h : m.finishStart id q err = some (m', c')) :
    CallStep p m i (.launched id q err) m' c' := by
  obtain ⟨e, he, heq⟩ := map_eq_some_iff.mp h
  cases err with
  | some f =>
    cases heq
    exact .failed he
  | none =>
    cases heq
    exact .started he

theorem look_step (id : GoString) : CallStep p m i (.looking id) (m.look id).1 (m.look id).2 := by
  unfold Manager.look
  by_cases hblank : blank id = true
  · rw [if_pos hblank]
    exact .unseen (.inl hblank)
  rw [if_neg hblank]
  by_cases hclosed : m.closed = true
  · rw [if_pos hclosed]
    exact .unseen (.inr hclosed)
  rw [if_neg hclosed]
  split
  next hfree => exact .absent hfree
  rename_i q e he
  split
  · exact .early he
  rename_i hready
  split
  next hdone => exact .settled he hdone
  rename_i hdone
  split
  · exact .finishing he
  next hfin =>
    exact .marked he (by simpa using hready) (by simpa using hdone) (by simpa using hfin)

theorem stopTask_step (id : GoString) :
    CallStep p m i (.stoppingTask id) (m.stopTask id i).1 (m.stopTask id i).2 := by
  unfold Manager.stopTask
  split
  · exact .unstopped
  · exact .stopped

theorem kill_step (h : m.kill q i = some (m', c')) : CallStep p m i (.killing q) m' c' := by
  obtain ⟨e, he, heq⟩ := map_eq_some_iff.mp h
  split at heq
  next f hf =>
    cases heq
    exact .unkilled he hf
  · cases heq
    exact .killed

theorem waitExit_step (h : m.waitExit q i = some (m', c')) :
    CallStep p m i (.awaitingExit q) m' c' := by
  obtain ⟨e, he, heq⟩ := bind_eq_some_iff.mp h
  split at heq
  next hcancel =>
    cases heq
    exact .gaveUp he hcancel
  split at heq
  next hdone =>
    cases heq
    exact .exited he hdone
  · cases heq

theorem forget_step (id : GoString) :
    CallStep p m i (.forgetting id) (m.forget id i).1 (m.forget id i).2 := by
  unfold Manager.forget
  split
  · exact .unforgotten
  split
  · exact .unforgotten
  rename_i q e he
  split
  · exact .unforgotten
  next hdone =>
    split
    · exact .unforgotten
    · exact .forgot he (by simpa using hdone)

/-- A wait for a flag of an entry: it returns when the caller's context
has ended or the flag is up. -/
theorem wait_cases {flag : Entry → Bool} {next : Entry → Call}
    (h : (if i.cancelled then some (.returned (some contextErr))
      else (m.heap.lookup q).bind fun e => if flag e then some (next e) else none) = some c') :
    i.cancelled = true ∧ c' = .returned (some contextErr)
      ∨ ∃ e, m.heap.lookup q = some e ∧ flag e = true ∧ c' = next e := by
  split at h
  next hcancel =>
    cases h
    exact .inl ⟨hcancel, rfl⟩
  obtain ⟨e, he, heq⟩ := bind_eq_some_iff.mp h
  split at heq
  next hflag =>
    cases heq
    exact .inr ⟨e, he, hflag, rfl⟩
  · cases heq

/-- A section of a call is one of `CallStep`. -/
theorem advance_step (h : m.advance p c i = some (m', c')) : CallStep p m i c m' c' := by
  have hpair : ∀ {r : Manager × Call}, CallStep p m i c r.1 r.2 → some r = some (m', c') →
      CallStep p m i c m' c' := by
    intro r hstep hr
    cases hr
    exact hstep
  cases c with
  | claiming recover request => exact hpair (claim_step recover request) h
  | launching recover id q => exact launch_step h
  | launched id q err => exact finishStart_step h
  | awaitingReady q =>
    obtain ⟨c'', hc, heq⟩ := map_eq_some_iff.mp h
    cases heq
    rcases wait_cases hc with ⟨hcancel, rfl⟩ | ⟨e, he, hready, rfl⟩
    · exact .left hcancel (.inl rfl)
    · exact .answered he hready
  | looking id => exact hpair (look_step id) h
  | stoppingTask id => exact hpair (stopTask_step id) h
  | awaitingStart id q =>
    obtain ⟨c'', hc, heq⟩ := map_eq_some_iff.mp h
    cases heq
    rcases wait_cases hc with ⟨hcancel, rfl⟩ | ⟨e, _, _, rfl⟩
    · exact .left hcancel (.inr (.inl ⟨id, rfl⟩))
    · exact .again
  | awaitingMonitor q =>
    obtain ⟨c'', hc, heq⟩ := map_eq_some_iff.mp h
    cases heq
    rcases wait_cases hc with ⟨hcancel, rfl⟩ | ⟨e, he, hdone, rfl⟩
    · exact .left hcancel (.inr (.inr rfl))
    · exact .watched he hdone
  | killing q => exact kill_step h
  | awaitingExit q => exact waitExit_step h
  | forgetting id => exact hpair (forget_step id) h
  | returned err => cases h

section Unmark

variable {q : Nat} {e : Entry} {failure : Option Fault}

@[simp] theorem unmark_closed : (m.unmark q e failure).closed = m.closed := by
  unfold Manager.unmark
  split <;> rfl

@[simp] theorem unmark_entries : (m.unmark q e failure).entries = m.entries := by
  unfold Manager.unmark
  split <;> rfl

@[simp] theorem unmark_monitors : (m.unmark q e failure).monitors = m.monitors := by
  unfold Manager.unmark
  split <;> rfl

@[simp] theorem unmark_calls : (m.unmark q e failure).calls = m.calls := by
  unfold Manager.unmark
  split <;> rfl

end Unmark

/-- A section moves no thread but its own. -/
theorem CallStep.calls (h : CallStep p m i c m' c') : m'.calls = m.calls := by
  cases h with
  | unkilled | gaveUp => exact unmark_calls
  | _ => rfl

theorem unmark_exists {q' : Nat} {e : Entry} {failure : Option Fault}
    (h : ∃ e', m.heap.lookup q' = some e') :
    ∃ e', (m.unmark q e failure).heap.lookup q' = some e' := by
  unfold Manager.unmark
  split
  · exact h
  · exact setEntry_exists h

/-- No section of a call drops an entry from the heap. -/
theorem CallStep.heap_grows (hstep : CallStep p m i c m' c') (h : ∃ e, m.heap.lookup q = some e) :
    ∃ e, m'.heap.lookup q = some e := by
  cases hstep with
  | claimed | failed | started | marked => exact setEntry_exists h
  | unkilled | gaveUp => exact unmark_exists h
  | _ => exact h

-- ===== monitors

/-- What a section of the monitor of `q` does. -/
inductive MonitorStep (m : Manager) (q : Nat) (report i : CallIn) :
    MonitorPc → Manager → Prop
  | observed {mon e err detail exitCode} (hmon : m.monitors.lookup q = some mon)
      (he : m.heap.lookup q = some e) :
      MonitorStep m q report i .watching
        { m.setEntry q { e with finishing := true } with
          monitors := m.monitors.insert q
            { mon with
              pc := if e.stopping then .cleaning else .reporting err detail exitCode } }
  | reported {mon err detail exitCode} (hmon : m.monitors.lookup q = some mon) :
      MonitorStep m q report i (.reporting err detail exitCode)
        { m with
          monitors := m.monitors.insert q
            { mon with
              pc := if (reporterErr report).isSome then .closing (reporterErr report)
                else .cleaning } }
  | uncleaned {mon f} (hmon : m.monitors.lookup q = some mon) (hf : i.fault [] = some f) :
      MonitorStep m q report i .cleaning
        { m with monitors := m.monitors.insert q { mon with pc := .closing (some f) } }
  | cleaned {mon} (hmon : m.monitors.lookup q = some mon) (hf : i.fault [] = none) :
      MonitorStep m q report i .cleaning
        { m with
          tasks := m.tasks.erase mon.id,
          monitors := m.monitors.insert q { mon with pc := .closing none } }
  | finished {e err} (he : m.heap.lookup q = some e) :
      MonitorStep m q report i (.closing err)
        { m.setEntry q { e with doneErr := err, done := true } with
          monitors := m.monitors.erase q }

variable {report : CallIn}

theorem MonitorStep.calls {pc : MonitorPc} (h : MonitorStep m q report i pc m') :
    m'.calls = m.calls := by
  cases h <;> rfl

theorem MonitorStep.heap_grows {q' : Nat} {pc : MonitorPc}
    (hstep : MonitorStep m q report i pc m') (h : ∃ e, m.heap.lookup q' = some e) :
    ∃ e, m'.heap.lookup q' = some e := by
  cases hstep with
  | observed | finished => exact setEntry_exists h
  | _ => exact h

theorem watch_step {code : UInt32} (h : m.watch q code err report i = some m') :
    ∃ mon, m.monitors.lookup q = some mon ∧ MonitorStep m q report i mon.pc m' := by
  obtain ⟨mon, hmon, hstep⟩ := bind_eq_some_iff.mp h
  refine ⟨mon, hmon, ?_⟩
  split at hstep
  next hpc =>
    rw [hpc]
    unfold Manager.observe at hstep
    split at hstep
    · cases hstep
    · obtain ⟨e, he, heq⟩ := map_eq_some_iff.mp hstep
      cases heq
      exact .observed hmon he
  next hpc =>
    rw [hpc]
    cases hstep
    exact .reported hmon
  next hpc =>
    rw [hpc]
    unfold Manager.cleanup at hstep
    split at hstep
    next f hf =>
      cases hstep
      exact .uncleaned hmon hf
    next hf =>
      split at hstep
      · cases hstep
      · cases hstep
        exact .cleaned hmon hf
  rename_i err hpc
  rw [hpc]
  obtain ⟨e, he, heq⟩ := map_eq_some_iff.mp hstep
  cases heq
  exact .finished he

-- ===== whole steps

variable {n n' : Notes} {l : ManagerLabel}

/-- What a step of the noted manager does. -/
inductive NotedStep (p : Platform) (m : Manager) (n : Notes) :
    ManagerLabel → Manager → Notes → Prop
  | begin {tid c} (hbegins : c.begins = true) (hnew : m.calls.lookup tid = none) :
      NotedStep p m n (.begin tid c) { m with calls := m.calls.insert tid c } n
  | call {tid i c c' m'} (hc : m.calls.lookup tid = some c) (hstep : CallStep p m i c m' c') :
      NotedStep p m n (.call tid i) { m' with calls := m'.calls.insert tid c' } (n.call m c c')
  | exit {id tasks} : NotedStep p m n (.exit id) { m with tasks := tasks } n
  | watch {q code err report i m' mon} (hmon : m.monitors.lookup q = some mon)
      (hstep : MonitorStep m q report i mon.pc m') :
      NotedStep p m n (.watch q code err report i) m' (n.watch q mon.pc i)
  | close : NotedStep p m n .close m.close n

theorem noted_step {s t : Manager × Notes} (h : (noted p).step s l = some t) :
    NotedStep p s.1 s.2 l t.1 t.2 := by
  obtain ⟨m, n⟩ := s
  obtain ⟨m', n'⟩ := t
  obtain ⟨hm, hn⟩ := TransitionSystem.observe_step h
  replace hm : m.step p l = some m' := hm
  replace hn : n' = note m l m' n := hn
  subst hn
  cases l with
  | begin tid c =>
    rw [Manager.step] at hm
    split at hm
    next hnew =>
      cases hm
      exact .begin hnew.1 hnew.2
    · cases hm
  | call tid i =>
    obtain ⟨c, hc, hadv⟩ := bind_eq_some_iff.mp hm
    obtain ⟨⟨m₁, c'⟩, hstep, heq⟩ := map_eq_some_iff.mp hadv
    cases heq
    simp only [note, hc, AList.lookup_insert]
    exact .call hc (advance_step hstep)
  | exit id =>
    rw [Manager.step, Manager.exit] at hm
    split at hm
    · cases hm
      exact .exit
    · cases hm
  | watch q code err report i =>
    obtain ⟨mon, hmon, hstep⟩ := watch_step hm
    simp only [note, hmon]
    exact .watch hmon hstep
  | close =>
    cases hm
    exact .close

-- ===== the registry

theorem launchOf_of_begins (h : c.begins = true) : c.launchOf = none := by
  cases c <;> first | rfl | cases h

theorem MgrInv.watch_section {code : UInt32} (h : MgrInv m)
    (hw : m.watch q code err report i = some m') : MgrInv m' := by
  obtain ⟨mon, hmon, hstep⟩ := bind_eq_some_iff.mp hw
  split at hstep
  · exact h.observe hmon hstep
  · cases hstep
    exact h.reported hmon fun f hf => present_fault (by decide) hf
  · exact h.cleanup hmon hstep
  next hpc => exact h.finish hmon hpc hstep

/-- The registry is sound in every run of the manager. -/
theorem mgrInv_reachable (h : (manager p).Reach m) : MgrInv m := by
  refine TransitionSystem.ReachWhen.invariant (I := MgrInv) ?_ ?_ h
  · rintro _ rfl
    exact mgrInv_empty
  intro s l t hs _ hstep
  replace hstep : s.step p l = some t := hstep
  cases l with
  | begin tid c =>
    rw [Manager.step] at hstep
    split at hstep
    next hnew =>
      cases hstep
      exact hs.setCall (.inl (launchOf_of_begins hnew.1))
    · cases hstep
  | call tid i => exact hs.run hstep
  | exit id =>
    rw [Manager.step, Manager.exit] at hstep
    split at hstep
    · cases hstep
      exact hs.congr ⟨rfl, rfl, rfl, rfl, fun _ => rfl⟩
    · cases hstep
  | watch q code err report i => exact hs.watch_section hstep
  | close =>
    cases hstep
    exact hs.congr ⟨rfl, rfl, rfl, rfl, fun _ => rfl⟩

theorem mgrInv_noted {ok : Manager × Notes → ManagerLabel → Prop} {s : Manager × Notes}
    (h : (noted p).ReachWhen ok s) : MgrInv s.1 :=
  mgrInv_reachable (TransitionSystem.reach_of_observe h)

end R1s.Runtime
