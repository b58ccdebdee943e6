/-
What a stop that returned nil promises.

# Four ways to return

Once an entry is done a `stop` returns in four places. One returns the
error the monitor stored, the other three return nil whatever is stored;
`forget` returns the stored error. With a report or a cleanup that failed
they disagree (`failed_cleanup_splits_the_stops`).

# Monitors that do not fail

With reports and cleanups that succeed the stored error is nil and the
task of every done entry was cleaned up: `Sound` ties the stored errors,
the notes of the cleanups and the noted returns together.
-/
import R1s.Runtime.Proofs.Stops

namespace R1s.Runtime

open Allocator (Fault)

variable {p : Platform} {m m' : Manager} {c c' : Call} {i : CallIn} {n n' : Notes}
  {l : ManagerLabel}

-- ===== stored errors

/-- The error the monitor stored for a done entry. -/
def Manager.outcome (m : Manager) (q : Nat) : Option (Option Fault) :=
  (m.heap.lookup q).bind fun e => if e.done then some e.doneErr else none

variable {q : Nat}

theorem isDone_outcome : m.isDone q = (m.outcome q).isSome := by
  cases h : m.heap.lookup q with
  | none => simp [Manager.isDone, Manager.outcome, h]
  | some e => by_cases hd : e.done = true <;> simp [Manager.isDone, Manager.outcome, h, hd]

variable {e : Entry}

theorem outcome_of_done (he : m.heap.lookup q = some e) (hdone : e.done = true) :
    m.outcome q = some e.doneErr := by
  simp [Manager.outcome, he, hdone]

variable {q' : Nat}

theorem outcome_setEntry {e' : Entry} (he : m.heap.lookup q = some e) (hdone : e'.done = e.done)
    (herr : e'.doneErr = e.doneErr) : (m.setEntry q e').outcome q' = m.outcome q' := by
  by_cases hq : q' = q
  · subst hq
    simp [Manager.outcome, Manager.setEntry, he, hdone, herr]
  · rw [Manager.outcome, lookup_setEntry hq, Manager.outcome]

theorem outcome_unmark {failure : Option Fault} (he : m.heap.lookup q = some e) :
    (m.unmark q e failure).outcome q' = m.outcome q' := by
  unfold Manager.unmark
  split
  · rfl
  · exact outcome_setEntry he rfl rfl

/-- Only monitors store errors. -/
theorem CallStep.outcome (hm : MgrInv m) (hstep : CallStep p m i c m' c') :
    m'.outcome q = m.outcome q := by
  cases hstep with
  | claimed _ _ =>
    by_cases hq : q = m.fresh
    · subst hq
      have hnone : m.heap.lookup m.fresh = none := by
        cases hq : m.heap.lookup m.fresh with
        | none => rfl
        | some e => exact absurd (hm.fresh hq) (Nat.lt_irrefl _)
      simp [Manager.outcome, hnone]
    · simp only [Manager.outcome, AList.lookup_insert_ne hq]
  | failed he | started he => exact outcome_setEntry he rfl rfl
  | marked hentry _ _ _ => exact outcome_setEntry (entry_some hentry).2 rfl rfl
  | unkilled he | gaveUp he => exact outcome_unmark he
  | _ => rfl

-- ===== the guard

/-- Reports and cleanups succeed; a stop that works on a done entry is
not cut short by its context or its kill; the runtime stays open. -/
def Manager.untroubled (m : Manager) : ManagerLabel → Bool
  | .call tid i =>
    match (m.calls.lookup tid).bind m.stopOf with
    | some q => !m.isDone q || (i.problem.isNone && !i.cancelled)
    | none => true
  | .watch q _ _ report i =>
    match m.monitorPc q with
    | some (.reporting ..) => report.problem.isNone
    | some .cleaning => i.problem.isNone
    | _ => true
  | .close => false
  | _ => true

variable {tid : Nat}

theorem untroubled_call (hok : m.untroubled (.call tid i) = true)
    (hc : m.calls.lookup tid = some c) (hq : m.stopOf c = some q)
    (hcut : i.problem ≠ none ∨ i.cancelled = true) : m.isDone q = false := by
  simp only [Manager.untroubled, hc, Option.bind_some, hq] at hok
  rcases hcut with hproblem | hcancel
  · simpa [hproblem] using hok
  · simpa [hcancel] using hok

theorem problem_of_fault {f : Fault} (h : i.fault [] = some f) : i.problem ≠ none := by
  intro hnone
  rw [fault_eq_none.mpr hnone] at h
  cases h

-- ===== the invariant

/-- Entries, notes and returns of a run without failed monitors. -/
structure Sound (m : Manager) (n : Notes) : Prop where
  opened : m.closed = false
  named : ∀ {id q}, m.entries.lookup id = some q → blank id = false
  closing : ∀ {q err}, m.monitorPc q = some (.closing err) → err = none ∧ q ∈ n.cleaned
  stored : ∀ {q err}, m.outcome q = some err → err = none ∧ q ∈ n.cleaned
  nil : ∀ {r}, r ∈ n.returns → r.err = none → m.isDone r.entry = true
  late : ∀ {r}, r ∈ n.returns → r.done = true → r.err = none

theorem prepareExecution_named {request : StartRequest} {fingerprint : GoString}
    (h : prepareExecution p request = .ok fingerprint) : blank request.executionID = false := by
  unfold prepareExecution at h
  split at h
  · cases h
  next hblank => simpa using hblank

/-- No section of a call touches `closed`. -/
theorem CallStep.closed (hstep : CallStep p m i c m' c') : m'.closed = m.closed := by
  cases hstep with
  | unkilled | gaveUp => exact unmark_closed
  | _ => rfl

variable {id : GoString}

/-- A registered execution has an ID. -/
theorem CallStep.named (hstep : CallStep p m i c m' c')
    (h : ∀ {id q}, m.entries.lookup id = some q → blank id = false)
    (hq : m'.entries.lookup id = some q) : blank id = false := by
  cases hstep with
  | claimed hprep _ =>
    rcases AList.of_lookup_insert hq with ⟨rfl, -⟩ | ⟨-, hq⟩
    · exact prepareExecution_named hprep
    · exact h hq
  | failed | forgot => exact h (lookup_of_erase hq).2
  | unkilled | gaveUp =>
    rw [unmark_entries] at hq
    exact h hq
  | _ => exact h hq

variable {err : Option Fault}

/-- A section of a call leaves the monitors where they are, but for the
new one. -/
theorem CallStep.monitorPc (hstep : CallStep p m i c m' c')
    (hq : m'.monitorPc q = some (.closing err)) : m.monitorPc q = some (.closing err) := by
  cases hstep with
  | started _ =>
    have hpc := (monitorPc_insert (m := m)).symm.trans hq
    split at hpc
    · cases hpc
    · exact hpc
  | unkilled | gaveUp =>
    rw [Manager.monitorPc, unmark_monitors] at hq
    exact hq
  | _ => exact hq

-- ===== the steps

/-- A stop that works on an entry returns nil exactly when the entry is
done. -/
theorem Sound.return_iff (h : Sound m n) (hok : m.untroubled (.call tid i) = true)
    (hc : m.calls.lookup tid = some c) (hq : m.stopOf c = some q)
    (hstep : CallStep p m i c m' (.returned err)) : err = none ↔ m.isDone q = true := by
  have hdone : ∀ {e}, m.heap.lookup q = some e → e.done = true → m.isDone q = true := by
    intro e he hd
    rw [isDone_outcome, outcome_of_done he hd]
    rfl
  have hcut : (i.problem ≠ none ∨ i.cancelled = true) → m.isDone q = false :=
    untroubled_call hok hc hq
  cases hstep with
  | unseen hwhy =>
    rcases hwhy with hblank | hclosed
    · obtain ⟨⟨q', e⟩, hentry, _⟩ := Option.map_eq_some_iff.mp hq
      rw [h.named (entry_some hentry).1] at hblank
      cases hblank
    · rw [h.opened] at hclosed
      cases hclosed
  | settled hentry hd =>
    obtain ⟨⟨q', e'⟩, hentry', heq⟩ := Option.map_eq_some_iff.mp hq
    cases hentry.symm.trans hentry'
    cases heq
    exact iff_of_true rfl (hdone (entry_some hentry).2 hd)
  | left hcancel hwait =>
    have hno := hcut (.inr hcancel)
    rw [hno]
    exact iff_of_false nofun nofun
  | watched he hd =>
    cases hq
    exact iff_of_true rfl (hdone he hd)
  | unkilled he hf =>
    rw [hcut (.inl (problem_of_fault hf))]
    exact iff_of_false nofun nofun
  | gaveUp he hcancel =>
    rw [hcut (.inr hcancel)]
    exact iff_of_false nofun nofun
  | exited he hd =>
    cases hq
    obtain ⟨hnone, _⟩ := h.stored (outcome_of_done he hd)
    exact iff_of_true hnone (hdone he hd)
  | _ => cases hq

/-- A section of a call, within the guard. -/
theorem Sound.call (h : Sound m n) (hm : MgrInv m) (hok : m.untroubled (.call tid i) = true)
    (hc : m.calls.lookup tid = some c) (hstep : CallStep p m i c m' c') :
    Sound { m' with calls := m'.calls.insert tid c' } (n.call m c c') := by
  have hdone : ∀ q, m'.isDone q = m.isDone q := by
    intro q
    rw [isDone_outcome, isDone_outcome, hstep.outcome hm]
  have hnew : ∀ {r}, r ∈ (n.call m c c').returns → r ∈ n.returns
      ∨ r.done = m.isDone r.entry ∧ (r.err = none ↔ m.isDone r.entry = true) := by
    intro r hr
    rcases returns_call m n c c' with heq | ⟨q, err, hq, rfl, heq⟩
    · rw [heq] at hr
      exact .inl hr
    · rw [heq] at hr
      rcases List.mem_cons.mp hr with rfl | hold
      · exact .inr ⟨rfl, h.return_iff hok hc hq hstep⟩
      · exact .inl hold
  constructor
  case opened => exact hstep.closed.trans h.opened
  case named => exact fun hq => hstep.named h.named hq
  case closing =>
    intro q err hq
    rw [cleaned_call]
    exact h.closing (hstep.monitorPc hq)
  case stored =>
    intro q err hq
    rw [cleaned_call]
    exact h.stored ((hstep.outcome hm).symm.trans hq)
  case nil =>
    intro r hr hnil
    refine (hdone r.entry).trans ?_
    rcases hnew hr with hold | ⟨_, hiff⟩
    · exact h.nil hold hnil
    · exact hiff.mp hnil
  case late =>
    intro r hr hlate
    rcases hnew hr with hold | ⟨heq, hiff⟩
    · exact h.late hold hlate
    · exact hiff.mpr (heq.symm.trans hlate)

/-- What was noted as cleaned up stays noted. -/
theorem mem_cleaned_watch {pc : MonitorPc} (h : q' ∈ n.cleaned) :
    q' ∈ (n.watch q pc i).cleaned := by
  unfold Notes.watch
  split
  · exact h
  · split <;> simp [h]
  · exact h

/-- A monitor moves on to `mon` and stores nothing. -/
theorem Sound.passed {mon : Monitor} {pc : MonitorPc} (h : Sound m n)
    (hclosed : m'.closed = m.closed) (hentries : m'.entries = m.entries)
    (hmonitors : m'.monitors = m.monitors.insert q mon) (houtcome : ∀ q, m'.outcome q = m.outcome q)
    (hclosing : ∀ {err}, mon.pc = .closing err → err = none ∧ q ∈ (n.watch q pc i).cleaned) :
    Sound m' (n.watch q pc i) where
  opened := hclosed.trans h.opened
  named := by
    rw [hentries]
    exact h.named
  closing := by
    intro q' err hq'
    rw [Manager.monitorPc, hmonitors] at hq'
    have hpc := (monitorPc_insert (m := m)).symm.trans hq'
    split at hpc
    next heq =>
      subst heq
      exact hclosing (Option.some.inj hpc)
    · exact (h.closing hpc).imp id mem_cleaned_watch
  stored := by
    intro q' err hq'
    rw [houtcome] at hq'
    exact (h.stored hq').imp id mem_cleaned_watch
  nil := by
    intro r hr hnil
    rw [returns_watch] at hr
    rw [isDone_outcome, houtcome, ← isDone_outcome]
    exact h.nil hr hnil
  late := by
    intro r hr
    rw [returns_watch] at hr
    exact h.late hr

/-- A monitor that stores the nil of a cleanup that succeeded. -/
theorem Sound.finished (h : Sound m n) (hpc : m.monitorPc q = some (.closing err)) :
    Sound
      { m.setEntry q { e with doneErr := err, done := true } with
        monitors := m.monitors.erase q }
      (n.watch q (.closing err) i) := by
  obtain ⟨hnone, hclean⟩ := h.closing hpc
  have hother : ∀ {q'}, q' ≠ q →
      (m.setEntry q { e with doneErr := err, done := true }).outcome q' = m.outcome q' := by
    intro q' hne
    rw [Manager.outcome, lookup_setEntry hne, Manager.outcome]
  have hself : (m.setEntry q { e with doneErr := err, done := true }).outcome q = some err := by
    simp [Manager.outcome, Manager.setEntry]
  constructor
  case opened => exact h.opened
  case named => exact h.named
  case closing =>
    intro q' err' hq'
    simp only [Manager.monitorPc, AList.lookup_erase_if] at hq'
    split at hq'
    · cases hq'
    · exact h.closing hq'
  case stored =>
    intro q' err' hq'
    by_cases hne : q' = q
    · subst hne
      cases hself.symm.trans hq'
      exact ⟨hnone, hclean⟩
    · exact h.stored ((hother hne).symm.trans hq')
  case nil =>
    intro r hr hnil
    refine isDone_outcome.trans ?_
    by_cases hne : r.entry = q
    · rw [hne]
      exact congrArg Option.isSome hself
    · refine (congrArg Option.isSome (hother hne)).trans ?_
      rw [← isDone_outcome]
      exact h.nil hr hnil
  case late => exact h.late

/-- A section of a monitor, within the guard. -/
theorem Sound.watch {code : UInt32} {report : CallIn} {mon : Monitor} (h : Sound m n)
    (hok : m.untroubled (.watch q code err report i) = true)
    (hmon : m.monitors.lookup q = some mon) (hstep : MonitorStep m q report i mon.pc m') :
    Sound m' (n.watch q mon.pc i) := by
  have hpc : m.monitorPc q = some mon.pc := by
    rw [Manager.monitorPc, hmon]
    rfl
  simp only [Manager.untroubled, hpc] at hok
  generalize mon.pc = pc at hstep hpc hok
  cases hstep with
  | observed _ he =>
    refine h.passed rfl rfl rfl (fun _ => outcome_setEntry he rfl rfl) ?_
    intro err' hclosing
    split at hclosing <;> cases hclosing
  | reported _ =>
    have hnone : reporterErr report = none := by
      simpa [reporterErr, CallIn.fault] using hok
    refine h.passed rfl rfl rfl (fun _ => rfl) ?_
    intro err' hclosing
    rw [hnone] at hclosing
    cases hclosing
  | uncleaned _ hf => exact absurd (by simpa using hok) (problem_of_fault hf)
  | cleaned _ hf =>
    refine h.passed rfl rfl rfl (fun _ => rfl) ?_
    intro err' hclosing
    cases hclosing
    refine ⟨rfl, ?_⟩
    rw [Notes.watch, hf]
    exact List.mem_cons_self
  | finished he => exact h.finished hpc

theorem sound_step (h : Sound m n) (hm : MgrInv m) (hok : m.untroubled l = true)
    (hstep : NotedStep p m n l m' n') : Sound m' n' := by
  cases hstep with
  | begin | exit => exact ⟨h.opened, h.named, h.closing, h.stored, h.nil, h.late⟩
  | call hc hstep => exact h.call hm hok hc hstep
  | watch hmon hstep => exact h.watch hok hmon hstep
  | close => cases hok

theorem sound_reachable {s : Manager × Notes}
    (h : (noted p).ReachWhen (fun s l => s.1.untroubled l = true) s) : Sound s.1 s.2 := by
  refine TransitionSystem.ReachWhen.invariant_with (J := fun s => MgrInv s.1)
    (I := fun s => Sound s.1 s.2) (fun _ => mgrInv_noted) ?_ ?_ h
  · rintro ⟨m, n⟩ ⟨hm, hn⟩
    replace hm : m = .empty := hm
    replace hn : n = {} := hn
    subst hm hn
    exact ⟨rfl, nofun, nofun, nofun, nofun, nofun⟩
  · intro s l t hm _ hs hok hstep
    exact sound_step hs hm hok (noted_step hstep)

-- ===== the promises

/-- An entry that is gone, or done without a stored error, can be
forgotten. -/
theorem forget_returns_nil (hlive : i.cancelled = false)
    (hreg : m.entries.lookup id = none ∨ m.entries.lookup id = some q)
    (hq : m.outcome q = some none) : (m.forget id i).2 = .returned none := by
  rcases hreg with hnone | hsome
  · simp [Manager.forget, hlive, Manager.entry, hnone]
  · obtain ⟨e, he, hout⟩ := Option.bind_eq_some_iff.mp hq
    split at hout
    next hdone =>
      have herr : e.doneErr = none := Option.some.inj hout
      simp [Manager.forget, hlive, Manager.entry, hsome, he, hdone, herr]
    · cases hout

/-- A stop that found no entry and returned nil left no container. -/
theorem stopTask_leaves_nothing (hc : m.calls.lookup tid = some (.stoppingTask id))
    (hrun : m.run p tid i = some m') (hret : m'.calls.lookup tid = some (.returned none)) :
    m'.tasks.lookup id = none := by
  obtain ⟨c, hc', hadv⟩ := Option.bind_eq_some_iff.mp hrun
  cases hc.symm.trans hc'
  obtain ⟨⟨m₁, c'⟩, hstep, heq⟩ := Option.map_eq_some_iff.mp hadv
  cases heq
  simp only [AList.lookup_insert, Option.some.injEq] at hret
  subst hret
  cases advance_step hstep with
  | stopped => exact AList.lookup_erase _ _

/-- In every run in which reports and cleanups succeed: a stop that
returned nil for a started execution has its process cleaned up (one
that found no entry leaves no container), the stops that returned after
an entry was done agree, and a later forget of the entry succeeds. -/
theorem nil_stops_keep_their_promise (p : Platform) {s : Manager × Notes}
    (h : (noted p).ReachWhen (fun s l => s.1.untroubled l = true) s) :
    (∀ r ∈ s.2.returns, r.err = none → r.entry ∈ s.2.cleaned)
    ∧ (∀ tid id i m', s.1.calls.lookup tid = some (.stoppingTask id) →
        s.1.run p tid i = some m' → m'.calls.lookup tid = some (.returned none) →
        m'.tasks.lookup id = none)
    ∧ (∀ r ∈ s.2.returns, ∀ r' ∈ s.2.returns, r.entry = r'.entry → r.done = true →
        r'.done = true → (r.err = none ↔ r'.err = none))
    ∧ ∀ r ∈ s.2.returns, r.err = none → ∀ id i, i.cancelled = false →
        (s.1.entries.lookup id = none ∨ s.1.entries.lookup id = some r.entry) →
        (s.1.forget id i).2 = .returned none := by
  have hs := sound_reachable h
  have hstored : ∀ r ∈ s.2.returns, r.err = none →
      s.1.outcome r.entry = some none ∧ r.entry ∈ s.2.cleaned := by
    intro r hr hnil
    have hdone := hs.nil hr hnil
    rw [isDone_outcome] at hdone
    obtain ⟨err, herr⟩ := Option.isSome_iff_exists.mp hdone
    obtain ⟨rfl, hclean⟩ := hs.stored herr
    exact ⟨herr, hclean⟩
  refine ⟨fun r hr hnil => (hstored r hr hnil).2, ?_, ?_, ?_⟩
  · intro tid id i m' hc hrun hret
    exact stopTask_leaves_nothing hc hrun hret
  · intro r hr r' hr' _ hd hd'
    exact iff_of_true (hs.late hr hd) (hs.late hr' hd')
  · intro r hr hnil id i hlive hreg
    exact forget_returns_nil hlive hreg (hstored r hr hnil).1

/-- A stop kills the task, whose cleanup then fails; a second stop and a
`forget` follow. -/
def uncleanRun : List ManagerLabel :=
  startedRun ++ [ .begin 1 (.looking (text "x")), .call 1 {}, .call 1 {}, .exit (text "x"),
    watchOn, .watch 0 0 none {} { problem := some (text "cleanup failed") }, watchOn,
    .call 1 {}, .begin 2 (.looking (text "x")), .call 2 {},
    .begin 3 (.forgetting (text "x")), .call 3 {} ]

/-- The error of the failed cleanup. -/
def cleanupErr : Fault := ⟨[], text "cleanup failed"⟩

/-- What a call returned. -/
def Call.result : Call → Option (Option Fault)
  | .returned err => some err
  | _ => none

/-- After a failed cleanup one stop returns the error and the next one
nil, though the container is still there and cannot be forgotten. -/
theorem failed_cleanup_splits_the_stops :
    ∃ s, (noted samplePlatform).Reach s
      ∧ s.2.returns = [⟨0, true, none⟩, ⟨0, true, some cleanupErr⟩] ∧ s.2.cleaned = []
      ∧ s.1.tasks.lookup (text "x") = some .exited
      ∧ (s.1.forget (text "x") {}).2 = .returned (some cleanupErr) := by
  obtain ⟨s, hs, hp⟩ := (noted samplePlatform).exists_reach (.observe rfl) uncleanRun
    (fun s => s.2.returns = [⟨0, true, none⟩, ⟨0, true, some cleanupErr⟩] ∧ s.2.cleaned = [] ∧
      s.1.tasks.lookup (text "x") = some .exited ∧
      (s.1.forget (text "x") {}).2.result = some (some cleanupErr))
    (by decide +kernel)
  obtain ⟨hret, hclean, htask, hforget⟩ := hp
  refine ⟨s, hs, hret, hclean, htask, ?_⟩
  cases hcall : (s.1.forget (text "x") {}).2 <;> rw [hcall] at hforget <;> cases hforget
  rfl

/-- A stop kills the task and returns once its monitor has finished. -/
def cleanRun : List ManagerLabel :=
  startedRun ++ [ .begin 1 (.looking (text "x")), .call 1 {}, .call 1 {}, .exit (text "x"),
    watchOn, watchOn, watchOn, .call 1 {} ]

/-- The stop returned nil, the task is cleaned up and the execution can
be forgotten. -/
theorem clean_stop_can_be_forgotten :
    ∃ s, (noted samplePlatform).ReachWhen (fun s l => s.1.untroubled l = true) s
      ∧ s.2.returns = [⟨0, true, none⟩] ∧ 0 ∈ s.2.cleaned
      ∧ (s.1.forget (text "x") {}).2 = .returned none := by
  obtain ⟨s, hs, hp⟩ := (noted samplePlatform).exists_reachWhen
    (fun s l => s.1.untroubled l = true) (.observe rfl) cleanRun
    (fun s => s.2.returns = [⟨0, true, none⟩] ∧ s.1.entries.lookup (text "x") = some 0)
    (by decide +kernel)
  obtain ⟨hret, hreg⟩ := hp
  have hmem : (⟨0, true, none⟩ : StopReturn) ∈ s.2.returns := by
    rw [hret]
    exact List.mem_singleton_self _
  obtain ⟨hclean, _, _, hforget⟩ := nil_stops_keep_their_promise samplePlatform hs
  exact ⟨s, hs, hret, hclean _ hmem rfl, hforget _ hmem rfl (text "x") {} rfl (.inr hreg)⟩

end R1s.Runtime
