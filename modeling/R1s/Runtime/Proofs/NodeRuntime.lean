/-
The invariant of a node, and that the runtime's sections keep it.

A task runs only under a start that has launched it or a monitor that
watches it (`NodeInv.running`); both are followed to their execution's
record. A stop that is past its look into the registry knows that no
start of its execution is left (`StopInv`), so what it reports about the
task stays true until the allocator hears it.
-/
import R1s.Runtime.Node
import R1s.Runtime.Proofs.Manager
import R1s.Allocator.Proofs.Phases

namespace R1s.Runtime

open Allocator

variable {cfg : Config} {p : Platform} {n n' : Node cfg} {m m' : Manager} {c c' : Call}

-- ===== the notions

/-- A start of `id` that may still launch or hand a task to a monitor. -/
def Pending (m : Manager) (id : GoString) : Prop :=
  ∃ t, (m.calls.lookup t).bind Call.pendingOf = some id

/-- The monitor has not told the allocator yet. -/
def MonitorPc.unreported : MonitorPc → Bool
  | .watching | .reporting .. => true
  | _ => false

def Unreported (m : Manager) (id : GoString) : Prop :=
  ∃ q mon, m.monitors.lookup q = some mon ∧ mon.id = id ∧ mon.pc.unreported = true

/-- The execution is over: its record is terminal, or there is none. -/
def Ended (w : World) (id : GoString) : Prop :=
  ∀ x, w.mem.executions.lookup id = some x → x.phase.terminal = true

/-- A call that has not launched a task and will not without moving
on. -/
def Call.unlaunched : Call → Bool
  | .launched _ _ none => false
  | .returned none => false
  | _ => true

/-- What holds for a stop of `id` at each of its points: past its look
into the registry no start of `id` is left, and once it has succeeded no
monitor of `id` is left to report. -/
def StopInv (m : Manager) (id : GoString) : Call → Prop
  | .looking id' => id' = id
  | .awaitingStart id' _ => id' = id
  | .stoppingTask _ => ¬Pending m id ∧ ¬Unreported m id
  | .awaitingMonitor q | .killing q | .awaitingExit q =>
    ¬Pending m id ∧ ∀ q', m.entries.lookup id = some q' → q' = q
  | .returned none => ¬Pending m id ∧ ¬Unreported m id
  | .returned (some f) => Present f
  | _ => False

/-- The invariant of a node. -/
structure NodeInv (n : Node cfg) : Prop where
  ledger : LedgerWorld cfg n.sys.world
  mgr : MgrInv n.mgr
  calm : ∀ t, (n.sys.threads.lookup t).bind Pc.recoverOf = none
  starts : ∀ {t id}, (n.mgr.calls.lookup t).bind Call.pendingOf = some id →
    (n.sys.threads.lookup t).bind Pc.startOf = some id
  single : ∀ {t t' id}, (n.sys.threads.lookup t).bind Pc.startOf = some id →
    (n.sys.threads.lookup t').bind Pc.startOf = some id → t = t'
  unlaunched : ∀ {t id c}, (n.sys.threads.lookup t).bind Pc.startOf = some id →
    n.mgr.calls.lookup t = some c → c.unlaunched = true → ¬Unreported n.mgr id
  ended : ∀ {id}, Ended n.sys.world id → ¬Pending n.mgr id ∧ ¬Unreported n.mgr id
  running : ∀ {id}, n.mgr.tasks.lookup id = some .running →
    (∃ t q, n.mgr.calls.lookup t = some (.launched id q none)) ∨
    ∃ q, n.mgr.monitors.lookup q = some ⟨id, .watching⟩
  stops : ∀ {t id previous c}, (n.sys.threads.lookup t).bind Pc.stopOf = some (id, previous) →
    n.mgr.calls.lookup t = some c → StopInv n.mgr id c

-- ===== a section of the runtime

variable {id : GoString} {q tid : Nat} {mon : Monitor}

section Move

variable (h : CallMove m c m' c')
include h

theorem CallMove.calls : m'.calls = m.calls := by
  cases h with
  | quiet hsame _ _ => exact hsame.calls
  | _ => rfl

/-- No section makes a start pending. -/
theorem CallMove.pendingOf (hp : c'.pendingOf = some id) : c.pendingOf = some id := by
  cases h with
  | quiet _ _ hq => cases hq <;> cases hp
  | @launched _ _ _ _ err =>
    cases err with
    | none => exact hp
    | some f => cases hp
  | _ => first | exact hp | cases hp

theorem CallMove.unlaunched (hc : c'.unlaunched = true) : c.unlaunched = true := by
  cases h with
  | quiet _ _ hq =>
    cases hq with
    | cancelled _ hc' => rcases hc' with ⟨_, rfl⟩ | rfl | rfl | rfl <;> rfl
    | _ => rfl
  | _ => first | rfl | cases hc

/-- Only a claim registers an entry. -/
theorem CallMove.entries {k : GoString} (hq : m'.entries.lookup k = some q) :
    m.entries.lookup k = some q ∨ c.pendingOf = some k := by
  cases h with
  | quiet hsame _ _ =>
    rw [hsame.entries] at hq
    exact .inl hq
  | claimed hfree =>
    simp only [AList.lookup_insert_if] at hq
    split at hq
    next heq => exact .inr (congrArg some heq.symm)
    · exact .inl hq
  | launched | started => exact .inl hq
  | startFailed | forgotten => exact .inl (AList.of_lookup_erase hq).2

/-- Only a finished start gets a monitor. -/
theorem CallMove.monitors (hmon : m'.monitors.lookup q = some mon) :
    m.monitors.lookup q = some mon
      ∨ c.pendingOf = some mon.id ∧ c'.unlaunched = false := by
  cases h with
  | quiet hsame _ _ =>
    rw [hsame.monitors] at hmon
    exact .inl hmon
  | started he =>
    rcases AList.of_lookup_insert hmon with ⟨-, rfl⟩ | ⟨-, hmon⟩
    · exact .inr ⟨rfl, rfl⟩
    · exact .inl hmon
  | _ => exact .inl hmon

/-- Monitors stay where they are. -/
theorem CallMove.keeps (hm : MgrInv m) (hc : m.calls.lookup tid = some c)
    (hmon : m.monitors.lookup q = some mon) : m'.monitors.lookup q = some mon := by
  cases h with
  | quiet hsame _ _ =>
    rw [hsame.monitors]
    exact hmon
  | @started id q' e he =>
    have hl : (m.calls.lookup tid).bind Call.launchOf = some (id, q') := by
      rw [hc]
      rfl
    exact (AList.lookup_insert_ne (hm.watch_ne hl hmon).1).trans hmon
  | _ => exact hmon

/-- Only a launch makes a task run. -/
theorem CallMove.tasks (hrun : m'.tasks.lookup id = some .running) :
    m.tasks.lookup id = some .running ∨ ∃ recover k q, c = .launching recover k q := by
  cases h with
  | quiet _ htasks _ => exact .inl (htasks id hrun)
  | launched => exact .inr ⟨_, _, _, rfl⟩
  | _ => exact .inl hrun

end Move

/-- A launched task is handed to a monitor. -/
theorem CallMove.handed (h : CallMove m (.launched id q none) m' c') :
    m'.monitors.lookup q = some ⟨id, .watching⟩ := by
  cases h with
  | quiet _ _ hq =>
    cases hq with
    | cancelled _ hc => rcases hc with ⟨_, hc⟩ | hc | hc | hc <;> cases hc
  | started he => exact AList.lookup_insert _

variable {i : CallIn}

/-- A failed launch that is not said to leave a running task leaves
none. -/
theorem leave_running {recover : Bool} {k : GoString} {left : Option (Option Task)}
    (hleft : left ≠ some (some .running))
    (hrun : (m.leave recover k left).tasks.lookup id = some .running) :
    m.tasks.lookup id = some .running := by
  unfold Manager.leave at hrun
  split at hrun
  · exact hrun
  split at hrun
  next task =>
    rcases AList.of_lookup_insert hrun with ⟨-, rfl⟩ | ⟨-, hrun⟩
    · exact absurd rfl hleft
    · exact hrun
  · exact (AList.of_lookup_erase hrun).2
  · exact hrun

/-- A launch that leaves no running task when it fails makes a task run
only when it succeeds. -/
theorem launch_tasks {recover : Bool} {k : GoString} (h : m.launch recover k q i = some (m', c'))
    (hleft : i.left ≠ some (some .running)) (hrun : m'.tasks.lookup id = some .running) :
    m.tasks.lookup id = some .running ∨ c' = .launched id q none := by
  unfold Manager.launch at h
  split at h
  · cases h
    exact .inl (leave_running hleft hrun)
  split at h
  · split at h
    · cases h
      exact .inl hrun
    · cases h
  split at h
  · cases h
    exact .inl hrun
  · cases h
    rcases AList.of_lookup_insert hrun with ⟨heq, -⟩ | ⟨-, hrun⟩
    · rw [heq]
      exact .inr rfl
    · exact .inl hrun

/-- No section of a call makes a start pending. -/
theorem pending_run (hc : m.calls.lookup tid = some c) (h : CallMove m c m' c')
    (hp : Pending { m' with calls := m'.calls.insert tid c' } id) : Pending m id := by
  obtain ⟨t, ht⟩ := hp
  simp only [AList.lookup_insert_if, h.calls] at ht
  split at ht
  next heq =>
    refine ⟨tid, ?_⟩
    rw [hc]
    exact h.pendingOf ht
  · exact ⟨t, ht⟩

/-- A monitor that has to report was there, or takes over from a pending
start. -/
theorem unreported_run {calls : FMap Nat Call} (h : CallMove m c m' c')
    (hu : Unreported { m' with calls := calls } id) :
    Unreported m id ∨ c.pendingOf = some id ∧ c'.unlaunched = false := by
  obtain ⟨q, mon, hmon, rfl, hpc⟩ := hu
  rcases h.monitors hmon with hold | hpend
  · exact .inl ⟨q, mon, hold, rfl, hpc⟩
  · exact .inr hpend

/-- A stop stays as it is through a step that makes no start of its
execution pending, and registers an entry or leaves a monitor to report
only where a start was pending. -/
theorem StopInv.mono {d : Call} (hs : StopInv m id d) (hp : Pending m' id → Pending m id)
    (hu : Unreported m' id → Unreported m id ∨ Pending m id)
    (he : ∀ q, m'.entries.lookup id = some q → m.entries.lookup id = some q ∨ Pending m id) :
    StopInv m' id d := by
  have hboth : ¬Pending m id ∧ ¬Unreported m id → ¬Pending m' id ∧ ¬Unreported m' id := by
    intro ⟨hno, hnu⟩
    exact ⟨fun h => hno (hp h), fun h => (hu h).elim hnu hno⟩
  have hheld : ∀ {q}, (¬Pending m id ∧ ∀ q', m.entries.lookup id = some q' → q' = q) →
      ¬Pending m' id ∧ ∀ q', m'.entries.lookup id = some q' → q' = q := by
    intro q ⟨hno, hq⟩
    refine ⟨fun h => hno (hp h), fun q' hq' => ?_⟩
    exact (he q' hq').elim (hq q') (fun h => absurd h hno)
  cases d with
  | stoppingTask id' => exact hboth hs
  | awaitingMonitor | killing | awaitingExit => exact hheld hs
  | returned err =>
    cases err with
    | none => exact hboth hs
    | some f => exact hs
  | _ => exact hs

/-- A stop that a section of some call leaves in place. -/
theorem StopInv.frame {d : Call} (hs : StopInv m id d) (hc : m.calls.lookup tid = some c)
    (h : CallMove m c m' c') : StopInv { m' with calls := m'.calls.insert tid c' } id d := by
  have hpend : c.pendingOf = some id → Pending m id := by
    intro hp
    refine ⟨tid, ?_⟩
    rw [hc]
    exact hp
  refine hs.mono (pending_run hc h) (fun hu => ?_) (fun q hq => ?_)
  · exact (unreported_run h hu).imp_right fun hp => hpend hp.1
  · exact (h.entries hq).imp_right hpend

/-- With no start of `id` yet to claim and no entry of `id` that a start
still holds, none is pending. -/
theorem not_pending (h : MgrInv m)
    (hclaim : ∀ t recover request, m.calls.lookup t = some (.claiming recover request) →
      request.executionID ≠ id)
    (hready : ∀ q, m.entries.lookup id = some q → ∃ e, m.heap.lookup q = some e ∧ e.ready = true) :
    ¬Pending m id := by
  have hheld : ∀ {t q}, (m.calls.lookup t).bind Call.launchOf ≠ some (id, q) := by
    intro t q hl
    obtain ⟨e, he, hr, _, hreg⟩ := h.launch hl
    obtain ⟨e', he', hr'⟩ := hready q hreg
    rw [he] at he'
    cases he'
    rw [hr] at hr'
    cases hr'
  rintro ⟨t, ht⟩
  obtain ⟨d, hd, hp⟩ := Option.bind_eq_some_iff.mp ht
  cases d with
  | claiming recover request =>
    cases hp
    exact hclaim t recover request hd rfl
  | launching recover k q =>
    cases hp
    refine @hheld t q ?_
    rw [hd]
    rfl
  | launched k q err =>
    cases err with
    | some f => cases hp
    | none =>
      cases hp
      refine @hheld t q ?_
      rw [hd]
      rfl
  | _ => cases hp

/-- A monitor that has to report holds the registered entry, which is not
done. -/
theorem not_unreported (h : MgrInv m)
    (hdone : ∀ q, m.entries.lookup id = some q → ∃ e, m.heap.lookup q = some e ∧ e.done = true) :
    ¬Unreported m id := by
  rintro ⟨q, mon, hmon, rfl, _⟩
  obtain ⟨e, he, _, hd, hreg⟩ := h.watch hmon
  obtain ⟨e', he', hd'⟩ := hdone q hreg
  rw [he] at he'
  cases he'
  rw [hd] at hd'
  cases hd'

/-- The stop's own section. -/
theorem StopInv.run (h : MgrInv m) (hs : StopInv m id c) (hc : m.calls.lookup tid = some c)
    (hmove : CallMove m c m' c')
    (hclaim : ∀ k, c = .looking k → ∀ t recover request,
      m.calls.lookup t = some (.claiming recover request) → request.executionID ≠ k) :
    StopInv { m' with calls := m'.calls.insert tid c' } id c' := by
  -- It is enough to have the next point's facts before the section.
  suffices hnow : StopInv m id c' from hnow.frame hc hmove
  cases hmove with
  | quiet hsame htasks hq =>
    cases hq with
    | unseen hf | unstopped hf | cancelled hf => exact hf
    | absent hnone =>
      cases hs
      have hreg := h.entry_eq_none hnone
      refine ⟨not_pending h (hclaim _ rfl) ?_, not_unreported h ?_⟩
      all_goals
        intro q hq
        rw [hreg] at hq
        cases hq
    | early | stopped | again | killed => exact hs
    | settled hentry hready hdone =>
      cases hs
      obtain ⟨hreg, he⟩ := entry_some hentry
      refine ⟨not_pending h (hclaim _ rfl) ?_, not_unreported h ?_⟩
      all_goals
        intro q hq
        rw [hreg] at hq
        cases hq
      · exact ⟨_, he, hready⟩
      · exact ⟨_, he, hdone⟩
    | finishing hentry hready | found hentry hready =>
      cases hs
      obtain ⟨hreg, he⟩ := entry_some hentry
      refine ⟨not_pending h (hclaim _ rfl) ?_, ?_⟩
      all_goals
        intro q hq
        rw [hreg] at hq
        cases hq
      · exact ⟨_, he, hready⟩
      · rfl
    | finished he hdone =>
      refine ⟨hs.1, not_unreported h fun q hq => ?_⟩
      rw [hs.2 q hq]
      exact ⟨_, he, hdone⟩
    | @exited q e he hdone =>
      cases herr : e.doneErr with
      | some f => exact h.marks he herr
      | none =>
        refine ⟨hs.1, not_unreported h fun q' hq => ?_⟩
        rw [hs.2 q' hq]
        exact ⟨_, he, hdone⟩
    | _ => exact hs.elim
  | _ => exact hs.elim

-- ===== the condition

/-- The call is a start of `id` that has not claimed its entry. -/
def Call.claims (id : GoString) : Call → Bool
  | .claiming _ request => request.executionID = id
  | _ => false

/-- The assignment a thread is about to handle. -/
def Node.assigns (n : Node cfg) (tid : Nat) : Option ExecutionAssign :=
  (n.sys.threads.lookup tid).bind fun pc =>
    match pc with
    | .handling e =>
      match e.1.payload with
      | some (.executionAssign q) => some q
      | _ => none
    | _ => none

/-- The condition on a step: a stop that looks into the registry finds no
start of its execution that has yet to claim, a start that fails leaves no
running task, a wait for a task does not fail while the task runs, and an
assignment of an execution without a record finds no call for it in
progress. -/
def Node.inOrder (n : Node cfg) : NodeLabel cfg → Bool
  | .call tid i =>
    match n.mgr.calls.lookup tid with
    | some (.looking id) => !n.mgr.calls.any fun _ c => c.claims id
    | some (.launching ..) => i.left ≠ some (some .running)
    | _ => true
  | .watch q _ err _ _ =>
    err.isNone
      || (n.mgr.monitors.lookup q).all fun mon => n.mgr.tasks.lookup mon.id ≠ some .running
  | .alloc (.run tid _) =>
    (n.assigns tid).all fun q =>
      (n.sys.world.mem.executions.lookup q.executionID).isSome
        || !n.sys.inFlight q.executionID
  | _ => true

theorem inOrder_claims (hok : n.inOrder (.call tid i) = true)
    (hc : n.mgr.calls.lookup tid = some c) :
    ∀ k, c = .looking k → ∀ t recover request,
      n.mgr.calls.lookup t = some (.claiming recover request) → request.executionID ≠ k := by
  rintro k rfl t recover request ht heq
  simp only [Node.inOrder, hc, Bool.not_eq_true'] at hok
  have hany : (n.mgr.calls.any fun _ c => c.claims k) = true :=
    AList.any_eq_true.mpr ⟨t, _, ht, by simpa [Call.claims] using heq⟩
  rw [hany] at hok
  cases hok

/-- A section in order makes a task run only by a launch that
succeeds. -/
theorem inOrder_tasks (hok : n.inOrder (.call tid i) = true)
    (hc : n.mgr.calls.lookup tid = some c) (hadv : n.mgr.advance p c i = some (m', c'))
    (hrun : m'.tasks.lookup id = some .running) :
    n.mgr.tasks.lookup id = some .running ∨ ∃ q, c' = .launched id q none := by
  rcases (advance_move hadv).tasks hrun with hold | ⟨recover, k, q, rfl⟩
  · exact .inl hold
  · simp only [Node.inOrder, hc, ne_eq, decide_eq_true_eq] at hok
    exact (launch_tasks hadv hok hrun).imp_right fun heq => ⟨q, heq⟩

theorem NodeInv.call (h : NodeInv n) (hok : n.inOrder (.call tid i) = true)
    (hr : n.mgr.run p tid i = some m') : NodeInv { n with mgr := m' } := by
  have hmgr := h.mgr.run hr
  obtain ⟨c, hc, hmap⟩ := Option.bind_eq_some_iff.mp hr
  obtain ⟨⟨m₁, c'⟩, hadv, heq⟩ := Option.map_eq_some_iff.mp hmap
  cases heq
  have hmove := advance_move hadv
  have hpend : ∀ {id}, c.pendingOf = some id → Pending n.mgr id := by
    intro id hp
    refine ⟨tid, ?_⟩
    rw [hc]
    exact hp
  constructor
  case ledger => exact h.ledger
  case mgr => exact hmgr
  case calm => exact h.calm
  case single => exact h.single
  case starts =>
    intro t id ht
    simp only [AList.lookup_insert_if, hmove.calls] at ht
    split at ht
    next heq =>
      refine h.starts ?_
      rw [heq, hc]
      exact hmove.pendingOf ht
    · exact h.starts ht
  case unlaunched =>
    intro t id d hstart hd hun hu
    simp only [AList.lookup_insert_if, hmove.calls] at hd
    rcases unreported_run hmove hu with hold | ⟨hp, hlaunched⟩
    · split at hd
      next heq =>
        cases hd
        rw [heq] at hstart
        exact h.unlaunched hstart hc (hmove.unlaunched hun) hold
      · exact h.unlaunched hstart hd hun hold
    · -- A monitor took over from the only start of the execution.
      have hown : (n.sys.threads.lookup tid).bind Pc.startOf = some id := by
        refine h.starts ?_
        rw [hc]
        exact hp
      rw [if_pos (h.single hstart hown)] at hd
      cases hd
      rw [hlaunched] at hun
      cases hun
  case ended =>
    intro id hend
    obtain ⟨hno, hnu⟩ := h.ended hend
    refine ⟨fun hp => hno (pending_run hc hmove hp), fun hu => ?_⟩
    rcases unreported_run hmove hu with hold | ⟨hp, _⟩
    · exact hnu hold
    · exact hno (hpend hp)
  case running =>
    intro id hrun
    rcases inOrder_tasks hok hc hadv hrun with hold | ⟨q, rfl⟩
    · rcases h.running hold with ⟨t, q, ht⟩ | ⟨q, hmon⟩
      · by_cases htid : t = tid
        · rw [htid, hc] at ht
          cases ht
          exact .inr ⟨q, hmove.handed⟩
        · refine .inl ⟨t, q, ?_⟩
          simp only [AList.lookup_insert_ne htid, hmove.calls]
          exact ht
      · exact .inr ⟨q, hmove.keeps h.mgr hc hmon⟩
    · exact .inl ⟨tid, q, AList.lookup_insert _⟩
  case stops =>
    intro t id previous d hstop hd
    simp only [AList.lookup_insert_if, hmove.calls] at hd
    split at hd
    next heq =>
      cases hd
      rw [heq] at hstop
      exact (h.stops hstop hc).run h.mgr hc hmove (inOrder_claims hok hc)
    · exact (h.stops hstop hd).frame hc hmove

-- ===== monitors and containerd

/-- A step that moves no call and adds nothing to be reported. -/
theorem NodeInv.settle {w' : World} (h : NodeInv n) (hw : LedgerWorld cfg w')
    (hmgr : MgrInv m') (hcalls : m'.calls = n.mgr.calls) (hentries : m'.entries = n.mgr.entries)
    (hunreported : ∀ {id}, Unreported m' id → Unreported n.mgr id)
    (hrunning : ∀ {id}, m'.tasks.lookup id = some .running →
      n.mgr.tasks.lookup id = some .running ∧
      ∀ q, n.mgr.monitors.lookup q = some ⟨id, .watching⟩ →
        m'.monitors.lookup q = some ⟨id, .watching⟩)
    (hended : ∀ {id}, Ended w' id →
      Ended n.sys.world id ∨ ¬Pending m' id ∧ ¬Unreported m' id) :
    NodeInv (⟨{ n.sys with world := w' }, m'⟩ : Node cfg) := by
  have hpending : ∀ {id}, Pending m' id → Pending n.mgr id := by
    rintro id ⟨t, ht⟩
    rw [hcalls] at ht
    exact ⟨t, ht⟩
  constructor
  case ledger => exact hw
  case mgr => exact hmgr
  case calm => exact h.calm
  case single => exact h.single
  case starts =>
    intro t id ht
    rw [hcalls] at ht
    exact h.starts ht
  case unlaunched =>
    intro t id c hstart hc hun hu
    rw [hcalls] at hc
    exact h.unlaunched hstart hc hun (hunreported hu)
  case ended =>
    intro id hend
    rcases hended hend with hold | hnow
    · obtain ⟨hno, hnu⟩ := h.ended hold
      exact ⟨fun hp => hno (hpending hp), fun hu => hnu (hunreported hu)⟩
    · exact hnow
  case running =>
    intro id hrun
    obtain ⟨hold, hwatch⟩ := hrunning hrun
    rcases h.running hold with ⟨t, q, ht⟩ | ⟨q, hmon⟩
    · rw [← hcalls] at ht
      exact .inl ⟨t, q, ht⟩
    · exact .inr ⟨q, hwatch q hmon⟩
  case stops =>
    intro t id previous d hstop hd
    rw [hcalls] at hd
    refine (h.stops hstop hd).mono hpending (fun hu => .inl (hunreported hu)) fun q hq => ?_
    rw [hentries] at hq
    exact .inl hq

/-- A monitor that moves to a point where it has nothing more to report,
or had nothing to report before. -/
theorem unreported_setMonitor {pc : MonitorPc} (hmon : m.monitors.lookup q = some mon)
    (hm : m'.monitors = m.monitors.insert q { mon with pc := pc })
    (hpc : pc.unreported = true → mon.pc.unreported = true) (hu : Unreported m' id) :
    Unreported m id := by
  obtain ⟨q', mon', hq', hid, hun⟩ := hu
  rw [hm, AList.lookup_insert_if] at hq'
  split at hq'
  · cases hq'
    exact ⟨q, mon, hmon, hid, hpc hun⟩
  · exact ⟨q', mon', hq', hid, hun⟩

/-- The other monitors that watch. -/
theorem watching_setMonitor {q' : Nat} {mon' : Monitor} (hmon : m.monitors.lookup q = some mon)
    (hne : mon ≠ ⟨id, .watching⟩) (hq' : m.monitors.lookup q' = some ⟨id, .watching⟩) :
    (m.monitors.insert q mon').lookup q' = some ⟨id, .watching⟩ := by
  have hqq : q' ≠ q := by
    rintro rfl
    rw [hmon] at hq'
    cases hq'
    exact hne rfl
  exact (AList.lookup_insert_ne hqq).trans hq'

theorem NodeInv.exit (h : NodeInv n) (he : n.mgr.exit id = some m') :
    NodeInv { n with mgr := m' } := by
  unfold Manager.exit at he
  split at he
  · cases he
    refine h.settle h.ledger (h.mgr.congr ⟨rfl, rfl, rfl, rfl, fun _ => rfl⟩) rfl rfl
      (fun hu => hu) (fun {k} hrun => ?_) .inl
    simp only [AList.lookup_insert_if] at hrun
    split at hrun
    · cases hrun
    · exact ⟨hrun, fun _ hq => hq⟩
  · cases he

variable {err : Option Fault}

theorem present_reportFault (err : GoErr) : Present (reportFault err) := by
  intro hmem
  obtain ⟨s, _, hs⟩ := List.mem_filterMap.mp hmem
  cases s <;> cases hs

section Monitor

variable (h : NodeInv n) (hmon : n.mgr.monitors.lookup q = some mon)
include h hmon

theorem NodeInv.observe {code : UInt32} (hpc : mon.pc = .watching)
    (hexited : err.isSome = true → n.mgr.tasks.lookup mon.id ≠ some .running)
    (ho : n.mgr.observe q mon code err = some m') : NodeInv { n with mgr := m' } := by
  have hmgr := h.mgr.observe hmon ho
  unfold Manager.observe at ho
  split at ho
  · cases ho
  rename_i hends
  obtain ⟨e, he, heq⟩ := Option.map_eq_some_iff.mp ho
  cases heq
  refine h.settle h.ledger hmgr rfl rfl (fun hu => ?_) (fun {k} hrun => ⟨hrun, ?_⟩) .inl
  · refine unreported_setMonitor hmon rfl (fun _ => ?_) hu
    rw [hpc]
    rfl
  · intro q' hq'
    refine watching_setMonitor hmon ?_ hq'
    rintro rfl
    cases herr : err with
    | none => exact hends ⟨herr, hrun⟩
    | some f => exact hexited (by rw [herr]; rfl) hrun

theorem NodeInv.cleanup (hpc : mon.pc = .cleaning) (hclean : n.mgr.cleanup q mon i = some m') :
    NodeInv { n with mgr := m' } := by
  have hmgr := h.mgr.cleanup hmon hclean
  have hne : ∀ {id}, mon ≠ ⟨id, .watching⟩ := by
    rintro id rfl
    cases hpc
  unfold Manager.cleanup at hclean
  split at hclean
  · cases hclean
    refine h.settle h.ledger hmgr rfl rfl (unreported_setMonitor hmon rfl fun hp => ?_)
      (fun hrun => ⟨hrun, fun q' => watching_setMonitor hmon hne⟩) .inl
    cases hp
  split at hclean
  · cases hclean
  cases hclean
  refine h.settle h.ledger hmgr rfl rfl (unreported_setMonitor hmon rfl fun hp => ?_)
    (fun {k} hrun => ⟨?_, fun q' => watching_setMonitor hmon hne⟩) .inl
  · cases hp
  · exact (AList.of_lookup_erase hrun).2

theorem NodeInv.finish (hpc : mon.pc = .closing err) (hf : n.mgr.finish q err = some m') :
    NodeInv { n with mgr := m' } := by
  have hmgr := h.mgr.finish hmon hpc hf
  obtain ⟨e, he, heq⟩ := Option.map_eq_some_iff.mp hf
  cases heq
  refine h.settle h.ledger hmgr rfl rfl (fun hu => ?_) (fun hrun => ⟨hrun, ?_⟩) .inl
  · obtain ⟨q', mon', hq', hid, hun⟩ := hu
    exact ⟨q', mon', (AList.of_lookup_erase hq').2, hid, hun⟩
  · intro q' hq'
    have hne : q' ≠ q := by
      rintro rfl
      rw [hmon] at hq'
      cases hq'
      cases hpc
    exact (AList.lookup_erase_ne hne).trans hq'

/-- While a monitor of `id` has to report, no start of `id` is
pending. -/
theorem NodeInv.not_pending_of_unreported (hun : mon.pc.unreported = true) :
    ¬Pending n.mgr mon.id := by
  rintro ⟨t, ht⟩
  obtain ⟨c, hc, hp⟩ := Option.bind_eq_some_iff.mp ht
  have hstart := h.starts ht
  cases hl : c.unlaunched with
  | true => exact h.unlaunched hstart hc hl ⟨q, mon, hmon, rfl, hun⟩
  | false =>
    cases c with
    | launched id q' err =>
      cases err with
      | some f => cases hl
      | none =>
        have hheld : (n.mgr.calls.lookup t).bind Call.launchOf = some (id, q') := by
          rw [hc]
          rfl
        cases hp
        exact (h.mgr.watch_ne hheld hmon).2 rfl
    | returned err => cases hp
    | _ => cases hl

theorem NodeInv.reported {detail : GoString} {exitCode : Int}
    (hpc : mon.pc = .reporting err detail exitCode) (saved : Input) (c : Completion)
    (hid : c.executionID = mon.id) :
    NodeInv (⟨{ n.sys with world := (runtimeCompleted cfg saved c n.sys.world).1 },
      n.mgr.reported q mon ((runtimeCompleted cfg saved c n.sys.world).2.map reportFault)⟩ :
        Node cfg) := by
  have hun : mon.pc.unreported = true := by
    rw [hpc]
    rfl
  have hne : ∀ {id}, mon ≠ ⟨id, .watching⟩ := by
    rintro id rfl
    cases hpc
  refine h.settle (h.ledger.section (runtimeCompleted_effect saved c _)).inv
    (h.mgr.reported hmon ?_) rfl rfl (unreported_setMonitor hmon rfl fun _ => hun)
    (fun hrun => ⟨hrun, fun q' => watching_setMonitor hmon hne⟩) ?_
  · intro f hf
    obtain ⟨g, _, rfl⟩ := Option.map_eq_some_iff.mp hf
    exact present_reportFault g
  · intro id hend
    rcases @runtimeCompleted_executions cfg saved c n.sys.world with hsame | ⟨x, _, _, hset⟩
    · refine .inl fun y hy => hend y ?_
      rw [hsame id]
      exact hy
    · by_cases hk : id = mon.id
      · -- The execution has just ended: this was its only monitor.
        rw [hk]
        refine .inr ⟨h.not_pending_of_unreported hmon hun, ?_⟩
        rintro ⟨q', mon', hq', hid', hun'⟩
        simp only [Manager.reported, AList.lookup_insert_if] at hq'
        split at hq'
        · cases hq'
          split at hun' <;> cases hun'
        rename_i hqq
        obtain ⟨_, _, _, _, hreg⟩ := h.mgr.watch hmon
        obtain ⟨_, _, _, _, hreg'⟩ := h.mgr.watch hq'
        rw [hid', hreg] at hreg'
        cases hreg'
        exact hqq rfl
      · refine .inl fun y hy => hend y ?_
        rw [hset id, if_neg (hid ▸ hk)]
        exact hy

end Monitor

theorem NodeInv.watch {code : UInt32} {saved : Input} (h : NodeInv n)
    (hok : n.inOrder (.watch q code err i saved) = true)
    (hw : n.watch q code err i saved = some n') : NodeInv n' := by
  obtain ⟨mon, hmon, hstep⟩ := Option.bind_eq_some_iff.mp hw
  split at hstep
  next hpc =>
    obtain ⟨m', ho, heq⟩ := Option.map_eq_some_iff.mp hstep
    cases heq
    refine h.observe hmon hpc ?_ ho
    intro herr
    obtain ⟨f, rfl⟩ := Option.isSome_iff_exists.mp herr
    simpa [Node.inOrder, hmon] using hok
  next hpc =>
    cases hstep
    exact h.reported hmon hpc saved _ rfl
  next hpc =>
    obtain ⟨m', hclean, heq⟩ := Option.map_eq_some_iff.mp hstep
    cases heq
    exact h.cleanup hmon hpc hclean
  next hpc =>
    obtain ⟨m', hf, heq⟩ := Option.map_eq_some_iff.mp hstep
    cases heq
    exact h.finish hmon hpc hf

end R1s.Runtime
