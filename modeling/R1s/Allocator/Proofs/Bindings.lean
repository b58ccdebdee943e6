/-
What a step of the allocator does to the tunnel registry, and what a
completion that cannot be saved leaves of a tunnel.

# The list

Most sections leave the registry alone. It changes when an execution
ends, when a tunnel-open is bound, when a session is opened, found
without a live execution, or closed by its holder, and in a completion
whose save fails: the record and the ledger come back there, the binding
does not. `RegistryStep` lists these, each with what the section knows of
the records at that moment.

Sessions end once and alone over every run of the registry
(`sessions_end_once`).
-/
import R1s.Allocator.Proofs.Tunnels
import R1s.Tunnel.Sessions

namespace R1s.Allocator

variable {cfg : Config} {i : Input} {m m' : Mem} {w w' : World}

-- ===== the list

/-- The execution has a record and the record is terminal. -/
def Mem.ended (m : Mem) (id : GoString) : Bool :=
  (m.executions.lookup id).any fun r => r.phase.terminal

/-- What a section at `pc` does to the registry. -/
inductive RegistrySection (pc : Pc cfg) (m m' : Mem) : Prop
  | same (h : m'.tunnels = m.tunnels)
  | ended {k : GoString} {x : ExecutionRecord} (hx : m.executions.lookup k = some x)
      (hend : m'.ended k = true) (h : m'.tunnels = m.tunnels.invalidate x.id)
  | bound {e : Inbound cfg} {q : ExecutionTunnelOpen} {now : Int} {targets : List Nat}
      {endpoint : Tunnel.Endpoint} (hpc : pc = .binding e q now)
      (h : m.tunnels.bind q.executionID q.yggPeerPubkey targets endpoint = .ok m'.tunnels)
  | opened {id : GoString} {peerKey : Bytes} {session : Tunnel.Session}
      (hpc : pc = .tunnelGranting id peerKey)
      (h : m.tunnels.open id peerKey = .ok (m'.tunnels, session))
  | rechecked {id : GoString} {session : Tunnel.Session}
      (hpc : pc = .tunnelChecking id session) (hdead : m'.live id = false)
      (h : m'.tunnels = m.tunnels.closeSession id)

/-- The completion is undone: its execution is live and the save of its
end is refused. -/
def Completion.undone (cfg : Config) (i : Input) (c : Completion) (w : World) : Bool :=
  c.executionID ≠ [] && (w.mem.executions.lookup c.executionID).any fun x =>
    !x.phase.terminal &&
      match persist cfg i.saved
        (w.setMem (finish cfg c.executionID x c.phase c.text c.exitCode i.now w.mem)) with
      | .ok _ => false
      | .error _ => true

/-- What a step does to the registry. -/
inductive RegistryStep (s t : System cfg) (l : Label cfg) : Prop
  | ran {pc : Pc cfg} (hpc : s.point l = some pc)
      (h : RegistrySection pc s.world.mem t.world.mem)
  | same (h : t.world.mem.tunnels = s.world.mem.tunnels)
  | closed {session : Tunnel.Session} (hl : l = .closeTunnel session)
      (h : t.world.mem.tunnels = s.world.mem.tunnels.release session)
  | completed {x : ExecutionRecord} {k : GoString}
      (hx : s.world.mem.executions.lookup k = some x) (hend : t.world.mem.ended k = true)
      (h : t.world.mem.tunnels = s.world.mem.tunnels.invalidate x.id)
  | undone {c : Completion} {i : Input} {x : ExecutionRecord} (hl : l = .completed c i)
      (hundone : c.undone cfg i s.world = true)
      (hx : s.world.mem.executions.lookup c.executionID = some x)
      (h : t.world.mem.tunnels = s.world.mem.tunnels.invalidate x.id)

-- ===== the sections

variable {pc : Pc cfg} {k id detail : GoString} {x : ExecutionRecord} {phase : ExecutionPhase}

theorem RegistrySection.finish (hx : m.executions.lookup k = some x)
    (hend : phase.terminal = true) (exitCode : Option Int) (now : Int) :
    RegistrySection pc m (finish cfg k x phase detail exitCode now m) := by
  refine .ended hx ?_ rfl
  unfold Mem.ended Allocator.finish
  rw [AList.lookup_insert]
  exact hend

theorem RegistrySection.startReturned (i : Input) (hx : m.executions.lookup k = some x) :
    RegistrySection pc m (startReturned cfg i k x m) := by
  unfold Allocator.startReturned
  split
  · split
    · exact .finish hx rfl none i.now
    · exact .same rfl
  · exact .same rfl

theorem RegistrySection.stopSucceeded (now : Int) (hx : m.executions.lookup k = some x)
    (hend : phase.terminal = true) :
    RegistrySection pc m (stopSucceeded cfg now k x phase detail m) := by
  unfold Allocator.stopSucceeded
  split
  · exact .same rfl
  · exact .finish hx hend none now

theorem advance_registry {tid : Nat} {next : Next cfg}
    (h : advance tid pc i w = some (w', next)) : RegistrySection pc w.mem w'.mem := by
  obtain ⟨b, m, ha, hl⟩ := advance_effect h
  rw [hl.mem]
  cases ha with
  | started hpc hx => exact .startReturned i hx
  | @stopped _ _ _ phase _ hpc hend hx => exact .stopSucceeded i.now hx phase.2
  | unstopped =>
    refine .same ?_
    unfold stopFailed
    split <;> rfl
  | bound hpc h => exact .bound (Option.some.inj hpc) h
  | opened hpc h => exact .opened (Option.some.inj hpc) h
  | rechecked hpc hdead => exact .rechecked (Option.some.inj hpc) hdead rfl
  | swept => exact .same (swept_tunnels i.now w.mem)
  | minted _ hm | unminted _ hm | unassigned _ hm | begun _ hm | evicted _ hm
  | unevicted _ hm =>
    subst hm
    exact .same rfl
  | closed hpc | completed hpc | uncompleted hpc => cases hpc
  | _ => exact .same rfl

variable {l : Label cfg} {s t : System cfg}

/-- Every step but a restart. -/
theorem step_registry (hl : l.isRestart = false) (h : s.step l = some t) : RegistryStep s t l := by
  cases l with
  | call | sweep | evictLeases | recover | openTunnel =>
    refine .same ?_
    rw [System.spawn_world h]
  | closeTunnel session =>
    cases h
    exact .closed rfl rfl
  | run tid i =>
    obtain ⟨pc, r, hpc, hr, rfl⟩ := run_step h
    exact .ran hpc (advance_registry hr)
  | completed c i =>
    cases h
    rcases runtimeCompleted_cases i c s.world with
      heq | ⟨x, hid, hx, hlive, hp | ⟨⟨err, hp⟩, heq⟩⟩
    · refine .same ?_
      rw [heq]
    · refine .completed hx ?_ ?_
      · show (runtimeCompleted cfg i c s.world).1.mem.ended c.executionID = true
        rw [persist_mem hp]
        show ((s.world.mem.executions.insert _ _).lookup _).any _ = true
        rw [AList.lookup_insert]
        exact c.phase_terminal
      · show (runtimeCompleted cfg i c s.world).1.mem.tunnels = _
        rw [persist_mem hp]
        rfl
    · refine .undone rfl ?_ hx ?_
      · simp [Completion.undone, hid, hx, hlive, hp]
      · rw [heq]
        rfl
  | expire i =>
    cases h
    refine .same ?_
    unfold sweepExpired
    split
    · rfl
    · rw [tryPersist_mem]
      rfl
  | view now =>
    cases h
    exact .same rfl
  | restart granted now => cases hl

-- ===== every state

theorem RegistrySection.move {pc : Pc cfg} (h : RegistrySection pc m m') :
    m'.tunnels = m.tunnels ∨ Tunnel.Registry.Move m.tunnels m'.tunnels := by
  cases h with
  | same h => exact .inl h
  | ended hx hend h =>
    rw [h]
    exact .inr (.invalidate _)
  | bound hpc h => exact .inr (.bind h)
  | opened hpc h => exact .inr (.open h)
  | rechecked hpc hdead h =>
    rw [h]
    exact .inr (.closeSession _)

/-- A step is at most one operation of the registry. -/
theorem RegistryStep.move (h : RegistryStep s t l) :
    t.world.mem.tunnels = s.world.mem.tunnels ∨
      Tunnel.Registry.Move s.world.mem.tunnels t.world.mem.tunnels := by
  cases h with
  | ran hpc h => exact h.move
  | same h => exact .inl h
  | closed hl h =>
    rw [h]
    exact .inr (.release _)
  | completed hx hend h | undone hl hundone hx h =>
    rw [h]
    exact .inr (.invalidate _)

theorem registry_reachable (hs : (machine cfg).Reach s) : s.world.mem.tunnels.Sound := by
  refine machine_invariant (I := fun s => s.world.mem.tunnels.Sound) .new ?_ ?_ hs
  · intro s l t _ h _ hl hstep
    rcases (step_registry hl hstep).move with hsame | hmove
    · rw [hsame]
      exact h
    · exact h.move hmove
  · intro s t granted now _ _ _ hstep
    obtain ⟨-, hload, -, -⟩ := restart_step hstep
    obtain ⟨-, hempty⟩ | ⟨snap, -, hload⟩ := hload
    · rw [hempty]
      exact .new
    · rw [load_tunnels hload]
      exact .new

-- ===== kept and removed

/-- The tunnel of `id` outlives a step: the binding is there, and a live
session is still live with its done channel open. -/
structure TunnelKept (m m' : Mem) (id : GoString) : Prop where
  bound : m'.bound id = true
  session : ∀ x, m.tunnels.session id = some x →
    m'.tunnels.session id = some x ∧ m'.tunnels.opened x = true

theorem TunnelKept.of_session (hm' : m'.tunnels.Sound) (hbound : m'.bound id = true)
    (hsession : ∀ x, m.tunnels.session id = some x → m'.tunnels.session id = some x) :
    TunnelKept m m' id := by
  refine ⟨hbound, fun x hx => ⟨hsession x hx, ?_⟩⟩
  unfold Tunnel.Registry.opened
  simpa using hm'.live (hsession x hx)

/-- Another execution's end. -/
theorem TunnelKept.invalidate (hm' : m'.tunnels.Sound) (hbound : m.bound id = true)
    (h : m'.tunnels = m.tunnels.invalidate k) (hne : id ≠ k) : TunnelKept m m' id := by
  refine .of_session hm' ?_ ?_
  · unfold Mem.bound
    rw [h, bound_invalidate, if_neg hne]
    exact hbound
  · intro x hx
    rw [h, Tunnel.session_invalidate, if_neg hne]
    exact hx

/-- What a step may do to a tunnel: leave it, end its session because its
holder closes it or its execution is no longer live, or drop it with the
execution's end. -/
def TunnelFate (s t : System cfg) (l : Label cfg) (id : GoString) : Prop :=
  TunnelKept s.world.mem t.world.mem id ∨
  (t.world.mem.bound id = true ∧
    ((∃ x, l = .closeTunnel x ∧ x.executionID = id) ∨ t.world.mem.live id = false)) ∨
  t.world.mem.ended id = true

section fates

variable {s t : System cfg} {l : Label cfg} (hlinked : Linked s.world.mem)
  (ht : t.world.mem.tunnels.Sound) (hbound : s.world.mem.bound id = true)

include ht hbound

theorem TunnelFate.same (h : t.world.mem.tunnels = s.world.mem.tunnels) : TunnelFate s t l id := by
  refine .inl (.of_session ht ?_ ?_)
  · unfold Mem.bound
    rw [h]
    exact hbound
  · intro x hx
    rw [h]
    exact hx

include hlinked

theorem TunnelFate.ended (hx : s.world.mem.executions.lookup k = some x)
    (hend : t.world.mem.ended k = true)
    (h : t.world.mem.tunnels = s.world.mem.tunnels.invalidate x.id) : TunnelFate s t l id := by
  have hid : x.id = k := (hlinked.execution hx).2.1
  by_cases hk : id = k
  · rw [hk]
    exact .inr (.inr hend)
  · rw [hid] at h
    exact .inl (.invalidate ht hbound h hk)

theorem RegistrySection.fate {pc : Pc cfg}
    (h : RegistrySection pc s.world.mem t.world.mem) : TunnelFate s t l id := by
  cases h with
  | same h => exact .same ht hbound h
  | ended hx hend h => exact .ended hlinked ht hbound hx hend h
  | @bound e q now targets endpoint hpc h =>
    refine .inl (.of_session ht ?_ ?_)
    · unfold Mem.bound
      rw [Tunnel.bind_ok h]
      rw [AList.lookup_insert_if]
      split
      · rfl
      · exact hbound
    · intro x hx
      rw [Tunnel.session_bind h]
      exact hx
  | opened hpc h =>
    refine .inl (.of_session ht ?_ ?_)
    · unfold Mem.bound
      rw [bound_open h]
      exact hbound
    · intro x hx
      rw [Tunnel.session_open h]
      split
      next heq =>
        obtain ⟨rec, hrec, hfree, -⟩ := Tunnel.open_ok h
        rw [heq, Tunnel.Registry.session, hrec, Option.bind_some, hfree] at hx
        cases hx
      · exact hx
  | @rechecked k session hpc hdead h =>
    have hbound' : t.world.mem.bound id = true := by
      unfold Mem.bound
      rw [h, bound_closeSession]
      exact hbound
    by_cases hk : id = k
    · rw [← hk] at hdead
      exact .inr (.inl ⟨hbound', .inr hdead⟩)
    · refine .inl (.of_session ht hbound' ?_)
      intro x hx
      rw [h, (Tunnel.ended_closeSession _ k).session, if_neg hk]
      exact hx

end fates

theorem Completion.undone_spec {c : Completion} (h : c.undone cfg i w = true) :
    ∃ x, w.mem.executions.lookup c.executionID = some x ∧ x.phase.terminal = false ∧
      (runtimeCompleted cfg i c w).1.mem.tunnels = w.mem.tunnels.invalidate x.id ∧
      (runtimeCompleted cfg i c w).1.mem.executions.lookup c.executionID = some x := by
  unfold Completion.undone at h
  rw [Bool.and_eq_true, Option.any_eq_true] at h
  obtain ⟨hid, x, hx, hbad⟩ := h
  rw [Bool.and_eq_true, Bool.not_eq_true'] at hbad
  obtain ⟨hlive, hbad⟩ := hbad
  refine ⟨x, hx, hlive, ?_⟩
  unfold runtimeCompleted
  rw [if_neg (of_decide_eq_true hid), hx]
  dsimp only
  rw [if_neg (by simp [hlive])]
  generalize persist cfg i.saved _ = saved at hbad ⊢
  cases saved with
  | ok w' => cases hbad
  | error err =>
    refine ⟨rfl, ?_⟩
    show ((_ : FMap GoString ExecutionRecord).insert c.executionID x).lookup _ = _
    rw [AList.lookup_insert]

theorem ended_iff {m : Mem} :
    m.ended id = true ↔ ∃ x, m.executions.lookup id = some x ∧ x.phase.terminal = true := by
  unfold Mem.ended
  rw [Option.any_eq_true]

/-- An execution that has ended stays so until a sweep takes it. -/
theorem ended_step (hs : (machine cfg).Reach s) (hl : l.isRestart = false)
    (hstep : s.step l = some t) (hend : s.world.mem.ended id = true) :
    t.world.mem.ended id = true ∨
      (∃ err, s.point l = some (.collecting err)) ∧
        t.world.mem.executions.lookup id = none := by
  obtain ⟨x, hx, hterminal⟩ := ended_iff.mp hend
  have same (h : t.world.mem.executions.lookup id = s.world.mem.executions.lookup id) :
      t.world.mem.ended id = true := ended_iff.mpr ⟨x, h.trans hx, hterminal⟩
  cases step_move hl hstep with
  | @run tid pc i r hpc hr =>
    have hrecord : RecordStep pc i r.2 s.world.mem.highWater id
        (s.world.mem.executions.lookup id) (r.1.mem.executions.lookup id) :=
      advance_record (ledgerWorld_reachable hs) hr id
    show r.1.mem.ended id = true ∨ _ ∧ r.1.mem.executions.lookup id = none
    rw [hx] at hrecord
    generalize hafter : r.1.mem.executions.lookup id = after at hrecord
    have became {y : ExecutionRecord} (hy : after = some y) (hend : y.phase.terminal = true) :
        r.1.mem.ended id = true := ended_iff.mpr ⟨y, hafter.trans hy, hend⟩
    cases hrecord with
    | same => exact .inl (became rfl hterminal)
    | started =>
      refine .inl (became rfl ?_)
      unfold startedRecord
      rw [if_neg]
      · exact hterminal
      · intro hphase
        rw [hphase] at hterminal
        cases hterminal
    | cancelling hactive =>
      rw [hactive.1] at hterminal
      cases hterminal
    | unstopped =>
      refine .inl (became rfl ?_)
      unfold unstopped
      rw [if_neg]
      · exact hterminal
      · intro hphase
        rw [hphase] at hterminal
        cases hterminal
    | stopped phase | recovered phase => exact .inl (became rfl (stopped_terminal phase))
    | reattached hpc hphase =>
      rw [hphase] at hterminal
      cases hterminal
    | renewed hpc hq hk hclient hlive =>
      rw [hlive] at hterminal
      cases hterminal
    | @collected err _ hcollecting =>
      refine .inr ⟨⟨err, ?_⟩, rfl⟩
      rw [← hcollecting]
      exact hpc
  | completed c i =>
    have hcompleted : SameExecutions s.world.mem (runtimeCompleted cfg i c s.world).1.mem ∨ _ :=
      runtimeCompleted_executions i c s.world
    rcases hcompleted with hsame | ⟨y, hy, hlive, hset⟩
    · exact .inl (same (hsame id))
    · refine .inl (same ?_)
      rw [hset id, if_neg]
      rintro rfl
      rw [hx] at hy
      cases hy
      rw [hlive] at hterminal
      cases hterminal
  | entered => exact .inl (same rfl)
  | quiet hsame => exact .inl (same (congrArg (AList.lookup id) hsame))

/-- A step that undoes no completion of a bound execution. -/
theorem step_fate (hs : (machine cfg).Reach s) (hl : l.isRestart = false)
    (hstep : s.step l = some t)
    (hwhen : ∀ c i, l = .completed c i → c.undone cfg i s.world = true →
      s.world.mem.bound c.executionID = false)
    (hbound : s.world.mem.bound id = true) : TunnelFate s t l id := by
  have hlinked := (ledgerWorld_reachable hs).mem.linked
  have ht := registry_reachable (hs.step trivial hstep)
  cases step_registry hl hstep with
  | ran hpc h => exact RegistrySection.fate hlinked ht hbound h
  | same h => exact .same ht hbound h
  | @closed session hclose h =>
    have hbound' : t.world.mem.bound id = true := by
      unfold Mem.bound
      rw [h, bound_release]
      exact hbound
    by_cases hid : session.executionID = id
    · exact .inr (.inl ⟨hbound', .inl ⟨session, hclose, hid⟩⟩)
    · refine .inl (.of_session ht hbound' ?_)
      intro x hx
      rcases Tunnel.ended_release s.world.mem.tunnels session with hsame | ⟨hend, -⟩
      · rw [h, hsame]
        exact hx
      · rw [h, hend.session, if_neg (Ne.symm hid)]
        exact hx
  | completed hx hend h => exact .ended hlinked ht hbound hx hend h
  | @undone c i x hcompleted hundone hx h =>
    have hid : x.id = c.executionID := (hlinked.execution hx).2.1
    refine .inl (.invalidate ht hbound h ?_)
    rintro rfl
    rw [hid, hwhen c i hcompleted hundone] at hbound
    cases hbound

/-- In every step but a restart, each tunnel is kept, loses its session
to its holder or to an execution that is no longer live, or goes with its
execution's end, if and only if the step undoes no completion of a bound
execution. -/
theorem undone_completions_cost_the_tunnel (cfg : Config) {s t : System cfg} {l : Label cfg}
    (hs : (machine cfg).Reach s) (hl : l.isRestart = false) (hstep : s.step l = some t) :
    (∀ id, s.world.mem.bound id = true → TunnelFate s t l id) ↔
      ∀ c i, l = .completed c i → c.undone cfg i s.world = true →
        s.world.mem.bound c.executionID = false := by
  have hlinked := (ledgerWorld_reachable hs).mem.linked
  constructor
  · rintro hfate c i rfl hundone
    obtain ⟨x, hx, hlive, htunnels, hback⟩ := Completion.undone_spec hundone
    have hid : x.id = c.executionID := (hlinked.execution hx).2.1
    cases hbound : s.world.mem.bound c.executionID with
    | false => rfl
    | true =>
      cases hstep
      have hgone : (runtimeCompleted cfg i c s.world).1.mem.bound c.executionID = false := by
        unfold Mem.bound
        rw [htunnels, bound_invalidate, if_pos hid.symm]
      rcases hfate _ hbound with hkept | ⟨hkept, -⟩ | hend
      · exact absurd hkept.bound (by rw [hgone]; nofun)
      · exact absurd hkept (by rw [hgone]; nofun)
      · unfold Mem.ended at hend
        rw [hback, Option.any_some, hlive] at hend
        cases hend
  · intro hwhen id hbound
    exact step_fate hs hl hstep hwhen hbound

-- ===== sessions

open Tunnel in
/-- Over every run of the registry a session ends once and alone, and
`OpenTunnelSession` returns one only while its execution is live. -/
theorem sessions_end_once (cfg : Config) :
    (∀ {r : Registry} {xs : List Session}, Registry.Run r xs →
      r.closed.Nodup ∧ (∀ x ∈ xs, r.active x = r.opened x) ∧
      (∀ x ∈ xs, ∀ y ∈ xs, x.executionID = y.executionID → r.opened x = true →
        r.opened y = true → x = y) ∧
      ∀ x, ∀ y ∈ xs, y.serial ≠ x.serial → (r.release x).opened y = r.opened y) ∧
    ∀ {tid : Nat} {pc : Pc cfg} {i : Input} {w w' : World} {id : GoString} {key : Bytes}
      {x : Session}, pc = .tunnelOpening id key ∨ pc = .tunnelGranting id key ∨
        pc = .tunnelChecking id x → advance tid pc i w = some (w', .done none) →
      w'.mem.live id = true := by
  refine ⟨fun {r xs} hrun => ?_, fun hpc h => ?_⟩
  · have htraced := hrun.traced
    have hheld : ∀ x ∈ xs, r.opened x = true → r.session x.executionID = some x := by
      intro x hx hopen
      refine (htraced.held x hx).resolve_right fun hclosed => ?_
      simp [Registry.opened, hclosed] at hopen
    refine ⟨htraced.once, fun x hx => ?_, fun x hx y hy hid hox hoy => ?_, fun x y _ hne => ?_⟩
    · have hactive : r.active x = true ↔ (r.session x.executionID).map Session.serial
          = some x.serial := by
        unfold Registry.active Registry.session
        cases r.records.lookup x.executionID <;> simp
      rw [Bool.eq_iff_iff, hactive]
      constructor
      · intro hserial
        obtain ⟨y, hy, hyx⟩ := Option.map_eq_some_iff.mp hserial
        simpa [Registry.opened, hyx] using htraced.sound.live hy
      · intro hopen
        rw [hheld x hx hopen, Option.map_some]
    · exact Option.some.inj ((hheld x hx hox).symm.trans (hid ▸ hheld y hy hoy))
    · rcases ended_release r x with hsame | ⟨hend, hserial⟩
      · rw [hsame]
      · simp [Registry.opened, hend.closed, hserial, hne]
  · rcases hpc with rfl | rfl | rfl
    · simp only [advance] at h
      split at h <;> simp at h
    · simp only [advance, grantSession] at h
      split at h <;> simp at h
    · simp only [advance, recheckSession] at h
      split at h
      next hlive =>
        cases h
        exact hlive
      · simp at h

-- ===== samples

/-- The sample execution is bound and its owner's session is live. -/
def sessionRun : List (Label tunnelSlot) :=
  checkedRun ++ bindRun ++
    [ .openTunnel 3 (text "x") (List.replicate 32 9), .run 3 { now := epoch },
      .run 3 { now := epoch }, .run 3 { now := epoch } ]

/-- Thread 3 is about to return a session of the sample execution. -/
def System.returning (s : System tunnelSlot) : Bool :=
  match s.threads.lookup 3 with
  | some (.tunnelChecking id _) => id = text "x"
  | _ => false

open Tunnel in
/-- A session that was released stays closed when its execution gets a
newer one, and the session `OpenTunnelSession` is about to return is one
of a live execution. -/
theorem newer_session_is_active :
    (∃ r x y, Registry.Run r [y, x] ∧ x.executionID = y.executionID ∧ r.opened x = false ∧
      r.active x = r.opened x ∧ r.opened y = true ∧ r.active y = r.opened y) ∧
    ∃ (s : System tunnelSlot) (x : Session) (w : World), (machine tunnelSlot).Reach s ∧
      s.threads.lookup 3 = some (.tunnelChecking (text "x") x) ∧
      advance 3 (.tunnelChecking (text "x") x : Pc tunnelSlot) { now := epoch } s.world
        = some (w, .done none) ∧
      w.mem.live (text "x") = true := by
  constructor
  · have hbind : Registry.new.bind (text "x") [1] [80] ⟨[], []⟩ = .ok _ := rfl
    have hfirst := Registry.Run.opened (.moved .new (.bind hbind))
      (show Registry.open _ (text "x") [1] = .ok (_, ⟨0, text "x", [1], [80], ⟨[], []⟩⟩) from rfl)
    have hrun := Registry.Run.opened
      (.moved hfirst (.release ⟨0, text "x", [1], [80], ⟨[], []⟩⟩))
      (show Registry.open _ (text "x") [1] = .ok (_, ⟨1, text "x", [1], [80], ⟨[], []⟩⟩) from rfl)
    have hactive := ((sessions_end_once tunnelSlot).1 hrun).2.1
    exact ⟨_, _, _, hrun, rfl, by decide, hactive _ (.tail _ (.head _)), by decide,
      hactive _ (.head _)⟩
  · obtain ⟨s, hs, hp⟩ := (machine tunnelSlot).exists_reach rfl
      sessionRun.dropLast
      (fun s => s.world.mem.live (text "x") && s.returning) (by decide +kernel)
    rw [Bool.and_eq_true] at hp
    obtain ⟨hlive, hpoint⟩ := hp
    unfold System.returning at hpoint
    split at hpoint
    next id x hpc =>
      obtain rfl := of_decide_eq_true hpoint
      have hreturns : advance 3 (.tunnelChecking (text "x") x : Pc tunnelSlot) { now := epoch }
          s.world = some (s.world, .done none) := by
        simp only [advance, recheckSession, hlive, if_true]
      exact ⟨s, x, s.world, hs, hpc, hreturns,
        (sessions_end_once tunnelSlot).2
          (.inr (a := _ = Pc.tunnelOpening (text "x") []) (.inr rfl)) hreturns⟩
    · cases hpoint

def sampleCompletion : Completion := ⟨text "x", none, [], none⟩

/-- A completion the store refuses: the execution is live again, its
binding is gone and its session is closed. -/
theorem refused_completion_closes_the_tunnel :
    ∃ (s t : System tunnelSlot) (x : Tunnel.Session), (machine tunnelSlot).Reach s ∧
      s.step (.completed sampleCompletion
        { now := epoch, saved := { fault := some ⟨[], text "disk full"⟩ } }) = some t ∧
      s.world.mem.bound (text "x") = true ∧ s.world.mem.tunnels.session (text "x") = some x ∧
      s.world.mem.tunnels.opened x = true ∧ t.world.mem.live (text "x") = true ∧
      t.world.mem.bound (text "x") = false ∧ t.world.mem.tunnels.opened x = false := by
  obtain ⟨s, hs, hp⟩ := (machine tunnelSlot).exists_reach rfl
    sessionRun
    (fun s => (s.world.mem.tunnels.session (text "x")).any fun x =>
      s.world.mem.bound (text "x") ∧ s.world.mem.tunnels.opened x ∧
      let m := (runtimeCompleted tunnelSlot
        { now := epoch, saved := { fault := some ⟨[], text "disk full"⟩ } } sampleCompletion
        s.world).1.mem
      m.live (text "x") ∧ m.bound (text "x") = false ∧ m.tunnels.opened x = false)
    (by decide +kernel)
  rw [Option.any_eq_true] at hp
  obtain ⟨x, hx, hp⟩ := hp
  obtain ⟨hbound, hopen, hlive, hgone, hclosed⟩ := of_decide_eq_true hp
  exact ⟨s, _, x, hs, rfl, hbound, hx, hopen, hlive, hgone, hclosed⟩

/-- A completion that is saved takes the tunnel with it. -/
theorem saved_completion_ends_the_tunnel :
    ∃ s t : System tunnelSlot, (machine tunnelSlot).Reach s ∧
      s.step (.completed sampleCompletion { now := epoch }) = some t ∧
      s.world.mem.bound (text "x") = true ∧
      TunnelFate s t (.completed sampleCompletion { now := epoch }) (text "x") := by
  obtain ⟨s, hs, hp⟩ := (machine tunnelSlot).exists_reach rfl
    sessionRun
    (fun s => s.world.mem.bound (text "x") &&
      !sampleCompletion.undone tunnelSlot { now := epoch } s.world)
    (by decide +kernel)
  rw [Bool.and_eq_true, Bool.not_eq_true'] at hp
  refine ⟨s, _, hs, rfl, hp.1, ?_⟩
  refine (undone_completions_cost_the_tunnel tunnelSlot hs rfl rfl).mpr ?_ (text "x") hp.1
  rintro c i heq hundone
  cases heq
  rw [hp.2] at hundone
  cases hundone

end R1s.Allocator
