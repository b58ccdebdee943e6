/-
Tunnel bindings and the executions they are for. Ending an execution
drops its binding in the same section, and a binding is only asked for
after a look at the record; but the look and the bind are two sections,
and an execution that ends between them is bound after its end.

# Two halves

No update but the bind adds a binding, and a record that is terminal has
none (`Fenced`): that is a property of one memory. That a record which is
there stays while its binding does is a property of steps, since a sweep
drops terminal records only.
-/
import R1s.Allocator.Proofs.Lifecycle
import R1s.Allocator.Proofs.Updates

namespace R1s.Allocator

variable {cfg : Config} {pc : Option (Pc cfg)} {i : Input} {m m' : Mem}

-- ===== the invariant

/-- The execution has a binding. -/
def Mem.bound (m : Mem) (id : GoString) : Bool := (m.tunnels.records.lookup id).isSome

/-- A terminal record has no binding. -/
structure Fenced (m : Mem) : Prop where
  keyed : ∀ {k x}, m.executions.lookup k = some x → x.id = k
  ended : ∀ {k x}, m.executions.lookup k = some x → x.phase.terminal = true →
    m.bound k = false

/-- The execution a bind of a tunnel-open is for. -/
def Pc.bindOf : Pc cfg → Option GoString
  | .binding _ q _ => some q.executionID
  | _ => none

theorem bound_invalidate (id k : GoString) :
    ((m.tunnels.invalidate k).records.lookup id).isSome = if id = k then false else m.bound id := by
  show ((m.tunnels.records.erase k).lookup id).isSome = _
  rw [AList.lookup_erase_if]
  split <;> rfl

theorem swept_tunnels (now : Int) (m : Mem) : (swept cfg now m).tunnels = m.tunnels := by
  refine (sweepCollected_frame (sweepReady cfg now m)).2.2.trans ?_
  show (effectiveNow now m).tunnels = _
  rw [effectiveNow_eq]

-- ===== per update

/-- A binding is added by a bind only. -/
theorem Update.bound_before (h : Update cfg pc i m m') (hpc : pc.bind Pc.bindOf = none)
    {id : GoString} (hid : m'.bound id = true) : m.bound id = true := by
  cases h with
  | finished | unfinished =>
    unfold Mem.bound at hid
    dsimp only [finish] at hid
    rw [bound_invalidate] at hid
    split at hid
    · cases hid
    · exact hid
  | swept =>
    unfold Mem.bound at hid ⊢
    rwa [swept_tunnels] at hid
  | bound hbinding _ =>
    rw [hbinding] at hpc
    cases hpc
  | session hsame =>
    unfold Mem.bound at hid ⊢
    rwa [← hsame]
  | clock | expired | cached | minted | unindexed | assigned | unassigned | freed | unfreed
  | reworked | cleaned => exact hid

/-- A record set over one with its ID, terminal only if that one was. -/
theorem Fenced.insert (h : Fenced m) {k : GoString} {x : ExecutionRecord}
    (hexecutions : m'.executions = m.executions.insert k x) (hid : x.id = k)
    (hend : x.phase.terminal = true → m'.bound k = false)
    (hbound : ∀ id, m'.bound id = true → m.bound id = true) : Fenced m' := by
  have hunbound : ∀ id, m.bound id = false → m'.bound id = false := by
    intro id hfalse
    cases hb : m'.bound id with
    | false => rfl
    | true => rw [hbound id hb] at hfalse; cases hfalse
  constructor
  · intro k' x' hx'
    rw [hexecutions] at hx'
    rcases AList.of_lookup_insert hx' with ⟨rfl, rfl⟩ | ⟨-, hx'⟩
    · exact hid
    · exact h.keyed hx'
  · intro k' x' hx' hterminal
    rw [hexecutions] at hx'
    rcases AList.of_lookup_insert hx' with ⟨rfl, rfl⟩ | ⟨-, hx'⟩
    · exact hend hterminal
    · exact hunbound _ (h.ended hx' hterminal)

theorem Fenced.sub (h : Fenced m)
    (hexecutions : ∀ k x, m'.executions.lookup k = some x → m.executions.lookup k = some x)
    (hbound : ∀ id, m'.bound id = m.bound id) : Fenced m' := by
  constructor
  · intro k x hx
    exact h.keyed (hexecutions k x hx)
  · intro k x hx hterminal
    rw [hbound]
    exact h.ended (hexecutions k x hx) hterminal

theorem Update.fenced (h : Update cfg pc i m m') (hpc : pc.bind Pc.bindOf = none)
    (hm : Fenced m) : Fenced m' := by
  have hbound : ∀ id, m'.bound id = true → m.bound id = true := fun _ => h.bound_before hpc
  cases h with
  | assigned => exact hm.insert rfl rfl (fun hend => nomatch hend) hbound
  | reworked hx hwork =>
    refine hm.insert rfl (hwork.id.trans (hm.keyed hx)) ?_ hbound
    intro hend
    rcases hwork.live with hsame | ⟨-, hlive⟩
    · rw [hsame] at hend
      exact hm.ended hx hend
    · rw [hlive] at hend
      cases hend
  | finished hx _ _ =>
    have hid := hm.keyed hx
    refine hm.insert rfl ?_ ?_ hbound
    · exact hid
    · intro _
      unfold Mem.bound
      dsimp only [finish]
      rw [bound_invalidate, if_pos hid.symm]
  | unfinished hx =>
    refine hm.insert rfl (hm.keyed hx) ?_ hbound
    intro _
    unfold Mem.bound
    rw [bound_invalidate, if_pos (hm.keyed hx).symm]
  | swept =>
    refine hm.sub (fun k x => swept_executions) ?_
    intro id
    unfold Mem.bound
    rw [swept_tunnels]
  | bound hbinding _ =>
    rw [hbinding] at hpc
    cases hpc
  | session hsame => exact hm.sub (fun _ _ hx => hx) hsame
  | clock | expired | cached | minted | unindexed | unassigned | freed | unfreed | cleaned =>
    exact hm.sub (fun _ _ hx => hx) fun _ => rfl

-- ===== per step

/-- A binding's execution is there and not terminal. -/
structure Tunnelled (m : Mem) : Prop where
  fenced : Fenced m
  live : ∀ {id}, m.bound id = true → m.live id = true

/-- The bind of a tunnel-open finds its execution as the look before it
did: known and not terminal. -/
def bindsLive (s : System cfg) (l : Label cfg) : Prop :=
  ∀ id, (s.point l).bind Pc.bindOf = some id → s.world.mem.live id = true

/-- A step that binds nothing. -/
theorem Tunnelled.step {s t : System cfg} {l : Label cfg} (h : Tunnelled s.world.mem)
    (hw : LedgerWorld cfg s.world) (hl : l.isRestart = false)
    (hpc : (s.point l).bind Pc.bindOf = none) (hstep : s.step l = some t) :
    Tunnelled t.world.mem := by
  have hchanges := step_changes hl hstep
  have hfenced : Fenced t.world.mem :=
    hchanges.invariant (fun _ _ hu => hu.fenced hpc) h.fenced
  refine ⟨hfenced, ?_⟩
  intro id hbound
  -- The binding is an old one, so the record was live and is still there.
  have hbefore : s.world.mem.bound id = true := by
    refine hchanges.invariant (I := fun m => m.bound id = true → s.world.mem.bound id = true)
      ?_ (fun hb => hb) hbound
    intro m m' hu hm hb
    exact hm (hu.bound_before hpc hb)
  have hlive := h.live hbefore
  obtain ⟨x, hx, hphase⟩ := (Option.any_eq_true _ _).mp hlive
  have hmove := step_recordMove hw hl hstep id
  rw [hx] at hmove
  have hopen : ∀ x', t.world.mem.executions.lookup id = some x' → x'.phase.terminal = false := by
    intro x' hx'
    cases hend : x'.phase.terminal with
    | false => rfl
    | true =>
      rw [hfenced.ended hx' hend] at hbound
      cases hbound
  unfold Mem.live
  cases hx' : t.world.mem.executions.lookup id with
  | none =>
    rw [hx'] at hmove
    cases hmove with
    | collected hend =>
      rw [hend] at hphase
      cases hphase
  | some x' =>
    show (!x'.phase.terminal) = true
    rw [hopen x' hx']
    rfl

/-- A bind on a live execution. -/
theorem Tunnelled.bind (h : Tunnelled m) {id : GoString} {peerKey : Bytes}
    {targets : List Nat} {endpoint : Tunnel.Endpoint} {tunnels : Tunnel.Registry}
    (hlive : m.live id = true) (hbind : m.tunnels.bind id peerKey targets endpoint = .ok tunnels) :
    Tunnelled { m with tunnels := tunnels } := by
  have hbound : ∀ id', ({ m with tunnels := tunnels } : Mem).bound id' = true →
      id' = id ∨ m.bound id' = true := by
    intro id' hid'
    unfold Tunnel.Registry.bind at hbind
    split at hbind
    · cases hbind
    split at hbind
    · cases hbind
    split at hbind
    · cases hbind
    cases hbind
    unfold Mem.bound at hid' ⊢
    rw [AList.lookup_insert_if] at hid'
    split at hid'
    next heq => exact .inl heq
    · exact .inr hid'
  refine ⟨⟨h.fenced.keyed, ?_⟩, ?_⟩
  · intro k x hx hend
    cases hb : ({ m with tunnels := tunnels } : Mem).bound k with
    | false => rfl
    | true =>
      rcases hbound k hb with rfl | hold
      · obtain ⟨x', hx', hphase⟩ := (Option.any_eq_true _ _).mp hlive
        rw [show m.executions.lookup k = some x from hx] at hx'
        cases hx'
        rw [hend] at hphase
        cases hphase
      · rw [h.fenced.ended hx hend] at hold
        cases hold
  · intro id' hid'
    rcases hbound id' hid' with rfl | hold
    · exact hlive
    · exact h.live hold

theorem Tunnelled.tunnelBind {w : World} (h : Tunnelled w.mem) (i : Input) (now : Int)
    (e : Envelope) {q : ExecutionTunnelOpen} (hlive : w.mem.live q.executionID = true) :
    Tunnelled (tunnelBind cfg i now e q w).1.mem := by
  unfold Allocator.tunnelBind
  split
  · exact h
  split
  · exact h
  dsimp only
  split
  · exact h
  · split
    · exact h
    next hbind => exact h.bind hlive hbind

/-- A reload starts with an empty registry. -/
theorem load_tunnels {granted now : Int} {snap : Snapshot} {m : Mem}
    (h : load cfg granted now snap = .ok m) : m.tunnels = Tunnel.Registry.new := by
  obtain ⟨index, executions, used, -, -, -, -, rfl⟩ := load_ok h
  rfl

theorem Tunnelled.fresh (hkeyed : ∀ {k x}, m.executions.lookup k = some x → x.id = k)
    (hnew : m.tunnels = Tunnel.Registry.new) : Tunnelled m := by
  have hnone : ∀ id, m.bound id = false := by
    intro id
    unfold Mem.bound
    rw [hnew]
    rfl
  refine ⟨⟨hkeyed, fun _ _ => hnone _⟩, ?_⟩
  intro id hid
  rw [hnone id] at hid
  cases hid

theorem Tunnelled.restart {s t : System cfg} {granted now : Int}
    (hw : LedgerWorld cfg t.world) (h : s.step (.restart granted now) = some t) :
    Tunnelled t.world.mem := by
  refine .fresh (fun hx => (hw.mem.linked.execution hx).2.1) ?_
  obtain ⟨-, hload, -, -⟩ := restart_step h
  obtain ⟨-, hempty⟩ | ⟨snap, -, hload⟩ := hload
  · rw [hempty]
    rfl
  · exact load_tunnels hload

/-- A binding is held for a known execution that is not terminal, in
every run whose binds find the execution as the look before them did. -/
theorem bindings_are_live (cfg : Config) {s : System cfg}
    (hs : (machine cfg).ReachWhen bindsLive s) {id : GoString}
    (hid : s.world.mem.bound id = true) :
    ∃ x, s.world.mem.executions.lookup id = some x ∧ x.phase.terminal = false := by
  have hinv : Tunnelled s.world.mem := by
    refine machine_invariant (I := fun s => Tunnelled s.world.mem) ?_ ?_ ?_ hs
    · exact .fresh (fun hx => nomatch hx) rfl
    · intro s l t hs h hok hl hstep
      cases hbind : (s.point l).bind Pc.bindOf with
      | none => exact h.step (ledgerWorld_reachable hs) hl hbind hstep
      | some id =>
        obtain ⟨p, hp, hpid⟩ := Option.bind_eq_some_iff.mp hbind
        cases p <;> cases hpid
        rename_i e q now
        cases l with
        | run tid i =>
          obtain ⟨p, r, hp', hr, rfl⟩ := run_step hstep
          obtain rfl := Option.some.inj (hp.symm.trans hp')
          cases hr
          exact h.tunnelBind i now e.1 (hok _ hbind)
        | _ => cases hp
    · intro s t granted now hs _ _ hstep
      have ht : (machine cfg).Reach t := .step (l := .restart granted now) hs trivial hstep
      exact .restart (ledgerWorld_reachable ht) hstep
  obtain ⟨x, hx, hphase⟩ := (Option.any_eq_true _ _).mp (hinv.live hid)
  exact ⟨x, hx, by simpa using hphase⟩

-- ===== samples

/-- The one-slot allocator with direct access enabled. -/
def tunnelSlot : Config :=
  { oneSlot with tunnelEnabled := true, tunnelEndpoint := ⟨[1], [2]⟩ }

def tunnelCommand : Inbound tunnelSlot :=
  ⟨fromAlice (text "m3") (.executionTunnelOpen ⟨text "x", List.replicate 32 9, [80]⟩),
    by decide +kernel⟩

/-- The execution "x" runs and its owner's tunnel-open has been checked. -/
def checkedRun : List (Label tunnelSlot) :=
  [ .call 0 ⟨requestCommand.1, requestCommand.2⟩, .run 0 { now := epoch },
    .run 0 { now := epoch }, .run 0 { now := epoch, id := text "o", id2 := text "a1" },
    .run 0 { now := epoch },
    .call 1 ⟨assignCommand.1, assignCommand.2⟩, .run 1 { now := epoch },
    .run 1 { now := epoch }, .run 1 { now := epoch },
    .run 1 { now := epoch, id := text "a2" }, .run 1 { now := epoch },
    .call 2 tunnelCommand, .run 2 { now := epoch }, .run 2 { now := epoch },
    .run 2 { now := epoch } ]

/-- The bind section of the tunnel-open. -/
def bindRun : List (Label tunnelSlot) := [.run 2 { now := epoch, id := text "a3" }]

/-- The execution completes between the check and the bind, and is bound
after its end. -/
theorem completed_execution_is_bound :
    ∃ s, (machine tunnelSlot).Reach s ∧ s.world.mem.bound (text "x") = true ∧
      ∀ x, s.world.mem.executions.lookup (text "x") = some x → x.phase.terminal = true := by
  obtain ⟨s, hs, hp⟩ := (machine tunnelSlot).exists_reach rfl
    (checkedRun ++ [.completed ⟨text "x", none, [], none⟩ { now := epoch }] ++ bindRun)
    (fun s => s.world.mem.bound (text "x")
      && (s.world.mem.executions.lookup (text "x")).all fun x => x.phase.terminal)
    (by decide +kernel)
  rw [Bool.and_eq_true] at hp
  refine ⟨s, hs, hp.1, ?_⟩
  intro x hx
  have hall := hp.2
  rw [hx] at hall
  exact hall

/-- The bind of a running execution. -/
theorem running_execution_is_bound :
    ∃ s, (machine tunnelSlot).ReachWhen bindsLive s ∧ s.world.mem.bound (text "x") = true ∧
      ∃ x, s.world.mem.executions.lookup (text "x") = some x ∧ x.phase.terminal = false := by
  have hguard : ∀ (s : System tunnelSlot) l,
      (((s.point l).bind Pc.bindOf).all fun id => s.world.mem.live id) = true →
        bindsLive s l := by
    intro s l h id hid
    rw [hid] at h
    exact h
  obtain ⟨s, hs, hp⟩ := (machine tunnelSlot).exists_reachWhen
    (fun s l => (((s.point l).bind Pc.bindOf).all fun id => s.world.mem.live id) = true) rfl
    (checkedRun ++ bindRun) (fun s => s.world.mem.bound (text "x")) (by decide +kernel)
  have hs := hs.mono hguard
  exact ⟨s, hs, hp, bindings_are_live tunnelSlot hs hp⟩

end R1s.Allocator
