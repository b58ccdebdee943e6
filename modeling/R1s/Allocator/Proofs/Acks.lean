/-
Acknowledged tunnels. A tunnel-open is acknowledged once its binding is
in the registry, and the acknowledgement is kept with the command: it
goes out again to every call that delivers the command again, for as long
as the cache has it. The binding is in memory only, and it goes with the
execution.

# What has to stay true

An acknowledgement that is still to be returned, by a call or from the
cache, is backed: its execution is bound or has ended (`Mem.backs`). An
end takes the binding but backs the acknowledgement, and a sweep that
collects the record drops the finished command with it. Three things do
not fit: a reload brings acknowledgements back and no bindings, a
completion whose save fails takes the binding of an execution that stays
live, and a sweep passes over calls that still have an acknowledgement to
return. `keepsBindings` is the condition that rules these out.
-/
import R1s.Allocator.Proofs.Acceptance
import R1s.Allocator.Proofs.Bindings
import R1s.Allocator.Proofs.Coalescing
import R1s.Allocator.Proofs.Collection

namespace R1s.Allocator

variable {cfg : Config} {s t : System cfg} {l : Label cfg} {w w' : World} {i : Input}
  {id : GoString}

-- ===== acknowledgements

/-- The execution a response acknowledges a tunnel for. -/
def ackedExecution (e : Envelope) : Option GoString :=
  match e.payload with
  | some (.executionTunnelOpenAck ack) => some ack.executionID
  | _ => none

/-- The command opens a tunnel to `id`. -/
def OpensTunnel (e : Envelope) (id : GoString) : Prop :=
  ∃ q, e.payload = some (.executionTunnelOpen q) ∧ q.executionID = id

variable {e : Envelope} {pc : Pc cfg}

/-- Only a bind makes an acknowledgement. -/
theorem Made.acked (h : Made cfg pc i w w' e) (hack : ackedExecution e = some id) :
    ∃ cmd q now, pc = .binding cmd q now ∧ q.executionID = id := by
  cases h with
  | bound hpc hid =>
    cases hack
    exact ⟨_, _, _, hpc, rfl⟩
  | _ => cases hack

variable {now : Int}

/-- An acknowledged bind has bound. -/
theorem tunnelBind_acked {cmd : Envelope} {q : ExecutionTunnelOpen}
    (he : e ∈ (tunnelBind cfg i now cmd q w).2.responses) (hack : ackedExecution e = some id) :
    q.executionID = id ∧ (tunnelBind cfg i now cmd q w).1.mem.bound id = true := by
  generalize hr : tunnelBind cfg i now cmd q w = r at he ⊢
  unfold tunnelBind at hr
  split at hr
  · subst hr
    cases he
  split at hr
  · subst hr
    cases he
  dsimp only at hr
  split at hr
  · subst hr
    cases he
  split at hr
  · subst hr
    cases he
  rename_i tunnels hbind
  subst hr
  have hid : q.executionID = id := by
    unfold respond at he
    split at he
    · cases he
    · obtain rfl := List.mem_singleton.mp he
      exact Option.some.inj hack
  refine ⟨hid, ?_⟩
  rw [← hid]
  show (tunnels.records.lookup q.executionID).isSome = true
  rw [Tunnel.bind_ok hbind]
  rw [AList.lookup_insert]
  rfl

/-- What `Handle` adds to a reply is no acknowledgement. -/
theorem published_acked {cmd : Inbound cfg} {reply : Reply}
    (he : e ∈ (published i cmd reply).responses) (hack : ackedExecution e = some id) :
    e ∈ reply.responses := by
  unfold published at he
  split at he
  · split at he
    · unfold errorResponse at he
      obtain rfl := List.mem_singleton.mp he
      cases hack
    · exact he
  · exact he

-- ===== the command

/-- Every acknowledgement in the system is for the execution its command
opens a tunnel to, and an entry in flight has no responses. -/
structure AcksOwn (s : System cfg) : Prop where
  posed : ∀ {tid posed}, (s.threads.lookup tid).bind Pc.posing = some posed →
    posed.1.1.payload = some posed.2.1
  finishing : ∀ {tid done}, (s.threads.lookup tid).bind Pc.finishes = some done →
    ∀ r ∈ done.2.responses, ∀ id, ackedExecution r = some id → OpensTunnel done.1.1 id
  cached : ∀ {k entry}, s.world.mem.replay.lookup k = some entry →
    ∀ r ∈ entry.responses, ∀ id, ackedExecution r = some id → OpensTunnel entry.envelope id
  flight : ∀ {k entry}, s.world.mem.replay.lookup k = some entry → entry.done = false →
    entry.responses = []
  disk : ∀ {snap}, s.world.disk = some snap → ∀ p ∈ snap.replay, ∀ r ∈ p.responses,
    ∀ id, ackedExecution r = some id → OpensTunnel p.envelope id

variable {tid : Nat}

/-- A handler that leaves an acknowledgement has bound its execution. -/
theorem finishing_acked {cmd : Inbound cfg} {reply : Reply}
    (h : advance tid pc i w = some (w', .goto (.finishing cmd reply))) {r : Envelope}
    (hr : r ∈ reply.responses) (hack : ackedExecution r = some id) :
    ∃ q now, pc = .binding cmd q now ∧ q.executionID = id ∧ w'.mem.bound id = true := by
  have hsourced := (advance_sourced h).held r hr
  cases advance_succ h with
  | bound =>
    rename_i q now
    have heq := Option.some.inj h
    have hworld : (tunnelBind cfg i now cmd.1 q w).1 = w' := congrArg Prod.fst heq
    have hreply : (tunnelBind cfg i now cmd.1 q w).2 = reply := by
      have hnext := congrArg Prod.snd heq
      cases hnext
      rfl
    rw [← hreply] at hr
    obtain ⟨hid, hbound⟩ := tunnelBind_acked hr hack
    rw [hworld] at hbound
    exact ⟨q, now, rfl, hid, hbound⟩
  | _ =>
    rcases hsourced with hheld | ⟨htells, -⟩ | hmade
    · cases hheld
    · cases htells
    · obtain ⟨_, _, _, hpc, -⟩ := hmade.acked hack
      cases hpc

theorem AcksOwn.cached_move (h : AcksOwn s) (hm : CacheMove s l t) {k : GoString}
    {entry : ReplayEntry} (hentry : t.world.mem.replay.lookup k = some entry) :
    (∀ r ∈ entry.responses, ∀ id, ackedExecution r = some id → OpensTunnel entry.envelope id) ∧
      (entry.done = false → entry.responses = []) := by
  have kept {entry : ReplayEntry} (hold : s.world.mem.replay.lookup k = some entry) :
      (∀ r ∈ entry.responses, ∀ id, ackedExecution r = some id → OpensTunnel entry.envelope id) ∧
        (entry.done = false → entry.responses = []) := ⟨h.cached hold, h.flight hold⟩
  cases hm with
  | quiet hcache => exact kept (hcache.sub k entry hentry)
  | joined hpc hcache =>
    rw [hcache] at hentry
    exact kept ((trimmed_prune _ _).sub k entry hentry)
  | begun hpc hnew htrim hcache =>
    rw [hcache, AList.lookup_insert_if] at hentry
    split at hentry
    · cases hentry
      exact ⟨fun r hr => absurd hr List.not_mem_nil, fun _ => rfl⟩
    · exact kept (htrim.sub k entry hentry)
  | @finished tid i _ e reply mine hpc hmine hbusy heq howner hcache hcalls =>
    rw [hcache, AList.lookup_insert_if] at hentry
    split at hentry
    · cases hentry
      refine ⟨fun r hr id hack => ?_, fun hflight => nomatch hflight⟩
      show OpensTunnel mine.envelope id
      rw [heq]
      have hdone : (s.threads.lookup tid).bind Pc.finishes = some (e, reply) := by
        rw [hpc]
        rfl
      exact h.finishing hdone r (published_acked hr hack) id hack
    · exact kept hentry

variable {r : World × Next cfg}

theorem AcksOwn.run (h : AcksOwn s) (hpc : s.threads.lookup tid = some pc)
    (hr : advance tid pc i s.world = some r) :
    (∀ {tid' posed}, ((s.resume tid pc i r).threads.lookup tid').bind Pc.posing = some posed →
      posed.1.1.payload = some posed.2.1) ∧
    ∀ {tid' done}, ((s.resume tid pc i r).threads.lookup tid').bind Pc.finishes = some done →
      ∀ e ∈ done.2.responses, ∀ id, ackedExecution e = some id → OpensTunnel done.1.1 id := by
  constructor
  · intro tid' posed hposed
    rcases resume_bind Pc.posing (fun _ _ _ => rfl) hposed with ⟨-, hold⟩ | ⟨-, p, hgoto, hnew⟩
    · exact h.posed hold
    · have hr' : advance tid pc i s.world = some (r.1, .goto p) := by rw [hr, ← hgoto]
      exact (advance_posing hr' hnew).1
  · intro tid' done hdone e he id hack
    rcases resume_bind Pc.finishes (fun _ _ _ => rfl) hdone with
      ⟨-, hold⟩ | ⟨-, p, hgoto, hnew⟩
    · exact h.finishing hold e he id hack
    · have hr' : advance tid pc i s.world = some (r.1, .goto p) := by rw [hr, ← hgoto]
      cases p <;> cases hnew
      rename_i cmd reply
      obtain ⟨q, now, rfl, hid, -⟩ := finishing_acked hr' he hack
      have hposed : (s.threads.lookup tid).bind Pc.posing
          = some (cmd, .executionTunnelOpen q, now) := by
        rw [hpc]
        rfl
      exact ⟨q, h.posed hposed, hid⟩

theorem AcksOwn.step (h : AcksOwn s) (hs : (machine cfg).Reach s) (hl : l.isRestart = false)
    (hstep : s.step l = some t) : AcksOwn t := by
  have hmove := step_cacheMove hs hl hstep
  have hcalls : (∀ {tid posed}, (t.threads.lookup tid).bind Pc.posing = some posed →
        posed.1.1.payload = some posed.2.1) ∧
      ∀ {tid done}, (t.threads.lookup tid).bind Pc.finishes = some done →
        ∀ r ∈ done.2.responses, ∀ id, ackedExecution r = some id → OpensTunnel done.1.1 id := by
    cases step_kind hstep with
    | run hpc hr => exact h.run hpc hr
    | restart => cases hl
    | other _ _ _ hentered =>
      have hnew : ∀ pc : Pc cfg, pc.entry = true → pc.posing = none ∧ pc.finishes = none := by
        intro pc hpc
        cases pc <;> first | exact ⟨rfl, rfl⟩ | cases hpc
      exact ⟨fun hposed => h.posed (hentered.bind (fun pc hpc => (hnew pc hpc).1) hposed),
        fun hdone => h.finishing (hentered.bind (fun pc hpc => (hnew pc hpc).2) hdone)⟩
  refine ⟨hcalls.1, hcalls.2, fun hentry => (h.cached_move hmove hentry).1,
    fun hentry => (h.cached_move hmove hentry).2, ?_⟩
  intro snap hsnap p hp r hr id hack
  rcases (step_changes hl hstep).disk with hsame | ⟨-, saved, hsaved⟩
  · rw [hsame] at hsnap
    exact h.disk hsnap p hp r hr id hack
  · obtain rfl := Option.some.inj (hsaved.symm.trans hsnap)
    obtain ⟨k, entry, -, hentry, rfl⟩ := mem_snapshot_replay.mp hp
    change r ∈ (if entry.done then entry.responses else []) at hr
    split at hr
    · exact (h.cached_move hmove hentry).1 r hr id hack
    · cases hr

theorem acksOwn_reachable (hs : (machine cfg).Reach s) : AcksOwn s := by
  refine machine_invariant (I := AcksOwn) ?_ ?_ ?_ hs
  · refine ⟨fun h => ?_, fun h => ?_, fun h => ?_, fun h => ?_, fun h => ?_⟩
    all_goals cases h
  · exact fun s l t hs h _ hl hstep => h.step hs hl hstep
  · intro s t granted now _ h _ hstep
    obtain ⟨-, hm, hdisk, hthreads⟩ := restart_step hstep
    have hback : ∀ {k entry}, t.world.mem.replay.lookup k = some entry →
        ∃ snap, s.world.disk = some snap ∧ ∃ p ∈ snap.replay, entry = p.restore := by
      intro k entry hentry
      obtain ⟨-, hempty⟩ | ⟨snap, hsnap, hload⟩ := hm
      · rw [hempty] at hentry
        cases hentry
      · exact ⟨snap, hsnap, loaded_entry hload hentry⟩
    refine ⟨?_, ?_, ?_, ?_, ?_⟩
    · simp [hthreads]
    · simp [hthreads]
    · intro k entry hentry
      obtain ⟨snap, hsnap, p, hp, rfl⟩ := hback hentry
      exact h.disk hsnap p hp
    · intro k entry hentry hflight
      obtain ⟨snap, hsnap, p, hp, rfl⟩ := hback hentry
      cases hflight
    · rw [hdisk]
      exact h.disk

-- ===== backing

/-- What an acknowledgement for `id` stands on: the execution is bound,
or it has ended. -/
def Mem.backs (m : Mem) (id : GoString) : Prop := m.bound id = true ∨ m.ended id = true

/-- The steps that leave acknowledgements backed. -/
structure keepsBindings (s : System cfg) (l : Label cfg) : Prop where
  /-- A completion is not undone if its execution is bound. -/
  completed : ∀ c i, l = .completed c i → c.undone cfg i s.world = true →
    s.world.mem.bound c.executionID = false
  /-- A sweep finds no call that has an acknowledgement to return for an
  execution whose retention is over. -/
  swept : ∀ err, s.point l = some (.collecting err) → ∀ tid p,
    s.threads.lookup tid = some p → ∀ r ∈ p.held, ∀ id, ackedExecution r = some id →
      ∀ x, s.world.mem.executions.lookup id = some x → x.phase.terminal = true →
        max s.world.mem.highWater l.input.now < x.retainUntil
  /-- A restart finds no acknowledgement saved but for executions that
  are saved as ended. -/
  restart : l.isRestart = true → ∀ snap, s.world.disk = some snap → ∀ p ∈ snap.replay,
    ∀ r ∈ p.responses, ∀ id, ackedExecution r = some id →
      ∃ x ∈ snap.executions, x.id = id ∧ x.phase.terminal = true

theorem backs_step (hs : (machine cfg).Reach s) (hl : l.isRestart = false)
    (hok : keepsBindings s l) (hstep : s.step l = some t) (h : s.world.mem.backs id) :
    t.world.mem.backs id ∨
      (∃ err, s.point l = some (.collecting err)) ∧ s.world.mem.ended id = true ∧
        t.world.mem.executions.lookup id = none := by
  rcases h with hbound | hend
  · rcases step_fate hs hl hstep hok.completed hbound with hkept | ⟨hkept, -⟩ | hended
    · exact .inl (.inl hkept.bound)
    · exact .inl (.inl hkept)
    · exact .inl (.inr hended)
  · rcases ended_step hs hl hstep hend with hended | ⟨hcollecting, hgone⟩
    · exact .inl (.inr hended)
    · exact .inr ⟨hcollecting, hend, hgone⟩

/-- The memory after the collecting section. -/
theorem collecting_mem {err : Option GoErr} (hr : advance tid (.collecting err) i w = some r) :
    r.1.mem = w.mem ∨ r.1.mem = swept cfg i.now w.mem := by
  have hmem : r.1.mem = (sweepCollect cfg i w).1.mem := by
    cases hr
    rfl
  rw [hmem]
  generalize hc : sweepCollect cfg i w = c
  obtain ⟨w₁, result⟩ := c
  cases result with
  | error e =>
    rw [sweepCollect_error hc]
    exact .inl rfl
  | ok pending => exact .inr (persist_mem (sweepCollect_ok hc).1)

/-- A sweep keeps a finished tunnel-open only with its execution. -/
theorem swept_opens {m : Mem} {k : GoString} {entry : ReplayEntry}
    (hentry : (swept cfg now m).replay.lookup k = some entry) (hdone : entry.done = true)
    (hopens : OpensTunnel entry.envelope id) : (swept cfg now m).executions.lookup id ≠ none := by
  obtain ⟨q, hq, rfl⟩ := hopens
  intro hgone
  change ((sweepCollected (sweepReady cfg now m)).replay.keep _).lookup k = some entry at hentry
  rw [AList.lookup_keep] at hentry
  have hkept := (Option.filter_eq_some_iff.mp hentry).2
  change (sweepCollected (sweepReady cfg now m)).executions.lookup q.executionID = none at hgone
  simp [hdone, retiredReplay, hq, hgone] at hkept

/-- An execution whose retention is not over stays. -/
theorem retained_swept (hs : (machine cfg).Reach s) {x : ExecutionRecord}
    (hx : s.world.mem.executions.lookup id = some x)
    (hretained : max s.world.mem.highWater now < x.retainUntil) :
    (swept cfg now s.world.mem).executions.lookup id = some x :=
  (collection_swept hs now).executions hx (.inr (.inl hretained))

/-- Every acknowledgement that is still to be returned is backed. -/
structure Backed (s : System cfg) : Prop where
  held : ∀ {tid p}, s.threads.lookup tid = some p → ∀ r ∈ p.held, ∀ id,
    ackedExecution r = some id → s.world.mem.backs id
  cached : ∀ {r}, s.world.mem.cached r → ∀ id, ackedExecution r = some id →
    s.world.mem.backs id

/-- The calls after a section that leads to no response. -/
theorem held_before {tid' : Nat} {p : Pc cfg} (hr : advance tid pc i s.world = some r)
    (hnone : r.2.held = []) (hp : (s.resume tid pc i r).threads.lookup tid' = some p)
    (he : e ∈ p.held) : s.threads.lookup tid' = some p := by
  rcases resume_threads hr hp with hself | ⟨-, hheld⟩ | hold
  · rw [Next.pc_eq_some.mp hself] at hnone
    change p.held = [] at hnone
    rw [hnone] at he
    cases he
  · rw [hheld, hnone] at he
    cases he
  · exact hold

theorem Backed.collected {err : Option GoErr} (h : Backed s) (hs : (machine cfg).Reach s)
    (hpc : s.threads.lookup tid = some (.collecting err)) (hok : keepsBindings s (.run tid i))
    (hr : advance tid (.collecting err) i s.world = some r) :
    Backed (s.resume tid (.collecting err) i r) := by
  have hnone : r.2.held = [] := by
    cases hr
    unfold collect
    dsimp only
    split <;> rfl
  have hacks := acksOwn_reachable hs
  rcases collecting_mem hr with hsame | hswept
  · refine ⟨fun {tid' p} hp e he id hack => ?_, fun {e} he id hack => ?_⟩
    · show r.1.mem.backs id
      rw [hsame]
      exact h.held (held_before hr hnone hp he) e he id hack
    · change r.1.mem.cached e at he
      show r.1.mem.backs id
      rw [hsame] at he ⊢
      exact h.cached he id hack
  · have hbound : ∀ id, r.1.mem.bound id = s.world.mem.bound id := by
      intro id
      unfold Mem.bound
      rw [hswept, swept_tunnels]
    refine ⟨fun {tid' p} hp e he id hack => ?_, fun {e} he id hack => ?_⟩
    · show r.1.mem.backs id
      have hold := held_before hr hnone hp he
      rcases h.held hold e he id hack with hb | hend
      · exact .inl ((hbound id).trans hb)
      · obtain ⟨x, hx, hterminal⟩ := ended_iff.mp hend
        have hretained := hok.swept err hpc tid' p hold e he id hack x hx hterminal
        refine .inr (ended_iff.mpr ⟨x, ?_, hterminal⟩)
        rw [hswept]
        exact retained_swept hs hx hretained
    · change r.1.mem.cached e at he
      show r.1.mem.backs id
      obtain ⟨k, entry, hentry, hmem⟩ := he
      have hbefore : s.world.mem.replay.lookup k = some entry :=
        (advance_trimmed rfl hr).sub k entry hentry
      rcases h.cached ⟨k, entry, hbefore, hmem⟩ id hack with hb | hend
      · exact .inl ((hbound id).trans hb)
      · -- The finished command was kept, so its execution was.
        have hdone : entry.done = true := by
          by_contra hflight
          rw [hacks.flight hbefore (by simpa using hflight)] at hmem
          cases hmem
        rw [hswept] at hentry
        have hthere := swept_opens hentry hdone (hacks.cached hbefore e hmem id hack)
        obtain ⟨y, hy⟩ := Option.ne_none_iff_exists'.mp hthere
        obtain ⟨x, hx, hterminal⟩ := ended_iff.mp hend
        have hold := swept_executions hy
        rw [hx] at hold
        cases hold
        refine .inr (ended_iff.mpr ⟨y, ?_, hterminal⟩)
        rw [hswept]
        exact hy

/-- Where a section has its acknowledgements from. -/
theorem Backed.led (h : Backed s) (hpc : s.threads.lookup tid = some pc)
    (hr : advance tid pc i s.world = some r) (he : e ∈ r.2.held)
    (hack : ackedExecution e = some id) : s.world.mem.backs id ∨ r.1.mem.bound id = true := by
  have hsourced : Sourced cfg pc i s.world r.1 r.2 := advance_sourced hr
  rcases hsourced.held e he with hheld | ⟨-, hcached⟩ | hmade
  · exact .inl (h.held hpc e hheld id hack)
  · exact .inl (h.cached hcached id hack)
  · obtain ⟨cmd, q, now, rfl, -⟩ := hmade.acked hack
    have hnext : r.2 = .goto (.finishing cmd (tunnelBind cfg i now cmd.1 q s.world).2) := by
      cases hr
      rfl
    rw [hnext] at he
    have hr' : advance tid (.binding cmd q now) i s.world
        = some (r.1, .goto (.finishing cmd (tunnelBind cfg i now cmd.1 q s.world).2)) := by
      rw [hr, ← hnext]
    obtain ⟨-, -, -, -, hbound⟩ := finishing_acked hr' he hack
    exact .inr hbound

theorem Backed.step (h : Backed s) (hs : (machine cfg).Reach s) (hl : l.isRestart = false)
    (hok : keepsBindings s l) (hstep : s.step l = some t) : Backed t := by
  by_cases hcollect : ∃ err, s.point l = some (.collecting err)
  · obtain ⟨err, hpoint⟩ := hcollect
    cases l with
    | run tid i =>
      obtain ⟨pc, r, hpc, hr, rfl⟩ := run_step hstep
      obtain rfl := Option.some.inj (hpc.symm.trans hpoint)
      exact h.collected hs hpc hok hr
    | _ => cases hpoint
  · -- What was backed is, and what is new is bound.
    have kept {id : GoString} (hid : s.world.mem.backs id ∨ t.world.mem.bound id = true) :
        t.world.mem.backs id := by
      rcases hid with hold | hnew
      · rcases backs_step hs hl hok hstep hold with hnow | ⟨hcollecting, -⟩
        · exact hnow
        · exact absurd hcollecting hcollect
      · exact .inl hnew
    cases step_kind hstep with
    | restart => cases hl
    | run hpc hr =>
      refine ⟨fun {tid' p} hp e he id hack => kept ?_, fun {e} he id hack => kept ?_⟩
      · rcases resume_threads hr hp with hself | ⟨-, hheld⟩ | hold
        · refine h.led hpc hr ?_ hack
          rw [Next.pc_eq_some.mp hself]
          exact he
        · rw [hheld] at he
          exact h.led hpc hr he hack
        · exact .inl (h.held hold e he id hack)
      · rcases advance_cached hr he with hold | hnew
        · exact .inl (h.cached hold id hack)
        · exact h.led hpc hr hnew hack
    | other _ _ hframe hentered =>
      refine ⟨fun {tid' p} hp e he id hack => kept (.inl ?_), fun {e} he id hack => kept (.inl ?_)⟩
      · rcases hentered.lookup hp with hold | hentry
        · exact h.held hold e he id hack
        · cases p <;> first | cases he | cases hentry
      · obtain ⟨k, entry, hentry, hmem⟩ := he
        rw [hframe.mem.replay] at hentry
        exact h.cached ⟨k, entry, hentry, hmem⟩ id hack

/-- A restart brings back acknowledgements of ended executions only. -/
theorem Backed.restart {granted : Int} (hs : (machine cfg).Reach s)
    (hok : keepsBindings s (.restart granted now))
    (hstep : s.step (.restart granted now) = some t) : Backed t := by
  obtain ⟨hstored, hm, -, hthreads⟩ := restart_step hstep
  refine ⟨by simp [hthreads], fun {e} he id hack => ?_⟩
  obtain ⟨-, hempty⟩ | ⟨snap, hsnap, hm⟩ := hm
  · rw [hempty] at he
    obtain ⟨k, entry, hentry, -⟩ := he
    cases hentry
  · obtain ⟨p, hp, hmem⟩ := cached_of_load hm he
    obtain ⟨x, hx, hid, hterminal⟩ := hok.restart rfl snap hsnap p hp e hmem id hack
    obtain ⟨saved, s₀, hs₀, rfl⟩ := saved_reachable hs hsnap
    obtain ⟨k, x₀, hx₀, rfl⟩ := mem_snapshot_executions.mp hx
    have hkey : x₀.save.id = k := by
      rw [← ((paired_reachable hs₀).execution hx₀).1]
      exact (Utf8.replaceInvalid_eq_self _).mpr
        (((sound_reachable hs₀).mem.execution hx₀).utf8 hstored).1
    refine .inr (ended_iff.mpr ⟨x₀.save.restore cfg granted, ?_, hterminal⟩)
    rw [lookup_load_executions hs₀ hstored hm, ← hid, hkey, hx₀]
    rfl

theorem backed_reachable (hs : (machine cfg).ReachWhen keepsBindings s) : Backed s := by
  refine machine_invariant (I := Backed) ?_ ?_ ?_ hs
  · refine ⟨fun {tid p} hp => ?_, fun {e} he => ?_⟩
    · cases hp
    · obtain ⟨k, entry, hentry, -⟩ := he
      cases hentry
  · exact fun s l t hs h hok hl hstep => h.step hs hl hok hstep
  · exact fun s t granted now hs _ hok hstep => .restart hs hok hstep

/-- In every run whose steps keep bindings, a call returns an
acknowledgement for an execution that has not ended only while the
registry has its binding. -/
theorem acknowledged_tunnels_are_bound (cfg : Config) {s t : System cfg} {l : Label cfg}
    (hs : (machine cfg).ReachWhen keepsBindings s) (hok : keepsBindings s l)
    (hstep : s.step l = some t) {e : Envelope} {id : GoString} {x : ExecutionRecord}
    (he : e ∈ s.returned l) (hack : ackedExecution e = some id)
    (hx : t.world.mem.executions.lookup id = some x) (hlive : x.phase.terminal = false) :
    t.world.mem.bound id = true := by
  have hreach : (machine cfg).Reach s := hs.mono fun _ _ _ => trivial
  have hbacked := backed_reachable hs
  cases l with
  | run tid i =>
    obtain ⟨pc, r, hpc, hr, rfl⟩ := run_step hstep
    have hheld : e ∈ r.2.held := by
      simp only [System.returned, hpc, Option.bind_some, hr] at he
      obtain ⟨w₁, next⟩ := r
      cases next with
      | ret reply => exact he
      | goto | done => cases he
    rcases hbacked.led hpc hr hheld hack with hback | hbound
    · rcases backs_step hreach rfl hok hstep hback with hnow | ⟨-, -, hgone⟩
      · rcases hnow with hbound | hend
        · exact hbound
        · obtain ⟨y, hy, hterminal⟩ := ended_iff.mp hend
          rw [hx] at hy
          cases hy
          rw [hlive] at hterminal
          cases hterminal
      · rw [hgone] at hx
        cases hx
    · exact hbound
  | _ => cases he

-- ===== samples

/-- The tunnel-open is acknowledged, the allocator restarts, and the
command is delivered again. -/
def redeliveredRun : List (Label tunnelSlot) :=
  checkedRun ++ bindRun ++
    [ .run 2 { now := epoch }, .restart epoch epoch, .call 2 tunnelCommand,
      .run 2 { now := epoch }, .run 2 { now := epoch } ]

/-- The second call is told what the first was, and there is no
binding. -/
theorem redelivered_ack_without_binding :
    ∃ (s t : System tunnelSlot) (e : Envelope) (x : ExecutionRecord),
      (machine tunnelSlot).Reach s ∧ s.step (.run 2 { now := epoch }) = some t ∧
      e ∈ s.returned (.run 2 { now := epoch }) ∧ ackedExecution e = some (text "x") ∧
      t.world.mem.executions.lookup (text "x") = some x ∧ x.phase.terminal = false ∧
      t.world.mem.bound (text "x") = false := by
  obtain ⟨s, hs, hp⟩ := (machine tunnelSlot).exists_reach rfl
    redeliveredRun
    (fun s => (s.step (.run 2 { now := epoch })).any fun t =>
      ((s.returned (.run 2 { now := epoch })).any fun e =>
        ackedExecution e == some (text "x")) &&
      t.world.mem.live (text "x") && !t.world.mem.bound (text "x"))
    (by decide +kernel)
  rw [Option.any_eq_true] at hp
  obtain ⟨t, hstep, hp⟩ := hp
  rw [Bool.and_eq_true, Bool.and_eq_true, List.any_eq_true, Bool.not_eq_true'] at hp
  obtain ⟨⟨⟨e, he, hack⟩, hlive⟩, hunbound⟩ := hp
  obtain ⟨x, hx, hphase⟩ := (Option.any_eq_true _ _).mp hlive
  exact ⟨s, t, e, x, hs, hstep, he, by simpa using hack, hx, by simpa using hphase, hunbound⟩

/-- The step restarts nothing, completes nothing and collects nothing. -/
def plainStep (s : System cfg) (l : Label cfg) : Bool :=
  match l, s.point l with
  | .restart _ _, _ | .completed _ _, _ | _, some (.collecting _) => false
  | _, _ => true

theorem keepsBindings_of_plain (h : plainStep s l = true) : keepsBindings s l := by
  refine ⟨?_, ?_, ?_⟩
  · rintro c i rfl
    cases h
  · intro err hpc
    unfold plainStep at h
    rw [hpc] at h
    cases l <;> cases h
  · intro hl
    cases l with
    | restart granted now => cases h
    | _ => cases hl

/-- The first call's acknowledgement comes with its binding. -/
theorem first_ack_has_its_binding :
    ∃ (s t : System tunnelSlot) (e : Envelope),
      (machine tunnelSlot).ReachWhen keepsBindings s ∧
      s.step (.run 2 { now := epoch }) = some t ∧
      e ∈ s.returned (.run 2 { now := epoch }) ∧ ackedExecution e = some (text "x") ∧
      t.world.mem.bound (text "x") = true := by
  obtain ⟨s, hs, hp⟩ := (machine tunnelSlot).exists_reachWhen
    (fun s l => plainStep s l = true) rfl (checkedRun ++ bindRun)
    (fun s => plainStep s (.run 2 { now := epoch }) &&
      (s.step (.run 2 { now := epoch })).any fun t =>
        ((s.returned (.run 2 { now := epoch })).any fun e =>
          ackedExecution e == some (text "x")) && t.world.mem.live (text "x"))
    (by decide +kernel)
  rw [Bool.and_eq_true, Option.any_eq_true] at hp
  obtain ⟨hplain, t, hstep, hp⟩ := hp
  rw [Bool.and_eq_true, List.any_eq_true] at hp
  obtain ⟨⟨e, he, hack⟩, hlive⟩ := hp
  obtain ⟨x, hx, hphase⟩ := (Option.any_eq_true _ _).mp hlive
  have hacked : ackedExecution e = some (text "x") := by simpa using hack
  have hs := hs.mono fun _ _ => keepsBindings_of_plain
  exact ⟨s, t, e, hs, hstep, he, hacked,
    acknowledged_tunnels_are_bound tunnelSlot hs (keepsBindings_of_plain hplain) hstep he hacked
      hx (by simpa using hphase)⟩

end R1s.Allocator
