/-
The run controller drives the client core: whatever it does, its core is
one that some sequence of the core's operations leads to (`reach_core`).
So what holds of every core the machine reaches holds in a run, and what
is proved here of a single step says which operation it was.

The rest of the module is about the steps that are not the controller's
own. A message, another method of the client, a start, a close or the end
of the context leave the controller where it stands and the placement as
it is.
-/
import R1s.Client.Proofs.Feedback
import R1s.Client.Proofs.Turn

namespace R1s.Client

variable {cfg : Config} {s t u : Controller} {m : Move} {i : Input} {c : Caller}

-- ===== the other steps

/-- The operations of messages and other methods. The route of a reply
says nothing of capacities. -/
def Op.aside : Op → Bool
  | .register a => a.capacity.isNone
  | .releases _ | .inspect _ _ | .logs _ _ | .tunnelOpen _ _ | .handle _ _ => true
  | _ => false

theorem Op.quiet_of_aside {op : Op} (h : op.aside = true) : op.quiet = true := by
  cases op <;> first | rfl | cases h

/-- What a step that is not the controller's own leaves as it is: only the
call of `Run` moves the controller. -/
structure Aside (cfg : Config) (s t : Controller) : Prop where
  core : ∃ ops : List Op, (∀ op ∈ ops, op.aside = true) ∧
    t.core = ops.foldl (fun core op => (op.apply cfg core).1) s.core
  sends : t.sends = s.sends
  pc : t.pc = s.pc ∨ s.pc = .idle ∧ ∃ q, t.pc = .creating .run q []

theorem Aside.same (hcore : t.core = s.core) (hsends : t.sends = s.sends) (hpc : t.pc = s.pc) :
    Aside cfg s t :=
  ⟨⟨[], List.forall_mem_nil _, hcore⟩, hsends, .inl hpc⟩

theorem aside_deliver (route : Option Route) (e : Envelope) :
    Aside cfg s (s.deliver cfg route i e) := by
  have hcore : ∃ ops : List Op, (∀ op ∈ ops, op.aside = true) ∧
      (handleEnvelope cfg route i e s.core s.waiters).1 =
        ops.foldl (fun core op => (op.apply cfg core).1) s.core := by
    unfold handleEnvelope
    cases route with
    | none =>
      refine ⟨[.handle i e], by simp [Op.aside], ?_⟩
      dsimp only
      split <;> rfl
    | some d =>
      dsimp only
      split
      · exact ⟨[.register { identity := e.sender, destination := d.1 }], by simp [Op.aside], rfl⟩
      · refine ⟨[.register { identity := e.sender, destination := d.1 }, .handle i e],
          by simp [Op.aside], ?_⟩
        split <;> rfl
  exact ⟨hcore, rfl, .inl rfl⟩

theorem aside_beginRun (request : Option ExecutionRequest) (options : RunOptions) :
    Aside cfg s (s.beginRun request options).1 := by
  have hsame : Aside cfg s s := .same rfl rfl rfl
  unfold Controller.beginRun
  split
  · exact hsame
  rename_i q
  dsimp only
  generalize (if options.offerWait = 0 then _ else options.offerWait) = offerWait
  generalize (if options.leaseDuration = 0 then _ else options.leaseDuration) = leaseDuration
  split
  · exact hsame
  split
  · exact hsame
  split
  · exact hsame
  split
  · exact hsame
  split
  next hpc => exact ⟨⟨[], List.forall_mem_nil _, rfl⟩, rfl, .inr ⟨hpc, q, rfl⟩⟩
  · exact hsame

/-- A step is the controller's own or one aside. -/
theorem step_cases {l : RunLabel} (h : s.step cfg l = some t) :
    (∃ m, l = .move m ∧ s.turn cfg m = some t) ∨ Aside cfg s t := by
  cases l with
  | start failed =>
    refine .inr ?_
    rw [Controller.step] at h
    split at h
    · cases h
      exact .same rfl rfl rfl
    · cases h
      exact .same rfl rfl rfl
  | close =>
    cases h
    exact .inr (.same rfl rfl rfl)
  | run request options =>
    cases h
    exact .inr (aside_beginRun request options)
  | endContext c =>
    cases h
    exact .inr (.same rfl rfl rfl)
  | deliver route i e =>
    cases h
    exact .inr (aside_deliver route e)
  | other op =>
    refine .inr ?_
    rw [Controller.step] at h
    split at h
    next hpublic =>
      cases h
      refine ⟨⟨[op], ?_, rfl⟩, rfl, .inl rfl⟩
      intro op' hop
      obtain rfl := List.mem_singleton.mp hop
      cases op' <;> first | rfl | cases hpublic
    · cases h
  | move m => exact .inl ⟨m, rfl, h⟩

-- ===== the runs

/-- The core of a run is one the machine of the core reaches. -/
theorem reach_core (h : (runs cfg).Reach s) : (machine cfg).Reach s.core := by
  have hfold : ∀ (ops : List Op) {core : State}, (machine cfg).Reach core →
      (machine cfg).Reach (ops.foldl (fun core op => (op.apply cfg core).1) core) := by
    intro ops
    induction ops with
    | nil => exact fun hcore => hcore
    | cons op rest ih => exact fun hcore => ih (.step hcore trivial rfl)
  refine h.invariant (I := fun s => (machine cfg).Reach s.core) ?_ ?_
  · rintro s ⟨destinations, rfl⟩
    exact .init rfl
  · intro s l t hs _ hstep
    rcases step_cases hstep with ⟨m, -, hturn⟩ | haside
    · rcases (turned_turn hturn).core with hcore | ⟨op, hcore, -⟩
      · rw [hcore]
        exact hs
      · rw [hcore]
        exact .step hs trivial rfl
    · obtain ⟨ops, -, hcore⟩ := haside.core
      rw [hcore]
      exact hfold ops hs

theorem keyed_core (h : (runs cfg).Reach s) : Keyed s.core := keyed_reachable (reach_core h)

/-- A step aside keeps the outline. -/
theorem Aside.outline (h : Aside cfg s t) (hkeyed : Keyed s.core) :
    t.core.outline = s.core.outline := by
  obtain ⟨ops, hquiet, hcore⟩ := h.core
  rw [hcore]
  have hfold : ∀ (ops : List Op) (core : State), Keyed core →
      (∀ op ∈ ops, op.aside = true) →
      (ops.foldl (fun core op => (op.apply cfg core).1) core).outline = core.outline := by
    intro ops
    induction ops with
    | nil => exact fun _ _ _ => rfl
    | cons op rest ih =>
      intro core hkeyed hquiet
      have hkept : Kept cfg op core (op.apply cfg core).1 := kept_apply core op
      exact (ih _ (hkeyed.kept hkept) fun op' hop => hquiet op' (List.mem_cons_of_mem _ hop)).trans
        (outline_quiet hkeyed (Op.quiet_of_aside (hquiet op List.mem_cons_self)) hkept)
  exact hfold ops s.core hkeyed hquiet

end R1s.Client
