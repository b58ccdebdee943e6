/-
The cancellation at the end of a run: when `Run` returns an error and the
caller's context has ended, the execution assigned last was cancelled.

The target of the cancellation is the attempt `holdRun` returns, so the
argument is the one about the place of the lease intent, with three
additions. The last execution is known to the core, no execution was
cancelled before, and no assignment failed: an assignment whose send
fails may still have been delivered, and the run returns or goes on
without it.
-/
import R1s.Client.Proofs.Results

namespace R1s.Client

-- ===== the last execution

/-- The execution assigned last, if any, is in the core. -/
def LastKnown (v : View) : Prop := v.last = [] ∨ (v.outline.execution v.last).isSome = true

theorem isSome_setExecution {o : Outline} {x y k : GoString} {intent : Bool}
    (h : (o.execution y).isSome = true) :
    ((o.setExecution x k intent).execution y).isSome = true := by
  by_cases hy : y = x
  · rw [hy, Outline.execution_setExecution]
    rfl
  · rw [Outline.execution_setExecution_ne hy]
    exact h

theorem lastKnown_turns {kind : Mishap} {v v' : View} (hturns : Turns kind v v')
    (hplace : Place v) (h : LastKnown v) : LastKnown v' := by
  cases hturns with
  | chose | recorded => exact h.imp_right isSome_setExecution
  | assigned =>
    refine .inr ?_
    rw [hplace.1.execution]
    rfl
  | rebound hne hlost hnew =>
    exact h.imp_right fun hsome => isSome_setExecution (isSome_setExecution hsome)
  | _ => exact h

-- ===== the cancellations

/-- No execution was cancelled. -/
def State.Uncancelled (core : State) : Prop :=
  ∀ x r, core.executions.lookup x = some r → r.cancelMessageID = []

theorem State.Uncancelled.kept {cfg : Config} {core core' : State} {op : Op}
    (h : core.Uncancelled) (hkept : Kept cfg op core core')
    (hop : ∀ i x reason, op ≠ .cancel i x reason) : core'.Uncancelled := by
  intro x r' hr'
  rcases hkept.execution hr' with ⟨r, hr, hwork⟩ | hnew
  · rcases hwork.uncancelled (h x r hr) with hnone | ⟨i, reason, hcancel⟩
    · exact hnone
    · exact absurd hcancel (hop i x reason)
  · exact hnew.fresh.2.1

/-- The cancellation of an execution by the controller. -/
def cancellation (x : GoString) : Payload := .executionCancel ⟨x, Controller.cancelReason⟩

/-- `Cancel` of a known execution that was not cancelled succeeds. -/
theorem cancel_of_uncancelled (cfg : Config) {core : State} {i : Input} {x : GoString}
    (hknown : (core.executions.lookup x).isSome = true) (h : core.Uncancelled)
    (hid : i.id 0 ≠ []) (reason : GoString) :
    ∃ command, (cancel cfg i x reason core).2 = .ok command ∧
      command.2.payload = some (.executionCancel ⟨x, reason⟩) := by
  obtain ⟨r, hr⟩ := Option.isSome_iff_exists.mp hknown
  unfold cancel
  rw [hr]
  simp only [h x r hr, if_true, hid, if_false]
  exact ⟨_, rfl, rfl⟩

section

variable {cfg : Config} {s t : Controller} {m : Move} {i : Input} {err : Err}

/-- The cancellation of the result's execution is under way or done. -/
def Cancels (sends : List Sent) : Pc → Prop
  | .sendingCancel result _ _ e =>
    e.payload = some (cancellation result.attempt.executionID)
  | .returned result (some _) (some _) =>
    result.attempt.executionID = [] ∨
      ∃ d ∈ sends, d.envelope.payload = some (cancellation result.attempt.executionID)
  | _ => True

variable {sends : List Sent}

/-- Nothing was assigned, so there is nothing to cancel. -/
theorem Cancels.unassigned {result : Result} {context : Option ContextEnd}
    (h : result.attempt.executionID = []) :
    Cancels sends (.returned result (some err) context) := by
  cases context with
  | none => exact trivial
  | some c => exact .inl h

theorem cancels_bestEffortCancel {result : Result}
    (h : s.bestEffortCancel cfg i result err = some t)
    (hknown : result.attempt.executionID = [] ∨
      (s.core.executions.lookup result.attempt.executionID).isSome = true)
    (huncancelled : s.core.Uncancelled) : Cancels t.sends t.pc := by
  unfold Controller.bestEffortCancel at h
  split at h
  next hempty =>
    cases h
    exact .unassigned hempty
  rename_i hne
  split at h
  · cases h
  rename_i hid
  have hcancel := cancel_of_uncancelled cfg (hknown.resolve_left hne) huncancelled hid
    Controller.cancelReason
  obtain ⟨command, hok, hpayload⟩ := hcancel
  dsimp only at h
  rw [hok] at h
  cases h
  exact hpayload

-- ===== the runs

/-- `renewOrReRequest` meets no error once it rebound the intent, and an
assignment fails only in the first attempt and before the context ends. -/
structure Careful (cfg : Config) (s : Controller) (l : RunLabel) : Prop where
  gaveUp : ∀ r, s.pc.renewal = some r → r.rerequested = true → s.errs cfg l = false
  refused : ∀ a d e err, s.pc = .assigning a d e → l = .move (.sent (some err)) →
    a.caller = .run ∧ s.context = none

theorem Careful.unparted {l : RunLabel} (h : Careful cfg s l) : Unparted cfg s l := by
  refine ⟨h.gaveUp, ?_⟩
  intro a d e err hpc hl
  rw [(h.refused a d e err hpc hl).1]
  rfl

/-- The cancellation has been created, or there is none. -/
def Pc.closed : Pc → Bool
  | .sendingCancel _ _ _ _ | .returned _ _ _ => true
  | _ => false

theorem closed_turn (h : s.turn cfg m = some t)
    (hs : s.pc.closed = true ∨ ∃ result err, s.pc = .cancelling result err) :
    t.pc.closed = true := by
  unfold Controller.turn at h
  rcases hs with hclosed | ⟨result, err, hpc⟩
  · cases hpc : s.pc with
    | sendingCancel result err d e =>
      rw [hpc] at h
      cases m <;> cases h
      rfl
    | returned result err c =>
      rw [hpc] at h
      cases m <;> cases h
    | _ =>
      rw [hpc] at hclosed
      cases hclosed
  · rw [hpc] at h
    cases m with
    | next i =>
      rcases bestEffortCancel_pc h with hclosed | ⟨d, e, hclosed⟩
      · rw [hclosed]
        rfl
      · rw [hclosed]
        rfl
    | _ => cases h

theorem Cancels.mono {pc : Pc} {sends' : List Sent} (h : Cancels sends pc)
    (hle : ∀ d ∈ sends, d ∈ sends') : Cancels sends' pc := by
  unfold Cancels at h ⊢
  split at h
  · exact h
  · rcases h with hempty | ⟨d, hd, hpayload⟩
    · exact .inl hempty
    · exact .inr ⟨d, hle d hd, hpayload⟩
  · exact trivial

/-- Every assignment so far names its execution and was sent without an
error. -/
def Clean (sends : List Sent) : Prop :=
  ∀ d ∈ sends, ∀ x, d.execution = some x → d.failed = false ∧ x ≠ []

theorem handedOver_of_clean (h : Clean sends) : handedOver sends = assigned sends := by
  unfold handedOver assigned
  induction sends with
  | nil => rfl
  | cons d rest ih =>
    have hrest := ih fun d' hd' => h d' (List.mem_cons_of_mem _ hd')
    cases hd : d.execution with
    | none =>
      rw [List.filterMap_cons_none hd, hrest, List.filter_cons]
      split
      · rw [List.filterMap_cons_none hd]
      · rfl
    | some x =>
      have hfailed := (h d List.mem_cons_self x hd).1
      rw [List.filterMap_cons_some hd, hrest, List.filter_cons_of_pos (by rw [hfailed]; rfl),
        List.filterMap_cons_some hd]

/-- What holds of the end of every careful run. -/
structure Tidy (s : Controller) : Prop where
  known : LastKnown s.view
  uncancelled : s.pc.closed = false → s.core.Uncancelled
  cancels : Cancels s.sends s.pc
  clean : Clean s.sends ∨ ∃ result err, s.pc = .returned result err none

theorem Tidy.aside (h : Tidy s) (hkeyed : Keyed s.core) (haside : Aside cfg s t) : Tidy t := by
  have huncancelled : s.core.Uncancelled → t.core.Uncancelled := by
    obtain ⟨ops, hquiet, hcore⟩ := haside.core
    rw [hcore]
    clear hcore
    generalize s.core = core
    induction ops generalizing core with
    | nil => exact id
    | cons op rest ih =>
      intro hcore
      refine ih (fun op' hop => hquiet op' (List.mem_cons_of_mem _ hop)) _ ?_
      refine hcore.kept (kept_apply core op) ?_
      rintro i x reason rfl
      cases hquiet _ List.mem_cons_self
  rcases haside.view hkeyed with ⟨hview, hpc⟩ | ⟨q, hidle, hpc, hview⟩
  · refine ⟨by rw [hview]; exact h.known, ?_, ?_, ?_⟩
    · rw [hpc]
      exact fun hopen => huncancelled (h.uncancelled hopen)
    · rw [hpc, haside.sends]
      exact h.cancels
    · rw [hpc, haside.sends]
      exact h.clean
  · have hopen : s.pc = .idle := by
      rcases haside.pc with hsame | ⟨hidle', -⟩
      · rw [← hsame, hpc] at hidle
        cases hidle
      · exact hidle'
    refine ⟨by rw [hview]; exact h.known, ?_, ?_, ?_⟩
    · exact fun _ => huncancelled (h.uncancelled (by rw [hopen]; rfl))
    · rw [hpc]
      exact trivial
    · refine .inl ?_
      rw [haside.sends]
      refine h.clean.resolve_right ?_
      rintro ⟨result, err, hreturned⟩
      rw [hopen] at hreturned
      cases hreturned

theorem Tidy.uncancelled_turn (h : Tidy s) (hturn : s.turn cfg m = some t)
    (hopen : t.pc.closed = false) : t.core.Uncancelled := by
  have hclosed := closed_turn hturn
  rw [hopen] at hclosed
  have hs : s.pc.closed = false := by
    by_contra hne
    exact nomatch hclosed (.inl (by simpa using hne))
  rcases (turned_turn hturn).core with hcore | ⟨op, hcore, hfits⟩
  · rw [hcore]
    exact h.uncancelled hs
  · rw [hcore]
    refine (h.uncancelled hs).kept (kept_apply s.core op) ?_
    rintro i x reason rfl
    exact nomatch hclosed (.inr hfits)

theorem Tidy.cancels_turn (h : Tidy s) (hplace : Place s.view) (htransmits : Transmits s m t)
    (hturn : s.turn cfg m = some t) : Cancels t.sends t.pc := by
  cases (turned_turn hturn).lands with
  | stays hpc =>
    rw [hpc]
    exact h.cancels.mono htransmits.subset
  | plain hpc =>
    generalize t.pc = pc at hpc
    cases pc <;> first | exact trivial | cases hpc
  | unplaced err hpc =>
    rw [hpc]
    exact .unassigned rfl
  | failed a err hpc | ends a state r hpc | concluded a state hs hpc =>
    rw [hpc]
    exact trivial
  | fails result err hs ht =>
    subst ht
    split
    · exact trivial
    next hnone =>
      rw [Option.not_isSome_iff_eq_none.mp hnone]
      exact trivial
  | cancels i result err hs hcancel =>
    refine cancels_bestEffortCancel hcancel ?_ (h.uncancelled (by rw [hs]; rfl))
    -- the attempt is the last one assigned, and the core knows that one
    rw [Controller.view, hs] at hplace
    have hlast : (assigned s.sends).headD [] = result.attempt.executionID := hplace
    have hknown : (assigned s.sends).headD [] = [] ∨
      (s.core.outline.execution ((assigned s.sends).headD [])).isSome = true := h.known
    rw [hlast] at hknown
    refine hknown.imp_right fun hsome => ?_
    rw [State.outline] at hsome
    simpa using hsome
  | cancelled result err d e failed hs ht =>
    have hcancels := h.cancels
    rw [hs] at hcancels
    subst ht
    cases s.context with
    | none => exact trivial
    | some c => exact .inr ⟨_, List.mem_cons_self, hcancels⟩

/-- The execution that is about to be assigned has a name. -/
theorem named_of_place {a : Asked} {d : GoString} {e : Envelope} (hkeyed : Keyed s.core)
    (hplace : Place s.view) (hpc : s.pc = .assigning a d e) : Controller.executionOf e ≠ [] := by
  rw [Controller.view, hpc] at hplace
  have hexecution : s.core.outline.execution (Controller.executionOf e) = some _ :=
    hplace.1.execution
  obtain ⟨r, hr, -⟩ := Option.map_eq_some_iff.mp hexecution
  exact (hkeyed.execution hr).2

theorem Tidy.clean_turn (h : Tidy s) (hkeyed : Keyed s.core) (hplace : Place s.view)
    (htyped : s.pc.Typed) (hcareful : Careful cfg s (.move m))
    (htransmits : Transmits s m t) (hturn : s.turn cfg m = some t) :
    Clean t.sends ∨ ∃ result err, t.pc = .returned result err none := by
  have hclean : Clean s.sends := by
    refine h.clean.resolve_right ?_
    rintro ⟨result, err, hpc⟩
    unfold Controller.turn at hturn
    rw [hpc] at hturn
    cases m <;> cases hturn
  cases htransmits with
  | others new ht hnew =>
    refine .inl ?_
    rw [ht]
    intro d hd x hx
    rcases List.mem_append.mp hd with hd | hd
    · rw [hnew htyped d hd] at hx
      cases hx
    · exact hclean d hd x hx
  | assigns a d e outcome hs hm ht =>
    subst ht
    cases outcome with
    | none =>
      refine .inl ?_
      intro d' hd' x hx
      rcases List.mem_cons.mp hd' with rfl | hd'
      · have hnamed := named_of_place hkeyed hplace hs
        rw [hs] at htyped
        obtain rfl : x = Controller.executionOf e := Option.some.inj (hx.symm.trans htyped.2)
        exact ⟨rfl, hnamed⟩
      · exact hclean d' hd' x hx
    | some err =>
      obtain ⟨hrun, hnone⟩ := hcareful.refused a d e err hs (congrArg _ hm)
      refine .inr ⟨{}, some err, ?_⟩
      unfold Controller.assign
      rw [hrun, ← hnone]
      rfl

theorem tidy_reachable (h : (runs cfg).ReachWhen (Careful cfg) s) : Tidy s := by
  refine h.invariant_with (J := fun s => Keyed s.core ∧ Place s.view ∧ s.pc.Typed) (I := Tidy)
    (fun s hs => ⟨keyed_core (hs.mono fun _ _ _ => trivial),
      place_reachable (fun _ _ => Careful.unparted) hs⟩) ?_ ?_
  · rintro s ⟨destinations, rfl⟩
    refine ⟨.inl rfl, ?_, trivial, .inl ?_⟩
    · intro _ x r hr
      cases hr
    · intro d hd
      cases hd
  · rintro s l t ⟨hkeyed, hplace, htyped⟩ - hs hguard hstep
    rcases step_cases hstep with ⟨m, rfl, hturn⟩ | haside
    · have hsim := simulates_turn (fit_of_place hkeyed htyped hplace) hturn
      obtain ⟨kind, hturns, -⟩ := hsim
      have htransmits := (turned_turn hturn).sends
      exact ⟨lastKnown_turns hturns hplace hs.known, hs.uncancelled_turn hturn,
        hs.cancels_turn hplace htransmits hturn,
        hs.clean_turn hkeyed hplace htyped hguard htransmits hturn⟩
    · exact hs.aside hkeyed haside

/-- In every careful run, when `Run` returns an error and the context has
ended, the execution whose assignment was handed to the transport last
was cancelled. -/
theorem careful_runs_cancel_their_last_execution
    (h : (runs cfg).ReachWhen (Careful cfg) s) {result : Result} {c : ContextEnd} {x : GoString}
    (hpc : s.pc = .returned result (some err) (some c))
    (hx : (handedOver s.sends).head? = some x) :
    ∃ d ∈ s.sends, d.envelope.payload = some (.executionCancel ⟨x, Controller.cancelReason⟩) := by
  obtain ⟨hplace, -⟩ := place_reachable (fun _ _ => Careful.unparted) h
  have htidy := tidy_reachable h
  have hclean : Clean s.sends := by
    refine htidy.clean.resolve_right ?_
    rintro ⟨result', err', hreturned⟩
    rw [hpc] at hreturned
    cases hreturned
  rw [Controller.view, hpc] at hplace
  have hlast : (assigned s.sends).headD [] = result.attempt.executionID := hplace
  rw [handedOver_of_clean hclean] at hx
  obtain ⟨rest, hrest⟩ := List.head?_eq_some_iff.mp hx
  rw [hrest] at hlast
  have hcancels := htidy.cancels
  rw [hpc] at hcancels
  rcases hcancels with hempty | hcancelled
  · -- an execution without a name is never assigned
    have hmem : x ∈ handedOver s.sends := by
      rw [handedOver_of_clean hclean, hrest]
      exact List.mem_cons_self
    obtain ⟨d, hd, hdx⟩ := List.mem_filterMap.mp hmem
    exact absurd (hlast.trans hempty) (hclean d hd x hdx).2
  · rw [← hlast] at hcancelled
    exact hcancelled

-- ===== an error

/-- How `Run` returned once the context had ended. -/
def Pc.interrupted : Pc → Option (Result × Err × ContextEnd)
  | .returned result (some err) (some c) => some (result, err, c)
  | _ => none

theorem Pc.interrupted_eq {pc : Pc} (h : pc.interrupted.isSome = true) :
    ∃ result err c, pc = .returned result (some err) (some c) := by
  unfold Pc.interrupted at h
  split at h
  next result err c => exact ⟨result, err, c, rfl⟩
  · cases h

def isCancel (d : Sent) : Bool :=
  match d.envelope.payload with
  | some (.executionCancel _) => true
  | _ => false

/-- The context ends while the first assignment is sent: the run returns
at once, and whatever the transport did with the assignment, it is not
cancelled. -/
theorem interrupted_assignment_is_not_cancelled :
    ∃ s result err c, (runs plainClient).Reach s ∧
      s.pc = .returned result (some err) (some c) ∧
      (handedOver s.sends).head? = some (text "x") ∧
      (∀ d ∈ s.sends, ∀ command, d.envelope.payload ≠ some (.executionCancel command)) ∧
      (s.core.executions.lookup (text "x")).bind ExecutionRecord.state = none := by
  obtain ⟨s, hs, hp⟩ := (runs plainClient).exists_reach ⟨[], rfl⟩
    ([ .start false, .run (some plainRequest) {} ] ++ (placing "request" "m1" "x" "m2").take 6 ++
      [ .endContext .canceled, .move (.sent (some Sentinel.canceled.err)) ])
    (fun s => s.pc.interrupted.isSome
      && decide ((handedOver s.sends).head? = some (text "x"))
      && s.sends.all (fun d => !isCancel d)
      && ((s.core.executions.lookup (text "x")).bind ExecutionRecord.state).isNone)
    (by decide +kernel)
  simp only [Bool.and_eq_true, decide_eq_true_eq, List.all_eq_true, Bool.not_eq_true',
    Option.isNone_iff_eq_none] at hp
  obtain ⟨⟨⟨hreturned, hlast⟩, hnone⟩, hstate⟩ := hp
  obtain ⟨result, err, c, hpc⟩ := Pc.interrupted_eq hreturned
  refine ⟨s, result, err, c, hs, hpc, hlast, ?_, hstate⟩
  intro d hd command hcommand
  have hd' := hnone d hd
  rw [isCancel, hcommand] at hd'
  cases hd'

/-- `Careful`, as it is evaluated. -/
def careful (cfg : Config) (s : Controller) (l : RunLabel) : Bool :=
  (!s.errs cfg l || s.pc.renewal.all fun r => !r.rerequested) &&
  match s.pc, l with
  | .assigning a _ _, .move (.sent (some _)) => decide (a.caller = .run) && s.context.isNone
  | _, _ => true

theorem careful_of_eval (s : Controller) (l : RunLabel) (h : careful cfg s l = true) :
    Careful cfg s l := by
  obtain ⟨hgaveUp, hrefused⟩ := Bool.and_eq_true_iff.mp h
  refine ⟨?_, ?_⟩
  · intro r hr hrerequested
    rw [hr] at hgaveUp
    simpa [hrerequested] using hgaveUp
  · rintro a d e err hpc rfl
    rw [hpc] at hrefused
    simpa using hrefused

/-- Once the run is held, the end of the context cancels it. -/
theorem interrupted_hold_is_cancelled :
    ∃ s result err c, (runs plainClient).ReachWhen (Careful plainClient) s ∧
      s.pc = .returned result (some err) (some c) ∧
      (handedOver s.sends).head? = some (text "x") ∧
      ∃ d ∈ s.sends,
        d.envelope.payload = some (.executionCancel ⟨text "x", Controller.cancelReason⟩) := by
  obtain ⟨s, hs, hp⟩ := (runs plainClient).exists_reachWhen
    (fun s l => careful plainClient s l = true) ⟨[], rfl⟩
    ([ .start false, .run (some plainRequest) {} ] ++ placing "request" "m1" "x" "m2" ++
      [ .move (.next {}),
        .move (.next {}),
        .move (.next (plainInput [])),
        .move (.next (plainInput ["m3"])),
        .move (.sent none),
        .endContext .canceled,
        .move .done,
        .move (.next {}),
        .move .done,
        .move (.next {}),
        .move (.next (plainInput ["m4"])),
        .move (.sent none) ])
    (fun s => s.pc.interrupted.isSome ∧ (handedOver s.sends).head? = some (text "x"))
    (by decide +kernel)
  have hs := hs.mono careful_of_eval
  obtain ⟨result, err, c, hpc⟩ := Pc.interrupted_eq hp.1
  exact ⟨s, result, err, c, hs, hpc, hp.2,
    careful_runs_cancel_their_last_execution hs hpc hp.2⟩

end

end R1s.Client
