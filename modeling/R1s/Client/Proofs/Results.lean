/-
What a run holds on to and what it returns. A terminal state that is read
for an execution is that execution's own, from the core to the result
`Run` returns; with the place of the lease intent and the attempt numbers
this settles which attempt a steady run goes on with at each iteration
of the hold loop.

A run whose renewal fails after the lease was rebound shows why it has to
be steady: it goes back to the attempt it lost.
-/
import R1s.Client.Proofs.Holder

namespace R1s.Client

section

variable {cfg : Config} {s t u : Controller} {m : Move} {i : Input} {c : Caller} {err : Err}

variable {a : Attempt} {x : GoString} {state : ExecutionState}

-- ===== the states

/-- The terminal state that was read for an execution, until `Run` has
returned it. -/
def Pc.outcome : Pc → Option (GoString × ExecutionState)
  | .ending a state => some (a.executionID, state)
  | .failing result _ | .cancelling result _ | .sendingCancel result _ _ _
  | .returned result _ _ => result.state.map fun state => (result.attempt.executionID, state)
  | _ => none

/-- The state is dropped, kept or read from the core. -/
theorem outcome_turn (h : s.turn cfg m = some t) :
    t.pc.outcome = none ∨ t.pc.outcome = s.pc.outcome ∨
      ∃ x state r, t.pc.outcome = some (x, state) ∧ s.core.executions.lookup x = some r ∧
        r.state = some state := by
  cases (turned_turn h).lands with
  | stays h => exact .inr (.inl (congrArg Pc.outcome h))
  | plain h =>
    refine .inl ?_
    generalize t.pc = pc at h
    cases pc <;> first | rfl | cases h
  | unplaced err h | failed a err h => exact .inl (by rw [h]; rfl)
  | ends a state r h hr hstate =>
    exact .inr (.inr ⟨a.executionID, state, r, by rw [h]; rfl, hr, hstate⟩)
  | concluded a state hs h => exact .inr (.inl (by rw [h, hs]; rfl))
  | fails result err hs h =>
    refine .inr (.inl ?_)
    rw [h, hs]
    split <;> rfl
  | cancels i result err hs h =>
    refine .inr (.inl ?_)
    rcases bestEffortCancel_pc h with hpc | ⟨d, e, hpc⟩
    · rw [hpc, hs]
      rfl
    · rw [hpc, hs]
      rfl
  | cancelled result err d e failed hs h =>
    refine .inr (.inl ?_)
    rw [h, hs]
    rfl

/-- The state filed under an execution is one of it. -/
theorem filed_core (h : (runs cfg).Reach s) {r : ExecutionRecord}
    (hr : s.core.executions.lookup x = some r) (hstate : r.state = some state) :
    state.executionID = x := by
  have hfiled := (reach_core h).invariant (I := fun core => ∀ x r state,
    core.executions.lookup x = some r → r.state = some state → state.executionID = x) ?_ ?_
  · exact hfiled x r state hr hstate
  · rintro core rfl x r state hr
    cases hr
  · intro core op core' hfiled _ hstep x r' state hr' hstate
    cases hstep
    have hkept : Kept cfg op core (op.apply cfg core).1 := kept_apply core op
    rcases hkept.execution hr' with ⟨r, hr, hwork⟩ | hnew
    · rcases hwork.state with hsame | ⟨i, e, state', -, -, -, -, hid, hread⟩
      · exact hfiled x r state hr (hsame.symm.trans hstate)
      · cases Option.some.inj (hread.symm.trans hstate)
        exact hid
    · rw [hnew.fresh.2.2.2.2.2] at hstate
      cases hstate

/-- What `Run` returns is the state of the execution it names. -/
theorem outcome_reachable (h : (runs cfg).Reach s) (hx : s.pc.outcome = some (x, state)) :
    state.executionID = x := by
  revert x state
  refine h.invariant_with (J := (runs cfg).Reach)
    (I := fun s => ∀ {x : GoString} {state : ExecutionState},
      s.pc.outcome = some (x, state) → state.executionID = x) (fun _ hs => hs) ?_ ?_
  · rintro s ⟨destinations, rfl⟩ x state hx
    cases hx
  · intro s l t hreach _ hs _ hstep x state hx
    rcases step_cases hstep with ⟨m, -, hturn⟩ | haside
    · rcases outcome_turn hturn with hnone | hsame | ⟨y, state', r, hy, hr, hstate⟩
      · exact nomatch hnone.symm.trans hx
      · exact hs (hsame.symm.trans hx)
      · cases Option.some.inj (hy.symm.trans hx)
        exact filed_core hreach hr hstate
    · rcases haside.pc with hpc | ⟨-, q, hpc⟩
      · rw [hpc] at hx
        exact hs hx
      · rw [hpc] at hx
        cases hx

/-- The execution carries a lease intent. -/
def State.intended (core : State) (x : GoString) : Bool :=
  (core.executions.lookup x).any fun r => decide (0 < r.leaseDuration)

theorem intended_iff {core : State} : core.intended x = true ↔ core.outline.carries x := by
  unfold State.intended Outline.carries State.outline
  cases hx : core.executions.lookup x <;> simp [hx]

/-- In every steady run, the attempt `holdRun` goes on with is the last
one assigned and the only one with a lease intent, no two attempts have
one number, and what `Run` returns is of the execution assigned last. -/
theorem steady_runs_hold_their_last_attempt (h : (runs cfg).ReachWhen (Steady cfg) s) :
    (∀ a, s.pc = .holding a → (assigned s.sends).head? = some a.executionID ∧
      ∀ x, s.core.intended x = true ↔ x = a.executionID) ∧
    (∀ k k' r r', s.core.requests.lookup k = some r → s.core.requests.lookup k' = some r' →
      r.request.attempt = r'.request.attempt → k = k') ∧
    (∀ result err c, s.pc = .returned result err c →
      (assigned s.sends).headD [] = result.attempt.executionID ∧
      ∀ state, result.state = some state → state.executionID = result.attempt.executionID) := by
  have hreach : (runs cfg).Reach s := h.mono fun _ _ _ => trivial
  obtain ⟨hplace, -⟩ := place_reachable (fun _ _ => Steady.unparted) h
  refine ⟨?_, ?_, ?_⟩
  · intro a hpc
    rw [Controller.view, hpc] at hplace
    obtain ⟨hcarries, hlast⟩ := hplace
    refine ⟨?_, fun x => intended_iff.trans (hcarries x)⟩
    -- the active execution has a name, so the head is not the default
    obtain ⟨k, hk⟩ := (hcarries a.executionID).mpr rfl
    obtain ⟨r, hr, -⟩ := Option.map_eq_some_iff.mp hk
    have hnamed := ((keyed_core hreach).execution hr).2
    cases hsends : assigned s.sends with
    | nil =>
      rw [hsends] at hlast
      exact absurd hlast.symm hnamed
    | cons x rest =>
      rw [hsends] at hlast
      exact congrArg some hlast
  · intro k k' r r' hr hr' hattempt
    exact (newest_reachable h).2 k k' _ _ _ _ (outline_request hr) (outline_request hr') hattempt
  · intro result err c hpc
    refine ⟨?_, ?_⟩
    · rw [Controller.view, hpc] at hplace
      exact hplace
    · intro state hstate
      refine outcome_reachable hreach ?_
      rw [hpc]
      show result.state.map _ = _
      rw [hstate]
      rfl

-- ===== an error

/-- The request of a run. -/
def plainRequest : ExecutionRequest :=
  ⟨[], some ⟨text "image", [], [], .empty, []⟩, some ⟨⟩, text "small", none, [], 0⟩

def plainRoute : Option Route := some ⟨text "there", by decide +kernel⟩

/-- A request in a message, its offer, the assignment, and the attempt. -/
def placing (request message execution assignment : String) : List RunLabel :=
  [ .move (.next (plainInput [request, message])),
    .move (.next {}),
    .deliver plainRoute (plainInput []) (plainReply message (.executionOffer
      { plainOffer with requestID := text request })),
    .move .timer,
    .move (.next (plainInput [execution, assignment])),
    .move (.next {}),
    .move (.sent none),
    .move (.next {}),
    .move (.next {}) ]

/-- The lease of the first attempt `x` is due when its eviction is
observed; the run is placed again as `y`. -/
def evicted : List RunLabel :=
  [ .start false, .run (some plainRequest) {} ] ++ placing "request" "m1" "x" "m2" ++
    [ .move (.next {}),
      .move (.next {}),
      .move (.next (plainInput [])),
      .deliver none (plainInput []) (plainReply "m2" (.executionState
        ⟨text "x", .failed, some (Timestamp.new 62135596800000000000),
          Allocator.leaseExpiredDetail, none, 2⟩)),
      .move (.next (plainInput ["m3"])),
      .move (.next {}),
      .move (.next {}) ] ++ placing "request2" "m4" "y" "m5" ++
    [ .move (.next {}), .move (.next (plainInput ["m6"])) ]

/-- The attempt of the next iteration of the hold loop. -/
def Pc.held : Pc → Option Attempt
  | .holding a => some a
  | _ => none

theorem Pc.held_eq {pc : Pc} (h : pc.held = some a) : pc = .holding a := by
  cases pc <;> first | (cases h; rfl) | cases h

/-- The execution `Run` returned a state of. -/
def Pc.concluded : Pc → Option GoString
  | .returned ⟨attempt, some _⟩ none _ => some attempt.executionID
  | _ => none

theorem Pc.concluded_eq {pc : Pc} (h : pc.concluded = some x) :
    ∃ attempt state c, pc = .returned ⟨attempt, some state⟩ none c ∧ attempt.executionID = x := by
  unfold Pc.concluded at h
  split at h
  next attempt state c =>
    cases h
    exact ⟨attempt, state, c, rfl, rfl⟩
  · cases h

/-- The renewal of `y` cannot be sent: the run goes on with `x`, and
returns its failure while `y` runs with the intent. -/
theorem failed_renewal_brings_back_the_lost_attempt :
    (∃ s a, (runs plainClient).Reach s ∧ s.pc = .holding a ∧ a.executionID = text "x" ∧
      (assigned s.sends).head? = some (text "y") ∧ s.core.intended (text "x") = false ∧
      s.core.intended (text "y") = true) ∧
    ∃ s attempt state c, (runs plainClient).Reach s ∧
      s.pc = .returned ⟨attempt, some state⟩ none c ∧ attempt.executionID = text "x" ∧
      (assigned s.sends).head? = some (text "y") := by
  let labels : List RunLabel :=
    evicted ++ [.move (.sent (some (newErr (text "no route")))), .move .changed]
  refine ⟨?_, ?_⟩
  · obtain ⟨s, hs, hp⟩ := (runs plainClient).exists_reach ⟨[], rfl⟩ labels
      (fun s => s.pc.held.map Attempt.executionID = some (text "x") ∧
        (assigned s.sends).head? = some (text "y") ∧ s.core.intended (text "x") = false ∧
        s.core.intended (text "y")) (by decide +kernel)
    obtain ⟨hheld, hlast, hx, hy⟩ := hp
    obtain ⟨a, ha, hid⟩ := Option.map_eq_some_iff.mp hheld
    exact ⟨s, a, hs, Pc.held_eq ha, hid, hlast, hx, hy⟩
  · obtain ⟨s, hs, hp⟩ := (runs plainClient).exists_reach ⟨[], rfl⟩
      (labels ++ [.move (.next {}), .move (.next {})])
      (fun s => s.pc.concluded = some (text "x") ∧
        (assigned s.sends).head? = some (text "y")) (by decide +kernel)
    obtain ⟨attempt, state, c, hpc, hid⟩ := Pc.concluded_eq hp.1
    exact ⟨s, attempt, state, c, hs, hpc, hid, hp.2⟩

/-- `Steady`, as it is evaluated. -/
def steady (cfg : Config) (s : Controller) (l : RunLabel) : Bool :=
  !s.errs cfg l || s.pc.renewal.all fun r => !(r.rerequested || s.pc.requested)

theorem steady_of_eval (s : Controller) (l : RunLabel) (h : steady cfg s l = true) :
    Steady cfg s l := by
  intro r hr hor
  rw [steady, hr] at h
  rcases hor with hor | hor <;> simpa [hor] using h

/-- Once the renewal of `y` is acknowledged, the run goes on with `y`. -/
theorem acknowledged_replacement_is_held :
    ∃ s a, (runs plainClient).ReachWhen (Steady plainClient) s ∧ s.pc = .holding a ∧
      a.executionID = text "y" ∧ (assigned s.sends).head? = some a.executionID ∧
      ∀ x, s.core.intended x = true ↔ x = a.executionID := by
  obtain ⟨s, hs, hp⟩ := (runs plainClient).exists_reachWhen
    (fun s l => steady plainClient s l = true) ⟨[], rfl⟩
    (evicted ++
      [ .move (.sent none),
        .deliver none (plainInput []) (plainReply "m6" (.executionLeaseRenewAck
          ⟨text "y", some (Timestamp.new 62135596860000000000)⟩)),
        .move .receive,
        .move (.next {}),
        .move .changed ])
    (fun s => s.pc.held.map Attempt.executionID = some (text "y")) (by decide +kernel)
  have hs := hs.mono steady_of_eval
  obtain ⟨a, ha, hid⟩ := Option.map_eq_some_iff.mp hp
  have hpc := Pc.held_eq ha
  obtain ⟨hlast, hintended⟩ := (steady_runs_hold_their_last_attempt hs).1 a hpc
  exact ⟨s, a, hs, hpc, hid, hlast, hintended⟩

end

end R1s.Client
