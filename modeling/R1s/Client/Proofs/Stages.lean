/-
The run controller as its placement sees it: the outline of the core, the
execution it assigned last, and the stage of the run. `Turns` says once
what a step of the controller can do to these three, `simulates_turn`
that it does nothing else; what holds of a whole run is then proved over
some twenty transitions instead of the controller's code.

The stages follow the calls: `holdRun` and `renewOrReRequest` ask for an
attempt through `reRequestLost`, and the `Caller` says to whom a failure
or the attempt returns.
-/
import R1s.Client.Proofs.Outline

namespace R1s.Client

variable {cfg : Config}

-- ===== the stages

/-- The stage of a run. -/
inductive Stage
  | idle
  | losing (c : Caller)
  | creating (c : Caller) (request : ExecutionRequest)
  | asking (c : Caller) (k : GoString)
  | chosen (c : Caller) (k x : GoString)
  | recorded (c : Caller) (k x : GoString)
  | assigned (c : Caller) (k x : GoString)
  | held (active : Attempt)
  | renewing (r : Renewal)
  | over (result : Result)

/-- The stage the controller is in. -/
def Pc.stage : Pc → Stage
  | .idle => .idle
  | .creating c request _ | .routing c request => .creating c request
  | .asking a _ _ | .collecting a _ _ | .selecting a _ => .asking a.caller a.requestID
  | .recording a _ e => .chosen a.caller a.requestID (Controller.executionOf e)
  | .assigning a _ e => .recorded a.caller a.requestID (Controller.executionOf e)
  | .describing a x | .snapshotting a x _ => .assigned a.caller a.requestID x
  | .rebinding c attempt => .assigned c attempt.requestID attempt.executionID
  | .losing c => .losing c
  | .holding a | .ending a _ | .watching a | .timing a | .waiting a | .inspecting a
  | .sendingInspect a _ _ | .awaitingState a _ => .held a
  | .maintaining r | .renewing r _ _ | .awaitingAck r _ | .doubting r _ | .renewed r =>
    .renewing r
  | .failing result _ | .cancelling result _ | .sendingCancel result _ _ _
  | .returned result _ _ => .over result

/-- The execution an assignment is for. -/
def assignmentOf (e : Envelope) : Option GoString :=
  match e.payload with
  | some (.executionAssign assign) => some assign.executionID
  | _ => none

/-- The execution a handed-over assignment is for. -/
def Sent.execution (d : Sent) : Option GoString := assignmentOf d.envelope

/-- The executions whose assignment was handed to the transport, the
newest first. -/
def handedOver (sends : List Sent) : List GoString := sends.filterMap Sent.execution

/-- The executions the run assigned: those whose assignment was sent
without an error. -/
def assigned (sends : List Sent) : List GoString :=
  (sends.filter fun d => !d.failed).filterMap Sent.execution

/-- The controller as its placement sees it. -/
structure View where
  outline : Outline
  last : GoString
  stage : Stage

def Controller.view (s : Controller) : View :=
  ⟨s.core.outline, (assigned s.sends).headD [], s.pc.stage⟩

/-- The view, were the controller in a stage. -/
def Controller.viewAt (s : Controller) (stage : Stage) : View :=
  ⟨s.core.outline, (assigned s.sends).headD [], stage⟩

-- ===== the transitions

/-- Where a failed attempt leads. -/
def Caller.failed : Caller → Stage
  | .run => .over {}
  | .hold active => .over { attempt := active }
  | .renew r => .held r.active

/-- Where a replacement leads. -/
def Caller.rebound (attempt : Attempt) : Caller → Stage
  | .run | .hold _ => .held attempt
  | .renew r => .renewing ⟨r.active, attempt.executionID, true⟩

/-- What can go wrong in a step: `renewOrReRequest` returns an error, or
the send of an assignment fails. -/
inductive Mishap
  | none | gaveUp | refused

/-- A failed attempt makes `renewOrReRequest` return its error. -/
def Caller.mishap : Caller → Mishap
  | .renew _ => .gaveUp
  | _ => .none

/-- What a step of the controller can do. -/
inductive Turns : Mishap → View → View → Prop
  | stay {v} : Turns .none v v
  | lost {o l a} : Turns .none ⟨o, l, .held a⟩ ⟨o, l, .losing (.hold a)⟩
  | due {o l a} : Turns .none ⟨o, l, .held a⟩ ⟨o, l, .renewing ⟨a, a.executionID, false⟩⟩
  | finished {o l a} (state : Option ExecutionState) :
      Turns .none ⟨o, l, .held a⟩ ⟨o, l, .over ⟨a, state⟩⟩
  | gaveUp {o l r} : Turns .gaveUp ⟨o, l, .renewing r⟩ ⟨o, l, .held r.active⟩
  | renewed {o l r} (h : r.rerequested = false) :
      Turns .none ⟨o, l, .renewing r⟩ ⟨o, l, .held r.active⟩
  | replaced {o l r a} (h : r.rerequested = true) (ha : a.executionID = r.activeID) :
      Turns .none ⟨o, l, .renewing r⟩ ⟨o, l, .held a⟩
  | doubted {o l r} : Turns .none ⟨o, l, .renewing r⟩ ⟨o, l, .losing (.renew r)⟩
  | recalled {o l c q} (h : o.requestOf c.lostID = some q) :
      Turns .none ⟨o, l, .losing c⟩ ⟨o, l, .creating c q⟩
  | forgotten {o l c} (h : o.requestOf c.lostID = none) :
      Turns c.mishap ⟨o, l, .losing c⟩ ⟨o, l, c.failed⟩
  | uncreated {o l c q} : Turns c.mishap ⟨o, l, .creating c q⟩ ⟨o, l, c.failed⟩
  | created {o l k c q q'} (hnew : o.request k = none)
      (hattempt : q'.attempt = if c = .run then 1 else q.attempt + 1) :
      Turns .none ⟨o, l, .creating c q⟩ ⟨o.setRequest k q' [], l, .asking c k⟩
  | unanswered {o l k c} : Turns c.mishap ⟨o, l, .asking c k⟩ ⟨o, l, c.failed⟩
  | chose {o l k x c q} (hopen : o.request k = some (q, [])) (hnew : o.execution x = none)
      (hx : x ≠ []) :
      Turns .none ⟨o, l, .asking c k⟩
        ⟨(o.setRequest k q x).setExecution x k false, l, .chosen c k x⟩
  | unrecorded {o l k x c} : Turns c.mishap ⟨o, l, .chosen c k x⟩ ⟨o, l, c.failed⟩
  | recorded {o l k k' x c intent} (hx : o.execution x = some (k', intent)) :
      Turns .none ⟨o, l, .chosen c k x⟩ ⟨o.setExecution x k' true, l, .recorded c k x⟩
  | refused {o l k x c} : Turns .refused ⟨o, l, .recorded c k x⟩ ⟨o, l, c.failed⟩
  | assigned {o l k x c} : Turns .none ⟨o, l, .recorded c k x⟩ ⟨o, x, .assigned c k x⟩
  | undescribed {o l k x c} (h : o.requestOf x = none) :
      Turns c.mishap ⟨o, l, .assigned c k x⟩ ⟨o, l, c.failed⟩
  | began {o l k x a} (ha : a.executionID = x) :
      Turns .none ⟨o, l, .assigned .run k x⟩ ⟨o, l, .held a⟩
  | unbound {o l k x c} (hc : c ≠ .run)
      (h : ¬(c.lostID ≠ x ∧ o.carries c.lostID ∧ (o.execution x).isSome = true)) :
      Turns c.mishap ⟨o, l, .assigned c k x⟩ ⟨o, l, c.failed⟩
  | rebound {o l k k' kl c a intent} (hne : c.lostID ≠ a.executionID)
      (hlost : o.execution c.lostID = some (kl, true))
      (hnew : o.execution a.executionID = some (k', intent)) :
      Turns .none ⟨o, l, .assigned c k a.executionID⟩
        ⟨(o.setExecution a.executionID k' true).setExecution c.lostID kl false, l, c.rebound a⟩

-- ===== the renewals

/-- The call of `renewOrReRequest` that waits for the attempt. -/
def Caller.renewal : Caller → Option Renewal
  | .renew r => some r
  | _ => none

/-- The call of `renewOrReRequest` that is under way, until it has its
acknowledgement. -/
def Pc.renewal : Pc → Option Renewal
  | .creating c _ _ | .losing c | .routing c _ | .rebinding c _ => c.renewal
  | .asking a _ _ | .collecting a _ _ | .selecting a _ | .recording a _ _ | .assigning a _ _
  | .describing a _ | .snapshotting a _ _ => a.caller.renewal
  | .maintaining r | .renewing r _ _ | .awaitingAck r _ | .doubting r _ => some r
  | _ => none

/-- The core, as it stands, refuses the call that the controller is about
to make for an attempt or a renewal. -/
def Controller.refused (cfg : Config) (s : Controller) (i : Input) : Bool :=
  match s.pc with
  | .creating c q _ => !(createAttempt cfg i c q s.core).2.isOk
  | .selecting a _ => !(select cfg i a.requestID s.core).2.isOk
  | .recording a _ e =>
    (recordLeaseIntent (executionOf e) s.options.leaseDuration a.allocators s.core).2.isSome
  | .describing _ x => (requestForExecution x s.core).isNone
  | .losing c => (requestForExecution c.lostID s.core).isNone
  | .rebinding c a => (rebindLeaseIntent c.lostID a.executionID s.core).2.isSome
  | .maintaining r => !(Client.maintain cfg i r.activeID s.options.leaseDuration s.core).2.isOk
  | .doubting r _ => !leaseIntentLost r.activeID s.core
  | _ => false

/-- The next step is an error to the attempt or the renewal under way,
told from the state before it: a send fails, the context ends the wait
for offers, an announced allocator cannot be registered, or the core
refuses the call. -/
def Controller.errs (cfg : Config) (s : Controller) : RunLabel → Bool
  | .move (.sent outcome) => outcome.isSome
  | .move (.next i) => s.refused cfg i
  | .move .done =>
    match s.pc with
    | .collecting _ _ _ => true
    | _ => false
  | .move (.discovered service) =>
    match s.pc with
    | .collecting a _ _ =>
      (service.descriptor.capacity.lookup a.request.resourceClass).getD 0 ≠ 0 &&
        (hexDecode service.identity).any fun identity =>
          (register (discoveredAllocator identity service) s.core).2.isSome
    | _ => false
  | _ => false

-- ===== the envelopes

/-- Of the envelopes at hand only the assignment is one; only a
replacement is rebound. -/
def Pc.Typed : Pc → Prop
  | .asking a _ _ | .collecting a _ _ | .selecting a _ | .describing a _
  | .snapshotting a _ _ => assignmentOf a.envelope = none
  | .recording a _ e | .assigning a _ e =>
    assignmentOf a.envelope = none ∧ assignmentOf e = some (Controller.executionOf e)
  | .sendingInspect _ _ e | .renewing _ _ e | .sendingCancel _ _ _ e => assignmentOf e = none
  | .rebinding c _ => c ≠ .run
  | _ => True

/-- A step does what `Turns` says, and nothing goes wrong in it but where
it shows. -/
def Simulates (cfg : Config) (s : Controller) (m : Move) (t : Controller) : Prop :=
  ∃ kind, Turns kind s.view t.view ∧
    (kind = .gaveUp → s.pc.renewal.isSome = true ∧ s.errs cfg (.move m) = true) ∧
    (kind = .refused → ∃ a d e err, s.pc = .assigning a d e ∧ m = .sent (some err)) ∧
    t.pc.Typed

section

variable {s t u : Controller} {m : Move} {err : Err} {c : Caller} {pc : Pc}

variable {d : GoString} {e : Envelope}

theorem assigned_send_other {failed : Bool} (h : assignmentOf e = none) :
    assigned (s.send d e failed).sends = assigned s.sends := by
  show ((⟨d, e, failed⟩ :: s.sends).filter _).filterMap _ = _
  rw [List.filter_cons]
  split
  · exact List.filterMap_cons_none h
  · rfl

theorem viewAt_send (s : Controller) (d : GoString) (failed : Bool) (h : assignmentOf e = none) :
    (s.send d e failed).viewAt = s.viewAt := by
  funext stage
  exact congrArg (fun xs => View.mk _ (xs.headD []) stage) (assigned_send_other h)

theorem viewAt_core {core : State} (h : core.outline = s.core.outline) :
    { s with core := core }.viewAt = s.viewAt := by
  funext stage
  exact congrArg (View.mk · _ stage) h

/-- The view, where the controller stands. -/
theorem view_at (hpc : s.pc = pc) : s.view = s.viewAt pc.stage := by
  rw [← hpc]
  rfl

/-- A step without mishap. -/
theorem Simulates.step (hpc : s.pc = pc) (hturns : Turns .none (s.viewAt pc.stage) t.view)
    (htyped : t.pc.Typed) : Simulates cfg s m t :=
  ⟨.none, view_at hpc ▸ hturns, nofun, nofun, htyped⟩

/-- A step inside a stage. -/
theorem Simulates.stay (hpc : s.pc = pc) (hview : t.view = s.viewAt pc.stage)
    (htyped : t.pc.Typed) : Simulates cfg s m t :=
  .step hpc (hview ▸ .stay) htyped

theorem view_renewFailed (a : Attempt) (err : Err) :
    (u.renewFailed a err).view = u.viewAt (.held a) := by
  unfold Controller.renewFailed
  split <;> rfl

theorem view_rerequestFailed (c : Caller) (err : Err) :
    (u.rerequestFailed c err).view = u.viewAt c.failed := by
  cases c with
  | run | hold => rfl
  | renew r => exact view_renewFailed r.active err

/-- The refusal, where the controller stands. -/
theorem refused_at {i : Input} (hpc : s.pc = pc) :
    s.errs cfg (.move (.next i)) = { s with pc := pc }.refused cfg i := by
  rw [← hpc]
  rfl

theorem not_isOk {α : Type} {y : State × Except Err α} {core : State}
    (h : y = (core, .error err)) : (!y.2.isOk) = true := by
  rw [h]
  rfl

/-- A failed attempt: to `renewOrReRequest` it is an error to return. -/
theorem Simulates.rerequestFailed (hpc : s.pc = pc) (hcaller : pc.renewal = c.renewal)
    (herrs : s.errs cfg (.move m) = true)
    (hturns : Turns c.mishap (s.viewAt pc.stage) (s.viewAt c.failed))
    (hsame : u.viewAt = s.viewAt) : Simulates cfg s m (u.rerequestFailed c err) := by
  refine ⟨c.mishap, ?_, ?_, ?_, ?_⟩
  · rw [view_at hpc, view_rerequestFailed, hsame]
    exact hturns
  · cases c with
    | run | hold => exact nofun
    | renew r => exact fun _ => ⟨by rw [hpc, hcaller]; rfl, herrs⟩
  · cases c <;> exact nofun
  · cases c <;> exact trivial

theorem Simulates.attemptFailed (hpc : s.pc = pc) (hcaller : pc.renewal = c.renewal)
    (herrs : s.errs cfg (.move m) = true)
    (hturns : Turns c.mishap (s.viewAt pc.stage) (s.viewAt c.failed))
    (hsame : u.viewAt = s.viewAt) : Simulates cfg s m (u.attemptFailed c err) := by
  cases c with
  | run => exact .rerequestFailed (c := .run) hpc hcaller herrs hturns hsame
  | hold | renew => exact .rerequestFailed hpc hcaller herrs hturns hsame

-- ===== `requestAttempt`

variable {q : ExecutionRequest} {a : Asked} {i : Input} {rest sent : List GoString}

theorem creates_createAttempt {core : State} {result : Except Err (GoString × Envelope)}
    (h : Controller.createAttempt cfg i c q s.core = (core, result)) :
    Creates s.core core (if c = .run then 1 else q.attempt + 1) q.resourceClass q.constraints
      result := by
  cases c with
  | run => exact creates_createRequest h
  | hold | renew => exact creates_createNextAttempt h

theorem simulates_create {allocators : List GoString} (hpc : s.pc = .creating c q allocators)
    (i : Input) : Simulates cfg s (.next i) (s.create cfg i c q allocators) := by
  unfold Controller.create
  generalize hy : Controller.createAttempt cfg i c q s.core = y
  obtain ⟨core, result⟩ := y
  have hspec := creates_createAttempt hy
  cases result with
  | error err =>
    obtain rfl : core = s.core := hspec
    exact .attemptFailed hpc rfl ((refused_at hpc).trans (not_isOk hy)) .uncreated rfl
  | ok created =>
    obtain ⟨k, e⟩ := created
    obtain ⟨hnew, q', hattempt, -, -, hpayload, houtline⟩ := hspec
    refine .step hpc ?_ ?_
    · have hturns := Turns.created (l := (assigned s.sends).headD []) (c := c) (q := q) hnew
        hattempt
      rw [← houtline] at hturns
      exact hturns
    · show assignmentOf e = none
      rw [assignmentOf, hpayload]

theorem simulates_ask (hpc : s.pc = .asking a (d :: rest) sent)
    (htyped : assignmentOf a.envelope = none) (outcome : Option Err) :
    Simulates cfg s (.sent outcome) (s.ask a d rest sent outcome) := by
  cases outcome with
  | some err => exact .attemptFailed hpc rfl rfl .unanswered (viewAt_send s d true htyped)
  | none => exact .stay hpc (congrFun (viewAt_send s d false htyped) _) htyped

theorem assigned_bootstrap (htyped : assignmentOf e = none) (destinations : List GoString) :
    ∀ (sent : List GoString) (s : Controller),
      assigned (Controller.bootstrap e destinations sent s).1.sends = assigned s.sends ∧
        (Controller.bootstrap e destinations sent s).1.core = s.core := by
  induction destinations with
  | nil => exact fun _ _ => ⟨rfl, rfl⟩
  | cons d rest ih =>
    intro sent s
    unfold Controller.bootstrap
    split
    · exact ih sent s
    · obtain ⟨hsends, hcore⟩ := ih (d :: sent) (s.send d e false)
      exact ⟨hsends.trans (assigned_send_other htyped), hcore⟩

theorem simulates_asked (hpc : s.pc = .asking a [] sent)
    (htyped : assignmentOf a.envelope = none) : Simulates cfg s m (s.asked a sent) := by
  unfold Controller.asked
  split
  next hrun =>
    obtain ⟨hsends, hcore⟩ := assigned_bootstrap htyped s.bootstrapDestinations sent s
    refine .stay hpc ?_ htyped
    show View.mk (Controller.core _).outline ((assigned _).headD []) _ = _
    simp only [Controller.goto]
    rw [hsends, hcore]
    rfl
  · exact .stay hpc rfl htyped

variable {remoteErr : Option Err}

theorem simulates_discover (cfg : Config) {service : Presence.Service} (hkeyed : Keyed s.core)
    (hpc : s.pc = .collecting a sent remoteErr) (htyped : assignmentOf a.envelope = none) :
    Simulates cfg s (.discovered service) (s.discover a sent remoteErr service) := by
  have hstay : Simulates cfg s (.discovered service) s :=
    .stay hpc (view_at hpc) (by rw [hpc]; exact htyped)
  unfold Controller.discover
  split
  · exact hstay
  rename_i hslots
  split
  · exact hstay
  rename_i identity hidentity
  have hkept : Kept cfg (.register (Controller.discoveredAllocator identity service)) s.core
      (register (Controller.discoveredAllocator identity service) s.core).1 :=
    kept_register _
  have houtline := outline_quiet hkeyed rfl hkept
  dsimp only
  split
  next hrefused =>
    refine .attemptFailed hpc rfl ?_ .unanswered (viewAt_core houtline)
    rw [Controller.errs, hpc]
    simp [hslots, hidentity, hrefused]
  split
  · refine .stay rfl (congrFun (viewAt_core houtline) _) ?_
    show s.pc.Typed
    rw [hpc]
    exact htyped
  refine .stay hpc ?_ htyped
  exact (congrFun (viewAt_send _ _ false htyped) _).trans (congrFun (viewAt_core houtline) _)

theorem simulates_choose (hpc : s.pc = .selecting a remoteErr)
    (htyped : assignmentOf a.envelope = none)
    (hopen : s.core.outline.request a.requestID = some (q, [])) (i : Input) :
    Simulates cfg s (.next i) (s.choose cfg i a remoteErr) := by
  unfold Controller.choose
  generalize hy : select cfg i a.requestID s.core = y
  obtain ⟨core, result⟩ := y
  have hspec := chooses_select hopen hy
  cases result with
  | error err =>
    obtain rfl : core = s.core := hspec
    exact .attemptFailed hpc rfl ((refused_at hpc).trans (not_isOk hy)) .unanswered rfl
  | ok addressed =>
    obtain ⟨x, offerID, hx, hnew, hpayload, houtline⟩ := hspec
    have hassign : assignmentOf addressed.2 = some x ∧
        Controller.executionOf addressed.2 = x := by
      rw [assignmentOf, Controller.executionOf, hpayload]
      exact ⟨rfl, rfl⟩
    refine .step hpc ?_ ⟨htyped, hassign.1.trans (congrArg some hassign.2.symm)⟩
    have hturns := Turns.chose (l := (assigned s.sends).headD []) (c := a.caller) hopen hnew hx
    rw [← houtline] at hturns
    have hstage : (Pc.recording a addressed.1 addressed.2).stage =
        .chosen a.caller a.requestID x := by rw [Pc.stage, hassign.2]
    rw [← hstage] at hturns
    exact hturns

theorem simulates_record (hpc : s.pc = .recording a d e) (htyped : (Pc.recording a d e).Typed) :
    Simulates cfg s (.next i) (s.record a d e) := by
  unfold Controller.record
  generalize hy : recordLeaseIntent (Controller.executionOf e) s.options.leaseDuration
    a.allocators s.core = y
  obtain ⟨core, err⟩ := y
  rcases outline_recordLeaseIntent hy with ⟨rfl, k, intent, hx, houtline⟩ | ⟨herr, rfl⟩
  · refine .step hpc ?_ htyped
    have hturns := Turns.recorded (l := (assigned s.sends).headD []) (c := a.caller)
      (k := a.requestID) hx
    rw [← houtline] at hturns
    exact hturns
  · cases err with
    | none => exact absurd rfl herr
    | some err =>
      refine .attemptFailed hpc rfl ?_ .unrecorded rfl
      exact (refused_at hpc).trans (congrArg (fun y => y.2.isSome) hy)

variable {x : GoString}

theorem assigned_send (h : assignmentOf e = some x) :
    assigned (s.send d e false).sends = x :: assigned s.sends := by
  show ((⟨d, e, false⟩ :: s.sends).filter _).filterMap _ = _
  rw [List.filter_cons_of_pos rfl]
  exact List.filterMap_cons_some h

theorem simulates_assign (hpc : s.pc = .assigning a d e) (htyped : (Pc.assigning a d e).Typed)
    (outcome : Option Err) : Simulates cfg s (.sent outcome) (s.assign a d e outcome) := by
  unfold Controller.assign
  cases outcome with
  | some err =>
    refine ⟨.refused, ?_, nofun, fun _ => ⟨a, d, e, err, hpc, rfl⟩, ?_⟩
    · rw [view_at hpc]
      show Turns _ (s.viewAt (.recorded a.caller a.requestID (Controller.executionOf e))) _
      cases hc : a.caller with
      | run | hold => exact .refused
      | renew r =>
        have hv := view_renewFailed (u := (s.send d e true).forget a.envelope.messageID)
          r.active (err.within (text "re-request after lease expiry"))
        exact hv ▸ .refused
    · cases a.caller <;> exact trivial
  | none =>
    refine .step hpc ?_ htyped.1
    have hlast : (assigned (s.send d e false).sends).headD [] = Controller.executionOf e := by
      rw [assigned_send htyped.2]
      rfl
    show Turns _ _ ⟨s.core.outline, (assigned (s.send d e false).sends).headD [], _⟩
    rw [hlast]
    exact .assigned

theorem simulates_describe (hpc : s.pc = .describing a x)
    (htyped : assignmentOf a.envelope = none) : Simulates cfg s (.next i) (s.describe a x) := by
  unfold Controller.describe
  split
  next hnone =>
    refine .attemptFailed hpc rfl ?_ ?_ rfl
    · exact (refused_at hpc).trans (Option.isNone_iff_eq_none.mpr hnone)
    · exact .undescribed ((requestForExecution_eq x).symm.trans hnone)
  · exact .stay hpc rfl htyped

theorem simulates_snapshot {created : ExecutionRequest} (hpc : s.pc = .snapshotting a x created) :
    Simulates cfg s m ((s.forget a.envelope.messageID).attemptDone a.caller
      (s.attempt a.requestID x created)) := by
  unfold Controller.attemptDone
  split
  next hrun =>
    refine .step hpc ?_ trivial
    show Turns _ (s.viewAt (.assigned a.caller a.requestID x)) _
    rw [hrun]
    exact .began rfl
  next hrun => exact .stay hpc rfl hrun

-- ===== `reRequestLost`

theorem simulates_lose (hpc : s.pc = .losing c) : Simulates cfg s (.next i) (s.lose c) := by
  unfold Controller.lose
  split
  next hnone =>
    refine .rerequestFailed hpc rfl ?_ ?_ rfl
    · exact (refused_at hpc).trans (Option.isNone_iff_eq_none.mpr hnone)
    · exact .forgotten ((requestForExecution_eq _).symm.trans hnone)
  next request hrequest =>
    exact .step hpc (.recalled ((requestForExecution_eq _).symm.trans hrequest)) trivial

theorem simulates_route (hpc : s.pc = .routing c q) : Simulates cfg s m (s.route c q) :=
  .stay hpc rfl trivial

theorem simulates_rebind {replacement : Attempt} (hpc : s.pc = .rebinding c replacement)
    (hc : c ≠ .run) : Simulates cfg s (.next i) (s.rebind c replacement) := by
  unfold Controller.rebind
  generalize hy : rebindLeaseIntent c.lostID replacement.executionID s.core = y
  obtain ⟨core, err⟩ := y
  rcases outline_rebindLeaseIntent hy with
    ⟨rfl, hne, kl, k', intent, hlost, hnew, houtline⟩ | ⟨herr, rfl, hbad⟩
  · have hturns := Turns.rebound (l := (assigned s.sends).headD []) (k := replacement.requestID)
      hne hlost hnew
    rw [← houtline] at hturns
    cases c with
    | run => exact absurd rfl hc
    | hold | renew => exact .step hpc hturns trivial
  · cases err with
    | none => exact absurd rfl herr
    | some err =>
      refine .rerequestFailed hpc rfl ?_ (.unbound hc hbad) rfl
      exact (refused_at hpc).trans (congrArg (fun y => y.2.isSome) hy)

-- ===== `holdRun`

variable {active : Attempt}

theorem simulates_hold (hpc : s.pc = .holding active) : Simulates cfg s m (s.hold active) := by
  unfold Controller.hold
  split <;> exact .stay hpc rfl trivial

theorem simulates_finish {state : ExecutionState} (hpc : s.pc = .ending active state) :
    Simulates cfg s m (s.finish active state) := by
  unfold Controller.finish
  split
  · exact .stay hpc rfl trivial
  · exact .step hpc (.finished (some state)) trivial

theorem simulates_watch (hpc : s.pc = .watching active) : Simulates cfg s m (s.watch active) := by
  unfold Controller.watch
  split
  · exact .step hpc .lost trivial
  · exact .stay hpc rfl trivial

theorem simulates_checkDue (hpc : s.pc = .timing active) (i : Input) :
    Simulates cfg s m (s.checkDue i active) := by
  unfold Controller.checkDue
  split
  · exact .step hpc .due trivial
  · exact .stay hpc rfl trivial

/-- The end of an inspection, or of the wait in `holdRun`. -/
theorem simulates_inspected {err : Option Err} (hpc : s.pc = pc)
    (hstage : pc.stage = .held active) (hsame : u.viewAt = s.viewAt) :
    Simulates cfg s m (u.inspected active err) := by
  have hloop : Simulates cfg s m (u.goto (.holding active)) := by
    refine .stay hpc ?_ trivial
    rw [hstage, ← hsame]
    rfl
  unfold Controller.inspected
  split
  · split
    · refine .step hpc ?_ trivial
      rw [hstage, ← hsame]
      exact .finished none
    · exact hloop
  · exact hloop

theorem simulates_inspect (hkeyed : Keyed s.core) (hpc : s.pc = .inspecting active) (i : Input) :
    Simulates cfg s m (s.inspect cfg i active) := by
  have hkept : Kept cfg (.inspect i active.executionID) s.core _ := kept_inspect i _
  have houtline := outline_quiet hkeyed rfl hkept
  unfold Controller.inspect
  have hpayload : ∀ d e, (Client.inspect cfg i active.executionID s.core).2 = .ok (d, e) →
      assignmentOf e = none := by
    intro d e h
    unfold Client.inspect at h
    split at h
    · cases h
    split at h
    · cases h
    · cases h
      rfl
  dsimp only
  split
  · exact simulates_inspected hpc rfl (viewAt_core houtline)
  next d e heq => exact .stay hpc (congrFun (viewAt_core houtline) _) (hpayload d e heq)

theorem simulates_sendInspect (hpc : s.pc = .sendingInspect active d e)
    (htyped : assignmentOf e = none) (outcome : Option Err) :
    Simulates cfg s m (s.sendInspect active d e outcome) := by
  cases outcome with
  | some err => exact simulates_inspected hpc rfl (viewAt_send s d true htyped)
  | none => exact .stay hpc (congrFun (viewAt_send s d false htyped) _) trivial

theorem simulates_stateReply {id : GoString} (hpc : s.pc = .awaitingState active id)
    (e : Envelope) : Simulates cfg s m (s.stateReply active id e) := by
  unfold Controller.stateReply
  split
  · exact simulates_inspected hpc rfl rfl
  split
  · exact simulates_inspected hpc rfl rfl
  refine .stay rfl rfl ?_
  show s.pc.Typed
  rw [hpc]
  exact trivial

-- ===== `renewOrReRequest`

variable {r : Renewal}

/-- The error is returned to `holdRun`. -/
theorem simulates_renewFailed (hpc : s.pc = pc) (hstage : pc.stage = .renewing r)
    (hrenewal : pc.renewal = some r) (herrs : s.errs cfg (.move m) = true)
    (hsame : u.viewAt = s.viewAt) : Simulates cfg s m (u.renewFailed r.active err) := by
  refine ⟨.gaveUp, ?_, fun _ => ⟨by rw [hpc, hrenewal]; rfl, herrs⟩, nofun, trivial⟩
  rw [view_at hpc, hstage, view_renewFailed, hsame]
  exact .gaveUp

theorem simulates_maintain (hpc : s.pc = .maintaining r)
    (hcarries : s.core.outline.carries r.activeID) (i : Input) :
    Simulates cfg s (.next i) (s.maintain cfg i r) := by
  have hpayload : ∀ d e, (Client.maintain cfg i r.activeID s.options.leaseDuration s.core).2 =
      .ok (some (d, e)) → assignmentOf e = none := by
    intro d e h
    unfold Client.maintain at h
    split at h
    · cases h
    split at h
    · cases h
    split at h
    · split at h <;> cases h
    dsimp only at h
    split at h
    · cases h
    · cases h
      rfl
  unfold Controller.maintain
  generalize hy : Client.maintain cfg i r.activeID s.options.leaseDuration s.core = y at hpayload
  obtain ⟨core, result⟩ := y
  have hsame := viewAt_core (outline_maintain hcarries hy)
  dsimp only
  split
  next err =>
    exact simulates_renewFailed hpc rfl rfl ((refused_at hpc).trans (not_isOk hy)) hsame
  · refine .step hpc ?_ trivial
    rw [← hsame]
    exact .doubted
  next d e => exact .stay hpc (congrFun hsame _) (hpayload d e rfl)

theorem simulates_renew (hpc : s.pc = .renewing r d e) (htyped : assignmentOf e = none)
    (outcome : Option Err) : Simulates cfg s (.sent outcome) (s.renew r d e outcome) := by
  cases outcome with
  | some err => exact simulates_renewFailed hpc rfl rfl rfl (viewAt_send s d true htyped)
  | none => exact .stay hpc (congrFun (viewAt_send s d false htyped) _) trivial

theorem simulates_ackReply {id : GoString} (hpc : s.pc = .awaitingAck r id) (e : Envelope) :
    Simulates cfg s m (s.ackReply r id e) := by
  have htake : Simulates cfg s m (s.take id) := by
    refine .stay rfl rfl ?_
    show s.pc.Typed
    rw [hpc]
    exact trivial
  unfold Controller.ackReply
  split
  · exact .stay hpc rfl trivial
  split
  · split
    · exact .stay hpc rfl trivial
    · exact htake
  · exact htake

theorem simulates_doubt (hpc : s.pc = .doubting r err) :
    Simulates cfg s (.next i) (s.doubt r err) := by
  unfold Controller.doubt
  split
  · exact .step hpc .doubted trivial
  next hlost =>
    refine simulates_renewFailed hpc rfl rfl ?_ rfl
    rw [refused_at hpc]
    show (!leaseIntentLost r.activeID s.core) = true
    simpa using hlost

theorem executionID_attemptFor (x : GoString) : (s.attemptFor x).executionID = x := by
  unfold Controller.attemptFor
  split <;> rfl

theorem simulates_renewalDone (hpc : s.pc = .renewed r) : Simulates cfg s m (s.renewalDone r) := by
  unfold Controller.renewalDone
  split
  next hrerequested =>
    exact .step hpc (.replaced hrerequested (executionID_attemptFor r.activeID)) trivial
  next hfirst => exact .step hpc (.renewed (Bool.not_eq_true _ ▸ hfirst)) trivial

-- ===== `Run`

theorem simulates_cancel {result : Result} (hkeyed : Keyed s.core)
    (hpc : s.pc = .cancelling result err) (h : s.bestEffortCancel cfg i result err = some t) :
    Simulates cfg s m t := by
  unfold Controller.bestEffortCancel at h
  split at h
  · cases h
    exact .stay hpc rfl trivial
  split at h
  · cases h
  have hkept : Kept cfg (.cancel i result.attempt.executionID Controller.cancelReason) s.core
    _ := kept_cancel i _ _
  have houtline := outline_quiet hkeyed rfl hkept
  have hpayload : ∀ d e, (cancel cfg i result.attempt.executionID Controller.cancelReason
      s.core).2 = .ok (d, e) → assignmentOf e = none := by
    intro d e h
    unfold cancel at h
    split at h
    · cases h
    split at h
    · cases h
      rfl
    split at h
    · cases h
    · cases h
      rfl
  dsimp only at h
  split at h
  · cases h
    exact .stay hpc (congrFun (viewAt_core houtline) _) trivial
  rename_i d e heq
  cases h
  exact .stay hpc (congrFun (viewAt_core houtline) _) (hpayload d e heq)

-- ===== together

/-- What a step of the controller relies on. -/
structure Fit (s : Controller) : Prop where
  keyed : Keyed s.core
  typed : s.pc.Typed
  asking : ∀ {c k}, s.pc.stage = .asking c k → ∃ q, s.core.outline.request k = some (q, [])
  renewing : ∀ {r}, s.pc.stage = .renewing r → s.core.outline.carries r.activeID

theorem Fit.typed_at (h : Fit s) (hpc : s.pc = pc) : pc.Typed :=
  hpc ▸ h.typed

/-- A step of the controller's goroutine. -/
theorem simulates_turn (hfit : Fit s) (h : s.turn cfg m = some t) : Simulates cfg s m t := by
  unfold Controller.turn at h
  split at h
  next hpc =>
    cases h
    exact simulates_create hpc _
  next hpc =>
    cases h
    exact simulates_ask hpc (hfit.typed_at hpc) _
  next hpc =>
    cases h
    exact simulates_asked hpc (hfit.typed_at hpc)
  next hpc =>
    obtain ⟨ended, -, rfl⟩ := Option.map_eq_some_iff.mp h
    refine .attemptFailed hpc rfl ?_ .unanswered rfl
    rw [Controller.errs, hpc]
  next hpc =>
    cases h
    have htyped := hfit.typed_at hpc
    exact .stay hpc rfl htyped
  next hpc =>
    obtain ⟨e, -, rfl⟩ := Option.map_eq_some_iff.mp h
    have htyped := hfit.typed_at hpc
    exact .stay hpc rfl htyped
  next hpc =>
    cases h
    exact simulates_discover cfg hfit.keyed hpc (hfit.typed_at hpc)
  next a _ _ hpc =>
    cases h
    have hstage : s.pc.stage = .asking a.caller a.requestID := by
      rw [hpc]
      rfl
    obtain ⟨q, hopen⟩ := hfit.asking hstage
    exact simulates_choose hpc (hfit.typed_at hpc) hopen _
  next hpc =>
    cases h
    exact simulates_record hpc (hfit.typed_at hpc)
  next hpc =>
    cases h
    exact simulates_assign hpc (hfit.typed_at hpc) _
  next hpc =>
    cases h
    exact simulates_describe hpc (hfit.typed_at hpc)
  next hpc =>
    cases h
    exact simulates_snapshot hpc
  next hpc =>
    cases h
    exact simulates_lose hpc
  next hpc =>
    cases h
    exact simulates_route hpc
  next hpc =>
    cases h
    exact simulates_rebind hpc (hfit.typed_at hpc)
  next hpc =>
    cases h
    exact simulates_hold hpc
  next hpc =>
    cases h
    exact simulates_finish hpc
  next hpc =>
    cases h
    exact simulates_watch hpc
  next hpc =>
    cases h
    exact simulates_checkDue hpc _
  next hpc =>
    obtain ⟨ended, -, rfl⟩ := Option.map_eq_some_iff.mp h
    exact .step hpc (.finished none) trivial
  next hpc =>
    split at h
    · cases h
      exact .stay hpc rfl trivial
    · cases h
  next hpc =>
    cases h
    exact .stay hpc rfl trivial
  next hpc =>
    cases h
    exact simulates_inspect hfit.keyed hpc _
  next hpc =>
    cases h
    exact simulates_sendInspect hpc (hfit.typed_at hpc) _
  next hpc =>
    obtain ⟨ended, -, rfl⟩ := Option.map_eq_some_iff.mp h
    exact simulates_inspected hpc rfl rfl
  next hpc =>
    cases h
    exact simulates_inspected hpc rfl rfl
  next hpc =>
    obtain ⟨e, -, rfl⟩ := Option.map_eq_some_iff.mp h
    exact simulates_stateReply hpc e
  next hpc =>
    cases h
    exact simulates_maintain hpc (hfit.renewing (congrArg Pc.stage hpc)) _
  next hpc =>
    cases h
    exact simulates_renew hpc (hfit.typed_at hpc) _
  next hpc =>
    obtain ⟨ended, -, rfl⟩ := Option.map_eq_some_iff.mp h
    exact .stay hpc rfl trivial
  next hpc =>
    cases h
    exact .stay hpc rfl trivial
  next hpc =>
    obtain ⟨e, -, rfl⟩ := Option.map_eq_some_iff.mp h
    exact simulates_ackReply hpc e
  next hpc =>
    cases h
    exact simulates_doubt hpc
  next hpc =>
    cases h
    exact simulates_renewalDone hpc
  next hpc =>
    cases h
    refine .stay hpc ?_ ?_
    · rw [Controller.view]
      split <;> rfl
    · show Pc.Typed (if _ then _ else _)
      split <;> exact trivial
  next hpc => exact simulates_cancel hfit.keyed hpc h
  next hpc =>
    cases h
    exact .stay hpc (congrFun (viewAt_send s _ _ (hfit.typed_at hpc)) _) trivial
  · cases h

end

end R1s.Client
