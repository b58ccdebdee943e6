/-
A step of the run controller's goroutine, as the results about runs see
it: the operation of the core it uses (`Drives`), what it hands to the
transport (`Transmits`), what it does to the request of an attempt
(`Asks`) and where it leads (`Lands`). Each function of the controller is
gone through once (`Turned`); `turned_turn` puts them together.
-/
import R1s.Client.Proofs.Stages

namespace R1s.Client

/-- Where the controller uses an operation: it makes requests at the start
of an attempt, registers what it discovers with a slot for the run while
it collects offers, and cancels only at the end. -/
def Op.Fits (s : Controller) : Op → Prop
  | .createRequest _ _ _ _ _ | .nextAttempt _ _ =>
    ∃ c q allocators, s.pc = .creating c q allocators
  | .register known => ∃ a sent err, s.pc = .collecting a sent err ∧
      known.slots a.request.resourceClass ≠ 0
  | .cancel _ _ _ => ∃ result err, s.pc = .cancelling result err
  | _ => True

/-- The controller leaves the core alone or uses one operation of it. -/
inductive Drives (cfg : Config) (s t : Controller) : Prop
  | same (h : t.core = s.core)
  | op (op : Op) (h : t.core = (op.apply cfg s.core).1) (hfits : op.Fits s)

/-- What a step hands to the transport. -/
inductive Transmits (s : Controller) (m : Move) (t : Controller) : Prop
  | others (new : List Sent) (h : t.sends = new ++ s.sends)
      (hnew : s.pc.Typed → ∀ d ∈ new, d.execution = none)
  | assigns (a : Asked) (d : GoString) (e : Envelope) (outcome : Option Err)
      (hs : s.pc = .assigning a d e) (hm : m = .sent outcome)
      (h : t = s.assign a d e outcome)

/-- The request an attempt is made for, up to the end of its offers. -/
def Pc.request : Pc → Option ExecutionRequest
  | .creating _ q _ | .routing _ q => some q
  | .asking a _ _ | .collecting a _ _ => some a.request
  | _ => none

/-- A step, as the sends of a request see it. -/
inductive Asks (s t : Controller) : Prop
  | elsewhere (h : t.pc.request = none)
  | stays (h : t.pc = s.pc) (hsends : t.sends = s.sends)
  | recalls (c : Caller) (q : ExecutionRequest) (hs : s.pc = .losing c)
      (hq : requestForExecution c.lostID s.core = some q) (h : t.pc = .routing c q)
  | routes (c : Caller) (q : ExecutionRequest) (hs : s.pc = .routing c q) (h : t = s.route c q)
  | creates (a : Asked) (hs : s.pc = .creating a.caller a.request a.allocators)
      (h : t.pc = .asking a a.allocators [])
  | asks (a : Asked) (d : GoString) (rest sent : List GoString)
      (hs : s.pc = .asking a (d :: rest) sent) (h : t.pc = .asking a rest (d :: sent))
      (hsends : t.sends = ⟨d, a.envelope, false⟩ :: s.sends)
  | collects (a : Asked) (sent sent' : List GoString) (err : Option Err)
      (hs : s.pc = .asking a [] sent ∨ ∃ err, s.pc = .collecting a sent err)
      (h : t.pc = .collecting a sent' err) (hsends : ∀ d ∈ s.sends, d ∈ t.sends)

/-- The places of a run that belong to no result. -/
def Pc.plain : Pc → Bool
  | .idle | .ending _ _ | .failing _ _ | .cancelling _ _ | .sendingCancel _ _ _ _
  | .returned _ _ _ => false
  | _ => true

/-- Where a step leads: on through the run, or towards its result. -/
inductive Lands (cfg : Config) (s : Controller) (m : Move) (t : Controller) : Prop
  | stays (h : t.pc = s.pc)
  | plain (h : t.pc.plain = true)
  | unplaced (err : Err) (h : t.pc = .returned {} (some err) s.context)
  | failed (a : Attempt) (err : Err) (h : t.pc = .failing { attempt := a } err)
  | ends (a : Attempt) (state : ExecutionState) (r : ExecutionRecord)
      (h : t.pc = .ending a state) (hr : s.core.executions.lookup a.executionID = some r)
      (hstate : r.state = some state)
  | concluded (a : Attempt) (state : ExecutionState) (hs : s.pc = .ending a state)
      (h : t.pc = .returned ⟨a, some state⟩ none s.context)
  | fails (result : Result) (err : Err) (hs : s.pc = .failing result err)
      (h : t = s.goto (if s.context.isSome then .cancelling result err
        else .returned result (some err) s.context))
  | cancels (i : Input) (result : Result) (err : Err) (hs : s.pc = .cancelling result err)
      (h : s.bestEffortCancel cfg i result err = some t)
  | cancelled (result : Result) (err : Err) (d : GoString) (e : Envelope) (failed : Bool)
      (hs : s.pc = .sendingCancel result err d e)
      (h : t = (s.send d e failed).goto (.returned result (some err) s.context))

/-- What a step of the controller's goroutine does. -/
structure Turned (cfg : Config) (s : Controller) (m : Move) (t : Controller) : Prop where
  core : Drives cfg s t
  sends : Transmits s m t
  asks : Asks s t
  lands : Lands cfg s m t

variable {cfg : Config} {s t u : Controller} {m : Move} {i : Input} {c : Caller} {err : Err}

theorem Drives.congr (h : Drives cfg s u) (hcore : t.core = u.core) : Drives cfg s t := by
  cases h with
  | same h => exact .same (hcore.trans h)
  | op op h hfits => exact .op op (hcore.trans h) hfits

theorem Transmits.same (h : t.sends = s.sends) : Transmits s m t :=
  .others [] h fun _ => List.forall_mem_nil _

theorem Transmits.one {d : Sent} (h : t.sends = d :: s.sends)
    (hd : s.pc.Typed → assignmentOf d.envelope = none) : Transmits s m t := by
  refine .others [d] h ?_
  intro htyped d' hd'
  rw [List.mem_singleton.mp hd']
  exact hd htyped

/-- A step on through the run that sends nothing. -/
theorem Turned.on (hcore : Drives cfg s t) (hsends : t.sends = s.sends)
    (hplain : t.pc.plain = true) (hrequest : t.pc.request = none) : Turned cfg s m t :=
  ⟨hcore, .same hsends, .elsewhere hrequest, .plain hplain⟩

theorem Turned.stays (hcore : Drives cfg s t) (hsends : t.sends = s.sends) (hpc : t.pc = s.pc) :
    Turned cfg s m t :=
  ⟨hcore, .same hsends, .stays hpc hsends, .stays hpc⟩

-- ===== the returns

/-- The core and the sends of a controller. -/
def Controller.work (s : Controller) : State × List Sent := (s.core, s.sends)

theorem work_renewFailed (a : Attempt) (err : Err) : (u.renewFailed a err).work = u.work := by
  unfold Controller.renewFailed
  split <;> rfl

theorem work_rerequestFailed (c : Caller) (err : Err) :
    (u.rerequestFailed c err).work = u.work := by
  cases c with
  | run | hold => rfl
  | renew r => exact work_renewFailed r.active err

theorem work_attemptFailed (c : Caller) (err : Err) : (u.attemptFailed c err).work = u.work := by
  cases c with
  | run => rfl
  | hold | renew => exact work_rerequestFailed _ _

theorem work_inspected (a : Attempt) (err : Option Err) : (u.inspected a err).work = u.work := by
  unfold Controller.inspected
  split
  · split <;> rfl
  · rfl

theorem core_attemptFailed (c : Caller) (err : Err) : (u.attemptFailed c err).core = u.core :=
  congrArg Prod.fst (work_attemptFailed c err)

theorem sends_attemptFailed (c : Caller) (err : Err) : (u.attemptFailed c err).sends = u.sends :=
  congrArg Prod.snd (work_attemptFailed c err)

/-- Nothing is sent back. -/
theorem Transmits.subset (h : Transmits s m t) : ∀ d ∈ s.sends, d ∈ t.sends := by
  intro d hd
  cases h with
  | others new h hnew =>
    rw [h]
    exact List.mem_append_right _ hd
  | assigns a dest e outcome hs hm h =>
    subst h
    cases outcome with
    | none => exact List.mem_cons_of_mem _ hd
    | some err =>
      show d ∈ (Controller.attemptFailed _ _ _).sends
      rw [sends_attemptFailed]
      exact List.mem_cons_of_mem _ hd

/-- A controller that sent no assignment. -/
theorem transmits_sent {pc : Pc} {d : GoString} {e : Envelope} {failed : Bool} (hpc : s.pc = pc)
    (he : pc.Typed → assignmentOf e = none) {t : Controller}
    (ht : t.sends = ⟨d, e, failed⟩ :: s.sends) : Transmits s m t :=
  .one ht fun htyped => he (hpc ▸ htyped)

section Failing

variable {a : Attempt} {result : Option Err} (hcore : Drives cfg s u)
  (hsends : ∀ {t : Controller}, t.sends = u.sends → Transmits s m t)
include hcore hsends

theorem Turned.renewFailed : Turned cfg s m (u.renewFailed a err) := by
  have hwork := Prod.mk.inj (work_renewFailed (u := u) a err)
  exact ⟨hcore.congr hwork.1, hsends hwork.2, .elsewhere rfl, .plain rfl⟩

theorem Turned.rerequestFailed (hcontext : u.context = s.context) :
    Turned cfg s m (u.rerequestFailed c err) := by
  cases c with
  | run =>
    refine ⟨hcore.congr rfl, hsends rfl, .elsewhere rfl, .unplaced err ?_⟩
    rw [← hcontext]
    rfl
  | hold a => exact ⟨hcore.congr rfl, hsends rfl, .elsewhere rfl, .failed a err rfl⟩
  | renew r => exact .renewFailed hcore hsends

theorem Turned.attemptFailed (hcontext : u.context = s.context) :
    Turned cfg s m (u.attemptFailed c err) := by
  cases c with
  | run => exact .rerequestFailed (c := .run) hcore hsends hcontext
  | hold a => exact .rerequestFailed (c := .hold a) hcore hsends hcontext
  | renew r => exact .rerequestFailed (c := .renew r) hcore hsends hcontext

theorem Turned.inspected : Turned cfg s m (u.inspected a result) := by
  have hwork := Prod.mk.inj (work_inspected (u := u) a result)
  refine ⟨hcore.congr hwork.1, hsends hwork.2, ?_, ?_⟩
  · refine .elsewhere ?_
    unfold Controller.inspected
    split
    · split <;> rfl
    · rfl
  · unfold Controller.inspected
    split
    next err =>
      split
      · exact .failed a err rfl
      · exact .plain rfl
    · exact .plain rfl

end Failing

-- ===== `requestAttempt`

variable {q : ExecutionRequest} {allocators rest sent : List GoString} {a : Asked} {d : GoString}
  {e : Envelope}

theorem turned_create (hpc : s.pc = .creating c q allocators) :
    Turned cfg s m (s.create cfg i c q allocators) := by
  have hcore : ∀ {t : Controller}, t.core = (Controller.createAttempt cfg i c q s.core).1 →
      Drives cfg s t := by
    intro t ht
    cases c with
    | run =>
      exact .op (.createRequest i q.workload q.policy q.resourceClass q.constraints) ht
        ⟨_, _, _, hpc⟩
    | hold | renew => exact .op (.nextAttempt i q) ht ⟨_, _, _, hpc⟩
  unfold Controller.create
  dsimp only
  split
  · exact .attemptFailed (hcore rfl) (.same ·) rfl
  next k e _ =>
    exact ⟨hcore rfl, .same rfl, .creates ⟨c, q, allocators, k, e⟩ hpc rfl, .plain rfl⟩

theorem turned_ask (hpc : s.pc = .asking a (d :: rest) sent) (outcome : Option Err) :
    Turned cfg s m (s.ask a d rest sent outcome) := by
  cases outcome with
  | none =>
    exact ⟨.same rfl, transmits_sent hpc id rfl, .asks a d rest sent hpc rfl rfl,
      .plain rfl⟩
  | some err => exact .attemptFailed (.same rfl) (transmits_sent hpc id) rfl

/-- The bootstrap sends touch nothing but the sends. -/
theorem bootstrap_spec (e : Envelope) (destinations : List GoString) :
    ∀ (sent : List GoString) (s : Controller),
      (Controller.bootstrap e destinations sent s).1.core = s.core ∧
      ∃ new, (Controller.bootstrap e destinations sent s).1.sends = new ++ s.sends ∧
        ∀ d ∈ new, d.envelope = e := by
  induction destinations with
  | nil => exact fun _ _ => ⟨rfl, [], rfl, List.forall_mem_nil _⟩
  | cons d rest ih =>
    intro sent s
    unfold Controller.bootstrap
    split
    · exact ih sent s
    obtain ⟨hcore, new, hnew, henvelope⟩ := ih (d :: sent) (s.send d e false)
    refine ⟨hcore, new ++ [⟨d, e, false⟩], ?_, ?_⟩
    · rw [hnew]
      simp [Controller.send]
    · intro d' hd'
      rcases List.mem_append.mp hd' with hd' | hd'
      · exact henvelope d' hd'
      · rw [List.mem_singleton.mp hd']

theorem turned_asked (hpc : s.pc = .asking a [] sent) : Turned cfg s m (s.asked a sent) := by
  unfold Controller.asked
  split
  · obtain ⟨hcore, new, hnew, henvelope⟩ :=
      bootstrap_spec a.envelope s.bootstrapDestinations sent s
    refine ⟨.same hcore, (.others new hnew fun h d hd => ?_),
      .collects a sent _ none (.inl hpc) rfl fun d hd => ?_, .plain rfl⟩
    · rw [hpc] at h
      rw [Sent.execution, henvelope d hd]
      exact h
    · exact hnew ▸ List.mem_append_right _ hd
  · exact ⟨.same rfl, .same rfl, .collects a sent _ none (.inl hpc) rfl fun _ hd => hd,
      .plain rfl⟩

variable {remoteErr : Option Err}

theorem turned_discover (hpc : s.pc = .collecting a sent remoteErr)
    (service : Presence.Service) : Turned cfg s m (s.discover a sent remoteErr service) := by
  unfold Controller.discover
  split
  · exact .stays (.same rfl) rfl rfl
  rename_i hslots
  split
  · exact .stays (.same rfl) rfl rfl
  rename_i identity _
  have hcore {t : Controller}
      (ht : t.core = (register (Controller.discoveredAllocator identity service) s.core).1) :
      Drives cfg s t :=
    .op (.register _) ht ⟨a, sent, remoteErr, hpc, hslots⟩
  dsimp only
  split
  · exact .attemptFailed (hcore rfl) (.same ·) rfl
  split
  · exact .stays (hcore rfl) rfl rfl
  exact ⟨hcore rfl, transmits_sent hpc id rfl,
    .collects a sent _ remoteErr (.inr ⟨remoteErr, hpc⟩) rfl fun _ hd => List.mem_cons_of_mem _ hd,
    .plain rfl⟩

theorem turned_choose : Turned cfg s m (s.choose cfg i a remoteErr) := by
  unfold Controller.choose
  dsimp only
  split
  · exact .attemptFailed (.op (.select i a.requestID) rfl trivial) (.same ·) rfl
  · exact .on (.op (.select i a.requestID) rfl trivial) rfl rfl rfl

theorem turned_record : Turned cfg s m (s.record a d e) := by
  have hcore {t : Controller} (ht : t.core = (recordLeaseIntent (Controller.executionOf e)
      s.options.leaseDuration a.allocators s.core).1) : Drives cfg s t :=
    .op (.recordIntent _ _ _) ht trivial
  unfold Controller.record
  dsimp only
  split
  · exact .attemptFailed (hcore rfl) (.same ·) rfl
  · exact .on (hcore rfl) rfl rfl rfl

theorem turned_assign (hpc : s.pc = .assigning a d e) (outcome : Option Err) :
    Turned cfg s (.sent outcome) (s.assign a d e outcome) := by
  have hsends : Transmits s (.sent outcome) (s.assign a d e outcome) :=
    .assigns a d e outcome hpc rfl rfl
  cases outcome with
  | none => exact ⟨.same rfl, hsends, .elsewhere rfl, .plain rfl⟩
  | some err =>
    obtain ⟨caller, request, allocators, k, envelope⟩ := a
    cases caller with
    | run => exact ⟨.same rfl, hsends, .elsewhere rfl, .unplaced err rfl⟩
    | hold active => exact ⟨.same rfl, hsends, .elsewhere rfl, .failed active _ rfl⟩
    | renew r => exact ⟨.same (core_attemptFailed _ _), hsends, .elsewhere rfl, .plain rfl⟩

theorem turned_describe {x : GoString} : Turned cfg s m (s.describe a x) := by
  unfold Controller.describe
  split
  · exact .attemptFailed (.same rfl) (.same ·) rfl
  · exact .on (.same rfl) rfl rfl rfl

variable {id : GoString}

theorem turned_attemptDone {attempt : Attempt} :
    Turned cfg s m ((s.forget id).attemptDone c attempt) := by
  cases c <;> exact .on (.same rfl) rfl rfl rfl

-- ===== `reRequestLost`

theorem turned_lose (hpc : s.pc = .losing c) : Turned cfg s m (s.lose c) := by
  unfold Controller.lose
  split
  · exact .rerequestFailed (.same rfl) (.same ·) rfl
  next q hq => exact ⟨.same rfl, .same rfl, .recalls c q hpc hq rfl, .plain rfl⟩

variable {active : Attempt}

theorem turned_rebind : Turned cfg s m (s.rebind c active) := by
  have hcore {t : Controller}
      (ht : t.core = (rebindLeaseIntent c.lostID active.executionID s.core).1) :
      Drives cfg s t :=
    .op (.rebind _ _) ht trivial
  unfold Controller.rebind
  dsimp only
  split
  · exact .rerequestFailed (hcore rfl) (.same ·) rfl
  cases c with
  | run => exact .stays (hcore rfl) rfl rfl
  | hold | renew => exact .on (hcore rfl) rfl rfl rfl

-- ===== `holdRun`

theorem turned_hold : Turned cfg s m (s.hold active) := by
  unfold Controller.hold
  split
  next state hstate =>
    obtain ⟨hread, -⟩ := Option.filter_eq_some_iff.mp hstate
    obtain ⟨r, hr, hrstate⟩ := Option.bind_eq_some_iff.mp hread
    exact ⟨.same rfl, .same rfl, .elsewhere rfl, .ends active state r rfl hr hrstate⟩
  · exact .on (.same rfl) rfl rfl rfl

theorem turned_finish {state : ExecutionState} (hpc : s.pc = .ending active state) :
    Turned cfg s m (s.finish active state) := by
  unfold Controller.finish
  split
  · exact .on (.same rfl) rfl rfl rfl
  · exact ⟨.same rfl, .same rfl, .elsewhere rfl, .concluded active state hpc rfl⟩

theorem turned_watch : Turned cfg s m (s.watch active) := by
  unfold Controller.watch
  split <;> exact .on (.same rfl) rfl rfl rfl

theorem turned_checkDue : Turned cfg s m (s.checkDue i active) := by
  unfold Controller.checkDue
  split <;> exact .on (.same rfl) rfl rfl rfl

theorem turned_inspect : Turned cfg s m (s.inspect cfg i active) := by
  unfold Controller.inspect
  dsimp only
  split
  · exact .inspected (.op (.inspect i active.executionID) rfl trivial) (.same ·)
  · exact .on (.op (.inspect i active.executionID) rfl trivial) rfl rfl rfl

theorem turned_sendInspect (hpc : s.pc = .sendingInspect active d e) (outcome : Option Err) :
    Turned cfg s m (s.sendInspect active d e outcome) := by
  unfold Controller.sendInspect
  split
  · exact .inspected (.same rfl) (transmits_sent hpc id)
  · exact ⟨.same rfl, transmits_sent hpc id rfl, .elsewhere rfl, .plain rfl⟩

theorem turned_stateReply (e : Envelope) : Turned cfg s m (s.stateReply active id e) := by
  unfold Controller.stateReply
  split
  · exact .inspected (.same rfl) (.same ·)
  split
  · exact .inspected (.same rfl) (.same ·)
  · exact .stays (.same rfl) rfl rfl

-- ===== `renewOrReRequest`

variable {r : Renewal}

theorem turned_maintain : Turned cfg s m (s.maintain cfg i r) := by
  have hcore {t : Controller} (ht : t.core =
      (Client.maintain cfg i r.activeID s.options.leaseDuration s.core).1) : Drives cfg s t :=
    .op (.maintain i _ _) ht trivial
  unfold Controller.maintain
  dsimp only
  split
  · exact .renewFailed (hcore rfl) (.same ·)
  · exact .on (hcore rfl) rfl rfl rfl
  · exact .on (hcore rfl) rfl rfl rfl

theorem turned_renew (hpc : s.pc = .renewing r d e) (outcome : Option Err) :
    Turned cfg s m (s.renew r d e outcome) := by
  cases outcome with
  | none => exact ⟨.same rfl, transmits_sent hpc id rfl, .elsewhere rfl, .plain rfl⟩
  | some err => exact .renewFailed (.same rfl) (transmits_sent hpc id)

theorem turned_ackReply (e : Envelope) : Turned cfg s m (s.ackReply r id e) := by
  unfold Controller.ackReply
  split
  · exact .on (.same rfl) rfl rfl rfl
  split
  · split
    · exact .on (.same rfl) rfl rfl rfl
    · exact .stays (.same rfl) rfl rfl
  · exact .stays (.same rfl) rfl rfl

theorem turned_doubt : Turned cfg s m (s.doubt r err) := by
  unfold Controller.doubt
  split
  · exact .on (.same rfl) rfl rfl rfl
  · exact .renewFailed (.same rfl) (.same ·)

theorem turned_renewalDone : Turned cfg s m (s.renewalDone r) := by
  unfold Controller.renewalDone
  split <;> exact .on (.same rfl) rfl rfl rfl

-- ===== `Run`

variable {result : Result}

/-- A cancellation keeps the result. -/
theorem bestEffortCancel_pc (h : s.bestEffortCancel cfg i result err = some t) :
    t.pc = .returned result (some err) s.context ∨ ∃ d e, t.pc = .sendingCancel result err d e := by
  unfold Controller.bestEffortCancel at h
  split at h
  · cases h; exact .inl rfl
  split at h
  · cases h
  dsimp only at h
  split at h
  · cases h; exact .inl rfl
  next d e _ => cases h; exact .inr ⟨d, e, rfl⟩

theorem turned_cancel (hpc : s.pc = .cancelling result err)
    (h : s.bestEffortCancel cfg i result err = some t) : Turned cfg s m t := by
  have hlands : Lands cfg s m t := .cancels i result err hpc h
  have hasks : Asks s t := by
    rcases bestEffortCancel_pc h with ht | ⟨d, e, ht⟩
    · exact .elsewhere (by rw [ht]; rfl)
    · exact .elsewhere (by rw [ht]; rfl)
  have hcore {t : Controller} (ht : t.core =
      (cancel cfg i result.attempt.executionID Controller.cancelReason s.core).1) :
      Drives cfg s t :=
    .op (.cancel i _ _) ht ⟨result, err, hpc⟩
  unfold Controller.bestEffortCancel at h
  split at h
  · cases h; exact ⟨.same rfl, .same rfl, hasks, hlands⟩
  split at h
  · cases h
  dsimp only at h
  split at h
  · cases h; exact ⟨hcore rfl, .same rfl, hasks, hlands⟩
  · cases h; exact ⟨hcore rfl, .same rfl, hasks, hlands⟩

theorem turned_fail (hpc : s.pc = .failing result err) :
    Turned cfg s m (s.goto (if s.context.isSome then .cancelling result err
      else .returned result (some err) s.context)) := by
  refine ⟨.same rfl, .same rfl, .elsewhere ?_, .fails result err hpc rfl⟩
  split <;> rfl

/-- Every step of the controller's goroutine. -/
theorem turned_turn (h : s.turn cfg m = some t) : Turned cfg s m t := by
  unfold Controller.turn at h
  split at h
  next hpc => cases h; exact turned_create hpc
  next hpc => cases h; exact turned_ask hpc _
  next hpc => cases h; exact turned_asked hpc
  · obtain ⟨ended, -, rfl⟩ := Option.map_eq_some_iff.mp h
    exact .attemptFailed (.same rfl) (.same ·) rfl
  · cases h; exact .on (.same rfl) rfl rfl rfl
  next hpc =>
    obtain ⟨e, -, rfl⟩ := Option.map_eq_some_iff.mp h
    exact ⟨.same rfl, .same rfl, .collects _ _ _ _ (.inr ⟨_, hpc⟩) rfl fun _ hd => hd,
      .plain rfl⟩
  next hpc => cases h; exact turned_discover hpc _
  · cases h; exact turned_choose
  · cases h; exact turned_record
  next hpc => cases h; exact turned_assign hpc _
  · cases h; exact turned_describe
  · cases h; exact turned_attemptDone
  next hpc => cases h; exact turned_lose hpc
  next hpc => cases h; exact ⟨.same rfl, .same rfl, .routes _ _ hpc rfl, .plain rfl⟩
  · cases h; exact turned_rebind
  · cases h; exact turned_hold
  next hpc => cases h; exact turned_finish hpc
  · cases h; exact turned_watch
  · cases h; exact turned_checkDue
  · obtain ⟨ended, -, rfl⟩ := Option.map_eq_some_iff.mp h
    exact ⟨.same rfl, .same rfl, .elsewhere rfl, .failed _ ended.err rfl⟩
  · split at h
    · cases h; exact .on (.same rfl) rfl rfl rfl
    · cases h
  · cases h; exact .on (.same rfl) rfl rfl rfl
  · cases h; exact turned_inspect
  next hpc => cases h; exact turned_sendInspect hpc _
  · obtain ⟨ended, -, rfl⟩ := Option.map_eq_some_iff.mp h
    exact .inspected (.same rfl) (.same ·)
  · cases h; exact .inspected (.same rfl) (.same ·)
  · obtain ⟨e, -, rfl⟩ := Option.map_eq_some_iff.mp h
    exact turned_stateReply e
  · cases h; exact turned_maintain
  next hpc => cases h; exact turned_renew hpc _
  · obtain ⟨ended, -, rfl⟩ := Option.map_eq_some_iff.mp h
    exact .on (.same rfl) rfl rfl rfl
  · cases h; exact .on (.same rfl) rfl rfl rfl
  · obtain ⟨e, -, rfl⟩ := Option.map_eq_some_iff.mp h
    exact turned_ackReply e
  · cases h; exact turned_doubt
  · cases h; exact turned_renewalDone
  next hpc => cases h; exact turned_fail hpc
  next hpc => exact turned_cancel hpc h
  next hpc =>
    cases h
    exact ⟨.same rfl, transmits_sent hpc id rfl, .elsewhere rfl,
      .cancelled _ _ _ _ _ hpc rfl⟩
  · cases h

end R1s.Client
