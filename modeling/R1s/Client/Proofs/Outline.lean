/-
The outline of a client core: which requests there are and what became of
them, which executions there are and which of them carry a lease intent.
It is all the run controller's bookkeeping depends on.

Messages, inspections, log reads, tunnels, cancellations and routes leave
the outline alone (`outline_quiet`). The five operations the controller
uses to place a run change it each in one way, or fail and change
nothing.
-/
import R1s.Client.Run
import R1s.Client.Proofs.Core

namespace R1s.Client

open Function (update update_of_ne update_self)

variable {cfg : Config} {s t : State} {op : Op}

/-- Requests by ID with the execution they were given, executions by ID
with their request and whether they carry a lease intent. -/
@[ext]
structure Outline where
  request : GoString → Option (ExecutionRequest × GoString)
  execution : GoString → Option (GoString × Bool)

namespace Outline

variable (o : Outline)

/-- The execution carries a lease intent. -/
def carries (x : GoString) : Prop := ∃ k, o.execution x = some (k, true)

/-- The request of an execution. -/
def requestOf (x : GoString) : Option ExecutionRequest :=
  (o.execution x).bind fun e => (o.request e.1).map Prod.fst

/-- A request is put in or gets its execution. -/
def setRequest (k : GoString) (q : ExecutionRequest) (x : GoString) : Outline :=
  { o with request := update o.request k (some (q, x)) }

/-- An execution is put in, takes or leaves the intent. -/
def setExecution (x k : GoString) (intent : Bool) : Outline :=
  { o with execution := update o.execution x (some (k, intent)) }

variable {o} {k k' x x' : GoString} {q : ExecutionRequest} {intent : Bool}

@[simp] theorem request_setRequest : (o.setRequest k q x).request k = some (q, x) :=
  update_self ..

theorem request_setRequest_ne (h : k' ≠ k) : (o.setRequest k q x).request k' = o.request k' :=
  update_of_ne h ..

@[simp] theorem execution_setExecution :
    (o.setExecution x k intent).execution x = some (k, intent) :=
  update_self ..

theorem execution_setExecution_ne (h : x' ≠ x) :
    (o.setExecution x k intent).execution x' = o.execution x' :=
  update_of_ne h ..

end Outline

/-- The outline of a core. -/
def State.outline (s : State) : Outline where
  request k := (s.requests.lookup k).map fun r => (r.request, r.executionID)
  execution x := (s.executions.lookup x).map fun r => (r.requestID, decide (0 < r.leaseDuration))

variable {x : GoString}

theorem outline_execution {r : ExecutionRecord} (h : s.executions.lookup x = some r) :
    s.outline.execution x = some (r.requestID, decide (0 < r.leaseDuration)) := by
  show (s.executions.lookup x).map _ = _
  rw [h]
  rfl

theorem outline_request {k : GoString} {r : RequestRecord} (h : s.requests.lookup k = some r) :
    s.outline.request k = some (r.request, r.executionID) := by
  show (s.requests.lookup k).map _ = _
  rw [h]
  rfl

theorem requestForExecution_eq (x : GoString) :
    requestForExecution x s = s.outline.requestOf x := by
  unfold requestForExecution Outline.requestOf State.outline
  dsimp only
  cases s.executions.lookup x with
  | none => rfl
  | some r =>
    show (s.requests.lookup r.requestID).map _ = ((s.requests.lookup r.requestID).map _).map _
    rw [Option.map_map]
    rfl

/-- A change of one execution record, seen in the outline. -/
theorem outline_setExecution (s : State) (x : GoString) (r : ExecutionRecord) :
    (s.setExecution x r).outline =
      s.outline.setExecution x r.requestID (decide (0 < r.leaseDuration)) := by
  refine Outline.ext rfl (funext fun y => ?_)
  show ((s.executions.insert x r).lookup y).map _ = update s.outline.execution x _ y
  rw [AList.lookup_insert_if]
  split
  next heq =>
    subst heq
    rw [update_self]
    rfl
  next hne =>
    rw [update_of_ne hne]
    rfl

/-- A change of one request record, seen in the outline. -/
theorem outline_setRequest (s : State) (k : GoString) (r : RequestRecord) :
    State.outline { s with requests := s.requests.insert k r } =
      s.outline.setRequest k r.request r.executionID := by
  refine Outline.ext (funext fun y => ?_) rfl
  show ((s.requests.insert k r).lookup y).map _ = update s.outline.request k _ y
  rw [AList.lookup_insert_if]
  split
  next heq =>
    subst heq
    rw [update_self]
    rfl
  next hne =>
    rw [update_of_ne hne]
    rfl

/-- A change that keeps the request and the intent is none. -/
theorem outline_same {r r' : ExecutionRecord} (hr : s.executions.lookup x = some r)
    (hrequest : r'.requestID = r.requestID) (hintent : 0 < r'.leaseDuration ↔ 0 < r.leaseDuration) :
    (s.setExecution x r').outline = s.outline := by
  rw [outline_setExecution, hrequest, decide_eq_decide.mpr hintent]
  refine Outline.ext rfl ?_
  show update s.outline.execution x _ = _
  rw [← outline_execution hr]
  exact Function.update_eq_self x _

-- ===== other operations

/-- The operations that place nothing. -/
def Op.quiet : Op → Bool
  | .register _ | .releases _ | .inspect _ _ | .cancel _ _ _ | .logs _ _ | .tunnelOpen _ _
  | .handle _ _ => true
  | _ => false

theorem outline_quiet (hkeyed : Keyed s) (hquiet : op.quiet = true) (hkept : Kept cfg op s t) :
    t.outline = s.outline := by
  have hleases : op.leases = false := by cases op <;> first | rfl | cases hquiet
  have hrequestID : op.requestID = none := by cases op <;> first | rfl | cases hquiet
  have hselect : ∀ {x r}, ¬Selects op s t x r := by
    intro x r hselects
    obtain ⟨i, hop, -⟩ := hselects.select
    rw [hop] at hquiet
    cases hquiet
  -- no execution is new, so none can be given to an open request
  have hexecution {x : GoString} {r' : ExecutionRecord} (hr' : t.executions.lookup x = some r') :
      ∃ r, s.executions.lookup x = some r ∧ Reworked cfg op x r r' :=
    (hkept.execution hr').resolve_right hselect
  refine Outline.ext (funext fun k => ?_) (funext fun x => ?_)
  · cases hr' : t.requests.lookup k with
    | none =>
      show (t.requests.lookup k).map _ = (s.requests.lookup k).map _
      rw [hkept.requests.lookup_none hr', hr']
    | some r' =>
      rcases hkept.request hr' with ⟨r, hr, hsame⟩ | ⟨hnew, -⟩
      · rw [outline_request hr, outline_request hr', hsame.request]
        rcases hsame.executionID with heq | ⟨hopen, x, hx, hxk⟩
        · rw [heq]
        · obtain ⟨x₀, hx₀, hwork⟩ := hexecution hx
          obtain ⟨q, hq, howner⟩ := hkeyed.owner hx₀
          rw [← hwork.requestID, hxk, hr] at hq
          cases hq
          rw [← howner]
      · rw [hrequestID] at hnew
        cases hnew
  · cases hr' : t.executions.lookup x with
    | none =>
      show (t.executions.lookup x).map _ = (s.executions.lookup x).map _
      rw [hkept.executions.lookup_none hr', hr']
    | some r' =>
      obtain ⟨r, hr, hwork⟩ := hexecution hr'
      rw [outline_execution hr, outline_execution hr', hwork.requestID]
      rcases hwork.duration with heq | hlease
      · rw [heq]
      · rw [hleases] at hlease
        cases hlease

-- ===== placing operations

/-- A request that is refused leaves nothing behind; one that is made is
new and has no execution. -/
def Creates (s t : State) (attempt : Nat) (resourceClass : GoString)
    (constraints : Option PlacementConstraints) : Except Err (GoString × Envelope) → Prop
  | .error _ => t = s
  | .ok (k, e) => s.outline.request k = none ∧ ∃ q : ExecutionRequest,
      q.attempt = attempt ∧ q.resourceClass = resourceClass ∧ q.constraints = constraints ∧
      e.payload = some (.executionRequest q) ∧ t.outline = s.outline.setRequest k q []

variable {i : Input}

theorem creates_createRequest {workload : Option Workload} {policy : Option ExecutionPolicy}
    {resourceClass : GoString} {constraints : Option PlacementConstraints} {runID : GoString}
    {attempt : Nat} {result : Except Err (GoString × Envelope)}
    (h : createRequest cfg i workload policy resourceClass constraints runID attempt s =
      (t, result)) :
    Creates s t attempt resourceClass constraints result := by
  rcases createRequest_cases cfg i workload policy resourceClass constraints runID attempt s with
    ⟨err, heq⟩ | ⟨r, hnew, -, -, hopen, -, hattempt, hclass, hconstraints, heq⟩
  · cases h.symm.trans heq
    rfl
  cases h.symm.trans heq
  refine ⟨?_, r.request, hattempt, hclass, hconstraints, rfl, ?_⟩
  · show (s.requests.lookup (i.id 0)).map _ = none
    rw [hnew]
    rfl
  · rw [outline_setRequest, hopen]

/-- The next attempt has the next number. -/
theorem creates_createNextAttempt {previous : ExecutionRequest}
    {result : Except Err (GoString × Envelope)}
    (h : createNextAttempt cfg i previous s = (t, result)) :
    Creates s t (previous.attempt + 1) previous.resourceClass previous.constraints result := by
  unfold createNextAttempt at h
  split at h
  · cases h
    rfl
  · exact creates_createRequest h

/-- The selection for a request that has no execution. -/
def Chooses (s t : State) (k : GoString) (q : ExecutionRequest) : Except Err Addressed → Prop
  | .error _ => t = s
  | .ok (_, e) => ∃ x offerID, x ≠ [] ∧ s.outline.execution x = none ∧
      e.payload = some (.executionAssign ⟨k, offerID, x⟩) ∧
      t.outline = (s.outline.setRequest k q x).setExecution x k false

theorem chooses_select {k : GoString} {q : ExecutionRequest} {result : Except Err Addressed}
    (hopen : s.outline.request k = some (q, [])) (h : select cfg i k s = (t, result)) :
    Chooses s t k q result := by
  obtain ⟨record, hrecord, hq⟩ := Option.map_eq_some_iff.mp hopen
  obtain ⟨rfl, hnone⟩ := Prod.mk.inj hq
  cases select_cases i k s with
  | fails _ hselect =>
    cases hselect.symm.trans h
    rfl
  | repeats r _ hr hassigned =>
    cases hrecord.symm.trans hr
    exact absurd hnone hassigned
  | makes r selected d offers hr _ hid hnew _ _ hselect =>
    cases hrecord.symm.trans hr
    cases hselect.symm.trans h
    refine ⟨i.id 0, selected.offer.offerID, hid, ?_, rfl, ?_⟩
    · show (s.executions.lookup (i.id 0)).map _ = none
      rw [hnew]
      rfl
    · rw [← outline_setRequest s k
        { record with offers := offers, executionID := i.id 0 }]
      exact outline_setExecution
        { s with
          requests := s.requests.insert k
            { record with offers := offers, executionID := i.id 0 } }
        (i.id 0) (newExecution i k selected d)

/-- The intent is recorded, or nothing is. -/
theorem outline_recordLeaseIntent {d : Int} {allocators : List GoString} {err : Option Err}
    (h : recordLeaseIntent x d allocators s = (t, err)) :
    (err = none ∧ ∃ k intent, s.outline.execution x = some (k, intent) ∧
        t.outline = s.outline.setExecution x k true) ∨
      err ≠ none ∧ t = s := by
  unfold recordLeaseIntent at h
  split at h
  · cases h
    exact .inr ⟨nofun, rfl⟩
  rename_i r hr
  split at h
  · cases h
    exact .inr ⟨nofun, rfl⟩
  cases h
  refine .inl ⟨rfl, r.requestID, _, outline_execution hr, ?_⟩
  rw [outline_setExecution]
  have hpositive : (0 : Int) < if d ≤ 0 then defaultLease else d := by
    split
    · decide
    next hd => omega
  rw [decide_eq_true hpositive]

/-- `Maintain` on an execution that carries an intent. -/
theorem outline_maintain {d : Int} {result : Except Err (Option Addressed)}
    (hcarries : s.outline.carries x) (h : maintain cfg i x d s = (t, result)) :
    t.outline = s.outline := by
  obtain ⟨k, hk⟩ := hcarries
  obtain ⟨r, hr, heq⟩ := Option.map_eq_some_iff.mp hk
  have hpos : 0 < r.leaseDuration := of_decide_eq_true (Prod.mk.inj heq).2
  unfold maintain at h
  rw [hr] at h
  dsimp only at h
  split at h
  · cases h
    rfl
  split at h
  · split at h
    · cases h
      exact outline_same hr rfl Iff.rfl
    · cases h
      rfl
  have hduration : ∀ e : Int, 0 < if e ≤ 0 then defaultLease else e := by
    intro e
    split
    · decide
    next he => omega
  split at h
  · cases h
    exact outline_same hr rfl (iff_of_true (hduration _) hpos)
  · cases h
    exact outline_same hr rfl (iff_of_true (hduration _) hpos)

/-- The intent moves, or nothing does. -/
theorem outline_rebindLeaseIntent {y : GoString} {err : Option Err}
    (h : rebindLeaseIntent x y s = (t, err)) :
    (err = none ∧ x ≠ y ∧ ∃ k k' intent, s.outline.execution x = some (k, true) ∧
        s.outline.execution y = some (k', intent) ∧
        t.outline = (s.outline.setExecution y k' true).setExecution x k false) ∨
      err ≠ none ∧ t = s ∧
        ¬(x ≠ y ∧ s.outline.carries x ∧ (s.outline.execution y).isSome = true) := by
  unfold rebindLeaseIntent at h
  split at h
  next previous replacement hprevious hreplacement =>
    split at h
    next heq =>
      cases h
      exact .inr ⟨nofun, rfl, fun hgood => hgood.1 heq⟩
    rename_i hne
    split at h
    next hnone =>
      cases h
      refine .inr ⟨nofun, rfl, ?_⟩
      rintro ⟨-, ⟨k, hk⟩, -⟩
      rw [outline_execution hprevious] at hk
      have hpos := of_decide_eq_true (Prod.mk.inj (Option.some.inj hk)).2
      omega
    rename_i hpos
    have hpos : 0 < previous.leaseDuration := not_le.mp hpos
    cases h
    refine .inl ⟨rfl, hne, previous.requestID, replacement.requestID, _, ?_,
      outline_execution hreplacement, ?_⟩
    · rw [outline_execution hprevious, decide_eq_true hpos]
    · rw [outline_setExecution, outline_setExecution, decide_eq_true hpos]
      rfl
  rename_i hmissing
  cases h
  refine .inr ⟨nofun, rfl, ?_⟩
  rintro ⟨-, ⟨k, hk⟩, hy⟩
  obtain ⟨previous, hprevious, -⟩ := Option.map_eq_some_iff.mp hk
  obtain ⟨e, he⟩ := Option.isSome_iff_exists.mp hy
  obtain ⟨replacement, hreplacement, -⟩ := Option.map_eq_some_iff.mp he
  exact hmissing previous replacement hprevious hreplacement

end R1s.Client
