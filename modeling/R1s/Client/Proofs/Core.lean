/-
What an operation of the client core can do to its records, said once. No
record is ever dropped; of an execution the assignment is fixed when it is
selected, and the rest changes only as `Reworked` says; a request keeps
its message and, once it has one, its execution.
-/
import R1s.Client.Inbound

namespace R1s.Client

open Allocator (visit)
open Option (isSome_iff_exists some)

variable {cfg : Config} {s : State} {op : Op}

-- ===== executions

/-- Why an operation marks the lease of the execution `x` as lost. -/
inductive Loses (cfg : Config) (op : Op) (x : GoString) (r : ExecutionRecord) : Prop
  /-- An observed eviction for lease expiry. -/
  | evicted {i : Input} {e : Envelope} {state : ExecutionState} (hop : op = .handle i e)
      (hvalid : validateEnvelope cfg.sum256 e = none)
      (hstate : e.payload = some (.executionState state)) (hsender : r.allocatorID = e.sender)
      (hid : state.executionID = x) (hlost : lostLeaseState state = true)
  /-- An error in answer to the pending renewal or the last inspection. -/
  | refused {i : Input} {e : Envelope} {failure : CommandError} (hop : op = .handle i e)
      (hvalid : validateEnvelope cfg.sum256 e = none)
      (herror : e.payload = some (.commandError failure)) (hsender : r.allocatorID = e.sender)
      (hid : e.correlationID = r.leaseRenewMessageID ∨ e.correlationID = r.inspectMessageID)
      (hcode : failure.code = "NOT_FOUND" ∨ failure.code = "EXPIRED")
  /-- An eviction that was observed before. -/
  | known {i : Input} {d : Int} (hop : op = .maintain i x d)
      (hlost : r.state.any lostLeaseState = true)

/-- The operation is one of the run's own lease operations. -/
def Op.leases : Op → Bool
  | .maintain _ _ _ | .recordIntent _ _ _ | .rebind _ _ => true
  | _ => false

/-- A lease intent on an execution observed to have lost its lease. -/
def ExecutionRecord.forfeit (r : ExecutionRecord) : Bool :=
  decide (0 < r.leaseDuration) && r.state.any lostLeaseState

theorem lostLeaseState_terminal {state : ExecutionState} (h : lostLeaseState state = true) :
    state.phase.terminal = true := by
  rw [lostLeaseState, Bool.and_eq_true, decide_eq_true_eq] at h
  rw [h.1]
  rfl

/-- A lost lease ends its execution. -/
theorem ExecutionRecord.ended_of_forfeit {r : ExecutionRecord} (h : r.forfeit = true) :
    r.ended = true := by
  rw [forfeit, Bool.and_eq_true, Option.any_eq_true] at h
  obtain ⟨-, state, hstate, hlost⟩ := h
  rw [ended, hstate]
  exact lostLeaseState_terminal hlost

/-- The record of the execution `x` before and after an operation. -/
structure Reworked (cfg : Config) (op : Op) (x : GoString) (r r' : ExecutionRecord) : Prop where
  id : r'.id = r.id
  requestID : r'.requestID = r.requestID
  offerID : r'.offerID = r.offerID
  allocatorID : r'.allocatorID = r.allocatorID
  destination : r'.destination = r.destination
  assignmentMessageID : r'.assignmentMessageID = r.assignmentMessageID
  assignmentSentAt : r'.assignmentSentAt = r.assignmentSentAt
  cancel : r.cancelMessageID ≠ [] → r'.cancelMessageID = r.cancelMessageID
  uncancelled : r.cancelMessageID = [] →
    r'.cancelMessageID = [] ∨ ∃ i reason, op = .cancel i x reason
  inspect : r'.inspectMessageID = r.inspectMessageID ∨
    ∃ i, op = .inspect i x ∧ r'.inspectMessageID = i.id 0
  state : r'.state = r.state ∨ ∃ i e state, op = .handle i e ∧
    validateEnvelope cfg.sum256 e = none ∧ e.payload = some (.executionState state) ∧
    r.allocatorID = e.sender ∧ state.executionID = x ∧ r'.state = some state
  renew : r'.leaseRenewMessageID = r.leaseRenewMessageID ∨ r'.leaseRenewMessageID = [] ∨
    ∃ i d, op = .maintain i x d ∧ r'.leaseRenewMessageID = i.id 0
  lost : r'.leaseLost = true → r.leaseLost = true ∨ Loses cfg op x r
  duration : r'.leaseDuration = r.leaseDuration ∨ op.leases = true
  marked : r'.forfeit = true → r'.leaseLost = false →
    r.forfeit = true ∧ r.leaseLost = false ∨ ∃ old new, op = .rebind old new

variable {x : GoString}

theorem Reworked.refl (r : ExecutionRecord) : Reworked cfg op x r r :=
  ⟨rfl, rfl, rfl, rfl, rfl, rfl, rfl, fun _ => rfl, .inl, .inl rfl, .inl rfl, .inl rfl, .inl,
    .inl rfl, fun h h' => .inl ⟨h, h'⟩⟩

-- ===== requests

/-- A release, before and after: it can only be acknowledged. -/
structure SameRelease (rel rel' : ReleaseIntent) : Prop where
  messageID : rel'.messageID = rel.messageID
  sentAt : rel'.sentAt = rel.sentAt
  destination : rel'.destination = rel.destination

theorem SameRelease.refl (rel : ReleaseIntent) : SameRelease rel rel := ⟨rfl, rfl, rfl⟩

/-- A received offer, before and after. -/
structure SameOffer (o o' : OfferRecord) : Prop where
  offer : o'.offer = o.offer
  allocatorID : o'.allocatorID = o.allocatorID
  release : ∀ rel, o.release = some rel → ∃ rel', o'.release = some rel' ∧ SameRelease rel rel'

theorem SameOffer.refl (o : OfferRecord) : SameOffer o o :=
  ⟨rfl, rfl, fun rel h => ⟨rel, h, .refl rel⟩⟩

theorem SameOffer.trans {o o' o'' : OfferRecord} (h : SameOffer o o') (h' : SameOffer o' o'') :
    SameOffer o o'' := by
  refine ⟨h'.offer.trans h.offer, h'.allocatorID.trans h.allocatorID, ?_⟩
  intro rel hrel
  obtain ⟨rel', hrel', heq⟩ := h.release rel hrel
  obtain ⟨rel'', hrel'', heq'⟩ := h'.release rel' hrel'
  exact ⟨rel'', hrel'', heq'.messageID.trans heq.messageID, heq'.sentAt.trans heq.sentAt,
    heq'.destination.trans heq.destination⟩

/-- No offer of the map is dropped. -/
abbrev KeepsOffers : FMap GoString OfferRecord → FMap GoString OfferRecord → Prop :=
  AList.Carries fun _ => SameOffer

theorem keepsOffers_refl (m : FMap GoString OfferRecord) : KeepsOffers m m :=
  .refl (fun _ => SameOffer.refl) m

/-- The record of the request `k` before an operation and in the state `t` after. -/
structure SameRequest (t : State) (k : GoString) (r r' : RequestRecord) : Prop where
  request : r'.request = r.request
  messageID : r'.messageID = r.messageID
  createdAt : r'.createdAt = r.createdAt
  executionID : r'.executionID = r.executionID ∨
    r.executionID = [] ∧ ∃ x, t.executions.lookup r'.executionID = some x ∧ x.requestID = k
  offers : KeepsOffers r.offers r'.offers
  newOffer : ∀ {o offer}, r'.offers.lookup o = some offer →
    (r.offers.lookup o).isSome = true ∨ offer.offer.offerID = o

variable {α : Type*}

theorem isSome_of_some {κ : Type*} [DecidableEq κ] {m : FMap κ α} {k : κ} {v : α}
    (h : m.lookup k = some v) : (m.lookup k).isSome = true := by
  rw [h]
  rfl

variable {k : GoString} {t : State}

theorem SameRequest.refl (r : RequestRecord) : SameRequest t k r r :=
  ⟨rfl, rfl, rfl, .inl rfl, keepsOffers_refl _, fun h => .inl (isSome_of_some h)⟩

-- ===== together

/-- The execution `x` is selected for a request that had none. -/
structure Selects (op : Op) (s t : State) (x : GoString) (r : ExecutionRecord) : Prop where
  select : ∃ i, op = .select i r.requestID ∧ x = i.id 0 ∧ r.assignmentMessageID = i.id 1
  id : r.id = x
  named : x ≠ []
  request : ∃ q q', s.requests.lookup r.requestID = some q ∧ q.executionID = [] ∧
    t.requests.lookup r.requestID = some q' ∧ q'.executionID = x ∧
    ∃ o offer, q.offers.lookup o = some offer ∧ r.offerID = offer.offer.offerID ∧
      r.allocatorID = offer.allocatorID
  fresh : r.inspectMessageID = [] ∧ r.cancelMessageID = [] ∧ r.leaseRenewMessageID = [] ∧
    r.leaseLost = false ∧ r.leaseDuration = 0 ∧ r.state = none

/-- The ID an operation gives a new request. -/
def Op.requestID : Op → Option GoString
  | .createRequest i _ _ _ _ | .nextAttempt i _ => some (i.id 0)
  | _ => none

/-- What an operation leaves in place, and what it can add. -/
structure Kept (cfg : Config) (op : Op) (s t : State) : Prop where
  executions : s.executions.Carries (Reworked cfg op) t.executions
  newExecution : ∀ {x r}, t.executions.lookup x = some r →
    (s.executions.lookup x).isSome = true ∨ Selects op s t x r
  requests : s.requests.Carries (SameRequest t) t.requests
  newRequest : ∀ {k r}, t.requests.lookup k = some r →
    (s.requests.lookup k).isSome = true ∨
      op.requestID = some k ∧ r.request.requestID = k ∧ k ≠ [] ∧ r.offers = ∅ ∧
        r.executionID = []
  allocators : ∀ a, (s.allocators.lookup a).isSome = true → (t.allocators.lookup a).isSome = true
  logs : (∀ i q, op ≠ .logs i q) → t.logMessageID = s.logMessageID ∧ t.logRequest = s.logRequest

/-- An execution after the step was there before or is selected by it. -/
theorem Kept.execution {r' : ExecutionRecord} (h : Kept cfg op s t)
    (hr' : t.executions.lookup x = some r') :
    (∃ r, s.executions.lookup x = some r ∧ Reworked cfg op x r r') ∨ Selects op s t x r' :=
  (h.newExecution hr').imp_left fun hold => h.executions.back hold hr'

/-- A request after the step was there before or is made by it. -/
theorem Kept.request {r' : RequestRecord} (h : Kept cfg op s t)
    (hr' : t.requests.lookup k = some r') :
    (∃ r, s.requests.lookup k = some r ∧ SameRequest t k r r') ∨
      op.requestID = some k ∧ r'.request.requestID = k ∧ k ≠ [] ∧ r'.offers = ∅ ∧
        r'.executionID = [] :=
  (h.newRequest hr').imp_left fun hold => h.requests.back hold hr'

/-- A step that touches neither requests nor executions. -/
theorem Kept.other (hexecutions : t.executions = s.executions) (hrequests : t.requests = s.requests)
    (hallocators : ∀ a, (s.allocators.lookup a).isSome = true →
      (t.allocators.lookup a).isSome = true)
    (hlogs : (∀ i q, op ≠ .logs i q) →
      t.logMessageID = s.logMessageID ∧ t.logRequest = s.logRequest) :
    Kept cfg op s t := by
  constructor
  · rw [hexecutions]
    exact .refl (fun _ => Reworked.refl) _
  · intro x r hr
    rw [hexecutions] at hr
    exact .inl (isSome_of_some hr)
  · rw [hrequests]
    exact .refl (fun _ => SameRequest.refl) _
  · intro k r hr
    rw [hrequests] at hr
    exact .inl (isSome_of_some hr)
  · exact hallocators
  · exact hlogs

theorem Kept.refl : Kept cfg op s s := .other rfl rfl (fun _ => id) fun _ => ⟨rfl, rfl⟩

/-- A key of a map after a value of it was replaced. -/
theorem isSome_of_insert {κ : Type*} [DecidableEq κ] {m : FMap κ α} {k k' : κ} {v v' w : α}
    (hk : m.lookup k = some v) (h : (m.insert k v').lookup k' = some w) :
    (m.lookup k').isSome = true := by
  rcases AList.of_lookup_insert h with ⟨rfl, -⟩ | ⟨-, h⟩
  · exact isSome_of_some hk
  · exact isSome_of_some h

/-- A change of one execution record. -/
theorem Kept.set {r r' : ExecutionRecord} (hr : s.executions.lookup x = some r)
    (hwork : Reworked cfg op x r r') : Kept cfg op s (s.setExecution x r') where
  executions := .set (fun _ => Reworked.refl) hr hwork
  newExecution h := .inl (isSome_of_insert hr h)
  requests := .refl (fun _ => SameRequest.refl) _
  newRequest h := .inl (isSome_of_some h)
  allocators _ := id
  logs _ := ⟨rfl, rfl⟩

/-- A change of one request record. -/
theorem Kept.setRequest {r r' : RequestRecord} (hr : s.requests.lookup k = some r)
    (hsame : SameRequest { s with requests := s.requests.insert k r' } k r r') :
    Kept cfg op s { s with requests := s.requests.insert k r' } where
  executions := .refl (fun _ => Reworked.refl) _
  newExecution h := .inl (isSome_of_some h)
  requests := .set (fun _ => SameRequest.refl) hr hsame
  newRequest h := .inl (isSome_of_insert hr h)
  allocators _ := id
  logs _ := ⟨rfl, rfl⟩

/-- A catalog entry put in. -/
theorem isSome_insert {m : FMap Bytes KnownAllocator} {a b : Bytes} {v : KnownAllocator}
    (h : (m.lookup b).isSome = true) : ((m.insert a v).lookup b).isSome = true := by
  rw [AList.lookup_insert_if]
  split
  · rfl
  · exact h

-- ===== the operations

theorem kept_register (a : KnownAllocator) : Kept cfg op s (register a s).1 := by
  unfold register
  split
  · exact .refl
  · exact .other rfl rfl (fun _ => isSome_insert) fun _ => ⟨rfl, rfl⟩

/-- `createRequest` fails and changes nothing, or puts in a new request. -/
theorem createRequest_cases (cfg : Config) (i : Input) (workload : Option Workload)
    (policy : Option ExecutionPolicy) (resourceClass : GoString)
    (constraints : Option PlacementConstraints) (runID : GoString) (attempt : Nat) (s : State) :
    (∃ err, createRequest cfg i workload policy resourceClass constraints runID attempt s
      = (s, .error err)) ∨
    ∃ r : RequestRecord, s.requests.lookup (i.id 0) = none ∧ i.id 0 ≠ [] ∧ r.offers = ∅ ∧
      r.executionID = [] ∧ r.request.requestID = i.id 0 ∧ r.request.attempt = attempt ∧
      r.request.resourceClass = resourceClass ∧ r.request.constraints = constraints ∧
      createRequest cfg i workload policy resourceClass constraints runID attempt s
        = ({ s with requests := s.requests.insert (i.id 0) r },
          .ok (i.id 0, requestEnvelope cfg r)) := by
  unfold createRequest
  dsimp only
  split
  · exact .inl ⟨_, rfl⟩
  rename_i hfresh
  simp only [not_or] at hfresh
  split
  · exact .inl ⟨_, rfl⟩
  · exact .inr ⟨_, by simpa using hfresh.2.1, hfresh.1, rfl, rfl, rfl, rfl, rfl, rfl, rfl⟩

/-- A new request is refused and nothing changes, or it is put in. -/
theorem created_cases (s : State) (hop : op.requestID = some k) :
    (op.apply cfg s).1 = s ∨ ∃ r : RequestRecord, s.requests.lookup k = none ∧ k ≠ [] ∧
      r.offers = ∅ ∧ r.executionID = [] ∧ r.request.requestID = k ∧
      (op.apply cfg s).1 = { s with requests := s.requests.insert k r } := by
  cases op with
  | createRequest i workload policy resourceClass constraints =>
    cases hop
    rcases createRequest_cases cfg i workload policy resourceClass constraints [] 1 s with
      ⟨_, heq⟩ | ⟨r, hnew, hid, hoffers, hopen, hrequest, -, -, -, heq⟩
    · exact .inl (congrArg Prod.fst heq)
    · exact .inr ⟨r, hnew, hid, hoffers, hopen, hrequest, congrArg Prod.fst heq⟩
  | nextAttempt i previous =>
    cases hop
    show (createNextAttempt cfg i previous s).1 = s ∨ _
    dsimp only [Op.apply]
    unfold createNextAttempt
    split
    · exact .inl rfl
    rcases createRequest_cases cfg i previous.workload previous.policy previous.resourceClass
      previous.constraints previous.runID (previous.attempt + 1) s with
      ⟨_, heq⟩ | ⟨r, hnew, hid, hoffers, hopen, hrequest, -, -, -, heq⟩
    · exact .inl (congrArg Prod.fst heq)
    · exact .inr ⟨r, hnew, hid, hoffers, hopen, hrequest, congrArg Prod.fst heq⟩
  | _ => cases hop

theorem kept_created (s : State) (hop : op.requestID = some k) :
    Kept cfg op s (op.apply cfg s).1 := by
  rcases created_cases s hop with heq | ⟨r₀, hnew, hid, hoffers, hopen, hrequest, heq⟩
  · rw [heq]
    exact .refl
  rw [heq]
  refine ⟨.refl (fun _ => Reworked.refl) _, fun h => .inl (isSome_of_some h),
    .add (fun _ => SameRequest.refl) hnew _, ?_, fun _ => id, fun _ => ⟨rfl, rfl⟩⟩
  intro k' r hr
  rcases AList.of_lookup_insert hr with ⟨heq, rfl⟩ | ⟨-, hr⟩
  · rw [heq]
    exact .inr ⟨hop, hrequest, hid, hoffers, hopen⟩
  · exact .inl (isSome_of_some hr)

variable {i : Input}

/-- The losing offers get their releases; those that have one keep it. -/
theorem keepsOffers_prepareReleases {selected : GoString} (keys : List GoString) :
    ∀ {n : Nat} {offers offers' : FMap GoString OfferRecord},
      prepareReleases i selected s keys n offers = .ok offers' →
        KeepsOffers offers offers' ∧ ∀ {o offer}, offers'.lookup o = some offer →
          (offers.lookup o).isSome = true := by
  induction keys with
  | nil =>
    intro n offers offers' h
    cases h
    exact ⟨keepsOffers_refl _, isSome_of_some⟩
  | cons key rest ih =>
    intro n offers offers' h
    unfold prepareReleases at h
    split at h
    · exact ih h
    rename_i offer hoffer
    split at h
    · exact ih h
    rename_i hopen
    split at h
    · cases h
    obtain ⟨hkeeps, hkeys⟩ := ih h
    refine ⟨.trans (fun _ _ _ _ => SameOffer.trans) ?_ hkeeps, ?_⟩
    · refine .set (fun _ => SameOffer.refl) hoffer ⟨rfl, rfl, ?_⟩
      intro rel hrel
      rw [hrel] at hopen
      exact absurd (.inr rfl) hopen
    · intro o o' ho'
      obtain ⟨w, hw⟩ := isSome_iff_exists.mp (hkeys ho')
      exact isSome_of_insert hoffer hw

theorem first_mem {before : α → α → Bool} {l : List α} {a : α} (h : first before l = some a) :
    a ∈ l := by
  induction l generalizing a with
  | nil => cases h
  | cons b rest ih =>
    unfold first at h
    split at h
    · cases h
      exact List.mem_cons_self
    rename_i c hc
    cases h
    split
    · exact List.mem_cons_of_mem _ (ih hc)
    · exact List.mem_cons_self

/-- A chosen offer is one of the request's. -/
theorem choose_mem {offers : FMap GoString OfferRecord} {now : Int}
    {constraints : Option PlacementConstraints} {image : GoString} {selected : OfferRecord}
    {allocator : KnownAllocator}
    (h : choose offers now constraints image s = some (selected, allocator)) :
    ∃ o, offers.lookup o = some selected := by
  obtain ⟨first, hfirst, hrest⟩ := Option.bind_eq_some_iff.mp h
  obtain ⟨_, -, heq⟩ := Option.map_eq_some_iff.mp hrest
  cases heq
  obtain ⟨hmem, -⟩ := List.mem_filter.mp (first_mem hfirst)
  obtain ⟨entry, hentry, rfl⟩ := List.mem_map.mp hmem
  exact ⟨entry.1, AList.mem_entries.mp hentry⟩

/-- The record that `Select` makes for an offer. -/
def newExecution (i : Input) (k : GoString) (o : OfferRecord) (destination : GoString) :
    ExecutionRecord :=
  { id := i.id 0, requestID := k, offerID := o.offer.offerID, allocatorID := o.allocatorID,
    destination := destination, assignmentMessageID := i.id 1, assignmentSentAt := i.time 0 }

/-- What `Select` can do: fail and change nothing, repeat the assignment
that was made, or make one. -/
inductive SelectCases (cfg : Config) (i : Input) (k : GoString) (s : State) : Prop
  | fails (err : Err) (h : select cfg i k s = (s, .error err))
  | repeats (r : RequestRecord) (x : ExecutionRecord) (hr : s.requests.lookup k = some r)
      (hassigned : r.executionID ≠ []) (hx : s.executions.lookup r.executionID = some x)
      (h : select cfg i k s = (s, .ok (x.destination, assignmentEnvelope cfg x)))
  | makes (r : RequestRecord) (selected : OfferRecord) (d : GoString)
      (offers : FMap GoString OfferRecord) (hr : s.requests.lookup k = some r)
      (hopen : r.executionID = []) (hid : i.id 0 ≠ [])
      (hnew : s.executions.lookup (i.id 0) = none)
      (hselected : ∃ o, r.offers.lookup o = some selected)
      (hoffers : prepareReleases i selected.offer.offerID s (visit i.order r.offers) 2 r.offers =
        .ok offers)
      (h : select cfg i k s =
        ({ s with
            requests := s.requests.insert k { r with offers := offers, executionID := i.id 0 },
            executions := s.executions.insert (i.id 0) (newExecution i k selected d) },
          .ok (d, assignmentEnvelope cfg (newExecution i k selected d))))

theorem select_cases (i : Input) (k : GoString) (s : State) : SelectCases cfg i k s := by
  generalize hresult : select cfg i k s = result
  have hselect := hresult
  unfold select at hresult
  split at hresult
  · subst hresult
    exact .fails _ hselect
  rename_i r hr
  split at hresult
  next hassigned =>
    split at hresult
    · subst hresult
      exact .fails _ hselect
    next x hx =>
      subst hresult
      exact .repeats r x hr hassigned hx hselect
  rename_i hopen
  dsimp only at hresult
  split at hresult
  · subst hresult
    exact .fails _ hselect
  rename_i selected allocator hchosen
  split at hresult
  · subst hresult
    exact .fails _ hselect
  rename_i hfresh
  simp only [not_or] at hfresh
  obtain ⟨hid, hnew, -⟩ := hfresh
  split at hresult
  · subst hresult
    exact .fails _ hselect
  rename_i offers hoffers
  subst hresult
  exact .makes r selected allocator.destination offers hr (not_not.mp hopen) hid
    (by simpa using hnew) (choose_mem hchosen) hoffers hselect

theorem kept_select (i : Input) (requestID : GoString) :
    Kept cfg (.select i requestID) s (select cfg i requestID s).1 := by
  cases select_cases i requestID s with
  | fails _ hselect | repeats _ _ _ _ _ hselect =>
    rw [hselect]
    exact .refl
  | makes record selected _ _ hrecord hunassigned hid hnew hselected hoffers hselect =>
    rw [hselect]
    obtain ⟨hkeeps, hkeys⟩ := keepsOffers_prepareReleases _ hoffers
    refine ⟨.add (fun _ => Reworked.refl) hnew _, ?_,
      .set (fun _ => SameRequest.refl) hrecord ⟨rfl, rfl, rfl,
        .inr ⟨hunassigned, _, AList.lookup_insert _, rfl⟩, hkeeps,
        fun h => .inl (hkeys h)⟩,
      fun h => .inl (isSome_of_insert hrecord h), fun _ => id, fun _ => ⟨rfl, rfl⟩⟩
    intro x r hr
    rcases AList.of_lookup_insert hr with ⟨heq, rfl⟩ | ⟨-, hr⟩
    · obtain ⟨o, ho⟩ := hselected
      rw [heq]
      exact .inr ⟨⟨i, rfl, rfl, rfl⟩, rfl, hid,
        ⟨record, _, hrecord, hunassigned, AList.lookup_insert _, rfl, o, selected, ho,
          rfl, rfl⟩, rfl, rfl, rfl, rfl, rfl, rfl⟩
    · exact .inl (isSome_of_some hr)

theorem kept_inspect (i : Input) (x : GoString) :
    Kept cfg (.inspect i x) s (inspect cfg i x s).1 := by
  unfold inspect
  split
  · exact .refl
  rename_i record hrecord
  split
  · exact .refl
  · refine .set hrecord ?_
    exact { Reworked.refl record with inspect := .inr ⟨i, rfl, rfl⟩ }

theorem kept_cancel (i : Input) (x reason : GoString) :
    Kept cfg (.cancel i x reason) s (cancel cfg i x reason s).1 := by
  unfold cancel
  split
  · exact .refl
  rename_i record hrecord
  split
  next hnone =>
    refine .set hrecord ?_
    exact { Reworked.refl record with
      cancel := fun h => absurd hnone h
      uncancelled := fun _ => .inr ⟨i, reason, rfl⟩ }
  · split <;> exact .refl

theorem kept_logs (i : Input) (q : ExecutionLogsRequest) :
    Kept cfg (.logs i q) s (logs cfg i q s).1 := by
  unfold logs
  split
  · exact .refl
  dsimp only
  split
  · exact .refl
  · refine .other rfl rfl (fun _ => id) ?_
    intro hne
    exact absurd rfl (hne i q)

theorem kept_maintain (i : Input) (x : GoString) (d : Int) :
    Kept cfg (.maintain i x d) s (maintain cfg i x d s).1 := by
  unfold maintain
  split
  · exact .refl
  rename_i record hrecord
  split
  · exact .refl
  split
  · split
    next hlost =>
      refine .set hrecord ?_
      exact { Reworked.refl record with
        lost := fun _ => .inr (.known rfl hlost), marked := fun _ h => (nomatch h) }
    · exact .refl
  rename_i hlive
  dsimp only
  split
  · refine .set hrecord ?_
    exact { Reworked.refl record with
      duration := .inr rfl
      marked := fun h => absurd (ExecutionRecord.ended_of_forfeit h) hlive }
  refine .set hrecord ?_
  exact { Reworked.refl record with
    renew := .inr (.inr ⟨i, d, rfl, rfl⟩)
    duration := .inr rfl
    marked := fun h => absurd (ExecutionRecord.ended_of_forfeit h) hlive }

theorem kept_recordLeaseIntent (x : GoString) (d : Int) (allocators : List GoString) :
    Kept cfg (.recordIntent x d allocators) s (recordLeaseIntent x d allocators s).1 := by
  unfold recordLeaseIntent
  split
  · exact .refl
  rename_i record hrecord
  split
  · exact .refl
  rename_i hlive
  rw [Bool.or_eq_true, not_or] at hlive
  refine .set hrecord ?_
  exact { Reworked.refl record with
    duration := .inr rfl
    marked := fun h => absurd (ExecutionRecord.ended_of_forfeit h) hlive.2 }

theorem kept_rebindLeaseIntent (x x' : GoString) :
    Kept cfg (.rebind x x') s (rebindLeaseIntent x x' s).1 := by
  unfold rebindLeaseIntent
  split
  next previous replacement hprevious hreplacement =>
    split
    · exact .refl
    split
    · exact .refl
    refine ⟨?_, ?_, .refl (fun _ => SameRequest.refl) _, fun h => .inl (isSome_of_some h),
      fun _ => id, fun _ => ⟨rfl, rfl⟩⟩
    swap
    · intro k r hr
      change ((s.executions.insert x' _).insert x _).lookup k = some r at hr
      rcases AList.of_lookup_insert hr with ⟨heq, -⟩ | ⟨-, hr⟩
      · rw [heq]
        exact .inl (isSome_of_some hprevious)
      · exact .inl (isSome_of_insert hreplacement hr)
    intro k r hr
    change ∃ r', ((s.executions.insert x' _).insert x _).lookup k = some r' ∧ _
    rw [AList.lookup_insert_if, AList.lookup_insert_if]
    split
    next heq =>
      subst heq
      obtain rfl : previous = r := some.inj (hprevious.symm.trans hr)
      exact ⟨_, rfl,
        { Reworked.refl previous with
          lost := fun h => (nomatch h), duration := .inr rfl
          marked := fun _ _ => .inr ⟨_, _, rfl⟩ }⟩
    split
    next heq =>
      subst heq
      obtain rfl : replacement = r := some.inj (hreplacement.symm.trans hr)
      exact ⟨_, rfl, { Reworked.refl replacement with
        lost := fun h => (nomatch h), duration := .inr rfl
        marked := fun _ _ => .inr ⟨_, _, rfl⟩ }⟩
    · exact ⟨r, hr, .refl r⟩
  · exact .refl

-- ===== the messages

theorem kept_refreshNode (sender : Bytes) (offer : ExecutionOffer) :
    Kept cfg op s (refreshNode sender offer s) := by
  unfold refreshNode
  split
  · split
    · exact .other rfl rfl (fun _ => isSome_insert) fun _ => ⟨rfl, rfl⟩
    · exact .refl
  · exact .refl

theorem refreshNode_requests (sender : Bytes) (offer : ExecutionOffer) :
    (refreshNode sender offer s).requests = s.requests := by
  unfold refreshNode
  split
  · split <;> rfl
  · rfl

theorem refreshNode_executions (sender : Bytes) (offer : ExecutionOffer) :
    (refreshNode sender offer s).executions = s.executions := by
  unfold refreshNode
  split
  · split <;> rfl
  · rfl

/-- An offer put beside those the request has. -/
theorem kept_offered {sender : Bytes} {offer : ExecutionOffer} {record : RequestRecord}
    {o : OfferRecord} (ho : o.offer = offer) (hrecord : s.requests.lookup k = some record)
    (hnew : record.offers.lookup offer.offerID = none) :
    Kept cfg op s
      { refreshNode sender offer s with
        requests := (refreshNode sender offer s).requests.insert k
          { record with offers := record.offers.insert offer.offerID o } } := by
  have hrefresh : Kept cfg op s (refreshNode sender offer s) := kept_refreshNode sender offer
  have hsame (t : State) : SameRequest t k record
      { record with offers := record.offers.insert offer.offerID o } := by
    refine ⟨rfl, rfl, rfl, .inl rfl, .add (fun _ => SameOffer.refl) hnew o, ?_⟩
    intro o₁ offer₁ h
    rcases AList.of_lookup_insert h with ⟨heq, rfl⟩ | ⟨-, h⟩
    · exact .inr (by rw [ho, heq])
    · exact .inl (isSome_of_some h)
  refine ⟨hrefresh.executions, ?_, ?_, ?_, hrefresh.allocators, hrefresh.logs⟩
  · intro x r hr
    rw [refreshNode_executions] at hr
    exact .inl (isSome_of_some hr)
  · show s.requests.Carries _ ((refreshNode sender offer s).requests.insert k _)
    rw [refreshNode_requests]
    exact .set (fun _ => SameRequest.refl) hrecord (hsame _)
  · intro k₁ r₁ hr₁
    rw [refreshNode_requests] at hr₁
    exact .inl (isSome_of_insert hrecord hr₁)

theorem kept_handleOffer (i : Input) (e : Envelope) (offer : ExecutionOffer) :
    Kept cfg op s (handleOffer i e offer s).1 := by
  have hrefresh : Kept cfg op s (refreshNode e.sender offer s) := kept_refreshNode e.sender offer
  unfold handleOffer
  split
  · exact .refl
  rename_i record hrecord
  split
  · exact .refl
  split
  · exact .refl
  dsimp only
  split
  · split <;> exact hrefresh
  rename_i hnew
  split
  · exact kept_offered rfl hrecord hnew
  split
  · exact hrefresh
  split
  · exact hrefresh
  · split
    · exact hrefresh
    · exact kept_offered rfl hrecord hnew

theorem kept_handleReleaseAck (e : Envelope) (ack : ExecutionOfferReleaseAck) :
    Kept cfg op s (handleReleaseAck e ack s).1 := by
  unfold handleReleaseAck
  split
  · exact .refl
  rename_i request hrequest
  split
  · exact .refl
  rename_i offer hoffer
  split
  · exact .refl
  rename_i release hrelease
  split
  · exact .refl
  split
  · exact .refl
  split
  · exact .refl
  refine .setRequest hrequest ⟨rfl, rfl, rfl, .inl rfl, ?_,
    fun h => .inl (isSome_of_insert hoffer h)⟩
  refine .set (fun _ => SameOffer.refl) hoffer ⟨rfl, rfl, ?_⟩
  intro rel hrel
  obtain rfl : release = rel := some.inj (hrelease.symm.trans hrel)
  exact ⟨_, rfl, rfl, rfl, rfl⟩

theorem kept_handleState {e : Envelope} {state : ExecutionState}
    (hvalid : validateEnvelope cfg.sum256 e = none)
    (hstate : e.payload = some (.executionState state)) :
    Kept cfg (.handle i e) s (handleState e state s).1 := by
  unfold handleState
  split
  · exact .refl
  rename_i record hrecord
  split
  · exact .refl
  rename_i hsender
  have hsender : record.allocatorID = e.sender := not_not.mp hsender
  split
  · exact .refl
  · exact .refl
  have htaken : ∃ i' e' state', Op.handle i e = .handle i' e' ∧
      validateEnvelope cfg.sum256 e' = none ∧ e'.payload = some (.executionState state') ∧
      record.allocatorID = e'.sender ∧ state'.executionID = state.executionID ∧
      some state = some state' := ⟨i, e, state, rfl, hvalid, hstate, hsender, rfl, rfl⟩
  refine .set hrecord ?_
  split
  next hlost =>
    rw [Bool.and_eq_true] at hlost
    have hrefl : Reworked cfg (.handle i e) state.executionID record record := .refl record
    exact { hrefl with
      state := .inr htaken
      renew := .inr (.inl rfl)
      lost := fun _ => .inr (.evicted rfl hvalid hstate hsender rfl hlost.2)
      marked := fun _ h => (nomatch h) }
  rename_i hlost
  refine { Reworked.refl record with state := .inr htaken, marked := fun h _ => ?_ }
  rw [ExecutionRecord.forfeit, Bool.and_eq_true] at h
  rw [lostLeaseState_terminal h.2, Bool.true_and] at hlost
  exact absurd h.2 hlost

theorem kept_handleRenewAck (i : Input) (e : Envelope) (ack : ExecutionLeaseRenewAck) :
    Kept cfg op s (handleRenewAck i e ack s).1 := by
  unfold handleRenewAck
  split
  · exact .refl
  rename_i record hrecord
  split
  · exact .refl
  split
  · exact .refl
  · refine .set hrecord ?_
    exact { Reworked.refl record with renew := .inr (.inl rfl) }

theorem reworked_failed {e : Envelope} {failure : CommandError}
    (hvalid : validateEnvelope cfg.sum256 e = none)
    (herror : e.payload = some (.commandError failure)) (r : ExecutionRecord) :
    Reworked cfg (.handle i e) x r (r.failed e failure.code) := by
  unfold ExecutionRecord.failed
  split
  next hanswered =>
    unfold markRenewalFailure
    split
    next hcode =>
      simp only [ExecutionRecord.answeredBy, Bool.and_eq_true, Bool.or_eq_true,
        decide_eq_true_eq] at hanswered
      exact { Reworked.refl r with
        renew := .inr (.inl rfl)
        lost := fun _ => .inr (.refused rfl hvalid herror hanswered.1.1 hanswered.2 hcode)
        marked := fun _ h => (nomatch h) }
    · exact .refl r
  · exact .refl r

theorem kept_handle (i : Input) (e : Envelope) : Kept cfg (.handle i e) s (handle cfg i e s).1 := by
  unfold handle
  split
  · exact .refl
  rename_i hvalid
  split
  · exact .refl
  next failure herror =>
    refine ⟨.mapVal fun x r _ => reworked_failed hvalid herror r, ?_,
      .refl (fun _ => SameRequest.refl) _, fun h => .inl (isSome_of_some h), fun _ => id,
      fun _ => ⟨rfl, rfl⟩⟩
    intro x r hr
    change (s.executions.mapVal _).lookup x = some r at hr
    rw [AList.lookup_mapVal] at hr
    obtain ⟨r₀, hr₀, -⟩ := Option.map_eq_some_iff.mp hr
    exact .inl (isSome_of_some hr₀)
  next offer _ => exact kept_handleOffer i e offer
  next state hstate => exact kept_handleState hvalid hstate
  next ack _ => exact kept_handleReleaseAck e ack
  next ack _ => exact kept_handleRenewAck i e ack
  · exact .refl
  · exact .refl

/-- Every operation. -/
theorem kept_apply (s : State) (op : Op) : Kept cfg op s (op.apply cfg s).1 := by
  cases op with
  | register a => exact kept_register a
  | createRequest | nextAttempt => exact kept_created s rfl
  | select i requestID => exact kept_select i requestID
  | releases | tunnelOpen => exact .refl
  | inspect i x => exact kept_inspect i x
  | cancel i x reason => exact kept_cancel i x reason
  | logs i q => exact kept_logs i q
  | maintain i x d => exact kept_maintain i x d
  | recordIntent x d allocators => exact kept_recordLeaseIntent x d allocators
  | rebind x x' => exact kept_rebindLeaseIntent x x'
  | handle i e => exact kept_handle i e

/-- The operations that can touch a request or its offers. -/
def Op.requests : Op → Bool
  | .createRequest _ _ _ _ _ | .nextAttempt _ _ | .select _ _ | .handle _ _ => true
  | _ => false

/-- The others leave the requests alone, and all but a registration the
catalog. -/
theorem frame_apply (s : State) (h : op.requests = false) :
    (op.apply cfg s).1.requests = s.requests ∧
      ((∀ a, op ≠ .register a) → (op.apply cfg s).1.allocators = s.allocators) := by
  cases op with
  | register a =>
    refine ⟨?_, fun hne => absurd rfl (hne a)⟩
    dsimp only [Op.apply, register]
    split <;> rfl
  | releases | tunnelOpen => exact ⟨rfl, fun _ => rfl⟩
  | inspect | cancel | logs | maintain | recordIntent | rebind =>
    dsimp only [Op.apply, inspect, cancel, logs, maintain, recordLeaseIntent, rebindLeaseIntent]
    repeat' split
    all_goals exact ⟨rfl, fun _ => rfl⟩
  | createRequest | nextAttempt | select | handle => cases h

-- ===== keys

/-- The records are filed under their own names, and a request and its
execution know each other. -/
structure Keyed (s : State) : Prop where
  execution : ∀ {x r}, s.executions.lookup x = some r → r.id = x ∧ x ≠ []
  request : ∀ {k r}, s.requests.lookup k = some r → r.request.requestID = k ∧ k ≠ []
  offer : ∀ {k r o offer}, s.requests.lookup k = some r → r.offers.lookup o = some offer →
    offer.offer.offerID = o
  assigned : ∀ {k r}, s.requests.lookup k = some r → r.executionID ≠ [] →
    ∃ x, s.executions.lookup r.executionID = some x ∧ x.requestID = k
  owner : ∀ {x r}, s.executions.lookup x = some r →
    ∃ q, s.requests.lookup r.requestID = some q ∧ q.executionID = x

theorem Keyed.initial : Keyed .empty := by
  constructor <;> (intros; simp_all [State.empty])

theorem Keyed.kept (h : Keyed s) (hkept : Kept cfg op s t) : Keyed t := by
  constructor
  · intro x r hr
    rcases hkept.execution hr with ⟨r₀, hr₀, hwork⟩ | hnew
    · exact ⟨hwork.id.trans (h.execution hr₀).1, (h.execution hr₀).2⟩
    · exact ⟨hnew.id, hnew.named⟩
  · intro k r hr
    rcases hkept.request hr with ⟨r₀, hr₀, hsame⟩ | ⟨-, hid, hne, -, -⟩
    · rw [hsame.request]
      exact h.request hr₀
    · exact ⟨hid, hne⟩
  · intro k r o offer hr ho
    rcases hkept.request hr with ⟨r₀, hr₀, hsame⟩ | ⟨-, -, -, hempty, -⟩
    · rcases hsame.newOffer ho with hold | hnew
      · obtain ⟨o₀, ho₀, hsameOffer⟩ := hsame.offers.back hold ho
        rw [hsameOffer.offer]
        exact h.offer hr₀ ho₀
      · exact hnew
    · rw [hempty] at ho
      cases ho
  · intro k r hr hne
    rcases hkept.request hr with ⟨r₀, hr₀, hsame⟩ | ⟨-, -, -, -, hempty⟩
    · rcases hsame.executionID with heq | ⟨-, hnew⟩
      · rw [heq] at hne ⊢
        obtain ⟨x, hx, hrequest⟩ := h.assigned hr₀ hne
        obtain ⟨x', hx', hwork⟩ := hkept.executions _ x hx
        exact ⟨x', hx', hwork.requestID.trans hrequest⟩
      · exact hnew
    · exact absurd hempty hne
  · intro x r hr
    rcases hkept.execution hr with ⟨r₀, hr₀, hwork⟩ | hnew
    · obtain ⟨q, hq, hx⟩ := h.owner hr₀
      obtain ⟨q', hq', hsame⟩ := hkept.requests _ q hq
      rw [hwork.requestID]
      refine ⟨q', hq', ?_⟩
      rcases hsame.executionID with heq | ⟨hempty, -⟩
      · exact heq.trans hx
      · exact absurd (hx.symm.trans hempty) (h.execution hr₀).2
    · obtain ⟨-, q', -, -, hq', hx, -⟩ := hnew.request
      exact ⟨q', hq', hx⟩

end R1s.Client
