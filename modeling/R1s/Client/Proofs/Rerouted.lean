/-
Where the next attempt of a lost run is sent. `reRequestLost` takes the
destinations from the catalog: the allocators with a slot for the run's
class whose known node is compatible with the constraints.

# What the catalog knows

A slot is only ever learned from a presence announcement. The route of a
reply and the node an offer names are recorded without one, so an
allocator that was reached through a bootstrap destination and offered is
in the catalog with no capacity, and the next attempt passes it by. With
an announcement the slot is there: the controller registers a service
only if it has a slot for the run's class (`Classed`).

# The snapshot

What the catalog held when the destinations were taken is noted beside
the run (`rerouting`), since later messages may change it.
-/
import R1s.Client.Proofs.Results

namespace R1s.Client

-- ===== the catalog

section

variable {cfg : Config} {s t : State}

theorem allocators_created {op : Op} {k : GoString} (hop : op.requestID = some k) :
    (op.apply cfg s).1.allocators = s.allocators := by
  rcases created_cases s hop with heq | ⟨_, -, -, -, -, -, heq⟩
  all_goals rw [heq]

theorem allocators_select (i : Input) (k : GoString) :
    (select cfg i k s).1.allocators = s.allocators := by
  cases select_cases i k s with
  | fails _ h | repeats _ _ _ _ _ h | makes _ _ _ _ _ _ _ _ _ _ h => rw [h]

/-- The entries of `t` have the capacities they had in `s`. -/
def SameCapacities (s t : State) : Prop :=
  ∀ id entry, t.allocators.lookup id = some entry →
    ∃ old, s.allocators.lookup id = some old ∧ entry.capacity = old.capacity

theorem SameCapacities.of_eq (h : t.allocators = s.allocators) : SameCapacities s t := by
  intro id entry hentry
  rw [h] at hentry
  exact ⟨entry, hentry, rfl⟩

theorem capacity_refreshNode (sender : Bytes) (offer : ExecutionOffer) :
    SameCapacities s (refreshNode sender offer s) := by
  unfold refreshNode
  split
  next known hknown =>
    split
    · intro id entry hentry
      rcases AList.of_lookup_insert hentry with ⟨rfl, rfl⟩ | ⟨-, hentry⟩
      · exact ⟨known, hknown, rfl⟩
      · exact ⟨entry, hentry, rfl⟩
    · exact .of_eq rfl
  · exact .of_eq rfl

theorem capacity_handleOffer (i : Input) (e : Envelope) (offer : ExecutionOffer) :
    SameCapacities s (handleOffer i e offer s).1 := by
  have hrefresh : SameCapacities s (refreshNode e.sender offer s) := capacity_refreshNode _ _
  unfold handleOffer
  split
  · exact .of_eq rfl
  split
  · exact .of_eq rfl
  split
  · exact .of_eq rfl
  dsimp only
  split
  · split <;> exact hrefresh
  split
  · exact hrefresh
  split
  · exact hrefresh
  · split
    · exact hrefresh
    · split <;> exact hrefresh

theorem capacity_handle (i : Input) (e : Envelope) : SameCapacities s (handle cfg i e s).1 := by
  unfold handle
  split
  · exact .of_eq rfl
  split
  case h_3 => exact capacity_handleOffer _ _ _
  case h_4 | h_5 | h_6 =>
    refine .of_eq ?_
    dsimp only [handleState, handleReleaseAck, handleRenewAck]
    repeat' split
    all_goals rfl
  all_goals exact .of_eq rfl

/-- Only a registration brings a capacity. -/
theorem capacity_apply {op : Op} {id : Bytes} {entry : KnownAllocator}
    (h : (op.apply cfg s).1.allocators.lookup id = some entry) :
    (∃ old, s.allocators.lookup id = some old ∧ entry.capacity = old.capacity) ∨
      ∃ known, op = .register known ∧ entry.capacity = known.capacity := by
  cases op with
  | register known =>
    unfold Op.apply register at h
    dsimp only at h
    split at h
    · exact .inl ⟨entry, h, rfl⟩
    rcases AList.of_lookup_insert h with ⟨rfl, rfl⟩ | ⟨-, h⟩
    · split
      · exact .inr ⟨known, rfl, rfl⟩
      rename_i previous hprevious
      -- a registration without capacities keeps the previous ones
      by_cases hnone : known.capacity.isNone = true
      · refine .inl ⟨previous, hprevious, ?_⟩
        simp only [hnone, if_true]
        split <;> split <;> rfl
      · refine .inr ⟨known, rfl, ?_⟩
        simp only [hnone, if_false, Bool.false_eq_true]
        split <;> split <;> rfl
    · exact .inl ⟨entry, h, rfl⟩
  | createRequest | nextAttempt => exact .inl (SameCapacities.of_eq (allocators_created rfl) _ _ h)
  | select i k => exact .inl (SameCapacities.of_eq (allocators_select i k) _ _ h)
  | handle i e => exact .inl (capacity_handle i e _ _ h)
  | _ =>
    refine .inl (SameCapacities.of_eq ?_ _ _ h)
    exact (frame_apply s rfl).2 nofun

/-- Every capacity the catalog knows has a slot of the class. -/
def State.Stocked (s : State) (resourceClass : GoString) : Prop :=
  ∀ id entry, s.allocators.lookup id = some entry → entry.capacity.isSome = true →
    entry.slots resourceClass ≠ 0

theorem State.Stocked.apply {op : Op} {resourceClass : GoString} (h : s.Stocked resourceClass)
    (hop : ∀ known, op = .register known → known.capacity.isSome = true →
      known.slots resourceClass ≠ 0) : (op.apply cfg s).1.Stocked resourceClass := by
  intro id entry hentry hsome
  rcases capacity_apply hentry with ⟨old, hold, heq⟩ | ⟨known, hknown, heq⟩
  · have hslots := h id old hold (by rw [← heq]; exact hsome)
    rw [KnownAllocator.slots, heq]
    exact hslots
  · have hslots := hop known hknown (by rw [← heq]; exact hsome)
    rw [KnownAllocator.slots, heq]
    exact hslots

end

section

variable {cfg : Config} {s t u : Controller} {m : Move} {i : Input} {c : Caller} {err : Err}
  {q : ExecutionRequest}

-- ===== the class

/-- The run is for one resource class, and the catalog has slots of it. -/
structure Classed (resourceClass : GoString) (s : Controller) : Prop where
  requests : ∀ k r, s.core.requests.lookup k = some r →
    r.request.resourceClass = resourceClass
  request : ∀ q, s.pc.request = some q → q.resourceClass = resourceClass
  stocked : s.core.Stocked resourceClass

variable {resourceClass : GoString}

/-- An operation that makes no request keeps their class. -/
theorem class_kept {core core' : State} {op : Op} (hkept : Kept cfg op core core')
    (hop : op.requestID = none)
    (h : ∀ k r, core.requests.lookup k = some r → r.request.resourceClass = resourceClass) :
    ∀ k r, core'.requests.lookup k = some r → r.request.resourceClass = resourceClass := by
  intro k r' hr'
  rcases hkept.request hr' with ⟨r, hr, hsame⟩ | ⟨hnew, -⟩
  · rw [hsame.request]
    exact h k r hr
  · rw [hop] at hnew
    cases hnew

theorem Op.requestID_of_aside {op : Op} (h : op.aside = true) : op.requestID = none := by
  cases op <;> first | rfl | cases h

theorem Classed.aside (h : Classed resourceClass s) (haside : Aside cfg s t)
    (hpc : ∀ q, t.pc.request = some q → q.resourceClass = resourceClass) :
    Classed resourceClass t := by
  obtain ⟨ops, hops, hcore⟩ := haside.core
  have hfold : ∀ (ops : List Op) (core : State), (∀ op ∈ ops, op.aside = true) →
      (∀ k r, core.requests.lookup k = some r → r.request.resourceClass = resourceClass) →
      core.Stocked resourceClass →
      (∀ k r, (ops.foldl (fun core op => (op.apply cfg core).1) core).requests.lookup k = some r →
        r.request.resourceClass = resourceClass) ∧
      (ops.foldl (fun core op => (op.apply cfg core).1) core).Stocked resourceClass := by
    intro ops
    induction ops with
    | nil => exact fun core _ hrequests hstocked => ⟨hrequests, hstocked⟩
    | cons op rest ih =>
      intro core hops hrequests hstocked
      have hop := hops op List.mem_cons_self
      refine ih _ (fun op' hop' => hops op' (List.mem_cons_of_mem _ hop')) ?_ ?_
      · exact class_kept (kept_apply core op) (Op.requestID_of_aside hop) hrequests
      · refine hstocked.apply ?_
        rintro known rfl hsome
        rw [Op.aside, Option.isNone_iff_eq_none] at hop
        rw [hop] at hsome
        cases hsome
  obtain ⟨hrequests, hstocked⟩ := hfold ops s.core hops h.requests h.stocked
  rw [← hcore] at hrequests hstocked
  exact ⟨hrequests, hpc, hstocked⟩

/-- The request of an attempt has the class of the one it is made for. -/
theorem class_created {allocators : List GoString} (hpc : s.pc = .creating c q allocators)
    (hturn : s.turn cfg m = some t)
    (h : ∀ k r, s.core.requests.lookup k = some r → r.request.resourceClass = q.resourceClass) :
    ∀ k r, t.core.requests.lookup k = some r → r.request.resourceClass = q.resourceClass := by
  unfold Controller.turn at hturn
  rw [hpc] at hturn
  cases m with
  | next i =>
    cases hturn
    have hcore : (s.create cfg i c q allocators).core =
        (Controller.createAttempt cfg i c q s.core).1 := by
      unfold Controller.create
      dsimp only
      split
      · exact core_attemptFailed _ _
      · rfl
    rw [hcore]
    generalize hy : Controller.createAttempt cfg i c q s.core = y
    obtain ⟨core, result⟩ := y
    have hspec := creates_createAttempt hy
    cases result with
    | error err =>
      obtain rfl : core = s.core := hspec
      exact h
    | ok created =>
      obtain ⟨-, q', -, hclass, -, -, houtline⟩ := hspec
      intro k r hr
      have hk := outline_request hr
      rw [houtline] at hk
      by_cases heq : k = created.1
      · rw [heq, Outline.request_setRequest] at hk
        have hrequest : q' = r.request := congrArg Prod.fst (Option.some.inj hk)
        rw [← hrequest]
        exact hclass
      · rw [Outline.request_setRequest_ne heq] at hk
        obtain ⟨r₀, hr₀, hpair⟩ := Option.map_eq_some_iff.mp hk
        have hrequest : r₀.request = r.request := congrArg Prod.fst hpair
        rw [← hrequest]
        exact h k r₀ hr₀
  | _ => cases hturn

theorem Classed.turn (h : Classed resourceClass s) (hturn : s.turn cfg m = some t) :
    Classed resourceClass t := by
  refine ⟨?_, ?_, ?_⟩
  · by_cases hcreating : ∃ c q allocators, s.pc = .creating c q allocators
    · obtain ⟨c, q, allocators, hpc⟩ := hcreating
      have hclass := h.request q (by rw [hpc]; rfl)
      rw [← hclass]
      refine class_created hpc hturn ?_
      rw [hclass]
      exact h.requests
    · rcases (turned_turn hturn).core with hcore | ⟨op, hcore, hfits⟩
      · rw [hcore]
        exact h.requests
      · rw [hcore]
        refine class_kept (kept_apply s.core op) ?_ h.requests
        cases op <;> first | rfl | exact absurd hfits hcreating
  · intro q hq
    cases (turned_turn hturn).asks with
    | elsewhere hnone =>
      rw [hnone] at hq
      cases hq
    | stays hpc hsends =>
      rw [hpc] at hq
      exact h.request q hq
    | recalls c q' hs hrecorded hpc =>
      rw [hpc] at hq
      cases hq
      obtain ⟨record, -, hrequest⟩ := Option.bind_eq_some_iff.mp hrecorded
      obtain ⟨r, hr, rfl⟩ := Option.map_eq_some_iff.mp hrequest
      exact h.requests _ r hr
    | routes c q' hs ht =>
      rw [ht] at hq
      cases hq
      exact h.request q (by rw [hs]; rfl)
    | creates a hs hpc | asks a d rest sent hs hpc =>
      rw [hpc] at hq
      cases hq
      exact h.request a.request (by rw [hs]; rfl)
    | collects a sent sent' err hs hpc hsends =>
      rw [hpc] at hq
      cases hq
      rcases hs with hs | ⟨err', hs⟩
      · exact h.request a.request (by rw [hs]; rfl)
      · exact h.request a.request (by rw [hs]; rfl)
  · rcases (turned_turn hturn).core with hcore | ⟨op, hcore, hfits⟩
    · rw [hcore]
      exact h.stocked
    · rw [hcore]
      refine h.stocked.apply ?_
      rintro known rfl -
      obtain ⟨a, sent, err, hpc, hslots⟩ := hfits
      rw [h.request a.request (by rw [hpc]; rfl)] at hslots
      exact hslots

/-- A step of the controller does not undo the call of `Run`. -/
theorem turn_ne_idle (hturn : s.turn cfg m = some t) : t.pc ≠ .idle := by
  intro hidle
  cases (turned_turn hturn).lands with
  | stays hpc =>
    unfold Controller.turn at hturn
    rw [← hpc, hidle] at hturn
    cases m <;> cases hturn
  | plain hpc =>
    rw [hidle] at hpc
    cases hpc
  | unplaced err hpc | failed a err hpc | ends a state r hpc | concluded a state hs hpc =>
    rw [hidle] at hpc; cases hpc
  | fails result err hs ht =>
    rw [ht] at hidle
    split at hidle <;> cases hidle
  | cancels i result err hs hcancel =>
    rcases bestEffortCancel_pc hcancel with hpc | ⟨d, e, hpc⟩
    · rw [hidle] at hpc
      cases hpc
    · rw [hidle] at hpc
      cases hpc
  | cancelled result err d e failed hs ht =>
    rw [ht] at hidle
    cases hidle

/-- A run is for one class; before it is called, for any. -/
theorem classed_reachable (h : (runs cfg).Reach s) :
    (∃ resourceClass, Classed resourceClass s) ∧
      (s.pc = .idle → ∀ resourceClass, Classed resourceClass s) := by
  refine h.invariant (I := fun s => (∃ resourceClass, Classed resourceClass s) ∧
    (s.pc = .idle → ∀ resourceClass, Classed resourceClass s)) ?_ ?_
  · rintro s ⟨destinations, rfl⟩
    have hclassed : ∀ resourceClass, Classed resourceClass
        ({ bootstrapDestinations := destinations } : Controller) := by
      intro resourceClass
      refine ⟨?_, ?_, ?_⟩
      · intro k r hr
        cases hr
      · intro q hq
        cases hq
      · intro id entry hentry
        cases hentry
    exact ⟨⟨[], hclassed []⟩, fun _ => hclassed⟩
  · rintro s l t ⟨⟨resourceClass, hclassed⟩, hidle⟩ - hstep
    rcases step_cases hstep with ⟨m, -, hturn⟩ | haside
    · exact ⟨⟨resourceClass, hclassed.turn hturn⟩, fun hpc => absurd hpc (turn_ne_idle hturn)⟩
    · rcases haside.pc with hpc | ⟨hs, q, hpc⟩
      · have hkeep : ∀ rc, Classed rc s → Classed rc t := by
          intro rc hrc
          refine hrc.aside haside ?_
          rw [hpc]
          exact hrc.request
        refine ⟨⟨resourceClass, hkeep _ hclassed⟩, ?_⟩
        intro ht rc
        exact hkeep rc (hidle (hpc.symm.trans ht) rc)
      · refine ⟨⟨q.resourceClass, (hidle hs _).aside haside ?_⟩, ?_⟩
        · intro q' hq'
          rw [hpc] at hq'
          cases hq'
          rfl
        · intro ht
          rw [hpc] at ht
          cases ht

-- ===== the snapshot

/-- The allocator returned an offer. -/
def State.offered (core : State) (id : Bytes) : Prop :=
  ∃ k r o offer, core.requests.lookup k = some r ∧ r.offers.lookup o = some offer ∧
    offer.allocatorID = id

/-- What is noted beside a run: the core from which the destinations were
last taken, and the request of each next attempt with the core that its
destinations are from. -/
structure Rerouted where
  taken : Option State := none
  made : List (State × Asked) := []

/-- The request of a next attempt is about to be sent. -/
def Pc.reasks : Pc → Option Asked
  | .asking a _ _ => if a.caller = .run then none else some a
  | _ => none

theorem Pc.reasks_eq {pc : Pc} (h : pc.reasks = some a) :
    (∃ rest sent, pc = .asking a rest sent) ∧ a.caller ≠ .run := by
  unfold Pc.reasks at h
  split at h
  next a' rest sent =>
    split at h
    · cases h
    next hcaller =>
      cases h
      exact ⟨⟨rest, sent, rfl⟩, hcaller⟩
  · cases h

def Rerouted.note (s : Controller) (l : RunLabel) (t : Controller) (n : Rerouted) : Rerouted :=
  match s.pc, l with
  | .routing _ _, .move _ => { n with taken := some s.core }
  | .creating _ _ _, .move _ =>
    match n.taken, t.pc.reasks with
    | some core, some a => { n with made := (core, a) :: n.made }
    | _, _ => n
  | _, _ => n

/-- The runs with these notes. -/
def rerouting (cfg : Config) : TransitionSystem (Controller × Rerouted) RunLabel :=
  (runs cfg).observe {} Rerouted.note

/-- When the destinations are taken, an announcement was seen of every
allocator that offered and is compatible; and the sends of a next
attempt's request to them do not fail. -/
structure Announced (s : Controller × Rerouted) (l : RunLabel) : Prop where
  announced : ∀ c q m, s.1.pc = .routing c q → l = .move m → ∀ id entry,
    s.1.core.allocators.lookup id = some entry → s.1.core.offered id →
    placementCompatible q.constraints entry.node = true → entry.capacity.isSome = true
  delivered : ∀ a rest sent err, s.1.pc = .asking a rest sent → a.caller ≠ .run →
    l ≠ .move (.sent (some err))

/-- Every allocator that offered and is compatible is a destination. -/
def Covers (core : State) (q : ExecutionRequest) (destinations : List GoString) : Prop :=
  ∀ id entry, core.allocators.lookup id = some entry → core.offered id →
    placementCompatible q.constraints entry.node = true → entry.destination ∈ destinations

/-- The destinations of the next attempts, and what was sent to them. -/
structure Sends (s : Controller × Rerouted) : Prop where
  creating : ∀ {c q allocators}, s.1.pc = .creating c q allocators → c ≠ .run →
    ∃ core, s.2.taken = some core ∧ Covers core q allocators
  made : ∀ {core a}, (core, a) ∈ s.2.made → a.caller ≠ .run ∧
    Covers core a.request a.allocators ∧
    ∀ d ∈ a.allocators, (⟨d, a.envelope, false⟩ : Sent) ∈ s.1.sends ∨
      ∃ rest sent, s.1.pc = .asking a rest sent ∧ d ∈ rest

/-- The destinations `reRequestLost` takes. -/
theorem covers_route (hclass : s.core.Stocked q.resourceClass)
    (hannounced : ∀ id entry, s.core.allocators.lookup id = some entry → s.core.offered id →
      placementCompatible q.constraints entry.node = true → entry.capacity.isSome = true) :
    Covers s.core q (allocatorDestinations q.resourceClass q.constraints s.core) := by
  intro id entry hentry hoffered hcompatible
  have hslots := hclass id entry hentry (hannounced id entry hentry hoffered hcompatible)
  unfold allocatorDestinations
  rw [List.mem_insertionSort]
  refine List.mem_map.mpr ⟨⟨id, entry⟩, ?_, rfl⟩
  refine List.mem_filter.mpr ⟨AList.mem_lookup_iff.mp hentry, ?_⟩
  simp [hslots, hcompatible]

section

variable {l : RunLabel} {n : Rerouted}

theorem Rerouted.taken_note (h : ∀ c q, s.pc ≠ .routing c q) :
    (n.note s l t).taken = n.taken := by
  unfold Rerouted.note
  split
  next hpc => exact absurd hpc (h _ _)
  · split <;> rfl
  · rfl

theorem Rerouted.made_note {core : State} (h : (core, a) ∈ (n.note s l t).made) :
    (core, a) ∈ n.made ∨ ∃ c q allocators m, s.pc = .creating c q allocators ∧
      l = .move m ∧ n.taken = some core ∧ t.pc.reasks = some a := by
  unfold Rerouted.note at h
  split at h
  · exact .inl h
  next c q allocators m hpc =>
    split at h
    next htaken hreasks =>
      rcases List.mem_cons.mp h with heq | h
      · cases heq
        exact .inr ⟨c, q, allocators, m, hpc, rfl, htaken, hreasks⟩
      · exact .inl h
    · exact .inl h
  · exact .inl h

/-- The next of the strict sends. -/
theorem asks_on {rest sent : List GoString} {d : GoString} (hok : Announced (s, n) (.move m))
    (hpc : s.pc = .asking a rest sent) (hcaller : a.caller ≠ .run) (hd : d ∈ rest)
    (hturn : s.turn cfg m = some t) : (⟨d, a.envelope, false⟩ : Sent) ∈ t.sends ∨
      ∃ rest sent, t.pc = .asking a rest sent ∧ d ∈ rest := by
  cases rest with
  | nil => cases hd
  | cons first rest =>
    unfold Controller.turn at hturn
    rw [hpc] at hturn
    cases m with
    | sent outcome =>
      cases hturn
      cases outcome with
      | some err => exact absurd rfl (hok.delivered a _ sent err hpc hcaller)
      | none =>
        rcases List.mem_cons.mp hd with rfl | hd
        · exact .inl List.mem_cons_self
        · exact .inr ⟨rest, first :: sent, rfl, hd⟩
    | _ => cases hturn

/-- A request just created has all its destinations before it. -/
theorem made_create {core : State} {c : Caller} {allocators : List GoString}
    (hpc : s.pc = .creating c q allocators) (hcovers : c ≠ .run → Covers core q allocators)
    (hreasks : t.pc.reasks = some a) (hasks : Asks s t) : a.caller ≠ .run ∧
      Covers core a.request a.allocators ∧ t.pc = .asking a a.allocators [] := by
  obtain ⟨⟨rest, sent, ht⟩, hcaller⟩ := Pc.reasks_eq hreasks
  cases hasks with
  | elsewhere hnone =>
    rw [ht] at hnone
    cases hnone
  | stays hsame =>
    rw [ht, hpc] at hsame
    cases hsame
  | recalls c q hs | routes c q hs | asks a d rest sent hs =>
    rw [hpc] at hs
    cases hs
  | collects a sent sent' err hs =>
    rcases hs with hs | ⟨err', hs⟩ <;> rw [hpc] at hs <;> cases hs
  | creates a' hs ht' =>
    rw [hpc] at hs
    cases hs
    cases ht.symm.trans ht'
    exact ⟨hcaller, hcovers hcaller, ht⟩

/-- The destinations of the attempt that is being created. -/
theorem Sends.creates (h : Sends (s, n)) (hreach : (runs cfg).Reach s)
    (hok : Announced (s, n) l) (hstep : s.step cfg l = some t) {c : Caller}
    {allocators : List GoString} (hpc : t.pc = .creating c q allocators) (hcaller : c ≠ .run) :
    ∃ core, (n.note s l t).taken = some core ∧ Covers core q allocators := by
  have hstay : t.pc = s.pc →
      ∃ core, (n.note s l t).taken = some core ∧ Covers core q allocators := by
    intro hsame
    rw [hsame] at hpc
    rw [Rerouted.taken_note (by rw [hpc]; nofun)]
    exact h.creating hpc hcaller
  rcases step_cases hstep with ⟨m, rfl, hturn⟩ | haside
  · cases (turned_turn hturn).asks with
    | elsewhere hnone =>
      rw [hpc] at hnone
      cases hnone
    | stays hsame => exact hstay hsame
    | routes c' q' hs ht =>
      subst ht
      cases hpc
      obtain ⟨⟨resourceClass, hclassed⟩, -⟩ := classed_reachable hreach
      have hstocked := hclassed.stocked
      rw [← hclassed.request q (by rw [hs]; rfl)] at hstocked
      exact ⟨s.core, by simp [Rerouted.note, hs],
        covers_route hstocked (hok.announced _ _ m hs rfl)⟩
    | recalls c q hs hq ht | creates a hs ht | asks a d rest sent hs ht
    | collects a sent sent' err hs ht =>
      rw [hpc] at ht
      cases ht
  · rcases haside.pc with hsame | ⟨-, q', hrun⟩
    · exact hstay hsame
    · rw [hpc] at hrun
      cases hrun
      exact absurd rfl hcaller

/-- What was sent stays sent, and what is to be sent is next. -/
theorem Sends.goes (h : Sends (s, n)) (hok : Announced (s, n) l) (hstep : s.step cfg l = some t)
    {core : State} (hmade : (core, a) ∈ n.made) {d : GoString} (hd : d ∈ a.allocators) :
    (⟨d, a.envelope, false⟩ : Sent) ∈ t.sends ∨
      ∃ rest sent, t.pc = .asking a rest sent ∧ d ∈ rest := by
  obtain ⟨hcaller, -, hsent⟩ := h.made hmade
  rcases step_cases hstep with ⟨m, rfl, hturn⟩ | haside
  · rcases hsent d hd with hdone | ⟨rest, sent, hpc, hrest⟩
    · exact .inl ((turned_turn hturn).sends.subset _ hdone)
    · exact asks_on hok hpc hcaller hrest hturn
  · rw [haside.sends]
    rcases hsent d hd with hdone | ⟨rest, sent, hpc, hrest⟩
    · exact .inl hdone
    · rcases haside.pc with hsame | ⟨hidle, -⟩
      · exact .inr ⟨rest, sent, hsame.trans hpc, hrest⟩
      · cases hidle.symm.trans hpc

end

theorem sends_reachable {s : Controller × Rerouted}
    (h : (rerouting cfg).ReachWhen Announced s) : Sends s := by
  refine h.observed (I := fun s n => Sends (s, n)) ?_ ?_
  · rintro s ⟨destinations, rfl⟩
    exact ⟨nofun, nofun⟩
  · intro s l t n hreach _ hs hok hstep
    refine ⟨hs.creates hreach hok hstep, ?_⟩
    intro core a hmem
    rcases Rerouted.made_note hmem with hold | ⟨c, q, allocators, m, hpc, rfl, htaken, hreasks⟩
    · obtain ⟨hcaller, hcovers, -⟩ := hs.made hold
      exact ⟨hcaller, hcovers, fun d hd => hs.goes hok hstep hold hd⟩
    · have hcovers : c ≠ .run → Covers core q allocators := by
        intro hcaller
        obtain ⟨core', hcore', hcovers⟩ := hs.creating hpc hcaller
        cases htaken.symm.trans hcore'
        exact hcovers
      obtain ⟨hcaller, hcovered, ht⟩ :=
        made_create hpc hcovers hreasks (turned_turn hstep).asks
      exact ⟨hcaller, hcovered, fun d hd => .inr ⟨_, _, ht, hd⟩⟩

/-- The request of every next attempt was sent to every allocator that
had offered and was compatible when its destinations were taken, or the
allocator is among those it is still to be sent to. -/
theorem announced_offerers_are_asked_again {s : Controller × Rerouted}
    (h : (rerouting cfg).ReachWhen Announced s) {core : State} {a : Asked}
    (hmade : (core, a) ∈ s.2.made) {id : Bytes} {entry : KnownAllocator}
    (hentry : core.allocators.lookup id = some entry) (hoffered : core.offered id)
    (hcompatible : placementCompatible a.request.constraints entry.node = true) :
    (⟨entry.destination, a.envelope, false⟩ : Sent) ∈ s.1.sends ∨
      ∃ rest sent, s.1.pc = .asking a rest sent ∧ entry.destination ∈ rest := by
  obtain ⟨-, hcovers, hsent⟩ := (sends_reachable h).made hmade
  exact hsent _ (hcovers id entry hentry hoffered hcompatible)

-- ===== an error

/-- The strict sends are over. -/
def Pc.collects : Pc → Bool
  | .collecting _ _ _ => true
  | _ => false

theorem Pc.collects_ne {pc : Pc} (h : pc.collects = true) (a : Asked)
    (rest sent : List GoString) : pc ≠ .asking a rest sent := by
  rintro rfl
  cases h

/-- The only allocator of a run was reached through a bootstrap
destination, offered and held the first attempt. -/
def bootstrapped : Controller := { bootstrapDestinations := [text "there"] }

/-- It offered and is compatible with any constraint there is. -/
def offererAt (core : State) (a : Asked) (destination : GoString) : Bool :=
  (core.allocators.lookup [2]).any (fun entry =>
    decide (entry.destination = destination)
      && placementCompatible a.request.constraints entry.node)
    && (core.requests.lookup (text "request")).any fun r =>
      (r.offers.lookup (text "offer")).any fun offer => decide (offer.allocatorID = [2])

theorem offererAt_eq {core : State} {destination : GoString}
    (h : offererAt core a destination = true) :
    ∃ entry, core.allocators.lookup [2] = some entry ∧ core.offered [2] ∧
      placementCompatible a.request.constraints entry.node = true ∧
      entry.destination = destination := by
  simp only [offererAt, Bool.and_eq_true, Option.any_eq_true, decide_eq_true_eq] at h
  obtain ⟨⟨entry, hentry, hdestination, hcompatible⟩, r, hr, offer, ho, hid⟩ := h
  exact ⟨entry, hentry, ⟨_, r, _, offer, hr, ho, hid⟩, hcompatible, hdestination⟩

/-- The next attempt passes by the allocator that offered. -/
theorem bootstrap_offerer_is_passed_by :
    ∃ s core a entry, (rerouting plainClient).Reach s ∧ (core, a) ∈ s.2.made ∧
      core.allocators.lookup [2] = some entry ∧ core.offered [2] ∧
      placementCompatible a.request.constraints entry.node = true ∧
      (∀ rest sent, s.1.pc ≠ .asking a rest sent) ∧
      ∀ d ∈ s.1.sends, d.envelope ≠ a.envelope := by
  obtain ⟨s, hs, hcollects, hp⟩ := (rerouting plainClient).exists_reach
    (.observe (s := bootstrapped) ⟨_, rfl⟩) (evicted.take 20)
    (fun s => s.1.pc.collects = true ∧ s.2.made.any fun p => offererAt p.1 p.2 (text "there")
      && s.1.sends.all fun d => decide (d.envelope ≠ p.2.envelope)) (by decide +kernel)
  simp only [List.any_eq_true, Bool.and_eq_true, List.all_eq_true, decide_eq_true_eq] at hp
  obtain ⟨⟨core, a⟩, hmade, hofferer, hnone⟩ := hp
  obtain ⟨entry, hentry, hoffered, hcompatible, -⟩ := offererAt_eq hofferer
  exact ⟨s, core, a, entry, hs, hmade, hentry, hoffered, hcompatible,
    Pc.collects_ne hcollects a, hnone⟩

/-- `Announced`, as it is evaluated: every compatible entry has a
capacity, and no send fails. -/
def announced (s : Controller × Rerouted) : RunLabel → Bool
  | .move (.sent (some _)) => false
  | _ =>
    match s.1.pc with
    | .routing _ q =>
      !s.1.core.allocators.any fun _ entry =>
        placementCompatible q.constraints entry.node && entry.capacity.isNone
    | _ => true

theorem announced_of_eval (s : Controller × Rerouted) (l : RunLabel)
    (h : announced s l = true) : Announced s l := by
  refine ⟨?_, ?_⟩
  · rintro c q m hpc rfl id entry hentry _ hcompatible
    unfold announced at h
    split at h
    · cases h
    rw [hpc] at h
    by_contra hnone
    have hany : (s.1.core.allocators.any fun _ entry =>
      placementCompatible q.constraints entry.node && entry.capacity.isNone) = true := by
      refine AList.any_eq_true.mpr ⟨id, entry, hentry, ?_⟩
      rw [hcompatible, Option.isNone_iff_eq_none.mpr (by simpa using hnone)]
      rfl
    simp [hany] at h
  · rintro a rest sent err - - rfl
    cases h

/-- The announcement of the allocator of the run. -/
def plainService : Presence.Service :=
  ⟨text "there", text "02", { capacity := (∅ : FMap GoString Nat).insert (text "small") 1 }, 1⟩

/-- With its announcement it is asked again. -/
theorem announced_offerer_is_asked :
    ∃ s core a entry, (rerouting plainClient).ReachWhen Announced s ∧ (core, a) ∈ s.2.made ∧
      core.allocators.lookup [2] = some entry ∧ core.offered [2] ∧
      (⟨text "there", a.envelope, false⟩ : Sent) ∈ s.1.sends := by
  obtain ⟨s, hs, hcollects, hp⟩ := (rerouting plainClient).exists_reachWhen
    (fun s l => announced s l = true) (.observe (s := bootstrapped) ⟨_, rfl⟩)
    (evicted.take 4 ++ [.move (.discovered plainService)] ++ (evicted.drop 4).take 15 ++
      [.move (.sent none), .move (.next {})])
    (fun s => s.1.pc.collects = true ∧
      s.2.made.any fun p => offererAt p.1 p.2 (text "there")) (by decide +kernel)
  have hs := hs.mono announced_of_eval
  obtain ⟨⟨core, a⟩, hmade, hofferer⟩ := List.any_eq_true.mp hp
  obtain ⟨entry, hentry, hoffered, hcompatible, hdestination⟩ := offererAt_eq hofferer
  rcases announced_offerers_are_asked_again hs hmade hentry hoffered hcompatible with
    hsent | ⟨rest, sent, hpc, -⟩
  · rw [hdestination] at hsent
    exact ⟨s, core, a, entry, hs, hmade, hentry, hoffered, hsent⟩
  · exact absurd hpc (Pc.collects_ne hcollects a rest sent)

end

end R1s.Client
