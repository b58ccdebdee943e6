/-
The states of an execution arrive in any order and any number of times.
An allocator publishes them with growing revisions, the last of them
possibly terminal (`History`); of whatever was delivered the client holds
the state with the largest revision, and it refuses nothing.

`handleState` is a join over a history: it takes a later state and
ignores an earlier or equal one (`observes_history`). The two branches
that refuse a state ask for two different states of one revision, or for
a state after the terminal one, and a history has neither.
-/
import R1s.Client.Inbound

namespace R1s.Client

-- ===== histories

/-- The states of the execution `x`, oldest first. -/
structure History (x : GoString) where
  states : List ExecutionState
  named : ∀ state ∈ states, state.executionID = x
  positive : ∀ state ∈ states, 0 < state.revision
  increasing : states.Pairwise fun a b => a.revision < b.revision
  /-- Only the last state may be terminal. -/
  live : ∀ state ∈ states.dropLast, state.phase.terminal = false

namespace History

variable {x : GoString} {h : History x} {a b : ExecutionState}

/-- A revision belongs to one state. -/
theorem eq_of_revision (ha : a ∈ h.states) (hb : b ∈ h.states)
    (heq : a.revision = b.revision) : a = b := by
  have hapart : (h.states.map ExecutionState.revision).Nodup :=
    List.pairwise_map.mpr (h.increasing.imp fun hlt => Nat.ne_of_lt hlt)
  exact List.inj_on_of_nodup_map hapart ha hb heq

/-- Nothing follows a terminal state. -/
theorem le_of_terminal (ha : a ∈ h.states) (hb : b ∈ h.states)
    (hterminal : a.phase.terminal = true) : b.revision ≤ a.revision := by
  rcases List.eq_nil_or_concat h.states with hnil | ⟨front, last, hconcat⟩
  · rw [hnil] at ha
    cases ha
  · have hlive := h.live
    have hincreasing := h.increasing
    rw [hconcat] at ha hb hlive hincreasing
    rw [List.concat_eq_append] at ha hb hlive hincreasing
    rw [List.dropLast_concat] at hlive
    rcases List.mem_append.mp ha with hfront | hlast
    · rw [hlive a hfront] at hterminal
      cases hterminal
    · obtain rfl := List.mem_singleton.mp hlast
      rcases List.mem_append.mp hb with hfront | hlast
      · exact ((List.pairwise_append.mp hincreasing).2.2 b hfront a hlast).le
      · rw [List.mem_singleton.mp hlast]

end History

-- ===== the join

variable {x : GoString} {h : History x}

variable {state : ExecutionState}

/-- What the handler makes of a state of the history beside another. -/
theorem observes_history {old : ExecutionState} (hold : old ∈ h.states)
    (hstate : state ∈ h.states) :
    observes (some old) state =
      if old.revision < state.revision then .taken else .ignored := by
  have hpositive := h.positive old hold
  unfold observes
  simp only [hpositive, true_or, if_true]
  by_cases hlt : old.revision < state.revision
  · -- a later state: the one held is not terminal
    have hlive : old.phase.terminal = false := by
      cases hterminal : old.phase.terminal with
      | false => rfl
      | true =>
        have hle := History.le_of_terminal hold hstate hterminal
        omega
    have hle : ¬state.revision < old.revision := by omega
    have hne : ¬state.revision = old.revision := by omega
    simp [hlt, hle, hne, hlive]
  · by_cases heq : state.revision = old.revision
    · simp [History.eq_of_revision hstate hold heq]
    · have hless : state.revision < old.revision := by omega
      simp [hlt, hless]

/-- One delivery: the state after it, or the error. -/
def deliverState (s : State) (d : Envelope × ExecutionState) : Except Err State :=
  match handleState d.1 d.2 s with
  | (t, none) => .ok t
  | (_, some err) => .error err

/-- A sequence of deliveries. -/
def deliverStates (s : State) (deliveries : List (Envelope × ExecutionState)) :
    Except Err State :=
  deliveries.foldlM deliverState s

/-- The execution `x` of the allocator holds `known`. -/
def Holds (s : State) (x : GoString) (allocator : Bytes) (known : Option ExecutionState) : Prop :=
  ∃ r, s.executions.lookup x = some r ∧ r.allocatorID = allocator ∧ r.state = known

/-- The later of the state that is held and the one that arrives. -/
def later (known : Option ExecutionState) (state : ExecutionState) : Option ExecutionState :=
  match known with
  | none => some state
  | some old => if old.revision < state.revision then some state else some old

variable {allocator : Bytes}

theorem deliverState_history {s : State} {known : Option ExecutionState}
    {d : Envelope × ExecutionState} (hs : Holds s x allocator known)
    (hknown : ∀ old, known = some old → old ∈ h.states) (hd : d.2 ∈ h.states)
    (hsender : d.1.sender = allocator) :
    ∃ t, deliverState s d = .ok t ∧ Holds t x allocator (later known d.2) := by
  obtain ⟨r, hr, rfl, hrstate⟩ := hs
  have hobserves : observes r.state d.2 = .taken ∧ later known d.2 = some d.2 ∨
      observes r.state d.2 = .ignored ∧ later known d.2 = known := by
    rw [hrstate]
    cases known with
    | none => exact .inl ⟨rfl, rfl⟩
    | some old =>
      rw [observes_history (hknown old rfl) hd]
      unfold later
      by_cases hlt : old.revision < d.2.revision
      · exact .inl (by simp [hlt])
      · exact .inr (by simp [hlt])
  unfold deliverState handleState
  rw [h.named d.2 hd, hr]
  simp only [hsender, ne_eq, not_true_eq_false, if_false]
  rcases hobserves with ⟨htaken, hlater⟩ | ⟨hignored, hlater⟩
  · rw [htaken, hlater]
    refine ⟨_, rfl, ?_⟩
    split
    · exact ⟨_, AList.lookup_insert _, rfl, rfl⟩
    · exact ⟨_, AList.lookup_insert _, rfl, rfl⟩
  · rw [hignored, hlater]
    exact ⟨s, rfl, r, hr, rfl, hrstate⟩

-- ===== the deliveries

/-- The deliveries of a history by the allocator. -/
def Drawn (h : History x) (allocator : Bytes)
    (deliveries : List (Envelope × ExecutionState)) : Prop :=
  ∀ d ∈ deliveries, d.2 ∈ h.states ∧ d.1.sender = allocator

/-- The delivered state with the largest revision. -/
def newest (deliveries : List (Envelope × ExecutionState)) : Option ExecutionState :=
  (deliveries.map Prod.snd).argmax ExecutionState.revision

theorem newest_concat (deliveries : List (Envelope × ExecutionState))
    (d : Envelope × ExecutionState) :
    newest (deliveries ++ [d]) = later (newest deliveries) d.2 := by
  unfold newest later
  rw [List.map_append, List.map_singleton, List.argmax_concat]
  cases (deliveries.map Prod.snd).argmax ExecutionState.revision <;> rfl

theorem newest_mem {deliveries : List (Envelope × ExecutionState)}
    (hdrawn : Drawn h allocator deliveries) (hstate : newest deliveries = some state) :
    state ∈ h.states := by
  obtain ⟨d, hd, rfl⟩ := List.mem_map.mp (List.argmax_mem hstate)
  exact (hdrawn d hd).1

/-- Whatever was delivered, none of it is refused and the newest is
held. -/
theorem deliverStates_newest {s : State} (hs : Holds s x allocator none)
    (deliveries : List (Envelope × ExecutionState)) (hdrawn : Drawn h allocator deliveries) :
    ∃ t, deliverStates s deliveries = .ok t ∧ Holds t x allocator (newest deliveries) := by
  induction deliveries using List.reverseRecOn with
  | nil => exact ⟨s, rfl, hs⟩
  | append_singleton deliveries d ih =>
    have hbefore : Drawn h allocator deliveries :=
      fun d' hd' => hdrawn d' (List.mem_append_left _ hd')
    obtain ⟨hd, hsender⟩ := hdrawn d (List.mem_append_right _ List.mem_cons_self)
    obtain ⟨t, ht, hholds⟩ := ih hbefore
    obtain ⟨u, hu, hnext⟩ := deliverState_history hholds
      (fun old hold => newest_mem hbefore hold) hd hsender
    refine ⟨u, ?_, ?_⟩
    · unfold deliverStates at ht ⊢
      rw [List.foldlM_append, ht]
      show deliverState t d >>= pure = _
      rw [hu]
      rfl
    · rw [newest_concat]
      exact hnext

/-- A terminal state is the newest of all deliveries after it too. -/
theorem newest_append_of_terminal {before after : List (Envelope × ExecutionState)}
    (hdrawn : Drawn h allocator (before ++ after)) (hstate : newest before = some state)
    (hterminal : state.phase.terminal = true) : newest (before ++ after) = some state := by
  have hmem := newest_mem (fun d hd => hdrawn d (List.mem_append_left _ hd)) hstate
  have hdelivered : state ∈ (before ++ after).map Prod.snd := by
    rw [List.map_append]
    exact List.mem_append_left _ (List.argmax_mem hstate)
  obtain ⟨last, hlast⟩ : ∃ last, newest (before ++ after) = some last := by
    cases hnone : newest (before ++ after) with
    | some last => exact ⟨last, rfl⟩
    | none =>
      rw [List.argmax_eq_none.mp hnone] at hdelivered
      cases hdelivered
  have hlastmem := newest_mem hdrawn hlast
  have hge : state.revision ≤ last.revision := List.le_of_mem_argmax hdelivered hlast
  have hle := History.le_of_terminal hmem hlastmem hterminal
  rw [hlast, History.eq_of_revision hlastmem hmem (by omega)]

/-- Every delivery of a history is accepted, the newest state delivered is
held, and a terminal state that was held after some of the deliveries is
held after all. -/
theorem deliveries_converge {s : State} {r : ExecutionRecord} (h : History x)
    (hr : s.executions.lookup x = some r) (hnone : r.state = none)
    (deliveries : List (Envelope × ExecutionState)) (hdrawn : Drawn h r.allocatorID deliveries) :
    ∃ t r', deliverStates s deliveries = .ok t ∧ t.executions.lookup x = some r' ∧
      r'.state = (deliveries.map Prod.snd).argmax ExecutionState.revision ∧
      ∀ before after u ru state, deliveries = before ++ after →
        deliverStates s before = .ok u → u.executions.lookup x = some ru →
        ru.state = some state → state.phase.terminal = true → r'.state = some state := by
  have hs : Holds s x r.allocatorID none := ⟨r, hr, rfl, hnone⟩
  obtain ⟨t, ht, r', hr', -, hstate⟩ := deliverStates_newest hs deliveries hdrawn
  refine ⟨t, r', ht, hr', hstate, ?_⟩
  rintro before after u ru state rfl hu hru hheld hterminal
  have hbefore : Drawn h r.allocatorID before :=
    fun d hd => hdrawn d (List.mem_append_left _ hd)
  obtain ⟨u', hu', ru', hru', -, hnewest⟩ := deliverStates_newest hs before hbefore
  cases hu.symm.trans hu'
  cases hru.symm.trans hru'
  rw [hstate]
  exact newest_append_of_terminal hdrawn (hnewest.symm.trans hheld) hterminal

/-- An execution that runs and then fails. -/
def plainHistory : History (text "x") where
  states := [⟨text "x", .running, none, [], none, 1⟩, ⟨text "x", .failed, none, [], none, 2⟩]
  named := by decide
  positive := by decide
  increasing := by decide
  live := by decide

/-- Its execution, before any state of it arrived. -/
def plainExecution : ExecutionRecord :=
  { id := text "x", requestID := text "request", offerID := text "offer", allocatorID := [2],
    destination := text "there", assignmentMessageID := text "m", assignmentSentAt := 0 }

/-- The failure, then the state before it, then the failure again. -/
def plainDeliveries : List (Envelope × ExecutionState) :=
  [1, 0, 1].filterMap fun n =>
    (plainHistory.states[n]?).map fun state => (⟨text "m", [2], [], none, none⟩, state)

/-- The failure is held. -/
theorem late_states_are_ignored :
    ∃ t r, deliverStates (State.empty.setExecution (text "x") plainExecution) plainDeliveries =
        .ok t ∧ t.executions.lookup (text "x") = some r ∧
      r.state.map ExecutionState.phase = some .failed := by
  have hr : (State.empty.setExecution (text "x") plainExecution).executions.lookup (text "x") =
    some plainExecution := AList.lookup_insert _
  obtain ⟨t, r, ht, hr, hstate, -⟩ := deliveries_converge plainHistory hr rfl plainDeliveries
    (by unfold Drawn; decide)
  exact ⟨t, r, ht, hr, by rw [hstate]; rfl⟩

end R1s.Client
