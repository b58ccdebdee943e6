/-
The states an allocator announces. A response carries the state of an
execution as the section that builds it leaves the record; in one process
a revision names one state of a record until its 64 bits wrap. Across a
restart it does not: a state that was announced but whose save failed is
forgotten, and the record goes on from an older one.

# Which execution a message is about

Execution IDs come from clients and can be used again after a record is
gone, so an observer counts the records created under each ID (`born`).
It notes a state with the count when the state's response is built, and
the states that calls of `Handle` return.
-/
import R1s.Allocator.Proofs.Holding
import R1s.Allocator.Proofs.Lifecycle

namespace R1s.Allocator

variable {cfg : Config}

-- ===== the observer

/-- The state a response announces. -/
def stateOf (e : Envelope) : Option ExecutionState :=
  match e.payload with
  | some (.executionState st) => some st
  | _ => none

/-- The responses a handler's section builds. -/
def System.built (s : System cfg) : Label cfg → List Envelope
  | .run tid i =>
    match s.threads.lookup tid with
    | some p =>
      if p.tells.isSome then ((advance tid p i s.world).map fun r => r.2.held).getD [] else []
    | none => []
  | _ => []

structure Announced where
  /-- The records created under an ID so far. -/
  born : GoString → Nat
  /-- The states announced, each of the record created at that count. -/
  told : List (Nat × ExecutionState)
  /-- The states calls of `Handle` returned. -/
  returned : List ExecutionState

/-- A record appears under the ID. -/
def creates (s : System cfg) (l : Label cfg) (t : System cfg) (id : GoString) : Bool :=
  !l.isRestart && (s.world.mem.executions.lookup id).isNone
    && (t.world.mem.executions.lookup id).isSome

def Announced.note (s : System cfg) (l : Label cfg) (t : System cfg) (seen : Announced) :
    Announced :=
  let born := fun id => if creates s l t id then seen.born id + 1 else seen.born id
  { born := born,
    told := seen.told ++ ((s.built l).filterMap stateOf).map fun st =>
      (born st.executionID, st),
    returned := seen.returned ++ (s.returned l).filterMap stateOf }

/-- The allocator beside the observer. -/
def announcing (cfg : Config) : TransitionSystem (System cfg × Announced) (Label cfg) :=
  (machine cfg).observe ⟨fun _ => 0, [], []⟩ Announced.note

/-- What the store holds of each execution is its state in memory. -/
def World.current (w : World) : Prop :=
  ∀ snap, w.disk = some snap → ∀ x ∈ snap.executions,
    ∃ y, w.mem.executions.lookup x.id = some y ∧ stateFromRecord x = stateFromRecord y

/-- A restart finds the states of the executions as they were last, and
no record has come to the last 64-bit revision. -/
structure Unrepeated (s : System cfg × Announced) (l : Label cfg) : Prop where
  current : l.isRestart = true → s.1.world.current
  unwrapped : ∀ k x, s.1.world.mem.executions.lookup k = some x → x.revision + 1 ≠ 0

-- ===== the invariant

/-- The response, if it announces a state, is noted. -/
def Announced.knows (seen : Announced) (e : Envelope) : Prop :=
  ∀ st, stateOf e = some st → ∃ count, (count, st) ∈ seen.told

structure Consistent (s : System cfg × Announced) : Prop where
  first : ∀ {k x}, s.1.world.mem.executions.lookup k = some x → x.revision ≠ 0
  past : ∀ {count st}, (count, st) ∈ s.2.told → count ≤ s.2.born st.executionID
  /-- The record has gone on from what was announced of it. -/
  behind : ∀ {st x}, (s.2.born st.executionID, st) ∈ s.2.told →
    s.1.world.mem.executions.lookup st.executionID = some x →
      st.revision ≤ x.revision.toNat ∧
        (st.revision = x.revision.toNat → st = stateFromRecord x)
  agree : ∀ {count st st'}, (count, st) ∈ s.2.told → (count, st') ∈ s.2.told →
    st.executionID = st'.executionID → st.revision = st'.revision → st = st'
  holding : Holding s.2.knows (fun _ => True) s.1
  returned : ∀ st ∈ s.2.returned, ∃ count, (count, st) ∈ s.2.told

theorem SameState.stateFromRecord {x x' : ExecutionRecord} (h : SameState x x') :
    stateFromRecord x' = stateFromRecord x := by
  unfold Allocator.stateFromRecord
  rw [h.id, h.phase, h.detail, h.exitCode, h.occurredAt, h.revision]

variable {l : Label cfg}

/-- A state a section builds is its record's when the section ends. -/
theorem built_state {s t : System cfg} {e : Envelope} {st : ExecutionState}
    (hw : LedgerWorld cfg t.world) (hstep : s.step l = some t) (he : e ∈ s.built l)
    (hst : stateOf e = some st) :
    ∃ x, t.world.mem.executions.lookup st.executionID = some x ∧ st = stateFromRecord x := by
  cases l with
  | run tid i =>
    obtain ⟨p, r, hp, hr, rfl⟩ := run_step hstep
    unfold System.built at he
    dsimp only at he
    rw [hp] at he
    dsimp only at he
    split at he
    next htells =>
      rw [hr] at he
      have hmade : Made cfg p i s.world r.1 e := by
        have hsourced : Sourced cfg p i s.world r.1 r.2 := advance_sourced hr
        rcases hsourced.held e he with hown | ⟨hnone, -⟩ | hnew
        · cases p <;> first | cases hown | cases htells
        · rw [hnone] at htells
          cases htells
        · exact hnew
      cases hmade with
      | told _ _ _ hx =>
        cases hst
        refine ⟨_, ?_, rfl⟩
        have hid := (hw.mem.linked.execution hx).2.1
        show AList.lookup (ExecutionRecord.id _) _ = _
        rw [hid]
        exact hx
      | _ => cases hst
    · cases he
  | _ => cases he

variable {s t : System cfg × Announced}

section Step

variable (h : Consistent s) (hok : Unrepeated s l) (hw : LedgerWorld cfg s.1.world)
  (hl : l.isRestart = false) (hstep : s.1.step l = some t.1)
include h hok hw hl hstep

/-- A state noted earlier of the record that is there now. -/
theorem Consistent.behind_step (hseen : t.2 = Announced.note s.1 l t.1 s.2) {count : Nat}
    {st : ExecutionState} {x' : ExecutionRecord} (hold : (count, st) ∈ s.2.told)
    (hcount : count = t.2.born st.executionID)
    (hx' : t.1.world.mem.executions.lookup st.executionID = some x') :
    st.revision ≤ x'.revision.toNat ∧
      (st.revision = x'.revision.toNat → st = stateFromRecord x') := by
  have hpast := h.past hold
  have hborn : t.2.born st.executionID
      = if creates s.1 l t.1 st.executionID then s.2.born st.executionID + 1
        else s.2.born st.executionID := by rw [hseen]; rfl
  -- A record created now is another one than the state was noted of.
  have hkept : creates s.1 l t.1 st.executionID = false := by
    cases hc : creates s.1 l t.1 st.executionID with
    | false => rfl
    | true =>
      rw [hc, if_pos rfl] at hborn
      omega
  rw [hkept] at hborn
  have hcur : (s.2.born st.executionID, st) ∈ s.2.told := by
    rw [hcount, hborn] at hold
    exact hold
  cases hx : s.1.world.mem.executions.lookup st.executionID with
  | none => simp [creates, hl, hx, hx'] at hkept
  | some x =>
    obtain ⟨hle, hsame⟩ := h.behind hcur hx
    have hmove := step_recordMove hw hl hstep st.executionID
    rw [hx, hx'] at hmove
    cases hmove with
    | kept hk =>
      rw [hk.revision, hk.stateFromRecord]
      exact ⟨hle, hsame⟩
    | advanced ha =>
      have hnext : x'.revision.toNat = x.revision.toNat + 1 := by
        rw [ha.revision, toNat_next_revision (hok.unwrapped _ _ hx)]
      exact ⟨by omega, fun heq => by omega⟩

/-- No step gives a record the revision 0. -/
theorem Consistent.first_step {k : GoString} {x' : ExecutionRecord}
    (hx' : t.1.world.mem.executions.lookup k = some x') : x'.revision ≠ 0 := by
  have hmove := step_recordMove hw hl hstep k
  rw [hx'] at hmove
  cases hx : s.1.world.mem.executions.lookup k with
  | none =>
    rw [hx] at hmove
    cases hmove with
    | created _ hrevision _ =>
      rw [hrevision]
      decide
  | some x =>
    rw [hx] at hmove
    cases hmove with
    | kept hk =>
      rw [hk.revision]
      exact h.first hx
    | advanced ha =>
      rw [ha.revision]
      exact hok.unwrapped k x hx

/-- A step of one process. -/
theorem Consistent.step (hw' : LedgerWorld cfg t.1.world)
    (hseen : t.2 = Announced.note s.1 l t.1 s.2) : Consistent t := by
  have htold : t.2.told = s.2.told ++ ((s.1.built l).filterMap stateOf).map fun st =>
    (t.2.born st.executionID, st) := by rw [hseen]; rfl
  have hmono : ∀ {count st}, (count, st) ∈ s.2.told → (count, st) ∈ t.2.told := by
    intro count st hmem
    rw [htold]
    exact List.mem_append_left _ hmem
  have hborn : ∀ id, s.2.born id ≤ t.2.born id := by
    intro id
    rw [hseen]
    show s.2.born id ≤ if creates s.1 l t.1 id then s.2.born id + 1 else s.2.born id
    split <;> omega
  have hnew : ∀ {count st}, (count, st) ∈ t.2.told → (count, st) ∈ s.2.told ∨
      count = t.2.born st.executionID ∧
        ∃ x, t.1.world.mem.executions.lookup st.executionID = some x ∧ st = stateFromRecord x := by
    intro count st hmem
    rw [htold] at hmem
    rcases List.mem_append.mp hmem with hold | hbuilt
    · exact .inl hold
    · obtain ⟨st', hst', heq⟩ := List.mem_map.mp hbuilt
      cases heq
      obtain ⟨e, he, hstate⟩ := List.mem_filterMap.mp hst'
      exact .inr ⟨rfl, built_state hw' hstep he hstate⟩
  have hbehind : ∀ {st x}, (t.2.born st.executionID, st) ∈ t.2.told →
      t.1.world.mem.executions.lookup st.executionID = some x →
        st.revision ≤ x.revision.toNat ∧
          (st.revision = x.revision.toNat → st = stateFromRecord x) := by
    intro st x hmem hx
    rcases hnew hmem with hold | ⟨-, x', hx', hst⟩
    · exact h.behind_step hok hw hl hstep hseen hold rfl hx
    · rw [hx] at hx'
      cases hx'
      exact ⟨by rw [hst]; exact le_refl _, fun _ => hst⟩
  have hholding : Holding t.2.knows (fun _ => True) t.1 ∧ ∀ e ∈ s.1.returned l, t.2.knows e := by
    have hgrown : Holding t.2.knows (fun _ => True) s.1 := by
      refine h.holding.mono ?_ fun _ _ => trivial
      intro e he st hst
      obtain ⟨count, hmem⟩ := he st hst
      exact ⟨count, hmono hmem⟩
    refine hgrown.step hstep ?_
    intro tid i p r hrun hp hr
    refine ⟨?_, fun _ _ => trivial⟩
    intro e he hmade st hst
    have htells : p.tells.isSome = true := by
      cases hmade with
      | told htells => rw [htells]; rfl
      | _ => cases hst
    refine ⟨t.2.born st.executionID, ?_⟩
    rw [htold]
    refine List.mem_append_right _ (List.mem_map.mpr ⟨st, ?_, rfl⟩)
    refine List.mem_filterMap.mpr ⟨e, ?_, hst⟩
    subst hrun
    unfold System.built
    dsimp only
    rw [hp]
    dsimp only
    rw [if_pos htells, hr]
    exact he
  constructor
  · exact h.first_step hok hw hl hstep
  · intro count st hmem
    rcases hnew hmem with hold | ⟨rfl, -⟩
    · exact le_trans (h.past hold) (hborn _)
    · exact le_refl _
  · exact hbehind
  · intro count st st' hmem hmem' hid hrevision
    rcases hnew hmem with hold | ⟨hcount, x, hx, hst⟩
    · rcases hnew hmem' with hold' | ⟨hcount', x', hx', hst'⟩
      · exact h.agree hold hold' hid hrevision
      · -- The older state is the record's, or an earlier one.
        rw [hcount'] at hmem
        rw [← hid] at hx'
        have hsame := (hbehind (by rw [← hid] at hmem; exact hmem) hx').2
        rw [hst'] at hrevision ⊢
        exact hsame hrevision
    · rw [hcount] at hmem'
      rw [hid] at hx
      have hsame := (hbehind (by rw [hid] at hmem'; exact hmem') hx).2
      rw [hst] at hrevision ⊢
      exact (hsame hrevision.symm).symm
  · exact hholding.1
  · intro st hmem
    have hreturned : t.2.returned = s.2.returned ++ (s.1.returned l).filterMap stateOf := by
      rw [hseen]; rfl
    rw [hreturned] at hmem
    rcases List.mem_append.mp hmem with hold | hret
    · obtain ⟨count, hcount⟩ := h.returned st hold
      exact ⟨count, hmono hcount⟩
    · obtain ⟨e, he, hstate⟩ := List.mem_filterMap.mp hret
      exact hholding.2 e he st hstate

end Step

/-- A restart that finds the states as they were last. -/
theorem Consistent.restart {granted now : Int} (h : Consistent s)
    (hcur : s.1.world.current) (hstep : s.1.step (.restart granted now) = some t.1)
    (hseen : t.2 = Announced.note s.1 (.restart granted now) t.1 s.2) : Consistent t := by
  have hsame : t.2 = s.2 := by
    rw [hseen]
    simp [Announced.note, System.built, System.returned, creates, Label.isRestart]
  obtain ⟨-, hload, -, -⟩ := restart_step hstep
  -- A record that comes back announces the state it had.
  have hback : ∀ {k x}, t.1.world.mem.executions.lookup k = some x →
      ∃ z, s.1.world.mem.executions.lookup k = some z ∧ x.revision = z.revision ∧
        stateFromRecord x = stateFromRecord z := by
    intro k x hx
    obtain ⟨-, hempty⟩ | ⟨snap, hsnap, hload⟩ := hload
    · rw [hempty] at hx
      cases hx
    obtain ⟨index, executions, used, -, hexecs, -, hm⟩ := load_ok hload
    have hx₁ : executions.lookup k = some x := by
      rw [hm] at hx
      exact hx
    obtain ⟨y, hy, hid, -, -, rfl⟩ := (lookup_loadExecutions hexecs _ x).mp hx₁
    obtain ⟨z, hz, hstate⟩ := hcur snap hsnap y hy
    rw [hid] at hz
    have hrevision : y.revision = z.revision :=
      UInt64.toNat_inj.mp (congrArg ExecutionState.revision hstate)
    have hrestored : max 1 y.revision = y.revision := by
      refine max_one_revision ?_
      rw [hrevision]
      exact h.first hz
    refine ⟨z, hz, hrestored.trans hrevision, ?_⟩
    rw [← hstate]
    unfold stateFromRecord ExecutionRecord.restore
    rw [hrestored]
  constructor
  · intro k x hx
    obtain ⟨z, hz, hrevision, -⟩ := hback hx
    rw [hrevision]
    exact h.first hz
  · rw [hsame]
    exact h.past
  · rw [hsame]
    intro st x hmem hx
    obtain ⟨z, hz, hrevision, hstate⟩ := hback hx
    rw [hrevision, hstate]
    exact h.behind hmem hz
  · rw [hsame]
    exact h.agree
  · rw [hsame]
    exact h.holding.restart hstep
  · rw [hsame]
    exact h.returned

/-- In every run whose restarts find the states as they were last, and
in which no revision wraps, two states announced of one execution under
one revision are the same, and every state a call returned was so
announced. -/
theorem announced_states_agree (cfg : Config) {s : System cfg × Announced}
    (hs : (announcing cfg).ReachWhen Unrepeated s) :
    (∀ st ∈ s.2.returned, ∃ count, (count, st) ∈ s.2.told) ∧
      ∀ count st st', (count, st) ∈ s.2.told → (count, st') ∈ s.2.told →
        st.executionID = st'.executionID → st.revision = st'.revision →
          st.phase = st'.phase ∧ st.occurredAt = st'.occurredAt ∧ st.detail = st'.detail ∧
            st.exitCode = st'.exitCode := by
  have hinv : Consistent s := by
    refine hs.observed (I := fun s seen => Consistent (s, seen)) ?_ ?_
    · rintro s rfl
      exact ⟨nofun, nofun, nofun, nofun, .initial, nofun⟩
    · intro s l t seen hs ht h hok hstep
      by_cases hl : l.isRestart = false
      · exact h.step hok (ledgerWorld_reachable hs) hl hstep (ledgerWorld_reachable ht) rfl
      · obtain ⟨granted, now, rfl⟩ := l.restarts hl
        exact h.restart (hok.current rfl) hstep rfl
  refine ⟨hinv.returned, ?_⟩
  intro count st st' hmem hmem' hid hrevision
  rw [hinv.agree hmem hmem' hid hrevision]
  exact ⟨rfl, rfl, rfl, rfl⟩

-- ===== samples

def inspectCommand : Inbound oneSlot :=
  ⟨fromAlice (text "m4") (.executionInspect ⟨text "x"⟩), by decide +kernel⟩

/-- The start of "x" returns and its caller is told; `saved` is the
outcome of the two saves. -/
def startedRun (saved : SaveIn) : List (Label oneSlot) :=
  requestRun ++ assignRun ++
    [.run 1 { now := epoch, later := epoch, id := text "a2", saved := saved },
      .run 1 { now := epoch, saved := saved }]

/-- A restart, recovery a minute later, and an inspection of "x". -/
def recoveredRun : List (Label oneSlot) :=
  [ .restart epoch epoch, .recover 0, .run 0 { now := epoch + minute },
    .run 0 { now := epoch + minute }, .run 0 { now := epoch + minute },
    .call 2 inspectCommand, .run 2 { now := epoch + minute }, .run 2 { now := epoch + minute },
    .run 2 { now := epoch + minute, id := text "a3" }, .run 2 { now := epoch + minute } ]

/-- Both saves after the start fail: the caller is told RUNNING, the
restart finds STARTING, and recovery makes RUNNING of it once more. -/
theorem lost_save_forks_states :
    ∃ s, (announcing oneSlot).Reach s ∧ ∃ st st', st ∈ s.2.returned ∧ st' ∈ s.2.returned ∧
      (1, st) ∈ s.2.told ∧ (1, st') ∈ s.2.told ∧ st.executionID = text "x" ∧
        st'.executionID = text "x" ∧ st.revision = st'.revision ∧
          st.occurredAt ≠ st'.occurredAt := by
  obtain ⟨s, hs, hp⟩ := (announcing oneSlot).exists_reach (.observe rfl)
    (startedRun { fault := some ⟨[], text "disk full"⟩ } ++ recoveredRun)
    (fun s => ∃ st ∈ s.2.returned, ∃ st' ∈ s.2.returned, (1, st) ∈ s.2.told ∧
      (1, st') ∈ s.2.told ∧ st.executionID = text "x" ∧ st'.executionID = text "x" ∧
        st.revision = st'.revision ∧ st.occurredAt ≠ st'.occurredAt) (by decide +kernel)
  obtain ⟨st, hst, st', hst', hp⟩ := hp
  exact ⟨s, hs, st, st', hst, hst', hp⟩

/-- `Unrepeated`, as it is evaluated. -/
def unrepeated (s : System cfg × Announced) (l : Label cfg) : Bool :=
  (!l.isRestart || s.1.world.disk.all fun snap => snap.executions.all fun x =>
    (s.1.world.mem.executions.lookup x.id).any fun y =>
      decide (stateFromRecord x = stateFromRecord y)) &&
  !s.1.world.mem.executions.any fun _ x => x.revision + 1 = 0

theorem unrepeated_of_eval (s : System cfg × Announced) (l : Label cfg)
    (h : unrepeated s l = true) : Unrepeated s l := by
  obtain ⟨hcurrent, hwraps⟩ := Bool.and_eq_true_iff.mp h
  refine ⟨?_, ?_⟩
  · intro hrestart snap hsnap x hx
    rw [hrestart, hsnap] at hcurrent
    obtain ⟨y, hy, heq⟩ := (Option.any_eq_true _ _).mp (List.all_eq_true.mp hcurrent x hx)
    exact ⟨y, hy, of_decide_eq_true heq⟩
  · intro k x hx hwrap
    have hany : (s.1.world.mem.executions.any fun _ x => x.revision + 1 = 0) = true :=
      AList.any_eq_true.mpr ⟨k, x, hx, decide_eq_true hwrap⟩
    rw [hany] at hwraps
    cases hwraps

/-- With both saves made, the restart goes on from what was told. -/
theorem saved_states_agree :
    ∃ s, (announcing oneSlot).ReachWhen Unrepeated s ∧ s.2.returned.length = 2 ∧
      (∀ st ∈ s.2.returned, ∃ count, (count, st) ∈ s.2.told) ∧
      ∀ count st st', (count, st) ∈ s.2.told → (count, st') ∈ s.2.told →
        st.executionID = st'.executionID → st.revision = st'.revision →
          st.phase = st'.phase ∧ st.occurredAt = st'.occurredAt ∧ st.detail = st'.detail ∧
            st.exitCode = st'.exitCode := by
  obtain ⟨s, hs, hp⟩ := (announcing oneSlot).exists_reachWhen
    (fun s l => unrepeated s l = true) (.observe rfl)
    (startedRun {} ++ recoveredRun) (fun s => s.2.returned.length = 2) (by decide +kernel)
  have hs := hs.mono unrepeated_of_eval
  exact ⟨s, hs, hp, announced_states_agree oneSlot hs⟩

end R1s.Allocator
