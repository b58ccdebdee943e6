/-
The loop of the lease eviction. `EvictExpiredLeases` reads the records
again under the lock for each round, and stops the runtime's task outside
it, so other calls move records in and out of the expired ones while it
runs.

# What bounds it

A stop that succeeds leaves its execution terminal or gone, and a record
that is terminal stays so until a sweep takes it. The loop meets the same
ID twice only when the ID was assigned again in between, and an
assignment is a step of another call that changes the records
(`Counted`). A stop that fails ends the loop.
-/
import R1s.Allocator.Proofs.Bindings

namespace R1s.Allocator

variable {cfg : Config} {s t : System cfg} {l : Label cfg} {tid : Nat} {i : Input}
  {w w' : World} {id k : GoString}

-- ===== the loop

/-- The points of the loop. -/
def Pc.evicts : Pc cfg → Bool
  | .evicting .. | .evictStopping .. => true
  | _ => false

/-- The execution whose stop the loop waits for. -/
def Pc.evictee : Pc cfg → Option GoString
  | .evictStopping _ _ id _ _ => some id
  | _ => none

/-- The call stands in the loop. -/
def System.evicting (s : System cfg) (tid : Nat) : Bool := (s.threads.lookup tid).any Pc.evicts

def System.evictee (s : System cfg) (tid : Nat) : Option GoString :=
  (s.threads.lookup tid).bind Pc.evictee

/-- The executions whose lease has expired. -/
def Mem.lapsed (m : Mem) (now : Int) : Finset GoString :=
  ((m.executions.entries.filter fun entry => entry.2.leaseExpired now).map (·.1)).toFinset

/-- Some execution's record is another. -/
def Mem.differs (m m' : Mem) : Bool :=
  (m.executions.keys ++ m'.executions.keys).any fun k =>
    decide (m.executions.lookup k ≠ m'.executions.lookup k)

/-- The step is a section of the call. -/
def Label.runs (tid : Nat) : Label cfg → Bool
  | .run t _ => t == tid
  | _ => false

/-- What an observer notes of one call of `EvictExpiredLeases`: the number
of executions when it was entered, its sections, the stops it called the
runtime for, the executions expired at one of its sections, and the
steps of others that changed a record. -/
structure Eviction where
  size : Nat := 0
  sections : Nat := 0
  stops : List GoString := []
  expired : Finset GoString := ∅
  transitions : Nat := 0

/-- The observer starts anew when the call enters the loop and notes
nothing once it has left it. -/
def Eviction.note (tid : Nat) (s : System cfg) (l : Label cfg) (t : System cfg)
    (e : Eviction) : Eviction :=
  if s.evicting tid then
    if l.runs tid then
      { e with
        sections := e.sections + 1
        stops := e.stops ++ (t.evictee tid).toList
        expired := e.expired ∪ s.world.mem.lapsed (max l.input.now s.world.mem.highWater) }
    else { e with transitions := e.transitions + (s.world.mem.differs t.world.mem).toNat }
  else if t.evicting tid then { size := t.world.mem.executions.size }
  else e

/-- The allocator beside the observer of the eviction calls of `tid`. -/
def evictions (cfg : Config) (tid : Nat) : TransitionSystem (System cfg × Eviction) (Label cfg) :=
  (machine cfg).observe {} (Eviction.note tid)

variable {m : Mem}

theorem mem_lapsed {now : Int} :
    id ∈ m.lapsed now ↔ ∃ x, m.executions.lookup id = some x ∧ x.leaseExpired now = true := by
  unfold Mem.lapsed
  simp only [List.mem_toFinset, List.mem_map, List.mem_filter]
  constructor
  · rintro ⟨⟨k, x⟩, ⟨hmem, hlapsed⟩, rfl⟩
    exact ⟨x, AList.mem_entries.mp hmem, hlapsed⟩
  · rintro ⟨x, hx, hlapsed⟩
    exact ⟨⟨id, x⟩, ⟨AList.mem_entries.mpr hx, hlapsed⟩, rfl⟩

theorem differs_of_lookup {m' : Mem} (h : m.executions.lookup k ≠ m'.executions.lookup k) :
    m.differs m' = true := by
  unfold Mem.differs
  rw [List.any_eq_true]
  refine ⟨k, ?_, decide_eq_true h⟩
  rw [List.mem_append]
  by_cases hk : k ∈ m.executions
  · exact .inl hk
  · refine .inr ?_
    rw [AList.lookup_eq_none.mpr hk] at h
    by_contra hk'
    exact h (AList.lookup_eq_none.mpr hk').symm

-- ===== what can happen

theorem live_iff :
    m.live id = true ↔ ∃ x, m.executions.lookup id = some x ∧ x.phase.terminal = false := by
  unfold Mem.live
  rw [Option.any_eq_true]
  simp only [Bool.not_eq_true']

theorem known_of_live (h : m.live id = true) : m.executions.lookup id ≠ none := by
  obtain ⟨x, hx, -⟩ := live_iff.mp h
  rw [hx]
  exact Option.some_ne_none x

section Steps

variable (hs : (machine cfg).Reach s) (hl : l.isRestart = false) (hstep : s.step l = some t)
include hs hl hstep

/-- A record is new only after an assignment, which leads the call to the
runtime's start. -/
theorem created_by (hnone : s.world.mem.executions.lookup k = none)
    (hsome : t.world.mem.executions.lookup k ≠ none) :
    ∃ tid i e, l = .run tid i ∧ s.threads.lookup tid = some (.handling e) ∧
      t.threads.lookup tid = some (.starting e k) := by
  cases step_move hl hstep with
  | @run tid pc i r hpc hr =>
    have hrecord : RecordStep pc i r.2 s.world.mem.highWater k
        (s.world.mem.executions.lookup k) (r.1.mem.executions.lookup k) :=
      advance_record (ledgerWorld_reachable hs) hr k
    change r.1.mem.executions.lookup k ≠ none at hsome
    rw [hnone] at hrecord
    generalize r.1.mem.executions.lookup k = after at hrecord hsome
    cases hrecord with
    | same => exact absurd rfl hsome
    | @assigned e q offer hhandling hq hk hnext =>
      refine ⟨tid, i, e, rfl, hhandling ▸ hpc, ?_⟩
      rw [resume_self, hnext]
      rfl
  | completed c i =>
    have hcompleted : SameExecutions s.world.mem (runtimeCompleted cfg i c s.world).1.mem ∨ _ :=
      runtimeCompleted_executions i c s.world
    rcases hcompleted with hsame | ⟨x, hx, -, hset⟩
    · exact absurd ((hsame k).trans hnone) hsome
    · refine absurd ?_ hsome
      rw [hset k, if_neg]
      · exact hnone
      · rintro rfl
        rw [hx] at hnone
        cases hnone
  | entered => exact absurd hnone hsome
  | quiet hsame => exact absurd ((congrArg (AList.lookup k) hsame).trans hnone) hsome

/-- A known execution that is live was so before. -/
theorem live_before (hlive : t.world.mem.live id = true)
    (hknown : s.world.mem.executions.lookup id ≠ none) : s.world.mem.live id = true := by
  obtain ⟨x, hx⟩ := Option.ne_none_iff_exists'.mp hknown
  obtain ⟨y, hy, hactive⟩ := live_iff.mp hlive
  by_cases hend : x.phase.terminal = true
  · rcases ended_step hs hl hstep (ended_iff.mpr ⟨x, hx, hend⟩) with hended | ⟨-, hgone⟩
    · obtain ⟨z, hz, hterminal⟩ := ended_iff.mp hended
      rw [hy] at hz
      cases hz
      rw [hactive] at hterminal
      cases hterminal
    · rw [hy] at hgone
      cases hgone
  · exact live_iff.mpr ⟨x, hx, by simpa using hend⟩

/-- A step adds one record at most. -/
theorem created_few :
    ∃ new : Finset GoString, new.card ≤ (s.world.mem.differs t.world.mem).toNat ∧
      ∀ id, t.world.mem.executions.lookup id ≠ none →
        id ∈ new ∨ s.world.mem.executions.lookup id ≠ none := by
  by_cases hnew : ∃ k, s.world.mem.executions.lookup k = none ∧
      t.world.mem.executions.lookup k ≠ none
  · obtain ⟨k, hnone, hsome⟩ := hnew
    obtain ⟨tid, i, e, rfl, -, hstart⟩ := created_by hs hl hstep hnone hsome
    have hdiffers : s.world.mem.differs t.world.mem = true := by
      refine differs_of_lookup (k := k) ?_
      rw [hnone]
      exact Ne.symm hsome
    refine ⟨{k}, by rw [hdiffers]; simp, fun id hthere => ?_⟩
    by_cases hold : s.world.mem.executions.lookup id = none
    · -- The call went to the start of one execution.
      obtain ⟨_, _, _, heq, -, hstart'⟩ := created_by hs hl hstep hold hthere
      cases heq
      rw [hstart] at hstart'
      cases hstart'
      exact .inl (Finset.mem_singleton_self _)
    · exact .inr hold
  · refine ⟨∅, Nat.zero_le _, fun id hthere => .inr fun hnone => hnew ⟨id, hnone, hthere⟩⟩

end Steps

theorem leaseExpired_active {now : Int} {x : ExecutionRecord}
    (h : x.leaseExpired now = true) : x.phase.terminal = false := by
  simp only [ExecutionRecord.leaseExpired, Bool.and_eq_true, Bool.not_eq_true'] at h
  exact h.1.1.1

variable {pc : Pc cfg}

/-- Others leave a call in the loop where it stands. -/
theorem stays_evicting (hl : l.isRestart = false) (hother : l.runs tid = false)
    (hstep : s.step l = some t) (hpc : s.threads.lookup tid = some pc)
    (hevicts : pc.evicts = true) : t.threads.lookup tid = some pc := by
  cases step_move hl hstep with
  | @run tid' pc' i r hpc' hr =>
    have hne : tid ≠ tid' := by
      rintro rfl
      simp [Label.runs] at hother
    -- The points of the loop are none that a published reply wakes.
    let g : Pc cfg → Option (Pc cfg) := fun pc => if pc.evicts then some pc else none
    have hsame : ((s.resume tid' pc' i r).threads.lookup tid).bind g = _ :=
      resume_other g (fun _ _ _ => rfl) s hne pc' i r
    rw [hpc, Option.bind_some, show g pc = some pc from if_pos hevicts,
      Option.bind_eq_some_iff] at hsame
    obtain ⟨pc₁, hpc₁, hg⟩ := hsame
    by_cases h₁ : pc₁.evicts = true
    · rw [show g pc₁ = some pc₁ from if_pos h₁] at hg
      rw [hpc₁, hg]
    · rw [show g pc₁ = none from if_neg h₁] at hg
      cases hg
  | completed | quiet => exact hpc
  | @entered _ tid' pc' hfree hentry =>
    rw [AList.lookup_insert_ne]
    · exact hpc
    · rintro rfl
      rw [hpc] at hfree
      cases hfree

/-- No call comes into the loop waiting for a stop. -/
theorem evictee_fresh (hl : l.isRestart = false) (hstep : s.step l = some t)
    (hout : s.evicting tid = false) : t.evictee tid = none := by
  have hbefore : s.evictee tid = none := by
    unfold System.evictee
    unfold System.evicting at hout
    cases hpc : s.threads.lookup tid with
    | none => rfl
    | some pc =>
      rw [hpc] at hout
      cases pc <;> first | rfl | cases hout
  by_contra hsome
  obtain ⟨id, hid⟩ := Option.ne_none_iff_exists'.mp hsome
  unfold System.evictee at hid hbefore
  cases step_move hl hstep with
  | @run tid' pc i r hpc hr =>
    rcases resume_bind Pc.evictee (fun _ _ _ => rfl) hid with ⟨-, hold⟩ | ⟨rfl, pc', hgo, hevictee⟩
    · rw [hbefore] at hold
      cases hold
    · unfold System.evicting at hout
      rw [hpc] at hout
      have hsucc : pc.Succ pc' := advance_succ (hr.trans (by rw [← hgo]))
      cases hsucc
      case evictStopping => cases hout
      all_goals cases hevictee
  | completed =>
    rw [hbefore] at hid
    cases hid
  | entered hfree hentry =>
    have hnone : ∀ pc : Pc cfg, pc.entry = true → pc.evictee = none := by
      intro pc hpc
      cases pc <;> first | rfl | cases hpc
    have hentered : Entered s { s with threads := s.threads.insert _ _ } :=
      .inr ⟨_, _, hfree, hentry, rfl⟩
    rw [hentered.bind hnone hid] at hbefore
    cases hbefore
  | quiet =>
    rw [hbefore] at hid
    cases hid

/-- An eviction that succeeds leaves its execution terminal or gone. -/
theorem evictFinish_not_live {previous : ActivePhase} {detail : GoString}
    (h : (evictFinish cfg i id previous detail w).2 = none) :
    (evictFinish cfg i id previous detail w).1.mem.live id = false := by
  rw [Bool.eq_false_iff]
  intro hlive
  obtain ⟨y, hy, hactive⟩ := live_iff.mp hlive
  unfold evictFinish at h hy
  split at h
  next hnone =>
    rw [hnone] at hy
    cases hy.symm.trans hnone
  rename_i x hx
  rw [hx] at hy
  split at h
  · cases h
  rename_i hok
  rw [hok, tryPersist_mem] at hy
  cases hy.symm.trans ((stopSucceeded_set hx i.now id).trans (if_pos rfl))
  rw [stopped_terminal ⟨.failed, rfl⟩] at hactive
  cases hactive

/-- What a section of the loop leads to. -/
inductive EvictTurn (i : Input) (w : World) (pc : Pc cfg) (r : World × Next cfg) : Prop
  /-- The next expired execution is to be stopped. -/
  | stops {id : GoString} {x : ExecutionRecord} (hbefore : pc.evictee = none)
      (hx : w.mem.executions.lookup id = some x)
      (hlapsed : x.leaseExpired (max i.now w.mem.highWater) = true)
      (hafter : r.2.pc.bind Pc.evictee = some id)
  /-- The stop succeeded. -/
  | stopped {id : GoString} (hbefore : pc.evictee = some id)
      (hafter : r.2.pc.bind Pc.evictee = none) (hgone : r.1.mem.live id = false)
  | left (hafter : r.2.pc.any Pc.evicts = false) (hnone : r.2.pc.bind Pc.evictee = none)

theorem evicted_leaves (sweep : Bool) (err : Option GoErr) :
    (evicted sweep err : Next cfg).pc.any Pc.evicts = false ∧
      (evicted sweep err : Next cfg).pc.bind Pc.evictee = none := by
  cases sweep <;> exact ⟨rfl, rfl⟩

theorem evicts_turn {r : World × Next cfg} (hevicts : pc.evicts = true)
    (hr : advance tid pc i w = some r) : EvictTurn i w pc r := by
  cases pc with
  | evicting sweep err =>
    obtain ⟨⟨w₁, outcome⟩, hround, rfl⟩ := Option.map_eq_some_iff.mp hr
    cases outcome with
    | idle | failed =>
      exact .left (evicted_leaves sweep _).1 (evicted_leaves sweep _).2
    | stop id previous detail =>
      cases advance_condemns hr rfl with
      | evicted hactive hpc hx hx' hlapsed => exact .stops rfl hx hlapsed rfl
  | evictStopping sweep err id previous detail =>
    cases hr
    by_cases herr : (evictFinish cfg i id previous detail w).2.isSome = true
    · refine .left ?_ ?_
      all_goals
        unfold evictStopped
        dsimp only
        rw [if_pos herr]
      · exact (evicted_leaves sweep _).1
      · exact (evicted_leaves sweep _).2
    · refine .stopped rfl ?_ (evictFinish_not_live (by simpa using herr))
      unfold evictStopped
      dsimp only
      rw [if_neg herr]
      rfl
  | _ => cases hevicts

-- ===== the counts

/-- What the observer has noted of a call that stands in the loop. -/
structure Counted (tid : Nat) (s : System cfg) (e : Eviction) : Prop where
  /-- Every repeated stop, and every ID that may be stopped once more,
  took a change of the records by another call. -/
  again : e.stops.length
      + (e.stops.toFinset.filter fun id =>
        s.world.mem.live id = true ∧ s.evictee tid ≠ some id).card
    ≤ e.stops.toFinset.card + e.transitions
  expired : e.stops.toFinset ⊆ e.expired
  /-- Every execution of the call was there when it was entered or is new. -/
  known : ∃ ids : Finset GoString, ids.card ≤ e.size + e.transitions ∧ e.expired ⊆ ids ∧
    ∀ id, s.world.mem.executions.lookup id ≠ none → id ∈ ids
  sections : e.sections + (s.evictee tid).toList.length ≤ 2 * e.stops.length

/-- What stays true of the notes when the call has left the loop. -/
structure Eviction.Bounded (e : Eviction) : Prop where
  stops : e.stops.length ≤ e.expired.card + e.transitions
  expired : e.expired.card ≤ e.size + e.transitions
  sections : e.sections ≤ 2 * e.stops.length + 1

variable {e : Eviction}

theorem Counted.bounded (h : Counted tid s e) : e.Bounded := by
  have hagain := h.again
  have hcard := Finset.card_le_card h.expired
  have hsections := h.sections
  obtain ⟨ids, hsize, hsub, -⟩ := h.known
  have hids := Finset.card_le_card hsub
  exact ⟨by omega, by omega, by omega⟩

/-- Counting an element once more: either it is new, or it was one of
those that passed `p`. -/
theorem card_filter_insert {α : Type*} [DecidableEq α] {S : Finset α} {a : α} {p q : α → Prop}
    [DecidablePred p] [DecidablePred q] (hq : ∀ k, q k → p k ∧ k ≠ a) (ha : p a) :
    1 + ((insert a S).filter q).card + S.card ≤ (insert a S).card + (S.filter p).card := by
  have hsub : (insert a S).filter q ⊆ (S.filter p).erase a := by
    intro k hk
    obtain ⟨hmem, hqk⟩ := Finset.mem_filter.mp hk
    obtain ⟨hpk, hne⟩ := hq k hqk
    refine Finset.mem_erase.mpr ⟨hne, Finset.mem_filter.mpr ⟨?_, hpk⟩⟩
    exact Finset.mem_of_mem_insert_of_ne hmem hne
  have hcard := Finset.card_le_card hsub
  by_cases hmem : a ∈ S
  · have hone := Finset.card_erase_add_one (Finset.mem_filter.mpr ⟨hmem, ha⟩)
    rw [Finset.insert_eq_of_mem hmem] at hcard ⊢
    omega
  · have hle := Finset.card_le_card (Finset.erase_subset a (S.filter p))
    rw [Finset.card_insert_of_notMem hmem]
    omega

/-- A call that enters the loop has done nothing yet. -/
theorem Counted.entered (hout : t.evictee tid = none) :
    Counted tid t { size := t.world.mem.executions.size } := by
  refine ⟨by simp, by simp, ⟨t.world.mem.executions.keys.toFinset, ?_, by simp, ?_⟩, ?_⟩
  · show _ ≤ t.world.mem.executions.size + 0
    have hlength : t.world.mem.executions.keys.length = t.world.mem.executions.size :=
      List.length_map _
    have hcard := List.toFinset_card_le t.world.mem.executions.keys
    omega
  · intro id hid
    rw [List.mem_toFinset]
    by_contra hnot
    exact hid (AList.lookup_eq_none.mpr hnot)
  · rw [hout]
    exact Nat.le_refl _

/-- The steps of others: the one record they may add makes one ID more
that may be stopped again. -/
theorem Counted.other (h : Counted tid s e) (hs : (machine cfg).Reach s)
    (hl : l.isRestart = false) (hstep : s.step l = some t) (hsame : t.evictee tid = s.evictee tid) :
    Counted tid t
      { e with transitions := e.transitions + (s.world.mem.differs t.world.mem).toNat } := by
  obtain ⟨new, hcard, hbefore⟩ := created_few hs hl hstep
  obtain ⟨ids, hsize, hsub, hids⟩ := h.known
  refine ⟨?_, h.expired, ⟨new ∪ ids, ?_, hsub.trans Finset.subset_union_right, ?_⟩, ?_⟩
  · have hfilter : (e.stops.toFinset.filter fun id =>
    t.world.mem.live id = true ∧ t.evictee tid ≠ some id)
        ⊆ new ∪ (e.stops.toFinset.filter fun id =>
          s.world.mem.live id = true ∧ s.evictee tid ≠ some id) := by
      intro id hid
      obtain ⟨hmem, hlive, hne⟩ := Finset.mem_filter.mp hid
      rw [Finset.mem_union]
      refine (hbefore id (known_of_live hlive)).imp_right fun hknown => ?_
      refine Finset.mem_filter.mpr ⟨hmem, ?_, hsame ▸ hne⟩
      exact live_before hs hl hstep hlive hknown
    have hle := (Finset.card_le_card hfilter).trans (Finset.card_union_le _ _)
    have hagain := h.again
    dsimp only
    omega
  · have hunion := Finset.card_union_le new ids
    dsimp only
    omega
  · intro id hthere
    rw [Finset.mem_union]
    exact (hbefore id hthere).imp_right (hids id)
  · rw [hsame]
    exact h.sections

/-- A section of the loop adds no record. -/
theorem evicts_known (hs : (machine cfg).Reach s) (hpc : s.threads.lookup tid = some pc)
    (hevicts : pc.evicts = true) (hstep : s.step (.run tid i) = some t)
    (hthere : t.world.mem.executions.lookup id ≠ none) :
    s.world.mem.executions.lookup id ≠ none := by
  intro hnone
  obtain ⟨_, _, e, heq, hhandling, -⟩ := created_by hs rfl hstep hnone hthere
  cases heq
  rw [hpc] at hhandling
  cases hhandling
  cases hevicts

/-- The sections of the call: an ID that is stopped again was one of those
that may be. -/
theorem Counted.own (h : Counted tid s e) (hs : (machine cfg).Reach s) {r : World × Next cfg}
    (hpc : s.threads.lookup tid = some pc) (hevicts : pc.evicts = true)
    (hr : advance tid pc i s.world = some r)
    (hstep : s.step (.run tid i) = some (s.resume tid pc i r)) : let t := s.resume tid pc i r
    let e' : Eviction :=
      { e with
        sections := e.sections + 1
        stops := e.stops ++ (t.evictee tid).toList
        expired := e.expired ∪ s.world.mem.lapsed (max i.now s.world.mem.highWater) }
    (t.evicting tid = true → Counted tid t e') ∧ e'.Bounded := by
  intro t e'
  have hat : s.evictee tid = pc.evictee := by
    unfold System.evictee
    rw [hpc]
    rfl
  have hself : t.threads.lookup tid = r.2.pc := resume_self s tid pc i r
  have hevictee : t.evictee tid = r.2.pc.bind Pc.evictee := congrArg (Option.bind · _) hself
  have hlive : ∀ {id}, t.world.mem.live id = true → s.world.mem.live id = true := fun hlive =>
    live_before hs rfl hstep hlive (evicts_known hs hpc hevicts hstep (known_of_live hlive))
  have hknown : ∃ ids : Finset GoString, ids.card ≤ e'.size + e'.transitions ∧
      e'.expired ⊆ ids ∧ ∀ id, t.world.mem.executions.lookup id ≠ none → id ∈ ids := by
    obtain ⟨ids, hsize, hsub, hids⟩ := h.known
    refine ⟨ids, hsize, Finset.union_subset hsub fun id hid => ?_, fun id hthere =>
      hids id (evicts_known hs hpc hevicts hstep hthere)⟩
    obtain ⟨x, hx, -⟩ := mem_lapsed.mp hid
    exact hids id (by rw [hx]; exact Option.some_ne_none x)
  have hagain := h.again
  have hsections := h.sections
  rw [hat] at hsections
  cases evicts_turn hevicts hr with
  | @stops id x hbefore hx hlapsed hafter =>
    have hstops : e'.stops = e.stops ++ [id] := by
      show e.stops ++ (t.evictee tid).toList = _
      rw [hevictee, hafter]
      rfl
    have hset : e'.stops.toFinset = insert id e.stops.toFinset := by
      rw [hstops]
      ext k
      simp
    have hcounted : Counted tid t e' := by
      refine ⟨?_, ?_, hknown, ?_⟩
      · have hcount := card_filter_insert (S := e.stops.toFinset) (a := id)
          (p := fun k => s.world.mem.live k = true ∧ s.evictee tid ≠ some k)
          (q := fun k => t.world.mem.live k = true ∧ t.evictee tid ≠ some k) ?_ ?_
        · rw [hset, hstops, List.length_append]
          show e.stops.length + 1 + _ ≤ _ + e.transitions
          omega
        · rintro k ⟨hlive', hne⟩
          rw [hevictee, hafter] at hne
          refine ⟨⟨hlive hlive', ?_⟩, fun hk => hne (congrArg some hk.symm)⟩
          rw [hat, hbefore]
          rintro ⟨⟩
        · refine ⟨live_iff.mpr ⟨x, hx, leaseExpired_active hlapsed⟩, ?_⟩
          rw [hat, hbefore]
          rintro ⟨⟩
      · rw [hset]
        refine Finset.insert_subset ?_ (h.expired.trans Finset.subset_union_left)
        exact Finset.mem_union_right _ (mem_lapsed.mpr ⟨x, hx, hlapsed⟩)
      · rw [hevictee, hafter, hstops]
        rw [hbefore] at hsections
        show e.sections + 1 + 1 ≤ 2 * (e.stops ++ [id]).length
        rw [List.length_append]
        show _ ≤ 2 * (e.stops.length + 1)
        omega
    exact ⟨fun _ => hcounted, hcounted.bounded⟩
  | @stopped id hbefore hafter hgone =>
    have hstops : e'.stops = e.stops := by
      show e.stops ++ (t.evictee tid).toList = _
      rw [hevictee, hafter]
      exact List.append_nil _
    have hcounted : Counted tid t e' := by
      refine ⟨?_, ?_, hknown, ?_⟩
      · have hsub : (e.stops.toFinset.filter fun k =>
        t.world.mem.live k = true ∧ t.evictee tid ≠ some k)
            ⊆ e.stops.toFinset.filter fun k =>
              s.world.mem.live k = true ∧ s.evictee tid ≠ some k := by
          intro k hk
          obtain ⟨hmem, hlive', -⟩ := Finset.mem_filter.mp hk
          refine Finset.mem_filter.mpr ⟨hmem, hlive hlive', ?_⟩
          rw [hat, hbefore]
          rintro ⟨⟩
          change r.1.mem.live id = true at hlive'
          rw [hgone] at hlive'
          cases hlive'
        have hcard := Finset.card_le_card hsub
        rw [hstops]
        show e.stops.length + _ ≤ _ + e.transitions
        omega
      · rw [hstops]
        exact h.expired.trans Finset.subset_union_left
      · rw [hevictee, hafter, hstops]
        rw [hbefore] at hsections
        exact hsections
    exact ⟨fun _ => hcounted, hcounted.bounded⟩
  | left hafter hnone =>
    have hstops : e'.stops = e.stops := by
      show e.stops ++ (t.evictee tid).toList = _
      rw [hevictee, hnone]
      exact List.append_nil _
    refine ⟨fun hin => ?_, ?_⟩
    · unfold System.evicting at hin
      rw [hself, hafter] at hin
      cases hin
    · obtain ⟨ids, hsize, hsub, -⟩ := hknown
      have hcard := Finset.card_le_card hsub
      have hstopped := h.bounded.stops
      have hgrown : e.expired.card ≤ e'.expired.card :=
        Finset.card_le_card Finset.subset_union_left
      refine ⟨?_, by omega, ?_⟩
      · rw [hstops]
        show e.stops.length ≤ e'.expired.card + e.transitions
        omega
      · rw [hstops]
        show e.sections + 1 ≤ _
        omega

-- ===== all runs

theorem Eviction.Bounded.later (h : e.Bounded) (n : Nat) :
    Eviction.Bounded { e with transitions := e.transitions + n } := by
  obtain ⟨hstops, hexpired, hsections⟩ := h
  refine ⟨?_, ?_, hsections⟩
  all_goals
    dsimp only
    omega

theorem counted_reachable {s : System cfg × Eviction} (hs : (evictions cfg tid).Reach s) :
    (s.1.evicting tid = true → Counted tid s.1 s.2) ∧ s.2.Bounded := by
  refine hs.observed (I := fun s e => (s.evicting tid = true → Counted tid s e) ∧ e.Bounded) ?_ ?_
  · rintro s rfl
    exact ⟨nofun, ⟨Nat.zero_le _, Nat.zero_le _, Nat.zero_le _⟩⟩
  · rintro s l t e hs - ⟨hcounted, hbounded⟩ - hstep
    unfold Eviction.note
    by_cases hin : s.evicting tid = true
    · rw [if_pos hin]
      have hnow := hcounted hin
      obtain ⟨pc, hpc, hevicts⟩ : ∃ pc, s.threads.lookup tid = some pc ∧ pc.evicts = true := by
        unfold System.evicting at hin
        rwa [Option.any_eq_true] at hin
      by_cases hown : l.runs tid = true
      · rw [if_pos hown]
        obtain ⟨i, rfl⟩ : ∃ i, l = .run tid i := by
          cases l with
          | run tid' i => exact ⟨i, by rw [show tid' = tid from beq_iff_eq.mp hown]⟩
          | _ => cases hown
        obtain ⟨pc', hpc', hrun⟩ := Option.bind_eq_some_iff.mp hstep
        rw [hpc] at hpc'
        cases hpc'
        obtain ⟨r, hr, rfl⟩ := Option.map_eq_some_iff.mp hrun
        exact hnow.own hs hpc hevicts hr hstep
      · rw [if_neg hown]
        refine ⟨fun hin' => ?_, hbounded.later _⟩
        cases hl : l.isRestart with
        | true =>
          -- A restart ends every call.
          cases l with
          | restart granted now =>
            obtain ⟨-, -, -, hthreads⟩ := restart_step hstep
            unfold System.evicting at hin'
            rw [hthreads] at hin'
            cases hin'
          | _ => cases hl
        | false =>
          have hthere := stays_evicting hl (by simpa using hown) hstep hpc hevicts
          refine hnow.other hs hl hstep ?_
          unfold System.evictee
          rw [hthere, hpc]
    · rw [if_neg hin]
      by_cases hin' : t.evicting tid = true
      · rw [if_pos hin']
        have hl : l.isRestart = false := by
          cases l with
          | restart granted now =>
            obtain ⟨-, -, -, hthreads⟩ := restart_step hstep
            unfold System.evicting at hin'
            rw [hthreads] at hin'
            cases hin'
          | _ => rfl
        have hfresh := Counted.entered (evictee_fresh hl hstep (by simpa using hin))
        exact ⟨fun _ => hfresh, hfresh.bounded⟩
      · rw [if_neg hin']
        exact ⟨fun h => absurd h hin', hbounded⟩

/-- Some expired lease comes first in the map's order. -/
theorem evictBegin_goes_on (i : Input) (w : World) :
    ∃ pick, (evictBegin cfg { i with pick := pick } w).isSome = true := by
  by_cases hany : ((effectiveNow i.now w.mem).executions.any fun _ r =>
    r.leaseExpired (effectiveNow i.now w.mem).highWater) = true
  · obtain ⟨id, x, hx, hlapsed⟩ := AList.any_eq_true.mp hany
    refine ⟨id, ?_⟩
    unfold evictBegin
    dsimp only [World.setMem]
    rw [if_pos hany, hx]
    dsimp only
    rw [dif_pos hlapsed]
    split
    · rfl
    · split
      · rfl
      · rfl
  · refine ⟨[], ?_⟩
    unfold evictBegin
    dsimp only [World.setMem]
    rw [if_neg hany]
    rfl

/-- A call in the loop can go on, whatever the runtime and the store
answer. -/
theorem evicting_goes_on (hin : s.evicting tid = true) (i : Input) :
    ∃ pick, (s.step (.run tid { i with pick := pick })).isSome = true := by
  unfold System.evicting at hin
  rw [Option.any_eq_true] at hin
  obtain ⟨pc, hpc, hevicts⟩ := hin
  have goes {pick : GoString} (h : (advance tid pc { i with pick := pick } s.world).isSome = true) :
      (s.step (.run tid { i with pick := pick })).isSome = true := by
    show ((s.threads.lookup tid).bind fun pc => Option.map _ _).isSome = true
    rw [hpc, Option.bind_some, Option.isSome_map]
    exact h
  cases pc with
  | evictStopping sweep err id previous detail => exact ⟨[], goes rfl⟩
  | evicting sweep err =>
    have hround : ∃ pick, (evictBegin cfg { i with pick := pick } s.world).isSome = true :=
      evictBegin_goes_on i s.world
    obtain ⟨pick, hround⟩ := hround
    refine ⟨pick, goes ?_⟩
    show (Option.map _ _).isSome = true
    rw [Option.isSome_map]
    exact hround
  | _ => cases hevicts

/-- The section in front of the call ends an eviction with an error: the
save of the transition fails or the context is cancelled, the runtime's
stop fails, or the save of its outcome does. -/
def System.evictionFails (s : System cfg) (tid : Nat) (i : Input) : Bool :=
  match s.threads.lookup tid with
  | some (.evicting ..) =>
    (evictBegin cfg i s.world).any fun r =>
      match r.2 with
      | .failed _ => true
      | _ => false
  | some (.evictStopping _ _ id previous detail) =>
    (evictFinish cfg i id previous detail s.world).2.isSome
  | _ => false

/-- An eviction that fails is the call's last. -/
theorem failed_eviction_leaves (hfails : s.evictionFails tid i = true)
    (hstep : s.step (.run tid i) = some t) : t.evicting tid = false := by
  obtain ⟨pc, r, hpc, hr, rfl⟩ := run_step hstep
  unfold System.evicting
  rw [resume_self]
  unfold System.evictionFails at hfails
  rw [hpc] at hfails
  cases pc with
  | evicting sweep err =>
    obtain ⟨⟨w₁, outcome⟩, hround, rfl⟩ := Option.map_eq_some_iff.mp hr
    rw [hround] at hfails
    cases outcome with
    | failed err' => exact (evicted_leaves sweep _).1
    | _ => cases hfails
  | evictStopping sweep err id previous detail =>
    cases hr
    unfold evictStopped
    dsimp only at hfails ⊢
    rw [if_pos hfails]
    exact (evicted_leaves sweep _).1
  | _ => cases hfails

/-- One call of the eviction loop, whatever the runtime answers and
whatever else runs beside it. It stops the runtime's task at most once
for each execution that expired while it ran and once for each step of
others that changed a record. It returns: it has a section to run as long
as it is in the loop, and not more of them than the executions it found
and the changes made beside it account for. An eviction that fails is its
last. -/
theorem eviction_loop_returns (cfg : Config) (tid : Nat) {s : System cfg × Eviction}
    (hs : (evictions cfg tid).Reach s) :
    s.2.stops.length ≤ s.2.expired.card + s.2.transitions ∧
    s.2.sections ≤ 2 * (s.2.size + 2 * s.2.transitions) + 1 ∧
    (s.1.evicting tid = true →
      ∀ i : Input, ∃ pick, (s.1.step (.run tid { i with pick := pick })).isSome = true) ∧
    (∀ i t, s.1.evictionFails tid i = true → s.1.step (.run tid i) = some t →
      t.evicting tid = false) := by
  obtain ⟨hstops, hexpired, hsections⟩ := (counted_reachable hs).2
  refine ⟨hstops, ?_, evicting_goes_on, fun i t => failed_eviction_leaves⟩
  omega

/-- Past the lease of the sample execution. -/
def lapse : Int := epoch + 11 * minute

/-- The lease of the sample execution has run out: the loop stops it and
returns after a look at what is left. -/
theorem one_expired_lease_is_stopped_once :
    ∃ s, (evictions oneSlot 2).Reach s ∧ s.1.evicting 2 = false ∧
      s.2.stops = [text "x"] ∧ s.2.sections = 3 ∧
      s.2.sections ≤ 2 * (s.2.size + 2 * s.2.transitions) + 1 := by
  obtain ⟨s, hs, hout, hstops, hsections⟩ := (evictions oneSlot 2).exists_reach
    (.observe rfl)
    (requestRun ++ assignRun ++ answerRun 1 none ++
      [.evictLeases 2, .run 2 { now := lapse, pick := text "x" }, .run 2 { now := lapse },
        .run 2 { now := lapse }])
    (fun s => s.1.evicting 2 = false ∧ s.2.stops = [text "x"] ∧ s.2.sections = 3)
    (by decide +kernel)
  exact ⟨s, hs, hout, hstops, hsections, (eviction_loop_returns oneSlot 2 hs).2.1⟩

end R1s.Allocator
