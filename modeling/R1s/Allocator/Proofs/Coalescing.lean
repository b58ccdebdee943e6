/-
One handler run for each key the replay cache retains, and its reply for
every duplicate.

# The observer

`runs` notes, for each key in the cache, the handler runs since its entry
was made: the call, and the reply once the handler has one. A run starts
when a call gets to its handler and ends when the call publishes its
reply, whatever the cache does meanwhile; that there is exactly one, and
that the entry has its reply, is what is proved (`Noted`).

# What a step does to the cache

`CacheMove` lists it: entries that are finished go, a call joins an
entry, begins one or finishes its own. The calls that handle a command
or wait for one change in the last three only.
-/
import R1s.Allocator.Proofs.Pairing

namespace R1s.Allocator

open Option (bind_some map_eq_some_iff some some_ne_none)
open AList (lookup_erase_if lookup_insert lookup_insert_if lookup_mapVal of_lookup_insert)

variable {cfg : Config} {s t : System cfg} {l : Label cfg} {w w' : World} {i : Input}

-- ===== capacity

variable {c : FMap GoString ReplayEntry}

theorem Trimmed.size_le {c' : FMap GoString ReplayEntry} (h : Trimmed c c') : c'.size ≤ c.size := by
  refine AList.size_le_of_lookup fun k entry hk => ?_
  rw [h.sub k entry hk]
  rfl

variable {tid : Nat}

theorem beginCache_size {order : List GoString} {key : GoString} {e : Envelope} {now : Int}
    (h : c.size ≤ cfg.replayCapacity) :
    (beginCache cfg order tid key e now c).1.size ≤ cfg.replayCapacity := by
  have hprune := le_trans (@trimmed_prune cfg now c).size_le h
  have hevict := le_trans
    (trimmed_evict order (cfg.replayCapacity - 1) (prune cfg now c)).size_le hprune
  unfold beginCache
  dsimp only
  split
  · split <;> exact hprune
  split
  · exact hevict
  next hroom =>
    refine le_trans (AList.size_insert_le _ _ _) ?_
    omega

variable {e : Inbound cfg}

theorem beginReplay_size (h : w.mem.replay.size ≤ cfg.replayCapacity) :
    (beginReplay tid i e w).1.mem.replay.size ≤ cfg.replayCapacity := by
  have hbegun : (beginCache cfg i.saved.order tid (replayKey e.1) e.1 i.now
      (expireOffers i.now w.mem).replay).1.size ≤ cfg.replayCapacity := beginCache_size h
  unfold beginReplay
  dsimp only
  generalize beginCache cfg i.saved.order tid (replayKey e.1) e.1 i.now
    (expireOffers i.now w.mem).replay = begun at hbegun ⊢
  split
  · exact hbegun
  · exact hbegun
  · exact hbegun
  split
  next hp =>
    rw [persist_mem hp]
    exact hbegun
  refine le_trans (AList.size_le_of_lookup fun k entry hk => ?_) hbegun
  obtain ⟨-, hk⟩ := AList.of_lookup_erase hk
  rw [hk]
  rfl

variable {reply : Reply}

theorem finishCache_size {order : List GoString} {key : GoString}
    (h : c.size ≤ cfg.replayCapacity) :
    (finishCache cfg order tid key reply c).size ≤ cfg.replayCapacity := by
  refine le_trans (trimmed_evict _ _ _).size_le ?_
  split
  next entry hentry =>
    split
    · rw [AList.size_replace hentry]
      exact h
    · exact h
  · exact h

theorem size_loadReplay (l : List PersistedReplay) (acc : FMap GoString ReplayEntry) :
    (l.foldl loadReplay acc).size ≤ acc.size + l.length := by
  induction l generalizing acc with
  | nil => exact Nat.le_refl _
  | cons p l ih =>
    rw [List.foldl_cons, List.length_cons]
    refine le_trans (ih _) ?_
    have hone : (loadReplay acc p).size ≤ acc.size + 1 := by
      unfold loadReplay
      split
      · exact Nat.le_succ _
      · exact AList.size_insert_le _ _ _
    omega

/-- A save has one command for each entry. -/
theorem length_snapshot_replay (saved : SaveIn) (m : Mem) :
    (snapshot cfg saved m).replay.length ≤ m.replay.size := by
  have hvisit : (visit saved.order m.replay).Nodup := by
    refine List.Nodup.append (List.nodup_dedup _) (m.replay.keys_nodup.filter _) ?_
    intro k hk hk'
    rw [List.mem_dedup, List.mem_filter] at hk
    have hnot := (List.mem_filter.mp hk').2
    exact absurd hk.1 (by simpa using hnot)
  have hsub : visit saved.order m.replay ⊆ m.replay.keys := by
    intro k hk
    rw [mem_visit, AList.lookup_isSome] at hk
    exact AList.mem_keys.mp hk
  have hle := (List.subperm_of_subset hvisit hsub).length_le
  refine le_trans (List.length_filterMap_le _ _) (le_trans hle ?_)
  simp only [AList.keys, AList.size, List.keys, List.length_map, le_refl]

theorem replay_within_capacity (hs : (machine cfg).Reach s) :
    s.world.mem.replay.size ≤ cfg.replayCapacity := by
  refine (memory_invariant (I := fun m => m.replay.size ≤ cfg.replayCapacity)
    (Nat.zero_le _) ?_ ?_ hs).1
  · intro s l t hs hl _ hstep h
    cases step_kind hstep with
    | @run _ _ pc r hpc hr =>
      show r.1.mem.replay.size ≤ _
      by_cases hcacheless : pc.cacheless = true
      · exact le_trans (advance_trimmed hcacheless hr).size_le h
      · cases pc with
        | dispatching e =>
          cases hr
          exact beginReplay_size h
        | finishing e reply =>
          cases hr
          rw [finishReplay_mem]
          exact finishCache_size h
        | _ => exact absurd rfl hcacheless
    | other _ _ hframe =>
      rw [hframe.mem.replay]
      exact h
    | restart => cases hl
  · intro s₀ saved granted now m hs₀ hstored h hload
    rw [load_replay hload]
    refine le_trans (size_loadReplay _ _) ?_
    have hlength : (snapshot cfg saved s₀.world.mem).replay.length ≤ _ :=
      length_snapshot_replay saved s₀.world.mem
    have hempty : (∅ : FMap GoString ReplayEntry).size = 0 := rfl
    omega

-- ===== moves

/-- The reply with which the step ends a handler's run. -/
def System.ends (s : System cfg) : Label cfg → Option (Nat × Envelope × Reply)
  | .run tid i =>
    match s.threads.lookup tid with
    | some (.finishing e reply) => some (tid, e.1, published i e reply)
    | _ => none
  | _ => none

/-- The same calls handle commands, and none comes to wait or to be
answered. -/
structure Idle (s t : System cfg) : Prop where
  handles : ∀ tid, (t.threads.lookup tid).bind Pc.handles = (s.threads.lookup tid).bind Pc.handles
  waits : ∀ {tid e owner}, t.threads.lookup tid = some (.waiting e owner) →
    s.threads.lookup tid = some (.waiting e owner)
  answered : ∀ {tid e reply}, t.threads.lookup tid = some (.answered e reply) →
    s.threads.lookup tid = some (.answered e reply)

/-- What a step does to the cache and the calls at it. -/
inductive CacheMove (s : System cfg) : Label cfg → System cfg → Prop
  | quiet {l : Label cfg} {t} (hcache : Trimmed s.world.mem.replay t.world.mem.replay)
      (hcalls : Idle s t) (hends : s.ends l = none) : CacheMove s l t
  | joined {tid : Nat} {i t e entry} (hpc : s.threads.lookup tid = some (.dispatching e))
      (hcache : t.world.mem.replay = prune cfg i.now s.world.mem.replay)
      (hentry : t.world.mem.replay.lookup (replayKey e.1) = some entry)
      (heq : entry.envelope = e.1)
      (hcalls : t.threads = s.threads.insert tid
        (if entry.done then .answered e ⟨entry.responses, entry.err⟩
          else .waiting e entry.owner)) :
      CacheMove s (.run tid i) t
  | begun {tid : Nat} {i t e c} (hpc : s.threads.lookup tid = some (.dispatching e))
      (hnew : (prune cfg i.now s.world.mem.replay).lookup (replayKey e.1) = none)
      (htrim : Trimmed s.world.mem.replay c)
      (hcache : t.world.mem.replay
        = c.insert (replayKey e.1) ⟨i.now, false, e.1, [], none, tid⟩)
      (hcalls : t.threads = s.threads.insert tid (.handling e)) : CacheMove s (.run tid i) t
  | finished {tid : Nat} {i t e reply entry}
      (hpc : s.threads.lookup tid = some (.finishing e reply))
      (hentry : s.world.mem.replay.lookup (replayKey e.1) = some entry)
      (hbusy : entry.done = false) (heq : entry.envelope = e.1) (howner : entry.owner = tid)
      (hcache : t.world.mem.replay = s.world.mem.replay.insert (replayKey e.1)
        (entry.publish (published i e reply)))
      (hcalls : t.threads
        = (s.threads.erase tid).mapVal fun _ => wake tid (published i e reply)) :
      CacheMove s (.run tid i) t

variable {pc : Pc cfg}

/-- A section of a handler that does not finish leads on. -/
theorem handles_goes_on {next : Next cfg} (hpc : pc.cacheless = true)
    (hhandles : pc.handles ≠ none) (h : advance tid pc i w = some (w', next)) : next.pc ≠ none := by
  have mapped {x : Option (World × Reply)} {e : Inbound cfg}
      (h : x.map (fun r => (r.1, Next.goto (.finishing e r.2))) = some (w', next)) :
      next.pc ≠ none := by
    obtain ⟨r, -, heq⟩ := map_eq_some_iff.mp h
    cases heq
    exact some_ne_none _
  have outcome {e : Inbound cfg} (o : Outcome) : (o.next e).pc ≠ none := by
    cases o <;> exact some_ne_none _
  cases pc with
  | handling e =>
    change handle i e w = _ at h
    unfold handle at h
    split at h
    case h_8 => cases h
    all_goals
      obtain ⟨-, rfl⟩ := Prod.mk.inj (some.inj h)
      first | exact outcome _ | exact some_ne_none _
  | starting | stopping => exact mapped h
  | binding e q now =>
    cases h
    exact some_ne_none _
  | finishing e reply => cases hpc
  | _ => exact absurd rfl hhandles

variable {r : World × Next cfg}

/-- The calls after a section that finishes no entry. -/
theorem resume_lookup (hpc : ∀ e reply, pc ≠ .finishing e reply) (t : Nat) :
    (s.resume tid pc i r).threads.lookup t
      = if t = tid then r.2.pc else s.threads.lookup t := by
  unfold System.resume
  cases hn : r.2 with
  | goto pc' => exact lookup_insert_if _ _ _ _
  | done err => exact lookup_erase_if _ _ _
  | ret reply =>
    cases pc
    case finishing e reply => exact absurd rfl (hpc e reply)
    all_goals exact lookup_erase_if _ _ _

theorem Idle.entered (h : Entered s t) : Idle s t := by
  rcases h with hsame | ⟨tid₀, pc, hfree, hentry, hins⟩
  · exact ⟨fun tid => by rw [hsame], fun h => hsame ▸ h, fun h => hsame ▸ h⟩
  · have hnew : pc.handles = none ∧ (∀ e owner, pc ≠ .waiting e owner) ∧
        ∀ e reply, pc ≠ .answered e reply := by
      refine ⟨?_, ?_, ?_⟩
      · cases pc <;> first | rfl | cases hentry
      · rintro e owner rfl
        cases hentry
      · rintro e reply rfl
        cases hentry
    refine ⟨fun tid => ?_, fun {tid} _ _ hpc => ?_, fun {tid} _ _ hpc => ?_⟩
    · rw [hins, lookup_insert_if]
      split
      next heq =>
        rw [heq, hfree, bind_some, hnew.1]
        rfl
      · rfl
    · rw [hins, lookup_insert_if] at hpc
      split at hpc
      · exact absurd (some.inj hpc) (hnew.2.1 _ _)
      · exact hpc
    · rw [hins, lookup_insert_if] at hpc
      split at hpc
      · exact absurd (some.inj hpc) (hnew.2.2 _ _)
      · exact hpc

/-- A section that neither begins, joins nor finishes. -/
theorem Idle.resume (hpc : s.threads.lookup tid = some pc)
    (hfinish : ∀ e reply, pc ≠ .finishing e reply) (hhandles : r.2.pc.bind Pc.handles = pc.handles)
    (hwaits : ∀ e owner, r.2.pc ≠ some (.waiting e owner))
    (hanswered : ∀ e reply, r.2.pc ≠ some (.answered e reply)) : Idle s (s.resume tid pc i r) := by
  refine ⟨fun t => ?_, fun {t} _ _ ht => ?_, fun {t} _ _ ht => ?_⟩
  · rw [resume_lookup hfinish]
    split
    next heq =>
      rw [heq, hpc]
      exact hhandles
    · rfl
  · rw [resume_lookup hfinish] at ht
    split at ht
    · exact absurd ht (hwaits _ _)
    · exact ht
  · rw [resume_lookup hfinish] at ht
    split at ht
    · exact absurd ht (hanswered _ _)
    · exact ht

/-- A section of a call that is not at the cache. -/
theorem cacheless_idle (hpc : s.threads.lookup tid = some pc) (hcacheless : pc.cacheless = true)
    (hr : advance tid pc i s.world = some r) : Idle s (s.resume tid pc i r) := by
  have hfinish : ∀ e reply, pc ≠ .finishing e reply := by
    rintro e reply rfl
    cases hcacheless
  have hsucc : ∀ pc', r.2.pc = some pc' → pc.Succ pc' := by
    intro pc' hnext
    have hgoto : advance tid pc i s.world = some (r.1, .goto pc') := by
      rw [hr, ← Next.pc_eq_some.mp hnext]
    exact advance_succ hgoto
  refine .resume hpc hfinish ?_ ?_ ?_
  · cases hnext : r.2.pc with
    | none =>
      rw [Option.bind_none]
      by_contra hhandles
      exact handles_goes_on hcacheless (Ne.symm hhandles) hr hnext
    | some pc' =>
      rcases (hsucc pc' hnext).handles with hsame | ⟨e, rfl, -⟩
      · exact hsame
      · cases hcacheless
  · intro e owner hnext
    have h := hsucc _ hnext
    cases h
    cases hcacheless
  · intro e reply hnext
    have h := hsucc _ hnext
    cases h
    cases hcacheless

theorem begun_move (hpc : s.threads.lookup tid = some (.dispatching e))
    (h : Begun tid i e s.world r) :
    CacheMove s (.run tid i) (s.resume tid (.dispatching e) i r) := by
  have hfinish : ∀ e' reply, (.dispatching e : Pc cfg) ≠ .finishing e' reply :=
    fun _ _ h => nomatch h
  have hends : s.ends (.run tid i) = none := by
    simp only [System.ends, hpc]
  cases h with
  | refused hc =>
    exact .quiet hc (.resume hpc hfinish rfl (fun _ _ h => nomatch h) fun _ _ h => nomatch h)
      hends
  | joined hentry heq => exact .joined hpc rfl hentry heq rfl
  | begun hnew hc hp =>
    exact .begun hpc hnew hc (congrArg Mem.replay (persist_mem hp)) rfl

theorem step_cacheMove (hs : (machine cfg).Reach s) (hl : l.isRestart = false)
    (hstep : s.step l = some t) : CacheMove s l t := by
  cases step_kind hstep with
  | restart => cases hl
  | @run tid i pc r hpc hr =>
    by_cases hcacheless : pc.cacheless = true
    · refine .quiet (advance_trimmed hcacheless hr) (cacheless_idle hpc hcacheless hr) ?_
      simp only [System.ends, hpc]
      cases pc <;> first | rfl | cases hcacheless
    · cases pc with
      | dispatching e =>
        have hbegin := beginReplay_begun tid i e s.world
        rw [some.inj hr] at hbegin
        exact begun_move hpc hbegin
      | finishing e reply =>
        cases hr
        obtain ⟨entry, hentry, hbusy, heq, howner⟩ :=
          (cacheInv_reachable hs).owned tid e (by rw [hpc]; rfl)
        refine .finished hpc hentry hbusy heq howner ?_ rfl
        -- The cache is within its capacity, so nothing is evicted.
        show (finishReplay tid i e reply s.world).1.mem.replay = _
        rw [finishReplay_owned hentry hbusy howner, evict_within]
        rw [AList.size_replace hentry]
        exact replay_within_capacity hs
      | _ => exact absurd rfl hcacheless
  | other hrun _ hframe hentered =>
    refine .quiet ?_ (.entered hentered) ?_
    · rw [hframe.mem.replay]
      exact .refl _
    · cases l with
      | run tid i => exact absurd rfl (hrun tid i)
      | _ => rfl

-- ===== the duplicates

theorem wake_waiting {owner : Nat} (h : wake tid reply pc = .waiting e owner) :
    pc = .waiting e owner ∧ owner ≠ tid := by
  unfold wake at h
  split at h
  · split at h
    · cases h
    next hne =>
      cases h
      exact ⟨rfl, hne⟩
  next hother => exact absurd h (hother e owner)

theorem wake_answered {reply' : Reply} (h : wake tid reply pc = .answered e reply') :
    pc = .answered e reply' ∨ pc = .waiting e tid ∧ reply' = reply := by
  unfold wake at h
  split at h
  · split at h
    next heq =>
      cases h
      exact .inr ⟨by rw [heq], rfl⟩
    · cases h
  · exact .inl h

/-- An entry in flight is the one its call handles, and a call that waits
waits for such an entry of its own command. -/
structure Coalesced (s : System cfg) : Prop where
  running : ∀ {k entry}, s.world.mem.replay.lookup k = some entry → entry.done = false →
    replayKey entry.envelope = k ∧
      ∃ e : Inbound cfg, (s.threads.lookup entry.owner).bind Pc.handles = some e ∧
        e.1 = entry.envelope
  waiting : ∀ {tid e owner}, s.threads.lookup tid = some (.waiting e owner) →
    Owns s.world.mem.replay owner e.1

variable {entry : ReplayEntry} {k : GoString}

/-- A call handles the command of the entry it has in flight. -/
theorem Coalesced.command (h : Coalesced s) (hpc : (s.threads.lookup tid).bind Pc.handles = some e)
    (hentry : s.world.mem.replay.lookup k = some entry) (hbusy : entry.done = false)
    (howner : entry.owner = tid) : entry.envelope = e.1 ∧ k = replayKey e.1 := by
  obtain ⟨hkey, e', he', henv⟩ := h.running hentry hbusy
  rw [howner, hpc] at he'
  cases he'
  exact ⟨henv.symm, by rw [henv, hkey]⟩

/-- A call that is not at a handler, and the calls the entries in flight
belong to. -/
theorem Coalesced.owner_ne (h : Coalesced s) (hpc : (s.threads.lookup tid).bind Pc.handles = none)
    (hentry : s.world.mem.replay.lookup k = some entry) (hbusy : entry.done = false) :
    entry.owner ≠ tid := by
  intro howner
  obtain ⟨-, e, he, -⟩ := h.running hentry hbusy
  rw [howner, hpc] at he
  cases he

theorem Coalesced.move (h : Coalesced s) (hm : CacheMove s l t) : Coalesced t := by
  cases hm with
  | quiet hcache hcalls hends =>
    refine ⟨fun {k entry} hentry hbusy => ?_, fun {tid e owner} hwait => ?_⟩
    · rw [hcalls.handles]
      exact h.running (hcache.sub _ _ hentry) hbusy
    · exact (h.waiting (hcalls.waits hwait)).trimmed hcache
  | @joined tid i _ e entry hpc hcache hentry heq hcalls =>
    have htrim : Trimmed s.world.mem.replay t.world.mem.replay := by
      rw [hcache]
      exact trimmed_prune _ _
    refine ⟨fun {k entry'} hentry' hbusy => ?_, fun {tid' e' owner} hwait => ?_⟩
    · have hold := htrim.sub _ _ hentry'
      have hne := h.owner_ne (by rw [hpc]; rfl) hold hbusy
      rw [hcalls, AList.lookup_insert_ne hne]
      exact h.running hold hbusy
    · rw [hcalls, lookup_insert_if] at hwait
      split at hwait
      · split at hwait
        · cases hwait
        next hbusy =>
          cases hwait
          exact ⟨entry, hentry, by simpa using hbusy, heq, rfl⟩
      · exact (h.waiting hwait).trimmed htrim
  | @begun tid i _ e c hpc hnew htrim hcache hcalls =>
    refine ⟨fun {k entry} hentry hbusy => ?_, fun {tid' e' owner} hwait => ?_⟩
    · rw [hcache] at hentry
      rcases of_lookup_insert hentry with ⟨heq, rfl⟩ | ⟨-, hentry⟩
      · refine ⟨heq.symm, e, ?_, rfl⟩
        rw [hcalls, lookup_insert]
        rfl
      have hold := htrim.sub _ _ hentry
      have hne := h.owner_ne (by rw [hpc]; rfl) hold hbusy
      rw [hcalls, AList.lookup_insert_ne hne]
      exact h.running hold hbusy
    · rw [hcalls, lookup_insert_if] at hwait
      split at hwait
      · cases hwait
      have howns := h.waiting hwait
      rw [hcache]
      refine (howns.trimmed htrim).insert_ne ?_ _
      -- An entry in flight under this key would have been found.
      intro hkey
      obtain ⟨entry, hentry, -⟩ := howns.trimmed (@trimmed_prune cfg i.now _)
      rw [hkey, hnew] at hentry
      cases hentry
  | @finished tid i _ e reply entry hpc hentry hbusy heq howner hcache hcalls =>
    have hmine : (s.threads.lookup tid).bind Pc.handles = some e := by rw [hpc]; rfl
    refine ⟨fun {k entry'} hentry' hbusy' => ?_, fun {tid' e' owner} hwait => ?_⟩
    · rw [hcache] at hentry'
      rcases of_lookup_insert hentry' with ⟨-, rfl⟩ | ⟨hne, hentry'⟩
      · cases hbusy'
      obtain ⟨hkey, e', he', henv⟩ := h.running hentry' hbusy'
      refine ⟨hkey, e', ?_, henv⟩
      have hother : entry'.owner ≠ tid := by
        intro howner'
        exact hne (h.command hmine hentry' hbusy' howner').2
      rw [hcalls, lookup_mapVal, lookup_erase_if, if_neg hother]
      obtain ⟨pc, hpc', hhandles⟩ := Option.bind_eq_some_iff.mp he'
      rw [hpc', Option.map_some, bind_some, ← hhandles]
      cases pc <;> first | rfl | cases hhandles
    · rw [hcalls, lookup_mapVal, lookup_erase_if] at hwait
      obtain ⟨pc, hpc', hwake⟩ := map_eq_some_iff.mp hwait
      split at hpc'
      · cases hpc'
      obtain ⟨rfl, hother⟩ := wake_waiting hwake
      have howns := h.waiting hpc'
      rw [hcache]
      refine howns.insert_ne ?_ _
      intro hkey
      exact hother (howns.unique ⟨entry, hentry, hbusy, heq, howner⟩ hkey)

/-- What comes back from a save is finished. -/
theorem loaded_done {granted now : Int} {snap : Snapshot} {m : Mem}
    (h : load cfg granted now snap = .ok m) (hk : m.replay.lookup k = some entry) :
    entry.done = true := by
  obtain ⟨p, -, rfl⟩ := loaded_entry h hk
  rfl

theorem coalesced_reachable (hs : (machine cfg).Reach s) : Coalesced s := by
  refine machine_invariant (I := Coalesced) ?_ ?_ ?_ hs
  · refine ⟨fun {k entry} hentry => ?_, fun {tid e owner} hwait => ?_⟩
    · cases hentry
    · cases hwait
  · exact fun s l t hs h _ hl hstep => h.move (step_cacheMove hs hl hstep)
  · intro s t granted now _ _ _ hstep
    obtain ⟨-, hm, -, hthreads⟩ := restart_step hstep
    refine ⟨fun {k entry} hentry hbusy => ?_, by simp [hthreads]⟩
    obtain ⟨-, hempty⟩ | ⟨snap, -, hload⟩ := hm
    · rw [hempty] at hentry
      cases hentry
    · rw [loaded_done hload hentry] at hbusy
      cases hbusy

-- ===== the observer

/-- The handler runs noted under each key: the call, and the reply once
there is one. -/
abbrev Runs := GoString → List (Nat × Option Reply)

/-- What an entry has of its command's run. -/
def ReplayEntry.outcome (entry : ReplayEntry) : Option Reply :=
  if entry.done then some ⟨entry.responses, entry.err⟩ else none

/-- The call that gets to its handler in the step, and its command. -/
def System.enters (s : System cfg) (l : Label cfg) (t : System cfg) :
    Option (Nat × Input × Envelope) :=
  match l with
  | .run tid i =>
    if ((s.threads.lookup tid).bind Pc.handles).isNone then
      ((t.threads.lookup tid).bind Pc.handles).map fun e => (tid, i, e.1)
    else none
  | _ => none

/-- The runs under the keys the cache has after a step. A reload brings
back entries with what was saved of their runs. -/
def Runs.note (s : System cfg) (l : Label cfg) (t : System cfg) (runs : Runs) : Runs := fun k =>
  match t.world.mem.replay.lookup k with
  | none => []
  | some entry =>
    if l.isRestart then [(entry.owner, entry.outcome)]
    else
      match s.enters l t with
      | some (tid, i, e) =>
        if replayKey e = k then
          (if ((prune cfg i.now s.world.mem.replay).lookup k).isSome then runs k else [])
            ++ [(tid, none)]
        else runs k
      | none =>
        match s.ends l with
        | some (tid, e, reply) =>
          if replayKey e = k then
            (runs k).map fun run => if run = (tid, none) then (tid, some reply) else run
          else runs k
        | none => runs k

/-- The allocator's runs with the handler runs noted. -/
def replaying (cfg : Config) : TransitionSystem (System cfg × Runs) (Label cfg) :=
  (machine cfg).observe (fun _ => []) Runs.note

/-- Every retained key has had one handler run, and its entry has what
came of it. -/
def Noted (s : System cfg × Runs) : Prop :=
  ∀ k entry, s.1.world.mem.replay.lookup k = some entry →
    s.2 k = [(entry.owner, entry.outcome)]

theorem enters_idle (h : ∀ tid, (t.threads.lookup tid).bind Pc.handles
    = (s.threads.lookup tid).bind Pc.handles) : s.enters l t = none := by
  cases l with
  | run tid i =>
    unfold System.enters
    dsimp only
    split
    next hnone =>
      rw [h tid, Option.isNone_iff_eq_none.mp hnone]
      rfl
    · rfl
  | _ => rfl

theorem Noted.move {runs : Runs} (h : Noted (s, runs)) (hl : l.isRestart = false)
    (hm : CacheMove s l t) : Noted (t, Runs.note s l t runs) := by
  intro k entry hentry
  show Runs.note s l t runs k = _
  unfold Runs.note
  rw [hentry]
  dsimp only
  rw [hl, if_neg Bool.false_ne_true]
  cases hm with
  | quiet hcache hcalls hends =>
    rw [enters_idle hcalls.handles, hends]
    exact h k entry (hcache.sub k entry hentry)
  | @joined tid i _ e entry₀ hpc hcache hfound heq hcalls =>
    have hidle : s.enters (.run tid i) t = none := by
      refine enters_idle fun tid' => ?_
      rw [hcalls, lookup_insert_if]
      split
      next htid =>
        rw [htid, hpc]
        split <;> rfl
      · rfl
    have hends : s.ends (.run tid i) = none := by simp only [System.ends, hpc]
    rw [hidle, hends]
    rw [hcache] at hentry
    exact h k entry ((trimmed_prune _ _).sub k entry hentry)
  | @begun tid i _ e c hpc hnew htrim hcache hcalls =>
    have henters : s.enters (.run tid i) t = some (tid, i, e.1) := by
      simp only [System.enters, hpc, hcalls, lookup_insert]
      rfl
    rw [henters]
    dsimp only
    rw [hcache] at hentry
    rcases of_lookup_insert hentry with ⟨heq, rfl⟩ | ⟨hne, hentry⟩
    · rw [if_pos heq.symm, heq, hnew]
      rfl
    · rw [if_neg (Ne.symm hne)]
      exact h k entry (htrim.sub k entry hentry)
  | @finished tid i _ e reply mine hpc hmine hbusy heq howner hcache hcalls =>
    have hidle : s.enters (.run tid i) t = none := by
      simp only [System.enters, hpc]
      rfl
    have hends : s.ends (.run tid i) = some (tid, e.1, published i e reply) := by
      simp only [System.ends, hpc]
    rw [hidle, hends]
    dsimp only
    rw [hcache] at hentry
    rcases of_lookup_insert hentry with ⟨rfl, rfl⟩ | ⟨hne, hentry⟩
    · have hrun : runs (replayKey e.1) = [(tid, none)] := by
        rw [show runs (replayKey e.1) = _ from h _ mine hmine, howner]
        simp [ReplayEntry.outcome, hbusy]
      rw [if_pos rfl, hrun, List.map_singleton, if_pos rfl]
      rw [← howner]
      rfl
    · rw [if_neg (Ne.symm hne)]
      exact h k entry hentry

theorem noted_reachable {s : System cfg × Runs} (hs : (replaying cfg).Reach s) : Noted s := by
  refine hs.observed (I := fun s runs => Noted (s, runs)) ?_ ?_
  · rintro s rfl k entry hentry
    cases hentry
  · intro s l t runs hs _ h _ hstep
    by_cases hl : l.isRestart = false
    · exact Noted.move h hl (step_cacheMove hs hl hstep)
    · intro k entry hentry
      show Runs.note s l t runs k = _
      rw [Runs.note, show t.world.mem.replay.lookup k = _ from hentry]
      simp [hl]

-- ===== replies

/-- A call is answered with what the retained entry of its command
has. -/
theorem answered_from_entry (h : Coalesced s) (hm : CacheMove s l t)
    (ht : t.threads.lookup tid = some (.answered e reply))
    (hs : s.threads.lookup tid ≠ some (.answered e reply)) :
    ∃ entry, t.world.mem.replay.lookup (replayKey e.1) = some entry ∧
      entry.envelope = e.1 ∧ entry.outcome = some reply := by
  cases hm with
  | quiet hcache hcalls hends => exact absurd (hcalls.answered ht) hs
  | @joined tid₀ i _ e₀ entry hpc hcache hentry heq hcalls =>
    rw [hcalls, lookup_insert_if] at ht
    split at ht
    · split at ht
      next hdone =>
        cases ht
        exact ⟨entry, hentry, heq, by simp [ReplayEntry.outcome, hdone]⟩
      · cases ht
    · exact absurd ht hs
  | begun hpc hnew htrim hcache hcalls =>
    rw [hcalls, lookup_insert_if] at ht
    split at ht
    · cases ht
    · exact absurd ht hs
  | @finished tid₀ i _ e₀ reply₀ mine hpc hmine hbusy heq howner hcache hcalls =>
    rw [hcalls, lookup_mapVal, lookup_erase_if] at ht
    obtain ⟨pc, hpc', hwake⟩ := map_eq_some_iff.mp ht
    split at hpc'
    · cases hpc'
    rcases wake_answered hwake with rfl | ⟨rfl, rfl⟩
    · exact absurd hpc' hs
    · -- The call waited for the command that `tid₀` handles: its own.
      obtain ⟨entry, hentry, hbusy', henv, howner'⟩ := h.waiting hpc'
      have hhandles : (s.threads.lookup tid₀).bind Pc.handles = some e₀ := by
        rw [hpc]
        rfl
      obtain ⟨hsame, hkey⟩ := h.command hhandles hentry hbusy' howner'
      rw [hcache, hkey, lookup_insert]
      exact ⟨_, rfl, heq.trans (hsame.symm.trans henv), rfl⟩

/-- A call whose key is retained joins the entry, or is refused if the
content is another; neither runs a handler. -/
theorem beginReplay_retained
    (hentry : (prune cfg i.now w.mem.replay).lookup (replayKey e.1) = some entry) :
    beginReplay tid i e w
      = (w.setMem { expireOffers i.now w.mem with replay := prune cfg i.now w.mem.replay },
          if entry.envelope = e.1 then
            .goto (if entry.done then .answered e ⟨entry.responses, entry.err⟩
              else .waiting e entry.owner)
          else rejected i i.later e Sentinel.replayConflict.err) := by
  have hreplay : (expireOffers i.now w.mem).replay = w.mem.replay := rfl
  unfold beginReplay beginCache
  dsimp only
  rw [hreplay, hentry]
  dsimp only
  by_cases heq : entry.envelope = e.1
  · rw [if_pos heq, if_pos heq]
  · rw [if_neg heq, if_neg heq]

/-- The replay cache over whole runs: it keeps to its capacity, has the
entry of every handler that runs, and knows of one handler run for each
key. A call that comes with a retained key joins its entry, or is refused
if its content is another. A call that waits waits for a handler of its
own command that runs, and a call is answered, when it joins or when that
handler ends, with the reply of the one run under its key; it returns
that reply unless its own context is cancelled. -/
theorem replay_cache_coalesces (cfg : Config) {s : System cfg × Runs}
    (hs : (replaying cfg).Reach s) :
    s.1.world.mem.replay.size ≤ cfg.replayCapacity ∧
    (∀ tid e, (s.1.threads.lookup tid).bind Pc.handles = some e →
      Owns s.1.world.mem.replay tid e.1) ∧
    (∀ k entry, s.1.world.mem.replay.lookup k = some entry →
      s.2 k = [(entry.owner, entry.outcome)]) ∧
    (∀ tid e i entry, s.1.threads.lookup tid = some (.dispatching e) →
      (prune cfg i.now s.1.world.mem.replay).lookup (replayKey e.1) = some entry →
      advance tid (.dispatching e) i s.1.world
        = some (s.1.world.setMem
            { expireOffers i.now s.1.world.mem with
              replay := prune cfg i.now s.1.world.mem.replay },
          if entry.envelope = e.1 then
            .goto (if entry.done then .answered e ⟨entry.responses, entry.err⟩
              else .waiting e entry.owner)
          else rejected i i.later e Sentinel.replayConflict.err)) ∧
    (∀ tid e owner, s.1.threads.lookup tid = some (.waiting e owner) →
      Owns s.1.world.mem.replay owner e.1 ∧
        (s.1.threads.lookup owner).bind Pc.handles = some e) ∧
    (∀ l t, (replaying cfg).step s l = some t → ∀ tid e reply,
      t.1.threads.lookup tid = some (.answered e reply) →
      s.1.threads.lookup tid ≠ some (.answered e reply) →
      ∃ owner, t.2 (replayKey e.1) = [(owner, some reply)]) ∧
    (∀ tid e reply i, s.1.threads.lookup tid = some (.answered e reply) →
      advance tid (.answered e reply) i s.1.world
        = some (s.1.world, .ret (if i.cancelled then .fail contextErr else reply))) := by
  have hreach : (machine cfg).Reach s.1 := TransitionSystem.reach_of_observe hs
  have hcoalesced := coalesced_reachable hreach
  refine ⟨replay_within_capacity hreach, (cacheInv_reachable hreach).owned,
    noted_reachable hs, ?_, ?_, ?_, fun _ _ _ _ _ => rfl⟩
  · intro tid e i entry _ hentry
    exact congrArg some (beginReplay_retained hentry)
  · intro tid e owner hwait
    have howns := hcoalesced.waiting hwait
    obtain ⟨entry, hentry, hbusy, henv, howner⟩ := howns
    obtain ⟨-, e', he', heq⟩ := hcoalesced.running hentry hbusy
    have hsame : e' = e := Subtype.ext (heq.trans henv)
    rw [howner, hsame] at he'
    exact ⟨hcoalesced.waiting hwait, he'⟩
  · intro l t hstep tid e reply ht hne
    have hnoted := noted_reachable (.step hs trivial hstep)
    obtain ⟨hmachine, -⟩ := TransitionSystem.observe_step hstep
    by_cases hl : l.isRestart = false
    · obtain ⟨entry, hentry, -, hreply⟩ :=
        answered_from_entry hcoalesced (step_cacheMove hreach hl hmachine) ht hne
      refine ⟨entry.owner, ?_⟩
      rw [hnoted _ entry hentry, hreply]
    · -- A restart leaves no call.
      obtain ⟨granted, now, rfl⟩ := l.restarts hl
      obtain ⟨-, -, -, hthreads⟩ := restart_step hmachine
      rw [hthreads] at ht
      cases ht

/-- A command delivered twice: the second call waits for the first. -/
theorem duplicate_waits_for_the_first :
    ∃ s, (replaying oneSlot).Reach s ∧
      s.1.threads.lookup 1 = some (.waiting requestCommand 0) ∧
      Owns s.1.world.mem.replay 0 requestCommand.1 ∧
      (s.1.threads.lookup 0).bind Pc.handles = some requestCommand := by
  obtain ⟨s, hs, hp⟩ := (replaying oneSlot).exists_reach (.observe rfl)
    [ .call 0 requestCommand, .run 0 { now := epoch }, .run 0 { now := epoch },
      .call 1 requestCommand, .run 1 { now := epoch }, .run 1 { now := epoch } ]
    (fun s => s.1.threads.lookup 1 = some (.waiting requestCommand 0)) (by decide +kernel)
  obtain ⟨-, -, -, -, hwaits, -⟩ := replay_cache_coalesces oneSlot hs
  obtain ⟨howns, hhandles⟩ := hwaits 1 requestCommand 0 hp
  exact ⟨s, hs, hp, howns, hhandles⟩

end R1s.Allocator
