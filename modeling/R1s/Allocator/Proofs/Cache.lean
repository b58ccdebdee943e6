/-
The replay cache over whole runs. An entry in flight belongs to exactly
one call: the one that began it, from its `begin` to its `finish`
(`CacheInv.owned`). So at most one call handles a command at a time, and
the reply `finish` publishes goes to the entry of its own command.

# Why nothing else touches an entry in flight

Pruning, eviction and the sweep drop finished entries only (`Trimmed`),
and a second `begin` of the same key finds the entry and waits.
-/
import R1s.Allocator.Proofs.Frames

namespace R1s.Allocator

variable {cfg : Config} {w w' : World} {i : Input} {s : System cfg}

-- ===== finished entries go

/-- The cache lost finished entries at most. -/
structure Trimmed (c c' : FMap GoString ReplayEntry) : Prop where
  sub : ∀ k entry, c'.lookup k = some entry → c.lookup k = some entry
  busy : ∀ k entry, c.lookup k = some entry → entry.done = false →
    c'.lookup k = some entry

theorem Trimmed.refl (c : FMap GoString ReplayEntry) : Trimmed c c :=
  ⟨fun _ _ h => h, fun _ _ h _ => h⟩

variable {c : FMap GoString ReplayEntry}

theorem Trimmed.trans {c' c'' : FMap GoString ReplayEntry} (h : Trimmed c c')
    (h' : Trimmed c' c'') : Trimmed c c'' :=
  ⟨fun k entry hk => h.sub k entry (h'.sub k entry hk),
    fun k entry hk hbusy => h'.busy k entry (h.busy k entry hk hbusy) hbusy⟩

/-- A filter that no entry in flight fails trims. -/
theorem Trimmed.keep {p : GoString → ReplayEntry → Bool}
    (hp : ∀ k entry, entry.done = false → p k entry = true) (c : FMap GoString ReplayEntry) :
    Trimmed c (c.keep p) := by
  constructor
  · intro k entry hk
    rw [AList.lookup_keep] at hk
    exact (Option.filter_eq_some_iff.mp hk).1
  · intro k entry hk hbusy
    rw [AList.lookup_keep, hk]
    exact Option.filter_eq_some_iff.mpr ⟨rfl, hp k entry hbusy⟩

variable {key : GoString}

/-- Dropping a finished or absent entry trims. -/
theorem Trimmed.erase (hkey : ∀ entry, c.lookup key = some entry → entry.done = true) :
    Trimmed c (c.erase key) := by
  constructor
  · intro k entry hk
    obtain ⟨-, hk⟩ := AList.of_lookup_erase hk
    exact hk
  · intro k entry hk hbusy
    rw [AList.lookup_erase_if, if_neg, hk]
    intro heq
    rw [heq] at hk
    rw [hkey entry hk] at hbusy
    cases hbusy

theorem trimmed_prune (now : Int) (c : FMap GoString ReplayEntry) :
    Trimmed c (prune cfg now c) := by
  apply Trimmed.keep
  intro k entry hbusy
  simp [hbusy]

/-- The scan of `evict` only ever picks finished entries. -/
theorem oldestDone_done {seen : Int} (l : List GoString) (oldest : Option (GoString × Int))
    (hold : ∀ k t, oldest = some (k, t) → ∀ entry, c.lookup k = some entry → entry.done = true)
    (h : oldestDone c l oldest = some (key, seen)) :
    ∀ entry, c.lookup key = some entry → entry.done = true := by
  induction l generalizing oldest with
  | nil => exact hold key seen h
  | cons k rest ih =>
    rw [oldestDone] at h
    split at h
    · exact ih oldest hold h
    rename_i entry hentry
    split at h
    next hpick =>
      refine ih _ ?_ h
      intro k' t' heq entry' hentry'
      cases heq
      rw [hentry] at hentry'
      cases hentry'
      simp only [Bool.and_eq_true] at hpick
      exact hpick.1
    · exact ih oldest hold h

theorem trimmed_evictLoop (order : List GoString) (limit fuel : Nat)
    (c : FMap GoString ReplayEntry) : Trimmed c (evictLoop order limit fuel c) := by
  induction fuel generalizing c with
  | zero => exact .refl c
  | succ fuel ih =>
    rw [evictLoop]
    split
    · exact .refl c
    split
    · exact .refl c
    next key seen hpick =>
      have hdone := oldestDone_done _ none (fun _ _ h => nomatch h) hpick
      exact (Trimmed.erase hdone).trans (ih (c.erase key))

theorem trimmed_evict (order : List GoString) (limit : Nat) (c : FMap GoString ReplayEntry) :
    Trimmed c (evict order limit c) :=
  trimmed_evictLoop order limit c.size c

/-- A cache within its limit is left alone. -/
theorem evict_within {order : List GoString} {limit : Nat} (h : c.size ≤ limit) :
    evict order limit c = c := by
  unfold evict
  cases c.size with
  | zero => rfl
  | succ fuel =>
    rw [evictLoop, if_pos h]

-- ===== the sections

/-- What `beginReplay` can do: refuse the command, join the entry it
finds, or begin an entry of its own and save. -/
inductive Begun (tid : Nat) (i : Input) (e : Inbound cfg) (w : World) :
    World × Next cfg → Prop
  | refused {c : FMap GoString ReplayEntry} {reply} (hc : Trimmed w.mem.replay c) :
      Begun tid i e w
        (w.setMem { expireOffers i.now w.mem with replay := c }, .ret reply)
  | joined {entry} (hentry : (prune cfg i.now w.mem.replay).lookup (replayKey e.1) = some entry)
      (heq : entry.envelope = e.1) :
      Begun tid i e w
        (w.setMem { expireOffers i.now w.mem with replay := prune cfg i.now w.mem.replay },
          .goto (if entry.done then .answered e ⟨entry.responses, entry.err⟩
            else .waiting e entry.owner))
  | begun {c : FMap GoString ReplayEntry} {w'}
      (hnew : (prune cfg i.now w.mem.replay).lookup (replayKey e.1) = none)
      (hc : Trimmed w.mem.replay c)
      (hp : persist cfg i.saved (w.setMem
        { expireOffers i.now w.mem with
          replay := c.insert (replayKey e.1) ⟨i.now, false, e.1, [], none, tid⟩ }) = .ok w') :
      Begun tid i e w (w', .goto (.handling e))

theorem beginReplay_begun (tid : Nat) (i : Input) (e : Inbound cfg) (w : World) :
    Begun tid i e w (beginReplay tid i e w) := by
  have hprune : Trimmed w.mem.replay (prune cfg i.now w.mem.replay) := trimmed_prune _ _
  have hevict := hprune.trans
    (trimmed_evict i.saved.order (cfg.replayCapacity - 1) (prune cfg i.now w.mem.replay))
  unfold beginReplay beginCache
  dsimp only
  have hreplay : (expireOffers i.now w.mem).replay = w.mem.replay := rfl
  rw [hreplay]
  cases hentry : (prune cfg i.now w.mem.replay).lookup (replayKey e.1) with
  | some entry =>
    dsimp only
    by_cases heq : entry.envelope = e.1
    · rw [if_pos heq]
      exact .joined hentry heq
    · rw [if_neg heq]
      exact .refused hprune
  | none =>
    by_cases hfull : cfg.replayCapacity
        ≤ (evict i.saved.order (cfg.replayCapacity - 1) (prune cfg i.now w.mem.replay)).size
    · rw [if_pos hfull]
      exact .refused hevict
    · rw [if_neg hfull]
      dsimp only
      split
      next w' hp => exact .begun hentry hevict hp
      -- The entry is taken out again; nothing was under its key before.
      refine .refused ?_
      rw [AList.erase_insert_self]
      · exact hevict
      · cases hafter : (evict i.saved.order (cfg.replayCapacity - 1)
            (prune cfg i.now w.mem.replay)).lookup (replayKey e.1) with
        | none => rfl
        | some entry =>
          have hbefore := (trimmed_evict _ _ _).sub _ _ hafter
          rw [hentry] at hbefore
          cases hbefore

variable {e : Inbound cfg} {tid : Nat}

/-- A command goes to its handler when the cache has no entry of it. -/
theorem beginReplay_new {e' : Inbound cfg} (h : (beginReplay tid i e w).2 = .goto (.handling e')) :
    (prune cfg i.now w.mem.replay).lookup (replayKey e.1) = none := by
  have hbegin := beginReplay_begun tid i e w
  generalize beginReplay tid i e w = r at h hbegin
  cases hbegin with
  | refused => cases h
  | joined =>
    have hpoint := Next.goto.inj h
    split at hpoint <;> cases hpoint
  | begun hnew => exact hnew

/-- The entry with its reply. -/
def ReplayEntry.publish (entry : ReplayEntry) (reply : Reply) : ReplayEntry :=
  { entry with done := true, responses := reply.responses, err := reply.err }

/-- `finish` touches the cache only. -/
theorem finishReplay_mem (tid : Nat) (i : Input) (e : Inbound cfg) (reply : Reply)
    (w : World) : (finishReplay tid i e reply w).1.mem
      = { w.mem with
          replay := finishCache cfg i.saved.order tid (replayKey e.1) (published i e reply)
            w.mem.replay } := by
  exact tryPersist_mem i.saved _

variable {entry : ReplayEntry}

/-- The owner's reply is published in its own entry. -/
theorem finishReplay_owned {reply : Reply}
    (hentry : w.mem.replay.lookup (replayKey e.1) = some entry) (hbusy : entry.done = false)
    (howner : entry.owner = tid) :
    (finishReplay tid i e reply w).1.mem.replay
      = evict i.saved.order cfg.replayCapacity
          (w.mem.replay.insert (replayKey e.1) (entry.publish (published i e reply))) := by
  rw [finishReplay_mem]
  unfold finishCache
  rw [hentry]
  simp [hbusy, howner, ReplayEntry.publish]

theorem trimmed_sweepDropped (m : Mem) : Trimmed m.replay (sweepDropped m).replay := by
  refine Trimmed.keep (p := fun _ entry => !entry.done || !retiredReplay _ _ entry.envelope)
    ?_ m.replay
  intro k entry hbusy
  simp [hbusy]

theorem trimmed_sweep (now : Int) (m : Mem) :
    Trimmed m.replay (sweepDropped (sweepCollected (sweepReady cfg now m))).replay := by
  have hready : (sweepReady cfg now m).replay
      = prune cfg (effectiveNow now m).highWater m.replay := by
    show prune cfg (effectiveNow now m).highWater (effectiveNow now m).replay = _
    rw [effectiveNow_eq]
  have hcollected : (sweepCollected (sweepReady cfg now m)).replay
      = (sweepReady cfg now m).replay := (sweepCollected_frame _).2.1
  have hdropped := trimmed_sweepDropped (sweepCollected (sweepReady cfg now m))
  rw [hcollected, hready] at hdropped
  exact (trimmed_prune _ _).trans hdropped

variable {pc : Pc cfg}

theorem advance_trimmed {next : Next cfg} (hpc : pc.cacheless = true)
    (h : advance tid pc i w = some (w', next)) : Trimmed w.mem.replay w'.mem.replay := by
  obtain ⟨b, m, ha, hl⟩ := advance_effect h
  rw [hl.mem]
  cases ha.touches with
  | nothing h =>
    rw [h.replay]
    exact .refl _
  | mint => exact .refl _
  | six hp hframed hcalm hcache =>
    cases hp
    rcases hcache hpc with heq | rfl
    · rw [heq]
      exact .refl _
    · exact trimmed_sweep i.now w.mem

-- ===== the invariant

/-- The command a call handles, from `begin` to `finish`. -/
def Pc.handles : Pc cfg → Option (Inbound cfg)
  | .handling e | .starting e _ | .stopping e _ _ _ _ | .binding e _ _ | .finishing e _ =>
    some e
  | _ => none

/-- The command a call has for the cache, before `begin` or after. -/
def Pc.keys : Pc cfg → Option (Inbound cfg)
  | .dispatching e => some e
  | pc => pc.handles

/-- The call `tid` has the entry of `e` in flight. -/
def Owns (c : FMap GoString ReplayEntry) (tid : Nat) (e : Envelope) : Prop :=
  ∃ entry, c.lookup (replayKey e) = some entry ∧ entry.done = false ∧ entry.envelope = e
    ∧ entry.owner = tid

structure CacheInv (s : System cfg) : Prop where
  /-- Only commands that are kept in the cache get there. -/
  replayed : ∀ tid e, (s.threads.lookup tid).bind Pc.keys = some e → replayed e.1 = true
  /-- A call that handles a command has its entry in flight. -/
  owned : ∀ tid e, (s.threads.lookup tid).bind Pc.handles = some e →
    Owns s.world.mem.replay tid e.1
  /-- An entry is under its command's key, unless it was loaded; loaded
  keys are valid UTF-8. -/
  keyed : ∀ k entry, s.world.mem.replay.lookup k = some entry →
    Utf8.valid k = true ∨ replayKey entry.envelope = k

theorem Owns.trimmed {c' : FMap GoString ReplayEntry} {e : Envelope} (h : Owns c tid e)
    (hc : Trimmed c c') : Owns c' tid e := by
  obtain ⟨entry, hentry, hbusy, hrest⟩ := h
  exact ⟨entry, hc.busy _ _ hentry hbusy, hbusy, hrest⟩

theorem Owns.insert_ne {e : Envelope} (h : Owns c tid e) (hne : replayKey e ≠ key)
    (entry : ReplayEntry) : Owns (c.insert key entry) tid e := by
  obtain ⟨mine, hmine, hrest⟩ := h
  exact ⟨mine, by rw [AList.lookup_insert_ne hne, hmine], hrest⟩

/-- Two calls never have the same entry. -/
theorem Owns.unique {tid' : Nat} {e e' : Envelope} (h : Owns c tid e) (h' : Owns c tid' e')
    (hkey : replayKey e = replayKey e') : tid = tid' := by
  obtain ⟨entry, hentry, -, -, howner⟩ := h
  obtain ⟨entry', hentry', -, -, howner'⟩ := h'
  rw [hkey, hentry'] at hentry
  cases hentry
  rw [← howner, ← howner']

theorem Pc.Succ.handles {pc pc' : Pc cfg} (h : pc.Succ pc') :
    pc'.handles = pc.handles ∨ ∃ e, pc = .dispatching e ∧ pc' = .handling e := by
  cases h with
  | handling => exact .inr ⟨_, rfl, rfl⟩
  | _ => exact .inl rfl

theorem Pc.Succ.keys {pc pc' : Pc cfg} (h : pc.Succ pc') (he : pc'.keys = some e) :
    pc.keys = some e ∨ Allocator.replayed e.1 = true := by
  cases h with
  | dispatching hreplayed =>
    cases he
    exact .inr hreplayed
  | _ => first | exact .inl he | cases he

variable {r : World × Next cfg}

/-- The calls after a section: the others have their command still, and
`tid` has one only if the section leads to such a point. -/
theorem resume_bind {β : Type} (g : Pc cfg → Option β)
    (hg : ∀ e owner reply, g (.waiting e owner) = g (.answered e reply)) {t : Nat}
    {b : β} (h : ((s.resume tid pc i r).threads.lookup t).bind g = some b) :
    (t ≠ tid ∧ (s.threads.lookup t).bind g = some b) ∨
      t = tid ∧ ∃ pc', r.2 = .goto pc' ∧ g pc' = some b := by
  by_cases ht : t = tid
  · subst ht
    rw [resume_self] at h
    obtain ⟨pc', hpc', hb⟩ := Option.bind_eq_some_iff.mp h
    refine .inr ⟨rfl, pc', ?_, hb⟩
    cases hn : r.2 with
    | goto pc'' =>
      rw [hn] at hpc'
      cases hpc'
      rfl
    | ret | done =>
      rw [hn] at hpc'
      cases hpc'
  · rw [resume_other g hg s ht] at h
    exact .inl ⟨ht, h⟩

-- ===== preservation

/-- The commands of the calls after a section are commands of the
cache. -/
theorem CacheInv.replayed_run (h : CacheInv s)
    (hpc : s.threads.lookup tid = some pc) (hr : advance tid pc i s.world = some r) {t : Nat}
    (he : ((s.resume tid pc i r).threads.lookup t).bind Pc.keys = some e) :
    Allocator.replayed e.1 = true := by
  rcases resume_bind Pc.keys (fun _ _ _ => rfl) he with ⟨-, hold⟩ | ⟨rfl, pc', hnext, hkeys⟩
  · exact h.replayed t e hold
  · have hr' : advance t pc i s.world = some (r.1, .goto pc') := by rw [hr, ← hnext]
    rcases (advance_succ hr').keys hkeys with hbefore | hnew
    · refine h.replayed t e ?_
      rw [hpc]
      exact hbefore
    · exact hnew

/-- A section that trims the cache at most. -/
theorem CacheInv.trimmed (h : CacheInv s) (hpc : s.threads.lookup tid = some pc)
    (hr : advance tid pc i s.world = some r) (htrim : Trimmed s.world.mem.replay r.1.mem.replay)
    (hidle : ∀ pc', r.2 = .goto pc' → pc'.handles = pc.handles) :
    CacheInv (s.resume tid pc i r) where
  replayed t e he := h.replayed_run hpc hr he
  owned t e he := by
    refine (h.owned t e ?_).trimmed htrim
    rcases resume_bind Pc.handles (fun _ _ _ => rfl) he with
      ⟨-, hold⟩ | ⟨rfl, pc', hnext, hhandles⟩
    · exact hold
    · rw [hpc, ← hhandles]
      exact (hidle pc' hnext).symm
  keyed k entry hk := h.keyed k entry (htrim.sub k entry hk)

/-- The section that begins an entry. -/
theorem CacheInv.begun {w' : World} (h : CacheInv s)
    (hpc : s.threads.lookup tid = some (.dispatching e))
    (hr : advance tid (.dispatching e) i s.world = some (w', .goto (.handling e)))
    (hnew : (prune cfg i.now s.world.mem.replay).lookup (replayKey e.1) = none)
    (hc : Trimmed s.world.mem.replay c)
    (hw' : w'.mem.replay = c.insert (replayKey e.1) ⟨i.now, false, e.1, [], none, tid⟩) :
    CacheInv (s.resume tid (.dispatching e) i (w', .goto (.handling e))) where
  replayed t e' he' := h.replayed_run hpc hr he'
  owned t e' he' := by
    show Owns w'.mem.replay t e'.1
    rw [hw']
    rcases resume_bind Pc.handles (fun _ _ _ => rfl) he' with
      ⟨-, hold⟩ | ⟨rfl, pc', hnext, hhandles⟩
    · have howns := h.owned t e' hold
      refine (howns.trimmed hc).insert_ne ?_ _
      -- An entry in flight under this key would have been found.
      intro hkey
      obtain ⟨entry, hentry, hbusy, -⟩ := howns.trimmed (@trimmed_prune cfg i.now _)
      rw [hkey, hnew] at hentry
      cases hentry
    · cases hnext
      cases hhandles
      exact ⟨_, AList.lookup_insert _, rfl, rfl, rfl⟩
  keyed k entry hk := by
    change w'.mem.replay.lookup k = some entry at hk
    rw [hw'] at hk
    rcases AList.of_lookup_insert hk with ⟨heq, rfl⟩ | ⟨-, hk⟩
    · exact .inr heq.symm
    · exact h.keyed k entry (hc.sub k entry hk)

/-- The section that finishes an entry. -/
theorem CacheInv.finished {reply : Reply} (h : CacheInv s)
    (hpc : s.threads.lookup tid = some (.finishing e reply)) :
    CacheInv (s.resume tid (.finishing e reply) i (finishReplay tid i e reply s.world)) := by
  have hr : advance tid (.finishing e reply) i s.world
      = some (finishReplay tid i e reply s.world) := rfl
  obtain ⟨entry, hentry, hbusy, henv, howner⟩ := h.owned tid e (by rw [hpc]; rfl)
  have htrim := trimmed_evict i.saved.order cfg.replayCapacity
    (s.world.mem.replay.insert (replayKey e.1) (entry.publish (published i e reply)))
  rw [← finishReplay_owned hentry hbusy howner] at htrim
  refine ⟨fun t e' he' => h.replayed_run hpc hr he', ?_, ?_⟩
  · intro t e' he'
    rcases resume_bind Pc.handles (fun _ _ _ => rfl) he' with
      ⟨hne, hold⟩ | ⟨rfl, pc', hnext, -⟩
    · have howns := h.owned t e' hold
      refine (howns.insert_ne ?_ _).trimmed htrim
      intro hkey
      exact hne (howns.unique ⟨entry, hentry, hbusy, henv, howner⟩ hkey)
    · cases hnext
  · intro k entry' hk
    have hk' := htrim.sub k entry' hk
    rcases AList.of_lookup_insert hk' with ⟨rfl, rfl⟩ | ⟨-, hk'⟩
    · exact h.keyed _ entry hentry
    · exact h.keyed k entry' hk'

theorem CacheInv.run (h : CacheInv s) (hpc : s.threads.lookup tid = some pc)
    (hr : advance tid pc i s.world = some r) : CacheInv (s.resume tid pc i r) := by
  by_cases hcacheless : pc.cacheless = true
  · refine h.trimmed hpc hr (advance_trimmed hcacheless hr) ?_
    intro pc' hnext
    have hr' : advance tid pc i s.world = some (r.1, .goto pc') := by rw [hr, ← hnext]
    rcases (advance_succ hr').handles with hsame | ⟨e, rfl, -⟩
    · exact hsame
    · cases hcacheless
  · cases pc with
    | dispatching e =>
      have hbegin := beginReplay_begun tid i e s.world
      have heq : beginReplay tid i e s.world = r := Option.some.inj hr
      rw [heq] at hbegin
      cases hbegin with
      | refused hc => exact h.trimmed hpc hr hc fun _ hnext => nomatch hnext
      | joined hentry hsame =>
        refine h.trimmed hpc hr (trimmed_prune _ _) ?_
        intro pc' hnext
        cases hnext
        split <;> rfl
      | begun hnew hc hp =>
        refine h.begun hpc hr hnew hc ?_
        rw [persist_mem hp]
        rfl
    | finishing e reply =>
      cases hr
      exact h.finished hpc
    | _ => exact absurd rfl hcacheless

-- ===== reloads

/-- Where the loaded cache has its entry of a key from: the last saved
command under the key, or what was there before. -/
theorem lookup_loadReplay (hkey : key ≠ []) (l : List PersistedReplay)
    (acc : FMap GoString ReplayEntry) :
    (∃ p ∈ l, p.complete = true ∧ p.key = key ∧
        (l.foldl loadReplay acc).lookup key = some p.restore) ∨
      (∀ p ∈ l, p.complete = true → p.key ≠ key) ∧
        (l.foldl loadReplay acc).lookup key = acc.lookup key := by
  induction l generalizing acc with
  | nil => exact .inr ⟨fun p hp => absurd hp List.not_mem_nil, rfl⟩
  | cons q rest ih =>
    rw [List.foldl_cons]
    rcases ih (loadReplay acc q) with ⟨p, hp, hcomplete, hpkey, hlookup⟩ | ⟨hrest, hlookup⟩
    · exact .inl ⟨p, List.mem_cons_of_mem _ hp, hcomplete, hpkey, hlookup⟩
    · rw [hlookup]
      by_cases hq : q.complete = true ∧ q.key = key
      · refine .inl ⟨q, List.mem_cons_self, hq.1, hq.2, ?_⟩
        simp [loadReplay, hq.1, hq.2, hkey]
      · refine .inr ⟨?_, ?_⟩
        · intro p hp hcomplete hpkey
          rcases List.mem_cons.mp hp with rfl | hp
          · exact hq ⟨hcomplete, hpkey⟩
          · exact hrest p hp hcomplete hpkey
        · unfold loadReplay
          split
          · rfl
          next hload =>
            refine AList.lookup_insert_ne fun heq => hq ⟨?_, heq.symm⟩
            simp only [not_or, Bool.not_eq_true, Bool.not_eq_false'] at hload
            exact hload.1

variable {granted now : Int} {m : Mem}

theorem load_replay {snap : Snapshot} (h : load cfg granted now snap = .ok m) :
    m.replay = snap.replay.foldl loadReplay ∅ := by
  obtain ⟨index, executions, used, -, -, -, rfl⟩ := load_ok h
  rfl

/-- An entry that comes back was saved. -/
theorem loaded_entry {snap : Snapshot} {k : GoString} (h : load cfg granted now snap = .ok m)
    (hentry : m.replay.lookup k = some entry) : ∃ p ∈ snap.replay, entry = p.restore := by
  have hfold : ∀ (l : List PersistedReplay) (acc : FMap GoString ReplayEntry),
      (l.foldl loadReplay acc).lookup k = some entry →
        (∃ p ∈ l, entry = p.restore) ∨ acc.lookup k = some entry := by
    intro l
    induction l with
    | nil => exact fun acc hacc => .inr hacc
    | cons p l ih =>
      intro acc hacc
      rcases ih _ hacc with ⟨p', hp', heq⟩ | hacc'
      · exact .inl ⟨p', List.mem_cons_of_mem _ hp', heq⟩
      · unfold loadReplay at hacc'
        split at hacc'
        · exact .inr hacc'
        rw [AList.lookup_insert_if] at hacc'
        split at hacc'
        · exact .inl ⟨p, List.mem_cons_self, (Option.some.inj hacc').symm⟩
        · exact .inr hacc'
  rw [load_replay h] at hentry
  rcases hfold _ _ hentry with hfound | hnone
  · exact hfound
  · cases hnone

theorem mem_snapshot_replay {saved : SaveIn} {p : PersistedReplay} :
    p ∈ (snapshot cfg saved m).replay ↔ ∃ k entry, k ∈ visit saved.order m.replay ∧
      m.replay.lookup k = some entry ∧ p = entry.save saved.prefer k := by
  simp only [snapshot, List.mem_filterMap, Option.map_eq_some_iff]
  constructor
  · intro h
    obtain ⟨k, hk, entry, hentry, rfl⟩ := h
    exact ⟨k, entry, hk, hentry, rfl⟩
  · intro h
    obtain ⟨k, entry, hk, hentry, rfl⟩ := h
    exact ⟨k, hk, entry, hentry, rfl⟩

/-- The keys of a loaded cache are valid UTF-8. -/
theorem valid_of_loaded {saved : SaveIn} {src : Mem} {k : GoString}
    (h : load cfg granted now (snapshot cfg saved src) = .ok m)
    (hk : m.replay.lookup k = some entry) : Utf8.valid k = true := by
  by_cases hkey : k = []
  · subst hkey
    rfl
  · rw [load_replay h] at hk
    rcases lookup_loadReplay hkey (snapshot cfg saved src).replay ∅ with
      ⟨p, hp, -, hpkey, -⟩ | ⟨-, hnone⟩
    · obtain ⟨k₀, entry₀, -, -, rfl⟩ := mem_snapshot_replay.mp hp
      rw [← hpkey]
      exact Utf8.valid_replaceInvalid k₀
    · rw [hnone] at hk
      cases hk

variable {t : System cfg}

theorem CacheInv.restart (hw : LedgerWorld cfg s.world)
    (h : s.step (.restart granted now) = some t) : CacheInv t := by
  obtain ⟨-, hm, -, hthreads⟩ := restart_step h
  refine ⟨?_, ?_, ?_⟩
  · simp [hthreads]
  · simp [hthreads]
  · intro k entry hk
    obtain ⟨-, hempty⟩ | ⟨snap, hsnap, hload⟩ := hm
    · rw [hempty] at hk
      cases hk
    · obtain ⟨saved, src, -, -, rfl⟩ := hw.disk snap hsnap
      exact .inl (valid_of_loaded hload hk)

/-- A step that leaves the cache alone and lets a call in at most. -/
theorem CacheInv.entered (h : CacheInv s) (hreplay : t.world.mem.replay = s.world.mem.replay)
    (hthreads : Entered s t) : CacheInv t := by
  have hidle : ∀ pc : Pc cfg, pc.entry = true → pc.keys = none ∧ pc.handles = none := by
    intro pc hpc
    cases pc <;> first | exact ⟨rfl, rfl⟩ | cases hpc
  refine ⟨?_, ?_, ?_⟩
  · intro tid e he
    exact h.replayed tid e (hthreads.bind (fun pc hpc => (hidle pc hpc).1) he)
  · intro tid e he
    rw [hreplay]
    exact h.owned tid e (hthreads.bind (fun pc hpc => (hidle pc hpc).2) he)
  · intro k entry hk
    rw [hreplay] at hk
    exact h.keyed k entry hk

theorem CacheInv.step {l : Label cfg} (h : CacheInv s) (hw : LedgerWorld cfg s.world)
    (hstep : s.step l = some t) : CacheInv t := by
  cases step_kind hstep with
  | run hpc hr => exact h.run hpc hr
  | other _ _ hframe hthreads => exact h.entered hframe.mem.replay hthreads
  | restart => exact .restart hw hstep

theorem cacheInv_reachable (hs : (machine cfg).Reach s) : CacheInv s := by
  refine hs.invariant_with (J := fun s => LedgerWorld cfg s.world)
    (fun s hs => ledgerWorld_reachable hs) ?_ ?_
  · intro s h0
    cases h0
    exact ⟨fun tid e he => (nomatch he), fun tid e he => (nomatch he),
      fun k entry hk => (nomatch hk)⟩
  · intro s l t hw _ h _ hstep
    exact h.step hw hstep

end R1s.Allocator
