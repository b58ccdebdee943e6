/-
The way of a response through the system: from the section that builds it
with the call, into the replay cache and the store, back from a reload,
and out to every call that delivers the command again.

`Holding` is the invariant rule for it: what holds of every response and
every error when they are made holds of all that the system has, and of
every response a call returns.
-/
import R1s.Allocator.Proofs.Responses

namespace R1s.Allocator

variable {cfg : Config} {pc : Pc cfg} {i : Input} {w w' : World}

-- ===== the invariant rule

/-- `P` holds of every response in the system, and `Q` of every error
left for the end of a call. -/
structure Holding (P : Envelope → Prop) (Q : GoErr → Prop) (s : System cfg) : Prop where
  held : ∀ {tid p}, s.threads.lookup tid = some p → ∀ e ∈ p.held, P e
  left : ∀ {tid p}, s.threads.lookup tid = some p → ∀ err, p.left = some err → Q err
  cached : ∀ {e}, s.world.mem.cached e → P e
  disk : ∀ {snap}, s.world.disk = some snap → ∀ p ∈ snap.replay, ∀ e ∈ p.responses, P e

section Rule

variable {P : Envelope → Prop} {Q : GoErr → Prop} {s t : System cfg}

theorem Holding.initial : Holding P Q (System.initial cfg) where
  held h := nomatch h
  left h := nomatch h
  cached h := by
    obtain ⟨k, entry, hentry, -⟩ := h
    cases hentry
  disk h := nomatch h

theorem Holding.mono {P' : Envelope → Prop} {Q' : GoErr → Prop} (h : Holding P Q s)
    (hP : ∀ e, P e → P' e) (hQ : ∀ err, Q err → Q' err) : Holding P' Q' s where
  held hp e he := hP e (h.held hp e he)
  left hp err herr := hQ err (h.left hp err herr)
  cached he := hP _ (h.cached he)
  disk hsnap p hp e he := hP e (h.disk hsnap p hp e he)

variable {e : Envelope} {tid : Nat}

/-- What a section puts into the cache it returns as well. -/
theorem advance_cached {next : Next cfg} (h : advance tid pc i w = some (w', next))
    (he : w'.mem.cached e) : w.mem.cached e ∨ e ∈ next.held := by
  have trimmed {c : FMap GoString ReplayEntry} (hc : Trimmed w.mem.replay c)
      (hw' : w'.mem.replay = c) : w.mem.cached e := by
    obtain ⟨k, entry, hentry, hmem⟩ := he
    rw [hw'] at hentry
    exact ⟨k, entry, hc.sub k entry hentry, hmem⟩
  by_cases hpc : pc.cacheless = true
  · exact .inl (trimmed (advance_trimmed hpc h) rfl)
  · cases pc with
    | dispatching e' =>
      have hbegun := beginReplay_begun tid i e' w
      rw [Option.some.inj h] at hbegun
      cases hbegun with
      | refused hc => exact .inl (trimmed hc rfl)
      | joined _ _ => exact .inl (trimmed (trimmed_prune _ _) rfl)
      | begun _ hc hp =>
        obtain ⟨k, entry, hentry, hmem⟩ := he
        rw [persist_mem hp] at hentry
        rcases AList.of_lookup_insert hentry with ⟨-, rfl⟩ | ⟨-, hentry⟩
        · cases hmem
        · exact .inl ⟨k, entry, hc.sub k entry hentry, hmem⟩
    | finishing e' reply =>
      obtain ⟨k, entry, hentry, hmem⟩ := he
      have hw' : w' = (finishReplay tid i e' reply w).1 := world_eq h
      cases h
      rw [hw', finishReplay_mem] at hentry
      replace hentry := (trimmed_evict _ _ _).sub k entry hentry
      split at hentry
      next mine hmine =>
        split at hentry
        · rcases AList.of_lookup_insert hentry with ⟨-, rfl⟩ | ⟨-, hentry⟩
          · exact .inr hmem
          · exact .inl ⟨k, entry, hentry, hmem⟩
        · exact .inl ⟨k, entry, hentry, hmem⟩
      · exact .inl ⟨k, entry, hentry, hmem⟩
    | _ => exact absurd rfl hpc

/-- A snapshot holds the responses of the cache. -/
theorem cached_of_snapshot {saved : SaveIn} {m : Mem} {p : PersistedReplay}
    (hp : p ∈ (snapshot cfg saved m).replay) (he : e ∈ p.responses) : m.cached e := by
  obtain ⟨k, entry, -, hentry, rfl⟩ := mem_snapshot_replay.mp hp
  refine ⟨k, entry, hentry, ?_⟩
  change e ∈ (if entry.done then entry.responses else []) at he
  split at he
  · exact he
  · cases he

theorem Stored.holding (hd : Stored cfg w w') (hcached : ∀ e, w'.mem.cached e → P e)
    (hdisk : ∀ {snap}, w.disk = some snap → ∀ p ∈ snap.replay, ∀ e ∈ p.responses, P e)
    {snap : Snapshot} (hsnap : w'.disk = some snap) :
    ∀ p ∈ snap.replay, ∀ e ∈ p.responses, P e := by
  intro p hp e he
  rcases hd with hsame | ⟨-, saved, hsaved⟩
  · rw [hsame] at hsnap
    exact hdisk hsnap p hp e he
  · obtain rfl := Option.some.inj (hsaved.symm.trans hsnap)
    exact hcached e (cached_of_snapshot hp he)

/-- The calls after a section: the one that ran it, the ones it answered,
and the others. -/
theorem resume_threads {t : Nat} {p : Pc cfg} {r : World × Next cfg}
    (hr : advance tid pc i s.world = some r) (h : (s.resume tid pc i r).threads.lookup t = some p) :
    r.2.pc = some p ∨ (p.left = none ∧ p.held = r.2.held) ∨ s.threads.lookup t = some p := by
  by_cases ht : t = tid
  · rw [ht, resume_self] at h
    exact .inl h
  · have herase : (s.threads.erase tid).lookup t = s.threads.lookup t :=
      AList.lookup_erase_ne ht
    unfold System.resume at h
    cases hn : r.2 with
    | goto pc' =>
      rw [hn] at h
      rw [AList.lookup_insert_ne ht] at h
      exact .inr (.inr h)
    | done err =>
      rw [hn] at h
      exact .inr (.inr (herase.symm.trans h))
    | ret reply =>
      rw [hn] at h
      cases pc with
      | finishing e left =>
        cases hr
        change ((s.threads.erase tid).mapVal fun _ => wake tid (published i e left)).lookup t
          = some p at h
        rw [AList.lookup_mapVal, herase] at h
        obtain ⟨p', hp', hwake⟩ := Option.map_eq_some_iff.mp h
        cases p' with
        | waiting e' owner =>
          change (if owner = tid then Pc.answered e' (published i e left)
            else .waiting e' owner) = p at hwake
          split at hwake
          · subst hwake
            cases hn
            exact .inr (.inl ⟨rfl, rfl⟩)
          · subst hwake
            exact .inr (.inr hp')
        | _ =>
          obtain rfl : _ = p := hwake
          exact .inr (.inr hp')
      | _ => exact .inr (.inr (herase.symm.trans h))

/-- A section keeps `Holding` when what it leads to is in `P` and `Q`. -/
theorem Holding.run {r : World × Next cfg} (h : Holding P Q s)
    (hr : advance tid pc i s.world = some r) (hheld : ∀ e ∈ r.2.held, P e)
    (hleft : ∀ err, r.2.pc.bind Pc.left = some err → Q err) :
    Holding P Q (s.resume tid pc i r) := by
  have hcached : ∀ e, r.1.mem.cached e → P e := by
    intro e he
    rcases advance_cached hr he with hold | hnew
    · exact h.cached hold
    · exact hheld e hnew
  constructor
  · intro t p hp e he
    rcases resume_threads hr hp with hself | ⟨-, hanswered⟩ | hother
    · refine hheld e ?_
      cases hn : r.2 <;> rw [hn] at hself <;> cases hself
      exact he
    · rw [hanswered] at he
      exact hheld e he
    · exact h.held hother e he
  · intro t p hp err herr
    rcases resume_threads hr hp with hself | ⟨hnone, -⟩ | hother
    · refine hleft err ?_
      rw [hself]
      exact herr
    · rw [hnone] at herr
      cases herr
    · exact h.left hother err herr
  · exact hcached _
  · intro snap hsnap
    exact (advance_changes hr).disk.holding hcached h.disk hsnap

/-- A step that runs no call. -/
theorem Holding.other {l : Label cfg} (h : Holding P Q s) (hrun : ∀ tid i, l ≠ .run tid i)
    (hl : l.isRestart = false) (hstep : s.step l = some t) : Holding P Q t := by
  obtain ⟨hframe, hentered⟩ := step_frame hrun hl hstep
  have hthreads : ∀ {tid p}, t.threads.lookup tid = some p →
      (p.held = [] ∧ p.left = none) ∨ s.threads.lookup tid = some p := by
    intro tid p hp
    rcases hentered.lookup hp with hold | hentry
    · exact .inr hold
    · cases p <;> first | exact .inl ⟨rfl, rfl⟩ | cases hentry
  have hcached : ∀ e, t.world.mem.cached e → P e := by
    intro e he
    obtain ⟨k, entry, hentry, hmem⟩ := he
    rw [hframe.mem.replay] at hentry
    exact h.cached ⟨k, entry, hentry, hmem⟩
  constructor
  · intro tid p hp e he
    rcases hthreads hp with ⟨hnone, -⟩ | hold
    · rw [hnone] at he
      cases he
    · exact h.held hold e he
  · intro tid p hp err herr
    rcases hthreads hp with ⟨-, hnone⟩ | hold
    · rw [hnone] at herr
      cases herr
    · exact h.left hold err herr
  · exact hcached _
  · intro snap hsnap
    exact hframe.disk.holding hcached h.disk hsnap

/-- What a loaded cache holds was saved. -/
theorem cached_of_load {granted now : Int} {snap : Snapshot} {m : Mem}
    (h : load cfg granted now snap = .ok m) (he : m.cached e) :
    ∃ p ∈ snap.replay, e ∈ p.responses := by
  obtain ⟨k, entry, hentry, hmem⟩ := he
  obtain ⟨p, hp, rfl⟩ := loaded_entry h hentry
  exact ⟨p, hp, hmem⟩

theorem Holding.restart {granted now : Int} (h : Holding P Q s)
    (hstep : s.step (.restart granted now) = some t) : Holding P Q t := by
  obtain ⟨-, hm, hdisk, hthreads⟩ := restart_step hstep
  constructor
  · simp [hthreads]
  · simp [hthreads]
  · intro e he
    obtain ⟨-, hempty⟩ | ⟨snap, hsnap, hm⟩ := hm
    · rw [hempty] at he
      obtain ⟨k, entry, hentry, -⟩ := he
      cases hentry
    · obtain ⟨p, hp, hmem⟩ := cached_of_load hm he
      exact h.disk hsnap p hp e hmem
  · rw [hdisk]
    exact h.disk

/-- What a step returns to a caller of `Handle`. -/
def System.returned (s : System cfg) : Label cfg → List Envelope
  | .run tid i =>
    match (s.threads.lookup tid).bind fun p => advance tid p i s.world with
    | some (_, .ret reply) => reply.responses
    | _ => []
  | _ => []

/-- A step keeps `Holding`, and what it returns is in `P`, when the
responses and errors its section makes are in `P` and `Q`. -/
theorem Holding.step {l : Label cfg} (h : Holding P Q s) (hstep : s.step l = some t)
    (hmade : ∀ {tid i p r}, l = .run tid i → s.threads.lookup tid = some p →
      advance tid p i s.world = some r →
        (∀ e ∈ r.2.held, Made cfg p i s.world r.1 e → P e) ∧
          ∀ err, Problem cfg p s.world err → Q err) : Holding P Q t ∧ ∀ e ∈ s.returned l, P e := by
  cases step_kind hstep with
  | @run tid i p r hp hr =>
    obtain ⟨hP, hQ⟩ := hmade rfl hp hr
    have hsourced : Sourced cfg p i s.world r.1 r.2 := advance_sourced hr
    have hheld : ∀ e ∈ r.2.held, P e := by
      intro e he
      rcases hsourced.held e he with hown | ⟨-, hcached⟩ | hnew
      · exact h.held hp e hown
      · exact h.cached hcached
      · exact hP e he hnew
    refine ⟨h.run hr hheld fun err herr => hQ err (hsourced.left err herr), ?_⟩
    intro e he
    unfold System.returned at he
    dsimp only at he
    rw [hp, Option.bind_some, hr] at he
    obtain ⟨w₁, next⟩ := r
    cases next with
    | ret reply => exact hheld e he
    | goto | done => cases he
  | other hrun hl =>
    refine ⟨h.other hrun hl hstep, ?_⟩
    intro e he
    cases l with
    | run tid i => exact absurd rfl (hrun tid i)
    | _ => cases he
  | restart => exact ⟨h.restart hstep, nofun⟩

end Rule

end R1s.Allocator
