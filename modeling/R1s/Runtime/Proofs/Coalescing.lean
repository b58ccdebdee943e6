/-
Starts and recoveries of one execution share one backend call.

# The entry as a ticket

The caller that registers an entry owns it: it alone asks the backend,
and it writes the answer into the entry before it returns. Everybody who
finds the entry meanwhile waits for that answer. `Coalesced` ties the
answers the backend gave to the entries: an entry that is not ready has
its owner still under way, one that is ready carries the answer of the
only call made for it, and a failed one is no longer registered.
-/
import R1s.Runtime.Proofs.Sections
import R1s.Runtime.Proofs.Leak

namespace R1s.Runtime

open Allocator (Fault)

variable {p : Platform} {m m' : Manager} {c c' : Call} {i : CallIn} {n : Notes}

-- ===== what starts touch

/-- The entry a start owns, and the backend's answer once it is there. -/
def Call.ticket : Call → Option (GoString × Nat × Option (Option Fault))
  | .launching _ id q => some (id, q, none)
  | .launched id q err => some (id, q, some err)
  | _ => none

/-- The ticket of a thread. -/
def Manager.ticket (m : Manager) (tid : Nat) : Option (GoString × Nat × Option (Option Fault)) :=
  (m.calls.lookup tid).bind Call.ticket

variable {id : GoString} {q tid : Nat}

theorem launchOf_ticket {answer : Option (Option Fault)} (h : m.ticket tid = some (id, q, answer)) :
    (m.calls.lookup tid).bind Call.launchOf = some (id, q) := by
  obtain ⟨c, hc, hticket⟩ := Option.bind_eq_some_iff.mp h
  rw [hc]
  cases c <;> cases hticket <;> rfl

/-- What starts read and write of two managers is the same. -/
structure SameStarts (m m' : Manager) : Prop where
  entries : m'.entries = m.entries
  fresh : m'.fresh = m.fresh
  flags : ∀ q, (m'.heap.lookup q).map (fun e => (e.ready, e.startErr))
    = (m.heap.lookup q).map fun e => (e.ready, e.startErr)
  tickets : ∀ tid, m'.ticket tid = m.ticket tid

theorem SameStarts.refl (m : Manager) : SameStarts m m := ⟨rfl, rfl, fun _ => rfl, fun _ => rfl⟩

variable {e : Entry}

theorem sameStarts_setEntry {e' : Entry} (he : m.heap.lookup q = some e)
    (hready : e'.ready = e.ready) (hstart : e'.startErr = e.startErr) :
    SameStarts m (m.setEntry q e') := by
  refine ⟨rfl, rfl, fun q' => ?_, fun _ => rfl⟩
  by_cases hq : q' = q
  · subst hq
    rw [Manager.setEntry, AList.lookup_insert, he]
    simp [hready, hstart]
  · rw [lookup_setEntry hq]

theorem sameStarts_unmark (he : m.heap.lookup q = some e) (failure : Option Fault) :
    SameStarts m (m.unmark q e failure) := by
  unfold Manager.unmark
  by_cases hdone : e.done = true
  · rw [if_pos hdone]
    exact .refl m
  · rw [if_neg hdone]
    exact sameStarts_setEntry he rfl rfl

/-- A thread that owns no entry before and after its section. -/
theorem SameStarts.moved (h : SameStarts m m') (hnone : m.ticket tid = none)
    (hc' : c'.ticket = none) : SameStarts m { m' with calls := m'.calls.insert tid c' } := by
  refine ⟨h.entries, h.fresh, h.flags, fun t => ?_⟩
  by_cases ht : t = tid
  · subst ht
    rw [hnone, Manager.ticket, AList.lookup_insert]
    exact hc'
  · rw [← h.tickets t, Manager.ticket, AList.lookup_insert_ne ht]
    rfl

theorem sameStarts_monitor {report : CallIn} {pc : MonitorPc}
    (hstep : MonitorStep m q report i pc m') : SameStarts m m' := by
  cases hstep with
  | observed _ he =>
    refine ⟨rfl, rfl, (sameStarts_setEntry he ?_ ?_).flags, fun _ => rfl⟩ <;> rfl
  | reported _ | uncleaned _ _ | cleaned _ _ => exact ⟨rfl, rfl, fun _ => rfl, fun _ => rfl⟩
  | finished he =>
    refine ⟨rfl, rfl, (sameStarts_setEntry he ?_ ?_).flags, fun _ => rfl⟩ <;> rfl

-- ===== the invariant

/-- The answers of the backend and the entries they were given for. -/
structure Coalesced (m : Manager) (n : Notes) : Prop where
  once : (n.asked.map Prod.fst).Nodup
  below : ∀ {q err}, (q, err) ∈ n.asked → q < m.fresh
  pending : ∀ {tid id q}, m.ticket tid = some (id, q, none) → q ∉ n.asked.map Prod.fst
  answer : ∀ {tid id q err}, m.ticket tid = some (id, q, some err) → (q, err) ∈ n.asked
  waiting : ∀ {q e}, m.heap.lookup q = some e → e.ready = false →
    ∃ tid id answer, m.ticket tid = some (id, q, answer)
  ready : ∀ {q e}, m.heap.lookup q = some e → e.ready = true → (q, e.startErr) ∈ n.asked
  named : ∀ {id id' q}, m.entries.lookup id = some q → m.entries.lookup id' = some q → id = id'
  kept : ∀ {id q e}, m.entries.lookup id = some q → m.heap.lookup q = some e →
    e.ready = true → e.startErr = none

theorem coalesced_empty : Coalesced .empty {} where
  once := List.nodup_nil
  below := nofun
  pending := nofun
  answer := nofun
  waiting := nofun
  ready := nofun
  named := nofun
  kept := nofun

/-- The start flags of an entry, read back. -/
theorem SameStarts.lookup {e' : Entry} (h : SameStarts m m') (he' : m'.heap.lookup q = some e') :
    ∃ e, m.heap.lookup q = some e ∧ e.ready = e'.ready ∧ e.startErr = e'.startErr := by
  have hflags := h.flags q
  rw [he'] at hflags
  obtain ⟨e, he, heq⟩ := Option.map_eq_some_iff.mp hflags.symm
  simp only [Prod.mk.injEq] at heq
  exact ⟨e, he, heq.1, heq.2⟩

theorem Coalesced.congr (h : Coalesced m n) (hsame : SameStarts m m') : Coalesced m' n where
  once := h.once
  below := by
    rw [hsame.fresh]
    exact h.below
  pending := by
    intro tid id q ht
    rw [hsame.tickets] at ht
    exact h.pending ht
  answer := by
    intro tid id q err ht
    rw [hsame.tickets] at ht
    exact h.answer ht
  waiting := by
    intro q e' he' hready
    obtain ⟨e, he, hr, _⟩ := hsame.lookup he'
    obtain ⟨tid, id, answer, ht⟩ := h.waiting he (hr.trans hready)
    refine ⟨tid, id, answer, ?_⟩
    rw [hsame.tickets]
    exact ht
  ready := by
    intro q e' he' hready
    obtain ⟨e, he, hr, hs⟩ := hsame.lookup he'
    rw [← hs]
    exact h.ready he (hr.trans hready)
  named := by
    rw [hsame.entries]
    exact h.named
  kept := by
    intro id q e' hreg he' hready
    rw [hsame.entries] at hreg
    obtain ⟨e, he, hr, hs⟩ := hsame.lookup he'
    rw [← hs]
    exact h.kept hreg he (hr.trans hready)

/-- Only the thread `tid` has another ticket. -/
theorem ticket_insert {t : Nat} :
    ({ m with calls := m.calls.insert tid c' } : Manager).ticket t
      = if t = tid then c'.ticket else m.ticket t := by
  rw [Manager.ticket, AList.lookup_insert_if]
  split
  · rfl
  · rfl

variable {fingerprint : GoString} {recover : Bool}

/-- An entry is registered: nothing was asked for it yet. -/
theorem Coalesced.claimed (h : Coalesced m n) (hm : MgrInv m) (hfree : m.entries.lookup id = none)
    (hnone : m.ticket tid = none) :
    Coalesced
      { m with
        entries := m.entries.insert id m.fresh,
        heap := m.heap.insert m.fresh { fingerprint := fingerprint },
        fresh := m.fresh + 1,
        calls := m.calls.insert tid (.launching recover id m.fresh) } n := by
  have hunasked : m.fresh ∉ n.asked.map Prod.fst := by
    intro hmem
    obtain ⟨⟨q, err⟩, hq, hfst⟩ := List.mem_map.mp hmem
    have hlt := h.below hq
    omega
  have hticket : ∀ {t id' q answer},
      ({ m with calls := m.calls.insert tid (.launching recover id m.fresh) } :
        Manager).ticket t = some (id', q, answer) →
      q = m.fresh ∧ answer = none ∨ m.ticket t = some (id', q, answer) := by
    intro t id' q answer ht
    rw [ticket_insert] at ht
    split at ht
    · cases ht
      exact .inl ⟨rfl, rfl⟩
    · exact .inr ht
  have hregistered : ∀ {k q}, (m.entries.insert id m.fresh).lookup k = some q →
      k = id ∧ q = m.fresh ∨ k ≠ id ∧ m.entries.lookup k = some q ∧ q < m.fresh := by
    intro k q hk
    rcases AList.of_lookup_insert hk with ⟨heq, rfl⟩ | ⟨hne, hk⟩
    · exact .inl ⟨heq, rfl⟩
    · obtain ⟨e, he⟩ := hm.entry hk
      exact .inr ⟨hne, hk, hm.fresh he⟩
  constructor
  case once => exact h.once
  case below => exact fun hq => Nat.lt_succ_of_lt (h.below hq)
  case pending =>
    intro t k q ht
    rcases hticket ht with ⟨rfl, _⟩ | hold
    · exact hunasked
    · exact h.pending hold
  case answer =>
    intro t k q err ht
    rcases hticket ht with ⟨_, hnone⟩ | hold
    · cases hnone
    · exact h.answer hold
  case waiting =>
    intro q e he hready
    rcases AList.of_lookup_insert he with ⟨heq, -⟩ | ⟨-, he⟩
    · refine ⟨tid, id, none, ?_⟩
      rw [heq, Manager.ticket, AList.lookup_insert]
      rfl
    obtain ⟨t, k, answer, ht⟩ := h.waiting he hready
    refine ⟨t, k, answer, ?_⟩
    have hne : t ≠ tid := by
      rintro rfl
      rw [hnone] at ht
      cases ht
    rw [Manager.ticket, AList.lookup_insert_ne hne]
    exact ht
  case ready =>
    intro q e he hready
    rcases AList.of_lookup_insert he with ⟨-, rfl⟩ | ⟨-, he⟩
    · cases hready
    · exact h.ready he hready
  case named =>
    intro k k' q hk hk'
    rcases hregistered hk with ⟨rfl, hq⟩ | ⟨_, hold, hlt⟩ <;>
      rcases hregistered hk' with ⟨rfl, hq'⟩ | ⟨_, hold', hlt'⟩
    · rfl
    · omega
    · omega
    · exact h.named hold hold'
  case kept =>
    intro k q e hk he hready
    simp only [AList.lookup_insert_if] at he
    rcases hregistered hk with ⟨_, rfl⟩ | ⟨_, hold, hlt⟩
    · rw [if_pos rfl] at he
      cases he
      cases hready
    · rw [if_neg (Nat.ne_of_lt hlt)] at he
      exact h.kept hold he hready

/-- Two threads never own one entry. -/
theorem ticket_owner {tid' : Nat} {id' : GoString} {answer answer' : Option (Option Fault)}
    (hm : MgrInv m) (h : m.ticket tid = some (id, q, answer))
    (h' : m.ticket tid' = some (id', q, answer')) :
    tid = tid' := hm.owner (launchOf_ticket h) (launchOf_ticket h')

variable {err : Option Fault}

/-- The backend answers the owner of an entry. -/
theorem Coalesced.asked {tasks : FMap GoString Task} (h : Coalesced m n) (hm : MgrInv m)
    (hc : m.ticket tid = some (id, q, none)) :
    Coalesced
      { m with tasks := tasks, calls := m.calls.insert tid (.launched id q err) }
      { n with asked := (q, err) :: n.asked } := by
  have hticket : ∀ {t k q' answer},
      ({ m with calls := m.calls.insert tid (.launched id q err) } : Manager).ticket t
        = some (k, q', answer) →
      q' = q ∧ answer = some err ∨ q' ≠ q ∧ m.ticket t = some (k, q', answer) := by
    intro t k q' answer ht
    rw [ticket_insert] at ht
    split at ht
    · cases ht
      exact .inl ⟨rfl, rfl⟩
    next hne =>
      refine .inr ⟨?_, ht⟩
      rintro rfl
      exact hne (ticket_owner hm ht hc)
  constructor
  case once =>
    rw [List.map_cons, List.nodup_cons]
    exact ⟨h.pending hc, h.once⟩
  case below =>
    intro q' err' hmem
    rcases List.mem_cons.mp hmem with heq | hold
    · cases heq
      obtain ⟨e, he, _⟩ := hm.launch (launchOf_ticket hc)
      exact hm.fresh he
    · exact h.below hold
  case pending =>
    intro t k q' ht
    rcases hticket ht with ⟨_, hsome⟩ | ⟨hne, hold⟩
    · cases hsome
    · rw [List.map_cons, List.mem_cons, not_or]
      exact ⟨hne, h.pending hold⟩
  case answer =>
    intro t k q' err' ht
    rcases hticket ht with ⟨rfl, hsome⟩ | ⟨_, hold⟩
    · cases hsome
      exact List.mem_cons_self
    · exact List.mem_cons_of_mem _ (h.answer hold)
  case waiting =>
    intro q' e he hready
    obtain ⟨t, k, answer, ht⟩ := h.waiting he hready
    by_cases htid : t = tid
    · subst htid
      rw [hc] at ht
      cases ht
      refine ⟨t, id, some err, ?_⟩
      rw [Manager.ticket, AList.lookup_insert]
      rfl
    · refine ⟨t, k, answer, ?_⟩
      rw [Manager.ticket, AList.lookup_insert_ne htid]
      exact ht
  case ready => exact fun he hready => List.mem_cons_of_mem _ (h.ready he hready)
  case named => exact h.named
  case kept => exact h.kept

/-- The owner writes the answer into the entry and returns. A failed
entry must be gone from the registry. -/
theorem Coalesced.readied {entries : FMap GoString Nat} {monitors : FMap Nat Monitor}
    (h : Coalesced m n) (hc : m.ticket tid = some (id, q, some err))
    (hsub : ∀ {k q'}, entries.lookup k = some q' → m.entries.lookup k = some q')
    (hgone : ∀ {k}, entries.lookup k = some q → err = none) :
    Coalesced
      { m.setEntry q { e with ready := true, startErr := err } with
        entries := entries, monitors := monitors, calls := m.calls.insert tid (.returned err) }
      n := by
  have hheap : ∀ {q' e'},
      (m.setEntry q { e with ready := true, startErr := err }).heap.lookup q' = some e' →
      q' = q ∧ e'.ready = true ∧ e'.startErr = err ∨ q' ≠ q ∧ m.heap.lookup q' = some e' := by
    intro q' e' he'
    by_cases hq : q' = q
    · subst hq
      rw [Manager.setEntry, AList.lookup_insert] at he'
      cases he'
      exact .inl ⟨rfl, rfl, rfl⟩
    · rw [lookup_setEntry hq] at he'
      exact .inr ⟨hq, he'⟩
  have hticket : ∀ {t k q' answer},
      ({ m with calls := m.calls.insert tid (.returned err) } : Manager).ticket t
        = some (k, q', answer) → m.ticket t = some (k, q', answer) := by
    intro t k q' answer ht
    rw [ticket_insert] at ht
    split at ht
    · cases ht
    · exact ht
  constructor
  case once => exact h.once
  case below => exact h.below
  case pending => exact fun ht => h.pending (hticket ht)
  case answer => exact fun ht => h.answer (hticket ht)
  case waiting =>
    intro q' e' he' hready
    rcases hheap he' with ⟨_, hr, _⟩ | ⟨hne, hold⟩
    · rw [hready] at hr
      cases hr
    · obtain ⟨t, k, answer, ht⟩ := h.waiting hold hready
      refine ⟨t, k, answer, ?_⟩
      have htid : t ≠ tid := by
        rintro rfl
        rw [hc] at ht
        cases ht
        exact hne rfl
      rw [Manager.ticket, AList.lookup_insert_ne htid]
      exact ht
  case ready =>
    intro q' e' he' hready
    rcases hheap he' with ⟨rfl, _, hs⟩ | ⟨_, hold⟩
    · rw [hs]
      exact h.answer hc
    · exact h.ready hold hready
  case named => exact fun hk hk' => h.named (hsub hk) (hsub hk')
  case kept =>
    intro k q' e' hk he' hready
    rcases hheap he' with ⟨rfl, _, hs⟩ | ⟨_, hold⟩
    · rw [hs]
      exact hgone hk
    · exact h.kept (hsub hk) hold hready

theorem lookup_of_erase {k : GoString} (h : (m.entries.erase id).lookup k = some q) :
    k ≠ id ∧ m.entries.lookup k = some q := by
  obtain ⟨hne, h⟩ := AList.of_lookup_erase h
  exact ⟨hne, h⟩

theorem Coalesced.forgot (h : Coalesced m n) (id : GoString) :
    Coalesced { m with entries := m.entries.erase id } n where
  once := h.once
  below := h.below
  pending := h.pending
  answer := h.answer
  waiting := h.waiting
  ready := h.ready
  named := fun hk hk' => h.named (lookup_of_erase hk).2 (lookup_of_erase hk').2
  kept := fun hk he hready => h.kept (lookup_of_erase hk).2 he hready

-- ===== the runs

variable {n' : Notes} {l : ManagerLabel}

theorem Coalesced.notes (h : Coalesced m n) (heq : n'.asked = n.asked) : Coalesced m n' where
  once := by
    rw [heq]
    exact h.once
  below := by
    rw [heq]
    exact h.below
  pending := by
    rw [heq]
    exact h.pending
  answer := by
    rw [heq]
    exact h.answer
  waiting := h.waiting
  ready := by
    rw [heq]
    exact h.ready
  named := h.named
  kept := h.kept

/-- Only the backend's answer to an owner is noted as one. -/
theorem asked_call (hc : ∀ recover id q, c ≠ .launching recover id q) :
    (n.call m c c').asked = n.asked := by
  unfold Notes.call
  split
  next recover id q _ _ _ => exact absurd rfl (hc recover id q)
  · split
    · rfl
    · rfl
  · rfl

theorem asked_watch {pc : MonitorPc} : (n.watch q pc i).asked = n.asked := by
  unfold Notes.watch
  split
  · rfl
  · split
    · rfl
    · rfl
  · rfl

theorem Coalesced.call (h : Coalesced m n) (hm : MgrInv m) (hc : m.calls.lookup tid = some c)
    (hstep : CallStep p m i c m' c') :
    Coalesced { m' with calls := m'.calls.insert tid c' } (n.call m c c') := by
  have hticket : m.ticket tid = c.ticket := by
    rw [Manager.ticket, hc]
    rfl
  -- A section that leaves the start flags alone, of a thread without a ticket.
  have hquiet : SameStarts m m' → c.ticket = none → c'.ticket = none →
      Coalesced { m' with calls := m'.calls.insert tid c' } (n.call m c c') := by
    intro hsame hnone hnone'
    refine (h.congr (hsame.moved (hticket.trans hnone) hnone')).notes (asked_call ?_)
    rintro recover id q rfl
    cases hnone
  cases hstep with
  | claimed hprep hfree =>
    exact (h.claimed hm (hm.entry_eq_none hfree) hticket).notes (asked_call nofun)
  | asked => exact h.asked hm hticket
  | failed he =>
    refine (h.readied hticket (fun hk => (lookup_of_erase hk).2) ?_).notes (asked_call nofun)
    intro k hk
    obtain ⟨hne, hold⟩ := lookup_of_erase hk
    obtain ⟨_, _, _, _, hreg⟩ := hm.launch (launchOf_ticket hticket)
    exact absurd (h.named hold hreg) hne
  | started he => exact (h.readied hticket id fun _ => rfl).notes (asked_call nofun)
  | @forgot id _ _ _ _ =>
    refine ((h.forgot id).congr ?_).notes (asked_call nofun)
    exact (SameStarts.refl { m with entries := m.entries.erase id }).moved hticket rfl
  | marked hentry _ _ _ =>
    exact hquiet (sameStarts_setEntry (entry_some hentry).2 rfl rfl) rfl rfl
  | unkilled he _ | gaveUp he _ => exact hquiet (sameStarts_unmark he _) rfl rfl
  | stopped => exact hquiet ⟨rfl, rfl, fun _ => rfl, fun _ => rfl⟩ rfl rfl
  | left _ hwait =>
    refine hquiet (.refl m) ?_ rfl
    rcases hwait with rfl | ⟨id, rfl⟩ | rfl <;> rfl
  | _ => exact hquiet (.refl m) rfl rfl

theorem ticket_of_begins (h : c.begins = true) : c.ticket = none := by
  cases c <;> first | rfl | cases h

theorem coalesced_step (h : Coalesced m n) (hm : MgrInv m)
    (hstep : NotedStep p m n l m' n') : Coalesced m' n' := by
  cases hstep with
  | begin hbegins hnew =>
    refine h.congr ((SameStarts.refl m).moved ?_ (ticket_of_begins hbegins))
    rw [Manager.ticket, hnew]
    rfl
  | call hc hstep => exact h.call hm hc hstep
  | exit | close => exact h.congr ⟨rfl, rfl, fun _ => rfl, fun _ => rfl⟩
  | watch _ hstep => exact (h.congr (sameStarts_monitor hstep)).notes asked_watch

theorem coalesced_reachable {s : Manager × Notes} (h : (noted p).Reach s) : Coalesced s.1 s.2 := by
  refine TransitionSystem.ReachWhen.invariant_with (J := fun s => MgrInv s.1)
    (I := fun s => Coalesced s.1 s.2) (fun _ => mgrInv_noted) ?_ ?_ h
  · rintro ⟨m, n⟩ ⟨hm, hn⟩
    replace hm : m = .empty := hm
    replace hn : n = {} := hn
    subst hm hn
    exact coalesced_empty
  · intro s l t hm _ hs _ hstep
    exact coalesced_step hs hm (noted_step hstep)

/-- A waiting caller found an entry, and entries stay in the heap. -/
theorem joined_reachable {s : Manager × Notes} (h : (noted p).Reach s) :
    ∀ {tid q}, s.1.calls.lookup tid = some (.awaitingReady q) →
      ∃ e, s.1.heap.lookup q = some e := by
  refine TransitionSystem.ReachWhen.invariant (I := fun s : Manager × Notes => ∀ {tid q},
    s.1.calls.lookup tid = some (.awaitingReady q) → ∃ e, s.1.heap.lookup q = some e) ?_ ?_ h
  · rintro ⟨m, n⟩ ⟨hm, _⟩
    replace hm : m = .empty := hm
    subst hm
    exact nofun
  rintro ⟨m, n⟩ l ⟨m', n'⟩ hs _ hstep tid q hwait
  replace hs : ∀ {tid q}, m.calls.lookup tid = some (.awaitingReady q) →
    ∃ e, m.heap.lookup q = some e := hs
  have hnoted := noted_step hstep
  cases hnoted with
  | begin hbegins hnew =>
    rcases AList.of_lookup_insert hwait with ⟨-, rfl⟩ | ⟨-, hwait⟩
    · cases hbegins
    · exact hs hwait
  | call hc hcall =>
    rcases AList.of_lookup_insert hwait with ⟨-, rfl⟩ | ⟨-, hwait⟩
    · cases hcall with
      | joined hentry => exact ⟨_, (entry_some hentry).2⟩
    · rw [hcall.calls] at hwait
      exact hcall.heap_grows (hs hwait)
  | exit | close => exact hs hwait
  | watch _ hmon =>
    rw [hmon.calls] at hwait
    exact hmon.heap_grows (hs hwait)

-- ===== what callers see

/-- The thread `tid` moves to `c` and nothing else changes. -/
def Manager.settle (m : Manager) (tid : Nat) (c : Call) : Manager :=
  { m with calls := m.calls.insert tid c }

variable {request : StartRequest}

section Claiming

variable (hc : m.calls.lookup tid = some (.claiming recover request))
  (hprep : prepareExecution p request = .ok fingerprint)
include hc hprep

/-- A caller that found the entry of its own request waits for it. -/
theorem run_joins (hopen : m.closed = false) (hentry : m.entry request.executionID = some (q, e))
    (heq : e.fingerprint = fingerprint) :
    m.run p tid i = some (m.settle tid (.awaitingReady q)) := by
  have hclaim : m.claim p recover request = (m, .awaitingReady q) := by
    simp [Manager.claim, hprep, hopen, hentry, heq]
  simp [Manager.run, hc, Manager.advance, hclaim, Manager.settle]

/-- A caller that found the entry of another request is turned away. -/
theorem run_conflicts (hentry : m.entry request.executionID = some (q, e))
    (hne : e.fingerprint ≠ fingerprint) :
    m.run p tid i = some (m.settle tid (.returned (some
      (if m.closed then closedErr else conflictErr request.executionID)))) := by
  have hclaim : m.claim p recover request
      = (m, .returned
          (some (if m.closed then closedErr else conflictErr request.executionID))) := by
    by_cases hclosed : m.closed = true <;> simp [Manager.claim, hprep, hclosed, hentry, hne]
  simp [Manager.run, hc, Manager.advance, hclaim, Manager.settle]

/-- A caller that found no entry registers one and owns it. -/
theorem run_claims (hopen : m.closed = false) (hfree : m.entry request.executionID = none) :
    ∃ m', m.run p tid i = some m'
      ∧ m'.calls.lookup tid = some (.launching recover request.executionID m.fresh) := by
  have hclaim : (m.claim p recover request).2
      = .launching recover request.executionID m.fresh := by
    simp [Manager.claim, hprep, hopen, hfree]
  simp [Manager.run, hc, Manager.advance, hclaim]

end Claiming

/-- A caller whose context lives returns what the entry says as soon as
the entry is ready. -/
theorem run_waits (hc : m.calls.lookup tid = some (.awaitingReady q))
    (hlive : i.cancelled = false) (he : m.heap.lookup q = some e) :
    m.run p tid i
      = if e.ready then some (m.settle tid (.returned e.startErr)) else none := by
  by_cases hready : e.ready = true <;>
    simp [Manager.run, hc, Manager.advance, Manager.waitUntilReady, hlive, he, hready,
      Manager.settle]

/-- The owner returns the backend's answer. -/
theorem run_owner (hc : m.calls.lookup tid = some (.launched id q err))
    (he : m.heap.lookup q = some e) :
    ∃ m', m.run p tid i = some m' ∧ m'.calls.lookup tid = some (.returned err) := by
  cases err <;> simp [Manager.run, hc, Manager.advance, Manager.finishStart, he]

theorem ticket_launched (h : m.ticket tid = some (id, q, some err)) :
    m.calls.lookup tid = some (.launched id q err) := by
  obtain ⟨c, hc, hticket⟩ := Option.bind_eq_some_iff.mp h
  rw [hc]
  cases c <;> cases hticket
  rfl

/-- An entry has one answer. -/
theorem Coalesced.unique {err' : Option Fault} (h : Coalesced m n) (hq : (q, err) ∈ n.asked)
    (hq' : (q, err') ∈ n.asked) : err = err' :=
  congrArg Prod.snd (List.inj_on_of_nodup_map h.once hq hq' rfl)

/-- A failed entry is registered only until its owner has seen the
failure. -/
theorem Coalesced.failure_pending {f : Fault} (h : Coalesced m n) (hm : MgrInv m)
    (hq : (q, some f) ∈ n.asked) (hreg : m.entries.lookup id = some q) :
    ∃ tid, m.calls.lookup tid = some (.launched id q (some f)) := by
  obtain ⟨e, he⟩ := hm.entry hreg
  by_cases hready : e.ready = true
  · have hnone := h.ready he hready
    rw [h.kept hreg he hready] at hnone
    cases h.unique hq hnone
  · obtain ⟨tid, id', answer, ht⟩ := h.waiting he (by simpa using hready)
    obtain ⟨_, _, _, _, hreg'⟩ := hm.launch (launchOf_ticket ht)
    cases h.named hreg hreg'
    cases answer with
    | none => exact absurd (List.mem_map_of_mem hq) (h.pending ht)
    | some err =>
      cases h.unique hq (h.answer ht)
      exact ⟨tid, ticket_launched ht⟩

/-- However starts and recoveries interleave: the backend is asked once
for an entry; its owner and every caller of the same request that waits
with a live context return that answer, and while there is none yet the
owner is still under way; a caller of another request is turned away and
changes nothing; a failed entry stays registered only until its owner
has seen the failure, and whoever finds no entry owns a new one for
which nothing has been asked. -/
theorem starts_share_one_backend_call (p : Platform) {s : Manager × Notes}
    (h : (noted p).Reach s) :
    (s.2.asked.map Prod.fst).Nodup
    ∧ (∀ tid id q err i, s.1.calls.lookup tid = some (.launched id q err) →
        (q, err) ∈ s.2.asked
          ∧ ∃ m', s.1.run p tid i = some m' ∧ m'.calls.lookup tid = some (.returned err))
    ∧ (∀ tid recover request fingerprint q e i,
        s.1.calls.lookup tid = some (.claiming recover request) →
        prepareExecution p request = .ok fingerprint →
        s.1.entry request.executionID = some (q, e) →
        (s.1.closed = false → e.fingerprint = fingerprint →
          s.1.run p tid i = some (s.1.settle tid (.awaitingReady q)))
        ∧ (e.fingerprint ≠ fingerprint →
          s.1.run p tid i = some (s.1.settle tid (.returned (some
            (if s.1.closed then closedErr else conflictErr request.executionID))))))
    ∧ (∀ tid q i, s.1.calls.lookup tid = some (.awaitingReady q) → i.cancelled = false →
        (∃ err, (q, err) ∈ s.2.asked
          ∧ s.1.run p tid i = some (s.1.settle tid (.returned err)))
        ∨ (s.1.run p tid i = none
          ∧ ∃ owner id answer, s.1.ticket owner = some (id, q, answer)))
    ∧ (∀ id q f, (q, some f) ∈ s.2.asked → s.1.entries.lookup id = some q →
        ∃ owner, s.1.calls.lookup owner = some (.launched id q (some f)))
    ∧ ∀ tid recover request fingerprint i,
        s.1.calls.lookup tid = some (.claiming recover request) →
        prepareExecution p request = .ok fingerprint → s.1.closed = false →
        s.1.entry request.executionID = none →
        (∃ m', s.1.run p tid i = some m'
          ∧ m'.calls.lookup tid = some (.launching recover request.executionID s.1.fresh))
        ∧ s.1.fresh ∉ s.2.asked.map Prod.fst := by
  have hm := mgrInv_noted h
  have hs := coalesced_reachable h
  refine ⟨hs.once, ?_, ?_, ?_, fun id q f hq hreg => hs.failure_pending hm hq hreg, ?_⟩
  · intro tid id q err i hc
    have hticket : s.1.ticket tid = some (id, q, some err) := by
      rw [Manager.ticket, hc]
      rfl
    obtain ⟨e, he, _⟩ := hm.launch (launchOf_ticket hticket)
    exact ⟨hs.answer hticket, run_owner hc he⟩
  · intro tid recover request fingerprint q e i hc hprep hentry
    exact ⟨fun hopen heq => run_joins hc hprep hopen hentry heq,
      fun hne => run_conflicts hc hprep hentry hne⟩
  · intro tid q i hc hlive
    obtain ⟨e, he⟩ := joined_reachable h hc
    have hrun := run_waits (p := p) hc hlive he
    by_cases hready : e.ready = true
    · rw [if_pos hready] at hrun
      exact .inl ⟨e.startErr, hs.ready he hready, hrun⟩
    · rw [if_neg hready] at hrun
      exact .inr ⟨hrun, hs.waiting he (by simpa using hready)⟩
  · intro tid recover request fingerprint i hc hprep hopen hfree
    refine ⟨run_claims hc hprep hopen hfree, ?_⟩
    intro hmem
    obtain ⟨⟨q, err⟩, hq, hfst⟩ := List.mem_map.mp hmem
    have hlt := hs.below hq
    omega

/-- The start request of the sample runs. -/
def sampleStart : StartRequest where
  executionID := text "x"
  runID := text "run"
  attempt := 1
  client := []
  workload := some ⟨text "alpine@sha256:aa", [], [], .empty, []⟩
  policy := some {}
  resources := .zero
  startedAt := 0

/-- A recovery joins a start that the backend then refuses. -/
def sharedFailure : List ManagerLabel :=
  [ .begin 0 (.claiming false sampleStart), .call 0 {},
    .begin 1 (.claiming true sampleStart), .call 1 {},
    .call 0 { problem := some (text "no image") }, .call 0 {} ]

/-- The test of `sharedFailure`'s last state: the entry is gone, the
recovery waits for its answer. -/
def awaitsFailure (s : Manager × Notes) : Bool :=
  s.1.entries.keys = [] && s.2.asked = [(0, some ⟨[], text "no image"⟩)]
    && match s.1.calls.lookup 1 with
      | some (.awaitingReady 0) => true
      | _ => false

/-- The recovery returns the failure of the start it joined. -/
theorem joined_recovery_returns_the_failure :
    ∃ s, (noted samplePlatform).Reach s ∧ s.1.entries.keys = []
      ∧ s.1.run samplePlatform 1 {}
        = some (s.1.settle 1 (.returned (some ⟨[], text "no image"⟩))) := by
  obtain ⟨s, hs, hp⟩ := (noted samplePlatform).exists_reach (.observe rfl)
    sharedFailure (awaitsFailure ·) (by decide +kernel)
  unfold awaitsFailure at hp
  split at hp
  next hwait =>
    simp only [Bool.and_true, Bool.and_eq_true, decide_eq_true_eq] at hp
    obtain ⟨hgone, hasked⟩ := hp
    obtain ⟨_, _, _, hanswer, _⟩ := starts_share_one_backend_call samplePlatform hs
    refine ⟨s, hs, hgone, ?_⟩
    rcases hanswer 1 0 {} hwait rfl with ⟨err, hmem, hrun⟩ | ⟨_, owner, id, answer, ht⟩
    · rw [hasked, List.mem_singleton] at hmem
      cases hmem
      exact hrun
    · -- No start is under way: its entry would be registered.
      obtain ⟨_, _, _, _, hreg⟩ := (mgrInv_noted hs).launch (launchOf_ticket ht)
      have hmem := AList.lookup_isSome.mp (Option.isSome_of_eq_some hreg)
      rw [AList.mem_keys, hgone] at hmem
      cases hmem
  · simp at hp

-- ===== who works on an execution

/-- The start of a thread, or the monitor of the entry, is about the
execution and holds the entry. -/
def Manager.Works (m : Manager) (id : GoString) (q : Nat) : Option Nat → Prop
  | some tid => (m.calls.lookup tid).bind Call.launchOf = some (id, q)
  | none => ∃ mon, m.monitors.lookup q = some mon ∧ mon.id = id

/-- It is the registered entry, and ready for a monitor only. -/
theorem MgrInv.works {party : Option Nat} (h : MgrInv m) (hw : m.Works id q party) :
    m.entries.lookup id = some q ∧ ∃ e, m.heap.lookup q = some e ∧ e.ready = party.isNone := by
  cases party with
  | some tid =>
    obtain ⟨e, he, hready, -, hentry⟩ := h.launch hw
    exact ⟨hentry, e, he, hready⟩
  | none =>
    obtain ⟨mon, hmon, rfl⟩ := hw
    obtain ⟨e, he, hready, -, hentry⟩ := h.watch hmon
    exact ⟨hentry, e, he, hready⟩

/-- However the calls interleave, an execution is in the hands of one
start or of one monitor, which holds the registered entry. -/
theorem one_party_works_on_an_execution (h : (manager p).Reach m) {q' : Nat} {a b : Option Nat}
    (ha : m.Works id q a) (hb : m.Works id q' b) :
    q = q' ∧ a = b ∧ m.entries.lookup id = some q := by
  have hinv := mgrInv_reachable h
  obtain ⟨hq, e, he, hready⟩ := hinv.works ha
  obtain ⟨hq', e', he', hready'⟩ := hinv.works hb
  cases hq.symm.trans hq'
  cases he.symm.trans he'
  have hkind : a.isNone = b.isNone := hready.symm.trans hready'
  refine ⟨rfl, ?_, hq⟩
  cases a with
  | none => exact (Option.isNone_iff_eq_none.mp hkind.symm).symm
  | some tid =>
    cases b with
    | none => cases hkind
    | some tid' => exact congrArg some (hinv.owner ha hb)

/-- A recovery that joined a start waits beside it. -/
theorem waiting_recovery_does_not_work :
    ∃ m, (manager samplePlatform).Reach m ∧ m.Works (text "x") 0 (some 0) ∧
      m.entries.lookup (text "x") = some 0 ∧ ¬m.Works (text "x") 0 (some 1) := by
  obtain ⟨m, hm, hw⟩ := (manager samplePlatform).exists_reach rfl
    (sharedFailure.take 4) (fun m => (m.calls.lookup 0).bind Call.launchOf = some (text "x", 0))
    (by decide +kernel)
  have hworks : m.Works (text "x") 0 (some 0) := hw
  refine ⟨m, hm, hworks, (one_party_works_on_an_execution hm hworks hworks).2.2, ?_⟩
  intro hother
  cases (one_party_works_on_an_execution hm hworks hother).2.1

end R1s.Runtime
