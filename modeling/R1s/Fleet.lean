/-
Clients and allocators together. Any number of client cores hand out
commands and any number of allocators run; the network carries every
command a client has handed out to any allocator, any number of times, in
any order, and nothing else under that client's identity. Other senders
and the answers to the clients are left open: they may be anything.

Either side may die at any point. An allocator with a store restarts from
it (a step of its own machine), one without begins anew; a client that
restarts has an empty core, and its generator does not repeat the IDs of
the requests it made before (`Authentic`).

# What is counted

Beside each allocator stand the offers it issued and the calls of `Start`
it made (`Issues`). No offer is started twice, and all starts for one
request name the same offer, since the core selects once
(`Assigned.unique`).
-/
import R1s.Allocator.Proofs.Starts
import R1s.Allocator.Proofs.Responses
import R1s.Client.Proofs.Handed

namespace R1s.Fleet

open Allocator (Issues Inbound Pc Start System issuing machine)
open Function (update update_of_ne update_self)
open Allocator (alice cpu epoch oneSlot)

variable {κ ι : Type} [DecidableEq κ] [DecidableEq ι]

-- ===== the fleet

/-- The allocators and the clients, each under its own identity. -/
structure Config (κ ι : Type) where
  node : κ → Allocator.Config
  client : ι → Client.Config
  identity_inj : Function.Injective fun j => (client j).identity

variable {cfg : Config κ ι}

variable (cfg) in
/-- The parties, what each client has handed out, and the requests of its
earlier processes. -/
structure State where
  nodes : ∀ k, System (cfg.node k) × Issues
  clients : ι → Client.State
  sent : ι → List Envelope
  retired : ι → List GoString

variable (cfg) in
inductive Label
  | node (k : κ) (l : Allocator.Label (cfg.node k))
  | reboot (k : κ)
  | client (j : ι) (op : Client.Op)
  | restartClient (j : ι)

def State.step (s : State cfg) : Label cfg → Option (State cfg)
  | .node k l =>
    ((issuing (cfg.node k)).step (s.nodes k) l).map fun n =>
      { s with nodes := update s.nodes k n }
  | .reboot k =>
    if (cfg.node k).stored then none
    else
      some { s with
        nodes := update s.nodes k (System.initial (cfg.node k), (s.nodes k).2) }
  | .client j op =>
    let r := op.apply (cfg.client j) (s.clients j)
    some { s with
      clients := update s.clients j r.1,
      sent := update s.sent j (r.2.map Prod.snd ++ s.sent j) }
  | .restartClient j =>
    some { s with
      clients := update s.clients j .empty,
      retired := update s.retired j
        ((s.clients j).requests.keys ++ s.retired j) }

/-- An allocator gets under a client's identity only what the client has
handed out, and no process of a client repeats the ID of a request of an
earlier one. -/
def Authentic (s : State cfg) : Label cfg → Prop
  | .node _ (.call _ e) => ∀ j, (cfg.client j).identity = e.1.sender → e.1 ∈ s.sent j
  | .client j op => ∀ k, op.requestID = some k → k ∉ s.retired j
  | _ => True

variable (cfg) in
def fleet : TransitionSystem (State cfg) (Label cfg) where
  init s := s = ⟨fun k => (System.initial (cfg.node k), {}), fun _ => .empty, fun _ => [],
    fun _ => []⟩
  step := State.step

-- ===== one client

/-- The assignment is that of an execution the core has. -/
def Assigned (t : Client.State) (q : ExecutionAssign) : Prop :=
  ∃ r, t.executions.lookup q.executionID = some r ∧ q = ⟨r.requestID, r.offerID, r.id⟩

variable {ccfg : Client.Config} {q : ExecutionAssign} {s t : Client.State}

theorem Assigned.kept {op : Client.Op} (h : Assigned s q) (hkept : Client.Kept ccfg op s t) :
    Assigned t q := by
  obtain ⟨r, hr, heq⟩ := h
  obtain ⟨r', hr', hwork⟩ := hkept.executions _ r hr
  refine ⟨r', hr', ?_⟩
  rw [hwork.requestID, hwork.offerID, hwork.id]
  exact heq

/-- A request has one execution, and with it one offer. -/
theorem Assigned.unique (hkeys : Client.Keyed t) {q' : ExecutionAssign} (h : Assigned t q)
    (h' : Assigned t q') (heq : q.requestID = q'.requestID) : q = q' := by
  obtain ⟨r, hr, hq⟩ := h
  obtain ⟨r', hr', hq'⟩ := h'
  obtain ⟨request, hrequest, hx⟩ := hkeys.owner hr
  obtain ⟨request', hrequest', hx'⟩ := hkeys.owner hr'
  have hsame : r.requestID = r'.requestID := by
    rw [hq, hq'] at heq
    exact heq
  rw [hsame] at hrequest
  obtain rfl := Option.some.inj (hrequest.symm.trans hrequest')
  rw [← hx, hx'] at hr
  obtain rfl := Option.some.inj (hr.symm.trans hr')
  rw [hq, hq']

/-- Every assignment handed out is one of these. -/
theorem assigned_of_hands (hkeys : Client.Keyed t) {command : Client.Handed}
    (h : Client.Hands ccfg t command) (hq : command.2.payload = some (.executionAssign q)) :
    Assigned t q := by
  cases h with
  | assign hr =>
    cases hq
    refine ⟨_, ?_, rfl⟩
    rw [(hkeys.execution hr).1]
    exact hr
  | request | cancel | inspect | release | renew | logs | tunnel => cases hq

/-- What a client has handed out, over all its processes. -/
structure Consistent (s : Client.State) (sent : List Envelope) (retired : List GoString) :
    Prop where
  keyed : Client.Keyed s
  names : ∀ k ∈ retired, s.requests.lookup k = none
  assigned : ∀ e ∈ sent, ∀ q, e.payload = some (.executionAssign q) →
    q.requestID ∈ retired ∨ Assigned s q
  once : ∀ e ∈ sent, ∀ e' ∈ sent, ∀ q q', e.payload = some (.executionAssign q) →
    e'.payload = some (.executionAssign q') → q.requestID = q'.requestID → q = q'

theorem Consistent.initial : Consistent .empty [] [] where
  keyed := .initial
  names _ h := nomatch h
  assigned _ h := nomatch h
  once _ h := nomatch h

theorem Consistent.op {sent : List Envelope} {retired : List GoString}
    (h : Consistent s sent retired) (op : Client.Op)
    (hfresh : ∀ k, op.requestID = some k → k ∉ retired) :
    Consistent (op.apply ccfg s).1 ((op.apply ccfg s).2.map Prod.snd ++ sent) retired := by
  have hkept : Client.Kept ccfg op s (op.apply ccfg s).1 := Client.kept_apply s op
  have hkeys := h.keyed.kept hkept
  have hands {command : Client.Handed} (hin : command ∈ (op.apply ccfg s).2) :=
    Client.hands_apply s op hin
  generalize op.apply ccfg s = r at hkept hkeys hands ⊢
  have hnames : ∀ k ∈ retired, r.1.requests.lookup k = none := by
    intro k hk
    by_contra hsome
    obtain ⟨q, hq⟩ := Option.ne_none_iff_exists'.mp hsome
    rcases hkept.newRequest hq with hold | ⟨hop, -⟩
    · rw [h.names k hk] at hold
      cases hold
    · exact hfresh k hop hk
  -- a new assignment is about a request of this process
  have hnew : ∀ e ∈ r.2.map Prod.snd, ∀ q, e.payload = some (.executionAssign q) →
      Assigned r.1 q ∧ q.requestID ∉ retired := by
    intro e he q hq
    obtain ⟨command, hin, rfl⟩ := List.mem_map.mp he
    have hassigned := assigned_of_hands hkeys (hands hin) hq
    refine ⟨hassigned, ?_⟩
    intro hretired
    obtain ⟨x, hx, heq⟩ := hassigned
    obtain ⟨request, hrequest, -⟩ := hkeys.owner hx
    rw [heq] at hretired
    rw [hnames _ hretired] at hrequest
    cases hrequest
  have hassigned : ∀ e ∈ r.2.map Prod.snd ++ sent, ∀ q,
      e.payload = some (.executionAssign q) → q.requestID ∈ retired ∨ Assigned r.1 q := by
    intro e he q hq
    rcases List.mem_append.mp he with he | he
    · exact .inr (hnew e he q hq).1
    · exact (h.assigned e he q hq).imp_right (Assigned.kept · hkept)
  refine ⟨hkeys, hnames, hassigned, ?_⟩
  intro e he e' he' q q' hq hq' heq
  by_cases hretired : q.requestID ∈ retired
  · -- both are from before
    have old {e : Envelope} {q : ExecutionAssign} (he : e ∈ r.2.map Prod.snd ++ sent)
        (hq : e.payload = some (.executionAssign q)) (hin : q.requestID ∈ retired) :
        e ∈ sent := by
      refine (List.mem_append.mp he).resolve_left ?_
      intro hnow
      exact (hnew e hnow q hq).2 hin
    exact h.once e (old he hq hretired) e' (old he' hq' (heq ▸ hretired)) q q' hq hq' heq
  · have hretired' : q'.requestID ∉ retired := by
      rw [← heq]
      exact hretired
    exact Assigned.unique hkeys ((hassigned e he q hq).resolve_left hretired)
      ((hassigned e' he' q' hq').resolve_left hretired') heq

theorem Consistent.restart {sent : List Envelope} {retired : List GoString}
    (h : Consistent s sent retired) : Consistent .empty sent (s.requests.keys ++ retired) := by
  refine ⟨.initial, fun _ _ => rfl, ?_, h.once⟩
  intro e he q hq
  refine .inl (List.mem_append.mpr ?_)
  rcases h.assigned e he q hq with hretired | ⟨r, hr, heq⟩
  · exact .inr hretired
  · obtain ⟨request, hrequest, -⟩ := h.keyed.owner hr
    refine .inl ?_
    rw [heq, ← AList.mem_keys, ← AList.lookup_isSome]
    exact Client.isSome_of_some hrequest

-- ===== one allocator

/-- An allocator that has been called with nothing but `allowed`
envelopes. -/
structure Fed {ncfg : Allocator.Config} (allowed : Envelope → Prop)
    (n : System ncfg × Issues) : Prop where
  reach : (machine ncfg).Reach n.1
  numbered : Allocator.Numbered n.1.world n.2
  called : ∀ {tid e}, (n.1.threads.lookup tid).bind Pc.command = some e → allowed e.1
  started : ∀ st ∈ n.2.started, ∃ e, allowed e ∧ e.sender = st.client ∧
    e.payload = some (.executionAssign st.assign)

variable {ncfg : Allocator.Config} {allowed : Envelope → Prop} {n : System ncfg × Issues}

theorem Fed.initial : Fed allowed (System.initial ncfg, {}) where
  reach := .init rfl
  numbered := .initial
  called h := nomatch h
  started _ h := nomatch h

theorem Fed.mono {allowed' : Envelope → Prop} (h : Fed allowed n)
    (hle : ∀ e, allowed e → allowed' e) : Fed allowed' n := by
  refine ⟨h.reach, h.numbered, fun he => hle _ (h.called he), ?_⟩
  intro st hst
  obtain ⟨e, he, hrest⟩ := h.started st hst
  exact ⟨e, hle e he, hrest⟩

/-- The process without a store that begins anew. -/
theorem Fed.reboot (h : Fed allowed n) : Fed allowed (System.initial ncfg, n.2) where
  reach := .init rfl
  numbered :=
    { current := h.numbered.current
      mem := fun h => nomatch h
      disk := fun h => nomatch h
      once := h.numbered.once
      known := h.numbered.known }
  called h := nomatch h
  started := h.started

theorem mem_note_started {s t : System ncfg} {l : Allocator.Label ncfg} {h : Issues} {st : Start}
    (hst : st ∈ (Issues.note s l t h).started) :
    st ∈ h.started ∨ s.starts l = some (st.client, st.assign) := by
  have hminted : (((s.mints t l).map h.mint).getD h).started = h.started := by
    cases s.mints t l <;> rfl
  unfold Issues.note at hst
  cases hstarts : s.starts l with
  | none =>
    rw [hstarts] at hst
    change st ∈ (((s.mints t l).map h.mint).getD h).started at hst
    rw [hminted] at hst
    exact .inl hst
  | some start =>
    rw [hstarts] at hst
    rcases List.mem_cons.mp hst with rfl | hold
    · exact .inr rfl
    · rw [hminted] at hold
      exact .inl hold

theorem Fed.step (h : Fed allowed n) {l : Allocator.Label ncfg} {n' : System ncfg × Issues}
    (hcall : ∀ tid e, l = .call tid e → allowed e.1)
    (hstep : (issuing ncfg).step n l = some n') : Fed allowed n' := by
  obtain ⟨hnext, hnote⟩ := TransitionSystem.observe_step hstep
  have hreach : (machine ncfg).Reach n'.1 := .step h.reach trivial hnext
  refine ⟨hreach, ?_, ?_, ?_⟩
  · rw [hnote]
    by_cases hl : l.isRestart = false
    · exact h.numbered.step (Allocator.sound_reachable hreach) hl hnext
    · obtain ⟨granted, now, rfl⟩ := l.restarts hl
      exact h.numbered.restart hnext
  · intro tid e he
    rcases Allocator.step_command hnext he with ⟨tid', hold⟩ | ⟨tid', hl⟩
    · exact h.called hold
    · exact hcall tid' e hl
  · intro st hst
    rw [hnote] at hst
    rcases mem_note_started hst with hold | hstarts
    · exact h.started st hold
    · -- the section ran for a call of the assignment
      obtain ⟨-, e, hpoint, hclient, hassign⟩ := Allocator.starts_committed hnext hstarts
      refine ⟨e.1, ?_, hclient, hassign⟩
      cases l with
      | run tid i =>
        change n.1.threads.lookup tid = some (.handling e) at hpoint
        have he : (n.1.threads.lookup tid).bind Pc.command = some e := by
          rw [hpoint]
          rfl
        exact h.called he
      | _ => cases hpoint

-- ===== the runs

/-- The envelope is one its sender handed out, if that is a client. -/
def State.handedOut (s : State cfg) (e : Envelope) : Prop :=
  ∀ j, (cfg.client j).identity = e.sender → e ∈ s.sent j

structure Inv (s : State cfg) : Prop where
  node : ∀ k, Fed s.handedOut (s.nodes k)
  client : ∀ j, Consistent (s.clients j) (s.sent j) (s.retired j)

theorem Inv.step {s t : State cfg} {l : Label cfg} (h : Inv s) (hok : Authentic s l)
    (hstep : s.step l = some t) : Inv t := by
  cases l with
  | node k l =>
    obtain ⟨n, hn, rfl⟩ := Option.map_eq_some_iff.mp hstep
    refine ⟨?_, h.client⟩
    intro k'
    by_cases hk : k' = k
    · subst hk
      show Fed s.handedOut (update s.nodes k' n k')
      rw [update_self]
      refine (h.node k').step ?_ hn
      intro tid e hl
      subst hl
      exact hok
    · show Fed s.handedOut (update s.nodes k n k')
      rw [update_of_ne hk]
      exact h.node k'
  | reboot k =>
    simp only [State.step] at hstep
    split at hstep
    · cases hstep
    cases hstep
    refine ⟨?_, h.client⟩
    intro k'
    by_cases hk : k' = k
    · subst hk
      show Fed s.handedOut (update s.nodes k' _ k')
      rw [update_self]
      exact (h.node k').reboot
    · show Fed s.handedOut (update s.nodes k _ k')
      rw [update_of_ne hk]
      exact h.node k'
  | client j op =>
    cases hstep
    refine ⟨?_, ?_⟩
    · intro k
      refine (h.node k).mono ?_
      intro e he j' hj'
      have hin := he j' hj'
      show e ∈ update s.sent j _ j'
      by_cases hj : j' = j
      · subst hj
        rw [update_self]
        exact List.mem_append_right _ hin
      · rw [update_of_ne hj]
        exact hin
    · intro j'
      show Consistent (update s.clients j _ j') (update s.sent j _ j') _
      by_cases hj : j' = j
      · subst hj
        rw [update_self, update_self]
        exact (h.client j').op op hok
      · rw [update_of_ne hj, update_of_ne hj]
        exact h.client j'
  | restartClient j =>
    cases hstep
    refine ⟨h.node, ?_⟩
    intro j'
    show Consistent (update s.clients j _ j') _ (update s.retired j _ j')
    by_cases hj : j' = j
    · subst hj
      rw [update_self, update_self]
      exact (h.client j').restart
    · rw [update_of_ne hj, update_of_ne hj]
      exact h.client j'

theorem inv_reachable {s : State cfg} (hs : (fleet cfg).ReachWhen Authentic s) : Inv s := by
  refine hs.invariant ?_ ?_
  · rintro s rfl
    exact ⟨fun _ => .initial, fun _ => .initial⟩
  · intro s l t h hok hstep
    exact h.step hok hstep

/-- No offer ID was issued twice, by one allocator or by two. -/
def State.DistinctOffers (s : State cfg) : Prop :=
  ∀ (k k' : κ) (n n' : Nat) (o : GoString), (s.nodes k).2.issued[n]? = some o →
    (s.nodes k').2.issued[n']? = some o → k = k' ∧ n = n'

/-- In every run an allocator starts an offer it issued at most once; all
starts for one request of one client carry one assignment, so that, where
offer IDs are not repeated, there is at most one of them in the whole
fleet. -/
theorem starts_at_most_once {s : State cfg} (hs : (fleet cfg).ReachWhen Authentic s) :
    (∀ k, ((s.nodes k).2.started.map Start.issue).Nodup ∧
      ∀ st ∈ (s.nodes k).2.started, ∃ n, st.issue = some n ∧
        (s.nodes k).2.issued[n]? = some st.assign.offerID) ∧
    ∀ (j : ι) (k k' : κ) (n n' : Nat) (st st' : Start), (s.nodes k).2.started[n]? = some st →
      (s.nodes k').2.started[n']? = some st' →
      st.client = (cfg.client j).identity → st'.client = (cfg.client j).identity →
      st.assign.requestID = st'.assign.requestID →
        st.assign = st'.assign ∧ (s.DistinctOffers → k = k' ∧ n = n') := by
  have hinv := inv_reachable hs
  refine ⟨fun k => ⟨(hinv.node k).numbered.once, (hinv.node k).numbered.known⟩, ?_⟩
  intro j k k' n n' st st' hst hst' hclient hclient' hrequest
  have hmem := List.mem_of_getElem? hst
  have hmem' := List.mem_of_getElem? hst'
  have hassign : st.assign = st'.assign := by
    obtain ⟨e, he, hsender, hq⟩ := (hinv.node k).started st hmem
    obtain ⟨e', he', hsender', hq'⟩ := (hinv.node k').started st' hmem'
    refine (hinv.client j).once e (he j ?_) e' (he' j ?_) _ _ hq hq' hrequest
    · rw [hsender, hclient]
    · rw [hsender', hclient']
  refine ⟨hassign, ?_⟩
  intro hdistinct
  obtain ⟨m, hm, hissued⟩ := (hinv.node k).numbered.known st hmem
  obtain ⟨m', hm', hissued'⟩ := (hinv.node k').numbered.known st' hmem'
  rw [← hassign] at hissued'
  obtain ⟨rfl, rfl⟩ := hdistinct k k' m m' _ hissued hissued'
  refine ⟨rfl, ?_⟩
  -- two starts of one offer stand at one place
  obtain ⟨hlt, heq⟩ := List.getElem?_eq_some_iff.mp hst
  obtain ⟨hlt', heq'⟩ := List.getElem?_eq_some_iff.mp hst'
  have hn : n < ((s.nodes k).2.started.map Start.issue).length := by
    rwa [List.length_map]
  have hn' : n' < ((s.nodes k).2.started.map Start.issue).length := by
    rwa [List.length_map]
  have hissue : ((s.nodes k).2.started.map Start.issue)[n] =
      ((s.nodes k).2.started.map Start.issue)[n'] := by
    rw [List.getElem_map, List.getElem_map, heq, heq', hm, hm']
  exact (hinv.node k).numbered.once.getElem_inj_iff.mp hissue

/-- The client `alice` and the allocator with one slot. -/
def duo : Config Unit Unit where
  node _ := oneSlot
  client _ := ⟨alice, fun _ => List.replicate 32 0, by decide⟩
  identity_inj _ _ _ := rfl

def authentic (s : State duo) : Label duo → Bool
  | .node _ (.call _ e) => e.1 ∈ s.sent ()
  | .client _ op => op.requestID.all fun k => k ∉ s.retired ()
  | _ => true

theorem authentic_of_check (s : State duo) (l : Label duo) (h : authentic s l = true) :
    Authentic s l := by
  cases l with
  | node k l =>
    cases l with
    | call tid e =>
      intro j _
      exact of_decide_eq_true h
    | _ => trivial
  | client j op =>
    intro k hk
    change (op.requestID.all fun k => decide (k ∉ s.retired ())) = true at h
    rw [hk] at h
    exact of_decide_eq_true h
  | _ => trivial

/-- The offer the allocator makes for the request. -/
def duoOffer : Envelope :=
  ⟨text "reply", [1], text "m1", some (Timestamp.new epoch),
    some (.executionOffer ⟨text "o", text "r", cpu,
      some (Timestamp.new (epoch + 30000000000)), none⟩)⟩

/-- A request, its offer, its selection, and the assignment delivered
twice. -/
def duoRun : List (Label duo) :=
  let i (ids : List String) : Client.Input :=
    { times := [epoch], ids := ids.map text }
  [ .client () (.register { identity := [1], destination := text "there" }),
    .client () (.createRequest (i ["r", "m1"]) Allocator.sampleRequest.workload (some {})
      cpu none) ]
  ++ Allocator.requestRun.map (.node () ·)
  ++ [.client () (.handle (i []) duoOffer), .client () (.select (i ["x", "m2"]) (text "r"))]
  ++ Allocator.assignRun.map (.node () ·)
  ++ [ .node () (.call 2 Allocator.assignCommand),
       .node () (.run 2 { now := epoch }), .node () (.run 2 { now := epoch }) ]

/-- The assignment delivered twice starts its offer once. -/
theorem delivered_twice_started_once :
    ∃ s, (fleet duo).ReachWhen Authentic s ∧ s.DistinctOffers ∧
      (s.nodes ()).2.started.map Start.assign = [⟨text "r", text "o", text "x"⟩] ∧
      ((s.nodes ()).2.started.map Start.issue).Nodup := by
  obtain ⟨s, hs, hp⟩ := (fleet duo).exists_reachWhen (fun s l => authentic s l = true) rfl duoRun
    (fun s => (s.nodes ()).2.issued = [text "o"] ∧
      (s.nodes ()).2.started.map Start.assign = [⟨text "r", text "o", text "x"⟩])
    (by decide +kernel)
  have hs := hs.mono authentic_of_check
  refine ⟨s, hs, ?_, hp.2, ((starts_at_most_once hs).1 ()).1⟩
  intro k k' n n' o hn hn'
  rw [hp.1] at hn hn'
  refine ⟨rfl, ?_⟩
  obtain ⟨hlt, -⟩ := List.getElem?_eq_some_iff.mp hn
  obtain ⟨hlt', -⟩ := List.getElem?_eq_some_iff.mp hn'
  rw [List.length_singleton] at hlt hlt'
  omega

end R1s.Fleet
