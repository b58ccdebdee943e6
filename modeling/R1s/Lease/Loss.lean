/-
One client and one allocator, each with a clock of its own. The client's
commands reach the allocator in any order, late, twice or never, and so
do the allocator's answers; the client may have to do with other
allocators, about which nothing is said.

# Why a lease is lost

The client marks a lease lost because of a message (`Loses`), and every
message of the allocator goes back to a verdict it settled
(`Produced.underlies`). What is left to show is that the message is one about
the same execution: an error names only the command it answers, and the
core compares message IDs.
-/
import R1s.Allocator.Proofs.Starts
import R1s.Client.Proofs.Handed
import R1s.Lease.Verdicts

namespace R1s.Lease

open Allocator (GoErr Holding Inbound Input Next Pc System World advance alice cpu epoch oneSlot
  withinHorizon)

variable {ccfg : Client.Config} {acfg : Allocator.Config}

-- ===== the pair

/-- The verdicts of a step. -/
def produces (s : System acfg) (created : List GoString) : Allocator.Label acfg → List Produced
  | .run tid i =>
    match s.threads.lookup tid with
    | some pc =>
      match pc.command, advance tid pc i s.world with
      | some e, some (w', next) =>
        (verdicts pc next).map fun v => ⟨e.1, v, w'.mem, created⟩
      | _, _ => []
    | none => []
  | _ => []

variable (acfg) in
/-- The two parties, what the client has handed out, the executions whose
assignment the allocator has committed, what it has settled, and what it
has answered. -/
structure State where
  client : Client.State
  node : System acfg
  sent : List Envelope
  created : List GoString
  produced : List Produced
  answers : List Envelope

variable (acfg) in
inductive Label
  | client (op : Client.Op)
  | node (l : Allocator.Label acfg)

variable (ccfg) in
def State.step (s : State acfg) : Label acfg → Option (State acfg)
  | .client op =>
    let r := op.apply ccfg s.client
    some { s with client := r.1, sent := r.2.map Prod.snd ++ s.sent }
  | .node l =>
    (s.node.step l).map fun t =>
      let created := (s.node.starts l).toList.map (fun start => start.2.executionID) ++ s.created
      { s with
        node := t,
        created := created,
        produced := produces s.node created l ++ s.produced,
        answers := s.node.returned l ++ s.answers }

/-- The network carries what was sent, and an inspection or a renewal is
handled only after the assignment of its execution. -/
def Proper (s : State acfg) : Label acfg → Prop
  | .client (.handle _ e) => e.sender = acfg.identity → e ∈ s.answers
  | .node (.call _ e) => e.1 ∈ s.sent
  | .node (.run tid _) => ∀ e x, s.node.threads.lookup tid = some (.received e) →
      asks e.1 = some x → x ∈ s.created
  | _ => True

/-- An inspection or a renewal that the allocator takes up was sent, by
its clock, at most seven days ago and at most two minutes from now. -/
def Timely (s : State acfg) : Label acfg → Prop
  | .node (.run tid i) => ∀ e, s.node.threads.lookup tid = some (.received e) →
      (asks e.1).isSome = true →
        withinHorizon (max s.node.world.mem.highWater i.now) e.1 = true
  | _ => True

variable (ccfg acfg) in
def pair : TransitionSystem (State acfg) (Label acfg) where
  init s := s = ⟨.empty, System.initial acfg, [], [], [], []⟩
  step s := s.step ccfg

-- ===== the allocator

/-- Some verdict of the log says the message. -/
def Said (log : List Produced) (e : Envelope) : Prop := ∃ p ∈ log, p.underlies e

/-- The command of a call, whether it is at a point of an inspection or a
renewal, and whether it has yet to be taken up. -/
def standing (pc : Pc acfg) : Option (Inbound acfg × Bool × Bool) :=
  pc.command.map fun e =>
    (e, asking pc, match pc with
      | .received _ => true
      | _ => false)

variable {pc : Pc acfg}

theorem standing_of_command {e : Inbound acfg} (h : pc.command = some e) :
    ∃ waits, standing pc = some (e, asking pc, waits) ∧ (waits = true → pc = .received e) := by
  unfold standing
  rw [h]
  refine ⟨_, rfl, ?_⟩
  intro hwaits
  split at hwaits
  · cases h
    rfl
  · cases hwaits

/-- What is known of the allocator, given what the client has sent. -/
structure Node (client : Bytes) (sent : List Envelope) (created : List GoString)
    (log : List Produced) (s : System acfg) : Prop where
  reach : (Allocator.machine acfg).Reach s
  holding : Holding (Said log) (fun _ => True) s
  called : ∀ {tid e}, (s.threads.lookup tid).bind Pc.command = some e → e.1 ∈ sent
  asked : ∀ {tid e a b x}, (s.threads.lookup tid).bind standing = some (e, a, b) →
    asks e.1 = some x → a = true ∧ (b = false → x ∈ created)
  left : ∀ {tid e reply err}, s.threads.lookup tid = some (.finishing e reply) →
    reply.err = some err → ∃ p ∈ log, p.command = e.1 ∧ p.verdict = .error err
  reasoned : ∀ p ∈ log, p.command ∈ sent ∧ Reasoned client p

variable {client : Bytes} {sent : List Envelope} {created : List GoString} {log : List Produced}
  {s t : System acfg}

theorem Node.initial : Node client sent created [] (System.initial acfg) where
  reach := .init rfl
  holding := .initial
  called h := nomatch h
  asked h := nomatch h
  left h := nomatch h
  reasoned _ h := nomatch h

theorem Node.mono {sent' : List Envelope} (h : Node client sent created log s)
    (hle : ∀ e ∈ sent, e ∈ sent') : Node client sent' created log s where
  reach := h.reach
  holding := h.holding
  called he := hle _ (h.called he)
  asked := h.asked
  left := h.left
  reasoned p hp := ⟨hle _ (h.reasoned p hp).1, (h.reasoned p hp).2⟩

/-- A step that runs no section. -/
theorem Node.other (h : Node client sent created log s) {l : Allocator.Label acfg}
    (hrun : ∀ tid i, l ≠ .run tid i) (hcall : ∀ tid e, l = .call tid e → e.1 ∈ sent)
    (hstep : s.step l = some t) : Node client sent created log t := by
  have hreach : (Allocator.machine acfg).Reach t := .step h.reach trivial hstep
  have hcalled : ∀ {tid e}, (t.threads.lookup tid).bind Pc.command = some e → e.1 ∈ sent := by
    intro tid e he
    rcases Allocator.step_command hstep he with ⟨tid', hold⟩ | ⟨tid', hl⟩
    · exact h.called hold
    · exact hcall tid' e hl
  by_cases hl : l.isRestart = false
  · obtain ⟨-, hentered⟩ := Allocator.step_frame hrun hl hstep
    refine ⟨hreach, h.holding.other hrun hl hstep, hcalled, ?_, ?_, h.reasoned⟩
    · intro tid e a b x hstanding hask
      obtain ⟨pc, hpc, hstands⟩ := Option.bind_eq_some_iff.mp hstanding
      rcases hentered.lookup hpc with hold | hentry
      · rw [hpc, ← hold] at hstanding
        exact h.asked hstanding hask
      · cases pc with
        | received e₀ =>
          cases hstands
          exact ⟨rfl, nofun⟩
        | evicting | scanning | tunnelOpening => cases hstands
        | _ => cases hentry
    · intro tid e reply err hfinishing herr
      rcases hentered.lookup hfinishing with hold | hentry
      · exact h.left hold herr
      · cases hentry
  · obtain ⟨granted, now, rfl⟩ := l.restarts hl
    obtain ⟨-, -, -, hthreads⟩ := Allocator.restart_step hstep
    refine ⟨hreach, h.holding.restart hstep, hcalled, ?_, ?_, h.reasoned⟩
    · simp [hthreads]
    · simp [hthreads]

variable {i : Input} {tid : Nat}

theorem mem_produces {created : List GoString} {r : World × Next acfg} {p : Produced}
    (hpc : s.threads.lookup tid = some pc) (hr : advance tid pc i s.world = some r) :
    p ∈ produces s created (.run tid i) ↔
      ∃ e v, pc.command = some e ∧ v ∈ verdicts pc r.2 ∧ p = ⟨e.1, v, r.1.mem, created⟩ := by
  unfold produces
  simp only [hpc]
  cases hcommand : pc.command with
  | none =>
    refine ⟨nofun, ?_⟩
    rintro ⟨e, v, hnone, -⟩
    cases hnone
  | some e =>
    simp only [hr]
    constructor
    · intro hp
      obtain ⟨v, hv, rfl⟩ := List.mem_map.mp hp
      exact ⟨e, v, rfl, hv, rfl⟩
    · rintro ⟨e', v, heq, hv, rfl⟩
      cases heq
      exact List.mem_map_of_mem hv

theorem Said.mono {log log' : List Produced} {e : Envelope} (h : Said log e)
    (hle : ∀ p ∈ log, p ∈ log') : Said log' e := by
  obtain ⟨p, hp, hunder⟩ := h
  exact ⟨p, hle p hp, hunder⟩

/-- What a section leads to is said by a verdict of this section or of one
before. -/
theorem Node.said (h : Node client sent created log s) {r : World × Next acfg}
    {created' : List GoString} (hpc : s.threads.lookup tid = some pc)
    (hr : advance tid pc i s.world = some r) {e : Envelope} (he : e ∈ r.2.held) :
    Said (produces s created' (.run tid i) ++ log) e := by
  have old : ∀ p ∈ log, p ∈ produces s created' (.run tid i) ++ log :=
    fun p hp => List.mem_append_right _ hp
  rcases held_cases hr he with hown | hcached | ⟨e₀, hcommand, hcorrelated, hv⟩ |
    ⟨e₀, reply, err, rfl, herr, hcorrelated, hpayload⟩
  · exact (h.holding.held hpc e hown).mono old
  · exact (h.holding.cached hcached).mono old
  · refine ⟨⟨e₀.1, .response e, r.1.mem, created'⟩, ?_, hcorrelated, rfl⟩
    exact List.mem_append_left _ ((mem_produces hpc hr).mpr ⟨e₀, _, hcommand, hv, rfl⟩)
  · obtain ⟨p, hp, hcommand, hverdict⟩ := h.left hpc herr
    refine ⟨p, old p hp, ?_⟩
    unfold Produced.underlies
    rw [hcommand, hverdict]
    exact ⟨hcorrelated, hpayload⟩

/-- A step that runs a section. -/
theorem Node.run (h : Node client sent created log s) {created' : List GoString}
    (hcreated : ∀ x ∈ created, x ∈ created') (hsender : ∀ e ∈ sent, e.sender = client)
    (hproper : ∀ e x, s.threads.lookup tid = some (.received e) → asks e.1 = some x → x ∈ created)
    (htimely : ∀ e, s.threads.lookup tid = some (.received e) → (asks e.1).isSome = true →
      withinHorizon (max s.world.mem.highWater i.now) e.1 = true)
    (hstep : s.step (.run tid i) = some t) :
    Node client sent created' (produces s created' (.run tid i) ++ log) t ∧
      ∀ e ∈ s.returned (.run tid i), Said (produces s created' (.run tid i) ++ log) e := by
  have hreach : (Allocator.machine acfg).Reach t :=
    .step (l := .run tid i) h.reach trivial hstep
  have hcalled : ∀ {tid e}, (t.threads.lookup tid).bind Pc.command = some e → e.1 ∈ sent := by
    intro tid' e he
    rcases Allocator.step_command hstep he with ⟨tid'', hold⟩ | ⟨tid'', hl⟩
    · exact h.called hold
    · cases hl
  obtain ⟨pc, r, hpc, hr, rfl⟩ := Allocator.run_step hstep
  have old : ∀ p ∈ log, p ∈ produces s created' (.run tid i) ++ log :=
    fun p hp => List.mem_append_right _ hp
  have hheld : ∀ e ∈ r.2.held, Said (produces s created' (.run tid i) ++ log) e :=
    fun e he => h.said hpc hr he
  -- the call that runs, if it is an inspection or a renewal
  have hstands {e : Inbound acfg} {x : GoString} (hcommand : pc.command = some e)
      (hask : asks e.1 = some x) : asking pc = true ∧ x ∈ created' := by
    obtain ⟨waits, hstanding, hreceived⟩ := standing_of_command hcommand
    have hthread : (s.threads.lookup tid).bind standing = some (e, asking pc, waits) := by
      rw [hpc]
      exact hstanding
    obtain ⟨hasking, hin⟩ := h.asked hthread hask
    refine ⟨hasking, hcreated x ?_⟩
    cases waits with
    | false => exact hin rfl
    | true =>
      rw [hreceived rfl] at hpc
      exact hproper e x hpc hask
  refine ⟨⟨hreach, (h.holding.mono (fun e he => he.mono old) fun _ => id).run hr hheld
    (fun _ _ => trivial), hcalled, ?_, ?_, ?_⟩, ?_⟩
  · intro tid' e a b x hstanding hask
    by_cases htid : tid' = tid
    · subst htid
      rw [Allocator.resume_self] at hstanding
      obtain ⟨pc', hpc', hstanding⟩ := Option.bind_eq_some_iff.mp hstanding
      obtain ⟨w', next⟩ := r
      cases next with
      | goto pc₁ =>
        cases hpc'
        obtain ⟨e', hcommand, heq⟩ := Option.map_eq_some_iff.mp hstanding
        cases heq
        have hsame : pc.command = some e :=
          (Allocator.advance_succ hr).command.symm.trans hcommand
        obtain ⟨hasking, hin⟩ := hstands hsame hask
        exact ⟨asking_succ hr hsame hask hasking, fun _ => hin⟩
      | ret | done => cases hpc'
    · rw [Allocator.resume_other standing (fun _ _ _ => rfl) s htid] at hstanding
      obtain ⟨hasking, hin⟩ := h.asked hstanding hask
      exact ⟨hasking, fun hb => hcreated x (hin hb)⟩
  · intro tid' e reply err hfinishing herr
    rcases Allocator.resume_threads hr hfinishing with hself | ⟨hnone, -⟩ | hother
    · obtain ⟨w', next⟩ := r
      cases next with
      | goto pc₁ =>
        cases hself
        obtain ⟨hcommand, hv⟩ := left_settled hr herr
        refine ⟨⟨e.1, .error err, w'.mem, created'⟩, ?_, rfl, rfl⟩
        exact List.mem_append_left _ ((mem_produces hpc hr).mpr ⟨e, _, hcommand, hv, rfl⟩)
      | ret | done => cases hself
    · change reply.err = none at hnone
      rw [hnone] at herr
      cases herr
    · obtain ⟨p, hp, hrest⟩ := h.left hother herr
      exact ⟨p, old p hp, hrest⟩
  · intro p hp
    rcases List.mem_append.mp hp with hnew | hold
    · obtain ⟨e, v, hcommand, hv, rfl⟩ := (mem_produces hpc hr).mp hnew
      have hsent : e.1 ∈ sent := by
        refine h.called (?_ : (s.threads.lookup tid).bind Pc.command = some e)
        rw [hpc]
        exact hcommand
      refine ⟨hsent, ?_⟩
      rw [← hsender e.1 hsent]
      refine reasoned_advance hcommand hr ?_ ?_ ?_ hv
      · intro k x hx
        exact ((Allocator.ledgerWorld_reachable hreach).mem.linked.execution hx).2.1
      · intro hreceived hask
        rw [hreceived] at hpc
        exact htimely e hpc hask
      · intro x hask
        obtain ⟨hasking, hin⟩ := hstands hcommand hask
        exact ⟨hasking, fun _ => hin⟩
    · exact h.reasoned p hold
  · intro e he
    unfold System.returned at he
    dsimp only at he
    rw [hpc, Option.bind_some, hr] at he
    obtain ⟨w₁, next⟩ := r
    cases next with
    | ret reply => exact hheld e he
    | goto | done => cases he

-- ===== the client

/-- A command about the execution was handed out under the message ID. -/
def Asks (sent : List Envelope) (x id : GoString) : Prop :=
  id ≠ [] → ∃ e ∈ sent, e.messageID = id ∧ asks e = some x

/-- What is known of the client, given what it has handed out and what the
allocator has answered. -/
structure Core (acfg : Allocator.Config) (ccfg : Client.Config) (sent answers : List Envelope)
    (s : Client.State) : Prop where
  keyed : Client.Keyed s
  sender : ∀ e ∈ sent, e.sender = ccfg.identity
  renewing : ∀ {x r}, s.executions.lookup x = some r → Asks sent x r.leaseRenewMessageID
  inspecting : ∀ {x r}, s.executions.lookup x = some r → Asks sent x r.inspectMessageID
  observed : ∀ {x r state}, s.executions.lookup x = some r → r.allocatorID = acfg.identity →
    r.state = some state → state.executionID = x ∧
      ∃ e ∈ answers, e.payload = some (.executionState state)

theorem Core.initial : Core acfg ccfg [] [] .empty where
  keyed := .initial
  sender _ h := nomatch h
  renewing h := nomatch h
  inspecting h := nomatch h
  observed h := nomatch h

theorem Core.mono {sent answers answers' : List Envelope} {s : Client.State}
    (h : Core acfg ccfg sent answers s) (hle : ∀ e ∈ answers, e ∈ answers') :
    Core acfg ccfg sent answers' s where
  keyed := h.keyed
  sender := h.sender
  renewing := h.renewing
  inspecting := h.inspecting
  observed hr hnode hstate := by
    obtain ⟨hid, e, he, hpayload⟩ := h.observed hr hnode hstate
    exact ⟨hid, e, hle e he, hpayload⟩

theorem sender_of_hands {t : Client.State} {command : Client.Handed}
    (h : Client.Hands ccfg t command) : command.2.sender = ccfg.identity := by
  cases h <;> rfl

/-- A new inspection is handed out. -/
theorem inspect_sends {s : Client.State} {i : Client.Input} {x : GoString}
    {r : Client.ExecutionRecord} (hr : s.executions.lookup x = some r) (hid : i.id 0 ≠ []) :
    ∃ e ∈ (Client.handed (Client.inspect ccfg i x s).2).map Prod.snd,
      e.messageID = i.id 0 ∧ asks e = some x := by
  unfold Client.inspect
  rw [hr]
  dsimp only
  rw [if_neg hid]
  exact ⟨_, List.mem_singleton.mpr rfl, rfl, rfl⟩

/-- So is a new renewal. -/
theorem maintain_sends {s : Client.State} {i : Client.Input} {x : GoString} {d : Int}
    {r r' : Client.ExecutionRecord} (hkeyed : r.id = x) (hr : s.executions.lookup x = some r)
    (hr' : (Client.maintain ccfg i x d s).1.executions.lookup x = some r') :
    r'.leaseRenewMessageID = r.leaseRenewMessageID ∨
      ∃ e ∈ ((Client.Op.maintain i x d).apply ccfg s).2.map Prod.snd,
        e.messageID = r'.leaseRenewMessageID ∧ asks e = some x := by
  unfold Client.Op.apply
  dsimp only
  have same {r₁ : Client.ExecutionRecord}
      (hr' : (s.setExecution x r₁).executions.lookup x = some r') : r' = r₁ :=
    Option.some.inj (hr'.symm.trans (Client.lookup_setExecution s x r₁))
  generalize hy : Client.maintain ccfg i x d s = y at hr' ⊢
  unfold Client.maintain at hy
  rw [hr] at hy
  dsimp only at hy
  split at hy
  · subst hy
    obtain rfl := Option.some.inj (hr.symm.trans hr')
    exact .inl rfl
  split at hy
  · split at hy
    · subst hy
      rw [same hr']
      exact .inl rfl
    · subst hy
      obtain rfl := Option.some.inj (hr.symm.trans hr')
      exact .inl rfl
  split at hy
  · subst hy
    rw [same hr']
    exact .inl rfl
  subst hy
  rw [same hr']
  refine .inr ⟨_, List.mem_singleton.mpr rfl, rfl, ?_⟩
  show some r.id = some x
  rw [hkeyed]

theorem Core.op {sent answers : List Envelope} {s : Client.State}
    (h : Core acfg ccfg sent answers s) (op : Client.Op)
    (hanswer : ∀ i e, op = .handle i e → e.sender = acfg.identity → e ∈ answers) :
    Core acfg ccfg ((op.apply ccfg s).2.map Prod.snd ++ sent) answers (op.apply ccfg s).1 := by
  have hkept : Client.Kept ccfg op s (op.apply ccfg s).1 := Client.kept_apply s op
  have old {x id : GoString} (hid : Asks sent x id) :
      Asks ((op.apply ccfg s).2.map Prod.snd ++ sent) x id := by
    intro hne
    obtain ⟨e, he, hrest⟩ := hid hne
    exact ⟨e, List.mem_append_right _ he, hrest⟩
  refine ⟨h.keyed.kept hkept, ?_, ?_, ?_, ?_⟩
  · intro e he
    rcases List.mem_append.mp he with he | he
    · obtain ⟨command, hin, rfl⟩ := List.mem_map.mp he
      exact sender_of_hands (Client.hands_apply s op hin)
    · exact h.sender e he
  · intro x r hr
    rcases hkept.execution hr with ⟨r₀, hr₀, hwork⟩ | hnew
    · rcases hwork.renew with hsame | hempty | ⟨i, d, rfl, -⟩
      · rw [hsame]
        exact old (h.renewing hr₀)
      · intro hne
        exact absurd hempty hne
      · rcases maintain_sends (h.keyed.execution hr₀).1 hr₀ hr with hsame | ⟨e, he, hrest⟩
        · rw [hsame]
          exact old (h.renewing hr₀)
        · exact fun _ => ⟨e, List.mem_append_left _ he, hrest⟩
    · intro hne
      exact absurd hnew.fresh.2.2.1 hne
  · intro x r hr
    rcases hkept.execution hr with ⟨r₀, hr₀, hwork⟩ | hnew
    · rcases hwork.inspect with hsame | ⟨i, rfl, hid⟩
      · rw [hsame]
        exact old (h.inspecting hr₀)
      · intro hne
        rw [hid] at hne ⊢
        obtain ⟨e, he, hrest⟩ := inspect_sends hr₀ hne
        exact ⟨e, List.mem_append_left _ he, hrest⟩
    · intro hne
      exact absurd hnew.fresh.1 hne
  · intro x r state hr hnode hstate
    rcases hkept.execution hr with ⟨r₀, hr₀, hwork⟩ | hnew
    · rw [hwork.allocatorID] at hnode
      rcases hwork.state with hsame | ⟨i, e, state', rfl, -, hpayload, hsender, hid, hnew⟩
      · rw [hsame] at hstate
        exact h.observed hr₀ hnode hstate
      · rw [hnew] at hstate
        cases hstate
        exact ⟨hid, e, hanswer i e rfl (hsender.symm.trans hnode), hpayload⟩
    · rw [hnew.fresh.2.2.2.2.2] at hstate
      cases hstate

-- ===== the runs

structure Inv (ccfg : Client.Config) (s : State acfg) : Prop where
  node : Node ccfg.identity s.sent s.created s.produced s.node
  core : Core acfg ccfg s.sent s.answers s.client
  answers : ∀ e ∈ s.answers, Said s.produced e

theorem Inv.step {s t : State acfg} {l : Label acfg} (h : Inv ccfg s)
    (hok : Proper s l ∧ Timely s l) (hstep : s.step ccfg l = some t) : Inv ccfg t := by
  obtain ⟨hproper, htimely⟩ := hok
  cases l with
  | client op =>
    cases hstep
    refine ⟨h.node.mono fun e he => List.mem_append_right _ he, ?_, h.answers⟩
    refine h.core.op op ?_
    intro i e hop hsender
    subst hop
    exact hproper hsender
  | node l =>
    obtain ⟨n, hn, rfl⟩ := Option.map_eq_some_iff.mp hstep
    by_cases hrun : ∃ tid i, l = .run tid i
    · obtain ⟨tid, i, rfl⟩ := hrun
      obtain ⟨hnode, hreturned⟩ := h.node.run (fun x hx => List.mem_append_right _ hx)
        h.core.sender hproper htimely hn
      refine ⟨hnode, h.core.mono fun e he => List.mem_append_right _ he, ?_⟩
      intro e he
      rcases List.mem_append.mp he with hnew | hold
      · exact hreturned e hnew
      · exact (h.answers e hold).mono fun p hp => List.mem_append_right _ hp
    · have hother : ∀ tid i, l ≠ .run tid i := fun tid i heq => hrun ⟨tid, i, heq⟩
      have hnone : s.node.starts l = none ∧ s.node.returned l = [] ∧
          produces s.node s.created l = [] := by
        cases l with
        | run tid i => exact absurd rfl (hother tid i)
        | _ => exact ⟨rfl, rfl, rfl⟩
      obtain ⟨hstarts, hreturned, hproduces⟩ := hnone
      have hnode : Node ccfg.identity s.sent s.created s.produced n := by
        refine h.node.other hother ?_ hn
        intro tid e hl
        subst hl
        exact hproper
      rw [hstarts, hreturned]
      show Inv ccfg { s with
        node := n, created := s.created,
        produced := produces s.node s.created l ++ s.produced, answers := s.answers }
      rw [hproduces]
      exact ⟨hnode, h.core, h.answers⟩

theorem inv_reachable {s : State acfg}
    (hs : (pair ccfg acfg).ReachWhen (fun s l => Proper s l ∧ Timely s l) s) : Inv ccfg s := by
  refine hs.invariant ?_ ?_
  · rintro s rfl
    exact ⟨.initial, .initial, fun _ h => (nomatch h)⟩
  · intro s l t h hok hstep
    exact h.step hok hstep

/-- No two commands handed out share a message ID. -/
def State.DistinctIDs (s : State acfg) : Prop :=
  ∀ e ∈ s.sent, ∀ e' ∈ s.sent, e.messageID = e'.messageID → e = e'

/-- In every run in which the inspections and renewals come in time, an
operation of the client marks a lease lost only because of an answer that
the allocator settled when the execution was over. -/
theorem lease_lost_only_when_over {s : State acfg}
    (hs : (pair ccfg acfg).ReachWhen (fun s l => Proper s l ∧ Timely s l) s)
    (hids : s.DistinctIDs) {op : Client.Op} (hproper : Proper s (.client op)) {x : GoString}
    {r r' : Client.ExecutionRecord} (hr : s.client.executions.lookup x = some r)
    (hnode : r.allocatorID = acfg.identity) (hheld : r.leaseLost = false)
    (hr' : (op.apply ccfg s.client).1.executions.lookup x = some r')
    (hlost : r'.leaseLost = true) :
    ∃ e ∈ s.answers,
      ((∃ i, op = .handle i e) ∨
        ∃ state, r.state = some state ∧ e.payload = some (.executionState state)) ∧
      ∃ p ∈ s.produced, p.underlies e ∧ p.over ccfg.identity x := by
  have hinv := inv_reachable hs
  -- an evicted state goes back to a verdict on the same execution
  have evicted {e : Envelope} {state : ExecutionState} (he : e ∈ s.answers)
      (hpayload : e.payload = some (.executionState state)) (hid : state.executionID = x)
      (hstate : Client.lostLeaseState state = true) :
      ∃ p ∈ s.produced, p.underlies e ∧ p.over ccfg.identity x := by
    obtain ⟨p, hp, hunder⟩ := hinv.answers e he
    refine ⟨p, hp, hunder, ?_⟩
    obtain ⟨-, hverdict⟩ := hunder
    split at hverdict
    next e' heq =>
      subst hverdict
      rw [← hid]
      exact (hinv.node.reasoned p hp).2.eviction e state heq hpayload hstate
    next err heq =>
      rw [hpayload] at hverdict
      cases hverdict
  have hkept : Client.Kept ccfg op s.client (op.apply ccfg s.client).1 :=
    Client.kept_apply s.client op
  obtain ⟨r₁, hr₁, hwork⟩ := hkept.executions x r hr
  obtain rfl := Option.some.inj (hr'.symm.trans hr₁)
  rcases hwork.lost hlost with hbefore | hloses
  · rw [hheld] at hbefore
    cases hbefore
  · cases hloses with
    | @evicted i e state hop _ hstate hsender hid hlost =>
      subst hop
      have he : e ∈ s.answers := hproper (hsender.symm.trans hnode)
      exact ⟨e, he, .inl ⟨i, rfl⟩, evicted he hstate hid hlost⟩
    | @refused i e failure hop hvalid herror hsender hid hcode =>
      subst hop
      have he : e ∈ s.answers := hproper (hsender.symm.trans hnode)
      refine ⟨e, he, .inl ⟨i, rfl⟩, ?_⟩
      obtain ⟨p, hp, hunder⟩ := hinv.answers e he
      obtain ⟨hsent, hreasoned⟩ := hinv.node.reasoned p hp
      -- the command it answers is the pending one
      have hne : e.correlationID ≠ [] := correlationID_ne_of_error hvalid herror
      have hasked : asks p.command = some x := by
        have hcommand : ∃ e' ∈ s.sent, e'.messageID = e.correlationID ∧ asks e' = some x := by
          rcases hid with hid | hid
          · rw [hid] at hne ⊢
            exact hinv.core.renewing hr hne
          · rw [hid] at hne ⊢
            exact hinv.core.inspecting hr hne
        obtain ⟨e', he', hid', hask⟩ := hcommand
        rw [hids p.command hsent e' he' (hunder.1.symm.trans hid'.symm)]
        exact hask
      refine ⟨p, hp, hunder, hreasoned.refusal x hasked ?_⟩
      obtain ⟨-, hverdict⟩ := hunder
      split at hverdict
      next e' heq =>
        subst hverdict
        rw [heq]
        exact ⟨failure, herror, hcode⟩
      rename_i err heq
      rw [herror] at hverdict
      cases hverdict
      rw [heq]
      exact hcode
    | known hop hlost =>
      obtain ⟨state, hstate, hlost⟩ := (Option.any_eq_true _ _).mp hlost
      obtain ⟨hid, e, he, hpayload⟩ := hinv.core.observed hr hnode hstate
      exact ⟨e, he, .inr ⟨state, hstate, hpayload⟩, evicted he hpayload hid hlost⟩

-- ===== runs to evaluate on

instance (p : Produced) (client : Bytes) (x : GoString) : Decidable (p.over client x) :=
  decidable_of_iff
    ((p.mem.executions.lookup x).any (·.phase.terminal) = true ∨
      (p.mem.tombstones.any fun _ t => t.guards client x) = true ∨
      x ∈ p.created ∧ (p.mem.executions.lookup x).all (·.client ≠ client) = true)
    (by
      unfold Produced.over
      cases p.mem.executions.lookup x <;> simp)

instance (s : State acfg) : Decidable s.DistinctIDs :=
  inferInstanceAs (Decidable (∀ e ∈ s.sent, ∀ e' ∈ s.sent, _ → _))

def proper (s : State acfg) : Label acfg → Bool
  | .client (.handle _ e) => e.sender ≠ acfg.identity || e ∈ s.answers
  | .node (.call _ e) => e.1 ∈ s.sent
  | .node (.run tid _) =>
    match s.node.threads.lookup tid with
    | some (.received e) => (asks e.1).all fun x => x ∈ s.created
    | _ => true
  | _ => true

theorem proper_of_check (s : State acfg) (l : Label acfg) (h : proper s l = true) : Proper s l := by
  cases l with
  | client op =>
    cases op with
    | handle i e =>
      intro hsender
      change (decide (e.sender ≠ acfg.identity) || decide (e ∈ s.answers)) = true at h
      simpa [hsender] using h
    | _ => trivial
  | node l =>
    cases l with
    | call tid e =>
      show e.1 ∈ s.sent
      exact of_decide_eq_true h
    | run tid i =>
      intro e x he hask
      unfold proper at h
      dsimp only at h
      rw [he] at h
      simpa [hask] using h
    | _ => trivial

def timely (s : State acfg) : Label acfg → Bool
  | .node (.run tid i) =>
    match s.node.threads.lookup tid with
    | some (.received e) =>
      (asks e.1).isNone || withinHorizon (max s.node.world.mem.highWater i.now) e.1
    | _ => true
  | _ => true

theorem timely_of_check (s : State acfg) (l : Label acfg) (h : timely s l = true) : Timely s l := by
  cases l with
  | client op => trivial
  | node l =>
    cases l with
    | run tid i =>
      intro e he hask
      unfold timely at h
      dsimp only at h
      rw [he] at h
      obtain ⟨x, hx⟩ := Option.isSome_iff_exists.mp hask
      simpa [hx] using h
    | _ => trivial

def aliceClient : Client.Config := ⟨alice, fun _ => List.replicate 32 0, List.cons_ne_nil _ _⟩

/-- A clock reading and the next IDs of the client. -/
def reading (t : Int) (ids : List String) : Client.Input :=
  { times := [t, t], ids := ids.map text }

/-- The execution "x" is selected, assigned and started. -/
def startedRun : List (Label oneSlot) :=
  [ .client (.register { identity := [1], destination := text "there" }),
    .client (.createRequest (reading epoch ["r", "m1"]) Allocator.sampleRequest.workload
      (some {}) cpu none) ]
  ++ Allocator.requestRun.map .node
  ++ [ .client (.handle (reading epoch [])
         (Allocator.envelope oneSlot (text "a1") (text "m1") epoch (.executionOffer ⟨text "o",
           text "r", cpu, some (Timestamp.new (epoch + 30000000000)), none⟩))),
       .client (.select (reading epoch ["x", "m2"]) (text "r")) ]
  ++ Allocator.assignRun.map .node
  ++ [.node (.run 1 { now := epoch, id := text "a2" }), .node (.run 1 { now := epoch })]

/-- A renewal from a client whose clock is three minutes fast. -/
def fastRenewal : Inbound oneSlot :=
  ⟨⟨text "m3", alice, [], some (Timestamp.new (epoch + 3 * minute)),
      some (.executionLeaseRenew ⟨text "x", some (PbDuration.new (10 * minute))⟩)⟩,
    by decide +kernel⟩

def fastRun : List (Label oneSlot) :=
  startedRun ++
    [ .client (.maintain (reading (epoch + 3 * minute) ["m3"]) (text "x") (10 * minute)),
      .node (.call 2 fastRenewal), .node (.run 2 { now := epoch, later := epoch }) ]

/-- What the allocator answers. -/
def expiredAnswer : Envelope :=
  Allocator.envelope oneSlot (Allocator.randomID Allocator.Random.zero) (text "m3") epoch
    (.commandError ⟨"EXPIRED", text "reservation or retained result expired", false⟩)

/-- The lease of an execution that runs is marked lost, and no verdict was
settled when it was over. -/
theorem fast_clock_costs_the_lease :
    ∃ s, (pair aliceClient oneSlot).ReachWhen Proper s ∧ s.DistinctIDs ∧
      expiredAnswer ∈ s.answers ∧
      (s.node.world.mem.executions.lookup (text "x")).map (·.phase) = some .running ∧
      (s.client.executions.lookup (text "x")).map (fun r => (r.allocatorID, r.leaseLost)) =
        some (oneSlot.identity, false) ∧
      (((Client.Op.handle (reading epoch []) expiredAnswer).apply aliceClient
        s.client).1.executions.lookup (text "x")).map (·.leaseLost) = some true ∧
      ∀ p ∈ s.produced, ¬p.over alice (text "x") := by
  refine ((pair aliceClient oneSlot).exists_reachWhen (fun s l => proper s l = true) rfl fastRun _
    (by decide +kernel)).imp fun s hs => ⟨hs.1.mono proper_of_check, hs.2⟩

def lapse : Int := epoch + 11 * minute

def lateInspection : Inbound oneSlot :=
  ⟨⟨text "m3", alice, [], some (Timestamp.new lapse), some (.executionInspect ⟨text "x"⟩)⟩,
    by decide +kernel⟩

/-- The lease lapses, the allocator evicts, and the client inspects. -/
def lapsedRun : List (Label oneSlot) :=
  startedRun ++
    [ .node (.evictLeases 2), .node (.run 2 { now := lapse, pick := text "x" }),
      .node (.run 2 { now := lapse }), .client (.inspect (reading lapse ["m3"]) (text "x")),
      .node (.call 3 lateInspection), .node (.run 3 { now := lapse }),
      .node (.run 3 { now := lapse }), .node (.run 3 { now := lapse, id := text "a3" }),
      .node (.run 3 { now := lapse }) ]

/-- The latest answer. -/
def State.latest (s : State acfg) : Envelope := s.answers.headD expiredAnswer

/-- The loss of a lease that lapsed goes back to the eviction. -/
theorem lapsed_lease_was_over :
    ∃ s, (pair aliceClient oneSlot).ReachWhen (fun s l => Proper s l ∧ Timely s l) s ∧
      ∃ e ∈ s.answers, ∃ p ∈ s.produced, p.underlies e ∧ p.over alice (text "x") := by
  obtain ⟨s, hs, hp⟩ := (pair aliceClient oneSlot).exists_reachWhen
    (fun s l => proper s l = true ∧ timely s l = true) rfl lapsedRun
    (fun s => s.DistinctIDs ∧ s.latest ∈ s.answers ∧
      (s.client.executions.lookup (text "x")).map (fun r => (r.allocatorID, r.leaseLost)) =
        some (oneSlot.identity, false) ∧
      (((Client.Op.handle (reading lapse []) s.latest).apply aliceClient
        s.client).1.executions.lookup (text "x")).map (·.leaseLost) = some true)
    (by decide +kernel)
  have hs := hs.mono fun s l h => And.intro (proper_of_check s l h.1) (timely_of_check s l h.2)
  obtain ⟨hids, hlatest, hbefore, hafter⟩ := hp
  obtain ⟨r, hr, hrecord⟩ := Option.map_eq_some_iff.mp hbefore
  obtain ⟨r', hr', hlost⟩ := Option.map_eq_some_iff.mp hafter
  have hproper : Proper s (.client (.handle (reading lapse []) s.latest)) := fun _ => hlatest
  obtain ⟨e, he, -, hover⟩ := lease_lost_only_when_over hs hids hproper hr
    (congrArg Prod.fst hrecord) (congrArg Prod.snd hrecord) hr' hlost
  exact ⟨s, hs, e, he, hover⟩

end R1s.Lease
