/-
Which command errors find their way. The core accepts an error by
scanning for the message it answers (`handleErrorLocked`), and each kind
of command keeps its message ID in a place of its own: in the request, in
the release intent, in the execution, or beside them all for a log read.
An observer of the commands handed out remembers the latest of each kind;
the invariant says where the core still knows it (`Recognised`).

A tunnel-open is kept nowhere, and a renewal only until it is answered or
its lease is lost.
-/
import R1s.Client.Proofs.Handed

namespace R1s.Client

open Allocator (visit mem_visit)

variable {cfg : Config}

-- ===== the observer

inductive Kind
  | request | assign | cancel | inspect | release | renew | logs | tunnel
deriving DecidableEq

/-- A command handed out: the execution it is about, where it is about
one, its message ID, and the allocator it is addressed to. A request goes
to every allocator. -/
structure Command where
  execution : GoString
  messageID : GoString
  allocator : Option Bytes
deriving DecidableEq

/-- The allocator of an execution. -/
def State.allocatorOf (s : State) (x : GoString) : Option Bytes :=
  (s.executions.lookup x).map ExecutionRecord.allocatorID

/-- The kind of a command, its execution and its allocator. -/
def State.classify (s : State) : Payload → Option (Kind × GoString × Option Bytes)
  | .executionRequest _ => some (.request, [], none)
  | .executionAssign q => some (.assign, q.executionID, s.allocatorOf q.executionID)
  | .executionCancel q => some (.cancel, q.executionID, s.allocatorOf q.executionID)
  | .executionInspect q => some (.inspect, q.executionID, s.allocatorOf q.executionID)
  | .executionOfferRelease q =>
    some (.release, [],
      (s.requests.lookup q.requestID).bind fun request =>
        (request.offers.lookup q.offerID).map OfferRecord.allocatorID)
  | .executionLeaseRenew q => some (.renew, q.executionID, s.allocatorOf q.executionID)
  | .executionLogsRequest q => some (.logs, q.executionID, s.allocatorOf q.executionID)
  | .executionTunnelOpen q => some (.tunnel, q.executionID, s.allocatorOf q.executionID)
  | _ => none

/-- The latest command of each kind. -/
abbrev Commands := Kind → Option Command

/-- A command noted in the state it was handed out in. -/
def Commands.add (t : State) (h : Commands) (command : Handed) : Commands :=
  match command.2.payload.bind t.classify with
  | some (kind, execution, allocator) =>
    Function.update h kind (some ⟨execution, command.2.messageID, allocator⟩)
  | none => h

def Commands.note (cfg : Config) (s : State) (op : Op) (t : State) (h : Commands) : Commands :=
  (op.apply cfg s).2.foldl (Commands.add t) h

/-- The core beside the observer. -/
def commanding (cfg : Config) : TransitionSystem (State × Commands) Op :=
  (machine cfg).observe (fun _ => none) (Commands.note cfg)

-- ===== the invariant

/-- Where the core knows a command of each kind. -/
def Recognised (s : State) (c : Command) : Kind → Prop
  | .request => ∃ k r, s.requests.lookup k = some r ∧ r.messageID = c.messageID
  | .assign => ∃ r, s.executions.lookup c.execution = some r ∧
      r.assignmentMessageID = c.messageID ∧ c.allocator = some r.allocatorID
  | .cancel => ∃ r, s.executions.lookup c.execution = some r ∧ c.messageID ≠ [] ∧
      r.cancelMessageID = c.messageID ∧ c.allocator = some r.allocatorID
  | .inspect => ∃ r, s.executions.lookup c.execution = some r ∧
      r.inspectMessageID = c.messageID ∧ c.allocator = some r.allocatorID
  | .release => ∃ k r o offer release, s.requests.lookup k = some r ∧
      r.offers.lookup o = some offer ∧ offer.release = some release ∧
      release.messageID = c.messageID ∧ c.allocator = some offer.allocatorID
  | .renew => ∃ r, s.executions.lookup c.execution = some r ∧ c.allocator = some r.allocatorID
  | .logs => s.logMessageID = c.messageID ∧ ∃ q r, s.logRequest = some q ∧
      s.executions.lookup q.executionID = some r ∧ c.allocator = some r.allocatorID
  | .tunnel => True

variable {s : State}

/-- An operation that hands out no command of the kind keeps it known. -/
theorem Recognised.kept {t : State} {op : Op} {c : Command} {kind : Kind}
    (h : Recognised s c kind) (hkept : Kept cfg op s t)
    (hinspect : kind = .inspect → ∀ i x, op ≠ .inspect i x)
    (hlogs : kind = .logs → ∀ i q, op ≠ .logs i q) : Recognised t c kind := by
  cases kind with
  | request =>
    obtain ⟨k, r, hr, hid⟩ := h
    obtain ⟨r', hr', hsame⟩ := hkept.requests k r hr
    exact ⟨k, r', hr', hsame.messageID.trans hid⟩
  | assign =>
    obtain ⟨r, hr, hid, hallocator⟩ := h
    obtain ⟨r', hr', hwork⟩ := hkept.executions _ r hr
    exact ⟨r', hr', hwork.assignmentMessageID.trans hid, by rw [hallocator, hwork.allocatorID]⟩
  | cancel =>
    obtain ⟨r, hr, hne, hid, hallocator⟩ := h
    obtain ⟨r', hr', hwork⟩ := hkept.executions _ r hr
    refine ⟨r', hr', hne, ?_, by rw [hallocator, hwork.allocatorID]⟩
    rw [hwork.cancel (by rw [hid]; exact hne), hid]
  | inspect =>
    obtain ⟨r, hr, hid, hallocator⟩ := h
    obtain ⟨r', hr', hwork⟩ := hkept.executions _ r hr
    refine ⟨r', hr', ?_, by rw [hallocator, hwork.allocatorID]⟩
    rcases hwork.inspect with hsame | ⟨i, hop, -⟩
    · exact hsame.trans hid
    · exact absurd hop (hinspect rfl i _)
  | release =>
    obtain ⟨k, r, o, offer, release, hr, hoffer, hrelease, hid, hallocator⟩ := h
    obtain ⟨r', hr', hsame⟩ := hkept.requests k r hr
    obtain ⟨offer', hoffer', hsameOffer⟩ := hsame.offers o offer hoffer
    obtain ⟨release', hrelease', heq⟩ := hsameOffer.release release hrelease
    exact ⟨k, r', o, offer', release', hr', hoffer', hrelease', heq.messageID.trans hid,
      by rw [hallocator, hsameOffer.allocatorID]⟩
  | renew =>
    obtain ⟨r, hr, hallocator⟩ := h
    obtain ⟨r', hr', hwork⟩ := hkept.executions _ r hr
    exact ⟨r', hr', by rw [hallocator, hwork.allocatorID]⟩
  | logs =>
    obtain ⟨hid, q, r, hq, hr, hallocator⟩ := h
    obtain ⟨hsameID, hsameRequest⟩ := hkept.logs (hlogs rfl)
    obtain ⟨r', hr', hwork⟩ := hkept.executions _ r hr
    exact ⟨hsameID.trans hid, q, r', hsameRequest.trans hq, hr',
      by rw [hallocator, hwork.allocatorID]⟩
  | tunnel => trivial

-- ===== commands are known

/-- A command handed out is known in the state it leads to. -/
def Known (t : State) (command : Handed) : Prop :=
  ∀ kind execution allocator, command.2.payload.bind t.classify
      = some (kind, execution, allocator) →
    Recognised t ⟨execution, command.2.messageID, allocator⟩ kind

/-- Every command of an operation. -/
theorem known_apply (hkeys : Keyed s) (op : Op) {command : Handed}
    (h : command ∈ (op.apply cfg s).2) : Known (op.apply cfg s).1 command := by
  have hkeys : Keyed (op.apply cfg s).1 := hkeys.kept (kept_apply s op)
  have hands := hands_apply s op h
  generalize (op.apply cfg s).1 = t at hkeys hands ⊢
  -- the allocator of an execution the core has
  have allocator {x : GoString} {r : ExecutionRecord} (hr : t.executions.lookup x = some r) :
      t.allocatorOf x = some r.allocatorID := by
    unfold State.allocatorOf
    rw [hr]
    rfl
  intro kind execution a hclass
  cases hands with
  | request hr =>
    cases hclass
    exact ⟨_, _, hr, rfl⟩
  | assign hr =>
    cases hclass
    rw [(hkeys.execution hr).1]
    exact ⟨_, hr, rfl, allocator hr⟩
  | cancel hr hid =>
    cases hclass
    exact ⟨_, hr, hid, rfl, allocator hr⟩
  | inspect hr =>
    cases hclass
    exact ⟨_, hr, rfl, allocator hr⟩
  | @release k o r offer intent hr ho hintent =>
    cases hclass
    refine ⟨k, r, o, offer, intent, hr, ho, hintent, rfl, ?_⟩
    show ((t.requests.lookup r.request.requestID).bind fun r =>
      (r.offers.lookup offer.offer.offerID).map OfferRecord.allocatorID) = _
    rw [(hkeys.request hr).1, hr, hkeys.offer hr ho]
    show (r.offers.lookup o).map OfferRecord.allocatorID = _
    rw [ho]
    rfl
  | renew hr =>
    cases hclass
    rw [(hkeys.execution hr).1]
    exact ⟨_, hr, allocator hr⟩
  | logs hq hr =>
    cases hclass
    exact ⟨rfl, _, _, hq, hr, allocator hr⟩
  | tunnel hr =>
    cases hclass
    trivial

-- ===== the runs

/-- Where the latest command of a kind comes from. -/
theorem noted (t : State) (kind : Kind) (c : Command) (l : List Handed) :
    ∀ h : Commands, l.foldl (Commands.add t) h kind = some c →
      (h kind = some c ∧
        ∀ m ∈ l, ∀ x a, m.2.payload.bind t.classify ≠ some (kind, x, a)) ∨
      ∃ m ∈ l, ∃ x a, m.2.payload.bind t.classify = some (kind, x, a) ∧
        c = ⟨x, m.2.messageID, a⟩ := by
  induction l with
  | nil =>
    intro h hc
    exact .inl ⟨hc, by simp⟩
  | cons m rest ih =>
    intro h hc
    rcases ih _ hc with ⟨hhead, hrest⟩ | ⟨m', hm', hfrom⟩
    · unfold Commands.add at hhead
      cases hclass : m.2.payload.bind t.classify with
      | some found =>
        obtain ⟨kind', x, a⟩ := found
        rw [hclass] at hhead
        by_cases hkind : kind = kind'
        · subst hkind
          change Function.update h kind _ kind = some c at hhead
          rw [Function.update_self] at hhead
          exact .inr ⟨m, List.mem_cons_self, x, a, hclass, (Option.some.inj hhead).symm⟩
        · change Function.update h kind' _ kind = some c at hhead
          rw [Function.update_of_ne hkind] at hhead
          refine .inl ⟨hhead, ?_⟩
          intro m' hm' y b hclass'
          rcases List.mem_cons.mp hm' with rfl | hm'
          · rw [hclass] at hclass'
            exact hkind (congrArg Prod.fst (Option.some.inj hclass')).symm
          · exact hrest m' hm' y b hclass'
      | none =>
        rw [hclass] at hhead
        refine .inl ⟨hhead, ?_⟩
        intro m' hm' y b hclass'
        rcases List.mem_cons.mp hm' with rfl | hm'
        · rw [hclass] at hclass'
          cases hclass'
        · exact hrest m' hm' y b hclass'
    · exact .inr ⟨m', List.mem_cons_of_mem _ hm', hfrom⟩

/-- An inspection that hands out nothing changes nothing. -/
theorem inspect_hands (i : Input) (x : GoString) (s : State) :
    (inspect cfg i x s).1 = s ∨ ∃ m ∈ handed (inspect cfg i x s).2, ∃ y a,
      m.2.payload.bind (inspect cfg i x s).1.classify = some (.inspect, y, a) := by
  unfold inspect
  split
  · exact .inl rfl
  · split
    · exact .inl rfl
    · exact .inr ⟨_, List.mem_singleton.mpr rfl, _, _, rfl⟩

/-- So does a log read. -/
theorem logs_hands (i : Input) (q : ExecutionLogsRequest) (s : State) :
    (logs cfg i q s).1 = s ∨ ∃ m ∈ handed (logs cfg i q s).2, ∃ y a,
      m.2.payload.bind (logs cfg i q s).1.classify = some (.logs, y, a) := by
  unfold logs
  split
  · exact .inl rfl
  dsimp only
  split
  · exact .inl rfl
  · exact .inr ⟨_, List.mem_singleton.mpr rfl, _, _, rfl⟩

theorem keyed_reachable (h : (machine cfg).Reach s) : Keyed s := by
  refine h.invariant ?_ ?_
  · rintro s rfl
    exact .initial
  · intro s op t hs _ hstep
    cases hstep
    exact hs.kept (kept_apply s op)

/-- The latest command of each kind is one the core knows. -/
theorem recognised_reachable {s : State × Commands} (h : (commanding cfg).Reach s) :
    ∀ kind c, s.2 kind = some c → Recognised s.1 c kind := by
  refine h.observed (I := fun s cs => ∀ kind c, cs kind = some c → Recognised s c kind) ?_ ?_
  · intro s _ kind c hc
    cases hc
  · intro s op t cs hreach _ hs _ hstep kind c hc
    obtain rfl : (op.apply cfg s).1 = t := Option.some.inj hstep
    rcases noted _ kind c _ _ hc with ⟨hold, hnew⟩ | ⟨m, hm, x, a, hclass, rfl⟩
    · have hbefore := hs kind c hold
      by_cases hinspect : kind = .inspect ∧ ∃ i x, op = .inspect i x
      · obtain ⟨rfl, i, x, rfl⟩ := hinspect
        rcases inspect_hands i x s with hsame | ⟨m, hm, y, a, hclass⟩
        · show Recognised (inspect cfg i x s).1 c .inspect
          rw [hsame]
          exact hbefore
        · exact absurd hclass (hnew m hm y a)
      · by_cases hlogs : kind = .logs ∧ ∃ i q, op = .logs i q
        · obtain ⟨rfl, i, q, rfl⟩ := hlogs
          rcases logs_hands i q s with hsame | ⟨m, hm, y, a, hclass⟩
          · show Recognised (logs cfg i q s).1 c .logs
            rw [hsame]
            exact hbefore
          · exact absurd hclass (hnew m hm y a)
        · refine hbefore.kept (kept_apply s op) ?_ ?_
          · intro hkind i x hop
            exact hinspect ⟨hkind, i, x, hop⟩
          · intro hkind i q hop
            exact hlogs ⟨hkind, i, q, hop⟩
    · exact known_apply (keyed_reachable hreach) op hm kind x a hclass

-- ===== the authority

variable {e : Envelope}

/-- While the sender is in the catalog the scan never withdraws. -/
theorem requestAuthority_true (hsender : (s.allocators.lookup e.sender).isSome = true)
    (keys : List GoString) : requestAuthority e s keys true = true := by
  induction keys with
  | nil => rfl
  | cons key rest ih =>
    unfold requestAuthority
    split
    · exact ih
    rename_i request _
    have hstays : (if request.messageID = e.correlationID then
        (s.allocators.lookup e.sender).isSome else true) = true := by
      split
      · exact hsender
      · rfl
    rw [hstays]
    exact ih

/-- A request that the error answers gives it authority, wherever it is
met. -/
theorem requestAuthority_of_mem {k : GoString} {r : RequestRecord}
    (hsender : (s.allocators.lookup e.sender).isSome = true) (hr : s.requests.lookup k = some r)
    (hanswers : r.messageID = e.correlationID ∨ r.releasedBy e = true) (keys : List GoString) :
    ∀ b, k ∈ keys → requestAuthority e s keys b = true := by
  induction keys with
  | nil =>
    intro b hk
    cases hk
  | cons key rest ih =>
    intro b hk
    unfold requestAuthority
    rcases List.mem_cons.mp hk with rfl | hk
    · rw [hr]
      dsimp only
      have hgranted : ((if r.messageID = e.correlationID then
          (s.allocators.lookup e.sender).isSome else b) || r.releasedBy e) = true := by
        rcases hanswers with hanswers | hanswers
        · rw [if_pos hanswers, hsender]
          rfl
        · rw [hanswers, Bool.or_true]
      rw [hgranted]
      exact requestAuthority_true hsender rest
    · split
      · exact ih b hk
      · exact ih _ hk

/-- The command is one of a kind the core still keeps: no tunnel-open,
and of the renewals the pending one. -/
def Outstanding (s : State) (c : Command) (kind : Kind) : Prop :=
  kind ≠ .tunnel ∧ (kind = .renew →
    (s.executions.lookup c.execution).map ExecutionRecord.leaseRenewMessageID = some c.messageID)

instance (s : State) (c : Command) (kind : Kind) : Decidable (Outstanding s c kind) :=
  inferInstanceAs (Decidable (_ ∧ _))

theorem handleError_accepts {i : Input} {failure : CommandError}
    (h : requestAuthority e s (visit i.order s.requests) (logAuthority e s) = true ∨
      ∃ x r, s.executions.lookup x = some r ∧ r.answeredBy e = true) :
    (handleError i e failure s).2 = none := by
  have hauthority : (requestAuthority e s (visit i.order s.requests) (logAuthority e s)
      || s.executions.any fun _ r => r.answeredBy e) = true := by
    rw [Bool.or_eq_true, AList.any_eq_true]
    exact h
  exact if_pos hauthority

/-- An error in answer to a known command is accepted. -/
theorem handleError_of_recognised {i : Input} {failure : CommandError} {c : Command} {kind : Kind}
    (h : Recognised s c kind) (hout : Outstanding s c kind)
    (hsender : (s.allocators.lookup e.sender).isSome = true)
    (hfrom : ∀ a, c.allocator = some a → e.sender = a)
    (hcorrelation : e.correlationID = c.messageID) : (handleError i e failure s).2 = none := by
  -- an answer to a request or a release, found by the first scan
  have byRequest {k : GoString} {r : RequestRecord} (hr : s.requests.lookup k = some r)
      (hanswers : r.messageID = e.correlationID ∨ r.releasedBy e = true) :
      (handleError i e failure s).2 = none := by
    refine handleError_accepts (.inl (requestAuthority_of_mem hsender hr hanswers _ _ ?_))
    exact mem_visit.mpr (isSome_of_some hr)
  -- an answer about an execution, found by the second
  have byExecution {r : ExecutionRecord} (hr : s.executions.lookup c.execution = some r)
      (hallocator : c.allocator = some r.allocatorID)
      (hanswers : e.correlationID = r.assignmentMessageID ∨
        e.correlationID = r.inspectMessageID ∨ e.correlationID = r.cancelMessageID ∨
        e.correlationID = r.leaseRenewMessageID) :
      (handleError i e failure s).2 = none := by
    refine handleError_accepts (.inr ⟨_, r, hr, ?_⟩)
    unfold ExecutionRecord.answeredBy
    simp only [Bool.and_eq_true, Bool.or_eq_true, decide_eq_true_eq]
    refine ⟨(hfrom _ hallocator).symm, ?_⟩
    tauto
  cases kind with
  | request =>
    obtain ⟨k, r, hr, hid⟩ := h
    exact byRequest hr (.inl (hid.trans hcorrelation.symm))
  | assign =>
    obtain ⟨r, hr, hid, hallocator⟩ := h
    exact byExecution hr hallocator (.inl (hcorrelation.trans hid.symm))
  | inspect =>
    obtain ⟨r, hr, hid, hallocator⟩ := h
    exact byExecution hr hallocator (.inr (.inl (hcorrelation.trans hid.symm)))
  | cancel =>
    obtain ⟨r, hr, -, hid, hallocator⟩ := h
    exact byExecution hr hallocator (.inr (.inr (.inl (hcorrelation.trans hid.symm))))
  | renew =>
    obtain ⟨r, hr, hallocator⟩ := h
    have hpending := hout.2 rfl
    rw [hr] at hpending
    refine byExecution hr hallocator (.inr (.inr (.inr ?_)))
    exact hcorrelation.trans (Option.some.inj hpending).symm
  | release =>
    obtain ⟨k, r, o, offer, release, hr, hoffer, hrelease, hid, hallocator⟩ := h
    refine byRequest hr (.inr ?_)
    unfold RequestRecord.releasedBy
    rw [AList.any_eq_true]
    refine ⟨o, offer, hoffer, ?_⟩
    rw [hrelease]
    simp [hid, hcorrelation, hfrom _ hallocator]
  | logs =>
    obtain ⟨hid, q, r, hq, hr, hallocator⟩ := h
    have hauthority : logAuthority e s = true := by
      unfold logAuthority
      rw [hq]
      simp [hid, hcorrelation, hr, hfrom _ hallocator]
    refine handleError_accepts (.inl ?_)
    rw [hauthority]
    exact requestAuthority_true hsender _
  | tunnel => exact absurd rfl hout.1

-- ===== delivery

theorem register_accepts {a : KnownAllocator} (hid : a.identity ≠ [])
    (hroute : blank a.destination = false) (s : State) :
    (register a s).2 = none ∧ (register a s).1.executions = s.executions := by
  unfold register
  rw [if_neg (by simp [hid, hroute])]
  exact ⟨rfl, rfl⟩

/-- A waiter's channel after the dispatch: what it held, or else the
envelope. -/
theorem lookup_dispatchEnvelope {waiters : Waiters} {channels : List (Option Envelope)}
    (hcorrelation : e.correlationID ≠ []) (h : waiters.lookup e.correlationID = some channels) :
    (dispatchEnvelope e waiters).lookup e.correlationID =
      some (channels.map fun held => held.orElse fun _ => some e) := by
  unfold dispatchEnvelope
  rw [if_neg hcorrelation, h]
  exact AList.lookup_insert _

/-- In every state the core can reach, an error from the allocator that
the latest command of its kind went to is accepted and dispatched, if the
command is outstanding. -/
theorem command_errors_reach_their_waiters {s : State × Commands}
    (hs : (commanding cfg).Reach s) {kind : Kind} {c : Command} (hc : s.2 kind = some c)
    (hout : Outstanding s.1 c kind) {e : Envelope} {failure : CommandError}
    (hvalid : validateEnvelope cfg.sum256 e = none)
    (hfailure : e.payload = some (.commandError failure))
    (hsender : (s.1.allocators.lookup e.sender).isSome = true)
    (hfrom : ∀ a, c.allocator = some a → e.sender = a)
    (hcorrelation : e.correlationID = c.messageID) (i : Input) (route : Option Route)
    (waiters : Waiters) :
    (handle cfg i e s.1).2 = none ∧
      (handleEnvelope cfg route i e s.1 waiters).2.2 = none ∧
      ∀ channels, waiters.lookup c.messageID = some channels →
        (handleEnvelope cfg route i e s.1 waiters).2.1.lookup c.messageID =
          some (channels.map fun held => held.orElse fun _ => some e) := by
  have hne : e.sender ≠ [] := sender_ne_of_valid hvalid
  have hcorrelated : e.correlationID ≠ [] := correlationID_ne_of_error hvalid hfailure
  have hknown := recognised_reachable hs kind c hc
  -- what `Handle` says in any state that still knows the command
  have accepts {t : State} (hknown : Recognised t c kind) (hout : Outstanding t c kind)
      (hsender : (t.allocators.lookup e.sender).isSome = true) :
      (handle cfg i e t).2 = none := by
    unfold handle
    rw [hvalid, hfailure]
    exact handleError_of_recognised hknown hout hsender hfrom hcorrelation
  -- the sender's route is registered first, which changes nothing of that
  have hresult : ∃ t, handleEnvelope cfg route i e s.1 waiters =
      (t, dispatchEnvelope e waiters, none) := by
    cases route with
    | none =>
      unfold handleEnvelope
      dsimp only
      rw [accepts hknown hout hsender]
      exact ⟨_, rfl⟩
    | some d =>
      have hkept : Kept cfg (.register { identity := e.sender, destination := d.1 }) s.1
          (register { identity := e.sender, destination := d.1 } s.1).1 := kept_register _
      obtain ⟨haccepted, hexecutions⟩ :=
        register_accepts (a := { identity := e.sender, destination := d.1 }) hne d.2 s.1
      unfold handleEnvelope
      dsimp only
      rw [haccepted]
      rw [accepts (hknown.kept hkept nofun nofun) ⟨hout.1, ?_⟩ (hkept.allocators _ hsender)]
      · exact ⟨_, rfl⟩
      · intro hrenew
        rw [hexecutions]
        exact hout.2 hrenew
  obtain ⟨t, hresult⟩ := hresult
  refine ⟨accepts hknown hout hsender, ?_, ?_⟩
  · rw [hresult]
  · intro channels hchannels
    rw [hresult]
    rw [← hcorrelation] at hchannels ⊢
    exact lookup_dispatchEnvelope hcorrelated hchannels

-- ===== instances

/-- A client with a trivial digest. -/
def plainClient : Config := ⟨[1], fun _ => List.replicate 32 0, List.cons_ne_nil _ _⟩

/-- One nanosecond after another from the Unix epoch on. -/
def plainInput (ids : List String) : Input :=
  { times := [62135596800000000000, 62135596800000000000], ids := ids.map text }

def plainReply (correlation : String) (payload : Payload) : Envelope :=
  ⟨text "reply", [2], text correlation, some (Timestamp.new 62135596800000000000),
    some payload⟩

def plainOffer : ExecutionOffer :=
  ⟨text "offer", text "request", text "small", some (Timestamp.new 62135596801000000000), none⟩

/-- A request, an offer from the one allocator, and its selection. -/
def selected : List Op :=
  [ .register { identity := [2], destination := text "there" },
    .createRequest (plainInput ["request", "m1"]) (some ⟨text "image", [], [], .empty, []⟩)
      (some ⟨⟩)
      (text "small") none,
    .handle (plainInput []) (plainReply "m1" (.executionOffer plainOffer)),
    .select (plainInput ["x", "m2"]) (text "request") ]

def notFound : Payload := .commandError ⟨"NOT_FOUND", [], false⟩

/-- The error of a tunnel-open is refused, and so is that of a renewal
that was acknowledged before. -/
theorem tunnel_errors_are_refused :
    (∃ s, (commanding plainClient).Reach s ∧
      s.2 .tunnel = some ⟨text "x", text "m3", some [2]⟩ ∧
      (s.1.allocators.lookup [2]).isSome = true ∧
      validateEnvelope plainClient.sum256 (plainReply "m3" notFound) = none ∧
      (handle plainClient (plainInput []) (plainReply "m3" notFound) s.1).2 =
        some Sentinel.unauthorized.err) ∧
    ∃ s, (commanding plainClient).Reach s ∧
      s.2 .renew = some ⟨text "x", text "m3", some [2]⟩ ∧
      (s.1.allocators.lookup [2]).isSome = true ∧
      (handle plainClient (plainInput []) (plainReply "m3" notFound) s.1).2 =
        some Sentinel.unauthorized.err := by
  refine ⟨?_, ?_⟩
  · obtain ⟨s, hs, hp⟩ := (commanding plainClient).exists_reach (.observe rfl)
      (selected ++ [.tunnelOpen (plainInput ["m3"]) ⟨text "x", [7], [80]⟩])
      (fun s => s.2 .tunnel = some ⟨text "x", text "m3", some [2]⟩ ∧
        (s.1.allocators.lookup [2]).isSome ∧
        (handle plainClient (plainInput []) (plainReply "m3" notFound) s.1).2 =
          some Sentinel.unauthorized.err) (by decide +kernel)
    exact ⟨s, hs, hp.1, hp.2.1, by decide +kernel, hp.2.2⟩
  · obtain ⟨s, hs, hp⟩ := (commanding plainClient).exists_reach (.observe rfl)
      (selected ++
        [ .maintain (plainInput ["m3"]) (text "x") minute,
          .handle (plainInput []) (plainReply "m3" (.executionLeaseRenewAck
            ⟨text "x", some (Timestamp.new 62135596860000000000)⟩)) ])
      (fun s => s.2 .renew = some ⟨text "x", text "m3", some [2]⟩ ∧
        (s.1.allocators.lookup [2]).isSome ∧
        (handle plainClient (plainInput []) (plainReply "m3" notFound) s.1).2 =
          some Sentinel.unauthorized.err) (by decide +kernel)
    exact ⟨s, hs, hp.1, hp.2.1, hp.2.2⟩

/-- The error of a pending renewal reaches whoever waits for it. -/
theorem renewal_error_reaches_its_waiter :
    ∃ s, (commanding plainClient).Reach s ∧
      (handleEnvelope plainClient none (plainInput []) (plainReply "m3" notFound) s.1
          ((∅ : Waiters).insert (text "m3") [none])).2.1.lookup (text "m3") =
        some [some (plainReply "m3" notFound)] := by
  obtain ⟨s, hs, hp⟩ := (commanding plainClient).exists_reach (.observe rfl)
      (selected ++ [.maintain (plainInput ["m3"]) (text "x") minute])
    (fun s => s.2 .renew = some ⟨text "x", text "m3", some [2]⟩ ∧
      Outstanding s.1 ⟨text "x", text "m3", some [2]⟩ .renew ∧
      (s.1.allocators.lookup [2]).isSome) (by decide +kernel)
  obtain ⟨hc, hout, hsender⟩ := hp
  have hreach := command_errors_reach_their_waiters hs hc hout
    (e := plainReply "m3" notFound) (by decide +kernel) rfl hsender
    (fun a ha => by cases ha; rfl) rfl (plainInput []) none
    ((∅ : Waiters).insert (text "m3") [none])
  exact ⟨s, hs, hreach.2.2 [none] (AList.lookup_insert _)⟩

end R1s.Client
