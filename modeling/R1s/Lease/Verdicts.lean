/-
What an allocator decides in a section, beside the memory it decided it
with. A response may leave the allocator much later than it was settled:
a handler's error becomes a message at the end of its call, and a cached
reply goes out again with every redelivery. The log of verdicts
(`Produced`) keeps the moment.

# What costs a lease

The client takes NOT_FOUND and EXPIRED in answer to an inspection or a
renewal, and the state of an evicted execution, for the loss of its
lease. `Reasoned` says of a verdict that would cost a lease that the
execution was over when it was settled; the sections are shown to settle
only such verdicts, the check of the command's age apart.
-/
import R1s.Allocator.Proofs.Holding
import R1s.Client.Commands

namespace R1s.Lease

open Allocator (GoErr Inbound Input Made Mem Next Pc Reply World advance beginReplay commandError
  errorResponse handle handleInspect handleLeaseRenew handleLogs persist receive withinHorizon)
open Option (map_eq_some_iff some)
open Allocator (advance_succ effectiveNow freshnessErr namedExecution respond)

variable {cfg : Allocator.Config} {i : Input} {w w' : World}

-- ===== verdicts

/-- The execution an inspection or a renewal is about. -/
def asks (e : Envelope) : Option GoString :=
  match e.payload with
  | some (.executionInspect q) => some q.executionID
  | some (.executionLeaseRenew q) => some q.executionID
  | _ => none

/-- The codes `markRenewalFailureLocked` takes for a loss. -/
def costly (code : String) : Prop := code = "NOT_FOUND" ∨ code = "EXPIRED"

/-- What a section settles: a response, or the error its call will end
with. -/
inductive Verdict
  | response (e : Envelope)
  | error (err : GoErr)

/-- The verdict is a command error with a costly code. -/
def Verdict.refuses : Verdict → Prop
  | .response e => ∃ failure, e.payload = some (.commandError failure) ∧ costly failure.code
  | .error err => costly (commandError err).code

/-- A verdict on a command, the memory at the end of its section, and the
executions created by then. -/
structure Produced where
  command : Envelope
  verdict : Verdict
  mem : Mem
  created : List GoString

/-- The message is the one that was settled, or carries its error. -/
def Produced.underlies (p : Produced) (e : Envelope) : Prop :=
  e.correlationID = p.command.messageID ∧
    match p.verdict with
    | .response e' => e = e'
    | .error err => e.payload = some (.commandError (commandError err))

/-- The execution is over: its record is terminal, or its tombstone
stands, or it was created and the client has no record of it any more. -/
def Produced.over (p : Produced) (client : Bytes) (x : GoString) : Prop :=
  (∃ r, p.mem.executions.lookup x = some r ∧ r.phase.terminal = true) ∨
  (p.mem.tombstones.any fun _ t => t.guards client x) = true ∨
  x ∈ p.created ∧ ∀ r, p.mem.executions.lookup x = some r → r.client ≠ client

/-- What would cost a lease was settled when the execution was over. -/
structure Reasoned (client : Bytes) (p : Produced) : Prop where
  refusal : ∀ x, asks p.command = some x → p.verdict.refuses → p.over client x
  eviction : ∀ e state, p.verdict = .response e → e.payload = some (.executionState state) →
    Client.lostLeaseState state = true → p.over client state.executionID

-- ===== the sections

/-- What a section at `pc` settles. A section that only hands on what was
settled before settles nothing. -/
def verdicts (pc : Pc cfg) (next : Next cfg) : List Verdict :=
  match pc, next with
  | .received _, .ret reply | .logging _ _, .ret reply | .dispatching _, .ret reply =>
    reply.responses.map .response
  | .handling _, .goto (.finishing _ reply) | .starting _ _, .goto (.finishing _ reply)
  | .stopping _ _ _ _ _, .goto (.finishing _ reply)
  | .binding _ _ _, .goto (.finishing _ reply) =>
    reply.responses.map .response ++ reply.err.toList.map .error
  | _, _ => []

variable {err : GoErr}

theorem not_costly (code : String) (h : (commandError err).code = code)
    (hcode : code ≠ "NOT_FOUND" ∧ code ≠ "EXPIRED") : ¬costly (commandError err).code := by
  rw [h]
  rintro (hcost | hcost)
  · exact hcode.1 hcost
  · exact hcode.2 hcost

/-- An error that is classed as one of the store. -/
theorem not_costly_of_store (h : err.is .store = true) : ¬costly (commandError err).code := by
  by_cases hadmission : err.is .admission = true
  · refine not_costly "DENIED" ?_ (by decide)
    unfold commandError
    rw [if_pos hadmission]
  · refine not_costly "OUTCOME_UNKNOWN" ?_ (by decide)
    unfold commandError
    rw [if_neg hadmission, if_pos h]

theorem not_costly_of_persist {saved : Allocator.SaveIn} (h : persist cfg saved w = .error err) :
    ¬costly (commandError err).code := by
  apply not_costly_of_store
  unfold persist at h
  split at h
  · cases h
  split at h
  · cases h
    rfl
  split at h
  · cases h
    rfl
  split at h
  · cases h
    simp [GoErr.is]
  · cases h

variable {e : Inbound cfg} {reply : Reply}

/-- The start of `Handle` settles nothing but a failed check of the
command's age and result. -/
theorem receive_ret (h : (receive i e w).2 = .ret reply) :
    reply.responses = [] ∨
      ∃ err, freshnessErr e.1 (effectiveNow i.now w.mem) = some err ∧
        reply.responses = errorResponse cfg i.later i.random e.1 err := by
  unfold receive at h
  dsimp only at h
  split at h
  next err herr =>
    cases h
    exact .inr ⟨err, herr, rfl⟩
  split at h
  · cases h
  split at h
  · cases h
  · cases h
    exact .inl rfl

variable {tid : Nat}

/-- The replay cache refuses for reasons that cost no lease. -/
theorem beginReplay_ret (h : (beginReplay tid i e w).2 = .ret reply) :
    ∃ err, ¬costly (commandError err).code ∧
      reply.responses = errorResponse cfg i.later i.random e.1 err := by
  unfold beginReplay at h
  dsimp only at h
  split at h
  · cases h
    exact ⟨_, not_costly "CONFLICT" rfl (by decide), rfl⟩
  · cases h
    exact ⟨_, not_costly "CAPACITY" rfl (by decide), rfl⟩
  · split at h <;> cases h
  split at h
  · cases h
  next err hp =>
    cases h
    exact ⟨err, not_costly_of_persist hp, rfl⟩

variable {e' : Envelope}

/-- A log read is answered with an error or with its data. -/
theorem handleLogs_ret {e : Envelope} {q : ExecutionLogsRequest}
    (h : e' ∈ (handleLogs cfg i e q w).responses) :
    e'.correlationID = e.messageID ∧ ∀ state, e'.payload ≠ some (.executionState state) := by
  have refused {err : GoErr} (h : e' ∈ errorResponse cfg i.now i.random e err) :
      e'.correlationID = e.messageID ∧ ∀ state, e'.payload ≠ some (.executionState state) := by
    rw [List.mem_singleton.mp h]
    exact ⟨rfl, nofun⟩
  unfold handleLogs at h
  split at h
  · exact refused h
  split at h
  · exact refused h
  split at h
  · exact refused h
  · rw [List.mem_singleton.mp h]
    exact ⟨rfl, nofun⟩

variable {x : GoString}

/-- The execution `e` asks about is the one whose freshness is checked. -/
theorem named_of_asks {e : Envelope} (h : asks e = some x) : namedExecution e = x := by
  unfold asks at h
  unfold namedExecution
  split at h
  next q hq =>
    rw [hq]
    exact some.inj h
  next q hq =>
    rw [hq]
    exact some.inj h
  · cases h

variable {created : List GoString} {v : Verdict}

/-- A command of the right age is refused only over a result that is
over. -/
theorem freshnessErr_over {e : Envelope} {m : Mem} (hask : asks e = some x)
    (hage : withinHorizon m.highWater e = true) (h : freshnessErr e m = some err) :
    Produced.over ⟨e, v, m, created⟩ e.sender x := by
  unfold freshnessErr at h
  rw [hage, named_of_asks hask] at h
  split at h
  next hfalse => cases hfalse
  split at h
  next hover =>
    cases hr : m.executions.lookup x with
    | none =>
      rw [hr] at hover
      cases hover
    | some r =>
      rw [hr] at hover
      simp only [Option.any_some, Allocator.ExecutionRecord.resultOver,
        Bool.and_eq_true] at hover
      exact .inl ⟨r, hr, hover.1.2⟩
  · split at h
    next hburied => exact .inr (.inl hburied)
    · cases h

/-- An inspection fails with a costly error only where the client has no
record. -/
theorem handleInspect_costly {e : Envelope} {q : ExecutionInspect}
    (h : (handleInspect cfg i e q w).2.err = some err) (hcost : costly (commandError err).code) :
    ∀ r, (handleInspect cfg i e q w).1.mem.executions.lookup q.executionID = some r →
      r.client ≠ e.sender := by
  generalize hx : handleInspect cfg i e q w = x at h ⊢
  unfold handleInspect at hx
  split at hx
  next hnone =>
    subst hx
    intro r hr
    rw [hnone] at hr
    cases hr
  rename_i record hrecord
  split at hx
  next hclient =>
    subst hx
    intro r hr
    obtain rfl : record = r := some.inj (hrecord.symm.trans hr)
    exact hclient
  subst hx
  unfold Allocator.stateEnvelope respond at h
  dsimp only at h
  split at h
  · cases h
    exact absurd hcost (not_costly "INTERNAL" rfl (by decide))
  · cases h

theorem handleLeaseRenew_costly {e : Envelope} {q : ExecutionLeaseRenew}
    (h : (handleLeaseRenew cfg i e q w).2.err = some err) (hcost : costly (commandError err).code) :
    ∀ r, (handleLeaseRenew cfg i e q w).1.mem.executions.lookup q.executionID = some r →
      r.client ≠ e.sender := by
  generalize hx : handleLeaseRenew cfg i e q w = x at h ⊢
  -- an error of another class
  have other {w₁ : World} {err₁ : GoErr} (hx : (w₁, Reply.fail err₁) = x)
      (hcode : ¬costly (commandError err₁).code) : False := by
    subst hx
    cases h
    exact hcode hcost
  unfold handleLeaseRenew at hx
  split at hx
  next hnone =>
    subst hx
    intro r hr
    rw [hnone] at hr
    cases hr
  rename_i record hrecord
  dsimp only at hx
  split at hx
  next hclient =>
    subst hx
    intro r hr
    obtain rfl : record = r := some.inj (hrecord.symm.trans hr)
    exact hclient
  split at hx
  · exact (other hx (not_costly "CONFLICT" rfl (by decide))).elim
  split at hx
  · exact (other hx (not_costly "CONFLICT" rfl (by decide))).elim
  split at hx
  · exact (other hx (not_costly "INVALID_REQUEST" rfl (by decide))).elim
  split at hx
  next err₁ hp => exact (other hx (not_costly_of_persist hp)).elim
  unfold respond at hx
  split at hx
  · exact (other hx (not_costly "INTERNAL" rfl (by decide))).elim
  · subst hx
    cases h

theorem payload_replyOf {id correlationID : GoString} {now : Int} {payload : Payload} {e : Envelope}
    (h : e ∈ (Allocator.replyOf (respond cfg id correlationID now payload)).responses) :
    e.payload = some payload := by
  unfold respond at h
  split at h
  · cases h
  · rw [List.mem_singleton.mp h]
    rfl

/-- The answer to an inspection or a renewal: no error in the form of a
response, and a costly one only where the client has no record. -/
structure Asked (x : GoString) (client : Bytes) (w : World) (reply : Reply) : Prop where
  response : ∀ e ∈ reply.responses, ∀ failure, e.payload ≠ some (.commandError failure)
  err : ∀ err, reply.err = some err → costly (commandError err).code →
    ∀ r, w.mem.executions.lookup x = some r → r.client ≠ client

theorem asked_handleInspect {e : Envelope} {q : ExecutionInspect} :
    Asked q.executionID e.sender (handleInspect cfg i e q w).1 (handleInspect cfg i e q w).2 := by
  refine ⟨?_, fun err h hcost => handleInspect_costly h hcost⟩
  intro e' he' failure hfailure
  unfold handleInspect at he'
  split at he'
  · cases he'
  split at he'
  · cases he'
  · rw [payload_replyOf he'] at hfailure
    cases hfailure

theorem asked_handleLeaseRenew {e : Envelope} {q : ExecutionLeaseRenew} :
    Asked q.executionID e.sender (handleLeaseRenew cfg i e q w).1
      (handleLeaseRenew cfg i e q w).2 := by
  refine ⟨?_, fun err h hcost => handleLeaseRenew_costly h hcost⟩
  intro e' he' failure hfailure
  unfold handleLeaseRenew at he'
  split at he'
  · cases he'
  dsimp only at he'
  split at he'
  · cases he'
  split at he'
  · cases he'
  split at he'
  · cases he'
  split at he'
  · cases he'
  split at he'
  · cases he'
  · rw [payload_replyOf he'] at hfailure
    cases hfailure

variable {next : Next cfg}

/-- The handler of an inspection or a renewal has one section. -/
theorem handle_asked (hask : asks e.1 = some x) (h : handle i e w = some (w', next)) :
    ∃ reply, next = .goto (.finishing e reply) ∧ Asked x e.1.sender w' reply := by
  unfold asks at hask
  unfold handle at h
  split at hask
  next q hq =>
    rw [hq] at h
    cases h
    obtain rfl := some.inj hask
    exact ⟨_, rfl, asked_handleInspect⟩
  next q hq =>
    rw [hq] at h
    cases h
    obtain rfl := some.inj hask
    exact ⟨_, rfl, asked_handleLeaseRenew⟩
  · cases hask

/-- The points at which a call of an inspection or a renewal can be. -/
def asking : Pc cfg → Bool
  | .received _ | .dispatching _ | .waiting _ _ | .answered _ _ | .handling _
  | .finishing _ _ => true
  | _ => false

variable {pc : Pc cfg}

/-- The state of an evicted execution is told from its terminal record. -/
theorem over_of_made {e : Envelope} {state : ExecutionState} {p : Produced} {client : Bytes}
    (hmem : p.mem = w'.mem) (hkeyed : ∀ {k x}, w'.mem.executions.lookup k = some x → x.id = k)
    (h : Made cfg pc i w w' e) (hstate : e.payload = some (.executionState state))
    (hlost : Client.lostLeaseState state = true) : p.over client state.executionID := by
  cases h with
  | @told _ _ k x _ _ _ hx =>
    cases hstate
    refine .inl ⟨x, ?_, ?_⟩
    · rw [hmem]
      show w'.mem.executions.lookup x.id = some x
      rw [hkeyed hx]
      exact hx
    · simp only [Client.lostLeaseState, Allocator.stateFromRecord, Bool.and_eq_true] at hlost
      rw [of_decide_eq_true hlost.1]
      rfl
  | refused | offered | released | renewed | logged | bound => cases hstate

/-- What a section settles at the end of a handler. -/
theorem reasoned_handler (hkeyed : ∀ {k x}, w'.mem.executions.lookup k = some x → x.id = k)
    (hmade : ∀ e' ∈ reply.responses, Made cfg pc i w w' e')
    (hasked : ∀ x, asks e.1 = some x → x ∈ created ∧ Asked x e.1.sender w' reply)
    (hv : v ∈ reply.responses.map .response ++ reply.err.toList.map .error) :
    Reasoned e.1.sender ⟨e.1, v, w'.mem, created⟩ := by
  constructor
  · intro x hask hrefuses
    obtain ⟨hcreated, hanswer⟩ := hasked x hask
    rcases List.mem_append.mp hv with hv | hv
    · obtain ⟨e', he', rfl⟩ := List.mem_map.mp hv
      obtain ⟨failure, hfailure, -⟩ := hrefuses
      exact absurd hfailure (hanswer.response e' he' failure)
    · obtain ⟨err, herr, rfl⟩ := List.mem_map.mp hv
      exact .inr (.inr ⟨hcreated, hanswer.err err (Option.mem_toList.mp herr) hrefuses⟩)
  · intro e' state hresponse hstate hlost
    rcases List.mem_append.mp hv with hv | hv
    · obtain ⟨e'', he'', rfl⟩ := List.mem_map.mp hv
      cases hresponse
      exact over_of_made rfl hkeyed (hmade e' he'') hstate hlost
    · obtain ⟨err, -, rfl⟩ := List.mem_map.mp hv
      cases hresponse

/-- What a section refuses before the handler. -/
theorem reasoned_refusal {p : Produced} {client : Bytes} {now : Int}
    (hp : p.command = e.1 ∧ p.verdict = v)
    (hv : v ∈ (errorResponse cfg now i.random e.1 err).map .response)
    (hcost : ∀ x, asks e.1 = some x → costly (commandError err).code → p.over client x) :
    Reasoned client p := by
  obtain ⟨e', he', rfl⟩ := List.mem_map.mp hv
  obtain rfl := List.mem_singleton.mp he'
  constructor
  · intro x hask hrefuses
    rw [hp.2] at hrefuses
    obtain ⟨failure, hfailure, hcode⟩ := hrefuses
    cases hfailure
    rw [hp.1] at hask
    exact hcost x hask hcode
  · intro e' state hresponse hstate
    rw [hp.2] at hresponse
    cases hresponse
    cases hstate

/-- Every section settles what is reasoned. -/
theorem reasoned_advance (hcommand : pc.command = some e) (h : advance tid pc i w = some (w', next))
    (hkeyed : ∀ {k x}, w'.mem.executions.lookup k = some x → x.id = k)
    (hage : pc = .received e → (asks e.1).isSome = true →
      withinHorizon (max w.mem.highWater i.now) e.1 = true)
    (hasked : ∀ x, asks e.1 = some x → asking pc = true ∧ (pc ≠ .received e → x ∈ created))
    (hv : v ∈ verdicts pc next) : Reasoned e.1.sender ⟨e.1, v, w'.mem, created⟩ := by
  cases pc with
  | received e₀ =>
    cases hcommand
    cases next with
    | ret reply =>
      have hret : (receive i e w).2 = .ret reply := congrArg Prod.snd (some.inj h)
      have hw' : w'.mem = effectiveNow i.now w.mem := by
        have hworld : (receive i e w).1 = w' := congrArg Prod.fst (some.inj h)
        rw [← hworld, Allocator.receive_world]
        rfl
      rcases receive_ret hret with hnone | ⟨err, herr, hresponses⟩
      · change v ∈ reply.responses.map .response at hv
        rw [hnone] at hv
        cases hv
      · change v ∈ reply.responses.map .response at hv
        rw [hresponses] at hv
        refine reasoned_refusal ⟨rfl, rfl⟩ hv ?_
        intro x hask _
        rw [hw']
        refine freshnessErr_over hask ?_ herr
        rw [Allocator.effectiveNow_eq]
        refine hage rfl ?_
        rw [hask]
        rfl
    | goto | done => cases hv
  | logging e₀ q =>
    cases hcommand
    cases next with
    | ret reply =>
      cases h
      obtain ⟨e', he', rfl⟩ := List.mem_map.mp hv
      constructor
      · intro x hask
        cases (hasked x hask).1
      · intro e'' state hresponse hstate
        cases hresponse
        exact absurd hstate ((handleLogs_ret he').2 state)
    | goto | done => cases hv
  | dispatching e₀ =>
    cases hcommand
    cases next with
    | ret reply =>
      have hret : (beginReplay tid i e w).2 = .ret reply :=
        congrArg Prod.snd (some.inj h)
      obtain ⟨err, hcheap, hresponses⟩ := beginReplay_ret hret
      change v ∈ reply.responses.map .response at hv
      rw [hresponses] at hv
      refine reasoned_refusal ⟨rfl, rfl⟩ hv ?_
      intro x _ hcost
      exact absurd hcost hcheap
    | goto | done => cases hv
  | handling e₀ =>
    cases hcommand
    have hsourced := Allocator.handle_sourced h
    cases next with
    | goto pc' =>
      cases pc' with
      | finishing e₁ reply =>
        have hmade : ∀ e' ∈ reply.responses, Made cfg (.handling e) i w w' e' := by
          intro e' he'
          rcases hsourced.held e' he' with hown | ⟨hnone, -⟩ | hmade
          · cases hown
          · cases hnone
          · exact hmade
        refine reasoned_handler hkeyed hmade ?_ hv
        intro x hask
        obtain ⟨reply', heq, hanswer⟩ := handle_asked hask h
        cases heq
        exact ⟨(hasked x hask).2 nofun, hanswer⟩
      | _ => cases hv
    | ret | done => cases hv
  | starting e₀ id =>
    cases hcommand
    obtain ⟨r, hr, heq⟩ := map_eq_some_iff.mp h
    cases heq
    refine reasoned_handler hkeyed (Allocator.answer_assignFinish hr).made ?_ hv
    intro x hask
    cases (hasked x hask).1
  | stopping e₀ reason id previous detail =>
    cases hcommand
    obtain ⟨r, hr, heq⟩ := map_eq_some_iff.mp h
    cases heq
    refine reasoned_handler hkeyed (Allocator.answer_cancelFinish hr).made ?_ hv
    intro x hask
    cases (hasked x hask).1
  | binding e₀ q now =>
    cases hcommand
    cases h
    refine reasoned_handler hkeyed (Allocator.answer_tunnelBind i now e q w).made ?_ hv
    intro x hask
    cases (hasked x hask).1
  | waiting | answered | finishing => cases hv
  | _ => cases hcommand

-- ===== what a call returns

/-- A response is built for a command and answers it. -/
theorem correlated_of_made (h : Made cfg pc i w w' e') :
    ∃ e, pc.command = some e ∧ e'.correlationID = e.1.messageID := by
  cases h with
  | @refused e _ _ he => exact ⟨e, he, rfl⟩
  | @told e _ _ _ he =>
    refine ⟨e, ?_, rfl⟩
    cases pc <;> first | exact he | cases he
  | @offered e _ _ _ _ hpc | @released e _ _ hpc | @renewed e _ _ hpc | @logged e _ hpc
  | @bound e _ _ _ hpc => exact ⟨e, by rw [hpc]; rfl, rfl⟩

/-- The replay cache answers with what it holds. -/
theorem beginReplay_held {pc' : Pc cfg} (h : (beginReplay tid i e w).2 = .goto pc')
    (he' : e' ∈ pc'.held) : w.mem.cached e' := by
  unfold beginReplay at h
  dsimp only at h
  split at h
  · cases h
  · cases h
  next entry hbegun =>
    cases h
    split at he'
    · unfold Allocator.beginCache at hbegun
      dsimp only at hbegun
      split at hbegun
      next entry' hentry =>
        split at hbegun
        · cases hbegun
          exact ⟨_, _, (Allocator.trimmed_prune _ _).sub _ _ hentry, he'⟩
        · cases hbegun
      · split at hbegun <;> cases hbegun
    · cases he'
  split at h
  · cases h
    cases he'
  · cases h

/-- A handler's section does not return. -/
theorem handle_goes_on : handle i e w ≠ some (w', .ret reply) := by
  intro h
  unfold handle at h
  split at h
  case h_8 => cases h
  all_goals
    have hnext := congrArg Prod.snd (some.inj h)
    first
      | cases hnext
      | (unfold Allocator.Outcome.next at hnext; split at hnext <;> cases hnext)

/-- The response was settled in this section of a call of `e`. -/
def Settled (pc : Pc cfg) (next : Next cfg) (e' : Envelope) : Prop :=
  ∃ e, pc.command = some e ∧ e'.correlationID = e.1.messageID ∧
    .response e' ∈ verdicts pc next

/-- Where a response of a section comes from: from the call or the cache,
where it was settled before, or from this section, or from the error the
handler left. -/
theorem held_cases (h : advance tid pc i w = some (w', next)) (he' : e' ∈ next.held) :
    e' ∈ pc.held ∨ w.mem.cached e' ∨ Settled pc next e' ∨
      ∃ e reply err, pc = .finishing e reply ∧ reply.err = some err ∧
        e'.correlationID = e.1.messageID ∧
        e'.payload = some (.commandError (commandError err)) := by
  rcases (Allocator.advance_sourced h).held e' he' with hown | ⟨-, hcached⟩ | hmade
  · exact .inl hown
  · exact .inr (.inl hcached)
  · obtain ⟨e, hcommand, hcorrelated⟩ := correlated_of_made hmade
    cases pc with
    | received e =>
      cases next with
      | ret reply =>
        exact .inr (.inr (.inl ⟨_, hcommand, hcorrelated, List.mem_map_of_mem he'⟩))
      | goto pc' => cases advance_succ h <;> cases he'
      | done _ => cases he'
    | logging e q =>
      cases h
      exact .inr (.inr (.inl ⟨_, hcommand, hcorrelated, List.mem_map_of_mem he'⟩))
    | dispatching e =>
      cases next with
      | ret reply =>
        exact .inr (.inr (.inl ⟨_, hcommand, hcorrelated, List.mem_map_of_mem he'⟩))
      | goto pc' =>
        exact .inr (.inl (beginReplay_held (congrArg Prod.snd (some.inj h)) he'))
      | done _ => cases he'
    | handling e =>
      cases next with
      | goto pc' =>
        cases advance_succ h with
        | handled =>
          exact .inr (.inr (.inl ⟨_, hcommand, hcorrelated,
            List.mem_append_left _ (List.mem_map_of_mem he')⟩))
        | starting | stopping | binding => cases he'
      | ret _ => exact absurd h handle_goes_on
      | done _ => cases he'
    | starting | stopping =>
      obtain ⟨r, hr, heq⟩ := map_eq_some_iff.mp h
      cases heq
      exact .inr (.inr (.inl ⟨_, hcommand, hcorrelated,
        List.mem_append_left _ (List.mem_map_of_mem he')⟩))
    | binding e q now =>
      cases h
      exact .inr (.inr (.inl ⟨_, hcommand, hcorrelated,
        List.mem_append_left _ (List.mem_map_of_mem he')⟩))
    | finishing e reply =>
      cases h
      unfold Allocator.published at he'
      split at he'
      next err herr =>
        split at he'
        · rw [List.mem_singleton.mp he']
          exact .inr (.inr (.inr ⟨e, reply, err, rfl, herr, rfl, rfl⟩))
        · exact .inl he'
      · exact .inl he'
    | waiting e owner =>
      simp only [advance] at h
      split at h
      · cases h
        cases he'
      · cases h
    | answered e reply =>
      cases h
      change e' ∈ (if i.cancelled then Reply.fail Allocator.contextErr else reply).responses
        at he'
      split at he'
      · cases he'
      · exact .inl he'
    | _ => cases hcommand

/-- The error a handler leaves was settled in its last section. -/
theorem left_settled (h : advance tid pc i w = some (w', .goto (.finishing e reply)))
    (herr : reply.err = some err) :
    pc.command = some e ∧ .error err ∈ verdicts pc (.goto (.finishing e reply)) := by
  have hin : Verdict.error err ∈ reply.responses.map .response ++ reply.err.toList.map .error := by
    refine List.mem_append_right _ (List.mem_map_of_mem ?_)
    rw [herr]
    exact List.mem_singleton.mpr rfl
  cases advance_succ h with
  | handled | started | stopped | bound => exact ⟨rfl, hin⟩

/-- A call of an inspection or a renewal stays at its points. -/
theorem asking_succ {pc' : Pc cfg} (h : advance tid pc i w = some (w', .goto pc'))
    (hcommand : pc.command = some e) (hask : asks e.1 = some x) (hpc : asking pc = true) :
    asking pc' = true := by
  cases advance_succ h with
  | @logging e₀ q =>
    cases hcommand
    have hnext := congrArg Prod.snd (some.inj h)
    unfold receive at hnext
    dsimp only at hnext
    split at hnext
    · cases hnext
    split at hnext
    next hq =>
      unfold asks at hask
      rw [hq] at hask
      cases hask
    · split at hnext <;> cases hnext
  | starting | stopping | binding =>
    cases hcommand
    obtain ⟨reply, heq, -⟩ := handle_asked hask h
    cases heq
  | _ => first | rfl | cases hpc

end R1s.Lease
