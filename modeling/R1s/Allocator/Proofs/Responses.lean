/-
Where the responses of `Handle` come from. A response is built in one
section, by one of seven builders (`Made`); from there it travels with
the call, into the replay cache and the store, and out to every call that
delivers the same command again. The error response of a call that ends
without one is built last, from the error its handler left (`Problem`).
-/
import R1s.Allocator.Proofs.Updates

namespace R1s.Allocator

open Option (bind_eq_some_iff map_eq_some_iff some)

variable {cfg : Config} {pc : Pc cfg} {i : Input} {w w' : World}

-- ===== the builders

/-- The command of a call of `Handle`. -/
def Pc.command : Pc cfg → Option (Inbound cfg)
  | .received e | .logging e _ | .dispatching e | .waiting e _ | .answered e _ | .handling e
  | .starting e _ | .stopping e _ _ _ _ | .binding e _ _ | .finishing e _ => some e
  | _ => none

/-- A section keeps the call's command. -/
theorem Pc.Succ.command {pc pc' : Pc cfg} (h : pc.Succ pc') : pc'.command = pc.command := by
  cases h <;> rfl

variable {e : Inbound cfg}

/-- Every command in progress was called. -/
theorem step_command {s t : System cfg} {l : Label cfg} (hstep : s.step l = some t) {tid : Nat}
    (h : (t.threads.lookup tid).bind Pc.command = some e) :
    (∃ tid, (s.threads.lookup tid).bind Pc.command = some e) ∨ ∃ tid, l = .call tid e := by
  have spawned {tid' : Nat} {pc : Pc cfg} (hspawn : s.spawn tid' pc = some t) :
      (∃ tid, (s.threads.lookup tid).bind Pc.command = some e) ∨ pc.command = some e := by
    unfold System.spawn at hspawn
    split at hspawn
    · cases hspawn
    cases hspawn
    by_cases htid : tid = tid'
    · subst htid
      rw [AList.lookup_insert] at h
      exact .inr h
    · rw [AList.lookup_insert_ne htid] at h
      exact .inl ⟨tid, h⟩
  cases l with
  | call tid' e' =>
    rcases spawned hstep with hold | hnew
    · exact .inl hold
    · cases hnew
      exact .inr ⟨tid', rfl⟩
  | sweep | evictLeases | recover | openTunnel => exact .inl ((spawned hstep).resolve_right nofun)
  | run tid' i =>
    obtain ⟨pc, r, hpc, hr, rfl⟩ := run_step hstep
    by_cases htid : tid = tid'
    · subst htid
      rw [resume_self] at h
      obtain ⟨pc', hpc', hcommand⟩ := bind_eq_some_iff.mp h
      have hsucc : pc.Succ pc' := by
        obtain ⟨w', next⟩ := r
        cases next with
        | goto p =>
          cases hpc'
          exact advance_succ hr
        | ret | done => cases hpc'
      refine .inl ⟨tid, ?_⟩
      rw [hpc]
      exact hsucc.command.symm.trans hcommand
    · rw [resume_other Pc.command (fun _ _ _ => rfl) s htid] at h
      exact .inl ⟨tid, h⟩
  | closeTunnel | completed | expire | view =>
    cases hstep
    exact .inl ⟨tid, h⟩
  | restart granted now =>
    obtain ⟨-, -, -, hthreads⟩ := restart_step hstep
    rw [hthreads] at h
    cases h

/-- The points whose section may announce an execution's state. -/
def Pc.tells : Pc cfg → Option (Inbound cfg)
  | .handling e | .starting e _ | .stopping e _ _ _ _ => some e
  | _ => none

/-- The error's class has a fixed text and a code of its own. -/
def GoErr.plain (err : GoErr) : Bool :=
  !err.is .incompatible && !err.is .tunnelDisabled && !err.is .tunnelNoEndpoint

/-- The errors a section of a call leaves. -/
inductive Problem (cfg : Config) (pc : Pc cfg) (w : World) : GoErr → Prop
  | plain {err} (h : err.plain = true) : Problem cfg pc w err
  | requested {e q} (hpc : pc = .handling e) (hq : e.1.payload = some (.executionRequest q))
      (hmatch : placementMatches q.constraints cfg.node = false) :
      Problem cfg pc w (Sentinel.incompatible.wrap
        (placementConflictDetails q.constraints cfg.node))
  | assigned {e q r} (hpc : pc = .handling e) (hq : e.1.payload = some (.executionAssign q))
      (hr : w.mem.offers.lookup q.offerID = some r)
      (hmatch : placementMatches r.request.constraints cfg.node = false) :
      Problem cfg pc w (Sentinel.incompatible.wrap
        (placementConflictDetails r.request.constraints cfg.node))
  | disabled {e q now} (hpc : pc = .binding e q now) (hoff : cfg.tunnelEnabled = false) :
      Problem cfg pc w Sentinel.tunnelDisabled.err
  | unready {e q now} (hpc : pc = .binding e q now)
      (hempty : cfg.tunnelEndpoint.address = [] ∨ cfg.tunnelEndpoint.pubKey = []) :
      Problem cfg pc w Sentinel.tunnelNoEndpoint.err

/-- The responses a section from `w` to `w'` builds. -/
inductive Made (cfg : Config) (pc : Pc cfg) (i : Input) (w w' : World) : Envelope → Prop
  /-- `errorResponse`. -/
  | refused {e now err} (he : pc.command = some e) (hnow : now = i.now ∨ now = i.later)
      (herr : Problem cfg pc w err ∨ ∃ reply, pc = .finishing e reply ∧ reply.err = some err) :
      Made cfg pc i w w' (envelope cfg (randomID i.random) e.1.messageID now
        (.commandError (commandError err)))
  | offered {e q id o r} (hpc : pc = .handling e) (hq : e.1.payload = some (.executionRequest q))
      (hid : (id = i.id ∨ id = i.id2) ∧ id ≠ []) (hr : w'.mem.offers.lookup o = some r)
      (htime : w.mem.requested e.1 q = some r ∧ r.status = .assigned ∨
        i.now < asTime r.offer.expiresAt) :
      Made cfg pc i w w' (envelope cfg id e.1.messageID i.now (.executionOffer r.offer))
  /-- `stateEnvelopeLocked`: the record as the section leaves it. -/
  | told {e now k x} (he : pc.tells = some e) (hnow : now = i.now ∨ now = i.later)
      (hid : i.id ≠ []) (hx : w'.mem.executions.lookup k = some x) :
      Made cfg pc i w w' (envelope cfg i.id e.1.messageID now
        (.executionState (stateFromRecord x)))
  | released {e q status} (hpc : pc = .handling e)
      (hq : e.1.payload = some (.executionOfferRelease q)) (hid : i.id ≠ []) :
      Made cfg pc i w w' (envelope cfg i.id e.1.messageID i.now
        (.executionOfferReleaseAck ⟨q.requestID, q.offerID, releaseOutcome status⟩))
  | renewed {e q x} (hpc : pc = .handling e) (hq : e.1.payload = some (.executionLeaseRenew q))
      (hid : i.id ≠ []) (hx : w'.mem.executions.lookup q.executionID = some x)
      (hlease : x.leaseUntil = i.now + ((q.leaseDuration).map PbDuration.asDuration).getD 0) :
      Made cfg pc i w w' (envelope cfg i.id e.1.messageID i.now
        (.executionLeaseRenewAck ⟨x.id, some (Timestamp.new x.leaseUntil)⟩))
  | logged {e q} (hpc : pc = .logging e q) :
      Made cfg pc i w w' (envelope cfg (randomID i.random) e.1.messageID i.now
        (.executionLogsResponse
          { executionID := q.executionID, stream := q.stream, offset := q.offset,
            data := i.chunk.data, nextOffset := i.chunk.nextOffset, eof := i.chunk.eof,
            truncated := i.chunk.truncated, sha256 := cfg.sum256 i.chunk.data }))
  | bound {e q now targets} (hpc : pc = .binding e q now) (hid : i.id ≠ []) :
      Made cfg pc i w w' (envelope cfg i.id e.1.messageID now
        (.executionTunnelOpenAck
          ⟨q.executionID, cfg.tunnelEndpoint.address, cfg.tunnelEndpoint.pubKey, targets⟩))

/-- A handler's reply is built of such responses and errors. -/
structure Answer (cfg : Config) (pc : Pc cfg) (i : Input) (w w' : World) (reply : Reply) :
    Prop where
  made : ∀ e ∈ reply.responses, Made cfg pc i w w' e
  err : ∀ err, reply.err = some err → Problem cfg pc w err

variable {err : GoErr}

theorem Answer.fail (h : Problem cfg pc w err) : Answer cfg pc i w w' (.fail err) := by
  constructor
  · intro e he
    cases he
  · intro err' herr
    cases herr
    exact h

theorem Answer.plain (h : err.plain = true) : Answer cfg pc i w w' (.fail err) := .fail (.plain h)

theorem Answer.ok {e : Envelope} (h : Made cfg pc i w w' e) : Answer cfg pc i w w' (.ok e) := by
  constructor
  · intro e' he'
    rw [List.mem_singleton.mp he']
    exact h
  · intro err herr
    cases herr

variable {id : GoString} {now : Int}

/-- A response under a generated ID, which may be missing. -/
theorem Answer.respond {correlationID : GoString} {payload : Payload}
    (h : id ≠ [] → Made cfg pc i w w' (envelope cfg id correlationID now payload)) :
    Answer cfg pc i w w' (replyOf (respond cfg id correlationID now payload)) := by
  unfold Allocator.respond
  split
  · exact .plain rfl
  next hid => exact .ok (h hid)

theorem Answer.told {k : GoString} (he : pc.tells = some e) (hnow : now = i.now ∨ now = i.later) :
    Answer cfg pc i w w'
      (replyOf (stateEnvelope cfg (w'.mem.executions.lookup k) e.1.messageID now i.id)) := by
  unfold stateEnvelope
  split
  · exact .plain rfl
  next x hx => exact .respond fun hid => .told he hnow hid hx

-- ===== plain errors

theorem Fault.plain (f : Fault) : f.err.plain = true := by
  have hnot : ∀ s : Sentinel, (∀ mark : FaultMark, mark.sentinel ≠ s) → f.err.is s = false := by
    intro s hs
    unfold GoErr.is Fault.err
    simp [hs]
  unfold GoErr.plain
  rw [hnot .incompatible (by intro mark; cases mark <;> decide),
    hnot .tunnelDisabled (by intro mark; cases mark <;> decide),
    hnot .tunnelNoEndpoint (by intro mark; cases mark <;> decide)]
  rfl

theorem plain_persist {saved : SaveIn} (h : persist cfg saved w = .error err) :
    err.plain = true := by
  unfold persist at h
  split at h
  · cases h
  split at h
  · cases h; rfl
  split at h
  · cases h; rfl
  split at h
  next f _ =>
    cases h
    have hf := f.plain
    simpa [GoErr.plain, GoErr.is] using hf
  · cases h

theorem plain_tryPersist {saved : SaveIn} (h : (tryPersist cfg saved w).2 = some err) :
    err.plain = true := by
  unfold tryPersist at h
  split at h
  · cases h
  next hp =>
    cases h
    exact plain_persist hp

theorem plain_joinErrs {errs : List (Option GoErr)} (hplain : ∀ e, some e ∈ errs → e.plain = true)
    (h : joinErrs errs = some err) : err.plain = true := by
  have hall : ∀ e ∈ errs.filterMap id, e.plain = true := by
    intro e he
    obtain ⟨o, ho, heq⟩ := List.mem_filterMap.mp he
    cases heq
    exact hplain e ho
  have hnot : ∀ s : Sentinel, (∀ e ∈ errs.filterMap id, e.is s = false) → err.is s = false := by
    intro s hs
    unfold joinErrs at h
    split at h
    · cases h
    rename_i first rest hcons
    cases h
    rw [hcons] at hs
    unfold GoErr.is at hs ⊢
    simp only [List.mem_cons, forall_eq_or_imp, List.contains_eq_mem,
      decide_eq_false_iff_not] at hs
    simp only [List.contains_eq_mem, List.mem_append, List.mem_flatMap,
      decide_eq_false_iff_not, not_or, not_exists, not_and]
    exact hs
  have hthree : ∀ e ∈ errs.filterMap id,
      e.is .incompatible = false ∧ e.is .tunnelDisabled = false ∧
        e.is .tunnelNoEndpoint = false := by
    intro e he
    have hp := hall e he
    unfold GoErr.plain at hp
    simp only [Bool.and_eq_true, Bool.not_eq_true'] at hp
    exact ⟨hp.1.1, hp.1.2, hp.2⟩
  unfold GoErr.plain
  rw [hnot .incompatible fun e he => (hthree e he).1,
    hnot .tunnelDisabled fun e he => (hthree e he).2.1,
    hnot .tunnelNoEndpoint fun e he => (hthree e he).2.2]
  rfl

variable {m : Mem}

theorem plain_admitLocked {owner : Bytes} {assigning : Bool}
    (h : admitLocked cfg m owner assigning = some err) : err.plain = true := by
  unfold admitLocked at h
  dsimp only at h
  split at h
  · cases h; rfl
  split at h
  · cases h; rfl
  · split at h
    · cases h; rfl
    · cases h

-- ===== the handlers

variable {q : ExecutionRequest}

theorem problem_requestErr (hq : e.1.payload = some (.executionRequest q))
    (h : requestErr cfg e.1 q m = some err) : Problem cfg (.handling e) w err := by
  unfold requestErr at h
  split at h
  · cases h; exact .plain rfl
  split at h
  · cases h; exact .plain rfl
  split at h
  next hadmit =>
    cases h
    exact .plain (plain_admitLocked hadmit)
  split at h
  · cases h; exact .plain rfl
  split at h
  next hmatch =>
    cases h
    exact .requested rfl hq (by simpa using hmatch)
  · split at h
    · cases h; exact .plain rfl
    · cases h

theorem answer_resendOffer {o : GoString} {r : OfferRecord}
    (hq : e.1.payload = some (.executionRequest q)) (hr : w'.mem.offers.lookup o = some r)
    (htime : r.status ≠ .expired → r.status ≠ .released →
      w.mem.requested e.1 q = some r ∧ r.status = .assigned ∨ i.now < asTime r.offer.expiresAt) :
    Answer cfg (.handling e) i w w' (resendOffer cfg i e.1 q r) := by
  unfold resendOffer
  split
  · exact .plain rfl
  rename_i hexpired
  split
  · exact .plain rfl
  split
  · exact .plain rfl
  next hreleased =>
    exact .respond fun hid =>
      .offered rfl hq ⟨.inl rfl, hid⟩ hr (htime hexpired hreleased)

/-- After the expiry of offers at `now`, an offer that is neither expired
nor released was assigned, or is not due yet. -/
theorem requested_expireOffers {e : Envelope} {r : OfferRecord}
    (h : (expireOffers now m).requested e q = some r) (hexpired : r.status ≠ .expired)
    (hreleased : r.status ≠ .released) :
    m.requested e q = some r ∧ r.status = .assigned ∨ now < asTime r.offer.expiresAt := by
  obtain ⟨o, ho, hr⟩ := bind_eq_some_iff.mp h
  change AList.lookup o (m.offers.mapVal fun _ r => r.expire now) = some r at hr
  rw [AList.lookup_mapVal] at hr
  obtain ⟨r₀, hr₀, hexp⟩ := map_eq_some_iff.mp hr
  unfold OfferRecord.expire at hexp
  split at hexp
  · rw [← hexp] at hexpired
    exact absurd rfl hexpired
  rename_i hlapsed
  subst hexp
  cases hs : r₀.status with
  | assigned => exact .inl ⟨bind_eq_some_iff.mpr ⟨o, ho, hr₀⟩, rfl⟩
  | expired => exact absurd hs hexpired
  | released => exact absurd hs hreleased
  | outstanding =>
    right
    simp only [OfferRecord.lapsed, hs, decide_true, Bool.true_and, Bool.not_eq_true',
      decide_eq_false_iff_not, not_not] at hlapsed
    exact hlapsed

theorem answer_handleRequest (hq : e.1.payload = some (.executionRequest q)) (i : Input)
    (w : World) :
    Answer cfg (.handling e) i w (handleRequest cfg i e.1 q w).1
      (handleRequest cfg i e.1 q w).2 := by
  unfold handleRequest
  dsimp only
  split
  next record hrecord =>
    obtain ⟨o, -, ho⟩ := bind_eq_some_iff.mp hrecord
    exact answer_resendOffer hq ho (requested_expireOffers hrecord)
  unfold newOffer
  split
  next err herr => exact .fail (problem_requestErr hq herr)
  split
  · exact .plain rfl
  split
  · exact .plain rfl
  split
  next err hresponse =>
    unfold respond at hresponse
    split at hresponse
    · cases hresponse; exact .plain rfl
    · cases hresponse
  rename_i response hresponse
  unfold commitOffer
  dsimp only
  split
  · exact .plain rfl
  split
  next err hp => exact .plain (plain_persist hp)
  rename_i w₁ hp
  unfold respond at hresponse
  split at hresponse
  · cases hresponse
  rename_i hid
  cases hresponse
  have hr : w₁.mem.offers.lookup i.id = some (mintRecord cfg i e.1 q) := by
    rw [persist_mem hp]
    exact AList.lookup_insert _
  refine .ok (.offered rfl hq ⟨.inr rfl, hid⟩ hr (.inr ?_))
  show i.now < (Timestamp.new (i.now + cfg.offerTTL)).asTime
  rw [Timestamp.asTime_new]
  exact Int.lt_add_of_pos_right _ cfg.offerTTL_pos

theorem answer_handleInspect {q : ExecutionInspect} (i : Input) (w : World) :
    Answer cfg (.handling e) i w (handleInspect cfg i e.1 q w).1
      (handleInspect cfg i e.1 q w).2 := by
  unfold handleInspect
  split
  · exact .plain rfl
  rename_i record hrecord
  split
  · exact .plain rfl
  · show Answer cfg _ i w w (replyOf (stateEnvelope cfg (some record) e.1.messageID i.now i.id))
    rw [← hrecord]
    exact .told rfl (.inl rfl)

/-- A section that goes on outside the lock answers nothing yet. -/
def Outcome.answers (cfg : Config) (pc : Pc cfg) (i : Input) (w : World)
    (r : World × Outcome) : Prop :=
  ∀ reply, r.2 = .reply reply → Answer cfg pc i w r.1 reply

theorem answers_refuse {w₁ : World} (h : Problem cfg pc w err) :
    Outcome.answers cfg pc i w (refuse w₁ err) := by
  intro reply hreply
  cases hreply
  exact .fail h

theorem answers_plain {w₁ : World} (h : err.plain = true) :
    Outcome.answers cfg pc i w (refuse w₁ err) := answers_refuse (.plain h)

theorem answers_assignBegin {q : ExecutionAssign} (hq : e.1.payload = some (.executionAssign q))
    (i : Input) (w : World) :
    Outcome.answers cfg (.handling e) i w (assignBegin cfg i e.1 q w) := by
  unfold assignBegin
  dsimp only
  split
  · exact answers_plain rfl
  rename_i offer hoffer
  split
  · exact answers_plain rfl
  split
  · exact answers_plain rfl
  split
  · exact answers_plain rfl
  · exact answers_plain rfl
  · split
    · exact answers_plain rfl
    · intro reply hreply
      cases hreply
      exact .told rfl (.inl rfl)
  unfold assignOutstanding
  split
  · split
    · intro reply hreply
      cases hreply
      refine ⟨?_, ?_⟩
      · intro e' he'
        cases he'
      · intro err herr
        cases herr
    · exact answers_plain rfl
  split
  next hmatch =>
    obtain ⟨r, hr, hsame⟩ :=
      (untouched_expireOffers i.now w.mem).offers.before hoffer
    refine answers_refuse ?_
    rw [hsame.request] at hmatch ⊢
    exact .assigned rfl hq hr (by simpa using hmatch)
  split
  next hadmit => exact answers_plain (plain_admitLocked hadmit)
  unfold commitAssign
  dsimp only
  split
  next hp => exact answers_plain (plain_persist hp)
  · intro reply hreply
    cases hreply

theorem answers_cancelBegin {q : ExecutionCancel} (i : Input) (w : World) :
    Outcome.answers cfg (.handling e) i w (cancelBegin cfg i e.1 q w) := by
  unfold cancelBegin
  split
  · exact answers_plain rfl
  rename_i record hrecord
  split
  · exact answers_plain rfl
  split
  · split
    next w₁ err hstop =>
      refine answers_plain ?_
      unfold beginStop at hstop
      dsimp only at hstop
      split at hstop
      · cases hstop
      next hp =>
        cases hstop
        exact plain_persist hp
    · intro reply hreply
      cases hreply
  intro reply hreply
  cases hreply
  rw [← hrecord]
  exact .told rfl (.inl rfl)

theorem answer_handleOfferRelease {q : ExecutionOfferRelease}
    (hq : e.1.payload = some (.executionOfferRelease q)) (i : Input) (w : World) :
    Answer cfg (.handling e) i w (handleOfferRelease cfg i e.1 q w).1
      (handleOfferRelease cfg i e.1 q w).2 := by
  unfold handleOfferRelease
  split
  · exact .plain rfl
  split
  · exact .plain rfl
  split
  · exact .plain rfl
  split
  · exact .plain rfl
  rename_i hid
  dsimp only
  split
  · split
    · exact .ok (.released rfl hq hid)
    next hp => exact .plain (plain_persist hp)
  · exact .ok (.released rfl hq hid)

theorem answer_handleLeaseRenew {q : ExecutionLeaseRenew}
    (hq : e.1.payload = some (.executionLeaseRenew q)) (i : Input) (w : World) :
    Answer cfg (.handling e) i w (handleLeaseRenew cfg i e.1 q w).1
      (handleLeaseRenew cfg i e.1 q w).2 := by
  unfold handleLeaseRenew
  split
  · exact .plain rfl
  rename_i record _
  dsimp only
  split
  · exact .plain rfl
  split
  · exact .plain rfl
  split
  · exact .plain rfl
  split
  · exact .plain rfl
  split
  next hp => exact .plain (plain_persist hp)
  rename_i w₁ hp
  have hx : w₁.mem.executions.lookup q.executionID = some
      { record with
        leaseUntil := i.now + ((q.leaseDuration).map PbDuration.asDuration).getD 0 } := by
    rw [persist_mem hp]
    exact AList.lookup_insert _
  exact .respond fun hid => .renewed rfl hq hid hx rfl

theorem answer_tunnelBind (i : Input) (now : Int) (e : Inbound cfg) (q : ExecutionTunnelOpen)
    (w : World) :
    Answer cfg (.binding e q now) i w (tunnelBind cfg i now e.1 q w).1
      (tunnelBind cfg i now e.1 q w).2 := by
  unfold tunnelBind
  split
  next hoff => exact .fail (.disabled rfl (by simpa using hoff))
  split
  · exact .plain rfl
  dsimp only
  split
  next hempty => exact .fail (.unready rfl hempty)
  · split
    · exact .plain rfl
    · exact .respond fun hid => .bound rfl hid

variable {reply : Reply}

theorem answer_assignFinish (h : assignFinish cfg i e.1 id w = some (w', reply)) :
    Answer cfg (.starting e id) i w w' reply := by
  unfold assignFinish at h
  split at h
  · cases h
  rename_i current _
  dsimp only at h
  generalize hw₁ : w.setMem (startReturned cfg i id current w.mem) = w₁ at h
  have hmem : (tryPersist cfg i.saved w₁).1.mem = w₁.mem := tryPersist_mem _ _
  obtain ⟨rfl, rfl⟩ := Prod.mk.inj (some.inj h)
  have htold : Answer cfg (.starting e id) i w (tryPersist cfg i.saved w₁).1
      (replyOf (stateEnvelope cfg (w₁.mem.executions.lookup id) e.1.messageID i.later i.id)) := by
    rw [← hmem]
    exact .told rfl (.inr rfl)
  cases hresponse : stateEnvelope cfg (w₁.mem.executions.lookup id) e.1.messageID i.later i.id with
  | error err =>
    rw [hresponse] at htold
    exact htold
  | ok response =>
    rw [hresponse] at htold
    dsimp only
    have hfault : ∀ err, i.fault.map Fault.err = some err → err.plain = true := by
      intro err herr
      obtain ⟨f, -, rfl⟩ := map_eq_some_iff.mp herr
      exact f.plain
    split
    · refine ⟨htold.made, ?_⟩
      intro err herr
      refine .plain (plain_joinErrs ?_ herr)
      intro e' he'
      rcases List.mem_cons.mp he' with he' | he'
      · exact hfault e' he'.symm
      · exact plain_tryPersist (List.mem_singleton.mp he').symm
    split
    · refine ⟨htold.made, ?_⟩
      intro err herr
      change joinErrs [some Sentinel.runtimeStart.err, i.fault.map Fault.err] = some err
        at herr
      refine .plain (plain_joinErrs ?_ herr)
      intro e' he'
      rcases List.mem_cons.mp he' with he' | he'
      · cases he'
        rfl
      · exact hfault e' (List.mem_singleton.mp he').symm
    · exact htold

theorem answer_cancelFinish {reason detail : GoString} {previous : ActivePhase}
    (h : cancelFinish cfg i e.1 reason id previous detail w = some (w', reply)) :
    Answer cfg (.stopping e reason id previous detail) i w w' reply := by
  unfold cancelFinish at h
  split at h
  · cases h
  rename_i current _
  split at h
  next f _ =>
    obtain ⟨-, rfl⟩ := Prod.mk.inj (some.inj h)
    refine ⟨fun e' he' => (nomatch he'), ?_⟩
    intro err herr
    change joinErrs [some Sentinel.runtimeStop.err, some f.err, (tryPersist cfg i.saved
      (w.setMem (stopFailed i id current previous detail w.mem))).2] = some err at herr
    refine .plain (plain_joinErrs ?_ herr)
    intro e' he'
    rcases List.mem_cons.mp he' with he' | he'
    · cases he'
      rfl
    · rcases List.mem_cons.mp he' with he' | he'
      · cases he'
        exact f.plain
      · exact plain_tryPersist (List.mem_singleton.mp he').symm
  generalize hw₁ : w.setMem (stopSucceeded cfg i.now id current .cancelled reason w.mem) = w₁
    at h
  have hmem : (tryPersist cfg i.saved w₁).1.mem = w₁.mem := tryPersist_mem _ _
  obtain ⟨rfl, rfl⟩ := Prod.mk.inj (some.inj h)
  have htold : Answer cfg (.stopping e reason id previous detail) i w
      (tryPersist cfg i.saved w₁).1 (replyOf (stateEnvelope cfg
        (w₁.mem.executions.lookup id) e.1.messageID i.later i.id)) := by
    rw [← hmem]
    exact .told rfl (.inr rfl)
  cases hresponse :
      stateEnvelope cfg (w₁.mem.executions.lookup id) e.1.messageID i.later i.id with
  | error err =>
    rw [hresponse] at htold
    exact htold
  | ok response =>
    rw [hresponse] at htold
    refine ⟨htold.made, ?_⟩
    intro err herr
    exact .plain (plain_tryPersist herr)

-- ===== a section

/-- The responses a call stands with. -/
def Pc.held : Pc cfg → List Envelope
  | .answered _ reply | .finishing _ reply => reply.responses
  | _ => []

/-- The responses a section leads to: kept for later, or returned. -/
def Next.held : Next cfg → List Envelope
  | .goto pc => pc.held
  | .ret reply => reply.responses
  | .done _ => []

/-- The error a handler left for the end of its call. -/
def Pc.left : Pc cfg → Option GoErr
  | .finishing _ reply => reply.err
  | _ => none

/-- The response is in the replay cache. -/
def Mem.cached (m : Mem) (e : Envelope) : Prop :=
  ∃ k entry, m.replay.lookup k = some entry ∧ e ∈ entry.responses

/-- Where the responses of a section come from. -/
structure Sourced (cfg : Config) (pc : Pc cfg) (i : Input) (w w' : World) (next : Next cfg) :
    Prop where
  held : ∀ e ∈ next.held,
    e ∈ pc.held ∨ pc.tells = none ∧ w.mem.cached e ∨ Made cfg pc i w w' e
  left : ∀ err, next.pc.bind Pc.left = some err → Problem cfg pc w err

theorem Answer.sourced (h : Answer cfg pc i w w' reply) :
    Sourced cfg pc i w w' (.goto (.finishing e reply)) :=
  ⟨fun e' he' => .inr (.inr (h.made e' he')), h.err⟩

variable {next : Next cfg}

/-- A section without responses. -/
theorem Sourced.none (hheld : next.held = []) (hleft : next.pc.bind Pc.left = none) :
    Sourced cfg pc i w w' next := by
  constructor
  · intro e he
    rw [hheld] at he
    cases he
  · intro err herr
    rw [hleft] at herr
    cases herr

theorem Sourced.of_some {r : World × Next cfg} (h : some r = some (w', next))
    (hr : Sourced cfg pc i w r.1 r.2) : Sourced cfg pc i w w' next := by
  cases h
  exact hr

theorem sourced_rejected (he : pc.command = some e) (hnow : now = i.now ∨ now = i.later)
    (h : err.plain = true) : Sourced cfg pc i w w' (rejected i now e err) := by
  constructor
  · intro e' he'
    rw [List.mem_singleton.mp he']
    exact .inr (.inr (.refused he hnow (.inl (.plain h))))
  · intro err' herr'
    cases herr'

theorem sourced_outcome {r : World × Outcome} (h : Outcome.answers cfg (.handling e) i w r) :
    Sourced cfg (.handling e) i w r.1 (r.2.next e) := by
  obtain ⟨w₁, outcome⟩ := r
  cases outcome with
  | reply reply => exact (h reply rfl).sourced
  | start | stop | bind => exact .none rfl rfl

theorem receive_sourced (i : Input) (e : Inbound cfg) (w : World) :
    Sourced cfg (.received e) i w (receive i e w).1 (receive i e w).2 := by
  unfold receive
  dsimp only
  split
  next err herr =>
    refine sourced_rejected rfl (.inr rfl) ?_
    unfold checkFreshness freshnessErr at herr
    dsimp only at herr
    split at herr
    · cases herr; rfl
    split at herr
    · cases herr; rfl
    · split at herr
      · cases herr; rfl
      · cases herr
  split
  · exact .none rfl rfl
  · split
    · exact .none rfl rfl
    · exact .none rfl rfl

theorem handleLogs_sourced (i : Input) (e : Inbound cfg) (q : ExecutionLogsRequest)
    (w : World) : Sourced cfg (.logging e q) i w w (.ret (handleLogs cfg i e.1 q w)) := by
  have refused {err : GoErr} (herr : err.plain = true) : Sourced cfg (.logging e q) i w w
      (.ret ⟨errorResponse cfg i.now i.random e.1 err, some err⟩) :=
    sourced_rejected rfl (.inl rfl) herr
  unfold handleLogs
  split
  · exact refused rfl
  split
  · exact refused rfl
  split
  next f _ =>
    refine refused ?_
    unfold logErr
    split
    · rfl
    · split
      · rfl
      · exact f.plain
  constructor
  · intro e' he'
    rw [List.mem_singleton.mp he']
    exact .inr (.inr (.logged rfl))
  · intro err herr
    cases herr

theorem beginReplay_sourced (tid : Nat) (i : Input) (e : Inbound cfg) (w : World) :
    Sourced cfg (.dispatching e) i w (beginReplay tid i e w).1 (beginReplay tid i e w).2 := by
  unfold beginReplay
  dsimp only
  split
  · exact sourced_rejected rfl (.inr rfl) rfl
  · exact sourced_rejected rfl (.inr rfl) rfl
  next entry hbegun =>
    have hentry : (prune cfg i.now w.mem.replay).lookup (replayKey e.1) = some entry := by
      unfold beginCache at hbegun
      dsimp only at hbegun
      split at hbegun
      next entry' hentry' =>
        split at hbegun
        · cases hbegun
          exact hentry'
        · cases hbegun
      · split at hbegun <;> cases hbegun
    split
    · constructor
      · intro e' he'
        exact .inr (.inl ⟨rfl, _, entry, (trimmed_prune _ _).sub _ _ hentry, he'⟩)
      · intro err herr
        cases herr
    · exact .none rfl rfl
  · split
    · exact .none rfl rfl
    next hp => exact sourced_rejected rfl (.inr rfl) (plain_persist hp)

theorem finishReplay_sourced (tid : Nat) (i : Input) (e : Inbound cfg) (reply : Reply)
    (w : World) : Sourced cfg (.finishing e reply) i w (finishReplay tid i e reply w).1
      (finishReplay tid i e reply w).2 := by
  constructor
  · intro e' he'
    change e' ∈ (published i e reply).responses at he'
    unfold published at he'
    split at he'
    next err herr =>
      split at he'
      · rw [List.mem_singleton.mp he']
        exact .inr (.inr (.refused rfl (.inl rfl) (.inr ⟨reply, rfl, herr⟩)))
      · exact .inl he'
    · exact .inl he'
  · intro err herr
    cases herr

theorem handle_sourced (h : handle i e w = some (w', next)) :
    Sourced cfg (.handling e) i w w' next := by
  unfold handle at h
  split at h
  next q hq =>
    cases h
    exact (answer_handleRequest hq i w).sourced
  next q hq =>
    cases h
    exact sourced_outcome (answers_assignBegin hq i w)
  next q hq =>
    cases h
    exact sourced_outcome (answers_cancelBegin i w)
  next q hq =>
    cases h
    exact (answer_handleInspect i w).sourced
  next q hq =>
    cases h
    exact (answer_handleOfferRelease hq i w).sourced
  next q hq =>
    cases h
    exact (answer_handleLeaseRenew hq i w).sourced
  next q hq =>
    cases h
    refine sourced_outcome (r := (w, tunnelCheck i e.1 q w)) ?_
    intro reply hreply
    unfold tunnelCheck at hreply
    split at hreply
    · cases hreply; exact .plain rfl
    split at hreply
    · cases hreply; exact .plain rfl
    · split at hreply
      · cases hreply; exact .plain rfl
      · cases hreply
  · cases h

/-- Every response of a section was there before it or is built by it. -/
theorem advance_sourced {tid : Nat} (h : advance tid pc i w = some (w', next)) :
    Sourced cfg pc i w w' next := by
  cases pc with
  | received e =>
    exact .of_some h (receive_sourced i e w)
  | logging e q =>
    exact .of_some h (handleLogs_sourced i e q w)
  | dispatching e =>
    exact .of_some h (beginReplay_sourced tid i e w)
  | waiting e owner =>
    change (if i.cancelled then some (w, _) else none) = some (w', next) at h
    split at h
    · cases h
      exact .none rfl rfl
    · cases h
  | answered e reply =>
    cases h
    constructor
    · intro e' he'
      split at he'
      · cases he'
      · exact .inl he'
    · intro err herr
      cases herr
  | handling e => exact handle_sourced h
  | starting e id =>
    obtain ⟨r, hr, heq⟩ := map_eq_some_iff.mp h
    cases heq
    exact (answer_assignFinish hr).sourced
  | stopping e reason id previous detail =>
    obtain ⟨r, hr, heq⟩ := map_eq_some_iff.mp h
    cases heq
    exact (answer_cancelFinish hr).sourced
  | binding e q now =>
    exact .of_some h (answer_tunnelBind i now e q w).sourced
  | finishing e reply =>
    exact .of_some h (finishReplay_sourced tid i e reply w)
  | evicting sweep err =>
    obtain ⟨r, hr, heq⟩ := map_eq_some_iff.mp h
    obtain ⟨w₁, outcome⟩ := r
    cases heq
    cases outcome with
    | idle | failed => cases sweep <;> exact .none rfl rfl
    | stop id previous detail => exact .none rfl rfl
  | evictStopping sweep err id previous detail =>
    refine .of_some h ?_
    unfold evictStopped
    dsimp only
    split
    · cases sweep <;> exact .none rfl rfl
    · exact .none rfl rfl
  | collecting evictErr =>
    refine .of_some h ?_
    unfold collect
    dsimp only
    split <;> exact .none rfl rfl
  | cleaning pending err evictErr =>
    cases pending with
    | nil =>
      cases h
      exact .none rfl rfl
    | cons dead pending =>
      refine .of_some h ?_
      unfold clean
      split <;> exact .none rfl rfl
  | scanning =>
    cases h
    unfold scan
    split
    · exact .none rfl rfl
    · split <;> exact .none rfl rfl
  | recovering ids =>
    cases ids with
    | nil =>
      cases h
      exact .none rfl rfl
    | cons id ids =>
      cases h
      unfold recoverNext
      split
      · exact .none rfl rfl
      · split <;> exact .none rfl rfl
  | recoverStopping ids id phase detail =>
    refine .of_some h ?_
    unfold recoverStop
    split
    · exact .none rfl rfl
    · unfold recovered
      split <;> exact .none rfl rfl
  | reattaching ids id =>
    refine .of_some h ?_
    unfold recovered
    split <;> exact .none rfl rfl
  | tunnelOpening id peerKey =>
    cases h
    split <;> exact .none rfl rfl
  | tunnelGranting id peerKey =>
    refine .of_some h ?_
    unfold grantSession
    split <;> exact .none rfl rfl
  | tunnelChecking id session =>
    refine .of_some h ?_
    unfold recheckSession
    split <;> exact .none rfl rfl

end R1s.Allocator
