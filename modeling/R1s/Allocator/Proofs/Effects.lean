/-
What a section does to the memory and the store, said once.

# The list

`Alters` lists the memories a section can end with, each with the guards
it passed: the point the call stood at, the command it read, the record
it found, and where the call goes on. `Lands` says how that memory gets
into the world: left there, saved, or left there after a save that may
have failed. `step_effect` proves of every step but a restart that it is
one of these; what sections keep, account for or announce is a case split
over the list and opens no section again.
-/
import R1s.Allocator.Proofs.Calls
import R1s.Allocator.Proofs.Ledger

namespace R1s.Allocator

variable {cfg : Config} {pc : Option (Pc cfg)} {next : Option (Next cfg)} {i : Input}
  {w w' : World} {m m' : Mem} {b : Bool}

-- ===== saving

/-- The store has the memory as it is. -/
def Flushed (cfg : Config) (w : World) : Prop :=
  cfg.stored = true → ∃ saved, w.disk = some (snapshot cfg saved w.mem)

section Save

variable {saved : SaveIn} (h : persist cfg saved w = .ok w')
include h

/-- A save that goes through changes the store only. -/
theorem persist_ok :
    w'.mem = w.mem ∧ (cfg.stored = false ∧ w'.disk = w.disk
      ∨ w.mem.encodable = true ∧ w'.disk = some (snapshot cfg saved w.mem)) := by
  unfold persist at h
  split at h
  next hunstored =>
    cases h
    exact ⟨rfl, .inl ⟨by simpa using hunstored, rfl⟩⟩
  split at h
  · cases h
  rename_i henc
  split at h
  · cases h
  split at h
  · cases h
  · cases h
    exact ⟨rfl, .inr ⟨by simpa using henc, rfl⟩⟩

theorem persist_mem : w'.mem = w.mem :=
  (persist_ok h).1

/-- With a store a save writes the snapshot. -/
theorem persist_stored (hstored : cfg.stored = true) :
    w.mem.encodable = true ∧ w'.disk = some (snapshot cfg saved w.mem) := by
  rcases (persist_ok h).2 with ⟨hunstored, -⟩ | hsaved
  · rw [hstored] at hunstored
    cases hunstored
  · exact hsaved

theorem persist_flushed : Flushed cfg w' := by
  intro hstored
  refine ⟨saved, ?_⟩
  rw [persist_mem h]
  exact (persist_stored h hstored).2

end Save

theorem tryPersist_mem (saved : SaveIn) (w : World) : (tryPersist cfg saved w).1.mem = w.mem := by
  unfold tryPersist
  split
  next w' hp => exact persist_mem hp
  · rfl

/-- The store keeps its snapshot or takes the one of the memory. -/
def Stored (cfg : Config) (w w' : World) : Prop :=
  w'.disk = w.disk ∨
    w'.mem.encodable = true ∧ ∃ saved, w'.disk = some (snapshot cfg saved w'.mem)

/-- How the memory `m` a section ends with gets into the world: it is
left there, whatever became of the save, or it is saved. -/
inductive Lands (cfg : Config) (i : Input) (w : World) (m : Mem) : Bool → World → Prop
  | kept : Lands cfg i w m false (w.setMem m)
  | tried : Lands cfg i w m false (tryPersist cfg i.saved (w.setMem m)).1
  | saved {w' : World} (h : persist cfg i.saved (w.setMem m) = .ok w') :
      Lands cfg i w m true w'

theorem Lands.mem (h : Lands cfg i w m b w') : w'.mem = m := by
  cases h with
  | kept => rfl
  | tried => exact tryPersist_mem _ _
  | saved h => exact persist_mem h

/-- The store after the section, with and without one. -/
theorem Lands.disk (h : Lands cfg i w m b w') :
    Stored cfg w w' ∧ (cfg.stored = false → w'.disk = w.disk) := by
  have hsaved : ∀ w', persist cfg i.saved (w.setMem m) = .ok w' →
      Stored cfg w w' ∧ (cfg.stored = false → w'.disk = w.disk) := by
    intro w' hp
    obtain ⟨hmem, ⟨-, hdisk⟩ | ⟨henc, hdisk⟩⟩ := persist_ok hp
    · exact ⟨.inl hdisk, fun _ => hdisk⟩
    · refine ⟨.inr ⟨by rw [hmem]; exact henc, i.saved, by rw [hdisk, hmem]⟩, fun hstored => ?_⟩
      unfold persist at hp
      rw [hstored] at hp
      cases hp
      rfl
  cases h with
  | kept => exact ⟨.inl rfl, fun _ => rfl⟩
  | tried =>
    unfold tryPersist
    split
    next w₁ hp => exact hsaved w₁ hp
    · exact ⟨.inl rfl, fun _ => rfl⟩
  | saved hp => exact hsaved w' hp

theorem Lands.flushed (h : Lands cfg i w m true w') : Flushed cfg w' := by
  cases h with
  | saved h => exact persist_flushed h

theorem Lands.encodable (h : Lands cfg i w m true w') (hstored : cfg.stored = true) :
    m.encodable = true := by
  cases h with
  | saved h => exact (persist_stored h hstored).1

-- ===== the list

/-- The point is not between the two sections of a start or a stop. -/
def Quiet (pc : Option (Pc cfg)) : Prop :=
  pc.bind Pc.startOf = none ∧ pc.bind Pc.stopOf = none

/-- The duration a renewal asks for. -/
def renewDuration (renew : ExecutionLeaseRenew) : Int :=
  ((renew.leaseDuration).map PbDuration.asDuration).getD 0

/-- The sections that leave the cache, the tombstones and the clock
alone. -/
def Pc.framed : Pc cfg → Bool
  | .received _ | .dispatching _ | .finishing _ _ | .evicting _ _ | .collecting _
  | .cleaning (_ :: _) _ _ => false
  | _ => true

variable {p : Pc cfg}

theorem Pc.quiet_of_framed (h : p.framed = false) : Quiet (some p) := by
  cases p <;> first | exact ⟨rfl, rfl⟩ | cases h

/-- The points whose call has just stopped, or lost, the task of `k`: the
record under `k` ends there in the phase and with the detail named. -/
inductive Ends (i : Input) : Pc cfg → GoString → EndPhase → GoString → Prop
  | stopped {e reason k detail previous} (hok : i.fault = none) :
      Ends i (.stopping e reason k previous detail) k ⟨.cancelled, rfl⟩ reason
  | evicted {sweep err k detail previous}
      (hok : (Pc.evictStopping sweep err k previous detail : Pc cfg).stopFails i = false) :
      Ends i (.evictStopping sweep err k previous detail) k ⟨.failed, rfl⟩ leaseExpiredDetail
  | recovered {ids k detail phase} : Ends i (.recoverStopping ids k phase detail) k phase detail
  | lost {ids k f} (hf : i.fault = some f) : Ends i (.reattaching ids k) k ⟨.failed, rfl⟩ f.text

/-- The memory with the offer assigned and the execution recorded. -/
def assigned (cfg : Config) (i : Input) (q : ExecutionAssign) (r : OfferRecord) (m : Mem) : Mem :=
  { m with
    offers := m.offers.insert q.offerID
      { r with status := .assigned, execution := q.executionID },
    executions := m.executions.insert q.executionID (assignRecord cfg i q r) }

/-- The checks an assignment passes before it takes the offer `r`. -/
structure Assigning (cfg : Config) (i : Input) (e : Inbound cfg) (q : ExecutionAssign)
    (r : OfferRecord) (m : Mem) : Prop where
  payload : e.1.payload = some (.executionAssign q)
  offer : (expireOffers i.now m).offers.lookup q.offerID = some r
  outstanding : r.status = .outstanding
  client : r.client = e.1.sender
  request : r.offer.requestID = q.requestID
  fresh : m.executions.lookup q.executionID = none
  admitted : admitLocked cfg (expireOffers i.now m) e.1.sender true = none

/-- The memories a section at `pc` that goes on to `next` can end with;
`true` marks those it saves. A section that first lapses offers or reads
the clock works on `m₁`. -/
inductive Alters (cfg : Config) (pc : Option (Pc cfg)) (i : Input) (next : Option (Next cfg))
    (m : Mem) : Bool → Mem → Prop
  | same (hpc : Quiet pc) (hnext : Quiet (next.bind Next.pc)) : Alters cfg pc i next m false m
  /-- The record a stop was for is gone. -/
  | missed {p : Pc cfg} {k previous} (hpc : pc = some p) (hstop : p.stopOf = some (k, previous))
      (hx : m.executions.lookup k = none) : Alters cfg pc i next m false m
  | clock {p : Pc cfg} (hpc : pc = some p) (hp : p.framed = false)
      (hnext : Quiet (next.bind Next.pc)) :
      Alters cfg pc i next m false { m with highWater := max m.highWater i.now }
  | expired (hpc : Quiet pc) (now : Int) (hnext : Quiet (next.bind Next.pc)) :
      Alters cfg pc i next m false (expireOffers now m)
  | minted {e q used m₁} (hpc : pc = some (.handling e)) (hm : m₁ = expireOffers i.now m)
      (hq : e.1.payload = some (.executionRequest q)) (hnew : m₁.requested e.1 q = none)
      (herr : requestErr cfg e.1 q m₁ = none) (hid : i.id ≠ [])
      (hfree : m₁.offers.lookup i.id = none)
      (hused : reserve cfg m₁.used q.resourceClass = some used)
      (hnext : Quiet (next.bind Next.pc)) :
      Alters cfg pc i next m true
        { m₁ with
          offers := m₁.offers.insert i.id (mintRecord cfg i e.1 q),
          requests := m₁.requests.insert (authorityKey e.1.sender q.requestID) i.id,
          used := used }
  | unminted {key m₁} (hpc : Quiet pc) (hm : m₁ = expireOffers i.now m)
      (hkey : (m₁.requests.lookup key).bind m₁.offers.lookup = none)
      (hnext : Quiet (next.bind Next.pc)) :
      Alters cfg pc i next m false { m₁ with requests := m₁.requests.erase key }
  | assigned {e q r} (hpc : pc = some (.handling e)) (h : Assigning cfg i e q r m)
      (hnext : next = some (.goto (.starting e q.executionID))) :
      Alters cfg pc i next m true (assigned cfg i q r (expireOffers i.now m))
  | unassigned {o r m₁} (hpc : Quiet pc) (hm : m₁ = expireOffers i.now m)
      (hr : m₁.offers.lookup o = some r) (hstatus : r.status = .outstanding)
      (hnext : Quiet (next.bind Next.pc)) :
      Alters cfg pc i next m false
        { m₁ with
          offers := m₁.offers.insert o { r with status := .outstanding, execution := [] } }
  | started {e k x} (hpc : pc = some (.starting e k)) (hx : m.executions.lookup k = some x) :
      Alters cfg pc i next m false (startReturned cfg i k x m)
  | cancelled {e q x} (hpc : pc = some (.handling e))
      (hq : e.1.payload = some (.executionCancel q))
      (hactive : x.phase.terminal = false ∧ x.phase ≠ .cancelling)
      (hx : m.executions.lookup q.executionID = some x) (hclient : x.client = e.1.sender)
      (hnext : next = some (.goto (.stopping e q.reason x.id ⟨x.phase, hactive⟩ x.detail))) :
      Alters cfg pc i next m true
        (m.setExecution q.executionID (cancelling x q.reason i.now))
  /-- A cancellation or a renewal undone. -/
  | rewritten {k x} (hpc : Quiet pc) (hx : m.executions.lookup k = some x)
      (hnext : Quiet (next.bind Next.pc)) : Alters cfg pc i next m false (m.setExecution k x)
  | unstopped {p : Pc cfg} {k detail previous x} (hpc : pc = some p)
      (hstop : p.stopOf = some (k, previous)) (hfails : p.stopFails i = true)
      (hx : m.executions.lookup k = some x) :
      Alters cfg pc i next m false (stopFailed i k x previous detail m)
  | stopped {p : Pc cfg} {k detail phase x} (hpc : pc = some p) (hend : Ends i p k phase detail)
      (hx : m.executions.lookup k = some x) :
      Alters cfg pc i next m false (stopSucceeded cfg i.now k x phase.1 detail m)
  | reattached {ids k x} (hpc : pc = some (.reattaching ids k))
      (hx : m.executions.lookup k = some x) (hphase : x.phase = .starting) :
      Alters cfg pc i next m false
        (m.setExecution k
          { x with phase := .running, occurredAt := i.now, revision := x.revision + 1 })
  | released {o r} (hpc : Quiet pc) (hr : m.offers.lookup o = some r)
      (hstatus : r.status = .outstanding) (hnext : Quiet (next.bind Next.pc)) :
      Alters cfg pc i next m true
        { m with
          offers := m.offers.insert o { r with status := releasedStatus i.now r },
          used := release m.used r.offer.resourceClass }
  | unreleased {o r} (hpc : Quiet pc) (hr : m.offers.lookup o = some r)
      (hstatus : r.status = .outstanding) (hnext : Quiet (next.bind Next.pc)) :
      Alters cfg pc i next m false
        { m with
          offers := m.offers.insert o r,
          used := (reserve cfg (release m.used r.offer.resourceClass)
            r.offer.resourceClass).getD (release m.used r.offer.resourceClass) }
  | renewed {e q x} (hpc : pc = some (.handling e))
      (hq : e.1.payload = some (.executionLeaseRenew q))
      (hx : m.executions.lookup q.executionID = some x) (hclient : x.client = e.1.sender)
      (hactive : x.phase.terminal = false ∧ x.phase ≠ .cancelling)
      (hnext : next = some (.goto (.finishing e (replyOf (respond cfg i.id e.1.messageID i.now
        (.executionLeaseRenewAck
          ⟨x.id, some (Timestamp.new (i.now + renewDuration q))⟩)))))) :
      Alters cfg pc i next m true
        (m.setExecution q.executionID { x with leaseUntil := i.now + renewDuration q })
  | bound {e q now targets endpoint tunnels} (hpc : pc = some (.binding e q now))
      (h : m.tunnels.bind q.executionID q.yggPeerPubkey targets endpoint = .ok tunnels) :
      Alters cfg pc i next m false { m with tunnels := tunnels }
  | begun {e m₁} (hpc : pc = some (.dispatching e)) (hm : m₁ = expireOffers i.now m) (b : Bool)
      (replay : FMap GoString ReplayEntry) : Alters cfg pc i next m b { m₁ with replay := replay }
  | answered {e reply} (hpc : pc = some (.finishing e reply)) (replay : FMap GoString ReplayEntry) :
      Alters cfg pc i next m false { m with replay := replay }
  | evicted {sweep err k x m₁} (hpc : pc = some (.evicting sweep err))
      (hm : m₁ = { m with highWater := max m.highWater i.now })
      (hactive : x.phase.terminal = false ∧ x.phase ≠ .cancelling)
      (hx : m.executions.lookup k = some x) (hlapsed : x.leaseExpired m₁.highWater = true)
      (hnext : next = some (.goto (.evictStopping sweep err k ⟨x.phase, hactive⟩ x.detail))) :
      Alters cfg pc i next m true
        (m₁.setExecution k (cancelling x leaseExpiredDetail m₁.highWater))
  | unevicted {sweep err k x m₁} (hpc : pc = some (.evicting sweep err))
      (hm : m₁ = { m with highWater := max m.highWater i.now })
      (hx : m.executions.lookup k = some x) (hnext : Quiet (next.bind Next.pc)) :
      Alters cfg pc i next m false (m₁.setExecution k x)
  | swept {err} (hpc : pc = some (.collecting err)) :
      Alters cfg pc i next m true (sweepDropped (sweepCollected (sweepReady cfg i.now m)))
  | cleaned {dead pending err evictErr}
      (hpc : pc = some (.cleaning (dead :: pending) err evictErr)) :
      Alters cfg pc i next m true
        { m with
          tombstones := m.tombstones.insert dead.offerID
            { (m.tombstones.lookup dead.offerID).getD .zero with cleanupPending := false } }
  | uncleaned {dead pending err evictErr}
      (hpc : pc = some (.cleaning (dead :: pending) err evictErr)) :
      Alters cfg pc i next m false
        { m with
          tombstones := m.tombstones.insert dead.offerID dead }
  | opened {k peerKey session tunnels} (hpc : pc = some (.tunnelGranting k peerKey))
      (h : m.tunnels.open k peerKey = .ok (tunnels, session)) :
      Alters cfg pc i next m false { m with tunnels := tunnels }
  | rechecked {k session} (hpc : pc = some (.tunnelChecking k session)) (hdead : m.live k = false) :
      Alters cfg pc i next m false { m with tunnels := m.tunnels.closeSession k }
  | closed {session} (hpc : pc = none) :
      Alters cfg pc i next m false { m with tunnels := m.tunnels.release session }
  | completed {c : Completion} {x} (hpc : pc = none)
      (hx : m.executions.lookup c.executionID = some x) (hlive : x.phase.terminal = false) :
      Alters cfg pc i next m true
        (finish cfg c.executionID x c.phase c.text c.exitCode i.now m)
  /-- A completion undone: the binding stays dropped. -/
  | uncompleted {c : Completion} {x} (hpc : pc = none)
      (hx : m.executions.lookup c.executionID = some x) :
      Alters cfg pc i next m false
        { m with
          executions := m.executions.insert c.executionID x,
          tunnels := m.tunnels.invalidate x.id }

/-- A section from `w` to `w'`. -/
def Effect (cfg : Config) (pc : Option (Pc cfg)) (i : Input) (next : Option (Next cfg))
    (w w' : World) : Prop :=
  ∃ b m, Alters cfg pc i next w.mem b m ∧ Lands cfg i w m b w'

theorem Effect.kept (h : Alters cfg pc i next w.mem false m) :
    Effect cfg pc i next w (w.setMem m) := ⟨false, m, h, .kept⟩

theorem Effect.tried (h : Alters cfg pc i next w.mem false m) :
    Effect cfg pc i next w (tryPersist cfg i.saved (w.setMem m)).1 := ⟨false, m, h, .tried⟩

theorem Effect.saved (hp : persist cfg i.saved (w.setMem m) = .ok w')
    (h : Alters cfg pc i next w.mem true m) : Effect cfg pc i next w w' :=
  ⟨true, m, h, .saved hp⟩

-- ===== commands

/-- The handler goes on to bind a tunnel. -/
def Outcome.binds : Outcome → Bool
  | .bind _ _ => true
  | _ => false

variable {e : Inbound cfg}

theorem handleRequest_effect {q : ExecutionRequest}
    (hq : e.1.payload = some (.executionRequest q)) (hnext : Quiet (next.bind Next.pc))
    (i : Input) (w : World) :
    Effect cfg (some (.handling e)) i next w (handleRequest cfg i e.1 q w).1 := by
  have hexp : Effect cfg (some (.handling e)) i next w
      (w.setMem (expireOffers i.now w.mem)) := .kept (.expired ⟨rfl, rfl⟩ i.now hnext)
  unfold handleRequest
  dsimp only
  split
  · exact hexp
  rename_i hnew
  unfold newOffer
  split
  · exact hexp
  rename_i herr
  split
  · exact hexp
  rename_i hid
  split
  · exact hexp
  rename_i hfresh
  split
  · exact hexp
  have hfree : (w.setMem (expireOffers i.now w.mem)).mem.offers.lookup i.id = none := by
    simpa using hfresh
  have hundo : Effect cfg (some (.handling e)) i next w (w.setMem
      { expireOffers i.now w.mem with
        requests := (expireOffers i.now w.mem).requests.erase
          (authorityKey e.1.sender q.requestID) }) :=
    .kept (.unminted ⟨rfl, rfl⟩ rfl hnew hnext)
  unfold commitOffer
  dsimp only
  rw [AList.erase_insert_self hfree, AList.erase_insert]
  split
  · exact hundo
  rename_i used hused
  split
  · rw [release_reserve hused]
    exact hundo
  next hp =>
    exact .saved hp (.minted rfl rfl hq hnew herr hid hfree hused hnext)

/-- The first section of an assignment; it binds nothing. -/
theorem assignBegin_effect {q : ExecutionAssign} (hq : e.1.payload = some (.executionAssign q))
    (i : Input) (w : World) :
    Effect cfg (some (.handling e)) i (some ((assignBegin cfg i e.1 q w).2.next e)) w
      (assignBegin cfg i e.1 q w).1 ∧ (assignBegin cfg i e.1 q w).2.binds = false := by
  have hexp (reply : Reply) : Effect cfg (some (.handling e)) i
      (some (.goto (.finishing e reply))) w (w.setMem (expireOffers i.now w.mem)) :=
    .kept (.expired ⟨rfl, rfl⟩ i.now ⟨rfl, rfl⟩)
  unfold assignBegin
  dsimp only
  split
  · exact ⟨hexp _, rfl⟩
  rename_i r hr
  split
  · exact ⟨hexp _, rfl⟩
  rename_i hclient
  split
  · exact ⟨hexp _, rfl⟩
  rename_i hrequest
  split
  · exact ⟨hexp _, rfl⟩
  · exact ⟨hexp _, rfl⟩
  · split <;> exact ⟨hexp _, rfl⟩
  rename_i hstatus
  unfold assignOutstanding
  split
  · split <;> exact ⟨hexp _, rfl⟩
  rename_i hnew
  split
  · exact ⟨hexp _, rfl⟩
  split
  · exact ⟨hexp _, rfl⟩
  rename_i hadmit
  unfold commitAssign
  dsimp only
  split
  · have hundo : ((w.setMem (expireOffers i.now w.mem)).mem.executions.insert
        (assignRecord cfg i q r).id (assignRecord cfg i q r)).erase
          (assignRecord cfg i q r).id = w.mem.executions :=
      AList.erase_insert_self hnew _
    rw [hundo]
    exact ⟨.kept (.unassigned ⟨rfl, rfl⟩ rfl hr hstatus ⟨rfl, rfl⟩), rfl⟩
  next hp =>
    exact ⟨.saved hp (.assigned rfl ⟨hq, hr, hstatus, not_not.mp hclient,
      not_not.mp hrequest, hnew, hadmit⟩ rfl), rfl⟩

variable {k : GoString}

theorem assignFinish_effect {reply : Reply} (h : assignFinish cfg i e.1 k w = some (w', reply)) :
    Effect cfg (some (.starting e k)) i next w w' := by
  unfold assignFinish at h
  split at h
  · cases h
  next x hx =>
    cases h
    exact .tried (.started rfl hx)

/-- The CANCELLING transition, saved or written back. -/
theorem beginStop_cases {detail : GoString} {x : ExecutionRecord} {now : Int}
    {r : Except (World × GoErr) World} (h : beginStop cfg i k x detail now w = r) :
    (∃ w', r = .ok w' ∧
      persist cfg i.saved (w.setMem (w.mem.setExecution k (cancelling x detail now))) = .ok w')
    ∨ ∃ err, r = .error (w.setMem (w.mem.setExecution k x), err) := by
  unfold beginStop at h
  dsimp only at h
  split at h
  next w' hp => exact .inl ⟨w', h.symm, hp⟩
  next err hp => exact .inr ⟨err, h.symm⟩

theorem cancelBegin_effect {q : ExecutionCancel} (hq : e.1.payload = some (.executionCancel q))
    (i : Input) (w : World) :
    Effect cfg (some (.handling e)) i (some ((cancelBegin cfg i e.1 q w).2.next e)) w
      (cancelBegin cfg i e.1 q w).1 ∧ (cancelBegin cfg i e.1 q w).2.binds = false := by
  have hsame (reply : Reply) : Effect cfg (some (.handling e)) i
      (some (.goto (.finishing e reply))) w w := .kept (.same ⟨rfl, rfl⟩ ⟨rfl, rfl⟩)
  unfold cancelBegin
  split
  · exact ⟨hsame _, rfl⟩
  rename_i x hx
  split
  · exact ⟨hsame _, rfl⟩
  rename_i hclient
  split
  next hactive =>
    split
    next hstop =>
      obtain ⟨_, heq, -⟩ | ⟨err, heq⟩ := beginStop_cases hstop
      · cases heq
      · cases heq
        exact ⟨.kept (.rewritten ⟨rfl, rfl⟩ hx ⟨rfl, rfl⟩), rfl⟩
    rename_i hstop
    obtain ⟨_, heq, hp⟩ | ⟨err, heq⟩ := beginStop_cases hstop
    · cases heq
      exact ⟨.saved hp (.cancelled rfl hq hactive hx (not_not.mp hclient) rfl), rfl⟩
    · cases heq
  · exact ⟨hsame _, rfl⟩

theorem cancelFinish_effect {reason detail : GoString} {previous : ActivePhase} {reply : Reply}
    (h : cancelFinish cfg i e.1 reason k previous detail w = some (w', reply)) :
    Effect cfg (some (.stopping e reason k previous detail)) i next w w' := by
  unfold cancelFinish at h
  split at h
  · cases h
  rename_i x hx
  split at h
  next f hf =>
    cases h
    exact .tried (.unstopped rfl rfl (congrArg Option.isSome hf) hx)
  next hok =>
    cases h
    exact .tried (.stopped rfl (.stopped hok) hx)

/-- A release works on an offer: a tombstone answers as an expired one. -/
theorem lookup_releaseTarget {o : GoString} {r : OfferRecord}
    (h : releaseTarget m o = some r) (hstatus : r.status = .outstanding) :
    m.offers.lookup o = some r := by
  unfold releaseTarget at h
  split at h
  next r' hr' =>
    cases h
    exact hr'
  · obtain ⟨dead, _, rfl⟩ := Option.map_eq_some_iff.mp h
    cases hstatus

theorem handleOfferRelease_effect (e : Inbound cfg) (rel : ExecutionOfferRelease)
    (hnext : Quiet (next.bind Next.pc)) (i : Input) (w : World) :
    Effect cfg (some (.handling e)) i next w (handleOfferRelease cfg i e.1 rel w).1 := by
  have hsame : Effect cfg (some (.handling e)) i next w w := .kept (.same ⟨rfl, rfl⟩ hnext)
  unfold handleOfferRelease
  split
  · exact hsame
  rename_i r htarget
  split
  · exact hsame
  split
  · exact hsame
  split
  · exact hsame
  dsimp only
  split
  next hstatus =>
    have hr := lookup_releaseTarget htarget hstatus
    split
    next hp => exact .saved hp (.released ⟨rfl, rfl⟩ hr hstatus hnext)
    · exact .kept (.unreleased ⟨rfl, rfl⟩ hr hstatus hnext)
  · exact hsame

/-- A renewal moves the lease of an active record of its sender and saves
that, or fails and leaves the records. -/
theorem handleLeaseRenew_cases (e : Envelope) (q : ExecutionLeaseRenew) (i : Input) (w : World) :
    (∃ err, (handleLeaseRenew cfg i e q w).2 = .fail err
      ∧ ((handleLeaseRenew cfg i e q w).1 = w
        ∨ ∃ x, w.mem.executions.lookup q.executionID = some x
          ∧ (handleLeaseRenew cfg i e q w).1 = w.setMem (w.mem.setExecution q.executionID x))) ∨
    ∃ x, w.mem.executions.lookup q.executionID = some x ∧ x.client = e.sender
      ∧ (x.phase.terminal = false ∧ x.phase ≠ .cancelling)
      ∧ (handleLeaseRenew cfg i e q w).2 = replyOf (respond cfg i.id e.messageID i.now
          (.executionLeaseRenewAck ⟨x.id, some (Timestamp.new (i.now + renewDuration q))⟩))
      ∧ persist cfg i.saved (w.setMem (w.mem.setExecution q.executionID
          { x with leaseUntil := i.now + renewDuration q }))
        = .ok (handleLeaseRenew cfg i e q w).1 := by
  unfold handleLeaseRenew
  split
  · exact .inl ⟨_, rfl, .inl rfl⟩
  rename_i x hx
  dsimp only
  split
  · exact .inl ⟨_, rfl, .inl rfl⟩
  rename_i hclient
  split
  · exact .inl ⟨_, rfl, .inl rfl⟩
  rename_i hlive
  split
  · exact .inl ⟨_, rfl, .inl rfl⟩
  rename_i hactive
  split
  · exact .inl ⟨_, rfl, .inl rfl⟩
  split
  · exact .inl ⟨_, rfl, .inr ⟨x, hx, rfl⟩⟩
  next hp =>
    exact .inr ⟨x, hx, not_not.mp hclient, ⟨by simpa using hlive, hactive⟩, rfl, hp⟩

theorem handleLeaseRenew_effect {q : ExecutionLeaseRenew}
    (hq : e.1.payload = some (.executionLeaseRenew q)) (i : Input) (w : World) :
    Effect cfg (some (.handling e)) i
      (some (.goto (.finishing e (handleLeaseRenew cfg i e.1 q w).2))) w
      (handleLeaseRenew cfg i e.1 q w).1 := by
  rcases @handleLeaseRenew_cases cfg e.1 q i w with
    ⟨_, -, heq | ⟨x, hx, heq⟩⟩ | ⟨x, hx, hclient, hactive, hreply, hp⟩
  · rw [heq]
    exact .kept (.same ⟨rfl, rfl⟩ ⟨rfl, rfl⟩)
  · rw [heq]
    exact .kept (.rewritten ⟨rfl, rfl⟩ hx ⟨rfl, rfl⟩)
  · rw [hreply]
    exact .saved hp (.renewed rfl hq hx hclient hactive rfl)

theorem tunnelBind_effect (e : Inbound cfg) (q : ExecutionTunnelOpen) (now : Int)
    (hnext : Quiet (next.bind Next.pc)) (i : Input) (w : World) :
    Effect cfg (some (.binding e q now)) i next w (tunnelBind cfg i now e.1 q w).1 := by
  have hsame : Effect cfg (some (.binding e q now)) i next w w :=
    .kept (.same ⟨rfl, rfl⟩ hnext)
  unfold tunnelBind
  split
  · exact hsame
  split
  · exact hsame
  dsimp only
  split
  · exact hsame
  · split
    · exact hsame
    next hbind => exact .kept (.bound rfl hbind)

variable {n : Next cfg}

theorem handle_effect (h : handle i e w = some (w', n)) :
    Effect cfg (some (.handling e)) i (some n) w w' := by
  unfold handle at h
  split at h
  next q hq =>
    cases h
    exact handleRequest_effect hq ⟨rfl, rfl⟩ i w
  next q hq =>
    cases h
    exact (assignBegin_effect hq i w).1
  next q hq =>
    cases h
    exact (cancelBegin_effect hq i w).1
  next q _ =>
    cases h
    unfold handleInspect
    split
    · exact .kept (.same ⟨rfl, rfl⟩ ⟨rfl, rfl⟩)
    · split <;> exact .kept (.same ⟨rfl, rfl⟩ ⟨rfl, rfl⟩)
  next q _ =>
    cases h
    exact handleOfferRelease_effect e q ⟨rfl, rfl⟩ i w
  next q hq =>
    cases h
    exact handleLeaseRenew_effect hq i w
  next q _ =>
    cases h
    refine .kept (.same ⟨rfl, rfl⟩ ?_)
    unfold tunnelCheck
    split
    · exact ⟨rfl, rfl⟩
    · split
      · exact ⟨rfl, rfl⟩
      · split <;> exact ⟨rfl, rfl⟩
  · cases h

/-- A handler that goes on to a start has assigned an offer and saved
that. -/
theorem handle_assigns {e' : Inbound cfg} (h : handle i e w = some (w', .goto (.starting e' k))) :
    ∃ q r, Assigning cfg i e q r w.mem ∧ q.executionID = k
      ∧ Lands cfg i w (assigned cfg i q r (expireOffers i.now w.mem)) true w' := by
  obtain ⟨b, m, ha, hl⟩ := handle_effect h
  cases ha with
  | assigned hpc hassign hnext =>
    cases hpc
    cases hnext
    exact ⟨_, _, hassign, rfl, hl⟩
  | cancelled _ _ _ _ _ hnext | renewed _ _ _ _ _ hnext => cases hnext
  | same _ hnext | expired _ _ hnext | minted _ _ _ _ _ _ _ _ hnext
  | unminted _ _ _ hnext | unassigned _ _ _ _ hnext | rewritten _ _ hnext
  | released _ _ _ hnext | unreleased _ _ _ hnext => cases hnext.1
  | missed hpc hstop | unstopped hpc hstop | stopped hpc hstop | clock hpc hstop =>
    cases hpc
    cases hstop
  | _ => cases ‹some (Pc.handling e) = _›

-- ===== background

/-- The clock is advanced to the reading, never back. -/
theorem effectiveNow_eq (now : Int) (m : Mem) :
    effectiveNow now m = { m with highWater := max m.highWater now } := by
  unfold effectiveNow
  split
  next hlt => rw [max_eq_right (le_of_lt hlt)]
  next hge => rw [max_eq_left (not_lt.mp hge)]

theorem receive_world (i : Input) (e : Inbound cfg) (w : World) :
    (receive i e w).1 = w.setMem (effectiveNow i.now w.mem) := by
  unfold receive checkFreshness
  dsimp only
  split
  · rfl
  · split
    · rfl
    · split <;> rfl

theorem beginReplay_effect (tid : Nat) (i : Input) (e : Inbound cfg) (w : World) :
    Effect cfg (some (.dispatching e)) i next w (beginReplay tid i e w).1 := by
  unfold beginReplay
  dsimp only
  split
  · exact .kept (.begun rfl rfl false _)
  · exact .kept (.begun rfl rfl false _)
  · exact .kept (.begun rfl rfl false _)
  · split
    next hp => exact .saved hp (.begun rfl rfl true _)
    · exact .kept (.begun rfl rfl false _)

theorem evictRound_effect {sweep : Bool} {err : Option GoErr}
    (h : evictRound i sweep err w = some (w', n)) :
    Effect cfg (some (.evicting sweep err)) i (some n) w w' := by
  have hleaves : ∀ err : Option GoErr, Quiet ((evicted sweep err : Next cfg).pc) := by
    intro err
    cases sweep <;> exact ⟨rfl, rfl⟩
  have hclock (err' : Option GoErr) : Effect cfg (some (.evicting sweep err)) i
      (some (evicted sweep err')) w (w.setMem (effectiveNow i.now w.mem)) := by
    rw [effectiveNow_eq]
    exact .kept (.clock rfl rfl (hleaves err'))
  obtain ⟨⟨w₁, outcome⟩, hround, heq⟩ := Option.map_eq_some_iff.mp h
  cases heq
  unfold evictBegin at hround
  dsimp only at hround
  split at hround
  · split at hround
    · cases hround
    rename_i x hx
    split at hround
    next hlapsed =>
      split at hround
      · cases hround
        exact hclock _
      rw [effectiveNow_eq] at hx hlapsed hround
      split at hround
      next hstop =>
        cases hround
        obtain ⟨_, heq, -⟩ | ⟨_, heq⟩ := beginStop_cases hstop
        · cases heq
        · cases heq
          exact .kept (.unevicted rfl rfl hx (hleaves _))
      rename_i hstop
      cases hround
      obtain ⟨_, heq, hp⟩ | ⟨_, heq⟩ := beginStop_cases hstop
      · cases heq
        exact .saved hp (.evicted rfl rfl _ hx hlapsed rfl)
      · cases heq
    · cases hround
  · cases hround
    exact hclock _

theorem evictFinish_effect (sweep : Bool) (err : Option GoErr) (k : GoString)
    (previous : ActivePhase) (detail : GoString) (i : Input) (w : World) :
    Effect cfg (some (.evictStopping sweep err k previous detail)) i next w
      (evictFinish cfg i k previous detail w).1 := by
  unfold evictFinish
  split
  next hx => exact .kept (.missed rfl rfl hx)
  rename_i x hx
  split
  next f hf =>
    rw [Option.filter_eq_some_iff] at hf
    exact .tried (.unstopped rfl rfl (by simpa [Pc.stopFails, hf.1] using hf.2) hx)
  rename_i hf
  refine .tried (.stopped rfl (.evicted ?_) hx)
  cases hfault : i.fault with
  | none => simp [Pc.stopFails, hfault]
  | some f =>
    rw [hfault] at hf
    simpa [Pc.stopFails, hfault] using hf

theorem sweepCollect_effect (err : Option GoErr) (hnext : Quiet (next.bind Next.pc)) (i : Input)
    (w : World) : Effect cfg (some (.collecting err)) i next w (sweepCollect cfg i w).1 := by
  unfold sweepCollect
  dsimp only
  split
  · exact .kept (.same ⟨rfl, rfl⟩ hnext)
  next hp => exact .saved hp (.swept rfl)

theorem clean_effect (dead : Tombstone) (pending : List Tombstone)
    (err evictErr : Option GoErr) (hnext : Quiet (next.bind Next.pc)) (i : Input) (w : World) :
    Effect cfg (some (.cleaning (dead :: pending) err evictErr)) i next w
      (clean i dead pending err evictErr w : World × Next cfg).1 := by
  unfold clean
  split
  · exact .kept (.same ⟨rfl, rfl⟩ hnext)
  unfold sweepCleanup
  dsimp only
  split
  next hp => exact .saved hp (.cleaned rfl)
  · rw [AList.insert_insert]
    exact .kept (.uncleaned rfl)

theorem recoverStop_effect (ids : List GoString) (k : GoString) (phase : EndPhase)
    (detail : GoString) (hnext : Quiet (next.bind Next.pc)) (i : Input) (w : World) :
    Effect cfg (some (.recoverStopping ids k phase detail)) i next w
      (recoverStop i ids k phase detail w : World × Next cfg).1 := by
  unfold recoverStop
  split
  · exact .kept (.same ⟨rfl, rfl⟩ hnext)
  unfold recoverStopped
  split
  · exact .tried (.same ⟨rfl, rfl⟩ hnext)
  next x hx => exact .tried (.stopped rfl .recovered hx)

theorem recoverReattached_effect (ids : List GoString) (k : GoString)
    (hnext : Quiet (next.bind Next.pc)) (i : Input) (w : World) :
    Effect cfg (some (.reattaching ids k)) i next w (recoverReattached cfg i k w).1 := by
  unfold recoverReattached
  split
  · split
    · exact .tried (.same ⟨rfl, rfl⟩ hnext)
    next x hx =>
      split
      next hphase => exact .tried (.reattached rfl hx hphase)
      · exact .tried (.same ⟨rfl, rfl⟩ hnext)
  rename_i f hf
  split
  · split
    · exact .tried (.same ⟨rfl, rfl⟩ hnext)
    next x hx => exact .tried (.stopped rfl (.lost hf) hx)
  · exact .kept (.same ⟨rfl, rfl⟩ hnext)

theorem Completion.phase_terminal (c : Completion) : c.phase.terminal = true := by
  unfold Completion.phase
  split <;> rfl

/-- A completion ends a live record and saves that, is undone when the
save fails, or changes nothing. -/
theorem runtimeCompleted_cases (i : Input) (c : Completion) (w : World) :
    (runtimeCompleted cfg i c w).1 = w ∨
    ∃ x, c.executionID ≠ [] ∧ w.mem.executions.lookup c.executionID = some x
      ∧ x.phase.terminal = false
      ∧ (persist cfg i.saved (w.setMem
            (finish cfg c.executionID x c.phase c.text c.exitCode i.now w.mem))
          = .ok (runtimeCompleted cfg i c w).1
        ∨ (∃ err, persist cfg i.saved (w.setMem
            (finish cfg c.executionID x c.phase c.text c.exitCode i.now w.mem)) = .error err)
          ∧ (runtimeCompleted cfg i c w).1 = w.setMem
              { w.mem with
                executions := w.mem.executions.insert c.executionID x,
                tunnels := w.mem.tunnels.invalidate x.id }) := by
  unfold runtimeCompleted
  split
  · exact .inl rfl
  rename_i hid
  split
  · exact .inl rfl
  rename_i x hx
  split
  · split <;> exact .inl rfl
  rename_i hlive
  refine .inr ⟨x, hid, hx, by simpa using hlive, ?_⟩
  dsimp only
  split
  next hp => exact .inl hp
  rename_i err hp
  refine .inr ⟨⟨err, hp⟩, ?_⟩
  show w.setMem { w.mem with
    executions := (w.mem.executions.insert c.executionID _).insert c.executionID x,
    tunnels := w.mem.tunnels.invalidate x.id } = _
  rw [AList.insert_insert]

theorem runtimeCompleted_effect (i : Input) (c : Completion) (w : World) :
    Effect cfg none i none w (runtimeCompleted cfg i c w).1 := by
  rcases runtimeCompleted_cases i c w with heq | ⟨x, -, hx, hlive, hp | ⟨-, heq⟩⟩
  · rw [heq]
    exact .kept (.same ⟨rfl, rfl⟩ ⟨rfl, rfl⟩)
  · exact .saved hp (.completed rfl hx hlive)
  · rw [heq]
    exact .kept (.uncompleted rfl hx)

theorem sweepExpired_effect (i : Input) (w : World) :
    Effect cfg none i none w (sweepExpired cfg i w) := by
  unfold sweepExpired
  split
  · exact .kept (.expired ⟨rfl, rfl⟩ i.now ⟨rfl, rfl⟩)
  · exact .tried (.expired ⟨rfl, rfl⟩ i.now ⟨rfl, rfl⟩)

-- ===== a step

theorem world_eq {α : Type} {r : World × α} {w' : World} {a : α} (h : some r = some (w', a)) :
    w' = r.1 := by
  cases h
  rfl

/-- The points that can lead to a start or a stop. -/
def Pc.launches : Pc cfg → Bool
  | .handling _ | .evicting _ _ => true
  | _ => false

variable {tid : Nat}

theorem advance_quiet (h : advance tid p i w = some (w', n)) (hp : p.launches = false) :
    Quiet ((some n : Option (Next cfg)).bind Next.pc) := by
  cases n with
  | ret | done => exact ⟨rfl, rfl⟩
  | goto p' =>
    have hsucc := advance_succ h
    cases hsucc
    case starting | stopping | evictStopping => cases hp
    all_goals exact ⟨rfl, rfl⟩

/-- Every section of every call. -/
theorem advance_effect (h : advance tid p i w = some (w', n)) :
    Effect cfg (some p) i (some n) w w' := by
  cases p with
  | received e =>
    rw [world_eq h, receive_world, effectiveNow_eq]
    exact .kept (.clock rfl rfl (advance_quiet h rfl))
  | dispatching e =>
    rw [world_eq h]
    exact beginReplay_effect tid i e w
  | waiting e owner =>
    change (if i.cancelled then some (w, _) else none) = some (w', n) at h
    split at h
    · cases h
      exact .kept (.same ⟨rfl, rfl⟩ ⟨rfl, rfl⟩)
    · cases h
  | handling e => exact handle_effect h
  | starting e id =>
    obtain ⟨r, hr, heq⟩ := Option.map_eq_some_iff.mp h
    cases heq
    exact assignFinish_effect hr
  | stopping e reason id previous detail =>
    obtain ⟨r, hr, heq⟩ := Option.map_eq_some_iff.mp h
    cases heq
    exact cancelFinish_effect hr
  | binding e q now =>
    rw [world_eq h]
    exact tunnelBind_effect e q now (advance_quiet h rfl) i w
  | finishing e reply =>
    rw [world_eq h]
    exact .tried (.answered rfl _)
  | evicting sweep err => exact evictRound_effect h
  | evictStopping sweep err id previous detail =>
    rw [world_eq h]
    exact evictFinish_effect sweep err id previous detail i w
  | collecting evictErr =>
    rw [world_eq h]
    exact sweepCollect_effect evictErr (advance_quiet h rfl) i w
  | cleaning pending err evictErr =>
    have hnext := advance_quiet h rfl
    cases pending with
    | nil =>
      rw [world_eq h]
      exact .kept (.same ⟨rfl, rfl⟩ hnext)
    | cons dead pending =>
      rw [world_eq h]
      exact clean_effect dead pending err evictErr hnext i w
  | recovering ids =>
    have hnext := advance_quiet h rfl
    cases ids <;>
    · rw [world_eq h]
      exact .kept (.same ⟨rfl, rfl⟩ hnext)
  | recoverStopping ids id phase detail =>
    rw [world_eq h]
    exact recoverStop_effect ids id phase detail (advance_quiet h rfl) i w
  | reattaching ids id =>
    rw [world_eq h]
    exact recoverReattached_effect ids id (advance_quiet h rfl) i w
  | tunnelGranting id peerKey =>
    rw [world_eq h]
    unfold grantSession
    split
    · exact .kept (.same ⟨rfl, rfl⟩ (advance_quiet h rfl))
    next hopen => exact .kept (.opened rfl hopen)
  | tunnelChecking id session =>
    rw [world_eq h]
    unfold recheckSession
    split
    · exact .kept (.same ⟨rfl, rfl⟩ (advance_quiet h rfl))
    next hdead => exact .kept (.rechecked rfl (by simpa using hdead))
  | logging | answered | scanning | tunnelOpening =>
    rw [world_eq h]
    exact .kept (.same ⟨rfl, rfl⟩ (advance_quiet h rfl))

/-- The point of the call a step runs. -/
def System.point (s : System cfg) : Label cfg → Option (Pc cfg)
  | .run tid _ => s.threads.lookup tid
  | _ => none

/-- What the environment decides in a step. -/
def Label.input : Label cfg → Input
  | .run _ i | .completed _ i | .expire i => i
  | _ => {}

variable {s t : System cfg}

theorem System.spawn_world (h : s.spawn tid p = some t) : t.world = s.world := by
  unfold System.spawn at h
  split at h
  case isTrue => cases h
  case isFalse =>
    cases h
    rfl

/-- Every step but a restart. -/
theorem step_effect {l : Label cfg} (hl : l.isRestart = false) (h : s.step l = some t) :
    ∃ next, Effect cfg (s.point l) l.input next s.world t.world := by
  cases l with
  | call | sweep | evictLeases | recover | openTunnel =>
    rw [System.spawn_world h]
    exact ⟨none, .kept (.same ⟨rfl, rfl⟩ ⟨rfl, rfl⟩)⟩
  | closeTunnel session =>
    cases h
    exact ⟨none, .kept (.closed rfl)⟩
  | run tid i =>
    obtain ⟨p, r, hp, hr, rfl⟩ := run_step h
    show ∃ next, Effect cfg (s.threads.lookup tid) i next s.world r.1
    rw [hp]
    exact ⟨_, advance_effect hr⟩
  | completed c i =>
    cases h
    exact ⟨none, runtimeCompleted_effect i c s.world⟩
  | expire i =>
    cases h
    exact ⟨none, sweepExpired_effect i s.world⟩
  | view now =>
    cases h
    exact ⟨none, .kept (.expired ⟨rfl, rfl⟩ now ⟨rfl, rfl⟩)⟩
  | restart granted now => cases hl

/-- A restart rebuilds the memory from the store and forgets the calls. -/
theorem restart_step {granted now : Int} (h : s.step (.restart granted now) = some t) :
    cfg.stored = true ∧
      (s.world.disk = none ∧ t.world.mem = .empty ∨
        ∃ snap, s.world.disk = some snap ∧ load cfg granted now snap = .ok t.world.mem) ∧
      t.world.disk = s.world.disk ∧ t.threads = ∅ := by
  simp only [System.step] at h
  split at h
  next hstored =>
    split at h
    next m hm =>
      cases h
      refine ⟨hstored, ?_, rfl, rfl⟩
      unfold restart at hm
      split at hm
      next hnone => exact .inl ⟨hnone, (Except.ok.inj hm).symm⟩
      next snap hsnap => exact .inr ⟨snap, hsnap, hm⟩
    · cases h
  · cases h

end R1s.Allocator
