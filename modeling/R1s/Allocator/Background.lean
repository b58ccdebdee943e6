/-
What the allocator does without a command (`internal/allocator`:
eviction.go, retention.go, recovery.go, runtime_bridge.go, views.go):
lease eviction, the retention sweep, recovery after a restart, runtime
completions and the expiry of offers on reads.
-/
import R1s.Allocator.Commands

namespace R1s.Allocator

variable (cfg : Config)

-- ===== eviction

/-- The test of `nextExpiredLeaseLocked`. -/
def ExecutionRecord.leaseExpired (now : Int) (r : ExecutionRecord) : Bool :=
  !r.phase.terminal && r.phase ≠ .cancelling && r.leaseUntil ≠ 0 && !(now < r.leaseUntil)

/-- How a round of `EvictExpiredLeases` ends. -/
inductive EvictOutcome
  | idle
  | failed (err : GoErr)
  | stop (id : GoString) (previousPhase : ActivePhase) (previousDetail : GoString)

/-- A round of `EvictExpiredLeases` up to the runtime's stop. The map
iteration meets `i.pick` first among the expired leases: there is no such
round when `i.pick` is not one of them. -/
def evictBegin (i : Input) (w : World) : Option (World × EvictOutcome) :=
  let w := w.setMem (effectiveNow i.now w.mem)
  let now := w.mem.highWater
  if w.mem.executions.any fun _ r => r.leaseExpired now then
    match w.mem.executions.lookup i.pick with
    | none => none
    | some r =>
      if h : r.leaseExpired now = true then
        if i.cancelled then some (w, .failed ⟨[], text "context canceled"⟩)
        else
          match beginStop cfg i i.pick r leaseExpiredDetail now w with
          | .error (w', err) => some (w', .failed err)
          | .ok w' =>
            have hactive : r.phase.terminal = false ∧ r.phase ≠ .cancelling := by
              simp only [ExecutionRecord.leaseExpired, Bool.and_eq_true,
                Bool.not_eq_true', decide_eq_true_eq] at h
              exact ⟨h.1.1.1, h.1.1.2⟩
            some (w', .stop i.pick ⟨r.phase, hactive⟩ r.detail)
      else none
  else some (w, .idle)

/-- `completeEviction` after the runtime's stop: the error it returns. A
missing task counts as stopped. -/
def evictFinish (i : Input) (id : GoString) (previousPhase : ActivePhase)
    (previousDetail : GoString) (w : World) : World × Option GoErr :=
  match w.mem.executions.lookup id with
  | none => (w, none)
  | some current =>
    match i.fault.filter fun f => !f.err.is .runtimeMissing with
    | some f =>
      let (w, persistErr) := tryPersist cfg i.saved
        (w.setMem (stopFailed i id current previousPhase previousDetail w.mem))
      (w, joinErrs [some Sentinel.runtimeStop.err, some f.err, persistErr])
    | none =>
      tryPersist cfg i.saved
        (w.setMem (stopSucceeded cfg i.now id current .failed leaseExpiredDetail w.mem))

-- ===== retention

/-- The request a replay entry in flight keeps busy. -/
def busyKey (m : Mem) (e : Envelope) : Option GoString :=
  match e.payload with
  | some (.executionRequest q) => some (authorityKey e.sender q.requestID)
  | some (.executionAssign q) => some (authorityKey e.sender q.requestID)
  | some (.executionCancel q) =>
    (m.executions.lookup q.executionID).map fun r =>
      authorityKey r.client r.request.requestID
  | _ => none

/-- The requests of the commands in flight. -/
def busyKeys (m : Mem) : List GoString :=
  m.replay.entries.filterMap fun entry =>
    if entry.2.done then none else busyKey m entry.2.envelope

/-- The offer's request key. -/
def OfferRecord.key (r : OfferRecord) : GoString := authorityKey r.client r.offer.requestID

/-- The offer's lifetime is over at `now`. -/
def OfferRecord.collectable (now : Int) (executions : FMap GoString ExecutionRecord)
    (r : OfferRecord) : Bool :=
  match r.status with
  | .expired | .released => true
  | .assigned =>
    (executions.lookup r.execution).any fun x => x.phase.terminal && !(now < x.retainUntil)
  | .outstanding => false

/-- The tombstone a collected offer leaves. -/
def buryOffer (now : Int) (id : GoString) (r : OfferRecord) : Tombstone where
  client := r.client
  requestID := r.offer.requestID
  offerID := id
  executionID := r.execution
  expiresAt := now + commandHorizon
  cleanupPending := r.execution ≠ []

/-- One round of the collection loop of `Sweep`. -/
def collectOffer (now : Int) (busy : List GoString) (m : Mem)
    (entry : Σ _ : GoString, OfferRecord) : Mem :=
  if busy.contains entry.2.key || !entry.2.collectable now m.executions then m
  else
    { m with
      tombstones := m.tombstones.insert entry.1 (buryOffer now entry.1 entry.2),
      offers := m.offers.erase entry.1,
      requests := m.requests.erase entry.2.key,
      executions := m.executions.erase entry.2.execution }

/-- A finished replay entry whose subject is gone. -/
def retiredReplay (retired : List GoString) (executions : FMap GoString ExecutionRecord)
    (e : Envelope) : Bool :=
  match e.payload with
  | some (.executionRequest q) => retired.contains (authorityKey e.sender q.requestID)
  | some (.executionAssign q) => retired.contains (authorityKey e.sender q.requestID)
  | some (.executionCancel q) => (executions.lookup q.executionID).isNone
  | some (.executionInspect q) => (executions.lookup q.executionID).isNone
  | some (.executionLeaseRenew q) => (executions.lookup q.executionID).isNone
  | some (.executionTunnelOpen q) => (executions.lookup q.executionID).isNone
  | _ => false

/-- The offers `Sweep` is about to look at: the clock is advanced, offers
are expired and the cache is pruned. -/
def sweepReady (now : Int) (m : Mem) : Mem :=
  let m := effectiveNow now m
  let m := expireOffers m.highWater m
  { m with replay := prune cfg m.highWater m.replay }

/-- The state after the collection loop of `Sweep`. -/
def sweepCollected (m : Mem) : Mem :=
  m.offers.entries.foldl (collectOffer m.highWater (busyKeys m)) m

/-- The state `Sweep` saves: elapsed tombstones and the replay entries of
what is gone are dropped. -/
def sweepDropped (m : Mem) : Mem :=
  let retired := m.tombstones.entries.map fun e => authorityKey e.2.client e.2.requestID
  { m with
    tombstones := m.tombstones.keep fun _ t => t.cleanupPending || m.highWater < t.expiresAt,
    replay := m.replay.keep fun _ entry =>
      !entry.done || !retiredReplay retired m.executions entry.envelope }

/-- The collection pass of `Sweep`. A failed save restores every map, the
ledger and the clock; otherwise the tombstones whose logs and runtime
bookkeeping remain are returned. -/
def sweepCollect (i : Input) (w : World) : World × Except GoErr (List Tombstone) :=
  let m := sweepDropped (sweepCollected (sweepReady cfg i.now w.mem))
  match persist cfg i.saved (w.setMem m) with
  | .error err => (w, .error err)
  | .ok w' => (w', .ok ((m.tombstones.entries.map Sigma.snd).filter Tombstone.cleanupPending))

/-- A zero `tombstone`, which a Go map read at an absent key gives. -/
def Tombstone.zero : Tombstone := ⟨[], [], [], [], 0, false⟩

/-- The end of `Sweep` for one pending tombstone whose cleanup went
through. -/
def sweepCleanup (i : Input) (dead : Tombstone) (w : World) : World × Option GoErr :=
  let m := w.mem
  let current := (m.tombstones.lookup dead.offerID).getD .zero
  let cleaned : Mem :=
    { m with
      tombstones := m.tombstones.insert dead.offerID { current with cleanupPending := false } }
  match persist cfg i.saved (w.setMem cleaned) with
  | .ok w' => (w', none)
  | .error err =>
    (w.setMem { cleaned with tombstones := cleaned.tombstones.insert dead.offerID dead },
      some err)

-- ===== completions

/-- `runtime.Completion`. -/
structure Completion where
  executionID : GoString
  err : Option Fault
  detail : GoString
  exitCode : Option Int
deriving DecidableEq

def Completion.phase (c : Completion) : ExecutionPhase :=
  if c.err.isSome then .failed else .completed

def Completion.text (c : Completion) : GoString :=
  match c.err with
  | some f => if c.detail = [] then f.text else c.detail
  | none => c.detail

/-- `RuntimeCompleted`. -/
def runtimeCompleted (i : Input) (c : Completion) (w : World) : World × Option GoErr :=
  if c.executionID = [] then
    (w, some (Sentinel.invalidTransition.wrap (R1s.text "execution ID is required")))
  else
    match w.mem.executions.lookup c.executionID with
    | none => (w, some (Sentinel.executionNotFound.wrap (quote c.executionID)))
    | some record =>
      if record.phase.terminal then
        if record.phase = c.phase then (w, none)
        else
          (w, some (Sentinel.invalidTransition.wrap
            (R1s.text "execution " ++ quote record.id ++ R1s.text " is already "
              ++ phaseName record.phase)))
      else
        let m := w.mem
        let done := finish cfg c.executionID record c.phase c.text c.exitCode i.now m
        match persist cfg i.saved (w.setMem done) with
        | .ok w' => (w', none)
        | .error err =>
          -- The record and the ledger come back; the tunnel stays closed.
          (w.setMem
            { done with
              executions := done.executions.insert c.executionID record,
              used := m.used }, some err)

-- ===== recovery

/-- The executions `Recover` visits. -/
def recoverIDs (m : Mem) : List GoString :=
  (m.executions.keep fun _ r => !r.phase.terminal).keys.insertionSort fun a b => ¬b < a

/-- What `Recover` does with one execution. -/
inductive RecoverOutcome
  | skip
  | stop (phase : EndPhase) (detail : GoString)
  | reattach
deriving DecidableEq

/-- The first section of `Recover` for one execution. -/
def recoverBegin (now : Int) (id : GoString) (m : Mem) : RecoverOutcome :=
  match m.executions.lookup id with
  | none => .skip
  | some r =>
    if r.phase.terminal then .skip
    else if r.phase = .cancelling then
      .stop (if r.detail = leaseExpiredDetail then ⟨.failed, rfl⟩ else ⟨.cancelled, rfl⟩)
        r.detail
    else if r.leaseUntil ≠ 0 ∧ ¬now < r.leaseUntil then
      .stop ⟨.failed, rfl⟩ leaseExpiredDetail
    else .reattach

/-- `Recover` after a stop that went through or found no task. -/
def recoverStopped (i : Input) (id : GoString) (phase : ExecutionPhase) (detail : GoString)
    (w : World) : World × Option GoErr :=
  tryPersist cfg i.saved
    (match w.mem.executions.lookup id with
      | none => w
      | some current => w.setMem (stopSucceeded cfg i.now id current phase detail w.mem))

/-- `Recover` after the runtime reattached the task, or found it missing
or different. -/
def recoverReattached (i : Input) (id : GoString) (w : World) : World × Option GoErr :=
  match i.fault with
  | none =>
    tryPersist cfg i.saved
      (match w.mem.executions.lookup id with
        | none => w
        | some current =>
          if current.phase = .starting then
            w.setMem (w.mem.setExecution id
              { current with
                phase := .running, occurredAt := i.now, revision := current.revision + 1 })
          else w)
  | some f =>
    if f.err.is .runtimeMissing || f.err.is .runtimeConflict then
      tryPersist cfg i.saved
        (match w.mem.executions.lookup id with
          | none => w
          | some current => w.setMem (stopSucceeded cfg i.now id current .failed f.text w.mem))
    else (w, joinErrs [some Sentinel.runtimeStart.err, some f.err])

-- ===== views

/-- `SweepExpired`: a save is tried only when an offer expired, and its
failure is ignored. -/
def sweepExpired (i : Input) (w : World) : World :=
  let w' := w.setMem (expireOffers i.now w.mem)
  if expiredCount i.now w.mem = 0 then w' else (tryPersist cfg i.saved w').1

end R1s.Allocator
