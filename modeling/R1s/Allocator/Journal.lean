/-
A journal of the allocator's runs, kept beside them: who put an execution
into CANCELLING, how it ended, what the clock read where a lease was
judged, and which renewals were acknowledged.

# What is noted

A cancellation and an eviction commit CANCELLING before they ask the
runtime to stop; the journal notes the cause of the last committed
transition of each execution. When an execution ends, it notes the cause
whose stop ended it, or none when the task ended by itself. A round of
the eviction and a round of `Recover` read the clock once before they
judge a lease: the journal has the reading and the high-water mark of
that moment. A renewal's acknowledgement has an expiry, which stands until
another renewal changes the lease or the execution is collected.

# How the daemon calls

`serve` (cmd/r1sd/daemon.go) runs `Recover` before anything else and has
one loop of sweeps; `served` is that order.
-/
import R1s.Allocator.Proofs.Calls

namespace R1s.Allocator

variable {cfg : Config}

-- ===== the journal

/-- Who put an execution into CANCELLING. -/
inductive Cause
  | client
  | lease
deriving DecidableEq

/-- The clock at the moment a lease was judged. -/
structure Reading where
  now : Int
  mark : Int
deriving DecidableEq

structure Journal where
  /-- Of the last committed CANCELLING transition. -/
  causes : FMap GoString Cause
  /-- Of the stop that ended the execution. -/
  endings : FMap GoString (Option Cause)
  /-- By call. -/
  readings : FMap Nat Reading
  /-- The expiry last acknowledged. -/
  acks : FMap GoString Int

def Journal.empty : Journal := ⟨∅, ∅, ∅, ∅⟩

/-- The lease is over at `now`. -/
def ExecutionRecord.lapsed (now : Int) (x : ExecutionRecord) : Prop :=
  x.leaseUntil ≠ 0 ∧ x.leaseUntil ≤ now

instance (now : Int) (x : ExecutionRecord) : Decidable (x.lapsed now) :=
  inferInstanceAs (Decidable (_ ∧ _))

/-- The lease was over when the call judged it. -/
def Journal.found (j : Journal) (tid : Nat) (x : ExecutionRecord) : Bool :=
  (j.readings.lookup tid).any fun r => x.lapsed (max r.now r.mark)

-- ===== the notes

/-- The execution the call has committed to stop, and why. -/
def Pc.stopCause : Pc cfg → Option (GoString × Cause)
  | .stopping _ _ id _ _ => some (id, .client)
  | .evictStopping _ _ id _ _ => some (id, .lease)
  | _ => none

/-- The call has judged a lease and waits for the stop. -/
def Pc.judged : Pc cfg → Bool
  | .evictStopping .. | .recoverStopping .. => true
  | _ => false

/-- The execution whose runtime call the section concludes. -/
def Pc.concludes : Pc cfg → Option GoString
  | .starting _ id | .stopping _ _ id _ _ | .evictStopping _ _ id _ _
  | .recoverStopping _ id _ _ | .reattaching _ id => some id
  | _ => none

/-- The cause of an end at `pc`: `Recover` goes on with a stop that was
committed, or finds the lease over. -/
def Journal.endCause (j : Journal) (tid : Nat) (id : GoString) (x : ExecutionRecord) :
    Pc cfg → Option Cause
  | .stopping .. | .evictStopping .. => j.causes.lookup id
  | .recoverStopping .. =>
    if x.phase = .cancelling then j.causes.lookup id
    else if j.found tid x then some .lease
    else none
  | _ => none

/-- The endings after a step in which `id` may have ended. -/
def Journal.closed (j : Journal) (m m' : Mem) (id : GoString)
    (cause : ExecutionRecord → Option Cause) : FMap GoString (Option Cause) :=
  match m.executions.lookup id, m'.executions.lookup id with
  | some x, some x' =>
    if x.phase.terminal = false ∧ x'.phase.terminal = true then
      j.endings.insert id (cause x)
    else j.endings
  | _, _ => j.endings

/-- The acknowledgement of a renewal among the responses. -/
def Reply.leaseAck (r : Reply) : Option ExecutionLeaseRenewAck :=
  r.responses.findSome? fun e =>
    match e.payload with
    | some (.executionLeaseRenewAck ack) => some ack
    | _ => none

/-- The acknowledged expiries after the renewal `q` was handled with
`next`. -/
def Journal.renewed (j : Journal) (m m' : Mem) (q : ExecutionLeaseRenew)
    (next : Option (Pc cfg)) : FMap GoString Int :=
  match next with
  | some (.finishing _ reply) =>
    match reply.leaseAck with
    | some ack => j.acks.insert q.executionID (asTime ack.expiresAt)
    | none =>
      if (m'.executions.lookup q.executionID).map ExecutionRecord.leaseUntil
          = (m.executions.lookup q.executionID).map ExecutionRecord.leaseUntil then j.acks
      else j.acks.erase q.executionID
  | _ => j.acks

/-- The renewal a call is about to handle. -/
def Pc.renews : Pc cfg → Option ExecutionLeaseRenew
  | .handling e =>
    match e.1.payload with
    | some (.executionLeaseRenew q) => some q
    | _ => none
  | _ => none

/-- The notes of a section of the call `tid`, from `pc` to `next`. -/
def Journal.turn (j : Journal) (m m' : Mem) (tid : Nat) (i : Input) (pc : Pc cfg)
    (next : Option (Pc cfg)) : Journal where
  causes :=
    match next.bind Pc.stopCause with
    | some (id, cause) => j.causes.insert id cause
    | none => j.causes
  endings :=
    match pc.concludes with
    | some id => j.closed m m' id fun x => j.endCause tid id x pc
    | none => j.endings
  readings :=
    if next.any Pc.judged then j.readings.insert tid ⟨i.now, m.highWater⟩ else j.readings
  acks :=
    match pc.renews with
    | some q => j.renewed m m' q next
    | none => j.acks

/-- The expiries of executions that are gone are dropped. -/
def Journal.trim (j : Journal) (m : Mem) : Journal :=
  { j with acks := j.acks.keep fun id _ => (m.executions.lookup id).isSome }

/-- The notes of a step. -/
def Journal.note (s : System cfg) (l : Label cfg) (t : System cfg) (j : Journal) : Journal :=
  let noted :=
    match l with
    | .run tid i =>
      match s.threads.lookup tid with
      | some pc => j.turn s.world.mem t.world.mem tid i pc (t.threads.lookup tid)
      | none => j
    | .completed c _ =>
      { j with
        endings := j.closed s.world.mem t.world.mem c.executionID fun _ => none }
    | _ => j
  noted.trim t.world.mem

variable (cfg)

/-- The allocator beside its journal. -/
def journaled : TransitionSystem (System cfg × Journal) (Label cfg) :=
  (machine cfg).observe .empty Journal.note

variable {cfg}

-- ===== how the daemon calls

/-- The points of a sweep. -/
def Pc.sweeps : Pc cfg → Bool
  | .evicting _ _ | .evictStopping .. | .collecting _ | .cleaning .. => true
  | _ => false

def System.recovering (s : System cfg) : Bool := s.threads.any fun _ pc => pc.recovers

def System.sweeping (s : System cfg) : Bool := s.threads.any fun _ pc => pc.sweeps

/-- `Recover` is called when nothing else is in progress and no command
and no sweep enters before it has returned; there is one sweep at a
time. -/
def System.served (s : System cfg) : Label cfg → Bool
  | .call _ _ => !s.recovering
  | .sweep _ | .evictLeases _ => !s.recovering && !s.sweeping
  | .recover _ => s.threads.entries.isEmpty
  | _ => true

/-- The reason of a cancellation is not the text an eviction leaves. -/
def plainReason (e : Envelope) : Bool :=
  match e.payload with
  | some (.executionCancel q) => q.reason ≠ leaseExpiredDetail
  | _ => true

/-- Commands of which `plainReason` holds. -/
def Label.plainReason : Label cfg → Bool
  | .call _ e => Allocator.plainReason e.1
  | _ => true

/-- The daemon's order of calls, and reasons other than the eviction's
text. -/
abbrev scheduled (s : System cfg × Journal) (l : Label cfg) : Prop :=
  s.1.served l = true ∧ l.plainReason = true

/-- The runtime does not report the text an eviction leaves. -/
def Label.plainReport : Label cfg → Bool
  | .run _ i => i.fault.all fun f => f.text ≠ leaseExpiredDetail
  | .completed c _ => c.text ≠ leaseExpiredDetail
  | _ => true

/-- Where a lease is judged the clock does not read less than the
high-water mark. -/
def System.onTime (s : System cfg) : Label cfg → Bool
  | .run tid i =>
    match s.threads.lookup tid with
    | some (.evicting _ _) | some (.recovering (_ :: _)) => s.world.mem.highWater ≤ i.now
    | _ => true
  | _ => true

end R1s.Allocator
