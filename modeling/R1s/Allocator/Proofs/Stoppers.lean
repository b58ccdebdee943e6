/-
Who stops an execution: between the section that judges an execution and
the one that ends it stands one call, and the record waits for it.

# Waiting records

A call that stands before a stop found a record to stop (`Fits`). Until
the stop answers the record stays as it is or ends: commands and evictions
pass over CANCELLING records, a renewal refuses them, a sweep passes over
the record of a cancellation in flight, and a sweep in an eviction is the
only one.

# Causes

A CANCELLING record, in memory or saved, has the cause of its last
committed transition (`Attributed`), and its detail tells which it was: an
eviction leaves its own text, and no client gave that text as a reason.
-/
import R1s.Allocator.Journal
import R1s.Allocator.Proofs.Pairing
import R1s.Allocator.Proofs.Responses

namespace R1s.Allocator

variable {cfg : Config} {s t : System cfg} {j : Journal} {w w' : World} {i : Input}

-- ===== the clock

variable {m m' : Mem}

/-- No update sets the high-water mark back. -/
theorem Update.clock_le {pc : Option (Pc cfg)} (h : Update cfg pc i m m') :
    m.highWater ≤ m'.highWater := by
  cases h
  case clock => exact le_max_left _ _
  case swept =>
    rw [swept_highWater]
    exact le_max_left _ _
  all_goals exact le_refl _

variable {l : Label cfg}

theorem step_clock_le (hl : l.isRestart = false) (h : s.step l = some t) :
    s.world.mem.highWater ≤ t.world.mem.highWater :=
  (step_changes hl h).invariant (I := fun m => s.world.mem.highWater ≤ m.highWater)
    (fun _ _ hu hm => le_trans hm hu.clock_le) (le_refl _)

-- ===== the calls

/-- The execution a call is about to stop. -/
def Pc.stopsOn : Pc cfg → Option GoString
  | .stopping _ _ id _ _ | .evictStopping _ _ id _ _ | .recoverStopping _ id _ _ => some id
  | _ => none

/-- The points of `OpenTunnelSession`. -/
def Pc.tunnels : Pc cfg → Bool
  | .tunnelOpening _ _ | .tunnelGranting _ _ | .tunnelChecking _ _ => true
  | _ => false

variable {pc' : Pc cfg}

variable {pc : Pc cfg}

theorem Pc.Succ.tunnels (h : pc.Succ pc') : pc'.tunnels = pc.tunnels := by
  cases h <;> rfl

theorem Pc.Succ.sweeps (h : pc.Succ pc') : pc'.sweeps = pc.sweeps := by
  cases h <;> rfl

variable {id : GoString}

theorem stopsOn_of_stopOf {previous : ActivePhase}
    (h : pc.stopOf = some (id, previous)) : pc.stopsOn = some id ∧ pc.recovers = false := by
  cases pc <;> cases h <;> exact ⟨rfl, rfl⟩

theorem stopOf_of_stopsOn (h : pc.stopsOn = some id) (hpc : pc.recovers = false) :
    ∃ previous, pc.stopOf = some (id, previous) := by
  cases pc <;> cases h
  case recoverStopping => cases hpc
  all_goals exact ⟨_, rfl⟩

/-- What the record of a call before a stop is, if it has not ended. -/
def Fits (j : Journal) (tid : Nat) (x : ExecutionRecord) : Pc cfg → Prop
  | .stopping _ _ id _ _ => x.phase = .cancelling ∧ j.causes.lookup id = some .client
  | .evictStopping _ _ id _ _ =>
    x.phase = .cancelling ∧ j.causes.lookup id = some .lease ∧ j.found tid x = true
  | .recoverStopping _ id phase detail =>
    x.phase = .cancelling ∧ detail = x.detail
        ∧ phase.1 = (if x.detail = leaseExpiredDetail then .failed else .cancelled)
        ∧ (j.causes.lookup id = some .lease → j.found tid x = true)
      ∨ x.phase ≠ .cancelling ∧ phase.1 = .failed ∧ detail = leaseExpiredDetail
        ∧ j.found tid x = true
  | _ => True

variable {j' : Journal} {tid : Nat}

theorem found_congr (h : j'.readings.lookup tid = j.readings.lookup tid) (x : ExecutionRecord) :
    j'.found tid x = j.found tid x := by
  rw [Journal.found, Journal.found, h]

variable {x : ExecutionRecord}

/-- The clause is about the cause and the reading of the call. -/
theorem Fits.congr (hid : pc.stopsOn = some id) (hcauses : j'.causes.lookup id = j.causes.lookup id)
    (hreadings : j'.readings.lookup tid = j.readings.lookup tid) (h : Fits j tid x pc) :
    Fits j' tid x pc := by
  have hfound := found_congr hreadings x
  cases pc with
  | stopping e reason id' previous detail =>
    cases hid
    exact ⟨h.1, hcauses.trans h.2⟩
  | evictStopping sweep err id' previous detail =>
    cases hid
    exact ⟨h.1, hcauses.trans h.2.1, hfound.trans h.2.2⟩
  | recoverStopping ids id' phase detail =>
    cases hid
    rcases h with ⟨hphase, hdetail, hend, hlease⟩ | ⟨hphase, hend, hdetail, hlease⟩
    · refine .inl ⟨hphase, hdetail, hend, fun hcause => ?_⟩
      rw [hfound]
      exact hlease (hcauses.symm.trans hcause)
    · exact .inr ⟨hphase, hend, hdetail, hfound.trans hlease⟩
  | _ => cases hid

/-- A record that a cancellation or an eviction waits for is not
active. -/
theorem Fits.inactive (h : Fits j tid x pc) (hid : pc.stopsOn = some id)
    (hpc : pc.recovers = false) : x.phase = .cancelling := by
  cases pc with
  | stopping | evictStopping => exact h.1
  | recoverStopping => cases hpc
  | _ => cases hid

variable {clock : Int} {k : GoString} {next : Next cfg}

/-- A call of `OpenTunnelSession` touches no record. -/
theorem Turn.tunnels {o o' : Option ExecutionRecord}
    (h : Turn pc i next clock w' k o o') (hpc : pc.tunnels = true) : o' = o := by
  cases h with
  | same h => rfl
  | unstopped hstop hfails => cases pc <;> cases hpc <;> cases hstop
  | assigned hat | started hat | cancelled hactive hat | evicted hactive hat | stopped hat
  | evictStopped hat | recoverStopped hat | lost hat | reattached hat | renewed hat
  | collected hat =>
    subst hat
    cases hpc

/-- A record that a cancellation or an eviction in progress waits for
stays as it is or ends, unless it is this call that stops it or a sweep
that collects it. -/
theorem Turn.waiting {o' : Option ExecutionRecord} (h : Turn pc i next clock w' k (some x) o')
    (hx : x.phase.terminal = true ∨ x.phase = .cancelling)
    (hstop : ∀ previous, pc.stopOf = some (k, previous) → x.phase.terminal = true)
    (hkept : ∀ err, pc ≠ .collecting err) :
    ∃ x', o' = some x' ∧ (x'.phase.terminal = true ∨ x' = x) := by
  have hstarting : x.phase ≠ .starting := by
    intro heq
    rw [heq] at hx
    rcases hx with hend | hcancelling
    · cases hend
    · cases hcancelling
  have hinactive : ¬(x.phase.terminal = false ∧ x.phase ≠ .cancelling) := by
    rintro ⟨hlive, hnot⟩
    rcases hx with hend | hcancelling
    · rw [hend] at hlive
      cases hlive
    · exact hnot hcancelling
  cases h with
  | same h => exact ⟨x, rfl, .inr rfl⟩
  | started hpc =>
    refine ⟨x, ?_, .inr rfl⟩
    rw [startedRecord, if_neg hstarting]
  | cancelled hactive | evicted hactive | renewed hpc hq hk hclient hactive =>
    exact absurd hactive hinactive
  | unstopped hpc hfails =>
    have hend := hstop _ hpc
    refine ⟨x, ?_, .inr rfl⟩
    rw [Allocator.unstopped, if_neg]
    intro heq
    rw [heq] at hend
    cases hend
  | stopped hpc hok => exact ⟨_, rfl, .inl (stopped_terminal ⟨.cancelled, rfl⟩)⟩
  | evictStopped | lost => exact ⟨_, rfl, .inl (stopped_terminal ⟨.failed, rfl⟩)⟩
  | @recoverStopped ids phase detail x hpc => exact ⟨_, rfl, .inl (stopped_terminal phase)⟩
  | reattached hpc hphase => exact absurd hphase hstarting
  | collected hpc => exact absurd hpc (hkept _)

-- ===== the causes

/-- Every CANCELLING record has its cause, and its detail tells which: an
eviction leaves its own text on a record whose lease is over. -/
def Attributed (j : Journal) (m : Mem) : Prop :=
  ∀ k x, m.executions.lookup k = some x → x.phase = .cancelling →
    j.causes.lookup k = some .client ∧ x.detail ≠ leaseExpiredDetail ∨
    j.causes.lookup k = some .lease ∧ x.detail = leaseExpiredDetail ∧ x.lapsed m.highWater

variable {now : Int}

theorem ExecutionRecord.lapsed_mono {now' : Int} (h : x.lapsed now) (hle : now ≤ now') :
    x.lapsed now' :=
  ⟨h.1, le_trans h.2 hle⟩

theorem ExecutionRecord.lapsed_of_leaseExpired (h : x.leaseExpired now = true) : x.lapsed now := by
  simp only [ExecutionRecord.leaseExpired, Bool.and_eq_true, Bool.not_eq_true',
    decide_eq_true_eq, decide_eq_false_iff_not, not_lt] at h
  exact ⟨h.1.2, h.2⟩

/-- The clause is about the causes, the records and the clock. -/
theorem Attributed.congr (h : Attributed j m) (hcauses : j'.causes = j.causes)
    (hrecords : m'.executions = m.executions) (hclock : m.highWater ≤ m'.highWater) :
    Attributed j' m' := by
  intro k x hx hphase
  rw [hrecords] at hx
  rw [hcauses]
  rcases h k x hx hphase with hclient | ⟨hlease, hdetail, hlapsed⟩
  · exact .inl hclient
  · exact .inr ⟨hlease, hdetail, ExecutionRecord.lapsed_mono hlapsed hclock⟩

/-- A saved state comes back with its causes. -/
theorem Attributed.load {s₀ : System cfg} (hs₀ : (machine cfg).Reach s₀) {saved : SaveIn}
    {granted : Int} (h : Attributed j s₀.world.mem) (hstored : cfg.stored = true)
    (hload : load cfg granted now (snapshot cfg saved s₀.world.mem) = .ok m) : Attributed j m := by
  intro k x hx hphase
  rw [lookup_load_executions hs₀ hstored hload] at hx
  obtain ⟨x₀, hx₀, rfl⟩ := Option.map_eq_some_iff.mp hx
  rcases h k x₀ hx₀ hphase with ⟨hclient, hdetail⟩ | ⟨hlease, hdetail, hlapsed⟩
  · refine .inl ⟨hclient, ?_⟩
    intro heq
    exact hdetail (Utf8.eq_of_replaceInvalid_ascii heq (by decide +kernel))
  · refine .inr ⟨hlease, ?_, ?_⟩
    · show Utf8.replaceInvalid x₀.detail = leaseExpiredDetail
      rw [hdetail]
      decide
    · rw [load_highWater hload]
      have hkept : (x₀.save.restore cfg granted).leaseUntil = x₀.leaseUntil :=
        if_neg fun hzero => hlapsed.1 hzero.2
      exact ⟨hkept ▸ hlapsed.1, hkept ▸ hlapsed.2⟩

-- ===== the notes

theorem note_run (hpc : s.threads.lookup tid = some pc) (r : World × Next cfg) :
    j.note s (.run tid i) (s.resume tid pc i r)
      = (j.turn s.world.mem r.1.mem tid i pc r.2.pc).trim r.1.mem := by
  simp only [Journal.note, hpc, resume_self]
  rfl

theorem turn_causes_other {next : Option (Pc cfg)}
    (h : ∀ cause, next.bind Pc.stopCause ≠ some (id, cause)) :
    (j.turn m m' tid i pc next).causes.lookup id = j.causes.lookup id := by
  unfold Journal.turn
  dsimp only
  split
  next id' cause heq =>
    rw [AList.lookup_insert_if, if_neg]
    rintro rfl
    exact h cause heq
  · rfl

variable {cause : Cause}

theorem turn_causes_at {next : Option (Pc cfg)} (h : next.bind Pc.stopCause = some (id, cause)) :
    (j.turn m m' tid i pc next).causes.lookup id = some cause := by
  unfold Journal.turn
  rw [h]
  exact AList.lookup_insert _

variable {tid' : Nat}

theorem turn_readings_other {next : Option (Pc cfg)} (h : tid' ≠ tid) :
    (j.turn m m' tid i pc next).readings.lookup tid' = j.readings.lookup tid' := by
  show (if next.any Pc.judged then j.readings.insert tid ⟨i.now, m.highWater⟩
    else j.readings).lookup tid' = _
  split
  · exact AList.lookup_insert_ne h
  · rfl

/-- A call that has just judged a lease found it over if it was. -/
theorem turn_found {next : Option (Pc cfg)} (h : next.any Pc.judged = true)
    (hx : x.lapsed (max i.now m.highWater)) : (j.turn m m' tid i pc next).found tid x = true := by
  show ((if next.any Pc.judged then j.readings.insert tid ⟨i.now, m.highWater⟩
    else j.readings).lookup tid).any _ = true
  rw [if_pos h, AList.lookup_insert]
  exact decide_eq_true hx

theorem stopCause_of_stopOf (h : pc.stopCause = some (id, cause)) :
    ∃ previous, pc.stopOf = some (id, previous) := by
  cases pc <;> cases h <;> exact ⟨_, rfl⟩

theorem stopOf_stopCause {previous : ActivePhase}
    (h : pc.stopOf = some (id, previous)) : ∃ cause, pc.stopCause = some (id, cause) := by
  cases pc <;> cases h <;> exact ⟨_, rfl⟩

-- ===== the invariant

/-- The point, unless the call waits for another's answer or has it. -/
def Pc.settled : Pc cfg → Option (Pc cfg)
  | .waiting _ _ | .answered _ _ => none
  | pc => some pc

variable {r : World × Next cfg}

theorem resume_settled {t : Nat} (ht : t ≠ tid)
    (h : (s.resume tid pc i r).threads.lookup t = some pc') (hpc' : pc'.settled = some pc') :
    s.threads.lookup t = some pc' := by
  have hsame := resume_other Pc.settled (fun _ _ _ => rfl) s ht pc i r
  rw [h] at hsame
  obtain ⟨pc₀, hpc₀, hset⟩ := Option.bind_eq_some_iff.mp (hsame.symm.trans hpc')
  cases pc₀ <;> cases hset <;> exact hpc₀

theorem settled_of_stopsOn (h : pc.stopsOn = some id) : pc.settled = some pc := by
  cases pc <;> first | rfl | cases h

/-- What kind of call it is. -/
def Pc.kind (pc : Pc cfg) : Option (Bool × Bool × Bool) :=
  some (pc.recovers, pc.tunnels, pc.sweeps)

/-- The calls after a section are of the kinds they were. -/
theorem resume_kind {t : Nat} (hpc : s.threads.lookup tid = some pc)
    (hr : advance tid pc i s.world = some r)
    (h : (s.resume tid pc i r).threads.lookup t = some pc') :
    ∃ pc₀, s.threads.lookup t = some pc₀ ∧ pc'.recovers = pc₀.recovers
      ∧ pc'.tunnels = pc₀.tunnels ∧ pc'.sweeps = pc₀.sweeps := by
  by_cases ht : t = tid
  · subst ht
    rw [resume_self] at h
    obtain ⟨w', next⟩ := r
    cases Next.pc_eq_some.mp h
    have hsucc := advance_succ hr
    exact ⟨pc, hpc, hsucc.recovers, hsucc.tunnels, hsucc.sweeps⟩
  · have hsame := resume_other Pc.kind (fun _ _ _ => rfl) s ht pc i r
    rw [h] at hsame
    obtain ⟨pc₀, hpc₀, hkind⟩ := Option.bind_eq_some_iff.mp hsame.symm
    have hkinds := Option.some.inj hkind
    simp only [Prod.mk.injEq] at hkinds
    exact ⟨pc₀, hpc₀, hkinds.1.symm, hkinds.2.1.symm, hkinds.2.2.symm⟩

/-- At most one call is a sweep. -/
def SoleSweep (s : System cfg) : Prop :=
  ∀ ⦃tid tid' pc pc'⦄, s.threads.lookup tid = some pc → pc.sweeps = true →
    s.threads.lookup tid' = some pc' → pc'.sweeps = true → tid' = tid

theorem SoleSweep.run (h : SoleSweep s) (hpc : s.threads.lookup tid = some pc)
    (hr : advance tid pc i s.world = some r) : SoleSweep (s.resume tid pc i r) := by
  intro tid₁ tid₂ pc₁ pc₂ hpc₁ hsweeps₁ hpc₂ hsweeps₂
  obtain ⟨pc₁', hpc₁', -, -, hkind₁⟩ := resume_kind hpc hr hpc₁
  obtain ⟨pc₂', hpc₂', -, -, hkind₂⟩ := resume_kind hpc hr hpc₂
  exact h hpc₁' (hkind₁.symm.trans hsweeps₁) hpc₂' (hkind₂.symm.trans hsweeps₂)

/-- Every stop in progress has its record. -/
structure Attended (s : System cfg) (j : Journal) : Prop where
  plain : ∀ {tid e}, (s.threads.lookup tid).bind Pc.command = some e →
    plainReason e.1 = true
  /-- Beside `Recover` only tunnel sessions are opened. -/
  alone : ∀ {tid tid' pc pc'}, s.threads.lookup tid = some pc → pc.recovers = true →
    s.threads.lookup tid' = some pc' → tid' ≠ tid → pc'.tunnels = true
  single : SoleSweep s
  asked : ∀ {tid e reason id previous detail},
    s.threads.lookup tid = some (.stopping e reason id previous detail) →
    ∃ q, e.1.payload = some (.executionCancel q) ∧ q.executionID = id
  waits : ∀ {tid pc id}, s.threads.lookup tid = some pc → pc.stopsOn = some id →
    ∃ x, s.world.mem.executions.lookup id = some x
      ∧ (x.phase.terminal = true ∨ Fits j tid x pc)
  /-- Two calls stop one execution only when it has ended. -/
  only : ∀ {tid tid' pc pc' id previous previous'}, s.threads.lookup tid = some pc →
    pc.stopOf = some (id, previous) → s.threads.lookup tid' = some pc' →
    pc'.stopOf = some (id, previous') → tid' ≠ tid →
    ∃ x, s.world.mem.executions.lookup id = some x ∧ x.phase.terminal = true
  mem : Attributed j s.world.mem
  disk : ∀ {snap}, s.world.disk = some snap →
    ∃ saved s₀, (machine cfg).Reach s₀ ∧ Attributed j s₀.world.mem
      ∧ snap = snapshot cfg saved s₀.world.mem

/-- A record that a call waits for and that has not ended. -/
theorem Attended.fits (h : Attended s j) (hpc : s.threads.lookup tid = some pc)
    (hid : pc.stopsOn = some id) (hx : s.world.mem.executions.lookup id = some x)
    (hlive : x.phase.terminal = false) : Fits j tid x pc := by
  obtain ⟨x₀, hx₀, hfits⟩ := h.waits hpc hid
  rw [hx] at hx₀
  cases hx₀
  rcases hfits with hend | hfit
  · rw [hend] at hlive
    cases hlive
  · exact hfit

-- ===== one section

/-- A call that goes on to a stop found an active record. -/
theorem advance_condemned (hs : (machine cfg).Reach s)
    (hr : advance tid pc i s.world = some (w', next))
    (hnext : next.pc.bind Pc.stopCause = some (id, cause)) :
    ∃ x, s.world.mem.executions.lookup id = some x
      ∧ (x.phase.terminal = false ∧ x.phase ≠ .cancelling) := by
  obtain ⟨pc', hpc', hcause⟩ := Option.bind_eq_some_iff.mp hnext
  obtain rfl := Next.pc_eq_some.mp hpc'
  obtain ⟨previous, hstop⟩ := stopCause_of_stopOf hcause
  cases advance_condemns hr hstop with
  | @cancelled e q x hactive hpc hq hx hx' hsaved =>
    have hid : x.id = q.executionID :=
      ((ledgerWorld_reachable hs).mem.linked.execution hx).2.1
    cases hcause
    rw [hid]
    exact ⟨x, hx, hactive⟩
  | @evicted sweep err id' x hactive hpc hx hx' hlapsed hclock hsaved =>
    cases hcause
    exact ⟨x, hx, hactive⟩

/-- A call of `OpenTunnelSession` goes on to no stop. -/
theorem tunnels_stopCause (hr : advance tid pc i w = some (w', next))
    (hpc : pc.tunnels = true) : next.pc.bind Pc.stopCause = none := by
  cases next with
  | goto pc' =>
    have htunnels := (advance_succ hr).tunnels
    rw [hpc] at htunnels
    cases pc' <;> first | rfl | cases htunnels
  | ret | done => rfl

/-- While a call stands before a stop, a section of another call leaves
its record alone or ends it. -/
theorem Attended.kept (hs : (machine cfg).Reach s) (h : Attended s j)
    (hpc : s.threads.lookup tid = some pc) (hr : advance tid pc i s.world = some (w', next))
    (htid : tid' ≠ tid) (hpc' : s.threads.lookup tid' = some pc') (hid : pc'.stopsOn = some id) :
    (∀ cause, next.pc.bind Pc.stopCause ≠ some (id, cause)) ∧
    ∃ x x', s.world.mem.executions.lookup id = some x
      ∧ (x.phase.terminal = true ∨ Fits j tid' x pc')
      ∧ w'.mem.executions.lookup id = some x' ∧ (x'.phase.terminal = true ∨ x' = x) := by
  obtain ⟨x, hx, hfits⟩ := h.waits hpc' hid
  have hturn := advance_turn (ledgerWorld_reachable hs) hr id
  rw [hx] at hturn
  by_cases hrecovers : pc'.recovers = true
  · -- Beside `Recover` the call opens a tunnel session.
    have htunnels := h.alone hpc' hrecovers hpc (Ne.symm htid)
    refine ⟨fun cause heq => ?_, x, x, hx, hfits, hturn.tunnels htunnels, .inr rfl⟩
    rw [tunnels_stopCause hr htunnels] at heq
    cases heq
  · rw [Bool.not_eq_true] at hrecovers
    have hwaits : x.phase.terminal = true ∨ x.phase = .cancelling :=
      hfits.imp_right fun hfit => hfit.inactive hid hrecovers
    constructor
    · intro cause heq
      obtain ⟨x₀, hx₀, hlive, hactive⟩ := advance_condemned hs hr heq
      rw [hx] at hx₀
      cases hx₀
      rcases hwaits with hend | hcancelling
      · rw [hend] at hlive
        cases hlive
      · exact hactive hcancelling
    · by_cases hcollects : ∃ err, pc = .collecting err
      · -- The only sweep is not in an eviction, and a cancellation in flight
        -- keeps its record.
        obtain ⟨err, rfl⟩ := hcollects
        refine ⟨x, x, hx, hfits, ?_, .inr rfl⟩
        cases pc' with
        | stopping e reason id' previous detail =>
          cases hid
          obtain ⟨q, hq, rfl⟩ := h.asked hpc'
          have hkept := cancel_keeps_record hs (by rw [hpc']; rfl) hq hx i
          cases hr
          exact hkept
        | evictStopping sweep err' id' previous detail =>
          exact absurd (h.single hpc rfl hpc' rfl) htid
        | recoverStopping ids id' phase detail => cases hrecovers
        | _ => cases hid
      · have hother : ∀ previous, pc.stopOf = some (id, previous) →
            x.phase.terminal = true := by
          intro previous hstop
          obtain ⟨previous', hstop'⟩ := stopOf_of_stopsOn hid hrecovers
          obtain ⟨x₀, hx₀, hend⟩ := h.only hpc hstop hpc' hstop' htid
          rw [hx] at hx₀
          cases hx₀
          exact hend
        obtain ⟨x', hx', hkept⟩ :=
          hturn.waiting hwaits hother fun err heq => hcollects ⟨err, heq⟩
        exact ⟨x, x', hx, hfits, hx', hkept⟩

/-- What `Recover` found where it goes on to a stop. -/
theorem recoverNext_stops {id' : GoString} {ids ids' : List GoString} {phase : EndPhase}
    {detail : GoString}
    (h : (recoverNext i id ids w : Next cfg) = .goto (.recoverStopping ids' id' phase detail)) :
    id' = id ∧ ∃ x, w.mem.executions.lookup id = some x ∧
      (x.phase = .cancelling ∧ detail = x.detail
          ∧ phase.1 = (if x.detail = leaseExpiredDetail then .failed else .cancelled)
        ∨ x.phase ≠ .cancelling ∧ x.lapsed i.now ∧ phase.1 = .failed
          ∧ detail = leaseExpiredDetail) := by
  unfold recoverNext at h
  split at h
  · cases h
  unfold recoverBegin at h
  split at h
  · cases h
  next phase' detail' hbegin =>
    cases h
    refine ⟨rfl, ?_⟩
    split at hbegin
    · cases hbegin
    rename_i x hx
    refine ⟨x, hx, ?_⟩
    split at hbegin
    · cases hbegin
    split at hbegin
    next hcancelling =>
      cases hbegin
      refine .inl ⟨hcancelling, rfl, ?_⟩
      split <;> rfl
    rename_i hactive
    split at hbegin
    next hover =>
      cases hbegin
      exact .inr ⟨hactive, ⟨hover.1, not_lt.mp hover.2⟩, rfl, rfl⟩
    · cases hbegin
  · cases h

/-- A call that goes on to a stop has its record. -/
theorem Attended.taken (hs : (machine cfg).Reach s) (h : Attended s j)
    (hr : advance tid pc i s.world = some (w', .goto pc')) (hid : pc'.stopsOn = some id) :
    ∃ x, w'.mem.executions.lookup id = some x
      ∧ Fits (j.turn s.world.mem w'.mem tid i pc (some pc')) tid x pc' := by
  by_cases hrecovers : pc'.recovers = true
  · cases pc' with
    | recoverStopping ids' id' phase detail =>
      cases hid
      have hsucc := advance_succ hr
      cases hsucc
      have hnext : (recoverNext i id ids' s.world : Next cfg)
          = .goto (.recoverStopping ids' id phase detail) :=
        congrArg Prod.snd (Option.some.inj hr)
      have hworld : s.world = w' := congrArg Prod.fst (Option.some.inj hr)
      subst hworld
      obtain ⟨-, x, hx, hfound⟩ := recoverNext_stops hnext
      refine ⟨x, hx, ?_⟩
      rcases hfound with ⟨hphase, hdetail, hend⟩ | ⟨hphase, hlapsed, hend, hdetail⟩
      · refine .inl ⟨hphase, hdetail, hend, fun hcause => turn_found rfl ?_⟩
        rcases h.mem id x hx hphase with ⟨hclient, -⟩ | ⟨-, -, hlapsed⟩
        · change j.causes.lookup id = some .lease at hcause
          rw [hclient] at hcause
          cases hcause
        · exact ExecutionRecord.lapsed_mono hlapsed (le_max_right _ _)
      · exact .inr ⟨hphase, hend, hdetail,
          turn_found rfl (ExecutionRecord.lapsed_mono hlapsed (le_max_left _ _))⟩
    | scanning | recovering | reattaching => cases hid
    | _ => cases hrecovers
  · rw [Bool.not_eq_true] at hrecovers
    obtain ⟨previous, hstop⟩ := stopOf_of_stopsOn hid hrecovers
    cases advance_condemns hr hstop with
    | @cancelled e q x hactive hpc hq hx hx' hsaved =>
      have hkey : x.id = q.executionID :=
        ((ledgerWorld_reachable hs).mem.linked.execution hx).2.1
      cases hid
      rw [hkey]
      exact ⟨_, hx', rfl, turn_causes_at rfl⟩
    | @evicted sweep err id' x hactive hpc hx hx' hlapsed hclock hsaved =>
      cases hid
      exact ⟨_, hx', rfl, turn_causes_at rfl,
        turn_found rfl (ExecutionRecord.lapsed_of_leaseExpired (x := x) hlapsed)⟩

theorem stopped_ne_cancelling {highWater : Int} {detail : GoString} (phase : EndPhase) :
    (stopped cfg highWater now phase.1 detail x).phase ≠ .cancelling := by
  intro heq
  have hend : (stopped cfg highWater now phase.1 detail x).phase.terminal = true :=
    stopped_terminal phase
  rw [heq] at hend
  cases hend

/-- A record that is CANCELLING after a section that committed no stop of
it was so before. -/
theorem Turn.cancelling {o : Option ExecutionRecord} {x' : ExecutionRecord}
    (h : Turn pc i next clock w' k o (some x')) (hphase : x'.phase = .cancelling)
    (hnext : ∀ cause, next.pc.bind Pc.stopCause ≠ some (k, cause)) : o = some x' := by
  cases h with
  | same h => rfl
  | assigned | reattached => cases hphase
  | @started e x hpc =>
    unfold startedRecord at hphase ⊢
    split at hphase
    · split at hphase <;> cases hphase
    next hnot => rw [if_neg hnot]
  | cancelled hactive hpc hq hk hat =>
    subst hat
    exact absurd rfl (hnext .client)
  | evicted hactive hpc hlapsed hat =>
    subst hat
    exact absurd rfl (hnext .lease)
  | @unstopped x previous detail hpc hfails =>
    unfold Allocator.unstopped at hphase
    split at hphase
    · exact absurd hphase previous.2.2
    next hnot => exact absurd hphase hnot
  | stopped hpc hok => exact absurd hphase (stopped_ne_cancelling ⟨.cancelled, rfl⟩)
  | evictStopped | lost => exact absurd hphase (stopped_ne_cancelling ⟨.failed, rfl⟩)
  | @recoverStopped ids phase detail x hpc => exact absurd hphase (stopped_ne_cancelling phase)
  | renewed hpc hq hk hclient hactive => exact absurd hphase hactive.2

theorem Attended.attributed (hs : (machine cfg).Reach s) (h : Attended s j)
    (hpc : s.threads.lookup tid = some pc) (hr : advance tid pc i s.world = some (w', next)) :
    Attributed (j.turn s.world.mem w'.mem tid i pc next.pc) w'.mem := by
  intro k x' hx' hphase
  have hclock : s.world.mem.highWater ≤ w'.mem.highWater :=
    (advance_changes hr).invariant (I := fun m => s.world.mem.highWater ≤ m.highWater)
      (fun _ _ hu hm => le_trans hm hu.clock_le) (le_refl _)
  by_cases hmark : ∃ cause, next.pc.bind Pc.stopCause = some (k, cause)
  · -- This section committed the stop.
    obtain ⟨cause, hmark⟩ := hmark
    obtain ⟨pc', hpc', hcause⟩ := Option.bind_eq_some_iff.mp hmark
    obtain rfl := Next.pc_eq_some.mp hpc'
    obtain ⟨previous, hstop⟩ := stopCause_of_stopOf hcause
    rw [turn_causes_at hmark]
    cases advance_condemns hr hstop with
    | @cancelled e q x hactive hat hq hx hmarked hsaved =>
      have hkey : x.id = q.executionID :=
        ((ledgerWorld_reachable hs).mem.linked.execution hx).2.1
      cases hcause
      rw [hkey, hmarked] at hx'
      cases hx'
      refine .inl ⟨rfl, ?_⟩
      have hcommand : (s.threads.lookup tid).bind Pc.command = some e := by
        rw [hpc, hat]
        rfl
      have hplain := h.plain hcommand
      simp only [plainReason, hq, decide_eq_true_eq] at hplain
      exact hplain
    | @evicted sweep err id x hactive hat hx hmarked hlapsed hclock' hsaved =>
      cases hcause
      rw [hmarked] at hx'
      cases hx'
      refine .inr ⟨rfl, rfl, ?_⟩
      rw [hclock']
      exact ExecutionRecord.lapsed_of_leaseExpired (x := x) hlapsed
  · have hother : ∀ cause, next.pc.bind Pc.stopCause ≠ some (k, cause) :=
      fun cause heq => hmark ⟨cause, heq⟩
    have hturn := advance_turn (ledgerWorld_reachable hs) hr k
    rw [hx'] at hturn
    rw [turn_causes_other hother]
    rcases h.mem k x' (hturn.cancelling hphase hother) hphase with
      hclient | ⟨hlease, hdetail, hlapsed⟩
    · exact .inl hclient
    · exact .inr ⟨hlease, hdetail, ExecutionRecord.lapsed_mono hlapsed hclock⟩

/-- What the store has after a step of one process. -/
theorem Attended.stored (ht : (machine cfg).Reach t) (h : Attended s j)
    (hc : Changes cfg (s.point l) l.input s.world t.world) (hmem : Attributed j' t.world.mem)
    (hcauses : j'.causes = j.causes ∨ Flushed cfg t.world) {snap : Snapshot}
    (hsnap : t.world.disk = some snap) :
    ∃ saved s₀, (machine cfg).Reach s₀ ∧ Attributed j' s₀.world.mem
      ∧ snap = snapshot cfg saved s₀.world.mem := by
  rcases stored_cases ht hc hsnap with ⟨saved, rfl⟩ | ⟨hsame, hunsaved⟩
  · exact ⟨saved, t, ht, hmem, rfl⟩
  · obtain ⟨saved, s₀, hs₀, hsrc, rfl⟩ := h.disk hsame
    rcases hcauses with hcauses | hflushed
    · exact ⟨saved, s₀, hs₀, hsrc.congr hcauses rfl (le_refl _), rfl⟩
    · exact absurd hflushed hunsaved

/-- A section that noted a cause has saved. -/
theorem turn_causes_or_flushed (hr : advance tid pc i w = some (w', next)) :
    (j.turn w.mem w'.mem tid i pc next.pc).causes = j.causes ∨ Flushed cfg w' := by
  cases hmark : next.pc.bind Pc.stopCause with
  | none =>
    refine .inl ?_
    unfold Journal.turn
    rw [hmark]
  | some mark =>
    obtain ⟨pc', hpc', hcause⟩ := Option.bind_eq_some_iff.mp hmark
    obtain rfl := Next.pc_eq_some.mp hpc'
    obtain ⟨previous, hstop⟩ := stopCause_of_stopOf hcause
    cases advance_condemns hr hstop with
    | cancelled hactive hat hq hx hmarked hsaved
    | evicted hactive hat hx hmarked hlapsed hclock hsaved => exact .inr hsaved

theorem Attended.run (hs : (machine cfg).Reach s) (h : Attended s j)
    (hpc : s.threads.lookup tid = some pc) (hr : advance tid pc i s.world = some r)
    (hstep : s.step (.run tid i) = some (s.resume tid pc i r))
    (ht : (machine cfg).Reach (s.resume tid pc i r)) :
    Attended (s.resume tid pc i r) (j.note s (.run tid i) (s.resume tid pc i r)) := by
  obtain ⟨w', next⟩ := r
  rw [note_run hpc]
  have hmem : Attributed ((j.turn s.world.mem w'.mem tid i pc next.pc).trim w'.mem) w'.mem :=
    (h.attributed hs hpc hr).congr rfl rfl (le_refl _)
  -- The calls before a stop, this one and the others.
  have hpoint : ∀ {tid' pc' id},
      (s.resume tid pc i (w', next)).threads.lookup tid' = some pc' → pc'.stopsOn = some id →
      (tid' = tid ∧ next = .goto pc') ∨ (tid' ≠ tid ∧ s.threads.lookup tid' = some pc') := by
    intro tid' pc' id hpc' hid
    by_cases htid : tid' = tid
    · rw [htid, resume_self] at hpc'
      exact .inl ⟨htid, Next.pc_eq_some.mp hpc'⟩
    · exact .inr ⟨htid, resume_settled htid hpc' (settled_of_stopsOn hid)⟩
  refine ⟨?_, ?_, ?_, ?_, ?_, ?_, hmem, ?_⟩
  · intro tid' e he
    rcases step_command hstep he with ⟨tid₀, hold⟩ | ⟨tid₀, hcall⟩
    · exact h.plain hold
    · cases hcall
  · intro tid₁ tid₂ pc₁ pc₂ hpc₁ hrecovers hpc₂ hne
    obtain ⟨pc₁', hpc₁', hkind, -⟩ := resume_kind hpc hr hpc₁
    obtain ⟨pc₂', hpc₂', -, htunnels, -⟩ := resume_kind hpc hr hpc₂
    rw [htunnels]
    exact h.alone hpc₁' (hkind.symm.trans hrecovers) hpc₂' hne
  · exact h.single.run hpc hr
  · intro tid' e reason id previous detail hpc'
    rcases hpoint hpc' rfl with ⟨-, rfl⟩ | ⟨-, hold⟩
    · cases advance_condemns hr rfl with
      | @cancelled e q x hactive hat hq hx hmarked hsaved =>
        exact ⟨q, hq, (((ledgerWorld_reachable hs).mem.linked.execution hx).2.1).symm⟩
    · exact h.asked hold
  · intro tid' pc' id hpc' hid
    rcases hpoint hpc' hid with ⟨rfl, rfl⟩ | ⟨htid, hold⟩
    · obtain ⟨x, hx, hfits⟩ := h.taken hs hr hid
      exact ⟨x, hx, .inr (hfits.congr hid rfl rfl)⟩
    · obtain ⟨hmark, x, x', hx, hfits, hx', hkept⟩ := h.kept hs hpc hr htid hold hid
      refine ⟨x', hx', ?_⟩
      rcases hkept with hend | rfl
      · exact .inl hend
      · refine hfits.imp_right fun hfit => ?_
        have hnoted : Fits (j.turn s.world.mem w'.mem tid i pc next.pc) tid' x' pc' :=
          hfit.congr hid (turn_causes_other hmark) (turn_readings_other htid)
        exact hnoted.congr hid rfl rfl
  · intro tid₁ tid₂ pc₁ pc₂ id previous₁ previous₂ hpc₁ hstop₁ hpc₂ hstop₂ hne
    obtain ⟨hid₁, hrec₁⟩ := stopsOn_of_stopOf hstop₁
    obtain ⟨hid₂, hrec₂⟩ := stopsOn_of_stopOf hstop₂
    rcases hpoint hpc₁ hid₁ with ⟨rfl, rfl⟩ | ⟨htid₁, hold₁⟩
    · rcases hpoint hpc₂ hid₂ with ⟨rfl, -⟩ | ⟨htid₂, hold₂⟩
      · exact absurd rfl hne
      · obtain ⟨cause, hcause⟩ := stopOf_stopCause hstop₁
        exact absurd hcause ((h.kept hs hpc hr htid₂ hold₂ hid₂).1 cause)
    · rcases hpoint hpc₂ hid₂ with ⟨rfl, rfl⟩ | ⟨htid₂, hold₂⟩
      · obtain ⟨cause, hcause⟩ := stopOf_stopCause hstop₂
        exact absurd hcause ((h.kept hs hpc hr htid₁ hold₁ hid₁).1 cause)
      · obtain ⟨-, x, x', hx, -, hx', hkept⟩ := h.kept hs hpc hr htid₁ hold₁ hid₁
        obtain ⟨x₀, hx₀, hend⟩ := h.only hold₁ hstop₁ hold₂ hstop₂ hne
        rw [hx] at hx₀
        cases hx₀
        refine ⟨x', hx', ?_⟩
        rcases hkept with hend' | rfl
        · exact hend'
        · exact hend
  · intro snap hsnap
    exact h.stored ht (step_changes rfl hstep) hmem
      (turn_causes_or_flushed hr) hsnap

-- ===== the other steps

/-- The call a label enters with. -/
def Label.enters : Label cfg → Option (Nat × Pc cfg)
  | .call tid e => some (tid, .received e)
  | .sweep tid => some (tid, .evicting true none)
  | .evictLeases tid => some (tid, .evicting false none)
  | .recover tid => some (tid, .scanning)
  | .openTunnel tid id peerKey => some (tid, .tunnelOpening id peerKey)
  | _ => none

theorem step_enters (hl : l.enters = some (tid, pc)) (h : s.step l = some t) :
    t = { s with threads := s.threads.insert tid pc } := by
  have hspawn : s.spawn tid pc = some t := by
    cases l <;> cases hl <;> exact h
  unfold System.spawn at hspawn
  split at hspawn
  · cases hspawn
  · cases hspawn
    rfl

theorem enters_stopsOn (hl : l.enters = some (tid, pc)) : pc.stopsOn = none ∧ pc.stopOf = none := by
  cases l <;> cases hl <;> exact ⟨rfl, rfl⟩

theorem not_of_any_false {p : Nat → Pc cfg → Bool} (h : s.threads.any p = false)
    (hpc : s.threads.lookup tid = some pc) : p tid pc = false := by
  by_contra hp
  rw [Bool.not_eq_false] at hp
  rw [AList.any_eq_true.mpr ⟨tid, pc, hpc, hp⟩] at h
  cases h

/-- What is not in progress when a call enters. -/
theorem served_enters (hl : l.enters = some (tid, pc)) (h : s.served l = true)
    (hpc' : s.threads.lookup tid' = some pc') :
    pc.recovers = false ∧ (pc.sweeps = true → pc'.sweeps = false)
      ∧ (pc.tunnels = false → pc'.recovers = false) := by
  cases l with
  | call =>
    cases hl
    simp only [System.served, Bool.not_eq_true'] at h
    exact ⟨rfl, nofun, fun _ => not_of_any_false h hpc'⟩
  | sweep | evictLeases =>
    cases hl
    simp only [System.served, Bool.and_eq_true, Bool.not_eq_true'] at h
    exact ⟨rfl, fun _ => not_of_any_false h.2 hpc', fun _ => not_of_any_false h.1 hpc'⟩
  | recover =>
    -- Nothing is in progress at all.
    simp only [System.served, List.isEmpty_iff] at h
    have hmem := AList.mem_entries.mpr hpc'
    rw [h] at hmem
    cases hmem
  | openTunnel =>
    cases hl
    exact ⟨rfl, nofun, nofun⟩
  | _ => cases hl

theorem SoleSweep.enters (h : SoleSweep s) (hl : l.enters = some (tid, pc))
    (hserved : s.served l = true) : SoleSweep { s with threads := s.threads.insert tid pc } := by
  intro tid₁ tid₂ pc₁ pc₂ hpc₁ hsweeps₁ hpc₂ hsweeps₂
  rcases AList.of_lookup_insert hpc₁ with ⟨heq₁, rfl⟩ | ⟨-, hold₁⟩
  · rcases AList.of_lookup_insert hpc₂ with ⟨heq₂, -⟩ | ⟨-, hold₂⟩
    · exact heq₂.trans heq₁.symm
    · rw [(served_enters hl hserved hold₂).2.1 hsweeps₁] at hsweeps₂
      cases hsweeps₂
  · rcases AList.of_lookup_insert hpc₂ with ⟨-, rfl⟩ | ⟨-, hold₂⟩
    · rw [(served_enters hl hserved hold₁).2.1 hsweeps₂] at hsweeps₁
      cases hsweeps₁
    · exact h hold₁ hsweeps₁ hold₂ hsweeps₂

/-- The daemon's order of calls keeps to one sweep. -/
theorem SoleSweep.step (h : SoleSweep s) (hserved : s.served l = true)
    (hstep : s.step l = some t) : SoleSweep t := by
  have entering : ∀ tid pc, l.enters = some (tid, pc) → SoleSweep t := by
    intro tid pc hl
    obtain rfl := step_enters hl hstep
    exact h.enters hl hserved
  cases l with
  | call tid e => exact entering tid (.received e) rfl
  | sweep tid => exact entering tid (.evicting true none) rfl
  | evictLeases tid => exact entering tid (.evicting false none) rfl
  | recover tid => exact entering tid .scanning rfl
  | openTunnel tid id peerKey => exact entering tid (.tunnelOpening id peerKey) rfl
  | run tid i =>
    obtain ⟨pc, r, hpc, hr, rfl⟩ := run_step hstep
    exact h.run hpc hr
  | closeTunnel | completed | expire | view =>
    cases hstep
    exact h
  | restart granted now =>
    obtain ⟨-, -, -, hthreads⟩ := restart_step hstep
    simp [SoleSweep, hthreads]

/-- A call that enters as the daemon lets it. -/
theorem Attended.enters (h : Attended s j) (hl : l.enters = some (tid, pc))
    (hserved : s.served l = true) (hplain : l.plainReason = true) :
    Attended { s with threads := s.threads.insert tid pc } j := by
  have hpoint : ∀ {tid' pc'}, (s.threads.insert tid pc).lookup tid' = some pc' →
      (tid' = tid ∧ pc' = pc) ∨ (tid' ≠ tid ∧ s.threads.lookup tid' = some pc') := by
    intro tid' pc' hpc'
    rcases AList.of_lookup_insert hpc' with ⟨heq, rfl⟩ | ⟨hne, hpc'⟩
    · exact .inl ⟨heq, rfl⟩
    · exact .inr ⟨hne, hpc'⟩
  obtain ⟨hidle, hidle'⟩ := enters_stopsOn hl
  refine ⟨?_, ?_, ?_, ?_, ?_, ?_, h.mem, h.disk⟩
  · intro tid' e he
    obtain ⟨pc', hpc', hcommand⟩ := Option.bind_eq_some_iff.mp he
    rcases hpoint hpc' with ⟨-, rfl⟩ | ⟨-, hold⟩
    · cases l <;> cases hl <;> cases hcommand
      exact hplain
    · have hbefore : (s.threads.lookup tid').bind Pc.command = some e := by
        rw [hold]
        exact hcommand
      exact h.plain hbefore
  · intro tid₁ tid₂ pc₁ pc₂ hpc₁ hrecovers hpc₂ hne
    rcases hpoint hpc₁ with ⟨heq₁, rfl⟩ | ⟨-, hold₁⟩
    · rcases hpoint hpc₂ with ⟨heq₂, -⟩ | ⟨-, hold₂⟩
      · exact absurd (heq₂.trans heq₁.symm) hne
      · rw [(served_enters hl hserved hold₂).1] at hrecovers
        cases hrecovers
    · rcases hpoint hpc₂ with ⟨-, rfl⟩ | ⟨-, hold₂⟩
      · by_contra htunnels
        rw [Bool.not_eq_true] at htunnels
        rw [(served_enters hl hserved hold₁).2.2 htunnels] at hrecovers
        cases hrecovers
      · exact h.alone hold₁ hrecovers hold₂ hne
  · exact h.single.enters hl hserved
  · intro tid' e reason id previous detail hpc'
    rcases hpoint hpc' with ⟨-, rfl⟩ | ⟨-, hold⟩
    · cases hidle
    · exact h.asked hold
  · intro tid' pc' id hpc' hid
    rcases hpoint hpc' with ⟨-, rfl⟩ | ⟨-, hold⟩
    · rw [hidle] at hid
      cases hid
    · exact h.waits hold hid
  · intro tid₁ tid₂ pc₁ pc₂ id previous₁ previous₂ hpc₁ hstop₁ hpc₂ hstop₂ hne
    rcases hpoint hpc₁ with ⟨-, rfl⟩ | ⟨-, hold₁⟩
    · rw [hidle'] at hstop₁
      cases hstop₁
    · rcases hpoint hpc₂ with ⟨-, rfl⟩ | ⟨-, hold₂⟩
      · rw [hidle'] at hstop₂
        cases hstop₂
      · exact h.only hold₁ hstop₁ hold₂ hstop₂ hne

/-- The journal notes no cause and no reading of a step without a call. -/
theorem note_other (hrun : ∀ tid i, l ≠ .run tid i) :
    (j.note s l t).causes = j.causes ∧ (j.note s l t).readings = j.readings := by
  cases l with
  | run tid i => exact absurd rfl (hrun tid i)
  | _ => exact ⟨rfl, rfl⟩

theorem Fits.noted (h : Fits j tid x pc) (hid : pc.stopsOn = some id)
    (hj : j'.causes = j.causes ∧ j'.readings = j.readings) : Fits j' tid x pc :=
  h.congr hid (by rw [hj.1]) (by rw [hj.2])

/-- A step that leaves the calls and lets records end at most. -/
theorem Attended.settle (ht : (machine cfg).Reach t) (h : Attended s j)
    (hrun : ∀ tid i, l ≠ .run tid i) (hl : l.isRestart = false) (hstep : s.step l = some t)
    (hthreads : t.threads = s.threads)
    (hrecords : ∀ {k x}, s.world.mem.executions.lookup k = some x →
      ∃ x', t.world.mem.executions.lookup k = some x' ∧ (x'.phase.terminal = true ∨ x' = x))
    (hnew : ∀ {k x'}, t.world.mem.executions.lookup k = some x' →
      x'.phase.terminal = true ∨ s.world.mem.executions.lookup k = some x') :
    Attended t (j.note s l t) := by
  have hj : (j.note s l t).causes = j.causes ∧ (j.note s l t).readings = j.readings :=
    note_other hrun
  have hmem : Attributed (j.note s l t) t.world.mem := by
    intro k x' hx' hphase
    rcases hnew hx' with hend | hold
    · rw [hphase] at hend
      cases hend
    · rw [hj.1]
      rcases h.mem k x' hold hphase with hclient | ⟨hlease, hdetail, hlapsed⟩
      · exact .inl hclient
      · exact .inr ⟨hlease, hdetail,
          ExecutionRecord.lapsed_mono hlapsed (step_clock_le hl hstep)⟩
  refine ⟨?_, ?_, ?_, ?_, ?_, ?_, hmem, ?_⟩
  · rw [hthreads]
    exact h.plain
  · rw [hthreads]
    exact h.alone
  · unfold SoleSweep
    rw [hthreads]
    exact h.single
  · rw [hthreads]
    exact h.asked
  · intro tid pc id hpc hid
    rw [hthreads] at hpc
    obtain ⟨x, hx, hfits⟩ := h.waits hpc hid
    obtain ⟨x', hx', hkept⟩ := hrecords hx
    refine ⟨x', hx', ?_⟩
    rcases hkept with hend | rfl
    · exact .inl hend
    · exact hfits.imp_right fun hfit => hfit.noted hid hj
  · intro tid₁ tid₂ pc₁ pc₂ id previous₁ previous₂ hpc₁ hstop₁ hpc₂ hstop₂ hne
    rw [hthreads] at hpc₁ hpc₂
    obtain ⟨x, hx, hend⟩ := h.only hpc₁ hstop₁ hpc₂ hstop₂ hne
    obtain ⟨x', hx', hkept⟩ := hrecords hx
    refine ⟨x', hx', ?_⟩
    rcases hkept with hend' | rfl
    · exact hend'
    · exact hend
  · intro snap hsnap
    exact h.stored ht (step_changes hl hstep) hmem (.inl hj.1) hsnap

theorem Attended.restart (h : Attended s j) {granted : Int}
    (hstep : s.step (.restart granted now) = some t) :
    Attended t (j.note s (.restart granted now) t) := by
  obtain ⟨hstored, hload, hdisk, hthreads⟩ := restart_step hstep
  -- No call is left to say something about.
  refine ⟨?_, ?_, ?_, ?_, ?_, ?_, ?_, ?_⟩
  iterate 6 simp [SoleSweep, hthreads]
  · obtain ⟨-, hempty⟩ | ⟨snap, hsnap, hload⟩ := hload
    · rw [hempty]
      exact fun _ _ hx => nomatch hx
    · obtain ⟨saved, s₀, hs₀, hsrc, rfl⟩ := h.disk hsnap
      exact (hsrc.load hs₀ hstored hload).congr rfl rfl (le_refl _)
  · intro snap hsnap
    rw [hdisk] at hsnap
    obtain ⟨saved, s₀, hs₀, hsrc, rfl⟩ := h.disk hsnap
    exact ⟨saved, s₀, hs₀, hsrc.congr rfl rfl (le_refl _), rfl⟩

/-- The invariant is about the causes and the readings. -/
theorem Attended.noted (h : Attended s j) (hj : j'.causes = j.causes ∧ j'.readings = j.readings) :
    Attended s j' := by
  refine ⟨h.plain, h.alone, h.single, h.asked, ?_, h.only, h.mem.congr hj.1 rfl (le_refl _), ?_⟩
  · intro tid pc id hpc hid
    obtain ⟨x, hx, hfits⟩ := h.waits hpc hid
    exact ⟨x, hx, hfits.imp_right fun hfit => hfit.noted hid hj⟩
  · intro snap hsnap
    obtain ⟨saved, s₀, hs₀, hsrc, rfl⟩ := h.disk hsnap
    exact ⟨saved, s₀, hs₀, hsrc.congr hj.1 rfl (le_refl _), rfl⟩

theorem Attended.initial : Attended (System.initial cfg) .empty := by
  refine ⟨?_, ?_, fun _ _ _ _ h => (nomatch h), ?_, ?_, ?_, fun _ _ hx => (nomatch hx), ?_⟩
  all_goals exact fun h => nomatch h

theorem Attended.step (hs : (machine cfg).Reach s) (ht : (machine cfg).Reach t) (h : Attended s j)
    (hok : scheduled (s, j) l) (hstep : s.step l = some t) : Attended t (j.note s l t) := by
  have hquiet : (∀ tid i, l ≠ .run tid i) → l.isRestart = false → t.threads = s.threads →
      t.world.mem.executions = s.world.mem.executions → Attended t (j.note s l t) := by
    intro hrun hl hthreads hsame
    refine h.settle ht hrun hl hstep hthreads ?_ ?_
    · intro k x hx
      exact ⟨x, by rw [hsame, hx], .inr rfl⟩
    · intro k x' hx'
      rw [hsame] at hx'
      exact .inr hx'
  have hentered : ∀ tid pc, (∀ tid i, l ≠ .run tid i) → l.enters = some (tid, pc) →
      Attended t (j.note s l t) := by
    intro tid pc hrun hl
    obtain rfl := step_enters hl hstep
    exact (h.enters hl hok.1 hok.2).noted (note_other hrun)
  cases l with
  | call tid e => exact hentered tid (.received e) nofun rfl
  | sweep tid => exact hentered tid (.evicting true none) nofun rfl
  | evictLeases tid => exact hentered tid (.evicting false none) nofun rfl
  | recover tid => exact hentered tid .scanning nofun rfl
  | openTunnel tid id peerKey => exact hentered tid (.tunnelOpening id peerKey) nofun rfl
  | closeTunnel session =>
    cases hstep
    exact hquiet nofun rfl rfl rfl
  | run tid i =>
    obtain ⟨pc, r, hpc, hr, rfl⟩ := run_step hstep
    exact h.run hs hpc hr hstep ht
  | completed c i =>
    have hworld : t.world = (runtimeCompleted cfg i c s.world).1 ∧ t.threads = s.threads := by
      cases hstep
      exact ⟨rfl, rfl⟩
    rcases @runtimeCompleted_executions cfg i c s.world with hsame | ⟨x₀, hx₀, hlive, hset⟩
    · refine h.settle ht nofun rfl hstep hworld.2 ?_ ?_
      · intro k x hx
        exact ⟨x, by rw [hworld.1, hsame k, hx], .inr rfl⟩
      · intro k x' hx'
        rw [hworld.1, hsame k] at hx'
        exact .inr hx'
    · have hend : (finishRecord cfg s.world.mem.highWater x₀ c.phase c.text c.exitCode
          i.now).phase.terminal = true := by
        unfold Completion.phase
        split <;> rfl
      refine h.settle ht nofun rfl hstep hworld.2 ?_ ?_
      · intro k x hx
        rw [hworld.1, hset k]
        split
        · exact ⟨_, rfl, .inl hend⟩
        · exact ⟨x, hx, .inr rfl⟩
      · intro k x' hx'
        rw [hworld.1, hset k] at hx'
        split at hx'
        · cases hx'
          exact .inl hend
        · exact .inr hx'
  | expire i =>
    have hworld : t.world = sweepExpired cfg i s.world ∧ t.threads = s.threads := by
      cases hstep
      exact ⟨rfl, rfl⟩
    refine hquiet nofun rfl hworld.2 ?_
    rw [hworld.1]
    exact sweepExpired_executions i s.world
  | view now =>
    cases hstep
    exact hquiet nofun rfl rfl rfl
  | restart granted now => exact h.restart hstep

theorem attended_reachable {ok : System cfg × Journal → Label cfg → Prop}
    (hok : ∀ s l, ok s l → scheduled s l) {s : System cfg × Journal}
    (hs : (journaled cfg).ReachWhen ok s) : Attended s.1 s.2 := by
  refine hs.observed (I := Attended) ?_ ?_
  · rintro s rfl
    exact .initial
  · intro s l t j hreach hreach' h hguard hstep
    exact h.step hreach hreach' (hok _ _ hguard) hstep

end R1s.Allocator
