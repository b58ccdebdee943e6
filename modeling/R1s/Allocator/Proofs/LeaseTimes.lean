/-
Acknowledged leases and the two clocks they are judged by.

# Where it fails

A renewal counts from the clock's own reading. A sweep judges a lease by
the high-water mark, the greatest reading so far, and `Recover` by its own
reading again. After the clock went back, a sweep ends an execution whose
acknowledged expiry its own reading has not reached, and a recovery at
that reading would keep it (`sweep_cuts_an_acknowledged_lease`).

# Where it holds

`acknowledged_leases_hold`: in runs where no lease is judged at a reading
below the mark.
-/
import R1s.Allocator.Proofs.Renewals
import R1s.Allocator.Proofs.Stoppers

namespace R1s.Allocator

open Option (any_eq_true some)
open ExecutionRecord (leaseUntil)

variable {cfg : Config} {s t : System cfg} {j : Journal} {w w' : World} {i : Input}

-- ===== acknowledged leases

/-- The acknowledged expiries are the leases of their records. The zero
time is no lease. -/
def Acked (j : Journal) (m : Mem) : Prop :=
  ∀ k x expiry, m.executions.lookup k = some x → j.acks.lookup k = some expiry →
    0 < expiry → x.leaseUntil = expiry

variable {k : GoString} {next : Next cfg} {pc : Pc cfg} {x : ExecutionRecord}

/-- Only renewals change a lease. -/
theorem Turn.leaseUntil {clock : Int} {x' : ExecutionRecord}
    (h : Turn pc i next clock w' k (some x) (some x')) (hpc : pc.renews = none) :
    x'.leaseUntil = x.leaseUntil := by
  have hstopped : ∀ {phase : ExecutionPhase} {detail : GoString},
      (Allocator.stopped cfg clock i.now phase detail x).leaseUntil = x.leaseUntil := by
    intro phase detail
    unfold Allocator.stopped
    split <;> rfl
  cases h with
  | same | cancelled | evicted | reattached => rfl
  | started hat =>
    unfold startedRecord
    split
    · split <;> rfl
    · rfl
  | unstopped hat hfails =>
    unfold Allocator.unstopped
    split <;> rfl
  | stopped | evictStopped | recoverStopped | lost => exact hstopped
  | renewed hat hq =>
    subst hat
    simp [Pc.renews, hq] at hpc

variable {id : GoString} {now : Int}

/-- The acknowledgement a renewal is answered with. -/
theorem leaseAck_respond {e : Inbound cfg} {ack : ExecutionLeaseRenewAck} {expiry : Timestamp}
    (h : (replyOf (respond cfg i.id e.1.messageID now
      (.executionLeaseRenewAck ⟨id, some expiry⟩))).leaseAck = some ack) :
    asTime ack.expiresAt = expiry.asTime := by
  unfold respond at h
  split at h
  · cases h
  · cases h
    rfl

variable {tid : Nat}

/-- What the handler of a renewal does. -/
theorem advance_renews {q : ExecutionLeaseRenew} (hr : advance tid pc i w = some (w', next))
    (hq : pc.renews = some q) :
    (SameExecutions w.mem w'.mem ∧ ∃ e err, next = .goto (.finishing e (.fail err))) ∨
    ∃ (e : Inbound cfg) (x : ExecutionRecord),
      SetExecution q.executionID { x with leaseUntil := i.now + renewDuration q } w.mem w'.mem
      ∧ next = .goto (.finishing e (replyOf (respond cfg i.id e.1.messageID i.now
          (.executionLeaseRenewAck ⟨x.id, some (Timestamp.new (i.now + renewDuration q))⟩))))
      ∧ Flushed cfg w' := by
  cases pc with
  | handling e =>
    have hpayload : e.1.payload = some (.executionLeaseRenew q) := by
      simp only [Pc.renews] at hq
      split at hq
      next heq =>
        cases hq
        exact heq
      · cases hq
    simp only [advance, handle, hpayload] at hr
    cases hr
    rcases @handleLeaseRenew_cases cfg e.1 q i w with
      ⟨err, hreply, heq | ⟨x, hx, heq⟩⟩ | ⟨x, hx, -, -, hreply, hp⟩
    · rw [heq, hreply]
      exact .inl ⟨.refl _, e, err, rfl⟩
    · rw [heq, hreply]
      exact .inl ⟨sameExecutions_rewrite hx, e, err, rfl⟩
    · rw [hreply]
      refine .inr ⟨e, x, fun k => ?_, rfl, persist_flushed hp⟩
      rw [persist_mem hp]
      exact setExecution_set _ _ _ k
  | _ => cases hq

variable {expiry : Int}

theorem lookup_trim {m : Mem} :
    (j.trim m).acks.lookup k = some expiry ↔
      j.acks.lookup k = some expiry ∧ ∃ x, m.executions.lookup k = some x := by
  show (j.acks.keep _).lookup k = some expiry ↔ _
  rw [AList.lookup_keep, Option.filter_eq_some_iff, Option.isSome_iff_exists]

/-- The acknowledged expiries after a renewal: those before it, but for
the renewed execution, whose lease is the expiry if there is one. -/
theorem renewed_acks {q : ExecutionLeaseRenew} (hr : advance tid pc i w = some (w', next))
    (hq : pc.renews = some q) (h : (j.renewed w.mem w'.mem q next.pc).lookup k = some expiry) :
    (j.acks.lookup k = some expiry
        ∧ (w'.mem.executions.lookup k).map leaseUntil
          = (w.mem.executions.lookup k).map leaseUntil) ∨
    (w'.mem.executions.lookup k).map leaseUntil = some expiry
      ∧ Flushed cfg w' := by
  rcases advance_renews hr hq with ⟨hsame, e, err, rfl⟩ | ⟨e, x, hset, rfl, hsaved⟩
  · refine .inl ⟨?_, by rw [hsame k]⟩
    simp only [Journal.renewed, Next.pc, hsame q.executionID, if_true] at h
    exact h
  · have hat : (w'.mem.executions.lookup q.executionID).map leaseUntil
        = some (i.now + renewDuration q) := by
      rw [hset, if_pos rfl]
      rfl
    have hother : k ≠ q.executionID →
        (w'.mem.executions.lookup k).map leaseUntil
          = (w.mem.executions.lookup k).map leaseUntil := by
      intro hk
      rw [hset, if_neg hk]
    simp only [Journal.renewed, Next.pc] at h
    split at h
    next ack hack =>
      rw [AList.lookup_insert_if] at h
      split at h
      next heq =>
        subst heq
        refine .inr ⟨?_, hsaved⟩
        rw [hat, ← some.inj h, leaseAck_respond hack, Timestamp.asTime_new]
      next hk => exact .inl ⟨h, hother hk⟩
    split at h
    next heq =>
      refine .inl ⟨h, ?_⟩
      by_cases hk : k = q.executionID
      · rw [hk]
        exact heq
      · exact hother hk
    obtain ⟨hk, h⟩ := AList.of_lookup_erase h
    exact .inl ⟨h, hother hk⟩

/-- The same for every section. -/
theorem turn_acks (hs : (machine cfg).Reach s) (hr : advance tid pc i s.world = some (w', next))
    (h : (j.turn s.world.mem w'.mem tid i pc next.pc).acks.lookup k = some expiry) :
    (j.acks.lookup k = some expiry ∧ ∀ x x', s.world.mem.executions.lookup k = some x →
        w'.mem.executions.lookup k = some x' → x'.leaseUntil = x.leaseUntil) ∨
    (w'.mem.executions.lookup k).map leaseUntil = some expiry
      ∧ Flushed cfg w' := by
  unfold Journal.turn at h
  dsimp only at h
  split at h
  next q hq =>
    rcases renewed_acks hr hq h with ⟨hold, hsame⟩ | hnew
    · refine .inl ⟨hold, ?_⟩
      intro x x' hx hx'
      rw [hx, hx'] at hsame
      exact some.inj hsame
    · exact .inr hnew
  rename_i hnone
  refine .inl ⟨h, ?_⟩
  intro x x' hx hx'
  have hturn := advance_turn (ledgerWorld_reachable hs) hr k
  rw [hx, hx'] at hturn
  exact hturn.leaseUntil hnone

-- ===== the runs

/-- The clock is not behind the mark where a lease is judged, calls come
in the daemon's order, and no client uses the eviction's text. -/
abbrev punctual (s : System cfg × Journal) (l : Label cfg) : Prop :=
  scheduled s l ∧ s.1.onTime l = true

structure AckInv (s : System cfg) (j : Journal) : Prop where
  there : ∀ {k expiry}, j.acks.lookup k = some expiry →
    ∃ x, s.world.mem.executions.lookup k = some x
  mem : Acked j s.world.mem
  disk : ∀ {snap}, s.world.disk = some snap →
    ∃ saved s₀, (machine cfg).Reach s₀ ∧ Acked j s₀.world.mem
      ∧ snap = snapshot cfg saved s₀.world.mem
  read : ∀ {tid r}, j.readings.lookup tid = some r → 0 ≤ r.mark ∧ r.mark ≤ r.now

/-- A step that changes leases only as it acknowledges. -/
theorem AckInv.step (ht : (machine cfg).Reach t) (h : AckInv s j) {j' : Journal} {l : Label cfg}
    (hc : Changes cfg (s.point l) l.input s.world t.world)
    (hacks : ∀ {k expiry}, j'.acks.lookup k = some expiry →
      (j.acks.lookup k = some expiry ∧ ∀ x x', s.world.mem.executions.lookup k = some x →
        t.world.mem.executions.lookup k = some x' → x'.leaseUntil = x.leaseUntil) ∨
      (t.world.mem.executions.lookup k).map leaseUntil = some expiry
        ∧ Flushed cfg t.world)
    (hread : ∀ {tid r}, j'.readings.lookup tid = some r → 0 ≤ r.mark ∧ r.mark ≤ r.now) :
    AckInv t (j'.trim t.world.mem) := by
  have hmem : Acked (j'.trim t.world.mem) t.world.mem := by
    intro k x' expiry hx' hack hpos
    rcases hacks (lookup_trim.mp hack).1 with ⟨hold, hsame⟩ | ⟨hnew, -⟩
    · obtain ⟨x, hx⟩ := h.there hold
      rw [hsame x x' hx hx']
      exact h.mem k x expiry hx hold hpos
    · rw [hx'] at hnew
      exact some.inj hnew
  refine ⟨fun hack => (lookup_trim.mp hack).2, hmem, ?_, hread⟩
  intro snap hsnap
  rcases stored_cases ht hc hsnap with ⟨saved, rfl⟩ | ⟨hsame, hunsaved⟩
  · exact ⟨saved, t, ht, hmem, rfl⟩
  · obtain ⟨saved, s₀, hs₀, hsrc, rfl⟩ := h.disk hsame
    refine ⟨saved, s₀, hs₀, ?_, rfl⟩
    intro k x expiry hx hack hpos
    rcases hacks (lookup_trim.mp hack).1 with ⟨hold, -⟩ | ⟨-, hflushed⟩
    · exact hsrc k x expiry hx hold hpos
    · exact absurd hflushed hunsaved

/-- The readings of a section: where a lease is judged the clock is not
behind the mark. -/
theorem AckInv.readings (hs : (machine cfg).Reach s) (h : AckInv s j) {tid' : Nat} {r : Reading}
    (hpc : s.threads.lookup tid = some pc) (hr : advance tid pc i s.world = some (w', next))
    (htime : s.onTime (.run tid i) = true)
    (hread : (j.turn s.world.mem w'.mem tid i pc next.pc).readings.lookup tid' = some r) :
    0 ≤ r.mark ∧ r.mark ≤ r.now := by
  change (if next.pc.any Pc.judged then j.readings.insert tid ⟨i.now, s.world.mem.highWater⟩
    else j.readings).lookup tid' = some r at hread
  split at hread
  next hjudged =>
    rcases AList.of_lookup_insert hread with ⟨-, rfl⟩ | ⟨-, hread⟩
    · refine ⟨(sound_reachable hs).mem.clock, ?_⟩
      rw [any_eq_true] at hjudged
      obtain ⟨pc', hpc', hjudges⟩ := hjudged
      obtain rfl := Next.pc_eq_some.mp hpc'
      have hsucc := advance_succ hr
      cases hsucc <;> cases hjudges <;> simpa [System.onTime, hpc] using htime
    · exact h.read hread
  · exact h.read hread

theorem AckInv.quiet (ht : (machine cfg).Reach t) (h : AckInv s j) {j' : Journal} {l : Label cfg}
    (hc : Changes cfg (s.point l) l.input s.world t.world) (hacks : j'.acks = j.acks)
    (hreadings : j'.readings = j.readings)
    (hsame : ∀ k x x', s.world.mem.executions.lookup k = some x →
      t.world.mem.executions.lookup k = some x' → x'.leaseUntil = x.leaseUntil) :
    AckInv t (j'.trim t.world.mem) := by
  refine h.step ht hc ?_ ?_
  · intro k expiry hack
    rw [hacks] at hack
    exact .inl ⟨hack, hsame k⟩
  · rw [hreadings]
    exact h.read

theorem AckInv.restart (h : AckInv s j) {granted : Int}
    (hstep : s.step (.restart granted now) = some t) :
    AckInv t (j.note s (.restart granted now) t) := by
  obtain ⟨hstored, hload, hdisk, -⟩ := restart_step hstep
  refine ⟨fun hack => (lookup_trim.mp hack).2, ?_, ?_, h.read⟩
  · obtain ⟨-, hempty⟩ | ⟨snap, hsnap, hload⟩ := hload
    · rw [hempty]
      exact fun _ _ _ hx => nomatch hx
    obtain ⟨saved, s₀, hs₀, hsrc, rfl⟩ := h.disk hsnap
    intro k x expiry hx hack hpos
    rw [lookup_load_executions hs₀ hstored hload] at hx
    obtain ⟨x₀, hx₀, rfl⟩ := Option.map_eq_some_iff.mp hx
    have hlease := hsrc k x₀ expiry hx₀ (lookup_trim.mp hack).1 hpos
    -- A saved lease is given anew only if there is none.
    show (if ¬x₀.phase.terminal = true ∧ x₀.leaseUntil = 0 then granted + cfg.leaseTTL
      else x₀.leaseUntil) = expiry
    rw [if_neg, hlease]
    rintro ⟨-, hzero⟩
    omega
  · intro snap hsnap
    rw [hdisk] at hsnap
    obtain ⟨saved, s₀, hs₀, hsrc, rfl⟩ := h.disk hsnap
    refine ⟨saved, s₀, hs₀, ?_, rfl⟩
    intro k x expiry hx hack hpos
    exact hsrc k x expiry hx (lookup_trim.mp hack).1 hpos

theorem ackInv_reachable {s : System cfg × Journal}
    (hs : (journaled cfg).ReachWhen punctual s) : AckInv s.1 s.2 := by
  refine hs.observed (I := AckInv) ?_ ?_
  · rintro s rfl
    exact ⟨fun hack => (nomatch hack), fun _ _ _ hx => (nomatch hx),
      fun hsnap => (nomatch hsnap), fun hread => nomatch hread⟩
  · intro s l t j hreach hreach' h hok hstep
    change s.step l = some t at hstep
    have hquiet : t.world.mem.executions = s.world.mem.executions →
        ∀ k x x', s.world.mem.executions.lookup k = some x →
          t.world.mem.executions.lookup k = some x' → x'.leaseUntil = x.leaseUntil := by
      intro hsame k x x' hx hx'
      rw [hsame, hx] at hx'
      cases hx'
      rfl
    cases l with
    | run tid i =>
      obtain ⟨pc, ⟨w', next⟩, hpc, hr, rfl⟩ := run_step hstep
      rw [note_run hpc]
      exact h.step hreach' (step_changes rfl hstep) (turn_acks hreach hr)
        (h.readings hreach hpc hr hok.2)
    | completed c i =>
      refine h.quiet hreach' (step_changes rfl hstep) rfl rfl ?_
      have hworld : t.world = (runtimeCompleted cfg i c s.world).1 := by
        cases hstep
        rfl
      intro k x x' hx hx'
      rw [hworld] at hx'
      rcases @runtimeCompleted_executions cfg i c s.world with hsame | ⟨x₀, hx₀, -, hset⟩
      · rw [hsame k, hx] at hx'
        cases hx'
        rfl
      · rw [hset k] at hx'
        split at hx'
        next heq =>
          cases hx'
          rw [heq, hx₀] at hx
          cases hx
          rfl
        · rw [hx] at hx'
          cases hx'
          rfl
    | restart granted now => exact h.restart hstep
    | expire i =>
      have hsame : t.world.mem.executions = s.world.mem.executions := by
        cases hstep
        exact sweepExpired_executions i s.world
      exact h.quiet hreach' (step_changes rfl hstep) rfl rfl (hquiet hsame)
    | closeTunnel | view =>
      refine h.quiet hreach' (step_changes rfl hstep) rfl rfl (hquiet ?_)
      cases hstep
      rfl
    | call | sweep | evictLeases | recover | openTunnel =>
      refine h.quiet hreach' (step_changes rfl hstep) rfl rfl (hquiet ?_)
      rw [System.spawn_world hstep]

-- ===== the theorem

/-- A call that judged a lease and leaves the record FAILED with the
eviction's text had found the lease over. -/
theorem Attended.lapsed (hs : (machine cfg).Reach s) (h : Attended s j) {x' : ExecutionRecord}
    (hpc : s.threads.lookup tid = some pc) (hjudged : pc.judged = true)
    (hr : advance tid pc i s.world = some (w', next))
    (hx : s.world.mem.executions.lookup id = some x) (hlive : x.phase.terminal = false)
    (hx' : w'.mem.executions.lookup id = some x') (hfailed : x'.phase = .failed)
    (hdetail : x'.detail = leaseExpiredDetail) : j.found tid x = true := by
  have hturn := advance_turn (ledgerWorld_reachable hs) hr id
  rw [hx, hx'] at hturn
  cases hturn with
  | same hother =>
    rw [hfailed] at hlive
    cases hlive
  | @unstopped x previous detail hstop hfails =>
    unfold unstopped at hfailed
    split at hfailed
    · exact absurd (congrArg ExecutionPhase.terminal hfailed) (by rw [previous.2.1]; nofun)
    · rw [hfailed] at hlive
      cases hlive
  | evictStopped hat hok =>
    subst hat
    exact (h.fits hpc rfl hx hlive).2.2
  | @recoverStopped ids phase detail x hat =>
    subst hat
    have htext : detail = leaseExpiredDetail := by
      rw [stopped, if_neg (by rw [hlive]; nofun)] at hdetail
      exact hdetail
    rcases h.fits hpc rfl hx hlive with
      ⟨hphase, hsame, -, hfound⟩ | ⟨-, -, -, hfound⟩
    · rcases h.mem id x hx hphase with ⟨-, hother⟩ | ⟨hlease, -⟩
      · exact absurd (hsame.symm.trans htext) hother
      · exact hfound hlease
    · exact hfound
  | started hat | cancelled hactive hat | evicted hactive hat | stopped hat | lost hat
  | reattached hat | renewed hat =>
    subst hat
    cases hjudged

/-- The test of `Recover` is the eviction's, at its own reading. -/
theorem recoverBegin_lapsed {m : Mem} (hx : m.executions.lookup id = some x)
    (hlive : x.phase.terminal = false) (hactive : x.phase ≠ .cancelling) :
    recoverBegin now id m = .stop ⟨.failed, rfl⟩ leaseExpiredDetail ↔
      x.leaseExpired now = true := by
  have hbegin : recoverBegin now id m =
      if x.leaseUntil ≠ 0 ∧ ¬now < x.leaseUntil then .stop ⟨.failed, rfl⟩ leaseExpiredDetail
      else .reattach := by
    unfold recoverBegin
    rw [hx]
    show (if x.phase.terminal = true then _ else if x.phase = .cancelling then _ else _) = _
    rw [if_neg (by rw [hlive]; exact nofun), if_neg hactive]
  have hexpired : x.leaseExpired now = true ↔ x.leaseUntil ≠ 0 ∧ ¬now < x.leaseUntil := by
    simp [ExecutionRecord.leaseExpired, hlive, hactive]
  rw [hbegin, hexpired]
  by_cases hover : x.leaseUntil ≠ 0 ∧ ¬now < x.leaseUntil
  · rw [if_pos hover]
    exact ⟨fun _ => hover, fun _ => rfl⟩
  · rw [if_neg hover]
    exact ⟨nofun, fun h => absurd h hover⟩

/-- In every run in the daemon's order in which no lease is judged at a
reading below the high-water mark, a sweep or recovery that ends an
execution for its lease read a time no earlier than the expiry last
acknowledged; and `Recover` takes a lease for over exactly where a sweep
at the same reading would. -/
theorem acknowledged_leases_hold (cfg : Config) {s : System cfg × Journal}
    (hs : (journaled cfg).ReachWhen punctual s) :
    (∀ tid i t id x x' expiry, s.1.step (.run tid i) = some t →
      (s.1.threads.lookup tid).any Pc.judged = true →
      s.1.world.mem.executions.lookup id = some x → x.phase.terminal = false →
      t.world.mem.executions.lookup id = some x' → x'.phase = .failed →
      x'.detail = leaseExpiredDetail → s.2.acks.lookup id = some expiry →
      ∃ r, s.2.readings.lookup tid = some r ∧ ¬r.now < expiry) ∧
    ∀ (m : Mem) now id x, m.highWater ≤ now → m.executions.lookup id = some x →
      x.phase.terminal = false → x.phase ≠ .cancelling →
      (recoverBegin now id m = .stop ⟨.failed, rfl⟩ leaseExpiredDetail ↔
        x.leaseExpired (effectiveNow now m).highWater = true) := by
  have hreach : (machine cfg).Reach s.1 := TransitionSystem.reach_of_observe hs
  have hacks := ackInv_reachable hs
  constructor
  · intro tid i t id x x' expiry hstep hjudged hx hlive hx' hfailed hdetail hack
    obtain ⟨pc, ⟨w', next⟩, hpc, hr, rfl⟩ := run_step hstep
    rw [hpc, Option.any_some] at hjudged
    have hfound := (attended_reachable (fun _ _ hok => hok.1) hs).lapsed hreach hpc hjudged hr hx
      hlive hx' hfailed hdetail
    rw [Journal.found, any_eq_true] at hfound
    obtain ⟨r, hread, hlapsed⟩ := hfound
    refine ⟨r, hread, ?_⟩
    obtain ⟨hmark, hnow⟩ := hacks.read hread
    obtain ⟨-, hover⟩ := of_decide_eq_true hlapsed
    rw [max_eq_left hnow] at hover
    by_cases hpos : 0 < expiry
    · rw [hacks.mem id x expiry hx hack hpos] at hover
      omega
    · omega
  · intro m now id x hclock hx hlive hactive
    have hmark : (effectiveNow now m).highWater = now := by
      rw [effectiveNow_eq]
      exact max_eq_right hclock
    rw [hmark]
    exact recoverBegin_lapsed hx hlive hactive

-- ===== a clock that goes back

/-- A round of a sweep at `now` up to the stop of the sample execution,
or to the end of the eviction. -/
def evictRun (tid : Nat) (now : Int) : List (Label oneSlot) :=
  [.sweep tid, .run tid { now := now, pick := text "x" }]

/-- The sample execution is running and a sweep found nothing at
`now`. -/
def unevictedRun (now : Int) : List (Label oneSlot) :=
  requestRun ++ assignRun ++ answerRun 1 none ++ evictRun 5 now ++
    [.run 5 { now := now }, .run 5 { now := now }]

/-- The clock stood five minutes ahead during a sweep and was set back;
then a renewal by one minute was acknowledged. -/
def setBackRun : List (Label oneSlot) :=
  unevictedRun (epoch + 5 * minute) ++ renewRun 3 epoch ++ [.run 3 { now := epoch }]

/-- Half a minute later, before the acknowledged expiry, a sweep takes
the lease for over and ends the execution; a recovery at that reading
would have kept it. -/
theorem sweep_cuts_an_acknowledged_lease :
    (∃ (s : System oneSlot × Journal) (t : System oneSlot),
      (journaled oneSlot).ReachWhen scheduled s ∧
      s.2.acks.lookup (text "x") = some (epoch + minute) ∧
      (s.2.readings.lookup 6).map Reading.now = some (epoch + minute / 2) ∧
      s.1.step (.run 6 { now := epoch + minute / 2 }) = some t ∧
      ((t.world.mem.executions.lookup (text "x")).map fun x => (x.phase, x.detail))
        = some (.failed, leaseExpiredDetail)) ∧
    ∃ (s : System oneSlot × Journal) (x : ExecutionRecord),
      (journaled oneSlot).ReachWhen scheduled s ∧
      s.1.world.mem.executions.lookup (text "x") = some x ∧ x.phase = .running ∧
      x.leaseExpired (effectiveNow (epoch + minute / 2) s.1.world.mem).highWater = true ∧
      recoverBegin (epoch + minute / 2) (text "x") s.1.world.mem = .reattach := by
  constructor
  · obtain ⟨s, hs, hp⟩ := (journaled oneSlot).exists_reachWhen scheduled (.observe rfl)
      (setBackRun ++ evictRun 6 (epoch + minute / 2))
      (fun s => s.2.acks.lookup (text "x") = some (epoch + minute) ∧
        (s.2.readings.lookup 6).map Reading.now = some (epoch + minute / 2) ∧
        (s.1.step (.run 6 { now := epoch + minute / 2 })).any fun t =>
          ((t.world.mem.executions.lookup (text "x")).map fun x => (x.phase, x.detail))
            = some (.failed, leaseExpiredDetail))
      (by decide +kernel)
    simp only [decide_eq_true_eq, any_eq_true] at hp
    obtain ⟨hack, hread, t, ht, hend⟩ := hp
    exact ⟨s, t, hs, hack, hread, ht, hend⟩
  · obtain ⟨s, hs, hp⟩ := (journaled oneSlot).exists_reachWhen scheduled (.observe rfl)
      setBackRun
      (fun s => (s.1.world.mem.executions.lookup (text "x")).any (fun x =>
        x.phase = .running ∧
        x.leaseExpired (effectiveNow (epoch + minute / 2) s.1.world.mem).highWater = true) ∧
        recoverBegin (epoch + minute / 2) (text "x") s.1.world.mem = .reattach)
      (by decide +kernel)
    simp only [decide_eq_true_eq, any_eq_true] at hp
    obtain ⟨⟨x, hx, hphase, hexpired⟩, hrecover⟩ := hp
    exact ⟨s, x, hs, hx, hphase, hexpired, hrecover⟩

/-- A sweep on a clock that goes forward ends the execution after the
acknowledged expiry. -/
theorem sweep_keeps_an_acknowledged_lease :
    ∃ (s : System oneSlot × Journal) (r : Reading),
      (journaled oneSlot).ReachWhen punctual s ∧
      s.2.acks.lookup (text "x") = some (epoch + minute) ∧ s.2.readings.lookup 6 = some r ∧
      ¬r.now < epoch + minute := by
  obtain ⟨s, hs, hp⟩ := (journaled oneSlot).exists_reachWhen punctual (.observe rfl)
    (unevictedRun epoch ++ renewRun 3 epoch ++ [.run 3 { now := epoch }]
      ++ evictRun 6 (epoch + 2 * minute))
    (fun s => s.2.acks.lookup (text "x") = some (epoch + minute) ∧
      (s.1.threads.lookup 6).any Pc.judged = true ∧
      (s.1.world.mem.executions.lookup (text "x")).any (fun x => !x.phase.terminal) ∧
      (s.1.step (.run 6 { now := epoch + 2 * minute })).any fun t =>
        (t.world.mem.executions.lookup (text "x")).any fun x =>
          x.phase = .failed ∧ x.detail = leaseExpiredDetail)
    (by decide +kernel)
  simp only [decide_eq_true_eq, any_eq_true, Bool.not_eq_true'] at hp
  obtain ⟨hack, hjudged, ⟨x, hx, hlive⟩, t, ht, x', hx', hfailed, hdetail⟩ := hp
  obtain ⟨r, hread, hnow⟩ := (acknowledged_leases_hold oneSlot hs).1 6 _ t (text "x") x x' _ ht
    (by rw [any_eq_true]; exact hjudged) hx hlive hx' hfailed hdetail hack
  exact ⟨s, r, hs, hack, hread, hnow⟩

end R1s.Allocator
