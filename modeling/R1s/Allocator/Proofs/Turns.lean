/-
What one section does to one execution record, said once for every
property of records.

# The relation

`Turn` lists the ways a section of a call changes the record under a
key: the assignment creates it, the runtime's answers advance or end it,
a renewal moves its lease, a sweep drops it. Every constructor names the
point the call stood at and the one it goes on to, and says whether the
change was saved, so a proof about records is one case split here instead
of one per section.
-/
import R1s.Allocator.Proofs.Executions

namespace R1s.Allocator

variable {cfg : Config} {s : System cfg} {w w' : World} {i : Input}

-- ===== turns

/-- What a section of a call at `pc`, with the clock at `clock` before it
and the state `w'` after it, does to the record under `k`. -/
inductive Turn (pc : Pc cfg) (i : Input) (next : Next cfg) (clock : Int) (w' : World)
    (k : GoString) : Option ExecutionRecord → Option ExecutionRecord → Prop
  /-- The section is about another execution, or the record is gone. -/
  | same {o} (h : o = none ∨ pc.startOf ≠ some k ∧ ∀ p, pc.stopOf ≠ some (k, p)) :
      Turn pc i next clock w' k o o
  | assigned {e q offer} (hpc : pc = .handling e) (hq : e.1.payload = some (.executionAssign q))
      (hk : q.executionID = k) (hnext : next = .goto (.starting e k)) :
      Turn pc i next clock w' k none (some (assignRecord cfg i q offer))
  | started {e x} (hpc : pc = .starting e k) :
      Turn pc i next clock w' k (some x) (some (startedRecord cfg clock i x))
  | cancelled {e q x} (hactive : x.phase.terminal = false ∧ x.phase ≠ .cancelling)
      (hpc : pc = .handling e) (hq : e.1.payload = some (.executionCancel q))
      (hk : q.executionID = k)
      (hnext : next = .goto (.stopping e q.reason k ⟨x.phase, hactive⟩ x.detail))
      (hsaved : Flushed cfg w') :
      Turn pc i next clock w' k (some x) (some (cancelling x q.reason i.now))
  | evicted {sweep err x} (hactive : x.phase.terminal = false ∧ x.phase ≠ .cancelling)
      (hpc : pc = .evicting sweep err) (hlapsed : x.leaseExpired (max i.now clock) = true)
      (hnext : next = .goto (.evictStopping sweep err k ⟨x.phase, hactive⟩ x.detail))
      (hclock : w'.mem.highWater = max i.now clock) (hsaved : Flushed cfg w') :
      Turn pc i next clock w' k (some x)
        (some (cancelling x leaseExpiredDetail (max i.now clock)))
  | unstopped {x previous detail} (hpc : pc.stopOf = some (k, previous))
      (hfails : pc.stopFails i = true) :
      Turn pc i next clock w' k (some x) (some (unstopped i previous detail x))
  | stopped {e reason detail previous x} (hpc : pc = .stopping e reason k previous detail)
      (hok : i.fault = none) :
      Turn pc i next clock w' k (some x)
        (some (stopped cfg clock i.now .cancelled reason x))
  | evictStopped {sweep err previous detail x}
      (hpc : pc = .evictStopping sweep err k previous detail) (hok : pc.stopFails i = false) :
      Turn pc i next clock w' k (some x)
        (some (stopped cfg clock i.now .failed leaseExpiredDetail x))
  | recoverStopped {ids phase detail x} (hpc : pc = .recoverStopping ids k phase detail) :
      Turn pc i next clock w' k (some x) (some (stopped cfg clock i.now phase.1 detail x))
  /-- The runtime lost the task of a recovered execution. -/
  | lost {ids f x} (hpc : pc = .reattaching ids k) (hf : i.fault = some f) :
      Turn pc i next clock w' k (some x) (some (stopped cfg clock i.now .failed f.text x))
  | reattached {ids x} (hpc : pc = .reattaching ids k) (hx : x.phase = .starting) :
      Turn pc i next clock w' k (some x)
        (some { x with phase := .running, occurredAt := i.now, revision := x.revision + 1 })
  | renewed {e q x} (hpc : pc = .handling e) (hq : e.1.payload = some (.executionLeaseRenew q))
      (hk : q.executionID = k) (hclient : x.client = e.1.sender)
      (hactive : x.phase.terminal = false ∧ x.phase ≠ .cancelling)
      (hnext : next = .goto (.finishing e (replyOf (respond cfg i.id e.1.messageID i.now
        (.executionLeaseRenewAck ⟨x.id, some (Timestamp.new (i.now + renewDuration q))⟩)))))
      (hsaved : Flushed cfg w') :
      Turn pc i next clock w' k (some x) (some { x with leaseUntil := i.now + renewDuration q })
  | collected {err x} (hpc : pc = .collecting err) (hend : x.phase.terminal = true)
      (hsaved : Flushed cfg w') : Turn pc i next clock w' k (some x) none

variable {pc : Pc cfg} {next : Next cfg} {clock : Int}

/-- A section that changes no record. -/
theorem SameExecutions.turn {m m' : Mem} (h : SameExecutions m m')
    (hpc : pc.startOf = none ∧ pc.stopOf = none) (k : GoString) :
    Turn pc i next clock w' k (m.executions.lookup k) (m'.executions.lookup k) := by
  rw [h k]
  refine .same (.inr ⟨?_, fun p => ?_⟩)
  · rw [hpc.1]
    exact fun hk => nomatch hk
  · rw [hpc.2]
    exact fun hk => nomatch hk

/-- A section that sets the record under `id` only. -/
theorem SetExecution.turn {m m' : Mem} {id : GoString} {x' : ExecutionRecord}
    (h : SetExecution id x' m m')
    (hpc : ∀ k, k ≠ id → pc.startOf ≠ some k ∧ ∀ p, pc.stopOf ≠ some (k, p))
    (hset : Turn pc i next clock w' id (m.executions.lookup id) (some x')) (k : GoString) :
    Turn pc i next clock w' k (m.executions.lookup k) (m'.executions.lookup k) := by
  rw [h k]
  split
  next heq =>
    subst heq
    exact hset
  next hne => exact .same (.inr (hpc k hne))

/-- The other executions of a call that waits for nothing. -/
theorem Pc.idle_other (hpc : pc.startOf = none ∧ pc.stopOf = none) (id : GoString) :
    ∀ k, k ≠ id → pc.startOf ≠ some k ∧ ∀ p, pc.stopOf ≠ some (k, p) := by
  intro k _
  constructor
  · rw [hpc.1]
    exact fun h => nomatch h
  · rw [hpc.2]
    exact fun _ h => nomatch h

/-- The other executions of a call that waits for a stop. -/
theorem Pc.stopOf_other {id : GoString} {previous : ActivePhase}
    (hpc : pc.stopOf = some (id, previous)) :
    ∀ k, k ≠ id → pc.startOf ≠ some k ∧ ∀ p, pc.stopOf ≠ some (k, p) := by
  intro k hk
  constructor
  · cases pc
    case starting => cases hpc
    all_goals exact fun hs => nomatch hs
  · intro p hp
    rw [hpc] at hp
    cases hp
    exact hk rfl

/-- A stop that went through, or a task that was lost. -/
theorem Ends.turn {id detail : GoString} {phase : EndPhase} {x : ExecutionRecord}
    (h : Ends i pc id phase detail) :
    Turn pc i next clock w' id (some x) (some (Allocator.stopped cfg clock i.now phase.1 detail x))
    ∧ ∀ k, k ≠ id → pc.startOf ≠ some k ∧ ∀ p, pc.stopOf ≠ some (k, p) := by
  cases h with
  | stopped hok => exact ⟨.stopped rfl hok, Pc.stopOf_other rfl⟩
  | evicted hok => exact ⟨.evictStopped rfl hok, Pc.stopOf_other rfl⟩
  | recovered => exact ⟨.recoverStopped rfl, Pc.idle_other ⟨rfl, rfl⟩ _⟩
  | lost hf => exact ⟨.lost rfl hf, Pc.idle_other ⟨rfl, rfl⟩ _⟩

/-- A collection pass drops only records that have ended. -/
theorem sweepCollected_dropped {k : GoString} {m : Mem} {x : ExecutionRecord} (hk : k ≠ [])
    (hfree : ∀ {o r}, m.offers.lookup o = some r → r.status ≠ .assigned → r.execution = [])
    (hx : m.executions.lookup k = some x)
    (h : (sweepCollected m).executions.lookup k = none) : x.phase.terminal = true := by
  have hloop := sweepCollected_rule (P := fun m' => m'.executions.lookup k = some x ∨
    x.phase.terminal = true) (.inl hx) ?_
  · obtain hkept | hdone := hloop
    · rw [hkept] at h
      cases h
    · exact hdone
  intro m' o r hm' ho _
  obtain hx' | hdone := hm'
  swap
  · exact .inr hdone
  unfold collectOffer
  split
  · exact .inl hx'
  rename_i hcollect
  by_cases hkey : k = r.execution
  · -- Here the record went: its offer was collectable, so it had ended.
    have hstatus : r.status = .assigned := by
      by_contra hne
      exact hk (hkey.trans (hfree ho hne))
    have hcan : r.collectable m.highWater m'.executions = true := by
      simp only [Bool.or_eq_true, Bool.not_eq_true', not_or, Bool.not_eq_false] at hcollect
      exact hcollect.2
    unfold OfferRecord.collectable at hcan
    rw [hstatus, ← hkey, hx'] at hcan
    simp only [Option.any_some, Bool.and_eq_true] at hcan
    exact .inr hcan.1
  · exact .inl ((AList.lookup_erase_ne hkey).trans hx')

theorem sweep_turn {err : Option GoErr} (hinv : LedgerInv cfg w.mem) (hsaved : Flushed cfg w')
    (i : Input) (k : GoString) :
    Turn (.collecting err) i next clock w' k (w.mem.executions.lookup k)
      ((sweepDropped (sweepCollected (sweepReady cfg i.now w.mem))).executions.lookup k) := by
  cases hx' : (sweepDropped (sweepCollected (sweepReady cfg i.now w.mem))).executions.lookup k with
  | some x =>
    rw [sweep_executions hx']
    exact .same (.inr ⟨nofun, nofun⟩)
  | none =>
    cases hx : w.mem.executions.lookup k with
    | none => exact .same (.inl rfl)
    | some x =>
      refine .collected rfl ?_ hsaved
      have hready := hinv.sweepReady i.now
      have hclock : (sweepReady cfg i.now w.mem).executions.lookup k = some x := by
        show (effectiveNow i.now w.mem).executions.lookup k = some x
        rw [effectiveNow_executions]
        exact hx
      exact sweepCollected_dropped (hinv.linked.execution hx).1
        (fun ho hne => hready.inv.linked.unassigned ho hne) hclock hx'

/-- Every section of every call. -/
theorem advance_turn {tid : Nat} (hw : LedgerWorld cfg w)
    (h : advance tid pc i w = some (w', next)) (k : GoString) :
    Turn pc i next w.mem.highWater w' k (w.mem.executions.lookup k)
      (w'.mem.executions.lookup k) := by
  obtain ⟨b, m, ha, hl⟩ := advance_effect h
  rw [hl.mem]
  cases ha with
  | same hpc | expired hpc | released hpc | unreleased hpc =>
    exact (SameExecutions.of_eq rfl).turn hpc k
  | unminted hpc hm | unassigned hpc hm =>
    subst hm
    exact (SameExecutions.of_eq rfl).turn hpc k
  | clock hpc hp =>
    cases hpc
    exact (SameExecutions.of_eq rfl).turn (Pc.quiet_of_framed hp) k
  | minted hpc hm | begun hpc hm =>
    subst hm
    cases hpc
    exact (SameExecutions.of_eq rfl).turn ⟨rfl, rfl⟩ k
  | answered hpc | bound hpc | cleaned hpc | uncleaned hpc | opened hpc | rechecked hpc =>
    cases hpc
    exact (SameExecutions.of_eq rfl).turn ⟨rfl, rfl⟩ k
  | @missed p id previous hpc hstop hx =>
    cases hpc
    by_cases hk : k = id
    · rw [hk, hx]
      exact .same (.inl rfl)
    · exact .same (.inr (Pc.stopOf_other hstop k hk))
  | @assigned e q r hpc ha hnext =>
    cases hpc
    cases hnext
    have hset : SetExecution q.executionID (assignRecord cfg i q r) w.mem
        (assigned cfg i q r (expireOffers i.now w.mem)) := setExecution_set w.mem _ _
    refine hset.turn (Pc.idle_other ⟨rfl, rfl⟩ _) ?_ k
    rw [ha.fresh]
    exact .assigned rfl ha.payload rfl rfl
  | started hpc hx =>
    cases hpc
    refine (startReturned_set hx i).turn (fun k hk => ⟨fun hs => ?_, fun p hs => ?_⟩) ?_ k
    · cases hs
      exact hk rfl
    · cases hs
    · rw [hx]
      exact .started rfl
  | cancelled hpc hq hactive hx hclient hnext =>
    cases hpc
    refine (setExecution_set _ _ _).turn (Pc.idle_other ⟨rfl, rfl⟩ _) ?_ k
    rw [hx]
    refine .cancelled hactive rfl hq rfl ?_ hl.flushed
    rw [← (hw.mem.linked.execution hx).2.1]
    exact Option.some.inj hnext
  | rewritten hpc hx => exact (sameExecutions_rewrite hx).turn hpc k
  | unstopped hpc hstop hfails hx =>
    cases hpc
    refine (stopFailed_set hx i).turn (Pc.stopOf_other hstop) ?_ k
    rw [hx]
    exact .unstopped hstop hfails
  | stopped hpc hend hx =>
    cases hpc
    obtain ⟨hturn, hother⟩ := hend.turn
    refine (stopSucceeded_set hx i.now).turn hother ?_ k
    rw [hx]
    exact hturn
  | reattached hpc hx hphase =>
    cases hpc
    refine (setExecution_set _ _ _).turn (Pc.idle_other ⟨rfl, rfl⟩ _) ?_ k
    rw [hx]
    exact .reattached rfl hphase
  | renewed hpc hq hx hclient hactive hnext =>
    cases hpc
    refine (setExecution_set _ _ _).turn (Pc.idle_other ⟨rfl, rfl⟩ _) ?_ k
    rw [hx]
    exact .renewed rfl hq rfl hclient hactive (Option.some.inj hnext) hl.flushed
  | evicted hpc hm hactive hx hlapsed hnext =>
    subst hm
    cases hpc
    have hclock : max w.mem.highWater i.now = max i.now w.mem.highWater := max_comm _ _
    refine (setExecution_set _ _ _).turn (Pc.idle_other ⟨rfl, rfl⟩ _) ?_ k
    have hx' : ({ w.mem with highWater := max w.mem.highWater i.now } : Mem).executions.lookup _
        = some _ := hx
    rw [hx']
    rw [hclock] at hlapsed ⊢
    refine .evicted hactive rfl hlapsed (Option.some.inj hnext) ?_ hl.flushed
    rw [hl.mem, ← hclock]
    rfl
  | unevicted hpc hm hx =>
    subst hm
    cases hpc
    exact (sameExecutions_rewrite hx).turn ⟨rfl, rfl⟩ k
  | swept hpc =>
    cases hpc
    exact sweep_turn hw.mem hl.flushed i k
  | closed hpc | completed hpc | uncompleted hpc => cases hpc

-- ===== the way to a stop

/-- How a call gets to a stop: its section put the record into CANCELLING
and saved that. -/
inductive Condemns (pc : Pc cfg) (i : Input) (w w' : World) : Pc cfg → Prop
  | cancelled {e q x} (hactive : x.phase.terminal = false ∧ x.phase ≠ .cancelling)
      (hpc : pc = .handling e) (hq : e.1.payload = some (.executionCancel q))
      (hx : w.mem.executions.lookup q.executionID = some x)
      (hx' : w'.mem.executions.lookup q.executionID = some (cancelling x q.reason i.now))
      (hsaved : Flushed cfg w') :
      Condemns pc i w w' (.stopping e q.reason x.id ⟨x.phase, hactive⟩ x.detail)
  | evicted {sweep err id x} (hactive : x.phase.terminal = false ∧ x.phase ≠ .cancelling)
      (hpc : pc = .evicting sweep err) (hx : w.mem.executions.lookup id = some x)
      (hx' : w'.mem.executions.lookup id
        = some (cancelling x leaseExpiredDetail (max i.now w.mem.highWater)))
      (hlapsed : x.leaseExpired (max i.now w.mem.highWater) = true)
      (hclock : w'.mem.highWater = max i.now w.mem.highWater) (hsaved : Flushed cfg w') :
      Condemns pc i w w' (.evictStopping sweep err id ⟨x.phase, hactive⟩ x.detail)

/-- Only a cancellation and a round of the eviction lead to a stop. -/
theorem advance_condemns {tid : Nat} {pc' : Pc cfg} {stop : GoString × ActivePhase}
    (h : advance tid pc i w = some (w', .goto pc')) (hstop : pc'.stopOf = some stop) :
    Condemns pc i w w' pc' := by
  have hloud : ¬Quiet ((some (.goto pc') : Option (Next cfg)).bind Next.pc) := by
    intro hquiet
    cases hquiet.2.symm.trans hstop
  have hlaunch : pc.launches = true := by
    by_contra hidle
    exact hloud (advance_quiet h (by simpa using hidle))
  obtain ⟨b, m, ha, hl⟩ := advance_effect h
  cases ha with
  | cancelled hpc hq hactive hx hclient hnext =>
    cases hpc
    cases hnext
    refine .cancelled hactive rfl hq hx ?_ hl.flushed
    rw [hl.mem]
    exact AList.lookup_insert _
  | evicted hpc hm hactive hx hlapsed hnext =>
    subst hm
    cases hpc
    cases hnext
    have hclock : max w.mem.highWater i.now = max i.now w.mem.highWater := max_comm _ _
    refine .evicted hactive rfl hx ?_ (hclock ▸ hlapsed) ?_ hl.flushed
    · rw [hl.mem, ← hclock]
      exact AList.lookup_insert _
    · rw [hl.mem, ← hclock]
      rfl
  | assigned _ _ hnext | renewed _ _ _ _ _ hnext =>
    cases hnext
    cases hstop
  | same _ hnext | expired _ _ hnext | minted _ _ _ _ _ _ _ _ hnext | clock _ _ hnext
  | unminted _ _ _ hnext | unassigned _ _ _ _ hnext | rewritten _ _ hnext
  | released _ _ _ hnext | unreleased _ _ _ hnext | unevicted _ _ _ hnext =>
    exact absurd hnext hloud
  | missed hpc hold | unstopped hpc hold =>
    cases hpc
    cases pc
    case stopping | evictStopping => cases hlaunch
    all_goals cases hold
  | stopped hpc hend =>
    cases hpc
    cases hend <;> cases hlaunch
  | closed hpc | completed hpc | uncompleted hpc => cases hpc
  | _ =>
    cases ‹some pc = some _›
    cases hlaunch

end R1s.Allocator
