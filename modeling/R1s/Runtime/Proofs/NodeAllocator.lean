/-
The allocator's sections keep the invariant of a node: a call that goes
on to a start begins it where nothing else is in progress, and a section
that ends a record acts on an answer of the runtime after which no start
is pending and no monitor has to report.
-/
import R1s.Runtime.Proofs.NodeRuntime

namespace R1s.Runtime

open Allocator

variable {cfg : Config} {n n' : Node cfg} {c : Call}

-- ===== a section of the allocator

theorem enter_lookup (n : Node cfg) (tid : Nat) (s : System cfg) (t : Nat) :
    (n.enter tid s).mgr.calls.lookup t =
      if t = tid then (s.threads.lookup tid).bind (callOf cfg s.world)
      else n.mgr.calls.lookup t := by
  unfold Node.enter
  cases hc : (s.threads.lookup tid).bind (callOf cfg s.world) with
  | some c => exact AList.lookup_insert_if _ _ _ _
  | none => exact AList.lookup_erase_if _ _ _

variable {pc : Pc cfg} {w : World}

/-- A call that begins holds no entry. -/
theorem callOf_launchOf (h : callOf cfg w pc = some c) : c.launchOf = none := by
  cases pc with
  | starting | reattaching =>
    obtain ⟨r, _, rfl⟩ := Option.map_eq_some_iff.mp h
    rfl
  | cleaning pending err evictErr =>
    cases pending with
    | nil => cases h
    | cons dead pending =>
      cases h
      rfl
  | _ =>
    first
      | cases h
        rfl
      | cases h

theorem MgrInv.enter (h : MgrInv n.mgr) (tid : Nat) (s : System cfg) :
    MgrInv (n.enter tid s).mgr := by
  unfold Node.enter
  cases hc : (s.threads.lookup tid).bind (callOf cfg s.world) with
  | some c =>
    obtain ⟨pc, _, hpc⟩ := Option.bind_eq_some_iff.mp hc
    exact h.setCall (.inl (callOf_launchOf hpc))
  | none => exact h.eraseCall tid

variable {id : GoString}

/-- A start that begins is the start of the call's own execution. -/
theorem callOf_pendingOf (hw : LedgerWorld cfg w) (hcalm : pc.recovers = false)
    (h : callOf cfg w pc = some c) (hp : c.pendingOf = some id) : pc.startOf = some id := by
  cases pc with
  | starting e k =>
    obtain ⟨r, hr, rfl⟩ := Option.map_eq_some_iff.mp h
    cases hp
    exact congrArg some (hw.mem.linked.execution hr).2.1.symm
  | reattaching ids k => cases hcalm
  | cleaning pending err evictErr =>
    cases pending with
    | nil => cases h
    | cons dead pending =>
      cases h
      cases hp
  | _ =>
    cases h
    first | done | cases hp

variable {i : Input} {tid : Nat}

/-- A call that goes on to a start: its assignment had no record, and has
one now. -/
theorem advance_starts {next : Next cfg} {w' : World} (h : advance tid pc i w = some (w', next))
    (hnext : next.pc.bind Pc.startOf = some id) :
    ∃ e q offer, pc = .handling e ∧ e.1.payload = some (.executionAssign q)
      ∧ q.executionID = id ∧ w.mem.executions.lookup id = none
      ∧ w'.mem.executions.lookup id = some (assignRecord cfg i q offer) := by
  cases next with
  | ret | done => cases hnext
  | goto pc' =>
    have hsucc := advance_succ h
    cases hsucc
    case starting e k =>
      cases hnext
      obtain ⟨q, offer, hq, hk, hnone, hsome⟩ := handle_starts h
      exact ⟨e, q, offer, rfl, hq, hk, hnone, hsome⟩
    all_goals cases hnext

/-- What the runtime answered, when the call had to wait for it. -/
theorem answered_returned (h : n.answered tid pc i = true) (hw : waits pc = true) :
    ∃ err, n.mgr.calls.lookup tid = some (.returned err) ∧ answers pc err i = true := by
  simp only [Node.answered, hw, Bool.not_true, Bool.false_or] at h
  split at h
  next err hc => exact ⟨err, hc, h⟩
  · cases h

theorem waits_of_startOf (h : pc.startOf = some id) : waits pc = true := by
  cases pc <;> first | rfl | cases h

theorem waits_of_stopOf {stop : GoString × ActivePhase} (h : pc.stopOf = some stop) :
    waits pc = true := by
  cases pc <;> first | rfl | cases h

/-- The runtime's answer to a start or a stop is the section's fault. -/
theorem fault_of_answers {err : Option Fault} (h : answers pc err i = true)
    (hpc : pc.startOf.isSome ∨ pc.stopOf.isSome) : i.fault = err := by
  cases pc with
  | starting | stopping | evictStopping => simpa [answers] using h
  | _ => rcases hpc with hpc | hpc <;> cases hpc

/-- A stop that returned an error of the manager counts as failed. -/
theorem stopFails_of_present {stop : GoString × ActivePhase} {f : Fault}
    (hstop : pc.stopOf = some stop) (hf : i.fault = some f) (hp : Present f) :
    pc.stopFails i = true := by
  have hnot : f.err.is .runtimeMissing = false := by
    cases hmissing : f.err.is .runtimeMissing with
    | false => rfl
    | true =>
      obtain ⟨mark, hmark, heq⟩ := List.mem_map.mp (List.contains_iff_mem.mp hmissing)
      cases mark <;> first | exact absurd hmark hp | cases heq
  cases pc with
  | stopping =>
    show i.fault.isSome = true
    rw [hf]
    rfl
  | evictStopping =>
    show (i.fault.any fun f => !f.err.is .runtimeMissing) = true
    rw [hf]
    simp [hnot]
  | _ => cases hstop

variable {s : System cfg}

/-- The start a call moved on to is that of its point. -/
theorem enter_starts (hw : LedgerWorld cfg s.world)
    (hcalm : (s.threads.lookup tid).bind Pc.recoverOf = none)
    (hp : ((n.enter tid s).mgr.calls.lookup tid).bind Call.pendingOf = some id) :
    (s.threads.lookup tid).bind Pc.startOf = some id := by
  rw [enter_lookup, if_pos rfl] at hp
  obtain ⟨c, hc, hpc⟩ := Option.bind_eq_some_iff.mp hp
  obtain ⟨pc, hlookup, hcall⟩ := Option.bind_eq_some_iff.mp hc
  rw [hlookup] at hcalm ⊢
  refine callOf_pendingOf hw ?_ hcall hpc
  simpa [Pc.recoverOf] using hcalm

/-- A start that is pending after a call moved on was pending, or is the
call's own. -/
theorem pending_enter (hw : LedgerWorld cfg s.world)
    (hcalm : (s.threads.lookup tid).bind Pc.recoverOf = none)
    (hp : Pending (n.enter tid s).mgr id) :
    Pending n.mgr id ∨ (s.threads.lookup tid).bind Pc.startOf = some id := by
  obtain ⟨t, ht⟩ := hp
  by_cases htid : t = tid
  · rw [htid] at ht
    exact .inr (enter_starts hw hcalm ht)
  · rw [enter_lookup, if_neg htid] at ht
    exact .inl ⟨t, ht⟩

/-- The condition on an assignment that goes on to its start. -/
theorem inOrder_assigns {e : Inbound cfg} {q : ExecutionAssign}
    (hok : n.inOrder (.alloc (.run tid i)) = true)
    (hpc : n.sys.threads.lookup tid = some (.handling e))
    (hq : e.1.payload = some (.executionAssign q))
    (hnone : n.sys.world.mem.executions.lookup q.executionID = none) :
    n.sys.inFlight q.executionID = false := by
  have hassigns : n.assigns tid = some q := by
    simp [Node.assigns, hpc, hq]
  simpa [Node.inOrder, hassigns, hnone] using hok

theorem not_inFlight (h : s.inFlight id = false) : ¬s.Starts id ∧ ¬s.Stops id := by
  have hne : ¬s.inFlight id = true := by simp [h]
  constructor
  · intro ⟨t, ht⟩
    obtain ⟨pc, hpc, hstart⟩ := Option.bind_eq_some_iff.mp ht
    exact hne (AList.any_eq_true.mpr ⟨t, pc, hpc, by simp [hstart]⟩)
  · intro ⟨t, previous, ht⟩
    obtain ⟨pc, hpc, hstop⟩ := Option.bind_eq_some_iff.mp ht
    exact hne (AList.any_eq_true.mpr ⟨t, pc, hpc, by simp [hstop]⟩)

section Advance

variable {tid : Nat} {pc : Pc cfg} {next : Next cfg} {i : Input} {w' : World}

/-- A call goes on to a start only when nothing is in progress for the
execution. -/
theorem NodeInv.commits {id : GoString} (hpc : n.sys.threads.lookup tid = some pc)
    (hadv : advance tid pc i n.sys.world = some (w', next))
    (hok : n.inOrder (.alloc (.run tid i)) = true) (hnext : next.pc.bind Pc.startOf = some id) :
    Ended n.sys.world id ∧ ¬Ended w' id ∧ ¬n.sys.Starts id ∧ ¬n.sys.Stops id := by
  obtain ⟨e, q, offer, rfl, hq, rfl, hnone, hsome⟩ := advance_starts hadv hnext
  refine ⟨fun x hx => ?_, fun hend => ?_, not_inFlight (inOrder_assigns hok hpc hq hnone)⟩
  · rw [hnone] at hx
    cases hx
  · cases hend _ hsome

variable (h : NodeInv n) (hpc : n.sys.threads.lookup tid = some pc)
  (hans : n.answered tid pc i = true)
include h hpc hans

/-- The call had no start pending when its section ran. -/
theorem NodeInv.not_pendingOf : (n.mgr.calls.lookup tid).bind Call.pendingOf = none := by
  cases hp : (n.mgr.calls.lookup tid).bind Call.pendingOf with
  | none => rfl
  | some id =>
    have hstart := h.starts hp
    rw [hpc] at hstart
    obtain ⟨err, hc, _⟩ := answered_returned hans (waits_of_startOf hstart)
    rw [hc] at hp
    cases hp

/-- A section that ends an execution leaves no start of it pending and no
monitor of it to report. -/
theorem NodeInv.ends {id : GoString} (hadv : advance tid pc i n.sys.world = some (w', next))
    (hlive : ¬Ended n.sys.world id) (hend : Ended w' id) :
    ¬Unreported n.mgr id ∧
      ∀ t, t ≠ tid → (n.mgr.calls.lookup t).bind Call.pendingOf ≠ some id := by
  have hstep := advance_record h.ledger hadv id
  have hcalm : pc.recovers = false := by
    have := h.calm tid
    rw [hpc] at this
    simpa [Pc.recoverOf] using this
  cases hx : n.sys.world.mem.executions.lookup id with
  | none =>
    refine absurd (fun x hsome => ?_) hlive
    rw [hx] at hsome
    cases hsome
  | some x =>
    have hx_live : x.phase.terminal ≠ true := by
      intro hterm
      refine hlive fun y hy => ?_
      rw [hx] at hy
      cases hy
      exact hterm
    rw [hx] at hstep
    cases hx' : w'.mem.executions.lookup id with
    | none =>
      rw [hx'] at hstep
      cases hstep with
      | collected _ hterm => exact absurd hterm hx_live
    | some x' =>
      have hterm := hend x' hx'
      rw [hx'] at hstep
      cases hstep with
      | same | renewed => exact absurd hterm hx_live
      | started he =>
        have hown : pc.startOf = some id := by rw [he]; rfl
        have hstart : (n.sys.threads.lookup tid).bind Pc.startOf = some id := by
          rw [hpc]
          exact hown
        obtain ⟨err, hc, hanswer⟩ := answered_returned hans (waits_of_startOf hown)
        have hfault := fault_of_answers hanswer (.inl (by rw [hown]; rfl))
        unfold startedRecord at hterm
        split at hterm
        · cases hf : i.fault with
          | none =>
            rw [hf] at hterm
            cases hterm
          | some f =>
            rw [hf] at hfault
            refine ⟨h.unlaunched hstart hc (by rw [← hfault]; rfl), ?_⟩
            intro t ht hp
            exact ht (h.single (h.starts hp) hstart)
        · exact absurd hterm hx_live
      | cancelling | reattached => cases hterm
      | @unstopped _ previous detail _ _ =>
        unfold unstopped at hterm
        split at hterm
        · exact absurd hterm (by simp [previous.2.1])
        · exact absurd hterm hx_live
      | @stopped _ previous _ phase hown hfine =>
        have hstop : (n.sys.threads.lookup tid).bind Pc.stopOf = some (id, previous) := by
          rw [hpc]
          exact hown
        obtain ⟨err, hc, hanswer⟩ := answered_returned hans (waits_of_stopOf hown)
        have hfault := fault_of_answers hanswer (.inr (by rw [hown]; rfl))
        have hs := h.stops hstop hc
        cases err with
        | none => exact ⟨hs.2, fun t _ hp => hs.1 ⟨t, hp⟩⟩
        | some f => exact absurd (stopFails_of_present hown hfault hs) (by simp [hfine])
      | recovered phase hrec =>
        rw [hcalm] at hrec
        cases hrec

/-- A section of a call of the allocator. -/
theorem NodeInv.advance (hadv : advance tid pc i n.sys.world = some (w', next))
    (hok : n.inOrder (.alloc (.run tid i)) = true) :
    NodeInv (n.enter tid (n.sys.resume tid pc i (w', next))) := by
  have hw' : LedgerWorld cfg w' := (h.ledger.section (advance_effect hadv)).inv
  have hself : ((n.sys.resume tid pc i (w', next)).threads.lookup tid) = next.pc :=
    resume_self ..
  have hother : ∀ {β : Type} (g : Pc cfg → Option β),
      (∀ e owner reply, g (.waiting e owner) = g (.answered e reply)) → ∀ {t}, t ≠ tid →
      ((n.sys.resume tid pc i (w', next)).threads.lookup t).bind g
        = (n.sys.threads.lookup t).bind g :=
    fun g hg _ ht => resume_other g hg n.sys ht pc i _
  have hcommit : ∀ {id}, next.pc.bind Pc.startOf = some id →
      Ended n.sys.world id ∧ ¬Ended w' id ∧ ¬n.sys.Starts id ∧ ¬n.sys.Stops id :=
    fun hnext => NodeInv.commits hpc hadv hok hnext
  have hcalm : next.pc.bind Pc.recoverOf = none := by
    have hold := h.calm tid
    rw [hpc] at hold
    cases next with
    | goto pc' =>
      show Pc.recoverOf pc' = none
      unfold Pc.recoverOf
      rw [(advance_succ hadv).recovers]
      exact hold
    | _ => rfl
  have hcalm' : ((n.sys.resume tid pc i (w', next)).threads.lookup tid).bind Pc.recoverOf
      = none := by
    rw [hself]
    exact hcalm
  have hpending : ∀ {id}, Pending (n.enter tid (n.sys.resume tid pc i (w', next))).mgr id →
      Pending n.mgr id ∨ next.pc.bind Pc.startOf = some id := by
    intro id hp
    have hcase := pending_enter hw' hcalm' hp
    rw [hself] at hcase
    exact hcase
  constructor
  case ledger => exact hw'
  case mgr => exact h.mgr.enter tid _
  case calm =>
    intro t
    by_cases ht : t = tid
    · rw [ht]
      exact hcalm'
    · exact (hother Pc.recoverOf (fun _ _ _ => rfl) ht).trans (h.calm t)
  case starts =>
    intro t id ht
    by_cases htid : t = tid
    · rw [htid] at ht ⊢
      exact enter_starts hw' hcalm' ht
    · rw [enter_lookup, if_neg htid] at ht
      exact (hother Pc.startOf (fun _ _ _ => rfl) htid).trans (h.starts ht)
  case single =>
    intro t t' id ht ht'
    have hsplit : ∀ {t}, ((n.sys.resume tid pc i (w', next)).threads.lookup t).bind Pc.startOf
        = some id → t = tid ∧ next.pc.bind Pc.startOf = some id
          ∨ (n.sys.threads.lookup t).bind Pc.startOf = some id := by
      intro t ht
      by_cases htid : t = tid
      · rw [htid, hself] at ht
        exact .inl ⟨htid, ht⟩
      · rw [hother Pc.startOf (fun _ _ _ => rfl) htid] at ht
        exact .inr ht
    rcases hsplit ht with ⟨rfl, hnext⟩ | hold <;> rcases hsplit ht' with ⟨rfl, hnext'⟩ | hold'
    · rfl
    · exact absurd ⟨t', hold'⟩ (hcommit hnext).2.2.1
    · exact absurd ⟨t, hold⟩ (hcommit hnext').2.2.1
    · exact h.single hold hold'
  case unlaunched =>
    intro t id c hstart hc hun
    by_cases htid : t = tid
    · rw [htid] at hstart
      have hnext : next.pc.bind Pc.startOf = some id := by
        rw [← hself]
        exact hstart
      exact (h.ended (hcommit hnext).1).2
    · rw [enter_lookup, if_neg htid] at hc
      have hold := (hother Pc.startOf (fun _ _ _ => rfl) htid).symm.trans hstart
      exact h.unlaunched hold hc hun
  case ended =>
    intro id hend
    by_cases hold : Ended n.sys.world id
    · obtain ⟨hno, hnu⟩ := h.ended hold
      exact ⟨fun hp => (hpending hp).elim hno fun hnext => (hcommit hnext).2.1 hend, hnu⟩
    · obtain ⟨hnu, hno⟩ := h.ends hpc hans hadv hold hend
      refine ⟨fun ⟨t, ht⟩ => ?_, hnu⟩
      by_cases htid : t = tid
      · rw [htid] at ht
        have hnext := enter_starts hw' hcalm' ht
        rw [hself] at hnext
        exact hold (hcommit hnext).1
      · rw [enter_lookup, if_neg htid] at ht
        exact hno t htid ht
  case running =>
    intro id hrun
    rcases h.running hrun with ⟨t, q, ht⟩ | hwatch
    · have htid : t ≠ tid := by
        intro htid
        have hnone := h.not_pendingOf hpc hans
        rw [← htid, ht] at hnone
        cases hnone
      refine .inl ⟨t, q, ?_⟩
      rw [enter_lookup, if_neg htid]
      exact ht
    · exact .inr hwatch
  case stops =>
    intro t id previous d hstop hd
    by_cases htid : t = tid
    · rw [htid] at hstop hd
      rw [enter_lookup, if_pos rfl, hself] at hd
      have hstop' : next.pc.bind Pc.stopOf = some (id, previous) := by
        rw [← hself]
        exact hstop
      obtain ⟨pc', hnext, hpc'⟩ := Option.bind_eq_some_iff.mp hstop'
      rw [hnext] at hd
      cases pc' with
      | stopping | evictStopping =>
        cases hpc'
        cases hd
        rfl
      | _ => cases hpc'
    · rw [enter_lookup, if_neg htid] at hd
      have hold := (hother Pc.stopOf (fun _ _ _ => rfl) htid).symm.trans hstop
      refine (h.stops hold hd).mono (fun hp => ?_) .inl fun q => .inl
      refine (hpending hp).elim (fun hp => hp) fun hnext => ?_
      exact absurd ⟨t, previous, hold⟩ (hcommit hnext).2.2.2

end Advance

end R1s.Runtime
