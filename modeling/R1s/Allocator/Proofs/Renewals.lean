/-
Lease renewals over whole runs: how often one renewal envelope changes
the lease of its execution. The cache keeps a redelivered renewal from
its handler while it holds the entry, but the freshness check lets the
envelope in for seven days, and the entry may be gone long before: past
the replay TTL, pushed out by other traffic, or never saved.

# What is observed

An observer counts, for one sender and message ID, the handler sections
that leave the lease of the named execution other than they found it.
The count stays at one in the runs in which a renewal that was applied
never finds its entry gone (`remembered`).
-/
import R1s.Allocator.Proofs.Cache
import R1s.Allocator.Proofs.Phases

namespace R1s.Allocator

variable {cfg : Config}

-- ===== the observer

/-- The stored lease expiry of an execution. -/
def System.leaseOf (s : System cfg) (id : GoString) : Option Int :=
  (s.world.mem.executions.lookup id).map ExecutionRecord.leaseUntil

/-- The renewal an envelope with this sender and message ID carries. -/
def renewalOf (sender : Bytes) (messageID : GoString) (e : Envelope) :
    Option ExecutionLeaseRenew :=
  match e.payload with
  | some (.executionLeaseRenew q) =>
    if e.sender = sender ∧ e.messageID = messageID then some q else none
  | _ => none

/-- The step is the handler section of the renewal, and changes the lease
it finds. -/
def renews (sender : Bytes) (messageID : GoString) (s : System cfg) (l : Label cfg)
    (t : System cfg) : Bool :=
  match l with
  | .run tid _ =>
    match (s.threads.lookup tid).bind Pc.atHandler with
    | some e =>
      (renewalOf sender messageID e.1).any fun q =>
        s.leaseOf q.executionID ≠ t.leaseOf q.executionID
    | none => false
  | _ => false

/-- The allocator beside a count of the changes of one renewal. -/
def renewalCount (cfg : Config) (sender : Bytes) (messageID : GoString) :
    TransitionSystem (System cfg × Nat) (Label cfg) :=
  (machine cfg).observe 0 fun s l t n =>
    if renews sender messageID s l t then n + 1 else n

/-- The step does not begin the renewal again, once applied, without its
entry. -/
def remembered (sender : Bytes) (messageID : GoString) (s : System cfg × Nat) :
    Label cfg → Bool
  | .run tid i =>
    match s.1.threads.lookup tid with
    | some (.dispatching e) =>
      (renewalOf sender messageID e.1).isNone || s.2 = 0 ||
        ((prune cfg i.now s.1.world.mem.replay).lookup (replayKey e.1)).isSome
    | _ => true
  | _ => true

-- ===== the invariant

section Invariant

variable {sender : Bytes} {messageID : GoString}

theorem renewalOf_key {e e' : Envelope} (h : (renewalOf sender messageID e).isSome = true)
    (h' : (renewalOf sender messageID e').isSome = true) : replayKey e = replayKey e' := by
  have hkey : ∀ e : Envelope, (renewalOf sender messageID e).isSome = true →
      e.sender = sender ∧ e.messageID = messageID := by
    intro e he
    unfold renewalOf at he
    split at he
    · split at he
      next hsame => exact hsame
      · cases he
    · cases he
  obtain ⟨hs, hid⟩ := hkey e h
  obtain ⟨hs', hid'⟩ := hkey e' h'
  unfold replayKey
  rw [hs, hid, hs', hid']

/-- Once the renewal was applied, no call is about to run its handler. -/
structure AppliedOnce (sender : Bytes) (messageID : GoString) (s : System cfg × Nat) :
    Prop where
  le : s.2 ≤ 1
  settled : s.2 = 1 → ∀ tid e, (s.1.threads.lookup tid).bind Pc.atHandler = some e →
    renewalOf sender messageID e.1 = none

variable {pc : Pc cfg}

theorem atHandler_handles {e : Inbound cfg} (h : pc.atHandler = some e) :
    pc = .handling e ∧ pc.handles = some e := by
  cases pc with
  | handling e' =>
    cases h
    exact ⟨rfl, rfl⟩
  | _ => cases h

variable {s : System cfg}

/-- The section that applies the renewal: it is the first to do so, and
no other call is about to. -/
theorem AppliedOnce.applied {n tid : Nat} {e : Inbound cfg} {i : Input}
    {r : World × Next cfg} (h : AppliedOnce sender messageID (s, n)) (hc : CacheInv s)
    (hpc : s.threads.lookup tid = some pc) (hr : advance tid pc i s.world = some r)
    (hat : pc.atHandler = some e) (hrenewal : (renewalOf sender messageID e.1).isSome = true) :
    AppliedOnce sender messageID (s.resume tid pc i r, n + 1) := by
  have hn : n = 0 := by
    have hle : n ≤ 1 := h.le
    by_contra hne
    have hnone := h.settled (by omega) tid e (by rw [hpc]; exact hat)
    rw [hnone] at hrenewal
    cases hrenewal
  subst hn
  refine ⟨le_refl 1, ?_⟩
  intro _ t e' he'
  obtain ⟨rfl, hhandles⟩ := atHandler_handles hat
  rcases resume_bind Pc.atHandler (fun _ _ _ => rfl) he' with
    ⟨hne, hold⟩ | ⟨rfl, pc', hnext, hat'⟩
  · -- Two calls with this key would have the same entry in flight.
    cases hother : renewalOf sender messageID e'.1 with
    | none => rfl
    | some q =>
      obtain ⟨pc', hpc', hat'⟩ := Option.bind_eq_some_iff.mp hold
      have hmine := hc.owned tid e (by rw [hpc]; exact hhandles)
      have htheirs := hc.owned t e' (by rw [hpc']; exact (atHandler_handles hat').2)
      have hkey : replayKey e'.1 = replayKey e.1 :=
        renewalOf_key (by rw [hother]; rfl) hrenewal
      exact absurd (htheirs.unique hmine hkey) hne
  · -- The call goes on to a later point.
    have hr' : advance t (.handling e) i s.world = some (r.1, .goto pc') := by rw [hr, ← hnext]
    have hsucc := advance_succ hr'
    cases hsucc <;> cases hat'

/-- The sections that do not apply the renewal. -/
theorem AppliedOnce.other {n tid : Nat} {i : Input} {r : World × Next cfg}
    (h : AppliedOnce sender messageID (s, n)) (hpc : s.threads.lookup tid = some pc)
    (hr : advance tid pc i s.world = some r)
    (hok : remembered sender messageID (s, n) (.run tid i) = true) :
    AppliedOnce sender messageID (s.resume tid pc i r, n) := by
  refine ⟨h.le, ?_⟩
  intro hn t e' he'
  have hn' : n = 1 := hn
  rcases resume_bind Pc.atHandler (fun _ _ _ => rfl) he' with
    ⟨-, hold⟩ | ⟨rfl, pc', hnext, hat'⟩
  · exact h.settled hn t e' hold
  · obtain ⟨rfl, -⟩ := atHandler_handles hat'
    have hr' : advance t pc i s.world = some (r.1, .goto (.handling e')) := by
      rw [hr, ← hnext]
    have hsucc := advance_succ hr'
    cases hsucc
    -- The call begins the command: the cache has no entry of it.
    have hnew := beginReplay_new (congrArg Prod.snd (Option.some.inj hr'))
    cases hother : renewalOf sender messageID e'.1 with
    | none => rfl
    | some q =>
      simp only [remembered, hpc, hother, hnew] at hok
      simp [hn'] at hok

/-- A step after which no call that was not there before is about to run
a handler. -/
theorem AppliedOnce.quiet {n : Nat} {t : System cfg} (h : AppliedOnce sender messageID (s, n))
    (hcalls : ∀ tid e, (t.threads.lookup tid).bind Pc.atHandler = some e →
      (s.threads.lookup tid).bind Pc.atHandler = some e) :
    AppliedOnce sender messageID (t, n) :=
  ⟨h.le, fun hn tid e he => h.settled hn tid e (hcalls tid e he)⟩

theorem AppliedOnce.step {n : Nat} {t : System cfg} {l : Label cfg}
    (h : AppliedOnce sender messageID (s, n)) (hc : CacheInv s)
    (hok : remembered sender messageID (s, n) l = true) (hstep : s.step l = some t) :
    AppliedOnce sender messageID
      (t, if renews sender messageID s l t then n + 1 else n) := by
  cases step_kind hstep with
  | run hpc hr =>
    split
    next hrenews =>
      simp only [renews, hpc, Option.bind_some] at hrenews
      split at hrenews
      next e hat =>
        obtain ⟨q, hq, -⟩ := (Option.any_eq_true _ _).mp hrenews
        exact h.applied hc hpc hr hat (by rw [hq]; rfl)
      · cases hrenews
    · exact h.other hpc hr hok
  | other hrun _ _ hentered =>
    have hquiet : renews sender messageID s l t = false := by
      cases l with
      | run tid i => exact absurd rfl (hrun tid i)
      | _ => rfl
    rw [hquiet, if_neg Bool.false_ne_true]
    apply h.quiet
    intro tid e he
    refine hentered.bind ?_ he
    intro pc hpc
    cases pc <;> first | rfl | cases hpc
  | restart =>
    apply h.quiet
    intro tid e he
    rw [(restart_step hstep).2.2.2] at he
    cases he

end Invariant

/-- However often a renewal is delivered, it changes the lease of its
execution once at most, in every run in which a renewal that was applied
does not begin again without its entry. -/
theorem renewal_applies_once (cfg : Config) (sender : Bytes) (messageID : GoString)
    {s : System cfg × Nat}
    (hs : (renewalCount cfg sender messageID).ReachWhen
      (fun s l => remembered sender messageID s l = true) s) : s.2 ≤ 1 := by
  have hinv : AppliedOnce sender messageID s := by
    refine hs.observed (I := fun s n => AppliedOnce sender messageID (s, n)) ?_ ?_
    · rintro s rfl
      exact ⟨Nat.zero_le 1, fun hn => absurd hn Nat.zero_ne_one⟩
    · intro s l t n hs _ h hok hstep
      exact h.step (cacheInv_reachable hs) hok hstep
  exact hinv.le

-- ===== sample runs

/-- A renewal of the sample execution by one minute. -/
def renewCommand : Inbound oneSlot :=
  ⟨fromAlice (text "m4") (.executionLeaseRenew ⟨text "x", some ⟨60, 0⟩⟩), by decide +kernel⟩

/-- A delivery of the renewal at `now`, to its end or as far as the
cache lets it. -/
def renewRun (tid : Nat) (now : Int) : List (Label oneSlot) :=
  [ .call tid renewCommand, .run tid { now := now }, .run tid { now := now },
    .run tid { now := now, id := text "a2" } ]

/-- The renewal applied, and the return of its call. -/
def renewedRun : List (Label oneSlot) :=
  requestRun ++ assignRun ++ answerRun 1 none ++ renewRun 3 epoch ++ [.run 3 { now := epoch }]

/-- Twenty minutes later the entry is past its TTL and the command still
fresh: the redelivery moves the lease again. -/
theorem renewal_applies_twice :
    ∃ s, (renewalCount oneSlot alice (text "m4")).Reach s ∧ s.2 = 2 := by
  exact (renewalCount oneSlot alice (text "m4")).exists_reach (.observe rfl)
    (renewedRun ++ renewRun 4 (epoch + 20 * minute)) _ (by decide +kernel)

/-- A redelivery within the TTL is answered from the cache. -/
theorem renewal_applies_once_redelivered :
    ∃ s, (renewalCount oneSlot alice (text "m4")).ReachWhen
        (fun s l => remembered alice (text "m4") s l = true) s ∧
      s.1.threads.keys = [] ∧ s.2 = 1 ∧ s.2 ≤ 1 := by
  obtain ⟨s, hs, hp⟩ := (renewalCount oneSlot alice (text "m4")).exists_reachWhen
    (fun s l => remembered alice (text "m4") s l = true) (.observe rfl)
    (renewedRun ++ renewRun 4 (epoch + minute))
    (fun s => s.1.threads.keys = [] ∧ s.2 = 1) (by decide +kernel)
  exact ⟨s, hs, hp.1, hp.2, renewal_applies_once oneSlot alice (text "m4") hs⟩

end R1s.Allocator
