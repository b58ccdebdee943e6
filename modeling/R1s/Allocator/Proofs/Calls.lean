/-
The calls in progress: which points follow which, which calls stand
between the two sections of a start or a stop, and that a section of one
call leaves the other calls where they are.
-/
import R1s.Allocator.Machine

namespace R1s.Allocator

open Option (map_eq_some_iff some)
open Prod (snd)

variable {cfg : Config} {s : System cfg} {w w' : World} {i : Input}

-- ===== calls in progress

/-- The execution whose start the call waits for. -/
def Pc.startOf : Pc cfg → Option GoString
  | .starting _ id => some id
  | _ => none

/-- The execution whose stop the call waits for, with the phase a failed
stop returns it to. -/
def Pc.stopOf : Pc cfg → Option (GoString × ActivePhase)
  | .stopping _ _ id previousPhase _ => some (id, previousPhase)
  | .evictStopping _ _ id previousPhase _ => some (id, previousPhase)
  | _ => none

/-- The stop's answer counts as a failure: an eviction takes a missing
task for a stopped one. -/
def Pc.stopFails (i : Input) : Pc cfg → Bool
  | .stopping .. => i.fault.isSome
  | .evictStopping .. => i.fault.any fun f => !f.err.is .runtimeMissing
  | _ => false

/-- The command whose handler the call is about to run. -/
def Pc.atHandler : Pc cfg → Option (Inbound cfg)
  | .handling e => some e
  | _ => none

/-- The points of `Recover`. -/
def Pc.recovers : Pc cfg → Bool
  | .scanning | .recovering _ | .recoverStopping .. | .reattaching _ _ => true
  | _ => false

def Pc.recoverOf (pc : Pc cfg) : Option Unit := if pc.recovers then some () else none

/-- The command a call finishes, and its reply. -/
def Pc.finishes : Pc cfg → Option (Inbound cfg × Reply)
  | .finishing e reply => some (e, reply)
  | _ => none

/-- The point a section leads to. -/
def Next.pc : Next cfg → Option (Pc cfg)
  | .goto pc => some pc
  | _ => none

variable {pc : Pc cfg}

theorem Next.pc_eq_some {next : Next cfg} : next.pc = some pc ↔ next = .goto pc := by
  cases next <;> simp [Next.pc]

/-- A call between the two sections of an assignment of `id`. -/
def System.Starts (s : System cfg) (id : GoString) : Prop :=
  ∃ t, (s.threads.lookup t).bind Pc.startOf = some id

/-- A call between the two sections of a cancellation or eviction of
`id`. -/
def System.Stops (s : System cfg) (id : GoString) : Prop :=
  ∃ t previous, (s.threads.lookup t).bind Pc.stopOf = some (id, previous)

theorem resume_self (s : System cfg) (tid : Nat) (pc : Pc cfg) (i : Input)
    (r : World × Next cfg) : (s.resume tid pc i r).threads.lookup tid = r.2.pc := by
  unfold System.resume
  cases hn : r.2 with
  | goto | done => simp [Next.pc]
  | ret reply =>
    cases pc
    all_goals simp [Next.pc, AList.lookup_mapVal]

variable {tid : Nat}

/-- A section changes no other call, except that it may answer calls that
wait for it. -/
theorem resume_other {β : Type} (g : Pc cfg → Option β)
    (hg : ∀ e owner reply, g (.waiting e owner) = g (.answered e reply)) (s : System cfg)
    {t : Nat} (ht : t ≠ tid) (pc : Pc cfg) (i : Input) (r : World × Next cfg) :
    ((s.resume tid pc i r).threads.lookup t).bind g = (s.threads.lookup t).bind g := by
  have hwake : ∀ reply (pc : Pc cfg), g (wake tid reply pc) = g pc := by
    intro reply pc
    cases pc
    case waiting e owner =>
      show g (if owner = tid then .answered e reply else .waiting e owner) = _
      split
      · exact (hg e owner reply).symm
      · rfl
    all_goals rfl
  have herase : ((s.threads.erase tid).lookup t) = s.threads.lookup t :=
    AList.lookup_erase_ne ht
  unfold System.resume
  cases hn : r.2 with
  | goto pc' => simp [AList.lookup_insert_ne ht]
  | done err => simp [herase]
  | ret reply =>
    cases pc
    case finishing e published =>
      simp only [AList.lookup_mapVal, herase]
      cases s.threads.lookup t with
      | none => rfl
      | some pc' => exact hwake _ pc'
    all_goals simp [herase]

/-- The points at which a call enters. -/
def Pc.entry : Pc cfg → Bool
  | .received _ | .evicting _ none | .scanning | .tunnelOpening _ _ => true
  | _ => false

theorem entry_idle (h : pc.entry = true) : pc.startOf = none ∧ pc.stopOf = none := by
  cases pc <;> first | exact ⟨rfl, rfl⟩ | cases h

def Label.isRestart : Label cfg → Bool
  | .restart _ _ => true
  | _ => false

theorem Label.restarts (l : Label cfg) (h : ¬l.isRestart = false) :
    ∃ granted now, l = .restart granted now := by
  cases l with
  | restart granted now => exact ⟨granted, now, rfl⟩
  | _ => exact absurd rfl h

/-- The invariant rule: what holds at the start, and the steps of a
process and the restarts keep. -/
theorem machine_invariant {ok : System cfg → Label cfg → Prop} {I : System cfg → Prop}
    (h0 : I (System.initial cfg))
    (hstep : ∀ s l t, (machine cfg).Reach s → I s → ok s l → l.isRestart = false →
      s.step l = some t → I t)
    (hrestart : ∀ s t granted now, (machine cfg).Reach s → I s → ok s (.restart granted now) →
      s.step (.restart granted now) = some t → I t)
    (hs : (machine cfg).ReachWhen ok s) : I s := by
  refine hs.invariant_with (J := (machine cfg).Reach) (fun _ hs => hs.mono fun _ _ _ => trivial)
    ?_ ?_
  · rintro s rfl
    exact h0
  · intro s l t hs _ h hok hnext
    by_cases hl : l.isRestart = false
    · exact hstep s l t hs h hok hl hnext
    · obtain ⟨granted, now, rfl⟩ := l.restarts hl
      exact hrestart s t granted now hs h hok hnext

/-- A call runs one section. -/
theorem run_step {s t : System cfg} {tid : Nat} {i : Input} (h : s.step (.run tid i) = some t) :
    ∃ pc r, s.threads.lookup tid = some pc ∧ advance tid pc i s.world = some r ∧
      t = s.resume tid pc i r := by
  obtain ⟨pc, hpc, hadv⟩ := Option.bind_eq_some_iff.mp h
  obtain ⟨r, hr, rfl⟩ := map_eq_some_iff.mp hadv
  exact ⟨pc, r, hpc, hr, rfl⟩

-- ===== successors

/-- The points a section leads to. A call of `Handle` keeps its
envelope. -/
inductive Pc.Succ : Pc cfg → Pc cfg → Prop
  | logging {e q} : Succ (.received e) (.logging e q)
  | dispatching {e} (h : replayed e.1 = true) : Succ (.received e) (.dispatching e)
  | answered {e reply} : Succ (.dispatching e) (.answered e reply)
  | waiting {e owner} : Succ (.dispatching e) (.waiting e owner)
  | handling {e} : Succ (.dispatching e) (.handling e)
  | handled {e reply} : Succ (.handling e) (.finishing e reply)
  | starting {e id} : Succ (.handling e) (.starting e id)
  | stopping {e reason id previous detail} :
      Succ (.handling e) (.stopping e reason id previous detail)
  | binding {e request now} : Succ (.handling e) (.binding e request now)
  | started {e id reply} : Succ (.starting e id) (.finishing e reply)
  | stopped {e reason id previous detail reply} :
      Succ (.stopping e reason id previous detail) (.finishing e reply)
  | bound {e request now reply} : Succ (.binding e request now) (.finishing e reply)
  | evictStopping {sweep err err' id previous detail} :
      Succ (.evicting sweep err) (.evictStopping sweep err' id previous detail)
  | evicting {sweep err err' id previous detail} :
      Succ (.evictStopping sweep err id previous detail) (.evicting sweep err')
  | evicted {err err'} : Succ (.evicting true err) (.collecting err')
  | unevicted {err err' id previous detail} :
      Succ (.evictStopping true err id previous detail) (.collecting err')
  | collected {evictErr err pending} : Succ (.collecting evictErr) (.cleaning pending err evictErr)
  | cleaned {dead pending err err' evictErr} :
      Succ (.cleaning (dead :: pending) err evictErr) (.cleaning pending err' evictErr)
  | scanned {ids} : Succ .scanning (.recovering ids)
  | skipped {ids id} : Succ (.recovering (id :: ids)) (.recovering ids)
  | recoverStopping {ids id detail phase} :
      Succ (.recovering (id :: ids)) (.recoverStopping ids id phase detail)
  | reattaching {ids id} : Succ (.recovering (id :: ids)) (.reattaching ids id)
  | recoverStopped {ids id detail phase} :
      Succ (.recoverStopping ids id phase detail) (.recovering ids)
  | reattached {ids id} : Succ (.reattaching ids id) (.recovering ids)
  | granting {id peerKey} : Succ (.tunnelOpening id peerKey) (.tunnelGranting id peerKey)
  | checking {id peerKey session} : Succ (.tunnelGranting id peerKey) (.tunnelChecking id session)

variable {pc' : Pc cfg}

/-- Other calls do not turn into `Recover`. -/
theorem Pc.Succ.recovers (h : pc.Succ pc') : pc'.recovers = pc.recovers := by
  cases h <;> rfl

variable {e : Inbound cfg}

theorem receive_succ (i : Input) (w : World) (h : (receive i e w).2 = .goto pc') :
    (Pc.received e).Succ pc' := by
  unfold receive at h
  dsimp only at h
  split at h
  · cases h
  split at h
  · cases h
    exact .logging
  split at h
  next hreplayed =>
    cases h
    exact .dispatching hreplayed
  · cases h

theorem beginReplay_succ (i : Input) (w : World) (h : (beginReplay tid i e w).2 = .goto pc') :
    (Pc.dispatching e).Succ pc' := by
  unfold beginReplay at h
  dsimp only at h
  split at h
  · cases h
  · cases h
  next entry _ =>
    cases h
    split
    · exact .answered
    · exact .waiting
  split at h
  · cases h
    exact .handling
  · cases h

theorem outcome_succ {o : Outcome} (h : o.next e = .goto pc') : (Pc.handling e).Succ pc' := by
  cases o with
  | reply r =>
    cases h
    exact .handled
  | start id =>
    cases h
    exact .starting
  | stop reason id previous detail =>
    cases h
    exact .stopping
  | bind request now =>
    cases h
    exact .binding

theorem handle_succ (h : handle i e w = some (w', .goto pc')) : (Pc.handling e).Succ pc' := by
  unfold handle at h
  split at h
  case h_8 => cases h
  all_goals
    have hnext := congrArg snd (some.inj h)
    first
      | exact outcome_succ hnext
      | cases hnext
        exact .handled

variable {err : Option GoErr} {sweep : Bool}

theorem evicted_succ (h : (evicted sweep err : Next cfg) = .goto pc') :
    sweep = true ∧ pc' = .collecting err := by
  cases sweep with
  | false => cases h
  | true =>
    cases h
    exact ⟨rfl, rfl⟩

theorem evictRound_succ (h : evictRound i sweep err w = some (w', .goto pc')) :
    (Pc.evicting sweep err).Succ pc' := by
  obtain ⟨⟨w₁, outcome⟩, _, heq⟩ := map_eq_some_iff.mp h
  have hnext := congrArg snd heq
  cases outcome with
  | idle | failed =>
    obtain ⟨rfl, rfl⟩ := evicted_succ hnext
    exact .evicted
  | stop id previous detail =>
    cases hnext
    exact .evictStopping

variable {id : GoString}

theorem evictStopped_succ {detail : GoString} {previous : ActivePhase} (i : Input) (w : World)
    (h : (evictStopped i sweep err id previous detail w).2 = .goto pc') :
    (Pc.evictStopping sweep err id previous detail).Succ pc' := by
  unfold evictStopped at h
  dsimp only at h
  split at h
  · obtain ⟨rfl, rfl⟩ := evicted_succ h
    exact .unevicted
  · cases h
    exact .evicting

theorem collect_succ (i : Input) (w : World) (h : (collect i err w).2 = .goto pc') :
    (Pc.collecting err).Succ pc' := by
  unfold collect at h
  dsimp only at h
  split at h
  · cases h
  · cases h
    exact .collected

theorem clean_succ {dead : Tombstone} {pending : List Tombstone} {evictErr : Option GoErr}
    (i : Input) (w : World) (h : (clean i dead pending err evictErr w).2 = .goto pc') :
    (Pc.cleaning (dead :: pending) err evictErr).Succ pc' := by
  unfold clean at h
  split at h
  all_goals
    cases h
    exact .cleaned

theorem scan_succ (w : World) (h : (scan w : Next cfg) = .goto pc') :
    (Pc.scanning : Pc cfg).Succ pc' := by
  unfold scan at h
  split at h
  · cases h
    exact .scanned
  · split at h <;> cases h

variable {ids : List GoString}

theorem recoverNext_succ (i : Input) (w : World)
    (h : (recoverNext i id ids w : Next cfg) = .goto pc') :
    (Pc.recovering (id :: ids) : Pc cfg).Succ pc' := by
  unfold recoverNext at h
  split at h
  · cases h
  split at h
  · cases h
    exact .skipped
  · cases h
    exact .recoverStopping
  · cases h
    exact .reattaching

theorem recovered_succ {r : World × Option GoErr}
    (h : (recovered ids r : World × Next cfg).2 = .goto pc') : pc' = .recovering ids := by
  unfold recovered at h
  split at h
  · cases h
  · cases h
    rfl

theorem recoverStop_succ {detail : GoString} {phase : EndPhase} (i : Input) (w : World)
    (h : (recoverStop i ids id phase detail w : World × Next cfg).2 = .goto pc') :
    (Pc.recoverStopping ids id phase detail).Succ pc' := by
  unfold recoverStop at h
  split at h
  · cases h
  · rw [recovered_succ h]
    exact .recoverStopped

theorem grantSession_succ {peerKey : Bytes} (w : World)
    (h : (grantSession id peerKey w : World × Next cfg).2 = .goto pc') :
    (Pc.tunnelGranting id peerKey).Succ pc' := by
  unfold grantSession at h
  split at h
  · cases h
  · cases h
    exact .checking

/-- Every section of every call leads where `Pc.Succ` says. -/
theorem advance_succ (h : advance tid pc i w = some (w', .goto pc')) : pc.Succ pc' := by
  cases pc with
  | received e => exact receive_succ i w (congrArg snd (some.inj h))
  | logging | answered | finishing => cases h
  | dispatching e => exact beginReplay_succ i w (congrArg snd (some.inj h))
  | waiting e owner =>
    simp only [advance] at h
    split at h <;> cases h
  | handling e => exact handle_succ h
  | starting e id =>
    obtain ⟨_, _, heq⟩ := map_eq_some_iff.mp h
    cases heq
    exact .started
  | stopping e reason id previous detail =>
    obtain ⟨_, _, heq⟩ := map_eq_some_iff.mp h
    cases heq
    exact .stopped
  | binding e request now =>
    cases h
    exact .bound
  | evicting sweep err => exact evictRound_succ h
  | evictStopping sweep err id previous detail =>
    exact evictStopped_succ i w (congrArg snd (some.inj h))
  | collecting err => exact collect_succ i w (congrArg snd (some.inj h))
  | cleaning pending err evictErr =>
    cases pending with
    | nil => cases h
    | cons dead pending => exact clean_succ i w (congrArg snd (some.inj h))
  | scanning => exact scan_succ w (congrArg snd (some.inj h))
  | recovering ids =>
    cases ids with
    | nil => cases h
    | cons id ids => exact recoverNext_succ i w (congrArg snd (some.inj h))
  | recoverStopping ids id phase detail =>
    exact recoverStop_succ i w (congrArg snd (some.inj h))
  | reattaching ids id =>
    rw [recovered_succ (congrArg snd (some.inj h))]
    exact .reattached
  | tunnelOpening id peerKey =>
    have hnext := congrArg snd (some.inj h)
    split at hnext
    · cases hnext
      exact .granting
    · cases hnext
  | tunnelGranting id peerKey =>
    exact grantSession_succ w (congrArg snd (some.inj h))
  | tunnelChecking id session =>
    have hnext := congrArg snd (some.inj h)
    unfold recheckSession at hnext
    split at hnext <;> cases hnext

end R1s.Allocator
