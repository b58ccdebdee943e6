/-
Commands about what belongs to someone else.

# Two runs

A stranger is a sender that does not own the execution or offer its
command names. `strangers_learn_nothing` compares a stranger's call with
a shadow of it: a call of the same command each of whose sections sees
the state of the moment with the named ID taken out (`Mem.without`). The
clock, the generated IDs and the fate of the save are the same on both
sides. The shadow is kept beside the run, through every interleaving with
other calls, for as long as the sender is a stranger whenever a section
of the call runs; a sender that turns out to be the owner has no shadow.

# Why it holds

The freshness check reads the records and tombstones of the sender only,
and the replay cache is keyed by the sender. What is left is the handler,
which ends with ErrUnauthorized where the shadow's ends with a not-found
error, and `errorResponse` gives both one code, detail and retry flag.
-/
import R1s.Allocator.Proofs.Responses

namespace R1s.Allocator

open Option (bind_eq_some_iff isSome_iff_exists map_eq_some_iff map_id' map_none map_some some)
open AList (all_entries_mono lookup lookup_erase lookup_insert lookup_insert_ne lookup_keep
  lookup_mapVal)

variable {cfg : Config} {s t : System cfg} {w w' : World} {i : Input}

-- ===== subjects

/-- What a command names. -/
inductive Subject
  | execution (id : GoString)
  | offer (id : GoString)
deriving DecidableEq

/-- The subject of an inspection, a cancellation, a renewal, a tunnel
open, a log request or an offer release. -/
def subject (e : Envelope) : Option Subject :=
  match e.payload with
  | some (.executionInspect q) => some (.execution q.executionID)
  | some (.executionCancel q) => some (.execution q.executionID)
  | some (.executionLeaseRenew q) => some (.execution q.executionID)
  | some (.executionTunnelOpen q) => some (.execution q.executionID)
  | some (.executionLogsRequest q) => some (.execution q.executionID)
  | some (.executionOfferRelease q) => some (.offer q.offerID)
  | _ => none

/-- The client a subject belongs to; a collected offer has the client of
its tombstone. -/
def Mem.owner (m : Mem) : Subject → Option Bytes
  | .execution id => (m.executions.lookup id).map ExecutionRecord.client
  | .offer id => (releaseTarget m id).map OfferRecord.client

/-- The state in which the subject does not exist. What `sender` has
itself retired under the ID of an execution is its own and stays. -/
def Mem.without (m : Mem) (sender : Bytes) : Subject → Mem
  | .execution id =>
    { m with
      executions := m.executions.erase id,
      tombstones := m.tombstones.keep fun _ t => t.executionID ≠ id || t.client = sender }
  | .offer id =>
    { m with
      offers := m.offers.erase id,
      requests := m.requests.keep fun _ o => o ≠ id,
      tombstones := m.tombstones.erase id }

def World.without (w : World) (sender : Bytes) (x : Subject) : World :=
  w.setMem (w.mem.without sender x)

/-- The command of a call and its subject. -/
def Pc.asks (pc : Pc cfg) : Option (Inbound cfg × Subject) :=
  pc.command.bind fun e => (subject e.1).map fun x => (e, x)

-- ===== shadows

/-- The input of a shadow's section: the environment lets its save fail
where the save of the call's own section, which led to `next`, failed. -/
def Input.alike (i : Input) (next : Next cfg) : Input :=
  match next with
  | .ret ⟨_, some err⟩ =>
    if err.is .store then
      { i with saved := { i.saved with fault := some (i.saved.fault.getD ⟨[], []⟩) } }
    else i
  | _ => i

/-- The section of a shadow at `pc` beside a section of its call that led
to `next`. -/
def shadowSection (tid : Nat) (i : Input) (next : Next cfg) (w : World) (pc : Pc cfg) :
    Option (World × Next cfg) :=
  match pc.asks with
  | none => none
  | some (e, x) =>
    if w.mem.owner x = some e.1.sender then none
    else advance tid pc (i.alike next) (w.without e.1.sender x)

/-- The shadows after a section of the call `tid` from `pc` to `next`.
One that waits for the call's entry gets what the call published. -/
def shadowTurn (tid : Nat) (i : Input) (pc : Pc cfg) (next : Next cfg) (w : World)
    (shadows : FMap Nat (Pc cfg)) : FMap Nat (Pc cfg) :=
  let woken :=
    match pc, next with
    | .finishing e reply, .ret _ => shadows.mapVal fun _ => wake tid (published i e reply)
    | _, _ => shadows
  match ((shadows.lookup tid).bind (shadowSection tid i next w)).bind fun r => r.2.pc with
  | some pc' => woken.insert tid pc'
  | none => woken.erase tid

/-- The shadows after a step. -/
def shadowNote (s : System cfg) (l : Label cfg) (_ : System cfg)
    (shadows : FMap Nat (Pc cfg)) : FMap Nat (Pc cfg) :=
  match l with
  | .call tid e => if (subject e.1).isSome then shadows.insert tid (.received e) else shadows
  | .run tid i =>
    match s.threads.lookup tid with
    | none => shadows
    | some pc =>
      match advance tid pc i s.world with
      | none => shadows
      | some r => shadowTurn tid i pc r.2 s.world shadows
  | .restart _ _ => ∅
  | _ => shadows

variable (cfg)

/-- The allocator beside the shadows of the strangers' calls. -/
def shadowing : TransitionSystem (System cfg × FMap Nat (Pc cfg)) (Label cfg) :=
  (machine cfg).observe ∅ shadowNote

variable {cfg}

-- ===== freshness

variable {x : Subject}

theorem namedExecution_of_subject {e : Envelope} (h : subject e = some x) :
    x = .execution (namedExecution e) ∨ (∃ id, x = .offer id) ∧ namedExecution e = [] := by
  unfold subject at h
  unfold namedExecution
  split at h
  case h_7 => cases h
  all_goals
    rename_i hpayload
    cases h
    rw [hpayload]
    first
      | exact .inl rfl
      | exact .inr ⟨⟨_, rfl⟩, rfl⟩

/-- No tombstone guards the empty ID. -/
theorem not_guards_nil (sender : Bytes) (t : Tombstone) : t.guards sender [] = false := by
  unfold Tombstone.guards
  by_cases h : t.executionID = []
  · simp [h]
  · simp [h]

/-- A stranger to an execution is not its client. -/
theorem client_ne_of_owner {m : Mem} {id : GoString} {r : ExecutionRecord} {sender : Bytes}
    (hown : m.owner (.execution id) ≠ some sender) (hr : m.executions.lookup id = some r) :
    r.client ≠ sender := by
  intro heq
  refine hown ?_
  show (m.executions.lookup id).map _ = _
  rw [hr, map_some, heq]

theorem without_highWater (m : Mem) (sender : Bytes) (x : Subject) :
    (m.without sender x).highWater = m.highWater := by
  cases x <;> rfl

/-- What the freshness check of a stranger's command finds does not depend
on the subject. -/
theorem freshnessErr_without {m : Mem} {e : Envelope} (hx : subject e = some x)
    (hown : m.owner x ≠ some e.sender) :
    freshnessErr e (m.without e.sender x) = freshnessErr e m := by
  have hresult : ((m.without e.sender x).executions.lookup (namedExecution e)).any
        (ExecutionRecord.resultOver m.highWater e.sender)
      = (m.executions.lookup (namedExecution e)).any
        (ExecutionRecord.resultOver m.highWater e.sender) := by
    rcases namedExecution_of_subject hx with rfl | ⟨⟨id, rfl⟩, -⟩
    · show ((m.executions.erase _).lookup _).any _ = _
      rw [lookup_erase, Option.any_none]
      cases hr : m.executions.lookup (namedExecution e) with
      | none => rfl
      | some r =>
        simp [ExecutionRecord.resultOver, client_ne_of_owner hown hr]
    · rfl
  have htombs : ((m.without e.sender x).tombstones.any fun _ t =>
    t.guards e.sender (namedExecution e))
      = m.tombstones.any fun _ t => t.guards e.sender (namedExecution e) := by
    rw [Bool.eq_iff_iff, AList.any_eq_true, AList.any_eq_true]
    rcases namedExecution_of_subject hx with rfl | ⟨⟨id, rfl⟩, hnil⟩
    · constructor
      · rintro ⟨k, dead, hk, hguards⟩
        change lookup k (m.tombstones.keep _) = some dead at hk
        rw [lookup_keep, Option.filter_eq_some_iff] at hk
        exact ⟨k, dead, hk.1, hguards⟩
      · rintro ⟨k, dead, hk, hguards⟩
        refine ⟨k, dead, ?_, hguards⟩
        show lookup k (m.tombstones.keep _) = some dead
        rw [lookup_keep, Option.filter_eq_some_iff]
        have hclient : dead.client = e.sender := by
          simp only [Tombstone.guards, Bool.and_eq_true, decide_eq_true_eq] at hguards
          exact hguards.2
        exact ⟨hk, by simp [hclient]⟩
    · rw [hnil]
      simp only [not_guards_nil, Bool.false_eq_true, and_false, exists_false]
  unfold freshnessErr
  rw [without_highWater, hresult, htombs]

theorem effectiveNow_without (now : Int) (m : Mem) (sender : Bytes) (x : Subject) :
    effectiveNow now (m.without sender x) = (effectiveNow now m).without sender x := by
  unfold effectiveNow
  cases x
  all_goals
    show (if m.highWater < now then _ else _) = _
    split <;> rfl

theorem owner_effectiveNow (now : Int) (m : Mem) (x : Subject) :
    (effectiveNow now m).owner x = m.owner x := by
  unfold effectiveNow
  split
  · cases x <;> rfl
  · rfl

-- ===== the environment

/-- A shadow's input differs from its call's in the fate of the save
only. -/
theorem alike_eq (i : Input) (next : Next cfg) :
    ∃ fault, i.alike next = { i with saved := { i.saved with fault := fault } } ∧
      (i.saved.fault.isSome = true → fault.isSome = true) := by
  unfold Input.alike
  split
  · split
    · exact ⟨_, rfl, fun _ => rfl⟩
    · exact ⟨_, rfl, id⟩
  · exact ⟨_, rfl, id⟩

variable {saved : SaveIn}

/-- The error of a failed save. -/
theorem persist_refused {err : GoErr} (h : persist cfg saved w = .error err) :
    err.is .store = true ∧
      commandError err
        = ⟨"OUTCOME_UNKNOWN", text "state commit failed; inspect the same allocator", true⟩ := by
  have hstore : ∀ {sentinels : List Sentinel} {message : GoString},
      Sentinel.admission ∉ sentinels →
      (⟨.store :: sentinels, message⟩ : GoErr).is .store = true ∧
        commandError ⟨.store :: sentinels, message⟩
          = ⟨"OUTCOME_UNKNOWN", text "state commit failed; inspect the same allocator", true⟩ := by
    intro sentinels message hadmission
    simp [commandError, GoErr.is, hadmission]
  unfold persist at h
  split at h
  · cases h
  split at h
  · cases h
    exact hstore (List.not_mem_nil)
  split at h
  · cases h
    exact hstore (List.not_mem_nil)
  split at h
  next f _ =>
    cases h
    refine hstore ?_
    intro hmem
    obtain ⟨mark, -, hmark⟩ := List.mem_map.mp hmem
    cases mark <;> cases hmark
  · cases h

/-- Taking the subject out leaves less to be written. -/
theorem persist_without {m m' : Mem} {disk : Option Snapshot}
    (hencode : m.encodable = true → m'.encodable = true)
    (htimes : m.jsonTimes = true → m'.jsonTimes = true)
    (h : persist cfg saved ⟨m, disk⟩ = .ok w) : ∃ w', persist cfg saved ⟨m', disk⟩ = .ok w' := by
  unfold persist at h ⊢
  by_cases hstored : cfg.stored = true
  · simp only [hstored, Bool.not_true, Bool.false_eq_true, if_false] at h ⊢
    split at h
    · cases h
    rename_i hencodable
    split at h
    · cases h
    rename_i hjson
    rw [if_neg (by simpa using hencode (by simpa using hencodable)),
      if_neg (by simpa using htimes (by simpa using hjson))]
    split at h
    · cases h
    · exact ⟨_, rfl⟩
  · simp only [hstored, Bool.not_false, if_true]
    exact ⟨_, rfl⟩

/-- With a store a save that meets a fault fails. -/
theorem persist_fault (hstored : cfg.stored = true) (hfault : saved.fault.isSome = true)
    (w : World) : ∃ err, persist cfg saved w = .error err := by
  obtain ⟨f, hf⟩ := isSome_iff_exists.mp hfault
  unfold persist
  simp only [hstored, Bool.not_true, Bool.false_eq_true, if_false, hf]
  split
  · exact ⟨_, rfl⟩
  · split <;> exact ⟨_, rfl⟩

/-- The entries of the state without the subject are among those of the
state. -/
theorem without_le (m : Mem) (sender : Bytes) (x : Subject) :
    (∀ k r, (m.without sender x).offers.lookup k = some r → m.offers.lookup k = some r) ∧
    (∀ k r, (m.without sender x).executions.lookup k = some r →
      m.executions.lookup k = some r) ∧
    ∀ k t, (m.without sender x).tombstones.lookup k = some t →
      m.tombstones.lookup k = some t := by
  cases x with
  | execution id =>
    refine ⟨fun _ _ h => h, fun _ _ h => (AList.of_lookup_erase h).2, ?_⟩
    intro k dead hk
    change lookup k (m.tombstones.keep _) = some dead at hk
    rw [lookup_keep, Option.filter_eq_some_iff] at hk
    exact hk.1
  | offer id =>
    exact ⟨fun _ _ h => (AList.of_lookup_erase h).2, fun _ _ h => h,
      fun _ _ h => (AList.of_lookup_erase h).2⟩

/-- A save of the expired state that goes through goes through without the
subject. -/
theorem persist_expired_without (now : Int) (m : Mem) (sender : Bytes) (x : Subject)
    (disk : Option Snapshot) (c : FMap GoString ReplayEntry)
    (h : persist cfg saved ⟨{ expireOffers now m with replay := c }, disk⟩ = .ok w) :
    ∃ w', persist cfg saved
      ⟨{ expireOffers now (m.without sender x) with replay := c }, disk⟩ = .ok w' := by
  obtain ⟨hoffers, hexecutions, htombs⟩ := without_le m sender x
  have hexpired : ∀ k r,
      ((m.without sender x).offers.mapVal fun _ r => r.expire now).lookup k = some r →
        (m.offers.mapVal fun _ r => r.expire now).lookup k = some r := by
    intro k r hr
    rw [lookup_mapVal, map_eq_some_iff] at hr ⊢
    obtain ⟨r₀, hr₀, heq⟩ := hr
    exact ⟨r₀, hoffers k r₀ hr₀, heq⟩
  refine persist_without ?_ ?_ h
  · intro hencodable
    simp only [Mem.encodable, Bool.and_eq_true] at hencodable ⊢
    exact ⟨⟨all_entries_mono hexpired hencodable.1.1,
      all_entries_mono hexecutions hencodable.1.2⟩, hencodable.2⟩
  · intro htimes
    simp only [Mem.jsonTimes, Bool.and_eq_true] at htimes ⊢
    refine ⟨⟨⟨?_, all_entries_mono htombs htimes.1.1.2⟩,
      all_entries_mono hexecutions htimes.1.2⟩, htimes.2⟩
    show jsonTime (m.without sender x).highWater = true
    rw [without_highWater]
    exact htimes.1.1.1

-- ===== the sections

/-- What a stranger's section may do to the state: let offers expire. -/
structure Undisturbed (now : Int) (m m' : Mem) : Prop where
  offers : m'.offers = m.offers ∨ m'.offers = (expireOffers now m).offers
  executions : m'.executions = m.executions
  tombstones : m'.tombstones = m.tombstones
  tunnels : m'.tunnels = m.tunnels

theorem Undisturbed.refl (now : Int) (m : Mem) : Undisturbed now m m :=
  ⟨.inl rfl, rfl, rfl, rfl⟩

/-- The points of a stranger's call and of its shadow. -/
inductive Alike : Pc cfg → Pc cfg → Prop
  | received (e : Inbound cfg) : Alike (.received e) (.received e)
  | logging {e q} (hq : e.1.payload = some (.executionLogsRequest q)) :
      Alike (.logging e q) (.logging e q)
  | dispatching (e : Inbound cfg) : Alike (.dispatching e) (.dispatching e)
  | waiting (e : Inbound cfg) (owner : Nat) : Alike (.waiting e owner) (.waiting e owner)
  | answered (e : Inbound cfg) (reply : Reply) : Alike (.answered e reply) (.answered e reply)
  | handling (e : Inbound cfg) : Alike (.handling e) (.handling e)
  | refused (e : Inbound cfg) {err err'} (h : commandError err' = commandError err) :
      Alike (.finishing e (.fail err)) (.finishing e (.fail err'))

variable {pc pc' : Pc cfg}

theorem Alike.command (h : Alike pc pc') : pc'.command = pc.command := by
  cases h <;> rfl

/-- What a section of a call and its shadow's lead to. -/
inductive AlikeNext : Next cfg → Next cfg → Prop
  | goto {pc pc' : Pc cfg} (h : Alike pc pc') : AlikeNext (.goto pc) (.goto pc')
  | ret {reply reply'} (h : reply'.responses = reply.responses) :
      AlikeNext (.ret reply) (.ret reply')

variable {e : Inbound cfg}

theorem receive_alike (hx : subject e.1 = some x) (hown : w.mem.owner x ≠ some e.1.sender)
    (saved : SaveIn) :
    Undisturbed i.now w.mem (receive i e w).1.mem ∧
    AlikeNext (receive i e w).2
      (receive { i with saved := saved } e (w.without e.1.sender x)).2 := by
  have hfresh : freshnessErr e.1 (effectiveNow i.now (w.mem.without e.1.sender x))
      = freshnessErr e.1 (effectiveNow i.now w.mem) := by
    rw [effectiveNow_without]
    exact freshnessErr_without hx (by rw [owner_effectiveNow]; exact hown)
  have hkept : Undisturbed i.now w.mem (effectiveNow i.now w.mem) := by
    unfold effectiveNow
    split <;> exact ⟨.inl rfl, rfl, rfl, rfl⟩
  unfold receive checkFreshness
  dsimp only [World.without, World.setMem]
  rw [hfresh]
  cases hverdict : freshnessErr e.1 (effectiveNow i.now w.mem) with
  | some err => exact ⟨hkept, .ret rfl⟩
  | none =>
    dsimp only
    split
    next q hq => exact ⟨hkept, .goto (.logging hq)⟩
    · split
      · exact ⟨hkept, .goto (.dispatching e)⟩
      · exact ⟨hkept, .ret rfl⟩

variable {tid : Nat}

/-- A call that asks the replay cache. The shadow's save fails where the
call's failed, and both answer with the code of a failed save. -/
theorem beginReplay_alike (x : Subject) :
    Undisturbed i.now w.mem (beginReplay tid i e w).1.mem ∧
    AlikeNext (beginReplay tid i e w).2
      (beginReplay tid (i.alike (beginReplay tid i e w).2) e (w.without e.1.sender x)).2 := by
  have hreplay : (w.mem.without e.1.sender x).replay = w.mem.replay := by
    cases x <;> rfl
  have hkept : ∀ c, Undisturbed i.now w.mem { expireOffers i.now w.mem with replay := c } :=
    fun c => ⟨.inr rfl, rfl, rfl, rfl⟩
  obtain ⟨fault, halike, hfault⟩ := alike_eq i (beginReplay tid i e w).2
  have hbegun : ∀ m : Mem, (expireOffers i.now m).replay = m.replay := fun _ => rfl
  constructor
  · unfold beginReplay
    dsimp only [World.setMem]
    split
    · exact hkept _
    · exact hkept _
    · exact hkept _
    split
    next w₁ hp =>
      rw [show w₁.mem = _ from persist_mem hp]
      exact hkept _
    · exact hkept _
  · generalize hnext : (beginReplay tid i e w).2 = next at halike ⊢
    rw [halike]
    unfold beginReplay at hnext ⊢
    dsimp only [World.setMem, World.without] at hnext ⊢
    rw [hbegun, hreplay]
    rw [hbegun] at hnext
    split at hnext
    · subst hnext
      exact .ret rfl
    · subst hnext
      exact .ret rfl
    next entry _ =>
      subst hnext
      split
      · exact .goto (.answered e _)
      · exact .goto (.waiting e _)
    split at hnext
    next w₁ hp =>
      subst hnext
      have hsame : i.saved.fault = fault := congrArg (fun j : Input => j.saved.fault) halike
      obtain ⟨w₂, hp'⟩ := persist_expired_without i.now w.mem e.1.sender x w.disk _ hp
      rw [← hsame, hp']
      exact .goto (.handling e)
    rename_i err hp
    obtain ⟨hstore, hcode⟩ := persist_refused hp
    subst hnext
    have hstored : cfg.stored = true := by
      by_contra hno
      unfold persist at hp
      rw [if_pos (by simpa using hno)] at hp
      cases hp
    have hsome : ({ i.saved with fault := fault } : SaveIn).fault.isSome = true := by
      have h := congrArg (fun j : Input => j.saved.fault) halike
      simp only [Input.alike, rejected, hstore, if_true] at h
      rw [← h]
      rfl
    obtain ⟨err', hp'⟩ := persist_fault hstored hsome
      ⟨{ expireOffers i.now (w.mem.without e.1.sender x) with
        replay := (beginCache cfg i.saved.order tid (replayKey e.1) e.1 i.now
          w.mem.replay).1 }, w.disk⟩
    rw [hp']
    refine .ret ?_
    unfold errorResponse
    rw [hcode, (persist_refused hp').2]

/-- The three refusals that say a subject is not there for the sender. -/
inductive Unavailable : GoErr → Prop
  | unauthorized : Unavailable Sentinel.unauthorized.err
  | executionNotFound (detail : GoString) : Unavailable (Sentinel.executionNotFound.wrap detail)
  | offerNotFound : Unavailable Sentinel.offerNotFound.err

theorem Unavailable.code {err : GoErr} (h : Unavailable err) :
    commandError err = ⟨"NOT_FOUND", text "resource unavailable to this identity", false⟩ := by
  cases h <;> simp [commandError, GoErr.is, Sentinel.err, Sentinel.wrap]

variable {next : Next cfg}

/-- The handler refuses a stranger before anything else. -/
theorem handle_refused (hx : subject e.1 = some x) (hown : w.mem.owner x ≠ some e.1.sender)
    (hr : handle i e w = some (w', next)) :
    w' = w ∧ ∃ err, Unavailable err ∧ next = .goto (.finishing e (.fail err)) := by
  unfold subject at hx
  unfold handle at hr
  split at hx
  case h_7 => cases hx
  -- the four commands that name an execution look it up and check its owner
  case h_1 q hq | h_2 q hq | h_3 q hq | h_4 q hq =>
    cases hx
    rw [hq] at hr
    dsimp only [handleInspect, cancelBegin, handleLeaseRenew, tunnelCheck] at hr
    split at hr
    · cases hr
      exact ⟨rfl, _, .executionNotFound _, rfl⟩
    next r hlookup =>
      rw [if_pos (client_ne_of_owner hown hlookup)] at hr
      cases hr
      exact ⟨rfl, _, .unauthorized, rfl⟩
  case h_5 q hq =>
    rw [hq] at hr
    cases hr
  case h_6 q hq =>
    cases hx
    rw [hq] at hr
    dsimp only [handleOfferRelease] at hr
    split at hr
    · cases hr
      exact ⟨rfl, _, .offerNotFound, rfl⟩
    rename_i r hlookup
    have hclient : r.client ≠ e.1.sender := by
      intro heq
      refine hown ?_
      show (releaseTarget w.mem q.offerID).map _ = _
      rw [hlookup, map_some, heq]
    rw [if_pos hclient] at hr
    cases hr
    exact ⟨rfl, _, .unauthorized, rfl⟩

theorem handle_isSome (i : Input) (e : Inbound cfg) (w : World) :
    (handle i e w).isSome = replayed e.1 := by
  unfold handle replayed
  split <;> simp_all

/-- Without the subject everyone is a stranger. -/
theorem stranger_without (w : World) (sender : Bytes) (x : Subject) :
    (w.without sender x).mem.owner x ≠ some sender := by
  suffices hnone : (w.mem.without sender x).owner x = none by
    show (w.mem.without sender x).owner x ≠ _
    rw [hnone]
    exact nofun
  cases x with
  | execution id =>
    show ((w.mem.executions.erase id).lookup id).map _ = _
    rw [lookup_erase, map_none]
  | offer id =>
    have htarget : releaseTarget (w.mem.without sender (.offer id)) id = none := by
      unfold releaseTarget
      dsimp only [Mem.without]
      rw [lookup_erase, lookup_erase, map_none]
    show (releaseTarget (w.mem.without sender (.offer id)) id).map _ = _
    rw [htarget, map_none]

theorem handle_alike (hx : subject e.1 = some x) (hown : w.mem.owner x ≠ some e.1.sender)
    (i' : Input) (hr : handle i e w = some (w', next)) :
    w' = w ∧ ∃ next', handle i' e (w.without e.1.sender x)
      = some (w.without e.1.sender x, next') ∧ AlikeNext next next' := by
  obtain ⟨hw, err, herr, rfl⟩ := handle_refused hx hown hr
  have hsome : (handle i' e (w.without e.1.sender x)).isSome = true := by
    rw [handle_isSome, ← handle_isSome i e w, hr]
    rfl
  obtain ⟨⟨w₂, next'⟩, hr'⟩ := isSome_iff_exists.mp hsome
  obtain ⟨rfl, err', herr', rfl⟩ := handle_refused hx (stranger_without w _ x) hr'
  exact ⟨hw, _, hr', .goto (.refused e (herr'.code.trans herr.code.symm))⟩

theorem handleLogs_refused {q : ExecutionLogsRequest}
    (hown : w.mem.owner (.execution q.executionID) ≠ some e.1.sender) :
    handleLogs cfg i e.1 q w
      = ⟨errorResponse cfg i.now i.random e.1 Sentinel.executionNotFound.err,
        some Sentinel.executionNotFound.err⟩ := by
  have hnone : ((w.mem.executions.lookup q.executionID).all fun r => r.client ≠ e.1.sender)
      = true := by
    cases hr : w.mem.executions.lookup q.executionID with
    | none => rfl
    | some r =>
      simpa using client_ne_of_owner hown hr
  unfold handleLogs
  rw [if_pos hnone]

/-- The last section of a refused call. -/
theorem finishReplay_refused (tid : Nat) (i : Input) (e : Inbound cfg) (err : GoErr) (w : World) :
    Undisturbed i.now w.mem (finishReplay tid i e (.fail err) w).1.mem ∧
    ∃ reply, (finishReplay tid i e (.fail err) w).2 = .ret reply ∧
      reply.responses = errorResponse cfg i.now i.random e.1 err := by
  refine ⟨?_, _, rfl, rfl⟩
  unfold finishReplay
  rw [tryPersist_mem]
  exact ⟨.inl rfl, rfl, rfl, rfl⟩

/-- A section of a stranger's call and the one of its shadow. -/
theorem section_alike (halike : Alike pc pc') (hasks : pc.asks = some (e, x))
    (hown : w.mem.owner x ≠ some e.1.sender) (hr : advance tid pc i w = some (w', next)) :
    Undisturbed i.now w.mem w'.mem ∧
    ∃ w₂ next', advance tid pc' (i.alike next) (w.without e.1.sender x) = some (w₂, next') ∧
      AlikeNext next next' := by
  obtain ⟨e₀, hcommand, hsubject⟩ := bind_eq_some_iff.mp hasks
  obtain ⟨x₀, hx, heq⟩ := map_eq_some_iff.mp hsubject
  cases heq
  obtain ⟨fault, hi, -⟩ := alike_eq i next
  cases halike with
  | received e₁ =>
    cases hcommand
    obtain ⟨hkept, hnext⟩ :=
      receive_alike (i := i) hx hown { i.saved with fault := fault }
    obtain ⟨rfl, rfl⟩ : (receive i e w).1 = w' ∧ (receive i e w).2 = next :=
      Prod.mk.inj (some.inj hr)
    refine ⟨hkept, _, _, rfl, ?_⟩
    rw [hi]
    exact hnext
  | @logging e₁ q hq =>
    cases hcommand
    have hid : x = .execution q.executionID := by
      rw [subject, hq] at hx
      exact (some.inj hx).symm
    subst hid
    rw [advance, handleLogs_refused hown] at hr
    cases hr
    refine ⟨.refl _ _, _, _, rfl, ?_⟩
    rw [handleLogs_refused]
    · rw [hi]
      exact .ret rfl
    · exact stranger_without w _ _
  | dispatching e₁ =>
    cases hcommand
    obtain ⟨rfl, rfl⟩ : (beginReplay tid i e w).1 = w' ∧ (beginReplay tid i e w).2 = next :=
      Prod.mk.inj (some.inj hr)
    exact ⟨(beginReplay_alike x).1, _, _, rfl, (beginReplay_alike x).2⟩
  | waiting e₁ owner =>
    simp only [advance] at hr ⊢
    split at hr
    next hcancelled =>
      cases hr
      refine ⟨.refl _ _, w.without e.1.sender x, .ret (.fail contextErr), ?_, .ret rfl⟩
      rw [hi, if_pos hcancelled]
    · cases hr
  | answered e₁ reply =>
    cases some.inj hr
    refine ⟨.refl _ _, _, _, rfl, .ret ?_⟩
    rw [hi]
  | handling e₁ =>
    cases hcommand
    obtain ⟨rfl, next', hr', hnext⟩ := handle_alike hx hown (i.alike next) hr
    exact ⟨.refl _ _, _, next', hr', hnext⟩
  | @refused e₁ err err' hcode =>
    cases hcommand
    obtain ⟨hkept, reply, hret, hresponses⟩ := finishReplay_refused tid i e err w
    obtain ⟨-, reply', hret', hresponses'⟩ :=
      finishReplay_refused tid (i.alike next) e err' (w.without e.1.sender x)
    obtain ⟨rfl, hnext⟩ : (finishReplay tid i e (.fail err) w).1 = w' ∧
        (finishReplay tid i e (.fail err) w).2 = next := Prod.mk.inj (some.inj hr)
    rw [hret] at hnext
    have hr' : advance tid (.finishing e (.fail err')) (i.alike next)
        (w.without e.1.sender x)
        = some ((finishReplay tid (i.alike next) e (.fail err')
          (w.without e.1.sender x)).1, .ret reply') := by
      rw [← hret']
      rfl
    refine ⟨hkept, _, _, hr', ?_⟩
    rw [← hnext]
    refine .ret ?_
    rw [hresponses, hresponses', hi]
    unfold errorResponse
    rw [hcode]

-- ===== the run

/-- What a section of the call `tid` does to the calls that wait for
it. -/
def wakes (tid : Nat) (i : Input) (pc : Pc cfg) (next : Next cfg) : Pc cfg → Pc cfg :=
  match pc, next with
  | .finishing e reply, .ret _ => wake tid (published i e reply)
  | _, _ => id

theorem resume_threads_other (s : System cfg) {t : Nat} (ht : t ≠ tid) (pc : Pc cfg) (i : Input)
    (r : World × Next cfg) :
    (s.resume tid pc i r).threads.lookup t
      = (s.threads.lookup t).map (wakes tid i pc r.2) := by
  have herase : (s.threads.erase tid).lookup t = s.threads.lookup t := AList.lookup_erase_ne ht
  unfold System.resume
  cases hn : r.2 with
  | goto pc' =>
    rw [lookup_insert_ne ht]
    cases pc <;> exact map_id'.symm
  | done err =>
    rw [herase]
    cases pc <;> exact map_id'.symm
  | ret reply =>
    cases pc
    case finishing e reply =>
      rw [lookup_mapVal, herase]
      rfl
    all_goals
      rw [herase]
      exact map_id'.symm

theorem shadowTurn_other {t : Nat} (ht : t ≠ tid) (pc : Pc cfg) (next : Next cfg)
    (shadows : FMap Nat (Pc cfg)) :
    (shadowTurn tid i pc next w shadows).lookup t
      = (shadows.lookup t).map (wakes tid i pc next) := by
  have hwoken : ∀ woken : FMap Nat (Pc cfg),
      woken.lookup t = (shadows.lookup t).map (wakes tid i pc next) →
      (match ((shadows.lookup tid).bind (shadowSection tid i next w)).bind
          fun r => r.2.pc with
        | some pc' => woken.insert tid pc'
        | none => woken.erase tid).lookup t
        = (shadows.lookup t).map (wakes tid i pc next) := by
    intro woken h
    split
    · rw [lookup_insert_ne ht, h]
    · rw [AList.lookup_erase_ne ht, h]
  refine hwoken _ ?_
  unfold wakes
  split
  · rw [lookup_mapVal]
  · exact map_id'.symm

theorem shadowTurn_self (tid : Nat) (pc : Pc cfg) (next : Next cfg) (shadows : FMap Nat (Pc cfg)) :
    (shadowTurn tid i pc next w shadows).lookup tid
      = ((shadows.lookup tid).bind (shadowSection tid i next w)).bind fun r => r.2.pc := by
  unfold shadowTurn
  generalize ((shadows.lookup tid).bind (shadowSection tid i next w)).bind
    (fun r => r.2.pc) = o
  cases o with
  | none => rw [lookup_erase]
  | some pc' => rw [lookup_insert]

theorem Alike.woken (h : Alike pc pc') (tid : Nat) (i : Input) (pc₀ : Pc cfg) (next : Next cfg) :
    Alike (wakes tid i pc₀ next pc) (wakes tid i pc₀ next pc') := by
  unfold wakes
  split
  next e reply _ =>
    cases h with
    | waiting e₁ owner =>
      show Alike (if owner = tid then _ else _) (if owner = tid then _ else _)
      split
      · exact .answered e₁ _
      · exact .waiting e₁ owner
    | received | logging | dispatching | answered | handling | refused =>
      constructor
      try assumption
  · exact h

/-- A stranger's section asks neither the runtime nor the log store. -/
theorem section_deaf (halike : Alike pc pc') (hasks : pc.asks = some (e, x))
    (hown : w.mem.owner x ≠ some e.1.sender) (i : Input) (fault : Option Fault) (chunk : LogChunk) :
    advance tid pc { i with fault := fault, chunk := chunk } w = advance tid pc i w := by
  cases halike with
  | @logging e₁ q hq =>
    have hsubject : subject e₁.1 = some (.execution q.executionID) := by
      rw [subject, hq]
    rw [Pc.asks, Pc.command, Option.bind_some, hsubject] at hasks
    cases hasks
    show some (w, Next.ret (handleLogs cfg _ e.1 q w)) = some (w, .ret (handleLogs cfg i e.1 q w))
    rw [handleLogs_refused hown, handleLogs_refused hown]
  | received | dispatching | waiting | answered | handling | refused => rfl

/-- Every shadow stands where its call stands. -/
def Shadowed (s : System cfg) (shadows : FMap Nat (Pc cfg)) : Prop :=
  ∀ tid pc', shadows.lookup tid = some pc' →
    ∃ pc, s.threads.lookup tid = some pc ∧ Alike pc pc' ∧ pc.asks.isSome = true

variable {shadows : FMap Nat (Pc cfg)}

/-- A call that enters. -/
theorem Shadowed.spawn (h : Shadowed s shadows) (hspawn : s.spawn tid pc = some t) :
    Shadowed t shadows ∧ (s.threads.lookup tid = none ∧ t.threads.lookup tid = some pc) := by
  unfold System.spawn at hspawn
  split at hspawn
  · cases hspawn
  rename_i hfree
  cases hspawn
  have hnone : s.threads.lookup tid = none := by simpa using hfree
  refine ⟨?_, hnone, lookup_insert _⟩
  intro tid' pc' hpc'
  obtain ⟨pc₁, hpc₁, hrest⟩ := h tid' pc' hpc'
  refine ⟨pc₁, ?_, hrest⟩
  have hne : tid' ≠ tid := AList.ne_of_lookup hpc₁ hnone
  rw [lookup_insert_ne hne, hpc₁]

/-- A call that enters with its shadow. -/
theorem Shadowed.call (h : Shadowed s shadows) (hspawn : s.spawn tid (.received e) = some t) :
    Shadowed t (if (subject e.1).isSome then shadows.insert tid (.received e) else shadows) := by
  obtain ⟨hold, -, hnew⟩ := h.spawn hspawn
  split
  next hsubject =>
    intro tid' pc' hpc'
    by_cases htid : tid' = tid
    · subst htid
      rw [lookup_insert] at hpc'
      cases hpc'
      refine ⟨_, hnew, .received e, ?_⟩
      show ((subject e.1).map _).isSome = true
      rw [Option.isSome_map, hsubject]
    · rw [lookup_insert_ne htid] at hpc'
      exact hold tid' pc' hpc'
  · exact hold

theorem asks_wakes (tid : Nat) (i : Input) (pc₀ pc : Pc cfg) (next : Next cfg) :
    (wakes tid i pc₀ next pc).asks = pc.asks := by
  unfold wakes
  split
  · cases pc
    case waiting e owner =>
      show Pc.asks (if owner = tid then .answered e _ else .waiting e owner) = _
      split <;> rfl
    all_goals rfl
  · rfl

/-- A section of a call. -/
theorem Shadowed.run (h : Shadowed s shadows) (hpc : s.threads.lookup tid = some pc)
    (hr : advance tid pc i s.world = some (w', next)) :
    Shadowed (s.resume tid pc i (w', next)) (shadowTurn tid i pc next s.world shadows) := by
  intro tid' pc' hpc'
  by_cases htid : tid' = tid
  · subst htid
    rw [shadowTurn_self] at hpc'
    obtain ⟨⟨w₂, next'⟩, hsection, hnext'⟩ := bind_eq_some_iff.mp hpc'
    obtain ⟨pc₁, hpc₁, hshadow⟩ := bind_eq_some_iff.mp hsection
    obtain ⟨pc₀, hpc₀, halike, hasks⟩ := h _ _ hpc₁
    rw [hpc] at hpc₀
    cases hpc₀
    obtain ⟨⟨e, x⟩, hasks⟩ := isSome_iff_exists.mp hasks
    have hasks' : pc₁.asks = some (e, x) := by
      rw [← hasks, Pc.asks, Pc.asks, halike.command]
    unfold shadowSection at hshadow
    rw [hasks'] at hshadow
    dsimp only at hshadow
    split at hshadow
    · cases hshadow
    rename_i hown
    obtain ⟨-, w₃, next₂, hr₂, halike₂⟩ := section_alike halike hasks hown hr
    rw [hr₂] at hshadow
    cases hshadow
    cases halike₂ with
    | ret _ => cases hnext'
    | @goto q q' hq =>
      cases hnext'
      refine ⟨q, ?_, hq, ?_⟩
      · rw [resume_self]
        rfl
      · rw [Pc.asks, (advance_succ hr).command]
        show pc.asks.isSome = true
        rw [hasks]
        rfl
  · rw [shadowTurn_other htid] at hpc'
    obtain ⟨pc₁, hpc₁, rfl⟩ := map_eq_some_iff.mp hpc'
    obtain ⟨pc₀, hpc₀, halike, hasks⟩ := h _ _ hpc₁
    refine ⟨wakes tid i pc next pc₀, ?_, halike.woken tid i pc next, ?_⟩
    · rw [resume_threads_other s htid, hpc₀, map_some]
    · rw [asks_wakes, hasks]

theorem shadowed_reachable {st : System cfg × FMap Nat (Pc cfg)} (h : (shadowing cfg).Reach st) :
    Shadowed st.1 st.2 := by
  refine h.observed (I := Shadowed) ?_ ?_
  · intro s _ tid pc' hpc'
    cases hpc'
  · intro s l t shadows _ _ ih _ hmove
    cases l with
    | call tid e => exact ih.call hmove
    | run tid i =>
      obtain ⟨pc, ⟨w', next⟩, hpc, hr, rfl⟩ := run_step hmove
      simp only [shadowNote, hpc, hr]
      exact ih.run hpc hr
    | restart granted now =>
      intro tid pc' hpc'
      cases hpc'
    | sweep | evictLeases | recover | openTunnel => exact (ih.spawn hmove).1
    | closeTunnel | completed | expire | view =>
      cases hmove
      exact ih

-- ===== the theorem

/-- A section of a call whose sender has been a stranger to its subject
in every section so far, and is now: it leaves every offer but for
expiry, every execution with its lease and every tunnel binding alone, it
does not touch the log store, and a reply it returns is the one the call
returns when there is nothing under the ID. -/
theorem strangers_learn_nothing {shadows : FMap Nat (Pc cfg)}
    (hs : (shadowing cfg).Reach (s, shadows)) {tid : Nat} {pc pc' : Pc cfg}
    {e : Inbound cfg} {x : Subject} (hpc : s.threads.lookup tid = some pc)
    (hshadow : shadows.lookup tid = some pc') (hasks : pc.asks = some (e, x))
    (hown : s.world.mem.owner x ≠ some e.1.sender) {next : Next cfg}
    (hr : advance tid pc i s.world = some (w', next)) :
    Undisturbed i.now s.world.mem w'.mem ∧
    (∀ fault chunk,
      advance tid pc { i with fault := fault, chunk := chunk } s.world = some (w', next)) ∧
    ∃ w₂ next', advance tid pc' (i.alike next) (s.world.without e.1.sender x)
        = some (w₂, next') ∧
      ∀ reply, next = .ret reply →
        ∃ reply', next' = .ret reply' ∧ reply.responses = reply'.responses := by
  obtain ⟨pc₀, hpc₀, halike, -⟩ := shadowed_reachable hs tid pc' hshadow
  replace hpc₀ : s.threads.lookup tid = some pc₀ := hpc₀
  rw [hpc] at hpc₀
  cases hpc₀
  obtain ⟨hkept, w₂, next', hr', hnext⟩ := section_alike halike hasks hown hr
  refine ⟨hkept, ?_, w₂, next', hr', ?_⟩
  · intro fault chunk
    rw [section_deaf halike hasks hown, hr]
  · rintro reply rfl
    cases hnext with
    | ret hresponses => exact ⟨_, rfl, hresponses.symm⟩

/-- Another client's inspection of the sample execution. -/
def strangeInspect : Inbound oneSlot :=
  ⟨⟨text "b1", text "bob", [], some (Timestamp.new epoch),
    some (.executionInspect ⟨text "x"⟩)⟩, by decide +kernel⟩

/-- The sections of the inspection up to its return. -/
def inspectRun : List (Label oneSlot) :=
  [ .call 2 strangeInspect, .run 2 { now := epoch }, .run 2 { now := epoch },
    .run 2 { now := epoch } ]

/-- It is answered as if there were no such execution. -/
theorem stranger_inspection_is_refused :
    ∃ (s : System oneSlot) (shadows : FMap Nat (Pc oneSlot)) (pc pc' : Pc oneSlot)
      (w w₂ : World) (reply reply' : Reply),
      (shadowing oneSlot).Reach (s, shadows) ∧
      s.world.mem.owner (.execution (text "x")) = some alice ∧
      advance 2 pc { now := epoch } s.world = some (w, .ret reply) ∧
      advance 2 pc' (Input.alike { now := epoch } (.ret reply : Next oneSlot))
          (s.world.without (text "bob") (.execution (text "x")))
        = some (w₂, .ret reply') ∧
      reply.responses.map Envelope.payload = [some (.commandError
        ⟨"NOT_FOUND", text "resource unavailable to this identity", false⟩)] ∧
      reply.responses = reply'.responses := by
  obtain ⟨⟨s, shadows⟩, hs, hp⟩ := (shadowing oneSlot).exists_reach (.observe rfl)
    (requestRun ++ assignRun ++ inspectRun)
    (fun st => st.1.world.mem.owner (.execution (text "x")) = some alice ∧
      (st.2.lookup 2).isSome = true ∧
      (st.1.threads.lookup 2).any fun pc =>
        pc.asks = some (strangeInspect, .execution (text "x")) ∧
        (advance 2 pc { now := epoch } st.1.world).any fun r =>
          r.2.pc = none ∧ r.2.held.map Envelope.payload = [some (.commandError
            ⟨"NOT_FOUND", text "resource unavailable to this identity", false⟩)])
    (by decide +kernel)
  simp only [decide_eq_true_eq, Option.any_eq_true] at hp
  obtain ⟨hown, hshadow, pc, hpc, hasks, ⟨w, next⟩, hr, hno, hreply⟩ := hp
  obtain ⟨pc', hpc'⟩ := isSome_iff_exists.mp hshadow
  cases next with
  | goto => cases hno
  | done => cases hreply
  | ret reply =>
    have hstranger : s.world.mem.owner (.execution (text "x"))
        ≠ some strangeInspect.1.sender := by
      rw [hown]
      decide
    obtain ⟨-, -, w₂, next', hr', hsame⟩ :=
      strangers_learn_nothing hs hpc hpc' hasks hstranger hr
    obtain ⟨reply', rfl, hresponses⟩ := hsame reply rfl
    exact ⟨s, shadows, pc, pc', w, w₂, reply, reply', hs, hown, hr, hr',
      hreply, hresponses⟩

end R1s.Allocator
