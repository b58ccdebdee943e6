/-
What the sections leave alone. Most sections work on executions, slots
and the status of offers only: the replay cache, the tombstones and the
clock come out as they went in, no offer appears, disappears or changes
hands, and the store either keeps its snapshot or takes the one of the
new state. `Frame` says so, and `Alters.touches` proves it of every
section but the request that mints an offer (`Minted`) and the six whose
business these fields are:

  * `receive` and a round of `EvictExpiredLeases` advance the clock;
  * `beginReplay` and `finishReplay` work on the cache;
  * `Sweep` collects offers into tombstones and drops cache entries;
  * its cleanup rewrites one tombstone.
-/
import R1s.Allocator.Proofs.Records

namespace R1s.Allocator

variable {cfg : Config} {w w' : World} {i : Input}

-- ===== the relation

/-- The record holds the same offer, for the same request and client. -/
structure SameOffer (r r' : OfferRecord) : Prop where
  offer : r'.offer = r.offer
  request : r'.request = r.request
  client : r'.client = r.client

/-- No offer appears, disappears or changes hands. -/
structure SameOffers (m m' : Mem) : Prop where
  kept : ∀ o r, m.offers.lookup o = some r →
    ∃ r', m'.offers.lookup o = some r' ∧ SameOffer r r'
  absent : ∀ o, m.offers.lookup o = none → m'.offers.lookup o = none

/-- The cache, the tombstones and the clock are the same, and the offers
are kept. -/
structure Untouched (m m' : Mem) : Prop where
  replay : m'.replay = m.replay
  tombstones : m'.tombstones = m.tombstones
  highWater : m'.highWater = m.highWater
  offers : SameOffers m m'

/-- A section from `w` to `w'` outside the cache, the tombstones and the
clock. -/
structure Frame (cfg : Config) (w w' : World) : Prop where
  mem : Untouched w.mem w'.mem
  disk : Stored cfg w w'

theorem SameOffer.refl (r : OfferRecord) : SameOffer r r := ⟨rfl, rfl, rfl⟩

variable {r' : OfferRecord}

theorem SameOffer.trans {r r'' : OfferRecord} (h : SameOffer r r') (h' : SameOffer r' r'') :
    SameOffer r r'' :=
  ⟨h'.offer.trans h.offer, h'.request.trans h.request, h'.client.trans h.client⟩

variable {m m' : Mem}

theorem SameOffers.of_eq (h : m'.offers = m.offers) : SameOffers m m' := by
  constructor
  · intro o r hr
    exact ⟨r, by rw [h, hr], .refl r⟩
  · intro o ho
    rw [h, ho]

theorem SameOffers.trans {m'' : Mem} (h : SameOffers m m') (h' : SameOffers m' m'') :
    SameOffers m m'' := by
  constructor
  · intro o r hr
    obtain ⟨r', hr', hsame⟩ := h.kept o r hr
    obtain ⟨r'', hr'', hsame'⟩ := h'.kept o r' hr'
    exact ⟨r'', hr'', hsame.trans hsame'⟩
  · intro o ho
    exact h'.absent o (h.absent o ho)

/-- An offer that is there was there before. -/
theorem SameOffers.before {o : GoString} (h : SameOffers m m')
    (hr' : m'.offers.lookup o = some r') : ∃ r, m.offers.lookup o = some r ∧ SameOffer r r' := by
  cases hr : m.offers.lookup o with
  | none =>
    rw [h.absent o hr] at hr'
    cases hr'
  | some r =>
    obtain ⟨r'', hr'', hsame⟩ := h.kept o r hr
    rw [hr''] at hr'
    cases hr'
    exact ⟨r, rfl, hsame⟩

/-- Writing a record of the same offer over an offer keeps the offers. -/
theorem SameOffers.insert {o : GoString} {r : OfferRecord} (hm : m'.offers = m.offers.insert o r')
    (hr : m.offers.lookup o = some r) (hsame : SameOffer r r') : SameOffers m m' := by
  constructor
  · intro o₀ r₀ hr₀
    rw [hm, AList.lookup_insert_if]
    split
    next heq =>
      subst heq
      obtain rfl : r = r₀ := Option.some.inj (hr.symm.trans hr₀)
      exact ⟨r', rfl, hsame⟩
    · exact ⟨r₀, hr₀, .refl r₀⟩
  · intro o₀ ho₀
    rw [hm, AList.lookup_insert_if, if_neg, ho₀]
    intro heq
    rw [heq, hr] at ho₀
    cases ho₀

theorem Untouched.refl (m : Mem) : Untouched m m := ⟨rfl, rfl, rfl, .of_eq rfl⟩

theorem Untouched.trans {m'' : Mem} (h : Untouched m m') (h' : Untouched m' m'') :
    Untouched m m'' where
  replay := h'.replay.trans h.replay
  tombstones := h'.tombstones.trans h.tombstones
  highWater := h'.highWater.trans h.highWater
  offers := h.offers.trans h'.offers

theorem untouched_expireOffers (now : Int) (m : Mem) : Untouched m (expireOffers now m) where
  replay := rfl
  tombstones := rfl
  highWater := rfl
  offers := by
    constructor
    · intro o r hr
      refine ⟨r.expire now, ?_, ?_⟩
      · show (m.offers.mapVal fun _ r => r.expire now).lookup o = some (r.expire now)
        rw [AList.lookup_mapVal, hr]
        rfl
      · unfold OfferRecord.expire
        split
        · exact ⟨rfl, rfl, rfl⟩
        · exact .refl r
    · intro o ho
      exact lookup_expireOffers_none.mpr ho

theorem Frame.refl (w : World) : Frame cfg w w := ⟨.refl _, .inl rfl⟩

-- ===== sections

/-- A request that mints an offer: the record is new, nothing retired its
request, and the state that holds it is saved. -/
structure Minted (cfg : Config) (i : Input) (e : Envelope) (request : ExecutionRequest)
    (w w' : World) : Prop where
  fresh : w.mem.offers.lookup i.id = none
  unanswered : (expireOffers i.now w.mem).requested e request = none
  unretired : (w.mem.tombstones.any fun _ t => t.retires e.sender request.requestID) = false
  offers : w'.mem.offers
    = (expireOffers i.now w.mem).offers.insert i.id (mintRecord cfg i e request)
  replay : w'.mem.replay = w.mem.replay
  tombstones : w'.mem.tombstones = w.mem.tombstones
  highWater : w'.mem.highWater = w.mem.highWater
  saved : ∃ m, persist cfg i.saved (w.setMem m) = .ok w'

/-- A request that passes the checks is retired by no tombstone. -/
theorem unretired_of_requestErr {e : Envelope} {request : ExecutionRequest}
    (h : requestErr cfg e request m = none) :
    (m.tombstones.any fun _ t => t.retires e.sender request.requestID) = false := by
  unfold requestErr at h
  split at h
  · cases h
  next hany => simpa using hany

/-- The section of a request that mints an offer. -/
def Mints (i : Input) (pc : Pc cfg) (w w' : World) : Prop :=
  ∃ e q, pc = .handling e ∧ e.1.payload = some (.executionRequest q) ∧
    Minted cfg i e.1 q w w'

variable {pc : Option (Pc cfg)} {next : Option (Next cfg)} {m m' : Mem} {b : Bool}

/-- The sections that collect or clean up. -/
def Pc.buries : Pc cfg → Bool
  | .collecting _ | .cleaning (_ :: _) _ _ => true
  | _ => false

/-- The sections that neither begin nor finish an entry. -/
def Pc.cacheless : Pc cfg → Bool
  | .dispatching _ | .finishing _ _ => false
  | _ => true

/-- What a section leaves alone: the six each have their own field. -/
inductive Touches (cfg : Config) (pc : Option (Pc cfg)) (i : Input) (m : Mem) :
    Bool → Mem → Prop
  | nothing {m' : Mem} {b : Bool} (h : Untouched m m') : Touches cfg pc i m b m'
  | mint {e q used} (hpc : pc = some (.handling e)) (hq : e.1.payload = some (.executionRequest q))
      (hnew : (expireOffers i.now m).requested e.1 q = none)
      (herr : requestErr cfg e.1 q (expireOffers i.now m) = none)
      (hfree : m.offers.lookup i.id = none) :
      Touches cfg pc i m true
        { expireOffers i.now m with
          offers := (expireOffers i.now m).offers.insert i.id (mintRecord cfg i e.1 q),
          requests := (expireOffers i.now m).requests.insert
            (authorityKey e.1.sender q.requestID) i.id,
          used := used }
  | six {p} {m' : Mem} {b : Bool} (hpc : pc = some p) (hp : p.framed = false)
      (hcalm : p.buries = false → m'.tombstones = m.tombstones ∧ SameOffers m m' ∧
        m.highWater ≤ m'.highWater)
      (hcache : p.cacheless = true → m'.replay = m.replay ∨
        m' = sweepDropped (sweepCollected (sweepReady cfg i.now m))) :
      Touches cfg pc i m b m'

theorem Alters.touches (ha : Alters cfg pc i next m b m') : Touches cfg pc i m b m' := by
  have hexp := untouched_expireOffers i.now m
  cases ha with
  | minted hpc hm hq hnew herr hid hfree hused =>
    subst hm
    exact .mint hpc hq hnew herr (lookup_expireOffers_none.mp hfree)
  | same | missed | cancelled | rewritten | reattached | renewed | bound | opened | rechecked
  | closed | completed | uncompleted => exact .nothing ⟨rfl, rfl, rfl, .of_eq rfl⟩
  | expired hpc now => exact .nothing (untouched_expireOffers now m)
  | unminted hpc hm =>
    subst hm
    exact .nothing (hexp.trans ⟨rfl, rfl, rfl, .of_eq rfl⟩)
  | assigned hpc ha =>
    exact .nothing (hexp.trans ⟨rfl, rfl, rfl, .insert rfl ha.offer ⟨rfl, rfl, rfl⟩⟩)
  | unassigned hpc hm hr =>
    subst hm
    exact .nothing (hexp.trans ⟨rfl, rfl, rfl, .insert rfl hr ⟨rfl, rfl, rfl⟩⟩)
  | started =>
    refine .nothing ?_
    unfold startReturned
    split
    · split <;> exact ⟨rfl, rfl, rfl, .of_eq rfl⟩
    · exact .refl m
  | unstopped =>
    refine .nothing ?_
    unfold stopFailed
    split <;> exact ⟨rfl, rfl, rfl, .of_eq rfl⟩
  | stopped =>
    refine .nothing ?_
    unfold stopSucceeded
    split <;> exact ⟨rfl, rfl, rfl, .of_eq rfl⟩
  | released hpc hr => exact .nothing ⟨rfl, rfl, rfl, .insert rfl hr ⟨rfl, rfl, rfl⟩⟩
  | unreleased hpc hr => exact .nothing ⟨rfl, rfl, rfl, .insert rfl hr (.refl _)⟩
  | clock hpc hp =>
    exact .six hpc hp (fun _ => ⟨rfl, .of_eq rfl, le_max_left _ _⟩) fun _ => .inl rfl
  | begun hpc hm =>
    subst hm
    have hoffers := hexp.offers
    exact .six hpc rfl (fun _ => ⟨rfl, ⟨hoffers.kept, hoffers.absent⟩, le_refl _⟩) nofun
  | answered hpc => exact .six hpc rfl (fun _ => ⟨rfl, .of_eq rfl, le_refl _⟩) nofun
  | evicted hpc hm | unevicted hpc hm =>
    subst hm
    exact .six hpc rfl (fun _ => ⟨rfl, .of_eq rfl, le_max_left _ _⟩) fun _ => .inl rfl
  | swept hpc => exact .six hpc rfl nofun fun _ => .inr rfl
  | cleaned hpc | uncleaned hpc => exact .six hpc rfl nofun fun _ => .inl rfl

/-- A minting section. -/
theorem Lands.mints {e : Inbound cfg} {q : ExecutionRequest} {used : GoString → Nat}
    (hl : Lands cfg i w
      { expireOffers i.now w.mem with
        offers := (expireOffers i.now w.mem).offers.insert i.id (mintRecord cfg i e.1 q),
        requests := (expireOffers i.now w.mem).requests.insert
          (authorityKey e.1.sender q.requestID) i.id,
        used := used } true w')
    (hq : e.1.payload = some (.executionRequest q))
    (hnew : (expireOffers i.now w.mem).requested e.1 q = none)
    (herr : requestErr cfg e.1 q (expireOffers i.now w.mem) = none)
    (hfree : w.mem.offers.lookup i.id = none) : Mints i (.handling e) w w' := by
  have hmem := hl.mem
  have hunretired := unretired_of_requestErr herr
  refine ⟨e, q, rfl, hq, hfree, hnew, hunretired, ?_, ?_, ?_, ?_, ?_⟩
  case refine_5 =>
    cases hl with
    | saved h => exact ⟨_, h⟩
  all_goals
    rw [hmem]
    try rfl

variable {tid : Nat}

-- ===== a step

/-- The threads are the same, or one enters. -/
def Entered (s t : System cfg) : Prop :=
  t.threads = s.threads ∨ ∃ tid pc, s.threads.lookup tid = none ∧ pc.entry = true ∧
    t.threads = s.threads.insert tid pc

variable {s t : System cfg}

theorem Entered.lookup {pc : Pc cfg} (h : Entered s t) (hpc : t.threads.lookup tid = some pc) :
    s.threads.lookup tid = some pc ∨ pc.entry = true := by
  rcases h with hsame | ⟨tid₀, pc₀, -, hentry, hins⟩
  · rw [hsame] at hpc
    exact .inl hpc
  · rw [hins] at hpc
    rcases AList.of_lookup_insert hpc with ⟨-, rfl⟩ | ⟨-, hold⟩
    · exact .inr hentry
    · exact .inl hold

/-- What holds of no call that enters was there before. -/
theorem Entered.bind {β : Type} {g : Pc cfg → Option β} {b : β} (h : Entered s t)
    (hg : ∀ pc, pc.entry = true → g pc = none) (hb : (t.threads.lookup tid).bind g = some b) :
    (s.threads.lookup tid).bind g = some b := by
  obtain ⟨pc, hpc, hb⟩ := Option.bind_eq_some_iff.mp hb
  rcases h.lookup hpc with hold | hentry
  · rw [hold]
    exact hb
  · rw [hg pc hentry] at hb
    cases hb

theorem spawn_entered {pc : Pc cfg} (hpc : pc.entry = true) (h : s.spawn tid pc = some t) :
    Entered s t := by
  unfold System.spawn at h
  split at h
  · cases h
  next hfree =>
    cases h
    exact .inr ⟨tid, pc, by simpa using hfree, hpc, rfl⟩

/-- A step that runs no section of a call and is no restart. -/
theorem step_frame {l : Label cfg} (hrun : ∀ tid i, l ≠ .run tid i) (hl : l.isRestart = false)
    (h : s.step l = some t) : Frame cfg s.world t.world ∧ Entered s t := by
  have hpoint : s.point l = none := by
    cases l with
    | run tid i => exact absurd rfl (hrun tid i)
    | _ => rfl
  constructor
  · obtain ⟨next, b, m, ha, hland⟩ := step_effect hl h
    have hmem := hland.mem
    rw [hpoint] at ha
    cases ha.touches with
    | nothing h => exact ⟨hmem ▸ h, hland.disk.1⟩
    | mint hp | six hp => cases hp
  · cases l with
    | call | sweep | evictLeases | recover | openTunnel => exact spawn_entered rfl h
    | run tid i => exact absurd rfl (hrun tid i)
    | restart granted now => cases hl
    | _ =>
      cases h
      exact .inl rfl

/-- What a step is: a section of a call, a step that runs none, or a
restart. -/
inductive StepKind (s : System cfg) : Label cfg → System cfg → Prop
  | run {tid i pc r} (hpc : s.threads.lookup tid = some pc)
      (hr : advance tid pc i s.world = some r) : StepKind s (.run tid i) (s.resume tid pc i r)
  | other {l t} (hrun : ∀ tid i, l ≠ .run tid i) (hl : l.isRestart = false)
      (hframe : Frame cfg s.world t.world) (hentered : Entered s t) : StepKind s l t
  | restart {granted now t} : StepKind s (.restart granted now) t

theorem step_kind {l : Label cfg} (h : s.step l = some t) : StepKind s l t := by
  by_cases hrun : ∃ tid i, l = .run tid i
  · obtain ⟨tid, i, rfl⟩ := hrun
    obtain ⟨pc, r, hpc, hr, rfl⟩ := run_step h
    exact .run hpc hr
  · have hrun : ∀ tid i, l ≠ .run tid i := fun tid i heq => hrun ⟨tid, i, heq⟩
    by_cases hl : l.isRestart = false
    · obtain ⟨hframe, hentered⟩ := step_frame hrun hl h
      exact .other hrun hl hframe hentered
    · obtain ⟨granted, now, rfl⟩ := l.restarts hl
      exact .restart

end R1s.Allocator
