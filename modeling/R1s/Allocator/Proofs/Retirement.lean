/-
The life of one request across sweeps: it is accepted and gets an offer,
the offer is collected, and from then on a redelivery of the same
envelope is to create nothing. Three times decide whether it does: the
request's own sent_at, up to two minutes ahead of the allocator's clock;
the clock of the sweep that buries the offer; and the clock at the
redelivery. The envelope is fresh until sent_at + 7 days, the tombstone
stands until the sweep's clock + 7 days.

# What is observed

An observer beside the allocator notes the offers the request created,
the sweep that collects one of them, and whether the request creates an
offer or takes a slot after that (`Life`). It does not, in the runs in
which no sweep buries the offer before its clock is past sent_at, no
sweep drops the tombstone while a delivery is between its freshness
check and its handler, and offer IDs do not repeat (`keepsRetired`).
-/
import R1s.Allocator.Proofs.Tombstones

namespace R1s.Allocator

variable {cfg : Config}

-- ===== the observer

/-- What became of a request: the offers it created while none of them is
collected, the collected offer and the sweep's clock, or another creation
after that. -/
inductive Life
  | live (offers : List GoString)
  | collected (id : GoString) (since : Int)
  | revived
deriving DecidableEq

/-- The offers a step creates. -/
def System.newOffers (s t : System cfg) : List GoString :=
  t.world.mem.offers.keys.filter fun o => (s.world.mem.offers.lookup o).isNone

/-- The step takes a slot of some class. -/
def System.reserves (s t : System cfg) : Bool :=
  cfg.limits.keys.any fun cls => s.world.mem.used cls < t.world.mem.used cls

/-- The handler section of the request went from `s` to `t`. -/
def Life.handled (s t : System cfg) : Life → Life
  | .live offers => .live (s.newOffers t ++ offers)
  | .collected id since =>
    if s.newOffers t = [] ∧ s.reserves t = false then .collected id since else .revived
  | .revived => .revived

/-- The collection pass of a sweep went from `s` to `t`. -/
def Life.swept (s t : System cfg) : Life → Life
  | .live offers =>
    match offers.find? fun o =>
      (s.world.mem.offers.lookup o).isSome && (t.world.mem.offers.lookup o).isNone with
    | some o => .collected o t.world.mem.highWater
    | none => .live offers
  | life => life

/-- What the observer of the request `e` notes of a step. -/
def Life.note (e : Envelope) (s : System cfg) (l : Label cfg) (t : System cfg)
    (life : Life) : Life :=
  match l with
  | .run tid _ =>
    match s.threads.lookup tid with
    | some (.handling e') => if e'.1 = e then life.handled s t else life
    | some (.collecting _) => life.swept s t
    | _ => life
  | _ => life

/-- The allocator beside the observer of one request. -/
def requestLife (cfg : Config) (e : Envelope) :
    TransitionSystem (System cfg × Life) (Label cfg) :=
  (machine cfg).observe (.live []) fun s l t life => life.note e s l t

-- ===== the condition

/-- The tombstones a sweep has still to clean up. -/
def Pc.pendingOf : Pc cfg → Option (List Tombstone)
  | .cleaning pending _ _ => some pending
  | _ => none

/-- The command of a call between its freshness check and its handler. -/
def Pc.passed : Pc cfg → Option (Inbound cfg)
  | .dispatching e | .handling e => some e
  | _ => none

/-- A tombstone or a cleanup in progress goes by this offer ID. -/
def System.named (s : System cfg) (id : GoString) : Bool :=
  (s.world.mem.tombstones.lookup id).isSome || s.threads.any fun _ pc =>
    pc.pendingOf.any fun pending => pending.any fun dead => dead.offerID = id

/-- The ID for an offer to `e'` does not repeat: it names nothing left of
a collected offer if the offer is for `e`, and is not the ID of the
offer `e` had. -/
def unusedID (e : Envelope) (s : System cfg × Life) (e' : Envelope) (id : GoString) : Bool :=
  (e' ≠ e || !s.1.named id) &&
    match s.2 with
    | .collected o _ => id ≠ o
    | _ => true

/-- The sweep at `now` buries an offer of `e` only after the clock is past
its sent_at, and drops the tombstone only when no delivery of `e` has
passed its freshness check. -/
def sweptInTime (e : Envelope) (now : Int) (s : System cfg × Life) : Bool :=
  match s.2 with
  | .live offers =>
    let m := sweepReady cfg now s.1.world.mem
    offers.all fun o => (m.offers.lookup o).all fun r =>
      !r.due m || asTime e.sentAt < m.highWater
  | .collected o _ =>
    !(s.1.threads.any fun _ pc => pc.passed.any fun e' => e'.1 = e) ||
      (s.1.world.mem.tombstones.lookup o).any
        (Tombstone.outlives (max s.1.world.mem.highWater now))
  | .revived => true

/-- The condition on a step. -/
def keepsRetired (e : Envelope) (s : System cfg × Life) : Label cfg → Bool
  | .run tid i =>
    match s.1.threads.lookup tid with
    | some (.handling e') =>
      match e'.1.payload with
      | some (.executionRequest q) =>
        ((expireOffers i.now s.1.world.mem).requested e'.1 q).isSome
          || unusedID e s e'.1 i.id
      | _ => true
    | some (.collecting _) => sweptInTime e i.now s
    | _ => true
  | _ => true

-- ===== the invariant

def requestIDOf (e : Envelope) : Option GoString :=
  match e.payload with
  | some (.executionRequest q) => some q.requestID
  | _ => none

/-- The tombstone retires `e`, for as long as a sweep at `since` makes
it. -/
structure Marks (e : Envelope) (since : Int) (t : Tombstone) : Prop where
  client : t.client = e.sender
  request : requestIDOf e = some t.requestID
  lasts : since + commandHorizon ≤ t.expiresAt

/-- The offer `o` of `e` is there. -/
def Offered (e : Envelope) (o : GoString) (m : Mem) : Prop :=
  ∃ r, m.offers.lookup o = some r ∧ r.client = e.sender ∧
    requestIDOf e = some r.offer.requestID ∧ m.tombstones.lookup o = none

/-- The tombstone of the collected offer is there. -/
def Guarded (e : Envelope) (o : GoString) (since : Int) (m : Mem) : Prop :=
  ∃ t, m.tombstones.lookup o = some t ∧ Marks e since t

/-- After the collection the ID has no offer, and its tombstone stands
until the clock is seven days past the sweep. -/
structure Gone (e : Envelope) (o : GoString) (since : Int) (m : Mem) : Prop where
  gone : m.offers.lookup o = none
  pending : ∀ t, m.tombstones.lookup o = some t → t.cleanupPending = true → Marks e since t
  guarded : Guarded e o since m ∨ since + commandHorizon ≤ m.highWater

/-- The memory agrees with what became of the request. -/
def Tracked (e : Envelope) (m : Mem) : Life → Prop
  | .live offers => ∀ o ∈ offers, Offered e o m
  | .collected o since => Gone e o since m
  | .revived => False

structure Recorded (cfg : Config) (e : Envelope) (life : Life) (m : Mem) : Prop where
  linked : Linked m
  buried : Buried cfg m
  tracked : Tracked e m life

/-- A tombstone a sweep has still to clean up. -/
structure PendingOk (cfg : Config) (e : Envelope) (life : Life) (dead : Tombstone) :
    Prop where
  valid : cfg.stored = true → Utf8.valid dead.offerID = true
  live : ∀ offers, life = .live offers → dead.offerID ∉ offers
  marks : ∀ o since, life = .collected o since → dead.offerID = o → Marks e since dead

/-- A reload gives a memory that agrees with the life. -/
def OnDisk (cfg : Config) (e : Envelope) (life : Life) (disk : Option Snapshot) : Prop :=
  (life = .live [] ∧ disk = none) ∨
    ∃ saved src, Recorded cfg e life src ∧ disk = some (snapshot cfg saved src)

/-- A delivery of `e` is between its freshness check and its handler. -/
def System.Checked (s : System cfg) (e : Envelope) : Prop :=
  ∃ tid e', (s.threads.lookup tid).bind Pc.passed = some e' ∧ e'.1 = e

/-- A sweep has the tombstone still to clean up. -/
def System.Cleans (s : System cfg) (dead : Tombstone) : Prop :=
  ∃ tid pending, (s.threads.lookup tid).bind Pc.pendingOf = some pending ∧ dead ∈ pending

structure LifeInv (e : Envelope) (s : System cfg × Life) : Prop where
  mem : Recorded cfg e s.2 s.1.world.mem
  disk : cfg.stored = true → OnDisk cfg e s.2 s.1.world.disk
  /-- The sweep's clock was past sent_at. -/
  sent : ∀ o since, s.2 = .collected o since → asTime e.sentAt < since
  valid : ∀ o since, s.2 = .collected o since → cfg.stored = true →
    ∀ id, requestIDOf e = some id → Utf8.valid id = true
  /-- A delivery past its freshness check finds the tombstone. -/
  checked : ∀ o since, s.2 = .collected o since → s.1.Checked e →
    Guarded e o since s.1.world.mem
  cleans : ∀ dead, s.1.Cleans dead → PendingOk cfg e s.2 dead

-- ===== the calls

section Calls

variable {s : System cfg} {tid : Nat} {pc : Pc cfg} {i : Input} {r : World × Next cfg}

variable {pc' : Pc cfg}

theorem receive_withinHorizon {e : Inbound cfg} {w : World} (h : (receive i e w).2 = .goto pc') :
    withinHorizon (max w.mem.highWater i.now) e.1 = true := by
  unfold receive checkFreshness freshnessErr at h
  simp only [effectiveNow_eq] at h
  by_contra hout
  simp only [Bool.not_eq_true] at hout
  rw [hout] at h
  cases h

theorem Pc.Succ.passed {pc : Pc cfg} {e : Inbound cfg} (h : pc.Succ pc')
    (he : pc'.passed = some e) : pc.passed = some e ∨ pc = .received e := by
  cases h with
  | dispatching =>
    cases he
    exact .inr rfl
  | _ => first | exact .inl he | cases he

theorem Pc.Succ.pendingOf {pc : Pc cfg} {pending : List Tombstone} (h : pc.Succ pc')
    (hp : pc'.pendingOf = some pending) :
    (∃ dead, pc.pendingOf = some (dead :: pending)) ∨ ∃ err, pc = .collecting err := by
  cases h with
  | collected => exact .inr ⟨_, rfl⟩
  | cleaned =>
    cases hp
    exact .inl ⟨_, rfl⟩
  | _ => cases hp

variable {e : Envelope} {dead : Tombstone}

theorem Entered.checked {t : System cfg} (h : Entered s t) (hc : t.Checked e) : s.Checked e := by
  obtain ⟨tid, e', hpassed, rfl⟩ := hc
  refine ⟨tid, e', h.bind ?_ hpassed, rfl⟩
  intro pc hpc
  cases pc <;> first | rfl | cases hpc

theorem Entered.cleans {t : System cfg} (h : Entered s t) (hc : t.Cleans dead) : s.Cleans dead := by
  obtain ⟨tid, pending, hpending, hdead⟩ := hc
  refine ⟨tid, pending, h.bind ?_ hpending, hdead⟩
  intro pc hpc
  cases pc <;> first | rfl | cases hpc

variable (hpc : s.threads.lookup tid = some pc) (hr : advance tid pc i s.world = some r)
include hpc hr

/-- A delivery gets past its freshness check when it is received. -/
theorem checked_run (h : (s.resume tid pc i r).Checked e) :
    s.Checked e ∨ withinHorizon (max s.world.mem.highWater i.now) e = true ∧
      ∃ e', pc = .received e' := by
  obtain ⟨t, e', hpassed, rfl⟩ := h
  rcases resume_bind Pc.passed (fun _ _ _ => rfl) hpassed with
    ⟨-, hold⟩ | ⟨rfl, pc', hnext, hpc'⟩
  · exact .inl ⟨t, e', hold, rfl⟩
  · have hr' : advance t pc i s.world = some (r.1, .goto pc') := by rw [hr, ← hnext]
    rcases (advance_succ hr').passed hpc' with hbefore | rfl
    · refine .inl ⟨t, e', ?_, rfl⟩
      rw [hpc]
      exact hbefore
    · have hgoto : (receive i e' s.world).2 = .goto pc' :=
        congrArg Prod.snd (Option.some.inj hr')
      exact .inr ⟨receive_withinHorizon hgoto, e', rfl⟩

/-- Tombstones to clean up come from the collection pass. -/
theorem cleans_run (h : (s.resume tid pc i r).Cleans dead) :
    s.Cleans dead ∨ ∃ err pending, pc = .collecting err ∧
      sweepCollect cfg i s.world = (r.1, .ok pending) ∧ dead ∈ pending := by
  obtain ⟨t, pending, hpending, hdead⟩ := h
  rcases resume_bind Pc.pendingOf (fun _ _ _ => rfl) hpending with
    ⟨-, hold⟩ | ⟨rfl, pc', hnext, hpc'⟩
  · exact .inl ⟨t, pending, hold, hdead⟩
  · have hr' : advance t pc i s.world = some (r.1, .goto pc') := by rw [hr, ← hnext]
    rcases (advance_succ hr').pendingOf hpc' with ⟨dead₀, hbefore⟩ | ⟨err, rfl⟩
    · refine .inl ⟨t, dead₀ :: pending, ?_, List.mem_cons_of_mem _ hdead⟩
      rw [hpc]
      exact hbefore
    · right
      have hcollect := Option.some.inj hr'
      simp only [collect] at hcollect
      cases hsweep : sweepCollect cfg i s.world with
      | mk w' result =>
        rw [hsweep] at hcollect
        cases result with
        | error err => cases hcollect
        | ok found =>
          cases hcollect
          cases hpc'
          exact ⟨err, pending, rfl, rfl, hdead⟩

theorem checked_before (hentry : pc.entry = false) (h : (s.resume tid pc i r).Checked e) :
    s.Checked e := by
  rcases checked_run hpc hr h with hbefore | ⟨-, e', rfl⟩
  · exact hbefore
  · cases hentry

theorem cleans_before (hne : ∀ err, pc ≠ .collecting err) (h : (s.resume tid pc i r).Cleans dead) :
    s.Cleans dead := by
  rcases cleans_run hpc hr h with hbefore | ⟨err, pending, heq, -⟩
  · exact hbefore
  · exact absurd heq (hne err)

end Calls

-- ===== calm sections

section Calm

variable {e : Envelope} {life : Life} {w w' : World}

variable {o : GoString} {since : Int} {m m' : Mem}

/-- An offer that is kept, under an ID that gets no tombstone. -/
theorem Offered.kept (h : Offered e o m)
    (hoffer : ∀ r, m.offers.lookup o = some r →
      ∃ r', m'.offers.lookup o = some r' ∧ SameOffer r r')
    (htomb : m.tombstones.lookup o = none → m'.tombstones.lookup o = none) : Offered e o m' := by
  obtain ⟨r, hr, hclient, hrequest, hnone⟩ := h
  obtain ⟨r', hr', hsame⟩ := hoffer r hr
  refine ⟨r', hr', hsame.client.trans hclient, ?_, htomb hnone⟩
  rw [hsame.offer, hrequest]

theorem Guarded.same (htombs : m'.tombstones = m.tombstones) (h : Guarded e o since m) :
    Guarded e o since m' := by
  unfold Guarded
  rw [htombs]
  exact h

/-- With the tombstones as they were, the offers of the request kept and
that of the collected one still gone. -/
theorem Tracked.same (h : Tracked e m life) (htombs : m'.tombstones = m.tombstones)
    (hclock : m.highWater ≤ m'.highWater)
    (hkept : ∀ o r, m.offers.lookup o = some r →
      ∃ r', m'.offers.lookup o = some r' ∧ SameOffer r r')
    (habsent : ∀ o since, life = .collected o since → m.offers.lookup o = none →
      m'.offers.lookup o = none) : Tracked e m' life := by
  cases life with
  | live offers => exact fun o ho => (h o ho).kept (hkept o) fun hnone => by rw [htombs, hnone]
  | collected o since =>
    refine ⟨habsent o since rfl h.gone, ?_, ?_⟩
    · rw [htombs]
      exact h.pending
    · rcases h.guarded with hguarded | hover
      · exact .inl (hguarded.same htombs)
      · exact .inr (le_trans hover hclock)
  | revived => exact h

theorem Recorded.calm (h : Recorded cfg e life w.mem) (hl : Linked w'.mem)
    (hc : Calm cfg w w') : Recorded cfg e life w'.mem :=
  ⟨hl, h.buried.calm hc,
    h.tracked.same hc.tombstones hc.clock hc.offers.kept fun o _ _ => hc.offers.absent o⟩

theorem OnDisk.stored (h : OnDisk cfg e life w.disk) (hm : Recorded cfg e life w'.mem)
    (hs : Stored cfg w w') : OnDisk cfg e life w'.disk := by
  rcases hs with hsame | ⟨-, saved, hsaved⟩
  · rw [hsame]
    exact h
  · exact .inr ⟨saved, w'.mem, hm, hsaved⟩

/-- Within the horizon the tombstone of a collected offer stands. -/
theorem Gone.fresh (h : Gone e o since m) (hsent : asTime e.sentAt < since)
    (hfresh : withinHorizon m.highWater e = true) : Guarded e o since m := by
  rcases h.guarded with hguarded | hover
  · exact hguarded
  · simp only [withinHorizon, Bool.and_eq_true, Bool.not_eq_true', decide_eq_false_iff_not,
      not_lt] at hfresh
    have hsub := hfresh.1
    omega

end Calm

variable {e : Envelope} {life : Life} {s t : System cfg}

/-- A step that leaves the life and the calls that matter where they
are. -/
theorem LifeInv.next (h : LifeInv e (s, life)) (hmem : Recorded cfg e life t.world.mem)
    (hdisk : cfg.stored = true → OnDisk cfg e life t.world.disk)
    (hguarded : ∀ o since, life = .collected o since → Guarded e o since s.world.mem →
      Guarded e o since t.world.mem)
    (hchecked : t.Checked e → s.Checked e ∨ withinHorizon t.world.mem.highWater e = true)
    (hcleans : ∀ dead, t.Cleans dead → s.Cleans dead) : LifeInv e (t, life) := by
  refine ⟨hmem, hdisk, h.sent, h.valid, ?_, fun dead hdead => h.cleans dead (hcleans dead hdead)⟩
  intro o since hlife hpast
  cases hlife
  rcases hchecked hpast with hbefore | hfresh
  · exact hguarded o since rfl (h.checked o since rfl hbefore)
  · exact hmem.tracked.fresh (h.sent o since rfl) hfresh

theorem LifeInv.calm (h : LifeInv e (s, life)) (hl : Linked t.world.mem)
    (hc : Calm cfg s.world t.world)
    (hchecked : t.Checked e → s.Checked e ∨ withinHorizon t.world.mem.highWater e = true)
    (hcleans : ∀ dead, t.Cleans dead → s.Cleans dead) : LifeInv e (t, life) :=
  have hmem := h.mem.calm hl hc
  h.next hmem (fun hstored => (h.disk hstored).stored hmem hc.disk)
    (fun _ _ _ => Guarded.same hc.tombstones) hchecked hcleans

-- ===== minting

theorem expireOffers_used_le (now : Int) (m : Mem) (cls : GoString) :
    (expireOffers now m).used cls ≤ m.used cls := Nat.sub_le _ _

variable {o : GoString}

theorem mem_newOffers : o ∈ s.newOffers t ↔
    (∃ r, t.world.mem.offers.lookup o = some r) ∧ s.world.mem.offers.lookup o = none := by
  unfold System.newOffers
  rw [List.mem_filter, ← AList.mem_keys, ← AList.lookup_isSome, Option.isSome_iff_exists,
    Option.isNone_iff_eq_none]

theorem newOffers_sameOffers (h : SameOffers s.world.mem t.world.mem) : s.newOffers t = [] := by
  rw [List.eq_nil_iff_forall_not_mem]
  intro o ho
  obtain ⟨⟨r, hr⟩, hnone⟩ := mem_newOffers.mp ho
  rw [h.absent o hnone] at hr
  cases hr

variable {i : Input} {q : ExecutionRequest} {w : World}

/-- A retired request leaves no trace but the offers it finds lapsed. -/
theorem handleRequest_retired
    (h : (w.mem.tombstones.any fun _ t => t.retires e.sender q.requestID) = true) :
    (handleRequest cfg i e q w).1 = w.setMem (expireOffers i.now w.mem) := by
  have herr : requestErr cfg e q (expireOffers i.now w.mem) = some Sentinel.resultExpired.err := by
    unfold requestErr
    rw [if_pos]
    exact h
  unfold handleRequest newOffer
  dsimp only
  split
  · rfl
  split
  · rfl
  next hnone =>
    rw [show requestErr cfg e q (w.setMem (expireOffers i.now w.mem)).mem = _ from herr]
      at hnone
    cases hnone

/-- The tombstone of the collected offer retires the request. -/
theorem Guarded.retires {since : Int} {m : Mem} (h : Guarded e o since m)
    (hq : e.payload = some (.executionRequest q)) :
    (m.tombstones.any fun _ t => t.retires e.sender q.requestID) = true := by
  obtain ⟨dead, hdead, hmarks⟩ := h
  refine AList.any_eq_true.mpr ⟨o, dead, hdead, ?_⟩
  have hrequest := hmarks.request
  simp only [requestIDOf, hq] at hrequest
  simp only [Tombstone.retires, Bool.and_eq_true, decide_eq_true_eq]
  exact ⟨hmarks.client, (Option.some.inj hrequest).symm⟩

theorem cleans_named {dead : Tombstone} (h : s.Cleans dead) : s.named dead.offerID = true := by
  obtain ⟨tid, pending, hpending, hdead⟩ := h
  obtain ⟨pc, hpc, hpc'⟩ := Option.bind_eq_some_iff.mp hpending
  unfold System.named
  rw [Bool.or_eq_true]
  right
  refine AList.any_eq_true.mpr ⟨tid, pc, hpc, ?_⟩
  rw [hpc']
  exact List.any_eq_true.mpr ⟨dead, hdead, decide_eq_true rfl⟩

/-- The record a request's offer is kept in. -/
theorem offered_mint {w' : World} (hq : e.payload = some (.executionRequest q))
    (h : Minted cfg i e q w w') (hnew : w.mem.tombstones.lookup i.id = none) :
    Offered e i.id w'.mem := by
  refine ⟨mintRecord cfg i e q, ?_, rfl, ?_, ?_⟩
  · rw [h.offers]
    exact AList.lookup_insert _
  · simp only [requestIDOf, hq]
    rfl
  · rw [h.tombstones]
    exact hnew

/-- An offer minted under another ID changes nothing at this one. -/
theorem Tracked.minted {e' : Envelope} {w' : World} (h : Tracked e w.mem life)
    (hm : Minted cfg i e' q w w') (hid : ∀ o since, life = .collected o since → i.id ≠ o) :
    Tracked e w'.mem life := by
  have hexp := (untouched_expireOffers i.now w.mem).offers
  have hother : ∀ o, i.id ≠ o →
      w'.mem.offers.lookup o = (expireOffers i.now w.mem).offers.lookup o := by
    intro o hne
    rw [hm.offers, AList.lookup_insert_ne hne.symm]
  refine h.same hm.tombstones (le_of_eq hm.highWater.symm) ?_ ?_
  · intro o r hr
    rw [hother o]
    · exact hexp.kept o r hr
    · intro heq
      rw [← heq, hm.fresh] at hr
      cases hr
  · intro o since hlife hnone
    rw [hother o (hid o since hlife)]
    exact hexp.absent o hnone

section Handling

variable {tid : Nat} {e' : Inbound cfg} {i : Input} {r : World × Next cfg}
  (hpc : s.threads.lookup tid = some (.handling e'))
  (hr : advance tid (.handling e') i s.world = some r)

include hpc hr

/-- A minted offer that the observer does not count. -/
theorem LifeInv.minted {q : ExecutionRequest} (h : LifeInv e (s, life)) (hl : Linked r.1.mem)
    (hm : Minted cfg i e'.1 q s.world r.1) (hid : ∀ o since, life = .collected o since → i.id ≠ o) :
    LifeInv e (s.resume tid (.handling e') i r, life) := by
  have hmem : Recorded cfg e life r.1.mem :=
    ⟨hl, h.mem.buried.minted hm, h.mem.tracked.minted hm hid⟩
  refine h.next hmem ?_ (fun _ _ _ => Guarded.same hm.tombstones)
    (fun hpast => .inl (checked_before hpc hr rfl hpast)) fun _ => cleans_before hpc hr nofun
  intro hstored
  obtain ⟨-, saved, hdisk⟩ := hm.disk hstored
  exact .inr ⟨saved, r.1.mem, hmem, hdisk⟩

end Handling

/-- Offers the observer counts from now on. -/
theorem LifeInv.gain {offers new : List GoString} (h : LifeInv e (t, .live offers))
    (hnew : ∀ o ∈ new, Offered e o t.world.mem)
    (hdisk : cfg.stored = true → ∃ saved, t.world.disk = some (snapshot cfg saved t.world.mem))
    (hcleans : ∀ dead, t.Cleans dead → dead.offerID ∉ new) :
    LifeInv e (t, .live (new ++ offers)) := by
  have hmem : Recorded cfg e (.live (new ++ offers)) t.world.mem := by
    refine ⟨h.mem.linked, h.mem.buried, ?_⟩
    intro o ho
    rcases List.mem_append.mp ho with hmem | hmem
    · exact hnew o hmem
    · exact h.mem.tracked o hmem
  refine ⟨hmem, ?_, nofun, nofun, nofun, ?_⟩
  · intro hstored
    obtain ⟨saved, hsaved⟩ := hdisk hstored
    exact .inr ⟨saved, t.world.mem, hmem, hsaved⟩
  · intro dead hdead
    refine ⟨(h.cleans dead hdead).valid, ?_, nofun⟩
    intro offers' heq
    cases heq
    rw [List.mem_append]
    intro hin
    rcases hin with hmem | hmem
    · exact hcleans dead hdead hmem
    · exact (h.cleans dead hdead).live offers rfl hmem

theorem requestIDOf_some {id : GoString} (h : requestIDOf e = some id) :
    ∃ q, e.payload = some (.executionRequest q) := by
  unfold requestIDOf at h
  split at h
  next q hq => exact ⟨q, hq⟩
  · cases h

variable {r : World × Next cfg} {tid : Nat}

/-- With its tombstone there a redelivered request takes no slot. -/
theorem reserves_retired {e : Inbound cfg} {since : Int} (h : Guarded e.1 o since s.world.mem)
    (hr : advance tid (.handling e) i s.world = some r) :
    s.reserves (s.resume tid (.handling e) i r) = false := by
  obtain ⟨dead, hdead, hmarks⟩ := id h
  obtain ⟨q, hq⟩ := requestIDOf_some hmarks.request
  have hworld : r.1 = s.world.setMem (expireOffers i.now s.world.mem) := by
    rw [← handleRequest_retired (h.retires hq)]
    simp only [advance, handle, hq] at hr
    rw [← Option.some.inj hr]
  unfold System.reserves
  rw [List.any_eq_false]
  intro cls _
  simp only [decide_eq_true_eq, not_lt]
  show r.1.mem.used cls ≤ _
  rw [hworld]
  exact expireOffers_used_le i.now s.world.mem cls

/-- The handler section of any command. -/
theorem LifeInv.handling {e' : Inbound cfg} (h : LifeInv e (s, life))
    (hpc : s.threads.lookup tid = some (.handling e'))
    (hr : advance tid (.handling e') i s.world = some r) (hl : Linked r.1.mem)
    (hok : keepsRetired e (s, life) (.run tid i) = true) :
    LifeInv e (s.resume tid (.handling e') i r,
      if e'.1 = e then life.handled s (s.resume tid (.handling e') i r) else life) := by
  rcases advance_calm rfl hr with hcalm | ⟨e₀, q, heq, hq, hm⟩
  · -- No offer appears.
    have hsame : LifeInv e (s.resume tid (.handling e') i r, life) :=
      h.calm hl hcalm (fun hpast => .inl (checked_before hpc hr rfl hpast))
        fun dead hdead => cleans_before hpc hr nofun hdead
    have hnew : s.newOffers (s.resume tid (.handling e') i r) = [] :=
      newOffers_sameOffers hcalm.offers
    split
    next heq =>
      subst heq
      cases life with
      | live offers =>
        simp only [Life.handled, hnew]
        exact hsame
      | collected o since =>
        have hguarded := h.checked o since rfl ⟨tid, e', by rw [hpc]; rfl, rfl⟩
        simp only [Life.handled, hnew, reserves_retired hguarded hr, and_self, if_true]
        exact hsame
      | revived => exact hsame
    · exact hsame
  · cases heq
    have hunused : unusedID e (s, life) e'.1 i.id = true := by
      simp only [keepsRetired, hpc, hq, hm.unanswered, Option.isSome_none, Bool.false_or] at hok
      exact hok
    simp only [unusedID, Bool.and_eq_true, Bool.or_eq_true, decide_eq_true_eq] at hunused
    have hother : LifeInv e (s.resume tid (.handling e') i r, life) := by
      refine h.minted hpc hr hl hm ?_
      intro o since hlife
      have hid := hunused.2
      rw [hlife] at hid
      simpa using hid
    split
    next heq =>
      subst heq
      cases life with
      | live offers =>
        have hunnamed : s.named i.id = false := by simpa using hunused.1
        have hfree : s.world.mem.tombstones.lookup i.id = none := by
          simp only [System.named, Bool.or_eq_false_iff] at hunnamed
          simpa using hunnamed.1
        have hnew : ∀ o ∈ s.newOffers (s.resume tid (.handling e') i r), o = i.id := by
          intro o ho
          obtain ⟨⟨x, hx⟩, hnone⟩ := mem_newOffers.mp ho
          by_contra hne
          change r.1.mem.offers.lookup o = some x at hx
          rw [hm.offers, AList.lookup_insert_ne hne, lookup_expireOffers_none.mpr hnone] at hx
          cases hx
        refine hother.gain ?_ ?_ ?_
        · intro o ho
          rw [hnew o ho]
          exact offered_mint hq hm hfree
        · intro hstored
          exact (hm.disk hstored).2
        · intro dead hdead hin
          have hnamed := cleans_named (cleans_before hpc hr nofun hdead)
          rw [hnew _ hin, hunnamed] at hnamed
          cases hnamed
      | collected o since =>
        -- The tombstone would have refused the request.
        have hguarded := h.checked o since rfl ⟨tid, e', by rw [hpc]; rfl, rfl⟩
        have hretired := hguarded.retires hq
        rw [hm.unretired] at hretired
        cases hretired
      | revived => exact hother
    · exact hother

-- ===== sweeps

section Sweeping

variable {tid : Nat} {err : Option GoErr} {i : Input} {w' : World} {pending : List Tombstone}

variable {m : Mem}

/-- What is left to clean up is under its own ID. -/
theorem pending_tombstone {dead : Tombstone}
    (hkeyed : ∀ k t, m.tombstones.lookup k = some t → t.cleanupPending = true → t.offerID = k)
    (h : dead ∈ (m.tombstones.entries.map Sigma.snd).filter Tombstone.cleanupPending) :
    m.tombstones.lookup dead.offerID = some dead ∧ dead.cleanupPending = true := by
  obtain ⟨hmem, hdue⟩ := List.mem_filter.mp h
  obtain ⟨⟨k, t⟩, hentry, rfl⟩ := List.mem_map.mp hmem
  have ht := AList.mem_entries.mp hentry
  have hkey : t.offerID = k := hkeyed k t ht hdue
  refine ⟨?_, hdue⟩
  rw [hkey]
  exact ht

variable {now : Int} {o : GoString}

/-- The tombstone of a buried offer of the request. -/
theorem marks_bury {r : OfferRecord} (hclient : r.client = e.sender)
    (hrequest : requestIDOf e = some r.offer.requestID) : Marks e now (buryOffer now o r) :=
  ⟨hclient, hrequest, le_refl _⟩

/-- A sweep that leaves every offer of the request where it is. -/
theorem Tracked.swept_live {offers : List GoString} (h : Tracked e m (.live offers))
    (hkept : ∀ o ∈ offers, (swept cfg now m).offers.lookup o ≠ none) :
    Tracked e (swept cfg now m) (.live offers) := by
  intro o ho
  rcases swept_at cfg now m o with ⟨hoffer, hfilter⟩ | ⟨r', -, -, hgone, -⟩
  · refine (h o ho).kept ?_ fun htomb => by rw [hfilter, htomb]; rfl
    rw [hoffer]
    exact (sameOffers_sweepReady cfg now m).kept o
  · exact absurd hgone (hkept o ho)

/-- A sweep that buries an offer of the request. -/
theorem gone_swept {offers : List GoString} (h : Tracked e m (.live offers)) (ho : o ∈ offers)
    (hgone : (swept cfg now m).offers.lookup o = none) :
    Gone e o (max m.highWater now) (swept cfg now m) ∧
      ∃ r, (sweepReady cfg now m).offers.lookup o = some r ∧
        r.due (sweepReady cfg now m) = true := by
  obtain ⟨r, hr, hclient, hrequest, -⟩ := h o ho
  obtain ⟨r', hr', hsame⟩ := (sameOffers_sweepReady cfg now m).kept o r hr
  rcases swept_at cfg now m o with ⟨hoffer, -⟩ | ⟨r'', hr'', hdue, -, htomb⟩
  · rw [hoffer, hr'] at hgone
    cases hgone
  · rw [hr'] at hr''
    cases hr''
    have hmarks : Marks e (max m.highWater now) (buryOffer (max m.highWater now) o r') := by
      refine marks_bury ?_ ?_
      · rw [hsame.client, hclient]
      · rw [hsame.offer, hrequest]
    refine ⟨⟨hgone, ?_, .inl ⟨_, htomb, hmarks⟩⟩, r', hr', hdue⟩
    intro t ht _
    rw [htomb] at ht
    cases ht
    exact hmarks

/-- After the collection a sweep drops the tombstone only past its
time. -/
theorem Gone.swept {since : Int} (h : Gone e o since m) :
    Gone e o since (swept cfg now m) ∧
      (swept cfg now m).tombstones.lookup o
        = (m.tombstones.lookup o).filter (Tombstone.outlives (max m.highWater now)) := by
  have hnone := (sameOffers_sweepReady cfg now m).absent o h.gone
  rcases swept_at cfg now m o with ⟨hoffer, hfilter⟩ | ⟨r, hr, -⟩
  · refine ⟨⟨?_, ?_, ?_⟩, hfilter⟩
    · rw [hoffer, hnone]
    · intro t ht
      rw [hfilter] at ht
      exact h.pending t (Option.filter_eq_some_iff.mp ht).1
    · rw [swept_highWater]
      rcases h.guarded with ⟨t, ht, hmarks⟩ | hover
      · by_cases hlives : t.outlives (max m.highWater now) = true
        · left
          refine ⟨t, ?_, hmarks⟩
          rw [hfilter, ht, Option.filter_some_pos hlives]
        · right
          simp only [Tombstone.outlives, Bool.or_eq_true, decide_eq_true_eq, not_or,
            not_lt] at hlives
          exact le_trans hmarks.lasts hlives.2
      · exact .inr (le_trans hover (le_max_left _ _))
  · rw [hnone] at hr
    cases hr

end Sweeping

/-- A collection pass that went through. -/
structure Collects (cfg : Config) (e : Envelope) (now : Int) (s t : System cfg) : Prop where
  mem : t.world.mem = swept cfg now s.world.mem
  disk : cfg.stored = true → ∃ saved, t.world.disk = some (snapshot cfg saved t.world.mem)
  checked : t.Checked e → s.Checked e
  cleans : ∀ dead, t.Cleans dead → s.Cleans dead ∨
    t.world.mem.tombstones.lookup dead.offerID = some dead ∧ dead.cleanupPending = true

section Collecting

variable {now : Int}

theorem Collects.buried (hc : Collects cfg e now s t) (h : LifeInv e (s, life)) :
    Buried cfg t.world.mem := by
  rw [hc.mem]
  exact h.mem.buried.swept h.mem.linked now

/-- The parts of the invariant a pass leaves to be shown of the new
life. -/
theorem LifeInv.collects {life' : Life} (h : LifeInv e (s, life)) (hl : Linked t.world.mem)
    (hc : Collects cfg e now s t) (htracked : Tracked e t.world.mem life')
    (hsent : ∀ o since, life' = .collected o since → asTime e.sentAt < since)
    (hvalid : ∀ o since, life' = .collected o since → cfg.stored = true →
      ∀ id, requestIDOf e = some id → Utf8.valid id = true)
    (hchecked : ∀ o since, life' = .collected o since → s.Checked e →
      Guarded e o since t.world.mem)
    (hbefore : ∀ dead, s.Cleans dead → PendingOk cfg e life' dead) : LifeInv e (t, life') := by
  have hmem : Recorded cfg e life' t.world.mem := ⟨hl, hc.buried h, htracked⟩
  refine ⟨hmem, ?_, hsent, hvalid, ?_, ?_⟩
  · intro hstored
    obtain ⟨saved, hsaved⟩ := hc.disk hstored
    exact .inr ⟨saved, t.world.mem, hmem, hsaved⟩
  · intro o since hlife hpast
    exact hchecked o since hlife (hc.checked hpast)
  · intro dead hdead
    rcases hc.cleans dead hdead with hold | ⟨htomb, hdue⟩
    · exact hbefore dead hold
    · refine ⟨?_, ?_, ?_⟩
      · intro hstored
        exact hmem.buried.tombstones hstored _ dead htomb
      · intro offers hlife hin
        subst hlife
        obtain ⟨r, -, -, -, hnone⟩ := htracked dead.offerID hin
        rw [hnone] at htomb
        cases htomb
      · intro o since hlife hid
        subst hlife
        rw [hid] at htomb
        exact Gone.pending htracked dead htomb hdue

/-- No offer of the request is collected. -/
theorem LifeInv.collects_live {offers : List GoString} (h : LifeInv e (s, .live offers))
    (hl : Linked t.world.mem) (hc : Collects cfg e now s t)
    (hkept : ∀ o ∈ offers, t.world.mem.offers.lookup o ≠ none) : LifeInv e (t, .live offers) := by
  refine h.collects hl hc ?_ nofun nofun nofun h.cleans
  rw [hc.mem] at hkept ⊢
  exact Tracked.swept_live h.mem.tracked hkept

/-- The first offer of the request is collected, and its clock is past
sent_at. -/
theorem LifeInv.collects_offer {offers : List GoString} {o : GoString}
    (h : LifeInv e (s, .live offers)) (hl : Linked t.world.mem) (hc : Collects cfg e now s t)
    (ho : o ∈ offers) (hgone : t.world.mem.offers.lookup o = none)
    (hok : sweptInTime e now (s, .live offers) = true) :
    LifeInv e (t, .collected o t.world.mem.highWater) := by
  have hclock : t.world.mem.highWater = max s.world.mem.highWater now := by
    rw [hc.mem, swept_highWater]
  rw [hc.mem] at hgone
  obtain ⟨hburied, r, hr, hdue⟩ := gone_swept h.mem.tracked ho hgone
  rw [← hc.mem, ← hclock] at hburied
  have hsent : asTime e.sentAt < t.world.mem.highWater := by
    simp only [sweptInTime, List.all_eq_true] at hok
    have htime := hok o ho
    rw [hr, Option.all_some, hdue] at htime
    rw [hclock]
    simpa [sweepReady_highWater] using htime
  obtain ⟨r₀, hr₀, -, hrequest, -⟩ := h.mem.tracked o ho
  refine h.collects hl hc hburied ?_ ?_ ?_ ?_
  · intro o' since hlife
    cases hlife
    exact hsent
  · intro _ _ _ hstored id hid
    have hvalid := (OfferRecord.valid_ids (h.mem.buried.offers hstored o r₀ hr₀)).2
    rw [hid] at hrequest
    cases hrequest
    exact hvalid
  · intro o' since hlife _
    cases hlife
    rcases hburied.guarded with hguarded | hover
    · exact hguarded
    · have hhorizon : (0 : Int) < commandHorizon := by decide
      omega
  · intro dead hdead
    have hbefore := h.cleans dead hdead
    refine ⟨hbefore.valid, nofun, ?_⟩
    intro o' since hlife hid
    cases hlife
    rw [← hid] at ho
    exact absurd ho (hbefore.live offers rfl)

/-- The sweeps after that. -/
theorem LifeInv.collects_collected {o : GoString} {since : Int}
    (h : LifeInv e (s, .collected o since)) (hl : Linked t.world.mem) (hc : Collects cfg e now s t)
    (hok : sweptInTime e now (s, .collected o since) = true) :
    LifeInv e (t, .collected o since) := by
  have hgone : Gone e o since (swept cfg now s.world.mem) ∧ _ := Gone.swept h.mem.tracked
  obtain ⟨hgone, htomb⟩ := hgone
  rw [← hc.mem] at hgone htomb
  refine h.collects hl hc hgone h.sent h.valid ?_ h.cleans
  intro o' since' hlife hpast
  cases hlife
  obtain ⟨dead, hdead, hmarks⟩ := h.checked o since rfl hpast
  refine ⟨dead, ?_, hmarks⟩
  rw [htomb, hdead, Option.filter_some_pos]
  -- With a delivery past its check the tombstone outlives the sweep.
  simp only [sweptInTime, Bool.or_eq_true, Bool.not_eq_true'] at hok
  rcases hok with hidle | hlives
  · obtain ⟨tid, e', hpassed, he'⟩ := hpast
    obtain ⟨pc, hpc, hpc'⟩ := Option.bind_eq_some_iff.mp hpassed
    have hbusy : (s.threads.any fun _ pc => pc.passed.any fun e' => e'.1 = e) = true := by
      refine AList.any_eq_true.mpr ⟨tid, pc, hpc, ?_⟩
      rw [hpc']
      exact decide_eq_true he'
    rw [hbusy] at hidle
    cases hidle
  · rw [hdead] at hlives
    exact hlives

end Collecting

theorem Life.swept_same (h : SameOffers s.world.mem t.world.mem) (life : Life) :
    life.swept s t = life := by
  cases life with
  | live offers =>
    have hnone : (offers.find? fun o => (s.world.mem.offers.lookup o).isSome
        && (t.world.mem.offers.lookup o).isNone) = none := by
      rw [List.find?_eq_none]
      intro o _ hlost
      simp only [Bool.and_eq_true, Option.isNone_iff_eq_none] at hlost
      obtain ⟨r, hr⟩ := Option.isSome_iff_exists.mp hlost.1
      obtain ⟨r', hr', -⟩ := h.kept o r hr
      rw [hr'] at hlost
      cases hlost.2
    simp only [Life.swept, hnone]
  | collected | revived => rfl

/-- The collection pass of a sweep. -/
theorem LifeInv.collecting {err : Option GoErr} (h : LifeInv e (s, life))
    (hpc : s.threads.lookup tid = some (.collecting err))
    (hr : advance tid (.collecting err) i s.world = some r) (hl : Linked r.1.mem)
    (hok : sweptInTime e i.now (s, life) = true) :
    LifeInv e (s.resume tid (.collecting err) i r,
      life.swept s (s.resume tid (.collecting err) i r)) := by
  have hworld : r.1 = (sweepCollect cfg i s.world).1 := by
    rw [← Option.some.inj hr]
    rfl
  have hchecked : (s.resume tid (.collecting err) i r).Checked e → s.Checked e :=
    checked_before hpc hr rfl
  cases hsweep : sweepCollect cfg i s.world with
  | mk w' result =>
    rw [hsweep] at hworld
    cases result with
    | error failed =>
      have hsame : r.1 = s.world := hworld.trans (sweepCollect_error hsweep)
      have hcalm : Calm cfg s.world (s.resume tid (.collecting err) i r).world := by
        show Calm cfg s.world r.1
        rw [hsame]
        exact (Frame.refl _).calm
      rw [Life.swept_same hcalm.offers]
      refine h.calm hl hcalm (fun hpast => .inl (hchecked hpast)) ?_
      intro dead hdead
      rcases cleans_run hpc hr hdead with hbefore | ⟨_, _, _, hswept, _⟩
      · exact hbefore
      · rw [hsweep] at hswept
        cases hswept
    | ok pending =>
      obtain ⟨hp, hpending⟩ := sweepCollect_ok hsweep
      have hmem : r.1.mem = Allocator.swept cfg i.now s.world.mem := by
        rw [hworld, persist_mem hp]
        rfl
      have hc : Collects cfg e i.now s (s.resume tid (.collecting err) i r) := by
        refine ⟨hmem, ?_, hchecked, ?_⟩
        · intro hstored
          refine ⟨i.saved, ?_⟩
          show r.1.disk = some (snapshot cfg i.saved r.1.mem)
          rw [hmem, hworld, (persist_stored hp hstored).2]
          rfl
        · intro dead hdead
          rcases cleans_run hpc hr hdead with hbefore | ⟨_, _, _, hswept, hin⟩
          · exact .inl hbefore
          · rw [hsweep] at hswept
            cases hswept
            rw [hpending] at hin
            right
            show r.1.mem.tombstones.lookup dead.offerID = some dead ∧ _
            rw [hmem]
            exact pending_tombstone (h.mem.buried.swept h.mem.linked i.now).keyed hin
      cases life with
      | live offers =>
        simp only [Life.swept]
        split
        next o hfound =>
          have hgone := List.find?_some hfound
          simp only [Bool.and_eq_true, Option.isNone_iff_eq_none] at hgone
          exact h.collects_offer hl hc (List.mem_of_find?_eq_some hfound) hgone.2 hok
        rename_i hnone
        refine h.collects_live hl hc ?_
        intro o ho hlost
        rw [List.find?_eq_none] at hnone
        apply hnone o ho
        obtain ⟨x, hx, -⟩ := h.mem.tracked o ho
        rw [hx, hlost]
        rfl
      | collected o since => exact h.collects_collected hl hc hok
      | revived => exact (h.mem.tracked).elim

-- ===== cleanup

section Cleanup

variable {dead t : Tombstone} {m : Mem}
  (ht : t = dead ∨
    t = { (m.tombstones.lookup dead.offerID).getD .zero with cleanupPending := false })

include ht

/-- The rewritten tombstone retires what the old one did. -/
theorem Guarded.cleaned {o : GoString} {since : Int} (h : Guarded e o since m)
    (hmarks : dead.offerID = o → Marks e since dead) :
    Guarded e o since { m with tombstones := m.tombstones.insert dead.offerID t } := by
  obtain ⟨t₀, ht₀, hmarks₀⟩ := h
  by_cases ho : dead.offerID = o
  · refine ⟨t, by rw [← ho]; exact AList.lookup_insert _, ?_⟩
    rcases ht with rfl | rfl
    · exact hmarks ho
    · rw [ho, ht₀]
      exact ⟨hmarks₀.client, hmarks₀.request, hmarks₀.lasts⟩
  · exact ⟨t₀, by rw [AList.lookup_insert_ne (Ne.symm ho)]; exact ht₀, hmarks₀⟩

/-- Putting a tombstone back, or taking its mark off, keeps what is
tracked. -/
theorem Tracked.cleaned (h : Tracked e m life) (hdead : PendingOk cfg e life dead) :
    Tracked e { m with tombstones := m.tombstones.insert dead.offerID t } life := by
  cases life with
  | live offers =>
    intro o ho
    refine (h o ho).kept (fun r hr => ⟨r, hr, .refl r⟩) fun htomb => ?_
    have hne : o ≠ dead.offerID := by
      intro heq
      rw [heq] at ho
      exact hdead.live offers rfl ho
    rw [AList.lookup_insert_ne hne]
    exact htomb
  | collected o since =>
    have hmarks := hdead.marks o since rfl
    refine ⟨h.gone, ?_, ?_⟩
    · intro t' ht' hdue
      rcases AList.of_lookup_insert ht' with ⟨ho, rfl⟩ | ⟨-, ht'⟩
      · rcases ht with rfl | rfl
        · exact hmarks ho.symm
        · cases hdue
      · exact h.pending t' ht' hdue
    · rcases h.guarded with hguarded | hover
      · exact .inl (hguarded.cleaned ht hmarks)
      · exact .inr hover
  | revived => exact h

end Cleanup

/-- One tombstone of the cleanup. -/
theorem LifeInv.cleaning {dead : Tombstone} {pending : List Tombstone}
    {err evictErr : Option GoErr} (h : LifeInv e (s, life))
    (hpc : s.threads.lookup tid = some (.cleaning (dead :: pending) err evictErr))
    (hr : advance tid (.cleaning (dead :: pending) err evictErr) i s.world = some r)
    (hl : Linked r.1.mem) :
    LifeInv e (s.resume tid (.cleaning (dead :: pending) err evictErr) i r, life) := by
  have hworld : r.1 = (clean i dead pending err evictErr s.world : World × Next cfg).1 := by
    rw [← Option.some.inj hr]
  have hchecked : (s.resume tid (.cleaning (dead :: pending) err evictErr) i r).Checked e →
      s.Checked e := checked_before hpc hr rfl
  have hcleans : ∀ dead', (s.resume tid (.cleaning (dead :: pending) err evictErr) i r).Cleans
      dead' → s.Cleans dead' := fun dead' => cleans_before hpc hr nofun
  have hdead : PendingOk cfg e life dead :=
    h.cleans dead ⟨tid, dead :: pending, by rw [hpc]; rfl, List.mem_cons_self⟩
  rcases clean_tombstones i dead pending err evictErr s.world with hsame | ⟨t, ht, hmem, hdisk⟩
  · refine h.calm hl ?_ (fun hpast => .inl (hchecked hpast)) hcleans
    show Calm cfg s.world r.1
    rw [hworld, hsame]
    exact (Frame.refl _).calm
  · rw [← hworld] at hmem hdisk
    have hclean : t = dead ∨ t.cleanupPending = false := by
      rcases ht with rfl | rfl
      · exact .inl rfl
      · exact .inr rfl
    have hrecorded : Recorded cfg e life r.1.mem := by
      refine ⟨hl, ?_, ?_⟩
      · rw [hmem]
        exact h.mem.buried.cleaned hdead.valid hclean
      · rw [hmem]
        exact Tracked.cleaned ht h.mem.tracked hdead
    refine h.next hrecorded (fun hstored => (h.disk hstored).stored hrecorded hdisk) ?_
      (fun hpast => .inl (hchecked hpast)) hcleans
    intro o since hlife hguarded
    show Guarded e o since r.1.mem
    rw [hmem]
    exact hguarded.cleaned ht (hdead.marks o since hlife)

-- ===== restarts

/-- A reload keeps what is tracked. -/
theorem Recorded.load {saved : SaveIn} {src m : Mem} {granted now : Int}
    (h : Recorded cfg e life src) (hstored : cfg.stored = true)
    (hvalid : ∀ o since, life = .collected o since →
      ∀ id, requestIDOf e = some id → Utf8.valid id = true)
    (hload : Allocator.load cfg granted now (snapshot cfg saved src) = .ok m) (hl : Linked m) :
    Recorded cfg e life m := by
  have htombs := lookup_load_tombstones hload (h.buried.tombstones hstored)
  refine ⟨hl, h.buried.load hload h.linked hstored, ?_⟩
  have htracked := h.tracked
  cases life with
  | live offers =>
    intro o ho
    refine (htracked o ho).kept (fun r hr => load_offer hload h.linked hr) fun htomb => ?_
    rw [htombs, htomb]
    rfl
  | collected o since =>
    -- The request's ID is valid, so the tombstone comes back with it.
    have hmarks : ∀ t, Marks e since t → Marks e since t.save := by
      intro t ht
      refine ⟨ht.client, ?_, ht.lasts⟩
      have hself : Utf8.replaceInvalid t.requestID = t.requestID :=
        (Utf8.replaceInvalid_eq_self _).mpr (hvalid o since rfl _ ht.request)
      show requestIDOf e = some (Utf8.replaceInvalid t.requestID)
      rw [hself]
      exact ht.request
    refine ⟨?_, ?_, ?_⟩
    · cases hr : m.offers.lookup o with
      | none => rfl
      | some r =>
        obtain ⟨r₀, hr₀, -⟩ := load_offer_before hload h.linked hr
        rw [htracked.gone] at hr₀
        cases hr₀
    · intro t ht hdue
      rw [htombs] at ht
      obtain ⟨t₀, ht₀, rfl⟩ := Option.map_eq_some_iff.mp ht
      exact hmarks t₀ (htracked.pending t₀ ht₀ hdue)
    · rw [load_highWater hload]
      rcases htracked.guarded with ⟨t, ht, hmark⟩ | hover
      · left
        refine ⟨t.save, ?_, hmarks t hmark⟩
        rw [htombs, ht]
        rfl
      · exact .inr hover
  | revived => exact htracked

theorem LifeInv.restart {granted now : Int} (h : LifeInv e (s, life)) (hl : Linked t.world.mem)
    (hstep : s.step (.restart granted now) = some t) : LifeInv e (t, life) := by
  obtain ⟨hstored, hload, hdisk, hthreads⟩ := restart_step hstep
  have hmem : Recorded cfg e life t.world.mem := by
    rcases h.disk hstored with ⟨hlife, hnone⟩ | ⟨saved, src, hsrc, hsaved⟩
    · obtain ⟨-, hempty⟩ | ⟨snap, hsnap, -⟩ := hload
      swap
      · cases hnone.symm.trans hsnap
      obtain rfl : life = .live [] := hlife
      refine ⟨hl, ?_, fun o ho => (nomatch ho)⟩
      rw [hempty]
      exact .empty
    · obtain ⟨hnone, -⟩ | ⟨snap, hsnap, hload⟩ := hload
      · cases hnone.symm.trans hsaved
      cases hsaved.symm.trans hsnap
      exact hsrc.load hstored (fun o since hlife => h.valid o since hlife hstored) hload hl
  refine ⟨hmem, ?_, h.sent, h.valid, ?_, ?_⟩
  · rw [hdisk]
    exact h.disk
  · simp [System.Checked, hthreads]
  · simp [System.Cleans, hthreads]

-- ===== the runs

/-- The sections that are neither a handler nor a part of a sweep. -/
theorem LifeInv.other {pc : Pc cfg} (h : LifeInv e (s, life))
    (hpc : s.threads.lookup tid = some pc) (hr : advance tid pc i s.world = some r)
    (hl : Linked r.1.mem) (hburies : pc.buries = false) (hhandler : pc.atHandler = none) :
    LifeInv e (s.resume tid pc i r, life) := by
  rcases advance_calm hburies hr with hcalm | ⟨e₀, q, heq, -⟩
  · refine h.calm hl hcalm ?_ ?_
    · intro hpast
      rcases checked_run hpc hr hpast with hbefore | ⟨hfresh, e', rfl⟩
      · exact .inl hbefore
      · right
        have hclock : r.1.mem.highWater = max s.world.mem.highWater i.now := by
          have hworld := receive_world i e' s.world
          rw [show receive i e' s.world = r from Option.some.inj hr, effectiveNow_eq] at hworld
          rw [hworld]
          rfl
        show withinHorizon r.1.mem.highWater e = true
        rw [hclock]
        exact hfresh
    · intro dead hdead
      rcases cleans_run hpc hr hdead with hbefore | ⟨err, pending, rfl, -⟩
      · exact hbefore
      · cases hburies
  · rw [heq] at hhandler
    cases hhandler

/-- A section of a call. -/
theorem LifeInv.run {pc : Pc cfg} (h : LifeInv e (s, life)) (hpc : s.threads.lookup tid = some pc)
    (hr : advance tid pc i s.world = some r) (hl : Linked r.1.mem)
    (hok : keepsRetired e (s, life) (.run tid i) = true) :
    LifeInv e (s.resume tid pc i r, life.note e s (.run tid i) (s.resume tid pc i r)) := by
  unfold Life.note
  dsimp only
  rw [hpc]
  cases pc with
  | handling e' => exact h.handling hpc hr hl hok
  | collecting err =>
    simp only [keepsRetired, hpc] at hok
    exact h.collecting hpc hr hl hok
  | cleaning pending err evictErr =>
    cases pending with
    | nil => exact h.other hpc hr hl rfl rfl
    | cons dead pending => exact h.cleaning hpc hr hl
  | _ => exact h.other hpc hr hl rfl rfl

theorem LifeInv.step {l : Label cfg} (h : LifeInv e (s, life)) (hl : Linked t.world.mem)
    (hok : keepsRetired e (s, life) l = true) (hstep : s.step l = some t) :
    LifeInv e (t, life.note e s l t) := by
  cases step_kind hstep with
  | run hpc hr => exact h.run hpc hr hl hok
  | other hrun _ hframe hentered =>
    have hquiet : life.note e s l t = life := by
      cases l with
      | run tid i => exact absurd rfl (hrun tid i)
      | _ => rfl
    rw [hquiet]
    exact h.calm hl hframe.calm (fun hpast => .inl (hentered.checked hpast))
      fun dead hdead => hentered.cleans hdead
  | restart => exact h.restart hl hstep

/-- A request whose offer was collected creates no offer and takes no slot
again, in every run in which the sweep that buries the offer comes after
sent_at, no sweep drops the tombstone under a delivery past its freshness
check, and offer IDs do not repeat. -/
theorem collected_request_stays_retired (cfg : Config) (e : Envelope) {s : System cfg × Life}
    (hs : (requestLife cfg e).ReachWhen (fun s l => keepsRetired e s l = true) s) :
    s.2 ≠ .revived := by
  have hinv : LifeInv e s := by
    refine hs.observed (I := fun s life => LifeInv e (s, life)) ?_ ?_
    · rintro s rfl
      have hledger : LedgerInv cfg Mem.empty := ledgerInv_empty
      have hmem : Recorded cfg e (.live []) Mem.empty :=
        ⟨hledger.linked, .empty, fun o ho => (nomatch ho)⟩
      refine ⟨hmem, fun _ => .inl ⟨rfl, rfl⟩, nofun, nofun, nofun, ?_⟩
      intro dead hdead
      obtain ⟨tid, pending, hpending, -⟩ := hdead
      cases hpending
    · intro s l t life _ ht h hok hstep
      exact h.step (ledgerWorld_reachable ht).mem.linked hok hstep
  intro hrevived
  have htracked := hinv.mem.tracked
  rw [hrevived] at htracked
  exact htracked

-- ===== sample runs

def second : Int := 1000000000

/-- The sample request, sent by a clock ninety seconds ahead. -/
def earlyRequest : Inbound oneSlot :=
  ⟨⟨text "m1", alice, [], some (Timestamp.new (epoch + 90 * second)),
    some (.executionRequest sampleRequest)⟩, by decide +kernel⟩

/-- A delivery at `now`, to its end. -/
def deliverRun (tid : Nat) (e : Inbound oneSlot) (now : Int) (id : GoString) :
    List (Label oneSlot) :=
  [ .call tid e, .run tid { now := now }, .run tid { now := now },
    .run tid { now := now, id := id, id2 := text "a1" }, .run tid { now := now } ]

/-- A sweep at `now` that finds nothing to evict or clean up. -/
def sweepRun (tid : Nat) (now : Int) : List (Label oneSlot) :=
  [.sweep tid, .run tid { now := now }, .run tid { now := now }, .run tid { now := now }]

/-- The offer is collected after 31 seconds, its tombstone seven days and
31 seconds after the epoch, and the request is fresh for another 59
seconds: delivered then, it gets a second offer. -/
theorem early_request_revives :
    ∃ s, (requestLife oneSlot earlyRequest.1).Reach s ∧ s.2 = .revived := by
  exact (requestLife oneSlot earlyRequest.1).exists_reach (.observe rfl)
    (deliverRun 0 earlyRequest epoch (text "o") ++ sweepRun 1 (epoch + 31 * second)
      ++ sweepRun 1 (epoch + commandHorizon + 31 * second)
      ++ deliverRun 2 earlyRequest (epoch + commandHorizon + 60 * second) (text "o2")) _
    (by decide +kernel)

/-- A request sent by a clock that agrees is refused after the
collection. -/
theorem collected_request_redelivered :
    ∃ s, (requestLife oneSlot requestCommand.1).ReachWhen
        (fun s l => keepsRetired requestCommand.1 s l = true) s ∧
      s.2 = .collected (text "o") (epoch + 31 * second) ∧ s.2 ≠ .revived := by
  obtain ⟨s, hs, hp⟩ := (requestLife oneSlot requestCommand.1).exists_reachWhen
    (fun s l => keepsRetired requestCommand.1 s l = true) (.observe rfl)
    (requestRun ++ sweepRun 1 (epoch + 31 * second)
      ++ deliverRun 2 requestCommand (epoch + 60 * second) (text "o2"))
    (fun s => s.2 = .collected (text "o") (epoch + 31 * second)) (by decide +kernel)
  exact ⟨s, hs, hp,
    collected_request_stays_retired oneSlot requestCommand.1 hs⟩

end R1s.Allocator
