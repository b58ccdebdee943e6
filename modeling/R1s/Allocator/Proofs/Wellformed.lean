/-
What every record of a running allocator looks like: the fields the
loader of `loadLocked` insists on, the request index, and, where there is
a store, that every ID can be written as JSON text without loss.

# How the store enters

An offer is minted and an execution assigned only if the state with it
could be saved. So with a store the messages behind both were valid
UTF-8, and the IDs that are written as plain JSON strings came from those
messages.
-/
import R1s.Allocator.Proofs.Phases
import R1s.Allocator.Proofs.Updates

namespace R1s.Allocator

open Utf8 (replaceInvalid_eq_self valid)

variable {cfg : Config} {pc : Option (Pc cfg)} {i : Input} {m m' : Mem}

-- ===== the records

/-- A tombstone's IDs are valid UTF-8. -/
def Tombstone.utf8 (t : Tombstone) : Bool :=
  valid t.requestID && valid t.offerID && valid t.executionID

structure ProperOffer (cfg : Config) (o : GoString) (r : OfferRecord) : Prop where
  id : r.offer.offerID = o
  named : o ≠ []
  request : r.offer.requestID = r.request.requestID
  requestID : blank r.request.requestID = false
  resourceClass : blank r.offer.resourceClass = false
  utf8 : cfg.stored = true → r.encodable = true ∧ valid r.execution = true

structure ProperExecution (cfg : Config) (x : ExecutionRecord) : Prop where
  id : blank x.id = false
  offerID : x.offerID ≠ []
  resourceClass : blank x.resourceClass = false
  requestID : blank x.request.requestID = false
  phase : x.phase ≠ .unspecified
  retained : x.phase.terminal = true → x.retainUntil ≠ 0
  utf8 : cfg.stored = true →
    valid x.id = true ∧ valid x.offerID = true ∧ valid x.resourceClass = true

structure Wellformed (cfg : Config) (m : Mem) : Prop where
  clock : 0 ≤ m.highWater
  offer : ∀ {o r}, m.offers.lookup o = some r → ProperOffer cfg o r
  index : ∀ {key o}, m.requests.lookup key = some o ↔
    ∃ r, m.offers.lookup o = some r ∧ r.key = key
  execution : ∀ {k x}, m.executions.lookup k = some x → ProperExecution cfg x
  tombstone : cfg.stored = true → ∀ {k t}, m.tombstones.lookup k = some t →
    valid k = true ∧ t.utf8 = true

theorem Wellformed.empty : Wellformed cfg Mem.empty where
  clock := le_refl _
  offer h := nomatch h
  index := ⟨fun h => (nomatch h), fun ⟨_, h, _⟩ => (nomatch h)⟩
  execution h := nomatch h
  tombstone _ _ _ h := nomatch h

variable {r r' : OfferRecord}

theorem SameOffer.key (h : SameOffer r r') : r'.key = r.key := by
  unfold OfferRecord.key
  rw [h.client, h.offer]

variable {o : GoString}

/-- The fields of an offer do not depend on its status. -/
theorem ProperOffer.same (h : ProperOffer cfg o r) (hsame : SameOffer r r')
    (hutf8 : cfg.stored = true → valid r'.execution = true) : ProperOffer cfg o r' where
  id := by rw [hsame.offer, h.id]
  named := h.named
  request := by rw [hsame.offer, hsame.request, h.request]
  requestID := by rw [hsame.request, h.requestID]
  resourceClass := by rw [hsame.offer, h.resourceClass]
  utf8 hstored := ⟨hsame.encodable (h.utf8 hstored).1, hutf8 hstored⟩

-- ===== the updates

variable {used : GoString → Nat} {k : GoString} {x : ExecutionRecord} {e : Inbound cfg} {now : Int}

/-- What acceptance says of a request. -/
theorem request_of_valid {q : ExecutionRequest} (hq : e.1.payload = some (.executionRequest q)) :
    blank q.requestID = false ∧ blank q.resourceClass = false := by
  have hvalid := validatePayload_of_valid e.2
  rw [hq] at hvalid
  have hchecks := firstError_eq_none.mp hvalid
  exact ⟨checkText_eq_none.mp
      (hchecks (checkText "execution_request.request_id" q.requestID) (by simp)),
    checkText_eq_none.mp
      (hchecks (checkText "execution_request.resource_class" q.resourceClass) (by simp))⟩

/-- What acceptance says of an assignment. -/
theorem assign_of_valid {q : ExecutionAssign} (hq : e.1.payload = some (.executionAssign q)) :
    blank q.executionID = false := by
  have hvalid := validatePayload_of_valid e.2
  rw [hq] at hvalid
  exact checkText_eq_none.mp (firstError_eq_none.mp hvalid
    (checkText "execution_assign.execution_id" q.executionID) (by simp))

section Updates

variable (h : Wellformed cfg m)
include h

/-- Offers whose status moved. -/
theorem Wellformed.offers (hclock : m'.highWater = m.highWater)
    (hrequests : m'.requests = m.requests) (htombs : m'.tombstones = m.tombstones)
    (hexecutions : ∀ {k x}, m'.executions.lookup k = some x → ProperExecution cfg x)
    (hsame : SameOffers m m') (hutf8 : cfg.stored = true → ∀ {o r}, m'.offers.lookup o = some r →
      valid r.execution = true) : Wellformed cfg m' where
  clock := by rw [hclock]; exact h.clock
  offer hr' := by
    obtain ⟨r, hr, hrr'⟩ := hsame.before hr'
    exact (h.offer hr).same hrr' fun hstored => hutf8 hstored hr'
  index := by
    intro key o
    rw [hrequests, h.index]
    constructor
    · intro hex
      obtain ⟨r, hr, hkey⟩ := hex
      obtain ⟨r', hr', hrr'⟩ := hsame.kept o r hr
      exact ⟨r', hr', by rw [hrr'.key, hkey]⟩
    · intro hex
      obtain ⟨r', hr', hkey⟩ := hex
      obtain ⟨r, hr, hrr'⟩ := hsame.before hr'
      exact ⟨r, hr, by rw [← hrr'.key, hkey]⟩
  execution := hexecutions
  tombstone := by rw [htombs]; exact h.tombstone

/-- One offer rewritten. -/
theorem Wellformed.setOffer (hr : m.offers.lookup o = some r) (hsame : SameOffer r r')
    (hutf8 : cfg.stored = true → valid r'.execution = true) :
    Wellformed cfg { m with offers := m.offers.insert o r', used := used } := by
  refine h.offers rfl rfl rfl h.execution (.insert rfl hr hsame) ?_
  intro hstored o₀ r₀ hr₀
  rw [AList.lookup_insert_if] at hr₀
  split at hr₀
  · cases hr₀
    exact hutf8 hstored
  · exact ((h.offer hr₀).utf8 hstored).2

/-- One execution set. -/
theorem Wellformed.setExecution {tunnels : Tunnel.Registry} (hx : ProperExecution cfg x) :
    Wellformed cfg
      { m with executions := m.executions.insert k x, used := used, tunnels := tunnels } := by
  refine ⟨h.clock, h.offer, h.index, ?_, h.tombstone⟩
  intro k' x' hx'
  rw [AList.lookup_insert_if] at hx'
  split at hx'
  · cases hx'
    exact hx
  · exact h.execution hx'

theorem Wellformed.expired (now : Int) : Wellformed cfg (expireOffers now m) := by
  refine h.offers rfl rfl rfl h.execution (untouched_expireOffers now m).offers ?_
  intro hstored o r' hr'
  change AList.lookup o (m.offers.mapVal fun _ r => r.expire now) = some r' at hr'
  rw [AList.lookup_mapVal] at hr'
  obtain ⟨r, hr, rfl⟩ := Option.map_eq_some_iff.mp hr'
  have hvalid := ((h.offer hr).utf8 hstored).2
  unfold OfferRecord.expire
  split <;> exact hvalid

theorem Wellformed.minted {q : ExecutionRequest} (hq : e.1.payload = some (.executionRequest q))
    (hnew : m.requested e.1 q = none) (hid : i.id ≠ []) (hfree : m.offers.lookup i.id = none)
    (hsaved : cfg.stored = true → (mintRecord cfg i e.1 q).encodable = true) :
    Wellformed cfg
      { m with
        offers := m.offers.insert i.id (mintRecord cfg i e.1 q),
        requests := m.requests.insert (authorityKey e.1.sender q.requestID) i.id,
        used := used } := by
  obtain ⟨hrequestID, hclass⟩ := request_of_valid hq
  have hkey : (mintRecord cfg i e.1 q).key = authorityKey e.1.sender q.requestID := rfl
  -- No other offer is of this request.
  have hother : ∀ {o r}, m.offers.lookup o = some r →
      r.key ≠ authorityKey e.1.sender q.requestID := by
    intro o r hr heq
    have hindexed := h.index.mpr ⟨r, hr, heq⟩
    unfold Mem.requested at hnew
    rw [hindexed] at hnew
    change m.offers.lookup o = none at hnew
    rw [hr] at hnew
    cases hnew
  refine ⟨h.clock, ?_, ?_, h.execution, h.tombstone⟩
  · intro o r hr
    rcases AList.of_lookup_insert hr with ⟨heq, rfl⟩ | ⟨-, hr⟩
    · rw [heq]
      exact ⟨rfl, hid, rfl, hrequestID, hclass, fun hstored => ⟨hsaved hstored, rfl⟩⟩
    · exact h.offer hr
  · intro key o
    rw [AList.lookup_insert_if, AList.lookup_insert_if]
    constructor
    · intro hlookup
      split at hlookup
      next heq =>
        cases hlookup
        rw [if_pos rfl]
        exact ⟨_, rfl, by rw [hkey, heq]⟩
      obtain ⟨r, hr, hrkey⟩ := h.index.mp hlookup
      rw [if_neg, hr]
      · exact ⟨r, rfl, hrkey⟩
      · exact AList.ne_of_lookup hr hfree
    · intro hex
      obtain ⟨r, hr, hrkey⟩ := hex
      split at hr
      next heq =>
        cases hr
        rw [if_pos (hrkey.symm.trans hkey), heq]
      rw [if_neg]
      · exact h.index.mpr ⟨r, hr, hrkey⟩
      · intro heq
        exact hother hr (hrkey.trans heq)

/-- A dangling key has no entry to lose. -/
theorem Wellformed.unindexed {key : GoString}
    (hkey : (m.requests.lookup key).bind m.offers.lookup = none) :
    Wellformed cfg { m with requests := m.requests.erase key, used := used } := by
  have habsent : m.requests.lookup key = none := by
    cases hlookup : m.requests.lookup key with
    | none => rfl
    | some o =>
      obtain ⟨r, hr, -⟩ := h.index.mp hlookup
      rw [hlookup] at hkey
      change m.offers.lookup o = none at hkey
      rw [hr] at hkey
      cases hkey
  refine ⟨h.clock, h.offer, ?_, h.execution, h.tombstone⟩
  intro key' o
  rw [← h.index]
  rw [AList.lookup_erase_if]
  split
  next heq => rw [heq, habsent]
  · exact Iff.rfl

/-- The command of a call at its handler is in the cache. -/
def Cached (pc : Option (Pc cfg)) (m : Mem) : Prop :=
  ∀ e, pc.bind Pc.atHandler = some e →
    ∃ entry, m.replay.lookup (replayKey e.1) = some entry ∧ entry.envelope = e.1

theorem Wellformed.assigned {q : ExecutionAssign} (hcached : Cached pc m)
    (hpc : pc = some (.handling e)) (hq : e.1.payload = some (.executionAssign q))
    (hr : m.offers.lookup q.offerID = some r)
    (hsaved : cfg.stored = true → ∀ k entry, m.replay.lookup k = some entry →
      entry.envelope.utf8 = true) :
    Wellformed cfg
      { m with
        offers := m.offers.insert q.offerID
          { r with status := .assigned, execution := q.executionID },
        executions := m.executions.insert q.executionID (assignRecord cfg i q r) } := by
  have hproper := h.offer hr
  have hutf8 : cfg.stored = true → valid q.executionID = true := by
    intro hstored
    obtain ⟨entry, hentry, henv⟩ := hcached e (by rw [hpc]; rfl)
    have hvalid := hsaved hstored _ entry hentry
    rw [henv] at hvalid
    simp only [Envelope.utf8, hq, Option.all_some, Payload.utf8, Bool.and_eq_true] at hvalid
    exact hvalid.2.2
  have hset : Wellformed cfg
      { m with
        offers := m.offers.insert q.offerID
          { r with status := .assigned, execution := q.executionID },
        used := m.used } := h.setOffer hr ⟨rfl, rfl, rfl⟩ hutf8
  refine hset.setExecution ⟨?_, ?_, ?_, ?_, nofun, nofun, ?_⟩
  · exact assign_of_valid hq
  · show r.offer.offerID ≠ []
    rw [hproper.id]
    exact hproper.named
  · exact hproper.resourceClass
  · exact hproper.requestID
  · intro hstored
    have henc := (hproper.utf8 hstored).1
    simp only [OfferRecord.encodable, ExecutionOffer.utf8, Bool.and_eq_true] at henc
    exact ⟨hutf8 hstored, henc.1.1.1.1, henc.1.1.2⟩

theorem Wellformed.reworked {x' : ExecutionRecord}
    (hstop : ∀ p id previous, pc = some p → p.stopOf = some (id, previous) →
      previous.1 ≠ .unspecified)
    {clock : Int} (hx : m.executions.lookup k = some x) (hwork : Reworked pc i clock k x x') :
    Wellformed cfg (m.setExecution k x') := by
  have hproper := h.execution hx
  refine h.setExecution ⟨?_, ?_, ?_, ?_, ?_, ?_, ?_⟩
  · rw [hwork.id, hproper.id]
  · rw [hwork.offerID]
    exact hproper.offerID
  · rw [hwork.resourceClass, hproper.resourceClass]
  · rw [hwork.request, hproper.requestID]
  · rcases hwork.phase with hsame | hrunning | hcancelling | ⟨p, previous, hp, hpstop, hback⟩
    · rw [hsame]
      exact hproper.phase
    · rw [hrunning]
      exact nofun
    · rw [hcancelling]
      exact nofun
    · rw [hback]
      exact hstop p k previous hp hpstop
  · intro hend
    rw [hwork.retainUntil]
    rcases hwork.live with hsame | ⟨-, hlive⟩
    · exact hproper.retained (by rw [← hsame]; exact hend)
    · rw [hlive] at hend
      cases hend
  · rw [hwork.id, hwork.offerID, hwork.resourceClass]
    exact hproper.utf8

theorem Wellformed.finished {phase : ExecutionPhase} {detail : GoString} {exitCode : Option Int}
    (hx : m.executions.lookup k = some x) (hend : phase.terminal = true) :
    Wellformed cfg (finish cfg k x phase detail exitCode now m) := by
  have hproper := h.execution hx
  refine h.setExecution ⟨hproper.id, hproper.offerID, hproper.resourceClass, hproper.requestID,
    ?_, ?_, hproper.utf8⟩
  · intro hphase
    change phase = .unspecified at hphase
    rw [hphase] at hend
    cases hend
  · intro _
    show max now m.highWater + cfg.retention ≠ 0
    have hclock := h.clock
    have hretention := cfg.retention_le.1
    omega

/-- One offer collected with its index entry and its execution. -/
theorem Wellformed.collectOffer {entry : Σ _ : GoString, OfferRecord}
    (hentry : m.offers.lookup entry.1 = some entry.2) (now : Int) (busy : List GoString) :
    Wellformed cfg (collectOffer now busy m entry) := by
  have hproper := h.offer hentry
  unfold Allocator.collectOffer
  split
  · exact h
  refine ⟨h.clock, ?_, ?_, ?_, ?_⟩
  · intro o r hr
    obtain ⟨-, hr⟩ := AList.of_lookup_erase hr
    exact h.offer hr
  · intro key o
    rw [AList.lookup_erase_if, AList.lookup_erase_if]
    constructor
    · intro hlookup
      split at hlookup
      · cases hlookup
      rename_i hne
      obtain ⟨r, hr, hkey⟩ := h.index.mp hlookup
      refine ⟨r, ?_, hkey⟩
      rw [if_neg, hr]
      intro heq
      rw [heq, hentry] at hr
      cases hr
      exact hne hkey.symm
    · intro hex
      obtain ⟨r, hr, hkey⟩ := hex
      split at hr
      · cases hr
      rename_i hne
      have hindexed := h.index.mpr ⟨r, hr, hkey⟩
      rw [if_neg]
      · exact hindexed
      · -- Two offers of one request would have one entry.
        intro heq
        have hown := h.index.mpr ⟨entry.2, hentry, rfl⟩
        rw [← heq, hindexed] at hown
        exact hne (Option.some.inj hown)
  · intro k x hx
    obtain ⟨-, hx⟩ := AList.of_lookup_erase hx
    exact h.execution hx
  · intro hstored k t ht
    rcases AList.of_lookup_insert ht with ⟨heq, rfl⟩ | ⟨-, ht⟩
    · obtain ⟨henc, hexecution⟩ := hproper.utf8 hstored
      obtain ⟨hid, hrequest⟩ := OfferRecord.valid_ids henc
      rw [hproper.id] at hid
      rw [heq]
      refine ⟨hid, ?_⟩
      simp only [Tombstone.utf8, buryOffer, Bool.and_eq_true]
      exact ⟨⟨hrequest, hid⟩, hexecution⟩
    · exact h.tombstone hstored ht

theorem Wellformed.ready (now : Int) : Wellformed cfg (sweepReady cfg now m) := by
  have hclocked : Wellformed cfg (effectiveNow now m) := by
    rw [effectiveNow_eq]
    exact ⟨le_trans h.clock (le_max_left _ _), h.offer, h.index, h.execution, h.tombstone⟩
  have hexpired := hclocked.expired (effectiveNow now m).highWater
  exact ⟨hexpired.clock, hexpired.offer, hexpired.index, hexpired.execution,
    hexpired.tombstone⟩

theorem Wellformed.swept (now : Int) : Wellformed cfg (swept cfg now m) := by
  have hcollected : Wellformed cfg (sweepCollected (sweepReady cfg now m)) :=
    sweepCollected_rule (h.ready now) fun hm' _ ho => hm'.collectOffer ho _ _
  refine ⟨hcollected.clock, hcollected.offer, hcollected.index, hcollected.execution, ?_⟩
  intro hstored k t ht
  change AList.lookup k ((sweepCollected (sweepReady cfg now m)).tombstones.keep _) = some t at ht
  rw [AList.lookup_keep] at ht
  exact hcollected.tombstone hstored (Option.filter_eq_some_iff.mp ht).1

end Updates

/-- What the update needs to know of the call it belongs to. -/
structure Context (pc : Option (Pc cfg)) : Prop where
  stops : ∀ p id previous, pc = some p → p.stopOf = some (id, previous) →
    previous.1 ≠ .unspecified
  cleans : ∀ dead pending err evictErr, pc = some (.cleaning (dead :: pending) err evictErr) →
    cfg.stored = true → dead.utf8 = true

theorem Update.wellformed (hu : Update cfg pc i m m') (hctx : Context pc)
    (h : Wellformed cfg m ∧ Cached pc m) : Wellformed cfg m' ∧ Cached pc m' := by
  obtain ⟨hm, hcached⟩ := h
  cases hu with
  | clock =>
    exact ⟨⟨le_trans hm.clock (le_max_left _ _), hm.offer, hm.index, hm.execution,
      hm.tombstone⟩, hcached⟩
  | expired now => exact ⟨hm.expired now, hcached⟩
  | cached hpc replay =>
    refine ⟨⟨hm.clock, hm.offer, hm.index, hm.execution, hm.tombstone⟩, ?_⟩
    intro e he
    rw [hpc] at he
    cases he
  | minted hpc hq hnew herr hid hfree hsaved =>
    exact ⟨hm.minted hq hnew hid hfree hsaved, hcached⟩
  | unindexed hkey => exact ⟨hm.unindexed hkey, hcached⟩
  | assigned hpc hq hr hstatus hclient hrequest hnew hsaved =>
    exact ⟨hm.assigned hcached hpc hq hr hsaved, hcached⟩
  | unassigned hr hstatus =>
    exact ⟨hm.setOffer hr ⟨rfl, rfl, rfl⟩ fun _ => rfl, hcached⟩
  | freed hr hstatus hnext =>
    exact ⟨hm.setOffer hr ⟨rfl, rfl, rfl⟩ fun hstored => ((hm.offer hr).utf8 hstored).2,
      hcached⟩
  | unfreed hr =>
    exact ⟨hm.setOffer hr (.refl _) fun hstored => ((hm.offer hr).utf8 hstored).2, hcached⟩
  | reworked hx hwork => exact ⟨hm.reworked hctx.stops hx hwork, hcached⟩
  | finished hx hlive hend => exact ⟨hm.finished hx hend, hcached⟩
  | unfinished hx => exact ⟨hm.setExecution (hm.execution hx), hcached⟩
  | swept hpc =>
    refine ⟨hm.swept i.now, ?_⟩
    intro e he
    rw [hpc] at he
    cases he
  | @cleaned dead t pending err evictErr hpc ht =>
    refine ⟨⟨hm.clock, hm.offer, hm.index, hm.execution, ?_⟩, hcached⟩
    intro hstored k t' ht'
    have hdead := hctx.cleans dead pending err evictErr hpc hstored
    rcases AList.of_lookup_insert ht' with ⟨heq, rfl⟩ | ⟨-, ht'⟩
    · have hkey : valid dead.offerID = true := by
        simp only [Tombstone.utf8, Bool.and_eq_true] at hdead
        exact hdead.1.2
      rw [heq]
      refine ⟨hkey, ?_⟩
      rcases ht with rfl | rfl
      · exact hdead
      · cases hlookup : m.tombstones.lookup dead.offerID with
        | none => rfl
        | some t => exact (hm.tombstone hstored hlookup).2
    · exact hm.tombstone hstored ht'
  | bound hpc hbind =>
    exact ⟨⟨hm.clock, hm.offer, hm.index, hm.execution, hm.tombstone⟩, hcached⟩
  | session hsame =>
    exact ⟨⟨hm.clock, hm.offer, hm.index, hm.execution, hm.tombstone⟩, hcached⟩

-- ===== a reload

/-- The loaded index has one entry per saved offer. -/
theorem lookup_loadIndex {l : List OfferRecord}
    {acc : FMap GoString OfferRecord × FMap GoString GoString}
    (h : l.foldlM loadOffer (∅, ∅) = .ok acc) (key o : GoString) :
    acc.2.lookup key = some o ↔
      ∃ r ∈ l, authorityKey r.client r.request.requestID = key ∧ r.offer.offerID = o := by
  have hI := Loop.foldlM_ok
    (fun done (acc : FMap GoString OfferRecord × FMap GoString GoString) =>
      ∀ key o, acc.2.lookup key = some o ↔ ∃ r ∈ done,
        authorityKey r.client r.request.requestID = key ∧ r.offer.offerID = o) (by simp) ?_ h
  · exact hI key o
  · intro done saved acc acc' hI hok key o
    have hfresh : acc.2.lookup (authorityKey saved.client saved.request.requestID) = none := by
      unfold loadOffer at hok
      dsimp only at hok
      split at hok
      · cases hok
      split at hok
      · cases hok
      · split at hok
        · cases hok
        next hkey => simpa using hkey
    obtain ⟨-, rfl⟩ := loadOffer_ok hok
    rw [AList.lookup_insert_if]
    constructor
    · intro hlookup
      split at hlookup
      next heq =>
        cases hlookup
        exact ⟨saved, List.mem_append_right _ List.mem_cons_self, heq.symm, rfl⟩
      · obtain ⟨r, hr, hrest⟩ := (hI key o).mp hlookup
        exact ⟨r, List.mem_append_left _ hr, hrest⟩
    · intro hex
      obtain ⟨r, hr, hkey, hid⟩ := hex
      rcases List.mem_append.mp hr with hold | hnew
      · have hthere := (hI key o).mpr ⟨r, hold, hkey, hid⟩
        rw [if_neg]
        · exact hthere
        · exact AList.ne_of_lookup hthere hfresh
      · rw [List.mem_singleton.mp hnew] at hkey hid
        rw [if_pos hkey.symm, hid]

theorem Tombstone.save_eq {t : Tombstone} (h : t.utf8 = true) : t.save = t := by
  simp only [Tombstone.utf8, Bool.and_eq_true] at h
  unfold Tombstone.save
  rw [(replaceInvalid_eq_self _).mpr h.1.1, (replaceInvalid_eq_self _).mpr h.1.2,
    (replaceInvalid_eq_self _).mpr h.2]

theorem ProperOffer.save_eq (h : ProperOffer cfg o r) (hstored : cfg.stored = true) :
    r.save = r := by
  unfold OfferRecord.save
  rw [(replaceInvalid_eq_self _).mpr (h.utf8 hstored).2]

/-- A saved and restored record of a known execution. -/
theorem ProperExecution.restore (h : ProperExecution cfg x) (hstored : cfg.stored = true)
    (granted : Int) : ProperExecution cfg (x.save.restore cfg granted) := by
  obtain ⟨hid, hoffer, hclass⟩ := h.utf8 hstored
  have hsaved : x.save.id = x.id ∧ x.save.offerID = x.offerID ∧
      x.save.resourceClass = x.resourceClass :=
    ⟨(replaceInvalid_eq_self _).mpr hid, (replaceInvalid_eq_self _).mpr hoffer,
      (replaceInvalid_eq_self _).mpr hclass⟩
  refine ⟨?_, ?_, ?_, h.requestID, h.phase, ?_, ?_⟩
  · show blank x.save.id = false
    rw [hsaved.1, h.id]
  · show x.save.offerID ≠ []
    rw [hsaved.2.1]
    exact h.offerID
  · show blank x.save.resourceClass = false
    rw [hsaved.2.2, h.resourceClass]
  · intro hend
    show (if x.phase.terminal = true ∧ x.retainUntil = 0 then x.occurredAt + cfg.retention
      else x.retainUntil) ≠ 0
    rw [if_neg fun hzero => h.retained hend hzero.2]
    exact h.retained hend
  · intro _
    show valid x.save.id = true ∧ valid x.save.offerID = true ∧
      valid x.save.resourceClass = true
    rw [hsaved.1, hsaved.2.1, hsaved.2.2]
    exact ⟨hid, hoffer, hclass⟩

section Saved

variable {saved : SaveIn} {src : Mem}

/-- The loaded offers are the saved ones. -/
theorem lookup_loaded_offers (h : Wellformed cfg src) (hstored : cfg.stored = true)
    {index : FMap GoString OfferRecord × FMap GoString GoString}
    (hindex : (snapshot cfg saved src).offers.foldlM loadOffer (∅, ∅) = .ok index)
    (o : GoString) : index.1.lookup o = src.offers.lookup o := by
  refine Option.ext fun r => ?_
  rw [lookup_loadOffers hindex, mem_snapshot_offers]
  constructor
  · intro hex
    obtain ⟨⟨o₀, r₀, hr₀, rfl⟩, hid⟩ := hex
    have hproper := h.offer hr₀
    rw [hproper.save_eq hstored] at hid ⊢
    rw [hproper.id] at hid
    rw [← hid]
    exact hr₀
  · intro hr
    have hproper := h.offer hr
    exact ⟨⟨o, r, hr, (hproper.save_eq hstored).symm⟩, hproper.id⟩

/-- The rebuilt index is the saved one. -/
theorem lookup_loaded_index (h : Wellformed cfg src) (hstored : cfg.stored = true)
    {index : FMap GoString OfferRecord × FMap GoString GoString}
    (hindex : (snapshot cfg saved src).offers.foldlM loadOffer (∅, ∅) = .ok index)
    (key : GoString) : index.2.lookup key = src.requests.lookup key := by
  refine Option.ext fun o => ?_
  rw [lookup_loadIndex hindex, h.index]
  constructor
  · intro hex
    obtain ⟨r, hr, hkey, hid⟩ := hex
    obtain ⟨o₀, r₀, hr₀, rfl⟩ := mem_snapshot_offers.mp hr
    have hproper := h.offer hr₀
    rw [hproper.save_eq hstored] at hkey hid
    rw [hproper.id] at hid
    rw [← hproper.request] at hkey
    rw [← hid]
    exact ⟨r₀, hr₀, hkey⟩
  · intro hex
    obtain ⟨r, hr, hkey⟩ := hex
    have hproper := h.offer hr
    refine ⟨r, mem_snapshot_offers.mpr ⟨o, r, hr, (hproper.save_eq hstored).symm⟩, ?_,
      hproper.id⟩
    rw [← hproper.request]
    exact hkey

end Saved

theorem Wellformed.load {saved : SaveIn} {src : Mem} {granted : Int} (h : Wellformed cfg src)
    (hstored : cfg.stored = true)
    (hload : load cfg granted now (snapshot cfg saved src) = .ok m) : Wellformed cfg m := by
  have htombs := lookup_load_tombstones hload fun k t ht => (h.tombstone hstored ht).1
  have hclock := load_highWater hload
  obtain ⟨index, executions, used, hindex, hexecs, -, rfl⟩ := load_ok hload
  have hoffers : ∀ o, index.1.lookup o = src.offers.lookup o :=
    lookup_loaded_offers h hstored hindex
  have hbase : Wellformed cfg (loaded (snapshot cfg saved src) index executions) := by
    refine ⟨h.clock, ?_, ?_, ?_, ?_⟩
    · intro o r hr
      change index.1.lookup o = some r at hr
      rw [hoffers] at hr
      exact h.offer hr
    · intro key o
      show index.2.lookup key = some o ↔ ∃ r, index.1.lookup o = some r ∧ r.key = key
      rw [lookup_loaded_index h hstored hindex, hoffers, h.index]
    · intro k x hx
      obtain ⟨y, hy, -, -, -, rfl⟩ := (lookup_loadExecutions hexecs k x).mp hx
      obtain ⟨k₀, x₀, hx₀, rfl⟩ := mem_snapshot_executions.mp hy
      exact (h.execution hx₀).restore hstored granted
    · intro _ k t ht
      have ht' := ht
      rw [show (loaded (snapshot cfg saved src) index executions).tombstones.lookup k
        = (src.tombstones.lookup k).map Tombstone.save from htombs k] at ht'
      obtain ⟨t₀, ht₀, rfl⟩ := Option.map_eq_some_iff.mp ht'
      obtain ⟨hk, hutf8⟩ := h.tombstone hstored ht₀
      exact ⟨hk, by rw [Tombstone.save_eq hutf8]; exact hutf8⟩
  have hexpired := hbase.expired now
  exact ⟨hexpired.clock, hexpired.offer, hexpired.index, hexpired.execution, hexpired.tombstone⟩

-- ===== the runs

/-- The tombstones a call of `Sweep` still has to clean. -/
def Pc.pending : Pc cfg → List Tombstone
  | .cleaning pending _ _ => pending
  | _ => []

theorem entry_pending {p : Pc cfg} (h : p.entry = true) : p.pending = [] := by
  cases p <;> first | rfl | cases h

structure Sound (s : System cfg) : Prop where
  mem : Wellformed cfg s.world.mem
  disk : ∀ {snap}, s.world.disk = some snap → cfg.stored = true ∧
    ∃ saved src, Wellformed cfg src ∧ snap = snapshot cfg saved src
  stops : ∀ {tid id previous}, (s.threads.lookup tid).bind Pc.stopOf = some (id, previous) →
    previous.1 ≠ .unspecified
  cleans : ∀ {tid p}, s.threads.lookup tid = some p → cfg.stored = true →
    ∀ dead ∈ p.pending, dead.utf8 = true

/-- A tombstone a section leaves to be cleaned stands in its memory, or
was left before. -/
theorem advance_pending {tid : Nat} {p : Pc cfg} {w w' : World} {next : Next cfg}
    (h : advance tid p i w = some (w', next)) {p' : Pc cfg} (hp' : next.pc = some p')
    {dead : Tombstone} (hdead : dead ∈ p'.pending) :
    dead ∈ p.pending ∨ ∃ k, w'.mem.tombstones.lookup k = some dead := by
  cases next with
  | ret | done => cases hp'
  | goto p₁ =>
    cases hp'
    have hsucc := advance_succ h
    cases hsucc
    case collected =>
      have hcollect := Option.some.inj h
      unfold collect at hcollect
      cases hsweep : sweepCollect cfg i w with
      | mk w₁ outcome =>
        rw [hsweep] at hcollect
        cases outcome with
        | error err => cases hcollect
        | ok pending =>
          cases hcollect
          obtain ⟨hp, rfl⟩ := sweepCollect_ok hsweep
          rw [persist_mem hp]
          obtain ⟨hmem, -⟩ := List.mem_filter.mp hdead
          obtain ⟨entry, hentry, rfl⟩ := List.mem_map.mp hmem
          exact .inr ⟨entry.1, AList.mem_entries.mp hentry⟩
    case cleaned => exact .inl (List.mem_cons_of_mem _ hdead)
    all_goals cases hdead

variable {l : Label cfg} {s : System cfg}

theorem Sound.context (h : Sound s) : Context (s.point l) := by
  constructor
  · intro p id previous hp hstop
    cases l with
    | run tid i =>
      change s.threads.lookup tid = some p at hp
      have hthread : (s.threads.lookup tid).bind Pc.stopOf = some (id, previous) := by
        rw [hp]
        exact hstop
      exact h.stops hthread
    | _ => cases hp
  · intro dead pending err evictErr hp hstored
    cases l with
    | run tid i => exact h.cleans hp hstored dead List.mem_cons_self
    | _ => cases hp

variable {t : System cfg}

theorem Sound.stored (h : Sound s) (hc : Changes cfg (s.point l) l.input s.world t.world)
    (hmem : Wellformed cfg t.world.mem) {snap : Snapshot} (hsnap : t.world.disk = some snap) :
    cfg.stored = true ∧ ∃ saved src, Wellformed cfg src ∧ snap = snapshot cfg saved src := by
  rcases hc.disk with hsame | ⟨-, saved, hsaved⟩
  · rw [hsame] at hsnap
    exact h.disk hsnap
  · cases hstored : cfg.stored with
    | false =>
      rw [hc.unstored hstored] at hsnap
      have hcontra := (h.disk hsnap).1
      rw [hstored] at hcontra
      cases hcontra
    | true =>
      refine ⟨rfl, saved, t.world.mem, hmem, ?_⟩
      exact (Option.some.inj (hsaved.symm.trans hsnap)).symm

/-- A step of one process. -/
theorem Sound.step (h : Sound s) (hcache : CacheInv s) (hl : l.isRestart = false)
    (hstep : s.step l = some t) : Sound t := by
  have hchanges := step_changes hl hstep
  have hcached : Cached (s.point l) s.world.mem := by
    intro e he
    cases l with
    | run tid i =>
      obtain ⟨p, hp, hat⟩ := Option.bind_eq_some_iff.mp he
      cases p <;> cases hat
      change s.threads.lookup tid = some (.handling e) at hp
      obtain ⟨entry, hentry, -, henv, -⟩ := hcache.owned tid e (by rw [hp]; rfl)
      exact ⟨entry, hentry, henv⟩
    | _ => cases he
  have hmem : Wellformed cfg t.world.mem :=
    (hchanges.invariant (I := fun m => Wellformed cfg m ∧ Cached (s.point l) m)
      (fun _ _ hu hm => hu.wellformed h.context hm) ⟨h.mem, hcached⟩).1
  refine ⟨hmem, h.stored hchanges hmem, ?_, ?_⟩
  · intro tid' id previous hstop
    cases step_kind hstep with
    | @run _ _ _ r hp hr =>
      rcases resume_bind Pc.stopOf (fun _ _ _ => rfl) hstop with
        ⟨-, hold⟩ | ⟨-, p', hgoto, hnew⟩
      · exact h.stops hold
      · have hnext : r.2.pc.bind Pc.stopOf = some (id, previous) := by
          rw [hgoto]
          exact hnew
        obtain ⟨k, x, hx, hphase⟩ := advance_stops hr hnext
        rw [hphase]
        exact (h.mem.execution hx).phase
    | other _ _ _ hentered => exact h.stops (hentered.bind (fun p hp => (entry_idle hp).2) hstop)
    | restart => cases hl
  · intro tid' p' hp' hstored dead hdead
    cases step_kind hstep with
    | @run tid i p r hp hr =>
      by_cases htid : tid' = tid
      · rw [htid, resume_self] at hp'
        rcases advance_pending hr hp' hdead with hold | ⟨k, hk⟩
        · exact h.cleans hp hstored dead hold
        · exact (hmem.tombstone hstored hk).2
      · have hbound : ((s.resume tid p i r).threads.lookup tid').bind
            (fun p => some p.pending) = (s.threads.lookup tid').bind fun p => some p.pending :=
          resume_other _ (fun _ _ _ => rfl) s htid p i r
        rw [hp'] at hbound
        obtain ⟨p₀, hp₀, heq⟩ := Option.bind_eq_some_iff.mp hbound.symm
        rw [← Option.some.inj heq] at hdead
        exact h.cleans hp₀ hstored dead hdead
    | other _ _ _ hentered =>
      rcases hentered.lookup hp' with hold | hentry
      · exact h.cleans hold hstored dead hdead
      · rw [entry_pending hentry] at hdead
        cases hdead
    | restart => cases hl

theorem Sound.restart {granted : Int} (h : Sound s)
    (hstep : s.step (.restart granted now) = some t) : Sound t := by
  obtain ⟨hstored, hload, hdisk, hthreads⟩ := restart_step hstep
  refine ⟨?_, ?_, ?_, ?_⟩
  · obtain ⟨-, hempty⟩ | ⟨snap, hsnap, hload⟩ := hload
    · rw [hempty]
      exact .empty
    · obtain ⟨-, saved, src, hsrc, rfl⟩ := h.disk hsnap
      exact hsrc.load hstored hload
  · rw [hdisk]
    exact h.disk
  · simp [hthreads]
  · simp [hthreads]

theorem sound_reachable (hs : (machine cfg).Reach s) : Sound s := by
  refine machine_invariant (I := Sound) ?_ ?_ ?_ hs
  · exact ⟨.empty, fun h => (nomatch h), fun h => (nomatch h), fun h => (nomatch h)⟩
  · exact fun s l t hs h _ hl hstep => h.step (cacheInv_reachable hs) hl hstep
  · exact fun s t granted now _ h _ hstep => h.restart hstep

end R1s.Allocator
