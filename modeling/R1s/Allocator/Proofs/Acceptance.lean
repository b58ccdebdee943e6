/-
Which responses the receiving side accepts. Every response but a few kinds
passes `ValidateEnvelope`: the tunnel errors carry a code the validator
does not know, the detail of a placement conflict can be longer than it
allows, and an offer that was assigned is sent again after its expiry.
The rest of the conditions is what the outside must give: clocks that a
timestamp can carry, generated IDs that are not blank, a log chunk that is
the range it claims to be.

# The invariant

A response is built of records, so what makes it valid is kept of the
records (`Shown`), in memory and in the store.
-/
import R1s.Allocator.Proofs.Holding
import R1s.Allocator.Proofs.Tunnels
import R1s.Allocator.Proofs.Wellformed

namespace R1s.Allocator

open Option (some)

variable {cfg : Config} {i : Input}

-- ===== the condition

/-- What a section must meet for its responses to be accepted. -/
structure Presentable (s : System cfg) (l : Label cfg) : Prop where
  clock : Stampable l.input.now ∧ Stampable l.input.later
  ids : (l.input.id ≠ [] → blank l.input.id = false) ∧
    (l.input.id2 ≠ [] → blank l.input.id2 = false)
  request : ∀ e q, s.point l = some (.handling e) → e.1.payload = some (.executionRequest q) →
    Stampable (l.input.now + cfg.offerTTL) ∧
      (placementMatches q.constraints cfg.node = false →
        (Sentinel.incompatible.wrap
          (placementConflictDetails q.constraints cfg.node)).text.length ≤ 256) ∧
      ∀ r, s.world.mem.requested e.1 q = some r → r.status = .assigned →
        l.input.now < asTime r.offer.expiresAt
  assign : ∀ e q r, s.point l = some (.handling e) →
    e.1.payload = some (.executionAssign q) → s.world.mem.offers.lookup q.offerID = some r →
      placementMatches r.request.constraints cfg.node = false →
        (Sentinel.incompatible.wrap
          (placementConflictDetails r.request.constraints cfg.node)).text.length ≤ 256
  renew : ∀ e q, s.point l = some (.handling e) →
    e.1.payload = some (.executionLeaseRenew q) →
      Stampable (l.input.now + ((q.leaseDuration).map PbDuration.asDuration).getD 0)
  logs : ∀ e q, s.point l = some (.logging e q) →
    l.input.chunk.data.length ≤ maxLogBytes ∧
      l.input.chunk.nextOffset = q.offset + l.input.chunk.data.length
  tunnel : ∀ e q now, s.point l = some (.binding e q now) → cfg.tunnelEnabled = true ∧
    cfg.tunnelEndpoint.address ≠ [] ∧ cfg.tunnelEndpoint.pubKey ≠ []

-- ===== error responses

/-- The validator accepts the command error of `err`. -/
def GoErr.showable (err : GoErr) : Prop :=
  errorCodes.contains (commandError err).code = true ∧ (commandError err).detail.length ≤ 256

variable {err : GoErr}

theorem showable_of_plain (h : err.plain = true) : err.showable := by
  simp only [GoErr.plain, Bool.and_eq_true, Bool.not_eq_true'] at h
  obtain ⟨⟨hincompatible, hdisabled⟩, hnoEndpoint⟩ := h
  -- Every class but the three has a code of the list and a short text.
  unfold GoErr.showable
  fun_cases commandError err
  case case5 h => exact absurd h (by simp [hincompatible])
  case case8 h => exact absurd h (by simp [hdisabled])
  case case9 h => exact absurd h (by simp [hnoEndpoint])
  all_goals exact ⟨by decide, by decide⟩

theorem showable_incompatible {detail : GoString}
    (h : (Sentinel.incompatible.wrap detail).text.length ≤ 256) :
    (Sentinel.incompatible.wrap detail).showable :=
  ⟨rfl, h⟩

variable {l : Label cfg} {p : Pc cfg} {s : System cfg}

/-- Under the condition every error a section leaves can be shown. -/
theorem Presentable.showable (h : Presentable s l) (hp : s.point l = some p)
    (herr : Problem cfg p s.world err) : err.showable := by
  cases herr with
  | plain hplain => exact showable_of_plain hplain
  | requested hpc hq hmatch =>
    rw [hpc] at hp
    exact showable_incompatible ((h.request _ _ hp hq).2.1 hmatch)
  | assigned hpc hq hr hmatch =>
    rw [hpc] at hp
    exact showable_incompatible (h.assign _ _ _ hp hq hr hmatch)
  | disabled hpc hoff =>
    rw [hpc] at hp
    rw [(h.tunnel _ _ _ hp).1] at hoff
    cases hoff
  | unready hpc hempty =>
    rw [hpc] at hp
    obtain ⟨-, haddress, hkey⟩ := h.tunnel _ _ _ hp
    rcases hempty with hempty | hempty
    · exact absurd hempty haddress
    · exact absurd hempty hkey

-- ===== the records

/-- The offer can be sent again, expiry aside. -/
structure ShownOffer (cfg : Config) (r : OfferRecord) : Prop where
  id : blank r.offer.offerID = false
  expires : ∃ t, r.offer.expiresAt = some (Timestamp.new t) ∧ Stampable t
  node : r.offer.node = cfg.node

structure Shown (cfg : Config) (m : Mem) : Prop where
  clock : Stampable m.highWater
  offer : ∀ {o r}, m.offers.lookup o = some r → ShownOffer cfg r
  occurred : ∀ {k x}, m.executions.lookup k = some x → Stampable x.occurredAt

theorem SameOffer.shown {r r' : OfferRecord} (h : SameOffer r r') (hr : ShownOffer cfg r) :
    ShownOffer cfg r' := by
  obtain ⟨hid, hexpires, hnode⟩ := hr
  constructor <;> rw [h.offer] <;> assumption

variable {m m' : Mem}

theorem Shown.sameOffers (h : Shown cfg m) (hclock : m'.highWater = m.highWater)
    (hsame : SameOffers m m')
    (hoccurred : ∀ {k x}, m'.executions.lookup k = some x → Stampable x.occurredAt) :
    Shown cfg m' := by
  refine ⟨by rw [hclock]; exact h.clock, ?_, hoccurred⟩
  intro o r' hr'
  obtain ⟨r, hr, hrr'⟩ := hsame.before hr'
  exact hrr'.shown (h.offer hr)

variable {x : ExecutionRecord}

theorem Shown.setExecution {k : GoString} (h : Shown cfg m) (hclock : m'.highWater = m.highWater)
    (hsame : SameOffers m m') (hexecutions : m'.executions = m.executions.insert k x)
    (hx : Stampable x.occurredAt) : Shown cfg m' := by
  refine h.sameOffers hclock hsame ?_
  intro k' x' hx'
  rw [hexecutions, AList.lookup_insert_if] at hx'
  split at hx'
  · cases hx'
    exact hx
  · exact h.occurred hx'

theorem stampable_max {a b : Int} (ha : Stampable a) (hb : Stampable b) : Stampable (max a b) := by
  unfold Stampable at ha hb ⊢
  omega

variable {now : Int}

theorem Shown.swept (h : Shown cfg m) (hnow : Stampable now) : Shown cfg (swept cfg now m) := by
  refine ⟨?_, ?_, ?_⟩
  · rw [swept_highWater]
    exact stampable_max h.clock hnow
  · intro o r hr
    rcases swept_at cfg now m o with ⟨hkept, -⟩ | ⟨r', -, -, hgone, -⟩
    · rw [hkept] at hr
      obtain ⟨r₀, hr₀, hsame⟩ := (sameOffers_sweepReady cfg now m).before hr
      exact hsame.shown (h.offer hr₀)
    · rw [hgone] at hr
      cases hr
  · intro k x hx
    exact h.occurred (swept_executions hx)

/-- What the condition says of the section an update belongs to. -/
structure Marked (cfg : Config) (pc : Option (Pc cfg)) (i : Input) : Prop where
  clock : Stampable i.now
  id : i.id ≠ [] → blank i.id = false
  offer : ∀ e q, pc = some (.handling e) → e.1.payload = some (.executionRequest q) →
    Stampable (i.now + cfg.offerTTL)

theorem Update.shown {pc : Option (Pc cfg)} {i : Input} (hu : Update cfg pc i m m')
    (hmarked : Marked cfg pc i) (h : Shown cfg m) : Shown cfg m' := by
  cases hu with
  | clock => exact ⟨stampable_max h.clock hmarked.clock, h.offer, h.occurred⟩
  | expired now =>
    exact h.sameOffers rfl (untouched_expireOffers now m).offers h.occurred
  | minted hpc hq hnew herr hid hfree hsaved =>
    refine ⟨h.clock, ?_, h.occurred⟩
    intro o r hr
    rw [AList.lookup_insert_if] at hr
    split at hr
    · cases hr
      exact ⟨hmarked.id hid, ⟨_, rfl, hmarked.offer _ _ hpc hq⟩, rfl⟩
    · exact h.offer hr
  | assigned hpc hq hr =>
    exact h.setExecution rfl (.insert rfl hr ⟨rfl, rfl, rfl⟩) rfl hmarked.clock
  | unassigned hr =>
    exact h.sameOffers rfl (.insert rfl hr ⟨rfl, rfl, rfl⟩) h.occurred
  | freed hr => exact h.sameOffers rfl (.insert rfl hr ⟨rfl, rfl, rfl⟩) h.occurred
  | unfreed hr => exact h.sameOffers rfl (.insert rfl hr (.refl _)) h.occurred
  | reworked hx hwork =>
    refine h.setExecution rfl (.of_eq rfl) rfl ?_
    rcases hwork.occurredAt with hsame | hnow | hclock
    · rw [hsame]
      exact h.occurred hx
    · rw [hnow]
      exact hmarked.clock
    · rw [hclock]
      exact h.clock
  | finished hx => exact h.setExecution rfl (.of_eq rfl) rfl hmarked.clock
  | unfinished hx => exact h.setExecution rfl (.of_eq rfl) rfl (h.occurred hx)
  | swept hpc => exact h.swept hmarked.clock
  | cached | unindexed | cleaned | bound | session =>
    exact ⟨h.clock, h.offer, h.occurred⟩

-- ===== the store

structure ShownSnapshot (cfg : Config) (snap : Snapshot) : Prop where
  clock : Stampable snap.highWater
  offer : ∀ r ∈ snap.offers, ShownOffer cfg r
  occurred : ∀ x ∈ snap.executions, Stampable x.occurredAt

theorem Shown.snapshot (h : Shown cfg m) (saved : SaveIn) :
    ShownSnapshot cfg (snapshot cfg saved m) := by
  refine ⟨h.clock, ?_, ?_⟩
  · intro r hr
    obtain ⟨o, r₀, hr₀, rfl⟩ := mem_snapshot_offers.mp hr
    obtain ⟨hid, hexpires, hnode⟩ := h.offer hr₀
    exact ⟨hid, hexpires, hnode⟩
  · intro x hx
    obtain ⟨k, x₀, hx₀, rfl⟩ := mem_snapshot_executions.mp hx
    show Stampable x₀.occurredAt
    exact h.occurred hx₀

theorem ShownSnapshot.load {granted : Int} {snap : Snapshot} (h : ShownSnapshot cfg snap)
    (hload : load cfg granted now snap = .ok m) : Shown cfg m := by
  obtain ⟨index, executions, used, hindex, hexecs, -, rfl⟩ := load_ok hload
  have hbase : Shown cfg (loaded snap index executions) := by
    refine ⟨h.clock, ?_, ?_⟩
    · intro o r hr
      exact h.offer r ((lookup_loadOffers hindex o r).mp hr).1
    · intro k x hx
      obtain ⟨y, hy, -, -, -, rfl⟩ := (lookup_loadExecutions hexecs k x).mp hx
      exact h.occurred y hy
  have hexpired : Shown cfg (expireOffers now (loaded snap index executions)) :=
    hbase.sameOffers rfl (untouched_expireOffers now _).offers hbase.occurred
  exact ⟨hexpired.clock, hexpired.offer, hexpired.occurred⟩

-- ===== the calls

/-- The payload a call goes on with outside the lock, and the time it will
answer with. -/
def Pc.posing : Pc cfg → Option (Inbound cfg × Payload × Int)
  | .logging e q => some (e, .executionLogsRequest q, 0)
  | .binding e q now => some (e, .executionTunnelOpen q, now)
  | _ => none

variable {e : Inbound cfg} {posed : Inbound cfg × Payload × Int} {w : World}

theorem receive_posing (h : (receive i e w).2 = .goto p) (hp : p.posing = some posed) :
    posed.1.1.payload = some posed.2.1 ∧ posed.2.2 = 0 := by
  unfold receive at h
  dsimp only at h
  split at h
  · cases h
  split at h
  next hq =>
    cases h
    cases hp
    exact ⟨hq, rfl⟩
  split at h
  · cases h
    cases hp
  · cases h

theorem tunnelCheck_now {e : Envelope} {q q' : ExecutionTunnelOpen}
    (h : tunnelCheck i e q w = .bind q' now) : q' = q ∧ now = i.now := by
  unfold tunnelCheck at h
  split at h
  · cases h
  split at h
  · cases h
  split at h
  · cases h
  · cases h
    exact ⟨rfl, rfl⟩

theorem unposed {o : Outcome} (ho : o.binds = false) (h : o.next e = .goto p) :
    p.posing ≠ some posed := by
  cases o with
  | bind q now => cases ho
  | reply | start | stop =>
    cases h
    exact nofun

variable {w' : World}

theorem handle_posing (h : handle i e w = some (w', .goto p)) (hp : p.posing = some posed) :
    posed.1.1.payload = some posed.2.1 ∧ posed.2.2 = i.now := by
  unfold handle at h
  split at h
  case h_8 => cases h
  case h_2 q hq =>
    have hnext := congrArg Prod.snd (some.inj h)
    exact absurd hp (unposed (assignBegin_effect hq i w).2 hnext)
  case h_3 q hq =>
    have hnext := congrArg Prod.snd (some.inj h)
    exact absurd hp (unposed (cancelBegin_effect hq i w).2 hnext)
  case h_7 q hq =>
    have hnext : (tunnelCheck i e.1 q w).next e = .goto p :=
      congrArg Prod.snd (some.inj h)
    cases hout : tunnelCheck i e.1 q w with
    | bind q' now =>
      obtain ⟨rfl, rfl⟩ := tunnelCheck_now hout
      rw [hout] at hnext
      cases hnext
      cases hp
      exact ⟨hq, rfl⟩
    | reply | start | stop =>
      rw [hout] at hnext
      cases hnext
      cases hp
  all_goals
    have hnext := congrArg Prod.snd (some.inj h)
    cases hnext
    cases hp

theorem advance_posing {tid : Nat} {pc : Pc cfg} (h : advance tid pc i w = some (w', .goto p))
    (hp : p.posing = some posed) :
    posed.1.1.payload = some posed.2.1 ∧ (posed.2.2 = 0 ∨ posed.2.2 = i.now) := by
  cases advance_succ h
  case logging =>
    obtain ⟨hq, hnow⟩ := receive_posing (congrArg Prod.snd (some.inj h)) hp
    exact ⟨hq, .inl hnow⟩
  case binding =>
    obtain ⟨hq, hnow⟩ := handle_posing h hp
    exact ⟨hq, .inr hnow⟩
  all_goals cases hp

-- ===== the responses

/-- The receiving side takes the envelope. -/
def Accepted (cfg : Config) (e : Envelope) : Prop := validateEnvelope cfg.sum256 e = none

theorem validTimestamp_new {field : String} {t : Int} (h : Stampable t) :
    validTimestamp field (some (Timestamp.new t)) = none := by
  unfold validTimestamp
  dsimp only
  rw [Timestamp.checkValid_new.mpr h]

variable {correlationID id : GoString}

theorem accepted_envelope {payload : Payload} (hid : blank id = false) (hnow : Stampable now)
    (hpayload : validatePayload cfg.sum256 (envelope cfg id correlationID now payload)
      (some payload) = none) :
    Accepted cfg (envelope cfg id correlationID now payload) := by
  refine firstError_eq_none.mpr ?_
  simp only [List.mem_cons, List.not_mem_nil, or_false, forall_eq_or_imp, forall_eq]
  refine ⟨checkText_eq_none.mpr hid, ?_, validTimestamp_new hnow, hpayload⟩
  rw [if_neg]
  exact cfg.identity_ne

theorem hexDigit_bounds {n : UInt8} (h : n < 16) : 0x30 ≤ hexDigit n ∧ hexDigit n ≤ 0x66 := by
  unfold hexDigit
  split <;>
    simp only [UInt8.le_iff_toNat_le, UInt8.lt_iff_toNat_lt, UInt8.toNat_add,
      UInt8.reduceToNat] at * <;>
    omega

theorem hexDigit_not_space {n : UInt8} (rest : GoString) (h : n < 16) :
    dropSpace (hexDigit n :: rest) = none := by
  obtain ⟨hlow, hhigh⟩ := hexDigit_bounds h
  generalize hexDigit n = d at hlow hhigh
  unfold dropSpace
  split <;> first | rfl | simp_all

theorem randomID_not_blank (random : Random) : blank (randomID random) = false := by
  obtain ⟨b, hb⟩ := random
  cases b with
  | nil => cases hb
  | cons first rest =>
    have hdigit : first / 16 < 16 := by
      rw [UInt8.lt_iff_toNat_lt, UInt8.toNat_div]
      have hfirst := first.toNat_lt
      change first.toNat / 16 < 16
      omega
    unfold blank randomID hexEncode
    simp only [List.flatMap_cons, List.cons_append, List.nil_append, List.length_cons]
    rw [blankFuel]
    · rw [hexDigit_not_space _ hdigit]
    · exact nofun

theorem messageID_of_valid (e : Inbound cfg) : blank e.1.messageID = false :=
  checkText_eq_none.mp (firstError_eq_none.mp e.2 _ List.mem_cons_self)

/-- The payload of a command is valid. -/
theorem payload_of_valid (e : Inbound cfg) {payload : Payload} (h : e.1.payload = some payload) :
    validatePayload cfg.sum256 e.1 (some payload) = none := by
  have hvalid := validatePayload_of_valid e.2
  rwa [h] at hvalid

theorem accepted_error (random : Random) (hnow : Stampable now) (herr : err.showable) :
    Accepted cfg (envelope cfg (randomID random) e.1.messageID now
      (.commandError (commandError err))) := by
  refine accepted_envelope (randomID_not_blank random) hnow ?_
  show validateError _ _ = none
  unfold validateError
  rw [if_neg]
  show ¬(!errorCodes.contains (commandError err).code || blank e.1.messageID ||
    decide (256 < (commandError err).detail.length)) = true
  rw [herr.1, messageID_of_valid]
  simpa using herr.2

section Answers

variable (hid : blank id = false) (hnow : Stampable now)
include hid hnow

theorem accepted_offer {o : GoString} {r : OfferRecord} (hshown : ShownOffer cfg r)
    (hproper : ProperOffer cfg o r) (htime : now < asTime r.offer.expiresAt) :
    Accepted cfg (envelope cfg id correlationID now (.executionOffer r.offer)) := by
  obtain ⟨t, hexpires, ht⟩ := hshown.expires
  refine accepted_envelope hid hnow ?_
  refine firstError_eq_none.mpr ?_
  simp only [List.mem_cons, List.not_mem_nil, or_false, forall_eq_or_imp, forall_eq]
  refine ⟨checkText_eq_none.mpr hshown.id, checkText_eq_none.mpr ?_,
    checkText_eq_none.mpr hproper.resourceClass, ?_, ?_, ?_⟩
  · rw [hproper.request]
    exact hproper.requestID
  · rw [hexpires]
    exact validTimestamp_new ht
  · show (if asTime (some (Timestamp.new now)) < _ then none else _) = _
    rw [asTime_some, Timestamp.asTime_new, if_pos htime]
  · rw [hshown.node]
    exact cfg.node_valid

theorem accepted_state (hx : ProperExecution cfg x) (hoccurred : Stampable x.occurredAt) :
    Accepted cfg (envelope cfg id correlationID now (.executionState (stateFromRecord x))) := by
  refine accepted_envelope hid hnow ?_
  refine firstError_eq_none.mpr ?_
  simp only [List.mem_cons, List.not_mem_nil, or_false, forall_eq_or_imp, forall_eq]
  refine ⟨checkText_eq_none.mpr hx.id, if_neg hx.phase, validTimestamp_new hoccurred⟩

theorem accepted_release {q : ExecutionOfferRelease} {status : OfferStatus}
    (hq : e.1.payload = some (.executionOfferRelease q)) :
    Accepted cfg (envelope cfg id e.1.messageID now
      (.executionOfferReleaseAck ⟨q.requestID, q.offerID, releaseOutcome status⟩)) := by
  have hvalid : validateOfferRelease q = none := payload_of_valid e hq
  unfold validateOfferRelease at hvalid
  split at hvalid
  · cases hvalid
  rename_i hnamed
  refine accepted_envelope hid hnow ?_
  show validateOfferReleaseAck _ _ = none
  unfold validateOfferReleaseAck
  rw [if_neg, if_neg hnamed, if_neg]
  · cases status <;> exact nofun
  · show ¬blank e.1.messageID = true
    rw [messageID_of_valid]
    exact nofun

theorem accepted_renewal (hx : ProperExecution cfg x) (hlease : Stampable x.leaseUntil) :
    Accepted cfg (envelope cfg id correlationID now
      (.executionLeaseRenewAck ⟨x.id, some (Timestamp.new x.leaseUntil)⟩)) := by
  refine accepted_envelope hid hnow ?_
  refine firstError_eq_none.mpr ?_
  simp only [List.mem_cons, List.not_mem_nil, or_false, forall_eq_or_imp, forall_eq]
  exact ⟨checkText_eq_none.mpr hx.id, validTimestamp_new hlease⟩

theorem accepted_tunnel {q : ExecutionTunnelOpen} {targets : List Nat}
    (hq : e.1.payload = some (.executionTunnelOpen q)) :
    Accepted cfg (envelope cfg id correlationID now
      (.executionTunnelOpenAck
        ⟨q.executionID, cfg.tunnelEndpoint.address, cfg.tunnelEndpoint.pubKey, targets⟩)) := by
  have hvalid : validateTunnelOpen q = none := payload_of_valid e hq
  have hnamed := firstError_eq_none.mp hvalid _ List.mem_cons_self
  refine accepted_envelope hid hnow ?_
  exact checkText_eq_none.mpr (checkText_eq_none.mp hnamed)

end Answers

/-- A chunk that is the range it claims to be. -/
theorem validateLogsResponse_chunk {q : ExecutionLogsRequest} {chunk : LogChunk} {r : Envelope}
    (hr : r.correlationID = e.1.messageID) (hq : e.1.payload = some (.executionLogsRequest q))
    (hsize : chunk.data.length ≤ maxLogBytes)
    (hrange : chunk.nextOffset = q.offset + chunk.data.length) :
    validateLogsResponse cfg.sum256 r
      { executionID := q.executionID, stream := q.stream, offset := q.offset,
        data := chunk.data, nextOffset := chunk.nextOffset, eof := chunk.eof,
        truncated := chunk.truncated, sha256 := cfg.sum256 chunk.data } = none := by
  have hvalid : validateLogsRequest q = none := payload_of_valid e hq
  unfold validateLogsRequest at hvalid
  split at hvalid
  · cases hvalid
  rename_i hfields
  simp only [Bool.or_eq_true, Bool.not_eq_true', decide_eq_true_eq, not_or,
    Bool.not_eq_true, Bool.not_eq_false] at hfields
  obtain ⟨⟨⟨hexecution, hstream⟩, -⟩, -⟩ := hfields
  unfold validateLogsResponse
  have hmessage := ne_nil_of_not_blank (messageID_of_valid e)
  have hnamed := ne_nil_of_not_blank hexecution
  rw [if_neg, if_pos rfl]
  simp only [Bool.or_eq_true, Bool.not_eq_true', decide_eq_true_eq, bne_iff_ne, not_or,
    Bool.not_eq_false, hstream, hrange, hr]
  refine ⟨⟨⟨⟨⟨hmessage, hnamed⟩, trivial⟩, ?_⟩, ?_⟩, ?_⟩ <;> omega

theorem accepted_logs {q : ExecutionLogsRequest} {chunk : LogChunk} (random : Random)
    (hnow : Stampable now) (hq : e.1.payload = some (.executionLogsRequest q))
    (hsize : chunk.data.length ≤ maxLogBytes)
    (hrange : chunk.nextOffset = q.offset + chunk.data.length) :
    Accepted cfg (envelope cfg (randomID random) e.1.messageID now
      (.executionLogsResponse
        { executionID := q.executionID, stream := q.stream, offset := q.offset,
          data := chunk.data, nextOffset := chunk.nextOffset, eof := chunk.eof,
          truncated := chunk.truncated, sha256 := cfg.sum256 chunk.data })) :=
  accepted_envelope (randomID_not_blank random) hnow
    (validateLogsResponse_chunk rfl hq hsize hrange)

/-- What a section builds under the condition is accepted. -/
theorem Presentable.accepted {e : Envelope} (h : Presentable s l) (hp : s.point l = some p)
    (hshown : Shown cfg w'.mem) (hproper : Wellformed cfg w'.mem)
    (hleft : ∀ err, p.left = some err → err.showable)
    (hposed : ∀ posed, p.posing = some posed →
      posed.1.1.payload = some posed.2.1 ∧ Stampable posed.2.2)
    (hmade : Made cfg p l.input s.world w' e) : Accepted cfg e := by
  obtain ⟨hnow, hlater⟩ := h.clock
  cases hmade with
  | refused he ht herr =>
    refine accepted_error l.input.random ?_ ?_
    · rcases ht with rfl | rfl <;> assumption
    · rcases herr with hproblem | ⟨reply, hpc, hreply⟩
      · exact h.showable hp hproblem
      · refine hleft _ ?_
        rw [hpc]
        exact hreply
  | offered hpc hq hid hr htime =>
    rw [hpc] at hp
    refine accepted_offer ?_ hnow (hshown.offer hr) (hproper.offer hr) ?_
    · obtain ⟨hgenerated, hne⟩ := hid
      rcases hgenerated with rfl | rfl
      · exact h.ids.1 hne
      · exact h.ids.2 hne
    · rcases htime with ⟨hrequested, hassigned⟩ | hbefore
      · exact (h.request _ _ hp hq).2.2 _ hrequested hassigned
      · exact hbefore
  | told he ht hid hx =>
    refine accepted_state (h.ids.1 hid) ?_ (hproper.execution hx) (hshown.occurred hx)
    rcases ht with rfl | rfl <;> assumption
  | released hpc hq hid => exact accepted_release (h.ids.1 hid) hnow hq
  | renewed hpc hq hid hx hlease =>
    rw [hpc] at hp
    refine accepted_renewal (h.ids.1 hid) hnow (hproper.execution hx) ?_
    rw [hlease]
    exact h.renew _ _ hp hq
  | logged hpc =>
    subst hpc
    obtain ⟨hsize, hrange⟩ := h.logs _ _ hp
    exact accepted_logs l.input.random hnow (hposed _ rfl).1 hsize hrange
  | bound hpc hid =>
    subst hpc
    obtain ⟨hq, hbound⟩ := hposed _ rfl
    exact accepted_tunnel (h.ids.1 hid) hbound hq

-- ===== the runs

structure Presenting (s : System cfg) : Prop where
  mem : Shown cfg s.world.mem
  disk : ∀ {snap}, s.world.disk = some snap → ShownSnapshot cfg snap
  posed : ∀ {tid posed}, (s.threads.lookup tid).bind Pc.posing = some posed →
    posed.1.1.payload = some posed.2.1 ∧ Stampable posed.2.2
  holding : Holding (Accepted cfg) GoErr.showable s

theorem stampable_zero : Stampable 0 := by decide

theorem Presenting.initial : Presenting (System.initial cfg) where
  mem := ⟨stampable_zero, fun h => (nomatch h), fun h => (nomatch h)⟩
  disk h := nomatch h
  posed h := nomatch h
  holding := .initial

theorem Presentable.marked (h : Presentable s l) : Marked cfg (s.point l) l.input :=
  ⟨h.clock.1, h.ids.1, fun e q hp hq => (h.request e q hp hq).1⟩

variable {t : System cfg}

/-- The records and the calls after a step of one process. -/
theorem Presenting.stored (h : Presenting s) (hok : Presentable s l) (hl : l.isRestart = false)
    (hstep : s.step l = some t) :
    Shown cfg t.world.mem ∧ ∀ {snap}, t.world.disk = some snap → ShownSnapshot cfg snap := by
  have hchanges := step_changes hl hstep
  have hmem : Shown cfg t.world.mem :=
    hchanges.invariant (fun _ _ hu hm => hu.shown hok.marked hm) h.mem
  refine ⟨hmem, ?_⟩
  intro snap hsnap
  rcases hchanges.disk with hsame | ⟨-, saved, hsaved⟩
  · rw [hsame] at hsnap
    exact h.disk hsnap
  · obtain rfl := some.inj (hsaved.symm.trans hsnap)
    exact hmem.snapshot saved

theorem Presenting.calls (h : Presenting s) (hok : Presentable s l) (hl : l.isRestart = false)
    (hstep : s.step l = some t) {tid' : Nat}
    (hposed : (t.threads.lookup tid').bind Pc.posing = some posed) :
    posed.1.1.payload = some posed.2.1 ∧ Stampable posed.2.2 := by
  cases step_kind hstep with
  | restart => cases hl
  | @run _ _ _ r hp hr =>
    obtain ⟨w', next⟩ := r
    rcases resume_bind Pc.posing (fun _ _ _ => rfl) hposed with ⟨-, hold⟩ | ⟨-, p', hgoto, hnew⟩
    · exact h.posed hold
    · dsimp only at hgoto
      subst hgoto
      obtain ⟨hpayload, htime⟩ := advance_posing hr hnew
      refine ⟨hpayload, ?_⟩
      rcases htime with hzero | hnow
      · rw [hzero]
        exact stampable_zero
      · rw [hnow]
        exact hok.clock.1
  | other _ _ _ hentered =>
    refine h.posed (hentered.bind ?_ hposed)
    intro p hentry
    cases p <;> first | rfl | cases hentry

theorem Presenting.restart {granted : Int} (h : Presenting s)
    (hstep : s.step (.restart granted now) = some t) : Presenting t := by
  obtain ⟨-, hload, hdisk, hthreads⟩ := restart_step hstep
  refine ⟨?_, ?_, ?_, h.holding.restart hstep⟩
  · obtain ⟨-, hmem⟩ | ⟨snap, hsnap, hload⟩ := hload
    · rw [hmem]
      exact Presenting.initial.mem
    · exact (h.disk hsnap).load hload
  · rw [hdisk]
    exact h.disk
  · simp [hthreads]

/-- A step that meets the condition returns accepted responses only. -/
theorem Presenting.step (h : Presenting s) (hsound : Sound t) (hok : Presentable s l)
    (hstep : s.step l = some t) : Presenting t ∧ ∀ e ∈ s.returned l, Accepted cfg e := by
  by_cases hl : l.isRestart = false
  · obtain ⟨hmem, hdisk⟩ := h.stored hok hl hstep
    obtain ⟨hholding, hreturned⟩ := h.holding.step hstep fun {tid i p r} heq hp hr => by
      subst heq
      have hworld : t.world = r.1 := by
        obtain ⟨p', r', hp', hr', rfl⟩ := run_step hstep
        obtain rfl := some.inj (hp.symm.trans hp')
        obtain rfl := some.inj (hr.symm.trans hr')
        rfl
      refine ⟨?_, fun err herr => hok.showable hp herr⟩
      intro e _ hmade
      refine hok.accepted hp (hworld ▸ hmem) (hworld ▸ hsound.mem)
        (fun err => h.holding.left hp err) ?_ hmade
      intro posed hposed
      have hthread : (s.threads.lookup tid).bind Pc.posing = some posed := by
        rw [hp]
        exact hposed
      exact h.posed hthread
    exact ⟨⟨hmem, hdisk, fun hposed => h.calls hok hl hstep hposed, hholding⟩, hreturned⟩
  · obtain ⟨granted, now, rfl⟩ := l.restarts hl
    refine ⟨h.restart hstep, ?_⟩
    intro e he
    cases he

theorem presenting_reachable (hs : (machine cfg).ReachWhen Presentable s) : Presenting s := by
  refine hs.invariant_with (J := Sound) (I := Presenting)
    (fun s hs => sound_reachable (hs.mono fun _ _ _ => trivial)) ?_ ?_
  · intro s h0
    cases h0
    exact .initial
  · intro s l t _ hsound h hok hstep
    exact (h.step hsound hok hstep).1

/-- In a run whose every section meets the condition, whatever `Handle`
returns is accepted by the side that receives it. -/
theorem responses_are_accepted (cfg : Config) {s t : System cfg} {l : Label cfg}
    (hs : (machine cfg).ReachWhen Presentable s) (hok : Presentable s l)
    (hstep : s.step l = some t) :
    ∀ e ∈ s.returned l, validateEnvelope cfg.sum256 e = none := by
  have ht : (machine cfg).ReachWhen Presentable t := .step hs hok hstep
  have hsound : Sound t := sound_reachable (ht.mono fun _ _ _ => trivial)
  exact ((presenting_reachable hs).step hsound hok hstep).2

-- ===== samples

/-- "x" runs and its owner asks for a tunnel, which the allocator has
disabled; the next section answers. -/
def disabledRun : List (Label oneSlot) :=
  [ .call 0 requestCommand, .run 0 { now := epoch }, .run 0 { now := epoch },
    .run 0 { now := epoch, id := text "o", id2 := text "a1" }, .run 0 { now := epoch },
    .call 1 assignCommand, .run 1 { now := epoch }, .run 1 { now := epoch },
    .run 1 { now := epoch }, .run 1 { now := epoch, id := text "a2" }, .run 1 { now := epoch },
    .call 2 ⟨tunnelCommand.1, tunnelCommand.2⟩, .run 2 { now := epoch },
    .run 2 { now := epoch }, .run 2 { now := epoch }, .run 2 { now := epoch } ]

/-- The error the client gets has a code its validator does not know. -/
theorem tunnel_error_is_rejected :
    ∃ s, (machine oneSlot).Reach s ∧
      (s.step (.run 2 { now := epoch })).isSome = true ∧
      ∃ e ∈ s.returned (.run 2 { now := epoch }),
        validateEnvelope oneSlot.sum256 e
          = invalid "command_error" "requires a known code, correlation, and bounded detail" := by
  obtain ⟨s, hs, hp⟩ := (machine oneSlot).exists_reach rfl disabledRun
    (fun s => (s.step (.run 2 { now := epoch })).isSome
      && (s.returned (.run 2 { now := epoch })).any fun e =>
        decide (validateEnvelope oneSlot.sum256 e
          = invalid "command_error" "requires a known code, correlation, and bounded detail"))
    (by decide +kernel)
  simp only [Bool.and_eq_true, List.any_eq_true, decide_eq_true_eq] at hp
  exact ⟨s, hs, hp⟩

/-- A section of a request that can be offered for the first time. -/
def plainRequest (s : System cfg) (l : Label cfg) : Bool :=
  decide (Stampable l.input.now ∧ Stampable l.input.later ∧
    (l.input.id ≠ [] → blank l.input.id = false) ∧
    (l.input.id2 ≠ [] → blank l.input.id2 = false)) &&
  match s.point l with
  | some (.handling e) =>
    match e.1.payload with
    | some (.executionRequest q) =>
      decide (Stampable (l.input.now + cfg.offerTTL))
        && placementMatches q.constraints cfg.node && (s.world.mem.requested e.1 q).isNone
    | _ => false
  | some (.logging _ _) | some (.binding _ _ _) => false
  | _ => true

theorem presentable_of_plainRequest (s : System cfg) (l : Label cfg)
    (h : plainRequest s l = true) : Presentable s l := by
  obtain ⟨houtside, hpoint⟩ := Bool.and_eq_true_iff.mp h
  obtain ⟨hnow, hlater, hid, hid2⟩ := of_decide_eq_true houtside
  refine ⟨⟨hnow, hlater⟩, ⟨hid, hid2⟩, ?_, ?_, ?_, ?_, ?_⟩
  · intro e q hp hq
    rw [hp] at hpoint
    dsimp only at hpoint
    rw [hq] at hpoint
    simp only [Bool.and_eq_true, decide_eq_true_eq, Option.isNone_iff_eq_none] at hpoint
    obtain ⟨⟨hexpiry, hmatch⟩, hnew⟩ := hpoint
    refine ⟨hexpiry, ?_, ?_⟩
    · intro hcontra
      rw [hmatch] at hcontra
      cases hcontra
    · intro r hr
      rw [hnew] at hr
      cases hr
  all_goals
    intros
    simp_all

theorem offer_is_accepted :
    ∃ s, (machine oneSlot).ReachWhen Presentable s ∧
      s.returned (.run 0 { now := epoch }) ≠ [] ∧
      ∀ e ∈ s.returned (.run 0 { now := epoch }), validateEnvelope oneSlot.sum256 e = none := by
  obtain ⟨s, hs, hp⟩ := (machine oneSlot).exists_reachWhen (fun s l => plainRequest s l = true)
    rfl
    [ .call 0 requestCommand, .run 0 { now := epoch }, .run 0 { now := epoch },
      .run 0 { now := epoch, id := text "o", id2 := text "a1" } ]
    (fun s => plainRequest s (.run 0 { now := epoch })
      && (s.step (.run 0 { now := epoch })).isSome
      && !(s.returned (.run 0 { now := epoch })).isEmpty)
    (by decide +kernel)
  simp only [Bool.and_eq_true, Bool.not_eq_true', List.isEmpty_eq_false_iff] at hp
  obtain ⟨⟨hok, hstep⟩, hreturned⟩ := hp
  obtain ⟨t, ht⟩ := Option.isSome_iff_exists.mp hstep
  have hs := hs.mono presentable_of_plainRequest
  exact ⟨s, hs, hreturned,
    responses_are_accepted oneSlot hs (presentable_of_plainRequest s _ hok) ht⟩

end R1s.Allocator
