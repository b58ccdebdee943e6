/-
A saved state comes back. The loader checks a dozen things about a
snapshot and rebuilds the request index and the ledger; in a running
allocator every check passes and what is rebuilt is what was there, but
for the offers that expired in the meantime.

# The zero time

`loadLocked` reads a zero `time.Time` as a missing field: it rejects a
record without a start or a last change and fills in a missing lease. A
record stamped with that very instant is taken for such a one. A missing
revision comes back as one.
-/
import R1s.Allocator.Proofs.Lifecycle
import R1s.Allocator.Proofs.Wellformed

namespace R1s.Allocator

variable {cfg : Config}

-- ===== the loops

section Named

variable {α β κ : Type} [DecidableEq κ] {f : α → κ} {done : List α} {acc : FMap κ β}

/-- The keys so far are those of the records read. -/
def Named (f : α → κ) (done : List α) (acc : FMap κ β) : Prop :=
  ∀ k, (acc.lookup k).isSome = true → ∃ a ∈ done, f a = k

theorem Named.empty : Named f [] (∅ : FMap κ β) := by
  intro k hk
  cases hk

theorem Named.insert (h : Named f done acc) (a : α) (b : β) :
    Named f (done ++ [a]) (acc.insert (f a) b) := by
  intro k hk
  rw [AList.lookup_insert_if] at hk
  split at hk
  next heq => exact ⟨a, List.mem_append_right _ List.mem_cons_self, heq.symm⟩
  · obtain ⟨a', ha', heq⟩ := h k hk
    exact ⟨a', List.mem_append_left _ ha', heq⟩

theorem Named.fresh {k : κ} (h : Named f done acc) (hne : ∀ a ∈ done, f a ≠ k) :
    ¬ (acc.lookup k).isSome = true := by
  intro hk
  obtain ⟨a, ha, heq⟩ := h k hk
  exact hne a ha heq

end Named

theorem exists_loadOffers {l : List OfferRecord}
    (hfields : ∀ r ∈ l, r.offer.offerID ≠ [] ∧ r.request.requestID ≠ [] ∧
      r.offer.requestID = r.request.requestID)
    (hdistinct : l.Pairwise fun a b => a.offer.offerID ≠ b.offer.offerID ∧
      authorityKey a.client a.request.requestID ≠ authorityKey b.client b.request.requestID) :
    ∃ acc, l.foldlM loadOffer (∅, ∅) = .ok acc := by
  refine (Loop.foldlM_exists
    (fun done (acc : FMap GoString OfferRecord × FMap GoString GoString) =>
      Named (fun r => r.offer.offerID) done acc.1 ∧
        Named (fun r => authorityKey r.client r.request.requestID) done acc.2)
    ?_ ?_).imp fun acc hacc => hacc.1
  · exact ⟨.empty, .empty⟩
  · intro done r rest acc hl hI
    obtain ⟨hoffers, hkeys⟩ := hI
    have hmem : r ∈ l := by
      rw [hl]
      exact List.mem_append_right _ List.mem_cons_self
    obtain ⟨hid, hrequest, hsame⟩ := hfields r hmem
    have hbefore : ∀ a ∈ done, a.offer.offerID ≠ r.offer.offerID ∧
        authorityKey a.client a.request.requestID
          ≠ authorityKey r.client r.request.requestID := by
      intro a ha
      rw [hl] at hdistinct
      exact (List.pairwise_append.mp hdistinct).2.2 a ha r List.mem_cons_self
    refine ⟨(acc.1.insert r.offer.offerID r,
      acc.2.insert (authorityKey r.client r.request.requestID) r.offer.offerID), ?_,
      hoffers.insert r r, hkeys.insert r r.offer.offerID⟩
    unfold loadOffer
    rw [if_neg, if_neg (hoffers.fresh fun a ha => (hbefore a ha).1),
      if_neg (hkeys.fresh fun a ha => (hbefore a ha).2)]
    intro hbad
    rcases hbad with hbad | hbad | hbad
    · exact hid hbad
    · exact hrequest hbad
    · exact hbad hsame

/-- What the loader asks of a saved execution. -/
structure Loadable (x : ExecutionRecord) : Prop where
  id : x.id ≠ []
  offerID : x.offerID ≠ []
  resourceClass : x.resourceClass ≠ []
  requestID : x.request.requestID ≠ []
  phase : x.phase ≠ .unspecified
  startedAt : x.startedAt ≠ 0
  occurredAt : x.occurredAt ≠ 0
  released : x.phase.terminal = x.released

theorem exists_loadExecutions {l : List ExecutionRecord} (granted : Int)
    (hfields : ∀ x ∈ l, Loadable x) (hdistinct : l.Pairwise fun a b => a.id ≠ b.id) :
    ∃ acc, l.foldlM (loadExecution cfg granted) ∅ = .ok acc := by
  refine (Loop.foldlM_exists
    (fun done (acc : FMap GoString ExecutionRecord) =>
      Named ExecutionRecord.id done acc)
    .empty ?_).imp fun acc hacc => hacc.1
  · intro done x rest acc hl hI
    have hmem : x ∈ l := by
      rw [hl]
      exact List.mem_append_right _ List.mem_cons_self
    have hx := hfields x hmem
    have hfresh : ¬ (acc.lookup x.id).isSome = true := by
      rw [hl] at hdistinct
      exact hI.fresh fun a ha =>
        (List.pairwise_append.mp hdistinct).2.2 a ha x List.mem_cons_self
    refine ⟨acc.insert x.id (x.restore cfg granted), ?_, hI.insert x _⟩
    unfold loadExecution
    rw [if_neg, if_neg hfresh, if_neg hx.phase, if_neg]
    · intro hbad
      rcases hbad with hbad | hbad | hbad
      · exact hx.startedAt hbad
      · exact hx.occurredAt hbad
      · exact hbad hx.released
    · intro hbad
      rcases hbad with hbad | hbad | hbad | hbad
      · exact hx.id hbad
      · exact hx.offerID hbad
      · exact hx.resourceClass hbad
      · exact hx.requestID hbad

/-- The holders among the records. -/
def holdersIn (executions : FMap GoString ExecutionRecord) (cls : GoString)
    (l : List OfferRecord) : Nat :=
  l.countP fun r => r.holds executions && r.offer.resourceClass = cls

variable {used : GoString → Nat}

theorem reserve_room {cls : GoString} (h : used cls < cfg.limit cls) :
    reserve cfg used cls = some (Function.update used cls (used cls + 1)) := by
  unfold reserve
  unfold Config.limit at h
  cases hlimit : cfg.limits.lookup cls with
  | none =>
    rw [hlimit] at h
    exact absurd h (Nat.not_lt_zero _)
  | some limit =>
    rw [hlimit] at h
    change used cls < limit at h
    simp [h]

theorem exists_reserveLoaded {executions : FMap GoString ExecutionRecord} {l : List OfferRecord}
    (hzero : ∀ cls, used cls = 0)
    (hmatched : ∀ r ∈ l, r.status = .assigned → r.matched executions = true)
    (hroom : ∀ cls, holdersIn executions cls l ≤ cfg.limit cls) :
    ∃ used', l.foldlM (reserveLoaded cfg executions) used = .ok used' := by
  refine (Loop.foldlM_exists
    (fun done (used : GoString → Nat) => ∀ cls, used cls = holdersIn executions cls done)
    ?_ ?_).imp fun used' hused' => hused'.1
  · intro cls
    rw [hzero]
    rfl
  · intro done r rest used hl hI
    have hmem : r ∈ l := by
      rw [hl]
      exact List.mem_append_right _ List.mem_cons_self
    have hsplit : ∀ cls, holdersIn executions cls (done ++ [r])
        = holdersIn executions cls done
          + if r.holds executions && r.offer.resourceClass = cls then 1 else 0 := by
      intro cls
      unfold holdersIn
      rw [List.countP_append, List.countP_singleton]
    have hle : ∀ cls, holdersIn executions cls (done ++ [r]) ≤ cfg.limit cls := by
      intro cls
      refine le_trans ?_ (hroom cls)
      have hall : l = (done ++ [r]) ++ rest := by
        rw [hl, List.append_assoc]
        rfl
      rw [hall]
      exact (List.sublist_append_left (done ++ [r]) rest).countP_le
    unfold reserveLoaded
    rw [if_neg]
    · by_cases hholds : r.holds executions = true
      · rw [if_pos hholds]
        have hless : used r.offer.resourceClass < cfg.limit r.offer.resourceClass := by
          have hcount := hle r.offer.resourceClass
          rw [hsplit] at hcount
          rw [hI]
          simp only [hholds, decide_true, Bool.and_self, if_true] at hcount
          omega
        rw [reserve_room hless]
        refine ⟨_, rfl, ?_⟩
        intro cls
        rw [hsplit, hholds]
        by_cases hcls : cls = r.offer.resourceClass
        · subst hcls
          simp [hI]
        · rw [Function.update_of_ne hcls, hI]
          simp [Ne.symm hcls]
      · rw [if_neg hholds]
        refine ⟨_, rfl, ?_⟩
        intro cls
        rw [hsplit, hI]
        simp [hholds]
    · intro hbad
      rw [hmatched r hmem hbad.1] at hbad
      cases hbad.2

-- ===== what comes back

/-- No record holds a time or a revision the loader takes for a missing
one. -/
def Mem.stamped (m : Mem) : Prop :=
  ∀ k x, m.executions.lookup k = some x → x.startedAt ≠ 0 ∧ x.occurredAt ≠ 0 ∧
    x.revision ≠ 0 ∧ (x.phase.terminal = false → x.leaseUntil ≠ 0)

/-- The details the runtime and the clients gave are valid UTF-8. -/
def Mem.detailed (m : Mem) : Prop :=
  ∀ k x, m.executions.lookup k = some x → Utf8.valid x.detail = true

section Saved

variable {saved : SaveIn} {src : Mem} {granted : Int}

/-- A record of a running allocator is restored as it was. -/
theorem restore_save {x : ExecutionRecord} (hstored : cfg.stored = true)
    (hx : ProperExecution cfg x) (hrevision : x.revision ≠ 0) (hdetail : Utf8.valid x.detail = true)
    (hlease : x.phase.terminal = false → x.leaseUntil ≠ 0) (granted : Int) :
    x.save.restore cfg granted = x := by
  obtain ⟨hid, hoffer, hclass⟩ := hx.utf8 hstored
  have hsave : x.save = x := by
    unfold ExecutionRecord.save
    rw [(Utf8.replaceInvalid_eq_self _).mpr hid, (Utf8.replaceInvalid_eq_self _).mpr hoffer,
      (Utf8.replaceInvalid_eq_self _).mpr hclass, (Utf8.replaceInvalid_eq_self _).mpr hdetail]
  rw [hsave]
  unfold ExecutionRecord.restore
  rw [max_one_revision hrevision, if_neg fun h => hx.retained h.1 h.2, if_neg]
  intro h
  exact hlease (by simpa using h.1) h.2

/-- The saved offers pass the loader's checks. -/
theorem load_offers_ok (h : Wellformed cfg src) (hstored : cfg.stored = true) :
    ∃ index, (snapshot cfg saved src).offers.foldlM loadOffer (∅, ∅) = .ok index := by
  refine exists_loadOffers ?_ ?_
  · intro r hr
    obtain ⟨o, r₀, hr₀, rfl⟩ := mem_snapshot_offers.mp hr
    have hproper := h.offer hr₀
    rw [hproper.save_eq hstored, hproper.id]
    exact ⟨hproper.named, ne_nil_of_not_blank hproper.requestID, hproper.request⟩
  · show (src.offers.entries.map fun e => e.2.save).Pairwise _
    rw [List.pairwise_map]
    refine (List.nodupKeys_iff_pairwise.mp src.offers.nodupKeys).imp_of_mem ?_
    intro a b ha hb hne
    have hra := AList.mem_entries.mp ha
    have hrb := AList.mem_entries.mp hb
    have hpa := h.offer hra
    have hpb := h.offer hrb
    rw [hpa.save_eq hstored, hpb.save_eq hstored, hpa.id, hpb.id]
    refine ⟨hne, ?_⟩
    -- One request has one offer.
    intro hkey
    rw [← hpa.request, ← hpb.request] at hkey
    have hia := h.index.mpr ⟨a.2, hra, rfl⟩
    have hib := h.index.mpr ⟨b.2, hrb, rfl⟩
    change src.requests.lookup (authorityKey a.2.client a.2.offer.requestID) = _ at hia
    rw [hkey] at hia
    exact hne (Option.some.inj (hia.symm.trans hib))

theorem load_executions_ok (h : Wellformed cfg src) (hl : Linked src) (hstored : cfg.stored = true)
    (horderly : ∀ k x, src.executions.lookup k = some x → Orderly x)
    (hstamped : src.stamped) (granted : Int) :
    ∃ executions, (snapshot cfg saved src).executions.foldlM (loadExecution cfg granted) ∅
      = .ok executions := by
  have hsaved : ∀ {k x}, src.executions.lookup k = some x → x.save.id = k := by
    intro k x hx
    rw [← (hl.execution hx).2.1]
    exact (Utf8.replaceInvalid_eq_self _).mpr ((h.execution hx).utf8 hstored).1
  refine exists_loadExecutions granted ?_ ?_
  · intro y hy
    obtain ⟨k, x, hx, rfl⟩ := mem_snapshot_executions.mp hy
    have hproper := h.execution hx
    obtain ⟨-, hoffer, hclass⟩ := hproper.utf8 hstored
    obtain ⟨hstarted, hoccurred, -⟩ := hstamped k x hx
    refine ⟨?_, ?_, ?_, ne_nil_of_not_blank hproper.requestID, hproper.phase, hstarted,
      hoccurred, (horderly k x hx).symm⟩
    · rw [hsaved hx]
      exact (hl.execution hx).1
    · show Utf8.replaceInvalid x.offerID ≠ []
      rw [(Utf8.replaceInvalid_eq_self _).mpr hoffer]
      exact hproper.offerID
    · show Utf8.replaceInvalid x.resourceClass ≠ []
      rw [(Utf8.replaceInvalid_eq_self _).mpr hclass]
      exact ne_nil_of_not_blank hproper.resourceClass
  · show (src.executions.entries.map fun e => e.2.save).Pairwise _
    rw [List.pairwise_map]
    refine (List.nodupKeys_iff_pairwise.mp src.executions.nodupKeys).imp_of_mem ?_
    intro a b ha hb hne
    rw [hsaved (AList.mem_entries.mp ha), hsaved (AList.mem_entries.mp hb)]
    exact hne

theorem lookup_loaded_executions (h : Wellformed cfg src) (hl : Linked src)
    (hstored : cfg.stored = true) (horderly : ∀ k x, src.executions.lookup k = some x → Orderly x)
    (hdetailed : src.detailed) (hstamped : src.stamped) {executions : FMap GoString ExecutionRecord}
    (hexecs : (snapshot cfg saved src).executions.foldlM (loadExecution cfg granted) ∅
      = .ok executions) (k : GoString) : executions.lookup k = src.executions.lookup k := by
  have hrestored : ∀ {k x}, src.executions.lookup k = some x →
      x.save.restore cfg granted = x := by
    intro k x hx
    obtain ⟨-, -, hrevision, hlease⟩ := hstamped k x hx
    exact restore_save hstored (h.execution hx) hrevision (hdetailed k x hx) hlease granted
  have hid : ∀ {k x}, src.executions.lookup k = some x → x.save.id = k := by
    intro k x hx
    rw [← (hl.execution hx).2.1]
    exact (Utf8.replaceInvalid_eq_self _).mpr ((h.execution hx).utf8 hstored).1
  refine Option.ext fun x => ?_
  rw [lookup_loadExecutions hexecs]
  constructor
  · intro hex
    obtain ⟨y, hy, hyid, -, -, rfl⟩ := hex
    obtain ⟨k₀, x₀, hx₀, rfl⟩ := mem_snapshot_executions.mp hy
    rw [hid hx₀] at hyid
    rw [hrestored hx₀, ← hyid]
    exact hx₀
  · intro hx
    refine ⟨x.save, mem_snapshot_executions.mpr ⟨k, x, hx, rfl⟩, hid hx,
      (hl.execution hx).1, (horderly k x hx).symm, (hrestored hx).symm⟩

end Saved

-- ===== the ledger

/-- Two maps with the same entries count the same. -/
theorem count_ext {p : GoString → OfferRecord → Bool} {a b : FMap GoString OfferRecord}
    (h : ∀ o, a.lookup o = b.lookup o) : a.count p = b.count p := by
  have hperm : a.entries.Perm b.entries := by
    refine List.lookup_ext a.nodupKeys b.nodupKeys ?_
    intro o r
    show a.lookup o = some r ↔ b.lookup o = some r
    rw [h]
  exact hperm.countP_eq _

/-- The parts of a load that goes through. -/
theorem load_of_parts {granted now : Int} {snap : Snapshot}
    {index : FMap GoString OfferRecord × FMap GoString GoString}
    {executions : FMap GoString ExecutionRecord} (hidentity : snap.identity = cfg.identity)
    (hindex : snap.offers.foldlM loadOffer (∅, ∅) = .ok index)
    (hexecs : snap.executions.foldlM (loadExecution cfg granted) ∅ = .ok executions)
    (hused : ((expireOffers now (loaded snap index executions)).offers.entries.map
      Sigma.snd).foldlM (reserveLoaded cfg executions)
        (expireOffers now (loaded snap index executions)).used = .ok used) :
    load cfg granted now snap
      = .ok { expireOffers now (loaded snap index executions) with used := used } := by
  unfold load
  rw [if_neg (not_not.mpr hidentity), hindex]
  show (do
    let executions ← snap.executions.foldlM (loadExecution cfg granted) ∅
    _) = _
  rw [hexecs]
  show (do
    let used ← ((expireOffers now (loaded snap index executions)).offers.entries.map
      Sigma.snd).foldlM (reserveLoaded cfg executions)
        (expireOffers now (loaded snap index executions)).used
    _) = _
  rw [hused]
  rfl

/-- A state that is linked, accounted and well formed comes back, and the
ledger is rebuilt for it, offers past their expiry aside. -/
theorem load_saved {saved : SaveIn} {src : Mem} (hledger : LedgerInv cfg src)
    (h : Wellformed cfg src) (hstored : cfg.stored = true)
    (horderly : ∀ k x, src.executions.lookup k = some x → Orderly x)
    (hdetailed : src.detailed) (hstamped : src.stamped) (granted now : Int) :
    ∃ m, load cfg granted now (snapshot cfg saved src) = .ok m ∧
      m.highWater = src.highWater ∧
      (∀ o, m.offers.lookup o = (src.offers.lookup o).map (OfferRecord.expire now)) ∧
      (∀ key, m.requests.lookup key = src.requests.lookup key) ∧
      (∀ k, m.executions.lookup k = src.executions.lookup k) ∧
      (∀ o, m.tombstones.lookup o = src.tombstones.lookup o) ∧
      m.used = (expireOffers now src).used := by
  have hl := hledger.linked
  obtain ⟨index, hindex⟩ : ∃ index,
      (snapshot cfg saved src).offers.foldlM loadOffer (∅, ∅) = .ok index :=
    load_offers_ok h hstored
  obtain ⟨executions, hexecs⟩ := load_executions_ok h hl hstored horderly hstamped granted
  have hoffers := lookup_loaded_offers h hstored hindex
  have hexecutions := lookup_loaded_executions h hl hstored horderly hdetailed hstamped hexecs
  let base := expireOffers now (loaded (snapshot cfg saved src) index executions)
  have hbase : ∀ o, base.offers.lookup o = (expireOffers now src).offers.lookup o := by
    intro o
    show (index.1.mapVal fun _ r => r.expire now).lookup o
      = (src.offers.mapVal fun _ r => r.expire now).lookup o
    rw [AList.lookup_mapVal, AList.lookup_mapVal, hoffers]
  -- The offers that hold a slot are the same, so there is room for them.
  have hafter := hledger.expireOffers now
  have hholders : ∀ cls, holdersIn executions cls (base.offers.entries.map Sigma.snd)
      = (expireOffers now src).used cls := by
    intro cls
    rw [hafter.inv.counted cls]
    unfold holdersIn Mem.holders
    rw [List.countP_map, ← count_ext hbase]
    refine List.countP_congr ?_
    intro e _
    have hsame : e.2.holds executions = e.2.holds src.executions :=
      holds_congr fun _ => by rw [hexecutions]
    show (e.2.holds executions && _) = true ↔ (e.2.holds src.executions && _) = true
    rw [hsame]
  have hmatched : ∀ r ∈ base.offers.entries.map Sigma.snd, r.status = .assigned →
      r.matched executions = true := by
    intro r hr hassigned
    obtain ⟨e, he, rfl⟩ := List.mem_map.mp hr
    have hlookup := AList.mem_entries.mp he
    rw [hbase] at hlookup
    obtain ⟨x, hx, hoffer, hclass⟩ := hafter.inv.linked.assigned hlookup hassigned
    have hid := hafter.inv.linked.offer_id hlookup
    unfold OfferRecord.matched
    rw [hexecutions, show src.executions.lookup e.2.execution = some x from hx]
    simp only [hoffer, hid, hclass, decide_true, Bool.and_self]
  obtain ⟨used, hused⟩ : ∃ used, (base.offers.entries.map Sigma.snd).foldlM
      (reserveLoaded cfg executions) base.used = .ok used := by
    refine exists_reserveLoaded (fun cls => Nat.zero_sub _) hmatched ?_
    intro cls
    rw [hholders]
    exact hafter.inv.bounded cls
  have hidentity : (snapshot cfg saved src).identity = cfg.identity := rfl
  have hload := load_of_parts hidentity hindex hexecs hused
  have htombs := lookup_load_tombstones hload fun k t ht => (h.tombstone hstored ht).1
  refine ⟨_, hload, rfl, ?_, ?_, hexecutions, ?_, ?_⟩
  · intro o
    show (index.1.mapVal fun _ r => r.expire now).lookup o = _
    rw [AList.lookup_mapVal, hoffers]
  · exact lookup_loaded_index h hstored hindex
  · intro o
    rw [htombs]
    cases ht : src.tombstones.lookup o with
    | none => rfl
    | some t =>
      rw [Option.map_some, Tombstone.save_eq (h.tombstone hstored ht).2]
  · obtain ⟨-, hcount, -⟩ := reserveLoaded_all hused
    funext cls
    rw [← hholders cls]
    show used cls = _
    rw [hcount cls]
    show 0 - _ + _ = _
    rw [Nat.zero_sub, Nat.zero_add]
    rfl

-- ===== the runs

/-- A state that was just saved is accepted by the loader, whenever it is
loaded, and comes back: the same clock, offers, request index, executions
and tombstones and the same ledger, but for the outstanding offers past
their expiry, which become expired. Its details are valid UTF-8 and no
execution holds the zero time. -/
theorem saved_state_reloads (cfg : Config) {s : System cfg} (hs : (machine cfg).Reach s)
    {saved : SaveIn} (hsaved : s.world.disk = some (snapshot cfg saved s.world.mem))
    (hdetailed : s.world.mem.detailed) (hstamped : s.world.mem.stamped) (granted now : Int) :
    ∃ m, load cfg granted now (snapshot cfg saved s.world.mem) = .ok m ∧
      m.highWater = s.world.mem.highWater ∧
      (∀ o, m.offers.lookup o = (s.world.mem.offers.lookup o).map (OfferRecord.expire now)) ∧
      (∀ key, m.requests.lookup key = s.world.mem.requests.lookup key) ∧
      (∀ k, m.executions.lookup k = s.world.mem.executions.lookup k) ∧
      (∀ o, m.tombstones.lookup o = s.world.mem.tombstones.lookup o) ∧
      m.used = (expireOffers now s.world.mem).used := by
  have hsound := sound_reachable hs
  exact load_saved (ledgerWorld_reachable hs).mem hsound.mem (hsound.disk hsaved).1
    (fun k x hx => orderly_reachable hs hx) hdetailed hstamped granted now

-- ===== samples

def zeroRequest : Inbound oneSlot :=
  ⟨{ requestCommand.1 with sentAt := some (Timestamp.new 0) }, by decide +kernel⟩

def zeroAssign : Inbound oneSlot :=
  ⟨{ assignCommand.1 with sentAt := some (Timestamp.new 0) }, by decide +kernel⟩

/-- A request and its assignment while the clock reads the zero time. -/
def zeroRun : List (Label oneSlot) :=
  [ .call 0 zeroRequest, .run 0 {}, .run 0 {}, .run 0 { id := text "o", id2 := text "a1" },
    .run 0 {}, .call 1 zeroAssign, .run 1 {}, .run 1 {}, .run 1 {} ]

theorem detailed_of_all {m : Mem}
    (h : (m.executions.entries.all fun e => Utf8.valid e.2.detail) = true) : m.detailed := by
  intro k x hx
  exact List.all_eq_true.mp h ⟨k, x⟩ (AList.mem_entries.mpr hx)

/-- The record was started at the zero time and is taken for one without
a start: the allocator cannot load what it saved. -/
theorem zero_time_is_rejected :
    ∃ s, (machine oneSlot).Reach s ∧
      s.world.disk = some (snapshot oneSlot {} s.world.mem) ∧ s.world.mem.detailed ∧
      ∀ m, load oneSlot epoch epoch (snapshot oneSlot {} s.world.mem) ≠ .ok m := by
  obtain ⟨s, hs, hp⟩ := (machine oneSlot).exists_reach rfl zeroRun
    (fun s => s.world.disk = some (snapshot oneSlot {} s.world.mem) ∧
      (s.world.mem.executions.entries.all fun e => Utf8.valid e.2.detail) ∧
      (load oneSlot epoch epoch (snapshot oneSlot {} s.world.mem)).toOption.isNone)
    (by decide +kernel)
  obtain ⟨hsaved, hdetail, hrejected⟩ := hp
  refine ⟨s, hs, hsaved, detailed_of_all hdetail, ?_⟩
  intro m hm
  rw [hm] at hrejected
  cases hrejected

/-- The assigned sample execution comes back. -/
theorem assigned_state_reloads :
    ∃ m, load oneSlot epoch epoch (snapshot oneSlot {} assignedState.world.mem) = .ok m ∧
      (∀ k, m.executions.lookup k = assignedState.world.mem.executions.lookup k) ∧
      m.used = (expireOffers epoch assignedState.world.mem).used := by
  have hs : (machine oneSlot).Reach assignedState :=
    TransitionSystem.reach_runTo rfl (by decide +kernel)
  have hsaved : assignedState.world.disk = some (snapshot oneSlot {} assignedState.world.mem) := by
    decide +kernel
  have hdetailed : assignedState.world.mem.detailed := detailed_of_all (by decide +kernel)
  have hstamped : assignedState.world.mem.stamped := by
    have hall : (assignedState.world.mem.executions.entries.all fun e =>
      decide (e.2.startedAt ≠ 0 ∧ e.2.occurredAt ≠ 0 ∧ e.2.revision ≠ 0 ∧
        e.2.leaseUntil ≠ 0)) = true := by
      decide +kernel
    intro k x hx
    have hx := of_decide_eq_true (List.all_eq_true.mp hall ⟨k, x⟩ (AList.mem_entries.mpr hx))
    exact ⟨hx.1, hx.2.1, hx.2.2.1, fun _ => hx.2.2.2⟩
  obtain ⟨m, hload, -, -, -, hexecutions, -, hused⟩ :=
    saved_state_reloads oneSlot hs hsaved hdetailed hstamped epoch epoch
  exact ⟨m, hload, hexecutions, hused⟩

end R1s.Allocator
