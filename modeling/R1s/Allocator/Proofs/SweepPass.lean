/-
The collection pass of `Sweep` (retention.go) on the allocator's own
maps: `a.offers` holds pointers to records, the pass copies the records
before it writes to them, and a failed save puts the old maps back while
the copies stay written.

# Two levels

`Fields` is the state with pointers, `Fields.mem` the state of the
machine it stands for, where maps hold values and a failed pass is the
state it began with. `pass_refines` says that the two agree whatever
addresses the copies get. The other maps hold values, or pointers to
records the pass only reads.
-/
import R1s.Lib.Cells
import R1s.Allocator.Proofs.Tunnels

namespace R1s.Allocator

open R1s.Cells

variable (cfg : Config) {addr : GoString → Nat} {f : Fields}

-- ===== the pass

/-- The allocator's fields. The offers of `rest` are not read. -/
structure Fields where
  offers : FMap GoString Nat
  cells : Nat → OfferRecord
  rest : Mem

/-- The state the fields stand for. -/
def Fields.mem (f : Fields) : Mem := { f.rest with offers := deref f.cells f.offers }

/-- `a.offers` cloned, with a copy of every record; `addr` is where the
copies are put. -/
def Fields.copyOffers (addr : GoString → Nat) (f : Fields) : Fields :=
  { f with
    offers := copyMap addr f.offers,
    cells := copyCells addr f.offers f.cells }

/-- One round of `expireOffersLocked`. -/
def expireCell (now : Int) (s : (Nat → OfferRecord) × (GoString → Nat))
    (entry : Σ _ : GoString, Nat) : (Nat → OfferRecord) × (GoString → Nat) :=
  let record := s.1 entry.2
  if record.lapsed now then
    (Function.update s.1 entry.2 { record with status := .expired },
      release s.2 record.offer.resourceClass)
  else s

/-- `expireOffersLocked`. -/
def Fields.expireOffers (now : Int) (f : Fields) : Fields :=
  let s := f.offers.entries.foldl (expireCell now) (f.cells, f.rest.used)
  { f with cells := s.1, rest := { f.rest with used := s.2 } }

/-- One round of the collection loop. -/
def Fields.collectOffer (now : Int) (busy : List GoString) (f : Fields)
    (entry : Σ _ : GoString, Nat) : Fields :=
  let record := f.cells entry.2
  if busy.contains record.key || !record.collectable now f.rest.executions then f
  else
    { f with
      offers := f.offers.erase entry.1,
      rest :=
        { f.rest with
          tombstones := f.rest.tombstones.insert entry.1 (buryOffer now entry.1 record),
          requests := f.rest.requests.erase record.key,
          executions := f.rest.executions.erase record.execution } }

/-- The fields when the pass comes to its save. -/
def Fields.sweep (addr : GoString → Nat) (now : Int) (f : Fields) : Fields :=
  let f := f.copyOffers addr
  let f := { f with rest := effectiveNow now f.rest }
  let f := f.expireOffers f.rest.highWater
  let f := { f with rest := { f.rest with replay := prune cfg f.rest.highWater f.rest.replay } }
  let f := f.offers.entries.foldl (Fields.collectOffer f.rest.highWater (busyKeys f.rest)) f
  { f with rest := sweepDropped f.rest }

/-- The pass: the fields, the store, and the tombstones with work left. -/
def Fields.pass (addr : GoString → Nat) (i : Input) (f : Fields) (disk : Option Snapshot) :
    Fields × Option Snapshot × Except GoErr (List Tombstone) :=
  let swept := f.sweep cfg addr i.now
  match persist cfg i.saved ⟨swept.mem, disk⟩ with
  | .error err =>
    -- The old maps, ledger and clock; the cells are as the pass left them.
    ({ swept with
        offers := f.offers,
        rest :=
          { swept.rest with
            executions := f.rest.executions, requests := f.rest.requests,
            replay := f.rest.replay, tombstones := f.rest.tombstones,
            highWater := f.rest.highWater, used := f.rest.used } }, disk, .error err)
  | .ok w =>
    (swept, w.disk,
      .ok ((swept.rest.tombstones.entries.map Sigma.snd).filter Tombstone.cleanupPending))

variable {cfg}

-- ===== the loops

theorem expireCell_eq (now : Int) (s : (Nat → OfferRecord) × (GoString → Nat))
    (entry : Σ _ : GoString, Nat) :
    expireCell now s entry =
      (Function.update s.1 entry.2 ((s.1 entry.2).expire now),
        if (s.1 entry.2).lapsed now then release s.2 (s.1 entry.2).offer.resourceClass
        else s.2) := by
  unfold expireCell OfferRecord.expire
  by_cases h : (s.1 entry.2).lapsed now = true
  · rw [if_pos h, if_pos h, if_pos h]
  · rw [if_neg h, if_neg h, if_neg h, Function.update_eq_self]

/-- Releasing one slot for each lapsed offer is subtracting their number. -/
theorem foldl_release (now : Int) (l : List OfferRecord) (used : GoString → Nat) (cls : GoString) :
    (l.foldl (fun used r =>
      if r.lapsed now then release used r.offer.resourceClass else used) used) cls
      = used cls - l.countP fun r => r.lapsed now && r.offer.resourceClass = cls := by
  induction l generalizing used with
  | nil => rfl
  | cons r l ih =>
    rw [List.foldl_cons, ih, List.countP_cons]
    by_cases hr : r.lapsed now = true
    · rw [if_pos hr]
      unfold release
      by_cases hcls : cls = r.offer.resourceClass
      · subst hcls
        rw [Function.update_self]
        simp only [hr, Bool.true_and, decide_true, if_true]
        omega
      · rw [Function.update_of_ne hcls]
        simp only [Ne.symm hcls, decide_false, Bool.and_false, Bool.false_eq_true, if_false,
          Nat.add_zero]
    · rw [if_neg hr]
      simp only [hr, Bool.false_and, Bool.false_eq_true, if_false, Nat.add_zero]

/-- The pointers of the offers are all different. -/
def Fields.Distinct (f : Fields) : Prop := (f.offers.entries.map Sigma.snd).Nodup

theorem expireOffers_fold (now : Int) (f : Fields) :
    f.offers.entries.foldl (expireCell now) (f.cells, f.rest.used)
      = eachCell (OfferRecord.expire now) (fun used r =>
        if r.lapsed now then release used r.offer.resourceClass else used)
        f.offers.entries (f.cells, f.rest.used) := by
  congr 1
  funext s entry
  exact expireCell_eq now s entry

theorem Fields.expireOffers_mem (now : Int) (hf : f.Distinct) :
    (f.expireOffers now).mem = Allocator.expireOffers now f.mem := by
  have hoffers : deref (f.expireOffers now).cells f.offers
      = (deref f.cells f.offers).mapVal fun _ r => r.expire now := by
    unfold deref Fields.expireOffers
    rw [AList.mapVal_mapTo, expireOffers_fold]
    refine AList.mapTo_congr fun k p hk => ?_
    exact eachCell_cells _ hf (List.mem_map.mpr ⟨⟨k, p⟩, AList.mem_entries.mpr hk, rfl⟩) _
  have hused : (f.expireOffers now).rest.used = (Allocator.expireOffers now f.mem).used := by
    funext cls
    unfold Fields.expireOffers
    dsimp only
    rw [expireOffers_fold, eachCell_acc _ hf, foldl_release, List.countP_map]
    show _ = f.rest.used cls - List.countP _ (f.offers.entries.map _)
    rw [List.countP_map]
    rfl
  show ({ f.rest with
    offers := deref (f.expireOffers now).cells f.offers,
    used := (f.expireOffers now).rest.used } : Mem) = _
  rw [hoffers, hused]
  rfl

theorem Fields.expireOffers_other (now : Int) {p : Nat}
    (hp : ∀ e ∈ f.offers.entries, e.2 ≠ p) : (f.expireOffers now).cells p = f.cells p := by
  unfold Fields.expireOffers
  dsimp only
  rw [expireOffers_fold, eachCell_other _ hp]

-- ===== the collection

theorem Fields.collectOffer_mem (now : Int) (busy : List GoString) (f : Fields)
    (entry : Σ _ : GoString, Nat) :
    (f.collectOffer now busy entry).mem
      = Allocator.collectOffer now busy f.mem ⟨entry.1, f.cells entry.2⟩ := by
  have herase : deref f.cells (f.offers.erase entry.1) = (deref f.cells f.offers).erase entry.1 :=
    AList.mapTo_erase _ _ _
  unfold Fields.collectOffer Allocator.collectOffer
  by_cases h : (busy.contains (f.cells entry.2).key
      || !(f.cells entry.2).collectable now f.rest.executions) = true
  · rw [if_pos h]
    exact (if_pos h).symm
  · rw [if_neg h]
    refine Eq.trans ?_ (if_neg h).symm
    unfold Fields.mem
    rw [herase]

theorem Fields.collectOffer_cells (now : Int) (busy : List GoString) (f : Fields)
    (entry : Σ _ : GoString, Nat) : (f.collectOffer now busy entry).cells = f.cells := by
  unfold Fields.collectOffer
  dsimp only
  split <;> rfl

theorem foldl_collectOffer (now : Int) (busy : List GoString) (l : List (Σ _ : GoString, Nat))
    (f : Fields) :
    (l.foldl (Fields.collectOffer now busy) f).cells = f.cells ∧
    (l.foldl (Fields.collectOffer now busy) f).mem
      = (l.map fun e => (⟨e.1, f.cells e.2⟩ : Σ _ : GoString, OfferRecord)).foldl
          (collectOffer now busy) f.mem := by
  induction l generalizing f with
  | nil => exact ⟨rfl, rfl⟩
  | cons entry l ih =>
    obtain ⟨hcells, hmem⟩ := ih (f.collectOffer now busy entry)
    rw [Fields.collectOffer_cells] at hcells hmem
    rw [List.foldl_cons, List.map_cons, List.foldl_cons, ← Fields.collectOffer_mem]
    exact ⟨hcells, hmem⟩

-- ===== refinement

/-- The fields the loops work on: copied, with the clock advanced and the
offers expired. -/
def Fields.ready (cfg : Config) (addr : GoString → Nat) (now : Int) (f : Fields) : Fields :=
  let f := f.copyOffers addr
  let f := { f with rest := effectiveNow now f.rest }
  let f := f.expireOffers f.rest.highWater
  { f with rest := { f.rest with replay := prune cfg f.rest.highWater f.rest.replay } }

theorem Fields.ready_mem (h : Fresh addr f.offers) (now : Int) :
    (f.ready cfg addr now).mem = sweepReady cfg now f.mem := by
  let clocked : Fields := { f.copyOffers addr with rest := effectiveNow now f.rest }
  have hcopied : (f.copyOffers addr).mem = f.mem := by
    unfold Fields.mem
    show ({ f.rest with
      offers := deref (copyCells addr f.offers f.cells) (copyMap addr f.offers) } : Mem) = _
    rw [deref_copy h]
  have hclocked : clocked.mem = effectiveNow now f.mem := by
    rw [← hcopied, effectiveNow_eq]
    show ({ effectiveNow now f.rest with offers := _ } : Mem) = _
    rw [effectiveNow_eq]
    rfl
  have hexpired := Fields.expireOffers_mem clocked.rest.highWater
    (f := clocked) (copyMap_nodup h)
  have hready : (f.ready cfg addr now).mem
      = { (clocked.expireOffers clocked.rest.highWater).mem with
          replay := prune cfg clocked.rest.highWater
            (clocked.expireOffers clocked.rest.highWater).mem.replay } := rfl
  have hclock : clocked.mem.highWater = (effectiveNow now f.mem).highWater := by rw [hclocked]
  change clocked.rest.highWater = _ at hclock
  rw [hready, hexpired, hclocked, hclock]
  rfl

theorem Fields.sweep_mem (h : Fresh addr f.offers) (now : Int) :
    (f.sweep cfg addr now).mem = swept cfg now f.mem := by
  have hready : (f.ready cfg addr now).mem = _ := Fields.ready_mem h now
  obtain ⟨-, hmem⟩ := foldl_collectOffer (f.ready cfg addr now).rest.highWater
    (busyKeys (f.ready cfg addr now).rest) (f.ready cfg addr now).offers.entries
    (f.ready cfg addr now)
  have hsweep : (f.sweep cfg addr now).mem
      = sweepDropped ((f.ready cfg addr now).offers.entries.foldl
          (Fields.collectOffer (f.ready cfg addr now).rest.highWater
            (busyKeys (f.ready cfg addr now).rest)) (f.ready cfg addr now)).mem := rfl
  rw [hsweep, hmem]
  unfold swept sweepCollected
  rw [← hready]
  rfl

/-- What is written through the copies stays in them. -/
theorem Fields.sweep_cells (h : Fresh addr f.offers) (now : Int) {k : GoString} {p : Nat}
    (hp : f.offers.lookup k = some p) : (f.sweep cfg addr now).cells p = f.cells p := by
  have hmem := AList.mem_entries.mpr hp
  obtain ⟨hcells, -⟩ := foldl_collectOffer (f.ready cfg addr now).rest.highWater
    (busyKeys (f.ready cfg addr now).rest) (f.ready cfg addr now).offers.entries
    (f.ready cfg addr now)
  have hsweep : (f.sweep cfg addr now).cells = (f.ready cfg addr now).cells := hcells
  rw [hsweep]
  have hexpired : (f.ready cfg addr now).cells p = (f.copyOffers addr).cells p := by
    refine Fields.expireOffers_other _ ?_
    intro e he heq
    obtain ⟨e₀, he₀, haddr⟩ := mem_copyMap he
    exact h.unused hmem he₀ (haddr.symm.trans heq)
  rw [hexpired]
  exact copyCells_old h hmem

/-- The pass on pointers is the machine's collection pass, wherever the
copies are put. -/
theorem Fields.pass_refines (h : Fresh addr f.offers) (i : Input) (disk : Option Snapshot) :
    sweepCollect cfg i ⟨f.mem, disk⟩ =
      (⟨(f.pass cfg addr i disk).1.mem, (f.pass cfg addr i disk).2.1⟩,
        (f.pass cfg addr i disk).2.2) := by
  have hsweep : (f.sweep cfg addr i.now).mem = swept cfg i.now f.mem := Fields.sweep_mem h i.now
  unfold sweepCollect Fields.pass
  dsimp only
  rw [hsweep]
  change (match persist cfg i.saved ⟨swept cfg i.now f.mem, disk⟩ with
    | .error err => _
    | .ok w' => _) = _
  cases hp : persist cfg i.saved ⟨swept cfg i.now f.mem, disk⟩ with
  | error err =>
    -- The old pointers lead to what they led to before.
    have hold : deref (f.sweep cfg addr i.now).cells f.offers = deref f.cells f.offers :=
      deref_congr fun k p hk => Fields.sweep_cells h i.now hk
    have htunnels : (f.sweep cfg addr i.now).rest.tunnels = f.rest.tunnels := by
      have heq := congrArg Mem.tunnels hsweep
      rw [swept_tunnels] at heq
      exact heq
    unfold Fields.mem
    rw [hold, htunnels]
  | ok w =>
    have hmem := persist_mem hp
    have htombstones : (f.sweep cfg addr i.now).rest.tombstones
        = (swept cfg i.now f.mem).tombstones := by
      have heq := congrArg Mem.tombstones hsweep
      exact heq
    rw [hsweep, htombstones]
    obtain ⟨m, disk'⟩ := w
    cases hmem
    rfl

end R1s.Allocator
