/-
The slot accounting over whole runs: in every state the allocator can
reach, through any interleaving of sections, failed saves, crashes and
reloads, the ledger's count is the number of offers that hold a slot, and
it stays within the limit.
-/
import R1s.Allocator.Proofs.LedgerSections

namespace R1s.Allocator

variable {cfg : Config} {w w' : World} {i : Input}

/-- Every step but a reload keeps the accounts. -/
theorem LedgerWorld.step {s t : System cfg} {l : Label cfg} (h : LedgerWorld cfg s.world)
    (hl : l.isRestart = false) (hstep : s.step l = some t) : Kept cfg s.world t.world := by
  obtain ⟨next, he⟩ := step_effect hl hstep
  exact h.section he

-- ===== the runs

theorem ledgerInv_empty : LedgerInv cfg Mem.empty := by
  refine ⟨⟨?_, ?_, ?_, ?_, ?_⟩, fun _ => rfl, fun _ => Nat.zero_le _⟩
  all_goals
    intro k x hk
    cases hk

/-- A reload keeps the accounts, whatever was in memory. -/
theorem LedgerWorld.restart {s t : System cfg} {granted now : Int}
    (h : LedgerWorld cfg s.world) (hstep : s.step (.restart granted now) = some t) :
    LedgerWorld cfg t.world := by
  obtain ⟨-, hm, hdisk, -⟩ := restart_step hstep
  refine ⟨?_, hdisk ▸ h.disk⟩
  obtain ⟨-, hempty⟩ | ⟨snap, hsnap, hload⟩ := hm
  · rw [hempty]
    exact ledgerInv_empty
  · obtain ⟨saved, src, hlinked, henc, rfl⟩ := h.disk snap hsnap
    exact ledgerInv_load hlinked henc hload

/-- The accounts agree in every reachable state. -/
theorem ledgerWorld_reachable {s : System cfg} (hs : (machine cfg).Reach s) :
    LedgerWorld cfg s.world := by
  refine machine_invariant (I := fun s => LedgerWorld cfg s.world) ?_ ?_ ?_ hs
  · exact ⟨ledgerInv_empty, fun snap hsnap => by cases hsnap⟩
  · exact fun s l t _ h _ hl hstep => (h.step hl hstep).inv
  · exact fun s t granted now _ h _ hstep => h.restart hstep

/-- Outstanding offers of a class. -/
def Mem.outstanding (m : Mem) (cls : GoString) : Nat :=
  m.offers.count fun _ r => r.status = .outstanding && r.offer.resourceClass = cls

/-- Assigned offers of a class whose execution is not released. -/
def Mem.unreleased (m : Mem) (cls : GoString) : Nat :=
  m.offers.count fun _ r => r.status = .assigned && r.offer.resourceClass = cls
    && (m.executions.lookup r.execution).any fun x => !x.released

theorem holders_eq (m : Mem) (cls : GoString) :
    m.holders cls = m.outstanding cls + m.unreleased cls := by
  refine AList.count_split fun o r _ => ?_
  cases hs : r.status
  case assigned =>
    cases hx : m.executions.lookup r.execution with
    | none => simp [OfferRecord.holds, hs, hx]
    | some x => simp [OfferRecord.holds, hs, hx, Bool.and_comm]
  all_goals simp [OfferRecord.holds, hs]

/-- In every reachable state the ledger counts, for every class, the
outstanding offers and the assigned offers whose execution is not
released, within the limit; and no step but a reload, which rebuilds the
ledger, lets an offer that gave its slot back hold one again. -/
theorem ledger_counts_reservations (cfg : Config) {s : System cfg}
    (hs : (machine cfg).Reach s) :
    (∀ cls, s.world.mem.used cls = s.world.mem.outstanding cls + s.world.mem.unreleased cls
      ∧ s.world.mem.used cls ≤ cfg.limit cls)
    ∧ ∀ l t, s.step l = some t → (∀ granted now, l ≠ .restart granted now) →
        Settled s.world.mem t.world.mem := by
  have h := ledgerWorld_reachable hs
  refine ⟨fun cls => ⟨?_, h.mem.bounded cls⟩, ?_⟩
  · rw [h.mem.counted cls, holders_eq]
  · intro l t hstep hl
    refine (h.step ?_ hstep).settled
    cases l with
    | restart granted now => exact absurd rfl (hl granted now)
    | _ => rfl

-- ===== a run to evaluate on

/-- The class, client and instant of the sample runs. -/
def cpu : GoString := text "cpu"
def alice : Bytes := [7]
def epoch : Int := 62135596800000000000

/-- An allocator with one slot of one class, a store and the default
times. -/
def oneSlot : Config where
  identity := [1]
  limits := (∅ : FMap GoString Nat).insert cpu 1
  maxRecords := 10000
  offerTTL := 30 * 1000000000
  leaseTTL := 10 * minute
  retention := 24 * hour
  replayTTL := 10 * minute
  replayCapacity := 4096
  admission := ⟨∅, none, ⟨0, 0⟩, ∅⟩
  node := none
  tunnelEnabled := false
  tunnelEndpoint := ⟨[], []⟩
  sum256 := id
  stored := true
  logs := false
  recoverer := true
  identity_ne := by decide
  limits_pos := by
    intro cls slots h
    rcases AList.of_lookup_insert h with ⟨rfl, rfl⟩ | ⟨-, h⟩
    · decide
    · cases h
  offerTTL_pos := by decide
  leaseTTL_pos := by decide
  retention_le := by decide
  replayTTL_pos := by decide
  replayCapacity_pos := by decide
  node_valid := rfl

/-- An envelope of `alice`. -/
def fromAlice (messageID : GoString) (payload : Payload) : Envelope :=
  ⟨messageID, alice, [], some (Timestamp.new epoch), some payload⟩

/-- An image pinned by digest. -/
def sampleImage : GoString :=
  text "docker.io/library/alpine@sha256:" ++ List.replicate 64 0x61

def sampleRequest : ExecutionRequest where
  requestID := text "r"
  workload := some ⟨sampleImage, [], [], .empty, []⟩
  policy := some {}
  resourceClass := cpu
  constraints := none
  runID := List.replicate 32 0x30
  attempt := 1

def requestCommand : Inbound oneSlot :=
  ⟨fromAlice (text "m1") (.executionRequest sampleRequest), by decide +kernel⟩

def assignCommand : Inbound oneSlot :=
  ⟨fromAlice (text "m2") (.executionAssign ⟨text "r", text "o", text "x"⟩), by decide +kernel⟩

/-- The sections of a request that gets the offer "o". -/
def requestRun : List (Label oneSlot) :=
  [ .call 0 requestCommand, .run 0 { now := epoch }, .run 0 { now := epoch },
    .run 0 { now := epoch, id := text "o", id2 := text "a1" }, .run 0 { now := epoch } ]

/-- The sections of its assignment up to the runtime's start. -/
def assignRun : List (Label oneSlot) :=
  [ .call 1 assignCommand, .run 1 { now := epoch }, .run 1 { now := epoch },
    .run 1 { now := epoch } ]

/-- The one slot is taken by an assigned offer, and counted. -/
theorem ledger_counts_assigned :
    ∃ s, (machine oneSlot).Reach s ∧ s.world.mem.unreleased cpu = 1 ∧
      s.world.mem.used cpu = s.world.mem.outstanding cpu + s.world.mem.unreleased cpu := by
  obtain ⟨s, hs, hcount⟩ := (machine oneSlot).exists_reach rfl
    (requestRun ++ assignRun) (fun s => s.world.mem.unreleased cpu = 1) (by decide +kernel)
  exact ⟨s, hs, by simpa using hcount, ((ledger_counts_reservations oneSlot hs).1 cpu).1⟩

end R1s.Allocator
