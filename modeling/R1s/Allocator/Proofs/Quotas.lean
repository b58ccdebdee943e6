/-
The admission policy over whole runs. A client is looked at twice: when
it asks for an offer and when it takes one. Between the two, records move
only down: an offer that stops being outstanding and an execution that
has ended stay so, and what a failed save writes back stood there when
the section began (`OffersLessen`, `ExecutionsLessen`).

The counters of the check are 32 bits wide, as the quotas are. Under a
positive quota they do not wrap: the count is never above the quota.
-/
import R1s.Allocator.Proofs.Collection

namespace R1s.Allocator

variable {cfg : Config} {pc : Option (Pc cfg)} {i : Input} {m m' : Mem}

-- ===== counts

/-- The outstanding offers of a client. -/
def Mem.offersOf (m : Mem) (owner : Bytes) : Nat :=
  m.offers.count fun _ r => r.status = .outstanding && r.client = owner

/-- The executions of a client that have not ended. -/
def Mem.executionsOf (m : Mem) (owner : Bytes) : Nat :=
  m.executions.count fun _ x => !x.phase.terminal && x.client = owner

/-- The quotas are 32-bit numbers. -/
def Config.quotasFit (cfg : Config) : Prop :=
  ∀ owner, (quotaOf cfg owner).offers < 2 ^ 32 ∧ (quotaOf cfg owner).executions < 2 ^ 32

/-- The offers keep to the policy, and no execution is of a client it
does not name. -/
structure OffersWithin (cfg : Config) (m : Mem) : Prop where
  quota : ∀ owner, 0 < (quotaOf cfg owner).offers →
    m.offersOf owner ≤ (quotaOf cfg owner).offers
  offer : ∀ {o r}, m.offers.lookup o = some r → admitted cfg r.client = true
  execution : ∀ {k x}, m.executions.lookup k = some x → admitted cfg x.client = true

def ExecutionsWithin (cfg : Config) (m : Mem) : Prop :=
  ∀ owner, 0 < (quotaOf cfg owner).executions →
    m.executionsOf owner ≤ (quotaOf cfg owner).executions

-- ===== going down

/-- Every offer of `m'` was in `m`, with its client, and was outstanding
if it is. -/
def OffersLessen (m m' : Mem) : Prop :=
  ∀ o r', m'.offers.lookup o = some r' → ∃ r, m.offers.lookup o = some r ∧
    r.client = r'.client ∧ (r'.status = .outstanding → r.status = .outstanding)

/-- Every execution of `m'` was in `m`, with its client, and was live if
it is. -/
def ExecutionsLessen (m m' : Mem) : Prop :=
  ∀ k x', m'.executions.lookup k = some x' → ∃ x, m.executions.lookup k = some x ∧
    x.client = x'.client ∧ (x'.phase.terminal = false → x.phase.terminal = false)

theorem OffersLessen.refl (m : Mem) : OffersLessen m m := fun _ r hr => ⟨r, hr, rfl, id⟩

theorem OffersLessen.offersOf (h : OffersLessen m m') (owner : Bytes) :
    m'.offersOf owner ≤ m.offersOf owner := by
  refine AList.count_le_of_lookup fun o r' hr' hcounts => ?_
  simp only [Bool.and_eq_true, decide_eq_true_eq] at hcounts
  obtain ⟨r, hr, hclient, hstatus⟩ := h o r' hr'
  refine ⟨r, hr, ?_⟩
  simp only [Bool.and_eq_true, decide_eq_true_eq]
  exact ⟨hstatus hcounts.1, hclient.trans hcounts.2⟩

theorem ExecutionsLessen.executionsOf (h : ExecutionsLessen m m') (owner : Bytes) :
    m'.executionsOf owner ≤ m.executionsOf owner := by
  refine AList.count_le_of_lookup fun k x' hx' hcounts => ?_
  simp only [Bool.and_eq_true, Bool.not_eq_true', decide_eq_true_eq] at hcounts
  obtain ⟨x, hx, hclient, hlive⟩ := h k x' hx'
  refine ⟨x, hx, ?_⟩
  simp only [Bool.and_eq_true, Bool.not_eq_true', decide_eq_true_eq]
  exact ⟨hlive hcounts.1, hclient.trans hcounts.2⟩

/-- What goes down keeps to the policy. -/
theorem OffersWithin.lessen (h : OffersWithin cfg m) (hoffers : OffersLessen m m')
    (hexecutions : ExecutionsLessen m m') : OffersWithin cfg m' where
  quota owner hpos := le_trans (hoffers.offersOf owner) (h.quota owner hpos)
  offer hr' := by
    obtain ⟨r, hr, hclient, -⟩ := hoffers _ _ hr'
    rw [← hclient]
    exact h.offer hr
  execution hx' := by
    obtain ⟨x, hx, hclient, -⟩ := hexecutions _ _ hx'
    rw [← hclient]
    exact h.execution hx

theorem ExecutionsWithin.lessen (h : ExecutionsWithin cfg m)
    (hexecutions : ExecutionsLessen m m') : ExecutionsWithin cfg m' :=
  fun owner hpos => le_trans (hexecutions.executionsOf owner) (h owner hpos)

theorem expire_lessens (now : Int) (r : OfferRecord) :
    r.client = (r.expire now).client ∧
      ((r.expire now).status = .outstanding → r.status = .outstanding) := by
  unfold OfferRecord.expire
  split
  · exact ⟨rfl, fun h => nomatch h⟩
  · exact ⟨rfl, id⟩

theorem offersLessen_expired (now : Int) (m : Mem) : OffersLessen m (expireOffers now m) := by
  intro o r' hr'
  obtain ⟨r, hr, rfl⟩ := lookup_expireOffers hr'
  exact ⟨r, hr, expire_lessens now r⟩

theorem offersLessen_swept (now : Int) (m : Mem) : OffersLessen m (swept cfg now m) := by
  intro o r' hr'
  rcases swept_at cfg now m o with ⟨hkept, -⟩ | ⟨-, -, -, hgone, -⟩
  · rw [hkept, ready_offer] at hr'
    obtain ⟨r, hr, rfl⟩ := Option.map_eq_some_iff.mp hr'
    exact ⟨r, hr, expire_lessens _ r⟩
  · rw [hgone] at hr'
    cases hr'

/-- A record replaced by one of the same client that is outstanding only
if it was. -/
theorem offersLessen_replaced {o : GoString} {r r' : OfferRecord}
    (hr : m.offers.lookup o = some r) (hoffers : m'.offers = m.offers.insert o r')
    (hclient : r.client = r'.client)
    (hstatus : r'.status = .outstanding → r.status = .outstanding) : OffersLessen m m' := by
  intro o' r₁ hr₁
  rw [hoffers] at hr₁
  rcases AList.of_lookup_insert hr₁ with ⟨rfl, rfl⟩ | ⟨-, hr₁⟩
  · exact ⟨r, hr, hclient, hstatus⟩
  · exact ⟨r₁, hr₁, rfl, id⟩

theorem executionsLessen_replaced {k : GoString} {x x' : ExecutionRecord}
    (hx : m.executions.lookup k = some x) (hexecutions : m'.executions = m.executions.insert k x')
    (hclient : x.client = x'.client)
    (hlive : x'.phase.terminal = false → x.phase.terminal = false) : ExecutionsLessen m m' := by
  intro k' x₁ hx₁
  rw [hexecutions] at hx₁
  rcases AList.of_lookup_insert hx₁ with ⟨rfl, rfl⟩ | ⟨-, hx₁⟩
  · exact ⟨x, hx, hclient, hlive⟩
  · exact ⟨x₁, hx₁, rfl, id⟩

theorem executionsLessen_reworked {k : GoString} {x x' : ExecutionRecord}
    (hx : m.executions.lookup k = some x) (h : Reworked pc i m.highWater k x x') :
    ExecutionsLessen m (m.setExecution k x') := by
  refine executionsLessen_replaced hx rfl h.client.symm fun hlive => ?_
  rcases h.live with heq | ⟨hbefore, -⟩
  · rw [← heq]
    exact hlive
  · exact hbefore

-- ===== admission

/-- A client that gets an offer is named by the policy and has room. -/
theorem admitLocked_offer {owner : Bytes} (h : admitLocked cfg m owner false = none) :
    admitted cfg owner = true ∧
      (0 < (quotaOf cfg owner).offers →
        m.offersOf owner % 2 ^ 32 < (quotaOf cfg owner).offers) := by
  unfold admitLocked at h
  simp only [Bool.false_and, Bool.false_eq_true, if_false, Bool.not_false, Bool.true_and,
    Bool.and_eq_true, decide_eq_true_eq] at h
  split at h
  · cases h
  rename_i hnamed
  split at h
  · cases h
  next hroom =>
    refine ⟨by simpa using hnamed, fun hpos => ?_⟩
    by_contra hfull
    exact hroom ⟨hpos, not_lt.mp hfull⟩

/-- A client that gets an execution has room. -/
theorem admitLocked_execution {owner : Bytes} (h : admitLocked cfg m owner true = none)
    (hpos : 0 < (quotaOf cfg owner).executions) :
    m.executionsOf owner % 2 ^ 32 < (quotaOf cfg owner).executions := by
  unfold admitLocked at h
  simp only [Bool.true_and, Bool.and_eq_true, decide_eq_true_eq] at h
  split at h
  · cases h
  split at h
  · cases h
  next hroom =>
    by_contra hfull
    exact hroom ⟨hpos, not_lt.mp hfull⟩

theorem requestErr_admits {e : Envelope} {q : ExecutionRequest}
    (h : requestErr cfg e q m = none) : admitLocked cfg m e.sender false = none := by
  unfold requestErr at h
  split at h
  · cases h
  split at h
  · cases h
  · split at h
    · cases h
    next hpassed => exact hpassed

/-- A count at most `quota` that the 32-bit check finds below it has room
for one more. -/
theorem room_of_check {count quota : Nat} (hfit : quota < 2 ^ 32) (hle : count ≤ quota)
    (hcheck : count % 2 ^ 32 < quota) : count + 1 ≤ quota := by
  rw [Nat.mod_eq_of_lt (by omega)] at hcheck
  exact hcheck

-- ===== updates

theorem Update.offersWithin (hfit : cfg.quotasFit) (hu : Update cfg pc i m m')
    (h : OffersWithin cfg m) : OffersWithin cfg m' := by
  have same {m' : Mem} (hoffers : OffersLessen m m') (heq : m'.executions = m.executions) :
      OffersWithin cfg m' := by
    refine h.lessen hoffers fun k x hx => ?_
    rw [heq] at hx
    exact ⟨x, hx, rfl, id⟩
  cases hu with
  | clock | cached | unindexed | cleaned | bound | session => exact ⟨h.quota, h.offer, h.execution⟩
  | expired now => exact same (offersLessen_expired now m) rfl
  | @minted e q used hpc hq hnew herr hid hfree hsaved =>
    obtain ⟨hnamed, hroom⟩ := admitLocked_offer (requestErr_admits herr)
    refine ⟨?_, ?_, h.execution⟩
    · intro owner hpos
      show (m.offers.insert i.id (mintRecord cfg i e.1 q)).count _ ≤ _
      rw [AList.count_insert, AList.count_erase_none _ hfree]
      by_cases howner : e.1.sender = owner
      · subst howner
        have hone := room_of_check (hfit e.1.sender).1 (h.quota e.1.sender hpos) (hroom hpos)
        unfold Mem.offersOf at hone
        split <;> omega
      · rw [if_neg (by simp [mintRecord, howner])]
        exact h.quota owner hpos
    · intro o r hr
      rcases AList.of_lookup_insert hr with ⟨-, rfl⟩ | ⟨-, hr⟩
      · exact hnamed
      · exact h.offer hr
  | @assigned e q r hpc hq hr hstatus hclient hrequest hnew hsaved =>
    have hheld : OffersWithin cfg
        { m with
          offers := m.offers.insert q.offerID
            { r with status := .assigned, execution := q.executionID } } :=
      same (offersLessen_replaced hr rfl rfl fun h => nomatch h) rfl
    refine ⟨hheld.quota, hheld.offer, ?_⟩
    intro k x hx
    rw [AList.lookup_insert_if] at hx
    split at hx
    · cases hx
      exact h.offer hr
    · exact h.execution hx
  | unassigned hr hstatus => exact same (offersLessen_replaced hr rfl rfl fun _ => hstatus) rfl
  | freed hr hstatus hnext =>
    exact same (offersLessen_replaced hr rfl rfl fun _ => hstatus) rfl
  | unfreed hr => exact same (offersLessen_replaced hr rfl rfl id) rfl
  | reworked hx hr =>
    exact h.lessen (.refl m) (executionsLessen_reworked hx hr)
  | finished hx hlive hend =>
    exact h.lessen (.refl m) (executionsLessen_replaced hx rfl rfl fun _ => hlive)
  | unfinished hx => exact h.lessen (.refl m) (executionsLessen_replaced hx rfl rfl id)
  | swept =>
    exact h.lessen (offersLessen_swept i.now m) fun k x hx => ⟨x, swept_executions hx, rfl, id⟩

/-- Every update but an assignment leaves a client no more executions. -/
theorem Update.executionsWithin (hu : Update cfg pc i m m')
    (hpc : ∀ e q, pc = some (.handling e) → e.1.payload ≠ some (.executionAssign q))
    (h : ExecutionsWithin cfg m) : ExecutionsWithin cfg m' := by
  cases hu with
  | clock | expired | cached | minted | unindexed | unassigned | freed | unfreed | cleaned | bound
  | session => exact h
  | assigned hcall hq => exact absurd hq (hpc _ _ hcall)
  | reworked hx hr =>
    exact h.lessen (executionsLessen_reworked hx hr)
  | finished hx hlive hend =>
    exact h.lessen (executionsLessen_replaced hx rfl rfl fun _ => hlive)
  | unfinished hx => exact h.lessen (executionsLessen_replaced hx rfl rfl id)
  | swept => exact h.lessen fun k x hx => ⟨x, swept_executions hx, rfl, id⟩

-- ===== sections

/-- The handler of an assignment: the record it adds has been admitted. -/
theorem executionsWithin_assign (hfit : cfg.quotasFit) {e : Inbound cfg} {q : ExecutionAssign}
    {w w' : World} {n : Next cfg} (hq : e.1.payload = some (.executionAssign q))
    (hr : handle i e w = some (w', n)) (h : ExecutionsWithin cfg w.mem) :
    ExecutionsWithin cfg w'.mem := by
  obtain ⟨b, m, ha, hl⟩ := handle_effect hr
  rw [hl.mem]
  cases ha with
  | @assigned e q r hpc ha =>
    intro owner hpos
    show (w.mem.executions.insert q.executionID (assignRecord cfg i q r)).count _ ≤ _
    rw [AList.count_insert, AList.count_erase_none _ ha.fresh]
    by_cases howner : e.1.sender = owner
    · subst howner
      have hcheck : w.mem.executionsOf e.1.sender % 2 ^ 32 < _ :=
        admitLocked_execution ha.admitted hpos
      have hone := room_of_check (hfit e.1.sender).2 (h e.1.sender hpos) hcheck
      unfold Mem.executionsOf at hone
      split <;> omega
    · rw [if_neg (by simp [assignRecord, ha.client, howner])]
      exact h owner hpos
  | same | expired | released | unreleased => exact h
  | unminted _ hm | unassigned _ hm | minted _ hm =>
    subst hm
    exact h
  | rewritten hpc hx => exact h.lessen (executionsLessen_replaced hx rfl rfl id)
  | cancelled hpc hq' | renewed hpc hq' =>
    cases hpc
    cases hq.symm.trans hq'
  | missed hpc hstop | unstopped hpc hstop | stopped hpc hstop | clock hpc hstop =>
    cases hpc
    cases hstop
  | _ => cases ‹some (Pc.handling e) = _›

theorem executionsWithin_section {s t : System cfg} {l : Label cfg} (hfit : cfg.quotasFit)
    (hl : l.isRestart = false) (hstep : s.step l = some t)
    (h : ExecutionsWithin cfg s.world.mem) : ExecutionsWithin cfg t.world.mem := by
  by_cases hassign : ∃ e q, s.point l = some (.handling e) ∧
      e.1.payload = some (.executionAssign q)
  · obtain ⟨e, q, hpc, hq⟩ := hassign
    cases l with
    | run tid i =>
      obtain ⟨pc, r, hthread, hr, rfl⟩ := run_step hstep
      obtain rfl := Option.some.inj (hthread.symm.trans hpc)
      exact executionsWithin_assign hfit hq hr h
    | _ => cases hpc
  · refine (step_changes hl hstep).invariant (fun m m' hu => hu.executionsWithin ?_) h
    intro e q hpc hq
    exact hassign ⟨e, q, hpc, hq⟩

-- ===== reloads

theorem offersLessen_load {src : Mem} {saved : SaveIn} {granted now : Int} (hl : Linked src)
    (hload : load cfg granted now (snapshot cfg saved src) = .ok m) : OffersLessen src m := by
  intro o r' hr'
  obtain ⟨index, executions, used, hindex, -, -, rfl⟩ := load_ok hload
  obtain ⟨r₀, hr₀, rfl⟩ := lookup_expireOffers hr'
  obtain ⟨hmem, hid⟩ := (lookup_loadOffers hindex _ _).mp hr₀
  obtain ⟨o', r, hr, rfl⟩ := mem_snapshot_offers.mp hmem
  obtain rfl : o' = o := (hl.offer_id hr).symm.trans hid
  exact ⟨r, hr, expire_lessens now r.save⟩

theorem executionsLessen_load {s : System cfg} (hs : (machine cfg).Reach s) {saved : SaveIn}
    {granted now : Int} (hstored : cfg.stored = true)
    (hload : load cfg granted now (snapshot cfg saved s.world.mem) = .ok m) :
    ExecutionsLessen s.world.mem m := by
  intro k x' hx'
  rw [lookup_load_executions hs hstored hload] at hx'
  obtain ⟨x, hx, rfl⟩ := Option.map_eq_some_iff.mp hx'
  exact ⟨x, hx, rfl, id⟩

-- ===== runs

/-- In every run a client has at most as many outstanding offers and live
executions as a positive quota allows, and only the clients of the allow
list have any. -/
theorem clients_keep_to_their_quotas (cfg : Config) (hfit : cfg.quotasFit) {s : System cfg}
    (hs : (machine cfg).Reach s) :
    (∀ owner,
      (0 < (quotaOf cfg owner).offers →
        (s.world.mem.offers.count fun _ r => r.status = .outstanding && r.client = owner)
          ≤ (quotaOf cfg owner).offers) ∧
      (0 < (quotaOf cfg owner).executions →
        (s.world.mem.executions.count fun _ x => !x.phase.terminal && x.client = owner)
          ≤ (quotaOf cfg owner).executions)) ∧
    (∀ allowed, cfg.admission.allowedClients = some allowed →
      (∀ o r, s.world.mem.offers.lookup o = some r → hexEncode r.client ∈ allowed) ∧
      (∀ k x, s.world.mem.executions.lookup k = some x → hexEncode x.client ∈ allowed)) := by
  have hkeeps : OffersWithin cfg s.world.mem ∧ ExecutionsWithin cfg s.world.mem := by
    refine (memory_invariant (I := fun m => OffersWithin cfg m ∧ ExecutionsWithin cfg m)
      ?_ ?_ ?_ hs).1
    · refine ⟨⟨fun _ _ => Nat.zero_le _, ?_, ?_⟩, fun _ _ => Nat.zero_le _⟩
      · intro o r hr
        cases hr
      · intro k x hx
        cases hx
    · intro s l t _ hl _ hstep h
      exact ⟨(step_changes hl hstep).invariant (fun m m' hu => hu.offersWithin hfit) h.1,
        executionsWithin_section hfit hl hstep h.2⟩
    · intro s₀ saved granted now m hs₀ hstored h hload
      have hexecutions := executionsLessen_load hs₀ hstored hload
      exact ⟨h.1.lessen (offersLessen_load (ledgerWorld_reachable hs₀).mem.linked hload)
        hexecutions, h.2.lessen hexecutions⟩
  obtain ⟨hoffers, hexecutions⟩ := hkeeps
  have named {client : Bytes} {allowed : List GoString}
      (hallowed : cfg.admission.allowedClients = some allowed)
      (h : admitted cfg client = true) : hexEncode client ∈ allowed := by
    unfold admitted at h
    rw [hallowed] at h
    exact List.contains_iff_mem.mp h
  refine ⟨fun owner => ⟨hoffers.quota owner, hexecutions owner⟩, fun allowed hallowed => ?_⟩
  exact ⟨fun o r hr => named hallowed (hoffers.offer hr),
    fun k x hx => named hallowed (hoffers.execution hx)⟩

/-- The sample allocator for one client, which may have one offer and one
execution. -/
def oneEach : Config :=
  { oneSlot with admission := ⟨∅, some [hexEncode alice], ⟨1, 1⟩, ∅⟩ }

theorem alice_keeps_to_one_offer :
    oneEach.quotasFit ∧ ∃ s, (machine oneEach).Reach s ∧
      (s.world.mem.offers.count fun _ r => r.status = .outstanding && r.client = alice) = 1 ∧
      (s.world.mem.offers.count fun _ r => r.status = .outstanding && r.client = alice)
        ≤ (quotaOf oneEach alice).offers := by
  have hquota : ∀ owner, quotaOf oneEach owner = ⟨1, 1⟩ := fun _ => rfl
  have hfit : oneEach.quotasFit := by
    intro owner
    rw [hquota]
    decide
  obtain ⟨s, hs, hp⟩ := (machine oneEach).exists_reach rfl
    [ .call 0 ⟨requestCommand.1, requestCommand.2⟩, .run 0 { now := epoch },
      .run 0 { now := epoch }, .run 0 { now := epoch, id := text "o", id2 := text "a1" } ]
    (fun s =>
      (s.world.mem.offers.count fun _ r => r.status = .outstanding && r.client = alice) = 1)
    (by decide +kernel)
  exact ⟨hfit, s, hs, hp,
    ((clients_keep_to_their_quotas oneEach hfit hs).1 alice).1 (by decide)⟩

end R1s.Allocator
