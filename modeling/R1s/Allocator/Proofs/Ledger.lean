/-
The slot accounting as an invariant of the memory: offers and executions
refer to each other, and the ledger counts exactly the offers that hold a
slot.

# The shape of the argument

Every section changes offers, executions and ledger by one of a few
moves: offers lapse, an offer is recorded, assigned, released or
collected, an execution's record changes in place or ends. Each move has
one lemma here, which says that the accounts still agree (`LedgerInv`)
and that an offer which had given its slot back does not hold one again
(`Settled`). A failed save is a move undone, and what it leaves is again
covered.
-/
import R1s.Allocator.Machine

namespace R1s.Allocator

open AList (count_congr count_insert lookup_erase_ne lookup_insert lookup_insert_if
  lookup_insert_ne of_lookup_erase of_lookup_insert)
open Function (update_of_ne update_self)

variable {cfg : Config}

-- ===== the accounts

/-- The number of offers that hold a slot of the class. -/
def Mem.holders (m : Mem) (cls : GoString) : Nat :=
  m.offers.count fun _ r => r.holds m.executions && r.offer.resourceClass = cls

/-- Offers and executions refer to each other. -/
structure Linked (m : Mem) : Prop where
  offer_id : ∀ {o r}, m.offers.lookup o = some r → r.offer.offerID = o
  assigned : ∀ {o r}, m.offers.lookup o = some r → r.status = .assigned →
    ∃ x, m.executions.lookup r.execution = some x ∧ x.offerID = o
      ∧ x.resourceClass = r.offer.resourceClass
  unassigned : ∀ {o r}, m.offers.lookup o = some r → r.status ≠ .assigned → r.execution = []
  execution : ∀ {k x}, m.executions.lookup k = some x → k ≠ [] ∧ x.id = k ∧
    ∃ r, m.offers.lookup x.offerID = some r ∧ r.status = .assigned ∧ r.execution = k
  terminal : ∀ {k x}, m.executions.lookup k = some x → x.phase.terminal = true →
    x.released = true

/-- The ledger counts the holders and keeps to the limits. -/
structure LedgerInv (cfg : Config) (m : Mem) : Prop where
  linked : Linked m
  counted : ∀ cls, m.used cls = m.holders cls
  bounded : ∀ cls, m.used cls ≤ cfg.limit cls

/-- Who holds a slot afterwards held it before or was not there: a slot
given back stays given back. -/
def Settled (m m' : Mem) : Prop :=
  ∀ o r', m'.offers.lookup o = some r' → r'.holds m'.executions = true →
    m.offers.lookup o = none ∨ ∃ r, m.offers.lookup o = some r ∧ r.holds m.executions = true

/-- A move from `m` to `m'` keeps the accounts. -/
structure Accounted (cfg : Config) (m m' : Mem) : Prop where
  inv : LedgerInv cfg m'
  settled : Settled m m'

variable {execs : FMap GoString ExecutionRecord} {r : OfferRecord}

theorem holds_outstanding (h : r.status = .outstanding) : r.holds execs = true := by
  simp [OfferRecord.holds, h]

variable {x : ExecutionRecord}

theorem holds_assigned (h : r.status = .assigned) (hx : execs.lookup r.execution = some x) :
    r.holds execs = !x.released := by
  simp [OfferRecord.holds, h, hx]

theorem holds_closed (h : r.status = .expired ∨ r.status = .released) : r.holds execs = false := by
  rcases h with h | h <;> simp [OfferRecord.holds, h]

/-- Whether an offer holds its slot depends on its own execution only. -/
theorem holds_congr {execs' : FMap GoString ExecutionRecord}
    (h : r.status = .assigned →
      (execs'.lookup r.execution).map ExecutionRecord.released =
        (execs.lookup r.execution).map ExecutionRecord.released) :
    r.holds execs' = r.holds execs := by
  cases hs : r.status
  case assigned =>
    have heq := h hs
    simp only [OfferRecord.holds, hs]
    cases h' : execs'.lookup r.execution <;> cases h'' : execs.lookup r.execution <;>
      simp_all
  all_goals simp [OfferRecord.holds, hs]

theorem Settled.refl (m : Mem) : Settled m m :=
  fun _ r' hr' hholds => .inr ⟨r', hr', hholds⟩

variable {m m' : Mem}

/-- Moves compose when the first one removes no offer. -/
theorem Settled.trans {m'' : Mem}
    (hdom : ∀ o, m'.offers.lookup o = none → m.offers.lookup o = none) (h : Settled m m')
    (h' : Settled m' m'') : Settled m m'' := by
  intro o r'' hr'' hholds
  rcases h' o r'' hr'' hholds with hnone | ⟨r', hr', hholds'⟩
  · exact .inl (hdom o hnone)
  · exact h o r' hr' hholds'

/-- Moves compose when the second one adds no offer. -/
theorem Settled.trans_of_subset {m'' : Mem}
    (hsub : ∀ o r, m''.offers.lookup o = some r → m'.offers.lookup o ≠ none) (h : Settled m m')
    (h' : Settled m' m'') : Settled m m'' := by
  intro o r'' hr'' hholds
  rcases h' o r'' hr'' hholds with hnone | ⟨r', hr', hholds'⟩
  · exact absurd hnone (hsub o r'' hr'')
  · exact h o r' hr' hholds'

-- ===== other fields

theorem Linked.congr (h : Linked m) (ho : m'.offers = m.offers)
    (hx : m'.executions = m.executions) : Linked m' where
  offer_id hr := h.offer_id (ho ▸ hr)
  assigned hr hs := by
    rw [hx]
    exact h.assigned (ho ▸ hr) hs
  unassigned hr hs := h.unassigned (ho ▸ hr) hs
  execution hk := by
    rw [ho]
    exact h.execution (hx ▸ hk)
  terminal hk := h.terminal (hx ▸ hk)

/-- A move that touches neither offers, executions nor ledger. -/
theorem LedgerInv.frame (h : LedgerInv cfg m) (ho : m'.offers = m.offers)
    (hx : m'.executions = m.executions) (hu : m'.used = m.used) : Accounted cfg m m' := by
  refine ⟨⟨h.linked.congr ho hx, ?_, ?_⟩, ?_⟩
  · intro cls
    rw [hu, h.counted cls, Mem.holders, Mem.holders, ho, hx]
  · intro cls
    rw [hu]
    exact h.bounded cls
  · unfold Settled
    rw [ho, hx]
    exact Settled.refl m

/-- Other fields may change after a move. -/
theorem Accounted.frame {m₁ : Mem} (h : Accounted cfg m m₁) (ho : m'.offers = m₁.offers)
    (hx : m'.executions = m₁.executions) (hu : m'.used = m₁.used) : Accounted cfg m m' := by
  refine ⟨(h.inv.frame ho hx hu).inv, ?_⟩
  unfold Settled
  rw [ho, hx]
  exact h.settled

-- ===== offers lapse

@[simp] theorem expire_offer (now : Int) (r : OfferRecord) : (r.expire now).offer = r.offer := by
  unfold OfferRecord.expire
  split <;> rfl

@[simp] theorem expire_execution (now : Int) (r : OfferRecord) :
    (r.expire now).execution = r.execution := by
  unfold OfferRecord.expire
  split <;> rfl

variable {now : Int}

theorem lapsed_outstanding (h : r.lapsed now = true) : r.status = .outstanding := by
  simp only [OfferRecord.lapsed, Bool.and_eq_true, decide_eq_true_eq] at h
  exact h.1

theorem expire_lapsed (h : r.lapsed now = true) : r.expire now = { r with status := .expired } := by
  rw [OfferRecord.expire, if_pos h]

theorem expire_kept (h : ¬r.lapsed now = true) : r.expire now = r := by
  rw [OfferRecord.expire, if_neg h]

/-- An offer that is assigned after the expiry was so before, unchanged. -/
theorem expire_assigned (h : (r.expire now).status = .assigned) : r.expire now = r := by
  by_cases hl : r.lapsed now = true
  · rw [expire_lapsed hl] at h
    cases h
  · exact expire_kept hl

variable {o : GoString}

theorem lookup_expireOffers {r' : OfferRecord}
    (h : (expireOffers now m).offers.lookup o = some r') :
    ∃ r, m.offers.lookup o = some r ∧ r' = r.expire now := by
  simp only [expireOffers, AList.lookup_mapVal, Option.map_eq_some_iff] at h
  obtain ⟨r, hr, rfl⟩ := h
  exact ⟨r, hr, rfl⟩

/-- An expiry removes no offer. -/
theorem lookup_expireOffers_none :
    (expireOffers now m).offers.lookup o = none ↔ m.offers.lookup o = none := by
  simp [expireOffers]

theorem Linked.expireOffers (h : Linked m) (now : Int) : Linked (expireOffers now m) where
  offer_id hr' := by
    obtain ⟨r, hr, rfl⟩ := lookup_expireOffers hr'
    rw [expire_offer]
    exact h.offer_id hr
  assigned hr' hs := by
    obtain ⟨r, hr, rfl⟩ := lookup_expireOffers hr'
    have hkept := expire_assigned hs
    rw [hkept] at hs ⊢
    exact h.assigned hr hs
  unassigned hr' hs := by
    obtain ⟨r, hr, rfl⟩ := lookup_expireOffers hr'
    have hne : r.status ≠ .assigned := by
      intro hassigned
      by_cases hl : r.lapsed now = true
      · rw [lapsed_outstanding hl] at hassigned
        cases hassigned
      · rw [expire_kept hl] at hs
        exact hs hassigned
    rw [expire_execution]
    exact h.unassigned hr hne
  execution hk := by
    obtain ⟨hne, hid, r, hr, hs, he⟩ := h.execution hk
    have hkept : r.expire now = r := by
      refine expire_kept fun hl => ?_
      rw [lapsed_outstanding hl] at hs
      cases hs
    refine ⟨hne, hid, r, ?_, hs, he⟩
    show (m.offers.mapVal fun _ r => r.expire now).lookup _ = _
    rw [AList.lookup_mapVal, hr, Option.map_some, hkept]
  terminal hk := h.terminal hk

/-- Every holder either lapses or still holds its slot. -/
theorem holders_expireOffers (now : Int) (m : Mem) (cls : GoString) :
    m.holders cls = (expireOffers now m).holders cls
      + m.offers.count fun _ r => r.lapsed now && r.offer.resourceClass = cls := by
  simp only [Mem.holders, expireOffers]
  rw [AList.count_mapVal]
  refine AList.count_split fun o r _ => ?_
  by_cases hl : r.lapsed now = true
  · have hgone : ({ r with status := .expired } : OfferRecord).holds m.executions = false :=
      holds_closed (.inl rfl)
    rw [expire_lapsed hl, hl, hgone, holds_outstanding (lapsed_outstanding hl)]
    simp
  · rw [expire_kept hl]
    simp [hl]

theorem settled_expireOffers (now : Int) (m : Mem) : Settled m (expireOffers now m) := by
  intro o r' hr' hholds
  obtain ⟨r, hr, rfl⟩ := lookup_expireOffers hr'
  refine .inr ⟨r, hr, ?_⟩
  by_cases hl : r.lapsed now = true
  · exact holds_outstanding (lapsed_outstanding hl)
  · rw [expire_kept hl] at hholds
    exact hholds

theorem LedgerInv.expireOffers (h : LedgerInv cfg m) (now : Int) :
    Accounted cfg m (expireOffers now m) := by
  refine ⟨⟨h.linked.expireOffers now, ?_, ?_⟩, settled_expireOffers now m⟩
  · intro cls
    have hcount := h.counted cls
    rw [holders_expireOffers now m cls] at hcount
    show m.used cls - _ = _
    omega
  · intro cls
    exact le_trans (Nat.sub_le _ _) (h.bounded cls)

/-- An expiry may precede any move. -/
theorem LedgerInv.after_expire (h : LedgerInv cfg m) (now : Int)
    (hm : LedgerInv cfg (Allocator.expireOffers now m) →
      Accounted cfg (Allocator.expireOffers now m) m') :
    Accounted cfg m m' := by
  obtain ⟨hexp, hset⟩ := h.expireOffers now
  obtain ⟨hinv, hset'⟩ := hm hexp
  exact ⟨hinv, hset.trans (fun o ho => lookup_expireOffers_none.mp ho) hset'⟩

-- ===== executions in place

/-- A record's key, its offer and its class stay; a terminal record has
released its slot. -/
structure SameExecution (x x' : ExecutionRecord) : Prop where
  id : x'.id = x.id
  offerID : x'.offerID = x.offerID
  resourceClass : x'.resourceClass = x.resourceClass
  terminal : x'.phase.terminal = true → x'.released = true

variable {k : GoString} {x' : ExecutionRecord}

theorem Linked.setExecution (h : Linked m) (hk : m.executions.lookup k = some x)
    (hsame : SameExecution x x') : Linked (m.setExecution k x') where
  offer_id hr := h.offer_id hr
  assigned {o r} hr hs := by
    obtain ⟨y, hy, hoff, hcls⟩ := h.assigned hr hs
    show ∃ z, (m.executions.insert k x').lookup r.execution = some z ∧ _
    rw [lookup_insert_if]
    split
    next heq =>
      rw [heq, hk] at hy
      cases hy
      exact ⟨x', rfl, hsame.offerID.trans hoff, hsame.resourceClass.trans hcls⟩
    · exact ⟨y, hy, hoff, hcls⟩
  unassigned hr hs := h.unassigned hr hs
  execution {k' y} hk' := by
    rcases of_lookup_insert hk' with ⟨rfl, rfl⟩ | ⟨-, hk'⟩
    · rw [hsame.id, hsame.offerID]
      exact h.execution hk
    · exact h.execution hk'
  terminal {k' y} hk' := by
    rcases of_lookup_insert hk' with ⟨-, rfl⟩ | ⟨-, hk'⟩
    · exact hsame.terminal
    · exact h.terminal hk'

/-- A record changed in place that keeps its slot. -/
theorem LedgerInv.setExecution (h : LedgerInv cfg m) (hk : m.executions.lookup k = some x)
    (hsame : SameExecution x x') (hrel : x'.released = x.released) :
    Accounted cfg m (m.setExecution k x') := by
  have hholds : ∀ r : OfferRecord,
      r.holds (m.setExecution k x').executions = r.holds m.executions := by
    intro r
    refine holds_congr fun _ => ?_
    show ((m.executions.insert k x').lookup r.execution).map _ = _
    rw [lookup_insert_if]
    split
    next heq => rw [heq, hk, Option.map_some, Option.map_some, hrel]
    · rfl
  refine ⟨⟨h.linked.setExecution hk hsame, ?_, h.bounded⟩, ?_⟩
  · intro cls
    rw [show (m.setExecution k x').used = m.used from rfl, h.counted cls]
    refine count_congr fun o r _ => ?_
    rw [hholds]
  · intro o r hr hr'
    rw [hholds] at hr'
    exact .inr ⟨r, hr, hr'⟩

-- ===== an execution ends

theorem Settled.holds_same (ho : m'.offers = m.offers)
    (h : ∀ o r, m.offers.lookup o = some r → r.holds m'.executions = true →
      r.holds m.executions = true) :
    Settled m m' := by
  intro o r hr hholds
  rw [ho] at hr
  exact .inr ⟨r, hr, h o r hr hholds⟩

/-- An execution's record is the concern of its own offer only. -/
theorem Linked.holds_other (h : Linked m) (hk : m.executions.lookup k = some x)
    (hr : m.offers.lookup o = some r) (hne : o ≠ x.offerID) :
    r.holds (m.executions.insert k x') = r.holds m.executions := by
  refine holds_congr fun hs => ?_
  obtain ⟨y, hy, hoff, -⟩ := h.assigned hr hs
  rw [lookup_insert_if]
  split
  next heq =>
    rw [heq, hk] at hy
    cases hy
    exact absurd hoff.symm hne
  · rfl

/-- The ledger after an execution gave its slot back: one holder less. -/
theorem LedgerInv.holders_ended (h : LedgerInv cfg m) (hk : m.executions.lookup k = some x)
    (hrel : x.released = false) (hrel' : x'.released = true) (cls : GoString) :
    (m.setExecution k x').holders cls = release m.used x.resourceClass cls := by
  obtain ⟨-, -, r, hr, hs, he⟩ := h.linked.execution hk
  obtain ⟨y, hy, -, hcls⟩ := h.linked.assigned hr hs
  rw [he, hk] at hy
  cases hy
  have hbefore : r.holds m.executions = true := by
    rw [holds_assigned hs (by rw [he, hk]), hrel]
    rfl
  have hafter : r.holds (m.executions.insert k x') = false := by
    rw [holds_assigned hs (by rw [he, lookup_insert]), hrel']
    rfl
  have hcount := h.counted cls
  rw [Mem.holders] at hcount
  show m.offers.count (fun _ r => r.holds (m.executions.insert k x') && _) = _
  by_cases hc : x.resourceClass = cls
  · subst hc
    rw [release, update_self, hcount]
    refine (Nat.sub_eq_of_eq_add ?_).symm
    refine AList.count_flip hr (by simp [hbefore, hcls]) (by simp [hafter]) ?_
    intro o r' hne hr'
    rw [h.linked.holds_other hk hr' hne]
  · rw [release, update_of_ne (Ne.symm hc), hcount]
    refine count_congr fun o r' hr' => ?_
    by_cases ho : o = x.offerID
    · subst ho
      rw [hr] at hr'
      cases hr'
      simp [← hcls, hc]
    · rw [h.linked.holds_other hk hr' ho]

theorem release_le (used : GoString → Nat) (cls cls' : GoString) :
    release used cls cls' ≤ used cls' := by
  unfold release
  by_cases hc : cls' = cls
  · subst hc
    rw [update_self]
    exact Nat.sub_le _ _
  · rw [update_of_ne hc]

theorem sameExecution_finishRecord (cfg : Config) (highWater : Int) (x : ExecutionRecord)
    (phase : ExecutionPhase) (detail : GoString) (exitCode : Option Int) (now : Int) :
    SameExecution x (finishRecord cfg highWater x phase detail exitCode now) :=
  ⟨rfl, rfl, rfl, fun _ => rfl⟩

/-- `finishLocked` keeps the accounts whether or not the slot was already
back. -/
theorem LedgerInv.finish (h : LedgerInv cfg m) (hk : m.executions.lookup k = some x)
    (phase : ExecutionPhase) (detail : GoString) (exitCode : Option Int) (now : Int) :
    Accounted cfg m (finish cfg k x phase detail exitCode now m) := by
  have hsame := sameExecution_finishRecord cfg m.highWater x phase detail exitCode now
  cases hrel : x.released with
  | true =>
    have hset := h.setExecution hk hsame hrel.symm
    exact hset.frame rfl rfl (by simp [Allocator.finish, hrel, Mem.setExecution])
  | false =>
    have hused : (Allocator.finish cfg k x phase detail exitCode now m).used
        = release m.used x.resourceClass := by
      simp [Allocator.finish, hrel]
    refine ⟨⟨(h.linked.setExecution hk hsame).congr rfl rfl, ?_, ?_⟩, ?_⟩
    · intro cls
      rw [hused]
      exact (h.holders_ended hk hrel rfl cls).symm
    · intro cls
      rw [hused]
      exact le_trans (release_le _ _ _) (h.bounded cls)
    · refine Settled.holds_same rfl fun o r hr hholds => ?_
      by_cases ho : o = x.offerID
      · subst ho
        obtain ⟨-, -, r', hr', hs, he⟩ := h.linked.execution hk
        rw [hr] at hr'
        cases hr'
        rw [holds_assigned hs (by rw [he, hk]), hrel]
        rfl
      · rw [← h.linked.holds_other hk hr ho]
        exact hholds

-- ===== offers come and go

variable {used : GoString → Nat}

theorem reserve_spec {used' : GoString → Nat} {cls : GoString}
    (h : reserve cfg used cls = some used') :
    used' = Function.update used cls (used cls + 1) ∧ used cls < cfg.limit cls := by
  unfold reserve at h
  split at h
  case h_1 => cases h
  case h_2 limit hlimit =>
    split at h
    case isTrue => cases h
    case isFalse hlt =>
      cases h
      refine ⟨rfl, ?_⟩
      rw [Config.limit, hlimit, Option.getD_some]
      omega

/-- Giving a slot just taken back changes nothing. -/
theorem release_reserve {used' : GoString → Nat} {cls : GoString}
    (h : reserve cfg used cls = some used') : release used' cls = used := by
  obtain ⟨rfl, -⟩ := reserve_spec h
  funext c
  by_cases hc : c = cls
  · subst hc
    simp [release]
  · simp [release, update_of_ne hc]

/-- A new offer takes a slot. -/
theorem LedgerInv.recordOffer (h : LedgerInv cfg m) (ho : m.offers.lookup o = none)
    (hid : r.offer.offerID = o) (hs : r.status = .outstanding) (he : r.execution = [])
    (hused : reserve cfg m.used r.offer.resourceClass = some used) (requests) :
    Accounted cfg m
      { m with offers := m.offers.insert o r, requests := requests, used := used } := by
  obtain ⟨rfl, hroom⟩ := reserve_spec hused
  refine ⟨⟨⟨?_, ?_, ?_, ?_, h.linked.terminal⟩, ?_, ?_⟩, ?_⟩
  · intro o' r' hr'
    rcases of_lookup_insert hr' with ⟨rfl, rfl⟩ | ⟨-, hr'⟩
    · exact hid
    · exact h.linked.offer_id hr'
  · intro o' r' hr' hs'
    rcases of_lookup_insert hr' with ⟨-, rfl⟩ | ⟨-, hr'⟩
    · rw [hs] at hs'
      cases hs'
    · exact h.linked.assigned hr' hs'
  · intro o' r' hr' hs'
    rcases of_lookup_insert hr' with ⟨-, rfl⟩ | ⟨-, hr'⟩
    · exact he
    · exact h.linked.unassigned hr' hs'
  · intro k x hk
    obtain ⟨hne, hxid, r', hr', hs', he'⟩ := h.linked.execution hk
    refine ⟨hne, hxid, r', ?_, hs', he'⟩
    rw [lookup_insert_ne]
    · exact hr'
    · exact AList.ne_of_lookup hr' ho
  · intro cls
    show _ = (m.offers.insert o r).count (fun _ r => r.holds m.executions && _)
    rw [count_insert, AList.count_erase_none _ ho, holds_outstanding hs]
    have hcount := h.counted cls
    rw [Mem.holders] at hcount
    rw [← hcount]
    by_cases hc : cls = r.offer.resourceClass
    · subst hc
      simp
    · simp [update_of_ne hc, Ne.symm hc]
  · intro cls
    dsimp only
    by_cases hc : cls = r.offer.resourceClass
    · subst hc
      rw [update_self]
      exact hroom
    · rw [update_of_ne hc]
      exact h.bounded cls
  · intro o' r' hr' hholds
    rw [lookup_insert_if] at hr'
    split at hr'
    next heq => exact .inl (heq ▸ ho)
    · exact .inr ⟨r', hr', hholds⟩

/-- A record written over an unassigned offer by another unassigned one
with the same identity. -/
theorem Linked.setOffer {r' : OfferRecord} (h : Linked m) (ho : m.offers.lookup o = some r)
    (hs : r.status ≠ .assigned) (hs' : r'.status ≠ .assigned) (hoffer : r'.offer = r.offer)
    (he : r'.execution = r.execution) (used : GoString → Nat) :
    Linked { m with offers := m.offers.insert o r', used := used } where
  offer_id {o' r''} hr := by
    rcases of_lookup_insert hr with ⟨rfl, rfl⟩ | ⟨-, hr⟩
    · rw [hoffer]
      exact h.offer_id ho
    · exact h.offer_id hr
  assigned {o' r''} hr hassigned := by
    rw [lookup_insert_if] at hr
    split at hr
    · cases hr
      exact absurd hassigned hs'
    · exact h.assigned hr hassigned
  unassigned {o' r''} hr hne := by
    rw [lookup_insert_if] at hr
    split at hr
    · cases hr
      rw [he]
      exact h.unassigned ho hs
    · exact h.unassigned hr hne
  execution {k x} hk := by
    obtain ⟨hne, hid, r'', hr, hassigned, hexec⟩ := h.execution hk
    refine ⟨hne, hid, r'', ?_, hassigned, hexec⟩
    rw [lookup_insert_ne]
    · exact hr
    · intro heq
      rw [heq, ho] at hr
      cases hr
      exact hs hassigned
  terminal hk := h.terminal hk

section Outstanding

variable (h : LedgerInv cfg m) (ho : m.offers.lookup o = some r) (hs : r.status = .outstanding)
include h ho hs

/-- An outstanding offer expires or is released. -/
theorem LedgerInv.releaseOffer {status : OfferStatus}
    (hs' : status = .expired ∨ status = .released) :
    Accounted cfg m
      { m with
        offers := m.offers.insert o { r with status := status },
        used := release m.used r.offer.resourceClass } := by
  have hne : r.status ≠ .assigned := by
    rw [hs]
    exact nofun
  have hne' : status ≠ .assigned := by
    rcases hs' with rfl | rfl <;> exact nofun
  have hgone : ({ r with status := status } : OfferRecord).holds m.executions = false :=
    holds_closed hs'
  have hlinked : Linked
      { m with
        offers := m.offers.insert o { r with status := status },
        used := release m.used r.offer.resourceClass } := by
    apply h.linked.setOffer ho hne hne' <;> rfl
  refine ⟨⟨hlinked, ?_, ?_⟩, ?_⟩
  · intro cls
    show _ = (m.offers.insert o { r with status := status }).count
      (fun _ r => r.holds m.executions && _)
    have hcount := h.counted cls
    rw [Mem.holders, AList.count_erase_some _ ho, holds_outstanding hs] at hcount
    rw [count_insert, hgone]
    dsimp only
    by_cases hc : cls = r.offer.resourceClass
    · subst hc
      rw [release, update_self, hcount]
      simp
    · rw [release, update_of_ne hc, hcount]
      simp [Ne.symm hc]
  · intro cls
    exact le_trans (release_le _ _ _) (h.bounded cls)
  · intro o' r' hr' hholds
    rcases of_lookup_insert hr' with ⟨-, rfl⟩ | ⟨-, hr'⟩
    · rw [hgone] at hholds
      cases hholds
    · exact .inr ⟨r', hr', hholds⟩

/-- Writing an offer's record over itself. -/
theorem LedgerInv.rewriteOffer : Accounted cfg m { m with offers := m.offers.insert o r } := by
  have hne : r.status ≠ .assigned := by
    rw [hs]
    exact nofun
  refine ⟨⟨h.linked.setOffer ho hne hne rfl rfl _, ?_, h.bounded⟩, ?_⟩
  · intro cls
    show m.used cls = (m.offers.insert o r).count (fun _ r => r.holds m.executions && _)
    rw [AList.count_replace ho rfl, h.counted cls, Mem.holders]
  · intro o' r' hr' hholds
    rcases of_lookup_insert hr' with ⟨rfl, rfl⟩ | ⟨-, hr'⟩
    · exact .inr ⟨r, ho, hholds⟩
    · exact .inr ⟨r', hr', hholds⟩

/-- An outstanding offer is assigned to a new execution: the slot passes
from the one to the other. -/
theorem LedgerInv.assignOffer (hnew : m.executions.lookup x.id = none) (hid : x.id ≠ [])
    (hoff : x.offerID = o) (hcls : x.resourceClass = r.offer.resourceClass)
    (hrel : x.released = false) (hphase : x.phase.terminal = false) :
    Accounted cfg m
      { m with
        offers := m.offers.insert o { r with status := .assigned, execution := x.id },
        executions := m.executions.insert x.id x } := by
  -- No other offer is assigned to the new execution's ID.
  have hother : ∀ {o' r'}, m.offers.lookup o' = some r' →
      r'.holds (m.executions.insert x.id x) = r'.holds m.executions := by
    intro o' r' hr'
    refine holds_congr fun hs' => ?_
    obtain ⟨y, hy, -⟩ := h.linked.assigned hr' hs'
    rw [lookup_insert_ne]
    exact AList.ne_of_lookup hy hnew
  have hheld : ({ r with status := .assigned, execution := x.id } : OfferRecord).holds
      (m.executions.insert x.id x) = true := by
    have hlookup : (m.executions.insert x.id x).lookup x.id = some x := lookup_insert _
    simp only [OfferRecord.holds, hlookup, hrel]
    rfl
  refine ⟨⟨⟨?_, ?_, ?_, ?_, ?_⟩, ?_, h.bounded⟩, ?_⟩
  · intro o' r' hr'
    rcases of_lookup_insert hr' with ⟨rfl, rfl⟩ | ⟨-, hr'⟩
    · show r.offer.offerID = _
      exact h.linked.offer_id ho
    · exact h.linked.offer_id hr'
  · intro o' r' hr' hs'
    rcases of_lookup_insert hr' with ⟨rfl, rfl⟩ | ⟨-, hr'⟩
    · exact ⟨x, lookup_insert _, hoff, hcls⟩
    obtain ⟨y, hy, hyoff, hycls⟩ := h.linked.assigned hr' hs'
    refine ⟨y, ?_, hyoff, hycls⟩
    rw [lookup_insert_ne]
    · exact hy
    · exact AList.ne_of_lookup hy hnew
  · intro o' r' hr' hs'
    rcases of_lookup_insert hr' with ⟨-, rfl⟩ | ⟨-, hr'⟩
    · exact absurd rfl hs'
    · exact h.linked.unassigned hr' hs'
  · intro k y hk
    rcases of_lookup_insert hk with ⟨rfl, rfl⟩ | ⟨-, hk⟩
    · refine ⟨hid, rfl, { r with status := .assigned, execution := x.id }, ?_, rfl, rfl⟩
      rw [hoff]
      exact lookup_insert _
    obtain ⟨hne, hyid, r', hr', hs', he'⟩ := h.linked.execution hk
    refine ⟨hne, hyid, r', ?_, hs', he'⟩
    rw [lookup_insert_ne]
    · exact hr'
    · intro heq
      rw [heq, ho] at hr'
      cases hr'
      rw [hs] at hs'
      cases hs'
  · intro k y hk
    rw [lookup_insert_if] at hk
    split at hk
    · cases hk
      intro hterm
      rw [hphase] at hterm
      cases hterm
    · exact h.linked.terminal hk
  · intro cls
    have hcount := h.counted cls
    rw [Mem.holders, AList.count_erase_some _ ho, holds_outstanding hs] at hcount
    show m.used cls = (m.offers.insert o _).count
      (fun _ r => r.holds (m.executions.insert x.id x) && _)
    rw [count_insert, hheld, hcount]
    congr 1
    refine count_congr fun o' r' hr' => ?_
    obtain ⟨-, hr'⟩ := of_lookup_erase hr'
    rw [hother hr']
  · intro o' r' hr' hholds
    rw [lookup_insert_if] at hr'
    split at hr'
    next heq => exact .inr ⟨r, heq ▸ ho, holds_outstanding hs⟩
    · exact .inr ⟨r', hr', (hother hr').symm.trans hholds⟩

end Outstanding

-- ===== the sweep

/-- A collectable offer has given its slot back. -/
theorem Linked.not_holds_of_collectable (h : Linked m) (ho : m.offers.lookup o = some r)
    (hc : r.collectable now m.executions = true) : r.holds m.executions = false := by
  cases hs : r.status
  case outstanding => simp [OfferRecord.collectable, hs] at hc
  case expired => exact holds_closed (.inl hs)
  case released => exact holds_closed (.inr hs)
  case assigned =>
    obtain ⟨x, hx, -⟩ := h.assigned ho hs
    simp only [OfferRecord.collectable, hs, hx, Option.any_some, Bool.and_eq_true] at hc
    rw [holds_assigned hs hx, h.terminal hx hc.1]
    rfl

/-- The execution an offer names belongs to no other offer. -/
theorem Linked.execution_ne (h : Linked m) (ho : m.offers.lookup o = some r)
    (hk : m.executions.lookup k = some x) (hne : x.offerID ≠ o) : k ≠ r.execution := by
  intro heq
  by_cases hs : r.status = .assigned
  · obtain ⟨y, hy, hyoff, -⟩ := h.assigned ho hs
    rw [← heq, hk] at hy
    cases hy
    exact hne hyoff
  · rw [h.unassigned ho hs] at heq
    exact (h.execution hk).1 heq

theorem Linked.dropOffer (h : Linked m) (ho : m.offers.lookup o = some r) (tombstones requests) :
    Linked { m with
      tombstones := tombstones, offers := m.offers.erase o, requests := requests,
      executions := m.executions.erase r.execution } where
  offer_id {o' r'} hr' := by
    obtain ⟨-, hr'⟩ := of_lookup_erase hr'
    exact h.offer_id hr'
  assigned {o' r'} hr' hs' := by
    obtain ⟨hne, hr'⟩ := of_lookup_erase hr'
    obtain ⟨y, hy, hyoff, hycls⟩ := h.assigned hr' hs'
    refine ⟨y, ?_, hyoff, hycls⟩
    rw [lookup_erase_ne]
    · exact hy
    · exact h.execution_ne ho hy (hyoff ▸ hne)
  unassigned {o' r'} hr' hs' := by
    obtain ⟨-, hr'⟩ := of_lookup_erase hr'
    exact h.unassigned hr' hs'
  execution {k x} hk := by
    obtain ⟨hne, hk⟩ := of_lookup_erase hk
    obtain ⟨hk0, hid, r', hr', hs', he'⟩ := h.execution hk
    refine ⟨hk0, hid, r', ?_, hs', he'⟩
    rw [lookup_erase_ne]
    · exact hr'
    · intro heq
      rw [heq, ho] at hr'
      cases hr'
      exact hne he'.symm
  terminal {k x} hk := by
    obtain ⟨-, hk⟩ := of_lookup_erase hk
    exact h.terminal hk

/-- One round of the collection loop. -/
theorem LedgerInv.collectOffer (h : LedgerInv cfg m) (ho : m.offers.lookup o = some r) (now : Int)
    (busy : List GoString) : Accounted cfg m (collectOffer now busy m ⟨o, r⟩) := by
  unfold Allocator.collectOffer
  split
  · exact h.frame rfl rfl rfl
  rename_i hcond
  simp only [Bool.or_eq_true, not_or, Bool.not_eq_true', Bool.not_eq_false] at hcond
  have hgone := h.linked.not_holds_of_collectable ho hcond.2
  -- The offers that stay see their own executions unchanged.
  have hother : ∀ {o' r'}, o' ≠ o → m.offers.lookup o' = some r' →
      r'.holds (m.executions.erase r.execution) = r'.holds m.executions := by
    intro o' r' hne hr'
    refine holds_congr fun hs' => ?_
    obtain ⟨y, hy, hyoff, -⟩ := h.linked.assigned hr' hs'
    rw [lookup_erase_ne (h.linked.execution_ne ho hy (hyoff ▸ hne))]
  refine ⟨⟨h.linked.dropOffer ho _ _, ?_, h.bounded⟩, ?_⟩
  · intro cls
    have hcount := h.counted cls
    rw [Mem.holders, AList.count_erase_some _ ho, hgone] at hcount
    show m.used cls = (m.offers.erase o).count
      (fun _ r' => r'.holds (m.executions.erase r.execution) && _)
    rw [hcount, Bool.false_and, if_neg Bool.false_ne_true, Nat.add_zero]
    refine count_congr fun o' r' hr' => ?_
    obtain ⟨hne, hr'⟩ := of_lookup_erase hr'
    rw [hother hne hr']
  · intro o' r' hr' hholds
    obtain ⟨hne, hr'⟩ := of_lookup_erase hr'
    exact .inr ⟨r', hr', (hother hne hr').symm.trans hholds⟩

/-- A round of the collection loop looks at its own ID only. -/
theorem collectOffer_other (now : Int) (busy : List GoString) (m : Mem) {o' : GoString}
    (hne : o' ≠ o) :
    (collectOffer now busy m ⟨o', r⟩).offers.lookup o = m.offers.lookup o ∧
      (collectOffer now busy m ⟨o', r⟩).tombstones.lookup o = m.tombstones.lookup o := by
  unfold collectOffer
  split
  · exact ⟨rfl, rfl⟩
  · exact ⟨lookup_erase_ne hne.symm, lookup_insert_ne hne.symm⟩

/-- The collection loop keeps what its rounds keep: by induction on the
offers still to visit, which are untouched so far. -/
theorem sweepCollected_rule {P : Mem → Prop} (h : P m)
    (hround : ∀ {m' o r}, P m' → m.offers.lookup o = some r → m'.offers.lookup o = some r →
      P (collectOffer m.highWater (busyKeys m) m' ⟨o, r⟩)) : P (sweepCollected m) := by
  suffices hlist : ∀ (l : List (Σ _ : GoString, OfferRecord)) m', l.NodupKeys → P m' →
      (∀ e ∈ l, m.offers.lookup e.1 = some e.2 ∧ m'.offers.lookup e.1 = some e.2) →
      P (l.foldl (collectOffer m.highWater (busyKeys m)) m') by
    refine hlist _ m m.offers.nodupKeys h fun e he => ?_
    exact ⟨AList.mem_entries.mp he, AList.mem_entries.mp he⟩
  intro l
  induction l with
  | nil => exact fun _ _ h _ => h
  | cons e l ih =>
    intro m' hl h hthere
    obtain ⟨hhead, htail⟩ := List.nodupKeys_cons.mp hl
    obtain ⟨hm, hm'⟩ := hthere e List.mem_cons_self
    refine ih _ htail (hround h hm hm') fun e' he' => ?_
    obtain ⟨hrest, hrest'⟩ := hthere e' (List.mem_cons_of_mem _ he')
    have hne : e.1 ≠ e'.1 := fun heq => hhead (List.mem_map.mpr ⟨e', he', heq.symm⟩)
    exact ⟨hrest, (collectOffer_other _ _ m' hne).1.trans hrest'⟩

/-- What the collection loop leaves as it is. -/
theorem sweepCollected_frame (m : Mem) : (sweepCollected m).highWater = m.highWater ∧
    (sweepCollected m).replay = m.replay ∧ (sweepCollected m).tunnels = m.tunnels := by
  refine sweepCollected_rule (P := fun m' => m'.highWater = m.highWater ∧
    m'.replay = m.replay ∧ m'.tunnels = m.tunnels) ⟨rfl, rfl, rfl⟩ fun h _ _ => ?_
  unfold collectOffer
  split <;> exact h

/-- The collection loop. -/
theorem LedgerInv.collected (h : LedgerInv cfg m) :
    Accounted cfg m (sweepCollected m) ∧
      ∀ o r, (sweepCollected m).offers.lookup o = some r → m.offers.lookup o = some r := by
  refine sweepCollected_rule (P := fun m' => Accounted cfg m m' ∧ ∀ o r,
    m'.offers.lookup o = some r → m.offers.lookup o = some r)
    ⟨h.frame rfl rfl rfl, fun _ _ hr => hr⟩ ?_
  intro m' o r hm' ho ho'
  obtain ⟨hacc, hsub⟩ := hm'
  obtain ⟨hinv, hset⟩ := hacc.inv.collectOffer ho' m.highWater (busyKeys m)
  have hround : ∀ o' r', (Allocator.collectOffer m.highWater (busyKeys m) m'
      ⟨o, r⟩).offers.lookup o' = some r' → m'.offers.lookup o' = some r' := by
    intro o' r' hr'
    by_cases hne : o = o'
    · subst hne
      unfold Allocator.collectOffer at hr'
      split at hr'
      · exact hr'
      · rw [AList.lookup_erase] at hr'
        cases hr'
    · rwa [(collectOffer_other _ _ m' hne).1] at hr'
  refine ⟨⟨hinv, hacc.settled.trans_of_subset ?_ hset⟩, ?_⟩
  · intro o' r' hr'
    rw [hround o' r' hr']
    exact nofun
  · exact fun o' r' hr' => hsub o' r' (hround o' r' hr')

theorem LedgerInv.sweepReady (h : LedgerInv cfg m) (now : Int) :
    Accounted cfg m (sweepReady cfg now m) := by
  have hclock : Accounted cfg m (effectiveNow now m) := by
    unfold effectiveNow
    split <;> exact h.frame rfl rfl rfl
  have hexp := hclock.inv.expireOffers (effectiveNow now m).highWater
  have hboth : Accounted cfg m
      (Allocator.expireOffers (effectiveNow now m).highWater (effectiveNow now m)) := by
    refine ⟨hexp.inv, hclock.settled.trans ?_ hexp.settled⟩
    unfold effectiveNow
    split <;> exact fun _ ho => ho
  exact hboth.frame rfl rfl rfl

/-- The collection pass of a sweep. -/
theorem LedgerInv.sweep (h : LedgerInv cfg m) (now : Int) :
    Accounted cfg m (sweepDropped (sweepCollected (Allocator.sweepReady cfg now m))) := by
  have hready := h.sweepReady now
  obtain ⟨⟨hinv, hset⟩, hsub⟩ := hready.inv.collected
  have hcollected : Accounted cfg m (sweepCollected (Allocator.sweepReady cfg now m)) := by
    refine ⟨hinv, hready.settled.trans_of_subset ?_ hset⟩
    intro o r hr
    rw [hsub o r hr]
    exact nofun
  exact hcollected.frame rfl rfl rfl

end R1s.Allocator
