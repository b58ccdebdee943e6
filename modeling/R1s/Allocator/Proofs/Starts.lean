/-
At most one start per offer. Beside the allocator an observer numbers the
offers as they are issued and writes down, for each call of the runtime's
`Start`, the offer it is for (`Issues`). A start is counted when the
section that leads to it ends, so a process that dies before the call is
counted as having made it.

# The invariant

An offer that was started is assigned, in memory and in the store: the
assignment is saved before the runtime is asked, no section takes it
back, and what a restart loads was saved after it.
-/
import R1s.Allocator.Proofs.Wellformed

namespace R1s.Allocator

open Option (some)

variable {cfg : Config} {i : Input}

-- ===== the observer

/-- The sender and the assignment of a step that goes on to `Start`. -/
def System.starts (s : System cfg) : Label cfg → Option (Bytes × ExecutionAssign)
  | .run tid i =>
    match s.threads.lookup tid with
    | some (.handling e) =>
      match e.1.payload, handle i e s.world with
      | some (.executionAssign q), some (_, .goto (.starting _ _)) => some (e.1.sender, q)
      | _, _ => none
    | _ => none
  | _ => none

/-- The offer a step from `s` to `t` issues. -/
def System.mints (s t : System cfg) : Label cfg → Option GoString
  | .run tid i =>
    match s.threads.lookup tid with
    | some (.handling _) =>
      if (s.world.mem.offers.lookup i.id).isNone
          && (t.world.mem.offers.lookup i.id).isSome then some i.id
      else none
    | _ => none
  | _ => none

/-- A call of `Start`: the number of the offer, the client and the
assignment. -/
structure Start where
  issue : Option Nat
  client : Bytes
  assign : ExecutionAssign

/-- What the observer knows: the IDs of the offers in the order they were
issued, the number of the offer an ID stands for, and the starts, the
latest first. -/
structure Issues where
  issued : List GoString := []
  current : FMap GoString Nat := ∅
  started : List Start := []

def Issues.mint (h : Issues) (o : GoString) : Issues :=
  { h with issued := h.issued ++ [o], current := h.current.insert o h.issued.length }

def Issues.start (h : Issues) (client : Bytes) (q : ExecutionAssign) : Issues :=
  { h with started := ⟨h.current.lookup q.offerID, client, q⟩ :: h.started }

def Issues.note (s : System cfg) (l : Label cfg) (t : System cfg) (h : Issues) : Issues :=
  let h := ((s.mints t l).map h.mint).getD h
  ((s.starts l).map fun start => h.start start.1 start.2).getD h

variable (cfg) in
/-- The allocator beside the observer. -/
def issuing : TransitionSystem (System cfg × Issues) (Label cfg) :=
  (machine cfg).observe {} Issues.note

-- ===== the sections

/-- The offers of `m'` are offers of `m`, and those assigned there are
assigned here. -/
def KeepsAssigned (m m' : Mem) : Prop :=
  ∀ o r', m'.offers.lookup o = some r' →
    ∃ r, m.offers.lookup o = some r ∧ (r.status = .assigned → r'.status = .assigned)

variable {m m' : Mem}

theorem KeepsAssigned.of_eq (h : m'.offers = m.offers) : KeepsAssigned m m' := by
  intro o r' hr'
  rw [h] at hr'
  exact ⟨r', hr', id⟩

theorem KeepsAssigned.trans {m'' : Mem} (h : KeepsAssigned m m') (h' : KeepsAssigned m' m'') :
    KeepsAssigned m m'' := by
  intro o r'' hr''
  obtain ⟨r', hr', hkept'⟩ := h' o r'' hr''
  obtain ⟨r, hr, hkept⟩ := h o r' hr'
  exact ⟨r, hr, hkept' ∘ hkept⟩

variable {o : GoString}

theorem KeepsAssigned.insert {r r' : OfferRecord} (hm : m'.offers = m.offers.insert o r')
    (hr : m.offers.lookup o = some r) (hstatus : r.status = .assigned → r'.status = .assigned) :
    KeepsAssigned m m' := by
  intro o₁ r₁ hr₁
  rw [hm] at hr₁
  rcases AList.of_lookup_insert hr₁ with ⟨rfl, rfl⟩ | ⟨-, hr₁⟩
  · exact ⟨r, hr, hstatus⟩
  · exact ⟨r₁, hr₁, id⟩

theorem keepsAssigned_expireOffers (now : Int) (m : Mem) :
    KeepsAssigned m (expireOffers now m) := by
  intro o r' hr'
  obtain ⟨r, hr, rfl⟩ := lookup_expireOffers hr'
  refine ⟨r, hr, ?_⟩
  intro hassigned
  unfold OfferRecord.expire
  split
  next hlapsed =>
    simp only [OfferRecord.lapsed, hassigned] at hlapsed
    simp at hlapsed
  · exact hassigned

theorem keepsAssigned_swept (now : Int) (m : Mem) : KeepsAssigned m (swept cfg now m) := by
  have hready : KeepsAssigned m (sweepReady cfg now m) := by
    have hclock : KeepsAssigned m (effectiveNow now m) := .of_eq (by rw [effectiveNow_eq])
    exact hclock.trans (keepsAssigned_expireOffers _ _)
  intro o r' hr'
  rcases swept_at cfg now m o with ⟨hkept, -⟩ | ⟨r, -, -, hgone, -⟩
  · rw [hkept] at hr'
    exact hready o r' hr'
  · rw [hgone] at hr'
    cases hr'

/-- An update keeps what is assigned, or mints an offer that was not
there. -/
theorem Update.keepsAssigned {pc : Option (Pc cfg)} (hu : Update cfg pc i m m') :
    KeepsAssigned m m' ∨ (∃ e, pc = some (.handling e)) ∧ m.offers.lookup i.id = none ∧
      ∃ r, m'.offers = m.offers.insert i.id r := by
  cases hu with
  | expired now => exact .inl (keepsAssigned_expireOffers now m)
  | minted hpc hq hnew herr hid hfree hsaved => exact .inr ⟨⟨_, hpc⟩, hfree, _, rfl⟩
  | assigned hpc hq hr => exact .inl (.insert rfl hr fun _ => rfl)
  | unassigned hr hstatus | freed hr hstatus =>
    refine .inl (.insert rfl hr ?_)
    rw [hstatus]
    exact nofun
  | unfreed hr => exact .inl (.insert rfl hr id)
  | swept hpc => exact .inl (keepsAssigned_swept i.now m)
  | clock | cached | unindexed | reworked | finished | unfinished | cleaned | bound | session =>
    exact .inl (.of_eq rfl)

/-- A handler's section drops no offer. -/
theorem Update.keepsOffers {e : Inbound cfg} (hu : Update cfg (some (.handling e)) i m m')
    (h : m'.offers.lookup o = none) : m.offers.lookup o = none := by
  have insert {r : OfferRecord} {k : GoString} (h : (m.offers.insert k r).lookup o = none) :
      m.offers.lookup o = none := by
    rw [AList.lookup_insert_if] at h
    split at h
    · cases h
    · exact h
  cases hu with
  | expired now => exact lookup_expireOffers_none.mp h
  | minted | assigned | unassigned | freed | unfreed => exact insert h
  | swept hpc => cases hpc
  | clock | cached | unindexed | reworked | finished | unfinished | cleaned | bound | session =>
    exact h

variable {l : Label cfg} {s t : System cfg}

/-- The offers after a step of one process: the issued one, and those that
were there, assigned if they were. -/
theorem step_offers (hl : l.isRestart = false) (hstep : s.step l = some t) {r' : OfferRecord}
    (hr' : t.world.mem.offers.lookup o = some r') :
    s.mints t l = some o ∨ ∃ r, s.world.mem.offers.lookup o = some r ∧
      (r.status = .assigned → r'.status = .assigned) := by
  have hinv := (step_changes hl hstep).invariant
    (I := fun m =>
      (∀ o r', m.offers.lookup o = some r' →
        (o = l.input.id ∧ s.world.mem.offers.lookup o = none ∧
          ∃ e, s.point l = some (.handling e)) ∨
        ∃ r, s.world.mem.offers.lookup o = some r ∧
          (r.status = .assigned → r'.status = .assigned)) ∧
      ∀ e, s.point l = some (.handling e) → ∀ o, m.offers.lookup o = none →
        s.world.mem.offers.lookup o = none)
    ?_ ⟨fun o r hr => .inr ⟨r, hr, id⟩, fun _ _ _ => id⟩
  · rcases hinv.1 o r' hr' with ⟨rfl, hnone, e, hpoint⟩ | hkept
    · refine .inl ?_
      cases l with
      | run tid i =>
        change s.threads.lookup tid = some (.handling e) at hpoint
        change s.world.mem.offers.lookup i.id = none at hnone
        change t.world.mem.offers.lookup i.id = some r' at hr'
        unfold System.mints
        simp only [hpoint, hnone, hr']
        rfl
      | _ => cases hpoint
    · exact .inr hkept
  · intro m m' hu hI
    obtain ⟨hfrom, hnone⟩ := hI
    refine ⟨?_, ?_⟩
    · intro o r' hr'
      rcases hu.keepsAssigned with hkeeps | ⟨⟨e, hpoint⟩, hfree, r, hinsert⟩
      · obtain ⟨r, hr, hassigned⟩ := hkeeps o r' hr'
        rcases hfrom o r hr with hminted | ⟨r₀, hr₀, hassigned₀⟩
        · exact .inl hminted
        · exact .inr ⟨r₀, hr₀, hassigned ∘ hassigned₀⟩
      · rw [hinsert, AList.lookup_insert_if] at hr'
        split at hr'
        next heq =>
          rw [heq]
          exact .inl ⟨rfl, hnone e hpoint _ hfree, e, hpoint⟩
        · exact hfrom o r' hr'
    · intro e hpoint o ho
      rw [hpoint] at hu
      exact hnone e hpoint o (hu.keepsOffers ho)

/-- What a section has done when it goes on to `Start`. -/
structure Committed (cfg : Config) (client : Bytes) (q : ExecutionAssign) (w w' : World) :
    Prop where
  outstanding : ∃ r, w.mem.offers.lookup q.offerID = some r ∧ r.status = .outstanding ∧
    r.client = client ∧ r.offer.requestID = q.requestID
  assigned : ∃ r, w'.mem.offers.lookup q.offerID = some r ∧ r.status = .assigned
  saved : cfg.stored = true → ∃ saved, w'.disk = some (snapshot cfg saved w'.mem)

variable {q : ExecutionAssign} {w : World}

theorem committed_assign {e : Inbound cfg} {r : OfferRecord} {w' : World}
    (ha : Assigning cfg i e q r w.mem)
    (hl : Lands cfg i w (assigned cfg i q r (expireOffers i.now w.mem)) true w') :
    Committed cfg e.1.sender q w w' := by
  have hstatus := ha.outstanding
  have hclient := ha.client
  have hrequest := ha.request
  obtain ⟨r₀, hr₀, rfl⟩ := lookup_expireOffers ha.offer
  refine ⟨⟨r₀, hr₀, ?_⟩,
    ⟨{ r₀.expire i.now with status := .assigned, execution := q.executionID }, ?_, rfl⟩,
    hl.flushed⟩
  · unfold OfferRecord.expire at hstatus hclient hrequest
    split at hstatus
    · cases hstatus
    next hlapsed =>
      rw [if_neg hlapsed] at hclient hrequest
      exact ⟨hstatus, hclient, hrequest⟩
  · rw [hl.mem]
    exact AList.lookup_insert _

/-- A step noted as a start is a section of an assignment that was
committed in it. -/
theorem starts_committed {client : Bytes} (hstep : s.step l = some t)
    (h : s.starts l = some (client, q)) :
    Committed cfg client q s.world t.world ∧
      ∃ e, s.point l = some (.handling e) ∧ e.1.sender = client ∧
        e.1.payload = some (.executionAssign q) := by
  cases l with
  | run tid i =>
    obtain ⟨p, r, hp, hr, rfl⟩ := run_step hstep
    unfold System.starts at h
    dsimp only at h
    rw [hp] at h
    split at h
    next e heq =>
      cases heq
      split at h
      next q' w' e' id hq hhandle =>
        obtain ⟨rfl, rfl⟩ : e.1.sender = client ∧ q' = q := by
          cases h
          exact ⟨rfl, rfl⟩
        have hr' : r = (w', .goto (.starting e' id)) :=
          some.inj (hr.symm.trans hhandle)
        subst hr'
        refine ⟨?_, e, hp, rfl, hq⟩
        obtain ⟨q₀, r₀, ha, -, hl⟩ := handle_assigns hhandle
        obtain rfl : q₀ = q' := by
          have hpayload := ha.payload.symm.trans hq
          cases hpayload
          rfl
        exact committed_assign ha hl
      · cases h
    · cases h
  | _ => cases h

/-- An offer that is issued was not there. -/
theorem mints_free (h : s.mints t l = some o) : s.world.mem.offers.lookup o = none := by
  cases l with
  | run tid i =>
    unfold System.mints at h
    dsimp only at h
    split at h
    · split at h
      next hcond =>
        cases h
        rw [Bool.and_eq_true, Option.isNone_iff_eq_none] at hcond
        exact hcond.1
      · cases h
    · cases h
  | _ => cases h

-- ===== the runs

/-- The offer with this number was started. -/
def Issues.hasStarted (h : Issues) (n : Nat) : Prop := ∃ st ∈ h.started, st.issue = some n

/-- An offer record under the ID `o`: it was issued, and it is assigned if
it was started. -/
def Issues.covers (h : Issues) (o : GoString) (status : OfferStatus) : Prop :=
  ∃ n, h.current.lookup o = some n ∧ (h.hasStarted n → status = .assigned)

structure Numbered (w : World) (h : Issues) : Prop where
  current : ∀ {o n}, h.current.lookup o = some n → h.issued[n]? = some o
  mem : ∀ {o r}, w.mem.offers.lookup o = some r → h.covers o r.status
  disk : ∀ {snap}, w.disk = some snap → ∀ r ∈ snap.offers, h.covers r.offer.offerID r.status
  once : (h.started.map Start.issue).Nodup
  known : ∀ st ∈ h.started, ∃ n, st.issue = some n ∧ h.issued[n]? = some st.assign.offerID

theorem Numbered.initial : Numbered (System.initial cfg).world {} where
  current h := nomatch h
  mem h := nomatch h
  disk h := nomatch h
  once := List.nodup_nil
  known _ h := nomatch h

variable {h : Issues}

theorem Issues.not_hasStarted_issued (hw : Numbered w h) : ¬h.hasStarted h.issued.length := by
  intro hstarted
  obtain ⟨st, hst, hissue⟩ := hstarted
  obtain ⟨n, hn, hissued⟩ := hw.known st hst
  rw [hissue] at hn
  cases hn
  rw [List.getElem?_eq_none (le_refl _)] at hissued
  cases hissued

/-- Issuing an offer covers a record under its ID and those covered
before. -/
theorem Issues.covers_mint (hw : Numbered w h) {k : GoString} {status : OfferStatus}
    (hk : o = k ∨ h.covers k status) : (h.mint o).covers k status := by
  by_cases heq : o = k
  · subst heq
    refine ⟨h.issued.length, AList.lookup_insert _, ?_⟩
    intro hstarted
    exact absurd hstarted (not_hasStarted_issued hw)
  · obtain ⟨n, hn, hstatus⟩ := hk.resolve_left heq
    refine ⟨n, ?_, hstatus⟩
    show (h.current.insert o h.issued.length).lookup k = some n
    rw [AList.lookup_insert_ne (Ne.symm heq), hn]

/-- An offer keeps its number. -/
theorem getElem?_issued_mint {n : Nat} {k : GoString} (hk : h.issued[n]? = some k) :
    (h.mint o).issued[n]? = some k := by
  obtain ⟨hlt, -⟩ := List.getElem?_eq_some_iff.mp hk
  show (h.issued ++ [o])[n]? = some k
  rw [List.getElem?_append_left hlt, hk]

/-- The numbers after a step, starts aside. -/
theorem Numbered.mint {w₀ : World} (hs : Numbered w₀ h)
    (hmem : ∀ {k r}, w.mem.offers.lookup k = some r → o = k ∨ h.covers k r.status)
    (hdisk : ∀ {snap}, w.disk = some snap → ∀ r ∈ snap.offers,
      o = r.offer.offerID ∨ h.covers r.offer.offerID r.status) :
    Numbered w (h.mint o) := by
  refine ⟨?_, fun hr => Issues.covers_mint hs (hmem hr),
    fun hsnap r hr => Issues.covers_mint hs (hdisk hsnap r hr), hs.once, ?_⟩
  · intro k n hn
    rcases AList.of_lookup_insert hn with ⟨heq, rfl⟩ | ⟨-, hn⟩
    · rw [heq]
      exact List.getElem?_concat_length
    · exact getElem?_issued_mint (hs.current hn)
  · intro st hst
    obtain ⟨n, hn, hissued⟩ := hs.known st hst
    exact ⟨n, hn, getElem?_issued_mint hissued⟩

/-- A committed start of an offer that was not started before. -/
theorem Numbered.start {w₀ : World} {client : Bytes} (hw : Numbered w h)
    (hcommitted : Committed cfg client q w₀ w)
    (hfresh : ∀ {n}, h.current.lookup q.offerID = some n → ¬h.hasStarted n)
    (hid : ∀ {o r}, w.mem.offers.lookup o = some r → r.offer.offerID = o)
    (hdisk : ∀ {snap}, w.disk = some snap → cfg.stored = true) : Numbered w (h.start client q) := by
  obtain ⟨r, hr, hassigned⟩ := hcommitted.assigned
  obtain ⟨n, hn, -⟩ := hw.mem hr
  have hmem : ∀ {o r}, w.mem.offers.lookup o = some r →
      (h.start client q).covers o r.status := by
    intro o r' hr'
    obtain ⟨m, hm, hstatus⟩ := hw.mem hr'
    refine ⟨m, hm, ?_⟩
    intro hstarted
    obtain ⟨st, hst, hissue⟩ := hstarted
    rcases List.mem_cons.mp hst with rfl | hold
    · -- The offer just started.
      obtain rfl : q.offerID = o :=
        some.inj ((hw.current hissue).symm.trans (hw.current hm))
      rw [hr] at hr'
      cases hr'
      exact hassigned
    · exact hstatus ⟨st, hold, hissue⟩
  refine ⟨hw.current, hmem, ?_, ?_, ?_⟩
  · intro snap hsnap r' hr'
    obtain ⟨saved, hsaved⟩ := hcommitted.saved (hdisk hsnap)
    obtain rfl := some.inj (hsaved.symm.trans hsnap)
    obtain ⟨o, r₀, hr₀, rfl⟩ := mem_snapshot_offers.mp hr'
    show (h.start client q).covers r₀.offer.offerID r₀.status
    rw [hid hr₀]
    exact hmem hr₀
  · show (h.current.lookup q.offerID :: h.started.map Start.issue).Nodup
    refine List.nodup_cons.mpr ⟨?_, hw.once⟩
    intro hin
    obtain ⟨st, hst, hissue⟩ := List.mem_map.mp hin
    rw [hn] at hissue
    exact hfresh hn ⟨st, hst, hissue⟩
  · intro st hst
    rcases List.mem_cons.mp hst with rfl | hold
    · exact ⟨n, hn, hw.current hn⟩
    · exact hw.known st hold

section Step

variable (hs : Numbered s.world h) (hsound : Sound t) (hl : l.isRestart = false)
  (hstep : s.step l = some t)
include hs hsound hl hstep

/-- The records a step of one process leaves are issued in it or covered. -/
theorem Numbered.after :
    (∀ {k r}, t.world.mem.offers.lookup k = some r →
      s.mints t l = some k ∨ h.covers k r.status) ∧
    ∀ {snap}, t.world.disk = some snap → ∀ r ∈ snap.offers,
      s.mints t l = some r.offer.offerID ∨ h.covers r.offer.offerID r.status := by
  have hmem : ∀ {k r}, t.world.mem.offers.lookup k = some r →
      s.mints t l = some k ∨ h.covers k r.status := by
    intro k r hr
    rcases step_offers hl hstep hr with hminted | ⟨r₀, hr₀, hassigned⟩
    · exact .inl hminted
    · obtain ⟨n, hn, hstatus⟩ := hs.mem hr₀
      exact .inr ⟨n, hn, hassigned ∘ hstatus⟩
  refine ⟨hmem, ?_⟩
  intro snap hsnap r hr
  rcases (step_changes hl hstep).disk with hsame | ⟨-, saved, hsaved⟩
  · rw [hsame] at hsnap
    exact .inr (hs.disk hsnap r hr)
  · obtain rfl := some.inj (hsaved.symm.trans hsnap)
    obtain ⟨o, r₀, hr₀, rfl⟩ := mem_snapshot_offers.mp hr
    show s.mints t l = some r₀.offer.offerID ∨ h.covers r₀.offer.offerID r₀.status
    rw [(hsound.mem.offer hr₀).id]
    exact hmem hr₀

theorem Numbered.noted : Numbered t.world (((s.mints t l).map h.mint).getD h) := by
  obtain ⟨hmem, hdisk⟩ := hs.after hsound hl hstep
  cases hmints : s.mints t l with
  | none =>
    rw [hmints] at hmem hdisk
    exact ⟨hs.current, fun hr => (hmem hr).resolve_left nofun,
      fun hsnap r hr => (hdisk hsnap r hr).resolve_left nofun, hs.once, hs.known⟩
  | some o =>
    rw [hmints] at hmem hdisk
    exact hs.mint (fun hr => (hmem hr).imp_left some.inj)
      (fun hsnap r hr => (hdisk hsnap r hr).imp_left some.inj)

theorem Numbered.step : Numbered t.world (Issues.note s l t h) := by
  have hnoted := hs.noted hsound hl hstep
  unfold Issues.note
  cases hstarts : s.starts l with
  | none => exact hnoted
  | some start =>
    obtain ⟨client, q⟩ := start
    obtain ⟨hcommitted, -⟩ := starts_committed hstep hstarts
    refine hnoted.start hcommitted ?_ (fun hr => (hsound.mem.offer hr).id)
      (fun hsnap => (hsound.disk hsnap).1)
    -- The record was outstanding before the step.
    obtain ⟨r, hr, houtstanding, -⟩ := hcommitted.outstanding
    obtain ⟨n₀, hn₀, hstatus⟩ := hs.mem hr
    have hfresh : ¬h.hasStarted n₀ := by
      intro hstarted
      rw [hstatus hstarted] at houtstanding
      cases houtstanding
    intro n hn
    cases hmints : s.mints t l with
    | none =>
      rw [hmints] at hn
      obtain rfl : n₀ = n := some.inj (hn₀.symm.trans hn)
      exact hfresh
    | some o =>
      have hne : q.offerID ≠ o := by
        intro heq
        rw [heq, mints_free hmints] at hr
        cases hr
      rw [hmints] at hn
      change (h.current.insert o h.issued.length).lookup q.offerID = some n at hn
      rw [AList.lookup_insert_ne hne] at hn
      obtain rfl : n₀ = n := some.inj (hn₀.symm.trans hn)
      exact hfresh

end Step

theorem Numbered.restart {granted now : Int} (hs : Numbered s.world h)
    (hstep : s.step (.restart granted now) = some t) : Numbered t.world h := by
  obtain ⟨-, hload, hdisk, -⟩ := restart_step hstep
  refine ⟨hs.current, ?_, ?_, hs.once, hs.known⟩
  · intro o r hr
    obtain ⟨-, hempty⟩ | ⟨snap, hsnap, hload⟩ := hload
    · rw [hempty] at hr
      cases hr
    obtain ⟨index, executions, used, hindex, -, -, hmem⟩ := load_ok hload
    rw [hmem] at hr
    obtain ⟨r₀, hr₀, hassigned⟩ := keepsAssigned_expireOffers now _ o r hr
    obtain ⟨hin, rfl⟩ := (lookup_loadOffers hindex o r₀).mp hr₀
    obtain ⟨n, hn, hstatus⟩ := hs.disk hsnap r₀ hin
    exact ⟨n, hn, hassigned ∘ hstatus⟩
  · intro snap hsnap
    rw [hdisk] at hsnap
    exact hs.disk hsnap

end R1s.Allocator
