/-
The releases of a request's offers. Until `Select` succeeds no offer has a
release intent; from then on every offer but the selected one has one,
those that were there by the selection itself and the late ones as they
arrive, and it only ever becomes acknowledged.

What `Select` returned first for each request is noted beside the core
(`selecting`), so that later selections can be compared with it.
-/
import R1s.Client.Proofs.Feedback

namespace R1s.Client

open Allocator (visit mem_visit)

variable {cfg : Config} {s t : State} {op : Op}

-- ===== the selection

variable {i : Input} {k : GoString}

/-- A failed selection changes nothing. -/
theorem select_error {err : Err} (h : (select cfg i k s).2 = .error err) :
    (select cfg i k s).1 = s := by
  cases select_cases i k s with
  | fails err' hselect | repeats r x hr hassigned hx hselect => rw [hselect]
  | makes _ _ _ _ _ _ _ _ _ _ hselect =>
    rw [hselect] at h
    cases h

-- ===== the releases

/-- No offer has a release. -/
def Unreleased (offers : FMap GoString OfferRecord) : Prop :=
  ∀ o offer, offers.lookup o = some offer → offer.release = none

/-- Every offer but the selected one has a release. -/
structure Released (chosen : GoString) (offers : FMap GoString OfferRecord) : Prop where
  selected : ∃ offer, offers.lookup chosen = some offer ∧ offer.release = none
  others : ∀ o offer, offers.lookup o = some offer → o ≠ chosen → offer.release.isSome = true

/-- What the loop of `Select` prepares: the offers it visits have a
release, the selected one is left alone. -/
theorem prepareReleases_spec {selected : GoString} (keys : List GoString) :
    ∀ {n : Nat} {offers offers' : FMap GoString OfferRecord},
      prepareReleases i selected s keys n offers = .ok offers' →
        offers'.lookup selected = offers.lookup selected ∧
        ∀ o ∈ keys, o ≠ selected → ∀ offer, offers'.lookup o = some offer →
          offer.release.isSome = true := by
  induction keys with
  | nil =>
    intro n offers offers' h
    cases h
    exact ⟨rfl, fun o ho => absurd ho List.not_mem_nil⟩
  | cons key rest ih =>
    intro n offers offers' h
    -- once it has a release, an offer keeps it to the end of the loop
    have hkept : ∀ {n : Nat} {m : FMap GoString OfferRecord} {offer : OfferRecord},
        prepareReleases i selected s rest n m = .ok offers' → m.lookup key = some offer →
        offer.release.isSome = true → ∀ offer', offers'.lookup key = some offer' →
          offer'.release.isSome = true := by
      intro n m offer hrest hoffer hreleased offer' hoffer'
      obtain ⟨rel, hrel⟩ := Option.isSome_iff_exists.mp hreleased
      obtain ⟨hkeeps, -⟩ := keepsOffers_prepareReleases rest hrest
      obtain ⟨o', ho', hsame⟩ := hkeeps key offer hoffer
      obtain rfl : offer' = o' := Option.some.inj (hoffer'.symm.trans ho')
      obtain ⟨rel', hrel', -⟩ := hsame.release rel hrel
      rw [hrel']
      rfl
    unfold prepareReleases at h
    split at h
    next hnone =>
      obtain ⟨hselected, hothers⟩ := ih h
      refine ⟨hselected, fun o ho hne offer hoffer => ?_⟩
      rcases List.mem_cons.mp ho with rfl | ho
      · have hsome := (keepsOffers_prepareReleases rest h).2 hoffer
        rw [hnone] at hsome
        cases hsome
      · exact hothers o ho hne offer hoffer
    rename_i offer hoffer
    split at h
    next hskip =>
      obtain ⟨hselected, hothers⟩ := ih h
      refine ⟨hselected, fun o ho hne offer' hoffer' => ?_⟩
      rcases List.mem_cons.mp ho with rfl | ho
      · exact hkept h hoffer (hskip.resolve_left hne) offer' hoffer'
      · exact hothers o ho hne offer' hoffer'
    rename_i hopen
    split at h
    · cases h
    obtain ⟨hselected, hothers⟩ := ih h
    simp only [not_or] at hopen
    refine ⟨?_, fun o ho hne offer' hoffer' => ?_⟩
    · rw [hselected]
      exact AList.lookup_insert_ne (Ne.symm hopen.1)
    · rcases List.mem_cons.mp ho with rfl | ho
      · exact hkept h (AList.lookup_insert _) rfl offer' hoffer'
      · exact hothers o ho hne offer' hoffer'

variable {r : RequestRecord}

/-- A selection releases every other offer. -/
theorem released_select {selected : OfferRecord} {offers : FMap GoString OfferRecord}
    (hselected : r.offers.lookup selected.offer.offerID = some selected)
    (hunreleased : Unreleased r.offers)
    (h : prepareReleases i selected.offer.offerID s (visit i.order r.offers) 2 r.offers =
      .ok offers) :
    Released selected.offer.offerID offers := by
  obtain ⟨hkeep, hothers⟩ := prepareReleases_spec _ h
  refine ⟨⟨selected, hkeep.trans hselected, hunreleased _ _ hselected⟩, ?_⟩
  intro o offer hoffer hne
  have hkey := (keepsOffers_prepareReleases _ h).2 hoffer
  exact hothers o (mem_visit.mpr hkey) hne offer hoffer

-- ===== the other steps

/-- The offers of a request before and after an operation that selects
none for it. -/
structure SameReleases (r r' : RequestRecord) : Prop where
  executionID : r'.executionID = r.executionID
  before : r.executionID = [] → Unreleased r.offers → Unreleased r'.offers
  after : r.executionID ≠ [] → ∀ chosen, Released chosen r.offers → Released chosen r'.offers

theorem released_insert {offers : FMap GoString OfferRecord} {chosen o : GoString}
    {offer : OfferRecord} (h : Released chosen offers) (hne : o ≠ chosen)
    (hreleased : offer.release.isSome = true) : Released chosen (offers.insert o offer) := by
  obtain ⟨selected, hselected, hnone⟩ := h.selected
  refine ⟨⟨selected, ?_, hnone⟩, ?_⟩
  · rw [AList.lookup_insert_ne (Ne.symm hne)]
    exact hselected
  · intro o' offer' hoffer' hne'
    rcases AList.of_lookup_insert hoffer' with ⟨-, rfl⟩ | ⟨-, hoffer'⟩
    · exact hreleased
    · exact h.others o' offer' hoffer' hne'

/-- What a message can do to the requests. -/
theorem requests_handle (cfg : Config) (i : Input) (e : Envelope) (s : State) :
    (handle cfg i e s).1.requests = s.requests ∨
      ∃ k r r', s.requests.lookup k = some r ∧
        (handle cfg i e s).1.requests = s.requests.insert k r' ∧ SameReleases r r' := by
  unfold handle
  split
  · exact .inl rfl
  split
  · exact .inl rfl
  · exact .inl rfl
  next offer _ =>
    unfold handleOffer
    split
    · exact .inl rfl
    rename_i r hr
    split
    · exact .inl rfl
    split
    · exact .inl rfl
    have hsame : (refreshNode e.sender offer s).requests = s.requests :=
      refreshNode_requests _ _
    dsimp only
    split
    · split <;> exact .inl hsame
    rename_i hnew
    split
    next hopen =>
      refine .inr ⟨offer.requestID, r, _, hr,
        congrArg (AList.insert offer.requestID _) hsame, rfl, ?_, ?_⟩
      · intro _ hnone o offer' hoffer'
        rcases AList.of_lookup_insert hoffer' with ⟨-, rfl⟩ | ⟨-, hoffer'⟩
        · rfl
        · exact hnone o offer' hoffer'
      · exact fun hne => absurd hopen hne
    rename_i hassigned
    split
    · exact .inl hsame
    split
    · exact .inl hsame
    split
    · exact .inl hsame
    refine .inr ⟨offer.requestID, r, _, hr,
      congrArg (AList.insert offer.requestID _) hsame, rfl, ?_, ?_⟩
    · exact fun hopen => absurd hopen hassigned
    · intro _ chosen hreleased
      refine released_insert hreleased ?_ rfl
      -- the selected offer is recorded, this one is new
      rintro rfl
      obtain ⟨selected, hselected, -⟩ := hreleased.selected
      rw [hnew] at hselected
      cases hselected
  next state _ =>
    refine .inl ?_
    unfold handleState
    repeat' split
    all_goals rfl
  next ack _ =>
    unfold handleReleaseAck
    split
    · exact .inl rfl
    rename_i r hr
    split
    · exact .inl rfl
    rename_i offer hoffer
    split
    · exact .inl rfl
    rename_i release hrelease
    split
    · exact .inl rfl
    split
    · exact .inl rfl
    split
    · exact .inl rfl
    refine .inr ⟨ack.requestID, r, _, hr, rfl, rfl, ?_, ?_⟩
    · intro _ hnone
      rw [hnone _ _ hoffer] at hrelease
      cases hrelease
    · intro _ chosen hreleased
      refine released_insert hreleased ?_ rfl
      rintro rfl
      obtain ⟨selected, hselected, hnone⟩ := hreleased.selected
      cases Option.some.inj (hoffer.symm.trans hselected)
      rw [hnone] at hrelease
      cases hrelease
  next ack _ =>
    refine .inl ?_
    unfold handleRenewAck
    repeat' split
    all_goals rfl
  · exact .inl rfl
  · exact .inl rfl

-- ===== the invariant

/-- The releases of every request follow its selection. -/
structure Settled (s : State) : Prop where
  before : ∀ k r, s.requests.lookup k = some r → r.executionID = [] → Unreleased r.offers
  after : ∀ k r, s.requests.lookup k = some r → r.executionID ≠ [] →
    ∃ x, s.executions.lookup r.executionID = some x ∧ Released x.offerID r.offers

/-- The execution of a request is still there, with the same offer. -/
theorem released_kept (hkept : Kept cfg op s t)
    (h : ∃ x, s.executions.lookup r.executionID = some x ∧ Released x.offerID r.offers) :
    ∃ x, t.executions.lookup r.executionID = some x ∧ Released x.offerID r.offers := by
  obtain ⟨x, hx, hreleased⟩ := h
  obtain ⟨x', hx', hwork⟩ := hkept.executions _ x hx
  refine ⟨x', hx', ?_⟩
  rw [hwork.offerID]
  exact hreleased

theorem Settled.same (h : Settled s) (hkept : Kept cfg op s t)
    (hrequests : t.requests = s.requests) : Settled t := by
  refine ⟨?_, ?_⟩
  · rw [hrequests]
    exact h.before
  · rw [hrequests]
    intro k r hr hassigned
    exact released_kept hkept (h.after k r hr hassigned)

variable {r' : RequestRecord}

theorem Settled.insert (h : Settled s) (hkept : Kept cfg op s t)
    (hrequests : t.requests = s.requests.insert k r')
    (hbefore : r'.executionID = [] → Unreleased r'.offers)
    (hafter : r'.executionID ≠ [] →
      ∃ x, t.executions.lookup r'.executionID = some x ∧ Released x.offerID r'.offers) :
    Settled t := by
  refine ⟨?_, ?_⟩
  · rw [hrequests]
    intro k' q hq hopen
    rcases AList.of_lookup_insert hq with ⟨-, rfl⟩ | ⟨-, hq⟩
    · exact hbefore hopen
    · exact h.before k' q hq hopen
  · rw [hrequests]
    intro k' q hq hassigned
    rcases AList.of_lookup_insert hq with ⟨-, rfl⟩ | ⟨-, hq⟩
    · exact hafter hassigned
    · exact released_kept hkept (h.after k' q hq hassigned)

theorem Settled.update (h : Settled s) (hkept : Kept cfg op s t)
    (hr : s.requests.lookup k = some r) (hrequests : t.requests = s.requests.insert k r')
    (hsame : SameReleases r r') : Settled t := by
  refine h.insert hkept hrequests ?_ ?_
  · rw [hsame.executionID]
    exact fun hopen => hsame.before hopen (h.before k r hr hopen)
  · rw [hsame.executionID]
    intro hassigned
    obtain ⟨x, hx, hreleased⟩ := released_kept hkept (h.after k r hr hassigned)
    exact ⟨x, hx, hsame.after hassigned x.offerID hreleased⟩

theorem Settled.create (h : Settled s) (hop : op.requestID = some k) :
    Settled (op.apply cfg s).1 := by
  have hkept : Kept cfg op s (op.apply cfg s).1 := kept_apply s op
  rcases created_cases s hop with hsame | ⟨r, -, -, hoffers, hopen, -, hcreated⟩
  · rw [hsame]
    exact h
  rw [hcreated] at hkept ⊢
  refine h.insert hkept rfl ?_ (fun hassigned => absurd hopen hassigned)
  rw [hoffers]
  intro _ o offer hoffer
  cases hoffer

theorem Settled.select (h : Settled s) (hkeyed : Keyed s) (i : Input) (k : GoString) :
    Settled (select cfg i k s).1 := by
  have hkept : Kept cfg (.select i k) s (Client.select cfg i k s).1 := kept_select i k
  cases select_cases i k s with
  | fails err hselect | repeats r x hr hassigned hx hselect =>
    rw [hselect]
    exact h
  | makes r selected _ _ hr hopen hid _ hselected hoffers hselect =>
    rw [hselect] at hkept ⊢
    obtain ⟨o, ho⟩ := hselected
    have hkey : r.offers.lookup selected.offer.offerID = some selected := by
      rw [hkeyed.offer hr ho]
      exact ho
    have hreleased := released_select hkey (h.before k r hr hopen) hoffers
    exact h.insert hkept rfl (fun hopen => absurd hopen hid)
      fun _ => ⟨_, AList.lookup_insert _, hreleased⟩

/-- Every operation keeps the releases in step with the selections. -/
theorem Settled.apply (h : Settled s) (hkeyed : Keyed s) (op : Op) :
    Settled (op.apply cfg s).1 := by
  have hkept : Kept cfg op s (op.apply cfg s).1 := kept_apply s op
  by_cases hrequests : op.requests = false
  · exact h.same hkept (frame_apply s hrequests).1
  · cases op with
    | createRequest | nextAttempt => exact h.create rfl
    | select i k => exact h.select hkeyed i k
    | handle i e =>
      rcases requests_handle cfg i e s with hsame | ⟨k, r, r', hr, hupdate, hsame⟩
      · exact h.same hkept hsame
      · exact h.update hkept hr hupdate hsame
    | _ => exact absurd rfl hrequests

theorem settled_reachable (h : (machine cfg).Reach s) : Settled s := by
  refine h.invariant_with (J := Keyed) (I := Settled) (fun _ => keyed_reachable) ?_ ?_
  · rintro s rfl
    refine ⟨?_, ?_⟩
    · intro k r hr
      cases hr
    · intro k r hr
      cases hr
  · intro s op t hkeyed _ hs _ hstep
    cases hstep
    exact hs.apply hkeyed op

-- ===== the assignments

/-- What `Select` returned first for each request. -/
abbrev Selections := GoString → Option Addressed

def Selections.note (cfg : Config) (s : State) : Op → Selections → Selections
  | .select i k, h => Function.update h k ((h k).or (select cfg i k s).2.toOption)
  | _, h => h

/-- The core, with what was selected. -/
def selecting (cfg : Config) : TransitionSystem (State × Selections) Op :=
  (machine cfg).observe (fun _ => none) fun s op _ h => Selections.note cfg s op h

/-- The request's execution is the one of its first assignment. -/
def Assigned (cfg : Config) (s : State) (r : RequestRecord) (a : Addressed) : Prop :=
  r.executionID ≠ [] ∧ ∃ x, s.executions.lookup r.executionID = some x ∧
    a = (x.destination, assignmentEnvelope cfg x)

/-- What is noted of a request: nothing before it has an execution, then
its assignment. -/
def Noted (cfg : Config) (s : State) (r : RequestRecord) : Option Addressed → Prop
  | none => r.executionID = []
  | some a => Assigned cfg s r a

/-- The fields of an assignment never change. -/
theorem Assigned.kept {a : Addressed} (h : Assigned cfg s r a) (hkept : Kept cfg op s t) :
    Assigned cfg t r a := by
  obtain ⟨hassigned, x, hx, ha⟩ := h
  obtain ⟨x', hx', hwork⟩ := hkept.executions _ x hx
  refine ⟨hassigned, x', hx', ?_⟩
  rw [ha, assignmentEnvelope, assignmentEnvelope, hwork.destination, hwork.assignmentMessageID,
    hwork.assignmentSentAt, hwork.requestID, hwork.offerID, hwork.id]

/-- Only a selection for it gives a request its execution. -/
theorem executionID_kept (hkeyed : Keyed s) (hkept : Kept cfg op s t)
    (hr : s.requests.lookup k = some r) (hr' : t.requests.lookup k = some r')
    (hop : ∀ i, op ≠ .select i k) : r'.executionID = r.executionID := by
  obtain ⟨r₁, hr₁, hsame⟩ := hkept.requests k r hr
  obtain rfl : r' = r₁ := Option.some.inj (hr'.symm.trans hr₁)
  rcases hsame.executionID with heq | ⟨hopen, x, hx, hrequest⟩
  · exact heq
  · rcases hkept.execution hx with ⟨x₀, hx₀, hwork⟩ | hselects
    · -- an execution that was there already has a request of its own
      obtain ⟨q, hq, hid⟩ := hkeyed.owner hx₀
      rw [← hwork.requestID, hrequest, hr] at hq
      cases hq
      exact hid.symm
    · obtain ⟨i, hselect, -⟩ := hselects.select
      rw [hrequest] at hselect
      exact absurd hselect (hop i)

theorem Noted.kept {noted : Option Addressed} (h : Noted cfg s r noted) (hkept : Kept cfg op s t)
    (hid : r'.executionID = r.executionID) : Noted cfg t r' noted := by
  cases noted with
  | none => exact hid.trans h
  | some a =>
    obtain ⟨hassigned, x, hx, ha⟩ := Assigned.kept h hkept
    exact ⟨by rw [hid]; exact hassigned, x, by rw [hid]; exact hx, ha⟩

/-- A selection for the request: what it returns is what was noted, or is
noted now. -/
theorem noted_select {noted : Option Addressed} (hnoted : Noted cfg s r noted)
    (hr : s.requests.lookup k = some r) (hr' : (select cfg i k s).1.requests.lookup k = some r') :
    Noted cfg (select cfg i k s).1 r' (noted.or (select cfg i k s).2.toOption) := by
  cases select_cases i k s with
  | fails err hselect =>
    rw [hselect] at hr' ⊢
    cases hr.symm.trans hr'
    show Noted cfg s r (noted.or none)
    rw [Option.or_none]
    exact hnoted
  | repeats q x hq hassigned hx hselect =>
    rw [hselect] at hr' ⊢
    cases hr.symm.trans hq
    cases hr.symm.trans hr'
    cases noted with
    | none => exact absurd hnoted hassigned
    | some a => exact hnoted
  | makes q _ _ _ hq hopen hid _ _ _ hselect =>
    rw [hselect] at hr' ⊢
    cases hr.symm.trans hq
    cases (AList.lookup_insert _).symm.trans hr'
    cases noted with
    | none => exact ⟨hid, _, AList.lookup_insert _, rfl⟩
    | some a => exact absurd hopen hnoted.1

theorem note_ne {h : Selections} (hop : ∀ i, op ≠ .select i k) :
    Selections.note cfg s op h k = h k := by
  unfold Selections.note
  split
  next i k' =>
    refine Function.update_of_ne ?_ ..
    rintro rfl
    exact hop i rfl
  · rfl

theorem noted_reachable {s : State × Selections} (h : (selecting cfg).Reach s) :
    ∀ k, (s.1.requests.lookup k = none → s.2 k = none) ∧
      ∀ r, s.1.requests.lookup k = some r → Noted cfg s.1 r (s.2 k) := by
  refine h.invariant_with (J := fun s => Keyed s.1)
    (I := fun s => ∀ k, (s.1.requests.lookup k = none → s.2 k = none) ∧
      ∀ r, s.1.requests.lookup k = some r → Noted cfg s.1 r (s.2 k))
    (fun s hs => keyed_reachable (TransitionSystem.reach_of_observe hs)) ?_ ?_
  · rintro ⟨s, h⟩ ⟨hs, hh⟩ k
    cases hs
    cases hh
    refine ⟨fun _ => rfl, fun r hr => ?_⟩
    cases hr
  · rintro s op t hkeyed - hs - hstep k
    obtain ⟨hnext, hnote⟩ := TransitionSystem.observe_step hstep
    have ht : t.1 = (op.apply cfg s.1).1 := (Option.some.inj hnext).symm
    have hkept : Kept cfg op s.1 t.1 := by
      rw [ht]
      exact kept_apply s.1 op
    obtain ⟨hmissing, hnoted⟩ := hs k
    by_cases hselect : ∃ i, op = .select i k
    · obtain ⟨i, rfl⟩ := hselect
      have hnow : t.2 k = (s.2 k).or (select cfg i k s.1).2.toOption := by
        rw [hnote]
        exact Function.update_self ..
      rw [hnow, ht]
      cases hr : s.1.requests.lookup k with
      | none =>
        have hfails : ∃ err, select cfg i k s.1 = (s.1, .error err) := by
          cases select_cases i k s.1 with
          | fails err hselect => exact ⟨err, hselect⟩
          | repeats _ _ hq | makes _ _ _ _ hq => exact nomatch hr.symm.trans hq
        obtain ⟨err, herr⟩ := hfails
        refine ⟨fun _ => ?_, ?_⟩
        · rw [hmissing hr, herr]
          rfl
        · intro r' hr'
          change (select cfg i k s.1).1.requests.lookup k = some r' at hr'
          rw [herr] at hr'
          exact nomatch hr.symm.trans hr'
      | some r =>
        refine ⟨?_, fun r' hr' => noted_select (hnoted r hr) hr hr'⟩
        intro hgone
        obtain ⟨r', hr', -⟩ := hkept.requests k r hr
        rw [ht] at hr'
        exact nomatch hgone.symm.trans hr'
    · have hop : ∀ i, op ≠ .select i k := fun i hi => hselect ⟨i, hi⟩
      have hnow : t.2 k = s.2 k := by
        rw [hnote]
        exact note_ne hop
      rw [hnow]
      cases hr : s.1.requests.lookup k with
      | none =>
        refine ⟨fun _ => hmissing hr, ?_⟩
        intro r' hr'
        rw [hmissing hr]
        rcases hkept.newRequest hr' with hold | ⟨-, -, -, -, hopen⟩
        · rw [hr] at hold
          cases hold
        · exact hopen
      | some r =>
        refine ⟨?_, ?_⟩
        · intro hgone
          obtain ⟨r', hr', -⟩ := hkept.requests k r hr
          exact nomatch hgone.symm.trans hr'
        · intro r' hr'
          exact (hnoted r hr).kept hkept (executionID_kept hkeyed hkept hr hr' hop)

-- ===== the runs

/-- From any state on, a release stays the same release. -/
theorem release_stays {o : GoString} {offer : OfferRecord} {rel : ReleaseIntent}
    (hr : s.requests.lookup k = some r) (hoffer : r.offers.lookup o = some offer)
    (hrel : offer.release = some rel) (h : ((machine cfg).startAt s).Reach t) :
    ∃ r' offer' rel', t.requests.lookup k = some r' ∧ r'.offers.lookup o = some offer' ∧
      offer'.release = some rel' ∧ SameRelease rel rel' := by
  refine h.invariant (I := fun t => ∃ r' offer' rel', t.requests.lookup k = some r' ∧
    r'.offers.lookup o = some offer' ∧ offer'.release = some rel' ∧ SameRelease rel rel') ?_ ?_
  · rintro t rfl
    exact ⟨r, offer, rel, hr, hoffer, hrel, .refl rel⟩
  · rintro t op u ⟨r₁, offer₁, rel₁, hr₁, hoffer₁, hrel₁, hsame₁⟩ - hstep
    cases hstep
    have hkept : Kept cfg op t (op.apply cfg t).1 := kept_apply t op
    obtain ⟨r₂, hr₂, hsameRequest⟩ := hkept.requests k r₁ hr₁
    obtain ⟨offer₂, hoffer₂, hsameOffer⟩ := hsameRequest.offers o offer₁ hoffer₁
    obtain ⟨rel₂, hrel₂, hsame₂⟩ := hsameOffer.release rel₁ hrel₁
    exact ⟨r₂, offer₂, rel₂, hr₂, hoffer₂, hrel₂, hsame₂.messageID.trans hsame₁.messageID,
      hsame₂.sentAt.trans hsame₁.sentAt, hsame₂.destination.trans hsame₁.destination⟩

/-- Before the first successful selection for a request none of its offers
has a release. Afterwards every offer but the selected one has exactly
one, which keeps its message ID, time and destination, and every
selection returns the first assignment. A selection that fails changes
nothing. -/
theorem releases_follow_the_selection {s : State × Selections} (h : (selecting cfg).Reach s)
    {k : GoString} {r : RequestRecord} (hr : s.1.requests.lookup k = some r) :
    (s.2 k = none → ∀ o offer, r.offers.lookup o = some offer → offer.release = none) ∧
    (∀ a, s.2 k = some a → ∃ chosen x,
      a.2.payload = some (.executionAssign ⟨k, chosen, x⟩) ∧
      (∃ offer, r.offers.lookup chosen = some offer ∧ offer.release = none) ∧
      (∀ o offer, r.offers.lookup o = some offer → o ≠ chosen → offer.release.isSome = true) ∧
      ∀ i, select cfg i k s.1 = (s.1, .ok a)) ∧
    (∀ o offer rel, r.offers.lookup o = some offer → offer.release = some rel →
      ∀ t, ((machine cfg).startAt s.1).Reach t →
        ∃ r' offer' rel', t.requests.lookup k = some r' ∧ r'.offers.lookup o = some offer' ∧
          offer'.release = some rel' ∧ SameRelease rel rel') ∧
    ∀ i err, (select cfg i k s.1).2 = .error err → (select cfg i k s.1).1 = s.1 := by
  have hreach := TransitionSystem.reach_of_observe h
  have hsettled := settled_reachable hreach
  have hnoted := (noted_reachable h k).2 r hr
  refine ⟨?_, ?_, ?_, fun i err => select_error⟩
  · intro hnone
    rw [hnone] at hnoted
    exact hsettled.before k r hr hnoted
  · intro a ha
    rw [ha] at hnoted
    obtain ⟨hassigned, x, hx, haddressed⟩ := hnoted
    obtain ⟨x', hx', hreleased⟩ := hsettled.after k r hr hassigned
    obtain rfl : x = x' := Option.some.inj (hx.symm.trans hx')
    obtain ⟨x'', hx'', hrequest⟩ := (keyed_reachable hreach).assigned hr hassigned
    obtain rfl : x = x'' := Option.some.inj (hx.symm.trans hx'')
    refine ⟨x.offerID, x.id, ?_, hreleased.selected, hreleased.others, ?_⟩
    · rw [haddressed, ← hrequest]
      rfl
    · intro i
      cases select_cases i k s.1 with
      | fails err hselect =>
        -- the request has its execution, so there is nothing to fail
        unfold select at hselect
        rw [hr] at hselect
        simp only [hassigned, ne_eq, not_false_eq_true, if_true, hx] at hselect
        cases hselect
      | repeats q x' hq _ hx' hselect =>
        cases hr.symm.trans hq
        cases hx.symm.trans hx'
        rw [hselect, haddressed]
      | makes _ _ _ _ hq hopen =>
        cases hr.symm.trans hq
        exact absurd hopen hassigned
  · intro o offer rel hoffer hrel t ht
    exact release_stays hr hoffer hrel ht

/-- A second offer of the same request. -/
def secondOffer : ExecutionOffer := { plainOffer with offerID := text "second" }

/-- Two offers, one selected: selecting again, with other IDs, returns the
same assignment. -/
theorem losing_offer_is_released :
    ∃ s r a, (selecting plainClient).Reach s ∧
      s.1.requests.lookup (text "request") = some r ∧ s.2 (text "request") = some a ∧
      (∃ o offer, r.offers.lookup o = some offer ∧ offer.release.isSome = true) ∧
      select plainClient (plainInput ["y", "m7"]) (text "request") s.1 = (s.1, .ok a) := by
  obtain ⟨s, hs, hp⟩ := (selecting plainClient).exists_reach (.observe rfl)
    (selected.take 3 ++
      [ .handle (plainInput []) (plainReply "m1" (.executionOffer secondOffer)),
        .select (plainInput ["x", "m2", "m3"]) (text "request") ])
    (fun s => (s.2 (text "request")).isSome &&
      (s.1.requests.lookup (text "request")).any fun r =>
        r.offers.any fun _ offer => offer.release.isSome) (by decide +kernel)
  simp only [Bool.and_eq_true, Option.any_eq_true, AList.any_eq_true] at hp
  obtain ⟨hnoted, r, hr, o, offer, hoffer, hreleased⟩ := hp
  obtain ⟨a, ha⟩ := Option.isSome_iff_exists.mp hnoted
  obtain ⟨chosen, x, -, -, -, hselect⟩ := (releases_follow_the_selection hs hr).2.1 a ha
  exact ⟨s, r, a, hs, hr, ha, ⟨o, offer, hoffer, hreleased⟩, hselect _⟩

end R1s.Client
