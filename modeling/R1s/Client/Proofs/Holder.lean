/-
Who holds the lease intent of a run. The controller keeps the active
attempt in a local variable while the intent moves inside the core;
`Place` says for each stage how the two stand to each other and to the
execution assigned last.

# What can part them

Two exits do. When `renewOrReRequest` returns an error after it rebound
the intent, `holdRun` goes on with the attempt it had before; and when
the send of a replacement's assignment fails there, the intent that was
recorded for it stays. `Sound` is a step that takes neither, and every
sound step keeps `Place`. The attempt numbers need more: any error that
`renewOrReRequest` returns after it created a request lets the next
request take the same number again (`Steady`).
-/
import R1s.Client.Proofs.Driven

namespace R1s.Client

open Option (some)

-- ===== the lease intent

/-- The intent while nothing is assigned in place of what `c` lost. -/
structure Ready (o : Outline) (l : GoString) (c : Caller) : Prop where
  carries : ∀ y, o.carries y ↔ c ≠ .run ∧ y = c.lostID
  last : l = c.lostID
  active : ∀ r, c = .renew r → r.rerequested = false → r.active.executionID = r.activeID

/-- The intent once the execution `x` of the request `k` has one too. -/
structure Picked (o : Outline) (c : Caller) (k x : GoString) : Prop where
  carries : ∀ y, o.carries y ↔ y = x ∨ c ≠ .run ∧ y = c.lostID
  execution : o.execution x = some (k, true)
  request : ∃ q, o.request k = some (q, x)
  fresh : x ≠ c.lostID
  active : ∀ r, c = .renew r → r.rerequested = false → r.active.executionID = r.activeID

/-- The lease intent, the last assignment and the stage of a run. -/
def Place : View → Prop
  | ⟨o, l, .idle⟩ => (∀ y, ¬o.carries y) ∧ l = []
  | ⟨o, l, .losing c⟩ => Ready o l c ∧ c ≠ .run
  | ⟨o, l, .creating c _⟩ => Ready o l c
  | ⟨o, l, .asking c k⟩ => Ready o l c ∧ ∃ q, o.request k = some (q, [])
  | ⟨o, l, .chosen c k x⟩ => Ready o l c ∧ (∃ q, o.request k = some (q, x)) ∧
      o.execution x = some (k, false) ∧ x ≠ c.lostID
  | ⟨o, l, .recorded c k x⟩ => Picked o c k x ∧ l = c.lostID
  | ⟨o, l, .assigned c k x⟩ => Picked o c k x ∧ l = x
  | ⟨o, l, .held a⟩ => (∀ y, o.carries y ↔ y = a.executionID) ∧ l = a.executionID
  | ⟨o, l, .renewing r⟩ => Ready o l (.renew r)
  | ⟨_, l, .over result⟩ => l = result.attempt.executionID

/-- The renewal the stage belongs to. -/
def Stage.renewal : Stage → Option Renewal
  | .losing c | .creating c _ | .asking c _ | .chosen c _ _ | .recorded c _ _
  | .assigned c _ _ => c.renewal
  | .renewing r => some r
  | _ => none

/-- The step parts nothing: `renewOrReRequest` gives up only with the
attempt it was called for, and no replacement's assignment fails in it. -/
structure Sound (kind : Mishap) (stage : Stage) : Prop where
  gaveUp : kind = .gaveUp → ∀ r, stage.renewal = some r → r.rerequested = false
  refused : kind = .refused → stage.renewal = none

section

variable {o : Outline} {l k k' x y : GoString} {c : Caller} {q : ExecutionRequest}
  {intent : Bool}

theorem carries_setRequest : (o.setRequest k q x).carries y ↔ o.carries y := Iff.rfl

theorem carries_setExecution_self : (o.setExecution x k intent).carries x ↔ intent = true := by
  unfold Outline.carries
  simp

theorem carries_setExecution_ne (h : y ≠ x) :
    (o.setExecution x k intent).carries y ↔ o.carries y := by
  unfold Outline.carries
  rw [Outline.execution_setExecution_ne h]

/-- A failed attempt gives back what was held before. -/
theorem Ready.failed (h : Ready o l c)
    (hsound : ∀ r, c = .renew r → r.rerequested = false) : Place ⟨o, l, c.failed⟩ := by
  cases c with
  | run | hold => exact h.last
  | renew r =>
    have heq := h.active r rfl (hsound r rfl)
    refine ⟨fun y => ?_, ?_⟩
    · rw [h.carries y, heq]
      exact and_iff_right nofun
    · rw [heq]
      exact h.last

theorem Sound.caller {kind : Mishap} {stage : Stage} (h : Sound kind stage)
    (hkind : kind = c.mishap) (hstage : stage.renewal = c.renewal) :
    ∀ r, c = .renew r → r.rerequested = false := by
  rintro r rfl
  exact h.gaveUp hkind r hstage

theorem place_chose (h : Ready o l c) (hnew : o.execution x = none) (hx : x ≠ []) :
    Place ⟨(o.setRequest k q x).setExecution x k false, l, .chosen c k x⟩ := by
  have hcarries : ¬o.carries x := by
    rintro ⟨k', hk'⟩
    exact nomatch hnew.symm.trans hk'
  refine ⟨⟨fun y => ?_, h.last, h.active⟩, ⟨q, ?_⟩, ?_, ?_⟩
  · rw [← h.carries y]
    by_cases hy : y = x
    · subst hy
      rw [carries_setExecution_self]
      exact iff_of_false nofun hcarries
    · rw [carries_setExecution_ne hy]
      exact carries_setRequest
  · exact Outline.request_setRequest
  · exact Outline.execution_setExecution
  · cases c with
    | run => exact hx
    | hold | renew =>
      rintro rfl
      exact hcarries ((h.carries _).mpr ⟨nofun, rfl⟩)

theorem place_rebound {kl : GoString} {a : Attempt} (h : Picked o c k a.executionID)
    (hlast : l = a.executionID) (hne : c.lostID ≠ a.executionID) (hc : c ≠ .run) :
    Place ⟨(o.setExecution a.executionID k' true).setExecution c.lostID kl false, l,
      c.rebound a⟩ := by
  have hcarries : ∀ y, ((o.setExecution a.executionID k' true).setExecution c.lostID kl
      false).carries y ↔ y = a.executionID := by
    intro y
    by_cases hlost : y = c.lostID
    · rw [hlost, carries_setExecution_self]
      exact iff_of_false nofun hne
    · rw [carries_setExecution_ne hlost]
      by_cases hy : y = a.executionID
      · rw [hy, carries_setExecution_self]
        exact iff_of_true rfl rfl
      · rw [carries_setExecution_ne hy, h.carries y]
        simp [hy, hlost]
  cases c with
  | run => exact absurd rfl hc
  | hold active => exact ⟨hcarries, hlast⟩
  | renew r =>
    refine ⟨fun y => ?_, hlast, ?_⟩
    · rw [hcarries y]
      exact (and_iff_right nofun).symm
    · intro r' hr' hrerequested
      cases hr'
      cases hrerequested

/-- A sound step keeps the place. -/
theorem place_turns {kind : Mishap} {v v' : View} (hturns : Turns kind v v')
    (hsound : Sound kind v.stage) (h : Place v) : Place v' := by
  cases hturns with
  | stay => exact h
  | lost =>
    obtain ⟨hcarries, hlast⟩ := h
    exact ⟨⟨fun y => (hcarries y).trans (and_iff_right nofun).symm, hlast, nofun⟩, nofun⟩
  | due =>
    obtain ⟨hcarries, hlast⟩ := h
    refine ⟨fun y => (hcarries y).trans (and_iff_right nofun).symm, hlast, ?_⟩
    rintro r hr -
    cases hr
    rfl
  | finished state => exact h.2
  | gaveUp => exact Ready.failed (c := .renew _) h (hsound.caller (c := .renew _) rfl rfl)
  | renewed hrerequested =>
    refine Ready.failed (c := .renew _) h ?_
    rintro r hr
    cases hr
    exact hrerequested
  | replaced hrerequested ha =>
    refine ⟨fun y => ?_, ?_⟩
    · rw [ha, h.carries y]
      exact and_iff_right nofun
    · rw [ha]
      exact h.last
  | doubted => exact ⟨h, nofun⟩
  | recalled hq => exact h.1
  | forgotten | unanswered | unrecorded => exact h.1.failed (hsound.caller rfl rfl)
  | uncreated => exact Ready.failed h (hsound.caller rfl rfl)
  | created hnew hattempt => exact ⟨⟨h.carries, h.last, h.active⟩, _, Outline.request_setRequest⟩
  | chose hopen hnew hx => exact place_chose h.1 hnew hx
  | @recorded _ _ _ _ x _ _ hx =>
    obtain ⟨hready, ⟨q, hq⟩, hexecution, hfresh⟩ := h
    cases some.inj (hx.symm.trans hexecution)
    refine ⟨⟨fun y => ?_, Outline.execution_setExecution, ⟨q, hq⟩, hfresh, hready.active⟩,
      hready.last⟩
    by_cases hy : y = x
    · rw [hy, carries_setExecution_self]
      exact iff_of_true rfl (.inl rfl)
    · rw [carries_setExecution_ne hy, hready.carries y]
      simp [hy]
  | @refused _ _ _ _ c =>
    cases c with
    | run | hold => exact h.2
    | renew r => exact nomatch hsound.refused rfl
  | assigned => exact ⟨h.1, rfl⟩
  | undescribed hq =>
    obtain ⟨q, hrequest⟩ := h.1.request
    rw [Outline.requestOf, h.1.execution] at hq
    simp [hrequest] at hq
  | began ha =>
    refine ⟨fun y => ?_, ?_⟩
    · rw [ha, h.1.carries y]
      simp
    · rw [ha]
      exact h.2
  | unbound hc hbad =>
    refine absurd ⟨fun heq => h.1.fresh heq.symm, ?_, ?_⟩ hbad
    · exact (h.1.carries _).mpr (.inr ⟨hc, rfl⟩)
    · rw [h.1.execution]
      rfl
  | @rebound _ _ _ _ _ c _ _ hne hlost hnew =>
    by_cases hc : c = .run
    · subst hc
      have hrun : Outline.carries _ (Caller.run).lostID := ⟨_, hlost⟩
      rw [h.1.carries] at hrun
      simp only [ne_eq, not_true_eq_false, false_and, or_false] at hrun
      exact absurd hrun hne
    · exact place_rebound h.1 h.2 hne hc

end

-- ===== the attempt numbers

/-- No attempt of the run has a number above `n`. -/
def Outline.below (o : Outline) (n : Nat) : Prop :=
  ∀ k q x, o.request k = some (q, x) → q.attempt ≤ n

/-- The request is the run's newest attempt. -/
def Outline.newest (o : Outline) (k : GoString) : Prop :=
  ∃ q x, o.request k = some (q, x) ∧ o.below q.attempt

/-- Every attempt of the run has a number of its own. -/
def Outline.distinct (o : Outline) : Prop :=
  ∀ k k' q q' x x', o.request k = some (q, x) → o.request k' = some (q', x') →
    q.attempt = q'.attempt → k = k'

/-- The newest attempt and the stage of a run. -/
def Newest : View → Prop
  | ⟨o, _, .idle⟩ => ∀ k, o.request k = none
  | ⟨o, _, .creating .run _⟩ => ∀ k, o.request k = none
  | ⟨o, _, .creating c q⟩ => ∃ k intent x, o.execution c.lostID = some (k, intent) ∧
      o.request k = some (q, x) ∧ o.below q.attempt
  | ⟨o, _, .losing c⟩ => ∃ k intent, o.execution c.lostID = some (k, intent) ∧ o.newest k
  | ⟨o, _, .asking _ k⟩ | ⟨o, _, .chosen _ k _⟩ | ⟨o, _, .recorded _ k _⟩
  | ⟨o, _, .assigned _ k _⟩ => o.newest k
  | ⟨o, _, .held a⟩ => ∃ k intent, o.execution a.executionID = some (k, intent) ∧ o.newest k
  | ⟨o, _, .renewing r⟩ => ∃ k intent, o.execution r.activeID = some (k, intent) ∧ o.newest k
  | ⟨_, _, .over _⟩ => True

/-- A request of the stage was created. -/
def Stage.requested : Stage → Bool
  | .asking _ _ | .chosen _ _ _ | .recorded _ _ _ | .assigned _ _ _ => true
  | _ => false

section

variable {o : Outline} {l k k' x : GoString} {c : Caller} {q : ExecutionRequest}

theorem newest_setRequest {x' : GoString} (hk : o.request k = some (q, x))
    (h : o.newest k') : (o.setRequest k q x').newest k' := by
  obtain ⟨q', y, hq', hbelow⟩ := h
  have hbelow' : (o.setRequest k q x').below q'.attempt := by
    intro j p z hj
    by_cases heq : j = k
    · subst heq
      cases some.inj (Outline.request_setRequest.symm.trans hj)
      exact hbelow _ _ _ hk
    · exact hbelow j p z ((Outline.request_setRequest_ne heq).symm.trans hj)
  by_cases heq : k' = k
  · subst heq
    cases some.inj (hk.symm.trans hq')
    exact ⟨q, x', Outline.request_setRequest, hbelow'⟩
  · exact ⟨q', y, (Outline.request_setRequest_ne heq).trans hq', hbelow'⟩

theorem distinct_setRequest {x' : GoString} (hk : o.request k = some (q, x))
    (h : o.distinct) : (o.setRequest k q x').distinct := by
  have hback : ∀ j p z, (o.setRequest k q x').request j = some (p, z) →
      ∃ z', o.request j = some (p, z') := by
    intro j p z hj
    by_cases heq : j = k
    · subst heq
      cases some.inj (Outline.request_setRequest.symm.trans hj)
      exact ⟨x, hk⟩
    · exact ⟨z, (Outline.request_setRequest_ne heq).symm.trans hj⟩
  intro j j' p p' z z' hj hj' hp
  obtain ⟨y, hy⟩ := hback j p z hj
  obtain ⟨y', hy'⟩ := hback j' p' z' hj'
  exact h j j' p p' y y' hy hy' hp

/-- A new request has the highest number. -/
theorem newest_created {q' : ExecutionRequest} {n : Nat} (hbelow : o.below n)
    (hattempt : q'.attempt = n + 1) (h : o.distinct) :
    (o.setRequest k q' []).newest k ∧ (o.setRequest k q' []).distinct := by
  have hother : ∀ j p z, j ≠ k → (o.setRequest k q' []).request j = some (p, z) →
      o.request j = some (p, z) ∧ p.attempt < q'.attempt := by
    intro j p z hne hj
    have hold : o.request j = some (p, z) := (Outline.request_setRequest_ne hne).symm.trans hj
    have hle := hbelow j p z hold
    exact ⟨hold, by omega⟩
  have hself : ∀ p z, (o.setRequest k q' []).request k = some (p, z) → p = q' := by
    intro p z hk
    cases some.inj (Outline.request_setRequest.symm.trans hk)
    rfl
  refine ⟨⟨q', [], Outline.request_setRequest, ?_⟩, ?_⟩
  · intro j p z hj
    by_cases heq : j = k
    · rw [heq] at hj
      rw [hself p z hj]
    · exact (hother j p z heq hj).2.le
  · intro j j' p p' z z' hj hj' hp
    by_cases heq : j = k
    · by_cases heq' : j' = k
      · rw [heq, heq']
      · rw [heq] at hj
        have hlt := (hother j' p' z' heq' hj').2
        rw [← hp, hself p z hj] at hlt
        exact absurd hlt (Nat.lt_irrefl _)
    · have hlt := (hother j p z heq hj).2
      by_cases heq' : j' = k
      · rw [heq'] at hj'
        rw [hp, hself p' z' hj'] at hlt
        exact absurd hlt (Nat.lt_irrefl _)
      · exact h j j' p p' z z' (hother j p z heq hj).1 (hother j' p' z' heq' hj').1 hp

theorem newest_setExecution {y j : GoString} {intent : Bool}
    (hy : o.execution y = some (j, intent)) (intent' : Bool)
    (h : ∃ k b, o.execution x = some (k, b) ∧ o.newest k) :
    ∃ k b, (o.setExecution y j intent').execution x = some (k, b) ∧
      (o.setExecution y j intent').newest k := by
  obtain ⟨k, b, hx, hnewest⟩ := h
  by_cases heq : x = y
  · subst heq
    cases some.inj (hy.symm.trans hx)
    exact ⟨j, intent', Outline.execution_setExecution, hnewest⟩
  · exact ⟨k, b, (Outline.execution_setExecution_ne heq).trans hx, hnewest⟩

/-- A failed attempt that created no request. -/
theorem Newest.failed (hready : Ready o l c) (hsound : ∀ r, c = .renew r → r.rerequested = false)
    (h : c ≠ .run → ∃ k intent, o.execution c.lostID = some (k, intent) ∧ o.newest k) :
    Newest ⟨o, l, c.failed⟩ := by
  cases c with
  | run | hold => exact trivial
  | renew r =>
    have hnewest := h nofun
    rw [Caller.lostID, ← hready.active r rfl (hsound r rfl)] at hnewest
    exact hnewest

end

/-- The step creates no second attempt of one number: `renewOrReRequest`
gives up only before it creates a request. -/
structure Steadily (kind : Mishap) (stage : Stage) : Prop extends Sound kind stage where
  requested : kind = .gaveUp → stage.requested = false

section

variable {o : Outline} {l k x : GoString} {c : Caller} {q : ExecutionRequest}

/-- A failed attempt after its request was created ends the run. -/
theorem Steadily.failed {stage : Stage} (h : Steadily c.mishap stage)
    (hstage : stage.requested = true) : Newest ⟨o, l, c.failed⟩ := by
  cases c with
  | run | hold => exact trivial
  | renew r => exact nomatch hstage.symm.trans (h.requested rfl)

theorem newest_creating (hc : c ≠ .run) (h : Newest ⟨o, l, .creating c q⟩) :
    ∃ k intent x, o.execution c.lostID = some (k, intent) ∧ o.request k = some (q, x) ∧
      o.below q.attempt := by
  cases c with
  | run => exact absurd rfl hc
  | hold | renew => exact h

/-- What a steady step keeps of the attempt numbers. -/
theorem newest_turns {kind : Mishap} {v v' : View} (hturns : Turns kind v v')
    (hsteady : Steadily kind v.stage) (hplace : Place v) (h : Newest v)
    (hdistinct : v.outline.distinct) : Newest v' ∧ v'.outline.distinct := by
  cases hturns with
  | stay | lost | due | doubted | recorded | assigned => exact ⟨h, hdistinct⟩
  | finished state => exact ⟨trivial, hdistinct⟩
  | gaveUp =>
    refine ⟨Newest.failed (c := .renew _) hplace ?_ fun _ => h, hdistinct⟩
    exact hsteady.caller (c := .renew _) rfl rfl
  | renewed hrerequested =>
    refine ⟨Newest.failed (c := .renew _) hplace ?_ fun _ => h, hdistinct⟩
    rintro r hr
    cases hr
    exact hrerequested
  | replaced hrerequested ha =>
    refine ⟨?_, hdistinct⟩
    show ∃ k intent, _
    rw [ha]
    exact h
  | @recalled o l c q hq =>
    refine ⟨?_, hdistinct⟩
    obtain ⟨k, intent, hx, q', x, hk, hbelow⟩ := h
    rw [Outline.requestOf, hx] at hq
    simp only [Option.bind_some, hk, Option.map_some, some.injEq] at hq
    subst hq
    cases c with
    | run => exact absurd rfl hplace.2
    | hold | renew => exact ⟨k, intent, x, hx, hk, hbelow⟩
  | forgotten hq =>
    exact ⟨Newest.failed hplace.1 (hsteady.caller rfl rfl) fun _ => h, hdistinct⟩
  | uncreated =>
    refine ⟨Newest.failed hplace (hsteady.caller rfl rfl) fun hc => ?_, hdistinct⟩
    obtain ⟨k, intent, x, hx, hk, hbelow⟩ := newest_creating hc h
    exact ⟨k, intent, hx, _, x, hk, hbelow⟩
  | @created o l k c q q' hnew hattempt =>
    by_cases hc : c = .run
    · subst hc
      have hbelow : o.below 0 := fun j p z hj => nomatch (h j).symm.trans hj
      exact newest_created hbelow (by simpa using hattempt) hdistinct
    · obtain ⟨-, -, -, -, -, hbelow⟩ := newest_creating hc h
      exact newest_created hbelow (by simpa [hc] using hattempt) hdistinct
  | unanswered | unrecorded | undescribed | unbound => exact ⟨hsteady.failed rfl, hdistinct⟩
  | chose hopen hnew hx =>
    exact ⟨newest_setRequest hopen h, distinct_setRequest hopen hdistinct⟩
  | @refused o l k x c =>
    refine ⟨?_, hdistinct⟩
    cases c with
    | run | hold => exact trivial
    | renew r => exact nomatch hsteady.refused rfl
  | @began o l k x a ha =>
    refine ⟨?_, hdistinct⟩
    show ∃ k intent, _
    rw [ha]
    exact ⟨k, true, hplace.1.execution, h⟩
  | @rebound o l k k' kl c a intent hne hlost hnew =>
    refine ⟨?_, hdistinct⟩
    have hnewest : ∃ j b, o.execution a.executionID = some (j, b) ∧ o.newest j :=
      ⟨k, true, hplace.1.execution, h⟩
    have hfirst := newest_setExecution hnew true hnewest
    have hold : (o.setExecution a.executionID k' true).execution c.lostID = some (kl, true) :=
      (Outline.execution_setExecution_ne hne).trans hlost
    have hboth := newest_setExecution hold false hfirst
    cases c with
    | run | hold | renew => exact hboth

end

-- ===== the runs

/-- A request was created for the attempt that is under way. -/
def Pc.requested : Pc → Bool
  | .asking _ _ _ | .collecting _ _ _ | .selecting _ _ | .recording _ _ _ | .assigning _ _ _
  | .describing _ _ | .snapshotting _ _ _ | .rebinding _ _ => true
  | _ => false

/-- `renewOrReRequest` meets no error once it rebound the intent, and no
assignment fails in it. -/
structure Unparted (cfg : Config) (s : Controller) (l : RunLabel) : Prop where
  gaveUp : ∀ r, s.pc.renewal = some r → r.rerequested = true → s.errs cfg l = false
  refused : ∀ a d e err, s.pc = .assigning a d e → l = .move (.sent (some err)) →
    a.caller.renewal = none

/-- `renewOrReRequest` meets no error once it created a request. -/
def Steady (cfg : Config) (s : Controller) (l : RunLabel) : Prop :=
  ∀ r, s.pc.renewal = some r → r.rerequested = true ∨ s.pc.requested = true →
    s.errs cfg l = false

section

variable {cfg : Config} {s t : Controller} {m : Move} {l : RunLabel}

theorem renewal_stage {pc : Pc} {r : Renewal} (h : pc.renewal = some r) :
    pc.stage.renewal = some r := by
  cases pc <;> first | exact h | cases h

theorem requested_stage (pc : Pc) : pc.stage.requested = pc.requested := by
  cases pc <;> rfl

theorem Steady.unparted (h : Steady cfg s l) : Unparted cfg s l := by
  refine ⟨fun r hr hrerequested => h r hr (.inl hrerequested), ?_⟩
  rintro a d e err hpc rfl
  cases hcaller : a.caller with
  | run | hold => rfl
  | renew r =>
    have hrenewal : s.pc.renewal = some r := by
      rw [hpc]
      exact congrArg Caller.renewal hcaller
    cases h r hrenewal (.inr (by rw [hpc]; rfl))

/-- What an unparted step is to the placement. -/
theorem Unparted.sound (h : Unparted cfg s (.move m)) (hsim : Simulates cfg s m t) :
    ∃ kind, Turns kind s.view t.view ∧ Sound kind s.pc.stage ∧
      (kind = .gaveUp → s.pc.renewal.isSome = true ∧ s.errs cfg (.move m) = true) := by
  obtain ⟨kind, hturns, hgaveUp, hrefused, -⟩ := hsim
  refine ⟨kind, hturns, ⟨?_, ?_⟩, hgaveUp⟩
  · intro hkind r hr
    obtain ⟨hsome, herrs⟩ := hgaveUp hkind
    obtain ⟨r', hr'⟩ := Option.isSome_iff_exists.mp hsome
    obtain rfl : r' = r := some.inj ((renewal_stage hr').symm.trans hr)
    cases hrerequested : r'.rerequested with
    | false => rfl
    | true => cases herrs.symm.trans (h.gaveUp r' hr' hrerequested)
  · intro hkind
    obtain ⟨a, d, e, err, hpc, rfl⟩ := hrefused hkind
    rw [hpc]
    exact h.refused a d e err hpc rfl

theorem fit_of_place (hkeyed : Keyed s.core) (htyped : s.pc.Typed) (h : Place s.view) : Fit s := by
  refine ⟨hkeyed, htyped, ?_, ?_⟩
  · intro c k hstage
    rw [Controller.view, hstage] at h
    exact h.2
  · intro r hstage
    rw [Controller.view, hstage] at h
    exact (h.carries _).mpr ⟨(by rintro ⟨⟩), rfl⟩

/-- A step aside, as the placement sees it. -/
theorem Aside.view (h : Aside cfg s t) (hkeyed : Keyed s.core) :
    t.view = s.view ∧ t.pc = s.pc ∨
      ∃ q, s.pc.stage = .idle ∧ t.pc = .creating .run q [] ∧
        t.view = ⟨s.core.outline, (assigned s.sends).headD [], .creating .run q⟩ := by
  have houtline := h.outline hkeyed
  rcases h.pc with hpc | ⟨hidle, q, hpc⟩
  · refine .inl ⟨?_, hpc⟩
    rw [Controller.view, Controller.view, houtline, h.sends, hpc]
  · refine .inr ⟨q, by rw [hidle]; rfl, hpc, ?_⟩
    rw [Controller.view, houtline, h.sends, hpc]
    rfl

/-- The place is kept in every run that nothing parts. -/
theorem place_reachable {ok : Controller → RunLabel → Prop}
    (hok : ∀ s l, ok s l → Unparted cfg s l) (h : (runs cfg).ReachWhen ok s) :
    Place s.view ∧ s.pc.Typed := by
  refine h.invariant_with (J := fun s => Keyed s.core)
    (I := fun s => Place s.view ∧ s.pc.Typed)
    (fun s hs => keyed_core (hs.mono fun _ _ _ => trivial)) ?_ ?_
  · rintro s ⟨destinations, rfl⟩
    exact ⟨⟨(by rintro _ ⟨_, ⟨⟩⟩), rfl⟩, trivial⟩
  · rintro s l t hkeyed - ⟨hplace, htyped⟩ hguard hstep
    rcases step_cases hstep with ⟨m, rfl, hturn⟩ | haside
    · have hsim := simulates_turn (fit_of_place hkeyed htyped hplace) hturn
      obtain ⟨kind, hturns, hsound, -⟩ := (hok _ _ hguard).sound hsim
      exact ⟨place_turns hturns hsound hplace, hsim.choose_spec.2.2.2⟩
    · rcases haside.view hkeyed with ⟨hview, hpc⟩ | ⟨q, hidle, hpc, hview⟩
      · rw [hview, hpc]
        exact ⟨hplace, htyped⟩
      · rw [Controller.view, hidle] at hplace
        rw [hview, hpc]
        refine ⟨⟨fun y => ?_, hplace.2, (by rintro _ ⟨⟩)⟩, trivial⟩
        exact iff_of_false (hplace.1 y) fun hrun => hrun.1 rfl

/-- The attempt numbers in every steady run. -/
theorem newest_reachable (h : (runs cfg).ReachWhen (Steady cfg) s) :
    Newest s.view ∧ s.core.outline.distinct := by
  refine h.invariant_with
    (J := fun s => Keyed s.core ∧ Place s.view ∧ s.pc.Typed)
    (I := fun s => Newest s.view ∧ s.core.outline.distinct)
    (fun s hs => ⟨keyed_core (hs.mono fun _ _ _ => trivial),
      place_reachable (fun _ _ => Steady.unparted) hs⟩) ?_ ?_
  · rintro s ⟨destinations, rfl⟩
    exact ⟨fun _ => rfl, nofun⟩
  · rintro s l t ⟨hkeyed, hplace, htyped⟩ - ⟨hnewest, hdistinct⟩ hguard hstep
    rcases step_cases hstep with ⟨m, rfl, hturn⟩ | haside
    · have hsim := simulates_turn (fit_of_place hkeyed htyped hplace) hturn
      obtain ⟨kind, hturns, hsound, hgaveUp⟩ := hguard.unparted.sound hsim
      refine newest_turns hturns ⟨hsound, ?_⟩ hplace hnewest hdistinct
      intro hkind
      obtain ⟨hsome, herrs⟩ := hgaveUp hkind
      obtain ⟨r, hr⟩ := Option.isSome_iff_exists.mp hsome
      show s.pc.stage.requested = false
      rw [requested_stage]
      cases hrequested : s.pc.requested with
      | false => rfl
      | true => cases herrs.symm.trans (hguard r hr (.inr hrequested))
    · rcases haside.view hkeyed with ⟨hview, -⟩ | ⟨q, hidle, hpc, hview⟩
      · rw [hview, haside.outline hkeyed]
        exact ⟨hnewest, hdistinct⟩
      · rw [Controller.view, hidle] at hnewest
        rw [hview, haside.outline hkeyed]
        exact ⟨hnewest, hdistinct⟩

end

end R1s.Client
