/-
The mark that an execution's lease is lost, against what was observed of
it. Every operation keeps the mark in step with the observed state, except
a rebinding: `RebindLeaseIntent` clears the mark of the replacement whatever
was observed of it before.
-/
import R1s.Client.Proofs.Feedback
import R1s.Client.Run

namespace R1s.Client

variable {cfg : Config} {s : State}

/-- An intent on an execution observed to have lost its lease carries the
mark. -/
def LossesMarked (s : State) : Prop :=
  ∀ x r, s.executions.lookup x = some r → 0 < r.leaseDuration →
    r.state.any lostLeaseState = true → r.leaseLost = true

/-- A rebinding that takes effect on a replacement whose own loss was
observed already. -/
def Op.rebindsLost (s : State) : Op → Bool
  | .rebind old new =>
    old ≠ new && ((s.executions.lookup old).any fun r => decide (0 < r.leaseDuration))
      && (s.executions.lookup new).any fun r => r.state.any lostLeaseState
  | _ => false

theorem lossesMarked_iff :
    LossesMarked s ↔ ∀ x r, s.executions.lookup x = some r → r.forfeit = true →
      r.leaseLost = true := by
  simp only [LossesMarked, ExecutionRecord.forfeit, Bool.and_eq_true, decide_eq_true_eq, and_imp]

/-- Every operation but a rebinding. -/
theorem LossesMarked.kept {t : State} {op : Op} (h : LossesMarked s) (hkept : Kept cfg op s t)
    (hop : ∀ old new, op ≠ .rebind old new) : LossesMarked t := by
  rw [lossesMarked_iff] at h ⊢
  intro x r hr hforfeit
  rcases hkept.execution hr with ⟨r₀, hr₀, hwork⟩ | hnew
  · by_contra hunmarked
    rw [Bool.not_eq_true] at hunmarked
    rcases hwork.marked hforfeit hunmarked with ⟨hforfeit₀, hunmarked₀⟩ | ⟨old, new, heq⟩
    · rw [h x r₀ hr₀ hforfeit₀] at hunmarked₀
      cases hunmarked₀
    · exact hop old new heq
  · -- a selected execution has no observed state yet
    obtain ⟨-, -, -, -, -, hstate⟩ := hnew.fresh
    rw [ExecutionRecord.forfeit, hstate, Bool.and_eq_true] at hforfeit
    cases hforfeit.2

theorem lossesMarked_rebind (h : LossesMarked s) (old new : GoString) :
    LossesMarked (rebindLeaseIntent old new s).1 ↔ Op.rebindsLost s (.rebind old new) = false := by
  simp only [rebindLeaseIntent, Op.rebindsLost]
  cases hold : s.executions.lookup old with
  | none => simpa using h
  | some previous =>
    cases hnew : s.executions.lookup new with
    | none => simpa using h
    | some replacement =>
      dsimp only [Option.any_some]
      by_cases hsame : old = new
      · rw [if_pos hsame]
        simpa [hsame] using h
      · rw [if_neg hsame]
        by_cases hnone : previous.leaseDuration ≤ 0
        · rw [if_pos hnone]
          simpa [Int.not_lt.mpr hnone] using h
        · rw [if_neg hnone]
          have hpositive : 0 < previous.leaseDuration := Int.not_le.mp hnone
          simp only [hsame, hpositive, ne_eq, not_false_eq_true, decide_true, Bool.true_and]
          constructor
          · intro hmarked
            by_contra hlost
            rw [Bool.not_eq_false] at hlost
            refine absurd (hmarked new
              { replacement with
                leaseDuration := previous.leaseDuration,
                leaseAllocators := previous.leaseAllocators,
                leaseLost := false, leaseExpiresAt := 0 } ?_ hpositive hlost) Bool.false_ne_true
            simp only [State.setExecution]
            rw [AList.lookup_insert_ne (Ne.symm hsame), AList.lookup_insert]
          · intro hlost x r hr hduration hstate
            simp only [State.setExecution, AList.lookup_insert_if] at hr
            split at hr
            · cases hr
              exact absurd hduration (Int.lt_irrefl 0)
            split at hr
            · cases hr
              rw [hlost] at hstate
              cases hstate
            · exact h x r hr hduration hstate

/-- In a run without such a rebinding every observed loss is marked, a
further operation keeps that exactly when it is not one, and the run
controller then takes the marked attempt for a lost one: it neither
returns its state as a result nor renews it, but requests it anew. -/
theorem losses_marked (hs : (machine cfg).ReachWhen (fun s op => op.rebindsLost s = false) s) :
    LossesMarked s ∧
    (∀ op : Op, LossesMarked (op.apply cfg s).1 ↔ op.rebindsLost s = false) ∧
    ∀ (c : Controller) (active : Attempt) (r : ExecutionRecord) (state : ExecutionState),
      c.core = s → s.executions.lookup active.executionID = some r → 0 < r.leaseDuration →
      r.state.any lostLeaseState = true →
      c.finish active state = c.goto (.watching active) ∧
        c.watch active = c.goto (.losing (.hold active)) := by
  have hstep : ∀ s, LossesMarked s → ∀ op : Op,
      (LossesMarked (op.apply cfg s).1 ↔ op.rebindsLost s = false) := by
    intro s h op
    by_cases hop : ∃ old new, op = .rebind old new
    · obtain ⟨old, new, rfl⟩ := hop
      exact lossesMarked_rebind h old new
    · have hother : ∀ old new, op ≠ .rebind old new :=
        fun old new heq => hop ⟨old, new, heq⟩
      refine iff_of_true (h.kept (kept_apply s op) hother) ?_
      cases op <;> first | rfl | exact absurd rfl (hother _ _)
  have hmarked : LossesMarked s := by
    refine hs.invariant ?_ ?_
    · rintro s rfl x r hr
      cases hr
    · intro s op t h hok ht
      cases ht
      exact (hstep s h op).mpr hok
  refine ⟨hmarked, hstep s hmarked, ?_⟩
  rintro c active r state rfl hr hduration hlost
  have hmark : leaseIntentLost active.executionID c.core = true := by
    rw [leaseIntentLost, hr]
    exact hmarked _ r hr hduration hlost
  exact ⟨if_pos hmark, if_pos hmark⟩

/-- The report of an eviction for lease expiry. -/
def lostReport (x : String) : Payload :=
  .executionState
    { executionID := text x, phase := .failed, detail := Allocator.leaseExpiredDetail,
      exitCode := none, revision := 1, occurredAt := some (Timestamp.new 62135596800000000000) }

/-- Two attempts of one client, each with a lease intent. -/
def attempted : List Op :=
  selected ++
    [ .recordIntent (text "x") minute [],
      .createRequest (plainInput ["again", "m3"]) (some ⟨text "image", [], [], .empty, []⟩)
        (some ⟨⟩) (text "small") none,
      .handle (plainInput []) (plainReply "m3" (.executionOffer
        { plainOffer with offerID := text "second", requestID := text "again" })),
      .select (plainInput ["y", "m4"]) (text "again"),
      .recordIntent (text "y") minute [] ]

/-- The replacement's own loss is observed before the intent is moved to
it: the mark is cleared, and the controller returns the eviction as the
result of the run. -/
theorem rebinding_clears_an_observed_loss :
    ∃ s, (machine plainClient).Reach s ∧
      (s.executions.lookup (text "y")).any (fun r => r.forfeit && !r.leaseLost) = true := by
  exact (machine plainClient).exists_reach rfl
    (attempted ++
      [ .handle (plainInput []) (plainReply "m3" (lostReport "y")),
        .rebind (text "x") (text "y") ]) _
    (by decide +kernel)

/-- The other order: moved first, lost afterwards, marked. -/
theorem loss_after_rebinding_is_marked :
    ∃ s, (machine plainClient).ReachWhen (fun s op => op.rebindsLost s = false) s ∧
      (s.executions.lookup (text "y")).any (fun r => r.state.any lostLeaseState) = true ∧
      LossesMarked s := by
  obtain ⟨s, hs, hp⟩ := (machine plainClient).exists_reachWhen
    (fun s op => op.rebindsLost s = false) rfl
    (attempted ++
      [ .rebind (text "x") (text "y"),
        .handle (plainInput []) (plainReply "m3" (lostReport "y")) ])
    (fun s => (s.executions.lookup (text "y")).any fun r => r.state.any lostLeaseState)
    (by decide +kernel)
  exact ⟨s, hs, hp, (losses_marked hs).1⟩

end R1s.Client
