/-
The error of a replay entry after a save and a reload
(`internal/allocator`: durable_errors.go, and the replay loops of state.go).

# What is lost

A snapshot keeps the text of an entry's error and one code out of a table
of sentinels. An error whose sentinel is not in the table comes back with
none, and of a joined error one sentinel comes back, whichever the map
iteration meets first. `disabled_tunnel_error_is_forgotten` shows both
across a restart.

# What is kept

`restored_error_matches`: the same sentinels come back exactly when the
error has none of the allocator's own, or just one and that one is in the
table.
-/
import R1s.Allocator.Proofs.Acceptance
import R1s.Allocator.Proofs.Reload

namespace R1s.Allocator

-- ===== the sentinels

/-- The sentinels that package allocator declares. -/
def Sentinel.ofAllocator : Sentinel → Bool
  | .invalidEnvelope | .runtimeMissing | .runtimeConflict | .logsMissing | .logOffset => false
  | _ => true

variable {s : Sentinel}

theorem ofAllocator_of_durable (h : s ∈ durableErrors) : s.ofAllocator = true := by
  cases s <;> first | rfl | exact absurd h (by decide)

/-- The error wraps no sentinel of the allocator. -/
def GoErr.unmarked (err : GoErr) : Prop := ∀ s, s.ofAllocator = true → err.is s = false

/-- The error has a text and wraps one sentinel of the allocator, one of
the table. -/
def GoErr.classified (err : GoErr) : Prop :=
  err.text ≠ [] ∧ ∃ s ∈ durableErrors, ∀ s', s'.ofAllocator = true → (err.is s' = true ↔ s' = s)

/-- Both errors, if there is a second one, wrap the same sentinels of the
allocator. -/
def GoErr.matches (err : GoErr) (restored : Option GoErr) : Prop :=
  ∀ s, s.ofAllocator = true → (restored.any fun r => r.is s) = err.is s

-- ===== classification

variable {err : GoErr}

/-- The code found is one of the table's that the error wraps. -/
theorem classifyError_some {prefer : List Sentinel} (h : classifyError prefer err = some s) :
    s ∈ durableErrors ∧ err.is s = true := by
  refine ⟨?_, List.find?_some h⟩
  rcases List.mem_append.mp (List.mem_of_find?_eq_some h) with hmem | hmem
  · obtain ⟨-, hdurable⟩ := List.mem_filter.mp hmem
    simpa using hdurable
  · exact hmem

/-- No code is found only if the error wraps nothing of the table. -/
theorem classifyError_none {prefer : List Sentinel} (h : classifyError prefer err = none)
    (hs : s ∈ durableErrors) : err.is s = false := by
  have hnot := List.find?_eq_none.mp h s (List.mem_append_right _ hs)
  simpa using hnot

theorem replaceInvalid_ne_nil {b : GoString} (h : b ≠ []) : Utf8.replaceInvalid b ≠ [] := by
  intro hnil
  have hle := Utf8.length_le_replaceFrom 0 b
  rw [show Utf8.replaceFrom 0 b = [] from hnil] at hle
  exact h (List.length_eq_zero_iff.mp (Nat.le_zero.mp hle))

-- ===== the restored

/-- The error a finished entry comes back with. -/
theorem restored_err {entry : ReplayEntry} (hdone : entry.done = true)
    (herr : entry.err = some err) (prefer : List Sentinel) (key : GoString) :
    (entry.save prefer key).restore.err
      = if err.text = [] then none
        else some (restoreError (classifyError prefer err) (Utf8.replaceInvalid err.text)) := by
  unfold ReplayEntry.save PersistedReplay.restore
  simp only [hdone, if_true, herr, Option.map_some, Option.getD_some, Option.bind_some]
  by_cases htext : err.text = []
  · rw [if_pos htext, htext]
    rfl
  · rw [if_neg htext, if_neg (replaceInvalid_ne_nil htext)]

theorem restoreError_is (code : Option Sentinel) (message : GoString) (s : Sentinel) :
    (restoreError code message).is s = true ↔ code = some s := by
  cases code with
  | none => simp [restoreError, GoErr.is]
  | some c => simp [restoreError, GoErr.is, Sentinel.wrap, eq_comm]

/-- A finished entry is saved and loaded: its error wraps the same
sentinels as before if and only if it wraps none of the allocator's, or
one alone that has a durable code. -/
theorem restored_error_matches {entry : ReplayEntry} {err : GoErr} (hdone : entry.done = true)
    (herr : entry.err = some err) (prefer : List Sentinel) (key : GoString) :
    err.matches (entry.save prefer key).restore.err ↔ err.unmarked ∨ err.classified := by
  rw [restored_err hdone herr]
  by_cases htext : err.text = []
  · rw [if_pos htext]
    constructor
    · intro hmatches
      exact .inl fun s hs => (hmatches s hs).symm
    · rintro (hnone | ⟨hsome, -⟩)
      · exact fun s hs => (hnone s hs).symm
      · exact absurd htext hsome
  · rw [if_neg htext]
    have hiff : err.matches (some (restoreError (classifyError prefer err)
        (Utf8.replaceInvalid err.text))) ↔
        ∀ s, s.ofAllocator = true → (classifyError prefer err = some s ↔ err.is s = true) := by
      refine forall₂_congr fun s _ => ?_
      rw [Option.any_some, Bool.eq_iff_iff, restoreError_is]
    rw [hiff]
    cases hcode : classifyError prefer err with
    | none =>
      constructor
      · intro hall
        refine .inl fun s hs => ?_
        have hs' := hall s hs
        simpa using hs'
      · rintro (hnone | ⟨-, s, hs, hone⟩) s' hs'
        · simp [hnone s' hs']
        · have hwrapped := (hone s (ofAllocator_of_durable hs)).mpr rfl
          rw [classifyError_none hcode hs] at hwrapped
          cases hwrapped
    | some c =>
      obtain ⟨hdurable, hwrapped⟩ := classifyError_some hcode
      constructor
      · intro hall
        refine .inr ⟨htext, c, hdurable, fun s' hs' => ?_⟩
        rw [← hall s' hs', Option.some.injEq, eq_comm]
      · rintro (hnone | ⟨-, s, -, hone⟩) s' hs'
        · rw [hnone c (ofAllocator_of_durable hdurable)] at hwrapped
          cases hwrapped
        · have hc : c = s := (hone c (ofAllocator_of_durable hdurable)).mp hwrapped
          rw [hone s' hs', hc, Option.some.injEq, eq_comm]

-- ===== samples

/-- The sentinels of the error a command's entry holds. -/
def Mem.replayedSentinels (m : Mem) (key : GoString) : Option (List Sentinel) :=
  (m.replay.lookup key).bind fun entry => entry.err.map GoErr.sentinels

/-- The cancellation of the sample execution whose stop fails while the
store refuses to save, and its return. -/
def doublyFailedRun : List (Label oneSlot) :=
  requestRun ++ assignRun ++ answerRun 1 none ++ cancelRun ++
    [ .run 2 { now := epoch, fault := some killFault,
               saved := { fault := some ⟨[], text "disk full"⟩ } },
      .run 2 { now := epoch } ]

/-- A tunnel open is refused because tunnels are disabled, and after a
restart its error wraps nothing; a cancellation fails twice over, and
after a restart its error is a failed stop only. -/
theorem disabled_tunnel_error_is_forgotten :
    (∃ s t : System oneSlot, (machine oneSlot).Reach s ∧ s.step (.restart epoch epoch) = some t ∧
      s.world.mem.replayedSentinels (replayKey tunnelCommand.1) = some [.tunnelDisabled] ∧
      t.world.mem.replayedSentinels (replayKey tunnelCommand.1) = some []) ∧
    ∃ s t : System oneSlot, (machine oneSlot).Reach s ∧ s.step (.restart epoch epoch) = some t ∧
      s.world.mem.replayedSentinels (replayKey cancelCommand.1) = some [.runtimeStop, .store] ∧
      t.world.mem.replayedSentinels (replayKey cancelCommand.1) = some [.runtimeStop] := by
  have hrun : ∀ (labels : List (Label oneSlot)) (key : GoString)
      (before after : List Sentinel),
      ((machine oneSlot).runWhen (fun _ _ => true) (System.initial oneSlot) labels).any
        (fun s => s.world.mem.replayedSentinels key = some before ∧
          (s.step (.restart epoch epoch)).any fun t =>
            t.world.mem.replayedSentinels key = some after) = true →
      ∃ s t : System oneSlot, (machine oneSlot).Reach s ∧
        s.step (.restart epoch epoch) = some t ∧
        s.world.mem.replayedSentinels key = some before ∧
        t.world.mem.replayedSentinels key = some after := by
    intro labels key before after h
    obtain ⟨s, hs, hp⟩ := (machine oneSlot).exists_reach rfl labels _ h
    simp only [decide_eq_true_eq, Option.any_eq_true] at hp
    obtain ⟨hbefore, t, ht, hafter⟩ := hp
    exact ⟨s, t, hs, ht, hbefore, hafter⟩
  constructor
  · exact hrun (disabledRun ++ [.run 2 { now := epoch }]) _ _ _ (by decide +kernel)
  · exact hrun doublyFailedRun _ _ _ (by decide +kernel)

/-- A refusal of a stranger keeps its sentinel. -/
theorem unauthorized_is_restored :
    Sentinel.unauthorized.err.matches
      (((⟨0, true, requestCommand.1, [], some Sentinel.unauthorized.err, 0⟩ : ReplayEntry).save
        [] []).restore.err) := by
  refine (restored_error_matches rfl rfl [] []).mpr (.inr ⟨by decide, .unauthorized, by decide, ?_⟩)
  intro s _
  cases s <;> decide

end R1s.Allocator
