/-
The run metadata in a container's environment. `environment` leaves out
the keys R1S_RUN_ID and R1S_ATTEMPT, and whoever reads an environment
takes the text before the first equals sign for the name: a key with an
equals sign in it names something else than it says.
-/
import R1s.Runtime.Specification

namespace R1s.Runtime

/-- The name of an entry: the text before its first equals sign. -/
def envName (entry : GoString) : GoString := entry.takeWhile (· != 0x3D)

variable {name key value : GoString}

/-- What stands in the key before an equals sign is the name. -/
theorem envName_envEntry (key value : GoString) : envName (envEntry key value) = envName key := by
  unfold envName envEntry
  induction key with
  | nil => rfl
  | cons c key ih =>
    rw [List.cons_append, List.takeWhile_cons, List.takeWhile_cons, ih]

/-- The keys that name `name`. -/
theorem envName_eq_iff (hname : ∀ c ∈ name, c ≠ 0x3D) :
    envName key = name ↔ key = name ∨ name ++ [0x3D] <+: key := by
  unfold envName
  induction name generalizing key with
  | nil =>
    cases key with
    | nil => simp
    | cons c key =>
      by_cases hc : c = 0x3D
      · simp [hc]
      · simp [hc, Ne.symm hc]
  | cons b name ih =>
    have hb : b ≠ 0x3D := hname b List.mem_cons_self
    cases key with
    | nil => simp
    | cons c key =>
      have hrest := @ih key fun c hc => hname c (List.mem_cons_of_mem _ hc)
      by_cases hc : b = c
      · subst hc
        simpa [hb] using hrest
      · by_cases hsep : c = 0x3D
        · simp [hsep, hb, hb.symm]
        · simp [hsep, hc, Ne.symm hc]

variable {workload : Workload} {runID : GoString} {attempt : Nat}

/-- The entries of the workload that have a name the runtime sets. -/
theorem filter_workload_eq_nil (hname : ∀ c ∈ name, c ≠ 0x3D)
    (hset : name = runEnv ∨ name = attemptEnv)
    (hrun : ¬name ++ [0x3D] <+: runEnv) (hattempt : ¬name ++ [0x3D] <+: attemptEnv) :
    ((workload.environment.entries.filter fun e => e.1 ≠ runEnv && e.1 ≠ attemptEnv).map
        fun e => envEntry e.1 e.2).filter (envName · = name) = []
      ↔ ∀ e ∈ workload.environment.entries, ¬name ++ [0x3D] <+: e.1 := by
  simp only [List.filter_eq_nil_iff, List.mem_map, List.mem_filter, Bool.and_eq_true,
    decide_eq_true_eq]
  constructor
  · intro h e he hprefix
    refine h _ ⟨e, ⟨he, ?_, ?_⟩, rfl⟩ ?_
    · rintro heq
      exact hrun (heq ▸ hprefix)
    · rintro heq
      exact hattempt (heq ▸ hprefix)
    · rw [envName_envEntry, envName_eq_iff hname]
      exact .inr hprefix
  · rintro h _ ⟨e, ⟨he, hnotrun, hnotattempt⟩, rfl⟩
    rw [envName_envEntry, envName_eq_iff hname]
    rintro (heq | hprefix)
    · rcases hset with rfl | rfl
      · exact hnotrun heq
      · exact hnotattempt heq
    · exact h e he hprefix

/-- The run's ID and the attempt are each the only entry of their name
exactly when no key of the workload is one of the two names followed by
an equals sign. -/
theorem run_metadata_is_single_iff (workload : Workload) (runID : GoString) (attempt : Nat) :
    ((environment workload runID attempt).filter (envName · = runEnv)
        = [envEntry runEnv runID] ∧
      (environment workload runID attempt).filter (envName · = attemptEnv)
        = [envEntry attemptEnv (Form.formatNat attempt)])
      ↔ ∀ e ∈ workload.environment.entries,
        ¬runEnv ++ [0x3D] <+: e.1 ∧ ¬attemptEnv ++ [0x3D] <+: e.1 := by
  have hrun : envName runEnv = runEnv := by decide +kernel
  have hattempt : envName attemptEnv = attemptEnv := by decide +kernel
  have hne : runEnv ≠ attemptEnv := by decide +kernel
  unfold environment
  simp only [List.filter_append, List.filter_cons, List.filter_nil, envName_envEntry, hrun,
    hattempt, hne, hne.symm, decide_true, decide_false, if_true, if_false, Bool.false_eq_true,
    List.append_left_eq_self]
  rw [filter_workload_eq_nil (by decide +kernel) (.inl rfl) (by decide +kernel)
      (by decide +kernel),
    filter_workload_eq_nil (by decide +kernel) (.inr rfl) (by decide +kernel)
      (by decide +kernel)]
  exact forall₂_and.symm

/-- A request whose only variable has the key `R1S_RUN_ID=forged`. -/
def forgedRequest : ExecutionRequest where
  requestID := text "r"
  workload := some ⟨text "alpine", [], [],
    ⟨[(runEnv ++ text "=forged", [])], List.pairwise_singleton _ _⟩, []⟩
  policy := some {}
  resourceClass := text "default"
  constraints := none
  runID := List.replicate 32 0x30
  attempt := 1

/-- It is accepted, and the container's environment has two run IDs. -/
theorem forged_run_id_is_accepted :
    validateRequest forgedRequest = none ∧ ∃ workload, forgedRequest.workload = some workload ∧
      ((environment workload forgedRequest.runID forgedRequest.attempt).filter
        (envName · = runEnv)).length = 2 :=
  ⟨by decide +kernel, _, rfl, by decide +kernel⟩

end R1s.Runtime
