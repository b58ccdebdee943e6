/-
Transition systems with guarded runs: a set of initial states, a partial
step function whose label holds everything the environment decides, and
the states reached by runs all of whose steps meet a guard.

# Three uses

An invariant is proved once per step (`ReachWhen.invariant`), whatever
the guard. A concrete run is a list of labels: `runWhen` executes it,
checking the guard at each step, and `exists_reachWhen` turns a
successful execution into a reached state with a property that was
evaluated there. A property of whole runs is one of the states of the
observed system (`observe`), which carries what an observer has noted
of the steps so far and takes no part in them.
-/
import Mathlib

/-- Initial states and a labelled partial step. -/
structure TransitionSystem (σ ℓ : Type*) where
  init : σ → Prop
  step : σ → ℓ → Option σ

namespace TransitionSystem

variable {σ ℓ : Type*} (T : TransitionSystem σ ℓ)

/-- The states of the runs whose every step meets `ok`, a condition on
the state before the step and its label. -/
inductive ReachWhen (ok : σ → ℓ → Prop) : σ → Prop
  | init {s} (h : T.init s) : ReachWhen ok s
  | step {s t l} (hs : ReachWhen ok s) (hok : ok s l) (h : T.step s l = some t) : ReachWhen ok t

/-- The states of all runs. -/
abbrev Reach : σ → Prop := T.ReachWhen fun _ _ => True

variable {T}

variable {ok : σ → ℓ → Prop} {s : σ}

/-- The invariant rule. -/
theorem ReachWhen.invariant {I : σ → Prop} (h0 : ∀ s, T.init s → I s)
    (hstep : ∀ s l t, I s → ok s l → T.step s l = some t → I t) (h : T.ReachWhen ok s) : I s := by
  induction h with
  | init h => exact h0 _ h
  | step _ hok h ih => exact hstep _ _ _ ih hok h

/-- The invariant rule with the help of a fact about all reached
states. -/
theorem ReachWhen.invariant_with {J I : σ → Prop} (hJ : ∀ s, T.ReachWhen ok s → J s)
    (h0 : ∀ s, T.init s → I s)
    (hstep : ∀ s l t, J s → J t → I s → ok s l → T.step s l = some t → I t)
    (h : T.ReachWhen ok s) : I s := by
  induction h with
  | init h => exact h0 _ h
  | step hs hok h ih => exact hstep _ _ _ (hJ _ hs) (hJ _ (.step hs hok h)) ih hok h

/-- A weaker guard reaches more. -/
theorem ReachWhen.mono {ok' : σ → ℓ → Prop} (hle : ∀ s l, ok s l → ok' s l)
    (h : T.ReachWhen ok s) : T.ReachWhen ok' s := by
  induction h with
  | init h => exact .init h
  | step _ hok h ih => exact .step ih (hle _ _ hok) h

-- ===== from here

variable (T)

/-- The runs that go on from `s`. -/
def startAt (s : σ) : TransitionSystem σ ℓ where
  init := (· = s)
  step := T.step

variable {T}

theorem reach_startAt {t : σ} (hs : T.Reach s) (h : (T.startAt s).ReachWhen ok t) : T.Reach t := by
  induction h with
  | init h =>
    cases h
    exact hs
  | step _ _ h ih => exact .step ih trivial h

-- ===== observers

variable (T)

/-- The system beside an observer, which notes of each step the state
before it, its label and the state after it. -/
def observe {η : Type*} (start : η) (note : σ → ℓ → σ → η → η) :
    TransitionSystem (σ × η) ℓ where
  init s := T.init s.1 ∧ s.2 = start
  step s l := (T.step s.1 l).map fun t => (t, note s.1 l t s.2)

variable {T} {η : Type*} {start : η} {note : σ → ℓ → σ → η → η}

theorem init.observe (h : T.init s) : (T.observe start note).init (s, start) :=
  ⟨h, rfl⟩

theorem observe_step {s t : σ × η} {l : ℓ} (h : (T.observe start note).step s l = some t) :
    T.step s.1 l = some t.1 ∧ t.2 = note s.1 l t.1 s.2 := by
  obtain ⟨t', ht', heq⟩ := Option.map_eq_some_iff.mp h
  cases heq
  exact ⟨ht', rfl⟩

/-- The observer takes no part in the runs. -/
theorem reach_of_observe {ok : σ × η → ℓ → Prop} {s : σ × η}
    (h : (T.observe start note).ReachWhen ok s) : T.Reach s.1 := by
  induction h with
  | init h => exact .init h.1
  | step _ _ h ih => exact .step ih trivial (observe_step h).1

/-- The invariant rule for a system and its observer. -/
theorem ReachWhen.observed {ok : σ × η → ℓ → Prop} {I : σ → η → Prop}
    (h0 : ∀ s, T.init s → I s start)
    (hstep : ∀ s l t o, T.Reach s → T.Reach t → I s o → ok (s, o) l → T.step s l = some t →
      I t (note s l t o))
    {s : σ × η} (h : (T.observe start note).ReachWhen ok s) : I s.1 s.2 := by
  induction h with
  | init h =>
    rw [h.2]
    exact h0 _ h.1
  | step hs hok h ih =>
    obtain ⟨hnext, hnote⟩ := observe_step h
    have hreach := reach_of_observe hs
    rw [hnote]
    exact hstep _ _ _ _ hreach (.step hreach trivial hnext) ih hok hnext

-- ===== concrete runs

variable (T)

/-- Execute a list of labels, stopping where a step is refused or does
not meet the guard. -/
def runWhen (ok : σ → ℓ → Bool) : σ → List ℓ → Option σ
  | s, [] => some s
  | s, l :: rest =>
    if ok s l then (T.step s l).bind fun t => runWhen ok t rest else none

variable {T}

theorem reachWhen_runWhen {okb : σ → ℓ → Bool} (hok : ∀ s l, okb s l = true → ok s l) :
    ∀ (ls : List ℓ) {s t : σ}, T.ReachWhen ok s → T.runWhen okb s ls = some t →
      T.ReachWhen ok t := by
  intro ls
  induction ls with
  | nil =>
    intro s t hs h
    cases h
    exact hs
  | cons l rest ih =>
    intro s t hs h
    rw [runWhen] at h
    split at h
    case isFalse => cases h
    case isTrue hguard =>
      obtain ⟨u, hu, ht⟩ := Option.bind_eq_some_iff.mp h
      exact ih (.step hs (hok s l hguard) hu) ht

variable (T)

/-- A run that executes to a state passing the test `p` reaches such a
state. -/
theorem exists_reachWhen (ok : σ → ℓ → Prop) [∀ s l, Decidable (ok s l)] (hs : T.init s)
    (ls : List ℓ) (p : σ → Prop) [DecidablePred p]
    (h : ((T.runWhen (fun s l => ok s l) s ls).any fun t => p t) = true) :
    ∃ t, T.ReachWhen ok t ∧ p t := by
  obtain ⟨t, hrun, hp⟩ := (Option.any_eq_true _ _).mp h
  exact ⟨t, reachWhen_runWhen (fun _ _ => of_decide_eq_true) ls (.init hs) hrun,
    of_decide_eq_true hp⟩

theorem exists_reach (hs : T.init s) (ls : List ℓ) (p : σ → Prop) [DecidablePred p]
    (h : ((T.runWhen (fun _ _ => true) s ls).any fun t => p t) = true) : ∃ t, T.Reach t ∧ p t :=
  T.exists_reachWhen _ hs ls p h

/-- The state a list of labels leads to; the start when a step is
refused. -/
def runTo (s : σ) (ls : List ℓ) : σ := (T.runWhen (fun _ _ => true) s ls).getD s

variable {T}

/-- A run without refused steps reaches the state it leads to. -/
theorem reach_runTo (hs : T.init s) {ls : List ℓ}
    (h : (T.runWhen (fun _ _ => true) s ls).isSome = true) : T.Reach (T.runTo s ls) := by
  obtain ⟨t, ht⟩ := Option.isSome_iff_exists.mp h
  rw [runTo, ht]
  exact reachWhen_runWhen (fun _ _ _ => trivial) ls (.init hs) ht

end TransitionSystem
