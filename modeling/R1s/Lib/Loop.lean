/-
Loops over a list that may fail: `List.foldlM` in `Except`, with the
invariant rule the loop deserves. The invariant speaks of the elements
already visited and the accumulator; an iteration that succeeds extends
both.
-/
import Mathlib

namespace Loop

variable {ε α β : Type}

variable {b : β}

/-- A sequence that succeeds ran its first part to an end. -/
theorem bind_ok {x : Except ε α} {f : α → Except ε β} (h : (x >>= f) = .ok b) :
    ∃ a, x = .ok a ∧ f a = .ok b := by
  cases x with
  | error err => cases h
  | ok a => exact ⟨a, rfl, h⟩

variable {f : β → α → Except ε β}

theorem foldlM_ok_from {I : List α → β → Prop}
    (hstep : ∀ done x b b', I done b → f b x = .ok b' → I (done ++ [x]) b') :
    ∀ (l : List α) {done : List α} {b b' : β}, I done b → l.foldlM f b = .ok b' →
      I (done ++ l) b' := by
  intro l
  induction l with
  | nil =>
    intro done b b' hI h
    cases h
    rw [List.append_nil]
    exact hI
  | cons x l ih =>
    intro done b b' hI h
    rw [List.foldlM_cons] at h
    obtain ⟨b₁, hx, hl⟩ := bind_ok h
    have := ih (hstep done x b b₁ hI hx) hl
    rwa [List.append_assoc, List.singleton_append] at this

/-- The invariant rule of a loop that may fail. -/
theorem foldlM_ok (I : List α → β → Prop) {l : List α} {b' : β} (h0 : I [] b)
    (hstep : ∀ done x b b', I done b → f b x = .ok b' → I (done ++ [x]) b')
    (h : l.foldlM f b = .ok b') : I l b' :=
  foldlM_ok_from hstep l h0 h

/-- A loop whose every iteration succeeds, from what the iterations before
it established, succeeds. -/
theorem foldlM_exists (I : List α → β → Prop) {l : List α} (h0 : I [] b)
    (hstep : ∀ done x rest b, l = done ++ x :: rest → I done b →
      ∃ b', f b x = .ok b' ∧ I (done ++ [x]) b') :
    ∃ b', l.foldlM f b = .ok b' ∧ I l b' := by
  have hfrom : ∀ (rest done : List α) (b : β), l = done ++ rest → I done b →
      ∃ b', rest.foldlM f b = .ok b' ∧ I l b' := by
    intro rest
    induction rest with
    | nil =>
      intro done b hl hI
      rw [List.append_nil] at hl
      rw [hl]
      exact ⟨b, rfl, hI⟩
    | cons x rest ih =>
      intro done b hl hI
      obtain ⟨b₁, hx, hI₁⟩ := hstep done x rest b hl hI
      have hnext : l = (done ++ [x]) ++ rest := by
        rw [hl, List.append_assoc]
        rfl
      obtain ⟨b', hrest, hI'⟩ := ih (done ++ [x]) b₁ hnext hI₁
      refine ⟨b', ?_, hI'⟩
      rw [List.foldlM_cons, hx]
      exact hrest
  exact hfrom l [] b rfl h0

/-- The result of a computation that succeeds, whatever the default. -/
theorem ok_getD {x : Except ε α} (d : α) (h : x.toOption.isSome = true) :
    x = .ok (x.toOption.getD d) := by
  cases x with
  | error err => cases h
  | ok a => rfl

end Loop
