/-
UTF-8 over byte lists, as a decoder sees it: the width of the encoding
at the head of a list, the lists that are encodings throughout, and the
replacement a lossy encoder makes — every byte at which no encoding
starts becomes U+FFFD.

`replaceInvalid` walks the list with the number of continuation bytes
still to copy, so all three functions are structural recursions and
evaluate on closed lists. The main facts are `replaceInvalid_eq_self`
(the replacement is the identity on exactly the valid lists),
`valid_replaceInvalid` (its results are valid) and `valid_append_nul` (a
NUL byte separates: validity of a joined list is validity of both
halves).
-/
import Mathlib

namespace Utf8

-- ===== the encoding

/-- A continuation byte, `10xxxxxx`. -/
def isCont (b : UInt8) : Bool := 0x80 ≤ b && b ≤ 0xBF

/-- The second byte a three-byte encoding admits after `b₀`: overlong
forms (`E0`) and surrogates (`ED`) are cut out. -/
def isSecondOf3 (b₀ b₁ : UInt8) : Bool :=
  if b₀ = 0xE0 then 0xA0 ≤ b₁ && b₁ ≤ 0xBF
  else if b₀ = 0xED then 0x80 ≤ b₁ && b₁ ≤ 0x9F
  else 0xE1 ≤ b₀ && b₀ ≤ 0xEF && isCont b₁

/-- The second byte a four-byte encoding admits after `b₀`: overlong
forms (`F0`) and values past U+10FFFF (`F4`) are cut out. -/
def isSecondOf4 (b₀ b₁ : UInt8) : Bool :=
  if b₀ = 0xF0 then 0x90 ≤ b₁ && b₁ ≤ 0xBF
  else if b₀ = 0xF4 then 0x80 ≤ b₁ && b₁ ≤ 0x8F
  else 0xF1 ≤ b₀ && b₀ ≤ 0xF3 && isCont b₁

/-- The number of bytes that follow `b₀` in the encoding that starts
there, `none` when none does. -/
def tailWidth (b₀ : UInt8) (rest : List UInt8) : Option Nat :=
  if b₀ < 0x80 then some 0
  else match rest with
    | [] => none
    | b₁ :: rest =>
      if 0xC2 ≤ b₀ && b₀ ≤ 0xDF && isCont b₁ then some 1
      else match rest with
        | [] => none
        | b₂ :: rest =>
          if isSecondOf3 b₀ b₁ && isCont b₂ then some 2
          else match rest with
            | [] => none
            | b₃ :: _ =>
              if isSecondOf4 b₀ b₁ && isCont b₂ && isCont b₃ then some 3
              else none

/-- Valid from a position `n` continuation bytes before the next head
byte. -/
def validFrom : Nat → List UInt8 → Bool
  | _, [] => true
  | n + 1, _ :: rest => validFrom n rest
  | 0, b :: rest =>
    match tailWidth b rest with
    | some n => validFrom n rest
    | none => false

/-- The list is a sequence of encodings. -/
def valid (s : List UInt8) : Bool := validFrom 0 s

/-- U+FFFD, the replacement character. -/
def replacement : List UInt8 := [0xEF, 0xBF, 0xBD]

/-- `replaceInvalid` from a position `n` continuation bytes before the
next head byte. -/
def replaceFrom : Nat → List UInt8 → List UInt8
  | _, [] => []
  | n + 1, b :: rest => b :: replaceFrom n rest
  | 0, b :: rest =>
    match tailWidth b rest with
    | some n => b :: replaceFrom n rest
    | none => replacement ++ replaceFrom 0 rest

/-- Replace every byte at which no encoding starts by U+FFFD. -/
def replaceInvalid (s : List UInt8) : List UInt8 := replaceFrom 0 s

-- ===== the fixed points

/-- The replacement never shortens a list. -/
theorem length_le_replaceFrom (n : Nat) (s : List UInt8) : s.length ≤ (replaceFrom n s).length := by
  induction s generalizing n with
  | nil => simp
  | cons b rest ih =>
    cases n with
    | succ n =>
      have := ih n
      simp only [replaceFrom, List.length_cons]
      omega
    | zero =>
      simp only [replaceFrom]
      split
      next n hw =>
        have := ih n
        simp only [List.length_cons]
        omega
      next hw =>
        have := ih 0
        simp only [List.length_append, List.length_cons, replacement]
        omega

/-- A list is left alone from a position on exactly when it is valid
from there: a replaced byte makes the result longer. -/
theorem replaceFrom_eq_self (n : Nat) (s : List UInt8) :
    replaceFrom n s = s ↔ validFrom n s = true := by
  induction s generalizing n with
  | nil => simp [replaceFrom, validFrom]
  | cons b rest ih =>
    cases n with
    | succ n => simp only [replaceFrom, validFrom, List.cons.injEq, true_and, ih]
    | zero =>
      simp only [replaceFrom, validFrom]
      split
      next n hw => simp only [List.cons.injEq, true_and, ih]
      constructor
      · intro heq
        have hlen := congrArg List.length heq
        have hge := length_le_replaceFrom 0 rest
        simp only [List.length_append, replacement, List.length_cons] at hlen
        omega
      · intro h
        cases h

/-- The replacement is the identity on exactly the valid lists. -/
theorem replaceInvalid_eq_self (s : List UInt8) :
    replaceInvalid s = s ↔ valid s = true :=
  replaceFrom_eq_self 0 s

/-- A replacement shows: a result of ASCII bytes is the list itself. -/
theorem eq_of_replaceFrom_ascii (n : Nat) (s : List UInt8)
    (h : ∀ b ∈ replaceFrom n s, b < 0x80) : replaceFrom n s = s := by
  induction s generalizing n with
  | nil => simp [replaceFrom]
  | cons b rest ih =>
    cases n with
    | succ n =>
      simp only [replaceFrom, List.mem_cons, forall_eq_or_imp] at h ⊢
      rw [ih n h.2]
    | zero =>
      simp only [replaceFrom] at h ⊢
      split at h
      next n hw =>
        simp only [List.mem_cons, forall_eq_or_imp] at h
        rw [ih n h.2]
      next hw =>
        have hmark := h 0xEF (List.mem_append_left _ (by simp [replacement]))
        exact absurd hmark (by decide)

theorem eq_of_replaceInvalid_ascii {s r : List UInt8} (h : replaceInvalid s = r)
    (hr : ∀ b ∈ r, b < 0x80) : s = r := by
  subst h
  exact (eq_of_replaceFrom_ascii 0 s hr).symm

-- ===== NUL separates encodings

/-- The bytes that follow a head byte are there. -/
theorem tailWidth_le {b : UInt8} {rest : List UInt8} {n : Nat}
    (h : tailWidth b rest = some n) : n ≤ rest.length := by
  unfold tailWidth at h
  split at h
  · cases h
    omega
  · split at h
    · cases h
    · split at h
      · cases h
        simp only [List.length_cons]
        omega
      · split at h
        · cases h
        · split at h
          · cases h
            simp only [List.length_cons]
            omega
          · split at h
            · cases h
            · split at h
              · cases h
                simp only [List.length_cons]
                omega
              · cases h

/-- NUL continues no encoding, so what follows it does not change the
width of an encoding that starts before it. -/
theorem tailWidth_append_nul (b : UInt8) (rest t : List UInt8) :
    tailWidth b (rest ++ 0 :: t) = tailWidth b rest := by
  have h0 : isCont 0 = false := by decide
  have h3 : isSecondOf3 b 0 = false := by
    unfold isSecondOf3
    split
    · decide
    · split
      · decide
      · rw [h0, Bool.and_false]
  have h4 : isSecondOf4 b 0 = false := by
    unfold isSecondOf4
    split
    · decide
    · split
      · decide
      · rw [h0, Bool.and_false]
  match rest with
  | [] =>
    cases t with
    | nil => simp [tailWidth, h0]
    | cons c t => cases t <;> simp [tailWidth, h0, h3, h4]
  | [b₁] => cases t <;> simp [tailWidth, h0]
  | [b₁, b₂] => simp [tailWidth, h0]
  | b₁ :: b₂ :: b₃ :: rest => simp [tailWidth]

/-- Validity of a list joined at a NUL byte, from a position inside the
first half. -/
theorem validFrom_append_nul (n : Nat) (s t : List UInt8) (hn : n ≤ s.length) :
    validFrom n (s ++ 0 :: t) = (validFrom n s && validFrom 0 t) := by
  induction s generalizing n with
  | nil =>
    obtain rfl : n = 0 := by simpa using hn
    simp [validFrom, tailWidth]
  | cons b rest ih =>
    cases n with
    | succ n =>
      rw [List.cons_append, validFrom, validFrom]
      exact ih n (by simpa using hn)
    | zero =>
      rw [List.cons_append, validFrom, validFrom, tailWidth_append_nul]
      split
      next n hw => exact ih n (tailWidth_le hw)
      next hw => simp

/-- NUL separates: a joined list is valid exactly when both halves
are. -/
theorem valid_append_nul (s t : List UInt8) :
    valid (s ++ 0 :: t) = (valid s && valid t) :=
  validFrom_append_nul 0 s t (Nat.zero_le _)

-- ===== the result is valid

/-- The width of an encoding depends on its own bytes only. -/
theorem tailWidth_take_append {b : UInt8} {rest : List UInt8} {n : Nat}
    (h : tailWidth b rest = some n) (t : List UInt8) : tailWidth b (rest.take n ++ t) = some n := by
  unfold tailWidth at h
  split at h
  case isTrue hascii =>
    cases h
    unfold tailWidth
    rw [if_pos hascii]
  case isFalse hascii =>
    match rest with
    | [] => cases h
    | b₁ :: rest =>
      dsimp only at h
      split at h
      case isTrue h2 =>
        cases h
        simp [tailWidth, hascii, h2]
      case isFalse h2 =>
        match rest with
        | [] => cases h
        | b₂ :: rest =>
          dsimp only at h
          split at h
          case isTrue h3 =>
            cases h
            simp [tailWidth, hascii, h2, h3]
          case isFalse h3 =>
            match rest with
            | [] => cases h
            | b₃ :: rest =>
              dsimp only at h
              split at h
              case isTrue h4 =>
                cases h
                simp [tailWidth, hascii, h2, h3, h4]
              case isFalse => cases h

/-- The bytes still to copy are copied. -/
theorem replaceFrom_take (n : Nat) (s : List UInt8) (hn : n ≤ s.length) :
    ∃ t, replaceFrom n s = s.take n ++ t := by
  induction n generalizing s with
  | zero => exact ⟨_, rfl⟩
  | succ n ih =>
    cases s with
    | nil => simp at hn
    | cons b rest =>
      obtain ⟨t, ht⟩ := ih rest (by simpa using hn)
      exact ⟨t, by simp [replaceFrom, ht]⟩

theorem validFrom_replaceFrom (n : Nat) (s : List UInt8) :
    validFrom n (replaceFrom n s) = true := by
  induction s generalizing n with
  | nil => rfl
  | cons b rest ih =>
    cases n with
    | succ n => exact ih n
    | zero =>
      simp only [replaceFrom]
      split
      next n hw =>
        obtain ⟨t, ht⟩ := replaceFrom_take n rest (tailWidth_le hw)
        have hwidth : tailWidth b (replaceFrom n rest) = some n := by
          rw [ht]
          exact tailWidth_take_append hw t
        simp only [validFrom, hwidth]
        exact ih n
      show validFrom 0 (0xEF :: 0xBF :: 0xBD :: replaceFrom 0 rest) = true
      have hwidth : tailWidth 0xEF (0xBF :: 0xBD :: replaceFrom 0 rest) = some 2 := by
        simp [tailWidth, isSecondOf3, isCont]
      exact ih 0

/-- The replacement leaves a valid list. -/
theorem valid_replaceInvalid (s : List UInt8) : valid (replaceInvalid s) = true :=
  validFrom_replaceFrom 0 s

end Utf8
