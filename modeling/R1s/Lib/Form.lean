/-
Form encoding of byte strings: a list of key and value pairs written as
`k=v&k=v`, with every byte that is not a letter, a digit or one of
`-_.~` escaped, and the decimal numerals such values hold.

The decoder refuses a semicolon and a broken escape and skips empty
pieces. It reads back what the encoder wrote (`decode_encode`), because
no escaped text holds a byte the decoder cuts at.
-/
import Mathlib

namespace Form

-- ===== escapes

/-- The bytes written as they are. -/
def plain (b : UInt8) : Bool :=
  (0x61 ≤ b && b ≤ 0x7A) || (0x41 ≤ b && b ≤ 0x5A) || (0x30 ≤ b && b ≤ 0x39)
    || b = 0x2D || b = 0x5F || b = 0x2E || b = 0x7E

/-- An upper-case hexadecimal digit. -/
def hexDigit (n : UInt8) : UInt8 := if n < 10 then 0x30 + n else 0x37 + n

/-- The value of a hexadecimal digit of either case. -/
def hexValue (b : UInt8) : Option UInt8 :=
  if 0x30 ≤ b && b ≤ 0x39 then some (b - 0x30)
  else if 0x41 ≤ b && b ≤ 0x46 then some (b - 0x37)
  else if 0x61 ≤ b && b ≤ 0x66 then some (b - 0x57)
  else none

def escapeByte (b : UInt8) : List UInt8 :=
  if b = 0x20 then [0x2B]
  else if plain b then [b]
  else [0x25, hexDigit (b / 16), hexDigit (b % 16)]

def escape (s : List UInt8) : List UInt8 := s.flatMap escapeByte

def unescape : List UInt8 → Option (List UInt8)
  | [] => some []
  | b :: rest =>
    if b = 0x25 then
      match rest with
      | high :: low :: rest =>
        match hexValue high, hexValue low with
        | some h, some l => (unescape rest).map ((h * 16 + l) :: ·)
        | _, _ => none
      | _ => none
    else (unescape rest).map ((if b = 0x2B then 0x20 else b) :: ·)

/-- A test of all bytes. -/
theorem forall_byte {p : UInt8 → Bool}
    (h : (List.range 256).all (fun n => p (UInt8.ofNat n)) = true) (b : UInt8) : p b = true := by
  have hb := List.all_eq_true.mp h b.toNat (List.mem_range.mpr b.toNat_lt)
  rw [UInt8.ofNat_toNat] at hb
  exact hb

theorem plain_ne {b : UInt8} (h : plain b = true) :
    b ≠ 0x25 ∧ b ≠ 0x2B ∧ b ≠ 0x26 ∧ b ≠ 0x3D ∧ b ≠ 0x3B := by
  refine ⟨?_, ?_, ?_, ?_, ?_⟩ <;>
    (rintro rfl; exact absurd h (by decide))

/-- Both digits of an escape are read back. -/
theorem hexValue_hexDigit (b : UInt8) :
    hexValue (hexDigit (b / 16)) = some (b / 16) ∧
      hexValue (hexDigit (b % 16)) = some (b % 16) ∧ b / 16 * 16 + b % 16 = b := by
  have h := forall_byte (p := fun b => decide (hexValue (hexDigit (b / 16)) = some (b / 16) ∧
    hexValue (hexDigit (b % 16)) = some (b % 16) ∧ b / 16 * 16 + b % 16 = b))
    (by decide +kernel) b
  exact of_decide_eq_true h

theorem unescape_cons {b : UInt8} (hb : b ≠ 0x25) (t : List UInt8) :
    unescape (b :: t) = (unescape t).map ((if b = 0x2B then 0x20 else b) :: ·) := by
  rw [unescape.eq_def]
  exact if_neg hb

theorem unescape_escapeByte (b : UInt8) (t : List UInt8) :
    unescape (escapeByte b ++ t) = (unescape t).map (b :: ·) := by
  unfold escapeByte
  split
  next hspace =>
    rw [hspace]
    exact unescape_cons (by decide) t
  split
  next hplain =>
    obtain ⟨hpercent, hplus, -⟩ := plain_ne hplain
    rw [List.singleton_append, unescape_cons hpercent, if_neg hplus]
  obtain ⟨hhigh, hlow, hbyte⟩ := hexValue_hexDigit b
  simp only [List.cons_append, List.nil_append]
  rw [unescape, if_pos rfl, hhigh, hlow]
  dsimp only
  rw [hbyte]

theorem unescape_escape (s : List UInt8) : unescape (escape s) = some s := by
  induction s with
  | nil => rfl
  | cons b rest ih =>
    rw [escape, List.flatMap_cons, unescape_escapeByte]
    show (unescape (escape rest)).map _ = _
    rw [ih]
    rfl

/-- No escaped text holds one of the bytes the decoder looks for. -/
theorem not_mem_escape {s : List UInt8} {c : UInt8} (hc : c = 0x26 ∨ c = 0x3D ∨ c = 0x3B) :
    c ∉ escape s := by
  have hbyte (b : UInt8) : c ∉ escapeByte b := by
    have h := forall_byte (p := fun b => !(escapeByte b).contains 0x26 &&
      !(escapeByte b).contains 0x3D && !(escapeByte b).contains 0x3B) (by decide +kernel) b
    simp only [Bool.and_eq_true, Bool.not_eq_true', List.contains_eq_mem, decide_eq_false_iff_not]
      at h
    rcases hc with rfl | rfl | rfl
    · exact h.1.1
    · exact h.1.2
    · exact h.2
  intro hmem
  obtain ⟨b, -, hb⟩ := List.mem_flatMap.mp hmem
  exact hbyte b hb

-- ===== pieces

/-- The pieces between the occurrences of `sep`. -/
def split (sep : UInt8) : List UInt8 → List (List UInt8)
  | [] => [[]]
  | b :: rest =>
    if b = sep then [] :: split sep rest
    else
      match split sep rest with
      | [] => [[b]]
      | piece :: pieces => (b :: piece) :: pieces

/-- The pieces with `sep` between them. -/
def join (sep : UInt8) : List (List UInt8) → List UInt8
  | [] => []
  | [piece] => piece
  | piece :: pieces => piece ++ sep :: join sep pieces

variable {sep : UInt8}

theorem split_append {piece : List UInt8} (hpiece : sep ∉ piece)
    (rest : List UInt8) : split sep (piece ++ sep :: rest) = piece :: split sep rest := by
  induction piece with
  | nil =>
    show (if sep = sep then _ else _) = _
    rw [if_pos rfl]
  | cons b piece ih =>
    obtain ⟨hb, hpiece⟩ := not_or.mp (List.mem_cons.not.mp hpiece)
    rw [List.cons_append, split, if_neg (Ne.symm hb), ih hpiece]

theorem split_piece {piece : List UInt8} (hpiece : sep ∉ piece) : split sep piece = [piece] := by
  induction piece with
  | nil => rfl
  | cons b piece ih =>
    obtain ⟨hb, hpiece⟩ := not_or.mp (List.mem_cons.not.mp hpiece)
    rw [split, if_neg (Ne.symm hb), ih hpiece]

theorem split_join {pieces : List (List UInt8)} (hne : pieces ≠ [])
    (h : ∀ piece ∈ pieces, sep ∉ piece) : split sep (join sep pieces) = pieces := by
  induction pieces with
  | nil => exact absurd rfl hne
  | cons piece pieces ih =>
    have hpiece : sep ∉ piece := h piece List.mem_cons_self
    cases pieces with
    | nil => exact split_piece hpiece
    | cons next pieces =>
      rw [join, split_append hpiece,
        ih (List.cons_ne_nil _ _) fun p hp => h p (List.mem_cons_of_mem _ hp)]
      exact List.cons_ne_nil _ _

-- ===== pairs

abbrev Pair := List UInt8 × List UInt8

def encodePair (pair : Pair) : List UInt8 := escape pair.1 ++ 0x3D :: escape pair.2

def encode (pairs : List Pair) : List UInt8 := join 0x26 (pairs.map encodePair)

/-- One piece: a key, and a value behind the first equals sign. -/
def decodePair (piece : List UInt8) : Option Pair :=
  if piece.contains 0x3B then none
  else do
    let key ← unescape (piece.takeWhile (· != 0x3D))
    let value ← unescape (piece.dropWhile (· != 0x3D)).tail
    return (key, value)

def decode (s : List UInt8) : Option (List Pair) :=
  ((split 0x26 s).filter (· != [])).mapM decodePair

theorem decodePair_encodePair (pair : Pair) : decodePair (encodePair pair) = some pair := by
  have hnone : ¬(encodePair pair).contains 0x3B = true := by
    simp only [encodePair, List.contains_eq_mem, List.mem_append, List.mem_cons,
      decide_eq_true_eq, not_or]
    exact ⟨not_mem_escape (.inr (.inr rfl)), by decide, not_mem_escape (.inr (.inr rfl))⟩
  have hkey : ∀ b ∈ escape pair.1, (b != 0x3D) = true := by
    intro b hb
    rw [bne_iff_ne]
    rintro rfl
    exact not_mem_escape (.inr (.inl rfl)) hb
  have htake : (encodePair pair).takeWhile (· != 0x3D) = escape pair.1 := by
    rw [encodePair, List.takeWhile_append_of_pos hkey]
    simp
  have hdrop : (encodePair pair).dropWhile (· != 0x3D) = 0x3D :: escape pair.2 := by
    rw [encodePair, List.dropWhile_append_of_pos hkey]
    simp
  rw [decodePair, if_neg hnone, htake, hdrop, unescape_escape]
  show (unescape (escape pair.2)).bind _ = _
  rw [unescape_escape]
  rfl

theorem mapM_decodePair (pairs : List Pair) :
    (pairs.map encodePair).mapM decodePair = some pairs := by
  induction pairs with
  | nil => rfl
  | cons pair pairs ih =>
    rw [List.map_cons, List.mapM_cons, decodePair_encodePair, ih]
    rfl

/-- The round trip. -/
theorem decode_encode (pairs : List Pair) : decode (encode pairs) = some pairs := by
  cases pairs with
  | nil => rfl
  | cons pair pairs =>
    have hsplit : split 0x26 (encode (pair :: pairs)) = (pair :: pairs).map encodePair := by
      refine split_join (List.cons_ne_nil _ _) ?_
      intro piece hpiece
      obtain ⟨q, -, rfl⟩ := List.mem_map.mp hpiece
      simp only [encodePair, List.mem_append, List.mem_cons, not_or]
      exact ⟨not_mem_escape (.inl rfl), by decide, not_mem_escape (.inl rfl)⟩
    have hfilter : ((pair :: pairs).map encodePair).filter (· != []) =
        (pair :: pairs).map encodePair := by
      refine List.filter_eq_self.mpr ?_
      intro piece hpiece
      obtain ⟨q, -, rfl⟩ := List.mem_map.mp hpiece
      simp [encodePair]
    rw [decode, hsplit, hfilter, mapM_decodePair]

-- ===== numerals

/-- A number in decimal. -/
def formatNat (n : Nat) : List UInt8 :=
  if n = 0 then [0x30] else ((Nat.digits 10 n).map fun d => 0x30 + UInt8.ofNat d).reverse

/-- A decimal number: digits only, and at least one. -/
def parseNat (s : List UInt8) : Option Nat :=
  if s = [] || !s.all (fun b => 0x30 ≤ b && b ≤ 0x39) then none
  else some (Nat.ofDigits 10 (s.reverse.map fun b => (b - 0x30).toNat))

theorem parseNat_formatNat (n : Nat) : parseNat (formatNat n) = some n := by
  have hdigit {d : Nat} (hd : d < 10) :
      (0x30 ≤ 0x30 + UInt8.ofNat d && 0x30 + UInt8.ofNat d ≤ 0x39) = true ∧
        (0x30 + UInt8.ofNat d - 0x30).toNat = d := by
    have h : (List.range 10).all (fun d =>
      (0x30 ≤ 0x30 + UInt8.ofNat d && 0x30 + UInt8.ofNat d ≤ 0x39) &&
        (0x30 + UInt8.ofNat d - 0x30).toNat = d) = true := by decide
    have hd := List.all_eq_true.mp h d (List.mem_range.mpr hd)
    simpa only [Bool.and_eq_true, decide_eq_true_eq] using hd
  unfold formatNat
  split
  next hzero =>
    rw [hzero]
    decide
  rename_i hpos
  have hdigits (d : Nat) (h : d ∈ Nat.digits 10 n) : d < 10 := Nat.digits_lt_base (by decide) h
  have hne : Nat.digits 10 n ≠ [] := Nat.digits_ne_nil_iff_ne_zero.mpr hpos
  have hall : ((Nat.digits 10 n).map fun d => 0x30 + UInt8.ofNat d).reverse.all
      (fun b => 0x30 ≤ b && b ≤ 0x39) = true := by
    rw [List.all_reverse, List.all_map]
    exact List.all_eq_true.mpr fun d hd => (hdigit (hdigits d hd)).1
  have hvalues : (Nat.digits 10 n).map
      ((fun b : UInt8 => (b - 0x30).toNat) ∘ fun d => 0x30 + UInt8.ofNat d) =
        Nat.digits 10 n :=
    (List.map_congr_left fun d hd => (hdigit (hdigits d hd)).2).trans (List.map_id _)
  rw [parseNat, hall, if_neg (by simpa using hne), List.reverse_reverse, List.map_map, hvalues,
    Nat.ofDigits_digits]

end Form
