/-
The bytes a fingerprint is taken of (`fingerprint` and `writeHashPart` of
specification.go).

Every part has its length in eight bytes before it, so the parts are cut
off one by one (`hashPart_append_inj`). Resources come last and only if
there are any; in their JSON a number ends at the first byte that is
neither a digit nor a minus sign.
-/
import R1s.Runtime.Specification
import R1s.Yggdrasil.Stream

namespace R1s.Runtime

open Allocator (Resources)
open Yggdrasil (bigEndian ofBigEndian ofBigEndian_bigEndian length_bigEndian)

-- ===== parts

theorem bigEndian64_eq (n : Nat) : bigEndian64 n = bigEndian 8 n := by
  simp [bigEndian64, bigEndian, List.range_succ, Nat.div_div_eq_div_mul]

theorem bigEndian64_inj {n m : Nat} (hn : n < 2 ^ 64) (hm : m < 2 ^ 64)
    (h : bigEndian64 n = bigEndian64 m) : n = m := by
  have hnum := congrArg ofBigEndian h
  simp only [bigEndian64_eq, ofBigEndian_bigEndian] at hnum
  omega

theorem hashPart_append_inj {a b x y : Bytes} (ha : a.length < 2 ^ 64) (hb : b.length < 2 ^ 64)
    (h : hashPart a ++ x = hashPart b ++ y) : a = b ∧ x = y := by
  simp only [hashPart, bigEndian64_eq, List.append_assoc] at h
  obtain ⟨hlength, hrest⟩ :=
    List.append_inj h (by rw [length_bigEndian, length_bigEndian])
  simp only [← bigEndian64_eq] at hlength
  exact List.append_inj hrest (bigEndian64_inj ha hb hlength)

-- ===== resources

theorem text_append (s t : String) : text (s ++ t) = text s ++ text t := by
  simp [text, String.toUTF8]

theorem text_inj {s t : String} (h : text s = text t) : s = t :=
  String.toByteArray_inj.mp (ByteArray.ext (Array.toList_inj.mp h))

/-- The characters of a decimal number. -/
theorem mem_toString {n : Int} {c : Char} (h : c ∈ (toString n).toList) :
    c.isDigit = true ∨ c = '-' := by
  have hdigit : ∀ k : Nat, c ∈ (Nat.repr k).toList → c.isDigit = true := by
    intro k hk
    rw [Nat.repr, String.toList_ofList] at hk
    exact Nat.isDigit_of_mem_toDigits (by decide) (by decide) hk
  cases n with
  | ofNat k => exact .inl (hdigit k h)
  | negSucc k =>
    rw [show toString (Int.negSucc k) = "-" ++ Nat.repr (k + 1) from rfl,
      String.toList_append, List.mem_append] at h
    rcases h with h | h
    · exact .inr (List.mem_singleton.mp h)
    · exact .inl (hdigit _ h)

/-- A number ends at the separator. -/
theorem number_append_inj {c : Char} {z : List Char} {sep : String} (hsep : sep.toList = c :: z)
    (hc : c.isDigit = false ∧ c ≠ '-') {n m : Int} {x y : List Char}
    (h : (toString n).toList ++ (sep.toList ++ x) = (toString m).toList ++ (sep.toList ++ y)) :
    n = m ∧ x = y := by
  have hcut : ∀ (n : Int) (x : List Char),
      ((toString n).toList ++ (sep.toList ++ x)).takeWhile (· ≠ c) = (toString n).toList := by
    intro n x
    rw [List.takeWhile_append_of_pos]
    · simp [hsep]
    · intro d hd
      rcases mem_toString hd with hdigit | rfl
      · refine decide_eq_true ?_
        rintro rfl
        rw [hc.1] at hdigit
        cases hdigit
      · exact decide_eq_true hc.2.symm
  have htake := congrArg (List.takeWhile (· ≠ c)) h
  rw [hcut, hcut] at htake
  rw [htake, List.append_cancel_left_eq, List.append_cancel_left_eq] at h
  exact ⟨Int.repr_injective (String.toList_inj.mp htake), h⟩

theorem resourcesJSON_inj {r r' : Resources} (h : resourcesJSON r = resourcesJSON r') :
    r = r' := by
  simp only [resourcesJSON, ← text_append] at h
  have hchars := congrArg String.toList (text_inj h)
  simp only [String.toList_append, List.append_assoc, List.append_cancel_left_eq] at hchars
  obtain ⟨hmemory, hchars⟩ := number_append_inj rfl (by decide) hchars
  obtain ⟨hcpu, hchars⟩ := number_append_inj rfl (by decide) hchars
  have hpids := Int.repr_injective (String.toList_inj.mp (List.append_cancel_right hchars))
  cases r
  cases r'
  simp_all

-- ===== the fingerprint

/-- The sizes Go values have. -/
structure Sized (r : StartRequest) (workload policy : Bytes) : Prop where
  attempt : r.attempt < 2 ^ 64
  client : r.client.length < 2 ^ 64
  runID : r.runID.length < 2 ^ 64
  workload : workload.length < 2 ^ 64
  policy : policy.length < 2 ^ 64

/-- Requests with the same hash input are the same in every part of
it. -/
theorem fingerprint_covers_request {r r' : StartRequest} {workload workload' policy policy' : Bytes}
    (hr : Sized r workload policy) (hr' : Sized r' workload' policy')
    (h : hashInput r workload policy = hashInput r' workload' policy') :
    r.client = r'.client ∧ r.runID = r'.runID ∧ r.attempt = r'.attempt ∧
      workload = workload' ∧ policy = policy' ∧ r.resources = r'.resources := by
  have height : ∀ n, (bigEndian64 n).length < 2 ^ 64 := by
    intro n
    rw [bigEndian64_eq, length_bigEndian]
    omega
  simp only [hashInput, List.append_assoc] at h
  obtain ⟨hclient, h⟩ := hashPart_append_inj hr.client hr'.client h
  obtain ⟨hrunID, h⟩ := hashPart_append_inj hr.runID hr'.runID h
  obtain ⟨hattempt, h⟩ := hashPart_append_inj (height _) (height _) h
  obtain ⟨hworkload, h⟩ := hashPart_append_inj hr.workload hr'.workload h
  obtain ⟨hpolicy, h⟩ := hashPart_append_inj hr.policy hr'.policy h
  refine ⟨hclient, hrunID, bigEndian64_inj hr.attempt hr'.attempt hattempt, hworkload, hpolicy, ?_⟩
  -- A part is at least eight bytes, so resources are not mistaken for none.
  split at h <;> split at h
  next hzero hzero' => rw [hzero, hzero']
  · cases h
  · cases h
  · have hdrop := congrArg (List.drop 8) h
    exact resourcesJSON_inj hdrop

/-- The execution's own ID is not in it. -/
theorem fingerprint_covers_renamed_request : ∃ r r' : StartRequest,
    r.executionID ≠ r'.executionID ∧ Sized r [2] [3] ∧ Sized r' [2] [3] ∧
      hashInput r [2] [3] = hashInput r' [2] [3] ∧ r.resources ≠ .zero ∧
      r.resources = r'.resources := by
  have hsized (id : GoString) :
      Sized ⟨id, [114], 1, [7], none, none, ⟨1048576, 100, 8⟩, 0⟩ [2] [3] := by
    constructor <;> simp
  refine ⟨_, _, ?_, hsized [1], hsized [2], rfl, by decide, ?_⟩
  · decide
  · exact (fingerprint_covers_request (hsized [1]) (hsized [2]) rfl).2.2.2.2.2

end R1s.Runtime
