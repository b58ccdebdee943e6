/-
The wire form of a frame (`internal/tunnel/yggdrasil/framing.go`,
`readPairFrame` of pair_handshake.go).

# The two directions

A frame that fits a packet is read back, and what follows it in the
buffer is left (`parseFrame_append`); what is read is what was in the
buffer (`append_of_parseFrame`). The header is seven bytes, so both
compare a list with seven bytes in front.
-/
import R1s.Yggdrasil.Stream

namespace R1s.Yggdrasil

/-- The `frameType` constants. -/
def FrameType.code : FrameType → UInt8
  | .data => 1
  | .eof => 2
  | .close => 3
  | .preamble => 4
  | .accept => 5
  | .streamOpen => 6
  | .windowUpdate => 7

def frameType (code : UInt8) : Option FrameType :=
  [.data, .eof, .close, .preamble, .accept, .streamOpen, .windowUpdate].find?
    fun t : FrameType => t.code == code

/-- `appendFrame`. -/
def appendFrame (dst : Bytes) (f : Frame) : Bytes :=
  dst ++ f.typ.code :: (bigEndian 4 f.streamID.toNat ++ (bigEndian 2 f.payload.length ++ f.payload))

/-- `frameError`, with the prefix of its text. -/
def frameError (reason : GoString) : GoString := text "yggdrasil tunnel frame: " ++ reason

/-- `%02x`. -/
def hexByte (b : UInt8) : GoString :=
  [b / 16, b % 16].map fun d => if d < 10 then 0x30 + d else 0x57 + d

/-- `parseFrame`: the frame and the bytes it took, `none` for an
incomplete one. -/
def parseFrame (buf : Bytes) : Except GoString (Option (Frame × Nat)) :=
  if buf.length < frameHeaderSize then .ok none
  else
    let streamID := UInt32.ofNat (ofBigEndian ((buf.drop 1).take 4))
    let length := ofBigEndian ((buf.drop 5).take 2)
    match frameType (buf.headD 0) with
    | none => .error (frameError (text "unknown frame type 0x" ++ hexByte (buf.headD 0)))
    | some typ =>
      if maxPacketPayload < length then .error (frameError (text "oversized frame length"))
      else if buf.length < frameHeaderSize + length then .ok none
      else
        .ok (some (⟨typ, streamID, (buf.drop frameHeaderSize).take length⟩,
          frameHeaderSize + length))

/-- `readPairFrame`, called up to `n` times on what has arrived: the
frames, and what is left of `raw`. -/
def readFrames : Nat → Bytes → Except GoString (List Frame × Bytes)
  | 0, raw => .ok ([], raw)
  | n + 1, raw => do
    match ← parseFrame raw with
    | none => .ok ([], raw)
    | some (f, consumed) =>
      let (fs, rest) ← readFrames n (raw.drop consumed)
      .ok (f :: fs, rest)

-- ===== numbers

theorem ofBigEndian_lt (b : Bytes) : ofBigEndian b < 256 ^ b.length := by
  induction b using List.reverseRecOn with
  | nil => decide
  | append_singleton b c ih =>
    have hc : c.toNat < 256 := c.toNat_lt
    rw [ofBigEndian_append, List.length_append, List.length_singleton, Nat.pow_succ]
    omega

theorem bigEndian_ofBigEndian (b : Bytes) : bigEndian b.length (ofBigEndian b) = b := by
  induction b using List.reverseRecOn with
  | nil => rfl
  | append_singleton b c ih =>
    have hc : c.toNat < 256 := c.toNat_lt
    have hhigh : (ofBigEndian b * 256 + c.toNat) / 256 = ofBigEndian b := by omega
    have hlow : UInt8.ofNat (ofBigEndian b * 256 + c.toNat) = c := by
      apply UInt8.toNat_inj.mp
      rw [UInt8.toNat_ofNat']
      omega
    rw [ofBigEndian_append, List.length_append, List.length_singleton, bigEndian, hhigh, hlow, ih]

theorem frameType_code (t : FrameType) : frameType t.code = some t := by
  cases t <;> rfl

theorem code_of_frameType {code : UInt8} {t : FrameType} (h : frameType code = some t) :
    t.code = code := by
  simpa using List.find?_some h

-- ===== the buffer

variable {f : Frame} {buf p rest : Bytes}

/-- A buffer that holds a header. -/
theorem parseFrame_bytes (b₀ b₁ b₂ b₃ b₄ b₅ b₆ : UInt8) (rest : Bytes) :
    parseFrame (b₀ :: b₁ :: b₂ :: b₃ :: b₄ :: b₅ :: b₆ :: rest)
      = match frameType b₀ with
        | none => .error (frameError (text "unknown frame type 0x" ++ hexByte b₀))
        | some typ =>
          if maxPacketPayload < ofBigEndian [b₅, b₆] then
            .error (frameError (text "oversized frame length"))
          else if rest.length < ofBigEndian [b₅, b₆] then .ok none
          else
            .ok (some (⟨typ, UInt32.ofNat (ofBigEndian [b₁, b₂, b₃, b₄]),
              rest.take (ofBigEndian [b₅, b₆])⟩, frameHeaderSize + ofBigEndian [b₅, b₆])) := by
  have hlong : ¬rest.length + 1 + 1 + 1 + 1 + 1 + 1 + 1 < 7 := by omega
  have hshort (n : Nat) : rest.length + 1 + 1 + 1 + 1 + 1 + 1 + 1 < 7 + n ↔ rest.length < n := by
    omega
  simp [parseFrame, frameHeaderSize, hlong, hshort]

/-- The header of a frame in front of any bytes. -/
theorem parseFrame_header (hf : f.payload.length ≤ maxPacketPayload) (rest : Bytes) :
    parseFrame (f.typ.code :: (bigEndian 4 f.streamID.toNat
        ++ (bigEndian 2 f.payload.length ++ rest)))
      = if rest.length < f.payload.length then .ok none
        else .ok (some (⟨f.typ, f.streamID, rest.take f.payload.length⟩,
          frameHeaderSize + f.payload.length)) := by
  have hid := ofBigEndian_bigEndian 4 f.streamID.toNat
  have hlen := ofBigEndian_bigEndian 2 f.payload.length
  have hlt := f.streamID.toNat_lt
  rw [Nat.mod_eq_of_lt (by omega)] at hid
  rw [Nat.mod_eq_of_lt (by unfold maxPacketPayload at hf; omega)] at hlen
  simp only [bigEndian, List.nil_append, List.cons_append] at hid hlen ⊢
  rw [parseFrame_bytes, frameType_code, hid, hlen]
  simp [Nat.not_lt.mpr hf]

theorem parseFrame_append (hf : f.payload.length ≤ maxPacketPayload) (rest : Bytes) :
    parseFrame (appendFrame [] f ++ rest)
      = .ok (some (f, frameHeaderSize + f.payload.length)) := by
  have h := parseFrame_header hf (f.payload ++ rest)
  simpa [appendFrame, Nat.not_lt.mpr (Nat.le_add_right _ _)] using h

theorem length_appendFrame (f : Frame) :
    (appendFrame [] f).length = frameHeaderSize + f.payload.length := by
  simp [appendFrame, length_bigEndian, frameHeaderSize]
  omega

/-- A buffer that ends within a frame. -/
theorem parseFrame_prefix (hf : f.payload.length ≤ maxPacketPayload) (hp : p <+: appendFrame [] f)
    (hne : p ≠ appendFrame [] f) : parseFrame p = .ok none := by
  by_cases hlong : p.length < frameHeaderSize
  · rw [parseFrame, if_pos hlong]
  · obtain ⟨k, hk⟩ := Nat.exists_eq_add_of_le (Nat.not_lt.mp hlong)
    have hshort : k < f.payload.length := by
      have hlt := Nat.lt_of_le_of_ne hp.length_le (mt hp.eq_of_length hne)
      rw [length_appendFrame] at hlt
      omega
    -- What is there of the frame is its header and `k` bytes of payload.
    have hcut : p = f.typ.code :: (bigEndian 4 f.streamID.toNat
        ++ (bigEndian 2 f.payload.length ++ f.payload.take k)) := by
      rw [List.prefix_iff_eq_take.mp hp, hk, Nat.add_comm]
      simp [appendFrame, bigEndian, frameHeaderSize]
    rw [hcut, parseFrame_header hf, if_pos (by rw [List.length_take]; omega)]

/-- What is read was there. -/
theorem append_of_parseFrame {n : Nat} (h : parseFrame buf = .ok (some (f, n))) :
    appendFrame [] f = buf.take n ∧ n ≤ buf.length := by
  match buf with
  | b₀ :: b₁ :: b₂ :: b₃ :: b₄ :: b₅ :: b₆ :: rest =>
    rw [parseFrame_bytes] at h
    cases htyp : frameType b₀ with
    | none => simp [htyp] at h
    | some typ =>
      simp only [htyp] at h
      split at h
      · cases h
      split at h
      · cases h
      cases h
      have hid := bigEndian_ofBigEndian [b₁, b₂, b₃, b₄]
      have hlen := bigEndian_ofBigEndian [b₅, b₆]
      have hlt := ofBigEndian_lt [b₁, b₂, b₃, b₄]
      have hpayload : (rest.take (ofBigEndian [b₅, b₆])).length = ofBigEndian [b₅, b₆] := by
        rw [List.length_take]
        omega
      refine ⟨?_, by simp [frameHeaderSize]; omega⟩
      simp only [List.length_cons, List.length_nil] at hid hlen hlt
      rw [appendFrame, code_of_frameType htyp, hpayload, hlen,
        UInt32.toNat_ofNat_of_lt' hlt, hid]
      simp [frameHeaderSize, Nat.add_comm 7]
  | [] | [_] | [_, _] | [_, _, _] | [_, _, _, _] | [_, _, _, _, _] | [_, _, _, _, _, _] =>
    cases h

-- ===== the round trip

theorem readFrames_append (fs : List Frame) (hfs : ∀ f ∈ fs, f.payload.length ≤ maxPacketPayload)
    (rest : Bytes) :
    readFrames fs.length (fs.flatMap (appendFrame []) ++ rest) = .ok (fs, rest) := by
  induction fs with
  | nil => rfl
  | cons f fs ih =>
    have hdrop : (appendFrame [] f ++ (fs.flatMap (appendFrame []) ++ rest)).drop
        (frameHeaderSize + f.payload.length) = fs.flatMap (appendFrame []) ++ rest := by
      rw [← length_appendFrame, List.drop_left]
    rw [List.flatMap_cons, List.append_assoc, List.length_cons, readFrames,
      parseFrame_append (hfs f List.mem_cons_self)]
    simp only [bind, Except.bind, hdrop, ih fun f hf => hfs f (List.mem_cons_of_mem _ hf)]

/-- Frames of any stream that fit a packet are read back one by one, with
nothing left over; a frame cut short is incomplete; and what is read is,
written again, what was taken from the buffer. -/
theorem frames_round_trip :
    (∀ fs : List Frame, (∀ f ∈ fs, f.payload.length ≤ maxPacketPayload) →
      readFrames fs.length (fs.foldl appendFrame []) = .ok (fs, [])) ∧
    (∀ (f : Frame) (p : Bytes), f.payload.length ≤ maxPacketPayload → p <+: appendFrame [] f →
      p ≠ appendFrame [] f → parseFrame p = .ok none) ∧
    ∀ (buf : Bytes) (f : Frame) (n : Nat), parseFrame buf = .ok (some (f, n)) →
      appendFrame [] f = buf.take n ∧ n ≤ buf.length := by
  refine ⟨?_, fun _ _ => parseFrame_prefix, fun _ _ _ => append_of_parseFrame⟩
  intro fs hfs
  have hfold (dst : Bytes) : fs.foldl appendFrame dst = dst ++ fs.flatMap (appendFrame []) := by
    induction fs generalizing dst with
    | nil => simp
    | cons f fs ih =>
      rw [List.foldl_cons, ih fun f hf => hfs f (List.mem_cons_of_mem _ hf)]
      simp [appendFrame]
  have h := readFrames_append fs hfs []
  rwa [List.append_nil, ← List.nil_append (fs.flatMap _), ← hfold] at h

/-- A data frame and an end of data, one after the other, and the first of
them cut in its payload. -/
theorem data_and_eof_round_trip :
    readFrames 2 ([⟨.data, 1, [7, 8]⟩, ⟨.eof, 1, []⟩].foldl appendFrame [])
        = .ok ([⟨.data, 1, [7, 8]⟩, ⟨.eof, 1, []⟩], []) ∧
      parseFrame [1, 0, 0, 0, 1, 0, 2, 7] = .ok none ∧
      appendFrame [] ⟨.data, 1, [7, 8]⟩ = [1, 0, 0, 0, 1, 0, 2, 7, 8, 9].take 9 := by
  refine ⟨frames_round_trip.1 [⟨.data, 1, [7, 8]⟩, ⟨.eof, 1, []⟩] ?_,
    frames_round_trip.2.1 ⟨.data, 1, [7, 8]⟩ _ ?_ ?_ ?_,
    (frames_round_trip.2.2 [1, 0, 0, 0, 1, 0, 2, 7, 8, 9] ⟨.data, 1, [7, 8]⟩ 9 ?_).1⟩
  all_goals decide +kernel

end R1s.Yggdrasil
