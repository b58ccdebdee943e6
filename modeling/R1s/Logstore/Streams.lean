/-
What the log files hold and what is read from them.

# Writing

Chunk boundaries do not matter: two reads of a source in a row leave what
one read of both would (`Capturing.chunk_append`), so a whole source is
one chunk, whatever the other stream does in between.

# Reading

A chain of requests follows `nextOffset` through a file that may grow
between two requests, and between `Stat` and `ReadAt` of one. What the
chain returned so far is the file up to its offset.
-/
import R1s.Logstore.Store
import R1s.Allocator.Proofs.Acceptance

namespace R1s.Logstore

open Allocator (LogChunk Inbound handleLogs)

-- ===== capturing

/-- What the reads of one source returned. -/
def source (st : Stream) (chunks : List (Stream × Bytes)) : Bytes :=
  chunks.flatMap fun r => if r.1 = st then r.2 else []

/-- A chunk fills the room that is left. -/
theorem Capturing.chunk_eq (c : Capturing) (b : Bytes) :
    c.chunk b = ⟨c.file ++ b.take c.remaining, c.remaining - b.length,
      c.truncated || decide (c.remaining < b.length)⟩ := by
  simp only [Capturing.chunk, Capturing.mk.injEq]
  refine ⟨?_, by omega, ?_⟩
  · rw [min_comm, ← List.take_take, List.take_length]
  · congr 2
    simp only [eq_iff_iff]
    omega

/-- The boundary between two chunks leaves no trace. -/
theorem Capturing.chunk_append (c : Capturing) (a b : Bytes) :
    (c.chunk a).chunk b = c.chunk (a ++ b) := by
  simp only [Capturing.chunk_eq, Capturing.mk.injEq, List.append_assoc, List.length_append]
  refine ⟨?_, by omega, ?_⟩
  · rw [List.take_append]
  · rw [Bool.or_assoc, ← Bool.decide_or]
    congr 2
    simp only [eq_iff_iff]
    omega

/-- Each stream ends as if its source had come in one chunk. -/
theorem captured (chunks : List (Stream × Bytes)) (c : Stream → Capturing) (st : Stream) :
    chunks.foldl Capturing.read c st = (c st).chunk (source st chunks) := by
  induction chunks generalizing c with
  | nil => simp [source, Capturing.chunk_eq]
  | cons r rest ih =>
    rw [List.foldl_cons, ih]
    unfold Capturing.read source
    rw [List.flatMap_cons]
    by_cases h : r.1 = st
    · subst h
      rw [Function.update_self, if_pos rfl, Capturing.chunk_append]
    · rw [Function.update_of_ne (Ne.symm h), if_neg h, List.nil_append]

/-- A capture appends the first bytes of each source that fit, and marks
the stream as truncated exactly when a byte was dropped. -/
theorem capture_keeps_a_prefix {d : Dir} {m : Metadata} (chunks : List (Stream × Bytes))
    (hm : readMetadata (some d) = .ok m) :
    ∃ d', capture m.limit chunks d = .ok d' ∧ d'.metadata = d.metadata ∧ ∀ st,
      let old := (d.file st).getD []
      let room := (max 0 (m.limit - old.length)).toNat
      d'.file st = some (old ++ (source st chunks).take room) ∧
      (d'.truncated st = true ↔
        d.truncated st = true ∨ room < (source st chunks).length) := by
  unfold capture
  rw [hm]
  dsimp only
  rw [if_neg (fun h => h rfl)]
  refine ⟨_, rfl, rfl, fun st => ?_⟩
  have hroom : (max 0 (m.limit - ((d.file st).getD []).length)).toNat =
      (m.limit - ((d.file st).getD []).length).toNat := by omega
  simp only [captured, Capturing.chunk_eq, Capturing.start, hroom, Bool.false_or,
    Bool.or_eq_true, decide_eq_true_eq, and_self]

/-- Two chunks of one stream that do not fit, and one of the other. -/
def fullDir : Dir :=
  { metadata := some (.whole ⟨text "x", 3⟩), file := fun _ => some (text "a") }

theorem full_stream_is_truncated :
    ∃ d', capture 3 [(.stdout, text "b"), (.stderr, text "e"), (.stdout, text "cd")] fullDir =
        .ok d' ∧ d'.file .stdout = some (text "abc") ∧ d'.truncated .stdout = true ∧
      d'.truncated .stderr = false := by
  obtain ⟨d', hd', -, hst⟩ := capture_keeps_a_prefix (d := fullDir) (m := ⟨text "x", 3⟩)
    [(.stdout, text "b"), (.stderr, text "e"), (.stdout, text "cd")] (by decide)
  refine ⟨d', hd', (hst .stdout).1.trans (by decide), (hst .stdout).2.mpr (by decide), ?_⟩
  exact Bool.eq_false_iff.mpr fun h => absurd ((hst .stderr).2.mp h) (by decide)

-- ===== chains of reads

/-- One read of a chain: its limit, the disk when the file is opened, and
the file when it is read. -/
structure Look where
  limit : Nat
  disk : Disk
  after : Bytes

section

variable (sum256 : Bytes → Bytes) (id stream : GoString)

/-- A chain of reads from an offset: each starts where the one before
ended. -/
def follow : Nat → List Look → Except Err (List (Nat × LogChunk))
  | _, [] => .ok []
  | offset, l :: rest =>
    match read sum256 id stream offset l.limit false l.disk l.after with
    | .error err => .error err
    | .ok chunk => (follow chunk.nextOffset rest).map ((offset, chunk) :: ·)

/-- The log file, as it is when a read opens it. -/
def content (st : Stream) (d : Disk) : Option Bytes :=
  (d.lookup (directory sum256 id)).bind fun dir => dir.file st

/-- The file is there and only grows, from `old` on. -/
def Grows (st : Stream) : Bytes → List Look → Prop
  | _, [] => True
  | old, l :: rest =>
    (∃ m, readMetadata (l.disk.lookup (directory sum256 id)) = .ok m ∧ m.execution = id) ∧
    (∃ seen, content sum256 id st l.disk = some seen ∧ old <+: seen ∧ seen <+: l.after) ∧
    Grows st l.after rest

end

/-- The file at the end. -/
def final : Bytes → List Look → Bytes
  | old, [] => old
  | _, l :: rest => final l.after rest

variable {sum256 : Bytes → Bytes} {id stream : GoString} {st : Stream}

theorem Grows.prefix_final {looks : List Look} {old : Bytes} (h : Grows sum256 id st old looks) :
    old <+: final old looks := by
  induction looks generalizing old with
  | nil => exact List.prefix_rfl
  | cons l rest ih =>
    obtain ⟨-, ⟨seen, -, hseen, hafter⟩, hrest⟩ := h
    exact (hseen.trans hafter).trans (ih hrest)

/-- A read inside the file returns what is there, up to the limit. -/
theorem read_inside {offset : Nat} {l : Look} {m : Metadata} {seen : Bytes}
    (hst : Stream.named stream = some st) (hpos : 1 ≤ l.limit) (hmax : l.limit ≤ 65536)
    (hm : readMetadata (l.disk.lookup (directory sum256 id)) = .ok m) (hid : m.execution = id)
    (hseen : content sum256 id st l.disk = some seen) (hafter : seen <+: l.after)
    (hoffset : offset ≤ seen.length) :
    ∃ chunk, read sum256 id stream offset l.limit false l.disk l.after = .ok chunk ∧
      chunk.data = (l.after.drop offset).take chunk.data.length ∧
      chunk.data.length = min l.limit (seen.length - offset) ∧
      chunk.nextOffset = offset + chunk.data.length ∧
      (chunk.eof = true ↔ chunk.nextOffset = seen.length) := by
  have hlength := hafter.length_le
  unfold read
  rw [if_neg Bool.false_ne_true, hst]
  dsimp only
  rw [if_neg (by omega), hm]
  dsimp only
  rw [if_neg (fun h => h hid)]
  rw [content] at hseen
  rw [hseen]
  dsimp only
  rw [if_neg (by omega)]
  refine ⟨_, rfl, ?_, ?_, rfl, decide_eq_true_iff⟩
  · simp only [List.length_take, List.length_drop]
    congr 1
    omega
  · simp only [List.length_take, List.length_drop]
    omega

/-- The allocator answers a valid request of the owner for this range with
a response that passes validation. -/
def Answered (cfg : Allocator.Config) (id stream : GoString) (limit : Nat)
    (a : Nat × LogChunk) : Prop :=
  ∀ (e : Inbound cfg) (q : ExecutionLogsRequest) (i : Allocator.Input) (w : Allocator.World),
    e.1.payload = some (.executionLogsRequest q) →
    q.executionID = id → q.stream = stream → q.offset = a.1 → q.maxBytes = limit →
    (w.mem.executions.lookup id).any (fun r => r.client = e.1.sender) → cfg.logs = true →
    i.fault = none → i.chunk = a.2 →
    ∃ r response, (handleLogs cfg i e.1 q w).responses = [r] ∧
      r.payload = some (.executionLogsResponse response) ∧
      response.data = a.2.data ∧ response.nextOffset = a.2.nextOffset ∧
      response.eof = a.2.eof ∧ validateLogsResponse cfg.sum256 r response = none

theorem answered_range {cfg : Allocator.Config} {limit offset : Nat} {chunk : LogChunk}
    (hsize : chunk.data.length ≤ maxLogBytes)
    (hrange : chunk.nextOffset = offset + chunk.data.length) :
    Answered cfg id stream limit (offset, chunk) := by
  intro e q i w hq hid hstream hoffset hlimit howner hlogs hfault hchunk
  subst hid hchunk
  have hallowed : ((w.mem.executions.lookup q.executionID).all
      fun r => r.client ≠ e.1.sender) = false := by
    cases hr : w.mem.executions.lookup q.executionID with
    | none => simp [hr] at howner
    | some r => simpa [hr] using howner
  unfold handleLogs
  simp only [hallowed, hlogs, hfault, Bool.false_eq_true, if_false, Bool.not_true]
  refine ⟨_, _, rfl, rfl, rfl, rfl, rfl, ?_⟩
  exact Allocator.validateLogsResponse_chunk rfl hq hsize (by rw [hrange, hoffset])

/-- What a chain from an offset returns is the file from there on. -/
theorem follow_prefix {looks : List Look} {old : Bytes} {offset : Nat}
    (hst : Stream.named stream = some st) (hlimits : ∀ l ∈ looks, 1 ≤ l.limit ∧ l.limit ≤ 65536)
    (h : Grows sum256 id st old looks) (hoffset : offset ≤ old.length) :
    ∃ answers, follow sum256 id stream offset looks = .ok answers ∧
      (answers.flatMap fun a => a.2.data) <+: (final old looks).drop offset ∧
      List.Forall₂ (fun l a => (a.2.eof = true ↔
          (content sum256 id st l.disk).map List.length = some a.2.nextOffset) ∧
        a.2.data.length ≤ l.limit ∧ a.2.nextOffset = a.1 + a.2.data.length) looks answers := by
  induction looks generalizing old offset with
  | nil => exact ⟨[], rfl, List.nil_prefix, .nil⟩
  | cons l rest ih =>
    obtain ⟨⟨m, hm, hid⟩, ⟨seen, hseen, hold, hafter⟩, hrest⟩ := h
    obtain ⟨hpos, hmax⟩ := hlimits l List.mem_cons_self
    have hlong := hold.length_le
    have hlonger := hafter.length_le
    have hin : offset ≤ seen.length := by omega
    obtain ⟨chunk, hread, hdata, hlength, hnext, heof⟩ :=
      read_inside hst hpos hmax hm hid hseen hafter hin
    have hnextIn : chunk.nextOffset ≤ l.after.length := by omega
    obtain ⟨answers, hfollow, hprefix, hall⟩ :=
      ih (fun l' hl' => hlimits l' (List.mem_cons_of_mem _ hl')) hrest hnextIn
    have hsmall : chunk.data.length ≤ l.limit := by omega
    refine ⟨(offset, chunk) :: answers, ?_, ?_, .cons ⟨?_, hsmall, hnext⟩ hall⟩
    · rw [follow, hread]
      dsimp only
      rw [hfollow]
      rfl
    · -- the chunk is the file at the offset, also after it has grown
      obtain ⟨tail, htail⟩ := hrest.prefix_final
      have hfinal : chunk.data = ((final l.after rest).drop offset).take chunk.data.length := by
        rw [← htail, List.drop_append_of_le_length (by omega),
          List.take_append_of_le_length (by rw [List.length_drop]; omega)]
        exact hdata
      have hdrop : (final l.after rest).drop chunk.nextOffset =
          ((final l.after rest).drop offset).drop chunk.data.length := by
        rw [List.drop_drop, hnext]
      rw [hdrop] at hprefix
      have hwhole := (List.prefix_append_right_inj chunk.data).mpr hprefix
      nth_rewrite 2 [hfinal] at hwhole
      rw [List.take_append_drop] at hwhole
      exact hwhole
    · rw [heof, hseen, Option.map_some, Option.some.injEq]
      exact eq_comm

/-- A chain of log requests from the start of a growing file reads a prefix
of it, reports the end exactly where it is, and every response the
allocator makes of it is valid. -/
theorem log_chains_read_prefixes (cfg : Allocator.Config) {looks : List Look}
    (hst : Stream.named stream = some st)
    (hlimits : ∀ l ∈ looks, 1 ≤ l.limit ∧ l.limit ≤ 65536)
    (hgrows : Grows cfg.sum256 id st [] looks) :
    ∃ answers, follow cfg.sum256 id stream 0 looks = .ok answers ∧
      (answers.flatMap fun a => a.2.data) <+: final [] looks ∧
      List.Forall₂ (fun l a => (a.2.eof = true ↔
          (content cfg.sum256 id st l.disk).map List.length = some a.2.nextOffset) ∧
        Answered cfg id stream l.limit a) looks answers := by
  obtain ⟨answers, hfollow, hprefix, hall⟩ := follow_prefix hst hlimits hgrows (Nat.le_refl 0)
  refine ⟨answers, hfollow, hprefix, ?_⟩
  have hbounded : ∀ l ∈ looks, l.limit ≤ 65536 := fun l hl => (hlimits l hl).2
  clear hfollow hprefix hgrows hlimits
  induction hall with
  | nil => exact .nil
  | @cons l a looks answers hl _ ih =>
    refine .cons ⟨hl.1, answered_range ?_ hl.2.2⟩
      (ih fun l' hl' => hbounded l' (List.mem_cons_of_mem _ hl'))
    exact hl.2.1.trans (hbounded l List.mem_cons_self)

/-- The log of `x` with three bytes, then four. -/
def growing : List Look :=
  let holding (file : Bytes) : Disk :=
    (∅ : Disk).insert (directory Allocator.oneSlot.sum256 (text "x"))
      { metadata := some (.whole ⟨text "x", 8⟩), file := fun _ => some file }
  [⟨2, holding (text "abc"), text "abcd"⟩, ⟨2, holding (text "abcd"), text "abcd"⟩]

theorem growing_log_is_read :
    ∃ answers, follow Allocator.oneSlot.sum256 (text "x") (text "stdout") 0 growing = .ok answers ∧
      (answers.flatMap fun a => a.2.data) = text "abcd" ∧
      (answers.flatMap fun a => a.2.data) <+: final [] growing := by
  have hgrows : Grows Allocator.oneSlot.sum256 (text "x") .stdout [] growing :=
    ⟨⟨⟨text "x", 8⟩, by decide, rfl⟩, ⟨text "abc", by decide, by decide, by decide⟩,
      ⟨⟨text "x", 8⟩, by decide, rfl⟩, ⟨text "abcd", by decide, by decide, by decide⟩, trivial⟩
  have hst : Stream.named (text "stdout") = some .stdout := by decide
  obtain ⟨answers, hfollow, hprefix, -⟩ :=
    log_chains_read_prefixes Allocator.oneSlot hst (by decide) hgrows
  refine ⟨answers, hfollow, ?_, hprefix⟩
  have heval : follow Allocator.oneSlot.sum256 (text "x") (text "stdout") 0 growing =
      .ok [(0, ⟨text "ab", 2, false, false⟩), (2, ⟨text "cd", 4, true, false⟩)] := by decide
  cases hfollow.symm.trans heval
  rfl

end R1s.Logstore
