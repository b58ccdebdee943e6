/-
The local log store (`internal/logstore`: store.go).

# State

The root directory maps the name of each subdirectory to what is in it.
`metadata.json` is written once, so it holds either the whole of what
`json.Marshal` gave or a proper part of it, which lacks the closing brace
and never parses. `json.Marshal` replaces what is not UTF-8 in the
execution ID; `Metadata` is what a reader decodes.

# What is decided outside

SHA-256 is a parameter. How far a call gets before it fails or the process
ends is the number of file-system steps it makes; a step of its own is the
write of a part of the metadata. Regular files in the root are skipped by
every operation and have no counterpart.
-/
import R1s.Allocator.Feedback

namespace R1s.Logstore

open Allocator (hexEncode LogChunk)

structure Metadata where
  execution : GoString
  limit : Int
deriving DecidableEq

inductive MetadataFile
  | part
  | whole (m : Metadata)
deriving DecidableEq

inductive Stream
  | stdout | stderr
deriving DecidableEq

/-- The directory of one reservation: a missing log file is `none`. -/
structure Dir where
  metadata : Option MetadataFile := none
  file : Stream → Option Bytes := fun _ => none
  truncated : Stream → Bool := fun _ => false

/-- The subdirectories of the root. -/
abbrev Disk := FMap GoString Dir

/-- A `Store` that `New` returns: its budgets are checked. -/
structure Store where
  streamBytes : Int
  totalBytes : Int
  positive : 1 ≤ streamBytes
  bounded : streamBytes ≤ 2 ^ 30
  room : 2 * streamBytes ≤ totalBytes
  int64 : totalBytes < 2 ^ 63

/-- `New` on the budgets, which are `int64`. -/
def Store.new (streamBytes totalBytes : Int) : Option Store :=
  if h : (1 ≤ streamBytes ∧ streamBytes ≤ 2 ^ 30) ∧ 2 * streamBytes ≤ totalBytes
      ∧ totalBytes < 2 ^ 63 then
    some ⟨streamBytes, totalBytes, h.1.1, h.1.2, h.2.1, h.2.2⟩
  else none

inductive Err
  | notExist | malformed | invalidMetadata | identityConflict | budgetExhausted
  | invalidReservation (name : GoString) (err : Err)
  | logsMissing | logOffset | limitMismatch | canceled
deriving DecidableEq

/-- `readMetadata`. -/
def readMetadata (d : Option Dir) : Except Err Metadata :=
  match d.bind Dir.metadata with
  | none => .error .notExist
  | some .part => .error .malformed
  | some (.whole m) =>
    if m.execution = [] ∨ m.limit < 1 ∨ 2 ^ 30 < m.limit then .error .invalidMetadata
    else .ok m

section

variable (sum256 : Bytes → Bytes) (s : Store) (id : GoString)

/-- The base name of `directory`. -/
def directory : GoString := hexEncode (sum256 id)

-- ===== reservations

/-- `os.ReadDir` on the root, sorted by name. -/
def readDir (d : Disk) : List (Σ _ : GoString, Dir) :=
  d.entries.insertionSort fun a b => ¬b.1 < a.1

/-- The loop of `Reserve` over the directories, in an `int64`. -/
def scan : List (Σ _ : GoString, Dir) → Int → Except Err Int
  | [], reserved => .ok reserved
  | entry :: rest, reserved =>
    match readMetadata (some entry.2) with
    | .error err => .error (.invalidReservation entry.1 err)
    | .ok m => scan rest (Int.bmod (reserved + 2 * m.limit) (2 ^ 64))

/-- The directory of a new reservation. -/
def reservation : Dir :=
  { metadata := some (.whole ⟨Utf8.replaceInvalid id, s.streamBytes⟩) }

/-- The file-system steps of a new reservation: the directory, the empty
metadata file, and its content. -/
def created : List Dir := [{}, { metadata := some .part }, reservation s id]

/-- `Reserve` up to its first write: what it returns when it writes
nothing. -/
def reserved (d : Disk) : Option (Except Err (GoString × Int)) :=
  match readMetadata (d.lookup (directory sum256 id)) with
  | .ok m =>
    if m.execution ≠ id then some (.error .identityConflict)
    else some (.ok (directory sum256 id, m.limit))
  | .error .notExist =>
    match scan (readDir d) 0 with
    | .error err => some (.error err)
    | .ok sum =>
      if s.totalBytes - 2 * s.streamBytes < sum then some (.error .budgetExhausted) else none
  | .error err => some (.error err)

/-- The disk after `steps` of the steps of `Reserve`. -/
def reserveUpTo (steps : Nat) (d : Disk) : Disk :=
  match reserved sum256 s id d, ((created s id).take steps).getLast? with
  | none, some dir => d.insert (directory sum256 id) dir
  | _, _ => d

/-- `Reserve`, with every step made. -/
def reserve (d : Disk) : Disk × Except Err (GoString × Int) :=
  (reserveUpTo sum256 s id 3 d,
    (reserved sum256 s id d).getD (.ok (directory sum256 id, s.streamBytes)))

/-- `Remove`. -/
def remove (d : Disk) : Disk := d.erase (directory sum256 id)

-- ===== reading

def Stream.named (stream : GoString) : Option Stream :=
  if stream = text "stdout" then some .stdout
  else if stream = text "stderr" then some .stderr
  else none

/-- `Read`: `after` is the log file when `ReadAt` reads it, which may have
grown since `Stat`. -/
def read (stream : GoString) (offset limit : Nat) (canceled : Bool) (d : Disk) (after : Bytes) :
    Except Err LogChunk :=
  if canceled then .error .canceled
  else
    match Stream.named stream with
    | none => .error .logOffset
    | some st =>
      if limit = 0 ∨ 2 ^ 20 < limit then .error .logOffset
      else
        let dir := d.lookup (directory sum256 id)
        match readMetadata dir with
        | .error .notExist => .error .logsMissing
        | .error err => .error err
        | .ok m =>
          if m.execution ≠ id then .error .logsMissing
          else
            match dir.bind fun dir => dir.file st with
            | none => .error .logsMissing
            | some seen =>
              if seen.length < offset then .error .logOffset
              else
                let data := (after.drop offset).take (min limit (seen.length - offset))
                .ok
                  { data := data, nextOffset := offset + data.length,
                    eof := offset + data.length = seen.length,
                    truncated := dir.any fun dir => dir.truncated st }

end

-- ===== capturing

/-- One stream of `Capture`. -/
structure Capturing where
  file : Bytes
  remaining : Nat
  truncated : Bool

/-- A chunk a read of the source returned: what the limit leaves room for
is written, the rest is dropped. -/
def Capturing.chunk (c : Capturing) (buffer : Bytes) : Capturing :=
  let keep := min buffer.length c.remaining
  ⟨c.file ++ buffer.take keep, c.remaining - keep, c.truncated || decide (keep < buffer.length)⟩

/-- The stream as the goroutine finds it. -/
def Capturing.start (limit : Int) (file : Option Bytes) : Capturing :=
  let file := file.getD []
  ⟨file, (limit - file.length).toNat, false⟩

/-- A read of one of the two goroutines. -/
def Capturing.read (c : Stream → Capturing) (r : Stream × Bytes) : Stream → Capturing :=
  Function.update c r.1 ((c r.1).chunk r.2)

/-- `Capture`, where every write succeeds: `chunks` are the reads of the
two goroutines in the order they return, up to the end of both sources. -/
def capture (limit : Int) (chunks : List (Stream × Bytes)) (d : Dir) : Except Err Dir :=
  match readMetadata (some d) with
  | .error err => .error err
  | .ok m =>
    if m.limit ≠ limit then .error .limitMismatch
    else
      let ends := chunks.foldl Capturing.read fun st => .start limit (d.file st)
      .ok { d with
        file := fun st => some (ends st).file,
        truncated := fun st => d.truncated st || (ends st).truncated }

end R1s.Logstore
