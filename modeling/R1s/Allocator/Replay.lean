/-
Duplicate-command coalescing (`internal/allocator/replay.go`).

The cache ranges over a Go map when it looks for the oldest entry, so
which of several equally old entries goes is open. `order` is the
iteration order of one critical section: the keys it lists come first,
in its order, and every order can be given.
-/
import R1s.Allocator.Types

namespace R1s.Allocator

variable (cfg : Config)

/-- The keys of a map in iteration order. -/
def visit {α : Type*} (order : List GoString) (m : FMap GoString α) : List GoString :=
  (order.filter fun k => (m.lookup k).isSome).dedup ++ m.keys.filter fun k => k ∉ order

theorem mem_visit {α : Type*} {order : List GoString} {m : FMap GoString α} {k : GoString} :
    k ∈ visit order m ↔ (m.lookup k).isSome = true := by
  unfold visit
  rw [List.mem_append, List.mem_dedup, List.mem_filter, List.mem_filter]
  by_cases hk : k ∈ order
  · simp [hk]
  · simp [hk, AList.lookup_isSome, AList.mem_keys]

/-- `replayCache.prune`: finished entries older than the TTL go. -/
def prune (now : Int) (c : FMap GoString ReplayEntry) : FMap GoString ReplayEntry :=
  c.keep fun _ entry => now - cfg.replayTTL < entry.seenAt || !entry.done

/-- The scan of `replayCache.evict`: the first finished entry none of the
others was seen before. -/
def oldestDone (c : FMap GoString ReplayEntry) :
    List GoString → Option (GoString × Int) → Option (GoString × Int)
  | [], oldest => oldest
  | key :: rest, oldest =>
    match c.lookup key with
    | none => oldestDone c rest oldest
    | some entry =>
      if entry.done && oldest.all (fun best => entry.seenAt < best.2) then
        oldestDone c rest (some (key, entry.seenAt))
      else oldestDone c rest oldest

/-- The loop of `replayCache.evict`; every round removes an entry, so the
size is fuel enough. -/
def evictLoop (order : List GoString) (limit : Nat) :
    Nat → FMap GoString ReplayEntry → FMap GoString ReplayEntry
  | 0, c => c
  | fuel + 1, c =>
    if c.size ≤ limit then c
    else
      match oldestDone c (visit order c) none with
      | none => c
      | some (key, _) => evictLoop order limit fuel (c.erase key)

/-- `replayCache.evict`. -/
def evict (order : List GoString) (limit : Nat) (c : FMap GoString ReplayEntry) :
    FMap GoString ReplayEntry :=
  evictLoop order limit c.size c

/-- What `replayCache.begin` answers. -/
inductive BeginResult
  | conflict
  | full
  | duplicate (entry : ReplayEntry)
  | fresh
deriving DecidableEq

/-- `replayCache.begin`, called by the `Handle` call `owner`. -/
def beginCache (order : List GoString) (owner : Nat) (key : GoString) (e : Envelope)
    (now : Int) (c : FMap GoString ReplayEntry) : FMap GoString ReplayEntry × BeginResult :=
  let c := prune cfg now c
  match c.lookup key with
  | some entry =>
    if entry.envelope = e then (c, .duplicate entry) else (c, .conflict)
  | none =>
    let c := evict order (cfg.replayCapacity - 1) c
    if cfg.replayCapacity ≤ c.size then (c, .full)
    else (c.insert key ⟨now, false, e, [], none, owner⟩, .fresh)

/-- `replayCache.finish`: the owner publishes its reply through the
pointer it holds. -/
def finishCache (order : List GoString) (owner : Nat) (key : GoString) (reply : Reply)
    (c : FMap GoString ReplayEntry) : FMap GoString ReplayEntry :=
  let c :=
    match c.lookup key with
    | some entry =>
      if entry.owner = owner && !entry.done then
        c.insert key { entry with done := true, responses := reply.responses, err := reply.err }
      else c
    | none => c
  evict order cfg.replayCapacity c

end R1s.Allocator
