/-
Redelivery across a reload. A finished command is answered from the
cache again after its snapshot was saved and loaded, exactly when its
replay key survives the JSON encoding of the snapshot: the key starts
with the sender's raw bytes, a JSON string replaces every byte that is
not UTF-8, and several keys may become one.

# The listing

A snapshot lists the cache in map order and the load keeps the last
entry of each key, so a key that does survive can still be taken over by
a later one that is mangled onto it (`shadowed`).
-/
import R1s.Allocator.Proofs.Cache

namespace R1s.Allocator

variable {cfg : Config}

-- ===== the listing

/-- A finished entry listed after `key` whose own key becomes `key` in
JSON. -/
def shadowed (order : List GoString) (c : FMap GoString ReplayEntry) (key : GoString) : Bool :=
  ((visit order c).dropWhile (· ≠ key)).tail.any fun k =>
    Utf8.replaceInvalid k = key && (c.lookup k).any ReplayEntry.done

theorem nodup_visit (order : List GoString) (c : FMap GoString ReplayEntry) :
    (visit order c).Nodup := by
  refine List.Nodup.append (List.nodup_dedup _) (List.Nodup.filter _ c.nodupKeys) ?_
  intro k hk hk'
  rw [List.mem_dedup, List.mem_filter] at hk
  rw [List.mem_filter] at hk'
  simp only [decide_eq_true_eq] at hk'
  exact hk'.2 hk.1

variable {entry : ReplayEntry} {key : GoString}

/-- The listing around a key of the cache. -/
theorem visit_split (order : List GoString) {c : FMap GoString ReplayEntry}
    (hentry : c.lookup key = some entry) :
    ∃ before after, visit order c = before ++ key :: after ∧ key ∉ after ∧
      ((visit order c).dropWhile (· ≠ key)).tail = after := by
  have hmem : key ∈ visit order c := by
    rw [mem_visit, hentry]
    rfl
  obtain ⟨before, after, hsplit⟩ := List.append_of_mem hmem
  have hnodup := nodup_visit order c
  rw [hsplit, List.nodup_append] at hnodup
  obtain ⟨-, hafter, hdisjoint⟩ := hnodup
  have hbefore : ∀ k ∈ before, decide (k ≠ key) = true := by
    intro k hk
    simpa using hdisjoint k hk key List.mem_cons_self
  refine ⟨before, after, hsplit, (List.nodup_cons.mp hafter).1, ?_⟩
  rw [hsplit, List.dropWhile_append_of_pos hbefore]
  simp

-- ===== the loaded entry

/-- The saved commands of a part of the listing. -/
def listed (saved : SaveIn) (c : FMap GoString ReplayEntry) (l : List GoString) :
    List PersistedReplay :=
  l.filterMap fun k => (c.lookup k).map fun entry => entry.save saved.prefer k

variable {saved : SaveIn}

theorem mem_listed {c : FMap GoString ReplayEntry} {l : List GoString} {p : PersistedReplay}
    (hp : p ∈ listed saved c l) :
    ∃ k ∈ l, ∃ entry, c.lookup k = some entry ∧ p = entry.save saved.prefer k := by
  obtain ⟨k, hk, hmap⟩ := List.mem_filterMap.mp hp
  obtain ⟨entry, hentry, rfl⟩ := Option.map_eq_some_iff.mp hmap
  exact ⟨k, hk, entry, hentry, rfl⟩

theorem replayKey_ne_nil (e : Envelope) : replayKey e ≠ [] := by
  unfold replayKey authorityKey
  simp

section Loaded

variable {saved : SaveIn} {src m : Mem} {granted now : Int} {key : GoString}
  {entry : ReplayEntry} (hload : load cfg granted now (snapshot cfg saved src) = .ok m)
  (hentry : src.replay.lookup key = some entry) (hkey : key ≠ [])

include hload

/-- The load of a listing cut at a key. -/
theorem load_split {before after : List GoString}
    (hsplit : visit saved.order src.replay = before ++ key :: after)
    (hentry : src.replay.lookup key = some entry) :
    m.replay = (listed saved src.replay after).foldl loadReplay
      (loadReplay ((listed saved src.replay before).foldl loadReplay ∅)
        (entry.save saved.prefer key)) := by
  have hlist : (snapshot cfg saved src).replay
      = listed saved src.replay (visit saved.order src.replay) := rfl
  rw [load_replay hload, hlist, hsplit]
  simp only [listed, List.filterMap_append, List.filterMap_cons, hentry, Option.map_some,
    List.foldl_append, List.foldl_cons]

include hentry hkey

/-- A key that is valid UTF-8 and not taken over comes back with its
entry. -/
theorem lookup_load_kept (hdone : entry.done = true) (hvalid : Utf8.valid key = true)
    (hclear : shadowed saved.order src.replay key = false) :
    m.replay.lookup key = some (entry.save saved.prefer key).restore := by
  obtain ⟨before, after, hsplit, -, htail⟩ := visit_split saved.order hentry
  have hself : Utf8.replaceInvalid key = key := (Utf8.replaceInvalid_eq_self key).mpr hvalid
  rw [shadowed, htail, List.any_eq_false] at hclear
  rw [load_split hload hsplit hentry]
  rcases lookup_loadReplay hkey (listed saved src.replay after)
      (loadReplay ((listed saved src.replay before).foldl loadReplay ∅)
        (entry.save saved.prefer key)) with ⟨p, hp, hcomplete, hpkey, -⟩ | ⟨-, hlookup⟩
  · -- A later entry under the key would shadow it.
    obtain ⟨k, hk, entry', hentry', rfl⟩ := mem_listed hp
    refine absurd ?_ (hclear k hk)
    have hdone' : entry'.done = true := hcomplete
    have hmangled : Utf8.replaceInvalid k = key := hpkey
    simp [hentry', hdone', hmangled]
  · rw [hlookup]
    unfold loadReplay
    rw [if_neg]
    · show (AList.insert (Utf8.replaceInvalid key) _ _).lookup key = _
      rw [hself, AList.lookup_insert]
    · show ¬((!entry.done) = true ∨ Utf8.replaceInvalid key = [])
      rw [hself, hdone]
      simp [hkey]

/-- A key that is taken over comes back with the entry of another. -/
theorem lookup_load_shadowed (htaken : shadowed saved.order src.replay key = true) :
    ∃ k entry', k ≠ key ∧ Utf8.replaceInvalid k = key ∧ src.replay.lookup k = some entry' ∧
      m.replay.lookup key = some (entry'.save saved.prefer k).restore := by
  obtain ⟨before, after, hsplit, hnot, htail⟩ := visit_split saved.order hentry
  rw [shadowed, htail, List.any_eq_true] at htaken
  obtain ⟨k, hk, hshadow⟩ := htaken
  simp only [Bool.and_eq_true, decide_eq_true_eq] at hshadow
  obtain ⟨hmangled, hany⟩ := hshadow
  obtain ⟨other, hother, hotherDone⟩ := (Option.any_eq_true _ _).mp hany
  rw [load_split hload hsplit hentry]
  rcases lookup_loadReplay hkey (listed saved src.replay after)
      (loadReplay ((listed saved src.replay before).foldl loadReplay ∅)
        (entry.save saved.prefer key)) with ⟨p, hp, -, hpkey, hlookup⟩ | ⟨hnone, -⟩
  · obtain ⟨k', hk', entry', hentry', rfl⟩ := mem_listed hp
    refine ⟨k', entry', ?_, hpkey, hentry', hlookup⟩
    intro heq
    exact hnot (heq ▸ hk')
  · refine absurd hmangled (hnone (other.save saved.prefer k) ?_ hotherDone)
    refine List.mem_filterMap.mpr ⟨k, hk, ?_⟩
    rw [hother]
    rfl

end Loaded

/-- A key that is not valid UTF-8 does not come back. -/
theorem lookup_load_mangled {src m : Mem} {granted now : Int}
    (hload : load cfg granted now (snapshot cfg saved src) = .ok m)
    (hinvalid : ¬Utf8.valid key = true) : m.replay.lookup key = none := by
  cases hlookup : m.replay.lookup key with
  | none => rfl
  | some entry => exact absurd (valid_of_loaded hload hlookup) hinvalid

-- ===== the redelivery

/-- What a delivery of `e` is answered with from the cache: the reply its
two sections before the handler lead to, if they do. -/
def cachedReply (tid : Nat) (i₁ i₂ : Input) (e : Inbound cfg) (w : World) : Option Reply :=
  match receive i₁ e w with
  | (w, .goto (.dispatching e)) =>
    match beginReplay tid i₂ e w with
    | (_, .goto (.answered _ reply)) => some reply
    | _ => none
  | _ => none

variable {e : Inbound cfg} {w : World}

/-- A fresh command goes on to its entry. -/
theorem receive_fresh {i : Input} (hreplayed : replayed e.1 = true)
    (hfresh : (checkFreshness i.now e.1 w.mem).2 = none) :
    receive i e w = (w.setMem (checkFreshness i.now e.1 w.mem).1, .goto (.dispatching e)) := by
  unfold receive
  dsimp only
  rw [hfresh]
  dsimp only
  split
  next q hq =>
    rw [replayed, hq] at hreplayed
    cases hreplayed
  · rw [if_pos hreplayed]

variable {tid : Nat}

/-- A command answered from the cache is fresh and has a finished entry
of its own envelope there. -/
theorem cachedReply_inv {i₁ i₂ : Input} {reply : Reply}
    (h : cachedReply tid i₁ i₂ e w = some reply) :
    (checkFreshness i₁.now e.1 w.mem).2 = none ∧
      ∃ entry, (prune cfg i₂.now w.mem.replay).lookup (replayKey e.1) = some entry ∧
        entry.envelope = e.1 := by
  have hreplay : (receive i₁ e w).1.mem.replay = w.mem.replay := by
    rw [receive_world, effectiveNow_eq]
    rfl
  unfold cachedReply at h
  split at h
  next w₁ e' hrecv =>
    have hsucc := receive_succ i₁ w (congrArg Prod.snd hrecv)
    cases hsucc
    rw [congrArg Prod.fst hrecv] at hreplay
    have hbegin := beginReplay_begun tid i₂ e w₁
    split at h
    next w₂ e'' reply' hanswered =>
      rw [hanswered] at hbegin
      refine ⟨?_, ?_⟩
      · unfold receive at hrecv
        dsimp only at hrecv
        split at hrecv
        · cases hrecv
        next hfresh => exact hfresh
      · generalize hr : (w₂, Next.goto (Pc.answered e'' reply')) = r at hbegin
        cases hbegin with
        | refused | begun => cases hr
        | @joined entry hentry heq =>
          rw [hreplay] at hentry
          exact ⟨entry, hentry, heq⟩
    · cases h
  · cases h

/-- A fresh command with a finished entry of its own envelope is answered
with the entry's reply. -/
theorem cachedReply_entry {i₁ i₂ : Input} (hreplayed : replayed e.1 = true)
    (hfresh : (checkFreshness i₁.now e.1 w.mem).2 = none)
    (hentry : (prune cfg i₂.now w.mem.replay).lookup (replayKey e.1) = some entry)
    (henv : entry.envelope = e.1) (hdone : entry.done = true) :
    cachedReply tid i₁ i₂ e w = some ⟨entry.responses, entry.err⟩ := by
  have hreplay : (expireOffers i₂.now (w.setMem (checkFreshness i₁.now e.1 w.mem).1).mem).replay
      = w.mem.replay := by
    show (effectiveNow i₁.now w.mem).replay = w.mem.replay
    rw [effectiveNow_eq]
  unfold cachedReply
  rw [receive_fresh hreplayed hfresh]
  unfold beginReplay beginCache
  dsimp only
  rw [hreplay, hentry]
  dsimp only
  rw [if_pos henv]
  dsimp only
  rw [if_pos hdone]

/-- The message ID of a command the store holds is valid UTF-8: its
envelope was marshalled. -/
theorem valid_messageID (hw : LedgerWorld cfg w) (hsaved : w.disk = some (snapshot cfg saved w.mem))
    (hentry : w.mem.replay.lookup key = some entry) :
    Utf8.valid entry.envelope.messageID = true := by
  obtain ⟨saved', src, -, henc, hsnap⟩ := hw.disk _ hsaved
  have hmem : entry.save saved.prefer key ∈ (snapshot cfg saved w.mem).replay :=
    mem_snapshot_replay.mpr ⟨key, entry, mem_visit.mpr (by rw [hentry]; rfl), hentry, rfl⟩
  rw [hsnap] at hmem
  obtain ⟨k, entry', -, hentry', heq⟩ := mem_snapshot_replay.mp hmem
  have henv : entry.envelope = entry'.envelope := congrArg PersistedReplay.envelope heq
  simp only [Mem.encodable, Bool.and_eq_true, List.all_eq_true] at henc
  have hencodable := henc.2 ⟨k, entry'⟩ (AList.mem_entries.mpr hentry')
  simp only [ReplayEntry.encodable, Envelope.utf8, Bool.and_eq_true] at hencodable
  rw [henv]
  exact hencodable.1.1.1

/-- The memory a finished call leaves holds its reply under its key. -/
theorem finished_entry {s : System cfg} (hs : (machine cfg).Reach s) {reply : Reply}
    (hat : s.threads.lookup tid = some (.finishing e reply))
    (hroom : s.world.mem.replay.size ≤ cfg.replayCapacity) {i : Input} :
    ∃ entry, (finishReplay tid i e reply s.world).1.mem.replay.lookup (replayKey e.1)
        = some entry ∧ entry.done = true ∧ entry.envelope = e.1 ∧
      entry.responses = (published i e reply).responses := by
  obtain ⟨entry, hentry, hbusy, henv, howner⟩ :=
    (cacheInv_reachable hs).owned tid e (by rw [hat]; rfl)
  refine ⟨entry.publish (published i e reply), ?_, rfl, henv, rfl⟩
  rw [finishReplay_owned hentry hbusy howner, evict_within]
  · exact AList.lookup_insert _
  · rw [AList.size_replace hentry]
    exact hroom

/-- A command that was handled to its end and saved is redelivered after
a reload from that snapshot, within the TTL of its entry. It gets the
responses of the first time without its handler exactly when it is still
fresh, its sender is valid UTF-8 and its key is not taken over. -/
theorem redelivery_after_reload {s : System cfg} (hs : (machine cfg).Reach s) {tid : Nat}
    {e : Inbound cfg} {reply : Reply} (hat : s.threads.lookup tid = some (.finishing e reply))
    (hroom : s.world.mem.replay.size ≤ cfg.replayCapacity) {i : Input} {w : World} {r : Reply}
    (hfin : advance tid (.finishing e reply) i s.world = some (w, .ret r))
    (hsaved : w.disk = some (snapshot cfg i.saved w.mem)) {granted now : Int} {m : Mem}
    (hload : restart cfg granted now w.disk = .ok m) (tid' : Nat) (i₁ i₂ : Input)
    (httl : ∀ entry, w.mem.replay.lookup (replayKey e.1) = some entry →
      i₂.now - cfg.replayTTL < entry.seenAt) :
    (cachedReply tid' i₁ i₂ e ⟨m, w.disk⟩).map Reply.responses = some r.responses ↔
      (checkFreshness i₁.now e.1 m).2 = none ∧ Utf8.valid e.1.sender = true ∧
        shadowed i.saved.order w.mem.replay (replayKey e.1) = false := by
  have hinv := cacheInv_reachable hs
  have hreplayed : replayed e.1 = true := hinv.replayed tid e (by rw [hat]; rfl)
  have hdone : finishReplay tid i e reply s.world = (w, .ret r) := Option.some.inj hfin
  -- The saved memory: the finished entry, and keys that name their command.
  obtain ⟨entry, hentry, hfinished, henv, hresponses⟩ := finished_entry hs hat hroom (i := i)
  have hkeyed := (hinv.finished (i := i) hat).keyed
  have hworld : LedgerWorld cfg w := by
    have hreach : (machine cfg).Reach (s.resume tid (.finishing e reply) i (w, .ret r)) := by
      refine .step (l := .run tid i) hs trivial ?_
      show (s.threads.lookup tid).bind _ = _
      rw [hat, Option.bind_some, hfin]
      rfl
    exact ledgerWorld_reachable hreach
  change ∀ k entry, (finishReplay tid i e reply s.world).1.mem.replay.lookup k = some entry → _
    at hkeyed
  rw [hdone] at hentry hkeyed
  have hr : r.responses = entry.responses := by
    have hret : (Next.ret _ : Next cfg) = .ret r := congrArg Prod.snd hdone
    cases hret
    exact hresponses.symm
  have hload' : load cfg granted now (snapshot cfg i.saved w.mem) = .ok m := by
    rw [hsaved] at hload
    exact hload
  have hkey : Utf8.valid (replayKey e.1) = true ↔ Utf8.valid e.1.sender = true := by
    have hid := valid_messageID hworld hsaved hentry
    rw [henv] at hid
    unfold replayKey authorityKey
    rw [Utf8.valid_append_nul, hid, Bool.and_true]
  rw [hr, ← hkey]
  constructor
  · intro h
    obtain ⟨reply', hreply', -⟩ := Option.map_eq_some_iff.mp h
    obtain ⟨hfresh, found, hfound, hsame⟩ := cachedReply_inv hreply'
    have hthere := (trimmed_prune _ _).sub _ _ hfound
    refine ⟨hfresh, ?_, ?_⟩
    · by_contra hinvalid
      rw [lookup_load_mangled hload' hinvalid] at hthere
      cases hthere
    · by_contra htaken
      obtain ⟨k, other, hne, hmangled, hother, hlookup⟩ :=
        lookup_load_shadowed hload' hentry (replayKey_ne_nil e.1) (by simpa using htaken)
      rw [hlookup] at hthere
      cases hthere
      rcases hkeyed k other hother with hvalid | hown
      · exact hne (((Utf8.replaceInvalid_eq_self k).mpr hvalid).symm.trans hmangled)
      · have hsame' : other.envelope = e.1 := hsame
        exact hne (by rw [← hown, hsame'])
  · intro h
    obtain ⟨hfresh, hvalid, hclear⟩ := h
    have hback := lookup_load_kept hload' hentry (replayKey_ne_nil e.1) hfinished hvalid hclear
    have hpruned : (prune cfg i₂.now m.replay).lookup (replayKey e.1)
        = some (entry.save i.saved.prefer (replayKey e.1)).restore := by
      unfold prune
      rw [AList.lookup_keep, hback, Option.filter_some_pos]
      simp only [Bool.or_eq_true, decide_eq_true_eq]
      exact .inl (httl entry hentry)
    have hreply : cachedReply tid' i₁ i₂ e ⟨m, w.disk⟩
        = some ⟨(entry.save i.saved.prefer (replayKey e.1)).restore.responses,
            (entry.save i.saved.prefer (replayKey e.1)).restore.err⟩ :=
      cachedReply_entry hreplayed hfresh hpruned henv rfl
    rw [hreply]
    show some (if entry.done then entry.responses else []) = some entry.responses
    rw [hfinished, if_pos rfl]

-- ===== two senders

/-- The sample request from any sender. -/
def requestFrom (sender : Bytes) : Envelope :=
  ⟨text "m1", sender, [], some (Timestamp.new epoch), some (.executionRequest sampleRequest)⟩

/-- A sender that is one byte of no UTF-8 text, as keys and digests are. -/
def rawRequest : Inbound oneSlot := ⟨requestFrom [0xFF], by decide +kernel⟩

def textRequest : Inbound oneSlot := ⟨requestFrom (text "alice"), by decide +kernel⟩

/-- The sections of a request up to its `finish`. -/
def handledRun (e : Inbound oneSlot) : List (Label oneSlot) :=
  [ .call 0 e, .run 0 { now := epoch }, .run 0 { now := epoch },
    .run 0 { now := epoch, id := text "o", id2 := text "a1" } ]

/-- The allocator before that `finish`. -/
def handledState (e : Inbound oneSlot) : System oneSlot :=
  (machine oneSlot).runTo (System.initial oneSlot) (handledRun e)

/-- The reply of the handler: the offer "o". -/
def offerReply : Reply :=
  .ok (envelope oneSlot (text "a1") (text "m1") epoch
    (.executionOffer (mintOffer oneSlot { now := epoch, id := text "o" } sampleRequest)))

/-- What the `finish` leaves in memory and in the store. -/
def finishedWorld (e : Inbound oneSlot) : World :=
  (finishReplay 0 { now := epoch } e offerReply (handledState e).world).1

/-- The memory after the reload. -/
def reloadedMem (e : Inbound oneSlot) : Mem :=
  (restart oneSlot epoch epoch (finishedWorld e).disk).toOption.getD .empty

/-- The command stands before its `finish` in a reachable state, the
`finish` saves it, and the reload goes through: all that is asked of a
redelivery within the TTL. -/
structure Reloaded (e : Inbound oneSlot) : Prop where
  reach : (machine oneSlot).Reach (handledState e)
  at_finish : (handledState e).threads.lookup 0 = some (.finishing e offerReply)
  room : (handledState e).world.mem.replay.size ≤ oneSlot.replayCapacity
  fin : advance 0 (.finishing e offerReply) { now := epoch } (handledState e).world
    = some (finishedWorld e, .ret offerReply)
  saved : (finishedWorld e).disk = some (snapshot oneSlot {} (finishedWorld e).mem)
  load : restart oneSlot epoch epoch (finishedWorld e).disk = .ok (reloadedMem e)
  ttl : ∀ entry, (finishedWorld e).mem.replay.lookup (replayKey e.1) = some entry →
    epoch - oneSlot.replayTTL < entry.seenAt

theorem reloaded_of {e : Inbound oneSlot}
    (hrun : ((machine oneSlot).runWhen (fun _ _ => true) (System.initial oneSlot)
      (handledRun e)).isSome = true)
    (hat : (handledState e).threads.lookup 0 = some (.finishing e offerReply))
    (hroom : (handledState e).world.mem.replay.size ≤ oneSlot.replayCapacity)
    (hret : (finishReplay 0 { now := epoch } e offerReply (handledState e).world).2
      = .ret offerReply)
    (hsaved : (finishedWorld e).disk = some (snapshot oneSlot {} (finishedWorld e).mem))
    (hload : (restart oneSlot epoch epoch (finishedWorld e).disk).toOption.isSome = true)
    (httl : ((finishedWorld e).mem.replay.lookup (replayKey e.1)).all fun entry =>
      epoch - oneSlot.replayTTL < entry.seenAt) : Reloaded e where
  reach := TransitionSystem.reach_runTo rfl hrun
  at_finish := hat
  room := hroom
  fin := by
    rw [← hret]
    rfl
  saved := hsaved
  load := Loop.ok_getD _ hload
  ttl entry hentry := by
    rw [hentry] at httl
    simpa using httl

theorem reloaded_raw : Reloaded rawRequest :=
  reloaded_of (by decide +kernel) (by decide +kernel) (by decide +kernel) (by decide +kernel)
    (by decide +kernel) (by decide +kernel) (by decide +kernel)

theorem reloaded_text : Reloaded textRequest :=
  reloaded_of (by decide +kernel) (by decide +kernel) (by decide +kernel) (by decide +kernel)
    (by decide +kernel) (by decide +kernel) (by decide +kernel)

/-- The byte FF does not survive the snapshot: the redelivered command is
fresh and within the TTL, and goes to its handler. -/
theorem reload_forgets_raw_sender :
    Reloaded rawRequest ∧ (checkFreshness epoch rawRequest.1 (reloadedMem rawRequest)).2 = none ∧
      (beginReplay 1 { now := epoch } rawRequest
        ⟨reloadedMem rawRequest, (finishedWorld rawRequest).disk⟩).2
        = .goto (.handling rawRequest) ∧
      (cachedReply 1 { now := epoch } { now := epoch } rawRequest
        ⟨reloadedMem rawRequest, (finishedWorld rawRequest).disk⟩).map Reply.responses
        ≠ some offerReply.responses :=
  ⟨reloaded_raw, by decide +kernel, by decide +kernel, by decide +kernel⟩

/-- A sender in text is answered with the offer again. -/
theorem redelivery_answers_text_sender :
    (cachedReply 1 { now := epoch } { now := epoch } textRequest
      ⟨reloadedMem textRequest, (finishedWorld textRequest).disk⟩).map Reply.responses
      = some offerReply.responses := by
  obtain ⟨hreach, hat, hroom, hfin, hsaved, hload, httl⟩ := reloaded_text
  refine (redelivery_after_reload hreach hat hroom hfin hsaved hload 1 _ _ httl).mpr ?_
  exact ⟨by decide +kernel, by decide +kernel, by decide +kernel⟩

end R1s.Allocator
