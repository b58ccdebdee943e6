/-
The sessions of the tunnel registry over any sequence of its operations.

A session is live while its execution's record holds it, and its done
channel is open until its serial is listed as closed. `Sound` ties the
two together: what is live is open, was issued under a serial of its own,
and belongs to the execution it is held for. Three operations end a
session, and they end it the same way (`Sound.ended`).
-/
import R1s.Tunnel.Registry

namespace R1s.Tunnel

variable {r r' : Registry} {id : GoString}

/-- `Registry.Session`: the live session of an execution. -/
def Registry.session (r : Registry) (id : GoString) : Option Session :=
  (r.records.lookup id).bind Record.session

/-- The session's done channel is open. -/
def Registry.opened (r : Registry) (session : Session) : Bool := !r.closed.contains session.serial

/-- One operation of the registry. -/
inductive Registry.Move : Registry → Registry → Prop
  | bind {r r' id peerKey targets endpoint} (h : r.bind id peerKey targets endpoint = .ok r') :
      Move r r'
  | open {r r' id peerKey session} (h : r.open id peerKey = .ok (r', session)) : Move r r'
  | closeSession {r : Registry} (id : GoString) : Move r (r.closeSession id)
  | invalidate {r : Registry} (id : GoString) : Move r (r.invalidate id)
  | release {r : Registry} (session : Session) : Move r (r.release session)

structure Registry.Sound (r : Registry) : Prop where
  own : ∀ {id x}, r.session id = some x → x.executionID = id
  issued : ∀ {id x}, r.session id = some x → x.serial < r.issued
  live : ∀ {id x}, r.session id = some x → x.serial ∉ r.closed
  distinct : ∀ {id id' x x'}, r.session id = some x → r.session id' = some x' →
    x.serial = x'.serial → id = id'
  retired : ∀ {n}, n ∈ r.closed → n < r.issued

theorem Registry.Sound.new : Registry.new.Sound where
  own h := nomatch h
  issued h := nomatch h
  live h := nomatch h
  distinct h := nomatch h
  retired h := nomatch h

-- ===== sessions per operation

theorem session_insert (r : Registry) (k : GoString) (rec : Record) (id : GoString) :
    ({ r with records := r.records.insert k rec } : Registry).session id
      = if id = k then rec.session else r.session id := by
  unfold Registry.session
  rw [AList.lookup_insert_if]
  split <;> rfl

variable {k : GoString} {peerKey : Bytes}

theorem bind_ok {targets : List Nat} {endpoint : Endpoint}
    (h : r.bind k peerKey targets endpoint = .ok r') :
    r' = { r with records := r.records.insert k ⟨peerKey, targets, endpoint, r.session k⟩ } := by
  unfold Registry.bind at h
  split at h
  · cases h
  split at h
  · cases h
  · split at h
    · cases h
    · exact (Except.ok.inj h).symm

theorem session_bind {targets : List Nat} {endpoint : Endpoint}
    (h : r.bind k peerKey targets endpoint = .ok r') (id : GoString) :
    r'.session id = r.session id := by
  rw [bind_ok h, session_insert]
  split
  next heq => rw [heq]
  · rfl

variable {session : Session}

theorem open_ok (h : r.open k peerKey = .ok (r', session)) :
    ∃ rec, r.records.lookup k = some rec ∧ rec.session = none ∧
      session = ⟨r.issued, k, peerKey, rec.targets, rec.endpoint⟩ ∧
      r' = { r with
        records := r.records.insert k { rec with session := some session },
        issued := r.issued + 1 } := by
  unfold Registry.open at h
  split at h
  · cases h
  split at h
  · cases h
  rename_i rec hrec
  split at h
  · cases h
  split at h
  · cases h
  next hbusy =>
    cases h
    exact ⟨rec, hrec, Option.not_isSome_iff_eq_none.mp hbusy, rfl, rfl⟩

theorem session_open (h : r.open k peerKey = .ok (r', session))
    (id : GoString) : r'.session id = if id = k then some session else r.session id := by
  obtain ⟨rec, -, -, -, rfl⟩ := open_ok h
  exact session_insert r k { rec with session := some session } id

theorem session_invalidate (r : Registry) (k id : GoString) :
    (r.invalidate k).session id = if id = k then none else r.session id := by
  show ((r.records.erase k).lookup id).bind Record.session = _
  rw [AList.lookup_erase_if]
  split <;> rfl

/-- What ending the session of `k` leaves of the sessions. -/
structure Ended (r r' : Registry) (k : GoString) : Prop where
  session : ∀ id, r'.session id = if id = k then none else r.session id
  closed : r'.closed = r.closed ++ ((r.session k).map Session.serial).toList
  issued : r'.issued = r.issued

/-- Ending no session. -/
theorem Ended.refl (h : r.session k = none) : Ended r r k where
  session id := by
    split
    next heq => rw [heq, h]
    · rfl
  closed := by simp [h]
  issued := rfl

theorem ended_invalidate (r : Registry) (k : GoString) : Ended r (r.invalidate k) k where
  session := session_invalidate r k
  closed := by
    unfold Registry.invalidate Registry.session
    cases (r.records.lookup k).bind Record.session <;> rfl
  issued := rfl

/-- A record that drops the session it held. -/
theorem ended_insert {rec : Record} {x : Session} (hrec : r.records.lookup k = some rec)
    (hx : rec.session = some x) :
    Ended r
      { r with
        records := r.records.insert k { rec with session := none },
        closed := r.closed ++ [x.serial] } k where
  session id := session_insert r k { rec with session := none } id
  closed := by
    have hlive : r.session k = some x := by rw [Registry.session, hrec, Option.bind_some, hx]
    rw [hlive]
    rfl
  issued := rfl

theorem ended_closeSession (r : Registry) (k : GoString) : Ended r (r.closeSession k) k := by
  unfold Registry.closeSession
  split
  next rec hrec =>
    split
    next x hx => exact ended_insert hrec hx
    next hnone => exact .refl (by rw [Registry.session, hrec, Option.bind_some, hnone])
  next hnone => exact .refl (by rw [Registry.session, hnone]; rfl)

/-- A release ends the session it is for, and no other. -/
theorem ended_release (r : Registry) (x : Session) :
    r.release x = r ∨ Ended r (r.release x) x.executionID ∧
      (r.session x.executionID).map Session.serial = some x.serial := by
  unfold Registry.release
  split
  next rec hrec =>
    split
    next hserial =>
      obtain ⟨y, hy, hyx⟩ := Option.map_eq_some_iff.mp hserial
      right
      have hlive : r.session x.executionID = some y := by
        rw [Registry.session, hrec, Option.bind_some, hy]
      rw [hlive, ← hyx]
      exact ⟨ended_insert hrec hy, rfl⟩
    · exact .inl rfl
  · exact .inl rfl

-- ===== the invariant

theorem Registry.Sound.ended (h : r.Sound) (hend : Ended r r' k) : r'.Sound := by
  have hbefore : ∀ {id x}, r'.session id = some x → id ≠ k ∧ r.session id = some x := by
    intro id x hx
    rw [hend.session] at hx
    split at hx
    · cases hx
    next hne => exact ⟨hne, hx⟩
  have hclosed : ∀ {n}, n ∈ r'.closed → n ∈ r.closed ∨
      ∃ y, r.session k = some y ∧ y.serial = n := by
    intro n hn
    rw [hend.closed, List.mem_append] at hn
    rcases hn with hn | hn
    · exact .inl hn
    · simp only [Option.mem_toList, Option.map_eq_some_iff] at hn
      exact .inr hn
  constructor
  · intro id x hx
    exact h.own (hbefore hx).2
  · intro id x hx
    rw [hend.issued]
    exact h.issued (hbefore hx).2
  · intro id x hx hn
    obtain ⟨hne, hx⟩ := hbefore hx
    rcases hclosed hn with hn | ⟨y, hy, hyx⟩
    · exact h.live hx hn
    · exact hne (h.distinct hx hy hyx.symm)
  · intro id id' x x' hx hx' heq
    exact h.distinct (hbefore hx).2 (hbefore hx').2 heq
  · intro n hn
    rw [hend.issued]
    rcases hclosed hn with hn | ⟨y, hy, hyn⟩
    · exact h.retired hn
    · rw [← hyn]
      exact h.issued hy

theorem Registry.Sound.open (h : r.Sound)
    (hopen : r.open k peerKey = .ok (r', session)) : r'.Sound := by
  have hsession := session_open hopen
  obtain ⟨rec, -, -, hnew, hr'⟩ := open_ok hopen
  have hserial : session.serial = r.issued := by rw [hnew]
  have hclosed : r'.closed = r.closed := by rw [hr']
  have hissued : r'.issued = r.issued + 1 := by rw [hr']
  have hcases : ∀ {id x}, r'.session id = some x →
      id = k ∧ x = session ∨ id ≠ k ∧ r.session id = some x := by
    intro id x hx
    rw [hsession] at hx
    split at hx
    next heq => exact .inl ⟨heq, (Option.some.inj hx).symm⟩
    next hne => exact .inr ⟨hne, hx⟩
  constructor
  · intro id x hx
    rcases hcases hx with ⟨rfl, rfl⟩ | ⟨-, hx⟩
    · rw [hnew]
    · exact h.own hx
  · intro id x hx
    rcases hcases hx with ⟨rfl, rfl⟩ | ⟨-, hx⟩
    · omega
    · have hlt := h.issued hx
      omega
  · intro id x hx hn
    rw [hclosed] at hn
    rcases hcases hx with ⟨rfl, rfl⟩ | ⟨-, hx⟩
    · have hlt := h.retired hn
      omega
    · exact h.live hx hn
  · intro id id' x x' hx hx' heq
    rcases hcases hx with ⟨rfl, rfl⟩ | ⟨-, hx⟩
    · rcases hcases hx' with ⟨rfl, rfl⟩ | ⟨-, hx'⟩
      · rfl
      · have hlt := h.issued hx'
        omega
    · rcases hcases hx' with ⟨rfl, rfl⟩ | ⟨-, hx'⟩
      · have hlt := h.issued hx
        omega
      · exact h.distinct hx hx' heq
  · intro n hn
    rw [hclosed] at hn
    have hlt := h.retired hn
    omega

/-- What an operation does to the sessions: nothing, or it opens one, or
it ends one. -/
theorem Registry.Move.effect (h : Registry.Move r r') :
    (r'.session = r.session ∧ r'.closed = r.closed ∧ r'.issued = r.issued) ∨
      (∃ k peerKey x, r.open k peerKey = .ok (r', x)) ∨ ∃ k, Ended r r' k := by
  cases h with
  | bind h => exact .inl ⟨funext (session_bind h), by rw [bind_ok h], by rw [bind_ok h]⟩
  | «open» h => exact .inr (.inl ⟨_, _, _, h⟩)
  | closeSession id => exact .inr (.inr ⟨id, ended_closeSession _ id⟩)
  | invalidate id => exact .inr (.inr ⟨id, ended_invalidate _ id⟩)
  | release x =>
    rcases ended_release r x with hsame | ⟨hend, -⟩
    · rw [hsame]
      exact .inl ⟨rfl, rfl, rfl⟩
    · exact .inr (.inr ⟨_, hend⟩)

/-- Every operation keeps the invariant. -/
theorem Registry.Sound.move (h : r.Sound) (hmove : Registry.Move r r') : r'.Sound := by
  rcases hmove.effect with ⟨hsession, hclosed, hissued⟩ | ⟨_, _, _, hopen⟩ | ⟨_, hend⟩
  · obtain ⟨hown, hlt, hlive, hdistinct, hretired⟩ := h
    rw [← hsession, ← hissued] at hlt
    rw [← hsession, ← hclosed] at hlive
    rw [← hclosed, ← hissued] at hretired
    rw [← hsession] at hown hdistinct
    exact ⟨hown, hlt, hlive, hdistinct, hretired⟩
  · exact h.open hopen
  · exact h.ended hend

-- ===== runs

/-- The registry after some operations, with the sessions `Open` returned
in them. An operation that fails leaves the registry alone. -/
inductive Registry.Run : Registry → List Session → Prop
  | new : Run .new []
  | opened {r r' xs id peerKey x} (hr : Run r xs) (h : r.open id peerKey = .ok (r', x)) :
      Run r' (x :: xs)
  | moved {r r' xs} (hr : Run r xs) (h : Move r r') : Run r' xs

/-- A returned session is held by its execution until its channel is
closed, and no channel is closed twice. -/
structure Traced (r : Registry) (xs : List Session) : Prop where
  sound : r.Sound
  once : r.closed.Nodup
  held : ∀ x ∈ xs, r.session x.executionID = some x ∨ x.serial ∈ r.closed

variable {xs : List Session}

theorem Traced.ended (h : Traced r xs) (hend : Ended r r' k) : Traced r' xs := by
  refine ⟨h.sound.ended hend, ?_, ?_⟩
  · rw [hend.closed]
    cases hk : r.session k with
    | none => simpa using h.once
    | some x => simpa using h.once.concat (h.sound.live hk)
  · intro x hx
    rw [hend.session, hend.closed]
    rcases h.held x hx with hheld | hclosed
    · by_cases heq : x.executionID = k
      · rw [heq] at hheld
        simp [hheld]
      · exact .inl ((if_neg heq).trans hheld)
    · exact .inr (List.mem_append_left _ hclosed)

theorem Traced.open {x : Session} (h : Traced r xs) (hopen : r.open k peerKey = .ok (r', x)) :
    Traced r' (x :: xs) := by
  obtain ⟨rec, hrec, hfree, hx, hr'⟩ := open_ok hopen
  have hclosed : r'.closed = r.closed := by rw [hr']
  refine ⟨h.sound.open hopen, hclosed ▸ h.once, ?_⟩
  intro y hy
  rw [session_open hopen, hclosed]
  rcases List.mem_cons.mp hy with rfl | hy
  · exact .inl (if_pos (by rw [hx]))
  · refine (h.held y hy).imp_left fun hheld => (if_neg ?_).trans hheld
    intro heq
    rw [heq, Registry.session, hrec, Option.bind_some, hfree] at hheld
    cases hheld

theorem Traced.move (h : Traced r xs) (hmove : Registry.Move r r') : Traced r' xs := by
  rcases hmove.effect with ⟨hsession, hclosed, -⟩ | ⟨_, _, _, hopen⟩ | ⟨_, hend⟩
  · refine ⟨h.sound.move hmove, hclosed ▸ h.once, ?_⟩
    rw [hsession, hclosed]
    exact h.held
  · have hall := h.open hopen
    exact ⟨hall.sound, hall.once, fun x hx => hall.held x (List.mem_cons_of_mem _ hx)⟩
  · exact h.ended hend

theorem Registry.Run.traced (h : Registry.Run r xs) : Traced r xs := by
  induction h with
  | new => exact ⟨.new, List.nodup_nil, nofun⟩
  | opened _ hopen ih => exact ih.open hopen
  | moved _ hmove ih => exact ih.move hmove

end R1s.Tunnel
