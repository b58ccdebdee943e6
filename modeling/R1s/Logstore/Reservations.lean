/-
The reservations of the log store: what a call that is cut off leaves for
the calls after it, and the budget over whole histories.

# Cut off

A new reservation is three file-system steps. Before the first and after
the last the disk is one the calls know. Between them the directory is
there without readable metadata, and the scan of every later `Reserve`
stops at it.

# The budget

`charged` is twice the stored limits. Each history of successful calls
keeps every directory readable and the sum within an `int64`, so the scan
computes `charged` and the comparison with the budget is exact. The IDs
are those the metadata gives back (`named`): the one caller, the
containerd adapter's `taskIO`, reserves an execution ID that
`prepareExecution` has found not blank and that a proto3 string carried,
which is valid UTF-8.
-/
import R1s.Lib.Transition
import R1s.Logstore.Store

namespace R1s.Logstore

variable {sum256 : Bytes → Bytes} {s : Store} {id : GoString} {d : Disk}

-- ===== cut off

/-- The outcomes of `Reserve` calls one after the other, each on a store
with budgets of its own. -/
def outcomes (sum256 : Bytes → Bytes) :
    List (Store × GoString) → Disk → List (Except Err (GoString × Int))
  | [], _ => []
  | call :: rest, d =>
    (reserve sum256 call.1 call.2 d).2 ::
      outcomes sum256 rest (reserve sum256 call.1 call.2 d).1

/-- The scan stops at a directory whose metadata it cannot read. -/
theorem scan_unreadable {entry : Σ _ : GoString, Dir} {err : Err}
    (herr : readMetadata (some entry.2) = .error err) (l : List (Σ _ : GoString, Dir))
    (hentry : entry ∈ l) (r : Int) :
    ∃ name err', scan l r = .error (.invalidReservation name err') := by
  induction l generalizing r with
  | nil => cases hentry
  | cons e rest ih =>
    unfold scan
    cases he : readMetadata (some e.2) with
    | error err' => exact ⟨e.1, err', rfl⟩
    | ok m =>
      refine ih ?_ _
      rcases List.mem_cons.mp hentry with rfl | hrest
      · rw [herr] at he
        cases he
      · exact hrest

variable {dir : Dir}

theorem reserveUpTo_new (h : reserved sum256 s id d = none) {steps : Nat}
    (hdir : ((created s id).take steps).getLast? = some dir) :
    reserveUpTo sum256 s id steps d = d.insert (directory sum256 id) dir := by
  simp [reserveUpTo, h, hdir]

theorem reserveUpTo_old {r : Except Err (GoString × Int)}
    (h : reserved sum256 s id d = some r) (steps : Nat) : reserveUpTo sum256 s id steps d = d := by
  simp [reserveUpTo, h]

variable {m : Metadata}

theorem reserved_whole (hd : d.lookup (directory sum256 id) = some dir)
    (hdir : dir.metadata = some (.whole m)) :
    reserved sum256 s id d =
      some (if m.execution = [] ∨ m.limit < 1 ∨ 2 ^ 30 < m.limit then .error .invalidMetadata
        else if m.execution ≠ id then .error .identityConflict
        else .ok (directory sum256 id, m.limit)) := by
  simp only [reserved, readMetadata, hd, Option.bind_some, hdir]
  by_cases hm : m.execution = [] ∨ m.limit < 1 ∨ 2 ^ 30 < m.limit
  · simp only [if_pos hm]
  · simp only [if_neg hm]
    split <;> rfl

/-- Between the first step and the last the same call fails as it never
does on a whole directory. -/
theorem reserved_cut (h : reserved sum256 s id d = none) {steps : Nat}
    (hsteps : steps = 1 ∨ steps = 2) :
    ∃ err, reserved sum256 s id (reserveUpTo sum256 s id steps d) = some (.error err) ∧
      err ≠ .invalidMetadata ∧ err ≠ .identityConflict := by
  rcases hsteps with rfl | rfl
  · have hcut : reserveUpTo sum256 s id 1 d = d.insert (directory sum256 id) {} :=
      reserveUpTo_new h rfl
    have hempty : readMetadata (some (⟨directory sum256 id, {}⟩ : Σ _ : GoString, Dir).2) =
        .error .notExist := rfl
    obtain ⟨name, err, hscan⟩ := scan_unreadable hempty
      (readDir (d.insert (directory sum256 id) {}))
      ((List.mem_insertionSort _).mpr (AList.mem_entries.mpr (AList.lookup_insert _))) 0
    refine ⟨.invalidReservation name err, ?_, by simp, by simp⟩
    rw [hcut]
    simp only [reserved, readMetadata, AList.lookup_insert, Option.bind_some, hscan]
  · have hcut : reserveUpTo sum256 s id 2 d =
        d.insert (directory sum256 id) { metadata := some .part } := reserveUpTo_new h rfl
    refine ⟨.malformed, ?_, by simp, by simp⟩
    rw [hcut]
    simp only [reserved, readMetadata, AList.lookup_insert, Option.bind_some]

/-- A call that failed or was cut off after any number of its steps is, to
every sequence of later calls, as if it had not been made or had been
completed, unless it stopped between its first step and its last. -/
theorem cut_reserve_iff (sum256 : Bytes → Bytes) (s : Store) (id : GoString) (steps : Nat)
    (d : Disk) :
    ((∀ calls, outcomes sum256 calls (reserveUpTo sum256 s id steps d) =
        outcomes sum256 calls d) ∨
      ∀ calls, outcomes sum256 calls (reserveUpTo sum256 s id steps d) =
        outcomes sum256 calls (reserve sum256 s id d).1) ↔
    reserved sum256 s id d ≠ none ∨ steps = 0 ∨ 3 ≤ steps := by
  cases hnew : reserved sum256 s id d with
  | some r =>
    rw [reserveUpTo_old hnew]
    simp
  | none =>
    simp only [ne_eq, not_true_eq_false, false_or]
    by_cases hsteps : steps = 1 ∨ steps = 2
    · -- the same call again tells the disk from the one before and the one after
      refine iff_of_false ?_ (by omega)
      obtain ⟨err, hcut, hmetadata, hconflict⟩ := reserved_cut hnew hsteps
      have hdone : (reserve sum256 s id d).1 =
          d.insert (directory sum256 id) (reservation s id) := reserveUpTo_new hnew rfl
      rintro (hsame | hsame) <;> have hcall := List.head_eq_of_cons_eq (hsame [(s, id)])
      · simp [reserve, hcut, hnew] at hcall
      · rw [hdone] at hcall
        simp only [reserve, hcut, Option.getD_some,
          reserved_whole (AList.lookup_insert d) (show (reservation s id).metadata = _ from rfl)]
          at hcall
        split at hcall
        · exact hmetadata (Except.error.inj hcall)
        · split at hcall
          · exact hconflict (Except.error.inj hcall)
          · cases hcall
    · obtain rfl | hge : steps = 0 ∨ 3 ≤ steps := by omega
      · simp [reserveUpTo, hnew]
      · refine iff_of_true (.inr fun calls => ?_) (.inr hge)
        have hall : (created s id).take steps = (created s id).take 3 := by
          rw [List.take_of_length_le hge, List.take_of_length_le (Nat.le_refl 3)]
        simp only [reserve, reserveUpTo, hall]

/-- Two bytes a stream, room for two executions. -/
def smallStore : Store := ⟨2, 8, by decide, by decide, by decide, by decide⟩

/-- A call for `a` that ended after it made the directory, or with part of
the metadata written: a call for `b` is refused, though it succeeds both
without the first call and after a whole one. -/
theorem cut_reserve_stops_others :
    (reserve (fun b => b) smallStore (text "b")
      (reserveUpTo (fun b => b) smallStore (text "a") 1 ∅)).2 =
        .error (.invalidReservation (text "61") .notExist) ∧
    (reserve (fun b => b) smallStore (text "b")
      (reserveUpTo (fun b => b) smallStore (text "a") 2 ∅)).2 =
        .error (.invalidReservation (text "61") .malformed) ∧
    (reserve (fun b => b) smallStore (text "b") ∅).2 = .ok (text "62", 2) ∧
    (reserve (fun b => b) smallStore (text "b")
      (reserve (fun b => b) smallStore (text "a") ∅).1).2 = .ok (text "62", 2) := by
  decide

-- ===== the budget

/-- The calls on one root directory, and the opening of another store on
it. -/
inductive Label
  | reserve (id : GoString)
  | remove (id : GoString)
  | reopen (streamBytes totalBytes : Int)

/-- The histories of successful calls. -/
def histories (sum256 : Bytes → Bytes) : TransitionSystem (Store × Disk) Label where
  init s := s.2 = ∅
  step s
    | .reserve id =>
      match (reserve sum256 s.1 id s.2).2 with
      | .ok _ => some (s.1, (reserve sum256 s.1 id s.2).1)
      | .error _ => none
    | .remove id => some (s.1, remove sum256 id s.2)
    | .reopen streamBytes totalBytes =>
      (Store.new streamBytes totalBytes).map fun s' => (s', s.2)

/-- The ID is one that the metadata gives back. -/
def named (id : GoString) : Bool := id ≠ [] && Utf8.valid id

def Label.named : Label → Bool
  | .reserve id => Logstore.named id
  | _ => true

/-- Twice the stored limit. -/
def Dir.charge (dir : Dir) : Int :=
  match dir.metadata with
  | some (.whole m) => 2 * m.limit
  | _ => 0

/-- What all reservations charge. -/
def charged (d : Disk) : Int := (d.entries.map fun e => e.2.charge).sum

/-- Every directory can be read back, and the charge is an `int64`. -/
structure Sound (d : Disk) : Prop where
  readable : ∀ k dir, d.lookup k = some dir → ∃ m, readMetadata (some dir) = .ok m
  int64 : charged d < 2 ^ 63

theorem readMetadata_ok (h : readMetadata (some dir) = .ok m) :
    dir.metadata = some (.whole m) ∧ m.execution ≠ [] ∧ 1 ≤ m.limit ∧ m.limit ≤ 2 ^ 30 := by
  simp only [readMetadata, Option.bind_some] at h
  split at h
  · cases h
  · cases h
  next m' hm =>
    by_cases hbad : m'.execution = [] ∨ m'.limit < 1 ∨ 2 ^ 30 < m'.limit
    · rw [if_pos hbad] at h
      cases h
    · rw [if_neg hbad] at h
      cases h
      simp only [not_or, Int.not_lt] at hbad
      exact ⟨hm, hbad⟩

theorem charge_ok (h : readMetadata (some dir) = .ok m) :
    dir.charge = 2 * m.limit ∧ 0 ≤ dir.charge := by
  obtain ⟨hm, -, hlimit, -⟩ := readMetadata_ok h
  have hcharge : dir.charge = 2 * m.limit := by simp only [Dir.charge, hm]
  omega

theorem Sound.charge_nonneg (h : Sound d) (e : Σ _ : GoString, Dir) (he : e ∈ d.entries) :
    0 ≤ e.2.charge := by
  obtain ⟨m, hm⟩ := h.readable e.1 e.2 (AList.mem_entries.mp he)
  exact (charge_ok hm).2

/-- On readable directories the scan adds up without overflow. -/
theorem scan_ok (l : List (Σ _ : GoString, Dir)) (r : Int) (hr : 0 ≤ r)
    (hl : ∀ e ∈ l, ∃ m, readMetadata (some e.2) = .ok m)
    (hsum : r + (l.map fun e => e.2.charge).sum < 2 ^ 63) :
    scan l r = .ok (r + (l.map fun e => e.2.charge).sum) := by
  induction l generalizing r with
  | nil => simp [scan]
  | cons e rest ih =>
    obtain ⟨m, hm⟩ := hl e List.mem_cons_self
    obtain ⟨hcharge, hpos⟩ := charge_ok hm
    have hrest : ∀ e' ∈ rest, ∃ m, readMetadata (some e'.2) = .ok m :=
      fun e' he' => hl e' (List.mem_cons_of_mem _ he')
    have hnonneg : 0 ≤ (rest.map fun e => e.2.charge).sum := by
      apply List.sum_nonneg
      intro c hc
      obtain ⟨e', he', rfl⟩ := List.mem_map.mp hc
      obtain ⟨m', hm'⟩ := hrest e' he'
      exact (charge_ok hm').2
    rw [List.map_cons, List.sum_cons] at hsum ⊢
    have hmod : Int.bmod (r + 2 * m.limit) (2 ^ 64) = r + e.2.charge := by
      rw [← hcharge]
      apply Int.bmod_eq_of_le <;> omega
    simp only [scan, hm, hmod]
    rw [ih (r + e.2.charge) (by omega) hrest (by omega)]
    congr 1
    omega

theorem Sound.scan (h : Sound d) : scan (readDir d) 0 = .ok (charged d) := by
  have hsum : ((readDir d).map fun e => e.2.charge).sum = charged d :=
    ((List.perm_insertionSort _ d.entries).map _).sum_eq
  have hreadable : ∀ e ∈ readDir d, ∃ m, readMetadata (some e.2) = .ok m := by
    intro e he
    exact h.readable e.1 e.2 (AList.mem_entries.mp ((List.mem_insertionSort _).mp he))
  have hscan := scan_ok (readDir d) 0 (Int.le_refl 0) hreadable (by simpa [hsum] using h.int64)
  rw [hscan, hsum, Int.zero_add]

/-- A call for an ID that has no directory. -/
theorem Sound.reserved_new (h : Sound d) (hfree : d.lookup (directory sum256 id) = none) :
    reserved sum256 s id d =
      if s.totalBytes - 2 * s.streamBytes < charged d then some (.error .budgetExhausted)
      else none := by
  simp only [reserved, hfree, readMetadata, Option.bind_none, h.scan]

theorem charged_insert {k : GoString} (hfree : d.lookup k = none) :
    charged (d.insert k dir) = charged d + dir.charge := by
  have herase : List.kerase k d.entries = d.entries :=
    List.kerase_of_notMem_keys (AList.lookup_eq_none.mp hfree)
  show ((⟨k, dir⟩ :: List.kerase k d.entries).map _).sum = _
  rw [herase, List.map_cons, List.sum_cons, Int.add_comm]
  rfl

theorem readMetadata_reservation (hid : named id = true) :
    readMetadata (some (reservation s id)) = .ok ⟨id, s.streamBytes⟩ := by
  rw [named, Bool.and_eq_true, decide_eq_true_eq] at hid
  have hutf : Utf8.replaceInvalid id = id := (Utf8.replaceInvalid_eq_self id).mpr hid.2
  have hpositive := s.positive
  have hbounded := s.bounded
  have hlimit : ¬(id = [] ∨ s.streamBytes < 1 ∨ 2 ^ 30 < s.streamBytes) := by
    simp only [hid.1, false_or, not_or]
    omega
  simp only [readMetadata, reservation, Option.bind_some, hutf, if_neg hlimit]

theorem Sound.reserve (h : Sound d) (hid : named id = true) :
    Sound (Logstore.reserve sum256 s id d).1 := by
  cases hnew : reserved sum256 s id d with
  | some r =>
    rw [show (Logstore.reserve sum256 s id d).1 = d from reserveUpTo_old hnew 3]
    exact h
  | none =>
    rw [show (Logstore.reserve sum256 s id d).1 = d.insert (directory sum256 id) (reservation s id)
      from reserveUpTo_new hnew rfl]
    have hread := readMetadata_reservation (s := s) hid
    have hfree : d.lookup (directory sum256 id) = none := by
      cases hdir : d.lookup (directory sum256 id) with
      | none => rfl
      | some dir =>
        obtain ⟨m, hm⟩ := h.readable _ dir hdir
        rw [reserved_whole hdir (readMetadata_ok hm).1] at hnew
        cases hnew
    refine ⟨fun k dir hk => ?_, ?_⟩
    · rcases AList.of_lookup_insert hk with ⟨-, rfl⟩ | ⟨-, hk⟩
      · exact ⟨_, hread⟩
      · exact h.readable k dir hk
    · rw [h.reserved_new hfree] at hnew
      rw [charged_insert hfree, (charge_ok hread).1]
      have htotal := s.int64
      by_cases hfull : s.totalBytes - 2 * s.streamBytes < charged d
      · rw [if_pos hfull] at hnew
        cases hnew
      · dsimp only
        omega

theorem Sound.remove (h : Sound d) : Sound (Logstore.remove sum256 id d) := by
  refine ⟨fun k dir hk => ?_, ?_⟩
  · rw [Logstore.remove] at hk
    obtain ⟨-, hk⟩ := AList.of_lookup_erase hk
    exact h.readable k dir hk
  · have hle : charged (Logstore.remove sum256 id d) ≤ charged d := by
      apply List.Sublist.sum_le_sum ((List.kerase_sublist _ d.entries).map _)
      intro c hc
      obtain ⟨e, he, rfl⟩ := List.mem_map.mp hc
      exact h.charge_nonneg e he
    have hint := h.int64
    omega

theorem sound_reachable {t : Store × Disk}
    (h : (histories sum256).ReachWhen (fun _ l => l.named = true) t) : Sound t.2 := by
  refine h.invariant (I := fun t => Sound t.2) ?_ ?_
  · intro t ht
    rw [show t.2 = ∅ from ht]
    exact ⟨fun k dir hk => (nomatch hk), by decide⟩
  · intro t l t' hsound hnamed hstep
    cases l with
    | reserve id =>
      simp only [histories] at hstep
      split at hstep
      · cases hstep
        exact hsound.reserve hnamed
      · cases hstep
    | remove id =>
      cases hstep
      exact hsound.remove
    | reopen streamBytes totalBytes =>
      obtain ⟨s', -, rfl⟩ := Option.map_eq_some_iff.mp hstep
      exact hsound

/-- In every history of calls for IDs the adapter reserves: a new
reservation is made exactly when it fits the budget in force, and then
charges its own two streams; an existing one is returned as it was made;
a full budget refuses a new one; and a reservation stays as it is until it
is removed. -/
theorem reservations_fit {d : Disk}
    (h : (histories sum256).ReachWhen (fun _ l => l.named = true) (s, d)) :
    (∀ id, named id = true → d.lookup (directory sum256 id) = none →
      (charged d + 2 * s.streamBytes ≤ s.totalBytes →
        (reserve sum256 s id d).2 = .ok (directory sum256 id, s.streamBytes) ∧
        charged (reserve sum256 s id d).1 = charged d + 2 * s.streamBytes) ∧
      (s.totalBytes < charged d + 2 * s.streamBytes →
        reserve sum256 s id d = (d, .error .budgetExhausted))) ∧
    (∀ id dir m, d.lookup (directory sum256 id) = some dir → dir.metadata = some (.whole m) →
      m.execution = id → reserve sum256 s id d = (d, .ok (directory sum256 id, m.limit))) ∧
    ∀ l t, (histories sum256).step (s, d) l = some t → ∀ k dir, d.lookup k = some dir →
      t.2.lookup k = some dir ∨ ∃ id, l = .remove id ∧ directory sum256 id = k := by
  have hsound : Sound d := sound_reachable h
  refine ⟨fun id hid hfree => ⟨fun hfits => ?_, fun hfull => ?_⟩, ?_, ?_⟩
  · have hnew : reserved sum256 s id d = none := by
      rw [hsound.reserved_new hfree, if_neg (by omega)]
    refine ⟨by rw [reserve, hnew]; rfl, ?_⟩
    rw [show (reserve sum256 s id d).1 = d.insert (directory sum256 id) (reservation s id)
      from reserveUpTo_new hnew rfl, charged_insert hfree,
      (charge_ok (readMetadata_reservation hid)).1]
  · have hold : reserved sum256 s id d = some (.error .budgetExhausted) := by
      rw [hsound.reserved_new hfree, if_pos (by omega)]
    rw [reserve, reserveUpTo_old hold, hold]
    rfl
  · rintro id dir m hdir hm rfl
    obtain ⟨m', hm'⟩ := hsound.readable _ dir hdir
    obtain ⟨hwhole, hne, hlow, hhigh⟩ := readMetadata_ok hm'
    cases hm.symm.trans hwhole
    have hold := reserved_whole (s := s) hdir hm
    rw [if_neg (by simp only [hne, false_or, not_or]; omega), if_neg (by simp)] at hold
    rw [reserve, reserveUpTo_old hold, hold]
    rfl
  · intro l t hstep k dir hdir
    cases l with
    | reserve id =>
      simp only [histories] at hstep
      split at hstep
      · cases hstep
        left
        cases hnew : reserved sum256 s id d with
        | some r => exact (congrArg _ (reserveUpTo_old hnew 3)).trans hdir
        | none =>
          have hne : k ≠ directory sum256 id := by
            rintro rfl
            obtain ⟨m, hm⟩ := hsound.readable _ dir hdir
            rw [reserved_whole hdir (readMetadata_ok hm).1] at hnew
            cases hnew
          exact (congrArg _ (reserveUpTo_new hnew rfl)).trans
            ((AList.lookup_insert_ne hne).trans hdir)
      · cases hstep
    | remove id =>
      cases hstep
      by_cases hk : k = directory sum256 id
      · exact .inr ⟨id, rfl, hk.symm⟩
      · exact .inl ((AList.lookup_erase_ne hk).trans hdir)
    | reopen streamBytes totalBytes =>
      obtain ⟨s', -, rfl⟩ := Option.map_eq_some_iff.mp hstep
      exact .inl hdir

/-- Two reservations, the second under another budget, fill it, and a
third ID is refused. -/
theorem full_budget_refuses :
    ∃ t : Store × Disk,
      (histories fun b => b).ReachWhen (fun _ l => l.named = true) t ∧
      charged t.2 = t.1.totalBytes ∧
      reserve (fun b => b) t.1 (text "c") t.2 = (t.2, .error .budgetExhausted) := by
  obtain ⟨⟨s, d⟩, hs, hp⟩ := (histories fun b => b).exists_reachWhen
    (fun _ l => l.named = true) (s := (smallStore, ∅)) rfl
    [.reserve (text "a"), .reopen 1 6, .reserve (text "b")]
    (fun t => decide (charged t.2 = t.1.totalBytes)
      && (t.2.lookup (directory (fun b => b) (text "c"))).isNone) (by decide +kernel)
  simp only [Bool.and_eq_true, decide_eq_true_eq, Option.isNone_iff_eq_none] at hp
  have hpositive := s.positive
  exact ⟨(s, d), hs, hp.1, ((reservations_fit hs).1 (text "c") (by decide) hp.2).2 (by omega)⟩

end R1s.Logstore
