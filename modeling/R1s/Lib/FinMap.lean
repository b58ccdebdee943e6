/-
Finite maps with counting: Mathlib's `AList` (an association list that
carries the uniqueness of its keys) at a constant value type, extended
by the operations a keyed registry needs — rewriting every value,
keeping the entries that satisfy a test, asking whether some entry
does, and counting those that do.

# Why counting

A registry that hands out slots is checked by comparing a counter with
the number of entries in some state. Every change of such a registry is
an insertion, an erasure or an update of one entry, so the lemmas here
say what each does to a count, and `count_flip` covers the remaining
case: the map stays, but the test changes its verdict at one key.
-/
import Mathlib

/-- A finite map from `κ` to `α`: an association list without repeated
keys. -/
abbrev FMap (κ : Type*) (α : Type*) := AList (fun _ : κ => α)

namespace AList

variable {κ α : Type*}

-- ===== the operations

/-- Rewrite every value, keeping the keys. -/
def mapVal (f : κ → α → α) (m : FMap κ α) : FMap κ α where
  entries := m.entries.map fun e => ⟨e.1, f e.1 e.2⟩
  nodupKeys := by
    have hkeys : (m.entries.map fun e => (⟨e.1, f e.1 e.2⟩ : Σ _ : κ, α)).keys
        = m.entries.keys := by
      simp [List.keys, Function.comp_def]
    rw [List.NodupKeys, hkeys]
    exact m.nodupKeys

/-- Keep the entries that satisfy `p`. -/
def keep (p : κ → α → Bool) (m : FMap κ α) : FMap κ α where
  entries := m.entries.filter fun e => p e.1 e.2
  nodupKeys := m.nodupKeys.sublist List.filter_sublist

/-- Some entry satisfies `p`. -/
def any (p : κ → α → Bool) (m : FMap κ α) : Bool :=
  m.entries.any fun e => p e.1 e.2

/-- The number of entries that satisfy `p`. -/
def count (p : κ → α → Bool) (m : FMap κ α) : Nat :=
  m.entries.countP fun e => p e.1 e.2

/-- The number of entries. -/
def size (m : FMap κ α) : Nat := m.entries.length

variable [DecidableEq κ]

-- ===== lookups

variable {k : κ} {m : FMap κ α} {v : α}

theorem mem_entries : (⟨k, v⟩ : Σ _ : κ, α) ∈ m.entries ↔ m.lookup k = some v :=
  (mem_lookup_iff (s := m)).symm

/-- Lookup after an insertion, at any key. -/
theorem lookup_insert_if (m : FMap κ α) (k k' : κ) (v : α) :
    (m.insert k v).lookup k' = if k' = k then some v else m.lookup k' := by
  by_cases h : k' = k
  · subst h
    rw [if_pos rfl, lookup_insert]
  · rw [if_neg h, lookup_insert_ne h]

/-- Lookup after an erasure, at any key. -/
theorem lookup_erase_if (m : FMap κ α) (k k' : κ) :
    (m.erase k).lookup k' = if k' = k then none else m.lookup k' := by
  by_cases h : k' = k
  · subst h
    rw [if_pos rfl, lookup_erase]
  · rw [if_neg h, lookup_erase_ne h]

variable {k' : κ} {x : α}

/-- What a lookup after an insertion can find. -/
theorem of_lookup_insert (h : (m.insert k v).lookup k' = some x) :
    k' = k ∧ v = x ∨ k' ≠ k ∧ m.lookup k' = some x := by
  rw [lookup_insert_if] at h
  split at h
  next heq => exact .inl ⟨heq, Option.some.inj h⟩
  next hne => exact .inr ⟨hne, h⟩

/-- A key that is there is not one that is missing. -/
theorem ne_of_lookup (hk' : m.lookup k' = some x) (hk : m.lookup k = none) : k' ≠ k := by
  rintro rfl
  cases hk'.symm.trans hk

/-- What a lookup after an erasure can find. -/
theorem of_lookup_erase (h : (m.erase k).lookup k' = some x) : k' ≠ k ∧ m.lookup k' = some x := by
  rw [lookup_erase_if] at h
  split at h
  · cases h
  next hne => exact ⟨hne, h⟩

@[simp] theorem lookup_mapVal (f : κ → α → α) (m : FMap κ α) (k : κ) :
    (m.mapVal f).lookup k = (m.lookup k).map (f k) := by
  have h := List.dlookup_map₂ (γ := fun _ => α) (δ := fun _ => α)
    (l := m.entries) (f := f) k
  exact h

theorem mapVal_eq_self {f : κ → α → α} (h : ∀ k v, m.lookup k = some v → f k v = v) :
    m.mapVal f = m := by
  apply AList.ext
  refine (List.map_congr_left fun e he => ?_).trans (List.map_id _)
  rw [h e.1 e.2 (mem_entries.mp he)]
  rfl

@[simp] theorem lookup_keep (p : κ → α → Bool) (m : FMap κ α) (k : κ) :
    (m.keep p).lookup k = (m.lookup k).filter (p k) := by
  ext v
  have hkept : (m.keep p).lookup k = some v ↔ m.lookup k = some v ∧ p k v = true := by
    rw [← mem_entries, ← mem_entries]
    exact List.mem_filter
  rw [hkept, Option.filter_eq_some_iff]

variable {p : κ → α → Bool}

theorem any_eq_true : m.any p = true ↔ ∃ k v, m.lookup k = some v ∧ p k v = true := by
  rw [any, List.any_eq_true]
  constructor
  · rintro ⟨⟨k, v⟩, hmem, hp⟩
    exact ⟨k, v, mem_entries.mp hmem, hp⟩
  · rintro ⟨k, v, hk, hp⟩
    exact ⟨⟨k, v⟩, mem_entries.mpr hk, hp⟩

variable {m' : FMap κ α}

/-- What holds of every entry holds of the entries of a smaller map. -/
theorem all_entries_mono {p : (Σ _ : κ, α) → Bool}
    (hle : ∀ k v, m'.lookup k = some v → m.lookup k = some v) (h : m.entries.all p = true) :
    m'.entries.all p = true := by
  rw [List.all_eq_true] at h ⊢
  rintro ⟨k, v⟩ hmem
  exact h _ (mem_entries.mpr (hle k v (mem_entries.mp hmem)))

/-- Insertions under other keys leave a key alone. -/
theorem lookup_foldl_insert_other (l : List (κ × α)) (m : FMap κ α) (h : ∀ e ∈ l, e.1 ≠ k) :
    (l.foldl (fun acc e => acc.insert e.1 e.2) m).lookup k = m.lookup k := by
  induction l generalizing m with
  | nil => rfl
  | cons e l ih =>
    rw [List.foldl_cons, ih _ fun e' he' => h e' (List.mem_cons_of_mem _ he')]
    exact lookup_insert_ne (h e List.mem_cons_self).symm

/-- Of a list without repeated keys every insertion stays. -/
theorem lookup_foldl_insert_mem (l : List (κ × α)) (m : FMap κ α) (hl : (l.map Prod.fst).Nodup)
    (h : (k, v) ∈ l) : (l.foldl (fun acc e => acc.insert e.1 e.2) m).lookup k = some v := by
  induction l generalizing m with
  | nil => cases h
  | cons e l ih =>
    rw [List.map_cons, List.nodup_cons] at hl
    rw [List.foldl_cons]
    rcases List.mem_cons.mp h with heq | hmem
    · subst heq
      rw [lookup_foldl_insert_other]
      · exact lookup_insert _
      · intro e' he' hkey
        exact hl.1 (List.mem_map.mpr ⟨e', he', hkey⟩)
    · exact ih _ hl.2 hmem

theorem erase_insert (m : FMap κ α) (k : κ) (v : α) : (m.insert k v).erase k = m.erase k := by
  apply AList.ext
  exact List.kerase_cons_eq rfl

/-- Erasing what an insertion of a fresh key put there gives the map
back. -/
theorem erase_insert_self (hk : m.lookup k = none) (v : α) : (m.insert k v).erase k = m := by
  have hnot : k ∉ m.entries.keys := lookup_eq_none.mp hk
  rw [erase_insert]
  exact AList.ext (List.kerase_of_notMem_keys hnot)

-- ===== counting

/-- The count of an insertion: what is left after dropping the key, plus
the new entry. -/
theorem count_insert (p : κ → α → Bool) (m : FMap κ α) (k : κ) (v : α) :
    (m.insert k v).count p = (m.erase k).count p + if p k v then 1 else 0 := by
  show List.countP (fun e : Σ _ : κ, α => p e.1 e.2) (⟨k, v⟩ :: List.kerase k m.entries) = _
  rw [List.countP_cons]
  rfl

/-- Dropping an absent key changes no count. -/
theorem count_erase_none (p : κ → α → Bool) (hk : m.lookup k = none) :
    (m.erase k).count p = m.count p := by
  show List.countP _ (List.kerase k m.entries) = List.countP _ m.entries
  rw [List.kerase_of_notMem_keys (lookup_eq_none.mp hk)]

/-- Dropping a present key takes its entry out of the count. -/
theorem count_erase_some (p : κ → α → Bool) (hk : m.lookup k = some v) :
    m.count p = (m.erase k).count p + if p k v then 1 else 0 := by
  have hkeys : k ∈ m.entries.keys := by
    show k ∈ m
    rw [← lookup_isSome, hk]
    rfl
  obtain ⟨b, l₁, l₂, -, hsplit, herase⟩ := List.exists_of_kerase hkeys
  have hb : m.lookup k = some b := mem_entries.mp (by rw [hsplit]; simp)
  obtain rfl : b = v := by simpa [hb] using hk
  have hm : m.count p
      = l₁.countP (fun e => p e.1 e.2)
        + (l₂.countP (fun e => p e.1 e.2) + if p k b then 1 else 0) := by
    rw [count, hsplit, List.countP_append, List.countP_cons]
  have he : (m.erase k).count p
      = l₁.countP (fun e => p e.1 e.2) + l₂.countP (fun e => p e.1 e.2) := by
    show List.countP _ (List.kerase k m.entries) = _
    rw [herase, List.countP_append]
  omega

variable {q : κ → α → Bool}

/-- Two tests that agree on every entry count the same. -/
theorem count_congr (h : ∀ k v, m.lookup k = some v → p k v = q k v) : m.count p = m.count q := by
  rw [count, count]
  refine List.countP_congr fun e he => ?_
  rw [h e.1 e.2 (mem_entries.mp he)]

omit [DecidableEq κ] in
/-- Counting after a rewrite of the values is counting with the
rewritten test. -/
theorem count_mapVal (p : κ → α → Bool) (f : κ → α → α) (m : FMap κ α) :
    (m.mapVal f).count p = m.count fun k v => p k (f k v) := by
  rw [count, count, mapVal, List.countP_map]
  rfl

/-- Two tests that differ at one key only, where the first holds and
the second does not: the counts differ by one. -/
theorem count_flip (hk : m.lookup k = some v) (hp : p k v = true) (hq : q k v = false)
    (h : ∀ k' v', k' ≠ k → m.lookup k' = some v' → p k' v' = q k' v') :
    m.count p = m.count q + 1 := by
  have hrest : (m.erase k).count p = (m.erase k).count q := by
    refine count_congr fun k' v' hk' => ?_
    rw [lookup_erase_if] at hk'
    split at hk'
    case isTrue => cases hk'
    case isFalse hne => exact h k' v' hne hk'
  rw [count_erase_some p hk, count_erase_some q hk, hp, hq, hrest]
  simp

/-- A map whose counted entries are under keys of counted entries of
another counts no more. -/
theorem count_le_of_lookup
    (h : ∀ k v', m'.lookup k = some v' → q k v' = true → ∃ v, m.lookup k = some v ∧ p k v = true) :
    m'.count q ≤ m.count p := by
  have hsub : (m'.keep q).entries.keys ⊆ (m.keep p).entries.keys := by
    intro k hk
    obtain ⟨⟨k', v'⟩, hmem, rfl⟩ := List.mem_map.mp hk
    obtain ⟨hmem, hq⟩ := List.mem_filter.mp hmem
    obtain ⟨v, hv, hp⟩ := h k' v' (mem_entries.mp hmem) hq
    exact List.mem_map.mpr ⟨⟨k', v⟩, List.mem_filter.mpr ⟨mem_entries.mpr hv, hp⟩, rfl⟩
  have hle := (List.subperm_of_subset (m'.keep q).nodupKeys hsub).length_le
  simp only [List.keys, List.length_map] at hle
  rw [count, count, List.countP_eq_length_filter, List.countP_eq_length_filter]
  exact hle

/-- A count is the sum of two when every entry that passes the test
passes exactly one of the two. -/
theorem count_split {r : κ → α → Bool}
    (h : ∀ k v, m.lookup k = some v → (p k v).toNat = (q k v).toNat + (r k v).toNat) :
    m.count p = m.count q + m.count r := by
  have hlist : ∀ l : List (Σ _ : κ, α),
      (∀ e ∈ l, (p e.1 e.2).toNat = (q e.1 e.2).toNat + (r e.1 e.2).toNat) →
      l.countP (fun e => p e.1 e.2)
        = l.countP (fun e => q e.1 e.2) + l.countP (fun e => r e.1 e.2) := by
    intro l
    induction l with
    | nil => exact fun _ => rfl
    | cons e l ih =>
      intro hl
      have htail := ih fun e' he' => hl e' (List.mem_cons_of_mem _ he')
      have hhead := hl e List.mem_cons_self
      simp only [List.countP_cons]
      cases hp : p e.1 e.2 <;> cases hq : q e.1 e.2 <;> cases hr : r e.1 e.2 <;>
        simp only [hp, hq, hr, Bool.toNat_true, Bool.toNat_false] at hhead ⊢ <;>
        simp <;> omega
  exact hlist m.entries fun e he => h e.1 e.2 (mem_entries.mp he)

/-- A passing entry is counted. -/
theorem count_pos (hk : m.lookup k = some v) (hp : p k v = true) : 0 < m.count p :=
  List.countP_pos_iff.mpr ⟨⟨k, v⟩, mem_entries.mpr hk, hp⟩

/-- Replacing the value at a key by one the test judges alike changes no
count. -/
theorem count_replace {v' : α} (hk : m.lookup k = some v) (hp : p k v' = p k v) :
    (m.insert k v').count p = m.count p := by
  rw [count_insert, hp, ← count_erase_some p hk]

/-- Replacing a value keeps the size. -/
theorem size_replace (hk : m.lookup k = some v) (v' : α) : (m.insert k v').size = m.size := by
  have hcount : (m.insert k v').count (fun _ _ => true) = m.count fun _ _ => true :=
    count_replace hk rfl
  simpa [count, size] using hcount

omit [DecidableEq κ] in
theorem size_eq_count (m : FMap κ α) : m.size = m.count fun _ _ => true := by
  simp [size, count]

theorem size_insert_new (hk : m.lookup k = none) (v : α) : (m.insert k v).size = m.size + 1 := by
  rw [size_eq_count, size_eq_count, count_insert, count_erase_none _ hk, if_pos rfl]

theorem size_insert_le (m : FMap κ α) (k : κ) (v : α) : (m.insert k v).size ≤ m.size + 1 := by
  cases hk : m.lookup k with
  | none => exact Nat.le_of_eq (size_insert_new hk v)
  | some w =>
    rw [size_replace hk]
    omega

theorem size_erase_some (hk : m.lookup k = some v) : m.size = (m.erase k).size + 1 := by
  rw [size_eq_count, size_eq_count, count_erase_some _ hk, if_pos rfl]

/-- A map with no keys but those of another is no larger. -/
theorem size_le_of_lookup (h : ∀ k v', m'.lookup k = some v' → (m.lookup k).isSome = true) :
    m'.size ≤ m.size := by
  rw [size_eq_count, size_eq_count]
  refine count_le_of_lookup fun k v' hv' _ => ?_
  obtain ⟨v, hv⟩ := Option.isSome_iff_exists.mp (h k v' hv')
  exact ⟨v, hv, rfl⟩

/-- A map whose entries point to different keys of another is no larger. -/
theorem size_le_of_points {κ' β : Type*} [DecidableEq κ'] {m' : FMap κ' β} (f : α → κ')
    (hthere : ∀ k v, m.lookup k = some v → (m'.lookup (f v)).isSome = true)
    (hinj : ∀ k v k' v', m.lookup k = some v → m.lookup k' = some v' → f v = f v' → k = k') :
    m.size ≤ m'.size := by
  have hnodup : (m.entries.map fun e => f e.2).Nodup := by
    refine List.Nodup.map_on ?_ (List.Nodup.of_map Sigma.fst m.nodupKeys)
    rintro ⟨k, v⟩ he ⟨k', v'⟩ he' heq
    rw [mem_entries] at he he'
    obtain rfl := hinj k v k' v' he he' heq
    rw [he] at he'
    cases he'
    rfl
  have hsub : (m.entries.map fun e => f e.2) ⊆ m'.entries.map Sigma.fst := by
    intro k hk
    obtain ⟨⟨k₀, v⟩, he, rfl⟩ := List.mem_map.mp hk
    obtain ⟨v', hv'⟩ := Option.isSome_iff_exists.mp (hthere k₀ v (mem_entries.mp he))
    exact List.mem_map.mpr ⟨⟨f v, v'⟩, mem_entries.mpr hv', rfl⟩
  have hle := (List.subperm_of_subset hnodup hsub).length_le
  simpa only [List.length_map, size, List.keys] using hle

-- ===== carrying

/-- Every entry of `m` is in `m'`, with a value that `R` allows for it. -/
def Carries (R : κ → α → α → Prop) (m m' : FMap κ α) : Prop :=
  ∀ k v, m.lookup k = some v → ∃ v', m'.lookup k = some v' ∧ R k v v'

section Carries

variable {R : κ → α → α → Prop} {m m' m'' : FMap κ α}

theorem Carries.refl (hR : ∀ k v, R k v v) (m : FMap κ α) : Carries R m m :=
  fun k v hv => ⟨v, hv, hR k v⟩

/-- A value after comes from the one before. -/
theorem Carries.back (h : Carries R m m') {k : κ} {v' : α} (hk : (m.lookup k).isSome = true)
    (hv' : m'.lookup k = some v') : ∃ v, m.lookup k = some v ∧ R k v v' := by
  obtain ⟨v, hv⟩ := Option.isSome_iff_exists.mp hk
  obtain ⟨v₁, hv₁, hR⟩ := h k v hv
  cases hv'.symm.trans hv₁
  exact ⟨v, hv, hR⟩

theorem Carries.lookup_none (h : Carries R m m') {k : κ} (hk : m'.lookup k = none) :
    m.lookup k = none := by
  by_contra hsome
  obtain ⟨v, hv⟩ := Option.ne_none_iff_exists'.mp hsome
  obtain ⟨v', hv', -⟩ := h k v hv
  cases hk.symm.trans hv'

theorem Carries.trans (hR : ∀ k u v w, R k u v → R k v w → R k u w) (h : Carries R m m')
    (h' : Carries R m' m'') : Carries R m m'' := by
  intro k v hv
  obtain ⟨v', hv', hR'⟩ := h k v hv
  obtain ⟨v'', hv'', hR''⟩ := h' k v' hv'
  exact ⟨v'', hv'', hR k _ _ _ hR' hR''⟩

/-- A value replaced by one that `R` allows. -/
theorem Carries.set (hR : ∀ k v, R k v v) {k : κ} {v v' : α} (hv : m.lookup k = some v)
    (hv' : R k v v') : Carries R m (m.insert k v') := by
  intro k₀ v₀ hv₀
  rw [lookup_insert_if]
  split
  next heq =>
    subst heq
    obtain rfl : v = v₀ := Option.some.inj (hv.symm.trans hv₀)
    exact ⟨v', rfl, hv'⟩
  · exact ⟨v₀, hv₀, hR k₀ v₀⟩

/-- A new entry. -/
theorem Carries.add (hR : ∀ k v, R k v v) {k : κ} (hk : m.lookup k = none) (v : α) :
    Carries R m (m.insert k v) := by
  intro k₀ v₀ hv₀
  rw [lookup_insert_if, if_neg (ne_of_lookup hv₀ hk)]
  exact ⟨v₀, hv₀, hR k₀ v₀⟩

theorem Carries.mapVal {f : κ → α → α} (hf : ∀ k v, m.lookup k = some v → R k v (f k v)) :
    Carries R m (m.mapVal f) := by
  intro k v hv
  refine ⟨f k v, ?_, hf k v hv⟩
  rw [lookup_mapVal, hv]
  rfl

end Carries

end AList
