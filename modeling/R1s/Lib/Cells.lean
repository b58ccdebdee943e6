/-
Maps of pointers: a finite map whose values are addresses of cells, and
the map of contents it stands for.

# Copying before writing

A program that works on a copy of such a map and may want the original
back has to copy the cells as well. `copyCells` copies every cell to an
address of its own; writes through the copied map then stay outside the
old one (`deref_congr`), and a loop that visits each copied cell once
rewrites the map's values (`eachCell_cells`) and folds the old contents
(`eachCell_acc`).
-/
import R1s.Lib.FinMap

namespace AList

variable {κ α β : Type*}

/-- A value of another type in place of each, keeping the keys. -/
def mapTo (f : κ → α → β) (m : FMap κ α) : FMap κ β where
  entries := m.entries.map fun e => ⟨e.1, f e.1 e.2⟩
  nodupKeys := by
    have hkeys : (m.entries.map fun e => (⟨e.1, f e.1 e.2⟩ : Σ _ : κ, β)).keys
        = m.entries.keys := by
      simp [List.keys, Function.comp_def]
    rw [List.NodupKeys, hkeys]
    exact m.nodupKeys

theorem mapTo_congr [DecidableEq κ] {f g : κ → α → β} {m : FMap κ α}
    (h : ∀ k v, m.lookup k = some v → f k v = g k v) : m.mapTo f = m.mapTo g := by
  apply AList.ext
  refine List.map_congr_left fun e he => ?_
  rw [h e.1 e.2 (mem_entries.mp he)]

theorem mapTo_mapVal (f : κ → α → β) (g : κ → α → α) (m : FMap κ α) :
    (m.mapVal g).mapTo f = m.mapTo fun k v => f k (g k v) := by
  apply AList.ext
  show (m.entries.map _).map _ = _
  rw [List.map_map]
  rfl

theorem mapVal_mapTo (f : κ → α → β) (g : κ → β → β) (m : FMap κ α) :
    (m.mapTo f).mapVal g = m.mapTo fun k v => g k (f k v) := by
  apply AList.ext
  show (m.entries.map _).map _ = _
  rw [List.map_map]
  rfl

theorem mapTo_erase [DecidableEq κ] (f : κ → α → β) (m : FMap κ α) (k : κ) :
    (m.erase k).mapTo f = (m.mapTo f).erase k := by
  apply AList.ext
  show (List.kerase k m.entries).map _ = List.kerase k (m.entries.map _)
  induction m.entries with
  | nil => rfl
  | cons e l ih =>
    by_cases hk : k = e.1
    · rw [List.kerase_cons_eq hk, List.map_cons]
      exact (List.kerase_cons_eq (s := (⟨e.1, f e.1 e.2⟩ : Σ _ : κ, β)) hk).symm
    · rw [List.kerase_cons_ne hk, List.map_cons, List.map_cons, ih]
      exact (List.kerase_cons_ne (s := (⟨e.1, f e.1 e.2⟩ : Σ _ : κ, β)) hk).symm

end AList

namespace R1s.Cells

variable {κ α β : Type*} {m : FMap κ Nat} {cells cells' : Nat → α}

/-- The contents of a map of pointers. -/
def deref (cells : Nat → α) (m : FMap κ Nat) : FMap κ α := m.mapTo fun _ p => cells p

theorem deref_congr [DecidableEq κ] (h : ∀ k p, m.lookup k = some p → cells p = cells' p) :
    deref cells m = deref cells' m :=
  AList.mapTo_congr h

/-- Addresses for copies: one for each key, and none that is in use. -/
structure Fresh (addr : κ → Nat) (m : FMap κ Nat) : Prop where
  injective : ∀ {e e'}, e ∈ m.entries → e' ∈ m.entries → addr e.1 = addr e'.1 → e.1 = e'.1
  unused : ∀ {e e'}, e ∈ m.entries → e' ∈ m.entries → addr e'.1 ≠ e.2

-- ===== copies

/-- Copies every cell of the map to the address of its key. -/
def copyCells (addr : κ → Nat) (m : FMap κ Nat) (cells : Nat → α) : Nat → α :=
  m.entries.foldl (fun c e => Function.update c (addr e.1) (c e.2)) cells

/-- The same map over the copies. -/
def copyMap (addr : κ → Nat) (m : FMap κ Nat) : FMap κ Nat := m.mapVal fun k _ => addr k

variable {addr : κ → Nat} {p : Nat}

theorem foldl_copy_other (l : List (Σ _ : κ, Nat)) (hl : ∀ e ∈ l, addr e.1 ≠ p) (cells : Nat → α) :
    l.foldl (fun c e => Function.update c (addr e.1) (c e.2)) cells p = cells p := by
  induction l generalizing cells with
  | nil => rfl
  | cons e l ih =>
    rw [List.foldl_cons, ih fun e' he' => hl e' (List.mem_cons_of_mem _ he')]
    exact Function.update_of_ne (hl e List.mem_cons_self).symm _ _

variable {e : Σ _ : κ, Nat}

/-- A cell of the map keeps its content. -/
theorem copyCells_old (h : Fresh addr m) (he : e ∈ m.entries) :
    copyCells addr m cells e.2 = cells e.2 :=
  foldl_copy_other m.entries (fun _ he' => h.unused he he') cells

theorem foldl_copy_key (l : List (Σ _ : κ, Nat)) (hold : ∀ e₁ ∈ l, ∀ e₂ ∈ l, addr e₂.1 ≠ e₁.2)
    (haddr : ∀ e₁ ∈ l, ∀ e₂ ∈ l, addr e₁.1 = addr e₂.1 → e₁.1 = e₂.1) (hkeys : l.NodupKeys)
    (he : e ∈ l) (cells : Nat → α) :
    l.foldl (fun c e => Function.update c (addr e.1) (c e.2)) cells (addr e.1)
      = cells e.2 := by
  -- The entry writes its copy; no later one has this address.
  induction l generalizing cells with
  | nil => cases he
  | cons e₀ l ih =>
    obtain ⟨hhead, htail⟩ := List.nodupKeys_cons.mp hkeys
    have later : ∀ e' ∈ l, e' ∈ e₀ :: l := fun _ => List.mem_cons_of_mem _
    rw [List.foldl_cons]
    rcases List.mem_cons.mp he with rfl | he
    · rw [foldl_copy_other]
      · exact Function.update_self _ _ _
      · intro e' he' heq
        have hsame := haddr e' (later e' he') e List.mem_cons_self heq
        exact hhead (List.mem_map.mpr ⟨e', he', hsame⟩)
    · rw [ih (fun e₁ h₁ e₂ h₂ => hold e₁ (later e₁ h₁) e₂ (later e₂ h₂))
        (fun e₁ h₁ e₂ h₂ => haddr e₁ (later e₁ h₁) e₂ (later e₂ h₂)) htail he]
      exact Function.update_of_ne (hold e (later e he) e₀ List.mem_cons_self).symm _ _

theorem deref_copy [DecidableEq κ] (h : Fresh addr m) :
    deref (copyCells addr m cells) (copyMap addr m) = deref cells m := by
  unfold deref copyMap
  rw [AList.mapTo_mapVal]
  refine AList.mapTo_congr fun k p hk => ?_
  exact foldl_copy_key (e := ⟨k, p⟩) m.entries (fun _ h₁ _ h₂ => h.unused h₁ h₂)
    (fun _ h₁ _ h₂ => h.injective h₁ h₂) m.nodupKeys (AList.mem_entries.mpr hk) cells

-- ===== loops

/-- The pointers of a copied map are all different. -/
theorem copyMap_nodup (h : Fresh addr m) : ((copyMap addr m).entries.map Sigma.snd).Nodup := by
  have heq : (copyMap addr m).entries.map Sigma.snd = (m.entries.map Sigma.fst).map addr := by
    show (m.entries.map _).map _ = _
    rw [List.map_map, List.map_map]
    rfl
  rw [heq]
  refine List.Nodup.map_on ?_ m.nodupKeys
  intro k hk k' hk' haddr
  obtain ⟨e, he, rfl⟩ := List.mem_map.mp hk
  obtain ⟨e', he', rfl⟩ := List.mem_map.mp hk'
  exact h.injective he he' haddr

theorem mem_copyMap (he : e ∈ (copyMap addr m).entries) : ∃ e₀ ∈ m.entries, e.2 = addr e₀.1 := by
  obtain ⟨e₀, he₀, rfl⟩ := List.mem_map.mp he
  exact ⟨e₀, he₀, rfl⟩

/-- A loop over cells that rewrites the cell it is at by `g` and folds
what it finds there by `h`. -/
def eachCell (g : α → α) (h : β → α → β) (l : List (Σ _ : κ, Nat)) (s : (Nat → α) × β) :
    (Nat → α) × β :=
  l.foldl (fun s e => (Function.update s.1 e.2 (g (s.1 e.2)), h s.2 (s.1 e.2))) s

variable {g : α → α} {h : β → α → β}

theorem eachCell_other (l : List (Σ _ : κ, Nat)) (hl : ∀ e ∈ l, e.2 ≠ p) (s : (Nat → α) × β) :
    (eachCell g h l s).1 p = s.1 p := by
  unfold eachCell
  induction l generalizing s with
  | nil => rfl
  | cons e l ih =>
    rw [List.foldl_cons, ih fun e' he' => hl e' (List.mem_cons_of_mem _ he')]
    exact Function.update_of_ne (hl e List.mem_cons_self).symm _ _

/-- Each cell is rewritten once. -/
theorem eachCell_cells (l : List (Σ _ : κ, Nat)) (hl : (l.map Sigma.snd).Nodup)
    (hp : p ∈ l.map Sigma.snd) (s : (Nat → α) × β) : (eachCell g h l s).1 p = g (s.1 p) := by
  induction l generalizing s with
  | nil => cases hp
  | cons e l ih =>
    rw [List.map_cons, List.nodup_cons] at hl
    have hcons : eachCell g h (e :: l) s
        = eachCell g h l (Function.update s.1 e.2 (g (s.1 e.2)), h s.2 (s.1 e.2)) := rfl
    rw [hcons]
    rcases List.mem_cons.mp hp with rfl | hp
    · rw [eachCell_other]
      · exact Function.update_self _ _ _
      · intro e' he' heq
        exact hl.1 (List.mem_map.mpr ⟨e', he', heq⟩)
    · rw [ih hl.2 hp]
      have hne : p ≠ e.2 := by
        rintro rfl
        exact hl.1 hp
      dsimp only
      rw [Function.update_of_ne hne]

/-- The fold sees every cell before its rewrite. -/
theorem eachCell_acc (l : List (Σ _ : κ, Nat)) (hl : (l.map Sigma.snd).Nodup)
    (s : (Nat → α) × β) : (eachCell g h l s).2 = (l.map fun e => s.1 e.2).foldl h s.2 := by
  induction l generalizing s with
  | nil => rfl
  | cons e l ih =>
    rw [List.map_cons, List.nodup_cons] at hl
    have hcons : eachCell g h (e :: l) s
        = eachCell g h l (Function.update s.1 e.2 (g (s.1 e.2)), h s.2 (s.1 e.2)) := rfl
    rw [hcons, ih hl.2, List.map_cons, List.foldl_cons]
    congr 1
    refine List.map_congr_left fun e' he' => ?_
    refine Function.update_of_ne ?_ _ _
    intro heq
    exact hl.1 (List.mem_map.mpr ⟨e', he', heq⟩)

end R1s.Cells
