/-
The accounts across critical sections: whatever a section does to the
memory is one of the moves of `Proofs/Ledger`, saved or undone, so it
keeps the ledger right in memory and leaves a loadable snapshot in the
store.
-/
import R1s.Allocator.Proofs.LedgerLoad
import R1s.Allocator.Proofs.Effects

namespace R1s.Allocator

variable {cfg : Config} {w w' : World} {i : Input} {pc : Option (Pc cfg)}
  {next : Option (Next cfg)}

-- ===== the moves

variable {id : GoString} {m : Mem} {x : ExecutionRecord}

theorem sameExecution_cancelling (x : ExecutionRecord) (detail : GoString) (now : Int) :
    SameExecution x (cancelling x detail now) :=
  ⟨rfl, rfl, rfl, fun hterm => by cases hterm⟩

section Moves

variable (h : LedgerInv cfg m) (hx : m.executions.lookup id = some x)
include h hx

theorem LedgerInv.startReturned (i : Input) : Accounted cfg m (startReturned cfg i id x m) := by
  unfold Allocator.startReturned
  split
  · split
    · exact h.finish hx _ _ _ _
    · exact h.setExecution hx ⟨rfl, rfl, rfl, fun hterm => by cases hterm⟩ rfl
  · exact h.frame rfl rfl rfl

/-- A phase an execution returns to is not terminal, so its slot is not
due. -/
theorem LedgerInv.stopFailed {detail : GoString} {previous : ActivePhase} (i : Input) :
    Accounted cfg m (stopFailed i id x previous detail m) := by
  unfold Allocator.stopFailed
  split
  · refine h.setExecution hx ⟨rfl, rfl, rfl, ?_⟩ rfl
    intro hterm
    rw [previous.2.1] at hterm
    cases hterm
  · exact h.frame rfl rfl rfl

theorem LedgerInv.stopSucceeded {detail : GoString} {phase : ExecutionPhase} (now : Int) :
    Accounted cfg m (stopSucceeded cfg now id x phase detail m) := by
  unfold Allocator.stopSucceeded
  split
  · exact h.frame rfl rfl rfl
  · exact h.finish hx _ _ _ _

end Moves

/-- Giving a held slot back and taking it again changes nothing. -/
theorem LedgerInv.reserve_release {o : GoString} {r : OfferRecord} (h : LedgerInv cfg m)
    (ho : m.offers.lookup o = some r) (hs : r.status = .outstanding) :
    (reserve cfg (release m.used r.offer.resourceClass) r.offer.resourceClass).getD
      (release m.used r.offer.resourceClass) = m.used := by
  have hpos : 0 < m.used r.offer.resourceClass := by
    rw [h.counted, Mem.holders]
    exact AList.count_pos ho (by simp [holds_outstanding hs])
  have hle := h.bounded r.offer.resourceClass
  have hback : release m.used r.offer.resourceClass r.offer.resourceClass
      = m.used r.offer.resourceClass - 1 := Function.update_self ..
  unfold reserve
  unfold Config.limit at hle
  split
  next hnone =>
    rw [hnone, Option.getD_none] at hle
    omega
  next limit hlimit =>
    rw [hlimit, Option.getD_some] at hle
    rw [if_neg (by omega), Option.getD_some, hback, Nat.sub_add_cancel hpos, release,
      Function.update_idem, Function.update_eq_self]

/-- Every move of a section keeps the accounts. -/
theorem Alters.accounted {m' : Mem} {b : Bool} (ha : Alters cfg pc i next m b m')
    (h : LedgerInv cfg m) : Accounted cfg m m' := by
  have hterm {k : GoString} {x : ExecutionRecord} (hx : m.executions.lookup k = some x) :=
    h.linked.terminal hx
  have hexp := h.expireOffers i.now
  cases ha with
  | same | missed | clock | answered | bound | opened | rechecked | closed | cleaned
  | uncleaned => exact h.frame rfl rfl rfl
  | expired hpc now => exact h.expireOffers now
  | unminted hpc hm | begun hpc hm =>
    subst hm
    exact hexp.frame rfl rfl rfl
  | minted _ hm _ _ _ _ hfree hused =>
    subst hm
    exact h.after_expire i.now fun h => h.recordOffer hfree rfl rfl rfl hused _
  | @assigned e q r hpc ha =>
    exact h.after_expire i.now fun h =>
      h.assignOffer (x := assignRecord cfg i q r) ha.offer ha.outstanding ha.fresh
        (executionID_ne_of_valid e.2 ha.payload) (h.linked.offer_id ha.offer) rfl rfl rfl
  | @unassigned o r _ hpc hm hr hstatus =>
    subst hm
    refine h.after_expire i.now fun h => ?_
    have hsame : ({ r with status := .outstanding, execution := [] } : OfferRecord) = r := by
      have hexec := h.linked.unassigned hr (by rw [hstatus]; exact nofun)
      rw [← hstatus, ← hexec]
    rw [hsame]
    exact h.rewriteOffer hr hstatus
  | started hpc hx => exact h.startReturned hx i
  | cancelled hpc hq hactive hx => exact h.setExecution hx (sameExecution_cancelling _ _ _) rfl
  | rewritten hpc hx => exact h.setExecution hx ⟨rfl, rfl, rfl, hterm hx⟩ rfl
  | unstopped hpc hstop hfails hx => exact h.stopFailed hx i
  | stopped hpc hend hx => exact h.stopSucceeded hx i.now
  | reattached hpc hx =>
    exact h.setExecution hx ⟨rfl, rfl, rfl, fun hterm => by cases hterm⟩ rfl
  | released hpc hr hstatus =>
    refine h.releaseOffer hr hstatus ?_
    unfold releasedStatus
    split
    · exact .inr rfl
    · exact .inl rfl
  | unreleased hpc hr hstatus =>
    rw [h.reserve_release hr hstatus]
    exact h.rewriteOffer hr hstatus
  | renewed hpc hq hx =>
    have hsame := hterm hx
    exact h.setExecution hx ⟨rfl, rfl, rfl, hsame⟩ rfl
  | evicted hpc hm hactive hx =>
    subst hm
    exact (h.setExecution hx (sameExecution_cancelling _ _ _) rfl).frame rfl rfl rfl
  | unevicted hpc hm hx =>
    subst hm
    exact (h.setExecution hx ⟨rfl, rfl, rfl, hterm hx⟩ rfl).frame rfl rfl rfl
  | swept => exact h.sweep i.now
  | completed hpc hx => exact h.finish hx _ _ _ _
  | uncompleted hpc hx =>
    exact (h.setExecution hx ⟨rfl, rfl, rfl, hterm hx⟩ rfl).frame rfl rfl rfl

-- ===== the worlds

/-- The accounts agree in memory, and the store holds a snapshot of a
state whose references were right. -/
structure LedgerWorld (cfg : Config) (w : World) : Prop where
  mem : LedgerInv cfg w.mem
  disk : ∀ snap, w.disk = some snap →
    ∃ i m, Linked m ∧ m.encodable = true ∧ snap = snapshot cfg i m

/-- A section from `w` to `w'` keeps the accounts. -/
structure Kept (cfg : Config) (w w' : World) : Prop where
  inv : LedgerWorld cfg w'
  settled : Settled w.mem w'.mem

theorem LedgerWorld.section (h : LedgerWorld cfg w) (he : Effect cfg pc i next w w') :
    Kept cfg w w' := by
  obtain ⟨b, m, ha, hl⟩ := he
  have hm := ha.accounted h.mem
  have hmem := hl.mem
  refine ⟨⟨hmem ▸ hm.inv, ?_⟩, hmem ▸ hm.settled⟩
  intro snap hsnap
  rcases hl.disk.1 with hdisk | ⟨henc, saved, hdisk⟩
  · rw [hdisk] at hsnap
    exact h.disk snap hsnap
  · rw [hdisk] at hsnap
    cases hsnap
    exact ⟨saved, w'.mem, hmem ▸ hm.inv.linked, henc, rfl⟩

end R1s.Allocator
