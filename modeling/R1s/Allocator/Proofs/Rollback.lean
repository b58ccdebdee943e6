/-
Saves that the store refuses.

Seven operations change the memory first and save it afterwards: the
request, the offer release, the lease renewal, the reservation of an
assignment, the first transition of a cancellation and of an eviction,
and the runtime's completion. Each has a rollback of its own. What it
writes back is what was there for reasons that are not local to it: a
request's key is free because the index holds only keys of offers, an
outstanding offer names no execution, and a slot given back can be taken
again because the ledger counts the offer that held it.
-/
import R1s.Allocator.Proofs.Wellformed

namespace R1s.Allocator

variable {cfg : Config} {i : Input} {m m' : Mem} {w w' : World}

-- ===== restored

/-- Offers, request index, executions and ledger are those of `m`. -/
structure Restored (m m' : Mem) : Prop where
  offers : ∀ o, m'.offers.lookup o = m.offers.lookup o
  requests : ∀ key, m'.requests.lookup key = m.requests.lookup key
  executions : ∀ k, m'.executions.lookup k = m.executions.lookup k
  used : m'.used = m.used

theorem Restored.refl (m : Mem) : Restored m m := ⟨fun _ => rfl, fun _ => rfl, fun _ => rfl, rfl⟩

/-- An entry written over itself. -/
theorem lookup_rewrite {α : Type} {a : FMap GoString α} {k : GoString} {v : α}
    (h : a.lookup k = some v) (k' : GoString) : (a.insert k v).lookup k' = a.lookup k' := by
  rw [AList.lookup_insert_if]
  split
  next heq => rw [heq, h]
  · rfl

theorem Restored.setExecution {k : GoString} {x : ExecutionRecord}
    (h : m.executions.lookup k = some x) : Restored m (m.setExecution k x) :=
  ⟨fun _ => rfl, fun _ => rfl, lookup_rewrite h, rfl⟩

-- ===== the request

variable {e : Envelope} {q : ExecutionRequest}

/-- A key that leads to no offer is not in the index. -/
theorem Wellformed.requested_none (h : Wellformed cfg m) (hnone : m.requested e q = none) :
    m.requests.lookup (authorityKey e.sender q.requestID) = none := by
  cases hkey : m.requests.lookup (authorityKey e.sender q.requestID) with
  | none => rfl
  | some o =>
    obtain ⟨r, hr, -⟩ := h.index.mp hkey
    rw [Mem.requested, hkey, Option.bind_some, hr] at hnone
    cases hnone

variable {reply : Reply} {err : GoErr}

theorem commitOffer_restored {response : Envelope} (hfree : w.mem.offers.lookup i.id = none)
    (hkey : w.mem.requests.lookup (authorityKey e.sender q.requestID) = none)
    (h : commitOffer cfg i e q response w = (w', reply)) (herr : reply.err = some err) :
    Restored w.mem w'.mem := by
  have hoffers := AList.erase_insert_self hfree (mintRecord cfg i e q)
  have hrequests := AList.erase_insert_self hkey i.id
  unfold commitOffer at h
  dsimp only at h
  rw [hoffers, hrequests] at h
  split at h
  · cases h
    exact .refl _
  rename_i used hused
  split at h
  · cases h
    refine ⟨fun _ => rfl, fun _ => rfl, fun _ => rfl, ?_⟩
    obtain ⟨rfl, -⟩ := reserve_spec hused
    show release _ _ = _
    unfold release
    simp
  · cases h
    cases herr

theorem handleRequest_restored (hwf : Wellformed cfg w.mem)
    (h : handleRequest cfg i e q w = (w', reply)) (herr : reply.err = some err) :
    Restored (expireOffers i.now w.mem) w'.mem := by
  have hwf' := hwf.expired i.now
  unfold handleRequest at h
  dsimp only at h
  split at h
  · cases h
    exact .refl _
  rename_i hnone
  unfold newOffer at h
  split at h
  · cases h
    exact .refl _
  split at h
  · cases h
    exact .refl _
  split at h
  · cases h
    exact .refl _
  rename_i hfree
  split at h
  · cases h
    exact .refl _
  have hnew : (w.setMem (expireOffers i.now w.mem)).mem.offers.lookup i.id = none := by
    simpa using hfree
  exact commitOffer_restored hnew (hwf'.requested_none hnone) h herr

-- ===== the assignment

theorem commitAssign_restored {q : ExecutionAssign} {r : OfferRecord} (hl : Linked w.mem)
    (hr : w.mem.offers.lookup q.offerID = some r) (hstatus : r.status = .outstanding)
    (hnew : w.mem.executions.lookup q.executionID = none)
    (h : commitAssign cfg i q r w = (w', .reply reply)) : Restored w.mem w'.mem := by
  -- An outstanding offer names no execution.
  have hrecord : { r with status := .outstanding, execution := [] } = r := by
    have hexecution : r.execution = [] := hl.unassigned hr (by rw [hstatus]; nofun)
    rw [← hstatus, ← hexecution]
  have hundo := AList.erase_insert_self hnew (assignRecord cfg i q r)
  unfold commitAssign at h
  dsimp only at h
  split at h
  · cases h
    refine ⟨?_, fun _ => rfl, ?_, rfl⟩
    · intro o
      rw [hrecord]
      exact lookup_rewrite hr o
    · intro k
      show AList.lookup k ((w.mem.executions.insert q.executionID _).erase q.executionID) = _
      rw [hundo]
  · cases h

theorem assignBegin_restored {q : ExecutionAssign} (hl : Linked w.mem)
    (h : assignBegin cfg i e q w = (w', .reply reply)) :
    Restored (expireOffers i.now w.mem) w'.mem := by
  have hl' := hl.expireOffers i.now
  unfold assignBegin at h
  dsimp only at h
  split at h
  · cases h
    exact .refl _
  rename_i r hr
  split at h
  · cases h
    exact .refl _
  split at h
  · cases h
    exact .refl _
  split at h
  · cases h
    exact .refl _
  · cases h
    exact .refl _
  · split at h <;> cases h <;> exact .refl _
  rename_i hstatus
  unfold assignOutstanding at h
  split at h
  · split at h <;> cases h <;> exact .refl _
  rename_i hnew
  split at h
  · cases h
    exact .refl _
  split at h
  · cases h
    exact .refl _
  · exact commitAssign_restored hl' hr hstatus hnew h

-- ===== release, renewal, stops

theorem handleOfferRelease_restored {q : ExecutionOfferRelease} (hledger : LedgerInv cfg w.mem)
    (h : handleOfferRelease cfg i e q w = (w', reply)) (herr : reply.err = some err) :
    Restored w.mem w'.mem := by
  unfold handleOfferRelease at h
  split at h
  · cases h
    exact .refl _
  rename_i r hr
  split at h
  · cases h
    exact .refl _
  split at h
  · cases h
    exact .refl _
  split at h
  · cases h
    exact .refl _
  dsimp only at h
  split at h
  next hstatus =>
    have ho := lookup_releaseTarget hr hstatus
    split at h
    · cases h
      cases herr
    · cases h
      refine ⟨lookup_rewrite ho, fun _ => rfl, fun _ => rfl, ?_⟩
      exact hledger.reserve_release ho hstatus
  · cases h
    exact .refl _

theorem handleLeaseRenew_restored {q : ExecutionLeaseRenew}
    (herr : (handleLeaseRenew cfg i e q w).2.err = some err) (hstore : err.is .store = true) :
    Restored w.mem (handleLeaseRenew cfg i e q w).1.mem := by
  rcases @handleLeaseRenew_cases cfg e q i w with
    ⟨_, -, heq | ⟨x, hx, heq⟩⟩ | ⟨x, -, -, -, hreply, -⟩
  · rw [heq]
    exact .refl _
  · rw [heq]
    exact .setExecution hx
  · -- The lease is renewed and saved; an empty ID is another error.
    rw [hreply] at herr
    unfold respond at herr
    split at herr
    · cases herr
      cases hstore
    · cases herr

/-- A transition to CANCELLING that could not be saved. -/
theorem beginStop_restored {key detail : GoString} {x : ExecutionRecord} {now : Int}
    (hx : w.mem.executions.lookup key = some x)
    (h : beginStop cfg i key x detail now w = .error (w', err)) : Restored w.mem w'.mem := by
  unfold beginStop at h
  dsimp only at h
  split at h
  · cases h
  · cases h
    exact .setExecution hx

theorem cancelBegin_restored {q : ExecutionCancel}
    (h : cancelBegin cfg i e q w = (w', .reply reply)) : Restored w.mem w'.mem := by
  unfold cancelBegin at h
  split at h
  · cases h
    exact .refl _
  rename_i x hx
  split at h
  · cases h
    exact .refl _
  split at h
  · split at h
    next hstop =>
      cases h
      exact beginStop_restored hx hstop
    · cases h
  · cases h
    exact .refl _

theorem evictBegin_restored (h : evictBegin cfg i w = some (w', .failed err)) :
    Restored w.mem w'.mem := by
  have hclock : Restored w.mem (effectiveNow i.now w.mem) := by
    rw [effectiveNow_eq]
    exact ⟨fun _ => rfl, fun _ => rfl, fun _ => rfl, rfl⟩
  unfold evictBegin at h
  dsimp only at h
  split at h
  · split at h
    · cases h
    rename_i x hx
    split at h
    · split at h
      · cases h
        exact hclock
      split at h
      next hstop =>
        cases h
        obtain ⟨ho, hq, hk, hu⟩ := beginStop_restored hx hstop
        exact ⟨fun o => (ho o).trans (hclock.offers o),
          fun key => (hq key).trans (hclock.requests key),
          fun k => (hk k).trans (hclock.executions k), hu.trans hclock.used⟩
      · cases h
    · cases h
  · cases h

-- ===== the completion

theorem runtimeCompleted_restored {c : Completion}
    (h : runtimeCompleted cfg i c w = (w', some err)) : Restored w.mem w'.mem := by
  unfold runtimeCompleted at h
  split at h
  · cases h
    exact .refl _
  split at h
  · cases h
    exact .refl _
  rename_i x hx
  split at h
  · split at h
    · cases h
    · cases h
      exact .refl _
  dsimp only at h
  split at h
  · cases h
  cases h
  refine ⟨fun _ => rfl, fun _ => rfl, ?_, rfl⟩
  intro k
  show AList.lookup k ((w.mem.executions.insert c.executionID _).insert c.executionID x) = _
  rw [AList.lookup_insert_if, AList.lookup_insert_if]
  split
  next heq => rw [heq, hx]
  · rfl

-- ===== the handlers

/-- A handler's first section that reports a failed save. -/
theorem handle_restored {e : Inbound cfg} (hwf : Wellformed cfg w.mem)
    (hledger : LedgerInv cfg w.mem) (h : handle i e w = some (w', .goto (.finishing e reply)))
    (herr : reply.err = some err) (hstore : err.is .store = true) :
    Restored w.mem w'.mem ∨ Restored (expireOffers i.now w.mem) w'.mem := by
  have outcome {o : Outcome} (ho : (o.next e : Next cfg) = .goto (.finishing e reply)) :
      o = .reply reply := by
    cases o <;> cases ho
    rfl
  unfold handle at h
  split at h
  case h_1 q hq =>
    cases h
    exact .inr (handleRequest_restored hwf rfl herr)
  case h_2 q hq =>
    obtain ⟨rfl, hnext⟩ := Prod.mk.inj (Option.some.inj h)
    exact .inr (assignBegin_restored hledger.linked (Prod.ext rfl (outcome hnext)))
  case h_3 q hq =>
    obtain ⟨rfl, hnext⟩ := Prod.mk.inj (Option.some.inj h)
    exact .inl (cancelBegin_restored (Prod.ext rfl (outcome hnext)))
  case h_4 q hq =>
    cases h
    left
    unfold handleInspect
    split
    · exact .refl _
    · split <;> exact .refl _
  case h_5 q hq =>
    cases h
    exact .inl (handleOfferRelease_restored hledger rfl herr)
  case h_6 q hq =>
    cases h
    exact .inl (handleLeaseRenew_restored herr hstore)
  case h_7 q hq =>
    obtain ⟨rfl, -⟩ := Prod.mk.inj (Option.some.inj h)
    exact .inl (.refl _)
  case h_8 => cases h

/-- From every reachable state: where a handler's first section (of a
request, an assignment, a cancellation, a release or a renewal), the
start of an eviction or a completion ends because the save failed, the
offers, the request index, the executions and the ledger are those before
it, up to the offers that expired. -/
theorem rejected_saves_change_nothing (cfg : Config) {s : System cfg}
    (hs : (machine cfg).Reach s) :
    (∀ i (e : Inbound cfg) w' reply err,
      handle i e s.world = some (w', .goto (.finishing e reply)) →
      reply.err = some err → err.is .store = true →
      Restored s.world.mem w'.mem ∨ Restored (expireOffers i.now s.world.mem) w'.mem) ∧
    (∀ i w' err, evictBegin cfg i s.world = some (w', .failed err) → err.is .store = true →
      Restored s.world.mem w'.mem) ∧
    ∀ i c w' err, runtimeCompleted cfg i c s.world = (w', some err) → err.is .store = true →
      Restored s.world.mem w'.mem := by
  have hwf := (sound_reachable hs).mem
  have hledger := (ledgerWorld_reachable hs).mem
  refine ⟨?_, ?_, ?_⟩
  · intro i e w' reply err h herr hstore
    exact handle_restored hwf hledger h herr hstore
  · intro i w' err h _
    exact evictBegin_restored h
  · intro i c w' err h _
    exact runtimeCompleted_restored h

/-- The assignment of the sample offer when the store is full. -/
def refusedSave : Input := { now := epoch, saved := { fault := some ⟨[], text "disk full"⟩ } }

theorem refused_assignment_changes_nothing :
    ∃ (s : System oneSlot) (w' : World) (reply : Reply), (machine oneSlot).Reach s ∧
      handle refusedSave assignCommand s.world
        = some (w', .goto (.finishing assignCommand reply)) ∧
      (reply.err.map fun err => err.is .store) = some true ∧
      (Restored s.world.mem w'.mem ∨ Restored (expireOffers epoch s.world.mem) w'.mem) := by
  obtain ⟨s, hs, hp⟩ := (machine oneSlot).exists_reach rfl requestRun
    (fun s => (handle refusedSave assignCommand s.world).any fun r =>
      (r.2.pc.bind Pc.finishes).any fun done =>
        done.1 = assignCommand ∧ (done.2.err.any fun err => err.is .store) = true)
    (by decide +kernel)
  simp only [Option.any_eq_true, decide_eq_true_eq] at hp
  obtain ⟨⟨w', next⟩, hr, ⟨e, reply⟩, hdone, rfl, err, herr, hstore⟩ := hp
  obtain ⟨pc, hpc, hfin⟩ := Option.bind_eq_some_iff.mp hdone
  obtain rfl := Next.pc_eq_some.mp hpc
  cases pc <;> cases hfin
  refine ⟨s, w', reply, hs, hr, by rw [herr, Option.map_some, hstore], ?_⟩
  exact (rejected_saves_change_nothing oneSlot hs).1 refusedSave assignCommand w' reply err hr herr
    hstore

end R1s.Allocator
