/-
The commands an operation of the core hands out, said once: each is read
off a record of the state the operation leads to, with the message ID
that record keeps. Only a tunnel-open leaves nothing behind.
-/
import R1s.Client.Proofs.Core

namespace R1s.Client

variable {cfg : Config} {s t : State} {command : Handed}

/-- The commands that can be handed out in the state `t`. -/
inductive Hands (cfg : Config) (t : State) : Handed → Prop
  | request {k r} (hr : t.requests.lookup k = some r) : Hands cfg t (none, requestEnvelope cfg r)
  | assign {x r} (hr : t.executions.lookup x = some r) :
      Hands cfg t (some r.destination, assignmentEnvelope cfg r)
  | cancel {x reason r} (hr : t.executions.lookup x = some r) (hid : r.cancelMessageID ≠ []) :
      Hands cfg t (some r.destination, envelope cfg r.cancelMessageID r.cancelSentAt
        (.executionCancel ⟨x, reason⟩))
  | inspect {x r} (hr : t.executions.lookup x = some r) :
      Hands cfg t (some r.destination, envelope cfg r.inspectMessageID r.inspectSentAt
        (.executionInspect ⟨x⟩))
  | release {k o r offer intent} (hr : t.requests.lookup k = some r)
      (ho : r.offers.lookup o = some offer) (hintent : offer.release = some intent) :
      Hands cfg t (some intent.destination, envelope cfg intent.messageID intent.sentAt
        (.executionOfferRelease ⟨r.request.requestID, offer.offer.offerID⟩))
  | renew {x r d} (hr : t.executions.lookup x = some r) :
      Hands cfg t (some r.destination, envelope cfg r.leaseRenewMessageID r.leaseRenewedAt
        (.executionLeaseRenew ⟨r.id, d⟩))
  | logs {q r sentAt} (hq : t.logRequest = some q)
      (hr : t.executions.lookup q.executionID = some r) :
      Hands cfg t (some r.destination, envelope cfg t.logMessageID sentAt
        (.executionLogsRequest q))
  | tunnel {q r id sentAt} (hr : t.executions.lookup q.executionID = some r) :
      Hands cfg t (some r.destination, envelope cfg id sentAt (.executionTunnelOpen q))

/-- A record just set. -/
theorem lookup_setExecution (s : State) (x : GoString) (r : ExecutionRecord) :
    (s.setExecution x r).executions.lookup x = some r := AList.lookup_insert _

-- ===== requests

variable {i : Input} {created : Except Err (GoString × Envelope)}

theorem hands_createRequest {workload : Option Workload} {policy : Option ExecutionPolicy}
    {resourceClass : GoString} {constraints : Option PlacementConstraints} {runID : GoString}
    {attempt : Nat}
    (hy : createRequest cfg i workload policy resourceClass constraints runID attempt s =
      (t, created)) (h : command ∈ handedRequest created) : Hands cfg t command := by
  rcases createRequest_cases cfg i workload policy resourceClass constraints runID attempt s with
    ⟨err, heq⟩ | ⟨r, -, -, -, -, -, -, -, -, heq⟩
  · cases heq.symm.trans hy
    cases h
  · cases heq.symm.trans hy
    obtain rfl := List.mem_singleton.mp h
    exact .request (AList.lookup_insert _)

theorem hands_createNextAttempt {previous : ExecutionRequest}
    (hy : createNextAttempt cfg i previous s = (t, created))
    (h : command ∈ handedRequest created) : Hands cfg t command := by
  unfold createNextAttempt at hy
  split at hy
  · cases hy
    cases h
  · exact hands_createRequest hy h

theorem hands_select {requestID : GoString} (h : command ∈ handed (select cfg i requestID s).2) :
    Hands cfg (select cfg i requestID s).1 command := by
  cases select_cases i requestID s with
  | fails err hselect =>
    rw [hselect] at h
    cases h
  | repeats r x hr hassigned hx hselect =>
    rw [hselect] at h ⊢
    obtain rfl := List.mem_singleton.mp h
    exact .assign hx
  | makes _ selected d _ _ _ _ _ _ _ hselect =>
    rw [hselect] at h ⊢
    obtain rfl := List.mem_singleton.mp h
    exact .assign (r := newExecution i requestID selected d) (AList.lookup_insert _)

theorem hands_releases {now : Int}
    (h : command ∈ (pendingReleases cfg now s).map fun c => (some c.1, c.2)) :
    Hands cfg s command := by
  obtain ⟨c, hc, rfl⟩ := List.mem_map.mp h
  unfold pendingReleases at hc
  rw [List.mem_insertionSort] at hc
  obtain ⟨request, hrequest, hc⟩ := List.mem_flatMap.mp hc
  obtain ⟨entry, hentry, hc⟩ := List.mem_filterMap.mp hc
  obtain ⟨intent, hintent, hc⟩ := Option.bind_eq_some_iff.mp hc
  split at hc
  · cases hc
  · cases hc
    exact .release (AList.mem_entries.mp hrequest) (AList.mem_entries.mp hentry) hintent

-- ===== executions

variable {x : GoString} {y : Except Err Addressed}

theorem hands_inspect (hy : inspect cfg i x s = (t, y)) (h : command ∈ handed y) :
    Hands cfg t command := by
  unfold inspect at hy
  split at hy
  · cases hy
    cases h
  rename_i record hrecord
  split at hy
  · cases hy
    cases h
  cases hy
  obtain rfl := List.mem_singleton.mp h
  have hr := lookup_setExecution s x
    { record with inspectMessageID := i.id 0, inspectSentAt := i.time 0 }
  exact .inspect hr

theorem hands_cancel {reason : GoString} (hy : cancel cfg i x reason s = (t, y))
    (h : command ∈ handed y) : Hands cfg t command := by
  unfold cancel at hy
  split at hy
  · cases hy
    cases h
  rename_i record hrecord
  split at hy
  · cases hy
    split at h
    · cases h
    rename_i hid
    obtain rfl := List.mem_singleton.mp h
    have hr := lookup_setExecution s x
      { record with
        cancelMessageID := i.id 0, cancelSentAt := i.time 0, cancelReason := reason }
    exact .cancel hr hid
  rename_i hsent
  split at hy
  · cases hy
    cases h
  · cases hy
    obtain rfl := List.mem_singleton.mp h
    exact .cancel hrecord hsent

theorem hands_logs {q : ExecutionLogsRequest} (hy : logs cfg i q s = (t, y))
    (h : command ∈ handed y) : Hands cfg t command := by
  unfold logs at hy
  split at hy
  · cases hy
    cases h
  rename_i record hrecord
  dsimp only at hy
  split at hy
  · cases hy
    cases h
  · cases hy
    obtain rfl := List.mem_singleton.mp h
    exact .logs rfl hrecord

theorem hands_tunnelOpen {q : ExecutionTunnelOpen} (hy : tunnelOpen cfg i q s = y)
    (h : command ∈ handed y) : Hands cfg s command := by
  unfold tunnelOpen at hy
  split at hy
  · subst hy
    cases h
  rename_i record hrecord
  split at hy
  · subst hy
    cases h
  split at hy
  · subst hy
    cases h
  dsimp only at hy
  split at hy
  · subst hy
    cases h
  · subst hy
    obtain rfl := List.mem_singleton.mp h
    exact .tunnel hrecord

theorem hands_maintain {d : Int} {renewal : Addressed}
    (hy : maintain cfg i x d s = (t, .ok (some renewal))) :
    Hands cfg t (some renewal.1, renewal.2) := by
  unfold maintain at hy
  split at hy
  · cases hy
  rename_i record hrecord
  split at hy
  · cases hy
  split at hy
  · split at hy <;> cases hy
  dsimp only at hy
  split at hy <;> cases hy
  have hr := lookup_setExecution s x
    { record with
      leaseDuration :=
        if (if 0 < d then d else record.leaseDuration) ≤ 0 then defaultLease
        else if 0 < d then d else record.leaseDuration,
      leaseRenewMessageID := i.id 0, leaseRenewedAt := i.time 0 }
  exact .renew hr

/-- Every command of an operation. -/
theorem hands_apply (s : State) (op : Op) (h : command ∈ (op.apply cfg s).2) :
    Hands cfg (op.apply cfg s).1 command := by
  cases op with
  | register | recordIntent | rebind | handle => cases h
  | createRequest i workload policy resourceClass constraints => exact hands_createRequest rfl h
  | nextAttempt i previous => exact hands_createNextAttempt rfl h
  | select i requestID => exact hands_select h
  | releases now => exact hands_releases h
  | inspect i x => exact hands_inspect rfl h
  | cancel i x reason => exact hands_cancel rfl h
  | logs i q => exact hands_logs rfl h
  | tunnelOpen i q => exact hands_tunnelOpen rfl h
  | maintain i x d =>
    unfold Op.apply at h
    dsimp only at h
    split at h
    next renewal hrenewal =>
      obtain rfl := List.mem_singleton.mp h
      exact hands_maintain (Prod.ext rfl hrenewal)
    · cases h

end R1s.Client
