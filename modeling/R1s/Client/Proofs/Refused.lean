/-
A message that `Handle` rejects, and what it leaves behind. Every handler
checks before it writes, with one exception: `handleOfferLocked` takes the
node capabilities of an offer into the catalog before it looks for a
recorded offer of the same ID, so an offer rejected after that has already
changed the catalog.
-/
import R1s.Client.Proofs.Feedback

namespace R1s.Client

variable {cfg : Config} {s : State} {i : Input} {e : Envelope}

/-- A valid offer that answers its request for the class asked, from a
catalogued sender, with capabilities other than the catalog's. -/
def refreshes (cfg : Config) (e : Envelope) (s : State) : Bool :=
  (validateEnvelope cfg.sum256 e).isNone &&
    match e.payload with
    | some (.executionOffer offer) =>
      ((s.requests.lookup offer.requestID).any fun record =>
        record.messageID = e.correlationID
          && offer.resourceClass = record.request.resourceClass)
        && (s.allocators.lookup e.sender).any fun allocator =>
          offer.node.isSome && !capabilitiesEqual allocator.node offer.node
    | _ => false

/-- The catalog changes exactly when the sender is known with other
capabilities. -/
theorem refreshNode_eq_self {sender : Bytes} {offer : ExecutionOffer} :
    refreshNode sender offer s = s ↔
      ((s.allocators.lookup sender).any fun allocator =>
        offer.node.isSome && !capabilitiesEqual allocator.node offer.node) = false := by
  unfold refreshNode
  cases hsender : s.allocators.lookup sender with
  | none => simp
  | some allocator =>
    simp only [Option.any_some]
    by_cases hchanged : (offer.node.isSome && !capabilitiesEqual allocator.node offer.node) = true
    · rw [if_pos hchanged, hchanged]
      refine iff_of_false (fun heq => ?_) (by decide)
      have hlookup := congrArg (fun t : State => t.allocators.lookup sender) heq
      simp only [AList.lookup_insert, hsender, Option.some.injEq] at hlookup
      have hnode : offer.node = allocator.node := congrArg KnownAllocator.node hlookup
      simp [capabilitiesEqual, hnode] at hchanged
    · rw [if_neg hchanged]
      exact iff_of_true rfl (Bool.eq_false_iff.mpr hchanged)

variable {t : State} {err : Err}

theorem handleOffer_refused {offer : ExecutionOffer} (h : (handleOffer i e offer s).2 = some err) :
    (handleOffer i e offer s).1 = s ↔
      (((s.requests.lookup offer.requestID).any fun record =>
        record.messageID = e.correlationID
          && offer.resourceClass = record.request.resourceClass)
        && (s.allocators.lookup e.sender).any fun allocator =>
          offer.node.isSome && !capabilitiesEqual allocator.node offer.node) = false := by
  unfold handleOffer at h ⊢
  cases hrecord : s.requests.lookup offer.requestID with
  | none => simp
  | some record =>
    rw [hrecord] at h
    simp only [Option.any_some] at h ⊢
    by_cases hanswers : record.messageID ≠ e.correlationID
        ∨ offer.resourceClass ≠ record.request.resourceClass
    · rw [if_pos hanswers]
      refine iff_of_true rfl ?_
      rcases hanswers with hid | hclass
      · simp [hid]
      · simp [hclass]
    · rw [if_neg hanswers] at h ⊢
      by_cases hknown : (s.allocators.lookup e.sender).isNone = true
      · rw [if_pos hknown, Option.isNone_iff_eq_none.mp hknown]
        simp
      · rw [if_neg hknown] at h ⊢
        simp only [not_or, not_not] at hanswers
        rw [decide_eq_true hanswers.1, decide_eq_true hanswers.2, Bool.true_and, Bool.true_and]
        -- every rejection from here on leaves the refreshed catalog
        refine Iff.trans (Eq.congr_left ?_) refreshNode_eq_self
        revert h
        repeat' split
        all_goals simp

/-- An error in answer to nothing marks no lease. -/
theorem handleError_refused {failure : CommandError}
    (h : handleError i e failure s = (t, some err)) : t = s := by
  unfold handleError at h
  dsimp only at h
  split at h
  · cases h
  rename_i hauthorized
  cases h
  rw [Bool.or_eq_true, not_or, Bool.not_eq_true, Bool.not_eq_true] at hauthorized
  have hsame : (s.executions.mapVal fun _ r => r.failed e failure.code) = s.executions := by
    apply AList.mapVal_eq_self
    intro x r hr
    have hanswered : r.answeredBy e = false := by
      by_contra hnot
      rw [Bool.not_eq_false] at hnot
      have hany : (s.executions.any fun _ r => r.answeredBy e) = true :=
        AList.any_eq_true.mpr ⟨x, r, hr, hnot⟩
      rw [hauthorized.2] at hany
      cases hany
    simp [ExecutionRecord.failed, hanswered]
  rw [hsame]

/-- A state is refused for an unknown execution, another allocator's or
one that contradicts the state on record; only one that is taken is
written. -/
theorem handleState_refused {state : ExecutionState}
    (h : handleState e state s = (t, some err)) : t = s := by
  unfold handleState at h
  split at h
  · cases h
    rfl
  split at h
  · cases h
    rfl
  split at h
  · cases h
  · cases h
    rfl
  · cases h

/-- An acknowledgement is refused unless it names a recorded offer with a
release under way, comes from its allocator, answers that release and
does not say that the offer was assigned. -/
theorem handleReleaseAck_refused {ack : ExecutionOfferReleaseAck}
    (h : handleReleaseAck e ack s = (t, some err)) : t = s := by
  unfold handleReleaseAck at h
  split at h
  · cases h
    rfl
  split at h
  · cases h
    rfl
  split at h
  · cases h
    rfl
  split at h
  · cases h
    rfl
  split at h
  · cases h
    rfl
  split at h <;> cases h
  rfl

/-- A renewal's answer is refused for an unknown execution, when it
answers no renewal under way with its sender, and once the lease is
lost. -/
theorem handleRenewAck_refused {ack : ExecutionLeaseRenewAck}
    (h : handleRenewAck i e ack s = (t, some err)) : t = s := by
  unfold handleRenewAck at h
  split at h
  · cases h
    rfl
  split at h
  · cases h
    rfl
  split at h <;> cases h
  rfl

/-- A message that `Handle` rejects leaves the core as it was, unless it is
an offer that got as far as the refresh of the catalog. -/
theorem handle_refused_keeps_iff {err : Err} (h : (handle cfg i e s).2 = some err) :
    (handle cfg i e s).1 = s ↔ refreshes cfg e s = false := by
  unfold handle at h ⊢
  unfold refreshes
  cases hvalid : validateEnvelope cfg.sum256 e with
  | some problem => simp
  | none =>
    rw [hvalid] at h
    cases hpayload : e.payload with
    | none => simp
    | some payload =>
      rw [hpayload] at h
      cases payload with
      | executionOffer offer => exact handleOffer_refused h
      | commandError failure => exact iff_of_true (handleError_refused (Prod.ext rfl h)) rfl
      | executionState state => exact iff_of_true (handleState_refused (Prod.ext rfl h)) rfl
      | executionOfferReleaseAck ack =>
        exact iff_of_true (handleReleaseAck_refused (Prod.ext rfl h)) rfl
      | executionLeaseRenewAck ack =>
        exact iff_of_true (handleRenewAck_refused (Prod.ext rfl h)) rfl
      | _ => exact iff_of_true rfl rfl

/-- The recorded offer again, now with capabilities. -/
def changedOffer : ExecutionOffer :=
  { plainOffer with
    node := some ⟨text "linux", text "amd64", text "containerd", [], [], .empty, []⟩ }

/-- A second offer of a recorded ID is a conflict, and the catalog has its
capabilities. -/
theorem refused_offer_changes_the_catalog :
    ∃ s, (machine plainClient).Reach s ∧
      (handle plainClient (plainInput []) (plainReply "m1" (.executionOffer changedOffer)) s).2 =
        some Sentinel.conflict.err ∧
      ((s.allocators.lookup [2]).bind KnownAllocator.node).isNone = true ∧
      (((handle plainClient (plainInput []) (plainReply "m1" (.executionOffer changedOffer))
        s).1.allocators.lookup [2]).bind KnownAllocator.node).isSome = true := by
  exact (machine plainClient).exists_reach rfl (selected.take 3) _ (by decide +kernel)

/-- The same offer in answer to another message is refused, and the
request, its offer and the catalog stay as they were. -/
theorem unasked_offer_is_refused :
    ∃ s, (machine plainClient).Reach s ∧
      ((s.requests.lookup (text "request")).any fun r => r.offers.size = 1) = true ∧
      (s.allocators.lookup [2]).isSome = true ∧
      (handle plainClient (plainInput []) (plainReply "m9" (.executionOffer changedOffer)) s).2 =
        some Sentinel.conflict.err ∧
      (handle plainClient (plainInput []) (plainReply "m9" (.executionOffer changedOffer)) s).1 =
        s := by
  obtain ⟨s, hs, hrequest, hknown, herr, hkeeps⟩ :=
    (machine plainClient).exists_reach rfl (selected.take 3)
    (fun s => ((s.requests.lookup (text "request")).any fun r => r.offers.size = 1) = true ∧
      (s.allocators.lookup [2]).isSome = true ∧
      (handle plainClient (plainInput []) (plainReply "m9" (.executionOffer changedOffer)) s).2 =
        some Sentinel.conflict.err ∧
      refreshes plainClient (plainReply "m9" (.executionOffer changedOffer)) s = false)
    (by decide +kernel)
  exact ⟨s, hs, hrequest, hknown, herr, (handle_refused_keeps_iff herr).mpr hkeeps⟩

end R1s.Client
