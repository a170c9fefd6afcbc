import BrowserMesh.Apps.PaymentChannel
import BrowserMesh.Library.Async

/-! # Signing payment channels

* **Calls.**  `pay`, `receive`, `close`, `handleCloseMessage` and `finalizeClose` of a channel with
  `verifyFn`, each run up to its first `await` and from one `await` to the next.
* **Awaits.**  What a signing or verifying function settles to is an event.  Between two events other calls
  run on the same channel.
* **Credits.**  `receive` checks state and sequence before the verification and applies the update after
  it.  `credits_iff`: updates are credited once, in order and while the channel is open exactly as long as
  each still passes these checks when it is applied. -/

namespace BrowserMesh.Apps
open Js Guards Async Transition

/-- A signature, by its bytes. -/
abbrev Signature := List (Fin 256)

inductive DisputeReason where
  | invalidSignature | balanceMismatch | invalidAckSignature | ackMismatch
  deriving DecidableEq

/-- A call on a channel; `none` for a message without a signature. -/
inductive SignedCall where
  | pay (amount now : JsNumber)
  | receive (update : PaymentUpdate ℕ) (signature : Option Signature)
  | close (now : JsNumber)
  | handleCloseMessage (claim : CloseClaim ℕ) (signature : Option Signature)
  | finalizeClose (ack : CloseClaim ℕ) (signature : Option Signature)
  deriving DecidableEq

/-- Where a call waits. -/
inductive SignedFrame where
  | signingUpdate (update : PaymentUpdate ℕ)
  | verifyingUpdate (update : PaymentUpdate ℕ) (amount : JsNumber) (signature : Option Signature)
  | signingClaim (claim : CloseClaim ℕ)
  | verifyingClaim (claim : CloseClaim ℕ) (signature : Option Signature)
  | signingAck (claim : CloseClaim ℕ)
  | verifyingAck (ack : CloseClaim ℕ) (signature : Option Signature)
  deriving DecidableEq

inductive SignedEvent where
  | verified (valid : Bool)
  | signed (signature : Signature)
  /-- The awaited function rejects. -/
  | failed

/-- What a call returns. -/
inductive SignedResult where
  | update (update : PaymentUpdate ℕ) (signature : Option Signature)
  | received (sequence : ℕ)
  | claim (claim : CloseClaim ℕ) (signature : Signature)
  | ack (claim : CloseClaim ℕ) (signature : Signature)
  | settlement (settlement : CloseClaim ℕ)
  | dispute (reason : DisputeReason)
  | threw (error : ChannelError ℕ)
  /-- "Rejected payment update: missing or invalid signature", or the rejection of an awaited function. -/
  | rejected
  deriving DecidableEq

namespace PaymentChannel

/-- The fields of a claim, or of a settlement, on the present balances. -/
def claimFields (s : PaymentChannel ℕ) (now : JsNumber) : CloseClaim ℕ :=
  ⟨s.channelId, s.localBalance, s.remoteBalance, s.sequence, now⟩

/-- The claim mirrors the balances of this end. -/
def matchesClaim (s : PaymentChannel ℕ) (claim : CloseClaim ℕ) : Bool :=
  claim.finalRemoteBalance.eq s.localBalance && claim.finalLocalBalance.eq s.remoteBalance

/-- The acknowledgement repeats the balances of this end. -/
def matchesAck (s : PaymentChannel ℕ) (ack : CloseClaim ℕ) : Bool :=
  ack.finalLocalBalance.eq s.localBalance && ack.finalRemoteBalance.eq s.remoteBalance

/-- The synchronous part of a call, on a channel with `signFn` or without. -/
def startCall (signs : Bool) (s : PaymentChannel ℕ) :
    SignedCall → PaymentChannel ℕ × Task SignedFrame SignedResult
  | .pay amount now =>
      match s.pay amount now with
      | (s, .ok update) =>
          (s, if signs then .waiting (.signingUpdate update) else .returned (.update update none))
      | (s, .error e) => (s, .returned (.threw e))
  | .receive update signature =>
      match s.checkReceive update with
      | .ok amount => (s, .waiting (.verifyingUpdate update amount signature))
      | .error e => (s, .returned (.threw e))
  | .close now =>
      if s.state ≠ .open' then (s, .returned (.threw (.wrongState s.state)))
      else if signs then ({ s with state := .closing }, .waiting (.signingClaim (s.claimFields now)))
      else ({ s with state := .closed }, .returned (.settlement (s.claimFields now)))
  | .handleCloseMessage claim signature =>
      if s.state ≠ .open' then (s, .returned (.threw (.wrongState s.state)))
      else if claim.channelId ≠ s.channelId then (s, .returned (.threw .channelIdMismatch))
      else (s, .waiting (.verifyingClaim claim signature))
  | .finalizeClose ack signature =>
      if s.state ≠ .closing then (s, .returned (.threw (.wrongState s.state)))
      else if ack.channelId ≠ s.channelId then (s, .returned (.threw .channelIdMismatch))
      else (s, .waiting (.verifyingAck ack signature))

/-- What follows an `await`; a message without a signature is never valid. -/
def resumeCall (signs : Bool) (s : PaymentChannel ℕ) :
    SignedFrame → SignedEvent → Option (PaymentChannel ℕ × Task SignedFrame SignedResult)
  | .signingUpdate update, .signed signature => some (s, .returned (.update update (some signature)))
  | .verifyingUpdate update amount signature, .verified valid =>
      if valid && signature.isSome then
        some (s.applyReceive update.sequence amount, .returned (.received update.sequence))
      else some (s, .returned .rejected)
  | .signingClaim claim, .signed signature => some (s, .returned (.claim claim signature))
  | .verifyingClaim claim signature, .verified valid =>
      if !(valid && signature.isSome) then some (s, .returned (.dispute .invalidSignature))
      else if !s.matchesClaim claim then some (s, .returned (.dispute .balanceMismatch))
      else if !signs then some (s, .returned (.dispute .invalidSignature))
      else some (s, .waiting (.signingAck claim))
  | .signingAck claim, .signed signature =>
      some ({ s with state := .closed }, .returned (.ack claim signature))
  | .verifyingAck ack signature, .verified valid =>
      if !(valid && signature.isSome) then some (s, .returned (.dispute .invalidAckSignature))
      else if !s.matchesAck ack then some (s, .returned (.dispute .ackMismatch))
      else some ({ s with state := .closed }, .returned (.settlement (s.claimFields ack.closedAt)))
  | _, .failed => some (s, .returned .rejected)
  | _, _ => none

/-- The calls on a channel with `verifyFn`. -/
def signedCalls (signs : Bool) :
    Program (PaymentChannel ℕ) SignedCall SignedEvent SignedFrame SignedResult where
  start s call := some (s.startCall signs call)
  resume s frame event := s.resumeCall signs frame event

/-- A channel with the calls made on it. -/
abbrev SignedLog := World (PaymentChannel ℕ) SignedFrame SignedResult

/-- The sequence number of the update that a call has applied. -/
def creditOf : SignedResult → Option ℕ
  | .received sequence => some sequence
  | _ => none

/-- The sequence numbers of the updates that have been applied. -/
def credited (w : SignedLog) : List ℕ := w.collect creditOf

/-- Updates are applied at most once and only while the channel is open, its balances change only then,
and the sequence number does not decrease. -/
structure CreditsOnce (w w' : SignedLog) : Prop where
  once : (credited w').Nodup
  whileOpen : w.shared.state ≠ .open' → w'.shared.localBalance = w.shared.localBalance ∧
    w'.shared.remoteBalance = w.shared.remoteBalance ∧ (credited w').Perm (credited w)
  monotone : w.shared.sequence ≤ w'.shared.sequence

/-- If the step applies an update, the channel is still open, its sequence number has not passed that of
the update, and no update with this number has been applied. -/
def StillFresh (w : SignedLog) (a : Action SignedCall SignedEvent) : Prop :=
  ∀ i update amount signature, a = .resume i (.verified true) →
    w.tasks[i]? = some (.waiting (.verifyingUpdate update amount (some signature))) →
    w.shared.state = .open' ∧ w.shared.sequence ≤ update.sequence ∧ update.sequence ∉ credited w

/-- What the synchronous part of a call does to the channel. -/
theorem startCall_spec (signs : Bool) (s : PaymentChannel ℕ) (call : SignedCall) :
    (s.startCall signs call).2.result?.bind creditOf = none ∧
      s.sequence ≤ (s.startCall signs call).1.sequence ∧
      (s.state ≠ .open' → (s.startCall signs call).1.localBalance = s.localBalance ∧
        (s.startCall signs call).1.remoteBalance = s.remoteBalance) := by
  cases call with
  | pay amount now =>
      by_cases hpay : s.Payable amount
      · simp only [startCall, pay_of_payable hpay]
        refine ⟨?_, Nat.le_succ _, fun hne => absurd hpay.1 hne⟩
        cases signs <;> rfl
      · obtain ⟨e, he⟩ := pay_of_not_payable hpay now
        simp only [startCall, he]
        exact ⟨rfl, le_rfl, fun _ => ⟨trivial, trivial⟩⟩
  | receive update signature =>
      simp only [startCall]
      split
      · exact ⟨rfl, le_rfl, fun _ => ⟨rfl, rfl⟩⟩
      · exact ⟨rfl, le_rfl, fun _ => ⟨rfl, rfl⟩⟩
  | close now =>
      simp only [startCall]
      split_ifs
      · exact ⟨rfl, le_rfl, fun _ => ⟨rfl, rfl⟩⟩
      · exact ⟨rfl, le_rfl, fun _ => ⟨rfl, rfl⟩⟩
      · exact ⟨rfl, le_rfl, fun _ => ⟨rfl, rfl⟩⟩
  | handleCloseMessage claim signature =>
      simp only [startCall]
      split_ifs
      · exact ⟨rfl, le_rfl, fun _ => ⟨rfl, rfl⟩⟩
      · exact ⟨rfl, le_rfl, fun _ => ⟨rfl, rfl⟩⟩
      · exact ⟨rfl, le_rfl, fun _ => ⟨rfl, rfl⟩⟩
  | finalizeClose ack signature =>
      simp only [startCall]
      split_ifs
      · exact ⟨rfl, le_rfl, fun _ => ⟨rfl, rfl⟩⟩
      · exact ⟨rfl, le_rfl, fun _ => ⟨rfl, rfl⟩⟩
      · exact ⟨rfl, le_rfl, fun _ => ⟨rfl, rfl⟩⟩

/-- A call that goes on applies its update, or leaves the balances and the sequence number as they are. -/
theorem resumeCall_cases {signs : Bool} {s : PaymentChannel ℕ} {frame : SignedFrame} {event : SignedEvent}
    {r : PaymentChannel ℕ × Task SignedFrame SignedResult} (h : s.resumeCall signs frame event = some r) :
    (∃ update amount signature, frame = .verifyingUpdate update amount (some signature) ∧
      event = .verified true ∧
      r = (s.applyReceive update.sequence amount, .returned (.received update.sequence))) ∨
    ((∀ update amount signature, frame = .verifyingUpdate update amount (some signature) →
        event ≠ .verified true) ∧ r.2.result?.bind creditOf = none ∧
      r.1.localBalance = s.localBalance ∧ r.1.remoteBalance = s.remoteBalance ∧
      r.1.sequence = s.sequence) := by
  unfold resumeCall at h
  split at h
  · obtain rfl := Option.some.inj h
    exact Or.inr ⟨fun _ _ _ hf => (by cases hf), rfl, rfl, rfl, rfl⟩
  · rename_i update amount signature valid
    split_ifs at h with hvalid
    · obtain rfl := Option.some.inj h
      rw [Bool.and_eq_true] at hvalid
      obtain ⟨rfl, hsome⟩ := hvalid
      obtain ⟨bytes, rfl⟩ := Option.isSome_iff_exists.mp hsome
      exact Or.inl ⟨update, amount, bytes, rfl, rfl, rfl⟩
    · obtain rfl := Option.some.inj h
      refine Or.inr ⟨?_, rfl, rfl, rfl, rfl⟩
      rintro update' amount' bytes hframe hevent
      cases hframe
      cases hevent
      exact hvalid rfl
  · obtain rfl := Option.some.inj h
    exact Or.inr ⟨fun _ _ _ hf => (by cases hf), rfl, rfl, rfl, rfl⟩
  · split_ifs at h <;> obtain rfl := Option.some.inj h <;>
      exact Or.inr ⟨fun _ _ _ hf => (by cases hf), rfl, rfl, rfl, rfl⟩
  · obtain rfl := Option.some.inj h
    exact Or.inr ⟨fun _ _ _ hf => (by cases hf), rfl, rfl, rfl, rfl⟩
  · split_ifs at h <;> obtain rfl := Option.some.inj h <;>
      exact Or.inr ⟨fun _ _ _ hf => (by cases hf), rfl, rfl, rfl, rfl⟩
  · obtain rfl := Option.some.inj h
    exact Or.inr ⟨fun _ _ _ _ => SignedEvent.noConfusion, rfl, rfl, rfl, rfl⟩
  · cases h

/-- Once the channel has left the open state, or the update is not fresh, applying it credits wrongly. -/
theorem creditsOnce_step_iff {signs : Bool} {w w' : SignedLog} {a : Action SignedCall SignedEvent}
    (hnodup : (credited w).Nodup) (h : (signedCalls signs).step w a = some w') :
    CreditsOnce w w' ↔ StillFresh w a := by
  cases a with
  | start call =>
      obtain ⟨r, hr, rfl⟩ := Program.step_start h
      obtain rfl := Option.some.inj hr
      obtain ⟨hnone, hseq, hbalances⟩ := startCall_spec signs w.shared call
      have hcredited : credited ⟨(w.shared.startCall signs call).1,
          w.tasks ++ [(w.shared.startCall signs call).2]⟩ = credited w := by
        rw [credited, collect_start creditOf w.shared, hnone]
        simp [credited]
      refine iff_of_true ⟨by rw [hcredited]; exact hnodup, fun hne => ?_, hseq⟩
        (fun i update amount signature ha => (by cases ha))
      exact ⟨(hbalances hne).1, (hbalances hne).2, by rw [hcredited]⟩
  | resume i event =>
      obtain ⟨frame, r, hframe, hr, rfl⟩ := Program.step_resume h
      have hcollect := collect_resume creditOf w.shared r.1 r.2 hframe
      rcases resumeCall_cases hr with ⟨update, amount, bytes, rfl, rfl, rfl⟩ |
        ⟨hother, hnone, hlocal, hremote, hseq⟩
      · -- the update is applied
        have hcredited : (credited ⟨w.shared.applyReceive update.sequence amount,
            w.tasks.set i (.returned (.received update.sequence))⟩).Perm
              (credited w ++ [update.sequence]) := hcollect
        constructor
        · intro hc j update' amount' bytes' hj hwait
          cases hj
          rw [hframe] at hwait
          cases hwait
          refine ⟨?_, hc.monotone, ?_⟩
          · by_contra hne
            have hlen := (hcredited.symm.trans (hc.whileOpen hne).2.2).length_eq
            rw [List.length_append] at hlen
            exact absurd hlen (Nat.succ_ne_self _)
          · have happlied := hcredited.nodup_iff.mp hc.once
            intro hmem
            exact (List.nodup_append.mp happlied).2.2 _ hmem _ List.mem_cons_self rfl
        · intro hfresh
          obtain ⟨hopen, hle, hnew⟩ := hfresh i update amount bytes rfl hframe
          refine ⟨hcredited.nodup_iff.mpr ?_, fun hne => absurd hopen hne, hle⟩
          refine List.nodup_append.mpr ⟨hnodup, List.nodup_singleton _, ?_⟩
          rintro k hk _ hk' rfl
          rw [List.mem_singleton.mp hk'] at hk
          exact hnew hk
      · have hcredited : (credited ⟨r.1, w.tasks.set i r.2⟩).Perm (credited w) := by
          have hperm := hcollect
          rw [hnone] at hperm
          simpa [credited] using hperm
        refine iff_of_true ⟨hcredited.nodup_iff.mpr hnodup, fun _ => ⟨hlocal, hremote, hcredited⟩,
          hseq.ge⟩ ?_
        intro j update amount bytes hj hwait
        cases hj
        rw [hframe] at hwait
        cases hwait
        exact absurd rfl (hother update amount bytes rfl)

/-- On a channel with `verifyFn`, every step of an interleaving credits updates once, in order and only
while the channel is open, if and only if every update is still fresh when its verification ends. -/
theorem credits_iff (signs : Bool) (s : PaymentChannel ℕ) (actions : List (Action SignedCall SignedEvent)) :
    ((signedCalls signs).machine s).Along
        (fun w a => ∀ w', (signedCalls signs).step w a = some w' → CreditsOnce w w') ⟨s, []⟩ actions ↔
      ((signedCalls signs).machine s).Along StillFresh ⟨s, []⟩ actions := by
  refine Machine.along_iff_of_invariant (I := fun w => (credited w).Nodup) ?_
    (by simp [credited, World.collect]) actions
  intro w a w' hnodup hstep
  have hiff := creditsOnce_step_iff hnodup hstep
  refine ⟨⟨fun h => hiff.mp (h w' hstep), fun h w'' hstep' => ?_⟩, fun h => (hiff.mpr h).once⟩
  obtain rfl := Option.some.inj (hstep.symm.trans hstep')
  exact hiff.mpr h

/-- An open channel whose other end holds 100 credits. -/
def funded : PaymentChannel ℕ := ⟨js "c", .ofNat 1000, .open', 0, .ofNat 100, 0⟩

/-- One update that is received twice before its first verification ends. -/
def duplicateUpdate : List (Action SignedCall SignedEvent) :=
  [.start (.receive ⟨js "c", 1, some (.ofNat 1), 0, 0, 0⟩ (some [])),
    .start (.receive ⟨js "c", 1, some (.ofNat 1), 0, 0, 0⟩ (some [])), .resume 0 (.verified true)]

theorem duplicate_credited_twice :
    ¬ ∀ (signs : Bool) (s : PaymentChannel ℕ) (actions : List (Action SignedCall SignedEvent)),
      ((signedCalls signs).machine s).Along
        (fun w a => ∀ w', (signedCalls signs).step w a = some w' → CreditsOnce w w') ⟨s, []⟩ actions := by
  intro h
  have hall := h false funded (duplicateUpdate ++ [.resume 1 (.verified true)])
  obtain ⟨w, hrun, -, hafter⟩ := Machine.exists_of_run
    (P := fun w : SignedLog => ((signedCalls false).step w (.resume 1 (.verified true))).map credited =
      some [1, 1])
    (show (((signedCalls false).machine funded).run (fun _ _ => True)
      ((signedCalls false).machine funded).init duplicateUpdate).any _ = true by decide +kernel)
  obtain ⟨w', hstep, hcredited⟩ := Option.map_eq_some_iff.mp hafter
  have honce := (hall.last hrun hstep w' hstep).once
  rw [hcredited] at honce
  exact absurd honce (by decide)

end PaymentChannel
end BrowserMesh.Apps
