import BrowserMesh.Apps.PaymentConvergence
import BrowserMesh.Apps.PaymentSigning

/-! # Closing a payment channel from both sides

* **The system.**  Two signing ends.  What one end has signed can reach the other at any time, any number
  of times, or never; a signature that the other end did not make counts as none.
* **Who closes.**  An end signs at most one claim of its own, and only one of the two ends takes up the
  claim of the other (`Inv`).
* **Agreement.**  The responder compares balances, signs, and closes without comparing again; verified
  updates are applied in any state.  `mutual_close_iff`: the settlements agree exactly as long as neither
  lets the balances of a closing end move. -/

namespace BrowserMesh.Apps
open Js Async Transition PaymentChannel

/-- The two ends with the calls made on them. -/
abbrev ClosingEnds := Side → SignedLog

namespace ClosingEnds

/-- The end has signed the claim as the initiator of the close. -/
def Claimed (log : SignedLog) (claim : CloseClaim ℕ) : Prop :=
  ∃ signature, .returned (.claim claim signature) ∈ log.tasks

def Acked (log : SignedLog) (claim : CloseClaim ℕ) : Prop :=
  ∃ signature, .returned (.ack claim signature) ∈ log.tasks

/-- A signed message that is handed to an end has been sent by the other. -/
def Sent (other : SignedLog) : Action SignedCall SignedEvent → Prop
  | .start (.receive update (some signature)) =>
      .returned (.update update (some signature)) ∈ other.tasks
  | .start (.handleCloseMessage claim (some signature)) => .returned (.claim claim signature) ∈ other.tasks
  | .start (.finalizeClose ack (some signature)) => .returned (.ack ack signature) ∈ other.tasks
  | _ => True

instance (other : SignedLog) (a : Action SignedCall SignedEvent) : Decidable (Sent other a) := by
  unfold Sent
  split <;> infer_instance

def step (w : ClosingEnds) (a : Side × Action SignedCall SignedEvent) : Option ClosingEnds :=
  if Sent (w a.1.other) a.2 then
    ((signedCalls true).step (w a.1) a.2).map fun log => Function.update w a.1 log
  else none

/-- Two open ends of a channel, each with its own view of the balances. -/
def start (left right : PaymentChannel ℕ) : ClosingEnds :=
  fun x => ⟨{ if x = .left then left else right with state := .open' }, []⟩

def machine (left right : PaymentChannel ℕ) : Machine ClosingEnds (Side × Action SignedCall SignedEvent) :=
  ⟨start left right, step⟩

/-- The end holds the balances of a claim that it signed and the other end co-signed, or the other way
round. -/
def SettledOn (own other : SignedLog) : Prop :=
  (∃ claim, Claimed own claim ∧ Acked other claim ∧ own.shared.localBalance = claim.finalLocalBalance ∧
    own.shared.remoteBalance = claim.finalRemoteBalance) ∨
  ∃ claim, Claimed other claim ∧ Acked own claim ∧ own.shared.localBalance = claim.finalRemoteBalance ∧
    own.shared.remoteBalance = claim.finalLocalBalance

/-- A closed end has settled on a claim of both, and two closed ends mirror each other. -/
structure Agreement (w : ClosingEnds) : Prop where
  settled : ∀ x, (w x).shared.state = .closed → SettledOn (w x) (w x.other)
  mirrored : ∀ x, (w x).shared.state = .closed → (w x.other).shared.state = .closed →
    (w x).shared.localBalance = (w x.other).shared.remoteBalance

/-- A closed end keeps its balances and applies no update. -/
def KeepsClosed (w w' : ClosingEnds) : Prop :=
  ∀ x, (w x).shared.state = .closed →
    (w' x).shared.localBalance = (w x).shared.localBalance ∧
    (w' x).shared.remoteBalance = (w x).shared.remoteBalance ∧ (credited (w' x)).Perm (credited (w x))

def Settles (w : ClosingEnds) (a : Side × Action SignedCall SignedEvent) : Prop :=
  ∀ w', step w a = some w' → Agreement w' ∧ KeepsClosed w w'

/-- If the step signs an acknowledgement, the balances still mirror the claim; if it applies an update,
the channel is not closed. -/
def Undisturbed (w : ClosingEnds) (a : Side × Action SignedCall SignedEvent) : Prop :=
  ∀ i event, a.2 = .resume i event →
    (∀ claim signature, event = .signed signature →
      (w a.1).tasks[i]? = some (.waiting (.signingAck claim)) →
        (w a.1).shared.localBalance = claim.finalRemoteBalance ∧
        (w a.1).shared.remoteBalance = claim.finalLocalBalance) ∧
    (∀ update amount signature, event = .verified true →
      (w a.1).tasks[i]? = some (.waiting (.verifyingUpdate update amount (some signature))) →
        (w a.1).shared.state ≠ .closed)

/-! ### What a call is about -/

/-- The claim of its own that a call signs or has signed. -/
def pledge : Task SignedFrame SignedResult → Option (CloseClaim ℕ)
  | .waiting (.signingClaim claim) => some claim
  | .returned (.claim claim _) => some claim
  | _ => none

/-- The claim of the other end that a call has taken up. -/
def engagement : Task SignedFrame SignedResult → Option (CloseClaim ℕ)
  | .waiting (.verifyingClaim claim (some _)) => some claim
  | .waiting (.signingAck claim) => some claim
  | .returned (.ack claim _) => some claim
  | _ => none

def confirmation : Task SignedFrame SignedResult → Option (CloseClaim ℕ)
  | .waiting (.verifyingAck ack (some _)) => some ack
  | _ => none

def Inert (t : Task SignedFrame SignedResult) : Prop :=
  pledge t = none ∧ engagement t = none ∧ confirmation t = none

theorem startCall_cases (s : PaymentChannel ℕ) (call : SignedCall) :
    (Inert (s.startCall true call).2 ∧ (s.startCall true call).1.state = s.state ∧
      (s.state ≠ .open' → (s.startCall true call).1.localBalance = s.localBalance ∧
        (s.startCall true call).1.remoteBalance = s.remoteBalance)) ∨
    (∃ now, s.state = .open' ∧ s.startCall true call =
      ({ s with state := .closing }, .waiting (.signingClaim (s.claimFields now)))) ∨
    (∃ claim signature, call = .handleCloseMessage claim (some signature) ∧ s.state = .open' ∧
      s.startCall true call = (s, .waiting (.verifyingClaim claim (some signature)))) ∨
    ∃ ack signature, call = .finalizeClose ack (some signature) ∧
      s.startCall true call = (s, .waiting (.verifyingAck ack (some signature))) := by
  cases call with
  | pay amount now =>
      left
      by_cases hpay : s.Payable amount
      · simp only [startCall, pay_of_payable hpay]
        exact ⟨⟨rfl, rfl, rfl⟩, trivial, fun hne => absurd hpay.1 hne⟩
      · obtain ⟨e, he⟩ := pay_of_not_payable hpay now
        simp only [startCall, he]
        exact ⟨⟨rfl, rfl, rfl⟩, trivial, fun _ => ⟨trivial, trivial⟩⟩
  | receive update signature =>
      left
      simp only [startCall]
      split
      · exact ⟨⟨rfl, rfl, rfl⟩, rfl, fun _ => ⟨rfl, rfl⟩⟩
      · exact ⟨⟨rfl, rfl, rfl⟩, rfl, fun _ => ⟨rfl, rfl⟩⟩
  | close now =>
      by_cases hopen : s.state = .open'
      · exact Or.inr (Or.inl ⟨now, hopen, by simp [startCall, hopen]⟩)
      · left
        simp only [startCall, if_pos hopen]
        exact ⟨⟨rfl, rfl, rfl⟩, trivial, fun _ => ⟨trivial, trivial⟩⟩
  | handleCloseMessage claim signature =>
      by_cases hok : s.state = .open' ∧ claim.channelId = s.channelId
      · obtain ⟨hopen, hid⟩ := hok
        cases signature with
        | some bytes =>
            exact Or.inr (Or.inr (Or.inl ⟨claim, bytes, rfl, hopen, by simp [startCall, hopen, hid]⟩))
        | none =>
            left
            simp only [startCall, hopen, hid, ne_eq, not_true_eq_false, if_false]
            exact ⟨⟨rfl, rfl, rfl⟩, trivial, fun _ => ⟨trivial, trivial⟩⟩
      · left
        simp only [startCall]
        split_ifs with h1 h2
        · exact ⟨⟨rfl, rfl, rfl⟩, rfl, fun _ => ⟨rfl, rfl⟩⟩
        · exact ⟨⟨rfl, rfl, rfl⟩, rfl, fun _ => ⟨rfl, rfl⟩⟩
        · exact absurd ⟨not_not.mp h1, not_not.mp h2⟩ hok
  | finalizeClose ack signature =>
      by_cases hok : s.state = .closing ∧ ack.channelId = s.channelId
      · obtain ⟨hclosing, hid⟩ := hok
        cases signature with
        | some bytes => exact Or.inr (Or.inr (Or.inr ⟨ack, bytes, rfl, by simp [startCall, hclosing, hid]⟩))
        | none =>
            left
            simp only [startCall, hclosing, hid, ne_eq, not_true_eq_false, if_false]
            exact ⟨⟨rfl, rfl, rfl⟩, trivial, fun _ => ⟨trivial, trivial⟩⟩
      · left
        simp only [startCall]
        split_ifs with h1 h2
        · exact ⟨⟨rfl, rfl, rfl⟩, rfl, fun _ => ⟨rfl, rfl⟩⟩
        · exact ⟨⟨rfl, rfl, rfl⟩, rfl, fun _ => ⟨rfl, rfl⟩⟩
        · exact absurd ⟨not_not.mp h1, not_not.mp h2⟩ hok

theorem resumeCall_cases {s : PaymentChannel ℕ} {frame : SignedFrame} {event : SignedEvent}
    {r : PaymentChannel ℕ × Task SignedFrame SignedResult} (h : s.resumeCall true frame event = some r) :
    (Inert r.2 ∧ r.1 = s ∧ r.2.result?.bind creditOf = none ∧
      (∀ claim signature, frame = .signingAck claim → event ≠ .signed signature) ∧
      ∀ update amount signature, frame = .verifyingUpdate update amount (some signature) →
        event ≠ .verified true) ∨
    (∃ update amount signature, frame = .verifyingUpdate update amount (some signature) ∧
      event = .verified true ∧
      r = (s.applyReceive update.sequence amount, .returned (.received update.sequence))) ∨
    (∃ claim signature, frame = .signingClaim claim ∧ r = (s, .returned (.claim claim signature))) ∨
    (∃ claim signature, frame = .verifyingClaim claim (some signature) ∧
      r = (s, .waiting (.signingAck claim))) ∨
    (∃ claim signature, frame = .signingAck claim ∧ event = .signed signature ∧
      r = ({ s with state := .closed }, .returned (.ack claim signature))) ∨
    ∃ ack signature, frame = .verifyingAck ack (some signature) ∧ s.matchesAck ack = true ∧
      r = ({ s with state := .closed }, .returned (.settlement (s.claimFields ack.closedAt))) := by
  have hinert : ∀ t : Task SignedFrame SignedResult, Inert t → t.result?.bind creditOf = none →
      (∀ claim signature, frame = .signingAck claim → event ≠ .signed signature) →
      (∀ update amount signature, frame = .verifyingUpdate update amount (some signature) →
        event ≠ .verified true) → r = (s, t) → Inert r.2 ∧ r.1 = s ∧ r.2.result?.bind creditOf = none ∧
      (∀ claim signature, frame = .signingAck claim → event ≠ .signed signature) ∧
      ∀ update amount signature, frame = .verifyingUpdate update amount (some signature) →
        event ≠ .verified true := by
    rintro t ht hc h₁ h₂ rfl
    exact ⟨ht, rfl, hc, h₁, h₂⟩
  unfold resumeCall at h
  split at h
  · exact Or.inl (hinert _ ⟨rfl, rfl, rfl⟩ rfl (fun _ _ hf => (by cases hf)) (fun _ _ _ hf => (by cases hf))
      (Option.some.inj h).symm)
  · rename_i update amount signature valid
    split_ifs at h with hvalid
    · rw [Bool.and_eq_true] at hvalid
      obtain ⟨rfl, hsome⟩ := hvalid
      obtain ⟨bytes, rfl⟩ := Option.isSome_iff_exists.mp hsome
      exact Or.inr (Or.inl ⟨update, amount, bytes, rfl, rfl, (Option.some.inj h).symm⟩)
    · refine Or.inl (hinert _ ⟨rfl, rfl, rfl⟩ rfl (fun _ _ hf => (by cases hf)) ?_ (Option.some.inj h).symm)
      rintro update' amount' bytes hframe hevent
      cases hframe
      cases hevent
      exact hvalid rfl
  · rename_i claim signature
    exact Or.inr (Or.inr (Or.inl ⟨claim, signature, rfl, (Option.some.inj h).symm⟩))
  · rename_i claim signature valid
    split_ifs at h with hvalid hmatch hsigns
    · exact Or.inl (hinert _ ⟨rfl, rfl, rfl⟩ rfl (fun _ _ hf => (by cases hf))
        (fun _ _ _ hf => (by cases hf)) (Option.some.inj h).symm)
    · exact Or.inl (hinert _ ⟨rfl, rfl, rfl⟩ rfl (fun _ _ hf => (by cases hf))
        (fun _ _ _ hf => (by cases hf)) (Option.some.inj h).symm)
    · cases hsigns
    · cases signature with
      | none => simp at hvalid
      | some bytes => exact Or.inr (Or.inr (Or.inr (Or.inl ⟨claim, bytes, rfl, (Option.some.inj h).symm⟩)))
  · rename_i claim signature
    exact Or.inr (Or.inr (Or.inr (Or.inr (Or.inl ⟨claim, signature, rfl, rfl, (Option.some.inj h).symm⟩))))
  · rename_i ack signature valid
    split_ifs at h with hvalid hmatch
    · exact Or.inl (hinert _ ⟨rfl, rfl, rfl⟩ rfl (fun _ _ hf => (by cases hf))
        (fun _ _ _ hf => (by cases hf)) (Option.some.inj h).symm)
    · exact Or.inl (hinert _ ⟨rfl, rfl, rfl⟩ rfl (fun _ _ hf => (by cases hf))
        (fun _ _ _ hf => (by cases hf)) (Option.some.inj h).symm)
    · cases signature with
      | none => simp at hvalid
      | some bytes =>
          refine Or.inr (Or.inr (Or.inr (Or.inr (Or.inr ⟨ack, bytes, rfl, ?_, (Option.some.inj h).symm⟩))))
          simpa using hmatch
  · exact Or.inl (hinert _ ⟨rfl, rfl, rfl⟩ rfl (fun _ _ _ => SignedEvent.noConfusion)
      (fun _ _ _ _ => SignedEvent.noConfusion) (Option.some.inj h).symm)
  · cases h

/-! ### The invariant -/

/-- At most one of the tasks signs, or has signed, a claim of its own. -/
def Single (tasks : List (Task SignedFrame SignedResult)) : Prop :=
  ∀ (i j : ℕ) t t', tasks[i]? = some t → tasks[j]? = some t' → pledge t ≠ none → pledge t' ≠ none → i = j

theorem Single.append {tasks : List (Task SignedFrame SignedResult)} (h : Single tasks)
    {new : Task SignedFrame SignedResult} (hnew : pledge new ≠ none → ∀ t ∈ tasks, pledge t = none) :
    Single (tasks ++ [new]) := by
  intro i j t t' hi hj ht ht'
  rw [List.getElem?_append] at hi hj
  split_ifs at hi hj with hlti hltj hltj
  · exact h i j t t' hi hj ht ht'
  · obtain rfl := List.mem_singleton.mp (List.mem_of_getElem? hj)
    exact absurd (hnew ht' t (List.mem_of_getElem? hi)) ht
  · obtain rfl := List.mem_singleton.mp (List.mem_of_getElem? hi)
    exact absurd (hnew ht t' (List.mem_of_getElem? hj)) ht'
  · have hi' := (List.getElem?_eq_some_iff.mp hi).1
    have hj' := (List.getElem?_eq_some_iff.mp hj).1
    simp only [List.length_singleton] at hi' hj'
    omega

theorem Single.set {tasks : List (Task SignedFrame SignedResult)} (h : Single tasks) {k : ℕ}
    {old new : Task SignedFrame SignedResult} (hold : tasks[k]? = some old)
    (hnew : pledge new ≠ none → pledge old ≠ none) : Single (tasks.set k new) := by
  have hbefore : ∀ (i : ℕ) t, (tasks.set k new)[i]? = some t → pledge t ≠ none →
      ∃ t₀, tasks[i]? = some t₀ ∧ pledge t₀ ≠ none := by
    intro i t hi ht
    rw [List.getElem?_set] at hi
    split_ifs at hi with hk hlt
    · obtain rfl := Option.some.inj hi
      exact ⟨old, hk ▸ hold, hnew ht⟩
    · exact ⟨t, hi, ht⟩
  intro i j t t' hi hj ht ht'
  obtain ⟨t₀, hi₀, ht₀⟩ := hbefore i t hi ht
  obtain ⟨t₁, hj₁, ht₁⟩ := hbefore j t' hj ht'
  exact h i j t₀ t₁ hi₀ hj₁ ht₀ ht₁

/-- What holds between two ends whatever happens to their balances. -/
structure Inv (w : ClosingEnds) : Prop where
  /-- An open end has signed no claim of its own. -/
  unpledged : ∀ x, (w x).shared.state = .open' → ∀ t ∈ (w x).tasks, pledge t = none
  /-- An end signs at most one claim of its own. -/
  single : ∀ x, Single (w x).tasks
  /-- A claim that an end has taken up is signed by the other. -/
  claimed : ∀ x, ∀ t ∈ (w x).tasks, ∀ claim, engagement t = some claim → Claimed (w x.other) claim
  /-- Only one of the ends has taken up a claim. -/
  oneSide : ∀ x, (∀ t ∈ (w x).tasks, engagement t = none) ∨ ∀ t ∈ (w x.other).tasks, engagement t = none
  /-- An acknowledgement that an end checks is signed by the other. -/
  confirmed : ∀ x, ∀ t ∈ (w x).tasks, ∀ ack, confirmation t = some ack → Acked (w x.other) ack

section invariant
variable {w w' : ClosingEnds} {x : Side}
variable {claim claim' : CloseClaim ℕ}

theorem Inv.claim_unique (h : Inv w) (hc : Claimed (w x) claim) (hc' : Claimed (w x) claim') : claim = claim' := by
  obtain ⟨signature, hmem⟩ := hc
  obtain ⟨signature', hmem'⟩ := hc'
  obtain ⟨i, hi⟩ := List.getElem?_of_mem hmem
  obtain ⟨j, hj⟩ := List.getElem?_of_mem hmem'
  have hij := h.single x i j _ _ hi hj (by simp [pledge]) (by simp [pledge])
  rw [hij, hj] at hi
  cases hi
  rfl

theorem Inv.not_both_acked (h : Inv w) (hx : Acked (w x) claim) (hy : Acked (w x.other) claim') : False := by
  obtain ⟨signature, hmem⟩ := hx
  obtain ⟨signature', hmem'⟩ := hy
  rcases h.oneSide x with hnone | hnone
  · cases hnone _ hmem
  · cases hnone _ hmem'

variable {log : SignedLog}

theorem Inv.not_both_acked_update (h : Inv (Function.update w x log))
    (hx : Acked log claim) (hy : Acked (w x.other) claim') : False := by
  have hx' : Acked (Function.update w x log x) claim := by rwa [Function.update_self]
  have hy' : Acked (Function.update w x log x.other) claim' := by rwa [Function.update_of_ne x.other_ne]
  exact h.not_both_acked hx' hy'

theorem Inv.claimed_of_acked (h : Inv w) (hx : Acked (w x) claim) :
    Claimed (w x.other) claim := by
  obtain ⟨signature, hmem⟩ := hx
  exact h.claimed x _ hmem claim rfl

theorem Inv.mirrored (h : Inv w) (hx : SettledOn (w x) (w x.other)) (hy : SettledOn (w x.other) (w x)) :
    (w x).shared.localBalance = (w x.other).shared.remoteBalance := by
  rcases hx with ⟨claim, hclaimed, hacked, hlocal, hremote⟩ | ⟨claim, hclaimed, hacked, hlocal, hremote⟩
  · rcases hy with ⟨claim', -, hacked', -, -⟩ | ⟨claim', hclaimed', -, -, hremote'⟩
    · exact (h.not_both_acked hacked' hacked).elim
    · rw [hlocal, hremote', h.claim_unique hclaimed hclaimed']
  · rcases hy with ⟨claim', hclaimed', -, -, hremote'⟩ | ⟨claim', -, hacked', -, -⟩
    · rw [hlocal, hremote', h.claim_unique hclaimed hclaimed']
    · exact (h.not_both_acked hacked hacked').elim

theorem Inv.update (h : Inv w) {new : Task SignedFrame SignedResult}
    (hsub : ∀ t ∈ log.tasks, t ∈ (w x).tasks ∨ t = new)
    (hreturned : ∀ r, .returned r ∈ (w x).tasks → .returned r ∈ log.tasks)
    (hopen : log.shared.state = .open' → (w x).shared.state = .open' ∧ pledge new = none) (hsingle : Single log.tasks)
    (hengaged : ∀ claim, engagement new = some claim →
      Claimed (w x.other) claim ∧ ∀ t ∈ (w x.other).tasks, engagement t = none)
    (hconfirmed : ∀ ack, confirmation new = some ack → Acked (w x.other) ack) :
    Inv (Function.update w x log) := by
  have hother : Function.update w x log x.other = w x.other := Function.update_of_ne x.other_ne _ _
  have hone : (∀ t ∈ log.tasks, engagement t = none) ∨ ∀ t ∈ (w x.other).tasks, engagement t = none := by
    cases hnew : engagement new with
    | some claim => exact Or.inr (hengaged claim hnew).2
    | none =>
        refine (h.oneSide x).imp (fun hall t ht => ?_) id
        rcases hsub t ht with ht | rfl
        · exact hall t ht
        · exact hnew
  constructor
  · intro y hy t ht
    rcases x.eq_or_eq_other y with rfl | rfl
    · rw [Function.update_self] at hy ht
      obtain ⟨hbefore, hnew⟩ := hopen hy
      rcases hsub t ht with ht | rfl
      · exact h.unpledged y hbefore t ht
      · exact hnew
    · rw [hother] at hy ht
      exact h.unpledged x.other hy t ht
  · intro y
    rcases x.eq_or_eq_other y with rfl | rfl
    · rw [Function.update_self]
      exact hsingle
    · rw [hother]
      exact h.single x.other
  · intro y t ht claim hclaim
    rcases x.eq_or_eq_other y with rfl | rfl
    · rw [hother]
      rw [Function.update_self] at ht
      rcases hsub t ht with ht | rfl
      · exact h.claimed y t ht claim hclaim
      · exact (hengaged claim hclaim).1
    · rw [hother] at ht
      obtain ⟨signature, hmem⟩ := h.claimed x.other t ht claim hclaim
      rw [Side.other_other] at hmem ⊢
      rw [Function.update_self]
      exact ⟨signature, hreturned _ hmem⟩
  · intro y
    rcases x.eq_or_eq_other y with rfl | rfl
    · rw [hother, Function.update_self]
      exact hone
    · rw [hother, Side.other_other, Function.update_self]
      exact hone.symm
  · intro y t ht ack hack
    rcases x.eq_or_eq_other y with rfl | rfl
    · rw [hother]
      rw [Function.update_self] at ht
      rcases hsub t ht with ht | rfl
      · exact h.confirmed y t ht ack hack
      · exact hconfirmed ack hack
    · rw [hother] at ht
      obtain ⟨signature, hmem⟩ := h.confirmed x.other t ht ack hack
      rw [Side.other_other] at hmem ⊢
      rw [Function.update_self]
      exact ⟨signature, hreturned _ hmem⟩

variable {a : Action SignedCall SignedEvent}

theorem step_eq_some (h : step w (x, a) = some w') :
    Sent (w x.other) a ∧ ∃ log, (signedCalls true).step (w x) a = some log ∧
      w' = Function.update w x log := by
  simp only [step] at h
  split_ifs at h with hsent
  obtain ⟨log, hlog, rfl⟩ := Option.map_eq_some_iff.mp h
  exact ⟨hsent, log, hlog, rfl⟩

variable {frame : SignedFrame}

theorem returned_mem_set {tasks : List (Task SignedFrame SignedResult)} {i : ℕ}
    {r : SignedResult} (hframe : tasks[i]? = some (.waiting frame)) (new : Task SignedFrame SignedResult)
    (h : .returned r ∈ tasks) : .returned r ∈ tasks.set i new := by
  obtain ⟨j, hj⟩ := List.getElem?_of_mem h
  have hne : i ≠ j := by
    rintro rfl
    rw [hframe] at hj
    cases hj
  exact List.mem_of_getElem? ((List.getElem?_set_ne hne).trans hj)

theorem Inv.not_open_of_claimed (h : Inv w) (hc : Claimed (w x) claim) :
    (w x).shared.state ≠ .open' := by
  obtain ⟨signature, hmem⟩ := hc
  intro hopen
  cases h.unpledged x hopen _ hmem

/-- Every step keeps the invariant. -/
theorem Inv.step (h : Inv w) (hstep : step w (x, a) = some w') :
    Inv w' := by
  obtain ⟨hsent, log, hlog, rfl⟩ := step_eq_some hstep
  cases a with
  | start call =>
      obtain ⟨r, hr, rfl⟩ := Program.step_start hlog
      obtain rfl := Option.some.inj hr
      have hsub : ∀ t ∈ (w x).tasks ++ [((w x).shared.startCall true call).2],
          t ∈ (w x).tasks ∨ t = ((w x).shared.startCall true call).2 := fun t ht =>
        (List.mem_append.mp ht).imp id List.mem_singleton.mp
      have hreturned : ∀ r, .returned r ∈ (w x).tasks →
          .returned r ∈ (w x).tasks ++ [((w x).shared.startCall true call).2] := fun r hr =>
        List.mem_append_left _ hr
      rcases startCall_cases (w x).shared call with ⟨⟨hp, he, hc⟩, hstate, -⟩ | ⟨now, hopen, heq⟩ |
        ⟨claim, signature, rfl, hopen, heq⟩ | ⟨ack, signature, rfl, heq⟩
      · refine h.update hsub hreturned (fun ho => ⟨hstate.symm.trans ho, hp⟩)
          ((h.single x).append fun hne => absurd hp hne) (fun claim hclaim => ?_) (fun ack hack => ?_)
        · rw [he] at hclaim
          cases hclaim
        · rw [hc] at hack
          cases hack
      · refine h.update hsub hreturned (fun ho => ?_)
          ((h.single x).append fun _ => h.unpledged x hopen) (fun claim hclaim => ?_) (fun ack hack => ?_)
        · rw [heq] at ho
          cases ho
        · rw [heq] at hclaim
          cases hclaim
        · rw [heq] at hack
          cases hack
      · -- the claim that is taken up was sent, so the other end is no longer open
        have hclaimed : Claimed (w x.other) claim := ⟨signature, hsent⟩
        refine h.update hsub hreturned (fun _ => ⟨hopen, by rw [heq]; rfl⟩)
          ((h.single x).append fun hne => ?_) (fun claim' hclaim => ?_) (fun ack hack => ?_)
        · rw [heq] at hne
          exact absurd rfl hne
        · rw [heq] at hclaim
          cases hclaim
          refine ⟨hclaimed, fun t ht => ?_⟩
          by_contra hne
          obtain ⟨claim', hclaim'⟩ := Option.ne_none_iff_exists'.mp hne
          have hown := h.claimed x.other t ht claim' hclaim'
          rw [Side.other_other] at hown
          exact h.not_open_of_claimed hown hopen
        · rw [heq] at hack
          cases hack
      · refine h.update hsub hreturned (fun ho => ⟨?_, by rw [heq]; rfl⟩)
          ((h.single x).append fun hne => ?_) (fun claim hclaim => ?_) (fun ack' hack => ?_)
        · rw [heq] at ho
          exact ho
        · rw [heq] at hne
          exact absurd rfl hne
        · rw [heq] at hclaim
          cases hclaim
        · rw [heq] at hack
          cases hack
          exact ⟨signature, hsent⟩
  | resume i event =>
      obtain ⟨frame, r, hframe, hr, rfl⟩ := Program.step_resume hlog
      have hsub : ∀ t ∈ (w x).tasks.set i r.2, t ∈ (w x).tasks ∨ t = r.2 := fun t ht =>
        List.mem_or_eq_of_mem_set ht
      have hreturned : ∀ r', .returned r' ∈ (w x).tasks → .returned r' ∈ (w x).tasks.set i r.2 :=
        fun r' hr' => returned_mem_set hframe r.2 hr'
      have hmem := List.mem_of_getElem? hframe
      rcases resumeCall_cases hr with ⟨⟨hp, he, hc⟩, hs, -⟩ | ⟨update, amount, signature, rfl, -, rfl⟩ |
        ⟨claim, signature, rfl, rfl⟩ | ⟨claim, signature, rfl, rfl⟩ | ⟨claim, signature, rfl, -, rfl⟩ |
        ⟨ack, signature, rfl, -, rfl⟩
      · refine h.update hsub hreturned (fun ho => ⟨?_, hp⟩)
          ((h.single x).set hframe fun hne => absurd hp hne) (fun claim hclaim => ?_) (fun ack hack => ?_)
        · rw [← hs]
          exact ho
        · rw [he] at hclaim
          cases hclaim
        · rw [hc] at hack
          cases hack
      · exact h.update hsub hreturned (fun ho => ⟨ho, rfl⟩)
          ((h.single x).set hframe fun hne => absurd rfl hne) (fun claim hclaim => (by cases hclaim))
          (fun ack hack => (by cases hack))
      · refine h.update hsub hreturned (fun ho => ?_) ((h.single x).set hframe fun _ => by simp [pledge])
          (fun claim hclaim => (by cases hclaim)) (fun ack hack => (by cases hack))
        cases h.unpledged x ho _ hmem
      · -- the claim has been taken up before
        have hclaimed := h.claimed x _ hmem claim rfl
        refine h.update hsub hreturned (fun ho => ⟨ho, rfl⟩)
          ((h.single x).set hframe fun hne => absurd rfl hne) (fun claim' hclaim => ?_)
          (fun ack hack => (by cases hack))
        cases hclaim
        refine ⟨hclaimed, (h.oneSide x).resolve_left fun hall => ?_⟩
        cases hall _ hmem
      · have hclaimed := h.claimed x _ hmem claim rfl
        refine h.update hsub hreturned (fun ho => (by cases ho))
          ((h.single x).set hframe fun hne => absurd rfl hne) (fun claim' hclaim => ?_)
          (fun ack hack => (by cases hack))
        cases hclaim
        refine ⟨hclaimed, (h.oneSide x).resolve_left fun hall => ?_⟩
        cases hall _ hmem
      · exact h.update hsub hreturned (fun ho => (by cases ho))
          ((h.single x).set hframe fun hne => absurd rfl hne) (fun claim hclaim => (by cases hclaim))
          (fun ack hack => (by cases hack))

/-! ### One step -/

theorem SettledOn.mono {own other own' other' : SignedLog} (h : SettledOn own other)
    (hlocal : own'.shared.localBalance = own.shared.localBalance)
    (hremote : own'.shared.remoteBalance = own.shared.remoteBalance)
    (hown : ∀ r, .returned r ∈ own.tasks → .returned r ∈ own'.tasks)
    (hother : ∀ r, .returned r ∈ other.tasks → .returned r ∈ other'.tasks) : SettledOn own' other' := by
  rcases h with ⟨claim, ⟨s₁, h₁⟩, ⟨s₂, h₂⟩, hl, hr⟩ | ⟨claim, ⟨s₁, h₁⟩, ⟨s₂, h₂⟩, hl, hr⟩
  · exact Or.inl ⟨claim, ⟨s₁, hown _ h₁⟩, ⟨s₂, hother _ h₂⟩, hlocal.trans hl, hremote.trans hr⟩
  · exact Or.inr ⟨claim, ⟨s₁, hother _ h₁⟩, ⟨s₂, hown _ h₂⟩, hlocal.trans hl, hremote.trans hr⟩

theorem settled_update (h : ∀ y, (w y).shared.state = .closed → SettledOn (w y) (w y.other))
    (hreturned : ∀ r, .returned r ∈ (w x).tasks → .returned r ∈ log.tasks)
    (hx : log.shared.state = .closed → SettledOn log (w x.other)) (y : Side)
    (hy : (Function.update w x log y).shared.state = .closed) :
    SettledOn (Function.update w x log y) (Function.update w x log y.other) := by
  have hother : Function.update w x log x.other = w x.other := Function.update_of_ne x.other_ne _ _
  rcases x.eq_or_eq_other y with rfl | rfl
  · rw [Function.update_self] at hy ⊢
    rw [hother]
    exact hx hy
  · rw [hother] at hy ⊢
    have hbefore := h x.other hy
    rw [Side.other_other] at hbefore ⊢
    rw [Function.update_self]
    exact hbefore.mono rfl rfl (fun _ => id) hreturned

theorem keepsClosed_update_iff : KeepsClosed w (Function.update w x log) ↔
    ((w x).shared.state = .closed → log.shared.localBalance = (w x).shared.localBalance ∧
      log.shared.remoteBalance = (w x).shared.remoteBalance ∧ (credited log).Perm (credited (w x))) := by
  constructor
  · intro h hx
    have hkept := h x hx
    rwa [Function.update_self] at hkept
  · intro h y hy
    rcases x.eq_or_eq_other y with rfl | rfl
    · rw [Function.update_self]
      exact h hy
    · rw [Function.update_of_ne x.other_ne]
      exact ⟨rfl, rfl, List.Perm.refl _⟩

theorem undisturbed_start (call : SignedCall) : Undisturbed w (x, .start call) := by
  intro i event ha
  cases ha

theorem undisturbed_resume_iff {i : ℕ} {event : SignedEvent} (hframe : (w x).tasks[i]? = some (.waiting frame)) :
    Undisturbed w (x, .resume i event) ↔
      (∀ claim signature, frame = .signingAck claim → event = .signed signature →
        (w x).shared.localBalance = claim.finalRemoteBalance ∧
        (w x).shared.remoteBalance = claim.finalLocalBalance) ∧
      ∀ update amount signature, frame = .verifyingUpdate update amount (some signature) →
        event = .verified true → (w x).shared.state ≠ .closed := by
  constructor
  · intro h
    obtain ⟨hack, hupdate⟩ := h i event rfl
    refine ⟨fun claim signature hf he => ?_, fun update amount signature hf he => ?_⟩
    · exact hack claim signature he (hf ▸ hframe)
    · exact hupdate update amount signature he (hf ▸ hframe)
  · rintro ⟨hack, hupdate⟩ j event' ha
    cases ha
    refine ⟨fun claim signature he hj => ?_, fun update amount signature he hj => ?_⟩
    · rw [hframe] at hj
      cases hj
      exact hack claim signature rfl he
    · rw [hframe] at hj
      cases hj
      exact hupdate update amount signature rfl he

theorem credited_start (s : PaymentChannel ℕ) (call : SignedCall)
    (tasks : List (Task SignedFrame SignedResult)) :
    credited ⟨(s.startCall true call).1, tasks ++ [(s.startCall true call).2]⟩ = credited ⟨s, tasks⟩ := by
  rw [credited, collect_start creditOf s, (startCall_spec true s call).1]
  simp [credited]

theorem credited_resume {i : ℕ} (s : PaymentChannel ℕ)
    {t : Task SignedFrame SignedResult} (hframe : log.tasks[i]? = some (.waiting frame))
    (ht : t.result?.bind creditOf = none) :
    (credited ⟨s, log.tasks.set i t⟩).Perm (credited log) := by
  have hperm := collect_resume creditOf log.shared s t hframe
  rw [ht] at hperm
  simpa [credited] using hperm

theorem balances_of_matchesAck {s : PaymentChannel ℕ} {ack : CloseClaim ℕ} (h : s.matchesAck ack = true) :
    s.localBalance = ack.finalLocalBalance ∧ s.remoteBalance = ack.finalRemoteBalance := by
  rw [matchesAck, Bool.and_eq_true, JsNumber.eq, JsNumber.eq, decide_eq_true_iff, decide_eq_true_iff] at h
  exact ⟨h.1.2.symm, h.2.2.symm⟩

/-- From the invariant, a step of settled ends keeps the agreement exactly when it is undisturbed. -/
theorem settles_step_iff (h : Inv w) (hsettled : ∀ y, (w y).shared.state = .closed →
    SettledOn (w y) (w y.other)) (hstep : step w (x, a) = some w') :
    (Agreement w' ∧ KeepsClosed w w' ↔ Undisturbed w (x, a)) := by
  have hinv := h.step hstep
  obtain ⟨-, log, hlog, rfl⟩ := step_eq_some hstep
  -- the end that moves is closed only with a settlement, and keeps to it
  have hgood : (∀ r, .returned r ∈ (w x).tasks → .returned r ∈ log.tasks) →
      (log.shared.state = .closed → SettledOn log (w x.other)) →
      ((w x).shared.state = .closed → log.shared.localBalance = (w x).shared.localBalance ∧
        log.shared.remoteBalance = (w x).shared.remoteBalance ∧ (credited log).Perm (credited (w x))) →
      Agreement (Function.update w x log) ∧ KeepsClosed w (Function.update w x log) := by
    intro hreturned hx hkeeps
    have hall := settled_update hsettled hreturned hx
    refine ⟨⟨hall, fun y hy hy' => hinv.mirrored (hall y hy) ?_⟩, keepsClosed_update_iff.mpr hkeeps⟩
    have hback := hall y.other hy'
    rwa [Side.other_other] at hback
  cases a with
  | start call =>
      obtain ⟨r, hr, rfl⟩ := Program.step_start hlog
      obtain rfl := Option.some.inj hr
      refine iff_of_true (hgood (fun r hr => List.mem_append_left _ hr) (fun hclosed => ?_)
        (fun hclosed => ?_)) (undisturbed_start call)
      · have hx : (w x).shared.state = .closed ∧
            ((w x).shared.startCall true call).1.localBalance = (w x).shared.localBalance ∧
            ((w x).shared.startCall true call).1.remoteBalance = (w x).shared.remoteBalance := by
          rcases startCall_cases (w x).shared call with ⟨-, hstate, hkeep⟩ | ⟨now, -, heq⟩ |
            ⟨claim, signature, -, -, heq⟩ | ⟨ack, signature, -, heq⟩
          · have hbefore := hstate.symm.trans hclosed
            exact ⟨hbefore, hkeep (by rw [hbefore]; decide)⟩
          · rw [heq] at hclosed
            cases hclosed
          · rw [heq] at hclosed ⊢
            exact ⟨hclosed, rfl, rfl⟩
          · rw [heq] at hclosed ⊢
            exact ⟨hclosed, rfl, rfl⟩
        exact (hsettled x hx.1).mono hx.2.1 hx.2.2 (fun r hr => List.mem_append_left _ hr) fun _ => id
      · obtain ⟨-, -, hkeep⟩ := startCall_spec true (w x).shared call
        have hbalances := hkeep (by rw [hclosed]; decide)
        exact ⟨hbalances.1, hbalances.2, List.Perm.of_eq (credited_start _ _ _)⟩
  | resume i event =>
      obtain ⟨frame, r, hframe, hr, rfl⟩ := Program.step_resume hlog
      rw [undisturbed_resume_iff hframe]
      have hmem := List.mem_of_getElem? hframe
      have hreturned : ∀ r', .returned r' ∈ (w x).tasks → .returned r' ∈ (w x).tasks.set i r.2 :=
        fun r' hr' => returned_mem_set hframe r.2 hr'
      -- a call that leaves the channel as it is
      have hquiet : r.1 = (w x).shared → r.2.result?.bind creditOf = none →
          Agreement (Function.update w x ⟨r.1, (w x).tasks.set i r.2⟩) ∧
            KeepsClosed w (Function.update w x ⟨r.1, (w x).tasks.set i r.2⟩) := by
        intro hs hnone
        refine hgood hreturned (fun hclosed => ?_) (fun _ => ⟨?_, ?_, credited_resume _ hframe hnone⟩)
        · exact (hsettled x (hs ▸ hclosed)).mono (by rw [hs]) (by rw [hs]) hreturned fun _ => id
        · rw [hs]
        · rw [hs]
      rcases resumeCall_cases hr with ⟨-, hs, hnone, hack, hupdate⟩ |
        ⟨update, amount, signature, rfl, rfl, rfl⟩ | ⟨claim, signature, rfl, rfl⟩ |
        ⟨claim, signature, rfl, rfl⟩ | ⟨claim, signature, rfl, rfl, rfl⟩ | ⟨ack, signature, rfl, hmatch, rfl⟩
      · exact iff_of_true (hquiet hs hnone) ⟨fun claim signature hf he => absurd he (hack claim signature hf),
          fun update amount signature hf he => absurd he (hupdate update amount signature hf)⟩
      · -- the update is applied; a closed end may not be credited
        constructor
        · rintro ⟨-, hkeeps⟩
          refine ⟨fun claim signature hf => (by cases hf), fun _ _ _ _ _ hclosed => ?_⟩
          have hcollect := collect_resume creditOf (w x).shared
            ((w x).shared.applyReceive update.sequence amount)
            (.returned (.received update.sequence)) hframe
          have hperm := (keepsClosed_update_iff.mp hkeeps hclosed).2.2
          have hlength := (hcollect.symm.trans hperm).length_eq
          rw [List.length_append] at hlength
          exact absurd hlength (Nat.succ_ne_self _)
        · rintro ⟨-, hopen⟩
          have hne := hopen update amount signature rfl rfl
          exact hgood hreturned (fun hclosed => absurd hclosed hne) fun hclosed => absurd hclosed hne
      · exact iff_of_true (hquiet rfl rfl)
          ⟨fun claim signature hf => (by cases hf), fun update amount signature hf => (by cases hf)⟩
      · exact iff_of_true (hquiet rfl rfl)
          ⟨fun claim signature hf => (by cases hf), fun update amount signature hf => (by cases hf)⟩
      · -- the responder closes
        have hclaimed := h.claimed x _ hmem claim rfl
        have hacked : Acked ⟨{ (w x).shared with state := .closed },
            (w x).tasks.set i (.returned (.ack claim signature))⟩ claim :=
          ⟨signature, List.mem_set (List.getElem?_eq_some_iff.mp hframe).1 _⟩
        constructor
        · rintro ⟨hagree, -⟩
          refine ⟨?_, fun update amount signature hf => (by cases hf)⟩
          rintro claim' signature' hf -
          cases hf
          have hsettledx := hagree.settled x (by rw [Function.update_self])
          have hother : Function.update w x ⟨{ (w x).shared with state := .closed },
              (w x).tasks.set i (.returned (.ack claim signature))⟩ x.other = w x.other :=
            Function.update_of_ne x.other_ne _ _
          rw [Function.update_self, hother] at hsettledx
          rcases hsettledx with ⟨claim', -, hacked', -, -⟩ | ⟨claim', hclaimed', -, hlocal, hremote⟩
          · exact (hinv.not_both_acked_update hacked hacked').elim
          · rw [h.claim_unique hclaimed hclaimed']
            exact ⟨hlocal, hremote⟩
        · rintro ⟨hmirror, -⟩
          obtain ⟨hlocal, hremote⟩ := hmirror claim signature rfl rfl
          exact hgood hreturned (fun _ => Or.inr ⟨claim, hclaimed, hacked, hlocal, hremote⟩)
            fun _ => ⟨rfl, rfl, credited_resume _ hframe rfl⟩
      · -- the initiator closes
        have hacked := h.confirmed x _ hmem ack rfl
        have hclaimed := h.claimed_of_acked hacked
        rw [Side.other_other] at hclaimed
        obtain ⟨s₀, hsigned⟩ := hclaimed
        obtain ⟨hlocal, hremote⟩ := balances_of_matchesAck hmatch
        refine iff_of_true (hgood hreturned (fun _ => Or.inl ?_)
          (fun _ => ⟨rfl, rfl, credited_resume _ hframe rfl⟩)) ?_
        · exact ⟨ack, ⟨s₀, hreturned _ hsigned⟩, hacked, hlocal, hremote⟩
        · exact ⟨fun claim signature hf => (by cases hf), fun update amount signature hf => (by cases hf)⟩

end invariant

theorem inv_start (left right : PaymentChannel ℕ) : Inv (start left right) where
  unpledged _ _ t ht := by cases ht
  single _ i j t t' hi := by cases hi
  claimed _ t ht := by cases ht
  oneSide _ := Or.inl fun t ht => by cases ht
  confirmed _ t ht := by cases ht

/-- Of two ends that sign, every step of an interleaving leaves the closed ones settled on a claim of both,
mirrored, and with the balances they closed with, if and only if an acknowledgement is signed only on
balances that still mirror the claim, and no update is applied to a closed end. -/
theorem mutual_close_iff (left right : PaymentChannel ℕ)
    (actions : List (Side × Action SignedCall SignedEvent)) :
    (machine left right).Along Settles (start left right) actions ↔
      (machine left right).Along Undisturbed (start left right) actions := by
  refine Machine.along_iff_of_invariant
    (I := fun w => Inv w ∧ ∀ y, (w y).shared.state = .closed → SettledOn (w y) (w y.other)) ?_ ?_ actions
  · rintro w ⟨x, a⟩ w' ⟨hinv, hsettled⟩ hstep
    have hiff := settles_step_iff hinv hsettled hstep
    refine ⟨⟨fun h => hiff.mp (h w' hstep), fun h w'' hstep' => ?_⟩,
      fun h => ⟨hinv.step hstep, (hiff.mpr h).1.settled⟩⟩
    obtain rfl := Option.some.inj (hstep.symm.trans hstep')
    exact hiff.mpr h
  · exact ⟨inv_start left right, fun y hy => (by cases hy)⟩

/-- The right end claims, the left end takes the claim up and pays while the acknowledgement is being
signed. -/
def payWhileSigning : List (Side × Action SignedCall SignedEvent) :=
  [(.right, .start (.close 0)), (.right, .resume 0 (.signed [])),
    (.left, .start (.handleCloseMessage ⟨js "c", .ofNat 10, .ofNat 10, 0, 0⟩ (some []))),
    (.left, .resume 0 (.verified true)), (.left, .start (.pay (.ofNat 3) 0))]

theorem pay_while_signing_unsettled :
    ¬ ∀ (left right : PaymentChannel ℕ) (actions : List (Side × Action SignedCall SignedEvent)),
      (machine left right).Along Settles (start left right) actions := by
  intro h
  have hall := h PaymentLink.tenEach PaymentLink.tenEach
    (payWhileSigning ++ [(.left, .resume 0 (.signed []))])
  obtain ⟨w, hrun, -, hafter⟩ := Machine.exists_of_run
    (P := fun w : ClosingEnds => (step w (.left, .resume 0 (.signed []))).map
        (fun w' => ((w' .left).shared.state, (w' .left).shared.localBalance, (w' .left).tasks)) =
      some (.closed, .ofNat 7, [.returned (.ack ⟨js "c", .ofNat 10, .ofNat 10, 0, 0⟩ []),
        .waiting (.signingUpdate ⟨js "c", 1, some (.ofNat 3), .ofNat 7, .ofNat 13, 0⟩)]))
    (show ((machine PaymentLink.tenEach PaymentLink.tenEach).run (fun _ _ => True)
      (machine PaymentLink.tenEach PaymentLink.tenEach).init payWhileSigning).any _ = true by
        decide +kernel)
  obtain ⟨w', hstep, hleft⟩ := Option.map_eq_some_iff.mp hafter
  obtain ⟨hclosed, hlocal, htasks⟩ : (w' .left).shared.state = .closed ∧
      (w' .left).shared.localBalance = .ofNat 7 ∧ (w' .left).tasks = _ := by simpa using hleft
  rcases (hall.last hrun hstep w' hstep).1.settled .left hclosed with
    ⟨claim, ⟨signature, hmem⟩, -⟩ | ⟨claim, -, ⟨signature, hmem⟩, hfinal, -⟩
  · rw [htasks] at hmem
    simp at hmem
  · rw [htasks] at hmem
    obtain ⟨rfl, -⟩ : claim = _ ∧ signature = _ := by simpa using hmem
    rw [hlocal] at hfinal
    exact absurd hfinal (by decide +kernel)

end ClosingEnds
end BrowserMesh.Apps
