import BrowserMesh.Apps.PaymentSolvency
import Mathlib.Logic.Function.Basic

/-! # Two mirrored ends of a payment channel

* **The link.**  Two unsigned ends of one channel with the updates on their way to each of them, delivered
  once and in order.
* **One way at a time.**  As long as no end pays while an update is on its way to it, one end is behind the
  other by exactly the updates in flight (`InFlight`).
* **Crossing.**  The sequence number counts the payments of both ends.  Once payments have crossed, the
  next update is stale at either end, so `converges_iff` is an equivalence. -/

namespace BrowserMesh.Apps
open Js Transition

inductive Side where
  | left | right
  deriving DecidableEq

def Side.other : Side → Side
  | .left => .right
  | .right => .left

@[simp] theorem Side.other_other (x : Side) : x.other.other = x := by cases x <;> rfl

theorem Side.other_ne (x : Side) : x.other ≠ x := by cases x <;> decide

theorem Side.eq_or_eq_other (x y : Side) : y = x ∨ y = x.other := by
  cases x <;> cases y <;> simp [Side.other]

/-- The two ends, the updates on their way to each, and whether payments have crossed. -/
structure PaymentLink where
  ends : Side → PaymentChannel ℕ
  inbox : Side → List (PaymentUpdate ℕ)
  crossed : Bool

inductive LinkAction where
  | pay (x : Side) (amount now : JsNumber)
  | deliver (x : Side)

namespace PaymentLink

/-- A payment goes into the inbox of the other end; a delivery takes the first update out of it. -/
def step (w : PaymentLink) : LinkAction → Option PaymentLink
  | .pay x amount now =>
      match (w.ends x).pay amount now with
      | (s, .ok update) =>
          some ⟨Function.update w.ends x s,
            Function.update w.inbox x.other (w.inbox x.other ++ [update]),
            w.crossed || !(w.inbox x).isEmpty⟩
      | (_, .error _) => some w
  | .deliver x =>
      match w.inbox x with
      | [] => none
      | update :: rest =>
          some { w with
            ends := Function.update w.ends x ((w.ends x).receive update).1
            inbox := Function.update w.inbox x rest }

/-- Two ends opened as mirror images. -/
def start (left right : PaymentChannel ℕ) : PaymentLink :=
  ⟨fun x => if x = .left then left else right, fun _ => [], false⟩

def machine (left right : PaymentChannel ℕ) : Machine PaymentLink LinkAction := ⟨start left right, step⟩

def Quiet (w : PaymentLink) : Prop := ∀ x, w.inbox x = []

def Mirrored (w : PaymentLink) : Prop := ∀ x, (w.ends x).localBalance = (w.ends x.other).remoteBalance

/-- No delivery is rejected, and with no update in flight the ends mirror each other. -/
def Converges (w : PaymentLink) (a : LinkAction) : Prop :=
  ∀ w', w.step a = some w' →
    (∀ x update rest, a = .deliver x → w.inbox x = update :: rest →
      ((w.ends x).receive update).2 = .ok ()) ∧ (w'.Quiet → w'.Mirrored)

/-- Nothing is delivered once payments have crossed, and no amount that is not finite. -/
def OneWay (w : PaymentLink) (a : LinkAction) : Prop :=
  ∀ x update rest, a = .deliver x → w.inbox x = update :: rest →
    w.crossed = false ∧ ∃ amount, update.amount = some amount ∧ amount.isFinite = true

end PaymentLink

/-! ### Being behind -/

namespace PaymentChannel

/-- The receiving end mirrors the sending one once it has taken the updates in. -/
def InFlight (receiver : PaymentChannel ℕ) :
    List (PaymentUpdate ℕ) → PaymentChannel ℕ → Prop
  | [], sender => receiver.localBalance = sender.remoteBalance ∧
      receiver.remoteBalance = sender.localBalance ∧ receiver.sequence = sender.sequence
  | update :: updates, sender => update.channelId = receiver.channelId ∧
      update.sequence = receiver.sequence + 1 ∧
      ∃ amount, update.amount = some amount ∧ amount.le 0 = false ∧
        InFlight (receiver.applyReceive update.sequence amount) updates sender

@[simp] theorem applyReceive_sequence {V : Type} (s : PaymentChannel V) (sequence : V) (amount : JsNumber) :
    (s.applyReceive sequence amount).sequence = sequence := rfl

variable {receiver sender : PaymentChannel ℕ} {updates : List (PaymentUpdate ℕ)}

theorem InFlight.sequence_eq
    (h : InFlight receiver updates sender) : sender.sequence = receiver.sequence + updates.length := by
  induction updates generalizing receiver with
  | nil => exact h.2.2.symm
  | cons update updates ih =>
      obtain ⟨-, hseq, amount, -, -, hrest⟩ := h
      have htail := ih hrest
      rw [List.length_cons, htail, applyReceive_sequence, hseq]
      omega

variable {update : PaymentUpdate ℕ}

/-- What the sender pays is in flight behind the rest. -/
theorem InFlight.concat
    (h : InFlight receiver updates sender) {amount now : JsNumber} (hid : receiver.channelId = sender.channelId)
    (hpay : sender.Payable amount) {sender' : PaymentChannel ℕ}
    (hsent : sender.pay amount now = (sender', .ok update)) :
    InFlight receiver (updates ++ [update]) sender' := by
  rw [pay_of_payable hpay, Prod.mk.injEq] at hsent
  obtain ⟨rfl, hupdate⟩ := hsent
  obtain rfl := Except.ok.inj hupdate
  induction updates generalizing receiver with
  | nil =>
      obtain ⟨hlocal, hremote, hseq⟩ := h
      refine ⟨hid.symm, ?_, amount, rfl, hpay.2.1, ?_, ?_, rfl⟩
      · rw [hseq]
        rfl
      · simp only [applyReceive, hlocal]
      · simp only [applyReceive, hremote]
  | cons u updates ih =>
      obtain ⟨hu, hseq, a, ha, hpos, hrest⟩ := h
      exact ⟨hu, hseq, a, ha, hpos, ih hrest hid⟩

/-- The sender is behind nobody: with nothing in flight the roles can be swapped. -/
theorem InFlight.symm (h : InFlight receiver [] sender) :
    InFlight sender [] receiver := ⟨h.2.1.symm, h.1.symm, h.2.2.symm⟩

/-- The first update in flight is accepted exactly when its amount is finite. -/
theorem InFlight.receivable_iff (h : InFlight receiver (update :: updates) sender)
    (hopen : receiver.state = .open') (amount : JsNumber) :
    receiver.Receivable update amount ↔ update.amount = some amount ∧ amount.isFinite = true := by
  obtain ⟨hid, hseq, a, ha, hpos, -⟩ := h
  constructor
  · rintro ⟨-, -, -, hamount, hfin, -⟩
    exact ⟨hamount, hfin⟩
  · rintro ⟨hamount, hfin⟩
    obtain rfl := Option.some.inj (ha.symm.trans hamount)
    refine ⟨hopen, hid, ?_, ha, hfin, hpos⟩
    simp [SequenceNumber.stale, hseq]

theorem receive_ok_iff {s : PaymentChannel ℕ} :
    (s.receive update).2 = .ok () ↔ ∃ amount, s.Receivable update amount := by
  by_cases h : ∃ amount, s.Receivable update amount
  · obtain ⟨amount, hrec⟩ := h
    rw [receive_of_receivable hrec]
    exact iff_of_true rfl ⟨amount, hrec⟩
  · obtain ⟨e, he⟩ := receive_of_not_receivable (not_exists.mp h)
    rw [he]
    exact iff_of_false (fun hok => (by cases hok)) h

theorem receive_fixed (s : PaymentChannel ℕ) (update : PaymentUpdate ℕ) :
    (s.receive update).1.state = s.state ∧ (s.receive update).1.channelId = s.channelId := by
  unfold receive
  split
  · exact ⟨rfl, rfl⟩
  · exact ⟨rfl, rfl⟩

theorem pay_ok {s s' : PaymentChannel ℕ} {amount now : JsNumber} (h : s.pay amount now = (s', .ok update)) :
    s.Payable amount ∧ s'.state = s.state ∧ s'.channelId = s.channelId ∧
      s'.sequence = s.sequence + 1 ∧ update.sequence = s.sequence + 1 := by
  by_cases hpay : s.Payable amount
  · rw [pay_of_payable hpay, Prod.mk.injEq] at h
    obtain ⟨rfl, hupdate⟩ := h
    obtain rfl := Except.ok.inj hupdate
    exact ⟨hpay, rfl, rfl, rfl, rfl⟩
  · obtain ⟨e, he⟩ := pay_of_not_payable hpay now
    rw [he] at h
    cases h

end PaymentChannel

namespace PaymentLink

/-! ### The invariant -/

/-- Only one end has updates to take in, and these are all that it is behind. -/
def Linear (w : PaymentLink) : Prop :=
  ∃ x, w.inbox x.other = [] ∧ (w.ends x).InFlight (w.inbox x) (w.ends x.other)

/-- Updates are in flight to both ends, and the first of either direction is stale. -/
def Blocked (w : PaymentLink) : Prop :=
  ∀ x, ∃ update rest, w.inbox x = update :: rest ∧ update.sequence ≤ (w.ends x).sequence

structure Inv (c : JsString) (w : PaymentLink) : Prop where
  opened : ∀ x, (w.ends x).state = .open' ∧ (w.ends x).channelId = c
  linear : w.crossed = false → w.Linear
  blocked : w.crossed = true → w.Blocked

variable {c : JsString} {w w' : PaymentLink}

theorem Linear.mirrored (h : w.Linear) (hq : w.Quiet) : w.Mirrored := by
  obtain ⟨x, -, hflight⟩ := h
  rw [hq x] at hflight
  obtain ⟨hlocal, hremote, -⟩ := hflight
  intro y
  rcases x.eq_or_eq_other y with rfl | rfl
  · exact hlocal
  · rw [Side.other_other]
    exact hremote.symm

theorem Linear.deliver_side (h : w.Linear) {y : Side} (hy : w.inbox y ≠ []) :
    w.inbox y.other = [] ∧ (w.ends y).InFlight (w.inbox y) (w.ends y.other) := by
  obtain ⟨x, hempty, hflight⟩ := h
  rcases x.eq_or_eq_other y with rfl | rfl
  · exact ⟨hempty, hflight⟩
  · exact absurd hempty hy

/-- An end with an empty inbox is the one that is not behind. -/
theorem Linear.pay_side (h : w.Linear) {y : Side} (hy : w.inbox y = []) :
    (w.ends y.other).InFlight (w.inbox y.other) (w.ends y) := by
  obtain ⟨x, hempty, hflight⟩ := h
  rcases x.eq_or_eq_other y with rfl | rfl
  · rw [hy] at hflight
    rw [hempty]
    exact hflight.symm
  · rwa [Side.other_other]

theorem step_pay {x : Side} {amount now : JsNumber} (h : w.step (.pay x amount now) = some w') :
    (∃ s update, (w.ends x).pay amount now = (s, .ok update) ∧
      w' = ⟨Function.update w.ends x s, Function.update w.inbox x.other (w.inbox x.other ++ [update]),
        w.crossed || !(w.inbox x).isEmpty⟩) ∨ w' = w := by
  simp only [step] at h
  split at h
  · rename_i s update hpay
    exact Or.inl ⟨s, update, hpay, (Option.some.inj h).symm⟩
  · exact Or.inr (Option.some.inj h).symm

theorem step_deliver {x : Side} (h : w.step (.deliver x) = some w') :
    ∃ update rest, w.inbox x = update :: rest ∧
      w' = { w with ends := Function.update w.ends x ((w.ends x).receive update).1,
                    inbox := Function.update w.inbox x rest } := by
  simp only [step] at h
  split at h
  · cases h
  · rename_i update rest hinbox
    exact ⟨update, rest, hinbox, (Option.some.inj h).symm⟩

/-- A payment keeps the invariant, and it leaves something in flight. -/
theorem Inv.pay (h : Inv c w) {x : Side} {amount now : JsNumber} {s : PaymentChannel ℕ}
    {update : PaymentUpdate ℕ} (hpay : (w.ends x).pay amount now = (s, .ok update)) :
    Inv c ⟨Function.update w.ends x s, Function.update w.inbox x.other (w.inbox x.other ++ [update]),
      w.crossed || !(w.inbox x).isEmpty⟩ := by
  obtain ⟨hpayable, hstate, hid, hseq, hupdate⟩ := PaymentChannel.pay_ok hpay
  have hne := x.other_ne
  constructor
  · intro y
    rcases x.eq_or_eq_other y with rfl | rfl
    · simp only [Function.update_self]
      exact ⟨hstate.trans (h.opened y).1, hid.trans (h.opened y).2⟩
    · simp only [Function.update_of_ne hne]
      exact h.opened x.other
  · intro hcrossed
    simp only [Bool.or_eq_false_iff, Bool.not_eq_false', List.isEmpty_iff] at hcrossed
    refine ⟨x.other, ?_, ?_⟩
    · simp [Function.update_of_ne hne.symm, hcrossed.2]
    · have hflight := (h.linear hcrossed.1).pay_side hcrossed.2
      simp only [Function.update_self, Function.update_of_ne hne, Side.other_other]
      exact hflight.concat ((h.opened x.other).2.trans (h.opened x).2.symm) hpayable hpay
  · intro hcrossed y
    by_cases hbefore : w.crossed = true
    · obtain ⟨u, rest, hinbox, hstale⟩ := h.blocked hbefore y
      rcases x.eq_or_eq_other y with rfl | rfl
      · refine ⟨u, rest, by simp [Function.update_of_ne hne.symm, hinbox], ?_⟩
        simp only [Function.update_self, hseq]
        omega
      · refine ⟨u, rest ++ [update], by simp [hinbox], ?_⟩
        simpa only [Function.update_of_ne hne] using hstale
    · have hcross : w.inbox x ≠ [] := by
        rw [Bool.not_eq_true] at hbefore
        simpa [hbefore] using hcrossed
      obtain ⟨hempty, hflight⟩ := (h.linear (Bool.eq_false_iff.mpr hbefore)).deliver_side hcross
      have hlen := hflight.sequence_eq
      obtain ⟨u, rest, hinbox⟩ := List.exists_cons_of_ne_nil hcross
      rw [hinbox] at hflight hlen
      rcases x.eq_or_eq_other y with rfl | rfl
      · refine ⟨u, rest, by simp [Function.update_of_ne hne.symm, hinbox], ?_⟩
        simp only [Function.update_self, hseq]
        exact hflight.2.1.le
      · refine ⟨update, [], by simp [hempty], ?_⟩
        simp only [Function.update_of_ne hne]
        rw [hupdate, hlen, List.length_cons]
        omega

/-- From the invariant, a step converges exactly when it delivers nothing after a crossing and no amount
that is not finite; then it keeps the invariant. -/
theorem converges_step_iff (h : Inv c w) {a : LinkAction} (hstep : w.step a = some w') :
    (w.Converges a ↔ w.OneWay a) ∧ (w.OneWay a → Inv c w') := by
  have hmirrored : Inv c w → w.Quiet → w.Mirrored := by
    intro hinv hquiet
    cases hcrossed : w.crossed with
    | false => exact (hinv.linear hcrossed).mirrored hquiet
    | true =>
        obtain ⟨u, rest, hinbox, -⟩ := hinv.blocked hcrossed .left
        rw [hquiet] at hinbox
        cases hinbox
  cases a with
  | pay x amount now =>
      have honeway : w.OneWay (.pay x amount now) := fun y update rest ha _ => (by cases ha)
      have hconv : w.Converges (.pay x amount now) := by
        intro w'' hstep'
        refine ⟨fun y update rest ha _ => (by cases ha), fun hquiet => ?_⟩
        rcases step_pay hstep' with ⟨s, update, hpay, rfl⟩ | rfl
        · have hinbox := hquiet x.other
          simp at hinbox
        · exact hmirrored h hquiet
      refine ⟨iff_of_true hconv honeway, fun _ => ?_⟩
      rcases step_pay hstep with ⟨s, update, hpay, rfl⟩ | rfl
      · exact h.pay hpay
      · exact h
  | deliver x =>
      obtain ⟨update, rest, hinbox, rfl⟩ := step_deliver hstep
      have hside : ∀ {y u r}, LinkAction.deliver x = .deliver y → w.inbox y = u :: r →
          y = x ∧ u = update ∧ r = rest := by
        rintro y u r hxy hy
        cases hxy
        rw [hinbox] at hy
        cases hy
        exact ⟨rfl, rfl, rfl⟩
      have hinv : w.OneWay (.deliver x) → Inv c { w with
          ends := Function.update w.ends x ((w.ends x).receive update).1
          inbox := Function.update w.inbox x rest } := by
        intro honeway
        obtain ⟨hcrossed, amount, hamount, hfin⟩ := honeway x update rest rfl hinbox
        obtain ⟨hempty, hflight⟩ := (h.linear hcrossed).deliver_side (by rw [hinbox]; simp)
        rw [hinbox] at hflight
        have hrec := (hflight.receivable_iff (h.opened x).1 amount).mpr ⟨hamount, hfin⟩
        constructor
        · intro y
          rcases x.eq_or_eq_other y with rfl | rfl
          · simp only [Function.update_self]
            obtain ⟨hstate, hid⟩ := PaymentChannel.receive_fixed (w.ends y) update
            exact ⟨hstate.trans (h.opened y).1, hid.trans (h.opened y).2⟩
          · simp only [Function.update_of_ne x.other_ne]
            exact h.opened x.other
        · intro _
          obtain ⟨-, -, a, ha, -, hrest⟩ := hflight
          obtain rfl := Option.some.inj (ha.symm.trans hamount)
          refine ⟨x, by simp [Function.update_of_ne x.other_ne, hempty], ?_⟩
          simp only [Function.update_self, Function.update_of_ne x.other_ne]
          rw [PaymentChannel.receive_of_receivable hrec]
          exact hrest
        · intro hcontra
          rw [hcrossed] at hcontra
          cases hcontra
      refine ⟨⟨fun hconv => ?_, fun honeway => ?_⟩, hinv⟩
      · -- an accepted update has not crossed a payment
        obtain ⟨amount, hrec⟩ := PaymentChannel.receive_ok_iff.mp ((hconv _ hstep).1 x update rest rfl hinbox)
        intro y u r hxy hy
        obtain ⟨rfl, rfl, rfl⟩ := hside hxy hy
        refine ⟨?_, amount, hrec.2.2.2.1, hrec.2.2.2.2.1⟩
        by_contra hcrossed
        obtain ⟨u', r', hinbox', hstale⟩ := h.blocked (Bool.eq_true_of_not_eq_false hcrossed) y
        rw [hinbox] at hinbox'
        cases hinbox'
        have hfresh := hrec.2.2.1
        simp only [SequenceNumber.stale, decide_eq_false_iff_not] at hfresh
        exact hfresh hstale
      · intro w'' hstep'
        obtain rfl := Option.some.inj (hstep.symm.trans hstep')
        obtain ⟨hcrossed, amount, hamount, hfin⟩ := honeway x update rest rfl hinbox
        refine ⟨fun y u r hxy hy => ?_, fun hquiet => ?_⟩
        · obtain ⟨rfl, rfl, rfl⟩ := hside hxy hy
          obtain ⟨-, hflight⟩ := (h.linear hcrossed).deliver_side (y := y) (by rw [hinbox]; simp)
          rw [hinbox] at hflight
          exact PaymentChannel.receive_ok_iff.mpr
            ⟨amount, (hflight.receivable_iff (h.opened y).1 amount).mpr ⟨hamount, hfin⟩⟩
        · exact ((hinv honeway).linear hcrossed).mirrored hquiet

theorem inv_start {left right : PaymentChannel ℕ} {l r : JsNumber} {capacity capacity' : Option JsNumber}
    (hleft : (PaymentChannel.create c capacity).open' l r = (left, .ok ()))
    (hright : (PaymentChannel.create c capacity').open' r l = (right, .ok ())) : Inv c (start left right) := by
  have hl := (PaymentChannel.open_eq_ok (congrArg Prod.snd hleft)).1
  have hr := (PaymentChannel.open_eq_ok (congrArg Prod.snd hright)).1
  rw [hleft] at hl
  rw [hright] at hr
  obtain rfl : left = _ := hl
  obtain rfl : right = _ := hr
  constructor
  · intro x
    cases x
    · exact ⟨rfl, rfl⟩
    · exact ⟨rfl, rfl⟩
  · exact fun _ => ⟨.left, rfl, rfl, rfl, rfl⟩
  · exact fun h => (by cases h)

/-- Of two unsigned ends opened as mirror images, no delivery is rejected and the balances mirror each
other whenever nothing is in flight, if and only if nothing is delivered after payments have crossed, and
every delivered amount is finite. -/
theorem converges_iff (channelId : JsString) (capacity capacity' : Option JsNumber) (l r : JsNumber)
    (left right : PaymentChannel ℕ)
    (hleft : (PaymentChannel.create channelId capacity).open' l r = (left, .ok ()))
    (hright : (PaymentChannel.create channelId capacity').open' r l = (right, .ok ()))
    (actions : List LinkAction) :
    (machine left right).Along Converges (start left right) actions ↔
      (machine left right).Along OneWay (start left right) actions :=
  Machine.along_iff_of_invariant (I := Inv channelId) (fun _ _ _ h hstep => converges_step_iff h hstep)
    (inv_start hleft hright) actions

/-- An end with 10 credits for itself and 10 for the other. -/
def tenEach : PaymentChannel ℕ := ⟨js "c", .ofNat 1000, .open', .ofNat 10, .ofNat 10, 0⟩

theorem converges_in_turn :
    ((PaymentChannel.create (js "c") none).open' (.ofNat 10) (.ofNat 10) = (tenEach, .ok ()) ∧
      (PaymentChannel.create (js "c") none).open' (.ofNat 10) (.ofNat 10) = (tenEach, .ok ())) ∧
    ((machine tenEach tenEach).Along Converges (start tenEach tenEach)
        [.pay .left (.ofNat 3) 0, .deliver .right, .pay .right (.ofNat 1) 0, .deliver .left] ↔
      (machine tenEach tenEach).Along OneWay (start tenEach tenEach)
        [.pay .left (.ofNat 3) 0, .deliver .right, .pay .right (.ofNat 1) 0, .deliver .left]) :=
  ⟨⟨by decide +kernel, by decide +kernel⟩,
    converges_iff (js "c") none none (.ofNat 10) (.ofNat 10) tenEach tenEach (by decide +kernel)
      (by decide +kernel) _⟩

/-- Both ends pay at the same time: each takes the update of the other for an old one. -/
theorem crossing_payments_rejected :
    ¬ ∀ (channelId : JsString) (capacity capacity' : Option JsNumber) (l r : JsNumber)
      (left right : PaymentChannel ℕ),
      (PaymentChannel.create channelId capacity).open' l r = (left, .ok ()) →
      (PaymentChannel.create channelId capacity').open' r l = (right, .ok ()) →
      ∀ actions, (machine left right).Along Converges (start left right) actions := by
  intro h
  have hall := h (js "c") none none (.ofNat 10) (.ofNat 10) tenEach tenEach (by decide +kernel)
    (by decide +kernel) ([.pay .left (.ofNat 1) 0, .pay .right (.ofNat 1) 0] ++ [.deliver .left])
  obtain ⟨w, hrun, -, hreject⟩ := Machine.exists_of_run
    (P := fun w : PaymentLink => (w.inbox .left).head?.any
      (fun u => !((w.ends .left).receive u).2.toBool) = true)
    (show ((machine tenEach tenEach).run (fun _ _ => True) (machine tenEach tenEach).init
      [.pay .left (.ofNat 1) 0, .pay .right (.ofNat 1) 0]).any _ = true by decide +kernel)
  obtain ⟨u, hu, hreject⟩ := (Option.any_eq_true _ _).mp hreject
  obtain ⟨rest, hinbox⟩ := List.head?_eq_some_iff.mp hu
  have hstep : ∃ w', w.step (.deliver .left) = some w' := ⟨_, by rw [step, hinbox]⟩
  obtain ⟨w', hstep⟩ := hstep
  have hok := (hall.last hrun hstep w' hstep).1 .left u rest rfl hinbox
  rw [hok] at hreject
  cases hreject

end PaymentLink
end BrowserMesh.Apps
