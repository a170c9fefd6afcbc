import BrowserMesh.Js.Number
import BrowserMesh.Js.Text
import BrowserMesh.Library.Guards

/-! # Payment channels

* **The channel.**  The balances and the sequence number of one end.  Every operation returns the channel
  together with its result or its error.
* **Operations.**  `open'`, `pay`, the checks of `receive` and `applyReceive`.  `Payable` and `Receivable`
  say what the checks let through. -/

namespace BrowserMesh.Apps
open Js Guards

/-- What the channel does with sequence numbers: whatever an update carries is compared and counted on. -/
class SequenceNumber (V : Type) where
  /-- The number of a channel that has seen no update. -/
  zero : V
  /-- `update.sequence <= this.#sequence`. -/
  stale : V → V → Bool
  /-- `this.#sequence += 1`. -/
  next : V → V

instance : SequenceNumber ℕ := ⟨0, fun a b => decide (a ≤ b), fun n => n + 1⟩

inductive ChannelState where
  | idle | open' | closing | closed
  deriving DecidableEq

/-- A `PaymentUpdate` without its signature; the amount is `none` where it is not a number. -/
structure PaymentUpdate (V : Type) where
  channelId : JsString
  sequence : V
  amount : Option JsNumber
  localBalance : JsNumber
  remoteBalance : JsNumber
  timestamp : JsNumber
  deriving DecidableEq

/-- The fields of a `CloseClaim` or a `CloseAck` that are signed. -/
structure CloseClaim (V : Type) where
  channelId : JsString
  finalLocalBalance : JsNumber
  finalRemoteBalance : JsNumber
  entryCount : V
  closedAt : JsNumber
  deriving DecidableEq

inductive ChannelError (V : Type) where
  /-- "Cannot open / pay / receive / close / handle close message / finalize close in state". -/
  | wrongState (state : ChannelState)
  | initialDepositNotPositive
  | remoteDepositNegative
  | depositExceedsCapacity (deposit capacity : JsNumber)
  | amountNotPositive
  | insufficientBalance (need have' : JsNumber)
  | channelIdMismatch
  | staleSequence (got expected : V)
  | badAmount (sequence : V) (amount : Option JsNumber)
  deriving DecidableEq

/-- One end of a channel. -/
structure PaymentChannel (V : Type) where
  channelId : JsString
  capacity : JsNumber
  state : ChannelState
  localBalance : JsNumber
  remoteBalance : JsNumber
  sequence : V
  deriving DecidableEq

namespace PaymentChannel
variable {V : Type} [SequenceNumber V]

/-- `DEFAULT_CAPACITY`. -/
def DEFAULT_CAPACITY : JsNumber := .ofNat 1000

/-- The constructor. -/
def create (channelId : JsString) (capacity : Option JsNumber) : PaymentChannel V :=
  ⟨channelId, (capacity.filter JsNumber.truthy).getD DEFAULT_CAPACITY, .idle, 0, 0, SequenceNumber.zero⟩

/-- The channel as it is, and why. -/
def throws {ρ : Type} (s : PaymentChannel V) (e : ChannelError V) :
    PaymentChannel V × Except (ChannelError V) ρ := (s, .error e)

def open' (s : PaymentChannel V) (initialDeposit remoteDeposit : JsNumber) :
    PaymentChannel V × Except (ChannelError V) Unit :=
  if s.state ≠ .idle then s.throws (.wrongState s.state)
  else if initialDeposit = .nan || initialDeposit.lt 0 then s.throws .initialDepositNotPositive
  else if remoteDeposit = .nan || remoteDeposit.lt 0 then s.throws .remoteDepositNegative
  else if (initialDeposit.add remoteDeposit).le 0 then s.throws .initialDepositNotPositive
  else if s.capacity.lt (initialDeposit.add remoteDeposit) then
    s.throws (.depositExceedsCapacity (initialDeposit.add remoteDeposit) s.capacity)
  else ({ s with state := .open', localBalance := initialDeposit, remoteBalance := remoteDeposit }, .ok ())

/-- `pay`, up to the signing of the update. -/
def pay (s : PaymentChannel V) (amount now : JsNumber) :
    PaymentChannel V × Except (ChannelError V) (PaymentUpdate V) :=
  if s.state ≠ .open' then s.throws (.wrongState s.state)
  else if amount.le 0 then s.throws .amountNotPositive
  else if s.localBalance.lt amount then s.throws (.insufficientBalance amount s.localBalance)
  else
    let s := { s with
      localBalance := s.localBalance.sub amount
      remoteBalance := s.remoteBalance.add amount
      sequence := SequenceNumber.next s.sequence }
    (s, .ok ⟨s.channelId, s.sequence, some amount, s.localBalance, s.remoteBalance, now⟩)

/-- The checks of `receive`; the amount of an update that passes. -/
def checkReceive (s : PaymentChannel V) (update : PaymentUpdate V) : Except (ChannelError V) JsNumber := do
  failIf (s.state ≠ .open') (.wrongState s.state)
  failIf (update.channelId ≠ s.channelId) .channelIdMismatch
  failIf (SequenceNumber.stale update.sequence s.sequence = true)
    (.staleSequence update.sequence s.sequence)
  required (.badAmount update.sequence update.amount)
    (update.amount.filter fun a => a.isFinite && !a.le 0)

/-- `#applyReceive`. -/
def applyReceive (s : PaymentChannel V) (sequence : V) (amount : JsNumber) : PaymentChannel V :=
  { s with
    localBalance := s.localBalance.add amount
    remoteBalance := s.remoteBalance.sub amount
    sequence }

/-- `receive` on a channel without `verifyFn`. -/
def receive (s : PaymentChannel V) (update : PaymentUpdate V) :
    PaymentChannel V × Except (ChannelError V) Unit :=
  match s.checkReceive update with
  | .ok amount => (s.applyReceive update.sequence amount, .ok ())
  | .error e => s.throws e

/-! ### What the checks let through -/

/-- The checks of `pay`. -/
def Payable (s : PaymentChannel V) (amount : JsNumber) : Prop :=
  s.state = .open' ∧ amount.le 0 = false ∧ s.localBalance.lt amount = false

/-- The checks of `receive`. -/
def Receivable (s : PaymentChannel V) (update : PaymentUpdate V) (amount : JsNumber) : Prop :=
  s.state = .open' ∧ update.channelId = s.channelId ∧
    SequenceNumber.stale update.sequence s.sequence = false ∧
    update.amount = some amount ∧ amount.isFinite = true ∧ amount.le 0 = false

variable {s : PaymentChannel V} {amount : JsNumber}

theorem pay_of_payable (h : s.Payable amount) (now : JsNumber) :
    s.pay amount now =
      ({ s with
          localBalance := s.localBalance.sub amount
          remoteBalance := s.remoteBalance.add amount
          sequence := SequenceNumber.next s.sequence },
        .ok ⟨s.channelId, SequenceNumber.next s.sequence, some amount, s.localBalance.sub amount,
          s.remoteBalance.add amount, now⟩) := by
  obtain ⟨hstate, hpos, hhave⟩ := h
  simp [pay, hstate, hpos, hhave]

theorem pay_of_not_payable (h : ¬ s.Payable amount) (now : JsNumber) : ∃ e, s.pay amount now = (s, .error e) := by
  unfold pay
  split_ifs with hstate hpos hhave
  · exact ⟨_, rfl⟩
  · exact ⟨_, rfl⟩
  · exact ⟨_, rfl⟩
  · exact absurd ⟨not_not.mp hstate, Bool.eq_false_iff.mpr hpos, Bool.eq_false_iff.mpr hhave⟩ h

variable {update : PaymentUpdate V}

theorem checkReceive_eq_ok :
    s.checkReceive update = .ok amount ↔ s.Receivable update amount := by
  simp only [checkReceive, bind_eq_ok, failIf_eq_ok, required_eq_ok, not_not, Bool.not_eq_true,
    Option.filter_eq_some_iff, Bool.and_eq_true, Bool.not_eq_true']
  constructor
  · rintro ⟨-, hstate, -, hid, -, hseq, hamount, hfin, hpos⟩
    exact ⟨hstate, hid, hseq, hamount, hfin, hpos⟩
  · rintro ⟨hstate, hid, hseq, hamount, hfin, hpos⟩
    exact ⟨(), hstate, (), hid, (), hseq, hamount, hfin, hpos⟩

theorem receive_of_receivable (h : s.Receivable update amount) :
    s.receive update = (s.applyReceive update.sequence amount, .ok ()) := by
  rw [receive, checkReceive_eq_ok.mpr h]

theorem receive_of_not_receivable
    (h : ∀ amount, ¬ s.Receivable update amount) : ∃ e, s.receive update = (s, .error e) := by
  cases hcheck : s.checkReceive update with
  | ok amount => exact absurd (checkReceive_eq_ok.mp hcheck) (h amount)
  | error e => exact ⟨e, by rw [receive, hcheck]; rfl⟩

end PaymentChannel
end BrowserMesh.Apps
