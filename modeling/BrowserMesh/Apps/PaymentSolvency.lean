import BrowserMesh.Apps.PaymentChannel
import BrowserMesh.Library.Transition

/-! # Solvency of a payment channel

* **Conservation.**  Both balances are finite, non-negative, and add up to the deposits, in exact
  arithmetic.
* **Transfers.**  `Transfers` says when moving an amount conserves: the payer has it, and what the
  rounding of the subtraction loses the rounding of the addition gains.  Amounts on a common grid are
  never rounded (`transfers_of_grid`).
* **Runs.**  `pay` lets `NaN` through, and `receive` does not ask whether the sender still has the amount.
  `solvency_iff`: these and rounding are all that breaks conservation. -/

namespace BrowserMesh.Apps.PaymentChannel
open Js Transition
open JsNumber (rounded roundingError)

variable {V : Type} [SequenceNumber V]

/-- Both balances are finite and non-negative, and they add up to `total` units. -/
def Conserved (total : ℤ) (s : PaymentChannel V) : Prop :=
  ∃ l r : ℤ, s.localBalance.units? = some l ∧ s.remoteBalance.units? = some r ∧
    0 ≤ l ∧ 0 ≤ r ∧ l + r = total

/-- The payer has the amount, and the roundings of the two new balances cancel. -/
def Transfers (payer payee amount : JsNumber) : Prop :=
  ∃ p q a : ℤ, payer.units? = some p ∧ payee.units? = some q ∧ amount.units? = some a ∧ a ≤ p ∧
    IsDouble (rounded (q + a)) ∧ roundingError (p - a) + roundingError (q + a) = 0

/-- Doubles are not rounded. -/
theorem roundingError_of_isDouble {n : ℤ} (h : IsDouble n) : roundingError n = 0 := by
  rw [roundingError, rounded, roundNat_of_isRounded h.1, Int.sign_mul_natAbs, sub_self]

/-- An amount that the payer has moves without rounding where everything is a multiple of `c` units and
the multiples are doubles. -/
theorem transfers_of_grid {payer payee amount : JsNumber} {c p q a : ℕ}
    (hgrid : ∀ k ≤ p + q, IsDouble (k * c : ℕ)) (hpayer : payer.units? = some ((p * c : ℕ) : ℤ))
    (hpayee : payee.units? = some ((q * c : ℕ) : ℤ)) (hamount : amount.units? = some ((a * c : ℕ) : ℤ))
    (h : a ≤ p) : Transfers payer payee amount := by
  have hsub : ((p * c : ℕ) : ℤ) - ((a * c : ℕ) : ℤ) = ((p - a) * c : ℕ) := by
    rw [Nat.sub_mul, Nat.cast_sub (Nat.mul_le_mul_right c h)]
  have hadd : ((q * c : ℕ) : ℤ) + ((a * c : ℕ) : ℤ) = ((q + a) * c : ℕ) := by
    rw [Nat.add_mul, Nat.cast_add]
  have hdouble := hgrid (q + a) (by omega)
  refine ⟨_, _, _, hpayer, hpayee, hamount, by exact_mod_cast Nat.mul_le_mul_right c h, ?_, ?_⟩
  · rw [hadd, rounded, roundNat_of_isRounded hdouble.1, Int.sign_mul_natAbs]
    exact hdouble
  · rw [hsub, hadd, roundingError_of_isDouble (hgrid (p - a) (by omega)), roundingError_of_isDouble hdouble]
    rfl

/-- Moving a positive amount conserves exactly when it is a transfer. -/
theorem conserved_iff_transfers {total p q : ℤ} {payer payee amount : JsNumber}
    (hpayer : payer.units? = some p) (hpayee : payee.units? = some q) (hq : 0 ≤ q)
    (htotal : p + q = total) (hpos : amount.le 0 = false) :
    (∃ p' q' : ℤ, (payer.sub amount).units? = some p' ∧ (payee.add amount).units? = some q' ∧
      0 ≤ p' ∧ 0 ≤ q' ∧ p' + q' = total) ↔ Transfers payer payee amount := by
  constructor
  · rintro ⟨p', q', hsub, hadd, hp', hq', hsum⟩
    obtain ⟨p₁, a, hp₁, ha, -, rfl⟩ := JsNumber.units?_sub.mp hsub
    obtain ⟨q₁, a₁, hq₁, ha₁, hdouble, rfl⟩ := JsNumber.units?_add.mp hadd
    obtain rfl := Option.some.inj (hpayer.symm.trans hp₁)
    obtain rfl := Option.some.inj (hpayee.symm.trans hq₁)
    obtain rfl := Option.some.inj (ha.symm.trans ha₁)
    refine ⟨p, q, a, hpayer, hpayee, ha, ?_, hdouble, ?_⟩
    · by_contra hlt
      have := JsNumber.rounded_neg_of_neg (n := p - a) (by omega)
      omega
    · unfold roundingError
      omega
  · rintro ⟨p₁, q₁, a, hp₁, hq₁, ha, hle, hdouble, herror⟩
    obtain rfl := Option.some.inj (hpayer.symm.trans hp₁)
    obtain rfl := Option.some.inj (hpayee.symm.trans hq₁)
    have hapos : 0 < a := by
      obtain ⟨hd, rfl⟩ := JsNumber.units?_eq_some.mp ha
      by_contra hneg
      rw [JsNumber.le, decide_eq_false_iff_not] at hpos
      exact hpos ⟨by simp, by decide, JsNumber.fin_le_fin.mpr (by omega)⟩
    obtain ⟨hpd, -⟩ := JsNumber.units?_eq_some.mp hpayer
    have hsub := JsNumber.isDouble_rounded_of_le hpd (n := p - a) (by omega) (by omega)
    refine ⟨rounded (p - a), rounded (q + a), JsNumber.units?_sub.mpr ⟨p, a, hpayer, ha, hsub, rfl⟩,
      JsNumber.units?_add.mpr ⟨q, a, hpayee, ha, hdouble, rfl⟩, JsNumber.rounded_nonneg (by omega),
      JsNumber.rounded_nonneg (by omega), ?_⟩
    unfold roundingError at herror
    omega

/-! ### Runs -/

inductive ChannelCall (V : Type) where
  | pay (amount now : JsNumber)
  | receive (update : PaymentUpdate V)

/-- A call, with whether it throws. -/
def call (s : PaymentChannel V) : ChannelCall V → PaymentChannel V × Bool
  | .pay amount now => ((s.pay amount now).1, !(s.pay amount now).2.toBool)
  | .receive update => ((s.receive update).1, !(s.receive update).2.toBool)

/-- The calls made on an unsigned channel. -/
def calls (s : PaymentChannel V) : Machine (PaymentChannel V) (ChannelCall V) :=
  ⟨s, fun s c => some (s.call c).1⟩

/-- The total of the deposits is conserved. -/
def Solvent (localDeposit remoteDeposit : JsNumber) (s : PaymentChannel V) : Prop :=
  ∃ m n : ℤ, localDeposit.units? = some m ∧ remoteDeposit.units? = some n ∧ s.Conserved (m + n)

/-- The call keeps the channel solvent, and changes nothing if it throws. -/
def KeepsSolvent (localDeposit remoteDeposit : JsNumber) (s : PaymentChannel V) (c : ChannelCall V) :
    Prop :=
  (s.call c).1.Solvent localDeposit remoteDeposit ∧ ((s.call c).2 = true → (s.call c).1 = s)

/-- If the checks let the amount of the call pass, it can be transferred. -/
def CallTransfers (s : PaymentChannel V) : ChannelCall V → Prop
  | .pay amount _ => s.Payable amount → Transfers s.localBalance s.remoteBalance amount
  | .receive update => ∀ amount, s.Receivable update amount →
      Transfers s.remoteBalance s.localBalance amount

variable {s : PaymentChannel V}

theorem conserved_call_iff {total : ℤ} (h : s.Conserved total) (c : ChannelCall V) :
    (s.call c).1.Conserved total ∧ ((s.call c).2 = true → (s.call c).1 = s) ↔ s.CallTransfers c := by
  have hsame := h
  obtain ⟨l, r, hl, hr, hl0, hr0, hsum⟩ := h
  cases c with
  | pay amount now =>
      by_cases hpay : s.Payable amount
      · have hiff := conserved_iff_transfers hl hr hr0 hsum hpay.2.1
        simp only [CallTransfers, call, pay_of_payable hpay, hpay, forall_const]
        rw [← hiff]
        exact ⟨fun hc => hc.1, fun hc => ⟨hc, fun hthrow => (by cases hthrow)⟩⟩
      · obtain ⟨e, he⟩ := pay_of_not_payable hpay now
        simp only [CallTransfers, call, he]
        exact iff_of_true ⟨hsame, fun _ => trivial⟩ fun hp => absurd hp hpay
  | receive update =>
      by_cases hrec : ∃ amount, s.Receivable update amount
      · obtain ⟨amount, hrec⟩ := hrec
        obtain ⟨-, -, -, hamount, -, hpos⟩ := id hrec
        have hiff := conserved_iff_transfers hr hl hl0 ((add_comm r l).trans hsum) hpos
        have hone : (∀ a, s.Receivable update a → Transfers s.remoteBalance s.localBalance a) ↔
            Transfers s.remoteBalance s.localBalance amount := by
          refine ⟨fun hall => hall amount hrec, fun htrans a ha => ?_⟩
          obtain rfl := Option.some.inj (hamount.symm.trans ha.2.2.2.1)
          exact htrans
        simp only [CallTransfers, call, receive_of_receivable hrec]
        rw [hone, ← hiff]
        constructor
        · rintro ⟨⟨l', r', hl', hr', hl0', hr0', hsum'⟩, -⟩
          exact ⟨r', l', hr', hl', hr0', hl0', (add_comm r' l').trans hsum'⟩
        · rintro ⟨r', l', hr', hl', hr0', hl0', hsum'⟩
          exact ⟨⟨l', r', hl', hr', hl0', hr0', (add_comm l' r').trans hsum'⟩,
            fun hthrow => (by cases hthrow)⟩
      · have hnone := not_exists.mp hrec
        obtain ⟨e, he⟩ := receive_of_not_receivable hnone
        simp only [CallTransfers, call, he]
        exact iff_of_true ⟨hsame, fun _ => trivial⟩ fun a ha => absurd ha (hnone a)

/-- From a solvent channel, a call keeps it solvent exactly when it transfers. -/
theorem keepsSolvent_iff {l r : JsNumber} (h : s.Solvent l r) (c : ChannelCall V) :
    s.KeepsSolvent l r c ↔ s.CallTransfers c := by
  obtain ⟨m, n, hm, hn, hc⟩ := h
  rw [← conserved_call_iff hc c]
  constructor
  · rintro ⟨⟨m', n', hm', hn', hc'⟩, hthrow⟩
    obtain rfl := Option.some.inj (hm.symm.trans hm')
    obtain rfl := Option.some.inj (hn.symm.trans hn')
    exact ⟨hc', hthrow⟩
  · rintro ⟨hc', hthrow⟩
    exact ⟨⟨m, n, hm, hn, hc'⟩, hthrow⟩

theorem nonneg_of_not_lt {a : JsNumber} {n : ℤ} (h : a.lt 0 = false) (ha : a.units? = some n) : 0 ≤ n := by
  obtain ⟨hd, rfl⟩ := JsNumber.units?_eq_some.mp ha
  by_contra hneg
  rw [JsNumber.lt, decide_eq_false_iff_not] at h
  exact h ⟨by simp, by decide, lt_of_not_ge fun hle => hneg (JsNumber.fin_le_fin.mp hle)⟩

omit [SequenceNumber V] in
/-- A channel that could be opened holds its deposits. -/
theorem open_eq_ok {l r : JsNumber} (h : (s.open' l r).2 = .ok ()) :
    (s.open' l r).1 = { s with state := .open', localBalance := l, remoteBalance := r } ∧
      l.lt 0 = false ∧ r.lt 0 = false := by
  unfold open' at h ⊢
  split_ifs at h ⊢ with _ h2 h3
  · cases h
  · cases h
  · cases h
  · cases h
  · cases h
  · simp only [Bool.or_eq_true, decide_eq_true_eq, not_or, Bool.not_eq_true] at h2 h3
    exact ⟨rfl, h2.2, h3.2⟩

end BrowserMesh.Apps.PaymentChannel
