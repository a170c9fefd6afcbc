import BrowserMesh.Apps.CreditLedgers
import BrowserMesh.Js.Countdown

/-! # Conservation of credits

Values are compared exactly: a balance is worth a whole number of units, or `⊤`, and never `NaN` (`worth`).  `Exact` says
that a balance is what the postings of an account make of its starting credits.  A posting that no rounding falsifies
keeps it (`Exact.credit`, `Exact.debit`), and every call is one or two postings. -/

namespace BrowserMesh.Apps.Ledgers
open Js Transition

/-! ### Exact sums -/

/-- What a balance is worth, in units; nothing for `NaN` and `-Infinity`. -/
def worth : JsNumber → Option (WithTop ℤ)
  | .fin n _ => some n
  | .posInf => some ⊤
  | .nan => none
  | .negInf => none

/-- `n` is the exact sum of `l`. -/
def Totals (l : List JsNumber) (n : WithTop ℤ) : Prop :=
  ∃ ns, List.Forall₂ (fun a m => worth a = some m) l ns ∧ ns.sum = n

theorem totals_nil : Totals [] 0 := ⟨[], .nil, rfl⟩

theorem Totals.concat {l : List JsNumber} {a : JsNumber} {n m : WithTop ℤ} (h : Totals l n) (ha : worth a = some m) :
    Totals (l ++ [a]) (n + m) := by
  obtain ⟨ns, hns, rfl⟩ := h
  refine ⟨ns ++ [m], List.rel_append hns (.cons ha .nil), ?_⟩
  rw [List.sum_append, List.sum_singleton]

inductive Posting where
  | credit (amount : JsNumber)
  | debit (amount : JsNumber)
deriving DecidableEq

def credits (ps : List Posting) : List JsNumber :=
  ps.filterMap fun p => match p with | .credit a => some a | .debit _ => none

def debits (ps : List Posting) : List JsNumber :=
  ps.filterMap fun p => match p with | .debit a => some a | .credit _ => none

/-- `balance` is a number that is not negative, and exactly the starting credits with the credits and without the
debits. -/
def Exact (start : JsNumber) (ps : List Posting) (balance : JsNumber) : Prop :=
  ∃ (s c b : WithTop ℤ) (d : ℤ), worth start = some s ∧ Totals (credits ps) c ∧ Totals (debits ps) d ∧
    worth balance = some b ∧ 0 ≤ b ∧ b + d = s + c

def AddsExactly : JsNumber → JsNumber → Prop
  | .fin m _, .fin n _ => IsDouble (m + n)
  | _, _ => True

/-- The difference of two finite numbers is a double. -/
def SubtractsExactly : JsNumber → JsNumber → Prop
  | .fin m _, .fin n _ => IsDouble (m - n)
  | _, _ => True

/-- `amount` can be credited to `balance`. -/
def Creditable (balance amount : JsNumber) : Prop := amount ≠ .nan ∧ AddsExactly balance amount

/-- `amount` can be debited from `balance`. -/
def Debitable (balance amount : JsNumber) : Prop :=
  amount ≠ .nan ∧ amount ≠ .posInf ∧ SubtractsExactly balance amount

variable {start balance amount : JsNumber} {ps : List Posting}

theorem exact_nil (h : start.NonNeg) : Exact start [] start := by
  cases start with
  | nan => exact absurd rfl h.ne_nan
  | negInf => exact absurd h JsNumber.not_nonNeg_negInf
  | posInf => exact ⟨⊤, 0, ⊤, 0, rfl, totals_nil, totals_nil, rfl, le_top, rfl⟩
  | fin n hn =>
      refine ⟨n, 0, n, 0, rfl, totals_nil, totals_nil, rfl, ?_, rfl⟩
      exact_mod_cast JsNumber.nonNeg_fin.mp h

theorem worth_of_positive (hpos : amount.le 0 = false) (hnum : amount ≠ .nan) : ∃ m, worth amount = some m ∧ 0 < m := by
  cases amount with
  | nan => exact absurd rfl hnum
  | negInf => exact absurd hpos (by decide)
  | posInf => exact ⟨⊤, rfl, by decide⟩
  | fin n hn =>
      refine ⟨n, rfl, ?_⟩
      have hlt : 0 < n := by
        by_contra hle
        have : JsNumber.fin n hn ≤ 0 := JsNumber.fin_le_fin.mpr (not_lt.mp hle)
        exact absurd hpos (by simp [JsNumber.le, this]; decide)
      exact_mod_cast hlt

theorem worth_add {m n : WithTop ℤ} (hb : worth balance = some m) (ha : worth amount = some n)
    (hexact : AddsExactly balance amount) : worth (balance.add amount) = some (m + n) := by
  cases balance with
  | nan => simp [worth] at hb
  | negInf => simp [worth] at hb
  | posInf =>
      obtain rfl : ⊤ = m := Option.some.inj hb
      cases amount with
      | nan => simp [worth] at ha
      | negInf => simp [worth] at ha
      | posInf => exact congrArg some (top_add n).symm
      | fin k hk => exact congrArg some (top_add n).symm
  | fin i hi =>
      obtain rfl : (i : WithTop ℤ) = m := Option.some.inj hb
      cases amount with
      | nan => simp [worth] at ha
      | negInf => simp [worth] at ha
      | posInf =>
          obtain rfl : ⊤ = n := Option.some.inj ha
          exact congrArg some (add_top _).symm
      | fin k hk =>
          obtain rfl : (k : WithTop ℤ) = n := Option.some.inj ha
          have hsum : (JsNumber.fin i hi).add (.fin k hk) = .fin (i + k) hexact := JsNumber.ofUnits_of_isDouble _
          rw [hsum]
          rfl

theorem worth_sub {m : WithTop ℤ} (hb : worth balance = some m) (hdebit : Debitable balance amount)
    (hpos : amount.le 0 = false) : ∃ (r : WithTop ℤ) (k : ℤ), worth (balance.sub amount) = some r ∧
      worth amount = some (k : WithTop ℤ) ∧ r + k = m := by
  obtain ⟨hnum, hfinite, hexact⟩ := hdebit
  cases amount with
  | nan => exact absurd rfl hnum
  | negInf => exact absurd hpos (by decide)
  | posInf => exact absurd rfl hfinite
  | fin k hk =>
      cases balance with
      | nan => simp [worth] at hb
      | negInf => simp [worth] at hb
      | posInf =>
          obtain rfl : ⊤ = m := Option.some.inj hb
          exact ⟨⊤, k, rfl, rfl, top_add _⟩
      | fin i hi =>
          obtain rfl : (i : WithTop ℤ) = m := Option.some.inj hb
          have hdiff : (JsNumber.fin i hi).sub (.fin k hk) = .fin (i - k) hexact := by
            rw [← JsNumber.ofUnits_of_isDouble hexact]
            show JsNumber.ofUnits (i + -k) = _
            rw [sub_eq_add_neg]
          refine ⟨((i - k : ℤ) : WithTop ℤ), k, by rw [hdiff]; rfl, rfl, ?_⟩
          exact_mod_cast sub_add_cancel i k

theorem credits_concat_credit : credits (ps ++ [.credit amount]) = credits ps ++ [amount] := by
  simp [credits]

theorem credits_concat_debit : credits (ps ++ [.debit amount]) = credits ps := by
  simp [credits]

theorem debits_concat_credit : debits (ps ++ [.credit amount]) = debits ps := by
  simp [debits]

theorem debits_concat_debit : debits (ps ++ [.debit amount]) = debits ps ++ [amount] := by
  simp [debits]

theorem Exact.credit (h : Exact start ps balance) (hpos : amount.le 0 = false) (hcredit : Creditable balance amount) :
    Exact start (ps ++ [.credit amount]) (balance.add amount) := by
  obtain ⟨s, c, b, d, hs, hc, hd, hb, h0, heq⟩ := h
  obtain ⟨m, hm, hmpos⟩ := worth_of_positive hpos hcredit.1
  refine ⟨s, c + m, b + m, d, hs, ?_, ?_, worth_add hb hm hcredit.2, add_nonneg h0 hmpos.le, ?_⟩
  · rw [credits_concat_credit]
    exact hc.concat hm
  · rw [debits_concat_credit]
    exact hd
  · rw [add_right_comm, heq, add_assoc]

theorem le_of_not_lt {b : WithTop ℤ} {k : ℤ} (hb : worth balance = some b) (hk : worth amount = some (k : WithTop ℤ))
    (hlt : balance.lt amount = false) : (k : WithTop ℤ) ≤ b := by
  cases amount with
  | nan => simp [worth] at hk
  | negInf => simp [worth] at hk
  | posInf => cases Option.some.inj hk
  | fin n hn =>
      obtain rfl : n = k := by
        have := Option.some.inj hk
        exact_mod_cast this
      cases balance with
      | nan => simp [worth] at hb
      | negInf => simp [worth] at hb
      | posInf =>
          obtain rfl : ⊤ = b := Option.some.inj hb
          exact le_top
      | fin i hi =>
          obtain rfl : (i : WithTop ℤ) = b := Option.some.inj hb
          have hle : n ≤ i := by
            by_contra hnot
            have hlt' : JsNumber.fin i hi < .fin n hn := lt_of_not_ge fun h => hnot (JsNumber.fin_le_fin.mp h)
            exact absurd hlt (by simp [JsNumber.lt, hlt'])
          exact_mod_cast hle

theorem Exact.debit (h : Exact start ps balance) (hpos : amount.le 0 = false) (hlt : balance.lt amount = false)
    (hdebit : Debitable balance amount) : Exact start (ps ++ [.debit amount]) (balance.sub amount) := by
  obtain ⟨s, c, b, d, hs, hc, hd, hb, h0, heq⟩ := h
  obtain ⟨r, k, hr, hk, hsum⟩ := worth_sub hb hdebit hpos
  have hle := le_of_not_lt hb hk hlt
  refine ⟨s, c, r, d + k, hs, ?_, ?_, hr, ?_, ?_⟩
  · rw [credits_concat_debit]
    exact hc
  · rw [debits_concat_debit]
    exact_mod_cast hd.concat hk
  · rw [← hsum] at hle
    cases r with
    | top => exact le_top
    | coe r =>
        have : k ≤ r + k := by exact_mod_cast hle
        exact_mod_cast (by omega : 0 ≤ r)
  · rw [← heq, ← hsum]
    push_cast
    rw [add_assoc, add_comm (d : WithTop ℤ)]

/-! ### One ledger -/

def LedgerEntry.posting (e : LedgerEntry) : Posting :=
  match e.type with
  | .credit => .credit e.amount
  | .debit => .debit e.amount

/-- The balance and every entry's running balance are exact. -/
structure LedgerExact (l : CreditLedger) : Prop where
  balance : Exact 0 (l.entries.map LedgerEntry.posting) l.balance
  entries : ∀ before e, before ++ [e] <+: l.entries → Exact 0 ((before ++ [e]).map LedgerEntry.posting) e.balance

theorem ledgerExact_new (ownerId : NonEmptyString) : LedgerExact (.new ownerId) where
  balance := exact_nil (by decide)
  entries before e h := absurd (List.prefix_nil.mp h) (by simp)

variable {l : CreditLedger}

theorem LedgerExact.concat {e : LedgerEntry} (h : LedgerExact l)
    (he : Exact 0 ((l.entries ++ [e]).map LedgerEntry.posting) e.balance) :
    LedgerExact { l with balance := e.balance, entries := l.entries ++ [e] } where
  balance := he
  entries before e' hpre := by
    rcases List.prefix_concat_iff.mp hpre with heq | hpre
    · obtain ⟨rfl, hlast⟩ := List.append_inj' heq rfl
      obtain rfl := List.singleton_inj.mp hlast
      exact he
    · exact h.entries before e' hpre

variable {l' : CreditLedger}

theorem credit_eq_ok {fromPodId : JsString} {memo : Option JsString}
    (h : l.credit amount fromPodId memo = .ok l') : amount.le 0 = false ∧
      l' = { l with
        balance := l.balance.add amount
        entries := l.entries ++ [⟨.credit, amount, fromPodId, memoOrNull memo, l.balance.add amount⟩] } := by
  unfold CreditLedger.credit at h
  split_ifs at h with hle
  exact ⟨Bool.eq_false_of_not_eq_true hle, (Except.ok.inj h).symm⟩

theorem debit_eq_ok {toPodId : JsString} {memo : Option JsString}
    (h : l.debit amount toPodId memo = .ok l') : amount.le 0 = false ∧ l.balance.lt amount = false ∧
      l' = { l with
        balance := l.balance.sub amount
        entries := l.entries ++ [⟨.debit, amount, toPodId, memoOrNull memo, l.balance.sub amount⟩] } := by
  unfold CreditLedger.debit at h
  split_ifs at h with hle hlt
  exact ⟨Bool.eq_false_of_not_eq_true hle, Bool.eq_false_of_not_eq_true hlt, (Except.ok.inj h).symm⟩

theorem LedgerExact.credit {fromPodId : JsString} {memo : Option JsString} (h : LedgerExact l)
    (hcredit : Creditable l.balance amount) (hok : l.credit amount fromPodId memo = .ok l') : LedgerExact l' := by
  obtain ⟨hpos, rfl⟩ := credit_eq_ok hok
  refine h.concat (e := ⟨.credit, amount, fromPodId, memoOrNull memo, l.balance.add amount⟩) ?_
  rw [List.map_append]
  exact h.balance.credit hpos hcredit

theorem LedgerExact.debit {toPodId : JsString} {memo : Option JsString} (h : LedgerExact l)
    (hdebit : Debitable l.balance amount) (hok : l.debit amount toPodId memo = .ok l') : LedgerExact l' := by
  obtain ⟨hpos, hlt, rfl⟩ := debit_eq_ok hok
  refine h.concat (e := ⟨.debit, amount, toPodId, memoOrNull memo, l.balance.sub amount⟩) ?_
  rw [List.map_append]
  exact h.balance.debit hpos hlt hdebit

/-! ### One book for all pods -/

/-- What a transaction posts on the account of `p`. -/
def Transaction.postings (p : JsString) (tx : Transaction) : List Posting :=
  match tx.type with
  | .charge => if tx.podId = p then [.debit tx.amount] else []
  | .credit => if tx.podId = p then [.credit tx.amount] else []
  | .transfer =>
      (if tx.podId = p then [.debit tx.amount] else []) ++ (if tx.toPodId = some p then [.credit tx.amount] else [])

/-- Every balance, and every recorded transaction's running balance, is exact. -/
structure PartyExact (m : MultiPartyCreditLedger) (history : List Transaction) : Prop where
  balance : ∀ p, Exact m.initialCredits (history.flatMap (Transaction.postings p)) (m.balanceOf p)
  transactions : ∀ before tx, before ++ [tx] <+: history →
    Exact m.initialCredits ((before ++ [tx]).flatMap (Transaction.postings tx.podId)) tx.balance
  recorded : m.transactions <:+ history

namespace MultiPartyCreditLedger
variable (m : MultiPartyCreditLedger) (p q : JsString) (tx : Transaction)

@[simp] theorem balanceOf_getBalance : (m.getBalance q).balanceOf p = m.balanceOf p := by
  unfold getBalance
  split_ifs with hhas
  · rfl
  · have hnone : m.balances.get? q = none := by
      rw [JsMap.has, Bool.not_eq_true, Option.isSome_eq_false_iff, Option.isNone_iff_eq_none] at hhas
      exact hhas
    unfold balanceOf
    rw [JsMap.get?_set]
    split_ifs with heq
    · rw [heq, hnone]
      rfl
    · rfl

@[simp] theorem balanceOf_setBalance : (m.setBalance q balance).balanceOf p = if p = q then balance else m.balanceOf p := by
  unfold setBalance balanceOf
  rw [JsMap.get?_set]
  split_ifs <;> rfl

@[simp] theorem balanceOf_recordTransaction : (m.recordTransaction tx).balanceOf p = m.balanceOf p := rfl

@[simp] theorem initialCredits_getBalance : (m.getBalance q).initialCredits = m.initialCredits := by
  unfold getBalance
  split_ifs <;> rfl

@[simp] theorem initialCredits_setBalance : (m.setBalance q balance).initialCredits = m.initialCredits := rfl

@[simp] theorem initialCredits_recordTransaction : (m.recordTransaction tx).initialCredits = m.initialCredits := rfl

@[simp] theorem transactions_getBalance : (m.getBalance q).transactions = m.transactions := by
  unfold getBalance
  split_ifs <;> rfl

@[simp] theorem transactions_setBalance : (m.setBalance q balance).transactions = m.transactions := rfl

variable {m tx}

theorem recordTransaction_suffix {history : List Transaction} (h : m.transactions <:+ history) :
    (m.recordTransaction tx).transactions <:+ history ++ [tx] := by
  have happend : m.transactions ++ [tx] <:+ history ++ [tx] := by
    obtain ⟨l, rfl⟩ := h
    exact ⟨l, by rw [List.append_assoc]⟩
  unfold recordTransaction
  simp only
  split_ifs
  · exact (List.drop_suffix _ _).trans happend
  · exact happend

end MultiPartyCreditLedger

theorem PartyExact.concat {m m' : MultiPartyCreditLedger} {history : List Transaction} {tx : Transaction}
    (h : PartyExact m history) (hstart : m'.initialCredits = m.initialCredits)
    (hbalance : ∀ p, Exact m.initialCredits ((history ++ [tx]).flatMap (Transaction.postings p)) (m'.balanceOf p))
    (htx : tx.balance = m'.balanceOf tx.podId) (hrecorded : m'.transactions <:+ history ++ [tx]) :
    PartyExact m' (history ++ [tx]) where
  balance := hstart ▸ hbalance
  transactions before tx' hpre := by
    rw [hstart]
    rcases List.prefix_concat_iff.mp hpre with heq | hpre
    · obtain ⟨rfl, hlast⟩ := List.append_inj' heq rfl
      obtain rfl := List.singleton_inj.mp hlast
      rw [htx]
      exact hbalance _
    · exact h.transactions before tx' hpre
  recorded := hrecorded

theorem partyExact_new {initialCredits : JsNumber} (h : initialCredits.NonNeg) (maxTransactions : ℕ) :
    PartyExact (.new (some initialCredits) (some maxTransactions)) [] where
  balance _ := exact_nil h
  transactions before tx hpre := absurd (List.prefix_nil.mp hpre) (by simp)
  recorded := List.nil_suffix

theorem PartyExact.getBalance {m : MultiPartyCreditLedger} {history : List Transaction} (h : PartyExact m history)
    (podId : JsString) : PartyExact (m.getBalance podId) history where
  balance p := by
    rw [MultiPartyCreditLedger.initialCredits_getBalance, MultiPartyCreditLedger.balanceOf_getBalance]
    exact h.balance p
  transactions before tx hpre := by
    rw [MultiPartyCreditLedger.initialCredits_getBalance]
    exact h.transactions before tx hpre
  recorded := by
    rw [MultiPartyCreditLedger.transactions_getBalance]
    exact h.recorded

/-- A call on a book that keeps its balances exact, posts `expected` when it succeeds, and else changes nothing. -/
structure PartyStep (m : MultiPartyCreditLedger) (history : List Transaction)
    (r : MultiPartyCreditLedger × List Transaction × Outcome) (expected : JsString → List Posting) : Prop where
  exact' : PartyExact r.1 (history ++ r.2.1)
  start : r.1.initialCredits = m.initialCredits
  posted : r.2.2 = .done → ∀ p, r.2.1.flatMap (Transaction.postings p) = expected p
  untouched : r.2.2 ≠ .done →
    r.2.1 = [] ∧ (∀ p, r.1.balanceOf p = m.balanceOf p) ∧ r.1.transactions = m.transactions

section Party

variable {m : MultiPartyCreditLedger} {history : List Transaction} {podId : JsString} {memo : Option JsString}
  {logThrows : Bool} {expected : JsString → List Posting}

theorem logged_failed_ne_done : MultiPartyCreditLedger.logged logThrows .failed ≠ .done := by
  cases logThrows <;> decide

theorem PartyStep.of_threw (h : PartyExact m history) : PartyStep m history (m, [], .threw) expected where
  exact' := by rwa [List.append_nil]
  start := rfl
  posted h := Outcome.noConfusion h
  untouched _ := ⟨rfl, fun _ => rfl, rfl⟩

theorem PartyStep.of_failed (h : PartyExact m history) : PartyStep m history
    (m.getBalance podId, [], MultiPartyCreditLedger.logged logThrows .failed) expected where
  exact' := by
    rw [List.append_nil]
    exact h.getBalance podId
  start := by simp
  posted h := absurd h logged_failed_ne_done
  untouched _ := ⟨rfl, fun _ => by simp, by simp⟩

/-- A transaction of one pod that posts one amount. -/
theorem PartyStep.of_recorded (tx : Transaction) (posting : Posting) (h : PartyExact m history)
    (hpostings : ∀ p, tx.postings p = if tx.podId = p then [posting] else [])
    (hexact : Exact m.initialCredits (history.flatMap (Transaction.postings tx.podId) ++ [posting]) tx.balance) :
    PartyStep m history (((m.getBalance tx.podId).setBalance tx.podId tx.balance).recordTransaction tx, [tx],
      MultiPartyCreditLedger.logged false .done) fun p => if tx.podId = p then [posting] else [] := by
  refine ⟨?_, by simp, fun _ p => by simp [hpostings], fun hdone => absurd rfl hdone⟩
  refine h.concat (by simp) (fun p => ?_) (by simp) (MultiPartyCreditLedger.recordTransaction_suffix ?_)
  · rw [List.flatMap_append, List.flatMap_singleton, hpostings]
    by_cases hp : tx.podId = p
    · subst hp
      simpa using hexact
    · simpa [hp, Ne.symm hp] using h.balance p
  · simpa using h.recorded

theorem partyStep_charge (memo : Option JsString) (h : PartyExact m history)
    (hclean : amount.le 0 = true ∨ (m.balanceOf podId).lt amount = true ∨
      (logThrows = false ∧ Debitable (m.balanceOf podId) amount)) :
    PartyStep m history (m.charge podId amount memo logThrows)
      fun p => if podId = p then [.debit amount] else [] := by
  unfold MultiPartyCreditLedger.charge
  dsimp only
  split_ifs with hle hlt
  · exact .of_threw h
  · exact .of_failed h
  obtain ⟨rfl, hdebit⟩ := (hclean.resolve_left hle).resolve_left hlt
  exact .of_recorded ⟨.charge, podId, none, amount, memoOrNull memo, _⟩ (.debit amount) h (fun p => rfl)
    ((h.balance podId).debit (Bool.eq_false_of_not_eq_true hle) (Bool.eq_false_of_not_eq_true hlt) hdebit)

theorem partyStep_credit (memo : Option JsString) (h : PartyExact m history)
    (hclean : amount.le 0 = true ∨ (logThrows = false ∧ Creditable (m.balanceOf podId) amount)) :
    PartyStep m history (m.credit podId amount memo logThrows)
      fun p => if podId = p then [.credit amount] else [] := by
  unfold MultiPartyCreditLedger.credit
  split_ifs with hle
  · exact .of_threw h
  obtain ⟨rfl, hcredit⟩ := hclean.resolve_left hle
  exact .of_recorded ⟨.credit, podId, none, amount, memoOrNull memo, _⟩ (.credit amount) h (fun p => rfl)
    ((h.balance podId).credit (Bool.eq_false_of_not_eq_true hle) hcredit)

theorem partyStep_transfer {fromPodId toPodId : JsString} (memo : Option JsString) (h : PartyExact m history)
    (hclean : amount.le 0 = true ∨ (m.balanceOf fromPodId).lt amount = true ∨
      (logThrows = false ∧ fromPodId ≠ toPodId ∧ Debitable (m.balanceOf fromPodId) amount ∧
        Creditable (m.balanceOf toPodId) amount)) :
    PartyStep m history (m.transfer fromPodId toPodId amount memo logThrows) fun p =>
      (if fromPodId = p then [.debit amount] else []) ++ (if toPodId = p then [.credit amount] else []) := by
  unfold MultiPartyCreditLedger.transfer
  dsimp only
  split_ifs with hle hlt
  · exact .of_threw h
  · exact .of_failed h
  obtain ⟨rfl, hne, hdebit, hcredit⟩ := (hclean.resolve_left hle).resolve_left hlt
  have hto : ((m.getBalance fromPodId).setBalance fromPodId ((m.balanceOf fromPodId).sub amount)).balanceOf toPodId =
      m.balanceOf toPodId := by
    simp [hne.symm]
  refine ⟨?_, by simp, fun _ p => ?_, fun hdone => absurd rfl hdone⟩
  · refine h.concat (by simp) (fun p => ?_) (by simp [hne]) (MultiPartyCreditLedger.recordTransaction_suffix ?_)
    · rw [List.flatMap_append, List.flatMap_singleton]
      by_cases hfrom : fromPodId = p
      · subst hfrom
        simp only [Transaction.postings, if_true, Option.some.injEq, if_neg hne.symm, List.append_nil,
          MultiPartyCreditLedger.balanceOf_recordTransaction, MultiPartyCreditLedger.balanceOf_setBalance,
          if_neg hne, MultiPartyCreditLedger.balanceOf_getBalance]
        exact (h.balance fromPodId).debit (Bool.eq_false_of_not_eq_true hle) (Bool.eq_false_of_not_eq_true hlt) hdebit
      · by_cases hp : toPodId = p
        · subst hp
          simp only [Transaction.postings, if_neg hfrom, if_true, List.nil_append,
            MultiPartyCreditLedger.balanceOf_recordTransaction, MultiPartyCreditLedger.balanceOf_setBalance, hto]
          exact (h.balance toPodId).credit (Bool.eq_false_of_not_eq_true hle) hcredit
        · simp only [Transaction.postings, if_neg hfrom, Option.some.injEq, if_neg hp, List.append_nil,
            MultiPartyCreditLedger.balanceOf_recordTransaction, MultiPartyCreditLedger.balanceOf_setBalance,
            if_neg (Ne.symm hp), if_neg (Ne.symm hfrom), MultiPartyCreditLedger.balanceOf_getBalance]
          exact h.balance p
    · simpa using h.recorded
  · simp [Transaction.postings]

end Party

/-! ### All books -/

variable {ι κ : Type} [DecidableEq ι] [DecidableEq κ]

instance : DecidableRel AddsExactly
  | .fin m _, .fin n _ => inferInstanceAs (Decidable (IsDouble (m + n)))
  | .fin _ _, .nan => instDecidableTrue
  | .fin _ _, .negInf => instDecidableTrue
  | .fin _ _, .posInf => instDecidableTrue
  | .nan, _ => instDecidableTrue
  | .negInf, _ => instDecidableTrue
  | .posInf, _ => instDecidableTrue

instance : DecidableRel SubtractsExactly
  | .fin m _, .fin n _ => inferInstanceAs (Decidable (IsDouble (m - n)))
  | .fin _ _, .nan => instDecidableTrue
  | .fin _ _, .negInf => instDecidableTrue
  | .fin _ _, .posInf => instDecidableTrue
  | .nan, _ => instDecidableTrue
  | .negInf, _ => instDecidableTrue
  | .posInf, _ => instDecidableTrue

instance (balance amount : JsNumber) : Decidable (Creditable balance amount) := inferInstanceAs (Decidable (_ ∧ _))

instance (balance amount : JsNumber) : Decidable (Debitable balance amount) := inferInstanceAs (Decidable (_ ∧ _))

/-- The call is refused, or no amount is `NaN`, no infinite one is debited, nothing is rounded, `onLog` does not throw,
and no book for all pods transfers from a pod to itself. -/
def Clean (b : Books ι κ) : Call ι κ → Prop
  | .credit i amount _ _ => amount.le 0 ∨ Creditable (b.ledgers i).balance amount
  | .debit i amount _ _ => amount.le 0 ∨ (b.ledgers i).balance.lt amount ∨ Debitable (b.ledgers i).balance amount
  | .transfer i peer amount _ => amount.le 0 ∨ (b.ledgers i).balance.lt amount ∨
      (Debitable (b.ledgers i).balance amount ∧
        Creditable (if peer = i then (b.ledgers i).balance.sub amount else (b.ledgers peer).balance) amount)
  | .getBalance _ _ => True
  | .charge k podId amount _ logThrows => amount.le 0 ∨ ((b.parties k).balanceOf podId).lt amount ∨
      (logThrows = false ∧ Debitable ((b.parties k).balanceOf podId) amount)
  | .creditPod k podId amount _ logThrows => amount.le 0 ∨
      (logThrows = false ∧ Creditable ((b.parties k).balanceOf podId) amount)
  | .transferPods k fromPodId toPodId amount _ logThrows =>
      amount.le 0 ∨ ((b.parties k).balanceOf fromPodId).lt amount ∨
        (logThrows = false ∧ fromPodId ≠ toPodId ∧ Debitable ((b.parties k).balanceOf fromPodId) amount ∧
          Creditable ((b.parties k).balanceOf toPodId) amount)

instance (b : Books ι κ) : DecidablePred (Clean b)
  | .credit _ _ _ _ => inferInstanceAs (Decidable (_ ∨ _))
  | .debit _ _ _ _ => inferInstanceAs (Decidable (_ ∨ _))
  | .transfer _ _ _ _ => inferInstanceAs (Decidable (_ ∨ _))
  | .getBalance _ _ => instDecidableTrue
  | .charge _ _ _ _ _ => inferInstanceAs (Decidable (_ ∨ _))
  | .creditPod _ _ _ _ _ => inferInstanceAs (Decidable (_ ∨ _))
  | .transferPods _ _ _ _ _ _ => inferInstanceAs (Decidable (_ ∨ _))

/-- Every balance of every book is exact, and so is every recorded running balance. -/
structure Balanced (initialCredits : κ → JsNumber) (b : Books ι κ) : Prop where
  ledgers : ∀ i, LedgerExact (b.ledgers i)
  parties : ∀ k, PartyExact (b.parties k) (b.history k)
  start : ∀ k, (b.parties k).initialCredits = initialCredits k

/-- What a call that succeeds posts on ledger `i`. -/
def ledgerPostings (i : ι) : Call ι κ → List Posting
  | .credit i' amount _ _ => if i' = i then [.credit amount] else []
  | .debit i' amount _ _ => if i' = i then [.debit amount] else []
  | .transfer i' peer amount _ => (if i' = i then [.debit amount] else []) ++ (if peer = i then [.credit amount] else [])
  | _ => []

/-- What a call that succeeds posts on the account of pod `p` in book `k`. -/
def partyPostings (k : κ) (p : JsString) : Call ι κ → List Posting
  | .charge k' podId amount _ _ => if k' = k ∧ podId = p then [.debit amount] else []
  | .creditPod k' podId amount _ _ => if k' = k ∧ podId = p then [.credit amount] else []
  | .transferPods k' fromPodId toPodId amount _ _ =>
      (if k' = k ∧ fromPodId = p then [.debit amount] else []) ++ (if k' = k ∧ toPodId = p then [.credit amount] else [])
  | _ => []

/-- The balances a transfer involves, each account once. -/
def involved (b : Books ι κ) : Call ι κ → List JsNumber
  | .transfer i peer _ _ => [i, peer].dedup.map fun i => (b.ledgers i).balance
  | .transferPods k fromPodId toPodId _ _ _ => [fromPodId, toPodId].dedup.map (b.parties k).balanceOf
  | _ => []

/-- What a call does: it posts its amounts or leaves everything as it was, and a transfer keeps the total. -/
structure Kept (b : Books ι κ) (c : Call ι κ) : Prop where
  posted : (b.call c).2 = .done →
    (∀ i, ((b.call c).1.ledgers i).entries.map LedgerEntry.posting =
      (b.ledgers i).entries.map LedgerEntry.posting ++ ledgerPostings i c) ∧
    ∀ k p, ((b.call c).1.history k).flatMap (Transaction.postings p) =
      (b.history k).flatMap (Transaction.postings p) ++ partyPostings k p c
  untouched : (b.call c).2 ≠ .done → (b.call c).1.ledgers = b.ledgers ∧ (b.call c).1.history = b.history ∧
    ∀ k, (∀ p, ((b.call c).1.parties k).balanceOf p = (b.parties k).balanceOf p) ∧
      ((b.call c).1.parties k).transactions = (b.parties k).transactions
  total : ∃ n, Totals (involved b c) n ∧ Totals (involved (b.call c).1 c) n

/-! ### Totals of a transfer -/

theorem worth_of_exact (h : Exact start ps balance) : ∃ n, worth balance = some n := by
  obtain ⟨_, _, b, _, _, _, _, hb, _⟩ := h
  exact ⟨b, hb⟩

theorem totals_pair {x y : JsNumber} {m n : WithTop ℤ} (hx : worth x = some m) (hy : worth y = some n) :
    Totals [x, y] (m + n) := by
  have := (totals_nil.concat hx).concat hy
  rwa [zero_add] at this

theorem totals_singleton {x : JsNumber} {m : WithTop ℤ} (hx : worth x = some m) : Totals [x] m := by
  have := totals_nil.concat hx
  rwa [zero_add] at this

theorem total_of_two {x y : JsNumber} {m n : WithTop ℤ} (hx : worth x = some m) (hy : worth y = some n)
    (hpos : amount.le 0 = false) (hdebit : Debitable x amount) (hcredit : Creditable y amount) :
    Totals [x, y] (m + n) ∧ Totals [x.sub amount, y.add amount] (m + n) := by
  obtain ⟨r, k, hr, hk, rfl⟩ := worth_sub hx hdebit hpos
  refine ⟨totals_pair hx hy, ?_⟩
  have := totals_pair hr (worth_add hy hk hcredit.2)
  rwa [add_comm n, ← add_assoc] at this

theorem total_of_one {x : JsNumber} {m : WithTop ℤ} (hx : worth x = some m) (hpos : amount.le 0 = false)
    (hdebit : Debitable x amount) (hcredit : Creditable (x.sub amount) amount) :
    Totals [x] m ∧ Totals [(x.sub amount).add amount] m := by
  obtain ⟨r, k, hr, hk, rfl⟩ := worth_sub hx hdebit hpos
  exact ⟨totals_singleton hx, totals_singleton (worth_add hr hk hcredit.2)⟩

/-! ### Steps -/

section Steps

variable {b : Books ι κ} {c : Call ι κ} {initialCredits : κ → JsNumber} {i : ι} {k : κ} {expected : List Posting}

omit [DecidableEq κ] in
theorem balanced_putLedger (h : Balanced initialCredits b) {r : Except LedgerError CreditLedger}
    (hr : ∀ l, r = .ok l → LedgerExact l) : Balanced initialCredits (b.putLedger i r).1 := by
  cases r with
  | error e => exact h
  | ok l =>
      refine ⟨fun i' => ?_, h.parties, h.start⟩
      simp only [Books.putLedger, Function.update_apply]
      split_ifs
      · exact hr l rfl
      · exact h.ledgers i'

theorem kept_putLedger (expected : List Posting) {r : Except LedgerError CreditLedger} (hcall : b.call c = b.putLedger i r)
    (hr : ∀ l, r = .ok l → l.entries.map LedgerEntry.posting = (b.ledgers i).entries.map LedgerEntry.posting ++ expected)
    (hledger : ∀ i', ledgerPostings i' c = if i = i' then expected else []) (hparty : ∀ k p, partyPostings k p c = [])
    (hinvolved : ∀ b : Books ι κ, involved b c = []) : Kept b c where
  posted := by
    rw [hcall]
    cases r with
    | error e => exact fun h => Outcome.noConfusion h
    | ok l =>
        refine fun _ => ⟨fun i' => ?_, fun k p => by rw [hparty, List.append_nil]; rfl⟩
        simp only [Books.putLedger, Function.update_apply, hledger]
        by_cases hi : i = i'
        · subst hi
          simpa using hr l rfl
        · rw [if_neg (Ne.symm hi), if_neg hi, List.append_nil]
  untouched := by
    rw [hcall]
    cases r with
    | error e => exact fun _ => ⟨rfl, rfl, fun k => ⟨fun p => rfl, rfl⟩⟩
    | ok l => exact fun h => absurd rfl h
  total := ⟨0, by rw [hinvolved]; exact totals_nil, by rw [hinvolved]; exact totals_nil⟩

omit [DecidableEq ι] in
theorem balanced_putParty (h : Balanced initialCredits b) {r : MultiPartyCreditLedger × List Transaction × Outcome}
    {expected : JsString → List Posting} (hr : PartyStep (b.parties k) (b.history k) r expected) :
    Balanced initialCredits (b.putParty k r).1 := by
  refine ⟨h.ledgers, fun k' => ?_, fun k' => ?_⟩
  · simp only [Books.putParty, Function.update_apply]
    split_ifs with hk
    · exact hr.exact'
    · exact h.parties k'
  · simp only [Books.putParty, Function.update_apply]
    split_ifs with hk
    · rw [hr.start, hk, h.start]
    · exact h.start k'

theorem kept_putParty {r : MultiPartyCreditLedger × List Transaction × Outcome} {expected : JsString → List Posting}
    (hcall : b.call c = b.putParty k r) (hr : PartyStep (b.parties k) (b.history k) r expected)
    (hparty : ∀ k' p, partyPostings k' p c = if k = k' then expected p else []) (hledger : ∀ i, ledgerPostings i c = [])
    (htotal : ∃ n, Totals (involved b c) n ∧ Totals (involved (b.call c).1 c) n) : Kept b c where
  posted := by
    rw [hcall]
    refine fun hdone => ⟨fun i => by rw [hledger, List.append_nil]; rfl, fun k' p => ?_⟩
    simp only [Books.putParty, Function.update_apply, hparty]
    by_cases hk : k = k'
    · subst hk
      simp only [if_true, List.flatMap_append, hr.posted hdone]
    · rw [if_neg (Ne.symm hk), if_neg hk, List.append_nil]
  untouched := by
    rw [hcall]
    intro hdone
    obtain ⟨hnone, hbalances, htransactions⟩ := hr.untouched hdone
    refine ⟨rfl, ?_, fun k' => ?_⟩
    · simp only [Books.putParty, hnone, List.append_nil, Function.update_eq_self]
    · simp only [Books.putParty, Function.update_apply]
      by_cases hk : k' = k
      · subst hk
        simpa using ⟨hbalances, htransactions⟩
      · simp [hk]
  total := htotal

omit [DecidableEq κ] in
theorem call_transfer (peer : ι) (memo : Option JsString) :
    (∃ e, (b.ledgers i).debit amount (b.ledgers peer).ownerId memo = .error e ∧
      b.transfer i peer amount memo = (b, .threw)) ∨
    ∃ l l', (b.ledgers i).debit amount (b.ledgers peer).ownerId memo = .ok l ∧
      (if peer = i then l else b.ledgers peer).credit amount (b.ledgers i).ownerId memo = .ok l' ∧
      b.transfer i peer amount memo =
        ({ b with ledgers := Function.update (Function.update b.ledgers i l) peer l' }, .done) := by
  unfold Books.transfer
  cases hdebit : (b.ledgers i).debit amount (b.ledgers peer).ownerId memo with
  | error e => exact Or.inl ⟨e, rfl, rfl⟩
  | ok l =>
      obtain ⟨hpos, _, _⟩ := debit_eq_ok hdebit
      have hcredit : ∀ l₁ : CreditLedger, ∃ l', l₁.credit amount (b.ledgers i).ownerId memo = .ok l' := fun l₁ =>
        ⟨_, if_neg (by simp [hpos])⟩
      obtain ⟨l', hl'⟩ := hcredit (if peer = i then l else b.ledgers peer)
      refine Or.inr ⟨l, l', rfl, hl', ?_⟩
      simp only [Function.update_apply, hl', Books.putLedger]

theorem transfer_step (h : Balanced initialCredits b) {peer : ι} {memo : Option JsString}
    (hclean : Clean b (.transfer i peer amount memo)) :
    Balanced initialCredits (b.call (.transfer i peer amount memo)).1 ∧ Kept b (.transfer i peer amount memo) := by
  obtain ⟨x, hx⟩ := worth_of_exact (h.ledgers i).balance
  obtain ⟨y, hy⟩ := worth_of_exact (h.ledgers peer).balance
  have hcall : b.call (.transfer i peer amount memo) = b.transfer i peer amount memo := rfl
  rcases call_transfer (b := b) (i := i) peer memo with ⟨e, _, hthrew⟩ | ⟨l, l', hdebit, hcredit, hdone⟩
  · rw [hthrew] at hcall
    refine ⟨by rw [hcall]; exact h, ?_, ?_, ?_⟩
    · rw [hcall]
      exact fun hd => Outcome.noConfusion hd
    · rw [hcall]
      exact fun _ => ⟨rfl, rfl, fun k => ⟨fun p => rfl, rfl⟩⟩
    · rw [hcall]
      by_cases hpeer : peer = i
      · subst hpeer
        exact ⟨x, by simpa [involved] using totals_singleton hx, by simpa [involved] using totals_singleton hx⟩
      · have hne : ¬ i = peer := fun h => hpeer h.symm
        exact ⟨x + y, by simpa [involved, hne] using totals_pair hx hy, by simpa [involved, hne] using totals_pair hx hy⟩
  · rw [hdone] at hcall
    obtain ⟨hpos, hlt, hl⟩ := debit_eq_ok hdebit
    obtain ⟨_, hl'⟩ := credit_eq_ok hcredit
    obtain ⟨hdebitable, hcreditable⟩ := (hclean.resolve_left (by simp [hpos])).resolve_left (by simp [hlt])
    have hlexact := (h.ledgers i).debit hdebitable hdebit
    by_cases hpeer : peer = i
    · subst hpeer
      rw [if_pos rfl] at hcredit hl' hcreditable
      have hlbalance : l.balance = (b.ledgers peer).balance.sub amount := by rw [hl]
      have hl'exact := hlexact.credit (by rw [hlbalance]; exact hcreditable) hcredit
      obtain ⟨ht, ht'⟩ := total_of_one hx hpos hdebitable hcreditable
      refine ⟨⟨fun i' => ?_, by rw [hcall]; exact h.parties, by rw [hcall]; exact h.start⟩, fun _ => ⟨fun i' => ?_, ?_⟩, ?_,
        x, by simpa [involved] using ht, ?_⟩
      · rw [hcall]
        simp only [Function.update_apply]
        split_ifs
        · exact hl'exact
        · exact h.ledgers i'
      · rw [hcall]
        simp only [Function.update_apply, ledgerPostings]
        by_cases hi : i' = peer
        · subst hi
          simp [hl', hl, LedgerEntry.posting]
        · simp [hi, Ne.symm hi]
      · rw [hcall]
        exact fun k p => by simp [partyPostings]
      · rw [hcall]
        exact fun hd => absurd rfl hd
      · rw [hcall]
        simpa [involved, hl', hlbalance] using ht'
    · have hne : ¬ i = peer := fun h => hpeer h.symm
      rw [if_neg hpeer] at hcredit hl' hcreditable
      have hl'exact := (h.ledgers peer).credit hcreditable hcredit
      obtain ⟨ht, ht'⟩ := total_of_two hx hy hpos hdebitable hcreditable
      refine ⟨⟨fun i' => ?_, by rw [hcall]; exact h.parties, by rw [hcall]; exact h.start⟩, fun _ => ⟨fun i' => ?_, ?_⟩, ?_,
        x + y, by simpa [involved, hne] using ht, ?_⟩
      · rw [hcall]
        simp only [Function.update_apply]
        split_ifs
        · exact hl'exact
        · exact hlexact
        · exact h.ledgers i'
      · rw [hcall]
        simp only [Function.update_apply, ledgerPostings]
        by_cases hi : i' = peer
        · subst hi
          simp [hl', LedgerEntry.posting, hne]
        · by_cases hi' : i' = i
          · subst hi'
            simp [hl, LedgerEntry.posting, hpeer, hne]
          · simp [hi, hi', Ne.symm hi, Ne.symm hi']
      · rw [hcall]
        exact fun k p => by simp [partyPostings]
      · rw [hcall]
        exact fun hd => absurd rfl hd
      · rw [hcall]
        simpa [involved, hne, hl', hl, Function.update_apply] using ht'

theorem pods_total (h : Balanced initialCredits b) {fromPodId toPodId : JsString} {memo : Option JsString} {logThrows : Bool}
    (hclean : Clean b (.transferPods k fromPodId toPodId amount memo logThrows)) :
    ∃ n, Totals (involved b (.transferPods k fromPodId toPodId amount memo logThrows)) n ∧
      Totals (involved (b.call (.transferPods k fromPodId toPodId amount memo logThrows)).1
        (.transferPods k fromPodId toPodId amount memo logThrows)) n := by
  obtain ⟨x, hx⟩ := worth_of_exact ((h.parties k).balance fromPodId)
  obtain ⟨y, hy⟩ := worth_of_exact ((h.parties k).balance toPodId)
  have hparty : ((b.call (.transferPods k fromPodId toPodId amount memo logThrows)).1.parties k) =
      ((b.parties k).transfer fromPodId toPodId amount memo logThrows).1 := by
    simp [Books.call, Books.putParty]
  by_cases hmoves : amount.le 0 = false ∧ ((b.parties k).balanceOf fromPodId).lt amount = false
  · obtain ⟨hpos, hlt⟩ := hmoves
    obtain ⟨rfl, hne, hdebit, hcredit⟩ := (hclean.resolve_left (by simp [hpos])).resolve_left (by simp [hlt])
    obtain ⟨ht, ht'⟩ := total_of_two hx hy hpos hdebit hcredit
    refine ⟨x + y, by simpa [involved, hne] using ht, ?_⟩
    have hfrom : ((b.parties k).transfer fromPodId toPodId amount memo false).1.balanceOf fromPodId =
        ((b.parties k).balanceOf fromPodId).sub amount := by
      simp [MultiPartyCreditLedger.transfer, hpos, hlt, hne]
    have hto : ((b.parties k).transfer fromPodId toPodId amount memo false).1.balanceOf toPodId =
        ((b.parties k).balanceOf toPodId).add amount := by
      simp [MultiPartyCreditLedger.transfer, hpos, hlt, hne.symm]
    simpa [involved, hne, hparty, hfrom, hto] using ht'
  · have hsame : ∀ p, ((b.parties k).transfer fromPodId toPodId amount memo logThrows).1.balanceOf p =
        (b.parties k).balanceOf p := by
      intro p
      by_cases hpos : amount.le 0 = false
      · simp [MultiPartyCreditLedger.transfer, hpos, Bool.eq_true_of_not_eq_false fun hlt => hmoves ⟨hpos, hlt⟩]
      · simp [MultiPartyCreditLedger.transfer, Bool.eq_true_of_not_eq_false hpos]
    by_cases hne : fromPodId = toPodId
    · subst hne
      exact ⟨x, by simpa [involved] using totals_singleton hx, by simpa [involved, hparty, hsame] using totals_singleton hx⟩
    · exact ⟨x + y, by simpa [involved, hne] using totals_pair hx hy,
        by simpa [involved, hne, hparty, hsame] using totals_pair hx hy⟩

theorem call_step (h : Balanced initialCredits b) (hclean : Clean b c) :
    Balanced initialCredits (b.call c).1 ∧ Kept b c := by
  cases c with
  | credit i amount fromPodId memo =>
      have hr : ∀ l, (b.ledgers i).credit amount fromPodId memo = .ok l → LedgerExact l := by
        intro l hl
        exact (h.ledgers i).credit (hclean.resolve_left (by simp [(credit_eq_ok hl).1])) hl
      refine ⟨balanced_putLedger h hr, kept_putLedger [.credit amount] rfl (fun l hl => ?_) (fun i' => rfl)
        (fun k p => rfl) (fun b => rfl)⟩
      rw [(credit_eq_ok hl).2]
      simp [LedgerEntry.posting]
  | debit i amount toPodId memo =>
      have hr : ∀ l, (b.ledgers i).debit amount toPodId memo = .ok l → LedgerExact l := by
        intro l hl
        obtain ⟨hpos, hlt, _⟩ := debit_eq_ok hl
        exact (h.ledgers i).debit ((hclean.resolve_left (by simp [hpos])).resolve_left (by simp [hlt])) hl
      refine ⟨balanced_putLedger h hr, kept_putLedger [.debit amount] rfl (fun l hl => ?_) (fun i' => rfl)
        (fun k p => rfl) (fun b => rfl)⟩
      rw [(debit_eq_ok hl).2.2]
      simp [LedgerEntry.posting]
  | transfer i peer amount memo => exact transfer_step h hclean
  | getBalance k podId =>
      have hr : PartyStep (b.parties k) (b.history k) ((b.parties k).getBalance podId, [], .done) fun _ => [] :=
        ⟨by rw [List.append_nil]; exact (h.parties k).getBalance podId, by simp, fun _ _ => rfl, fun hd => absurd rfl hd⟩
      exact ⟨balanced_putParty h hr, kept_putParty rfl hr (fun k' p => by simp [partyPostings]) (fun i => rfl)
        ⟨0, totals_nil, totals_nil⟩⟩
  | charge k podId amount memo logThrows =>
      have hr := partyStep_charge memo (h.parties k) hclean
      exact ⟨balanced_putParty h hr, kept_putParty rfl hr (fun k' p => by simp only [partyPostings]; split_ifs <;> simp_all)
        (fun i => rfl) ⟨0, totals_nil, totals_nil⟩⟩
  | creditPod k podId amount memo logThrows =>
      have hr := partyStep_credit memo (h.parties k) hclean
      exact ⟨balanced_putParty h hr, kept_putParty rfl hr (fun k' p => by simp only [partyPostings]; split_ifs <;> simp_all)
        (fun i => rfl) ⟨0, totals_nil, totals_nil⟩⟩
  | transferPods k fromPodId toPodId amount memo logThrows =>
      have hr := partyStep_transfer memo (h.parties k) hclean
      refine ⟨balanced_putParty h hr, kept_putParty rfl hr (fun k' p => ?_) (fun i => rfl) (pods_total h hclean)⟩
      simp only [partyPostings]
      by_cases hk : k = k'
      · simp [hk]
      · simp [hk]

end Steps

/-! ### Main result -/

variable {owner : ι → NonEmptyString} {initialCredits : κ → JsNumber} {maxTransactions : κ → ℕ}

/-- In every run of clean calls on books whose starting credits are not negative, every balance and every running balance
is exact, and every further clean call posts its amounts or leaves everything as it was, with the total of a transfer
kept. -/
theorem ledgers_conserve (hstart : ∀ k, (initialCredits k).NonNeg) {b : Books ι κ}
    (h : (machine owner initialCredits maxTransactions).Reach Clean b) :
    Balanced initialCredits b ∧ ∀ c, Clean b c → Kept b c := by
  have hinv : Balanced initialCredits b := by
    refine h.invariant (I := Balanced initialCredits) ?_ fun b c b' hb hclean hb' => ?_
    · exact ⟨fun i => ledgerExact_new (owner i), fun k => partyExact_new (hstart k) (maxTransactions k), fun k => rfl⟩
    · obtain rfl := Option.some.inj hb'
      exact (call_step hb hclean).1
  exact ⟨hinv, fun c hclean => (call_step hinv hclean).2⟩

theorem ledgers_conserve_run :
    ∃ b : Books Bool Unit, (b.ledgers false).balance = .ofNat 3 ∧ (b.parties ()).balanceOf (js "q") = .ofNat 110 ∧
      Balanced (fun _ => .ofNat 100) b ∧ ∀ c, Clean b c → Kept b c := by
  have hstart : ∀ k : Unit, (JsNumber.ofNat 100).NonNeg := fun _ => by decide +kernel
  obtain ⟨b, _, hb, hbalance, hpod⟩ := Machine.exists_of_run
    (P := fun b : Books Bool Unit =>
      (b.ledgers false).balance = .ofNat 3 ∧ (b.parties ()).balanceOf (js "q") = .ofNat 110)
    (show ((machine (fun i : Bool => ⟨if i then js "a" else js "b", by cases i <;> decide⟩)
        (fun _ : Unit => .ofNat 100) fun _ => 2).run Clean (machine _ _ _).init
      [.credit true (.ofNat 5) (js "c") none, .transfer true false (.ofNat 3) none,
        .transfer true false (.ofNat 3) none, .transferPods () (js "p") (js "q") (.ofNat 10) none false,
        .charge () (js "p") (.ofNat 91) none true]).any _ = true by decide +kernel)
  exact ⟨b, hbalance, hpod, ledgers_conserve hstart hb⟩

/-- `NaN` passes both checks of an amount, and a pod that pays itself is recorded with a balance it does not have. -/
theorem ledgers_disturbed :
    (∃ b : Books Unit Unit, (machine (fun _ : Unit => ⟨js "a", by decide⟩) (fun _ : Unit => .ofNat 100) fun _ => 9).Reach
      (fun _ _ => True) b ∧ (b.ledgers ()).balance = .nan ∧ ¬ Balanced (fun _ => .ofNat 100) b) ∧
    ∃ b : Books Unit Unit, (machine (fun _ : Unit => ⟨js "a", by decide⟩) (fun _ : Unit => .ofNat 100) fun _ => 9).Reach
      (fun _ _ => True) b ∧ (b.parties ()).transactions.map (fun tx => (tx.podId, tx.balance)) = [(js "p", .ofNat 70)] ∧
      (b.parties ()).balanceOf (js "p") = .ofNat 100 := by
  constructor
  · obtain ⟨b, _, hb, hnan⟩ := Machine.exists_of_run
      (P := fun b : Books Unit Unit => (b.ledgers ()).balance = .nan)
      (show ((machine (fun _ : Unit => ⟨js "a", by decide⟩) (fun _ : Unit => .ofNat 100) fun _ => 9).run
        (fun _ _ => True) (machine _ _ _).init [.credit () .nan (js "c") none]).any _ = true by decide +kernel)
    refine ⟨b, hb, hnan, fun h => ?_⟩
    obtain ⟨n, hn⟩ := worth_of_exact (h.ledgers ()).balance
    rw [hnan] at hn
    simp [worth] at hn
  · obtain ⟨b, _, hb, htx, hbalance⟩ := Machine.exists_of_run
      (P := fun b : Books Unit Unit =>
        (b.parties ()).transactions.map (fun tx => (tx.podId, tx.balance)) = [(js "p", .ofNat 70)] ∧
          (b.parties ()).balanceOf (js "p") = .ofNat 100)
      (show ((machine (fun _ : Unit => ⟨js "a", by decide⟩) (fun _ : Unit => .ofNat 100) fun _ => 9).run
        (fun _ _ => True) (machine _ _ _).init
        [.transferPods () (js "p") (js "p") (.ofNat 30) none false]).any _ = true by decide +kernel)
    exact ⟨b, hb, htx, hbalance⟩

end BrowserMesh.Apps.Ledgers
