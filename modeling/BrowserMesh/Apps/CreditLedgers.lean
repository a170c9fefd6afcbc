import BrowserMesh.Js.Dict
import BrowserMesh.Js.Number
import BrowserMesh.Library.Transition

/-! # Credit ledgers

* **Ledgers.**  `CreditLedger`, the book of one pod, and `MultiPartyCreditLedger`, one book for all pods, with the checks
  and the entries of their calls.  Generated ids and times are left out of the entries.
* **Calls.**  Any number of both kinds of ledger, and the calls on them.  A `MultiPartyCreditLedger` writes to `onLog`
  before it returns, which may throw. -/

namespace BrowserMesh.Apps.Ledgers
open Js Transition

inductive EntryType where
  | credit
  | debit
deriving DecidableEq

structure LedgerEntry where
  type : EntryType
  amount : JsNumber
  counterparty : JsString
  memo : Option JsString
  /-- Running balance after this entry. -/
  balance : JsNumber
deriving DecidableEq

inductive LedgerError where
  | notPositive (amount : JsNumber)
  | insufficient (need have' : JsNumber)
deriving DecidableEq

/-- `memo || null`. -/
def memoOrNull (memo : Option JsString) : Option JsString := memo.filter fun m => m ≠ []

/-! ### One pod -/

structure CreditLedger where
  ownerId : JsString
  balance : JsNumber
  entries : List LedgerEntry
deriving DecidableEq

namespace CreditLedger

/-- The constructor. -/
def new (ownerId : NonEmptyString) : CreditLedger := ⟨ownerId, 0, []⟩

def credit (l : CreditLedger) (amount : JsNumber) (fromPodId : JsString) (memo : Option JsString) :
    Except LedgerError CreditLedger :=
  if amount.le 0 then .error (.notPositive amount)
  else
    let balance := l.balance.add amount
    .ok { l with balance := balance, entries := l.entries ++ [⟨.credit, amount, fromPodId, memoOrNull memo, balance⟩] }

def debit (l : CreditLedger) (amount : JsNumber) (toPodId : JsString) (memo : Option JsString) :
    Except LedgerError CreditLedger :=
  if amount.le 0 then .error (.notPositive amount)
  else if l.balance.lt amount then .error (.insufficient amount l.balance)
  else
    let balance := l.balance.sub amount
    .ok { l with balance := balance, entries := l.entries ++ [⟨.debit, amount, toPodId, memoOrNull memo, balance⟩] }

end CreditLedger

/-! ### All pods -/

inductive TransactionType where
  | charge
  | credit
  | transfer
deriving DecidableEq

structure Transaction where
  type : TransactionType
  podId : JsString
  toPodId : Option JsString
  amount : JsNumber
  memo : Option JsString
  balance : JsNumber
deriving DecidableEq

structure MultiPartyCreditLedger where
  balances : JsMap JsString JsNumber
  transactions : List Transaction
  initialCredits : JsNumber
  maxTransactions : ℕ
deriving DecidableEq

/-- How a call ends. -/
inductive Outcome where
  | done
  /-- `success: false`. -/
  | failed
  | threw
deriving DecidableEq

namespace MultiPartyCreditLedger

def DEFAULT_INITIAL_CREDITS : JsNumber := .ofNat 100

/-- The constructor. -/
def new (initialCredits : Option JsNumber) (maxTransactions : Option ℕ) : MultiPartyCreditLedger :=
  ⟨.empty, [], initialCredits.getD DEFAULT_INITIAL_CREDITS, maxTransactions.getD 10000⟩

/-- What `getBalance` returns. -/
def balanceOf (m : MultiPartyCreditLedger) (podId : JsString) : JsNumber :=
  (m.balances.get? podId).getD m.initialCredits

/-- What `getBalance` leaves behind. -/
def getBalance (m : MultiPartyCreditLedger) (podId : JsString) : MultiPartyCreditLedger :=
  if m.balances.has podId then m else { m with balances := m.balances.set podId m.initialCredits }

def setBalance (m : MultiPartyCreditLedger) (podId : JsString) (balance : JsNumber) : MultiPartyCreditLedger :=
  { m with balances := m.balances.set podId balance }

/-- `#recordTransaction`; `slice(-0)` keeps everything. -/
def recordTransaction (m : MultiPartyCreditLedger) (tx : Transaction) : MultiPartyCreditLedger :=
  let transactions := m.transactions ++ [tx]
  { m with transactions :=
      if m.maxTransactions < transactions.length ∧ 0 < m.maxTransactions then
        transactions.drop (transactions.length - m.maxTransactions)
      else transactions }

/-- The outcome of a call once `onLog` has been called. -/
def logged (logThrows : Bool) (outcome : Outcome) : Outcome := if logThrows then .threw else outcome

/-- `charge`, with the transaction it records. -/
def charge (m : MultiPartyCreditLedger) (podId : JsString) (amount : JsNumber) (memo : Option JsString)
    (logThrows : Bool) : MultiPartyCreditLedger × List Transaction × Outcome :=
  if amount.le 0 then (m, [], .threw)
  else
    let balance := m.balanceOf podId
    let m := m.getBalance podId
    if balance.lt amount then (m, [], logged logThrows .failed)
    else
      let newBalance := balance.sub amount
      let tx : Transaction := ⟨.charge, podId, none, amount, memoOrNull memo, newBalance⟩
      ((m.setBalance podId newBalance).recordTransaction tx, [tx], logged logThrows .done)

/-- `credit`, with the transaction it records. -/
def credit (m : MultiPartyCreditLedger) (podId : JsString) (amount : JsNumber) (memo : Option JsString)
    (logThrows : Bool) : MultiPartyCreditLedger × List Transaction × Outcome :=
  if amount.le 0 then (m, [], .threw)
  else
    let newBalance := (m.balanceOf podId).add amount
    let tx : Transaction := ⟨.credit, podId, none, amount, memoOrNull memo, newBalance⟩
    (((m.getBalance podId).setBalance podId newBalance).recordTransaction tx, [tx], logged logThrows .done)

/-- `transfer`, with the transaction it records. -/
def transfer (m : MultiPartyCreditLedger) (fromPodId toPodId : JsString) (amount : JsNumber) (memo : Option JsString)
    (logThrows : Bool) : MultiPartyCreditLedger × List Transaction × Outcome :=
  if amount.le 0 then (m, [], .threw)
  else
    let fromBalance := m.balanceOf fromPodId
    let m := m.getBalance fromPodId
    if fromBalance.lt amount then (m, [], logged logThrows .failed)
    else
      let newFromBalance := fromBalance.sub amount
      let m := m.setBalance fromPodId newFromBalance
      let newToBalance := (m.balanceOf toPodId).add amount
      let m := (m.getBalance toPodId).setBalance toPodId newToBalance
      let transferMemo := (memoOrNull memo).getD (js "transfer " ++ fromPodId ++ js " -> " ++ toPodId)
      let tx : Transaction := ⟨.transfer, fromPodId, some toPodId, amount, some transferMemo, newFromBalance⟩
      (m.recordTransaction tx, [tx], logged logThrows .done)

end MultiPartyCreditLedger

/-! ### Calls -/

/-- Ledgers of both kinds; `history` is every transaction that a multi-party ledger has recorded, also those that its
cap has dropped since. -/
structure Books (ι κ : Type) where
  ledgers : ι → CreditLedger
  parties : κ → MultiPartyCreditLedger
  history : κ → List Transaction

inductive Call (ι κ : Type) where
  | credit (i : ι) (amount : JsNumber) (fromPodId : JsString) (memo : Option JsString)
  | debit (i : ι) (amount : JsNumber) (toPodId : JsString) (memo : Option JsString)
  | transfer (i peer : ι) (amount : JsNumber) (memo : Option JsString)
  | getBalance (k : κ) (podId : JsString)
  | charge (k : κ) (podId : JsString) (amount : JsNumber) (memo : Option JsString) (logThrows : Bool)
  | creditPod (k : κ) (podId : JsString) (amount : JsNumber) (memo : Option JsString) (logThrows : Bool)
  | transferPods (k : κ) (fromPodId toPodId : JsString) (amount : JsNumber) (memo : Option JsString) (logThrows : Bool)

namespace Books
variable {ι κ : Type} [DecidableEq ι] [DecidableEq κ]

/-- What a call on `ledgers i` leaves of it; nothing when it throws. -/
def putLedger (b : Books ι κ) (i : ι) : Except LedgerError CreditLedger → Books ι κ × Outcome
  | .error _ => (b, .threw)
  | .ok l => ({ b with ledgers := Function.update b.ledgers i l }, .done)

/-- What a call on `parties k` leaves of it. -/
def putParty (b : Books ι κ) (k : κ) (r : MultiPartyCreditLedger × List Transaction × Outcome) : Books ι κ × Outcome :=
  ({ b with
      parties := Function.update b.parties k r.1
      history := Function.update b.history k (b.history k ++ r.2.1) }, r.2.2)

/-- `ledgers i .transfer(ledgers peer, …)`: a debit, and when it does not throw a credit. -/
def transfer (b : Books ι κ) (i peer : ι) (amount : JsNumber) (memo : Option JsString) : Books ι κ × Outcome :=
  match (b.ledgers i).debit amount (b.ledgers peer).ownerId memo with
  | .error _ => (b, .threw)
  | .ok l =>
      let debited : Books ι κ := { b with ledgers := Function.update b.ledgers i l }
      debited.putLedger peer ((debited.ledgers peer).credit amount (b.ledgers i).ownerId memo)

def call (b : Books ι κ) : Call ι κ → Books ι κ × Outcome
  | .credit i amount fromPodId memo => b.putLedger i ((b.ledgers i).credit amount fromPodId memo)
  | .debit i amount toPodId memo => b.putLedger i ((b.ledgers i).debit amount toPodId memo)
  | .transfer i peer amount memo => b.transfer i peer amount memo
  | .getBalance k podId => b.putParty k ((b.parties k).getBalance podId, [], .done)
  | .charge k podId amount memo logThrows => b.putParty k ((b.parties k).charge podId amount memo logThrows)
  | .creditPod k podId amount memo logThrows => b.putParty k ((b.parties k).credit podId amount memo logThrows)
  | .transferPods k fromPodId toPodId amount memo logThrows =>
      b.putParty k ((b.parties k).transfer fromPodId toPodId amount memo logThrows)

end Books

/-- Calls on ledgers that start empty. -/
def machine {ι κ : Type} [DecidableEq ι] [DecidableEq κ] (owner : ι → NonEmptyString)
    (initialCredits : κ → JsNumber) (maxTransactions : κ → ℕ) : Machine (Books ι κ) (Call ι κ) where
  init :=
    { ledgers := fun i => .new (owner i)
      parties := fun k => .new (some (initialCredits k)) (some (maxTransactions k))
      history := fun _ => [] }
  step b c := some (b.call c).1

end BrowserMesh.Apps.Ledgers
