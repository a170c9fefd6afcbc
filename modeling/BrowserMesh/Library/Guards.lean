import Mathlib.Tactic.SplitIfs

/-! # Guards of a check that may fail

A check is a sequence of guards in `Except`: `required` asks for a value, `failIf` refuses a condition.
The `_eq_ok` lemmas turn "the check passed" into the conjunction of what its guards ask for. -/

namespace BrowserMesh.Guards

variable {ε α β : Type}

/-- The value, or the error where there is none. -/
def required (e : ε) : Option α → Except ε α
  | some a => .ok a
  | none => .error e

/-- The error where the condition holds. -/
def failIf (p : Prop) [Decidable p] (e : ε) : Except ε Unit := if p then .error e else .ok ()

@[simp] theorem required_eq_ok {e : ε} {o : Option α} {a : α} : required e o = .ok a ↔ o = some a := by
  cases o <;> simp [required]

@[simp] theorem failIf_eq_ok {p : Prop} [Decidable p] {e : ε} {u : Unit} :
    failIf p e = .ok u ↔ ¬ p := by
  unfold failIf
  split_ifs with h <;> simp [h]

/-- A sequence passes when each of its parts does. -/
@[simp] theorem bind_eq_ok {x : Except ε α} {f : α → Except ε β} {b : β} :
    (x >>= f) = .ok b ↔ ∃ a, x = .ok a ∧ f a = .ok b := by
  cases x <;> simp [bind, Except.bind]

@[simp] theorem pure_eq_ok {a b : α} : (pure a : Except ε α) = .ok b ↔ a = b := by
  simp [pure, Except.pure]

end BrowserMesh.Guards
