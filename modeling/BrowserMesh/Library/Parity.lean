import Mathlib

/-! # One parity word for many words

* **Parity.**  Symbols are added up by an operation that is commutative and associative and that undoes itself.
* **Recovery.**  What is added up twice is gone (`foldl_foldl`), so adding all symbols but one to the sum of all gives the
  one that is missing (`foldl_missing`). -/

namespace BrowserMesh.Parity

/-- Adding a symbol twice changes nothing. -/
class Undoes {α : Type} (op : α → α → α) : Prop where
  undo : ∀ a b, op (op a b) b = a

variable {α : Type} (op : α → α → α) [Std.Commutative op] [Std.Associative op]

theorem right_comm (e a b : α) : op (op e a) b = op (op e b) a := by
  have hassoc : ∀ a b c, op (op a b) c = op a (op b c) := Std.Associative.assoc
  have hcomm : ∀ a b, op a b = op b a := Std.Commutative.comm
  rw [hassoc, hcomm a b, ← hassoc]

theorem foldl_op (l : List α) (e a : α) : l.foldl op (op e a) = op (l.foldl op e) a := by
  induction l generalizing e with
  | nil => rfl
  | cons b l ih =>
      have hswap : op (op e a) b = op (op e b) a := right_comm op e a b
      rw [List.foldl_cons, List.foldl_cons, hswap, ih]

variable [Undoes op]

theorem foldl_foldl (l : List α) (e : α) : l.foldl op (l.foldl op e) = e := by
  induction l generalizing e with
  | nil => rfl
  | cons a l ih =>
      rw [List.foldl_cons, List.foldl_cons, foldl_op, ih]
      exact Undoes.undo e a

/-- The sum of all symbols and the other symbols give the missing one. -/
theorem foldl_missing {all rest : List α} {a : α} (h : all.Perm (a :: rest)) (e : α) :
    rest.foldl op (all.foldl op e) = op e a := by
  rw [h.foldl_op_eq, List.foldl_cons, foldl_foldl]

end BrowserMesh.Parity
