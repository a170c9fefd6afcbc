import Mathlib.Data.List.Count

/-! # Counting in a list that is changed at one place -/

namespace BrowserMesh.Counting
variable {α : Type} (p : α → Bool) {l : List α} {i : ℕ} {a : α}

theorem countP_set_add (b : α) (h : l[i]? = some a) :
    (l.set i b).countP p + (if p a then 1 else 0) = l.countP p + if p b then 1 else 0 := by
  induction l generalizing i with
  | nil => cases h
  | cons c l ih =>
      cases i with
      | zero =>
          obtain rfl : c = a := by simpa using h
          rw [List.set_cons_zero, List.countP_cons, List.countP_cons]
          omega
      | succ i =>
          have hrest := ih (i := i) (by simpa using h)
          rw [List.set_cons_succ, List.countP_cons, List.countP_cons]
          omega

theorem countP_eraseIdx_add (h : l[i]? = some a) :
    (l.eraseIdx i).countP p + (if p a then 1 else 0) = l.countP p := by
  induction l generalizing i with
  | nil => cases h
  | cons c l ih =>
      cases i with
      | zero =>
          obtain rfl : c = a := by simpa using h
          rw [List.eraseIdx_cons_zero, List.countP_cons]
      | succ i =>
          have hrest := ih (i := i) (by simpa using h)
          rw [List.eraseIdx_cons_succ, List.countP_cons, List.countP_cons]
          omega

end BrowserMesh.Counting
