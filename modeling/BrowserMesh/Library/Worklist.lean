import Mathlib

/-! # Worklists

`drain` takes the first item of a queue, updates an accumulator and appends the new items, until the queue is empty.
It ends where every item weighs more than all the items that replace it (`Shrinks`); what every turn keeps holds at the
end, with an empty queue (`drain_induct`). -/

namespace BrowserMesh.Worklist

variable {α β : Type} (expand : β → α → β × List α) (weight : α → ℕ)

/-- An item weighs more than what is put in its place. -/
def Shrinks : Prop := ∀ b a, ((expand b a).2.map weight).sum < weight a

variable {expand weight}

theorem Shrinks.sum_lt (h : Shrinks expand weight) (a : α) (queue : List α) (b : β) :
    ((queue ++ (expand b a).2).map weight).sum < ((a :: queue).map weight).sum := by
  have hlt := h b a
  rw [List.map_append, List.sum_append, List.map_cons, List.sum_cons]
  omega

def drain (h : Shrinks expand weight) : List α → β → β
  | [], b => b
  | a :: queue, b => drain h (queue ++ (expand b a).2) (expand b a).1
termination_by queue => (queue.map weight).sum
decreasing_by exact h.sum_lt a queue b

theorem drain_nil (h : Shrinks expand weight) (b : β) : drain h [] b = b := by
  rw [drain]

theorem drain_cons (h : Shrinks expand weight) (a : α) (queue : List α) (b : β) :
    drain h (a :: queue) b = drain h (queue ++ (expand b a).2) (expand b a).1 := by
  rw [drain]

/-- **What every turn keeps** holds at the end. -/
theorem drain_induct (h : Shrinks expand weight) {I : List α → β → Prop}
    (hturn : ∀ a queue b, I (a :: queue) b → I (queue ++ (expand b a).2) (expand b a).1) (queue : List α) (b : β)
    (hI : I queue b) : I [] (drain h queue b) := by
  induction hn : (queue.map weight).sum using Nat.strongRecOn generalizing queue b with
  | ind n ih =>
      cases queue with
      | nil =>
          rw [drain_nil]
          exact hI
      | cons a queue =>
          rw [drain_cons]
          exact ih _ (hn ▸ h.sum_lt a queue b) _ _ (hturn a queue b hI) rfl

end BrowserMesh.Worklist
