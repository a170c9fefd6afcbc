import Mathlib.Algebra.Order.Ring.Defs
import Mathlib.Algebra.Order.BigOperators.Ring.List
import Mathlib.Data.List.Nodup

/-! # Weighted walks

* A walk is the list of its steps: the node a step leads to and its weight.  `gain` is the product of the weights.
* `exists_simple`: a walk has a part with the same ends that meets no node twice.  If no weight is above one, the part
  gains at least as much as the walk. -/

namespace BrowserMesh.Walks

variable {α R : Type} (succ : α → List (α × R))

/-- The steps lead from the first node to the second one. -/
def IsWalk : α → α → List (α × R) → Prop
  | a, b, [] => a = b
  | a, b, s :: w => s ∈ succ a ∧ IsWalk s.1 b w

/-- The nodes that the steps lead to. -/
def nodes (w : List (α × R)) : List α := w.map Prod.fst

variable {succ}
variable {w : List (α × R)}

theorem IsWalk.append {a b c : α} {w' : List (α × R)} (h : IsWalk succ a b w) (h' : IsWalk succ b c w') :
    IsWalk succ a c (w ++ w') := by
  induction w generalizing a with
  | nil =>
      obtain rfl := h
      exact h'
  | cons s w ih => exact ⟨h.1, ih h.2⟩

theorem IsWalk.snoc {a b : α} (h : IsWalk succ a b w) {s : α × R} (hs : s ∈ succ b) :
    IsWalk succ a s.1 (w ++ [s]) :=
  h.append ⟨hs, rfl⟩

theorem nodes_snoc (w : List (α × R)) (s : α × R) : nodes (w ++ [s]) = nodes w ++ [s.1] := List.map_append

/-- What is left of a walk after a visit to one of its nodes. -/
theorem IsWalk.exists_rest {a b c : α} (h : IsWalk succ a b w) (hc : c ∈ a :: nodes w) :
    ∃ w', w'.Sublist w ∧ IsWalk succ c b w' ∧ ((a :: nodes w).Nodup → (c :: nodes w').Nodup) := by
  induction w generalizing a with
  | nil =>
      obtain rfl := List.mem_singleton.mp hc
      exact ⟨[], List.Sublist.slnil, h, id⟩
  | cons s w ih =>
      obtain rfl | hc := List.mem_cons.mp hc
      · exact ⟨s :: w, List.Sublist.refl _, h, id⟩
      · obtain ⟨w', hsub, hwalk, hnodup⟩ := ih h.2 hc
        exact ⟨w', hsub.cons s, hwalk, fun hn => hnodup (List.nodup_cons.mp hn).2⟩

/-- **No detours**: a part of the walk leads there and meets no node twice. -/
theorem IsWalk.exists_simple {a b : α} (h : IsWalk succ a b w) :
    ∃ w', w'.Sublist w ∧ IsWalk succ a b w' ∧ (a :: nodes w').Nodup := by
  induction w generalizing a with
  | nil => exact ⟨[], List.Sublist.slnil, h, List.nodup_singleton a⟩
  | cons s w ih =>
      obtain ⟨w', hsub, hwalk, hnodup⟩ := ih h.2
      by_cases ha : a ∈ s.1 :: nodes w'
      · -- the walk comes back to its start: only the rest is needed
        obtain ⟨w₂, hsub₂, hwalk₂, hnodup₂⟩ := hwalk.exists_rest ha
        exact ⟨w₂, (hsub₂.trans hsub).cons s, hwalk₂, hnodup₂ hnodup⟩
      · exact ⟨s :: w', hsub.cons_cons s, ⟨h.1, hwalk⟩, List.nodup_cons.mpr ⟨ha, hnodup⟩⟩

section gain
variable [CommSemiring R]

def gain (w : List (α × R)) : R := (w.map Prod.snd).prod

@[simp] theorem gain_nil : gain ([] : List (α × R)) = 1 := rfl

@[simp] theorem gain_cons (s : α × R) (w : List (α × R)) : gain (s :: w) = s.2 * gain w := by
  rw [gain, gain, List.map_cons, List.prod_cons]

theorem gain_snoc (w : List (α × R)) (s : α × R) : gain (w ++ [s]) = gain w * s.2 := by
  rw [gain, gain, List.map_append, List.prod_append, List.map_singleton, List.prod_singleton]

variable [LinearOrder R] [IsStrictOrderedRing R]

/-- The weights are neither negative nor above one. -/
def Shares (w : List (α × R)) : Prop := ∀ s ∈ w, 0 ≤ s.2 ∧ s.2 ≤ 1

variable {w : List (α × R)}

omit [IsStrictOrderedRing R] in
theorem Shares.tail {s : α × R} (h : Shares (s :: w)) : Shares w := fun t ht =>
  h t (List.mem_cons_of_mem _ ht)

theorem gain_nonneg (h : Shares w) : 0 ≤ gain w := by
  induction w with
  | nil => exact zero_le_one
  | cons s w ih =>
      rw [gain_cons]
      exact mul_nonneg (h s List.mem_cons_self).1 (ih h.tail)

theorem gain_le_one (h : Shares w) : gain w ≤ 1 := by
  induction w with
  | nil => exact le_rfl
  | cons s w ih =>
      rw [gain_cons]
      exact mul_le_one₀ (h s List.mem_cons_self).2 (gain_nonneg h.tail) (ih h.tail)

theorem gain_le_of_sublist {w' : List (α × R)} (hsub : w'.Sublist w) (h : Shares w) : gain w ≤ gain w' := by
  induction hsub with
  | slnil => exact le_rfl
  | @cons w' w s hsub ih =>
      rw [gain_cons]
      exact (mul_le_of_le_one_left (gain_nonneg h.tail) (h s List.mem_cons_self).2).trans (ih h.tail)
  | @cons_cons w' w s hsub ih =>
      rw [gain_cons, gain_cons]
      exact mul_le_mul_of_nonneg_left (ih h.tail) (h s List.mem_cons_self).1

end gain

end BrowserMesh.Walks
