import Mathlib

/-! # The first element of greatest key

A loop keeps the best element so far and its key, and takes an element only when its key is greater.  Over a list it ends
with the first element of greatest key, or with what it started from when no key is above the first one. -/

namespace BrowserMesh.Best

variable {α κ : Type} [LinearOrder κ] (key : α → κ)

def keep (best : Option α × κ) (a : α) : Option α × κ :=
  if best.2 < key a then (some a, key a) else best

/-- `d` is the first element of greatest key of `l`. -/
structure First (l : List α) (d : α) (earlier later : List α) : Prop where
  split : l = earlier ++ d :: later
  lt : ∀ a ∈ earlier, key a < key d
  le : ∀ a ∈ later, key a ≤ key d

variable {key}
variable {l earlier later : List α}

theorem First.cons {a d : α} (h : First key l d earlier later) (ha : key a < key d) :
    First key (a :: l) d (a :: earlier) later where
  split := by rw [h.split, List.cons_append]
  lt := fun b hb => by
    rcases List.mem_cons.mp hb with rfl | hb
    · exact ha
    · exact h.lt b hb
  le := h.le

theorem First.le_of_mem {a d : α} (h : First key l d earlier later) (ha : a ∈ l) :
    key a ≤ key d := by
  rw [h.split, List.mem_append, List.mem_cons] at ha
  rcases ha with ha | rfl | ha
  · exact (h.lt a ha).le
  · exact le_rfl
  · exact h.le a ha

theorem First.mem {d : α} (h : First key l d earlier later) : d ∈ l := by
  rw [h.split]
  exact List.mem_append_right _ List.mem_cons_self

theorem foldl_keep (key : α → κ) (l : List α) (best : Option α × κ) :
    (l.foldl (keep key) best = best ∧ ∀ a ∈ l, key a ≤ best.2) ∨
      ∃ d earlier later, l.foldl (keep key) best = (some d, key d) ∧ best.2 < key d ∧
        First key l d earlier later := by
  induction l generalizing best with
  | nil => exact Or.inl ⟨rfl, fun a ha => absurd ha List.not_mem_nil⟩
  | cons a l ih =>
      rw [List.foldl_cons]
      by_cases hlt : best.2 < key a
      · have hkeep : keep key best a = (some a, key a) := if_pos hlt
        rw [hkeep]
        rcases ih (some a, key a) with ⟨hr, hle⟩ | ⟨d, earlier, later, hr, hd, hfirst⟩
        · exact Or.inr ⟨a, [], l, hr, hlt, rfl, fun b hb => absurd hb List.not_mem_nil, hle⟩
        · exact Or.inr ⟨d, a :: earlier, later, hr, hlt.trans hd, hfirst.cons hd⟩
      · have hkeep : keep key best a = best := if_neg hlt
        rw [hkeep]
        rcases ih best with ⟨hr, hle⟩ | ⟨d, earlier, later, hr, hd, hfirst⟩
        · refine Or.inl ⟨hr, fun b hb => ?_⟩
          rcases List.mem_cons.mp hb with rfl | hb
          · exact not_lt.mp hlt
          · exact hle b hb
        · exact Or.inr ⟨d, a :: earlier, later, hr, hd, hfirst.cons ((not_lt.mp hlt).trans_lt hd)⟩

end BrowserMesh.Best
