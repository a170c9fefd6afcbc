import Mathlib

/-! # Patterns of classes

A pattern is a list of items: one element of a class, or any number of them.  `accepts` decides whether
a word is a concatenation of words of the items, and `accepts_append` splits it. -/

namespace BrowserMesh.Pattern

variable {α : Type}

inductive Item (α : Type) where
  | one (p : α → Bool)
  | many (p : α → Bool)

namespace Item

def Word : Item α → List α → Prop
  | one p, w => ∃ a, w = [a] ∧ p a = true
  | many p, w => ∀ a ∈ w, p a = true

end Item

/-- Some split of the word has elements of the class before it and a rest that passes `k`. -/
def acceptsMany (p : α → Bool) (k : List α → Bool) : List α → Bool
  | [] => k []
  | a :: w => k (a :: w) || (p a && acceptsMany p k w)

/-- The word is in the language of the pattern. -/
def accepts : List (Item α) → List α → Bool
  | [], w => w.isEmpty
  | .one _ :: _, [] => false
  | .one p :: items, a :: w => p a && accepts items w
  | .many p :: items, w => acceptsMany p (accepts items) w

variable {w : List α}

theorem acceptsMany_iff {p : α → Bool} {k : List α → Bool} :
    acceptsMany p k w = true ↔ ∃ u v, w = u ++ v ∧ (∀ a ∈ u, p a = true) ∧ k v = true := by
  induction w with
  | nil =>
      constructor
      · exact fun h => ⟨[], [], rfl, fun _ ha => absurd ha List.not_mem_nil, h⟩
      · rintro ⟨u, v, huv, -, hk⟩
        rwa [(List.append_eq_nil_iff.mp huv.symm).2] at hk
  | cons a w ih =>
      rw [acceptsMany, Bool.or_eq_true, Bool.and_eq_true, ih]
      constructor
      · rintro (hk | ⟨ha, u, v, rfl, hu, hk⟩)
        · exact ⟨[], a :: w, rfl, fun _ hb => absurd hb List.not_mem_nil, hk⟩
        · exact ⟨a :: u, v, rfl, List.forall_mem_cons.mpr ⟨ha, hu⟩, hk⟩
      · rintro ⟨u, v, huv, hu, hk⟩
        cases u with
        | nil => exact Or.inl (huv ▸ hk)
        | cons b u =>
            obtain ⟨rfl, rfl⟩ := List.cons.inj huv
            have hbu := List.forall_mem_cons.mp hu
            exact Or.inr ⟨hbu.1, u, v, rfl, hbu.2, hk⟩

variable {items : List (Item α)}

theorem accepts_cons_iff {i : Item α} :
    accepts (i :: items) w = true ↔ ∃ u v, w = u ++ v ∧ i.Word u ∧ accepts items v = true := by
  cases i with
  | one p =>
      cases w with
      | nil =>
          refine iff_of_false (by simp [accepts]) ?_
          rintro ⟨u, v, huv, ⟨a, rfl, -⟩, -⟩
          cases huv
      | cons a w =>
          rw [accepts, Bool.and_eq_true]
          constructor
          · exact fun ⟨ha, hw⟩ => ⟨[a], w, rfl, ⟨a, rfl, ha⟩, hw⟩
          · rintro ⟨u, v, huv, ⟨b, rfl, hb⟩, hv⟩
            obtain ⟨rfl, rfl⟩ := List.cons.inj huv
            exact ⟨hb, hv⟩
  | many p => exact acceptsMany_iff

theorem accepts_append {items' : List (Item α)} :
    accepts (items ++ items') w = true ↔
      ∃ u v, w = u ++ v ∧ accepts items u = true ∧ accepts items' v = true := by
  induction items generalizing w with
  | nil =>
      constructor
      · exact fun h => ⟨[], w, rfl, rfl, h⟩
      · rintro ⟨u, v, rfl, hu, hv⟩
        rwa [List.isEmpty_iff.mp hu]
  | cons i items ih =>
      rw [List.cons_append, accepts_cons_iff]
      constructor
      · rintro ⟨u, v, rfl, hu, hv⟩
        obtain ⟨v₁, v₂, rfl, h₁, h₂⟩ := ih.mp hv
        exact ⟨u ++ v₁, v₂, (List.append_assoc ..).symm, accepts_cons_iff.mpr ⟨u, v₁, rfl, hu, h₁⟩, h₂⟩
      · rintro ⟨u, v, rfl, hu, hv⟩
        obtain ⟨u₁, u₂, rfl, h₁, h₂⟩ := accepts_cons_iff.mp hu
        exact ⟨u₁, u₂ ++ v, List.append_assoc .., h₁, ih.mpr ⟨u₂, v, rfl, h₂, hv⟩⟩

theorem accepts_many {p : α → Bool} : accepts [.many p] w = true ↔ ∀ a ∈ w, p a = true := by
  rw [accepts_cons_iff]
  constructor
  · rintro ⟨u, v, rfl, hu, hv⟩
    rw [List.isEmpty_iff.mp hv, List.append_nil]
    exact hu
  · exact fun h => ⟨w, [], (List.append_nil w).symm, h, rfl⟩

theorem accepts_iff_words :
    accepts items w = true ↔ ∃ words, List.Forall₂ Item.Word items words ∧ words.flatten = w := by
  induction items generalizing w with
  | nil =>
      constructor
      · exact fun h => ⟨[], .nil, (List.isEmpty_iff.mp h).symm⟩
      · rintro ⟨words, hwords, rfl⟩
        cases hwords
        rfl
  | cons i items ih =>
      rw [accepts_cons_iff]
      constructor
      · rintro ⟨u, v, rfl, hu, hv⟩
        obtain ⟨words, hwords, rfl⟩ := ih.mp hv
        exact ⟨u :: words, .cons hu hwords, rfl⟩
      · rintro ⟨words, hwords, rfl⟩
        obtain _ | ⟨hu, hwords⟩ := hwords
        exact ⟨_, _, rfl, hu, ih.mpr ⟨_, hwords, rfl⟩⟩

variable [DecidableEq α]

/-- The item for the element `a` itself. -/
def literal (a : α) : Item α := .one fun b => decide (b = a)

theorem accepts_literals {l : List α} : accepts (l.map literal) w = true ↔ w = l := by
  induction l generalizing w with
  | nil => exact List.isEmpty_iff
  | cons a l ih =>
      cases w with
      | nil => simp [accepts, literal]
      | cons b w =>
          rw [List.map_cons, literal, accepts, Bool.and_eq_true, ih, decide_eq_true_iff, List.cons.injEq]

end BrowserMesh.Pattern
