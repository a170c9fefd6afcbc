import Mathlib

/-! # Keeping the highest of what is heard

* **The cell.**  An empty cell takes what it admits; a cell that holds a value takes what ranks higher.
* **Order.**  A cell that holds a value ends with the highest of what it hears (`foldl_hear_some`).  What an
  empty cell ends with is the highest from the first admitted value on, so the order matters unless the
  highest value is admitted (`foldl_hear_congr`). -/

namespace BrowserMesh.Ranking

variable {α R : Type} [LinearOrder R] (rank : α → R) (admits : α → Prop) [DecidablePred admits]

/-- What a cell holds after it hears `a`. -/
def hear : Option α → α → Option α
  | none, a => if admits a then some a else none
  | some b, a => if rank b < rank a then some a else some b

/-- One of the admitted values ranks highest, if there is any. -/
def Settled (l : List α) : Prop := (∃ a ∈ l, admits a) → ∃ a ∈ l, admits a ∧ ∀ b ∈ l, rank b ≤ rank a

variable {rank admits}

variable (rank admits) in
/-- A cell that holds a value ends with the highest of what it holds and hears. -/
theorem foldl_hear_some (l : List α) (b : α) : ∃ w, l.foldl (hear rank admits) (some b) = some w ∧
    (w = b ∨ w ∈ l) ∧ rank b ≤ rank w ∧ ∀ a ∈ l, rank a ≤ rank w := by
  induction l generalizing b with
  | nil => exact ⟨b, rfl, Or.inl rfl, le_rfl, fun a ha => absurd ha List.not_mem_nil⟩
  | cons c l ih =>
      rw [List.foldl_cons, hear]
      split_ifs with hlt
      · obtain ⟨w, hw, hmem, hle, hall⟩ := ih c
        refine ⟨w, hw, Or.inr ?_, hlt.le.trans hle, List.forall_mem_cons.mpr ⟨hle, hall⟩⟩
        rcases hmem with rfl | hmem
        · exact List.mem_cons_self
        · exact List.mem_cons_of_mem c hmem
      · obtain ⟨w, hw, hmem, hle, hall⟩ := ih b
        refine ⟨w, hw, hmem.imp_right (List.mem_cons_of_mem c), hle, List.forall_mem_cons.mpr ⟨?_, hall⟩⟩
        exact (not_lt.mp hlt).trans hle

variable (rank admits) in
/-- An empty cell stays empty when it hears nothing that it admits; else it ends with a value that is as
high as everything admitted. -/
theorem foldl_hear_none (l : List α) :
    (l.foldl (hear rank admits) none = none ∧ ∀ a ∈ l, ¬ admits a) ∨
    ∃ w, l.foldl (hear rank admits) none = some w ∧ w ∈ l ∧ (∃ a ∈ l, admits a) ∧
      ∀ a ∈ l, admits a → rank a ≤ rank w := by
  induction l with
  | nil => exact Or.inl ⟨rfl, fun a ha => absurd ha List.not_mem_nil⟩
  | cons c l ih =>
      rw [List.foldl_cons, hear]
      split_ifs with hadmits
      · obtain ⟨w, hw, hmem, hle, hall⟩ := foldl_hear_some rank admits l c
        refine Or.inr ⟨w, hw, List.mem_cons.mpr hmem, ⟨c, List.mem_cons_self, hadmits⟩, ?_⟩
        exact List.forall_mem_cons.mpr ⟨fun _ => hle, fun a ha _ => hall a ha⟩
      · rcases ih with ⟨hnone, hall⟩ | ⟨w, hw, hmem, ⟨a, ha, hadm⟩, hall⟩
        · exact Or.inl ⟨hnone, List.forall_mem_cons.mpr ⟨hadmits, hall⟩⟩
        · refine Or.inr ⟨w, hw, List.mem_cons_of_mem c hmem, ⟨a, List.mem_cons_of_mem c ha, hadm⟩, ?_⟩
          exact List.forall_mem_cons.mpr ⟨fun hc => absurd hc hadmits, hall⟩

/-- A cell that holds a value does not depend on the order and repetition of what it hears. -/
theorem foldl_hear_some_congr {l l' : List α} {b : α} (h : ∀ a, a ∈ l ↔ a ∈ l')
    (hrank : ∀ x ∈ b :: l, ∀ y ∈ b :: l, rank x = rank y → x = y) :
    l.foldl (hear rank admits) (some b) = l'.foldl (hear rank admits) (some b) := by
  obtain ⟨w, hw, hmem, hle, hall⟩ := foldl_hear_some rank admits l b
  obtain ⟨w', hw', hmem', hle', hall'⟩ := foldl_hear_some rank admits l' b
  have hin : w' ∈ b :: l := List.mem_cons.mpr (hmem'.imp_right (h w').mpr)
  have hup : rank w ≤ rank w' := by
    rcases hmem with rfl | hmem
    · exact hle'
    · exact hall' w ((h w).mp hmem)
  have hdown : rank w' ≤ rank w := by
    rcases List.mem_cons.mp hin with rfl | hmem'
    · exact hle
    · exact hall w' hmem'
  rw [hw, hw', hrank w (List.mem_cons.mpr hmem) w' hin (le_antisymm hup hdown)]

/-- Nor does an empty cell, when one of the admitted values ranks highest. -/
theorem foldl_hear_none_congr {l l' : List α} (h : ∀ a, a ∈ l ↔ a ∈ l') (hsettled : Settled rank admits l)
    (hrank : ∀ x ∈ l, ∀ y ∈ l, rank x = rank y → x = y) :
    l.foldl (hear rank admits) none = l'.foldl (hear rank admits) none := by
  -- what the cell ends with is the value that ranks highest
  have htop : ∀ k : List α, (∀ a, a ∈ l ↔ a ∈ k) → ∀ w ∈ k, (∃ a ∈ k, admits a) →
      (∀ a ∈ k, admits a → rank a ≤ rank w) → w ∈ l ∧ ∀ b ∈ l, rank b ≤ rank w := by
    rintro k hk w hw ⟨a, ha, hadm⟩ hall
    obtain ⟨top, htop, hadmits, hle⟩ := hsettled ⟨a, (hk a).mpr ha, hadm⟩
    refine ⟨(hk w).mpr hw, fun b hb => (hle b hb).trans (hall top ((hk top).mp htop) hadmits)⟩
  rcases foldl_hear_none rank admits l with
    ⟨hnone, hno⟩ | ⟨w, hw, hmem, hadm, hall⟩
  · rcases foldl_hear_none rank admits l' with ⟨hnone', -⟩ | ⟨w', -, -, ⟨a, ha, hadm⟩, -⟩
    · rw [hnone, hnone']
    · exact absurd hadm (hno a ((h a).mpr ha))
  · rcases foldl_hear_none rank admits l' with
      ⟨-, hno⟩ | ⟨w', hw', hmem', hadm', hall'⟩
    · obtain ⟨a, ha, hadmits⟩ := hadm
      exact absurd hadmits (hno a ((h a).mp ha))
    · obtain ⟨hin, hle⟩ := htop l (fun a => Iff.rfl) w hmem hadm hall
      obtain ⟨hin', hle'⟩ := htop l' h w' hmem' hadm' hall'
      rw [hw, hw', hrank w hin w' hin' (le_antisymm (hle' w hin) (hle w' hin'))]

end BrowserMesh.Ranking
