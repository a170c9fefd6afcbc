import Mathlib.Data.Set.Finite.Lattice
import Mathlib.Data.Fintype.Card
import Mathlib.Logic.Relation

/-! # Walks down a relation

`r u c` says that `c` is a child of `u`.

* **Cycles.**  Where only finitely many nodes are reached, `a` is accessible exactly when no node below it lies on a cycle.
* **One parent.**  Where a node has at most one parent, two children of one node that lies on no cycle have nothing below
  them in common. -/

namespace BrowserMesh.Forest
open Relation
variable {α : Type} {r : α → α → Prop} {a b c x y : α}

/-- Every walk down from `a` ends. -/
abbrev Ends (r : α → α → Prop) (a : α) : Prop := Acc (Function.swap r) a

def OneParent (r : α → α → Prop) : Prop := ∀ u u' c, r u c → r u' c → u = u'

theorem Ends.child (h : Ends r a) (hr : r a b) : Ends r b := h.inv hr

theorem Ends.reach (h : Ends r a) (hr : ReflTransGen r a b) : Ends r b := by
  induction hr with
  | refl => exact h
  | tail _ hstep ih => exact ih.child hstep

theorem Ends.not_cycle (h : Ends r a) : ¬ TransGen r a a := by
  induction h with
  | intro a _ ih =>
      intro hcycle
      obtain ⟨b, hab, hba⟩ := TransGen.head'_iff.mp hcycle
      exact ih b hab (TransGen.tail'_iff.mpr ⟨a, hba, hab⟩)

/-- Among finitely many nodes the walks end unless one of them lies on a cycle. -/
theorem ends_of_no_cycle (hfinite : Set.Finite {b | ReflTransGen r a b})
    (h : ∀ b, ReflTransGen r a b → ¬ TransGen r b b) : Ends r a := by
  let below : {b // ReflTransGen r a b} → {b // ReflTransGen r a b} → Prop := fun x y => TransGen r y.1 x.1
  have hfin : Finite {b // ReflTransGen r a b} := hfinite.to_subtype
  have htrans : IsTrans {b // ReflTransGen r a b} below := ⟨fun x y z hxy hyz => hyz.trans hxy⟩
  have hirrefl : Std.Irrefl below := ⟨fun x => h x.1 x.2⟩
  have hwf : WellFounded below := Finite.wellFounded_of_trans_of_irrefl below
  have hall : ∀ x : {b // ReflTransGen r a b}, Ends r x.1 := by
    intro x
    induction x using hwf.induction with
    | h x ih => exact ⟨_, fun y hy => ih ⟨y, x.2.tail hy⟩ (TransGen.single hy)⟩
  exact hall ⟨a, ReflTransGen.refl⟩

theorem ends_iff_no_cycle (hfinite : Set.Finite {b | ReflTransGen r a b}) :
    Ends r a ↔ ∀ b, ReflTransGen r a b → ¬ TransGen r b b :=
  ⟨fun h _ hb => (h.reach hb).not_cycle, ends_of_no_cycle hfinite⟩

/-- Where only nodes that end are cut off, what ends afterwards ended before. -/
theorem Ends.of_cut {r' : α → α → Prop} (hcut : ∀ u c, r u c → r' u c ∨ Ends r c) (h : Ends r' a) : Ends r a := by
  induction h with
  | intro a _ ih =>
      refine ⟨_, fun b hab => ?_⟩
      rcases hcut a b hab with hab | hb
      · exact ih b hab
      · exact hb

section
variable (hone : OneParent r)
include hone

theorem reach_or_reach (hx : ReflTransGen r x a) (hy : ReflTransGen r y a) :
    ReflTransGen r x y ∨ ReflTransGen r y x := by
  induction hx with
  | refl => exact .inr hy
  | @tail b c _ hbc ih =>
      rcases ReflTransGen.cases_tail_iff r y c |>.mp hy with rfl | ⟨b', hyb, hbc'⟩
      · exact .inl (ReflTransGen.tail ‹_› hbc)
      · obtain rfl := hone _ _ _ hbc hbc'
        exact ih hyb

/-- What leads to a child leads to its parent, unless it is the child. -/
theorem reach_parent (hac : r a c) (hx : ReflTransGen r x c) : x = c ∨ ReflTransGen r x a := by
  rcases ReflTransGen.cases_tail_iff r x c |>.mp hx with rfl | ⟨b, hxb, hbc⟩
  · exact .inl rfl
  · obtain rfl := hone _ _ _ hac hbc
    exact .inr hxb

/-- Two children of one node have nothing below them in common. -/
theorem children_apart (hends : Ends r a) (hx : r a x) (hy : r a y) (hne : x ≠ y) (hxb : ReflTransGen r x b) :
    ¬ ReflTransGen r y b := by
  intro hyb
  rcases reach_or_reach hone hxb hyb with hxy | hyx
  · rcases reach_parent hone hy hxy with rfl | hxa
    · exact hne rfl
    · exact hends.not_cycle (TransGen.head' hx hxa)
  · rcases reach_parent hone hx hyx with rfl | hya
    · exact hne rfl
    · exact hends.not_cycle (TransGen.head' hy hya)

end

end BrowserMesh.Forest
