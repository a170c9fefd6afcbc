import BrowserMesh.Js.Number

/-! # `Array.prototype.sort`

What the language promises of a sort: the result is a permutation, and it is in order when the comparator is consistent
for the elements.  With an inconsistent one the order is the engine's choice, so a sort is any function that keeps these
two promises (`ArraySort`).  A comparator that gives `NaN` counts as giving `0`.  For numbers without `NaN` among them the
comparator `(a, b) => a - b` is consistent (`consistent_sub`). -/

namespace BrowserMesh.Js

/-- The comparator puts `a` before `b`. -/
def Before {α : Type} (cmp : α → α → JsNumber) (a b : α) : Prop := (cmp a b).lt 0 = true

/-- The comparator puts `a` after `b`. -/
def After {α : Type} (cmp : α → α → JsNumber) (a b : α) : Prop := JsNumber.lt 0 (cmp a b) = true

/-- The comparator puts `a` and `b` at the same place. -/
def Tied {α : Type} (cmp : α → α → JsNumber) (a b : α) : Prop := ¬ Before cmp a b ∧ ¬ After cmp a b

/-- The comparator is consistent for the elements of `l`. -/
structure Consistent {α : Type} (cmp : α → α → JsNumber) (l : List α) : Prop where
  refl : ∀ a ∈ l, Tied cmp a a
  symm : ∀ a ∈ l, ∀ b ∈ l, Tied cmp a b → Tied cmp b a
  trans : ∀ a ∈ l, ∀ b ∈ l, ∀ c ∈ l, Tied cmp a b → Tied cmp b c → Tied cmp a c
  before : ∀ a ∈ l, ∀ b ∈ l, ∀ c ∈ l, Before cmp a b → Before cmp b c → Before cmp a c
  after : ∀ a ∈ l, ∀ b ∈ l, ∀ c ∈ l, After cmp a b → After cmp b c → After cmp a c

/-- `sort(cmp)` of some engine. -/
structure ArraySort {α : Type} (cmp : α → α → JsNumber) where
  sort : List α → List α
  perm : ∀ l, (sort l).Perm l
  sorted : ∀ l, Consistent cmp l → (sort l).Pairwise fun a b => ¬ After cmp a b

namespace JsNumber

/-! ### Numeric order -/

theorem ofUnits_neg_of_neg {n : ℤ} (h : n < 0) : (ofUnits n).lt 0 = true := by
  rw [lt, decide_eq_true_iff]
  unfold ofUnits
  split_ifs with hd
  · refine ⟨by simp, by decide, lt_of_not_ge fun hle => ?_⟩
    exact absurd (fin_le_fin.mp hle) (not_le.mpr (rounded_neg_of_neg h))
  · exact ⟨by simp, by decide, lt_of_le_of_ne (negInf_le _) (by decide)⟩

theorem ofUnits_pos_of_pos {n : ℤ} (h : 0 < n) : lt 0 (ofUnits n) = true := by
  have hone : IsDouble 1 := by decide +kernel
  have hle : fin 1 hone ≤ ofUnits n := fin_le_ofUnits hone h
  rw [lt, decide_eq_true_iff]
  refine ⟨by decide, ?_, lt_of_lt_of_le ?_ hle⟩
  · unfold ofUnits
    split_ifs <;> simp
  · exact lt_of_not_ge fun h => absurd (fin_le_fin.mp h) (by decide)

theorem ofUnits_zero : ofUnits 0 = 0 := ofUnits_of_isDouble isDouble_zero

variable {a b : JsNumber}

theorem sub_cases (ha : a ≠ nan) (hb : b ≠ nan) :
    (a < b ∧ Before sub a b) ∨ (a = b ∧ Tied sub a b) ∨ (b < a ∧ After sub a b) := by
  have hlow : ∀ {n : ℤ} (hn : IsDouble n), negInf < fin n hn := fun hn => lt_of_le_of_ne (negInf_le _) (by simp)
  have hhigh : ∀ {n : ℤ} (hn : IsDouble n), fin n hn < posInf := fun hn => lt_of_le_of_ne (fin_le_posInf hn) (by simp)
  have hends : negInf < posInf := lt_of_le_of_ne (negInf_le _) (by simp)
  cases a with
  | nan => exact absurd rfl ha
  | negInf =>
      cases b with
      | nan => exact absurd rfl hb
      | negInf => exact Or.inr (Or.inl ⟨rfl, by unfold Tied Before After; decide⟩)
      | posInf => exact Or.inl ⟨hends, by unfold Before; decide⟩
      | fin n hn => exact Or.inl ⟨hlow hn, by show negInf.lt 0 = true; decide⟩
  | posInf =>
      cases b with
      | nan => exact absurd rfl hb
      | negInf => exact Or.inr (Or.inr ⟨hends, by unfold After; decide⟩)
      | posInf => exact Or.inr (Or.inl ⟨rfl, by unfold Tied Before After; decide⟩)
      | fin n hn => exact Or.inr (Or.inr ⟨hhigh hn, by show lt 0 posInf = true; decide⟩)
  | fin m hm =>
      cases b with
      | nan => exact absurd rfl hb
      | negInf => exact Or.inr (Or.inr ⟨hlow hm, by show lt 0 posInf = true; decide⟩)
      | posInf => exact Or.inl ⟨hhigh hm, by show negInf.lt 0 = true; decide⟩
      | fin n hn =>
          rcases lt_trichotomy m n with hlt | rfl | hgt
          · refine Or.inl ⟨lt_of_not_ge fun h => absurd (fin_le_fin.mp h) (not_le.mpr hlt), ?_⟩
            exact ofUnits_neg_of_neg (by omega)
          · refine Or.inr (Or.inl ⟨rfl, ?_⟩)
            have hzero : (fin m hm).sub (fin m hn) = 0 := by
              show ofUnits (m + -m) = 0
              rw [add_neg_cancel, ofUnits_zero]
            unfold Tied Before After
            rw [hzero]
            decide
          · refine Or.inr (Or.inr ⟨lt_of_not_ge fun h => absurd (fin_le_fin.mp h) (not_le.mpr hgt), ?_⟩)
            exact ofUnits_pos_of_pos (by omega)

theorem lt_asymm' (h : a.lt 0 = true) : ¬ lt 0 a = true := by
  rw [lt, decide_eq_true_iff] at h ⊢
  exact fun h' => absurd (h.2.2.trans h'.2.2) (lt_irrefl _)

theorem before_sub_iff (ha : a ≠ nan) (hb : b ≠ nan) : Before sub a b ↔ a < b := by
  rcases sub_cases ha hb with ⟨hlt, h⟩ | ⟨rfl, h⟩ | ⟨hgt, h⟩
  · exact ⟨fun _ => hlt, fun _ => h⟩
  · exact ⟨fun hb => absurd hb h.1, fun hlt => absurd hlt (lt_irrefl _)⟩
  · exact ⟨fun hb => absurd h (lt_asymm' hb), fun hlt => absurd (hlt.trans hgt) (lt_irrefl _)⟩

theorem after_sub_iff (ha : a ≠ nan) (hb : b ≠ nan) : After sub a b ↔ b < a := by
  rcases sub_cases ha hb with ⟨hlt, h⟩ | ⟨rfl, h⟩ | ⟨hgt, h⟩
  · exact ⟨fun ha => absurd ha (lt_asymm' h), fun hgt => absurd (hlt.trans hgt) (lt_irrefl _)⟩
  · exact ⟨fun ha => absurd ha h.2, fun hgt => absurd hgt (lt_irrefl _)⟩
  · exact ⟨fun _ => hgt, fun _ => h⟩

theorem tied_sub_iff (ha : a ≠ nan) (hb : b ≠ nan) : Tied sub a b ↔ a = b := by
  rw [Tied, before_sub_iff ha hb, after_sub_iff ha hb, not_lt, not_lt]
  exact ⟨fun h => le_antisymm h.2 h.1, fun h => ⟨h.ge, h.le⟩⟩

/-- Without `NaN` the differences order the elements as the numbers are ordered. -/
theorem consistent_sub {l : List JsNumber} (h : nan ∉ l) : Consistent sub l := by
  have hnum : ∀ a ∈ l, a ≠ nan := fun a ha heq => h (heq ▸ ha)
  constructor
  · intro a ha
    exact (tied_sub_iff (hnum a ha) (hnum a ha)).mpr rfl
  · intro a ha b hb hab
    exact (tied_sub_iff (hnum b hb) (hnum a ha)).mpr ((tied_sub_iff (hnum a ha) (hnum b hb)).mp hab).symm
  · intro a ha b hb c hc hab hbc
    rw [tied_sub_iff (hnum a ha) (hnum b hb)] at hab
    rw [tied_sub_iff (hnum b hb) (hnum c hc)] at hbc
    exact (tied_sub_iff (hnum a ha) (hnum c hc)).mpr (hab.trans hbc)
  · intro a ha b hb c hc hab hbc
    rw [before_sub_iff (hnum a ha) (hnum b hb)] at hab
    rw [before_sub_iff (hnum b hb) (hnum c hc)] at hbc
    exact (before_sub_iff (hnum a ha) (hnum c hc)).mpr (hab.trans hbc)
  · intro a ha b hb c hc hab hbc
    rw [after_sub_iff (hnum a ha) (hnum b hb)] at hab
    rw [after_sub_iff (hnum b hb) (hnum c hc)] at hbc
    exact (after_sub_iff (hnum a ha) (hnum c hc)).mpr (hbc.trans hab)

theorem sorted_of_no_nan (engine : ArraySort sub) {l : List JsNumber} (h : nan ∉ l) :
    (engine.sort l).Pairwise (· ≤ ·) := by
  refine List.Pairwise.imp_of_mem (fun {a b} ha hb hafter => ?_) (engine.sorted l (consistent_sub h))
  have hnum : ∀ a ∈ engine.sort l, a ≠ nan := fun a ha heq => h (heq ▸ (engine.perm l).mem_iff.mp ha)
  rw [after_sub_iff (hnum a ha) (hnum b hb)] at hafter
  exact not_lt.mp hafter

/-- An engine that puts the elements in order by a number, if none of these is `NaN`. -/
def byNumber {α : Type} (f : α → JsNumber) : ArraySort fun a b => (f a).sub (f b) where
  sort l := if nan ∈ l.map f then l else l.insertionSort fun a b => f a ≤ f b
  perm l := by
    split_ifs
    · exact List.Perm.refl l
    · exact List.perm_insertionSort _ l
  sorted l hl := by
    split_ifs with h
    · -- everything is tied with the element whose number is `NaN`
      obtain ⟨c, hc, hnan⟩ := List.mem_map.mp h
      have htied : ∀ a : α, Tied (fun a b => (f a).sub (f b)) a c ∧ Tied (fun a b => (f a).sub (f b)) c a := by
        intro a
        have hsub : (f a).sub (f c) = nan := by
          rw [hnan]
          cases f a <;> rfl
        have hsub' : (f c).sub (f a) = nan := by
          rw [hnan]
          cases f a <;> rfl
        simp [Tied, Before, After, hsub, hsub', lt]
      refine List.Pairwise.imp_of_mem (R := fun _ _ => True) (fun {a b} ha hb _ => ?_) (List.pairwise_of_forall (by simp))
      exact (hl.trans a ha c hc b hb (htied a).1 (htied b).2).2
    · have hnum : ∀ a ∈ l.insertionSort (fun a b => f a ≤ f b), f a ≠ nan := by
        intro a ha heq
        exact h (heq ▸ List.mem_map_of_mem ((List.mem_insertionSort _).mp ha))
      have : Std.Total fun a b : α => f a ≤ f b := ⟨fun a b => le_total (f a) (f b)⟩
      have : IsTrans α fun a b => f a ≤ f b := ⟨fun _ _ _ => le_trans⟩
      refine List.Pairwise.imp_of_mem (fun {a b} ha hb hle => ?_) (List.pairwise_insertionSort (fun a b => f a ≤ f b) l)
      show ¬ After sub (f a) (f b)
      rw [after_sub_iff (hnum a ha) (hnum b hb)]
      exact not_lt.mpr hle

end JsNumber
end BrowserMesh.Js
