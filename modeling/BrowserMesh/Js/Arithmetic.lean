import BrowserMesh.Js.Number

/-! # Division, rounding and signs

`a / b`, `Math.min` and `Math.round`, and what they make of numbers that are not negative.  In the total order with `NaN`
on top a bound `c ≤ a` says that `a` is at least `c` or not a number. -/

namespace BrowserMesh.Js
namespace JsNumber

/-- `a / b`. -/
def div : JsNumber → JsNumber → JsNumber
  | nan, _ => nan
  | _, nan => nan
  | fin m _, fin n _ =>
      if n = 0 then if m = 0 then nan else if 0 < m then posInf else negInf
      else ofUnits (m.sign * n.sign * roundQuotient (m.natAbs * oneUnits) n.natAbs)
  | fin _ _, _ => 0
  | a, fin n _ => if n < 0 then a.neg else a
  | _, _ => nan

/-- `Math.min(a, b)`. -/
def mathMin (a b : JsNumber) : JsNumber :=
  if a = nan ∨ b = nan then nan else if b.lt a then b else a

/-- `Math.round(a)`: the nearest whole number, the greater one on ties. -/
def round : JsNumber → JsNumber
  | fin n _ => ofUnits ((2 * n + oneUnits) / (2 * oneUnits) * oneUnits)
  | a => a

theorem nonNeg_iff {a : JsNumber} : a.NonNeg ↔ 0 ≤ a ∧ a ≠ nan := by
  rw [NonNeg, le, decide_eq_true_iff]
  constructor
  · rintro ⟨_, hnan, hle⟩
    exact ⟨hle, hnan⟩
  · rintro ⟨hle, hnan⟩
    exact ⟨by decide, hnan, hle⟩

theorem ofUnits_ne_nan (n : ℤ) : ofUnits n ≠ nan := by
  unfold ofUnits
  split_ifs <;> simp

theorem nonNeg_ofUnits {n : ℤ} (h : 0 ≤ n) : (ofUnits n).NonNeg :=
  nonNeg_iff.mpr ⟨fin_le_ofUnits isDouble_zero h, ofUnits_ne_nan n⟩

theorem nonNeg_ofNat (n : ℕ) : (ofNat n).NonNeg := nonNeg_ofUnits (Int.natCast_nonneg _)

theorem nonNeg_of_lt {a : JsNumber} (h : lt 0 a = true) : a.NonNeg := by
  rw [lt, decide_eq_true_iff] at h
  exact nonNeg_iff.mpr ⟨h.2.2.le, h.2.1⟩

variable {a b : JsNumber}

/-- The signs of `a` and of what a sum, a quotient or a product keep of it. -/
theorem nonNeg_cases (h : a.NonNeg) : a = posInf ∨ ∃ n hn, 0 ≤ n ∧ a = fin n hn := by
  cases a with
  | nan => exact absurd rfl h.ne_nan
  | negInf => exact absurd h not_nonNeg_negInf
  | posInf => exact Or.inl rfl
  | fin n hn => exact Or.inr ⟨n, hn, nonNeg_fin.mp h, rfl⟩

theorem NonNeg.add (ha : a.NonNeg) (hb : b.NonNeg) : (a.add b).NonNeg := by
  obtain rfl | ⟨m, hm, hm0, rfl⟩ := nonNeg_cases ha <;> obtain rfl | ⟨n, hn, hn0, rfl⟩ := nonNeg_cases hb
  · exact ha
  · exact ha
  · exact hb
  · exact nonNeg_ofUnits (by omega)

theorem NonNeg.mathMin (ha : a.NonNeg) (hb : b.NonNeg) : (a.mathMin b).NonNeg := by
  unfold JsNumber.mathMin
  rw [if_neg (by simp [ha.ne_nan, hb.ne_nan])]
  split_ifs
  · exact hb
  · exact ha

theorem NonNeg.mulNat (ha : a.NonNeg) (k : ℕ) : (a.mulNat k).NonNeg := by
  obtain rfl | ⟨m, hm, hm0, rfl⟩ := nonNeg_cases ha
  · exact ha
  · exact nonNeg_ofUnits (by positivity)

theorem NonNeg.divNat (ha : a.NonNeg) (k : ℕ) : (a.divNat k).NonNeg := by
  obtain rfl | ⟨m, hm, hm0, rfl⟩ := nonNeg_cases ha
  · exact ha
  · exact nonNeg_ofUnits (mul_nonneg (Int.sign_nonneg_iff.mpr hm0) (Int.natCast_nonneg _))

theorem NonNeg.round (ha : a.NonNeg) : a.round.NonNeg := by
  obtain rfl | ⟨m, hm, hm0, rfl⟩ := nonNeg_cases ha
  · exact ha
  · refine nonNeg_ofUnits (mul_nonneg (Int.ediv_nonneg ?_ (by positivity)) (Int.natCast_nonneg _))
    positivity

/-- A quotient of positive numbers is a number unless both are infinite. -/
theorem NonNeg.div (ha : a.NonNeg) (hb : lt 0 b = true) (hne : ¬ (a = posInf ∧ b = posInf)) : (a.div b).NonNeg := by
  obtain rfl | ⟨n, hn, hn0, rfl⟩ := nonNeg_cases (nonNeg_of_lt hb)
  · obtain rfl | ⟨m, hm, hm0, rfl⟩ := nonNeg_cases ha
    · exact absurd ⟨rfl, rfl⟩ hne
    · exact nonNeg_fin.mpr le_rfl
  · have hpos : n ≠ 0 := by
      rintro rfl
      rw [lt, decide_eq_true_iff] at hb
      exact absurd hb.2.2 (lt_irrefl _)
    obtain rfl | ⟨m, hm, hm0, rfl⟩ := nonNeg_cases ha
    · simp only [JsNumber.div]
      rw [if_neg (not_lt.mpr hn0)]
      exact ha
    · simp only [JsNumber.div]
      rw [if_neg hpos]
      refine nonNeg_ofUnits (mul_nonneg (mul_nonneg ?_ ?_) (Int.natCast_nonneg _))
      · exact Int.sign_nonneg_iff.mpr hm0
      · exact Int.sign_nonneg_iff.mpr hn0

theorem nan_add : nan.add a = nan := by cases a <;> rfl

theorem add_nan : a.add nan = nan := by cases a <;> rfl

example : round (divNat (ofNat 5) 2) = ofNat 3 ∧ round (divNat (ofNat 5).neg 2) = (ofNat 2).neg ∧
    div (ofNat 1) 0 = posInf := by decide +kernel

end JsNumber
end BrowserMesh.Js
