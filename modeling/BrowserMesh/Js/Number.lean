import Mathlib

/-! # Numbers: IEEE 754 doubles in units of the least subnormal

Every finite double is an integer multiple of `2 ^ (-1074)`, so a finite number is kept as
that integer (`JsNumber.fin`), together with the proof that it has at most 53 significant
bits and does not overflow; `NaN` and the two infinities are separate constructors (`-0` is
identified with `0`, which no comparison tells apart).

* **Rounding.** `roundNat n` rounds a magnitude to 53 significant bits, ties to even.  It
  fixes every rounded magnitude (`roundNat_of_isRounded`) and never crosses one
  (`le_roundNat`, `roundNat_le`): this is all the development needs of the rounding mode.
* **Order.** `JsNumber.lt`, `JsNumber.le` and `JsNumber.eq` are the comparisons of the
  language (`NaN` compares false).  The `LinearOrder` instance is a total order with `NaN`
  on top; in it `Math.max` is the join (`mathMax_eq_max`), `NaN` included.
* **Sums.** Addition rounds, so a sum of three numbers may depend on its order.
  `NoRounding l` says that no sub-sum of `l` rounds; then the sum of `l` does not depend on
  the order (`sum_perm`). -/

namespace BrowserMesh.Js

/-! ### Rounding to 53 significant bits -/

/-- The weight of the last of the 53 bits kept of `n`. -/
def ulp (n : ℕ) : ℕ := 2 ^ (Nat.log2 n - 52)

/-- Round to 53 significant bits, ties to even. -/
def roundNat (n : ℕ) : ℕ :=
  if ulp n < 2 * (n % ulp n) ∨ (2 * (n % ulp n) = ulp n ∧ n / ulp n % 2 = 1)
  then (n / ulp n + 1) * ulp n
  else n / ulp n * ulp n

/-- `n` has at most 53 significant bits. -/
def IsRounded (n : ℕ) : Prop := ulp n ∣ n

instance (n : ℕ) : Decidable (IsRounded n) := inferInstanceAs (Decidable (_ ∣ _))

theorem ulp_pos (n : ℕ) : 0 < ulp n := Nat.two_pow_pos _

variable {n : ℕ}

theorem ulp_dvd_ulp {m : ℕ} (h : m ≤ n) : ulp m ∣ ulp n := by
  apply Nat.pow_dvd_pow
  rcases Nat.eq_zero_or_pos m with rfl | hm
  · simp
  · have := (Nat.le_log2 (by omega : n ≠ 0)).mpr ((Nat.log2_self_le (by omega : m ≠ 0)).trans h)
    omega

theorem lt_ulp_mul (n : ℕ) : n < 2 ^ 53 * ulp n := by
  have h : n < 2 ^ (n.log2 + 1) := Nat.lt_log2_self
  have e : 2 ^ 53 * ulp n = 2 ^ (53 + (n.log2 - 52)) := by rw [ulp, pow_add]
  rw [e]
  exact lt_of_lt_of_le h (Nat.pow_le_pow_right (by norm_num) (by omega))

theorem roundNat_of_isRounded (h : IsRounded n) : roundNat n = n := by
  have hr : n % ulp n = 0 := Nat.mod_eq_zero_of_dvd h
  have hp := ulp_pos n
  unfold roundNat
  rw [hr, if_neg (by omega)]
  exact Nat.div_mul_cancel h

/-- A magnitude below the next power of two on the grid of `n` has an `ulp` dividing `n`'s. -/
theorem ulp_dvd_of_lt {m : ℕ} (h : m < 2 ^ 53 * ulp n) : ulp m ∣ ulp n := by
  rcases Nat.eq_zero_or_pos m with rfl | hm
  · exact ⟨ulp n, by simp [ulp]⟩
  · apply Nat.pow_dvd_pow
    have e : 2 ^ 53 * ulp n = 2 ^ (53 + (n.log2 - 52)) := by rw [ulp, pow_add]
    rw [e] at h
    have := (Nat.log2_lt (by omega : m ≠ 0)).mpr h
    omega

theorem isRounded_of_mul_ulp {q : ℕ} (h : q ≤ 2 ^ 53) : IsRounded (q * ulp n) := by
  rcases Nat.lt_or_eq_of_le h with hlt | rfl
  · have hm : q * ulp n < 2 ^ 53 * ulp n := Nat.mul_lt_mul_of_pos_right hlt (ulp_pos n)
    exact (ulp_dvd_of_lt hm).trans (Nat.dvd_mul_left _ _)
  · have e : 2 ^ 53 * ulp n = 2 ^ (53 + (n.log2 - 52)) := by rw [ulp, pow_add]
    unfold IsRounded
    rw [e]
    unfold ulp
    rw [Nat.log2_two_pow]
    exact Nat.pow_dvd_pow 2 (by omega)

/-- Rounding gives the multiple of the `ulp` at or just below `n`, or the next one. -/
theorem roundNat_cases (n : ℕ) :
    (roundNat n = n / ulp n * ulp n) ∨
      (roundNat n = (n / ulp n + 1) * ulp n ∧ n % ulp n ≠ 0) := by
  unfold roundNat
  split_ifs with h
  · refine Or.inr ⟨rfl, fun h0 => ?_⟩
    have := ulp_pos n
    omega
  · exact Or.inl rfl

theorem div_ulp_lt (n : ℕ) : n / ulp n < 2 ^ 53 :=
  (Nat.div_lt_iff_lt_mul (ulp_pos n)).mpr (lt_ulp_mul n)

theorem isRounded_roundNat (n : ℕ) : IsRounded (roundNat n) := by
  have hq := div_ulp_lt n
  rcases roundNat_cases n with h | ⟨h, _⟩ <;> rw [h]
  · exact isRounded_of_mul_ulp (by omega)
  · exact isRounded_of_mul_ulp (by omega)

variable {c : ℕ}

/-- A rounded magnitude at or below `n` is at or below the multiple of the `ulp` below `n`. -/
theorem le_div_ulp_mul (hc : IsRounded c) (h : c ≤ n) : c ≤ n / ulp n * ulp n := by
  by_cases hlow : c < 2 ^ 52 * ulp n
  · rcases Nat.lt_or_ge n (2 ^ 52 * ulp n) with hn | hn
    · have h1 : ulp n = 1 := by
        by_contra h1
        have hlog : 52 < n.log2 := by
          by_contra hlog
          exact h1 (by rw [ulp, Nat.sub_eq_zero_of_le (by omega), pow_zero])
        have := Nat.log2_self_le (n := n) (by rintro rfl; simp at hlog)
        have e : 2 ^ 52 * ulp n = 2 ^ n.log2 := by
          rw [ulp, ← pow_add]; congr 1; omega
        omega
      simpa [h1] using h
    · exact le_trans hlow.le (Nat.mul_le_mul_right _ ((Nat.le_div_iff_mul_le (ulp_pos n)).mpr hn))
  · have hd : ulp n ∣ c := by
      have hlog : n.log2 - 52 ≤ c.log2 - 52 := by
        have e : 2 ^ 52 * ulp n = 2 ^ (52 + (n.log2 - 52)) := by rw [ulp, pow_add]
        rw [e, not_lt] at hlow
        have hc0 : c ≠ 0 := by
          rintro rfl
          exact absurd hlow (by have := Nat.two_pow_pos (52 + (n.log2 - 52)); omega)
        have := (Nat.le_log2 hc0).mpr hlow
        omega
      exact (Nat.pow_dvd_pow 2 hlog).trans hc
    obtain ⟨k, rfl⟩ := hd
    rw [mul_comm]
    exact Nat.mul_le_mul_right _
      ((Nat.le_div_iff_mul_le (ulp_pos n)).mpr (by rwa [mul_comm] at h))

/-- Rounding up never passes a rounded magnitude: it stays at or above those below `n`. -/
theorem le_roundNat (hc : IsRounded c) (h : c ≤ n) : c ≤ roundNat n := by
  have hmain := le_div_ulp_mul hc h
  rcases roundNat_cases n with e | ⟨e, _⟩ <;> rw [e]
  · exact hmain
  · exact hmain.trans (Nat.mul_le_mul_right _ (Nat.le_succ _))

/-- Rounding stays at or below the rounded magnitudes above `n`. -/
theorem roundNat_le (hc : IsRounded c) (h : n ≤ c) : roundNat n ≤ c := by
  have hd : ulp n ∣ c := (ulp_dvd_ulp h).trans hc
  obtain ⟨k, rfl⟩ := hd
  have hq : n / ulp n ≤ k := Nat.div_le_of_le_mul h
  rcases roundNat_cases n with e | ⟨e, hr⟩ <;> rw [e, mul_comm]
  · exact Nat.mul_le_mul_left _ hq
  · -- a remainder is left over, so `n` is not the multiple `k` itself
    refine Nat.mul_le_mul_left _ (Nat.lt_of_le_of_ne hq ?_)
    rintro rfl
    have := Nat.div_add_mod n (ulp n)
    omega

/-! ### Numbers -/

/-- A unit is `2 ^ (-leastExponent)`. -/
def leastExponent : ℕ := 1074

/-- Magnitudes from `2 ^ maxExponent` on overflow. -/
def maxExponent : ℕ := 1024

/-- The number `1` in units. -/
def oneUnits : ℕ := 1 <<< leastExponent

/-- The first magnitude, in units, that overflows. -/
def overflow : ℕ := oneUnits <<< maxExponent

/-- `n` units are a finite double. -/
def IsDouble (n : ℤ) : Prop := IsRounded n.natAbs ∧ n.natAbs < overflow

instance (n : ℤ) : Decidable (IsDouble n) := inferInstanceAs (Decidable (_ ∧ _))

/-- A number of the language; `fin n` is `n * 2 ^ (-1074)`. -/
inductive JsNumber where
  | nan
  | negInf
  | fin (n : ℤ) (h : IsDouble n)
  | posInf
deriving DecidableEq

namespace JsNumber

variable {m n : ℤ}

theorem fin_congr {hm : IsDouble m} {hn : IsDouble n} (h : m = n) :
    fin m hm = fin n hn := by
  subst h; rfl

/-- The double nearest to `n` units. -/
def ofUnits (n : ℤ) : JsNumber :=
  if h : IsDouble (n.sign * roundNat n.natAbs) then fin (n.sign * roundNat n.natAbs) h
  else if n < 0 then negInf else posInf

/-- The number `n`, for a natural number `n` (rounded when `n` is not a double). -/
def ofNat (n : ℕ) : JsNumber := ofUnits (n * oneUnits : ℕ)

theorem isDouble_zero : IsDouble 0 := by decide +kernel

/-- The number `0`. -/
def zero : JsNumber := fin 0 isDouble_zero

instance : Zero JsNumber := ⟨zero⟩

theorem ofUnits_of_isDouble (h : IsDouble n) : ofUnits n = fin n h := by
  have e : n.sign * (roundNat n.natAbs : ℤ) = n := by
    rw [roundNat_of_isRounded h.1]
    exact Int.sign_mul_natAbs n
  unfold ofUnits
  rw [dif_pos (by rw [e]; exact h)]
  exact fin_congr e

/-! ### The total order with `NaN` on top -/

/-- Position in the total order: `-∞`, the finite numbers, `∞`, `NaN`. -/
def rank : JsNumber → ℕ ×ₗ ℤ
  | negInf => toLex (0, 0)
  | fin n _ => toLex (1, n)
  | posInf => toLex (2, 0)
  | nan => toLex (3, 0)

theorem rank_injective : Function.Injective rank := by
  intro a b h
  cases a <;> cases b <;> simp_all [rank]

instance : LinearOrder JsNumber := LinearOrder.lift' rank rank_injective

variable {a b : JsNumber}

theorem le_def : a ≤ b ↔ a.rank ≤ b.rank := Iff.rfl

theorem le_nan (a : JsNumber) : a ≤ nan := by
  rw [le_def]
  cases a <;> simp [rank, Prod.Lex.toLex_le_toLex]

theorem negInf_le (a : JsNumber) : negInf ≤ a := by
  rw [le_def]
  cases a <;> simp [rank, Prod.Lex.toLex_le_toLex]

theorem fin_le_fin {hm : IsDouble m} {hn : IsDouble n} : fin m hm ≤ fin n hn ↔ m ≤ n := by
  rw [le_def]
  simp [rank, Prod.Lex.toLex_le_toLex]

theorem fin_le_posInf (h : IsDouble n) : fin n h ≤ posInf := by
  rw [le_def]
  simp [rank, Prod.Lex.toLex_le_toLex]

/-! ### Comparisons of the language -/

/-- `a < b`. -/
def lt (a b : JsNumber) : Bool := decide (a ≠ nan ∧ b ≠ nan ∧ a < b)

/-- `a <= b`. -/
def le (a b : JsNumber) : Bool := decide (a ≠ nan ∧ b ≠ nan ∧ a ≤ b)

/-- `a === b`. -/
def eq (a b : JsNumber) : Bool := decide (a ≠ nan ∧ a = b)

theorem lt_iff (ha : a ≠ nan) (hb : b ≠ nan) : a.lt b = true ↔ a < b := by
  simp [lt, ha, hb]

theorem lt_eq_false_of_le (h : a.le b = true) : b.lt a = false := by
  rw [le, decide_eq_true_iff] at h
  rw [lt, decide_eq_false_iff_not]
  exact fun hlt => absurd hlt.2.2 (not_lt.mpr h.2.2)

theorem le_of_le_of_le {c : JsNumber} (hab : a.le b = true) (hbc : b.le c = true) :
    a.le c = true := by
  rw [le, decide_eq_true_iff] at hab hbc ⊢
  exact ⟨hab.1, hbc.2.1, hab.2.2.trans hbc.2.2⟩

theorem eq_iff (ha : a ≠ nan) : a.eq b = true ↔ a = b := by
  simp [eq, ha]

/-- `Math.max(a, b)`. -/
def mathMax (a b : JsNumber) : JsNumber :=
  if a = nan ∨ b = nan then nan else if a.lt b then b else a

/-- `Math.max` is the join of the total order, also on `NaN`. -/
theorem mathMax_eq_max (a b : JsNumber) : mathMax a b = max a b := by
  unfold mathMax
  by_cases ha : a = nan
  · rw [if_pos (Or.inl ha), ha, max_eq_left (le_nan b)]
  by_cases hb : b = nan
  · rw [if_pos (Or.inr hb), hb, max_eq_right (le_nan a)]
  rw [if_neg (by simp [ha, hb])]
  by_cases h : a < b
  · rw [if_pos ((lt_iff ha hb).mpr h), max_eq_right h.le]
  · rw [if_neg (fun h' => h ((lt_iff ha hb).mp h')), max_eq_left (not_lt.mp h)]

/-! ### Arithmetic -/

/-- `-a`. -/
def neg : JsNumber → JsNumber
  | nan => nan
  | negInf => posInf
  | fin n h => fin (-n) (by simpa [IsDouble] using h)
  | posInf => negInf

/-- `a + b`. -/
def add : JsNumber → JsNumber → JsNumber
  | nan, _ => nan
  | _, nan => nan
  | negInf, posInf => nan
  | posInf, negInf => nan
  | negInf, _ => negInf
  | _, negInf => negInf
  | posInf, _ => posInf
  | _, posInf => posInf
  | fin m _, fin n _ => ofUnits (m + n)

/-- `a - b`. -/
def sub (a b : JsNumber) : JsNumber := add a (neg b)

/-- `a * k`, for a positive whole number `k` that is a double. -/
def mulNat (a : JsNumber) (k : ℕ) : JsNumber :=
  match a with
  | fin n _ => ofUnits (n * k)
  | a => a

/-- `n / k` rounded to 53 significant bits, ties to even. -/
def roundQuotient (n k : ℕ) : ℕ :=
  let grid := k * ulp (n / k)
  if grid < 2 * (n % grid) ∨ (2 * (n % grid) = grid ∧ n / grid % 2 = 1)
  then (n / grid + 1) * ulp (n / k)
  else n / grid * ulp (n / k)

/-- `a / k`, for a positive whole number `k` that is a double. -/
def divNat (a : JsNumber) (k : ℕ) : JsNumber :=
  match a with
  | fin n _ => ofUnits (n.sign * roundQuotient n.natAbs k)
  | a => a

/-- `Math.abs(a)`. -/
def abs (a : JsNumber) : JsNumber := if a.lt 0 then a.neg else a

/-- What counts as true in a condition: neither `0` nor `NaN`. -/
def truthy (a : JsNumber) : Bool := decide (a ≠ 0 ∧ a ≠ nan)

/-! ### Exact values -/

/-- The value in units of a finite number. -/
def units? : JsNumber → Option ℤ
  | fin n _ => some n
  | _ => none

/-- `Number.isFinite(a)`. -/
def isFinite (a : JsNumber) : Bool := a.units?.isSome

/-- `n` units rounded to 53 significant bits. -/
def rounded (n : ℤ) : ℤ := n.sign * roundNat n.natAbs

/-- What rounding adds to `n` units. -/
def roundingError (n : ℤ) : ℤ := rounded n - n

theorem units?_eq_some : a.units? = some n ↔ ∃ h, a = fin n h := by
  cases a with
  | fin m h =>
      simp only [units?, Option.some.injEq]
      constructor
      · rintro rfl
        exact ⟨h, rfl⟩
      · rintro ⟨_, heq⟩
        exact (fin.inj heq)
  | nan => simp [units?]
  | negInf => simp [units?]
  | posInf => simp [units?]

variable {k : ℤ}

theorem units?_ofUnits :
    (ofUnits n).units? = some k ↔ IsDouble (rounded n) ∧ rounded n = k := by
  unfold ofUnits
  split_ifs with h hn
  · simp only [units?, Option.some.injEq]
    exact ⟨fun hk => ⟨h, hk⟩, fun hk => hk.2⟩
  · simp only [units?, reduceCtorEq, false_iff]
    exact fun hk => h hk.1
  · simp only [units?, reduceCtorEq, false_iff]
    exact fun hk => h hk.1

/-- A finite sum is the rounded sum of two finite numbers. -/
theorem units?_add : (a.add b).units? = some k ↔
    ∃ m n, a.units? = some m ∧ b.units? = some n ∧ IsDouble (rounded (m + n)) ∧ rounded (m + n) = k := by
  cases a with
  | fin m hm =>
      cases b with
      | fin n hn =>
          rw [add, units?_ofUnits]
          simp [units?]
      | nan => simp [add, units?]
      | negInf => simp [add, units?]
      | posInf => simp [add, units?]
  | nan => cases b <;> simp [add, units?]
  | negInf => cases b <;> simp [add, units?]
  | posInf => cases b <;> simp [add, units?]

theorem units?_neg : a.neg.units? = some k ↔ ∃ n, a.units? = some n ∧ -n = k := by
  cases a <;> simp [neg, units?]

theorem units?_sub : (a.sub b).units? = some k ↔
    ∃ m n, a.units? = some m ∧ b.units? = some n ∧ IsDouble (rounded (m - n)) ∧ rounded (m - n) = k := by
  simp only [sub, units?_add, units?_neg]
  constructor
  · rintro ⟨m, _, hm, ⟨n, hn, rfl⟩, hk⟩
    exact ⟨m, n, hm, hn, hk⟩
  · rintro ⟨m, n, hm, hn, hk⟩
    exact ⟨m, -n, hm, ⟨n, hn, rfl⟩, hk⟩

/-- Rounding what lies between `0` and a double stays there. -/
theorem isDouble_rounded_of_le (hm : IsDouble m) (h0 : 0 ≤ n) (h : n ≤ m) :
    IsDouble (rounded n) := by
  have hle := roundNat_le hm.1 (n := n.natAbs) (by omega)
  have habs : (rounded n).natAbs ≤ m.natAbs := by
    unfold rounded
    rcases h0.eq_or_lt with rfl | hpos
    · simp
    · rw [Int.sign_eq_one_of_pos hpos, one_mul, Int.natAbs_natCast]
      exact hle
  refine ⟨?_, lt_of_le_of_lt habs hm.2⟩
  unfold rounded
  rcases h0.eq_or_lt with rfl | hpos
  · simp [IsRounded]
  · rw [Int.sign_eq_one_of_pos hpos, one_mul, Int.natAbs_natCast]
    exact isRounded_roundNat _

theorem rounded_nonneg (h : 0 ≤ n) : 0 ≤ rounded n := by
  rcases h.eq_or_lt with rfl | hpos
  · simp [rounded]
  · rw [rounded, Int.sign_eq_one_of_pos hpos, one_mul]
    exact Int.natCast_nonneg _

theorem rounded_neg_of_neg (h : n < 0) : rounded n < 0 := by
  have hpos : 1 ≤ roundNat n.natAbs := le_roundNat (by decide) (by omega)
  rw [rounded, Int.sign_eq_neg_one_of_neg h]
  omega

/-! ### Signs -/

/-- `a` is a number at or above `0` (so not `NaN`). -/
def NonNeg (a : JsNumber) : Prop := le 0 a = true

instance (a : JsNumber) : Decidable a.NonNeg := inferInstanceAs (Decidable (_ = true))

theorem nonNeg_fin {h : IsDouble n} : (fin n h).NonNeg ↔ 0 ≤ n := by
  simp only [NonNeg, le, decide_eq_true_eq]
  show (zero ≠ nan ∧ fin n h ≠ nan ∧ zero ≤ fin n h) ↔ 0 ≤ n
  simp [zero, fin_le_fin]

theorem not_nonNeg_negInf : ¬ negInf.NonNeg := by decide

theorem NonNeg.ne_nan (h : a.NonNeg) : a ≠ nan := by
  rintro rfl
  exact absurd h (by decide)

/-- Rounding keeps the order with respect to a double below. -/
theorem fin_le_ofUnits {c : ℤ} (hc : IsDouble c) (h : c ≤ n) : fin c hc ≤ ofUnits n := by
  unfold ofUnits
  by_cases hd : IsDouble (n.sign * roundNat n.natAbs)
  · rw [dif_pos hd, fin_le_fin]
    rcases lt_trichotomy n 0 with hn | rfl | hn
    · -- below zero the magnitude of `n` is at most that of `c`
      have := roundNat_le hc.1 (n := n.natAbs) (by omega)
      rw [Int.sign_eq_neg_one_of_neg hn]
      omega
    · simpa using h
    · rw [Int.sign_eq_one_of_pos hn, one_mul]
      by_cases hc0 : c ≤ 0
      · omega
      · have := le_roundNat hc.1 (n := n.natAbs) (by omega)
        omega
  · rw [dif_neg hd]
    by_cases hn : n < 0
    · -- an overflow below zero would put `c` out of range as well
      exfalso
      apply hd
      have hr := roundNat_le hc.1 (n := n.natAbs) (by omega)
      have e : (n.sign * (roundNat n.natAbs : ℤ)).natAbs = roundNat n.natAbs := by
        rw [Int.sign_eq_neg_one_of_neg hn]; omega
      exact ⟨by rw [e]; exact isRounded_roundNat _, by rw [e]; exact lt_of_le_of_lt hr hc.2⟩
    · rw [if_neg hn]
      exact fin_le_posInf hc

/-- Adding a non-negative number never decreases a number. -/
theorem le_add_of_nonNeg (c : JsNumber) (ha : a.NonNeg) : c ≤ add c a := by
  cases a with
  | nan => exact absurd rfl ha.ne_nan
  | negInf => exact absurd ha not_nonNeg_negInf
  | posInf =>
      cases c with
      | nan => exact le_rfl
      | negInf => exact negInf_le _
      | fin n h => exact fin_le_posInf h
      | posInf => exact le_rfl
  | fin m hm =>
      rw [nonNeg_fin] at ha
      cases c with
      | nan => exact le_rfl
      | negInf => exact negInf_le _
      | fin n h => exact fin_le_ofUnits h (by omega)
      | posInf => exact le_rfl

/-! ### Sums and rounding -/

/-- The left-to-right sum of a list, as a loop accumulates it. -/
def sum (l : List JsNumber) : JsNumber := l.foldl add 0

/-- The finite summands of a list, in units. -/
def units (l : List JsNumber) : List ℤ :=
  l.filterMap (fun a => match a with | fin n _ => some n | _ => none)

/-- The summands are non-negative and no sub-sum of the finite ones rounds or overflows. -/
def NoRounding (l : List JsNumber) : Prop :=
  (∀ a ∈ l, a.NonNeg) ∧ ∀ u : List ℤ, u.Subperm (units l) → IsDouble u.sum

/-- The exact sum of a list of non-negative numbers. -/
def exactSum (l : List JsNumber) : JsNumber :=
  if posInf ∈ l then posInf else ofUnits (units l).sum

theorem units_append (l l' : List JsNumber) : units (l ++ l') = units l ++ units l' :=
  List.filterMap_append

variable {l l' : List JsNumber}

theorem NoRounding.append_left (h : NoRounding (l ++ l')) : NoRounding l := by
  refine ⟨fun a ha => h.1 a (List.mem_append_left _ ha), fun u hu => h.2 u (hu.trans ?_)⟩
  rw [units_append]
  exact (List.sublist_append_left _ _).subperm

theorem NoRounding.perm (h : NoRounding l) (hp : l.Perm l') :
    NoRounding l' :=
  ⟨fun a ha => h.1 a (hp.mem_iff.mpr ha),
    fun u hu => h.2 u (hu.trans (hp.filterMap _).symm.subperm)⟩

theorem exactSum_append_singleton (h : NoRounding (l ++ [a])) :
    add (exactSum l) a = exactSum (l ++ [a]) := by
  have ha : a.NonNeg := h.1 a (List.mem_append_right _ List.mem_cons_self)
  have hl : IsDouble (units l).sum := h.append_left.2 _ (List.Subperm.refl _)
  cases a with
  | nan => exact absurd rfl ha.ne_nan
  | negInf => exact absurd ha not_nonNeg_negInf
  | posInf =>
      by_cases hp : posInf ∈ l
      · simp [exactSum, hp, add]
      · simp [exactSum, hp, add, ofUnits_of_isDouble hl]
  | fin n hn =>
      by_cases hp : posInf ∈ l
      · simp [exactSum, hp, add]
      · have hne : posInf ≠ fin n hn := by simp
        have hu : units (l ++ [fin n hn]) = units l ++ [n] := by rw [units_append]; rfl
        simp only [exactSum, hp, if_false, List.mem_append, List.mem_singleton, hne, or_self, hu,
          ofUnits_of_isDouble hl, add, List.sum_append, List.sum_singleton]

theorem foldl_add_exactSum (r l : List JsNumber) (h : NoRounding (l ++ r)) :
    r.foldl add (exactSum l) = exactSum (l ++ r) := by
  induction r generalizing l with
  | nil => simp
  | cons a r ih =>
      have hsplit : l ++ a :: r = (l ++ [a]) ++ r := by simp
      rw [hsplit] at h ⊢
      rw [List.foldl_cons, exactSum_append_singleton h.append_left]
      exact ih (l ++ [a]) h

theorem sum_eq_exactSum (h : NoRounding l) : sum l = exactSum l := by
  have h0 : exactSum [] = 0 := by
    simp only [exactSum, List.not_mem_nil, if_false]
    exact ofUnits_of_isDouble isDouble_zero
  have := foldl_add_exactSum l [] (by simpa using h)
  rwa [h0, List.nil_append] at this

/-- When no sub-sum rounds, the order of the summands does not matter. -/
theorem sum_perm (h : NoRounding l) (hp : l.Perm l') : sum l = sum l' := by
  have hu : (units l).sum = (units l').sum := (hp.filterMap _).sum_eq
  have hm : posInf ∈ l ↔ posInf ∈ l' := hp.mem_iff
  rw [sum_eq_exactSum h, sum_eq_exactSum (h.perm hp)]
  simp only [exactSum, hu, hm]

theorem isDouble_mul_oneUnits {q : ℕ} (h : q ≤ 2 ^ 53) : IsDouble (q * oneUnits : ℕ) := by
  have e : oneUnits = 2 ^ leastExponent := Nat.one_shiftLeft _
  have hu : ulp (2 ^ (52 + leastExponent)) = oneUnits := by
    rw [ulp, Nat.log2_two_pow, Nat.add_sub_cancel_left, e]
  have hr : IsRounded (q * oneUnits) := by
    rw [← hu]
    exact isRounded_of_mul_ulp h
  have hlt : q * oneUnits < overflow := by
    rw [overflow, Nat.shiftLeft_eq, mul_comm oneUnits]
    have h53 : 2 ^ 53 < 2 ^ maxExponent := Nat.pow_lt_pow_right (by norm_num) (by decide)
    exact Nat.mul_lt_mul_of_pos_right (lt_of_le_of_lt h h53) (e ▸ Nat.two_pow_pos _)
  exact ⟨by rwa [Int.natAbs_natCast], by rwa [Int.natAbs_natCast]⟩

theorem sum_natCast_mul (k : List ℕ) (c : ℕ) :
    (k.map (fun n : ℕ => ((n * c : ℕ) : ℤ))).sum = ((k.sum * c : ℕ) : ℤ) := by
  induction k with
  | nil => simp
  | cons n k ih =>
      rw [List.map_cons, List.sum_cons, List.sum_cons, ih, add_mul]
      push_cast
      ring

/-- Multiples of `c` units are added exactly when their sum is in range. -/
theorem noRounding_of_multiples {c : ℕ} {l : List ℕ} (h : ∀ q ≤ l.sum, IsDouble (q * c : ℕ)) :
    NoRounding (l.map (fun n => ofUnits (n * c : ℕ))) := by
  have hfin : ∀ n ∈ l, ∃ hd, ofUnits (n * c : ℕ) = fin (n * c : ℕ) hd := fun n hn =>
    ⟨h n (List.le_sum_of_mem hn), ofUnits_of_isDouble _⟩
  have hunits : units (l.map (fun n => ofUnits (n * c : ℕ))) =
      l.map (fun n : ℕ => ((n * c : ℕ) : ℤ)) := by
    rw [units, List.filterMap_map, ← List.filterMap_eq_map]
    refine List.filterMap_congr fun n hn => ?_
    obtain ⟨hd, e⟩ := hfin n hn
    simp only [Function.comp, e]
  refine ⟨fun a ha => ?_, fun u hu => ?_⟩
  · obtain ⟨n, hn, rfl⟩ := List.mem_map.mp ha
    obtain ⟨hd, e⟩ := hfin n hn
    rw [e, nonNeg_fin]
    exact Int.natCast_nonneg _
  · rw [hunits] at hu
    obtain ⟨l', hl', hp⟩ := hu
    obtain ⟨k, hk, rfl⟩ := List.sublist_map_iff.mp hp
    rw [hl'.symm.sum_eq, sum_natCast_mul]
    exact h _ (hk.sum_le_sum (fun _ _ => Nat.zero_le _))

/-- Natural numbers that add up to at most `2 ^ 53` are added exactly. -/
theorem noRounding_ofNat {l : List ℕ} (h : l.sum ≤ 2 ^ 53) : NoRounding (l.map ofNat) :=
  noRounding_of_multiples fun _ hq => isDouble_mul_oneUnits (hq.trans h)

/-- Past `2 ^ 53` the order matters: `1` is absorbed, `1 + 1` is not. -/
example : sum [ofNat (2 ^ 53), ofNat 1, ofNat 1] ≠ sum [ofNat 1, ofNat 1, ofNat (2 ^ 53)] := by
  decide +kernel

end JsNumber
end BrowserMesh.Js
