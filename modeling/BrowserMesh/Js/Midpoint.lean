import BrowserMesh.Js.Arithmetic
import BrowserMesh.Js.Countdown

/-! # Midpoints and distances

Rounding keeps the order (`roundNat_mono`, `roundQuotient`), so the mean of two numbers of an interval lies in the
interval, unless their sum overflows (`midpoint_mem`), and their distance is at most its length (`distance_le`). -/

namespace BrowserMesh.Js

/-! ### Rounding keeps the order -/

theorem roundNat_mono {m n : ℕ} (h : m ≤ n) : roundNat m ≤ roundNat n := by
  rcases Nat.lt_or_ge n (roundNat m) with hlt | hge
  · -- `n` lies where `m` is rounded up, on the same grid
    rcases roundNat_cases m with heq | ⟨heq, hrem⟩
    · have := Nat.div_mul_le_self m (ulp m)
      omega
    have hbound : n < 2 ^ 53 * ulp m := by
      have := div_ulp_lt m
      calc n < (m / ulp m + 1) * ulp m := heq ▸ hlt
        _ ≤ 2 ^ 53 * ulp m := Nat.mul_le_mul_right _ (by omega)
    have hulp : ulp n = ulp m := Nat.dvd_antisymm (ulp_dvd_of_lt hbound) (ulp_dvd_ulp h)
    have hpos := ulp_pos m
    have hdiv : n / ulp m = m / ulp m := by
      refine le_antisymm ?_ (Nat.div_le_div_right h)
      have : n / ulp m < m / ulp m + 1 := (Nat.div_lt_iff_lt_mul hpos).mpr (heq ▸ hlt)
      omega
    have hmod : m % ulp m ≤ n % ulp m := by
      have hm := Nat.div_add_mod m (ulp m)
      have hn := Nat.div_add_mod n (ulp m)
      rw [hdiv] at hn
      omega
    have hup : ulp m < 2 * (m % ulp m) ∨ (2 * (m % ulp m) = ulp m ∧ m / ulp m % 2 = 1) := by
      by_contra hdown
      have hfloor : roundNat m = m / ulp m * ulp m := if_neg hdown
      have := Nat.div_mul_le_self m (ulp m)
      omega
    have hupn : ulp n < 2 * (n % ulp n) ∨ (2 * (n % ulp n) = ulp n ∧ n / ulp n % 2 = 1) := by
      rw [hulp, hdiv]
      omega
    have hn : roundNat n = (n / ulp n + 1) * ulp n := if_pos hupn
    rw [hn, hulp, hdiv, heq]
  · exact le_roundNat (isRounded_roundNat m) hge

namespace JsNumber

theorem le_roundQuotient {c n k : ℕ} (hk : 0 < k) (hc : IsRounded c) (h : c * k ≤ n) : c ≤ roundQuotient n k := by
  have hfloor : c ≤ n / (k * ulp (n / k)) * ulp (n / k) := by
    rw [← Nat.div_div_eq_div_mul]
    exact le_div_ulp_mul hc ((Nat.le_div_iff_mul_le hk).mpr h)
  unfold roundQuotient
  simp only
  split_ifs
  · exact hfloor.trans (Nat.mul_le_mul_right _ (Nat.le_succ _))
  · exact hfloor

theorem roundQuotient_le {c n k : ℕ} (hk : 0 < k) (hc : IsRounded c) (h : n ≤ c * k) : roundQuotient n k ≤ c := by
  have hle : n / k ≤ c := Nat.div_le_of_le_mul (by rwa [mul_comm])
  obtain ⟨j, hj⟩ := (ulp_dvd_ulp hle).trans hc
  have hpos : 0 < k * ulp (n / k) := Nat.mul_pos hk (ulp_pos _)
  have hn : n ≤ k * ulp (n / k) * j := by
    calc n ≤ c * k := h
      _ = k * ulp (n / k) * j := by
          conv_lhs => rw [hj]
          ring
  have hq : n / (k * ulp (n / k)) ≤ j := Nat.div_le_of_le_mul hn
  unfold roundQuotient
  simp only
  split_ifs with hup
  · -- a remainder is left over, so the quotient is not `j` itself
    have hlt : n / (k * ulp (n / k)) < j := by
      refine Nat.lt_of_le_of_ne hq fun heq => ?_
      have := Nat.div_add_mod n (k * ulp (n / k))
      rw [heq] at this
      omega
    rw [hj, mul_comm (ulp (n / k))]
    exact Nat.mul_le_mul_right _ hlt
  · rw [hj, mul_comm (ulp (n / k))]
    exact Nat.mul_le_mul_right _ hq

theorem ofUnits_natCast_mono {m n : ℕ} (h : m ≤ n) : ofUnits m ≤ ofUnits n := by
  have hcast : ∀ k : ℕ, (k : ℤ).sign * (roundNat (k : ℤ).natAbs : ℤ) = roundNat k := by
    intro k
    rw [Int.natAbs_natCast]
    rcases Nat.eq_zero_or_pos k with rfl | hpos
    · decide
    · rw [Int.sign_eq_one_of_pos (by omega), one_mul]
  have hle := roundNat_mono h
  by_cases hn : IsDouble (roundNat n)
  · have hm : IsDouble (roundNat m) := ⟨isRounded_roundNat m, by
      have := hn.2
      rw [Int.natAbs_natCast] at this ⊢
      omega⟩
    have hofm : ofUnits m = fin (roundNat m) hm := by
      unfold ofUnits
      rw [dif_pos (by rwa [hcast])]
      exact fin_congr (hcast m)
    have hofn : ofUnits n = fin (roundNat n) hn := by
      unfold ofUnits
      rw [dif_pos (by rwa [hcast])]
      exact fin_congr (hcast n)
    rw [hofm, hofn, fin_le_fin]
    omega
  · have hofn : ofUnits n = posInf := by
      unfold ofUnits
      rw [dif_neg (by rwa [hcast]), if_neg (by omega)]
    rw [hofn]
    unfold ofUnits
    split_ifs
    · exact fin_le_posInf _
    · omega
    · exact le_rfl

/-! ### Negation -/

theorem isDouble_neg {n : ℤ} (h : IsDouble n) : IsDouble (-n) := by simpa [IsDouble] using h

theorem rounded_neg (n : ℤ) : rounded (-n) = -rounded n := by
  rw [rounded, rounded, Int.natAbs_neg, Int.sign_neg, neg_mul]

theorem neg_ofUnits (n : ℤ) (hn : n ≠ 0) : (ofUnits n).neg = ofUnits (-n) := by
  have hval : (-n).sign * (roundNat (-n).natAbs : ℤ) = -(n.sign * roundNat n.natAbs) := rounded_neg n
  by_cases hd : IsDouble (n.sign * roundNat n.natAbs)
  · have hd' : IsDouble ((-n).sign * (roundNat (-n).natAbs : ℤ)) := by
      rw [hval]
      exact isDouble_neg hd
    unfold ofUnits
    rw [dif_pos hd, dif_pos hd', neg]
    exact fin_congr hval.symm
  · have hd' : ¬ IsDouble ((-n).sign * (roundNat (-n).natAbs : ℤ)) := fun h => hd (by
      rw [hval] at h
      simpa using isDouble_neg h)
    unfold ofUnits
    rw [dif_neg hd, dif_neg hd']
    rcases lt_or_gt_of_ne hn with hneg | hpos
    · rw [if_pos hneg, if_neg (by omega), neg]
    · rw [if_neg (by omega), if_pos (by omega), neg]

/-! ### Distances -/

theorem abs_ofUnits (n : ℤ) : (ofUnits n).abs = ofUnits n.natAbs := by
  unfold JsNumber.abs
  rcases lt_trichotomy n 0 with hneg | rfl | hpos
  · have hlt : (ofUnits n).lt 0 = true := by
      rw [lt, decide_eq_true_iff]
      have hle : ofUnits n ≤ fin (-1) (by decide +kernel) := ofUnits_le_fin _ (by omega)
      refine ⟨ofUnits_ne_nan n, by decide, lt_of_le_of_lt hle ?_⟩
      exact lt_of_not_ge fun h => absurd (fin_le_fin.mp h) (by decide)
    rw [if_pos hlt, neg_ofUnits n hneg.ne]
    congr 1
    omega
  · rw [if_neg]
    · rfl
    · have hzero : ofUnits 0 = 0 := ofUnits_of_isDouble isDouble_zero
      rw [hzero]
      decide
  · rw [if_neg]
    · congr 1
      omega
    · have hle := (nonNeg_iff.mp (nonNeg_ofUnits hpos.le)).1
      rw [lt, decide_eq_true_iff]
      exact fun h => absurd h.2.2 (not_lt.mpr hle)

/-- Two numbers of an interval are not further apart than its ends. -/
theorem distance_le {a b x y : ℤ} {ha : IsDouble a} {hb : IsDouble b} {hx : IsDouble x} {hy : IsDouble y}
    (hax : a ≤ x) (hxb : x ≤ b) (hay : a ≤ y) (hyb : y ≤ b) {c : JsNumber}
    (h : ((fin b hb).sub (fin a ha)).le c = true) : ((fin x hx).sub (fin y hy)).abs.le c = true := by
  have hlength : (fin b hb).sub (fin a ha) = ofUnits ((b - a).natAbs : ℕ) := by
    show ofUnits (b + -a) = _
    congr 1
    omega
  have hdistance : ((fin x hx).sub (fin y hy)).abs = ofUnits ((x - y).natAbs : ℕ) := by
    show (ofUnits (x + -y)).abs = _
    rw [abs_ofUnits]
    rfl
  rw [hlength] at h
  rw [hdistance]
  refine le_of_le_of_le ?_ h
  rw [le, decide_eq_true_iff]
  exact ⟨ofUnits_ne_nan _, ofUnits_ne_nan _, ofUnits_natCast_mono (by omega)⟩

/-! ### Midpoints -/

theorem overflow_eq : overflow = 2 ^ (leastExponent + maxExponent) := by
  rw [overflow, oneUnits, Nat.one_shiftLeft, Nat.shiftLeft_eq, pow_add]

theorem isRounded_two_pow (n : ℕ) : IsRounded (2 ^ n) := by
  rw [IsRounded, ulp, Nat.log2_two_pow]
  exact Nat.pow_dvd_pow 2 (Nat.sub_le _ _)

theorem isRounded_overflow : IsRounded overflow := overflow_eq ▸ isRounded_two_pow _

/-- A finite sum is not rounded below twice a double. -/
theorem two_mul_le_rounded {a n : ℤ} (ha : IsDouble a) (h : 2 * a ≤ n) (hn : IsDouble (rounded n)) :
    2 * a ≤ rounded n := by
  by_cases hd : IsDouble (2 * a)
  · have hle := fin_le_ofUnits hd h
    have hof : ofUnits n = fin (rounded n) hn := dif_pos hn
    rw [hof] at hle
    exact fin_le_fin.mp hle
  · have hbig : overflow ≤ (2 * a).natAbs := by
      by_contra hlt
      refine hd ⟨?_, not_le.mp hlt⟩
      rw [Int.natAbs_mul]
      exact isRounded_two_mul ha.1
    rcases lt_or_ge a 0 with hneg | hpos
    · have := hn.2
      omega
    · have hover := le_roundNat isRounded_overflow (n := n.natAbs) (by omega)
      have habs : (rounded n).natAbs = roundNat n.natAbs := by
        have : 0 < overflow := overflow_eq ▸ Nat.two_pow_pos _
        rw [rounded, Int.sign_eq_one_of_pos (by omega), one_mul, Int.natAbs_natCast]
      have := hn.2
      omega

/-- Half of `s` units, rounded. -/
def half (s : ℤ) : ℤ := s.sign * roundQuotient s.natAbs 2

theorem half_neg (s : ℤ) : half (-s) = -half s := by
  rw [half, half, Int.natAbs_neg, Int.sign_neg, neg_mul]

theorem le_half {a s : ℤ} (ha : IsDouble a) (h : 2 * a ≤ s) : a ≤ half s := by
  unfold half
  rcases lt_trichotomy s 0 with hneg | rfl | hpos
  · have := roundQuotient_le (by decide : 0 < 2) ha.1 (n := s.natAbs) (by omega)
    rw [Int.sign_eq_neg_one_of_neg hneg]
    omega
  · rw [Int.sign_zero, zero_mul]
    omega
  · rw [Int.sign_eq_one_of_pos hpos, one_mul]
    rcases lt_or_ge a 0 with hlow | hge
    · omega
    · have := le_roundQuotient (by decide : 0 < 2) ha.1 (n := s.natAbs) (by omega)
      omega

theorem half_le {b s : ℤ} (hb : IsDouble b) (h : s ≤ 2 * b) : half s ≤ b := by
  have := le_half (isDouble_neg hb) (s := -s) (by omega)
  rw [half_neg] at this
  omega

/-- The mean of two numbers of an interval lies in it, unless their sum overflows. -/
theorem midpoint_mem {a b x y : ℤ} (ha : IsDouble a) (hb : IsDouble b) {hx : IsDouble x} {hy : IsDouble y}
    (hax : a ≤ x) (hxb : x ≤ b) (hay : a ≤ y) (hyb : y ≤ b) :
    (fin a ha ≤ ((fin x hx).add (fin y hy)).divNat 2 ∧ ((fin x hx).add (fin y hy)).divNat 2 ≤ fin b hb) ∨
      ((fin x hx).add (fin y hy)).divNat 2 = posInf ∨ ((fin x hx).add (fin y hy)).divNat 2 = negInf := by
  have hadd : (fin x hx).add (fin y hy) = ofUnits (x + y) := rfl
  rw [hadd]
  by_cases hd : IsDouble (rounded (x + y))
  · have hof : ofUnits (x + y) = fin (rounded (x + y)) hd := dif_pos hd
    have hlow := two_mul_le_rounded ha (n := x + y) (by omega) hd
    have hhigh := two_mul_le_rounded (isDouble_neg hb) (n := -(x + y)) (by omega)
      (by rw [rounded_neg]; exact isDouble_neg hd)
    rw [rounded_neg] at hhigh
    have hhalf : (fin (rounded (x + y)) hd).divNat 2 = ofUnits (half (rounded (x + y))) := rfl
    rw [hof, hhalf]
    exact Or.inl ⟨fin_le_ofUnits ha (le_half ha hlow), ofUnits_le_fin hb (half_le hb (by omega))⟩
  · have hinf : ofUnits (x + y) = negInf ∨ ofUnits (x + y) = posInf := by
      have hof : ofUnits (x + y) = if x + y < 0 then negInf else posInf := dif_neg hd
      rw [hof]
      split_ifs
      · exact Or.inl rfl
      · exact Or.inr rfl
    rcases hinf with h | h
    · exact Or.inr (Or.inr (by rw [h]; rfl))
    · exact Or.inr (Or.inl (by rw [h]; rfl))

end JsNumber
end BrowserMesh.Js
