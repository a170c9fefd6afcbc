import BrowserMesh.Js.Number

/-! # Counting down

`n - 1` loses what a double cannot hold.  From `2 ^ 53 + 2` on it still reaches `0`, one step at a time; from any number
above it stays where it is, or is `NaN`.  `lastCount m` is the largest number from which at most `m` steps stay above
`0`. -/

namespace BrowserMesh.Js
namespace JsNumber

theorem ofUnits_le_fin {c n : ℤ} (hc : IsDouble c) (h : n ≤ c) : ofUnits n ≤ fin c hc := by
  unfold ofUnits
  by_cases hd : IsDouble (n.sign * roundNat n.natAbs)
  · rw [dif_pos hd, fin_le_fin]
    rcases lt_trichotomy n 0 with hn | rfl | hn
    · rw [Int.sign_eq_neg_one_of_neg hn]
      by_cases hc0 : 0 ≤ c
      · omega
      · have := le_roundNat hc.1 (n := n.natAbs) (by omega)
        omega
    · simpa using h
    · have := roundNat_le hc.1 (n := n.natAbs) (by omega)
      rw [Int.sign_eq_one_of_pos hn]
      omega
  · rw [dif_neg hd]
    split_ifs with hn
    · exact negInf_le _
    · exact absurd (isDouble_rounded_of_le hc (not_lt.mp hn) h) hd

theorem ofNat_eq {q : ℕ} (h : q ≤ 2 ^ 53) : ofNat q = fin (q * oneUnits : ℕ) (isDouble_mul_oneUnits h) :=
  ofUnits_of_isDouble _

theorem oneUnits_pos : 0 < oneUnits := by
  rw [oneUnits, Nat.one_shiftLeft]
  exact Nat.two_pow_pos _

theorem isRounded_two_mul {n : ℕ} (h : IsRounded n) : IsRounded (2 * n) := by
  rcases Nat.eq_zero_or_pos n with rfl | hpos
  · exact h
  have hlog : (2 * n).log2 = n.log2 + 1 := Nat.log2_two_mul (by omega)
  have hulp : ulp (2 * n) ∣ 2 * ulp n := by
    rw [ulp, ulp, hlog, ← pow_succ']
    exact Nat.pow_dvd_pow 2 (by omega)
  exact hulp.trans (Nat.mul_dvd_mul_left 2 h)

theorem isDouble_two_mul_oneUnits {k q : ℕ} (h : q ≤ 2 ^ 53) (hk : k = 2 * q) : IsDouble (k * oneUnits : ℕ) := by
  subst hk
  refine ⟨?_, ?_⟩
  · rw [Int.natAbs_natCast, mul_assoc]
    exact isRounded_two_mul (isDouble_mul_oneUnits h).1
  · rw [Int.natAbs_natCast, overflow, Nat.shiftLeft_eq, mul_comm oneUnits]
    have h54 : 2 * 2 ^ 53 < 2 ^ maxExponent := by
      rw [← pow_succ']
      exact Nat.pow_lt_pow_right (by norm_num) (by decide)
    exact Nat.mul_lt_mul_of_pos_right (by omega) oneUnits_pos

theorem isDouble_last : IsDouble ((2 ^ 53 + 2) * oneUnits : ℕ) :=
  isDouble_two_mul_oneUnits (q := 2 ^ 52 + 1) (by norm_num) (by norm_num)

theorem isDouble_stuck : IsDouble ((2 ^ 53 + 4) * oneUnits : ℕ) :=
  isDouble_two_mul_oneUnits (q := 2 ^ 52 + 2) (by norm_num) (by norm_num)

theorem ofNat_last : ofNat (2 ^ 53 + 2) = fin ((2 ^ 53 + 2) * oneUnits : ℕ) isDouble_last := ofUnits_of_isDouble _

theorem ofNat_zero : ofNat 0 = 0 := by
  rw [ofNat, zero_mul]
  exact ofUnits_of_isDouble isDouble_zero

theorem ofNat_le_last {q : ℕ} (h : q ≤ 2 ^ 53) : ofNat q ≤ ofNat (2 ^ 53 + 2) := by
  rw [ofNat_eq h, ofNat_last]
  exact fin_le_fin.mpr (Int.ofNat_le.mpr (Nat.mul_le_mul_right _ (by omega)))

/-- Doubles above `2 ^ 53` are even. -/
theorem two_dvd_of_large {n : ℤ} (hn : IsDouble n) (h : ((2 ^ 53 * oneUnits : ℕ) : ℤ) < n) :
    ((2 * oneUnits : ℕ) : ℤ) ∣ n := by
  have hunits : oneUnits = 2 ^ leastExponent := Nat.one_shiftLeft _
  have hlog : 53 + leastExponent ≤ n.natAbs.log2 := by
    refine (Nat.le_log2 (by omega)).mpr ?_
    rw [pow_add, ← hunits]
    omega
  have hulp : 2 * oneUnits ∣ ulp n.natAbs := by
    rw [hunits, ulp, ← pow_succ']
    exact Nat.pow_dvd_pow 2 (by omega)
  rw [← Int.dvd_natAbs]
  exact Int.natCast_dvd_natCast.mpr (hulp.trans hn.1)

theorem sub_one_fin {n : ℤ} (hn : IsDouble n) : (fin n hn).sub (ofNat 1) = ofUnits (n - oneUnits) := by
  rw [ofNat_eq (by norm_num), sub, neg, add, one_mul, sub_eq_add_neg]

theorem ulp_dvd_oneUnits {d : ℕ} (h : d < 2 ^ (53 + leastExponent)) : ulp d ∣ oneUnits := by
  rw [show oneUnits = 2 ^ leastExponent from Nat.one_shiftLeft _, ulp]
  refine Nat.pow_dvd_pow 2 ?_
  rcases Nat.eq_zero_or_pos d with rfl | hpos
  · simp
  · have := (Nat.log2_lt (by omega)).mpr h
    omega

/-- Exact as long as the last unit of a double is at most `1`. -/
theorem isDouble_sub_one {n : ℤ} (hn : IsDouble n) (hlow : (oneUnits : ℤ) ≤ n)
    (hhigh : n ≤ ((2 ^ 53 * oneUnits : ℕ) : ℤ)) : IsDouble (n - oneUnits) := by
  have hpos := oneUnits_pos
  have hunits : oneUnits = 2 ^ leastExponent := Nat.one_shiftLeft _
  refine ⟨?_, lt_of_le_of_lt (by omega) hn.2⟩
  have hle : (n - oneUnits).natAbs ≤ n.natAbs := by omega
  have hone : ulp (n - oneUnits).natAbs ∣ oneUnits := by
    refine ulp_dvd_oneUnits ?_
    rw [pow_add, ← hunits]
    omega
  have heq : (n - oneUnits).natAbs = n.natAbs - oneUnits := by omega
  unfold IsRounded
  rw [heq] at hone ⊢
  exact Nat.dvd_sub ((heq ▸ ulp_dvd_ulp hle).trans hn.1) hone

variable {x : JsNumber} {k : ℕ}

theorem sub_one_le (hk : k < 2 ^ 53) (h : x ≤ ofNat (k + 1)) : x.sub (ofNat 1) ≤ ofNat k := by
  rw [ofNat_eq (by omega)] at h
  rw [ofNat_eq hk.le]
  cases x with
  | nan => cases le_antisymm h (le_nan _)
  | negInf =>
      rw [ofNat_eq (by norm_num)]
      exact negInf_le _
  | posInf => cases le_antisymm h (fin_le_posInf _)
  | fin n hn =>
      rw [sub_one_fin]
      have hle := fin_le_fin.mp h
      exact ofUnits_le_fin _ (by push_cast at hle ⊢; linarith)

theorem lt_sub_one (hk : k < 2 ^ 53) (h : ofNat (k + 1) < x) : ofNat k < x.sub (ofNat 1) := by
  rw [ofNat_eq (by omega)] at h
  rw [ofNat_eq hk.le]
  cases x with
  | nan => exact lt_of_le_of_ne (le_nan _) (fun heq => by cases heq)
  | negInf => exact absurd h (not_lt.mpr (negInf_le _))
  | posInf =>
      rw [ofNat_eq (by norm_num)]
      exact lt_of_le_of_ne (fin_le_posInf _) (fun heq => by cases heq)
  | fin n hn =>
      rw [sub_one_fin]
      have hpos := oneUnits_pos
      have hlt : (((k + 1) * oneUnits : ℕ) : ℤ) < n := not_le.mp fun hle => not_le.mpr h (fin_le_fin.mpr hle)
      have hsub : ((k * oneUnits : ℕ) : ℤ) < n - oneUnits := by push_cast at hlt ⊢; linarith
      by_cases hhigh : n ≤ ((2 ^ 53 * oneUnits : ℕ) : ℤ)
      · have hlow : (oneUnits : ℤ) ≤ n := by
          have : (0 : ℤ) ≤ (k * oneUnits : ℕ) := Int.natCast_nonneg _
          linarith
        rw [ofUnits_of_isDouble (isDouble_sub_one hn hlow hhigh)]
        exact not_le.mp fun hle => not_le.mpr hsub (fin_le_fin.mp hle)
      · obtain ⟨q, rfl⟩ := two_dvd_of_large hn (not_le.mp hhigh)
        have hq : 2 ^ 53 < 2 * q := by
          have := not_le.mp hhigh
          push_cast at this
          nlinarith
        refine lt_of_lt_of_le ?_ (fin_le_ofUnits (isDouble_mul_oneUnits (q := 2 ^ 53) (le_refl _)) ?_)
        · refine not_le.mp fun hle => ?_
          have := fin_le_fin.mp hle
          push_cast at this
          nlinarith
        · push_cast
          nlinarith

theorem sub_one_le_of_le_last (h : x ≤ ofNat (2 ^ 53 + 2)) : x.sub (ofNat 1) ≤ ofNat (2 ^ 53) := by
  rw [ofNat_last] at h
  rw [ofNat_eq (le_refl _)]
  cases x with
  | nan => cases le_antisymm h (le_nan _)
  | negInf =>
      rw [ofNat_eq (by norm_num)]
      exact negInf_le _
  | posInf => cases le_antisymm h (fin_le_posInf _)
  | fin n hn =>
      have hle := fin_le_fin.mp h
      have hpos := oneUnits_pos
      rcases lt_or_ge (((2 ^ 53 + 1) * oneUnits : ℕ) : ℤ) n with hlt | hge
      · obtain ⟨q, rfl⟩ := two_dvd_of_large hn (by push_cast at hlt ⊢; nlinarith)
        obtain rfl : q = 2 ^ 52 + 1 := by
          push_cast at hlt hle
          have : 2 ^ 53 + 1 < 2 * q := by nlinarith
          have : 2 * q ≤ 2 ^ 53 + 2 := by nlinarith
          omega
        have heq : fin (((2 * oneUnits : ℕ) : ℤ) * (2 ^ 52 + 1)) hn = ofNat (2 ^ 53 + 2) := by
          rw [ofNat_last]
          exact fin_congr (by push_cast; ring)
        rw [heq]
        decide +kernel
      · rw [sub_one_fin]
        exact ofUnits_le_fin _ (by push_cast at hge ⊢; linarith)

/-- Above `2 ^ 53 + 2` nothing is taken away. -/
theorem last_lt_sub_one (h : ofNat (2 ^ 53 + 2) < x) : ofNat (2 ^ 53 + 2) < x.sub (ofNat 1) := by
  rw [ofNat_last] at h
  cases x with
  | nan =>
      rw [ofNat_last]
      exact lt_of_le_of_ne (le_nan _) (fun heq => by cases heq)
  | negInf => exact absurd h (not_lt.mpr (negInf_le _))
  | posInf =>
      rw [ofNat_last, ofNat_eq (by norm_num)]
      exact lt_of_le_of_ne (fin_le_posInf _) (fun heq => by cases heq)
  | fin n hn =>
      have hlt : (((2 ^ 53 + 2) * oneUnits : ℕ) : ℤ) < n := not_le.mp fun hle => not_le.mpr h (fin_le_fin.mpr hle)
      have hpos := oneUnits_pos
      obtain ⟨q, rfl⟩ := two_dvd_of_large hn (by push_cast at hlt ⊢; nlinarith)
      have hq : 2 ^ 52 + 2 ≤ q := by
        push_cast at hlt
        have : 2 ^ 53 + 2 < 2 * q := by nlinarith
        omega
      have hlast : ofNat (2 ^ 53 + 2) < fin ((2 ^ 53 + 4) * oneUnits : ℕ) isDouble_stuck := by
        rw [ofNat_last]
        refine lt_of_not_ge fun hle => absurd (fin_le_fin.mp hle) (not_le.mpr ?_)
        exact Int.ofNat_lt.mpr (Nat.mul_lt_mul_of_pos_right (by norm_num) hpos)
      refine lt_of_lt_of_le hlast ?_
      rcases hq.eq_or_lt with rfl | hq
      · have heq : fin (((2 * oneUnits : ℕ) : ℤ) * (2 ^ 52 + 2)) hn = fin ((2 ^ 53 + 4) * oneUnits : ℕ) isDouble_stuck :=
          fin_congr (by push_cast; ring)
        rw [heq]
        decide +kernel
      · rw [sub_one_fin]
        refine fin_le_ofUnits isDouble_stuck ?_
        push_cast
        nlinarith

/-! ### Steps above zero -/

/-- The largest number from which at most `m` steps stay above `0`. -/
def lastCount (m : ℕ) : JsNumber := ofNat (if m < 2 ^ 53 then m + 1 else 2 ^ 53 + 2)

/-- A step from `lastCount (k + 1)` or below leaves `lastCount k` or below. -/
theorem sub_one_le_lastCount (h : x ≤ lastCount (k + 1)) : x.sub (ofNat 1) ≤ lastCount k := by
  unfold lastCount at h ⊢
  split_ifs at h with hk
  · rw [if_pos (by omega)]
    exact sub_one_le (by omega) h
  · rcases Nat.lt_or_ge k (2 ^ 53) with hlt | hge
    · obtain rfl : k = 2 ^ 53 - 1 := by omega
      rw [if_pos hlt]
      exact sub_one_le_of_le_last h
    · rw [if_neg (not_lt.mpr hge)]
      exact (sub_one_le_of_le_last h).trans (ofNat_le_last (le_refl _))

/-- A step from above `lastCount (k + 1)` stays above `lastCount k`. -/
theorem lastCount_lt_sub_one (h : lastCount (k + 1) < x) : lastCount k < x.sub (ofNat 1) := by
  unfold lastCount at h ⊢
  split_ifs at h with hk
  · rw [if_pos (by omega)]
    exact lt_sub_one (by omega) h
  · have hstay := last_lt_sub_one h
    split_ifs with hlt
    · refine lt_trans ?_ hstay
      rw [ofNat_eq (by omega), ofNat_last]
      refine lt_of_le_of_ne (fin_le_fin.mpr ?_) (fun heq => ?_)
      · exact Int.ofNat_le.mpr (Nat.mul_le_mul_right _ (by omega))
      · have := fin.inj heq
        have hpos := oneUnits_pos
        have : (k + 1) * oneUnits = (2 ^ 53 + 2) * oneUnits := by exact_mod_cast this
        have := Nat.eq_of_mul_eq_mul_right hpos this
        omega
    · exact hstay

/-- The last step does not stay above `0`. -/
theorem sub_one_le_zero (h : x ≤ lastCount 0) : (x.sub (ofNat 1)).le 0 = true := by
  have hle : x.sub (ofNat 1) ≤ ofNat 0 := sub_one_le (by norm_num) h
  rw [ofNat_zero] at hle
  rw [le, decide_eq_true_eq]
  refine ⟨fun hnan => ?_, fun h => (by cases h), hle⟩
  rw [hnan] at hle
  cases le_antisymm hle (le_nan _)

/-- From above `lastCount m` the first step stays above `0`. -/
theorem sub_one_le_eq_false (h : lastCount k < x) : (x.sub (ofNat 1)).le 0 = false := by
  have hone : ofNat 1 < x := by
    refine lt_of_le_of_lt ?_ h
    unfold lastCount
    split_ifs with hk
    · rw [ofNat_eq (by norm_num), ofNat_eq (by omega)]
      exact fin_le_fin.mpr (Int.ofNat_le.mpr (Nat.mul_le_mul_right _ (by omega)))
    · exact ofNat_le_last (by norm_num)
  have hlt : ofNat 0 < x.sub (ofNat 1) := lt_sub_one (by norm_num) hone
  rw [ofNat_zero] at hlt
  rw [le, decide_eq_false_iff_not]
  exact fun hle => absurd hle.2.2 (not_le.mpr hlt)

end JsNumber
end BrowserMesh.Js
