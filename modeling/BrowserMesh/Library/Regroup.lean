import Mathlib.Data.Nat.Digits.Defs
import Mathlib.Data.Nat.Digits.Lemmas
import Mathlib.Tactic.Ring
import Mathlib.Tactic.Linarith

/-! # Regrouping bits

A coder takes digits of `a` bits and gives out digits of `b` bits; the bits in between wait in an accumulator.

* `Regrouped`: the digits taken are the digits given out followed by the waiting bits.
* `Padded`: the digits given out are the digits taken followed by fewer than `b` zero bits.
* Taking a padded list apart gives the digits back (`Regrouped.eq_of_padded`); putting a list together again gives
  the list exactly when fewer than `b` bits wait, all of them zero (`Padded.eq_iff`). -/

namespace BrowserMesh.Regroup

/-- The number whose digits of `a` bits are `ds`, the most significant first. -/
def value (a : ℕ) (ds : List ℕ) : ℕ := Nat.ofDigits (2 ^ a) ds.reverse

@[simp] theorem value_nil (a : ℕ) : value a [] = 0 := rfl

theorem value_concat (a : ℕ) (ds : List ℕ) (d : ℕ) : value a (ds ++ [d]) = value a ds * 2 ^ a + d := by
  unfold value
  rw [List.reverse_append, List.reverse_singleton, List.singleton_append, Nat.ofDigits_cons]
  ring

theorem value_inj {a : ℕ} (ha : 0 < a) {l l' : List ℕ} (hlen : l.length = l'.length) (hl : ∀ d ∈ l, d < 2 ^ a)
    (hl' : ∀ d ∈ l', d < 2 ^ a) (h : value a l = value a l') : l = l' := by
  refine List.reverse_injective (Nat.ofDigits_inj_of_len_eq (Nat.one_lt_two_pow ha.ne') ?_ ?_ ?_ h)
  · rw [List.length_reverse, List.length_reverse, hlen]
  · exact fun d hd => hl d (List.mem_reverse.mp hd)
  · exact fun d hd => hl' d (List.mem_reverse.mp hd)

/-- The digits `taken` of `a` bits are the digits `out` of `b` bits and the low `bits` bits of `acc`. -/
structure Regrouped (a b : ℕ) (taken out : List ℕ) (bits acc : ℕ) : Prop where
  value_eq : value a taken = value b out * 2 ^ bits + acc % 2 ^ bits
  length_eq : a * taken.length = b * out.length + bits
  bounded : ∀ d ∈ out, d < 2 ^ b

/-- The digits `out` of `b` bits are the digits `taken` of `a` bits and `pad` zero bits. -/
structure Padded (a b : ℕ) (taken out : List ℕ) (pad : ℕ) : Prop where
  value_eq : value b out = value a taken * 2 ^ pad
  length_eq : b * out.length = a * taken.length + pad
  short : pad < b
  bounded : ∀ d ∈ out, d < 2 ^ b

namespace Regrouped
variable {a b : ℕ} {taken out : List ℕ} {bits acc : ℕ}

/-! ### Rules -/

theorem nil (a b acc : ℕ) : Regrouped a b [] [] 0 acc where
  value_eq := by simp [Nat.mod_one]
  length_eq := rfl
  bounded d hd := by cases hd

theorem take (h : Regrouped a b taken out bits acc) (hacc : acc < 2 ^ bits) {d : ℕ} (hd : d < 2 ^ a) :
    Regrouped a b (taken ++ [d]) out (bits + a) (acc * 2 ^ a + d) where
  value_eq := by
    have hlt : acc * 2 ^ a + d < 2 ^ (bits + a) := by
      have hle : (acc + 1) * 2 ^ a ≤ 2 ^ bits * 2 ^ a := Nat.mul_le_mul_right _ hacc
      rw [pow_add]
      linarith
    have hv := h.value_eq
    rw [Nat.mod_eq_of_lt hacc] at hv
    rw [value_concat, hv, Nat.mod_eq_of_lt hlt, pow_add]
    ring
  length_eq := by
    have hlen := h.length_eq
    rw [List.length_append, List.length_singleton, mul_add, mul_one, hlen]
    omega
  bounded := h.bounded

/-- The top digit of the waiting bits is given out. -/
theorem give (h : Regrouped a b taken out bits acc) (hb : b ≤ bits) :
    Regrouped a b taken (out ++ [acc / 2 ^ (bits - b) % 2 ^ b]) (bits - b) acc where
  value_eq := by
    have hpow : 2 ^ bits = 2 ^ (bits - b) * 2 ^ b := by rw [← pow_add, Nat.sub_add_cancel hb]
    rw [h.value_eq, value_concat, hpow, Nat.mod_mul]
    ring
  length_eq := by
    have hlen := h.length_eq
    rw [List.length_append, List.length_singleton, mul_add, mul_one, hlen]
    omega
  bounded d hd := by
    rcases List.mem_append.mp hd with hd | hd
    · exact h.bounded d hd
    · rw [List.mem_singleton.mp hd]
      exact Nat.mod_lt _ (Nat.two_pow_pos b)

theorem mask (h : Regrouped a b taken out bits acc) : Regrouped a b taken out bits (acc % 2 ^ bits) :=
  ⟨by rw [Nat.mod_mod, h.value_eq], h.length_eq, h.bounded⟩

/-! ### Padding -/

theorem padded_of_zero (h : Regrouped a b taken out 0 acc) (hb : 0 < b) : Padded a b taken out 0 where
  value_eq := by
    have hv := h.value_eq
    rw [pow_zero, Nat.mod_one] at hv
    rw [hv]
    ring
  length_eq := h.length_eq.symm
  short := hb
  bounded := h.bounded

/-- The waiting bits are given out as the top bits of a last digit. -/
theorem pad (h : Regrouped a b taken out bits acc) (hpos : 0 < bits) (hlt : bits < b) :
    Padded a b taken (out ++ [acc * 2 ^ (b - bits) % 2 ^ b]) (b - bits) where
  value_eq := by
    have hpow : 2 ^ b = 2 ^ bits * 2 ^ (b - bits) := by rw [← pow_add, Nat.add_sub_cancel' hlt.le]
    rw [value_concat, h.value_eq, hpow, Nat.mul_mod_mul_right]
    ring
  length_eq := by
    have hlen := h.length_eq
    rw [List.length_append, List.length_singleton, mul_add, mul_one, hlen]
    omega
  short := by omega
  bounded d hd := by
    rcases List.mem_append.mp hd with hd | hd
    · exact h.bounded d hd
    · rw [List.mem_singleton.mp hd]
      exact Nat.mod_lt _ (Nat.two_pow_pos b)

/-! ### There and back -/

/-- Quotients and remainders by `a`, as sums. -/
theorem unique {a x y p q : ℕ} (hp : p < a) (hq : q < a) (h : a * x + p = a * y + q) : x = y ∧ p = q := by
  have hx : (a * x + p) / a = x := by rw [Nat.mul_add_div (by omega), Nat.div_eq_of_lt hp, add_zero]
  have hy : (a * y + q) / a = y := by rw [Nat.mul_add_div (by omega), Nat.div_eq_of_lt hq, add_zero]
  have hxy : x = y := by rw [← hx, ← hy, h]
  subst hxy
  exact ⟨rfl, by omega⟩

/-- Taking apart what was put together with padding. -/
theorem eq_of_padded {ds s ds' : List ℕ} {pad left : ℕ} (hp : Padded a b ds s pad)
    (hr : Regrouped b a s ds' left acc) (hba : b ≤ a) (hleft : left < a) (hds : ∀ d ∈ ds, d < 2 ^ a) : ds' = ds := by
  have hlen : a * ds'.length + left = a * ds.length + pad := by rw [← hr.length_eq, hp.length_eq]
  obtain ⟨hlength, rfl⟩ := unique hleft (hp.short.trans_le hba) hlen
  have hval : value a ds' * 2 ^ left + acc % 2 ^ left = value a ds * 2 ^ left + 0 := by
    rw [← hr.value_eq, hp.value_eq, add_zero]
  rw [mul_comm _ (2 ^ left), mul_comm _ (2 ^ left)] at hval
  have hpos : 0 < left + 1 := left.succ_pos
  exact value_inj (by omega) hlength hr.bounded hds
    (unique (Nat.mod_lt _ (Nat.two_pow_pos left)) (Nat.two_pow_pos left) hval).1

end Regrouped

/-- **Putting together what was taken apart** gives the list back exactly when fewer than `b` bits were left, all of
them zero. -/
theorem Padded.eq_iff {a b : ℕ} {s ds s' : List ℕ} {left pad acc : ℕ} (hr : Regrouped b a s ds left acc)
    (hp : Padded a b ds s' pad) (hs : ∀ d ∈ s, d < 2 ^ b) : s' = s ↔ left < b ∧ acc % 2 ^ left = 0 := by
  have hrl := hr.length_eq
  have hpl := hp.length_eq
  have hshort := hp.short
  constructor
  · rintro rfl
    obtain rfl : left = pad := by omega
    have hv := hr.value_eq
    rw [hp.value_eq] at hv
    exact ⟨hshort, by omega⟩
  · rintro ⟨hlt, hzero⟩
    have hlen : b * s'.length + left = b * s.length + pad := by omega
    obtain ⟨hlength, rfl⟩ := Regrouped.unique hlt hshort hlen
    refine value_inj (by omega) hlength hp.bounded hs ?_
    rw [hp.value_eq, hr.value_eq, hzero, add_zero]

/-- The bits left over are the low bits of the last digit. -/
theorem Regrouped.mod_last {a b : ℕ} {s ds : List ℕ} {d left acc : ℕ} (hr : Regrouped b a (s ++ [d]) ds left acc)
    (hlt : left ≤ b) : acc % 2 ^ left = d % 2 ^ left := by
  have hv := hr.value_eq
  rw [value_concat, ← Nat.sub_add_cancel hlt, pow_add, ← mul_assoc] at hv
  have hmod := congrArg (· % 2 ^ left) hv
  simp only [Nat.mul_add_mod_self_right, Nat.mod_mod] at hmod
  exact hmod.symm

end BrowserMesh.Regroup
