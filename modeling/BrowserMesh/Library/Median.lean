import Mathlib

/-! # Elements by rank, and majorities

`IsNth l k x` says that `x` stands at place `k` when `l` is put in order; it is stated by counting, so it needs no sorted
list and no order of the list matters.  The two middle elements of a list lie in every interval that more than half of
the list lies in (`IsNth.mem_of_majority`). -/

namespace BrowserMesh.Median

variable {α : Type} [LinearOrder α] {l l' : List α} {k : ℕ} {x y a b : α}

/-- At most `k` elements are below `x`, and more than `k` are not above it. -/
def IsNth (l : List α) (k : ℕ) (x : α) : Prop :=
  l.countP (fun y => decide (y < x)) ≤ k ∧ k < l.countP (fun y => decide (y ≤ x))

theorem IsNth.perm (h : IsNth l k x) (hp : l.Perm l') : IsNth l' k x := by
  unfold IsNth at h ⊢
  rwa [← hp.countP_eq, ← hp.countP_eq]

/-- Place `k` holds one element. -/
theorem IsNth.unique (hx : IsNth l k x) (hy : IsNth l k y) : x = y := by
  have hbelow : ∀ {x y : α}, IsNth l k x → IsNth l k y → y ≤ x := by
    intro x y hx hy
    by_contra hlt
    have hmono : l.countP (fun z => decide (z ≤ x)) ≤ l.countP (fun z => decide (z < y)) := by
      refine List.countP_mono_left fun z _ hz => ?_
      exact decide_eq_true ((of_decide_eq_true hz).trans_lt (not_le.mp hlt))
    have := hx.2
    have := hy.1
    omega
  exact le_antisymm (hbelow hy hx) (hbelow hx hy)

theorem IsNth.mem (h : IsNth l k x) : x ∈ l := by
  by_contra hno
  have hsame : l.countP (fun y => decide (y ≤ x)) = l.countP (fun y => decide (y < x)) := by
    refine List.countP_congr fun y hy => ?_
    have hne : y ≠ x := fun heq => hno (heq ▸ hy)
    rw [decide_eq_true_iff, decide_eq_true_iff]
    exact ⟨fun hle => lt_of_le_of_ne hle hne, le_of_lt⟩
  have := h.1
  have := h.2
  omega

/-- The element at place `k` of a list in order. -/
theorem isNth_getElem (hs : l.Pairwise (· ≤ ·)) (hk : k < l.length) : IsNth l k l[k] := by
  have hle : ∀ i j (hi : i < l.length) (hj : j < l.length), i ≤ j → l[i] ≤ l[j] := by
    intro i j hi hj hij
    rcases hij.eq_or_lt with rfl | hlt
    · exact le_rfl
    · exact List.pairwise_iff_getElem.mp hs i j hi hj hlt
  constructor
  · -- from place `k` on nothing is below
    have hsplit := congrArg (List.countP fun y => decide (y < l[k])) (List.take_append_drop k l).symm
    rw [List.countP_append] at hsplit
    have hdrop : (l.drop k).countP (fun y => decide (y < l[k])) = 0 := by
      refine List.countP_eq_zero.mpr fun y hy hlt => ?_
      obtain ⟨i, hi, rfl⟩ := List.mem_iff_getElem.mp hy
      rw [List.getElem_drop] at hlt
      rw [List.length_drop] at hi
      exact absurd (of_decide_eq_true hlt) (not_lt.mpr (hle k (k + i) hk (by omega) (by omega)))
    have htake := (List.countP_le_length (p := fun y => decide (y < l[k])) (l := l.take k))
    rw [List.length_take] at htake
    omega
  · -- up to place `k` nothing is above
    have hsplit := congrArg (List.countP fun y => decide (y ≤ l[k])) (List.take_append_drop (k + 1) l).symm
    rw [List.countP_append] at hsplit
    have htake : (l.take (k + 1)).countP (fun y => decide (y ≤ l[k])) = (l.take (k + 1)).length := by
      refine List.countP_eq_length.mpr fun y hy => ?_
      obtain ⟨i, hi, rfl⟩ := List.mem_iff_getElem.mp hy
      rw [List.getElem_take]
      rw [List.length_take] at hi
      exact decide_eq_true (hle i k (by omega) hk (by omega))
    rw [List.length_take] at htake
    omega

def IsMiddle (n k : ℕ) : Prop := k = (n - 1) / 2 ∨ k = n / 2

/-- More than half of `l` lies between `a` and `b`. -/
def Majority (l : List α) (a b : α) : Prop := l.length < 2 * l.countP (fun x => decide (a ≤ x ∧ x ≤ b))

instance (l : List α) (a b : α) : Decidable (Majority l a b) := inferInstanceAs (Decidable (_ < _))

/-- What stands in the middle lies wherever a majority lies. -/
theorem IsNth.mem_of_majority (h : IsNth l k x) (hk : IsMiddle l.length k) (hmaj : Majority l a b) : a ≤ x ∧ x ≤ b := by
  unfold Majority at hmaj
  unfold IsMiddle at hk
  have hin : ∀ p : α → Bool, (∀ y, p y = true → ¬ (a ≤ y ∧ y ≤ b)) →
      l.countP p + l.countP (fun y => decide (a ≤ y ∧ y ≤ b)) ≤ l.length := by
    intro p hp
    rw [List.length_eq_countP_add_countP (fun y => decide (a ≤ y ∧ y ≤ b)), add_comm]
    refine Nat.add_le_add_left (List.countP_mono_left fun y _ hy => ?_) _
    rw [decide_eq_true_iff, decide_eq_true_iff]
    exact hp y hy
  constructor
  · by_contra hlt
    have hout := hin (fun y => decide (y ≤ x)) fun y hy hmem =>
      hlt (hmem.1.trans (of_decide_eq_true hy))
    have := h.2
    omega
  · by_contra hlt
    have hmono : l.countP (fun y => decide (a ≤ y ∧ y ≤ b)) ≤ l.countP (fun y => decide (y < x)) := by
      refine List.countP_mono_left fun y _ hy => decide_eq_true ?_
      exact (of_decide_eq_true hy).2.trans_lt (not_le.mp hlt)
    have := h.1
    omega

/-- A majority stays one when only elements outside of it are left out. -/
theorem Majority.filter {p : α → Bool} (h : Majority l a b) (hp : ∀ x ∈ l, a ≤ x → x ≤ b → p x = true) :
    Majority (l.filter p) a b := by
  unfold Majority at h ⊢
  have hlen := List.length_filter_le p l
  have hcount : (l.filter p).countP (fun x => decide (a ≤ x ∧ x ≤ b)) = l.countP (fun x => decide (a ≤ x ∧ x ≤ b)) := by
    rw [List.countP_filter]
    refine List.countP_congr fun x hx => ?_
    simp only [Bool.and_eq_true, decide_eq_true_eq]
    exact ⟨fun hboth => hboth.1, fun hin => ⟨hin, hp x hx hin.1 hin.2⟩⟩
  omega

end BrowserMesh.Median
