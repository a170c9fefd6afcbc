import Mathlib

/-! # Weaving two sequences

Sequences without repetition over a linearly ordered type, merged by looking at their heads.

* `Before l x y`: `x` occurs before `y` in `l`.  On a list without repetition it is a strict total
  order of its elements, and a sublist keeps it.
* `weave a b`: while the heads differ, a head that the other sequence does not contain goes first; when
  both are foreign to the other sequence, the smaller one.  On consistent sequences it is the
  union, it keeps the order of both (`sublist_weave_left`, `sublist_weave_right`), it is commutative
  (`weave_comm`), and an inversion of two foreign elements is explained by a common element
  between them or by a greater element that pushed the smaller one back (`weave_inversion`). -/

namespace BrowserMesh.Sequence

variable {α : Type}

/-! ### The order of a sequence -/

/-- `x` occurs in the sequence, and `y` after it. -/
def Before (x y : α) : List α → Prop
  | [] => False
  | z :: l => (z = x ∧ y ∈ l) ∨ Before x y l

instance decidableBefore [DecidableEq α] (x y : α) : ∀ l, Decidable (Before x y l)
  | [] => isFalse id
  | z :: l =>
      have := decidableBefore x y l
      inferInstanceAs (Decidable ((z = x ∧ y ∈ l) ∨ Before x y l))

/-- Two sequences never order two elements differently. -/
def Consistent (a b : List α) : Prop := ∀ x y, Before x y a → ¬ Before y x b

section order
variable {x y z : α} {l m : List α}

@[simp] theorem not_before_nil : ¬ Before x y [] := id

@[simp] theorem before_cons : Before x y (z :: l) ↔ (z = x ∧ y ∈ l) ∨ Before x y l := Iff.rfl

theorem Before.right_mem (h : Before x y l) : y ∈ l := by
  induction l with
  | nil => cases h
  | cons w l ih =>
      rcases h with ⟨_, hy⟩ | h
      · exact List.mem_cons_of_mem w hy
      · exact List.mem_cons_of_mem w (ih h)

theorem Before.left_mem (h : Before x y l) : x ∈ l := by
  induction l with
  | nil => cases h
  | cons w l ih =>
      rcases h with ⟨rfl, _⟩ | h
      · exact List.mem_cons_self
      · exact List.mem_cons_of_mem w (ih h)

theorem Before.sublist (h : Before x y l) (hs : l.Sublist m) : Before x y m := by
  induction hs with
  | slnil => cases h
  | cons w hs ih => exact Or.inr (ih h)
  | cons_cons w hs ih =>
      rcases h with ⟨hw, hy⟩ | h
      · exact Or.inl ⟨hw, hs.subset hy⟩
      · exact Or.inr (ih h)

theorem Before.asymm (hn : l.Nodup) (h : Before x y l) : ¬ Before y x l := by
  induction l with
  | nil => cases h
  | cons w l ih =>
      rw [List.nodup_cons] at hn
      rintro (⟨rfl, hx⟩ | h')
      · rcases h with ⟨rfl, _⟩ | h
        · exact hn.1 hx
        · exact hn.1 h.right_mem
      · rcases h with ⟨rfl, _⟩ | h
        · exact hn.1 h'.right_mem
        · exact ih hn.2 h h'

theorem Before.ne (hn : l.Nodup) (h : Before x y l) : x ≠ y := by
  rintro rfl
  exact h.asymm hn h

theorem Before.trans (hn : l.Nodup) (h : Before x y l) (h' : Before y z l) : Before x z l := by
  induction l with
  | nil => cases h
  | cons w l ih =>
      rw [List.nodup_cons] at hn
      rcases h' with ⟨rfl, _⟩ | h'
      · rcases h with ⟨rfl, hy⟩ | h
        · exact absurd hy hn.1
        · exact absurd h.right_mem hn.1
      · rcases h with ⟨rfl, _⟩ | h
        · exact Or.inl ⟨rfl, h'.right_mem⟩
        · exact Or.inr (ih hn.2 h h')

theorem before_or_before (hx : x ∈ l) (hy : y ∈ l) (hne : x ≠ y) : Before x y l ∨ Before y x l := by
  induction l with
  | nil => cases hx
  | cons w l ih =>
      rcases List.mem_cons.mp hx with rfl | hx'
      · rcases List.mem_cons.mp hy with rfl | hy'
        · exact absurd rfl hne
        · exact Or.inl (Or.inl ⟨rfl, hy'⟩)
      · rcases List.mem_cons.mp hy with rfl | hy'
        · exact Or.inr (Or.inl ⟨rfl, hx'⟩)
        · exact (ih hx' hy').imp Or.inr Or.inr

/-- A sublist orders its elements as the whole does. -/
theorem before_iff_of_sublist (hn : m.Nodup) (hs : l.Sublist m) (hx : x ∈ l) (hy : y ∈ l) :
    Before x y l ↔ Before x y m := by
  refine ⟨fun h => h.sublist hs, fun h => ?_⟩
  rcases before_or_before hx hy (h.ne hn) with h' | h'
  · exact h'
  · exact absurd (h'.sublist hs) (h.asymm hn)

theorem Consistent.symm (h : Consistent l m) : Consistent m l := fun x y hm hl => h y x hl hm

theorem Consistent.of_cons (h : Consistent (x :: l) m) : Consistent l m :=
  fun _ _ hl => h _ _ (Or.inr hl)

theorem Consistent.of_cons_right (h : Consistent l (x :: m)) : Consistent l m :=
  h.symm.of_cons.symm

/-- Consistent sequences of the same elements are equal. -/
theorem Consistent.eq (hl : l.Nodup) (hm : m.Nodup) (hmem : ∀ x, x ∈ l ↔ x ∈ m)
    (h : Consistent l m) : l = m := by
  have hpw : ∀ {k : List α}, k.Nodup → k.Pairwise (fun x y => Before x y k) := by
    intro k hk
    induction k with
    | nil => exact List.Pairwise.nil
    | cons w k ih =>
        rw [List.nodup_cons] at hk
        exact List.Pairwise.cons (fun y hy => Or.inl ⟨rfl, hy⟩)
          ((ih hk.2).imp fun hxy => Or.inr hxy)
  have hsame : ∀ x y, Before x y m → Before x y l := by
    intro x y hxy
    rcases before_or_before ((hmem x).mpr hxy.left_mem) ((hmem y).mpr hxy.right_mem) (hxy.ne hm)
      with h' | h'
    · exact h'
    · exact absurd hxy (h y x h')
  refine List.Perm.eq_of_pairwise ?_ (hpw hl) ((hpw hm).imp (hsame _ _))
    ((List.perm_ext_iff_of_nodup hl hm).mpr hmem)
  exact fun x y _ _ hxy hyx => absurd hyx (hxy.asymm hl)

end order

/-! ### Weaving -/

section weave
variable [LinearOrder α]

/-- Merge two sequences by their heads. -/
def weave : List α → List α → List α
  | [], b => b
  | a, [] => a
  | x :: a, y :: b =>
      if x = y then x :: weave a b
      else if x ∈ b ∧ y ∉ a then y :: weave (x :: a) b
      else if y ∈ a ∧ x ∉ b then x :: weave a (y :: b)
      else if x < y then x :: weave a (y :: b)
      else y :: weave (x :: a) b
termination_by a b => a.length + b.length

theorem mem_weave {z : α} (a b : List α) : z ∈ weave a b ↔ z ∈ a ∨ z ∈ b := by
  fun_induction weave a b with
  | case1 b => simp
  | case2 a => simp
  | case3 a x b ih => simp [ih]; tauto
  | case4 x a y b _ _ ih => simp [ih]; tauto
  | case5 x a y b _ _ _ ih => simp [ih]; tauto
  | case6 x a y b _ _ _ _ ih => simp [ih]; tauto
  | case7 x a y b _ _ _ _ ih => simp [ih]; tauto

theorem sublist_weave_left (a b : List α) : a.Sublist (weave a b) := by
  fun_induction weave a b with
  | case1 b => exact List.nil_sublist b
  | case2 a => exact List.Sublist.refl a
  | case3 a x b ih => exact ih.cons_cons x
  | case4 x a y b _ _ ih => exact ih.cons y
  | case5 x a y b _ _ _ ih => exact ih.cons_cons x
  | case6 x a y b _ _ _ _ ih => exact ih.cons_cons x
  | case7 x a y b _ _ _ _ ih => exact ih.cons y

theorem weave_comm (a b : List α) : weave a b = weave b a := by
  fun_induction weave a b with
  | case1 b => cases b <;> simp [weave]
  | case2 a => cases a <;> simp [weave]
  | case3 a x b ih => rw [weave, if_pos rfl, ih]
  | case4 x a y b hne h ih =>
      rw [weave, if_neg (Ne.symm hne), if_neg (fun h' => h.2 h'.1), if_pos h, ih]
  | case5 x a y b hne h h' ih => rw [weave, if_neg (Ne.symm hne), if_pos h', ih]
  | case6 x a y b hne h h' hlt ih =>
      rw [weave, if_neg (Ne.symm hne), if_neg h', if_neg h, if_neg hlt.le.not_gt, ih]
  | case7 x a y b hne h h' hlt ih =>
      rw [weave, if_neg (Ne.symm hne), if_neg h', if_neg h,
        if_pos (lt_of_le_of_ne (not_lt.mp hlt) (Ne.symm hne)), ih]

theorem sublist_weave_right (a b : List α) : b.Sublist (weave a b) :=
  weave_comm b a ▸ sublist_weave_left b a

omit [LinearOrder α] in
/-- Two heads of consistent sequences that are tied are foreign to the other sequence. -/
theorem not_mem_of_tied {x y : α} {a b : List α} (hne : x ≠ y) (hc : Consistent (x :: a) (y :: b))
    (h : ¬ (x ∈ b ∧ y ∉ a)) (h' : ¬ (y ∈ a ∧ x ∉ b)) : x ∉ y :: b ∧ y ∉ x :: a := by
  have hx : x ∉ b := fun hx => by
    have hy : y ∈ a := by_contra fun hy => h ⟨hx, hy⟩
    exact hc x y (Or.inl ⟨rfl, hy⟩) (Or.inl ⟨rfl, hx⟩)
  have hy : y ∉ a := fun hy => h' ⟨hy, hx⟩
  exact ⟨fun hm => (List.mem_cons.mp hm).elim hne hx,
    fun hm => (List.mem_cons.mp hm).elim (Ne.symm hne) hy⟩

theorem nodup_weave {a b : List α} (ha : a.Nodup) (hb : b.Nodup) (hc : Consistent a b) :
    (weave a b).Nodup := by
  fun_induction weave a b with
  | case1 b => exact hb
  | case2 a => exact ha
  | case3 a x b ih =>
      rw [List.nodup_cons] at ha hb
      refine List.nodup_cons.mpr ⟨?_, ih ha.2 hb.2 hc.of_cons.of_cons_right⟩
      rw [mem_weave]
      exact fun h => h.elim ha.1 hb.1
  | case4 x a y b hne h ih =>
      rw [List.nodup_cons] at hb
      refine List.nodup_cons.mpr ⟨?_, ih ha hb.2 hc.of_cons_right⟩
      rw [mem_weave]
      rintro (hy | hy)
      · exact (List.mem_cons.mp hy).elim (Ne.symm hne) h.2
      · exact hb.1 hy
  | case5 x a y b hne h h' ih =>
      rw [List.nodup_cons] at ha
      refine List.nodup_cons.mpr ⟨?_, ih ha.2 hb hc.of_cons⟩
      rw [mem_weave]
      rintro (hx | hx)
      · exact ha.1 hx
      · exact (List.mem_cons.mp hx).elim hne h'.2
  | case6 x a y b hne h h' hlt ih =>
      obtain ⟨hx, _⟩ := not_mem_of_tied hne hc h h'
      rw [List.nodup_cons] at ha
      refine List.nodup_cons.mpr ⟨?_, ih ha.2 hb hc.of_cons⟩
      rw [mem_weave]
      exact fun hm => hm.elim ha.1 hx
  | case7 x a y b hne h h' hlt ih =>
      obtain ⟨_, hy⟩ := not_mem_of_tied hne hc h h'
      rw [List.nodup_cons] at hb
      refine List.nodup_cons.mpr ⟨?_, ih ha hb.2 hc.of_cons_right⟩
      rw [mem_weave]
      exact fun hm => hm.elim hy hb.1

/-- Why `x`, foreign to `b`, comes before the smaller `y`, foreign to `a`, in the weave `w`: a common
element between them, or a greater element of `b` between them. -/
def Explained (a b w : List α) (x y : α) : Prop :=
  (∃ c ∈ a, c ∈ b ∧ Before x c w ∧ Before c y w) ∨
    ∃ p ∈ b, p ∉ a ∧ x < p ∧ Before x p w ∧ Before p y b

theorem Explained.cons {a b a' b' w : List α} {x y : α} (h : Explained a' b' w x y) (z : α)
    (ha : a'.Sublist a) (hb : b'.Sublist b) (hforeign : ∀ p ∈ b', p ∉ a' → p ∉ a) :
    Explained a b (z :: w) x y := by
  rcases h with ⟨c, hca, hcb, hxc, hcy⟩ | ⟨p, hpb, hpa, hlt, hxp, hpy⟩
  · exact Or.inl ⟨c, ha.subset hca, hb.subset hcb, Or.inr hxc, Or.inr hcy⟩
  · exact Or.inr ⟨p, hb.subset hpb, hforeign p hpb hpa, hlt, Or.inr hxp, hpy.sublist hb⟩

/-- **Inversions are explained.** -/
theorem weave_inversion {a b : List α} (ha : a.Nodup) (hb : b.Nodup) (hc : Consistent a b) {x y : α}
    (hxb : x ∉ b) (hya : y ∉ a) (hyb : y ∈ b) (hbef : Before x y (weave a b)) (hlt : y < x) :
    Explained a b (weave a b) x y := by
  have hnodup := nodup_weave ha hb hc
  fun_induction weave a b with
  | case1 b => exact absurd hbef.left_mem hxb
  | case2 a => cases hyb
  | case3 a u b ih =>
      rw [List.nodup_cons] at ha hb hnodup
      rcases hbef with ⟨rfl, _⟩ | hbef
      · exact absurd List.mem_cons_self hxb
      have hyb' : y ∈ b :=
        (List.mem_cons.mp hyb).resolve_left fun h => hya (h ▸ List.mem_cons_self)
      refine (ih ha.2 hb.2 hc.of_cons.of_cons_right (fun h => hxb (List.mem_cons_of_mem u h))
        (fun h => hya (List.mem_cons_of_mem u h)) hyb' hbef hnodup.2).cons u
        (List.sublist_cons_self u a) (List.sublist_cons_self u b) fun p hp hpa hm => ?_
      exact (List.mem_cons.mp hm).elim (fun h => hb.1 (h ▸ hp)) hpa
  | case4 u a v b hne h ih =>
      rw [List.nodup_cons] at hb hnodup
      rcases hbef with ⟨rfl, _⟩ | hbef
      · exact absurd List.mem_cons_self hxb
      have hyb' : y ∈ b :=
        (List.mem_cons.mp hyb).resolve_left fun h => hnodup.1 (h ▸ hbef.right_mem)
      exact (ih ha hb.2 hc.of_cons_right (fun h => hxb (List.mem_cons_of_mem v h)) hya hyb' hbef
        hnodup.2).cons v (List.Sublist.refl _) (List.sublist_cons_self v b) fun p _ hpa => hpa
  | case5 u a v b hne h h' ih =>
      rw [List.nodup_cons] at ha hnodup
      rcases hbef with ⟨rfl, _⟩ | hbef
      · -- the common element `v` separates them
        have hy : y ≠ v := fun e => hya (e ▸ List.mem_cons_of_mem u h'.1)
        have hvy : Before v y (v :: b) := Or.inl ⟨rfl, (List.mem_cons.mp hyb).resolve_left hy⟩
        have hv : v ∈ weave a (v :: b) := (mem_weave _ _).mpr (Or.inl h'.1)
        exact Or.inl ⟨v, List.mem_cons_of_mem _ h'.1, List.mem_cons_self, Or.inl ⟨rfl, hv⟩,
          Or.inr (hvy.sublist (sublist_weave_right _ _))⟩
      · refine (ih ha.2 hb hc.of_cons hxb (fun h => hya (List.mem_cons_of_mem u h)) hyb hbef
          hnodup.2).cons u (List.sublist_cons_self u a) (List.Sublist.refl _) fun p hp hpa hm => ?_
        rcases List.mem_cons.mp hm with rfl | hm
        · exact (List.mem_cons.mp hp).elim hne h'.2
        · exact hpa hm
  | case6 u a v b hne h h' huv ih =>
      obtain ⟨hu, hv⟩ := not_mem_of_tied hne hc h h'
      rw [List.nodup_cons] at ha hnodup
      rcases hbef with ⟨rfl, _⟩ | hbef
      · -- the greater head `v` pushed `y` back
        have hy : y ≠ v := by rintro rfl; exact lt_asymm hlt huv
        have hvy : Before v y (v :: b) := Or.inl ⟨rfl, (List.mem_cons.mp hyb).resolve_left hy⟩
        have hvw : v ∈ weave a (v :: b) := (mem_weave _ _).mpr (Or.inr List.mem_cons_self)
        exact Or.inr ⟨v, List.mem_cons_self, hv, huv, Or.inl ⟨rfl, hvw⟩, hvy⟩
      · refine (ih ha.2 hb hc.of_cons hxb (fun h => hya (List.mem_cons_of_mem u h)) hyb hbef
          hnodup.2).cons u (List.sublist_cons_self u a) (List.Sublist.refl _) fun p hp hpa hm => ?_
        rcases List.mem_cons.mp hm with rfl | hm
        · exact hu hp
        · exact hpa hm
  | case7 u a v b hne h h' huv ih =>
      rw [List.nodup_cons] at hb hnodup
      rcases hbef with ⟨rfl, _⟩ | hbef
      · exact absurd List.mem_cons_self hxb
      have hyb' : y ∈ b :=
        (List.mem_cons.mp hyb).resolve_left fun h => hnodup.1 (h ▸ hbef.right_mem)
      exact (ih ha hb.2 hc.of_cons_right (fun h => hxb (List.mem_cons_of_mem v h)) hya hyb' hbef
        hnodup.2).cons v (List.Sublist.refl _) (List.sublist_cons_self v b) fun p _ hpa => hpa

end weave

/-! ### Convergent families of sequences -/

section family
variable [LinearOrder α]

/-- What keeps a family of sequences consistent.  `known z x` says that `z` was in the sequence into
which `x` was first inserted. -/
structure Convergent (known : α → α → Prop) (F : Set (List α)) : Prop where
  nodup : ∀ l ∈ F, l.Nodup
  /-- A sequence has what its elements knew. -/
  closed : ∀ l ∈ F, ∀ x ∈ l, ∀ z, known z x → z ∈ l
  /-- What an element knew was inserted earlier. -/
  rank : ∃ r : α → ℕ, ∀ l ∈ F, ∀ x ∈ l, ∀ z, known z x → r z < r x
  /-- The order of an element and what it knew never changes. -/
  fixed : ∀ l ∈ F, ∀ m ∈ F, ∀ x ∈ l, x ∈ m → ∀ z, known z x → Before z x l → Before z x m
  /-- Two elements that did not know each other are in the order of the ids, unless one they
  knew is between them. -/
  separated : ∀ l ∈ F, ∀ x y, Before x y l → y < x → ¬ known x y → ¬ known y x →
    ∃ z, Before x z l ∧ Before z y l ∧ (known z x ∨ known z y)

variable {known : α → α → Prop} {F : Set (List α)}

theorem Convergent.fixed' (h : Convergent known F) {l m : List α} (hl : l ∈ F) (hm : m ∈ F) {x z : α}
    (hxl : x ∈ l) (hxm : x ∈ m) (hk : known z x) (hb : Before x z l) : Before x z m := by
  have hzm := h.closed m hm x hxm z hk
  rcases before_or_before hxm hzm (hb.ne (h.nodup l hl)) with h' | h'
  · exact h'
  · exact absurd (h.fixed m hm l hl x hxm hxl z hk h') (hb.asymm (h.nodup l hl))

/-- One half of `Convergent.consistent`: the inversion is in `m`. -/
theorem Convergent.step (h : Convergent known F) {l m : List α} (hl : l ∈ F) (hm : m ∈ F) {r : α → ℕ}
    (hr : ∀ l ∈ F, ∀ x ∈ l, ∀ z, known z x → r z < r x) {x y : α}
    (ih : ∀ x' y', r x' + r y' < r x + r y → Before x' y' l → ¬ Before y' x' m)
    (hxy : Before x y l) (hyx : Before y x m) (hlt : x < y) (hk : ¬ known x y) (hk' : ¬ known y x) :
    False := by
  have hxl := hxy.left_mem
  have hyl := hxy.right_mem
  have hym := hyx.left_mem
  have hxm := hyx.right_mem
  obtain ⟨z, hyz, hzx, hz | hz⟩ := h.separated m hm y x hyx hlt hk' hk
  · -- `y` knew `z`, so `z` comes after `y` in `l` as well
    have hlz := h.fixed' hm hl hym hyl hz hyz
    have hxz := hxy.trans (h.nodup l hl) hlz
    exact ih x z (by have := hr l hl y hyl z hz; omega) hxz hzx
  · have hlz := h.fixed m hm l hl x hxm hxl z hz hzx
    have hzy := hlz.trans (h.nodup l hl) hxy
    exact ih z y (by have := hr l hl x hxl z hz; omega) hzy hyz

/-- **Convergence**: no two sequences of the family order two elements differently. -/
theorem Convergent.consistent (h : Convergent known F) {l m : List α} (hl : l ∈ F) (hm : m ∈ F) :
    Consistent l m := by
  obtain ⟨r, hr⟩ := h.rank
  -- a pair of least rank that two sequences order differently has a pair of smaller rank
  have key : ∀ n x y, r x + r y = n → ∀ l ∈ F, ∀ m ∈ F, Before x y l → ¬ Before y x m := by
    intro n
    induction n using Nat.strong_induction_on with
    | h n ih =>
        intro x y hn l hl m hm hxy hyx
        have hnl := h.nodup l hl
        have hnm := h.nodup m hm
        have ih' : ∀ x' y', r x' + r y' < r x + r y → ∀ l ∈ F, ∀ m ∈ F, Before x' y' l →
            ¬ Before y' x' m := fun x' y' hlt => ih _ (hn ▸ hlt) x' y' rfl
        by_cases hk : known x y
        · exact hyx.asymm hnm (h.fixed l hl m hm y hxy.right_mem hyx.left_mem x hk hxy)
        by_cases hk' : known y x
        · exact hxy.asymm hnl (h.fixed m hm l hl x hyx.right_mem hxy.left_mem y hk' hyx)
        rcases lt_trichotomy x y with hlt | rfl | hlt
        · exact h.step hl hm hr (fun x' y' hlt => ih' x' y' hlt l hl m hm) hxy hyx hlt hk hk'
        · exact hxy.ne hnl rfl
        · refine h.step hm hl hr (fun x' y' hlt hb hb' => ?_) hyx hxy hlt hk' hk
          exact ih' y' x' (by omega) l hl m hm hb' hb
  exact fun x y => key _ x y rfl l hl m hm

/-- Sequences of the family with the same elements are equal. -/
theorem Convergent.eq (h : Convergent known F) {l m : List α} (hl : l ∈ F) (hm : m ∈ F)
    (hmem : ∀ x, x ∈ l ↔ x ∈ m) : l = m :=
  (h.consistent hl hm).eq (h.nodup l hl) (h.nodup m hm) hmem

/-! ### Insertions and safe weaves -/

/-- No common element of `a` and `b` separates `p` in `a` from `q` in `b`. -/
def SameGap (a b : List α) (p q : α) : Prop := ∀ c ∈ a, c ∈ b → (Before c p a ↔ Before c q b)

/-- An element `p'` of `a` that follows a greater `p`, with an element of `b` between them in the order of
the ids and all three in one gap, was inserted when `p` was there. -/
def HalfSafe (known : α → α → Prop) (a b : List α) : Prop :=
  ∀ p ∈ a, ∀ p' ∈ a, ∀ q ∈ b, p ∉ b → p' ∉ b → q ∉ a → Before p p' a → SameGap a b p q →
    SameGap a b p' q → p' < q → q < p → known p p'

instance [DecidableEq α] (a b : List α) (p q : α) : Decidable (SameGap a b p q) :=
  inferInstanceAs (Decidable (∀ c ∈ a, c ∈ b → (Before c p a ↔ Before c q b)))

instance (known : α → α → Prop) [DecidableRel known] (a b : List α) :
    Decidable (HalfSafe known a b) :=
  inferInstanceAs (Decidable (∀ p ∈ a, ∀ p' ∈ a, ∀ q ∈ b, _))

/-- No element of one sequence falls between two of the other that did not know each other. -/
def Safe (known : α → α → Prop) (a b : List α) : Prop := HalfSafe known a b ∧ HalfSafe known b a

instance (known : α → α → Prop) [DecidableRel known] (a b : List α) : Decidable (Safe known a b) :=
  inferInstanceAs (Decidable (_ ∧ _))

theorem Safe.mono {known' : α → α → Prop} {a b : List α} (h : Safe known a b)
    (himp : ∀ z x, known z x → known' z x) : Safe known' a b :=
  ⟨fun p hp p' hp' q hq h1 h2 h3 h4 h5 h6 h7 h8 =>
      himp _ _ (h.1 p hp p' hp' q hq h1 h2 h3 h4 h5 h6 h7 h8),
    fun p hp p' hp' q hq h1 h2 h3 h4 h5 h6 h7 h8 =>
      himp _ _ (h.2 p hp p' hp' q hq h1 h2 h3 h4 h5 h6 h7 h8)⟩

theorem Convergent.mono {F' : Set (List α)} (h : Convergent known F) (hsub : F' ⊆ F) :
    Convergent known F' where
  nodup l hl := h.nodup l (hsub hl)
  closed l hl := h.closed l (hsub hl)
  rank := by
    obtain ⟨r, hr⟩ := h.rank
    exact ⟨r, fun l hl => hr l (hsub hl)⟩
  fixed l hl m hm := h.fixed l (hsub hl) m (hsub hm)
  separated l hl := h.separated l (hsub hl)

theorem Convergent.of_nil (h : ∀ l ∈ F, l = []) : Convergent known F where
  nodup l hl := h l hl ▸ List.nodup_nil
  closed l hl x hx := by
    rw [h l hl] at hx
    cases hx
  rank := ⟨fun _ => 0, fun l hl x hx => by
    rw [h l hl] at hx
    cases hx⟩
  fixed l hl m _ x hx := by
    rw [h l hl] at hx
    cases hx
  separated l hl x y hxy := by
    rw [h l hl] at hxy
    cases hxy

/-- Only what the elements of the family knew matters. -/
theorem Convergent.congr {known' : α → α → Prop} (h : Convergent known F)
    (he : ∀ l ∈ F, ∀ x ∈ l, ∀ z, known' z x ↔ known z x) : Convergent known' F where
  nodup := h.nodup
  closed l hl x hx z hz := h.closed l hl x hx z ((he l hl x hx z).mp hz)
  rank := by
    obtain ⟨r, hr⟩ := h.rank
    exact ⟨r, fun l hl x hx z hz => hr l hl x hx z ((he l hl x hx z).mp hz)⟩
  fixed l hl m hm x hx hxm z hz := h.fixed l hl m hm x hx hxm z ((he l hl x hx z).mp hz)
  separated l hl x y hxy hlt hk hk' := by
    have hx := he l hl x hxy.left_mem
    have hy := he l hl y hxy.right_mem
    obtain ⟨z, h1, h2, h3⟩ := h.separated l hl x y hxy hlt (fun hk0 => hk ((hy x).mpr hk0))
      (fun hk0 => hk' ((hx y).mpr hk0))
    exact ⟨z, h1, h2, h3.imp (hx z).mpr (hy z).mpr⟩

/-- Inserting a new element that knows the whole sequence. -/
theorem Convergent.insert_new (h : Convergent known F) {l l' : List α} (hl : l ∈ F) {n : α}
    (hfresh : ∀ m ∈ F, n ∉ m) (hn : l'.Nodup) (hsub : l.Sublist l')
    (hmem : ∀ x, x ∈ l' ↔ x = n ∨ x ∈ l) (hk : ∀ z, known z n ↔ z ∈ l) :
    Convergent known (insert l' F) := by
  have hne : ∀ x ∈ l, x ≠ n := fun x hx e => hfresh l hl (e ▸ hx)
  have hbef : ∀ x ∈ l, ∀ y ∈ l, Before x y l' → Before x y l := fun x hx y hy hb =>
    (before_iff_of_sublist hn hsub hx hy).mpr hb
  have hsame : ∀ m ∈ F, ∀ x ∈ m, x ∈ l' → x ∈ l := fun m hm x hx hx' =>
    ((hmem x).mp hx').resolve_left fun e => hfresh m hm (e ▸ hx)
  constructor
  · rintro m (rfl | hm)
    · exact hn
    · exact h.nodup m hm
  · rintro m (rfl | hm) x hx z hz
    · rcases (hmem x).mp hx with rfl | hx
      · exact hsub.subset ((hk z).mp hz)
      · exact hsub.subset (h.closed l hl x hx z hz)
    · exact h.closed m hm x hx z hz
  · obtain ⟨r, hr⟩ := h.rank
    -- the new element gets a rank above all elements of the sequence
    refine ⟨Function.update r n ((l.map r).sum + 1), ?_⟩
    have hold : ∀ m ∈ F, ∀ x ∈ m, ∀ z, known z x →
        Function.update r n ((l.map r).sum + 1) z < Function.update r n ((l.map r).sum + 1) x := by
      intro m hm x hx z hz
      have hxn : x ≠ n := fun e => hfresh m hm (e ▸ hx)
      have hzn : z ≠ n := fun e => hfresh m hm (e ▸ h.closed m hm x hx z hz)
      rw [Function.update_of_ne hxn, Function.update_of_ne hzn]
      exact hr m hm x hx z hz
    rintro m (rfl | hm) x hx z hz
    · rcases (hmem x).mp hx with rfl | hx
      · have hzl := (hk z).mp hz
        rw [Function.update_self, Function.update_of_ne (hne z hzl)]
        exact Nat.lt_succ_of_le (List.le_sum_of_mem (List.mem_map_of_mem hzl))
      · exact hold l hl x hx z hz
    · exact hold m hm x hx z hz
  · rintro m (rfl | hm) k (rfl | hk0) x hx hxk z hz hb
    · exact hb
    · have hxl := hsame k hk0 x hxk hx
      exact h.fixed l hl k hk0 x hxl hxk z hz (hbef z (h.closed l hl x hxl z hz) x hxl hb)
    · have hxl := hsame m hm x hx hxk
      exact (h.fixed m hm l hl x hx hxl z hz hb).sublist hsub
    · exact h.fixed m hm k hk0 x hx hxk z hz hb
  · rintro m (rfl | hm) x y hxy hlt hxk hyk
    · have hx := (hmem x).mp hxy.left_mem
      have hy := (hmem y).mp hxy.right_mem
      rcases hx with rfl | hx <;> rcases hy with rfl | hy
      · exact absurd rfl (hxy.ne hn)
      · exact absurd ((hk y).mpr hy) hyk
      · exact absurd ((hk x).mpr hx) hxk
      · obtain ⟨z, h1, h2, h3⟩ := h.separated l hl x y (hbef x hx y hy hxy) hlt hxk hyk
        exact ⟨z, h1.sublist hsub, h2.sublist hsub, h3⟩
    · exact h.separated m hm x y hxy hlt hxk hyk

section merge
variable {a b : List α} {x y : α}

/-- A common element between two foreign ones: one of least rank is what one of them knew, or leads
to such an element. -/
theorem Convergent.separated_common (h : Convergent known F) (ha : a ∈ F) (hb : b ∈ F)
    (hxb : x ∉ b) (hya : y ∉ a) (hlt : y < x) {c : α} (hca : c ∈ a)
    (hcb : c ∈ b) (hxc : Before x c (weave a b)) (hcy : Before c y (weave a b)) :
    ∃ z, Before x z (weave a b) ∧ Before z y (weave a b) ∧ (known z x ∨ known z y) := by
  have hn := nodup_weave (h.nodup a ha) (h.nodup b hb) (h.consistent ha hb)
  have hsa := sublist_weave_left a b
  have hsb := sublist_weave_right a b
  have hxa : x ∈ a := ((mem_weave a b).mp hxc.left_mem).resolve_right hxb
  have hyb : y ∈ b := ((mem_weave a b).mp hcy.right_mem).resolve_left hya
  obtain ⟨r, hr⟩ := h.rank
  induction hrc : r c using Nat.strong_induction_on generalizing c with
  | h n ih =>
      by_cases hcx : known c x
      · exact ⟨c, hxc, hcy, Or.inl hcx⟩
      by_cases hcy' : known c y
      · exact ⟨c, hxc, hcy, Or.inr hcy'⟩
      have hxc' : ¬ known x c := fun hk => hxb (h.closed b hb c hcb x hk)
      have hyc' : ¬ known y c := fun hk => hya (h.closed a ha c hca y hk)
      rcases lt_trichotomy c x with hcx0 | rfl | hcx0
      · obtain ⟨z, hxz, hzc, hz | hz⟩ := h.separated a ha x c
          ((before_iff_of_sublist hn hsa hxa hca).mpr hxc) hcx0 hxc' hcx
        · exact ⟨z, hxz.sublist hsa, (hzc.sublist hsa).trans hn hcy, Or.inl hz⟩
        · exact ih (r z) (hrc ▸ hr a ha c hca z hz) hzc.left_mem (h.closed b hb c hcb z hz)
            (hxz.sublist hsa) ((hzc.sublist hsa).trans hn hcy) rfl
      · exact absurd hcb hxb
      · obtain ⟨z, hcz, hzy, hz | hz⟩ := h.separated b hb c y
          ((before_iff_of_sublist hn hsb hcb hyb).mpr hcy) (hlt.trans hcx0) hcy' hyc'
        · exact ih (r z) (hrc ▸ hr b hb c hcb z hz) (h.closed a ha c hca z hz) hcz.right_mem
            (hxc.trans hn (hcz.sublist hsb)) (hzy.sublist hsb) rfl
        · exact ⟨z, hxc.trans hn (hcz.sublist hsb), hzy.sublist hsb, Or.inr hz⟩

/-- Two foreign elements out of order have what one of them knew between them. -/
theorem Convergent.separated_foreign (h : Convergent known F) (ha : a ∈ F) (hb : b ∈ F)
    (hsafe : HalfSafe known b a) (hxa : x ∈ a) (hxb : x ∉ b) (hyb : y ∈ b) (hya : y ∉ a)
    (hxy : Before x y (weave a b)) (hlt : y < x) :
    ∃ z, Before x z (weave a b) ∧ Before z y (weave a b) ∧ (known z x ∨ known z y) := by
  have hc := h.consistent ha hb
  have hn := nodup_weave (h.nodup a ha) (h.nodup b hb) hc
  have hsa := sublist_weave_left a b
  have hsb := sublist_weave_right a b
  by_cases hcommon : ∃ c ∈ a, c ∈ b ∧ Before x c (weave a b) ∧ Before c y (weave a b)
  · obtain ⟨c, hca, hcb, hxc, hcy⟩ := hcommon
    exact h.separated_common ha hb hxb hya hlt hca hcb hxc hcy
  · rcases weave_inversion (h.nodup a ha) (h.nodup b hb) hc hxb hya hyb hxy hlt with
      hcommon' | ⟨p, hpb, hpa, hxp, hxp', hpy⟩
    · exact absurd hcommon' hcommon
    · have hpy' := hpy.sublist hsb
      -- a common element before one of the three is before all of them
      have hgap : ∀ q ∈ b, Before x q (weave a b) → (q = y ∨ Before q y b) → SameGap b a q x := by
        intro q hq hxq hqy c hcb hca
        have hne : c ≠ x := fun e => hxb (e ▸ hcb)
        constructor
        · intro hcq
          rcases before_or_before hca hxa hne with h' | h'
          · exact h'
          · refine absurd ⟨c, hca, hcb, h'.sublist hsa, ?_⟩ hcommon
            rcases hqy with rfl | hqy
            · exact hcq.sublist hsb
            · exact (hcq.trans (h.nodup b hb) hqy).sublist hsb
        · intro hcx
          exact (before_iff_of_sublist hn hsb hcb hq).mpr ((hcx.sublist hsa).trans hn hxq)
      exact ⟨p, hxp', hpy', Or.inr (hsafe p hpb y hyb x hxa hpa hya hxb hpy
        (hgap p hpb hxp' (Or.inr hpy)) (hgap y hyb hxy (Or.inl rfl)) hlt hxp)⟩

theorem Convergent.insert_weave (h : Convergent known F) (ha : a ∈ F) (hb : b ∈ F) (hsafe : Safe known a b) :
    Convergent known (insert (weave a b) F) := by
  have hn := nodup_weave (h.nodup a ha) (h.nodup b hb) (h.consistent ha hb)
  have hsa := sublist_weave_left a b
  have hsb := sublist_weave_right a b
  have hfix : ∀ m ∈ F, ∀ x ∈ weave a b, x ∈ m → ∀ z, known z x →
      (Before z x (weave a b) ↔ Before z x m) := by
    intro m hm x hx hxm z hz
    have hpart : ∀ {k : List α}, k ∈ F → k.Sublist (weave a b) → x ∈ k →
        (Before z x (weave a b) ↔ Before z x m) := by
      intro k hk hks hxk
      rw [← before_iff_of_sublist hn hks (h.closed k hk x hxk z hz) hxk]
      exact ⟨h.fixed k hk m hm x hxk hxm z hz, h.fixed m hm k hk x hxm hxk z hz⟩
    rcases (mem_weave a b).mp hx with hxa | hxb
    · exact hpart ha hsa hxa
    · exact hpart hb hsb hxb
  constructor
  · rintro m (rfl | hm)
    · exact hn
    · exact h.nodup m hm
  · rintro m (rfl | hm) x hx z hz
    · rcases (mem_weave a b).mp hx with hx | hx
      · exact hsa.subset (h.closed a ha x hx z hz)
      · exact hsb.subset (h.closed b hb x hx z hz)
    · exact h.closed m hm x hx z hz
  · obtain ⟨r, hr⟩ := h.rank
    refine ⟨r, ?_⟩
    rintro m (rfl | hm) x hx z hz
    · rcases (mem_weave a b).mp hx with hx | hx
      · exact hr a ha x hx z hz
      · exact hr b hb x hx z hz
    · exact hr m hm x hx z hz
  · rintro m (rfl | hm) k (rfl | hk) x hx hxk z hz hbef
    · exact hbef
    · exact (hfix k hk x hx hxk z hz).mp hbef
    · exact (hfix m hm x hxk hx z hz).mpr hbef
    · exact h.fixed m hm k hk x hx hxk z hz hbef
  · rintro m (rfl | hm) x y hxy hlt hxk hyk
    · by_cases hxa : x ∈ a <;> by_cases hya : y ∈ a
      · obtain ⟨z, h1, h2, h3⟩ := h.separated a ha x y
          ((before_iff_of_sublist hn hsa hxa hya).mpr hxy) hlt hxk hyk
        exact ⟨z, h1.sublist hsa, h2.sublist hsa, h3⟩
      · have hyb := ((mem_weave a b).mp hxy.right_mem).resolve_left hya
        by_cases hxb : x ∈ b
        · obtain ⟨z, h1, h2, h3⟩ := h.separated b hb x y
            ((before_iff_of_sublist hn hsb hxb hyb).mpr hxy) hlt hxk hyk
          exact ⟨z, h1.sublist hsb, h2.sublist hsb, h3⟩
        · exact h.separated_foreign ha hb hsafe.2 hxa hxb hyb hya hxy hlt
      · have hxb := ((mem_weave a b).mp hxy.left_mem).resolve_left hxa
        by_cases hyb : y ∈ b
        · obtain ⟨z, h1, h2, h3⟩ := h.separated b hb x y
            ((before_iff_of_sublist hn hsb hxb hyb).mpr hxy) hlt hxk hyk
          exact ⟨z, h1.sublist hsb, h2.sublist hsb, h3⟩
        · have := h.separated_foreign hb ha hsafe.1 hxb hxa hya hyb (weave_comm a b ▸ hxy) hlt
          rwa [weave_comm b a] at this
      · have hxb := ((mem_weave a b).mp hxy.left_mem).resolve_left hxa
        have hyb := ((mem_weave a b).mp hxy.right_mem).resolve_left hya
        obtain ⟨z, h1, h2, h3⟩ := h.separated b hb x y
          ((before_iff_of_sublist hn hsb hxb hyb).mpr hxy) hlt hxk hyk
        exact ⟨z, h1.sublist hsb, h2.sublist hsb, h3⟩
    · exact h.separated m hm x y hxy hlt hxk hyk

end merge
end family
end BrowserMesh.Sequence
