import Mathlib.Data.Nat.Digits.Defs
import Mathlib.Data.Nat.Digits.Lemmas
import Mathlib.Data.List.Basic

/-! # Trees built from below, layer by layer

* `LeafTree`: values at the leaves; `fold` evaluates a tree from below.
* `slices n`: a list cut into slices of `n`, the last one possibly shorter.
* `grow n`: the slices of a layer become nodes of the next one, until one tree is left.  A slice of one tree is no
  node: the tree moves up as it is.
* `grow_spec`: the tree has the leaves of the layer in their order, and nodes of two to `n` children.
* `uniform_grow_iff`: its leaves are at one depth exactly when no digit of the number of trees less one, written in
  base `n`, is zero. -/

namespace BrowserMesh.Layers

variable {α β : Type}

inductive LeafTree (α : Type) where
  | leaf (a : α)
  | node (children : List (LeafTree α))

namespace LeafTree

mutual

def fold (leaf : α → β) (node : List β → β) : LeafTree α → β
  | .leaf a => leaf a
  | .node children => node (foldAll leaf node children)

def foldAll (leaf : α → β) (node : List β → β) : List (LeafTree α) → List β
  | [] => []
  | t :: ts => fold leaf node t :: foldAll leaf node ts

end

mutual

/-- The tree and all trees in it. -/
def subtrees : LeafTree α → List (LeafTree α)
  | .leaf a => [.leaf a]
  | .node children => .node children :: subtreesAll children

def subtreesAll : List (LeafTree α) → List (LeafTree α)
  | [] => []
  | t :: ts => subtrees t ++ subtreesAll ts

end

/-- The values at the leaves, from left to right. -/
def leaves (t : LeafTree α) : List α := t.fold (fun a => [a]) List.flatten

/-- The depths of the leaves, from left to right. -/
def depths (t : LeafTree α) : List ℕ := t.fold (fun _ => [0]) fun ds => ds.flatten.map (· + 1)

/-- All leaves are at the depth `d`. -/
def Uniform (d : ℕ) (t : LeafTree α) : Prop := ∀ x ∈ t.depths, x = d

/-! ### Rules -/

theorem foldAll_eq_map (leaf : α → β) (node : List β → β) (ts : List (LeafTree α)) :
    foldAll leaf node ts = ts.map (fold leaf node) := by
  induction ts with
  | nil => rfl
  | cons t ts ih => rw [foldAll, ih, List.map_cons]

@[simp] theorem fold_leaf (leaf : α → β) (node : List β → β) (a : α) : fold leaf node (.leaf a) = leaf a := rfl

@[simp] theorem fold_node (leaf : α → β) (node : List β → β) (ts : List (LeafTree α)) :
    fold leaf node (.node ts) = node (ts.map (fold leaf node)) := by
  rw [fold, foldAll_eq_map]

theorem subtreesAll_eq (ts : List (LeafTree α)) : subtreesAll ts = ts.flatMap subtrees := by
  induction ts with
  | nil => rfl
  | cons t ts ih => rw [subtreesAll, ih, List.flatMap_cons]

theorem subtrees_node (ts : List (LeafTree α)) : (node ts).subtrees = node ts :: ts.flatMap subtrees := by
  rw [subtrees, subtreesAll_eq]

theorem self_mem_subtrees (t : LeafTree α) : t ∈ t.subtrees := by
  cases t with
  | leaf a => exact List.mem_cons_self
  | node ts => rw [subtrees]; exact List.mem_cons_self

/-- Induction on trees. -/
theorem induct {P : LeafTree α → Prop} (leaf : ∀ a, P (.leaf a)) (node : ∀ ts, (∀ t ∈ ts, P t) → P (.node ts))
    (t : LeafTree α) : P t :=
  @LeafTree.rec α P (fun ts => ∀ t ∈ ts, P t) leaf node (fun _ h => absurd h List.not_mem_nil)
    (fun _ _ ht hts _ h => (List.mem_cons.mp h).elim (fun e => e ▸ ht) (hts _)) t

theorem leaves_node (ts : List (LeafTree α)) : (node ts).leaves = ts.flatMap leaves := by
  rw [leaves, fold_node]
  rfl

theorem mem_depths_node {ts : List (LeafTree α)} {x : ℕ} :
    x ∈ (node ts).depths ↔ ∃ t ∈ ts, ∃ y ∈ t.depths, y + 1 = x := by
  rw [depths, fold_node, List.mem_map]
  constructor
  · rintro ⟨y, hy, rfl⟩
    obtain ⟨ds, hds, hy⟩ := List.mem_flatten.mp hy
    obtain ⟨t, ht, rfl⟩ := List.mem_map.mp hds
    exact ⟨t, ht, y, hy, rfl⟩
  · rintro ⟨t, ht, y, hy, rfl⟩
    exact ⟨y, List.mem_flatten.mpr ⟨_, List.mem_map_of_mem ht, hy⟩, rfl⟩

theorem uniform_leaf (a : α) : Uniform 0 (leaf a) := fun _ hx => List.mem_singleton.mp hx

theorem uniform_node {ts : List (LeafTree α)} {d : ℕ} (h : ∀ t ∈ ts, Uniform d t) : Uniform (d + 1) (node ts) := by
  intro x hx
  obtain ⟨t, ht, y, hy, rfl⟩ := mem_depths_node.mp hx
  rw [h t ht y hy]

end LeafTree

/-! ### Slices -/

/-- Cut a list into slices of `n`; `none` when `fuel` slices are not enough. -/
def slices (n : ℕ) : ℕ → List α → Option (List (List α))
  | _, [] => some []
  | 0, _ :: _ => none
  | fuel + 1, x :: l => (slices n fuel ((x :: l).drop n)).map ((x :: l).take n :: ·)

theorem slices_cons {n fuel : ℕ} {l : List α} (hl : l ≠ []) :
    slices n (fuel + 1) l = (slices n fuel (l.drop n)).map (l.take n :: ·) := by
  cases l with
  | nil => exact absurd rfl hl
  | cons x l => rfl

/-- As many slices as there are elements are enough. -/
theorem exists_slices {n fuel : ℕ} (hn : 1 ≤ n) {l : List α} (h : l.length ≤ fuel) :
    ∃ gs, slices n fuel l = some gs := by
  induction fuel generalizing l with
  | zero =>
      rw [List.length_eq_zero_iff.mp (Nat.le_zero.mp h)]
      exact ⟨[], rfl⟩
  | succ fuel ih =>
      by_cases hl : l = []
      · rw [hl]
        exact ⟨[], rfl⟩
      · have hpos := List.length_pos_of_ne_nil hl
        obtain ⟨gs, hgs⟩ := ih (l := l.drop n) (by rw [List.length_drop]; omega)
        exact ⟨l.take n :: gs, by rw [slices_cons hl, hgs, Option.map_some]⟩

/-- Induction on the slices of a list. -/
theorem slices_induct {n : ℕ} {P : List α → List (List α) → Prop} (nil : P [] [])
    (cons : ∀ l gs, l ≠ [] → P (l.drop n) gs → P l (l.take n :: gs)) {fuel : ℕ} {l : List α} {gs : List (List α)}
    (h : slices n fuel l = some gs) : P l gs := by
  induction fuel generalizing l gs with
  | zero =>
      cases l with
      | nil =>
          obtain rfl := Option.some.inj h
          exact nil
      | cons x l => cases h
  | succ fuel ih =>
      by_cases hl : l = []
      · subst hl
        obtain rfl := Option.some.inj h
        exact nil
      · rw [slices_cons hl] at h
        obtain ⟨gs, hgs, rfl⟩ := Option.map_eq_some_iff.mp h
        exact cons l gs hl (ih hgs)

section slices
variable {n fuel : ℕ} {l : List α} {gs : List (List α)}

theorem slices_map (f : α → β) (h : slices n fuel l = some gs) :
    slices n fuel (l.map f) = some (gs.map (List.map f)) := by
  induction fuel generalizing l gs with
  | zero =>
      cases l with
      | nil =>
          obtain rfl := Option.some.inj h
          rfl
      | cons x l => cases h
  | succ fuel ih =>
      by_cases hl : l = []
      · subst hl
        obtain rfl := Option.some.inj h
        rfl
      · rw [slices_cons hl] at h
        obtain ⟨rest, hrest, rfl⟩ := Option.map_eq_some_iff.mp h
        rw [slices_cons (mt List.map_eq_nil_iff.mp hl), ← List.map_drop, ih hrest, ← List.map_take]
        rfl

theorem flatten_slices (h : slices n fuel l = some gs) : gs.flatten = l := by
  refine slices_induct (P := fun l gs => gs.flatten = l) rfl (fun l gs _ ih => ?_) h
  rw [List.flatten_cons, ih, List.take_append_drop]

theorem mem_slices (hn : 1 ≤ n) (h : slices n fuel l = some gs) : ∀ g ∈ gs, g ≠ [] ∧ g.length ≤ n := by
  refine slices_induct (P := fun _ gs => ∀ g ∈ gs, g ≠ [] ∧ g.length ≤ n) (fun g hg => absurd hg List.not_mem_nil)
    (fun l gs hl ih g hg => ?_) h
  rcases List.mem_cons.mp hg with rfl | hg
  · have hpos := List.length_pos_of_ne_nil hl
    refine ⟨List.ne_nil_of_length_pos ?_, List.length_take_le n l⟩
    rw [List.length_take]
    omega
  · exact ih g hg

theorem slices_nil (h : slices n fuel ([] : List α) = some gs) : gs = [] := by
  cases fuel <;> exact (Option.some.inj h).symm

/-- The slices of a list are the list itself, or a full slice and the slices of the rest. -/
theorem slices_cases (h : slices n fuel l = some gs) (hl : l ≠ []) :
    (l.length ≤ n ∧ gs = [l]) ∨
      (n < l.length ∧ ∃ fuel' rest, slices n fuel' (l.drop n) = some rest ∧ gs = l.take n :: rest) := by
  cases fuel with
  | zero =>
      cases l with
      | nil => exact absurd rfl hl
      | cons x l => cases h
  | succ fuel =>
      rw [slices_cons hl] at h
      obtain ⟨rest, hrest, rfl⟩ := Option.map_eq_some_iff.mp h
      rcases Nat.lt_or_ge n l.length with hlong | hshort
      · exact Or.inr ⟨hlong, fuel, rest, hrest, rfl⟩
      · rw [List.drop_eq_nil_of_le hshort] at hrest
        rw [slices_nil hrest, List.take_of_length_le hshort]
        exact Or.inl ⟨hshort, rfl⟩

/-- Induction on the slices of a list that is not empty. -/
theorem slices_rec (hn : 1 ≤ n) {P : List α → List (List α) → Prop} (one : ∀ l, l ≠ [] → l.length ≤ n → P l [l])
    (more : ∀ l rest, n < l.length → P (l.drop n) rest → P l (l.take n :: rest)) (h : slices n fuel l = some gs)
    (hl : l ≠ []) : P l gs := by
  induction hlen : l.length using Nat.strongRecOn generalizing fuel l gs with
  | ind m ih =>
      rcases slices_cases h hl with ⟨hshort, rfl⟩ | ⟨hlong, fuel', rest, hrest, rfl⟩
      · exact one l hl hshort
      · refine more l rest hlong (ih (l.drop n).length ?_ hrest ?_ rfl)
        · rw [List.length_drop]
          omega
        · refine List.ne_nil_of_length_pos ?_
          rw [List.length_drop]
          omega

theorem length_slices (hn : 1 ≤ n) (h : slices n fuel l = some gs) (hl : l ≠ []) :
    gs.length = (l.length - 1) / n + 1 := by
  refine slices_rec (P := fun l gs => gs.length = (l.length - 1) / n + 1) hn (fun l hl hshort => ?_)
    (fun l rest hlong ih => ?_) h hl
  · have hpos := List.length_pos_of_ne_nil hl
    rw [List.length_singleton, Nat.div_eq_of_lt (by omega)]
  · rw [List.length_cons, ih, List.length_drop, show l.length - 1 = l.length - n - 1 + n by omega,
      Nat.add_div_right _ hn]

/-- **Lone elements.**  The last slice consists of one element exactly when `n` divides the number of the others. -/
theorem lone_slices (hn : 2 ≤ n) (h : slices n fuel l = some gs) (hl : l ≠ []) :
    ((l.length - 1) % n ≠ 0 → ∀ g ∈ gs, 2 ≤ g.length) ∧
      ((l.length - 1) % n = 0 → ∃ front x, gs = front ++ [[x]] ∧ ∀ g ∈ front, 2 ≤ g.length) := by
  refine slices_rec (P := fun l gs => ((l.length - 1) % n ≠ 0 → ∀ g ∈ gs, 2 ≤ g.length) ∧
    ((l.length - 1) % n = 0 → ∃ front x, gs = front ++ [[x]] ∧ ∀ g ∈ front, 2 ≤ g.length)) (by omega)
    (fun l hl hshort => ?_) (fun l rest hlong ih => ?_) h hl
  · have hpos := List.length_pos_of_ne_nil hl
    rw [Nat.mod_eq_of_lt (by omega)]
    refine ⟨fun hne g hg => ?_, fun hzero => ?_⟩
    · rw [List.mem_singleton.mp hg]
      omega
    · obtain ⟨x, rfl⟩ := List.length_eq_one_iff.mp (show l.length = 1 by omega)
      exact ⟨[], x, rfl, fun g hg => absurd hg List.not_mem_nil⟩
  · have hmod : (l.length - 1) % n = ((l.drop n).length - 1) % n := by
      rw [List.length_drop, show l.length - 1 = l.length - n - 1 + n by omega, Nat.add_mod_right]
    have htake : 2 ≤ (l.take n).length := by
      rw [List.length_take]
      omega
    rw [hmod]
    refine ⟨fun hne g hg => ?_, fun hzero => ?_⟩
    · rcases List.mem_cons.mp hg with rfl | hg
      · exact htake
      · exact ih.1 hne g hg
    · obtain ⟨front, x, rfl, hfront⟩ := ih.2 hzero
      refine ⟨l.take n :: front, x, rfl, fun g hg => ?_⟩
      rcases List.mem_cons.mp hg with rfl | hg
      · exact htake
      · exact hfront g hg

end slices

/-! ### Layers -/

namespace LeafTree

/-- A slice of one tree is that tree. -/
def join : List (LeafTree α) → LeafTree α
  | [t] => t
  | ts => node ts

theorem join_of_two {ts : List (LeafTree α)} (h : 2 ≤ ts.length) : join ts = node ts := by
  rcases ts with _ | ⟨t, _ | ⟨t', ts⟩⟩
  · cases h
  · exact absurd h (by simp)
  · rfl

/-- Join the slices of a layer until one tree is left; `none` when `fuel` layers are not enough. -/
def grow (n : ℕ) : ℕ → List (LeafTree α) → Option (LeafTree α)
  | 0, ts => if 1 < ts.length then none else ts.head?
  | fuel + 1, ts =>
      if 1 < ts.length then (slices n ts.length ts).bind fun gs => grow n fuel (gs.map join) else ts.head?

/-- Induction on the layers of a tree. -/
theorem grow_induct {n : ℕ} {P : List (LeafTree α) → LeafTree α → Prop} (one : ∀ t, P [t] t)
    (layer : ∀ ts gs t fuel, 2 ≤ ts.length → slices n ts.length ts = some gs → grow n fuel (gs.map join) = some t →
      P (gs.map join) t → P ts t) {fuel : ℕ} {ts : List (LeafTree α)} {t : LeafTree α} (h : grow n fuel ts = some t) :
    P ts t := by
  have hone : ∀ ts : List (LeafTree α), ¬ 1 < ts.length → ts.head? = some t → P ts t := by
    intro ts hlen hhead
    rcases ts with _ | ⟨t', _ | ⟨t'', ts⟩⟩
    · cases hhead
    · obtain rfl := Option.some.inj hhead
      exact one t'
    · exact absurd hlen (by simp)
  induction fuel generalizing ts with
  | zero =>
      rw [grow] at h
      split_ifs at h with hlen
      exact hone ts hlen h
  | succ fuel ih =>
      rw [grow] at h
      split_ifs at h with hlen
      · obtain ⟨gs, hgs, hgrow⟩ := Option.bind_eq_some_iff.mp h
        exact layer ts gs t fuel hlen hgs hgrow (ih hgrow)
      · exact hone ts hlen h

theorem length_layer {n : ℕ} (hn : 2 ≤ n) {ts : List (LeafTree α)} (h : 2 ≤ ts.length) {gs : List (List (LeafTree α))}
    (hgs : slices n ts.length ts = some gs) : 1 ≤ (gs.map join).length ∧ (gs.map join).length < ts.length := by
  rw [List.length_map, length_slices (by omega) hgs (List.ne_nil_of_length_pos (by omega))]
  refine ⟨Nat.le_add_left 1 _, ?_⟩
  have hdiv : (ts.length - 1) / n ≤ (ts.length - 1) / 2 := Nat.div_le_div_left hn (by decide)
  omega

theorem exists_grow {n fuel : ℕ} (hn : 2 ≤ n) {ts : List (LeafTree α)} (hpos : 1 ≤ ts.length)
    (h : ts.length ≤ fuel + 1) : ∃ t, grow n fuel ts = some t := by
  induction fuel generalizing ts with
  | zero =>
      obtain ⟨t, rfl⟩ := List.length_eq_one_iff.mp (show ts.length = 1 by omega)
      exact ⟨t, rfl⟩
  | succ fuel ih =>
      rw [grow]
      split_ifs with hlen
      · obtain ⟨gs, hgs⟩ := exists_slices (n := n) (by omega) (le_refl ts.length)
        obtain ⟨hlo, hhi⟩ := length_layer hn hlen hgs
        rw [hgs]
        exact ih hlo (by omega)
      · obtain ⟨t, rfl⟩ := List.length_eq_one_iff.mp (show ts.length = 1 by omega)
        exact ⟨t, rfl⟩

/-! ### What the layers keep -/

/-- A node has between two and `n` children. -/
def Arity (n : ℕ) (t : LeafTree α) : Prop :=
  ∀ children, node children ∈ t.subtrees → 2 ≤ children.length ∧ children.length ≤ n

theorem leaves_join {ts : List (LeafTree α)} (h : ts ≠ []) : (join ts).leaves = ts.flatMap leaves := by
  rcases ts with _ | ⟨t, _ | ⟨t', ts⟩⟩
  · exact absurd rfl h
  · simp [join]
  · rw [join, leaves_node]
    exact fun t e => by cases e

theorem subtrees_subset_join {ts : List (LeafTree α)} {s : LeafTree α} (hs : s ∈ ts) :
    s.subtrees ⊆ (join ts).subtrees := by
  rcases ts with _ | ⟨t, _ | ⟨t', ts⟩⟩
  · cases hs
  · rw [List.mem_singleton.mp hs]
    exact List.Subset.refl _
  · rw [join_of_two (by simp), subtrees_node]
    exact fun x hx => List.mem_cons_of_mem _ (List.mem_flatMap.mpr ⟨s, hs, hx⟩)

theorem arity_join {n : ℕ} {ts : List (LeafTree α)} (hlen : ts.length ≤ n) (h : ∀ t ∈ ts, Arity n t) (hne : ts ≠ []) :
    Arity n (join ts) := by
  rcases ts with _ | ⟨t, _ | ⟨t', ts⟩⟩
  · exact absurd rfl hne
  · exact h t List.mem_cons_self
  · intro children hc
    rw [join_of_two (by simp), subtrees_node] at hc
    rcases List.mem_cons.mp hc with hc | hc
    · obtain rfl := LeafTree.node.inj hc
      exact ⟨by simp, hlen⟩
    · obtain ⟨t₁, ht₁, hc⟩ := List.mem_flatMap.mp hc
      exact h t₁ ht₁ children hc

section grow
variable {n fuel : ℕ} {ts : List (LeafTree α)} {t : LeafTree α}

/-- **What grows from a layer**: a tree with its leaves in their order, and with nodes of two to `n` children. -/
theorem grow_spec (hn : 2 ≤ n) (h : grow n fuel ts = some t) :
    t.leaves = ts.flatMap leaves ∧ (∀ s ∈ ts, s.subtrees ⊆ t.subtrees) ∧ ((∀ s ∈ ts, Arity n s) → Arity n t) := by
  refine grow_induct (P := fun ts t => t.leaves = ts.flatMap leaves ∧ (∀ s ∈ ts, s.subtrees ⊆ t.subtrees) ∧
    ((∀ s ∈ ts, Arity n s) → Arity n t)) (fun t => ?_) (fun ts gs t _ hlen hgs _ ih => ?_) h
  · refine ⟨by simp, fun s hs => ?_, fun ha => ha t (List.mem_singleton_self t)⟩
    rw [List.mem_singleton.mp hs]
    exact List.Subset.refl _
  · obtain ⟨hleaves, hsub, harity⟩ := ih
    have hmem := mem_slices (by omega) hgs
    refine ⟨?_, fun s hs => ?_, fun ha => harity fun s hs => ?_⟩
    · have hjoin : ∀ g ∈ gs, (join g).leaves = g.flatMap leaves := fun g hg => leaves_join (hmem g hg).1
      calc t.leaves = gs.flatMap fun g => (join g).leaves := by rw [hleaves, List.flatMap_map]
        _ = gs.flatMap fun g => g.flatMap leaves := List.flatMap_congr hjoin
        _ = (gs.flatMap id).flatMap leaves := List.flatMap_assoc.symm
        _ = ts.flatMap leaves := by rw [List.flatMap_id, flatten_slices hgs]
    · rw [← flatten_slices hgs] at hs
      obtain ⟨g, hg, hs⟩ := List.mem_flatten.mp hs
      exact List.Subset.trans (subtrees_subset_join hs) (hsub _ (List.mem_map_of_mem hg))
    · obtain ⟨g, hg, rfl⟩ := List.mem_map.mp hs
      refine arity_join (hmem g hg).2 (fun t₁ ht₁ => ha t₁ ?_) (hmem g hg).1
      rw [← flatten_slices hgs]
      exact List.mem_flatten.mpr ⟨g, hg, ht₁⟩

/-! ### Depths -/

/-- The first and the last tree have leaves at different depths, the last one less deep. -/
def Skewed (ts : List (LeafTree α)) : Prop :=
  ∃ first mid last, ts = first :: mid ++ [last] ∧ ∃ x ∈ first.depths, ∃ y ∈ last.depths, y < x

theorem slices_first {l : List α} {gs : List (List α)} {x y : α} {mid : List α} (hn : 2 ≤ n)
    (h : slices n fuel l = some gs) (hl : l = x :: mid ++ [y]) :
    ∃ g rest, gs = (x :: g) :: rest ∧ g ≠ [] := by
  have hne : l ≠ [] := by rw [hl]; exact List.cons_ne_nil _ _
  rcases slices_cases h hne with ⟨_, rfl⟩ | ⟨hlong, _, rest, _, rfl⟩
  · exact ⟨mid ++ [y], [], by rw [hl]; rfl, by simp⟩
  · obtain ⟨k, rfl⟩ : ∃ k, n = k + 2 := ⟨n - 2, by omega⟩
    rw [hl, List.cons_append, List.take_succ_cons]
    refine ⟨_, rest, rfl, ?_⟩
    cases mid <;> simp

theorem slices_last {l : List α} {gs : List (List α)} {y : α} {front : List α} (hn : 1 ≤ n)
    (h : slices n fuel l = some gs) (hl : l = front ++ [y]) : ∃ before g, gs = before ++ [g ++ [y]] := by
  refine slices_rec (P := fun l gs => ∀ front, l = front ++ [y] → ∃ before g, gs = before ++ [g ++ [y]]) hn
    (fun l _ _ front hl => ⟨[], front, by rw [hl]; rfl⟩) (fun l rest hlong ih front hl => ?_) h
    (by rw [hl]; exact List.append_ne_nil_of_right_ne_nil _ (List.cons_ne_nil _ _)) front hl
  subst hl
  rw [List.length_append, List.length_singleton] at hlong
  have hdrop : (front ++ [y]).drop n = front.drop n ++ [y] := List.drop_append_of_le_length (by omega)
  obtain ⟨before, g, hrest⟩ := ih _ hdrop
  exact ⟨_ :: before, g, by rw [hrest]; rfl⟩

theorem depths_join_node {ts : List (LeafTree α)} (h : 2 ≤ ts.length) {s : LeafTree α} (hs : s ∈ ts) {x : ℕ}
    (hx : x ∈ s.depths) : x + 1 ∈ (join ts).depths := by
  rw [join_of_two h]
  exact mem_depths_node.mpr ⟨s, hs, x, hx, rfl⟩

/-- Once the last tree is less deep than the first, it stays so. -/
theorem skewed_grow (hn : 2 ≤ n) (h : grow n fuel ts = some t) (hs : Skewed ts) :
    ∃ x ∈ t.depths, ∃ y ∈ t.depths, y < x := by
  refine grow_induct (P := fun ts t => (Skewed ts ∨ ∃ s, ts = [s] ∧ ∃ x ∈ s.depths, ∃ y ∈ s.depths, y < x) →
    ∃ x ∈ t.depths, ∃ y ∈ t.depths, y < x) (fun t hs => ?_) (fun ts gs t _ hlen hgs _ ih hs => ih ?_) h (Or.inl hs)
  · rcases hs with ⟨first, mid, last, heq, _⟩ | ⟨s, heq, hs⟩
    · have hlength := congrArg List.length heq
      simp at hlength
    · obtain rfl := List.singleton_injective heq
      exact hs
  · rcases hs with ⟨first, mid, last, heq, x, hx, y, hy, hlt⟩ | ⟨s, heq, _⟩
    · obtain ⟨g, rest, rfl, hg⟩ := slices_first hn hgs heq
      obtain ⟨before, g', hlast⟩ := slices_last (by omega) hgs heq
      have htop : x + 1 ∈ (join (first :: g)).depths := by
        refine depths_join_node ?_ List.mem_cons_self hx
        have hpos := List.length_pos_of_ne_nil hg
        rw [List.length_cons]
        omega
      -- the last tree moves up alone, or becomes the child of a node
      have hbottom : ∃ z ∈ (join (g' ++ [last])).depths, z < x + 1 := by
        by_cases hg' : g' = []
        · subst hg'
          exact ⟨y, hy, by omega⟩
        · refine ⟨y + 1, depths_join_node ?_ (List.mem_append_right _ (List.mem_singleton_self last)) hy, by omega⟩
          have hpos := List.length_pos_of_ne_nil hg'
          rw [List.length_append, List.length_singleton]
          omega
      obtain ⟨z, hz, hzx⟩ := hbottom
      cases before with
      | nil =>
          obtain ⟨hsame, rfl⟩ := List.cons.inj hlast
          rw [hsame] at htop
          exact Or.inr ⟨join (g' ++ [last]), by rw [hsame]; rfl, x + 1, htop, z, hz, hzx⟩
      | cons b before =>
          have htail : rest = before ++ [g' ++ [last]] := (List.cons.inj hlast).2
          refine Or.inl ⟨join (first :: g), before.map join, join (g' ++ [last]), ?_, x + 1, htop, z, hz, hzx⟩
          rw [htail, List.map_cons, List.map_append]
          rfl
    · rw [heq] at hlen
      cases hlen.not_gt (by simp)

theorem uniform_join {d : ℕ} {g : List (LeafTree α)} (hlen : 2 ≤ g.length) (h : ∀ s ∈ g, Uniform d s) :
    Uniform (d + 1) (join g) := by
  rw [join_of_two hlen]
  exact uniform_node h

theorem exists_depth (t : LeafTree α) (h : Arity n t) : ∃ x, x ∈ t.depths := by
  induction t using induct with
  | leaf a => exact ⟨0, List.mem_singleton_self 0⟩
  | node ts ih =>
      have hlen := (h ts (self_mem_subtrees _)).1
      obtain ⟨s, hs⟩ := List.exists_mem_of_length_pos (show 0 < ts.length by omega)
      obtain ⟨x, hx⟩ := ih s hs fun children hc => h children (by
        rw [subtrees_node]
        exact List.mem_cons_of_mem _ (List.mem_flatMap.mpr ⟨s, hs, hc⟩))
      exact ⟨x + 1, mem_depths_node.mpr ⟨s, hs, x, hx, rfl⟩⟩

theorem mem_of_slices {k : ℕ} {gs : List (List (LeafTree α))} (hgs : slices n k ts = some gs) {g : List (LeafTree α)}
    (hg : g ∈ gs) {s : LeafTree α} (hs : s ∈ g) : s ∈ ts := by
  rw [← flatten_slices hgs]
  exact List.mem_flatten.mpr ⟨g, hg, hs⟩

/-- A layer of trees of one depth whose last slice is a lone tree. -/
theorem skewed_layer (hn : 2 ≤ n) (hlen : 2 ≤ ts.length) {k : ℕ} {gs : List (List (LeafTree α))}
    (hgs : slices n k ts = some gs) (hzero : (ts.length - 1) % n = 0) {d : ℕ} (hd : ∀ s ∈ ts, Uniform d s)
    (ha : ∀ s ∈ ts, Arity n s) : Skewed (gs.map join) := by
  have hne : ts ≠ [] := List.ne_nil_of_length_pos (by omega)
  have hlength := length_slices (by omega) hgs hne
  obtain ⟨front, s, rfl, hfront⟩ := (lone_slices hn hgs hne).2 hzero
  -- there is a slice before the lone tree
  have hdiv : 1 ≤ (ts.length - 1) / n :=
    Nat.div_pos (Nat.le_of_dvd (by omega) (Nat.dvd_of_mod_eq_zero hzero)) (by omega)
  obtain ⟨g, rest, rfl⟩ : ∃ g rest, front = g :: rest := by
    refine List.exists_cons_of_ne_nil ?_
    rintro rfl
    rw [List.nil_append, List.length_singleton] at hlength
    omega
  have hg := hfront g List.mem_cons_self
  obtain ⟨s₀, hs₀⟩ := List.exists_mem_of_length_pos (show 0 < g.length by omega)
  have hs₀' := mem_of_slices hgs List.mem_cons_self hs₀
  have hs' := mem_of_slices hgs (List.mem_append_right _ (List.mem_singleton_self [s])) (List.mem_singleton_self s)
  obtain ⟨x, hx⟩ := exists_depth s₀ (ha s₀ hs₀')
  obtain ⟨y, hy⟩ := exists_depth s (ha s hs')
  refine ⟨join g, rest.map join, s, by rw [List.map_append]; rfl, x + 1, depths_join_node hg hs₀ hx, y, hy, ?_⟩
  rw [hd s₀ hs₀' x hx, hd s hs' y hy]
  exact Nat.lt_succ_self d

/-- **When all leaves are at one depth**: when no layer ends with a lone tree, that is, when no digit of the number of
trees less one is zero. -/
theorem uniform_grow_iff (hn : 2 ≤ n) (h : grow n fuel ts = some t) {d : ℕ} (hd : ∀ s ∈ ts, Uniform d s)
    (ha : ∀ s ∈ ts, Arity n s) : (∃ e, Uniform e t) ↔ 0 ∉ Nat.digits n (ts.length - 1) := by
  refine grow_induct (P := fun ts t => ∀ d, (∀ s ∈ ts, Uniform d s) → (∀ s ∈ ts, Arity n s) →
    ((∃ e, Uniform e t) ↔ 0 ∉ Nat.digits n (ts.length - 1))) (fun t d hd _ => ?_)
    (fun ts gs t fuel hlen hgs hgrow ih d hd ha => ?_) h d hd ha
  · refine iff_of_true ⟨d, hd t (List.mem_singleton_self t)⟩ ?_
    simp
  · have hne : ts ≠ [] := List.ne_nil_of_length_pos (by omega)
    have hmem := mem_slices (by omega) hgs
    rw [Nat.digits_def' (by omega) (by omega), List.mem_cons, not_or]
    by_cases hzero : (ts.length - 1) % n = 0
    · refine iff_of_false ?_ fun hno => hno.1 hzero.symm
      rintro ⟨e, he⟩
      obtain ⟨x, hx, y, hy, hlt⟩ := skewed_grow hn hgrow (skewed_layer hn hlen hgs hzero hd ha)
      rw [he x hx, he y hy] at hlt
      exact lt_irrefl e hlt
    · rw [and_iff_right (Ne.symm hzero)]
      have hlong := (lone_slices hn hgs hne).1 hzero
      have hlayer := ih (d + 1) (fun s hs => by
        obtain ⟨g, hg, rfl⟩ := List.mem_map.mp hs
        exact uniform_join (hlong g hg) fun s hs => hd s (mem_of_slices hgs hg hs)) (fun s hs => by
        obtain ⟨g, hg, rfl⟩ := List.mem_map.mp hs
        exact arity_join (hmem g hg).2 (fun s hs => ha s (mem_of_slices hgs hg hs)) (hmem g hg).1)
      rw [hlayer, List.length_map, length_slices (by omega) hgs hne, Nat.add_sub_cancel]

end grow
end LeafTree
end BrowserMesh.Layers
