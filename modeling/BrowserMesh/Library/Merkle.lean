import Mathlib

/-! # Binary trees over a list, built from below

* **Layers.**  `pairUp` joins neighbours, the last one of an odd layer with itself, and `collapse` goes on until one is left.
  Both commute with maps that respect the join (`collapse_map`).
* **The tree.**  `treeOf l` is the tree that this builds, `filled l` its leaves: the list with some of its tail repeated, so
  that its length is a power of two.  Two lists have one tree exactly if they fill up to the same list (`treeOf_eq_iff`).
* **Digests.**  Where no two messages of the trees collide, a tree is determined by its digest (`digest_inj`). -/

namespace BrowserMesh.Merkle

section layers
variable {α β : Type}

/-- Join neighbours; the last one of an odd list with itself. -/
def pairUp (node : α → α → α) : List α → List α
  | [] => []
  | [a] => [node a a]
  | a :: b :: l => node a b :: pairUp node l

/-- Pair up until at most one is left. -/
def collapse (node : α → α → α) : ℕ → List α → List α
  | 0, l => l
  | fuel + 1, l => if 1 < l.length then collapse node fuel (pairUp node l) else l

/-- The one that is left of a list that is not empty. -/
def root? (node : α → α → α) (l : List α) : Option α := (collapse node l.length l).head?

variable {node : α → α → α}

variable (node) in
theorem length_pairUp (l : List α) : (pairUp node l).length = (l.length + 1) / 2 := by
  induction l using pairUp.induct with
  | case1 => simp [pairUp]
  | case2 a => simp [pairUp]
  | case3 a b l ih =>
      simp only [pairUp, List.length_cons, ih]
      omega

theorem length_collapse {fuel : ℕ} {l : List α} (hl : l ≠ []) (h : l.length ≤ fuel + 1) :
    (collapse node fuel l).length = 1 := by
  have hpos := List.length_pos_of_ne_nil hl
  induction fuel generalizing l with
  | zero =>
      rw [collapse]
      omega
  | succ fuel ih =>
      rw [collapse]
      split_ifs with hlong
      · have hlen := length_pairUp node l
        refine ih (List.ne_nil_of_length_pos ?_) ?_ ?_ <;> omega
      · omega

variable (node) in
theorem exists_root {l : List α} (hl : l ≠ []) : ∃ a, root? node l = some a ∧ collapse node l.length l = [a] := by
  have hone : (collapse node l.length l).length = 1 := length_collapse hl (Nat.le_succ _)
  obtain ⟨a, ha⟩ := List.length_eq_one_iff.mp hone
  exact ⟨a, by rw [root?, ha, List.head?_cons], ha⟩

/-- One step of the loop does not change the root. -/
theorem collapse_pairUp {fuel : ℕ} {l : List α} (h : 1 < l.length) :
    collapse node (fuel + 1) l = collapse node fuel (pairUp node l) := if_pos h

variable {node' : β → β → β}

theorem pairUp_map {f : α → β} (hf : ∀ a b, f (node a b) = node' (f a) (f b)) (l : List α) :
    pairUp node' (l.map f) = (pairUp node l).map f := by
  induction l using pairUp.induct with
  | case1 => rfl
  | case2 a => simp [pairUp, hf]
  | case3 a b l ih => simp [pairUp, hf, ih]

theorem collapse_map {f : α → β} (hf : ∀ a b, f (node a b) = node' (f a) (f b)) (fuel : ℕ)
    (l : List α) : collapse node' fuel (l.map f) = (collapse node fuel l).map f := by
  induction fuel generalizing l with
  | zero => rfl
  | succ fuel ih =>
      rw [collapse, collapse, List.length_map, pairUp_map hf]
      split_ifs
      · exact ih _
      · rfl

variable (node) in
theorem root?_map {f : α → β} (hf : ∀ a b, f (node a b) = node' (f a) (f b)) (l : List α) :
    root? node' (l.map f) = (root? node l).map f := by
  rw [root?, root?, List.length_map, collapse_map hf, List.head?_map]

end layers

/-! ### The tree of a list -/

inductive BinTree (α : Type) where
  | leaf (a : α)
  | node (left right : BinTree α)

namespace BinTree
variable {α β : Type}

def fold (leaf : α → β) (node : β → β → β) : BinTree α → β
  | .leaf a => leaf a
  | .node left right => node (left.fold leaf node) (right.fold leaf node)

/-- The leaves from left to right. -/
def leaves : BinTree α → List α
  | .leaf a => [a]
  | .node left right => left.leaves ++ right.leaves

/-- All leaves are at the given depth. -/
def Perfect : ℕ → BinTree α → Prop
  | 0, .leaf _ => True
  | n + 1, .node left right => left.Perfect n ∧ right.Perfect n
  | _, _ => False

theorem Perfect.length_leaves {n : ℕ} {t : BinTree α} (h : t.Perfect n) : t.leaves.length = 2 ^ n := by
  induction t generalizing n with
  | leaf a =>
      cases n with
      | zero => rfl
      | succ n => cases h
  | node left right hleft hright =>
      cases n with
      | zero => cases h
      | succ n =>
          rw [leaves, List.length_append, hleft h.1, hright h.2, Nat.pow_succ]
          omega

/-- Perfect trees with the same leaves are the same. -/
theorem Perfect.eq_of_leaves {n m : ℕ} {t t' : BinTree α} (h : t.Perfect n) (h' : t'.Perfect m)
    (heq : t.leaves = t'.leaves) : t = t' := by
  obtain rfl : n = m := by
    refine Nat.pow_right_injective (le_refl 2) ?_
    show 2 ^ n = 2 ^ m
    rw [← h.length_leaves, ← h'.length_leaves, heq]
  induction t generalizing n t' with
  | leaf a =>
      cases n with
      | succ n => cases h
      | zero =>
          cases t' with
          | leaf b => rw [(List.cons.inj heq).1]
          | node left right => cases h'
  | node left right hleft hright =>
      cases n with
      | zero => cases h
      | succ n =>
          cases t' with
          | leaf b => cases h'
          | node left' right' =>
              obtain ⟨hl, hr⟩ := List.append_inj heq (by rw [h.1.length_leaves, h'.1.length_leaves])
              rw [hleft h.1 hl h'.1, hright h.2 hr h'.2]

end BinTree

section treeOf
variable {α β : Type}

/-- The tree that is built over the list. -/
def treeOf (l : List α) : Option (BinTree α) := root? BinTree.node (l.map BinTree.leaf)

/-- The list filled up to a power of two, as odd layers repeat what is last in them. -/
def filled (l : List α) : List α := (root? (· ++ ·) (l.map ([·]))).getD []

theorem root?_eq_treeOf (leaf : α → β) (node : β → β → β) (l : List α) :
    root? node (l.map leaf) = (treeOf l).map (BinTree.fold leaf node) := by
  have hmap := root?_map BinTree.node (f := BinTree.fold leaf node) (fun _ _ => rfl) (l.map BinTree.leaf)
  rw [List.map_map] at hmap
  exact hmap

variable {l : List α}

theorem exists_treeOf (hl : l ≠ []) : ∃ t, treeOf l = some t := by
  obtain ⟨t, ht, -⟩ := exists_root BinTree.node (l := l.map BinTree.leaf) (by simpa using hl)
  exact ⟨t, ht⟩

theorem filled_eq_leaves {t : BinTree α} (h : treeOf l = some t) : filled l = t.leaves := by
  have hfold : t.leaves = t.fold ([·]) (· ++ ·) := by
    clear h
    induction t with
    | leaf a => rfl
    | node left right hleft hright => rw [BinTree.leaves, BinTree.fold, hleft, hright]
  rw [filled, root?_eq_treeOf, h, Option.map_some, Option.getD_some, hfold]

theorem perfect_pairUp {n : ℕ} {l : List (BinTree α)} (h : ∀ t ∈ l, t.Perfect n) :
    ∀ t ∈ pairUp BinTree.node l, t.Perfect (n + 1) := by
  induction l using pairUp.induct with
  | case1 => exact fun t ht => absurd ht List.not_mem_nil
  | case2 a =>
      intro t ht
      obtain rfl := List.mem_singleton.mp ht
      exact ⟨h a List.mem_cons_self, h a List.mem_cons_self⟩
  | case3 a b l ih =>
      intro t ht
      rcases List.mem_cons.mp ht with rfl | ht
      · exact ⟨h a List.mem_cons_self, h b (List.mem_cons_of_mem _ List.mem_cons_self)⟩
      · exact ih (fun t ht => h t (List.mem_cons_of_mem _ (List.mem_cons_of_mem _ ht))) t ht

/-- Each layer halves the number of trees and makes them one higher. -/
theorem perfect_collapse {fuel n : ℕ} {l : List (BinTree α)} (hfuel : l.length ≤ fuel + 1) (h : ∀ t ∈ l, t.Perfect n) :
    ∀ t ∈ collapse BinTree.node fuel l, t.Perfect (n + Nat.clog 2 l.length) := by
  induction fuel generalizing n l with
  | zero =>
      rw [Nat.clog_of_right_le_one hfuel]
      exact h
  | succ fuel ih =>
      rw [collapse]
      split_ifs with hlong
      · have hlen := length_pairUp BinTree.node l
        have hnext := ih (by omega) (perfect_pairUp h)
        rw [hlen] at hnext
        have hclog : Nat.clog 2 l.length = Nat.clog 2 ((l.length + 1) / 2) + 1 :=
          Nat.clog_of_two_le Nat.one_lt_two hlong
        rwa [hclog, Nat.add_comm _ 1, ← Nat.add_assoc]
      · rw [Nat.clog_of_right_le_one (Nat.not_lt.mp hlong)]
        exact h

theorem perfect_of_treeOf {t : BinTree α} (h : treeOf l = some t) : t.Perfect (Nat.clog 2 l.length) := by
  have hleaves : ∀ t ∈ l.map BinTree.leaf, t.Perfect 0 := by
    intro t ht
    obtain ⟨a, -, rfl⟩ := List.mem_map.mp ht
    trivial
  have hperfect := perfect_collapse (Nat.le_succ _) hleaves t (List.mem_of_mem_head? h)
  rwa [List.length_map, Nat.zero_add] at hperfect

/-- Filling up commutes with maps of the members. -/
theorem filled_map (f : α → β) (l : List α) : filled (l.map f) = (filled l).map f := by
  have hmap := root?_map (· ++ ·) (f := List.map f) (fun _ _ => List.map_append) (l.map ([·]))
  rw [List.map_map] at hmap
  rw [filled, filled, List.map_map]
  exact (congrArg (Option.getD · []) hmap).trans (Option.getD_map (List.map f) [] _)

theorem filled_nil : filled ([] : List α) = [] := rfl

/-- Pairing up repeats leaves at the end and adds no others. -/
theorem leaves_pairUp (l : List (BinTree α)) :
    l.flatMap BinTree.leaves <+: (pairUp BinTree.node l).flatMap BinTree.leaves ∧
      ∀ a ∈ (pairUp BinTree.node l).flatMap BinTree.leaves, a ∈ l.flatMap BinTree.leaves := by
  induction l using pairUp.induct with
  | case1 => exact ⟨List.prefix_rfl, fun a ha => ha⟩
  | case2 t =>
      simp only [pairUp, List.flatMap_cons, List.flatMap_nil, List.append_nil, BinTree.leaves]
      exact ⟨List.prefix_append _ _, fun a ha => (List.mem_append.mp ha).elim id id⟩
  | case3 t t' l ih =>
      simp only [pairUp, List.flatMap_cons, BinTree.leaves, ← List.append_assoc]
      refine ⟨(List.prefix_append_right_inj _).mpr ih.1, fun a ha => ?_⟩
      rcases List.mem_append.mp ha with ha | ha
      · exact List.mem_append_left _ ha
      · exact List.mem_append_right _ (ih.2 a ha)

theorem leaves_collapse (fuel : ℕ) (l : List (BinTree α)) :
    l.flatMap BinTree.leaves <+: (collapse BinTree.node fuel l).flatMap BinTree.leaves ∧
      ∀ a ∈ (collapse BinTree.node fuel l).flatMap BinTree.leaves, a ∈ l.flatMap BinTree.leaves := by
  induction fuel generalizing l with
  | zero => exact ⟨List.prefix_rfl, fun a ha => ha⟩
  | succ fuel ih =>
      rw [collapse]
      split_ifs
      · obtain ⟨hpre, hmem⟩ := leaves_pairUp l
        exact ⟨hpre.trans (ih _).1, fun a ha => hmem a ((ih _).2 a ha)⟩
      · exact ⟨List.prefix_rfl, fun a ha => ha⟩

/-- A list is the first part of what it fills up to, which has no other members. -/
theorem prefix_filled (l : List α) : l <+: filled l ∧ ∀ a ∈ filled l, a ∈ l := by
  by_cases hl : l = []
  · rw [hl]
    exact ⟨List.prefix_rfl, fun a ha => ha⟩
  · have hne : l.map BinTree.leaf ≠ [] := by simpa using hl
    obtain ⟨t, ht, hcollapse⟩ := exists_root BinTree.node hne
    have hleaves := leaves_collapse (l.map BinTree.leaf).length (l.map BinTree.leaf)
    have hself : (l.map BinTree.leaf).flatMap BinTree.leaves = l := by
      rw [List.flatMap_map]
      exact List.flatMap_singleton' l
    rw [hcollapse, hself, List.flatMap_singleton] at hleaves
    rw [filled_eq_leaves ht]
    exact hleaves

variable {l' : List α}

/-- Two lists have one tree exactly if they fill up to one list. -/
theorem treeOf_eq_iff : treeOf l = treeOf l' ↔ filled l = filled l' := by
  constructor
  · intro h
    by_cases hl : l = []
    · by_cases hl' : l' = []
      · rw [hl, hl']
      · obtain ⟨t, ht⟩ := exists_treeOf hl'
        rw [hl, ht] at h
        cases h
    · obtain ⟨t, ht⟩ := exists_treeOf hl
      rw [filled_eq_leaves ht, filled_eq_leaves (h.symm.trans ht)]
  · intro h
    have hempty : ∀ {l l' : List α}, filled l = filled l' → l = [] → l' = [] := by
      rintro l l' h rfl
      have hpre := (prefix_filled l').1
      rw [← h, filled_nil] at hpre
      exact List.prefix_nil.mp hpre
    by_cases hl : l = []
    · rw [hl, hempty h hl]
    · have hl' : l' ≠ [] := fun hl' => hl (hempty h.symm hl')
      obtain ⟨t, ht⟩ := exists_treeOf hl
      obtain ⟨t', ht'⟩ := exists_treeOf hl'
      rw [filled_eq_leaves ht, filled_eq_leaves ht'] at h
      rw [ht, ht', (perfect_of_treeOf ht).eq_of_leaves (perfect_of_treeOf ht') h]

/-- Lists of one length fill up to the same list only if they are the same. -/
theorem filled_inj_of_length (hlen : l.length = l'.length) (h : filled l = filled l') : l = l' := by
  have hpre := (prefix_filled l).1
  have hpre' := (prefix_filled l').1
  rw [← h] at hpre'
  rw [List.prefix_iff_eq_take.mp hpre, List.prefix_iff_eq_take.mp hpre', hlen]

theorem filled_inj_of_nodup (hl : l.Nodup) (hl' : l'.Nodup) (h : filled l = filled l') : l = l' := by
  have hle : ∀ {l l' : List α}, l'.Nodup → filled l = filled l' → l'.length ≤ l.length := by
    intro l l' hn heq
    by_contra hlt
    obtain ⟨hpre, hmem⟩ := prefix_filled l
    have hpre' := (prefix_filled l').1
    rw [← heq] at hpre'
    obtain ⟨rest, rfl⟩ := List.prefix_of_prefix_length_le hpre hpre' (by omega)
    cases rest with
    | nil => simp at hlt
    | cons a rest =>
        have ha : a ∈ l := hmem a (hpre'.subset (List.mem_append_right _ List.mem_cons_self))
        exact (List.nodup_append.mp hn).2.2 a ha a List.mem_cons_self rfl
  exact filled_inj_of_length (Nat.le_antisymm (hle hl h.symm) (hle hl' h)) h

end treeOf

/-! ### Digests -/

section digest
variable {μ δ : Type} (hash : μ → δ) (join : δ → δ → μ)

/-- The digest of a tree whose leaves are messages. -/
def digest (t : BinTree μ) : δ := t.fold hash fun d e => hash (join d e)

/-- What is hashed to get the digest. -/
def message : BinTree μ → μ
  | .leaf m => m
  | .node left right => join (digest hash join left) (digest hash join right)

/-- All that is hashed in a tree. -/
def messages : BinTree μ → List μ
  | .leaf m => [m]
  | .node left right =>
      join (digest hash join left) (digest hash join right) :: (messages left ++ messages right)

theorem digest_eq_hash (t : BinTree μ) : digest hash join t = hash (message hash join t) := by
  cases t <;> rfl

theorem message_mem (t : BinTree μ) : message hash join t ∈ messages hash join t := by
  cases t <;> exact List.mem_cons_self

theorem leaves_subset_messages (t : BinTree μ) : t.leaves ⊆ messages hash join t := by
  induction t with
  | leaf m => exact List.Subset.refl _
  | node left right hleft hright =>
      exact List.subset_cons_of_subset _ (List.append_subset.mpr
        ⟨List.subset_append_of_subset_left _ hleft, List.subset_append_of_subset_right _ hright⟩)

variable {hash join}

/-- Trees without collisions, whose leaves are no joins, are determined by their digests. -/
theorem digest_inj {S : Set μ} (hhash : Set.InjOn hash S)
    (hjoin : ∀ {a b c d}, join a b = join c d → a = c ∧ b = d) {t t' : BinTree μ}
    (ht : ∀ m ∈ messages hash join t, m ∈ S) (ht' : ∀ m ∈ messages hash join t', m ∈ S)
    (hleaf : ∀ m ∈ t.leaves, ∀ a b, m ≠ join a b) (hleaf' : ∀ m ∈ t'.leaves, ∀ a b, m ≠ join a b)
    (h : digest hash join t = digest hash join t') : t = t' := by
  induction t generalizing t' with
  | leaf m =>
      rw [digest_eq_hash, digest_eq_hash] at h
      have hsame := hhash (ht _ (message_mem _ _ _)) (ht' _ (message_mem _ _ _)) h
      cases t' with
      | leaf m' => exact congrArg BinTree.leaf hsame
      | node left right => exact absurd hsame (hleaf m List.mem_cons_self _ _)
  | node left right hleft hright =>
      rw [digest_eq_hash, digest_eq_hash] at h
      have hsame := hhash (ht _ (message_mem _ _ _)) (ht' _ (message_mem _ _ _)) h
      cases t' with
      | leaf m' => exact absurd hsame.symm (hleaf' m' List.mem_cons_self _ _)
      | node left' right' =>
          obtain ⟨hl, hr⟩ := hjoin hsame
          simp only [messages, List.mem_cons, List.mem_append] at ht ht'
          simp only [BinTree.leaves, List.mem_append] at hleaf hleaf'
          rw [hleft (fun m hm => ht m (Or.inr (Or.inl hm))) (fun m hm => ht' m (Or.inr (Or.inl hm)))
              (fun m hm => hleaf m (Or.inl hm)) (fun m hm => hleaf' m (Or.inl hm)) hl,
            hright (fun m hm => ht m (Or.inr (Or.inr hm))) (fun m hm => ht' m (Or.inr (Or.inr hm)))
              (fun m hm => hleaf m (Or.inr hm)) (fun m hm => hleaf' m (Or.inr hm)) hr]

end digest

end BrowserMesh.Merkle
