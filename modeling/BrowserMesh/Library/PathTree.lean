import Mathlib.Data.List.Dedup
import Mathlib.Data.List.Perm.Basic
import Mathlib.Data.List.Infix
import Mathlib.Data.List.Pairwise

/-! # Trees of named entries, built path by path

* `PathTree κ α`: a leaf with a value, or a directory whose entries are in the order of insertion.
* `insert` goes down a path and adds a leaf at its end; it refuses a path that is taken, or that leads through a leaf,
  or that ends at a directory.
* `treeOf es` says outright what the tree is after the paths `es`: `insert_treeOf`, and the refused paths are those that
  clash with an earlier one.
* `fold_treeOf_perm`: what is computed from the tree does not depend on the order of the paths, if what is computed for
  a directory does not depend on the order of its entries. -/

namespace BrowserMesh.PathTrees

inductive PathTree (κ α : Type) where
  | leaf (a : α)
  | dir (entries : List (κ × PathTree κ α))

namespace PathTree
variable {κ α β : Type}

mutual

def fold (leaf : α → β) (dir : List (κ × β) → β) : PathTree κ α → β
  | .leaf a => leaf a
  | .dir entries => dir (foldAll leaf dir entries)

def foldAll (leaf : α → β) (dir : List (κ × β) → β) : List (κ × PathTree κ α) → List (κ × β)
  | [] => []
  | (k, t) :: rest => (k, fold leaf dir t) :: foldAll leaf dir rest

end

theorem foldAll_eq_map (leaf : α → β) (dir : List (κ × β) → β) (entries : List (κ × PathTree κ α)) :
    foldAll leaf dir entries = entries.map fun e => (e.1, fold leaf dir e.2) := by
  induction entries with
  | nil => rfl
  | cons e entries ih => rw [foldAll, ih, List.map_cons]

theorem fold_dir (leaf : α → β) (dir : List (κ × β) → β) (entries : List (κ × PathTree κ α)) :
    fold leaf dir (.dir entries) = dir (entries.map fun e => (e.1, fold leaf dir e.2)) := by
  rw [fold, foldAll_eq_map]

/-- What holds of the values of leaves, and of a directory if it does of its entries, holds of every value. -/
theorem fold_induct {leaf : α → β} {dir : List (κ × β) → β} {P : β → Prop} (hleaf : ∀ a, P (leaf a))
    (hdir : ∀ l : List (κ × β), (∀ e ∈ l, P e.2) → P (dir l)) (t : PathTree κ α) : P (fold leaf dir t) :=
  @PathTree.rec κ α (fun t => P (fold leaf dir t)) (fun entries => ∀ e ∈ entries, P (fold leaf dir e.2))
    (fun e => P (fold leaf dir e.2)) hleaf
    (fun entries h => by
      rw [fold_dir]
      refine hdir _ fun e he => ?_
      obtain ⟨e', he', rfl⟩ := List.mem_map.mp he
      exact h e' he')
    (fun _ h => absurd h List.not_mem_nil)
    (fun _ _ he hes _ h => (List.mem_cons.mp h).elim (fun e => e ▸ he) (hes _)) (fun _ _ h => h) t

/-- One of the paths is an initial part of the other. -/
def Clash (p q : List κ) : Prop := p <+: q ∨ q <+: p

theorem Clash.symm {p q : List κ} (h : Clash p q) : Clash q p := Or.symm h

variable {k : κ}

theorem clash_cons {k' : κ} {p q : List κ} : Clash (k :: p) (k' :: q) ↔ k = k' ∧ Clash p q := by
  simp only [Clash, List.cons_prefix_cons]
  constructor
  · rintro (⟨rfl, h⟩ | ⟨rfl, h⟩)
    · exact ⟨rfl, Or.inl h⟩
    · exact ⟨rfl, Or.inr h⟩
  · rintro ⟨rfl, h | h⟩
    · exact Or.inl ⟨rfl, h⟩
    · exact Or.inr ⟨rfl, h⟩

variable [DecidableEq κ]

def get? (k : κ) (entries : List (κ × PathTree κ α)) : Option (PathTree κ α) :=
  (entries.find? fun e => e.1 = k).map Prod.snd

/-- Put a tree in the place of the entry of a name. -/
def replace (k : κ) (t : PathTree κ α) (entries : List (κ × PathTree κ α)) : List (κ × PathTree κ α) :=
  entries.map fun e => if e.1 = k then (k, t) else e

/-- Add a leaf at the end of a path; the error is the part of the path that is taken. -/
def insert (entries : List (κ × PathTree κ α)) : List κ → α → Except (List κ) (List (κ × PathTree κ α))
  | [], _ => .error []
  | [k], a =>
      match get? k entries with
      | some _ => .error [k]
      | none => .ok (entries ++ [(k, .leaf a)])
  | k :: k' :: path, a =>
      match get? k entries with
      | none =>
          match insert [] (k' :: path) a with
          | .error taken => .error (k :: taken)
          | .ok sub => .ok (entries ++ [(k, .dir sub)])
      | some (.leaf _) => .error [k]
      | some (.dir sub) =>
          match insert sub (k' :: path) a with
          | .error taken => .error (k :: taken)
          | .ok sub' => .ok (replace k (.dir sub') entries)

/-! ### What the tree is -/

/-- The first names of the paths, in the order of their first occurrence. -/
def firsts (es : List (List κ × α)) : List κ := (es.filterMap fun e => e.1.head?).reverse.dedup.reverse

/-- What is left of the paths that go on below a name. -/
def under (k : κ) (es : List (List κ × α)) : List (List κ × α) :=
  es.filterMap fun e =>
    match e.1 with
    | k₀ :: k' :: path => if k₀ = k then some (k' :: path, e.2) else none
    | _ => none

/-- The value at the path that consists of a name. -/
def valueAt (k : κ) (es : List (List κ × α)) : Option α := (es.find? fun e => e.1 = [k]).map Prod.snd

/-- The entry of a first name: a leaf if a path ends there, else the directory that `sub` makes of the rest. -/
def entryOf (sub : List (List κ × α) → List (κ × PathTree κ α)) (es : List (List κ × α)) (k : κ) : PathTree κ α :=
  match valueAt k es with
  | some a => .leaf a
  | none => .dir (sub (under k es))

/-- The entries after the paths `es`, down to the depth `n`. -/
def treeOf : ℕ → List (List κ × α) → List (κ × PathTree κ α)
  | 0, _ => []
  | n + 1, es => (firsts es).map fun k => (k, entryOf (treeOf n) es k)

/-- The paths are neither empty nor longer than `n`, and no two of them clash. -/
structure Free (n : ℕ) (es : List (List κ × α)) : Prop where
  nonempty : ∀ e ∈ es, e.1 ≠ []
  short : ∀ e ∈ es, e.1.length ≤ n
  apart : es.Pairwise fun e e' => ¬ Clash e.1 e'.1

/-! ### First names -/

variable {es : List (List κ × α)}

theorem mem_firsts : k ∈ firsts es ↔ ∃ path a, (k :: path, a) ∈ es := by
  rw [firsts, List.mem_reverse, List.mem_dedup, List.mem_reverse, List.mem_filterMap]
  constructor
  · rintro ⟨⟨p, a⟩, he, hk⟩
    cases p with
    | nil => cases hk
    | cons k' path =>
        obtain rfl := Option.some.inj hk
        exact ⟨path, a, he⟩
  · rintro ⟨path, a, he⟩
    exact ⟨(k :: path, a), he, rfl⟩

theorem nodup_firsts (es : List (List κ × α)) : (firsts es).Nodup := List.nodup_reverse.mpr (List.nodup_dedup _)

theorem firsts_append (es : List (List κ × α)) (k : κ) (path : List κ) (a : α) :
    firsts (es ++ [(k :: path, a)]) = if k ∈ firsts es then firsts es else firsts es ++ [k] := by
  have hnames : (es ++ [(k :: path, a)]).filterMap (fun e => e.1.head?) = es.filterMap (fun e => e.1.head?) ++ [k] := by
    rw [List.filterMap_append]
    rfl
  have hmem : k ∈ firsts es ↔ k ∈ (es.filterMap fun e => e.1.head?).reverse := by
    rw [firsts, List.mem_reverse, List.mem_dedup]
  rw [firsts, hnames, List.reverse_append, List.reverse_singleton, List.singleton_append]
  split_ifs with hk
  · rw [List.dedup_cons_of_mem (hmem.mp hk), firsts]
  · rw [List.dedup_cons_of_notMem (mt hmem.mpr hk), List.reverse_cons, firsts]

variable {es' : List (List κ × α)}

theorem firsts_perm (h : es.Perm es') : (firsts es).Perm (firsts es') := by
  refine (List.perm_ext_iff_of_nodup (nodup_firsts es) (nodup_firsts es')).mpr fun k => ?_
  rw [mem_firsts, mem_firsts]
  exact exists₂_congr fun path a => h.mem_iff

theorem under_append (es : List (List κ × α)) (k k₀ k' : κ) (path : List κ) (a : α) :
    under k (es ++ [(k₀ :: k' :: path, a)]) = if k₀ = k then under k es ++ [(k' :: path, a)] else under k es := by
  rw [under, List.filterMap_append]
  split_ifs with h
  · simp [under, h]
  · simp [under, h]

theorem under_append_one (es : List (List κ × α)) (k k₀ : κ) (a : α) : under k (es ++ [([k₀], a)]) = under k es := by
  rw [under, List.filterMap_append]
  simp [under]

theorem mem_under {e : List κ × α} :
    e ∈ under k es ↔ e.1 ≠ [] ∧ (k :: e.1, e.2) ∈ es := by
  rw [under, List.mem_filterMap]
  constructor
  · rintro ⟨⟨p, a⟩, hp, he⟩
    rcases p with _ | ⟨k₀, _ | ⟨k', path⟩⟩
    · cases he
    · cases he
    · simp only at he
      split_ifs at he with hk
      obtain rfl := Option.some.inj he
      subst hk
      exact ⟨List.cons_ne_nil _ _, hp⟩
  · rintro ⟨hne, hmem⟩
    obtain ⟨p, a⟩ := e
    rcases p with _ | ⟨k', path⟩
    · exact absurd rfl hne
    · exact ⟨_, hmem, by simp⟩

theorem under_of_not_mem (h : k ∉ firsts es) : under k es = [] := by
  refine List.eq_nil_iff_forall_not_mem.mpr fun e he => h ?_
  exact mem_firsts.mpr ⟨e.1, e.2, (mem_under.mp he).2⟩

theorem mem_of_valueAt {a : α} (h : valueAt k es = some a) : ([k], a) ∈ es := by
  obtain ⟨⟨p, a'⟩, he, rfl⟩ := Option.map_eq_some_iff.mp h
  have hp : p = [k] := by simpa using List.find?_some he
  rw [← hp]
  exact List.mem_of_find?_eq_some he

theorem valueAt_eq_none : valueAt k es = none ↔ ∀ a, ([k], a) ∉ es := by
  rw [valueAt, Option.map_eq_none_iff, List.find?_eq_none]
  constructor
  · intro h a ha
    exact h _ ha (by simp)
  · rintro h ⟨p, a⟩ he hp
    have hp' : p = [k] := by simpa using hp
    exact h a (hp' ▸ he)

theorem valueAt_append_of_ne (es : List (List κ × α)) {p : List κ} (hp : p ≠ [k]) (a : α) :
    valueAt k (es ++ [(p, a)]) = valueAt k es := by
  simp [valueAt, List.find?_append, hp]

theorem valueAt_append_self (h : valueAt k es = none) (a : α) :
    valueAt k (es ++ [([k], a)]) = some a := by
  rw [valueAt, Option.map_eq_none_iff] at h
  simp [valueAt, List.find?_append, h]

theorem get?_cons (k k' : κ) (t : PathTree κ α) (entries : List (κ × PathTree κ α)) :
    get? k ((k', t) :: entries) = if k' = k then some t else get? k entries := by
  rw [get?, List.find?_cons]
  split_ifs with h
  · simp [h]
  · simp [h, get?]

theorem get?_map (k : κ) (ks : List κ) (f : κ → PathTree κ α) :
    get? k (ks.map fun k => (k, f k)) = if k ∈ ks then some (f k) else none := by
  induction ks with
  | nil => rfl
  | cons k' ks ih =>
      rw [List.map_cons, get?_cons, ih]
      by_cases hk : k' = k
      · subst hk
        simp
      · simp [hk, Ne.symm hk]

theorem replace_map (k : κ) (t : PathTree κ α) (ks : List κ) (f : κ → PathTree κ α) :
    replace k t (ks.map fun k => (k, f k)) = ks.map fun k' => (k', if k' = k then t else f k') := by
  rw [replace, List.map_map]
  refine List.map_congr_left fun k' _ => ?_
  simp only [Function.comp]
  split_ifs with h
  · rw [h]
  · rfl

theorem treeOf_nil (n : ℕ) : treeOf n ([] : List (List κ × α)) = [] := by
  cases n <;> rfl

/-! ### Insertion -/

variable {n : ℕ}

theorem Free.under (h : Free (n + 1) es) (k : κ) : Free n (under k es) where
  nonempty e he := (mem_under.mp he).1
  short e he := Nat.le_of_succ_le_succ (h.short _ (mem_under.mp he).2)
  apart := by
    refine h.apart.filterMap _ fun e e' hee b hb b' hb' hclash => ?_
    have hb₁ : b ∈ PathTree.under k [e] ↔ b.1 ≠ [] ∧ (k :: b.1, b.2) ∈ [e] := mem_under
    have hb₂ : b' ∈ PathTree.under k [e'] ↔ b'.1 ≠ [] ∧ (k :: b'.1, b'.2) ∈ [e'] := mem_under
    have h₁ := (hb₁.mp (by rw [PathTree.under, List.filterMap_cons]; simp [hb])).2
    have h₂ := (hb₂.mp (by rw [PathTree.under, List.filterMap_cons]; simp [hb'])).2
    rw [← List.mem_singleton.mp h₁, ← List.mem_singleton.mp h₂] at hee
    exact hee (clash_cons.mpr ⟨rfl, hclash⟩)

/-- The entries other than the one of a first name stay as they are when a path with this name is added. -/
theorem entryOf_append_of_ne (es : List (List κ × α)) {k' : κ} (hk : k' ≠ k) (path : List κ) (a : α) :
    entryOf (treeOf n) (es ++ [(k :: path, a)]) k' = entryOf (treeOf n) es k' := by
  have hne : k :: path ≠ [k'] := by
    intro he
    exact hk (List.cons.inj he).1.symm
  have hunder : under k' (es ++ [(k :: path, a)]) = under k' es := by
    cases path with
    | nil => exact under_append_one es k' k a
    | cons k₂ path => rw [under_append, if_neg (Ne.symm hk)]
  rw [entryOf, entryOf, valueAt_append_of_ne es hne, hunder]

/-- **Insertion**: a path that clashes with none of the earlier ones is added, and every other path is refused. -/
theorem insert_treeOf (hes : Free n es) {p : List κ} (hp : p ≠ []) (hlen : p.length ≤ n) (a : α) :
    ((∀ e ∈ es, ¬ Clash e.1 p) → insert (treeOf n es) p a = .ok (treeOf n (es ++ [(p, a)]))) ∧
      ((∃ e ∈ es, Clash e.1 p) → ∃ taken, insert (treeOf n es) p a = .error taken) := by
  induction p generalizing n es with
  | nil => exact absurd rfl hp
  | cons k path ih =>
      obtain ⟨m, rfl⟩ : ∃ m, n = m + 1 := ⟨n - 1, by simp only [List.length_cons] at hlen; omega⟩
      -- a path with which this one clashes has its first name
      have hfirst : ∀ e ∈ es, Clash e.1 (k :: path) → k ∈ firsts es := by
        rintro ⟨q, b⟩ he hclash
        cases q with
        | nil => exact absurd rfl (hes.nonempty _ he)
        | cons k₀ q =>
            obtain ⟨rfl, -⟩ := clash_cons.mp hclash
            exact mem_firsts.mpr ⟨q, b, he⟩
      have hadd : ∀ t, k ∉ firsts es → entryOf (treeOf m) (es ++ [(k :: path, a)]) k = t →
          treeOf (m + 1) es ++ [(k, t)] = treeOf (m + 1) (es ++ [(k :: path, a)]) := by
        intro t hk ht
        rw [treeOf, treeOf, firsts_append, if_neg hk, List.map_append, List.map_singleton, ht]
        congr 1
        refine List.map_congr_left fun k' hk' => ?_
        rw [entryOf_append_of_ne es fun he => hk (by rw [← he]; exact hk')]
      cases path with
      | nil =>
          rw [insert, treeOf, get?_map]
          by_cases hk : k ∈ firsts es
          · obtain ⟨q, b, he⟩ := mem_firsts.mp hk
            refine ⟨fun hno => absurd ?_ (hno _ he), fun _ => ⟨[k], by rw [if_pos hk]⟩⟩
            exact Or.inr ⟨q, rfl⟩
          · rw [if_neg hk]
            refine ⟨fun _ => ?_, fun ⟨e, he, hclash⟩ => absurd (hfirst e he hclash) hk⟩
            refine congrArg Except.ok (hadd _ hk ?_)
            rw [entryOf, valueAt_append_self (valueAt_eq_none.mpr fun b hb => hk (mem_firsts.mpr ⟨[], b, hb⟩))]
      | cons k' path =>
          have hshort : (k' :: path).length ≤ m := Nat.le_of_succ_le_succ hlen
          have hne : k :: k' :: path ≠ [k] := by simp
          rw [insert, treeOf, get?_map]
          by_cases hk : k ∈ firsts es
          · rw [if_pos hk]
            cases hvalue : valueAt k es with
            | some b =>
                have he := mem_of_valueAt hvalue
                refine ⟨fun hno => absurd (Or.inl ⟨k' :: path, rfl⟩) (hno _ he), fun _ => ⟨[k], ?_⟩⟩
                simp only [entryOf, hvalue]
            | none =>
                obtain ⟨hok, herror⟩ := ih (hes.under k) (List.cons_ne_nil _ _) hshort
                have hclash : (∃ e ∈ es, Clash e.1 (k :: k' :: path)) ↔
                    ∃ e ∈ under k es, Clash e.1 (k' :: path) := by
                  constructor
                  · rintro ⟨⟨q, b⟩, he, hc⟩
                    rcases q with _ | ⟨k₀, q⟩
                    · exact absurd rfl (hes.nonempty _ he)
                    · obtain ⟨rfl, hrest⟩ := clash_cons.mp hc
                      refine ⟨(q, b), mem_under.mpr ⟨?_, he⟩, hrest⟩
                      rintro rfl
                      exact valueAt_eq_none.mp hvalue b he
                  · rintro ⟨e, he, hc⟩
                    exact ⟨_, (mem_under.mp he).2, clash_cons.mpr ⟨rfl, hc⟩⟩
                simp only [entryOf, hvalue]
                refine ⟨fun hno => ?_, fun hyes => ?_⟩
                · rw [hok fun e he hc => by
                    obtain ⟨e', he', hc'⟩ := hclash.mpr ⟨e, he, hc⟩
                    exact hno e' he' hc']
                  refine congrArg Except.ok ?_
                  rw [replace_map, treeOf, firsts_append, if_pos hk]
                  refine List.map_congr_left fun k₂ _ => ?_
                  split_ifs with hk₂
                  · rw [hk₂, entryOf, valueAt_append_of_ne es hne, hvalue, under_append, if_pos rfl]
                  · rw [entryOf_append_of_ne es hk₂]
                    rfl
                · obtain ⟨taken, htaken⟩ := herror (hclash.mp hyes)
                  exact ⟨k :: taken, by rw [htaken]⟩
          · rw [if_neg hk]
            refine ⟨fun _ => ?_, fun ⟨e, he, hclash⟩ => absurd (hfirst e he hclash) hk⟩
            have hnil : Free m ([] : List (List κ × α)) :=
              ⟨fun e he => absurd he List.not_mem_nil, fun e he => absurd he List.not_mem_nil, List.Pairwise.nil⟩
            have hsub := (ih hnil (List.cons_ne_nil _ _) hshort).1 fun e he => absurd he List.not_mem_nil
            rw [treeOf_nil] at hsub
            simp only [hsub]
            refine congrArg Except.ok (hadd _ hk ?_)
            rw [entryOf, valueAt_append_of_ne es hne, valueAt_eq_none.mpr fun b hb => hk (mem_firsts.mpr ⟨[], b, hb⟩),
              under_append, if_pos rfl, under_of_not_mem hk]

/-! ### The order of the paths -/

/-- Two names directly below one directory. -/
def Siblings (es : List (List κ × α)) (k k' : κ) : Prop :=
  ∃ p q q' a a', (p ++ k :: q, a) ∈ es ∧ (p ++ k' :: q', a') ∈ es

theorem valueAt_eq_some (hes : Free n es) {a : α} :
    valueAt k es = some a ↔ ([k], a) ∈ es := by
  refine ⟨mem_of_valueAt, fun he => ?_⟩
  cases hvalue : valueAt k es with
  | none => exact absurd he (valueAt_eq_none.mp hvalue a)
  | some b =>
      -- two paths that are the same clash
      by_contra hne
      have hb := mem_of_valueAt hvalue
      have hpair : ([k], a) ≠ ([k], b) := fun he => hne (by rw [(Prod.mk.inj he).2])
      have hsymm : Std.Symm fun e e' : List κ × α => ¬ Clash e.1 e'.1 := ⟨fun _ _ hc hc' => hc hc'.symm⟩
      exact hes.apart.forall he hb hpair (Or.inl (List.prefix_refl _))

omit [DecidableEq κ] in
theorem Free.perm (h : Free n es) (hp : es.Perm es') : Free n es' where
  nonempty e he := h.nonempty e (hp.mem_iff.mpr he)
  short e he := h.short e (hp.mem_iff.mpr he)
  apart := (hp.pairwise_iff fun hc hc' => hc hc'.symm).mp h.apart

theorem valueAt_perm (hes : Free n es) (hp : es.Perm es') (k : κ) :
    valueAt k es = valueAt k es' := by
  refine Option.ext fun a => ?_
  rw [valueAt_eq_some hes, valueAt_eq_some (hes.perm hp), hp.mem_iff]

/-- **What is computed from the tree** does not depend on the order of the paths, if what is computed for a directory
does not depend on the order of its entries, as long as any two of its names are `Apart`. -/
theorem fold_treeOf_perm {leaf : α → β} {dir : List (κ × β) → β} {Apart : κ → κ → Prop}
    (hdir : ∀ l l', l.Perm l' → (l.map Prod.fst).Nodup →
      (∀ k ∈ l.map Prod.fst, ∀ k' ∈ l.map Prod.fst, k ≠ k' → Apart k k') → dir l = dir l')
    (hes : Free n es) (hp : es.Perm es') (hapart : ∀ k k', Siblings es k k' → k ≠ k' → Apart k k') :
    fold leaf dir (.dir (treeOf n es)) = fold leaf dir (.dir (treeOf n es')) := by
  induction n generalizing es es' with
  | zero => rfl
  | succ n ih =>
      rw [fold_dir, fold_dir, treeOf, treeOf, List.map_map, List.map_map]
      have hsame : ∀ k, fold leaf dir (entryOf (treeOf n) es k) = fold leaf dir (entryOf (treeOf n) es' k) := by
        intro k
        rw [entryOf, entryOf, ← valueAt_perm hes hp]
        cases valueAt k es with
        | some a => rfl
        | none =>
            refine ih (hes.under k) (hp.filterMap _) fun k₁ k₂ hs => hapart k₁ k₂ ?_
            obtain ⟨p, q, q', a, a', h₁, h₂⟩ := hs
            exact ⟨k :: p, q, q', a, a', (mem_under.mp h₁).2, (mem_under.mp h₂).2⟩
      have hnames : ∀ es : List (List κ × α),
          (((firsts es).map ((fun e => (e.1, fold leaf dir e.2)) ∘ fun k => (k, entryOf (treeOf n) es k))).map Prod.fst) =
            firsts es := by
        intro es
        rw [List.map_map]
        exact List.map_id _
      have hrest : (firsts es').map ((fun e => (e.1, fold leaf dir e.2)) ∘ fun k => (k, entryOf (treeOf n) es' k)) =
          (firsts es').map ((fun e => (e.1, fold leaf dir e.2)) ∘ fun k => (k, entryOf (treeOf n) es k)) :=
        List.map_congr_left fun k _ => by simp only [Function.comp, hsame]
      rw [hrest]
      refine hdir _ _ ((firsts_perm hp).map _) ?_ ?_
      · rw [hnames]
        exact nodup_firsts es
      · rw [hnames]
        intro k hk k' hk'
        obtain ⟨q, a, h₁⟩ := mem_firsts.mp hk
        obtain ⟨q', a', h₂⟩ := mem_firsts.mp hk'
        exact hapart k k' ⟨[], q, q', a, a', h₁, h₂⟩

end PathTree
end BrowserMesh.PathTrees
