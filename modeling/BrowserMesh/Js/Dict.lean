import BrowserMesh.Js.Text

/-! # Maps, sets and plain objects

* `JsMap κ ν` is the language's `Map`: its entries in insertion order, without repeated
  keys; setting a present key keeps its place, setting a new one appends it.  Iteration
  order is observable (a loop over a map sums, copies or serialises in that order), so two
  maps are compared either by their entries or by what they look up (`JsMap.Same`);
  `Same` maps have the same entries up to order (`Same.perm`).
* `JsMap.mergeWith` is the loop `for [k, v] of n: m.set(k, f(m.get(k), v))`.
* `JsSet α` is the language's `Set`.
* `JsObject ν` is a plain object seen through its own enumerable properties.  Assigning to
  `__proto__` on an object without such an own property reaches the setter of
  `Object.prototype` and leaves the own properties alone (`JsObject.assign`); the prototype
  it sets is not kept, so results about objects that get another one leave that key out.
  `Object.entries` lists array indices first, in numeric order (`JsObject.entries`).
  Reading a name that is not an own property may find one of the inherited ones
  (`JsObject.read`). -/

namespace BrowserMesh.Js

variable {κ ν α : Type}

/-! ### Sorting -/

/-- The comparison of `sort((a, b) => f(a) - f(b))`; the sort is stable. -/
def byRank {β : Type} [LE β] (f : α → β) (a b : α) : Prop := f a ≤ f b

section byRank
variable {β : Type} [LinearOrder β] (f : α → β)

instance : DecidableRel (byRank f) := fun a b => inferInstanceAs (Decidable (f a ≤ f b))

instance : Std.Total (byRank f) := ⟨fun a b => le_total (f a) (f b)⟩

instance : IsTrans α (byRank f) := ⟨fun _ _ _ => le_trans⟩

end byRank

/-! ### Association lists -/

section lookup
variable [DecidableEq κ]

/-- The first value stored under `k`. -/
def assoc (k : κ) : List (κ × ν) → Option ν
  | [] => none
  | (k', v) :: l => if k' = k then some v else assoc k l

theorem assoc_append (k : κ) (l l' : List (κ × ν)) :
    assoc k (l ++ l') = (assoc k l).or (assoc k l') := by
  induction l with
  | nil => rfl
  | cons e l ih =>
      simp only [List.cons_append, assoc]
      split_ifs <;> simp [ih]

variable {l : List (κ × ν)}

theorem assoc_eq_none_iff {k : κ} : assoc k l = none ↔ k ∉ l.map Prod.fst := by
  induction l with
  | nil => simp [assoc]
  | cons e l ih =>
      simp only [assoc, List.map_cons, List.mem_cons, not_or]
      split_ifs with h
      · simp [h]
      · rw [ih]
        exact ⟨fun hl => ⟨fun h' => h h'.symm, hl⟩, fun hl => hl.2⟩

theorem mem_of_assoc {k : κ} {v : ν} (h : assoc k l = some v) : (k, v) ∈ l := by
  induction l with
  | nil => simp [assoc] at h
  | cons e l ih =>
      simp only [assoc] at h
      split_ifs at h with hk
      · rw [← hk, ← Option.some.inj h]; exact List.mem_cons_self
      · exact List.mem_cons_of_mem e (ih h)

theorem assoc_of_mem {k : κ} {v : ν} (hn : (l.map Prod.fst).Nodup) (h : (k, v) ∈ l) : assoc k l = some v := by
  induction l with
  | nil => cases h
  | cons e l ih =>
      rw [List.map_cons, List.nodup_cons] at hn
      rcases List.mem_cons.mp h with rfl | h
      · simp [assoc]
      · have hne : e.1 ≠ k := by
          rintro rfl
          exact hn.1 (List.mem_map.mpr ⟨_, h, rfl⟩)
        simp only [assoc, if_neg hne]
        exact ih hn.2 h

theorem assoc_map {μ : Type} (f : ν → μ) (k : κ) (l : List (κ × ν)) :
    assoc k (l.map (fun e => (e.1, f e.2))) = (assoc k l).map f := by
  induction l with
  | nil => rfl
  | cons e l ih =>
      simp only [List.map_cons, assoc]
      split_ifs
      · rfl
      · exact ih

/-- Replace the value stored under a key, keeping its place. -/
def replace (k : κ) (v : ν) (l : List (κ × ν)) : List (κ × ν) :=
  l.map (fun e => if e.1 = k then (e.1, v) else e)

theorem replace_fst (k : κ) (v : ν) (l : List (κ × ν)) :
    (replace k v l).map Prod.fst = l.map Prod.fst := by
  simp only [replace, List.map_map]
  apply List.map_congr_left
  intro e _
  simp only [Function.comp]
  split_ifs <;> rfl

theorem assoc_replace (k : κ) (v : ν) (l : List (κ × ν)) (k' : κ) :
    assoc k' (replace k v l) = if k' = k then (assoc k l).map (fun _ => v) else assoc k' l := by
  induction l with
  | nil => simp [replace, assoc]
  | cons e l ih =>
      have e1 : replace k v (e :: l) = (if e.1 = k then (e.1, v) else e) :: replace k v l := rfl
      rw [e1]
      by_cases h : e.1 = k
      · subst h
        by_cases h' : k' = e.1
        · simp [assoc, h']
        · have hne : ¬ e.1 = k' := fun h'' => h' h''.symm
          simp [assoc, h', hne, ih]
      · by_cases h' : e.1 = k'
        · have hne : ¬ k' = k := fun h'' => h (h'.trans h'')
          simp [assoc, h', hne]
        · simp only [if_neg h, assoc, if_neg h', ih]

end lookup

/-! ### `Map` -/

/-- A `Map`: its entries in insertion order, every key once. -/
structure JsMap (κ ν : Type) where
  entries : List (κ × ν)
  nodup : (entries.map Prod.fst).Nodup
deriving DecidableEq

namespace JsMap

variable {m n : JsMap κ ν}

@[ext] theorem ext (h : m.entries = n.entries) : m = n := by
  cases m; cases n; cases h; rfl

/-- `new Map()`. -/
def empty : JsMap κ ν := ⟨[], List.nodup_nil⟩

def keys (m : JsMap κ ν) : List κ := m.entries.map Prod.fst

def values (m : JsMap κ ν) : List ν := m.entries.map Prod.snd

def size (m : JsMap κ ν) : ℕ := m.entries.length

variable [DecidableEq κ]

def get? (m : JsMap κ ν) (k : κ) : Option ν := assoc k m.entries

def has (m : JsMap κ ν) (k : κ) : Bool := (m.get? k).isSome

/-- `m.set(k, v)`. -/
def set (m : JsMap κ ν) (k : κ) (v : ν) : JsMap κ ν :=
  if h : k ∈ m.keys then ⟨replace k v m.entries, by rw [replace_fst]; exact m.nodup⟩
  else ⟨m.entries ++ [(k, v)], by
    rw [List.map_append, List.map_cons, List.map_nil, List.nodup_append]
    exact ⟨m.nodup, List.nodup_singleton k, fun a ha b hb => by
      rw [List.mem_singleton.mp hb]; rintro rfl; exact h ha⟩⟩

/-- `m.delete(k)`. -/
def delete (m : JsMap κ ν) (k : κ) : JsMap κ ν :=
  ⟨m.entries.filter (fun e => e.1 ≠ k), m.nodup.sublist (List.filter_sublist.map Prod.fst)⟩

/-- `new Map(iterable)`. -/
def ofEntries (l : List (κ × ν)) : JsMap κ ν := l.foldl (fun m e => m.set e.1 e.2) empty

/-- `for [k, v] of n: m.set(k, f(m.get(k), v))`. -/
def mergeWith (f : Option ν → ν → ν) (m n : JsMap κ ν) : JsMap κ ν :=
  n.entries.foldl (fun acc e => acc.set e.1 (f (acc.get? e.1) e.2)) m

/-- Two maps that look up the same. -/
def Same (m n : JsMap κ ν) : Prop := ∀ k, m.get? k = n.get? k

@[simp] theorem get?_empty (k : κ) : (empty : JsMap κ ν).get? k = none := rfl

variable {k : κ}

theorem mem_entries_iff {v : ν} : (k, v) ∈ m.entries ↔ m.get? k = some v :=
  ⟨assoc_of_mem m.nodup, mem_of_assoc⟩

theorem get?_eq_none_iff : m.get? k = none ↔ k ∉ m.keys := assoc_eq_none_iff

theorem has_iff : m.has k = true ↔ k ∈ m.keys := by
  rw [has, Option.isSome_iff_ne_none, ne_eq, get?_eq_none_iff, not_not]

@[simp] theorem get?_set (m : JsMap κ ν) (k : κ) (v : ν) (k' : κ) :
    (m.set k v).get? k' = if k' = k then some v else m.get? k' := by
  unfold set get?
  split_ifs with h hk hk
  · simp only [assoc_replace, hk, if_true]
    obtain ⟨w, hw⟩ := Option.ne_none_iff_exists'.mp (fun h0 => assoc_eq_none_iff.mp h0 h)
    rw [hw]; rfl
  · simp only [assoc_replace, if_neg hk]
  · simp only [assoc_append, hk, assoc_eq_none_iff.mpr h]
    simp [assoc]
  · simp only [assoc_append]
    simp [assoc, Ne.symm hk]

@[simp] theorem get?_delete (m : JsMap κ ν) (k k' : κ) :
    (m.delete k).get? k' = if k' = k then none else m.get? k' := by
  have key : ∀ l : List (κ × ν),
      assoc k' (l.filter (fun e => e.1 ≠ k)) = if k' = k then none else assoc k' l := by
    intro l
    induction l with
    | nil => simp [assoc]
    | cons e l ih =>
        by_cases h : e.1 = k
        · rw [List.filter_cons_of_neg (by simp [h]), ih]
          split_ifs with hk
          · rfl
          · have hne : ¬ e.1 = k' := fun h' => hk (h'.symm.trans h)
            simp [assoc, hne]
        · rw [List.filter_cons_of_pos (by simp [h])]
          simp only [assoc, ih]
          split_ifs with hk hk'
          · exact absurd (hk.trans hk') h
          · rfl
          · rfl
          · rfl
  exact key m.entries

theorem keys_set (m : JsMap κ ν) (k : κ) (v : ν) :
    (m.set k v).keys = if k ∈ m.keys then m.keys else m.keys ++ [k] := by
  unfold set
  split_ifs with h
  · exact replace_fst k v m.entries
  · simp [keys]

def sumBy (f : ν → ℕ) (m : JsMap κ ν) : ℕ := (m.entries.map fun e => f e.2).sum

variable {l : List (κ × ν)}

theorem sum_replace (f : ν → ℕ) {v v₀ : ν} (hn : (l.map Prod.fst).Nodup) (h : assoc k l = some v₀) :
    ((replace k v l).map fun e => f e.2).sum + f v₀ = (l.map fun e => f e.2).sum + f v := by
  induction l with
  | nil => cases h
  | cons e l ih =>
      rw [List.map_cons, List.nodup_cons] at hn
      have hcons : replace k v (e :: l) = (if e.1 = k then (e.1, v) else e) :: replace k v l := rfl
      rw [hcons, List.map_cons, List.sum_cons, List.map_cons, List.sum_cons]
      rw [assoc] at h
      split_ifs at h ⊢ with hk
      · have habsent : replace k v l = l := by
          refine (List.map_congr_left fun e' he' => if_neg ?_).trans (List.map_id l)
          rintro hk'
          exact hn.1 (List.mem_map.mpr ⟨e', he', hk'.trans hk.symm⟩)
        rw [habsent, ← Option.some.inj h]
        dsimp only
        omega
      · have hrest := ih hn.2 h
        omega

theorem sumBy_set (f : ν → ℕ) (m : JsMap κ ν) (k : κ) (v : ν) :
    (m.set k v).sumBy f + ((m.get? k).elim 0 f) = m.sumBy f + f v := by
  unfold set
  split_ifs with h
  · obtain ⟨v₀, hv₀⟩ := Option.isSome_iff_exists.mp (has_iff.mpr h)
    rw [hv₀]
    exact sum_replace f m.nodup hv₀
  · rw [get?_eq_none_iff.mpr h]
    change ((m.entries ++ [(k, v)]).map fun e => f e.2).sum + 0 = _
    rw [List.map_append, List.sum_append]
    rfl

/-- Setting what is there changes nothing, the order included. -/
theorem set_eq_self {v : ν} (h : m.get? k = some v) : m.set k v = m := by
  have hk : k ∈ m.keys := has_iff.mp (by rw [has, h]; rfl)
  have hrep : replace k v m.entries = m.entries := by
    have he : ∀ e ∈ m.entries, (if e.1 = k then (e.1, v) else e) = e := by
      rintro ⟨k', v'⟩ he
      split_ifs with hk'
      · have hv : m.get? k' = some v' := mem_entries_iff.mp he
        rw [show k' = k from hk', h] at hv
        rw [Option.some.inj hv]
      · rfl
    exact (List.map_congr_left he).trans (List.map_id _)
  unfold set
  rw [dif_pos hk]
  exact ext hrep

theorem Same.perm (h : m.Same n) : m.entries.Perm n.entries := by
  refine (List.perm_ext_iff_of_nodup (List.Nodup.of_map _ m.nodup) (List.Nodup.of_map _ n.nodup)).mpr ?_
  rintro ⟨k, v⟩
  rw [mem_entries_iff, mem_entries_iff, h k]

/-- An entry that is there, set apart from the others. -/
theorem entries_perm_of_get? {v : ν} (h : m.get? k = some v) :
    m.entries.Perm ((k, v) :: (m.delete k).entries) := by
  have hnot : (k, v) ∉ (m.delete k).entries := by
    intro hmem
    rw [mem_entries_iff, get?_delete, if_pos rfl] at hmem
    cases hmem
  refine (List.perm_ext_iff_of_nodup (List.Nodup.of_map _ m.nodup)
    (List.nodup_cons.mpr ⟨hnot, List.Nodup.of_map _ (m.delete k).nodup⟩)).mpr ?_
  rintro ⟨k', v'⟩
  rw [List.mem_cons, mem_entries_iff, mem_entries_iff, get?_delete]
  split_ifs with hk
  · subst hk
    simp [h, eq_comm]
  · simp [hk]

/-- A new value for a key: the other entries are as they were. -/
theorem set_entries_perm (m : JsMap κ ν) (k : κ) (v : ν) :
    (m.set k v).entries.Perm ((k, v) :: (m.delete k).entries) := by
  refine (entries_perm_of_get? (by rw [get?_set, if_pos rfl])).trans (List.Perm.cons _ ?_)
  refine Same.perm fun k' => ?_
  rw [get?_delete, get?_delete, get?_set]
  split_ifs <;> rfl

theorem delete_eq_self (h : m.get? k = none) : m.delete k = m := by
  refine ext (List.filter_eq_self.mpr fun e he => ?_)
  have hne : e.1 ≠ k := by
    intro hk
    have hget : m.get? e.1 = some e.2 := mem_entries_iff.mp he
    rw [hk, h] at hget
    cases hget
  simpa using hne

theorem Same.symm (h : m.Same n) : n.Same m := fun k => (h k).symm

/-- A loop that updates every key of a list once, if it satisfies `p`. -/
theorem get?_foldl_set_if {μ : Type} (p : κ → Bool) (f : κ → Option ν → μ → ν) (l : List (κ × μ))
    (hl : (l.map Prod.fst).Nodup) (m : JsMap κ ν) (k : κ) :
    (l.foldl (fun acc e => if p e.1 then acc.set e.1 (f e.1 (acc.get? e.1) e.2) else acc) m).get? k =
      match assoc k l with
      | none => m.get? k
      | some v => if p k then some (f k (m.get? k) v) else m.get? k := by
  induction l generalizing m with
  | nil => rfl
  | cons e l ih =>
      rw [List.map_cons, List.nodup_cons] at hl
      rw [List.foldl_cons, ih hl.2]
      by_cases h : e.1 = k
      · have hnone : assoc k l = none := assoc_eq_none_iff.mpr (h ▸ hl.1)
        subst h
        by_cases hp : p e.1 = true <;> simp [assoc, hnone, hp]
      · have h' : ¬ k = e.1 := fun h' => h h'.symm
        by_cases hp : p e.1 = true <;> simp [assoc, h, h', hp]

/-- A loop that updates every key of a list once. -/
theorem get?_foldl_set {μ : Type} (f : κ → Option ν → μ → ν) (l : List (κ × μ))
    (hl : (l.map Prod.fst).Nodup) (m : JsMap κ ν) (k : κ) :
    (l.foldl (fun acc e => acc.set e.1 (f e.1 (acc.get? e.1) e.2)) m).get? k =
      match assoc k l with
      | none => m.get? k
      | some v => some (f k (m.get? k) v) := by
  simpa using get?_foldl_set_if (fun _ => true) f l hl m k

/-- A loop that sets every key of a list once, if none of its steps throws. -/
theorem get?_foldlM_set {μ : Type} {f : κ → μ → Option ν} {l : List (κ × μ)}
    (hl : (l.map Prod.fst).Nodup) {m' : JsMap κ ν}
    (h : l.foldlM (fun acc e => (f e.1 e.2).map (acc.set e.1)) m = some m') (k : κ) :
    match assoc k l with
    | none => m'.get? k = m.get? k
    | some v => ∃ w, f k v = some w ∧ m'.get? k = some w := by
  induction l generalizing m with
  | nil =>
      obtain rfl := Option.some.inj h
      rfl
  | cons e l ih =>
      rw [List.map_cons, List.nodup_cons] at hl
      rw [List.foldlM_cons] at h
      obtain ⟨m₁, hm₁, htail⟩ := Option.bind_eq_some_iff.mp h
      obtain ⟨v, hv, rfl⟩ := Option.map_eq_some_iff.mp hm₁
      have hrest := ih hl.2 htail
      by_cases hk : k = e.1
      · subst hk
        have hnone : assoc e.1 l = none := assoc_eq_none_iff.mpr hl.1
        rw [hnone] at hrest
        simp only [assoc, if_true]
        exact ⟨v, hv, by rw [hrest, get?_set, if_pos rfl]⟩
      · have hne : ¬ e.1 = k := fun h' => hk h'.symm
        simp only [assoc, if_neg hne]
        rw [get?_set, if_neg hk] at hrest
        exact hrest

theorem get?_mergeWith (f : Option ν → ν → ν) (m n : JsMap κ ν) (k : κ) :
    (mergeWith f m n).get? k =
      match n.get? k with
      | none => m.get? k
      | some v => some (f (m.get? k) v) :=
  get?_foldl_set (fun _ => f) n.entries n.nodup m k

/-- Merging what is there changes nothing, the order included. -/
theorem mergeWith_eq_self {f : Option ν → ν → ν}
    (h : ∀ k v, n.get? k = some v → ∃ a, m.get? k = some a ∧ f (some a) v = a) :
    mergeWith f m n = m := by
  have key : ∀ l : List (κ × ν), (∀ e ∈ l, n.get? e.1 = some e.2) →
      l.foldl (fun acc e => acc.set e.1 (f (acc.get? e.1) e.2)) m = m := by
    intro l
    induction l with
    | nil => exact fun _ => rfl
    | cons e l ih =>
        intro hl
        obtain ⟨a, ha, hf⟩ := h e.1 e.2 (hl e List.mem_cons_self)
        rw [List.foldl_cons, ha, hf, set_eq_self ha]
        exact ih fun e' he' => hl e' (List.mem_cons_of_mem e he')
  exact key n.entries fun e he => mem_entries_iff.mp he

/-- Merging known keys keeps the keys and their order. -/
theorem keys_mergeWith {f : Option ν → ν → ν} (h : ∀ k ∈ n.keys, k ∈ m.keys) :
    (mergeWith f m n).keys = m.keys := by
  have key : ∀ (l : List (κ × ν)) (acc : JsMap κ ν), acc.keys = m.keys →
      (∀ e ∈ l, e.1 ∈ m.keys) →
      (l.foldl (fun acc e => acc.set e.1 (f (acc.get? e.1) e.2)) acc).keys = m.keys := by
    intro l
    induction l with
    | nil => exact fun acc hacc _ => hacc
    | cons e l ih =>
        intro acc hacc hl
        refine ih _ ?_ fun e' he' => hl e' (List.mem_cons_of_mem e he')
        rw [keys_set, if_pos (hacc ▸ hl e List.mem_cons_self), hacc]
  exact key n.entries m rfl fun e he => h e.1 (List.mem_map_of_mem he)

theorem get?_ofEntries (hl : (l.map Prod.fst).Nodup) (k : κ) :
    (ofEntries l).get? k = assoc k l := by
  have := get?_foldl_set (fun _ _ v => v) l hl empty k
  rw [ofEntries, this]
  cases assoc k l <;> rfl

theorem get?_ofEntries_const (ks : List κ) (v : ν) (k : κ) :
    (ofEntries (ks.map fun k => (k, v))).get? k = if k ∈ ks then some v else none := by
  have hstep : ∀ m : JsMap κ ν, ((ks.map fun k => (k, v)).foldl (fun m e => m.set e.1 e.2) m).get? k =
      if k ∈ ks then some v else m.get? k := by
    induction ks with
    | nil => exact fun m => rfl
    | cons k' ks ih =>
        intro m
        rw [List.map_cons, List.foldl_cons, ih, get?_set]
        by_cases hk : k ∈ ks <;> by_cases hk' : k = k' <;> simp [hk, hk']
  exact hstep empty

/-- Copying a map keeps its entries and their order. -/
theorem mem_of_get?_ofEntries {v : ν} (h : (ofEntries l).get? k = some v) :
    (k, v) ∈ l := by
  have key : ∀ (l : List (κ × ν)) (m : JsMap κ ν),
      (l.foldl (fun m e => m.set e.1 e.2) m).get? k = some v → (k, v) ∈ l ∨ m.get? k = some v := by
    intro l
    induction l with
    | nil => exact fun m h => Or.inr h
    | cons e l ih =>
        intro m h
        rcases ih (m.set e.1 e.2) h with h | h
        · exact Or.inl (List.mem_cons_of_mem e h)
        · rw [get?_set] at h
          split_ifs at h with hk
          · left
            rw [hk, ← Option.some.inj h]
            exact List.mem_cons_self
          · exact Or.inr h
  exact (key l empty h).resolve_right (by simp)

end JsMap

/-! ### `Set` -/

/-- A `Set`: its elements in insertion order, each once. -/
structure JsSet (α : Type) where
  elems : List α
  nodup : elems.Nodup
deriving DecidableEq

namespace JsSet

variable {s : JsSet α}

@[ext] theorem ext {t : JsSet α} (h : s.elems = t.elems) : s = t := by
  cases s; cases t; cases h; rfl

/-- `new Set()`. -/
def empty : JsSet α := ⟨[], List.nodup_nil⟩

instance : Membership α (JsSet α) := ⟨fun s a => a ∈ s.elems⟩

variable {a : α}

@[simp] theorem mem_elems : a ∈ s.elems ↔ a ∈ s := Iff.rfl

@[simp] theorem not_mem_empty (a : α) : a ∉ (empty : JsSet α) := List.not_mem_nil

variable [DecidableEq α]

def has (s : JsSet α) (a : α) : Bool := decide (a ∈ s.elems)

/-- `s.add(a)`. -/
def add (s : JsSet α) (a : α) : JsSet α :=
  if h : a ∈ s.elems then s
  else ⟨s.elems ++ [a], by
    rw [List.nodup_append]
    exact ⟨s.nodup, List.nodup_singleton a, fun x hx y hy => by
      rw [List.mem_singleton.mp hy]; rintro rfl; exact h hx⟩⟩

/-- `s.delete(a)`. -/
def delete (s : JsSet α) (a : α) : JsSet α :=
  ⟨s.elems.filter (fun b => b ≠ a), s.nodup.sublist List.filter_sublist⟩

/-- `for a of l: s.add(a)`. -/
def addAll (s : JsSet α) (l : List α) : JsSet α := l.foldl add s

/-- `new Set(iterable)`. -/
def ofList (l : List α) : JsSet α := empty.addAll l

instance (a : α) (s : JsSet α) : Decidable (a ∈ s) := inferInstanceAs (Decidable (a ∈ s.elems))

@[simp] theorem has_iff : s.has a = true ↔ a ∈ s := by
  simp [has]

@[simp] theorem mem_add {b : α} : a ∈ s.add b ↔ a ∈ s ∨ a = b := by
  unfold add
  split_ifs with h
  · exact ⟨Or.inl, fun h' => h'.elim id (fun e => e ▸ h)⟩
  · exact List.mem_append.trans (or_congr_right List.mem_singleton)

theorem mem_delete {b : α} : a ∈ s.delete b ↔ a ∈ s ∧ a ≠ b := by
  show a ∈ s.elems.filter (fun c => c ≠ b) ↔ _
  rw [List.mem_filter, decide_eq_true_iff]
  rfl

theorem add_eq_self (h : a ∈ s) : s.add a = s := by
  unfold add
  rw [dif_pos (show a ∈ s.elems from h)]

theorem delete_eq_self (h : a ∉ s) : s.delete a = s := by
  apply ext
  show s.elems.filter (fun b => b ≠ a) = s.elems
  refine List.filter_eq_self.mpr fun b hb => decide_eq_true ?_
  rintro rfl
  exact h hb

theorem elems_add_of_not_mem (h : a ∉ s) : (s.add a).elems = s.elems ++ [a] := by
  unfold add
  rw [dif_neg (show a ∉ s.elems from h)]

@[simp] theorem mem_addAll {l : List α} : a ∈ s.addAll l ↔ a ∈ s ∨ a ∈ l := by
  induction l generalizing s with
  | nil => simp [addAll]
  | cons b l ih =>
      have e : s.addAll (b :: l) = (s.add b).addAll l := rfl
      rw [e, ih, mem_add, List.mem_cons, or_assoc]

@[simp] theorem mem_ofList {l : List α} : a ∈ ofList l ↔ a ∈ l := by
  simp [ofList]

end JsSet

/-! ### Plain objects -/

/-- A plain object: its own enumerable properties, in creation order. -/
structure JsObject (ν : Type) where
  props : JsMap JsString ν
deriving DecidableEq

/-- What reading `obj[k]` finds. -/
inductive Slot (ν : Type) where
  | own (v : ν)
  | inherited
  | absent
deriving DecidableEq

/-- The accessor name `__proto__`. -/
def protoKey : JsString := js "__proto__"

/-- The names every plain object inherits from `Object.prototype`. -/
def inheritedNames : List JsString :=
  [protoKey, js "constructor", js "toString", js "toLocaleString", js "valueOf",
    js "hasOwnProperty", js "isPrototypeOf", js "propertyIsEnumerable", js "__defineGetter__",
    js "__defineSetter__", js "__lookupGetter__", js "__lookupSetter__"]

/-- The array index a property name denotes, if it is one. -/
def arrayIndex (k : JsString) : Option ℕ :=
  match parseDigits k with
  | none => none
  | some n => if decimal n = k ∧ n < 2 ^ 32 - 1 then some n else none

namespace JsObject

/-- `{}`. -/
def empty : JsObject ν := ⟨JsMap.empty⟩

/-- `Object.hasOwn(o, k)`. -/
def hasOwn (o : JsObject ν) (k : JsString) : Bool := o.props.has k

/-- `o[k] = v` on an object whose prototype is `Object.prototype`. -/
def assign (o : JsObject ν) (k : JsString) (v : ν) : JsObject ν :=
  if k = protoKey ∧ o.hasOwn k = false then o else ⟨o.props.set k v⟩

/-- `delete o[k]`. -/
def delete (o : JsObject ν) (k : JsString) : JsObject ν := ⟨o.props.delete k⟩

/-- `o[k]`. -/
def read (o : JsObject ν) (k : JsString) : Slot ν :=
  match o.props.get? k with
  | some v => .own v
  | none => if k ∈ inheritedNames then .inherited else .absent

/-- `Object.entries(o)`: array indices in numeric order, then the other names. -/
def entries (o : JsObject ν) : List (JsString × ν) :=
  (o.props.entries.filter (fun e => (arrayIndex e.1).isSome)).insertionSort
      (byRank (fun e => (arrayIndex e.1).getD 0)) ++
    o.props.entries.filter (fun e => !(arrayIndex e.1).isSome)

/-- `for [k, v] of l: o[k] = v`. -/
def assignAll (o : JsObject ν) (l : List (JsString × ν)) : JsObject ν :=
  l.foldl (fun o e => o.assign e.1 e.2) o

theorem entries_perm (o : JsObject ν) : o.entries.Perm o.props.entries :=
  ((List.perm_insertionSort _ _).append_right _).trans (List.filter_append_perm _ _)

theorem entries_nodup (o : JsObject ν) : (o.entries.map Prod.fst).Nodup :=
  ((o.entries_perm.map Prod.fst).nodup_iff).mpr o.props.nodup

/-- Rebuilding a map from an object's entries looks up the own properties. -/
theorem get?_ofEntries_entries (o : JsObject ν) (k : JsString) :
    (JsMap.ofEntries o.entries).get? k = o.props.get? k := by
  rw [JsMap.get?_ofEntries o.entries_nodup]
  cases h : o.props.get? k with
  | none =>
      rw [assoc_eq_none_iff, (o.entries_perm.map Prod.fst).mem_iff]
      exact JsMap.get?_eq_none_iff.mp h
  | some v =>
      exact assoc_of_mem o.entries_nodup (o.entries_perm.mem_iff.mpr (JsMap.mem_entries_iff.mpr h))

theorem get?_assign_of_ne {o : JsObject ν} {k : JsString} (hk : k ≠ protoKey) (v : ν) (k' : JsString) :
    (o.assign k v).props.get? k' = if k' = k then some v else o.props.get? k' := by
  unfold assign
  rw [if_neg (fun h => hk h.1), JsMap.get?_set]

/-- Filling a fresh object from distinct names keeps them all, except `__proto__`. -/
theorem get?_assignAll_empty (l : List (JsString × ν)) (hl : (l.map Prod.fst).Nodup) (k : JsString) :
    ((empty : JsObject ν).assignAll l).props.get? k = if k = protoKey then none else assoc k l := by
  have key : ∀ (l : List (JsString × ν)) (o : JsObject ν), (l.map Prod.fst).Nodup →
      o.props.get? protoKey = none →
      (o.assignAll l).props.get? k =
        if k = protoKey then none else (assoc k l).or (o.props.get? k) := by
    intro l
    induction l with
    | nil =>
        intro o _ ho
        show o.props.get? k = _
        split_ifs with h
        · rw [h, ho]
        · rfl
    | cons e l ih =>
        intro o hl ho
        rw [List.map_cons, List.nodup_cons] at hl
        have e1 : o.assignAll (e :: l) = (o.assign e.1 e.2).assignAll l := rfl
        rw [e1]
        by_cases hp : e.1 = protoKey
        · have hsame : o.assign e.1 e.2 = o := by
            unfold assign
            rw [if_pos ⟨hp, by rw [hasOwn, JsMap.has, hp, ho]; rfl⟩]
          rw [hsame, ih o hl.2 ho]
          by_cases hk : k = protoKey
          · simp [hk]
          · have hne : ¬ e.1 = k := fun h => hk (h ▸ hp)
            simp [hk, assoc, hne]
        · rw [ih _ hl.2 (by rw [get?_assign_of_ne hp, if_neg (fun h => hp h.symm), ho]),
            get?_assign_of_ne hp]
          by_cases hk : e.1 = k
          · have hnone : assoc k l = none := assoc_eq_none_iff.mpr (hk ▸ hl.1)
            simp [assoc, hk, hnone]
          · have hk' : ¬ k = e.1 := fun h => hk h.symm
            simp [assoc, hk, hk']
  rw [key l empty hl rfl]
  split_ifs <;> simp [empty]

end JsObject
end BrowserMesh.Js
