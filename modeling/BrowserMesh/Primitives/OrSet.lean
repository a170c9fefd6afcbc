import BrowserMesh.Js.Dict
import BrowserMesh.Library.Replication

/-! # Observed-remove set

* `ORSet`: for every element the set of the tags of its adds, the set of tombstoned tags,
  and a counter.  `add` tags the element `nodeId:counter`; `remove` tombstones the tags
  the element has now; an element is present when one of its tags is not a tombstone.
* **The counter is not stored.**  After a merge or a load it is recomputed from the tags
  (`maxCounter`): one more than the greatest number behind the last `:` of a tag.  It stays above
  the number of every tag of the set (`Fresh`), whatever the node ids contain.
* **Runs.**  A state is described by its history (`Described`): its tags are those of its adds, its
  tombstones the tags its removes found.  With fresh tags (`tagOf_inj`) presence is the
  observed-remove rule (`observed_remove`). -/

namespace BrowserMesh.Primitives

open Js Replication

variable {α : Type}

structure ORSet (α : Type) where
  elements : JsMap α (JsSet JsString)
  tombstones : JsSet JsString
  counter : ℕ
deriving DecidableEq

namespace ORSet

/-- `new ORSet()`. -/
def new : ORSet α := ⟨JsMap.empty, JsSet.empty, 0⟩

/-- The step of the counter loop: `if (!isNaN(num) && num >= max) max = num + 1`. -/
def bumpCounter (max : ℕ) (tag : JsString) : ℕ :=
  match parseInt (lastPart colon tag) with
  | none => max
  | some num => if (max : ℤ) ≤ num then (num + 1).toNat else max

/-- The counter recomputed from the tags. -/
def maxCounter (elements : JsMap α (JsSet JsString)) : ℕ :=
  elements.values.foldl (fun max tags => tags.elems.foldl bumpCounter max) 0

/-- `_setInternal`. -/
def setInternal (elements : JsMap α (JsSet JsString)) (tombstones : JsSet JsString) : ORSet α :=
  ⟨elements, tombstones, maxCounter elements⟩

/-- Some tag of the set is not a tombstone. -/
def live (s : ORSet α) (tags : JsSet JsString) : Bool := tags.elems.any fun tag => !s.tombstones.has tag

variable [DecidableEq α]

def value (s : ORSet α) : JsSet α :=
  s.elements.entries.foldl (fun result e => if s.live e.2 then result.add e.1 else result) JsSet.empty

def has (s : ORSet α) (element : α) : Bool :=
  match s.elements.get? element with
  | none => false
  | some tags => s.live tags

def add (s : ORSet α) (element : α) (nodeId : JsString) : ORSet α :=
  let tag := tagged nodeId s.counter
  let elements := if s.elements.has element then s.elements else s.elements.set element JsSet.empty
  ⟨elements.set element (((elements.get? element).getD JsSet.empty).add tag), s.tombstones, s.counter + 1⟩

def remove (s : ORSet α) (element : α) : ORSet α :=
  match s.elements.get? element with
  | none => s
  | some tags => ⟨s.elements, s.tombstones.addAll tags.elems, s.counter⟩

def merge (s other : ORSet α) : ORSet α :=
  setInternal
    (JsMap.mergeWith (fun existing tags => (existing.getD JsSet.empty).addAll tags.elems) s.elements
      other.elements)
    (JsSet.ofList (s.tombstones.elems ++ other.tombstones.elems))

/-- The serialised form: the tags of every element, and the tombstones. -/
structure Json (α : Type) where
  elements : List (α × List JsString)
  tombstones : List JsString

omit [DecidableEq α] in
def toJSON (s : ORSet α) : Json α :=
  ⟨s.elements.entries.map (fun e => (e.1, e.2.elems)), s.tombstones.elems⟩

def fromJSON (data : Json α) : ORSet α :=
  setInternal (JsMap.ofEntries (data.elements.map (fun e => (e.1, JsSet.ofList e.2))))
    (JsSet.ofList data.tombstones)

/-! ### Tags and the counter -/

def tags (s : ORSet α) (element : α) : JsSet JsString :=
  (s.elements.get? element).getD JsSet.empty

/-- The counter is above the number of every tag. -/
def Fresh (s : ORSet α) : Prop := ∀ element p n, tagged p n ∈ s.tags element → n < s.counter

theorem le_bumpCounter (max : ℕ) (tag : JsString) : max ≤ bumpCounter max tag := by
  unfold bumpCounter
  split
  · exact le_rfl
  · split_ifs <;> omega

theorem lt_bumpCounter (max : ℕ) (p : JsString) (n : ℕ) : n < bumpCounter max (tagged p n) := by
  unfold bumpCounter
  rw [parseInt_lastPart_tagged]
  simp only []
  split_ifs <;> omega

theorem le_foldl_bumpCounter (max : ℕ) (l : List JsString) : max ≤ l.foldl bumpCounter max := by
  induction l generalizing max with
  | nil => exact le_rfl
  | cons tag l ih => exact (le_bumpCounter max tag).trans (ih _)

theorem lt_foldl_bumpCounter (max : ℕ) {l : List JsString} {p : JsString} {n : ℕ}
    (h : tagged p n ∈ l) : n < l.foldl bumpCounter max := by
  induction l generalizing max with
  | nil => cases h
  | cons tag l ih =>
      rcases List.mem_cons.mp h with rfl | h
      · exact lt_of_lt_of_le (lt_bumpCounter max p n) (le_foldl_bumpCounter _ l)
      · exact ih _ h

omit [DecidableEq α] in
/-- The recomputed counter is above the number of every tag. -/
theorem lt_maxCounter {elements : JsMap α (JsSet JsString)} {ts : JsSet JsString} {p : JsString}
    {n : ℕ} (hts : ts ∈ elements.values) (h : tagged p n ∈ ts.elems) : n < maxCounter elements := by
  have hle : ∀ (l : List (JsSet JsString)) (max : ℕ),
      max ≤ l.foldl (fun max tags => tags.elems.foldl bumpCounter max) max := by
    intro l
    induction l with
    | nil => exact fun max => le_rfl
    | cons t l ih => exact fun max => (le_foldl_bumpCounter max t.elems).trans (ih _)
  have hlt : ∀ (l : List (JsSet JsString)) (max : ℕ), ts ∈ l →
      n < l.foldl (fun max tags => tags.elems.foldl bumpCounter max) max := by
    intro l
    induction l with
    | nil => exact fun max h => by cases h
    | cons t l ih =>
        intro max hmem
        rcases List.mem_cons.mp hmem with rfl | hmem
        · exact lt_of_lt_of_le (lt_foldl_bumpCounter max h) (hle l _)
        · exact ih _ hmem
  exact hlt _ 0 hts

theorem fresh_setInternal (elements : JsMap α (JsSet JsString)) (tombstones : JsSet JsString) :
    (setInternal elements tombstones).Fresh := by
  intro element p n h
  unfold tags setInternal at h
  cases hg : elements.get? element with
  | none => rw [hg] at h; exact absurd h (JsSet.not_mem_empty _)
  | some ts =>
      rw [hg] at h
      exact lt_maxCounter (List.mem_map.mpr ⟨_, JsMap.mem_entries_iff.mpr hg, rfl⟩) h

/-! ### What the operations do to tags and tombstones -/

theorem mem_tags_add (s : ORSet α) (x : α) (i : JsString) (y : α) (tag : JsString) :
    tag ∈ (s.add x i).tags y ↔ tag ∈ s.tags y ∨ (y = x ∧ tag = tagged i s.counter) := by
  have hold : ((if s.elements.has x then s.elements else s.elements.set x JsSet.empty).get? y).getD
      JsSet.empty = s.tags y := by
    split_ifs with h
    · rfl
    · rw [JsMap.get?_set]
      split_ifs with hy
      · subst hy
        have : s.elements.get? y = none := by
          simpa [JsMap.has] using h
        rw [tags, this]
        rfl
      · rfl
  simp only [add, tags, JsMap.get?_set]
  by_cases hy : y = x
  · subst hy
    rw [if_pos rfl, Option.getD_some, JsSet.mem_add, hold]
    simp [tags]
  · rw [if_neg hy, hold]
    simp [tags, hy]

@[simp] theorem tombstones_add (s : ORSet α) (x : α) (i : JsString) :
    (s.add x i).tombstones = s.tombstones := rfl

@[simp] theorem counter_add (s : ORSet α) (x : α) (i : JsString) :
    (s.add x i).counter = s.counter + 1 := rfl

@[simp] theorem tags_remove (s : ORSet α) (x y : α) : (s.remove x).tags y = s.tags y := by
  unfold remove
  split <;> rfl

theorem mem_tombstones_remove (s : ORSet α) (x : α) (tag : JsString) :
    tag ∈ (s.remove x).tombstones ↔ tag ∈ s.tombstones ∨ tag ∈ s.tags x := by
  unfold remove tags
  cases s.elements.get? x with
  | none => simp
  | some ts => simp 

@[simp] theorem counter_remove (s : ORSet α) (x : α) : (s.remove x).counter = s.counter := by
  unfold remove
  split <;> rfl

theorem mem_tags_merge (s t : ORSet α) (x : α) (tag : JsString) :
    tag ∈ (s.merge t).tags x ↔ tag ∈ s.tags x ∨ tag ∈ t.tags x := by
  simp only [merge, setInternal, tags, JsMap.get?_mergeWith]
  cases t.elements.get? x with
  | none => simp
  | some ts => simp 

theorem mem_tombstones_merge (s t : ORSet α) (tag : JsString) :
    tag ∈ (s.merge t).tombstones ↔ tag ∈ s.tombstones ∨ tag ∈ t.tombstones := by
  simp [merge, setInternal]

theorem mem_tags_reload (s : ORSet α) (x : α) (tag : JsString) :
    tag ∈ (fromJSON s.toJSON).tags x ↔ tag ∈ s.tags x := by
  have hmap : (s.toJSON.elements.map (fun e => (e.1, JsSet.ofList e.2))) =
      s.elements.entries.map (fun e => (e.1, JsSet.ofList e.2.elems)) := by
    simp [toJSON]
  have hkeys : ((s.elements.entries.map (fun e => (e.1, JsSet.ofList e.2.elems))).map
      Prod.fst).Nodup := by
    rw [List.map_map]
    exact s.elements.nodup
  simp only [fromJSON, setInternal, tags, hmap, JsMap.get?_ofEntries hkeys]
  rw [assoc_map (fun ts : JsSet JsString => JsSet.ofList ts.elems)]
  show _ ↔ tag ∈ (assoc x s.elements.entries).getD JsSet.empty
  cases assoc x s.elements.entries with
  | none => simp
  | some ts => simp 

theorem mem_tombstones_reload (s : ORSet α) (tag : JsString) :
    tag ∈ (fromJSON s.toJSON).tombstones ↔ tag ∈ s.tombstones := by
  simp [fromJSON, toJSON, setInternal]

/-- Presence: some tag of the element is not a tombstone. -/
theorem has_iff (s : ORSet α) (x : α) :
    s.has x = true ↔ ∃ tag ∈ s.tags x, tag ∉ s.tombstones := by
  unfold has tags
  cases s.elements.get? x with
  | none => simp
  | some ts => simp [live, JsSet.has]

/-- The value lists the present elements in the order of the keys. -/
theorem elems_value (s : ORSet α) : s.value.elems = s.elements.keys.filter s.has := by
  have key : ∀ (l : List (α × JsSet JsString)) (r : JsSet α), (l.map Prod.fst).Nodup →
      (∀ e ∈ l, e.1 ∉ r) → (∀ e ∈ l, s.elements.get? e.1 = some e.2) →
      (l.foldl (fun result e => if s.live e.2 then result.add e.1 else result) r).elems =
        r.elems ++ (l.map Prod.fst).filter s.has := by
    intro l
    induction l with
    | nil => simp
    | cons e l ih =>
        intro r hn hr hget
        rw [List.map_cons, List.nodup_cons] at hn
        have hhas : s.has e.1 = s.live e.2 := by rw [has, hget e List.mem_cons_self]
        have hget' := fun e' he' => hget e' (List.mem_cons_of_mem e he')
        have hr' : ∀ e' ∈ l, e'.1 ∉ r := fun e' he' => hr e' (List.mem_cons_of_mem e he')
        rw [List.foldl_cons, List.map_cons]
        by_cases hl : s.live e.2 = true
        · have hadd := JsSet.elems_add_of_not_mem (hr e List.mem_cons_self)
          have hfresh : ∀ e' ∈ l, e'.1 ∉ r.add e.1 := by
            intro e' he' hm
            rcases JsSet.mem_add.mp hm with hm | heq
            · exact hr' e' he' hm
            · exact hn.1 (heq ▸ List.mem_map_of_mem he')
          rw [if_pos hl, ih _ hn.2 hfresh hget', hadd, List.filter_cons_of_pos (hhas.trans hl),
            List.append_assoc]
          rfl
        · rw [if_neg hl, ih _ hn.2 hr' hget', List.filter_cons_of_neg (by rwa [hhas])]
  have := key s.elements.entries JsSet.empty s.elements.nodup (fun e _ => JsSet.not_mem_empty e.1)
    fun e he => JsMap.mem_entries_iff.mp he
  simpa [value, JsSet.empty, JsMap.keys] using this

theorem mem_value (s : ORSet α) (x : α) : x ∈ s.value ↔ s.has x = true := by
  rw [← JsSet.mem_elems, elems_value, List.mem_filter, and_iff_right_of_imp]
  intro h
  rw [← JsMap.has_iff, JsMap.has]
  unfold has at h
  cases hg : s.elements.get? x with
  | none => rw [hg] at h; cases h
  | some ts => rfl

/-! ### Merging what is known -/

/-- Every element of the map has a tag. -/
def Tagged (s : ORSet α) : Prop := ∀ x ∈ s.elements.keys, ∃ tag, tag ∈ s.tags x

variable {s : ORSet α}

theorem mem_keys_of_tag {x : α} {tag : JsString} (h : tag ∈ s.tags x) :
    x ∈ s.elements.keys := by
  rw [← JsMap.has_iff, JsMap.has]
  unfold tags at h
  cases hg : s.elements.get? x with
  | none => rw [hg] at h; exact absurd h (JsSet.not_mem_empty tag)
  | some ts => rfl

theorem tagged_new : (new : ORSet α).Tagged := fun x hx => by cases hx

theorem tagged_add (hs : s.Tagged) (x : α) (i : JsString) : (s.add x i).Tagged := by
  intro y hy
  by_cases hyx : y = x
  · exact ⟨tagged i s.counter, (mem_tags_add s x i y _).mpr (Or.inr ⟨hyx, rfl⟩)⟩
  · have hy' : y ∈ s.elements.keys := by
      rw [← JsMap.has_iff, JsMap.has] at hy ⊢
      simp only [add, JsMap.get?_set, if_neg hyx] at hy
      split_ifs at hy
      · exact hy
      · rwa [JsMap.get?_set, if_neg hyx] at hy
    obtain ⟨tag, htag⟩ := hs y hy'
    exact ⟨tag, (mem_tags_add s x i y tag).mpr (Or.inl htag)⟩

theorem tagged_remove (hs : s.Tagged) (x : α) : (s.remove x).Tagged := by
  intro y hy
  have : (s.remove x).elements = s.elements := by
    unfold remove
    split <;> rfl
  rw [this] at hy
  simpa using hs y hy

theorem tagged_merge {t : ORSet α} (hs : s.Tagged) (ht : t.Tagged) : (s.merge t).Tagged := by
  intro x hx
  have hx' : x ∈ s.elements.keys ∨ x ∈ t.elements.keys := by
    rw [← JsMap.has_iff, ← JsMap.has_iff, JsMap.has, JsMap.has]
    rw [← JsMap.has_iff, JsMap.has] at hx
    simp only [merge, setInternal, JsMap.get?_mergeWith] at hx
    cases ht' : t.elements.get? x with
    | none => rw [ht'] at hx; exact Or.inl hx
    | some ts => exact Or.inr rfl
  rcases hx' with hx' | hx'
  · obtain ⟨tag, htag⟩ := hs x hx'
    exact ⟨tag, (mem_tags_merge s t x tag).mpr (Or.inl htag)⟩
  · obtain ⟨tag, htag⟩ := ht x hx'
    exact ⟨tag, (mem_tags_merge s t x tag).mpr (Or.inr htag)⟩

theorem tagged_reload (hs : s.Tagged) : (fromJSON s.toJSON).Tagged := by
  intro x hx
  have hx' : x ∈ s.elements.keys := by
    have hkeys : (s.toJSON.elements.map (fun e => (e.1, JsSet.ofList e.2))).map Prod.fst =
        s.elements.keys := by
      simp [toJSON, JsMap.keys]
    have hn : ((s.toJSON.elements.map (fun e => (e.1, JsSet.ofList e.2))).map Prod.fst).Nodup := by
      rw [hkeys]
      exact s.elements.nodup
    rw [← JsMap.has_iff, JsMap.has, fromJSON, setInternal, JsMap.get?_ofEntries hn,
      Option.isSome_iff_ne_none, ne_eq, assoc_eq_none_iff, hkeys, not_not] at hx
    exact hx
  obtain ⟨tag, htag⟩ := hs x hx'
  exact ⟨tag, (mem_tags_reload s x tag).mpr htag⟩

/-- Merging tags and tombstones that are known keeps the value, the order included. -/
theorem value_merge_eq {t : ORSet α} (ht : t.Tagged) (htags : ∀ x, ∀ tag ∈ t.tags x, tag ∈ s.tags x)
    (htombs : ∀ tag ∈ t.tombstones, tag ∈ s.tombstones) : (s.merge t).value = s.value := by
  have hkeys : (s.merge t).elements.keys = s.elements.keys := by
    refine JsMap.keys_mergeWith fun x hx => ?_
    obtain ⟨tag, htag⟩ := ht x hx
    exact mem_keys_of_tag (htags x tag htag)
  have hhas : (s.merge t).has = s.has := by
    funext x
    rw [Bool.eq_iff_iff, has_iff, has_iff]
    refine exists_congr fun tag => ?_
    rw [mem_tags_merge, mem_tombstones_merge, or_iff_left_of_imp (htags x tag),
      or_iff_left_of_imp (htombs tag)]
  apply JsSet.ext
  rw [elems_value, elems_value, hkeys, hhas]

/-! ### Runs -/

/-- The updates of a set. -/
inductive Op (α : Type) where
  | add (element : α)
  | remove (element : α)
deriving DecidableEq

/-- Perform an update at node `i`. -/
def Op.apply (i : JsString) : Op α → ORSet α → ORSet α
  | .add x, s => s.add x i
  | .remove x, s => s.remove x

/-- Replicas of one set that add under their own node ids; the silent step reloads the state from its
serialised form. -/
def system : System JsString (ORSet α) (Op α) where
  init := new
  update i op s := some (op.apply i s)
  merge s t := some (s.merge t)
  silent _ s := some (fromJSON s.toJSON)

omit [DecidableEq α] in
def tagOf (e : Event JsString (ORSet α) (Op α)) : JsString := tagged e.node e.before.counter

/-- The tags and tombstones of a state, read off its history. -/
structure Described (s : Snapshot JsString (ORSet α) (Op α)) : Prop where
  fresh : s.state.Fresh
  tags : ∀ x tag, tag ∈ s.state.tags x ↔ ∃ a ∈ s.hist, a.op = .add x ∧ tagOf a = tag
  tombstones : ∀ tag, tag ∈ s.state.tombstones ↔
    ∃ r ∈ s.hist, ∃ x, r.op = .remove x ∧ tag ∈ r.before.tags x

variable {ok : World JsString (ORSet α) (Op α) → Action JsString (Op α) → Prop}
  {w : World JsString (ORSet α) (Op α)}

theorem described (h : (system (α := α)).Reach ok w) : ∀ s ∈ w.ever, Described s := by
  have hinit : Described (⟨new, []⟩ : Snapshot JsString (ORSet α) (Op α)) :=
    ⟨fun x p n hm => absurd hm (JsSet.not_mem_empty _), fun x tag => (by simp [new, tags]),
      fun tag => (by simp [new])⟩
  refine h.forall_ever hinit ?_ ?_ ?_
  · rintro w i op s - - - ih hu
    obtain rfl := Option.some.inj hu
    cases op with
    | add x =>
        refine ⟨fun y p n hm => ?_, fun y tag => ?_, fun tag => ?_⟩
        · rcases (mem_tags_add _ x i y _).mp hm with hm | ⟨_, hm⟩
          · exact Nat.lt_succ_of_lt (ih.fresh y p n hm)
          · exact (tagged_inj hm).2 ▸ Nat.lt_succ_self _
        · refine (mem_tags_add _ x i y tag).trans ?_
          rw [ih.tags]
          simp only [List.mem_cons, exists_eq_or_imp, World.event, tagOf, Op.add.injEq]
          rw [or_comm, eq_comm (a := y), eq_comm (a := tag)]
        · refine (ih.tombstones tag).trans ?_
          simp [World.event]
    | remove x =>
        refine ⟨fun y p n hm => ?_, fun y tag => ?_, fun tag => ?_⟩
        · show n < ((w.cur i).state.remove x).counter
          rw [counter_remove]
          exact ih.fresh y p n (by rwa [← tags_remove _ x y])
        · show tag ∈ ((w.cur i).state.remove x).tags y ↔ _
          rw [tags_remove, ih.tags]
          simp [World.event]
        · refine (mem_tombstones_remove _ x tag).trans ?_
          rw [ih.tombstones]
          simp only [List.mem_cons, exists_eq_or_imp, World.event, Op.remove.injEq, exists_eq_left']
          rw [or_comm]
  · rintro w i k t u - - - - - ih iht hm
    obtain rfl := Option.some.inj hm
    refine ⟨fresh_setInternal _ _, fun x tag => ?_, fun tag => ?_⟩
    · refine (mem_tags_merge _ _ x tag).trans ?_
      rw [ih.tags, iht.tags]
      simp only [List.mem_append, or_and_right, exists_or]
    · refine (mem_tombstones_merge _ _ tag).trans ?_
      rw [ih.tombstones, iht.tombstones]
      simp only [List.mem_append, or_and_right, exists_or]
  · rintro w i u - - ih hu
    obtain rfl := Option.some.inj hu
    exact ⟨fresh_setInternal _ _, fun x tag => (mem_tags_reload _ x tag).trans (ih.tags x tag),
      fun tag => (mem_tombstones_reload _ tag).trans (ih.tombstones tag)⟩

/-- The tag of an add is not among the tags of a state that incorporates it already. -/
theorem tagOf_ne_of_mem {s : Snapshot JsString (ORSet α) (Op α)} (hs : Described s)
    {a b : Event JsString (ORSet α) (Op α)} (ha : a ∈ s.hist) {x : α} (hx : a.op = .add x)
    (hb : s.state = b.before) : tagOf a ≠ tagOf b := by
  intro heq
  have hlt := hs.fresh x a.node _ ((hs.tags x _).mpr ⟨a, ha, hx, rfl⟩)
  rw [(tagged_inj heq).2, hb] at hlt
  exact lt_irrefl _ hlt

/-- **Tags are unique**: two adds of a run with the same tag are the same add. -/
theorem tagOf_inj (h : (system (α := α)).Reach ok w) {s t : Snapshot JsString (ORSet α) (Op α)}
    (hs : s ∈ w.ever) (ht : t ∈ w.ever) {a b : Event JsString (ORSet α) (Op α)} (ha : a ∈ s.hist)
    (hb : b ∈ t.hist) {x y : α} (hx : a.op = .add x) (hy : b.op = .add y)
    (heq : tagOf a = tagOf b) : a = b := by
  have hc := h.causal
  have hnode : a.node = b.node := (tagged_inj heq).1
  -- the later one of two adds of a node was applied to a state that knew the earlier one
  rcases lt_trichotomy a.seq b.seq with hlt | hseq | hlt
  · have hpast : a.id ∈ b.past := by
      rw [show a.id = (b.node, a.seq) from Prod.ext hnode rfl]
      exact hc.own_past t ht b hb _ hlt
    obtain ⟨r, hr, hst, har⟩ := hc.mem_before hs ht ha hb hpast
    exact absurd heq (tagOf_ne_of_mem (described h r hr) har hx hst)
  · exact hc.id_inj s hs t ht a ha b hb (Prod.ext hnode hseq)
  · have hpast : b.id ∈ a.past := by
      rw [show b.id = (a.node, b.seq) from Prod.ext hnode.symm rfl]
      exact hc.own_past s hs a ha _ hlt
    obtain ⟨r, hr, hst, hbr⟩ := hc.mem_before ht hs hb ha hpast
    exact absurd heq.symm (tagOf_ne_of_mem (described h r hr) hbr hy hst)

/-- The observed-remove rule: an add that no remove of the element knew. -/
def Present (hist : List (Event JsString (ORSet α) (Op α))) (x : α) : Prop :=
  ∃ a ∈ hist, a.op = .add x ∧ ∀ r ∈ hist, r.op = .remove x → a.id ∉ r.past

/-- The tag of an add is a tombstone exactly when a remove of its element knew the add. -/
theorem tombstone_iff (h : (system (α := α)).Reach ok w) {s : Snapshot JsString (ORSet α) (Op α)}
    (hs : s ∈ w.ever) {a : Event JsString (ORSet α) (Op α)} (ha : a ∈ s.hist) {x : α}
    (hx : a.op = .add x) :
    tagOf a ∈ s.state.tombstones ↔ ∃ r ∈ s.hist, r.op = .remove x ∧ a.id ∈ r.past := by
  have hc := h.causal
  rw [(described h s hs).tombstones]
  constructor
  · rintro ⟨r, hr, y, hy, hmem⟩
    obtain ⟨b, hb, hst, hpast, hsub⟩ := hc.before s hs r hr
    rw [← hst, (described h b hb).tags] at hmem
    obtain ⟨a', ha', hy', htag⟩ := hmem
    obtain rfl : a' = a := tagOf_inj h hb hs ha' ha hy' hx htag
    obtain rfl : y = x := Op.add.inj (hy'.symm.trans hx)
    exact ⟨r, hr, hy, hpast ▸ List.mem_map_of_mem ha'⟩
  · rintro ⟨r, hr, hop, hpast⟩
    obtain ⟨b, hb, hst, hab⟩ := hc.mem_before hs hs ha hr hpast
    refine ⟨r, hr, x, hop, ?_⟩
    rw [← hst, (described h b hb).tags]
    exact ⟨a, hab, hx, rfl⟩

/-- **Observed-remove semantics.**  In every run of adds, removes, merges and reloads, no
tag is generated for two adds, and an element is present at a replica exactly when its
history has an add of the element that no remove of it knew. -/
theorem observed_remove (h : (system (α := α)).Reach System.AnyStep w) :
    (∀ s ∈ w.ever, ∀ t ∈ w.ever, ∀ a ∈ s.hist, ∀ b ∈ t.hist, ∀ x y, a.op = .add x → b.op = .add y →
      tagOf a = tagOf b → a = b) ∧
    ∀ s ∈ w.ever, ∀ x, (s.state.has x = true ↔ Present s.hist x) ∧
      (x ∈ s.state.value ↔ Present s.hist x) := by
  refine ⟨fun s hs t ht a ha b hb x y hx hy => tagOf_inj h hs ht ha hb hx hy, fun s hs x => ?_⟩
  have hhas : s.state.has x = true ↔ Present s.hist x := by
    rw [has_iff]
    constructor
    · rintro ⟨tag, htag, hlive⟩
      obtain ⟨a, ha, hx, rfl⟩ := ((described h s hs).tags x tag).mp htag
      exact ⟨a, ha, hx, fun r hr hop hpast =>
        hlive ((tombstone_iff h hs ha hx).mpr ⟨r, hr, hop, hpast⟩)⟩
    · rintro ⟨a, ha, hx, hlive⟩
      refine ⟨tagOf a, ((described h s hs).tags x _).mpr ⟨a, ha, hx, rfl⟩, fun htomb => ?_⟩
      obtain ⟨r, hr, hop, hpast⟩ := (tombstone_iff h hs ha hx).mp htomb
      exact hlive r hr hop hpast
  exact ⟨hhas, (mem_value _ x).trans hhas⟩

/-- Two nodes, one with a `:` in its id, add `7`; the second merges, removes and reloads; the first
merges that and adds again. -/
def reloadRun : List (Action JsString (Op ℕ)) :=
  [.update (js "a:5") (.add 7), .update (js "b") (.add 7), .merge (js "b") 1,
    .update (js "b") (.remove 7), .silent (js "b"), .merge (js "a:5") 5, .update (js "a:5") (.add 7)]

theorem observed_remove_reloadRun :
    ∃ w, (system (α := ℕ)).run System.AnyStep (system (α := ℕ)).initial reloadRun = some w ∧
      ∀ s ∈ w.ever, 7 ∈ s.state.value ↔ Present s.hist 7 := by
  obtain ⟨w, hw, hr, _⟩ := System.exists_of_run (P := fun _ => True)
    (show ((system (α := ℕ)).run System.AnyStep system.initial reloadRun).any _ = true by
      decide +kernel)
  exact ⟨w, hw, fun s hs => ((observed_remove hr).2 s hs 7).2⟩

end ORSet
end BrowserMesh.Primitives
