import BrowserMesh.Js.Stringify

/-! # Rebuilding the objects of a JSON value

* **Rebuilding.**  `rebuild arrange` rearranges the fields of every object of a value, innermost first.  Two rearrangements
  one after the other are one (`rebuild_rebuild`).
* **Sorting.**  `selected keep` keeps some fields of every object and sorts them by their keys: values that `selected` of all
  keys makes equal differ in the order of fields only.
* **Copying fields.**  `sortedFields` is what a loop `sorted[k] = value[k]` over the sorted keys leaves in a plain object, in
  the order in which it is enumerated.  It loses a field named `__proto__`, and nothing else (`canonical_eq_iff`). -/

namespace BrowserMesh.Js
namespace Json

/-- The fields of an object. -/
abbrev Fields : Type := List (JsString × Json)

/-- The same fields with other values. -/
def mapValues (r : Json → Json) (fields : Fields) : Fields := fields.map fun f => (f.1, r f.2)

section rebuild
variable (arrange : Fields → Fields)

mutual

/-- Rearrange the fields of every object. -/
def rebuild : Json → Json
  | .array items => .array (rebuildItems items)
  | .object fields => .object (arrange (rebuildFields fields))
  | v => v

def rebuildItems : List Json → List Json
  | [] => []
  | v :: rest => rebuild v :: rebuildItems rest

def rebuildFields : Fields → Fields
  | [] => []
  | (key, v) :: rest => (key, rebuild v) :: rebuildFields rest

end

theorem rebuild_array (items : List Json) : rebuild arrange (.array items) = .array (items.map (rebuild arrange)) := by
  have hitems : ∀ l, rebuildItems arrange l = l.map (rebuild arrange) := by
    intro l
    induction l with
    | nil => rfl
    | cons v l ih => rw [rebuildItems, ih, List.map_cons]
  rw [rebuild, hitems]

theorem rebuild_object (fields : Fields) :
    rebuild arrange (.object fields) = .object (arrange (mapValues (rebuild arrange) fields)) := by
  have hfields : ∀ l, rebuildFields arrange l = mapValues (rebuild arrange) l := by
    intro l
    induction l with
    | nil => rfl
    | cons f l ih =>
        obtain ⟨key, v⟩ := f
        rw [rebuildFields, ih]
        rfl
  rw [rebuild, hfields]

end rebuild

theorem copy_array (items : List Json) : copy (.array items) = .array (items.map copy) := by
  have hitems : ∀ l, copyItems l = l.map copy := by
    intro l
    induction l with
    | nil => rfl
    | cons v l ih => rw [copyItems, ih, List.map_cons]
  rw [copy, hitems]

theorem copy_object (fields : Fields) : copy (.object fields) = .object (mapValues copy fields) := by
  have hfields : ∀ l, copyFields l = mapValues copy l := by
    intro l
    induction l with
    | nil => rfl
    | cons f l ih =>
        obtain ⟨key, v⟩ := f
        rw [copyFields, ih]
        rfl
  rw [copy, hfields]

/-! ### JSON data -/

/-- The keys of the fields are distinct. -/
def Keyed (fields : Fields) : Prop := (fields.map Prod.fst).Nodup

instance (fields : Fields) : Decidable (Keyed fields) := inferInstanceAs (Decidable (List.Nodup _))

mutual

/-- A value as JSON has it: its numbers are finite and no object has a key twice. -/
def isData : Json → Bool
  | .number n => n.isFinite
  | .array items => areData items
  | .object fields => decide (Keyed fields) && fieldsAreData fields
  | _ => true

def areData : List Json → Bool
  | [] => true
  | v :: rest => isData v && areData rest

def fieldsAreData : Fields → Bool
  | [] => true
  | (_, v) :: rest => isData v && fieldsAreData rest

end

theorem isData_array {items : List Json} : isData (.array items) = true ↔ ∀ v ∈ items, isData v = true := by
  have hitems : ∀ l, areData l = true ↔ ∀ v ∈ l, isData v = true := by
    intro l
    induction l with
    | nil => simp [areData]
    | cons v l ih => rw [areData, Bool.and_eq_true, ih, List.forall_mem_cons]
  rw [isData, hitems]

variable {fields : Fields}

theorem isData_object :
    isData (.object fields) = true ↔ Keyed fields ∧ ∀ f ∈ fields, isData f.2 = true := by
  have hfields : ∀ l, fieldsAreData l = true ↔ ∀ f ∈ l, isData f.2 = true := by
    intro l
    induction l with
    | nil => simp [fieldsAreData]
    | cons f l ih =>
        obtain ⟨key, v⟩ := f
        rw [fieldsAreData, Bool.and_eq_true, ih, List.forall_mem_cons]
  rw [isData, Bool.and_eq_true, decide_eq_true_iff, hfields]

/-- What `JSON.parse` gives. -/
abbrev Data : Type := {v : Json // isData v = true}

variable {v : Json}

theorem copy_of_isData (h : isData v = true) : copy v = v := by
  induction v using inductOn with
  | null => rfl
  | bool b => rfl
  | number n =>
      rw [isData] at h
      rw [copy, if_pos h]
  | string s => rfl
  | array items ih =>
      rw [copy_array, List.map_congr_left fun v hv => ih v hv (isData_array.mp h v hv), List.map_id']
  | object fields ih =>
      have hsame : mapValues copy fields = fields := by
        have hf : ∀ f ∈ fields, (f.1, copy f.2) = f := fun f hf => by rw [ih f hf ((isData_object.mp h).2 f hf)]
        rw [mapValues, List.map_congr_left hf, List.map_id']
      rw [copy_object, hsame]

/-- What is written of a value is what is written of its copy. -/
theorem stringify_copy (numbers : NumberText) (v : Json) : stringify numbers (copy v) = stringify numbers v := by
  induction v using inductOn with
  | null => rfl
  | bool b => rfl
  | number n =>
      by_cases h : n.isFinite = true
      · rw [copy, if_pos h]
      · rw [copy_number_of_not_finite h, stringify, stringify, if_neg h]
  | string s => rfl
  | array items ih =>
      have hitems : ∀ (l : List Json) (separator : JsString), (∀ v ∈ l, stringify numbers (copy v) = stringify numbers v) →
          stringifyItems numbers separator (l.map copy) = stringifyItems numbers separator l := by
        intro l
        induction l with
        | nil => exact fun _ _ => rfl
        | cons v l ih =>
            intro separator hl
            rw [List.map_cons, stringifyItems, stringifyItems, hl v List.mem_cons_self,
              ih [44] fun w hw => hl w (List.mem_cons_of_mem _ hw)]
      rw [copy_array, stringify, stringify, hitems items [] ih]
  | object fields ih =>
      have hfields : ∀ (l : Fields) (separator : JsString),
          (∀ f ∈ l, stringify numbers (copy f.2) = stringify numbers f.2) →
          stringifyFields numbers separator (mapValues copy l) = stringifyFields numbers separator l := by
        intro l
        induction l with
        | nil => exact fun _ _ => rfl
        | cons f l ih =>
            intro separator hl
            obtain ⟨key, v⟩ := f
            show stringifyFields numbers separator ((key, copy v) :: mapValues copy l) = _
            rw [stringifyFields, stringifyFields, hl (key, v) List.mem_cons_self,
              ih [44] fun g hg => hl g (List.mem_cons_of_mem _ hg)]
      rw [copy_object, stringify, stringify, hfields fields [] ih]

/-! ### One rearrangement after another -/

theorem mapValues_mapValues (r r' : Json → Json) (fields : Fields) :
    mapValues r (mapValues r' fields) = mapValues (fun v => r (r' v)) fields := by
  rw [mapValues, mapValues, List.map_map]
  rfl

theorem mapValues_congr {r r' : Json → Json} (h : ∀ f ∈ fields, r f.2 = r' f.2) :
    mapValues r fields = mapValues r' fields :=
  List.map_congr_left fun f hf => by rw [h f hf]

@[simp] theorem keys_mapValues (r : Json → Json) (fields : Fields) :
    (mapValues r fields).map Prod.fst = fields.map Prod.fst := by
  rw [mapValues, List.map_map]
  rfl

theorem keyed_mapValues {r : Json → Json} : Keyed (mapValues r fields) ↔ Keyed fields := by
  rw [Keyed, Keyed, keys_mapValues]

/-- A rearrangement that looks at the keys only. -/
def ByKeys (arrange : Fields → Fields) : Prop :=
  ∀ (r : Json → Json) (fields : Fields), Keyed fields → arrange (mapValues r fields) = mapValues r (arrange fields)

theorem rebuild_rebuild {first second both : Fields → Fields} (hfirst : ByKeys first)
    (hboth : ∀ fields, Keyed fields → second (first fields) = both fields) (h : isData v = true) :
    rebuild second (rebuild first v) = rebuild both v := by
  induction v using inductOn with
  | null => rfl
  | bool b => rfl
  | number n => rfl
  | string s => rfl
  | array items ih =>
      rw [rebuild_array, rebuild_array, rebuild_array, List.map_map]
      exact congrArg Json.array (List.map_congr_left fun v hv => ih v hv (isData_array.mp h v hv))
  | object fields ih =>
      obtain ⟨hkeyed, hdata⟩ := isData_object.mp h
      rw [rebuild_object, rebuild_object, rebuild_object, ← hfirst _ _ (keyed_mapValues.mpr hkeyed),
        mapValues_mapValues, hboth _ (keyed_mapValues.mpr hkeyed),
        mapValues_congr fun f hf => ih f hf (hdata f hf)]

theorem copy_rebuild {arrange : Fields → Fields} (harrange : ByKeys arrange) (h : isData (copy v) = true) :
    copy (rebuild arrange v) = rebuild arrange (copy v) := by
  induction v using inductOn with
  | null => rfl
  | bool b => rfl
  | number n =>
      rw [rebuild, copy]
      · split_ifs <;> rfl
      · intro items hitems
        cases hitems
      · intro fields hfields
        cases hfields
  | string s => rfl
  | array items ih =>
      rw [copy_array, isData_array] at h
      rw [rebuild_array, copy_array, copy_array, rebuild_array, List.map_map, List.map_map]
      exact congrArg Json.array (List.map_congr_left fun v hv => ih v hv (h _ (List.mem_map_of_mem hv)))
  | object fields ih =>
      rw [copy_object, isData_object] at h
      obtain ⟨hkeyed, hdata⟩ := h
      have hkeyed := keyed_mapValues.mp hkeyed
      have hvalues : mapValues (fun v => copy (rebuild arrange v)) fields =
          mapValues (fun v => rebuild arrange (copy v)) fields :=
        mapValues_congr fun f hf => ih f hf (hdata (f.1, copy f.2) (List.mem_map_of_mem hf))
      rw [rebuild_object, copy_object, copy_object, rebuild_object, ← harrange _ _ (keyed_mapValues.mpr hkeyed),
        mapValues_mapValues, mapValues_mapValues, hvalues]

/-! ### Sorted fields -/

/-- The fields with the keys that `keep` allows, sorted by their keys. -/
def select (keep : JsString → Bool) (fields : Fields) : Fields :=
  (fields.filter fun f => keep f.1).insertionSort (byRank Prod.fst)

/-- Every object with the fields that `keep` allows, sorted by their keys. -/
def selected (keep : JsString → Bool) : Json → Json := rebuild (select keep)

/-- The values differ at most in the order of fields. -/
def Same (v w : Json) : Prop := selected (fun _ => true) v = selected (fun _ => true) w

theorem select_perm (keep : JsString → Bool) (fields : Fields) :
    (select keep fields).Perm (fields.filter fun f => keep f.1) := List.perm_insertionSort _ _

theorem keyed_filter (h : Keyed fields) (p : JsString × Json → Bool) : Keyed (fields.filter p) :=
  h.sublist (List.filter_sublist.map Prod.fst)

variable {fields' : Fields}

theorem Keyed.perm (h : Keyed fields) (hperm : fields'.Perm fields) : Keyed fields' :=
  (hperm.map Prod.fst).nodup_iff.mpr h

variable {keep : JsString → Bool}

/-- Fields with distinct keys can be sorted in one way only. -/
theorem select_congr (h : Keyed fields)
    (hperm : (fields.filter fun f => keep f.1).Perm (fields'.filter fun f => keep f.1)) :
    select keep fields = select keep fields' := by
  refine ((List.perm_insertionSort _ _).trans (hperm.trans (List.perm_insertionSort _ _).symm)).eq_of_pairwise ?_
    (List.pairwise_insertionSort (byRank Prod.fst) _) (List.pairwise_insertionSort (byRank Prod.fst) _)
  intro f g hf hg hfg hgf
  have hkey : f.1 = g.1 := le_antisymm hfg hgf
  have hf := (List.mem_insertionSort _).mp hf
  have hg := hperm.symm.subset ((List.mem_insertionSort _).mp hg)
  exact List.inj_on_of_nodup_map (keyed_filter h _) hf hg hkey

/-- Fields in the same order of keys are what is left of them when they are selected. -/
theorem eq_of_select_eq (h : Keyed fields)
    (hkeys : fields.map Prod.fst = fields'.map Prod.fst) (hkeep : ∀ f ∈ fields, keep f.1 = true)
    (heq : select keep fields = select keep fields') : fields = fields' := by
  have hkeep' : ∀ f ∈ fields', keep f.1 = true := by
    intro f hf
    have hmem := List.mem_map_of_mem (f := Prod.fst) hf
    rw [← hkeys] at hmem
    obtain ⟨g, hg, hgf⟩ := List.mem_map.mp hmem
    rw [← hgf]
    exact hkeep g hg
  have hperm : fields.Perm fields' := by
    have hleft := select_perm keep fields
    have hright := select_perm keep fields'
    rw [List.filter_eq_self.mpr hkeep] at hleft
    rw [List.filter_eq_self.mpr hkeep', ← heq] at hright
    exact hleft.symm.trans hright
  refine List.ext_getElem hperm.length_eq fun i hi hi' => ?_
  have hkey : (fields[i]).1 = (fields'[i]).1 := by
    have hget := congrArg (fun l => l[i]?) hkeys
    simpa [List.getElem?_map, List.getElem?_eq_getElem hi, List.getElem?_eq_getElem hi'] using hget
  exact List.inj_on_of_nodup_map h (List.getElem_mem hi) (hperm.symm.subset (List.getElem_mem hi')) hkey

theorem byKeys_select (keep : JsString → Bool) : ByKeys (select keep) := by
  intro r fields _
  have hfilter : (mapValues r fields).filter (fun f => keep f.1) = mapValues r (fields.filter fun f => keep f.1) := by
    rw [mapValues, List.filter_map]
    rfl
  rw [select, hfilter, mapValues]
  exact (List.map_insertionSort (byRank fun f : JsString × Json => f.1) (byRank fun f : JsString × Json => f.1)
    (fun f : JsString × Json => (f.1, r f.2)) _ fun _ _ _ _ => Iff.rfl).symm

theorem select_select {keep' : JsString → Bool} (h : Keyed fields) :
    select keep (select keep' fields) = select (fun key => keep key && keep' key) fields := by
  have hkeyed : Keyed (select keep' fields) := (keyed_filter h _).perm (select_perm _ _)
  refine ((List.perm_insertionSort _ _).trans ?_).eq_of_pairwise ?_
    (List.pairwise_insertionSort (byRank Prod.fst) _) (List.pairwise_insertionSort (byRank Prod.fst) _)
  · refine ((select_perm keep' fields).filter _).trans ?_
    rw [List.filter_filter]
    exact (List.perm_insertionSort _ _).symm
  · intro f g hf hg hfg hgf
    have hkey : f.1 = g.1 := le_antisymm hfg hgf
    have hf := List.mem_of_mem_filter ((List.mem_insertionSort _).mp hf)
    have hg := List.mem_filter.mp ((List.mem_insertionSort _).mp hg)
    have hg := (select_perm keep' fields).symm.subset
      (List.mem_filter.mpr ⟨hg.1, ((Bool.and_eq_true _ _).mp hg.2).2⟩)
    exact List.inj_on_of_nodup_map hkeyed hf hg hkey

/-! ### Copying fields into a plain object -/

/-- What `for (const k of Object.keys(value).sort()) sorted[k] = value[k]` leaves in `sorted`, as it is enumerated. -/
def sortedFields (fields : Fields) : Fields :=
  (JsObject.empty.assignAll (fields.insertionSort (byRank Prod.fst))).entries

/-- The fields that `sorted` gets. -/
def notProto (key : JsString) : Bool := decide (key ≠ protoKey)

/-- `sorted` as it is enumerated: array indices first. -/
def enumerated (fields : Fields) : Fields :=
  (fields.filter fun f => (arrayIndex f.1).isSome).insertionSort (byRank fun f => (arrayIndex f.1).getD 0) ++
    fields.filter fun f => !(arrayIndex f.1).isSome

theorem foldl_set_entries {κ ν : Type} [DecidableEq κ] (l : List (κ × ν)) (m : JsMap κ ν)
    (h : (m.keys ++ l.map Prod.fst).Nodup) : (l.foldl (fun m e => m.set e.1 e.2) m).entries = m.entries ++ l := by
  induction l generalizing m with
  | nil => exact (List.append_nil _).symm
  | cons e l ih =>
      have hnew : e.1 ∉ m.keys := fun hmem => (List.nodup_append.mp h).2.2 e.1 hmem e.1 List.mem_cons_self rfl
      have hset : (m.set e.1 e.2).entries = m.entries ++ [e] := by rw [JsMap.set, dif_neg hnew]
      rw [List.foldl_cons, ih, hset, List.append_assoc, List.singleton_append]
      rw [JsMap.keys, hset, List.map_append, List.append_assoc]
      exact h

theorem assignAll_props {ν : Type} (l : List (JsString × ν)) (o : JsObject ν) (h : o.props.get? protoKey = none) :
    (o.assignAll l).props = (l.filter fun e => notProto e.1).foldl (fun m e => m.set e.1 e.2) o.props := by
  induction l generalizing o with
  | nil => rfl
  | cons e l ih =>
      show ((o.assign e.1 e.2).assignAll l).props = _
      by_cases he : e.1 = protoKey
      · have hown : o.hasOwn e.1 = false := by rw [JsObject.hasOwn, JsMap.has, he, h, Option.isSome_none]
        rw [JsObject.assign, if_pos ⟨he, hown⟩, ih o h, List.filter_cons_of_neg (by rw [notProto, he]; decide)]
      · rw [JsObject.assign, if_neg fun hboth => he hboth.1, ih _ ?_,
          List.filter_cons_of_pos (p := fun e : JsString × ν => notProto e.1) (decide_eq_true he), List.foldl_cons]
        rw [JsMap.get?_set, if_neg (Ne.symm he), h]

theorem assignAll_entries {ν : Type} {l : List (JsString × ν)} (h : (l.map Prod.fst).Nodup) :
    ((JsObject.empty : JsObject ν).assignAll l).props.entries = l.filter fun e => notProto e.1 := by
  rw [assignAll_props l JsObject.empty rfl]
  exact foldl_set_entries _ JsMap.empty (h.sublist (List.filter_sublist.map Prod.fst))

theorem sortedFields_eq (h : Keyed fields) :
    sortedFields fields = enumerated (select notProto fields) := by
  have hperm := List.perm_insertionSort (byRank Prod.fst) fields
  have hselect : (fields.insertionSort (byRank Prod.fst)).filter (fun f => notProto f.1) = select notProto fields := by
    refine ((hperm.filter _).trans (select_perm notProto fields).symm).eq_of_pairwise ?_
      ((List.pairwise_insertionSort (byRank Prod.fst) _).sublist List.filter_sublist)
      (List.pairwise_insertionSort (byRank Prod.fst) _)
    intro f g hf hg hfg hgf
    have hf := hperm.subset (List.mem_of_mem_filter hf)
    have hg := List.mem_of_mem_filter ((List.mem_insertionSort _).mp hg)
    exact List.inj_on_of_nodup_map h hf hg (le_antisymm hfg hgf)
  rw [sortedFields, JsObject.entries, assignAll_entries (h.perm hperm), hselect]
  rfl

theorem enumerated_perm (fields : Fields) : (enumerated fields).Perm fields :=
  ((List.perm_insertionSort _ _).append_right _).trans (List.filter_append_perm _ _)

theorem byKeys_sortedFields : ByKeys sortedFields := by
  intro r fields h
  have henumerated : ∀ l : Fields, enumerated (mapValues r l) = mapValues r (enumerated l) := by
    intro l
    have hfilter : ∀ p : JsString → Bool, (mapValues r l).filter (fun f => p f.1) = mapValues r (l.filter fun f => p f.1) := by
      intro p
      rw [mapValues, List.filter_map]
      rfl
    rw [enumerated, hfilter (fun key => (arrayIndex key).isSome), hfilter (fun key => !(arrayIndex key).isSome), enumerated,
      mapValues, mapValues, mapValues, List.map_append]
    congr 1
    exact (List.map_insertionSort (byRank fun f : JsString × Json => (arrayIndex f.1).getD 0)
      (byRank fun f : JsString × Json => (arrayIndex f.1).getD 0) (fun f : JsString × Json => (f.1, r f.2)) _
      fun _ _ _ _ => Iff.rfl).symm
  rw [sortedFields_eq (keyed_mapValues.mpr h), byKeys_select notProto r fields h, henumerated, sortedFields_eq h]

/-- `canonical`: every object as the loop copies it. -/
def canonical : Json → Json := rebuild sortedFields

theorem selected_canonical (h : isData v = true) :
    selected notProto (canonical v) = selected notProto v := by
  refine rebuild_rebuild byKeys_sortedFields (fun fields hfields => ?_) h
  have hperm := enumerated_perm (select notProto fields)
  rw [sortedFields_eq hfields]
  refine select_congr (((keyed_filter hfields _).perm (select_perm _ _)).perm hperm) ?_
  refine (hperm.filter _).trans (((select_perm notProto fields).filter _).trans ?_)
  rw [List.filter_filter]
  simp only [Bool.and_self]
  exact List.Perm.refl _

theorem canonical_selected (h : isData v = true) : canonical (selected notProto v) = canonical v := by
  refine rebuild_rebuild (byKeys_select notProto) (fun fields hfields => ?_) h
  have hkeyed := (keyed_filter hfields _).perm (select_perm notProto fields)
  rw [sortedFields_eq hkeyed, sortedFields_eq hfields, select_select hfields]
  simp only [Bool.and_self]

/-- What the loop makes of two values is the same exactly if they differ at most in fields named `__proto__` and in the order
of fields. -/
theorem canonical_eq_iff {w : Json} (hv : isData v = true) (hw : isData w = true) :
    canonical v = canonical w ↔ selected notProto v = selected notProto w := by
  constructor
  · intro h
    rw [← selected_canonical hv, h, selected_canonical hw]
  · intro h
    rw [← canonical_selected hv, h, canonical_selected hw]

end Json
end BrowserMesh.Js
