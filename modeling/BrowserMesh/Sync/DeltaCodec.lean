import BrowserMesh.Js.Rebuild
import BrowserMesh.Sync.DeltaSync

/-! # Encoding and decoding deltas

`encode` makes an entry for every key whose value differs in two states, and `apply` takes the entries to a copy of the
old state.  A merge keeps the fields of the old value, and `key in state` finds what every object inherits, so the new
state comes out exactly if no field of a merged value disappears and no inherited name is involved (`Mergeable`):
`roundTrips_iff`. -/

namespace BrowserMesh.Sync
open Js

/-- A state: JSON values under non-empty keys. -/
structure PlainState where
  object : JsObject Json.Data
  nonempty : object.props.get? [] = none

/-- What a key of a state may hold: a value, or what every object inherits under a name. -/
inductive Value where
  | json (v : Json)
  | inherited (name : JsString)

namespace Value

/-- The own enumerable properties, as a spread finds them. -/
def ownFields : Value → Json.Fields
  | .json (.object fields) => fields
  | .json (.array items) => items.zipIdx.map fun e => (decimal e.2, e.1)
  | .json (.string s) => s.zipIdx.map fun e => (decimal e.2, .string [e.1])
  | _ => []

/-- `typeof v === 'object' && v !== null`. -/
def isObjectLike : Value → Bool
  | .json (.object _) => true
  | .json (.array _) => true
  | .json _ => false
  | .inherited name => name = protoKey

/-- `typeof v === 'object' && v !== null && !Array.isArray(v)`. -/
def isPlainObject : Value → Bool
  | .json (.object _) => true
  | .json _ => false
  | .inherited name => name = protoKey

end Value

/-- `{ ...old, ...value }`, up to the order of fields. -/
def spreadFields (old value : Json.Fields) : Json.Fields := value.foldl (fun acc f => Json.setField f.1 f.2 acc) old

/-- What `apply` assigns for a merge. -/
instance spreadValues : Spread Value where
  spread old value :=
    if old.isObjectLike then .json (.object (spreadFields old.ownFields value.ownFields)) else value

namespace DeltaCodec

/-- `state[key]`; `none` is undefined, where `key in state` is false. -/
def valueAt (state : JsObject Json.Data) (key : JsString) : Option Value :=
  match state.read key with
  | .own v => some (.json v.1)
  | .inherited => some (.inherited key)
  | .absent => none

section encode
variable (numbers : NumberText)

/-- `JSON.stringify(v)`: a function has no text, and `Object.prototype` no enumerable properties. -/
def text : Value → Option JsString
  | .json v => some (v.stringify numbers)
  | .inherited name => if name = protoKey then some (js "{}") else none

def change (oldState newState : JsObject Json.Data) (key : JsString) : Option (DeltaOp Value) :=
  match valueAt newState key with
  | none => some .delete
  | some newVal =>
      match valueAt oldState key with
      | none => some (.set newVal)
      | some oldVal =>
          if text numbers oldVal = text numbers newVal then none
          else if oldVal.isPlainObject ∧ newVal.isPlainObject then some (.merge newVal)
          else some (.set newVal)

/-- `new Set([...Object.keys(oldState), ...Object.keys(newState)])`. -/
def allKeys (oldState newState : JsObject Json.Data) : List JsString :=
  (JsSet.ofList (oldState.entries.map Prod.fst ++ newState.entries.map Prod.fst)).elems

/-- The loop of `encode`; an id and a sequence number are taken for every entry. -/
def encodeKeys (oldState newState : JsObject Json.Data) (origin : JsString) (now : ℕ+) :
    ℕ → List JsString → Except DeltaError (List (DeltaEntry Value))
  | _, [] => .ok []
  | deltaSeq, key :: rest =>
      match change numbers oldState newState key with
      | none => encodeKeys oldState newState origin now deltaSeq rest
      | some op => do
          let entry ← DeltaEntry.construct ⟨key, op, origin, deltaSeq + 2, 0, JsObject.empty⟩ now
          let entries ← encodeKeys oldState newState origin now (deltaSeq + 2) rest
          return entry :: entries

/-- `encode(oldState, newState, origin)`. -/
def encode (oldState newState : JsObject Json.Data) (origin : JsString) (now : ℕ+) (deltaSeq : ℕ) :
    Except DeltaError (List (DeltaEntry Value)) :=
  if origin = [] then .error .origin
  else encodeKeys numbers oldState newState origin now deltaSeq (allKeys oldState newState)

end encode

/-- A copy of a state that `apply` may change. -/
def copyOf (state : JsObject Json.Data) : JsObject Value where
  props :=
    { entries := state.props.entries.map fun e => (e.1, .json e.2.1)
      nodup := by
        rw [List.map_map]
        exact state.props.nodup }

/-- A value of a decoded state is equal to one of a state. -/
def EqualValue : Option Value → Option Json.Data → Prop
  | none, none => True
  | some (.json v), some w => Json.Same v w.1
  | _, _ => False

/-- The decoded state is equal to the new one. -/
def RoundTrips (numbers : NumberText) (oldState newState : JsObject Json.Data) (origin : JsString) (now : ℕ+)
    (deltaSeq : ℕ) : Prop :=
  ∃ entries, encode numbers oldState newState origin now deltaSeq = .ok entries ∧
    ∀ key, EqualValue ((apply (copyOf oldState) entries).props.get? key) (newState.props.get? key)

/-- No key that disappears is an inherited name, no field of an object disappears that stays an object, and `__proto__`
is no new key. -/
def Mergeable (oldState newState : JsObject Json.Data) : Prop :=
  ∀ key, (oldState.props.get? key ≠ none → newState.props.get? key = none → key ∉ inheritedNames) ∧
    (oldState.props.get? key = none → newState.props.get? key ≠ none → key ≠ protoKey) ∧
    ∀ v w oldFields newFields, oldState.props.get? key = some v → newState.props.get? key = some w →
      v.1 = .object oldFields → w.1 = .object newFields → oldFields.map Prod.fst ⊆ newFields.map Prod.fst

/-! ### Spreads -/

section fields
open Json

theorem keys_setField (key : JsString) (v : Json) (fields : Fields) :
    (setField key v fields).map Prod.fst =
      if key ∈ fields.map Prod.fst then fields.map Prod.fst else fields.map Prod.fst ++ [key] := by
  unfold setField
  split_ifs
  · exact replace_fst key v fields
  · rw [List.map_append]
    rfl

variable {fields : Fields}

theorem keyed_setField {key : JsString} {v : Json} (h : Keyed fields) :
    Keyed (setField key v fields) := by
  unfold Keyed
  rw [keys_setField]
  split_ifs with hkey
  · exact h
  · rw [List.nodup_append]
    refine ⟨h, List.nodup_singleton key, fun a ha b hb => ?_⟩
    rw [List.mem_singleton.mp hb]
    rintro rfl
    exact hkey ha

variable {old value : Fields}

theorem keyed_spreadFields (h : Keyed old) : Keyed (spreadFields old value) := by
  unfold spreadFields
  induction value generalizing old with
  | nil => exact h
  | cons f value ih => exact ih (keyed_setField h)

theorem assoc_spreadFields (h : Keyed value) (key : JsString) :
    assoc key (spreadFields old value) = (assoc key value).or (assoc key old) := by
  unfold spreadFields
  induction value generalizing old with
  | nil => rfl
  | cons f value ih =>
      unfold Keyed at h
      rw [List.map_cons, List.nodup_cons] at h
      rw [List.foldl_cons, ih h.2, assoc_setField, assoc]
      by_cases hkey : f.1 = key
      · have hnone : assoc key value = none := assoc_eq_none_iff.mpr (hkey ▸ h.1)
        rw [if_pos hkey, if_pos hkey.symm, hnone]
        rfl
      · rw [if_neg hkey, if_neg (Ne.symm hkey)]

variable {fields' : Fields}

theorem perm_of_assoc (h : Keyed fields) (h' : Keyed fields')
    (hassoc : ∀ key, assoc key fields = assoc key fields') : fields.Perm fields' :=
  JsMap.Same.perm (m := ⟨fields, h⟩) (n := ⟨fields', h'⟩) hassoc

theorem selected_object (fields : Fields) : selected (fun _ => true) (.object fields) =
    .object (select (fun _ => true) (mapValues (selected fun _ => true) fields)) := rebuild_object _ fields

theorem same_of_perm (h : Keyed fields) (hperm : fields.Perm fields') :
    Same (.object fields) (.object fields') := by
  have hvalues : (mapValues (selected fun _ => true) fields).Perm (mapValues (selected fun _ => true) fields') :=
    hperm.map _
  unfold Same
  rw [selected_object, selected_object, select_congr (keyed_mapValues.mpr h) (hvalues.filter _)]

theorem mem_keys_of_same (h : Same (.object fields) (.object fields')) {key : JsString}
    (hkey : key ∈ fields.map Prod.fst) : key ∈ fields'.map Prod.fst := by
  unfold Same at h
  rw [selected_object, selected_object, Json.object.injEq] at h
  have hmem : ∀ l : Fields, key ∈ (select (fun _ => true) (mapValues (selected fun _ => true) l)).map Prod.fst ↔
      key ∈ l.map Prod.fst := by
    intro l
    rw [((select_perm _ _).map Prod.fst).mem_iff, List.filter_true, keys_mapValues]
  rw [← hmem, ← h, hmem]
  exact hkey

/-- Merging gives the new object exactly if it has all the old fields. -/
theorem same_spreadFields_iff (hold : Keyed old) (hvalue : Keyed value) :
    Same (.object (spreadFields old value)) (.object value) ↔ old.map Prod.fst ⊆ value.map Prod.fst := by
  constructor
  · intro h key hkey
    refine mem_keys_of_same h ?_
    by_contra hnot
    have hnone := assoc_eq_none_iff.mpr hnot
    rw [assoc_spreadFields hvalue, Option.or_eq_none_iff] at hnone
    exact assoc_eq_none_iff.mp hnone.2 hkey
  · intro hsub
    refine same_of_perm (keyed_spreadFields hold) (perm_of_assoc (keyed_spreadFields hold) hvalue fun key => ?_)
    rw [assoc_spreadFields hvalue]
    cases hkey : assoc key value with
    | some v => rfl
    | none =>
        refine assoc_eq_none_iff.mpr fun hmem => ?_
        exact assoc_eq_none_iff.mp hkey (hsub hmem)

end fields

/-! ### One key -/

section key
variable {state : JsObject Json.Data} {key : JsString}

theorem valueAt_own {v : Json.Data} (h : state.props.get? key = some v) : valueAt state key = some (.json v.1) := by
  rw [valueAt, JsObject.read, h]

theorem valueAt_inherited (h : state.props.get? key = none) (hkey : key ∈ inheritedNames) :
    valueAt state key = some (.inherited key) := by
  rw [valueAt, JsObject.read, h]
  dsimp only
  rw [if_pos hkey]

theorem valueAt_absent (h : state.props.get? key = none) (hkey : key ∉ inheritedNames) : valueAt state key = none := by
  rw [valueAt, JsObject.read, h]
  dsimp only
  rw [if_neg hkey]

end key

section effect
variable {V : Type} [Spread V]

/-- What an operation makes of its key's own property; assigning to `__proto__` creates none. -/
def effect (key : JsString) (op : DeltaOp V) (cur : Option V) : Option V :=
  match op with
  | .delete => none
  | .set value => if key = protoKey ∧ cur = none then none else some value
  | .merge value => if key = protoKey ∧ cur = none then none else some (cur.elim value (Spread.spread · value))

@[simp] theorem effect_set_own (key : JsString) (value cur : V) : effect key (.set value) (some cur) = some value :=
  if_neg fun h => by cases h.2

@[simp] theorem effect_merge_own (key : JsString) (value cur : V) :
    effect key (.merge value) (some cur) = some (Spread.spread cur value) :=
  if_neg fun h => by cases h.2

omit [Spread V] in
theorem get?_assign (o : JsObject V) (key : JsString) (v : V) (key' : JsString) :
    (o.assign key v).props.get? key' =
      if key' = key then (if key = protoKey ∧ o.props.get? key = none then none else some v) else o.props.get? key' := by
  unfold JsObject.assign JsObject.hasOwn JsMap.has
  by_cases hproto : key = protoKey ∧ o.props.get? key = none
  · rw [if_pos ⟨hproto.1, by rw [hproto.2]; rfl⟩, if_pos hproto]
    split_ifs with hkey
    · rw [hkey, hproto.2]
    · rfl
  · have hown : ¬ (key = protoKey ∧ (o.props.get? key).isSome = false) := fun h =>
      hproto ⟨h.1, Option.not_isSome_iff_eq_none.mp (by rw [h.2]; exact Bool.false_ne_true)⟩
    rw [if_neg hown, if_neg hproto, JsMap.get?_set]

theorem get?_applyEntry (state : JsObject V) (e : DeltaEntry V) (key : JsString) :
    (applyEntry state e).props.get? key =
      if key = e.key.1 then effect key e.op (state.props.get? key) else state.props.get? key := by
  unfold applyEntry effect
  cases e.op with
  | delete => exact JsMap.get?_delete _ _ _
  | set value =>
      dsimp only
      rw [get?_assign]
      by_cases hkey : key = e.key.1
      · rw [if_pos hkey, if_pos hkey, hkey]
      · rw [if_neg hkey, if_neg hkey]
  | merge value =>
      dsimp only
      have hmerge : ∀ v, (state.props.get? e.key.1).elim value (Spread.spread · value) = v →
          (state.assign e.key.1 v).props.get? key = if key = e.key.1 then
            (if key = protoKey ∧ state.props.get? key = none then none
              else some ((state.props.get? key).elim value (Spread.spread · value)))
            else state.props.get? key := by
        rintro v rfl
        rw [get?_assign]
        by_cases hkey : key = e.key.1
        · rw [if_pos hkey, if_pos hkey, hkey]
        · rw [if_neg hkey, if_neg hkey]
      unfold JsObject.read
      cases hget : state.props.get? e.key.1 with
      | some old => exact hmerge _ (by rw [hget]; rfl)
      | none =>
          have hassign := hmerge value (by rw [hget]; rfl)
          by_cases hname : e.key.1 ∈ inheritedNames
          · rw [if_pos hname]
            exact hassign
          · rw [if_neg hname]
            exact hassign

end effect

/-- The keys and the operations of entries. -/
def operations (entries : List (DeltaEntry Value)) : List (JsString × DeltaOp Value) :=
  entries.map fun e => (e.key.1, e.op)

theorem get?_apply {entries : List (DeltaEntry Value)} (hdistinct : ((operations entries).map Prod.fst).Nodup)
    (state : JsObject Value) (key : JsString) :
    (apply state entries).props.get? key =
      (assoc key (operations entries)).elim (state.props.get? key) fun op => effect key op (state.props.get? key) := by
  induction entries generalizing state with
  | nil => rfl
  | cons e entries ih =>
      rw [operations, List.map_cons, List.map_cons, List.nodup_cons] at hdistinct
      have happly : apply state (e :: entries) = apply (applyEntry state e) entries := rfl
      rw [happly, ih hdistinct.2, get?_applyEntry]
      show _ = (assoc key ((e.key.1, e.op) :: operations entries)).elim _ _
      rw [assoc]
      by_cases hkey : e.key.1 = key
      · have hnone : assoc key (operations entries) = none := assoc_eq_none_iff.mpr (hkey ▸ hdistinct.1)
        rw [hnone, if_pos hkey, if_pos hkey.symm]
        rfl
      · rw [if_neg hkey, if_neg (Ne.symm hkey)]

section encode
variable {numbers : NumberText} {oldState newState : JsObject Json.Data}

variable (numbers oldState newState) in
/-- The entries are those for the keys whose value changes. -/
theorem encodeKeys_spec {origin : JsString} (horigin : origin ≠ []) (now : ℕ+) {keys : List JsString}
    (hkeys : [] ∉ keys) (deltaSeq : ℕ) : ∃ entries,
      encodeKeys numbers oldState newState origin now deltaSeq keys = .ok entries ∧
      operations entries = keys.filterMap fun key => (change numbers oldState newState key).map ((key, ·)) := by
  induction keys generalizing deltaSeq with
  | nil => exact ⟨[], rfl, rfl⟩
  | cons key keys ih =>
      rw [List.mem_cons, not_or] at hkeys
      rw [encodeKeys]
      cases hchange : change numbers oldState newState key with
      | none =>
          obtain ⟨entries, hok, hops⟩ := ih hkeys.2 deltaSeq
          exact ⟨entries, hok, by rw [hops, List.filterMap_cons, hchange]; rfl⟩
      | some op =>
          obtain ⟨entries, hok, hops⟩ := ih hkeys.2 (deltaSeq + 2)
          dsimp only
          rw [DeltaEntry.construct, dif_neg (Ne.symm hkeys.1), dif_neg horigin, hok]
          refine ⟨_, rfl, ?_⟩
          rw [List.filterMap_cons, hchange, ← hops]
          rfl

theorem assoc_filterMap (change : JsString → Option (DeltaOp Value)) (keys : List JsString) (key : JsString) :
    assoc key (keys.filterMap fun key => (change key).map ((key, ·))) = if key ∈ keys then change key else none := by
  induction keys with
  | nil => rfl
  | cons key' keys ih =>
      rw [List.filterMap_cons]
      cases hchange : change key' with
      | none =>
          rw [Option.map_none, ih]
          by_cases hmem : key ∈ keys
          · rw [if_pos hmem, if_pos (List.mem_cons_of_mem _ hmem)]
          · rw [if_neg hmem]
            by_cases hkey : key = key'
            · rw [if_pos (List.mem_cons.mpr (Or.inl hkey)), hkey, hchange]
            · rw [if_neg (List.not_mem_cons_of_ne_of_not_mem hkey hmem)]
      | some op =>
          rw [Option.map_some, assoc, ih]
          by_cases hkey : key' = key
          · rw [if_pos hkey, if_pos (List.mem_cons.mpr (Or.inl hkey.symm)), ← hkey, hchange]
          · rw [if_neg hkey]
            simp [Ne.symm hkey]

theorem keys_filterMap (change : JsString → Option (DeltaOp Value)) (keys : List JsString) :
    ((keys.filterMap fun key => (change key).map ((key, ·))).map Prod.fst).Sublist keys := by
  induction keys with
  | nil => exact List.Sublist.slnil
  | cons key keys ih =>
      rw [List.filterMap_cons]
      cases change key with
      | none => exact ih.cons key
      | some op => exact ih.cons_cons key

theorem mem_allKeys_iff {key : JsString} :
    key ∈ allKeys oldState newState ↔ oldState.props.get? key ≠ none ∨ newState.props.get? key ≠ none := by
  have hkeys : ∀ state : JsObject Json.Data, key ∈ state.entries.map Prod.fst ↔ state.props.get? key ≠ none := by
    intro state
    rw [(state.entries_perm.map Prod.fst).mem_iff]
    exact not_iff_not.mp (by rw [not_not, JsMap.get?_eq_none_iff]; rfl)
  rw [allKeys, JsSet.mem_elems, JsSet.mem_ofList, List.mem_append, hkeys, hkeys]

theorem get?_copyOf (state : JsObject Json.Data) (key : JsString) :
    (copyOf state).props.get? key = (state.props.get? key).map fun v => .json v.1 :=
  assoc_map (fun v : Json.Data => Value.json v.1) key state.props.entries

theorem roundTrips_iff_keys (oldState newState : PlainState) (origin : PodId) (now : ℕ+) (deltaSeq : ℕ) :
    RoundTrips numbers oldState.object newState.object origin.1 now deltaSeq ↔
      ∀ key ∈ allKeys oldState.object newState.object,
        EqualValue ((change numbers oldState.object newState.object key).elim
          ((oldState.object.props.get? key).map fun v => .json v.1)
          fun op => effect key op ((oldState.object.props.get? key).map fun v => .json v.1))
          (newState.object.props.get? key) := by
  have hnonempty : [] ∉ allKeys oldState.object newState.object := by
    rw [mem_allKeys_iff, not_or, not_not, not_not]
    exact ⟨oldState.nonempty, newState.nonempty⟩
  obtain ⟨entries, hok, hops⟩ := encodeKeys_spec numbers oldState.object
    newState.object origin.2 now hnonempty deltaSeq
  have hencode : encode numbers oldState.object newState.object origin.1 now deltaSeq = .ok entries := by
    rw [encode, if_neg origin.2]
    exact hok
  have hdistinct : ((operations entries).map Prod.fst).Nodup := by
    rw [hops]
    exact (JsSet.ofList _).nodup.sublist (keys_filterMap _ _)
  have hget : ∀ key, (apply (copyOf oldState.object) entries).props.get? key =
      if key ∈ allKeys oldState.object newState.object then
        (change numbers oldState.object newState.object key).elim
          ((oldState.object.props.get? key).map fun v => .json v.1)
          fun op => effect key op ((oldState.object.props.get? key).map fun v => .json v.1)
      else (oldState.object.props.get? key).map fun v => .json v.1 := by
    intro key
    rw [get?_apply hdistinct, hops, assoc_filterMap, get?_copyOf]
    split_ifs <;> rfl
  constructor
  · rintro ⟨entries', hok', hequal⟩ key hkey
    obtain rfl : entries' = entries := Except.ok.inj (hok'.symm.trans hencode)
    have hone := hequal key
    rw [hget, if_pos hkey] at hone
    exact hone
  · intro hequal
    refine ⟨entries, hencode, fun key => ?_⟩
    rw [hget]
    split_ifs with hkey
    · exact hequal key hkey
    · rw [mem_allKeys_iff, not_or, not_not, not_not] at hkey
      rw [hkey.1, hkey.2]
      trivial

theorem change_absent {key : JsString} (hnew : valueAt newState key = none) :
    change numbers oldState newState key = some .delete := by
  rw [change, hnew]

theorem change_added {key : JsString} {newVal : Value} (hnew : valueAt newState key = some newVal)
    (hold : valueAt oldState key = none) : change numbers oldState newState key = some (.set newVal) := by
  rw [change, hnew]
  dsimp only
  rw [hold]

theorem change_both {key : JsString} {oldVal newVal : Value} (hnew : valueAt newState key = some newVal)
    (hold : valueAt oldState key = some oldVal) : change numbers oldState newState key =
      if text numbers oldVal = text numbers newVal then none
      else if oldVal.isPlainObject ∧ newVal.isPlainObject then some (.merge newVal) else some (.set newVal) := by
  rw [change, hnew]
  dsimp only
  rw [hold]

theorem exists_fields {v : Json} (h : (Value.json v).isPlainObject = true) : ∃ fields, v = .object fields := by
  cases v with
  | object fields => exact ⟨fields, rfl⟩
  | null => cases h
  | bool b => cases h
  | number n => cases h
  | string s => cases h
  | array items => cases h

theorem removed_iff {key : JsString} {v : Json.Data} (hold : oldState.props.get? key = some v)
    (hnew : newState.props.get? key = none) :
    EqualValue ((change numbers oldState newState key).elim (some (.json v.1)) fun op =>
      effect key op (some (.json v.1))) none ↔ key ∉ inheritedNames := by
  by_cases hname : key ∈ inheritedNames
  · refine iff_of_false ?_ (not_not.mpr hname)
    rw [change_both (valueAt_inherited hnew hname) (valueAt_own hold)]
    split_ifs <;> simp [EqualValue]
  · rw [change_absent (valueAt_absent hnew hname)]
    exact iff_of_true trivial hname

theorem added_iff {key : JsString} {w : Json.Data} (hold : oldState.props.get? key = none)
    (hnew : newState.props.get? key = some w) :
    EqualValue ((change numbers oldState newState key).elim none fun op => effect key op none) (some w) ↔
      key ≠ protoKey := by
  by_cases hproto : key = protoKey
  · refine iff_of_false ?_ (not_not.mpr hproto)
    cases change numbers oldState newState key with
    | none => exact fun h => h
    | some op =>
        cases op <;> simp [effect, hproto, EqualValue]
  · refine iff_of_true ?_ hproto
    have hset : change numbers oldState newState key = some (.set (.json w.1)) := by
      by_cases hname : key ∈ inheritedNames
      · have htext : text numbers (.inherited key) ≠ text numbers (.json w.1) := by
          have hnone : text numbers (.inherited key) = none := if_neg hproto
          rw [hnone]
          exact fun h => by cases h
        rw [change_both (valueAt_own hnew) (valueAt_inherited hold hname), if_neg htext, if_neg]
        rintro ⟨hobject, _⟩
        exact hproto (of_decide_eq_true hobject)
      · exact change_added (valueAt_own hnew) (valueAt_absent hold hname)
    rw [hset]
    unfold effect
    dsimp only [Option.elim_some]
    rw [if_neg fun h => hproto h.1]
    exact rfl

theorem kept_iff {key : JsString} {v w : Json.Data} (hold : oldState.props.get? key = some v)
    (hnew : newState.props.get? key = some w) :
    EqualValue ((change numbers oldState newState key).elim (some (.json v.1)) fun op =>
      effect key op (some (.json v.1))) (some w) ↔
      ∀ oldFields newFields, v.1 = .object oldFields → w.1 = .object newFields →
        oldFields.map Prod.fst ⊆ newFields.map Prod.fst := by
  rw [change_both (valueAt_own hnew) (valueAt_own hold)]
  by_cases htext : text numbers (.json v.1) = text numbers (.json w.1)
  · have hcopy := Json.stringify_injective (Option.some.inj htext)
    have heq : v.1 = w.1 := by rw [← Json.copy_of_isData v.2, hcopy, Json.copy_of_isData w.2]
    rw [if_pos htext]
    refine iff_of_true (congrArg _ heq) fun oldFields newFields hv hw => ?_
    rw [heq, hw, Json.object.injEq] at hv
    rw [hv]
    exact fun _ h => h
  · rw [if_neg htext]
    by_cases hobjects : (Value.json v.1).isPlainObject ∧ (Value.json w.1).isPlainObject
    · obtain ⟨oldFields, hv⟩ := exists_fields hobjects.1
      obtain ⟨newFields, hw⟩ := exists_fields hobjects.2
      have hspread : Spread.spread (Value.json v.1) (Value.json w.1) =
          .json (.object (spreadFields oldFields newFields)) := by
        rw [hv, hw]
        rfl
      have hsame : EqualValue (some (.json (.object (spreadFields oldFields newFields)))) (some w) ↔
          oldFields.map Prod.fst ⊆ newFields.map Prod.fst := by
        unfold EqualValue
        dsimp only
        rw [hw]
        exact same_spreadFields_iff (Json.isData_object.mp (hv ▸ v.2)).1 (Json.isData_object.mp (hw ▸ w.2)).1
      rw [if_pos hobjects, Option.elim_some, effect_merge_own, hspread, hsame]
      constructor
      · intro hsub old new hold hnew
        rw [hv, Json.object.injEq] at hold
        rw [hw, Json.object.injEq] at hnew
        rw [← hold, ← hnew]
        exact hsub
      · exact fun h => h oldFields newFields hv hw
    · rw [if_neg hobjects, Option.elim_some, effect_set_own]
      refine iff_of_true rfl fun oldFields newFields hv hw => ?_
      rw [hv, hw] at hobjects
      exact absurd ⟨rfl, rfl⟩ hobjects

/-- The new state comes out exactly if no key or field is lost that would have to go and `__proto__` is not added. -/
theorem roundTrips_iff (numbers : NumberText) (oldState newState : PlainState) (origin : PodId) (now : ℕ+)
    (deltaSeq : ℕ) : RoundTrips numbers oldState.object newState.object origin.1 now deltaSeq ↔
      Mergeable oldState.object newState.object := by
  rw [roundTrips_iff_keys]
  refine forall_congr' fun key => ?_
  cases hold : oldState.object.props.get? key with
  | none =>
      cases hnew : newState.object.props.get? key with
      | none =>
          refine iff_of_true (fun hkey => ?_) ⟨fun h => absurd rfl h, fun _ h => absurd rfl h, fun v w _ _ hv => ?_⟩
          · rw [mem_allKeys_iff, hold, hnew] at hkey
            exact absurd rfl (hkey.elim id id)
          · cases hv
      | some w =>
          have hkey : key ∈ allKeys oldState.object newState.object :=
            mem_allKeys_iff.mpr (Or.inr (by rw [hnew]; exact Option.some_ne_none w))
          rw [forall_prop_of_true hkey, Option.map_none, added_iff hold hnew]
          exact ⟨fun h => ⟨fun h' => absurd rfl h', fun _ _ => h, fun v w _ _ hv => by cases hv⟩,
            fun h => h.2.1 rfl (Option.some_ne_none w)⟩
  | some v =>
      have hkey : key ∈ allKeys oldState.object newState.object :=
        mem_allKeys_iff.mpr (Or.inl (by rw [hold]; exact Option.some_ne_none v))
      rw [forall_prop_of_true hkey, Option.map_some]
      cases hnew : newState.object.props.get? key with
      | none =>
          rw [removed_iff hold hnew]
          exact ⟨fun h => ⟨fun _ _ => h, fun h' => absurd h' (Option.some_ne_none v),
            fun _ w _ _ _ hw => absurd hw (Option.some_ne_none w).symm⟩, fun h => h.1 (Option.some_ne_none v) rfl⟩
      | some w =>
          rw [kept_iff hold hnew]
          refine ⟨fun h => ⟨fun _ h' => absurd h' (Option.some_ne_none w), fun h' => absurd h' (Option.some_ne_none v),
            fun v' w' oldFields newFields hv hw => ?_⟩,
            fun h oldFields newFields hv hw => h.2.2 v w oldFields newFields rfl rfl hv hw⟩
          obtain rfl := Option.some.inj hv
          obtain rfl := Option.some.inj hw
          exact h oldFields newFields

end encode

theorem profile_ne_nil : js "profile" ≠ [] := by decide

def profileObject (v : Json.Data) : JsObject Json.Data := ⟨⟨[(js "profile", v)], List.nodup_singleton _⟩⟩

theorem get?_profileObject (v : Json.Data) (key : JsString) :
    (profileObject v).props.get? key = if js "profile" = key then some v else none := rfl

/-- A state with one object under the key `profile`. -/
def profile (fields : Json.Fields) (h : Json.isData (.object fields) = true) : PlainState where
  object := profileObject ⟨.object fields, h⟩
  nonempty := (get?_profileObject _ []).trans (if_neg profile_ne_nil)

theorem get?_profile (fields : Json.Fields) (h : Json.isData (.object fields) = true) :
    (profile fields h).object.props.get? (js "profile") = some ⟨.object fields, h⟩ :=
  (get?_profileObject _ _).trans (if_pos rfl)

theorem isData_two : Json.isData (.object [(js "name", .null), (js "age", .null)]) = true := by decide +kernel

theorem isData_one : Json.isData (.object [(js "name", .null)]) = true := by decide +kernel

/-- A field that disappears from an object comes back. -/
theorem removed_field_stays (numbers : NumberText) (origin : PodId) (now : ℕ+) (deltaSeq : ℕ) :
    ¬ RoundTrips numbers (profile _ isData_two).object (profile _ isData_one).object origin.1 now deltaSeq := by
  intro h
  have hold := get?_profile _ isData_two
  have hnew := get?_profile _ isData_one
  have hkey : js "profile" ∈ allKeys (profile _ isData_two).object (profile _ isData_one).object :=
    mem_allKeys_iff.mpr (Or.inl (by rw [hold]; exact Option.some_ne_none _))
  have hone := (roundTrips_iff_keys _ _ origin now deltaSeq).mp h _ hkey
  rw [hold, hnew, Option.map_some, kept_iff hold hnew] at hone
  have hage := hone _ _ rfl rfl (List.mem_cons_of_mem _ List.mem_cons_self)
  exact absurd hage (by decide)

theorem not_all_round_trip : ¬ ∀ (numbers : NumberText) (oldState newState : PlainState) (origin : PodId) (now : ℕ+)
    (deltaSeq : ℕ), RoundTrips numbers oldState.object newState.object origin.1 now deltaSeq := fun h =>
  removed_field_stays unitNumbers ⟨js "profile", profile_ne_nil⟩ 1 0 (h _ _ _ _ _ _)

end DeltaCodec
end BrowserMesh.Sync
