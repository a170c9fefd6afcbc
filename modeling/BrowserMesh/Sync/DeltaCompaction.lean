import BrowserMesh.Sync.DeltaCodec

/-! # Compaction of delta logs

A log is replayed key by key: the operations of a key change its own property only (`get?_replay`).  Compaction
keeps the last entry of every key.

* `LastCounts`: the last operation of a key has the effect of them all, whatever the key held before
  (`collapses_of_lastCounts`, `lastCounts_of_collapses`).  A merge adds to what earlier operations left.  The key
  `__proto__` is left out (`PlainKeys`).
* `get?_getVectorClock`: the clock holds the greatest number of every origin, so compaction loses the origins whose
  entries were all overridden.
* `compaction_preserves_iff`: logs that may be compacted (`Compactable`), and sequences of appends that compact no other
  (`Harmless`). -/

namespace BrowserMesh.Sync
open Js DeltaCodec

/-! ### Values up to the order of fields -/

section values
open Json

/-- The value with the fields of all its objects sorted. -/
abbrev sorted : Json → Json := selected fun _ => true

theorem assoc_mapValues (r : Json → Json) (key : JsString) (fields : Fields) :
    assoc key (mapValues r fields) = (assoc key fields).map r := assoc_map r key fields

theorem assoc_of_perm {fields fields' : Fields} (h : Keyed fields) (hperm : fields.Perm fields') (key : JsString) :
    assoc key fields = assoc key fields' := by
  cases hkey : assoc key fields with
  | none =>
      rw [assoc_eq_none_iff, (hperm.map Prod.fst).mem_iff] at hkey
      exact (assoc_eq_none_iff.mpr hkey).symm
  | some v => exact (assoc_of_mem (h.perm hperm.symm) (hperm.subset (mem_of_assoc hkey))).symm

theorem same_object_iff {fields fields' : Fields} (h : Keyed fields) (h' : Keyed fields') :
    Same (.object fields) (.object fields') ↔
      ∀ key, (assoc key fields).map sorted = (assoc key fields').map sorted := by
  have hkeyed : Keyed (mapValues sorted fields) ↔ Keyed fields := keyed_mapValues
  have hkeyed' : Keyed (mapValues sorted fields') ↔ Keyed fields' := keyed_mapValues
  unfold Same
  rw [selected_object, selected_object, Json.object.injEq]
  constructor
  · intro heq key
    have hperm : (mapValues sorted fields).Perm (mapValues sorted fields') := by
      have hleft := select_perm (fun _ => true) (mapValues sorted fields)
      have hright := select_perm (fun _ => true) (mapValues sorted fields')
      rw [List.filter_true] at hleft hright
      rw [heq] at hleft
      exact hleft.symm.trans hright
    rw [← assoc_mapValues, ← assoc_mapValues]
    exact assoc_of_perm (hkeyed.mpr h) hperm key
  · intro hall
    refine select_congr (hkeyed.mpr h) ((perm_of_assoc (hkeyed.mpr h) (hkeyed'.mpr h') fun key => ?_).filter _)
    rw [assoc_mapValues, assoc_mapValues]
    exact hall key

def own (v : Json.Data) : Fields := (Value.json v.1).ownFields

/-- `typeof v === 'object' && v !== null`. -/
def objectLike (v : Json.Data) : Bool := (Value.json v.1).isObjectLike

theorem nodup_indices {α β : Type} (f : α → β) (l : List α) :
    ((l.zipIdx.map fun e => (decimal e.2, f e.1)).map Prod.fst).Nodup := by
  have hkeys : (l.zipIdx.map fun e => (decimal e.2, f e.1)).map Prod.fst = (l.zipIdx.map Prod.snd).map decimal := by
    rw [List.map_map, List.map_map]
    rfl
  rw [hkeys, List.zipIdx_map_snd]
  exact List.Nodup.map decimal_injective List.nodup_range'

theorem keyed_own (v : Json.Data) : Keyed (own v) := by
  obtain ⟨v, hv⟩ := v
  cases v with
  | object fields => exact (isData_object.mp hv).1
  | array items => exact nodup_indices id items
  | string s => exact nodup_indices (fun c => Json.string [c]) s
  | null => exact List.nodup_nil
  | bool b => exact List.nodup_nil
  | number n => exact List.nodup_nil

theorem isData_own (v : Json.Data) : ∀ f ∈ own v, isData f.2 = true := by
  obtain ⟨v, hv⟩ := v
  cases v with
  | object fields => exact (isData_object.mp hv).2
  | array items =>
      intro f hf
      obtain ⟨e, he, rfl⟩ := List.mem_map.mp hf
      have hmem := List.mem_map_of_mem (f := Prod.fst) he
      rw [List.zipIdx_map_fst] at hmem
      exact isData_array.mp hv e.1 hmem
  | string s =>
      intro f hf
      obtain ⟨e, -, rfl⟩ := List.mem_map.mp hf
      rfl
  | null => exact fun f hf => absurd hf List.not_mem_nil
  | bool b => exact fun f hf => absurd hf List.not_mem_nil
  | number n => exact fun f hf => absurd hf List.not_mem_nil

theorem isData_spread (old value : Json.Data) : isData (.object (spreadFields (own old) (own value))) = true := by
  refine isData_object.mpr ⟨keyed_spreadFields (keyed_own old), fun f hf => ?_⟩
  have hassoc : assoc f.1 (spreadFields (own old) (own value)) = some f.2 :=
    assoc_of_mem (keyed_spreadFields (keyed_own old)) hf
  rw [assoc_spreadFields (keyed_own value)] at hassoc
  obtain hvalue | ⟨-, hold⟩ := Option.or_eq_some_iff.mp hassoc
  · exact isData_own value _ (mem_of_assoc hvalue)
  · exact isData_own old _ (mem_of_assoc hold)

/-- What `apply` assigns for a merge. -/
instance spreadData : Spread Json.Data where
  spread old value :=
    if objectLike old then ⟨.object (spreadFields (own old) (own value)), isData_spread old value⟩ else value

variable {old : Json.Data}

theorem spread_objectLike (h : objectLike old = true) (value : Json.Data) :
    Spread.spread old value = ⟨.object (spreadFields (own old) (own value)), isData_spread old value⟩ := if_pos h

theorem spread_other (h : objectLike old = false) (value : Json.Data) :
    Spread.spread old value = value := if_neg (by rw [h]; exact Bool.false_ne_true)

theorem assoc_own_spread (h : objectLike old = true) (value : Json.Data) (key : JsString) :
    assoc key (own (Spread.spread old value)) = (assoc key (own value)).or (assoc key (own old)) := by
  rw [spread_objectLike h]
  exact assoc_spreadFields (keyed_own value) key

theorem Same.shape {v w : Json} (h : Json.Same v w) :
    (∃ fields fields', v = .object fields ∧ w = .object fields') ∨
      (∃ items items', v = .array items ∧ w = .array items' ∧ items.map sorted = items'.map sorted) ∨
      v = w := by
  have harray : ∀ items, sorted (.array items) = .array (items.map sorted) := fun items => rebuild_array _ items
  have hobject : ∀ fields, ∃ fields', sorted (.object fields) = .object fields' := fun fields =>
    ⟨_, rebuild_object _ fields⟩
  have h : sorted v = sorted w := h
  cases v with
  | object fields =>
      obtain ⟨_, hfields⟩ := hobject fields
      rw [hfields] at h
      cases w with
      | object fields' => exact Or.inl ⟨fields, fields', rfl, rfl⟩
      | array items => rw [harray] at h; cases h
      | null | bool _ | number _ | string _ => cases h
  | array items =>
      rw [harray] at h
      cases w with
      | object fields' =>
          obtain ⟨_, hfields⟩ := hobject fields'
          rw [hfields] at h
          cases h
      | array items' =>
          rw [harray] at h
          exact Or.inr (Or.inl ⟨items, items', rfl, rfl, Json.array.inj h⟩)
      | null | bool _ | number _ | string _ => cases h
  | null | bool _ | number _ | string _ =>
      cases w with
      | object fields' =>
          obtain ⟨_, hfields⟩ := hobject fields'
          rw [hfields] at h
          cases h
      | array items' => rw [harray] at h; cases h
      | null | bool _ | number _ | string _ => exact Or.inr (Or.inr h)

theorem Same.own {v w : Json.Data} (h : Json.Same v.1 w.1) :
    objectLike v = objectLike w ∧ ∀ key, (assoc key (own v)).map sorted = (assoc key (own w)).map sorted := by
  obtain ⟨v, hv⟩ := v
  obtain ⟨w, hw⟩ := w
  obtain ⟨fields, fields', rfl, rfl⟩ | ⟨items, items', rfl, rfl, hitems⟩ | heq := Same.shape h
  · exact ⟨rfl, (same_object_iff (keyed_own ⟨_, hv⟩) (keyed_own ⟨_, hw⟩)).mp h⟩
  · refine ⟨rfl, fun key => ?_⟩
    have hindexed : ∀ l : List Json, mapValues sorted (l.zipIdx.map fun e => (decimal e.2, e.1)) =
        (l.map sorted).zipIdx.map fun e => (decimal e.2, e.1) := by
      intro l
      rw [mapValues, List.map_map, List.zipIdx_map, List.map_map]
      rfl
    have hown : ∀ l : List Json, (assoc key (l.zipIdx.map fun e => (decimal e.2, e.1))).map sorted =
        assoc key ((l.map sorted).zipIdx.map fun e => (decimal e.2, e.1)) := by
      intro l
      rw [← assoc_mapValues, hindexed]
    exact (hown items).trans ((congrArg (fun l : List Json => assoc key (l.zipIdx.map fun e => (decimal e.2, e.1)))
      hitems).trans (hown items').symm)
  · obtain rfl : v = w := heq
    exact ⟨rfl, fun _ => rfl⟩

end values

/-! ### One key -/

/-- The own property of a key, up to the order of fields. -/
def view (c : Option Json.Data) : Option Json := c.map fun v => sorted v.1

theorem view_some {v w : Json.Data} : view (some v) = view (some w) ↔ Json.Same v.1 w.1 := by
  rw [view, view, Option.map_some, Option.map_some, Option.some.injEq]
  rfl

def replay (key : JsString) (ops : List (DeltaOp Json.Data)) (c : Option Json.Data) : Option Json.Data :=
  ops.foldl (fun c op => effect key op c) c

theorem replay_concat (key : JsString) (ops : List (DeltaOp Json.Data)) (op : DeltaOp Json.Data)
    (c : Option Json.Data) : replay key (ops ++ [op]) c = effect key op (replay key ops c) := by
  rw [replay, List.foldl_append]
  rfl

def opsOf (key : JsString) (entries : List (DeltaEntry Json.Data)) : List (DeltaOp Json.Data) :=
  (entries.filter fun e => e.key.1 = key).map DeltaEntry.op

/-- **Replay by keys.** -/
theorem get?_replay (entries : List (DeltaEntry Json.Data)) (state : JsObject Json.Data) (key : JsString) :
    (apply state entries).props.get? key = replay key (opsOf key entries) (state.props.get? key) := by
  induction entries generalizing state with
  | nil => rfl
  | cons e entries ih =>
      have happly : apply state (e :: entries) = apply (applyEntry state e) entries := rfl
      rw [happly, ih, get?_applyEntry, opsOf, opsOf]
      by_cases hkey : key = e.key.1
      · rw [if_pos hkey, List.filter_cons_of_pos (by simpa using hkey.symm)]
        rfl
      · rw [if_neg hkey, List.filter_cons_of_neg (by simpa using Ne.symm hkey)]

section collapse
variable {key : JsString}
variable {c d : Option Json.Data}

theorem view_effect (h : view c = view d) (op : DeltaOp Json.Data) :
    view (effect key op c) = view (effect key op d) := by
  cases c with
  | none =>
      cases d with
      | none => rfl
      | some w => cases h
  | some v =>
      cases d with
      | none => cases h
      | some w =>
          cases op with
          | delete => rfl
          | set value => rw [effect_set_own, effect_set_own]
          | merge value =>
              rw [effect_merge_own, effect_merge_own, view_some]
              obtain ⟨hlike, hfields⟩ := Same.own (view_some.mp h)
              cases hv : objectLike v with
              | false =>
                  rw [spread_other hv, spread_other (hlike ▸ hv)]
                  exact rfl
              | true =>
                  have hw : objectLike w = true := hlike ▸ hv
                  rw [spread_objectLike hv, spread_objectLike hw]
                  refine (same_object_iff (keyed_spreadFields (keyed_own v)) (keyed_spreadFields (keyed_own w))).mpr
                    fun key' => ?_
                  rw [assoc_spreadFields (keyed_own value), assoc_spreadFields (keyed_own value)]
                  cases assoc key' (own value) with
                  | some x => rfl
                  | none => exact hfields key'

theorem view_replay (h : view c = view d) (ops : List (DeltaOp Json.Data)) :
    view (replay key ops c) = view (replay key ops d) := by
  induction ops generalizing c d with
  | nil => exact h
  | cons op ops ih => exact ih (view_effect h op)

def fieldNames (v : Json.Data) : List JsString := (own v).map Prod.fst

variable {v : Json.Data}

theorem mem_fieldNames {name : JsString} : name ∈ fieldNames v ↔ assoc name (own v) ≠ none := by
  rw [ne_eq, assoc_eq_none_iff, not_not]
  rfl

variable {old : Json.Data}

theorem mem_fieldNames_spread {value : Json.Data} (h : objectLike old = true) {name : JsString} :
    name ∈ fieldNames (Spread.spread old value) ↔ name ∈ fieldNames value ∨ name ∈ fieldNames old := by
  rw [mem_fieldNames, mem_fieldNames, mem_fieldNames, assoc_own_spread h, ne_eq, Option.or_eq_none_iff]
  tauto

theorem objectLike_spread (h : objectLike old = true) (value : Json.Data) :
    objectLike (Spread.spread old value) = true := by
  rw [spread_objectLike h]
  rfl

/-- What came before the last operation of a key does not count: a merge counts on the fields that it does not have
itself. -/
def LastCounts (earlier : List (DeltaOp Json.Data)) : DeltaOp Json.Data → Prop
  | .set _ => True
  | .delete => True
  | .merge v =>
      (∀ op ∈ earlier, ∃ u, op = .merge u ∧ fieldNames u ⊆ fieldNames v) ∧
        ((Value.json v.1).isPlainObject = true ∨ ∀ u, .merge u ∈ earlier → objectLike u = false)

theorem effect_merge (hkey : key ≠ protoKey) (v : Json.Data) (c : Option Json.Data) :
    effect key (.merge v) c = some (c.elim v (Spread.spread · v)) := if_neg fun h => hkey h.1

variable {ops : List (DeltaOp Json.Data)}

variable (key) in
theorem replay_forgets (h : ∃ op ∈ ops, ∀ u, op ≠ .merge u)
    (hcd : c = none ↔ d = none) : replay key ops c = replay key ops d := by
  induction ops generalizing c d with
  | nil =>
      obtain ⟨op, hop, -⟩ := h
      exact absurd hop List.not_mem_nil
  | cons op ops ih =>
      have hcons : ∀ c, replay key (op :: ops) c = replay key ops (effect key op c) := fun _ => rfl
      rw [hcons, hcons]
      cases op with
      | delete => rfl
      | set value =>
          have heq : effect key (.set value) c = effect key (.set value) d := by
            unfold effect
            simp only [hcd]
          rw [heq]
      | merge value =>
          obtain ⟨op, hop, hno⟩ := h
          rcases List.mem_cons.mp hop with rfl | hop
          · exact absurd rfl (hno value)
          · refine ih ⟨op, hop, hno⟩ ?_
            unfold effect
            simp only [hcd]
            split_ifs with hnone
            · exact Iff.rfl
            · exact Iff.rfl

variable (key) in
theorem replay_merges (h : ∀ op ∈ ops, ∃ u, op = .merge u)
    (hold : objectLike old = true) : ∃ w, replay key ops (some old) = some w ∧ objectLike w = true ∧
      ∀ name, assoc name (own w) ≠ none ↔ name ∈ fieldNames old ∨ ∃ u, .merge u ∈ ops ∧ name ∈ fieldNames u := by
  induction ops generalizing old with
  | nil => exact ⟨old, rfl, hold, fun name => by simp [mem_fieldNames]⟩
  | cons op ops ih =>
      obtain ⟨u, rfl⟩ := h op List.mem_cons_self
      obtain ⟨w, hw, hlike, hfields⟩ := ih (fun op hop => h op (List.mem_cons_of_mem _ hop)) (objectLike_spread hold u)
      refine ⟨w, ?_, hlike, fun name => ?_⟩
      · rw [← hw, ← effect_merge_own key u old]
        rfl
      · rw [hfields, mem_fieldNames_spread hold]
        simp only [List.mem_cons, DeltaOp.merge.injEq, or_and_right, exists_or, exists_eq_left]
        tauto

variable (key) in
theorem replay_merges_other (h : ∀ op ∈ ops, ∃ u, op = .merge u ∧ fieldNames u ⊆ fieldNames v)
    (hold : objectLike old = true) :
    ∃ w, replay key ops (some old) = some w ∧ objectLike w = true ∧
      ∀ name, name ∉ fieldNames v → assoc name (own w) = assoc name (own old) := by
  induction ops generalizing old with
  | nil => exact ⟨old, rfl, hold, fun _ _ => rfl⟩
  | cons op ops ih =>
      obtain ⟨u, rfl, hsub⟩ := h op List.mem_cons_self
      obtain ⟨w, hw, hlike, hfields⟩ := ih (fun op hop => h op (List.mem_cons_of_mem _ hop)) (objectLike_spread hold u)
      refine ⟨w, ?_, hlike, fun name hname => ?_⟩
      · rw [← hw, ← effect_merge_own key u old]
        rfl
      · have hnone : assoc name (own u) = none := by
          by_contra hne
          exact hname (hsub (mem_fieldNames.mpr hne))
        rw [hfields name hname, assoc_own_spread hold, hnone, Option.none_or]

/-- What merges leave of nothing, or of a value that is no object: such a value, or an object with merged fields
only. -/
def Fresh (v : Json.Data) (merged : Prop) (c : Option Json.Data) : Prop :=
  ∀ w, c = some w → objectLike w = false ∨ fieldNames w ⊆ fieldNames v ∧ merged

theorem replay_fresh {merged : Prop}
    (h : ∀ op ∈ ops, ∃ u, op = .merge u ∧ fieldNames u ⊆ fieldNames v ∧ (objectLike u = true → merged))
    (hc : Fresh v merged c) : Fresh v merged (replay key ops c) := by
  induction ops generalizing c with
  | nil => exact hc
  | cons op ops ih =>
      obtain ⟨u, rfl, hsub, hmerged⟩ := h op List.mem_cons_self
      refine ih (fun op hop => h op (List.mem_cons_of_mem _ hop)) fun w hw => ?_
      have hu : objectLike u = false ∨ fieldNames u ⊆ fieldNames v ∧ merged := by
        cases hlike : objectLike u with
        | false => exact Or.inl rfl
        | true => exact Or.inr ⟨hsub, hmerged hlike⟩
      have hw : effect key (.merge u) c = some w := hw
      cases c with
      | none =>
          unfold effect at hw
          simp only at hw
          split_ifs at hw
          obtain rfl : u = w := Option.some.inj hw
          exact hu
      | some old =>
          rw [effect_merge_own, Option.some.injEq] at hw
          subst hw
          obtain hother | ⟨hfields, hm⟩ := hc old rfl
          · rw [spread_other hother]
            exact hu
          · cases hlike : objectLike old with
            | false =>
                rw [spread_other hlike]
                exact hu
            | true =>
                refine Or.inr ⟨fun name hname => ?_, hm⟩
                obtain hname | hname := (mem_fieldNames_spread hlike).mp hname
                · exact hsub hname
                · exact hfields hname

theorem exists_object (h : (Value.json v.1).isPlainObject = true) : ∃ fields, v.1 = .object fields :=
  exists_fields h

/-- **Enough**: the last operation has the effect of them all, up to the order of fields. -/
theorem collapses_of_lastCounts (hkey : key ≠ protoKey) {earlier : List (DeltaOp Json.Data)}
    {last : DeltaOp Json.Data} (h : LastCounts earlier last) (c : Option Json.Data) :
    view (effect key last (replay key earlier c)) = view (effect key last c) := by
  cases last with
  | delete => rfl
  | set v =>
      unfold effect
      simp only [hkey, false_and, if_false]
  | merge v =>
      obtain ⟨hmerges, hplain⟩ := h
      by_cases hobject : ∃ old, c = some old ∧ objectLike old = true
      · obtain ⟨old, rfl, hold⟩ := hobject
        obtain ⟨w, hw, hlike, hfields⟩ := replay_merges_other key hmerges hold
        rw [hw, effect_merge_own, effect_merge_own, view_some, spread_objectLike hlike, spread_objectLike hold]
        refine (same_object_iff (keyed_spreadFields (keyed_own w)) (keyed_spreadFields (keyed_own old))).mpr
          fun name => ?_
        rw [assoc_spreadFields (keyed_own v), assoc_spreadFields (keyed_own v)]
        cases hname : assoc name (own v) with
        | some x => rfl
        | none => rw [hfields name (mt mem_fieldNames.mp (not_not.mpr hname))]
      · have hlast : view (effect key (.merge v) c) = view (some v) := by
          rw [effect_merge hkey]
          cases c with
          | none => rfl
          | some old =>
              have hother : objectLike old = false := by
                by_contra hne
                exact hobject ⟨old, rfl, by simpa using hne⟩
              rw [Option.elim_some, spread_other hother]
        rw [hlast, effect_merge hkey]
        have hfresh : Fresh v ((Value.json v.1).isPlainObject = true) (replay key earlier c) := by
          refine replay_fresh (fun op hop => ?_) fun w hw => Or.inl ?_
          · obtain ⟨u, rfl, hsub⟩ := hmerges op hop
            refine ⟨u, rfl, hsub, fun hlike => ?_⟩
            obtain hplain | hnone := hplain
            · exact hplain
            · rw [hnone u hop] at hlike
              cases hlike
          · by_contra hne
            exact hobject ⟨w, hw, by simpa using hne⟩
        cases hw : replay key earlier c with
        | none => rfl
        | some w =>
            rw [Option.elim_some]
            obtain hother | ⟨hsub, hplain⟩ := hfresh w hw
            · rw [spread_other hother]
            · cases hlike : objectLike w with
              | false => rw [spread_other hlike]
              | true =>
                  rw [view_some, spread_objectLike hlike]
                  obtain ⟨fields, hfields⟩ := exists_object hplain
                  have hown : own v = fields := by
                    unfold own
                    rw [hfields]
                    rfl
                  have hkeyed := keyed_own v
                  rw [hown] at hkeyed
                  have hsub' : (own w).map Prod.fst ⊆ fields.map Prod.fst := by
                    rw [← hown]
                    exact hsub
                  show Json.Same (.object (spreadFields (own w) (own v))) v.1
                  rw [hown, hfields]
                  exact (same_spreadFields_iff (keyed_own w) hkeyed).mpr hsub'

theorem isData_single (name : JsString) : Json.isData (.object [(name, .null)]) = true :=
  Json.isData_object.mpr ⟨List.nodup_singleton name, fun f hf => by rw [List.mem_singleton.mp hf]; rfl⟩

def single (name : JsString) : Json.Data := ⟨.object [(name, .null)], isData_single name⟩

def emptyObject : Json.Data := ⟨.object [], rfl⟩

theorem isData_null : Json.isData .null = true := rfl

def nullValue : Json.Data := ⟨.null, isData_null⟩

variable (key) in
theorem replay_objectLike (h : ∀ op ∈ ops, ∃ u, op = .merge u) {u : Json.Data}
    (hu : .merge u ∈ ops) (hlike : objectLike u = true) (hold : objectLike old = false) :
    ∃ w, replay key ops (some old) = some w ∧ objectLike w = true := by
  induction ops generalizing old with
  | nil => exact absurd hu List.not_mem_nil
  | cons op ops ih =>
      obtain ⟨u', rfl⟩ := h op List.mem_cons_self
      have hrest : ∀ op ∈ ops, ∃ u, op = .merge u := fun op hop => h op (List.mem_cons_of_mem _ hop)
      have hcons : replay key (.merge u' :: ops) (some old) = replay key ops (some u') := by
        show replay key ops (effect key (.merge u') (some old)) = _
        rw [effect_merge_own, spread_other hold]
      rw [hcons]
      cases hlike' : objectLike u' with
      | true =>
          obtain ⟨w, hw, hlikew, -⟩ := replay_merges key hrest hlike'
          exact ⟨w, hw, hlikew⟩
      | false =>
          rcases List.mem_cons.mp hu with heq | hu
          · obtain rfl := DeltaOp.merge.inj heq
            rw [hlike] at hlike'
            cases hlike'
          · exact ih hrest hu hlike'

/-- **Needed**: values show what the last operation misses. -/
theorem lastCounts_of_collapses {earlier : List (DeltaOp Json.Data)} {last : DeltaOp Json.Data}
    (h : ∀ c, view (effect key last (replay key earlier c)) = view (effect key last c)) :
    LastCounts earlier last := by
  cases last with
  | delete => trivial
  | set v => trivial
  | merge v =>
      have hmerges : ∀ op ∈ earlier, ∃ u, op = .merge u := by
        by_contra hno
        push Not at hno
        -- two objects that differ in a field that `v` does not have
        obtain ⟨name, hname⟩ := Infinite.exists_notMem_finset (fieldNames v).toFinset
        have hforget : replay key earlier (some emptyObject) = replay key earlier (some (single name)) :=
          replay_forgets key hno (iff_of_false (Option.some_ne_none _) (Option.some_ne_none _))
        have hleft := h (some emptyObject)
        have hright := h (some (single name))
        rw [hforget, hright, effect_merge_own, effect_merge_own, view_some] at hleft
        have hfields := (Same.own hleft).2 name
        have hnone : assoc name (own v) = none := by
          by_contra hne
          exact hname (List.mem_toFinset.mpr (mem_fieldNames.mpr hne))
        rw [assoc_own_spread rfl, assoc_own_spread rfl, hnone] at hfields
        have hsingle : assoc name (own (single name)) = some .null := if_pos rfl
        rw [hsingle] at hfields
        cases hfields
      refine ⟨fun op hop => ?_, ?_⟩
      · obtain ⟨u, rfl⟩ := hmerges op hop
        refine ⟨u, rfl, fun name hname => ?_⟩
        obtain ⟨w, hw, hlike, hfields⟩ := replay_merges key hmerges (rfl : objectLike emptyObject = true)
        have heq := h (some emptyObject)
        rw [hw, effect_merge_own, effect_merge_own, view_some] at heq
        have hsame := (Same.own heq).2 name
        rw [assoc_own_spread hlike, assoc_own_spread rfl] at hsame
        have hwname : assoc name (own w) ≠ none := (hfields name).mpr (Or.inr ⟨u, hop, hname⟩)
        rw [mem_fieldNames]
        intro hnone
        rw [hnone] at hsame
        obtain ⟨x, hx⟩ := Option.ne_none_iff_exists'.mp hwname
        rw [hx] at hsame
        cases hsame
      · by_cases hany : ∀ u, .merge u ∈ earlier → objectLike u = false
        · exact Or.inr hany
        · push Not at hany
          obtain ⟨u, hu, hlike⟩ := hany
          have hu' : objectLike u = true := by simpa using hlike
          obtain ⟨w, hw, hlikew⟩ := replay_objectLike key hmerges hu hu' (rfl : objectLike nullValue = false)
          have heq := h (some nullValue)
          rw [hw, effect_merge_own, effect_merge_own, view_some, spread_objectLike hlikew, spread_other rfl] at heq
          refine Or.inl ?_
          obtain ⟨-, fields', -, hv⟩ | ⟨items, -, hitems, -⟩ | heq := Same.shape heq
          · rw [hv]
            rfl
          · cases hitems
          · rw [← heq]
            rfl

end collapse

/-! ### Meaning and clock -/

def SameState (s t : JsObject Json.Data) : Prop := ∀ key, view (s.props.get? key) = view (t.props.get? key)

def SameMeaning (log log' : DeltaLog Json.Data) : Prop :=
  ∀ state, SameState (apply state log.entries) (apply state log'.entries)

def SameClock (log log' : DeltaLog Json.Data) : Prop :=
  ∀ pod, log.getVectorClock.props.get? pod = log'.getVectorClock.props.get? pod

def holding (key : JsString) (v : Json.Data) : JsObject Json.Data := ⟨⟨[(key, v)], List.nodup_singleton key⟩⟩

theorem sameMeaning_iff {log log' : DeltaLog Json.Data} :
    SameMeaning log log' ↔
      ∀ key c, view (replay key (opsOf key log.entries) c) = view (replay key (opsOf key log'.entries) c) := by
  constructor
  · intro h key c
    obtain ⟨state, rfl⟩ : ∃ state : JsObject Json.Data, state.props.get? key = c := by
      cases c with
      | none => exact ⟨JsObject.empty, rfl⟩
      | some v => exact ⟨holding key v, if_pos rfl⟩
    rw [← get?_replay, ← get?_replay]
    exact h state key
  · intro h state key
    rw [get?_replay, get?_replay]
    exact h key _

def seqsOf (pod : JsString) (entries : List (DeltaEntry Json.Data)) : List ℕ :=
  (entries.filter fun e => e.origin.1 = pod).map DeltaEntry.seq

theorem seqsOf_append (pod : JsString) (entries entries' : List (DeltaEntry Json.Data)) :
    seqsOf pod (entries ++ entries') = seqsOf pod entries ++ seqsOf pod entries' := by
  rw [seqsOf, List.filter_append, List.map_append]
  rfl

theorem mem_seqsOf {pod : JsString} {entries : List (DeltaEntry Json.Data)} {seq : ℕ} :
    seq ∈ seqsOf pod entries ↔ ∃ e ∈ entries, e.origin.1 = pod ∧ e.seq = seq := by
  simp [seqsOf, and_assoc]

theorem get?_bumpClock (vc : JsObject ℕ) (e : DeltaEntry Json.Data) (pod : JsString) :
    (bumpClock vc e).props.get? pod = if e.origin.1 = pod then
        (if pod ∈ inheritedNames ∧ vc.props.get? pod = none then none
          else some (max ((vc.props.get? pod).getD 0) e.seq))
      else vc.props.get? pod := by
  have hother : e.origin.1 ≠ pod → ∀ seq, (vc.assign e.origin.1 seq).props.get? pod = vc.props.get? pod := by
    intro hpod seq
    rw [get?_assign, if_neg (Ne.symm hpod)]
  unfold bumpClock JsObject.read
  cases hget : vc.props.get? e.origin.1 with
  | some known =>
      have hassign : (vc.assign e.origin.1 e.seq).props.get? e.origin.1 = some e.seq := by
        rw [get?_assign, if_pos rfl, if_neg fun h => by rw [hget] at h; cases h.2]
      by_cases hpod : e.origin.1 = pod
      · subst hpod
        have hsome : ¬ (e.origin.1 ∈ inheritedNames ∧ vc.props.get? e.origin.1 = none) := fun h => by
          rw [hget] at h
          cases h.2
        rw [if_pos rfl, if_neg hsome, hget]
        simp only [Option.getD_some]
        split_ifs with hlt
        · rw [hassign, max_eq_right (by omega)]
        · rw [hget, max_eq_left (by omega)]
      · rw [if_neg hpod]
        simp only
        split_ifs
        · exact hother hpod e.seq
        · rfl
  | none =>
      by_cases hpod : e.origin.1 = pod
      · subst hpod
        rw [if_pos rfl]
        by_cases hname : e.origin.1 ∈ inheritedNames
        · rw [if_pos hname, if_pos ⟨hname, hget⟩]
          exact hget
        · have hproto : e.origin.1 ≠ protoKey := fun heq => hname (heq ▸ List.mem_cons_self)
          rw [if_neg hname, if_neg fun h => hname h.1, hget]
          show (vc.assign e.origin.1 e.seq).props.get? e.origin.1 = _
          rw [get?_assign, if_pos rfl, if_neg fun h => hproto h.1, Option.getD_none, Nat.zero_max]
      · rw [if_neg hpod]
        by_cases hname : e.origin.1 ∈ inheritedNames
        · rw [if_pos hname]
        · rw [if_neg hname]
          exact hother hpod e.seq

theorem max?_concat (seqs : List ℕ) (seq : ℕ) : (seqs ++ [seq]).max? = some (max (seqs.max?.getD 0) seq) := by
  cases seqs with
  | nil => simp
  | cons x seqs =>
      rw [List.cons_append, List.max?_cons', List.max?_cons', List.foldl_append]
      rfl

/-- **The clock** holds the greatest number of every pod; the inherited names are never assigned. -/
theorem get?_getVectorClock (log : DeltaLog Json.Data) (pod : JsString) :
    log.getVectorClock.props.get? pod = if pod ∈ inheritedNames then none else (seqsOf pod log.entries).max? := by
  obtain ⟨entries, maxSize⟩ := log
  show (entries.foldl bumpClock JsObject.empty).props.get? pod = if pod ∈ inheritedNames then none else
    (seqsOf pod entries).max?
  induction entries using List.reverseRecOn with
  | nil => split_ifs <;> rfl
  | append_singleton entries e ih =>
      rw [List.foldl_append, List.foldl_cons, List.foldl_nil, get?_bumpClock, ih, seqsOf_append]
      by_cases hpod : e.origin.1 = pod
      · have hseqs : seqsOf pod [e] = [e.seq] := by simp [seqsOf, hpod]
        rw [if_pos hpod, hseqs, max?_concat]
        by_cases hname : pod ∈ inheritedNames
        · simp only [hname, and_self, if_true]
        · simp only [hname, false_and, if_false]
      · have hseqs : seqsOf pod [e] = [] := by simp [seqsOf, hpod]
        rw [if_neg hpod, hseqs, List.append_nil]

theorem max?_eq_iff {seqs seqs' : List ℕ} (h : seqs' ⊆ seqs) :
    seqs.max? = seqs'.max? ↔ ∀ x ∈ seqs, ∃ y ∈ seqs', x ≤ y := by
  constructor
  · intro heq x hx
    cases hmax : seqs.max? with
    | none =>
        rw [List.max?_eq_none_iff.mp hmax] at hx
        exact absurd hx List.not_mem_nil
    | some m =>
        have hm := List.max?_eq_some_iff.mp hmax
        rw [hmax] at heq
        exact ⟨m, (List.max?_eq_some_iff.mp heq.symm).1, hm.2 x hx⟩
  · intro hkept
    cases hmax : seqs'.max? with
    | none =>
        have hnil := List.max?_eq_none_iff.mp hmax
        rw [List.max?_eq_none_iff, List.eq_nil_iff_forall_not_mem]
        intro x hx
        obtain ⟨y, hy, -⟩ := hkept x hx
        rw [hnil] at hy
        exact absurd hy List.not_mem_nil
    | some m =>
        obtain ⟨hm, hle⟩ := List.max?_eq_some_iff.mp hmax
        refine List.max?_eq_some_iff.mpr ⟨h hm, fun x hx => ?_⟩
        obtain ⟨y, hy, hxy⟩ := hkept x hx
        exact hxy.trans (hle y hy)

/-! ### Compaction -/

namespace DeltaLog

/-- The map that `compact` builds. -/
def latest (entries : List (DeltaEntry Json.Data)) : JsMap NonEmptyString (DeltaEntry Json.Data) :=
  entries.foldl (fun latest e => latest.set e.key e) JsMap.empty

theorem latest_concat (entries : List (DeltaEntry Json.Data)) (e : DeltaEntry Json.Data) :
    latest (entries ++ [e]) = (latest entries).set e.key e := by
  rw [latest, List.foldl_append]
  rfl

theorem get?_latest (entries : List (DeltaEntry Json.Data)) (key : NonEmptyString) :
    (latest entries).get? key = (entries.filter fun e => e.key.1 = key.1).getLast? := by
  induction entries using List.reverseRecOn with
  | nil => rfl
  | append_singleton entries e ih =>
      rw [latest_concat, JsMap.get?_set, List.filter_append]
      by_cases hkey : key = e.key
      · have hself : ([e].filter fun e => e.key.1 = key.1) = [e] := by simp [hkey]
        rw [if_pos hkey, hself, List.getLast?_concat]
      · have hnone : ([e].filter fun e => e.key.1 = key.1) = [] := by simpa using fun h => hkey (Subtype.ext h.symm)
        rw [if_neg hkey, hnone, List.append_nil, ih]

variable {e : DeltaEntry Json.Data}

theorem key_of_latest {entries : List (DeltaEntry Json.Data)} {key : NonEmptyString}
    (h : (key, e) ∈ (latest entries).entries) : e.key = key := by
  have hget := JsMap.mem_entries_iff.mp h
  rw [get?_latest] at hget
  have hmem := List.mem_of_getLast? hget
  exact Subtype.ext (by simpa using (List.mem_filter.mp hmem).2)

variable {log : DeltaLog Json.Data}

theorem mem_compact :
    e ∈ log.compact.entries ↔ (log.entries.filter fun e' => e'.key.1 = e.key.1).getLast? = some e := by
  rw [← get?_latest, ← JsMap.mem_entries_iff]
  constructor
  · intro h
    obtain ⟨x, hx, rfl⟩ := List.mem_map.mp h
    obtain ⟨key, e⟩ := x
    obtain rfl := key_of_latest hx
    exact hx
  · exact fun h => List.mem_map.mpr ⟨_, h, rfl⟩

theorem compact_subset (log : DeltaLog Json.Data) : log.compact.entries ⊆ log.entries := fun _ h =>
  (List.mem_filter.mp (List.mem_of_getLast? (mem_compact.mp h))).1

theorem filter_compact (log : DeltaLog Json.Data) (key : JsString) :
    (log.compact.entries.filter fun e => e.key.1 = key) =
      (log.entries.filter fun e => e.key.1 = key).getLast?.toList := by
  have hnodup : log.compact.entries.Pairwise fun e e' => e.key ≠ e'.key := by
    have hkeys : (latest log.entries).entries.Pairwise fun x y => x.1 ≠ y.1 :=
      List.pairwise_map.mp (latest log.entries).nodup
    refine List.pairwise_map.mpr (hkeys.imp_of_mem fun {x y} hx hy hne => ?_)
    rw [key_of_latest hx, key_of_latest hy]
    exact hne
  cases hlast : (log.entries.filter fun e => e.key.1 = key).getLast? with
  | none =>
      rw [List.getLast?_eq_none_iff, List.filter_eq_nil_iff] at hlast
      exact List.filter_eq_nil_iff.mpr fun e he => hlast e (compact_subset log he)
  | some e =>
      have hkey : e.key.1 = key := by simpa using (List.mem_filter.mp (List.mem_of_getLast? hlast)).2
      have hmem : e ∈ log.compact.entries := by
        rw [mem_compact, hkey]
        exact hlast
      refine List.perm_singleton.mp ((List.perm_ext_iff_of_nodup ?_ (List.nodup_singleton e)).mpr fun e' => ?_)
      · exact (hnodup.imp fun hne heq => hne (congrArg DeltaEntry.key heq)).filter _
      · rw [List.mem_filter, List.mem_singleton]
        constructor
        · rintro ⟨hmem', hkey'⟩
          have hlast' := mem_compact.mp hmem'
          rw [show e'.key.1 = key by simpa using hkey', hlast] at hlast'
          exact (Option.some.inj hlast').symm
        · rintro rfl
          exact ⟨hmem, by simpa using hkey⟩

theorem opsOf_compact (log : DeltaLog Json.Data) (key : JsString) :
    opsOf key log.compact.entries = (opsOf key log.entries).getLast?.toList := by
  rw [opsOf, opsOf, filter_compact, List.getLast?_map]
  cases (log.entries.filter fun e => e.key.1 = key).getLast? with
  | none => rfl
  | some e => rfl

/-- The meaning stays: what came before the last operation of a key does not count. -/
def MeaningKept (entries : List (DeltaEntry Json.Data)) : Prop :=
  ∀ key earlier last, opsOf key entries = earlier ++ [last] → LastCounts earlier last

/-- The clock stays: the origin of every entry is also the origin of an entry that has no less a number and is the last
one of its key. -/
def ClockKept (entries : List (DeltaEntry Json.Data)) : Prop :=
  ∀ e ∈ entries, e.origin.1 ∉ inheritedNames →
    ∃ e', (entries.filter fun e'' => e''.key.1 = e'.key.1).getLast? = some e' ∧
      e'.origin = e.origin ∧ e.seq ≤ e'.seq

theorem sameMeaning_compact_iff (hkeys : PlainKeys log.entries) :
    SameMeaning log log.compact ↔ MeaningKept log.entries := by
  rw [sameMeaning_iff]
  constructor
  · intro h key earlier last hops
    refine @lastCounts_of_collapses key _ _ fun c => ?_
    have heq := h key c
    rw [opsOf_compact, hops, List.getLast?_concat, replay_concat] at heq
    exact heq
  · intro h key c
    rw [opsOf_compact]
    cases hops : opsOf key log.entries using List.reverseRecOn with
    | nil => rfl
    | append_singleton earlier last =>
        have hkey : key ≠ protoKey := by
          have hlast : last ∈ opsOf key log.entries := hops ▸ List.mem_append_right _ List.mem_cons_self
          obtain ⟨e, he, -⟩ := List.mem_map.mp hlast
          obtain ⟨hmem, hown⟩ := List.mem_filter.mp he
          exact of_decide_eq_true hown ▸ hkeys e hmem
        rw [List.getLast?_concat, replay_concat]
        exact collapses_of_lastCounts hkey (h key earlier last hops) c

theorem sameClock_compact_iff (log : DeltaLog Json.Data) : SameClock log log.compact ↔ ClockKept log.entries := by
  have hsubset : ∀ pod, seqsOf pod log.compact.entries ⊆ seqsOf pod log.entries := fun pod =>
    List.map_subset _ (List.filter_subset _ (compact_subset log))
  constructor
  · intro h e he hname
    have heq := h e.origin.1
    rw [get?_getVectorClock, get?_getVectorClock, if_neg hname, if_neg hname] at heq
    obtain ⟨seq, hseq, hle⟩ := (max?_eq_iff (hsubset _)).mp heq e.seq (mem_seqsOf.mpr ⟨e, he, rfl, rfl⟩)
    obtain ⟨e', he', horigin, rfl⟩ := mem_seqsOf.mp hseq
    exact ⟨e', mem_compact.mp he', Subtype.ext horigin, hle⟩
  · intro h pod
    rw [get?_getVectorClock, get?_getVectorClock]
    split_ifs with hname
    · rfl
    · refine (max?_eq_iff (hsubset pod)).mpr fun seq hseq => ?_
      obtain ⟨e, he, rfl, rfl⟩ := mem_seqsOf.mp hseq
      obtain ⟨e', hlast, horigin, hle⟩ := h e he hname
      exact ⟨e'.seq, mem_seqsOf.mpr ⟨e', mem_compact.mpr hlast, congrArg Subtype.val horigin, rfl⟩, hle⟩

/-! ### Appends -/

def Preserved (log log' : DeltaLog Json.Data) : Prop := SameMeaning log log' ∧ SameClock log log'

def Compactable (entries : List (DeltaEntry Json.Data)) : Prop := MeaningKept entries ∧ ClockKept entries

theorem preserved_compact_iff (hkeys : PlainKeys log.entries) :
    Preserved log log.compact ↔ Compactable log.entries :=
  and_congr (sameMeaning_compact_iff hkeys) (sameClock_compact_iff log)

def appended (log : DeltaLog Json.Data) (es : List (DeltaEntry Json.Data)) : DeltaLog Json.Data :=
  { log with entries := log.entries ++ es }

variable {log' : DeltaLog Json.Data}

theorem Preserved.symm (h : Preserved log log') : Preserved log' log :=
  ⟨fun state key => (h.1 state key).symm, fun pod => (h.2 pod).symm⟩

theorem Preserved.trans {log'' : DeltaLog Json.Data} (h : Preserved log log') (h' : Preserved log' log'') :
    Preserved log log'' :=
  ⟨fun state key => (h.1 state key).trans (h'.1 state key), fun pod => (h.2 pod).trans (h'.2 pod)⟩

/-- **Compactions compose**: what is appended later has the same effect on both. -/
theorem Preserved.appended (h : Preserved log log')
    (es : List (DeltaEntry Json.Data)) : Preserved (log.appended es) (log'.appended es) := by
  constructor
  · rw [sameMeaning_iff]
    intro key c
    have happend : ∀ entries, replay key (opsOf key (entries ++ es)) c =
        replay key (opsOf key es) (replay key (opsOf key entries) c) := by
      intro entries
      rw [opsOf, List.filter_append, List.map_append, replay, List.foldl_append]
      rfl
    show view (replay key (opsOf key (log.entries ++ es)) c) = view (replay key (opsOf key (log'.entries ++ es)) c)
    rw [happend, happend]
    exact view_replay (sameMeaning_iff.mp h.1 key c) _
  · intro pod
    have hclock : ∀ log : DeltaLog Json.Data,
        (log.appended es).getVectorClock = es.foldl bumpClock log.getVectorClock :=
      fun log => List.foldl_append
    have hfold : ∀ (es : List (DeltaEntry Json.Data)) (vc vc' : JsObject ℕ),
        (∀ pod, vc.props.get? pod = vc'.props.get? pod) →
        (es.foldl bumpClock vc).props.get? pod = (es.foldl bumpClock vc').props.get? pod := by
      intro es
      induction es with
      | nil => exact fun vc vc' heq => heq pod
      | cons e es ih =>
          refine fun vc vc' heq => ih _ _ fun pod => ?_
          rw [get?_bumpClock, get?_bumpClock, heq]
    rw [hclock, hclock]
    exact hfold es _ _ h.2

/-- Every append that compacts finds a log that may be compacted. -/
def Harmless : DeltaLog Json.Data → List (DeltaEntry Json.Data) → Prop
  | _, [] => True
  | log, e :: es =>
      (0 < log.maxSize ∧ log.maxSize < log.entries.length + 1 → Compactable (log.entries ++ [e])) ∧
        Harmless (log.append e) es

theorem preserved_append_iff (hkeys : PlainKeys (log.entries ++ [e])) :
    Preserved (log.appended [e]) (log.append e) ↔
      (0 < log.maxSize ∧ log.maxSize < log.entries.length + 1 → Compactable (log.entries ++ [e])) := by
  unfold append
  simp only [List.length_append, List.length_singleton]
  split_ifs with hfull
  · rw [forall_prop_of_true hfull]
    exact @preserved_compact_iff (log.appended [e]) hkeys
  · exact iff_of_true ⟨fun _ _ => rfl, fun _ => rfl⟩ fun h => absurd h hfull

theorem append_subset (log : DeltaLog Json.Data) (e : DeltaEntry Json.Data) :
    (log.append e).entries ⊆ log.entries ++ [e] := by
  unfold append
  dsimp only
  split_ifs
  · exact compact_subset (log.appended [e])
  · exact List.Subset.refl _

theorem preserved_prefixes_iff {es : List (DeltaEntry Json.Data)} (hkeys : PlainKeys (log.entries ++ es)) :
    (∀ start, start <+: es → Preserved (log.appended start) (start.foldl append log)) ↔ Harmless log es := by
  induction es generalizing log with
  | nil =>
      refine iff_of_true (fun start hstart => ?_) trivial
      rw [List.prefix_nil.mp hstart]
      exact ⟨fun _ _ => by rw [appended, List.append_nil]; rfl, fun _ => by rw [appended, List.append_nil]; rfl⟩
  | cons e es ih =>
      have hfirst : PlainKeys (log.entries ++ [e]) := by
        intro f hf
        rcases List.mem_append.mp hf with hf | hf
        · exact hkeys f (List.mem_append_left _ hf)
        · exact hkeys f (List.mem_append_right _ (List.mem_singleton.mp hf ▸ List.mem_cons_self))
      have hrest : PlainKeys ((log.append e).entries ++ es) := by
        intro f hf
        rcases List.mem_append.mp hf with hf | hf
        · exact hfirst f (append_subset log e hf)
        · exact hkeys f (List.mem_append_right _ (List.mem_cons_of_mem _ hf))
      have hcons : ∀ start, log.appended (e :: start) = (log.appended [e]).appended start := by
        intro start
        unfold appended
        rw [List.append_assoc]
        rfl
      have hharmless : Harmless log (e :: es) ↔ Preserved (log.appended [e]) (log.append e) ∧
          ∀ start, start <+: es → Preserved ((log.append e).appended start) (start.foldl append (log.append e)) := by
        rw [ih hrest, preserved_append_iff hfirst]
        rfl
      rw [hharmless]
      constructor
      · intro h
        have hfirst : Preserved (log.appended [e]) (log.append e) :=
          h [e] ((List.prefix_cons_inj e).mpr List.nil_prefix)
        refine ⟨hfirst, fun start hstart => ?_⟩
        have hwhole := h (e :: start) ((List.prefix_cons_inj e).mpr hstart)
        rw [hcons] at hwhole
        exact (hfirst.appended start).symm.trans hwhole
      · rintro ⟨hfirst, hrest⟩ start hstart
        obtain rfl | ⟨start, rfl, hshort⟩ := List.prefix_cons_iff.mp hstart
        · exact ⟨fun _ _ => by rw [appended, List.append_nil]; rfl, fun _ => by rw [appended, List.append_nil]; rfl⟩
        · rw [hcons]
          exact (hfirst.appended start).trans (hrest start hshort)

/-- **Compaction** keeps the meaning and the clock of a log exactly if the log may be compacted; a sequence of appends
keeps them at every point exactly if every compaction on the way finds such a log. -/
theorem compaction_preserves_iff (log : DeltaLog Json.Data) (hkeys : PlainKeys log.entries) :
    (Preserved log log.compact ↔ Compactable log.entries) ∧
      ∀ es : List (DeltaEntry Json.Data), PlainKeys es →
        ((∀ start, start <+: es → Preserved (log.appended start) (start.foldl append log)) ↔ Harmless log es) :=
  ⟨preserved_compact_iff hkeys, fun _ hes =>
    preserved_prefixes_iff fun e he => (List.mem_append.mp he).elim (hkeys e) (hes e)⟩

theorem settings_ne_nil : js "settings" ≠ [] := by decide

def addField (name : JsString) (origin : PodId) : DeltaEntry Json.Data where
  key := ⟨js "settings", settings_ne_nil⟩
  op := .merge (single name)
  origin := origin
  seq := 1
  timestamp := ⟨1, Nat.one_pos⟩
  vectorClock := JsObject.empty

theorem podB_ne_podA : js "podB" ≠ js "podA" := by decide

theorem podA_not_inherited : js "podA" ∉ inheritedNames := by decide

theorem podA_ne_nil : js "podA" ≠ [] := by decide

theorem podB_ne_nil : js "podB" ≠ [] := by decide

def twoFields : List (DeltaEntry Json.Data) :=
  [addField (js "theme") ⟨js "podA", podA_ne_nil⟩, addField (js "lang") ⟨js "podB", podB_ne_nil⟩]

def setField (name : JsString) (seq : ℕ) : DeltaEntry Json.Data :=
  { addField name ⟨js "podA", podA_ne_nil⟩ with op := .set (single name), seq := seq }

/-- A pod sets `settings` twice. -/
def setTwice : List (DeltaEntry Json.Data) := [setField (js "theme") 1, setField (js "lang") 2]

theorem compaction_preserves_setTwice : Preserved ⟨setTwice, 0⟩ (compact ⟨setTwice, 0⟩) ∧
    ∀ start, start <+: setTwice → Preserved (appended ⟨[], 1⟩ start) (start.foldl append ⟨[], 1⟩) := by
  have hkeys : PlainKeys setTwice := by decide
  have hmeaning : MeaningKept setTwice := by
    intro key earlier last hops
    have hlast : last ∈ opsOf key setTwice := hops ▸ List.mem_append_right _ List.mem_cons_self
    obtain ⟨e, he, rfl⟩ := List.mem_map.mp hlast
    have hset := (List.mem_filter.mp he).1
    simp only [setTwice, List.mem_cons, List.not_mem_nil, or_false] at hset
    rcases hset with rfl | rfl
    · trivial
    · trivial
  have hclock : ClockKept setTwice := by
    intro e he _
    refine ⟨setField (js "lang") 2, rfl, ?_⟩
    simp only [setTwice, List.mem_cons, List.not_mem_nil, or_false] at he
    rcases he with rfl | rfl
    · exact ⟨rfl, Nat.le_succ 1⟩
    · exact ⟨rfl, le_rfl⟩
  refine ⟨(compaction_preserves_iff ⟨setTwice, 0⟩ hkeys).1.mpr ⟨hmeaning, hclock⟩,
    ((compaction_preserves_iff ⟨[], 1⟩ nofun).2 setTwice hkeys).mpr ⟨fun hfull => ?_, fun _ => ⟨hmeaning, hclock⟩, trivial⟩⟩
  exact absurd hfull.2 (lt_irrefl _)

/-- The first field is lost, and the first pod, by `compact` and by a second append to a log of size 1. -/
theorem compaction_loses :
    ¬ SameMeaning ⟨twoFields, 0⟩ (compact ⟨twoFields, 0⟩) ∧ ¬ SameClock ⟨twoFields, 0⟩ (compact ⟨twoFields, 0⟩) ∧
      ¬ SameMeaning (appended ⟨[], 1⟩ twoFields) (twoFields.foldl append ⟨[], 1⟩) := by
  have hmeaning : ¬ MeaningKept twoFields := by
    intro h
    obtain ⟨hmerges, -⟩ := h (js "settings") [.merge (single (js "theme"))] (.merge (single (js "lang"))) (by
      simp [opsOf, twoFields, addField])
    obtain ⟨u, hu, hsub⟩ := hmerges _ List.mem_cons_self
    obtain rfl := DeltaOp.merge.inj hu
    have hname : js "theme" ∈ fieldNames (single (js "lang")) := hsub List.mem_cons_self
    have hno : js "theme" ∉ [js "lang"] := by decide
    exact hno hname
  have hkeys : PlainKeys twoFields := by decide
  refine ⟨fun h => hmeaning ((sameMeaning_compact_iff hkeys).mp h), fun h => ?_, fun h => ?_⟩
  · obtain ⟨e, hlast, horigin, -⟩ := (sameClock_compact_iff ⟨twoFields, 0⟩).mp h _ List.mem_cons_self podA_not_inherited
    have hmem : e ∈ (compact ⟨twoFields, 0⟩).entries := mem_compact.mpr hlast
    have hkept : (compact ⟨twoFields, 0⟩).entries = [addField (js "lang") ⟨js "podB", podB_ne_nil⟩] := rfl
    rw [hkept] at hmem
    rw [List.mem_singleton.mp hmem] at horigin
    exact podB_ne_podA (congrArg Subtype.val horigin)
  · have hrun : twoFields.foldl append ⟨[], 1⟩ = compact ⟨twoFields, 1⟩ := rfl
    rw [hrun] at h
    exact hmeaning ((@sameMeaning_compact_iff ⟨twoFields, 1⟩ hkeys).mp h)

end DeltaLog

end BrowserMesh.Sync
