import BrowserMesh.Js.Number
import BrowserMesh.Js.Dict
import BrowserMesh.Library.LastWriter

/-! # Last-writer-wins register and map

* `LWWRegister`: a value with the timestamp and the node that wrote it.  A write or a merge
  replaces it when the other timestamp is greater, or equal with a greater node id (`newer`).
  Comparisons with `NaN` are false.  The constructor turns the value `undefined` into `null`.
* `LWWMap`: a register for every key; deleting writes a tombstone.  The first write to a
  missing key stores its register without any comparison.  Everything that iterates goes
  through the entries sorted by key (`LWWMap.sorted`).

Both are read as last-writer-wins cells (`LWWRegister.cell`, `LWWMap.cell`) with the stamps
`(timestamp, nodeId)`: off `NaN` and `undefined` (`Regular`), a write advances the cell it touches and a
merge picks the greater stamp, so the replicated register and map are `LastWriter` systems. -/

namespace BrowserMesh.Primitives

open Js Replication

/-- Types of values with a `null`. -/
class HasNull (V : Type) where
  null : V
  /-- What a parameter with the default `null` makes of an argument. -/
  orNull : V → V
  orNull_null : orNull null = null
  orNull_orNull : ∀ v, orNull (orNull v) = orNull v

/-- The values of the language over a type of values other than `undefined` and `null`. -/
inductive JsValue (V : Type) where
  | undefined
  | null
  | of (v : V)
deriving DecidableEq

instance {V : Type} : HasNull (JsValue V) where
  null := .null
  orNull
    | .undefined => .null
    | v => v
  orNull_null := rfl
  orNull_orNull v := by cases v <;> rfl

/-- The value is not `undefined`. -/
def Defined {V : Type} [HasNull V] (v : V) : Prop := HasNull.orNull v = v

instance {V : Type} [HasNull V] [DecidableEq V] (v : V) : Decidable (Defined v) :=
  inferInstanceAs (Decidable (_ = _))

/-- `(timestamp, nodeId)`, in the order that decides conflicts. -/
abbrev Stamp := JsNumber ×ₗ JsString

/-- The node that issued a stamp. -/
def Stamp.author (st : Stamp) : JsString := (ofLex st).2

/-! ### LWWRegister -/

structure LWWRegister (α : Type) where
  value : α
  timestamp : JsNumber
  nodeId : JsString
deriving DecidableEq

/-- `timestamp > t || (timestamp === t && nodeId > n)`. -/
def newer (timestamp : JsNumber) (nodeId : JsString) (t : JsNumber) (n : JsString) : Bool :=
  t.lt timestamp || (timestamp.eq t && decide (n < nodeId))

theorem newer_iff {ts t : JsNumber} {n m : JsString} (hts : ts ≠ .nan) (ht : t ≠ .nan) :
    newer ts n t m = true ↔ (toLex (t, m) : Stamp) < toLex (ts, n) := by
  simp only [newer, Bool.or_eq_true, Bool.and_eq_true, decide_eq_true_eq, JsNumber.lt_iff ht hts,
    JsNumber.eq_iff hts, Prod.Lex.toLex_lt_toLex]
  exact or_congr_right (and_congr_left fun _ => eq_comm)

/-- A write whose timestamp is `NaN` is never newer. -/
theorem newer_nan (n m : JsString) (t : JsNumber) : newer .nan n t m = false := by
  simp [newer, JsNumber.lt, JsNumber.eq]

namespace LWWRegister
variable {α : Type}

def set (r : LWWRegister α) (value : α) (timestamp : JsNumber) (nodeId : JsString) : LWWRegister α :=
  if newer timestamp nodeId r.timestamp r.nodeId then ⟨value, timestamp, nodeId⟩ else r

/-- The serialised form: the three fields. -/
def toJSON (r : LWWRegister α) : LWWRegister α := ⟨r.value, r.timestamp, r.nodeId⟩

def stamp (r : LWWRegister α) : Stamp := toLex (r.timestamp, r.nodeId)

/-- A register as a last-writer-wins cell. -/
def cell (r : LWWRegister α) : Option (Stamp × α) := some (r.stamp, r.value)

theorem cell_injective {r r' : LWWRegister α} (h : r.cell = r'.cell) : r = r' := by
  obtain ⟨hs, hv⟩ := Prod.mk.inj (Option.some.inj h)
  obtain ⟨ht, hn⟩ := Prod.mk.inj (congrArg ofLex hs)
  cases r; cases r'
  simp_all

variable [HasNull α]

/-- `new LWWRegister(value, timestamp, nodeId)`. -/
def construct (value : α) (timestamp : JsNumber) (nodeId : JsString) : LWWRegister α :=
  ⟨HasNull.orNull value, timestamp, nodeId⟩

/-- `new LWWRegister()`. -/
def new : LWWRegister α := ⟨HasNull.null, 0, []⟩

/-- `new LWWRegister(s.value, s.timestamp, s.nodeId)`. -/
def copy (s : LWWRegister α) : LWWRegister α := construct s.value s.timestamp s.nodeId

def merge (r other : LWWRegister α) : LWWRegister α :=
  if newer other.timestamp other.nodeId r.timestamp r.nodeId then other.copy else r.copy

def fromJSON (data : LWWRegister α) : LWWRegister α :=
  construct data.value data.timestamp data.nodeId

/-- The timestamp is not `NaN`, and the value not `undefined`. -/
structure Regular (r : LWWRegister α) : Prop where
  timestamp : r.timestamp ≠ .nan
  value : Defined r.value

theorem regular_new : (new : LWWRegister α).Regular :=
  ⟨show (0 : JsNumber) ≠ .nan by decide, HasNull.orNull_null⟩

theorem copy_eq_self {r : LWWRegister α} (hr : r.Regular) : r.copy = r := by
  have h : HasNull.orNull r.value = r.value := hr.value
  rw [copy, construct, h]

/-- Writing: the cell advances, or the write is ignored. -/
theorem set_spec {r : LWWRegister α} (hr : r.Regular) {v : α} (hv : Defined v) (ts : JsNumber)
    (n : JsString) :
    (r.set v ts n).Regular ∧ Advance Stamp.author n r.cell (r.set v ts n).cell := by
  by_cases h : newer ts n r.timestamp r.nodeId = true
  · have hts : ts ≠ .nan := by
      rintro rfl
      rw [newer_nan] at h
      cases h
    have e : r.set v ts n = ⟨v, ts, n⟩ := if_pos h
    rw [e]
    exact ⟨⟨hts, hv⟩, Or.inr ⟨toLex (ts, n), v, rfl, rfl,
      WithBot.coe_lt_coe.mpr ((newer_iff hts hr.timestamp).mp h)⟩⟩
  · have e : r.set v ts n = r := if_neg h
    rw [e]
    exact ⟨hr, Advance.refl⟩

/-- Merging keeps the cell with the greater stamp. -/
theorem merge_spec {r s : LWWRegister α} (hr : r.Regular) (hs : s.Regular) :
    (r.merge s).Regular ∧ (r.merge s).cell = pick r.cell s.cell := by
  have hiff : stampOf r.cell < stampOf s.cell ↔
      newer s.timestamp s.nodeId r.timestamp r.nodeId = true := by
    rw [newer_iff hs.timestamp hr.timestamp]
    exact WithBot.coe_lt_coe
  by_cases h : newer s.timestamp s.nodeId r.timestamp r.nodeId = true
  · have e : r.merge s = s := (if_pos h).trans (copy_eq_self hs)
    rw [e, pick, if_pos (hiff.mpr h)]
    exact ⟨hs, rfl⟩
  · have e : r.merge s = r := (if_neg h).trans (copy_eq_self hr)
    rw [e, pick, if_neg (fun h' => h (hiff.mp h'))]
    exact ⟨hr, rfl⟩

/-- Merging a register with no greater stamp changes nothing. -/
theorem merge_eq_self {r s : LWWRegister α} (hr : r.Regular) (hs : s.Regular)
    (h : s.stamp ≤ r.stamp) : r.merge s = r := by
  apply cell_injective
  rw [(merge_spec hr hs).2]
  exact pick_of_le (WithBot.coe_le_coe.mpr h)

/-- A write to a register: the value and the timestamp; the node is the replica's own. -/
structure Write (α : Type) where
  value : α
  timestamp : JsNumber
deriving DecidableEq

/-- Replicas of one register that write under their own node ids. -/
def system : System JsString (LWWRegister α) (Write α) where
  init := new
  update i op r := some (r.set op.value op.timestamp i)
  merge r s := some (r.merge s)
  silent _ _ := none

/-- No replica writes `undefined`. -/
def DefinedWrites : World JsString (LWWRegister α) (Write α) → Action JsString (Write α) → Prop
  | _, .update _ op => Defined op.value
  | _, _ => True

instance [DecidableEq α] (w : World JsString (LWWRegister α) (Write α)) :
    DecidablePred (DefinedWrites w)
  | .update _ op => inferInstanceAs (Decidable (Defined op.value))
  | .merge _ _ => isTrue trivial
  | .silent _ => isTrue trivial

theorem lastWriter :
    (system (α := α)).LastWriter DefinedWrites Regular (fun r (_ : Unit) => r.cell)
      Stamp.author where
  init := regular_new
  update w i op s hok hv hu := by
    obtain rfl := Option.some.inj hu
    obtain ⟨ht, ha⟩ := set_spec hv hok op.timestamp i
    exact ⟨ht, fun _ => ha⟩
  merge s t u hs ht hu := by
    obtain rfl := Option.some.inj hu
    obtain ⟨hv, hc⟩ := merge_spec hs ht
    exact ⟨hv, fun _ => hc⟩
  silent i s u _ hu := by cases hu

end LWWRegister
/-! ### LWWMap -/

/-- What a register of a map holds: a value, or the tombstone of a deleted key. -/
inductive Entry (V : Type) where
  | live (v : V)
  | tombstone
deriving DecidableEq

/-- The tombstone is not `undefined`. -/
instance {V : Type} [HasNull V] : HasNull (Entry V) where
  null := .live HasNull.null
  orNull
    | .live v => .live (HasNull.orNull v)
    | .tombstone => .tombstone
  orNull_null := congrArg Entry.live HasNull.orNull_null
  orNull_orNull v := by
    cases v with
    | live v => exact congrArg Entry.live (HasNull.orNull_orNull v)
    | tombstone => rfl

/-- The value of an entry that is not a tombstone. -/
def Entry.value? {V : Type} : Entry V → Option V
  | .live v => some v
  | .tombstone => none

/-- The serialised form of an entry. -/
structure EntryJSON (V : Type) where
  value : V
  timestamp : JsNumber
  nodeId : JsString
  tombstone : Bool
deriving DecidableEq

structure LWWMap (V : Type) where
  entries : JsMap JsString (LWWRegister (Entry V))
deriving DecidableEq

namespace LWWMap
variable {V : Type}

/-- `new LWWMap()`. -/
def new : LWWMap V := ⟨JsMap.empty⟩

/-- The entries in the order of their keys. -/
def sorted (m : LWWMap V) : List (JsString × LWWRegister (Entry V)) :=
  m.entries.entries.insertionSort (byRank Prod.fst)

/-- The live entries in the order of their keys: `entries()`. -/
def liveEntries (m : LWWMap V) : List (JsString × V) :=
  m.sorted.filterMap (fun e => e.2.value.value?.map (fun v => (e.1, v)))

def keys (m : LWWMap V) : List JsString := m.liveEntries.map Prod.fst

def values (m : LWWMap V) : List V := m.liveEntries.map Prod.snd

/-- The plain object of the live entries. -/
def value (m : LWWMap V) : JsObject V := JsObject.empty.assignAll m.liveEntries

def size (m : LWWMap V) : ℕ := (m.entries.values.filter (fun r => r.value.value?.isSome)).length

/-- `get(key)`; `none` for `undefined`. -/
def get (m : LWWMap V) (key : JsString) : Option V :=
  (m.entries.get? key).bind fun r => r.value.value?

def has (m : LWWMap V) (key : JsString) : Bool := (m.get key).isSome

variable [HasNull V]

/-- Write an entry: a missing key gets a new register, without a comparison. -/
def write (m : LWWMap V) (key : JsString) (value : Entry V) (timestamp : JsNumber)
    (nodeId : JsString) : LWWMap V :=
  match m.entries.get? key with
  | none => ⟨m.entries.set key (LWWRegister.construct value timestamp nodeId)⟩
  | some r => ⟨m.entries.set key (r.set value timestamp nodeId)⟩

def set (m : LWWMap V) (key : JsString) (value : V) (timestamp : JsNumber) (nodeId : JsString) :
    LWWMap V :=
  m.write key (.live value) timestamp nodeId

def delete (m : LWWMap V) (key : JsString) (timestamp : JsNumber) (nodeId : JsString) : LWWMap V :=
  m.write key .tombstone timestamp nodeId

/-- The first loop of `merge`: the keys of this map. -/
def mergeOwn (m other : LWWMap V) : JsMap JsString (LWWRegister (Entry V)) :=
  m.entries.entries.foldl (fun acc e => acc.set e.1
    (match other.entries.get? e.1 with
      | some r => e.2.merge r
      | none => e.2.copy)) JsMap.empty

/-- The second loop of `merge`: the keys only the other map has. -/
def mergeOther (m other : LWWMap V) (merged : JsMap JsString (LWWRegister (Entry V))) :
    JsMap JsString (LWWRegister (Entry V)) :=
  other.entries.entries.foldl (fun acc e =>
    if !m.entries.has e.1 then acc.set e.1 e.2.copy else acc) merged

def merge (m other : LWWMap V) : LWWMap V := ⟨m.mergeOther other (m.mergeOwn other)⟩

def entryJSON (r : LWWRegister (Entry V)) : EntryJSON V :=
  match r.value with
  | .live v => ⟨v, r.timestamp, r.nodeId, false⟩
  | .tombstone => ⟨HasNull.null, r.timestamp, r.nodeId, true⟩

def toJSON (m : LWWMap V) : JsObject (EntryJSON V) :=
  JsObject.empty.assignAll (m.sorted.map (fun e => (e.1, entryJSON e.2)))

/-- The register of a serialised entry. -/
def ofEntryJSON (entry : EntryJSON V) : LWWRegister (Entry V) :=
  LWWRegister.construct (if entry.tombstone then .tombstone else .live entry.value) entry.timestamp
    entry.nodeId

def fromJSON (data : JsObject (EntryJSON V)) : LWWMap V :=
  ⟨JsMap.ofEntries (data.entries.map (fun e => (e.1, ofEntryJSON e.2)))⟩

/-! ### LWWMap as stamped cells -/

/-- The cell of a key, empty when the key was never written. -/
def cell (m : LWWMap V) (key : JsString) : Option (Stamp × Entry V) :=
  (m.entries.get? key).bind LWWRegister.cell

/-- No entry is stamped with `NaN` or holds `undefined`. -/
def Regular (m : LWWMap V) : Prop := ∀ key r, m.entries.get? key = some r → r.Regular

variable {m : LWWMap V} {key : JsString}

omit [HasNull V] in
theorem cell_of_get? {r : LWWRegister (Entry V)} (h : m.entries.get? key = some r) : m.cell key = r.cell := by
  rw [cell, h]; rfl

omit [HasNull V] in
theorem cell_of_get?_none (h : m.entries.get? key = none) :
    m.cell key = none := by
  rw [cell, h]; rfl

variable {n : LWWMap V}

omit [HasNull V] in
theorem same_of_cell (h : m.cell = n.cell) : m.entries.Same n.entries := by
  intro k
  have hk := congrFun h k
  cases hm : m.entries.get? k with
  | none =>
      cases hn : n.entries.get? k with
      | none => rfl
      | some r => rw [cell_of_get?_none hm, cell_of_get? hn] at hk; cases hk
  | some r =>
      cases hn : n.entries.get? k with
      | none => rw [cell_of_get? hm, cell_of_get?_none hn] at hk; cases hk
      | some r' =>
          rw [cell_of_get? hm, cell_of_get? hn] at hk
          rw [LWWRegister.cell_injective hk]

/-- The write is stored as given: a missing key is not stamped `NaN`, a present one does not get
`undefined`. -/
def Writable (m : LWWMap V) (key : JsString) (v : Entry V) (ts : JsNumber) : Prop :=
  if m.entries.has key then Defined v else ts ≠ .nan

instance [DecidableEq V] (m : LWWMap V) (key : JsString) (v : Entry V) (ts : JsNumber) :
    Decidable (m.Writable key v ts) := by
  unfold Writable
  infer_instance

theorem write_spec (hm : m.Regular) {v : Entry V} {ts : JsNumber} (hw : m.Writable key v ts) (n : JsString) :
    (m.write key v ts n).Regular ∧
      ∀ k, Advance Stamp.author n (m.cell k) ((m.write key v ts n).cell k) := by
  -- the written key holds `r`, the others are untouched
  have hput : ∀ r : LWWRegister (Entry V), r.Regular → Advance Stamp.author n (m.cell key) r.cell →
      (⟨m.entries.set key r⟩ : LWWMap V).Regular ∧
        ∀ k, Advance Stamp.author n (m.cell k) ((⟨m.entries.set key r⟩ : LWWMap V).cell k) := by
    intro r hr ha
    refine ⟨fun k r' h => ?_, fun k => ?_⟩
    · rw [JsMap.get?_set] at h
      split_ifs at h with hk
      · rwa [← Option.some.inj h]
      · exact hm k r' h
    · by_cases hk : k = key
      · subst hk
        have e : (⟨m.entries.set k r⟩ : LWWMap V).cell k = r.cell := cell_of_get? (by simp)
        rwa [e]
      · have e : (⟨m.entries.set key r⟩ : LWWMap V).cell k = m.cell k := by simp [cell, hk]
        rw [e]
        exact Advance.refl
  unfold write
  unfold Writable JsMap.has at hw
  cases h : m.entries.get? key with
  | none =>
      have hts : ts ≠ .nan := by simpa [h] using hw
      refine hput (LWWRegister.construct v ts n) ⟨hts, HasNull.orNull_orNull v⟩
        (Or.inr ⟨toLex (ts, n), HasNull.orNull v, rfl, rfl, ?_⟩)
      rw [cell_of_get?_none h]
      exact WithBot.bot_lt_coe _
  | some r =>
      have hv : Defined v := by simpa [h] using hw
      obtain ⟨ht, ha⟩ := LWWRegister.set_spec (hm key r h) hv ts n
      exact hput _ ht (by rwa [cell_of_get? h])

theorem get?_mergeOwn (m other : LWWMap V) (k : JsString) :
    (m.mergeOwn other).get? k = (m.entries.get? k).map fun r =>
      match other.entries.get? k with
      | some s => r.merge s
      | none => r.copy := by
  have h := JsMap.get?_foldl_set (fun k (_ : Option (LWWRegister (Entry V))) r =>
    (match other.entries.get? k with
      | some s => LWWRegister.merge r s
      | none => r.copy)) m.entries.entries m.entries.nodup JsMap.empty k
  refine h.trans ?_
  show _ = (assoc k m.entries.entries).map _
  cases assoc k m.entries.entries <;> rfl

theorem get?_merge (m other : LWWMap V) (k : JsString) :
    (m.merge other).entries.get? k =
      match m.entries.get? k with
      | none => (other.entries.get? k).map LWWRegister.copy
      | some r => match other.entries.get? k with
        | some s => some (r.merge s)
        | none => some r.copy := by
  have h := JsMap.get?_foldl_set_if (fun k => !m.entries.has k)
    (fun _ (_ : Option (LWWRegister (Entry V))) r => LWWRegister.copy r)
    other.entries.entries other.entries.nodup (m.mergeOwn other) k
  refine h.trans ?_
  rw [show assoc k other.entries.entries = other.entries.get? k from rfl, get?_mergeOwn]
  cases hm : m.entries.get? k <;> cases ho : other.entries.get? k <;> simp [JsMap.has, hm]

theorem merge_spec (hm : m.Regular) (hn : n.Regular) :
    (m.merge n).Regular ∧ ∀ k, (m.merge n).cell k = pick (m.cell k) (n.cell k) := by
  have key : ∀ k, (∀ r, (m.merge n).entries.get? k = some r → r.Regular) ∧
      (m.merge n).cell k = pick (m.cell k) (n.cell k) := by
    intro k
    have h := get?_merge m n k
    cases hmk : m.entries.get? k with
    | none =>
        have hcopy : (n.entries.get? k).map LWWRegister.copy = n.entries.get? k := by
          cases hnk : n.entries.get? k with
          | none => rfl
          | some s => exact congrArg some (LWWRegister.copy_eq_self (hn k s hnk))
        rw [hmk] at h
        have h := h.trans hcopy
        refine ⟨fun r hr => hn k r (h.symm.trans hr), ?_⟩
        rw [cell_of_get?_none hmk, cell, h]
        cases hc : n.cell k with
        | none => exact hc
        | some c => exact hc.trans (if_pos (WithBot.bot_lt_coe _)).symm
    | some r =>
        have hr := hm k r hmk
        cases hnk : n.entries.get? k with
        | none =>
            rw [hmk, hnk] at h
            have h := h.trans (congrArg some (LWWRegister.copy_eq_self hr))
            refine ⟨fun r' hr' => ?_, ?_⟩
            · rwa [← Option.some.inj (h.symm.trans hr')]
            · rw [cell_of_get? h, cell_of_get? hmk, cell_of_get?_none hnk, pick_of_le bot_le]
        | some s =>
            rw [hmk, hnk] at h
            obtain ⟨ht, hp⟩ := LWWRegister.merge_spec hr (hn k s hnk)
            refine ⟨fun r' hr' => ?_, ?_⟩
            · rwa [← Option.some.inj (h.symm.trans hr')]
            · rw [cell_of_get? h, hp, cell_of_get? hmk, cell_of_get? hnk]
  exact ⟨fun k r => (key k).1 r, fun k => (key k).2⟩

/-! ### What iterates depends on the lookups only -/

omit [HasNull V] in
theorem sorted_congr (h : m.entries.Same n.entries) : m.sorted = n.sorted := by
  refine List.Perm.eq_of_pairwise ?_ (List.pairwise_insertionSort (byRank Prod.fst) _)
    (List.pairwise_insertionSort (byRank Prod.fst) _)
    (((List.perm_insertionSort _ _).trans h.perm).trans (List.perm_insertionSort _ _).symm)
  intro a b ha hb hab hba
  have hk : a.1 = b.1 := le_antisymm hab hba
  have ha' : m.entries.get? a.1 = some a.2 :=
    JsMap.mem_entries_iff.mp ((List.mem_insertionSort _).mp ha)
  have hb' : n.entries.get? b.1 = some b.2 :=
    JsMap.mem_entries_iff.mp ((List.mem_insertionSort _).mp hb)
  rw [h, hk, hb'] at ha'
  exact Prod.ext hk (Option.some.inj ha').symm

omit [HasNull V] in
theorem value_congr (h : m.entries.Same n.entries) : m.value = n.value := by
  rw [value, value, liveEntries, liveEntries, sorted_congr h]

/-! ### The wire -/

theorem ofEntryJSON_entryJSON (r : LWWRegister (Entry V)) : ofEntryJSON (entryJSON r) = r.copy := by
  obtain ⟨v, ts, n⟩ := r
  cases v <;> rfl

/-- The wire copies every entry but the one of the key `__proto__`. -/
theorem get?_reload (m : LWWMap V) (k : JsString) :
    (fromJSON m.toJSON).entries.get? k =
      if k = protoKey then none else (m.entries.get? k).map LWWRegister.copy := by
  have hperm : m.sorted.Perm m.entries.entries := List.perm_insertionSort _ _
  have hkeys : ((m.sorted.map (fun e => (e.1, entryJSON e.2))).map Prod.fst).Nodup := by
    rw [List.map_map]
    exact ((hperm.map Prod.fst).nodup_iff).mpr m.entries.nodup
  have hentries : ((m.toJSON.entries.map (fun e => (e.1, ofEntryJSON e.2))).map Prod.fst).Nodup := by
    rw [List.map_map]
    exact m.toJSON.entries_nodup
  have hget := JsObject.get?_ofEntries_entries m.toJSON k
  rw [JsMap.get?_ofEntries m.toJSON.entries_nodup] at hget
  rw [fromJSON, JsMap.get?_ofEntries hentries, assoc_map, hget, toJSON,
    JsObject.get?_assignAll_empty _ hkeys, assoc_map]
  split_ifs with hk
  · rfl
  · have hsorted : assoc k m.sorted = m.entries.get? k := by
      cases h : m.entries.get? k with
      | none =>
          rw [assoc_eq_none_iff, (hperm.map Prod.fst).mem_iff]
          exact JsMap.get?_eq_none_iff.mp h
      | some r =>
          refine assoc_of_mem ?_ (hperm.mem_iff.mpr (JsMap.mem_entries_iff.mpr h))
          exact ((hperm.map Prod.fst).nodup_iff).mpr m.entries.nodup
    rw [hsorted, Option.map_map]
    cases m.entries.get? k with
    | none => rfl
    | some r => exact congrArg some (ofEntryJSON_entryJSON r)

theorem get?_reload_of_regular (hm : m.Regular) (k : JsString) :
    (fromJSON m.toJSON).entries.get? k = if k = protoKey then none else m.entries.get? k := by
  rw [get?_reload]
  cases h : m.entries.get? k with
  | none => rfl
  | some r => rw [Option.map_some, LWWRegister.copy_eq_self (hm k r h)]

theorem regular_reload (hm : m.Regular) : (fromJSON m.toJSON).Regular := by
  intro k r h
  rw [get?_reload_of_regular hm] at h
  split_ifs at h with hk
  exact hm k r h

theorem cell_reload (hm : m.Regular) (k : JsString) :
    (fromJSON m.toJSON).cell k = if k = protoKey then none else m.cell k := by
  rw [cell, get?_reload_of_regular hm]
  split_ifs <;> rfl

/-! ### Replicated maps -/

/-- A write to a map; the node is the replica's own. -/
inductive Write (V : Type) where
  | set (key : JsString) (value : V) (timestamp : JsNumber)
  | delete (key : JsString) (timestamp : JsNumber)
deriving DecidableEq

/-- The write is `Writable`. -/
def Write.Regular (m : LWWMap V) : Write V → Prop
  | .set key v ts => m.Writable key (.live v) ts
  | .delete key ts => m.Writable key .tombstone ts

instance [DecidableEq V] (m : LWWMap V) : DecidablePred (Write.Regular m)
  | .set key v ts => inferInstanceAs (Decidable (m.Writable key (.live v) ts))
  | .delete key ts => inferInstanceAs (Decidable (m.Writable key .tombstone ts))

/-- Perform a write under the node id `i`. -/
def Write.apply (i : JsString) : Write V → LWWMap V → LWWMap V
  | .set key v ts, m => m.set key v ts i
  | .delete key ts, m => m.delete key ts i

theorem Write.apply_spec (hm : m.Regular) (i : JsString) {op : Write V} (h : op.Regular m) :
    (op.apply i m).Regular ∧ ∀ k, Advance Stamp.author i (m.cell k) ((op.apply i m).cell k) := by
  cases op with
  | set key v ts => exact write_spec hm h i
  | delete key ts => exact write_spec hm h i

theorem regular_new : (new : LWWMap V).Regular := fun _ _ h => by cases h

/-- Replicas of one map that write under their own node ids. -/
def system : System JsString (LWWMap V) (Write V) where
  init := new
  update i op m := some (op.apply i m)
  merge m n := some (m.merge n)
  silent _ _ := none

def RegularWrites (w : World JsString (LWWMap V) (Write V)) : Action JsString (Write V) → Prop
  | .update i op => op.Regular (w.cur i).state
  | _ => True

instance [DecidableEq V] (w : World JsString (LWWMap V) (Write V)) :
    DecidablePred (RegularWrites w)
  | .update i op => inferInstanceAs (Decidable (op.Regular (w.cur i).state))
  | .merge _ _ => isTrue trivial
  | .silent _ => isTrue trivial

theorem lastWriter :
    (system (V := V)).LastWriter RegularWrites Regular cell Stamp.author where
  init := regular_new
  update w i op s hok hv hu := by
    obtain rfl := Option.some.inj hu
    exact Write.apply_spec hv i hok
  merge s t u hs ht hu := by
    obtain rfl := Option.some.inj hu
    exact merge_spec hs ht
  silent i s u _ hu := by cases hu

end LWWMap
end BrowserMesh.Primitives
