import BrowserMesh.Primitives.Counters
import BrowserMesh.Primitives.OrSet
import BrowserMesh.Primitives.Registers
import BrowserMesh.Primitives.RgaRuns
import BrowserMesh.Js.Rebuild
import BrowserMesh.Library.Alike

/-! # State on the wire

`toJSON` writes node ids and keys onto a plain object, which `fromJSON` enumerates.  An assignment to `__proto__` adds
no property, and array indices are enumerated first.

* A state with nothing under `__proto__` is alike to what comes back, for every type with such an object.
* The sum of a counter adds in the order that comes back (`InOrder`), and the elements of a set are copies. -/

namespace BrowserMesh.Primitives
open Js Replication

/-! ### Plain objects -/

/-- An object with these properties enumerates them so. -/
def InOrder {ν : Type} (m : JsMap JsString ν) : Prop := (JsObject.mk m).entries = m.entries

/-- `JSON.parse(JSON.stringify(data))`; `none` when a number in it that is not finite turns into `null`. -/
def jsonCopy {ν : Type} (isFinite : ν → Bool) (data : JsObject ν) : Option (JsObject ν) :=
  if ∀ e ∈ data.entries, isFinite e.2 = true then some data else none

section objects
variable {κ ν α : Type} [DecidableEq κ] [DecidableEq α]

theorem ofEntries_entries (m : JsMap κ ν) : JsMap.ofEntries m.entries = m :=
  JsMap.ext (Json.foldl_set_entries m.entries JsMap.empty m.nodup)

theorem ofList_elems (s : JsSet α) : JsSet.ofList s.elems = s := by
  have key (l : List α) (r : JsSet α) (h : (r.elems ++ l).Nodup) : (r.addAll l).elems = r.elems ++ l := by
    induction l generalizing r with
    | nil => exact (List.append_nil _).symm
    | cons a l ih =>
        have hadd := JsSet.elems_add_of_not_mem (s := r) fun hmem =>
          (List.nodup_append.mp h).2.2 a hmem a List.mem_cons_self rfl
        have hcons : r.elems ++ a :: l = (r.add a).elems ++ l := by rw [hadd, List.append_assoc, List.singleton_append]
        rw [hcons] at h ⊢
        exact ih _ h
  exact JsSet.ext (key s.elems JsSet.empty s.nodup)

theorem jsonCopy_assignAll {isFinite : ν → Bool} {l : List (JsString × ν)} (hl : (l.map Prod.fst).Nodup)
    (h : ∀ e ∈ l, isFinite e.2 = true) :
    jsonCopy isFinite (JsObject.empty.assignAll l) = some (JsObject.empty.assignAll l) := by
  refine if_pos fun e he => h e ?_
  have hmem := (JsObject.entries_perm _).mem_iff.mp he
  rw [Json.assignAll_entries hl] at hmem
  exact List.mem_of_mem_filter hmem

theorem ofEntries_assignAll {m : JsMap JsString ν} (h : protoKey ∉ m.keys) (horder : InOrder m) :
    JsMap.ofEntries (JsObject.empty.assignAll m.entries).entries = m := by
  have hprops : (JsObject.empty.assignAll m.entries).props = m := by
    refine JsMap.ext ((Json.assignAll_entries m.nodup).trans (List.filter_eq_self.mpr fun e he => ?_))
    exact decide_eq_true fun heq => h (heq ▸ List.mem_map_of_mem he)
  have heq : JsObject.empty.assignAll m.entries = ⟨m⟩ := congrArg JsObject.mk hprops
  rw [heq, horder, ofEntries_entries]

end objects

/-! ### Clocks -/

namespace VectorClock

def system : System JsString VectorClock Unit where
  init := new
  update i _ c := some (c.increment i)
  merge c d := some (c.merge d)
  silent _ _ := none

/-- The counts, and the comparisons with other clocks. -/
def view (c : VectorClock) : (JsString → ℕ) × (VectorClock → ClockOrder × ClockOrder) :=
  (c.get, fun other => (c.compare other, other.compare c))

theorem compareLoop_eq (c other : VectorClock) (l : List JsString) {less greater : Bool}
    (h : (less && greater) = false) :
    compareLoop c other l less greater =
      if less || l.any (fun k => decide (c.get k < other.get k)) then
        if greater || l.any (fun k => decide (other.get k < c.get k)) then .concurrent else .before
      else if greater || l.any (fun k => decide (other.get k < c.get k)) then .after else .equal := by
  induction l generalizing less greater with
  | nil =>
      rw [compareLoop, List.any_nil, List.any_nil]
      revert h
      cases less <;> cases greater <;> decide
  | cons key l ih =>
      rw [compareLoop, List.any_cons, List.any_cons, ← Bool.or_assoc, ← Bool.or_assoc]
      generalize (less || decide (c.get key < other.get key)) = less'
      generalize (greater || decide (other.get key < c.get key)) = greater'
      cases hboth : less' && greater' with
      | true =>
          obtain ⟨rfl, rfl⟩ := (Bool.and_eq_true_iff).mp hboth
          rfl
      | false => exact ih hboth

open Classical in
/-- The counts determine what `compare` says. -/
theorem compare_eq (c d : VectorClock) : c.compare d =
    if c.get ≤ d.get then if d.get ≤ c.get then .equal else .before
    else if d.get ≤ c.get then .after else .concurrent := by
  have hout (c : VectorClock) {k : JsString} (hk : k ∉ c.entries.keys) : c.get k = 0 := by
    rw [get, JsMap.get?_eq_none_iff.mpr hk, Option.getD_none]
  have hany (p : ℕ → ℕ → Bool) (hp : p 0 0 = false) :
      (JsSet.ofList (c.entries.keys ++ d.entries.keys)).elems.any (fun k => p (c.get k) (d.get k)) = true ↔
        ∃ k, p (c.get k) (d.get k) = true := by
    rw [List.any_eq_true]
    refine exists_congr fun k => and_iff_right_of_imp fun hk => ?_
    rw [JsSet.mem_elems, JsSet.mem_ofList, List.mem_append]
    by_contra hnot
    rw [not_or] at hnot
    rw [hout c hnot.1, hout d hnot.2, hp] at hk
    cases hk
  have hless := hany (fun a b => decide (a < b)) rfl
  have hgreater := hany (fun a b => decide (b < a)) rfl
  simp only [decide_eq_true_eq, ← not_le, ← not_forall] at hless hgreater
  rw [compare, compareLoop_eq _ _ _ rfl, Bool.false_or, Bool.false_or]
  simp only [← not_le, hless, hgreater, Pi.le_def]
  split_ifs <;> rfl

theorem compare_congr {c c' d d' : VectorClock} (hc : c.get = c'.get) (hd : d.get = d'.get) :
    c.compare d = c'.compare d' := by
  rw [compare_eq, compare_eq, hc, hd]

/-- `compare` decides the order of the counts, in which `merge` is the least upper bound. -/
theorem compare_decides (c d : VectorClock) :
    (c.compare d = .equal ↔ c.get = d.get) ∧ (c.compare d = .before ↔ c.get < d.get) ∧
    (c.compare d = .after ↔ d.get < c.get) ∧ (c.compare d = .concurrent ↔ ¬ c.get ≤ d.get ∧ ¬ d.get ≤ c.get) ∧
    ∀ e : VectorClock, (c.merge d).get ≤ e.get ↔ c.get ≤ e.get ∧ d.get ≤ e.get := by
  refine ⟨?_, ?_, ?_, ?_, fun e => ?_⟩
  · rw [compare_eq, le_antisymm_iff (a := c.get)]
    split_ifs <;> simp [*]
  · rw [compare_eq, lt_iff_le_not_ge]
    split_ifs <;> simp [*]
  · rw [compare_eq, lt_iff_le_not_ge]
    split_ifs <;> simp [*]
  · rw [compare_eq]
    split_ifs <;> simp [*]
  · simp only [Pi.le_def, get_merge, sup_le_iff, forall_and]

theorem reads : system.Reads get where
  update i _ c d h := congrArg some (funext fun k => by rw [get_increment, get_increment, h])
  merge c c' d d' hc hd := congrArg some (funext fun k => by rw [get_merge, get_merge, hc, hd])

theorem get_reload_eq_iff (c : VectorClock) : (fromJSON c.toJSON).get = c.get ↔ c.get protoKey = 0 := by
  constructor
  · intro h
    rw [← h, get_reload, if_pos rfl]
  · intro h
    funext k
    rw [get_reload]
    split_ifs with hk
    · rw [hk, h]
    · rfl

theorem alike_reload (c : VectorClock) : system.Alike view (fromJSON c.toJSON) c ↔ c.get protoKey = 0 := by
  rw [System.alike_iff reads fun c d => ?_, get_reload_eq_iff]
  refine ⟨fun h => Prod.ext h (funext fun _ => Prod.ext (compare_congr h rfl) (compare_congr rfl h)), congrArg Prod.fst⟩

end VectorClock

/-! ### Counters -/

/-- Looking up the same but for `__proto__`. -/
theorem get?_eq_iff {ν : Type} {m n : JsMap JsString ν} (h : ∀ k, m.get? k = if k = protoKey then none else n.get? k) :
    m.get? = n.get? ↔ protoKey ∉ n.keys := by
  constructor
  · intro heq
    rw [← JsMap.get?_eq_none_iff, ← heq, h, if_pos rfl]
  · intro hproto
    funext k
    rw [h]
    split_ifs with hk
    · rw [hk, JsMap.get?_eq_none_iff.mpr hproto]
    · rfl

namespace GCounter

def Finite (c : GCounter) : Prop := ∀ e ∈ c.counts.entries, e.2.isFinite = true

/-- `fromJSON(JSON.parse(JSON.stringify(c.toJSON())))`. -/
def reload (c : GCounter) : Option GCounter := (jsonCopy JsNumber.isFinite c.toJSON).map fromJSON

theorem reload_eq {c : GCounter} (h : c.Finite) : c.reload = some (fromJSON c.toJSON) :=
  congrArg (Option.map fromJSON) (jsonCopy_assignAll c.counts.nodup h)

theorem fromJSON_toJSON {c : GCounter} (h : protoKey ∉ c.counts.keys) (horder : InOrder c.counts) :
    fromJSON c.toJSON = c := congrArg GCounter.mk (ofEntries_assignAll h horder)

theorem reads : system.Reads fun c => c.counts.get? where
  update i amount c d h := by
    show (c.increment i amount).toOption.map _ = (d.increment i amount).toOption.map _
    rw [increment, increment, h]
    split_ifs
    · rfl
    · exact congrArg some (funext fun k => (JsMap.get?_set _ _ _ k).trans (by rw [h, ← JsMap.get?_set]))
  merge c c' d d' hc hd :=
    congrArg some (funext fun k => by
      have hmerge (c d : GCounter) :=
        JsMap.get?_mergeWith (fun own count => JsNumber.mathMax (own.getD 0) count) c.counts d.counts k
      exact (hmerge c d).trans (by rw [hc, hd]; exact (hmerge c' d').symm))

theorem alike_reload (c : GCounter) :
    system.Alike (fun c => c.counts.get?) (fromJSON c.toJSON) c ↔ protoKey ∉ c.counts.keys :=
  (System.alike_iff reads fun _ _ => Iff.rfl).trans (get?_eq_iff (get?_reload c))

end GCounter

namespace PNCounter

def view (c : PNCounter) : (JsString → Option JsNumber) × (JsString → Option JsNumber) :=
  (c.pos.counts.get?, c.neg.counts.get?)

/-- `fromJSON(JSON.parse(JSON.stringify(c.toJSON())))`. -/
def reload (c : PNCounter) : Option PNCounter :=
  (jsonCopy JsNumber.isFinite c.toJSON.1).bind fun pos =>
    (jsonCopy JsNumber.isFinite c.toJSON.2).map fun neg => fromJSON (pos, neg)

theorem reload_eq {c : PNCounter} (h : c.pos.Finite ∧ c.neg.Finite) : c.reload = some (fromJSON c.toJSON) := by
  have hpos : jsonCopy JsNumber.isFinite c.toJSON.1 = _ := jsonCopy_assignAll c.pos.counts.nodup h.1
  have hneg : jsonCopy JsNumber.isFinite c.toJSON.2 = _ := jsonCopy_assignAll c.neg.counts.nodup h.2
  rw [reload, hpos, hneg]
  rfl

theorem map_view {r r' : Except String GCounter} {f f' : GCounter → PNCounter}
    (h : r.toOption.map (fun c => c.counts.get?) = r'.toOption.map fun c => c.counts.get?)
    (hf : ∀ c c' : GCounter, c.counts.get? = c'.counts.get? → (f c).view = (f' c').view) :
    (r.map f).toOption.map view = (r'.map f').toOption.map view := by
  cases r <;> cases r'
  · rfl
  · cases h
  · cases h
  · exact congrArg some (hf _ _ (Option.some.inj h))

theorem reads : system.Reads view where
  update i op c d h := by
    obtain ⟨hpos, hneg⟩ := Prod.mk.inj h
    cases op with
    | increment amount => exact map_view (GCounter.reads.update i amount c.pos d.pos hpos) fun _ _ h => Prod.ext h hneg
    | decrement amount => exact map_view (GCounter.reads.update i amount c.neg d.neg hneg) fun _ _ h => Prod.ext hpos h
  merge c c' d d' hc hd := by
    obtain ⟨hcpos, hcneg⟩ := Prod.mk.inj hc
    obtain ⟨hdpos, hdneg⟩ := Prod.mk.inj hd
    have hpos := GCounter.reads.merge _ _ _ _ hcpos hdpos
    have hneg := GCounter.reads.merge _ _ _ _ hcneg hdneg
    exact congrArg some (Prod.ext (Option.some.inj hpos) (Option.some.inj hneg))

theorem alike_reload (c : PNCounter) :
    system.Alike view (fromJSON c.toJSON) c ↔ protoKey ∉ c.pos.counts.keys ∧ protoKey ∉ c.neg.counts.keys :=
  (System.alike_iff reads fun _ _ => Iff.rfl).trans
    (Prod.ext_iff.trans (and_congr (get?_eq_iff (GCounter.get?_reload c.pos))
      (get?_eq_iff (GCounter.get?_reload c.neg))))

end PNCounter

/-! ### Sets -/

namespace ORSet
variable {α : Type} [DecidableEq α]

/-- `fromJSON(JSON.parse(JSON.stringify(s.toJSON())))`; `copy` is what comes back of an element, a new object for
an object. -/
def reload (copy : α → α) (s : ORSet α) : ORSet α :=
  fromJSON ⟨s.toJSON.elements.map fun e => (copy e.1, e.2), s.toJSON.tombstones⟩

theorem bumpCounter_le_iff {max n : ℕ} {tag : JsString} :
    bumpCounter max tag ≤ n ↔ max ≤ n ∧ bumpCounter 0 tag ≤ n := by
  unfold bumpCounter
  cases parseInt (lastPart colon tag) with
  | none => simp only [Nat.zero_le, and_true]
  | some num =>
      simp only []
      split_ifs <;> omega

theorem bumpCounter_tagged (i : JsString) (n : ℕ) : bumpCounter 0 (tagged i n) = n + 1 := by
  rw [bumpCounter, parseInt_lastPart_tagged]
  exact if_pos n.cast_nonneg

theorem foldl_bumpCounter_le_iff {l : List JsString} {max n : ℕ} :
    l.foldl bumpCounter max ≤ n ↔ max ≤ n ∧ ∀ tag ∈ l, bumpCounter 0 tag ≤ n := by
  induction l generalizing max with
  | nil => simp only [List.foldl_nil, List.not_mem_nil, false_imp_iff, implies_true, and_true]
  | cons tag l ih => rw [List.foldl_cons, ih, bumpCounter_le_iff, List.forall_mem_cons, and_assoc]

theorem maxCounter_le_iff (s : ORSet α) {n : ℕ} :
    maxCounter s.elements ≤ n ↔ ∀ x, ∀ tag ∈ s.tags x, bumpCounter 0 tag ≤ n := by
  have key (l : List (JsSet JsString)) (max : ℕ) : l.foldl (fun max tags => tags.elems.foldl bumpCounter max) max ≤ n ↔
      max ≤ n ∧ ∀ ts ∈ l, ∀ tag ∈ ts.elems, bumpCounter 0 tag ≤ n := by
    induction l generalizing max with
    | nil => simp only [List.foldl_nil, List.not_mem_nil, false_imp_iff, implies_true, and_true]
    | cons ts l ih => rw [List.foldl_cons, ih, foldl_bumpCounter_le_iff, List.forall_mem_cons, and_assoc]
  rw [maxCounter, key, and_iff_right n.zero_le]
  constructor
  · intro h x tag htag
    rw [tags] at htag
    cases hget : s.elements.get? x with
    | none =>
        rw [hget] at htag
        exact absurd htag (JsSet.not_mem_empty tag)
    | some ts =>
        rw [hget] at htag
        exact h ts (List.mem_map_of_mem (JsMap.mem_entries_iff.mpr hget)) tag htag
  · intro h ts hts tag htag
    obtain ⟨e, he, rfl⟩ := List.mem_map.mp hts
    refine h e.1 tag ?_
    rw [tags, JsMap.mem_entries_iff.mp he]
    exact htag

def Reachable (s : ORSet α) : Prop := ∃ us : List (Use JsString (ORSet α) (Op α)), us.foldlM system.use new = some s

theorem counter_eq {s : ORSet α} (h : s.Reachable) : s.counter = maxCounter s.elements := by
  obtain ⟨us, hus⟩ := h
  refine System.invariant_uses (I := fun s => s.counter = maxCounter s.elements) ?_ rfl hus
  rintro s (⟨i, x | x⟩ | other | other) t hI hstep <;> obtain rfl := Option.some.inj hstep
  · refine le_antisymm ?_ ((maxCounter_le_iff _).mpr fun y tag htag => ?_)
    · rw [Op.apply, counter_add, ← bumpCounter_tagged i]
      exact (maxCounter_le_iff _).mp le_rfl x _ ((mem_tags_add s x i x _).mpr (Or.inr ⟨rfl, rfl⟩))
    · rcases (mem_tags_add s x i y tag).mp htag with htag | ⟨-, rfl⟩
      · exact ((maxCounter_le_iff s).mp hI.ge y tag htag).trans (Nat.le_succ _)
      · exact (bumpCounter_tagged i _).le
  · rw [Op.apply, counter_remove, hI]
    unfold remove
    split <;> rfl
  · rfl
  · rfl

theorem reload_eq {copy : α → α} {s : ORSet α} (h : s.Reachable)
    (hcopy : ∀ x ∈ s.elements.keys, copy x = x) : reload copy s = s := by
  have helements : (s.toJSON.elements.map fun e => (copy e.1, e.2)).map (fun e => (e.1, JsSet.ofList e.2)) =
      s.elements.entries := by
    rw [toJSON, List.map_map, List.map_map]
    refine (List.map_congr_left fun e he => ?_).trans (List.map_id _)
    exact Prod.ext (hcopy e.1 (List.mem_map_of_mem he)) (ofList_elems e.2)
  have htombstones : JsSet.ofList s.toJSON.tombstones = s.tombstones := ofList_elems s.tombstones
  rw [reload, fromJSON, helements, htombstones, ofEntries_entries, setInternal, ← counter_eq h]

theorem exists_copy_of_has {copy : α → α} {s : ORSet α} {x : α} (h : (reload copy s).has x = true) :
    ∃ y ∈ s.elements.keys, copy y = x := by
  obtain ⟨tag, htag, -⟩ := (has_iff _ x).mp h
  rw [tags] at htag
  cases hget : (reload copy s).elements.get? x with
  | none =>
      rw [hget] at htag
      exact absurd htag (JsSet.not_mem_empty tag)
  | some ts =>
      have hmem := JsMap.mem_of_get?_ofEntries hget
      rw [toJSON, List.map_map, List.map_map] at hmem
      obtain ⟨e, he, heq⟩ := List.mem_map.mp hmem
      exact ⟨e.1, List.mem_map_of_mem he, congrArg Prod.fst heq⟩

end ORSet

/-! ### Sequences -/

namespace RGA
variable {α : Type}

def toJSON (s : RGA α) : List (RgaNode α) × JsObject ℕ :=
  (s.nodes.map fun n => ⟨n.id, n.value, n.deleted⟩, s.vclock.toJSON)

def fromJSON (data : List (RgaNode α) × JsObject ℕ) : RGA α :=
  ⟨data.1.map fun n => ⟨n.id, n.value, n.deleted⟩, VectorClock.fromJSON data.2⟩

def view (s : RGA α) : List (RgaNode α) × (JsString → ℕ) := (s.nodes, s.vclock.get)

theorem reads : (system (α := α)).Reads view where
  update i op s t h := by
    obtain ⟨nodes, c⟩ := s
    obtain ⟨nodes', d⟩ := t
    obtain ⟨rfl, hclock⟩ := Prod.mk.inj h
    cases op with
    | insert index v =>
        have hget := Option.some.inj (VectorClock.reads.update i () c d hclock)
        refine congrArg some (Prod.ext ?_ hget)
        show _ ++ RgaNode.mk (tagged i ((c.increment i).get i)) v false :: _ = _
        rw [congrFun hget i]
        rfl
    | delete index =>
        show (deleteAt ⟨nodes, c⟩ index).toOption.map view = (deleteAt ⟨nodes, d⟩ index).toOption.map view
        rw [deleteAt, deleteAt]
        cases deleteLoop index nodes 0 with
        | none => rfl
        | some nodes' => exact congrArg (fun get => some (nodes', get)) hclock
  merge s s' t t' hs ht := by
    obtain ⟨hsnodes, hsclock⟩ := Prod.mk.inj hs
    obtain ⟨htnodes, htclock⟩ := Prod.mk.inj ht
    refine congrArg some (Prod.ext ?_ (Option.some.inj (VectorClock.reads.merge _ _ _ _ hsclock htclock)))
    show mergeSequences _ _ _ = mergeSequences _ _ _
    rw [hsnodes, htnodes]

theorem alike_reload (s : RGA α) : system.Alike view (fromJSON s.toJSON) s ↔ s.vclock.get protoKey = 0 := by
  have hnodes : (fromJSON s.toJSON).nodes = s.nodes := by
    rw [fromJSON, toJSON, List.map_map]
    exact List.map_id s.nodes
  rw [System.alike_iff reads fun _ _ => Iff.rfl, ← VectorClock.get_reload_eq_iff]
  exact ⟨congrArg Prod.snd, fun h => Prod.ext hnodes h⟩

end RGA

/-! ### Maps -/

namespace LWWMap
variable {V : Type} [HasNull V]

omit [HasNull V] in
/-- The registers, and what is read of the live entries. -/
def view (m : LWWMap V) : (JsString → Option (LWWRegister (Entry V))) × List (JsString × V) × JsObject V × ℕ :=
  (m.entries.get?, m.liveEntries, m.value, m.size)

/-- `fromJSON(JSON.parse(JSON.stringify(m.toJSON())))`. -/
def reload (m : LWWMap V) : Option (LWWMap V) :=
  (jsonCopy (fun entry : EntryJSON V => entry.timestamp.isFinite) m.toJSON).map fromJSON

/-- The timestamps are finite, and no value is `undefined`. -/
def Representable (m : LWWMap V) : Prop := m.Regular ∧ ∀ e ∈ m.entries.entries, e.2.timestamp.isFinite = true

theorem reload_eq {m : LWWMap V} (h : m.Representable) : m.reload = some (fromJSON m.toJSON) := by
  have hperm : m.sorted.Perm m.entries.entries := List.perm_insertionSort _ _
  refine congrArg (Option.map fromJSON) (jsonCopy_assignAll ?_ fun f hf => ?_)
  · rw [List.map_map]
    exact (hperm.map Prod.fst).nodup_iff.mpr m.entries.nodup
  · obtain ⟨⟨k, v, timestamp, nodeId⟩, he, rfl⟩ := List.mem_map.mp hf
    cases v <;> exact h.2 _ (hperm.mem_iff.mp he)

theorem reads : (system (V := V)).Reads fun m => m.entries.get? where
  update i op m n h := by
    have hwrite (key : JsString) (v : Entry V) (ts : JsNumber) :
        (m.write key v ts i).entries.get? = (n.write key v ts i).entries.get? := by
      funext k
      rw [write, write, h]
      cases n.entries.get? key <;> exact (JsMap.get?_set _ _ _ k).trans (by rw [h, ← JsMap.get?_set])
    cases op with
    | set key v ts => exact congrArg some (hwrite key (.live v) ts)
    | delete key ts => exact congrArg some (hwrite key .tombstone ts)
  merge m m' n n' hm hn := 
    congrArg some (funext fun k => (get?_merge m n k).trans (by rw [hm, hn, ← get?_merge]))

theorem alike_reload {m : LWWMap V} (hm : m.Regular) :
    system.Alike view (fromJSON m.toJSON) m ↔ protoKey ∉ m.entries.keys := by
  rw [System.alike_iff reads fun m n => ?_]
  · exact get?_eq_iff (get?_reload_of_regular hm)
  · refine ⟨fun h => ?_, congrArg Prod.fst⟩
    have hsame : m.entries.Same n.entries := congrFun h
    have hlive : m.liveEntries = n.liveEntries := by rw [liveEntries, liveEntries, sorted_congr hsame]
    have hsize : m.size = n.size := ((hsame.perm.map Prod.snd).filter _).length_eq
    rw [view, view, value_congr hsame, hlive, hsize, h]

end LWWMap

/-! ### The round trip -/

/-- What comes back over the wire is like what was sent, up to a name that plain objects do not hold. -/
theorem wire_round_trip {α V : Type} [DecidableEq α] [HasNull V] :
    (∀ c : VectorClock, VectorClock.system.Alike VectorClock.view (.fromJSON c.toJSON) c ↔ c.get protoKey = 0) ∧
    (∀ c : GCounter, c.Finite → ∃ d, c.reload = some d ∧
      (GCounter.system.Alike (fun c => c.counts.get?) d c ↔ protoKey ∉ c.counts.keys) ∧
      (protoKey ∉ c.counts.keys → InOrder c.counts → d = c)) ∧
    (∀ c : PNCounter, c.pos.Finite ∧ c.neg.Finite → ∃ d, c.reload = some d ∧
      (PNCounter.system.Alike PNCounter.view d c ↔ protoKey ∉ c.pos.counts.keys ∧ protoKey ∉ c.neg.counts.keys) ∧
      (protoKey ∉ c.pos.counts.keys ∧ protoKey ∉ c.neg.counts.keys →
        InOrder c.pos.counts ∧ InOrder c.neg.counts → d = c)) ∧
    (∀ (copy : α → α) (s : ORSet α), s.Reachable →
      ((∀ x ∈ s.elements.keys, copy x = x) → s.reload copy = s) ∧
      ((s.reload copy).has = s.has → ∀ x, s.has x = true → ∃ y ∈ s.elements.keys, copy y = x)) ∧
    (∀ s : RGA α, RGA.system.Alike RGA.view (.fromJSON s.toJSON) s ↔ s.vclock.get protoKey = 0) ∧
    (∀ m : LWWMap V, m.Representable → ∃ n, m.reload = some n ∧
      (LWWMap.system.Alike LWWMap.view n m ↔ protoKey ∉ m.entries.keys)) := by
  refine ⟨VectorClock.alike_reload, fun c hc => ⟨_, GCounter.reload_eq hc, GCounter.alike_reload c, ?_⟩,
    fun c hc => ⟨_, PNCounter.reload_eq hc, PNCounter.alike_reload c, ?_⟩, fun copy s hs => ⟨ORSet.reload_eq hs, ?_⟩,
    RGA.alike_reload, fun m hm => ⟨_, LWWMap.reload_eq hm, LWWMap.alike_reload hm.1⟩⟩
  · exact GCounter.fromJSON_toJSON
  · intro hproto horder
    have hpos := GCounter.fromJSON_toJSON hproto.1 horder.1
    have hneg := GCounter.fromJSON_toJSON hproto.2 horder.2
    exact congrArg₂ PNCounter.mk hpos hneg
  · intro hhas x hx
    exact ORSet.exists_copy_of_has ((congrFun hhas x).trans hx)

/-- A clock that has counted `__proto__` comes back otherwise. -/
theorem wire_round_trip_fails :
    ¬ VectorClock.system.Alike VectorClock.view (.fromJSON (VectorClock.new.increment protoKey).toJSON)
      (VectorClock.new.increment protoKey) := by
  rw [VectorClock.alike_reload]
  decide +kernel

end BrowserMesh.Primitives
