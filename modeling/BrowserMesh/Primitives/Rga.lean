import BrowserMesh.Js.Number
import BrowserMesh.Primitives.VectorClock
import BrowserMesh.Library.Replication
import BrowserMesh.Library.Weave

/-! # Replicated growable array

* `RGA`: a flat sequence of nodes, deleted ones kept as tombstones, and a vector clock that
  numbers the insertions.  `insertAt` places a node `nodeId:seq` among the visible ones, `deleteAt`
  marks one as deleted.
* **Merge.**  `mergeLoop` walks both sequences at once.  A head that the rest of the other sequence
  does not contain goes first, and between two such heads the lower id.  No insertion
  parent is looked at.
* `mergeLoop` is proved to weave the ids (`ids_mergeLoop`) when the common nodes come in the same order. -/

namespace BrowserMesh.Primitives

open Js Replication Sequence

variable {α : Type}

structure RgaNode (α : Type) where
  id : JsString
  value : α
  deleted : Bool
deriving DecidableEq

structure RGA (α : Type) where
  nodes : List (RgaNode α)
  vclock : VectorClock
deriving DecidableEq

/-- The `RangeError` of `deleteAt`: `Index ${index} out of bounds`. -/
structure OutOfBounds where
  index : JsNumber
deriving DecidableEq

namespace RGA

/-- `new RGA()`. -/
def new : RGA α := ⟨[], VectorClock.new⟩

def value (s : RGA α) : List α := (s.nodes.filter (fun n => !n.deleted)).map RgaNode.value

def length (s : RGA α) : ℕ := (s.nodes.filter (fun n => !n.deleted)).length

/-- The loop of `_visibleToPhysical` from position `i`, with `count` visible nodes before. -/
def physicalLoop (visibleIndex : JsNumber) : List (RgaNode α) → ℕ → ℕ → Option ℕ
  | [], _, _ => none
  | n :: nodes, i, count =>
      if n.deleted then physicalLoop visibleIndex nodes (i + 1) count
      else if (JsNumber.ofNat (count + 1)).eq visibleIndex then some (i + 1)
      else physicalLoop visibleIndex nodes (i + 1) (count + 1)

/-- `_visibleToPhysical`: an index that is not found appends. -/
def visibleToPhysical (s : RGA α) (visibleIndex : JsNumber) : ℕ :=
  if visibleIndex.eq 0 then 0 else (physicalLoop visibleIndex s.nodes 0 0).getD s.nodes.length

def insertAt (s : RGA α) (index : JsNumber) (value : α) (nodeId : JsString) : RGA α :=
  let vclock := s.vclock.increment nodeId
  let newNode : RgaNode α := ⟨tagged nodeId (vclock.get nodeId), value, false⟩
  let physicalIndex := s.visibleToPhysical index
  ⟨s.nodes.take physicalIndex ++ newNode :: s.nodes.drop physicalIndex, vclock⟩

/-- The loop of `deleteAt`, with `count` visible nodes before; `none` when it runs to the end. -/
def deleteLoop (index : JsNumber) : List (RgaNode α) → ℕ → Option (List (RgaNode α))
  | [], _ => none
  | n :: nodes, count =>
      if n.deleted then (deleteLoop index nodes count).map (n :: ·)
      else if (JsNumber.ofNat count).eq index then some ({ n with deleted := true } :: nodes)
      else (deleteLoop index nodes (count + 1)).map (n :: ·)

def deleteAt (s : RGA α) (index : JsNumber) : Except OutOfBounds (RGA α) :=
  match deleteLoop index s.nodes 0 with
  | none => .error ⟨index⟩
  | some nodes => .ok ⟨nodes, s.vclock⟩

/-! ### Merging -/

/-- The nodes of both sides by id; a node deleted on one side is deleted. -/
def nodeMap (nodes other : List (RgaNode α)) : JsMap JsString (RgaNode α) :=
  other.foldl (fun acc n => acc.set n.id
    (match acc.get? n.id with
      | some existing => { existing with deleted := existing.deleted || n.deleted }
      | none => n))
    (nodes.foldl (fun acc n => acc.set n.id n) JsMap.empty)

/-- `if (!seen.has(node.id)) { result.push(node); seen.add(node.id) }`. -/
def push (nodeMap : JsMap JsString (RgaNode α)) (id : JsString)
    (out : List (RgaNode α) × JsSet JsString) : List (RgaNode α) × JsSet JsString :=
  match nodeMap.get? id with
  | none => out
  | some node => if out.2.has node.id then out else (out.1 ++ [node], out.2.add node.id)

/-- The loop of `_mergeSequences` on what is left of both sequences; `out` is `result` and `seen`. -/
def mergeLoop (nodeMap : JsMap JsString (RgaNode α)) :
    ℕ → List (RgaNode α) → List (RgaNode α) → List (RgaNode α) × JsSet JsString → List (RgaNode α)
  | 0, _, _, out => out.1
  | fuel + 1, seqA, seqB, out =>
      match seqA.dropWhile (fun n => out.2.has n.id), seqB.dropWhile (fun n => out.2.has n.id) with
      | [], [] => out.1
      | [], b :: restB => mergeLoop nodeMap fuel [] restB (push nodeMap b.id out)
      | a :: restA, [] => mergeLoop nodeMap fuel restA [] (push nodeMap a.id out)
      | a :: restA, b :: restB =>
          if a.id = b.id then mergeLoop nodeMap fuel restA restB (push nodeMap a.id out)
          else
            let aInB := (b :: restB).any (fun n => decide (n.id = a.id))
            let bInA := (a :: restA).any (fun n => decide (n.id = b.id))
            if aInB && !bInA then mergeLoop nodeMap fuel (a :: restA) restB (push nodeMap b.id out)
            else if bInA && !aInB then mergeLoop nodeMap fuel restA (b :: restB) (push nodeMap a.id out)
            else if a.id < b.id then mergeLoop nodeMap fuel restA (b :: restB) (push nodeMap a.id out)
            else mergeLoop nodeMap fuel (a :: restA) restB (push nodeMap b.id out)

/-- `_mergeSequences`: every iteration consumes a node. -/
def mergeSequences (seqA seqB : List (RgaNode α)) (nodeMap : JsMap JsString (RgaNode α)) :
    List (RgaNode α) :=
  mergeLoop nodeMap (seqA.length + seqB.length) seqA seqB ([], JsSet.empty)

def merge (s other : RGA α) : RGA α :=
  ⟨mergeSequences s.nodes other.nodes (nodeMap s.nodes other.nodes), s.vclock.merge other.vclock⟩

/-! ### The ids of a sequence -/

def idsOf (nodes : List (RgaNode α)) : List JsString := nodes.map RgaNode.id

/-- The ids of the sequence, tombstones included. -/
def ids (s : RGA α) : List JsString := idsOf s.nodes

@[simp] theorem idsOf_cons (n : RgaNode α) (l : List (RgaNode α)) : idsOf (n :: l) = n.id :: idsOf l :=
  rfl

variable {l : List (RgaNode α)} {x : JsString}

theorem any_id_iff :
    l.any (fun n => decide (n.id = x)) = true ↔ x ∈ idsOf l := by
  simp [idsOf]

theorem dropWhile_unseen {seen : JsSet JsString}
    (h : ∀ x ∈ idsOf l, x ∉ seen) : l.dropWhile (fun n => seen.has n.id) = l := by
  cases l with
  | nil => rfl
  | cons n l =>
      have : seen.has n.id = false := by
        rw [Bool.eq_false_iff, ne_eq, JsSet.has_iff]
        exact h n.id List.mem_cons_self
      exact List.dropWhile_cons_of_neg (by simp [this])

theorem push_of_unseen {nm : JsMap JsString (RgaNode α)} {node : RgaNode α}
    (hget : nm.get? x = some node) (hid : node.id = x) {out : List (RgaNode α) × JsSet JsString}
    (hx : x ∉ out.2) : push nm x out = (out.1 ++ [node], out.2.add x) := by
  have : out.2.has x = false := by rwa [Bool.eq_false_iff, ne_eq, JsSet.has_iff]
  simp only [push, hget, hid, this]
  rfl

/-- The node of every id is known to the map. -/
def Covers (nm : JsMap JsString (RgaNode α)) (l : List JsString) : Prop :=
  ∀ x ∈ l, ∃ node, nm.get? x = some node ∧ node.id = x

/-- **The loop weaves the ids.**  On nodes with distinct ids whose common ones come in the same order, the
loop outputs the nodes of the woven ids. -/
theorem mergeLoop_eq (nm : JsMap JsString (RgaNode α)) (fuel : ℕ) (a b : List (RgaNode α))
    (out : List (RgaNode α) × JsSet JsString) (hfuel : a.length + b.length ≤ fuel)
    (ha : (idsOf a).Nodup) (hb : (idsOf b).Nodup) (hc : Consistent (idsOf a) (idsOf b))
    (hca : Covers nm (idsOf a)) (hcb : Covers nm (idsOf b))
    (hsa : ∀ x ∈ idsOf a, x ∉ out.2) (hsb : ∀ x ∈ idsOf b, x ∉ out.2) :
    mergeLoop nm fuel a b out = out.1 ++ (weave (idsOf a) (idsOf b)).filterMap nm.get? := by
  induction fuel generalizing a b out with
  | zero =>
      obtain rfl := List.length_eq_zero_iff.mp (by omega : a.length = 0)
      obtain rfl := List.length_eq_zero_iff.mp (by omega : b.length = 0)
      simp [mergeLoop, idsOf, weave]
  | succ fuel ih =>
      -- the next iteration, after the node of `x` was pushed
      have hnext : ∀ (x : JsString) (a' b' : List (RgaNode α)),
          (∃ node, nm.get? x = some node ∧ node.id = x) → x ∉ out.2 →
          a'.length + b'.length ≤ fuel → (idsOf a').Sublist (idsOf a) → (idsOf b').Sublist (idsOf b) →
          x ∉ idsOf a' → x ∉ idsOf b' →
          mergeLoop nm fuel a' b' (push nm x out) =
            out.1 ++ (x :: weave (idsOf a') (idsOf b')).filterMap nm.get? := by
        rintro x a' b' ⟨node, hget, hid⟩ hx hf ha' hb' hxa hxb
        have hua : ∀ y ∈ idsOf a', y ∉ out.2.add x := by
          intro y hy hm
          rcases JsSet.mem_add.mp hm with hm | rfl
          · exact hsa y (ha'.subset hy) hm
          · exact hxa hy
        have hub : ∀ y ∈ idsOf b', y ∉ out.2.add x := by
          intro y hy hm
          rcases JsSet.mem_add.mp hm with hm | rfl
          · exact hsb y (hb'.subset hy) hm
          · exact hxb hy
        rw [push_of_unseen hget hid hx, ih a' b' (out.1 ++ [node], out.2.add x) hf (ha.sublist ha')
          (hb.sublist hb') (fun y z hyz hzy => hc y z (hyz.sublist ha') (hzy.sublist hb'))
          (fun y hy => hca y (ha'.subset hy)) (fun y hy => hcb y (hb'.subset hy)) hua hub]
        simp [hget]
      rw [mergeLoop, dropWhile_unseen hsa, dropWhile_unseen hsb]
      cases a with
      | nil =>
          cases b with
          | nil => simp [idsOf, weave]
          | cons b restB =>
              have hb' := List.nodup_cons.mp hb
              simp only [idsOf, List.map_nil, weave]
              have := hnext b.id [] restB (hcb _ List.mem_cons_self) (hsb _ List.mem_cons_self)
                (by simp at hfuel ⊢; omega) (List.Sublist.refl _) (List.sublist_cons_self _ _)
                List.not_mem_nil hb'.1
              rw [this]
              cases restB <;> simp [idsOf, weave]
      | cons a restA =>
          have ha' := List.nodup_cons.mp ha
          have hka := hca _ List.mem_cons_self
          have hua := hsa _ List.mem_cons_self
          have hda := List.sublist_cons_self a.id (idsOf restA)
          cases b with
          | nil =>
              have := hnext a.id restA [] hka hua (by simp at hfuel ⊢; omega) hda
                (List.Sublist.refl _) ha'.1 List.not_mem_nil
              simp only [this]
              cases restA <;> simp [idsOf, weave]
          | cons b restB =>
              have hb' := List.nodup_cons.mp hb
              have hkb := hcb _ List.mem_cons_self
              have hub := hsb _ List.mem_cons_self
              have hdb := List.sublist_cons_self b.id (idsOf restB)
              simp only [List.length_cons] at hfuel
              simp only [idsOf_cons] at hc ⊢
              rw [weave]
              by_cases heq : a.id = b.id
              · rw [if_pos heq, if_pos heq, hnext a.id restA restB hka hua (by omega) hda hdb ha'.1
                  (heq ▸ hb'.1)]
              have haB : (b :: restB).any (fun n => decide (n.id = a.id)) = decide (a.id ∈ idsOf restB) := by
                rw [Bool.eq_iff_iff, any_id_iff, decide_eq_true_eq, idsOf_cons, List.mem_cons]
                exact or_iff_right heq
              have hbA : (a :: restA).any (fun n => decide (n.id = b.id)) = decide (b.id ∈ idsOf restA) := by
                rw [Bool.eq_iff_iff, any_id_iff, decide_eq_true_eq, idsOf_cons, List.mem_cons]
                exact or_iff_right (Ne.symm heq)
              simp only [if_neg heq, haB, hbA, Bool.and_eq_true, Bool.not_eq_true',
                decide_eq_true_eq, decide_eq_false_iff_not]
              split_ifs with h1 h2 hlt
              · rw [hnext b.id (a :: restA) restB hkb hub (by simp; omega) (List.Sublist.refl _) hdb
                  (fun hm => (List.mem_cons.mp hm).elim (Ne.symm heq) h1.2) hb'.1, idsOf_cons]
              · rw [hnext a.id restA (b :: restB) hka hua (by simp; omega) hda (List.Sublist.refl _) ha'.1
                  (fun hm => (List.mem_cons.mp hm).elim heq h2.2), idsOf_cons]
              · obtain ⟨hx, _⟩ := not_mem_of_tied heq hc h1 h2
                rw [hnext a.id restA (b :: restB) hka hua (by simp; omega) hda (List.Sublist.refl _) ha'.1
                  hx, idsOf_cons]
              · obtain ⟨_, hy⟩ := not_mem_of_tied heq hc h1 h2
                rw [hnext b.id (a :: restA) restB hkb hub (by simp; omega) (List.Sublist.refl _) hdb
                  hy hb'.1, idsOf_cons]

/-! ### What merging does -/

def find (l : List (RgaNode α)) (x : JsString) : Option (RgaNode α) :=
  assoc x (l.map (fun n => (n.id, n)))

theorem find_eq_none_iff : find l x = none ↔ x ∉ idsOf l := by
  rw [find, assoc_eq_none_iff, List.map_map]
  rfl

variable {n : RgaNode α}

theorem find_spec (h : find l x = some n) :
    n ∈ l ∧ n.id = x := by
  obtain ⟨m, hm, e⟩ := List.mem_map.mp (mem_of_assoc h)
  obtain ⟨e1, e2⟩ := Prod.mk.inj e
  exact ⟨e2 ▸ hm, e2 ▸ e1⟩

theorem find_of_mem (hl : (idsOf l).Nodup) (h : n ∈ l) :
    find l n.id = some n := by
  refine assoc_of_mem ?_ (List.mem_map.mpr ⟨n, h, rfl⟩)
  rwa [List.map_map]

theorem get?_nodeMap {a b : List (RgaNode α)} (ha : (idsOf a).Nodup) (hb : (idsOf b).Nodup)
    (x : JsString) :
    (nodeMap a b).get? x =
      match find b x with
      | none => find a x
      | some n => match find a x with
        | none => some n
        | some m => some { m with deleted := m.deleted || n.deleted } := by
  have hnd : ∀ {l : List (RgaNode α)}, (idsOf l).Nodup →
      ((l.map (fun n => (n.id, n))).map Prod.fst).Nodup := fun hl => by rwa [List.map_map]
  have h1 := JsMap.get?_foldl_set (fun _ (_ : Option (RgaNode α)) (n : RgaNode α) => n)
    (a.map (fun n => (n.id, n))) (hnd ha) JsMap.empty x
  have h2 := fun m => JsMap.get?_foldl_set (fun _ (own : Option (RgaNode α)) (n : RgaNode α) =>
    (match own with
      | some existing => { existing with deleted := existing.deleted || n.deleted }
      | none => n)) (b.map (fun n => (n.id, n))) (hnd hb) m x
  rw [List.foldl_map] at h1
  simp only [List.foldl_map] at h2
  have h1' : (a.foldl (fun acc n => acc.set n.id n) JsMap.empty).get? x = find a x := by
    rw [h1, find]
    cases assoc x (a.map (fun n => (n.id, n))) <;> rfl
  have hb' : find b x = assoc x (b.map (fun n => (n.id, n))) := rfl
  rw [nodeMap, h2, h1', hb']
  cases assoc x (b.map (fun n => (n.id, n))) with
  | none => rfl
  | some n => cases find a x <;> rfl

theorem covers_nodeMap {a b : List (RgaNode α)} (ha : (idsOf a).Nodup) (hb : (idsOf b).Nodup)
    (hx : x ∈ idsOf a ∨ x ∈ idsOf b) : ∃ node, (nodeMap a b).get? x = some node ∧ node.id = x := by
  rw [get?_nodeMap ha hb]
  cases hfb : find b x with
  | none =>
      have hxa := hx.resolve_right (find_eq_none_iff.mp hfb)
      cases hfa : find a x with
      | none => exact absurd hxa (find_eq_none_iff.mp hfa)
      | some m => exact ⟨m, rfl, (find_spec hfa).2⟩
  | some n =>
      cases hfa : find a x with
      | none => exact ⟨n, rfl, (find_spec hfb).2⟩
      | some m => exact ⟨_, rfl, (find_spec hfa).2⟩

/-- The node of an id is marked as deleted. -/
def Deleted (s : RGA α) (x : JsString) : Prop := ∃ n ∈ s.nodes, n.id = x ∧ n.deleted = true

theorem deleted_iff {s : RGA α} (hs : s.ids.Nodup) (hn : n ∈ s.nodes) :
    s.Deleted n.id ↔ n.deleted = true := by
  refine ⟨?_, fun h => ⟨n, hn, rfl, h⟩⟩
  rintro ⟨m, hm, hid, hd⟩
  have h1 := find_of_mem hs hm
  rw [hid, find_of_mem hs hn] at h1
  rwa [Option.some.inj h1]

section merge
variable {s t : RGA α} (hs : s.ids.Nodup) (ht : t.ids.Nodup) (hc : Consistent s.ids t.ids)
include hs ht hc

theorem nodes_merge :
    (s.merge t).nodes = (weave s.ids t.ids).filterMap (nodeMap s.nodes t.nodes).get? := by
  have h := mergeLoop_eq (nodeMap s.nodes t.nodes) _ s.nodes t.nodes ([], JsSet.empty) le_rfl hs ht hc
    (fun x hx => covers_nodeMap hs ht (Or.inl hx)) (fun x hx => covers_nodeMap hs ht (Or.inr hx))
    (fun x _ => JsSet.not_mem_empty x) (fun x _ => JsSet.not_mem_empty x)
  rwa [List.nil_append] at h

/-- **Merging weaves the ids.** -/
theorem ids_merge : (s.merge t).ids = weave s.ids t.ids := by
  have key : ∀ l : List JsString, (∀ x ∈ l, x ∈ s.ids ∨ x ∈ t.ids) →
      idsOf (l.filterMap (nodeMap s.nodes t.nodes).get?) = l := by
    intro l
    induction l with
    | nil => exact fun _ => rfl
    | cons x l ih =>
        intro hl
        obtain ⟨node, hget, hid⟩ := covers_nodeMap hs ht (hl x List.mem_cons_self)
        rw [List.filterMap_cons_some hget, idsOf_cons, hid,
          ih fun y hy => hl y (List.mem_cons_of_mem x hy)]
  rw [ids, nodes_merge hs ht hc]
  exact key _ fun x hx => (mem_weave _ _).mp hx

theorem get?_of_mem_merge {n : RgaNode α} (h : n ∈ (s.merge t).nodes) :
    (nodeMap s.nodes t.nodes).get? n.id = some n := by
  rw [nodes_merge hs ht hc] at h
  obtain ⟨x, hx, hget⟩ := List.mem_filterMap.mp h
  obtain ⟨node, hget', hid⟩ := covers_nodeMap hs ht ((mem_weave _ _).mp hx)
  obtain rfl := Option.some.inj (hget.symm.trans hget')
  rwa [hid]

theorem value_merge {n : RgaNode α} (h : n ∈ (s.merge t).nodes) :
    ∃ m, (m ∈ s.nodes ∨ m ∈ t.nodes) ∧ m.id = n.id ∧ m.value = n.value := by
  have hget := get?_of_mem_merge hs ht hc h
  rw [get?_nodeMap hs ht] at hget
  cases hft : find t.nodes n.id with
  | none =>
      rw [hft] at hget
      exact ⟨n, Or.inl (find_spec hget).1, rfl, rfl⟩
  | some m =>
      cases hfs : find s.nodes n.id with
      | none => exact ⟨m, Or.inr (find_spec hft).1, (find_spec hft).2, by
          rw [hft, hfs] at hget; rw [Option.some.inj hget]⟩
      | some m' => exact ⟨m', Or.inl (find_spec hfs).1, (find_spec hfs).2, by
          rw [hft, hfs] at hget; rw [← Option.some.inj hget]⟩

/-- A node is deleted in the merge when it is deleted on one side. -/
theorem deleted_merge (x : JsString) : (s.merge t).Deleted x ↔ s.Deleted x ∨ t.Deleted x := by
  have hfind : ∀ {u : RGA α}, u.ids.Nodup → (u.Deleted x ↔ ∃ n, find u.nodes x = some n ∧
      n.deleted = true) := by
    intro u hu
    constructor
    · rintro ⟨n, hn, rfl, hd⟩
      exact ⟨n, find_of_mem hu hn, hd⟩
    · rintro ⟨n, hn, hd⟩
      exact ⟨n, (find_spec hn).1, (find_spec hn).2, hd⟩
  have hmerged : (s.merge t).Deleted x ↔ ∃ n, (nodeMap s.nodes t.nodes).get? x = some n ∧
      n.deleted = true := by
    constructor
    · rintro ⟨n, hn, rfl, hd⟩
      exact ⟨n, get?_of_mem_merge hs ht hc hn, hd⟩
    · rintro ⟨n, hn, hd⟩
      have hx : x ∈ s.ids ∨ x ∈ t.ids := by
        rw [get?_nodeMap hs ht] at hn
        cases hft : find t.nodes x with
        | none => rw [hft] at hn; exact Or.inl ((find_spec hn).2 ▸ List.mem_map_of_mem (find_spec hn).1)
        | some m => exact Or.inr ((find_spec hft).2 ▸ List.mem_map_of_mem (find_spec hft).1)
      obtain ⟨node, hget, hid⟩ := covers_nodeMap hs ht hx
      obtain rfl := Option.some.inj (hn.symm.trans hget)
      refine ⟨n, ?_, hid, hd⟩
      rw [nodes_merge hs ht hc]
      exact List.mem_filterMap.mpr ⟨x, (mem_weave _ _).mpr hx, hn⟩
  rw [hmerged, hfind hs, hfind ht, get?_nodeMap hs ht]
  cases find t.nodes x with
  | none => simp
  | some n => cases find s.nodes x <;> simp [or_comm]

/-- The merge of the other side with this one has the same nodes if the common ones have the same values. -/
theorem nodes_merge_comm_iff : (s.merge t).nodes = (t.merge s).nodes ↔
    ∀ m ∈ s.nodes, ∀ n ∈ t.nodes, m.id = n.id → m.value = n.value := by
  have hc' : Consistent t.ids s.ids := hc.symm
  constructor
  · intro h m hm n hn hid
    have hfs := find_of_mem hs hm
    have hft := find_of_mem ht hn
    rw [hid] at hfs
    have hget := get?_nodeMap hs ht n.id
    have hget' := get?_nodeMap ht hs n.id
    rw [hft, hfs] at hget hget'
    have hmem : { m with deleted := m.deleted || n.deleted } ∈ (s.merge t).nodes := by
      rw [nodes_merge hs ht hc]
      exact List.mem_filterMap.mpr ⟨n.id, (mem_weave _ _).mpr (Or.inr (List.mem_map_of_mem hn)), hget⟩
    rw [h] at hmem
    have hsame := get?_of_mem_merge ht hs hc' hmem
    dsimp only at hsame
    rw [hid, hget'] at hsame
    exact (congrArg RgaNode.value (Option.some.inj hsame)).symm
  · intro h
    rw [nodes_merge hs ht hc, nodes_merge ht hs hc', weave_comm t.ids s.ids]
    refine List.filterMap_congr fun x _ => ?_
    rw [get?_nodeMap hs ht, get?_nodeMap ht hs]
    cases hfs : find s.nodes x with
    | none => cases find t.nodes x <;> rfl
    | some m =>
        cases hft : find t.nodes x with
        | none => rfl
        | some n =>
            obtain ⟨hm, hmid⟩ := find_spec hfs
            obtain ⟨hn, hnid⟩ := find_spec hft
            have hvalue := h m hm n hn (hmid.trans hnid.symm)
            simp only [Option.some.injEq, RgaNode.mk.injEq]
            exact ⟨hmid.trans hnid.symm, hvalue, Bool.or_comm _ _⟩

/-- The loop ends, and what it leaves keeps the order of both sides: every id once, deleted if it is on a side, and the
same ids for the merge of the other side with this one. -/
theorem merge_keeps_orders :
    (∀ fuel, s.nodes.length + t.nodes.length ≤ fuel →
      mergeLoop (nodeMap s.nodes t.nodes) fuel s.nodes t.nodes ([], JsSet.empty) = (s.merge t).nodes) ∧
    (s.merge t).ids.Nodup ∧ (∀ x, x ∈ (s.merge t).ids ↔ x ∈ s.ids ∨ x ∈ t.ids) ∧
    (∀ x, (s.merge t).Deleted x ↔ s.Deleted x ∨ t.Deleted x) ∧
    (∀ x ∈ s.ids, ∀ y ∈ s.ids, Before x y (s.merge t).ids ↔ Before x y s.ids) ∧
    (∀ x ∈ t.ids, ∀ y ∈ t.ids, Before x y (s.merge t).ids ↔ Before x y t.ids) ∧
    (s.merge t).ids = (t.merge s).ids ∧
    ((s.merge t).nodes = (t.merge s).nodes ↔ ∀ m ∈ s.nodes, ∀ n ∈ t.nodes, m.id = n.id → m.value = n.value) := by
  have hn := nodup_weave hs ht hc
  rw [ids_merge hs ht hc, ids_merge ht hs hc.symm]
  refine ⟨fun fuel hfuel => ?_, hn, fun x => mem_weave _ _, deleted_merge hs ht hc, fun x hx y hy => ?_,
    fun x hx y hy => ?_, weave_comm _ _, nodes_merge_comm_iff hs ht hc⟩
  · rw [nodes_merge hs ht hc]
    exact mergeLoop_eq _ fuel s.nodes t.nodes ([], JsSet.empty) hfuel hs ht hc
      (fun x hx => covers_nodeMap hs ht (Or.inl hx)) (fun x hx => covers_nodeMap hs ht (Or.inr hx))
      (fun x _ => JsSet.not_mem_empty x) fun x _ => JsSet.not_mem_empty x
  · exact (before_iff_of_sublist hn (sublist_weave_left _ _) hx hy).symm
  · exact (before_iff_of_sublist hn (sublist_weave_right _ _) hx hy).symm

end merge

/-- A side that has inserted a node behind `a:1`, and the one that has deleted it. -/
def insertedSide : RGA ℕ := ⟨[⟨js "a:1", 1, false⟩, ⟨js "b:1", 2, false⟩], VectorClock.new⟩

def deletedSide : RGA ℕ := ⟨[⟨js "a:1", 1, true⟩, ⟨js "c:1", 3, false⟩], VectorClock.new⟩

theorem merge_keeps_orders_sides : (insertedSide.merge deletedSide).ids.Nodup ∧
    (insertedSide.merge deletedSide).Deleted (js "a:1") ∧
    (insertedSide.merge deletedSide).ids = (deletedSide.merge insertedSide).ids := by
  have hconsistent : Consistent insertedSide.ids deletedSide.ids := by
    intro x y h h'
    have hy : y = js "b:1" := by
      rcases h with ⟨-, h⟩ | h | h
      · exact List.mem_singleton.mp h
      · cases h.2
      · exact h.elim
    have hy' : y = js "a:1" := by
      rcases h' with ⟨h', -⟩ | h' | h'
      · exact h'.symm
      · cases h'.2
      · exact h'.elim
    exact absurd (hy.symm.trans hy') (by decide +kernel)
  obtain ⟨-, hnodup, -, hdeleted, -, -, hids, -⟩ :=
    merge_keeps_orders (s := insertedSide) (t := deletedSide) (by decide +kernel) (by decide +kernel) hconsistent
  exact ⟨hnodup, (hdeleted _).mpr (Or.inr ⟨_, List.mem_cons_self, rfl, rfl⟩), hids⟩

/-! ### What inserting and deleting do -/

theorem ids_insertAt (s : RGA α) (index : JsNumber) (v : α) (i : JsString) :
    ∃ l r, s.ids = l ++ r ∧
      (s.insertAt index v i).ids = l ++ tagged i (s.vclock.get i + 1) :: r := by
  refine ⟨idsOf (s.nodes.take (s.visibleToPhysical index)),
    idsOf (s.nodes.drop (s.visibleToPhysical index)), ?_, ?_⟩
  · simp only [ids, idsOf]
    rw [← List.map_append, List.take_append_drop]
  · simp [ids, idsOf, insertAt]

variable {index : JsNumber}

theorem mem_insertAt {s : RGA α} {v : α} {i : JsString} :
    n ∈ (s.insertAt index v i).nodes ↔
      n ∈ s.nodes ∨ n = ⟨tagged i (s.vclock.get i + 1), v, false⟩ := by
  have h := List.take_append_drop (s.visibleToPhysical index) s.nodes
  have hmem : n ∈ s.nodes ↔ n ∈ s.nodes.take (s.visibleToPhysical index) ∨
      n ∈ s.nodes.drop (s.visibleToPhysical index) := by
    rw [← List.mem_append, h]
  simp only [insertAt, List.mem_append, List.mem_cons, hmem, VectorClock.get_increment, if_true]
  tauto

theorem deleteLoop_spec {l' : List (RgaNode α)} {count : ℕ} (h : deleteLoop index l count = some l') :
    idsOf l' = idsOf l ∧ (∀ n' ∈ l', ∃ n ∈ l, n.id = n'.id ∧ n.value = n'.value) ∧
      ∀ x, (∃ n ∈ l, n.id = x ∧ n.deleted = true) → ∃ n ∈ l', n.id = x ∧ n.deleted = true := by
  induction l generalizing count l' with
  | nil => cases h
  | cons m l ih =>
      -- the head stays and the rest is changed
      have hrest : ∀ c, (deleteLoop index l c).map (m :: ·) = some l' →
          idsOf l' = idsOf (m :: l) ∧ (∀ n' ∈ l', ∃ n ∈ m :: l, n.id = n'.id ∧ n.value = n'.value) ∧
          ∀ x, (∃ n ∈ m :: l, n.id = x ∧ n.deleted = true) → ∃ n ∈ l', n.id = x ∧ n.deleted = true := by
        intro c hc
        obtain ⟨l₁, h₁, rfl⟩ := Option.map_eq_some_iff.mp hc
        obtain ⟨hids, hval, hdel⟩ := ih h₁
        refine ⟨by rw [idsOf_cons, hids, idsOf_cons], fun n' hn' => ?_, ?_⟩
        · rcases List.mem_cons.mp hn' with rfl | hn'
          · exact ⟨n', List.mem_cons_self, rfl, rfl⟩
          · obtain ⟨n, hn, e⟩ := hval n' hn'
            exact ⟨n, List.mem_cons_of_mem m hn, e⟩
        · rintro x ⟨n, hn, hx⟩
          rcases List.mem_cons.mp hn with rfl | hn
          · exact ⟨n, List.mem_cons_self, hx⟩
          · obtain ⟨n₁, hn₁, e⟩ := hdel x ⟨n, hn, hx⟩
            exact ⟨n₁, List.mem_cons_of_mem m hn₁, e⟩
      simp only [deleteLoop] at h
      split_ifs at h with hd hidx
      · exact hrest count h
      · obtain rfl := Option.some.inj h
        refine ⟨rfl, fun n' hn' => ?_, ?_⟩
        · rcases List.mem_cons.mp hn' with rfl | hn'
          · exact ⟨m, List.mem_cons_self, rfl, rfl⟩
          · exact ⟨n', List.mem_cons_of_mem m hn', rfl, rfl⟩
        · rintro x ⟨n, hn, hx⟩
          rcases List.mem_cons.mp hn with rfl | hn
          · exact absurd hx.2 hd
          · exact ⟨n, List.mem_cons_of_mem _ hn, hx⟩
      · exact hrest (count + 1) h

/-- Deleting keeps the ids, the values and what was deleted before. -/
theorem deleteAt_spec {s t : RGA α} (h : s.deleteAt index = .ok t) :
    t.ids = s.ids ∧ t.vclock = s.vclock ∧
      (∀ n' ∈ t.nodes, ∃ n ∈ s.nodes, n.id = n'.id ∧ n.value = n'.value) ∧
      ∀ x, s.Deleted x → t.Deleted x := by
  unfold deleteAt at h
  split at h
  · cases h
  · rename_i nodes hl
    obtain rfl := Except.ok.inj h
    obtain ⟨h1, h2, h3⟩ := deleteLoop_spec hl
    exact ⟨h1, rfl, h2, h3⟩

end RGA
end BrowserMesh.Primitives
