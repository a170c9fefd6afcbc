import BrowserMesh.Js.Number
import BrowserMesh.Js.Dict
import BrowserMesh.Library.Replication

/-! # Grow-only and positive-negative counters

* `GCounter`: a count for every node; its value adds up the counts in insertion order.  An
  increment by a negative amount throws; merging takes the maximum of every count.
* `PNCounter`: one counter for increments and one for decrements.

Counts are numbers of the language, so adding an amount may round, and the value may
depend on the order of the counts.  Rounded or not, an accepted increment never decreases a
count (`GCounter.increment_spec`), so the counts form a lattice in the total order
of numbers, `NaN` included. -/

namespace BrowserMesh.Primitives

open Js Replication

/-! ### GCounter -/

structure GCounter where
  counts : JsMap JsString JsNumber
deriving DecidableEq

namespace GCounter

/-- `new GCounter()`. -/
def new : GCounter := ⟨JsMap.empty⟩

def value (c : GCounter) : JsNumber := JsNumber.sum c.counts.values

/-- The text of the `RangeError` of a negative amount. -/
def negativeAmount : String := "GCounter increment amount must be non-negative"

def increment (c : GCounter) (nodeId : JsString) (amount : JsNumber) : Except String GCounter :=
  if amount.lt 0 then .error negativeAmount
  else .ok ⟨c.counts.set nodeId (((c.counts.get? nodeId).getD 0).add amount)⟩

def merge (c other : GCounter) : GCounter :=
  ⟨JsMap.mergeWith (fun own count => JsNumber.mathMax (own.getD 0) count) c.counts other.counts⟩

def toJSON (c : GCounter) : JsObject JsNumber := JsObject.empty.assignAll c.counts.entries

def fromJSON (data : JsObject JsNumber) : GCounter := ⟨JsMap.ofEntries data.entries⟩

/-- The count of a node in the total order of numbers, `⊥` when the node never counted. -/
def count (c : GCounter) (nodeId : JsString) : WithBot JsNumber := c.counts.get? nodeId

def Counts (c : GCounter) : Prop := ∀ nodeId a, c.counts.get? nodeId = some a → (0 : JsNumber) ≤ a

variable {c : GCounter}

theorem count_of_get? {k : JsString} {a : JsNumber} (h : c.counts.get? k = some a) :
    c.count k = (a : WithBot JsNumber) := h

theorem count_of_get?_none {k : JsString} (h : c.counts.get? k = none) :
    c.count k = ⊥ := h

variable {d : GCounter}

theorem same_of_count (h : c.count = d.count) : c.counts.Same d.counts :=
  fun k => congrFun h k

theorem counts_new : new.Counts := fun _ _ h => by cases h

/-- An accepted amount is non-negative or `NaN`. -/
theorem le_add_of_not_lt {amount : JsNumber} (h : amount.lt 0 = false) (a : JsNumber) :
    a ≤ a.add amount := by
  by_cases hn : amount = .nan
  · subst hn
    cases a <;> exact JsNumber.le_nan _
  · refine JsNumber.le_add_of_nonNeg a ?_
    have h0 : (0 : JsNumber) ≠ .nan := by decide
    have : ¬ amount < 0 := fun hlt => by
      rw [(JsNumber.lt_iff hn h0).mpr hlt] at h
      cases h
    simp [JsNumber.NonNeg, JsNumber.le, h0, hn, not_lt.mp this]

/-- An increment that returns never decreases a count. -/
theorem increment_spec {nodeId : JsString} {amount : JsNumber} (hc : c.Counts)
    (h : c.increment nodeId amount = .ok d) : d.Counts ∧ c.count ≤ d.count := by
  unfold increment at h
  split_ifs at h with hlt
  obtain rfl := Except.ok.inj h
  have hge := le_add_of_not_lt (Bool.eq_false_iff.mpr hlt)
  refine ⟨fun k a hk => ?_, fun k => ?_⟩
  · rw [JsMap.get?_set] at hk
    split_ifs at hk with e
    · rw [← Option.some.inj hk]
      cases h0 : c.counts.get? nodeId with
      | none => exact hge 0
      | some b => exact (hc nodeId b h0).trans (hge b)
    · exact hc k a hk
  · by_cases e : k = nodeId
    · subst e
      have hset : (⟨c.counts.set k (((c.counts.get? k).getD 0).add amount)⟩ : GCounter).count k =
          (((c.counts.get? k).getD 0).add amount : JsNumber) := by
        exact count_of_get? (by simp)
      rw [hset]
      cases h0 : c.counts.get? k with
      | none =>
          rw [count_of_get?_none h0]
          exact bot_le
      | some b =>
          rw [count_of_get? h0]
          exact WithBot.coe_le_coe.mpr (hge b)
    · exact le_of_eq (JsMap.get?_set c.counts nodeId _ k |>.trans (if_neg e)).symm

theorem merge_spec (hc : c.Counts) (hd : d.Counts) :
    (c.merge d).Counts ∧ (c.merge d).count = c.count ⊔ d.count := by
  have hcount : ∀ k, (c.merge d).count k = c.count k ⊔ d.count k := by
    intro k
    have hget := JsMap.get?_mergeWith
      (fun own count => JsNumber.mathMax (own.getD 0) count) c.counts d.counts k
    cases h : d.counts.get? k with
    | none =>
        rw [h] at hget
        rw [count_of_get?_none h, sup_bot_eq]
        exact hget
    | some b =>
        rw [h] at hget
        rw [count_of_get? (c := c.merge d) hget, count_of_get? h, JsNumber.mathMax_eq_max]
        cases h0 : c.counts.get? k with
        | none => rw [count_of_get?_none h0, Option.getD_none, max_eq_right (hd k b h), bot_sup_eq]
        | some a => rw [count_of_get? h0]; rfl
  refine ⟨fun k a hk => ?_, funext hcount⟩
  have h := hcount k
  rw [show (c.merge d).count k = some a from hk] at h
  have hle : ∀ {x : GCounter}, x.Counts → ∀ b, x.count k = some b → (0 : JsNumber) ≤ b :=
    fun hx b => hx k b
  rcases le_total (c.count k) (d.count k) with hcd | hcd
  · rw [sup_eq_right.mpr hcd] at h
    exact hle hd a h.symm
  · rw [sup_eq_left.mpr hcd] at h
    exact hle hc a h.symm

/-- Merging counts that are all known changes nothing, the order included. -/
theorem merge_eq_self (h : d.count ≤ c.count) : c.merge d = c := by
  have key : JsMap.mergeWith (fun own count => JsNumber.mathMax (own.getD 0) count) c.counts
      d.counts = c.counts := by
    refine JsMap.mergeWith_eq_self fun k v hv => ?_
    have hk := h k
    rw [count_of_get? hv] at hk
    cases hc : c.counts.get? k with
    | none =>
        rw [count_of_get?_none hc] at hk
        exact absurd hk (WithBot.not_coe_le_bot v)
    | some a =>
        rw [count_of_get? hc] at hk
        refine ⟨a, rfl, ?_⟩
        rw [Option.getD_some, JsNumber.mathMax_eq_max, max_eq_left (WithBot.coe_le_coe.mp hk)]
  rw [merge, key]

/-- The wire keeps every count but the one of the node `__proto__`. -/
theorem get?_reload (c : GCounter) (k : JsString) :
    (fromJSON c.toJSON).counts.get? k = if k = protoKey then none else c.counts.get? k := by
  rw [fromJSON, JsObject.get?_ofEntries_entries, toJSON,
    JsObject.get?_assignAll_empty _ c.counts.nodup]
  rfl

theorem counts_reload (hc : c.Counts) : (fromJSON c.toJSON).Counts := by
  intro k a h
  rw [get?_reload] at h
  split_ifs at h with hk
  exact hc k a h

theorem count_reload (c : GCounter) (k : JsString) :
    (fromJSON c.toJSON).count k = if k = protoKey then ⊥ else c.count k := by
  split_ifs with hk
  · exact count_of_get?_none (by rw [get?_reload, if_pos hk])
  · exact (get?_reload c k).trans (if_neg hk)

/-- The value does not depend on the insertion order when adding the counts does not round. -/
theorem value_congr (h : c.counts.Same d.counts) (hr : JsNumber.NoRounding c.counts.values) : c.value = d.value :=
  JsNumber.sum_perm hr (h.perm.map Prod.snd)

/-- Replicas of one counter that increment under their own node ids. -/
def system : System JsString GCounter JsNumber where
  init := new
  update i amount c := (c.increment i amount).toOption
  merge c d := some (c.merge d)
  silent _ _ := none

theorem lattice : system.Lattice System.AnyStep Counts count where
  init := counts_new
  update w i amount s _ hv hu := increment_spec hv (toOption_eq_some hu)
  merge s t u hs ht hu := by
    obtain rfl := Option.some.inj hu
    exact merge_spec hs ht
  silent i s u _ hu := by cases hu

end GCounter

/-! ### PNCounter -/

structure PNCounter where
  pos : GCounter
  neg : GCounter
deriving DecidableEq

namespace PNCounter

/-- `new PNCounter()`. -/
def new : PNCounter := ⟨GCounter.new, GCounter.new⟩

def value (c : PNCounter) : JsNumber := c.pos.value.sub c.neg.value

def increment (c : PNCounter) (nodeId : JsString) (amount : JsNumber) : Except String PNCounter :=
  (c.pos.increment nodeId amount).map fun pos => ⟨pos, c.neg⟩

def decrement (c : PNCounter) (nodeId : JsString) (amount : JsNumber) : Except String PNCounter :=
  (c.neg.increment nodeId amount).map fun neg => ⟨c.pos, neg⟩

def merge (c other : PNCounter) : PNCounter := ⟨c.pos.merge other.pos, c.neg.merge other.neg⟩

def toJSON (c : PNCounter) : JsObject JsNumber × JsObject JsNumber := (c.pos.toJSON, c.neg.toJSON)

def fromJSON (data : JsObject JsNumber × JsObject JsNumber) : PNCounter :=
  ⟨GCounter.fromJSON data.1, GCounter.fromJSON data.2⟩

def count (c : PNCounter) : (JsString → WithBot JsNumber) × (JsString → WithBot JsNumber) :=
  (c.pos.count, c.neg.count)

def Counts (c : PNCounter) : Prop := c.pos.Counts ∧ c.neg.Counts

/-- Two counters that look up the same counts. -/
def Same (c d : PNCounter) : Prop := c.pos.counts.Same d.pos.counts ∧ c.neg.counts.Same d.neg.counts

variable {c d : PNCounter}

theorem same_of_count (h : c.count = d.count) : c.Same d :=
  ⟨GCounter.same_of_count (congrArg Prod.fst h), GCounter.same_of_count (congrArg Prod.snd h)⟩

/-- A change of a counter: the amount and whether it counts up. -/
inductive Write where
  | increment (amount : JsNumber)
  | decrement (amount : JsNumber)
deriving DecidableEq

/-- Perform a change under the node id `i`. -/
def Write.apply (i : JsString) : Write → PNCounter → Except String PNCounter
  | .increment amount, c => c.increment i amount
  | .decrement amount, c => c.decrement i amount

theorem Write.apply_spec {i : JsString} {op : Write} (hc : c.Counts)
    (h : op.apply i c = .ok d) : d.Counts ∧ c.count ≤ d.count := by
  cases op with
  | increment amount =>
      have h : (c.pos.increment i amount).map (fun pos => (⟨pos, c.neg⟩ : PNCounter)) = .ok d := h
      cases hp : c.pos.increment i amount with
      | error e => rw [hp] at h; cases h
      | ok pos =>
          rw [hp] at h
          obtain rfl := Except.ok.inj h
          obtain ⟨hv, hle⟩ := GCounter.increment_spec hc.1 hp
          exact ⟨⟨hv, hc.2⟩, hle, le_rfl⟩
  | decrement amount =>
      have h : (c.neg.increment i amount).map (fun neg => (⟨c.pos, neg⟩ : PNCounter)) = .ok d := h
      cases hn : c.neg.increment i amount with
      | error e => rw [hn] at h; cases h
      | ok neg =>
          rw [hn] at h
          obtain rfl := Except.ok.inj h
          obtain ⟨hv, hle⟩ := GCounter.increment_spec hc.2 hn
          exact ⟨⟨hc.1, hv⟩, le_rfl, hle⟩

theorem merge_spec (hc : c.Counts) (hd : d.Counts) :
    (c.merge d).Counts ∧ (c.merge d).count = c.count ⊔ d.count := by
  obtain ⟨hp, hpc⟩ := GCounter.merge_spec hc.1 hd.1
  obtain ⟨hn, hnc⟩ := GCounter.merge_spec hc.2 hd.2
  exact ⟨⟨hp, hn⟩, Prod.ext hpc hnc⟩

theorem counts_new : new.Counts := ⟨GCounter.counts_new, GCounter.counts_new⟩

/-- The value does not depend on the insertion order when adding the counts does not round. -/
theorem value_congr (h : c.Same d)
    (hp : JsNumber.NoRounding c.pos.counts.values) (hn : JsNumber.NoRounding c.neg.counts.values) :
    c.value = d.value := by
  rw [value, value, GCounter.value_congr h.1 hp, GCounter.value_congr h.2 hn]

/-- Replicas of one counter that change it under their own node ids. -/
def system : System JsString PNCounter Write where
  init := new
  update i op c := (op.apply i c).toOption
  merge c d := some (c.merge d)
  silent _ _ := none

theorem lattice : system.Lattice System.AnyStep Counts count where
  init := counts_new
  update w i op s _ hv hu := Write.apply_spec hv (toOption_eq_some hu)
  merge s t u hs ht hu := by
    obtain rfl := Option.some.inj hu
    exact merge_spec hs ht
  silent i s u _ hu := by cases hu

end PNCounter
end BrowserMesh.Primitives
