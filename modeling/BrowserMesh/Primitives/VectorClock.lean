import BrowserMesh.Js.Dict

/-! # Vector clocks

A counter for every node, missing ones counting `0`.  Counters only grow by one or to the maximum of
two, and are kept as natural numbers. -/

namespace BrowserMesh.Primitives

open Js

structure VectorClock where
  entries : JsMap JsString ℕ
deriving DecidableEq

/-- The results of `compare`. -/
inductive ClockOrder where
  | before
  | after
  | concurrent
  | equal
deriving DecidableEq

namespace VectorClock

/-- `new VectorClock()`. -/
def new : VectorClock := ⟨JsMap.empty⟩

def get (c : VectorClock) (nodeId : JsString) : ℕ := (c.entries.get? nodeId).getD 0

def increment (c : VectorClock) (nodeId : JsString) : VectorClock :=
  ⟨c.entries.set nodeId (c.get nodeId + 1)⟩

def merge (c other : VectorClock) : VectorClock :=
  ⟨JsMap.mergeWith (fun own count => max (own.getD 0) count) c.entries other.entries⟩

/-- The loop of `compare` over the remaining keys. -/
def compareLoop (c other : VectorClock) : List JsString → Bool → Bool → ClockOrder
  | [], hasLess, hasGreater =>
      if !hasLess && !hasGreater then .equal else if hasLess then .before else .after
  | key :: keys, hasLess, hasGreater =>
      let less := hasLess || decide (c.get key < other.get key)
      let greater := hasGreater || decide (other.get key < c.get key)
      if less && greater then .concurrent else compareLoop c other keys less greater

def compare (c other : VectorClock) : ClockOrder :=
  compareLoop c other (JsSet.ofList (c.entries.keys ++ other.entries.keys)).elems false false

def toJSON (c : VectorClock) : JsObject ℕ := JsObject.empty.assignAll c.entries.entries

def fromJSON (data : JsObject ℕ) : VectorClock := ⟨JsMap.ofEntries data.entries⟩

@[simp] theorem get_new (k : JsString) : new.get k = 0 := rfl

@[simp] theorem get_increment (c : VectorClock) (n k : JsString) :
    (c.increment n).get k = if k = n then c.get n + 1 else c.get k := by
  simp only [get, increment, JsMap.get?_set]
  split_ifs <;> rfl

@[simp] theorem get_merge (c other : VectorClock) (k : JsString) :
    (c.merge other).get k = max (c.get k) (other.get k) := by
  simp only [get, merge, JsMap.get?_mergeWith]
  cases other.entries.get? k <;> simp

/-- A clock loses the counter of `__proto__` on the wire. -/
theorem get_reload (c : VectorClock) (k : JsString) :
    (fromJSON c.toJSON).get k = if k = protoKey then 0 else c.get k := by
  simp only [get, fromJSON, toJSON, JsObject.get?_ofEntries_entries,
    JsObject.get?_assignAll_empty _ c.entries.nodup]
  split_ifs <;> rfl

theorem compareLoop_spec (c other : VectorClock) (l : List JsString) (less greater : Bool) :
    (compareLoop c other l less greater = .equal →
      less = false ∧ greater = false ∧ ∀ k ∈ l, other.get k = c.get k) ∧
    (compareLoop c other l less greater = .after →
      less = false ∧ ∀ k ∈ l, other.get k ≤ c.get k) := by
  induction l generalizing less greater with
  | nil => cases less <;> cases greater <;> simp [compareLoop]
  | cons key l ih =>
      simp only [compareLoop]
      split_ifs with h
      · simp
      · obtain ⟨heq, hafter⟩ := ih (less || decide (c.get key < other.get key))
          (greater || decide (other.get key < c.get key))
        refine ⟨fun e => ?_, fun e => ?_⟩
        · obtain ⟨h1, h2, h3⟩ := heq e
          simp only [Bool.or_eq_false_iff, decide_eq_false_iff_not, not_lt] at h1 h2
          refine ⟨h1.1, h2.1, fun k hk => ?_⟩
          rcases List.mem_cons.mp hk with rfl | hk
          · exact le_antisymm h1.2 h2.2
          · exact h3 k hk
        · obtain ⟨h1, h3⟩ := hafter e
          simp only [Bool.or_eq_false_iff, decide_eq_false_iff_not, not_lt] at h1
          refine ⟨h1.1, fun k hk => ?_⟩
          rcases List.mem_cons.mp hk with rfl | hk
          · exact h1.2
          · exact h3 k hk

/-- A clock that is not behind another one dominates it. -/
theorem le_of_compare {c other : VectorClock}
    (h : c.compare other = .equal ∨ c.compare other = .after) (k : JsString) :
    other.get k ≤ c.get k := by
  by_cases hk : k ∈ (JsSet.ofList (c.entries.keys ++ other.entries.keys)).elems
  · rcases h with h | h
    · exact le_of_eq (((compareLoop_spec c other _ false false).1 h).2.2 k hk)
    · exact ((compareLoop_spec c other _ false false).2 h).2 k hk
  · have hnone : other.entries.get? k = none := by
      rw [JsMap.get?_eq_none_iff]
      exact fun h' => hk (by simp [h'])
    simp [get, hnone]

end VectorClock
end BrowserMesh.Primitives
