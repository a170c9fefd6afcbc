import BrowserMesh.Primitives.RgaRuns

/-! # Editing an array

* **Lists.**  `edit` is what an update makes of the list of the visible values.  It knows neither ids nor tombstones.
* **Refinement.**  A replica that is edited shows at every step the list that `edit` makes, and throws when that does
  (`value_updates`). -/

namespace BrowserMesh.Primitives
open Js Replication

namespace RGA
variable {α : Type}

/-- The first of `n` numbers from `k` on that the index is equal to. -/
def firstIndex (index : JsNumber) : ℕ → ℕ → Option ℕ
  | _, 0 => none
  | k, n + 1 => if (JsNumber.ofNat k).eq index then some k else firstIndex index (k + 1) n

/-- An update of a list.  An insertion that finds no place appends, a deletion that finds none throws. -/
def edit : Op α → List α → Option (List α)
  | .insert index v, l =>
      let i := (firstIndex index 0 (l.length + 1)).getD l.length
      some (l.take i ++ v :: l.drop i)
  | .delete index, l => (firstIndex index 0 l.length).map l.eraseIdx

def visible (nodes : List (RgaNode α)) : List α := (nodes.filter fun n => !n.deleted).map RgaNode.value

theorem visible_append (l l' : List (RgaNode α)) : visible (l ++ l') = visible l ++ visible l' := by
  rw [visible, List.filter_append, List.map_append]
  rfl

theorem visible_of_deleted {n : RgaNode α} (h : n.deleted = true) (l : List (RgaNode α)) :
    visible (n :: l) = visible l := by
  rw [visible, List.filter_cons_of_neg (by rw [h]; decide)]
  rfl

theorem visible_of_live {n : RgaNode α} (h : n.deleted = false) (l : List (RgaNode α)) :
    visible (n :: l) = n.value :: visible l := by
  rw [visible, List.filter_cons_of_pos (by rw [h]; rfl)]
  rfl

variable (index : JsNumber)

/-- The loop finds the place behind so many visible nodes as the index says, or the index is too large. -/
theorem physicalLoop_spec (nodes : List (RgaNode α)) (i count : ℕ) :
    (∃ q, physicalLoop index nodes i count = some (i + q) ∧
      firstIndex index (count + 1) (visible nodes).length = some (count + (visible (nodes.take q)).length)) ∨
    physicalLoop index nodes i count = none ∧ firstIndex index (count + 1) (visible nodes).length = none := by
  induction nodes generalizing i count with
  | nil => exact Or.inr ⟨rfl, rfl⟩
  | cons n nodes ih =>
      rw [physicalLoop]
      cases hdeleted : n.deleted with
      | true =>
          rw [visible_of_deleted hdeleted, if_pos rfl]
          rcases ih (i + 1) count with ⟨q, hloop, hfirst⟩ | hnone
          · refine Or.inl ⟨q + 1, by rw [hloop, Nat.add_assoc, Nat.add_comm 1], ?_⟩
            rw [hfirst, List.take_succ_cons, visible_of_deleted hdeleted]
          · exact Or.inr hnone
      | false =>
          rw [visible_of_live hdeleted, List.length_cons, firstIndex, if_neg Bool.false_ne_true]
          by_cases heq : (JsNumber.ofNat (count + 1)).eq index = true
          · refine Or.inl ⟨1, if_pos heq, ?_⟩
            rw [if_pos heq, List.take_succ_cons, visible_of_live hdeleted]
            rfl
          · rw [if_neg heq, if_neg heq]
            rcases ih (i + 1) (count + 1) with ⟨q, hloop, hfirst⟩ | hnone
            · refine Or.inl ⟨q + 1, by rw [hloop, Nat.add_assoc, Nat.add_comm 1], ?_⟩
              rw [hfirst, List.take_succ_cons, visible_of_live hdeleted, List.length_cons, Nat.add_assoc,
                Nat.add_comm 1]
            · exact Or.inr hnone

theorem deleteLoop_visible (nodes : List (RgaNode α)) (count : ℕ) :
    (∃ nodes' k, deleteLoop index nodes count = some nodes' ∧
      firstIndex index count (visible nodes).length = some (count + k) ∧ visible nodes' = (visible nodes).eraseIdx k) ∨
    deleteLoop index nodes count = none ∧ firstIndex index count (visible nodes).length = none := by
  induction nodes generalizing count with
  | nil => exact Or.inr ⟨rfl, rfl⟩
  | cons n nodes ih =>
      rw [deleteLoop]
      cases hdeleted : n.deleted with
      | true =>
          rw [visible_of_deleted hdeleted, if_pos rfl]
          rcases ih count with ⟨nodes', k, hloop, hfirst, hvisible⟩ | ⟨hloop, hfirst⟩
          · exact Or.inl ⟨n :: nodes', k, by rw [hloop]; rfl, hfirst, (visible_of_deleted hdeleted _).trans hvisible⟩
          · exact Or.inr ⟨by rw [hloop]; rfl, hfirst⟩
      | false =>
          rw [visible_of_live hdeleted, List.length_cons, firstIndex, if_neg Bool.false_ne_true]
          by_cases heq : (JsNumber.ofNat count).eq index = true
          · exact Or.inl ⟨{ n with deleted := true } :: nodes, 0, if_pos heq, if_pos heq, visible_of_deleted rfl nodes⟩
          · rw [if_neg heq, if_neg heq]
            rcases ih (count + 1) with ⟨nodes', k, hloop, hfirst, hvisible⟩ | ⟨hloop, hfirst⟩
            · refine Or.inl ⟨n :: nodes', k + 1, by rw [hloop]; rfl, by rw [hfirst, Nat.add_assoc, Nat.add_comm 1], ?_⟩
              rw [visible_of_live hdeleted, hvisible, List.eraseIdx_cons_succ]
            · exact Or.inr ⟨by rw [hloop]; rfl, hfirst⟩

/-- Before the place of an insertion are so many visible nodes as `edit` takes. -/
theorem visible_take (s : RGA α) : (visible (s.nodes.take (s.visibleToPhysical index))).length =
    (firstIndex index 0 (s.value.length + 1)).getD s.value.length := by
  have hvalue : s.value = visible s.nodes := rfl
  have hcomm : (JsNumber.ofNat 0).eq index = index.eq 0 := by
    rw [show JsNumber.ofNat 0 = 0 by decide +kernel, JsNumber.eq, JsNumber.eq, decide_eq_decide]
    constructor <;> rintro ⟨h, e⟩ <;> exact ⟨e ▸ h, e.symm⟩
  rw [visibleToPhysical, firstIndex, hvalue, hcomm]
  by_cases hzero : index.eq 0 = true
  · rw [if_pos hzero, if_pos hzero]
    rfl
  · rw [if_neg hzero, if_neg hzero]
    rcases physicalLoop_spec index s.nodes 0 0 with ⟨q, hloop, hfirst⟩ | ⟨hloop, hfirst⟩
    · rw [hloop, hfirst, Option.getD_some, Option.getD_some, Nat.zero_add, Nat.zero_add]
    · rw [hloop, hfirst, Option.getD_none, Option.getD_none, List.take_length]

theorem value_apply (i : JsString) (op : Op α) (s : RGA α) : (op.apply i s).map value = edit op s.value := by
  cases op with
  | insert index v =>
      have hsplit : s.value = visible (s.nodes.take (s.visibleToPhysical index)) ++
          visible (s.nodes.drop (s.visibleToPhysical index)) := by
        rw [← visible_append, List.take_append_drop]
        rfl
      have htake := visible_take index s
      refine congrArg some ?_
      show visible (_ ++ _ :: _) = _
      rw [visible_append, visible_of_live rfl, ← htake, hsplit, List.take_left, List.drop_left]
  | delete index =>
      have hvalue : s.value = visible s.nodes := rfl
      show (s.deleteAt index).toOption.map value = _
      rw [deleteAt, edit, hvalue]
      rcases deleteLoop_visible index s.nodes 0 with ⟨nodes', k, hloop, hfirst, hvisible⟩ | ⟨hloop, hfirst⟩
      · rw [hloop, hfirst, Option.map_some, Nat.zero_add, ← hvisible]
        rfl
      · rw [hloop, hfirst]
        rfl

theorem value_updates (updates : List (JsString × Op α)) (s : RGA α) :
    (updates.foldlM (fun s e => system.update e.1 e.2 s) s).map value =
      updates.foldlM (fun l e => edit e.2 l) s.value := by
  induction updates generalizing s with
  | nil => rfl
  | cons e updates ih =>
      have hstep := value_apply e.1 e.2 s
      rw [List.foldlM_cons, List.foldlM_cons, ← hstep]
      cases happly : e.2.apply e.1 s with
      | none =>
          show ((e.2.apply e.1 s).bind _).map value = _
          rw [happly]
          rfl
      | some t =>
          show ((e.2.apply e.1 s).bind _).map value = _
          rw [happly]
          exact ih t

end RGA
end BrowserMesh.Primitives
