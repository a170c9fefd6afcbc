import BrowserMesh.Mux.PriorityMux

/-! # The starvation guard

A scheduler under any calls of `enqueue` and `dequeue`.  Every tier is first in, first out: what was queued and what is
added is what is returned and what stays (`queues_run`).  A guard slot takes the first item of the lowest tier, if it
has one, so `g` guard slots take `g` items of it or all it had (`guardSlots_le_returned`); `(k + 1) * N` calls of
`dequeue` pass at least `k + 1` guard slots, whatever the slot they start at. -/

namespace BrowserMesh.Mux

open Js

namespace Scheduler
variable {α : Type}

inductive Call (α : Type) where
  | enqueue (tier : JsString) (item : α)
  | dequeue

/-- One call.  An `enqueue` that throws changes nothing. -/
def call (s : Scheduler α) : Call α → Scheduler α
  | .enqueue tier item => (s.enqueue tier item).getD s
  | .dequeue => s.dequeue.1

def run (s : Scheduler α) (calls : List (Call α)) : Scheduler α := calls.foldl call s

/-- What a call returns; an `enqueue` returns nothing. -/
def answer (s : Scheduler α) : Call α → Option α
  | .enqueue _ _ => none
  | .dequeue => s.dequeue.2

def answers (s : Scheduler α) : List (Call α) → List α
  | [] => []
  | c :: calls => (s.answer c).toList ++ (s.call c).answers calls

/-- The tiers in the order in which the next `dequeue` looks for an item. -/
def order (s : Scheduler α) : List JsString :=
  if isGuardSlot s.starvationGuardInterval (s.slotCounter + 1) then s.tiers.reverse else s.tiers

def serves (s : Scheduler α) : Call α → Option (JsString × α)
  | .enqueue _ _ => none
  | .dequeue => s.order.findSome? fun tier => (s.queues tier).head?.map (tier, ·)

/-- What the calls return, with the tiers it comes from. -/
def log (s : Scheduler α) : List (Call α) → List (JsString × α)
  | [] => []
  | c :: calls => (s.serves c).toList ++ (s.call c).log calls

def ofTier (tier : JsString) (l : List (JsString × α)) : List α :=
  l.filterMap fun e => if e.1 = tier then some e.2 else none

def added (calls : List (Call α)) : List (JsString × α) := calls.filterMap fun
  | .enqueue tier item => some (tier, item)
  | .dequeue => none

/-- The number of calls of `dequeue`. -/
def dequeues (calls : List (Call α)) : ℕ := calls.countP fun
  | .enqueue _ _ => false
  | .dequeue => true

/-! ### One call -/

variable {s : Scheduler α} {tier : JsString}

theorem ofTier_append (tier : JsString) (l l' : List (JsString × α)) :
    ofTier tier (l ++ l') = ofTier tier l ++ ofTier tier l' := List.filterMap_append

@[simp] theorem ofTier_self (tier : JsString) (item : α) : ofTier tier [(tier, item)] = [item] := by simp [ofTier]

theorem ofTier_of_ne {t : JsString} (h : t ≠ tier) (item : α) : ofTier tier [(t, item)] = [] := by simp [ofTier, h]

theorem shiftFirst_eq (queues : JsString → List α) (order : List JsString) :
    (shiftFirst queues order = (queues, none) ∧
        order.findSome? (fun tier => (queues tier).head?.map (tier, ·)) = none) ∨
      ∃ tier ∈ order, ∃ item rest, queues tier = item :: rest ∧
        shiftFirst queues order = (Function.update queues tier rest, some item) ∧
        order.findSome? (fun tier => (queues tier).head?.map (tier, ·)) = some (tier, item) := by
  induction order with
  | nil => exact Or.inl ⟨rfl, rfl⟩
  | cons tier order ih =>
      cases hq : queues tier with
      | nil =>
          simp only [shiftFirst, hq, List.findSome?_cons, List.head?_nil, Option.map_none]
          rcases ih with hnone | ⟨t, ht, hsome⟩
          · exact Or.inl hnone
          · exact Or.inr ⟨t, List.mem_cons_of_mem tier ht, hsome⟩
      | cons item rest =>
          refine Or.inr ⟨tier, List.mem_cons_self, item, rest, hq, ?_, ?_⟩
          · rw [shiftFirst, hq]
          · rw [List.findSome?_cons, hq, List.head?_cons, Option.map_some]

/-- `dequeue` finds every queue empty, or it takes the first item of the tier it serves. -/
theorem dequeue_serves (s : Scheduler α) :
    (s.dequeue = ({ s with slotCounter := s.slotCounter + 1 }, none) ∧ s.serves .dequeue = none) ∨
      ∃ tier ∈ s.tiers, ∃ item rest, s.queues tier = item :: rest ∧
        s.dequeue = ({ s with queues := Function.update s.queues tier rest, slotCounter := s.slotCounter + 1 },
          some item) ∧ s.serves .dequeue = some (tier, item) := by
  have hmem : ∀ tier, tier ∈ s.order ↔ tier ∈ s.tiers := by
    intro tier
    unfold order
    split_ifs
    · exact List.mem_reverse
    · exact Iff.rfl
  have hdequeue : s.dequeue = ({ s with
      queues := (shiftFirst s.queues s.order).1, slotCounter := s.slotCounter + 1 },
      (shiftFirst s.queues s.order).2) := rfl
  rcases shiftFirst_eq s.queues s.order with ⟨hshift, hnone⟩ | ⟨tier, ht, item, rest, hq, hshift, hsome⟩
  · exact Or.inl ⟨by rw [hdequeue, hshift], hnone⟩
  · exact Or.inr ⟨tier, (hmem tier).mp ht, item, rest, hq, by rw [hdequeue, hshift], hsome⟩

theorem enqueue_of_mem (h : tier ∈ s.tiers) (item : α) : s.call (.enqueue tier item) =
    { s with queues := Function.update s.queues tier (s.queues tier ++ [item]) } := by
  rw [call, enqueue, if_pos h, Option.getD_some]

theorem enqueue_of_not_mem (h : tier ∉ s.tiers) (item : α) : s.call (.enqueue tier item) = s := by
  rw [call, enqueue, if_neg h, Option.getD_none]

theorem call_tiers (s : Scheduler α) (c : Call α) : (s.call c).tiers = s.tiers := by
  cases c with
  | enqueue t item =>
      by_cases h : t ∈ s.tiers
      · rw [enqueue_of_mem h]
      · rw [enqueue_of_not_mem h]
  | dequeue => rfl

theorem call_interval (s : Scheduler α) (c : Call α) :
    (s.call c).starvationGuardInterval = s.starvationGuardInterval := by
  cases c with
  | enqueue t item =>
      by_cases h : t ∈ s.tiers
      · rw [enqueue_of_mem h]
      · rw [enqueue_of_not_mem h]
  | dequeue => rfl

theorem answer_eq (s : Scheduler α) (c : Call α) : s.answer c = (s.serves c).map Prod.snd := by
  cases c with
  | enqueue t item => rfl
  | dequeue =>
      rcases s.dequeue_serves with ⟨hdequeue, hserves⟩ | ⟨tier, _, item, rest, _, hdequeue, hserves⟩
      · rw [answer, hdequeue, hserves, Option.map_none]
      · rw [answer, hdequeue, hserves, Option.map_some]

theorem mem_tiers_of_serves {c : Call α} {e : JsString × α} (h : s.serves c = some e) : e.1 ∈ s.tiers := by
  cases c with
  | enqueue t item => cases h
  | dequeue =>
      rcases s.dequeue_serves with ⟨_, hserves⟩ | ⟨tier, ht, item, rest, _, _, hserves⟩
      · rw [hserves] at h
        cases h
      · rw [hserves] at h
        cases h
        exact ht

theorem queues_call (h : tier ∈ s.tiers) (c : Call α) :
    s.queues tier ++ ofTier tier (added [c]) = ofTier tier (s.serves c).toList ++ (s.call c).queues tier := by
  cases c with
  | enqueue t item =>
      rw [show s.serves (.enqueue t item) = none from rfl, Option.toList_none]
      show s.queues tier ++ ofTier tier [(t, item)] = _
      by_cases ht : t = tier
      · subst ht
        rw [enqueue_of_mem h, ofTier_self]
        exact (Function.update_self t _ s.queues).symm
      · rw [ofTier_of_ne ht, List.append_nil]
        by_cases hmem : t ∈ s.tiers
        · rw [enqueue_of_mem hmem]
          exact (Function.update_of_ne (Ne.symm ht) _ s.queues).symm
        · rw [enqueue_of_not_mem hmem]
          rfl
  | dequeue =>
      rw [show added [Call.dequeue (α := α)] = [] from rfl]
      show s.queues tier ++ [] = _ ++ s.dequeue.1.queues tier
      rw [List.append_nil]
      rcases s.dequeue_serves with ⟨hdequeue, hserves⟩ | ⟨t, _, item, rest, hq, hdequeue, hserves⟩
      · rw [hdequeue, hserves]
        rfl
      · rw [hdequeue, hserves, Option.toList_some]
        by_cases ht : t = tier
        · subst ht
          rw [ofTier_self, hq]
          exact congrArg (item :: ·) (Function.update_self t rest s.queues).symm
        · rw [ofTier_of_ne ht]
          exact (Function.update_of_ne (Ne.symm ht) rest s.queues).symm

/-! ### Any calls -/

theorem run_cons (s : Scheduler α) (c : Call α) (calls : List (Call α)) : s.run (c :: calls) = (s.call c).run calls :=
  rfl

theorem added_cons (c : Call α) (calls : List (Call α)) : added (c :: calls) = added [c] ++ added calls := by
  rw [added, ← List.singleton_append, List.filterMap_append]
  rfl

theorem run_tiers (s : Scheduler α) (calls : List (Call α)) : (s.run calls).tiers = s.tiers := by
  induction calls generalizing s with
  | nil => rfl
  | cons c calls ih => rw [run_cons, ih, call_tiers]

theorem run_interval (s : Scheduler α) (calls : List (Call α)) :
    (s.run calls).starvationGuardInterval = s.starvationGuardInterval := by
  induction calls generalizing s with
  | nil => rfl
  | cons c calls ih => rw [run_cons, ih, call_interval]

theorem answers_eq (s : Scheduler α) (calls : List (Call α)) : s.answers calls = (s.log calls).map Prod.snd := by
  induction calls generalizing s with
  | nil => rfl
  | cons c calls ih =>
      rw [answers, log, ih, answer_eq, List.map_append]
      cases s.serves c with
      | none => rfl
      | some e => rfl

theorem log_tiers {calls : List (Call α)} {e : JsString × α} (h : e ∈ s.log calls) : e.1 ∈ s.tiers := by
  induction calls generalizing s with
  | nil => cases h
  | cons c calls ih =>
      rcases List.mem_append.mp h with hserves | hlater
      · exact mem_tiers_of_serves (Option.mem_toList.mp hserves)
      · exact call_tiers s c ▸ ih hlater

/-- A tier is first in, first out: what was queued and what is added is what is returned and what stays. -/
theorem queues_run (h : tier ∈ s.tiers) (calls : List (Call α)) :
    s.queues tier ++ ofTier tier (added calls) = ofTier tier (s.log calls) ++ (s.run calls).queues tier := by
  induction calls generalizing s with
  | nil => exact List.append_nil _
  | cons c calls ih =>
      rw [added_cons, ofTier_append, ← List.append_assoc, queues_call h, List.append_assoc,
        ih (call_tiers s c ▸ h), log, ofTier_append, List.append_assoc]
      rfl

/-! ### The guard slots -/

/-- Every `N`th slot is a guard slot. -/
def guardEvery (N : ℕ+) : GuardInterval := some ⟨(N : ℕ), by exact_mod_cast N.pos⟩

theorem isGuardSlot_iff (N : ℕ+) (slot : ℕ) : isGuardSlot (guardEvery N) slot = true ↔ (N : ℕ) ∣ slot := by
  show ((slot : ℚ) / ((N : ℕ) : ℚ)).isInt = true ↔ _
  rw [Rat.isInt, beq_iff_eq, Rat.den_div_natCast_eq_one_iff]
  exact N.ne_zero

theorem serves_last {N : ℕ+} (hne : s.tiers ≠ []) (hN : s.starvationGuardInterval = guardEvery N)
    (hslot : (N : ℕ) ∣ s.slotCounter + 1) {item : α} {rest : List α}
    (hq : s.queues (s.tiers.getLast hne) = item :: rest) :
    s.serves .dequeue = some (s.tiers.getLast hne, item) := by
  have hguard : isGuardSlot s.starvationGuardInterval (s.slotCounter + 1) = true := hN ▸ (isGuardSlot_iff N _).mpr hslot
  rw [serves, order, if_pos hguard]
  obtain ⟨higher, hsplit⟩ : ∃ higher, s.tiers.reverse = s.tiers.getLast hne :: higher := by
    refine ⟨s.tiers.dropLast.reverse, ?_⟩
    conv_lhs => rw [← List.dropLast_append_getLast hne]
    rw [List.reverse_append]
    rfl
  rw [hsplit, List.findSome?_cons, hq, List.head?_cons, Option.map_some]

theorem guardSlots_le_returned {N : ℕ+} (hne : s.tiers ≠ []) (hN : s.starvationGuardInterval = guardEvery N)
    (calls : List (Call α)) :
    min ((s.slotCounter + dequeues calls) / N - s.slotCounter / N) (s.queues (s.tiers.getLast hne)).length ≤
      (ofTier (s.tiers.getLast hne) (s.log calls)).length := by
  induction calls generalizing s with
  | nil => simp [dequeues]
  | cons c calls ih =>
      have hne' : (s.call c).tiers ≠ [] := call_tiers s c ▸ hne
      have hlast : (s.call c).tiers.getLast hne' = s.tiers.getLast hne := by simp only [call_tiers]
      have hrest := ih hne' ((call_interval s c).trans hN)
      rw [hlast] at hrest
      have hlength := congrArg List.length (queues_call (List.getLast_mem hne) c)
      rw [List.length_append, List.length_append] at hlength
      rw [log, ofTier_append, List.length_append]
      cases c with
      | enqueue t item =>
          have hslot : (s.call (.enqueue t item)).slotCounter = s.slotCounter := by
            by_cases ht : t ∈ s.tiers
            · rw [enqueue_of_mem ht]
            · rw [enqueue_of_not_mem ht]
          have hcount : dequeues (.enqueue t item :: calls) = dequeues calls := by simp [dequeues]
          have hnone : ofTier (s.tiers.getLast hne) (s.serves (.enqueue t item)).toList = [] := rfl
          rw [hslot] at hrest
          rw [hcount, hnone]
          rw [hnone] at hlength
          simp only [List.length_nil, zero_add] at hlength ⊢
          omega
      | dequeue =>
          have hslot : (s.call .dequeue).slotCounter = s.slotCounter + 1 := rfl
          have hcount : dequeues (.dequeue :: calls) = dequeues calls + 1 := by simp [dequeues]
          have hnone : ofTier (s.tiers.getLast hne) (added [Call.dequeue (α := α)]) = [] := rfl
          rw [hslot, Nat.add_assoc, Nat.add_comm 1, ← hcount, Nat.succ_div] at hrest
          rw [hnone, List.length_nil] at hlength
          by_cases hdvd : (N : ℕ) ∣ s.slotCounter + 1
          · -- the guard slot takes an item, if there is one
            rw [if_pos hdvd] at hrest
            cases hq : s.queues (s.tiers.getLast hne) with
            | nil => simp
            | cons item rest =>
                have hone : ofTier (s.tiers.getLast hne) (s.serves .dequeue).toList = [item] := by
                  rw [serves_last hne hN hdvd hq, Option.toList_some, ofTier_self]
                rw [hone, List.length_singleton] at hlength ⊢
                rw [hq] at hlength
                omega
          · rw [if_neg hdvd] at hrest
            omega

/-- A scheduler whose every `N`th slot is a guard slot is fair to the last tier: no item is lost or returned twice, the
items of one tier are returned in their order, and an item of the last tier with `k` items ahead of it is returned by
the next `(k + 1) * N` calls of `dequeue`, whatever is added meanwhile. -/
theorem starvation_free (tiers : List JsString) (hne : tiers ≠ []) (N : ℕ+) (calls : List (Call α)) :
    let s : Scheduler α := new tiers (guardEvery N)
    s.answers calls = (s.log calls).map Prod.snd ∧ (∀ e ∈ s.log calls, e.1 ∈ tiers) ∧
      (∀ tier ∈ tiers, ofTier tier (added calls) = ofTier tier (s.log calls) ++ (s.run calls).queues tier) ∧
      ∀ ahead item behind, (s.run calls).queues (tiers.getLast hne) = ahead ++ item :: behind →
        ∀ later, (ahead.length + 1) * N ≤ dequeues later →
          ahead ++ [item] <+: ofTier (tiers.getLast hne) ((s.run calls).log later) := by
  intro s
  refine ⟨answers_eq s calls, fun e he => log_tiers he, fun tier ht => queues_run (s := s) ht calls, ?_⟩
  intro ahead item behind hq later hcount
  have htiers : (s.run calls).tiers = tiers := run_tiers s calls
  have hne' : (s.run calls).tiers ≠ [] := htiers ▸ hne
  have hlast : (s.run calls).tiers.getLast hne' = tiers.getLast hne := by simp only [htiers]
  have hpassed := guardSlots_le_returned hne' (run_interval s calls) later
  have hkept := queues_run (List.getLast_mem hne') later
  rw [hlast, hq] at hpassed hkept
  have hslots : (s.run calls).slotCounter / N + (ahead.length + 1) ≤
      ((s.run calls).slotCounter + dequeues later) / N := by
    rw [← Nat.add_mul_div_right _ _ N.pos]
    exact Nat.div_le_div_right (by omega)
  have hlength : (ahead ++ [item]).length ≤ (ofTier (tiers.getLast hne) ((s.run calls).log later)).length := by
    rw [List.length_append, List.length_singleton]
    rw [List.length_append, List.length_cons] at hpassed
    omega
  refine List.prefix_of_prefix_length_le ⟨behind ++ ofTier (tiers.getLast hne) (added later), ?_⟩
    ⟨_, hkept.symm⟩ hlength
  simp

theorem starvation_free_two_tiers :
    [7] <+: ofTier (js "low") (((new [js "high", js "low"] (guardEvery 2)).run
      [.enqueue (js "low") 7, .enqueue (js "high") 8, .enqueue (js "high") 9]).log [.dequeue, .dequeue]) := by
  obtain ⟨_, _, _, hbound⟩ := starvation_free [js "high", js "low"] (by decide) 2
    [.enqueue (js "low") 7, .enqueue (js "high") 8, .enqueue (js "high") 9]
  exact hbound [] 7 [] (by decide) [.dequeue, .dequeue] (by decide)

end Scheduler
end BrowserMesh.Mux
