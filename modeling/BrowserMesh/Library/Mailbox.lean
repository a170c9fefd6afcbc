import Mathlib

/-! # Mailboxes

A mailbox hands the chunks given to it to those who ask, in order: a chunk goes to the first who waits, or is queued, and
who asks gets the first chunk that is queued, or waits.

* **Answers.**  `answered` records who was answered with what, `none` for the end.
* **Order.**  `Fifo`: what was received and what is queued is what was given, nobody waits while something is queued, and
  all who asked were answered in turn or still wait. -/

namespace BrowserMesh

structure Mailbox (α : Type) where
  queue : List α
  waiters : List ℕ
  asked : ℕ
  answered : List (ℕ × Option α)

namespace Mailbox
variable {α : Type}

def empty : Mailbox α := ⟨[], [], 0, []⟩

/-- A chunk for the first who waits, or for the queue. -/
def give (m : Mailbox α) (a : α) : Mailbox α :=
  match m.waiters with
  | i :: rest => { m with waiters := rest, answered := m.answered ++ [(i, some a)] }
  | [] => { m with queue := m.queue ++ [a] }

/-- The next who asks is answered at once. -/
def answer (m : Mailbox α) (chunk : Option α) : Mailbox α :=
  { m with asked := m.asked + 1, answered := m.answered ++ [(m.asked, chunk)] }

/-- Somebody asks: for the first chunk of the queue, for the end if there is one, or to wait. -/
def take (m : Mailbox α) (ended : Bool) : Mailbox α :=
  match m.queue with
  | a :: rest => { m with queue := rest }.answer (some a)
  | [] => if ended then m.answer none else { m with asked := m.asked + 1, waiters := m.waiters ++ [m.asked] }

/-- All who wait are answered that there is no more. -/
def release (m : Mailbox α) : Mailbox α :=
  { m with waiters := [], answered := m.answered ++ m.waiters.map fun i => (i, none) }

def drop (m : Mailbox α) : Mailbox α := { m with queue := [] }

/-- The chunks that were received, in order. -/
def received (m : Mailbox α) : List α := m.answered.filterMap Prod.snd

/-- Who asked was answered in turn, or waits in turn. -/
def InTurn (m : Mailbox α) : Prop := m.answered.map Prod.fst ++ m.waiters = List.range m.asked

structure Fifo (m : Mailbox α) (given : List α) : Prop where
  conserved : m.received ++ m.queue = given
  idle : m.queue = [] ∨ m.waiters = []
  inTurn : m.InTurn

theorem give_of_none {m : Mailbox α} (hw : m.waiters = []) (a : α) :
    m.give a = ⟨m.queue ++ [a], m.waiters, m.asked, m.answered⟩ := by
  obtain ⟨queue, waiters, asked, answered⟩ := m
  cases hw
  rfl

theorem fifo_empty : (empty : Mailbox α).Fifo [] := ⟨rfl, Or.inl rfl, rfl⟩

theorem received_answer (m : Mailbox α) (chunk : Option α) : (m.answer chunk).received = m.received ++ chunk.toList := by
  rw [received, answer, List.filterMap_append]
  cases chunk <;> rfl

theorem InTurn.answer {m : Mailbox α} (h : m.InTurn) (hw : m.waiters = []) (chunk : Option α) : (m.answer chunk).InTurn := by
  rw [InTurn, hw, List.append_nil] at h
  rw [InTurn, Mailbox.answer, List.map_append, h, hw, List.range_succ, List.append_nil]
  rfl

theorem received_release (m : Mailbox α) : m.release.received = m.received := by
  have hnone : (m.waiters.map fun i => (i, (none : Option α))).filterMap Prod.snd = [] := by
    rw [List.filterMap_map]
    exact List.filterMap_eq_nil_iff.mpr fun _ _ => rfl
  rw [received, release, List.filterMap_append, hnone, List.append_nil, received]

theorem InTurn.release {m : Mailbox α} (h : m.InTurn) : m.release.InTurn := by
  rw [InTurn] at h
  rw [InTurn, Mailbox.release, List.map_append, List.map_map, List.append_nil, ← h]
  exact congrArg _ (List.map_id' m.waiters)

namespace Fifo
variable {m : Mailbox α} {given : List α}

theorem give (h : m.Fifo given) (a : α) : (m.give a).Fifo (given ++ [a]) := by
  obtain ⟨hconserved, hidle, hturn⟩ := h
  rw [Mailbox.give]
  cases hw : m.waiters with
  | nil =>
      refine ⟨?_, Or.inr rfl, ?_⟩
      · rw [← hconserved, List.append_assoc]
        rfl
      · rw [InTurn, hw] at hturn
        exact hturn
  | cons i rest =>
      have hqueue : m.queue = [] := hidle.resolve_right (by rw [hw]; exact List.cons_ne_nil i rest)
      rw [hqueue, List.append_nil] at hconserved
      refine ⟨?_, Or.inl hqueue, ?_⟩
      · rw [← hconserved, received, List.filterMap_append, hqueue, List.append_nil]
        rfl
      · rw [InTurn, hw] at hturn
        rw [InTurn, List.map_append, List.append_assoc]
        exact hturn

theorem take (h : m.Fifo given) {ended : Bool} (hend : ended = true → m.waiters = []) : (m.take ended).Fifo given := by
  obtain ⟨hconserved, hidle, hturn⟩ := h
  rw [Mailbox.take]
  cases hq : m.queue with
  | cons a rest =>
      have hw : m.waiters = [] := hidle.resolve_left (by rw [hq]; exact List.cons_ne_nil a rest)
      refine ⟨?_, Or.inr hw, hturn.answer hw (some a)⟩
      rw [received_answer, ← hconserved, hq]
      exact List.append_assoc _ _ _
  | nil =>
      dsimp only
      split_ifs with hended
      · refine ⟨?_, Or.inl hq, hturn.answer (hend hended) none⟩
        rw [received_answer, ← hconserved]
        exact List.append_nil _ ▸ rfl
      · refine ⟨hq ▸ hconserved, Or.inl rfl, ?_⟩
        rw [InTurn] at hturn
        rw [InTurn, ← List.append_assoc, hturn, List.range_succ]

theorem release (h : m.Fifo given) : m.release.Fifo given :=
  ⟨by rw [received_release]; exact h.conserved, Or.inr rfl, h.inTurn.release⟩

theorem received_of_waiting (h : m.Fifo given) (hw : m.waiters ≠ []) : m.received = given := by
  rw [← h.conserved, h.idle.resolve_right hw, List.append_nil]

end Fifo

/-- Everything that is queued is received by so many who ask. -/
theorem received_iterate_take (m : Mailbox α) (ended : Bool) :
    ((fun m : Mailbox α => m.take ended)^[m.queue.length] m).received = m.received ++ m.queue := by
  induction hq : m.queue generalizing m with
  | nil => rw [List.length_nil, Function.iterate_zero, id, List.append_nil]
  | cons a rest ih =>
      have htake : m.take ended = { m with queue := rest }.answer (some a) := by rw [Mailbox.take, hq]
      rw [List.length_cons, Function.iterate_succ_apply, htake, ih _ rfl, received_answer]
      exact List.append_assoc _ _ _

end Mailbox
end BrowserMesh
