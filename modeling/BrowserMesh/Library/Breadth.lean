import Mathlib

/-! # Breadth-first search

A queue of nodes; every round takes the first one and appends its successors that were not seen before.  The rounds are
bounded by fuel.  Where the successors lie in a finite set, one round more than it has elements is enough, and the search
finds what is reached from the start, the start excepted (`search_spec`). -/

namespace BrowserMesh.Breadth

open Relation

variable {α : Type} [DecidableEq α]

/-- What was seen, what was found, and the queue. -/
abbrev State (α : Type) := List α × List α × List α

def enqueue (s : State α) (b : α) : State α := if b ∈ s.1 then s else (b :: s.1, s.2.1 ++ [b], s.2.2 ++ [b])

/-- The search, for a number of rounds. -/
def loop (succ : α → List α) : ℕ → State α → List α
  | 0, (_, found, _) => found
  | _ + 1, (_, found, []) => found
  | n + 1, (seen, found, cur :: queue) => loop succ n ((succ cur).foldl enqueue (seen, found, queue))

def search (succ : α → List α) (rounds : ℕ) (a : α) : List α := loop succ rounds ([a], [], [a])

/-- From `s` to `t` the nodes `bs` were offered to the queue. -/
structure Offered (s : State α) (bs : List α) (t : State α) : Prop where
  seen : ∀ b, b ∈ t.1 ↔ b ∈ s.1 ∨ b ∈ bs
  found : ∀ b, b ∈ t.2.1 ↔ b ∈ s.2.1 ∨ b ∈ bs ∧ b ∉ s.1
  queue : ∀ b, b ∈ t.2.2 ↔ b ∈ s.2.2 ∨ b ∈ bs ∧ b ∉ s.1
  nodup : s.1.Nodup → t.1.Nodup
  length : t.1.length + s.2.2.length = s.1.length + t.2.2.length

theorem offered_foldl (s : State α) (bs : List α) : Offered s bs (bs.foldl enqueue s) := by
  induction bs generalizing s with
  | nil => exact ⟨by simp, by simp, by simp, id, rfl⟩
  | cons b bs ih =>
      have h := ih (enqueue s b)
      rw [List.foldl_cons]
      by_cases hb : b ∈ s.1
      · rw [enqueue, if_pos hb] at h ⊢
        refine ⟨fun x => ?_, fun x => ?_, fun x => ?_, h.nodup, h.length⟩
        · rw [h.seen, List.mem_cons]
          constructor
          · exact Or.imp_right Or.inr
          · rintro (hx | rfl | hx)
            · exact Or.inl hx
            · exact Or.inl hb
            · exact Or.inr hx
        · rw [h.found, List.mem_cons]
          refine or_congr_right (and_congr_left fun hx => (or_iff_right ?_).symm)
          rintro rfl
          exact hx hb
        · rw [h.queue, List.mem_cons]
          refine or_congr_right (and_congr_left fun hx => (or_iff_right ?_).symm)
          rintro rfl
          exact hx hb
      · rw [enqueue, if_neg hb] at h ⊢
        have hnew : ∀ (l : List α) (x : α), (x ∈ l ++ [b] ∨ x ∈ bs ∧ x ∉ b :: s.1) ↔ x ∈ l ∨ x ∈ b :: bs ∧ x ∉ s.1 := by
          intro l x
          by_cases hxb : x = b
          · subst hxb
            simp [hb]
          · simp [hxb]
        refine ⟨fun x => ?_, fun x => ?_, fun x => ?_, fun hn => h.nodup (hn.cons hb), ?_⟩
        · rw [h.seen, List.mem_cons, List.mem_cons]
          tauto
        · rw [h.found]
          exact hnew _ x
        · rw [h.queue]
          exact hnew _ x
        · have hlength := h.length
          simp only [List.length_cons, List.length_append, List.length_nil] at hlength
          omega

section search
variable (succ : α → List α) (U : Finset α) (a : α)

/-- What was seen is the start and what was found, and is reached; a node that left the queue has its successors seen. -/
structure Sound (s : State α) : Prop where
  nodup : s.1.Nodup
  bounded : ∀ b ∈ s.1, b = a ∨ b ∈ U
  start : a ∈ s.1
  found : ∀ b, b ∈ s.2.1 ↔ b ∈ s.1 ∧ b ≠ a
  reached : ∀ b ∈ s.1, ReflTransGen (fun x y => y ∈ succ x) a b
  queued : ∀ b ∈ s.2.2, b ∈ s.1
  closed : ∀ b ∈ s.1, b ∉ s.2.2 → ∀ c ∈ succ b, c ∈ s.1

variable {succ U a}

omit [DecidableEq α] in
theorem sound_start : Sound succ U a ([a], [], [a]) where
  nodup := List.nodup_singleton a
  bounded := fun b hb => Or.inl (List.mem_singleton.mp hb)
  start := List.mem_singleton_self a
  found := by simp
  reached := fun b hb => List.mem_singleton.mp hb ▸ .refl
  queued := fun _ hb => hb
  closed := fun _ hb hn => absurd hb hn

theorem Sound.round (hU : ∀ x, ∀ b ∈ succ x, b ∈ U) {seen found queue : List α} {cur : α}
    (h : Sound succ U a (seen, found, cur :: queue)) :
    Sound succ U a ((succ cur).foldl enqueue (seen, found, queue)) := by
  have ho := offered_foldl (seen, found, queue) (succ cur)
  have hcur : cur ∈ seen := h.queued cur List.mem_cons_self
  constructor
  case nodup => exact ho.nodup h.nodup
  case bounded =>
    intro b hb
    rcases (ho.seen b).mp hb with hb | hb
    · exact h.bounded b hb
    · exact Or.inr (hU cur b hb)
  case start => exact (ho.seen a).mpr (Or.inl h.start)
  case found =>
    intro b
    rw [ho.found, ho.seen, h.found]
    constructor
    · rintro (⟨hb, hne⟩ | ⟨hb, hnew⟩)
      · exact ⟨Or.inl hb, hne⟩
      · refine ⟨Or.inr hb, ?_⟩
        rintro rfl
        exact hnew h.start
    · rintro ⟨hb, hne⟩
      by_cases hold : b ∈ seen
      · exact Or.inl ⟨hold, hne⟩
      · exact Or.inr ⟨hb.resolve_left hold, hold⟩
  case reached =>
    intro b hb
    rcases (ho.seen b).mp hb with hb | hb
    · exact h.reached b hb
    · exact (h.reached cur hcur).tail hb
  case queued =>
    intro b hb
    rcases (ho.queue b).mp hb with hb | ⟨hb, _⟩
    · exact (ho.seen b).mpr (Or.inl (h.queued b (List.mem_cons_of_mem cur hb)))
    · exact (ho.seen b).mpr (Or.inr hb)
  case closed =>
    intro b hb hleft c hc
    rw [ho.queue, not_or] at hleft
    have hold : b ∈ seen := by
      by_contra hnew
      exact hleft.2 ⟨((ho.seen b).mp hb).resolve_left hnew, hnew⟩
    by_cases hbc : b = cur
    · exact (ho.seen c).mpr (Or.inr (hbc ▸ hc))
    · have hqueue : b ∉ cur :: queue := fun hin => (List.mem_cons.mp hin).elim hbc hleft.1
      exact (ho.seen c).mpr (Or.inl (h.closed b hold hqueue c hc))

theorem Sound.length_le {s : State α} (h : Sound succ U a s) : s.1.length ≤ U.card + 1 := by
  have hsub : s.1.toFinset ⊆ insert a U := fun b hb =>
    Finset.mem_insert.mpr (h.bounded b (List.mem_toFinset.mp hb))
  calc s.1.length = s.1.toFinset.card := (List.toFinset_card_of_nodup h.nodup).symm
    _ ≤ (insert a U).card := Finset.card_le_card hsub
    _ ≤ U.card + 1 := Finset.card_insert_le a U

omit [DecidableEq α] in
/-- When the queue is empty everything that is reached was found. -/
theorem Sound.mem_found_iff {seen found : List α} (h : Sound succ U a (seen, found, [])) (b : α) :
    b ∈ found ↔ b ≠ a ∧ ReflTransGen (fun x y => y ∈ succ x) a b := by
  have hseen : ∀ b, ReflTransGen (fun x y => y ∈ succ x) a b → b ∈ seen := by
    intro b hreach
    induction hreach with
    | refl => exact h.start
    | tail _ hc ih => exact h.closed _ ih List.not_mem_nil _ hc
  rw [h.found b, and_comm]
  exact and_congr_right fun _ => ⟨h.reached b, hseen b⟩

/-- With enough rounds left the queue gets empty: more rounds change nothing, and what is reached is found. -/
theorem loop_spec (hU : ∀ x, ∀ b ∈ succ x, b ∈ U) {n : ℕ} {s : State α} (h : Sound succ U a s)
    (hn : U.card + 1 + s.2.2.length ≤ n + s.1.length) :
    (∀ m, n ≤ m → loop succ m s = loop succ n s) ∧
      ∀ b, b ∈ loop succ n s ↔ b ≠ a ∧ ReflTransGen (fun x y => y ∈ succ x) a b := by
  have hstop : ∀ m (seen found : List α), loop succ m (seen, found, []) = found := by
    intro m seen found
    cases m <;> rfl
  induction n generalizing s with
  | zero =>
      obtain ⟨seen, found, queue⟩ := s
      have hlength := h.length_le
      obtain rfl : queue = [] := List.eq_nil_of_length_eq_zero (by dsimp only at hn hlength; omega)
      exact ⟨fun m _ => (hstop m seen found).trans (hstop 0 seen found).symm, h.mem_found_iff⟩
  | succ n ih =>
      obtain ⟨seen, found, _ | ⟨cur, queue⟩⟩ := s
      · exact ⟨fun m _ => (hstop m seen found).trans (hstop (n + 1) seen found).symm, h.mem_found_iff⟩
      · have hlength := (offered_foldl (seen, found, queue) (succ cur)).length
        dsimp only [List.length_cons] at hlength hn
        obtain ⟨hmore, hfinds⟩ := ih (h.round hU) (by omega)
        refine ⟨fun m hm => ?_, hfinds⟩
        obtain ⟨m, rfl⟩ := Nat.exists_eq_succ_of_ne_zero (Nat.ne_zero_of_lt hm)
        exact hmore m (by omega)

variable (succ a) in
theorem search_spec (hU : ∀ x, ∀ b ∈ succ x, b ∈ U) {n : ℕ} (hn : U.card < n) :
    (∀ m, n ≤ m → search succ m a = search succ n a) ∧
      ∀ b, b ∈ search succ n a ↔ b ≠ a ∧ ReflTransGen (fun x y => y ∈ succ x) a b :=
  loop_spec hU sound_start (by rw [List.length_singleton]; omega)

end search
end BrowserMesh.Breadth
