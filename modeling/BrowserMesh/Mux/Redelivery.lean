import BrowserMesh.Mux.Reassembly

/-! # Frames delivered again

The frames of messages with distinct ids, in any order and any number of times.  What the reassembler holds of a message
goes round in circles (`rounds`): the parts that arrive fill an entry, the last part that is missing completes the
message and deletes the entry, and a part that arrives after that opens a new one.  So a message is returned once, and
nothing of it stays, exactly if no part arrives when all of its parts have (`returned_once_iff`). -/

namespace BrowserMesh.Mux

open Js

/-! ### Rounds -/

/-- A part arrives: the parts that the current round holds, and the number of rounds completed. -/
def fillRound (total : ℕ) (r : Finset ℕ × ℕ) (seq : ℕ) : Finset ℕ × ℕ :=
  if insert seq r.1 = Finset.range total then (∅, r.2 + 1) else (insert seq r.1, r.2)

/-- The current round and the number of rounds completed when the parts `seqs` have arrived. -/
def rounds (total : ℕ) (seqs : List ℕ) : Finset ℕ × ℕ := seqs.foldl (fillRound total) (∅, 0)

def begun (r : Finset ℕ × ℕ) : ℕ := if r.1 = ∅ then r.2 else r.2 + 1

section rounds
variable {total : ℕ} {seqs : List ℕ}

theorem rounds_concat (total : ℕ) (seqs : List ℕ) (seq : ℕ) :
    rounds total (seqs ++ [seq]) = fillRound total (rounds total seqs) seq := List.foldl_append

theorem begun_fillRound (total : ℕ) (r : Finset ℕ × ℕ) (seq : ℕ) : begun (fillRound total r seq) = r.2 + 1 := by
  unfold fillRound begun
  split_ifs with hfull hnone
  · rfl
  · exact absurd rfl hnone
  · exact absurd ‹_› (Finset.insert_ne_empty _ _)
  · rfl

theorem completed_le_fillRound (total : ℕ) (r : Finset ℕ × ℕ) (seq : ℕ) : r.2 ≤ (fillRound total r seq).2 := by
  unfold fillRound
  split_ifs
  · exact Nat.le_succ _
  · exact le_rfl

theorem begun_le (r : Finset ℕ × ℕ) : begun r ≤ r.2 + 1 := by
  unfold begun
  split_ifs <;> omega

theorem begun_le_foldl (total : ℕ) (r : Finset ℕ × ℕ) (seqs : List ℕ) :
    begun r ≤ begun (seqs.foldl (fillRound total) r) := by
  induction seqs generalizing r with
  | nil => exact le_rfl
  | cons seq seqs ih =>
      calc begun r ≤ r.2 + 1 := begun_le r
        _ = begun (fillRound total r seq) := (begun_fillRound total r seq).symm
        _ ≤ _ := ih _

theorem rounds_ssubset (h : ∀ seq ∈ seqs, seq < total) (hpos : 0 < total) :
    (rounds total seqs).1 ⊂ Finset.range total := by
  induction seqs using List.reverseRecOn with
  | nil =>
      exact Finset.ssubset_iff_subset_ne.mpr
        ⟨Finset.empty_subset _, (Finset.nonempty_range_iff.mpr hpos.ne').ne_empty.symm⟩
  | append_singleton seqs seq ih =>
      have hrest := ih fun s hs => h s (List.mem_append_left _ hs)
      have hseq := h seq (List.mem_append_right _ (List.mem_singleton_self seq))
      rw [rounds_concat, fillRound]
      split_ifs with hfull
      · exact Finset.ssubset_iff_subset_ne.mpr
          ⟨Finset.empty_subset _, (Finset.nonempty_range_iff.mpr hpos.ne').ne_empty.symm⟩
      · exact Finset.ssubset_iff_subset_ne.mpr
          ⟨Finset.insert_subset (Finset.mem_range.mpr hseq) hrest.1, hfull⟩

theorem rounds_of_incomplete (h : ∀ seq ∈ seqs, seq < total) (hmissing : seqs.toFinset ≠ Finset.range total) :
    rounds total seqs = (seqs.toFinset, 0) := by
  induction seqs using List.reverseRecOn with
  | nil => rfl
  | append_singleton seqs seq ih =>
      have hseq := h seq (List.mem_append_right _ (List.mem_singleton_self seq))
      have hall : (seqs ++ [seq]).toFinset = insert seq seqs.toFinset := by
        rw [List.toFinset_append, List.toFinset_cons, List.toFinset_nil, Finset.union_comm]
        rfl
      rw [hall] at hmissing
      have hbefore : seqs.toFinset ≠ Finset.range total := by
        intro hfull
        rw [hfull, Finset.insert_eq_of_mem (Finset.mem_range.mpr hseq)] at hmissing
        exact hmissing rfl
      rw [rounds_concat, ih (fun s hs => h s (List.mem_append_left _ hs)) hbefore, fillRound, if_neg hmissing, hall]

theorem completed_pos (h : ∀ seq ∈ seqs, seq < total) (hpos : 0 < total)
    (hall : seqs.toFinset = Finset.range total) : 1 ≤ (rounds total seqs).2 := by
  induction seqs using List.reverseRecOn with
  | nil => exact absurd hall.symm (Finset.nonempty_range_iff.mpr hpos.ne').ne_empty
  | append_singleton seqs seq ih =>
      have hrest : ∀ s ∈ seqs, s < total := fun s hs => h s (List.mem_append_left _ hs)
      rw [rounds_concat]
      by_cases hbefore : seqs.toFinset = Finset.range total
      · exact (ih hrest hbefore).trans (completed_le_fillRound _ _ _)
      · rw [rounds_of_incomplete hrest hbefore, fillRound, if_pos]
        rw [← hall, List.toFinset_append, List.toFinset_cons, List.toFinset_nil, Finset.union_comm]
        rfl

/-- At most one round is completed, and none begun after it, exactly if no part arrives after all of them. -/
theorem begun_le_completed_iff (h : ∀ seq ∈ seqs, seq < total) :
    ((rounds total seqs).2 ≤ 1 ∧ ((rounds total seqs).2 ≠ 0 → (rounds total seqs).1 = ∅)) ↔
      ∀ before seq after, seqs = before ++ seq :: after → before.toFinset ≠ Finset.range total := by
  constructor
  · rintro ⟨hle, hempty⟩ before seq after rfl hall
    have hpos : 0 < total := Nat.zero_lt_of_lt (h seq (List.mem_append_right _ List.mem_cons_self))
    have hbefore := completed_pos (fun s hs => h s (List.mem_append_left _ hs)) hpos hall
    have hbegun : 2 ≤ begun (rounds total (before ++ seq :: after)) := by
      calc 2 ≤ begun (rounds total (before ++ [seq])) := by
              rw [rounds_concat, begun_fillRound]
              omega
        _ ≤ begun (after.foldl (fillRound total) (rounds total (before ++ [seq]))) := begun_le_foldl _ _ _
        _ = _ := by
              rw [rounds, rounds, ← List.foldl_append, List.append_assoc]
              rfl
    unfold begun at hbegun
    split_ifs at hbegun with hnone
    · omega
    · exact hnone (hempty (by omega))
  · intro hnone
    induction seqs using List.reverseRecOn with
    | nil => exact ⟨Nat.zero_le _, fun _ => rfl⟩
    | append_singleton seqs seq _ =>
        have hbefore := hnone seqs seq [] rfl
        rw [rounds_concat, rounds_of_incomplete (fun s hs => h s (List.mem_append_left _ hs)) hbefore, fillRound]
        split_ifs
        · exact ⟨le_rfl, fun _ => rfl⟩
        · exact ⟨Nat.zero_le _, fun h => absurd rfl h⟩

end rounds

/-! ### Deliveries -/

/-- A frame is delivered; what `receive` returns is added to what it returned before. -/
def delivery (r : Reassembler × List Reassembled) (c : Chunk) : Reassembler × List Reassembled :=
  match r.1.receive c with
  | .error _ => r
  | .ok (pending, result) => (pending, r.2 ++ result.toList)

def deliverAll (frames : List Chunk) : Reassembler × List Reassembled := frames.foldl delivery (JsMap.empty, [])

def Parts.whole (m : Parts) : Reassembled := ⟨m.msgId, m.priority, m.bytes⟩

def Parts.seqs (m : Parts) (frames : List Chunk) : List ℕ :=
  (frames.filter fun c => c.msgId = m.msgId).map Chunk.seq

/-- The entries and the results are those of the rounds of the messages. -/
structure InRounds (ms : List Parts) (frames : List Chunk) (r : Reassembler × List Reassembled) : Prop where
  held : ∀ m ∈ ms, r.1.get? m.msgId = m.held (rounds m.total (m.seqs frames)).1
  results : ∀ m ∈ ms, (r.2.filter fun x => x.msgId = m.msgId) =
    List.replicate (rounds m.total (m.seqs frames)).2 m.whole
  owner : ∀ x ∈ r.2, ∃ m ∈ ms, x = m.whole

section deliveries
variable {ms : List Parts} (hids : (ms.map Parts.msgId).Nodup) {frames : List Chunk}
  (hframes : ∀ c ∈ frames, ∃ m ∈ ms, c ∈ m.chunks)
include hids hframes

theorem seqs_lt {m : Parts} (hm : m ∈ ms) : ∀ seq ∈ m.seqs frames, seq < m.total := by
  intro seq hseq
  obtain ⟨c, hc, rfl⟩ := List.mem_map.mp hseq
  obtain ⟨hc, hid⟩ := List.mem_filter.mp hc
  obtain ⟨m', hm', hcm⟩ := hframes c hc
  obtain ⟨i, hi, rfl⟩ := Parts.mem_chunks.mp hcm
  obtain rfl : m' = m := List.inj_on_of_nodup_map hids hm' hm (of_decide_eq_true hid)
  exact hi

theorem inRounds : InRounds ms frames (deliverAll frames) := by
  induction frames using List.reverseRecOn with
  | nil => exact ⟨fun _ _ => rfl, fun _ _ => rfl, fun _ h => absurd h List.not_mem_nil⟩
  | append_singleton frames c ih =>
      have hrest : ∀ c ∈ frames, ∃ m ∈ ms, c ∈ m.chunks := fun c hc => hframes c (List.mem_append_left _ hc)
      have h := ih hrest
      obtain ⟨m, hm, hcm⟩ := hframes c (List.mem_append_right _ (List.mem_singleton_self c))
      obtain ⟨i, hi, rfl⟩ := Parts.mem_chunks.mp hcm
      have hsub := (rounds_ssubset (seqs_lt hids hrest hm) (by omega)).1
      have hspec := Reassembler.receive_spec m hsub hi (h.held m hm)
      have hstep : deliverAll (frames ++ [m.chunk i]) = delivery (deliverAll frames) (m.chunk i) := List.foldl_append
      have hown : m.seqs (frames ++ [m.chunk i]) = m.seqs frames ++ [i] := by
        rw [Parts.seqs, List.filter_append, List.map_append]
        simp [Parts.seqs, Parts.chunk]
      have hother : ∀ m' ∈ ms, m' ≠ m → m'.msgId ≠ m.msgId ∧ m'.seqs (frames ++ [m.chunk i]) = m'.seqs frames := by
        intro m' hm' hne
        have hid : m'.msgId ≠ m.msgId := fun he => hne (List.inj_on_of_nodup_map hids hm' hm he)
        refine ⟨hid, ?_⟩
        rw [Parts.seqs, List.filter_append, List.map_append]
        simp [Parts.seqs, Parts.chunk, Ne.symm hid]
      rw [hstep, delivery, hspec]
      split_ifs with hfull
      · -- the message is complete
        have hround : rounds m.total (m.seqs (frames ++ [m.chunk i])) =
            (∅, (rounds m.total (m.seqs frames)).2 + 1) := by
          rw [hown, rounds_concat, fillRound, if_pos hfull]
        constructor
        case held =>
          intro m' hm'
          show (JsMap.delete _ _).get? _ = _
          rw [JsMap.get?_delete]
          by_cases hne : m' = m
          · subst hne
            rw [if_pos rfl, hround]
            rfl
          · rw [if_neg (hother m' hm' hne).1, (hother m' hm' hne).2]
            exact h.held m' hm'
        case results =>
          intro m' hm'
          show List.filter _ (_ ++ [m.whole]) = _
          rw [List.filter_append]
          by_cases hne : m' = m
          · subst hne
            rw [h.results m' hm', hround, List.replicate_succ']
            simp [Parts.whole]
          · rw [h.results m' hm', (hother m' hm' hne).2]
            simp [Parts.whole, Ne.symm (hother m' hm' hne).1]
        case owner =>
          intro x hx
          rcases List.mem_append.mp hx with hx | hx
          · exact h.owner x hx
          · exact ⟨m, hm, List.mem_singleton.mp hx⟩
      · -- the part is filed, if its place is free
        have hround : rounds m.total (m.seqs (frames ++ [m.chunk i])) =
            (insert i (rounds m.total (m.seqs frames)).1, (rounds m.total (m.seqs frames)).2) := by
          rw [hown, rounds_concat, fillRound, if_neg hfull]
        show InRounds ms _ (_, _ ++ [])
        rw [List.append_nil]
        constructor
        case held =>
          intro m' hm'
          show (JsMap.set _ _ _).get? _ = _
          rw [JsMap.get?_set]
          by_cases hne : m' = m
          · subst hne
            rw [if_pos rfl, hround, Parts.held, if_neg (Finset.insert_ne_empty _ _)]
          · rw [if_neg (hother m' hm' hne).1, (hother m' hm' hne).2]
            exact h.held m' hm'
        case results =>
          intro m' hm'
          rw [h.results m' hm']
          by_cases hne : m' = m
          · subst hne
            rw [hround]
          · rw [(hother m' hm' hne).2]
        case owner => exact h.owner

end deliveries

/-- Every message is returned at most once, and once it is returned no entry of it is pending. -/
def ReturnedOnce (r : Reassembler × List Reassembled) : Prop :=
  (r.2.map Reassembled.msgId).Nodup ∧ ∀ x ∈ r.2, r.1.get? x.msgId = none

/-- No frame arrives when all the frames of its message have arrived. -/
def NoneLate (ms : List Parts) (frames : List Chunk) : Prop :=
  ∀ before c after, frames = before ++ c :: after → ∀ m ∈ ms, c ∈ m.chunks → ∃ c' ∈ m.chunks, c' ∉ before

section once
variable {ms : List Parts} {frames : List Chunk}

theorem returnedOnce_iff_rounds {r : Reassembler × List Reassembled} (h : InRounds ms frames r) :
    ReturnedOnce r ↔ ∀ m ∈ ms, (rounds m.total (m.seqs frames)).2 ≤ 1 ∧
      ((rounds m.total (m.seqs frames)).2 ≠ 0 → (rounds m.total (m.seqs frames)).1 = ∅) := by
  have hcount : ∀ m ∈ ms, (r.2.map Reassembled.msgId).count m.msgId = (rounds m.total (m.seqs frames)).2 := by
    intro m hm
    have hlength := congrArg List.length (h.results m hm)
    rw [List.length_replicate, ← List.countP_eq_length_filter] at hlength
    rw [List.count_eq_countP, List.countP_map, ← hlength]
    rfl
  constructor
  · rintro ⟨hnodup, hnone⟩ m hm
    refine ⟨hcount m hm ▸ List.nodup_iff_count_le_one.mp hnodup m.msgId, fun hne => ?_⟩
    have hmem : m.msgId ∈ r.2.map Reassembled.msgId :=
      List.count_pos_iff.mp (by rw [hcount m hm]; exact Nat.pos_of_ne_zero hne)
    obtain ⟨x, hx, hid⟩ := List.mem_map.mp hmem
    have hpending := hnone x hx
    rw [hid, h.held m hm, Parts.held] at hpending
    by_contra hround
    rw [if_neg hround] at hpending
    cases hpending
  · intro hall
    refine ⟨List.nodup_iff_count_le_one.mpr fun id => ?_, fun x hx => ?_⟩
    · by_cases hid : id ∈ r.2.map Reassembled.msgId
      · obtain ⟨x, hx, rfl⟩ := List.mem_map.mp hid
        obtain ⟨m, hm, rfl⟩ := h.owner x hx
        exact (hcount m hm).trans_le (hall m hm).1
      · rw [List.count_eq_zero_of_not_mem hid]
        exact Nat.zero_le 1
    · obtain ⟨m, hm, rfl⟩ := h.owner x hx
      have hmem : m.msgId ∈ r.2.map Reassembled.msgId := List.mem_map_of_mem hx
      have hne : (rounds m.total (m.seqs frames)).2 ≠ 0 := by
        rw [← hcount m hm]
        exact (List.count_pos_iff.mpr hmem).ne'
      show r.1.get? m.msgId = none
      rw [h.held m hm, (hall m hm).2 hne]
      rfl

variable (hids : (ms.map Parts.msgId).Nodup)
include hids

theorem mem_seqs_iff (hframes : ∀ c ∈ frames, ∃ m ∈ ms, c ∈ m.chunks) {m : Parts} (hm : m ∈ ms) {i : ℕ} :
    i ∈ m.seqs frames ↔ m.chunk i ∈ frames := by
  rw [Parts.seqs, List.mem_map]
  constructor
  · rintro ⟨c, hfilter, rfl⟩
    obtain ⟨hc, hid⟩ := List.mem_filter.mp hfilter
    obtain ⟨m', hm', hcm⟩ := hframes c hc
    obtain ⟨j, _, rfl⟩ := Parts.mem_chunks.mp hcm
    obtain rfl : m' = m := List.inj_on_of_nodup_map hids hm' hm (of_decide_eq_true hid)
    exact hc
  · intro hc
    exact ⟨m.chunk i, List.mem_filter.mpr ⟨hc, decide_eq_true rfl⟩, rfl⟩

theorem seqs_eq_range_iff (hframes : ∀ c ∈ frames, ∃ m ∈ ms, c ∈ m.chunks) {m : Parts} (hm : m ∈ ms) :
    (m.seqs frames).toFinset = Finset.range m.total ↔ ∀ c ∈ m.chunks, c ∈ frames := by
  constructor
  · intro hall c hc
    obtain ⟨i, hi, rfl⟩ := Parts.mem_chunks.mp hc
    exact (mem_seqs_iff hids hframes hm).mp (List.mem_toFinset.mp (hall ▸ Finset.mem_range.mpr hi))
  · intro hall
    ext i
    rw [List.mem_toFinset, Finset.mem_range]
    constructor
    · exact seqs_lt hids hframes hm i
    · intro hi
      exact (mem_seqs_iff hids hframes hm).mpr (hall _ (Parts.mem_chunks.mpr ⟨i, hi, rfl⟩))

theorem noneLate_iff (hframes : ∀ c ∈ frames, ∃ m ∈ ms, c ∈ m.chunks) :
    NoneLate ms frames ↔ ∀ m ∈ ms, ∀ before seq after, m.seqs frames = before ++ seq :: after →
      before.toFinset ≠ Finset.range m.total := by
  constructor
  · intro hnone m hm before seq after hsplit hall
    obtain ⟨l, l', hl, rfl, hcons⟩ := List.map_eq_append_iff.mp hsplit
    obtain ⟨c, tail, rfl, rfl, rfl⟩ := List.map_eq_cons_iff.mp hcons
    obtain ⟨f, f', rfl, rfl, hf'⟩ := List.filter_eq_append_iff.mp hl
    obtain ⟨g, g', rfl, hg, hid, _⟩ := List.filter_eq_cons_iff.mp hf'
    have hlater : c ∈ f ++ (g ++ c :: g') := by simp
    obtain ⟨m', hm', hcm⟩ := hframes c hlater
    obtain ⟨j, hj, rfl⟩ := Parts.mem_chunks.mp hcm
    obtain rfl : m' = m := List.inj_on_of_nodup_map hids hm' hm (of_decide_eq_true hid)
    obtain ⟨c', hc', hmissing⟩ := hnone (f ++ g) _ g' (List.append_assoc f g _).symm m' hm hcm
    have hsub : ∀ c ∈ f, ∃ m ∈ ms, c ∈ m.chunks := fun c hc => hframes c (List.mem_append_left _ hc)
    exact hmissing (List.mem_append_left g ((seqs_eq_range_iff hids hsub hm).mp hall c' hc'))
  · rintro hall before c after rfl m hm hcm
    obtain ⟨i, hi, rfl⟩ := Parts.mem_chunks.mp hcm
    have hsub : ∀ c ∈ before, ∃ m ∈ ms, c ∈ m.chunks := fun c hc => hframes c (List.mem_append_left _ hc)
    have hsplit : m.seqs (before ++ m.chunk i :: after) = m.seqs before ++ i :: m.seqs after := by
      simp [Parts.seqs, Parts.chunk]
    by_contra hno
    refine hall m hm _ i _ hsplit ((seqs_eq_range_iff hids hsub hm).mpr fun c' hc' => ?_)
    by_contra hmissing
    exact hno ⟨c', hc', hmissing⟩

/-- What is returned are the messages, whole; each is returned once, and leaves nothing pending, exactly if no frame
arrives when all the frames of its message have arrived. -/
theorem returned_once_iff (hframes : ∀ c ∈ frames, ∃ m ∈ ms, c ∈ m.chunks) :
    (∀ x ∈ (deliverAll frames).2, ∃ m ∈ ms, x = m.whole) ∧
      (ReturnedOnce (deliverAll frames) ↔ NoneLate ms frames) := by
  have h := inRounds hids hframes
  refine ⟨h.owner, ?_⟩
  rw [returnedOnce_iff_rounds h, noneLate_iff hids hframes]
  refine forall₂_congr fun m hm => ?_
  exact begun_le_completed_iff (seqs_lt hids hframes hm)

end once

def onePart : Parts := ⟨js "normal", 1, 1, fun _ => [65]⟩

def twoParts : Parts := ⟨js "normal", 2, 2, fun i => [Fin.ofNat 256 i]⟩

theorem returned_once_duplicated :
    (∀ x ∈ (deliverAll [twoParts.chunk 1, twoParts.chunk 1, twoParts.chunk 0]).2, ∃ m ∈ [twoParts], x = m.whole) ∧
      (ReturnedOnce (deliverAll [twoParts.chunk 1, twoParts.chunk 1, twoParts.chunk 0]) ↔
        NoneLate [twoParts] [twoParts.chunk 1, twoParts.chunk 1, twoParts.chunk 0]) :=
  returned_once_iff (by decide) (by decide)

/-- A frame that is delivered twice: the message of one part is returned twice, the message of two parts stays
pending. -/
theorem returned_twice :
    (deliverAll [onePart.chunk 0, onePart.chunk 0]).2 = [onePart.whole, onePart.whole] ∧
      ((deliverAll [twoParts.chunk 0, twoParts.chunk 1, twoParts.chunk 0]).1.get? 2).isSome = true ∧
      ¬ ∀ (ms : List Parts) (frames : List Chunk), (ms.map Parts.msgId).Nodup →
        (∀ c ∈ frames, ∃ m ∈ ms, c ∈ m.chunks) → ReturnedOnce (deliverAll frames) := by
  have htwice : (deliverAll [onePart.chunk 0, onePart.chunk 0]).2 = [onePart.whole, onePart.whole] := by decide
  refine ⟨htwice, by decide, fun h => ?_⟩
  have hnodup := (h [onePart] [onePart.chunk 0, onePart.chunk 0] (by decide) (by decide)).1
  rw [htwice] at hnodup
  exact absurd hnodup (by decide)

end BrowserMesh.Mux
