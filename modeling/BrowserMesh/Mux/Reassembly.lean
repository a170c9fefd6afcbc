import BrowserMesh.Mux.Frames

/-! # Messages in flight

Messages are cut into parts, and parts arrive in any order.  `Flow` ties three things together: the
chunks that are in flight, the messages they belong to (the live ones, in the order of their sending) and
what the reassembler holds.

* `Flow.append`: a message under a new id becomes live.
* `Flow.receive`: a chunk arrives; if it was the last one of its message, the message comes out whole. -/

namespace BrowserMesh.Mux

open Js

namespace Parts

/-- The parts of `m` that are no longer in flight. -/
def arrived (m : Parts) (out : List Chunk) : Finset ℕ :=
  (Finset.range m.total).filter fun seq => m.chunk seq ∉ out

variable {m : Parts}

theorem chunk_inj {i j : ℕ} : m.chunk i = m.chunk j ↔ i = j := by
  constructor
  · intro h
    exact congrArg Chunk.seq h
  · rintro rfl
    rfl

theorem arrived_congr {out out' : List Chunk} (h : ∀ seq, m.chunk seq ∈ out ↔ m.chunk seq ∈ out') :
    m.arrived out = m.arrived out' :=
  Finset.filter_congr fun seq _ => not_congr (h seq)

theorem arrived_subset (m : Parts) (out : List Chunk) : m.arrived out ⊆ Finset.range m.total :=
  Finset.filter_subset _ _

/-- A chunk that leaves `out` has arrived. -/
theorem arrived_erase {out : List Chunk} (hn : out.Nodup) {seq : ℕ} (hseq : seq < m.total) :
    m.arrived (out.erase (m.chunk seq)) = insert seq (m.arrived out) := by
  ext i
  simp only [arrived, Finset.mem_filter, Finset.mem_insert, Finset.mem_range, hn.mem_erase_iff, not_and,
    ne_eq, chunk_inj]
  constructor
  · rintro ⟨hi, h⟩
    by_cases he : i = seq
    · exact Or.inl he
    · exact Or.inr ⟨hi, h he⟩
  · rintro (rfl | ⟨hi, h⟩)
    · exact ⟨hseq, fun h => absurd rfl h⟩
    · exact ⟨hi, fun _ => h⟩

def chunks (m : Parts) : List Chunk := (List.range m.total).map m.chunk

theorem mem_chunks {c : Chunk} : c ∈ m.chunks ↔ ∃ seq < m.total, c = m.chunk seq := by
  simp only [chunks, List.mem_map, List.mem_range, eq_comm]

theorem nodup_chunks (m : Parts) : m.chunks.Nodup :=
  List.nodup_range.map fun _ _ h => chunk_inj.mp h

end Parts

section Flow
variable {μ : Type} (parts : μ → Parts)

/-- The message ids of some messages. -/
def msgIds (live : List μ) : List ℕ := live.map fun m => (parts m).msgId

/-- The chunks `out` are in flight, they belong to the messages `live`, and the rest of these messages is
held by the reassembler. -/
structure Flow (pending : Reassembler) (out : List Chunk) (live : List μ) : Prop where
  ids : (msgIds parts live).Nodup
  nodup : out.Nodup
  owner : ∀ c ∈ out, ∃ m ∈ live, c ∈ (parts m).chunks
  flying : ∀ m ∈ live, ∃ c ∈ out, c ∈ (parts m).chunks
  held : ∀ m ∈ live, pending.get? (parts m).msgId = (parts m).held ((parts m).arrived out)
  rest : ∀ id, id ∉ msgIds parts live → pending.get? id = none

namespace Flow
variable {parts} {pending : Reassembler} {out out' : List Chunk} {live : List μ}

theorem nil : Flow parts JsMap.empty [] [] where
  ids := List.nodup_nil
  nodup := List.nodup_nil
  owner := fun _ h => (by cases h)
  flying := fun _ h => (by cases h)
  held := fun _ h => (by cases h)
  rest := fun _ _ => rfl

theorem perm (h : Flow parts pending out live) (hp : out.Perm out') : Flow parts pending out' live where
  ids := h.ids
  nodup := hp.nodup_iff.mp h.nodup
  owner := fun c hc => h.owner c (hp.mem_iff.mpr hc)
  flying := by
    intro m hm
    obtain ⟨c, hc, hcm⟩ := h.flying m hm
    exact ⟨c, hp.mem_iff.mp hc, hcm⟩
  held := by
    intro m hm
    rw [h.held m hm, Parts.arrived_congr fun _ => hp.mem_iff]
  rest := h.rest

theorem mem_msgIds {m : μ} (h : m ∈ live) : (parts m).msgId ∈ msgIds parts live :=
  List.mem_map_of_mem h

theorem msgId_of_mem_chunks {m : Parts} {c : Chunk} (h : c ∈ m.chunks) : c.msgId = m.msgId := by
  obtain ⟨seq, -, rfl⟩ := Parts.mem_chunks.mp h
  rfl

theorem msgId_mem (h : Flow parts pending out live) {c : Chunk} (hc : c ∈ out) :
    c.msgId ∈ msgIds parts live := by
  obtain ⟨m, hm, hcm⟩ := h.owner c hc
  rw [msgId_of_mem_chunks hcm]
  exact mem_msgIds hm

theorem mem_out_of_msgId (h : Flow parts pending out live) {id : ℕ} (hid : id ∈ msgIds parts live) :
    id ∈ out.map Chunk.msgId := by
  obtain ⟨m, hm, rfl⟩ := List.mem_map.mp hid
  obtain ⟨c, hc, hcm⟩ := h.flying m hm
  exact List.mem_map.mpr ⟨c, hc, msgId_of_mem_chunks hcm⟩

theorem append (h : Flow parts pending out live) {m : μ} (hid : (parts m).msgId ∉ msgIds parts live)
    (hpos : 0 < (parts m).total) : Flow parts pending (out ++ (parts m).chunks) (live ++ [m]) := by
  have hnew : ∀ c ∈ out, c ∉ (parts m).chunks := by
    intro c hc hcm
    apply hid
    rw [← msgId_of_mem_chunks hcm]
    exact h.msgId_mem hc
  have hids : msgIds parts (live ++ [m]) = msgIds parts live ++ [(parts m).msgId] := by simp [msgIds]
  constructor
  case ids =>
    rw [hids, List.nodup_append]
    refine ⟨h.ids, List.nodup_singleton _, ?_⟩
    rintro a ha b hb rfl
    exact hid (List.mem_singleton.mp hb ▸ ha)
  case nodup =>
    rw [List.nodup_append]
    refine ⟨h.nodup, (parts m).nodup_chunks, ?_⟩
    rintro a ha b hb rfl
    exact hnew a ha hb
  case owner =>
    intro c hc
    rcases List.mem_append.mp hc with hc | hc
    · obtain ⟨m', hm', hcm⟩ := h.owner c hc
      exact ⟨m', List.mem_append_left _ hm', hcm⟩
    · exact ⟨m, List.mem_append_right _ (List.mem_singleton_self m), hc⟩
  case flying =>
    intro m' hm'
    rcases List.mem_append.mp hm' with hm' | hm'
    · obtain ⟨c, hc, hcm⟩ := h.flying m' hm'
      exact ⟨c, List.mem_append_left _ hc, hcm⟩
    · obtain rfl := List.mem_singleton.mp hm'
      have hzero : (parts m').chunk 0 ∈ (parts m').chunks := Parts.mem_chunks.mpr ⟨0, hpos, rfl⟩
      exact ⟨_, List.mem_append_right _ hzero, hzero⟩
  case held =>
    intro m' hm'
    rcases List.mem_append.mp hm' with hm' | hm'
    · rw [h.held m' hm']
      congr 1
      apply Parts.arrived_congr
      intro seq
      rw [List.mem_append]
      constructor
      · exact Or.inl
      · rintro (hc | hc)
        · exact hc
        · exact absurd ((msgId_of_mem_chunks hc) ▸ mem_msgIds hm') hid
    · obtain rfl := List.mem_singleton.mp hm'
      have hnone : (parts m').arrived (out ++ (parts m').chunks) = ∅ := by
        apply Finset.filter_eq_empty_iff.mpr
        intro seq hseq
        rw [not_not]
        exact List.mem_append_right _ (Parts.mem_chunks.mpr ⟨seq, Finset.mem_range.mp hseq, rfl⟩)
      rw [hnone, h.rest _ hid]
      rfl
  case rest =>
    intro id hout
    rw [hids, List.mem_append, not_or] at hout
    exact h.rest id hout.1

/-- A chunk in flight is received: it is filed, or it completes its message. -/
theorem receive (h : Flow parts pending out live) {c : Chunk} (hc : c ∈ out) :
    ∃ l m l' pending', live = l ++ m :: l' ∧ c ∈ (parts m).chunks ∧
      ((pending.receive c = .ok (pending', none) ∧ Flow parts pending' (out.erase c) live) ∨
        (pending.receive c =
            .ok (pending', some ⟨(parts m).msgId, (parts m).priority, (parts m).bytes⟩) ∧
          Flow parts pending' (out.erase c) (l ++ l'))) := by
  obtain ⟨m, hm, hcm⟩ := h.owner c hc
  obtain ⟨seq, hseq, rfl⟩ := Parts.mem_chunks.mp hcm
  obtain ⟨l, l', rfl⟩ := List.append_of_mem hm
  have hsub : ∀ m', m' ∈ l ++ l' → m' ∈ l ++ m :: l' := fun m' hm' =>
    List.perm_middle.symm.subset (List.mem_cons_of_mem m hm')
  have hids : (msgIds parts (m :: (l ++ l'))).Nodup := (List.perm_middle.map _).nodup_iff.mp h.ids
  have hothers : ∀ m' ∈ l ++ l', (parts m').msgId ≠ (parts m).msgId := by
    intro m' hm' he
    have hin : (parts m').msgId ∈ msgIds parts (l ++ l') := mem_msgIds hm'
    rw [he] at hin
    exact (List.nodup_cons.mp hids).1 hin
  have hspec := Reassembler.receive_spec (parts m) ((parts m).arrived_subset out) hseq (h.held m hm)
  rw [← Parts.arrived_erase h.nodup hseq] at hspec
  have herase : ∀ c', c' ∈ out.erase ((parts m).chunk seq) ↔ c' ≠ (parts m).chunk seq ∧ c' ∈ out :=
    fun c' => h.nodup.mem_erase_iff
  -- messages other than `m` do not notice
  have hsame : ∀ m' ∈ l ++ l',
      (parts m').arrived (out.erase ((parts m).chunk seq)) = (parts m').arrived out := by
    intro m' hm'
    apply Parts.arrived_congr
    intro i
    rw [herase]
    exact and_iff_right fun he => hothers m' hm' (congrArg Chunk.msgId he)
  have hflying : ∀ m' ∈ l ++ l', ∃ c' ∈ out.erase ((parts m).chunk seq), c' ∈ (parts m').chunks := by
    intro m' hm'
    obtain ⟨c', hc', hcm'⟩ := h.flying m' (hsub m' hm')
    refine ⟨c', (herase c').mpr ⟨?_, hc'⟩, hcm'⟩
    rintro rfl
    exact hothers m' hm' (msgId_of_mem_chunks hcm').symm
  by_cases hfull : (parts m).arrived (out.erase ((parts m).chunk seq)) = Finset.range (parts m).total
  · -- the last chunk of `m`
    rw [if_pos hfull] at hspec
    refine ⟨l, m, l', _, rfl, hcm, Or.inr ⟨hspec, ?_⟩⟩
    constructor
    case ids => exact (List.nodup_cons.mp hids).2
    case nodup => exact h.nodup.erase _
    case owner =>
      intro c' hc'
      obtain ⟨m', hm', hcm'⟩ := h.owner c' ((herase c').mp hc').2
      refine ⟨m', ?_, hcm'⟩
      rcases List.mem_cons.mp (List.perm_middle.subset hm') with rfl | hm'
      · obtain ⟨i, hi, rfl⟩ := Parts.mem_chunks.mp hcm'
        have hin := hfull ▸ Finset.mem_range.mpr hi
        exact absurd hc' (Finset.mem_filter.mp hin).2
      · exact hm'
    case flying => exact hflying
    case held =>
      intro m' hm'
      rw [JsMap.get?_delete, if_neg (hothers m' hm'), hsame m' hm']
      exact h.held m' (hsub m' hm')
    case rest =>
      intro id hid
      rw [JsMap.get?_delete]
      split_ifs with he
      · rfl
      · apply h.rest
        intro hin
        rcases List.mem_cons.mp ((List.perm_middle.map _).subset hin) with hin | hin
        · exact he hin
        · exact hid hin
  · -- more chunks of `m` are in flight
    rw [if_neg hfull] at hspec
    refine ⟨l, m, l', _, rfl, hcm, Or.inl ⟨hspec, ?_⟩⟩
    have hsplit : ∀ m', m' ∈ l ++ m :: l' → m' = m ∨ m' ∈ l ++ l' := fun m' hm' =>
      List.mem_cons.mp (List.perm_middle.subset hm')
    constructor
    case ids => exact h.ids
    case nodup => exact h.nodup.erase _
    case owner => exact fun c' hc' => h.owner c' ((herase c').mp hc').2
    case flying =>
      intro m' hm'
      rcases hsplit m' hm' with rfl | hm'
      · have hlt := Finset.ssubset_iff_subset_ne.mpr ⟨(parts m').arrived_subset _, hfull⟩
        obtain ⟨i, hi, hnot⟩ := Finset.exists_of_ssubset hlt
        have hfly : (parts m').chunk i ∈ out.erase ((parts m').chunk seq) := by
          by_contra hgone
          exact hnot (Finset.mem_filter.mpr ⟨hi, hgone⟩)
        exact ⟨_, hfly, Parts.mem_chunks.mpr ⟨i, Finset.mem_range.mp hi, rfl⟩⟩
      · exact hflying m' hm'
    case held =>
      intro m' hm'
      rw [JsMap.get?_set]
      rcases hsplit m' hm' with rfl | hm'
      · have hne : (parts m').arrived (out.erase ((parts m').chunk seq)) ≠ ∅ := by
          rw [Parts.arrived_erase h.nodup hseq]
          exact Finset.insert_ne_empty _ _
        rw [if_pos rfl, Parts.held, if_neg hne]
      · rw [if_neg (hothers m' hm'), hsame m' hm']
        exact h.held m' (hsub m' hm')
    case rest =>
      intro id hid
      rw [JsMap.get?_set, if_neg]
      · exact h.rest id hid
      · rintro rfl
        exact hid (mem_msgIds hm)

end Flow
end Flow
end BrowserMesh.Mux
