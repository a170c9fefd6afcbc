import BrowserMesh.Js.Dict
import BrowserMesh.Library.Walks
import BrowserMesh.Library.Worklist

/-! # Transitive trust

* `computeTransitiveTrust`: a queue of partial paths, each with the product of its levels and the pods that it has met.
  Only a path whose product is above the best level so far is continued.
* `Searching`: what holds between the turns of the loop.  Every simple path to the target gains at most the best level
  so far, or it is the continuation of a partial path in the queue with no smaller product. -/

namespace BrowserMesh.Primitives

open Js Walks Worklist

/-- An edge of the trust graph, with its `from` and `to`. -/
structure TrustEdge where
  truster : JsString
  trustee : JsString
  value : ℚ
deriving DecidableEq

/-- `createTrustEdge({ from, to, value })`; `none` for the error. -/
def createTrustEdge (truster trustee : JsString) (value : ℚ) : Option TrustEdge :=
  if value < 0 ∨ 1 < value then none else some ⟨truster, trustee, value⟩

abbrev Adjacency : Type := JsMap JsString (List (JsString × ℚ))

/-- The body of the loop over the edges. -/
def addNeighbor (adj : Adjacency) (edge : TrustEdge) : Adjacency :=
  if edge.value ≤ 0 then adj
  else adj.set edge.truster ((adj.get? edge.truster).getD [] ++ [(edge.trustee, edge.value)])

def adjacency (edges : List TrustEdge) : Adjacency := edges.foldl addNeighbor JsMap.empty

def neighbors (adj : Adjacency) (node : JsString) : List (JsString × ℚ) := (adj.get? node).getD []

/-- `[node, trust, depth, visited]`. -/
structure QueueEntry where
  node : JsString
  trust : ℚ
  depth : ℕ
  visited : JsSet JsString

/-- The entry that goes on to a neighbor. -/
def QueueEntry.next (entry : QueueEntry) (n : JsString × ℚ) : QueueEntry :=
  ⟨n.1, entry.trust * n.2, entry.depth + 1, entry.visited.add n.1⟩

/-- The body of the loop over the neighbors, on the best level and the new entries. -/
def visitNeighbor (target : JsString) (entry : QueueEntry) (acc : ℚ × List QueueEntry) (n : JsString × ℚ) :
    ℚ × List QueueEntry :=
  if n.1 ∈ entry.visited then acc
  else if n.1 = target then (max acc.1 (entry.trust * n.2), acc.2)
  else if acc.1 < entry.trust * n.2 then (acc.1, acc.2 ++ [entry.next n])
  else acc

/-- `depth >= maxDepth`, where `⊤` is `Infinity`. -/
def depthReached (depth : ℕ) : WithTop ℤ → Bool
  | none => false
  | some maxDepth => maxDepth ≤ depth

/-- The body of `while (queue.length > 0)`. -/
def explore (adj : Adjacency) (target : JsString) (maxDepth : WithTop ℤ) (bestTrust : ℚ) (entry : QueueEntry) :
    ℚ × List QueueEntry :=
  if depthReached entry.depth maxDepth then (bestTrust, [])
  else (neighbors adj entry.node).foldl (visitNeighbor target entry) (bestTrust, [])

/-! ### The loop ends -/

/-- The pods that some edge leads to. -/
def adjacent (adj : Adjacency) : List JsString := adj.values.flatMap (nodes ·)

/-- A bound on the number of neighbors. -/
def degree (adj : Adjacency) : ℕ := (adj.values.map List.length).sum

def unvisited (adj : Adjacency) (entry : QueueEntry) : ℕ := ((adjacent adj).filter (· ∉ entry.visited)).length

def entryWeight (adj : Adjacency) (entry : QueueEntry) : ℕ := (degree adj + 1) ^ unvisited adj entry

theorem neighbors_eq (adj : Adjacency) (node : JsString) :
    neighbors adj node = [] ∨ neighbors adj node ∈ adj.values := by
  unfold neighbors
  cases h : adj.get? node with
  | none => exact Or.inl rfl
  | some ns => exact Or.inr (List.mem_map.mpr ⟨(node, ns), JsMap.mem_entries_iff.mpr h, rfl⟩)

theorem length_neighbors_le (adj : Adjacency) (node : JsString) : (neighbors adj node).length ≤ degree adj := by
  obtain h | h := neighbors_eq adj node
  · rw [h]
    exact Nat.zero_le _
  · exact List.le_sum_of_mem (List.mem_map_of_mem h)

theorem mem_adjacent {adj : Adjacency} {node : JsString} {n : JsString × ℚ} (hn : n ∈ neighbors adj node) :
    n.1 ∈ adjacent adj := by
  obtain h | h := neighbors_eq adj node
  · rw [h] at hn
    exact absurd hn List.not_mem_nil
  · exact List.mem_flatMap.mpr ⟨_, h, List.mem_map_of_mem hn⟩

/-- From `acc` to `acc'` the neighbors `ns` of an entry were visited. -/
structure Visited (target : JsString) (entry : QueueEntry) (ns : List (JsString × ℚ)) (acc acc' : ℚ × List QueueEntry) :
    Prop where
  best_le : acc.1 ≤ acc'.1
  best_from : acc'.1 = acc.1 ∨ ∃ n ∈ ns, n.1 ∉ entry.visited ∧ n.1 = target ∧ acc'.1 = entry.trust * n.2
  kept : ∀ q ∈ acc.2, q ∈ acc'.2
  queue_from : ∀ q ∈ acc'.2, q ∈ acc.2 ∨ ∃ n ∈ ns, n.1 ∉ entry.visited ∧ n.1 ≠ target ∧ q = entry.next n
  met : ∀ n ∈ ns, n.1 ∉ entry.visited → entry.trust * n.2 ≤ acc'.1 ∨ n.1 ≠ target ∧ entry.next n ∈ acc'.2
  length_le : acc'.2.length ≤ acc.2.length + ns.length

theorem visited_one (target : JsString) (entry : QueueEntry) (acc : ℚ × List QueueEntry) (n : JsString × ℚ) :
    Visited target entry [n] acc (visitNeighbor target entry acc n) := by
  unfold visitNeighbor
  split_ifs with hseen htarget hbetter
  · refine ⟨le_rfl, Or.inl rfl, fun q hq => hq, fun q hq => Or.inl hq, fun m hm hno => ?_, by simp⟩
    rw [List.mem_singleton.mp hm] at hno
    exact absurd hseen hno
  · refine ⟨le_max_left _ _, ?_, fun q hq => hq, fun q hq => Or.inl hq, fun m hm _ => ?_, by simp⟩
    · obtain h | h := max_choice acc.1 (entry.trust * n.2)
      · exact Or.inl h
      · exact Or.inr ⟨n, List.mem_singleton_self n, hseen, htarget, h⟩
    · rw [List.mem_singleton.mp hm]
      exact Or.inl (le_max_right _ _)
  · refine ⟨le_rfl, Or.inl rfl, fun q hq => List.mem_append_left _ hq, fun q hq => ?_, fun m hm _ => ?_, by simp⟩
    · rcases List.mem_append.mp hq with hq | hq
      · exact Or.inl hq
      · exact Or.inr ⟨n, List.mem_singleton_self n, hseen, htarget, List.mem_singleton.mp hq⟩
    · rw [List.mem_singleton.mp hm]
      exact Or.inr ⟨htarget, List.mem_append_right _ (List.mem_singleton_self _)⟩
  · refine ⟨le_rfl, Or.inl rfl, fun q hq => hq, fun q hq => Or.inl hq, fun m hm _ => ?_, by simp⟩
    rw [List.mem_singleton.mp hm]
    exact Or.inl (not_lt.mp hbetter)

theorem Visited.append {target : JsString} {entry : QueueEntry} {ns ns' : List (JsString × ℚ)}
    {acc acc' acc'' : ℚ × List QueueEntry} (h : Visited target entry ns acc acc')
    (h' : Visited target entry ns' acc' acc'') : Visited target entry (ns ++ ns') acc acc'' where
  best_le := h.best_le.trans h'.best_le
  best_from := by
    obtain he' | ⟨n, hn, hrest⟩ := h'.best_from
    · obtain he | ⟨n, hn, hno, ht, he⟩ := h.best_from
      · exact Or.inl (he'.trans he)
      · exact Or.inr ⟨n, List.mem_append_left _ hn, hno, ht, he'.trans he⟩
    · exact Or.inr ⟨n, List.mem_append_right _ hn, hrest⟩
  kept q hq := h'.kept q (h.kept q hq)
  queue_from q hq := by
    obtain hq | ⟨n, hn, hrest⟩ := h'.queue_from q hq
    · obtain hq | ⟨n, hn, hrest⟩ := h.queue_from q hq
      · exact Or.inl hq
      · exact Or.inr ⟨n, List.mem_append_left _ hn, hrest⟩
    · exact Or.inr ⟨n, List.mem_append_right _ hn, hrest⟩
  met n hn hno := by
    rcases List.mem_append.mp hn with hn | hn
    · obtain hle | ⟨ht, hmem⟩ := h.met n hn hno
      · exact Or.inl (hle.trans h'.best_le)
      · exact Or.inr ⟨ht, h'.kept _ hmem⟩
    · exact h'.met n hn hno
  length_le := by
    have h₁ := h.length_le
    have h₂ := h'.length_le
    rw [List.length_append]
    omega

theorem visited_foldl (target : JsString) (entry : QueueEntry) (ns : List (JsString × ℚ)) (acc : ℚ × List QueueEntry) :
    Visited target entry ns acc (ns.foldl (visitNeighbor target entry) acc) := by
  induction ns generalizing acc with
  | nil =>
      exact ⟨le_rfl, Or.inl rfl, fun q hq => hq, fun q hq => Or.inl hq, fun n hn => absurd hn List.not_mem_nil, le_rfl⟩
  | cons n ns ih => exact (visited_one target entry acc n).append (ih _)

/-- An entry weighs more than the entries that go on from it: each of them has one pod less to meet. -/
theorem explore_shrinks (adj : Adjacency) (target : JsString) (maxDepth : WithTop ℤ) :
    Shrinks (explore adj target maxDepth) (entryWeight adj) := by
  intro bestTrust entry
  unfold explore
  split_ifs with hdepth
  · exact Nat.pow_pos (Nat.succ_pos _)
  · have h := visited_foldl target entry (neighbors adj entry.node) (bestTrust, [])
    generalize (neighbors adj entry.node).foldl (visitNeighbor target entry) (bestTrust, []) = acc at h
    have hfrom : ∀ q ∈ acc.2, ∃ n ∈ neighbors adj entry.node, n.1 ∉ entry.visited ∧ q = entry.next n := by
      intro q hq
      obtain hq | ⟨n, hn, hno, -, rfl⟩ := h.queue_from q hq
      · exact absurd hq List.not_mem_nil
      · exact ⟨n, hn, hno, rfl⟩
    have hlt : ∀ q ∈ acc.2, unvisited adj q < unvisited adj entry := by
      intro q hq
      obtain ⟨n, hn, hno, rfl⟩ := hfrom q hq
      have hsub : (adjacent adj).filter (· ∉ (entry.next n).visited) =
          ((adjacent adj).filter (· ∉ entry.visited)).filter (· ≠ n.1) := by
        rw [List.filter_filter]
        refine List.filter_congr fun x _ => ?_
        simp [QueueEntry.next, not_or, and_comm]
      unfold unvisited
      rw [hsub]
      refine List.length_filter_lt_length_iff_exists.mpr ⟨n.1, ?_, by simp⟩
      exact List.mem_filter.mpr ⟨mem_adjacent hn, by simpa using hno⟩
    have hlength : acc.2.length ≤ degree adj := by
      have hle := h.length_le
      have hneighbors := length_neighbors_le adj entry.node
      rw [List.length_nil, Nat.zero_add] at hle
      exact hle.trans hneighbors
    cases hr : unvisited adj entry with
    | zero =>
        have hnil : acc.2 = [] := List.eq_nil_iff_forall_not_mem.mpr fun q hq => by
          have := hlt q hq
          omega
        rw [hnil]
        exact Nat.pow_pos (Nat.succ_pos _)
    | succ r =>
        have hsum : (acc.2.map (entryWeight adj)).sum ≤ acc.2.length * (degree adj + 1) ^ r := by
          have hle := List.sum_le_card_nsmul (acc.2.map (entryWeight adj)) ((degree adj + 1) ^ r) fun x hx => by
            obtain ⟨q, hq, rfl⟩ := List.mem_map.mp hx
            have hq := hlt q hq
            exact Nat.pow_le_pow_right (Nat.succ_pos _) (by omega)
          rwa [List.length_map, smul_eq_mul] at hle
        calc (acc.2.map (entryWeight adj)).sum ≤ acc.2.length * (degree adj + 1) ^ r := hsum
          _ ≤ degree adj * (degree adj + 1) ^ r := Nat.mul_le_mul_right _ hlength
          _ < (degree adj + 1) * (degree adj + 1) ^ r :=
              Nat.mul_lt_mul_of_pos_right (Nat.lt_succ_self _) (Nat.pow_pos (Nat.succ_pos _))
          _ = entryWeight adj entry := by rw [entryWeight, hr, pow_succ, mul_comm]

/-- `computeTransitiveTrust(edges, source, target, maxDepth)`. -/
def computeTransitiveTrust (edges : List TrustEdge) (source target : JsString) (maxDepth : WithTop ℤ) : ℚ :=
  if source = target then 1
  else drain (explore_shrinks (adjacency edges) target maxDepth) [⟨source, 1, 0, JsSet.empty.add source⟩] 0

/-! ### The search -/

/-- A path of `n` edges is short enough. -/
def Within (n : ℕ) (maxDepth : WithTop ℤ) : Prop := ((n : ℤ) : WithTop ℤ) ≤ maxDepth

theorem within_succ_iff {depth : ℕ} {maxDepth : WithTop ℤ} :
    Within (depth + 1) maxDepth ↔ ¬ depthReached depth maxDepth := by
  unfold Within
  cases maxDepth with
  | top => exact iff_of_true le_top (by rintro ⟨⟩)
  | coe n =>
      have hreached : depthReached depth ((n : ℤ) : WithTop ℤ) = decide (n ≤ (depth : ℤ)) := rfl
      rw [hreached, decide_eq_true_iff, WithTop.coe_le_coe]
      push_cast
      omega

theorem Within.mono {m n : ℕ} {maxDepth : WithTop ℤ} (h : Within n maxDepth) (hle : m ≤ n) : Within m maxDepth :=
  le_trans (WithTop.coe_le_coe.mpr (Int.ofNat_le.mpr hle)) h

section search
variable (succ : JsString → List (JsString × ℚ)) (source target : JsString) (maxDepth : WithTop ℤ)

/-- A path that the search may find. -/
structure Candidate (w : List (JsString × ℚ)) : Prop where
  walk : IsWalk succ source target w
  nodup : (source :: nodes w).Nodup
  within : Within w.length maxDepth

/-- An entry of the queue stands for a path that has not met the target. -/
def Partial (q : QueueEntry) : Prop :=
  ∃ w, IsWalk succ source q.node w ∧ (source :: nodes w).Nodup ∧ gain w = q.trust ∧ w.length = q.depth ∧
    (∀ x, x ∈ q.visited ↔ x ∈ source :: nodes w) ∧ q.node ≠ target

/-- The path that an entry stands for goes on to the target by `rest`, with a product of at least `x`. -/
structure Continues (q : QueueEntry) (rest : List (JsString × ℚ)) (x : ℚ) : Prop where
  walk : IsWalk succ q.node target rest
  nodup : (nodes rest).Nodup
  fresh : ∀ y ∈ nodes rest, y ∉ q.visited
  within : Within (q.depth + rest.length) maxDepth
  le : x ≤ q.trust * gain rest

structure Searching (queue : List QueueEntry) (bestTrust : ℚ) : Prop where
  nonneg : 0 ≤ bestTrust
  attained : bestTrust = 0 ∨ ∃ w, Candidate succ source target maxDepth w ∧ gain w = bestTrust
  partials : ∀ q ∈ queue, Partial succ source target q
  complete : ∀ w, Candidate succ source target maxDepth w →
    gain w ≤ bestTrust ∨ ∃ q ∈ queue, ∃ rest, Continues succ target maxDepth q rest (gain w)

variable {succ source target maxDepth}

theorem shares_of_walk (hsucc : ∀ node, ∀ n ∈ succ node, 0 ≤ n.2 ∧ n.2 ≤ 1) {a b : JsString} {w : List (JsString × ℚ)}
    (h : IsWalk succ a b w) : Shares w := by
  induction w generalizing a with
  | nil => exact fun n hn => absurd hn List.not_mem_nil
  | cons n w ih =>
      rintro m (_ | ⟨_, hm⟩)
      · exact hsucc a _ h.1
      · exact ih h.2 m hm

variable {q : QueueEntry}

theorem Partial.trust_nonneg (hsucc : ∀ node, ∀ n ∈ succ node, 0 ≤ n.2 ∧ n.2 ≤ 1)
    (h : Partial succ source target q) : 0 ≤ q.trust := by
  obtain ⟨w, hwalk, -, hgain, -⟩ := h
  rw [← hgain]
  exact gain_nonneg (shares_of_walk hsucc hwalk)

theorem Partial.next (h : Partial succ source target q) {n : JsString × ℚ} (hn : n ∈ succ q.node)
    (hno : n.1 ∉ q.visited) (htarget : n.1 ≠ target) : Partial succ source target (q.next n) := by
  obtain ⟨w, hwalk, hnodup, hgain, hlength, hvisited, -⟩ := h
  have hsnoc : source :: nodes (w ++ [n]) = (source :: nodes w) ++ [n.1] := by
    rw [nodes_snoc, List.cons_append]
  refine ⟨w ++ [n], hwalk.snoc hn, ?_, ?_, ?_, fun x => ?_, htarget⟩
  · rw [hsnoc, ← List.concat_eq_append]
    exact List.Nodup.concat (mt (hvisited n.1).mpr hno) hnodup
  · rw [gain_snoc, hgain]
    rfl
  · rw [List.length_append, hlength]
    rfl
  · rw [hsnoc, List.mem_append, List.mem_singleton, ← hvisited]
    exact JsSet.mem_add

/-- A path is completed when its next step leads to the target. -/
theorem Partial.candidate (h : Partial succ source target q) {n : JsString × ℚ} (hn : n ∈ succ q.node)
    (hno : n.1 ∉ q.visited) (htarget : n.1 = target) (hdepth : Within (q.depth + 1) maxDepth) :
    ∃ w, Candidate succ source target maxDepth w ∧ gain w = q.trust * n.2 := by
  obtain ⟨w, hwalk, hnodup, hgain, hlength, hvisited, -⟩ := h
  refine ⟨w ++ [n], ⟨htarget ▸ hwalk.snoc hn, ?_, ?_⟩, by rw [gain_snoc, hgain]⟩
  · rw [nodes_snoc, ← List.cons_append, ← List.concat_eq_append]
    exact List.Nodup.concat (mt (hvisited n.1).mpr hno) hnodup
  · rw [List.length_append, hlength]
    exact hdepth

end search

/-- **A turn of the loop.** -/
theorem Searching.explore {adj : Adjacency} (hadj : ∀ node, ∀ n ∈ neighbors adj node, 0 ≤ n.2 ∧ n.2 ≤ 1)
    {source target : JsString} {maxDepth : WithTop ℤ} {q : QueueEntry} {queue : List QueueEntry} {bestTrust : ℚ}
    (h : Searching (neighbors adj) source target maxDepth (q :: queue) bestTrust) :
    Searching (neighbors adj) source target maxDepth (queue ++ (explore adj target maxDepth bestTrust q).2)
      (explore adj target maxDepth bestTrust q).1 := by
  have hq := h.partials q List.mem_cons_self
  have htrust := hq.trust_nonneg hadj
  unfold Primitives.explore
  split_ifs with hdepth
  · -- too deep: no continuation is short enough
    rw [List.append_nil]
    refine ⟨h.nonneg, h.attained, fun q' hq' => h.partials q' (List.mem_cons_of_mem _ hq'), fun w hw => ?_⟩
    obtain hle | ⟨q', hq', rest, hrest⟩ := h.complete w hw
    · exact Or.inl hle
    · rcases List.mem_cons.mp hq' with rfl | hq'
      · obtain ⟨_, _, _, _, _, _, hne⟩ := hq
        cases rest with
        | nil => exact absurd hrest.walk hne
        | cons n rest =>
            refine absurd hdepth (within_succ_iff.mp (hrest.within.mono ?_))
            rw [List.length_cons]
            omega
      · exact Or.inr ⟨q', hq', rest, hrest⟩
  · have hwithin := within_succ_iff.mpr hdepth
    have hv := visited_foldl target q (neighbors adj q.node) (bestTrust, [])
    generalize (neighbors adj q.node).foldl (visitNeighbor target q) (bestTrust, []) = acc at hv
    refine ⟨h.nonneg.trans hv.best_le, ?_, fun q' hq' => ?_, fun w hw => ?_⟩
    · obtain he | ⟨n, hn, hno, htarget, he⟩ := hv.best_from
      · rw [he]
        exact h.attained
      · rw [he]
        exact Or.inr (hq.candidate hn hno htarget hwithin)
    · rcases List.mem_append.mp hq' with hq' | hq'
      · exact h.partials q' (List.mem_cons_of_mem _ hq')
      · obtain hq' | ⟨n, hn, hno, htarget, rfl⟩ := hv.queue_from q' hq'
        · exact absurd hq' List.not_mem_nil
        · exact hq.next hn hno htarget
    · obtain hle | ⟨q', hq', rest, hrest⟩ := h.complete w hw
      · exact Or.inl (hle.trans hv.best_le)
      · rcases List.mem_cons.mp hq' with rfl | hq'
        · obtain ⟨_, _, _, _, _, _, hne⟩ := hq
          cases rest with
          | nil => exact absurd hrest.walk hne
          | cons n rest =>
              have hno : n.1 ∉ q'.visited := hrest.fresh n.1 List.mem_cons_self
              have hle := hrest.le
              rw [gain_cons, ← mul_assoc] at hle
              obtain hbest | ⟨-, hmem⟩ := hv.met n hrest.walk.1 hno
              · -- whatever follows, the product is not above the one so far
                have hstep : 0 ≤ q'.trust * n.2 := mul_nonneg htrust (hadj _ n hrest.walk.1).1
                have hone : gain rest ≤ 1 := gain_le_one (shares_of_walk hadj hrest.walk.2)
                exact Or.inl ((hle.trans (mul_le_of_le_one_right hstep hone)).trans hbest)
              · refine Or.inr ⟨q'.next n, List.mem_append_right _ hmem, rest, hrest.walk.2, ?_, ?_, ?_, hle⟩
                · exact (List.nodup_cons.mp hrest.nodup).2
                · intro y hy hin
                  obtain hin | rfl := JsSet.mem_add.mp hin
                  · exact hrest.fresh y (List.mem_cons_of_mem _ hy) hin
                  · exact (List.nodup_cons.mp hrest.nodup).1 hy
                · have hlength : (q'.next n).depth + rest.length = q'.depth + (n :: rest).length := by
                    rw [List.length_cons]
                    change q'.depth + 1 + rest.length = _
                    omega
                  rw [hlength]
                  exact hrest.within
        · exact Or.inr ⟨q', List.mem_append_left _ hq', rest, hrest⟩

theorem searching_init {succ : JsString → List (JsString × ℚ)} {source target : JsString} (hne : source ≠ target)
    (maxDepth : WithTop ℤ) :
    Searching succ source target maxDepth [⟨source, 1, 0, JsSet.empty.add source⟩] 0 where
  nonneg := le_rfl
  attained := Or.inl rfl
  partials q hq := by
    rw [List.mem_singleton.mp hq]
    refine ⟨[], rfl, List.nodup_singleton _, gain_nil, rfl, fun x => ?_, hne⟩
    rw [JsSet.mem_add]
    simp [nodes]
  complete w hw := by
    refine Or.inr ⟨_, List.mem_singleton_self _, w, hw.walk, (List.nodup_cons.mp hw.nodup).2, fun y hy hin => ?_, ?_, ?_⟩
    · rw [JsSet.mem_add] at hin
      obtain hin | rfl := hin
      · exact JsSet.not_mem_empty y hin
      · exact (List.nodup_cons.mp hw.nodup).1 hy
    · rw [Nat.zero_add]
      exact hw.within
    · rw [one_mul]

/-! ### Paths -/

/-- The edges lead from one pod to another. -/
def IsPath (edges : List TrustEdge) : JsString → JsString → List TrustEdge → Prop
  | a, b, [] => a = b
  | a, b, e :: p => e ∈ edges ∧ e.truster = a ∧ IsPath edges e.trustee b p

def pathTrust (p : List TrustEdge) : ℚ := (p.map TrustEdge.value).prod

def TrustEdge.hop (e : TrustEdge) : JsString × ℚ := (e.trustee, e.value)

/-- The steps along all edges from a pod, those of level zero included. -/
def outgoing (edges : List TrustEdge) (a : JsString) : List (JsString × ℚ) :=
  (edges.filter fun e => e.truster = a).map TrustEdge.hop

variable {edges : List TrustEdge} {a : JsString}

theorem mem_outgoing {n : JsString × ℚ} :
    n ∈ outgoing edges a ↔ ∃ e ∈ edges, e.truster = a ∧ e.hop = n := by
  simp only [outgoing, List.mem_map, List.mem_filter, decide_eq_true_eq, and_assoc]

variable {b : JsString}

theorem IsPath.walk {p : List TrustEdge} (h : IsPath edges a b p) :
    IsWalk (outgoing edges) a b (p.map TrustEdge.hop) := by
  induction p generalizing a with
  | nil => exact h
  | cons e p ih => exact ⟨mem_outgoing.mpr ⟨e, h.1, h.2.1, rfl⟩, ih h.2.2⟩

variable {w : List (JsString × ℚ)}

theorem exists_path (h : IsWalk (outgoing edges) a b w) : ∃ p, IsPath edges a b p ∧ p.map TrustEdge.hop = w := by
  induction w generalizing a with
  | nil => exact ⟨[], h, rfl⟩
  | cons n w ih =>
      obtain ⟨e, he, hfrom, rfl⟩ := mem_outgoing.mp h.1
      obtain ⟨p, hp, hw⟩ := ih h.2
      exact ⟨e :: p, ⟨he, hfrom, hp⟩, by rw [List.map_cons, hw]⟩

theorem gain_hops (p : List TrustEdge) : gain (p.map TrustEdge.hop) = pathTrust p := by
  rw [gain, pathTrust, List.map_map]
  rfl

theorem nodes_hops (p : List TrustEdge) : nodes (p.map TrustEdge.hop) = p.map TrustEdge.trustee := by
  rw [nodes, List.map_map]
  rfl

theorem neighbors_addNeighbor (adj : Adjacency) (e : TrustEdge) (a : JsString) :
    neighbors (addNeighbor adj e) a = neighbors adj a ++ (outgoing [e] a).filter fun n => 0 < n.2 := by
  unfold addNeighbor
  by_cases ha : e.truster = a
  · subst ha
    split_ifs with hv
    · simp [outgoing, TrustEdge.hop, not_lt.mpr hv]
    · simp [outgoing, TrustEdge.hop, not_le.mp hv, neighbors]
  · split_ifs with hv
    · simp [outgoing, ha]
    · simp [outgoing, ha, neighbors, Ne.symm ha]

/-- The neighbors are reached along the edges whose level is not zero, in their order. -/
theorem neighbors_adjacency (edges : List TrustEdge) (a : JsString) :
    neighbors (adjacency edges) a = (outgoing edges a).filter fun n => 0 < n.2 := by
  have hfold : ∀ adj : Adjacency, neighbors (edges.foldl addNeighbor adj) a =
      neighbors adj a ++ (outgoing edges a).filter fun n => 0 < n.2 := by
    induction edges with
    | nil =>
        intro adj
        exact (List.append_nil _).symm
    | cons e edges ih =>
        intro adj
        have hcons : outgoing (e :: edges) a = outgoing [e] a ++ outgoing edges a := by
          rw [outgoing, outgoing, outgoing, ← List.map_append, ← List.filter_append, List.singleton_append]
        rw [List.foldl_cons, ih, neighbors_addNeighbor, hcons, List.filter_append, List.append_assoc]
  exact hfold JsMap.empty

/-- The levels lie between zero and one. -/
def LevelsBounded (edges : List TrustEdge) : Prop := ∀ e ∈ edges, 0 ≤ e.value ∧ e.value ≤ 1

theorem outgoing_bounded (h : LevelsBounded edges) (a : JsString) :
    ∀ n ∈ outgoing edges a, 0 ≤ n.2 ∧ n.2 ≤ 1 := by
  intro n hn
  obtain ⟨e, he, -, rfl⟩ := mem_outgoing.mp hn
  exact h e he

theorem neighbors_bounded (h : LevelsBounded edges) (a : JsString) :
    ∀ n ∈ neighbors (adjacency edges) a, 0 ≤ n.2 ∧ n.2 ≤ 1 := by
  intro n hn
  rw [neighbors_adjacency] at hn
  exact outgoing_bounded h a n (List.mem_filter.mp hn).1

theorem walk_of_neighbors (h : IsWalk (neighbors (adjacency edges)) a b w) : IsWalk (outgoing edges) a b w := by
  induction w generalizing a with
  | nil => exact h
  | cons n w ih =>
      have hn := h.1
      rw [neighbors_adjacency] at hn
      exact ⟨(List.mem_filter.mp hn).1, ih h.2⟩

/-- A path whose product is not zero has no edge of level zero. -/
theorem walk_of_outgoing (hshares : Shares w) (h : IsWalk (outgoing edges) a b w) (hgain : 0 < gain w) :
    IsWalk (neighbors (adjacency edges)) a b w := by
  induction w generalizing a with
  | nil => exact h
  | cons n w ih =>
      rw [gain_cons] at hgain
      have hn : 0 < n.2 := pos_of_mul_pos_left hgain (gain_nonneg hshares.tail)
      refine ⟨?_, ih hshares.tail h.2 (pos_of_mul_pos_right hgain hn.le)⟩
      rw [neighbors_adjacency]
      exact List.mem_filter.mpr ⟨h.1, decide_eq_true hn⟩

/-- No path of the given length gains more, and a path that meets no pod twice gains as much, if there is any path. -/
structure MaximalTrust (edges : List TrustEdge) (source target : JsString) (maxDepth : WithTop ℤ) (trust : ℚ) : Prop where
  le : ∀ p, IsPath edges source target p → Within p.length maxDepth → pathTrust p ≤ trust
  attained : (∃ p, IsPath edges source target p ∧ Within p.length maxDepth ∧
      (source :: p.map TrustEdge.trustee).Nodup ∧ pathTrust p = trust) ∨
    (∀ p, IsPath edges source target p → ¬ Within p.length maxDepth) ∧ trust = 0

theorem searching_result (hlevels : LevelsBounded edges) {source target : JsString}
    (hne : source ≠ target) (maxDepth : WithTop ℤ) :
    Searching (neighbors (adjacency edges)) source target maxDepth []
      (computeTransitiveTrust edges source target maxDepth) := by
  rw [computeTransitiveTrust, if_neg hne]
  exact drain_induct (explore_shrinks (adjacency edges) target maxDepth)
    (fun _ _ _ hI => Searching.explore (neighbors_bounded hlevels) hI) _ _
    (searching_init hne maxDepth)

theorem maximalTrust_of_searching (hlevels : LevelsBounded edges) {source target : JsString}
    {maxDepth : WithTop ℤ} {trust : ℚ} (h : Searching (neighbors (adjacency edges)) source target maxDepth [] trust) :
    MaximalTrust edges source target maxDepth trust := by
  have hsimple : ∀ p, IsPath edges source target p → Within p.length maxDepth →
      ∃ w, IsWalk (outgoing edges) source target w ∧ (source :: nodes w).Nodup ∧ Within w.length maxDepth ∧
        pathTrust p ≤ gain w := by
    intro p hp hwithin
    obtain ⟨w, hsub, hw, hnodup⟩ := hp.walk.exists_simple
    refine ⟨w, hw, hnodup, hwithin.mono ?_, ?_⟩
    · have hlength := hsub.length_le
      rwa [List.length_map] at hlength
    · rw [← gain_hops]
      exact gain_le_of_sublist hsub (shares_of_walk (outgoing_bounded hlevels) hp.walk)
  have hle : ∀ p, IsPath edges source target p → Within p.length maxDepth → pathTrust p ≤ trust := by
    intro p hp hwithin
    obtain ⟨w, hw, hnodup, hlength, hgain⟩ := hsimple p hp hwithin
    refine hgain.trans ?_
    by_cases hpos : 0 < gain w
    · have hwalk := walk_of_outgoing (shares_of_walk (outgoing_bounded hlevels) hw) hw hpos
      obtain hbest | ⟨q, hq, -⟩ := h.complete w ⟨hwalk, hnodup, hlength⟩
      · exact hbest
      · exact absurd hq List.not_mem_nil
    · exact (not_lt.mp hpos).trans h.nonneg
  have hpath : ∀ w, IsWalk (outgoing edges) source target w → (source :: nodes w).Nodup → Within w.length maxDepth →
      ∃ p, IsPath edges source target p ∧ Within p.length maxDepth ∧ (source :: p.map TrustEdge.trustee).Nodup ∧
        pathTrust p = gain w := by
    intro w hw hnodup hlength
    obtain ⟨p, hp, rfl⟩ := exists_path hw
    rw [nodes_hops] at hnodup
    rw [List.length_map] at hlength
    exact ⟨p, hp, hlength, hnodup, (gain_hops p).symm⟩
  refine ⟨hle, ?_⟩
  obtain hzero | ⟨w, hw, hgain⟩ := h.attained
  · by_cases hany : ∃ p, IsPath edges source target p ∧ Within p.length maxDepth
    · -- every path gains nothing
      obtain ⟨p, hp, hwithin⟩ := hany
      obtain ⟨w, hw, hnodup, hlength, -⟩ := hsimple p hp hwithin
      obtain ⟨p', hp', hlength', hnodup', hgain'⟩ := hpath w hw hnodup hlength
      have hnonneg := gain_nonneg (shares_of_walk (outgoing_bounded hlevels) hw)
      have hmax := hle p' hp' hlength'
      exact Or.inl ⟨p', hp', hlength', hnodup', le_antisymm hmax (by rw [hgain', hzero]; exact hnonneg)⟩
    · exact Or.inr ⟨fun p hp hwithin => hany ⟨p, hp, hwithin⟩, hzero⟩
  · obtain ⟨p, hp, hlength, hnodup, hp'⟩ := hpath w (walk_of_neighbors hw.walk) hw.nodup hw.within
    exact Or.inl ⟨p, hp, hlength, hnodup, hp'.trans hgain⟩

/-- **The search is exact.** -/
theorem transitive_trust_exact (edges : List TrustEdge) (hlevels : LevelsBounded edges) (source target : JsString)
    (hne : source ≠ target) (maxDepth : WithTop ℤ) :
    MaximalTrust edges source target maxDepth (computeTransitiveTrust edges source target maxDepth) :=
  maximalTrust_of_searching hlevels (searching_result hlevels hne maxDepth)

/-- A cycle, two edges side by side and an edge of level zero. -/
def smallGraph : List TrustEdge :=
  [⟨js "a", js "b", 1 / 2⟩, ⟨js "a", js "b", 3 / 4⟩, ⟨js "b", js "a", 1⟩, ⟨js "b", js "c", 1 / 2⟩,
    ⟨js "a", js "c", 0⟩]

theorem transitive_trust_small :
    MaximalTrust smallGraph (js "a") (js "c") ((3 : ℤ) : WithTop ℤ) (3 / 8) := by
  have h := transitive_trust_exact smallGraph (by unfold LevelsBounded; decide +kernel) (js "a") (js "c")
    (by decide) ((3 : ℤ) : WithTop ℤ)
  have hvalue : computeTransitiveTrust smallGraph (js "a") (js "c") ((3 : ℤ) : WithTop ℤ) = 3 / 8 := by
    decide +kernel
  rwa [hvalue] at h

end BrowserMesh.Primitives
