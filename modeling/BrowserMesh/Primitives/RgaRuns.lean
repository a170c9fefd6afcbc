import BrowserMesh.Primitives.Rga

/-! # Runs of replicated growable arrays

Replicas with distinct node ids insert, delete and merge.  Merging looks at the heads of two sequences
only, so it is not associative: `[b:1] · [c:1] · [d:1, b:1]` depends on the grouping when `d:1` was put
in front of `b:1` later (`rga_diverges`).

* `SafeMerge s t`: no node of one side falls, in the order of the ids, between two nodes of the
  other side that come in descending order in the same gap, unless the first of the two was
  there when the second was inserted.
* `rga_converges`: in every run whose merges are safe, states with the same history have the same
  value, and merging is associative.

The order of the nodes is the one of a `Convergent` family of sequences; the tombstones and values
are read off the histories (`Described`). -/

namespace BrowserMesh.Primitives.RGA

open Js Replication Sequence

variable {α : Type}

/-- The updates of an array. -/
inductive Op (α : Type) where
  | insert (index : JsNumber) (value : α)
  | delete (index : JsNumber)
deriving DecidableEq

/-- Perform an update at node `i`; deleting out of bounds throws. -/
def Op.apply (i : JsString) : Op α → RGA α → Option (RGA α)
  | .insert index v, s => some (s.insertAt index v i)
  | .delete index, s => (s.deleteAt index).toOption

def system : System JsString (RGA α) (Op α) where
  init := new
  update i op s := op.apply i s
  merge s t := some (s.merge t)
  silent _ _ := none

/-- A state with its history. -/
abbrev Snap (α : Type) := Snapshot JsString (RGA α) (Op α)

/-- The id an insertion gives to its node. -/
def idOf (e : Event JsString (RGA α) (Op α)) : JsString :=
  tagged e.node (e.before.vclock.get e.node + 1)

/-- The event inserts a node with id `x` and some value. -/
def Inserts (e : Event JsString (RGA α) (Op α)) (x : JsString) : Prop :=
  match e.op with
  | .insert _ _ => idOf e = x
  | .delete _ => False

/-- The event marks the node `x` as deleted. -/
def Deletes (e : Event JsString (RGA α) (Op α)) (x : JsString) : Prop :=
  match e.op with
  | .insert _ _ => False
  | .delete index => ∃ s, e.before.deleteAt index = .ok s ∧ s.Deleted x ∧ ¬ e.before.Deleted x

instance (e : Event JsString (RGA α) (Op α)) (x : JsString) : Decidable (Inserts e x) :=
  match h : e.op with
  | .insert _ _ => decidable_of_iff (idOf e = x) (by simp [Inserts, h])
  | .delete _ => isFalse (by simp [Inserts, h])

/-- `z` was in the sequence when `x` was inserted, according to a history. -/
def Known (hist : List (Event JsString (RGA α) (Op α))) (z x : JsString) : Prop :=
  ∃ e ∈ hist, Inserts e x ∧ z ∈ e.before.ids

instance (hist : List (Event JsString (RGA α) (Op α))) : DecidableRel (Known hist) :=
  fun z x => inferInstanceAs (Decidable (∃ e ∈ hist, Inserts e x ∧ z ∈ e.before.ids))

/-- Merging the two states is safe. -/
def SafeMerge (s t : Snap α) : Prop := Safe (Known (s.hist ++ t.hist)) s.state.ids t.state.ids

instance (s t : Snap α) : Decidable (SafeMerge s t) := inferInstanceAs (Decidable (Safe _ _ _))

/-- Every merge of the run is safe. -/
def SafeStep (w : World JsString (RGA α) (Op α)) : Action JsString (Op α) → Prop
  | .merge i k => ∀ t, w.ever[k]? = some t → SafeMerge (w.cur i) t
  | _ => True

/-- The merge of two states, with the history it incorporates. -/
def joined (s t : Snap α) : Snap α := ⟨s.state.merge t.state, s.hist ++ t.hist⟩

/-! ### States and histories -/

/-- The ids, values and tombstones of a state, read off its history. -/
structure Described (s : Snap α) : Prop where
  fresh : ∀ p n, tagged p n ∈ s.state.ids → n ≤ s.state.vclock.get p
  ids : ∀ x, x ∈ s.state.ids ↔ ∃ e ∈ s.hist, Inserts e x
  value : ∀ n ∈ s.state.nodes, ∃ e ∈ s.hist, idOf e = n.id ∧ ∃ index, e.op = .insert index n.value
  deleted : ∀ x, s.state.Deleted x ↔ ∃ e ∈ s.hist, Deletes e x

/-- What a set of states of one run satisfies. -/
structure Inv (E : Set (Snap α)) : Prop where
  described : ∀ s ∈ E, Described s
  inj : ∀ s ∈ E, ∀ t ∈ E, ∀ e ∈ s.hist, ∀ f ∈ t.hist, ∀ x, Inserts e x → Inserts f x → e = f
  convergent : Convergent (fun z x => ∃ s ∈ E, Known s.hist z x) {l | ∃ s ∈ E, s.state.ids = l}

theorem inserts_of_insert {e : Event JsString (RGA α) (Op α)} {index : JsNumber} {v : α}
    (h : e.op = .insert index v) : Inserts e (idOf e) := by
  simp [Inserts, h]

theorem Inserts.idOf_eq {e : Event JsString (RGA α) (Op α)} {x : JsString} (h : Inserts e x) :
    idOf e = x := by
  unfold Inserts at h
  split at h
  · exact h
  · exact h.elim

theorem described_new : Described (⟨new, []⟩ : Snap α) where
  fresh p n hn := by cases hn
  ids x := by simp [RGA.ids, idsOf, new]
  value n hn := by cases hn
  deleted x := by simp [Deleted, new]

/-- States with the same history are equal up to the clock. -/
theorem Inv.nodes_eq {E : Set (Snap α)} (h : Inv E) {s t : Snap α} (hs : s ∈ E) (ht : t ∈ E)
    (he : SameHistory s t) : s.state.nodes = t.state.nodes := by
  have hds := h.described s hs
  have hdt := h.described t ht
  have hns : s.state.ids.Nodup := h.convergent.nodup _ ⟨s, hs, rfl⟩
  have hnt : t.state.ids.Nodup := h.convergent.nodup _ ⟨t, ht, rfl⟩
  have hids : s.state.ids = t.state.ids := by
    refine h.convergent.eq ⟨s, hs, rfl⟩ ⟨t, ht, rfl⟩ fun x => ?_
    rw [hds.ids, hdt.ids]
    exact exists_congr fun e => and_congr_left fun _ => he e
  -- nodes with the same id are equal
  have hnode : ∀ n ∈ s.state.nodes, ∀ m ∈ t.state.nodes, n.id = m.id → n = m := by
    intro n hn m hm hid
    obtain ⟨e, hes, hidn, i, hop⟩ := hds.value n hn
    obtain ⟨f, hft, hidm, j, hop'⟩ := hdt.value m hm
    have hef : e = f := h.inj s hs t ht e hes f hft _ (inserts_of_insert hop)
      (by rw [hidn, hid, ← hidm]; exact inserts_of_insert hop')
    have hval : n.value = m.value := by
      rw [hef, hop'] at hop
      exact (Op.insert.inj hop).2.symm
    have hdel : n.deleted = m.deleted := by
      have hn' : s.state.Deleted n.id ↔ n.deleted = true := deleted_iff hns hn
      have hm' : t.state.Deleted m.id ↔ m.deleted = true := deleted_iff hnt hm
      rw [Bool.eq_iff_iff, ← hn', ← hm', hds.deleted, hdt.deleted, hid]
      exact exists_congr fun e => and_congr_left fun _ => he e
    cases n; cases m
    simp_all
  have key : ∀ l m : List (RgaNode α), (∀ a ∈ l, ∀ b ∈ m, a.id = b.id → a = b) → idsOf l = idsOf m →
      l = m := by
    intro l
    induction l with
    | nil =>
        intro m _ e
        exact (List.map_eq_nil_iff.mp e.symm).symm
    | cons a l ih =>
        intro m hab e
        cases m with
        | nil => cases e
        | cons b m =>
            obtain ⟨e1, e2⟩ := List.cons.inj e
            rw [hab a List.mem_cons_self b List.mem_cons_self e1, ih m (fun a ha b hb =>
              hab a (List.mem_cons_of_mem _ ha) b (List.mem_cons_of_mem _ hb)) e2]
  exact key _ _ hnode hids

/-! ### Steps -/

/-- Merging safely keeps the invariant. -/
theorem Inv.merge {E : Set (Snap α)} (h : Inv E) {s t : Snap α} (hs : s ∈ E) (ht : t ∈ E)
    (hsafe : SafeMerge s t) : Inv (insert (joined s t) E) := by
  have hds := h.described s hs
  have hdt := h.described t ht
  have hls : s.state.ids ∈ {l | ∃ s ∈ E, s.state.ids = l} := ⟨s, hs, rfl⟩
  have hlt : t.state.ids ∈ {l | ∃ s ∈ E, s.state.ids = l} := ⟨t, ht, rfl⟩
  have hns := h.convergent.nodup _ hls
  have hnt := h.convergent.nodup _ hlt
  have hc := h.convergent.consistent hls hlt
  have hids : (joined s t).state.ids = weave s.state.ids t.state.ids := ids_merge hns hnt hc
  have hmem : ∀ r ∈ insert (joined s t) E, ∀ e ∈ r.hist, ∃ r' ∈ E, e ∈ r'.hist := by
    rintro r (rfl | hr) e he
    · exact (List.mem_append.mp he).elim (fun he => ⟨s, hs, he⟩) fun he => ⟨t, ht, he⟩
    · exact ⟨r, hr, he⟩
  constructor
  · rintro r (rfl | hr)
    · constructor
      · intro p n hm
        rw [hids, mem_weave] at hm
        show n ≤ (s.state.vclock.merge t.state.vclock).get p
        rw [VectorClock.get_merge]
        rcases hm with hm | hm
        · exact le_max_of_le_left (hds.fresh p n hm)
        · exact le_max_of_le_right (hdt.fresh p n hm)
      · intro x
        rw [hids, mem_weave, hds.ids, hdt.ids]
        simp only [joined, List.mem_append, or_and_right, exists_or]
      · intro n hn
        obtain ⟨m, hm, hid, hval⟩ := value_merge hns hnt hc hn
        rw [← hid, ← hval]
        rcases hm with hm | hm
        · obtain ⟨e, he, h'⟩ := hds.value m hm
          exact ⟨e, List.mem_append_left _ he, h'⟩
        · obtain ⟨e, he, h'⟩ := hdt.value m hm
          exact ⟨e, List.mem_append_right _ he, h'⟩
      · intro x
        refine (deleted_merge hns hnt hc x).trans ?_
        rw [hds.deleted, hdt.deleted]
        simp only [joined, List.mem_append, or_and_right, exists_or]
    · exact h.described r hr
  · intro r hr r' hr' e he f hf x hex hfx
    obtain ⟨u, hu, heu⟩ := hmem r hr e he
    obtain ⟨u', hu', hfu⟩ := hmem r' hr' f hf
    exact h.inj u hu u' hu' e heu f hfu x hex hfx
  · have hknown : ∀ z x, (∃ r ∈ insert (joined s t) E, Known r.hist z x) ↔ ∃ r ∈ E, Known r.hist z x := by
      intro z x
      constructor
      · rintro ⟨r, hr, e, he, hk⟩
        obtain ⟨u, hu, heu⟩ := hmem r hr e he
        exact ⟨u, hu, e, heu, hk⟩
      · rintro ⟨r, hr, hk⟩
        exact ⟨r, Set.mem_insert_of_mem _ hr, hk⟩
    have hsafe' : Safe (fun z x => ∃ r ∈ E, Known r.hist z x) s.state.ids t.state.ids := by
      refine hsafe.mono fun z x hk => ?_
      obtain ⟨e, he, hk⟩ := hk
      exact (List.mem_append.mp he).elim (fun he => ⟨s, hs, e, he, hk⟩) fun he => ⟨t, ht, e, he, hk⟩
    have hw := h.convergent.insert_weave hls hlt hsafe'
    refine (hw.congr fun l _ x _ z => hknown z x).mono ?_
    rintro l ⟨r, rfl | hr, rfl⟩
    · exact Or.inl hids
    · exact Or.inr ⟨r, hr, rfl⟩

section commit
variable {w : World JsString (RGA α) (Op α)} {i : JsString}

/-- The id of an insertion is not in any state before. -/
theorem fresh_id (hc : System.Causal w) (h : Inv {s | s ∈ w.ever}) {s : Snap α} (hs : s ∈ w.ever) :
    tagged i ((w.cur i).state.vclock.get i + 1) ∉ s.state.ids := by
  intro hm
  obtain ⟨e, he, hins⟩ := ((h.described s hs).ids _).mp hm
  obtain ⟨hnode, hnum⟩ := tagged_inj hins.idOf_eq
  have hown := hc.mem_own hs he
  rw [hnode] at hown
  -- the node of the id knew all its insertions
  have hd := h.described _ (hc.cur_mem i)
  have := hd.fresh i _ ((hd.ids _).mpr ⟨e, hown, hins⟩)
  omega

/-- Inserting keeps the invariant. -/
theorem Inv.insert (hc : System.Causal w) (h : Inv {s | s ∈ w.ever}) (index : JsNumber) (v : α) :
    Inv (Insert.insert (⟨(w.cur i).state.insertAt index v i,
      w.event i (.insert index v) :: (w.cur i).hist⟩ : Snap α) {s | s ∈ w.ever}) := by
  set e₀ := w.event i (Op.insert index v) with he₀
  set new : Snap α := ⟨(w.cur i).state.insertAt index v i, e₀ :: (w.cur i).hist⟩ with hnew
  set n₀ := tagged i ((w.cur i).state.vclock.get i + 1) with hn₀
  have hcur := hc.cur_mem i
  have hd := h.described _ hcur
  have hfresh : ∀ s ∈ w.ever, n₀ ∉ s.state.ids := fun s hs => fresh_id hc h hs
  have hid₀ : idOf e₀ = n₀ := rfl
  have hins₀ : ∀ x, Inserts e₀ x ↔ x = n₀ := fun x => eq_comm
  obtain ⟨l, r, hl, hl'⟩ := ids_insertAt (w.cur i).state index v i
  have hmem : ∀ x, x ∈ new.state.ids ↔ x = n₀ ∨ x ∈ (w.cur i).state.ids := by
    intro x
    rw [show new.state.ids = l ++ n₀ :: r from hl', hl]
    simp only [List.mem_append, List.mem_cons]
    tauto
  -- an event of the extended family is old, or the new one
  have hsrc : ∀ s ∈ Insert.insert new {s | s ∈ w.ever}, ∀ e ∈ s.hist,
      e = e₀ ∨ ∃ t ∈ w.ever, e ∈ t.hist := by
    rintro s (rfl | hs) e he
    · exact (List.mem_cons.mp he).imp id fun he => ⟨_, hcur, he⟩
    · exact Or.inr ⟨s, hs, he⟩
  have hold : ∀ {e x}, (∃ t ∈ w.ever, e ∈ t.hist) → Inserts e x → x ≠ n₀ := by
    rintro e x ⟨t, ht, he⟩ hins rfl
    exact hfresh t ht (((h.described t ht).ids _).mpr ⟨e, he, hins⟩)
  constructor
  · rintro s (rfl | hs)
    · constructor
      · intro p n hm
        show n ≤ ((w.cur i).state.vclock.increment i).get p
        rw [VectorClock.get_increment]
        rcases (hmem _).mp hm with e | hm
        · obtain ⟨rfl, rfl⟩ := tagged_inj e
          rw [if_pos rfl]
        · have := hd.fresh p n hm
          split_ifs with hp
          · subst hp; omega
          · exact this
      · intro x
        rw [hmem, hd.ids]
        simp only [hnew, List.mem_cons, exists_eq_or_imp, hins₀]
      · intro n hn
        rcases mem_insertAt.mp hn with hn | rfl
        · obtain ⟨e, he, h'⟩ := hd.value n hn
          exact ⟨e, List.mem_cons_of_mem _ he, h'⟩
        · exact ⟨e₀, List.mem_cons_self, rfl, index, rfl⟩
      · intro x
        have hdel : new.state.Deleted x ↔ (w.cur i).state.Deleted x := by
          constructor
          · rintro ⟨n, hn, hx, hd⟩
            rcases mem_insertAt.mp hn with hn | rfl
            · exact ⟨n, hn, hx, hd⟩
            · cases hd
          · rintro ⟨n, hn, hx⟩
            exact ⟨n, mem_insertAt.mpr (Or.inl hn), hx⟩
        have hnot : ¬ Deletes e₀ x := id
        rw [hdel, hd.deleted]
        simp only [hnew, List.mem_cons, exists_eq_or_imp, hnot, false_or]
    · exact h.described s hs
  · intro s hs t ht e he f hf x hex hfx
    rcases hsrc s hs e he with rfl | hs' <;> rcases hsrc t ht f hf with rfl | ht'
    · rfl
    · exact absurd ((hins₀ x).mp hex) (hold ht' hfx)
    · exact absurd ((hins₀ x).mp hfx) (hold hs' hex)
    · obtain ⟨s', hs', he⟩ := hs'
      obtain ⟨t', ht', hf⟩ := ht'
      exact h.inj s' hs' t' ht' e he f hf x hex hfx
  · have hlF : (w.cur i).state.ids ∈ {l | ∃ s ∈ {s | s ∈ w.ever}, s.state.ids = l} := ⟨_, hcur, rfl⟩
    have hknown : ∀ m ∈ {l | ∃ s ∈ {s | s ∈ w.ever}, s.state.ids = l}, ∀ x ∈ m, ∀ z,
        (∃ s ∈ Insert.insert new {s | s ∈ w.ever}, Known s.hist z x) ↔
          ∃ s ∈ {s | s ∈ w.ever}, Known s.hist z x := by
      rintro m ⟨t, ht, rfl⟩ x hx z
      refine ⟨?_, fun ⟨s, hs, hk⟩ => ⟨s, Set.mem_insert_of_mem _ hs, hk⟩⟩
      rintro ⟨s, hs, e, he, hins, hz⟩
      rcases hsrc s hs e he with rfl | ⟨t', ht', he⟩
      · exact absurd ((hins₀ x).mp hins ▸ hx) (hfresh t ht)
      · exact ⟨t', ht', e, he, hins, hz⟩
    have hsub : (w.cur i).state.ids.Sublist new.state.ids := by
      rw [show new.state.ids = l ++ n₀ :: r from hl', hl]
      exact (List.Sublist.refl l).append (List.sublist_cons_self n₀ r)
    have hnodup : new.state.ids.Nodup := by
      have hn := h.convergent.nodup _ hlF
      have hf := hfresh _ hcur
      rw [hl] at hn hf
      rw [show new.state.ids = l ++ n₀ :: r from hl']
      rw [List.nodup_middle]
      exact List.nodup_cons.mpr ⟨hf, hn⟩
    have hk₀ : ∀ z, (∃ s ∈ Insert.insert new {s | s ∈ w.ever}, Known s.hist z n₀) ↔
        z ∈ (w.cur i).state.ids := by
      intro z
      constructor
      · rintro ⟨s, hs, e, he, hins, hz⟩
        rcases hsrc s hs e he with rfl | ht
        · exact hz
        · exact absurd rfl (hold ht hins)
      · exact fun hz => ⟨new, Or.inl rfl, e₀, List.mem_cons_self, hid₀, hz⟩
    refine ((h.convergent.congr hknown).insert_new hlF ?_ hnodup hsub hmem hk₀).mono ?_
    · rintro m ⟨t, ht, rfl⟩
      exact hfresh t ht
    · rintro m ⟨s, rfl | hs, rfl⟩
      · exact Or.inl rfl
      · exact Or.inr ⟨s, hs, rfl⟩

/-- Deleting keeps the invariant. -/
theorem Inv.delete (hc : System.Causal w) (h : Inv {s | s ∈ w.ever}) {index : JsNumber} {s' : RGA α}
    (hdel : (w.cur i).state.deleteAt index = .ok s') :
    Inv (Insert.insert (⟨s', w.event i (.delete index) :: (w.cur i).hist⟩ : Snap α) {s | s ∈ w.ever}) := by
  set e₀ := w.event i (Op.delete (α := α) index) with he₀
  set new : Snap α := ⟨s', e₀ :: (w.cur i).hist⟩ with hnew
  obtain ⟨hids, hclock, hvalue, hmono⟩ := deleteAt_spec hdel
  have hcur := hc.cur_mem i
  have hd := h.described _ hcur
  have hins₀ : ∀ x, ¬ Inserts e₀ x := fun x => id
  have hdel₀ : ∀ x, Deletes e₀ x ↔ s'.Deleted x ∧ ¬ (w.cur i).state.Deleted x := by
    intro x
    constructor
    · rintro ⟨s, hs, hx⟩
      obtain rfl := Except.ok.inj (hs.symm.trans hdel)
      exact hx
    · exact fun hx => ⟨s', hdel, hx⟩
  have hsrc : ∀ s ∈ Insert.insert new {s | s ∈ w.ever}, ∀ e ∈ s.hist, ∀ x, Inserts e x →
      ∃ t ∈ w.ever, e ∈ t.hist := by
    rintro s (rfl | hs) e he x hx
    · rcases List.mem_cons.mp he with rfl | he
      · exact absurd hx (hins₀ x)
      · exact ⟨_, hcur, he⟩
    · exact ⟨s, hs, he⟩
  constructor
  · rintro s (rfl | hs)
    · constructor
      · intro p n hm
        show n ≤ s'.vclock.get p
        rw [hclock]
        exact hd.fresh p n (hids ▸ hm)
      · intro x
        show x ∈ s'.ids ↔ _
        rw [hids, hd.ids]
        simp only [hnew, List.mem_cons, exists_eq_or_imp, hins₀, false_or]
      · intro n hn
        obtain ⟨m, hm, hid, hval⟩ := hvalue n hn
        obtain ⟨e, he, h'⟩ := hd.value m hm
        exact ⟨e, List.mem_cons_of_mem _ he, hid ▸ hval ▸ h'⟩
      · intro x
        simp only [hnew, List.mem_cons, exists_eq_or_imp, hdel₀, ← hd.deleted]
        have := hmono x
        tauto
    · exact h.described s hs
  · intro s hs t ht e he f hf x hex hfx
    obtain ⟨s', hs', he⟩ := hsrc s hs e he x hex
    obtain ⟨t', ht', hf⟩ := hsrc t ht f hf x hfx
    exact h.inj s' hs' t' ht' e he f hf x hex hfx
  · refine (h.convergent.congr fun m _ x _ z => ?_).mono ?_
    · constructor
      · rintro ⟨s, hs, e, he, hins, hz⟩
        obtain ⟨t, ht, he⟩ := hsrc s hs e he x hins
        exact ⟨t, ht, e, he, hins, hz⟩
      · exact fun ⟨s, hs, hk⟩ => ⟨s, Set.mem_insert_of_mem _ hs, hk⟩
    · rintro m ⟨s, rfl | hs, rfl⟩
      · exact ⟨_, hcur, hids.symm⟩
      · exact ⟨s, hs, rfl⟩

end commit

/-- **Every safe run keeps the invariant.** -/
theorem inv_of_reach {w : World JsString (RGA α) (Op α)} (h : (system (α := α)).Reach SafeStep w) :
    Inv {s | s ∈ w.ever} := by
  have hset : ∀ {l : List (Snap α)} {u : Snap α}, {s | s ∈ l ++ [u]} = Insert.insert u {s | s ∈ l} := by
    intro l u
    ext s
    simp [or_comm]
  induction h with
  | initial =>
      have hs : ∀ s ∈ {s : Snap α | s ∈ (system (α := α)).initial.ever}, s = ⟨new, []⟩ :=
        fun s hs => List.mem_singleton.mp hs
      constructor
      · exact fun s hm => hs s hm ▸ described_new
      · intro s hm t _ e he
        rw [hs s hm] at he
        cases he
      · refine Convergent.of_nil ?_
        rintro l ⟨s, hm, rfl⟩
        rw [hs s hm]
        rfl
  | step hr hok he ih =>
      have hc := hr.causal
      rcases System.step_cases _ he with ⟨i, op, s, rfl, hu, rfl⟩ | ⟨i, k, t, u, rfl, ht, hk, hm, rfl⟩ |
        ⟨i, u, rfl, hs, rfl⟩
      · rw [World.ever_commit, hset]
        cases op with
        | insert index v =>
            obtain rfl := Option.some.inj hu
            exact Inv.insert hc ih index v
        | delete index => exact Inv.delete hc ih (toOption_eq_some hu)
      · rw [World.ever_put, hset]
        obtain rfl := Option.some.inj hm
        exact ih.merge (hc.cur_mem i) ht (hok t hk)
      · cases hs

/-- **Convergence of arrays.**  In every run whose merges are safe, states with the same history have the
same value, and merging is associative on the states ever reached as long as the merges
involved are safe. -/
theorem rga_converges {w : World JsString (RGA α) (Op α)} (h : (system (α := α)).Reach SafeStep w) :
    (∀ s ∈ w.ever, ∀ t ∈ w.ever, SameHistory s t → s.state.value = t.state.value) ∧
    ∀ s ∈ w.ever, ∀ t ∈ w.ever, ∀ u ∈ w.ever, SafeMerge s t → SafeMerge (joined s t) u →
      SafeMerge t u → SafeMerge s (joined t u) →
        ((s.state.merge t.state).merge u.state).value = (s.state.merge (t.state.merge u.state)).value := by
  have hinv := inv_of_reach h
  constructor
  · intro s hs t ht he
    rw [value, value, hinv.nodes_eq hs ht he]
  · intro s hs t ht u hu h1 h2 h3 h4
    set E := {s | s ∈ w.ever}
    -- perform the four merges
    have e1 := hinv.merge hs ht h1
    have e2 := e1.merge (Or.inl rfl) (Or.inr hu) h2
    have e3 := e2.merge (Or.inr (Or.inr ht)) (Or.inr (Or.inr hu)) h3
    have e4 := e3.merge (Or.inr (Or.inr (Or.inr hs))) (Or.inl rfl) h4
    have hnodes := e4.nodes_eq (Or.inr (Or.inr (Or.inl rfl))) (Or.inl rfl) (fun e => by
      simp only [joined, List.mem_append, or_assoc])
    have hnodes : ((s.state.merge t.state).merge u.state).nodes =
        (s.state.merge (t.state.merge u.state)).nodes := hnodes
    rw [value, value, hnodes]

/-- Node `d` puts its value behind the one of `b`; `c` writes concurrently. -/
def appendRun : List (Action JsString (Op ℕ)) :=
  [.update (js "b") (.insert 0 1), .update (js "c") (.insert 0 2), .merge (js "d") 1,
    .update (js "d") (.insert (.ofNat 1) 3), .merge (js "b") 2, .merge (js "b") 4, .merge (js "c") 4]

/-- Node `d` puts its value in front of the one of `b`. -/
def prependRun : List (Action JsString (Op ℕ)) :=
  [.update (js "b") (.insert 0 1), .update (js "c") (.insert 0 2), .merge (js "d") 1,
    .update (js "d") (.insert 0 3), .merge (js "b") 2, .merge (js "b") 4, .merge (js "c") 4]

instance (w : World JsString (RGA α) (Op α)) : ∀ a, Decidable (SafeStep w a)
  | .merge i k => inferInstanceAs (Decidable (∀ t, w.ever[k]? = some t → SafeMerge (w.cur i) t))
  | .update _ _ => isTrue trivial
  | .silent _ => isTrue trivial

theorem rga_converges_appendRun : ∃ w, (system (α := ℕ)).Reach SafeStep w ∧
    ∃ s ∈ w.ever, ∃ t ∈ w.ever, s.hist ≠ t.hist ∧ s.state.value = t.state.value := by
  obtain ⟨w, _, hr, s, hs, t, ht, he, hne⟩ := System.exists_of_run
    (P := fun w => ∃ s ∈ w.ever, ∃ t ∈ w.ever, SameHistory s t ∧ s.hist ≠ t.hist)
    (show (system.run SafeStep system.initial appendRun).any _ = true by decide +kernel)
  exact ⟨w, hr, s, hs, t, ht, hne, (rga_converges hr).1 s hs t ht he⟩

/-- `[b:1] · [c:1] · [d:1, b:1]` is `[d:1, b:1, c:1]` in this order of merging, and `[c:1, d:1, b:1]` when
the last two are merged first. -/
theorem rga_diverges : ¬ ∀ w, (system (α := ℕ)).Reach System.AnyStep w →
    ∀ s ∈ w.ever, ∀ t ∈ w.ever, SameHistory s t → s.state.value = t.state.value := by
  intro hall
  obtain ⟨w, _, hr, s, hs, t, ht, he, hne⟩ := System.exists_of_run
    (P := fun w => ∃ s ∈ w.ever, ∃ t ∈ w.ever, SameHistory s t ∧ s.state.value ≠ t.state.value)
    (show (system.run System.AnyStep system.initial prependRun).any _ = true by decide +kernel)
  exact hne (hall w hr s hs t ht he)

end BrowserMesh.Primitives.RGA
