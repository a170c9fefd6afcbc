import Mathlib

/-! # Replaying a log in a fixed order

* **The fold.**  Entries are sorted by a total preorder and applied to a state one by one.
* **Which entries.**  When the order leaves no choice between two different entries, and an entry applied
  twice in a row acts once, only the set of the entries matters (`foldl_eq_of_mem_iff`).
* **Where an entry stands.**  `foldl_filter_of_inert` drops entries that change nothing where they stand,
  `foldl_admitted` those that a state refuses; `exists_of_foldl` finds the entry that first brought a
  property about. -/

namespace BrowserMesh.Replay

section foldl
variable {σ α : Type} {step : σ → α → σ}

/-- Dropping entries that change nothing where they stand. -/
theorem foldl_filter_of_inert (p : α → Bool) (s : σ) {l : List α}
    (h : ∀ before a after, l = before ++ a :: after → p a = false →
      step ((before.filter p).foldl step s) a = (before.filter p).foldl step s) :
    l.foldl step s = (l.filter p).foldl step s := by
  induction l using List.reverseRecOn with
  | nil => rfl
  | append_singleton l a ih =>
      have hbefore : l.foldl step s = (l.filter p).foldl step s := by
        refine ih fun before b after hl hb => h before b (after ++ [a]) ?_ hb
        rw [hl, List.append_assoc, List.cons_append]
      rw [List.foldl_append, List.foldl_cons, List.foldl_nil, hbefore, List.filter_append]
      cases hpa : p a with
      | true => rw [List.filter_cons_of_pos hpa, List.foldl_append]; rfl
      | false =>
          rw [List.filter_cons_of_neg (by rw [hpa]; decide), List.filter_nil, List.append_nil]
          exact h l a [] rfl hpa

/-- What holds after a fold and not before it was brought about by one of the entries. -/
theorem exists_of_foldl {P : σ → Prop} {s : σ} {l : List α} (hs : ¬ P s) (h : P (l.foldl step s)) :
    ∃ before a after, l = before ++ a :: after ∧ ¬ P (before.foldl step s) ∧
      P (step (before.foldl step s) a) := by
  induction l using List.reverseRecOn with
  | nil => exact absurd h hs
  | append_singleton l a ih =>
      by_cases hl : P (l.foldl step s)
      · obtain ⟨before, b, after, rfl, hbefore, hb⟩ := ih hl
        exact ⟨before, b, after ++ [a], by simp, hbefore, hb⟩
      · rw [List.foldl_append] at h
        exact ⟨l, a, [], rfl, hl, h⟩

/-- The entries that the states of the fold do not refuse. -/
def admitted (step : σ → α → σ) (refuses : σ → α → Bool) : σ → List α → List α
  | _, [] => []
  | s, a :: l =>
      if refuses s a then admitted step refuses (step s a) l else a :: admitted step refuses (step s a) l

/-- Refused entries that change nothing can be left out. -/
theorem foldl_admitted {refuses : σ → α → Bool} (h : ∀ s a, refuses s a = true → step s a = s) (s : σ)
    (l : List α) : (admitted step refuses s l).foldl step s = l.foldl step s := by
  induction l generalizing s with
  | nil => rfl
  | cons a l ih =>
      rw [admitted]
      split_ifs with hrefused
      · have htail := ih (step s a)
        rw [h s a hrefused] at htail ⊢
        rw [htail, List.foldl_cons, h s a hrefused]
      · rw [List.foldl_cons, List.foldl_cons, ih]

end foldl

section order
variable {σ α : Type} {step : σ → α → σ} {le : α → α → Prop}

/-- Applying an entry twice in a row is applying it once. -/
def Idempotent (step : σ → α → σ) : Prop := ∀ s a, step (step s a) a = step s a

/-- The order leaves no choice between two entries of the list. -/
def Decisive (le : α → α → Prop) (l : List α) : Prop := ∀ a ∈ l, ∀ b ∈ l, le a b → le b a → a = b

theorem Decisive.subset {l l' : List α} (h : Decisive le l') (hsub : l ⊆ l') : Decisive le l :=
  fun a ha b hb => h a (hsub ha) b (hsub hb)

variable [DecidableEq α]

/-- In a sorted list the copies of an entry stand next to each other. -/
theorem foldl_dedup (hstep : Idempotent step) {l : List α} (hl : l.Pairwise le) (hd : Decisive le l)
    (s : σ) : l.dedup.foldl step s = l.foldl step s := by
  induction l generalizing s with
  | nil => rfl
  | cons a l ih =>
      obtain ⟨ha, hl⟩ := List.pairwise_cons.mp hl
      have htail := ih hl (hd.subset (List.subset_cons_self a l))
      by_cases hmem : a ∈ l
      · rw [List.dedup_cons_of_mem hmem, htail]
        cases l with
        | nil => cases hmem
        | cons b l =>
            have hba : le b a ∨ b = a := by
              rcases List.mem_cons.mp hmem with rfl | hmem
              · exact Or.inr rfl
              · exact Or.inl ((List.pairwise_cons.mp hl).1 a hmem)
            have hab : a = b := by
              rcases hba with hba | rfl
              · exact hd a List.mem_cons_self b (List.mem_cons_of_mem a List.mem_cons_self)
                  (ha b List.mem_cons_self) hba
              · rfl
            rw [hab, List.foldl_cons, List.foldl_cons, List.foldl_cons, hstep]
      · rw [List.dedup_cons_of_notMem hmem, List.foldl_cons, List.foldl_cons, htail]

theorem foldl_eq_of_mem_iff (hstep : Idempotent step) {l l' : List α} (hl : l.Pairwise le)
    (hl' : l'.Pairwise le) (hd : Decisive le l) (h : ∀ a, a ∈ l ↔ a ∈ l') (s : σ) :
    l.foldl step s = l'.foldl step s := by
  have hd' : Decisive le l' := hd.subset fun a ha => (h a).mpr ha
  have hperm : l.dedup.Perm l'.dedup := by
    rw [List.perm_ext_iff_of_nodup l.nodup_dedup l'.nodup_dedup]
    intro a
    rw [List.mem_dedup, List.mem_dedup, h]
  have heq : l.dedup = l'.dedup := by
    refine hperm.eq_of_pairwise (fun a b ha hb => ?_) (hl.sublist l.dedup_sublist)
      (hl'.sublist l'.dedup_sublist)
    exact hd a (List.mem_dedup.mp ha) b ((h b).mpr (List.mem_dedup.mp hb))
  rw [← foldl_dedup hstep hl hd, ← foldl_dedup hstep hl' hd', heq]

end order

/-! ### Sorting first -/

section replay
variable {σ α : Type} (step : σ → α → σ) (le : α → α → Prop) [DecidableRel le]

/-- Sort the entries and apply them. -/
def replay (s : σ) (l : List α) : σ := (l.insertionSort le).foldl step s

/-- The entries that stand strictly before `a`. -/
def before (l : List α) (a : α) : List α := l.filter fun b => decide (¬ le a b)

variable {step le}
variable {l : List α}

theorem mem_before {a b : α} : b ∈ before le l a ↔ b ∈ l ∧ ¬ le a b := by
  rw [before, List.mem_filter, decide_eq_true_iff]

theorem decisive_insertionSort (hd : Decisive le l) : Decisive le (l.insertionSort le) :=
  hd.subset fun _ ha => (List.mem_insertionSort le).mp ha

variable [DecidableEq α] [Std.Total le] [IsTrans α le]
variable {l' : List α}

/-- The fold of a sorted list is the replay of its members. -/
theorem foldl_eq_replay (hstep : Idempotent step) (hl : l.Pairwise le)
    (hd : Decisive le l) (h : ∀ a, a ∈ l ↔ a ∈ l') (s : σ) : l.foldl step s = replay step le s l' :=
  foldl_eq_of_mem_iff hstep hl (List.pairwise_insertionSort le l') hd
    (fun a => (h a).trans (List.mem_insertionSort le).symm) s

theorem replay_congr (hstep : Idempotent step) (hd : Decisive le l)
    (h : ∀ a, a ∈ l ↔ a ∈ l') (s : σ) : replay step le s l = replay step le s l' :=
  foldl_eq_replay hstep (List.pairwise_insertionSort le l) (decisive_insertionSort hd)
    (fun a => (List.mem_insertionSort le).trans (h a)) s

/-- More entries make no difference if each of them changes nothing after the old ones before it. -/
theorem replay_eq_of_inert (hstep : Idempotent step) (hd : Decisive le l') (s : σ) (hsub : ∀ a ∈ l, a ∈ l')
    (hinert : ∀ a ∈ l', a ∉ l → step (replay step le s (before le l a)) a = replay step le s (before le l a)) :
    replay step le s l' = replay step le s l := by
  have hsorted := List.pairwise_insertionSort le l'
  have hd' := decisive_insertionSort hd
  rw [replay, foldl_filter_of_inert (fun a => decide (a ∈ l)) s]
  · refine foldl_eq_replay hstep (hsorted.sublist List.filter_sublist)
      (hd'.subset (List.filter_sublist.subset)) (fun a => ?_) s
    rw [List.mem_filter, List.mem_insertionSort, decide_eq_true_iff]
    exact ⟨And.right, fun ha => ⟨hsub a ha, ha⟩⟩
  · intro pre a post hsplit ha
    have hnot : a ∉ l := of_decide_eq_false ha
    have hmem : ∀ b, b ∈ l'.insertionSort le ↔ b ∈ pre ∨ b = a ∨ b ∈ post := by simp [hsplit]
    rw [hsplit] at hsorted hd'
    obtain ⟨hpre, hpost, hcross⟩ := List.pairwise_append.mp hsorted
    have hbehind : (pre.filter fun b => decide (b ∈ l)).foldl step s =
        replay step le s (before le l a) := by
      refine foldl_eq_replay hstep (hpre.sublist List.filter_sublist)
        (hd'.subset fun b hb => List.mem_append_left _ (List.mem_of_mem_filter hb)) (fun b => ?_) s
      rw [List.mem_filter, decide_eq_true_iff, mem_before]
      constructor
      · rintro ⟨hb, hbl⟩
        refine ⟨hbl, fun hab => hnot ?_⟩
        have hba := hcross b hb a List.mem_cons_self
        rwa [hd' a (by simp) b (by simp [hb]) hab hba]
      · rintro ⟨hbl, hab⟩
        refine ⟨?_, hbl⟩
        rcases (hmem b).mp ((List.mem_insertionSort le).mpr (hsub b hbl)) with hb | rfl | hb
        · exact hb
        · exact absurd hbl hnot
        · exact absurd ((List.pairwise_cons.mp hpost).1 b hb) hab
    rw [hbehind]
    exact hinert a ((List.mem_insertionSort le).mp ((hmem a).mpr (Or.inr (Or.inl rfl)))) hnot

/-- What a replay brings about is brought about by an entry after those strictly before it. -/
theorem exists_of_replay (hstep : Idempotent step) (hd : Decisive le l) {P : σ → Prop}
    {s : σ} (hs : ¬ P s) (h : P (replay step le s l)) :
    ∃ a ∈ l, ¬ P (replay step le s (before le l a)) ∧
      P (step (replay step le s (before le l a)) a) := by
  have hsorted := List.pairwise_insertionSort le l
  have hd' := decisive_insertionSort hd
  rw [replay, ← foldl_dedup hstep hsorted hd'] at h
  obtain ⟨pre, a, post, hsplit, hbefore, hafter⟩ := exists_of_foldl hs h
  have hnodup := (l.insertionSort le).nodup_dedup
  have hmem : ∀ b, b ∈ l ↔ b ∈ pre ∨ b = a ∨ b ∈ post := by
    intro b
    rw [← List.mem_insertionSort le, ← List.mem_dedup, hsplit]
    simp
  have hsorted' := hsorted.sublist (l.insertionSort le).dedup_sublist
  rw [hsplit] at hsorted' hnodup
  obtain ⟨hpre, hpost, hcross⟩ := List.pairwise_append.mp hsorted'
  have hal : a ∈ l := (hmem a).mpr (Or.inr (Or.inl rfl))
  have hbehind : pre.foldl step s = replay step le s (before le l a) := by
    refine foldl_eq_replay hstep hpre (hd.subset fun b hb => (hmem b).mpr (Or.inl hb)) (fun b => ?_) s
    rw [mem_before]
    constructor
    · intro hb
      have hbl := (hmem b).mpr (Or.inl hb)
      refine ⟨hbl, fun hab => ?_⟩
      have heq := hd a hal b hbl hab (hcross b hb a List.mem_cons_self)
      exact (List.nodup_append.mp hnodup).2.2 b hb a List.mem_cons_self heq.symm
    · rintro ⟨hbl, hab⟩
      rcases (hmem b).mp hbl with hb | rfl | hb
      · exact hb
      · exact absurd (refl_of le b) hab
      · exact absurd ((List.pairwise_cons.mp hpost).1 b hb) hab
  rw [hbehind] at hbefore hafter
  exact ⟨a, hal, hbefore, hafter⟩

/-! ### The last entry decides -/

section last
variable {β : Type} {accepts : σ → α → Prop} {on : α → Prop} {f : σ → Option β} {val : α → β}

omit [DecidableEq α] [Std.Total le] [IsTrans α le] in
/-- In a sorted list without copies, what stands before an entry is the part of the list before it. -/
theorem before_append_cons {l l' : List α} {a : α} (hl : (l ++ a :: l').Pairwise le) (hd : Decisive le (l ++ a :: l'))
    (hn : (l ++ a :: l').Nodup) (hrefl : ∀ b, le b b) : before le (l ++ a :: l') a = l := by
  obtain ⟨-, hright, hcross⟩ := List.pairwise_append.mp hl
  obtain ⟨-, -, hdisjoint⟩ := List.nodup_append.mp hn
  rw [before, List.filter_append]
  have hfirst : l.filter (fun b => decide (¬ le a b)) = l := by
    refine List.filter_eq_self.mpr fun b hb => decide_eq_true fun hab => ?_
    have heq := hd a (by simp) b (by simp [hb]) hab (hcross b hb a List.mem_cons_self)
    exact hdisjoint b hb a List.mem_cons_self heq.symm
  have hrest : (a :: l').filter (fun b => decide (¬ le a b)) = [] := by
    refine List.filter_eq_nil_iff.mpr fun b hb => ?_
    rw [decide_eq_true_iff, not_not]
    rcases List.mem_cons.mp hb with rfl | hb
    · exact hrefl b
    · exact (List.pairwise_cons.mp hright).1 b hb
  rw [hfirst, hrest, List.append_nil]

omit [DecidableEq α] [IsTrans α le] in
/-- Where an accepted entry sets a value, the value at the end is that of the last accepted one. -/
theorem foldl_last (hset : ∀ s a, accepts s a → on a → f (step s a) = some (val a))
    (hkeep : ∀ s a, ¬ (accepts s a ∧ on a) → f (step s a) = f s) {s : σ} (hs : f s = none) {l : List α}
    (hl : l.Pairwise le) (hd : Decisive le l) (hn : l.Nodup) (v : β) :
    f (l.foldl step s) = some v ↔ ∃ a ∈ l, accepts ((before le l a).foldl step s) a ∧ on a ∧ val a = v ∧
      ∀ b ∈ l, accepts ((before le l b).foldl step s) b → on b → le b a := by
  have hrefl : ∀ b : α, le b b := fun b => (Std.Total.total (r := le) b b).elim id id
  induction l using List.reverseRecOn with
  | nil => simp [hs]
  | append_singleton l a ih =>
      obtain ⟨hl', -, hcross⟩ := List.pairwise_append.mp hl
      have hlast : before le (l ++ [a]) a = l := before_append_cons hl hd hn hrefl
      have hsame : ∀ b ∈ l, before le (l ++ [a]) b = before le l b := by
        intro b hb
        rw [before, List.filter_append, List.filter_singleton]
        have hba := hcross b hb a List.mem_cons_self
        simp [before, hba]
      have ih := ih hl' (hd.subset (List.subset_append_left _ _)) (List.nodup_append.mp hn).1
      rw [List.foldl_append, List.foldl_cons, List.foldl_nil]
      by_cases haccepts : accepts (l.foldl step s) a ∧ on a
      · rw [hset _ _ haccepts.1 haccepts.2]
        constructor
        · rintro hv
          refine ⟨a, by simp, by rw [hlast]; exact haccepts.1, haccepts.2, Option.some.inj hv, fun b hb _ _ => ?_⟩
          rcases List.mem_append.mp hb with hb | hb
          · exact hcross b hb a List.mem_cons_self
          · rw [List.mem_singleton.mp hb]
            exact hrefl a
        · rintro ⟨b, hb, -, -, rfl, hgreatest⟩
          have hab : le a b := hgreatest a (by simp) (by rw [hlast]; exact haccepts.1) haccepts.2
          have hba : le b a := by
            rcases List.mem_append.mp hb with hb | hb
            · exact hcross b hb a List.mem_cons_self
            · rw [List.mem_singleton.mp hb]
              exact hrefl a
          rw [hd a (by simp) b hb hab hba]
      · rw [hkeep _ _ haccepts]
        refine ih.trans ?_
        constructor
        · rintro ⟨b, hb, hbaccepts, hbon, hval, hgreatest⟩
          refine ⟨b, List.mem_append_left _ hb, by rwa [hsame b hb], hbon, hval, fun c hc hcaccepts hcon => ?_⟩
          rcases List.mem_append.mp hc with hc | hc
          · exact hgreatest c hc (by rwa [hsame c hc] at hcaccepts) hcon
          · rw [List.mem_singleton.mp hc, hlast] at hcaccepts
            rw [List.mem_singleton.mp hc] at hcon
            exact absurd ⟨hcaccepts, hcon⟩ haccepts
        · rintro ⟨b, hb, hbaccepts, hbon, hval, hgreatest⟩
          have hb' : b ∈ l := by
            rcases List.mem_append.mp hb with hb | hb
            · exact hb
            · rw [List.mem_singleton.mp hb, hlast] at hbaccepts
              rw [List.mem_singleton.mp hb] at hbon
              exact absurd ⟨hbaccepts, hbon⟩ haccepts
          refine ⟨b, hb', by rwa [hsame b hb'] at hbaccepts, hbon, hval, fun c hc hcaccepts hcon => ?_⟩
          exact hgreatest c (List.mem_append_left _ hc) (by rwa [hsame c hc]) hcon

theorem replay_last (hstep : Idempotent step) (hset : ∀ s a, accepts s a → on a → f (step s a) = some (val a))
    (hkeep : ∀ s a, ¬ (accepts s a ∧ on a) → f (step s a) = f s) {s : σ} (hs : f s = none) {l : List α}
    (hd : Decisive le l) (v : β) :
    f (replay step le s l) = some v ↔ ∃ a ∈ l, accepts (replay step le s (before le l a)) a ∧ on a ∧ val a = v ∧
      ∀ b ∈ l, accepts (replay step le s (before le l b)) b → on b → le b a := by
  have hsorted := (List.pairwise_insertionSort le l).sublist (l.insertionSort le).dedup_sublist
  have hmem : ∀ a, a ∈ (l.insertionSort le).dedup ↔ a ∈ l := fun a => List.mem_dedup.trans (List.mem_insertionSort le)
  have hd' : Decisive le (l.insertionSort le).dedup := hd.subset fun a ha => (hmem a).mp ha
  have hbefore : ∀ a, (before le (l.insertionSort le).dedup a).foldl step s = replay step le s (before le l a) := by
    intro a
    refine foldl_eq_replay hstep (hsorted.sublist List.filter_sublist)
      (hd'.subset fun b hb => (mem_before.mp hb).1) (fun b => ?_) s
    rw [List.mem_filter, decide_eq_true_iff, mem_before, hmem]
  rw [replay, ← foldl_dedup hstep (List.pairwise_insertionSort le l) (decisive_insertionSort hd),
    foldl_last hset hkeep hs hsorted hd' (List.nodup_dedup _) v]
  simp only [hmem, hbefore]

end last

end replay
end BrowserMesh.Replay
