import BrowserMesh.Library.Replication

/-! # Last writer wins

States made of stamped cells `Option (S × V)`, one for every key, where

* an update of replica `i` only changes a cell to a greater stamp authored by `i`
  (`Advance`), and
* a merge keeps, for every key, the cell with the greater stamp (`pick`).

Such a system converges although the stamps may repeat or go backwards: a stamp of author `i` that
any state ever carried is at most the stamp the current state of `i` carries
(`Authored`), so a stamp is never written twice, and it determines the value
(`LastWriter.agree`).  With this the stamps are a `Lattice`, and states with the same history have
the same cells (`LastWriter.cells_eq`). -/

namespace BrowserMesh.Replication

variable {ι σ Op K S V : Type} [LinearOrder S]

/-! ### Cells -/

/-- The stamp of a cell, `⊥` for an empty one. -/
def stampOf (c : Option (S × V)) : WithBot S := c.map Prod.fst

/-- The cell with the greater stamp, the first one on a tie. -/
def pick (a b : Option (S × V)) : Option (S × V) := if stampOf a < stampOf b then b else a

/-- Cells with the same stamp are equal. -/
def Agree (a b : Option (S × V)) : Prop := stampOf a = stampOf b → a = b

omit [LinearOrder S] in
@[simp] theorem stampOf_none : stampOf (none : Option (S × V)) = ⊥ := rfl

omit [LinearOrder S] in
@[simp] theorem stampOf_some (c : S × V) : stampOf (some c) = (c.1 : WithBot S) := rfl

@[simp] theorem stampOf_pick (a b : Option (S × V)) : stampOf (pick a b) = stampOf a ⊔ stampOf b := by
  unfold pick
  split_ifs with h
  · rw [sup_eq_right.mpr h.le]
  · rw [sup_eq_left.mpr (not_lt.mp h)]

theorem pick_of_le {a b : Option (S × V)} (h : stampOf b ≤ stampOf a) : pick a b = a :=
  if_neg (not_lt.mpr h)

theorem pick_cases (a b : Option (S × V)) : pick a b = a ∨ pick a b = b := by
  unfold pick
  split_ifs
  · exact Or.inr rfl
  · exact Or.inl rfl

@[simp] theorem pick_self (a : Option (S × V)) : pick a a = a := pick_of_le le_rfl

theorem pick_comm {a b : Option (S × V)} (h : Agree a b) : pick a b = pick b a := by
  rcases lt_trichotomy (stampOf a) (stampOf b) with hlt | heq | hlt
  · rw [pick_of_le hlt.le, pick, if_pos hlt]
  · rw [h heq]
  · rw [pick_of_le hlt.le, pick, if_pos hlt]

theorem pick_assoc (a b c : Option (S × V)) : pick (pick a b) c = pick a (pick b c) := by
  by_cases hab : stampOf a < stampOf b
  · have e : pick a b = b := if_pos hab
    have hlt : stampOf a < stampOf (pick b c) := by
      rw [stampOf_pick]
      exact lt_of_lt_of_le hab le_sup_left
    have e' : pick a (pick b c) = pick b c := if_pos hlt
    rw [e, e']
  · have hba := not_lt.mp hab
    rw [pick_of_le hba]
    by_cases hbc : stampOf b < stampOf c
    · rw [show pick b c = c from if_pos hbc]
    · rw [pick_of_le (not_lt.mp hbc), pick_of_le hba, pick_of_le ((not_lt.mp hbc).trans hba)]

/-! ### Writes -/

/-- Writes of author `i` take the cell `c` to `c'`. -/
def Advance (author : S → ι) (i : ι) (c c' : Option (S × V)) : Prop :=
  c' = c ∨ ∃ st v, c' = some (st, v) ∧ author st = i ∧ stampOf c < st

section advance
variable {author : S → ι} {i : ι} {c c' c'' : Option (S × V)}

theorem Advance.refl : Advance author i c c := Or.inl rfl

theorem Advance.le (h : Advance author i c c') : stampOf c ≤ stampOf c' := by
  rcases h with rfl | ⟨st, v, rfl, _, hlt⟩
  · exact le_rfl
  · exact hlt.le

end advance

/-! ### Systems of cells -/

namespace System
variable [DecidableEq ι] (sys : System ι σ Op)

/-- The states of `sys` are read as cells; updates advance them, merges pick. -/
structure LastWriter (ok : World ι σ Op → Action ι Op → Prop) (Valid : σ → Prop)
    (cells : σ → K → Option (S × V)) (author : S → ι) : Prop where
  init : Valid sys.init
  update : ∀ w i op s, ok w (.update i op) → Valid (w.cur i).state →
    sys.update i op (w.cur i).state = some s →
      Valid s ∧ ∀ k, Advance author i (cells (w.cur i).state k) (cells s k)
  merge : ∀ s t u, Valid s → Valid t → sys.merge s t = some u →
    Valid u ∧ ∀ k, cells u k = pick (cells s k) (cells t k)
  silent : ∀ i s u, Valid s → sys.silent i s = some u → Valid u ∧ ∀ k, cells u k = cells s k

/-- No state carries a stamp of `i` beyond the one the current state of `i` carries. -/
def Authored (cells : σ → K → Option (S × V)) (author : S → ι) (w : World ι σ Op) : Prop :=
  ∀ s ∈ w.ever, ∀ k st v, cells s.state k = some (st, v) →
    (st : WithBot S) ≤ stampOf (cells (w.cur (author st)).state k)

/-- A stamp determines the value. -/
def Agreeing (cells : σ → K → Option (S × V)) (w : World ι σ Op) : Prop :=
  ∀ s ∈ w.ever, ∀ t ∈ w.ever, ∀ k, Agree (cells s.state k) (cells t.state k)

variable {sys} {ok : World ι σ Op → Action ι Op → Prop} {Valid : σ → Prop}
  {cells : σ → K → Option (S × V)} {author : S → ι}

omit [DecidableEq ι] in
/-- The stamps form a lattice: updates advance them and merges join them. -/
theorem LastWriter.lattice (hl : sys.LastWriter ok Valid cells author) :
    sys.Lattice ok Valid (fun s k => stampOf (cells s k)) where
  init := hl.init
  update w i op s hok hv hu :=
    ⟨(hl.update w i op s hok hv hu).1, fun k => ((hl.update w i op s hok hv hu).2 k).le⟩
  merge s t u hs ht hu := by
    obtain ⟨hv, hc⟩ := hl.merge s t u hs ht hu
    refine ⟨hv, funext fun k => ?_⟩
    simp [hc k]
  silent i s u hs hu := by
    obtain ⟨hv, hc⟩ := hl.silent i s u hs hu
    exact ⟨hv, funext fun k => by rw [hc k]⟩

variable {w : World ι σ Op}

/-- A step to a state whose cells are old keeps both invariants. -/
theorem authored_agreeing_put {i : ι} {u : Snapshot ι σ Op}
    (hle : ∀ k, stampOf (cells (w.cur i).state k) ≤ stampOf (cells u.state k))
    (hold : ∀ k, ∃ s ∈ w.ever, cells u.state k = cells s.state k) (h : Authored cells author w ∧ Agreeing cells w) :
    Authored cells author (w.put i u) ∧ Agreeing cells (w.put i u) := by
  obtain ⟨ha, hg⟩ := h
  have hcell : ∀ s ∈ (w.put i u).ever, ∀ k, ∃ s' ∈ w.ever, cells s.state k = cells s'.state k := by
    intro s hs k
    rcases List.mem_append.mp hs with hs | hs
    · exact ⟨s, hs, rfl⟩
    · obtain rfl := List.mem_singleton.mp hs
      exact hold k
  refine ⟨fun s hs k st v hc => ?_, fun s hs t ht k => ?_⟩
  · obtain ⟨s', hs', e⟩ := hcell s hs k
    have hst := ha s' hs' k st v (e ▸ hc)
    by_cases hi : author st = i
    · rw [hi] at hst ⊢
      rw [World.cur_put, Function.update_self]
      exact hst.trans (hle k)
    · rwa [World.cur_put, Function.update_of_ne hi]
  · obtain ⟨s', hs', e⟩ := hcell s hs k
    obtain ⟨t', ht', e'⟩ := hcell t ht k
    rw [e, e']
    exact hg s' hs' t' ht' k

/-- An update writes a stamp that no state carried before. -/
theorem authored_agreeing_commit {i : ι} {op : Op} {s : σ} (hcur : w.cur i ∈ w.ever)
    (hadv : ∀ k, Advance author i (cells (w.cur i).state k) (cells s k))
    (h : Authored cells author w ∧ Agreeing cells w) :
    Authored cells author (w.commit i op s) ∧ Agreeing cells (w.commit i op s) := by
  obtain ⟨ha, hg⟩ := h
  set new : Snapshot ι σ Op := ⟨s, w.event i op :: (w.cur i).hist⟩
  have hmem : ∀ r, r ∈ (w.commit i op s).ever ↔ r ∈ w.ever ∨ r = new := by
    intro r
    rw [World.ever_commit, List.mem_append, List.mem_singleton]
  -- the new cell against a cell of an earlier state
  have hnew : ∀ r ∈ w.ever, ∀ k, Agree (cells s k) (cells r.state k) := by
    intro r hr k heq
    rcases hadv k with e | ⟨st, v, e, hi, hlt⟩
    · rw [e] at heq ⊢
      exact hg _ hcur r hr k heq
    · rw [e, stampOf_some] at heq
      cases hc : cells r.state k with
      | none => rw [hc] at heq; exact absurd heq (WithBot.coe_ne_bot)
      | some c =>
          obtain ⟨st', v'⟩ := c
          rw [hc] at heq
          obtain rfl : st = st' := WithBot.coe_injective heq
          have := ha r hr k st v' hc
          rw [hi] at this
          exact absurd this (not_le.mpr hlt)
  refine ⟨fun r hr k st v hc => ?_, fun r hr t ht k => ?_⟩
  · rw [World.cur_commit]
    rcases (hmem r).mp hr with hr | rfl
    · have hst := ha r hr k st v hc
      by_cases hi : author st = i
      · rw [hi] at hst ⊢
        rw [Function.update_self]
        exact hst.trans (hadv k).le
      · rwa [Function.update_of_ne hi]
    · rcases hadv k with e | ⟨st', v', e, hi, _⟩
      · have hst := ha _ hcur k st v (e.symm.trans hc)
        by_cases hi : author st = i
        · rw [hi] at hst ⊢
          rw [Function.update_self]
          exact hst.trans (hadv k).le
        · rwa [Function.update_of_ne hi]
      · have : st' = st := congrArg Prod.fst (Option.some.inj (e.symm.trans hc))
        rw [← this, hi, Function.update_self]
        exact le_of_eq (congrArg stampOf e).symm
  · rcases (hmem r).mp hr with hr | rfl <;> rcases (hmem t).mp ht with ht | rfl
    · exact hg r hr t ht k
    · exact fun heq => (hnew r hr k heq.symm).symm
    · exact hnew t ht k
    · exact fun _ => rfl

theorem LastWriter.authored_agreeing (hl : sys.LastWriter ok Valid cells author)
    (h : sys.Reach ok w) : Authored cells author w ∧ Agreeing cells w := by
  induction h with
  | initial =>
      refine ⟨fun s hs k st v hc => ?_, fun s hs t ht k _ => ?_⟩
      · rw [List.mem_singleton.mp hs] at hc
        exact le_of_eq (congrArg stampOf hc).symm
      · rw [List.mem_singleton.mp hs, List.mem_singleton.mp ht]
  | step hr hok he ih =>
      have hc := hr.causal
      have hval := fun s hs => (hl.lattice.isLUB hr s hs).1
      rcases sys.step_cases he with ⟨i, op, s, rfl, hu, rfl⟩ | ⟨i, k, t, u, rfl, ht, _, hm, rfl⟩ |
        ⟨i, u, rfl, hs, rfl⟩
      · have hadv := (hl.update _ i op s hok (hval _ (hc.cur_mem i)) hu).2
        exact authored_agreeing_commit (hc.cur_mem i) hadv ih
      · have hpick := (hl.merge _ _ _ (hval _ (hc.cur_mem i)) (hval t ht) hm).2
        refine authored_agreeing_put (fun k => ?_) (fun k => ?_) ih
        · rw [hpick k, stampOf_pick]
          exact le_sup_left
        · rw [hpick k]
          rcases pick_cases (cells (_ : Snapshot ι σ Op).state k) (cells t.state k) with e | e
          · exact ⟨_, hc.cur_mem i, e⟩
          · exact ⟨t, ht, e⟩
      · have hsame := (hl.silent i _ u (hval _ (hc.cur_mem i)) hs).2
        exact authored_agreeing_put (fun k => le_of_eq (congrArg stampOf (hsame k)).symm)
          (fun k => ⟨_, hc.cur_mem i, hsame k⟩) ih

/-- **A stamp determines its value** over all states ever reached. -/
theorem LastWriter.agree (hl : sys.LastWriter ok Valid cells author)
    (h : sys.Reach ok w) {s t : Snapshot ι σ Op} (hs : s ∈ w.ever) (ht : t ∈ w.ever) (k : K) :
    Agree (cells s.state k) (cells t.state k) :=
  (hl.authored_agreeing h).2 s hs t ht k

/-- Merging picks cells, which is commutative on states that agree. -/
theorem LastWriter.mergeLaws (hl : sys.LastWriter ok Valid cells author) {merge : σ → σ → σ}
    (hm : ∀ s t, sys.merge s t = some (merge s t)) (h : sys.Reach ok w) :
    MergeLaws merge (fun s t => cells s = cells t) w.states := by
  have hval : ∀ s ∈ w.states, Valid s := by
    rintro _ ⟨s, hs, rfl⟩
    exact (hl.lattice.isLUB h s hs).1
  have hpick : ∀ {s t}, Valid s → Valid t →
      Valid (merge s t) ∧ ∀ k, cells (merge s t) k = pick (cells s k) (cells t k) :=
    fun hs ht => hl.merge _ _ _ hs ht (hm _ _)
  constructor
  · intro s hs t ht
    have hst := hpick (hval s hs) (hval t ht)
    have hts := hpick (hval t ht) (hval s hs)
    obtain ⟨s, hs, rfl⟩ := hs
    obtain ⟨t, ht, rfl⟩ := ht
    funext k
    rw [hst.2, hts.2, pick_comm (hl.agree h hs ht k)]
  · intro s hs t ht u hu
    have hst := hpick (hval s hs) (hval t ht)
    have htu := hpick (hval t ht) (hval u hu)
    funext k
    rw [(hpick hst.1 (hval u hu)).2, (hpick (hval s hs) htu.1).2, hst.2, htu.2, pick_assoc]
  · intro s hs
    funext k
    rw [(hpick (hval s hs) (hval s hs)).2, pick_self]

/-- **Convergence**: states with the same history have the same cells. -/
theorem LastWriter.cells_eq (hl : sys.LastWriter ok Valid cells author)
    (h : sys.Reach ok w) {s t : Snapshot ι σ Op} (hs : s ∈ w.ever) (ht : t ∈ w.ever)
    (heq : SameHistory s t) : cells s.state = cells t.state :=
  funext fun k => hl.agree h hs ht k (congrFun (hl.lattice.eq_of_sameHistory h hs ht heq) k)

end System
end BrowserMesh.Replication
