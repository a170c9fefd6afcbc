import Mathlib

/-! # Depth-first marking

`visit` marks a node and then visits, one after the other, its successors that are not marked by then.
The recursion is bounded by fuel; `visit_total` says how much is enough, and `visit_spec` which nodes are
marked at the end: those that were, and those reached from the start through nodes that were not
(`Clear`). -/

namespace BrowserMesh.Search

/-- A state in which nodes are marked, and their successors, which marking does not change. -/
structure Marking (σ α : Type) where
  marked : σ → α → Prop
  decidableMarked : ∀ s a, Decidable (marked s a)
  mark : σ → α → σ
  succ : σ → α → List α
  marked_mark : ∀ s a b, marked (mark s a) b ↔ marked s b ∨ b = a
  succ_mark : ∀ s a, succ (mark s a) = succ s

namespace Marking
variable {σ α : Type} (m : Marking σ α)

instance (s : σ) (a : α) : Decidable (m.marked s a) := m.decidableMarked s a

/-- Visit `a`; `none` when the fuel runs out. -/
def visit : ℕ → σ → α → Option σ
  | 0, _, _ => none
  | n + 1, s, a =>
      (m.succ s a).foldlM (fun t b => if m.marked t b then some t else visit n t b) (m.mark s a)

/-- `c` is reached from `a` along nodes that are not marked, `a` excepted. -/
inductive Clear (s : σ) (a : α) : α → Prop
  | refl : Clear s a a
  | step {b c : α} : Clear s a b → c ∈ m.succ s b → ¬ m.marked s c → Clear s a c

variable {m}
variable {s : σ}

theorem Clear.eq_or_unmarked {a c : α} (h : m.Clear s a c) : c = a ∨ ¬ m.marked s c := by
  cases h with
  | refl => exact Or.inl rfl
  | step _ _ hc => exact Or.inr hc

variable {t : σ}

/-- From a state with more marks less is reached. -/
theorem Clear.of_more_marks {a b c : α} (hsucc : m.succ t = m.succ s)
    (hmono : ∀ x, m.marked s x → m.marked t x) (hab : m.Clear s a b) (h : m.Clear t b c) :
    m.Clear s a c := by
  induction h with
  | refl => exact hab
  | step _ hc hn ih => exact ih.step (hsucc ▸ hc) (fun hs => hn (hmono _ hs))

/-! ### What a visit marks -/

/-- While the successors of `a` are visited from `s`: what is marked in `t`, and that the nodes marked on
the way have all their successors marked. -/
structure Progress (m : Marking σ α) (s : σ) (a : α) (t : σ) : Prop where
  succ : m.succ t = m.succ s
  mono : ∀ c, m.marked (m.mark s a) c → m.marked t c
  sound : ∀ c, m.marked t c → m.marked s c ∨ m.Clear s a c
  closed : ∀ b, ¬ m.marked (m.mark s a) b → m.marked t b → ∀ c ∈ m.succ s b, m.marked t c

theorem progress_mark (s : σ) (a : α) : Progress m s a (m.mark s a) where
  succ := m.succ_mark s a
  mono := fun _ h => h
  sound := by
    intro c hc
    rcases (m.marked_mark s a c).mp hc with h | rfl
    · exact Or.inl h
    · exact Or.inr .refl
  closed := fun _ hn h => absurd h hn

/-- What a finished visit guarantees. -/
def Visited (m : Marking σ α) (s : σ) (a : α) (s' : σ) : Prop :=
  m.succ s' = m.succ s ∧ ∀ c, m.marked s' c ↔ m.marked s c ∨ m.Clear s a c

theorem Progress.visited {t' : σ} {a b : α} (h : Progress m s a t) (hb : b ∈ m.succ s a)
    (hn : ¬ m.marked t b) (hv : Visited m t b t') : Progress m s a t' := by
  obtain ⟨hsucc, hmarked⟩ := hv
  have hmono : ∀ c, m.marked t c → m.marked t' c := fun c hc => (hmarked c).mpr (Or.inl hc)
  have hbase : ∀ c, m.marked s c → m.marked t c :=
    fun c hc => h.mono c ((m.marked_mark s a c).mpr (Or.inl hc))
  have hab : m.Clear s a b := .step .refl hb fun hs => hn (hbase b hs)
  refine ⟨hsucc.trans h.succ, fun c hc => hmono c (h.mono c hc), ?_, ?_⟩
  · intro c hc
    rcases (hmarked c).mp hc with hc | hc
    · exact h.sound c hc
    · exact Or.inr (hab.of_more_marks h.succ hbase hc)
  · intro x hx hx' c hc
    rcases (hmarked x).mp hx' with hxt | hclear
    · exact hmono c (h.closed x hx hxt c hc)
    · by_cases hct : m.marked t c
      · exact hmono c hct
      · exact (hmarked c).mpr (Or.inr (hclear.step (h.succ ▸ hc) hct))

/-- The loop over some of the successors of `a`: the progress is kept, and they are marked. -/
theorem Progress.foldlM {n : ℕ} (ih : ∀ s a s', m.visit n s a = some s' → Visited m s a s') {a : α}
    {l : List α} (hl : ∀ b ∈ l, b ∈ m.succ s a) {t' : σ} (h : Progress m s a t)
    (hf : l.foldlM (fun t b => if m.marked t b then some t else m.visit n t b) t = some t') :
    Progress m s a t' ∧ (∀ c, m.marked t c → m.marked t' c) ∧ ∀ b ∈ l, m.marked t' b := by
  induction l generalizing t with
  | nil =>
      obtain rfl := Option.some.inj hf
      exact ⟨h, fun _ hc => hc, fun _ hb => absurd hb List.not_mem_nil⟩
  | cons b l ihl =>
      rw [List.foldlM_cons] at hf
      obtain ⟨u, hu, hrest⟩ := Option.bind_eq_some_iff.mp hf
      have hstep : Progress m s a u ∧ (∀ c, m.marked t c → m.marked u c) ∧ m.marked u b := by
        split_ifs at hu with hb
        · obtain rfl := Option.some.inj hu
          exact ⟨h, fun _ hc => hc, hb⟩
        · have hv := ih t b u hu
          exact ⟨h.visited (hl b List.mem_cons_self) hb hv, fun c hc => (hv.2 c).mpr (Or.inl hc),
            (hv.2 b).mpr (Or.inr .refl)⟩
      obtain ⟨hp, hmono, hmarks⟩ :=
        ihl (fun x hx => hl x (List.mem_cons_of_mem b hx)) hstep.1 hrest
      refine ⟨hp, fun c hc => hmono c (hstep.2.1 c hc), fun x hx => ?_⟩
      rcases List.mem_cons.mp hx with rfl | hx
      · exact hmono x hstep.2.2
      · exact hmarks x hx

variable {s' : σ}

/-- **A finished visit marks exactly what is reached through unmarked nodes.** -/
theorem visit_spec {n : ℕ} {a : α} (h : m.visit n s a = some s') : Visited m s a s' := by
  induction n generalizing s a s' with
  | zero => cases h
  | succ n ih =>
      obtain ⟨hp, -, hmarks⟩ :=
        Progress.foldlM (fun _ _ _ hv => ih hv) (fun _ hb => hb) (progress_mark s a) h
      refine ⟨hp.succ, fun c => ⟨hp.sound c, ?_⟩⟩
      rintro (hc | hc)
      · exact hp.mono c ((m.marked_mark s a c).mpr (Or.inl hc))
      · induction hc with
        | refl => exact hp.mono a ((m.marked_mark s a a).mpr (Or.inr rfl))
        | @step b c hb hc _ ihb =>
            rcases hb.eq_or_unmarked with rfl | hn
            · exact hmarks c hc
            · by_cases hba : b = a
              · exact hmarks c (hba ▸ hc)
              · exact hp.closed b (fun hm => ((m.marked_mark s a b).mp hm).elim hn hba) ihb c hc

theorem visit_invariant {I : σ → Prop} (hmark : ∀ s a, I s → I (m.mark s a)) {n : ℕ} {a : α}
    (hs : I s) (h : m.visit n s a = some s') : I s' := by
  induction n generalizing s a s' with
  | zero => cases h
  | succ n ih =>
      rw [visit] at h
      have hmarked := hmark s a hs
      generalize m.mark s a = t at h hmarked
      generalize m.succ s a = l at h
      induction l generalizing t with
      | nil => exact Option.some.inj h ▸ hmarked
      | cons b l ihl =>
          rw [List.foldlM_cons] at h
          obtain ⟨u, hu, hrest⟩ := Option.bind_eq_some_iff.mp h
          refine ihl u ?_ hrest
          split_ifs at hu
          · exact Option.some.inj hu ▸ hmarked
          · exact ih hmarked hu

/-! ### Enough fuel -/

section fuel
open Classical

/-- The nodes of `U` that are not marked. -/
noncomputable def pending (m : Marking σ α) (U : Finset α) (s : σ) : ℕ :=
  (U.filter fun a => ¬ m.marked s a).card

theorem pending_mono {U : Finset α} {s t : σ} (h : ∀ c, m.marked s c → m.marked t c) :
    m.pending U t ≤ m.pending U s :=
  Finset.card_le_card (Finset.monotone_filter_right U fun c _ hn hs => hn (h c hs))

theorem pending_mark_lt {U : Finset α} {s : σ} {b : α} (hb : b ∈ U) (hn : ¬ m.marked s b) :
    m.pending U (m.mark s b) < m.pending U s := by
  refine Finset.card_lt_card (Finset.ssubset_iff_subset_ne.mpr ⟨?_, ?_⟩)
  · exact Finset.monotone_filter_right U fun c _ h hs => h ((m.marked_mark s b c).mpr (Or.inl hs))
  · intro heq
    have hmem : b ∈ U.filter fun a => ¬ m.marked (m.mark s b) a :=
      heq ▸ Finset.mem_filter.mpr ⟨hb, hn⟩
    exact (Finset.mem_filter.mp hmem).2 ((m.marked_mark s b b).mpr (Or.inr rfl))

/-- The successors of every node lie in `U`, and fewer than `n` of them are unmarked once `a` is marked:
then `n` is fuel enough, whatever the cycles. -/
theorem visit_total {U : Finset α} {n : ℕ} {s : σ} {a : α} (hU : ∀ x, ∀ b ∈ m.succ s x, b ∈ U)
    (hn : m.pending U (m.mark s a) < n) : ∃ s', m.visit n s a = some s' := by
  induction n generalizing s a with
  | zero => exact absurd hn (Nat.not_lt_zero _)
  | succ n ih =>
      -- the loop, from any state with at least the marks of the first
      have loop : ∀ (l : List α) (t : σ), (∀ b ∈ l, b ∈ m.succ s a) → Progress m s a t →
          ∃ t', l.foldlM (fun t b => if m.marked t b then some t else m.visit n t b) t = some t' := by
        intro l
        induction l with
        | nil => exact fun t _ _ => ⟨t, rfl⟩
        | cons b l ihl =>
            intro t hl hp
            have hlb : ∀ x ∈ l, x ∈ m.succ s a := fun x hx => hl x (List.mem_cons_of_mem b hx)
            rw [List.foldlM_cons]
            by_cases hb : m.marked t b
            · rw [if_pos hb]
              exact ihl t hlb hp
            · have hmem := hl b List.mem_cons_self
              have hfuel : m.pending U (m.mark t b) < n := by
                have h1 := pending_mark_lt (hU a b hmem) hb
                have h2 := pending_mono (U := U) hp.mono
                omega
              obtain ⟨u, hu⟩ := ih (fun x c hc => hU x c (hp.succ ▸ hc)) hfuel
              rw [if_neg hb, hu]
              exact ihl u hlb (hp.visited hmem hb (visit_spec hu))
      exact loop _ _ (fun _ hb => hb) (progress_mark s a)

end fuel

/-- More fuel does not change the result. -/
theorem visit_mono {n k : ℕ} (hk : n ≤ k) {a : α} (h : m.visit n s a = some s') :
    m.visit k s a = some s' := by
  induction n generalizing k s s' a with
  | zero => cases h
  | succ n ih =>
      obtain ⟨k, rfl⟩ : ∃ j, k = j + 1 := ⟨k - 1, by omega⟩
      rw [visit] at h ⊢
      generalize m.mark s a = t at h ⊢
      generalize m.succ s a = l at h ⊢
      induction l generalizing t with
      | nil => exact h
      | cons b l ihl =>
          rw [List.foldlM_cons] at h ⊢
          obtain ⟨u, hu, hrest⟩ := Option.bind_eq_some_iff.mp h
          refine Option.bind_eq_some_iff.mpr ⟨u, ?_, ihl u hrest⟩
          split_ifs at hu ⊢ with hb
          · exact hu
          · exact ih (by omega) hu

end Marking
end BrowserMesh.Search
