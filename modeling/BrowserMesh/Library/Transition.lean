import Mathlib

/-! # Guarded transition systems

* **Machine.**  An initial state and a guarded step: `step s a` is `none` when the action `a` is
  disabled in `s`.
* **Runs.**  `Reach ok s`: `s` is reached by steps all of which satisfy `ok`; `run` executes a list of
  actions; `Along P s as` says that every step of the run of `as` from `s` satisfies `P`.
* **Rules.**  `Reach.invariant` for invariants, `along_iff` for conditions on steps that agree as long as
  an invariant holds. -/

namespace BrowserMesh.Transition

/-- A guarded transition system. -/
structure Machine (σ α : Type) where
  init : σ
  step : σ → α → Option σ

namespace Machine
variable {σ α : Type} (m : Machine σ α)

/-- Execute a list of actions; `none` when one of them is disabled or not `ok`. -/
def run (ok : σ → α → Prop) [∀ s a, Decidable (ok s a)] (s : σ) : List α → Option σ
  | [] => some s
  | a :: as => if ok s a then (m.step s a).bind fun s' => run ok s' as else none

/-- `s` is reached by steps all of which satisfy `ok`. -/
inductive Reach (ok : σ → α → Prop) : σ → Prop
  | init : Reach ok m.init
  | step {s s' : σ} {a : α} : Reach ok s → ok s a → m.step s a = some s' → Reach ok s'

/-- Every step of the run of `as` from `s` satisfies `P`. -/
def Along (P : σ → α → Prop) (s : σ) : List α → Prop
  | [] => True
  | a :: as => ∀ s', m.step s a = some s' → P s a ∧ Along P s' as

variable {m}

theorem Reach.mono {ok ok' : σ → α → Prop} (h : ∀ s a, ok s a → ok' s a) {s : σ}
    (hr : m.Reach ok s) : m.Reach ok' s := by
  induction hr with
  | init => exact .init
  | step _ hok hs ih => exact .step ih (h _ _ hok) hs

theorem reach_of_run {ok : σ → α → Prop} [∀ s a, Decidable (ok s a)] {as : List α} {s s' : σ}
    (hs : m.Reach ok s) (h : m.run ok s as = some s') : m.Reach ok s' := by
  induction as generalizing s with
  | nil =>
      obtain rfl := Option.some.inj h
      exact hs
  | cons a as ih =>
      rw [run] at h
      split_ifs at h with hok
      obtain ⟨s₁, h₁, h₂⟩ := Option.bind_eq_some_iff.mp h
      exact ih (.step hs hok h₁) h₂

/-- What a test finds in an executed run holds of some run. -/
theorem exists_of_run {ok : σ → α → Prop} [∀ s a, Decidable (ok s a)] {as : List α} {P : σ → Prop}
    [DecidablePred P] (h : (m.run ok m.init as).any (fun s => decide (P s)) = true) :
    ∃ s, m.run ok m.init as = some s ∧ m.Reach ok s ∧ P s := by
  obtain ⟨s, hs, hp⟩ := (Option.any_eq_true _ _).mp h
  exact ⟨s, hs, reach_of_run .init hs, of_decide_eq_true hp⟩

/-- The invariant rule. -/
theorem Reach.invariant {ok : σ → α → Prop} {I : σ → Prop} (hinit : I m.init)
    (hstep : ∀ s a s', I s → ok s a → m.step s a = some s' → I s') {s : σ} (h : m.Reach ok s) :
    I s := by
  induction h with
  | init => exact hinit
  | step _ hok hs ih => exact hstep _ _ _ ih hok hs

/-- What an action of a run brings about, and later steps keep, holds at its end. -/
theorem of_mem_run {ok : σ → α → Prop} [∀ s a, Decidable (ok s a)] {I Q : σ → Prop} {a : α}
    (hinv : ∀ s b s', I s → ok s b → m.step s b = some s' → I s')
    (hkept : ∀ s b s', I s → Q s → ok s b → m.step s b = some s' → Q s')
    (hdone : ∀ s s', I s → ok s a → m.step s a = some s' → Q s') {as : List α} {s w : σ} (hI : I s)
    (ha : a ∈ as) (h : m.run ok s as = some w) : Q w := by
  have hrest : ∀ (as : List α) (s : σ), I s → Q s → m.run ok s as = some w → Q w := by
    intro as
    induction as with
    | nil => exact fun s _ hQ h => Option.some.inj h ▸ hQ
    | cons b as ih =>
        intro s hI hQ h
        rw [run] at h
        split_ifs at h with hok
        obtain ⟨s₁, h₁, h₂⟩ := Option.bind_eq_some_iff.mp h
        exact ih s₁ (hinv s b s₁ hI hok h₁) (hkept s b s₁ hI hQ hok h₁) h₂
  induction as generalizing s with
  | nil => cases ha
  | cons b as ih =>
      rw [run] at h
      split_ifs at h with hok
      obtain ⟨s₁, h₁, h₂⟩ := Option.bind_eq_some_iff.mp h
      rcases List.mem_cons.mp ha with rfl | ha
      · exact hrest as s₁ (hinv s a s₁ hI hok h₁) (hdone s s₁ hI hok h₁) h₂
      · exact ih (hinv s b s₁ hI hok h₁) ha h₂

/-- What holds along a list of actions holds of its last step. -/
theorem Along.last {ok P : σ → α → Prop} [∀ s a, Decidable (ok s a)] {as : List α} {a : α} {s w w' : σ}
    (h : m.Along P s (as ++ [a])) (hr : m.run ok s as = some w) (hs : m.step w a = some w') : P w a := by
  induction as generalizing s with
  | nil =>
      obtain rfl := Option.some.inj hr
      exact (h w' hs).1
  | cons b as ih =>
      rw [run] at hr
      split_ifs at hr
      obtain ⟨s₁, h₁, h₂⟩ := Option.bind_eq_some_iff.mp hr
      exact ih (h s₁ h₁).2 h₂

/-- Two conditions that agree on every step agree along every list of actions. -/
theorem along_congr {P Q : σ → α → Prop} (h : ∀ s a s', m.step s a = some s' → (P s a ↔ Q s a))
    (s : σ) (as : List α) : m.Along P s as ↔ m.Along Q s as := by
  induction as generalizing s with
  | nil => exact Iff.rfl
  | cons a as ih => exact forall₂_congr fun s' hs' => and_congr (h s a s' hs') (ih s')

/-- Two conditions that agree on every step from an invariant, and keep it, agree along every list of
actions. -/
theorem along_iff_of_invariant {P Q : σ → α → Prop} {I : σ → Prop}
    (hstep : ∀ s a s', I s → m.step s a = some s' → (P s a ↔ Q s a) ∧ (Q s a → I s')) {s : σ} (hs : I s)
    (as : List α) : m.Along P s as ↔ m.Along Q s as := by
  induction as generalizing s with
  | nil => exact Iff.rfl
  | cons a as ih =>
      refine forall₂_congr fun s' hs' => ?_
      obtain ⟨hiff, hinv⟩ := hstep s a s' hs hs'
      rw [hiff]
      exact and_congr_right fun hq => ih (hinv hq)

/-- Two conditions that agree on steps from an invariant, and keep it, agree along runs. -/
theorem along_iff {ok P Q : σ → α → Prop} [∀ s a, Decidable (ok s a)] {I : σ → Prop}
    (hstep : ∀ s a s', I s → ok s a → m.step s a = some s' → (P s a ↔ Q s a) ∧ (Q s a → I s'))
    {as : List α} {s w : σ} (hs : I s) (h : m.run ok s as = some w) :
    m.Along P s as ↔ m.Along Q s as := by
  induction as generalizing s with
  | nil => exact Iff.rfl
  | cons a as ih =>
      rw [run] at h
      split_ifs at h with hok
      obtain ⟨s₁, h₁, h₂⟩ := Option.bind_eq_some_iff.mp h
      obtain ⟨hiff, hinv⟩ := hstep s a s₁ hs hok h₁
      have hone : ∀ R : σ → α → Prop, m.Along R s (a :: as) ↔ R s a ∧ m.Along R s₁ as := by
        intro R
        constructor
        · exact fun hr => hr s₁ h₁
        · intro hr s' hs'
          rwa [← Option.some.inj (h₁.symm.trans hs')]
      rw [hone, hone, hiff]
      exact and_congr_right fun hq => ih (hinv hq) h₂

end Machine
end BrowserMesh.Transition
