import BrowserMesh.Library.Transition
import Mathlib.Data.List.Perm.Basic

/-! # Concurrent calls of asynchronous functions

* **Programs.**  Calls run against one shared state.  `start` runs a call up to its first `await`,
  `resume` runs a waiting call from one `await` to the next with what the awaited operation settled to.
* **Worlds.**  The shared state with the calls made so far, each waiting or returned; the `machine` makes
  a call or lets a waiting one go on, in any order.
* **Rules.**  `step_start` and `step_resume` invert a step, `step_of_meets` and `forall_tasks_step` are the
  rules for invariants of every call by itself; `collect_start` and `collect_resume` follow what the calls
  returned. -/

namespace BrowserMesh.Async
open Transition

/-- Where a call stands: waiting at an `await`, or returned. -/
inductive Task (φ ρ : Type) where
  | waiting (frame : φ)
  | returned (result : ρ)
  deriving DecidableEq

/-- An asynchronous function over a shared state; `none` for what cannot happen. -/
structure Program (σ γ ε φ ρ : Type) where
  start : σ → γ → Option (σ × Task φ ρ)
  resume : σ → φ → ε → Option (σ × Task φ ρ)

/-- The shared state and the calls, in the order in which they were made. -/
structure World (σ φ ρ : Type) where
  shared : σ
  tasks : List (Task φ ρ)

inductive Action (γ ε : Type) where
  | start (call : γ)
  | resume (i : ℕ) (event : ε)

variable {σ γ ε φ ρ : Type}

namespace Program
variable (p : Program σ γ ε φ ρ)

def step (w : World σ φ ρ) : Action γ ε → Option (World σ φ ρ)
  | .start call => (p.start w.shared call).map fun r => ⟨r.1, w.tasks ++ [r.2]⟩
  | .resume i event =>
      match w.tasks[i]? with
      | some (.waiting frame) =>
          (p.resume w.shared frame event).map fun r => ⟨r.1, w.tasks.set i r.2⟩
      | _ => none

/-- The calls made on a component that starts as `s`. -/
def machine (s : σ) : Machine (World σ φ ρ) (Action γ ε) := ⟨⟨s, []⟩, p.step⟩

variable {p} {w w' : World σ φ ρ}

theorem step_start {call : γ} (h : p.step w (.start call) = some w') :
    ∃ r, p.start w.shared call = some r ∧ w' = ⟨r.1, w.tasks ++ [r.2]⟩ := by
  obtain ⟨r, hr, rfl⟩ := Option.map_eq_some_iff.mp h
  exact ⟨r, hr, rfl⟩

theorem step_resume {i : ℕ} {event : ε} (h : p.step w (.resume i event) = some w') :
    ∃ frame r, w.tasks[i]? = some (.waiting frame) ∧ p.resume w.shared frame event = some r ∧
      w' = ⟨r.1, w.tasks.set i r.2⟩ := by
  simp only [step] at h
  split at h
  · rename_i frame hframe
    obtain ⟨r, hr, rfl⟩ := Option.map_eq_some_iff.mp h
    exact ⟨frame, r, hframe, hr, rfl⟩
  · cases h

/-- What a step has to meet, given for a call that is made and for a call that goes on. -/
def Meets (mayStart : σ → γ → Prop) (mayResume : σ → φ → ε → Prop) (w : World σ φ ρ) : Action γ ε → Prop
  | .start call => mayStart w.shared call
  | .resume i event => ∀ frame, w.tasks[i]? = some (.waiting frame) → mayResume w.shared frame event

instance (mayStart : σ → γ → Prop) (mayResume : σ → φ → ε → Prop) [∀ s call, Decidable (mayStart s call)]
    [∀ s frame event, Decidable (mayResume s frame event)] (w : World σ φ ρ) :
    ∀ a : Action γ ε, Decidable (Meets mayStart mayResume w a)
  | .start call => inferInstanceAs (Decidable (mayStart w.shared call))
  | .resume i event =>
      match h : w.tasks[i]? with
      | some (.waiting frame) =>
          decidable_of_iff (mayResume w.shared frame event)
            ⟨fun hmay frame' hframe => by
              cases h.symm.trans hframe
              exact hmay, fun hall => hall frame h⟩
      | some (.returned _) => .isTrue fun frame hframe => by cases h.symm.trans hframe
      | none => .isTrue fun frame hframe => by cases h.symm.trans hframe

/-- An invariant of the shared state and of every call by itself: each step that is allowed keeps it for the
call that moves and changes the shared state as `R` says, which disturbs no other call. -/
theorem step_of_meets {I : σ → Prop} {J : σ → Task φ ρ → Prop} {R : σ → σ → Prop}
    {mayStart : σ → γ → Prop} {mayResume : σ → φ → ε → Prop}
    (hmono : ∀ s s' t, R s s' → J s t → J s' t)
    (hstart : ∀ s call r, I s → mayStart s call → p.start s call = some r → I r.1 ∧ R s r.1 ∧ J r.1 r.2)
    (hresume : ∀ s frame event r, I s → J s (.waiting frame) → mayResume s frame event →
      p.resume s frame event = some r → I r.1 ∧ R s r.1 ∧ J r.1 r.2)
    {a : Action γ ε} (hI : I w.shared) (hJ : ∀ t ∈ w.tasks, J w.shared t)
    (hmeets : Meets mayStart mayResume w a) (h : p.step w a = some w') :
    I w'.shared ∧ R w.shared w'.shared ∧ ∀ t ∈ w'.tasks, J w'.shared t := by
  cases a with
  | start call =>
      obtain ⟨r, hr, rfl⟩ := step_start h
      obtain ⟨hI', hR, hnew⟩ := hstart _ _ _ hI hmeets hr
      refine ⟨hI', hR, fun t ht => ?_⟩
      rcases List.mem_append.mp ht with ht | ht
      · exact hmono _ _ t hR (hJ t ht)
      · rw [List.mem_singleton.mp ht]
        exact hnew
  | resume i event =>
      obtain ⟨frame, r, hframe, hr, rfl⟩ := step_resume h
      obtain ⟨hI', hR, hnew⟩ :=
        hresume _ _ _ _ hI (hJ _ (List.mem_of_getElem? hframe)) (hmeets frame hframe) hr
      refine ⟨hI', hR, fun t ht => ?_⟩
      rcases List.mem_or_eq_of_mem_set ht with ht | rfl
      · exact hmono _ _ t hR (hJ t ht)
      · exact hnew

theorem forall_tasks_step {I : σ → Prop} {J : σ → Task φ ρ → Prop}
    (hstart : ∀ s call r, I s → p.start s call = some r →
      I r.1 ∧ J r.1 r.2 ∧ ∀ t, J s t → J r.1 t)
    (hresume : ∀ s frame event r, I s → J s (.waiting frame) → p.resume s frame event = some r →
      I r.1 ∧ J r.1 r.2 ∧ ∀ t, J s t → J r.1 t)
    {a : Action γ ε} (hI : I w.shared) (hJ : ∀ t ∈ w.tasks, J w.shared t) (h : p.step w a = some w') :
    I w'.shared ∧ ∀ t ∈ w'.tasks, J w'.shared t := by
  have hmeets : Meets (fun _ _ => True) (fun _ _ _ => True) w a := by
    cases a with
    | start call => exact trivial
    | resume i event => exact fun _ _ => trivial
  obtain ⟨hI', -, hJ'⟩ := step_of_meets (R := fun s s' => ∀ t, J s t → J s' t)
    (fun _ _ t hR ht => hR t ht)
    (fun s call r hI _ hr => (hstart s call r hI hr).imp_right And.symm)
    (fun s frame event r hI hJ _ hr => (hresume s frame event r hI hJ hr).imp_right And.symm) hI hJ hmeets h
  exact ⟨hI', hJ'⟩

end Program

/-! ### Results -/

/-- The result of a call that returned. -/
def Task.result? : Task φ ρ → Option ρ
  | .waiting _ => none
  | .returned result => some result

@[simp] theorem result?_waiting (frame : φ) : (Task.waiting frame : Task φ ρ).result? = none := rfl

@[simp] theorem result?_returned (result : ρ) :
    (Task.returned result : Task φ ρ).result? = some result := rfl

/-- What `f` keeps of the results, in the order in which the calls were made. -/
def World.collect {β : Type} (f : ρ → Option β) (w : World σ φ ρ) : List β :=
  w.tasks.filterMap fun t => t.result?.bind f

section collect
variable {β : Type} (f : ρ → Option β) (s s' : σ) {tasks : List (Task φ ρ)}

theorem collect_start (t : Task φ ρ) :
    (⟨s', tasks ++ [t]⟩ : World σ φ ρ).collect f =
      (⟨s, tasks⟩ : World σ φ ρ).collect f ++ (t.result?.bind f).toList := by
  cases h : t.result?.bind f <;> simp [World.collect, h]

/-- A call that goes on adds its result, if it returns, to those there were. -/
theorem collect_resume {i : ℕ} {frame : φ} (t : Task φ ρ) (h : tasks[i]? = some (.waiting frame)) :
    ((⟨s', tasks.set i t⟩ : World σ φ ρ).collect f).Perm
      ((⟨s, tasks⟩ : World σ φ ρ).collect f ++ (t.result?.bind f).toList) := by
  induction tasks generalizing i with
  | nil => cases h
  | cons t' tasks ih =>
      simp only [World.collect] at ih ⊢
      cases i with
      | zero =>
          obtain rfl : t' = .waiting frame := by simpa using h
          rw [List.set_cons_zero, List.filterMap_cons, List.filterMap_cons, result?_waiting,
            Option.bind_none]
          cases ht : t.result?.bind f with
          | none => simp
          | some b => simpa using (List.perm_append_singleton b _).symm
      | succ i =>
          have htail := ih (i := i) (by simpa using h)
          rw [List.set_cons_succ, List.filterMap_cons, List.filterMap_cons]
          cases ht' : t'.result?.bind f with
          | none => exact htail
          | some b => exact htail.cons b

end collect

end BrowserMesh.Async
