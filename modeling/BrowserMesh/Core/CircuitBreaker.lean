import BrowserMesh.Library.Counting
import BrowserMesh.Library.Transition

/-! # The circuit breaker of retries

* **Calls.**  Each call of `execute` makes its attempts one after the other, with a sleep before each but the first.  All
  calls share the state of the circuit, the count of failures and the time of the last one.
* **Conformance.**  `documented` is the state of the circuit after an action, as the table of transitions has it.  A step
  conforms when it leads there, starts no attempt while the circuit is open too early, and leaves at most one attempt in
  flight while it is half-open.
* **Runs.**  Steps conform while every failure is counted, one that opens the circuit is the last of the only call in
  progress, and no call starts in half-open beside another (`conforms_of_careful`). -/

namespace BrowserMesh.Core.CircuitBreaker
open Transition Counting

inductive CircuitState where
  | closed | open | halfOpen
  deriving DecidableEq

inductive Progress where
  | sleeping | running | done
  deriving DecidableEq

/-- A call of `execute` that was not refused. -/
structure Call where
  attempt : ℕ
  maxAttempts : ℕ
  progress : Progress
  deriving DecidableEq

structure RetryWithBackoff where
  circuitState : CircuitState
  failureCount : ℕ
  lastFailureTime : ℚ
  /-- When the circuit was opened. -/
  openedAt : ℚ
  clock : ℚ
  calls : List Call
  deriving DecidableEq

inductive Action where
  | execute (now : ℚ)
  | succeed (i : ℕ)
  /-- The attempt rejects; `readable` is whether `err.message` can be read, as it cannot of `null` and `undefined`. -/
  | fail (i : ℕ) (readable : Bool) (now : ℚ)
  | wake (i : ℕ) (now : ℚ)

namespace RetryWithBackoff

def new : RetryWithBackoff := ⟨.closed, 0, 0, 0, 0, []⟩

section
variable (maxRetries : ℕ) (resetTimeoutMs : ℚ)

/-- `execute(fn)` up to its first attempt; `maxRetries` is at least one. -/
def execute (s : RetryWithBackoff) (now : ℚ) : RetryWithBackoff :=
  if s.circuitState = .open then
    if now - s.lastFailureTime < resetTimeoutMs then { s with clock := now }
    else { s with circuitState := .halfOpen, clock := now, calls := s.calls ++ [⟨0, 1, .running⟩] }
  else
    let maxAttempts := if s.circuitState = .halfOpen then 1 else maxRetries
    { s with clock := now, calls := s.calls ++ [⟨0, maxAttempts, .running⟩] }

def succeed (s : RetryWithBackoff) (i : ℕ) (c : Call) : RetryWithBackoff :=
  { s with
    failureCount := 0
    circuitState := if s.circuitState = .halfOpen then .closed else s.circuitState
    calls := s.calls.set i { c with progress := .done } }

/-- The `catch` block throws where it reads `err.message`: the call ends, and nothing is counted. -/
def abort (s : RetryWithBackoff) (i : ℕ) (c : Call) (now : ℚ) : RetryWithBackoff :=
  { s with clock := now, calls := s.calls.set i { c with progress := .done } }

/-- The attempt of a call rejects: it sleeps before the next one, or the call throws. -/
def fail (s : RetryWithBackoff) (i : ℕ) (c : Call) (now : ℚ) : RetryWithBackoff :=
  let failed := { s with failureCount := s.failureCount + 1, lastFailureTime := now, clock := now }
  if c.attempt + 1 < c.maxAttempts then
    { failed with calls := s.calls.set i ⟨c.attempt + 1, c.maxAttempts, .sleeping⟩ }
  else
    let thrown := { failed with calls := s.calls.set i { c with progress := .done } }
    if maxRetries ≤ failed.failureCount then
      { thrown with circuitState := .open, openedAt := if s.circuitState = .open then s.openedAt else now }
    else thrown

def step (s : RetryWithBackoff) : Action → Option RetryWithBackoff
  | .execute now => if s.clock ≤ now then some (s.execute maxRetries resetTimeoutMs now) else none
  | .succeed i => (s.calls[i]?.filter fun c => c.progress = .running).map (s.succeed i)
  | .fail i readable now =>
      if s.clock ≤ now then
        (s.calls[i]?.filter fun c => c.progress = .running).map fun c =>
          if readable then s.fail maxRetries i c now else s.abort i c now
      else none
  | .wake i now =>
      if s.clock ≤ now then
        (s.calls[i]?.filter fun c => c.progress = .sleeping).map fun c =>
          { s with clock := now, calls := s.calls.set i { c with progress := .running } }
      else none

def machine : Machine RetryWithBackoff Action := ⟨new, step maxRetries resetTimeoutMs⟩

/-! ### What is documented -/

def inProgress (s : RetryWithBackoff) : ℕ := s.calls.countP fun c => c.progress ≠ .done

def inFlight (s : RetryWithBackoff) : ℕ := s.calls.countP fun c => c.progress = .running

/-- The timeout has elapsed since the circuit was opened. -/
def Elapsed (s : RetryWithBackoff) (now : ℚ) : Prop := resetTimeoutMs ≤ now - s.openedAt

instance (s : RetryWithBackoff) (now : ℚ) : Decidable (Elapsed resetTimeoutMs s now) :=
  inferInstanceAs (Decidable (_ ≤ _))

/-- The state after the action: open after `maxRetries` consecutive failures, half-open for a call after the timeout, and
closed or open on the next success or failure. -/
def documented (s : RetryWithBackoff) : Action → CircuitState
  | .execute now => if s.circuitState = .open ∧ Elapsed resetTimeoutMs s now then .halfOpen else s.circuitState
  | .succeed _ => if s.circuitState = .halfOpen then .closed else s.circuitState
  | .fail _ _ _ =>
      if s.circuitState = .halfOpen ∨ s.circuitState = .closed ∧ maxRetries ≤ s.failureCount + 1 then .open
      else s.circuitState
  | .wake _ _ => s.circuitState

structure Conforms (s : RetryWithBackoff) (a : Action) (s' : RetryWithBackoff) : Prop where
  circuit : s'.circuitState = documented maxRetries resetTimeoutMs s a
  early : s.circuitState = .open → s.inFlight < s'.inFlight → Elapsed resetTimeoutMs s s'.clock
  single : s'.circuitState = .halfOpen → s'.inFlight ≤ 1

/-- Call `i` makes its last attempt, and no other call is in progress. -/
def LastOfAll (s : RetryWithBackoff) (i : ℕ) : Prop :=
  s.inProgress = 1 ∧ ∀ c, s.calls[i]? = some c → c.maxAttempts ≤ c.attempt + 1

instance (s : RetryWithBackoff) (i : ℕ) : Decidable (s.LastOfAll i) :=
  inferInstanceAs (Decidable (_ ∧ ∀ c ∈ s.calls[i]?, _))

/-- No call starts in half-open beside another, every failure has a message to read, and the one that is the last of
`maxRetries` in a row is the last one of the only call in progress. -/
def Careful (s : RetryWithBackoff) : Action → Prop
  | .execute _ => s.circuitState = .halfOpen → s.inProgress = 0
  | .fail i readable _ =>
      readable = true ∧ (s.circuitState = .closed → maxRetries ≤ s.failureCount + 1 → s.LastOfAll i)
  | _ => True

instance (s : RetryWithBackoff) : (a : Action) → Decidable (Careful maxRetries s a)
  | .execute _ => inferInstanceAs (Decidable (_ → _))
  | .fail _ _ _ => inferInstanceAs (Decidable (_ ∧ (_ → _ → _)))
  | .succeed _ => inferInstanceAs (Decidable True)
  | .wake _ _ => inferInstanceAs (Decidable True)

end

/-! ### Runs -/

/-- While the circuit is open nothing is in progress, and while it is half-open one last attempt is. -/
structure Sound (maxRetries : ℕ) (s : RetryWithBackoff) : Prop where
  failures : s.circuitState ≠ .closed → maxRetries ≤ s.failureCount
  opened : s.circuitState = .open → s.inProgress = 0 ∧ s.openedAt = s.lastFailureTime
  halfOpen : s.circuitState = .halfOpen → s.inProgress = 1 ∧
    ∀ c ∈ s.calls, c.progress ≠ .done → c.progress = .running ∧ c.maxAttempts ≤ c.attempt + 1

theorem inFlight_le (s : RetryWithBackoff) : s.inFlight ≤ s.inProgress :=
  List.countP_mono_left fun c _ hc => by
    rw [decide_eq_true_iff] at *
    rw [hc]
    decide

theorem inProgress_pos {s : RetryWithBackoff} {i : ℕ} {c : Call} (h : s.calls[i]? = some c) (hc : c.progress ≠ .done) :
    0 < s.inProgress :=
  List.countP_pos_iff.mpr ⟨c, List.mem_of_getElem? h, decide_eq_true hc⟩

theorem inProgress_done {s s' : RetryWithBackoff} {i : ℕ} {c : Call} (h : s.calls[i]? = some c)
    (hc : c.progress = .running) (hone : s.inProgress = 1) (hs : s'.calls = s.calls.set i { c with progress := .done }) :
    s'.inProgress = 0 := by
  have hcount := countP_set_add (fun c : Call => decide (c.progress ≠ .done)) { c with progress := .done } h
  rw [inProgress] at hone
  rw [inProgress, hs]
  simp only [hc, ne_eq, reduceCtorEq, not_false_eq_true, decide_true, if_true, not_true_eq_false, decide_false,
    Bool.false_eq_true, if_false] at hcount hone ⊢
  omega

variable {maxRetries : ℕ} {resetTimeoutMs : ℚ} {s : RetryWithBackoff}

theorem sound_of_closed {a : Action} {s' : RetryWithBackoff} (hs : s.circuitState = .closed)
    (hs' : s'.circuitState = .closed) (hdocumented : documented maxRetries resetTimeoutMs s a = .closed) :
    Sound maxRetries s' ∧ Conforms maxRetries resetTimeoutMs s a s' := by
  refine ⟨⟨fun hne => absurd hs' hne, fun hopen => ?_, fun hhalf => ?_⟩, hs'.trans hdocumented.symm, fun hopen => ?_,
    fun hhalf => ?_⟩
  · cases hs'.symm.trans hopen
  · cases hs'.symm.trans hhalf
  · cases hs.symm.trans hopen
  · cases hs'.symm.trans hhalf

namespace Sound

theorem execute (h : Sound maxRetries s) {now : ℚ} (hok : Careful maxRetries s (.execute now)) :
    Sound maxRetries (s.execute maxRetries resetTimeoutMs now) ∧
      Conforms maxRetries resetTimeoutMs s (.execute now) (s.execute maxRetries resetTimeoutMs now) := by
  cases hstate : s.circuitState with
  | closed =>
      have hopen : ¬ s.circuitState = .open := by rw [hstate]; decide
      refine sound_of_closed hstate ?_ ?_
      · rw [RetryWithBackoff.execute, if_neg hopen]
        exact hstate
      · rw [documented, if_neg fun hboth => hopen hboth.1, hstate]
  | halfOpen => exact absurd ((h.halfOpen hstate).1.symm.trans (hok hstate)) (by decide)
  | «open» =>
      obtain ⟨hnone, hopened⟩ := h.opened hstate
      rw [RetryWithBackoff.execute, if_pos hstate]
      by_cases helapsed : Elapsed resetTimeoutMs s now
      · have hlate : ¬ now - s.lastFailureTime < resetTimeoutMs := by
          rw [← hopened]
          exact not_lt.mpr helapsed
        rw [if_neg hlate]
        have hone : inProgress { s with
            circuitState := .halfOpen, clock := now, calls := s.calls ++ [⟨0, 1, .running⟩] } = 1 := by
          rw [inProgress, List.countP_append, ← inProgress, hnone]
          rfl
        refine ⟨⟨fun _ => h.failures (by rw [hstate]; decide), fun hopen => (by cases hopen), fun _ => ⟨hone, ?_⟩⟩, ?_,
          fun _ _ => helapsed, fun _ => (inFlight_le _).trans hone.le⟩
        · intro c hc hprogress
          rcases List.mem_append.mp hc with hc | hc
          · exact absurd (decide_eq_true hprogress) (List.countP_eq_zero.mp hnone c hc)
          · rw [List.mem_singleton.mp hc]
            exact ⟨rfl, le_refl 1⟩
        · rw [documented, if_pos ⟨hstate, helapsed⟩]
      · have hearly : now - s.lastFailureTime < resetTimeoutMs := by
          rw [← hopened]
          exact not_le.mp helapsed
        rw [if_pos hearly]
        refine ⟨⟨h.failures, h.opened, h.halfOpen⟩, ?_, fun _ hmore => absurd hmore (lt_irrefl _), fun hhalf => ?_⟩
        · rw [documented, if_neg fun hboth => helapsed hboth.2]
        · cases hstate.symm.trans hhalf

variable {c : Call}

theorem succeed (h : Sound maxRetries s) {i : ℕ} (hcall : s.calls[i]? = some c) (hrunning : c.progress = .running) :
    Sound maxRetries (s.succeed i c) ∧ Conforms maxRetries resetTimeoutMs s (.succeed i) (s.succeed i c) := by
  have hpos := inProgress_pos hcall (by rw [hrunning]; decide)
  cases hstate : s.circuitState with
  | closed =>
      refine sound_of_closed hstate ?_ ?_
      · rw [RetryWithBackoff.succeed, hstate]
        rfl
      · rw [documented, hstate]
        rfl
  | «open» => exact absurd (h.opened hstate).1 (Nat.pos_iff_ne_zero.mp hpos)
  | halfOpen =>
      have hclosed : (s.succeed i c).circuitState = .closed := if_pos hstate
      refine ⟨⟨fun hne => absurd hclosed hne, fun hopen => ?_, fun hhalf => ?_⟩, ?_, fun hopen => ?_, fun hhalf => ?_⟩
      · cases hclosed.symm.trans hopen
      · cases hclosed.symm.trans hhalf
      · rw [hclosed, documented, if_pos hstate]
      · cases hstate.symm.trans hopen
      · cases hclosed.symm.trans hhalf

theorem fail_opens {i : ℕ} {now : ℚ} (hcall : s.calls[i]? = some c) (hrunning : c.progress = .running)
    (hopen : s.circuitState ≠ .open) (hlast : s.LastOfAll i) (hcount : maxRetries ≤ s.failureCount + 1)
    (hdocumented : documented maxRetries resetTimeoutMs s (.fail i true now) = .open) :
    Sound maxRetries (s.fail maxRetries i c now) ∧
      Conforms maxRetries resetTimeoutMs s (.fail i true now) (s.fail maxRetries i c now) := by
  have hfail : s.fail maxRetries i c now =
      ⟨.open, s.failureCount + 1, now, now, now, s.calls.set i { c with progress := .done }⟩ := by
    simp only [RetryWithBackoff.fail, if_neg (Nat.not_lt.mpr (hlast.2 c hcall)), if_pos hcount, if_neg hopen]
  rw [hfail]
  refine ⟨⟨fun _ => hcount, fun _ => ⟨inProgress_done hcall hrunning hlast.1 rfl, rfl⟩, fun hhalf => (by cases hhalf)⟩,
    hdocumented.symm, fun h => absurd h hopen, fun hhalf => (by cases hhalf)⟩

theorem fail (h : Sound maxRetries s) {i : ℕ} {now : ℚ} (hok : Careful maxRetries s (.fail i true now))
    (hcall : s.calls[i]? = some c) (hrunning : c.progress = .running) :
    Sound maxRetries (s.fail maxRetries i c now) ∧
      Conforms maxRetries resetTimeoutMs s (.fail i true now) (s.fail maxRetries i c now) := by
  have hprogress : c.progress ≠ .done := by rw [hrunning]; decide
  cases hstate : s.circuitState with
  | «open» => exact absurd (h.opened hstate).1 (Nat.pos_iff_ne_zero.mp (inProgress_pos hcall hprogress))
  | halfOpen =>
      obtain ⟨hone, hall⟩ := h.halfOpen hstate
      have hlast : s.LastOfAll i := by
        refine ⟨hone, fun c' hc' => ?_⟩
        obtain rfl := Option.some.inj (hcall.symm.trans hc')
        exact (hall c (List.mem_of_getElem? hcall) hprogress).2
      have hcount := Nat.le_succ_of_le (h.failures (by rw [hstate]; decide))
      exact fail_opens hcall hrunning (by rw [hstate]; decide) hlast hcount (if_pos (Or.inl hstate))
  | closed =>
      by_cases hcount : maxRetries ≤ s.failureCount + 1
      · exact fail_opens hcall hrunning (by rw [hstate]; decide) (hok.2 hstate hcount) hcount
          (if_pos (Or.inr ⟨hstate, hcount⟩))
      · refine sound_of_closed hstate ?_ ?_
        · simp only [RetryWithBackoff.fail, if_neg hcount]
          split_ifs
          · exact hstate
          · exact hstate
        · rw [documented, if_neg, hstate]
          rintro (hhalf | ⟨-, hmany⟩)
          · cases hstate.symm.trans hhalf
          · exact hcount hmany

theorem wake (h : Sound maxRetries s) {i : ℕ} {now : ℚ} {s' : RetryWithBackoff}
    (hcall : s.calls[i]? = some c) (hsleeping : c.progress = .sleeping) (hs' : s'.circuitState = s.circuitState) :
    Sound maxRetries s' ∧ Conforms maxRetries resetTimeoutMs s (.wake i now) s' := by
  have hprogress : c.progress ≠ .done := by rw [hsleeping]; decide
  cases hstate : s.circuitState with
  | closed => exact sound_of_closed hstate (hs'.trans hstate) hstate
  | «open» => exact absurd (h.opened hstate).1 (Nat.pos_iff_ne_zero.mp (inProgress_pos hcall hprogress))
  | halfOpen =>
      have hrunning := ((h.halfOpen hstate).2 c (List.mem_of_getElem? hcall) hprogress).1
      cases hsleeping.symm.trans hrunning

theorem step (h : Sound maxRetries s) {a : Action} {s' : RetryWithBackoff} (hok : Careful maxRetries s a)
    (hs : s.step maxRetries resetTimeoutMs a = some s') :
    Sound maxRetries s' ∧ Conforms maxRetries resetTimeoutMs s a s' := by
  have hread : ∀ {i : ℕ} {p : Progress} {c : Call}, (s.calls[i]?.filter fun c : Call => decide (c.progress = p)) = some c →
      s.calls[i]? = some c ∧ c.progress = p := by
    intro i p c hc
    obtain ⟨hcall, hp⟩ := Option.filter_eq_some_iff.mp hc
    exact ⟨hcall, of_decide_eq_true hp⟩
  cases a with
  | execute now =>
      rw [RetryWithBackoff.step] at hs
      split_ifs at hs
      exact Option.some.inj hs ▸ h.execute hok
  | succeed i =>
      obtain ⟨c, hc, rfl⟩ := Option.map_eq_some_iff.mp hs
      exact h.succeed (hread hc).1 (hread hc).2
  | fail i readable now =>
      obtain rfl := hok.1
      simp only [RetryWithBackoff.step, if_true] at hs
      split_ifs at hs
      obtain ⟨c, hc, rfl⟩ := Option.map_eq_some_iff.mp hs
      exact h.fail hok (hread hc).1 (hread hc).2
  | wake i now =>
      rw [RetryWithBackoff.step] at hs
      split_ifs at hs
      obtain ⟨c, hc, rfl⟩ := Option.map_eq_some_iff.mp hs
      exact h.wake (hread hc).1 (hread hc).2 rfl

end Sound

end RetryWithBackoff
end BrowserMesh.Core.CircuitBreaker
