import BrowserMesh.Apps.PodSupervisor
import BrowserMesh.Library.Counting

/-! # What restarts keep

* **Turns.**  The attempts that count are the active ones, and with those that were woken they are at most
  `maxConcurrentRestarts` (`Turns`).
* **Tally.**  An entry was scheduled as often as its counter says (`Tally`).
* **Lawful.**  As long as no exit is handled for an entry that is being restarted, and no pod is given up while an attempt
  of it is past its timer, an entry has one attempt at most, and none once it was given up (`Lawful`). -/

namespace BrowserMesh.Apps
open Js Async Transition Counting

/-- The attempts of an entry that are still to come or in flight. -/
def pendingOf (l : List RestartAttempt) (e : ℕ) : ℕ := l.countP fun a => a.stage.pending && a.entry = e

def activeIn (l : List RestartAttempt) : ℕ := l.countP fun a => a.stage.active

def wokenIn (l : List RestartAttempt) : ℕ := l.countP fun a => a.stage = .woken

def flightsIn (l : List RestartAttempt) : ℕ := l.countP fun a => a.stage.inFlight

def PodEntry.untimed (entry : PodEntry) : PodEntry := { entry with backoffTimer := none }

def PodEntry.tallied (entry : PodEntry) : ℕ × ℕ := (entry.restarts, entry.maxRestarts)

/-- How often an entry was scheduled. -/
def scheduledIn (log : List SupervisorNote) (e : ℕ) : ℕ :=
  log.countP fun | .scheduled e' _ => e' = e | _ => false

namespace PodSupervisor

theorem scheduledIn_cons (log : List SupervisorNote) (e e' k : ℕ) :
    scheduledIn (.scheduled e k :: log) e' = scheduledIn log e' + if e = e' then 1 else 0 := by
  unfold scheduledIn
  rw [List.countP_cons]
  simp

theorem entry_of_modify {s : PodSupervisor} {e e' : ℕ} {f : PodEntry → PodEntry} {entry' : PodEntry}
    (h : (s.modifyEntry e f).entries[e']? = some entry') :
    ∃ entry, s.entries[e']? = some entry ∧ entry' = if e = e' then f entry else entry := by
  unfold modifyEntry at h
  rw [List.getElem?_modify] at h
  obtain ⟨entry, hentry, heq⟩ := Option.map_eq_some_iff.mp h
  exact ⟨entry, hentry, heq.symm⟩

theorem countP_wake {p : RestartAttempt → Bool} (h : ∀ a : RestartAttempt, a.stage = .queued → p { a with stage := .woken } = p a)
    (l : List RestartAttempt) : (wake l).countP p = l.countP p := by
  induction l with
  | nil => rfl
  | cons a rest ih =>
      rw [wake]
      split_ifs with hqueued
      · rw [List.countP_cons, List.countP_cons, h a hqueued]
      · rw [List.countP_cons, List.countP_cons, ih]

theorem wokenIn_wake (l : List RestartAttempt) : wokenIn (wake l) ≤ wokenIn l + 1 := by
  unfold wokenIn
  induction l with
  | nil => exact Nat.le_succ _
  | cons a rest ih =>
      rw [wake]
      split_ifs with hqueued
      · rw [List.countP_cons, List.countP_cons]
        split_ifs
        · omega
        · omega
        · omega
        · omega
      · rw [List.countP_cons, List.countP_cons]
        omega

theorem activeIn_wake (l : List RestartAttempt) : activeIn (wake l) = activeIn l :=
  countP_wake (fun a hqueued => by rw [hqueued]; rfl) l

theorem pendingOf_wake (l : List RestartAttempt) (e : ℕ) : pendingOf (wake l) e = pendingOf l e :=
  countP_wake (fun a hqueued => by rw [hqueued]; rfl) l

theorem mem_wake {l : List RestartAttempt} {a : RestartAttempt} (h : a ∈ wake l) :
    ∃ b ∈ l, a.entry = b.entry ∧ a.number = b.number := by
  induction l with
  | nil => cases h
  | cons b rest ih =>
      rw [wake] at h
      split_ifs at h
      · rcases List.mem_cons.mp h with rfl | h
        · exact ⟨b, List.mem_cons_self, rfl, rfl⟩
        · exact ⟨a, List.mem_cons_of_mem b h, rfl, rfl⟩
      · rcases List.mem_cons.mp h with rfl | h
        · exact ⟨a, List.mem_cons_self, rfl, rfl⟩
        · obtain ⟨c, hc, hac⟩ := ih h
          exact ⟨c, List.mem_cons_of_mem b hc, hac⟩

/-! ### Turns -/

/-- The attempts that are active are counted, and there is a turn for each. -/
structure Turns (s : PodSupervisor) : Prop where
  active : activeIn s.attempts = s.activeRestarts
  bound : s.activeRestarts + wokenIn s.attempts ≤ s.maxConcurrent

section
variable {s s' : PodSupervisor} {i e : ℕ} {a b : RestartAttempt}

theorem activeIn_set (h : s.attempts[i]? = some a) (b : RestartAttempt) :
    activeIn (s.attempts.set i b) + (if a.stage.active then 1 else 0) =
      activeIn s.attempts + if b.stage.active then 1 else 0 := countP_set_add _ b h

theorem wokenIn_set (h : s.attempts[i]? = some a) (b : RestartAttempt) :
    wokenIn (s.attempts.set i b) + (if a.stage = .woken then 1 else 0) =
      wokenIn s.attempts + if b.stage = .woken then 1 else 0 := by
  have hset := countP_set_add (fun a : RestartAttempt => a.stage = .woken) b h
  simp only [decide_eq_true_eq] at hset
  exact hset

theorem activeIn_erase (h : s.attempts[i]? = some a) :
    activeIn (s.attempts.eraseIdx i) + (if a.stage.active then 1 else 0) = activeIn s.attempts :=
  countP_eraseIdx_add _ h

theorem wokenIn_erase (h : s.attempts[i]? = some a) :
    wokenIn (s.attempts.eraseIdx i) + (if a.stage = .woken then 1 else 0) = wokenIn s.attempts := by
  have herase := countP_eraseIdx_add (fun a : RestartAttempt => a.stage = .woken) h
  simp only [decide_eq_true_eq] at herase
  exact herase

theorem wokenIn_eq_zero (h : ∀ b ∈ s.attempts, b.stage ≠ .woken) : wokenIn s.attempts = 0 :=
  List.countP_eq_zero.mpr fun b hb => by simpa using h b hb

theorem Turns.of_same (h : Turns s) (hattempts : s'.attempts = s.attempts) (hactive : s'.activeRestarts = s.activeRestarts)
    (hmax : s'.maxConcurrent = s.maxConcurrent) : Turns s' := by
  refine ⟨?_, ?_⟩
  · rw [hattempts, hactive]
    exact h.active
  · rw [hattempts, hactive, hmax]
    exact h.bound

theorem Turns.set (h : Turns s) (hi : s.attempts[i]? = some a) (hactive : b.stage.active = a.stage.active)
    (hwoken : b.stage ≠ .woken) (hattempts : s'.attempts = s.attempts.set i b)
    (hcount : s'.activeRestarts = s.activeRestarts) (hmax : s'.maxConcurrent = s.maxConcurrent) : Turns s' := by
  have hset := activeIn_set hi b
  have hset' := wokenIn_set hi b
  have hbound := h.bound
  rw [hactive] at hset
  rw [if_neg hwoken] at hset'
  refine ⟨?_, ?_⟩
  · rw [hattempts, hcount, ← h.active]
    omega
  · rw [hattempts, hcount, hmax]
    omega

theorem Turns.release (hactive : activeIn s.attempts + 1 = s.activeRestarts)
    (hbound : s.activeRestarts + wokenIn s.attempts ≤ s.maxConcurrent) : Turns s.release := by
  have hwoken := wokenIn_wake s.attempts
  refine ⟨?_, ?_⟩
  · change activeIn (wake s.attempts) = s.activeRestarts - 1
    rw [activeIn_wake]
    omega
  · change s.activeRestarts - 1 + wokenIn (wake s.attempts) ≤ s.maxConcurrent
    omega

theorem Turns.runRestart (h : Turns s) (hi : s.attempts[i]? = some a) (hactive : a.stage.active = false)
    (hturn : s.activeRestarts + 1 + wokenIn s.attempts ≤ s.maxConcurrent + if a.stage = .woken then 1 else 0) :
    Turns (s.runRestart i a) := by
  have hturns : ∀ b : RestartAttempt, b.stage.active = true → b.stage ≠ .woken → ∀ s' : PodSupervisor,
      s'.attempts = s.attempts.set i b → s'.activeRestarts = s.activeRestarts + 1 →
      s'.maxConcurrent = s.maxConcurrent → Turns s' := by
    intro b hb hwoken s' hattempts hcount hmax
    have hset := activeIn_set hi b
    have hset' := wokenIn_set hi b
    rw [hactive, hb] at hset
    rw [if_neg hwoken] at hset'
    refine ⟨?_, ?_⟩
    · rw [hattempts, hcount, ← h.active]
      simpa using hset
    · rw [hattempts, hcount, hmax]
      omega
  unfold PodSupervisor.runRestart
  dsimp only
  split_ifs
  · exact hturns _ rfl (fun heq => (by cases heq)) _ rfl rfl rfl
  · exact hturns _ rfl (fun heq => (by cases heq)) _ rfl rfl rfl

theorem runRestart_maxConcurrent (s : PodSupervisor) (i : ℕ) (a : RestartAttempt) :
    (s.runRestart i a).maxConcurrent = s.maxConcurrent := by
  unfold PodSupervisor.runRestart
  dsimp only
  split_ifs
  · rfl
  · rfl

theorem rekey_turns (s : PodSupervisor) (e : ℕ) (newHost : JsString) :
    (s.rekey e newHost).attempts = s.attempts ∧ (s.rekey e newHost).activeRestarts = s.activeRestarts ∧
      (s.rekey e newHost).maxConcurrent = s.maxConcurrent := by
  unfold rekey
  split
  · exact ⟨rfl, rfl, rfl⟩
  · dsimp only
    split_ifs
    · exact ⟨rfl, rfl, rfl⟩
    · exact ⟨rfl, rfl, rfl⟩

/-- What `scheduleRestart` leaves as it is, and the attempt that it starts. -/
theorem scheduleRestart_turns (s : PodSupervisor) (e : ℕ) (reason : JsString) (running : Bool) :
    (s.scheduleRestart e reason running).1.attempts = s.attempts ∧
      (s.scheduleRestart e reason running).1.activeRestarts = s.activeRestarts ∧
      (s.scheduleRestart e reason running).1.maxConcurrent = s.maxConcurrent ∧
      ∀ b, (s.scheduleRestart e reason running).2 = some b → b.entry = e ∧ b.stage = .scheduling running := by
  unfold scheduleRestart
  split
  · exact ⟨rfl, rfl, rfl, fun b hb => (by cases hb)⟩
  · split_ifs
    · exact ⟨rfl, rfl, rfl, fun b hb => (by cases hb)⟩
    · refine ⟨rfl, rfl, rfl, fun b hb => ?_⟩
      obtain rfl := Option.some.inj hb
      exact ⟨rfl, rfl⟩

theorem Turns.restartFailed (h : Turns s) (hi : s.attempts[i]? = some a) (hactive : a.stage.active = true) :
    Turns (s.restartFailed i a) ∧ (s.restartFailed i a).maxConcurrent = s.maxConcurrent := by
  obtain ⟨hattempts, hcount, hmax, hnew⟩ := scheduleRestart_turns s a.entry (js "restart-failed") true
  refine ⟨?_, hmax⟩
  have hset : ∀ b : RestartAttempt, b.stage.active = true → b.stage ≠ .woken →
      Turns ((s.scheduleRestart a.entry (js "restart-failed") true).1.setAttempt i b) := by
    intro b hb hwoken
    refine h.set hi (hb.trans hactive.symm) hwoken ?_ hcount hmax
    change (s.scheduleRestart _ _ _).1.attempts.set i b = _
    rw [hattempts]
  unfold PodSupervisor.restartFailed
  dsimp only
  cases hnext : (s.scheduleRestart a.entry (js "restart-failed") true).2 with
  | none => exact hset { a with stage := .finishing } rfl (fun heq => (by cases heq))
  | some b =>
      have hstage := (hnew b hnext).2
      refine hset b (by rw [hstage]; rfl) ?_
      rw [hstage]
      exact fun heq => (by cases heq)

theorem Turns.event (h : Turns s) {event : AttemptEvent} (hi : s.attempts[i]? = some a)
    (hs : s.attempt i a event = some s') : Turns s' ∧ s'.maxConcurrent = s.maxConcurrent := by
  cases event with
  | audited =>
      simp only [attempt] at hs
      split at hs
      · rename_i running hstage
        obtain rfl := Option.some.inj hs
        have hset := activeIn_set hi { a with stage := .armed }
        have hset' := wokenIn_set hi { a with stage := .armed }
        have hactive := h.active
        have hbound := h.bound
        rw [hstage] at hset hset'
        cases running with
        | false =>
            exact ⟨h.set hi (by rw [hstage]; rfl) (fun heq => (by cases heq)) rfl rfl rfl, rfl⟩
        | true =>
            refine ⟨Turns.release ?_ ?_, rfl⟩
            · change activeIn (s.attempts.set i { a with stage := .armed }) + 1 = s.activeRestarts
              simp only [AttemptStage.active] at hset
              simpa [← hactive] using hset
            · change s.activeRestarts + wokenIn (s.attempts.set i { a with stage := .armed }) ≤ s.maxConcurrent
              simp only [reduceCtorEq, if_false] at hset'
              omega
      · rename_i hstage
        obtain rfl := Option.some.inj hs
        have herase := activeIn_erase hi
        have herase' := wokenIn_erase hi
        have hbound := h.bound
        rw [hstage] at herase herase'
        refine ⟨Turns.release (s := { s with attempts := s.attempts.eraseIdx i }) ?_ ?_, rfl⟩
        · rw [← h.active]
          exact herase
        · change s.activeRestarts + wokenIn (s.attempts.eraseIdx i) ≤ s.maxConcurrent
          simp only [reduceCtorEq, if_false] at herase'
          omega
      · cases hs
  | fires =>
      simp only [attempt] at hs
      split_ifs at hs with hfires hfull
      · obtain rfl := Option.some.inj hs
        have herase := activeIn_erase hi
        have herase' := wokenIn_erase hi
        have hbound := h.bound
        rw [hfires.1] at herase herase'
        refine ⟨⟨?_, ?_⟩, rfl⟩
        · change activeIn (s.attempts.eraseIdx i ++ [{ a with stage := .queued }]) = s.activeRestarts
          rw [← h.active, ← herase]
          exact List.countP_append
        · change s.activeRestarts + wokenIn (s.attempts.eraseIdx i ++ [{ a with stage := .queued }]) ≤ s.maxConcurrent
          have happend : wokenIn (s.attempts.eraseIdx i ++ [{ a with stage := .queued }]) =
            wokenIn (s.attempts.eraseIdx i) := List.countP_append
          simp only [reduceCtorEq, if_false] at herase'
          omega
      · obtain rfl := Option.some.inj hs
        have hzero := wokenIn_eq_zero hfires.2
        refine ⟨Turns.runRestart (h.of_same rfl rfl rfl) hi (by rw [hfires.1]; rfl) ?_, runRestart_maxConcurrent ..⟩
        change s.activeRestarts + 1 + wokenIn s.attempts ≤ s.maxConcurrent + _
        simp only [modifyEntry] at hfull
        omega
  | continues =>
      simp only [attempt] at hs
      split_ifs at hs with hwoken
      obtain rfl := Option.some.inj hs
      have hbound := h.bound
      refine ⟨h.runRestart hi (by rw [hwoken]; rfl) ?_, runRestart_maxConcurrent ..⟩
      rw [if_pos hwoken]
      omega
  | spawned =>
      simp only [attempt] at hs
      split at hs
      · rename_i hstage
        obtain rfl := Option.some.inj hs
        exact ⟨h.set hi (by rw [hstage]; rfl) (fun heq => (by cases heq)) rfl rfl rfl, rfl⟩
      · rename_i newHost hstage
        obtain rfl := Option.some.inj hs
        obtain ⟨hattempts, hcount, hmax⟩ := rekey_turns s a.entry newHost
        refine ⟨h.set (b := { a with stage := .finishing }) hi (by rw [hstage]; rfl) (fun heq => (by cases heq)) ?_ hcount
          hmax, hmax⟩
        change (s.rekey a.entry newHost).attempts.set i _ = _
        rw [hattempts]
      · cases hs
  | refused =>
      simp only [attempt] at hs
      split at hs
      · rename_i hstage
        obtain rfl := Option.some.inj hs
        exact ⟨h.set hi (by rw [hstage]; rfl) (fun heq => (by cases heq)) rfl rfl rfl, rfl⟩
      · rename_i newHost hstage
        obtain rfl := Option.some.inj hs
        exact h.restartFailed hi (by rw [hstage]; rfl)
      · cases hs
  | failed =>
      simp only [attempt] at hs
      split at hs
      · rename_i hstage
        obtain rfl := Option.some.inj hs
        exact h.restartFailed hi (by rw [hstage]; rfl)
      · rename_i hstage
        obtain rfl := Option.some.inj hs
        exact h.restartFailed hi (by rw [hstage]; rfl)
      · rename_i newHost hstage
        obtain rfl := Option.some.inj hs
        exact h.restartFailed hi (by rw [hstage]; rfl)
      · cases hs
  | placed newHost =>
      simp only [attempt] at hs
      split at hs
      · rename_i hstage
        obtain rfl := Option.some.inj hs
        exact ⟨h.set hi (by rw [hstage]; rfl) (fun heq => (by cases heq)) rfl rfl rfl, rfl⟩
      · cases hs

/-! ### Timers that are cleared -/

/-- Attempts whose timer had not fired are dropped, and nothing else changes. -/
structure Cleared (s s' : PodSupervisor) : Prop where
  attempts : s'.attempts.Sublist s.attempts
  active : activeIn s'.attempts = activeIn s.attempts
  woken : wokenIn s'.attempts = wokenIn s.attempts
  entries : s'.entries.map PodEntry.untimed = s.entries.map PodEntry.untimed
  rest : s' = { s with attempts := s'.attempts, entries := s'.entries }

theorem Cleared.refl (s : PodSupervisor) : Cleared s s := ⟨.refl _, rfl, rfl, rfl, rfl⟩

theorem Cleared.trans {s'' : PodSupervisor} (h : Cleared s s') (h' : Cleared s' s'') : Cleared s s'' := by
  refine ⟨h'.attempts.trans h.attempts, h'.active.trans h.active, h'.woken.trans h.woken, h'.entries.trans h.entries, ?_⟩
  rw [h'.rest, h.rest]

theorem Cleared.entry (h : Cleared s s') (e : ℕ) :
    s'.entries[e]?.map PodEntry.untimed = s.entries[e]?.map PodEntry.untimed := by
  rw [← List.getElem?_map, ← List.getElem?_map, h.entries]

theorem map_modify {f : PodEntry → PodEntry} {β : Type} {g : PodEntry → β} (h : ∀ entry, g (f entry) = g entry)
    (l : List PodEntry) (e : ℕ) : (l.modify e f).map g = l.map g := by
  refine List.ext_getElem? fun e' => ?_
  rw [List.getElem?_map, List.getElem?_map, List.getElem?_modify]
  cases l[e']? with
  | none => rfl
  | some entry =>
      change some (g (if e = e' then f entry else entry)) = some (g entry)
      split_ifs
      · rw [h]
      · rfl

theorem cleared_stopTimer (s : PodSupervisor) (e : ℕ) : Cleared s (s.stopTimer e) := by
  unfold stopTimer
  split
  · exact .refl s
  · rename_i n _
    have hcount : ∀ p : RestartAttempt → Bool, (∀ a, a.stage = .armed → p a = false) →
        (s.attempts.filter fun a => ¬ (a.entry = e ∧ a.number = n ∧ a.stage = .armed)).countP p = s.attempts.countP p := by
      intro p hp
      rw [List.countP_filter]
      refine List.countP_congr fun a _ => ?_
      by_cases harmed : a.stage = .armed
      · simp [hp a harmed]
      · simp [harmed]
    exact ⟨List.filter_sublist, hcount _ (fun a harmed => by rw [harmed]; rfl),
      hcount _ (fun a harmed => by rw [harmed]; rfl), rfl, rfl⟩

theorem cleared_clearTimer (s : PodSupervisor) (e : ℕ) : Cleared s (s.clearTimer e) :=
  (cleared_stopTimer s e).trans ⟨.refl _, rfl, rfl,
    map_modify (f := fun entry => { entry with backoffTimer := none }) (fun _ => rfl) _ _, rfl⟩

theorem cleared_clearTimer? (s : PodSupervisor) (e : Option ℕ) : Cleared s (s.clearTimer? e) := by
  cases e with
  | none => exact .refl s
  | some e => exact cleared_clearTimer s e

theorem cleared_foldl (l : List ℕ) (s : PodSupervisor) : Cleared s (l.foldl clearTimer s) := by
  induction l generalizing s with
  | nil => exact .refl s
  | cons e l ih => exact (cleared_clearTimer s e).trans (ih _)

theorem Turns.of_cleared (h : Turns s) (hs : Cleared s s') : Turns s' ∧ s'.maxConcurrent = s.maxConcurrent := by
  have hrest := hs.rest
  have hcount : s'.activeRestarts = s.activeRestarts := by rw [hrest]
  have hmax : s'.maxConcurrent = s.maxConcurrent := by rw [hrest]
  refine ⟨⟨?_, ?_⟩, hmax⟩
  · rw [hs.active, hcount, h.active]
  · rw [hs.woken, hcount, hmax]
    exact h.bound

/-- An attempt that has only been scheduled takes no turn. -/
theorem Turns.append (h : Turns s) (hattempts : s'.attempts = s.attempts ++ [b]) (hb : b.stage = .scheduling false)
    (hcount : s'.activeRestarts = s.activeRestarts) (hmax : s'.maxConcurrent = s.maxConcurrent) : Turns s' := by
  have hone : ∀ p : RestartAttempt → Bool, p b = false → s'.attempts.countP p = s.attempts.countP p := by
    intro p hp
    rw [hattempts, List.countP_append, List.countP_cons, hp]
    rfl
  refine ⟨?_, ?_⟩
  · rw [hcount, ← h.active]
    exact hone _ (by rw [hb]; rfl)
  · rw [hcount, hmax]
    exact (congrArg (s.activeRestarts + ·) (hone _ (by rw [hb]; rfl))).trans_le h.bound

theorem Turns.onExit (h : Turns s) (ref : PodRef) (data : ExitData) (after : AfterExit) :
    Turns (s.onExit ref data after).1 ∧ (s.onExit ref data after).1.maxConcurrent = s.maxConcurrent := by
  unfold PodSupervisor.onExit
  split
  · rename_i e _ _
    obtain ⟨hattempts, hcount, hmax, hnew⟩ := scheduleRestart_turns (s.setState e .restarting) e data.reason false
    split
    · rename_i s' b hs'
      rw [hs'] at hattempts hcount hmax hnew
      refine ⟨h.append ?_ (hnew b rfl).2 hcount hmax, hmax⟩
      change s'.attempts ++ [b] = _
      rw [show s'.attempts = s.attempts from hattempts]
    · rename_i s' hs'
      rw [hs'] at hattempts hcount hmax
      exact ⟨h.of_same hattempts hcount hmax, hmax⟩
  · split
    · exact ⟨h.of_same rfl rfl rfl, rfl⟩
    · exact ⟨h, rfl⟩

theorem Turns.drained? (h : Turns s) (entry : Option ℕ) :
    Turns (s.drained? entry) ∧ (s.drained? entry).maxConcurrent = s.maxConcurrent := by
  cases entry with
  | none => exact ⟨h, rfl⟩
  | some e => exact ⟨h.of_same rfl rfl rfl, rfl⟩

variable {r : PodSupervisor × SupervisorTask}

theorem Turns.start (h : Turns s) {call : SupervisorCall}
    (hs : s.startCall call = some r) : Turns r.1 ∧ r.1.maxConcurrent = s.maxConcurrent := by
  cases call with
  | supervise ref restart =>
      obtain rfl := Option.some.inj hs
      exact ⟨h, rfl⟩
  | unsupervise ref =>
      obtain rfl := Option.some.inj hs
      change Turns (s.unsupervise ref) ∧ (s.unsupervise ref).maxConcurrent = _
      unfold PodSupervisor.unsupervise
      split
      · exact ⟨h, rfl⟩
      · rename_i e _
        obtain ⟨hcleared, hmax⟩ := h.of_cleared (cleared_stopTimer s e)
        exact ⟨hcleared.of_same rfl rfl rfl, hmax⟩
  | drain ref cascade =>
      obtain rfl := Option.some.inj hs
      cases cascade with
      | true => exact ⟨h, rfl⟩
      | false => exact h.of_cleared (cleared_clearTimer? s _)
  | stop =>
      obtain rfl := Option.some.inj hs
      change Turns s.stop ∧ s.stop.maxConcurrent = _
      unfold PodSupervisor.stop
      split_ifs
      · exact ⟨h, rfl⟩
      · obtain ⟨hcleared, hmax⟩ := h.of_cleared (cleared_foldl s.pods.values s)
        exact ⟨hcleared.of_same rfl rfl rfl, hmax⟩
  | exit ref data =>
      simp only [startCall] at hs
      split_ifs at hs
      obtain rfl := Option.some.inj hs
      exact ⟨h, rfl⟩
  | hostLost host =>
      simp only [startCall] at hs
      split_ifs at hs
      · obtain rfl := Option.some.inj hs
        exact ⟨h, rfl⟩
      · obtain rfl := Option.some.inj hs
        exact ⟨h, rfl⟩
  | reconcile =>
      simp only [startCall] at hs
      split_ifs at hs
      obtain rfl := Option.some.inj hs
      exact ⟨h, rfl⟩
  | attempt i event =>
      obtain ⟨s', hs', rfl⟩ := Option.map_eq_some_iff.mp hs
      obtain ⟨a, hi, hs'⟩ := Option.bind_eq_some_iff.mp hs'
      exact h.event hi hs'

/-! ### Calls that go on -/

/-- The entry of a pod that was spawned. -/
def supervised (s : PodSupervisor) (ref : PodRef) (restart : RestartSpec) : PodSupervisor :=
  { s with
    entries := s.entries ++ [⟨ref, restart, 0, .running, none⟩]
    pods := s.pods.set (refKey ref) s.entries.length }

/-- The entry that a call is about to mark as dead. -/
def settles : SupervisorFrame → Option (Option ℕ)
  | .drainingChild _ child _ => some child
  | .draining entry => some entry
  | _ => none

/-- What a call that goes on does to the supervisor. -/
inductive Goes (s : PodSupervisor) (frame : SupervisorFrame) (event : SupervisorEvent) :
    PodSupervisor × SupervisorTask → Prop
  | stays (t : SupervisorTask) : Goes s frame event (s, t)
  | supervised (ref : PodRef) (restart : RestartSpec) : frame = .supervising ref restart →
      Goes s frame event (s.supervised ref restart, .returned ())
  | clears (entry : Option ℕ) (t : SupervisorTask) : Goes s frame event (s.clearTimer? entry, t)
  | drained (entry : Option ℕ) (t : SupervisorTask) : settles frame = some entry → event = .settled →
      Goes s frame event (s.drained? entry, t)
  | exits (ref : PodRef) (data : ExitData) (after : AfterExit) : frame = .cascading [] (.exit ref data after) →
      event = .settled → Goes s frame event (s.onExit ref data after)

variable {frame : SupervisorFrame}

theorem goes_resume {event : SupervisorEvent} (hs : s.resumeCall frame event = some r) : Goes s frame event r := by
  unfold resumeCall at hs
  split at hs
  · obtain rfl := Option.some.inj hs
    exact .supervised _ _ rfl
  · obtain rfl := Option.some.inj hs
    exact .stays _
  · obtain rfl := Option.some.inj hs
    exact .stays _
  · obtain rfl := Option.some.inj hs
    exact .clears _ _
  · obtain rfl := Option.some.inj hs
    exact .clears _ _
  · obtain rfl := Option.some.inj hs
    exact .exits _ _ _ rfl rfl
  · obtain rfl := Option.some.inj hs
    exact .drained _ _ rfl rfl
  · obtain rfl := Option.some.inj hs
    exact .drained _ _ rfl rfl
  · obtain rfl := Option.some.inj hs
    exact .stays _
  · split_ifs at hs
    obtain rfl := Option.some.inj hs
    exact .stays _
  · obtain rfl := Option.some.inj hs
    exact .stays _
  · obtain rfl := Option.some.inj hs
    exact .stays _
  · obtain rfl := Option.some.inj hs
    exact .stays _
  · obtain rfl := Option.some.inj hs
    exact .stays _
  · cases hs

theorem Turns.goes (h : Turns s) {event : SupervisorEvent} (hs : Goes s frame event r) :
    Turns r.1 ∧ r.1.maxConcurrent = s.maxConcurrent := by
  cases hs with
  | stays t => exact ⟨h, rfl⟩
  | supervised ref restart _ => exact ⟨h.of_same rfl rfl rfl, rfl⟩
  | clears entry t => exact h.of_cleared (cleared_clearTimer? s entry)
  | drained entry t _ _ => exact h.drained? entry
  | exits ref data after _ _ => exact h.onExit ref data after

/-- The restart spawns in flight have turns of their own. -/
theorem Turns.flightsIn_le (h : Turns s) : flightsIn s.attempts ≤ s.maxConcurrent := by
  have hflights : flightsIn s.attempts ≤ activeIn s.attempts := by
    refine List.countP_mono_left fun a _ hflight => ?_
    cases hstage : a.stage with
    | spawning => rfl
    | respawning newHost => rfl
    | scheduling running => simp [hstage, AttemptStage.inFlight] at hflight
    | armed => simp [hstage, AttemptStage.inFlight] at hflight
    | queued => simp [hstage, AttemptStage.inFlight] at hflight
    | woken => simp [hstage, AttemptStage.inFlight] at hflight
    | placing => rfl
    | finishing => rfl
  have hactive := h.active
  have hbound := h.bound
  omega

/-! ### Tally -/

/-- Each entry was scheduled as often as its counter says, and only what was scheduled is attempted. -/
structure Tally (s : PodSupervisor) : Prop where
  counted : ∀ e entry, s.entries[e]? = some entry → scheduledIn s.log e = entry.restarts ∧ entry.restarts ≤ entry.maxRestarts
  fresh : ∀ e, s.entries.length ≤ e → scheduledIn s.log e = 0
  attempts : ∀ a ∈ s.attempts, .scheduled a.entry a.number ∈ s.log
  spawns : ∀ e n, .restartSpawn e n ∈ s.log → .scheduled e n ∈ s.log

/-- Nothing is scheduled, and only attempts that were made spawn. -/
structure Follows (s s' : PodSupervisor) : Prop where
  entries : s'.entries.map PodEntry.tallied = s.entries.map PodEntry.tallied
  attempts : ∀ a ∈ s'.attempts, ∃ b ∈ s.attempts, a.entry = b.entry ∧ a.number = b.number
  log : ∃ notes, s'.log = notes ++ s.log ∧ ∀ n ∈ notes, (∀ e k, n ≠ .scheduled e k) ∧
    ∀ e k, n = .restartSpawn e k → ∃ a ∈ s.attempts, a.entry = e ∧ a.number = k

theorem Follows.refl (s : PodSupervisor) : Follows s s :=
  ⟨rfl, fun a ha => ⟨a, ha, rfl, rfl⟩, [], rfl, fun _ hn => (by cases hn)⟩

theorem Follows.trans {s'' : PodSupervisor} (h : Follows s s') (h' : Follows s' s'') : Follows s s'' := by
  obtain ⟨notes, hlog, hnotes⟩ := h.log
  obtain ⟨notes', hlog', hnotes'⟩ := h'.log
  refine ⟨h'.entries.trans h.entries, fun a ha => ?_, notes' ++ notes, by rw [hlog', hlog, List.append_assoc], ?_⟩
  · obtain ⟨b, hb, hab⟩ := h'.attempts a ha
    obtain ⟨c, hc, hbc⟩ := h.attempts b hb
    exact ⟨c, hc, hab.1.trans hbc.1, hab.2.trans hbc.2⟩
  · intro n hn
    rcases List.mem_append.mp hn with hn | hn
    · refine ⟨(hnotes' n hn).1, fun e k heq => ?_⟩
      obtain ⟨b, hb, hbe, hbk⟩ := (hnotes' n hn).2 e k heq
      obtain ⟨c, hc, hbc⟩ := h.attempts b hb
      exact ⟨c, hc, hbc.1.symm.trans hbe, hbc.2.symm.trans hbk⟩
    · exact hnotes n hn

/-- Only the entries change, and not their counters. -/
theorem Follows.of_entries (hentries : s'.entries.map PodEntry.tallied = s.entries.map PodEntry.tallied)
    (hattempts : s'.attempts = s.attempts) (hlog : s'.log = s.log) : Follows s s' :=
  ⟨hentries, fun a ha => ⟨a, hattempts ▸ ha, rfl, rfl⟩, [], hlog, fun _ hn => (by cases hn)⟩

theorem Follows.of_attempts (hentries : s'.entries = s.entries)
    (hattempts : ∀ a ∈ s'.attempts, ∃ b ∈ s.attempts, a.entry = b.entry ∧ a.number = b.number)
    (hlog : s'.log = s.log) : Follows s s' :=
  ⟨by rw [hentries], hattempts, [], hlog, fun _ hn => (by cases hn)⟩

theorem Follows.of_note {n : SupervisorNote} (hentries : s'.entries = s.entries) (hattempts : s'.attempts = s.attempts)
    (hlog : s'.log = n :: s.log) (hn : ∀ e k, n ≠ .scheduled e k)
    (hspawn : ∀ e k, n = .restartSpawn e k → ∃ a ∈ s.attempts, a.entry = e ∧ a.number = k) : Follows s s' := by
  refine ⟨by rw [hentries], fun a ha => ⟨a, hattempts ▸ ha, rfl, rfl⟩, [n], hlog, fun n' hn' => ?_⟩
  obtain rfl := List.mem_singleton.mp hn'
  exact ⟨hn, hspawn⟩

theorem follows_modifyEntry (s : PodSupervisor) (e : ℕ) {f : PodEntry → PodEntry}
    (h : ∀ entry, (f entry).tallied = entry.tallied) : Follows s (s.modifyEntry e f) :=
  .of_entries (map_modify h s.entries e) rfl rfl

theorem follows_setAttempt (hi : s.attempts[i]? = some a) (hb : b.entry = a.entry ∧ b.number = a.number) :
    Follows s (s.setAttempt i b) := by
  refine .of_attempts rfl (fun c hc => ?_) rfl
  rcases List.mem_or_eq_of_mem_set hc with hc | rfl
  · exact ⟨c, hc, rfl, rfl⟩
  · exact ⟨a, List.mem_of_getElem? hi, hb⟩

theorem follows_release (s : PodSupervisor) : Follows s s.release :=
  .of_attempts rfl (fun _ ha => mem_wake ha) rfl

theorem Cleared.follows (h : Cleared s s') : Follows s s' := by
  have hlog : s'.log = s.log := by rw [h.rest]
  have hentries := congrArg (List.map PodEntry.tallied) h.entries
  rw [List.map_map, List.map_map] at hentries
  exact ⟨hentries, fun a ha => ⟨a, h.attempts.subset ha, rfl, rfl⟩, [], hlog, fun _ hn => (by cases hn)⟩

theorem follows_rekey (s : PodSupervisor) (e : ℕ) (newHost : JsString) : Follows s (s.rekey e newHost) := by
  unfold rekey
  split
  · exact .refl s
  · dsimp only
    split_ifs
    · exact follows_modifyEntry s e fun _ => rfl
    · exact (follows_modifyEntry (f := fun entry => { entry with ref := { entry.ref with host := newHost } }) s e
        fun _ => rfl).trans (.of_entries rfl rfl rfl)

theorem follows_drained? (s : PodSupervisor) (entry : Option ℕ) : Follows s (s.drained? entry) := by
  cases entry with
  | none => exact .refl s
  | some e =>
      exact (follows_modifyEntry (f := fun entry => { entry with state := .dead }) s e fun _ => rfl).trans
        (.of_note rfl rfl rfl (fun _ _ heq => (by cases heq)) (fun _ _ heq => (by cases heq)))

theorem follows_unsupervise (s : PodSupervisor) (ref : PodRef) : Follows s (s.unsupervise ref) := by
  unfold unsupervise
  split
  · exact .refl s
  · rename_i e _
    exact (cleared_stopTimer s e).follows.trans (.of_note rfl rfl rfl (fun _ _ heq => (by cases heq))
      (fun _ _ heq => (by cases heq)))

theorem follows_stop (s : PodSupervisor) : Follows s s.stop := by
  unfold stop
  split_ifs
  · exact .refl s
  · exact (cleared_foldl s.pods.values s).follows.trans (.of_note rfl rfl rfl (fun _ _ heq => (by cases heq))
      (fun _ _ heq => (by cases heq)))

theorem follows_runRestart (hi : s.attempts[i]? = some a) : Follows s (s.runRestart i a) := by
  have hturn : Follows s { s with activeRestarts := s.activeRestarts + 1 } := .of_entries rfl rfl rfl
  unfold runRestart
  dsimp only
  split_ifs
  · refine (hturn.trans (follows_setAttempt (b := { a with stage := .spawning }) hi ⟨rfl, rfl⟩)).trans (.of_note rfl rfl rfl (fun _ _ heq => (by cases heq)) ?_)
    intro e k heq
    cases heq
    exact ⟨_, List.mem_of_getElem? (List.getElem?_set_self (List.getElem?_eq_some_iff.mp hi).1), rfl, rfl⟩
  · exact hturn.trans (follows_setAttempt hi ⟨rfl, rfl⟩)

theorem follows_restarted (hi : s.attempts[i]? = some a) : Follows s (s.restarted i a) :=
  (follows_modifyEntry (f := fun entry => { entry with state := .running }) s a.entry fun _ => rfl).trans
    (follows_setAttempt hi ⟨rfl, rfl⟩)

theorem Follows.length (h : Follows s s') : s'.entries.length = s.entries.length := by
  rw [← List.length_map (f := PodEntry.tallied), h.entries, List.length_map]

theorem Tally.of_follows (h : Tally s) (hs : Follows s s') : Tally s' := by
  obtain ⟨notes, hlog, hnotes⟩ := hs.log
  have hscheduled : ∀ e, scheduledIn s'.log e = scheduledIn s.log e := by
    intro e
    unfold scheduledIn
    rw [hlog, List.countP_append, List.countP_eq_zero.mpr, zero_add]
    intro n hn
    cases n with
    | scheduled e' k => exact absurd rfl ((hnotes _ hn).1 e' k)
    | restartSpawn e' k => exact Bool.false_ne_true
    | unsupervised e' => exact Bool.false_ne_true
    | drained e' => exact Bool.false_ne_true
    | stopped => exact Bool.false_ne_true
  have hlength := hs.length
  refine ⟨fun e entry' hentry' => ?_, fun e he => ?_, fun a ha => ?_, fun e n hn => ?_⟩
  · have htallied := congrArg (·[e]?) hs.entries
    simp only [List.getElem?_map] at htallied
    rw [hentry'] at htallied
    obtain ⟨entry, hentry, heq⟩ := Option.map_eq_some_iff.mp htallied.symm
    obtain ⟨hcount, hmax⟩ := h.counted e entry hentry
    obtain ⟨hrestarts, hbound⟩ := Prod.mk.inj heq
    rw [hscheduled, ← hrestarts, ← hbound]
    exact ⟨hcount, hmax⟩
  · rw [hscheduled]
    exact h.fresh e (hlength ▸ he)
  · obtain ⟨b, hb, hentry, hnumber⟩ := hs.attempts a ha
    rw [hlog, hentry, hnumber]
    exact List.mem_append_right notes (h.attempts b hb)
  · rw [hlog] at hn ⊢
    rcases List.mem_append.mp hn with hn | hn
    · obtain ⟨b, hb, hentry, hnumber⟩ := (hnotes _ hn).2 e n rfl
      rw [← hentry, ← hnumber]
      exact List.mem_append_right notes (h.attempts b hb)
    · exact List.mem_append_right notes (h.spawns e n hn)

/-- What is scheduled is counted, and what was counted is the attempt's number. -/
theorem Tally.scheduleRestart (h : Tally s) (e : ℕ) (reason : JsString) (running : Bool) :
    Tally (s.scheduleRestart e reason running).1 ∧ ∀ b, (s.scheduleRestart e reason running).2 = some b →
      .scheduled b.entry b.number ∈ (s.scheduleRestart e reason running).1.log := by
  unfold PodSupervisor.scheduleRestart
  split
  · exact ⟨h, fun b hb => (by cases hb)⟩
  · rename_i entry hentry
    split_ifs with hmax
    · exact ⟨h.of_follows (follows_modifyEntry s e fun _ => rfl), fun b hb => (by cases hb)⟩
    · refine ⟨⟨fun e' entry' hentry' => ?_, fun e' he' => ?_, fun a ha => ?_, fun e' n hn => ?_⟩, fun b hb => ?_⟩
      · obtain ⟨entry₀, hentry₀, rfl⟩ := entry_of_modify hentry'
        obtain ⟨hcount, hbound⟩ := h.counted e' entry₀ hentry₀
        change scheduledIn (.scheduled e (entry.restarts + 1) :: s.log) e' = _ ∧ _
        rw [scheduledIn_cons, hcount]
        by_cases heq : e = e'
        · subst heq
          obtain rfl := Option.some.inj (hentry.symm.trans hentry₀)
          rw [if_pos rfl, if_pos rfl]
          exact ⟨rfl, Nat.lt_of_not_le hmax⟩
        · rw [if_neg heq, if_neg heq]
          exact ⟨rfl, hbound⟩
      · have hlength : s.entries.length ≤ e' := (List.length_modify ..).symm.trans_le he'
        change scheduledIn (.scheduled e (entry.restarts + 1) :: s.log) e' = 0
        rw [scheduledIn_cons, h.fresh e' hlength, if_neg]
        rintro rfl
        exact absurd (List.getElem?_eq_some_iff.mp hentry).1 (Nat.not_lt.mpr hlength)
      · exact List.mem_cons_of_mem _ (h.attempts a ha)
      · rcases List.mem_cons.mp hn with heq | hn
        · cases heq
        · exact List.mem_cons_of_mem _ (h.spawns e' n hn)
      · obtain rfl := Option.some.inj hb
        exact List.mem_cons_self

theorem Tally.of_attempts (h : Tally s) (hentries : s'.entries = s.entries) (hlog : s'.log = s.log)
    (hattempts : ∀ a ∈ s'.attempts, a ∈ s.attempts ∨ .scheduled a.entry a.number ∈ s.log) : Tally s' := by
  refine ⟨?_, ?_, fun a ha => ?_, ?_⟩
  · rw [hentries, hlog]
    exact h.counted
  · rw [hentries, hlog]
    exact h.fresh
  · rw [hlog]
    exact (hattempts a ha).elim (h.attempts a) id
  · rw [hlog]
    exact h.spawns

theorem Tally.restartFailed (h : Tally s) (hi : s.attempts[i]? = some a) : Tally (s.restartFailed i a) := by
  obtain ⟨htally, hnew⟩ := h.scheduleRestart a.entry (js "restart-failed") true
  obtain ⟨hattempts, -, -, -⟩ := scheduleRestart_turns s a.entry (js "restart-failed") true
  unfold PodSupervisor.restartFailed
  dsimp only
  rw [← hattempts] at hi
  cases hnext : (s.scheduleRestart a.entry (js "restart-failed") true).2 with
  | none => exact htally.of_follows (follows_setAttempt hi ⟨rfl, rfl⟩)
  | some b =>
      refine htally.of_attempts rfl rfl fun c hc => ?_
      rcases List.mem_or_eq_of_mem_set hc with hc | rfl
      · exact .inl hc
      · exact .inr (hnew _ hnext)

theorem Tally.onExit (h : Tally s) (ref : PodRef) (data : ExitData) (after : AfterExit) :
    Tally (s.onExit ref data after).1 := by
  unfold PodSupervisor.onExit
  split
  · rename_i e _ _
    have hrestarting : Tally (s.setState e .restarting) := h.of_follows (follows_modifyEntry s e fun _ => rfl)
    obtain ⟨htally, hnew⟩ := hrestarting.scheduleRestart e data.reason false
    split
    · rename_i s' b hs'
      rw [hs'] at htally hnew
      refine htally.of_attempts rfl rfl fun c hc => ?_
      rcases List.mem_append.mp hc with hc | hc
      · exact .inl hc
      · rw [List.mem_singleton.mp hc]
        exact .inr (hnew b rfl)
    · rename_i s' hs'
      rw [hs'] at htally
      exact htally
  · split
    · exact h.of_follows (follows_modifyEntry s _ fun _ => rfl)
    · exact h

/-- A pod that is supervised anew was never scheduled. -/
theorem Tally.supervised (h : Tally s) (ref : PodRef) (restart : RestartSpec) : Tally (s.supervised ref restart) := by
  refine ⟨fun e entry hentry => ?_, fun e he => ?_, h.attempts, h.spawns⟩
  · change (s.entries ++ [_])[e]? = some entry at hentry
    rcases Nat.lt_trichotomy e s.entries.length with hlt | rfl | hgt
    · rw [List.getElem?_append_left hlt] at hentry
      exact h.counted e entry hentry
    · rw [List.getElem?_concat_length] at hentry
      obtain rfl := Option.some.inj hentry
      exact ⟨h.fresh _ le_rfl, Nat.zero_le _⟩
    · rw [List.getElem?_eq_none] at hentry
      · cases hentry
      · rw [List.length_append]
        exact hgt
  · exact h.fresh e ((Nat.le_succ _).trans (List.length_append.symm.trans_le he))

/-- An event schedules nothing, except when the attempt fails. -/
theorem follows_attempt {event : AttemptEvent} (hi : s.attempts[i]? = some a) (hs : s.attempt i a event = some s') :
    Follows s s' ∨ s' = s.restartFailed i a := by
  cases event with
  | audited =>
      simp only [attempt] at hs
      split at hs
      · rename_i running hstage
        obtain rfl := Option.some.inj hs
        have harmed : Follows s ((s.setAttempt i { a with stage := .armed }).modifyEntry a.entry
            fun entry => { entry with backoffTimer := some a.number }) :=
          (follows_setAttempt (b := { a with stage := .armed }) hi ⟨rfl, rfl⟩).trans
            (follows_modifyEntry (f := fun entry => { entry with backoffTimer := some a.number }) _ a.entry fun _ => rfl)
        cases running with
        | false => exact .inl harmed
        | true => exact .inl (harmed.trans (follows_release _))
      · obtain rfl := Option.some.inj hs
        have herased : Follows s { s with attempts := s.attempts.eraseIdx i } :=
          .of_attempts rfl (fun b hb => ⟨b, (List.eraseIdx_sublist _ _).subset hb, rfl, rfl⟩) rfl
        exact .inl (herased.trans (follows_release _))
      · cases hs
  | fires =>
      simp only [attempt] at hs
      have hcleared : Follows s (s.modifyEntry a.entry fun entry => { entry with backoffTimer := none }) :=
        follows_modifyEntry s a.entry fun _ => rfl
      split_ifs at hs
      · obtain rfl := Option.some.inj hs
        refine .inl (hcleared.trans (.of_attempts rfl (fun b hb => ?_) rfl))
        rcases List.mem_append.mp hb with hb | hb
        · exact ⟨b, (List.eraseIdx_sublist _ _).subset hb, rfl, rfl⟩
        · rw [List.mem_singleton.mp hb]
          exact ⟨a, List.mem_of_getElem? hi, rfl, rfl⟩
      · obtain rfl := Option.some.inj hs
        exact .inl (hcleared.trans (follows_runRestart hi))
  | continues =>
      simp only [attempt] at hs
      split_ifs at hs
      obtain rfl := Option.some.inj hs
      exact .inl (follows_runRestart hi)
  | spawned =>
      simp only [attempt] at hs
      split at hs
      · obtain rfl := Option.some.inj hs
        exact .inl (follows_restarted hi)
      · rename_i newHost _
        obtain rfl := Option.some.inj hs
        have hi' : (s.rekey a.entry newHost).attempts[i]? = some a := by rw [(rekey_turns s a.entry newHost).1, hi]
        exact .inl ((follows_rekey s a.entry newHost).trans (follows_restarted hi'))
      · cases hs
  | refused =>
      simp only [attempt] at hs
      split at hs
      · obtain rfl := Option.some.inj hs
        exact .inl (follows_setAttempt hi ⟨rfl, rfl⟩)
      · obtain rfl := Option.some.inj hs
        exact .inr rfl
      · cases hs
  | failed =>
      simp only [attempt] at hs
      split at hs
      · obtain rfl := Option.some.inj hs
        exact .inr rfl
      · obtain rfl := Option.some.inj hs
        exact .inr rfl
      · obtain rfl := Option.some.inj hs
        exact .inr rfl
      · cases hs
  | placed newHost =>
      simp only [attempt] at hs
      split at hs
      · obtain rfl := Option.some.inj hs
        refine .inl ((follows_setAttempt (b := { a with stage := .respawning newHost }) hi ⟨rfl, rfl⟩).trans
          (.of_note rfl rfl rfl (fun _ _ heq => (by cases heq)) fun e k heq => ?_))
        cases heq
        exact ⟨_, List.mem_of_getElem? (List.getElem?_set_self (List.getElem?_eq_some_iff.mp hi).1), rfl, rfl⟩
      · cases hs

theorem scheduleRestart_length (s : PodSupervisor) (e : ℕ) (reason : JsString) (running : Bool) :
    (s.scheduleRestart e reason running).1.entries.length = s.entries.length := by
  unfold scheduleRestart
  split
  · rfl
  · split_ifs
    · exact List.length_modify ..
    · exact List.length_modify ..

theorem attempt_length {event : AttemptEvent} (hi : s.attempts[i]? = some a) (hs : s.attempt i a event = some s') :
    s'.entries.length = s.entries.length := by
  rcases follows_attempt hi hs with hfollows | rfl
  · exact hfollows.length
  · exact scheduleRestart_length s a.entry _ true

theorem Tally.event (h : Tally s) {event : AttemptEvent} (hi : s.attempts[i]? = some a)
    (hs : s.attempt i a event = some s') : Tally s' := by
  rcases follows_attempt hi hs with hfollows | rfl
  · exact h.of_follows hfollows
  · exact h.restartFailed hi

theorem Tally.start (h : Tally s) {call : SupervisorCall} (hs : s.startCall call = some r) : Tally r.1 := by
  cases call with
  | supervise ref restart =>
      obtain rfl := Option.some.inj hs
      exact h
  | unsupervise ref =>
      obtain rfl := Option.some.inj hs
      exact h.of_follows (follows_unsupervise s ref)
  | drain ref cascade =>
      obtain rfl := Option.some.inj hs
      cases cascade with
      | true => exact h
      | false => exact h.of_follows (cleared_clearTimer? s _).follows
  | stop =>
      obtain rfl := Option.some.inj hs
      exact h.of_follows (follows_stop s)
  | exit ref data =>
      simp only [startCall] at hs
      split_ifs at hs
      obtain rfl := Option.some.inj hs
      exact h
  | hostLost host =>
      simp only [startCall] at hs
      split_ifs at hs
      · obtain rfl := Option.some.inj hs
        exact h
      · obtain rfl := Option.some.inj hs
        exact h
  | reconcile =>
      simp only [startCall] at hs
      split_ifs at hs
      obtain rfl := Option.some.inj hs
      exact h
  | attempt i event =>
      obtain ⟨s', hs', rfl⟩ := Option.map_eq_some_iff.mp hs
      obtain ⟨a, hi, hs'⟩ := Option.bind_eq_some_iff.mp hs'
      exact h.event hi hs'

theorem Tally.goes (h : Tally s) {event : SupervisorEvent} (hs : Goes s frame event r) : Tally r.1 := by
  cases hs with
  | stays t => exact h
  | supervised ref restart _ => exact h.supervised ref restart
  | clears entry t => exact h.of_follows (cleared_clearTimer? s entry).follows
  | drained entry t _ _ => exact h.of_follows (follows_drained? s entry)
  | exits ref data after _ _ => exact h.onExit ref data after

end

end PodSupervisor
end BrowserMesh.Apps
