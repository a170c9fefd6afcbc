import BrowserMesh.Sync.Migration

/-! # Cancelled, completed and concurrent migrations

* **The condition.**  No executor is called for a plan that was cancelled or that `executePlan` is working on,
  or beyond the limit, and `stepActivate` by itself only after the other steps; no waiting call goes on to
  write to a cancelled plan; no inbound checkpoint replaces that of a plan (`Kept`).
* **The invariant.**  While `executePlan` waits, its plan has failed, was cancelled, or is active with the
  steps completed that lie behind (`FrameOk`).
* **Results.**  Cancelled plans stay rolled back, completed plans went through all steps against the checkpoint
  they were initiated with, and the limit holds (`migrations_kept`). -/

namespace BrowserMesh.Sync
open Js Guards Async Transition

namespace MigrationEngine
variable {e : MigrationEngine} {id : JsString} {plan : MigrationPlan} {f : MigrationPlan → MigrationPlan}

theorem get?_update (e : MigrationEngine) (id : JsString) (f : MigrationPlan → MigrationPlan) (k : JsString) :
    (e.update id f).plans.get? k = if k = id then (e.plans.get? id).map f else e.plans.get? k := by
  rw [update]
  cases hget : e.plans.get? id with
  | none =>
      split_ifs with hk
      · rw [hk, hget]
        rfl
      · rfl
  | some plan =>
      dsimp only
      rw [JsMap.get?_set]
      rfl

@[simp] theorem checkpoints_update : (e.update id f).checkpoints = e.checkpoints := by
  rw [update]
  cases e.plans.get? id <;> rfl

@[simp] theorem maxConcurrent_update : (e.update id f).maxConcurrent = e.maxConcurrent := by
  rw [update]
  cases e.plans.get? id <;> rfl

theorem activeMigrations_eq (e : MigrationEngine) :
    e.activeMigrations = e.plans.entries.countP fun p => p.2.state.active := by
  rw [activeMigrations, JsMap.values, List.filter_map, List.length_map, List.countP_eq_length_filter]
  rfl

theorem activeMigrations_set (h : e.plans.get? id = some plan) (plan' : MigrationPlan) :
    ({ e with plans := e.plans.set id plan' } : MigrationEngine).activeMigrations +
        (if plan.state.active then 1 else 0) =
      e.activeMigrations + if plan'.state.active then 1 else 0 := by
  rw [activeMigrations_eq, activeMigrations_eq, (JsMap.entries_perm_of_get? h).countP_eq,
    (JsMap.set_entries_perm e.plans id plan').countP_eq, List.countP_cons, List.countP_cons]
  dsimp only
  omega

theorem activeMigrations_add (h : e.plans.get? id = none) (plan' : MigrationPlan)
    (hidle : plan'.state.active = false) :
    ({ e with plans := e.plans.set id plan' } : MigrationEngine).activeMigrations = e.activeMigrations := by
  rw [activeMigrations_eq, activeMigrations_eq, (JsMap.set_entries_perm e.plans id plan').countP_eq,
    List.countP_cons, JsMap.delete_eq_self h]
  dsimp only
  rw [hidle]
  rfl

theorem activeMigrations_update_le (hmax : e.activeMigrations ≤ e.maxConcurrent)
    (h : e.plans.get? id = some plan)
    (hroom : (f plan).state.active = true → plan.state.active = true ∨ e.activeMigrations < e.maxConcurrent) :
    (e.update id f).activeMigrations ≤ e.maxConcurrent := by
  have hcount := activeMigrations_set h (f plan)
  have hupdate : e.update id f = { e with plans := e.plans.set id (f plan) } := by
    rw [update, h]
  rw [hupdate]
  cases hnew : (f plan).state.active with
  | false =>
      rw [hnew] at hcount
      simp only [Bool.false_eq_true, if_false, Nat.add_zero] at hcount
      omega
  | true =>
      rw [hnew] at hcount
      rcases hroom hnew with hold | hlt
      · rw [hold] at hcount
        simp only [if_true] at hcount
        omega
      · simp only [if_true] at hcount
        omega

end MigrationEngine

/-! ### What is claimed -/

namespace MigrationRun

def stateOf (s : MigrationRun) (id : JsString) : Option MigrationState :=
  (s.engine.plans.get? id).map MigrationPlan.state

/-- A cancelled plan is rolled back; a completed one has completed all its steps and compared the remote hash
with the checkpoint that it was initiated with; and no more plans are active than allowed. -/
structure Safe (s : MigrationRun) : Prop where
  cancelled : ∀ id ∈ s.cancelled, s.stateOf id = some .rolledBack
  completed : ∀ id plan, s.engine.plans.get? id = some plan → plan.state = .completed →
    (∀ name, plan.steps name = .completed) ∧
      ∃ checkpoint, s.initial.get? id = some checkpoint ∧ s.verified id = some checkpoint
  concurrent : s.engine.activeMigrations ≤ s.engine.maxConcurrent

end MigrationRun

/-- The plan that a waiting `executePlan` works on. -/
def MigrationFrame.executes : MigrationFrame → Option JsString
  | .verifying id inPlan => if inPlan then some id else none
  | .checkpointed id _ => some id
  | .transferred id => some id
  | .verified id => some id
  | .activated id => some id
  | .received _ _ => none

/-- The plan whose state a waiting call writes when it goes on. -/
def MigrationFrame.writes : MigrationFrame → MigrationEvent → Option JsString
  | .verifying id _, .settled false => some id
  | .checkpointed id _, .resumed => some id
  | .transferred id, .resumed => some id
  | .verified id, .resumed => some id
  | _, _ => none

namespace MigrationWorld

/-- `executePlan` is working on the plan. -/
def InProgress (w : MigrationWorld) (id : JsString) : Prop :=
  ∃ t ∈ w.tasks, ∃ frame, t = .waiting frame ∧ frame.executes = some id

/-- An executor may be called for the plan: it was not cancelled, `executePlan` is not working on it, and it is
active or there is room for one more. -/
def Startable (w : MigrationWorld) (id : JsString) : Prop :=
  id ∉ w.shared.cancelled ∧ ¬ InProgress w id ∧
    ((w.shared.stateOf id).any MigrationState.active = true ∨
      w.shared.engine.activeMigrations < w.shared.engine.maxConcurrent)

def Verified (w : MigrationWorld) (id : JsString) : Prop :=
  ∀ plan, w.shared.engine.plans.get? id = some plan → plan.steps .checkpoint = .completed ∧
    plan.steps .transfer = .completed ∧ plan.steps .verify = .completed

/-- What a waiting call has to meet when it goes on: it does not write to a cancelled plan, and an inbound
checkpoint is not another one for a plan. -/
def MayGoOn (w : MigrationWorld) (event : MigrationEvent) : MigrationFrame → Prop
  | .received key checkpoint => event = .settled true →
      w.shared.initial.get? key = none ∨ w.shared.initial.get? key = some checkpoint
  | frame => ∀ id ∈ frame.writes event, id ∉ w.shared.cancelled

def Kept (w : MigrationWorld) : Async.Action MigrationCall MigrationEvent → Prop
  | .start (.executePlan id) => Startable w id
  | .start (.stepCheckpoint id) => Startable w id
  | .start (.stepTransfer id) => Startable w id
  | .start (.stepVerify id _) => Startable w id
  | .start (.stepActivate id) => Startable w id ∧ Verified w id
  | .start _ => True
  | .resume i event => ∀ frame, w.tasks[i]? = some (.waiting frame) → MayGoOn w event frame

end MigrationWorld

/-! ### The invariant -/

namespace MigrationRun

/-- What holds of the engine and the record. -/
structure Sound (s : MigrationRun) : Prop where
  safe : s.Safe
  rolled : ∀ id, s.stateOf id = some .rolledBack → id ∈ s.cancelled
  initial : ∀ id plan, s.engine.plans.get? id = some plan →
    ∃ checkpoint, s.initial.get? id = some checkpoint ∧ s.engine.checkpoints.get? id = some checkpoint
  unknown : ∀ id, s.engine.plans.get? id = none → s.initial.get? id = none
  verified : ∀ id plan, s.engine.plans.get? id = some plan → plan.steps .verify = .completed →
    s.verified id = s.initial.get? id

theorem sound_new (localPodId : JsString) (maxConcurrent : ℕ) : (new localPodId maxConcurrent).Sound where
  safe := ⟨fun id hid => absurd hid List.not_mem_nil, fun id plan h => (by cases h), Nat.zero_le _⟩
  rolled id h := by cases h
  initial id plan h := by cases h
  unknown _ _ := rfl
  verified id plan h := by cases h

variable {s s' : MigrationRun} {id : JsString} {plan : MigrationPlan} {f : MigrationPlan → MigrationPlan}

theorem stateOf_eq (h : s.engine.plans.get? id = some plan) : s.stateOf id = some plan.state := by
  rw [stateOf, h]
  rfl

theorem Sound.write (h : s.Sound) (hplan : s.engine.plans.get? id = some plan)
    (hid : id ∉ s.cancelled ∨ (f plan).state = plan.state)
    (hengine : s'.engine = s.engine.update id f) (hcancelled : s'.cancelled = s.cancelled)
    (hinitial : s'.initial = s.initial) (hverified : ∀ k, k ≠ id → s'.verified k = s.verified k)
    (hstate : (f plan).state = .rolledBack → plan.state = .rolledBack)
    (hroom : (f plan).state.active = true →
      plan.state.active = true ∨ s.engine.activeMigrations < s.engine.maxConcurrent)
    (hcompleted : (f plan).state = .completed → ∀ name, (f plan).steps name = .completed)
    (hverify : (f plan).steps .verify = .completed → s'.verified id = s.initial.get? id) : s'.Sound := by
  have hget : ∀ k, s'.engine.plans.get? k = if k = id then some (f plan) else s.engine.plans.get? k := by
    intro k
    rw [hengine, MigrationEngine.get?_update, hplan]
    rfl
  have hself : s'.engine.plans.get? id = some (f plan) := by
    rw [hget, if_pos rfl]
  obtain ⟨checkpoint, hcheckpoint, hstored⟩ := h.initial id plan hplan
  have hother : ∀ k, k ≠ id → s'.engine.plans.get? k = s.engine.plans.get? k := by
    intro k hk
    rw [hget, if_neg hk]
  refine ⟨⟨fun k hk => ?_, fun k p hk hp => ?_, ?_⟩, fun k hk => ?_, fun k p hk => ?_, fun k hk => ?_,
    fun k p hk hp => ?_⟩
  · rw [hcancelled] at hk
    by_cases hne : k = id
    · subst hne
      rw [stateOf_eq hself, hid.resolve_left (not_not_intro hk), ← stateOf_eq hplan]
      exact h.safe.cancelled k hk
    · rw [stateOf, hother k hne]
      exact h.safe.cancelled k hk
  · rw [hinitial]
    by_cases hne : k = id
    · subst hne
      obtain rfl := Option.some.inj (hself.symm.trans hk)
      have hall := hcompleted hp
      exact ⟨hall, checkpoint, hcheckpoint, (hverify (hall .verify)).trans hcheckpoint⟩
    · rw [hother k hne] at hk
      rw [hverified k hne]
      exact h.safe.completed k p hk hp
  · rw [hengine, MigrationEngine.maxConcurrent_update]
    exact MigrationEngine.activeMigrations_update_le h.safe.concurrent hplan hroom
  · by_cases hne : k = id
    · rw [hne, stateOf_eq hself] at hk
      rw [hcancelled, hne]
      exact h.rolled id ((stateOf_eq hplan).trans (congrArg some (hstate (Option.some.inj hk))))
    · rw [stateOf, hother k hne] at hk
      rw [hcancelled]
      exact h.rolled k hk
  · rw [hinitial, hengine, MigrationEngine.checkpoints_update]
    by_cases hne : k = id
    · rw [hne]
      exact ⟨checkpoint, hcheckpoint, hstored⟩
    · rw [hother k hne] at hk
      exact h.initial k p hk
  · rw [hinitial]
    by_cases hne : k = id
    · rw [hne, hself] at hk
      cases hk
    · rw [hother k hne] at hk
      exact h.unknown k hk
  · rw [hinitial]
    by_cases hne : k = id
    · subst hne
      obtain rfl := Option.some.inj (hself.symm.trans hk)
      exact hverify hp
    · rw [hother k hne] at hk
      rw [hverified k hne]
      exact h.verified k p hk hp

/-- The plan of a frame, and the steps that lie behind. -/
def behind : MigrationFrame → Option (JsString × List StepName)
  | .verifying id true => some (id, [])
  | .checkpointed id none => some (id, [.checkpoint])
  | .transferred id => some (id, [.checkpoint, .transfer])
  | .verified id => some (id, [.checkpoint, .transfer, .verify])
  | _ => none

/-- The plan that `executePlan` works on has failed, or was cancelled, or is active with the steps completed
that lie behind. -/
def FrameOk (s : MigrationRun) (frame : MigrationFrame) : Prop :=
  ∀ id behind, MigrationRun.behind frame = some (id, behind) → ∃ plan, s.engine.plans.get? id = some plan ∧
    (plan.state = .failed ∨ plan.state = .rolledBack ∨
      (plan.state.active = true ∧ ∀ name ∈ behind, plan.steps name = .completed))

variable {frame : MigrationFrame}

theorem executes_of_behind {names : List StepName}
    (h : behind frame = some (id, names)) : frame.executes = some id := by
  cases frame with
  | verifying id' inPlan =>
      cases inPlan with
      | false => cases h
      | true =>
          cases h
          rfl
  | checkpointed id' error =>
      cases error with
      | none =>
          cases h
          rfl
      | some error => cases h
  | transferred id' =>
      cases h
      rfl
  | verified id' =>
      cases h
      rfl
  | activated id' => cases h
  | received key checkpoint => cases h

theorem FrameOk.of_ne (h : s.FrameOk frame) (hne : frame.executes ≠ some id)
    (hget : ∀ k, k ≠ id → s'.engine.plans.get? k = s.engine.plans.get? k) : s'.FrameOk frame := by
  intro k names hbehind
  have hk : k ≠ id := by
    rintro rfl
    exact hne (executes_of_behind hbehind)
  rw [hget k hk]
  exact h k names hbehind

theorem FrameOk.endCheckpoint (h : s.FrameOk frame) (valid : Bool) :
    (s.update id fun plan => plan.endCheckpoint valid).FrameOk frame := by
  by_cases hid : frame.executes = some id
  · intro k names hbehind
    obtain rfl : id = k := Option.some.inj (hid.symm.trans (executes_of_behind hbehind))
    obtain ⟨plan, hplan, hstate⟩ := h id names hbehind
    refine ⟨plan.endCheckpoint valid, ?_, ?_⟩
    · change (s.engine.update id _).plans.get? id = _
      rw [MigrationEngine.get?_update, if_pos rfl, hplan]
      rfl
    · cases valid with
      | false => exact Or.inl rfl
      | true =>
          refine hstate.imp_right (Or.imp_right (And.imp_right fun hall name hname => ?_))
          change Function.update plan.steps .checkpoint .completed name = .completed
          by_cases hcheckpoint : name = .checkpoint
          · rw [hcheckpoint, Function.update_self]
          · rw [Function.update_of_ne hcheckpoint]
            exact hall name hname
  · refine h.of_ne hid fun k hk => ?_
    change (s.engine.update id _).plans.get? k = _
    rw [MigrationEngine.get?_update, if_neg hk]

theorem FrameOk.mono (h : s.FrameOk frame)
    (hget : ∀ k plan, s.engine.plans.get? k = some plan → s'.engine.plans.get? k = some plan) :
    s'.FrameOk frame := by
  intro k names hbehind
  obtain ⟨plan, hplan, hstate⟩ := h k names hbehind
  exact ⟨plan, hget k plan hplan, hstate⟩

/-- What `executePlan` finds when it goes on with a plan that has not failed and was not cancelled. -/
theorem FrameOk.going (h : s.Sound) {names : List StepName} (hframe : s.FrameOk frame)
    (hbehind : behind frame = some (id, names)) (hid : id ∉ s.cancelled) (hfailed : ¬ s.isFailed id = true) :
    ∃ plan, s.engine.plans.get? id = some plan ∧ plan.state.active = true ∧
      ∀ name ∈ names, plan.steps name = .completed := by
  obtain ⟨plan, hplan, hstate⟩ := hframe id names hbehind
  refine ⟨plan, hplan, ?_⟩
  rcases hstate with hfail | hrolled | hgoing
  · exact absurd (decide_eq_true ((stateOf_eq hplan).trans (congrArg some hfail))) hfailed
  · exact absurd (h.rolled id ((stateOf_eq hplan).trans (congrArg some hrolled))) hid
  · exact hgoing

theorem get?_update_self (h : s.engine.plans.get? id = some plan) (f : MigrationPlan → MigrationPlan) :
    (s.update id f).engine.plans.get? id = some (f plan) := by
  change (s.engine.update id f).plans.get? id = _
  rw [MigrationEngine.get?_update, if_pos rfl, h]
  rfl

theorem get?_update_of_ne {k : JsString} (hk : k ≠ id) (f : MigrationPlan → MigrationPlan) :
    (s.update id f).engine.plans.get? k = s.engine.plans.get? k := by
  change (s.engine.update id f).plans.get? k = _
  rw [MigrationEngine.get?_update, if_neg hk]

/-! ### The writes -/

theorem Sound.activate (h : s.Sound) (hplan : s.engine.plans.get? id = some plan) (hid : id ∉ s.cancelled)
    (hactive : (f plan).state.active = true) (hverify : (f plan).steps .verify = plan.steps .verify)
    (hroom : plan.state.active = true ∨ s.engine.activeMigrations < s.engine.maxConcurrent) :
    (s.update id f).Sound := by
  refine h.write hplan (Or.inl hid) rfl rfl rfl (fun _ _ => rfl) (fun hstate => ?_) (fun _ => hroom)
    (fun hstate => ?_) fun hcompleted => h.verified id plan hplan (hverify ▸ hcompleted)
  · rw [hstate] at hactive
    cases hactive
  · rw [hstate] at hactive
    cases hactive

theorem Sound.fails (h : s.Sound) (hplan : s.engine.plans.get? id = some plan) (hid : id ∉ s.cancelled)
    (hstate : (f plan).state = .failed)
    (hverify : (f plan).steps .verify = .completed → plan.steps .verify = .completed) :
    (s.update id f).Sound := by
  refine h.write hplan (Or.inl hid) rfl rfl rfl (fun _ _ => rfl) (fun hrolled => ?_) (fun hactive => ?_)
    (fun hcompleted => ?_) fun hcompleted => h.verified id plan hplan (hverify hcompleted)
  · rw [hstate] at hrolled
    cases hrolled
  · rw [hstate] at hactive
    cases hactive
  · rw [hstate] at hcompleted
    cases hcompleted

theorem Sound.endCheckpoint (h : s.Sound) (id : JsString) (valid : Bool)
    (hid : valid = false → id ∉ s.cancelled) : (s.update id fun plan => plan.endCheckpoint valid).Sound := by
  cases hplan : s.engine.plans.get? id with
  | none =>
      have hsame : s.engine.update id (fun plan => plan.endCheckpoint valid) = s.engine := by
        rw [MigrationEngine.update, hplan]
      rw [update, hsame]
      exact h
  | some plan =>
      cases valid with
      | false => exact h.fails hplan (hid rfl) rfl fun hcompleted => hcompleted
      | true =>
          have hsteps : ∀ name, plan.steps name = .completed → (plan.complete .checkpoint).steps name = .completed := by
            intro name hname
            change Function.update plan.steps .checkpoint .completed name = .completed
            by_cases hcheckpoint : name = .checkpoint
            · rw [hcheckpoint, Function.update_self]
            · rw [Function.update_of_ne hcheckpoint]
              exact hname
          exact h.write hplan (Or.inr rfl) rfl rfl rfl (fun _ _ => rfl) (fun hstate => hstate) Or.inl
            (fun hstate name => hsteps name ((h.safe.completed id plan hplan hstate).1 name))
            fun hcompleted => h.verified id plan hplan hcompleted

theorem stepTransfer_steps (plan : MigrationPlan) (name : StepName) (h : plan.steps name = .completed) :
    plan.stepTransfer.steps name = .completed := by
  cases name with
  | checkpoint => exact h
  | transfer => rfl
  | verify => exact h
  | activate => exact h

theorem stepActivate_steps (h : plan.steps .checkpoint = .completed) (h' : plan.steps .transfer = .completed)
    (h'' : plan.steps .verify = .completed) (name : StepName) : plan.stepActivate.steps name = .completed := by
  cases name with
  | checkpoint => exact h
  | transfer => exact h'
  | verify => exact h''
  | activate => rfl

theorem Sound.stepActivate (h : s.Sound) (hplan : s.engine.plans.get? id = some plan) (hid : id ∉ s.cancelled)
    (hsteps : plan.steps .checkpoint = .completed ∧ plan.steps .transfer = .completed ∧
      plan.steps .verify = .completed) : (s.update id MigrationPlan.stepActivate).Sound :=
  h.write hplan (Or.inl hid) rfl rfl rfl (fun _ _ => rfl) (fun hstate => nomatch hstate)
    (fun hactive => nomatch hactive) (fun _ => stepActivate_steps hsteps.1 hsteps.2.1 hsteps.2.2)
    fun _ => h.verified id plan hplan hsteps.2.2

/-- What `stepVerify` does to a plan that has a checkpoint. -/
theorem stepVerify_cases (plan : MigrationPlan) (checkpoint : Checkpoint) (remoteHash : Option (List (Fin 256))) :
    (plan.stepVerify (some checkpoint) remoteHash).state = .failed ∧
        (plan.stepVerify (some checkpoint) remoteHash).steps .verify ≠ .completed ∨
      remoteHash = some checkpoint.dataHash ∧
        plan.stepVerify (some checkpoint) remoteHash = (plan.start .verify .verifying).complete .verify := by
  cases remoteHash with
  | none => exact Or.inl ⟨rfl, nofun⟩
  | some remoteHash =>
      rw [MigrationPlan.stepVerify]
      split_ifs with hhash
      · exact Or.inl ⟨rfl, nofun⟩
      · exact Or.inr ⟨congrArg some (not_not.mp hhash).symm, rfl⟩

theorem stepVerify_record (s : MigrationRun) (id : JsString) (remoteHash : Option (List (Fin 256))) :
    (s.stepVerify id remoteHash).engine =
        s.engine.update id (fun plan => plan.stepVerify (s.engine.checkpoints.get? id) remoteHash) ∧
      (s.stepVerify id remoteHash).cancelled = s.cancelled ∧ (s.stepVerify id remoteHash).initial = s.initial ∧
      (∀ k, k ≠ id → (s.stepVerify id remoteHash).verified k = s.verified k) ∧
      ∀ plan, (s.stepVerify id remoteHash).engine.plans.get? id = some plan →
        plan.steps .verify = .completed →
          (s.stepVerify id remoteHash).verified id = s.engine.checkpoints.get? id := by
  rw [MigrationRun.stepVerify]
  split_ifs with hcompleted
  · refine ⟨rfl, rfl, rfl, fun k hk => Function.update_of_ne hk .., fun plan _ _ => Function.update_self ..⟩
  · refine ⟨rfl, rfl, rfl, fun _ _ => rfl, fun plan hplan hverify => absurd ?_ hcompleted⟩
    rw [hplan]
    exact congrArg some hverify

theorem Sound.stepVerify (h : s.Sound) (hplan : s.engine.plans.get? id = some plan) (hid : id ∉ s.cancelled)
    (remoteHash : Option (List (Fin 256)))
    (hroom : plan.state.active = true ∨ s.engine.activeMigrations < s.engine.maxConcurrent) :
    (s.stepVerify id remoteHash).Sound := by
  obtain ⟨hengine, hcancelled, hinitial, hverified, hrecord⟩ := stepVerify_record s id remoteHash
  obtain ⟨checkpoint, hcheckpoint, hstored⟩ := h.initial id plan hplan
  have hself : (s.stepVerify id remoteHash).engine.plans.get? id =
      some (plan.stepVerify (s.engine.checkpoints.get? id) remoteHash) := by
    rw [hengine, MigrationEngine.get?_update, if_pos rfl, hplan]
    rfl
  have hwrite : ∀ st, (plan.stepVerify (s.engine.checkpoints.get? id) remoteHash).state = st →
      st = .failed ∨ st = .verifying := by
    rintro st rfl
    rw [hstored]
    rcases stepVerify_cases plan checkpoint remoteHash with ⟨hfailed, -⟩ | ⟨-, heq⟩
    · exact Or.inl hfailed
    · rw [heq]
      exact Or.inr rfl
  refine h.write hplan (Or.inl hid) hengine hcancelled hinitial hverified (fun hstate => ?_) (fun _ => hroom)
    (fun hstate => ?_) fun hcompleted => ?_
  · rcases hwrite _ hstate with hst | hst
    · cases hst
    · cases hst
  · rcases hwrite _ hstate with hst | hst
    · cases hst
    · cases hst
  · rw [hrecord _ hself hcompleted, hstored, hcheckpoint]

/-- `cancelPlan` does nothing, or it rolls the plan back. -/
theorem cancelPlan_cases (s : MigrationRun) (id : JsString) : (s.cancelPlan id).1 = s ∨
    ∃ plan, s.engine.plans.get? id = some plan ∧ (s.cancelPlan id).1 =
      { s with
        engine := { s.engine with plans := s.engine.plans.set id plan.rollback }
        cancelled := id :: s.cancelled } := by
  have hcases : s.engine.cancelPlan id = (s.engine, false) ∨ ∃ plan, s.engine.plans.get? id = some plan ∧
      s.engine.cancelPlan id = ({ s.engine with plans := s.engine.plans.set id plan.rollback }, true) := by
    rw [MigrationEngine.cancelPlan]
    cases s.engine.plans.get? id with
    | none => exact Or.inl rfl
    | some plan =>
        dsimp only
        split_ifs
        · exact Or.inl rfl
        · exact Or.inr ⟨plan, rfl, rfl⟩
  rw [MigrationRun.cancelPlan]
  rcases hcases with hnothing | ⟨plan, hplan, hrolled⟩
  · rw [hnothing]
    exact Or.inl rfl
  · rw [hrolled]
    exact Or.inr ⟨plan, hplan, rfl⟩

theorem Sound.rollback (h : s.Sound) (hplan : s.engine.plans.get? id = some plan) : ({ s with
    engine := { s.engine with plans := s.engine.plans.set id plan.rollback }
    cancelled := id :: s.cancelled } : MigrationRun).Sound := by
  have hget : ∀ k, (s.engine.plans.set id plan.rollback).get? k =
      if k = id then some plan.rollback else s.engine.plans.get? k := fun k => JsMap.get?_set ..
  have hcount := MigrationEngine.activeMigrations_set hplan plan.rollback
  refine ⟨⟨fun k hk => ?_, fun k p hk hp => ?_, ?_⟩, fun k hk => ?_, fun k p hk => ?_, fun k hk => ?_,
    fun k p hk hp => ?_⟩
  · rw [stateOf]
    dsimp only
    rw [hget]
    split_ifs with hne
    · rfl
    · exact h.safe.cancelled k ((List.mem_cons.mp hk).resolve_left hne)
  · dsimp only at hk
    rw [hget] at hk
    split_ifs at hk with hne
    · obtain rfl := Option.some.inj hk
      cases hp
    · exact h.safe.completed k p hk hp
  · have hle := h.safe.concurrent
    have hidle : plan.rollback.state.active = false := rfl
    rw [hidle] at hcount
    simp only [Bool.false_eq_true, if_false, Nat.add_zero] at hcount
    dsimp only
    omega
  · rw [stateOf] at hk
    dsimp only at hk
    rw [hget] at hk
    split_ifs at hk with hne
    · exact hne ▸ List.mem_cons_self
    · exact List.mem_cons_of_mem _ (h.rolled k hk)
  · dsimp only at hk
    rw [hget] at hk
    split_ifs at hk with hne
    · rw [hne]
      exact h.initial id plan hplan
    · exact h.initial k p hk
  · dsimp only at hk
    rw [hget] at hk
    split_ifs at hk with hne
    exact h.unknown k hk
  · dsimp only at hk
    rw [hget] at hk
    split_ifs at hk with hne
    · obtain rfl := Option.some.inj hk
      rw [hne]
      refine h.verified id plan hplan ?_
      change (if plan.steps .verify = .pending ∨ plan.steps .verify = .running then StepStatus.skipped
        else plan.steps .verify) = .completed at hp
      split_ifs at hp
      exact hp
    · exact h.verified k p hk hp

theorem FrameOk.rollback (h : s.FrameOk frame) : ({ s with
    engine := { s.engine with plans := s.engine.plans.set id plan.rollback }
    cancelled := id :: s.cancelled } : MigrationRun).FrameOk frame := by
  intro k names hbehind
  obtain ⟨p, hp, hstate⟩ := h k names hbehind
  dsimp only
  rw [JsMap.get?_set]
  split_ifs
  · exact ⟨plan.rollback, rfl, Or.inr (Or.inl rfl)⟩
  · exact ⟨p, hp, hstate⟩

theorem Sound.initiateMigration (h : s.Sound) {targetPodId priority : JsString} {checkpoint : Option Checkpoint}
    {engine : MigrationEngine} (hnew : s.engine.plans.get? id = none)
    (hok : s.engine.initiateMigration id targetPodId checkpoint priority = .ok engine) :
    ({ s with engine, initial := (checkpoint.map (s.initial.set id)).getD s.initial } : MigrationRun).Sound ∧
      ∀ k plan, s.engine.plans.get? k = some plan → engine.plans.get? k = some plan := by
  rw [MigrationEngine.initiateMigration] at hok
  obtain ⟨-, -, hroom⟩ := bind_eq_ok.mp hok
  obtain ⟨-, -, htarget⟩ := bind_eq_ok.mp hroom
  obtain ⟨c, hc, hcheckpoint⟩ := bind_eq_ok.mp htarget
  obtain ⟨-, -, hpriority⟩ := bind_eq_ok.mp hcheckpoint
  obtain rfl := required_eq_ok.mp hc
  obtain rfl := pure_eq_ok.mp hpriority
  generalize hplan : MigrationPlan.new id targetPodId (if priority = js "" then js "normal" else priority) = plan
  have hidle : plan.state = .idle := hplan ▸ rfl
  have hpending : ∀ name, plan.steps name = .pending := fun _ => hplan ▸ rfl
  have hget : ∀ k, (s.engine.plans.set id plan).get? k = if k = id then some plan else s.engine.plans.get? k :=
    fun k => JsMap.get?_set ..
  have hinitial : ∀ k, (s.initial.set id c).get? k = if k = id then some c else s.initial.get? k :=
    fun k => JsMap.get?_set ..
  have hchecks : ∀ k, (s.engine.checkpoints.set id c).get? k =
      if k = id then some c else s.engine.checkpoints.get? k := fun k => JsMap.get?_set ..
  have hne : ∀ k p, s.engine.plans.get? k = some p → k ≠ id := by
    rintro k p hk rfl
    rw [hnew] at hk
    cases hk
  refine ⟨⟨⟨fun k hk => ?_, fun k p hk hp => ?_, ?_⟩, fun k hk => ?_, fun k p hk => ?_, fun k hk => ?_,
    fun k p hk hp => ?_⟩, fun k p hk => ?_⟩
  · have hcancelled := h.safe.cancelled k hk
    obtain ⟨p, hp, -⟩ := Option.map_eq_some_iff.mp hcancelled
    rw [stateOf]
    dsimp only
    rw [hget, if_neg (hne k p hp)]
    exact hcancelled
  · dsimp only at hk
    rw [hget] at hk
    dsimp only [Option.map_some, Option.getD_some]
    rw [hinitial]
    split_ifs at hk with hk'
    · obtain rfl := Option.some.inj hk
      rw [hidle] at hp
      cases hp
    · rw [if_neg hk']
      exact h.safe.completed k p hk hp
  · refine le_of_eq_of_le (MigrationEngine.activeMigrations_add (e := s.engine) hnew plan ?_) h.safe.concurrent
    rw [hidle]
    rfl
  · rw [stateOf] at hk
    dsimp only at hk
    rw [hget] at hk
    split_ifs at hk with hk'
    · rw [Option.map_some, hidle] at hk
      cases hk
    · exact h.rolled k hk
  · dsimp only at hk
    rw [hget] at hk
    dsimp only [Option.map_some, Option.getD_some]
    rw [hinitial, hchecks]
    split_ifs at hk with hk'
    · rw [if_pos hk', if_pos hk']
      exact ⟨c, rfl, rfl⟩
    · rw [if_neg hk', if_neg hk']
      exact h.initial k p hk
  · dsimp only at hk
    rw [hget] at hk
    dsimp only [Option.map_some, Option.getD_some]
    rw [hinitial]
    split_ifs at hk with hk'
    rw [if_neg hk']
    exact h.unknown k hk
  · dsimp only at hk
    rw [hget] at hk
    dsimp only [Option.map_some, Option.getD_some]
    rw [hinitial]
    split_ifs at hk with hk'
    · obtain rfl := Option.some.inj hk
      rw [hpending] at hp
      cases hp
    · rw [if_neg hk']
      exact h.verified k p hk hp
  · rw [hget, if_neg (hne k p hk)]
    exact hk

theorem Sound.receive (h : s.Sound) {key : JsString} {checkpoint : Checkpoint}
    (hkey : s.initial.get? key = none ∨ s.initial.get? key = some checkpoint) :
    ({ s with engine := { s.engine with checkpoints := s.engine.checkpoints.set key checkpoint } } :
      MigrationRun).Sound where
  safe := ⟨h.safe.cancelled, h.safe.completed, h.safe.concurrent⟩
  rolled := h.rolled
  initial k p hk := by
    obtain ⟨c, hc, hstored⟩ := h.initial k p hk
    refine ⟨c, hc, ?_⟩
    dsimp only
    rw [JsMap.get?_set]
    split_ifs with hk'
    · rw [hk'] at hc
      rcases hkey with hnone | hsame
      · rw [hnone] at hc
        cases hc
      · exact hsame.symm.trans hc
    · exact hstored
  unknown := h.unknown
  verified := h.verified

end MigrationRun

/-! ### Worlds -/

namespace MigrationWorld

structure Sound (w : MigrationWorld) : Prop where
  shared : w.shared.Sound
  frames : ∀ (i : ℕ) (frame : MigrationFrame), w.tasks[i]? = some (.waiting frame) → w.shared.FrameOk frame
  alone : ∀ (i j : ℕ) (frame frame' : MigrationFrame) id, w.tasks[i]? = some (.waiting frame) → w.tasks[j]? = some (.waiting frame') →
    frame.executes = some id → frame'.executes = some id → i = j

variable {w : MigrationWorld} {s' : MigrationRun} {t : Task MigrationFrame MigrationResult}

theorem Sound.append (h : Sound w) (hs : s'.Sound)
    (hold : ∀ (i : ℕ) (frame : MigrationFrame), w.tasks[i]? = some (.waiting frame) → s'.FrameOk frame)
    (hnew : ∀ frame : MigrationFrame, t = .waiting frame → s'.FrameOk frame ∧
      ∀ id, frame.executes = some id → ¬ InProgress w id) : Sound ⟨s', w.tasks ++ [t]⟩ := by
  have hcases : ∀ (i : ℕ) (frame : MigrationFrame), (w.tasks ++ [t])[i]? = some (.waiting frame) →
      w.tasks[i]? = some (.waiting frame) ∨ (i = w.tasks.length ∧ t = .waiting frame) := by
    intro i frame hi
    by_cases hlt : i < w.tasks.length
    · rw [List.getElem?_append_left hlt] at hi
      exact Or.inl hi
    · rw [List.getElem?_append_right (not_lt.mp hlt), List.getElem?_singleton] at hi
      split_ifs at hi with hzero
      exact Or.inr ⟨by omega, Option.some.inj hi⟩
  refine ⟨hs, fun i frame hi => ?_, fun i j frame frame' id hi hj hid hid' => ?_⟩
  · rcases hcases i frame hi with hi | ⟨-, ht⟩
    · exact hold i frame hi
    · exact (hnew frame ht).1
  · rcases hcases i frame hi with hi | ⟨rfl, ht⟩
    · rcases hcases j frame' hj with hj | ⟨rfl, ht⟩
      · exact h.alone i j frame frame' id hi hj hid hid'
      · exact absurd ⟨_, List.mem_of_getElem? hi, frame, rfl, hid⟩ ((hnew frame' ht).2 id hid')
    · rcases hcases j frame' hj with hj | ⟨rfl, ht'⟩
      · exact absurd ⟨_, List.mem_of_getElem? hj, frame', rfl, hid'⟩ ((hnew frame ht).2 id hid)
      · rfl

theorem Sound.set (h : Sound w) {i : ℕ} {frame₀ : MigrationFrame} (hi : w.tasks[i]? = some (.waiting frame₀))
    (hs : s'.Sound) (hold : ∀ (j : ℕ) (frame : MigrationFrame), j ≠ i → w.tasks[j]? = some (.waiting frame) → s'.FrameOk frame)
    (hnew : ∀ frame : MigrationFrame, t = .waiting frame → s'.FrameOk frame ∧
      ∀ id, frame.executes = some id → frame₀.executes = some id) : Sound ⟨s', w.tasks.set i t⟩ := by
  have hcases : ∀ (j : ℕ) (frame : MigrationFrame), (w.tasks.set i t)[j]? = some (.waiting frame) →
      (j ≠ i ∧ w.tasks[j]? = some (.waiting frame)) ∨ (j = i ∧ t = .waiting frame) := by
    intro j frame hj
    rw [List.getElem?_set] at hj
    split_ifs at hj with heq hlt
    · exact Or.inr ⟨heq.symm, Option.some.inj hj⟩
    · exact Or.inl ⟨fun hne => heq hne.symm, hj⟩
  have hexecutes : ∀ (j : ℕ) (frame : MigrationFrame) id, (w.tasks.set i t)[j]? = some (.waiting frame) → frame.executes = some id →
      ∃ frame' : MigrationFrame, w.tasks[j]? = some (.waiting frame') ∧ frame'.executes = some id := by
    intro j frame id hj hid
    rcases hcases j frame hj with ⟨-, hj⟩ | ⟨rfl, ht⟩
    · exact ⟨frame, hj, hid⟩
    · exact ⟨frame₀, hi, (hnew frame ht).2 id hid⟩
  refine ⟨hs, fun j frame hj => ?_, fun j k frame frame' id hj hk hid hid' => ?_⟩
  · rcases hcases j frame hj with ⟨hne, hj⟩ | ⟨-, ht⟩
    · exact hold j frame hne hj
    · exact (hnew frame ht).1
  · obtain ⟨f, hf, hfid⟩ := hexecutes j frame id hj hid
    obtain ⟨f', hf', hfid'⟩ := hexecutes k frame' id hk hid'
    exact h.alone j k f f' id hf hf' hfid hfid'

/-- The other calls do not work on the plan of an `executePlan` that goes on. -/
theorem Sound.other (h : Sound w) {i : ℕ} {frame₀ : MigrationFrame} {id : JsString}
    (hi : w.tasks[i]? = some (.waiting frame₀)) (hid : frame₀.executes = some id)
    (hget : ∀ k, k ≠ id → s'.engine.plans.get? k = w.shared.engine.plans.get? k) (j : ℕ) (frame : MigrationFrame)
    (hne : j ≠ i) (hj : w.tasks[j]? = some (.waiting frame)) : s'.FrameOk frame :=
  (h.frames j frame hj).of_ne (fun heq => hne (h.alone j i frame frame₀ id hj hi heq hid)) hget

theorem Sound.startable (h : Sound w) {id : JsString} (hid : ¬ InProgress w id)
    (hget : ∀ k, k ≠ id → s'.engine.plans.get? k = w.shared.engine.plans.get? k) (i : ℕ) (frame : MigrationFrame)
    (hi : w.tasks[i]? = some (.waiting frame)) : s'.FrameOk frame :=
  (h.frames i frame hi).of_ne (fun heq => hid ⟨_, List.mem_of_getElem? hi, frame, rfl, heq⟩) hget

/-! ### One step -/

theorem exists_of_has {id : JsString} (h : w.shared.engine.plans.has id = true) :
    ∃ plan, w.shared.engine.plans.get? id = some plan := by
  rw [JsMap.has, Option.isSome_iff_exists] at h
  exact h

theorem room_of_startable {id : JsString} {plan : MigrationPlan} (h : Startable w id)
    (hplan : w.shared.engine.plans.get? id = some plan) :
    plan.state.active = true ∨ w.shared.engine.activeMigrations < w.shared.engine.maxConcurrent := by
  obtain ⟨-, -, hroom⟩ := h
  rw [MigrationRun.stateOf_eq hplan] at hroom
  exact hroom

/-- `stepCheckpoint` or `executePlan` is called. -/
theorem Sound.beginCheckpoint (h : Sound w) {id : JsString} (hstart : Startable w id)
    (hhas : w.shared.engine.plans.has id = true) (inPlan : Bool) :
    Sound ⟨(w.shared.beginCheckpoint id inPlan).1, w.tasks ++ [(w.shared.beginCheckpoint id inPlan).2]⟩ := by
  obtain ⟨plan, hplan⟩ := exists_of_has hhas
  obtain ⟨checkpoint, -, hstored⟩ := h.shared.initial id plan hplan
  rw [MigrationRun.beginCheckpoint, hstored]
  refine h.append (h.shared.activate hplan hstart.1 rfl rfl (room_of_startable hstart hplan))
    (h.startable hstart.2.1 fun k hk => MigrationRun.get?_update_of_ne hk _) fun frame hframe => ?_
  obtain rfl := Task.waiting.inj hframe
  refine ⟨fun k names hbehind => ?_, fun k hk => ?_⟩
  · have hk : id = k ∧ [] = names := by
      cases inPlan with
      | false => cases hbehind
      | true =>
          cases hbehind
          exact ⟨rfl, rfl⟩
    obtain ⟨rfl, rfl⟩ := hk
    exact ⟨_, MigrationRun.get?_update_self hplan _, Or.inr (Or.inr ⟨rfl, fun name hname =>
      absurd hname List.not_mem_nil⟩)⟩
  · have hid : id = k := by
      cases inPlan with
      | false => cases hk
      | true =>
          cases hk
          rfl
    exact hid ▸ hstart.2.1

theorem Sound.start (h : Sound w) {call : MigrationCall} (hkept : Kept w (.start call))
    {r : MigrationRun × Task MigrationFrame MigrationResult} (hr : w.shared.start call = some r) :
    Sound ⟨r.1, w.tasks ++ [r.2]⟩ := by
  have hreturned : ∀ {result} (frame : MigrationFrame),
      (Task.returned result : Task MigrationFrame MigrationResult) = .waiting frame →
        r.1.FrameOk frame ∧ ∀ id, frame.executes = some id → ¬ InProgress w id := by
    intro result frame hframe
    cases hframe
  cases call with
  | initiateMigration migrationId targetPodId checkpoint priority =>
      rw [MigrationRun.start] at hr
      split_ifs at hr with hhas
      have hnew : w.shared.engine.plans.get? migrationId = none := by
        rw [JsMap.has, Bool.not_eq_true, Option.isSome_eq_false_iff, Option.isNone_iff_eq_none] at hhas
        exact hhas
      cases hok : w.shared.engine.initiateMigration migrationId targetPodId checkpoint priority with
      | error error =>
          rw [hok] at hr
          obtain rfl := Option.some.inj hr
          exact h.append h.shared h.frames hreturned
      | ok engine =>
          rw [hok] at hr
          obtain rfl := Option.some.inj hr
          obtain ⟨hsound, hplans⟩ := h.shared.initiateMigration hnew hok
          exact h.append hsound (fun i frame hi => (h.frames i frame hi).mono hplans) hreturned
  | executePlan id =>
      rw [MigrationRun.start] at hr
      split_ifs at hr with hhas
      obtain rfl := Option.some.inj hr
      exact h.beginCheckpoint hkept hhas true
  | stepCheckpoint id =>
      rw [MigrationRun.start] at hr
      split_ifs at hr with hhas
      obtain rfl := Option.some.inj hr
      exact h.beginCheckpoint hkept hhas false
  | stepTransfer id =>
      rw [MigrationRun.start] at hr
      split_ifs at hr with hhas
      obtain rfl := Option.some.inj hr
      obtain ⟨plan, hplan⟩ := exists_of_has hhas
      exact h.append (h.shared.activate hplan hkept.1 rfl rfl (room_of_startable hkept hplan))
        (h.startable hkept.2.1 fun k hk => MigrationRun.get?_update_of_ne hk _) hreturned
  | stepVerify id remoteHash =>
      rw [MigrationRun.start] at hr
      split_ifs at hr with hhas
      obtain rfl := Option.some.inj hr
      obtain ⟨plan, hplan⟩ := exists_of_has hhas
      refine h.append (h.shared.stepVerify hplan hkept.1 remoteHash (room_of_startable hkept hplan))
        (h.startable hkept.2.1 fun k hk => ?_) hreturned
      rw [(MigrationRun.stepVerify_record w.shared id remoteHash).1, MigrationEngine.get?_update, if_neg hk]
  | stepActivate id =>
      rw [MigrationRun.start] at hr
      split_ifs at hr with hhas
      obtain rfl := Option.some.inj hr
      obtain ⟨plan, hplan⟩ := exists_of_has hhas
      exact h.append (h.shared.stepActivate hplan hkept.1.1 (hkept.2 plan hplan))
        (h.startable hkept.1.2.1 fun k hk => MigrationRun.get?_update_of_ne hk _) hreturned
  | cancelPlan id =>
      obtain rfl := Option.some.inj hr
      rcases w.shared.cancelPlan_cases id with hsame | ⟨plan, hplan, hrolled⟩
      · refine h.append (hsame.symm ▸ h.shared) (fun i frame hi => ?_) hreturned
        dsimp only
        rw [hsame]
        exact h.frames i frame hi
      · refine h.append (hrolled.symm ▸ h.shared.rollback hplan) (fun i frame hi => ?_) hreturned
        dsimp only
        rw [hrolled]
        exact (h.frames i frame hi).rollback
  | receiveCheckpoint payload =>
      rw [MigrationRun.start] at hr
      cases hpayload : payload.checkpoint? with
      | none =>
          rw [hpayload] at hr
          obtain rfl := Option.some.inj hr
          exact h.append h.shared h.frames hreturned
      | some checkpoint =>
          rw [hpayload] at hr
          obtain rfl := Option.some.inj hr
          refine h.append h.shared h.frames fun frame hframe => ?_
          obtain rfl := Task.waiting.inj hframe
          exact ⟨fun k names hbehind => (by cases hbehind), fun k hk => (by cases hk)⟩

theorem Sound.resume (h : Sound w) {i : ℕ} {event : MigrationEvent} (hkept : Kept w (.resume i event))
    {frame : MigrationFrame} (hi : w.tasks[i]? = some (.waiting frame))
    {r : MigrationRun × Task MigrationFrame MigrationResult} (hr : w.shared.resume frame event = some r) :
    Sound ⟨r.1, w.tasks.set i r.2⟩ := by
  have hmay := hkept frame hi
  have hframe := h.frames i frame hi
  have hsame : ∀ (j : ℕ) (frame : MigrationFrame), j ≠ i → w.tasks[j]? = some (.waiting frame) →
      w.shared.FrameOk frame := fun j frame _ hj => h.frames j frame hj
  have hreturned : ∀ {s : MigrationRun} {frame₀ : MigrationFrame} {result} (frame : MigrationFrame),
      (Task.returned result : Task MigrationFrame MigrationResult) = .waiting frame →
        s.FrameOk frame ∧ ∀ id, frame.executes = some id → frame₀.executes = some id := by
    intro s frame₀ result frame heq
    cases heq
  cases frame with
  | verifying id inPlan =>
      cases event with
      | settled valid =>
          obtain rfl := Option.some.inj hr
          refine h.set hi (h.shared.endCheckpoint id valid fun hvalid => hmay id ?_)
            (fun j frame _ hj => (h.frames j frame hj).endCheckpoint valid) fun frame heq => ?_
          · rw [hvalid]
            rfl
          · cases inPlan with
            | false => cases heq
            | true =>
                obtain rfl := Task.waiting.inj heq
                refine ⟨fun k names hbehind => ?_, fun k hk => hk⟩
                obtain ⟨rfl, rfl⟩ : id = k ∧ [StepName.checkpoint] = names := by
                  cases hbehind
                  exact ⟨rfl, rfl⟩
                obtain ⟨plan, hplan, hstate⟩ := hframe id [] rfl
                refine ⟨_, MigrationRun.get?_update_self hplan _, ?_⟩
                cases valid with
                | false => exact Or.inl rfl
                | true =>
                    refine hstate.imp_right (Or.imp_right (And.imp_right fun _ name hname => ?_))
                    obtain rfl := List.mem_singleton.mp hname
                    rfl
      | rejected error =>
          obtain rfl := Option.some.inj hr
          refine h.set hi h.shared hsame fun frame heq => ?_
          cases inPlan with
          | false => cases heq
          | true =>
              obtain rfl := Task.waiting.inj heq
              exact ⟨fun k names hbehind => (by cases hbehind), fun k hk => hk⟩
      | resumed => cases hr
  | checkpointed id error =>
      cases event with
      | settled valid =>
          cases error with
          | none => cases hr
          | some error => cases hr
      | rejected error' =>
          cases error with
          | none => cases hr
          | some error => cases hr
      | resumed =>
          have hid := hmay id rfl
          cases error with
          | none =>
              rw [MigrationRun.resume] at hr
              split_ifs at hr with hfailed
              · obtain rfl := Option.some.inj hr
                exact h.set hi h.shared hsame hreturned
              · obtain rfl := Option.some.inj hr
                obtain ⟨plan, hplan, hactive, hsteps⟩ := hframe.going h.shared rfl hid hfailed
                refine h.set hi (h.shared.activate hplan hid rfl rfl (Or.inl hactive))
                  (h.other hi rfl fun k hk => MigrationRun.get?_update_of_ne hk _) fun frame heq => ?_
                obtain rfl := Task.waiting.inj heq
                refine ⟨fun k names hbehind => ?_, fun k hk => hk⟩
                obtain ⟨rfl, rfl⟩ : id = k ∧ [StepName.checkpoint, StepName.transfer] = names := by
                  cases hbehind
                  exact ⟨rfl, rfl⟩
                refine ⟨_, MigrationRun.get?_update_self hplan _, Or.inr (Or.inr ⟨rfl, fun name hname => ?_⟩)⟩
                rcases List.mem_pair.mp hname with rfl | rfl
                · exact MigrationRun.stepTransfer_steps plan _ (hsteps _ List.mem_cons_self)
                · rfl
          | some error =>
              obtain rfl := Option.some.inj hr
              cases hplan : w.shared.engine.plans.get? id with
              | none =>
                  have hnothing : w.shared.update id (fun plan => plan.fail error) = w.shared := by
                    rw [MigrationRun.update, MigrationEngine.update, hplan]
                  rw [hnothing]
                  exact h.set hi h.shared hsame hreturned
              | some plan =>
                  have hstate : (plan.fail error).state = .failed := by
                    rw [MigrationPlan.fail]
                    split_ifs <;> rfl
                  have hverify : (plan.fail error).steps .verify = plan.steps .verify := by
                    rw [MigrationPlan.fail]
                    split_ifs <;> rfl
                  exact h.set hi (h.shared.fails hplan hid hstate fun hcompleted => hverify ▸ hcompleted)
                    (h.other hi rfl fun k hk => MigrationRun.get?_update_of_ne hk _) hreturned
  | transferred id =>
      cases event with
      | settled valid => cases hr
      | rejected error => cases hr
      | resumed =>
          have hid := hmay id rfl
          rw [MigrationRun.resume] at hr
          split_ifs at hr with hfailed
          · obtain rfl := Option.some.inj hr
            exact h.set hi h.shared hsame hreturned
          · obtain ⟨plan, hplan, hactive, hsteps⟩ := hframe.going h.shared rfl hid hfailed
            obtain ⟨checkpoint, -, hstored⟩ := h.shared.initial id plan hplan
            rw [hstored] at hr
            obtain rfl := Option.some.inj hr
            have hengine := (MigrationRun.stepVerify_record w.shared id (some checkpoint.dataHash)).1
            refine h.set hi (h.shared.stepVerify hplan hid _ (Or.inl hactive)) (h.other hi rfl fun k hk => ?_)
              fun frame heq => ?_
            · rw [hengine, MigrationEngine.get?_update, if_neg hk]
            · obtain rfl := Task.waiting.inj heq
              refine ⟨fun k names hbehind => ?_, fun k hk => hk⟩
              obtain ⟨rfl, rfl⟩ : id = k ∧ [StepName.checkpoint, StepName.transfer, StepName.verify] = names := by
                cases hbehind
                exact ⟨rfl, rfl⟩
              -- the remote hash is the checkpoint's own
              have hsame : plan.stepVerify (some checkpoint) (some checkpoint.dataHash) =
                  (plan.start .verify .verifying).complete .verify := by
                rw [MigrationPlan.stepVerify]
                exact if_neg (not_not_intro rfl)
              refine ⟨(plan.start .verify .verifying).complete .verify, ?_, Or.inr (Or.inr ⟨rfl, fun name hname => ?_⟩)⟩
              · rw [hengine, hstored, MigrationEngine.get?_update, if_pos rfl, hplan]
                exact congrArg some hsame
              · rcases List.mem_cons.mp hname with rfl | hname
                · exact hsteps _ List.mem_cons_self
                · rcases List.mem_pair.mp hname with rfl | rfl
                  · exact hsteps _ (List.mem_cons_of_mem _ List.mem_cons_self)
                  · rfl
  | verified id =>
      cases event with
      | settled valid => cases hr
      | rejected error => cases hr
      | resumed =>
          have hid := hmay id rfl
          rw [MigrationRun.resume] at hr
          split_ifs at hr with hfailed
          · obtain rfl := Option.some.inj hr
            exact h.set hi h.shared hsame hreturned
          · obtain rfl := Option.some.inj hr
            obtain ⟨plan, hplan, hactive, hsteps⟩ := hframe.going h.shared rfl hid hfailed
            refine h.set hi (h.shared.stepActivate hplan hid ⟨hsteps _ (by decide), hsteps _ (by decide),
              hsteps _ (by decide)⟩) (h.other hi rfl fun k hk => MigrationRun.get?_update_of_ne hk _)
              fun frame heq => ?_
            obtain rfl := Task.waiting.inj heq
            exact ⟨fun k names hbehind => (by cases hbehind), fun k hk => hk⟩
  | activated id =>
      cases event with
      | settled valid => cases hr
      | rejected error => cases hr
      | resumed =>
          obtain rfl := Option.some.inj hr
          exact h.set hi h.shared hsame hreturned
  | received key checkpoint =>
      cases event with
      | settled valid =>
          obtain rfl := Option.some.inj hr
          cases valid with
          | false => exact h.set hi h.shared hsame hreturned
          | true =>
              exact h.set hi (h.shared.receive (hmay rfl))
                (fun j frame _ hj => (h.frames j frame hj).mono fun k plan hk => hk) hreturned
      | rejected error =>
          obtain rfl := Option.some.inj hr
          exact h.set hi h.shared hsame hreturned
      | resumed => cases hr

/-! ### Results -/

/-- In every run whose steps meet `Kept`, cancelled plans stay rolled back, completed plans have completed all
steps and compared the remote hash with the checkpoint they were initiated with, and no more plans than allowed
are active. -/
theorem migrations_kept (localPodId : JsString) (maxConcurrent : ℕ) (w : MigrationWorld)
    (h : (migrationMachine localPodId maxConcurrent).Reach Kept w) : w.shared.Safe := by
  refine (h.invariant (I := Sound) ?_ ?_).shared.safe
  · exact ⟨MigrationRun.sound_new localPodId maxConcurrent, fun i frame hi => (nomatch hi),
      fun i j frame frame' id hi => nomatch hi⟩
  · intro w a w' hi hkept hs
    cases a with
    | start call =>
        obtain ⟨r, hr, rfl⟩ := Program.step_start hs
        exact hi.start hkept hr
    | resume i event =>
        obtain ⟨frame, r, hframe, hr, rfl⟩ := Program.step_resume hs
        exact hi.resume hkept hframe hr

theorem inProgress_iff {w : MigrationWorld} {id : JsString} : InProgress w id ↔
    w.tasks.any (fun t => match t with
      | .waiting frame => decide (frame.executes = some id)
      | .returned _ => false) = true := by
  rw [List.any_eq_true]
  refine exists_congr fun t => and_congr_right fun _ => ?_
  cases t with
  | waiting frame =>
      constructor
      · rintro ⟨frame', hframe, hid⟩
        cases hframe
        exact decide_eq_true hid
      · exact fun hid => ⟨frame, rfl, of_decide_eq_true hid⟩
  | returned result =>
      refine iff_of_false ?_ Bool.false_ne_true
      rintro ⟨frame, hframe, -⟩
      cases hframe

instance (w : MigrationWorld) (id : JsString) : Decidable (InProgress w id) := decidable_of_iff _ inProgress_iff.symm

instance (w : MigrationWorld) (id : JsString) : Decidable (Startable w id) :=
  inferInstanceAs (Decidable (_ ∧ _ ∧ _))

instance (w : MigrationWorld) (id : JsString) : Decidable (Verified w id) :=
  inferInstanceAs (Decidable (∀ plan ∈ w.shared.engine.plans.get? id, _))

instance (w : MigrationWorld) (event : MigrationEvent) (frame : MigrationFrame) : Decidable (MayGoOn w event frame) := by
  unfold MayGoOn
  split <;> infer_instance

instance (w : MigrationWorld) (a : Async.Action MigrationCall MigrationEvent) : Decidable (Kept w a) := by
  cases a with
  | start call =>
      cases call with
      | executePlan id => exact inferInstanceAs (Decidable (Startable w id))
      | stepCheckpoint id => exact inferInstanceAs (Decidable (Startable w id))
      | stepTransfer id => exact inferInstanceAs (Decidable (Startable w id))
      | stepVerify id remoteHash => exact inferInstanceAs (Decidable (Startable w id))
      | stepActivate id => exact inferInstanceAs (Decidable (_ ∧ _))
      | initiateMigration migrationId targetPodId checkpoint priority => exact instDecidableTrue
      | cancelPlan id => exact instDecidableTrue
      | receiveCheckpoint payload => exact instDecidableTrue
  | resume i event =>
      have hiff : Kept w (.resume i event) ↔ match w.tasks[i]? with
          | some (.waiting frame) => MayGoOn w event frame
          | _ => True := by
        change (∀ frame, w.tasks[i]? = some (.waiting frame) → _) ↔ _
        cases w.tasks[i]? with
        | none => exact iff_of_true (fun frame hframe => nomatch hframe) trivial
        | some t =>
            cases t with
            | returned result => exact iff_of_true (fun frame hframe => nomatch hframe) trivial
            | waiting frame =>
                refine ⟨fun h => h frame rfl, ?_⟩
                rintro h frame' ⟨⟩
                exact h
      refine @decidable_of_iff _ _ hiff.symm ?_
      split <;> infer_instance

def ckpt : Checkpoint := ⟨js "ckpt_1", js "alice", [1, 2, 3]⟩

/-- One plan is executed, the next one is cancelled before it starts. -/
def oneByOne : List (Async.Action MigrationCall MigrationEvent) :=
  [.start (.initiateMigration (js "mig_1") (js "bob") (some ckpt) (js "")), .start (.executePlan (js "mig_1")),
    .resume 1 (.settled true), .resume 1 .resumed, .resume 1 .resumed, .resume 1 .resumed, .resume 1 .resumed,
    .start (.initiateMigration (js "mig_2") (js "bob") (some ckpt) (js "urgent")), .start (.cancelPlan (js "mig_2"))]

theorem migrations_kept_bob : ∃ w, (migrationMachine (js "alice") 1).run Kept (migrationMachine (js "alice") 1).init
    oneByOne = some w ∧ w.shared.Safe ∧ w.shared.stateOf (js "mig_1") = some .completed ∧
    w.shared.stateOf (js "mig_2") = some .rolledBack := by
  obtain ⟨w, hw, hreach, hcompleted, hrolled⟩ := Machine.exists_of_run (P := fun w : MigrationWorld =>
      w.shared.stateOf (js "mig_1") = some .completed ∧ w.shared.stateOf (js "mig_2") = some .rolledBack)
    (show ((migrationMachine (js "alice") 1).run Kept (migrationMachine (js "alice") 1).init oneByOne).any _ = true
      by decide +kernel)
  exact ⟨w, hw, migrations_kept (js "alice") 1 w hreach, hcompleted, hrolled⟩

/-- A plan that was cancelled goes on, a plan completes against a checkpoint that came with a message, and two
plans run where one is allowed. -/
theorem migrations_not_kept :
    (¬ ∀ (localPodId : JsString) (maxConcurrent : ℕ) (w : MigrationWorld),
      (migrationMachine localPodId maxConcurrent).Reach (fun _ _ => True) w →
        ∀ id ∈ w.shared.cancelled, w.shared.stateOf id = some .rolledBack) ∧
    (¬ ∀ (localPodId : JsString) (maxConcurrent : ℕ) (w : MigrationWorld),
      (migrationMachine localPodId maxConcurrent).Reach (fun _ _ => True) w →
        ∀ id, w.shared.stateOf id = some .completed → w.shared.verified id = w.shared.initial.get? id) ∧
    ¬ ∀ (localPodId : JsString) (maxConcurrent : ℕ) (w : MigrationWorld),
      (migrationMachine localPodId maxConcurrent).Reach (fun _ _ => True) w →
        w.shared.engine.activeMigrations ≤ w.shared.engine.maxConcurrent := by
  refine ⟨fun h => ?_, fun h => ?_, fun h => ?_⟩
  · obtain ⟨w, -, hreach, hcancelled, hstate⟩ := Machine.exists_of_run (P := fun w : MigrationWorld =>
        js "mig_1" ∈ w.shared.cancelled ∧ w.shared.stateOf (js "mig_1") = some .transferring)
      (show ((migrationMachine (js "alice") 3).run (fun _ _ => True) (migrationMachine (js "alice") 3).init
        [.start (.initiateMigration (js "mig_1") (js "bob") (some ckpt) (js "")),
          .start (.executePlan (js "mig_1")), .start (.cancelPlan (js "mig_1")), .resume 1 (.settled true),
          .resume 1 .resumed]).any _ = true by decide +kernel)
    rw [h _ _ w hreach _ hcancelled] at hstate
    cases hstate
  · obtain ⟨w, -, hreach, hcompleted, hverified⟩ := Machine.exists_of_run (P := fun w : MigrationWorld =>
        w.shared.stateOf (js "mig_1") = some .completed ∧
          w.shared.verified (js "mig_1") ≠ w.shared.initial.get? (js "mig_1"))
      (show ((migrationMachine (js "alice") 3).run (fun _ _ => True) (migrationMachine (js "alice") 3).init
        [.start (.initiateMigration (js "mig_1") (js "bob") (some ckpt) (js "")),
          .start (.receiveCheckpoint ⟨js "mig_1", js "ckpt_2", js "mallory", [6, 6, 6]⟩), .resume 1 (.settled true),
          .start (.executePlan (js "mig_1")), .resume 2 (.settled true), .resume 2 .resumed, .resume 2 .resumed,
          .resume 2 .resumed]).any _ = true by decide +kernel)
    exact hverified (h _ _ w hreach _ hcompleted)
  · obtain ⟨w, -, hreach, hactive, hmax⟩ := Machine.exists_of_run (P := fun w : MigrationWorld =>
        w.shared.engine.activeMigrations = 2 ∧ w.shared.engine.maxConcurrent = 1)
      (show ((migrationMachine (js "alice") 1).run (fun _ _ => True) (migrationMachine (js "alice") 1).init
        [.start (.initiateMigration (js "mig_1") (js "bob") (some ckpt) (js "")),
          .start (.initiateMigration (js "mig_2") (js "bob") (some ckpt) (js "")),
          .start (.executePlan (js "mig_1")), .start (.executePlan (js "mig_2"))]).any _ = true by decide +kernel)
    have hle := h _ _ w hreach
    rw [hactive, hmax] at hle
    exact absurd hle (by decide)

end MigrationWorld
end BrowserMesh.Sync
