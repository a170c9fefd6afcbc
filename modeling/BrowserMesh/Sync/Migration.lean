import BrowserMesh.Js.Text
import BrowserMesh.Js.Dict
import BrowserMesh.Library.Async
import BrowserMesh.Library.Guards

/-! # Migration plans

* **Plans** have a state and four steps; each step executor writes both.
* **Calls.**  `stepCheckpoint` waits for the checkpoint to be verified, `executePlan` waits for each of its
  steps, an inbound checkpoint is verified before it is stored; all other calls return at once.
* **Record.**  A run notes which plans were cancelled, the checkpoint that each was initiated with, and the
  checkpoint that its last successful `stepVerify` compared the remote hash with. -/

namespace BrowserMesh.Sync
open Js Guards Async Transition

inductive StepName where
  | checkpoint | transfer | verify | activate
  deriving DecidableEq

/-- `STEP_STATUSES`, with the error of a failed step. -/
inductive StepStatus where
  | pending | running | completed | skipped
  | failed (error : JsString)
  deriving DecidableEq

/-- `MIGRATION_STATES`. -/
inductive MigrationState where
  | idle | checkpointing | transferring | verifying | activating | completed | failed | rolledBack
  deriving DecidableEq

/-- `MIGRATION_PRIORITIES`. -/
def MIGRATION_PRIORITIES : List JsString := [js "normal", js "urgent"]

structure Checkpoint where
  checkpointId : JsString
  sourcePodId : JsString
  dataHash : List (Fin 256)
  deriving DecidableEq

/-- A plan of the engine, whose `currentStep` stays 0. -/
structure MigrationPlan where
  migrationId : JsString
  targetPodId : JsString
  priority : JsString
  state : MigrationState
  steps : StepName → StepStatus

namespace MigrationPlan

/-- The constructor. -/
def new (migrationId targetPodId priority : JsString) : MigrationPlan :=
  ⟨migrationId, targetPodId, priority, .idle, fun _ => .pending⟩

def setStep (plan : MigrationPlan) (name : StepName) (status : StepStatus) : MigrationPlan :=
  { plan with steps := Function.update plan.steps name status }

/-- `step.start(); plan.state = state`. -/
def start (plan : MigrationPlan) (name : StepName) (state : MigrationState) : MigrationPlan :=
  { plan.setStep name .running with state }

/-- `step.complete()`. -/
def complete (plan : MigrationPlan) (name : StepName) : MigrationPlan := plan.setStep name .completed

/-- `step.fail(error); plan.state = 'failed'`. -/
def failStep (plan : MigrationPlan) (name : StepName) (error : JsString) : MigrationPlan :=
  { plan.setStep name (.failed error) with state := .failed }

/-- `fail`. -/
def fail (plan : MigrationPlan) (error : JsString) : MigrationPlan :=
  if plan.steps .checkpoint = .running ∨ plan.steps .checkpoint = .pending then plan.failStep .checkpoint error
  else { plan with state := .failed }

/-- `rollback`. -/
def rollback (plan : MigrationPlan) : MigrationPlan :=
  { plan with
    steps := fun name =>
      if plan.steps name = .pending ∨ plan.steps name = .running then .skipped else plan.steps name
    state := .rolledBack }

/-- `stepCheckpoint` up to its `await`. -/
def beginCheckpoint (plan : MigrationPlan) (checkpoint : Option Checkpoint) : MigrationPlan :=
  match checkpoint with
  | none => (plan.start .checkpoint .checkpointing).failStep .checkpoint (js "No checkpoint available")
  | some _ => plan.start .checkpoint .checkpointing

/-- `stepCheckpoint` after its `await`. -/
def endCheckpoint (plan : MigrationPlan) (valid : Bool) : MigrationPlan :=
  if valid then plan.complete .checkpoint
  else plan.failStep .checkpoint (js "Checkpoint verification failed")

def stepTransfer (plan : MigrationPlan) : MigrationPlan := (plan.start .transfer .transferring).complete .transfer

/-- `stepVerify`; `none` for a remote hash that is no `Uint8Array`. -/
def stepVerify (plan : MigrationPlan) (checkpoint : Option Checkpoint) (remoteHash : Option (List (Fin 256))) :
    MigrationPlan :=
  let plan := plan.start .verify .verifying
  match checkpoint with
  | none => plan.failStep .verify (js "No checkpoint for verification")
  | some checkpoint =>
      match remoteHash with
      | none => plan.failStep .verify (js "remoteHash must be a Uint8Array")
      | some remoteHash =>
          if checkpoint.dataHash ≠ remoteHash then
            plan.failStep .verify (js "Hash mismatch: remote data does not match checkpoint")
          else plan.complete .verify

def stepActivate (plan : MigrationPlan) : MigrationPlan :=
  { (plan.start .activate .activating).complete .activate with state := .completed }

end MigrationPlan

def MigrationState.active : MigrationState → Bool
  | .checkpointing => true
  | .transferring => true
  | .verifying => true
  | .activating => true
  | _ => false

/-! ### The engine -/

structure MigrationEngine where
  localPodId : JsString
  maxConcurrent : ℕ
  plans : JsMap JsString MigrationPlan
  checkpoints : JsMap JsString Checkpoint

namespace MigrationEngine

/-- `activeMigrations`. -/
def activeMigrations (e : MigrationEngine) : ℕ := (e.plans.values.filter fun plan => plan.state.active).length

/-- Write to a plan of the engine. -/
def update (e : MigrationEngine) (id : JsString) (f : MigrationPlan → MigrationPlan) : MigrationEngine :=
  match e.plans.get? id with
  | none => e
  | some plan => { e with plans := e.plans.set id (f plan) }

/-- `initiateMigration`, under the id that is generated. -/
def initiateMigration (e : MigrationEngine) (migrationId targetPodId : JsString) (checkpoint : Option Checkpoint)
    (priority : JsString) : Except JsString MigrationEngine := do
  failIf (e.maxConcurrent ≤ e.activeMigrations)
    (js "Max concurrent migrations reached (" ++ decimal e.maxConcurrent ++ js ")")
  failIf (targetPodId = js "") (js "targetPodId is required")
  let checkpoint ← required (js "checkpoint is required") checkpoint
  let priority := if priority = js "" then js "normal" else priority
  failIf (priority ∉ MIGRATION_PRIORITIES) (js "Invalid priority: " ++ priority)
  return { e with
    plans := e.plans.set migrationId (.new migrationId targetPodId priority)
    checkpoints := e.checkpoints.set migrationId checkpoint }

/-- `cancelPlan`. -/
def cancelPlan (e : MigrationEngine) (id : JsString) : MigrationEngine × Bool :=
  match e.plans.get? id with
  | none => (e, false)
  | some plan =>
      if plan.state = .completed ∨ plan.state = .failed ∨ plan.state = .rolledBack then (e, false)
      else ({ e with plans := e.plans.set id plan.rollback }, true)

end MigrationEngine

/-! ### Calls -/

/-- The engine and the record of a run. -/
structure MigrationRun where
  engine : MigrationEngine
  cancelled : List JsString
  initial : JsMap JsString Checkpoint
  verified : JsString → Option Checkpoint

/-- A MIGRATION_CHECKPOINT payload, with the hash decoded. -/
structure CheckpointPayload where
  migrationId : JsString
  checkpointId : JsString
  sourcePodId : JsString
  dataHash : List (Fin 256)
  deriving DecidableEq

/-- `Checkpoint.fromJSON`; `none` where the constructor throws. -/
def CheckpointPayload.checkpoint? (payload : CheckpointPayload) : Option Checkpoint :=
  if payload.checkpointId = js "" ∨ payload.sourcePodId = js "" then none
  else some ⟨payload.checkpointId, payload.sourcePodId, payload.dataHash⟩

/-- `payload.migrationId || checkpoint.checkpointId`. -/
def CheckpointPayload.key (payload : CheckpointPayload) : JsString :=
  if payload.migrationId = js "" then payload.checkpointId else payload.migrationId

inductive MigrationCall where
  | initiateMigration (migrationId targetPodId : JsString) (checkpoint : Option Checkpoint) (priority : JsString)
  | executePlan (id : JsString)
  | stepCheckpoint (id : JsString)
  | stepTransfer (id : JsString)
  | stepVerify (id : JsString) (remoteHash : Option (List (Fin 256)))
  | stepActivate (id : JsString)
  | cancelPlan (id : JsString)
  | receiveCheckpoint (payload : CheckpointPayload)
  deriving DecidableEq

/-- What an awaited promise has settled to: a verification to its result or its error. -/
inductive MigrationEvent where
  | settled (valid : Bool)
  | rejected (error : JsString)
  | resumed
  deriving DecidableEq

/-- Where a call waits. -/
inductive MigrationFrame where
  /-- `stepCheckpoint` for `checkpoint.verify()`, called by `executePlan` or by itself. -/
  | verifying (id : JsString) (inPlan : Bool)
  /-- `executePlan` for `stepCheckpoint`, which has settled. -/
  | checkpointed (id : JsString) (error : Option JsString)
  | transferred (id : JsString)
  | verified (id : JsString)
  | activated (id : JsString)
  /-- The handler of an inbound checkpoint for `checkpoint.verify()`. -/
  | received (key : JsString) (checkpoint : Checkpoint)
  deriving DecidableEq

inductive MigrationResult where
  | plan | done
  | bool (cancelled : Bool)
  | thrown (error : JsString)
  deriving DecidableEq

namespace MigrationRun

def update (s : MigrationRun) (id : JsString) (f : MigrationPlan → MigrationPlan) : MigrationRun :=
  { s with engine := s.engine.update id f }

/-- `stepVerify`, and what it compared the remote hash with if it completed. -/
def stepVerify (s : MigrationRun) (id : JsString) (remoteHash : Option (List (Fin 256))) : MigrationRun :=
  let checkpoint := s.engine.checkpoints.get? id
  let s' := s.update id fun plan => plan.stepVerify checkpoint remoteHash
  if (s'.engine.plans.get? id).map (fun plan => plan.steps .verify) = some .completed then
    { s' with verified := Function.update s.verified id checkpoint }
  else s'

/-- `cancelPlan`, and whether it cancelled the plan. -/
def cancelPlan (s : MigrationRun) (id : JsString) : MigrationRun × Bool :=
  let r := s.engine.cancelPlan id
  ({ s with engine := r.1, cancelled := if r.2 then id :: s.cancelled else s.cancelled }, r.2)

/-- `stepCheckpoint` or `executePlan` up to the first `await`. -/
def beginCheckpoint (s : MigrationRun) (id : JsString) (inPlan : Bool) :
    MigrationRun × Task MigrationFrame MigrationResult :=
  let checkpoint := s.engine.checkpoints.get? id
  (s.update id fun plan => plan.beginCheckpoint checkpoint,
    match checkpoint with
    | none => if inPlan then .waiting (.checkpointed id none) else .returned .plan
    | some _ => .waiting (.verifying id inPlan))

/-- The calls; an executor is called for a plan of the engine, and a generated id is new. -/
def start (s : MigrationRun) : MigrationCall → Option (MigrationRun × Task MigrationFrame MigrationResult)
  | .initiateMigration migrationId targetPodId checkpoint priority =>
      if s.engine.plans.has migrationId then none
      else
        match s.engine.initiateMigration migrationId targetPodId checkpoint priority with
        | .error error => some (s, .returned (.thrown error))
        | .ok engine =>
            some ({ s with engine, initial := (checkpoint.map (s.initial.set migrationId)).getD s.initial },
              .returned .plan)
  | .executePlan id => if s.engine.plans.has id then some (s.beginCheckpoint id true) else none
  | .stepCheckpoint id => if s.engine.plans.has id then some (s.beginCheckpoint id false) else none
  | .stepTransfer id =>
      if s.engine.plans.has id then some (s.update id MigrationPlan.stepTransfer, .returned .plan) else none
  | .stepVerify id remoteHash =>
      if s.engine.plans.has id then some (s.stepVerify id remoteHash, .returned .plan) else none
  | .stepActivate id =>
      if s.engine.plans.has id then some (s.update id MigrationPlan.stepActivate, .returned .plan) else none
  | .cancelPlan id => some ((s.cancelPlan id).1, .returned (.bool (s.cancelPlan id).2))
  | .receiveCheckpoint payload =>
      match payload.checkpoint? with
      | none => some (s, .returned .done)
      | some checkpoint => some (s, .waiting (.received payload.key checkpoint))

/-- `plan.isFailed`. -/
def isFailed (s : MigrationRun) (id : JsString) : Bool :=
  decide ((s.engine.plans.get? id).map MigrationPlan.state = some .failed)

def resume (s : MigrationRun) : MigrationFrame → MigrationEvent →
    Option (MigrationRun × Task MigrationFrame MigrationResult)
  | .verifying id inPlan, .settled valid =>
      some (s.update id fun plan => plan.endCheckpoint valid,
        if inPlan then .waiting (.checkpointed id none) else .returned .plan)
  | .verifying id inPlan, .rejected error =>
      some (s, if inPlan then .waiting (.checkpointed id (some error)) else .returned (.thrown error))
  | .checkpointed id (some error), .resumed => some (s.update id fun plan => plan.fail error, .returned .plan)
  | .checkpointed id none, .resumed =>
      if s.isFailed id then some (s, .returned .plan)
      else some (s.update id MigrationPlan.stepTransfer, .waiting (.transferred id))
  | .transferred id, .resumed =>
      if s.isFailed id then some (s, .returned .plan)
      else
        match s.engine.checkpoints.get? id with
        | none =>
            some (s.update id fun plan => plan.fail (js "No checkpoint available for verification"),
              .returned .plan)
        | some checkpoint => some (s.stepVerify id (some checkpoint.dataHash), .waiting (.verified id))
  | .verified id, .resumed =>
      if s.isFailed id then some (s, .returned .plan)
      else some (s.update id MigrationPlan.stepActivate, .waiting (.activated id))
  | .activated _, .resumed => some (s, .returned .plan)
  | .received key checkpoint, .settled valid =>
      some (if valid then
          { s with engine := { s.engine with checkpoints := s.engine.checkpoints.set key checkpoint } }
        else s, .returned .done)
  | .received _ _, .rejected _ => some (s, .returned .done)
  | _, _ => none

def program : Program MigrationRun MigrationCall MigrationEvent MigrationFrame MigrationResult := ⟨start, resume⟩

/-- The engine of the constructor. -/
def new (localPodId : JsString) (maxConcurrent : ℕ) : MigrationRun :=
  ⟨⟨localPodId, maxConcurrent, JsMap.empty, JsMap.empty⟩, [], JsMap.empty, fun _ => none⟩

end MigrationRun

/-- The calls made on a migration engine. -/
abbrev MigrationWorld := World MigrationRun MigrationFrame MigrationResult

def migrationMachine (localPodId : JsString) (maxConcurrent : ℕ) :
    Machine MigrationWorld (Async.Action MigrationCall MigrationEvent) :=
  MigrationRun.program.machine (.new localPodId maxConcurrent)

end BrowserMesh.Sync
