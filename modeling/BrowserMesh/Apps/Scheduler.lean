import BrowserMesh.Js.Dict
import BrowserMesh.Js.Number
import BrowserMesh.Library.Guards
import BrowserMesh.Library.Transition

/-! # The mesh scheduler

* **Tasks and nodes.**  `ScheduledTask` with the fields the scheduler reads and writes, the constraints of
  a task and `matches` against the descriptor of a node.
* **The queue.**  `enqueue` keeps the queue sorted by the default comparator; the queue is held as the ids
  of its tasks.
* **Operations.**  `submit`, `cancel`, `assign`, `complete`, `fail` and the scheduling cycle `schedule`
  with its four policies.
* **The life of a task.**  Only `cancel` looks at the status of the task.  `lifecycle_iff`: statuses, queue
  and counters agree along a run, and no finished task changes, exactly as long as no task is assigned,
  completed or failed after it is finished, and none is failed while it is queued. -/

namespace BrowserMesh.Apps
open Js Guards Transition

inductive TaskStatus where
  | pending | queued | assigned | running | completed | failed | cancelled
  deriving DecidableEq

/-- The statuses that `cancel` refuses. -/
def TaskStatus.Final (s : TaskStatus) : Prop := s = .completed ∨ s = .failed ∨ s = .cancelled

instance (s : TaskStatus) : Decidable s.Final := inferInstanceAs (Decidable (_ ∨ _ ∨ _))

theorem TaskStatus.ne_of_not_final {s : TaskStatus} (h : ¬ s.Final) : s ≠ .completed ∧ s ≠ .failed :=
  ⟨fun hs => h (Or.inl hs), fun hs => h (Or.inr (Or.inl hs))⟩

inductive TaskPriority where
  | low | normal | high | critical
  deriving DecidableEq

/-- `PRIORITY_WEIGHT`. -/
def TaskPriority.weight : TaskPriority → JsNumber
  | .critical => .ofNat 4
  | .high => .ofNat 3
  | .normal => .ofNat 2
  | .low => .ofNat 1

inductive SchedulingPolicy where
  | bestFit | firstFit | roundRobin | loadBalanced
  deriving DecidableEq

/-- The constraints given with a task; `none` for an option that is not given. -/
structure ConstraintOptions where
  requiredCaps : Option (List JsString) := none
  minMemoryMb : Option JsNumber := none
  minCpuCores : Option JsNumber := none
  affinityPodIds : Option (List JsString) := none
  antiAffinityPodIds : Option (List JsString) := none
  deriving DecidableEq

structure TaskConstraints where
  requiredCaps : List JsString
  minMemoryMb : JsNumber
  minCpuCores : JsNumber
  affinityPodIds : List JsString
  antiAffinityPodIds : List JsString

/-- The constructor with its defaults; `fromJSON` is the same. -/
def TaskConstraints.new (opts : ConstraintOptions) : TaskConstraints where
  requiredCaps := opts.requiredCaps.getD []
  minMemoryMb := opts.minMemoryMb.getD 0
  minCpuCores := opts.minCpuCores.getD 0
  affinityPodIds := opts.affinityPodIds.getD []
  antiAffinityPodIds := opts.antiAffinityPodIds.getD []

/-- The descriptor of a node. -/
structure ResourceDescriptor where
  podId : Option JsString := none
  capabilities : Option (List JsString) := none
  memory : Option JsNumber := none
  cpu : Option JsNumber := none
  load : Option JsNumber := none

/-- `matches`. -/
def TaskConstraints.matches (c : TaskConstraints) (r : ResourceDescriptor) : Bool :=
  let mem := r.memory.getD 0
  let cpu := r.cpu.getD 0
  let listed (pods : List JsString) : Bool := r.podId.any fun pod => pod ≠ [] && pods.contains pod
  c.requiredCaps.all (fun cap => (r.capabilities.getD []).contains cap) &&
    !(JsNumber.lt 0 c.minMemoryMb && mem.lt c.minMemoryMb) &&
    !(JsNumber.lt 0 c.minCpuCores && cpu.lt c.minCpuCores) &&
    (c.affinityPodIds.isEmpty || listed c.affinityPodIds) &&
    (c.antiAffinityPodIds.isEmpty || !listed c.antiAffinityPodIds)

/-- `ScheduledTask`, over the results `ρ` that tasks can have. -/
structure ScheduledTask (ρ : Type) where
  id : JsString
  priority : TaskPriority := .normal
  constraints : ConstraintOptions := {}
  submittedAt : JsNumber := 0
  deadline : Option JsNumber := none
  retries : JsNumber := 0
  maxRetries : JsNumber := .ofNat 3
  status : TaskStatus := .pending
  assignedTo : Option JsString := none
  result : Option ρ := none
  error : Option JsString := none
  assignedAt : Option JsNumber := none
  completedAt : Option JsNumber := none
  deriving DecidableEq

namespace ScheduledTask
variable {ρ : Type}

/-- `canRetry`. -/
def canRetry (task : ScheduledTask ρ) : Bool := task.retries.lt task.maxRetries

/-! The assignments of the scheduler to the fields of a task. -/

def markQueued (task : ScheduledTask ρ) : ScheduledTask ρ := { task with status := .queued }

def markCancelled (task : ScheduledTask ρ) (now : JsNumber) : ScheduledTask ρ :=
  { task with status := .cancelled, completedAt := some now }

def markAssigned (task : ScheduledTask ρ) (podId : JsString) (now : JsNumber) : ScheduledTask ρ :=
  { task with status := .assigned, assignedTo := some podId, assignedAt := some now }

def markCompleted (task : ScheduledTask ρ) (result : ρ) (now : JsNumber) : ScheduledTask ρ :=
  { task with status := .completed, result := some result, completedAt := some now }

def markRequeued (task : ScheduledTask ρ) : ScheduledTask ρ :=
  { task with status := .queued, assignedTo := none, assignedAt := none, error := none }

def markFailed (task : ScheduledTask ρ) (error : JsString) (now : JsNumber) : ScheduledTask ρ :=
  { task with status := .failed, error := some error, completedAt := some now }

@[simp] theorem markQueued_status (task : ScheduledTask ρ) : task.markQueued.status = .queued := rfl

@[simp] theorem markCancelled_status (task : ScheduledTask ρ) (now : JsNumber) :
    (task.markCancelled now).status = .cancelled := rfl

@[simp] theorem markAssigned_status (task : ScheduledTask ρ) (podId : JsString) (now : JsNumber) :
    (task.markAssigned podId now).status = .assigned := rfl

@[simp] theorem markCompleted_status (task : ScheduledTask ρ) (result : ρ) (now : JsNumber) :
    (task.markCompleted result now).status = .completed := rfl

@[simp] theorem markRequeued_status (task : ScheduledTask ρ) : task.markRequeued.status = .queued := rfl

@[simp] theorem markFailed_status (task : ScheduledTask ρ) (error : JsString) (now : JsNumber) :
    (task.markFailed error now).status = .failed := rfl

/-- `task.retries++`. -/
def countRetry (task : ScheduledTask ρ) : ScheduledTask ρ :=
  { task with retries := task.retries.add (.ofNat 1) }

@[simp] theorem countRetry_status (task : ScheduledTask ρ) : task.countRetry.status = task.status := rfl

/-- `_defaultComparator`. -/
def defaultComparator (a b : ScheduledTask ρ) : JsNumber :=
  let wa := a.priority.weight
  let wb := b.priority.weight
  let da := a.deadline.getD .posInf
  let db := b.deadline.getD .posInf
  if !wa.eq wb then wb.sub wa
  else if !da.eq db then da.sub db
  else a.submittedAt.sub b.submittedAt

end ScheduledTask

/-- What the scheduler holds; the queue as the ids of its tasks. -/
structure MeshScheduler (ρ : Type) where
  tasks : JsMap JsString (ScheduledTask ρ)
  queue : List JsString
  nodes : JsMap JsString ResourceDescriptor
  maxConcurrent : JsNumber
  schedulingPolicy : SchedulingPolicy
  rrIndex : ℕ
  totalSubmitted : ℕ
  completed : ℕ
  failed : ℕ
  totalWaitMs : JsNumber
  totalRunMs : JsNumber

namespace MeshScheduler
variable {ρ : Type}

/-- The constructor. -/
def new (maxConcurrent : JsNumber) (schedulingPolicy : SchedulingPolicy) : MeshScheduler ρ :=
  ⟨JsMap.empty, [], JsMap.empty, maxConcurrent, schedulingPolicy, 0, 0, 0, 0, 0, 0⟩

/-! ### The queue -/

/-- `a` may stand before `b`: the comparator does not give a positive number. -/
def inOrder (tasks : JsMap JsString (ScheduledTask ρ)) (a b : JsString) : Bool :=
  match tasks.get? a, tasks.get? b with
  | some a, some b => !JsNumber.lt 0 (a.defaultComparator b)
  | _, _ => true

/-- `TaskQueue.enqueue`: push, then sort by the comparator. -/
def enqueue (s : MeshScheduler ρ) (id : JsString) : MeshScheduler ρ :=
  { s with queue := (s.queue ++ [id]).mergeSort (inOrder s.tasks) }

/-- `TaskQueue.remove`. -/
def dequeueId (s : MeshScheduler ρ) (id : JsString) : MeshScheduler ρ :=
  { s with queue := s.queue.erase id }

/-- The object of the task, changed in place. -/
def put (s : MeshScheduler ρ) (id : JsString) (task : ScheduledTask ρ) : MeshScheduler ρ :=
  { s with tasks := s.tasks.set id task }

/-! ### Task lifecycle -/

def submit (s : MeshScheduler ρ) (task : ScheduledTask ρ) : Except JsString (MeshScheduler ρ) :=
  if s.tasks.has task.id then .error (js "Task \"" ++ task.id ++ js "\" already exists")
  else
    let s := (s.put task.id task.markQueued).enqueue task.id
    .ok { s with totalSubmitted := s.totalSubmitted + 1 }

def cancel (s : MeshScheduler ρ) (taskId : JsString) (now : JsNumber) : MeshScheduler ρ × Bool :=
  match s.tasks.get? taskId with
  | none => (s, false)
  | some task =>
      if task.status.Final then (s, false)
      else ((s.put taskId (task.markCancelled now)).dequeueId taskId, true)

def notFound (taskId : JsString) : JsString := js "Task \"" ++ taskId ++ js "\" not found"

def assign (s : MeshScheduler ρ) (taskId podId : JsString) (now : JsNumber) :
    Except JsString (MeshScheduler ρ) := do
  let task ← required (notFound taskId) (s.tasks.get? taskId)
  return (s.put taskId (task.markAssigned podId now)).dequeueId taskId

def complete (s : MeshScheduler ρ) (taskId : JsString) (result : ρ) (now : JsNumber) :
    Except JsString (MeshScheduler ρ) := do
  let task ← required (notFound taskId) (s.tasks.get? taskId)
  let assignedAt := task.assignedAt.filter JsNumber.truthy
  let s := { s.put taskId (task.markCompleted result now) with
    completed := s.completed + 1
    totalRunMs := assignedAt.elim s.totalRunMs fun t => s.totalRunMs.add (now.sub t)
    totalWaitMs := assignedAt.elim s.totalWaitMs fun t =>
      if task.submittedAt.truthy then s.totalWaitMs.add (t.sub task.submittedAt) else s.totalWaitMs }
  return s.dequeueId taskId

def fail (s : MeshScheduler ρ) (taskId error : JsString) (now : JsNumber) :
    Except JsString (MeshScheduler ρ) := do
  let task ← required (notFound taskId) (s.tasks.get? taskId)
  let task := task.countRetry
  if task.canRetry then return (s.put taskId task.markRequeued).enqueue taskId
  else return { s.put taskId (task.markFailed error now) with failed := s.failed + 1 }

/-! ### The scheduling cycle -/

/-- `getRunningCount`. -/
def getRunningCount (s : MeshScheduler ρ) : ℕ :=
  s.tasks.values.countP fun task => task.status = .assigned || task.status = .running

/-- The nodes that fulfil the constraints, as `{ podId: nodeId, ...nodeRes }`. -/
def matchingNodes (s : MeshScheduler ρ) (constraints : TaskConstraints) :
    List (JsString × ResourceDescriptor) :=
  (s.nodes.entries.filter fun n => constraints.matches n.2).map fun n => (n.2.podId.getD n.1, n.2)

/-- How well the resources of a node fit, for `best-fit`. -/
def score (constraints : TaskConstraints) (node : ResourceDescriptor) : JsNumber :=
  let mem := node.memory.getD 0
  let cpu := node.cpu.getD 0
  let ofMemory :=
    if JsNumber.lt 0 constraints.minMemoryMb && JsNumber.lt 0 mem then
      JsNumber.mathMax 0 ((JsNumber.ofNat 100).sub ((mem.sub constraints.minMemoryMb).abs.divNat 10))
    else mem.divNat 100
  let ofCpu :=
    if JsNumber.lt 0 constraints.minCpuCores && JsNumber.lt 0 cpu then
      JsNumber.mathMax 0 ((JsNumber.ofNat 50).sub ((cpu.sub constraints.minCpuCores).abs.mulNat 5))
    else cpu.mulNat 5
  (JsNumber.add 0 ofMemory).add ofCpu

/-- The first of the nodes with the best value, if one is better than `start`; else the first node. -/
def pick (better : JsNumber → JsNumber → Bool) (value : ResourceDescriptor → JsNumber) (start : JsNumber)
    (first : JsString) (nodes : List (JsString × ResourceDescriptor)) : JsString :=
  (nodes.foldl (fun best node => if better (value node.2) best.1 then (value node.2, node.1) else best)
    (start, first)).2

/-- The pod that the policy selects, and the next round-robin index. -/
def selectPod (s : MeshScheduler ρ) (constraints : TaskConstraints) : Option (JsString × ℕ) :=
  match s.matchingNodes constraints with
  | [] => none
  | first :: rest =>
      let nodes := first :: rest
      match s.schedulingPolicy with
      | .firstFit => some (first.1, s.rrIndex)
      | .roundRobin => some ((nodes.getD (s.rrIndex % nodes.length) first).1, s.rrIndex + 1)
      | .loadBalanced =>
          some (pick (fun a b => a.lt b) (fun r => r.load.getD 0) .posInf first.1 nodes, s.rrIndex)
      | .bestFit =>
          some (pick (fun a b => b.lt a) (score constraints) (.neg (.ofNat 1)) first.1 nodes, s.rrIndex)

/-- The loop of `schedule` over the queued tasks; `now` are the clock readings of its assignments. -/
def scheduleLoop (now : ℕ → JsNumber) : List JsString → MeshScheduler ρ → ℕ → MeshScheduler ρ × ℕ
  | [], s, assigned => (s, assigned)
  | id :: ids, s, assigned =>
      if s.maxConcurrent.le (.ofNat s.getRunningCount) then (s, assigned)
      else
        match (s.tasks.get? id).bind fun task => s.selectPod (.new task.constraints) with
        | none => scheduleLoop now ids s assigned
        | some (podId, rrIndex) =>
            match assign { s with rrIndex } id podId (now assigned) with
            | .ok s => scheduleLoop now ids s (assigned + 1)
            | .error _ => (s, assigned)

/-- `schedule`. -/
def schedule (s : MeshScheduler ρ) (now : ℕ → JsNumber) : MeshScheduler ρ × ℕ :=
  if s.nodes.size = 0 then (s, 0)
  else scheduleLoop now (s.queue.filter fun id => (s.tasks.get? id).any fun task => task.status = .queued) s 0

/-! ### Calls -/

inductive SchedulerCall (ρ : Type) where
  | submit (task : ScheduledTask ρ)
  | cancel (taskId : JsString) (now : JsNumber)
  | assign (taskId podId : JsString) (now : JsNumber)
  | complete (taskId : JsString) (result : ρ) (now : JsNumber)
  | fail (taskId error : JsString) (now : JsNumber)
  | schedule (now : ℕ → JsNumber)
  | registerNode (podId : JsString) (resources : ResourceDescriptor)
  | unregisterNode (podId : JsString)

/-- A call that throws leaves the scheduler as it is. -/
def orElse (s : MeshScheduler ρ) : Except JsString (MeshScheduler ρ) → MeshScheduler ρ
  | .ok s' => s'
  | .error _ => s

def call (s : MeshScheduler ρ) : SchedulerCall ρ → MeshScheduler ρ
  | .submit task => s.orElse (s.submit task)
  | .cancel taskId now => (s.cancel taskId now).1
  | .assign taskId podId now => s.orElse (s.assign taskId podId now)
  | .complete taskId result now => s.orElse (s.complete taskId result now)
  | .fail taskId error now => s.orElse (s.fail taskId error now)
  | .schedule now => (s.schedule now).1
  | .registerNode podId resources => { s with nodes := s.nodes.set podId resources }
  | .unregisterNode podId => { s with nodes := s.nodes.delete podId }

/-- The calls made on a new scheduler. -/
def machine (maxConcurrent : JsNumber) (schedulingPolicy : SchedulingPolicy) :
    Machine (MeshScheduler ρ) (SchedulerCall ρ) :=
  ⟨new maxConcurrent schedulingPolicy, fun s c => some (s.call c)⟩

/-- How many tasks have the status. -/
def countStatus (s : MeshScheduler ρ) (status : TaskStatus) : ℕ :=
  s.tasks.entries.countP fun e => e.2.status = status

/-- Statuses, queue and counters agree. -/
structure Consistent (s : MeshScheduler ρ) : Prop where
  queued : ∀ id task, s.tasks.get? id = some task →
    s.queue.count id = if task.status = .queued then 1 else 0
  known : ∀ id ∈ s.queue, s.tasks.get? id ≠ none
  completed : s.completed = s.countStatus .completed
  failed : s.failed = s.countStatus .failed
  submitted : s.totalSubmitted = s.tasks.size

/-- The finished tasks of `s` have the same status and result in `s'`. -/
def KeepsFinal (s s' : MeshScheduler ρ) : Prop :=
  ∀ id task, s.tasks.get? id = some task → task.status.Final →
    ∃ task', s'.tasks.get? id = some task' ∧ task'.status = task.status ∧ task'.result = task.result

/-- What a step should leave. -/
structure Lifecycle (s s' : MeshScheduler ρ) : Prop where
  consistent : Consistent s'
  bounded : s'.completed + s'.failed ≤ s'.totalSubmitted
  keepsFinal : KeepsFinal s s'

/-- No task is assigned, completed or failed once it is finished, and none is failed while queued. -/
def Timely (s : MeshScheduler ρ) : SchedulerCall ρ → Prop
  | .assign taskId _ _ => ∀ task, s.tasks.get? taskId = some task → ¬ task.status.Final
  | .complete taskId _ _ => ∀ task, s.tasks.get? taskId = some task → ¬ task.status.Final
  | .fail taskId _ _ => ∀ task, s.tasks.get? taskId = some task →
      ¬ task.status.Final ∧ task.status ≠ .queued
  | _ => True

/-! ### Changing one task -/

theorem KeepsFinal.refl (s : MeshScheduler ρ) : KeepsFinal s s := fun _ task h _ => ⟨task, h, rfl, rfl⟩

theorem KeepsFinal.trans {s₁ s₂ s₃ : MeshScheduler ρ} (h : KeepsFinal s₁ s₂) (h' : KeepsFinal s₂ s₃) :
    KeepsFinal s₁ s₃ := by
  intro id task hget hfinal
  obtain ⟨task', hget', hstatus, hresult⟩ := h id task hget hfinal
  obtain ⟨task'', hget'', hstatus', hresult'⟩ := h' id task' hget' (by rw [hstatus]; exact hfinal)
  exact ⟨task'', hget'', hstatus'.trans hstatus, hresult'.trans hresult⟩

variable {id : JsString} {task : ScheduledTask ρ}

/-- A change of a task that is not finished, or that keeps its status and result. -/
theorem keepsFinal_of_set {s s' : MeshScheduler ρ} (hset : s'.tasks = s.tasks.set id task)
    (h : ∀ old, s.tasks.get? id = some old → ¬ old.status.Final) : KeepsFinal s s' := by
  intro id' old hget hfinal
  rw [hset, JsMap.get?_set]
  split_ifs with hid
  · rw [hid] at hget
    exact absurd hfinal (h old hget)
  · exact ⟨old, hget, rfl, rfl⟩

theorem Consistent.bounded {s : MeshScheduler ρ} (h : Consistent s) :
    s.completed + s.failed ≤ s.totalSubmitted := by
  have hdisjoint : ∀ l : List (JsString × ScheduledTask ρ),
      l.countP (fun e => decide (e.2.status = .completed)) +
        l.countP (fun e => decide (e.2.status = .failed)) ≤ l.length := by
    intro l
    induction l with
    | nil => simp
    | cons e l ih =>
        rw [List.countP_cons, List.countP_cons, List.length_cons]
        by_cases hcompleted : e.2.status = .completed
        · simp only [hcompleted, decide_true, if_true]
          simp only [reduceCtorEq, decide_false, Bool.false_eq_true, if_false]
          omega
        · simp only [hcompleted, decide_false, Bool.false_eq_true, if_false]
          split_ifs <;> omega
  rw [h.completed, h.failed, h.submitted]
  exact hdisjoint s.tasks.entries

variable {old : ScheduledTask ρ}

theorem countStatus_of_set {s s' : MeshScheduler ρ}
    (hset : s'.tasks = s.tasks.set id task) (hget : s.tasks.get? id = some old) (status : TaskStatus) :
    s'.countStatus status + (if old.status = status then 1 else 0) =
      s.countStatus status + (if task.status = status then 1 else 0) := by
  unfold countStatus
  rw [hset, (JsMap.set_entries_perm s.tasks id task).countP_eq,
    (JsMap.entries_perm_of_get? hget).countP_eq, List.countP_cons, List.countP_cons]
  simp only [decide_eq_true_eq]
  omega

theorem countStatus_eq_of_set {s s' : MeshScheduler ρ}
    (hset : s'.tasks = s.tasks.set id task) (hget : s.tasks.get? id = some old)
    (hsame : task.status = old.status) (status : TaskStatus) :
    s'.countStatus status = s.countStatus status := by
  have hcount := countStatus_of_set hset hget status
  rw [hsame] at hcount
  omega

theorem size_of_set {s s' : MeshScheduler ρ}
    (hset : s'.tasks = s.tasks.set id task) (hget : s.tasks.get? id = some old) :
    s'.tasks.size = s.tasks.size := by
  unfold JsMap.size
  rw [hset, (JsMap.set_entries_perm s.tasks id task).length_eq,
    (JsMap.entries_perm_of_get? hget).length_eq, List.length_cons, List.length_cons]

/-- The change of one task, with what it does to the queue and the counters. -/
theorem Consistent.of_set {s s' : MeshScheduler ρ} (h : Consistent s) (hset : s'.tasks = s.tasks.set id task)
    (hget : s.tasks.get? id = some old) (hqueue : s'.queue.count id = if task.status = .queued then 1 else 0)
    (hothers : ∀ i, i ≠ id → s'.queue.count i = s.queue.count i)
    (hcompleted : s'.completed + (if old.status = .completed then 1 else 0) =
      s.completed + (if task.status = .completed then 1 else 0))
    (hfailed : s'.failed + (if old.status = .failed then 1 else 0) =
      s.failed + (if task.status = .failed then 1 else 0))
    (hsubmitted : s'.totalSubmitted = s.totalSubmitted) : Consistent s' := by
  constructor
  · intro i t hi
    rw [hset, JsMap.get?_set] at hi
    split_ifs at hi with hid
    · obtain rfl := Option.some.inj hi
      rw [hid, hqueue]
    · rw [hothers i hid]
      exact h.queued i t hi
  · intro i hi
    rw [hset, JsMap.get?_set]
    split_ifs with hid
    · simp
    · refine h.known i (List.count_pos_iff.mp ?_)
      rw [← hothers i hid]
      exact List.count_pos_iff.mpr hi
  · have hcount := countStatus_of_set hset hget .completed
    have := h.completed
    omega
  · have hcount := countStatus_of_set hset hget .failed
    have := h.failed
    omega
  · rw [hsubmitted, h.submitted, size_of_set hset hget]

theorem count_enqueue (s : MeshScheduler ρ) (id i : JsString) :
    (s.enqueue id).queue.count i = s.queue.count i + if id = i then 1 else 0 := by
  rw [enqueue, (List.mergeSort_perm _ _).count_eq, List.count_append, List.count_singleton]
  simp

/-- Taking the task out of the queue: its entry is gone, the others are not touched. -/
theorem Consistent.count_erase {s : MeshScheduler ρ} (h : Consistent s)
    (hget : s.tasks.get? id = some task) : (s.queue.erase id).count id = 0 := by
  rw [List.count_erase_self, h.queued id task hget]
  split_ifs <;> rfl

/-! ### One lemma for each operation -/

section operations
variable {s s' : MeshScheduler ρ} {taskId : JsString}

theorem submit_spec (h : Consistent s) {task : ScheduledTask ρ} (hs : s.submit task = .ok s') :
    Consistent s' ∧ KeepsFinal s s' := by
  rw [submit] at hs
  split_ifs at hs with hhas
  obtain rfl := Except.ok.inj hs
  have hfresh : s.tasks.get? task.id = none := by
    simpa [JsMap.has] using hhas
  have hentries := JsMap.set_entries_perm s.tasks task.id task.markQueued
  rw [JsMap.delete_eq_self hfresh] at hentries
  have hcount : (s.queue).count task.id = 0 :=
    List.count_eq_zero.mpr fun hmem => h.known _ hmem hfresh
  constructor
  · constructor
    · intro i t hi
      rw [count_enqueue]
      simp only [enqueue, put, JsMap.get?_set] at hi ⊢
      split_ifs at hi with hid
      · obtain rfl := Option.some.inj hi
        simp [hid, hcount]
      · rw [if_neg (Ne.symm hid), Nat.add_zero]
        exact h.queued i t hi
    · intro i hi
      simp only [enqueue, put] at hi ⊢
      rw [JsMap.get?_set]
      split_ifs with hid
      · simp
      · rcases List.mem_append.mp ((List.mergeSort_perm _ _).mem_iff.mp hi) with hi | hi
        · exact h.known i hi
        · exact absurd (List.mem_singleton.mp hi) hid
    · simp only [countStatus, enqueue, put, hentries.countP_eq, List.countP_cons]
      simpa [countStatus] using h.completed
    · simp only [countStatus, enqueue, put, hentries.countP_eq, List.countP_cons]
      simpa [countStatus] using h.failed
    · simp only [enqueue, put, JsMap.size, hentries.length_eq, List.length_cons]
      rw [h.submitted]
      rfl
  · intro i t hi _
    refine ⟨t, ?_, rfl, rfl⟩
    simp only [enqueue, put, JsMap.get?_set]
    split_ifs with hid
    · rw [hid, hfresh] at hi
      cases hi
    · exact hi

theorem cancel_spec (h : Consistent s) (now : JsNumber) :
    Consistent (s.cancel taskId now).1 ∧ KeepsFinal s (s.cancel taskId now).1 := by
  unfold cancel
  split
  · exact ⟨h, KeepsFinal.refl s⟩
  · rename_i task hget
    split_ifs with hfinal
    · exact ⟨h, KeepsFinal.refl s⟩
    · obtain ⟨hcompleted, hfailed⟩ := TaskStatus.ne_of_not_final hfinal
      constructor
      · refine h.of_set rfl hget (h.count_erase hget) (fun i hi => List.count_erase_of_ne hi) ?_ ?_ rfl
        · simp [put, dequeueId, hcompleted]
        · simp [put, dequeueId, hfailed]
      · refine keepsFinal_of_set rfl fun old hold => ?_
        rw [hget] at hold
        obtain rfl := Option.some.inj hold
        exact hfinal

variable {now : JsNumber}

theorem assign_eq_ok {podId : JsString} :
    s.assign taskId podId now = .ok s' ↔ ∃ task, s.tasks.get? taskId = some task ∧
      (s.put taskId (task.markAssigned podId now)).dequeueId taskId = s' := by
  simp only [assign, bind_eq_ok, required_eq_ok, pure_eq_ok]

/-- A finished task whose status is no longer the same has not been kept. -/
theorem not_keepsFinal {id : JsString} {old task : ScheduledTask ρ} (hget : s.tasks.get? id = some old)
    (hset : s'.tasks = s.tasks.set id task) (hfinal : old.status.Final) (hne : task.status ≠ old.status) :
    ¬ KeepsFinal s s' := by
  intro h
  obtain ⟨after, hafter, hstatus, -⟩ := h id old hget hfinal
  rw [hset, JsMap.get?_set, if_pos rfl] at hafter
  obtain rfl := Option.some.inj hafter
  exact hne hstatus

theorem assign_spec {podId : JsString} (h : Consistent s) (hs : s.assign taskId podId now = .ok s') :
    Lifecycle s s' ↔ ∀ task, s.tasks.get? taskId = some task → ¬ task.status.Final := by
  obtain ⟨task, hget, rfl⟩ := assign_eq_ok.mp hs
  constructor
  · intro hl task' hget' hfinal
    refine not_keepsFinal hget' rfl hfinal (fun heq => ?_) hl.keepsFinal
    rw [← heq] at hfinal
    rcases hfinal with hfinal | hfinal | hfinal <;> cases hfinal
  · intro htimely
    obtain ⟨hcompleted, hfailed⟩ := TaskStatus.ne_of_not_final (htimely task hget)
    have hc : Consistent ((s.put taskId (task.markAssigned podId now)).dequeueId taskId) := by
      refine h.of_set rfl hget (h.count_erase hget) (fun i hi => List.count_erase_of_ne hi) ?_ ?_ rfl
      · simp [put, dequeueId, hcompleted]
      · simp [put, dequeueId, hfailed]
    exact ⟨hc, hc.bounded, keepsFinal_of_set rfl htimely⟩

theorem complete_spec {result : ρ} (h : Consistent s) (hs : s.complete taskId result now = .ok s') :
    Lifecycle s s' ↔ ∀ task, s.tasks.get? taskId = some task → ¬ task.status.Final := by
  simp only [complete, bind_eq_ok, required_eq_ok, pure_eq_ok] at hs
  obtain ⟨task, hget, rfl⟩ := hs
  constructor
  · intro hl task' hget' hfinal
    obtain rfl := Option.some.inj (hget.symm.trans hget')
    by_cases hcompleted : task.status = .completed
    · -- completed again: it is counted twice
      have hafter := hl.consistent.completed.trans (countStatus_eq_of_set rfl hget (by simp [hcompleted]) _)
      exact absurd (h.completed.trans hafter.symm) (Nat.succ_ne_self _).symm
    · exact not_keepsFinal hget rfl hfinal (fun heq => hcompleted heq.symm) hl.keepsFinal
  · intro htimely
    obtain ⟨hcompleted, hfailed⟩ := TaskStatus.ne_of_not_final (htimely task hget)
    suffices hc : Consistent _ from ⟨hc, hc.bounded, keepsFinal_of_set rfl htimely⟩
    refine h.of_set rfl hget (h.count_erase hget) (fun i hi => List.count_erase_of_ne hi) ?_ ?_ rfl
    · simp [put, dequeueId, hcompleted]
    · simp [put, dequeueId, hfailed]

/-- The two ends of `fail`: the task goes back into the queue, or it has failed for good. -/
theorem fail_cases {error : JsString} (hs : s.fail taskId error now = .ok s') :
    ∃ task, s.tasks.get? taskId = some task ∧
      (s' = (s.put taskId task.countRetry.markRequeued).enqueue taskId ∨
        s' = { s.put taskId (task.countRetry.markFailed error now) with failed := s.failed + 1 }) := by
  simp only [fail, bind_eq_ok, required_eq_ok] at hs
  obtain ⟨task, hget, hs⟩ := hs
  refine ⟨task, hget, ?_⟩
  split_ifs at hs with hretry
  · exact Or.inl (pure_eq_ok.mp hs).symm
  · exact Or.inr (pure_eq_ok.mp hs).symm

theorem fail_spec {error : JsString} (h : Consistent s) (hs : s.fail taskId error now = .ok s') :
    Lifecycle s s' ↔ ∀ task, s.tasks.get? taskId = some task →
      ¬ task.status.Final ∧ task.status ≠ .queued := by
  obtain ⟨task, hget, hs'⟩ := fail_cases hs
  constructor
  · intro hl task' hget'
    obtain rfl := Option.some.inj (hget.symm.trans hget')
    rcases hs' with rfl | rfl
    · constructor
      · intro hfinal
        refine not_keepsFinal hget rfl hfinal (fun heq => ?_) hl.keepsFinal
        rw [← heq] at hfinal
        rcases hfinal with hfinal | hfinal | hfinal <;> cases hfinal
      · -- queued again: it stands in the queue twice
        intro hqueued
        have hafter := hl.consistent.queued taskId task.countRetry.markRequeued
          (by simp [enqueue, put])
        have hbefore := h.queued taskId task hget
        rw [count_enqueue] at hafter
        simp only [put, hqueued, ScheduledTask.markRequeued_status, if_true] at hafter hbefore
        omega
    · constructor
      · intro hfinal
        by_cases hfailed : task.status = .failed
        · have hafter := hl.consistent.failed.trans (countStatus_eq_of_set rfl hget (by simp [hfailed]) _)
          exact absurd (h.failed.trans hafter.symm) (Nat.succ_ne_self _).symm
        · exact not_keepsFinal hget rfl hfinal (fun heq => hfailed heq.symm) hl.keepsFinal
      · -- failed for good, but still in the queue
        intro hqueued
        have hafter := hl.consistent.queued taskId (task.countRetry.markFailed error now) (by simp [put])
        have hbefore := h.queued taskId task hget
        simp only [put, hqueued, ScheduledTask.markFailed_status, if_true, reduceCtorEq, if_false]
          at hafter hbefore
        omega
  · intro htimely
    obtain ⟨hnot, hqueued⟩ := htimely task hget
    obtain ⟨hcompleted, hfailed⟩ := TaskStatus.ne_of_not_final hnot
    have hcount := h.queued taskId task hget
    rw [if_neg hqueued] at hcount
    have hc : Consistent s' := by
      rcases hs' with rfl | rfl
      · refine h.of_set rfl hget ?_ (fun i hi => ?_) ?_ ?_ rfl
        · rw [count_enqueue]
          simpa [put] using hcount
        · rw [count_enqueue, if_neg (Ne.symm hi)]
          rfl
        · simp [enqueue, put, hcompleted]
        · simp [enqueue, put, hfailed]
      · refine h.of_set rfl hget ?_ (fun i hi => rfl) ?_ ?_ rfl
        · simpa [put] using hcount
        · simp [put, hcompleted]
        · simp [hfailed]
    have hkeeps : KeepsFinal s s' := by
      rcases hs' with rfl | rfl
      · exact keepsFinal_of_set rfl fun old hold => (htimely old hold).1
      · exact keepsFinal_of_set rfl fun old hold => (htimely old hold).1
    exact ⟨hc, hc.bounded, hkeeps⟩

end operations

/-- The loop of `schedule` assigns tasks that are queued. -/
theorem scheduleLoop_spec (now : ℕ → JsNumber) (ids : List JsString) (s : MeshScheduler ρ) (assigned : ℕ)
    (h : Consistent s) (hnodup : ids.Nodup)
    (hqueued : ∀ id ∈ ids, ∀ task, s.tasks.get? id = some task → task.status = .queued) :
    Consistent (scheduleLoop now ids s assigned).1 ∧ KeepsFinal s (scheduleLoop now ids s assigned).1 := by
  induction ids generalizing s assigned with
  | nil => exact ⟨h, KeepsFinal.refl s⟩
  | cons id ids ih =>
      obtain ⟨hnot, hnodup⟩ := List.nodup_cons.mp hnodup
      have hrest := fun id' hid' => hqueued id' (List.mem_cons_of_mem id hid')
      rw [scheduleLoop]
      split_ifs
      · exact ⟨h, KeepsFinal.refl s⟩
      · split
        · exact ih s assigned h hnodup hrest
        · rename_i podId rrIndex _
          have h' : Consistent { s with rrIndex } := ⟨h.queued, h.known, h.completed, h.failed, h.submitted⟩
          cases hassign : assign { s with rrIndex } id podId (now assigned) with
          | error e => exact ⟨h, KeepsFinal.refl s⟩
          | ok s' =>
              obtain ⟨task, hget, hs'⟩ := assign_eq_ok.mp hassign
              have hnow : Lifecycle { s with rrIndex } s' := by
                refine (assign_spec h' hassign).mpr fun task htask hfinal => ?_
                rw [hqueued id List.mem_cons_self task htask] at hfinal
                rcases hfinal with hfinal | hfinal | hfinal <;> cases hfinal
              have hstill : ∀ id' ∈ ids, ∀ task, s'.tasks.get? id' = some task → task.status = .queued := by
                intro id' hid' task' hget'
                have hne : id' ≠ id := by
                  rintro rfl
                  exact hnot hid'
                rw [← hs'] at hget'
                simp only [put, dequeueId, JsMap.get?_set, if_neg hne] at hget'
                exact hrest id' hid' task' hget'
              obtain ⟨hc, hk⟩ := ih s' (assigned + 1) hnow.consistent hnodup hstill
              exact ⟨hc, (show KeepsFinal s s' from hnow.keepsFinal).trans hk⟩

theorem schedule_spec {s : MeshScheduler ρ} (h : Consistent s) (now : ℕ → JsNumber) :
    Consistent (s.schedule now).1 ∧ KeepsFinal s (s.schedule now).1 := by
  unfold schedule
  split_ifs
  · exact ⟨h, KeepsFinal.refl s⟩
  · refine scheduleLoop_spec now _ s 0 h (List.Nodup.filter _ ?_) ?_
    · refine List.nodup_iff_count_le_one.mpr fun id => ?_
      by_cases hid : id ∈ s.queue
      · obtain ⟨task, hget⟩ := Option.ne_none_iff_exists'.mp (h.known id hid)
        rw [h.queued id task hget]
        split_ifs <;> simp
      · rw [List.count_eq_zero.mpr hid]
        exact Nat.zero_le 1
    · intro id hid task hget
      have hq := (List.mem_filter.mp hid).2
      simpa [hget] using hq

/-! ### Whole runs -/

/-- From a consistent scheduler, a call leaves what it should exactly when it comes in time. -/
theorem call_iff {s : MeshScheduler ρ} (h : Consistent s) (c : SchedulerCall ρ) :
    Lifecycle s (s.call c) ↔ s.Timely c := by
  have hkept : Lifecycle s s := ⟨h, h.bounded, KeepsFinal.refl s⟩
  have hof : ∀ {s'}, Consistent s' ∧ KeepsFinal s s' → Lifecycle s s' := fun hs =>
    ⟨hs.1, hs.1.bounded, hs.2⟩
  cases c with
  | submit task =>
      refine iff_of_true ?_ trivial
      cases hs : s.submit task with
      | ok s' =>
          simp only [call, hs, orElse]
          exact hof (submit_spec h hs)
      | error e => simpa only [call, hs, orElse] using hkept
  | cancel taskId now => exact iff_of_true (hof (cancel_spec h now)) trivial
  | assign taskId podId now =>
      cases hs : s.assign taskId podId now with
      | ok s' =>
          simp only [call, hs, orElse]
          exact assign_spec h hs
      | error e =>
          simp only [call, hs, orElse]
          refine iff_of_true hkept fun task hget => ?_
          rw [assign_eq_ok.mpr ⟨task, hget, rfl⟩] at hs
          cases hs
  | complete taskId result now =>
      cases hs : s.complete taskId result now with
      | ok s' =>
          simp only [call, hs, orElse]
          exact complete_spec h hs
      | error e =>
          simp only [call, hs, orElse]
          refine iff_of_true hkept fun task hget => ?_
          simp [complete, hget, required, bind, Except.bind, pure, Except.pure] at hs
  | fail taskId error now =>
      cases hs : s.fail taskId error now with
      | ok s' =>
          simp only [call, hs, orElse]
          exact fail_spec h hs
      | error e =>
          simp only [call, hs, orElse]
          refine iff_of_true hkept fun task hget => ?_
          simp only [fail, hget, required, bind, Except.bind, pure, Except.pure] at hs
          split_ifs at hs
  | schedule now => exact iff_of_true (hof (schedule_spec h now)) trivial
  | registerNode podId resources =>
      exact iff_of_true ⟨⟨h.queued, h.known, h.completed, h.failed, h.submitted⟩, h.bounded,
        KeepsFinal.refl s⟩ trivial
  | unregisterNode podId =>
      exact iff_of_true ⟨⟨h.queued, h.known, h.completed, h.failed, h.submitted⟩, h.bounded,
        KeepsFinal.refl s⟩ trivial

/-- Every step of a run leaves what it should if and only if every call of the run comes in time. -/
theorem lifecycle_iff (maxConcurrent : JsNumber) (schedulingPolicy : SchedulingPolicy)
    (calls : List (SchedulerCall ρ)) :
    (machine maxConcurrent schedulingPolicy).Along (fun s c => Lifecycle s (s.call c))
        (new maxConcurrent schedulingPolicy) calls ↔
      (machine maxConcurrent schedulingPolicy).Along Timely (new maxConcurrent schedulingPolicy) calls := by
  refine Machine.along_iff_of_invariant (I := Consistent) ?_ ?_ calls
  · intro s c s' h hstep
    obtain rfl := Option.some.inj hstep
    exact ⟨call_iff h c, fun htimely => ((call_iff h c).mpr htimely).consistent⟩
  · exact ⟨fun id task hget => (by cases hget), fun id hid => (by cases hid), rfl, rfl, rfl⟩

/-- A task that has been handed to a worker, and is cancelled. -/
def cancelledTask : List (SchedulerCall Unit) :=
  [.submit { id := js "t" }, .assign (js "t") (js "pod") 0, .cancel (js "t") 0]

/-- The worker's late report turns a cancelled task into a completed one. -/
theorem late_report_completes_cancelled :
    ¬ ∀ (maxConcurrent : JsNumber) (schedulingPolicy : SchedulingPolicy) (calls : List (SchedulerCall Unit)),
      (machine maxConcurrent schedulingPolicy).Along (fun s c => Lifecycle s (s.call c))
        (new maxConcurrent schedulingPolicy) calls := by
  intro h
  have hall := h 0 .bestFit (cancelledTask ++ [.complete (js "t") () 0])
  have hrun := (rfl : (machine 0 .bestFit).run (fun _ _ => True) (new 0 .bestFit) cancelledTask = some _)
  obtain ⟨task, hget, hstatus, -⟩ := (hall.last hrun rfl).keepsFinal (js "t") _ rfl (by decide)
  obtain rfl := Option.some.inj hget
  cases hstatus

end MeshScheduler
end BrowserMesh.Apps
