import BrowserMesh.Apps.Scheduler
import BrowserMesh.Js.Arithmetic
import BrowserMesh.Js.Midpoint
import BrowserMesh.Js.Sorting

/-! # Where the scheduler places tasks

* **Serialization.**  `toJSON` writes a node as `{ podId, ...res }`, and `fromJSON` takes the pod id out again: the descriptor
  no longer names its pod.
* **The queue.**  It holds every queued task, sorted by priority, deadline and time of submission (`Listed`, `Waiting`).
* **The cycle.**  `schedule` goes through a first part of the queued tasks and stops at its end or at the limit
  (`scheduleLoop_split`).
* **Placement.**  A node is matched by the pod id in its descriptor, but registered under another argument.  Tasks are placed
  as they should as long as the two agree where a task asks (`placement_sound`). -/

namespace BrowserMesh.Apps
open Js Transition

namespace MeshScheduler
variable {ρ : Type}

/-! ### Serialization -/

/-- What `toJSON` writes; a node as the pod id and the other members of its object. -/
structure SchedulerData (ρ : Type) where
  maxConcurrent : JsNumber
  schedulingPolicy : SchedulingPolicy
  tasks : List (ScheduledTask ρ)
  nodes : List (JsString × ResourceDescriptor)
  totalSubmitted : ℕ
  completed : ℕ
  failed : ℕ
  totalWaitMs : JsNumber
  totalRunMs : JsNumber

/-- `{ podId, ...res }`, and `const { podId, ...rest } = node`. -/
def nodeData (n : JsString × ResourceDescriptor) : JsString × ResourceDescriptor :=
  (n.2.podId.getD n.1, { n.2 with podId := none })

def toJSON (s : MeshScheduler ρ) : SchedulerData ρ where
  maxConcurrent := s.maxConcurrent
  schedulingPolicy := s.schedulingPolicy
  tasks := s.tasks.values
  nodes := s.nodes.entries.map nodeData
  totalSubmitted := s.totalSubmitted
  completed := s.completed
  failed := s.failed
  totalWaitMs := s.totalWaitMs
  totalRunMs := s.totalRunMs

/-- A task of the data: it is held, and waits in the queue if it is queued or pending. -/
def restoreTask (s : MeshScheduler ρ) (task : ScheduledTask ρ) : MeshScheduler ρ :=
  if task.status = .queued ∨ task.status = .pending then (s.put task.id task).enqueue task.id
  else s.put task.id task

def fromJSON (data : SchedulerData ρ) : MeshScheduler ρ :=
  data.tasks.foldl restoreTask { new data.maxConcurrent data.schedulingPolicy with
    nodes := JsMap.ofEntries data.nodes
    totalSubmitted := data.totalSubmitted
    completed := data.completed
    failed := data.failed
    totalWaitMs := data.totalWaitMs
    totalRunMs := data.totalRunMs }

/-- What is done with a scheduler. -/
inductive SchedulerStep (ρ : Type) where
  | call (c : SchedulerCall ρ)
  /-- `MeshScheduler.fromJSON(scheduler.toJSON())` takes its place. -/
  | restore

def take (s : MeshScheduler ρ) : SchedulerStep ρ → MeshScheduler ρ
  | .call c => s.call c
  | .restore => fromJSON s.toJSON

/-- The runs of a scheduler that is saved and restored. -/
def savedMachine (maxConcurrent : JsNumber) (schedulingPolicy : SchedulingPolicy) :
    Machine (MeshScheduler ρ) (SchedulerStep ρ) :=
  ⟨new maxConcurrent schedulingPolicy, fun s a => some (s.take a)⟩

/-! ### What is asked of a placement -/

/-- The pod, with these resources, has what the constraints ask. -/
structure Qualifies (c : TaskConstraints) (pod : JsString) (res : ResourceDescriptor) : Prop where
  capabilities : ∀ cap ∈ c.requiredCaps, cap ∈ res.capabilities.getD []
  memory : JsNumber.lt 0 c.minMemoryMb = true → c.minMemoryMb.le (res.memory.getD 0) = true
  cpu : JsNumber.lt 0 c.minCpuCores = true → c.minCpuCores.le (res.cpu.getD 0) = true
  affinity : c.affinityPodIds ≠ [] → pod ∈ c.affinityPodIds
  antiAffinity : pod ∉ c.antiAffinityPodIds

/-- Priority, deadline and time of submission: what is less comes first. -/
def rank (task : ScheduledTask ρ) : JsNumberᵒᵈ ×ₗ JsNumber ×ₗ JsNumber :=
  toLex (OrderDual.toDual task.priority.weight, toLex (task.deadline.getD .posInf, task.submittedAt))

def Full (s : MeshScheduler ρ) : Prop := s.maxConcurrent.le (.ofNat s.getRunningCount) = true

instance (s : MeshScheduler ρ) : Decidable s.Full := inferInstanceAs (Decidable (_ = true))

def Unplaceable (s : MeshScheduler ρ) (task : ScheduledTask ρ) : Prop :=
  ∀ pod res, s.nodes.get? pod = some res → ¬ Qualifies (.new task.constraints) pod res

/-- What a cycle of the scheduler leaves. -/
structure Placed (s s' : MeshScheduler ρ) : Prop where
  /-- A task is left as it is, or it was queued and is assigned to a registered node that qualifies. -/
  sound : ∀ id task, s.tasks.get? id = some task → s'.tasks.get? id = some task ∨
    task.status = .queued ∧ ∃ pod res now, s'.tasks.get? id = some (task.markAssigned pod now) ∧
      s.nodes.get? pod = some res ∧ Qualifies (.new task.constraints) pod res
  /-- A task is assigned only after the queued tasks that come before it. -/
  inOrder : ∀ a b t u, s.tasks.get? a = some t → s.tasks.get? b = some u → t.status = .queued → u.status = .queued →
    rank t < rank u → s'.tasks.get? b ≠ some u → s'.tasks.get? a = some t → s.Unplaceable t
  limited : s'.getRunningCount = s.getRunningCount ∨ (JsNumber.ofNat s'.getRunningCount).le s.maxConcurrent = true
  busy : ∀ id task, s.tasks.get? id = some task → task.status = .queued → s'.tasks.get? id = some task →
    s.Unplaceable task ∨ s.maxConcurrent.le (.ofNat s'.getRunningCount) = true

/-! ### The conditions -/

def WholeLimit (maxConcurrent : JsNumber) : Prop :=
  maxConcurrent = .posInf ∨ maxConcurrent.le 0 = true ∨ ∃ n : ℕ, maxConcurrent = .ofNat n

def unlisted (c : TaskConstraints) : TaskConstraints := { c with affinityPodIds := [], antiAffinityPodIds := [] }

/-- The descriptor tells what the constraints ask: numbers where numbers are asked for, and the pod under which it is
registered, unless the constraints do not list that pod. -/
structure Told (c : TaskConstraints) (pod : JsString) (res : ResourceDescriptor) : Prop where
  memory : JsNumber.lt 0 c.minMemoryMb = true → res.memory ≠ some .nan
  cpu : JsNumber.lt 0 c.minCpuCores = true → res.cpu ≠ some .nan
  named : res.podId = none ∨ res.podId = some pod
  listed : pod ∈ c.affinityPodIds ∨ pod ∈ c.antiAffinityPodIds → res.podId ≠ none ∧ pod ≠ []

/-- The nodes that may do for the task tell what it asks. -/
def TellsTask (s : MeshScheduler ρ) (task : ScheduledTask ρ) : Prop :=
  ∀ pod res, s.nodes.get? pod = some res →
    (unlisted (.new task.constraints)).matches res = true → Told (.new task.constraints) pod res

def Timed (task : ScheduledTask ρ) : Prop := task.deadline ≠ some .nan ∧ task.submittedAt ≠ .nan

/-- Tasks have times; when the scheduler places tasks, the nodes that may do tell what the queued tasks ask. -/
def Clear (s : MeshScheduler ρ) : SchedulerStep ρ → Prop
  | .call (.submit task) => Timed task
  | .call (.schedule _) => ∀ id task, s.tasks.get? id = some task → task.status = .queued → s.TellsTask task
  | _ => True

/-! ### Matching -/

section matching
variable {c : TaskConstraints} {pod : JsString} {res : ResourceDescriptor}

theorem unlisted_matches_iff : (unlisted c).matches res = true ↔
    (∀ cap ∈ c.requiredCaps, cap ∈ res.capabilities.getD []) ∧
      (JsNumber.lt 0 c.minMemoryMb = true → (res.memory.getD 0).lt c.minMemoryMb = false) ∧
      (JsNumber.lt 0 c.minCpuCores = true → (res.cpu.getD 0).lt c.minCpuCores = false) := by
  simp [unlisted, TaskConstraints.matches, and_assoc, or_iff_not_imp_left]

theorem matches_eq : c.matches res = ((unlisted c).matches res &&
    (c.affinityPodIds.isEmpty || res.podId.any fun p => p ≠ [] && c.affinityPodIds.contains p) &&
    (c.antiAffinityPodIds.isEmpty || !res.podId.any fun p => p ≠ [] && c.antiAffinityPodIds.contains p)) := by
  simp [unlisted, TaskConstraints.matches]

theorem le_of_lt_eq_false {a b : JsNumber} (ha : a ≠ .nan) (hb : b ≠ .nan) (h : b.lt a = false) : a.le b = true := by
  rw [JsNumber.le, decide_eq_true_iff]
  refine ⟨ha, hb, not_lt.mp fun hlt => ?_⟩
  rw [(JsNumber.lt_iff hb ha).mpr hlt] at h
  cases h

theorem ne_nan_of_lt {a b : JsNumber} (h : a.lt b = true) : b ≠ .nan := by
  rw [JsNumber.lt, decide_eq_true_iff] at h
  exact h.2.1

theorem getD_ne_nan {o : Option JsNumber} (h : o ≠ some .nan) : o.getD 0 ≠ .nan := by
  cases o with
  | none => decide
  | some n => exact fun hn => h (congrArg some hn)

theorem listed_iff {pods : List JsString} (hnamed : res.podId = none ∨ res.podId = some pod)
    (hlisted : pod ∈ pods → res.podId ≠ none ∧ pod ≠ []) :
    (res.podId.any fun p => p ≠ [] && pods.contains p) = true ↔ pod ∈ pods := by
  simp only [Option.any_eq_true, Bool.and_eq_true, decide_eq_true_eq, List.contains_iff_mem]
  constructor
  · rintro ⟨p, hp, -, hmem⟩
    rcases hnamed with hnone | hsome
    · rw [hnone] at hp
      cases hp
    · obtain rfl := Option.some.inj (hsome.symm.trans hp)
      exact hmem
  · intro hmem
    obtain ⟨hsome, hne⟩ := hlisted hmem
    exact ⟨pod, hnamed.resolve_left hsome, hne, hmem⟩

theorem matches_iff (h : (unlisted c).matches res = true → Told c pod res) :
    c.matches res = true ↔ Qualifies c pod res := by
  have hsplit : c.matches res = true ↔ (unlisted c).matches res = true ∧
      (c.affinityPodIds ≠ [] → pod ∈ c.affinityPodIds) ∧ pod ∉ c.antiAffinityPodIds := by
    rw [matches_eq, Bool.and_eq_true, Bool.and_eq_true, and_assoc]
    refine and_congr_right fun hfits => and_congr ?_ ?_
    · rw [← listed_iff (h hfits).named fun hmem => (h hfits).listed (Or.inl hmem), Bool.or_eq_true,
        List.isEmpty_iff, or_iff_not_imp_left]
    · rw [← listed_iff (h hfits).named fun hmem => (h hfits).listed (Or.inr hmem), Bool.or_eq_true,
        List.isEmpty_iff, Bool.not_eq_true']
      constructor
      · rintro (hnil | hnot)
        · simp [hnil]
        · exact Bool.eq_false_iff.mp hnot
      · exact fun hnot => Or.inr (Bool.eq_false_iff.mpr hnot)
  rw [hsplit]
  constructor
  · rintro ⟨hfits, haffinity, hanti⟩
    obtain ⟨hcaps, hmem, hcpu⟩ := unlisted_matches_iff.mp hfits
    exact ⟨hcaps,
      fun hmin => le_of_lt_eq_false (ne_nan_of_lt hmin) (getD_ne_nan ((h hfits).memory hmin)) (hmem hmin),
      fun hmin => le_of_lt_eq_false (ne_nan_of_lt hmin) (getD_ne_nan ((h hfits).cpu hmin)) (hcpu hmin), haffinity, hanti⟩
  · intro hq
    exact ⟨unlisted_matches_iff.mpr ⟨hq.capabilities, fun hmin => JsNumber.lt_eq_false_of_le (hq.memory hmin),
      fun hmin => JsNumber.lt_eq_false_of_le (hq.cpu hmin)⟩, hq.affinity, hq.antiAffinity⟩

end matching

/-! ### Choosing a node -/

theorem pick_mem (better : JsNumber → JsNumber → Bool) (value : ResourceDescriptor → JsNumber) (start : JsNumber)
    (first : JsString) (nodes : List (JsString × ResourceDescriptor)) :
    pick better value start first nodes = first ∨ ∃ n ∈ nodes, n.1 = pick better value start first nodes := by
  unfold pick
  induction nodes generalizing start first with
  | nil => exact Or.inl rfl
  | cons n nodes ih =>
      rw [List.foldl_cons]
      split_ifs
      · rcases ih (value n.2) n.1 with h | ⟨n', hn', h⟩
        · exact Or.inr ⟨n, List.mem_cons_self, h.symm⟩
        · exact Or.inr ⟨n', List.mem_cons_of_mem _ hn', h⟩
      · rcases ih start first with h | ⟨n', hn', h⟩
        · exact Or.inl h
        · exact Or.inr ⟨n', List.mem_cons_of_mem _ hn', h⟩

theorem selectPod_cases (s : MeshScheduler ρ) (c : TaskConstraints) :
    (s.matchingNodes c = [] ∧ s.selectPod c = none) ∨
      ∃ n ∈ s.matchingNodes c, ∃ rrIndex, s.selectPod c = some (n.1, rrIndex) := by
  rw [selectPod]
  cases hnodes : s.matchingNodes c with
  | nil => exact Or.inl ⟨rfl, rfl⟩
  | cons first rest =>
      refine Or.inr ?_
      dsimp only
      have hpick : ∀ better value start, ∃ n ∈ first :: rest, n.1 = pick better value start first.1 (first :: rest) := by
        intro better value start
        rcases pick_mem better value start first.1 (first :: rest) with h | ⟨n, hn, h⟩
        · exact ⟨first, List.mem_cons_self, h.symm⟩
        · exact ⟨n, hn, h⟩
      cases s.schedulingPolicy with
      | firstFit => exact ⟨first, List.mem_cons_self, _, rfl⟩
      | roundRobin =>
          have hlt : s.rrIndex % (first :: rest).length < (first :: rest).length :=
            Nat.mod_lt _ (Nat.zero_lt_succ _)
          rw [List.getD_eq_getElem _ _ hlt]
          exact ⟨_, List.getElem_mem hlt, _, rfl⟩
      | loadBalanced =>
          obtain ⟨n, hn, h⟩ := hpick (fun a b => a.lt b) (fun r => r.load.getD 0) .posInf
          exact ⟨n, hn, s.rrIndex, by rw [← h]⟩
      | bestFit =>
          obtain ⟨n, hn, h⟩ := hpick (fun a b => b.lt a) (score c) (.neg (.ofNat 1))
          exact ⟨n, hn, s.rrIndex, by rw [← h]⟩

/-! ### One cycle -/

section cycle

/-- The loop has considered the task: no node matched, or it is assigned to one that did. -/
def Considered (s s' : MeshScheduler ρ) (id : JsString) (task : ScheduledTask ρ) : Prop :=
  (s.matchingNodes (.new task.constraints) = [] ∧ s'.tasks.get? id = some task) ∨
    ∃ n ∈ s.matchingNodes (.new task.constraints), ∃ now, s'.tasks.get? id = some (task.markAssigned n.1 now)

/-- The loop considers the tasks of a first part of the list; it stops at its end, or because the limit is reached. -/
structure Passed (s s' : MeshScheduler ρ) (done rest : List JsString) : Prop where
  stopped : rest = [] ∨ s'.Full
  nodes : s'.nodes = s.nodes
  maxConcurrent : s'.maxConcurrent = s.maxConcurrent
  others : ∀ id ∉ done, s'.tasks.get? id = s.tasks.get? id
  considered : ∀ id ∈ done, ∀ task, s.tasks.get? id = some task → Considered s s' id task

theorem scheduleLoop_split (now : ℕ → JsNumber) (ids : List JsString) (s : MeshScheduler ρ) (assigned : ℕ) :
    ∃ done rest, ids = done ++ rest ∧ Passed s (scheduleLoop now ids s assigned).1 done rest := by
  induction ids generalizing s assigned with
  | nil => exact ⟨[], [], rfl, Or.inl rfl, rfl, rfl, fun _ _ => rfl, fun _ h => by cases h⟩
  | cons id ids ih =>
      rw [scheduleLoop]
      split_ifs with hfull
      · exact ⟨[], id :: ids, rfl, Or.inr hfull, rfl, rfl, fun _ _ => rfl, fun _ h => by cases h⟩
      · cases hget : s.tasks.get? id with
        | none =>
            obtain ⟨done, rest, hids, h⟩ := ih s assigned
            refine ⟨id :: done, rest, by rw [hids, List.cons_append], h.stopped, h.nodes, h.maxConcurrent,
              fun i hi => h.others i fun hmem => hi (List.mem_cons_of_mem _ hmem), fun i hi task htask => ?_⟩
            rcases List.mem_cons.mp hi with rfl | hi
            · rw [hget] at htask
              cases htask
            · exact h.considered i hi task htask
        | some task =>
            rcases selectPod_cases s (.new task.constraints) with ⟨hnone, hselect⟩ | ⟨n, hn, rrIndex, hselect⟩
            · -- no node matches: the task is passed over
              rw [Option.bind_some, hselect]
              obtain ⟨done, rest, hids, h⟩ := ih s assigned
              refine ⟨id :: done, rest, by rw [hids, List.cons_append], h.stopped, h.nodes, h.maxConcurrent,
                fun i hi => h.others i fun hmem => hi (List.mem_cons_of_mem _ hmem), fun i hi t ht => ?_⟩
              by_cases hdone : i ∈ done
              · exact h.considered i hdone t ht
              · obtain rfl := (List.mem_cons.mp hi).resolve_right hdone
                obtain rfl := Option.some.inj (hget.symm.trans ht)
                exact Or.inl ⟨hnone, (h.others i hdone).trans ht⟩
            · have hassign : assign { s with rrIndex } id n.1 (now assigned) =
                  .ok (({ s with rrIndex }.put id (task.markAssigned n.1 (now assigned))).dequeueId id) :=
                assign_eq_ok.mpr ⟨task, hget, rfl⟩
              rw [Option.bind_some, hselect]
              dsimp only
              rw [hassign]
              dsimp only
              obtain ⟨done, rest, hids, h⟩ := ih
                (({ s with rrIndex }.put id (task.markAssigned n.1 (now assigned))).dequeueId id) (assigned + 1)
              have hput : ∀ i, (({ s with rrIndex }.put id (task.markAssigned n.1 (now assigned))).dequeueId
                  id).tasks.get? i = if i = id then some (task.markAssigned n.1 (now assigned)) else s.tasks.get? i :=
                fun i => JsMap.get?_set _ _ _ _
              refine ⟨id :: done, rest, by rw [hids, List.cons_append], h.stopped, h.nodes, h.maxConcurrent,
                fun i hi => ?_, fun i hi t ht => ?_⟩
              · rw [h.others i fun hmem => hi (List.mem_cons_of_mem _ hmem), hput,
                  if_neg fun heq => hi (List.mem_cons.mpr (Or.inl heq))]
              by_cases hid : i = id
              · subst hid
                obtain rfl := Option.some.inj (hget.symm.trans ht)
                have hnow := (hput i).trans (if_pos rfl)
                by_cases hdone : i ∈ done
                · -- the task stands in the list again
                  rcases h.considered i hdone _ hnow with ⟨-, hkept⟩ | ⟨n', hn', now', hlater⟩
                  · exact Or.inr ⟨n, hn, _, hkept⟩
                  · exact Or.inr ⟨n', hn', now', hlater⟩
                · exact Or.inr ⟨n, hn, _, (h.others i hdone).trans hnow⟩
              · have ht' := ((hput i).trans (if_neg hid)).trans ht
                exact h.considered i ((List.mem_cons.mp hi).resolve_left hid) t ht'

theorem runningCount_put (s : MeshScheduler ρ) {id : JsString} {old : ScheduledTask ρ} (hget : s.tasks.get? id = some old)
    (task : ScheduledTask ρ) : (s.put id task).getRunningCount ≤ s.getRunningCount + 1 := by
  have hcount : ∀ m : JsMap JsString (ScheduledTask ρ),
      m.values.countP (fun task => task.status = .assigned || task.status = .running) =
        m.entries.countP fun e => e.2.status = .assigned || e.2.status = .running := by
    intro m
    rw [JsMap.values, List.countP_map]
    rfl
  rw [getRunningCount, getRunningCount, hcount, hcount, put, (JsMap.set_entries_perm s.tasks id task).countP_eq,
    (JsMap.entries_perm_of_get? hget).countP_eq, List.countP_cons, List.countP_cons]
  split_ifs <;> omega

theorem ofNat_le_ofNat {m n : ℕ} (h : m ≤ n) : (JsNumber.ofNat m).le (.ofNat n) = true := by
  rw [JsNumber.le, decide_eq_true_iff]
  exact ⟨JsNumber.ofUnits_ne_nan _, JsNumber.ofUnits_ne_nan _, JsNumber.ofUnits_natCast_mono (Nat.mul_le_mul_right _ h)⟩

theorem le_posInf {a : JsNumber} (h : a ≠ .nan) : a.le .posInf = true := by
  rw [JsNumber.le, decide_eq_true_iff]
  refine ⟨h, by decide, ?_⟩
  cases a with
  | nan => exact absurd rfl h
  | negInf => exact JsNumber.negInf_le _
  | fin n hn => exact JsNumber.fin_le_posInf hn
  | posInf => exact le_rfl

theorem WholeLimit.succ_le {limit : JsNumber} (h : WholeLimit limit) {count : ℕ}
    (hbelow : ¬ limit.le (.ofNat count) = true) : (JsNumber.ofNat (count + 1)).le limit = true := by
  rcases h with rfl | hzero | ⟨n, rfl⟩
  · exact le_posInf (JsNumber.ofUnits_ne_nan _)
  · have hcount : JsNumber.NonNeg (.ofNat count) := JsNumber.nonNeg_ofUnits (Int.natCast_nonneg _)
    exact absurd (JsNumber.le_of_le_of_le hzero hcount) hbelow
  · exact ofNat_le_ofNat (Nat.lt_of_not_le fun hle => hbelow (ofNat_le_ofNat hle))

theorem scheduleLoop_limited (now : ℕ → JsNumber) (ids : List JsString) (s : MeshScheduler ρ) (assigned : ℕ)
    (hwhole : WholeLimit s.maxConcurrent) :
    (scheduleLoop now ids s assigned).1.getRunningCount = s.getRunningCount ∨
      (JsNumber.ofNat (scheduleLoop now ids s assigned).1.getRunningCount).le s.maxConcurrent = true := by
  induction ids generalizing s assigned with
  | nil => exact Or.inl rfl
  | cons id ids ih =>
      rw [scheduleLoop]
      split_ifs with hfull
      · exact Or.inl rfl
      · split
        · exact ih s assigned hwhole
        · rename_i podId rrIndex hselect
          obtain ⟨task, hget, -⟩ := Option.bind_eq_some_iff.mp hselect
          have hassign : assign { s with rrIndex } id podId (now assigned) =
              .ok (({ s with rrIndex }.put id (task.markAssigned podId (now assigned))).dequeueId id) :=
            assign_eq_ok.mpr ⟨task, hget, rfl⟩
          rw [hassign]
          dsimp only
          -- one more runs, and that is within the limit
          have hone := runningCount_put s hget (task.markAssigned podId (now assigned))
          have hwithin := JsNumber.le_of_le_of_le (ofNat_le_ofNat hone) (hwhole.succ_le hfull)
          rcases ih (({ s with rrIndex }.put id (task.markAssigned podId (now assigned))).dequeueId id) (assigned + 1)
            hwhole with hsame | hle
          · rw [hsame]
            exact Or.inr hwithin
          · exact Or.inr hle

end cycle

/-! ### The queue -/

def place (tasks : JsMap JsString (ScheduledTask ρ)) (id : JsString) : JsNumberᵒᵈ ×ₗ JsNumber ×ₗ JsNumber :=
  ((tasks.get? id).map rank).getD (toLex (OrderDual.toDual .nan, toLex (.nan, .nan)))

/-- The queue holds tasks of the scheduler, in order. -/
structure Ordered (tasks : JsMap JsString (ScheduledTask ρ)) (queue : List JsString) : Prop where
  named : ∀ id task, tasks.get? id = some task → task.id = id
  timed : ∀ id task, tasks.get? id = some task → Timed task
  known : ∀ id ∈ queue, tasks.get? id ≠ none
  sorted : queue.Pairwise fun a b => place tasks a ≤ place tasks b

def Waiting (tasks : JsMap JsString (ScheduledTask ρ)) (queue : List JsString) : Prop :=
  ∀ id task, tasks.get? id = some task → task.status = .queued → id ∈ queue

theorem weight_ne_nan (priority : TaskPriority) : priority.weight ≠ .nan := by
  cases priority <;> decide +kernel

theorem after_iff {t u : ScheduledTask ρ} (ht : Timed t) (hu : Timed u) :
    After ScheduledTask.defaultComparator t u ↔ rank u < rank t := by
  have hdeadline : ∀ {task : ScheduledTask ρ}, Timed task → task.deadline.getD .posInf ≠ .nan := by
    intro task htask
    cases h : task.deadline with
    | none => simp
    | some n => exact fun hn => htask.1 (h.trans (congrArg some hn))
  have hweights := weight_ne_nan t.priority
  rw [rank, rank, Prod.Lex.toLex_lt_toLex, Prod.Lex.toLex_lt_toLex, After, ScheduledTask.defaultComparator]
  dsimp only
  by_cases hweight : t.priority.weight = u.priority.weight
  · rw [(JsNumber.eq_iff hweights).mpr hweight, hweight]
    simp only [Bool.not_true, Bool.false_eq_true, if_false, lt_self_iff_false, false_or, true_and]
    by_cases hsame : t.deadline.getD .posInf = u.deadline.getD .posInf
    · rw [(JsNumber.eq_iff (hdeadline ht)).mpr hsame, hsame]
      simp only [Bool.not_true, Bool.false_eq_true, if_false, lt_self_iff_false, false_or, true_and]
      exact JsNumber.after_sub_iff ht.2 hu.2
    · have hne := fun h => hsame ((JsNumber.eq_iff (hdeadline ht)).mp h)
      rw [Bool.eq_false_iff.mpr hne, Bool.not_false, if_pos rfl]
      refine (JsNumber.after_sub_iff (hdeadline ht) (hdeadline hu)).trans ⟨Or.inl, fun h => h.elim id fun h => ?_⟩
      exact absurd h.1.symm hsame
  · have hne := fun h => hweight ((JsNumber.eq_iff hweights).mp h)
    rw [Bool.eq_false_iff.mpr hne, Bool.not_false, if_pos rfl]
    refine (JsNumber.after_sub_iff (weight_ne_nan _) hweights).trans ⟨Or.inl, fun h => h.elim id fun h => ?_⟩
    exact absurd (OrderDual.toDual.injective h.1).symm hweight

section queue
variable {tasks : JsMap JsString (ScheduledTask ρ)} {queue : List JsString}

theorem place_of_get? {id : JsString} {task : ScheduledTask ρ} (h : tasks.get? id = some task) :
    place tasks id = rank task := by
  rw [place, h]
  rfl

theorem inOrder_eq (htimed : ∀ id task, tasks.get? id = some task → Timed task) {a b : JsString}
    (ha : tasks.get? a ≠ none) (hb : tasks.get? b ≠ none) :
    inOrder tasks a b = decide (place tasks a ≤ place tasks b) := by
  obtain ⟨t, ht⟩ := Option.ne_none_iff_exists'.mp ha
  obtain ⟨u, hu⟩ := Option.ne_none_iff_exists'.mp hb
  rw [inOrder, ht, hu, place_of_get? ht, place_of_get? hu]
  dsimp only
  rw [Bool.eq_iff_iff, Bool.not_eq_true', Bool.eq_false_iff, decide_eq_true_iff, ← not_lt]
  exact not_congr (after_iff (htimed a t ht) (htimed b u hu))

theorem mem_enqueue {s : MeshScheduler ρ} {id i : JsString} : i ∈ (s.enqueue id).queue ↔ i ∈ s.queue ∨ i = id := by
  rw [enqueue, (List.mergeSort_perm _ _).mem_iff, List.mem_append, List.mem_singleton]

theorem Ordered.enqueue {s : MeshScheduler ρ} (h : Ordered s.tasks s.queue) {id : JsString}
    (hknown : s.tasks.get? id ≠ none) : Ordered (s.enqueue id).tasks (s.enqueue id).queue := by
  have hall : ∀ i ∈ s.queue ++ [id], s.tasks.get? i ≠ none := by
    intro i hi
    rcases List.mem_append.mp hi with hi | hi
    · exact h.known i hi
    · exact List.mem_singleton.mp hi ▸ hknown
  refine ⟨h.named, h.timed, fun i hi => hall i ((List.mergeSort_perm _ _).mem_iff.mp hi), ?_⟩
  have hsame : (s.queue ++ [id]).mergeSort (inOrder s.tasks) =
      (s.queue ++ [id]).mergeSort fun a b => decide (place s.tasks a ≤ place s.tasks b) := by
    have hmap := List.map_mergeSort (f := fun a => a) (l := s.queue ++ [id])
      fun a ha b hb => inOrder_eq h.timed (hall a ha) (hall b hb)
    rwa [List.map_id', List.map_id'] at hmap
  have hsorted : ((s.queue ++ [id]).mergeSort fun a b => decide (place s.tasks a ≤ place s.tasks b)).Pairwise
      fun a b => decide (place s.tasks a ≤ place s.tasks b) = true := List.pairwise_mergeSort
    (fun a b c hab hbc => decide_eq_true ((of_decide_eq_true hab).trans (of_decide_eq_true hbc)))
    (fun a b => by
      rw [Bool.or_eq_true, decide_eq_true_iff, decide_eq_true_iff]
      exact le_total _ _) (s.queue ++ [id])
  show List.Pairwise _ ((s.queue ++ [id]).mergeSort (inOrder s.tasks))
  rw [hsame]
  exact hsorted.imp fun hab => of_decide_eq_true hab

theorem Ordered.set (h : Ordered tasks queue) {id : JsString} {task : ScheduledTask ρ} (hid : task.id = id)
    (htimed : Timed task) (hrank : ∀ old, tasks.get? id = some old → rank task = rank old) :
    Ordered (tasks.set id task) queue := by
  constructor
  · intro i t hi
    rw [JsMap.get?_set] at hi
    split_ifs at hi with heq
    · obtain rfl := Option.some.inj hi
      exact hid.trans heq.symm
    · exact h.named i t hi
  · intro i t hi
    rw [JsMap.get?_set] at hi
    split_ifs at hi with heq
    · obtain rfl := Option.some.inj hi
      exact htimed
    · exact h.timed i t hi
  · intro i hi
    rw [JsMap.get?_set]
    split_ifs
    · simp
    · exact h.known i hi
  · have hplace : ∀ i ∈ queue, place (tasks.set id task) i = place tasks i := by
      intro i hi
      by_cases heq : i = id
      · subst heq
        obtain ⟨old, hold⟩ := Option.ne_none_iff_exists'.mp (h.known i hi)
        rw [place_of_get? hold, ← hrank old hold]
        exact place_of_get? (by rw [JsMap.get?_set, if_pos rfl])
      · rw [place, place, JsMap.get?_set, if_neg heq]
    exact h.sorted.imp_of_mem fun ha hb hab => by rwa [hplace _ ha, hplace _ hb]

theorem Ordered.erase (h : Ordered tasks queue) (id : JsString) : Ordered tasks (queue.erase id) :=
  ⟨h.named, h.timed, fun i hi => h.known i (List.mem_of_mem_erase hi), h.sorted.sublist List.erase_sublist⟩

theorem Waiting.set (h : Waiting tasks queue) {id : JsString} {task : ScheduledTask ρ} (hidle : task.status ≠ .queued)
    {queue' : List JsString} (hqueue : ∀ i ∈ queue, i ≠ id → i ∈ queue') : Waiting (tasks.set id task) queue' := by
  intro i t hi hstatus
  rw [JsMap.get?_set] at hi
  split_ifs at hi with heq
  · obtain rfl := Option.some.inj hi
    exact absurd hstatus hidle
  · exact hqueue i (h i t hi hstatus) heq

end queue

/-! ### Runs -/

/-- What holds of a scheduler along its runs. -/
structure Kept (maxConcurrent : JsNumber) (s : MeshScheduler ρ) : Prop where
  ordered : Ordered s.tasks s.queue
  waiting : Waiting s.tasks s.queue
  limit : s.maxConcurrent = maxConcurrent

section runs
variable {maxConcurrent : JsNumber} {s s' : MeshScheduler ρ} {id : JsString} {old task : ScheduledTask ρ}

theorem Kept.idle (h : Kept maxConcurrent s) (hget : s.tasks.get? id = some old) (hset : s'.tasks = s.tasks.set id task)
    (hqueue : s'.queue = s.queue ∨ s'.queue = s.queue.erase id) (hlimit : s'.maxConcurrent = s.maxConcurrent)
    (hid : task.id = old.id) (htimed : Timed task) (hrank : rank task = rank old) (hidle : task.status ≠ .queued) :
    Kept maxConcurrent s' := by
  have hordered := h.ordered.set (hid.trans (h.ordered.named id old hget)) htimed fun old' hold' => by
    rw [hrank, Option.some.inj (hget.symm.trans hold')]
  refine ⟨?_, ?_, hlimit.trans h.limit⟩
  · rw [hset]
    rcases hqueue with hqueue | hqueue
    · rwa [hqueue]
    · rw [hqueue]
      exact hordered.erase id
  · rw [hset]
    refine h.waiting.set hidle fun i hi hne => ?_
    rcases hqueue with hqueue | hqueue
    · rwa [hqueue]
    · rw [hqueue]
      exact (List.mem_erase_of_ne hne).mpr hi

theorem Kept.enqueued (h : Kept maxConcurrent s) (hid : task.id = id) (htimed : Timed task)
    (hrank : ∀ old, s.tasks.get? id = some old → rank task = rank old) :
    Kept maxConcurrent ((s.put id task).enqueue id) := by
  have hordered : Ordered (s.put id task).tasks (s.put id task).queue := h.ordered.set hid htimed hrank
  refine ⟨hordered.enqueue ?_, fun i t hi hstatus => mem_enqueue.mpr ?_, h.limit⟩
  · rw [put, JsMap.get?_set, if_pos rfl]
    simp
  · by_cases heq : i = id
    · exact Or.inr heq
    · rw [enqueue, put, JsMap.get?_set, if_neg heq] at hi
      exact Or.inl (h.waiting i t hi hstatus)

theorem kept_scheduleLoop (now : ℕ → JsNumber) (ids : List JsString) (assigned : ℕ) (h : Kept maxConcurrent s) :
    Kept maxConcurrent (scheduleLoop now ids s assigned).1 := by
  induction ids generalizing s assigned with
  | nil => exact h
  | cons id ids ih =>
      rw [scheduleLoop]
      split_ifs
      · exact h
      · split
        · exact ih assigned h
        · rename_i podId rrIndex hselect
          obtain ⟨task, hget, -⟩ := Option.bind_eq_some_iff.mp hselect
          rw [show assign { s with rrIndex } id podId (now assigned) =
              .ok (({ s with rrIndex }.put id (task.markAssigned podId (now assigned))).dequeueId id) from
            assign_eq_ok.mpr ⟨task, hget, rfl⟩]
          exact ih (assigned + 1) (h.idle hget rfl (Or.inr rfl) rfl rfl (h.ordered.timed id task hget) rfl (by simp))

theorem kept_call (h : Kept maxConcurrent s) {c : SchedulerCall ρ} (hclear : Clear s (.call c)) :
    Kept maxConcurrent (s.call c) := by
  cases c with
  | submit task =>
      rw [call, submit]
      split_ifs with hhas
      · exact h
      · have hfresh : s.tasks.get? task.id = none := by simpa [JsMap.has] using hhas
        have hkept : Kept maxConcurrent ((s.put task.id task.markQueued).enqueue task.id) :=
          h.enqueued rfl hclear fun old hold => by
            rw [hfresh] at hold
            cases hold
        exact ⟨hkept.ordered, hkept.waiting, hkept.limit⟩
  | cancel taskId now =>
      rw [call, cancel]
      cases hget : s.tasks.get? taskId with
      | none => exact h
      | some task =>
          dsimp only
          split_ifs
          · exact h
          · have htimed := h.ordered.timed taskId task hget
            exact h.idle hget rfl (Or.inr rfl) rfl rfl htimed rfl (by simp)
  | assign taskId podId now =>
      cases hassign : s.assign taskId podId now with
      | error e => rwa [call, hassign]
      | ok s' =>
          obtain ⟨task, hget, rfl⟩ := assign_eq_ok.mp hassign
          rw [call, hassign]
          have htimed := h.ordered.timed taskId task hget
          exact h.idle hget rfl (Or.inr rfl) rfl rfl htimed rfl (by simp)
  | complete taskId result now =>
      cases hcomplete : s.complete taskId result now with
      | error e => rwa [call, hcomplete]
      | ok s' =>
          rw [call, hcomplete]
          simp only [complete, Guards.bind_eq_ok, Guards.required_eq_ok, Guards.pure_eq_ok] at hcomplete
          obtain ⟨task, hget, rfl⟩ := hcomplete
          have htimed := h.ordered.timed taskId task hget
          exact h.idle hget rfl (Or.inr rfl) rfl rfl htimed rfl (by simp)
  | fail taskId error now =>
      cases hfail : s.fail taskId error now with
      | error e => rwa [call, hfail]
      | ok s' =>
          rw [call, hfail]
          obtain ⟨task, hget, hs'⟩ := fail_cases hfail
          have hnamed := h.ordered.named taskId task hget
          have htimed := h.ordered.timed taskId task hget
          rcases hs' with rfl | rfl
          · refine h.enqueued hnamed htimed fun old hold => ?_
            obtain rfl := Option.some.inj (hget.symm.trans hold)
            rfl
          · exact h.idle hget rfl (Or.inl rfl) rfl rfl htimed rfl (by simp)
  | schedule now =>
      rw [call, schedule]
      split_ifs
      · exact h
      · exact kept_scheduleLoop now _ 0 h
  | registerNode podId resources => exact ⟨h.ordered, h.waiting, h.limit⟩
  | unregisterNode podId => exact ⟨h.ordered, h.waiting, h.limit⟩

theorem kept_restoreTask (h : Kept maxConcurrent s) (htimed : Timed task) (hfresh : s.tasks.get? task.id = none) :
    Kept maxConcurrent (restoreTask s task) := by
  rw [restoreTask]
  split_ifs with hstatus
  · refine h.enqueued rfl htimed fun old hold => ?_
    rw [hfresh] at hold
    cases hold
  · refine ⟨h.ordered.set rfl htimed fun old hold => ?_, h.waiting.set (fun hq => hstatus (Or.inl hq)) fun i hi _ => hi,
      h.limit⟩
    rw [hfresh] at hold
    cases hold

theorem restoreTask_tasks (s : MeshScheduler ρ) (task : ScheduledTask ρ) :
    (restoreTask s task).tasks = s.tasks.set task.id task := by
  rw [restoreTask]
  split_ifs <;> rfl

theorem kept_restoreTasks {tasks : List (ScheduledTask ρ)} (h : Kept maxConcurrent s)
    (hnodup : (tasks.map fun t => t.id).Nodup) (htimed : ∀ t ∈ tasks, Timed t)
    (hfresh : ∀ t ∈ tasks, s.tasks.get? t.id = none) : Kept maxConcurrent (tasks.foldl restoreTask s) := by
  induction tasks generalizing s with
  | nil => exact h
  | cons task tasks ih =>
      obtain ⟨hnot, hnodup⟩ := List.nodup_cons.mp hnodup
      refine ih (kept_restoreTask h (htimed task List.mem_cons_self) (hfresh task List.mem_cons_self)) hnodup
        (fun t ht => htimed t (List.mem_cons_of_mem _ ht)) fun t ht => ?_
      rw [restoreTask_tasks, JsMap.get?_set, if_neg, hfresh t (List.mem_cons_of_mem _ ht)]
      intro heq
      have hmem : t.id ∈ tasks.map fun t => t.id := List.mem_map_of_mem ht
      rw [heq] at hmem
      exact hnot hmem

theorem kept_restore (h : Kept maxConcurrent s) : Kept maxConcurrent (fromJSON s.toJSON) := by
  have hnamed : ∀ e ∈ s.tasks.entries, e.2.id = e.1 := fun e he => h.ordered.named e.1 e.2 (JsMap.mem_entries_iff.mp he)
  refine kept_restoreTasks ⟨⟨?_, ?_, ?_, List.Pairwise.nil⟩, ?_, h.limit⟩ ?_ ?_ fun t _ => rfl
  · exact fun _ _ hget => by cases hget
  · exact fun _ _ hget => by cases hget
  · exact fun _ hmem => by cases hmem
  · exact fun _ _ hget => by cases hget
  · have hkeys : s.tasks.values.map (fun t => t.id) = s.tasks.keys := by
      rw [JsMap.values, JsMap.keys, List.map_map]
      exact List.map_congr_left hnamed
    show (s.tasks.values.map fun t => t.id).Nodup
    rw [hkeys]
    exact s.tasks.nodup
  · intro t ht
    obtain ⟨⟨id, t⟩, hmem, rfl⟩ := List.mem_map.mp ht
    exact h.ordered.timed id t (JsMap.mem_entries_iff.mp hmem)

theorem Reach.kept {schedulingPolicy : SchedulingPolicy}
    (h : (savedMachine maxConcurrent schedulingPolicy).Reach Clear s) : Kept maxConcurrent s := by
  refine Machine.Reach.invariant ?_ (fun s a s' hkept hclear hstep => ?_) h
  · exact ⟨⟨fun _ _ hget => (by cases hget), fun _ _ hget => (by cases hget), fun _ hmem => (by cases hmem),
      List.Pairwise.nil⟩, fun _ _ hget => (by cases hget), rfl⟩
  · obtain rfl := Option.some.inj hstep
    cases a with
    | call c => exact kept_call hkept hclear
    | restore => exact kept_restore hkept

end runs

/-! ### Placement -/

section placement
variable {s : MeshScheduler ρ} {task : ScheduledTask ρ}

theorem qualifies_of_matching (htells : s.TellsTask task) {n : JsString × ResourceDescriptor}
    (hn : n ∈ s.matchingNodes (.new task.constraints)) :
    ∃ res, s.nodes.get? n.1 = some res ∧ Qualifies (.new task.constraints) n.1 res := by
  obtain ⟨⟨pod, res⟩, hfilter, rfl⟩ := List.mem_map.mp hn
  obtain ⟨hmem, hmatches⟩ := List.mem_filter.mp hfilter
  have hget := JsMap.mem_entries_iff.mp hmem
  have hfits : (unlisted (.new task.constraints)).matches res = true := by
    rw [matches_eq, Bool.and_eq_true, Bool.and_eq_true] at hmatches
    exact hmatches.1.1
  have hname : res.podId.getD pod = pod := by
    rcases (htells pod res hget hfits).named with hnone | hsome
    · rw [hnone, Option.getD_none]
    · rw [hsome, Option.getD_some]
  dsimp only
  rw [hname]
  exact ⟨res, hget, (matches_iff (htells pod res hget)).mp hmatches⟩

theorem unplaceable_of_no_match (htells : s.TellsTask task)
    (hnone : s.matchingNodes (.new task.constraints) = []) : s.Unplaceable task := by
  intro pod res hget hq
  have hmem : (pod, res) ∈ s.nodes.entries.filter fun n => (TaskConstraints.new task.constraints).matches n.2 :=
    List.mem_filter.mpr ⟨JsMap.mem_entries_iff.mpr hget, (matches_iff (htells pod res hget)).mpr hq⟩
  rw [List.map_eq_nil_iff.mp hnone] at hmem
  cases hmem

theorem unplaceable_of_considered {s' : MeshScheduler ρ} {id : JsString} (htells : s.TellsTask task)
    (hqueued : task.status = .queued) (h : Considered s s' id task) (hleft : s'.tasks.get? id = some task) :
    s.Unplaceable task := by
  rcases h with ⟨hnone, -⟩ | ⟨n, -, now, hassigned⟩
  · exact unplaceable_of_no_match htells hnone
  · have hsame := congrArg ScheduledTask.status (Option.some.inj (hleft.symm.trans hassigned))
    rw [hqueued] at hsame
    cases hsame

theorem placed_schedule {maxConcurrent : JsNumber} (h : Kept maxConcurrent s) (hwhole : WholeLimit maxConcurrent)
    (now : ℕ → JsNumber) (hclear : Clear s (.call (.schedule now))) : Placed s (s.schedule now).1 := by
  rw [schedule]
  split_ifs with hsize
  · refine ⟨fun _ _ => Or.inl, fun a b t u _ hb _ _ _ hne => absurd hb hne, Or.inl rfl, fun _ _ _ _ _ => Or.inl ?_⟩
    intro pod res hget
    have hmem := JsMap.mem_entries_iff.mpr hget
    rw [List.length_eq_zero_iff.mp hsize] at hmem
    cases hmem
  · obtain ⟨done, rest, hsplit, hpassed⟩ := scheduleLoop_split now
      (s.queue.filter fun id => (s.tasks.get? id).any fun task => task.status = .queued) s 0
    have hmem : ∀ {id task}, s.tasks.get? id = some task → task.status = .queued → id ∈ done ++ rest := by
      intro id task hget hqueued
      rw [← hsplit]
      exact List.mem_filter.mpr ⟨h.waiting id task hget hqueued, by rw [hget]; simpa using hqueued⟩
    have hqueued : ∀ {id task}, id ∈ done → s.tasks.get? id = some task → task.status = .queued := by
      intro id task hdone hget
      have hin := List.mem_append_left rest hdone
      rw [← hsplit] at hin
      simpa [hget] using (List.mem_filter.mp hin).2
    have hsorted := h.ordered.sorted.sublist
      (List.filter_sublist (p := fun id => (s.tasks.get? id).any fun task => task.status = .queued))
    rw [hsplit] at hsorted
    constructor
    · intro id task hget
      by_cases hdone : id ∈ done
      · rcases hpassed.considered id hdone task hget with ⟨-, hleft⟩ | ⟨n, hn, now', hassigned⟩
        · exact Or.inl hleft
        · obtain ⟨res, hnode, hq⟩ := qualifies_of_matching (hclear id task hget (hqueued hdone hget)) hn
          exact Or.inr ⟨hqueued hdone hget, n.1, res, now', hassigned, hnode, hq⟩
      · exact Or.inl ((hpassed.others id hdone).trans hget)
    · intro a b t u ha hb ht hu hbefore hassigned hleft
      have hb' : b ∈ done := by
        by_contra hdone
        exact hassigned ((hpassed.others b hdone).trans hb)
      rcases List.mem_append.mp (hmem ha ht) with hdone | hrest
      · exact unplaceable_of_considered (hclear a t ha ht) ht (hpassed.considered a hdone t ha) hleft
      · -- what was not considered does not come before what was
        have hplace := (List.pairwise_append.mp hsorted).2.2 b hb' a hrest
        rw [place_of_get? ha, place_of_get? hb] at hplace
        exact absurd hbefore (not_lt.mpr hplace)
    · exact scheduleLoop_limited now _ s 0 (h.limit ▸ hwhole)
    · intro id task hget hstatus hleft
      rcases List.mem_append.mp (hmem hget hstatus) with hdone | hrest
      · exact Or.inl (unplaceable_of_considered (hclear id task hget hstatus) hstatus
          (hpassed.considered id hdone task hget) hleft)
      · refine Or.inr ?_
        rcases hpassed.stopped with hnil | hfull
        · rw [hnil] at hrest
          cases hrest
        · rw [← hpassed.maxConcurrent]
          exact hfull

/-- In runs in which tasks have times, every cycle at which the nodes tell what the queued tasks ask places the tasks as it
should. -/
theorem placement_sound (maxConcurrent : JsNumber) (hwhole : WholeLimit maxConcurrent)
    (schedulingPolicy : SchedulingPolicy) {s : MeshScheduler ρ}
    (h : (savedMachine maxConcurrent schedulingPolicy).Reach Clear s) (now : ℕ → JsNumber)
    (hclear : Clear s (.call (.schedule now))) : Placed s (s.schedule now).1 :=
  placed_schedule (Reach.kept h) hwhole now hclear

end placement

/-- A scheduler with one node, and a task submitted to it. -/
def oneNode (task : ScheduledTask Unit) : MeshScheduler Unit :=
  ((new (.ofNat 10) .firstFit).take (.call (.registerNode (js "A") { podId := some (js "A") }))).take (.call (.submit task))

def nearTask : ScheduledTask Unit := { id := js "t", constraints := { affinityPodIds := some [js "A"] } }

def farTask : ScheduledTask Unit := { id := js "t", constraints := { antiAffinityPodIds := some [js "A"] } }

theorem reach_oneNode {ok : MeshScheduler Unit → SchedulerStep Unit → Prop} {task : ScheduledTask Unit}
    (hregister : ∀ s, ok s (.call (.registerNode (js "A") { podId := some (js "A") })))
    (hsubmit : ∀ s, ok s (.call (.submit task))) :
    (savedMachine (.ofNat 10) .firstFit).Reach ok (oneNode task) :=
  .step (.step .init (hregister _) rfl) (hsubmit _) rfl

theorem placement_near : Placed (oneNode nearTask) ((oneNode nearTask).schedule fun _ => 0).1 := by
  have htimed : Timed nearTask := ⟨by decide, by decide⟩
  refine placement_sound (.ofNat 10) (Or.inr (Or.inr ⟨10, rfl⟩)) .firstFit
    (reach_oneNode (fun _ => trivial) fun _ => htimed) (fun _ => 0) ?_
  intro id task hget _ pod res hnode _
  have htask := JsMap.mem_entries_iff.mpr hget
  obtain ⟨rfl, rfl⟩ := Prod.mk.inj (List.mem_singleton.mp htask)
  obtain ⟨rfl, rfl⟩ := Prod.mk.inj (List.mem_singleton.mp (JsMap.mem_entries_iff.mpr hnode))
  exact ⟨fun _ => by decide, fun _ => by decide, Or.inr rfl, fun _ => ⟨by decide, by decide⟩⟩

theorem restored_node_unnamed :
    ¬ ∀ (maxConcurrent : JsNumber) (schedulingPolicy : SchedulingPolicy) (s : MeshScheduler Unit),
      (savedMachine maxConcurrent schedulingPolicy).Reach (fun _ _ => True) s →
        ∀ now, Placed s (s.schedule now).1 := by
  intro hall
  have hplaced := hall (.ofNat 10) .firstFit (fromJSON (oneNode farTask).toJSON)
    (.step (a := .restore) (reach_oneNode (fun _ => trivial) fun _ => trivial) trivial rfl) fun _ => 0
  have hassigned : (((fromJSON (oneNode farTask).toJSON).schedule fun _ => 0).1.tasks.get? (js "t")).map
      (fun task => task.assignedTo) = some (some (js "A")) := by decide +kernel
  rcases hplaced.sound (js "t") farTask.markQueued (by decide +kernel) with hleft | ⟨-, pod, res, now, hget, -, hq⟩
  · rw [hleft] at hassigned
    exact absurd hassigned (by decide)
  · rw [hget] at hassigned
    obtain rfl : pod = js "A" := Option.some.inj (Option.some.inj hassigned)
    exact hq.antiAffinity (by decide)

end MeshScheduler
end BrowserMesh.Apps
