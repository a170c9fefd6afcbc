import BrowserMesh.Js.Dict
import BrowserMesh.Library.Async

/-! # Restarts of supervised pods

* **Entries.**  A supervised pod is an entry of its own; `pods` says under which key it is known.
* **Attempts.**  A restart that was scheduled waits for its audit record, its timer, its turn and the spawn.  What the
  spawn settles to, and when a timer fires, is an event of the attempt.
* **Calls.**  `drain` and the exit handler cascade first; which children they reach is left open here.  The sweep and
  the loss of a host report exits one after the other.
* **Log.**  What was scheduled, spawned and called, the latest first. -/

namespace BrowserMesh.Apps
open Js Async Transition

structure PodRef where
  host : JsString
  name : JsString
  deriving DecidableEq

/-- `refKey`. -/
def refKey (ref : PodRef) : JsString := ref.host ++ js "::" ++ ref.name

inductive RestartPolicy where
  | never | onFailure | always
  deriving DecidableEq

/-- `spec.restart`. -/
structure RestartSpec where
  policy : RestartPolicy
  maxRestarts : Option ℕ
  deriving DecidableEq

inductive PodState where
  | running | restarting | dead
  deriving DecidableEq

structure PodEntry where
  ref : PodRef
  restart : RestartSpec
  restarts : ℕ
  state : PodState
  backoffTimer : Option ℕ
  deriving DecidableEq

def DEFAULT_MAX_RESTARTS : ℕ := 3

/-- How often an entry may be restarted. -/
def PodEntry.maxRestarts (entry : PodEntry) : ℕ := entry.restart.maxRestarts.getD DEFAULT_MAX_RESTARTS

/-- The `data` of an exit event. -/
structure ExitData where
  reason : JsString
  code : Option ℤ
  deriving DecidableEq

def policyWantsRestart (policy : RestartPolicy) (exit : ExitData) : Bool :=
  match policy with
  | .always => true
  | .onFailure => exit.code ≠ some 0 || exit.reason = js "crashed" || exit.reason = js "host-lost"
  | .never => false

/-- Where an attempt stands; `running` when it was scheduled by an attempt that failed. -/
inductive AttemptStage where
  | scheduling (running : Bool)
  | armed
  | queued
  | woken
  | spawning
  | placing
  | respawning (newHost : JsString)
  /-- Its pod runs again or was given up; the audit record is being written. -/
  | finishing
  deriving DecidableEq

/-- The attempt is still to come, or in flight. -/
def AttemptStage.pending : AttemptStage → Bool
  | .finishing => false
  | _ => true

/-- The attempt counts as one of `activeRestarts`. -/
def AttemptStage.active : AttemptStage → Bool
  | .scheduling running => running
  | .armed => false
  | .queued => false
  | .woken => false
  | _ => true

def AttemptStage.inFlight : AttemptStage → Bool
  | .spawning => true
  | .respawning _ => true
  | _ => false

structure RestartAttempt where
  entry : ℕ
  number : ℕ
  reason : JsString
  stage : AttemptStage
  deriving DecidableEq

inductive SupervisorNote where
  | scheduled (entry number : ℕ)
  | restartSpawn (entry number : ℕ)
  | unsupervised (entry : ℕ)
  | drained (entry : ℕ)
  | stopped
  deriving DecidableEq

structure PodSupervisor where
  entries : List PodEntry
  pods : JsMap JsString ℕ
  attempts : List RestartAttempt
  activeRestarts : ℕ
  maxConcurrent : ℕ
  stopped : Bool
  log : List SupervisorNote

/-- What happens to an attempt. -/
inductive AttemptEvent where
  /-- The audit record that it waits for is written. -/
  | audited
  | fires
  | continues
  | spawned
  /-- The host answers `EACCES` or `EBUSY`. -/
  | refused
  | failed
  | placed (newHost : JsString)
  deriving DecidableEq

/-- What is left of a sweep or of the loss of a host when an exit was handled. -/
inductive AfterExit where
  | done
  | lost (host : JsString) (names : List JsString)
  | sweep (host : JsString) (names : List JsString) (rest : List (JsString × List ℕ))
  deriving DecidableEq

/-- What follows a cascade. -/
inductive AfterCascade where
  | drain (ref : PodRef)
  | exit (ref : PodRef) (data : ExitData) (after : AfterExit)
  deriving DecidableEq

inductive SupervisorCall where
  | supervise (ref : PodRef) (restart : RestartSpec)
  | unsupervise (ref : PodRef)
  | drain (ref : PodRef) (cascade : Bool)
  | stop
  | exit (ref : PodRef) (data : ExitData)
  | hostLost (host : JsString)
  | reconcile
  | attempt (i : ℕ) (event : AttemptEvent)
  deriving DecidableEq

/-- Where a call waits. -/
inductive SupervisorFrame where
  | supervising (ref : PodRef) (restart : RestartSpec)
  | cascading (stack : List (Option ℕ)) (next : AfterCascade)
  | drainingChild (stack : List (Option ℕ)) (child : Option ℕ) (next : AfterCascade)
  | draining (entry : Option ℕ)
  | drained
  | scheduled (entry number : ℕ) (after : AfterExit)
  | gaveUp (after : AfterExit)
  | losing (host : JsString) (names : List JsString)
  | listing (host : JsString) (entries : List ℕ) (rest : List (JsString × List ℕ))
  deriving DecidableEq

inductive SupervisorEvent where
  | settled
  | failed
  /-- A cascade goes down to a child, or drains the one it is at. -/
  | child (key : JsString)
  | drainChild
  /-- The names that the host reports as gone. -/
  | listed (gone : List JsString)
  deriving DecidableEq

abbrev SupervisorTask : Type := Task SupervisorFrame Unit

namespace PodSupervisor

def new (maxConcurrentRestarts : ℕ) : PodSupervisor := ⟨[], .empty, [], 0, max 1 maxConcurrentRestarts, false, []⟩

def modifyEntry (s : PodSupervisor) (e : ℕ) (f : PodEntry → PodEntry) : PodSupervisor :=
  { s with entries := s.entries.modify e f }

def setState (s : PodSupervisor) (e : ℕ) (state : PodState) : PodSupervisor :=
  s.modifyEntry e fun entry => { entry with state }

def setAttempt (s : PodSupervisor) (i : ℕ) (a : RestartAttempt) : PodSupervisor :=
  { s with attempts := s.attempts.set i a }

def note (s : PodSupervisor) (n : SupervisorNote) : PodSupervisor := { s with log := n :: s.log }

/-- `clearTimeout(entry.backoffTimer)`. -/
def stopTimer (s : PodSupervisor) (e : ℕ) : PodSupervisor :=
  match s.entries[e]?.bind PodEntry.backoffTimer with
  | none => s
  | some n => { s with attempts := s.attempts.filter fun a => ¬ (a.entry = e ∧ a.number = n ∧ a.stage = .armed) }

/-- `clearTimeout(entry.backoffTimer)`, and the field is reset. -/
def clearTimer (s : PodSupervisor) (e : ℕ) : PodSupervisor :=
  (s.stopTimer e).modifyEntry e fun entry => { entry with backoffTimer := none }

/-- `clearTimer` for an entry that a call has looked up. -/
def clearTimer? (s : PodSupervisor) (e : Option ℕ) : PodSupervisor := e.elim s s.clearTimer

/-- `entry.state = 'dead'` for an entry that a call has looked up. -/
def drained? (s : PodSupervisor) (e : Option ℕ) : PodSupervisor :=
  e.elim s fun e => (s.setState e .dead).note (.drained e)

/-- `rekey`. -/
def rekey (s : PodSupervisor) (e : ℕ) (newHost : JsString) : PodSupervisor :=
  match s.entries[e]? with
  | none => s
  | some entry =>
      let s' := s.modifyEntry e fun entry => { entry with ref := { entry.ref with host := newHost } }
      let newKey := refKey { entry.ref with host := newHost }
      if newKey = refKey entry.ref then s'
      else { s' with pods := (s.pods.delete (refKey entry.ref)).set newKey e }

/-- `scheduleRestart` up to its first `await`; `none` when it gives up. -/
def scheduleRestart (s : PodSupervisor) (e : ℕ) (reason : JsString) (running : Bool) :
    PodSupervisor × Option RestartAttempt :=
  match s.entries[e]? with
  | none => (s, none)
  | some entry =>
      if entry.maxRestarts ≤ entry.restarts then (s.setState e .dead, none)
      else ((s.modifyEntry e fun entry => { entry with restarts := entry.restarts + 1 }).note
          (.scheduled e (entry.restarts + 1)),
        some ⟨e, entry.restarts + 1, reason, .scheduling running⟩)

/-- The first of the attempts that wait for their turn is woken. -/
def wake : List RestartAttempt → List RestartAttempt
  | [] => []
  | a :: rest => if a.stage = .queued then { a with stage := .woken } :: rest else a :: wake rest

/-- The `finally` of `runRestart`. -/
def release (s : PodSupervisor) : PodSupervisor :=
  { s with activeRestarts := s.activeRestarts - 1, attempts := wake s.attempts }

/-- `runRestart` from its turn to its first spawn or placement. -/
def runRestart (s : PodSupervisor) (i : ℕ) (a : RestartAttempt) : PodSupervisor :=
  let s := { s with activeRestarts := s.activeRestarts + 1 }
  if a.reason ≠ js "host-lost" then
    (s.setAttempt i { a with stage := .spawning }).note (.restartSpawn a.entry a.number)
  else s.setAttempt i { a with stage := .placing }

def restarted (s : PodSupervisor) (i : ℕ) (a : RestartAttempt) : PodSupervisor :=
  (s.setState a.entry .running).setAttempt i { a with stage := .finishing }

/-- The `catch` of `runRestart`. -/
def restartFailed (s : PodSupervisor) (i : ℕ) (a : RestartAttempt) : PodSupervisor :=
  let r := s.scheduleRestart a.entry (js "restart-failed") true
  r.1.setAttempt i (r.2.getD { a with stage := .finishing })

/-- What an event does to an attempt.  No timer fires before an attempt that was woken has gone on. -/
def attempt (s : PodSupervisor) (i : ℕ) (a : RestartAttempt) : AttemptEvent → Option PodSupervisor
  | .audited =>
      match a.stage with
      | .scheduling running =>
          let s := (s.setAttempt i { a with stage := .armed }).modifyEntry a.entry
            fun entry => { entry with backoffTimer := some a.number }
          some (if running then s.release else s)
      | .finishing => some { s with attempts := s.attempts.eraseIdx i }.release
      | _ => none
  | .fires =>
      if a.stage = .armed ∧ ∀ b ∈ s.attempts, b.stage ≠ .woken then
        let s := s.modifyEntry a.entry fun entry => { entry with backoffTimer := none }
        some (if s.maxConcurrent ≤ s.activeRestarts then
          { s with attempts := s.attempts.eraseIdx i ++ [{ a with stage := .queued }] }
          else s.runRestart i a)
      else none
  | .continues => if a.stage = .woken then some (s.runRestart i a) else none
  | .spawned =>
      match a.stage with
      | .spawning => some (s.restarted i a)
      | .respawning newHost => some ((s.rekey a.entry newHost).restarted i a)
      | _ => none
  | .refused =>
      match a.stage with
      | .spawning => some (s.setAttempt i { a with stage := .placing })
      | .respawning _ => some (s.restartFailed i a)
      | _ => none
  | .failed =>
      match a.stage with
      | .spawning => some (s.restartFailed i a)
      | .placing => some (s.restartFailed i a)
      | .respawning _ => some (s.restartFailed i a)
      | _ => none
  | .placed newHost =>
      match a.stage with
      | .placing =>
          some ((s.setAttempt i { a with stage := .respawning newHost }).note (.restartSpawn a.entry a.number))
      | _ => none

/-- What comes after an exit was handled. -/
def afterExit : AfterExit → SupervisorTask
  | .done => .returned ()
  | .lost _ [] => .returned ()
  | .lost host (name :: names) =>
      .waiting (.cascading [] (.exit ⟨host, name⟩ ⟨js "host-lost", none⟩ (.lost host names)))
  | .sweep _ [] [] => .returned ()
  | .sweep _ [] ((host, entries) :: rest) => .waiting (.listing host entries rest)
  | .sweep host (name :: names) rest =>
      .waiting (.cascading [] (.exit ⟨host, name⟩ ⟨js "crashed", none⟩ (.sweep host names rest)))

/-- The entry that an exit of `ref` restarts. -/
def restartable (s : PodSupervisor) (ref : PodRef) (data : ExitData) : Option (ℕ × PodEntry) := do
  let e ← s.pods.get? (refKey ref)
  let entry ← s.entries[e]?
  if entry.state ≠ .dead ∧ data.reason ≠ js "drained" ∧ policyWantsRestart entry.restart.policy data = true then
    return (e, entry)
  else none

/-- `onExit` after the cascade. -/
def onExit (s : PodSupervisor) (ref : PodRef) (data : ExitData) (after : AfterExit) : PodSupervisor × SupervisorTask :=
  match s.restartable ref data with
  | some (e, _) =>
      match (s.setState e .restarting).scheduleRestart e data.reason false with
      | (s, some a) => ({ s with attempts := s.attempts ++ [a] }, .waiting (.scheduled e a.number after))
      | (s, none) => (s, .waiting (.gaveUp after))
  | none =>
      match s.pods.get? (refKey ref) with
      | some e => (s.setState e .dead, afterExit after)
      | none => (s, afterExit after)

/-- `drain` after the cascade. -/
def beginDrain (s : PodSupervisor) (ref : PodRef) : PodSupervisor × SupervisorTask :=
  let entry := s.pods.get? (refKey ref)
  (s.clearTimer? entry, .waiting (.draining entry))

def runningOn (s : PodSupervisor) (host : JsString) : List ℕ :=
  s.pods.values.filter fun e => s.entries[e]?.any fun entry => entry.ref.host = host ∧ entry.state = .running

/-- The hosts of the pods that run, in the order in which they are met. -/
def runningHosts (s : PodSupervisor) : List JsString :=
  (s.pods.values.filterMap fun e => (s.entries[e]?.filter fun entry => entry.state = .running).map
    fun entry => entry.ref.host).eraseDups

def nameOf (s : PodSupervisor) (e : ℕ) : Option JsString := s.entries[e]?.map fun entry => entry.ref.name

/-- `stop`. -/
def stop (s : PodSupervisor) : PodSupervisor :=
  if s.stopped then s
  else ({ s.pods.values.foldl clearTimer s with stopped := true }).note .stopped

/-- `unsupervise`; the field of the timer stays. -/
def unsupervise (s : PodSupervisor) (ref : PodRef) : PodSupervisor :=
  match s.pods.get? (refKey ref) with
  | none => s
  | some e => { s.stopTimer e with pods := s.pods.delete (refKey ref) }.note (.unsupervised e)

/-- The synchronous part of a call; events arrive until `stop`. -/
def startCall (s : PodSupervisor) : SupervisorCall → Option (PodSupervisor × SupervisorTask)
  | .supervise ref restart => some (s, if s.stopped then .returned () else .waiting (.supervising ref restart))
  | .unsupervise ref => some (s.unsupervise ref, .returned ())
  | .drain ref cascade => some (if cascade then (s, .waiting (.cascading [] (.drain ref))) else s.beginDrain ref)
  | .stop => some (s.stop, .returned ())
  | .exit ref data => if s.stopped then none else some (s, .waiting (.cascading [] (.exit ref data .done)))
  | .hostLost host =>
      if s.stopped then none
      else
        let affected := (s.runningOn host).filterMap s.nameOf
        some (s, if affected = [] then .returned () else .waiting (.losing host affected))
  | .reconcile =>
      if s.stopped then none
      else some (s, afterExit (.sweep [] [] (s.runningHosts.map fun host => (host, s.runningOn host))))
  | .attempt i event => (s.attempts[i]?.bind fun a => s.attempt i a event).map fun s => (s, .returned ())

/-- What follows an `await`. -/
def resumeCall (s : PodSupervisor) : SupervisorFrame → SupervisorEvent → Option (PodSupervisor × SupervisorTask)
  | .supervising ref restart, .settled =>
      some ({ s with
        entries := s.entries ++ [⟨ref, restart, 0, .running, none⟩]
        pods := s.pods.set (refKey ref) s.entries.length }, .returned ())
  | .supervising _ _, .failed => some (s, .returned ())
  | .cascading stack next, .child key => some (s, .waiting (.cascading (s.pods.get? key :: stack) next))
  | .cascading (child :: stack) next, .drainChild =>
      some (s.clearTimer? child, .waiting (.drainingChild stack child next))
  | .cascading [] (.drain ref), .settled => some (s.beginDrain ref)
  | .cascading [] (.exit ref data after), .settled => some (s.onExit ref data after)
  | .drainingChild stack child next, .settled => some (s.drained? child, .waiting (.cascading stack next))
  | .draining entry, .settled => some (s.drained? entry, .waiting .drained)
  | .drained, .settled => some (s, .returned ())
  | .scheduled e n after, .settled =>
      if ∃ a ∈ s.attempts, a.entry = e ∧ a.number = n ∧ (a.stage = .scheduling true ∨ a.stage = .scheduling false) then
        none
      else some (s, afterExit after)
  | .gaveUp after, .settled => some (s, afterExit after)
  | .losing host names, .settled => some (s, afterExit (.lost host names))
  | .listing host entries rest, .listed gone =>
      some (s, afterExit (.sweep host ((entries.filterMap s.nameOf).filter fun name => name ∈ gone) rest))
  | .listing host _ rest, .failed => some (s, afterExit (.sweep host [] rest))
  | _, _ => none

def program : Program PodSupervisor SupervisorCall SupervisorEvent SupervisorFrame Unit := ⟨startCall, resumeCall⟩

end PodSupervisor

abbrev SupervisorWorld : Type := World PodSupervisor SupervisorFrame Unit

def supervisorMachine (maxConcurrentRestarts : ℕ) : Machine SupervisorWorld (Action SupervisorCall SupervisorEvent) :=
  PodSupervisor.program.machine (.new maxConcurrentRestarts)

end BrowserMesh.Apps
