import BrowserMesh.Js.Number
import BrowserMesh.Js.Dict
import BrowserMesh.Library.Transition

/-! # SWIM membership: one node

* **Members.**  Every pod the node has heard of has a state and an incarnation; `processUpdate` is the rule by
  which gossip changes them.
* **Probes.**  `pendingPings` and the timers are keyed by one sequence counter: direct pings, pings for
  another node, indirect probes and suspicions.  A timer fires at its time or later, and at once when its delay
  is too long for `setTimeout` (`timeoutDelay`); `clear` is what an answer with its number does.
* **Callbacks** are returned.  In every function the callback is the last thing that happens, or no callback
  of the repository is attached to it. -/

namespace BrowserMesh.Discovery
open Js Transition

/-- `SWIM_MEMBER_STATES`, and what else an update may carry. -/
inductive MemberState where
  | alive | suspect | dead | left
  | other (name : JsString)
  deriving DecidableEq

/-- `priority[state] ?? -1`; `none` for what the object inherits, which no number compares with. -/
def MemberState.priority : MemberState → Option ℤ
  | .alive => some 0
  | .suspect => some 1
  | .dead => some 2
  | .left => some 3
  | .other name => if name ∈ inheritedNames then none else some (-1)

/-- `(priority[state] ?? -1) > (priority[other] ?? -1)`. -/
def MemberState.outranks (state other : MemberState) : Bool :=
  match state.priority, other.priority with
  | some p, some q => decide (q < p)
  | _, _ => false

structure Member where
  state : MemberState
  incarnation : JsNumber
  suspectAt : Option ℕ
  deriving DecidableEq

structure MemberUpdate where
  podId : JsString
  state : MemberState
  incarnation : JsNumber
  deriving DecidableEq

/-- The wire messages; the sender's own id is not read and left out. -/
inductive SwimMessage where
  | ping (seq : ℕ) (updates : List MemberUpdate)
  | ack (seq : ℕ) (updates : List MemberUpdate)
  | pingReq (target : JsString) (seq : ℕ)
  | pingAck (target originalFrom : JsString) (seq : ℕ) (updates : List MemberUpdate)
  deriving DecidableEq

inductive SwimCallback where
  | onJoin (podId : JsString)
  | onSuspect (podId : JsString)
  | onDead (podId : JsString)
  | onLeave (podId : JsString)
  deriving DecidableEq

/-- What a timer does when it fires. -/
inductive TimerKind where
  /-- `#onPingTimeout`. -/
  | ping (targetId : JsString)
  /-- The target of a SWIM_PING_REQ did not respond. -/
  | relay (fromId target : JsString) (msgSeq : ℕ)
  /-- `#onIndirectTimeout`. -/
  | indirect (targetId : JsString)
  /-- `#onSuspectTimeout`. -/
  | suspect (targetId : JsString)
  deriving DecidableEq

structure SwimTimer where
  kind : TimerKind
  due : ℕ
  deriving DecidableEq

structure PendingPing where
  targetId : JsString
  indirectFor : Option (JsString × ℕ)
  deriving DecidableEq

structure SwimConfig where
  pingTimeoutMs : ℕ
  suspectTimeoutMs : ℕ
  indirectPingCount : ℕ
  deriving DecidableEq

structure SwimMembership where
  localId : JsString
  config : SwimConfig
  members : JsMap JsString Member
  localIncarnation : JsNumber
  pingQueue : List JsString
  pendingPings : JsMap ℕ PendingPing
  timers : JsMap ℕ SwimTimer
  updateBuffer : List MemberUpdate
  seqCounter : ℕ
  deriving DecidableEq

/-- A message and whom it goes to. -/
abbrev SwimSend := JsString × SwimMessage

/-! ### Fisher-Yates -/

section shuffle
variable {α : Type}

/-- `[copy[i], copy[j]] = [copy[j], copy[i]]`. -/
def swap (copy : List α) (i j : ℕ) : List α :=
  match copy[i]?, copy[j]? with
  | some a, some b => (copy.set i b).set j a
  | _, _ => copy

/-- The loop of `#pickRandom`, downwards from `i`, with the random numbers that it draws. -/
def shuffle (random : ℕ → ℕ) : ℕ → List α → List α
  | 0, copy => copy
  | i + 1, copy => shuffle random i (swap copy (i + 1) (random (i + 1) % (i + 2)))

/-- `#pickRandom`. -/
def pickRandom (random : ℕ → ℕ) (arr : List α) (count : ℕ) : List α :=
  (shuffle random (arr.length - 1) arr).take count

end shuffle

namespace SwimMembership

/-- The constructor. -/
def new (localId : JsString) (config : SwimConfig) : SwimMembership where
  localId := localId
  config := config
  members := JsMap.empty.set localId ⟨.alive, 0, none⟩
  localIncarnation := 0
  pingQueue := []
  pendingPings := JsMap.empty
  timers := JsMap.empty
  updateBuffer := []
  seqCounter := 0

/-! ### Updates -/

/-- `#enqueueUpdate`. -/
def enqueueUpdate (m : SwimMembership) (update : MemberUpdate) : SwimMembership :=
  let updateBuffer :=
    match m.updateBuffer.findIdx? fun u => u.podId = update.podId with
    | some idx => m.updateBuffer.set idx update
    | none => m.updateBuffer ++ [update]
  { m with updateBuffer := if updateBuffer.length > 10 then updateBuffer.tail else updateBuffer }

/-- The update buffer of `#drainUpdates`, which is left empty. -/
def drained (m : SwimMembership) : SwimMembership := { m with updateBuffer := [] }

def setMember (m : SwimMembership) (podId : JsString) (entry : Member) : SwimMembership :=
  { m with members := m.members.set podId entry }

def addMember (m : SwimMembership) (podId : JsString) : SwimMembership × Option SwimCallback :=
  if podId = m.localId then (m, none)
  else if m.members.has podId then (m, none)
  else ((m.setMember podId ⟨.alive, 0, none⟩).enqueueUpdate ⟨podId, .alive, 0⟩, some (.onJoin podId))

def removeMember (m : SwimMembership) (podId : JsString) : SwimMembership × Option SwimCallback :=
  match m.members.get? podId with
  | none => (m, none)
  | some entry =>
      ((m.setMember podId { entry with state := .left, suspectAt := none }).enqueueUpdate
        ⟨podId, .left, entry.incarnation⟩, some (.onLeave podId))

/-- `#fireStateCallbacks`. -/
def fireStateCallbacks (podId : JsString) (oldState newState : MemberState) : Option SwimCallback :=
  if oldState = newState then none
  else
    match newState with
    | .alive => some (.onJoin podId)
    | .suspect => some (.onSuspect podId)
    | .dead => some (.onDead podId)
    | .left => some (.onLeave podId)
    | .other _ => none

def suspectAt (now : ℕ) (state : MemberState) : Option ℕ := if state = .suspect then some now else none

/-- `#processUpdate`. -/
def processUpdate (m : SwimMembership) (now : ℕ) (update : MemberUpdate) :
    SwimMembership × Option SwimCallback :=
  let podId := update.podId
  let state := update.state
  let incarnation := update.incarnation
  if podId = m.localId then
    if state = .suspect ∨ state = .dead then
      let localIncarnation := (m.localIncarnation.mathMax incarnation).add (JsNumber.ofNat 1)
      ({ m with localIncarnation }.enqueueUpdate ⟨m.localId, .alive, localIncarnation⟩, none)
    else (m, none)
  else
    match m.members.get? podId with
    | none =>
        if state = .alive then (m.setMember podId ⟨state, incarnation, none⟩, some (.onJoin podId))
        else if state = .suspect then
          (m.setMember podId ⟨state, incarnation, some now⟩, some (.onSuspect podId))
        else (m, none)
    | some entry =>
        if entry.incarnation.lt incarnation then
          (m.setMember podId ⟨state, incarnation, suspectAt now state⟩,
            fireStateCallbacks podId entry.state state)
        else if incarnation.eq entry.incarnation && state.outranks entry.state then
          (m.setMember podId { entry with state, suspectAt := suspectAt now state },
            fireStateCallbacks podId entry.state state)
        else (m, none)

/-! ### Pings -/

/-- `aliveMembers`. -/
def aliveMembers (m : SwimMembership) : List JsString :=
  (m.members.entries.filter fun e => e.2.state = .alive).map Prod.fst

/-- How long `setTimeout(f, ms)` waits at least: a delay that does not fit into 31 bits is none. -/
def timeoutDelay (ms : ℕ) : ℕ := if ms < 2 ^ 31 then ms else 0

/-- Start a timer, and note what it waits for under its number. -/
def await (m : SwimMembership) (now after : ℕ) (kind : TimerKind) (pending : PendingPing) : SwimMembership :=
  { m with
    seqCounter := m.seqCounter + 1
    timers := m.timers.set (m.seqCounter + 1) ⟨kind, now + timeoutDelay after⟩
    pendingPings := m.pendingPings.set (m.seqCounter + 1) pending }

/-- `#refillPingQueue`. -/
def refillPingQueue (m : SwimMembership) (random : ℕ → ℕ) : SwimMembership :=
  let alive := m.aliveMembers.filter (· ≠ m.localId)
  { m with pingQueue := pickRandom random alive alive.length }

/-- `#pingRound`. -/
def pingRound (m : SwimMembership) (now : ℕ) (random : ℕ → ℕ) : SwimMembership × List SwimSend :=
  let m := if m.pingQueue.length = 0 then m.refillPingQueue random else m
  match m.pingQueue with
  | [] => (m, [])
  | targetId :: pingQueue =>
      let m := { m with pingQueue }
      match m.members.get? targetId with
      | none => (m, [])
      | some entry =>
          if entry.state = .dead ∨ entry.state = .left then (m, [])
          else
            (m.drained.await now m.config.pingTimeoutMs (.ping targetId) ⟨targetId, none⟩,
              [(targetId, .ping (m.seqCounter + 1) m.updateBuffer)])

/-! ### Messages -/

/-- Clear the timer of a number and forget what it waited for. -/
def clear (m : SwimMembership) (seq : ℕ) : SwimMembership :=
  if m.pendingPings.has seq then
    { m with timers := m.timers.delete seq, pendingPings := m.pendingPings.delete seq }
  else m

/-- What a handler does before it processes the updates. -/
def beforeUpdates (m : SwimMembership) : SwimMessage → SwimMembership
  | .ack seq _ => m.clear seq
  | .pingAck _ _ seq _ => m.clear seq
  | _ => m

end SwimMembership

/-- The updates that a message carries. -/
def SwimMessage.updates : SwimMessage → List MemberUpdate
  | .ping _ updates => updates
  | .ack _ updates => updates
  | .pingReq _ _ => []
  | .pingAck _ _ _ updates => updates

namespace SwimMembership

/-- The loop over the updates of a message. -/
def processUpdates (m : SwimMembership) (now : ℕ) (updates : List MemberUpdate) : SwimMembership :=
  updates.foldl (fun m update => (m.processUpdate now update).1) m

/-- What a handler does after the updates. -/
def afterUpdates (m : SwimMembership) (now : ℕ) (fromId : JsString) :
    SwimMessage → SwimMembership × List SwimSend
  | .ping seq _ => (m.drained, [(fromId, .ack seq m.updateBuffer)])
  | .pingReq target seq =>
      (m.drained.await now m.config.pingTimeoutMs (.relay fromId target seq) ⟨target, some (fromId, seq)⟩,
        [(target, .ping (m.seqCounter + 1) m.updateBuffer)])
  | _ => (m, [])

/-- `handleMessage`: `#handlePing`, `#handleAck`, `#handlePingReq` and `#handlePingAck`. -/
def handleMessage (m : SwimMembership) (now : ℕ) (fromId : JsString) (msg : SwimMessage) :
    SwimMembership × List SwimSend :=
  ((m.beforeUpdates msg).processUpdates now msg.updates).afterUpdates now fromId msg

/-! ### Timeouts -/

/-- `#onIndirectTimeout`. -/
def onIndirectTimeout (m : SwimMembership) (now : ℕ) (targetId : JsString) :
    SwimMembership × Option SwimCallback :=
  match m.members.get? targetId with
  | none => (m, none)
  | some entry =>
      if entry.state ≠ .alive then (m, none)
      else
        (((m.setMember targetId { entry with state := .suspect, suspectAt := some now }).enqueueUpdate
          ⟨targetId, .suspect, entry.incarnation⟩).await now m.config.suspectTimeoutMs (.suspect targetId)
            ⟨targetId, none⟩, some (.onSuspect targetId))

/-- `#onSuspectTimeout`. -/
def onSuspectTimeout (m : SwimMembership) (podId : JsString) : SwimMembership × Option SwimCallback :=
  match m.members.get? podId with
  | none => (m, none)
  | some entry =>
      if entry.state ≠ .suspect then (m, none)
      else
        ((m.setMember podId { entry with state := .dead, suspectAt := none }).enqueueUpdate
          ⟨podId, .dead, entry.incarnation⟩, some (.onDead podId))

/-- The members that a node asks to ping `targetId`. -/
def relays (m : SwimMembership) (random : ℕ → ℕ) (targetId : JsString) : List JsString :=
  pickRandom random (m.aliveMembers.filter fun id => id ≠ targetId ∧ id ≠ m.localId)
    m.config.indirectPingCount

/-- Forget what the number waited for. -/
def forget (m : SwimMembership) (seq : ℕ) : SwimMembership :=
  { m with pendingPings := m.pendingPings.delete seq }

/-- `#onPingTimeout`. -/
def onPingTimeout (m : SwimMembership) (now : ℕ) (random : ℕ → ℕ) (targetId : JsString) (seq : ℕ) :
    SwimMembership × List SwimSend × Option SwimCallback :=
  let m := m.forget seq
  let relays := m.relays random targetId
  if relays.length = 0 then
    let r := m.onIndirectTimeout now targetId
    (r.1, [], r.2)
  else
    (m.await now m.config.pingTimeoutMs (.indirect targetId) ⟨targetId, none⟩,
      relays.map fun relayId => (relayId, .pingReq targetId (m.seqCounter + 1)), none)

/-- The callback of a timer, which has been taken from the timers. -/
def onTimer (m : SwimMembership) (now : ℕ) (random : ℕ → ℕ) (seq : ℕ) :
    TimerKind → SwimMembership × List SwimSend × Option SwimCallback
  | .ping targetId => m.onPingTimeout now random targetId seq
  | .relay fromId target msgSeq => (m.forget seq, [(fromId, .pingAck target fromId msgSeq [])], none)
  | .indirect targetId =>
      let r := (m.forget seq).onIndirectTimeout now targetId
      (r.1, [], r.2)
  | .suspect targetId =>
      let r := m.onSuspectTimeout targetId
      (r.1, [], r.2)

/-- The timer of a number fires, if it is due. -/
def fire (m : SwimMembership) (now : ℕ) (random : ℕ → ℕ) (seq : ℕ) :
    Option (SwimMembership × List SwimSend × Option SwimCallback) :=
  match m.timers.get? seq with
  | none => none
  | some timer =>
      if timer.due ≤ now then
        some ({ m with timers := m.timers.delete seq }.onTimer now random seq timer.kind)
      else none

/-- `stop`. -/
def stop (m : SwimMembership) : SwimMembership :=
  { m with
    timers := m.pendingPings.keys.foldl JsMap.delete m.timers
    pendingPings := JsMap.empty }

/-- The state that a member is held in. -/
def getState (m : SwimMembership) (podId : JsString) : Option MemberState :=
  (m.members.get? podId).map Member.state

/-! ### What the functions do to the members -/

variable (m : SwimMembership)

@[simp] theorem members_enqueueUpdate (u : MemberUpdate) : (m.enqueueUpdate u).members = m.members := rfl

@[simp] theorem members_drained : m.drained.members = m.members := rfl

@[simp] theorem members_await (now after : ℕ) (kind : TimerKind) (pending : PendingPing) :
    (m.await now after kind pending).members = m.members := rfl

@[simp] theorem members_forget (seq : ℕ) : (m.forget seq).members = m.members := rfl

@[simp] theorem members_setMember (podId : JsString) (entry : Member) :
    (m.setMember podId entry).members = m.members.set podId entry := rfl

@[simp] theorem members_clear (seq : ℕ) : (m.clear seq).members = m.members := by
  unfold clear
  split_ifs <;> rfl

@[simp] theorem members_beforeUpdates (msg : SwimMessage) : (m.beforeUpdates msg).members = m.members := by
  cases msg with
  | ping seq updates => rfl
  | ack seq updates => exact members_clear m seq
  | pingReq target seq => rfl
  | pingAck target originalFrom seq updates => exact members_clear m seq

@[simp] theorem members_afterUpdates (now : ℕ) (fromId : JsString) (msg : SwimMessage) :
    (m.afterUpdates now fromId msg).1.members = m.members := by
  cases msg <;> rfl

@[simp] theorem members_pingRound (now : ℕ) (random : ℕ → ℕ) :
    (m.pingRound now random).1.members = m.members := by
  have hrefill : (if m.pingQueue.length = 0 then m.refillPingQueue random else m).members = m.members := by
    split_ifs <;> rfl
  rw [pingRound]
  generalize (if m.pingQueue.length = 0 then m.refillPingQueue random else m) = m' at hrefill
  cases m'.pingQueue with
  | nil => exact hrefill
  | cons targetId pingQueue =>
      dsimp only
      cases m'.members.get? targetId with
      | none => exact hrefill
      | some entry =>
          dsimp only
          split_ifs
          · exact hrefill
          · exact hrefill

/-! ### What an update does -/

/-- What an update makes of the entry of its pod. -/
def heard (now : ℕ) (update : MemberUpdate) : Option Member → Option Member
  | none =>
      if update.state = .alive ∨ update.state = .suspect then
        some ⟨update.state, update.incarnation, suspectAt now update.state⟩
      else none
  | some entry =>
      if entry.incarnation.lt update.incarnation then
        some ⟨update.state, update.incarnation, suspectAt now update.state⟩
      else if update.incarnation.eq entry.incarnation && update.state.outranks entry.state then
        some { entry with state := update.state, suspectAt := suspectAt now update.state }
      else some entry

/-- An update about another pod changes that pod's entry only. -/
theorem get?_processUpdate {now : ℕ} {update : MemberUpdate} (h : update.podId ≠ m.localId) (p : JsString) :
    (m.processUpdate now update).1.members.get? p =
      if p = update.podId then heard now update (m.members.get? p) else m.members.get? p := by
  rw [processUpdate]
  dsimp only
  rw [if_neg h]
  by_cases hp : p = update.podId
  · rw [if_pos hp, hp]
    cases hget : m.members.get? update.podId with
    | none =>
        dsimp only [heard]
        by_cases halive : update.state = .alive
        · rw [if_pos halive, if_pos (Or.inl halive)]
          simp [suspectAt, halive]
        · by_cases hsuspect : update.state = .suspect
          · rw [if_neg halive, if_pos hsuspect, if_pos (Or.inr hsuspect)]
            simp [suspectAt, hsuspect]
          · rw [if_neg halive, if_neg hsuspect, if_neg (not_or.mpr ⟨halive, hsuspect⟩)]
            exact hget
    | some entry =>
        dsimp only [heard]
        split_ifs
        · simp
        · simp
        · exact hget
  · rw [if_neg hp]
    cases m.members.get? update.podId with
    | none =>
        dsimp only
        split_ifs
        · simp [hp]
        · simp [hp]
        · rfl
    | some entry =>
        dsimp only
        split_ifs
        · simp [hp]
        · simp [hp]
        · rfl

/-- What the node hears about itself changes no entry. -/
theorem members_processUpdate_self (now : ℕ) {update : MemberUpdate} (h : update.podId = m.localId) :
    (m.processUpdate now update).1.members = m.members := by
  rw [processUpdate]
  dsimp only
  rw [if_pos h]
  split_ifs <;> rfl

theorem processUpdate_frame (now : ℕ) (update : MemberUpdate) :
    (m.processUpdate now update).1.localId = m.localId ∧
    (m.processUpdate now update).1.config = m.config ∧
    (m.processUpdate now update).1.timers = m.timers ∧
    (m.processUpdate now update).1.pendingPings = m.pendingPings ∧
    (m.processUpdate now update).1.seqCounter = m.seqCounter := by
  rw [processUpdate]
  dsimp only
  by_cases hself : update.podId = m.localId
  · rw [if_pos hself]
    split_ifs
    · exact ⟨rfl, rfl, rfl, rfl, rfl⟩
    · exact ⟨rfl, rfl, rfl, rfl, rfl⟩
  · rw [if_neg hself]
    cases m.members.get? update.podId with
    | none =>
        dsimp only
        split_ifs
        · exact ⟨rfl, rfl, rfl, rfl, rfl⟩
        · exact ⟨rfl, rfl, rfl, rfl, rfl⟩
        · exact ⟨rfl, rfl, rfl, rfl, rfl⟩
    | some entry =>
        dsimp only
        split_ifs
        · exact ⟨rfl, rfl, rfl, rfl, rfl⟩
        · exact ⟨rfl, rfl, rfl, rfl, rfl⟩
        · exact ⟨rfl, rfl, rfl, rfl, rfl⟩

theorem processUpdates_frame (now : ℕ) (updates : List MemberUpdate) :
    (m.processUpdates now updates).localId = m.localId ∧
    (m.processUpdates now updates).config = m.config ∧
    (m.processUpdates now updates).timers = m.timers ∧
    (m.processUpdates now updates).pendingPings = m.pendingPings ∧
    (m.processUpdates now updates).seqCounter = m.seqCounter := by
  induction updates generalizing m with
  | nil => exact ⟨rfl, rfl, rfl, rfl, rfl⟩
  | cons update updates ih =>
      obtain ⟨hid, hconfig, htimers, hpending, hseq⟩ := ih (m.processUpdate now update).1
      obtain ⟨hid', hconfig', htimers', hpending', hseq'⟩ := m.processUpdate_frame now update
      exact ⟨hid.trans hid', hconfig.trans hconfig', htimers.trans htimers', hpending.trans hpending',
        hseq.trans hseq'⟩

@[simp] theorem localId_beforeUpdates (msg : SwimMessage) : (m.beforeUpdates msg).localId = m.localId := by
  have hclear : ∀ seq, (m.clear seq).localId = m.localId := by
    intro seq
    unfold clear
    split_ifs <;> rfl
  cases msg with
  | ping seq updates => rfl
  | ack seq updates => exact hclear seq
  | pingReq target seq => rfl
  | pingAck target originalFrom seq updates => exact hclear seq

@[simp] theorem localId_handleMessage (now : ℕ) (fromId : JsString) (msg : SwimMessage) :
    (m.handleMessage now fromId msg).1.localId = m.localId := by
  have hafter : ∀ m' : SwimMembership, (m'.afterUpdates now fromId msg).1.localId = m'.localId := by
    intro m'
    cases msg <;> rfl
  rw [handleMessage, hafter, ((m.beforeUpdates msg).processUpdates_frame now msg.updates).1,
    localId_beforeUpdates]

end SwimMembership

/-! ### Runs of one node -/

/-- A node and the time of its clock and its timers. -/
structure SwimRun where
  node : SwimMembership
  now : ℕ
  deriving DecidableEq

inductive SwimEvent where
  | tick (ms : ℕ)
  | pingRound (random : ℕ → ℕ)
  | message (fromId : JsString) (msg : SwimMessage)
  | timeout (seq : ℕ) (random : ℕ → ℕ)
  | addMember (podId : JsString)
  | removeMember (podId : JsString)
  | stop

/-- A timeout is possible when its timer is due. -/
def SwimRun.step (w : SwimRun) : SwimEvent → Option SwimRun
  | .tick ms => some { w with now := w.now + ms }
  | .pingRound random => some { w with node := (w.node.pingRound w.now random).1 }
  | .message fromId msg => some { w with node := (w.node.handleMessage w.now fromId msg).1 }
  | .timeout seq random => (w.node.fire w.now random seq).map fun r => { w with node := r.1 }
  | .addMember podId => some { w with node := (w.node.addMember podId).1 }
  | .removeMember podId => some { w with node := (w.node.removeMember podId).1 }
  | .stop => some { w with node := w.node.stop }

/-- A node that any messages arrive at. -/
def SwimRun.machine (localId : JsString) (config : SwimConfig) : Machine SwimRun SwimEvent :=
  ⟨⟨SwimMembership.new localId config, 0⟩, SwimRun.step⟩

end BrowserMesh.Discovery
