import BrowserMesh.Js.Dict
import BrowserMesh.Library.Async
import BrowserMesh.Transport.Sockets

/-! # The relay client

* **Client.**  What `MeshRelayClient` holds on the WebSocket path, the sockets and the searches that there were, and
  the callbacks that it ran, the latest first, with the calls of its user.
* **Calls.**  `connect()` waits until its socket opened or failed, `findPeers()` until its search is settled; the
  events of the sockets and of the timers are calls of their own. -/

namespace BrowserMesh.Transport
open Js Async Transition

inductive RelayState where
  | disconnected | connecting | connected
  deriving DecidableEq

inductive RelayError where
  | unavailable | socketFailed | closedBeforeOpen | reported
  /-- After `maxReconnectAttempts`. -/
  | givingUp
  deriving DecidableEq

inductive RelayNote where
  | connectCalled | disconnectCalled
  /-- An open socket closed that was not told to. -/
  | dropped
  | connected | disconnected
  | error (e : RelayError)
  /-- The promise of a search was resolved or rejected. -/
  | settled (search : ℕ)
  deriving DecidableEq

/-- How the promise of `#connectRealWs` was settled. -/
inductive Opening where
  | resolved
  | rejected (e : RelayError)
  deriving DecidableEq

structure RelaySocket where
  socket : Socket
  settled : Option Opening
  deriving DecidableEq

/-- The peers of an answer by their fingerprints; `none` when they are no list of peers. -/
inductive FindOutcome where
  | resolved (peers : Option (List JsString))
  | rejected
  deriving DecidableEq

/-- A search that waits for its answer, or was answered. -/
structure Find where
  requestId : JsString
  /-- The socket that it was sent on. -/
  socket : ℕ
  timer : Bool
  outcome : Option FindOutcome
  deriving DecidableEq

def Find.answer (outcome : FindOutcome) (f : Find) : Find :=
  { f with timer := false, outcome := f.outcome.or (some outcome) }

structure MeshRelayClient where
  fingerprint : JsString
  autoReconnect : Bool
  maxReconnectAttempts : ℕ
  sockets : List RelaySocket
  finds : List Find
  state : RelayState
  ws : Option ℕ
  userClosed : Bool
  reconnectAttempts : ℕ
  /-- The reconnect timers that wait. -/
  timers : ℕ
  pendingFinds : JsMap JsString ℕ
  knownPeerCount : ℕ
  log : List RelayNote

inductive RelayMessage where
  | findResponse (requestId : JsString) (peers : Option (List JsString))
  | error
  | other
  deriving DecidableEq

/-- `fails`: no socket can be made. -/
inductive RelayCall where
  | connect (fails : Bool)
  | disconnect
  | findPeers
  | socket (i : ℕ) (event : SocketEvent)
  | message (i : ℕ) (m : RelayMessage)
  | reconnectTimer (fails : Bool)
  | findTimer (search : ℕ)
  deriving DecidableEq

/-- Where a call waits. -/
inductive RelayFrame where
  | opening (i : ℕ)
  | failing
  | finding (search : ℕ)
  deriving DecidableEq

inductive RelayResult where
  | done | failed
  | peers (found : List JsString)
  deriving DecidableEq

abbrev RelayTask : Type := Task RelayFrame RelayResult

/-- `find_` and the number of the search. -/
def findId (n : ℕ) : JsString := js "find_" ++ decimal n

theorem findId_injective : Function.Injective findId :=
  fun _ _ h => decimal_injective (List.append_cancel_left h)

namespace MeshRelayClient

def fresh (fingerprint : JsString) (autoReconnect : Bool) (maxReconnectAttempts : ℕ) : MeshRelayClient :=
  ⟨fingerprint, autoReconnect, maxReconnectAttempts, [], [], .disconnected, none, false, 0, 0, .empty, 0, []⟩

def note (s : MeshRelayClient) (n : RelayNote) : MeshRelayClient := { s with log := n :: s.log }

def modifySocket (s : MeshRelayClient) (i : ℕ) (f : RelaySocket → RelaySocket) : MeshRelayClient :=
  { s with sockets := s.sockets.modify i f }

/-- The promise of a search is resolved or rejected, and its timer stopped. -/
def settle (s : MeshRelayClient) (outcome : FindOutcome) (n : ℕ) : MeshRelayClient :=
  { s with finds := s.finds.modify n (.answer outcome), log := .settled n :: s.log }

/-- `connect` up to its `await`. -/
def connect (s : MeshRelayClient) (fails : Bool) : MeshRelayClient × RelayTask :=
  if s.state = .connected then (s, .returned .done)
  else
    let s := { s with userClosed := false, state := .connecting }
    if fails then (s, .waiting .failing)
    else
      ({ s with sockets := s.sockets ++ [⟨.fresh, none⟩], ws := some s.sockets.length },
        .waiting (.opening s.sockets.length))

/-- The rest of `connect` after the socket opened. -/
def connected (s : MeshRelayClient) : MeshRelayClient :=
  { s with state := .connected, reconnectAttempts := 0 }.note .connected

/-- The `catch` of `connect`. -/
def connectFailed (s : MeshRelayClient) (e : RelayError) : MeshRelayClient :=
  { s with state := .disconnected }.note (.error e)

/-- `disconnect`. -/
def disconnect (s : MeshRelayClient) : MeshRelayClient :=
  if s.state = .disconnected then s
  else
    let s := { s with userClosed := true }
    let s := match s.ws with
      | some i => { s.modifySocket i fun r : RelaySocket => { r with socket := r.socket.close } with ws := none }
      | none => s
    let s := s.pendingFinds.values.foldl (settle · .rejected) s
    { s with pendingFinds := .empty, state := .disconnected, knownPeerCount := 0 }.note .disconnected

/-- `#scheduleReconnect`. -/
def scheduleReconnect (s : MeshRelayClient) : MeshRelayClient :=
  if s.maxReconnectAttempts ≤ s.reconnectAttempts then s.note (.error .givingUp)
  else { s with reconnectAttempts := s.reconnectAttempts + 1, timers := s.timers + 1 }

def reject (s : MeshRelayClient) (i : ℕ) (e : RelayError) : MeshRelayClient :=
  s.modifySocket i fun r : RelaySocket => { r with settled := some (.rejected e) }

/-- `onClose`; it does not look whether the socket is the current one. -/
def onClose (s : MeshRelayClient) (i : ℕ) (r : RelaySocket) : MeshRelayClient :=
  if r.settled = none then s.reject i .closedBeforeOpen
  else
    let closed := { s with state := .disconnected }.note .disconnected
    if s.userClosed = false ∧ s.autoReconnect = true then closed.scheduleReconnect else closed

/-- What the handlers of a socket do with an event. -/
def onSocket (s : MeshRelayClient) (i : ℕ) (r : RelaySocket) : SocketEvent → MeshRelayClient
  | .opens => s.modifySocket i fun r : RelaySocket => { r with settled := r.settled.or (some .resolved) }
  | .errors =>
      if r.settled = none then s.reject i .socketFailed
      else s.note (.error .socketFailed)
  | .closes => (if r.socket.Alive then s.note .dropped else s).onClose i r

/-- `#handleWsMessage`. -/
def handleWsMessage (s : MeshRelayClient) : RelayMessage → MeshRelayClient
  | .findResponse requestId peers =>
      match s.pendingFinds.get? requestId with
      | some n => { s with pendingFinds := s.pendingFinds.delete requestId }.settle (.resolved peers) n
      | none => s
  | .error => s.note (.error .reported)
  | .other => s

/-- `findPeers` up to its `await`. -/
def findPeers (s : MeshRelayClient) : MeshRelayClient × RelayTask :=
  if s.state ≠ .connected then (s, .returned .failed)
  else
    match s.ws with
    | some i =>
        let n := s.finds.length
        ({ s with
          finds := s.finds ++ [⟨findId (n + 1), i, true, none⟩]
          pendingFinds := s.pendingFinds.set (findId (n + 1)) n }, .waiting (.finding n))
    | none => (s, .returned (.peers []))

/-- The rest of `findPeers`. -/
def found (s : MeshRelayClient) : FindOutcome → MeshRelayClient × RelayTask
  | .resolved (some peers) =>
      let filtered := peers.filter (· ≠ s.fingerprint)
      ({ s with knownPeerCount := filtered.length }, .returned (.peers filtered))
  | .resolved none => (s, .returned .failed)
  | .rejected => (s, .returned .failed)

def startCall (s : MeshRelayClient) : RelayCall → Option (MeshRelayClient × RelayTask)
  | .connect fails => some ((s.note .connectCalled).connect fails)
  | .disconnect => some ((s.note .disconnectCalled).disconnect, .returned .done)
  | .findPeers => some s.findPeers
  | .socket i event => do
      let r ← s.sockets[i]?
      let socket ← r.socket.receive event
      return ((s.modifySocket i fun r : RelaySocket => { r with socket }).onSocket i r event, .returned .done)
  | .message i m => do
      let r ← s.sockets[i]?
      if r.socket.phase = .opened then some (s.handleWsMessage m, .returned .done) else none
  | .reconnectTimer fails =>
      if s.timers = 0 then none
      else
        let s := { s with timers := s.timers - 1 }
        some (if s.userClosed then (s, .returned .done) else s.connect fails)
  | .findTimer n => do
      let f ← s.finds[n]?
      if f.timer then
        some ({ s with pendingFinds := s.pendingFinds.delete f.requestId }.settle .rejected n, .returned .done)
      else none

def resumeCall (s : MeshRelayClient) : RelayFrame → Unit → Option (MeshRelayClient × RelayTask)
  | .opening i, _ => do
      let r ← s.sockets[i]?
      match ← r.settled with
      | .resolved => some (s.connected, .returned .done)
      | .rejected e => some (s.connectFailed e, .returned .failed)
  | .failing, _ => some (s.connectFailed .unavailable, .returned .failed)
  | .finding n, _ => do
      let f ← s.finds[n]?
      return s.found (← f.outcome)

end MeshRelayClient

def relayProgram : Program MeshRelayClient RelayCall Unit RelayFrame RelayResult :=
  ⟨MeshRelayClient.startCall, MeshRelayClient.resumeCall⟩

/-- A client with the calls made on it and the events that reached it. -/
def relayMachine (fingerprint : JsString) (autoReconnect : Bool) (maxReconnectAttempts : ℕ) :
    Machine (World MeshRelayClient RelayFrame RelayResult) (Action RelayCall Unit) :=
  relayProgram.machine (.fresh fingerprint autoReconnect maxReconnectAttempts)

end BrowserMesh.Transport
