import BrowserMesh.Js.Text
import BrowserMesh.Js.Dict
import BrowserMesh.Js.Number
import BrowserMesh.Library.Guards
import BrowserMesh.Library.Link

/-! # Multiplexed streams

* **Streams.**  `write` spends one of `sendCredits` or queues, `grantCredits` adds to `recvCredits` and sends a
  window update, which adds to `sendCredits` of the other end and sends what is queued there.
* **Callbacks.**  `_receiveCredits` calls `onCredits` before it sends what is queued, and the dispatch of an end
  calls `onEnd` before it removes a closed stream.  What is left of them is `running`; whatever these callbacks call,
  as well as `onData`, `onStream` and `onSend`, are steps in between.
* **Record.**  Each end notes the writes that returned, its calls of `onData` and `onEnd`, and the credits that its
  streams started with. -/

namespace BrowserMesh.Transport
open Js Guards Link Transition

/-- The data of a frame; a string is written as its encoding. -/
abbrev Payload : Type := List (Fin 256)

/-- `STREAM_STATES`. -/
inductive StreamState where
  | idle | opened | halfClosedLocal | halfClosedRemote | closed
  deriving DecidableEq

def StreamState.text : StreamState → JsString
  | .idle => js "IDLE"
  | .opened => js "OPEN"
  | .halfClosedLocal => js "HALF_CLOSED_LOCAL"
  | .halfClosedRemote => js "HALF_CLOSED_REMOTE"
  | .closed => js "CLOSED"

/-- The options that are read. -/
structure StreamDefaults where
  initialCredits : JsNumber
  maxCredits : JsNumber
  maxStreamSize : ℕ
  maxConcurrentStreams : ℕ

def STREAM_DEFAULTS : StreamDefaults := ⟨.ofNat 8, .ofNat 64, 256 * 1024 * 1024, 16⟩

/-- What is sent for a stream. -/
inductive StreamBody where
  | opened (initialCredits : JsNumber)
  | data (bytes : Payload) (seq : ℕ)
  | ended (totalBytes : ℕ)
  | error (code message : JsString) (retryable : Bool)
  | windowUpdate (additionalCredits : JsNumber)
  deriving DecidableEq

/-! ### One stream -/

structure MeshStream where
  state : StreamState
  sendSeq : ℕ
  recvSeq : ℕ
  sendCredits : JsNumber
  recvCredits : JsNumber
  bytesSent : ℕ
  bytesReceived : ℕ
  framesSent : ℕ
  framesReceived : ℕ
  maxSize : ℕ
  sendQueue : List Payload
  deriving DecidableEq

namespace MeshStream

/-- The constructor. -/
def new (initialCredits : JsNumber) (maxSize : ℕ) : MeshStream :=
  ⟨.idle, 0, 0, initialCredits, initialCredits, 0, 0, 0, 0, maxSize, []⟩

/-- `_open`. -/
def markOpen (s : MeshStream) : MeshStream := { s with state := .opened }

/-- `write` and `_receiveCredits` send a frame. -/
def send (s : MeshStream) (bytes : Payload) : MeshStream × List StreamBody :=
  ({ s with
    sendCredits := s.sendCredits.sub (.ofNat 1)
    sendSeq := s.sendSeq + 1
    bytesSent := s.bytesSent + bytes.length
    framesSent := s.framesSent + 1 }, [.data bytes (s.sendSeq + 1)])

/-- `write`. -/
def write (s : MeshStream) (bytes : Payload) : Except JsString (MeshStream × List StreamBody) := do
  failIf (s.state ≠ .opened ∧ s.state ≠ .halfClosedRemote) (js "Cannot write in state " ++ s.state.text)
  failIf (s.maxSize < s.bytesSent + bytes.length)
    (js "Stream size limit exceeded (max " ++ decimal s.maxSize ++ js ")")
  return if JsNumber.lt 0 s.sendCredits then s.send bytes
    else ({ s with sendQueue := s.sendQueue ++ [bytes] }, [])

/-- `end`. -/
def endStream (s : MeshStream) : MeshStream × List StreamBody :=
  match s.state with
  | .closed => (s, [])
  | .halfClosedLocal => (s, [])
  | .halfClosedRemote => ({ s with state := .closed }, [.ended s.bytesSent])
  | .opened => ({ s with state := .halfClosedLocal }, [.ended s.bytesSent])
  | .idle => ({ s with state := .closed }, [.ended s.bytesSent])

/-- `cancel`; `none` for a closed stream. -/
def cancel (s : MeshStream) (reason : JsString) : Option (MeshStream × List StreamBody) :=
  if s.state = .closed then none
  else some ({ s with state := .closed, sendQueue := [] },
    if s.state = .idle then [] else
      [.error (js "CANCELLED") (if reason = js "" then js "Stream cancelled" else reason) false])

/-- `grantCredits`. -/
def grantCredits (s : MeshStream) (n : JsNumber) : Except JsString (MeshStream × List StreamBody) := do
  failIf (n.le 0 = true ∨ n.isFinite = false) (js "Credits must be positive")
  if s.state = .closed then
    return (s, [])
  else
    failIf (STREAM_DEFAULTS.maxCredits.lt (s.recvCredits.add n) = true) (js "Credits would exceed max (64)")
    return ({ s with recvCredits := s.recvCredits.add n }, [.windowUpdate n])

/-- `_receiveCredits` up to `onCredits`. -/
def receiveCredits (s : MeshStream) (n : JsNumber) : MeshStream :=
  let credits := s.sendCredits.add n
  { s with
    sendCredits := if STREAM_DEFAULTS.maxCredits.lt credits then STREAM_DEFAULTS.maxCredits else credits }

/-- One round of the loop of `_receiveCredits`. -/
def drain (s : MeshStream) : Option (MeshStream × List StreamBody) :=
  match s.sendQueue with
  | [] => none
  | bytes :: rest => if JsNumber.lt 0 s.sendCredits then some ({ s with sendQueue := rest }.send bytes) else none

/-- `_receiveData`; `none` for data that is dropped. -/
def receiveData (s : MeshStream) (bytes : Payload) (seq : ℕ) : Option MeshStream :=
  if s.state ≠ .opened ∧ s.state ≠ .halfClosedLocal then none
  else some { s with
    recvSeq := seq
    bytesReceived := s.bytesReceived + bytes.length
    framesReceived := s.framesReceived + 1 }

/-- `_receiveEnd`; `none` for a closed stream. -/
def receiveEnd (s : MeshStream) : Option MeshStream :=
  match s.state with
  | .closed => none
  | .halfClosedLocal => some { s with state := .closed }
  | .opened => some { s with state := .halfClosedRemote }
  | .halfClosedRemote => some { s with state := .closed }
  | .idle => some { s with state := .closed }

/-- `_receiveError`. -/
def receiveError (s : MeshStream) : MeshStream :=
  if s.state = .closed then s else { s with state := .closed, sendQueue := [] }

end MeshStream

/-! ### The multiplexer -/

structure StreamMessage where
  streamId : JsString
  body : StreamBody
  deriving DecidableEq

/-- The multiplexer: all streams that were constructed, and which of them were deleted. -/
structure StreamMultiplexer where
  defaults : StreamDefaults
  streams : JsMap JsString MeshStream
  deleted : List JsString

namespace StreamMultiplexer

/-- The constructor, with the defaults filled in. -/
def new (defaults : StreamDefaults) : StreamMultiplexer := ⟨defaults, .empty, []⟩

/-- `#streams.get`. -/
def getStream (m : StreamMultiplexer) (id : JsString) : Option MeshStream :=
  if id ∈ m.deleted then none else m.streams.get? id

/-- `activeCount`. -/
def activeCount (m : StreamMultiplexer) : ℕ :=
  (m.streams.entries.filter fun e => e.1 ∉ m.deleted ∧ e.2.state ≠ .closed).length

/-- `#streams.set` of a new stream. -/
def add (m : StreamMultiplexer) (id : JsString) (s : MeshStream) : StreamMultiplexer :=
  { m with streams := m.streams.set id s, deleted := m.deleted.filter fun id' => id' ≠ id }

def update (m : StreamMultiplexer) (id : JsString) (s : MeshStream) : StreamMultiplexer :=
  { m with streams := m.streams.set id s }

/-- `#streams.delete`. -/
def delete (m : StreamMultiplexer) (id : JsString) : StreamMultiplexer := { m with deleted := id :: m.deleted }

/-- The stream that `open` constructs. -/
def openStream (m : StreamMultiplexer) (initialCredits : Option JsNumber) (maxSize : Option ℕ) :
    Except JsString MeshStream := do
  failIf (m.defaults.maxConcurrentStreams ≤ m.activeCount)
    (js "Concurrent stream limit reached (" ++ decimal m.activeCount ++ js "/" ++
      decimal m.defaults.maxConcurrentStreams ++ js ")")
  return (MeshStream.new (initialCredits.getD m.defaults.initialCredits)
    (maxSize.getD m.defaults.maxStreamSize)).markOpen

end StreamMultiplexer

/-! ### One end -/

/-- What is left of a `_receiveCredits` or of the dispatch of an end when its callback has been called. -/
inductive StreamCallback where
  | onCredits (id : JsString)
  | onEnd (id : JsString)
  deriving DecidableEq

def StreamCallback.streamId : StreamCallback → JsString
  | .onCredits id => id
  | .onEnd id => id

/-- A call of `onData` or `onEnd`. -/
inductive StreamEvent where
  | data (bytes : Payload)
  | ended
  deriving DecidableEq

/-- A multiplexer with the callbacks that are running, and the record. -/
structure StreamEnd where
  mux : StreamMultiplexer
  running : List StreamCallback
  written : List (JsString × Payload)
  heard : List (JsString × StreamEvent)
  initial : JsMap JsString JsNumber

/-- `openStream` is `open` under the id that is generated. -/
inductive StreamAction where
  | openStream (id : JsString) (initialCredits : Option JsNumber) (maxSize : Option ℕ)
  | write (id : JsString) (bytes : Payload)
  | endStream (id : JsString)
  | cancel (id : JsString) (reason : JsString)
  | grantCredits (id : JsString) (n : JsNumber)
  /-- `close` of the multiplexer. -/
  | close (id : JsString)
  /-- One round of the loop of `closeAll`. -/
  | closeOne (id : JsString)
  /-- The callback has returned: one round of the loop, or the end of the dispatch. -/
  | goOn (callback : StreamCallback)
  /-- The callback throws. -/
  | fails (callback : StreamCallback)
  /-- A window update that `grantCredits` has not sent is put on the wire. -/
  | forge (id : JsString) (additionalCredits : JsNumber)
  deriving DecidableEq

def StreamAction.streamId : StreamAction → JsString
  | .openStream id _ _ => id
  | .write id _ => id
  | .endStream id => id
  | .cancel id _ => id
  | .grantCredits id _ => id
  | .close id => id
  | .closeOne id => id
  | .goOn callback => callback.streamId
  | .fails callback => callback.streamId
  | .forge id _ => id

namespace StreamEnd

def new (defaults : StreamDefaults) : StreamEnd := ⟨.new defaults, [], [], [], .empty⟩

def stream? (x : StreamEnd) (id : JsString) : Option MeshStream := x.mux.streams.get? id

/-- A stream object is written, and sends. -/
def update (x : StreamEnd) (id : JsString) (r : MeshStream × List StreamBody) : StreamEnd × List StreamMessage :=
  ({ x with mux := x.mux.update id r.1 }, r.2.map (StreamMessage.mk id))

/-- `#streams.delete`. -/
def delete (x : StreamEnd) (id : JsString) : StreamEnd := { x with mux := x.mux.delete id }

def start (x : StreamEnd) (id : JsString) (s : MeshStream) : StreamEnd :=
  { x with mux := x.mux.add id s, initial := x.initial.set id s.sendCredits }

/-- A call that throws changes nothing. -/
def settle {α : Type} (x : StreamEnd) (outcome : Except JsString α) (f : α → StreamEnd × List StreamMessage) :
    StreamEnd × List StreamMessage :=
  match outcome with
  | .error _ => (x, [])
  | .ok a => f a

def goOn (x : StreamEnd) (s : MeshStream) : StreamCallback → StreamEnd × List StreamMessage
  | .onCredits id =>
      match s.drain with
      | some r => x.update id r
      | none => ({ x with running := x.running.erase (.onCredits id) }, [])
  | .onEnd id =>
      let x := if s.state = .closed then x.delete id else x
      ({ x with running := x.running.erase (.onEnd id) }, [])

/-- `cancel`; the stream is deleted when the error is sent. -/
def cancel (x : StreamEnd) (id : JsString) (s : MeshStream) (reason : JsString) : StreamEnd × List StreamMessage :=
  match s.cancel reason with
  | none => (x, [])
  | some r => if s.state = .idle then x.update id r else ((x.update id r).1.delete id, (x.update id r).2)

/-- The calls, and the callbacks that return. -/
def act (x : StreamEnd) : StreamAction → Option (StreamEnd × List StreamMessage)
  | .openStream id initialCredits maxSize =>
      some (x.settle (x.mux.openStream initialCredits maxSize) fun s =>
        (x.start id s, [⟨id, .opened s.sendCredits⟩]))
  | .write id bytes => (x.stream? id).map fun s => x.settle (s.write bytes) fun r =>
      ({ (x.update id r).1 with written := x.written ++ [(id, bytes)] }, (x.update id r).2)
  | .endStream id => (x.stream? id).map fun s => x.update id s.endStream
  | .cancel id reason => (x.stream? id).map fun s => x.cancel id s reason
  | .grantCredits id n => (x.stream? id).map fun s => x.settle (s.grantCredits n) (x.update id)
  | .close id => (x.mux.getStream id).map fun s =>
      let r := x.update id s.endStream
      (if s.endStream.1.state = .closed then r.1.delete id else r.1, r.2)
  | .closeOne id => (x.mux.getStream id).map fun s =>
      let r := x.cancel id s (js "Multiplexer closing all streams")
      (r.1.delete id, r.2)
  | .goOn callback =>
      if callback ∈ x.running then (x.stream? callback.streamId).map fun s => x.goOn s callback else none
  | .fails callback =>
      if callback ∈ x.running then some ({ x with running := x.running.erase callback }, []) else none
  | .forge id additionalCredits => some (x, [⟨id, .windowUpdate additionalCredits⟩])

/-- `dispatch` of a STREAM_OPEN. -/
def accept (x : StreamEnd) (id : JsString) (initialCredits : JsNumber) : StreamEnd × List StreamMessage :=
  if (x.mux.getStream id).isSome then (x, [])
  else if x.mux.defaults.maxConcurrentStreams ≤ x.mux.activeCount then
    (x, [⟨id, .error (js "FLOW_CONTROL") (js "Too many concurrent streams") true⟩])
  else (x.start id (MeshStream.new initialCredits STREAM_DEFAULTS.maxStreamSize).markOpen, [])

/-- `dispatch` of another message to its stream. -/
def route (x : StreamEnd) (id : JsString) (s : MeshStream) : StreamBody → StreamEnd
  | .opened _ => x
  | .data bytes seq =>
      match s.receiveData bytes seq with
      | none => x
      | some s' => { (x.update id (s', [])).1 with heard := x.heard ++ [(id, .data bytes)] }
  | .ended _ =>
      match s.receiveEnd with
      | none => x.delete id
      | some s' =>
          { (x.update id (s', [])).1 with
            heard := x.heard ++ [(id, .ended)]
            running := .onEnd id :: x.running }
  | .error _ _ _ => (x.update id (s.receiveError, [])).1.delete id
  | .windowUpdate n =>
      { (x.update id (s.receiveCredits n, [])).1 with running := .onCredits id :: x.running }

/-- `dispatch`. -/
def dispatch (x : StreamEnd) (msg : StreamMessage) : StreamEnd × List StreamMessage :=
  match msg.body with
  | .opened initialCredits => x.accept msg.streamId initialCredits
  | body =>
      match x.mux.getStream msg.streamId with
      | none => (x, [⟨msg.streamId, .error (js "INTERNAL") (js "Unknown stream ID") false⟩])
      | some s => (x.route msg.streamId s body, [])

end StreamEnd

def streamParty : Party StreamEnd StreamAction StreamMessage := ⟨StreamEnd.act, StreamEnd.dispatch⟩

/-- Two multiplexers that are joined by a link. -/
abbrev StreamLink : Type := End → Node StreamEnd StreamMessage

def streamMachine (defaults : End → StreamDefaults) : Machine StreamLink (Link.Action StreamAction) :=
  streamParty.machine fun e => .new (defaults e)

end BrowserMesh.Transport
