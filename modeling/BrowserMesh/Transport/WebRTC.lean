import BrowserMesh.Js.Dict
import BrowserMesh.Library.Async

/-! # WebRTC connections

* **Stack.**  Peer connections and channels by number, with the handlers that are attached to them.  After `close()` of a
  peer connection none of its channels opens and it reports nothing more.
* **Connection.**  What `WebRTCPeerConnection` holds, its state, and the callbacks that it ran, the latest first.
* **Calls.**  Each goes on when the stack settles what it waits for; the events of the stack are calls of their own. -/

namespace BrowserMesh.Transport
open Js Async Transition

/-! ### Session ids -/

def lineFeed : CodeUnit := 10
def carriageReturn : CodeUnit := 13

/-- Where `^` matches with the flag `m`. -/
def IsLineTerminator (c : CodeUnit) : Prop := c = lineFeed ∨ c = carriageReturn ∨ c.val = 0x2028 ∨ c.val = 0x2029

instance (c : CodeUnit) : Decidable (IsLineTerminator c) := inferInstanceAs (Decidable (_ ∨ _ ∨ _ ∨ _))

/-- `\S+` and a space; what follows them. -/
def word (s : JsString) : Option (JsString × JsString) :=
  let w := s.takeWhile fun c => ¬ IsSpace c
  if w = [] then none
  else if (s.drop w.length).take 1 = js " " then some (w, s.drop (w.length + 1)) else none

/-- `o=\S+ (\S+) ` at the start of a text. -/
def originSession (s : JsString) : Option JsString :=
  if s.take 2 = js "o=" then (word (s.drop 2)).bind fun r => (word r.2).map Prod.fst else none

/-- The session id of the first line that has one, given whether the text starts a line. -/
def sessionFrom : Bool → JsString → Option JsString
  | _, [] => none
  | lineStart, c :: rest =>
      (if lineStart then originSession (c :: rest) else none).or (sessionFrom (decide (IsLineTerminator c)) rest)

/-- `sdpSessionId`. -/
def sdpSessionId (sdp : JsString) : Option JsString := sessionFrom true sdp

/-! ### The stack -/

/-- `RTCPeerConnection.connectionState`. -/
inductive PeerState where
  | new | connecting | connected | disconnected | failed | closed
  deriving DecidableEq

structure RtcPeer where
  connectionState : PeerState
  /-- `signalingState` is `stable`. -/
  stable : Bool
  /-- The `sdp` of the remote description, empty when there is none. -/
  remoteDescription : JsString
  /-- `onconnectionstatechange` is set. -/
  handled : Bool
  /-- `ondatachannel` is set. -/
  adopts : Bool
  /-- `close()` was called. -/
  released : Bool
  deriving DecidableEq

inductive ChannelKind where
  | control
  | bulk
  | extra (name : JsString)
  deriving DecidableEq

inductive ReadyState where
  | connecting | opened | closing | closed
  deriving DecidableEq

structure RtcChannel where
  peer : ℕ
  kind : ChannelKind
  readyState : ReadyState
  handled : Bool
  deriving DecidableEq

/-- `close()`, and the handlers are taken off on request. -/
def RtcPeer.drop (detach : Bool) (p : RtcPeer) : RtcPeer :=
  { p with handled := p.handled && !detach, adopts := p.adopts && !detach, released := true }

def RtcChannel.drop (detach : Bool) (c : RtcChannel) : RtcChannel :=
  { c with
    readyState := if c.readyState = .closed then .closed else .closing
    handled := c.handled && !detach }

def BULK_CHANNEL_LABEL : JsString := js "mesh-bulk"
def EXTRA_CHANNEL_PREFIX : JsString := js "mesh-x:"

/-- How `ondatachannel` tells the channels apart. -/
def kindOf (label : JsString) : ChannelKind :=
  if label = BULK_CHANNEL_LABEL then .bulk
  else if EXTRA_CHANNEL_PREFIX <+: label then .extra (label.drop EXTRA_CHANNEL_PREFIX.length)
  else .control

/-! ### The connection -/

inductive ConnectionState where
  | new | connecting | connected | failed | closed
  deriving DecidableEq

inductive RtcError where
  | peerFailed | peerDisconnected | peerClosed
  | channel (kind : ChannelKind)
  deriving DecidableEq

/-- The callbacks that were run. -/
inductive RtcNote where
  | stateChanged (state : ConnectionState)
  | closed
  | error (e : RtcError)
  deriving DecidableEq

structure WebRTCPeerConnection where
  peers : List RtcPeer
  channels : List RtcChannel
  pc : Option ℕ
  dataChannel : Option ℕ
  bulkChannel : Option ℕ
  extraChannels : JsMap JsString ℕ
  state : ConnectionState
  pendingRemoteCandidates : ℕ
  disconnectedTimer : Bool
  log : List RtcNote

structure Offer where
  sdp : JsString
  renegotiation : Option Bool
  deriving DecidableEq

inductive ChannelEvent where
  | opens | closes | errors
  deriving DecidableEq

inductive RtcCall where
  | createOffer
  | handleOffer (offer : Offer)
  | handleAnswer (sdp : JsString)
  | addIceCandidate
  | reconnect (force : Bool)
  | close
  | channel (i : ℕ) (event : ChannelEvent)
  | incoming (i : ℕ) (label : JsString)
  | connection (i : ℕ) (state : PeerState)
  | signaling (i : ℕ) (stable : Bool)
  | grace
  deriving DecidableEq

/-- What follows `#flushPendingCandidates`. -/
inductive AfterFlush where
  | answering (renegotiation : Bool)
  | answered
  deriving DecidableEq

/-- Where a call waits. -/
inductive RtcFrame where
  | creatingOffer
  | settingOffer
  | settingRemote (i : ℕ) (sdp : JsString) (next : AfterFlush)
  | flushing (left : ℕ) (next : AfterFlush)
  | flushed (next : AfterFlush)
  | creatingAnswer (renegotiation : Bool)
  | settingAnswer (renegotiation : Bool)
  | addingCandidate
  | reoffering
  | settingReoffer
  deriving DecidableEq

inductive RtcEvent where
  | settled | rejected
  deriving DecidableEq

inductive RtcResult where
  | offer (renegotiation : Bool)
  | answer (renegotiation : Bool)
  | candidate (accepted : Bool)
  | done
  | nothing
  | failed
  deriving DecidableEq

def MAX_PENDING_REMOTE_CANDIDATES : ℕ := 64

abbrev RtcTask : Type := Task RtcFrame RtcResult

namespace WebRTCPeerConnection

def fresh : WebRTCPeerConnection := ⟨[], [], none, none, none, .empty, .new, 0, false, []⟩

def note (s : WebRTCPeerConnection) (n : RtcNote) : WebRTCPeerConnection := { s with log := n :: s.log }

def modifyPeer (s : WebRTCPeerConnection) (i : ℕ) (f : RtcPeer → RtcPeer) : WebRTCPeerConnection :=
  { s with peers := s.peers.modify i f }

def modifyChannel (s : WebRTCPeerConnection) (i : ℕ) (f : RtcChannel → RtcChannel) : WebRTCPeerConnection :=
  { s with channels := s.channels.modify i f }

/-- The `connectionState` of `#pc`. -/
def peerState (s : WebRTCPeerConnection) : Option PeerState := do (← s.peers[← s.pc]?).connectionState

def channelAt (s : WebRTCPeerConnection) (i : Option ℕ) : Option RtcChannel := do s.channels[← i]?

/-- `#setState`. -/
def setState (s : WebRTCPeerConnection) (next : ConnectionState) : WebRTCPeerConnection :=
  if s.state = next then s
  else { s with
    state := next
    disconnectedTimer := if next = ConnectionState.closed then false else s.disconnectedTimer
    log := .stateChanged next :: s.log }

/-- `close()` of a channel, and its handlers are taken off on request. -/
def dropChannel (s : WebRTCPeerConnection) (detach : Bool) (i : ℕ) : WebRTCPeerConnection :=
  s.modifyChannel i (.drop detach)

/-- `close()` of the peer connection, and its handlers are taken off on request. -/
def dropPeer (s : WebRTCPeerConnection) (detach : Bool) (i : ℕ) : WebRTCPeerConnection :=
  s.modifyPeer i (.drop detach)

/-- Everything that is held is closed and let go. -/
def dropAll (s : WebRTCPeerConnection) (detach : Bool) : WebRTCPeerConnection :=
  let held := s.dataChannel.toList ++ s.bulkChannel.toList ++ s.extraChannels.values
  let dropped := s.pc.toList.foldl (dropPeer · detach) (held.foldl (dropChannel · detach) s)
  { dropped with pc := none, dataChannel := none, bulkChannel := none, extraChannels := .empty }

/-- `#releasePeerConnection`. -/
def releasePeerConnection (s : WebRTCPeerConnection) : WebRTCPeerConnection := s.dropAll true

/-- `close`. -/
def close (s : WebRTCPeerConnection) : WebRTCPeerConnection :=
  if s.state = .closed then s.dropAll false else ((s.dropAll false).setState .closed).note .closed

/-- `new RTCPeerConnection(…)` with its handlers. -/
def addPeer (s : WebRTCPeerConnection) (adopts : Bool) : WebRTCPeerConnection :=
  { s with peers := s.peers ++ [RtcPeer.mk .new true [] true adopts false], pc := some s.peers.length }

def addChannel (s : WebRTCPeerConnection) (peer : ℕ) (kind : ChannelKind) : WebRTCPeerConnection :=
  let i := s.channels.length
  let s := { s with channels := s.channels ++ [RtcChannel.mk peer kind .connecting true] }
  match kind with
  | .control => { s with dataChannel := some i }
  | .bulk => { s with bulkChannel := some i }
  | .extra name => { s with extraChannels := s.extraChannels.set name i }

/-- `#isRenegotiation`. -/
def isRenegotiation (s : WebRTCPeerConnection) (offer : Offer) : Bool :=
  match offer.renegotiation with
  | some renegotiation => renegotiation
  | none =>
      match s.pc.bind (s.peers[·]?) with
      | none => false
      | some p =>
          if p.remoteDescription = [] then false
          else
            let incoming := sdpSessionId offer.sdp
            incoming ≠ none ∧ incoming = sdpSessionId p.remoteDescription

/-- `isOpen`. -/
def isOpen (s : WebRTCPeerConnection) : Bool :=
  s.state = .connected ∧ (s.channelAt s.dataChannel).any fun c => c.readyState = .opened

/-- `#isHealthy`. -/
def isHealthy (s : WebRTCPeerConnection) : Bool := s.isOpen && (s.peerState = none ∨ s.peerState = some .connected)

/-- The rest of the loop of `#flushPendingCandidates`. -/
def flush (s : WebRTCPeerConnection) (left : ℕ) (next : AfterFlush) : RtcTask :=
  match left with
  | 0 => .waiting (.flushed next)
  | left + 1 => if s.pc = none then .waiting (.flushed next) else .waiting (.flushing left next)

/-- `onconnectionstatechange`; it looks at the current peer connection. -/
def onConnectionStateChange (s : WebRTCPeerConnection) : WebRTCPeerConnection :=
  match s.peerState with
  | some .failed =>
      let s := { s with disconnectedTimer := false }
      (if s.state ≠ .closed then s.setState .failed else s).note (.error .peerFailed)
  | some .disconnected => { s with disconnectedTimer := true }
  | some .closed =>
      if s.state ≠ .closed then ({ s with disconnectedTimer := false }.note (.error .peerClosed)).close
      else { s with disconnectedTimer := false }
  | _ => { s with disconnectedTimer := false }

/-- The reference to a channel of its own is let go. -/
def forget (s : WebRTCPeerConnection) (i : ℕ) : ChannelKind → WebRTCPeerConnection
  | .control => s
  | .bulk => if s.bulkChannel = some i then { s with bulkChannel := none } else s
  | .extra name =>
      if s.extraChannels.get? name = some i then { s with extraChannels := s.extraChannels.delete name } else s

/-- `onclose` of a channel. -/
def onChannelClose (s : WebRTCPeerConnection) (i : ℕ) (c : RtcChannel) : WebRTCPeerConnection :=
  if c.kind = .control then if s.state ≠ .closed then s.close else s else s.forget i c.kind

/-- `onerror` of a channel. -/
def onChannelError (s : WebRTCPeerConnection) (i : ℕ) (c : RtcChannel) : WebRTCPeerConnection :=
  let s := s.note (.error (.channel c.kind))
  if c.kind = .control then if s.state ≠ .closed then (s.setState .closed).note .closed else s else s.forget i c.kind

/-- What an event does to a channel; none opens when its peer connection was closed. -/
def channelEvent (s : WebRTCPeerConnection) (i : ℕ) (c : RtcChannel) : ChannelEvent → Option WebRTCPeerConnection
  | .opens =>
      if c.readyState = .connecting ∧ ∃ p ∈ s.peers[c.peer]?, p.released = false then
        let s := s.modifyChannel i fun c : RtcChannel => { c with readyState := .opened }
        some (if c.handled ∧ c.kind = .control then s.setState .connected else s)
      else none
  | .closes =>
      if c.readyState = .closed then none
      else
        let s := s.modifyChannel i fun c : RtcChannel => { c with readyState := .closed }
        some (if c.handled then s.onChannelClose i c else s)
  | .errors => if c.readyState = .closed then none else some (if c.handled then s.onChannelError i c else s)

/-- The synchronous part of a call. -/
def startCall (s : WebRTCPeerConnection) : RtcCall → Option (WebRTCPeerConnection × RtcTask)
  | .createOffer =>
      some (if s.state = .closed then (s, .returned .failed)
        else (((s.addPeer false).addChannel s.peers.length .control).addChannel s.peers.length .bulk,
          .waiting .creatingOffer))
  | .handleOffer offer =>
      some (if s.state = .closed ∨ offer.sdp = [] then (s, .returned .failed)
        else if s.isRenegotiation offer then
          match s.pc with
          | none => (s, .returned .failed)
          | some i => (s, .waiting (.settingRemote i offer.sdp (.answering true)))
        else (s.releasePeerConnection.addPeer true,
          .waiting (.settingRemote s.peers.length offer.sdp (.answering false))))
  | .handleAnswer sdp =>
      some (match s.pc with
        | none => (s, .returned .failed)
        | some i => if sdp = [] then (s, .returned .failed) else (s, .waiting (.settingRemote i sdp .answered)))
  | .addIceCandidate =>
      some (match s.pc with
        | none => (s, .returned .failed)
        | some i =>
            if (s.peers[i]?).all fun p => p.remoteDescription = [] then
              if MAX_PENDING_REMOTE_CANDIDATES ≤ s.pendingRemoteCandidates then (s, .returned (.candidate false))
              else ({ s with pendingRemoteCandidates := s.pendingRemoteCandidates + 1 }, .returned (.candidate true))
            else (s, .waiting .addingCandidate))
  | .reconnect force =>
      some (s, if s.state = .closed then .returned .failed
        else match s.pc.bind (s.peers[·]?) with
        | none => .returned .failed
        | some p =>
            if p.stable = false then .returned .nothing
            else if force = false ∧ s.isHealthy then .returned .nothing
            else .waiting .reoffering)
  | .close => some (s.close, .returned .done)
  | .channel i event => (s.channels[i]?.bind fun c => s.channelEvent i c event).map fun s => (s, .returned .done)
  | .incoming i label =>
      match s.peers[i]? with
      | some p =>
          if p.released then none else some (if p.adopts then s.addChannel i (kindOf label) else s, .returned .done)
      | none => none
  | .connection i state =>
      match s.peers[i]? with
      | some p =>
          if p.released then none
          else
            let s := s.modifyPeer i fun p : RtcPeer => { p with connectionState := state }
            some (if p.handled then s.onConnectionStateChange else s, .returned .done)
      | none => none
  | .signaling i stable =>
      match s.peers[i]? with
      | some p => if p.released then none else some (s.modifyPeer i fun p : RtcPeer => { p with stable }, .returned .done)
      | none => none
  | .grace =>
      if s.disconnectedTimer then
        let s := { s with disconnectedTimer := false }
        some (if s.state = .closed then s
          else if s.peerState = some .disconnected then s.note (.error .peerDisconnected) else s, .returned .done)
      else none

/-- What follows an `await`. -/
def resumeCall (s : WebRTCPeerConnection) : RtcFrame → RtcEvent → Option (WebRTCPeerConnection × RtcTask)
  | .creatingOffer, .settled => some (s, if s.pc = none then .returned .failed else .waiting .settingOffer)
  | .settingOffer, .settled => some (s.setState .connecting, .returned (.offer false))
  | .settingRemote i sdp next, .settled =>
      let s := s.modifyPeer i fun p : RtcPeer => { p with remoteDescription := sdp }
      some ({ s with pendingRemoteCandidates := 0 }, s.flush s.pendingRemoteCandidates next)
  | .flushing left next, _ => some (s, s.flush left next)
  | .flushed (.answering renegotiation), .settled =>
      some (s, if s.pc = none then .returned .failed else .waiting (.creatingAnswer renegotiation))
  | .flushed .answered, .settled => some (s, .returned .done)
  | .creatingAnswer renegotiation, .settled =>
      some (s, if s.pc = none then .returned .failed else .waiting (.settingAnswer renegotiation))
  | .settingAnswer true, .settled => some (s, .returned (.answer true))
  | .settingAnswer false, .settled => some (s.setState .connecting, .returned (.answer false))
  | .addingCandidate, .settled => some (s, .returned (.candidate true))
  | .addingCandidate, .rejected => some (s, .returned (.candidate false))
  | .reoffering, .settled => some (s, if s.pc = none then .returned .failed else .waiting .settingReoffer)
  | .settingReoffer, .settled => some (s, .returned (.offer true))
  | .flushed _, .rejected => none
  | _, .rejected => some (s, .returned .failed)

def program : Program WebRTCPeerConnection RtcCall RtcEvent RtcFrame RtcResult := ⟨startCall, resumeCall⟩

end WebRTCPeerConnection

abbrev RtcWorld : Type := World WebRTCPeerConnection RtcFrame RtcResult

def rtcMachine : Machine RtcWorld (Action RtcCall RtcEvent) := WebRTCPeerConnection.program.machine .fresh

end BrowserMesh.Transport
