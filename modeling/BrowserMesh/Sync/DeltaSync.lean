import BrowserMesh.Js.Dict

/-! # Delta synchronisation

* `DeltaEntry`: one change of a key by a pod (`origin`), with a sequence number, a timestamp
  and a snapshot of the log's clock.  The constructor refuses an empty key or origin and
  replaces a missing timestamp by the current time; the entries built keep this in their types.
* `DeltaLog`: the entries a pod knows, its own and the received ones, in order of arrival.
* `applyCausal`: entries are applied to the state in the order of their timestamps, equal
  ones in the order of their sequence numbers (`DeltaEntry.rank`).
* `SyncSession`: what a pod knows about a peer.  `remoteClock` only grows by acknowledged sends.
* `SyncCoordinator`: the log, the sessions and the live state.  Local changes and received batches
  are applied to the live state at once; a received batch is sorted within itself only.

Clocks are plain objects, so reading them may find an inherited name, which compares as not a number. -/

namespace BrowserMesh.Sync

open Js

abbrev PodId := NonEmptyString

variable {V : Type}

/-! ### DeltaEntry -/

/-- The operation of an entry with its value; a deletion has none. -/
inductive DeltaOp (V : Type) where
  | set (value : V)
  | delete
  | merge (value : V)
deriving DecidableEq

structure DeltaEntry (V : Type) where
  key : NonEmptyString
  op : DeltaOp V
  origin : PodId
  seq : ℕ
  /-- Milliseconds, never zero. -/
  timestamp : ℕ+
  vectorClock : JsObject ℕ
deriving DecidableEq

/-- No entry is for `__proto__`, assigning to which gives the state another prototype. -/
def PlainKeys {V : Type} (entries : List (DeltaEntry V)) : Prop := ∀ e ∈ entries, e.key.1 ≠ protoKey

instance {V : Type} (entries : List (DeltaEntry V)) : Decidable (PlainKeys entries) :=
  inferInstanceAs (Decidable (∀ e ∈ entries, _))

/-- The serialised form of an entry. -/
structure DeltaJSON (V : Type) where
  key : JsString
  op : DeltaOp V
  origin : JsString
  seq : ℕ
  timestamp : ℕ
  vectorClock : JsObject ℕ
deriving DecidableEq

/-- The errors of the constructor. -/
inductive DeltaError where
  | key
  | origin
deriving DecidableEq

def DeltaError.message : DeltaError → String
  | .key => "key is required and must be a non-empty string"
  | .origin => "origin is required and must be a non-empty string"

namespace DeltaEntry

/-- `new DeltaEntry(data)` at the time `now`; the timestamp `0` stands for a missing one, too. -/
def construct (data : DeltaJSON V) (now : ℕ+) : Except DeltaError (DeltaEntry V) :=
  if hk : data.key = [] then .error .key
  else if ho : data.origin = [] then .error .origin
  else .ok
    { key := ⟨data.key, hk⟩
      op := data.op
      origin := ⟨data.origin, ho⟩
      seq := data.seq
      timestamp := if ht : data.timestamp = 0 then now else ⟨data.timestamp, Nat.pos_of_ne_zero ht⟩
      vectorClock := data.vectorClock }

def toJSON (e : DeltaEntry V) : DeltaJSON V :=
  { key := e.key.1
    op := e.op
    origin := e.origin.1
    seq := e.seq
    timestamp := e.timestamp
    vectorClock := e.vectorClock }

def fromJSON (data : DeltaJSON V) (now : ℕ+) : Except DeltaError (DeltaEntry V) := construct data now

theorem fromJSON_toJSON (e : DeltaEntry V) (now : ℕ+) : fromJSON e.toJSON now = .ok e := by
  unfold fromJSON construct toJSON
  rw [dif_neg e.key.2, dif_neg e.origin.2]
  simp
  rfl

/-- The order of application: the timestamp, then the sequence number. -/
def rank (e : DeltaEntry V) : ℕ ×ₗ ℕ := toLex ((e.timestamp : ℕ), e.seq)

end DeltaEntry

/-- Read a list of entries; the first bad one throws. -/
def parseEntries (now : ℕ+) : List (DeltaJSON V) → Except DeltaError (List (DeltaEntry V))
  | [] => .ok []
  | data :: rest =>
      (DeltaEntry.fromJSON data now).bind fun e => (parseEntries now rest).map (e :: ·)

theorem parseEntries_map_toJSON (now : ℕ+) (es : List (DeltaEntry V)) :
    parseEntries now (es.map DeltaEntry.toJSON) = .ok es := by
  induction es with
  | nil => rfl
  | cons e es ih =>
      rw [List.map_cons, parseEntries, DeltaEntry.fromJSON_toJSON, ih]
      rfl

/-! ### Clocks -/

/-- `if (!vc[e.origin] || e.seq > vc[e.origin]) vc[e.origin] = e.seq`. -/
def bumpClock (vc : JsObject ℕ) (e : DeltaEntry V) : JsObject ℕ :=
  match vc.read e.origin with
  | .own known => if known = 0 ∨ known < e.seq then vc.assign e.origin e.seq else vc
  | .inherited => vc
  | .absent => vc.assign e.origin e.seq

/-- `e.seq > (vclock[e.origin] || 0)`. -/
def isUnknown (vclock : JsObject ℕ) (e : DeltaEntry V) : Bool :=
  match vclock.read e.origin with
  | .own known => decide (known < e.seq)
  | .inherited => false
  | .absent => decide (0 < e.seq)

/-! ### DeltaLog -/

structure DeltaLog (V : Type) where
  entries : List (DeltaEntry V)
  /-- Compact above this length; `0` for never. -/
  maxSize : ℕ

namespace DeltaLog

/-- `new DeltaLog()`. -/
def new : DeltaLog V := ⟨[], 0⟩

/-- Keep the latest entry of every key. -/
def compact (log : DeltaLog V) : DeltaLog V :=
  { log with
    entries := (log.entries.foldl (fun latest e => latest.set e.key e)
      (JsMap.empty : JsMap NonEmptyString (DeltaEntry V))).values }

def append (log : DeltaLog V) (e : DeltaEntry V) : DeltaLog V :=
  let log' : DeltaLog V := { log with entries := log.entries ++ [e] }
  if 0 < log'.maxSize ∧ log'.maxSize < log'.entries.length then log'.compact else log'

def sinceVectorClock (log : DeltaLog V) (vclock : JsObject ℕ) : List (DeltaEntry V) :=
  log.entries.filter (isUnknown vclock)

def getVectorClock (log : DeltaLog V) : JsObject ℕ := log.entries.foldl bumpClock JsObject.empty

theorem append_of_unbounded {log : DeltaLog V} (h : log.maxSize = 0) (e : DeltaEntry V) :
    log.append e = ⟨log.entries ++ [e], 0⟩ := by
  obtain ⟨entries, maxSize⟩ := log
  obtain rfl : maxSize = 0 := h
  simp [append]

theorem appendAll_of_unbounded {log : DeltaLog V} (h : log.maxSize = 0) (es : List (DeltaEntry V)) :
    es.foldl append log = ⟨log.entries ++ es, 0⟩ := by
  induction es generalizing log with
  | nil =>
      obtain ⟨entries, maxSize⟩ := log
      obtain rfl : maxSize = 0 := h
      simp
  | cons e es ih =>
      rw [List.foldl_cons, append_of_unbounded h, ih rfl]
      simp

end DeltaLog

/-! ### DeltaDecoder -/

/-- Values that `merge` can extend: `{ ...old, ...value }` when `old` is an object, else `value`. -/
class Spread (V : Type) where
  spread : V → V → V

variable [Spread V]

/-- The step of `apply`. -/
def applyEntry (state : JsObject V) (e : DeltaEntry V) : JsObject V :=
  match e.op with
  | .set value => state.assign e.key value
  | .delete => state.delete e.key
  | .merge value =>
      match state.read e.key with
      | .own old => state.assign e.key (Spread.spread old value)
      | _ => state.assign e.key value

def apply (state : JsObject V) (entries : List (DeltaEntry V)) : JsObject V :=
  entries.foldl applyEntry state

omit [Spread V] in
/-- The entries in the order of application. -/
def causalOrder (entries : List (DeltaEntry V)) : List (DeltaEntry V) :=
  entries.insertionSort (byRank DeltaEntry.rank)

def applyCausal (state : JsObject V) (entries : List (DeltaEntry V)) : JsObject V :=
  apply state (causalOrder entries)

/-! ### SyncSession -/

inductive SyncState where
  | idle
  | requesting
  | receiving
  | applying
  | complete
  | error
deriving DecidableEq

structure SyncStats where
  sent : ℕ
  received : ℕ
  rounds : ℕ

structure SyncSession (V : Type) where
  localPodId : PodId
  remotePodId : PodId
  state : SyncState
  localClock : JsObject ℕ
  remoteClock : JsObject ℕ
  pendingSend : List (DeltaEntry V)
  pendingReceive : List (DeltaEntry V)
  stats : SyncStats

namespace SyncSession

omit [Spread V] in
/-- `new SyncSession({ localPodId, remotePodId, localClock })`. -/
def new (localPodId remotePodId : PodId) (localClock : JsObject ℕ) : SyncSession V :=
  ⟨localPodId, remotePodId, .idle, localClock, JsObject.empty, [], [], ⟨0, 0, 0⟩⟩

omit [Spread V] in
def prepareSend (s : SyncSession V) (log : DeltaLog V) : SyncSession V × List (DeltaEntry V) :=
  let deltas := log.sinceVectorClock s.remoteClock
  ({ s with state := .requesting, pendingSend := deltas }, deltas)

omit [Spread V] in
def pendingSendCount (s : SyncSession V) : ℕ := s.pendingSend.length

omit [Spread V] in
def confirmSent (s : SyncSession V) (sent : List (DeltaEntry V)) : SyncSession V :=
  { s with
    stats := { s.stats with sent := s.stats.sent + sent.length }
    remoteClock := sent.foldl bumpClock s.remoteClock
    pendingSend := [] }

omit [Spread V] in
def receiveDeltas (s : SyncSession V) (entries : List (DeltaEntry V)) : SyncSession V :=
  { s with
    state := .receiving
    pendingReceive := entries
    stats := { s.stats with received := s.stats.received + entries.length } }

def applyReceived (s : SyncSession V) (state : JsObject V) : SyncSession V × JsObject V :=
  ({ s with
      localClock := s.pendingReceive.foldl bumpClock s.localClock
      pendingReceive := []
      stats := { s.stats with rounds := s.stats.rounds + 1 }
      state := .complete },
    applyCausal state s.pendingReceive)

end SyncSession

/-! ### SyncCoordinator -/

/-- The messages of the protocol. -/
inductive Message (V : Type) where
  | request
  | response (entries : List (DeltaJSON V))
  | ack (entries : List (DeltaJSON V))
deriving DecidableEq

/-- The entries a message carries. -/
def Message.entries {V : Type} : Message V → List (DeltaJSON V)
  | .request => []
  | .response entries => entries
  | .ack entries => entries

structure SyncCoordinator (V : Type) where
  localPodId : PodId
  log : DeltaLog V
  sessions : JsMap PodId (SyncSession V)
  state : JsObject V

namespace SyncCoordinator

omit [Spread V] in
/-- `new SyncCoordinator({ localPodId, initialState, sendFn })`. -/
def new (localPodId : PodId) (initialState : JsObject V) : SyncCoordinator V :=
  ⟨localPodId, DeltaLog.new, JsMap.empty, initialState⟩

omit [Spread V] in
/-- The entry of a local change: its sequence number comes from the module's counter. -/
def newEntry (c : SyncCoordinator V) (key : JsString) (op : DeltaOp V) (seq : ℕ) (now : ℕ+) :
    Except DeltaError (DeltaEntry V) :=
  DeltaEntry.construct
    { key, op, origin := c.localPodId.1, seq, timestamp := 0, vectorClock := c.log.getVectorClock } now

omit [Spread V] in
def set (c : SyncCoordinator V) (key : JsString) (value : V) (seq : ℕ) (now : ℕ+) :
    Except DeltaError (SyncCoordinator V) :=
  (c.newEntry key (.set value) seq now).map fun entry =>
    { c with log := c.log.append entry, state := c.state.assign key value }

omit [Spread V] in
def delete (c : SyncCoordinator V) (key : JsString) (seq : ℕ) (now : ℕ+) :
    Except DeltaError (SyncCoordinator V) :=
  (c.newEntry key .delete seq now).map fun entry =>
    { c with log := c.log.append entry, state := c.state.delete key }

omit [Spread V] in
/-- The session with a peer, a new one if there is none. -/
def getSession (c : SyncCoordinator V) (remotePodId : PodId) : SyncSession V :=
  (c.sessions.get? remotePodId).getD
    (SyncSession.new c.localPodId remotePodId c.log.getVectorClock)

omit [Spread V] in
/-- The session with a peer becomes `s`. -/
def putSession (c : SyncCoordinator V) (remotePodId : PodId) (s : SyncSession V) :
    SyncCoordinator V :=
  { c with sessions := c.sessions.set remotePodId s }

omit [Spread V] in
def prepareSyncTo (c : SyncCoordinator V) (remotePodId : PodId) :
    SyncCoordinator V × List (DeltaEntry V) :=
  let sent := (c.getSession remotePodId).prepareSend c.log
  (c.putSession remotePodId sent.1, sent.2)

def receiveFrom (c : SyncCoordinator V) (remotePodId : PodId) (entries : List (DeltaEntry V)) :
    SyncCoordinator V :=
  let received := ((c.getSession remotePodId).receiveDeltas entries).applyReceived c.state
  { c.putSession remotePodId received.1 with
    state := received.2
    log := entries.foldl DeltaLog.append c.log }

/-- `handleMessage(fromId, msg)`, and the messages it sends with their targets. -/
def handleMessage (c : SyncCoordinator V) (fromId : PodId) (now : ℕ+) :
    Message V → Except DeltaError (SyncCoordinator V × List (PodId × Message V))
  | .request =>
      let prepared := c.prepareSyncTo fromId
      .ok (prepared.1, [(fromId, .response (prepared.2.map DeltaEntry.toJSON))])
  | .response data =>
      (parseEntries now data).map fun entries =>
        (c.receiveFrom fromId entries, [(fromId, .ack data)])
  | .ack data =>
      let session := c.getSession fromId
      if session.pendingSendCount = 0 then .ok (c.putSession fromId session, [])
      else (parseEntries now data).map fun entries =>
        (c.putSession fromId (session.confirmSent entries), [])

omit [Spread V] in
/-- `requestSync(remotePodId)`. -/
def requestSync (remotePodId : PodId) : List (PodId × Message V) := [(remotePodId, .request)]

end SyncCoordinator
end BrowserMesh.Sync
