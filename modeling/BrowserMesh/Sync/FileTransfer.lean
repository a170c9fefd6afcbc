import BrowserMesh.Js.Text
import BrowserMesh.Js.Dict
import BrowserMesh.Js.Encoding
import BrowserMesh.Library.Async
import BrowserMesh.Library.Guards

/-! # File transfers

* **States.**  A transfer counts the bytes of the chunks it has recorded, each once for a file and CID.  The
  states are objects: a call that waits keeps the one it looked up, also when `acceptOffer` puts another one in
  its place.
* **Calls.**  `sendChunks` is a generator that waits for the CID of each chunk and, after each `yield`, for its
  consumer; `receiveChunk` waits for the CID of what it was given; all other calls return at once.
* **Messages.**  What one end has emitted reaches the other in any order, late, several times or never. -/

namespace BrowserMesh.Sync
open Js Guards Async Transition

/-- `TRANSFER_STATES`. -/
inductive TransferStatus where
  | offered | accepted | transferring | completed | failed | cancelled
  deriving DecidableEq

/-- Completed, failed or cancelled. -/
def TransferStatus.terminal : TransferStatus → Bool
  | .completed => true
  | .failed => true
  | .cancelled => true
  | _ => false

structure FileDescriptor where
  name : JsString
  size : ℕ
  deriving DecidableEq

structure TransferOffer where
  transferId : JsString
  files : List FileDescriptor
  totalSize : ℕ
  expires : ℕ
  deriving DecidableEq

/-- The sum of the file sizes, the default of `totalSize`. -/
def TransferOffer.sizeOf (files : List FileDescriptor) : ℕ := (files.map FileDescriptor.size).sum

/-- The constructor, whose `FileDescriptor`s throw without a name. -/
def TransferOffer.new (transferId : JsString) (files : List FileDescriptor) (totalSize : Option ℕ)
    (expires : ℕ) : Except JsString TransferOffer := do
  failIf (∃ file ∈ files, file.name = js "") (js "FileDescriptor requires a name")
  return ⟨transferId, files, totalSize.getD (sizeOf files), expires⟩

/-- `fromJSON`. -/
def TransferOffer.fromJSON (json : TransferOffer) : Except JsString TransferOffer :=
  new json.transferId json.files (some json.totalSize) json.expires

def TransferOffer.isExpired (offer : TransferOffer) (now : ℕ) : Prop := offer.expires ≤ now

instance (offer : TransferOffer) (now : ℕ) : Decidable (offer.isExpired now) :=
  inferInstanceAs (Decidable (offer.expires ≤ now))

/-! ### The state of a transfer -/

/-- An entry of `chunks`. -/
structure ChunkRecord where
  fileIndex : ℤ
  cid : JsString
  size : ℕ
  deriving DecidableEq

/-- What `fileChunks` holds of an entry. -/
def ChunkRecord.key (c : ChunkRecord) : ℤ × JsString := (c.fileIndex, c.cid)

structure TransferState where
  transferId : JsString
  status : TransferStatus
  totalSize : ℕ
  bytesTransferred : ℕ
  chunks : List ChunkRecord
  fileSizes : List ℕ
  deriving DecidableEq

namespace TransferState

def new (transferId : JsString) (totalSize : ℕ) (status : TransferStatus) (fileSizes : List ℕ) : TransferState :=
  ⟨transferId, status, totalSize, 0, [], fileSizes⟩

/-- The setter of `status`. -/
def setStatus (status : TransferStatus) (s : TransferState) : TransferState := { s with status }

/-- `addChunk`. -/
def addChunk (c : ChunkRecord) (s : TransferState) : TransferState :=
  let s := if s.status ≠ .transferring then s.setStatus .transferring else s
  if c.key ∈ s.chunks.map ChunkRecord.key then s
  else { s with bytesTransferred := s.bytesTransferred + c.size, chunks := s.chunks ++ [c] }

def isComplete (s : TransferState) : Prop := s.totalSize ≤ s.bytesTransferred

instance (s : TransferState) : Decidable s.isComplete :=
  inferInstanceAs (Decidable (s.totalSize ≤ s.bytesTransferred))

end TransferState

/-! ### The manager -/

inductive TransferDirection where
  | send | receive
  deriving DecidableEq

/-- The messages that `dispatch` reads. -/
inductive FileMessage where
  | offer (json : TransferOffer)
  | accept (transferId : JsString)
  | reject (transferId : JsString)
  | complete (transferId : JsString)
  | cancel (transferId : JsString)
  deriving DecidableEq

/-- The manager: `states` refers to `objects`, in the order in which they were constructed, and `sent` lists
what was emitted. -/
structure MeshFileTransfer where
  chunkSize : ℕ
  offers : JsMap JsString TransferOffer
  states : JsMap JsString ℕ
  objects : List TransferState
  directions : JsMap JsString TransferDirection
  sent : List FileMessage

namespace MeshFileTransfer

/-- The constructor. -/
def new (chunkSize : ℕ) : MeshFileTransfer := ⟨chunkSize, .empty, .empty, [], .empty, []⟩

/-- `getTransfer`. -/
def getTransfer (t : MeshFileTransfer) (id : JsString) : Option TransferState :=
  (t.states.get? id).bind fun ref => t.objects[ref]?

def statusOf (t : MeshFileTransfer) (id : JsString) : Option TransferStatus :=
  (t.getTransfer id).map TransferState.status

/-- `_emit`. -/
def emit (t : MeshFileTransfer) (message : FileMessage) : MeshFileTransfer :=
  { t with sent := t.sent ++ [message] }

def modify (t : MeshFileTransfer) (ref : ℕ) (f : TransferState → TransferState) : MeshFileTransfer :=
  { t with objects := t.objects.modify ref f }

/-- Write to the state of a transfer, if there is one. -/
def write (t : MeshFileTransfer) (id : JsString) (f : TransferState → TransferState) : MeshFileTransfer :=
  match t.states.get? id with
  | none => t
  | some ref => t.modify ref f

/-- What `createOffer` and `acceptOffer` note of an offer. -/
def register (t : MeshFileTransfer) (offer : TransferOffer) (direction : TransferDirection)
    (status : TransferStatus) : MeshFileTransfer :=
  { t with
    offers := t.offers.set offer.transferId offer
    directions := t.directions.set offer.transferId direction
    states := t.states.set offer.transferId t.objects.length
    objects := t.objects ++
      [.new offer.transferId offer.totalSize status (offer.files.map FileDescriptor.size)] }

/-- `createOffer`, under the id that is generated. -/
def createOffer (t : MeshFileTransfer) (transferId : JsString) (files : List FileDescriptor) (expires : ℕ) :
    Except JsString MeshFileTransfer := do
  let offer ← TransferOffer.new transferId files none expires
  return (t.register offer .send .offered).emit (.offer offer)

/-- `acceptOffer`. -/
def acceptOffer (t : MeshFileTransfer) (offer : TransferOffer) (now : ℕ) : Except JsString MeshFileTransfer := do
  let offer ← TransferOffer.fromJSON offer
  failIf (offer.isExpired now) (js "Transfer offer has expired")
  return (t.register offer .receive .accepted).emit (.accept offer.transferId)

/-- `rejectOffer`. -/
def rejectOffer (t : MeshFileTransfer) (id : JsString) : MeshFileTransfer :=
  let t := { t with offers := t.offers.delete id }
  (t.write id (.setStatus .cancelled)).emit (.reject id)

/-- `cancelTransfer`. -/
def cancelTransfer (t : MeshFileTransfer) (id : JsString) : MeshFileTransfer :=
  (t.write id fun s =>
    if s.status ≠ .completed ∧ s.status ≠ .failed ∧ s.status ≠ .cancelled then s.setStatus .cancelled
    else s).emit (.cancel id)

/-- `dispatch`; an offer that cannot be read throws. -/
def dispatch (t : MeshFileTransfer) : FileMessage → Except JsString MeshFileTransfer
  | .offer json => do
      let offer ← TransferOffer.fromJSON json
      return { t with offers := t.offers.set offer.transferId offer }
  | .accept id => .ok (t.write id (.setStatus .accepted))
  | .reject id =>
      let t := t.write id fun s => if s.status ≠ .cancelled then s.setStatus .cancelled else s
      .ok { t with offers := t.offers.delete id }
  | .complete id => .ok (t.write id (.setStatus .completed))
  | .cancel id =>
      .ok (t.write id fun s =>
        if s.status ≠ .completed ∧ s.status ≠ .cancelled then s.setStatus .cancelled else s)

/-- The end of `sendChunks` and of `receiveChunk`. -/
def finish (t : MeshFileTransfer) (id : JsString) (ref : ℕ) : MeshFileTransfer :=
  match t.objects[ref]? with
  | none => t
  | some s => if s.isComplete then (t.modify ref (.setStatus .completed)).emit (.complete id) else t

end MeshFileTransfer

/-! ### The chunks of the files -/

/-- Where the loops of `sendChunks` stand: at an offset in a file, with the files behind it. -/
structure ChunkPosition where
  fileIndex : ℕ
  offset : ℕ
  data : Bytes
  rest : List Bytes
  deriving DecidableEq

namespace ChunkPosition

/-- The next position in the files that are left at which there is a chunk. -/
def seek (fileIndex offset : ℕ) : List Bytes → Option ChunkPosition
  | [] => none
  | data :: rest => if offset < data.length then some ⟨fileIndex, offset, data, rest⟩ else seek (fileIndex + 1) 0 rest

/-- `data.subarray(offset, Math.min(offset + chunkSize, data.length))`. -/
def chunk (chunkSize : ℕ) (p : ChunkPosition) : Bytes := (p.data.drop p.offset).take chunkSize

/-- `offset += chunkSize`. -/
def next (chunkSize : ℕ) (p : ChunkPosition) : Option ChunkPosition :=
  seek p.fileIndex (p.offset + chunkSize) (p.data :: p.rest)

end ChunkPosition

/-- What `sendChunks` yields and `receiveChunk` is called with. -/
structure Chunk where
  fileIndex : ℤ
  cid : JsString
  data : Bytes
  deriving DecidableEq

/-- What `addChunk` is called with. -/
def Chunk.record (c : Chunk) : ChunkRecord := ⟨c.fileIndex, c.cid, c.data.length⟩

/-- A generator of `sendChunks`, with what it has yielded. -/
structure ChunkGenerator where
  transferId : JsString
  ref : ℕ
  fileData : List Bytes
  yields : List Chunk
  deriving DecidableEq

/-! ### Calls -/

inductive TransferCall where
  | createOffer (transferId : JsString) (files : List FileDescriptor) (expires : ℕ)
  | acceptOffer (offer : TransferOffer) (now : ℕ)
  | rejectOffer (id : JsString)
  | cancelTransfer (id : JsString)
  /-- The application marks a transfer that has not ended as failed. -/
  | fail (id : JsString)
  /-- The first `next` of the generator. -/
  | sendChunks (id : JsString) (fileData : List Bytes)
  | receiveChunk (id : JsString) (chunk : Chunk)
  | dispatch (message : FileMessage)
  deriving DecidableEq

/-- The CID is computed, or the consumer of the generator asks for the next chunk. -/
inductive TransferEvent where
  | computed | next
  deriving DecidableEq

/-- Where a call waits. -/
inductive TransferFrame where
  | hashing (g : ChunkGenerator) (p : ChunkPosition)
  | yielded (g : ChunkGenerator) (p : ChunkPosition)
  | verifying (id : JsString) (ref : ℕ) (chunk : Chunk)
  deriving DecidableEq

/-- A generator has ended, a chunk was received or was not the one its CID names. -/
inductive TransferResult where
  | done
  | sent (id : JsString) (fileData : List Bytes) (yields : List Chunk)
  | received (id : JsString) (chunk : Chunk)
  | invalid
  | thrown (error : JsString)
  deriving DecidableEq

namespace MeshFileTransfer

def settle (t : MeshFileTransfer) (outcome : Except JsString MeshFileTransfer) :
    MeshFileTransfer × Task TransferFrame TransferResult :=
  match outcome with
  | .ok t' => (t', .returned .done)
  | .error e => (t, .returned (.thrown e))

/-- The generator goes on to a chunk, or ends. -/
def goOn (t : MeshFileTransfer) (g : ChunkGenerator) :
    Option ChunkPosition → MeshFileTransfer × Task TransferFrame TransferResult
  | some p => (t, .waiting (.hashing g p))
  | none => (t.finish g.transferId g.ref, .returned (.sent g.transferId g.fileData g.yields))

/-- What `sendChunks` looks up, or the error it throws. -/
def openSend (t : MeshFileTransfer) (id : JsString) : Except JsString ℕ := do
  let _ ← required (js "Unknown transfer: " ++ id) (t.offers.get? id)
  required (js "No state for transfer: " ++ id) (t.states.get? id)

/-- `sendChunks` up to its first `await`. -/
def sendChunks (t : MeshFileTransfer) (id : JsString) (fileData : List Bytes) :
    MeshFileTransfer × Task TransferFrame TransferResult :=
  match t.openSend id with
  | .error e => (t, .returned (.thrown e))
  | .ok ref =>
      (t.modify ref (.setStatus .transferring)).goOn ⟨id, ref, fileData, []⟩ (ChunkPosition.seek 0 0 fileData)

/-- `sendChunks` from the CID of a chunk to its `yield`. -/
def yieldChunk (t : MeshFileTransfer) (g : ChunkGenerator) (p : ChunkPosition) (cid : JsString) :
    MeshFileTransfer × Task TransferFrame TransferResult :=
  let chunk : Chunk := ⟨p.fileIndex, cid, p.chunk t.chunkSize⟩
  (t.modify g.ref (.addChunk chunk.record), .waiting (.yielded { g with yields := g.yields ++ [chunk] } p))

/-- `receiveChunk` up to its `await`. -/
def receiveChunk (t : MeshFileTransfer) (id : JsString) (chunk : Chunk) :
    MeshFileTransfer × Task TransferFrame TransferResult :=
  match t.states.get? id with
  | none => (t, .returned (.thrown (js "Unknown transfer: " ++ id)))
  | some ref => (t, .waiting (.verifying id ref chunk))

/-- `receiveChunk` from its `await` on. -/
def verified (t : MeshFileTransfer) (id : JsString) (ref : ℕ) (chunk : Chunk) (valid : Bool) :
    MeshFileTransfer × Task TransferFrame TransferResult :=
  if valid then
    ((t.modify ref (.addChunk chunk.record)).finish id ref, .returned (.received id chunk))
  else (t, .returned .invalid)

end MeshFileTransfer

section computeCid
variable (computeCid : Bytes → JsString)

/-- The calls of one manager, over the hash function of the chunk store. -/
def transferProgram : Program MeshFileTransfer TransferCall TransferEvent TransferFrame TransferResult where
  start t call :=
    match call with
    | .createOffer transferId files expires => some (t.settle (t.createOffer transferId files expires))
    | .acceptOffer offer now => some (t.settle (t.acceptOffer offer now))
    | .rejectOffer id => some (t.settle (.ok (t.rejectOffer id)))
    | .cancelTransfer id => some (t.settle (.ok (t.cancelTransfer id)))
    | .fail id =>
        if (t.statusOf id).any TransferStatus.terminal then none
        else some (t.settle (.ok (t.write id (.setStatus .failed))))
    | .sendChunks id fileData => some (t.sendChunks id fileData)
    | .receiveChunk id chunk => some (t.receiveChunk id chunk)
    | .dispatch message => some (t.settle (t.dispatch message))
  resume t frame event :=
    match frame, event with
    | .hashing g p, .computed => some (t.yieldChunk g p (computeCid (p.chunk t.chunkSize)))
    | .yielded g p, .next => some (t.goOn g (p.next t.chunkSize))
    | .verifying id ref chunk, .computed => some (t.verified id ref chunk (computeCid chunk.data = chunk.cid))
    | _, _ => none

end computeCid

/-! ### Two ends -/

/-- A manager with the calls made on it. -/
abbrev TransferWorld : Type := World MeshFileTransfer TransferFrame TransferResult

/-- The two ends of a pair. -/
inductive TransferEnd where
  | left | right
  deriving DecidableEq

def TransferEnd.other : TransferEnd → TransferEnd
  | .left => .right
  | .right => .left

/-- A step of one end. -/
abbrev TransferAction : Type := TransferEnd × Async.Action TransferCall TransferEvent

namespace TransferPair

/-- A message comes from the other end. -/
def Deliverable (w : TransferEnd → TransferWorld) : TransferAction → Prop
  | (e, .start (.dispatch message)) => message ∈ (w e.other).shared.sent
  | _ => True

instance (w : TransferEnd → TransferWorld) : DecidablePred (Deliverable w)
  | (e, .start (.dispatch message)) => inferInstanceAs (Decidable (message ∈ (w e.other).shared.sent))
  | (_, .start (.createOffer _ _ _)) => instDecidableTrue
  | (_, .start (.acceptOffer _ _)) => instDecidableTrue
  | (_, .start (.rejectOffer _)) => instDecidableTrue
  | (_, .start (.cancelTransfer _)) => instDecidableTrue
  | (_, .start (.fail _)) => instDecidableTrue
  | (_, .start (.sendChunks _ _)) => instDecidableTrue
  | (_, .start (.receiveChunk _ _)) => instDecidableTrue
  | (_, .resume _ _) => instDecidableTrue

/-- Any call at either end, any waiting call that goes on, and any message that the other end has emitted. -/
def machine (computeCid : Bytes → JsString) (chunkSize : TransferEnd → ℕ) :
    Machine (TransferEnd → TransferWorld) TransferAction where
  init e := ⟨.new (chunkSize e), []⟩
  step w a :=
    if Deliverable w a then ((transferProgram computeCid).step (w a.1) a.2).map (Function.update w a.1) else none

end TransferPair
end BrowserMesh.Sync
