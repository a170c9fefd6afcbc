import BrowserMesh.Apps.CloudStorage
import BrowserMesh.Js.Json
import BrowserMesh.Primitives.Registers

/-! # Objects of a bucket

* **Manifest.**  An object is a register of the manifest: its chunks with their IVs, its size and what was said of it.
  Local writes are stamped with a clock that only goes forward by itself; merged entries bring stamps of their own, and
  the greater stamp wins.
* **Commands.**  `put`, `get`, `head`, `delete` and `list` wait for the backend, for every chunk, for the manifest to be
  saved and for the replication hook.  The bucket key is there and stays.
* **Log.**  The writes that the manifest accepted, the latest first; a result carries the log from when its command read
  or wrote the manifest. -/

namespace BrowserMesh.Apps.CloudObjects
open Js Async Transition Primitives CloudStorageBackend

/-- What is put. -/
structure ObjectData where
  plaintext : CloudStorageBackend.Bytes
  contentType : Json
  metadata : Json

/-- A value of the manifest. -/
structure ObjectEntry where
  chunks : List ChunkEntry
  size : JsNumber
  contentType : Json
  metadata : Json
  version : JsNumber
  updatedAt : JsNumber

/-- A merged value may also be missing or `null`. -/
abbrev ManifestValue : Type := JsValue ObjectEntry

abbrev Manifest : Type := LWWMap ManifestValue

inductive Written where
  | put (data : ObjectData)
  | delete
  | merged

/-- A write that the manifest accepted. -/
structure Accepted where
  key : JsString
  written : Written

abbrev WriteLog : Type := List Accepted

structure Objects where
  manifest : Manifest
  chunkStore : JsMap JsString CloudStorageBackend.Bytes
  clock : JsNumber
  /-- A replication hook is set. -/
  hooked : Bool
  log : WriteLog

def new : Objects := ⟨.new, .empty, 0, false, []⟩

/-- The commands of the sockets that pass the checks of their fields, and `mergeManifestEntries`. -/
inductive ObjectOp where
  | put (key : NonEmptyString) (data : ObjectData)
  | get (key : NonEmptyString)
  | head (key : NonEmptyString)
  | delete (key : NonEmptyString)
  | list (keyPrefix : JsString)
  | merge (entries : JsObject (EntryJSON ManifestValue))

/-- The other commands only get an error. -/
inductive ObjectCall where
  | run (op : ObjectOp)
  | setReplicationHook (hooked : Bool)
  | putChunkRaw (cid : JsString) (bytes : CloudStorageBackend.Bytes)

inductive GetResponse where
  | found (plaintext : CloudStorageBackend.Bytes) (size : JsNumber) (contentType metadata : Json)
  | notFound
  | error

/-- Where a command waits. -/
inductive ObjectFrame where
  | awaitingReady (op : ObjectOp)
  | encrypting (key : JsString) (data : ObjectData) (offset : ℕ) (chunks : List ChunkEntry) (iv ciphertext : CloudStorageBackend.Bytes)
  | savingPut (key : JsString) (data : ObjectData) (log : WriteLog)
  | replicating (key : JsString) (data : ObjectData) (log : WriteLog)
  | savingDelete (key : JsString) (log : WriteLog)
  | savingMerge
  /-- The chunk at the head of `chunks` is read; `parts` is decrypted. -/
  | fetching (key : JsString) (log : WriteLog) (entry : ObjectEntry) (chunks : List ChunkEntry) (parts : CloudStorageBackend.Bytes)
  | hashing (cid : JsString) (bytes : CloudStorageBackend.Bytes)

/-- An awaited operation is done; what is drawn and the clock are used where the command goes on with them. -/
inductive ObjectEvent where
  | settled (random : CloudStorageBackend.Bytes) (now : JsNumber)
  /-- Whether the hook reports replicas, or `none` when it throws. -/
  | replicated (durable : Option Bool)
  | failed

inductive ObjectResult where
  /-- `{ stored: true, key, size }`, and the durability when there is a hook. -/
  | stored (key : JsString) (data : ObjectData) (durable : Option Bool) (log : WriteLog)
  | got (key : JsString) (log : WriteLog) (response : GetResponse)
  /-- `none` when the key is not found. -/
  | headed (key : JsString) (log : WriteLog) (entry : Option ObjectEntry)
  | deleted (key : JsString) (log : WriteLog)
  /-- The keys with their sizes and times; `none` for an error. -/
  | listed (keyPrefix : JsString) (log : WriteLog) (keys : Option (List (JsString × JsNumber × JsNumber)))
  | done
  | failed

abbrev ObjectTask : Type := Task ObjectFrame ObjectResult

/-! ### The manifest -/

/-- `#nextTimestamp`. -/
def nextTimestamp (s : Objects) (now : JsNumber) : JsNumber :=
  if s.clock.lt now then now else s.clock.add (.ofNat 1)

/-- The manifest accepts a write: its stamp is greater than that of the register of the key, if there is one. -/
def accepts (m : Manifest) (key : JsString) (timestamp : JsNumber) (nodeId : JsString) : Bool :=
  match m.entries.get? key with
  | none => true
  | some r => newer timestamp nodeId r.timestamp r.nodeId

/-- The value that is not `undefined` or `null`. -/
def present : Option ManifestValue → Option ObjectEntry
  | some (.of entry) => some entry
  | _ => none

/-- `(previous?.version || 0) + 1`. -/
def nextVersion : Option ObjectEntry → JsNumber
  | some previous => (if previous.version.truthy then previous.version else 0).add (.ofNat 1)
  | none => .ofNat 1

/-- The entry of each key under a prefix; `none` when one of them is `null`. -/
def listing (keyPrefix : JsString) : List (JsString × ManifestValue) → Option (List (JsString × JsNumber × JsNumber))
  | [] => some []
  | (key, v) :: rest =>
      if keyPrefix.isPrefixOf key then do
        let entry ← present (some v)
        let keys ← listing keyPrefix rest
        some ((key, entry.size, entry.updatedAt) :: keys)
      else listing keyPrefix rest

section
variable (crypto : StorageCrypto) (bucketKey : CloudStorageBackend.Bytes) (nodeId : JsString)

/-- A local write, with the stamp that the clock gives it. -/
def write (s : Objects) (key : JsString) (value : Entry ManifestValue) (written : Written) (now : JsNumber) : Objects :=
  { s with
    manifest := s.manifest.write key value (nextTimestamp s now) nodeId
    clock := nextTimestamp s now
    log := if accepts s.manifest key (nextTimestamp s now) nodeId then ⟨key, written⟩ :: s.log else s.log }

/-- `this.#manifest.merge(LWWMap.fromJSON(entries))`. -/
def mergeEntries (s : Objects) (entries : JsObject (EntryJSON ManifestValue)) : Objects :=
  let remote := LWWMap.fromJSON entries
  { s with
    manifest := s.manifest.merge remote
    log := (remote.entries.entries.filter fun e => accepts s.manifest e.1 e.2.timestamp e.2.nodeId).map
      (fun e => ⟨e.1, .merged⟩) ++ s.log }

/-- One round of `#encryptAndChunk`, up to its first `await`. -/
def encryptSlice (key : JsString) (data : ObjectData) (offset : ℕ) (chunks : List ChunkEntry) (iv : CloudStorageBackend.Bytes) :
    ObjectTask :=
  .waiting (.encrypting key data offset chunks iv
    (crypto.aesEncrypt ((data.plaintext.drop offset).take CHUNK_SIZE) bucketKey iv))

/-- One round of `#fetchAndDecrypt`, or its end. -/
def fetchNext (key : JsString) (log : WriteLog) (entry : ObjectEntry) (chunks : List ChunkEntry) (parts : CloudStorageBackend.Bytes) :
    ObjectTask :=
  match chunks with
  | [] => .returned (.got key log (.found parts entry.size entry.contentType entry.metadata))
  | _ :: _ => .waiting (.fetching key log entry chunks parts)

/-- What a command does once the backend is ready. -/
def perform (s : Objects) (random : CloudStorageBackend.Bytes) (now : JsNumber) : ObjectOp → Objects × ObjectTask
  | .put key data => (s, encryptSlice crypto bucketKey key data 0 [] random)
  | .get key =>
      match present (s.manifest.get key) with
      | none => (s, .returned (.got key s.log .notFound))
      | some entry => (s, fetchNext key s.log entry entry.chunks [])
  | .head key => (s, .returned (.headed key s.log (present (s.manifest.get key))))
  | .delete key =>
      let s := write nodeId s key .tombstone .delete now
      (s, .waiting (.savingDelete key s.log))
  | .list keyPrefix => (s, .returned (.listed keyPrefix s.log (listing keyPrefix s.manifest.liveEntries)))
  | .merge entries => (mergeEntries s entries, .waiting .savingMerge)

def startCall (s : Objects) : ObjectCall → Objects × ObjectTask
  | .run op => (s, .waiting (.awaitingReady op))
  | .setReplicationHook hooked => ({ s with hooked }, .returned .done)
  | .putChunkRaw cid bytes => (s, .waiting (.hashing cid bytes))

/-- The entry that `#opPut` makes. -/
def putEntry (s : Objects) (key : JsString) (data : ObjectData) (chunks : List ChunkEntry) (now : JsNumber) : ObjectEntry :=
  ⟨chunks, .ofNat data.plaintext.length, data.contentType, data.metadata,
    nextVersion (present (s.manifest.get key)), now⟩

/-- What follows an `await`. -/
def resumeCall (s : Objects) : ObjectFrame → ObjectEvent → Option (Objects × ObjectTask)
  | .awaitingReady op, .settled random now => some (perform crypto bucketKey nodeId s random now op)
  | .encrypting key data offset chunks iv ciphertext, .settled random now =>
      let cid := crypto.computeCid ciphertext
      let s := { s with chunkStore := s.chunkStore.set cid ciphertext }
      let chunks := chunks ++ [⟨cid, iv⟩]
      if offset + CHUNK_SIZE < data.plaintext.length then
        some (s, encryptSlice crypto bucketKey key data (offset + CHUNK_SIZE) chunks random)
      else
        let s := write nodeId s key (.live (.of (putEntry s key data chunks now))) (.put data) now
        some (s, .waiting (.savingPut key data s.log))
  | .savingPut key data log, .settled _ _ =>
      some (s, if s.hooked then .waiting (.replicating key data log) else .returned (.stored key data none log))
  | .replicating key data log, .replicated durable =>
      some (s, .returned (.stored key data (some (durable.getD false)) log))
  | .savingDelete key log, .settled _ _ => some (s, .returned (.deleted key log))
  | .savingMerge, .settled _ _ => some (s, .returned .done)
  | .fetching key log entry (chunk :: chunks) parts, .settled _ _ =>
      match s.chunkStore.get? chunk.cid with
      | none => some (s, .returned (.got key log .error))
      | some ciphertext =>
          match crypto.aesDecrypt ciphertext bucketKey chunk.iv with
          | none => some (s, .returned (.got key log .error))
          | some part => some (s, fetchNext key log entry chunks (parts ++ part))
  | .hashing cid bytes, .settled _ _ =>
      if crypto.computeCid bytes = cid then some ({ s with chunkStore := s.chunkStore.set cid bytes }, .returned .done)
      else some (s, .returned .failed)
  | .awaitingReady _, .failed => some (s, .returned .failed)
  | .encrypting _ _ _ _ _ _, .failed => some (s, .returned .failed)
  | .savingPut _ _ _, .failed => some (s, .returned .failed)
  | .savingDelete _ _, .failed => some (s, .returned .failed)
  | .savingMerge, .failed => some (s, .returned .failed)
  | .hashing _ _, .failed => some (s, .returned .failed)
  | _, _ => none

def program : Program Objects ObjectCall ObjectEvent ObjectFrame ObjectResult :=
  ⟨fun s call => some (startCall s call), resumeCall crypto bucketKey nodeId⟩

abbrev ObjectWorld : Type := World Objects ObjectFrame ObjectResult

def machine : Machine ObjectWorld (Action ObjectCall ObjectEvent) := (program crypto bucketKey nodeId).machine new

end
end BrowserMesh.Apps.CloudObjects
