import BrowserMesh.Js.Encoding

/-! # Remote file access

* **Wire.**  Envelopes are handed over in process as they are, or cross a transport as JSON text: then a byte array
  arrives as an object with one numbered field for each byte.
* **Host.**  `FileHost.handleRequest` on a file system, and what it passes to `fs.write`.
* **Client.**  `FileClient`: one request and its response. -/

namespace BrowserMesh.Apps.PeerFiles
open Js

/-! ### Wire -/

/-- What is written to a file or read from it. -/
inductive FileData where
  | json (v : Json)
  | bytes (b : Bytes)

/-- What a file system method returns; `read` returns `{ data, size }`. -/
inductive FileResult where
  | json (v : Json)
  | file (data : FileData) (size : Json)

/-- How envelopes get to the other peer. -/
inductive Carrier where
  | inProcess
  | wire

/-- `JSON.parse(JSON.stringify(b))`. -/
def indexed (b : Bytes) : Json := .object (b.zipIdx.map fun x => (decimal x.2, .number (.ofNat x.1.val)))

namespace Carrier

/-- A value at the other end: `decodeWireData(encodeWireData(envelope))` on a wire. -/
def json : Carrier → Json → Json
  | .inProcess, v => v
  | .wire, v => v.copy

def data : Carrier → FileData → FileData
  | .inProcess, d => d
  | .wire, .json v => .json v.copy
  | .wire, .bytes b => .json (indexed b)

def result (c : Carrier) : FileResult → FileResult
  | .json v => .json (c.json v)
  | .file d size => .file (c.data d) (c.json size)

end Carrier

/-! ### Host -/

/-- `FILE_ACTIONS`. -/
inductive FileAction where
  | list | read | write | delete | stat
deriving DecidableEq

namespace FileAction

def name : FileAction → JsString
  | .list => js "list"
  | .read => js "read"
  | .write => js "write"
  | .delete => js "delete"
  | .stat => js "stat"

def all : List FileAction := [.list, .read, .write, .delete, .stat]

/-- `ACTION_CAP_ACTION`. -/
def capAction : FileAction → JsString
  | .list => js "read"
  | .read => js "read"
  | .stat => js "read"
  | .write => js "write"
  | .delete => js "delete"

/-- `Object.values(FILE_ACTIONS).includes(action)`. -/
def ofValue : Option Json → Option FileAction
  | some (.string s) => all.find? fun a => a.name = s
  | _ => none

end FileAction

/-- A file system on states `F`; a method may throw an error with a message. -/
structure FileSystem (F : Type) where
  list : F → JsString → Except JsString FileResult
  read : F → JsString → Except JsString FileResult
  write : F → JsString → FileData → Except JsString (F × Json)
  delete : F → JsString → Except JsString (F × Json)
  stat : F → JsString → Except JsString FileResult

structure FileHost (F : Type) where
  fs : FileSystem F
  maxFileSize : JsNumber
  /-- The capability check for a peer and a capability action; the reason of a refusal. -/
  checkAccess : JsString → JsString → Except (Option JsString) Unit

/-- The payload of a request. -/
structure FileRequest where
  action : Option Json
  path : Option Json
  data : Option FileData
  requestId : Option Json

inductive FileError where
  | unknownAction (action : Option Json)
  | badPath
  | notGranted (capAction fromPubKey : JsString) (reason : Option JsString)
  | dataRequired
  | tooLarge (size : Json) (maxFileSize : JsNumber)
  /-- What the file system threw, or the engine. -/
  | thrown (message : JsString)

/-- A response without `error` text counts as none. -/
def FileError.truthy : FileError → Bool
  | .thrown message => message ≠ []
  | _ => true

structure FileResponse where
  requestId : Json
  action : Json
  success : Bool
  result : Option FileResult
  error : Option FileError

/-- What handling a request leads to. -/
structure Handled (F : Type) where
  files : F
  response : FileResponse
  /-- The arguments of `fs.write`. -/
  passed : List (JsString × FileData)

/-- The text of a `TypeError`. -/
def typeError : FileError := .thrown (js "TypeError")

/-- `v || null`. -/
def orNull (v : Option Json) : Json := if v.any Json.truthy then v.getD .null else .null

/-- `v ?? null`. -/
def nullish (v : Option Json) : Json := v.getD .null

/-- `data.byteLength ?? data.length ?? 0`, and the number of encoded bytes of a string. -/
def reportedSize : FileData → Json
  | .bytes b => .number (.ofNat b.length)
  | .json (.string s) => .number (.ofNat (encodeUtf8 s).length)
  | .json (.array items) => .number (.ofNat items.length)
  | .json (.object fields) =>
      if nullish (assoc (js "byteLength") fields) matches .null then
        if nullish (assoc (js "length") fields) matches .null then .number 0
        else nullish (assoc (js "length") fields)
      else nullish (assoc (js "byteLength") fields)
  | .json _ => .number 0

/-- `result.success !== false`; `none` when `result` is `null`. -/
def succeeded : Json → Option Bool
  | .null => none
  | v => some (match v.field (js "success") with
    | some (.bool false) => false
    | _ => true)

section
variable {F : Type}

namespace FileHost
variable (host : FileHost F)

/-- The dispatch on an action other than `write`. -/
def dispatch (files : F) (path : JsString) (response : FileResponse) : FileAction → F × FileResponse
  | .list =>
      match host.fs.list files path with
      | .ok r => (files, { response with result := some r, success := true })
      | .error message => (files, { response with error := some (.thrown message) })
  | .read =>
      match host.fs.read files path with
      | .ok r => (files, { response with result := some r, success := true })
      | .error message => (files, { response with error := some (.thrown message) })
  | .stat =>
      match host.fs.stat files path with
      | .ok r => (files, { response with result := some r, success := true })
      | .error message => (files, { response with error := some (.thrown message) })
  | .delete =>
      match host.fs.delete files path with
      | .ok (files, r) => (files, { response with
          result := some (.json r)
          success := (succeeded r).getD false
          error := if (succeeded r).isNone then some typeError else none })
      | .error message => (files, { response with error := some (.thrown message) })
  | .write => (files, response)

/-- The `write` action. -/
def write (files : F) (path : JsString) (response : FileResponse) (data : Option FileData) : Handled F :=
  match data with
  | none => ⟨files, { response with error := some .dataRequired }, []⟩
  | some (.json .null) => ⟨files, { response with error := some .dataRequired }, []⟩
  | some data =>
      match (reportedSize data).toNumber with
      | none => ⟨files, { response with error := some typeError }, []⟩
      | some size =>
          if host.maxFileSize.lt size then
            ⟨files, { response with error := some (.tooLarge (reportedSize data) host.maxFileSize) }, []⟩
          else
            match host.fs.write files path data with
            | .error message => ⟨files, { response with error := some (.thrown message) }, [(path, data)]⟩
            | .ok (files, r) =>
                ⟨files, { response with
                  result := some (.json r)
                  success := (succeeded r).getD false
                  error := if (succeeded r).isNone then some typeError else none }, [(path, data)]⟩

/-- The capability check, and the action. -/
def perform (files : F) (fromPubKey path : JsString) (response : FileResponse) (data : Option FileData)
    (action : FileAction) : Handled F :=
  match host.checkAccess fromPubKey action.capAction with
  | .error reason => ⟨files, { response with error := some (.notGranted action.capAction fromPubKey reason) }, []⟩
  | .ok () =>
      if action = .write then host.write files path response data
      else
        let (files, response) := host.dispatch files path response action
        ⟨files, response, []⟩

/-- `handleRequest`, with the catch around it: an action whose text cannot be made throws. -/
def handleRequest (files : F) (fromPubKey : JsString) (payload : FileRequest) : Handled F :=
  let response : FileResponse := ⟨orNull payload.requestId, orNull payload.action, false, none, none⟩
  match FileAction.ofValue payload.action with
  | none =>
      if payload.action.all Json.printable then
        ⟨files, { response with error := some (.unknownAction payload.action) }, []⟩
      else ⟨files, ⟨nullish payload.requestId, nullish payload.action, false, none, some typeError⟩, []⟩
  | some action =>
      match payload.path with
      | some (.string path) =>
          if path = [] then ⟨files, { response with error := some .badPath }, []⟩
          else host.perform files fromPubKey path response payload.data action
      | _ => ⟨files, { response with error := some .badPath }, []⟩

end FileHost

/-! ### Client -/

inductive ClientError where
  /-- `FILE_REMOTE_ERROR`. -/
  | remote (error : FileError)
  /-- `FILE_TIMEOUT`: no response with the id of the request. -/
  | timedOut

def FileRequest.carried (c : Carrier) (r : FileRequest) : FileRequest :=
  ⟨r.action.map c.json, r.path.map c.json, r.data.map c.data, r.requestId.map c.json⟩

def FileResponse.carried (c : Carrier) (r : FileResponse) : FileResponse :=
  ⟨c.json r.requestId, c.json r.action, r.success, r.result.map c.result, r.error⟩

/-- `handleResponse`, for the request with this id to this peer. -/
def handleResponse (requestId : JsString) (response : FileResponse) : Except ClientError (Option FileResult) :=
  if Json.isString requestId (some response.requestId) then
    match response.error.filter FileError.truthy with
    | some error => .error (.remote error)
    | none => .ok response.result
  else .error .timedOut

/-- `#request`, up to the result of the response, with the files it leaves and what was passed to `fs.write`. -/
def request (host : FileHost F) (c : Carrier) (client requestId : JsString) (files : F) (action : FileAction)
    (path : JsString) (data : Option FileData) : Except ClientError (Option FileResult) × Handled F :=
  let payload : FileRequest := ⟨some (.string action.name), some (.string path), data, some (.string requestId)⟩
  let handled := host.handleRequest files client (payload.carried c)
  (handleResponse requestId (handled.response.carried c), handled)

end
end BrowserMesh.Apps.PeerFiles
