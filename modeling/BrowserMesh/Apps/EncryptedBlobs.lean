import BrowserMesh.Apps.PeerFiles

/-! # Encrypted blobs on a remote peer

`EncryptedBlobStore` writes ciphertexts as byte arrays and reads them back as what the file client returns.  In process
that is the byte array (`survives_inProcess`); a wire turns it into an object, which the reader takes for the text
`[object Object]`.  That text is shorter than any ciphertext, so no blob survives the wire; and a host that looks for
`byteLength` and `length` takes objects without them for empty (`blobs_never_survive`). -/

namespace BrowserMesh.Apps.PeerFiles
open Js

/-! ### The store -/

/-- AES-256-GCM, SHA-256 and base64. -/
structure BlobCrypto where
  /-- The ciphertext with the tag, from data, key and IV. -/
  aesEncrypt : Bytes → Bytes → Bytes → Bytes
  aesDecrypt : Bytes → Bytes → Bytes → Option Bytes
  computeCid : Bytes → JsString
  toBase64 : Bytes → JsString
  fromBase64 : JsString → Bytes

inductive BlobData where
  | bytes (b : Bytes)
  | text (s : JsString)

def BlobData.toBytes : BlobData → Bytes
  | .bytes b => b
  | .text s => encodeUtf8 s

inductive BlobError where
  | badPeer
  | badCid
  | files (error : ClientError)
  /-- The response has no `data` that has a text. -/
  | typeError
  | cidMismatch (expected actual : JsString)
  | decryption

structure StoredBlob where
  cid : JsString
  key : JsString
  iv : JsString
  size : ℕ

def blobPath (cid : JsString) : JsString := js ".encrypted-blobs/" ++ cid

section
variable (crypto : BlobCrypto) (numberText : JsNumber → JsString) {F : Type} (host : FileHost F) (c : Carrier)
  (client : JsString)

/-- `store`, with the key and the IV it draws and the id of its request. -/
def store (files : F) (requestId : NonEmptyString) (peerId : JsString) (data : BlobData) (key iv : Bytes) :
    Except BlobError StoredBlob × F :=
  if peerId = [] then (.error .badPeer, files)
  else
    let ciphertext := crypto.aesEncrypt data.toBytes key iv
    let cid := crypto.computeCid ciphertext
    let (response, handled) := request host c client requestId files .write (blobPath cid) (some (.bytes ciphertext))
    match response with
    | .error error => (.error (.files error), handled.files)
    | .ok _ => (.ok ⟨cid, crypto.toBase64 key, crypto.toBase64 iv, data.toBytes.length⟩, handled.files)

/-- `new TextEncoder().encode(v)`. -/
def encodeText (v : Json) : Except BlobError Bytes :=
  match v.toText numberText with
  | some t => .ok (encodeUtf8 t)
  | none => .error .typeError

/-- `result.data`, as bytes. -/
def dataBytes : Option FileResult → Except BlobError Bytes
  | none => .error .typeError
  | some (.file (.bytes b) _) => .ok b
  | some (.file (.json v) _) => encodeText numberText v
  | some (.json .null) => .error .typeError
  | some (.json v) => ((v.field (js "data")).map (encodeText numberText)).getD (.ok [])

/-- What `retrieve` and `verify` read. -/
def readCiphertext (files : F) (requestId : NonEmptyString) (cid : JsString) : Except BlobError Bytes :=
  match (request host c client requestId files .read (blobPath cid) none).1 with
  | .error error => .error (.files error)
  | .ok result => dataBytes numberText result

def retrieve (files : F) (requestId : NonEmptyString) (peerId cid key iv : JsString) : Except BlobError Bytes :=
  if peerId = [] then .error .badPeer
  else if cid = [] then .error .badCid
  else
    match readCiphertext numberText host c client files requestId cid with
    | .error error => .error error
    | .ok ciphertext =>
        if crypto.computeCid ciphertext ≠ cid then .error (.cidMismatch cid (crypto.computeCid ciphertext))
        else
          match crypto.aesDecrypt ciphertext (crypto.fromBase64 key) (crypto.fromBase64 iv) with
          | some plaintext => .ok plaintext
          | none => .error .decryption

/-- `verify`: whether the blob is valid, and its size. -/
def verify (files : F) (requestId : NonEmptyString) (peerId cid : JsString) : Except BlobError (Bool × ℕ) :=
  if cid = [] then .error .badCid
  else if peerId = [] then .error .badPeer
  else
    match readCiphertext numberText host c client files requestId cid with
    | .error error => .error error
    | .ok ciphertext => .ok (decide (crypto.computeCid ciphertext = cid), ciphertext.length)

local instance neZero_requests : NeZero 3 := ⟨three_ne_zero⟩

/-- The data is stored, read back as it was, and reported as valid. -/
def Survives (files : F) (ids : Fin 3 → NonEmptyString) (peerId : JsString) (data : BlobData) (key iv : Bytes) : Prop :=
  ∃ blob files' size, store crypto host c client files (ids 0) peerId data key iv = (.ok blob, files') ∧
    retrieve crypto numberText host c client files' (ids 1) peerId blob.cid blob.key blob.iv = .ok data.toBytes ∧
    verify crypto numberText host c client files' (ids 2) peerId blob.cid = .ok (true, size)

end

/-! ### Hypotheses on the surroundings -/

/-- A file system that keeps what it accepts, and says why it does not accept something. -/
structure Faithful {F : Type} (fs : FileSystem F) : Prop where
  kept : ∀ files path data files' r, fs.write files path data = .ok (files', r) →
    ∃ size, fs.read files' path = .ok (.file data size)
  refused : ∀ files path data message, fs.write files path data = .error message → message ≠ []

/-- Ciphertexts carry a tag of 16 bytes, and no two byte arrays have the same CID. -/
structure BlobCrypto.Sound (crypto : BlobCrypto) : Prop where
  length : ∀ data key iv, (crypto.aesEncrypt data key iv).length = data.length + 16
  cid : Function.Injective crypto.computeCid

/-- Decryption inverts encryption, and base64 is read back. -/
structure BlobCrypto.Inverts (crypto : BlobCrypto) : Prop where
  decrypt : ∀ data key iv, crypto.aesDecrypt (crypto.aesEncrypt data key iv) key iv = some data
  base64 : ∀ b, crypto.fromBase64 (crypto.toBase64 b) = b
  cid : ∀ b, crypto.computeCid b ≠ []

/-! ### The host -/

variable {F : Type} {host : FileHost F} {c : Carrier} {client : JsString} {files : F}

theorem ofValue_name (a : FileAction) : FileAction.ofValue (some (.string a.name)) = some a := by
  cases a <;> decide

theorem ofValue_eq_write {action : Option Json} (h : FileAction.ofValue action = some .write) :
    action = some (.string (js "write")) := by
  unfold FileAction.ofValue at h
  split at h
  · have hname := List.find?_some h
    exact congrArg (some ∘ Json.string) (of_decide_eq_true hname).symm
  · cases h

@[simp] theorem json_string (c : Carrier) (s : JsString) : c.json (.string s) = .string s := by
  cases c <;> rfl

theorem blobPath_ne_nil (cid : JsString) : blobPath cid ≠ [] := by
  intro h
  exact absurd (List.append_eq_nil_iff.mp h).1 (by decide)

variable {payload : FileRequest}

theorem handleRequest_of_action {action : FileAction} {path : JsString}
    (haction : payload.action = some (.string action.name)) (hpath : payload.path = some (.string path))
    (hne : path ≠ []) :
    host.handleRequest files client payload = host.perform files client path
      ⟨orNull payload.requestId, orNull payload.action, false, none, none⟩ payload.data action := by
  simp only [FileHost.handleRequest]
  rw [haction, ofValue_name, hpath]
  exact if_neg hne

/-- What `write` passes to `fs.write`. -/
theorem mem_passed_write {path : JsString} {response : FileResponse} {data : Option FileData} {p : JsString × FileData} :
    p ∈ (host.write files path response data).passed ↔
      p.1 = path ∧ data = some p.2 ∧ p.2 ≠ .json .null ∧
        ∃ size, (reportedSize p.2).toNumber = some size ∧ host.maxFileSize.lt size = false := by
  unfold FileHost.write
  split
  · exact ⟨fun h => absurd h List.not_mem_nil, fun ⟨_, heq, _⟩ => by cases heq⟩
  · exact ⟨fun h => absurd h List.not_mem_nil, fun ⟨_, heq, hnull, _⟩ => absurd (Option.some.inj heq).symm hnull⟩
  · rename_i d hnull
    split
    · rename_i hnone
      refine ⟨fun h => absurd h List.not_mem_nil, fun ⟨_, heq, _, size, hsize, _⟩ => ?_⟩
      rw [← Option.some.inj heq, hnone] at hsize
      cases hsize
    · rename_i size hsize
      split_ifs with hlt
      · refine ⟨fun h => absurd h List.not_mem_nil, fun ⟨_, heq, _, size', hsize', hle⟩ => ?_⟩
        rw [← Option.some.inj heq, hsize] at hsize'
        rw [← Option.some.inj hsize', hlt] at hle
        cases hle
      · have hiff : p ∈ [(path, d)] ↔ p.1 = path ∧ some d = some p.2 ∧ p.2 ≠ .json .null ∧
            ∃ size, (reportedSize p.2).toNumber = some size ∧ host.maxFileSize.lt size = false := by
          rw [List.mem_singleton]
          constructor
          · rintro rfl
            exact ⟨rfl, rfl, hnull, size, hsize, Bool.eq_false_of_not_eq_true hlt⟩
          · rintro ⟨hpath, heq, _⟩
            exact Prod.ext hpath (Option.some.inj heq).symm
        split
        · exact hiff
        · exact hiff

/-- What is passed to `fs.write`. -/
theorem mem_passed {p : JsString × FileData} :
    p ∈ (host.handleRequest files client payload).passed ↔
      payload.action = some (.string (js "write")) ∧ payload.path = some (.string p.1) ∧ p.1 ≠ [] ∧
        host.checkAccess client (js "write") = .ok () ∧ payload.data = some p.2 ∧ p.2 ≠ .json .null ∧
        ∃ size, (reportedSize p.2).toNumber = some size ∧ host.maxFileSize.lt size = false := by
  constructor
  · intro h
    unfold FileHost.handleRequest at h
    dsimp only at h
    split at h
    · split_ifs at h <;> exact absurd h List.not_mem_nil
    · rename_i action haction
      split at h
      · rename_i path hpath
        split_ifs at h with hne
        · exact absurd h List.not_mem_nil
        · unfold FileHost.perform at h
          split at h
          · exact absurd h List.not_mem_nil
          · rename_i haccess
            split_ifs at h with hwrite
            · subst hwrite
              obtain ⟨rfl, hdata⟩ := mem_passed_write.mp h
              exact ⟨ofValue_eq_write haction, hpath, hne, haccess, hdata⟩
            · exact absurd h List.not_mem_nil
      · exact absurd h List.not_mem_nil
  · rintro ⟨haction, hpath, hne, haccess, hdata⟩
    have hname : payload.action = some (.string FileAction.write.name) := haction
    rw [handleRequest_of_action hname hpath hne, FileHost.perform]
    simp only [FileAction.capAction, haccess, if_true]
    exact mem_passed_write.mpr ⟨rfl, hdata⟩

/-! ### The size limit -/

def FileData.contentSize : FileData → ℕ
  | .json v => v.contentSize
  | .bytes b => b.length

/-- A value, no string and not `null`, that reports a size within the limit and holds more. -/
def Understated (maxFileSize : JsNumber) : FileData → Prop
  | .json v => v ≠ .null ∧ (∀ s, v ≠ .string s) ∧ maxFileSize.lt (.ofNat v.contentSize) = true ∧
      ∃ size, (reportedSize (.json v)).toNumber = some size ∧ maxFileSize.lt size = false
  | .bytes _ => False

/-- The host performs a `write` for this peer. -/
def WriteGranted (host : FileHost F) (client : JsString) (payload : FileRequest) : Prop :=
  payload.action = some (.string (js "write")) ∧ (∃ path, path ≠ [] ∧ payload.path = some (.string path)) ∧
    host.checkAccess client (js "write") = .ok ()

/-- Nothing larger than `maxFileSize` is passed to `fs.write`. -/
def Limited (host : FileHost F) (handled : Handled F) : Prop :=
  ∀ p ∈ handled.passed, host.maxFileSize.lt (.ofNat p.2.contentSize) = false

theorem reported_of_not_understated {maxFileSize size : JsNumber} {data : FileData} (h : ¬ Understated maxFileSize data)
    (hnull : data ≠ .json .null) (hsize : (reportedSize data).toNumber = some size)
    (hle : maxFileSize.lt size = false) : maxFileSize.lt (.ofNat data.contentSize) = false := by
  cases data with
  | bytes b =>
      obtain rfl := Option.some.inj hsize
      exact hle
  | json v =>
      by_cases hstring : ∃ s, v = .string s
      · obtain ⟨s, rfl⟩ := hstring
        obtain rfl := Option.some.inj hsize
        exact hle
      · refine Bool.eq_false_of_not_eq_true fun hlt => h ⟨?_, ?_, hlt, size, hsize, hle⟩
        · rintro rfl
          exact hnull rfl
        · exact fun s heq => hstring ⟨s, heq⟩

theorem limited_iff :
    Limited host (host.handleRequest files client payload) ↔
      (WriteGranted host client payload → ∀ data, payload.data = some data → ¬ Understated host.maxFileSize data) := by
  constructor
  · rintro h ⟨haction, ⟨path, hne, hpath⟩, haccess⟩ data hdata hunder
    cases data with
    | bytes b => exact hunder
    | json v =>
        obtain ⟨hnull, _, hlt, hsize⟩ := hunder
        have hpassed : (path, FileData.json v) ∈ (host.handleRequest files client payload).passed :=
          mem_passed.mpr ⟨haction, hpath, hne, haccess, hdata, fun heq => hnull (FileData.json.inj heq), hsize⟩
        exact Bool.false_ne_true ((h _ hpassed).symm.trans hlt)
  · intro h p hp
    obtain ⟨haction, hpath, hne, haccess, hdata, hnull, size, hsize, hle⟩ := mem_passed.mp hp
    exact reported_of_not_understated (h ⟨haction, ⟨p.1, hne, hpath⟩, haccess⟩ p.2 hdata) hnull hsize hle

/-! ### Requests -/

section
variable {requestId : NonEmptyString} {path : JsString}

theorem request_handled (action : FileAction) (data : Option FileData) (hne : path ≠ []) :
    (request host c client requestId files action path data).2 =
      host.perform files client path ⟨.string requestId, .string action.name, false, none, none⟩ (data.map c.data)
        action := by
  have hname : action.name ≠ [] := by cases action <;> decide
  have haction : (FileRequest.carried c ⟨some (.string action.name), some (.string path), data,
      some (.string requestId)⟩).action = some (.string action.name) := congrArg some (json_string c _)
  have hid : (FileRequest.carried c ⟨some (.string action.name), some (.string path), data,
      some (.string requestId)⟩).requestId = some (.string requestId) := congrArg some (json_string c _)
  simp only [request]
  rw [handleRequest_of_action haction (congrArg some (json_string c path)) hne, haction, hid]
  simp only [orNull, Option.any_some, Json.truthy, hname, requestId.property, ne_eq, not_false_eq_true, decide_true,
    if_true, Option.getD_some]
  rfl

variable {action : Json} {result : Option FileResult}

theorem handleResponse_error {success : Bool} {error : FileError} (h : error.truthy = true) :
    handleResponse requestId (FileResponse.carried c ⟨.string requestId, action, success, result, some error⟩) =
      .error (.remote error) := by
  simp [handleResponse, FileResponse.carried, Json.isString, Option.filter, h]

theorem handleResponse_ok {success : Bool} :
    handleResponse requestId (FileResponse.carried c ⟨.string requestId, action, success, result, none⟩) =
      .ok (result.map c.result) := by
  simp [handleResponse, FileResponse.carried, Json.isString]

theorem write_performed (hf : Faithful host.fs) {data : Option FileData} (h : handleResponse requestId
      ((host.write files path ⟨.string requestId, action, false, none, none⟩ data).response.carried c) = .ok result) :
    ∃ d r, data = some d ∧ host.fs.write files path d =
      .ok ((host.write files path ⟨.string requestId, action, false, none, none⟩ data).files, r) := by
  unfold FileHost.write at h ⊢
  split at h
  · rw [handleResponse_error rfl] at h
    cases h
  · rw [handleResponse_error rfl] at h
    cases h
  · rename_i d hnull
    split at h
    · rw [handleResponse_error (by decide)] at h
      cases h
    · rename_i size hsize
      split_ifs at h with hlt
      · rw [handleResponse_error rfl] at h
        cases h
      · split at h
        · rename_i message hwrite
          have htruthy : (FileError.thrown message).truthy = true := decide_eq_true (hf.refused _ _ _ _ hwrite)
          rw [handleResponse_error htruthy] at h
          cases h
        · rename_i files' r hwrite
          refine ⟨d, r, rfl, ?_⟩
          simp only [if_neg hlt, hwrite]

theorem request_write (hf : Faithful host.fs) (hne : path ≠ []) {b : Bytes}
    (h : (request host c client requestId files .write path (some (.bytes b))).1 = .ok result) :
    ∃ r, host.fs.write files path (c.data (.bytes b)) =
      .ok ((request host c client requestId files .write path (some (.bytes b))).2.files, r) := by
  have hresponse : handleResponse requestId
      ((request host c client requestId files .write path (some (.bytes b))).2.response.carried c) = .ok result := h
  rw [request_handled .write (some (.bytes b)) hne, FileHost.perform] at hresponse ⊢
  cases haccess : host.checkAccess client FileAction.write.capAction with
  | error reason =>
      rw [haccess] at hresponse
      rw [handleResponse_error rfl] at hresponse
      cases hresponse
  | ok granted =>
      rw [haccess] at hresponse
      obtain ⟨d, r, hd, hwrite⟩ := write_performed hf hresponse
      obtain rfl := Option.some.inj hd
      exact ⟨r, hwrite⟩

theorem request_read (hne : path ≠ []) (haccess : host.checkAccess client (js "read") = .ok ()) {r : FileResult}
    (hread : host.fs.read files path = .ok r) :
    (request host c client requestId files .read path none).1 = .ok (some (c.result r)) := by
  have hresponse : (request host c client requestId files .read path none).1 = handleResponse requestId
      ((request host c client requestId files .read path none).2.response.carried c) := rfl
  rw [hresponse, request_handled .read none hne, FileHost.perform]
  simp only [FileAction.capAction, haccess, FileHost.dispatch, hread]
  exact handleResponse_ok

theorem request_read_refused (hne : path ≠ []) {reason : Option JsString}
    (haccess : host.checkAccess client (js "read") = .error reason) :
    (request host c client requestId files .read path none).1 =
      .error (.remote (.notGranted (js "read") client reason)) := by
  have hresponse : (request host c client requestId files .read path none).1 = handleResponse requestId
      ((request host c client requestId files .read path none).2.response.carried c) := rfl
  rw [hresponse, request_handled .read none hne, FileHost.perform]
  simp only [FileAction.capAction, haccess]
  exact handleResponse_error rfl

end

/-! ### Blobs -/

section
variable {crypto : BlobCrypto} {numberText : JsNumber → JsString} {peerId : JsString} {data : BlobData} {key iv : Bytes}

theorem store_ok (hf : Faithful host.fs) {requestId : NonEmptyString} {blob : StoredBlob} {files' : F}
    (h : store crypto host c client files requestId peerId data key iv = (.ok blob, files')) :
    peerId ≠ [] ∧ blob.cid = crypto.computeCid (crypto.aesEncrypt data.toBytes key iv) ∧
      blob.key = crypto.toBase64 key ∧ blob.iv = crypto.toBase64 iv ∧
      ∃ size, host.fs.read files' (blobPath blob.cid) =
        .ok (.file (c.data (.bytes (crypto.aesEncrypt data.toBytes key iv))) size) := by
  unfold store at h
  split_ifs at h with hpeer
  · cases h
  dsimp only at h
  split at h
  · cases h
  · rename_i result hok
    obtain ⟨r, hwrite⟩ := request_write hf (blobPath_ne_nil _) hok
    obtain ⟨size, hread⟩ := hf.kept _ _ _ _ _ hwrite
    obtain ⟨hblob, rfl⟩ := Prod.mk.inj h
    obtain rfl := Except.ok.inj hblob
    exact ⟨hpeer, rfl, rfl, rfl, size, hread⟩

theorem decimal_ne_toString (n : ℕ) : decimal n ≠ js "toString" := by
  intro h
  have hmem : (116 : CodeUnit) ∈ decimal n := by
    rw [h]
    decide
  exact absurd (isDigit_of_mem_decimal hmem) (by decide)

theorem map_fst_copyFields (fields : List (JsString × Json)) :
    (Json.copyFields fields).map Prod.fst = fields.map Prod.fst := by
  induction fields with
  | nil => rfl
  | cons f rest ih => rw [Json.copyFields, List.map_cons, List.map_cons, ih]

theorem toText_indexed (b : Bytes) : (indexed b).copy.toText numberText = some (js "[object Object]") := by
  rw [indexed, Json.copy, Json.toText, if_pos]
  rw [List.all_eq_true]
  intro f hf
  have hname : f.1 ∈ (Json.copyFields (b.zipIdx.map fun x => (decimal x.2, .number (.ofNat x.1.val)))).map Prod.fst :=
    List.mem_map_of_mem hf
  rw [map_fst_copyFields, List.map_map] at hname
  obtain ⟨x, _, hx⟩ := List.mem_map.mp hname
  rw [← hx]
  exact decide_eq_true (decimal_ne_toString x.2)

theorem readCiphertext_stored {requestId : NonEmptyString} {cid : JsString} {d : FileData} {size : Json}
    (haccess : host.checkAccess client (js "read") = .ok ())
    (hread : host.fs.read files (blobPath cid) = .ok (.file d size)) :
    readCiphertext numberText host c client files requestId cid =
      dataBytes numberText (some (.file (c.data d) (c.json size))) := by
  rw [readCiphertext, request_read (blobPath_ne_nil cid) haccess hread]
  rfl

theorem readCiphertext_wire (hs : crypto.Sound) {requestId : NonEmptyString} {cid : JsString} {size : Json}
    (hcid : cid = crypto.computeCid (crypto.aesEncrypt data.toBytes key iv))
    (hread : host.fs.read files (blobPath cid) =
      .ok (.file (Carrier.wire.data (.bytes (crypto.aesEncrypt data.toBytes key iv))) size))
    {ciphertext : Bytes} (h : readCiphertext numberText host .wire client files requestId cid = .ok ciphertext) :
    crypto.computeCid ciphertext ≠ cid := by
  cases haccess : host.checkAccess client (js "read") with
  | error reason =>
      rw [readCiphertext, request_read_refused (blobPath_ne_nil cid) haccess] at h
      cases h
  | ok granted =>
      rw [readCiphertext_stored haccess hread] at h
      have htext : encodeUtf8 (js "[object Object]") = ciphertext := by
        simp only [Carrier.data, dataBytes, encodeText, toText_indexed] at h
        exact Except.ok.inj h
      intro heq
      have hlength := congrArg List.length (hs.cid (heq.trans hcid))
      rw [hs.length, ← htext] at hlength
      have hfifteen : (encodeUtf8 (js "[object Object]")).length = 15 := by decide +kernel
      omega

theorem survives_inProcess (hi : crypto.Inverts) (hf : Faithful host.fs)
    (haccess : host.checkAccess client (js "read") = .ok ()) (ids : Fin 3 → NonEmptyString) {blob : StoredBlob}
    {files' : F} (h : store crypto host .inProcess client files (ids 0) peerId data key iv = (.ok blob, files')) :
    Survives crypto numberText host .inProcess client files ids peerId data key iv := by
  obtain ⟨hpeer, hcid, hkey, hiv, size, hread⟩ := store_ok hf h
  have hne : blob.cid ≠ [] := by
    rw [hcid]
    exact hi.cid _
  refine ⟨blob, files', (crypto.aesEncrypt data.toBytes key iv).length, h, ?_, ?_⟩
  · rw [retrieve, if_neg hpeer, if_neg hne, readCiphertext_stored haccess hread]
    simp only [Carrier.data, dataBytes]
    rw [if_neg (not_not_intro hcid.symm), hkey, hiv, hi.base64, hi.base64, hi.decrypt]
  · rw [verify, if_neg hne, if_neg hpeer, readCiphertext_stored haccess hread]
    simp only [Carrier.data, dataBytes]
    rw [decide_eq_true hcid.symm]

end

/-! ### Main result -/

/-- No blob survives the wire; and a host keeps its size limit exactly on the requests that write nothing understated. -/
theorem blobs_never_survive {crypto : BlobCrypto} (hs : crypto.Sound) {host : FileHost F} (hf : Faithful host.fs) :
    (∀ numberText client files ids peerId data key iv,
      ¬ Survives crypto numberText host .wire client files ids peerId data key iv) ∧
    ∀ client files payload, Limited host (host.handleRequest files client payload) ↔
      (WriteGranted host client payload → ∀ data, payload.data = some data → ¬ Understated host.maxFileSize data) := by
  refine ⟨fun numberText client files ids peerId data key iv => ?_, fun client files payload => limited_iff⟩
  rintro ⟨blob, files', size, hstore, hretrieve, -⟩
  obtain ⟨hpeer, hcid, -, -, size', hread⟩ := store_ok hf hstore
  unfold retrieve at hretrieve
  split_ifs at hretrieve with hempty
  split at hretrieve
  · cases hretrieve
  · rename_i ciphertext hciphertext
    rw [if_pos (readCiphertext_wire hs hcid hread hciphertext)] at hretrieve
    cases hretrieve

def memory : FileSystem (JsMap JsString FileData) where
  list files _ := .ok (.json (.array (files.entries.map fun f => .string f.1)))
  read files path :=
    match files.get? path with
    | some data => .ok (.file data (.number (.ofNat data.contentSize)))
    | none => .error (js "not found")
  write files path data := .ok (files.set path data, .object [(js "success", .bool true)])
  delete files path := .ok (files.delete path, .object [(js "success", .bool true)])
  stat files path := .ok (.json (.bool (files.get? path).isSome))

theorem faithful_memory : Faithful memory where
  kept files path data files' r h := by
    obtain ⟨rfl, rfl⟩ := Prod.mk.inj (Except.ok.inj h)
    refine ⟨.number (.ofNat data.contentSize), ?_⟩
    simp only [memory, JsMap.get?_set, if_true]
  refused files path data message h := by cases h

def openHost (maxFileSize : ℕ) : FileHost (JsMap JsString FileData) := ⟨memory, .ofNat maxFileSize, fun _ _ => .ok ()⟩

/-- Encryption that adds an empty tag, and texts with one unit for each byte. -/
def plainCrypto : BlobCrypto where
  aesEncrypt data _ _ := data ++ List.replicate 16 0
  aesDecrypt ciphertext _ _ := some (ciphertext.take (ciphertext.length - 16))
  computeCid b := js "c" ++ b.map (Fin.castLE (by decide))
  toBase64 b := b.map (Fin.castLE (by decide))
  fromBase64 s := s.map fun c => Fin.ofNat 256 c.val

theorem sound_plainCrypto : plainCrypto.Sound where
  length data key iv := by simp [plainCrypto]
  cid b b' h := List.map_injective_iff.mpr (Fin.castLE_injective _) (List.append_cancel_left h)

def threeIds : Fin 3 → NonEmptyString
  | 0 => ⟨js "1", by decide⟩
  | 1 => ⟨js "2", by decide⟩
  | 2 => ⟨js "3", by decide⟩

theorem blobs_never_survive_run :
    (store plainCrypto (openHost 4) .wire (js "a") .empty (threeIds 0) (js "b") (.bytes [1, 2]) []
        []).1.toOption.isSome ∧
      ¬ Survives plainCrypto (fun _ => []) (openHost 4) .wire (js "a") .empty threeIds (js "b") (.bytes [1, 2]) [] [] ∧
      Limited (openHost 4) ((openHost 4).handleRequest .empty (js "a")
        ⟨some (.string (js "write")), some (.string (js "f")), some (.json (.string (js "abcd"))), none⟩) := by
  have hfaithful : Faithful (openHost 4).fs := faithful_memory
  obtain ⟨hsurvives, hlimited⟩ := blobs_never_survive sound_plainCrypto hfaithful
  refine ⟨by decide +kernel, hsurvives _ _ _ _ _ _ _ _, (hlimited _ _ _).mpr fun _ data hdata hunder => ?_⟩
  obtain rfl := Option.some.inj hdata
  exact hunder.2.1 _ rfl

local instance neZero_threeIds : NeZero 3 := ⟨three_ne_zero⟩

/-- What retrieving and verifying a blob gives that is stored on an empty host. -/
def storedThenRead (c : Carrier) (data : BlobData) : Option (Option Bytes × Option (Bool × ℕ)) :=
  let stored := store plainCrypto (openHost 4) c (js "a") .empty (threeIds 0) (js "b") data [] []
  stored.1.toOption.map fun blob =>
    ((retrieve plainCrypto (fun _ => []) (openHost 4) c (js "a") stored.2 (threeIds 1) (js "b") blob.cid blob.key
      blob.iv).toOption,
    (verify plainCrypto (fun _ => []) (openHost 4) c (js "a") stored.2 (threeIds 2) (js "b") blob.cid).toOption)

/-- A blob is stored, but neither retrieved nor valid; and an object of five bytes passes a limit of four. -/
theorem blobs_lost : storedThenRead .wire (.bytes [1, 2]) = some (none, some (false, 15)) ∧
    ¬ Limited (openHost 4) ((openHost 4).handleRequest .empty (js "a")
      ⟨some (.string (js "write")), some (.string (js "f")),
        some (.json (.object [(js "x", .string (js "abcde"))])), none⟩) := by
  refine ⟨by decide +kernel, fun h => ?_⟩
  have hlimit := h (js "f", .json (.object [(js "x", .string (js "abcde"))])) (mem_passed.mpr
    ⟨rfl, rfl, by decide, rfl, rfl, fun heq => (by cases heq), 0, by decide +kernel, by decide +kernel⟩)
  exact absurd hlimit (by decide +kernel)

theorem inverts_plainCrypto : plainCrypto.Inverts where
  decrypt data key iv := by simp [plainCrypto]
  base64 b := by
    refine (List.map_map ..).trans ((List.map_congr_left fun x _ => ?_).trans (List.map_id b))
    exact Fin.ext (Nat.mod_eq_of_lt x.isLt)
  cid b := List.append_ne_nil_of_left_ne_nil (by decide) _

theorem blob_survives : Survives plainCrypto (fun _ => []) (openHost 20) .inProcess (js "a") .empty threeIds (js "b")
    (.bytes [1, 2]) [] [] := by
  have hstored : (store plainCrypto (openHost 20) .inProcess (js "a") .empty (threeIds 0) (js "b") (.bytes [1, 2]) []
    []).1.toOption.isSome := by decide +kernel
  rcases heq : store plainCrypto (openHost 20) .inProcess (js "a") .empty (threeIds 0) (js "b") (.bytes [1, 2]) [] []
    with ⟨_ | blob, files'⟩
  · rw [heq] at hstored
    cases hstored
  · have hfaithful : Faithful (openHost 20).fs := faithful_memory
    exact survives_inProcess inverts_plainCrypto hfaithful rfl threeIds heq

end BrowserMesh.Apps.PeerFiles
