import BrowserMesh.Js.Json
import BrowserMesh.Library.Async

/-! # Distribution of a bucket key

* **Authorization.**  The effective state of the grant log, and `hasAnyGrant`.  A replay of the log reports the pods whose
  scopes changed before it takes the new state over, without any `await` in between.
* **Deliveries.**  A pod that announced a key, or was granted something, gets the bucket key wrapped for the key it
  announced; key lookup, wrapping and signing are awaited.
* **Records.**  A `deliver` record is checked, signature and authorization, and then unwrapped, which is awaited.
* **Log.**  What was announced, sent and received, the latest first, with the effective state at that time. -/

namespace BrowserMesh.Apps.KeyDistribution
open Js Async Transition

abbrev Bytes : Type := List (Fin 256)

/-- `base64url(SHA-256(publicKey))`: 43 characters, so never the name of an inherited property. -/
abbrev PodId : Type := {s : JsString // s.length = 43}

/-- `getEffective()`. -/
structure Effective where
  admins : List JsString
  grants : JsMap JsString (List JsString)

def Effective.empty : Effective := ⟨[], .empty⟩

def hasAnyGrant (pubKey : JsString) (effective : Effective) : Bool :=
  decide (pubKey ∈ effective.admins) || decide (0 < ((effective.grants.get? pubKey).map List.length).getD 0)

/-- `wrapKeyForMember`'s return value. -/
structure Envelope where
  ephemeralPublicKey : JsString
  wrappedKey : JsString
  iv : JsString
deriving DecidableEq

/-- The fields that are signed; their canonical JSON determines them. -/
structure SignedFields where
  resource : JsString
  envelope : Envelope
  at' : JsNumber
  signedBy : JsString
deriving DecidableEq

/-- A `deliver` record whose fields have been decoded. -/
structure DeliverRecord where
  envelope : Envelope
  at' : JsNumber
  signedBy : JsString
  signedByPubKeyBytes : Bytes
  signature : Bytes
deriving DecidableEq

/-- The key operations, with the keys of the own pod. -/
structure DistributionCrypto where
  /-- Base64 and `importKey`; `none` when one of them throws. -/
  importPublicKey : JsString → Option Bytes
  /-- The bucket key, the public key of the recipient, and what is drawn. -/
  wrapKeyForMember : Bytes → Bytes → Bytes → Envelope
  unwrapKeyForMember : Envelope → Option Bytes
  decodeBase64url : JsString → Option Bytes
  podIdFromRawPublicKey : Bytes → PodId
  verify : Bytes → Bytes → SignedFields → Bool
  sign : SignedFields → Bytes
  publicKeyBytes : Bytes

inductive LogEntry where
  | announced (sender : PodId) (publicKey : Bytes)
  | sent (target : PodId) (record : DeliverRecord) (rawKey recipientKey random : Bytes) (effective : Effective)
  | received (rawKey : Bytes) (record : DeliverRecord) (effective : Effective)

structure Distribution where
  localPodId : PodId
  resource : JsString
  effective : Effective
  /-- The state that a replay is about to take over. -/
  replaying : Option Effective
  knownEncryptionKeys : JsMap PodId Bytes
  log : List LogEntry

def new (localPodId : PodId) (resource : JsString) : Distribution := ⟨localPodId, resource, .empty, none, .empty, []⟩

inductive DistributionCall where
  /-- A message of the service's type, from the pod at the other end of the session. -/
  | receive (sender : PodId) (msg : Json)
  | beginReplay (next : Effective)
  /-- `onGrantChange` for a pod whose scopes the replay changes. -/
  | notify (pubKey : PodId)
  | endReplay

/-- Where a call waits. -/
inductive DistributionFrame where
  | importing (sender : PodId) (encryptionPublicKey : JsString)
  | gettingKey (target : PodId) (recipientKey : Bytes)
  | building (target : PodId) (recipientKey rawKey : Bytes)
  | deriving' (record : DeliverRecord)
  | verifying (record : DeliverRecord)
  | unwrapping (record : DeliverRecord)
deriving DecidableEq

inductive DistributionEvent where
  /-- The awaited operation is done; what it drew and the clock are used where the call builds a record. -/
  | settled (random : Bytes) (now : JsNumber)
  /-- What `getLocalKey` returns. -/
  | localKey (rawKey : Option Bytes)
  | failed

abbrev DistributionTask : Type := Task DistributionFrame Unit

def stringField (key : JsString) (v : Json) : Option JsString :=
  match v.field key with
  | some (.string s) => some s
  | _ => none

def envelopeOf (v : Json) : Option Envelope := do
  let ephemeralPublicKey ← stringField (js "ephemeralPublicKey") v
  let wrappedKey ← stringField (js "wrappedKey") v
  let iv ← stringField (js "iv") v
  some ⟨ephemeralPublicKey, wrappedKey, iv⟩

section
variable (crypto : DistributionCrypto)

/-- The checks and the decoding of `handleDeliver`. -/
def deliverRecord (msg : Json) : Option DeliverRecord := do
  let envelope ← (msg.field (js "envelope")).bind envelopeOf
  let at' ← match msg.field (js "at") with
    | some (.number n) => if n.isFinite then some n else none
    | _ => none
  let signedBy ← (stringField (js "signedBy") msg).filter fun s => s ≠ []
  let signedByPubKeyBytes ← stringField (js "signedByPubKeyBytes") msg
  let signature ← stringField (js "signature") msg
  some ⟨envelope, at', signedBy, ← crypto.decodeBase64url signedByPubKeyBytes, ← crypto.decodeBase64url signature⟩

/-- The fields that the signature of a received record is checked against. -/
def signedFields (resource : JsString) (record : DeliverRecord) : SignedFields :=
  ⟨resource, record.envelope, record.at', record.signedBy⟩

/-- `buildDeliverRecord`. -/
def buildDeliverRecord (s : Distribution) (rawKey recipientKey random : Bytes) (now : JsNumber) : DeliverRecord :=
  let envelope := crypto.wrapKeyForMember rawKey recipientKey random
  ⟨envelope, now, s.localPodId, crypto.publicKeyBytes, crypto.sign ⟨s.resource, envelope, now, s.localPodId⟩⟩

/-- `maybeDeliverTo`, up to its first `await`. -/
def maybeDeliverTo (s : Distribution) (target : PodId) : DistributionTask :=
  match s.knownEncryptionKeys.get? target with
  | none => .returned ()
  | some recipientKey => .waiting (.gettingKey target recipientKey)

def receive (s : Distribution) (sender : PodId) (msg : Json) : DistributionTask :=
  if Json.isString s.resource (msg.field (js "resource")) = false then .returned ()
  else if Json.isString (js "announce") (msg.field (js "kind")) then
    match stringField (js "encryptionPublicKey") msg with
    | none => .returned ()
    | some encryptionPublicKey => .waiting (.importing sender encryptionPublicKey)
  else if Json.isString (js "deliver") (msg.field (js "kind")) then
    match deliverRecord crypto msg with
    | none => .returned ()
    | some record => .waiting (.deriving' record)
  else .returned ()

/-- `handleGrantChange`, for a pod whose scopes are `before` and `after`; what is announced to the admins is left out. -/
def handleGrantChange (s : Distribution) (pubKey : PodId) (before after : ℕ) : DistributionTask :=
  if before = 0 ∧ 0 < after then
    if pubKey = s.localPodId then .returned () else maybeDeliverTo s pubKey
  else .returned ()

/-- The number of scopes that a pod holds. -/
def Effective.scopes (effective : Effective) (pubKey : JsString) : ℕ :=
  ((effective.grants.get? pubKey).map List.length).getD 0

/-- The synchronous part of a call; a replay is not interrupted. -/
def startCall (s : Distribution) : DistributionCall → Option (Distribution × DistributionTask)
  | .receive sender msg => if s.replaying.isNone then some (s, receive crypto s sender msg) else none
  | .beginReplay next =>
      if s.replaying.isNone then some ({ s with replaying := some next }, .returned ()) else none
  | .notify pubKey =>
      s.replaying.map fun next =>
        (s, handleGrantChange s pubKey (s.effective.scopes pubKey) (next.scopes pubKey))
  | .endReplay => s.replaying.map fun next => ({ s with effective := next, replaying := none }, .returned ())

/-- What follows an `await`. -/
def resumeCall (s : Distribution) : DistributionFrame → DistributionEvent → Option (Distribution × DistributionTask)
  | .importing sender encryptionPublicKey, .settled _ _ =>
      some (match crypto.importPublicKey encryptionPublicKey with
        | none => (s, .returned ())
        | some publicKey =>
            let s : Distribution :=
              { s with
                knownEncryptionKeys := s.knownEncryptionKeys.set sender publicKey
                log := .announced sender publicKey :: s.log }
            (s, if hasAnyGrant sender s.effective then maybeDeliverTo s sender else .returned ()))
  | .gettingKey target recipientKey, .localKey rawKey =>
      some (s, match rawKey with
        | none => .returned ()
        | some rawKey => .waiting (.building target recipientKey rawKey))
  | .building target recipientKey rawKey, .settled random now =>
      let record := buildDeliverRecord crypto s rawKey recipientKey random now
      some ({ s with log := .sent target record rawKey recipientKey random s.effective :: s.log }, .returned ())
  | .deriving' record, .settled _ _ =>
      some (s, if (crypto.podIdFromRawPublicKey record.signedByPubKeyBytes).val = record.signedBy then
        .waiting (.verifying record) else .returned ())
  | .verifying record, .settled _ _ =>
      some (s, if crypto.verify record.signedByPubKeyBytes record.signature (signedFields s.resource record) ∧
          hasAnyGrant record.signedBy s.effective then
        .waiting (.unwrapping record) else .returned ())
  | .unwrapping record, .settled _ _ =>
      some (match crypto.unwrapKeyForMember record.envelope with
        | none => (s, .returned ())
        | some rawKey => ({ s with log := .received rawKey record s.effective :: s.log }, .returned ()))
  | _, .failed => some (s, .returned ())
  | _, _ => none

def distributing : Program Distribution DistributionCall DistributionEvent DistributionFrame Unit where
  start := startCall crypto
  resume s frame event := if s.replaying.isNone then resumeCall crypto s frame event else none

abbrev DistributionWorld : Type := World Distribution DistributionFrame Unit

def machine (localPodId : PodId) (resource : JsString) :
    Machine DistributionWorld (Action DistributionCall DistributionEvent) :=
  (distributing crypto).machine (new localPodId resource)

end
end BrowserMesh.Apps.KeyDistribution
