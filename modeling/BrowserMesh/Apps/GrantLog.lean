import BrowserMesh.Primitives.OrSet
import BrowserMesh.Js.Number
import BrowserMesh.Library.Async

/-! # The grant log

* **Records.**  Grants and revokes of the scopes of one resource, each signed by an admin.  `verifyRecord`
  is the check of what arrives from other pods; an `Element` of the log is a text that passes it.
* **Replay.**  `computeEffective` sorts the records and applies them one by one, each with the admins that
  the records before it left; a record without an admin behind it is skipped, except a bootstrap.
* **Calls.**  `mutate` adds a record for every action and replays once, at the end; `mergeRemote` checks
  every element, then merges and replays. -/

namespace BrowserMesh.Apps
open Js Primitives Async

inductive GrantAction where
  | grant | revoke
  deriving DecidableEq

/-- The fields of a record that are signed. -/
structure GrantFields where
  pubKey : JsString
  scope : JsString
  action : GrantAction
  at' : JsNumber
  signedBy : JsString
  deriving DecidableEq

structure SignedGrant extends GrantFields where
  signature : JsString
  deriving DecidableEq

structure GrantRecord extends SignedGrant where
  signedByPubKeyBytes : JsString
  deriving DecidableEq

/-- A parsed text; a field is `none` where it is missing or of another type. -/
structure ParsedRecord where
  pubKey : Option JsString
  scope : Option JsString
  action : Option JsString
  at' : Option JsNumber
  signedBy : Option JsString
  signedByPubKeyBytes : Option JsString
  signature : Option JsString

/-- The JSON texts, the key digest and the signatures that the log relies on. -/
structure GrantCrypto where
  /-- `JSON.parse`, unless it throws. -/
  parse : JsString → Option ParsedRecord
  canonicalJSON : GrantRecord → JsString
  /-- `podIdFromRawPublicKey` of a decoded key. -/
  podIdOf : JsString → Option JsString
  /-- `verify` of the wallet, on a decoded key and a decoded signature. -/
  verify : JsString → JsString → GrantFields → Bool
  /-- No signature is good for two messages: keys and points of small order are rejected, and no two messages collide. -/
  verify_inj : ∀ {key key' signature : JsString} {fields fields' : GrantFields},
    verify key signature fields = true → verify key' signature fields' = true → fields = fields'

/-- `scopeFor`. -/
def scopeFor (resource action : JsString) : JsString := resource ++ colon :: action

/-- The `action` of a record, when it is one of the two. -/
def readAction (s : JsString) : Option GrantAction :=
  if s = js "grant" then some .grant else if s = js "revoke" then some .revoke else none

namespace GrantLog
variable (crypto : GrantCrypto) (resource : JsString)

/-- `#verifyRecord`: the record, when the check returns `true`. -/
def verifyRecord (record : ParsedRecord) : Option GrantRecord := do
  let pubKey ← record.pubKey.filter (· ≠ [])
  let scope ← record.scope.filter ((resource ++ [colon]).isPrefixOf ·)
  let action ← record.action.bind readAction
  let at' ← record.at'.filter (·.isFinite)
  let signedBy ← record.signedBy.filter (· ≠ [])
  let signedByPubKeyBytes ← record.signedByPubKeyBytes
  let signature ← record.signature
  let derivedPodId ← crypto.podIdOf signedByPubKeyBytes
  if derivedPodId ≠ signedBy then none
  else if crypto.verify signedByPubKeyBytes signature ⟨pubKey, scope, action, at', signedBy⟩ then
    some ⟨⟨⟨pubKey, scope, action, at', signedBy⟩, signature⟩, signedByPubKeyBytes⟩
  else none

/-- The record that a text is, when it is a verified one. -/
def recordOf (element : JsString) : Option GrantRecord :=
  (crypto.parse element).bind (verifyRecord crypto resource)

/-- What the log holds: the texts of verified records. -/
abbrev Element := {element : JsString // (recordOf crypto resource element).isSome}

variable {crypto resource}

def Element.record (e : Element crypto resource) : GrantRecord := (recordOf crypto resource e.1).get e.2

/-! ### Replay -/

/-- `#compareRecords`: by `at`, then grants before revokes, then by the text of the signature. -/
def sortKey (r : SignedGrant) : JsNumber ×ₗ ℕ ×ₗ JsString :=
  toLex (r.at', toLex ((if r.action = .grant then 0 else 1), r.signature))

/-- The variables of the loop of `#computeEffective`. -/
structure Replayed where
  adminSet : JsSet JsString
  perPubKeyScope : JsMap JsString (JsMap JsString GrantAction)
  deriving DecidableEq

/-- A self-signed grant of the admin scope. -/
def SelfGrant (adminScope : JsString) (r : SignedGrant) : Prop :=
  r.scope = adminScope ∧ r.action = .grant ∧ r.signedBy = r.pubKey

instance (adminScope : JsString) (r : SignedGrant) : Decidable (SelfGrant adminScope r) :=
  inferInstanceAs (Decidable (_ ∧ _))

namespace Replayed

def init : Replayed := ⟨JsSet.empty, JsMap.empty⟩

/-- The record is a bootstrap, or there is an admin behind it. -/
def authorized (adminScope : JsString) (s : Replayed) (r : SignedGrant) : Bool :=
  (s.adminSet.elems.isEmpty && decide (SelfGrant adminScope r)) || s.adminSet.has r.signedBy

def apply (adminScope : JsString) (s : Replayed) (r : SignedGrant) : Replayed :=
  if s.authorized adminScope r then
    { adminSet :=
        if r.scope = adminScope then
          if r.action = .grant then s.adminSet.add r.pubKey else s.adminSet.delete r.pubKey
        else s.adminSet
      perPubKeyScope := s.perPubKeyScope.set r.pubKey
        (((s.perPubKeyScope.get? r.pubKey).getD JsMap.empty).set r.scope r.action) }
  else s

end Replayed

structure Effective where
  admins : JsSet JsString
  grants : JsMap JsString (JsSet JsString)
  deriving DecidableEq

/-- The scopes whose last action is a grant, for every pod that has any. -/
def Replayed.effective (s : Replayed) : Effective where
  admins := s.adminSet
  grants := s.perPubKeyScope.entries.foldl
    (fun grants e =>
      let active := JsSet.ofList ((e.2.entries.filter fun a => a.2 = .grant).map Prod.fst)
      if active.elems.isEmpty then grants else grants.set e.1 active)
    JsMap.empty

/-- The text of the admin action. -/
def ADMIN_ACTION : JsString := js "admin"

end GrantLog

open GrantLog

structure GrantLog (crypto : GrantCrypto) (resource : JsString) where
  orSet : ORSet (Element crypto resource)
  /-- The last replayed snapshot. -/
  snapshot : Effective
  lastIssuedAt : JsNumber

namespace GrantLog
variable {crypto : GrantCrypto} {resource : JsString}

def new : GrantLog crypto resource := ⟨.new, ⟨JsSet.empty, JsMap.empty⟩, 0⟩

def records (g : GrantLog crypto resource) : List GrantRecord := g.orSet.value.elems.map Element.record

/-- `#computeEffective`. -/
def computeEffective (g : GrantLog crypto resource) : Effective :=
  ((g.records.insertionSort (byRank fun r => sortKey r.toSignedGrant)).foldl
    (fun s r => s.apply (scopeFor resource ADMIN_ACTION) r.toSignedGrant) Replayed.init).effective

/-- `#replay`, without the calls to the registry. -/
def replay (g : GrantLog crypto resource) : GrantLog crypto resource :=
  { g with snapshot := g.computeEffective }

/-- `effective`. -/
def effective (g : GrantLog crypto resource) : List JsString × JsObject (List JsString) :=
  (g.snapshot.admins.elems,
    JsObject.empty.assignAll (g.snapshot.grants.entries.map fun e => (e.1, e.2.elems)))

/-! ### Calls -/

/-- An element of a payload that has a text and an array of tags; a tag is `none` when it is not a
string. -/
structure PayloadEntry where
  element : JsString
  tags : List (Option JsString)

inductive GrantCall where
  /-- `grant` and `revoke`. -/
  | mutate (pubKey : JsString) (actions : List JsString) (action : GrantAction)
      (signedByPodId : Option JsString)
  | bootstrapAdmin (pubKey : Option JsString)
  /-- `none` where there is no array of elements, or where an element has another shape. -/
  | mergeRemote (elements : Option (List (Option PayloadEntry)))

/-- The record that a call builds, and the scopes of those it will build after it. -/
structure BuildRecord where
  pubKey : JsString
  scope : JsString
  action : GrantAction
  signedByPodId : JsString
  rest : List JsString

variable (crypto resource) in
/-- Where a call waits. -/
inductive GrantFrame where
  | gettingKey (build : BuildRecord)
  | signing (build : BuildRecord) (at' : JsNumber) (signedByPubKeyBytes : JsString)
  | verifying (entry : PayloadEntry) (rest : List (Option PayloadEntry))
      (accepted : List (Element crypto resource × List (Option JsString)))

inductive GrantEvent where
  | publicKey (bytes : JsString) (now : JsNumber)
  | signed (signature : JsString)
  /-- The wallet has answered; `false` where it rejects. -/
  | verified (answered : Bool)
  /-- The awaited function rejects. -/
  | failed

inductive GrantResult where
  | done
  | pubKeyRequired
  | actionRequired
  | notAdmin (podId : JsString)
  /-- A tag is not a string. -/
  | badTag
  | rejected
  deriving DecidableEq

/-- The next element of a payload that has a shape and a text that can be parsed. -/
def nextEntry (crypto : GrantCrypto) :
    List (Option PayloadEntry) → Option (PayloadEntry × List (Option PayloadEntry))
  | [] => none
  | none :: rest => nextEntry crypto rest
  | some entry :: rest =>
      if (crypto.parse entry.element).isSome then some (entry, rest) else nextEntry crypto rest

/-- `ORSet.fromJSON` of the accepted elements; it throws on a tag that is not a string. -/
def fromAccepted (accepted : List (Element crypto resource × List (Option JsString))) :
    Option (ORSet (Element crypto resource)) :=
  let elements := JsMap.ofEntries accepted
  if elements.values.all fun tags => tags.all Option.isSome then
    some (.fromJSON ⟨elements.entries.map fun e => (e.1, e.2.reduceOption), []⟩)
  else none

/-- `mergeRemote` from the next element on. -/
def continueMerge (g : GrantLog crypto resource) (rest : List (Option PayloadEntry))
    (accepted : List (Element crypto resource × List (Option JsString))) :
    GrantLog crypto resource × Task (GrantFrame crypto resource) GrantResult :=
  match nextEntry crypto rest with
  | some (entry, rest) => (g, .waiting (.verifying entry rest accepted))
  | none =>
      match fromAccepted accepted with
      | some remoteSet => ({ g with orSet := g.orSet.merge remoteSet }.replay, .returned .done)
      | none => (g, .returned .badTag)

/-- The synchronous part of a call. -/
def startCall (localPodId : JsString) (g : GrantLog crypto resource) :
    GrantCall → GrantLog crypto resource × Task (GrantFrame crypto resource) GrantResult
  | .mutate pubKey actions action signedByPodId =>
      let adminPodId := (signedByPodId.filter (· ≠ [])).getD localPodId
      if pubKey = [] then (g, .returned .pubKeyRequired)
      else
        match actions with
        | [] => (g, .returned .actionRequired)
        | capAction :: rest =>
            if adminPodId ∉ g.snapshot.admins then (g, .returned (.notAdmin adminPodId))
            else (g, .waiting (.gettingKey
              ⟨pubKey, scopeFor resource capAction, action, adminPodId, rest.map (scopeFor resource)⟩))
  | .bootstrapAdmin pubKey =>
      let pubKey := pubKey.getD localPodId
      (g, .waiting (.gettingKey ⟨pubKey, scopeFor resource ADMIN_ACTION, .grant, pubKey, []⟩))
  | .mergeRemote none => (g, .returned .done)
  | .mergeRemote (some elements) => g.continueMerge elements []

/-- What follows an `await`. -/
def resumeCall (localPodId : JsString) (g : GrantLog crypto resource) :
    GrantFrame crypto resource → GrantEvent →
      Option (GrantLog crypto resource × Task (GrantFrame crypto resource) GrantResult)
  | .gettingKey build, .publicKey bytes now =>
      let at' := now.mathMax (g.lastIssuedAt.add (.ofNat 1))
      some ({ g with lastIssuedAt := at' }, .waiting (.signing build at' bytes))
  | .signing build at' bytes, .signed signature =>
      let element := crypto.canonicalJSON
        ⟨⟨⟨build.pubKey, build.scope, build.action, at', build.signedByPodId⟩, signature⟩, bytes⟩
      -- the wallet signs with the key of the pod
      if h : (recordOf crypto resource element).isSome then
        let g := { g with orSet := g.orSet.add ⟨element, h⟩ localPodId }
        match build.rest with
        | [] => some (g.replay, .returned .done)
        | scope :: rest => some (g, .waiting (.gettingKey { build with scope, rest }))
      else none
  | .verifying entry rest accepted, .verified answered =>
      if h : (recordOf crypto resource entry.element).isSome ∧ answered = true then
        some (g.continueMerge rest (accepted ++ [(⟨entry.element, h.1⟩, entry.tags)]))
      else some (g.continueMerge rest accepted)
  | _, .failed => some (g, .returned .rejected)
  | _, _ => none

/-- The calls on the log of one pod. -/
def calls (crypto : GrantCrypto) (resource localPodId : JsString) :
    Program (GrantLog crypto resource) GrantCall GrantEvent (GrantFrame crypto resource) GrantResult where
  start g call := some (g.startCall localPodId call)
  resume g frame event := g.resumeCall localPodId frame event

/-- A log with the calls made on it. -/
abbrev GrantWorld (crypto : GrantCrypto) (resource : JsString) :=
  World (GrantLog crypto resource) (GrantFrame crypto resource) GrantResult

end GrantLog
end BrowserMesh.Apps
