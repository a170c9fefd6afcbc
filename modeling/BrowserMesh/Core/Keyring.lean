import BrowserMesh.Js.Dict
import BrowserMesh.Js.Number

/-! # Key links and the keyring

* `KeyLink`: an edge from a parent to a child; a signed one carries two signatures.
  `SignedKeyUnlink` revokes the links of an edge up to a point in time.
* `Keyring`: the stored links and the recorded revocations, `link`, `unlink`, `addVerifiedLink`,
  `applyUnlink`, `verifyCryptoChain`.  The signature checks are asynchronous: a call that makes them is
  given in two parts, before and after the check.
* `executeSuccession` moves the children of an identity under its successor; the replacement links
  are checked one by one (`planSuccession`) before anything changes (`commitSuccession`). -/

namespace BrowserMesh.Core

open Js

/-! ### Links and unlinks -/

/-- A creation time; `created || Date.now()` is never `NaN`. -/
abbrev Created := {t : JsNumber // t ≠ JsNumber.nan}

/-- `expires`; `none` is null, never. -/
abbrev Expiry := Option JsNumber

/-- `expires !== null && now >= expires`. -/
def Expiry.isExpired (expires : Expiry) (now : JsNumber) : Bool := expires.any (JsNumber.le · now)

section Types
variable (σ : Type)

/-- A `KeyLink`; `signatures` are those of a `SignedKeyLink`, of the parent and of the child. -/
structure KeyLink where
  parent : JsString
  child : JsString
  relation : JsString
  scope : Option (List JsString)
  expires : Expiry
  created : Created
  (namespace' : Option JsString)
  signatures : Option (Option σ × Option σ)
deriving DecidableEq

structure SignedKeyUnlink where
  parent : JsString
  child : JsString
  (namespace' : Option JsString)
  created : Created
  reason : Option JsString
  expires : Expiry
  signature : Option σ
deriving DecidableEq

end Types

/-- The bytes that are signed: a domain and the fields. -/
inductive Payload where
  | keylinkV3 (parent child relation : JsString) (scope : Option (List JsString)) (expires : Expiry)
      (created : Created) (namespace' : Option JsString)
  | keylinkV2 (parent child relation : JsString) (scope : Option (List JsString)) (expires : Expiry)
      (created : Created)
  | keyunlinkV2 (parent child : JsString) (namespace' : Option JsString) (created : Created)
      (reason : Option JsString) (expires : Expiry)
deriving DecidableEq

/-- `Number.isFinite(n)`. -/
def isFinite : JsNumber → Bool
  | .fin _ _ => true
  | _ => false

/-- The keys `κ` and the signatures `σ` of Ed25519. -/
structure Crypto (σ κ : Type) where
  verify : κ → σ → Payload → Bool

variable {σ κ : Type}

def VALID_RELATIONS : List JsString := [js "device", js "delegate", js "org", js "alias", js "recovery"]

namespace KeyLink

def isExpired (l : KeyLink σ) (now : JsNumber) : Bool := l.expires.isExpired now

/-- `l.parent === parent && l.child === child`. -/
def isEdge (parent child : JsString) (l : KeyLink σ) : Bool := l.parent = parent ∧ l.child = child

/-- Only finite numbers have a canonical encoding. -/
def isCanonical (l : KeyLink σ) : Bool := isFinite l.created.val && l.expires.all isFinite

def signedPayload (l : KeyLink σ) : Payload :=
  .keylinkV3 l.parent l.child l.relation l.scope l.expires l.created l.namespace'

def legacyV2SignedPayload (l : KeyLink σ) : Payload :=
  .keylinkV2 l.parent l.child l.relation l.scope l.expires l.created

/-- `#verifyOne`. -/
def verifyOne (crypto : Crypto σ κ) (l : KeyLink σ) (publicKey : κ) (acceptLegacyV2 : Bool) :
    Option σ → Bool
  | none => false
  | some signature =>
      l.isCanonical &&
        (crypto.verify publicKey signature l.signedPayload ||
          (acceptLegacyV2 && decide (l.namespace' = none) &&
            crypto.verify publicKey signature l.legacyV2SignedPayload))

/-- `verifyBoth`; it is false as well when the payload cannot be encoded. -/
def verifyBoth (crypto : Crypto σ κ) (l : KeyLink σ) (parentPub childPub : κ) (acceptLegacyV2 : Bool) : Bool :=
  match l.signatures with
  | none => false
  | some (parentSignature, childSignature) =>
      l.verifyOne crypto parentPub acceptLegacyV2 parentSignature &&
        l.verifyOne crypto childPub acceptLegacyV2 childSignature

end KeyLink

namespace SignedKeyUnlink

def isExpired (u : SignedKeyUnlink σ) (now : JsNumber) : Bool := u.expires.isExpired now

def signedPayload (u : SignedKeyUnlink σ) : Payload :=
  .keyunlinkV2 u.parent u.child u.namespace' u.created u.reason u.expires

def verify (crypto : Crypto σ κ) (u : SignedKeyUnlink σ) (parentPub : κ) : Bool :=
  match u.signature with
  | none => false
  | some signature =>
      u.expires.any isFinite && isFinite u.created.val && crypto.verify parentPub signature u.signedPayload

/-- `defect`: the signed `expires` is missing. -/
def hasDefect (u : SignedKeyUnlink σ) : Bool := !u.expires.any isFinite

def revokes (u : SignedKeyUnlink σ) (l : KeyLink σ) : Bool :=
  decide (l.parent = u.parent) && decide (l.child = u.child) && decide (l.namespace' = u.namespace') &&
    l.created.val.le u.created.val

/-- The same revocation, possibly with another expiry. -/
def isSame (u r : SignedKeyUnlink σ) : Bool :=
  decide (r.parent = u.parent) && decide (r.child = u.child) && r.created.val.eq u.created.val

/-- `u.expires > r.expires`. -/
def outlives (u r : SignedKeyUnlink σ) : Bool :=
  match u.expires, r.expires with
  | some e, some e' => e'.lt e
  | _, _ => false

/-- Record `u`, or keep the longer-lived one. -/
def record (u : SignedKeyUnlink σ) : List (SignedKeyUnlink σ) → List (SignedKeyUnlink σ)
  | [] => [u]
  | r :: rs => if u.isSame r then (if u.outlives r then u else r) :: rs else r :: record u rs

end SignedKeyUnlink

/-! ### Keyring -/

inductive SuccessionAction where
  | transfer
  | revoke
  | notify
deriving DecidableEq

structure SuccessionPolicy where
  primaryId : NonEmptyString
  successorId : NonEmptyString
  action : SuccessionAction
deriving DecidableEq

/-- The state of a `MeshKeyring`. -/
structure Keyring (σ : Type) where
  links : List (KeyLink σ)
  revocations : List (SignedKeyUnlink σ)
  (namespace' : Option JsString)
  acceptLegacyV2 : Bool
  successions : JsMap JsString SuccessionPolicy

inductive KeyringError where
  | notSigned
  | invalidRelation (relation : JsString)
  | selfLink
  | namespaceMismatch
  | revoked (parent child : JsString)
  | badSignature
  | linkExists (parent child : JsString)
  | missingExpires
  | noPolicy (primaryId : JsString)
  | needsReplacement (successorId child : JsString)
  | changesRelation (child : JsString)
  | wider (child : JsString)
  | wrongNamespace (child : JsString)
  | replacementRevoked (child : JsString)
  | needsPublicKey
  | replacementSignature (child : JsString)
deriving DecidableEq

namespace Keyring

def new (namespace' : Option JsString) (acceptLegacyV2 : Bool) : Keyring σ :=
  ⟨[], [], namespace', acceptLegacyV2, JsMap.empty⟩

variable (k : Keyring σ)

/-- There is a link from `parent` to `child`. -/
def hasEdge (parent child : JsString) : Bool := k.links.any (KeyLink.isEdge parent child)

/-- `link(parent, child, relation, { scope, expires })` at the time `now`. -/
def link (parent child relation : JsString) (scope : Option (List JsString)) (expires : Expiry)
    (now : Created) : Except KeyringError (Keyring σ) :=
  if relation ∉ VALID_RELATIONS then .error (.invalidRelation relation)
  else if parent = child then .error .selfLink
  else if k.hasEdge parent child then .error (.linkExists parent child)
  else .ok { k with links := k.links ++ [⟨parent, child, relation, scope, expires, now, k.namespace', none⟩] }

/-- `unlink(parent, child)`: it removes the first link of the edge. -/
def unlink (parent child : JsString) : Keyring σ × Bool :=
  ({ k with links := k.links.eraseP (KeyLink.isEdge parent child) }, k.hasEdge parent child)

def isRevoked (l : KeyLink σ) (now : JsNumber) : Bool :=
  k.revocations.any fun r => !r.isExpired now && r.revokes l

/-- The links of one identity, in the loop of `#descendantsOf`: what was seen, the result, the queue. -/
def enqueueChildren (cur : JsString) (s : List JsString × List JsString × List JsString) :
    List JsString × List JsString × List JsString :=
  k.links.foldl (fun s l =>
    if l.parent = cur ∧ l.child ∉ s.1 then (l.child :: s.1, s.2.1 ++ [l.child], s.2.2 ++ [l.child]) else s) s

/-- The loop of `#descendantsOf`, for a number of rounds. -/
def descendantsLoop : ℕ → List JsString × List JsString × List JsString → List JsString
  | 0, (_, out, _) => out
  | _ + 1, (_, out, []) => out
  | n + 1, (seen, out, cur :: queue) => descendantsLoop n (k.enqueueChildren cur (seen, out, queue))

/-- `#descendantsOf(id)`: every link adds at most one identity to the queue. -/
def descendantsOf (id : JsString) : List JsString :=
  k.descendantsLoop (k.links.length + 1) ([id], [], [id])

/-! ### Signed links and unlinks -/

/-- `addVerifiedLink` before the signature check. -/
def checkLink (l : KeyLink σ) (now : JsNumber) : Except KeyringError Unit :=
  if l.signatures = none then .error .notSigned
  else if l.relation ∉ VALID_RELATIONS then .error (.invalidRelation l.relation)
  else if l.parent = l.child then .error .selfLink
  else if l.namespace' ≠ k.namespace' then .error .namespaceMismatch
  else if k.isRevoked l now then .error (.revoked l.parent l.child)
  else .ok ()

/-- `addVerifiedLink` after the signature check, `valid` is its result. -/
def insertLink (l : KeyLink σ) (valid : Bool) : Except KeyringError (Keyring σ) :=
  if !valid then .error .badSignature
  else if k.hasEdge l.parent l.child then .error (.linkExists l.parent l.child)
  else .ok { k with links := k.links ++ [l] }

/-- `addVerifiedLink(l, parentPub, childPub)`, when nothing happens during the check. -/
def addVerifiedLink (crypto : Crypto σ κ) (l : KeyLink σ) (parentPub childPub : κ) (now : JsNumber) :
    Except KeyringError (Keyring σ) := do
  k.checkLink l now
  k.insertLink l (l.verifyBoth crypto parentPub childPub k.acceptLegacyV2)

/-- `applyUnlink` before the signature check. -/
def checkUnlink (u : SignedKeyUnlink σ) : Except KeyringError Unit :=
  if u.namespace' ≠ k.namespace' then .error .namespaceMismatch
  else if u.hasDefect then .error .missingExpires
  else .ok ()

/-- `applyUnlink` after the signature check, `ok` is its result.  It returns whether a link was removed,
and the descendants. -/
def recordUnlink (u : SignedKeyUnlink σ) (ok : Bool) (now : JsNumber) :
    Except KeyringError (Keyring σ × Bool × List JsString) :=
  if !ok then .error .badSignature
  else if u.isExpired now then .ok (k, false, [])
  else
    let links := k.links.filter fun l => !u.revokes l
    .ok ({ k with links, revocations := u.record k.revocations },
      decide (links.length < k.links.length), k.descendantsOf u.child)

/-- `applyUnlink(u, parentPub)`, when nothing happens during the check. -/
def applyUnlink (crypto : Crypto σ κ) (u : SignedKeyUnlink σ) (parentPub : κ) (now : JsNumber) :
    Except KeyringError (Keyring σ × Bool × List JsString) := do
  k.checkUnlink u
  k.recordUnlink u (u.verify crypto parentPub) now

/-! ### Chains -/

/-- The loop of `getChain`, for a number of rounds. -/
def chainLoop : ℕ → List JsString → JsString → List (KeyLink σ)
  | 0, _, _ => []
  | n + 1, visited, current =>
      if current ∈ visited then []
      else
        match k.links.find? (fun l => l.child = current) with
        | none => []
        | some l => l :: chainLoop n (current :: visited) l.parent

/-- `getChain(id)`: every round visits another child. -/
def getChain (id : JsString) : List (KeyLink σ) := k.chainLoop (k.links.length + 1) [] id

inductive ChainFault where
  | noPath
  | expired
  | revoked
  | namespace'
  | unsigned
  | badSignature
deriving DecidableEq

/-- Options of `verifyCryptoChain`. -/
structure ChainOptions where
  requireSigned : Bool
  acceptLegacyV2 : Bool
  now : JsNumber

/-- The links up to the first one from `toId`, if there is one. -/
def chainTo (toId : JsString) : List (KeyLink σ) → List (KeyLink σ) × Bool
  | [] => ([], false)
  | l :: chain =>
      if l.parent = toId then ([l], true)
      else
        let (links, found) := chainTo toId chain
        (l :: links, found)

/-- What is wrong with one link of the chain; `getPublicKey` is `none` where it throws. -/
def linkFault (crypto : Crypto σ κ) (getPublicKey : JsString → Option κ) (opts : ChainOptions)
    (l : KeyLink σ) : Option ChainFault :=
  if l.isExpired opts.now then some .expired
  else if k.isRevoked l opts.now then some .revoked
  else if l.namespace' ≠ k.namespace' then some .namespace'
  else if l.signatures = none then (if opts.requireSigned then some .unsigned else none)
  else
    match getPublicKey l.parent, getPublicKey l.child with
    | some parentPub, some childPub =>
        if l.verifyBoth crypto parentPub childPub opts.acceptLegacyV2 then none else some .badSignature
    | _, _ => some .badSignature

/-- `verifyCryptoChain(fromId, toId, getPublicKey, opts)`: the links of the chain, and where and why it is
broken. -/
def verifyCryptoChain (crypto : Crypto σ κ) (getPublicKey : JsString → Option κ) (opts : ChainOptions)
    (fromId toId : JsString) : List (KeyLink σ) × Option (JsString × ChainFault) :=
  let (chain, found) := chainTo toId (k.getChain fromId)
  if !found then (chain, some (js "no-path", .noPath))
  else (chain, chain.findSome? fun l => (k.linkFault crypto getPublicKey opts l).map ((l.child, ·)))

/-! ### Succession -/

/-- `setSuccessor`, when the policy is valid. -/
def setSuccessor (policy : SuccessionPolicy) : Keyring σ :=
  { k with successions := k.successions.set policy.primaryId policy }

def getChildren (id : JsString) : List (KeyLink σ) := k.links.filter fun l => l.parent = id

/-- `scopeNarrows(parent, child)`. -/
def scopeNarrows : Option (List JsString) → Option (List JsString) → Bool
  | none, _ => true
  | some _, none => false
  | some parent, some child => child.all fun s => decide (s ∈ parent)

/-- `expiresNarrows(parent, child)`. -/
def expiresNarrows : Expiry → Expiry → Bool
  | none, _ => true
  | some _, none => false
  | some parent, some child => child.le parent

end Keyring

/-- A child link of the primary and the link that replaces it, if it needs one. -/
abbrev Planned (σ : Type) := KeyLink σ × Option (KeyLink σ)

/-- The options of `executeSuccession`. -/
structure SuccessionOptions (σ : Type) where
  links : List (KeyLink σ)
  /-- `getPublicKey` is a function. -/
  hasPublicKeys : Bool
  localOnly : Bool

/-- A transfer that waits for a signature check. -/
structure Transfer (σ : Type) where
  primaryId : JsString
  policy : SuccessionPolicy
  opts : SuccessionOptions σ
  plan : List (Planned σ)
  child : KeyLink σ
  replacement : KeyLink σ
  rest : List (KeyLink σ)

/-- What `executeSuccession` returns. -/
structure SuccessionResult where
  action : SuccessionAction
  primaryId : JsString
  successorId : JsString
  affected : ℕ
deriving DecidableEq

namespace Keyring
variable (k : Keyring σ)

/-- What planning comes to: all children are planned, or a replacement has to be checked. -/
inductive Planning (σ : Type) where
  | planned (plan : List (Planned σ))
  | check (plan : List (Planned σ)) (child replacement : KeyLink σ) (rest : List (KeyLink σ))

/-- The checks of a replacement before its signatures. -/
def checkReplacement (successorId : JsString) (opts : SuccessionOptions σ) (now : JsNumber)
    (child : KeyLink σ) : Except KeyringError (KeyLink σ) :=
  match opts.links.find? (KeyLink.isEdge successorId child.child) with
  | none => .error (.needsReplacement successorId child.child)
  | some r =>
      if r.signatures = none then .error (.needsReplacement successorId child.child)
      else if r.relation ≠ child.relation then .error (.changesRelation child.child)
      else if !(scopeNarrows child.scope r.scope && expiresNarrows child.expires r.expires) then
        .error (.wider child.child)
      else if r.namespace' ≠ k.namespace' then .error (.wrongNamespace child.child)
      else if k.isRevoked r now then .error (.replacementRevoked child.child)
      else if !opts.hasPublicKeys then .error .needsPublicKey
      else .ok r

/-- Plan the children up to the next signature check. -/
def planSuccession (successorId : JsString) (opts : SuccessionOptions σ) (now : JsNumber) :
    List (Planned σ) → List (KeyLink σ) → Except KeyringError (Planning σ)
  | plan, [] => .ok (.planned plan)
  | plan, child :: rest =>
      if child.child = successorId ∨ k.hasEdge successorId child.child then
        planSuccession successorId opts now (plan ++ [(child, none)]) rest
      else
        match k.checkReplacement successorId opts now child with
        | .error e => .error e
        | .ok replacement => .ok (.check plan child replacement rest)

/-- Every replacement is verified: unlink the children and store the replacements. -/
def commitSuccession (primaryId : JsString) (plan : List (Planned σ)) : Keyring σ :=
  plan.foldl (fun k p =>
    let k := (k.unlink primaryId p.1.child).1
    match p.2 with
    | none => k
    | some replacement => { k with links := k.links ++ [replacement] }) k

/-- The end of `executeSuccession`: the policy is removed. -/
def finishSuccession (primaryId : JsString) (policy : SuccessionPolicy) (affected : ℕ) :
    Keyring σ × SuccessionResult :=
  ({ k with successions := k.successions.delete primaryId },
    ⟨policy.action, policy.primaryId, policy.successorId, affected⟩)

/-- Plan on from here; commit when all children are planned. -/
def transferFrom (primaryId : JsString) (policy : SuccessionPolicy) (opts : SuccessionOptions σ)
    (now : JsNumber) (plan : List (Planned σ)) (rest : List (KeyLink σ)) :
    Except KeyringError (Keyring σ × (SuccessionResult ⊕ Transfer σ)) :=
  match k.planSuccession policy.successorId opts now plan rest with
  | .error e => .error e
  | .ok (.planned plan) =>
      let (k, result) := (k.commitSuccession primaryId plan).finishSuccession primaryId policy plan.length
      .ok (k, .inl result)
  | .ok (.check plan child replacement rest) =>
      .ok (k, .inr ⟨primaryId, policy, opts, plan, child, replacement, rest⟩)

/-- `localOnly`: one child, with an unsigned link under the successor. -/
def relinkLocally (primaryId successorId : JsString) (now : Created) (child : KeyLink σ) :
    Except KeyringError (Keyring σ) :=
  let k := (k.unlink primaryId child.child).1
  if successorId ≠ child.child ∧ k.hasEdge successorId child.child = false then
    k.link successorId child.child child.relation child.scope child.expires now
  else .ok k

/-- `executeSuccession(primaryId, opts)` up to the first signature check. -/
def executeSuccession (primaryId : JsString) (opts : SuccessionOptions σ) (now : Created) :
    Except KeyringError (Keyring σ × (SuccessionResult ⊕ Transfer σ)) :=
  match k.successions.get? primaryId with
  | none => .error (.noPolicy primaryId)
  | some policy =>
      let children := k.getChildren primaryId
      match policy.action with
      | .transfer =>
          if opts.localOnly then
            match children.foldlM (fun k child => k.relinkLocally primaryId policy.successorId now child) k with
            | .error e => .error e
            | .ok k' =>
                let (k', result) := k'.finishSuccession primaryId policy children.length
                .ok (k', .inl result)
          else k.transferFrom primaryId policy opts now.val [] children
      | .revoke =>
          let (k, result) := (children.foldl (fun k child => (k.unlink primaryId child.child).1) k).finishSuccession
            primaryId policy children.length
          .ok (k, .inl result)
      | .notify =>
          let (k, result) := k.finishSuccession primaryId policy children.length
          .ok (k, .inl result)

/-- `executeSuccession` after a signature check, `ok` is its result. -/
def resumeSuccession (t : Transfer σ) (ok : Bool) (now : JsNumber) :
    Except KeyringError (Keyring σ × (SuccessionResult ⊕ Transfer σ)) :=
  if !ok then .error (.replacementSignature t.child.child)
  else k.transferFrom t.primaryId t.policy t.opts now (t.plan ++ [(t.child, some t.replacement)]) t.rest

end Keyring
end BrowserMesh.Core
