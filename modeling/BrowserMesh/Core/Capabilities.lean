import BrowserMesh.Js.Number
import BrowserMesh.Js.Dict

/-! # Capability tokens

* `CapabilityToken`: a permission on a resource with an expiry, a delegation depth and constraints.  The
  constructor refuses empty names and an empty list of permissions; the tokens built keep this in
  their types.
* `attenuate`: the holder derives a child token.  Every dimension is checked to be no wider.
* `verify`: checks a chain of tokens from root to leaf that came over the wire.
* `validate`: looks a token up and decides a request.

Numbers of tokens may be any numbers of the language; comparisons with `NaN` are false.  Of the
constraints only `maxCalls` and `_callCount` are read. -/

namespace BrowserMesh.Core

open Js

/-! ### Resources -/

def star : CodeUnit := 42

/-- `RESOURCE_SEPARATORS`: `/` and `:`. -/
def resourceSeparators : List CodeUnit := [47, 58]

/-- `s.endsWith('*')`. -/
def endsWithStar (s : JsString) : Bool := decide (s.getLast? = some star)

/-- `RESOURCE_SEPARATORS.has(c)` for a character that may be missing. -/
def isSeparator : Option CodeUnit → Bool
  | none => false
  | some c => decide (c ∈ resourceSeparators)

def resourceCovers (parentResource childResource : JsString) : Bool :=
  if childResource = parentResource then true
  else if endsWithStar parentResource then parentResource.dropLast.isPrefixOf childResource
  else if !parentResource.isPrefixOf childResource then false
  else if isSeparator parentResource.getLast? then true
  else isSeparator childResource[parentResource.length]?

/-- `_resourceMatches(pattern, target)`. -/
def resourceMatches (pattern target : JsString) : Bool :=
  if pattern = target then true
  else if pattern = [star] then true
  else if endsWithStar pattern then pattern.dropLast.isPrefixOf target
  else false

/-! ### Limits -/

/-- A limit that may be absent (`null`). -/
abbrev Limit := Option JsNumber

/-- `parent !== null && child !== null && child > parent`. -/
def Limit.exceeds (parent child : Limit) : Bool :=
  match parent, child with
  | some p, some c => p.lt c
  | _, _ => false

def expiryNarrows (parentExpiry childExpiry : Limit) : Bool :=
  match parentExpiry, childExpiry with
  | none, _ => true
  | some _, none => false
  | some p, some c => c.le p

/-! ### Constraints -/

/-- The value of a constraint. -/
inductive ConstraintValue where
  | undefined
  | null
  | num (n : JsNumber)
deriving DecidableEq

namespace ConstraintValue

/-- The number a comparison sees. -/
def toNumber : ConstraintValue → JsNumber
  | undefined => .nan
  | null => 0
  | num n => n

/-- `a > b`. -/
def gt (a b : ConstraintValue) : Bool := b.toNumber.lt a.toNumber

/-- `a >= b`. -/
def ge (a b : ConstraintValue) : Bool := b.toNumber.le a.toNumber

/-- `v || 0`. -/
def orZero : ConstraintValue → ConstraintValue
  | num n => if n = .nan then num 0 else num n
  | _ => num 0

end ConstraintValue

abbrev Constraints := JsObject ConstraintValue

namespace Constraints

/-- Read a constraint that is no inherited name. -/
def read (c : Constraints) (name : String) : ConstraintValue := (c.props.get? (js name)).getD .undefined

def maxCalls (c : Constraints) : ConstraintValue := c.read "maxCalls"

def callCount (c : Constraints) : ConstraintValue := c.read "_callCount"

/-- `{ ...parent, ...child }`. -/
def merge (parent child : Constraints) : Constraints :=
  ⟨JsMap.mergeWith (fun _ v => v) parent.props child.props⟩

/-- `parent.maxCalls !== undefined && (child.maxCalls === undefined || child.maxCalls > parent.maxCalls)`. -/
def raisesMaxCalls (parent child : Constraints) : Bool :=
  decide (parent.maxCalls ≠ .undefined) &&
    (decide (child.maxCalls = .undefined) || child.maxCalls.gt parent.maxCalls)

end Constraints

/-! ### CapabilityToken -/

structure CapabilityToken where
  id : NonEmptyString
  issuer : NonEmptyString
  holder : NonEmptyString
  resource : NonEmptyString
  permissions : {l : List JsString // l ≠ []}
  constraints : Constraints
  parentId : Option JsString
  expiresAt : Limit
  revoked : Bool
  depth : JsNumber
  maxDepth : Limit
deriving DecidableEq

/-- The errors of the constructor: a name that is missing, or no permissions. -/
inductive TokenError where
  | issuer
  | holder
  | resource
  | permissions
deriving DecidableEq

def TokenError.message : TokenError → String
  | .issuer => "issuer is required and must be a non-empty string"
  | .holder => "holder is required and must be a non-empty string"
  | .resource => "resource is required and must be a non-empty string"
  | .permissions => "permissions must be a non-empty array"

/-- The errors of `attenuate`. -/
inductive AttenuateError where
  | depthLimit
  | invalid
  | permission (p : JsString)
  | resource
  | expiry
  | maxDepth
  | maxCalls
  | token (e : TokenError)
deriving DecidableEq

/-- The arguments of `attenuate`; an empty resource stands for a missing one, too. -/
structure AttenuateOptions where
  holder : JsString
  permissions : Option (List JsString)
  resource : JsString
  constraints : Option Constraints
  expiresAt : Limit
  maxDepth : Limit

namespace CapabilityToken

/-- `isExpired(now)`. -/
def isExpired (t : CapabilityToken) (now : JsNumber) : Bool :=
  match t.expiresAt with
  | none => false
  | some expiresAt => expiresAt.le now

def isValid (t : CapabilityToken) (now : JsNumber) : Bool := !t.revoked && !t.isExpired now

def hasPermission (t : CapabilityToken) (perm : JsString) : Bool := decide (perm ∈ t.permissions.1)

def canDelegate (t : CapabilityToken) : Bool :=
  match t.maxDepth with
  | none => true
  | some maxDepth => t.depth.lt maxDepth

/-- The fields `attenuate` hands to the constructor. -/
def construct (id issuer : NonEmptyString) (holder resource : JsString) (permissions : List JsString)
    (constraints : Constraints) (parentId : Option JsString) (expiresAt : Limit) (depth : JsNumber)
    (maxDepth : Limit) : Except TokenError CapabilityToken :=
  if hh : holder = [] then .error .holder
  else if hr : resource = [] then .error .resource
  else if hp : permissions = [] then .error .permissions
  else .ok
    { id, issuer, constraints, parentId, expiresAt, depth, maxDepth
      holder := ⟨holder, hh⟩
      resource := ⟨resource, hr⟩
      permissions := ⟨permissions, hp⟩
      revoked := false }

/-- `attenuate(opts)` at the time `now`; the child gets the identifier `childId`. -/
def attenuate (t : CapabilityToken) (now : JsNumber) (childId : NonEmptyString)
    (opts : AttenuateOptions) : Except AttenuateError CapabilityToken :=
  let childPerms := opts.permissions.getD t.permissions.1
  let childResource := if opts.resource = [] then t.resource.1 else opts.resource
  let childExpiry := opts.expiresAt.or t.expiresAt
  let childMaxDepth := opts.maxDepth.or t.maxDepth
  let mergedConstraints := t.constraints.merge (opts.constraints.getD JsObject.empty)
  if !t.canDelegate then .error .depthLimit
  else if !t.isValid now then .error .invalid
  else match childPerms.find? (fun p => !t.hasPermission p) with
    | some p => .error (.permission p)
    | none =>
      if !resourceCovers t.resource childResource then .error .resource
      else if t.expiresAt.exceeds childExpiry then .error .expiry
      else if t.maxDepth.exceeds childMaxDepth then .error .maxDepth
      else if t.constraints.raisesMaxCalls mergedConstraints then .error .maxCalls
      else (construct childId t.holder opts.holder childResource childPerms mergedConstraints t.id.1
        childExpiry (t.depth.add (.ofNat 1)) childMaxDepth).mapError .token

/-- The check of `maxCalls` in `validate`: the calls are used up. -/
def callsExhausted (t : CapabilityToken) : Bool :=
  decide (t.constraints.maxCalls ≠ .undefined) && t.constraints.callCount.orZero.ge t.constraints.maxCalls

end CapabilityToken

/-! ### CapabilityChain -/

/-- What `verify` reports, with the index it broke at. -/
inductive VerifyError where
  | empty
  | rootParent
  | invalid (i : ℕ)
  | brokenLink (i : ℕ)
  | depth (i : ℕ)
  | permission (i : ℕ) (perm : JsString)
  | resource (i : ℕ) (child parent : JsString)
  | expiry (i : ℕ) (child parent : Limit)
deriving DecidableEq

/-- The checks of `verify` on a token and its predecessor. -/
def checkPair (i : ℕ) (prev token : CapabilityToken) : Except VerifyError Unit :=
  if token.parentId ≠ some prev.id.1 then .error (.brokenLink i)
  else if !token.depth.eq (prev.depth.add (.ofNat 1)) then .error (.depth i)
  else match token.permissions.1.find? (fun p => !prev.hasPermission p) with
    | some perm => .error (.permission i perm)
    | none =>
      if !resourceCovers prev.resource token.resource then
        .error (.resource i token.resource prev.resource)
      else if !expiryNarrows prev.expiresAt token.expiresAt then
        .error (.expiry i token.expiresAt prev.expiresAt)
      else .ok ()

/-- The loop of `verify` from index `i`, with the token before it. -/
def verifyLoop (checkValidity : Bool) (now : JsNumber) :
    ℕ → Option CapabilityToken → List CapabilityToken → Except VerifyError Unit
  | _, _, [] => .ok ()
  | i, prev, token :: tokens =>
      if checkValidity && !token.isValid now then .error (.invalid i)
      else match prev with
        | none => verifyLoop checkValidity now (i + 1) (some token) tokens
        | some prev =>
          match checkPair i prev token with
          | .error e => .error e
          | .ok () => verifyLoop checkValidity now (i + 1) (some token) tokens

/-- `verify(checkValidity)`. -/
def verify (checkValidity : Bool) (now : JsNumber) (tokens : List CapabilityToken) :
    Except VerifyError Unit :=
  match tokens with
  | [] => .error .empty
  | root :: _ =>
      if root.parentId ≠ none then .error .rootParent
      else verifyLoop checkValidity now 0 none tokens

/-! ### CapabilityValidator -/

structure CapabilityValidator where
  tokens : JsMap JsString CapabilityToken
  revokedIds : JsSet JsString

/-- Why a request is not allowed. -/
inductive Denial where
  | notFound
  | revoked
  | expired
  | permission (permission : JsString)
  | resource (resource tokenResource : JsString)
  | maxCalls
deriving DecidableEq

namespace CapabilityValidator

/-- `new CapabilityValidator()`. -/
def new : CapabilityValidator := ⟨JsMap.empty, JsSet.empty⟩

def register (v : CapabilityValidator) (token : CapabilityToken) : CapabilityValidator :=
  ⟨v.tokens.set token.id.1 token, if token.revoked then v.revokedIds.add token.id.1 else v.revokedIds⟩

/-- `validate(tokenId, resource, permission)` at the time `now`; `none` when the request is allowed. -/
def validate (v : CapabilityValidator) (now : JsNumber) (tokenId resource permission : JsString) :
    Option Denial :=
  match v.tokens.get? tokenId with
  | none => some .notFound
  | some token =>
      if v.revokedIds.has tokenId then some .revoked
      else if token.isExpired now then some .expired
      else if !token.hasPermission permission then some (.permission permission)
      else if !resourceMatches token.resource resource then some (.resource resource token.resource)
      else if token.callsExhausted then some .maxCalls
      else none

end CapabilityValidator
end BrowserMesh.Core
