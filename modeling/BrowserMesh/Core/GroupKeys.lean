import BrowserMesh.Js.Number
import BrowserMesh.Js.Dict

/-! # Group keys

* `GroupState`: the key and the members of one epoch.  `EpochMap`: states under their own epochs.
* `GroupKeyManager`: one pod's states, and the calls that wait for the crypto API: key generations,
  broadcasts that wrap one key after the other, and unwrappings.
* `perform`: a local call up to its first `await`, or the continuation of a waiting one; `receive`: the
  handler of `GROUP_KEY_DISTRIBUTE`.

Keys `K` and public keys `P` are symbolic: an envelope for a public key is opened by the key pair it
belongs to, which is named by its public key, and by no other.  Generated keys are chosen by the
environment.  Padding is off. -/

namespace BrowserMesh.Core

open Js

variable {K P : Type}

inductive GroupError where
  | epoch
  | noMembers
  | noState
  | notMember (podId : JsString)
  | alreadyMember (podId : JsString)
  | lastMember
  | noKey
  | noEpochKey (epoch : JsNumber)
  /-- The crypto API refuses to decrypt. -/
  | operation
deriving DecidableEq

/-! ### GroupState -/

structure GroupState (K : Type) where
  epoch : JsNumber
  key : K
  members : JsSet JsString
  nonneg : epoch.lt 0 = false
deriving DecidableEq

namespace GroupState

/-- `new GroupState({ epoch, key, members })`. -/
def new (epoch : JsNumber) (key : K) (members : List JsString) : Except GroupError (GroupState K) :=
  if h : epoch.lt 0 = false then .ok ⟨epoch, key, JsSet.ofList members, h⟩ else .error .epoch

def hasMember (g : GroupState K) (podId : JsString) : Bool := g.members.has podId

theorem of_new {epoch : JsNumber} {key : K} {members : List JsString} {g : GroupState K}
    (h : new epoch key members = .ok g) : g.epoch = epoch ∧ g.key = key := by
  unfold new at h
  split at h
  · cases h
    exact ⟨rfl, rfl⟩
  · cases h

end GroupState

/-- `#epochs`: every state is stored under its own epoch. -/
structure EpochMap (K : Type) where
  map : JsMap JsNumber (GroupState K)
  own : ∀ e g, map.get? e = some g → g.epoch = e

namespace EpochMap

def empty : EpochMap K := ⟨JsMap.empty, fun _ _ h => by cases h⟩

def get? (m : EpochMap K) (epoch : JsNumber) : Option (GroupState K) := m.map.get? epoch

def has (m : EpochMap K) (epoch : JsNumber) : Bool := m.map.has epoch

/-- `this.#epochs.set(state.epoch, state)`. -/
def set (m : EpochMap K) (g : GroupState K) : EpochMap K where
  map := m.map.set g.epoch g
  own := by
    intro e g' h
    rw [JsMap.get?_set] at h
    split_ifs at h with he
    · rw [← Option.some.inj h, he]
    · exact m.own e g' h

def delete (m : EpochMap K) (epoch : JsNumber) : EpochMap K where
  map := m.map.delete epoch
  own := by
    intro e g h
    rw [JsMap.get?_delete] at h
    split_ifs at h
    exact m.own e g h

end EpochMap

/-! ### Messages -/

/-- A key wrapped for the owner of a public key. -/
structure KeyEnvelope (K P : Type) where
  publicKey : P
  wrappedKey : K
deriving DecidableEq

def wrapKeyForMember (epochKey : K) (recipientPublicKey : P) : KeyEnvelope K P :=
  ⟨recipientPublicKey, epochKey⟩

/-- Unwrap with the private key of the pair named by `keyPair`. -/
def unwrapKeyForMember [DecidableEq P] (envelope : KeyEnvelope K P) (keyPair : P) : Option K :=
  if envelope.publicKey = keyPair then some envelope.wrappedKey else none

/-- The payload of `GROUP_KEY_DISTRIBUTE`. -/
structure Distribute (K P : Type) where
  groupId : JsString
  epoch : JsNumber
  members : Option (List JsString)
  envelopes : Option (JsObject (KeyEnvelope K P))
deriving DecidableEq

/-! ### GroupKeyManager -/

/-- A call that waits for a generated key. -/
inductive Generating where
  | initGroup (members : List JsString)
  | rotate (nextEpoch : JsNumber) (members : List JsString)
deriving DecidableEq

/-- A `broadcastDistribute` that waits for the envelope of `target`. -/
structure Broadcasting (K P : Type) where
  state : GroupState K
  target : JsString
  publicKey : P
  rest : List JsString
  envelopes : JsObject (KeyEnvelope K P)
  /-- All envelopes carry the key of the state. -/
  wrapped : ∀ podId e, envelopes.props.get? podId = some e → e.wrappedKey = state.key

/-- A received envelope that is being unwrapped; `key` is what comes out. -/
structure Unwrapping (K : Type) where
  fromPodId : JsString
  epoch : JsNumber
  key : K
  members : List JsString
  /-- The receiver's current state when the message came in; read by no step. -/
  receivedIn : Option (GroupState K)
deriving DecidableEq

structure GroupKeyManager (K P : Type) where
  localPodId : NonEmptyString
  groupId : NonEmptyString
  maxEpochHistory : ℕ
  epochs : EpochMap K
  currentEpoch : JsNumber
  encryptionKeyPair : Option P
  memberPublicKeys : JsMap JsString P
  generating : List Generating
  broadcasting : List (Broadcasting K P)
  unwrapping : List (Unwrapping K)

namespace GroupKeyManager

/-- `new GroupKeyManager({ localPodId, groupId, maxEpochHistory })`. -/
def new (localPodId groupId : NonEmptyString) (maxEpochHistory : ℕ) : GroupKeyManager K P where
  localPodId := localPodId
  groupId := groupId
  maxEpochHistory := maxEpochHistory
  epochs := .empty
  currentEpoch := .neg (.ofNat 1)
  encryptionKeyPair := none
  memberPublicKeys := JsMap.empty
  generating := []
  broadcasting := []
  unwrapping := []

variable (m : GroupKeyManager K P)

def getCurrentState : Option (GroupState K) := m.epochs.get? m.currentEpoch

def getEpochState (epoch : JsNumber) : Option (GroupState K) := m.epochs.get? epoch

/-- `#pruneOldEpochs()`. -/
def pruneOldEpochs : GroupKeyManager K P :=
  if m.epochs.map.size ≤ m.maxEpochHistory then m
  else
    let sorted := m.epochs.map.keys.insertionSort (· ≤ ·)
    let toRemove := sorted.take (sorted.length - m.maxEpochHistory)
    { m with epochs := toRemove.foldl EpochMap.delete m.epochs }

/-- `initGroup(members)` up to the key generation. -/
def initGroup (members : List JsString) : Except GroupError (GroupKeyManager K P) :=
  if members = [] then .error .noMembers
  else
    let allMembers := (JsSet.ofList members).add m.localPodId.1
    .ok { m with generating := m.generating ++ [.initGroup allMembers.elems] }

/-- `rotate(newMembers)` up to the key generation. -/
def rotate (newMembers : Option (List JsString)) : GroupKeyManager K P :=
  let members := newMembers.getD
    (match m.getCurrentState with
    | some current => current.members.elems
    | none => [m.localPodId.1])
  { m with generating := m.generating ++ [.rotate (m.currentEpoch.add (.ofNat 1)) members] }

/-- The end of `rotate`: the state becomes the current one. -/
def install (state : GroupState K) : GroupKeyManager K P :=
  pruneOldEpochs { m with epochs := m.epochs.set state, currentEpoch := state.epoch }

/-- `rotate(newMembers, { epoch, key })`, which waits for nothing. -/
def adopt (newMembers : Option (List JsString)) (epoch : JsNumber) (key : K) :
    Except GroupError (GroupKeyManager K P) :=
  let members := newMembers.getD
    (match m.getCurrentState with
    | some current => current.members.elems
    | none => [m.localPodId.1])
  match GroupState.new epoch key members with
  | .error e => .error e
  | .ok state => .ok (m.install state)

/-- What `initGroup` and `rotate` do with the generated key. -/
def finish (call : Generating) (key : K) : Except GroupError (GroupKeyManager K P) :=
  match call with
  | .initGroup members =>
      match GroupState.new 0 key members with
      | .error e => .error e
      | .ok state => .ok { m with epochs := m.epochs.set state, currentEpoch := state.epoch }
  | .rotate nextEpoch members =>
      match GroupState.new nextEpoch key members with
      | .error e => .error e
      | .ok state => .ok (m.install state)

def removeMember (podId : JsString) : Except GroupError (GroupKeyManager K P) :=
  match m.getCurrentState with
  | none => .error .noState
  | some current =>
      if !current.hasMember podId then .error (.notMember podId)
      else
        let remaining := current.members.elems.filter (· ≠ podId)
        if remaining = [] then .error .lastMember else .ok (m.rotate (some remaining))

def addMember (podId : JsString) : Except GroupError (GroupKeyManager K P) :=
  match m.getCurrentState with
  | none => .error .noState
  | some current =>
      if current.hasMember podId then .error (.alreadyMember podId)
      else .ok (m.rotate (some (current.members.elems ++ [podId])))

def acceptEpoch (epoch : JsNumber) (key : K) (members : List JsString) :
    Except GroupError (GroupKeyManager K P) :=
  if m.epochs.has epoch then .ok m
  else
    match GroupState.new epoch key members with
    | .error e => .error e
    | .ok state =>
        .ok (pruneOldEpochs
          { m with
            epochs := m.epochs.set state
            currentEpoch := if m.currentEpoch.lt epoch then epoch else m.currentEpoch })

/-! ### Broadcasts -/

/-- The payload of a finished broadcast. -/
def distribution (state : GroupState K) (envelopes : Option (JsObject (KeyEnvelope K P))) :
    Distribute K P :=
  ⟨m.groupId, state.epoch, some state.members.elems, envelopes⟩

/-- `broadcastDistribute()`: the message, or the manager that waits for the first envelope. -/
def broadcastDistribute : GroupKeyManager K P × Option (Distribute K P) :=
  match m.getCurrentState with
  | none => (m, none)
  | some state =>
      let targets :=
        if m.encryptionKeyPair.isNone then []
        else state.members.elems.filter fun p => p ≠ m.localPodId.1 ∧ m.memberPublicKeys.has p
      match targets with
      | [] => (m, some (m.distribution state none))
      | target :: rest =>
          match m.memberPublicKeys.get? target with
          | none => (m, none)
          | some publicKey =>
              ({ m with broadcasting := m.broadcasting ++
                  [⟨state, target, publicKey, rest, JsObject.empty, fun _ _ h => by cases h⟩] }, none)

theorem wrapped_assign {key : K} {envelopes : JsObject (KeyEnvelope K P)}
    (h : ∀ podId e, envelopes.props.get? podId = some e → e.wrappedKey = key) (target : JsString)
    (publicKey : P) (podId : JsString) (e : KeyEnvelope K P)
    (he : (envelopes.assign target (wrapKeyForMember key publicKey)).props.get? podId = some e) :
    e.wrappedKey = key := by
  unfold JsObject.assign at he
  split_ifs at he
  · exact h podId e he
  · rw [JsMap.get?_set] at he
    split_ifs at he
    · rw [← Option.some.inj he]
      rfl
    · exact h podId e he

/-- The `i`-th broadcast gets the envelope it waits for. -/
def keyWrapped (i : ℕ) : Option (GroupKeyManager K P × Option (Distribute K P)) :=
  match m.broadcasting[i]? with
  | none => none
  | some b =>
      let envelopes := b.envelopes.assign b.target (wrapKeyForMember b.state.key b.publicKey)
      match b.rest with
      | [] => some ({ m with broadcasting := m.broadcasting.eraseIdx i },
          some (m.distribution b.state (some envelopes)))
      | target :: rest =>
          match m.memberPublicKeys.get? target with
          | none => some ({ m with broadcasting := m.broadcasting.eraseIdx i }, none)
          | some publicKey =>
              let next : Broadcasting K P :=
                ⟨b.state, target, publicKey, rest, envelopes, wrapped_assign b.wrapped b.target b.publicKey⟩
              some ({ m with broadcasting := m.broadcasting.set i next }, none)

/-! ### Inbound -/

/-- The handler of `GROUP_KEY_DISTRIBUTE`, up to the unwrapping. -/
def receive [DecidableEq P] (fromPodId : JsString) (payload : Distribute K P) : GroupKeyManager K P :=
  if payload.groupId ≠ m.groupId.1 then m
  else
    match payload.members, payload.envelopes, m.encryptionKeyPair with
    | some members, some envelopes, some keyPair =>
        if m.localPodId.1 ∉ members then m
        else
          match envelopes.read m.localPodId.1 with
          | .own envelope =>
              match unwrapKeyForMember envelope keyPair with
              | none => m
              | some key =>
                  { m with unwrapping := m.unwrapping ++
                    [⟨fromPodId, payload.epoch, key, members, m.getCurrentState⟩] }
          | _ => m
    | _, _, _ => m

/-! ### Operations -/

end GroupKeyManager

/-- The local calls, and the continuations of waiting ones. -/
inductive Operation (K P : Type) where
  /-- `initEncryption()`, with the key pair it generates if the API can. -/
  | initEncryption (keyPair : Option P)
  | setMemberPublicKey (podId : JsString) (publicKey : P)
  | initGroup (members : List JsString)
  | rotate (newMembers : Option (List JsString))
  | adopt (newMembers : Option (List JsString)) (epoch : JsNumber) (key : K)
  | removeMember (podId : JsString)
  | addMember (podId : JsString)
  /-- The `i`-th waiting `initGroup` or `rotate` gets its key. -/
  | keyGenerated (i : ℕ) (key : K)
  | broadcastDistribute
  /-- The `i`-th waiting broadcast gets its envelope. -/
  | keyWrapped (i : ℕ)
  /-- The `i`-th unwrapping ends. -/
  | unwrapped (i : ℕ)
deriving DecidableEq

namespace GroupKeyManager
variable (m : GroupKeyManager K P)

/-- What a call leaves: a call that throws leaves the manager as it is. -/
def settle (result : Except GroupError (GroupKeyManager K P)) : GroupKeyManager K P :=
  match result with
  | .error _ => m
  | .ok m' => m'

/-- Perform an operation; `none` when there is no such waiting call.  The second component is the message
that is broadcast. -/
def perform : Operation K P → Option (GroupKeyManager K P × Option (Distribute K P))
  | .initEncryption keyPair => some ({ m with encryptionKeyPair := keyPair }, none)
  | .setMemberPublicKey podId publicKey =>
      some ({ m with memberPublicKeys := m.memberPublicKeys.set podId publicKey }, none)
  | .initGroup members => some (m.settle (m.initGroup members), none)
  | .rotate newMembers => some (m.rotate newMembers, none)
  | .adopt newMembers epoch key => some (m.settle (m.adopt newMembers epoch key), none)
  | .removeMember podId => some (m.settle (m.removeMember podId), none)
  | .addMember podId => some (m.settle (m.addMember podId), none)
  | .keyGenerated i key =>
      match m.generating[i]? with
      | none => none
      | some call =>
          let waiting := { m with generating := m.generating.eraseIdx i }
          some (waiting.settle (waiting.finish call key), none)
  | .broadcastDistribute => some m.broadcastDistribute
  | .keyWrapped i => m.keyWrapped i
  | .unwrapped i =>
      match m.unwrapping[i]? with
      | none => none
      | some u =>
          let waiting := { m with unwrapping := m.unwrapping.eraseIdx i }
          some (waiting.settle (waiting.acceptEpoch u.epoch u.key u.members), none)

/-! ### Ciphertexts -/

end GroupKeyManager

/-- An authenticated cipher: what is encrypted under a key and a nonce is decrypted with them. -/
structure Cipher (K N D C : Type) where
  encrypt : K → N → D → C
  decrypt : K → N → C → Option D
  decrypt_encrypt : ∀ k n d, decrypt k n (encrypt k n d) = some d

namespace GroupKeyManager
variable (m : GroupKeyManager K P) {N D C : Type} (cipher : Cipher K N D C)

/-- `encrypt(plaintext)` with the random nonce `iv`: the ciphertext and its epoch. -/
def encrypt (iv : N) (plaintext : D) : Except GroupError (C × JsNumber) :=
  match m.getCurrentState with
  | none => .error .noKey
  | some state => .ok (cipher.encrypt state.key iv plaintext, state.epoch)

def decrypt (ciphertext : C) (iv : N) (epoch : JsNumber) : Except GroupError D :=
  match m.epochs.get? epoch with
  | none => .error (.noEpochKey epoch)
  | some state =>
      match cipher.decrypt state.key iv ciphertext with
      | none => .error .operation
      | some plaintext => .ok plaintext

/-- A ciphertext that was produced at an epoch, with what it was made from. -/
structure Encrypted (cipher : Cipher K N D C) where
  ciphertext : C
  iv : N
  epoch : JsNumber
  key : K
  plaintext : D
  made : ciphertext = cipher.encrypt key iv plaintext

/-- `encrypt(plaintext)`, remembering what the ciphertext was made from. -/
def encrypted (iv : N) (plaintext : D) : Option (Encrypted cipher) :=
  m.getCurrentState.map fun state =>
    { ciphertext := cipher.encrypt state.key iv plaintext
      iv, plaintext
      epoch := state.epoch
      key := state.key
      made := rfl }

end GroupKeyManager
end BrowserMesh.Core
