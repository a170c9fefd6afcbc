import BrowserMesh.Apps.PodSupervisor
import BrowserMesh.Library.Guards

/-! # Links between pods

* **Maps.**  `childrenOf` and `parentOf` hold keys.  `pods` says which entry has a key, and an entry knows its own `ref`.
* **Cascade.**  `drainChildren` goes down before it drains; how deep it may go is given, and `none` says that it goes
  deeper.
* **Machine.**  The calls one after the other, each with the links that it changes. -/

namespace BrowserMesh.Apps
open Js Transition

/-- The index of the first `::` in a key. -/
def separatorAt : JsString → Option ℕ
  | [] => none
  | c :: rest => if js "::" <+: c :: rest then some 0 else (separatorAt rest).map (· + 1)

/-- `parseKey`; what it does to a key without a separator is what `slice` does with `-1`. -/
def parseKey (key : JsString) : PodRef :=
  match separatorAt key with
  | some i => ⟨key.take i, key.drop (i + 2)⟩
  | none => ⟨key.dropLast, key.drop 1⟩

/-- What an entry says about its links. -/
structure LinkedPod where
  ref : PodRef
  detachOnParentExit : Bool
  policy : RestartPolicy
  deriving DecidableEq

structure PodLinks where
  entries : List LinkedPod
  pods : JsMap JsString ℕ
  childrenOf : JsMap JsString (JsSet JsString)
  parentOf : JsMap JsString JsString
  deriving DecidableEq

inductive PodLinkAction where
  | supervise (ref : PodRef) (parent : Option JsString) (detachOnParentExit : Bool) (policy : RestartPolicy)
  | unsupervise (ref : PodRef)
  | link (parentRef childRef : PodRef)
  | unlink (parentRef childRef : PodRef)
  | drain (ref : PodRef) (cascade : Bool) (depth : ℕ)
  | exit (ref : PodRef) (depth : ℕ)
  /-- The restart of an entry succeeded on another host. -/
  | move (e : ℕ) (newHost : JsString)
  deriving DecidableEq

namespace PodLinks

def new : PodLinks := ⟨[], .empty, .empty, .empty⟩

/-- `pods.get(key)`. -/
def podAt (s : PodLinks) (key : JsString) : Option LinkedPod := do s.entries[← s.pods.get? key]?

/-- The elements of `childrenOf.get(key)`, if there is such a set. -/
def children (s : PodLinks) (key : JsString) : List JsString := ((s.childrenOf.get? key).elim [] JsSet.elems)

/-- `link`. -/
def link (s : PodLinks) (parentRef childRef : PodRef) : PodLinks :=
  let parentKey := refKey parentRef
  let childKey := refKey childRef
  { s with
    childrenOf := s.childrenOf.set parentKey (((s.childrenOf.get? parentKey).getD .empty).add childKey)
    parentOf := s.parentOf.set childKey parentKey }

/-- `childrenOf.get(parentKey)?.delete(childKey)`. -/
def deleteChild (s : PodLinks) (parentKey childKey : JsString) : PodLinks :=
  match s.childrenOf.get? parentKey with
  | none => s
  | some childKeys => { s with childrenOf := s.childrenOf.set parentKey (childKeys.delete childKey) }

/-- `unlink`. -/
def unlink (s : PodLinks) (parentRef childRef : PodRef) : PodLinks :=
  let parentKey := refKey parentRef
  let childKey := refKey childRef
  let s := s.deleteChild parentKey childKey
  if s.parentOf.get? childKey = some parentKey then { s with parentOf := s.parentOf.delete childKey } else s

/-- `supervise` when the pod was spawned. -/
def supervise (s : PodLinks) (ref : PodRef) (parent : Option JsString) (detachOnParentExit : Bool)
    (policy : RestartPolicy) : PodLinks :=
  let s := { s with
    entries := s.entries ++ [⟨ref, detachOnParentExit, policy⟩]
    pods := s.pods.set (refKey ref) s.entries.length }
  match parent with
  | some (c :: name) => s.link ⟨ref.host, c :: name⟩ ref
  | _ => s

/-- The pod is left to itself when its parent is drained. -/
def detached (s : PodLinks) (key : JsString) : Bool :=
  (s.podAt key).any fun pod => pod.detachOnParentExit && pod.policy = .always

/-- The `ref` of the entry under a key, or what the key says. -/
def refAt (s : PodLinks) (key : JsString) : PodRef := (s.podAt key).elim (parseKey key) LinkedPod.ref

/-- What is deleted of a child that was drained. -/
def sever (s : PodLinks) (parentKey childKey : JsString) : PodLinks :=
  { s with childrenOf := s.childrenOf.delete childKey, parentOf := s.parentOf.delete childKey }.deleteChild parentKey childKey

/-- The body of the loop of `drainChildren`. -/
def drainChild (below : PodLinks → PodRef → Option (PodLinks × List PodRef)) (parentKey : JsString)
    (r : PodLinks × List PodRef) (childKey : JsString) : Option (PodLinks × List PodRef) :=
  if r.1.detached childKey then some r
  else do
    let childRef := r.1.refAt childKey
    let (s, order) ← below r.1 childRef
    return (s.sever parentKey childKey, r.2 ++ order ++ [childRef])

/-- `drainChildren`. -/
def drainChildren : ℕ → PodLinks → PodRef → Option (PodLinks × List PodRef)
  | 0, _, _ => none
  | depth + 1, s, parentRef =>
      (s.children (refKey parentRef)).foldlM (drainChild (drainChildren depth) (refKey parentRef)) (s, [])

/-- What is deleted of a pod that was drained. -/
def severRoot (s : PodLinks) (key : JsString) : PodLinks :=
  let s := { s with childrenOf := s.childrenOf.delete key }
  match s.parentOf.get? key with
  | none => s
  | some parentKey => { s.deleteChild parentKey key with parentOf := s.parentOf.delete key }

/-- `drain`. -/
def drain (depth : ℕ) (s : PodLinks) (ref : PodRef) (cascade : Bool) : Option (PodLinks × List PodRef) :=
  (if cascade then drainChildren depth s ref else some (s, [])).map fun r =>
    (r.1.severRoot (refKey ref), r.2 ++ [ref])

/-- `rekey` for the entries and `pods`. -/
def rekeyPods (s : PodLinks) (e : ℕ) (oldKey newKey newHost : JsString) : PodLinks :=
  let entries := s.entries.modify e fun pod => { pod with ref := { pod.ref with host := newHost } }
  if newKey = oldKey then { s with entries } else { s with entries, pods := (s.pods.delete oldKey).set newKey e }

/-- `rekey` for the children. -/
def rekeyChildren (s : PodLinks) (oldKey newKey : JsString) : PodLinks :=
  match s.childrenOf.get? oldKey with
  | none => s
  | some kids => { s with childrenOf := (s.childrenOf.delete oldKey).set newKey kids }

/-- `rekey` for the parent. -/
def rekeyParent (s : PodLinks) (oldKey newKey : JsString) : PodLinks :=
  match s.parentOf.get? oldKey with
  | none => s
  | some parentKey =>
      let s := { s with parentOf := (s.parentOf.delete oldKey).set newKey parentKey }
      match s.childrenOf.get? parentKey with
      | none => s
      | some siblings => { s with childrenOf := s.childrenOf.set parentKey ((siblings.delete oldKey).add newKey) }

/-- `rekey`. -/
def rekey (s : PodLinks) (e : ℕ) (newHost : JsString) : PodLinks :=
  match s.entries[e]? with
  | none => s
  | some pod =>
      let oldKey := refKey pod.ref
      let newKey := refKey { pod.ref with host := newHost }
      let s := s.rekeyPods e oldKey newKey newHost
      if newKey = oldKey then s else (s.rekeyChildren oldKey newKey).rekeyParent oldKey newKey

def step (s : PodLinks) : PodLinkAction → Option PodLinks
  | .supervise ref parent detachOnParentExit policy => some (s.supervise ref parent detachOnParentExit policy)
  | .unsupervise ref => some { s with pods := s.pods.delete (refKey ref) }
  | .link parentRef childRef => some (s.link parentRef childRef)
  | .unlink parentRef childRef => some (s.unlink parentRef childRef)
  | .drain ref cascade depth => (s.drain depth ref cascade).map Prod.fst
  | .exit ref depth => (s.drainChildren depth ref).map Prod.fst
  | .move e newHost => if e < s.entries.length then some (s.rekey e newHost) else none

end PodLinks

def linkMachine : Machine PodLinks PodLinkAction := ⟨.new, PodLinks.step⟩

end BrowserMesh.Apps
