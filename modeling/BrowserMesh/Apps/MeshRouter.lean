import BrowserMesh.Js.Json
import BrowserMesh.Library.Transition

/-! # Multi-hop routing

* **Router.**  The route table and the direct peers of a `MeshRouter`; what `route` and `handleRoutedMessage` hand to
  `forwardFn` and emit.
* **Network.**  Routers under their addresses, with the envelopes on their way.  Each envelope that enters has a number,
  which the envelopes keep that are forwarded because of it. -/

namespace BrowserMesh.Apps
open Js

def maxRouteEntries : ℕ := 1000

structure RouteEntry where
  target : JsString
  nextHop : JsString
  hops : JsNumber
  addedAt : JsNumber
  expiresAt : JsNumber

structure MeshRouter where
  localPodId : NonEmptyString
  routeTable : JsMap JsString RouteEntry
  directPeers : JsSet JsString
  /-- A `forwardFn` was given. -/
  forwards : Bool
  maxTTL : JsNumber
  routeCacheMs : JsNumber

inductive RouterEvent where
  | message (envelope : Json)
  | forward (envelope : Json)
  | routeAdd (entry : RouteEntry)
  | routeRemove (target : JsString)

/-- What a call leaves, hands to `forwardFn` and emits. -/
structure Routed where
  router : MeshRouter
  sent : List (JsString × Json)
  events : List RouterEvent

namespace MeshRouter

/-- The envelope that `route` makes. -/
def envelope (r : MeshRouter) (targetPodId : JsString) (message : Json) : Json :=
  .object [(js "from", .string r.localPodId), (js "to", .string targetPodId), (js "ttl", .number r.maxTTL),
    (js "message", message), (js "path", .array [.string r.localPodId])]

/-- `this.#forwardFn(nextHop, envelope)`, if there is one. -/
def forwardFn (r : MeshRouter) (nextHop : JsString) (envelope : Json) : List (JsString × Json) :=
  if r.forwards then [(nextHop, envelope)] else []

/-- `route`, with the hops and the path of its result. -/
def route (r : MeshRouter) (now : JsNumber) (targetPodId : JsString) (message : Json) :
    Routed × Option (JsNumber × List JsString) :=
  let envelope := r.envelope targetPodId message
  if r.directPeers.has targetPodId then
    (⟨r, r.forwardFn targetPodId envelope, []⟩, some (.ofNat 1, [r.localPodId, targetPodId]))
  else
    match r.routeTable.get? targetPodId with
    | none => (⟨r, [], []⟩, none)
    | some route =>
        if now.lt route.expiresAt then
          (⟨r, r.forwardFn route.nextHop envelope, [.forward envelope]⟩,
            some (route.hops, [r.localPodId, route.nextHop]))
        else if route.expiresAt.le now then
          (⟨{ r with routeTable := r.routeTable.delete targetPodId }, [], []⟩, none)
        else (⟨r, [], []⟩, none)

/-- `addRoute`. -/
def addRoute (r : MeshRouter) (now : JsNumber) (targetPodId nextHop : JsString) (hops ttl : Option JsNumber) : Routed :=
  let routeTable :=
    if maxRouteEntries ≤ r.routeTable.size ∧ r.routeTable.has targetPodId = false then
      match r.routeTable.keys with
      | oldest :: _ => r.routeTable.delete oldest
      | [] => r.routeTable
    else r.routeTable
  let entry : RouteEntry :=
    ⟨targetPodId, nextHop, hops.getD (.ofNat 1), now, now.add (ttl.getD r.routeCacheMs)⟩
  ⟨{ r with routeTable := routeTable.set targetPodId entry }, [], [.routeAdd entry]⟩

/-- `removeRoute`. -/
def removeRoute (r : MeshRouter) (targetPodId : JsString) : Routed :=
  ⟨{ r with routeTable := r.routeTable.delete targetPodId }, [],
    if r.routeTable.has targetPodId then [.routeRemove targetPodId] else []⟩

/-- `pruneExpired`. -/
def pruneExpired (r : MeshRouter) (now : JsNumber) : Routed :=
  let expired := (r.routeTable.entries.filter fun e => e.2.expiresAt.le now).map Prod.fst
  ⟨{ r with routeTable := expired.foldl JsMap.delete r.routeTable }, [], expired.map .routeRemove⟩

/-- `Number(envelope.ttl ?? 0)`; `none` when the conversion throws. -/
def ttlNumber (envelope : Json) : Option JsNumber :=
  match envelope.field (js "ttl") with
  | none => some 0
  | some .null => some 0
  | some v => v.toNumber

/-- `[...(envelope.path || [])]`; `none` when the path is not iterable. -/
def pathItems (envelope : Json) : Option (List Json) :=
  match envelope.field (js "path") with
  | none => some []
  | some path => if path.truthy then path.spread else some []

def forwarded (r : MeshRouter) (newTTL : JsNumber) (path : List Json) (fields : List (JsString × Json)) : Json :=
  .object (Json.setField (js "path") (.array (path ++ [.string r.localPodId]))
    (Json.setField (js "ttl") (.number newTTL) fields))

/-- The rest of `handleRoutedMessage`: an envelope that goes on to `envelope.to`. -/
def forwardTo (r : MeshRouter) (now : JsNumber) (targetPodId : Option Json) (forwarded : Json) : Routed :=
  match targetPodId with
  | some (.string target) =>
      if r.directPeers.has target then ⟨r, r.forwardFn target forwarded, [.forward forwarded]⟩
      else
        match r.routeTable.get? target with
        | none => ⟨r, [], []⟩
        | some route =>
            if now.lt route.expiresAt ∧ r.forwards then ⟨r, [(route.nextHop, forwarded)], [.forward forwarded]⟩
            else ⟨r, [], []⟩
  | _ => ⟨r, [], []⟩

/-- `handleRoutedMessage`; `none` when it throws.  An array has none of the fields, and is dropped. -/
def handleRoutedMessage (r : MeshRouter) (now : JsNumber) (envelope : Json) : Option Routed :=
  match envelope with
  | .object fields =>
      if Json.isString r.localPodId (assoc (js "to") fields) then some ⟨r, [], [.message envelope]⟩
      else do
        let newTTL := (← ttlNumber envelope).sub (.ofNat 1)
        if newTTL.le 0 then return ⟨r, [], []⟩
        else return r.forwardTo now (assoc (js "to") fields) (r.forwarded newTTL (← pathItems envelope) fields)
  | _ => some ⟨r, [], []⟩

end MeshRouter

/-! ### The network -/

/-- An envelope on its way, with the number of the one that entered. -/
structure Flight where
  origin : ℕ
  dest : JsString
  envelope : Json

structure RoutingNetwork where
  routers : JsMap JsString MeshRouter
  flights : List Flight
  /-- The envelopes that entered, by their numbers. -/
  entered : List Json
  /-- The numbers of the further forwards. -/
  forwards : List ℕ
  /-- The envelopes that were handed to a router, with its pod. -/
  delivered : List (JsString × Json)
  /-- The `message` events, with the pod. -/
  messages : List (JsString × Json)

inductive RouterChange where
  | addRoute (now : JsNumber) (targetPodId nextHop : JsString) (hops ttl : Option JsNumber)
  | removeRoute (targetPodId : JsString)
  | pruneExpired (now : JsNumber)
  | addDirectPeer (podId : JsString)
  | removeDirectPeer (podId : JsString)

/-- `copied`: what is sent crosses a wire as JSON text. -/
inductive RoutingAction where
  | route (address : JsString) (now : JsNumber) (targetPodId : JsString) (message : Json) (copied : Bool)
  | forge (dest : JsString) (envelope : Json)
  | deliver (i : ℕ) (now : JsNumber) (copied : Bool)
  | change (address : JsString) (c : RouterChange)

def RouterEvent.message? : RouterEvent → Option Json
  | .message e => some e
  | _ => none

def RouterEvent.isForward : RouterEvent → Bool
  | .forward _ => true
  | _ => false

def MeshRouter.change (r : MeshRouter) : RouterChange → MeshRouter
  | .addRoute now targetPodId nextHop hops ttl => (r.addRoute now targetPodId nextHop hops ttl).router
  | .removeRoute targetPodId => (r.removeRoute targetPodId).router
  | .pruneExpired now => (r.pruneExpired now).router
  | .addDirectPeer podId => { r with directPeers := r.directPeers.add podId }
  | .removeDirectPeer podId => { r with directPeers := r.directPeers.delete podId }

namespace RoutingNetwork

/-- The envelopes that a router sent because of the envelope `origin`. -/
def launch (origin : ℕ) (copied : Bool) (sent : List (JsString × Json)) : List Flight :=
  sent.map fun s => ⟨origin, s.1, if copied then s.2.copy else s.2⟩

/-- The envelope `f` was handed to the router `r`. -/
def handled (w : RoutingNetwork) (f : Flight) (r : MeshRouter) (copied : Bool) (h : Routed) : RoutingNetwork :=
  { w with
    routers := w.routers.set f.dest h.router
    flights := w.flights ++ launch f.origin copied h.sent
    forwards := w.forwards ++ List.replicate (h.events.countP RouterEvent.isForward) f.origin
    messages := w.messages ++ (h.events.filterMap RouterEvent.message?).map (r.localPodId.val, ·) }

def step (w : RoutingNetwork) : RoutingAction → Option RoutingNetwork
  | .route address now targetPodId message copied => do
      let r ← w.routers.get? address
      let h := (r.route now targetPodId message).1
      return { w with
        routers := w.routers.set address h.router
        flights := w.flights ++ launch w.entered.length copied h.sent
        entered := w.entered ++ [r.envelope targetPodId message] }
  | .forge dest envelope =>
      some { w with
        flights := w.flights ++ [⟨w.entered.length, dest, envelope⟩]
        entered := w.entered ++ [envelope] }
  | .deliver i now copied => do
      let f ← w.flights[i]?
      let w := { w with flights := w.flights.eraseIdx i }
      match w.routers.get? f.dest with
      | none => return w
      | some r =>
          let w := { w with delivered := w.delivered ++ [(r.localPodId.val, f.envelope)] }
          match r.handleRoutedMessage now f.envelope with
          | none => return w
          | some h => return w.handled f r copied h
  | .change address c => do
      let r ← w.routers.get? address
      return { w with routers := w.routers.set address (r.change c) }

end RoutingNetwork

/-- Routers with any tables and peers, and nothing on its way. -/
def routingMachine (routers : JsMap JsString MeshRouter) : Transition.Machine RoutingNetwork RoutingAction :=
  ⟨⟨routers, [], [], [], [], []⟩, RoutingNetwork.step⟩

end BrowserMesh.Apps
