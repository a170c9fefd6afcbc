import BrowserMesh.Js.Arithmetic
import BrowserMesh.Js.Json

/-! # Scoring compute resources

* **Values.**  What the scorer reads of a request and of a descriptor.  The numbers of a descriptor come from the
  network, so they are any JSON values; `none` stands for a conversion to a number that throws.
* **Functions.**  `ResourceScorer.score`, one definition for each of its parts, `selectBest` and `lane`. -/

namespace BrowserMesh.Apps.Resources
open Js

inductive RuntimeClass where
  | isolate
  | microvm
deriving DecidableEq

def RuntimeClass.name : RuntimeClass → JsString
  | isolate => js "isolate"
  | microvm => js "microvm"

inductive Isolation where
  | any
  | isolate
  | microvm
deriving DecidableEq

/-- The lane that the isolation names, if it is a hard requirement. -/
def Isolation.runtimeClass : Isolation → Option RuntimeClass
  | any => none
  | isolate => some .isolate
  | microvm => some .microvm

inductive ModuleType where
  | wasm
  | js
  | shell
deriving DecidableEq

structure ComputeRequest where
  moduleType : Option ModuleType
  isolation : Isolation
  prefer : JsString
  preferRuntimeClass : Option JsString
  maxMemoryMb : Json

structure ResourceDescriptor where
  cpu : Json
  gpu : Json
  memory : Json
  bandwidth : Json
  capabilities : List Json
  availability : Json

namespace ResourceDescriptor

def online (d : ResourceDescriptor) : Bool := Json.isString (js "online") d.availability

def busy (d : ResourceDescriptor) : Bool := Json.isString (js "busy") d.availability

/-- ``capabilities.includes(`runtime:${name}`)``. -/
def includes (d : ResourceDescriptor) (name : JsString) : Bool :=
  d.capabilities.any fun c => Json.isString (js "runtime:" ++ name) c

def provides (d : ResourceDescriptor) (c : RuntimeClass) : Bool := d.includes c.name

end ResourceDescriptor

/-- `v > 0`. -/
def positive (v : Json) : Option Bool := v.toNumber.map fun n => JsNumber.lt 0 n

namespace ResourceScorer

/-- The score that preferring a lane gives, when none is required. -/
def laneBonus (request : ComputeRequest) (descriptor : ResourceDescriptor) (s : JsNumber) : JsNumber :=
  if (request.moduleType = some .js ∨ request.moduleType = some .wasm) ∧ descriptor.provides .isolate then
    s.add (.ofNat 25)
  else if request.moduleType = some .shell ∧ descriptor.provides .microvm then s.add (.ofNat 25)
  else s

def preferenceMatch (request : ComputeRequest) (descriptor : ResourceDescriptor) (s : JsNumber) : Option JsNumber :=
  if request.prefer = js "gpu" then
    (positive descriptor.gpu).map fun has => if has then s.add (.ofNat 20) else s
  else if request.prefer = js "cpu" then
    (positive descriptor.cpu).map fun has => if has then s.add (.ofNat 20) else s
  else if request.prefer = js "any" then some (s.add (.ofNat 10))
  else some s

/-- The empty class counts as none. -/
def runtimeClassMatch (request : ComputeRequest) (descriptor : ResourceDescriptor) (s : JsNumber) : JsNumber :=
  match request.preferRuntimeClass with
  | none => s
  | some name =>
      if name = [] then s
      else if descriptor.includes name then s.add (.ofNat 60)
      else s.sub (.ofNat 15)

/-- Up to `15` for the memory that is left. -/
def memoryBonus (request : ComputeRequest) (descriptor : ResourceDescriptor) (s : JsNumber) : Option JsNumber := do
  let reqMem ← request.maxMemoryMb.toNumber
  let memory ← descriptor.memory.toNumber
  if JsNumber.lt 0 reqMem ∧ JsNumber.lt 0 memory then
    let ratio := (memory.div reqMem).mathMin (.ofNat 4)
    some (s.add ((ratio.divNat 4).mulNat 15).round)
  else if JsNumber.lt 0 memory then some (s.add (.ofNat 8))
  else some s

/-- Up to `10` for the cores. -/
def cpuBonus (descriptor : ResourceDescriptor) (s : JsNumber) : Option JsNumber :=
  descriptor.cpu.toNumber.map fun cpu => if JsNumber.lt 0 cpu then s.add (cpu.mathMin (.ofNat 10)) else s

/-- Up to `5` for the bandwidth. -/
def bandwidthBonus (descriptor : ResourceDescriptor) (s : JsNumber) : Option JsNumber :=
  descriptor.bandwidth.toNumber.map fun bandwidth =>
    if JsNumber.lt 0 bandwidth then s.add ((bandwidth.divNat 20).round.mathMin (.ofNat 5)) else s

/-- What a descriptor scores that provides the lane, from its base score on. -/
def weigh (request : ComputeRequest) (descriptor : ResourceDescriptor) (s : JsNumber) : Option JsNumber := do
  let s ← preferenceMatch request descriptor s
  let s ← memoryBonus request descriptor (runtimeClassMatch request descriptor s)
  let s ← cpuBonus descriptor s
  bandwidthBonus descriptor s

/-- The score of an available descriptor. -/
def scoreLane (request : ComputeRequest) (descriptor : ResourceDescriptor) (s : JsNumber) : Option JsNumber :=
  if request.moduleType = some .shell ∧ descriptor.provides .microvm = false then some 0
  else
    match request.isolation.runtimeClass with
    | some lane => if descriptor.provides lane = false then some 0 else weigh request descriptor s
    | none => weigh request descriptor (laneBonus request descriptor s)

def score (request : ComputeRequest) (descriptor : ResourceDescriptor) : Option JsNumber :=
  if descriptor.online then scoreLane request descriptor (.ofNat 50)
  else if descriptor.busy then scoreLane request descriptor (.ofNat 30)
  else some 0

/-- One turn of the loop of `selectBest`, over the best descriptor so far and its score. -/
def better (request : ComputeRequest) (best : Option ResourceDescriptor × JsNumber) (descriptor : ResourceDescriptor) :
    Option (Option ResourceDescriptor × JsNumber) :=
  (score request descriptor).map fun s => if best.2.lt s then (some descriptor, s) else best

def selectBest (request : ComputeRequest) (descriptors : List ResourceDescriptor) :
    Option (Option ResourceDescriptor) :=
  (descriptors.foldlM (better request) (none, (JsNumber.ofNat 1).neg)).map Prod.fst

structure Lane where
  required : Option RuntimeClass
  preferred : Option RuntimeClass

def lane (request : ComputeRequest) : Lane :=
  if request.moduleType = some .shell then ⟨some .microvm, none⟩
  else
    match request.isolation.runtimeClass with
    | some c => ⟨some c, none⟩
    | none =>
        if request.moduleType = some .js ∨ request.moduleType = some .wasm then ⟨none, some .isolate⟩ else ⟨none, none⟩

end ResourceScorer
end BrowserMesh.Apps.Resources
