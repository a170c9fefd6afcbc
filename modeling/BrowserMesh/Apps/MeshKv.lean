import BrowserMesh.Primitives.Registers
import BrowserMesh.Primitives.VectorClock
import BrowserMesh.Apps.PeerRegistry
import BrowserMesh.Library.Replay
import BrowserMesh.Library.Transition

/-! # The mesh key-value store

* **Payloads.**  A message holds any values where the code expects timestamps and counters.  They are of any
  type with the operators of the language (`Operators`), and an operator may throw.
* **The gate.**  `handleIncoming` keeps the entries that name the sender as their writer, as far as the
  registry lets the sender write when the message arrives, and merges what it kept.
* **Results.**  Messages of senders that may not write change nothing, and an entry that a message
  changed is one that the message carried, unless the store holds `undefined` (`write_gate`). -/

namespace BrowserMesh.Apps
open Js BrowserMesh.Core Primitives Transition

variable {T V : Type}

/-- What the language makes of the values that a message can hold for a timestamp or a counter. -/
structure Operators (T : Type) where
  /-- A number as such a value. -/
  ofNumber : JsNumber → T
  /-- `a > b`; `none` when it throws. -/
  greater : T → T → Option Bool
  /-- `a === b`. -/
  strictEqual : T → T → Bool
  isNullish : T → Bool
  /-- The number that arithmetic makes of a value; `none` when it throws. -/
  toNumber : T → Option JsNumber

def Operators.numbers : Operators JsNumber where
  ofNumber := id
  greater a b := some (b.lt a)
  strictEqual := JsNumber.eq
  isNullish _ := false
  toNumber := some

namespace MeshKv

/-- A register of the document. -/
structure Register (T V : Type) where
  value : Entry V
  timestamp : T
  nodeId : JsString
  deriving DecidableEq

/-- An entry of a payload; `none` for a missing timestamp and for a node id that is not a string. -/
structure WireEntry (T V : Type) where
  value : V
  timestamp : Option T
  nodeId : Option JsString
  tombstone : Bool
  deriving DecidableEq

/-- `none` for entries that are not an object, and for a version that is `null` or `undefined`; an entry
of a payload is `none` when it is not an object. -/
structure Payload (T V : Type) where
  (type : JsString)
  entries : Option (JsObject (Option (WireEntry T V)))
  version : Option (JsObject T)

/-- What arrives: `none` for a document id that is not a string and for a missing payload. -/
structure IncomingData (T V : Type) where
  docId : Option JsString
  payload : Option (Payload T V)

/-- The synchronised document. -/
structure Document (T V : Type) where
  crdt : JsMap JsString (Register T V)
  version : JsMap JsString JsNumber
  deriving DecidableEq

section document
variable [HasNull V] (o : Operators T)

/-! ### Registers -/

/-- `timestamp > t || (timestamp === t && nodeId > n)`. -/
def newer (timestamp : T) (nodeId : JsString) (t : T) (n : JsString) : Option Bool :=
  (o.greater timestamp t).map fun greater => greater || (o.strictEqual timestamp t && decide (n < nodeId))

/-- `new LWWRegister(value, timestamp, nodeId)`. -/
def Register.construct (value : Entry V) (timestamp : T) (nodeId : JsString) : Register T V :=
  ⟨HasNull.orNull value, timestamp, nodeId⟩

/-- `new LWWRegister(s.value, s.timestamp, s.nodeId)`. -/
def Register.copy (s : Register T V) : Register T V := .construct s.value s.timestamp s.nodeId

omit [HasNull V] in
/-- `LWWRegister.set`. -/
def Register.set (r : Register T V) (value : Entry V) (timestamp : T) (nodeId : JsString) :
    Option (Register T V) :=
  (newer o timestamp nodeId r.timestamp r.nodeId).map fun wins =>
    if wins then ⟨value, timestamp, nodeId⟩ else r

/-- `LWWRegister.merge`. -/
def Register.merge (r other : Register T V) : Option (Register T V) :=
  (newer o other.timestamp other.nodeId r.timestamp r.nodeId).map fun wins =>
    if wins then other.copy else r.copy

/-- The register of an entry of a payload. -/
def WireEntry.register (e : WireEntry T V) : Register T V :=
  .construct (if e.tombstone then .tombstone else .live e.value) (e.timestamp.getD (o.ofNumber 0))
    (e.nodeId.getD [])

/-! ### The map -/

/-- `LWWMap.set`; `none` when the comparison throws. -/
def write (crdt : JsMap JsString (Register T V)) (key : JsString) (value : Entry V) (timestamp : T)
    (nodeId : JsString) : Option (JsMap JsString (Register T V)) :=
  match crdt.get? key with
  | none => some (crdt.set key (.construct value timestamp nodeId))
  | some r => (r.set o value timestamp nodeId).map (crdt.set key)

/-- `LWWMap.fromJSON`. -/
def fromJSON (entries : JsObject (WireEntry T V)) : JsMap JsString (Register T V) :=
  JsMap.ofEntries (entries.entries.map fun e => (e.1, e.2.register o))

/-- The register that the first loop of `LWWMap.merge` makes of one of its own. -/
def mergeRegister (other : JsMap JsString (Register T V)) (key : JsString) (r : Register T V) :
    Option (Register T V) :=
  match other.get? key with
  | some s => r.merge o s
  | none => some r.copy

/-- `LWWMap.merge`; `none` when a comparison throws. -/
def mergeMaps (own other : JsMap JsString (Register T V)) : Option (JsMap JsString (Register T V)) :=
  (own.entries.foldlM (fun merged e => (mergeRegister o other e.1 e.2).map (merged.set e.1))
    JsMap.empty).map fun merged =>
      other.entries.foldl (fun merged e =>
        if !own.has e.1 then merged.set e.1 e.2.copy else merged) merged

/-! ### The version -/

omit [HasNull V] in
/-- `VectorClock.get` of a received clock, as a number. -/
def counter (clock : JsMap JsString T) (nodeId : JsString) : Option JsNumber :=
  match clock.get? nodeId with
  | none => some 0
  | some count => if o.isNullish count then some 0 else o.toNumber count

/-- The loop of `VectorClock.compare`. -/
def compareLoop (own : JsMap JsString JsNumber) (other : JsMap JsString T) :
    List JsString → Bool → Bool → Option ClockOrder
  | [], hasLess, hasGreater =>
      some (if !hasLess && !hasGreater then .equal else if hasLess then .before else .after)
  | key :: keys, hasLess, hasGreater =>
      (counter o other key).bind fun b =>
        let a := (own.get? key).getD 0
        let less := hasLess || a.lt b
        let greater := hasGreater || b.lt a
        if less && greater then some .concurrent else compareLoop own other keys less greater

/-- `VectorClock.compare`; `none` when a comparison throws. -/
def compareVersions (own : JsMap JsString JsNumber) (other : JsMap JsString T) : Option ClockOrder :=
  compareLoop o own other (JsSet.ofList (own.keys ++ other.keys)).elems false false

/-- `VectorClock.merge`; `none` when `Math.max` throws. -/
def mergeVersions (own : JsMap JsString JsNumber) (other : JsMap JsString T) :
    Option (JsMap JsString JsNumber) :=
  other.entries.foldlM (fun merged e => (o.toNumber e.2).map fun count =>
    merged.set e.1 (((merged.get? e.1).getD 0).mathMax count)) own

/-! ### The engine -/

/-- `engine.merge`, and whether it notifies the subscribers.  What throws before the assignment of the map
leaves the document as it was; the merge of the versions comes after it. -/
def Document.merge (doc : Document T V) (entries : JsObject (WireEntry T V)) (version : Option (JsObject T)) :
    Document T V × Bool :=
  match version with
  | none => (doc, false)
  | some version =>
      let remoteCrdt := fromJSON o entries
      let remoteVersion := JsMap.ofEntries version.entries
      match compareVersions o doc.version remoteVersion, mergeMaps o doc.crdt remoteCrdt with
      | some cmp, some crdt =>
          match mergeVersions o doc.version remoteVersion with
          | none => ({ doc with crdt }, false)
          | some version =>
              let isNewInformation := decide (cmp ≠ .after) && decide (cmp ≠ .equal)
              (⟨crdt, version⟩, isNewInformation)
      | _, _ => (doc, false)

/-- `engine.update` with one write under the id of the engine, and whether it notifies the subscribers. -/
def Document.update (doc : Document T V) (key : JsString) (value : Entry V) (timestamp : T)
    (nodeId : JsString) : Document T V × Bool :=
  match write o doc.crdt key value timestamp nodeId with
  | none => (doc, false)
  | some crdt =>
      (⟨crdt, doc.version.set nodeId (((doc.version.get? nodeId).getD 0).add (JsNumber.ofNat 1))⟩, true)

end document
end MeshKv

/-! ### The service -/

/-- The service of one store at one pod, with the registry that it asks. -/
structure MeshKv (T V : Type) where
  storeId : JsString
  podId : JsString
  doc : MeshKv.Document T V
  watchTargets : JsSet JsString
  clock : JsNumber
  registry : PeerRegistry
  deriving DecidableEq

inductive KvEvent (T V : Type) where
  | set (key : JsString) (value : V) (now : JsNumber)
  | delete (key : JsString) (now : JsNumber)
  | incoming (fromPubKey : JsString) (data : MeshKv.IncomingData T V) (now : JsNumber)
  | watch (pubKey : JsString)
  | unwatch (pubKey : JsString)
  | registry (registry : PeerRegistry)

namespace MeshKv

/-- `attach`. -/
def attach (T V : Type) (storeId podId : JsString) (registry : PeerRegistry) : MeshKv T V :=
  ⟨storeId, podId, ⟨JsMap.empty, JsMap.empty⟩, JsSet.empty, 0, registry⟩

/-- `docIdFor` and `resourceFor`. -/
def resource (m : MeshKv T V) : JsString := js "kv:" ++ m.storeId

/-- `ctx.registry.checkAccess(writer, resource, 'write')` allows. -/
def MayWrite (m : MeshKv T V) (writer : JsString) (now : JsNumber) : Prop :=
  m.registry.checkAccess now writer m.resource (js "write") = .ok ()

instance (m : MeshKv T V) (writer : JsString) (now : JsNumber) : Decidable (m.MayWrite writer now) :=
  inferInstanceAs (Decidable (_ = _))

/-- `nextTimestamp`. -/
def nextTimestamp (m : MeshKv T V) (now : JsNumber) : JsNumber :=
  if m.clock.lt now then now else m.clock.add (JsNumber.ofNat 1)

/-- What `handleIncoming` does with one entry of the payload. -/
def keepEntry (m : MeshKv T V) (fromPubKey : JsString) (now : JsNumber) (sanitized : JsObject (WireEntry T V))
    (key : JsString) : Option (WireEntry T V) → JsObject (WireEntry T V)
  | none => sanitized
  | some regState =>
      if regState.nodeId = some fromPubKey ∧ m.MayWrite fromPubKey now then sanitized.assign key regState
      else sanitized

/-- The loop of `handleIncoming` over the entries of the payload. -/
def sanitizedEntries (m : MeshKv T V) (fromPubKey : JsString) (now : JsNumber)
    (rawEntries : JsObject (Option (WireEntry T V))) : JsObject (WireEntry T V) :=
  rawEntries.entries.foldl (fun sanitized e => m.keepEntry fromPubKey now sanitized e.1 e.2) JsObject.empty

/-- What the subscriber of the engine sends: the document, to every watched peer. -/
def broadcast (m : MeshKv T V) : List (JsString × Document T V) :=
  m.watchTargets.elems.map fun pubKey => (pubKey, m.doc)

section service
variable [HasNull V] (o : Operators T)

/-- `set` and `delete` of the service, and whether they notify the subscriber. -/
def localWrite (m : MeshKv T V) (key : JsString) (value : Entry V) (now : JsNumber) : MeshKv T V × Bool :=
  let timestamp := m.nextTimestamp now
  let r := m.doc.update o key value (o.ofNumber timestamp) m.podId
  ({ m with clock := timestamp, doc := r.1 }, r.2)

def handleIncoming (m : MeshKv T V) (fromPubKey : JsString) (now : JsNumber) (payload : Payload T V) :
    MeshKv T V × Bool :=
  match payload.entries with
  | none => (m, false)
  | some rawEntries =>
      let sanitized := m.sanitizedEntries fromPubKey now rawEntries
      if sanitized.entries.length = 0 then (m, false)
      else
        let r := m.doc.merge o sanitized payload.version
        ({ m with doc := r.1 }, r.2)

/-- The handler of incoming data, and whether it notifies the subscriber. -/
def onIncomingData (m : MeshKv T V) (fromPubKey : JsString) (data : IncomingData T V) (now : JsNumber) :
    MeshKv T V × Bool :=
  match data.payload with
  | none => (m, false)
  | some payload =>
      if data.docId ≠ some m.resource ∨ payload.type ≠ js "lww-map" then (m, false)
      else m.handleIncoming o fromPubKey now payload

def step (m : MeshKv T V) : KvEvent T V → MeshKv T V
  | .set key value now => (m.localWrite o key (.live value) now).1
  | .delete key now => (m.localWrite o key .tombstone now).1
  | .incoming fromPubKey data now => (m.onIncomingData o fromPubKey data now).1
  | .watch pubKey => { m with watchTargets := m.watchTargets.add pubKey }
  | .unwatch pubKey => { m with watchTargets := m.watchTargets.delete pubKey }
  | .registry registry => { m with registry }

def run (m : MeshKv T V) (events : List (KvEvent T V)) : MeshKv T V := events.foldl (step o) m

/-- A message whose sender may not write when it arrives. -/
def refuses (m : MeshKv T V) : KvEvent T V → Bool
  | .incoming fromPubKey _ now => !decide (m.MayWrite fromPubKey now)
  | _ => false

end service

/-! ### The gate -/

variable {m : MeshKv T V} {fromPubKey : JsString} {now : JsNumber}

theorem sanitizedEntries_of_not_mayWrite (h : ¬ m.MayWrite fromPubKey now)
    (rawEntries : JsObject (Option (WireEntry T V))) :
    m.sanitizedEntries fromPubKey now rawEntries = JsObject.empty := by
  have hkeep : ∀ sanitized key raw, m.keepEntry fromPubKey now sanitized key raw = sanitized := by
    intro sanitized key raw
    cases raw with
    | none => rfl
    | some regState => exact if_neg fun hpass => h hpass.2
  rw [sanitizedEntries]
  induction rawEntries.entries with
  | nil => rfl
  | cons e l ih => rw [List.foldl_cons, hkeep, ih]

/-- One step of the loop adds at most its own entry, which names the sender. -/
theorem get?_keepEntry {sanitized : JsObject (WireEntry T V)} {key key' : JsString}
    {raw : Option (WireEntry T V)} {e : WireEntry T V}
    (h : (m.keepEntry fromPubKey now sanitized key' raw).props.get? key = some e) :
    sanitized.props.get? key = some e ∨ (key = key' ∧ raw = some e ∧ e.nodeId = some fromPubKey) := by
  cases raw with
  | none => exact Or.inl h
  | some regState =>
      rw [keepEntry] at h
      split_ifs at h with hpass
      · rw [JsObject.assign] at h
        split_ifs at h
        · exact Or.inl h
        · rw [JsMap.get?_set] at h
          split_ifs at h with hkey
          · obtain rfl := Option.some.inj h
            exact Or.inr ⟨hkey, rfl, hpass.1⟩
          · exact Or.inl h
      · exact Or.inl h

/-- What passes the gate is in the message, and names the sender. -/
theorem mem_sanitizedEntries {rawEntries : JsObject (Option (WireEntry T V))} {key : JsString}
    {e : WireEntry T V} (h : (key, e) ∈ (m.sanitizedEntries fromPubKey now rawEntries).entries) :
    rawEntries.props.get? key = some (some e) ∧ e.nodeId = some fromPubKey := by
  have hloop : ∀ (l : List (JsString × Option (WireEntry T V))) (sanitized : JsObject (WireEntry T V)),
      (l.foldl (fun sanitized e => m.keepEntry fromPubKey now sanitized e.1 e.2) sanitized).props.get? key =
        some e →
      sanitized.props.get? key = some e ∨ ((key, some e) ∈ l ∧ e.nodeId = some fromPubKey) := by
    intro l
    induction l with
    | nil => exact fun sanitized hget => Or.inl hget
    | cons raw l ih =>
        intro sanitized hget
        rcases ih _ hget with hhead | ⟨hmem, hwriter⟩
        · rcases get?_keepEntry hhead with hold | ⟨hkey, hraw, hwriter⟩
          · exact Or.inl hold
          · refine Or.inr ⟨?_, hwriter⟩
            rw [hkey, ← hraw]
            exact List.mem_cons_self
        · exact Or.inr ⟨List.mem_cons_of_mem raw hmem, hwriter⟩
  have hget : (m.sanitizedEntries fromPubKey now rawEntries).props.get? key = some e :=
    JsMap.mem_entries_iff.mp ((JsObject.entries_perm _).mem_iff.mp h)
  rcases hloop rawEntries.entries JsObject.empty hget with hempty | ⟨hmem, hwriter⟩
  · cases hempty
  · exact ⟨JsMap.mem_entries_iff.mp ((JsObject.entries_perm rawEntries).mem_iff.mp hmem), hwriter⟩

section results
variable [HasNull V] {o : Operators T}

/-- A message of a sender that may not write changes nothing. -/
theorem step_of_refuses {event : KvEvent T V} (h : m.refuses event = true) : m.step o event = m := by
  cases event with
  | incoming fromPubKey data now =>
      have hdenied : ¬ m.MayWrite fromPubKey now := by simpa [refuses] using h
      rw [step, onIncomingData]
      cases data.payload with
      | none => rfl
      | some payload =>
          dsimp only
          split_ifs
          · rfl
          · rw [handleIncoming]
            cases payload.entries with
            | none => rfl
            | some rawEntries =>
                dsimp only
                rw [sanitizedEntries_of_not_mayWrite hdenied]
                rfl
  | set key value now => cases h
  | delete key now => cases h
  | watch pubKey => cases h
  | unwatch pubKey => cases h
  | registry registry => cases h

/-! ### Merging -/

/-- No register holds `undefined`. -/
def AllDefined (crdt : JsMap JsString (Register T V)) : Prop :=
  ∀ key r, crdt.get? key = some r → Defined r.value

variable {r : Register T V}

theorem copy_of_defined (h : Defined r.value) : r.copy = r := by
  have hvalue : HasNull.orNull r.value = r.value := h
  rw [Register.copy, Register.construct, hvalue]

theorem defined_construct (value : Entry V) (timestamp : T) (nodeId : JsString) :
    Defined (Register.construct value timestamp nodeId).value := HasNull.orNull_orNull value

theorem merge_cases {s t : Register T V} (h : r.merge o s = some t) : t = s.copy ∨ t = r.copy := by
  obtain ⟨wins, -, rfl⟩ := Option.map_eq_some_iff.mp h
  cases wins with
  | true => exact Or.inl rfl
  | false => exact Or.inr rfl

variable {key : JsString}

theorem mergeRegister_cases {other : JsMap JsString (Register T V)} {t : Register T V}
    (h : mergeRegister o other key r = some t) :
    t = r.copy ∨ ∃ s, other.get? key = some s ∧ t = s.copy := by
  rw [mergeRegister] at h
  cases hother : other.get? key with
  | none =>
      rw [hother] at h
      exact Or.inl (Option.some.inj h).symm
  | some s =>
      rw [hother] at h
      rcases merge_cases h with hs | hr
      · exact Or.inr ⟨s, rfl, hs⟩
      · exact Or.inl hr

theorem get?_mergeMaps_own {own other merged : JsMap JsString (Register T V)}
    (h : mergeMaps o own other = some merged) (hget : own.get? key = some r) :
    ∃ t, mergeRegister o other key r = some t ∧ merged.get? key = some t := by
  obtain ⟨first, hfirst, rfl⟩ := Option.map_eq_some_iff.mp h
  have hown := JsMap.get?_foldlM_set own.nodup hfirst key
  have hsecond := JsMap.get?_foldl_set_if (fun k => !own.has k)
    (fun _ (_ : Option (Register T V)) r => Register.copy r) other.entries other.nodup first key
  have hlookup : ∀ map : JsMap JsString (Register T V), assoc key map.entries = map.get? key := fun _ => rfl
  rw [hlookup] at hown hsecond
  rw [hget] at hown
  obtain ⟨t, ht, hheld⟩ := hown
  refine ⟨t, ht, ?_⟩
  cases hother : other.get? key with
  | none =>
      rw [hother] at hsecond
      exact hsecond.trans hheld
  | some s =>
      rw [hother] at hsecond
      exact hsecond.trans ((if_neg (by simp [JsMap.has, hget])).trans hheld)

/-- A key of the merged map holds a copy of what one of the two maps holds. -/
theorem get?_mergeMaps {own other merged : JsMap JsString (Register T V)}
    (h : mergeMaps o own other = some merged) (key : JsString) :
    merged.get? key = (own.get? key).map Register.copy ∨
      ∃ s, other.get? key = some s ∧ merged.get? key = some s.copy := by
  cases hget : own.get? key with
  | none =>
      obtain ⟨first, hfirst, rfl⟩ := Option.map_eq_some_iff.mp h
      have hown := JsMap.get?_foldlM_set own.nodup hfirst key
      have hsecond := JsMap.get?_foldl_set_if (fun k => !own.has k)
        (fun _ (_ : Option (Register T V)) r => Register.copy r) other.entries other.nodup first key
      have hlookup : ∀ map : JsMap JsString (Register T V), assoc key map.entries = map.get? key := fun _ => rfl
      rw [hlookup] at hown hsecond
      rw [hget] at hown
      cases hother : other.get? key with
      | none =>
          rw [hother] at hsecond
          exact Or.inl (hsecond.trans hown)
      | some s =>
          rw [hother] at hsecond
          exact Or.inr ⟨s, rfl, hsecond.trans (if_pos (by simp [JsMap.has, hget]))⟩
  | some r =>
      obtain ⟨t, ht, hkept⟩ := get?_mergeMaps_own h hget
      rcases mergeRegister_cases ht with rfl | ⟨s, hs, rfl⟩
      · exact Or.inl hkept
      · exact Or.inr ⟨s, hs, hkept⟩

variable {entries : JsObject (WireEntry T V)}

theorem get?_fromJSON
    (h : (fromJSON o entries).get? key = some r) : ∃ e, (key, e) ∈ entries.entries ∧ r = e.register o := by
  obtain ⟨entry, hentry, heq⟩ := List.mem_map.mp (JsMap.mem_of_get?_ofEntries h)
  obtain ⟨rfl, rfl⟩ := Prod.mk.inj heq
  exact ⟨entry.2, hentry, rfl⟩

variable {doc : Document T V}

/-- A merge that does not throw at the maps notifies when the versions can be merged and the payload's is
news. -/
theorem merge_of_some {received : JsObject T} {cmp : ClockOrder} {crdt : JsMap JsString (Register T V)}
    (hcmp : compareVersions o doc.version (JsMap.ofEntries received.entries) = some cmp)
    (hcrdt : mergeMaps o doc.crdt (fromJSON o entries) = some crdt) :
    (doc.merge o entries (some received)).1.crdt = crdt ∧
      ((doc.merge o entries (some received)).2 = true ↔
        mergeVersions o doc.version (JsMap.ofEntries received.entries) ≠ none ∧
          cmp ≠ .after ∧ cmp ≠ .equal) := by
  simp only [Document.merge, hcmp, hcrdt]
  cases mergeVersions o doc.version (JsMap.ofEntries received.entries) with
  | none => simp
  | some merged => simp

theorem merge_cases_maps (doc : Document T V) (entries : JsObject (WireEntry T V))
    (version : Option (JsObject T)) :
    doc.merge o entries version = (doc, false) ∨ ∃ received crdt, version = some received ∧
      compareVersions o doc.version (JsMap.ofEntries received.entries) ≠ none ∧
      mergeMaps o doc.crdt (fromJSON o entries) = some crdt ∧
      (doc.merge o entries version).1.crdt = crdt := by
  cases version with
  | none => exact Or.inl rfl
  | some received =>
      cases hcmp : compareVersions o doc.version (JsMap.ofEntries received.entries) with
      | none => exact Or.inl (by simp [Document.merge, hcmp])
      | some cmp =>
          cases hcrdt : mergeMaps o doc.crdt (fromJSON o entries) with
          | none => exact Or.inl (by simp [Document.merge, hcmp, hcrdt])
          | some crdt =>
              refine Or.inr ⟨received, crdt, rfl, ?_, rfl, (merge_of_some hcmp hcrdt).1⟩
              rw [hcmp]
              exact Option.some_ne_none cmp

/-- After a merge a key holds what it held, rebuilt, or the register of an entry of the payload. -/
theorem get?_merge (doc : Document T V) (entries : JsObject (WireEntry T V)) (version : Option (JsObject T))
    (key : JsString) :
    (doc.merge o entries version).1.crdt.get? key = doc.crdt.get? key ∨
    (doc.merge o entries version).1.crdt.get? key = (doc.crdt.get? key).map Register.copy ∨
    ∃ e, (key, e) ∈ entries.entries ∧
      (doc.merge o entries version).1.crdt.get? key = some (e.register o) := by
  rcases merge_cases_maps (o := o) doc entries version with hsame | ⟨-, crdt, -, -, hmerge, hcrdt⟩
  · exact Or.inl (congrArg (fun r => r.1.crdt.get? key) hsame)
  · rw [hcrdt]
    rcases get?_mergeMaps hmerge key with hkept | ⟨s, hs, htaken⟩
    · exact Or.inr (Or.inl hkept)
    · obtain ⟨e, he, rfl⟩ := get?_fromJSON hs
      refine Or.inr (Or.inr ⟨e, he, htaken.trans (congrArg some ?_)⟩)
      exact copy_of_defined (defined_construct _ _ _)

/-- The entry of a key changed, so the merge took it from the payload. -/
theorem carried_of_merge_ne (hdoc : AllDefined doc.crdt) {version : Option (JsObject T)}
    (h : (doc.merge o entries version).1.crdt.get? key ≠ doc.crdt.get? key) :
    ∃ e, (key, e) ∈ entries.entries ∧
      (doc.merge o entries version).1.crdt.get? key = some (e.register o) := by
  rcases get?_merge (o := o) doc entries version key with hsame | hcopy | htaken
  · exact absurd hsame h
  · refine absurd (hcopy.trans ?_) h
    cases hget : doc.crdt.get? key with
    | none => rfl
    | some r => exact congrArg some (copy_of_defined (hdoc key r hget))
  · exact htaken

theorem allDefined_merge (hdoc : AllDefined doc.crdt)
    (entries : JsObject (WireEntry T V)) (version : Option (JsObject T)) :
    AllDefined (doc.merge o entries version).1.crdt := by
  intro key r hr
  by_cases hsame : (doc.merge o entries version).1.crdt.get? key = doc.crdt.get? key
  · exact hdoc key r (hsame ▸ hr)
  · obtain ⟨e, -, htaken⟩ := carried_of_merge_ne hdoc hsame
    rw [htaken] at hr
    obtain rfl := Option.some.inj hr
    exact defined_construct _ _ _

/-! ### Local writes -/

/-- The event does not set a key that the store holds to `undefined`. -/
def WritesDefined (m : MeshKv T V) : KvEvent T V → Prop
  | .set key value _ => m.doc.crdt.has key = true → Defined value
  | _ => True

theorem allDefined_update (hdoc : AllDefined doc.crdt)
    {value : Entry V} (hvalue : doc.crdt.has key = true → Defined value) (timestamp : T) (nodeId : JsString) :
    AllDefined (doc.update o key value timestamp nodeId).1.crdt := by
  have hset : ∀ r : Register T V, Defined r.value → AllDefined (doc.crdt.set key r) := by
    intro r hr key' r' hr'
    rw [JsMap.get?_set] at hr'
    split_ifs at hr'
    · exact Option.some.inj hr' ▸ hr
    · exact hdoc key' r' hr'
  rw [Document.update, write]
  cases hget : doc.crdt.get? key with
  | none => exact hset _ (defined_construct _ _ _)
  | some r =>
      dsimp only
      cases hr : r.set o value timestamp nodeId with
      | none => exact hdoc
      | some r' =>
          refine hset r' ?_
          obtain ⟨wins, -, rfl⟩ := Option.map_eq_some_iff.mp hr
          cases wins with
          | true => exact hvalue (by simp [JsMap.has, hget])
          | false => exact hdoc key r hget

/-- A message is dropped, or some of its entries pass the gate and are merged. -/
theorem onIncomingData_cases (m : MeshKv T V) (fromPubKey : JsString) (data : IncomingData T V)
    (now : JsNumber) :
    m.onIncomingData o fromPubKey data now = (m, false) ∨ ∃ payload rawEntries,
      data.payload = some payload ∧ payload.entries = some rawEntries ∧
      m.onIncomingData o fromPubKey data now =
        ({ m with doc := (m.doc.merge o (m.sanitizedEntries fromPubKey now rawEntries) payload.version).1 },
          (m.doc.merge o (m.sanitizedEntries fromPubKey now rawEntries) payload.version).2) := by
  rw [onIncomingData]
  cases hpayload : data.payload with
  | none => exact Or.inl rfl
  | some payload =>
      dsimp only
      split_ifs with hforeign
      · exact Or.inl rfl
      · rw [handleIncoming]
        cases hentries : payload.entries with
        | none => exact Or.inl rfl
        | some rawEntries =>
            dsimp only
            split_ifs with hempty
            · exact Or.inl rfl
            · exact Or.inr ⟨payload, rawEntries, rfl, hentries, rfl⟩

theorem allDefined_step {m : MeshKv T V} {event : KvEvent T V} (hm : AllDefined m.doc.crdt)
    (hevent : m.WritesDefined event) : AllDefined (m.step o event).doc.crdt := by
  cases event with
  | set key value now =>
      have hvalue : m.doc.crdt.has key = true → Defined (Entry.live value) :=
        fun hhas => congrArg Entry.live (hevent hhas)
      exact allDefined_update hm hvalue _ _
  | delete key now =>
      have hvalue : m.doc.crdt.has key = true → Defined (Entry.tombstone : Entry V) := fun _ => rfl
      exact allDefined_update hm hvalue _ _
  | incoming fromPubKey data now =>
      rw [step]
      rcases onIncomingData_cases (o := o) m fromPubKey data now with hsame | ⟨payload, raw, -, -, hmerged⟩
      · rw [hsame]
        exact hm
      · rw [hmerged]
        exact allDefined_merge hm _ _
  | watch pubKey => exact hm
  | unwatch pubKey => exact hm
  | registry registry => exact hm

/-! ### Runs -/

/-- A store as a machine: every event is possible. -/
def machine (o : Operators T) (storeId podId : JsString) (registry : PeerRegistry) :
    Machine (MeshKv T V) (KvEvent T V) := ⟨attach T V storeId podId registry, fun m e => some (m.step o e)⟩

/-- The entry of a key after a message is one that the message carried and that names its sender. -/
def Carried (o : Operators T) (fromPubKey : JsString) (data : IncomingData T V) (key : JsString)
    (now' : Option (Register T V)) : Prop :=
  ∃ payload rawEntries e, data.payload = some payload ∧ payload.entries = some rawEntries ∧
    rawEntries.props.get? key = some (some e) ∧ e.nodeId = some fromPubKey ∧ now' = some (e.register o)

theorem allDefined_of_reach {storeId podId : JsString} {registry : PeerRegistry} {m : MeshKv T V}
    (h : (machine o storeId podId registry).Reach WritesDefined m) : AllDefined m.doc.crdt := by
  refine Machine.Reach.invariant (I := fun m => AllDefined m.doc.crdt) ?_ ?_ h
  · intro key r hr
    cases hr
  · intro m event m' hm hevent hstep
    obtain rfl := Option.some.inj hstep
    exact allDefined_step hm hevent

theorem carried_of_step_ne {m : MeshKv T V} (hm : AllDefined m.doc.crdt) {data : IncomingData T V}
    (h : (m.onIncomingData o fromPubKey data now).1.doc.crdt.get? key ≠ m.doc.crdt.get? key) :
    Carried o fromPubKey data key ((m.onIncomingData o fromPubKey data now).1.doc.crdt.get? key) := by
  rcases onIncomingData_cases (o := o) m fromPubKey data now with
    hsame | ⟨payload, raw, hpayload, hentries, hmerged⟩
  · exact absurd (congrArg (fun r => r.1.doc.crdt.get? key) hsame) h
  · rw [hmerged] at h ⊢
    obtain ⟨e, he, htaken⟩ := carried_of_merge_ne hm h
    obtain ⟨hraw, hwriter⟩ := mem_sanitizedEntries he
    exact ⟨payload, raw, e, hpayload, hentries, hraw, hwriter, htaken⟩

end results

/-- **The write gate.**  Leaving out the messages of peers that may not write when these arrive gives the
same store; and as long as no key that the store holds is set to `undefined`, an entry that a message
changed is one that the message carried and that names its sender. -/
theorem write_gate [HasNull V] (o : Operators T) (storeId podId : JsString) (registry : PeerRegistry) :
    (∀ events : List (KvEvent T V),
      (attach T V storeId podId registry).run o
        (Replay.admitted (step o) (refuses) (attach T V storeId podId registry) events) =
        (attach T V storeId podId registry).run o events) ∧
    ∀ m : MeshKv T V, (machine o storeId podId registry).Reach WritesDefined m →
      ∀ fromPubKey data now key,
        (m.step o (.incoming fromPubKey data now)).doc.crdt.get? key ≠ m.doc.crdt.get? key →
          Carried o fromPubKey data key ((m.step o (.incoming fromPubKey data now)).doc.crdt.get? key) := by
  refine ⟨fun events => ?_, fun m hm fromPubKey data now key hne => ?_⟩
  · exact Replay.foldl_admitted (fun m event => step_of_refuses) _ events
  · exact carried_of_step_ne (allDefined_of_reach hm) hne

/-- Alice lets Bob write the store `s`. -/
def bobWrites : PeerRegistry :=
  (PeerRegistry.new (MeshACL.new (js "alice"))).grantCapabilities (js "bob") [js "kv:s:write"] none 0

/-- A message that carries one entry of its writer. -/
def oneEntry (writer key : JsString) (value : JsValue ℕ) : IncomingData JsNumber (JsValue ℕ) where
  docId := some (js "kv:s")
  payload := some
    { type := js "lww-map"
      entries := some (JsObject.empty.assign key (some ⟨value, some 0, some writer, false⟩))
      version := some JsObject.empty }

theorem write_gate_bob :
    (attach JsNumber (JsValue ℕ) (js "s") (js "alice") bobWrites).run .numbers
        [.incoming (js "eve") (oneEntry (js "eve") (js "k") (.of 1)) 0] =
      attach JsNumber (JsValue ℕ) (js "s") (js "alice") bobWrites ∧
    Carried .numbers (js "bob") (oneEntry (js "bob") (js "j") (.of 1)) (js "j")
      (((attach JsNumber (JsValue ℕ) (js "s") (js "alice") bobWrites).step .numbers
        (.incoming (js "bob") (oneEntry (js "bob") (js "j") (.of 1)) 0)).doc.crdt.get? (js "j")) :=
  ⟨((write_gate .numbers (js "s") (js "alice") bobWrites).1
      [.incoming (js "eve") (oneEntry (js "eve") (js "k") (.of 1)) 0]).symm.trans (by decide +kernel),
    (write_gate .numbers (js "s") (js "alice") bobWrites).2 _ .init (js "bob")
      (oneEntry (js "bob") (js "j") (.of 1)) 0 (js "j") (by decide +kernel)⟩

/-- A key set to `undefined` turns `null` when a message about another key is merged. -/
theorem undefined_turns_null : ¬ ∀ (storeId podId : JsString) (registry : PeerRegistry)
    (m : MeshKv JsNumber (JsValue ℕ)), (machine .numbers storeId podId registry).Reach (fun _ _ => True) m →
    ∀ fromPubKey data now key,
      (m.step .numbers (.incoming fromPubKey data now)).doc.crdt.get? key ≠ m.doc.crdt.get? key →
        Carried .numbers fromPubKey data key
          ((m.step .numbers (.incoming fromPubKey data now)).doc.crdt.get? key) := by
  intro h
  obtain ⟨m, -, hreach, hne⟩ := Machine.exists_of_run
    (P := fun m : MeshKv JsNumber (JsValue ℕ) =>
      (m.step .numbers (.incoming (js "bob") (oneEntry (js "bob") (js "j") (.of 1)) 0)).doc.crdt.get?
        (js "k") ≠ m.doc.crdt.get? (js "k"))
    (show ((machine .numbers (js "s") (js "alice") bobWrites).run (fun _ _ => True)
      (machine .numbers (js "s") (js "alice") bobWrites).init
      [.set (js "k") (.of 1) 0, .set (js "k") .undefined 0]).any _ = true by decide +kernel)
  obtain ⟨payload, rawEntries, e, hpayload, hentries, hraw, -⟩ := h (js "s") (js "alice") bobWrites m hreach
    (js "bob") (oneEntry (js "bob") (js "j") (.of 1)) 0 (js "k") hne
  obtain rfl := Option.some.inj hpayload
  obtain rfl := Option.some.inj hentries
  have habsent : (JsObject.empty.assign (js "j") (some (⟨.of 1, some 0, some (js "bob"), false⟩ :
      WireEntry JsNumber (JsValue ℕ)))).props.get? (js "k") = none := by decide +kernel
  rw [habsent] at hraw
  cases hraw

end MeshKv
end BrowserMesh.Apps
