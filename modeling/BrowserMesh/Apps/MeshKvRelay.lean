import BrowserMesh.Apps.MeshKv

/-! # Relaying what a message changed

* **When the engine notifies.**  A merge notifies when it does not throw and the version of the payload has a
  greater counter than that of the document (`compareLoop_news`).
* **What a message does to the map** does not depend on the versions (`Reaches`).
* **Results.**  The changes that messages make are relayed exactly in the runs in which a message that
  displaces a live value has a version that is news (`relayed_iff`).  The gate drops entries and keeps the
  version that counts them, so a message that brings these entries later is no news. -/

namespace BrowserMesh.Apps.MeshKv
open Js BrowserMesh.Core Primitives Transition

variable {T V : Type} {o : Operators T}

/-! ### Versions -/

/-- The received version has a counter greater than the document's, and no counter that cannot be merged. -/
def HasNews (o : Operators T) (own : JsMap JsString JsNumber) (received : JsMap JsString T) : Prop :=
  (∀ e ∈ received.entries, o.toNumber e.2 ≠ none) ∧
    ∃ nodeId count, counter o received nodeId = some count ∧ ((own.get? nodeId).getD 0).lt count = true

variable {own : JsMap JsString JsNumber} {received : JsMap JsString T}

theorem compareLoop_news {keys : List JsString}
    {less greater : Bool} {cmp : ClockOrder} (h : compareLoop o own received keys less greater = some cmp) :
    (cmp ≠ .after ∧ cmp ≠ .equal) ↔ less = true ∨ ∃ nodeId ∈ keys, ∃ count,
      counter o received nodeId = some count ∧ ((own.get? nodeId).getD 0).lt count = true := by
  induction keys generalizing less greater with
  | nil =>
      obtain rfl := Option.some.inj h
      cases less <;> cases greater <;> simp
  | cons key keys ih =>
      rw [compareLoop] at h
      obtain ⟨count, hcount, htail⟩ := Option.bind_eq_some_iff.mp h
      dsimp only at htail
      have hkey : (∃ c, counter o received key = some c ∧ ((own.get? key).getD 0).lt c = true) ↔
          ((own.get? key).getD 0).lt count = true := by
        rw [hcount]
        exact ⟨fun ⟨c, hc, hlt⟩ => Option.some.inj hc ▸ hlt, fun hlt => ⟨count, rfl, hlt⟩⟩
      simp only [List.mem_cons, exists_eq_or_imp, hkey]
      split_ifs at htail with hboth
      · obtain rfl := Option.some.inj htail
        rw [Bool.and_eq_true, Bool.or_eq_true] at hboth
        rw [← or_assoc]
        exact iff_of_true ⟨nofun, nofun⟩ (Or.inl hboth.1)
      · rw [ih htail, Bool.or_eq_true, or_assoc]

theorem compareVersions_news {cmp : ClockOrder} (h : compareVersions o own received = some cmp) :
    (cmp ≠ .after ∧ cmp ≠ .equal) ↔ ∃ nodeId count,
      counter o received nodeId = some count ∧ ((own.get? nodeId).getD 0).lt count = true := by
  rw [compareLoop_news h]
  refine ⟨fun hnews => ?_, fun ⟨nodeId, count, hcount, hlt⟩ => Or.inr ⟨nodeId, ?_, count, hcount, hlt⟩⟩
  · obtain ⟨nodeId, -, hcount⟩ := hnews.resolve_left Bool.false_ne_true
    exact ⟨nodeId, hcount⟩
  · rw [JsSet.mem_elems, JsSet.mem_ofList, List.mem_append]
    by_contra habsent
    rw [not_or] at habsent
    rw [counter, JsMap.get?_eq_none_iff.mpr habsent.2] at hcount
    rw [JsMap.get?_eq_none_iff.mpr habsent.1, ← Option.some.inj hcount] at hlt
    exact absurd hlt (by decide)

theorem mergeVersions_ne_none :
    mergeVersions o own received ≠ none ↔ ∀ e ∈ received.entries, o.toNumber e.2 ≠ none := by
  rw [mergeVersions]
  induction received.entries generalizing own with
  | nil => simp
  | cons e l ih =>
      rw [List.foldlM_cons, List.forall_mem_cons]
      cases hcount : o.toNumber e.2 with
      | none => simp
      | some count =>
          rw [Option.map_some, Option.bind_eq_bind, Option.bind_some, ih]
          simp

/-! ### Messages -/

variable [HasNull V] {m : MeshKv T V} {fromPubKey : JsString} {data : IncomingData T V} {now : JsNumber}

/-- The message is merged: it brings the version `received`, and the map of the document becomes `merged`. -/
def Reaches (o : Operators T) (m : MeshKv T V) (fromPubKey : JsString) (data : IncomingData T V)
    (now : JsNumber) (received : JsObject T) (merged : JsMap JsString (Register T V)) : Prop :=
  ∃ payload rawEntries, data.payload = some payload ∧ data.docId = some m.resource ∧
    payload.type = js "lww-map" ∧ payload.entries = some rawEntries ∧
    (m.sanitizedEntries fromPubKey now rawEntries).entries.length ≠ 0 ∧ payload.version = some received ∧
    compareVersions o m.doc.version (JsMap.ofEntries received.entries) ≠ none ∧
    mergeMaps o m.doc.crdt (fromJSON o (m.sanitizedEntries fromPubKey now rawEntries)) = some merged

theorem onIncomingData_of_reaches {received : JsObject T} {merged : JsMap JsString (Register T V)}
    (h : m.Reaches o fromPubKey data now received merged) :
    (m.onIncomingData o fromPubKey data now).1.doc.crdt = merged ∧
      ((m.onIncomingData o fromPubKey data now).2 = true ↔
        HasNews o m.doc.version (JsMap.ofEntries received.entries)) := by
  obtain ⟨payload, rawEntries, hpayload, hdoc, htype, hentries, hkept, hversion, hcompare, hmerge⟩ := h
  obtain ⟨cmp, hcmp⟩ := Option.ne_none_iff_exists'.mp hcompare
  obtain ⟨hcrdt, hnotified⟩ := merge_of_some hcmp hmerge
  have hresult : m.onIncomingData o fromPubKey data now =
      ({ m with doc := (m.doc.merge o (m.sanitizedEntries fromPubKey now rawEntries) (some received)).1 },
        (m.doc.merge o (m.sanitizedEntries fromPubKey now rawEntries) (some received)).2) := by
    rw [onIncomingData, hpayload]
    dsimp only
    rw [if_neg (by rw [hdoc, htype]; simp), handleIncoming, hentries]
    dsimp only
    rw [if_neg hkept, hversion]
  rw [hresult]
  exact ⟨hcrdt, hnotified.trans (and_congr mergeVersions_ne_none (compareVersions_news hcmp))⟩

theorem reaches_of_ne
    (h : (m.onIncomingData o fromPubKey data now).1.doc.crdt ≠ m.doc.crdt) :
    ∃ received merged, m.Reaches o fromPubKey data now received merged := by
  rw [onIncomingData] at h
  cases hpayload : data.payload with
  | none =>
      rw [hpayload] at h
      exact absurd rfl h
  | some payload =>
      rw [hpayload] at h
      dsimp only at h
      split_ifs at h with hforeign
      · exact absurd rfl h
      · rw [not_or, not_not, not_not] at hforeign
        rw [handleIncoming] at h
        cases hentries : payload.entries with
        | none =>
            rw [hentries] at h
            exact absurd rfl h
        | some rawEntries =>
            rw [hentries] at h
            dsimp only at h
            split_ifs at h with hempty
            · exact absurd rfl h
            · rcases merge_cases_maps (o := o) m.doc (m.sanitizedEntries fromPubKey now rawEntries)
                payload.version with hsame | ⟨received, merged, hversion, hcompare, hmerge, -⟩
              · exact absurd (congrArg (fun r => r.1.crdt) hsame) h
              · exact ⟨received, merged, payload, rawEntries, hpayload, hforeign.1, hforeign.2, hentries, hempty,
                  hversion, hcompare, hmerge⟩

/-! ### Runs -/

def liveValue (crdt : JsMap JsString (Register T V)) (key : JsString) : Option V :=
  (crdt.get? key).bind fun r => r.value.value?

/-- A message that changes a live value notifies, and every watched peer is sent the new document. -/
def Relayed (o : Operators T) (m : MeshKv T V) : KvEvent T V → Prop
  | .incoming fromPubKey data now =>
      let r := m.onIncomingData o fromPubKey data now
      (∃ key, liveValue r.1.doc.crdt key ≠ liveValue m.doc.crdt key) →
        r.2 = true ∧ ∀ pubKey ∈ m.watchTargets, (pubKey, r.1.doc) ∈ r.1.broadcast
  | _ => True

/-- A message that displaces a live value has a version that is news. -/
def Informed (o : Operators T) (m : MeshKv T V) : KvEvent T V → Prop
  | .incoming fromPubKey data now => ∀ received merged,
      m.Reaches o fromPubKey data now received merged →
      (∃ key, liveValue merged key ≠ liveValue m.doc.crdt key) →
        HasNews o m.doc.version (JsMap.ofEntries received.entries)
  | _ => True

theorem watchTargets_onIncomingData (m : MeshKv T V) (fromPubKey : JsString) (data : IncomingData T V)
    (now : JsNumber) : (m.onIncomingData o fromPubKey data now).1.watchTargets = m.watchTargets := by
  rcases onIncomingData_cases (o := o) m fromPubKey data now with
    hsame | ⟨payload, raw, -, -, hmerged⟩
  · rw [hsame]
  · rw [hmerged]

theorem relayed_iff_informed (m : MeshKv T V) (event : KvEvent T V) :
    Relayed o m event ↔ Informed o m event := by
  cases event with
  | incoming fromPubKey data now =>
      have hsent : ∀ pubKey ∈ m.watchTargets, (pubKey, (m.onIncomingData o fromPubKey data now).1.doc) ∈
          (m.onIncomingData o fromPubKey data now).1.broadcast := by
        intro pubKey hwatched
        rw [← watchTargets_onIncomingData m fromPubKey data now (o := o)] at hwatched
        exact List.mem_map.mpr ⟨pubKey, hwatched, rfl⟩
      constructor
      · intro hrelayed received merged hreaches hchanged
        obtain ⟨hcrdt, hnotified⟩ := onIncomingData_of_reaches hreaches
        exact hnotified.mp (hrelayed (hcrdt.symm ▸ hchanged)).1
      · intro hinformed hchanged
        obtain ⟨key, hkey⟩ := hchanged
        obtain ⟨received, merged, hreaches⟩ := reaches_of_ne fun hsame => hkey (by rw [hsame])
        obtain ⟨hcrdt, hnotified⟩ := onIncomingData_of_reaches hreaches
        exact ⟨hnotified.mpr (hinformed received merged hreaches ⟨key, hcrdt ▸ hkey⟩), hsent⟩
  | set key value now => exact Iff.rfl
  | delete key now => exact Iff.rfl
  | watch pubKey => exact Iff.rfl
  | unwatch pubKey => exact Iff.rfl
  | registry registry => exact Iff.rfl

/-- **Relays.**  The changes that messages make are relayed in exactly the runs in which every message that
displaces a live value has a version that is news. -/
theorem relayed_iff (o : Operators T) (storeId podId : JsString) (registry : PeerRegistry)
    (events : List (KvEvent T V)) :
    (machine o storeId podId registry).Along (Relayed o) (attach T V storeId podId registry) events ↔
      (machine o storeId podId registry).Along (Informed o) (attach T V storeId podId registry) events :=
  Machine.along_congr (fun m event _ _ => relayed_iff_informed m event) _ events

/-! ### An entry that the gate dropped -/

/-- Alice lets Bob and Carol write the store `s`. -/
def bobAndCarolWrite : PeerRegistry :=
  bobWrites.grantCapabilities (js "carol") [js "kv:s:write"] none 0

/-- What the engines of Bob and Carol send after each of them has written a key and they have synchronised. -/
def bothEntries : IncomingData JsNumber (JsValue ℕ) where
  docId := some (js "kv:s")
  payload := some
    { type := js "lww-map"
      entries := some (JsObject.empty.assignAll
        [(js "b", some ⟨.of 1, some 0, some (js "bob"), false⟩),
          (js "c", some ⟨.of 2, some 0, some (js "carol"), false⟩)])
      version := some (JsObject.empty.assignAll
        [(js "bob", JsNumber.ofNat 1), (js "carol", JsNumber.ofNat 1)]) }

/-- Alice after Bob's message, whose entry of Carol the gate has dropped. -/
def afterBob : MeshKv JsNumber (JsValue ℕ) :=
  (attach JsNumber (JsValue ℕ) (js "s") (js "alice") bobAndCarolWrite).step .numbers
    (.incoming (js "bob") bothEntries 0)

theorem dropped_entry_not_relayed : ¬ ∀ (storeId podId : JsString) (registry : PeerRegistry)
    (events : List (KvEvent JsNumber (JsValue ℕ))),
    (machine .numbers storeId podId registry).Along (Relayed .numbers)
      (attach JsNumber (JsValue ℕ) storeId podId registry) events := by
  intro h
  have hrun := h (js "s") (js "alice") bobAndCarolWrite
    [.incoming (js "bob") bothEntries 0, .incoming (js "carol") bothEntries 0]
  have hcarol : Relayed .numbers afterBob (.incoming (js "carol") bothEntries 0) :=
    ((hrun _ rfl).2 _ rfl).1
  have hchanged : liveValue (afterBob.onIncomingData .numbers (js "carol") bothEntries 0).1.doc.crdt (js "c") ≠
      liveValue afterBob.doc.crdt (js "c") := by decide +kernel
  have hsilent : (afterBob.onIncomingData .numbers (js "carol") bothEntries 0).2 = false := by decide +kernel
  rw [(hcarol ⟨js "c", hchanged⟩).1] at hsilent
  cases hsilent

end BrowserMesh.Apps.MeshKv
