import BrowserMesh.Apps.AuditChain
import BrowserMesh.Js.Rebuild
import BrowserMesh.Primitives.Base64

/-! # What an audit entry signs

* **The payload.**  The canonical JSON of the signed fields, as UTF-8.  Two entries with one payload look alike: they agree in
  everything but what the canonical JSON loses, the order of fields, fields named `__proto__` and which non-finite number a
  timestamp is (`payloadBytes_eq_iff`).
* **Its length.**  A payload is longer than two digests (`payloadBytes_length`). -/

namespace BrowserMesh.Apps
open Js Primitives

namespace AuditChain

/-- `canonicalJSON`, of a value whose byte arrays are encoded. -/
def canonicalJSON (numbers : NumberText) (v : Json) : JsString := v.canonical.stringify numbers

/-- The object that `signedPayload` writes. -/
def signedObject (e : SignedFields Json.Data) : Json :=
  .object [(js "sequence", .number (.ofNat e.sequence)), (js "authorPodId", .string e.authorPodId),
    (js "operation", .string e.operation), (js "data", e.data.1),
    (js "previousHash", .string (encodeBase64url e.previousHash)), (js "timestamp", .number e.timestamp)]

def signedPayload (numbers : NumberText) (e : SignedFields Json.Data) : JsString :=
  canonicalJSON numbers (signedObject e)

/-- The bytes that are hashed and signed. -/
def payloadBytes (numbers : NumberText) (e : SignedFields Json.Data) : Bytes := encodeUtf8 (signedPayload numbers e)

/-- A number as JSON writes it. -/
def writtenNumber (n : JsNumber) : Json := Json.copy (.number n)

/-- The entries agree in all signed fields, their data up to the order of fields. -/
structure Agree (e e' : SignedFields Json.Data) : Prop where
  sequence : e.sequence = e'.sequence
  authorPodId : e.authorPodId = e'.authorPodId
  operation : e.operation = e'.operation
  data : Json.Same e.data.1 e'.data.1
  previousHash : e.previousHash = e'.previousHash
  timestamp : e.timestamp = e'.timestamp

/-- The entries agree but for fields of the data that are named `__proto__` and timestamps that are not finite. -/
structure LookAlike (e e' : SignedFields Json.Data) : Prop where
  sequence : e.sequence = e'.sequence
  authorPodId : e.authorPodId = e'.authorPodId
  operation : e.operation = e'.operation
  data : e.data.1.selected Json.notProto = e'.data.1.selected Json.notProto
  previousHash : e.previousHash = e'.previousHash
  timestamp : writtenNumber e.timestamp = writtenNumber e'.timestamp

theorem isData_copy_number (n : JsNumber) : Json.isData (writtenNumber n) = true := by
  rw [writtenNumber, Json.copy]
  split_ifs with h
  · exact h
  · rfl

/-- The fields of the signed object as JSON writes them. -/
def writtenFields (e : SignedFields Json.Data) : Json.Fields :=
  [(js "sequence", writtenNumber (.ofNat e.sequence)), (js "authorPodId", .string e.authorPodId),
    (js "operation", .string e.operation), (js "data", e.data.1),
    (js "previousHash", .string (encodeBase64url e.previousHash)), (js "timestamp", writtenNumber e.timestamp)]

/-- The keys of the signed object. -/
def signedKeys : List JsString :=
  [js "sequence", js "authorPodId", js "operation", js "data", js "previousHash", js "timestamp"]

theorem signedKeys_nodup : signedKeys.Nodup := by decide +kernel

theorem copy_signedObject (e : SignedFields Json.Data) : (signedObject e).copy = .object (writtenFields e) := by
  rw [signedObject, Json.copy_object]
  show Json.object [_, _, _, (_, Json.copy e.data.1), _, _] = _
  rw [Json.copy_of_isData e.data.2]
  rfl

theorem isData_writtenFields (e : SignedFields Json.Data) : Json.isData (.object (writtenFields e)) = true := by
  refine Json.isData_object.mpr ⟨signedKeys_nodup, fun f hf => ?_⟩
  simp only [writtenFields, List.mem_cons, List.not_mem_nil, or_false] at hf
  rcases hf with rfl | rfl | rfl | rfl | rfl | rfl
  · exact isData_copy_number _
  · rfl
  · rfl
  · exact e.data.2
  · rfl
  · exact isData_copy_number _

theorem signedObject_fields (e : SignedFields Json.Data) :
    ∃ fields : Json.Fields, signedObject e = .object fields ∧ fields.map Prod.fst = signedKeys := ⟨_, rfl, rfl⟩

/-- The text of an entry is that of the fields as JSON writes them. -/
theorem copy_canonical_signedObject (e : SignedFields Json.Data) :
    (signedObject e).canonical.copy = (Json.object (writtenFields e)).canonical := by
  have hdata : Json.isData (signedObject e).copy = true := by
    rw [copy_signedObject]
    exact isData_writtenFields e
  rw [Json.canonical, Json.copy_rebuild Json.byKeys_sortedFields hdata, copy_signedObject]

theorem selected_writtenNumber (keep : JsString → Bool) (n : JsNumber) :
    (writtenNumber n).selected keep = writtenNumber n := by
  rw [writtenNumber, Json.copy]
  split_ifs <;> rfl

theorem keys_writtenFields (e : SignedFields Json.Data) : (writtenFields e).map Prod.fst = signedKeys := by
  simp only [writtenFields, List.map_cons, List.map_nil, signedKeys]

variable {e e' : SignedFields Json.Data}

theorem selected_writtenFields_inj (h : (Json.object (writtenFields e)).selected Json.notProto =
      (Json.object (writtenFields e')).selected Json.notProto) :
    Json.mapValues (Json.selected Json.notProto) (writtenFields e) =
      Json.mapValues (Json.selected Json.notProto) (writtenFields e') := by
  rw [Json.selected, Json.rebuild_object, Json.rebuild_object, Json.object.injEq] at h
  have hkeyed : Json.Keyed (writtenFields e) := by
    rw [Json.Keyed, keys_writtenFields]
    exact signedKeys_nodup
  refine Json.eq_of_select_eq (Json.keyed_mapValues.mpr hkeyed) ?_ (fun f hf => ?_) h
  · rw [Json.keys_mapValues, Json.keys_mapValues, keys_writtenFields, keys_writtenFields]
  have hkey := List.mem_map_of_mem (f := Prod.fst) hf
  rw [Json.keys_mapValues, keys_writtenFields] at hkey
  have hall : signedKeys.all Json.notProto = true := by decide +kernel
  exact List.all_eq_true.mp hall _ hkey

/-- Two entries of one position have the same payload exactly if they look alike. -/
theorem payloadBytes_eq_iff (numbers : NumberText) (hseq : e.sequence = e'.sequence) :
    payloadBytes numbers e = payloadBytes numbers e' ↔ LookAlike e e' := by
  have hcanonical : payloadBytes numbers e = payloadBytes numbers e' ↔
      (Json.object (writtenFields e)).canonical = (Json.object (writtenFields e')).canonical := by
    rw [← copy_canonical_signedObject, ← copy_canonical_signedObject]
    constructor
    · exact fun h => encodeUtf8_stringify_injective h
    · intro h
      rw [payloadBytes, payloadBytes, signedPayload, signedPayload, canonicalJSON, canonicalJSON,
        ← Json.stringify_copy, h, Json.stringify_copy]
  rw [hcanonical, Json.canonical_eq_iff (isData_writtenFields e) (isData_writtenFields e')]
  constructor
  · intro h
    have hfields := selected_writtenFields_inj h
    simp only [Json.mapValues, writtenFields, List.map_cons, List.map_nil, List.cons.injEq, Prod.mk.injEq, true_and,
      and_true, selected_writtenNumber] at hfields
    obtain ⟨-, hauthor, hoperation, hdata, hprevious, htimestamp⟩ := hfields
    exact ⟨hseq, Json.string.inj hauthor, Json.string.inj hoperation, hdata,
      encodeBase64url_injective (Json.string.inj hprevious), htimestamp⟩
  · rintro ⟨-, hauthor, hoperation, hdata, hprevious, htimestamp⟩
    have hfields : Json.mapValues (Json.selected Json.notProto) (writtenFields e) =
        Json.mapValues (Json.selected Json.notProto) (writtenFields e') := by
      simp only [Json.mapValues, writtenFields, List.map_cons, List.map_nil, selected_writtenNumber, hseq, hauthor,
        hoperation, hdata, hprevious, htimestamp]
    rw [Json.selected, Json.rebuild_object, Json.rebuild_object]
    exact congrArg Json.object (congrArg (Json.select Json.notProto) hfields)

theorem Agree.lookAlike (h : Agree e e') : LookAlike e e' := by
  refine ⟨h.sequence, h.authorPodId, h.operation, ?_, h.previousHash, by rw [h.timestamp]⟩
  have hselect : ∀ v : Json, Json.isData v = true →
      (v.selected fun _ => true).selected Json.notProto = v.selected Json.notProto := by
    intro v hv
    refine Json.rebuild_rebuild (Json.byKeys_select _) (fun fields hfields => ?_) hv
    rw [Json.select_select hfields]
    simp only [Bool.and_true]
  rw [← hselect _ e.data.2, ← hselect _ e'.data.2]
  exact congrArg _ h.data

/-- A payload is longer than two digests of 32 bytes. -/
theorem payloadBytes_length (numbers : NumberText) (e : SignedFields Json.Data) :
    64 < (payloadBytes numbers e).length := by
  obtain ⟨fields, hobject, hkeys⟩ := signedObject_fields e
  have hkeyed : Json.Keyed (Json.mapValues Json.canonical fields) := by
    rw [Json.keyed_mapValues, Json.Keyed, hkeys]
    exact signedKeys_nodup
  have hall : (Json.mapValues Json.canonical fields).filter (fun f => Json.notProto f.1) =
      Json.mapValues Json.canonical fields := by
    refine List.filter_eq_self.mpr fun f hf => ?_
    have hkey := List.mem_map_of_mem (f := Prod.fst) hf
    rw [Json.keys_mapValues, hkeys] at hkey
    have hall : signedKeys.all Json.notProto = true := by decide +kernel
    exact List.all_eq_true.mp hall _ hkey
  have hperm : (Json.sortedFields (Json.mapValues Json.canonical fields)).Perm (Json.mapValues Json.canonical fields) := by
    rw [Json.sortedFields_eq hkeyed]
    refine (Json.enumerated_perm _).trans ((Json.select_perm _ _).trans ?_)
    rw [hall]
  have hsum : ((Json.sortedFields (Json.mapValues Json.canonical fields)).map fun f => f.1.length + 3).sum =
      (signedKeys.map fun key => key.length + 3).sum := by
    rw [(hperm.map _).sum_eq, ← hkeys, ← Json.keys_mapValues Json.canonical fields, List.map_map]
    exact congrArg List.sum (List.map_congr_left fun f _ => rfl)
  have htext : signedPayload numbers e =
      123 :: Json.stringifyFields numbers [] (Json.sortedFields (Json.mapValues Json.canonical fields)) := by
    rw [signedPayload, canonicalJSON, hobject, Json.canonical, Json.rebuild_object, Json.stringify]
  have hlength := Json.length_stringifyFields numbers
    (Json.sortedFields (Json.mapValues Json.canonical fields)) []
  have hkeysum : (signedKeys.map fun key => key.length + 3).sum = 71 := by decide +kernel
  have hbytes := length_le_encodeUtf8 (signedPayload numbers e)
  rw [htext, List.length_cons] at hbytes
  rw [payloadBytes, htext]
  omega

end AuditChain
end BrowserMesh.Apps
