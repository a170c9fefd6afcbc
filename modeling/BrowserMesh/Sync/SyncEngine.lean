import BrowserMesh.Primitives.Registers
import BrowserMesh.Primitives.Counters
import BrowserMesh.Primitives.OrSet
import BrowserMesh.Primitives.VectorClock

/-! # The document sync engine

* `Ctor`: one entry of the table of document types: the methods the engine calls on a document's
  CRDT.  The callback of an update is the list of writes it makes.
* `MeshSyncEngine`: the documents of one engine.  `update` runs a callback on the live CRDT
  and counts the update in the document's vector clock; `merge` merges a payload of another
  engine and notifies the subscribers (its second result) unless the document's clock is
  equal to the payload's clock or after it.
* **Suppressed notifications** (`SuppressionSound`).  The clock stands for the CRDT: a merge
  that does not notify must not change what the document shows.  `version_iff` says
  which updates a clock counts; `suppressionSound` derives the property for every document type
  that is a lattice of what its writes contribute (`Sound`).

Objects made by `toJSON()` cannot hold the name `__proto__`, so the clock of an engine with
that id does not travel, and neither does a map entry or a count of that name. -/

namespace BrowserMesh.Sync

open Js Replication Primitives

/-! ### The engine -/

/-- A document type. -/
structure Ctor where
  State : Type
  /-- A method call that writes under the caller's node id. -/
  Write : Type
  Json : Type
  View : Type
  new : State
  /-- Perform a write under a node id; `none` when it throws. -/
  write : JsString → Write → State → Option State
  merge : State → State → State
  toJSON : State → Json
  fromJSON : Json → State
  /-- `crdt.value !== undefined ? crdt.value : crdt.state()`. -/
  value : State → View

variable (C : Ctor)

structure SyncDocument where
  id : JsString
  crdt : C.State
  version : VectorClock

structure SyncPayload where
  id : JsString
  crdt : C.Json
  version : JsObject ℕ

structure MeshSyncEngine where
  documents : JsMap JsString (SyncDocument C)

/-- The errors of the engine: `Document already exists: ${id}`, `Document not found: ${docId}`,
and whatever a callback throws. -/
inductive SyncError where
  | alreadyExists (id : JsString)
  | notFound (docId : JsString)
  | callback

namespace MeshSyncEngine
variable {C}

/-- `new MeshSyncEngine()`. -/
def new : MeshSyncEngine C := ⟨JsMap.empty⟩

def create (e : MeshSyncEngine C) (id : JsString) : Except SyncError (MeshSyncEngine C) :=
  if e.documents.has id then .error (.alreadyExists id)
  else .ok ⟨e.documents.set id ⟨id, C.new, VectorClock.new⟩⟩

/-- `getState(docId)`; `none` for a missing document. -/
def getState (e : MeshSyncEngine C) (docId : JsString) : Option C.View :=
  (e.documents.get? docId).map fun doc => C.value doc.crdt

/-- Run a callback on the live CRDT; `false` when it throws. -/
def runCallback (nodeId : JsString) : List C.Write → C.State → C.State × Bool
  | [], crdt => (crdt, true)
  | op :: ops, crdt =>
      match C.write nodeId op crdt with
      | none => (crdt, false)
      | some crdt => runCallback nodeId ops crdt

/-- `update(docId, updateFn)` at the engine `nodeId`; a callback that throws leaves what it
wrote before. -/
def update (nodeId : JsString) (e : MeshSyncEngine C) (docId : JsString) (updateFn : List C.Write) :
    MeshSyncEngine C × Except SyncError Unit :=
  match e.documents.get? docId with
  | none => (e, .error (.notFound docId))
  | some doc =>
      match runCallback nodeId updateFn doc.crdt with
      | (crdt, false) => (⟨e.documents.set docId { doc with crdt := crdt }⟩, .error .callback)
      | (crdt, true) =>
          (⟨e.documents.set docId
            { doc with crdt := crdt, version := doc.version.increment nodeId }⟩, .ok ())

/-- `merge(docId, remoteData)`, and whether it notifies the subscribers. -/
def merge (e : MeshSyncEngine C) (docId : JsString) (remoteData : SyncPayload C) :
    Except SyncError (MeshSyncEngine C × Bool) :=
  match e.documents.get? docId with
  | none => .error (.notFound docId)
  | some doc =>
      let remoteCrdt := C.fromJSON remoteData.crdt
      let remoteVersion := VectorClock.fromJSON remoteData.version
      let cmp := doc.version.compare remoteVersion
      let isNewInformation := decide (cmp ≠ .after) && decide (cmp ≠ .equal)
      .ok (⟨e.documents.set docId { doc with
        crdt := C.merge doc.crdt remoteCrdt, version := doc.version.merge remoteVersion }⟩,
        isNewInformation)

/-- `prepareSyncPayload(docId)`; `none` for a missing document. -/
def prepareSyncPayload (e : MeshSyncEngine C) (docId : JsString) : Option (SyncPayload C) :=
  (e.documents.get? docId).map fun doc => ⟨doc.id, C.toJSON doc.crdt, doc.version.toJSON⟩

/-! ### What the operations do to one document -/

/-- The CRDT of a document, a fresh one when the document is missing. -/
def crdtOf (e : MeshSyncEngine C) (docId : JsString) : C.State :=
  ((e.documents.get? docId).map SyncDocument.crdt).getD C.new

/-- The clock of a document, a fresh one when the document is missing. -/
def versionOf (e : MeshSyncEngine C) (docId : JsString) : VectorClock :=
  ((e.documents.get? docId).map SyncDocument.version).getD VectorClock.new

theorem crdtOf_set (e : MeshSyncEngine C) (docId : JsString) (doc : SyncDocument C) :
    crdtOf ⟨e.documents.set docId doc⟩ docId = doc.crdt := by
  simp [crdtOf]

theorem versionOf_set (e : MeshSyncEngine C) (docId : JsString) (doc : SyncDocument C) :
    versionOf ⟨e.documents.set docId doc⟩ docId = doc.version := by
  simp [versionOf]

variable {e : MeshSyncEngine C}

theorem crdtOf_of_get? {docId : JsString} {doc : SyncDocument C} (h : e.documents.get? docId = some doc) :
    e.crdtOf docId = doc.crdt ∧ e.versionOf docId = doc.version := by
  simp [crdtOf, versionOf, h]

variable {e' : MeshSyncEngine C}

theorem create_spec {id : JsString} (h : e.create id = .ok e') :
    e'.crdtOf id = e.crdtOf id ∧ e'.versionOf id = e.versionOf id := by
  unfold create at h
  split_ifs at h with hhas
  obtain rfl := Except.ok.inj h
  have hnone : e.documents.get? id = none := by
    simpa [JsMap.has] using hhas
  rw [crdtOf_set, versionOf_set]
  simp [crdtOf, versionOf, hnone]

theorem update_spec {i docId : JsString} {ops : List C.Write} (h : e.update i docId ops = (e', .ok ())) :
    runCallback i ops (e.crdtOf docId) = (e'.crdtOf docId, true) ∧
      e'.versionOf docId = (e.versionOf docId).increment i := by
  unfold update at h
  cases hget : e.documents.get? docId with
  | none => rw [hget] at h; cases h
  | some doc =>
      obtain ⟨hc, hv⟩ := crdtOf_of_get? hget
      rw [hget] at h
      rw [hc, hv]
      cases hrun : runCallback i ops doc.crdt with
      | mk crdt returned =>
          simp only [hrun] at h
          cases returned with
          | false => cases h
          | true =>
              obtain rfl := congrArg Prod.fst h
              rw [crdtOf_set, versionOf_set]
              exact ⟨rfl, rfl⟩

theorem merge_spec {docId : JsString} {p : SyncPayload C} {notified : Bool}
    (h : e.merge docId p = .ok (e', notified)) :
    e'.crdtOf docId = C.merge (e.crdtOf docId) (C.fromJSON p.crdt) ∧
      e'.versionOf docId = (e.versionOf docId).merge (VectorClock.fromJSON p.version) ∧
      (notified = false →
        (e.versionOf docId).compare (VectorClock.fromJSON p.version) = .equal ∨
          (e.versionOf docId).compare (VectorClock.fromJSON p.version) = .after) ∧
      e.getState docId = some (C.value (e.crdtOf docId)) ∧
      e'.getState docId = some (C.value (e'.crdtOf docId)) := by
  unfold merge at h
  cases hget : e.documents.get? docId with
  | none => rw [hget] at h; cases h
  | some doc =>
      obtain ⟨hc, hv⟩ := crdtOf_of_get? hget
      rw [hget] at h
      obtain ⟨rfl, rfl⟩ := Prod.mk.inj (Except.ok.inj h)
      rw [crdtOf_set, versionOf_set, hc, hv]
      refine ⟨rfl, rfl, fun hn => ?_, by simp [getState, hget], by simp [getState]⟩
      rcases hcmp : doc.version.compare (VectorClock.fromJSON p.version) <;> simp_all

theorem prepareSyncPayload_spec {docId : JsString} {p : SyncPayload C} (h : e.prepareSyncPayload docId = some p) :
    p.crdt = C.toJSON (e.crdtOf docId) ∧ p.version = (e.versionOf docId).toJSON := by
  obtain ⟨doc, hget, rfl⟩ := Option.map_eq_some_iff.mp h
  obtain ⟨hc, hv⟩ := crdtOf_of_get? hget
  rw [hc, hv]
  exact ⟨rfl, rfl⟩

end MeshSyncEngine

/-! ### Runs of engines over one document -/

/-- Engines with distinct ids over the document `docId`: an update runs a callback that returns,
a merge takes a payload any engine ever produced, the silent step creates the document. -/
def system (docId : JsString) : System JsString (MeshSyncEngine C) (List C.Write) where
  init := .new
  update i ops e :=
    match e.update i docId ops with
    | (e', .ok _) => some e'
    | (_, .error _) => none
  merge e t :=
    (t.prepareSyncPayload docId).bind fun p => (e.merge docId p).toOption.map Prod.fst
  silent _ e := (e.create docId).toOption

variable {C}

/-- Every write of a callback is made in a state where it is `ok`. -/
def CallbackOk (ok : JsString → C.Write → C.State → Prop) (i : JsString) :
    List C.Write → C.State → Prop
  | [], _ => True
  | op :: ops, crdt => ok i op crdt ∧ ∀ crdt', C.write i op crdt = some crdt' → CallbackOk ok i ops crdt'

/-- Every update runs a callback whose writes are `ok`. -/
def UpdatesOk (ok : JsString → C.Write → C.State → Prop) (docId : JsString)
    (w : World JsString (MeshSyncEngine C) (List C.Write)) : Action JsString (List C.Write) → Prop
  | .update i ops => CallbackOk ok i ops ((w.cur i).state.crdtOf docId)
  | _ => True

/-- In every run with `ok` writes, a merge that does not notify leaves what the document shows. -/
def SuppressionSound (ok : JsString → C.Write → C.State → Prop) : Prop :=
  ∀ docId w, (system C docId).Reach (UpdatesOk ok docId) w → ∀ i, ∀ t ∈ w.ever, ∀ p e',
    t.state.prepareSyncPayload docId = some p →
      (w.cur i).state.merge docId p = .ok (e', false) →
        e'.getState docId = (w.cur i).state.getState docId

instance CallbackOk.decidable (ok : JsString → C.Write → C.State → Prop)
    [∀ i op crdt, Decidable (ok i op crdt)] (i : JsString) :
    ∀ (ops : List C.Write) (crdt : C.State), Decidable (CallbackOk ok i ops crdt)
  | [], _ => isTrue trivial
  | op :: ops, crdt =>
      have : Decidable (∀ crdt', C.write i op crdt = some crdt' → CallbackOk ok i ops crdt') :=
        match C.write i op crdt with
        | none => isTrue (by simp)
        | some crdt₁ =>
            have := CallbackOk.decidable ok i ops crdt₁
            decidable_of_iff (CallbackOk ok i ops crdt₁) (by simp)
      inferInstanceAs (Decidable (_ ∧ _))

instance (ok : JsString → C.Write → C.State → Prop) [∀ i op crdt, Decidable (ok i op crdt)]
    (docId : JsString) (w : World JsString (MeshSyncEngine C) (List C.Write)) :
    DecidablePred (UpdatesOk ok docId w)
  | .update i ops => inferInstanceAs (Decidable (CallbackOk ok i ops _))
  | .merge _ _ => isTrue trivial
  | .silent _ => isTrue trivial

section run
variable {docId : JsString} {ok : JsString → C.Write → C.State → Prop}
  {w : World JsString (MeshSyncEngine C) (List C.Write)}

theorem update_cases {i : JsString} {ops : List C.Write} {e e' : MeshSyncEngine C}
    (h : (system C docId).update i ops e = some e') :
    MeshSyncEngine.runCallback i ops (e.crdtOf docId) = (e'.crdtOf docId, true) ∧
      e'.versionOf docId = (e.versionOf docId).increment i := by
  apply MeshSyncEngine.update_spec
  change (match e.update i docId ops with
    | (e', .ok _) => some e'
    | (_, .error _) => none) = some e' at h
  rcases hu : e.update i docId ops with ⟨e₁, _ | _⟩ <;> rw [hu] at h
  · cases h
  · rw [Option.some.inj h]

theorem merge_cases {e t e' : MeshSyncEngine C} (h : (system C docId).merge e t = some e') :
    e'.crdtOf docId = C.merge (e.crdtOf docId) (C.fromJSON (C.toJSON (t.crdtOf docId))) ∧
      e'.versionOf docId =
        (e.versionOf docId).merge (VectorClock.fromJSON (t.versionOf docId).toJSON) := by
  obtain ⟨p, hp, h⟩ := Option.bind_eq_some_iff.mp h
  obtain ⟨⟨e₁, notified⟩, hm, rfl⟩ := Option.map_eq_some_iff.mp h
  obtain ⟨hc, hv⟩ := MeshSyncEngine.prepareSyncPayload_spec hp
  obtain ⟨hc', hv', _⟩ := MeshSyncEngine.merge_spec (toOption_eq_some hm)
  rw [← hc, ← hv]
  exact ⟨hc', hv'⟩

/-- The entry of engine `i` in a clock counts exactly its updates in the history. -/
theorem version_iff (h : (system C docId).Reach (UpdatesOk ok docId) w) :
    ∀ s ∈ w.ever, ∀ i ≠ protoKey, ∀ k,
      k < (s.state.versionOf docId).get i ↔ ∃ e ∈ s.hist, e.id = (i, k) := by
  refine h.forall_ever (P := fun s => ∀ i ≠ protoKey, ∀ k,
    k < (s.state.versionOf docId).get i ↔ ∃ e ∈ s.hist, e.id = (i, k)) ?_ ?_ ?_ ?_
  · intro i _ k
    constructor
    · exact fun hk => absurd hk (Nat.not_lt_zero k)
    · rintro ⟨e, he, _⟩
      cases he
  · intro w i ops e' hr _ hcur ih hu j hj k
    have hc := hr.causal
    rw [(update_cases hu).2, VectorClock.get_increment]
    have hevent : ∀ k, (w.event i ops).id = (j, k) ↔ j = i ∧ k = w.issued i := by
      intro k
      rw [World.event, Event.id, Prod.mk.injEq, eq_comm (a := i), eq_comm (b := k)]
    simp only [List.mem_cons, exists_eq_or_imp, hevent, ← ih j hj]
    split_ifs with hji
    · subst hji
      -- the clock of the engine itself has counted all updates it issued
      have hissued : (((w.cur j).state).versionOf docId).get j = w.issued j := by
        have hiff : ∀ k, k < (((w.cur j).state).versionOf docId).get j ↔ k < w.issued j := by
          intro k
          rw [ih j hj]
          constructor
          · rintro ⟨e, he, hid⟩
            have := hc.seq_lt _ hcur e he
            rwa [show e.node = j from congrArg Prod.fst hid,
              show e.seq = k from congrArg Prod.snd hid] at this
          · exact hc.own j k
        have h1 := hiff (w.issued j)
        have h2 := hiff (((w.cur j).state).versionOf docId |>.get j)
        omega
      simp only [hissued, true_and]
      omega
    · simp [hji]
  · intro w i k t e' _ _ _ _ _ ih iht hm j hj n
    rw [(merge_cases hm).2, VectorClock.get_merge, VectorClock.get_reload, if_neg hj, lt_max_iff,
      ih j hj, iht j hj]
    simp only [List.mem_append, or_and_right, exists_or]
  · intro w i e' _ _ ih hs
    rw [(MeshSyncEngine.create_spec (toOption_eq_some hs)).2]
    exact ih

end run

/-! ### Soundness -/

/-- A document type whose states are the join of what `ok` writes contribute; the writes of the
engine `__proto__` contribute nothing, as its updates are not counted on the wire. -/
structure Sound {L : Type} [SemilatticeSup L] (ok : JsString → C.Write → C.State → Prop)
    (Valid : C.State → Prop) (abs : C.State → L) : Prop where
  new : Valid C.new
  write : ∀ i op s s', ok i op s → Valid s → C.write i op s = some s' →
    Valid s' ∧ abs s ≤ abs s' ∧ (i = protoKey → abs s = abs s')
  merge : ∀ s t, Valid s → Valid t → Valid (C.merge s (C.fromJSON (C.toJSON t))) ∧
    abs (C.merge s (C.fromJSON (C.toJSON t))) = abs s ⊔ abs t
  noop : ∀ s t, Valid s → Valid t → abs t ≤ abs s →
    C.value (C.merge s (C.fromJSON (C.toJSON t))) = C.value s

section sound
variable {L : Type} [SemilatticeSup L] {ok : JsString → C.Write → C.State → Prop}
  {Valid : C.State → Prop} {abs : C.State → L} {docId : JsString}
  {w : World JsString (MeshSyncEngine C) (List C.Write)}

theorem Sound.callback (hs : Sound ok Valid abs) {i : JsString} {ops : List C.Write}
    {s s' : C.State} (hok : CallbackOk ok i ops s) (hv : Valid s)
    (h : MeshSyncEngine.runCallback i ops s = (s', true)) :
    Valid s' ∧ abs s ≤ abs s' ∧ (i = protoKey → abs s = abs s') := by
  induction ops generalizing s with
  | nil =>
      obtain rfl := congrArg Prod.fst h
      exact ⟨hv, le_rfl, fun _ => rfl⟩
  | cons op ops ih =>
      unfold MeshSyncEngine.runCallback at h
      cases hw : C.write i op s with
      | none => rw [hw] at h; cases h
      | some s₁ =>
          rw [hw] at h
          obtain ⟨hv₁, hle, heq⟩ := hs.write i op s s₁ hok.1 hv hw
          obtain ⟨hv', hle', heq'⟩ := ih (hok.2 s₁ hw) hv₁ h
          exact ⟨hv', hle.trans hle', fun hp => (heq hp).trans (heq' hp)⟩

/-- The document is a lattice of what the updates contributed. -/
theorem Sound.lattice (hs : Sound ok Valid abs) :
    (system C docId).Lattice (UpdatesOk ok docId) (fun e => Valid (e.crdtOf docId))
      (fun e => abs (e.crdtOf docId)) where
  init := hs.new
  update w i ops e' hok hv hu := by
    obtain ⟨hv', hle, _⟩ := hs.callback hok hv (update_cases hu).1
    exact ⟨hv', hle⟩
  merge s t u hvs hvt hm := by
    rw [(merge_cases hm).1]
    exact hs.merge _ _ hvs hvt
  silent i s u hv hu := by
    rw [(MeshSyncEngine.create_spec (toOption_eq_some hu)).1]
    exact ⟨hv, rfl⟩

/-- An update that contributed something was counted by the clocks. -/
theorem Sound.node_ne_protoKey (hs : Sound ok Valid abs)
    (h : (system C docId).Reach (UpdatesOk ok docId) w) :
    ∀ s ∈ w.ever, ∀ e ∈ s.hist,
      (system C docId).Effective (fun e => abs (e.crdtOf docId)) e → e.node ≠ protoKey := by
  refine h.forall_ever (P := fun s => ∀ e ∈ s.hist,
    (system C docId).Effective (fun e => abs (e.crdtOf docId)) e → e.node ≠ protoKey) ?_ ?_ ?_ ?_
  · exact fun e he => by cases he
  · intro w i ops s hr hok hcur ih hu e he heff
    rcases List.mem_cons.mp he with rfl | he
    · intro hp
      obtain ⟨s', hu', hne⟩ := heff
      have hv := (hs.lattice.isLUB hr _ hcur).1
      exact hne ((hs.callback hok hv (update_cases hu').1).2.2 hp)
    · exact ih e he heff
  · intro w i k t u _ _ _ _ _ ih iht _ e he
    rcases List.mem_append.mp he with he | he
    · exact ih e he
    · exact iht e he
  · exact fun w i u _ _ ih _ => ih

/-- A clock that dominates another one's incorporates every update that contributed to it. -/
theorem Sound.suppressionSound (hs : Sound ok Valid abs) : SuppressionSound ok := by
  intro docId w hr i t ht p e' hp hm
  obtain ⟨hpc, hpv⟩ := MeshSyncEngine.prepareSyncPayload_spec hp
  obtain ⟨hcrdt, _, hcmp, hbefore, hafter⟩ := MeshSyncEngine.merge_spec hm
  have hc := hr.causal
  have hcur := hc.cur_mem i
  have hsub : ∀ e ∈ t.hist, (system C docId).Effective (fun e => abs (e.crdtOf docId)) e →
      e ∈ (w.cur i).hist := by
    intro e he heff
    have hnode := hs.node_ne_protoKey hr t ht e he heff
    have hle := VectorClock.le_of_compare (hcmp rfl) e.node
    rw [hpv, VectorClock.get_reload, if_neg hnode] at hle
    have hlt := (version_iff hr t ht e.node hnode e.seq).mpr ⟨e, he, rfl⟩
    obtain ⟨f, hf, hid⟩ :=
      (version_iff hr _ hcur e.node hnode e.seq).mp (lt_of_lt_of_le hlt hle)
    exact hc.id_inj _ hcur t ht f hf e he hid ▸ hf
  have habs := hs.lattice.le_of_effective hr ht hcur hsub
  have hv := hs.lattice.isLUB hr _ hcur
  have hvt := hs.lattice.isLUB hr t ht
  rw [hbefore, hafter, hcrdt, hpc, hs.noop _ _ hv.1 hvt.1 habs]

end sound

/-! ### Executed runs -/

/-- What engine `i` shows before and after merging the payload of the `k`-th state ever reached,
when it does not notify. -/
def silentMerge (docId i : JsString) (k : ℕ)
    (w : World JsString (MeshSyncEngine C) (List C.Write)) : Option (Option C.View × Option C.View) :=
  (w.ever[k]?.bind fun t => t.state.prepareSyncPayload docId).bind fun p =>
    match (w.cur i).state.merge docId p with
    | .ok (e', false) => some ((w.cur i).state.getState docId, e'.getState docId)
    | _ => none

section executed
variable {ok : JsString → C.Write → C.State → Prop} {docId i : JsString} {k : ℕ}

theorem SuppressionSound.eq (hs : SuppressionSound ok)
    {w : World JsString (MeshSyncEngine C) (List C.Write)}
    (hr : (system C docId).Reach (UpdatesOk ok docId) w) {v v' : Option C.View}
    (h : silentMerge docId i k w = some (v, v')) : v' = v := by
  obtain ⟨p, hp, h⟩ := Option.bind_eq_some_iff.mp h
  obtain ⟨t, ht, hp⟩ := Option.bind_eq_some_iff.mp hp
  split at h
  · rename_i e' hm
    obtain ⟨rfl, rfl⟩ := Prod.mk.inj (Option.some.inj h)
    exact hs docId w hr i t (List.mem_of_getElem? ht) p e' hp hm
  · cases h

/-- A run that ends in a state where a merge that does not notify changes what the document shows. -/
theorem not_suppressionSound [∀ i op crdt, Decidable (ok i op crdt)] [DecidableEq C.View]
    (docId i : JsString) (k : ℕ) (as : List (Action JsString (List C.Write)))
    (h : ((system C docId).run (UpdatesOk ok docId) (system C docId).initial as).any
      (fun w => (silentMerge docId i k w).any fun v => decide (v.1 ≠ v.2)) = true) :
    ¬ SuppressionSound ok := by
  intro hs
  obtain ⟨w, hw, h⟩ := (Option.any_eq_true _ _).mp h
  obtain ⟨⟨v, v'⟩, hm, h⟩ := (Option.any_eq_true _ _).mp h
  exact of_decide_eq_true h (hs.eq (System.reach_of_run .initial hw) hm).symm

end executed
end BrowserMesh.Sync
