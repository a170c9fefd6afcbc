import BrowserMesh.Apps.GrantLog
import BrowserMesh.Library.Replay

/-! # Convergence of grant logs

* **One order.**  No two verified records share a signature, so `sortKey` leaves no choice between two
  records and the replay depends on the set of the records only (`computeEffective_congr`).
* **Nothing is lost.**  The log adds and merges but never removes, and no tombstone reaches it.
* **Stale snapshots.**  A call that names several actions adds its records one by one and replays after
  the last.  Logs whose calls add one record each converge (`grant_logs_converge`). -/

namespace BrowserMesh.Apps
open Js Primitives Async Transition

namespace GrantLog
variable {crypto : GrantCrypto} {resource : JsString}

/-! ### The replay as a fold -/

theorem Replayed.apply_idempotent (adminScope : JsString) :
    Replay.Idempotent (Replayed.apply adminScope) := by
  intro s r
  by_cases h : s.authorized adminScope r = true
  · have happly : s.apply adminScope r = ⟨if r.scope = adminScope then
        if r.action = .grant then s.adminSet.add r.pubKey else s.adminSet.delete r.pubKey
        else s.adminSet, s.perPubKeyScope.set r.pubKey
          (((s.perPubKeyScope.get? r.pubKey).getD JsMap.empty).set r.scope r.action)⟩ := if_pos h
    by_cases h' : (s.apply adminScope r).authorized adminScope r = true
    · -- the second time nothing is new
      conv_lhs => rw [apply, if_pos h']
      rw [happly]
      congr 1
      · by_cases hscope : r.scope = adminScope
        · by_cases haction : r.action = .grant
          · simp only [if_pos hscope, if_pos haction]
            exact JsSet.add_eq_self (JsSet.mem_add.mpr (Or.inr rfl))
          · simp only [if_pos hscope, if_neg haction]
            exact JsSet.delete_eq_self fun hmem => (JsSet.mem_delete.mp hmem).2 rfl
        · simp only [if_neg hscope]
      · refine JsMap.set_eq_self ?_
        simp only [JsMap.get?_set, if_true, Option.getD_some]
        congr 1
        exact (JsMap.set_eq_self (by simp)).symm
    · conv_lhs => rw [apply, if_neg h']
  · have happly : s.apply adminScope r = s := if_neg h
    rw [happly, happly]

/-- The records of a log without the key texts. -/
def grants (g : GrantLog crypto resource) : List SignedGrant := g.records.map GrantRecord.toSignedGrant

theorem computeEffective_eq_replay (g : GrantLog crypto resource) :
    g.computeEffective = (Replay.replay (Replayed.apply (scopeFor resource ADMIN_ACTION))
      (byRank sortKey) Replayed.init g.grants).effective := by
  have hsort : g.grants.insertionSort (byRank sortKey) =
      (g.records.insertionSort (byRank fun r => sortKey r.toSignedGrant)).map
        GrantRecord.toSignedGrant :=
    (List.map_insertionSort (byRank fun r : GrantRecord => sortKey r.toSignedGrant) (byRank sortKey)
      GrantRecord.toSignedGrant g.records fun _ _ _ _ => Iff.rfl).symm
  rw [Replay.replay, hsort, List.foldl_map]
  rfl

/-! ### Verified records -/

theorem verify_of_verifyRecord {p : ParsedRecord} {r : GrantRecord}
    (h : verifyRecord crypto resource p = some r) :
    crypto.verify r.signedByPubKeyBytes r.signature r.toGrantFields = true := by
  simp only [verifyRecord, Option.bind_eq_bind, Option.bind_eq_some_iff] at h
  obtain ⟨_, -, _, -, _, -, _, -, _, -, _, -, _, -, _, -, h⟩ := h
  split_ifs at h with _ hverify
  obtain rfl := Option.some.inj h
  exact hverify

theorem Element.verify_record (e : Element crypto resource) :
    crypto.verify e.record.signedByPubKeyBytes e.record.signature e.record.toGrantFields = true := by
  have hrecord : recordOf crypto resource e.1 = some e.record := (Option.some_get e.2).symm
  obtain ⟨p, -, hp⟩ := Option.bind_eq_some_iff.mp hrecord
  exact verify_of_verifyRecord hp

/-- Two records of the resource with one signature are one. -/
theorem Element.grant_eq_of_signature {e e' : Element crypto resource}
    (h : e.record.signature = e'.record.signature) :
    e.record.toSignedGrant = e'.record.toSignedGrant := by
  have hfields : e.record.toGrantFields = e'.record.toGrantFields :=
    crypto.verify_inj (h ▸ e.verify_record) e'.verify_record
  cases hr : e.record.toSignedGrant
  cases hr' : e'.record.toSignedGrant
  rw [hr, hr'] at h hfields
  cases h
  cases hfields
  rfl

theorem eq_of_sortKey_le {r r' : SignedGrant} (h : byRank sortKey r r') (h' : byRank sortKey r' r) :
    r.signature = r'.signature := by
  have hkey : sortKey r = sortKey r' := le_antisymm h h'
  simp only [sortKey, toLex_inj, Prod.mk.injEq] at hkey
  exact hkey.2.2

/-- Grants that are those of verified texts. -/
def Verified (crypto : GrantCrypto) (resource : JsString) (l : List SignedGrant) : Prop :=
  ∀ r ∈ l, ∃ e : Element crypto resource, e.record.toSignedGrant = r

theorem verified_grants (g : GrantLog crypto resource) : Verified crypto resource g.grants := by
  intro r hr
  obtain ⟨record, hrecord, rfl⟩ := List.mem_map.mp hr
  obtain ⟨e, -, rfl⟩ := List.mem_map.mp hrecord
  exact ⟨e, rfl⟩

theorem Verified.decisive {l : List SignedGrant} (h : Verified crypto resource l) :
    Replay.Decisive (byRank sortKey) l := by
  intro r hr r' hr' hle hle'
  obtain ⟨e, rfl⟩ := h r hr
  obtain ⟨e', rfl⟩ := h r' hr'
  exact Element.grant_eq_of_signature (eq_of_sortKey_le hle hle')

/-! ### Absorbed records -/

def Absorbed (g : GrantLog crypto resource) (r : GrantRecord) : Prop := r ∈ g.records

variable {g : GrantLog crypto resource}

theorem absorbed_iff {r : GrantRecord} :
    g.Absorbed r ↔ ∃ e : Element crypto resource, g.orSet.has e = true ∧ e.record = r := by
  rw [Absorbed, records, List.mem_map]
  refine exists_congr fun e => and_congr_left fun _ => ?_
  rw [JsSet.mem_elems, ORSet.mem_value]

theorem mem_grants_iff {r : SignedGrant} :
    r ∈ g.grants ↔ ∃ record, g.Absorbed record ∧ record.toSignedGrant = r := List.mem_map

/-- What a log reports after a replay depends on the set of its records only. -/
theorem computeEffective_congr {g' : GrantLog crypto resource}
    (h : ∀ r, g.Absorbed r ↔ g'.Absorbed r) : g.computeEffective = g'.computeEffective := by
  have hmem : ∀ r, r ∈ g.grants ↔ r ∈ g'.grants := by
    intro r
    rw [mem_grants_iff, mem_grants_iff]
    exact exists_congr fun record => and_congr_left fun _ => h record
  rw [computeEffective_eq_replay, computeEffective_eq_replay,
    Replay.replay_congr (Replayed.apply_idempotent _) g.verified_grants.decisive hmem]

/-! ### Steps -/

section step
variable {localPodId : JsString} {w w' : GrantWorld crypto resource}
  {a : Action GrantCall GrantEvent}

theorem continueMerge_cases (g : GrantLog crypto resource) (rest : List (Option PayloadEntry))
    (accepted : List (Element crypto resource × List (Option JsString))) :
    (g.continueMerge rest accepted).1 = g ∨ ∃ remoteSet, remoteSet.tombstones = JsSet.empty ∧
      (g.continueMerge rest accepted).1 =
        ({ g with orSet := g.orSet.merge remoteSet } : GrantLog crypto resource).replay := by
  unfold continueMerge
  split
  · exact Or.inl rfl
  · split
    · rename_i remoteSet hremote
      refine Or.inr ⟨remoteSet, ?_, rfl⟩
      simp only [fromAccepted] at hremote
      split_ifs at hremote
      obtain rfl := Option.some.inj hremote
      rfl
    · exact Or.inl rfl

variable (localPodId) in
theorem startCall_cases (g : GrantLog crypto resource) (call : GrantCall) :
    (g.startCall localPodId call).1 = g ∨ ∃ remoteSet, remoteSet.tombstones = JsSet.empty ∧
      (g.startCall localPodId call).1 =
        ({ g with orSet := g.orSet.merge remoteSet } : GrantLog crypto resource).replay := by
  cases call with
  | mutate pubKey actions action signedByPodId =>
      left
      cases actions with
      | nil =>
          simp only [startCall]
          split_ifs <;> rfl
      | cons capAction rest =>
          simp only [startCall]
          split_ifs <;> rfl
  | bootstrapAdmin pubKey => exact Or.inl rfl
  | mergeRemote elements =>
      cases elements with
      | none => exact Or.inl rfl
      | some elements => exact continueMerge_cases g elements []

theorem resumeCall_cases {g : GrantLog crypto resource} {frame : GrantFrame crypto resource}
    {event : GrantEvent} {r : GrantLog crypto resource × Task (GrantFrame crypto resource) GrantResult}
    (h : g.resumeCall localPodId frame event = some r) :
    (r.1.orSet = g.orSet ∧ r.1.snapshot = g.snapshot) ∨
    (∃ remoteSet, remoteSet.tombstones = JsSet.empty ∧
      r.1 = ({ g with orSet := g.orSet.merge remoteSet } : GrantLog crypto resource).replay) ∨
    ∃ build at' bytes signature element, frame = .signing build at' bytes ∧ event = .signed signature ∧
      r.1.orSet = g.orSet.add element localPodId ∧
      (build.rest = [] → r.1.snapshot = r.1.computeEffective) := by
  have hmerge : ∀ rest accepted, r = g.continueMerge rest accepted →
      (r.1.orSet = g.orSet ∧ r.1.snapshot = g.snapshot) ∨ ∃ remoteSet, remoteSet.tombstones = JsSet.empty ∧
        r.1 = ({ g with orSet := g.orSet.merge remoteSet } : GrantLog crypto resource).replay := by
    rintro rest accepted rfl
    refine (continueMerge_cases g rest accepted).imp (fun hsame => ?_) id
    rw [hsame]
    exact ⟨rfl, rfl⟩
  unfold resumeCall at h
  split at h
  · obtain rfl := Option.some.inj h
    exact Or.inl ⟨rfl, rfl⟩
  · rename_i build at' bytes signature
    simp only at h
    split_ifs at h with hsigned
    right
    right
    refine ⟨build, at', bytes, signature, ⟨_, hsigned⟩, rfl, rfl, ?_⟩
    split at h
    · obtain rfl := Option.some.inj h
      exact ⟨rfl, fun _ => rfl⟩
    · rename_i hrest
      obtain rfl := Option.some.inj h
      exact ⟨rfl, fun hnil => (by rw [hnil] at hrest; cases hrest)⟩
  · rename_i entry rest accepted answered
    split_ifs at h with hverified
    · exact (hmerge _ _ (Option.some.inj h).symm).imp id Or.inl
    · exact (hmerge _ _ (Option.some.inj h).symm).imp id Or.inl
  · obtain rfl := Option.some.inj h
    exact Or.inl ⟨rfl, rfl⟩
  · cases h

/-- What a step does to the records of the log and to its snapshot. -/
theorem step_cases (h : (calls crypto resource localPodId).step w a = some w') :
    (w'.shared.orSet = w.shared.orSet ∧ w'.shared.snapshot = w.shared.snapshot) ∨
    (∃ remoteSet, remoteSet.tombstones = JsSet.empty ∧
      w'.shared.orSet = w.shared.orSet.merge remoteSet ∧
      w'.shared.snapshot = w'.shared.computeEffective) ∨
    ∃ i build at' bytes signature element, a = .resume i (.signed signature) ∧
      w.tasks[i]? = some (.waiting (.signing build at' bytes)) ∧
      w'.shared.orSet = w.shared.orSet.add element localPodId ∧
      (build.rest = [] → w'.shared.snapshot = w'.shared.computeEffective) := by
  cases a with
  | start call =>
      obtain ⟨r, hr, rfl⟩ := Program.step_start h
      obtain rfl := Option.some.inj hr
      rcases startCall_cases localPodId w.shared call with hsame | ⟨remoteSet, htombs, hmerged⟩
      · left
        show (startCall localPodId w.shared call).1.orSet = _ ∧ _
        rw [hsame]
        exact ⟨rfl, rfl⟩
      · refine Or.inr (Or.inl ⟨remoteSet, htombs, ?_⟩)
        show (startCall localPodId w.shared call).1.orSet = _ ∧ _
        rw [hmerged]
        exact ⟨rfl, rfl⟩
  | resume i event =>
      obtain ⟨frame, r, hframe, hr, rfl⟩ := Program.step_resume h
      rcases resumeCall_cases hr with hsame | ⟨remoteSet, htombs, hmerged⟩ |
        ⟨build, at', bytes, signature, element, rfl, rfl, hadd, hreplay⟩
      · exact Or.inl hsame
      · refine Or.inr (Or.inl ⟨remoteSet, htombs, ?_⟩)
        show r.1.orSet = _ ∧ _
        rw [hmerged]
        exact ⟨rfl, rfl⟩
      · exact Or.inr (Or.inr ⟨i, build, at', bytes, signature, element, rfl, hframe, hadd, hreplay⟩)

/-! ### Runs -/

/-- The scopes for which the call that adds a record in this step has yet to build one. -/
def unbuilt (w : GrantWorld crypto resource) : Action GrantCall GrantEvent → List JsString
  | .resume i (.signed _) =>
      match w.tasks[i]? with
      | some (.waiting (.signing build _ _)) => build.rest
      | _ => []
  | _ => []

/-- If the step adds a record, it is the last one of its call. -/
def ReplaysAdded (w : GrantWorld crypto resource) (a : Action GrantCall GrantEvent) : Prop :=
  unbuilt w a = []

instance (w : GrantWorld crypto resource) : DecidablePred (ReplaysAdded w) := fun a =>
  inferInstanceAs (Decidable (unbuilt w a = []))

/-- The snapshot is that of the records. -/
structure InSync (g : GrantLog crypto resource) : Prop where
  tombstones : g.orSet.tombstones = JsSet.empty
  snapshot : g.snapshot = g.computeEffective

theorem tombstones_step (hw : w.shared.orSet.tombstones = JsSet.empty)
    (h : (calls crypto resource localPodId).step w a = some w') :
    w'.shared.orSet.tombstones = JsSet.empty := by
  rcases step_cases h with ⟨hsame, -⟩ | ⟨remoteSet, htombs, hmerged, -⟩ | ⟨_, _, _, _, _, element, -, -, hadd, -⟩
  · rw [hsame, hw]
  · rw [hmerged]
    show JsSet.ofList (w.shared.orSet.tombstones.elems ++ remoteSet.tombstones.elems) = JsSet.empty
    rw [hw, htombs]
    rfl
  · rw [hadd, ORSet.tombstones_add, hw]

theorem computeEffective_orSet {g g' : GrantLog crypto resource} (h : g'.orSet = g.orSet) :
    g'.computeEffective = g.computeEffective := by
  rw [computeEffective, computeEffective, records, records, h]

theorem InSync.step (hw : InSync w.shared) (hlast : ReplaysAdded w a)
    (h : (calls crypto resource localPodId).step w a = some w') : InSync w'.shared := by
  refine ⟨tombstones_step hw.tombstones h, ?_⟩
  rcases step_cases h with ⟨hsame, hsnapshot⟩ | ⟨-, -, -, hreplay⟩ |
    ⟨i, build, _, _, signature, _, rfl, hi, -, hreplay⟩
  · rw [hsnapshot, hw.snapshot, computeEffective_orSet hsame]
  · exact hreplay
  · refine hreplay ?_
    have hunbuilt : unbuilt w (.resume i (.signed signature)) = build.rest := by
      simp only [unbuilt, hi]
    exact hunbuilt.symm.trans hlast

theorem absorbed_step (hw : w.shared.orSet.tombstones = JsSet.empty)
    (h : (calls crypto resource localPodId).step w a = some w') {r : GrantRecord}
    (hr : w.shared.Absorbed r) : w'.shared.Absorbed r := by
  obtain ⟨e, he, rfl⟩ := absorbed_iff.mp hr
  obtain ⟨tag, htag, -⟩ := (ORSet.has_iff _ e).mp he
  have hlive : tag ∉ w'.shared.orSet.tombstones := by
    rw [tombstones_step hw h]
    exact JsSet.not_mem_empty tag
  refine absorbed_iff.mpr ⟨e, (ORSet.has_iff _ e).mpr ⟨tag, ?_, hlive⟩, rfl⟩
  rcases step_cases h with ⟨hsame, -⟩ | ⟨remoteSet, -, hmerged, -⟩ | ⟨_, _, _, _, _, element, -, -, hadd, -⟩
  · rwa [hsame]
  · rw [hmerged]
    exact (ORSet.mem_tags_merge _ _ e tag).mpr (Or.inl htag)
  · rw [hadd]
    exact (ORSet.mem_tags_add _ element _ e tag).mpr (Or.inl htag)

variable (crypto resource localPodId) in
/-- The log of one pod. -/
abbrev machine := (calls crypto resource localPodId).machine new

theorem inSync_of_reach (h : (machine crypto resource localPodId).Reach ReplaysAdded w) :
    InSync w.shared := by
  refine h.invariant (I := fun w => InSync w.shared) ⟨rfl, rfl⟩ fun w a w' hw hok hstep => ?_
  exact hw.step hok hstep

theorem tombstones_of_reach (h : (machine crypto resource localPodId).Reach (fun _ _ => True) w) :
    w.shared.orSet.tombstones = JsSet.empty := by
  refine h.invariant (I := fun w => w.shared.orSet.tombstones = JsSet.empty) rfl fun w a w' hw _ hstep => ?_
  exact tombstones_step hw hstep

end step

/-- Logs whose calls add one record each report the same once they hold the same records; in every run, a
record that is held is held from then on. -/
theorem grant_logs_converge (crypto : GrantCrypto) (resource : JsString) :
    (∀ podId podId' w w', (machine crypto resource podId).Reach ReplaysAdded w →
      (machine crypto resource podId').Reach ReplaysAdded w' →
      (∀ r, w.shared.Absorbed r ↔ w'.shared.Absorbed r) → w.shared.effective = w'.shared.effective) ∧
    ∀ podId w a w', (machine crypto resource podId).Reach (fun _ _ => True) w →
      (calls crypto resource podId).step w a = some w' →
      ∀ r, w.shared.Absorbed r → w'.shared.Absorbed r := by
  constructor
  · intro podId podId' w w' h h' hsame
    have hsnapshot : w.shared.snapshot = w'.shared.snapshot := by
      rw [(inSync_of_reach h).snapshot, (inSync_of_reach h').snapshot, computeEffective_congr hsame]
    rw [effective, effective, hsnapshot]
  · intro podId w a w' h hstep r hr
    exact absorbed_step (tombstones_of_reach h) hstep hr

/-! ### Two pods -/

/-- The text of an action in a record. -/
def actionText : GrantAction → JsString
  | .grant => js "grant"
  | .revoke => js "revoke"

/-- Signatures that are good for the records of a table only.  A pod is named by its key, and the text of
a record by its signature. -/
def tableCrypto (table : List GrantRecord) : GrantCrypto where
  parse element := (table.find? fun r => r.signature = element).map fun r =>
    ⟨some r.pubKey, some r.scope, some (actionText r.action), some r.at', some r.signedBy,
      some r.signedByPubKeyBytes, some r.signature⟩
  canonicalJSON r := r.signature
  podIdOf key := some key
  verify key signature fields := (table.find? fun r => r.signature = signature).any fun r =>
    decide (r.toGrantFields = fields ∧ r.signedByPubKeyBytes = key)
  verify_inj := by
    intro key key' signature fields fields' h h'
    obtain ⟨r, hr, hfields⟩ := (Option.any_eq_true _ _).mp h
    obtain ⟨r', hr', hfields'⟩ := (Option.any_eq_true _ _).mp h'
    obtain rfl := Option.some.inj (hr.symm.trans hr')
    exact (of_decide_eq_true hfields).1.symm.trans (of_decide_eq_true hfields').1

/-- `A` bootstraps the resource and lets `B` read. -/
def bootstrapA : GrantRecord :=
  ⟨⟨⟨js "A", js "s3:b:admin", .grant, .ofNat 10, js "A"⟩, js "s1"⟩, js "A"⟩

def readB : GrantRecord := ⟨⟨⟨js "B", js "s3:b:read", .grant, .ofNat 11, js "A"⟩, js "s2"⟩, js "A"⟩

/-- The calls on the log of `A`, with the actions that it grants `B`. -/
def issueRun (actions : List JsString) : List (Action GrantCall GrantEvent) :=
  [.start (.bootstrapAdmin none), .resume 0 (.publicKey (js "A") (.ofNat 10)), .resume 0 (.signed (js "s1")),
    .start (.mutate (js "B") actions .grant none), .resume 1 (.publicKey (js "A") (.ofNat 11)),
    .resume 1 (.signed (js "s2"))]

/-- The calls on the log of `B`, which merges what `A` has sent, with its own tags. -/
def mergeRun : List (Action GrantCall GrantEvent) :=
  [.start (.mergeRemote (some [some ⟨js "s2", [some (js "t")]⟩, none, some ⟨js "s1", [some (js "t")]⟩])),
    .resume 0 (.verified true), .resume 0 (.verified true)]

theorem absorbed_congr {g' : GrantLog crypto resource} (h : g.records.Perm g'.records) (r : GrantRecord) :
    g.Absorbed r ↔ g'.Absorbed r := h.mem_iff

theorem grant_logs_converge_issued :
    ∃ w w', (machine (tableCrypto [bootstrapA, readB]) (js "s3:b") (js "A")).Reach ReplaysAdded w ∧
      (machine (tableCrypto [bootstrapA, readB]) (js "s3:b") (js "B")).Reach ReplaysAdded w' ∧
      w.shared.effective = w'.shared.effective ∧
      ∃ w₂, (calls _ _ (js "A")).step w (.start (.bootstrapAdmin none)) = some w₂ ∧
        ∀ r, w.shared.Absorbed r → w₂.shared.Absorbed r := by
  obtain ⟨w, -, hw, hrecords⟩ := Machine.exists_of_run
    (P := fun w : GrantWorld (tableCrypto [bootstrapA, readB]) (js "s3:b") =>
      w.shared.records = [bootstrapA, readB])
    (show ((machine _ _ (js "A")).run ReplaysAdded (machine _ _ (js "A")).init
      (issueRun [js "read"])).any _ = true by decide +kernel)
  obtain ⟨w', -, hw', hrecords'⟩ := Machine.exists_of_run
    (P := fun w : GrantWorld (tableCrypto [bootstrapA, readB]) (js "s3:b") =>
      w.shared.records = [readB, bootstrapA])
    (show ((machine _ _ (js "B")).run ReplaysAdded (machine _ _ (js "B")).init
      mergeRun).any _ = true by decide +kernel)
  have hsame : ∀ r, w.shared.Absorbed r ↔ w'.shared.Absorbed r := by
    refine absorbed_congr ?_
    rw [hrecords, hrecords']
    exact List.Perm.swap _ _ _
  refine ⟨w, w', hw, hw', (grant_logs_converge _ _).1 _ _ w w' hw hw' hsame, _, rfl, ?_⟩
  exact (grant_logs_converge _ _).2 _ w (.start (.bootstrapAdmin none)) _
    (hw.mono fun _ _ _ => trivial) rfl

/-- `A` grants two actions and loses its key after the first: its log holds the record and does not
report it. -/
theorem interrupted_grant_diverges :
    ¬ ∀ (crypto : GrantCrypto) (resource podId podId' : JsString) (w w' : GrantWorld crypto resource),
      (machine crypto resource podId).Reach (fun _ _ => True) w →
      (machine crypto resource podId').Reach (fun _ _ => True) w' →
      (∀ r, w.shared.Absorbed r ↔ w'.shared.Absorbed r) → w.shared.effective = w'.shared.effective := by
  intro h
  obtain ⟨w, -, hw, hrecords, hstale⟩ := Machine.exists_of_run
    (P := fun w : GrantWorld (tableCrypto [bootstrapA, readB]) (js "s3:b") =>
      w.shared.records = [bootstrapA, readB] ∧ w.shared.effective.2.hasOwn (js "B") = false)
    (show ((machine _ _ (js "A")).run (fun _ _ => True) (machine _ _ (js "A")).init
      (issueRun [js "read", js "write"] ++ [.resume 1 .failed])).any _ = true by decide +kernel)
  obtain ⟨w', -, hw', hrecords', hfresh⟩ := Machine.exists_of_run
    (P := fun w : GrantWorld (tableCrypto [bootstrapA, readB]) (js "s3:b") =>
      w.shared.records = [readB, bootstrapA] ∧ w.shared.effective.2.hasOwn (js "B") = true)
    (show ((machine _ _ (js "B")).run (fun _ _ => True) (machine _ _ (js "B")).init
      mergeRun).any _ = true by decide +kernel)
  have hsame : ∀ r, w.shared.Absorbed r ↔ w'.shared.Absorbed r := by
    refine absorbed_congr ?_
    rw [hrecords, hrecords']
    exact List.Perm.swap _ _ _
  rw [h _ _ _ _ w w' hw hw' hsame, hfresh] at hstale
  cases hstale

end GrantLog
end BrowserMesh.Apps
