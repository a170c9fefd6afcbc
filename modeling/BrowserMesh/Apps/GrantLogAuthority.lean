import BrowserMesh.Apps.GrantLogConvergence

/-! # Who gains authority over a grant log

* **Effective records.**  A record is effective when it is authorized after the records that sort strictly
  before it.  Every admin was made one by an effective record (`everAdmin_of_replay`).
* **Outsiders.**  The records of pods that no effective record ever made admin change nothing, with one
  exception: where the records before it leave no admin, a self-signed grant of the admin scope is a
  bootstrap.  `authority_kept` is about records that are no such grants. -/

namespace BrowserMesh.Apps
open Js Primitives Async Transition

namespace GrantLog
variable {crypto : GrantCrypto} {resource : JsString}

variable (resource) in
/-- The state of the replay after the records of the list that sort strictly before `r`. -/
def replayedBefore (l : List SignedGrant) (r : SignedGrant) : Replayed :=
  Replay.replay (Replayed.apply (scopeFor resource ADMIN_ACTION)) (byRank sortKey) Replayed.init
    (Replay.before (byRank sortKey) l r)

/-- The record is held, and authorized where it stands. -/
def EffectiveRecord (g : GrantLog crypto resource) (r : SignedGrant) : Prop :=
  r ∈ g.grants ∧ (replayedBefore resource g.grants r).authorized (scopeFor resource ADMIN_ACTION) r = true

/-- An effective record makes the pod admin. -/
def EverAdmin (g : GrantLog crypto resource) (podId : JsString) : Prop :=
  ∃ r, g.EffectiveRecord r ∧ r.scope = scopeFor resource ADMIN_ACTION ∧ r.action = .grant ∧
    r.pubKey = podId

/-- A self-signed grant of the admin scope that sorts where the records of the log leave no admin. -/
def TakesOver (g : GrantLog crypto resource) (r : SignedGrant) : Prop :=
  SelfGrant (scopeFor resource ADMIN_ACTION) r ∧
    (replayedBefore resource g.grants r).adminSet.elems = []

variable {r : SignedGrant}

/-- Whoever a record adds to the admins is its grantee. -/
theorem Replayed.mem_adminSet_apply {adminScope : JsString} {s : Replayed}
    {podId : JsString} (h : podId ∈ (s.apply adminScope r).adminSet) (hs : podId ∉ s.adminSet) :
    s.authorized adminScope r = true ∧ r.scope = adminScope ∧ r.action = .grant ∧ r.pubKey = podId := by
  unfold apply at h
  split_ifs at h with hauth hscope haction
  · rcases JsSet.mem_add.mp h with h | rfl
    · exact absurd h hs
    · exact ⟨hauth, hscope, haction, rfl⟩
  · exact absurd (JsSet.mem_delete.mp h).1 hs
  · exact absurd h hs
  · exact absurd h hs

theorem verified_before (g : GrantLog crypto resource) (r : SignedGrant) :
    Verified crypto resource (Replay.before (byRank sortKey) g.grants r) :=
  fun r' hr' => g.verified_grants r' (Replay.mem_before.mp hr').1

theorem before_before {l : List SignedGrant} {r' : SignedGrant}
    (h : r' ∈ Replay.before (byRank sortKey) l r) (r'' : SignedGrant) :
    r'' ∈ Replay.before (byRank sortKey) (Replay.before (byRank sortKey) l r) r' ↔
      r'' ∈ Replay.before (byRank sortKey) l r' := by
  rw [Replay.mem_before, Replay.mem_before, Replay.mem_before]
  constructor
  · exact fun ⟨⟨hl, _⟩, hlt⟩ => ⟨hl, hlt⟩
  · rintro ⟨hl, hlt⟩
    have hr' := (Replay.mem_before.mp h).2
    refine ⟨⟨hl, fun hle => hr' (le_trans hle ?_)⟩, hlt⟩
    exact (le_total (sortKey r'') (sortKey r')).resolve_right hlt

variable {g : GrantLog crypto resource}

/-- An admin at some point of the replay was made one by an effective record. -/
theorem everAdmin_of_replay {podId : JsString}
    (h : podId ∈ (replayedBefore resource g.grants r).adminSet) : g.EverAdmin podId := by
  obtain ⟨r', hr', hnot, hadmin⟩ := Replay.exists_of_replay (Replayed.apply_idempotent _)
    (g.verified_before r).decisive (P := fun s => podId ∈ s.adminSet) (JsSet.not_mem_empty podId) h
  have hsame := Replay.replay_congr (Replayed.apply_idempotent (scopeFor resource ADMIN_ACTION))
    (fun a ha b hb => (g.verified_before r).decisive a (Replay.mem_before.mp ha).1 b
      (Replay.mem_before.mp hb).1) (before_before hr') Replayed.init
  rw [hsame] at hnot hadmin
  obtain ⟨hauth, hscope, haction, hpod⟩ := Replayed.mem_adminSet_apply hadmin hnot
  exact ⟨r', ⟨(Replay.mem_before.mp hr').1, hauth⟩, hscope, haction, hpod⟩

/-- The record of an outsider that is no bootstrap changes nothing where it stands. -/
theorem apply_of_outsider (hsigner : ¬ g.EverAdmin r.signedBy) (hdoor : ¬ g.TakesOver r) :
    (replayedBefore resource g.grants r).apply (scopeFor resource ADMIN_ACTION) r =
      replayedBefore resource g.grants r := by
  refine if_neg ?_
  rw [Replayed.authorized, Bool.or_eq_true, Bool.and_eq_true, List.isEmpty_iff, decide_eq_true_iff,
    JsSet.has_iff]
  rintro (⟨hempty, hself⟩ | hadmin)
  · exact hdoor ⟨hself, hempty⟩
  · exact hsigner (everAdmin_of_replay hadmin)

/-- A log that holds besides the records of another only records of pods that no effective record of that
log makes admin, and among them no self-signed grant of the admin scope where it has no admin, reports
what that log reports. -/
theorem authority_kept (crypto : GrantCrypto) (resource : JsString) (g g' : GrantLog crypto resource)
    (hg : g.snapshot = g.computeEffective) (hg' : g'.snapshot = g'.computeEffective)
    (S : GrantRecord → Prop) (hrecords : ∀ r, g'.Absorbed r ↔ g.Absorbed r ∨ S r)
    (hsigner : ∀ r, S r → ¬ g.EverAdmin r.signedBy)
    (hdoor : ∀ r, S r → ¬ g.TakesOver r.toSignedGrant) : g'.effective = g.effective := by
  have hinert : ∀ r ∈ g'.grants, r ∉ g.grants →
      (replayedBefore resource g.grants r).apply (scopeFor resource ADMIN_ACTION) r =
        replayedBefore resource g.grants r := by
    intro r hr hnot
    obtain ⟨record, habsorbed, rfl⟩ := mem_grants_iff.mp hr
    have hS : S record := by
      rcases (hrecords record).mp habsorbed with hold | hS
      · exact absurd (mem_grants_iff.mpr ⟨record, hold, rfl⟩) hnot
      · exact hS
    exact apply_of_outsider (hsigner record hS) (hdoor record hS)
  have hsub : ∀ r ∈ g.grants, r ∈ g'.grants := by
    intro r hr
    obtain ⟨record, habsorbed, rfl⟩ := mem_grants_iff.mp hr
    exact mem_grants_iff.mpr ⟨record, (hrecords record).mpr (Or.inl habsorbed), rfl⟩
  have hreplay := Replay.replay_eq_of_inert (Replayed.apply_idempotent (scopeFor resource ADMIN_ACTION))
    g'.verified_grants.decisive Replayed.init hsub hinert
  have hsnapshot : g'.snapshot = g.snapshot := by
    rw [hg, hg', computeEffective_eq_replay, computeEffective_eq_replay, hreplay]
  rw [effective, effective, hsnapshot]

/-! ### An outsider -/

instance (g : GrantLog crypto resource) (podId : JsString) : Decidable (g.EverAdmin podId) :=
  decidable_of_iff (∃ r ∈ g.grants,
      (replayedBefore resource g.grants r).authorized (scopeFor resource ADMIN_ACTION) r = true ∧
        r.scope = scopeFor resource ADMIN_ACTION ∧ r.action = .grant ∧ r.pubKey = podId) (by
    constructor
    · rintro ⟨r, hr, hauth, hgrant⟩
      exact ⟨r, ⟨hr, hauth⟩, hgrant⟩
    · rintro ⟨r, ⟨hr, hauth⟩, hgrant⟩
      exact ⟨r, hr, hauth, hgrant⟩)

instance (g : GrantLog crypto resource) (r : SignedGrant) : Decidable (g.TakesOver r) :=
  inferInstanceAs (Decidable (_ ∧ _))

/-- `M` grants itself the admin scope, at the given time. -/
def seize (now : JsNumber) : GrantRecord :=
  ⟨⟨⟨js "M", js "s3:b:admin", .grant, now, js "M"⟩, js "s3"⟩, js "M"⟩

/-- The calls on a log that merges what `A` and `M` have sent. -/
def mergeSeized : List (Action GrantCall GrantEvent) :=
  [.start (.mergeRemote (some [some ⟨js "s1", [some (js "t")]⟩, some ⟨js "s2", [some (js "t")]⟩,
    some ⟨js "s3", [some (js "t")]⟩])), .resume 0 (.verified true), .resume 0 (.verified true),
    .resume 0 (.verified true)]

theorem absorbed_iff_of_records {g' : GrantLog crypto resource} {r : GrantRecord}
    (h : g'.records = g.records ++ [r]) (r' : GrantRecord) :
    g'.Absorbed r' ↔ g.Absorbed r' ∨ r' = r := by
  rw [Absorbed, Absorbed, h, List.mem_append, List.mem_singleton]

theorem authority_kept_later :
    ∃ g g' : GrantLog (tableCrypto [bootstrapA, readB, seize (.ofNat 20)]) (js "s3:b"),
      g'.records = g.records ++ [seize (.ofNat 20)] ∧ g'.effective = g.effective := by
  obtain ⟨w, -, hw, hrecords, hadmin, hdoor⟩ := Machine.exists_of_run
    (P := fun w : GrantWorld (tableCrypto [bootstrapA, readB, seize (.ofNat 20)]) (js "s3:b") =>
      w.shared.records = [bootstrapA, readB] ∧ ¬ w.shared.EverAdmin (js "M") ∧
        ¬ w.shared.TakesOver (seize (.ofNat 20)).toSignedGrant)
    (show ((machine _ _ (js "A")).run ReplaysAdded (machine _ _ (js "A")).init
      (issueRun [js "read"])).any _ = true by decide +kernel)
  obtain ⟨w', -, hw', hrecords'⟩ := Machine.exists_of_run
    (P := fun w : GrantWorld (tableCrypto [bootstrapA, readB, seize (.ofNat 20)]) (js "s3:b") =>
      w.shared.records = [bootstrapA, readB, seize (.ofNat 20)])
    (show ((machine _ _ (js "B")).run ReplaysAdded (machine _ _ (js "B")).init
      mergeSeized).any _ = true by decide +kernel)
  have hmore : w'.shared.records = w.shared.records ++ [seize (.ofNat 20)] := by
    rw [hrecords, hrecords']
    rfl
  refine ⟨w.shared, w'.shared, hmore, authority_kept _ _ w.shared w'.shared (inSync_of_reach hw).snapshot
    (inSync_of_reach hw').snapshot (fun r => r = seize (.ofNat 20)) (absorbed_iff_of_records hmore) ?_ ?_⟩
  · rintro r rfl
    exact hadmin
  · rintro r rfl
    exact hdoor

/-- `M` dates its record before the bootstrap of `A`: then `M` is the admin, and `A` is none. -/
theorem authority_seized_by_backdating :
    ¬ ∀ (crypto : GrantCrypto) (resource podId podId' admin : JsString)
      (w w' : GrantWorld crypto resource) (S : GrantRecord → Prop),
      (machine crypto resource podId).Reach ReplaysAdded w →
      (machine crypto resource podId').Reach ReplaysAdded w' →
      (∃ r, w.shared.Absorbed r ∧ SelfGrant (scopeFor resource ADMIN_ACTION) r.toSignedGrant ∧
        r.signedBy = admin) →
      (∀ r, w'.shared.Absorbed r ↔ w.shared.Absorbed r ∨ S r) →
      (∀ r, S r → r.signedBy ≠ admin ∧ ¬ w.shared.EverAdmin r.signedBy) →
      w'.shared.effective = w.shared.effective := by
  intro h
  obtain ⟨w, -, hw, hrecords, hadmin, hbefore⟩ := Machine.exists_of_run
    (P := fun w : GrantWorld (tableCrypto [bootstrapA, readB, seize (.ofNat 5)]) (js "s3:b") =>
      w.shared.records = [bootstrapA, readB] ∧ ¬ w.shared.EverAdmin (js "M") ∧
        w.shared.effective.1 = [js "A"])
    (show ((machine _ _ (js "A")).run ReplaysAdded (machine _ _ (js "A")).init
      (issueRun [js "read"])).any _ = true by decide +kernel)
  obtain ⟨w', -, hw', hrecords', hafter⟩ := Machine.exists_of_run
    (P := fun w : GrantWorld (tableCrypto [bootstrapA, readB, seize (.ofNat 5)]) (js "s3:b") =>
      w.shared.records = [bootstrapA, readB, seize (.ofNat 5)] ∧ w.shared.effective.1 = [js "M"])
    (show ((machine _ _ (js "B")).run ReplaysAdded (machine _ _ (js "B")).init
      mergeSeized).any _ = true by decide +kernel)
  have hmore : w'.shared.records = w.shared.records ++ [seize (.ofNat 5)] := by
    rw [hrecords, hrecords']
    rfl
  have hboot : w.shared.Absorbed bootstrapA := by
    rw [Absorbed, hrecords]
    exact List.mem_cons_self
  have hsame := h _ _ _ _ (js "A") w w' (fun r => r = seize (.ofNat 5)) hw hw'
    ⟨bootstrapA, hboot, by decide, rfl⟩ (absorbed_iff_of_records hmore) (by
      rintro r rfl
      exact ⟨by decide, hadmin⟩)
  rw [hsame, hbefore] at hafter
  exact absurd hafter (by decide)

end GrantLog
end BrowserMesh.Apps
