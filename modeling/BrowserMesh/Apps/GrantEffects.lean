import BrowserMesh.Apps.GrantLogAuthority

/-! # What a grant changes

* **Scopes.**  A scope is listed for a pod if the last effective record on the two grants it (`lists_iff`).
* **Calls.**  A `grant` or `revoke` that nothing interrupts adds the records that it has signed (`Runs.issued`); the records
  held before stay what they were unless the admins change under them (`effectiveRecord_iff`).
* **Effects.**  So the call leaves all other scopes alone, and its own ones are as it wants them unless a record that sorts
  later has the last word (`grants_take_effect`). -/

namespace BrowserMesh.Apps
open Js Primitives Async Transition

namespace GrantLog
variable {crypto : GrantCrypto} {resource : JsString}

/-- `effective()` lists the scope for the pod. -/
def Lists (g : GrantLog crypto resource) (podId scope : JsString) : Prop :=
  ∃ scopes, g.effective.2.props.get? podId = some scopes ∧ scope ∈ scopes

instance (g : GrantLog crypto resource) (podId scope : JsString) : Decidable (g.Lists podId scope) :=
  decidable_of_iff ((g.effective.2.props.get? podId).any (fun scopes => decide (scope ∈ scopes)) = true) (by
    rw [Option.any_eq_true]
    exact exists_congr fun scopes => and_congr_right fun _ => decide_eq_true_iff)

def On (podId scope : JsString) (r : SignedGrant) : Prop := r.pubKey = podId ∧ r.scope = scope

/-- The record is effective, and no effective record about its pod and scope sorts after it. -/
def Stands (g : GrantLog crypto resource) (r : SignedGrant) : Prop :=
  g.EffectiveRecord r ∧ ∀ r', g.EffectiveRecord r' → On r.pubKey r.scope r' → byRank sortKey r' r

/-! ### The last record decides -/

def Replayed.standing (s : Replayed) (podId scope : JsString) : Option GrantAction :=
  (s.perPubKeyScope.get? podId).bind fun byScope => byScope.get? scope

variable {adminScope : JsString} {r : SignedGrant}

theorem Replayed.standing_apply {s : Replayed} (h : s.authorized adminScope r = true) (podId scope : JsString) :
    (s.apply adminScope r).standing podId scope =
      if r.pubKey = podId ∧ r.scope = scope then some r.action else s.standing podId scope := by
  rw [apply, if_pos h, standing, standing]
  dsimp only
  rw [JsMap.get?_set]
  by_cases hp : podId = r.pubKey
  · subst hp
    rw [if_pos rfl, Option.bind_some, JsMap.get?_set]
    by_cases hs : scope = r.scope
    · rw [if_pos hs, if_pos ⟨rfl, hs.symm⟩]
    · rw [if_neg hs, if_neg fun hon => hs hon.2.symm]
      cases s.perPubKeyScope.get? r.pubKey with
      | none => rfl
      | some byScope => rfl
  · rw [if_neg hp, if_neg fun hon => hp hon.1.symm]

theorem Replayed.standing_apply_of_not {s : Replayed} {podId scope : JsString}
    (h : ¬ (s.authorized adminScope r = true ∧ On podId scope r)) :
    (s.apply adminScope r).standing podId scope = s.standing podId scope := by
  by_cases hauth : s.authorized adminScope r = true
  · have hon : ¬ (r.pubKey = podId ∧ r.scope = scope) := fun hon => h ⟨hauth, hon⟩
    rw [standing_apply hauth, if_neg hon]
  · rw [apply, if_neg hauth]

theorem standing_iff (g : GrantLog crypto resource) (podId scope : JsString) (action : GrantAction) :
    (Replay.replay (Replayed.apply (scopeFor resource ADMIN_ACTION)) (byRank sortKey) Replayed.init g.grants).standing
        podId scope = some action ↔
      ∃ r, g.Stands r ∧ On podId scope r ∧ r.action = action := by
  have hset : ∀ (s : Replayed) (r : SignedGrant), s.authorized (scopeFor resource ADMIN_ACTION) r = true →
      On podId scope r → (s.apply (scopeFor resource ADMIN_ACTION) r).standing podId scope = some r.action := by
    intro s r hauth hon
    rw [Replayed.standing_apply hauth]
    exact if_pos hon
  have hnone : Replayed.init.standing podId scope = none := rfl
  have hkeep : ∀ (s : Replayed) (r : SignedGrant),
      ¬ (s.authorized (scopeFor resource ADMIN_ACTION) r = true ∧ On podId scope r) →
      (s.apply (scopeFor resource ADMIN_ACTION) r).standing podId scope = s.standing podId scope :=
    fun _ _ => Replayed.standing_apply_of_not
  refine (Replay.replay_last (f := fun s : Replayed => s.standing podId scope)
    (Replayed.apply_idempotent _) hset hkeep hnone g.verified_grants.decisive action).trans ?_
  constructor
  · rintro ⟨r, hr, hauth, hon, haction, hlast⟩
    refine ⟨r, ⟨⟨hr, hauth⟩, fun r' heffective hon' => hlast r' heffective.1 heffective.2 ?_⟩, hon, haction⟩
    exact ⟨hon'.1.trans hon.1, hon'.2.trans hon.2⟩
  · rintro ⟨r, ⟨heffective, hlast⟩, hon, haction⟩
    refine ⟨r, heffective.1, heffective.2, hon, haction, fun r' hr' hauth' hon' => hlast r' ⟨hr', hauth'⟩ ?_⟩
    exact ⟨hon'.1.trans hon.1.symm, hon'.2.trans hon.2.symm⟩

theorem Replayed.get?_effective (s : Replayed) (podId : JsString) :
    s.effective.grants.get? podId = (s.perPubKeyScope.get? podId).bind fun byScope =>
      let active := JsSet.ofList ((byScope.entries.filter fun a => a.2 = .grant).map Prod.fst)
      if active.elems.isEmpty then none else some active := by
  have key : ∀ (l : List (JsString × JsMap JsString GrantAction)) (m : JsMap JsString (JsSet JsString)),
      (l.map Prod.fst).Nodup → (podId ∈ l.map Prod.fst → m.get? podId = none) →
      (l.foldl (fun grants e =>
          let active := JsSet.ofList ((e.2.entries.filter fun a => a.2 = .grant).map Prod.fst)
          if active.elems.isEmpty then grants else grants.set e.1 active) m).get? podId =
        (assoc podId l).elim (m.get? podId) fun byScope =>
          let active := JsSet.ofList ((byScope.entries.filter fun a => a.2 = .grant).map Prod.fst)
          if active.elems.isEmpty then none else some active := by
    intro l
    induction l with
    | nil => exact fun _ _ _ => rfl
    | cons e l ih =>
        intro m hnodup hfresh
        obtain ⟨hnot, hnodup⟩ := List.nodup_cons.mp hnodup
        dsimp only [List.foldl_cons]
        by_cases hkey : e.1 = podId
        · obtain rfl := hkey
          rw [ih _ hnodup fun hmem => absurd hmem hnot, assoc, if_pos rfl, assoc_eq_none_iff.mpr hnot]
          dsimp only [Option.elim]
          split_ifs with hempty
          · exact hfresh List.mem_cons_self
          · rw [JsMap.get?_set, if_pos rfl]
        · have hsame : (if (JsSet.ofList ((e.2.entries.filter fun a => a.2 = .grant).map Prod.fst)).elems.isEmpty then m
              else m.set e.1 (JsSet.ofList ((e.2.entries.filter fun a => a.2 = .grant).map Prod.fst))).get? podId =
              m.get? podId := by
            split_ifs
            · rfl
            · rw [JsMap.get?_set, if_neg (Ne.symm hkey)]
          rw [ih _ hnodup fun hmem => hsame.trans (hfresh (List.mem_cons_of_mem _ hmem)), hsame, assoc, if_neg hkey]
  rw [effective, key _ _ s.perPubKeyScope.nodup fun _ => rfl]
  show _ = (assoc podId s.perPubKeyScope.entries).bind _
  cases assoc podId s.perPubKeyScope.entries <;> rfl

theorem Replayed.mem_effective (s : Replayed) (podId scope : JsString) :
    (∃ scopes, s.effective.grants.get? podId = some scopes ∧ scope ∈ scopes) ↔
      s.standing podId scope = some .grant := by
  rw [get?_effective, standing]
  cases s.perPubKeyScope.get? podId with
  | none => simp
  | some byScope =>
      have hactive : scope ∈ JsSet.ofList ((byScope.entries.filter fun a => a.2 = .grant).map Prod.fst) ↔
          byScope.get? scope = some .grant := by
        rw [JsSet.mem_ofList, List.mem_map, ← JsMap.mem_entries_iff]
        constructor
        · rintro ⟨⟨scope', action⟩, ha, rfl⟩
          obtain ⟨ha, hgrant⟩ := List.mem_filter.mp ha
          obtain rfl := of_decide_eq_true hgrant
          exact ha
        · exact fun ha => ⟨_, List.mem_filter.mpr ⟨ha, rfl⟩, rfl⟩
      dsimp only [Option.bind_some]
      split_ifs with hempty
      · constructor
        · rintro ⟨_, h, -⟩
          cases h
        · intro hstanding
          have hmem : scope ∈ JsSet.elems _ := hactive.mpr hstanding
          rw [List.isEmpty_iff.mp hempty] at hmem
          cases hmem
      · rw [← hactive]
        constructor
        · rintro ⟨_, h, hmem⟩
          obtain rfl := Option.some.inj h
          exact hmem
        · exact fun hmem => ⟨_, rfl, hmem⟩

theorem lists_iff {g : GrantLog crypto resource} (hg : g.snapshot = g.computeEffective) (podId scope : JsString) :
    g.Lists podId scope ↔ podId ≠ protoKey ∧ ∃ r, g.Stands r ∧ On podId scope r ∧ r.action = .grant := by
  have hnodup : ((g.snapshot.grants.entries.map fun e => (e.1, e.2.elems)).map Prod.fst).Nodup := by
    rw [List.map_map]
    exact g.snapshot.grants.nodup
  rw [Lists, effective, JsObject.get?_assignAll_empty _ hnodup, assoc_map JsSet.elems]
  by_cases hp : podId = protoKey
  · simp [hp]
  · rw [if_neg hp, ← standing_iff, ← Replayed.mem_effective, ← computeEffective_eq_replay, ← hg]
    constructor
    · rintro ⟨_, h, hmem⟩
      obtain ⟨scopes, hscopes, rfl⟩ := Option.map_eq_some_iff.mp h
      exact ⟨hp, scopes, hscopes, hmem⟩
    · rintro ⟨-, scopes, hscopes, hmem⟩
      exact ⟨_, congrArg (Option.map JsSet.elems) hscopes, hmem⟩

/-! ### The records held before -/

def adminStep (adminScope : JsString) (admins : JsSet JsString) (r : SignedGrant) : JsSet JsString :=
  (Replayed.apply adminScope ⟨admins, JsMap.empty⟩ r).adminSet

theorem Replayed.adminSet_apply (adminScope : JsString) (s : Replayed) (r : SignedGrant) :
    (s.apply adminScope r).adminSet = adminStep adminScope s.adminSet r := by
  have hauth : Replayed.authorized adminScope ⟨s.adminSet, JsMap.empty⟩ r = s.authorized adminScope r := rfl
  rw [adminStep, apply, apply, hauth]
  split_ifs <;> rfl

theorem adminStep_idempotent (adminScope : JsString) : Replay.Idempotent (adminStep adminScope) := by
  intro admins r
  have htwice := congrArg Replayed.adminSet (Replayed.apply_idempotent adminScope ⟨admins, JsMap.empty⟩ r)
  rwa [Replayed.adminSet_apply] at htwice

theorem adminSet_replay (adminScope : JsString) (l : List SignedGrant) :
    (Replay.replay (Replayed.apply adminScope) (byRank sortKey) Replayed.init l).adminSet =
      Replay.replay (adminStep adminScope) (byRank sortKey) JsSet.empty l :=
  (List.foldl_hom Replayed.adminSet fun s r => (Replayed.adminSet_apply adminScope s r).symm).symm

theorem adminStep_of_scope_ne (h : r.scope ≠ adminScope)
    (admins : JsSet JsString) : adminStep adminScope admins r = admins := by
  rw [adminStep, Replayed.apply]
  split_ifs
  · rfl
  · rfl

theorem adminSet_replay_of_scope_ne {g' : GrantLog crypto resource} {l l' : List SignedGrant}
    (hl' : l' ⊆ g'.grants) (hsub : l ⊆ l')
    (hscope : ∀ r ∈ l', r ∉ l → r.scope ≠ scopeFor resource ADMIN_ACTION) :
    (Replay.replay (Replayed.apply (scopeFor resource ADMIN_ACTION)) (byRank sortKey) Replayed.init l').adminSet =
      (Replay.replay (Replayed.apply (scopeFor resource ADMIN_ACTION)) (byRank sortKey) Replayed.init l).adminSet := by
  rw [adminSet_replay, adminSet_replay]
  refine Replay.replay_eq_of_inert (adminStep_idempotent _) (g'.verified_grants.decisive.subset hl') _ hsub
    fun r hr hnot => ?_
  exact adminStep_of_scope_ne (hscope r hr hnot) _

/-- No new record is about the admin scope, or no old one sorts after a new one. -/
def KeepsAdmins (resource : JsString) (old new : List SignedGrant) : Prop :=
  (∀ r ∈ new, r.scope ≠ scopeFor resource ADMIN_ACTION) ∨ ∀ r ∈ new, ∀ x ∈ old, byRank sortKey x r

theorem effectiveRecord_iff {g g' : GrantLog crypto resource} {new : List SignedGrant}
    (hgrants : ∀ r, r ∈ g'.grants ↔ r ∈ g.grants ∨ r ∈ new) (hnew : KeepsAdmins resource g.grants new) {x : SignedGrant}
    (hx : x ∈ g.grants) : g'.EffectiveRecord x ↔ g.EffectiveRecord x := by
  have hsub : Replay.before (byRank sortKey) g.grants x ⊆ Replay.before (byRank sortKey) g'.grants x := by
    intro r hr
    obtain ⟨hr, hlt⟩ := Replay.mem_before.mp hr
    exact Replay.mem_before.mpr ⟨(hgrants r).mpr (Or.inl hr), hlt⟩
  have hadmins : (replayedBefore resource g'.grants x).adminSet = (replayedBefore resource g.grants x).adminSet := by
    rcases hnew with hscope | hlater
    · refine adminSet_replay_of_scope_ne (fun r hr => (Replay.mem_before.mp hr).1) hsub fun r hr hnot => ?_
      obtain ⟨hr, hlt⟩ := Replay.mem_before.mp hr
      rcases (hgrants r).mp hr with hold | hr
      · exact absurd (Replay.mem_before.mpr ⟨hold, hlt⟩) hnot
      · exact hscope r hr
    · refine congrArg Replayed.adminSet (Replay.replay_congr (Replayed.apply_idempotent _)
        (g'.verified_before x).decisive (fun r => ⟨fun hr => ?_, fun hr => hsub hr⟩) _)
      obtain ⟨hr, hlt⟩ := Replay.mem_before.mp hr
      rcases (hgrants r).mp hr with hold | hr
      · exact Replay.mem_before.mpr ⟨hold, hlt⟩
      · exact absurd (hlater r hr x hx) hlt
  have hauth : (replayedBefore resource g'.grants x).authorized (scopeFor resource ADMIN_ACTION) x =
      (replayedBefore resource g.grants x).authorized (scopeFor resource ADMIN_ACTION) x := by
    rw [Replayed.authorized, Replayed.authorized, hadmins]
  rw [EffectiveRecord, EffectiveRecord, hauth]
  exact and_congr_left fun _ => ⟨fun _ => hx, fun hx => (hgrants x).mpr (Or.inl hx)⟩

/-! ### A call that nothing interrupts -/

/-- The records that a call signs, one for each scope, when the wallet and the clock answer so. -/
def issued (pubKey : JsString) (action : GrantAction) (signedBy : JsString) :
    List JsString → JsNumber → List GrantEvent → List GrantRecord
  | scope :: scopes, lastIssuedAt, .publicKey bytes now :: .signed signature :: events =>
      let at' := now.mathMax (lastIssuedAt.add (.ofNat 1))
      ⟨⟨⟨pubKey, scope, action, at', signedBy⟩, signature⟩, bytes⟩ ::
        issued pubKey action signedBy scopes at' events
  | _, _, _ => []

theorem issued_fields {pubKey : JsString} {action : GrantAction} {signedBy : JsString} {scopes : List JsString}
    {lastIssuedAt : JsNumber} {events : List GrantEvent} {r : GrantRecord}
    (h : r ∈ issued pubKey action signedBy scopes lastIssuedAt events) :
    r.pubKey = pubKey ∧ r.action = action ∧ r.signedBy = signedBy := by
  induction scopes, lastIssuedAt, events using issued.induct with
  | case1 scope scopes lastIssuedAt bytes now signature events at' ih =>
      rw [issued] at h
      rcases List.mem_cons.mp h with rfl | h
      · exact ⟨rfl, rfl, rfl⟩
      · exact ih h
  | case2 scopes lastIssuedAt events hother =>
      rw [issued.eq_2 _ _ _ _ _ _ hother] at h
      cases h

/-- What `JSON.parse` makes of the text of a record. -/
def parsed (r : GrantRecord) : ParsedRecord :=
  ⟨some r.pubKey, some r.scope, some (actionText r.action), some r.at', some r.signedBy, some r.signedByPubKeyBytes,
    some r.signature⟩

theorem record_of_parsed {r : GrantRecord} (hjson : crypto.parse (crypto.canonicalJSON r) = some (parsed r))
    (h : (recordOf crypto resource (crypto.canonicalJSON r)).isSome) :
    Element.record ⟨crypto.canonicalJSON r, h⟩ = r := by
  obtain ⟨record, hrecord⟩ := Option.isSome_iff_exists.mp h
  have hget : Element.record ⟨crypto.canonicalJSON r, h⟩ = record := Option.get_of_eq_some _ hrecord
  rw [hget]
  rw [recordOf, hjson, Option.bind_some] at hrecord
  simp only [verifyRecord, parsed, Option.bind_eq_bind, Option.bind_eq_some_iff,
    Option.filter_eq_some_iff, Option.some.injEq] at hrecord
  obtain ⟨_, ⟨rfl, -⟩, _, ⟨rfl, -⟩, action, ⟨_, rfl, haction⟩, _, ⟨rfl, -⟩, _, ⟨rfl, -⟩, _, rfl, _, rfl, _, -, hrecord⟩ :=
    hrecord
  have hsame : action = r.action := by
    cases hr : r.action with
    | grant =>
        rw [hr] at haction
        exact (Option.some.inj haction).symm
    | revoke =>
        rw [hr] at haction
        exact (Option.some.inj haction).symm
  subst hsame
  split_ifs at hrecord
  exact (Option.some.inj hrecord).symm

theorem absorbed_add {g : GrantLog crypto resource} {e : Element crypto resource} {localPodId : JsString}
    (htombs : g.orSet.tombstones = JsSet.empty) {g' : GrantLog crypto resource}
    (h : g'.orSet = g.orSet.add e localPodId) (r : GrantRecord) :
    g'.Absorbed r ↔ g.Absorbed r ∨ r = e.record := by
  have hhas : ∀ e', g'.orSet.has e' = true ↔ g.orSet.has e' = true ∨ e' = e := by
    intro e'
    rw [h, ORSet.has_iff, ORSet.has_iff, ORSet.tombstones_add, htombs]
    constructor
    · rintro ⟨tag, htag, hlive⟩
      rcases (ORSet.mem_tags_add _ _ _ _ _).mp htag with htag | ⟨rfl, -⟩
      · exact Or.inl ⟨tag, htag, hlive⟩
      · exact Or.inr rfl
    · rintro (⟨tag, htag, hlive⟩ | rfl)
      · exact ⟨tag, (ORSet.mem_tags_add _ _ _ _ _).mpr (Or.inl htag), hlive⟩
      · exact ⟨_, (ORSet.mem_tags_add _ _ _ _ _).mpr (Or.inr ⟨rfl, rfl⟩), JsSet.not_mem_empty _⟩
  rw [absorbed_iff, absorbed_iff]
  constructor
  · rintro ⟨e', he', rfl⟩
    rcases (hhas e').mp he' with hold | rfl
    · exact Or.inl ⟨e', hold, rfl⟩
    · exact Or.inr rfl
  · rintro (⟨e', he', rfl⟩ | rfl)
    · exact ⟨e', (hhas e').mpr (Or.inl he'), rfl⟩
    · exact ⟨e, (hhas e).mpr (Or.inr rfl), rfl⟩

section run
variable {localPodId : JsString} {w w' : GrantWorld crypto resource} {i : ℕ}

theorem run_cons {a : Action GrantCall GrantEvent} {acts : List (Action GrantCall GrantEvent)}
    (h : (machine crypto resource localPodId).run (fun _ _ => True) w (a :: acts) = some w') :
    ∃ w₁, (calls crypto resource localPodId).step w a = some w₁ ∧
      (machine crypto resource localPodId).run (fun _ _ => True) w₁ acts = some w' := by
  rw [Machine.run, if_pos trivial] at h
  exact Option.bind_eq_some_iff.mp h

variable {events : List GrantEvent}

theorem run_returned {result : GrantResult} (hi : w.tasks[i]? = some (.returned result))
    (h : (machine crypto resource localPodId).run (fun _ _ => True) w (events.map (.resume i)) = some w') : w' = w := by
  cases events with
  | nil => exact (Option.some.inj h).symm
  | cons event events =>
      obtain ⟨w₁, hstep, -⟩ := run_cons h
      obtain ⟨frame, _, hframe, -, -⟩ := Program.step_resume hstep
      rw [hi] at hframe
      cases hframe

theorem tasks_set {tasks : List (Task (GrantFrame crypto resource) GrantResult)} {t t' : Task _ _}
    (hi : tasks[i]? = some t) : (tasks.set i t')[i]? = some t' := by
  obtain ⟨hlt, -⟩ := List.getElem?_eq_some_iff.mp hi
  rw [List.getElem?_set_self hlt]

theorem run_gettingKey {build : BuildRecord} (hi : w.tasks[i]? = some (.waiting (.gettingKey build)))
    (h : (machine crypto resource localPodId).run (fun _ _ => True) w (events.map (.resume i)) = some w')
    (hdone : w'.tasks[i]? = some (.returned .done)) :
    ∃ bytes now rest w₁, events = .publicKey bytes now :: rest ∧
      w₁.shared = { w.shared with lastIssuedAt := now.mathMax (w.shared.lastIssuedAt.add (.ofNat 1)) } ∧
      w₁.tasks[i]? = some (.waiting (.signing build (now.mathMax (w.shared.lastIssuedAt.add (.ofNat 1))) bytes)) ∧
      (machine crypto resource localPodId).run (fun _ _ => True) w₁ (rest.map (.resume i)) = some w' := by
  cases events with
  | nil =>
      obtain rfl := Option.some.inj h
      rw [hi] at hdone
      cases hdone
  | cons event events =>
      obtain ⟨w₁, hstep, hrest⟩ := run_cons h
      obtain ⟨frame, r, hframe, hr, rfl⟩ := Program.step_resume hstep
      rw [hi] at hframe
      obtain rfl : .gettingKey build = frame := Task.waiting.inj (Option.some.inj hframe)
      cases event with
      | publicKey bytes now =>
          obtain rfl := Option.some.inj hr
          exact ⟨bytes, now, events, _, rfl, rfl, tasks_set hi, hrest⟩
      | signed signature => cases hr
      | verified answered => cases hr
      | failed =>
          obtain rfl := Option.some.inj hr
          have hreturned : (w.tasks.set i (.returned .rejected))[i]? = some (.returned .rejected) := tasks_set hi
          rw [run_returned hreturned hrest, hreturned] at hdone
          cases hdone

theorem run_signing {build : BuildRecord} {at' : JsNumber} {bytes : JsString}
    (hi : w.tasks[i]? = some (.waiting (.signing build at' bytes)))
    (h : (machine crypto resource localPodId).run (fun _ _ => True) w (events.map (.resume i)) = some w')
    (hdone : w'.tasks[i]? = some (.returned .done)) :
    ∃ signature rest, ∃ hverified, ∃ w₁, events = .signed signature :: rest ∧
      w₁.shared.orSet = w.shared.orSet.add ⟨crypto.canonicalJSON
        ⟨⟨⟨build.pubKey, build.scope, build.action, at', build.signedByPodId⟩, signature⟩, bytes⟩, hverified⟩ localPodId ∧
      w₁.shared.lastIssuedAt = w.shared.lastIssuedAt ∧
      (build.rest = [] → w' = w₁ ∧ w₁.shared.snapshot = w₁.shared.computeEffective) ∧
      ∀ scope scopes, build.rest = scope :: scopes →
        w₁.tasks[i]? = some (.waiting (.gettingKey { build with scope := scope, rest := scopes })) ∧
        (machine crypto resource localPodId).run (fun _ _ => True) w₁ (rest.map (.resume i)) = some w' := by
  cases events with
  | nil =>
      obtain rfl := Option.some.inj h
      rw [hi] at hdone
      cases hdone
  | cons event events =>
      obtain ⟨w₁, hstep, hrest⟩ := run_cons h
      obtain ⟨frame, r, hframe, hr, hw₁⟩ := Program.step_resume hstep
      have htask : w₁.tasks[i]? = some r.2 := by
        rw [hw₁]
        exact tasks_set hi
      rw [hi] at hframe
      obtain rfl : .signing build at' bytes = frame := Task.waiting.inj (Option.some.inj hframe)
      cases event with
      | publicKey bytes now => cases hr
      | verified answered => cases hr
      | failed =>
          obtain rfl := Option.some.inj hr
          rw [run_returned htask hrest, htask] at hdone
          cases hdone
      | signed signature =>
          simp only [calls, resumeCall] at hr
          split_ifs at hr with hverified
          obtain ⟨pubKey, scope, action, signedByPodId, scopes⟩ := build
          cases scopes with
          | nil =>
              obtain rfl := Option.some.inj hr
              refine ⟨signature, events, hverified, w₁, rfl, by rw [hw₁]; rfl, by rw [hw₁]; rfl, fun _ => ⟨?_, ?_⟩,
                fun _ _ hnil => ?_⟩
              · exact run_returned htask hrest
              · rw [hw₁]
                rfl
              · cases hnil
          | cons scope' scopes =>
              obtain rfl := Option.some.inj hr
              refine ⟨signature, events, hverified, w₁, rfl, by rw [hw₁], by rw [hw₁], fun hnil => ?_, ?_⟩
              · cases hnil
              · rintro _ _ hcons
                cases hcons
                exact ⟨htask, hrest⟩

/-- A call that is done has added what it has signed and replayed the log; the induction is on the scopes to come. -/
theorem run_issues {pubKey : JsString} {action : GrantAction} {signedBy scope : JsString} {scopes : List JsString}
    (hi : w.tasks[i]? = some (.waiting (.gettingKey ⟨pubKey, scope, action, signedBy, scopes⟩)))
    (htombs : w.shared.orSet.tombstones = JsSet.empty)
    (h : (machine crypto resource localPodId).run (fun _ _ => True) w (events.map (.resume i)) = some w')
    (hdone : w'.tasks[i]? = some (.returned .done))
    (hjson : ∀ r ∈ issued pubKey action signedBy (scope :: scopes) w.shared.lastIssuedAt events,
      crypto.parse (crypto.canonicalJSON r) = some (parsed r)) :
    (issued pubKey action signedBy (scope :: scopes) w.shared.lastIssuedAt events).map (fun r => r.scope) =
        scope :: scopes ∧
      w'.shared.snapshot = w'.shared.computeEffective ∧
      ∀ r, w'.shared.Absorbed r ↔
        w.shared.Absorbed r ∨ r ∈ issued pubKey action signedBy (scope :: scopes) w.shared.lastIssuedAt events := by
  induction scopes generalizing scope w events with
  | nil =>
      obtain ⟨bytes, now, rest, w₁, rfl, hshared, hi₁, h₁⟩ := run_gettingKey hi h hdone
      obtain ⟨signature, rest, hverified, w₂, rfl, horSet, -, hlast, -⟩ := run_signing hi₁ h₁ hdone
      obtain ⟨rfl, hsnapshot⟩ := hlast rfl
      rw [issued] at hjson ⊢
      refine ⟨rfl, hsnapshot, fun r => ?_⟩
      rw [hshared] at horSet
      rw [absorbed_add htombs horSet, record_of_parsed (hjson _ List.mem_cons_self), List.mem_cons]
      simp [issued]
  | cons scope' scopes ih =>
      obtain ⟨bytes, now, rest, w₁, rfl, hshared, hi₁, h₁⟩ := run_gettingKey hi h hdone
      obtain ⟨signature, rest, hverified, w₂, rfl, horSet, hissued, -, hmore⟩ := run_signing hi₁ h₁ hdone
      obtain ⟨hi₂, h₂⟩ := hmore scope' scopes rfl
      rw [issued] at hjson ⊢
      rw [hshared] at horSet hissued
      have htombs₂ : w₂.shared.orSet.tombstones = JsSet.empty := by
        rw [horSet, ORSet.tombstones_add, htombs]
      have hrest := ih hi₂ htombs₂ h₂ (by
        rw [hissued]
        exact fun r hr => hjson r (List.mem_cons_of_mem _ hr))
      rw [hissued] at hrest
      refine ⟨?_, hrest.2.1, fun r => ?_⟩
      · rw [List.map_cons, hrest.1]
      · rw [hrest.2.2 r, absorbed_add htombs horSet, record_of_parsed (hjson _ List.mem_cons_self), List.mem_cons,
          or_assoc]

def signerOf (localPodId : JsString) (signedByPodId : Option JsString) : JsString :=
  (signedByPodId.filter (· ≠ [])).getD localPodId

theorem run_mutate {pubKey : JsString} {actions : List JsString} {action : GrantAction}
    {signedByPodId : Option JsString} (h : (machine crypto resource localPodId).run (fun _ _ => True) w
      (.start (.mutate pubKey actions action signedByPodId) :: events.map (.resume w.tasks.length)) = some w')
    (hdone : w'.tasks[w.tasks.length]? = some (.returned .done)) :
    signerOf localPodId signedByPodId ∈ w.shared.snapshot.admins ∧
      ∃ capAction rest w₁, actions = capAction :: rest ∧ w₁.shared = w.shared ∧
        w₁.tasks[w.tasks.length]? = some (.waiting (.gettingKey ⟨pubKey, scopeFor resource capAction, action,
          signerOf localPodId signedByPodId, rest.map (scopeFor resource)⟩)) ∧
        (machine crypto resource localPodId).run (fun _ _ => True) w₁ (events.map (.resume w.tasks.length)) =
          some w' := by
  obtain ⟨w₁, hstep, hrest⟩ := run_cons h
  obtain ⟨r, hr, hw₁⟩ := Program.step_start hstep
  have htask : w₁.tasks[w.tasks.length]? = some r.2 := by
    rw [hw₁]
    exact List.getElem?_concat_length
  have hwaits : ∀ result, r.2 ≠ .returned result ∨ result = .done := by
    intro result
    refine or_iff_not_imp_left.mpr fun hreturned => ?_
    rw [not_not.mp hreturned] at htask
    rw [run_returned htask hrest, htask] at hdone
    exact Task.returned.inj (Option.some.inj hdone)
  cases actions with
  | nil =>
      simp only [calls, startCall, Option.some.injEq] at hr
      split_ifs at hr
      · obtain rfl := hr
        cases (hwaits _).resolve_left fun hne => hne rfl
      · obtain rfl := hr
        cases (hwaits _).resolve_left fun hne => hne rfl
  | cons capAction rest =>
      simp only [calls, startCall, Option.some.injEq] at hr
      split_ifs at hr with hpubKey hadmin
      · obtain rfl := hr
        cases (hwaits _).resolve_left fun hne => hne rfl
      · obtain rfl := hr
        exact ⟨hadmin, capAction, rest, w₁, rfl, by rw [hw₁], htask, hrest⟩
      · obtain rfl := hr
        cases (hwaits _).resolve_left fun hne => hne rfl

end run

/-! ### Effects -/

/-- What a call with the new records has brought about. -/
structure Effects (g g' : GrantLog crypto resource) (pubKey : JsString) (actions : List JsString)
    (action : GrantAction) (new : List GrantRecord) : Prop where
  /-- One record for each scope is added, and nothing else. -/
  signed : new.map (fun r => r.scope) = actions.map (scopeFor resource)
  held : ∀ r, g'.Absorbed r ↔ g.Absorbed r ∨ r ∈ new
  /-- The last effective record about a pod and a scope decides. -/
  last : ∀ podId scope, g'.Lists podId scope ↔
    podId ≠ protoKey ∧ ∃ r, g'.Stands r ∧ On podId scope r ∧ r.action = .grant
  /-- No other pod and no other scope is touched. -/
  elsewhere : KeepsAdmins resource g.grants (new.map GrantRecord.toSignedGrant) →
    ∀ podId scope, ¬ (podId = pubKey ∧ scope ∈ actions.map (scopeFor resource)) →
      (g'.Lists podId scope ↔ g.Lists podId scope)
  /-- A scope is as the call wants it exactly if it was or a new record stands. -/
  named : KeepsAdmins resource g.grants (new.map GrantRecord.toSignedGrant) → pubKey ≠ protoKey →
    ∀ scope ∈ actions.map (scopeFor resource), ((g'.Lists pubKey scope ↔ action = .grant) ↔
      (g.Lists pubKey scope ↔ action = .grant) ∨ ∃ r ∈ new, r.scope = scope ∧ g'.Stands r.toSignedGrant)
  /-- So it is if no record held before sorts after a new one. -/
  later : ADMIN_ACTION ∉ actions → (∀ r ∈ new, ∀ x ∈ g.grants, byRank sortKey x r.toSignedGrant) →
    pubKey ≠ protoKey → ∀ scope ∈ actions.map (scopeFor resource), (g'.Lists pubKey scope ↔ action = .grant)

section effects
variable {g g' : GrantLog crypto resource} {pubKey : JsString} {actions : List JsString} {action : GrantAction}
  {new : List GrantRecord}

theorem grants_of_held (hheld : ∀ r, g'.Absorbed r ↔ g.Absorbed r ∨ r ∈ new) (r : SignedGrant) :
    r ∈ g'.grants ↔ r ∈ g.grants ∨ r ∈ new.map GrantRecord.toSignedGrant := by
  rw [mem_grants_iff, mem_grants_iff, List.mem_map]
  constructor
  · rintro ⟨record, hrecord, rfl⟩
    exact ((hheld record).mp hrecord).imp (fun hold => ⟨record, hold, rfl⟩) fun hnew => ⟨record, hnew, rfl⟩
  · rintro (⟨record, hrecord, rfl⟩ | ⟨record, hrecord, rfl⟩)
    · exact ⟨record, (hheld record).mpr (Or.inl hrecord), rfl⟩
    · exact ⟨record, (hheld record).mpr (Or.inr hrecord), rfl⟩

theorem stands_iff (hheld : ∀ r, g'.Absorbed r ↔ g.Absorbed r ∨ r ∈ new)
    (hkeeps : KeepsAdmins resource g.grants (new.map GrantRecord.toSignedGrant)) {podId scope : JsString}
    (hother : ∀ r ∈ new, ¬ On podId scope r.toSignedGrant) {r : SignedGrant} (hon : On podId scope r) :
    g'.Stands r ↔ g.Stands r := by
  have heffective : ∀ x, On podId scope x → (g'.EffectiveRecord x ↔ g.EffectiveRecord x) := by
    intro x hx
    constructor
    · intro h
      rcases (grants_of_held hheld x).mp h.1 with hold | hnew
      · exact (effectiveRecord_iff (grants_of_held hheld) hkeeps hold).mp h
      · obtain ⟨record, hrecord, rfl⟩ := List.mem_map.mp hnew
        exact absurd hx (hother record hrecord)
    · exact fun h => (effectiveRecord_iff (grants_of_held hheld) hkeeps h.1).mpr h
  rw [Stands, Stands, heffective r hon]
  refine and_congr_right fun _ => forall_congr' fun x => ?_
  constructor
  · exact fun h hx honx => h ((heffective x ⟨honx.1.trans hon.1, honx.2.trans hon.2⟩).mpr hx) honx
  · exact fun h hx honx => h ((heffective x ⟨honx.1.trans hon.1, honx.2.trans hon.2⟩).mp hx) honx

theorem Stands.unique {r r' : SignedGrant} (h : g.Stands r) (h' : g.Stands r') (hon : On r.pubKey r.scope r') :
    r' = r :=
  g.verified_grants.decisive r' h'.1.1 r h.1.1 (h.2 r' h'.1 hon) (h'.2 r h.1 ⟨hon.1.symm, hon.2.symm⟩)

theorem Stands.lists_iff (hg : g.snapshot = g.computeEffective) {r : SignedGrant} (h : g.Stands r)
    (hproto : r.pubKey ≠ protoKey) : g.Lists r.pubKey r.scope ↔ r.action = .grant := by
  rw [GrantLog.lists_iff hg]
  constructor
  · rintro ⟨-, r', h', hon, haction⟩
    rwa [h.unique h' hon] at haction
  · exact fun haction => ⟨hproto, r, h, ⟨rfl, rfl⟩, haction⟩

theorem exists_stands {podId scope : JsString} {x : SignedGrant} (h : g.EffectiveRecord x) (hon : On podId scope x) :
    ∃ r, g.Stands r ∧ On podId scope r := by
  have hfinite : {r | g.EffectiveRecord r ∧ On podId scope r}.Finite :=
    (List.finite_toSet g.grants).subset fun r hr => hr.1.1
  obtain ⟨r, ⟨hr, honr⟩, hlast⟩ := Set.exists_max_image _ sortKey hfinite ⟨x, h, hon⟩
  exact ⟨r, ⟨hr, fun r' hr' hon' => hlast r' ⟨hr', hon'.1.trans honr.1, hon'.2.trans honr.2⟩⟩, honr⟩

theorem named_iff (hg : g.snapshot = g.computeEffective) (hg' : g'.snapshot = g'.computeEffective)
    (hheld : ∀ r, g'.Absorbed r ↔ g.Absorbed r ∨ r ∈ new)
    (hfields : ∀ r ∈ new, r.pubKey = pubKey ∧ r.action = action)
    (hkeeps : KeepsAdmins resource g.grants (new.map GrantRecord.toSignedGrant)) (hproto : pubKey ≠ protoKey)
    (scope : JsString) :
    (g'.Lists pubKey scope ↔ action = .grant) ↔
      (g.Lists pubKey scope ↔ action = .grant) ∨ ∃ r ∈ new, r.scope = scope ∧ g'.Stands r.toSignedGrant := by
  by_cases hnew : ∃ r ∈ new, r.scope = scope ∧ g'.Stands r.toSignedGrant
  · obtain ⟨r, hr, rfl, hstands⟩ := hnew
    obtain ⟨rfl, rfl⟩ := hfields r hr
    exact iff_of_true (hstands.lists_iff hg' hproto) (Or.inr ⟨r, hr, rfl, hstands⟩)
  · -- no new record stands: whichever does stood before
    have hstood : ∀ r, On pubKey scope r → g'.Stands r → g.Stands r := by
      intro r hon hstands
      rcases (grants_of_held hheld r).mp hstands.1.1 with hold | hadded
      · refine ⟨(effectiveRecord_iff (grants_of_held hheld) hkeeps hold).mp hstands.1, fun x hx honx => ?_⟩
        exact hstands.2 x ((effectiveRecord_iff (grants_of_held hheld) hkeeps hx.1).mpr hx) honx
      · obtain ⟨record, hrecord, rfl⟩ := List.mem_map.mp hadded
        exact absurd ⟨record, hrecord, hon.2, hstands⟩ hnew
    have hsame : g'.Lists pubKey scope ↔ g.Lists pubKey scope := by
      rw [lists_iff hg, lists_iff hg']
      refine and_congr_right fun _ => exists_congr fun r => ?_
      constructor
      · exact fun ⟨hstands, hon, haction⟩ => ⟨hstood r hon hstands, hon, haction⟩
      · rintro ⟨hstands, hon, haction⟩
        obtain ⟨r', hstands', hon'⟩ :=
          exists_stands ((effectiveRecord_iff (grants_of_held hheld) hkeeps hstands.1.1).mpr hstands.1) hon
        obtain rfl : r' = r :=
          hstands.unique (hstood r' hon' hstands') ⟨hon'.1.trans hon.1.symm, hon'.2.trans hon.2.symm⟩
        exact ⟨hstands', hon, haction⟩
    rw [hsame]
    exact (or_iff_left hnew).symm

theorem effectiveRecord_of_later (hg : g.snapshot = g.computeEffective)
    (hheld : ∀ r, g'.Absorbed r ↔ g.Absorbed r ∨ r ∈ new)
    (hscope : ∀ r ∈ new, r.scope ≠ scopeFor resource ADMIN_ACTION)
    (hlater : ∀ r ∈ new, ∀ x ∈ g.grants, byRank sortKey x r.toSignedGrant) {r : GrantRecord} (hr : r ∈ new)
    (hsigner : r.signedBy ∈ g.snapshot.admins) : g'.EffectiveRecord r.toSignedGrant := by
  have hmem : r.toSignedGrant ∈ g'.grants := (grants_of_held hheld _).mpr (Or.inr (List.mem_map_of_mem hr))
  have hnew : ∀ x ∈ g'.grants, x ∉ g.grants → x.scope ≠ scopeFor resource ADMIN_ACTION := by
    intro x hx hnot
    rcases (grants_of_held hheld x).mp hx with hold | hadded
    · exact absurd hold hnot
    · obtain ⟨record, hrecord, rfl⟩ := List.mem_map.mp hadded
      exact hscope record hrecord
  have hbefore : (replayedBefore resource g'.grants r.toSignedGrant).adminSet =
      (Replay.replay (Replayed.apply (scopeFor resource ADMIN_ACTION)) (byRank sortKey) Replayed.init
        g'.grants).adminSet := by
    refine (adminSet_replay_of_scope_ne (fun _ hx => hx) (fun x hx => (Replay.mem_before.mp hx).1)
      fun x hx hnot => ?_).symm
    by_cases hold : x ∈ g.grants
    · -- it sorts before the new record and not strictly: it is the new record
      have hge : byRank sortKey r.toSignedGrant x :=
        not_not.mp fun hlt => hnot (Replay.mem_before.mpr ⟨hx, hlt⟩)
      rw [← g'.verified_grants.decisive _ hmem x hx hge (hlater r hr x hold)]
      exact hscope r hr
    · exact hnew x hx hold
  have hadmins : (replayedBefore resource g'.grants r.toSignedGrant).adminSet = g.snapshot.admins := by
    rw [hbefore, hg, computeEffective_eq_replay]
    exact adminSet_replay_of_scope_ne (fun _ hx => hx) (fun x hx => (grants_of_held hheld x).mpr (Or.inl hx)) hnew
  refine ⟨hmem, ?_⟩
  rw [Replayed.authorized, hadmins, JsSet.has_iff.mpr hsigner, Bool.or_true]

theorem later_lists (hg : g.snapshot = g.computeEffective) (hg' : g'.snapshot = g'.computeEffective)
    (hheld : ∀ r, g'.Absorbed r ↔ g.Absorbed r ∨ r ∈ new)
    (hfields : ∀ r ∈ new, r.pubKey = pubKey ∧ r.action = action)
    (hsigner : ∀ r ∈ new, r.signedBy ∈ g.snapshot.admins)
    (hscope : ∀ r ∈ new, r.scope ≠ scopeFor resource ADMIN_ACTION)
    (hlater : ∀ r ∈ new, ∀ x ∈ g.grants, byRank sortKey x r.toSignedGrant) (hproto : pubKey ≠ protoKey)
    {scope : JsString} (hmem : ∃ r ∈ new, r.scope = scope) : g'.Lists pubKey scope ↔ action = .grant := by
  have hfinite : {r | r ∈ new ∧ r.scope = scope}.Finite := (List.finite_toSet new).subset fun r hr => hr.1
  obtain ⟨r, ⟨hr, rfl⟩, hlast⟩ :=
    Set.exists_max_image _ (fun r : GrantRecord => sortKey r.toSignedGrant) hfinite hmem
  obtain ⟨rfl, rfl⟩ := hfields r hr
  have hstands : g'.Stands r.toSignedGrant := by
    refine ⟨effectiveRecord_of_later hg hheld hscope hlater hr (hsigner r hr), fun x hx hon => ?_⟩
    rcases (grants_of_held hheld x).mp hx.1 with hold | hadded
    · exact hlater r hr x hold
    · obtain ⟨record, hrecord, rfl⟩ := List.mem_map.mp hadded
      exact hlast record ⟨hrecord, hon.2⟩
  exact hstands.lists_iff hg' hproto

theorem effects_of_held (hg : g.snapshot = g.computeEffective) (hg' : g'.snapshot = g'.computeEffective)
    (hsigned : new.map (fun r => r.scope) = actions.map (scopeFor resource))
    (hheld : ∀ r, g'.Absorbed r ↔ g.Absorbed r ∨ r ∈ new)
    (hfields : ∀ r ∈ new, r.pubKey = pubKey ∧ r.action = action ∧ r.signedBy ∈ g.snapshot.admins) :
    Effects g g' pubKey actions action new := by
  have hpubKey : ∀ r ∈ new, r.pubKey = pubKey ∧ r.action = action :=
    fun r hr => ⟨(hfields r hr).1, (hfields r hr).2.1⟩
  have hscopes : ∀ r ∈ new, r.scope ∈ actions.map (scopeFor resource) := by
    intro r hr
    rw [← hsigned]
    exact List.mem_map_of_mem hr
  refine ⟨hsigned, hheld, fun podId scope => lists_iff hg' podId scope, ?_, ?_, ?_⟩
  · intro hkeeps podId scope hother
    have hnot : ∀ r ∈ new, ¬ On podId scope r.toSignedGrant := by
      intro r hr hon
      refine hother ⟨hon.1.symm.trans (hpubKey r hr).1, ?_⟩
      rw [← hon.2]
      exact hscopes r hr
    rw [lists_iff hg, lists_iff hg']
    refine and_congr_right fun _ => exists_congr fun r => ?_
    constructor
    · exact fun ⟨hstands, hon, haction⟩ => ⟨(stands_iff hheld hkeeps hnot hon).mp hstands, hon, haction⟩
    · exact fun ⟨hstands, hon, haction⟩ => ⟨(stands_iff hheld hkeeps hnot hon).mpr hstands, hon, haction⟩
  · exact fun hkeeps hproto scope _ => named_iff hg hg' hheld hpubKey hkeeps hproto scope
  · intro hnoAdmin hlater hproto scope hscope
    have hothers : ∀ r ∈ new, r.scope ≠ scopeFor resource ADMIN_ACTION := by
      intro r hr heq
      obtain ⟨a, ha, hsame⟩ := List.mem_map.mp (heq ▸ hscopes r hr)
      rw [scopeFor, scopeFor, List.append_cancel_left_eq, List.cons.injEq] at hsame
      exact hnoAdmin (hsame.2 ▸ ha)
    rw [← hsigned] at hscope
    exact later_lists hg hg' hheld hpubKey (fun r hr => (hfields r hr).2.2) hothers hlater hproto
      (List.mem_map.mp hscope)

end effects

/-- What a `grant` or `revoke` that nothing interrupts does to a log that is replayed. -/
theorem grants_take_effect (crypto : GrantCrypto) (resource localPodId : JsString) (w w' : GrantWorld crypto resource)
    (h : (machine crypto resource localPodId).Reach (fun _ _ => True) w)
    (hg : w.shared.snapshot = w.shared.computeEffective) (pubKey : JsString) (actions : List JsString)
    (action : GrantAction) (signedByPodId : Option JsString) (events : List GrantEvent)
    (hrun : (machine crypto resource localPodId).run (fun _ _ => True) w
      (.start (.mutate pubKey actions action signedByPodId) :: events.map (.resume w.tasks.length)) = some w')
    (hdone : w'.tasks[w.tasks.length]? = some (.returned .done))
    (hjson : ∀ r ∈ issued pubKey action (signerOf localPodId signedByPodId) (actions.map (scopeFor resource))
      w.shared.lastIssuedAt events, crypto.parse (crypto.canonicalJSON r) = some (parsed r)) :
    Effects w.shared w'.shared pubKey actions action
      (issued pubKey action (signerOf localPodId signedByPodId) (actions.map (scopeFor resource))
        w.shared.lastIssuedAt events) := by
  obtain ⟨hadmin, capAction, rest, w₁, rfl, hshared, hi, h₁⟩ := run_mutate hrun hdone
  have htombs := tombstones_of_reach h
  rw [← hshared] at htombs hg hadmin hjson ⊢
  obtain ⟨hsigned, hg', hheld⟩ := run_issues hi htombs h₁ hdone hjson
  refine effects_of_held hg hg' hsigned hheld fun r hr => ?_
  obtain ⟨hpubKey, haction, hsigner⟩ := issued_fields hr
  refine ⟨hpubKey, haction, ?_⟩
  rw [hsigner]
  exact hadmin

/-! ### Two admins -/

theorem returned_of_result? {t : Option (Task (GrantFrame crypto resource) GrantResult)} {result : GrantResult}
    (h : t.bind Task.result? = some result) : t = some (.returned result) := by
  cases t with
  | none => cases h
  | some t =>
      cases t with
      | waiting frame => cases h
      | returned result' => exact congrArg (fun r => some (Task.returned r)) (Option.some.inj h)

/-- `A` lets `B` read. -/
theorem grants_take_effect_read :
    ∃ w w' : GrantWorld (tableCrypto [bootstrapA, readB]) (js "s3:b"),
      ¬ w.shared.Lists (js "B") (js "s3:b:read") ∧
        Effects w.shared w'.shared (js "B") [js "read"] .grant [readB] := by
  obtain ⟨w, -, hw, hissued, hbefore, hafter⟩ := Machine.exists_of_run
    (P := fun w : GrantWorld (tableCrypto [bootstrapA, readB]) (js "s3:b") =>
      issued (js "B") .grant (signerOf (js "A") none) ([js "read"].map (scopeFor (js "s3:b"))) w.shared.lastIssuedAt
          [.publicKey (js "A") (.ofNat 11), .signed (js "s2")] = [readB] ∧
        ¬ w.shared.Lists (js "B") (js "s3:b:read") ∧
        ((machine _ _ (js "A")).run (fun _ _ => True) w
          (.start (.mutate (js "B") [js "read"] .grant none) ::
            [GrantEvent.publicKey (js "A") (.ofNat 11), .signed (js "s2")].map (.resume w.tasks.length))).any
          (fun w' => decide ((w'.tasks[w.tasks.length]?).bind Task.result? = some .done)) = true)
    (show ((machine _ _ (js "A")).run ReplaysAdded (machine _ _ (js "A")).init
      ((issueRun [js "read"]).take 3)).any _ = true by decide +kernel)
  obtain ⟨w', hrun, hdone⟩ := (Option.any_eq_true _ _).mp hafter
  refine ⟨w, w', hbefore, ?_⟩
  have heffects := grants_take_effect _ _ _ w w' (hw.mono fun _ _ _ => trivial) (inSync_of_reach hw).snapshot _ _ _ _ _
    hrun (returned_of_result? (of_decide_eq_true hdone)) (by
      rw [hissued]
      intro r hr
      obtain rfl := List.mem_singleton.mp hr
      rfl)
  rwa [hissued] at heffects

/-- `C`, whom `A` has made admin, has let `B` read by a clock that is ahead. -/
def adminC : GrantRecord := ⟨⟨⟨js "C", js "s3:b:admin", .grant, .ofNat 11, js "A"⟩, js "s2"⟩, js "A"⟩

def readByC : GrantRecord := ⟨⟨⟨js "B", js "s3:b:read", .grant, .ofNat 100, js "C"⟩, js "s3"⟩, js "C"⟩

def unreadByA : GrantRecord := ⟨⟨⟨js "B", js "s3:b:read", .revoke, .ofNat 12, js "A"⟩, js "s4"⟩, js "A"⟩

/-- The calls on the log of `A` before it revokes. -/
def adminsRun : List (Action GrantCall GrantEvent) :=
  [.start (.bootstrapAdmin none), .resume 0 (.publicKey (js "A") (.ofNat 10)), .resume 0 (.signed (js "s1")),
    .start (.mutate (js "C") [js "admin"] .grant none), .resume 1 (.publicKey (js "A") (.ofNat 11)),
    .resume 1 (.signed (js "s2")), .start (.mergeRemote (some [some ⟨js "s3", [some (js "t")]⟩])),
    .resume 2 (.verified true)]

/-- `A` revokes what `C` has granted; the call returns and `B` is still listed. -/
theorem revoke_overruled :
    ¬ ∀ (crypto : GrantCrypto) (resource localPodId : JsString) (w w' : GrantWorld crypto resource),
      (machine crypto resource localPodId).Reach (fun _ _ => True) w →
      ∀ (pubKey : JsString) (actions : List JsString) (action : GrantAction) (signedByPodId : Option JsString)
        (events : List GrantEvent),
      (machine crypto resource localPodId).run (fun _ _ => True) w
        (.start (.mutate pubKey actions action signedByPodId) :: events.map (.resume w.tasks.length)) = some w' →
      w'.tasks[w.tasks.length]? = some (.returned .done) →
      (∀ r ∈ issued pubKey action (signerOf localPodId signedByPodId) (actions.map (scopeFor resource))
        w.shared.lastIssuedAt events, crypto.parse (crypto.canonicalJSON r) = some (parsed r)) →
      (∀ scope ∈ actions.map (scopeFor resource), (w'.shared.Lists pubKey scope ↔ action = .grant)) ∧
        ∀ podId scope, ¬ (podId = pubKey ∧ scope ∈ actions.map (scopeFor resource)) →
          (w'.shared.Lists podId scope ↔ w.shared.Lists podId scope) := by
  intro h
  obtain ⟨w, -, hw, hissued, hafter⟩ := Machine.exists_of_run
    (P := fun w : GrantWorld (tableCrypto [bootstrapA, adminC, readByC, unreadByA]) (js "s3:b") =>
      issued (js "B") .revoke (signerOf (js "A") none) ([js "read"].map (scopeFor (js "s3:b"))) w.shared.lastIssuedAt
          [.publicKey (js "A") (.ofNat 12), .signed (js "s4")] = [unreadByA] ∧
        ((machine _ _ (js "A")).run (fun _ _ => True) w
          (.start (.mutate (js "B") [js "read"] .revoke none) ::
            [GrantEvent.publicKey (js "A") (.ofNat 12), .signed (js "s4")].map (.resume w.tasks.length))).any
          (fun w' => decide ((w'.tasks[w.tasks.length]?).bind Task.result? = some .done ∧
            w'.shared.Lists (js "B") (js "s3:b:read"))) = true)
    (show ((machine _ _ (js "A")).run (fun _ _ => True) (machine _ _ (js "A")).init adminsRun).any _ = true by
      decide +kernel)
  obtain ⟨w', hrun, hdone⟩ := (Option.any_eq_true _ _).mp hafter
  obtain ⟨hdone, hlists⟩ := of_decide_eq_true hdone
  have heffects := h _ _ _ w w' hw _ _ _ _ _ hrun (returned_of_result? hdone) (by
    rw [hissued]
    intro r hr
    obtain rfl := List.mem_singleton.mp hr
    rfl)
  have hrevoked := (heffects.1 (js "s3:b:read") (by decide)).mp hlists
  cases hrevoked

end GrantLog
end BrowserMesh.Apps
