import BrowserMesh.Core.MeshAcl

/-! # Role changes

`MeshACL` with its entries in full and the grants that go with them.  `updateEntry` revokes the grants of an identity
and deletes its entry before it looks the template up, and adds the entry again without options.  So an unknown
template leaves the identity without an entry, and a known one drops the expiry, the label and the quotas
(`role_change_iff`). -/

namespace BrowserMesh.Core
open Js Primitives

def mapValues {κ ν μ : Type} (f : ν → μ) (m : JsMap κ ν) : JsMap κ μ :=
  ⟨m.entries.map fun e => (e.1, f e.2), by
    rw [List.map_map]
    exact m.nodup⟩

/-- A roster entry with labels `L` and quotas `Q`. -/
structure RoleEntry (L Q : Type) extends RosterEntry where
  label : Option L
  quotas : Option Q
  created : JsNumber
  deriving DecidableEq

/-- `opts` of `addEntry`. -/
structure EntryOptions (L Q : Type) where
  label : Option L := none
  quotas : Option Q := none
  expires : Option JsNumber := none

/-- The roster with its full entries, and the grants of the engine by their ids. -/
structure RoleACL (L Q : Type) where
  owner : JsString
  templates : JsMap JsString (List JsString)
  roster : JsMap JsString (RoleEntry L Q)
  grants : JsMap JsString AccessGrant
  deriving DecidableEq

namespace RoleACL
variable {L Q : Type}

/-- The list without what `check` does not read. -/
def toMeshACL (acl : RoleACL L Q) : MeshACL where
  owner := acl.owner
  templates := acl.templates
  roster := mapValues RoleEntry.toRosterEntry acl.roster

/-- `ACLEngine.revokeAll`. -/
def revokeGrants (acl : RoleACL L Q) (grantee : JsString) (timestamp : JsNumber) : RoleACL L Q :=
  let revoke (grant : AccessGrant) : AccessGrant :=
    if grant.grantee = grantee ∧ !truthy grant.revoked then { grant with revoked := some timestamp } else grant
  { acl with grants := mapValues revoke acl.grants }

def permissionOf (scope : JsString) : Permission :=
  ⟨(scope.splitOn colon).headD [], [partOrStar (scope.splitOn colon)[1]?]⟩

/-- `_syncGrant`; the id of the grant is new. -/
def syncGrant (acl : RoleACL L Q) (identity : JsString) (scopes : List JsString) (entry : RoleEntry L Q)
    (grantId : JsString) (now : JsNumber) : RoleACL L Q :=
  let grant : AccessGrant :=
    { id := grantId
      grantee := identity
      grantor := acl.owner
      permissions := scopes.map permissionOf
      conditions := ⟨if truthy entry.expires then entry.expires else none, none, none⟩
      created := now
      revoked := none
      usageCount := 0 }
  { acl with grants := acl.grants.set grantId grant }

def addEntry (acl : RoleACL L Q) (identity templateName : JsString) (opts : EntryOptions L Q) (grantId : JsString)
    (now : JsNumber) : RoleACL L Q × Except UnknownTemplate (RoleEntry L Q) :=
  match acl.templates.get? templateName with
  | none => (acl, .error ⟨templateName⟩)
  | some scopes =>
      let entry : RoleEntry L Q := ⟨⟨templateName, opts.expires⟩, opts.label, opts.quotas, now⟩
      let acl := { acl with roster := acl.roster.set identity entry }
      (acl.syncGrant identity scopes entry grantId now, .ok entry)

/-- `updateEntry`; `none` is `null`. -/
def updateEntry (acl : RoleACL L Q) (identity templateName grantId : JsString) (now : JsNumber) :
    RoleACL L Q × Except UnknownTemplate (Option (RoleEntry L Q)) :=
  if !acl.roster.has identity then (acl, .ok none)
  else
    let acl := acl.revokeGrants identity now
    let acl := { acl with roster := acl.roster.delete identity }
    let (acl, result) := acl.addEntry identity templateName {} grantId now
    (acl, result.map some)

def check (acl : RoleACL L Q) (now : JsNumber) (identity resource action : JsString) : Except AclDenial Unit :=
  acl.toMeshACL.check now identity resource action

/-- The call changes nothing and throws, or finds no entry to change; or the entry has the new template, with the
expiry, the label and the quotas it had, and is as expired as it was. -/
def Changed (before : RoleACL L Q) (identity templateName : JsString)
    (r : RoleACL L Q × Except UnknownTemplate (Option (RoleEntry L Q))) : Prop :=
  (r.1 = before ∧ (r.2 = .error ⟨templateName⟩ ∨ r.2 = .ok none ∧ before.roster.get? identity = none)) ∨
    ∃ old entry, before.roster.get? identity = some old ∧ r.2 = .ok (some entry) ∧
      r.1.roster.get? identity = some entry ∧ entry.templateName = templateName ∧
      entry.expires = old.expires ∧ entry.label = old.label ∧ entry.quotas = old.quotas ∧
      ∀ t, old.isExpired t = true → identity ≠ before.owner →
        ∀ resource action, r.1.check t identity resource action ≠ .ok ()

variable {acl : RoleACL L Q} {identity templateName grantId : JsString} {now : JsNumber}

theorem updateEntry_of_none (h : acl.roster.get? identity = none) :
    acl.updateEntry identity templateName grantId now = (acl, .ok none) := by
  rw [updateEntry, JsMap.has, h]
  rfl

variable (grantId now) in
theorem updateEntry_of_unknown {old : RoleEntry L Q} (h : acl.roster.get? identity = some old)
    (hunknown : acl.templates.get? templateName = none) :
    ∃ after, acl.updateEntry identity templateName grantId now = (after, .error ⟨templateName⟩) ∧
      after.roster.get? identity = none := by
  refine ⟨{ acl.revokeGrants identity now with roster := acl.roster.delete identity }, ?_, ?_⟩
  · rw [updateEntry, JsMap.has, h]
    simp only [Option.isSome_some, Bool.not_true, Bool.false_eq_true, if_false, addEntry, revokeGrants, hunknown]
    rfl
  · show (acl.roster.delete identity).get? identity = none
    rw [JsMap.get?_delete, if_pos rfl]

variable (grantId now) in
theorem updateEntry_of_known {old : RoleEntry L Q} {scopes : List JsString} (h : acl.roster.get? identity = some old)
    (hknown : acl.templates.get? templateName = some scopes) :
    (acl.updateEntry identity templateName grantId now).2 = .ok (some ⟨⟨templateName, none⟩, none, none, now⟩) ∧
      (acl.updateEntry identity templateName grantId now).1.roster.get? identity =
        some ⟨⟨templateName, none⟩, none, none, now⟩ ∧
      (acl.updateEntry identity templateName grantId now).1.owner = acl.owner := by
  rw [updateEntry, JsMap.has, h]
  simp only [Option.isSome_some, Bool.not_true, Bool.false_eq_true, if_false, addEntry, revokeGrants, hknown]
  refine ⟨rfl, ?_, rfl⟩
  exact (JsMap.get?_set _ _ _ _).trans (if_pos rfl)

/-- A role change is atomic and keeps what the entry had, exactly if there is no entry, or the template is known and the
entry has neither an expiry nor a label nor quotas. -/
theorem role_change_iff (acl : RoleACL L Q) (identity templateName grantId : JsString) (now : JsNumber) :
    acl.Changed identity templateName (acl.updateEntry identity templateName grantId now) ↔
      ∀ old, acl.roster.get? identity = some old →
        acl.templates.has templateName = true ∧ old.expires = none ∧ old.label = none ∧ old.quotas = none := by
  cases hold : acl.roster.get? identity with
  | none =>
      rw [updateEntry_of_none hold]
      exact iff_of_true (Or.inl ⟨rfl, Or.inr ⟨rfl, hold⟩⟩) fun old h => by cases h
  | some old =>
      cases htemplate : acl.templates.get? templateName with
      | none =>
          obtain ⟨after, hupdate, hgone⟩ :=
            updateEntry_of_unknown grantId now hold htemplate
          rw [hupdate]
          refine iff_of_false ?_ fun h => ?_
          · rintro (⟨heq, _⟩ | ⟨_, entry, _, herror, _⟩)
            · rw [← heq, hgone] at hold
              cases hold
            · cases herror
          · have hhas := (h old rfl).1
            rw [JsMap.has, htemplate] at hhas
            cases hhas
      | some scopes =>
          obtain ⟨hresult, hentry, howner⟩ := updateEntry_of_known grantId now hold htemplate
          constructor
          · rintro (⟨_, herror | ⟨hnull, _⟩⟩ | ⟨old', entry, hold', hok, _, _, hexpires, hlabel, hquotas, _⟩)
            · rw [hresult] at herror
              cases herror
            · rw [hresult] at hnull
              cases hnull
            · intro old'' h
              obtain rfl := Option.some.inj h
              obtain rfl := Option.some.inj (hold.symm.trans hold')
              obtain rfl := Option.some.inj (Except.ok.inj (hresult.symm.trans hok))
              exact ⟨Option.isSome_of_mem htemplate, hexpires.symm, hlabel.symm, hquotas.symm⟩
          · intro h
            obtain ⟨_, hexpires, hlabel, hquotas⟩ := h old rfl
            refine Or.inr ⟨old, _, hold, hresult, hentry, rfl, hexpires.symm, hlabel.symm, hquotas.symm, ?_⟩
            intro t ht
            rw [RosterEntry.isExpired, hexpires] at ht
            cases ht

def guestUntilTen : RoleACL ℕ ℕ :=
  (RoleACL.addEntry ⟨js "alice", DEFAULT_TEMPLATES, .empty, .empty⟩ (js "bob") (js "guest")
    { expires := some (.ofNat 10) } (js "g1") 0).1

def promoted (templateName : JsString) : RoleACL ℕ ℕ × Except UnknownTemplate (Option (RoleEntry ℕ ℕ)) :=
  guestUntilTen.updateEntry (js "bob") templateName (js "g2") (.ofNat 5)

/-- With a known role Bob is still allowed at the instant 20, with an unknown one he is refused what he was allowed. -/
theorem role_change_loses :
    guestUntilTen.check (.ofNat 20) (js "bob") (js "chat") (js "read") = .error .entryExpired ∧
    (promoted (js "admin")).1.check (.ofNat 20) (js "bob") (js "chat") (js "read") = .ok () ∧
    guestUntilTen.check (.ofNat 5) (js "bob") (js "chat") (js "read") = .ok () ∧
    (promoted (js "boss")).2 = .error ⟨js "boss"⟩ ∧
    (promoted (js "boss")).1.check (.ofNat 5) (js "bob") (js "chat") (js "read") = .error .notInRoster ∧
    ¬ ∀ (acl : RoleACL ℕ ℕ) (identity templateName grantId : JsString) (now : JsNumber),
      acl.Changed identity templateName (acl.updateEntry identity templateName grantId now) := by
  refine ⟨by decide +kernel, by decide +kernel, by decide +kernel, by decide +kernel, by decide +kernel, fun h => ?_⟩
  rcases h guestUntilTen (js "bob") (js "boss") (js "g2") (.ofNat 5) with ⟨heq, _⟩ | ⟨_, entry, _, hok, _⟩
  · exact absurd (congrArg (fun acl => acl.roster.has (js "bob")) heq) (by decide +kernel)
  · have herror : (guestUntilTen.updateEntry (js "bob") (js "boss") (js "g2") (.ofNat 5)).2 = .error ⟨js "boss"⟩ := by
      decide +kernel
    rw [herror] at hok
    cases hok

end RoleACL
end BrowserMesh.Core
