import BrowserMesh.Primitives.AccessGrants
import BrowserMesh.Library.Guards

/-! # Templates and roster

* **Templates.**  Named lists of scopes; three of them are there from the start.
* **Roster.**  Every identity has at most one entry, which names a template.  `check` looks the entry up,
  then the template, and asks whether one of its scopes covers what is wanted.  The owner needs no entry. -/

namespace BrowserMesh.Core
open Js Primitives

/-- `DEFAULT_TEMPLATES`. -/
def DEFAULT_TEMPLATES : JsMap JsString (List JsString) :=
  JsMap.ofEntries [(js "guest", [js "chat:read", js "files:read"]),
    (js "collaborator", [js "chat:*", js "files:read", js "files:write", js "compute:submit"]),
    (js "admin", [js "*:*"])]

structure RosterEntry where
  templateName : JsString
  expires : Option JsNumber
  deriving DecidableEq

/-- `isExpired`. -/
def RosterEntry.isExpired (e : RosterEntry) (now : JsNumber) : Bool :=
  e.expires.any fun expires => expires.le now

/-- Templates by name, with their scopes, and roster entries by identity. -/
structure MeshACL where
  owner : JsString
  templates : JsMap JsString (List JsString)
  roster : JsMap JsString RosterEntry
  deriving DecidableEq

inductive AclDenial where
  | notInRoster | entryExpired | templateMissing | scopeDenied
  deriving DecidableEq

/-- "Unknown template". -/
structure UnknownTemplate where
  templateName : JsString
  deriving DecidableEq

namespace MeshACL

/-- The constructor. -/
def new (owner : JsString) : MeshACL := ⟨owner, DEFAULT_TEMPLATES, JsMap.empty⟩

def addTemplate (acl : MeshACL) (name : JsString) (scopes : List JsString) : MeshACL :=
  { acl with templates := acl.templates.set name scopes }

def removeTemplate (acl : MeshACL) (name : JsString) : MeshACL :=
  { acl with templates := acl.templates.delete name }

def getTemplate (acl : MeshACL) (name : JsString) : Option (List JsString) := acl.templates.get? name

def addEntry (acl : MeshACL) (identity templateName : JsString) (expires : Option JsNumber) :
    MeshACL × Except UnknownTemplate Unit :=
  if acl.templates.has templateName then
    ({ acl with roster := acl.roster.set identity ⟨templateName, expires⟩ }, .ok ())
  else (acl, .error ⟨templateName⟩)

def removeEntry (acl : MeshACL) (identity : JsString) : MeshACL :=
  { acl with roster := acl.roster.delete identity }

def getEntry (acl : MeshACL) (identity : JsString) : Option RosterEntry := acl.roster.get? identity

/-- `revokeAll`, without the number of the grants. -/
def revokeAll (acl : MeshACL) (identity : JsString) : MeshACL := acl.removeEntry identity

/-- `${resource}:${action}`. -/
def scopeOf (resource action : JsString) : JsString := resource ++ colon :: action

/-- `ScopeTemplate.matches`. -/
def covers (scopes : List JsString) (scope : JsString) : Bool := scopes.any fun s => matchScope s scope

/-- `check`. -/
def check (acl : MeshACL) (now : JsNumber) (identity resource action : JsString) : Except AclDenial Unit :=
  if identity = acl.owner then .ok ()
  else
    match acl.getEntry identity with
    | none => .error .notInRoster
    | some entry =>
        if entry.isExpired now then .error .entryExpired
        else
          match acl.getTemplate entry.templateName with
          | none => .error .templateMissing
          | some scopes =>
              if covers scopes (scopeOf resource action) then .ok () else .error .scopeDenied

variable {acl : MeshACL} {now : JsNumber} {identity : JsString}

/-- Whoever passes the check is the owner, or has an entry whose template covers the scope. -/
theorem check_eq_ok {resource action : JsString} : acl.check now identity resource action = .ok () ↔
    identity = acl.owner ∨ ∃ entry scopes, acl.getEntry identity = some entry ∧
      entry.isExpired now = false ∧ acl.getTemplate entry.templateName = some scopes ∧
      covers scopes (scopeOf resource action) = true := by
  unfold check
  by_cases howner : identity = acl.owner
  · rw [if_pos howner]
    exact iff_of_true rfl (Or.inl howner)
  · rw [if_neg howner, or_iff_right howner]
    cases hentry : acl.getEntry identity with
    | none => simp
    | some entry =>
        cases hexpired : entry.isExpired now with
        | true => simp [hexpired]
        | false =>
            cases htemplate : acl.getTemplate entry.templateName with
            | none => simp [hexpired, htemplate]
            | some scopes => simp [hexpired, htemplate]

theorem matchScope_self (scope : JsString) : matchScope scope scope = true := by
  simp [matchScope, partMatches]

@[simp] theorem getTemplate_addTemplate (acl : MeshACL) (name name' : JsString) (scopes : List JsString) :
    (acl.addTemplate name scopes).getTemplate name' =
      if name' = name then some scopes else acl.getTemplate name' := JsMap.get?_set _ _ _ _

@[simp] theorem getTemplate_removeTemplate (acl : MeshACL) (name name' : JsString) :
    (acl.removeTemplate name).getTemplate name' = if name' = name then none else acl.getTemplate name' :=
  JsMap.get?_delete _ _ _

@[simp] theorem getEntry_addTemplate (acl : MeshACL) (name identity : JsString) (scopes : List JsString) :
    (acl.addTemplate name scopes).getEntry identity = acl.getEntry identity := rfl

@[simp] theorem getEntry_removeTemplate (acl : MeshACL) (name identity : JsString) :
    (acl.removeTemplate name).getEntry identity = acl.getEntry identity := rfl

@[simp] theorem getTemplate_removeEntry (acl : MeshACL) (identity name : JsString) :
    (acl.removeEntry identity).getTemplate name = acl.getTemplate name := rfl

@[simp] theorem getEntry_removeEntry (acl : MeshACL) (identity identity' : JsString) :
    (acl.removeEntry identity).getEntry identity' =
      if identity' = identity then none else acl.getEntry identity' := JsMap.get?_delete _ _ _

@[simp] theorem getTemplate_addEntry (acl : MeshACL) (identity templateName name : JsString)
    (expires : Option JsNumber) :
    (acl.addEntry identity templateName expires).1.getTemplate name = acl.getTemplate name := by
  unfold addEntry
  split_ifs <;> rfl

theorem getEntry_addEntry (acl : MeshACL) {identity templateName : JsString} {expires : Option JsNumber}
    (h : acl.getTemplate templateName ≠ none) (identity' : JsString) :
    (acl.addEntry identity templateName expires).1.getEntry identity' =
      if identity' = identity then some ⟨templateName, expires⟩ else acl.getEntry identity' := by
  have hhas : acl.templates.has templateName = true := Option.isSome_iff_ne_none.mpr h
  rw [addEntry, if_pos hhas]
  exact JsMap.get?_set _ _ _ _

/-- An entry for a template that is missing is refused. -/
theorem addEntry_of_missing {templateName : JsString} {expires : Option JsNumber}
    (h : acl.getTemplate templateName = none) :
    acl.addEntry identity templateName expires = (acl, .error ⟨templateName⟩) := by
  refine if_neg fun hhas => ?_
  rw [JsMap.has, Option.isSome_iff_ne_none] at hhas
  exact hhas h

@[simp] theorem owner_addEntry (acl : MeshACL) (identity templateName : JsString)
    (expires : Option JsNumber) : (acl.addEntry identity templateName expires).1.owner = acl.owner := by
  unfold addEntry
  split_ifs <;> rfl

end MeshACL
end BrowserMesh.Core
