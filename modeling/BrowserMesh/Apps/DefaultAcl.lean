import BrowserMesh.Core.MeshAcl

/-! # The default access control list

A peer registry without an access control list makes one of its own, with the templates and the roster of `MeshACL` but a
matcher of its own: it compares the first two segments of a scope as they stand.  `MeshACL` compares three, and takes a
missing or empty one for a wildcard.  The two decide alike where neither matters (`default_agrees`). -/

namespace BrowserMesh.Apps
open Js BrowserMesh.Core Primitives

/-- What `#createDefaultACL` makes. -/
structure DefaultACL where
  owner : JsString
  templates : JsMap JsString (List JsString)
  /-- The name of the template of each identity. -/
  roster : JsMap JsString JsString

/-- The operations on templates and roster that both lists have; no entry expires. -/
inductive AclCall where
  | addTemplate (name : JsString) (scopes : List JsString)
  | removeTemplate (name : JsString)
  | addEntry (identity templateName : JsString)
  | removeEntry (identity : JsString)
  | revokeAll (identity : JsString)

/-- `matchScope` of the default list. -/
def matchSegments (pattern scope : JsString) : Bool :=
  let p := pattern.splitOn colon
  let s := scope.splitOn colon
  decide (pattern = js "*:*") ||
    ((decide (p[0]? = some [asterisk]) || decide (p[0]? = s[0]?)) &&
      (decide (p[1]? = some [asterisk]) || decide (p[1]? = s[1]?)))

namespace DefaultACL

def new (owner : JsString) : DefaultACL :=
  ⟨owner, JsMap.ofEntries [(js "guest", [js "chat:read", js "files:read"]),
    (js "collaborator", [js "chat:*", js "files:read", js "files:write", js "compute:submit"]),
    (js "admin", [js "*:*"])], JsMap.empty⟩

def addTemplate (acl : DefaultACL) (name : JsString) (scopes : List JsString) : DefaultACL :=
  { acl with templates := acl.templates.set name scopes }

def removeTemplate (acl : DefaultACL) (name : JsString) : DefaultACL :=
  { acl with templates := acl.templates.delete name }

def addEntry (acl : DefaultACL) (identity templateName : JsString) : DefaultACL × Except UnknownTemplate Unit :=
  if !acl.templates.has templateName then (acl, .error ⟨templateName⟩)
  else ({ acl with roster := acl.roster.set identity templateName }, .ok ())

def removeEntry (acl : DefaultACL) (identity : JsString) : DefaultACL :=
  { acl with roster := acl.roster.delete identity }

/-- `revokeAll`, without the number of the entries. -/
def revokeAll (acl : DefaultACL) (identity : JsString) : DefaultACL :=
  { acl with roster := acl.roster.delete identity }

def check (acl : DefaultACL) (identity resource action : JsString) : Except AclDenial Unit :=
  if identity = acl.owner then .ok ()
  else
    match acl.roster.get? identity with
    | none => .error .notInRoster
    | some templateName =>
        match acl.templates.get? templateName with
        | none => .error .templateMissing
        | some scopes =>
            if scopes.any fun s => matchSegments s (MeshACL.scopeOf resource action) then .ok ()
            else .error .scopeDenied

def exec (acl : DefaultACL) : AclCall → DefaultACL
  | .addTemplate name scopes => acl.addTemplate name scopes
  | .removeTemplate name => acl.removeTemplate name
  | .addEntry identity templateName => (acl.addEntry identity templateName).1
  | .removeEntry identity => acl.removeEntry identity
  | .revokeAll identity => acl.revokeAll identity

def run (acl : DefaultACL) (calls : List AclCall) : DefaultACL := calls.foldl exec acl

end DefaultACL

/-- The same operation on `MeshACL`. -/
def execAcl (acl : MeshACL) : AclCall → MeshACL
  | .addTemplate name scopes => acl.addTemplate name scopes
  | .removeTemplate name => acl.removeTemplate name
  | .addEntry identity templateName => (acl.addEntry identity templateName none).1
  | .removeEntry identity => acl.removeEntry identity
  | .revokeAll identity => acl.revokeAll identity

def runAcl (acl : MeshACL) (calls : List AclCall) : MeshACL := calls.foldl execAcl acl

namespace DefaultACL

/-! ### Templates and rosters -/

/-- The two lists have the same templates, and the same templates for the same identities. -/
structure Mirrors (d : DefaultACL) (m : MeshACL) : Prop where
  owner : d.owner = m.owner
  templates : d.templates = m.templates
  entries : ∀ identity, m.getEntry identity = (d.roster.get? identity).map fun name => ⟨name, none⟩

variable {d : DefaultACL} {m : MeshACL}

theorem mirrors_new (owner : JsString) : Mirrors (new owner) (MeshACL.new owner) :=
  ⟨rfl, rfl, fun _ => rfl⟩

theorem Mirrors.removeEntry (h : Mirrors d m) (identity : JsString) :
    Mirrors (d.removeEntry identity) (m.removeEntry identity) := by
  refine ⟨h.owner, h.templates, fun identity' => ?_⟩
  rw [MeshACL.getEntry_removeEntry, DefaultACL.removeEntry, JsMap.get?_delete]
  split_ifs
  · rfl
  · exact h.entries identity'

theorem Mirrors.exec (h : Mirrors d m) (call : AclCall) : Mirrors (d.exec call) (execAcl m call) := by
  cases call with
  | addTemplate name scopes =>
      exact ⟨h.owner, congrArg (·.set name scopes) h.templates, h.entries⟩
  | removeTemplate name => exact ⟨h.owner, congrArg (·.delete name) h.templates, h.entries⟩
  | removeEntry identity => exact h.removeEntry identity
  | revokeAll identity => exact h.removeEntry identity
  | addEntry identity templateName =>
      have htemplate : d.templates.has templateName = m.templates.has templateName :=
        congrArg (·.has templateName) h.templates
      simp only [DefaultACL.exec, execAcl, DefaultACL.addEntry, MeshACL.addEntry, htemplate]
      cases m.templates.has templateName with
      | false => exact h
      | true =>
          refine ⟨h.owner, h.templates, fun identity' => ?_⟩
          change (m.roster.set identity _).get? identity' = ((d.roster.set identity templateName).get? identity').map _
          rw [JsMap.get?_set, JsMap.get?_set]
          split_ifs
          · rfl
          · exact h.entries identity'

theorem Mirrors.run (h : Mirrors d m) (calls : List AclCall) : Mirrors (d.run calls) (runAcl m calls) := by
  induction calls generalizing d m with
  | nil => exact h
  | cons call calls ih => exact ih (h.exec call)

theorem owner_exec (d : DefaultACL) (call : AclCall) : (d.exec call).owner = d.owner := by
  cases call with
  | addEntry identity templateName =>
      simp only [DefaultACL.exec, DefaultACL.addEntry]
      split_ifs <;> rfl
  | addTemplate name scopes => rfl
  | removeTemplate name => rfl
  | removeEntry identity => rfl
  | revokeAll identity => rfl

theorem owner_run (d : DefaultACL) (calls : List AclCall) : (d.run calls).owner = d.owner := by
  induction calls generalizing d with
  | nil => rfl
  | cons call calls ih => exact (ih (d.exec call)).trans (owner_exec d call)

/-- The scopes of the template that the roster names for an identity. -/
def scopesOf (m : MeshACL) (identity : JsString) : List JsString :=
  ((m.getEntry identity).bind fun entry => m.getTemplate entry.templateName).getD []

theorem Mirrors.check (h : Mirrors d m) {identity : JsString} (hidentity : identity ≠ d.owner)
    (resource action : JsString) : d.check identity resource action = .ok () ↔
      (scopesOf m identity).any (fun s => matchSegments s (MeshACL.scopeOf resource action)) = true := by
  unfold DefaultACL.check scopesOf
  rw [if_neg hidentity, h.entries identity]
  cases d.roster.get? identity with
  | none => simp
  | some templateName =>
      rw [Option.map_some, Option.bind_some, MeshACL.getTemplate, ← h.templates]
      cases htemplate : d.templates.get? templateName with
      | none => simp [htemplate]
      | some scopes => simp [htemplate]

theorem Mirrors.meshCheck (h : Mirrors d m) {identity : JsString} (hidentity : identity ≠ d.owner) (now : JsNumber)
    (resource action : JsString) : m.check now identity resource action = .ok () ↔
      MeshACL.covers (scopesOf m identity) (MeshACL.scopeOf resource action) = true := by
  rw [MeshACL.check_eq_ok, or_iff_right (fun heq => hidentity (heq.trans h.owner.symm)), scopesOf, h.entries identity]
  cases d.roster.get? identity with
  | none => simp [MeshACL.covers]
  | some templateName =>
      rw [Option.map_some, Option.bind_some]
      cases htemplate : m.getTemplate templateName with
      | none => simp [htemplate, MeshACL.covers]
      | some scopes => simp [htemplate, RosterEntry.isExpired]

/-! ### The matchers -/

/-- The first two segments match, but the third one of the scope is neither empty nor `*` nor that of the request. -/
def ThirdDiffers (s scope : JsString) : Prop :=
  matchSegments s scope = true ∧ ∃ third, (s.splitOn colon)[2]? = some third ∧ third ≠ [] ∧ third ≠ [asterisk] ∧
    (scope.splitOn colon)[2]? ≠ some third

/-- A scope that matches because its first segment is empty, or its second one is empty or missing. -/
def LeftOpen (s scope : JsString) : Prop :=
  matchScope s scope = true ∧
    (((s.splitOn colon)[0]? = some [] ∧ (scope.splitOn colon)[0]? ≠ some []) ∨ (s.splitOn colon)[1]? = none ∨
      ((s.splitOn colon)[1]? = some [] ∧ (scope.splitOn colon)[1]? ≠ some []))

/-- Where a scope differs in its third segment, another one of the template allows the request by three segments, and where
one is left open, another one allows it by two. -/
def Alike (scopes : List JsString) (scope : JsString) : Prop :=
  ((∃ s ∈ scopes, ThirdDiffers s scope) → MeshACL.covers scopes scope = true) ∧
  ((∃ s ∈ scopes, LeftOpen s scope) → scopes.any (fun s => matchSegments s scope) = true)

theorem partMatches_partOrStar (granted required : Option JsString) :
    partMatches (partOrStar granted) (partOrStar required) = true ↔
      granted = none ∨ granted = some [] ∨ granted = some [asterisk] ∨ granted = required := by
  cases granted with
  | none => simp [partMatches, partOrStar]
  | some g =>
      by_cases hg : g = []
      · simp [partMatches, partOrStar, hg]
      · cases required with
        | none => simp [partMatches, partOrStar, hg]
        | some r =>
            by_cases hr : r = []
            · simp [partMatches, partOrStar, hg, hr]
            · simp [partMatches, partOrStar, hg, hr]

/-- A part that is missing, empty or `*`, or that is the one that is asked for. -/
def Fits (granted required : Option JsString) : Prop :=
  granted = none ∨ granted = some [] ∨ granted = some [asterisk] ∨ granted = required

variable {s scope : JsString}

theorem matchScope_iff : matchScope s scope = true ↔
    Fits (s.splitOn colon)[0]? (scope.splitOn colon)[0]? ∧ Fits (s.splitOn colon)[1]? (scope.splitOn colon)[1]? ∧
      Fits (s.splitOn colon)[2]? (scope.splitOn colon)[2]? := by
  simp only [matchScope, parseScope, Bool.and_eq_true, partMatches_partOrStar, and_assoc]
  rfl

theorem splitOn_star : (js "*:*").splitOn colon = [[asterisk], [asterisk]] := by decide +kernel

theorem matchSegments_iff : matchSegments s scope = true ↔
    s = js "*:*" ∨ (((s.splitOn colon)[0]? = some [asterisk] ∨ (s.splitOn colon)[0]? = (scope.splitOn colon)[0]?) ∧
      ((s.splitOn colon)[1]? = some [asterisk] ∨ (s.splitOn colon)[1]? = (scope.splitOn colon)[1]?)) := by
  simp only [matchSegments, Bool.or_eq_true, Bool.and_eq_true, decide_eq_true_eq]

theorem matchScope_of_matchSegments (h : matchSegments s scope = true) :
    matchScope s scope = true ∨ ThirdDiffers s scope := by
  rcases matchSegments_iff.mp h with rfl | ⟨hfirst, hsecond⟩
  · left
    rw [matchScope_iff, splitOn_star]
    exact ⟨Or.inr (Or.inr (Or.inl rfl)), Or.inr (Or.inr (Or.inl rfl)), Or.inl rfl⟩
  · by_cases hthird : Fits (s.splitOn colon)[2]? (scope.splitOn colon)[2]?
    · refine Or.inl (matchScope_iff.mpr ⟨?_, ?_, hthird⟩)
      · exact hfirst.elim (fun hstar => Or.inr (Or.inr (Or.inl hstar))) fun hsame => Or.inr (Or.inr (Or.inr hsame))
      · exact hsecond.elim (fun hstar => Or.inr (Or.inr (Or.inl hstar))) fun hsame => Or.inr (Or.inr (Or.inr hsame))
    · refine Or.inr ⟨h, ?_⟩
      simp only [Fits, not_or] at hthird
      obtain ⟨hsome, hempty, hstar, hdiffers⟩ := hthird
      obtain ⟨third, hget⟩ := Option.ne_none_iff_exists'.mp hsome
      rw [hget] at hempty hstar hdiffers
      exact ⟨third, hget, fun heq => hempty (congrArg some heq), fun heq => hstar (congrArg some heq), Ne.symm hdiffers⟩

theorem same_of_fits {granted required : Option JsString} (h : Fits granted required) (hsome : granted ≠ none)
    (hopen : ¬ (granted = some [] ∧ required ≠ some [])) : granted = some [asterisk] ∨ granted = required := by
  rcases h with hnone | hempty | hstar | hsame
  · exact absurd hnone hsome
  · right
    by_contra hdiffers
    exact hopen ⟨hempty, fun hrequired => hdiffers (hempty.trans hrequired.symm)⟩
  · exact Or.inl hstar
  · exact Or.inr hsame

theorem matchSegments_of_matchScope (h : matchScope s scope = true) :
    matchSegments s scope = true ∨ LeftOpen s scope := by
  by_cases hopen : LeftOpen s scope
  · exact Or.inr hopen
  · left
    have hclosed := fun hpart => hopen ⟨h, hpart⟩
    obtain ⟨hfirst, hsecond, -⟩ := matchScope_iff.mp h
    obtain ⟨first, rest, hsplit⟩ := List.exists_cons_of_ne_nil (List.splitOn_ne_nil colon s)
    have hsome : (s.splitOn colon)[0]? ≠ none := by
      rw [hsplit]
      exact Option.some_ne_none first
    refine matchSegments_iff.mpr (Or.inr ⟨same_of_fits hfirst hsome fun hpart => hclosed (Or.inl hpart), ?_⟩)
    exact same_of_fits hsecond (fun hnone => hclosed (Or.inr (Or.inl hnone))) fun hpart =>
      hclosed (Or.inr (Or.inr hpart))

/-- After the same operations on templates and roster, the default list and `MeshACL` decide alike on a request of an
identity that is not the owner exactly when the scopes that its template has are alike on it. -/
theorem default_agrees (owner : JsString) (calls : List AclCall) (now : JsNumber) (identity resource action : JsString)
    (hidentity : identity ≠ owner) :
    (((new owner).run calls).check identity resource action = .ok () ↔
      (runAcl (MeshACL.new owner) calls).check now identity resource action = .ok ()) ↔
    Alike (scopesOf (runAcl (MeshACL.new owner) calls) identity) (MeshACL.scopeOf resource action) := by
  have hmirrors := (mirrors_new owner).run calls
  have howner : identity ≠ ((new owner).run calls).owner := by rwa [owner_run]
  rw [hmirrors.check howner, hmirrors.meshCheck howner]
  generalize scopesOf (runAcl (MeshACL.new owner) calls) identity = scopes
  generalize MeshACL.scopeOf resource action = scope
  constructor
  · intro hsame
    refine ⟨?_, ?_⟩
    · rintro ⟨s, hs, hdiffers⟩
      exact hsame.mp (List.any_eq_true.mpr ⟨s, hs, hdiffers.1⟩)
    · rintro ⟨s, hs, hopen⟩
      exact hsame.mpr (List.any_eq_true.mpr ⟨s, hs, hopen.1⟩)
  · rintro ⟨hthird, hopen⟩
    refine ⟨fun hany => ?_, fun hany => ?_⟩
    · obtain ⟨s, hs, hmatch⟩ := List.any_eq_true.mp hany
      rcases matchScope_of_matchSegments hmatch with hscope | hdiffers
      · exact List.any_eq_true.mpr ⟨s, hs, hscope⟩
      · exact hthird ⟨s, hs, hdiffers⟩
    · obtain ⟨s, hs, hmatch⟩ := List.any_eq_true.mp hany
      rcases matchSegments_of_matchScope hmatch with hsegments | hleft
      · exact List.any_eq_true.mpr ⟨s, hs, hsegments⟩
      · exact hopen ⟨s, hs, hleft⟩

theorem default_agrees_guest :
    ((new (js "alice")).run [.addEntry (js "bob") (js "guest")]).check (js "bob") (js "files") (js "write") = .ok () ↔
      (runAcl (MeshACL.new (js "alice")) [.addEntry (js "bob") (js "guest")]).check 0 (js "bob") (js "files")
        (js "write") = .ok () := by
  have hscopes : scopesOf (runAcl (MeshACL.new (js "alice")) [.addEntry (js "bob") (js "guest")]) (js "bob") =
      [js "chat:read", js "files:read"] := by decide +kernel
  have hsplit : ∀ s ∈ [js "chat:read", js "files:read"], (s.splitOn colon).length = 2 ∧
      (s.splitOn colon)[0]? ≠ some [] ∧ (s.splitOn colon)[1]? ≠ some [] := by decide +kernel
  refine (default_agrees (js "alice") [.addEntry (js "bob") (js "guest")] 0 (js "bob") (js "files") (js "write")
    (by decide +kernel)).mpr ?_
  rw [hscopes]
  refine ⟨?_, ?_⟩
  · rintro ⟨s, hs, -, third, hthird, -⟩
    obtain ⟨hlt, -⟩ := List.getElem?_eq_some_iff.mp hthird
    rw [(hsplit s hs).1] at hlt
    exact absurd hlt (lt_irrefl 2)
  · rintro ⟨s, hs, -, hopen⟩
    obtain ⟨hlength, hfirst, hsecond⟩ := hsplit s hs
    rcases hopen with ⟨hempty, -⟩ | hmissing | ⟨hempty, -⟩
    · exact absurd hempty hfirst
    · rw [List.getElem?_eq_none_iff, hlength] at hmissing
      exact absurd hmissing (by decide)
    · exact absurd hempty hsecond

theorem default_disagrees : ¬ ∀ (owner : JsString) (calls : List AclCall) (now : JsNumber)
    (identity resource action : JsString), identity ≠ owner →
    (((new owner).run calls).check identity resource action = .ok () ↔
      (runAcl (MeshACL.new owner) calls).check now identity resource action = .ok ()) := by
  intro h
  have hwrites := h (js "alice") [.addTemplate (js "t") [js "s3:bucket:read"], .addEntry (js "bob") (js "t")] 0 (js "bob")
    (js "s3:bucket") (js "write") (by decide +kernel)
  exact absurd (hwrites.mp (by decide +kernel)) (by decide +kernel)

end DefaultACL
end BrowserMesh.Apps
