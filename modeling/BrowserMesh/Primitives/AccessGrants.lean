import BrowserMesh.Js.Number
import BrowserMesh.Js.Dict
import BrowserMesh.Primitives.Glob

/-! # Capability tokens as access grants

* `CapabilityToken.covers`: a scope `namespace:resource:action` of the token covers the required one, part
  by part, `*` covering everything.
* `AccessGrant.check`: an unexpired grant allows an action on a resource when a permission's glob matches the
  resource and its actions contain `*`, `admin` or the action.
* `grantFromToken`: one permission on `mesh://namespace/resource` for each target of the token's scopes.

The two decide alike for tokens whose names are plain (`grantFromToken_check_iff`). -/

namespace BrowserMesh.Primitives

open Js Pattern

/-! ### Scopes -/

structure Scope where
  (namespace' : JsString)
  resource : JsString
  action : JsString
deriving DecidableEq

/-- `part || '*'`, for a part that may be missing. -/
def partOrStar (part : Option JsString) : JsString :=
  match part with
  | none => [asterisk]
  | some p => if p = [] then [asterisk] else p

def parseScope (scope : JsString) : Scope :=
  let parts := scope.splitOn colon
  ⟨partOrStar parts[0]?, partOrStar parts[1]?, partOrStar parts[2]?⟩

/-- `grantedPart === '*' || grantedPart === requiredPart`. -/
def partMatches (grantedPart requiredPart : JsString) : Bool :=
  decide (grantedPart = [asterisk]) || decide (grantedPart = requiredPart)

def matchScope (granted required : JsString) : Bool :=
  let g := parseScope granted
  let r := parseScope required
  partMatches g.namespace' r.namespace' && partMatches g.resource r.resource &&
    partMatches g.action r.action

structure CapabilityToken where
  issuer : JsString
  subject : JsString
  scopes : List JsString
  expiresAt : JsNumber

def CapabilityToken.covers (t : CapabilityToken) (scope : JsString) : Bool :=
  t.scopes.any fun s => matchScope s scope

/-! ### Grants -/

structure Permission where
  resource : JsString
  actions : List JsString
deriving DecidableEq

def Permission.matches (perm : Permission) (resource action : JsString) : Bool :=
  if !matchResourcePattern perm.resource resource then false
  else if perm.actions.contains [asterisk] || perm.actions.contains (js "admin") then true
  else perm.actions.contains action

/-- Times of day from `start` to `end'`, written `HH:MM`. -/
structure TimeWindow where
  start : JsString
  (end' : JsString)
deriving DecidableEq

structure Conditions where
  expires : Option JsNumber
  maxUses : Option JsNumber
  timeWindows : Option (List TimeWindow)
deriving DecidableEq

structure AccessGrant where
  id : JsString
  grantee : JsString
  grantor : JsString
  permissions : List Permission
  conditions : Conditions
  created : JsNumber
  revoked : Option JsNumber
  usageCount : JsNumber
deriving DecidableEq

/-- Whether an optional number counts as true: it is there and neither `0` nor `NaN`. -/
def truthy (n : Option JsNumber) : Bool :=
  match n with
  | none => false
  | some n => decide (n ≠ 0 ∧ n ≠ .nan)

/-- `limit && value >= limit`. -/
def reaches (value : JsNumber) (limit : Option JsNumber) : Bool :=
  match limit with
  | none => false
  | some l => truthy (some l) && l.le value

inductive GrantDenial where
  | revoked
  | expired
  | outsideTimeWindow
  | noMatchingPermission
deriving DecidableEq

def GrantDenial.reason : GrantDenial → String
  | .revoked => "grant_revoked"
  | .expired => "grant_expired"
  | .outsideTimeWindow => "outside_time_window"
  | .noMatchingPermission => "no_matching_permission"

namespace AccessGrant

def isRevoked (g : AccessGrant) : Bool := truthy g.revoked

def isExpired (g : AccessGrant) (now : JsNumber) : Bool :=
  g.isRevoked || reaches now g.conditions.expires || reaches g.usageCount g.conditions.maxUses

/-- `isWithinTimeWindow(now)`, at the time of day `timeStr`. -/
def isWithinTimeWindow (g : AccessGrant) (timeStr : JsString) : Bool :=
  match g.conditions.timeWindows with
  | none => true
  | some [] => true
  | some windows => windows.any fun w => decide (w.start ≤ timeStr) && decide (timeStr ≤ w.end')

/-- `check(resource, action, now)`; `none` when allowed. -/
def check (g : AccessGrant) (resource action : JsString) (now : JsNumber) (timeStr : JsString) :
    Option GrantDenial :=
  if g.isRevoked then some .revoked
  else if g.isExpired now then some .expired
  else if !g.isWithinTimeWindow timeStr then some .outsideTimeWindow
  else if g.permissions.any fun perm => perm.matches resource action then none
  else some .noMatchingPermission

end AccessGrant

/-- `mesh://${namespace}/${resource}`. -/
def meshTarget (namespace' resource : JsString) : JsString :=
  js "mesh://" ++ namespace' ++ slash :: resource

/-- The actions collected for each target. -/
def byResource (scopes : List JsString) : JsMap JsString (List JsString) :=
  scopes.foldl (fun m s =>
    let scope := parseScope s
    let target := meshTarget scope.namespace' scope.resource
    let actions := (m.get? target).getD []
    m.set target (if scope.action ∈ actions then actions else actions ++ [scope.action])) JsMap.empty

/-- `grantFromToken(token, { grantor, id, created })`. -/
def grantFromToken (token : CapabilityToken) (grantor : Option JsString) (id : JsString)
    (created : JsNumber) : AccessGrant where
  id := id
  grantee := token.subject
  grantor := grantor.getD token.issuer
  permissions := (byResource token.scopes).entries.map fun e => ⟨e.1, e.2⟩
  conditions :=
    { expires := if (0 : JsNumber).lt token.expiresAt then some (token.expiresAt.mulNat 1000) else none
      maxUses := none
      timeWindows := none }
  created := created
  revoked := none
  usageCount := 0

/-! ### What the grant of a token allows -/

def scopeTarget (s : JsString) : JsString :=
  meshTarget (parseScope s).namespace' (parseScope s).resource

/-- The action of a scope allows the action. -/
def ActionFits (s action : JsString) : Prop :=
  (parseScope s).action = [asterisk] ∨ (parseScope s).action = js "admin" ∨ (parseScope s).action = action

/-- A target has the actions of the scopes with that target. -/
theorem mem_byResource {scopes : List JsString} {target action : JsString} :
    (∃ actions, (byResource scopes).get? target = some actions ∧ action ∈ actions) ↔
      ∃ s ∈ scopes, scopeTarget s = target ∧ (parseScope s).action = action := by
  induction scopes using List.reverseRecOn with
  | nil => simp [byResource]
  | append_singleton scopes s ih =>
      have hstep : byResource (scopes ++ [s]) =
          (byResource scopes).set (scopeTarget s)
            (if (parseScope s).action ∈ ((byResource scopes).get? (scopeTarget s)).getD [] then
              ((byResource scopes).get? (scopeTarget s)).getD []
            else ((byResource scopes).get? (scopeTarget s)).getD [] ++ [(parseScope s).action]) := by
        simp only [byResource, List.foldl_append, List.foldl_cons, List.foldl_nil]
        rfl
      have hmem : ∀ a : JsString, a ∈ ((byResource scopes).get? target).getD [] ↔
          ∃ actions, (byResource scopes).get? target = some actions ∧ a ∈ actions := by
        intro a
        cases (byResource scopes).get? target <;> simp
      rw [hstep]
      by_cases ht : scopeTarget s = target
      · subst ht
        simp only [JsMap.get?_set, if_true, Option.some.injEq, exists_eq_left', List.mem_append,
          List.mem_singleton, or_and_right, exists_or, exists_eq_left, true_and]
        rw [← ih, ← hmem]
        split_ifs with hin
        · constructor
          · exact Or.inl
          · rintro (h | rfl)
            · exact h
            · exact hin
        · rw [List.mem_append, List.mem_singleton, eq_comm (a := action)]
      · simp only [JsMap.get?_set, if_neg (Ne.symm ht), ih, List.mem_append, List.mem_singleton,
          or_and_right, exists_or, exists_eq_left, ht, false_and, or_false]

theorem permission_matches_iff {perm : Permission} {resource action : JsString} :
    perm.matches resource action = true ↔
      matchResourcePattern perm.resource resource = true ∧
        ([asterisk] ∈ perm.actions ∨ js "admin" ∈ perm.actions ∨ action ∈ perm.actions) := by
  unfold Permission.matches
  by_cases hm : matchResourcePattern perm.resource resource = true
  · simp only [hm, Bool.not_true, Bool.false_eq_true, if_false, true_and, Bool.or_eq_true,
      List.contains_iff_mem]
    by_cases hs : [asterisk] ∈ perm.actions ∨ js "admin" ∈ perm.actions
    · rw [if_pos hs]
      exact iff_of_true rfl (hs.imp_right Or.inl)
    · rw [if_neg hs, List.contains_iff_mem, ← or_assoc]
      exact (or_iff_right hs).symm
  · simp [hm]

/-- The expiry of the token in milliseconds has not come. -/
def BeforeExpiry (t : CapabilityToken) (now : JsNumber) : Prop :=
  (0 : JsNumber).lt t.expiresAt = true → (t.expiresAt.mulNat 1000).le now = false

/-- Before the expiry the grant allows what a scope's glob and action allow. -/
theorem check_grantFromToken_iff {t : CapabilityToken} {grantor : Option JsString} {id : JsString}
    {created now : JsNumber} (h : BeforeExpiry t now) (timeStr resource action : JsString) :
    (grantFromToken t grantor id created).check resource action now timeStr = none ↔
      ∃ s ∈ t.scopes, matchResourcePattern (scopeTarget s) resource = true ∧ ActionFits s action := by
  have hexpired : (grantFromToken t grantor id created).isExpired now = false := by
    unfold AccessGrant.isExpired AccessGrant.isRevoked grantFromToken
    cases hpos : (0 : JsNumber).lt t.expiresAt
    · rfl
    · simp [reaches, truthy, h hpos]
  have hrevoked : (grantFromToken t grantor id created).isRevoked = false := rfl
  have hwindow : (grantFromToken t grantor id created).isWithinTimeWindow timeStr = true := rfl
  unfold AccessGrant.check
  simp only [hexpired, hrevoked, hwindow, Bool.false_eq_true, if_false, Bool.not_true, ite_eq_left_iff,
    reduceCtorEq, imp_false, not_not]
  rw [List.any_eq_true]
  constructor
  · rintro ⟨perm, hperm, hmatch⟩
    obtain ⟨⟨target, actions⟩, hentry, rfl⟩ := List.mem_map.mp hperm
    have hget := JsMap.mem_entries_iff.mp hentry
    obtain ⟨hglob, hact⟩ := permission_matches_iff.mp hmatch
    have scope : ∀ a ∈ actions, ∃ s ∈ t.scopes, scopeTarget s = target ∧ (parseScope s).action = a :=
      fun a ha => mem_byResource.mp ⟨actions, hget, ha⟩
    rcases hact with ha | ha | ha
    · obtain ⟨s, hs, rfl, hsa⟩ := scope _ ha
      exact ⟨s, hs, hglob, Or.inl hsa⟩
    · obtain ⟨s, hs, rfl, hsa⟩ := scope _ ha
      exact ⟨s, hs, hglob, Or.inr (Or.inl hsa)⟩
    · obtain ⟨s, hs, rfl, hsa⟩ := scope _ ha
      exact ⟨s, hs, hglob, Or.inr (Or.inr hsa)⟩
  · rintro ⟨s, hs, hglob, hfit⟩
    obtain ⟨actions, hget, ha⟩ := mem_byResource.mpr ⟨s, hs, rfl, rfl⟩
    refine ⟨⟨scopeTarget s, actions⟩, ?_, permission_matches_iff.mpr ⟨hglob, ?_⟩⟩
    · exact List.mem_map.mpr ⟨_, JsMap.mem_entries_iff.mpr hget, rfl⟩
    · rcases hfit with h | h | h
      · exact Or.inl (h ▸ ha)
      · exact Or.inr (Or.inl (h ▸ ha))
      · exact Or.inr (Or.inr (h ▸ ha))

/-! ### Plain names -/

/-- The name is a lone `*` or has no wildcard. -/
def PlainName (p : JsString) : Prop := p = [asterisk] ∨ (asterisk ∉ p ∧ questionMark ∉ p)

instance (p : JsString) : Decidable (PlainName p) := inferInstanceAs (Decidable (_ ∨ _))

def nameParts (p : JsString) : List GlobPart := if p = [asterisk] then [.star] else p.map .literal

theorem globParts_literals_append {p s : JsString} (h : asterisk ∉ p) (hq : questionMark ∉ p) :
    globParts (p ++ s) = p.map .literal ++ globParts s := by
  induction p with
  | nil => rfl
  | cons c p ih =>
      have hc : c ≠ asterisk := fun e => h (e ▸ List.mem_cons_self)
      have hcq : c ≠ questionMark := fun e => hq (e ▸ List.mem_cons_self)
      rw [List.cons_append, globParts, if_neg hc, if_neg hcq, ih (fun hm => h (List.mem_cons_of_mem c hm))
        fun hm => hq (List.mem_cons_of_mem c hm)]
      · rfl
      · rintro s' rfl
        exact absurd rfl hc

theorem globParts_meshTarget {n r : JsString} (hn : PlainName n) (hr : PlainName r) :
    globParts (meshTarget n r) =
      (js "mesh://").map .literal ++ (nameParts n ++ (.literal slash :: nameParts r)) := by
  have hend : globParts r = nameParts r := by
    rcases hr with rfl | ⟨h, hq⟩
    · rfl
    · have hne : r ≠ [asterisk] := fun e => h (e ▸ List.mem_singleton_self asterisk)
      have happ := globParts_literals_append (s := []) h hq
      rw [List.append_nil] at happ
      rw [happ, nameParts, if_neg hne, globParts, List.append_nil]
  have hslash : globParts (slash :: r) = .literal slash :: nameParts r := by
    rw [← hend]
    exact globParts_literals_append (p := [slash]) (by decide) (by decide)
  rw [meshTarget, List.append_assoc,
    globParts_literals_append (by decide +kernel) (by decide +kernel)]
  congr 1
  rcases hn with rfl | ⟨h, hq⟩
  · rw [nameParts, if_pos rfl, List.singleton_append, ← hslash]
    rfl
  · have hne : n ≠ [asterisk] := fun e => h (e ▸ List.mem_singleton_self asterisk)
    rw [globParts_literals_append h hq, hslash, show nameParts n = n.map .literal from if_neg hne]

theorem map_item_literal (p : JsString) :
    (p.map GlobPart.literal).map GlobPart.item = p.map Pattern.literal := by
  rw [List.map_map]
  rfl

/-- A plain name accepts itself, a lone `*` every name of one segment. -/
theorem accepts_nameParts {p w : JsString} :
    accepts ((nameParts p).map GlobPart.item) w = true ↔
      (p = [asterisk] ∧ slash ∉ w) ∨ (p ≠ [asterisk] ∧ w = p) := by
  unfold nameParts
  split_ifs with h
  · have hseg : accepts [.many notSlash] w = true ↔ slash ∉ w := by
      rw [accepts_many]
      simp only [notSlash, decide_eq_true_eq]
      exact ⟨fun hall hm => hall slash hm rfl, fun hn c hc e => hn (e ▸ hc)⟩
    rw [List.map_singleton]
    exact hseg.trans (by simp [h])
  · rw [map_item_literal, accepts_literals]
    simp [h]

/-- The first separator splits a text in one way. -/
theorem append_cons_inj {a : CodeUnit} {u v x y : JsString} (hu : a ∉ u) (hv : a ∉ v)
    (h : u ++ a :: x = v ++ a :: y) : u = v ∧ x = y := by
  induction u generalizing v with
  | nil =>
      cases v with
      | nil => exact ⟨rfl, (List.cons.inj h).2⟩
      | cons c v => exact absurd ((List.cons.inj h).1 ▸ List.mem_cons_self) hv
  | cons c u ih =>
      cases v with
      | nil => exact absurd ((List.cons.inj h).1 ▸ List.mem_cons_self) hu
      | cons d v =>
          obtain ⟨rfl, htail⟩ := List.cons.inj h
          obtain ⟨rfl, rfl⟩ := ih (fun hm => hu (List.mem_cons_of_mem c hm))
            (fun hm => hv (List.mem_cons_of_mem c hm)) htail
          exact ⟨rfl, rfl⟩

theorem meshTarget_inj {n r n' r' : JsString} (hn : slash ∉ n) (hn' : slash ∉ n')
    (h : meshTarget n r = meshTarget n' r') : n = n' ∧ r = r' := by
  rw [meshTarget, meshTarget, List.append_assoc, List.append_assoc] at h
  exact append_cons_inj hn hn' (List.append_cancel_left h)

/-- Part by part, as `matchScope` compares. -/
def PartFits (granted required : JsString) : Prop := granted = [asterisk] ∨ granted = required

/-- On plain names the glob of a target matches part by part. -/
theorem matchResourcePattern_meshTarget_iff {n r n' r' : JsString} (hn : PlainName n) (hr : PlainName r)
    (hslash : slash ∉ n) (hn' : slash ∉ n') (hr' : r = [asterisk] → slash ∉ r') :
    matchResourcePattern (meshTarget n r) (meshTarget n' r') = true ↔ PartFits n n' ∧ PartFits r r' := by
  have hlone : meshTarget n r ≠ [asterisk] := by
    intro h
    have hlen := congrArg List.length h
    rw [meshTarget, List.length_append, List.length_append, show (js "mesh://").length = 7 from rfl,
      List.length_cons, List.length_singleton] at hlen
    omega
  rw [matchResourcePattern_iff, or_iff_right hlone, globParts_meshTarget hn hr, List.map_append,
    map_item_literal, accepts_append]
  constructor
  · rintro (heq | ⟨u, v, huv, hu, hv⟩)
    · obtain ⟨rfl, rfl⟩ := meshTarget_inj hslash hn' heq
      exact ⟨Or.inr rfl, Or.inr rfl⟩
    · obtain rfl := accepts_literals.mp hu
      rw [List.map_append, accepts_append] at hv
      obtain ⟨x, y, rfl, hx, hy⟩ := hv
      rw [List.map_cons, accepts_cons_iff] at hy
      obtain ⟨c, z, rfl, ⟨d, rfl, hd⟩, hz⟩ := hy
      obtain rfl : d = slash := of_decide_eq_true hd
      rw [meshTarget, List.append_assoc] at huv
      have hsplit := List.append_cancel_left huv
      have hx' := accepts_nameParts.mp hx
      have hxs : slash ∉ x := by
        rcases hx' with ⟨-, hx'⟩ | ⟨-, rfl⟩
        · exact hx'
        · exact hslash
      obtain ⟨rfl, rfl⟩ := append_cons_inj hn' hxs hsplit
      have hz' := accepts_nameParts.mp hz
      exact ⟨hx'.imp (fun h => h.1) fun h => h.2.symm, hz'.imp (fun h => h.1) fun h => h.2.symm⟩
  · rintro ⟨hnf, hrf⟩
    refine Or.inr ⟨js "mesh://", n' ++ slash :: r', List.append_assoc .., accepts_literals.mpr rfl, ?_⟩
    rw [List.map_append, accepts_append]
    refine ⟨n', slash :: r', rfl, accepts_nameParts.mpr ?_, ?_⟩
    · by_cases h : n = [asterisk]
      · exact Or.inl ⟨h, hn'⟩
      · exact Or.inr ⟨h, (hnf.resolve_left h).symm⟩
    · rw [List.map_cons, accepts_cons_iff]
      refine ⟨[slash], r', rfl, ⟨slash, rfl, by decide⟩, accepts_nameParts.mpr ?_⟩
      by_cases h : r = [asterisk]
      · exact Or.inl ⟨h, hr' h⟩
      · exact Or.inr ⟨h, (hrf.resolve_left h).symm⟩

/-! ### The two decisions -/

def IsPart (p : JsString) : Prop := p ≠ [] ∧ colon ∉ p

instance (p : JsString) : Decidable (IsPart p) := inferInstanceAs (Decidable (_ ∧ _))

/-- `ns:res:act`. -/
def scopeText (ns res act : JsString) : JsString := ns ++ colon :: (res ++ colon :: act)

theorem parseScope_scopeText {ns res act : JsString} (hns : IsPart ns) (hres : IsPart res)
    (hact : IsPart act) : parseScope (scopeText ns res act) = ⟨ns, res, act⟩ := by
  have hsplit : (scopeText ns res act).splitOn colon = [ns, res, act] := by
    rw [scopeText, List.splitOn_append_cons_self_of_not_mem hns.2,
      List.splitOn_append_cons_self_of_not_mem hres.2, List.splitOn_eq_singleton hact.2]
  simp [parseScope, hsplit, partOrStar, hns.1, hres.1, hact.1]

theorem covers_iff {t : CapabilityToken} {ns res act : JsString} (hns : IsPart ns) (hres : IsPart res)
    (hact : IsPart act) :
    t.covers (scopeText ns res act) = true ↔
      ∃ s ∈ t.scopes, PartFits (parseScope s).namespace' ns ∧ PartFits (parseScope s).resource res ∧
        PartFits (parseScope s).action act := by
  simp [CapabilityToken.covers, matchScope, parseScope_scopeText hns hres hact, partMatches, PartFits,
    and_assoc]

/-- The names of the token and of the request on which the glob decides as `matchScope` does: no wildcard
but a lone `*`, no `/` in a namespace, no `/` in a resource that a lone `*` has to match, no `admin` but for
`admin`. -/
structure Plain (t : CapabilityToken) (ns res act : JsString) : Prop where
  names : ∀ s ∈ t.scopes, PlainName (parseScope s).namespace' ∧ PlainName (parseScope s).resource
  namespaces : ∀ s ∈ t.scopes, slash ∉ (parseScope s).namespace'
  requested : slash ∉ ns
  resources : ∀ s ∈ t.scopes, (parseScope s).resource = [asterisk] → slash ∉ res
  actions : ∀ s ∈ t.scopes, (parseScope s).action = js "admin" → act = js "admin"

/-- **Before the expiry the grant of a token allows an action exactly when the glob of a scope matches the
target and the scope's action is `*`, `admin` or the action; on plain names this is what the token
covers.** -/
theorem grantFromToken_check_iff (t : CapabilityToken) (grantor : Option JsString) (id : JsString)
    (created now : JsNumber) (timeStr : JsString) {ns res act : JsString} (hns : IsPart ns)
    (hres : IsPart res) (hact : IsPart act) (hnow : BeforeExpiry t now) :
    ((grantFromToken t grantor id created).check (meshTarget ns res) act now timeStr = none ↔
        ∃ s ∈ t.scopes, matchResourcePattern (scopeTarget s) (meshTarget ns res) = true ∧
          ActionFits s act) ∧
      (Plain t ns res act →
        (t.covers (scopeText ns res act) = true ↔
          (grantFromToken t grantor id created).check (meshTarget ns res) act now timeStr = none)) := by
  refine ⟨check_grantFromToken_iff hnow timeStr _ act, fun hplain => ?_⟩
  rw [check_grantFromToken_iff hnow, covers_iff hns hres hact]
  refine exists_congr fun s => and_congr_right fun hs => ?_
  obtain ⟨hn, hr⟩ := hplain.names s hs
  rw [scopeTarget, matchResourcePattern_meshTarget_iff hn hr (hplain.namespaces s hs) hplain.requested
    (hplain.resources s hs), and_assoc]
  refine and_congr_right fun _ => and_congr_right fun _ => ?_
  constructor
  · rintro (h | h)
    · exact Or.inl h
    · exact Or.inr (Or.inr h)
  · rintro (h | h | h)
    · exact Or.inl h
    · exact Or.inr (h.trans (hplain.actions s hs h).symm)
    · exact Or.inr h

/-- A token with one scope that does not expire. -/
def oneScope (scope : JsString) : CapabilityToken := ⟨js "alpha", js "beta", [scope], 0⟩

theorem grantFromToken_check_iff_tool :
    (oneScope (js "tool:*:execute")).covers (scopeText (js "tool") (js "fetch") (js "execute")) = true ↔
      (grantFromToken (oneScope (js "tool:*:execute")) none (js "id") 0).check
        (meshTarget (js "tool") (js "fetch")) (js "execute") 0 (js "12:00") = none :=
  (grantFromToken_check_iff (oneScope (js "tool:*:execute")) none (js "id") 0 0 (js "12:00")
    (by decide +kernel) (by decide +kernel) (by decide +kernel) (fun h => absurd h (by decide))).2
    ⟨by decide +kernel, by decide +kernel, by decide +kernel, by decide +kernel, by decide +kernel⟩

/-- `memory:notes:admin` covers no `delete`, and its grant allows it; `tool:*:run` covers the resource `a/b`,
and its grant does not allow it. -/
theorem grantFromToken_changes_authority :
    ((oneScope (js "memory:notes:admin")).covers (scopeText (js "memory") (js "notes") (js "delete")) = false ∧
        (grantFromToken (oneScope (js "memory:notes:admin")) none (js "id") 0).check
          (meshTarget (js "memory") (js "notes")) (js "delete") 0 (js "12:00") = none) ∧
      (oneScope (js "tool:*:run")).covers (scopeText (js "tool") (js "a/b") (js "run")) = true ∧
        (grantFromToken (oneScope (js "tool:*:run")) none (js "id") 0).check
          (meshTarget (js "tool") (js "a/b")) (js "run") 0 (js "12:00") = some .noMatchingPermission := by
  decide +kernel

end BrowserMesh.Primitives
