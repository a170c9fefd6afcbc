import BrowserMesh.Core.MeshAcl

/-! # Scopes of two parts

Templates hold scopes `R:A`, and a request is the text `resource:action`; both are read by the grammar of three parts,
in which a part that is missing or empty stands for `*`.  So a colon in the resource or in the action moves the borders
between the parts of the request, and what follows its second part is not looked at (`check_two_parts`). -/

namespace BrowserMesh.Core
open Js Primitives

/-- A scope `R:A`; neither part has a colon. -/
def IsTwoPart (scope : JsString) : Prop := ∃ r a, colon ∉ r ∧ colon ∉ a ∧ scope = MeshACL.scopeOf r a

/-- A part of a text, where `*` stands for one that is missing or empty. -/
def segment (text : JsString) (i : ℕ) : JsString := partOrStar (text.splitOn colon)[i]?

/-- The identity has an unexpired entry whose template has a scope `R:A` with `allows R A`. -/
def GrantedBy (allows : JsString → JsString → Prop) (acl : MeshACL) (now : JsNumber) (identity : JsString) : Prop :=
  ∃ entry scopes, acl.getEntry identity = some entry ∧ entry.isExpired now = false ∧
    acl.getTemplate entry.templateName = some scopes ∧
    ∃ r a, colon ∉ r ∧ colon ∉ a ∧ MeshACL.scopeOf r a ∈ scopes ∧ allows r a

variable {r a resource action : JsString}

theorem splitOn_scopeOf (hr : colon ∉ r) (ha : colon ∉ a) : (MeshACL.scopeOf r a).splitOn colon = [r, a] := by
  rw [MeshACL.scopeOf, List.splitOn_append_cons_self_of_not_mem hr, List.splitOn_eq_singleton ha]

theorem matchScope_two_parts (hr : colon ∉ r) (ha : colon ∉ a) (scope : JsString) :
    matchScope (MeshACL.scopeOf r a) scope = true ↔
      partMatches (partOrStar (some r)) (segment scope 0) = true ∧
        partMatches (partOrStar (some a)) (segment scope 1) = true := by
  have hthird : partMatches (partOrStar none) (partOrStar (scope.splitOn colon)[2]?) = true := by
    simp [partMatches, partOrStar]
  simp only [matchScope, parseScope, splitOn_scopeOf hr ha, List.getElem?_cons_zero, List.getElem?_cons_succ,
    List.getElem?_nil, hthird, Bool.and_true, Bool.and_eq_true, segment]

theorem segment_scopeOf (hr : colon ∉ resource) (ha : colon ∉ action) (hr0 : resource ≠ []) (ha0 : action ≠ []) :
    segment (MeshACL.scopeOf resource action) 0 = resource ∧ segment (MeshACL.scopeOf resource action) 1 = action := by
  simp [segment, splitOn_scopeOf hr ha, partOrStar, hr0, ha0]

theorem partMatches_iff {granted required : JsString} :
    partMatches granted required = true ↔ granted = [asterisk] ∨ granted = required := by
  simp [partMatches]

/-- With templates of scopes `R:A`, an identity other than the owner is allowed what an unexpired entry grants: `R` and
`A` match the first two parts of `resource:action`.  Where no part is empty and neither the resource nor the action has
a colon, these are the resource and the action. -/
theorem check_two_parts {acl : MeshACL}
    (hscopes : ∀ name scopes, acl.getTemplate name = some scopes → ∀ s ∈ scopes, IsTwoPart s)
    {identity : JsString} (hidentity : identity ≠ acl.owner) (now : JsNumber) (resource action : JsString) :
    (acl.check now identity resource action = .ok () ↔
      GrantedBy (fun r a =>
        partMatches (partOrStar (some r)) (segment (MeshACL.scopeOf resource action) 0) = true ∧
          partMatches (partOrStar (some a)) (segment (MeshACL.scopeOf resource action) 1) = true) acl now identity) ∧
    (colon ∉ resource → colon ∉ action → resource ≠ [] → action ≠ [] →
      (∀ name scopes, acl.getTemplate name = some scopes → ∀ s ∈ scopes, [] ∉ s.splitOn colon) →
      (acl.check now identity resource action = .ok () ↔
        GrantedBy (fun r a => (r = resource ∨ r = [asterisk]) ∧ (a = action ∨ a = [asterisk])) acl now identity)) := by
  have hcheck : acl.check now identity resource action = .ok () ↔
      GrantedBy (fun r a =>
        partMatches (partOrStar (some r)) (segment (MeshACL.scopeOf resource action) 0) = true ∧
          partMatches (partOrStar (some a)) (segment (MeshACL.scopeOf resource action) 1) = true) acl now identity := by
    rw [MeshACL.check_eq_ok, or_iff_right hidentity]
    refine exists_congr fun entry => exists_congr fun scopes => and_congr_right fun _ => and_congr_right fun _ =>
      and_congr_right fun htemplate => ?_
    rw [MeshACL.covers, List.any_eq_true]
    constructor
    · rintro ⟨s, hs, hmatch⟩
      obtain ⟨r, a, hr, ha, rfl⟩ := hscopes _ _ htemplate s hs
      exact ⟨r, a, hr, ha, hs, (matchScope_two_parts hr ha _).mp hmatch⟩
    · rintro ⟨r, a, hr, ha, hs, hmatch⟩
      exact ⟨_, hs, (matchScope_two_parts hr ha _).mpr hmatch⟩
  refine ⟨hcheck, fun hr ha hr0 ha0 hparts => hcheck.trans ?_⟩
  obtain ⟨hfirst, hsecond⟩ := segment_scopeOf hr ha hr0 ha0
  refine exists_congr fun entry => exists_congr fun scopes => and_congr_right fun _ => and_congr_right fun _ =>
    and_congr_right fun htemplate => exists_congr fun r => exists_congr fun a => and_congr_right fun hrule =>
      and_congr_right fun hrule' => and_congr_right fun hs => ?_
  have hnone := hparts _ _ htemplate _ hs
  rw [splitOn_scopeOf hrule hrule', List.mem_pair, not_or] at hnone
  have hr0' : r ≠ [] := Ne.symm hnone.1
  have ha0' : a ≠ [] := Ne.symm hnone.2
  dsimp only
  rw [hfirst, hsecond, partMatches_iff, partMatches_iff, partOrStar, partOrStar, if_neg hr0', if_neg ha0',
    or_comm, or_comm (b := a = action)]

def readerAcl : MeshACL :=
  (((MeshACL.new (js "alice")).addTemplate (js "reader") [js "files:read"]).addEntry (js "bob") (js "reader") none).1

theorem readerAcl_parts (name : JsString) (scopes : List JsString) (h : readerAcl.getTemplate name = some scopes) :
    ∀ s ∈ scopes, [] ∉ s.splitOn colon ∧ IsTwoPart s := by
  have hentries : ∀ e ∈ readerAcl.templates.entries, ∀ s ∈ e.2, [] ∉ s.splitOn colon ∧
      colon ∉ s.takeWhile (· ≠ colon) ∧ colon ∉ (s.dropWhile (· ≠ colon)).tail ∧
      s = MeshACL.scopeOf (s.takeWhile (· ≠ colon)) (s.dropWhile (· ≠ colon)).tail := by decide +kernel
  intro s hs
  obtain ⟨hnone, hparts⟩ := hentries _ (JsMap.mem_entries_iff.mpr h) s hs
  exact ⟨hnone, _, _, hparts⟩

theorem check_two_parts_reader :
    readerAcl.check 0 (js "bob") (js "files") (js "read") = .ok () ↔
      GrantedBy (fun r a => (r = js "files" ∨ r = [asterisk]) ∧ (a = js "read" ∨ a = [asterisk])) readerAcl 0
        (js "bob") := by
  exact (check_two_parts (fun name scopes h s hs => (readerAcl_parts name scopes h s hs).2) (by decide) 0
    (js "files") (js "read")).2 (by decide) (by decide) (by decide) (by decide)
    fun name scopes h s hs => (readerAcl_parts name scopes h s hs).1

/-- A colon in the action: the request `files:read:secret` is covered by `files:read`, although the action is not
`read`. -/
theorem colon_moves_borders :
    readerAcl.check 0 (js "bob") (js "files") (js "read:secret") = .ok () ∧
    ¬ ∀ (acl : MeshACL) (identity : JsString) (now : JsNumber) (resource action : JsString),
      (∀ name scopes, acl.getTemplate name = some scopes → ∀ s ∈ scopes, IsTwoPart s) → identity ≠ acl.owner →
      (acl.check now identity resource action = .ok () ↔
        GrantedBy (fun r a => (r = resource ∨ r = [asterisk]) ∧ (a = action ∨ a = [asterisk])) acl now identity) := by
  have hok : readerAcl.check 0 (js "bob") (js "files") (js "read:secret") = .ok () := by decide +kernel
  refine ⟨hok, fun h => ?_⟩
  obtain ⟨entry, scopes, hentry, _, htemplate, r, a, hr, ha, hs, hallows⟩ :=
    (h readerAcl (js "bob") 0 (js "files") (js "read:secret")
      (fun name scopes h s hs => (readerAcl_parts name scopes h s hs).2) (by decide)).mp hok
  obtain rfl : entry = ⟨js "reader", none⟩ := Option.some.inj (hentry.symm.trans (by decide +kernel))
  obtain rfl : scopes = [js "files:read"] := Option.some.inj (htemplate.symm.trans (by decide +kernel))
  have hsplit := splitOn_scopeOf hr ha
  rw [List.mem_singleton.mp hs] at hsplit
  have ha' : a = js "read" := by
    have := congrArg (·[1]?) hsplit
    exact (Option.some.inj (this.symm.trans (by decide +kernel)))
  rw [ha'] at hallows
  exact absurd hallows.2 (by decide)

end BrowserMesh.Core
