import BrowserMesh.Apps.PeerRegistry

/-! # What a grant adds

A grant puts its scopes into the template of the peer's own, makes the roster entry name that template, and issues a token
for every scope that has no live one.  So what the peer was allowed through another template goes, and a token that is
dead vetoes what it covers, also where the scope is granted in its own right.  Where none of this happens a grant gives
what it names and takes nothing away (`grants_add_up`). -/

namespace BrowserMesh.Apps.PeerRegistry
open Js BrowserMesh.Core Primitives

section
variable (m : PeerRegistry) (p : JsString) (scopes : List JsString) (expiresAt : Option JsNumber) (now : JsNumber)

/-- Right after the grant the peer is allowed every pair that is one of the scopes. -/
def TakesEffect : Prop :=
  ∀ resource action, MeshACL.scopeOf resource action ∈ scopes →
    (m.grantCapabilities p scopes expiresAt now).checkAccess now p resource action = .ok ()

def Additive : Prop :=
  ∀ resource action, m.checkAccess now p resource action = .ok () →
    (m.grantCapabilities p scopes expiresAt now).checkAccess now p resource action = .ok ()

def ownScopes : List JsString := (m.acl.getTemplate (peerTemplate p)).getD []

/-- The entry does not name the template of the peer's own, or it has not expired. -/
def EntryCurrent : Prop :=
  ∀ entry, m.acl.getEntry p = some entry → entry.templateName = peerTemplate p → entry.isExpired now = false

/-- A dead token of a scope that is not granted covers the scope. -/
def Vetoed (scope : JsString) : Prop :=
  ∃ s token, (m.tokensOf p).get? s = some token ∧ token.dead now = true ∧ s ∉ scopes ∧ matchScope s scope = true

/-- The scope has a token that is neither revoked nor expired. -/
def HasLiveToken (scope : JsString) : Prop := ∃ token, (m.tokensOf p).get? scope = some token ∧ token.dead now = false

/-- The expiry has passed, and a scope that gets a new token covers the scope. -/
def Stillborn (scope : JsString) : Prop :=
  expiresAt.any (·.le now) = true ∧ ∃ s ∈ scopes, ¬ m.HasLiveToken p now s ∧ matchScope s scope = true

/-- When a grant gives what it names and takes nothing away. -/
structure AddsUp : Prop where
  given : ∀ resource action, MeshACL.scopeOf resource action ∈ scopes → m.EntryCurrent p now ∧
    ¬ m.Vetoed p scopes now (MeshACL.scopeOf resource action) ∧
    ¬ m.Stillborn p scopes expiresAt now (MeshACL.scopeOf resource action)
  /-- What was allowed is not vetoed, and where another template allowed it, the own one will. -/
  kept : ∀ resource action, m.checkAccess now p resource action = .ok () →
    ¬ m.Stillborn p scopes expiresAt now (MeshACL.scopeOf resource action) ∧
    ∀ entry, m.acl.getEntry p = some entry → entry.templateName ≠ peerTemplate p →
      MeshACL.covers (m.ownScopes p ++ scopes) (MeshACL.scopeOf resource action) = true

end

variable {m : PeerRegistry} {p : JsString} {scopes : List JsString} {expiresAt : Option JsNumber} {now : JsNumber}

/-! ### After a grant -/

theorem get?_issueTokens (peerTokens : JsMap JsString PeerToken) (scopes : List JsString) (expiresAt : Option JsNumber)
    (now : JsNumber) (s : JsString) :
    (issueTokens peerTokens scopes expiresAt now).get? s =
      if s ∈ scopes ∧ (peerTokens.get? s).any (fun current => !current.dead now) = false then some ⟨false, expiresAt⟩
      else peerTokens.get? s := by
  induction scopes generalizing peerTokens with
  | nil => simp [issueTokens]
  | cons scope scopes ih =>
      have hstep : ∀ s, (if (peerTokens.get? scope).any fun current => !current.dead now then peerTokens
          else peerTokens.set scope ⟨false, expiresAt⟩).get? s =
          if s = scope ∧ (peerTokens.get? s).any (fun current => !current.dead now) = false then some ⟨false, expiresAt⟩
          else peerTokens.get? s := by
        intro s
        by_cases hlive : (peerTokens.get? scope).any (fun current => !current.dead now) = true
        · rw [if_pos hlive]
          by_cases hs : s = scope
          · subst hs
            rw [if_neg (fun h => by rw [h.2] at hlive; cases hlive)]
          · rw [if_neg fun h => hs h.1]
        · rw [if_neg hlive, JsMap.get?_set]
          by_cases hs : s = scope
          · subst hs
            rw [if_pos rfl, if_pos ⟨rfl, Bool.eq_false_of_not_eq_true hlive⟩]
          · rw [if_neg hs, if_neg fun h => hs h.1]
      refine (ih _).trans ?_
      rw [hstep]
      by_cases hs : s = scope
      · subst hs
        by_cases hlive : (peerTokens.get? s).any (fun current => !current.dead now) = true
        · simp [hlive]
        · rw [Bool.not_eq_true] at hlive
          simp [hlive]
      · simp [hs]

theorem getEntry_grantCapabilities (m : PeerRegistry) (p : JsString) (scopes : List JsString)
    (expiresAt : Option JsNumber) (now : JsNumber) :
    ∃ entry, (m.grantCapabilities p scopes expiresAt now).acl.getEntry p = some entry ∧
      entry.templateName = peerTemplate p ∧ (entry.isExpired now = false ↔ m.EntryCurrent p now) := by
  obtain ⟨merged, hacl⟩ : ∃ merged, (m.grantCapabilities p scopes expiresAt now).acl =
      if ((m.acl.addTemplate (peerTemplate p) merged).getEntry p).any fun entry => entry.templateName = peerTemplate p then
        m.acl.addTemplate (peerTemplate p) merged
      else (((m.acl.addTemplate (peerTemplate p) merged).removeEntry p).addEntry p (peerTemplate p) none).1 := ⟨_, rfl⟩
  rw [hacl]
  split_ifs with hnames
  · rw [MeshACL.getEntry_addTemplate] at hnames ⊢
    obtain ⟨entry, hentry, hname⟩ := (Option.any_eq_true _ _).mp hnames
    refine ⟨entry, hentry, of_decide_eq_true hname, fun h entry' hentry' _ => ?_, fun h => ?_⟩
    · rwa [← Option.some.inj (hentry.symm.trans hentry')]
    · exact h entry hentry (of_decide_eq_true hname)
  · refine ⟨⟨peerTemplate p, none⟩, ?_, rfl, iff_of_true rfl fun entry hentry hname => ?_⟩
    · rw [MeshACL.getEntry_addEntry _ (by simp), if_pos rfl]
    · rw [MeshACL.getEntry_addTemplate, hentry] at hnames
      exact absurd (decide_eq_true hname) hnames

theorem covers_grantCapabilities (m : PeerRegistry) (p : JsString) (scopes : List JsString)
    (expiresAt : Option JsNumber) (now : JsNumber) :
    ∃ held, (m.grantCapabilities p scopes expiresAt now).acl.getTemplate (peerTemplate p) = some held ∧
      ∀ scope, MeshACL.covers held scope = MeshACL.covers (m.ownScopes p ++ scopes) scope := by
  rw [(list_grantCapabilities m p scopes expiresAt now).2.1, if_pos rfl]
  refine ⟨_, rfl, fun scope => ?_⟩
  unfold ownScopes
  cases hexisting : m.acl.getTemplate (peerTemplate p) with
  | none => rfl
  | some existing =>
      refine Bool.eq_iff_iff.mpr ?_
      simp only [MeshACL.covers, List.any_eq_true, distinct, JsSet.mem_elems, JsSet.mem_ofList, Option.getD_some]

theorem checkAccess_grantCapabilities (hp : p ≠ m.acl.owner) {resource action : JsString} :
    (m.grantCapabilities p scopes expiresAt now).checkAccess now p resource action = .ok () ↔
      m.EntryCurrent p now ∧
      MeshACL.covers (m.ownScopes p ++ scopes) (MeshACL.scopeOf resource action) = true ∧
      ¬ m.Vetoed p scopes now (MeshACL.scopeOf resource action) ∧
      ¬ m.Stillborn p scopes expiresAt now (MeshACL.scopeOf resource action) := by
  obtain ⟨entry, hentry, hname, hcurrent⟩ := getEntry_grantCapabilities m p scopes expiresAt now
  obtain ⟨held, hheld, hcovers⟩ := covers_grantCapabilities m p scopes expiresAt now
  have hlist : (m.grantCapabilities p scopes expiresAt now).acl.check now p resource action = .ok () ↔
      m.EntryCurrent p now ∧ MeshACL.covers (m.ownScopes p ++ scopes) (MeshACL.scopeOf resource action) = true := by
    rw [MeshACL.check_eq_ok, (list_grantCapabilities m p scopes expiresAt now).1, or_iff_right hp]
    constructor
    · rintro ⟨entry', held', hentry', hexpired, hheld', hcovers'⟩
      obtain rfl := Option.some.inj (hentry.symm.trans hentry')
      rw [hname, hheld] at hheld'
      obtain rfl := Option.some.inj hheld'
      exact ⟨hcurrent.mp hexpired, hcovers _ ▸ hcovers'⟩
    · rintro ⟨hentryCurrent, hcovers'⟩
      exact ⟨entry, held, hentry, hcurrent.mpr hentryCurrent, hname ▸ hheld, (hcovers _).trans hcovers'⟩
  rw [checkAccess_eq_ok, hlist, and_assoc]
  refine and_congr_right fun _ => and_congr_right fun _ => ?_
  rw [tokensOf_grantCapabilities, if_pos rfl]
  have hlive : ∀ s, ((m.tokensOf p).get? s).any (fun current => !current.dead now) = false ↔ ¬ m.HasLiveToken p now s := by
    intro s
    rw [Bool.eq_false_iff, Ne, Option.any_eq_true]
    simp only [HasLiveToken, Bool.not_eq_true']
  constructor
  · intro hall
    refine ⟨?_, ?_⟩
    · rintro ⟨s, token, htoken, hdead, hs, hmatch⟩
      have hafter := hall s token (by rw [get?_issueTokens, if_neg fun h => hs h.1, htoken]) hmatch
      cases hafter.symm.trans hdead
    · rintro ⟨hexpired, s, hs, hnone, hmatch⟩
      have hafter := hall s ⟨false, expiresAt⟩ (by rw [get?_issueTokens, if_pos ⟨hs, (hlive s).mpr hnone⟩]) hmatch
      cases hafter.symm.trans hexpired
  · rintro ⟨hvetoed, hstillborn⟩ s token htoken hmatch
    rw [get?_issueTokens] at htoken
    split_ifs at htoken with hnew
    · obtain rfl := Option.some.inj htoken
      exact Bool.eq_false_iff.mpr fun hexpired => hstillborn ⟨hexpired, s, hnew.1, (hlive s).mp hnew.2, hmatch⟩
    · refine Bool.eq_false_iff.mpr fun hdead => ?_
      by_cases hs : s ∈ scopes
      · refine hnew ⟨hs, (hlive s).mpr ?_⟩
        rintro ⟨token', htoken', halive⟩
        obtain rfl := Option.some.inj (htoken.symm.trans htoken')
        cases hdead.symm.trans halive
      · exact hvetoed ⟨s, token, htoken, hdead, hs, hmatch⟩

/-! ### Adding up -/

variable (scopes) in
/-- A non-owner is allowed nothing without an entry, and what its own template allows is neither expired nor vetoed. -/
theorem allowed_before (hp : p ≠ m.acl.owner) {resource action : JsString}
    (h : m.checkAccess now p resource action = .ok ()) :
    ∃ entry, m.acl.getEntry p = some entry ∧ entry.isExpired now = false ∧
      ¬ m.Vetoed p scopes now (MeshACL.scopeOf resource action) ∧
      (entry.templateName = peerTemplate p →
        MeshACL.covers (m.ownScopes p) (MeshACL.scopeOf resource action) = true) := by
  obtain ⟨hcheck, halive⟩ := checkAccess_eq_ok.mp h
  obtain ⟨entry, held, hentry, hexpired, hheld, hcovers⟩ := (MeshACL.check_eq_ok.mp hcheck).resolve_left hp
  refine ⟨entry, hentry, hexpired, ?_, fun hname => ?_⟩
  · rintro ⟨s, token, htoken, hdead, -, hmatch⟩
    cases hdead.symm.trans (halive s token htoken hmatch)
  · rw [hname] at hheld
    rw [ownScopes, hheld]
    exact hcovers

theorem covers_append_left {scopes : List JsString} (scopes' : List JsString) {scope : JsString}
    (h : MeshACL.covers scopes scope = true) : MeshACL.covers (scopes ++ scopes') scope = true := by
  obtain ⟨s, hs, hmatch⟩ := List.any_eq_true.mp h
  exact List.any_eq_true.mpr ⟨s, List.mem_append_left _ hs, hmatch⟩

/-- In every state, a grant to a peer that is not the owner takes effect and is additive exactly when it adds up. -/
theorem grants_add_up (m : PeerRegistry) (p : JsString) (hp : p ≠ m.acl.owner) (scopes : List JsString)
    (expiresAt : Option JsNumber) (now : JsNumber) :
    m.TakesEffect p scopes expiresAt now ∧ m.Additive p scopes expiresAt now ↔ m.AddsUp p scopes expiresAt now := by
  constructor
  · rintro ⟨heffect, hadditive⟩
    refine ⟨fun resource action hscope => ?_, fun resource action hallowed => ?_⟩
    · obtain ⟨hcurrent, -, hvetoed, hstillborn⟩ :=
        (checkAccess_grantCapabilities hp).mp (heffect resource action hscope)
      exact ⟨hcurrent, hvetoed, hstillborn⟩
    · obtain ⟨-, hcovers, -, hstillborn⟩ :=
        (checkAccess_grantCapabilities hp).mp (hadditive resource action hallowed)
      exact ⟨hstillborn, fun _ _ _ => hcovers⟩
  · intro h
    refine ⟨fun resource action hscope => ?_, fun resource action hallowed => ?_⟩
    · obtain ⟨hcurrent, hvetoed, hstillborn⟩ := h.given resource action hscope
      refine (checkAccess_grantCapabilities hp).mpr ⟨hcurrent, ?_, hvetoed, hstillborn⟩
      exact List.any_eq_true.mpr ⟨_, List.mem_append_right _ hscope, MeshACL.matchScope_self _⟩
    · obtain ⟨entry, hentry, hexpired, hvetoed, hown⟩ := allowed_before scopes hp hallowed
      obtain ⟨hstillborn, hother⟩ := h.kept resource action hallowed
      refine (checkAccess_grantCapabilities hp).mpr ⟨fun entry' hentry' _ => ?_, ?_, hvetoed, hstillborn⟩
      · rwa [← Option.some.inj (hentry.symm.trans hentry')]
      · by_cases hname : entry.templateName = peerTemplate p
        · exact covers_append_left scopes (hown hname)
        · exact hother entry hentry hname

theorem grants_add_up_bob :
    bobGranted.TakesEffect (js "bob") [js "compute:submit"] none 0 ∧
      bobGranted.Additive (js "bob") [js "compute:submit"] none 0 := by
  have hentry : bobGranted.acl.getEntry (js "bob") = some ⟨peerTemplate (js "bob"), none⟩ := by decide +kernel
  have hstillborn : ∀ scope, ¬ bobGranted.Stillborn (js "bob") [js "compute:submit"] none 0 scope := fun scope h => by
    cases h.1
  refine (grants_add_up bobGranted (js "bob") (by decide +kernel) [js "compute:submit"] none 0).mpr
    ⟨fun resource action _ => ⟨fun entry hget _ => ?_, ?_, hstillborn _⟩,
      fun resource action _ => ⟨hstillborn _, fun entry hget hname => ?_⟩⟩
  · rw [← Option.some.inj (hentry.symm.trans hget)]
    rfl
  · rintro ⟨s, token, htoken, hdead, -, -⟩
    have hall : (bobGranted.tokensOf (js "bob")).entries.all (fun e => !e.2.dead 0) = true := by decide +kernel
    have halive := List.all_eq_true.mp hall (s, token) (JsMap.mem_entries_iff.mpr htoken)
    rw [hdead] at halive
    cases halive
  · rw [← Option.some.inj (hentry.symm.trans hget)] at hname
    exact absurd rfl hname

/-- A revoked wildcard vetoes a scope that is granted afterwards, a grant to a peer of another template takes away what that
template allowed, and a grant that has expired already takes away what its scopes cover. -/
theorem grants_lose :
    (¬ ∀ (owner p : JsString) (calls : List RegistryCall) (scopes : List JsString) (now : JsNumber), p ≠ owner →
      ((new (MeshACL.new owner)).run calls).TakesEffect p scopes none now) ∧
    (¬ ∀ (owner p : JsString) (calls : List RegistryCall) (scopes : List JsString) (now : JsNumber), p ≠ owner →
      ((new (MeshACL.new owner)).run calls).Additive p scopes none now) ∧
    ¬ ∀ (owner p : JsString) (calls : List RegistryCall) (scopes : List JsString) (expiresAt now : JsNumber), p ≠ owner →
      ((new (MeshACL.new owner)).run calls).Additive p scopes (some expiresAt) now := by
  refine ⟨fun h => ?_, fun h => ?_, fun h => ?_⟩
  · have hallowed := h (js "alice") (js "bob")
      [.grantCapabilities (js "bob") [js "files:*"] none 0, .revokeCapabilities (js "bob") [js "files:*"]]
      [js "files:read"] 0 (by decide +kernel) (js "files") (js "read") (by decide +kernel)
    exact absurd hallowed (by decide +kernel)
  · have hallowed := h (js "alice") (js "bob") [.updatePermissions (js "bob") (js "admin")] [js "chat:read"] 0
      (by decide +kernel) (js "files") (js "write") (by decide +kernel)
    exact absurd hallowed (by decide +kernel)
  · have hallowed := h (js "alice") (js "bob") [.grantCapabilities (js "bob") [js "files:read"] none 0] [js "files:*"] 0 0
      (by decide +kernel) (js "files") (js "read") (by decide +kernel)
    exact absurd hallowed (by decide +kernel)

end BrowserMesh.Apps.PeerRegistry
