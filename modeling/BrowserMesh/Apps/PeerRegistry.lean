import BrowserMesh.Core.MeshAcl

/-! # The peer registry

* **Three places.**  What a peer may do is decided by its roster entry, by the template that the entry names,
  and by the tokens of the scopes that it was granted one by one.  Grants go into a template of the peer's
  own, `_peer_` with its key.
* **Revoking.**  `revokeCapabilities` takes scopes out of the peer's own template and revokes their tokens;
  the entry then names that template.  `removePeer` drops the entry and the tokens, and leaves the template.
* **Results.**  Revoking and removing narrow, revoked scopes are denied, and removal forgets, as far as the
  template that is left behind is not taken up again (`revocation_narrows`). -/

namespace BrowserMesh.Apps
open Js BrowserMesh.Core Primitives

/-- A token by what `checkAccess` reads of it. -/
structure PeerToken where
  revoked : Bool
  expiresAt : Option JsNumber
  deriving DecidableEq

/-- The token is revoked or expired. -/
def PeerToken.dead (t : PeerToken) (now : JsNumber) : Bool :=
  t.revoked || t.expiresAt.any fun expiresAt => expiresAt.le now

/-- The peers, the access control list, and for every peer its tokens by scope. -/
structure PeerRegistry where
  peers : JsSet JsString
  acl : MeshACL
  capabilityTokens : JsMap JsString (JsMap JsString PeerToken)
  deriving DecidableEq

inductive AccessDenial where
  | acl (reason : AclDenial)
  | capabilityRevoked
  deriving DecidableEq

inductive RegistryCall where
  | addPeer (pubKey : JsString) (grantedCaps : List JsString) (now : JsNumber)
  | removePeer (pubKey : JsString)
  | updatePermissions (pubKey templateName : JsString)
  | grantCapabilities (pubKey : JsString) (scopes : List JsString) (expiresAt : Option JsNumber)
      (now : JsNumber)
  | revokeCapabilities (pubKey : JsString) (scopes : List JsString)
  deriving DecidableEq

/-- The name of the template of a peer. -/
def peerTemplate (pubKey : JsString) : JsString := js "_peer_" ++ pubKey

theorem peerTemplate_inj {p q : JsString} (h : peerTemplate p = peerTemplate q) : p = q :=
  List.append_cancel_left h

namespace PeerRegistry

/-- The constructor. -/
def new (acl : MeshACL) : PeerRegistry := ⟨JsSet.empty, acl, JsMap.empty⟩

/-- `[...new Set(scopes)]`. -/
def distinct (scopes : List JsString) : List JsString := (JsSet.ofList scopes).elems

/-- The loop of `grantCapabilities` over the scopes. -/
def issueTokens (peerTokens : JsMap JsString PeerToken) (scopes : List JsString)
    (expiresAt : Option JsNumber) (now : JsNumber) : JsMap JsString PeerToken :=
  scopes.foldl (fun tokens scope =>
    if (tokens.get? scope).any fun current => !current.dead now then tokens
    else tokens.set scope ⟨false, expiresAt⟩) peerTokens

def grantCapabilities (m : PeerRegistry) (pubKey : JsString) (scopes : List JsString)
    (expiresAt : Option JsNumber) (now : JsNumber) : PeerRegistry :=
  let templateName := peerTemplate pubKey
  let merged :=
    match m.acl.getTemplate templateName with
    | some existing => distinct (existing ++ scopes)
    | none => scopes
  let acl := m.acl.addTemplate templateName merged
  let acl :=
    if (acl.getEntry pubKey).any fun entry => entry.templateName = templateName then acl
    else ((acl.removeEntry pubKey).addEntry pubKey templateName none).1
  let peerTokens := (m.capabilityTokens.get? pubKey).getD JsMap.empty
  { m with
    acl
    capabilityTokens := m.capabilityTokens.set pubKey (issueTokens peerTokens scopes expiresAt now) }

def addPeer (m : PeerRegistry) (pubKey : JsString) (grantedCaps : List JsString) (now : JsNumber) :
    PeerRegistry :=
  let m := { m with peers := m.peers.add pubKey }
  if grantedCaps.length > 0 then m.grantCapabilities pubKey grantedCaps none now else m

/-- `removePeer`, and whether the peer existed. -/
def removePeer (m : PeerRegistry) (pubKey : JsString) : PeerRegistry × Bool :=
  (⟨m.peers.delete pubKey, m.acl.revokeAll pubKey, m.capabilityTokens.delete pubKey⟩, m.peers.has pubKey)

def updatePermissions (m : PeerRegistry) (pubKey templateName : JsString) :
    PeerRegistry × Except UnknownTemplate Unit :=
  let r := (m.acl.removeEntry pubKey).addEntry pubKey templateName none
  ({ m with acl := r.1 }, r.2)

/-- The loop of `revokeCapabilities` over the scopes. -/
def revokeTokens (peerTokens : JsMap JsString PeerToken) (scopes : List JsString) :
    JsMap JsString PeerToken :=
  scopes.foldl (fun tokens scope =>
    match tokens.get? scope with
    | some token => tokens.set scope { token with revoked := true }
    | none => tokens) peerTokens

def revokeCapabilities (m : PeerRegistry) (pubKey : JsString) (scopes : List JsString) : PeerRegistry :=
  let templateName := peerTemplate pubKey
  let acl :=
    match m.acl.getTemplate templateName with
    | none => m.acl
    | some existing =>
        let remaining := existing.filter (· ∉ scopes)
        if remaining.length = 0 then (m.acl.removeEntry pubKey).removeTemplate templateName
        else (((m.acl.addTemplate templateName remaining).removeEntry pubKey).addEntry pubKey
          templateName none).1
  { m with
    acl
    capabilityTokens :=
      match m.capabilityTokens.get? pubKey with
      | some peerTokens => m.capabilityTokens.set pubKey (revokeTokens peerTokens scopes)
      | none => m.capabilityTokens }

def tokensOf (m : PeerRegistry) (pubKey : JsString) : JsMap JsString PeerToken :=
  (m.capabilityTokens.get? pubKey).getD JsMap.empty

def checkAccess (m : PeerRegistry) (now : JsNumber) (pubKey resource action : JsString) :
    Except AccessDenial Unit :=
  match m.acl.check now pubKey resource action with
  | .error reason => .error (.acl reason)
  | .ok () =>
      if (m.tokensOf pubKey).entries.any fun e =>
          matchScope e.1 (MeshACL.scopeOf resource action) && e.2.dead now then
        .error .capabilityRevoked
      else .ok ()

def exec (m : PeerRegistry) : RegistryCall → PeerRegistry
  | .addPeer pubKey grantedCaps now => m.addPeer pubKey grantedCaps now
  | .removePeer pubKey => (m.removePeer pubKey).1
  | .updatePermissions pubKey templateName => (m.updatePermissions pubKey templateName).1
  | .grantCapabilities pubKey scopes expiresAt now => m.grantCapabilities pubKey scopes expiresAt now
  | .revokeCapabilities pubKey scopes => m.revokeCapabilities pubKey scopes

def run (m : PeerRegistry) (calls : List RegistryCall) : PeerRegistry := calls.foldl exec m

/-! ### Tokens -/

theorem get?_revokeTokens (peerTokens : JsMap JsString PeerToken) (scopes : List JsString) (s : JsString) :
    (revokeTokens peerTokens scopes).get? s =
      (peerTokens.get? s).map fun t => if s ∈ scopes then { t with revoked := true } else t := by
  induction scopes generalizing peerTokens with
  | nil => simp [revokeTokens]
  | cons scope scopes ih =>
      have hstep : ∀ s, (match peerTokens.get? scope with
          | some token => peerTokens.set scope { token with revoked := true }
          | none => peerTokens).get? s =
          (peerTokens.get? s).map fun t => if s = scope then { t with revoked := true } else t := by
        intro s
        cases htoken : peerTokens.get? scope with
        | none =>
            by_cases hs : s = scope
            · simp [hs, htoken]
            · simp [hs]
        | some token =>
            by_cases hs : s = scope
            · simp [hs, htoken]
            · simp [hs]
      have htail : revokeTokens peerTokens (scope :: scopes) =
          revokeTokens (match peerTokens.get? scope with
            | some token => peerTokens.set scope { token with revoked := true }
            | none => peerTokens) scopes := rfl
      rw [htail, ih, hstep, Option.map_map]
      refine congrArg (fun f => Option.map f (peerTokens.get? s)) (funext fun t => ?_)
      by_cases hs : s = scope
      · by_cases hmem : s ∈ scopes
        · simp [hs ▸ hmem, hs]
        · simp [hs]
      · simp [hs]

/-- Issuing tokens keeps those that there are and adds those that are asked for. -/
theorem has_issueTokens (peerTokens : JsMap JsString PeerToken) (scopes : List JsString)
    (expiresAt : Option JsNumber) (now : JsNumber) {s : JsString}
    (h : peerTokens.get? s ≠ none ∨ s ∈ scopes) :
    (issueTokens peerTokens scopes expiresAt now).get? s ≠ none := by
  induction scopes generalizing peerTokens with
  | nil => exact h.resolve_right List.not_mem_nil
  | cons scope scopes ih =>
      refine ih _ ?_
      by_cases hs : s = scope
      · left
        subst hs
        dsimp only
        split_ifs with hlive
        · cases hcurrent : peerTokens.get? s with
          | none =>
              rw [hcurrent] at hlive
              cases hlive
          | some current => exact Option.some_ne_none current
        · simp
      · refine h.imp (fun hold => ?_) fun hmem => (List.mem_cons.mp hmem).resolve_left hs
        dsimp only
        split_ifs
        · exact hold
        · simpa [hs] using hold

variable {m : PeerRegistry} {p : JsString}

theorem tokensOf_set (m : PeerRegistry) (acl : MeshACL) (p q : JsString)
    (tokens : JsMap JsString PeerToken) :
    ({ m with acl, capabilityTokens := m.capabilityTokens.set q tokens } : PeerRegistry).tokensOf p =
      if p = q then tokens else m.tokensOf p := by
  simp only [tokensOf, JsMap.get?_set]
  split_ifs <;> rfl

theorem tokensOf_revokeCapabilities (m : PeerRegistry) (p q : JsString) (scopes : List JsString) :
    (m.revokeCapabilities q scopes).tokensOf p =
      if p = q then revokeTokens (m.tokensOf p) scopes else m.tokensOf p := by
  have hempty : revokeTokens JsMap.empty scopes = JsMap.empty := by
    apply JsMap.ext
    have hnone : ∀ e, e ∉ (revokeTokens JsMap.empty scopes).entries := by
      rintro ⟨s, t⟩ he
      have hget := JsMap.mem_entries_iff.mp he
      rw [get?_revokeTokens] at hget
      cases hget
    exact List.eq_nil_iff_forall_not_mem.mpr hnone
  unfold revokeCapabilities
  cases htokens : m.capabilityTokens.get? q with
  | none =>
      by_cases hpq : p = q
      · subst hpq
        rw [if_pos rfl, tokensOf, tokensOf, htokens, Option.getD_none, hempty]
      · rw [if_neg hpq]
        rfl
  | some tokens =>
      rw [tokensOf_set]
      by_cases hpq : p = q
      · subst hpq
        rw [if_pos rfl, if_pos rfl, tokensOf, htokens, Option.getD_some]
      · rw [if_neg hpq, if_neg hpq]

variable {now : JsNumber} {resource action : JsString}

/-- Access is what the list allows, unless a token that covers it is dead. -/
theorem checkAccess_eq_ok :
    m.checkAccess now p resource action = .ok () ↔
      m.acl.check now p resource action = .ok () ∧
        ∀ scope token, (m.tokensOf p).get? scope = some token →
          matchScope scope (MeshACL.scopeOf resource action) = true → token.dead now = false := by
  unfold checkAccess
  cases hcheck : m.acl.check now p resource action with
  | error reason => simp
  | ok u =>
      simp only [true_and]
      split_ifs with hdead
      · refine iff_of_false (fun hok => (by cases hok)) fun hall => ?_
        obtain ⟨⟨scope, token⟩, hmem, he⟩ := List.any_eq_true.mp hdead
        rw [Bool.and_eq_true] at he
        rw [hall scope token (JsMap.mem_entries_iff.mp hmem) he.1] at he
        cases he.2
      · refine iff_of_true rfl fun scope token hget hmatch => ?_
        by_contra halive
        refine hdead (List.any_eq_true.mpr ⟨(scope, token), JsMap.mem_entries_iff.mpr hget, ?_⟩)
        rw [hmatch, Bool.eq_true_of_not_eq_false halive]
        rfl

/-! ### What a call does to the list -/

theorem list_grantCapabilities (m : PeerRegistry) (p : JsString) (scopes : List JsString)
    (expiresAt : Option JsNumber) (now : JsNumber) :
    (m.grantCapabilities p scopes expiresAt now).acl.owner = m.acl.owner ∧
    (∀ name, (m.grantCapabilities p scopes expiresAt now).acl.getTemplate name =
      if name = peerTemplate p then
        some (match m.acl.getTemplate (peerTemplate p) with
          | some existing => distinct (existing ++ scopes)
          | none => scopes)
      else m.acl.getTemplate name) ∧
    ∀ q entry, (m.grantCapabilities p scopes expiresAt now).acl.getEntry q = some entry →
      (q = p ∧ entry.templateName = peerTemplate p) ∨ m.acl.getEntry q = some entry := by
  simp only [grantCapabilities]
  generalize (match m.acl.getTemplate (peerTemplate p) with
    | some existing => distinct (existing ++ scopes)
    | none => scopes) = merged
  split_ifs with hnames
  · refine ⟨rfl, fun name => MeshACL.getTemplate_addTemplate _ _ _ _, fun q entry hentry => Or.inr ?_⟩
    rwa [MeshACL.getEntry_addTemplate] at hentry
  · refine ⟨by rw [MeshACL.owner_addEntry]; rfl, fun name => ?_, fun q entry hentry => ?_⟩
    · rw [MeshACL.getTemplate_addEntry, MeshACL.getTemplate_removeEntry, MeshACL.getTemplate_addTemplate]
    · rw [MeshACL.getEntry_addEntry _ (by simp)] at hentry
      by_cases hq : q = p
      · rw [if_pos hq] at hentry
        obtain rfl := Option.some.inj hentry
        exact Or.inl ⟨hq, rfl⟩
      · rw [if_neg hq, MeshACL.getEntry_removeEntry, if_neg hq, MeshACL.getEntry_addTemplate] at hentry
        exact Or.inr hentry

theorem list_revokeCapabilities (m : PeerRegistry) (p : JsString) (scopes : List JsString) :
    (m.revokeCapabilities p scopes).acl.owner = m.acl.owner ∧
    (∀ name, (m.revokeCapabilities p scopes).acl.getTemplate name =
      if name = peerTemplate p then
        (m.acl.getTemplate name).bind fun existing =>
          if (existing.filter (· ∉ scopes)).length = 0 then none else some (existing.filter (· ∉ scopes))
      else m.acl.getTemplate name) ∧
    ∀ q entry, (m.revokeCapabilities p scopes).acl.getEntry q = some entry →
      (q = p ∧ entry = ⟨peerTemplate p, none⟩ ∧ m.acl.getTemplate (peerTemplate p) ≠ none) ∨
      (m.acl.getEntry q = some entry ∧ (q = p → m.acl.getTemplate (peerTemplate p) = none)) := by
  simp only [revokeCapabilities]
  cases hexisting : m.acl.getTemplate (peerTemplate p) with
  | none =>
      refine ⟨rfl, fun name => ?_, fun q entry hentry => Or.inr ⟨hentry, fun _ => rfl⟩⟩
      by_cases hname : name = peerTemplate p
      · rw [if_pos hname, hname, hexisting]
        rfl
      · rw [if_neg hname]
  | some existing =>
      simp only
      split_ifs with hlen
      · refine ⟨rfl, fun name => ?_, fun q entry hentry => Or.inr ?_⟩
        · rw [MeshACL.getTemplate_removeTemplate, MeshACL.getTemplate_removeEntry]
          by_cases hname : name = peerTemplate p
          · rw [if_pos hname, if_pos hname, hname, hexisting, Option.bind_some, if_pos hlen]
          · rw [if_neg hname, if_neg hname]
        · rw [MeshACL.getEntry_removeTemplate, MeshACL.getEntry_removeEntry] at hentry
          by_cases hq : q = p
          · rw [if_pos hq] at hentry
            cases hentry
          · rw [if_neg hq] at hentry
            exact ⟨hentry, fun h => absurd h hq⟩
      · refine ⟨by rw [MeshACL.owner_addEntry]; rfl, fun name => ?_, fun q entry hentry => ?_⟩
        · rw [MeshACL.getTemplate_addEntry, MeshACL.getTemplate_removeEntry,
            MeshACL.getTemplate_addTemplate]
          by_cases hname : name = peerTemplate p
          · rw [if_pos hname, if_pos hname, hname, hexisting, Option.bind_some, if_neg hlen]
          · rw [if_neg hname, if_neg hname]
        · rw [MeshACL.getEntry_addEntry _ (by simp)] at hentry
          by_cases hq : q = p
          · rw [if_pos hq] at hentry
            exact Or.inl ⟨hq, (Option.some.inj hentry).symm, Option.some_ne_none existing⟩
          · rw [if_neg hq, MeshACL.getEntry_removeEntry, if_neg hq, MeshACL.getEntry_addTemplate] at hentry
            exact Or.inr ⟨hentry, fun h => absurd h hq⟩

theorem list_updatePermissions (m : PeerRegistry) (p templateName : JsString) :
    (m.updatePermissions p templateName).1.acl.owner = m.acl.owner ∧
    (∀ name, (m.updatePermissions p templateName).1.acl.getTemplate name = m.acl.getTemplate name) ∧
    ∀ q entry, (m.updatePermissions p templateName).1.acl.getEntry q = some entry →
      (q = p ∧ entry.templateName = templateName) ∨ m.acl.getEntry q = some entry := by
  refine ⟨by simp [updatePermissions, MeshACL.removeEntry], fun name => by simp [updatePermissions],
    fun q entry hentry => ?_⟩
  simp only [updatePermissions] at hentry
  by_cases htemplate : (m.acl.removeEntry p).getTemplate templateName = none
  · rw [MeshACL.addEntry_of_missing htemplate, MeshACL.getEntry_removeEntry] at hentry
    split_ifs at hentry
    exact Or.inr hentry
  · rw [MeshACL.getEntry_addEntry _ htemplate, MeshACL.getEntry_removeEntry] at hentry
    split_ifs at hentry with hq
    · obtain rfl := Option.some.inj hentry
      exact Or.inl ⟨hq, rfl⟩
    · exact Or.inr hentry

/-! ### Revoking narrows -/

/-- The template of the peer, if there is one, is what its roster entry names, which does not expire. -/
def Attached (m : PeerRegistry) (p : JsString) : Prop :=
  m.acl.getTemplate (peerTemplate p) ≠ none → m.acl.getEntry p = some ⟨peerTemplate p, none⟩

variable {now' : JsNumber}

theorem dead_mono {t : PeerToken} (hnow : now.le now' = true) (h : t.dead now' = false) : t.dead now = false := by
  rw [PeerToken.dead, Bool.or_eq_false_iff] at h ⊢
  refine ⟨h.1, ?_⟩
  cases hexpires : t.expiresAt with
  | none => rfl
  | some expiresAt =>
      rw [hexpires, Option.any_some] at h
      rw [Option.any_some, Bool.eq_false_iff]
      intro hle
      rw [JsNumber.le_of_le_of_le hle hnow] at h
      cases h.2

theorem isExpired_mono {e : RosterEntry} (hnow : now.le now' = true)
    (h : e.isExpired now' = false) : e.isExpired now = false := by
  rw [RosterEntry.isExpired] at h ⊢
  cases hexpires : e.expires with
  | none => rfl
  | some expires =>
      rw [hexpires, Option.any_some] at h
      rw [Option.any_some, Bool.eq_false_iff]
      intro hle
      rw [JsNumber.le_of_le_of_le hle hnow] at h
      cases h

variable {scopes : List JsString}

theorem covers_of_filter {q : JsString → Bool} {scope : JsString}
    (h : MeshACL.covers (scopes.filter q) scope = true) : MeshACL.covers scopes scope = true := by
  obtain ⟨s, hs, hmatch⟩ := List.any_eq_true.mp h
  exact List.any_eq_true.mpr ⟨s, List.mem_of_mem_filter hs, hmatch⟩

/-- What the list allows after a revocation it allowed before. -/
theorem check_of_revokeCapabilities (h : m.Attached p) (hnow : now.le now' = true)
    (hcheck : (m.revokeCapabilities p scopes).acl.check now' p resource action = .ok ()) :
    m.acl.check now p resource action = .ok () := by
  obtain ⟨howner, htemplate, hentry⟩ := list_revokeCapabilities m p scopes
  rw [MeshACL.check_eq_ok] at hcheck ⊢
  rw [howner] at hcheck
  refine hcheck.imp id ?_
  rintro ⟨entry, held, hget, hexpired, hheld, hcovers⟩
  rw [htemplate] at hheld
  rcases hentry p entry hget with ⟨-, rfl, hexists⟩ | ⟨hsame, hnone⟩
  · rw [if_pos rfl] at hheld
    obtain ⟨existing, hexisting, hrest⟩ := Option.bind_eq_some_iff.mp hheld
    split_ifs at hrest
    obtain rfl := Option.some.inj hrest
    exact ⟨⟨peerTemplate p, none⟩, existing, h hexists, rfl, hexisting, covers_of_filter hcovers⟩
  · split_ifs at hheld with hname
    · rw [hname, hnone rfl] at hheld
      cases hheld
    · exact ⟨entry, held, hsame, isExpired_mono hnow hexpired, hheld, hcovers⟩

theorem allowed_of_revokeCapabilities (h : m.Attached p) (hnow : now.le now' = true)
    (hallowed : (m.revokeCapabilities p scopes).checkAccess now' p resource action = .ok ()) :
    m.checkAccess now p resource action = .ok () := by
  rw [checkAccess_eq_ok] at hallowed ⊢
  obtain ⟨hcheck, halive⟩ := hallowed
  refine ⟨check_of_revokeCapabilities h hnow hcheck, fun scope token hget hmatch => ?_⟩
  have hafter := halive scope (if scope ∈ scopes then { token with revoked := true } else token) (by
    rw [tokensOf_revokeCapabilities, if_pos rfl, get?_revokeTokens, hget]
    rfl) hmatch
  split_ifs at hafter
  · cases hafter
  · exact dead_mono hnow hafter

/-- A removed peer that is not the owner is denied everything. -/
theorem denied_removePeer (hp : p ≠ m.acl.owner) (now : JsNumber) (resource action : JsString) :
    (m.removePeer p).1.checkAccess now p resource action ≠ .ok () := by
  intro hallowed
  rcases MeshACL.check_eq_ok.mp (checkAccess_eq_ok.mp hallowed).1 with howner | ⟨entry, _, hentry, -⟩
  · exact hp howner
  · simp [removePeer, MeshACL.revokeAll] at hentry

/-! ### Revoked scopes are denied -/

end PeerRegistry

/-- The call gives the peer the scope. -/
def RegistryCall.Gives (p scope : JsString) : RegistryCall → Prop
  | .addPeer pubKey grantedCaps _ => pubKey = p ∧ scope ∈ grantedCaps
  | .grantCapabilities pubKey scopes _ _ => pubKey = p ∧ scope ∈ scopes
  | _ => False

/-- The call makes the entry of the peer name the template of its own, if the call changes the entry. -/
def RegistryCall.TakesUp (p : JsString) : RegistryCall → Prop
  | .addPeer pubKey grantedCaps _ => pubKey = p ∧ grantedCaps ≠ []
  | .grantCapabilities pubKey _ _ _ => pubKey = p
  | .revokeCapabilities pubKey _ => pubKey = p
  | _ => False

namespace PeerRegistry
variable {m : PeerRegistry} {p : JsString}

/-- The peer has been given the scope, and has not been removed since. -/
def GivenSinceRemoval (p scope : JsString) (calls : List RegistryCall) : Prop :=
  ∃ before call after, calls = before ++ call :: after ∧ call.Gives p scope ∧ .removePeer p ∉ after

theorem tokensOf_grantCapabilities (m : PeerRegistry) (p q : JsString) (scopes : List JsString)
    (expiresAt : Option JsNumber) (now : JsNumber) :
    (m.grantCapabilities q scopes expiresAt now).tokensOf p =
      if p = q then issueTokens (m.tokensOf q) scopes expiresAt now else m.tokensOf p :=
  tokensOf_set m _ p q _

variable {scope : JsString} {call : RegistryCall}

theorem tracked_exec (hcall : call ≠ .removePeer p)
    (h : (m.tokensOf p).get? scope ≠ none) : ((m.exec call).tokensOf p).get? scope ≠ none := by
  have hgrant : ∀ (m' : PeerRegistry) q scopes expiresAt now, (m'.tokensOf p).get? scope ≠ none →
      ((m'.grantCapabilities q scopes expiresAt now).tokensOf p).get? scope ≠ none := by
    intro m' q scopes expiresAt now h'
    rw [tokensOf_grantCapabilities]
    split_ifs with hq
    · exact has_issueTokens _ _ _ _ (Or.inl (hq ▸ h'))
    · exact h'
  cases call with
  | addPeer pubKey grantedCaps now =>
      simp only [exec, addPeer]
      split_ifs
      · exact hgrant _ _ _ _ _ h
      · exact h
  | removePeer pubKey =>
      have hne : p ≠ pubKey := fun heq => hcall (heq ▸ rfl)
      simpa [exec, removePeer, tokensOf, hne] using h
  | updatePermissions pubKey templateName => exact h
  | grantCapabilities pubKey scopes expiresAt now => exact hgrant _ _ _ _ _ h
  | revokeCapabilities pubKey scopes =>
      simp only [exec]
      rw [tokensOf_revokeCapabilities]
      split_ifs
      · rw [get?_revokeTokens]
        simpa using h
      · exact h

theorem tracked_of_gives (hcall : call.Gives p scope) :
    ((m.exec call).tokensOf p).get? scope ≠ none := by
  cases call with
  | addPeer pubKey grantedCaps now =>
      obtain ⟨rfl, hscope⟩ := hcall
      simp only [exec, addPeer]
      rw [if_pos (List.length_pos_of_mem hscope), tokensOf_grantCapabilities, if_pos rfl]
      exact has_issueTokens _ _ _ _ (Or.inr hscope)
  | grantCapabilities pubKey scopes expiresAt now =>
      obtain ⟨rfl, hscope⟩ := hcall
      simp only [exec]
      rw [tokensOf_grantCapabilities, if_pos rfl]
      exact has_issueTokens _ _ _ _ (Or.inr hscope)
  | removePeer pubKey => exact hcall.elim
  | updatePermissions pubKey templateName => exact hcall.elim
  | revokeCapabilities pubKey scopes => exact hcall.elim

variable {calls : List RegistryCall}

theorem tracked_run (hcalls : .removePeer p ∉ calls)
    (h : (m.tokensOf p).get? scope ≠ none) : ((m.run calls).tokensOf p).get? scope ≠ none := by
  induction calls generalizing m with
  | nil => exact h
  | cons call calls ih =>
      rw [List.mem_cons, not_or] at hcalls
      exact ih hcalls.2 (tracked_exec (Ne.symm hcalls.1) h)

theorem tracked_of_givenSinceRemoval
    (h : GivenSinceRemoval p scope calls) : ((m.run calls).tokensOf p).get? scope ≠ none := by
  obtain ⟨before, call, after, rfl, hgives, hafter⟩ := h
  rw [run, List.foldl_append, List.foldl_cons]
  exact tracked_run hafter (tracked_of_gives hgives)

/-- A tracked scope is denied once it is revoked. -/
theorem denied_revokeCapabilities {scopes : List JsString} {resource action : JsString}
    (h : (m.tokensOf p).get? (MeshACL.scopeOf resource action) ≠ none)
    (hscope : MeshACL.scopeOf resource action ∈ scopes) (now : JsNumber) :
    (m.revokeCapabilities p scopes).checkAccess now p resource action ≠ .ok () := by
  intro hallowed
  obtain ⟨token, htoken⟩ := Option.ne_none_iff_exists'.mp h
  have halive := (checkAccess_eq_ok.mp hallowed).2 (MeshACL.scopeOf resource action)
    { token with revoked := true } (by
      rw [tokensOf_revokeCapabilities, if_pos rfl, get?_revokeTokens, htoken, Option.map_some,
        if_pos hscope]) (MeshACL.matchScope_self _)
  cases halive

/-! ### Removal forgets -/

/-- What a removed peer can do after `calls` comes from them: a scope was given, or a template, or the
template of the peer's own that removal left behind was taken up. -/
def CoveredSince (m : PeerRegistry) (p : JsString) (calls : List RegistryCall) (scope : JsString) : Prop :=
  (∃ g, (∃ call ∈ calls, call.Gives p g) ∧ matchScope g scope = true) ∨
  (∃ entry held, ((m.removePeer p).1.run calls).acl.getEntry p = some entry ∧
    .updatePermissions p entry.templateName ∈ calls ∧
    ((m.removePeer p).1.run calls).acl.getTemplate entry.templateName = some held ∧
    MeshACL.covers held scope = true) ∨
  ((∃ call ∈ calls, call.TakesUp p) ∧
    ∃ left, m.acl.getTemplate (peerTemplate p) = some left ∧ MeshACL.covers left scope = true)

theorem owner_exec (m : PeerRegistry) (call : RegistryCall) : (m.exec call).acl.owner = m.acl.owner := by
  cases call with
  | addPeer pubKey grantedCaps now =>
      simp only [exec, addPeer]
      split_ifs
      · exact (list_grantCapabilities _ _ _ _ _).1
      · rfl
  | removePeer pubKey => rfl
  | updatePermissions pubKey templateName => exact (list_updatePermissions m pubKey templateName).1
  | grantCapabilities pubKey scopes expiresAt now => exact (list_grantCapabilities m _ _ _ _).1
  | revokeCapabilities pubKey scopes => exact (list_revokeCapabilities m pubKey scopes).1

/-- The entry of a peer is the old one, or names a template that the call gives, or that of the peer's own. -/
theorem entry_exec {entry : RosterEntry} (h : (m.exec call).acl.getEntry p = some entry) :
    m.acl.getEntry p = some entry ∨ call = .updatePermissions p entry.templateName ∨
      (entry.templateName = peerTemplate p ∧ call.TakesUp p) := by
  cases call with
  | addPeer pubKey grantedCaps now =>
      simp only [exec, addPeer] at h
      split_ifs at h with hcaps
      · rcases (list_grantCapabilities _ _ _ _ _).2.2 p entry h with ⟨rfl, hname⟩ | hold
        · exact Or.inr (Or.inr ⟨hname, rfl, List.ne_nil_of_length_pos hcaps⟩)
        · exact Or.inl hold
      · exact Or.inl h
  | removePeer pubKey =>
      refine Or.inl ?_
      simp only [exec, removePeer, MeshACL.revokeAll, MeshACL.getEntry_removeEntry] at h
      split_ifs at h
      exact h
  | updatePermissions pubKey templateName =>
      rcases (list_updatePermissions m pubKey templateName).2.2 p entry h with ⟨rfl, hname⟩ | hold
      · exact Or.inr (Or.inl (hname ▸ rfl))
      · exact Or.inl hold
  | grantCapabilities pubKey scopes expiresAt now =>
      rcases (list_grantCapabilities m pubKey scopes expiresAt now).2.2 p entry h with ⟨rfl, hname⟩ | hold
      · exact Or.inr (Or.inr ⟨hname, rfl⟩)
      · exact Or.inl hold
  | revokeCapabilities pubKey scopes =>
      rcases (list_revokeCapabilities m pubKey scopes).2.2 p entry h with ⟨rfl, rfl, -⟩ | ⟨hold, -⟩
      · exact Or.inr (Or.inr ⟨rfl, rfl⟩)
      · exact Or.inl hold

/-- A scope in the template of a peer was there before, or is given by the call. -/
theorem template_exec {held : List JsString} {g : JsString}
    (h : (m.exec call).acl.getTemplate (peerTemplate p) = some held) (hg : g ∈ held) :
    call.Gives p g ∨ ∃ old, m.acl.getTemplate (peerTemplate p) = some old ∧ g ∈ old := by
  have hgrant : ∀ (m' : PeerRegistry) q scopes expiresAt now,
      (m'.grantCapabilities q scopes expiresAt now).acl.getTemplate (peerTemplate p) = some held →
      (q = p ∧ g ∈ scopes) ∨ ∃ old, m'.acl.getTemplate (peerTemplate p) = some old ∧ g ∈ old := by
    intro m' q scopes expiresAt now h'
    rw [(list_grantCapabilities m' q scopes expiresAt now).2.1] at h'
    split_ifs at h' with hname
    · obtain rfl := peerTemplate_inj hname
      cases hexisting : m'.acl.getTemplate (peerTemplate p) with
      | none =>
          rw [hexisting] at h'
          obtain rfl := Option.some.inj h'
          exact Or.inl ⟨rfl, hg⟩
      | some existing =>
          rw [hexisting] at h'
          obtain rfl := Option.some.inj h'
          rcases List.mem_append.mp (JsSet.mem_ofList.mp hg) with hold | hnew
          · exact Or.inr ⟨existing, rfl, hold⟩
          · exact Or.inl ⟨rfl, hnew⟩
    · exact Or.inr ⟨held, h', hg⟩
  cases call with
  | addPeer pubKey grantedCaps now =>
      simp only [exec, addPeer] at h
      split_ifs at h
      · exact hgrant _ _ _ none now h
      · exact Or.inr ⟨held, h, hg⟩
  | removePeer pubKey => exact Or.inr ⟨held, h, hg⟩
  | updatePermissions pubKey templateName =>
      exact Or.inr ⟨held, (list_updatePermissions m pubKey templateName).2.1 _ ▸ h, hg⟩
  | grantCapabilities pubKey scopes expiresAt now => exact hgrant _ _ _ expiresAt now h
  | revokeCapabilities pubKey scopes =>
      simp only [exec] at h
      rw [(list_revokeCapabilities m pubKey scopes).2.1] at h
      split_ifs at h
      · obtain ⟨existing, hexisting, hrest⟩ := Option.bind_eq_some_iff.mp h
        split_ifs at hrest
        obtain rfl := Option.some.inj hrest
        exact Or.inr ⟨existing, hexisting, List.mem_of_mem_filter hg⟩
      · exact Or.inr ⟨held, h, hg⟩

theorem run_concat (m : PeerRegistry) (calls : List RegistryCall) (call : RegistryCall) :
    m.run (calls ++ [call]) = (m.run calls).exec call := List.foldl_concat _ _ _ _

theorem owner_run (m : PeerRegistry) (calls : List RegistryCall) : (m.run calls).acl.owner = m.acl.owner := by
  induction calls using List.reverseRecOn with
  | nil => rfl
  | append_singleton calls call ih => rw [run_concat, owner_exec, ih]

theorem entry_run {entry : RosterEntry} (h : (m.run calls).acl.getEntry p = some entry) :
    m.acl.getEntry p = some entry ∨ .updatePermissions p entry.templateName ∈ calls ∨
      (entry.templateName = peerTemplate p ∧ ∃ call ∈ calls, call.TakesUp p) := by
  induction calls using List.reverseRecOn with
  | nil => exact Or.inl h
  | append_singleton calls call ih =>
      rw [run_concat] at h
      rcases entry_exec h with hold | rfl | ⟨hname, htakes⟩
      · rcases ih hold with hfirst | hgiven | ⟨hname, call', hcall', htakes⟩
        · exact Or.inl hfirst
        · exact Or.inr (Or.inl (List.mem_append_left _ hgiven))
        · exact Or.inr (Or.inr ⟨hname, call', List.mem_append_left _ hcall', htakes⟩)
      · exact Or.inr (Or.inl (by simp))
      · exact Or.inr (Or.inr ⟨hname, call, by simp, htakes⟩)

theorem template_run {held : List JsString} {g : JsString}
    (h : (m.run calls).acl.getTemplate (peerTemplate p) = some held) (hg : g ∈ held) :
    (∃ call ∈ calls, call.Gives p g) ∨ ∃ old, m.acl.getTemplate (peerTemplate p) = some old ∧ g ∈ old := by
  induction calls using List.reverseRecOn generalizing held with
  | nil => exact Or.inr ⟨held, h, hg⟩
  | append_singleton calls call ih =>
      rw [run_concat] at h
      rcases template_exec h hg with hgives | ⟨old, hold, hmem⟩
      · exact Or.inl ⟨call, by simp, hgives⟩
      · refine (ih hold hmem).imp_left ?_
        rintro ⟨call', hcall', hgives⟩
        exact ⟨call', List.mem_append_left _ hcall', hgives⟩

/-- What a removed peer is allowed again was given to it after the removal. -/
theorem coveredSince_of_allowed (hp : p ≠ m.acl.owner) {now : JsNumber} {resource action : JsString}
    (hallowed : ((m.removePeer p).1.run calls).checkAccess now p resource action = .ok ()) :
    m.CoveredSince p calls (MeshACL.scopeOf resource action) := by
  rcases MeshACL.check_eq_ok.mp (checkAccess_eq_ok.mp hallowed).1 with
    howner | ⟨entry, held, hentry, -, hheld, hcovers⟩
  · rw [owner_run] at howner
    exact absurd howner hp
  rcases entry_run hentry with hfirst | hgiven | ⟨hname, htakes⟩
  · simp [removePeer, MeshACL.revokeAll] at hfirst
  · exact Or.inr (Or.inl ⟨entry, held, hentry, hgiven, hheld, hcovers⟩)
  · obtain ⟨g, hg, hmatch⟩ := List.any_eq_true.mp hcovers
    rw [hname] at hheld
    rcases template_run hheld hg with hgives | ⟨left, hleft, hmem⟩
    · exact Or.inl ⟨g, hgives, hmatch⟩
    · exact Or.inr (Or.inr ⟨htakes, left, hleft, List.any_eq_true.mpr ⟨g, hmem, hmatch⟩⟩)

/-- **Revocation narrows.**  In every state, revoking allows a peer nothing that was denied, if the template
of the peer's own is what its entry names, without an end; a removed peer is denied everything; what a peer was given
since its last removal is denied once it is revoked; and what a removed peer is allowed again was given
after the removal, or is in the template that was left behind and has been taken up. -/
theorem revocation_narrows (m : PeerRegistry) (p : JsString) :
    (∀ scopes now now' resource action, m.Attached p → now.le now' = true →
      (m.revokeCapabilities p scopes).checkAccess now' p resource action = .ok () →
      m.checkAccess now p resource action = .ok ()) ∧
    (∀ now resource action, p ≠ m.acl.owner →
      (m.removePeer p).1.checkAccess now p resource action ≠ .ok ()) ∧
    (∀ calls scopes now resource action, MeshACL.scopeOf resource action ∈ scopes →
      GivenSinceRemoval p (MeshACL.scopeOf resource action) calls →
      ((m.run calls).revokeCapabilities p scopes).checkAccess now p resource action ≠ .ok ()) ∧
    ∀ calls now resource action, p ≠ m.acl.owner →
      ((m.removePeer p).1.run calls).checkAccess now p resource action = .ok () →
      m.CoveredSince p calls (MeshACL.scopeOf resource action) := by
  refine ⟨fun scopes now now' resource action hattached hnow => ?_, fun now resource action hp => ?_,
    fun calls scopes now resource action hscope hgiven => ?_, fun calls now resource action hp => ?_⟩
  · exact allowed_of_revokeCapabilities hattached hnow
  · exact denied_removePeer hp now resource action
  · exact denied_revokeCapabilities (tracked_of_givenSinceRemoval hgiven) hscope now
  · exact coveredSince_of_allowed hp

/-- Bob is given two scopes on the list of Alice. -/
def bobGranted : PeerRegistry :=
  (new (MeshACL.new (js "alice"))).run [.grantCapabilities (js "bob") [js "files:read", js "chat:read"] none 0]

theorem revocation_narrows_bob :
    bobGranted.checkAccess 0 (js "bob") (js "chat") (js "read") = .ok () ∧
    (bobGranted.removePeer (js "bob")).1.checkAccess 0 (js "bob") (js "chat") (js "read") ≠ .ok () ∧
    (bobGranted.revokeCapabilities (js "bob") [js "files:read"]).checkAccess 0 (js "bob") (js "files")
      (js "read") ≠ .ok () ∧
    bobGranted.CoveredSince (js "bob") [.grantCapabilities (js "bob") [js "files:*"] none 0]
      (MeshACL.scopeOf (js "files") (js "read")) :=
  ⟨(revocation_narrows bobGranted (js "bob")).1 [js "files:read"] 0 0 (js "chat") (js "read")
      (fun _ => by decide +kernel) (by decide +kernel) (by decide +kernel),
    (revocation_narrows bobGranted (js "bob")).2.1 0 (js "chat") (js "read") (by decide +kernel),
    (revocation_narrows (new (MeshACL.new (js "alice"))) (js "bob")).2.2.1
      [.grantCapabilities (js "bob") [js "files:read", js "chat:read"] none 0] [js "files:read"] 0
      (js "files") (js "read") (by decide +kernel)
      ⟨[], _, [], rfl, ⟨rfl, by decide +kernel⟩, List.not_mem_nil⟩,
    (revocation_narrows bobGranted (js "bob")).2.2.2
      [.grantCapabilities (js "bob") [js "files:*"] none 0] 0 (js "files") (js "read") (by decide +kernel)
      (by decide +kernel)⟩

/-- A scope is revoked by its text: a wildcard that covers it stays. -/
theorem wildcard_outlives_revocation : ¬ ∀ (owner p : JsString) (calls : List RegistryCall)
    (scopes : List JsString) (now : JsNumber) (resource action : JsString), p ≠ owner →
    MeshACL.scopeOf resource action ∈ scopes →
    (((new (MeshACL.new owner)).run calls).revokeCapabilities p scopes).checkAccess now p resource action ≠
      .ok () := by
  intro h
  refine h (js "alice") (js "bob") [.grantCapabilities (js "bob") [js "files:*"] none 0] [js "files:read"] 0
    (js "files") (js "read") ?_ ?_ ?_
  · decide +kernel
  · decide +kernel
  · decide +kernel

end PeerRegistry
end BrowserMesh.Apps
