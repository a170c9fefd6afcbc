import Mathlib.Data.List.Chain
import BrowserMesh.Core.Capabilities

/-! # Narrowing along a chain of capability tokens

A pair of tokens `Narrows` when the parent would not have refused to derive the child.  `attenuate`
establishes every rule of it (`narrows_of_attenuate`); `verify` checks some of them, and which ones is
exactly `PairOk` (`verify_ok_iff`).  What a token grants is the set of its requests (`grants`); a chain
is sound when the grants shrink along it, and this is compared with the two matching functions
`resourceCovers` and `resourceMatches`. -/

namespace BrowserMesh.Core

open Js

/-! ### The rules of a delegation -/

/-- The child's limit is no greater than the parent's, an absent limit being the greatest. -/
def Limit.Within (parent child : Limit) : Prop :=
  parent.exceeds child = false ∧ (child = none → parent = none)

/-- The parent would not have refused to derive the child. -/
structure Narrows (parent child : CapabilityToken) : Prop where
  canDelegate : parent.canDelegate = true
  permissions : child.permissions.1 ⊆ parent.permissions.1
  resource : resourceCovers parent.resource child.resource = true
  expiry : parent.expiresAt.Within child.expiresAt
  maxDepth : parent.maxDepth.Within child.maxDepth
  maxCalls : parent.constraints.raisesMaxCalls child.constraints = false

/-- The checks of `verify` on a pair. -/
structure PairOk (prev token : CapabilityToken) : Prop where
  parentId : token.parentId = some prev.id.1
  depth : token.depth.eq (prev.depth.add (.ofNat 1)) = true
  permissions : token.permissions.1 ⊆ prev.permissions.1
  resource : resourceCovers prev.resource token.resource = true
  expiry : expiryNarrows prev.expiresAt token.expiresAt = true

/-- The rules of a delegation that `verify` leaves out. -/
structure Unchecked (parent child : CapabilityToken) : Prop where
  canDelegate : parent.canDelegate = true
  maxDepth : parent.maxDepth.Within child.maxDepth
  maxCalls : parent.constraints.raisesMaxCalls child.constraints = false

theorem find?_not_hasPermission (t : CapabilityToken) (l : List JsString) :
    l.find? (fun p => !t.hasPermission p) = none ↔ l ⊆ t.permissions.1 := by
  simp [List.find?_eq_none, CapabilityToken.hasPermission, List.subset_def]

/-! ### attenuate -/

namespace CapabilityToken

/-- The fields of a token the constructor accepts. -/
theorem construct_ok {id issuer : NonEmptyString} {holder resource : JsString}
    {permissions : List JsString} {constraints : Constraints} {parentId : Option JsString}
    {expiresAt maxDepth : Limit} {depth : JsNumber} {c : CapabilityToken}
    (h : construct id issuer holder resource permissions constraints parentId expiresAt depth maxDepth
      = .ok c) :
    c.resource.1 = resource ∧ c.permissions.1 = permissions ∧ c.constraints = constraints ∧
      c.parentId = parentId ∧ c.expiresAt = expiresAt ∧ c.depth = depth ∧ c.maxDepth = maxDepth := by
  unfold construct at h
  split at h
  · cases h
  · split at h
    · cases h
    · split at h
      · cases h
      · cases h
        exact ⟨rfl, rfl, rfl, rfl, rfl, rfl, rfl⟩

/-- A child that `attenuate` returns keeps every rule of a delegation and is linked to its parent. -/
theorem narrows_of_attenuate {t c : CapabilityToken} {now : JsNumber} {childId : NonEmptyString}
    {opts : AttenuateOptions} (h : t.attenuate now childId opts = .ok c) :
    Narrows t c ∧ c.parentId = some t.id.1 ∧ c.depth = t.depth.add (.ofNat 1) := by
  unfold attenuate at h
  simp only at h
  generalize (if opts.resource = [] then t.resource.1 else opts.resource) = childResource at h
  split at h
  · cases h
  rename_i hdel
  split at h
  · cases h
  split at h
  · cases h
  rename_i hperm
  split at h
  · cases h
  rename_i hres
  split at h
  · cases h
  rename_i hexp
  split at h
  · cases h
  rename_i hmax
  split at h
  · cases h
  rename_i hcalls
  rw [find?_not_hasPermission] at hperm
  cases hc : construct childId t.holder opts.holder childResource
      (opts.permissions.getD t.permissions.1) (t.constraints.merge (opts.constraints.getD JsObject.empty))
      t.id.1 (opts.expiresAt.or t.expiresAt) (t.depth.add (.ofNat 1)) (opts.maxDepth.or t.maxDepth) with
  | error e =>
      rw [hc] at h
      cases h
  | ok c' =>
      rw [hc] at h
      cases h
      obtain ⟨hr, hp, hcs, hpid, he, hd, hm⟩ := construct_ok hc
      refine ⟨⟨by simpa using hdel, ?_, ?_, ?_, ?_, ?_⟩, hpid, hd⟩
      · rw [hp]
        exact hperm
      · rw [hr]
        simpa using hres
      · rw [he]
        exact ⟨by simpa using hexp, fun h => (Option.or_eq_none_iff.mp h).2⟩
      · rw [hm]
        exact ⟨by simpa using hmax, fun h => (Option.or_eq_none_iff.mp h).2⟩
      · rw [hcs]
        simpa using hcalls

end CapabilityToken

/-! ### verify -/

theorem checkPair_ok_iff {i : ℕ} {prev token : CapabilityToken} :
    checkPair i prev token = .ok () ↔ PairOk prev token := by
  constructor
  · intro h
    unfold checkPair at h
    split at h
    · cases h
    rename_i hid
    split at h
    · cases h
    rename_i hd
    split at h
    · cases h
    rename_i hp
    split at h
    · cases h
    rename_i hr
    split at h
    · cases h
    rename_i he
    exact ⟨by simpa using hid, by simpa using hd, (find?_not_hasPermission _ _).mp hp, by simpa using hr,
      by simpa using he⟩
  · rintro ⟨hid, hd, hp, hr, he⟩
    unfold checkPair
    rw [(find?_not_hasPermission _ _).mpr hp]
    simp [hid, hd, hr, he]

variable {now : JsNumber}

theorem verifyLoop_ok_iff {checkValidity : Bool} (i : ℕ) (prev : Option CapabilityToken)
    (tokens : List CapabilityToken) :
    verifyLoop checkValidity now i prev tokens = .ok () ↔
      (∀ t ∈ tokens, checkValidity = true → t.isValid now = true) ∧
        (prev.toList ++ tokens).IsChain PairOk := by
  induction tokens generalizing i prev with
  | nil => cases prev <;> simp [verifyLoop]
  | cons token tokens ih =>
      have hvalid : (checkValidity && !token.isValid now) = false ↔
          (checkValidity = true → token.isValid now = true) := by
        cases checkValidity <;> simp
      unfold verifyLoop
      split
      · rename_i hbad
        simp only [reduceCtorEq, false_iff, not_and]
        intro hall
        rw [hvalid.mpr (hall token List.mem_cons_self)] at hbad
        cases hbad
      · rename_i hok
        have hok' := hvalid.mp (by simpa using hok)
        have hall : (∀ t ∈ token :: tokens, checkValidity = true → t.isValid now = true) ↔
            ∀ t ∈ tokens, checkValidity = true → t.isValid now = true :=
          List.forall_mem_cons.trans (and_iff_right hok')
        cases prev with
        | none => exact (ih (i + 1) (some token)).trans (and_congr_left' hall.symm)
        | some prev =>
            simp only [Option.toList_some, List.cons_append, List.nil_append, List.isChain_cons_cons]
            cases hpair : checkPair i prev token with
            | error e =>
                refine iff_of_false (by simp) fun h => ?_
                rw [checkPair_ok_iff.mpr h.2.1] at hpair
                cases hpair
            | ok u =>
                dsimp only
                rw [ih, hall, and_iff_right (checkPair_ok_iff.mp hpair)]
                rfl

theorem verify_ok_iff {checkValidity : Bool} {tokens : List CapabilityToken} :
    verify checkValidity now tokens = .ok () ↔
      (∃ root rest, tokens = root :: rest ∧ root.parentId = none) ∧
        (∀ t ∈ tokens, checkValidity = true → t.isValid now = true) ∧ tokens.IsChain PairOk := by
  cases tokens with
  | nil => simp [verify]
  | cons root rest =>
      simp only [verify]
      by_cases hroot : root.parentId = none
      · simp [hroot, verifyLoop_ok_iff]
      · simp [hroot]

theorem Limit.within_of_narrows {parent child : Limit} (h : expiryNarrows parent child = true) :
    parent.Within child := by
  cases parent with
  | none => exact ⟨rfl, fun _ => rfl⟩
  | some p =>
      cases child with
      | none => cases h
      | some c => exact ⟨JsNumber.lt_eq_false_of_le h, fun hc => nomatch hc⟩

/-- What `verify` checks of a pair and what it leaves out make up the rules of a delegation. -/
theorem PairOk.narrows_iff {prev token : CapabilityToken} (h : PairOk prev token) :
    Narrows prev token ↔ Unchecked prev token :=
  ⟨fun hn => ⟨hn.canDelegate, hn.maxDepth, hn.maxCalls⟩,
    fun hu => ⟨hu.canDelegate, h.permissions, h.resource, Limit.within_of_narrows h.expiry, hu.maxDepth,
      hu.maxCalls⟩⟩

/-! ### The rules that verify leaves out -/

/-- **In a chain that `verify` accepts, every delegation is one the parent would not have refused if and
only if the three rules it leaves out hold.** -/
theorem verify_narrows_iff {now : JsNumber} {tokens : List CapabilityToken}
    (h : verify true now tokens = .ok ()) : tokens.IsChain Narrows ↔ tokens.IsChain Unchecked := by
  obtain ⟨-, -, hpairs⟩ := verify_ok_iff.mp h
  constructor
  · intro hn
    exact hn.imp fun _ _ hn => ⟨hn.canDelegate, hn.maxDepth, hn.maxCalls⟩
  · intro hu
    rw [List.isChain_iff_forall_rel_of_append_cons_cons] at hpairs hu ⊢
    intro parent child before after hsplit
    exact (hpairs hsplit).narrows_iff.mpr (hu hsplit)

/-- A root token of depth 0 that may be delegated `maxDepth` times. -/
def rootToken (resource : NonEmptyString) (constraints : Constraints) (maxDepth : Limit) :
    CapabilityToken where
  id := ⟨js "root", by decide⟩
  issuer := ⟨js "alice", by decide⟩
  holder := ⟨js "bob", by decide⟩
  resource := resource
  permissions := ⟨[js "read"], by decide⟩
  constraints := constraints
  parentId := none
  expiresAt := some (.ofNat 10)
  revoked := false
  depth := 0
  maxDepth := maxDepth

/-- A child of `rootToken` as it may come over the wire. -/
def childToken (resource : NonEmptyString) : CapabilityToken :=
  { rootToken resource ⟨JsMap.empty⟩ none with
    id := ⟨js "child", by decide⟩
    issuer := ⟨js "bob", by decide⟩
    holder := ⟨js "carol", by decide⟩
    parentId := some (js "root")
    depth := .ofNat 1 }

def fsData : NonEmptyString := ⟨js "fs:/data", by decide⟩

def fsDataX : NonEmptyString := ⟨js "fs:/data/x", by decide⟩

def oneCall : Constraints := ⟨JsMap.ofEntries [(js "maxCalls", .num (.ofNat 1))]⟩

theorem verify_narrows_iff_delegable :
    [rootToken fsData JsObject.empty none, childToken fsData].IsChain Narrows :=
  (verify_narrows_iff (show verify true 0 _ = .ok () by decide +kernel)).mpr
    (List.isChain_pair.mpr ⟨by decide +kernel, ⟨by decide +kernel, by decide⟩, by decide +kernel⟩)

/-- A root that may not delegate and allows one call: `verify` accepts a child that may delegate without
end and call without end. -/
theorem verify_accepts_amplified_child :
    verify true 0 [rootToken fsData oneCall (some 0), childToken fsData] = .ok () ∧
      ¬ (rootToken fsData oneCall (some 0)).canDelegate = true ∧
      ¬ (rootToken fsData oneCall (some 0)).maxDepth.Within (childToken fsData).maxDepth ∧
      (rootToken fsData oneCall (some 0)).constraints.raisesMaxCalls (childToken fsData).constraints = true ∧
      ¬ ∀ (now : JsNumber) (tokens : List CapabilityToken),
        verify true now tokens = .ok () → tokens.IsChain Narrows := by
  have hver : verify true 0 [rootToken fsData oneCall (some 0), childToken fsData] = .ok () := by
    decide +kernel
  refine ⟨hver, by decide +kernel, fun h => (by cases h.2 rfl), by decide +kernel, fun h => ?_⟩
  have hn := (List.isChain_pair.mp (h 0 _ hver)).canDelegate
  exact absurd hn (by decide +kernel)

/-! ### Which resources a pattern matches -/

theorem resourceMatches_iff {pattern target : JsString} :
    resourceMatches pattern target = true ↔
      pattern = target ∨ (endsWithStar pattern = true ∧ pattern.dropLast <+: target) := by
  unfold resourceMatches
  by_cases heq : pattern = target
  · simp [heq]
  · by_cases hstar : pattern = [star]
    · simp [hstar, endsWithStar]
    · cases hends : endsWithStar pattern <;> simp [heq, hstar]

/-- Everything the child's pattern matches extends what the parent's pattern asks for. -/
def ResourceWithin (parent child : JsString) : Prop :=
  parent = child ∨
    (endsWithStar parent = true ∧
      parent.dropLast <+: if endsWithStar child = true then child.dropLast else child)

instance (parent child : JsString) : Decidable (ResourceWithin parent child) :=
  inferInstanceAs (Decidable (_ ∨ _))

theorem matches_subset_iff {parent child : JsString} :
    (∀ r, resourceMatches child r = true → resourceMatches parent r = true) ↔
      ResourceWithin parent child := by
  simp only [resourceMatches_iff]
  constructor
  · intro h
    by_cases hc : endsWithStar child = true
    · -- the shortest resource the child matches
      have hshort := h child.dropLast (Or.inr ⟨hc, List.prefix_rfl⟩)
      have hself := h child (Or.inl rfl)
      rw [ResourceWithin, if_pos hc]
      rcases hshort with heq | hpre
      · rcases hself with hsame | hstar
        · exact Or.inl hsame
        · exact Or.inr ⟨hstar.1, heq ▸ List.dropLast_prefix parent⟩
      · exact Or.inr hpre
    · rw [ResourceWithin, if_neg hc]
      exact h child (Or.inl rfl)
  · rintro (rfl | ⟨hp, hpre⟩) r hr
    · exact hr
    · refine Or.inr ⟨hp, hpre.trans ?_⟩
      rcases hr with rfl | ⟨hc, hr⟩
      · split
        · exact List.dropLast_prefix child
        · exact List.prefix_rfl
      · rw [if_pos hc]
        exact hr

/-! ### What a token grants -/

namespace CapabilityToken

/-- The requests, a resource and a permission, that the token answers for. -/
def grants (t : CapabilityToken) : Set (JsString × JsString) :=
  {q | t.callsExhausted = false ∧ q.2 ∈ t.permissions.1 ∧ resourceMatches t.resource q.1 = true}

theorem grants_subset_iff {leaf a : CapabilityToken} (hp : leaf.permissions.1 ⊆ a.permissions.1) :
    leaf.grants ⊆ a.grants ↔
      leaf.callsExhausted = true ∨
        (a.callsExhausted = false ∧ ResourceWithin a.resource.1 leaf.resource.1) := by
  constructor
  · intro h
    by_cases hcalls : leaf.callsExhausted = true
    · exact Or.inl hcalls
    · obtain ⟨perm, hperm⟩ := List.exists_mem_of_ne_nil _ leaf.permissions.2
      have hgrant : ∀ r, resourceMatches leaf.resource r = true → (r, perm) ∈ a.grants :=
        fun r hr => h ⟨by simpa using hcalls, hperm, hr⟩
      refine Or.inr ⟨?_, matches_subset_iff.mp fun r hr => (hgrant r hr).2.2⟩
      exact (hgrant leaf.resource (resourceMatches_iff.mpr (Or.inl rfl))).1
  · rintro (hcalls | ⟨hcalls, hwithin⟩) q ⟨hq, hperm, hres⟩
    · rw [hcalls] at hq
      cases hq
    · exact ⟨hcalls, hp hperm, matches_subset_iff.mpr hwithin _ hres⟩

end CapabilityToken

/-- The token is registered under its identifier, and neither revoked nor expired. -/
structure CapabilityValidator.Usable (v : CapabilityValidator) (now : JsNumber) (t : CapabilityToken) :
    Prop where
  registered : v.tokens.get? t.id.1 = some t
  unrevoked : t.id.1 ∉ v.revokedIds
  unexpired : t.isExpired now = false

theorem CapabilityValidator.Usable.validate_iff {v : CapabilityValidator}
    {t : CapabilityToken} (h : v.Usable now t) (r p : JsString) :
    v.validate now t.id.1 r p = none ↔ (r, p) ∈ t.grants := by
  have hrevoked : v.revokedIds.has t.id.1 = false := by
    rw [← Bool.not_eq_true, JsSet.has_iff]
    exact h.unrevoked
  unfold CapabilityValidator.validate
  simp only [h.registered, hrevoked, h.unexpired, Bool.false_eq_true, if_false]
  simp only [CapabilityToken.grants, CapabilityToken.hasPermission, Set.mem_ofPred_eq]
  by_cases hp : p ∈ t.permissions.1
  · cases hr : resourceMatches t.resource r <;> cases hc : t.callsExhausted <;> simp [hp]
  · simp [hp]

/-! ### Chains -/

/-- The child is a result of `attenuate`. -/
def Attenuated (parent child : CapabilityToken) : Prop :=
  ∃ now childId opts, parent.attenuate now childId opts = .ok child

/-- The chain was derived by `attenuate`, or it arrived and `verify` accepted it. -/
def Obtained (tokens : List CapabilityToken) : Prop :=
  tokens.IsChain Attenuated ∨ ∃ checkValidity now, verify checkValidity now tokens = .ok ()

theorem Obtained.permissions_subset {chain : List CapabilityToken} {leaf : CapabilityToken}
    (h : Obtained (chain ++ [leaf])) {a : CapabilityToken} (ha : a ∈ chain) :
    leaf.permissions.1 ⊆ a.permissions.1 := by
  let Sub : CapabilityToken → CapabilityToken → Prop := fun p c => c.permissions.1 ⊆ p.permissions.1
  have : IsTrans CapabilityToken Sub := ⟨fun _ _ _ hab hbc => List.Subset.trans hbc hab⟩
  have hchain : (chain ++ [leaf]).IsChain Sub := by
    rcases h with hatt | ⟨_, _, hver⟩
    · refine hatt.imp ?_
      rintro p c ⟨_, _, _, hc⟩
      exact (CapabilityToken.narrows_of_attenuate hc).1.permissions
    · exact (verify_ok_iff.mp hver).2.2.imp fun _ _ hpair => hpair.permissions
  have hpairs := List.isChain_iff_pairwise.mp hchain
  exact (List.pairwise_append.mp hpairs).2.2 a ha leaf (List.mem_singleton_self leaf)

/-- **The requests allowed for the leaf of a chain are allowed for every ancestor if and only if the
leaf's calls are used up, or no ancestor's are and the leaf's resource stays within each ancestor's by
the matching of the validator.** -/
theorem attenuation_sound_iff {chain : List CapabilityToken} {leaf : CapabilityToken}
    (hc : Obtained (chain ++ [leaf])) {v : CapabilityValidator} {now : JsNumber}
    (hu : ∀ t ∈ chain ++ [leaf], v.Usable now t) :
    (∀ r p, v.validate now leaf.id.1 r p = none → ∀ a ∈ chain, v.validate now a.id.1 r p = none) ↔
      leaf.callsExhausted = true ∨
        ∀ a ∈ chain, a.callsExhausted = false ∧ ResourceWithin a.resource.1 leaf.resource.1 := by
  have hleaf : v.Usable now leaf := hu leaf (by simp)
  have hanc : ∀ a ∈ chain, v.Usable now a := fun a ha => hu a (by simp [ha])
  have hallowed : (∀ r p, v.validate now leaf.id.1 r p = none →
        ∀ a ∈ chain, v.validate now a.id.1 r p = none) ↔ ∀ a ∈ chain, leaf.grants ⊆ a.grants := by
    constructor
    · intro h a ha q hq
      exact ((hanc a ha).validate_iff q.1 q.2).mp (h q.1 q.2 ((hleaf.validate_iff q.1 q.2).mpr hq) a ha)
    · intro h r p hr a ha
      exact ((hanc a ha).validate_iff r p).mpr (h a ha ((hleaf.validate_iff r p).mp hr))
  have hgrants : ∀ a ∈ chain, (leaf.grants ⊆ a.grants ↔ leaf.callsExhausted = true ∨
      (a.callsExhausted = false ∧ ResourceWithin a.resource.1 leaf.resource.1)) :=
    fun a ha => CapabilityToken.grants_subset_iff (hc.permissions_subset ha)
  rw [hallowed, forall₂_congr hgrants]
  by_cases hcalls : leaf.callsExhausted = true <;> simp [hcalls]

/-- What `attenuate` is asked for when the child is on `resource`. -/
def attenuateOptions (resource : JsString) : AttenuateOptions where
  holder := js "carol"
  permissions := none
  resource := resource
  constraints := none
  expiresAt := none
  maxDepth := none

def twoTokens (parent child : CapabilityToken) : CapabilityValidator :=
  (CapabilityValidator.new.register parent).register child

def fsStar : NonEmptyString := ⟨js "fs:/*", by decide⟩

theorem attenuation_sound_iff_wildcard :
    let parent := rootToken fsStar JsObject.empty none
    let child := childToken fsDataX
    ∀ r p, (twoTokens parent child).validate 0 child.id.1 r p = none →
      ∀ a ∈ [parent], (twoTokens parent child).validate 0 a.id.1 r p = none := by
  intro parent child
  have hver : verify true 0 ([parent] ++ [child]) = .ok () := by decide +kernel
  refine (attenuation_sound_iff (Or.inr ⟨true, 0, hver⟩) ?_).mpr (by decide +kernel)
  intro t ht
  rw [List.singleton_append, List.mem_pair] at ht
  rcases ht with rfl | rfl
  · exact ⟨by decide +kernel, by decide +kernel, by decide +kernel⟩
  · exact ⟨by decide +kernel, by decide +kernel, by decide +kernel⟩

/-- A token on `fs:/data` delegates `fs:/data/x` by whole segments; the validator, which knows no
segments, then allows the child what it denies the parent. -/
theorem attenuation_amplifies_literal_resource :
    ¬ ∀ (chain : List CapabilityToken) (leaf : CapabilityToken) (v : CapabilityValidator) (now : JsNumber),
      Obtained (chain ++ [leaf]) → (∀ t ∈ chain ++ [leaf], v.Usable now t) →
      ∀ r p, v.validate now leaf.id.1 r p = none → ∀ a ∈ chain, v.validate now a.id.1 r p = none := by
  intro h
  let parent := rootToken fsData JsObject.empty none
  let child := childToken fsDataX
  have hatt : parent.attenuate 0 ⟨js "child", by decide⟩ (attenuateOptions fsDataX.1) = .ok child := by
    decide +kernel
  have hobt : Obtained ([parent] ++ [child]) := Or.inl (List.isChain_pair.mpr ⟨_, _, _, hatt⟩)
  have husable : ∀ t ∈ [parent] ++ [child], (twoTokens parent child).Usable 0 t := by
    intro t ht
    rw [List.singleton_append, List.mem_pair] at ht
    rcases ht with rfl | rfl
    · exact ⟨by decide +kernel, by decide +kernel, by decide +kernel⟩
    · exact ⟨by decide +kernel, by decide +kernel, by decide +kernel⟩
  have hleaf : (twoTokens parent child).validate 0 child.id.1 (js "fs:/data/x") (js "read") = none := by
    decide +kernel
  have hroot := h [parent] child (twoTokens parent child) 0 hobt husable _ _ hleaf parent
    (List.mem_singleton_self parent)
  exact absurd hroot (by decide +kernel)

end BrowserMesh.Core
