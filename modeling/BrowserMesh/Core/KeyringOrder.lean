import BrowserMesh.Core.Keyring

/-! # Links and unlinks in any order

Valid signed links and unlinks of one namespace are delivered to a keyring, in any order and any number
of times.  A link is later than the unlinks of its edge, or it is not; an edge should be usable if and only
if it has a link of the first kind.

* **Runs.**  `Held`: what the keyring holds was inserted while its edge was free, and no unlink delivered
  so far revokes it.
* **Order.**  `order_independent_iff`: the usable edges are the expected ones if and only if every such edge
  has a late link that arrives while its edge is free, and no identity has two such parents. -/

namespace BrowserMesh.Core

open Js

variable {σ κ : Type}

/-- What is delivered. -/
inductive Delivery (σ : Type) where
  | link (l : KeyLink σ)
  | unlink (u : SignedKeyUnlink σ)

/-- A delivery and the time at which it is handled. -/
abbrev Timed (σ : Type) := Delivery σ × JsNumber

section Runs
variable (crypto : Crypto σ κ) (publicKey : JsString → κ)

/-- One delivery; a call that is rejected is ignored. -/
def Keyring.deliver (k : Keyring σ) (d : Timed σ) : Keyring σ :=
  match d.1 with
  | .link l =>
      match k.addVerifiedLink crypto l (publicKey l.parent) (publicKey l.child) d.2 with
      | .error _ => k
      | .ok k' => k'
  | .unlink u =>
      match k.applyUnlink crypto u (publicKey u.parent) d.2 with
      | .error _ => k
      | .ok (k', _) => k'

def Keyring.deliverAll (k : Keyring σ) (ds : List (Timed σ)) : Keyring σ :=
  ds.foldl (Keyring.deliver crypto publicKey) k

/-- The edge is what `verifyCryptoChain` accepts from the child to the parent. -/
def Keyring.Accepts (k : Keyring σ) (opts : Keyring.ChainOptions) (parent child : JsString) : Prop :=
  ∃ l, k.verifyCryptoChain crypto (some ∘ publicKey) opts child parent = ([l], none)

/-- Both parties signed the link, and it is for this namespace. -/
structure KeyLink.Genuine (ns : Option JsString) (legacy : Bool) (l : KeyLink σ) : Prop where
  relation : l.relation ∈ VALID_RELATIONS
  parent_ne_child : l.parent ≠ l.child
  (namespace' : l.namespace' = ns)
  verified : l.verifyBoth crypto (publicKey l.parent) (publicKey l.child) legacy = true

/-- The parent signed the unlink, and it is for this namespace. -/
structure SignedKeyUnlink.Genuine (ns : Option JsString) (u : SignedKeyUnlink σ) : Prop where
  (namespace' : u.namespace' = ns)
  verified : u.verify crypto (publicKey u.parent) = true

/-- All deliveries are genuine, no unlink expires during them, and nothing has expired when the chains
are verified. -/
structure Genuine (ns : Option JsString) (opts : Keyring.ChainOptions) (ds : List (Timed σ)) : Prop where
  links : ∀ l t, (.link l, t) ∈ ds → l.Genuine crypto publicKey ns opts.acceptLegacyV2
  unlinks : ∀ u t, (.unlink u, t) ∈ ds → u.Genuine crypto publicKey ns
  linksLive : ∀ l t, (.link l, t) ∈ ds → l.isExpired opts.now = false
  unlinksLive : ∀ u t, (.unlink u, t) ∈ ds →
    u.isExpired opts.now = false ∧ ∀ d ∈ ds, u.isExpired d.2 = false

end Runs

def IsLate (ds : List (Timed σ)) (l : KeyLink σ) : Prop :=
  ∀ u t, (.unlink u, t) ∈ ds → u.parent = l.parent → u.child = l.child →
    u.created.val.lt l.created.val = true

def Usable (ds : List (Timed σ)) (parent child : JsString) : Prop :=
  ∃ l t, (.link l, t) ∈ ds ∧ l.parent = parent ∧ l.child = child ∧ IsLate ds l

/-! ### One delivery -/

namespace SignedKeyUnlink

theorem revokes_iff {u : SignedKeyUnlink σ} {l : KeyLink σ} (hns : l.namespace' = u.namespace') :
    u.revokes l = true ↔ u.parent = l.parent ∧ u.child = l.child ∧ u.created.val.lt l.created.val = false := by
  have htime : l.created.val.le u.created.val = true ↔ u.created.val.lt l.created.val = false := by
    rw [JsNumber.le, JsNumber.lt, decide_eq_true_iff, decide_eq_false_iff_not]
    simp [l.created.property, u.created.property]
  simp only [revokes, Bool.and_eq_true, decide_eq_true_eq, htime, hns, and_true, and_assoc,
    eq_comm (a := l.parent), eq_comm (a := l.child)]

theorem mem_record {u r : SignedKeyUnlink σ} {rs : List (SignedKeyUnlink σ)} (h : r ∈ u.record rs) :
    r = u ∨ r ∈ rs := by
  induction rs with
  | nil => exact Or.inl (List.mem_singleton.mp h)
  | cons r₀ rs ih =>
      rw [record] at h
      split_ifs at h
      · rcases List.mem_cons.mp h with rfl | h
        · exact Or.inl rfl
        · exact Or.inr (List.mem_cons_of_mem r₀ h)
      · rcases List.mem_cons.mp h with rfl | h
        · exact Or.inr List.mem_cons_self
        · exact Or.inr (List.mem_cons_of_mem r₀ h)
      · rcases List.mem_cons.mp h with rfl | h
        · exact Or.inr List.mem_cons_self
        · exact (ih h).imp_right (List.mem_cons_of_mem r₀)

theorem revokes_congr {u r : SignedKeyUnlink σ} (hns : r.namespace' = u.namespace')
    (h : u.isSame r = true) (l : KeyLink σ) : r.revokes l = u.revokes l := by
  simp only [isSame, Bool.and_eq_true, decide_eq_true_eq] at h
  obtain ⟨⟨hp, hc⟩, ht⟩ := h
  have hcreated := (JsNumber.eq_iff r.created.property).mp ht
  simp only [revokes, hp, hc, hcreated, hns]

theorem exists_record_revokes {u : SignedKeyUnlink σ} {rs : List (SignedKeyUnlink σ)}
    (hns : ∀ r ∈ rs, r.namespace' = u.namespace') (l : KeyLink σ) :
    (∃ r ∈ u.record rs, r.revokes l = true) ↔ u.revokes l = true ∨ ∃ r ∈ rs, r.revokes l = true := by
  induction rs with
  | nil => simp [record]
  | cons r rs ih =>
      have hr := hns r List.mem_cons_self
      have ih := ih fun r' hr' => hns r' (List.mem_cons_of_mem r hr')
      rw [record]
      split_ifs with hsame hlong
      · have hrev := revokes_congr hr hsame l
        simp only [List.exists_mem_cons_iff, hrev, or_self_left]
      · have hrev := revokes_congr hr hsame l
        simp only [List.exists_mem_cons_iff, hrev, or_self_left]
      · simp only [List.exists_mem_cons_iff, ih]
        tauto

end SignedKeyUnlink

section Deliver
variable {crypto : Crypto σ κ} {publicKey : JsString → κ} {ns : Option JsString} {k : Keyring σ}

theorem Keyring.deliver_link {l : KeyLink σ} {t : JsNumber}
    (hl : l.Genuine crypto publicKey k.namespace' k.acceptLegacyV2) :
    k.deliver crypto publicKey (.link l, t) =
      if k.isRevoked l t = true ∨ k.hasEdge l.parent l.child = true then k
      else { k with links := k.links ++ [l] } := by
  have hsigned : l.signatures ≠ none := by
    intro hnone
    have := hl.verified
    rw [KeyLink.verifyBoth, hnone] at this
    cases this
  have hcheck : k.checkLink l t = if k.isRevoked l t = true then .error (.revoked l.parent l.child) else .ok () := by
    rw [checkLink, if_neg hsigned, if_neg (not_not.mpr hl.relation), if_neg hl.parent_ne_child,
      if_neg (not_not.mpr hl.namespace')]
  have hinsert : k.insertLink l true = if k.hasEdge l.parent l.child = true then
      .error (.linkExists l.parent l.child) else .ok { k with links := k.links ++ [l] } := by
    rw [insertLink, if_neg (by simp)]
  simp only [deliver, addVerifiedLink, hcheck, hl.verified, hinsert]
  by_cases hrev : k.isRevoked l t = true
  · simp [hrev, bind, Except.bind]
  · by_cases hedge : k.hasEdge l.parent l.child = true
    · simp [hrev, hedge, bind, Except.bind]
    · simp [hrev, hedge, bind, Except.bind]

theorem Keyring.deliver_unlink {u : SignedKeyUnlink σ} {t : JsNumber}
    (hu : u.Genuine crypto publicKey k.namespace') (ht : u.isExpired t = false) :
    k.deliver crypto publicKey (.unlink u, t) =
      { k with links := k.links.filter fun l => !u.revokes l, revocations := u.record k.revocations } := by
  have hfinite : u.hasDefect = false := by
    have := hu.verified
    rw [SignedKeyUnlink.verify] at this
    split at this
    · cases this
    · rw [Bool.and_eq_true, Bool.and_eq_true] at this
      rw [SignedKeyUnlink.hasDefect, this.1.1]
      rfl
  have hcheck : k.checkUnlink u = .ok () := by
    rw [checkUnlink, if_neg (not_not.mpr hu.namespace'), if_neg (by simp [hfinite])]
  simp only [deliver, applyUnlink, hcheck, hu.verified, recordUnlink, ht]
  rfl

theorem Keyring.mem_deliver {l : KeyLink σ} {d : Timed σ} (h : l ∈ k.links)
    (hd : ∀ u, d.1 = .unlink u → u.revokes l = false) : l ∈ (k.deliver crypto publicKey d).links := by
  obtain ⟨d, t⟩ := d
  cases d with
  | link l' =>
      simp only [deliver]
      cases hadd : k.addVerifiedLink crypto l' (publicKey l'.parent) (publicKey l'.child) t with
      | error e => exact h
      | ok k' =>
          simp only [addVerifiedLink, insertLink, bind, Except.bind] at hadd
          split at hadd
          · cases hadd
          · split_ifs at hadd
            obtain rfl := Except.ok.inj hadd
            exact List.mem_append_left _ h
  | unlink u =>
      simp only [deliver]
      cases happly : k.applyUnlink crypto u (publicKey u.parent) t with
      | error e => exact h
      | ok r =>
          simp only [applyUnlink, recordUnlink, bind, Except.bind] at happly
          split at happly
          · cases happly
          · split_ifs at happly
            · obtain rfl := Except.ok.inj happly
              exact h
            · obtain rfl := Except.ok.inj happly
              exact List.mem_filter.mpr ⟨h, by rw [hd u rfl]; rfl⟩

end Deliver

/-! ### Runs -/

section Held
variable {crypto : Crypto σ κ} {publicKey : JsString → κ} {ns : Option JsString}
  {opts : Keyring.ChainOptions} {ds es : List (Timed σ)}

theorem Genuine.append_left (h : Genuine crypto publicKey ns opts (ds ++ es)) :
    Genuine crypto publicKey ns opts ds where
  links := fun l t hl => h.links l t (List.mem_append_left _ hl)
  unlinks := fun u t hu => h.unlinks u t (List.mem_append_left _ hu)
  linksLive := fun l t hl => h.linksLive l t (List.mem_append_left _ hl)
  unlinksLive := fun u t hu =>
    have hlive := h.unlinksLive u t (List.mem_append_left _ hu)
    ⟨hlive.1, fun d hd => hlive.2 d (List.mem_append_left _ hd)⟩

theorem Genuine.revokes_iff (h : Genuine crypto publicKey ns opts ds) {u : SignedKeyUnlink σ} {l : KeyLink σ}
    {t t' : JsNumber} (hu : (.unlink u, t) ∈ ds) (hl : (.link l, t') ∈ ds) :
    u.revokes l = true ↔ u.parent = l.parent ∧ u.child = l.child ∧ u.created.val.lt l.created.val = false :=
  SignedKeyUnlink.revokes_iff ((h.links l t' hl).namespace'.trans (h.unlinks u t hu).namespace'.symm)

theorem Genuine.isLate_iff (h : Genuine crypto publicKey ns opts ds) {l : KeyLink σ} {t : JsNumber}
    (hl : (.link l, t) ∈ ds) : IsLate ds l ↔ ∀ u t', (.unlink u, t') ∈ ds → u.revokes l = false := by
  constructor
  · intro hlate u t' hu
    rw [← Bool.not_eq_true, h.revokes_iff hu hl]
    rintro ⟨hp, hc, hlt⟩
    rw [hlate u t' hu hp hc] at hlt
    cases hlt
  · intro hnone u t' hu hp hc
    by_contra hlt
    have hrev := (h.revokes_iff hu hl).mpr ⟨hp, hc, Bool.eq_false_iff.mpr hlt⟩
    rw [hnone u t' hu] at hrev
    cases hrev

/-- The keyring before any delivery. -/
abbrev fresh (σ : Type) (ns : Option JsString) (opts : Keyring.ChainOptions) : Keyring σ :=
  Keyring.new ns opts.acceptLegacyV2

variable (crypto publicKey ns opts) in
/-- What the keyring holds after the deliveries `ds`. -/
structure Held (k : Keyring σ) (ds : List (Timed σ)) : Prop where
  (namespace' : k.namespace' = ns)
  legacy : k.acceptLegacyV2 = opts.acceptLegacyV2
  inserted : ∀ l ∈ k.links, ∃ before t after, ds = before ++ (.link l, t) :: after ∧
    ((fresh σ ns opts).deliverAll crypto publicKey before).hasEdge l.parent l.child = false
  unrevoked : ∀ l ∈ k.links, ∀ u t, (.unlink u, t) ∈ ds → u.revokes l = false
  recorded : ∀ r ∈ k.revocations, ∃ t, (.unlink r, t) ∈ ds
  revoked : ∀ l, (∃ r ∈ k.revocations, r.revokes l = true) ↔ ∃ u t, (.unlink u, t) ∈ ds ∧ u.revokes l = true

theorem Held.isRevoked_iff {k : Keyring σ} (h : Held crypto publicKey ns opts k ds) {now : JsNumber}
    (hlive : ∀ u t, (.unlink u, t) ∈ ds → u.isExpired now = false) (l : KeyLink σ) :
    k.isRevoked l now = true ↔ ∃ u t, (.unlink u, t) ∈ ds ∧ u.revokes l = true := by
  rw [← h.revoked l, Keyring.isRevoked, List.any_eq_true]
  refine exists_congr fun r => and_congr_right fun hr => ?_
  obtain ⟨t, ht⟩ := h.recorded r hr
  simp [hlive r t ht]

/-- The invariant of a run. -/
theorem held_deliverAll (h : Genuine crypto publicKey ns opts ds) :
    Held crypto publicKey ns opts ((fresh σ ns opts).deliverAll crypto publicKey ds) ds := by
  induction ds using List.reverseRecOn with
  | nil =>
      constructor
      case namespace' => rfl
      case legacy => rfl
      case inserted => exact fun _ hl => (by cases hl)
      case unrevoked => exact fun _ hl => (by cases hl)
      case recorded => exact fun _ hr => (by cases hr)
      case revoked => simp [Keyring.deliverAll, Keyring.new]
  | append_singleton ds d ih =>
      have ih := ih h.append_left
      have hlast : (fresh σ ns opts).deliverAll crypto publicKey (ds ++ [d]) =
          ((fresh σ ns opts).deliverAll crypto publicKey ds).deliver crypto publicKey d := by
        simp [Keyring.deliverAll]
      rw [hlast]
      generalize hk : (fresh σ ns opts).deliverAll crypto publicKey ds = k at ih
      obtain ⟨d, t⟩ := d
      have hlast : (d, t) ∈ ds ++ [(d, t)] := List.mem_append_right _ List.mem_cons_self
      have hold : ∀ l ∈ k.links, ∃ before t' after, ds ++ [(d, t)] = before ++ (.link l, t') :: after ∧
          ((fresh σ ns opts).deliverAll crypto publicKey before).hasEdge l.parent l.child = false := by
        intro l hl
        obtain ⟨before, t', after, rfl, hfree⟩ := ih.inserted l hl
        exact ⟨before, t', after ++ [(d, t)], by simp, hfree⟩
      cases d with
      | link l =>
          have hunlinks : ∀ u t', (.unlink u, t') ∈ ds ++ [(.link l, t)] ↔ (.unlink u, t') ∈ ds := by simp
          have hgenuine : l.Genuine crypto publicKey k.namespace' k.acceptLegacyV2 := by
            rw [ih.namespace', ih.legacy]
            exact h.links l t hlast
          rw [Keyring.deliver_link hgenuine]
          split_ifs with hblocked
          · exact ⟨ih.namespace', ih.legacy, hold, by simpa only [hunlinks] using ih.unrevoked,
              by simpa only [hunlinks] using ih.recorded, by simpa only [hunlinks] using ih.revoked⟩
          · rw [not_or] at hblocked
            constructor
            case namespace' => exact ih.namespace'
            case legacy => exact ih.legacy
            case inserted =>
              intro l' hl'
              rcases List.mem_append.mp hl' with hl' | hl'
              · exact hold l' hl'
              · obtain rfl := List.mem_singleton.mp hl'
                refine ⟨ds, t, [], rfl, ?_⟩
                rw [hk]
                exact Bool.eq_false_iff.mpr hblocked.2
            case unrevoked =>
              intro l' hl' u t' hu
              rw [hunlinks] at hu
              rcases List.mem_append.mp hl' with hl' | hl'
              · exact ih.unrevoked l' hl' u t' hu
              · obtain rfl := List.mem_singleton.mp hl'
                apply Bool.eq_false_iff.mpr
                intro hrev
                refine hblocked.1 ((ih.isRevoked_iff ?_ l').mpr ⟨u, t', hu, hrev⟩)
                exact fun u' t'' hu' => (h.unlinksLive u' t'' (List.mem_append_left _ hu')).2 _ hlast
            case recorded => simpa only [hunlinks] using ih.recorded
            case revoked => simpa only [hunlinks] using ih.revoked
      | unlink u =>
          have hgenuine : u.Genuine crypto publicKey k.namespace' := by
            rw [ih.namespace']
            exact h.unlinks u t hlast
          have hunlinks : ∀ u' t', (.unlink u', t') ∈ ds ++ [(.unlink u, t)] ↔
              (.unlink u', t') ∈ ds ∨ (u' = u ∧ t' = t) := by simp
          rw [Keyring.deliver_unlink hgenuine ((h.unlinksLive u t hlast).2 _ hlast)]
          constructor
          case namespace' => exact ih.namespace'
          case legacy => exact ih.legacy
          case inserted => exact fun l hl => hold l (List.mem_filter.mp hl).1
          case unrevoked =>
            intro l hl u' t' hu'
            have hl := List.mem_filter.mp hl
            rcases (hunlinks u' t').mp hu' with hu' | ⟨rfl, -⟩
            · exact ih.unrevoked l hl.1 u' t' hu'
            · simpa using hl.2
          case recorded =>
            intro r hr
            rcases SignedKeyUnlink.mem_record hr with rfl | hr
            · exact ⟨t, hlast⟩
            · obtain ⟨t', ht'⟩ := ih.recorded r hr
              exact ⟨t', List.mem_append_left _ ht'⟩
          case revoked =>
            intro l
            have hns : ∀ r ∈ k.revocations, r.namespace' = u.namespace' := by
              intro r hr
              obtain ⟨t', ht'⟩ := ih.recorded r hr
              rw [(h.unlinks r t' (List.mem_append_left _ ht')).namespace', (h.unlinks u t hlast).namespace']
            show (∃ r ∈ u.record k.revocations, _) ↔ _
            rw [SignedKeyUnlink.exists_record_revokes hns, ih.revoked l]
            constructor
            · rintro (hrev | ⟨u', t', hu', hrev⟩)
              · exact ⟨u, t, hlast, hrev⟩
              · exact ⟨u', t', List.mem_append_left _ hu', hrev⟩
            · rintro ⟨u', t', hu', hrev⟩
              rcases (hunlinks u' t').mp hu' with hu' | ⟨rfl, -⟩
              · exact Or.inr ⟨u', t', hu', hrev⟩
              · exact Or.inl hrev

theorem mem_of_free {before after : List (Timed σ)} {l : KeyLink σ} {t : JsNumber}
    (h : Genuine crypto publicKey ns opts (before ++ (.link l, t) :: after))
    (hlate : IsLate (before ++ (.link l, t) :: after) l)
    (hfree : ((fresh σ ns opts).deliverAll crypto publicKey before).hasEdge l.parent l.child = false) :
    l ∈ ((fresh σ ns opts).deliverAll crypto publicKey (before ++ (.link l, t) :: after)).links := by
  have hmem : (.link l, t) ∈ before ++ (.link l, t) :: after := List.mem_append_right _ List.mem_cons_self
  have hnone := (h.isLate_iff hmem).mp hlate
  have hheld := held_deliverAll h.append_left
  generalize hk : (fresh σ ns opts).deliverAll crypto publicKey before = k at hheld hfree
  have hgenuine : l.Genuine crypto publicKey k.namespace' k.acceptLegacyV2 := by
    rw [hheld.namespace', hheld.legacy]
    exact h.links l t hmem
  have hrev : ¬ k.isRevoked l t = true := by
    rw [hheld.isRevoked_iff fun u t' hu => (h.unlinksLive u t' (List.mem_append_left _ hu)).2 _ hmem]
    rintro ⟨u, t', hu, hrev⟩
    rw [hnone u t' (List.mem_append_left _ hu)] at hrev
    cases hrev
  have hstart : l ∈ (k.deliver crypto publicKey (.link l, t)).links := by
    rw [Keyring.deliver_link hgenuine, if_neg (not_or.mpr ⟨hrev, by simp [hfree]⟩)]
    exact List.mem_append_right _ (List.mem_singleton_self l)
  have hstay : ∀ (ds : List (Timed σ)) (k : Keyring σ), (∀ d ∈ ds, d ∈ after) → l ∈ k.links →
      l ∈ (k.deliverAll crypto publicKey ds).links := by
    intro ds
    induction ds with
    | nil => exact fun k _ hl => hl
    | cons d ds ih =>
        intro k hds hl
        refine ih _ (fun d' hd' => hds d' (List.mem_cons_of_mem d hd')) (Keyring.mem_deliver hl ?_)
        rintro u hu
        obtain ⟨d, t'⟩ := d
        obtain rfl : d = .unlink u := hu
        exact hnone u t' (List.mem_append_right _ (List.mem_cons_of_mem _ (hds _ List.mem_cons_self)))
  rw [Keyring.deliverAll, List.foldl_append, List.foldl_cons]
  refine hstay after _ (fun d hd => hd) ?_
  rw [← hk] at hstart
  exact hstart

theorem Keyring.accepts_iff {k : Keyring σ} {parent child : JsString} :
    k.Accepts crypto publicKey opts parent child ↔ ∃ l, k.links.find? (fun l => l.child = child) = some l ∧
      l.parent = parent ∧ k.linkFault crypto (some ∘ publicKey) opts l = none := by
  rw [Accepts]
  cases hfind : k.links.find? (fun l => l.child = child) with
  | none =>
      have hchain : k.getChain child = [] := by
        rw [getChain, chainLoop, if_neg List.not_mem_nil, hfind]
      simp [verifyCryptoChain, hchain, chainTo]
  | some l =>
      have hchain : k.getChain child = l :: k.chainLoop k.links.length [child] l.parent := by
        rw [getChain, chainLoop, if_neg List.not_mem_nil, hfind]
      by_cases hp : l.parent = parent
      · cases hfault : k.linkFault crypto (some ∘ publicKey) opts l <;>
          simp [verifyCryptoChain, hchain, chainTo, hp, hfault]
      · have hlong : ∀ chain, chainTo parent (l :: chain) = (l :: (chainTo parent chain).1, (chainTo parent chain).2) := by
          intro chain
          rw [chainTo, if_neg hp]
        constructor
        · rintro ⟨l', hl'⟩
          rw [verifyCryptoChain, hchain, hlong] at hl'
          cases hfound : (chainTo parent (k.chainLoop k.links.length [child] l.parent)).2 with
          | false => simp [hfound] at hl'
          | true =>
              have hne : (chainTo parent (k.chainLoop k.links.length [child] l.parent)).1 ≠ [] := by
                intro hnil
                cases hc : k.chainLoop k.links.length [child] l.parent with
                | nil => rw [hc] at hfound; cases hfound
                | cons l₂ chain =>
                    rw [hc, chainTo] at hnil
                    split_ifs at hnil
              simp [hfound, hne] at hl'
        · rintro ⟨l', hl', hp', -⟩
          rw [Option.some.inj hl'] at hp
          exact absurd hp' hp

/-- After any genuine deliveries the accepted edges are those with a link later than all their unlinks, if
and only if every such edge has a late link that arrives while its edge is free, and no identity has two
such parents. -/
theorem order_independent_iff (h : Genuine crypto publicKey ns opts ds) :
    (∀ parent child, ((fresh σ ns opts).deliverAll crypto publicKey ds).Accepts crypto publicKey opts parent child ↔
        Usable ds parent child) ↔
      (∀ parent child, Usable ds parent child → ∃ before l t after, ds = before ++ (.link l, t) :: after ∧
        l.parent = parent ∧ l.child = child ∧ IsLate ds l ∧
        ((fresh σ ns opts).deliverAll crypto publicKey before).hasEdge parent child = false) ∧
      ∀ parent parent' child, Usable ds parent child → Usable ds parent' child → parent = parent' := by
  have hheld := held_deliverAll h
  generalize hk : (fresh σ ns opts).deliverAll crypto publicKey ds = k at hheld
  -- what is held is usable
  have hsound : ∀ l ∈ k.links, (∃ t, (.link l, t) ∈ ds) ∧ IsLate ds l := by
    intro l hl
    obtain ⟨before, t, after, hds, -⟩ := hheld.inserted l hl
    have hmem : (.link l, t) ∈ ds := hds ▸ List.mem_append_right _ List.mem_cons_self
    exact ⟨⟨t, hmem⟩, (h.isLate_iff hmem).mpr (hheld.unrevoked l hl)⟩
  have husable : ∀ l ∈ k.links, Usable ds l.parent l.child := by
    intro l hl
    obtain ⟨⟨t, hmem⟩, hlate⟩ := hsound l hl
    exact ⟨l, t, hmem, rfl, rfl, hlate⟩
  -- and has no fault
  have hfault : ∀ l ∈ k.links, k.linkFault crypto (some ∘ publicKey) opts l = none := by
    intro l hl
    obtain ⟨⟨t, hmem⟩, -⟩ := hsound l hl
    have hgenuine := h.links l t hmem
    have hsigned : l.signatures ≠ none := by
      intro hnone
      have hverified := hgenuine.verified
      rw [KeyLink.verifyBoth, hnone] at hverified
      cases hverified
    have hrev : ¬ k.isRevoked l opts.now = true := by
      rw [hheld.isRevoked_iff fun u t' hu => (h.unlinksLive u t' hu).1]
      rintro ⟨u, t', hu, hrev⟩
      rw [hheld.unrevoked l hl u t' hu] at hrev
      cases hrev
    rw [Keyring.linkFault, if_neg (by rw [h.linksLive l t hmem]; exact Bool.false_ne_true), if_neg hrev,
      if_neg (not_not.mpr (hgenuine.namespace'.trans hheld.namespace'.symm)), if_neg hsigned]
    simp [hgenuine.verified]
  constructor
  · intro hiff
    constructor
    · intro parent child hu
      obtain ⟨l, hfind, rfl, -⟩ := Keyring.accepts_iff.mp ((hiff parent child).mpr hu)
      have hl := List.mem_of_find?_eq_some hfind
      have hchild : l.child = child := by simpa using List.find?_some hfind
      obtain ⟨before, t, after, hds, hfree⟩ := hheld.inserted l hl
      exact ⟨before, l, t, after, hds, rfl, hchild, (hsound l hl).2, hchild ▸ hfree⟩
    · intro parent parent' child hu hu'
      obtain ⟨l, hfind, rfl, -⟩ := Keyring.accepts_iff.mp ((hiff parent child).mpr hu)
      obtain ⟨l', hfind', rfl, -⟩ := Keyring.accepts_iff.mp ((hiff parent' child).mpr hu')
      rw [hfind] at hfind'
      rw [Option.some.inj hfind']
  · rintro ⟨hfree, hparent⟩ parent child
    rw [Keyring.accepts_iff]
    constructor
    · rintro ⟨l, hfind, rfl, -⟩
      have hchild : l.child = child := by simpa using List.find?_some hfind
      exact hchild ▸ husable l (List.mem_of_find?_eq_some hfind)
    · intro hu
      obtain ⟨before, l, t, after, hds, rfl, rfl, hlate, hedge⟩ := hfree parent child hu
      have hl : l ∈ k.links := by
        rw [← hk, hds]
        exact mem_of_free (hds ▸ h) (hds ▸ hlate) hedge
      obtain ⟨l', hfind⟩ : ∃ l', k.links.find? (fun l' => l'.child = l.child) = some l' := by
        rw [← Option.isSome_iff_exists, List.find?_isSome]
        exact ⟨l, hl, by simp⟩
      have hl' := List.mem_of_find?_eq_some hfind
      have hchild : l'.child = l.child := by simpa using List.find?_some hfind
      refine ⟨l', hfind, ?_, hfault l' hl'⟩
      exact hparent _ _ l.child (hchild ▸ husable l' hl') hu

end Held

/-! ### One edge, two links, one unlink -/

section Resigned

/-- Signatures that name their key and their payload; the key of an identity is its name. -/
def plainCrypto : Crypto (JsString × Payload) JsString := ⟨fun key s payload => decide (s = (key, payload))⟩

/-- A link from `p` to `c`. -/
def plainLink (created : Created) : KeyLink (JsString × Payload) :=
  let payload : Payload := .keylinkV3 (js "p") (js "c") (js "device") none none created none
  ⟨js "p", js "c", js "device", none, none, created, none, some (some (js "p", payload), some (js "c", payload))⟩

/-- An unlink of the edge from `p` to `c`, for 100 ms. -/
def plainUnlink (created : Created) : SignedKeyUnlink (JsString × Payload) :=
  ⟨js "p", js "c", none, created, none, some (.ofNat 100),
    some (js "p", .keyunlinkV2 (js "p") (js "c") none created none (some (.ofNat 100)))⟩

def time (n : ℕ) : Created := ⟨.ofNat n, by
  unfold JsNumber.ofNat JsNumber.ofUnits
  split_ifs <;> simp⟩

/-- A link, an unlink, and a link that was signed later. -/
def oldLink : Timed (JsString × Payload) := (.link (plainLink (time 1)), .ofNat 10)
def midUnlink : Timed (JsString × Payload) := (.unlink (plainUnlink (time 2)), .ofNat 10)
def newLink : Timed (JsString × Payload) := (.link (plainLink (time 3)), .ofNat 10)

def plainOptions : Keyring.ChainOptions := ⟨true, false, .ofNat 10⟩

theorem genuine_plain {ds : List (Timed (JsString × Payload))} (h : ∀ d ∈ ds, d ∈ [oldLink, midUnlink, newLink]) :
    Genuine plainCrypto id none plainOptions ds := by
  have hlinks : ∀ l t, (.link l, t) ∈ ds → l = plainLink (time 1) ∨ l = plainLink (time 3) := by
    intro l t hl
    have := h _ hl
    simp only [oldLink, midUnlink, newLink, List.mem_cons, Prod.mk.injEq, Delivery.link.injEq, reduceCtorEq,
      false_and, false_or, List.not_mem_nil, or_false] at this
    exact this.imp And.left And.left
  have hunlinks : ∀ u t, (.unlink u, t) ∈ ds → u = plainUnlink (time 2) := by
    intro u t hu
    have := h _ hu
    simp only [oldLink, midUnlink, newLink, List.mem_cons, Prod.mk.injEq, Delivery.unlink.injEq, reduceCtorEq,
      false_and, false_or, List.not_mem_nil, or_false] at this
    exact this.1
  have htimes : ∀ d ∈ ds, d.2 = .ofNat 10 := by
    intro d hd
    have := h d hd
    simp only [List.mem_cons, List.not_mem_nil, or_false] at this
    rcases this with rfl | rfl | rfl <;> simp only [oldLink, midUnlink, newLink]
  constructor
  case links =>
    intro l t hl
    rcases hlinks l t hl with rfl | rfl <;> exact ⟨by decide, by decide, rfl, by decide +kernel⟩
  case unlinks =>
    intro u t hu
    obtain rfl := hunlinks u t hu
    exact ⟨rfl, by decide +kernel⟩
  case linksLive =>
    intro l t hl
    rcases hlinks l t hl with rfl | rfl <;> rfl
  case unlinksLive =>
    intro u t hu
    obtain rfl := hunlinks u t hu
    refine ⟨by decide +kernel, fun d hd => ?_⟩
    rw [htimes d hd]
    decide +kernel

theorem usable_plain {ds : List (Timed (JsString × Payload))} (h : ∀ d ∈ ds, d ∈ [oldLink, midUnlink, newLink])
    (hnew : newLink ∈ ds) : Usable ds (js "p") (js "c") ∧ IsLate ds (plainLink (time 3)) := by
  have hlate : IsLate ds (plainLink (time 3)) := by
    intro u t hu _ _
    have := h _ hu
    simp only [oldLink, midUnlink, newLink, List.mem_cons, Prod.mk.injEq, Delivery.unlink.injEq, reduceCtorEq,
      false_and, false_or, List.not_mem_nil, or_false] at this
    rw [this.1]
    decide +kernel
  exact ⟨⟨_, _, hnew, rfl, rfl, hlate⟩, hlate⟩

theorem order_independent_unlink_between :
    Genuine plainCrypto id none plainOptions [oldLink, midUnlink, newLink] ∧
    ∀ parent child, ((fresh _ none plainOptions).deliverAll plainCrypto id [oldLink, midUnlink, newLink]).Accepts
      plainCrypto id plainOptions parent child ↔ Usable [oldLink, midUnlink, newLink] parent child := by
  have hgenuine : Genuine plainCrypto id none plainOptions [oldLink, midUnlink, newLink] :=
    genuine_plain fun _ hd => hd
  have hedge : ∀ parent child, Usable [oldLink, midUnlink, newLink] parent child →
      parent = js "p" ∧ child = js "c" := by
    rintro parent child ⟨l, t, hl, rfl, rfl, -⟩
    simp only [oldLink, midUnlink, newLink, List.mem_cons, Prod.mk.injEq, Delivery.link.injEq, reduceCtorEq,
      false_and, false_or, List.not_mem_nil, or_false] at hl
    rcases hl with ⟨rfl, -⟩ | ⟨rfl, -⟩ <;> exact ⟨rfl, rfl⟩
  refine ⟨hgenuine, (order_independent_iff hgenuine).mpr ⟨?_, ?_⟩⟩
  · intro parent child hu
    obtain ⟨rfl, rfl⟩ := hedge parent child hu
    exact ⟨[oldLink, midUnlink], _, _, [], rfl, rfl, rfl,
      (usable_plain (fun _ hd => hd) (by simp)).2, by decide +kernel⟩
  · intro parent parent' child hu hu'
    rw [(hedge parent child hu).1, (hedge parent' child hu').1]

theorem resigned_link_lost : ∃ ds : List (Timed (JsString × Payload)),
    Genuine plainCrypto id none plainOptions ds ∧ Usable ds (js "p") (js "c") ∧
    ¬ ((fresh _ none plainOptions).deliverAll plainCrypto id ds).Accepts plainCrypto id plainOptions
      (js "p") (js "c") := by
  have hall : ∀ d ∈ [oldLink, newLink, midUnlink], d ∈ [oldLink, midUnlink, newLink] := by simp
  refine ⟨[oldLink, newLink, midUnlink], genuine_plain hall, (usable_plain hall (by simp)).1, ?_⟩
  rw [Keyring.accepts_iff]
  have hempty : ((fresh _ none plainOptions).deliverAll plainCrypto id [oldLink, newLink, midUnlink]).links = [] := by
    decide +kernel
  rw [hempty]
  rintro ⟨l, hl, -⟩
  cases hl

end Resigned
end BrowserMesh.Core
