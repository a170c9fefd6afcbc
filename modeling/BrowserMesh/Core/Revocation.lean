import BrowserMesh.Library.Search
import BrowserMesh.Library.Transition
import BrowserMesh.Core.Capabilities

/-! # Revocation

`revokeTree` revokes a token and searches the registered tokens depth first for its descendants,
skipping those that are revoked already.  It is the search of the library (`revokeTree_eq_visit`), so
it ends on every set of tokens and revokes exactly what it reaches through unrevoked tokens.

A session is a sequence of `register` and `revokeTree` calls on one validator.  The revocations hold for
good if and only if every call is `Guarded`. -/

namespace BrowserMesh.Core

open Js Search Transition

namespace CapabilityValidator

/-- `this.#revokedIds.add(tokenId)`, and `revoke()` on the registered token. -/
def revokeOne (v : CapabilityValidator) (tokenId : JsString) : CapabilityValidator where
  tokens :=
    match v.tokens.get? tokenId with
    | none => v.tokens
    | some token => v.tokens.set tokenId { token with revoked := true }
  revokedIds := v.revokedIds.add tokenId

/-- `revokeTree(tokenId)` with a bound on the depth of the recursion. -/
def revokeTree : ℕ → CapabilityValidator → JsString → Option CapabilityValidator
  | 0, _, _ => none
  | n + 1, v, tokenId =>
      (v.revokeOne tokenId).tokens.entries.foldlM
        (fun w e =>
          if decide (e.2.parentId = some tokenId) && !w.revokedIds.has e.1 then revokeTree n w e.1
          else some w)
        (v.revokeOne tokenId)

/-! ### The search behind it -/

def children (v : CapabilityValidator) (tokenId : JsString) : List JsString :=
  (v.tokens.entries.filter fun e => decide (e.2.parentId = some tokenId)).map Prod.fst

def links (v : CapabilityValidator) : List (JsString × CapabilityToken) :=
  v.tokens.entries.map fun e => (e.1, { e.2 with revoked := false })

theorem links_revokeOne (v : CapabilityValidator) (tokenId : JsString) :
    (v.revokeOne tokenId).links = v.links := by
  unfold revokeOne links
  cases hget : v.tokens.get? tokenId with
  | none => rfl
  | some token =>
      have hmem : tokenId ∈ v.tokens.keys := JsMap.has_iff.mp (by simp [JsMap.has, hget])
      simp only [JsMap.set, dif_pos hmem, replace, List.map_map]
      refine List.map_congr_left fun e he => ?_
      by_cases hk : e.1 = tokenId
      · have he' : v.tokens.get? e.1 = some e.2 := JsMap.mem_entries_iff.mp he
        rw [hk, hget] at he'
        obtain rfl := Option.some.inj he'
        simp [hk]
      · simp [hk]

theorem children_eq_links (v : CapabilityValidator) (tokenId : JsString) :
    v.children tokenId =
      (v.links.filter fun e => decide (e.2.parentId = some tokenId)).map Prod.fst := by
  rw [children, links, List.filter_map, List.map_map]
  rfl

/-- Revocation as marking: the nodes are identifiers, the successors the children. -/
def marking : Marking CapabilityValidator JsString where
  marked v tokenId := tokenId ∈ v.revokedIds
  decidableMarked _ _ := inferInstance
  mark := revokeOne
  succ := children
  marked_mark _ _ _ := JsSet.mem_add
  succ_mark v tokenId := by
    funext id
    rw [children_eq_links, children_eq_links, links_revokeOne]

theorem revokeTree_eq_visit (n : ℕ) (v : CapabilityValidator) (tokenId : JsString) :
    v.revokeTree n tokenId = marking.visit n v tokenId := by
  induction n generalizing v tokenId with
  | zero => rfl
  | succ n ih =>
      have hsucc : marking.succ v tokenId = (v.revokeOne tokenId).children tokenId :=
        (congrFun (marking.succ_mark v tokenId) tokenId).symm
      rw [revokeTree, Marking.visit, hsucc, children, List.foldlM_map, List.foldlM_filter]
      congr 1
      funext w e
      by_cases hp : e.2.parentId = some tokenId
      · by_cases hm : e.1 ∈ w.revokedIds
        · simp [hp, hm, marking]
        · simp [hp, hm, marking, ih]
      · simp [hp]

theorem mem_children {v : CapabilityValidator} {tokenId c : JsString} :
    c ∈ v.children tokenId ↔ ∃ t, v.tokens.get? c = some t ∧ t.parentId = some tokenId := by
  simp [children, JsMap.mem_entries_iff]

/-- **`revokeTree` ends on every set of registered tokens**, and more depth does not change its result. -/
theorem revokeTree_total (v : CapabilityValidator) (tokenId : JsString) :
    ∃ w, ∀ n, v.tokens.size < n → v.revokeTree n tokenId = some w := by
  have hU : ∀ x, ∀ b ∈ marking.succ v x, b ∈ v.tokens.keys.toFinset := by
    intro x b hb
    obtain ⟨t, ht, -⟩ := mem_children.mp hb
    rw [List.mem_toFinset, ← JsMap.has_iff, JsMap.has, ht]
    rfl
  have hpending : marking.pending v.tokens.keys.toFinset (marking.mark v tokenId) < v.tokens.size + 1 := by
    have h1 := Finset.card_filter_le v.tokens.keys.toFinset
      fun a => ¬ marking.marked (marking.mark v tokenId) a
    have h2 := v.tokens.keys.toFinset_card_le
    have h3 : v.tokens.keys.length = v.tokens.size := List.length_map _
    unfold Marking.pending
    omega
  obtain ⟨w, hw⟩ := Marking.visit_total hU hpending
  exact ⟨w, fun n hn => (revokeTree_eq_visit n v tokenId).trans (Marking.visit_mono hn hw)⟩

theorem get?_of_links_eq {v w : CapabilityValidator} (h : w.links = v.links) (c : JsString) :
    (w.tokens.get? c).map (fun t => { t with revoked := false }) =
      (v.tokens.get? c).map fun t => { t with revoked := false } := by
  unfold JsMap.get?
  rw [← assoc_map, ← assoc_map]
  exact congrArg (assoc c) h

/-! ### Descendants and denied tokens -/

end CapabilityValidator

/-- `c` is `id`, or it is registered and its chain of parents reaches `id`. -/
inductive Descends (tokens : JsMap JsString CapabilityToken) (id : JsString) : JsString → Prop
  | refl : Descends tokens id id
  | step {b c : JsString} {t : CapabilityToken} : Descends tokens id b → tokens.get? c = some t →
      t.parentId = some b → Descends tokens id c

theorem Descends.trans {tokens : JsMap JsString CapabilityToken} {a b c : JsString}
    (hab : Descends tokens a b) (hbc : Descends tokens b c) : Descends tokens a c := by
  induction hbc with
  | refl => exact hab
  | step _ hc hp ih => exact ih.step hc hp

variable {t : CapabilityToken}

/-- A descendant after `t` is set was one before, or it descends from `t` that does. -/
theorem Descends.of_set {tokens : JsMap JsString CapabilityToken} {k : JsString}
    {id c : JsString} (h : Descends (tokens.set k t) id c) :
    (c ≠ k ∧ Descends tokens id c) ∨
      (Descends (tokens.set k t) id k ∧ Descends (tokens.set k t) k c) := by
  induction h with
  | refl =>
      by_cases hk : id = k
      · exact Or.inr ⟨hk ▸ .refl, hk ▸ .refl⟩
      · exact Or.inl ⟨hk, .refl⟩
  | @step b c u hb hc hp ih =>
      by_cases hk : c = k
      · subst hk
        exact Or.inr ⟨hb.step hc hp, .refl⟩
      · rcases ih with ⟨-, hold⟩ | ⟨hidk, hkb⟩
        · rw [JsMap.get?_set, if_neg hk] at hc
          exact Or.inl ⟨hk, hold.step hc hp⟩
        · exact Or.inr ⟨hidk, hkb.step hc hp⟩

variable {v : CapabilityValidator}

theorem Descends.of_links {w : CapabilityValidator} (h : w.links = v.links) {id c : JsString}
    (hd : Descends w.tokens id c) : Descends v.tokens id c := by
  induction hd with
  | refl => exact .refl
  | @step b c t _ hc hp ih =>
      have hget := CapabilityValidator.get?_of_links_eq h c
      rw [hc, Option.map_some] at hget
      obtain ⟨u, hu, hut⟩ := Option.map_eq_some_iff.mp hget.symm
      exact ih.step hu ((congrArg CapabilityToken.parentId hut).trans hp)

/-- The identifier is revoked, or a token registered under it has used up its calls. -/
def Withheld (v : CapabilityValidator) (c : JsString) : Prop :=
  c ∈ v.revokedIds ∨ ∀ t, v.tokens.get? c = some t → t.callsExhausted = true

theorem withheld_iff {c : JsString} :
    (∀ now r p, v.validate now c r p ≠ none) ↔ Withheld v c := by
  constructor
  · intro h
    by_contra hw
    rw [Withheld, not_or, not_forall] at hw
    obtain ⟨hr, t, ht⟩ := hw
    obtain ⟨ht, hcalls⟩ := Classical.not_imp.mp ht
    obtain ⟨perm, hperm⟩ := List.exists_mem_of_ne_nil _ t.permissions.2
    -- a clock without a time lets nothing expire
    have hexp : t.isExpired .nan = false := by
      unfold CapabilityToken.isExpired
      split
      · rfl
      · simp [JsNumber.le]
    have hrev : v.revokedIds.has c = false := by rwa [← Bool.not_eq_true, JsSet.has_iff]
    refine h .nan t.resource.1 perm ?_
    simp [CapabilityValidator.validate, ht, hrev, hexp, CapabilityToken.hasPermission, hperm,
      resourceMatches, hcalls]
  · rintro (hr | hcalls) now r p hv
    · unfold CapabilityValidator.validate at hv
      rw [JsSet.has_iff.mpr hr] at hv
      split at hv <;> cases hv
    · unfold CapabilityValidator.validate at hv
      split at hv
      · cases hv
      · rename_i t ht
        simp only [hcalls t ht, if_true] at hv
        split_ifs at hv

/-! ### Sessions -/

/-- A validator, and the identifiers `revokeTree` was called with. -/
structure Session where
  validator : CapabilityValidator
  called : List JsString

inductive Call where
  | register (token : CapabilityToken)
  | revokeTree (tokenId : JsString)

def session : Machine Session Call where
  init := ⟨.new, []⟩
  step s
    | .register token => some ⟨s.validator.register token, s.called⟩
    | .revokeTree tokenId =>
        (s.validator.revokeTree (s.validator.tokens.size + 1) tokenId).map
          fun v => ⟨v, tokenId :: s.called⟩

/-- No revoked identifier, and no token whose chain of parents reaches one, is ever allowed. -/
def NeverAllowed (s : Session) : Prop :=
  ∀ id ∈ s.called, ∀ c, Descends s.validator.tokens id c →
    ∀ now r p, s.validator.validate now c r p ≠ none

/-- The condition on a call.  A token that is registered below a revoked identifier is revoked or used
up, and so are the tokens registered below it.  The tokens below the one that `revokeTree` is called
with are revoked or used up, or reached from it through tokens that are not revoked yet. -/
def Guarded (s : Session) : Call → Prop
  | .register t =>
      let tokens := s.validator.tokens.set t.id.1 t
      ∀ id ∈ s.called, Descends tokens id t.id.1 →
        (t.id.1 ∈ s.validator.revokedIds ∨ t.revoked = true ∨ t.callsExhausted = true) ∧
          ∀ c, c ≠ t.id.1 → Descends tokens t.id.1 c → Withheld s.validator c
  | .revokeTree tokenId =>
      ∀ c, Descends s.validator.tokens tokenId c →
        Withheld s.validator c ∨ CapabilityValidator.marking.Clear s.validator tokenId c

/-- Every revoked identifier withholds what descends from it. -/
def Permanent (s : Session) : Prop :=
  ∀ id ∈ s.called, ∀ c, Descends s.validator.tokens id c → Withheld s.validator c

theorem neverAllowed_iff {s : Session} : NeverAllowed s ↔ Permanent s :=
  forall₄_congr fun _ _ _ _ => withheld_iff

theorem withheld_register_self :
    Withheld (v.register t) t.id.1 ↔
      t.id.1 ∈ v.revokedIds ∨ t.revoked = true ∨ t.callsExhausted = true := by
  unfold Withheld CapabilityValidator.register
  cases hr : t.revoked <;> simp

theorem withheld_register_of_ne {c : JsString} (h : c ≠ t.id.1) : Withheld (v.register t) c ↔ Withheld v c := by
  unfold Withheld CapabilityValidator.register
  cases hr : t.revoked <;> simp [h]

theorem permanent_register {s : Session} (hs : Permanent s) (t : CapabilityToken) :
    Permanent ⟨s.validator.register t, s.called⟩ ↔ Guarded s (.register t) := by
  constructor
  · intro h id hid hd
    exact ⟨withheld_register_self.mp (h id hid _ hd),
      fun c hc htc => (withheld_register_of_ne hc).mp (h id hid c (hd.trans htc))⟩
  · intro h id hid c hd
    by_cases hc : c = t.id.1
    · subst hc
      exact withheld_register_self.mpr (h id hid hd).1
    · refine (withheld_register_of_ne hc).mpr ?_
      rcases hd.of_set with ⟨-, hold⟩ | ⟨hidt, htc⟩
      · exact hs id hid c hold
      · exact (h id hid hidt).2 c hc htc

theorem permanent_revokeTree {s : Session} (hs : Permanent s) {n : ℕ} {tokenId : JsString}
    (hv : s.validator.revokeTree n tokenId = some v) :
    Permanent ⟨v, tokenId :: s.called⟩ ↔ Guarded s (.revokeTree tokenId) := by
  rw [CapabilityValidator.revokeTree_eq_visit] at hv
  have hlinks : v.links = s.validator.links :=
    Marking.visit_invariant (m := CapabilityValidator.marking)
      (fun w a hw => (w.links_revokeOne a).trans hw) rfl hv
  have hmarked := (Marking.visit_spec hv).2
  have hwithheld : ∀ c, Withheld v c ↔
      Withheld s.validator c ∨ CapabilityValidator.marking.Clear s.validator tokenId c := by
    intro c
    have hcalls : (∀ t, v.tokens.get? c = some t → t.callsExhausted = true) ↔
        ∀ t, s.validator.tokens.get? c = some t → t.callsExhausted = true := by
      have hget := CapabilityValidator.get?_of_links_eq hlinks c
      cases hw : v.tokens.get? c <;> cases hs : s.validator.tokens.get? c <;>
        simp_all [CapabilityToken.callsExhausted]
    rw [Withheld, Withheld, hcalls, show c ∈ v.revokedIds ↔ _ from hmarked c]
    exact or_right_comm
  constructor
  · intro h c hd
    exact (hwithheld c).mp (h tokenId List.mem_cons_self c (hd.of_links hlinks.symm))
  · intro h id hid c hd
    have hd' : Descends s.validator.tokens id c := hd.of_links hlinks
    rcases List.mem_cons.mp hid with rfl | hid
    · exact (hwithheld c).mpr (h c hd')
    · exact (hwithheld c).mpr (Or.inl (hs id hid c hd'))

theorem session_step_total (s : Session) (a : Call) : ∃ s', session.step s a = some s' := by
  cases a with
  | register t => exact ⟨_, rfl⟩
  | revokeTree tokenId =>
      obtain ⟨v, hv⟩ := s.validator.revokeTree_total tokenId
      exact ⟨⟨v, tokenId :: s.called⟩, by simp [session, hv _ (Nat.lt_succ_self _)]⟩

theorem permanent_step {s s' : Session} {a : Call} (hs : Permanent s) (h : session.step s a = some s') :
    Permanent s' ↔ Guarded s a := by
  cases a with
  | register t =>
      obtain rfl := Option.some.inj h
      exact permanent_register hs t
  | revokeTree tokenId =>
      obtain ⟨v, hv, rfl⟩ := Option.map_eq_some_iff.mp h
      exact permanent_revokeTree hs hv

/-- **Every call of `revokeTree` ends, and in a session revoked identifiers and their descendants stay
denied if and only if every call is guarded.** -/
theorem revocation_permanent_iff (v : CapabilityValidator) (tokenId : JsString) (calls : List Call) :
    (∃ w, ∀ n, v.tokens.size < n → v.revokeTree n tokenId = some w) ∧
      ∃ s, session.run (fun _ _ => True) session.init calls = some s ∧
        (session.Along (fun s a => ∀ s', session.step s a = some s' → NeverAllowed s') session.init calls ↔
          session.Along Guarded session.init calls) := by
  refine ⟨v.revokeTree_total tokenId, ?_⟩
  have hrun : ∀ s, ∃ w, session.run (fun _ _ => True) s calls = some w := by
    induction calls with
    | nil => exact fun s => ⟨s, rfl⟩
    | cons a calls ih =>
        intro s
        obtain ⟨s', hs'⟩ := session_step_total s a
        obtain ⟨w, hw⟩ := ih s'
        exact ⟨w, by rw [Machine.run, if_pos trivial, hs', Option.bind_some, hw]⟩
  obtain ⟨w, hw⟩ := hrun session.init
  refine ⟨w, hw, Machine.along_iff (I := Permanent) ?_ (fun id hid => absurd hid List.not_mem_nil) hw⟩
  intro s a s' hs _ hstep
  have hiff := permanent_step hs hstep
  refine ⟨⟨fun h => hiff.mp (neverAllowed_iff.mp (h s' hstep)), fun hg s'' hs'' => ?_⟩, hiff.mpr⟩
  obtain rfl := Option.some.inj (hs''.symm.trans hstep)
  exact neverAllowed_iff.mpr (hiff.mpr hg)

theorem alice_ne_nil : js "alice" ≠ [] := by decide

theorem bob_ne_nil : js "bob" ≠ [] := by decide

theorem star_ne_nil : js "*" ≠ [] := by decide

theorem read_ne_nil : [js "read"] ≠ [] := by decide

/-- A token with the given name, parent and flag that allows reading everything. -/
def linkedToken (id : NonEmptyString) (parentId : Option JsString) (revoked : Bool) : CapabilityToken where
  id := id
  issuer := ⟨js "alice", alice_ne_nil⟩
  holder := ⟨js "bob", bob_ne_nil⟩
  resource := ⟨js "*", star_ne_nil⟩
  permissions := ⟨[js "read"], read_ne_nil⟩
  constraints := JsObject.empty
  parentId := parentId
  expiresAt := none
  revoked := revoked
  depth := 0
  maxDepth := none

theorem tokenA_ne_nil : js "a" ≠ [] := by decide

theorem tokenB_ne_nil : js "b" ≠ [] := by decide

theorem tokenC_ne_nil : js "c" ≠ [] := by decide

def tokenA : NonEmptyString := ⟨js "a", tokenA_ne_nil⟩

def tokenB : NonEmptyString := ⟨js "b", tokenB_ne_nil⟩

def tokenC : NonEmptyString := ⟨js "c", tokenC_ne_nil⟩

/-- A grandchild behind a child that was registered as revoked; then the root is revoked. -/
def hiddenRun : List Call :=
  [.register (linkedToken tokenA none false), .register (linkedToken tokenB (some tokenA.1) true),
    .register (linkedToken tokenC (some tokenB.1) false), .revokeTree tokenA.1]

/-- The root is revoked, and then its child is registered. -/
def lateRun : List Call :=
  [.register (linkedToken tokenA none false), .revokeTree tokenA.1,
    .register (linkedToken tokenB (some tokenA.1) false)]

/-- The grandchild in `hiddenRun` and the child in `lateRun` are allowed after the revocation. -/
theorem revocation_misses_descendants :
    (∃ s, session.run (fun _ _ => True) session.init hiddenRun = some s ∧ tokenA.1 ∈ s.called ∧
        Descends s.validator.tokens tokenA.1 tokenC.1 ∧
        s.validator.validate 0 tokenC.1 (js "x") (js "read") = none) ∧
      ∃ s, session.run (fun _ _ => True) session.init lateRun = some s ∧ tokenA.1 ∈ s.called ∧
        Descends s.validator.tokens tokenA.1 tokenB.1 ∧
        s.validator.validate 0 tokenB.1 (js "x") (js "read") = none := by
  constructor
  · refine ⟨_, rfl, by decide, ?_, by decide +kernel⟩
    exact (Descends.refl.step (c := tokenB.1) rfl rfl).step rfl rfl
  · refine ⟨_, rfl, by decide, ?_, by decide +kernel⟩
    exact Descends.refl.step rfl rfl

end BrowserMesh.Core
