import BrowserMesh.Core.Keyring
import BrowserMesh.Library.Transition

/-! # Succession under interleaving

Any number of calls run on one keyring; each waits for its signature checks, and other calls run meanwhile.

* **Edges.**  An edge is stored once in a run up to the first commit of a stale plan: a plan that was made
  before its signature checks and is no longer the plan that the keyring calls for (`PlanCurrent`).
* **Succession.**  `succession_atomic_iff`: along every run, edges are unique and every committed transfer
  moves exactly the children of its primary, if and only if every committed plan is current. -/

namespace BrowserMesh.Core

open Js Transition

variable {σ : Type}

/-! ### Edges -/

/-- An edge, from the parent to the child. -/
abbrev Edge := JsString × JsString

def KeyLink.edge (l : KeyLink σ) : Edge := (l.parent, l.child)

namespace Keyring

def edges (k : Keyring σ) : List Edge := k.links.map KeyLink.edge

theorem isEdge_iff {p c : JsString} {l : KeyLink σ} : l.isEdge p c = true ↔ l.edge = (p, c) := by
  simp [KeyLink.isEdge, KeyLink.edge]

theorem hasEdge_iff {k : Keyring σ} {p c : JsString} : k.hasEdge p c = true ↔ (p, c) ∈ k.edges := by
  simp only [hasEdge, List.any_eq_true, isEdge_iff, edges, List.mem_map]

theorem edges_unlink (k : Keyring σ) (p c : JsString) : (k.unlink p c).1.edges = k.edges.erase (p, c) := by
  simp only [unlink, edges]
  induction k.links with
  | nil => rfl
  | cons l links ih =>
      by_cases h : l.isEdge p c = true
      · rw [List.eraseP_cons_of_pos h, List.map_cons, isEdge_iff.mp h, List.erase_cons_head]
      · have hne : ¬ (l.edge == (p, c)) = true := fun he => h (isEdge_iff.mpr (eq_of_beq he))
        rw [List.eraseP_cons_of_neg h, List.map_cons, List.map_cons, List.erase_cons_tail hne, ih]

end Keyring

/-! ### A plan on edges -/

/-- A planned child, and whether it gets a replacement. -/
def Planned.entry (e : Planned σ) : JsString × Bool := (e.1.child, e.2.isSome)

def commitEdges (p s : JsString) (plan : List (JsString × Bool)) (es : List Edge) : List Edge :=
  plan.foldl (fun es e => es.erase (p, e.1) ++ if e.2 then [(s, e.1)] else []) es

variable {plan : List (JsString × Bool)}

theorem count_commitEdges (p s : JsString) (hn : (plan.map Prod.fst).Nodup) (es : List Edge) (a b : JsString) :
    (commitEdges p s plan es).count (a, b) =
      es.count (a, b) - (if a = p ∧ b ∈ plan.map Prod.fst then 1 else 0) +
        if a = s ∧ (b, true) ∈ plan then 1 else 0 := by
  induction plan generalizing es with
  | nil => simp [commitEdges]
  | cons e plan ih =>
      obtain ⟨c, flag⟩ := e
      rw [List.map_cons, List.nodup_cons] at hn
      have herase : (es.erase (p, c)).count (a, b) = es.count (a, b) - if a = p ∧ b = c then 1 else 0 := by
        rw [List.count_erase]
        congr 1
        by_cases h : a = p ∧ b = c
        · simp [h.1, h.2]
        · have hne : ¬ (p, c) = (a, b) := fun he => h ⟨(Prod.mk.inj he).1.symm, (Prod.mk.inj he).2.symm⟩
          simp [h, hne]
      have hpush : (if flag then [(s, c)] else []).count (a, b) = if a = s ∧ b = c ∧ flag = true then 1 else 0 := by
        by_cases h : a = s ∧ b = c
        · cases flag <;> simp [h.1, h.2]
        · have hne : ¬ (s, c) = (a, b) := fun he => h ⟨(Prod.mk.inj he).1.symm, (Prod.mk.inj he).2.symm⟩
          cases flag
          · simp
          · have h' : ¬ (a = s ∧ b = c ∧ true = true) := fun h' => h ⟨h'.1, h'.2.1⟩
            rw [if_neg h', if_pos rfl]
            exact List.count_eq_zero.mpr fun hm => hne (List.mem_singleton.mp hm).symm
      have hcons : commitEdges p s ((c, flag) :: plan) es =
          commitEdges p s plan (es.erase (p, c) ++ if flag then [(s, c)] else []) := rfl
      rw [hcons, ih hn.2, List.count_append, herase, hpush]
      by_cases hb : b = c
      · have hno : ∀ f, ¬ (c, f) ∈ plan := fun f h => hn.1 (List.mem_map.mpr ⟨(c, f), h, rfl⟩)
        have hno' : c ∉ plan.map Prod.fst := hn.1
        subst hb
        rw [List.map_cons]
        simp only [hno', hno, List.mem_cons, Prod.mk.injEq, true_and, or_false, and_false, if_false, and_true,
          Nat.sub_zero, Nat.add_zero, eq_comm (a := true)]
      · simp [hb]

variable {es : List Edge}

theorem mem_commitEdges {p s : JsString} (hn : (plan.map Prod.fst).Nodup) (hes : es.Nodup) {a b : JsString} :
    (a, b) ∈ commitEdges p s plan es ↔
      ((a, b) ∈ es ∧ ¬ (a = p ∧ b ∈ plan.map Prod.fst)) ∨ (a = s ∧ (b, true) ∈ plan) := by
  have hone : es.count (a, b) ≤ 1 := List.nodup_iff_count_le_one.mp hes _
  rw [← List.count_pos_iff, count_commitEdges p s hn, ← List.count_pos_iff (l := es)]
  by_cases hnew : a = s ∧ (b, true) ∈ plan
  · rw [if_pos hnew]
    exact iff_of_true (by omega) (Or.inr hnew)
  · by_cases hgone : a = p ∧ b ∈ plan.map Prod.fst
    · rw [if_neg hnew, if_pos hgone]
      exact iff_of_false (by omega) fun h => h.elim (fun h => h.2 hgone) hnew
    · rw [if_neg hnew, if_neg hgone, Nat.sub_zero, Nat.add_zero]
      exact ⟨fun h => Or.inl ⟨h, hgone⟩, fun h => (h.resolve_right hnew).1⟩

theorem nodup_commitEdges {p s : JsString} (hn : (plan.map Prod.fst).Nodup) (hes : es.Nodup) :
    (commitEdges p s plan es).Nodup ↔ ∀ b, (b, true) ∈ plan → s = p ∨ (s, b) ∉ es := by
  rw [List.nodup_iff_count_le_one]
  constructor
  · intro h b hb
    have hmem : b ∈ plan.map Prod.fst := List.mem_map_of_mem (f := Prod.fst) hb
    have hcount := h (s, b)
    rw [count_commitEdges p s hn, if_pos (show s = s ∧ (b, true) ∈ plan from ⟨rfl, hb⟩)] at hcount
    by_cases hs : s = p
    · exact Or.inl hs
    · right
      rw [if_neg fun hp => hs hp.1] at hcount
      exact List.count_eq_zero.mp (by omega)
  · rintro h ⟨a, b⟩
    have hone : es.count (a, b) ≤ 1 := List.nodup_iff_count_le_one.mp hes _
    rw [count_commitEdges p s hn]
    by_cases hnew : a = s ∧ (b, true) ∈ plan
    · have hmem : b ∈ plan.map Prod.fst := List.mem_map_of_mem (f := Prod.fst) hnew.2
      rw [if_pos hnew]
      rcases h b hnew.2 with hs | hs
      · rw [if_pos ⟨hnew.1.trans hs, hmem⟩]
        omega
      · rw [hnew.1, List.count_eq_zero.mpr hs]
        omega
    · rw [if_neg hnew]
      omega

/-- Every child of `p` moves under `s`, but `s` itself; the other edges stay. -/
def Moved (p s : JsString) (es es' : List Edge) : Prop :=
  ∀ a b, (a, b) ∈ es' ↔ (a ≠ p ∧ (a, b) ∈ es) ∨ (a = s ∧ b ≠ s ∧ (p, b) ∈ es)

/-- The plan that the edges call for: all children of `p` are planned (those of a primary that is its own
successor need not be), and a planned child gets a replacement if it is still a child of `p`, is not `s`
and has no edge from `s` that stays. -/
def PlanCurrent (p s : JsString) (plan : List (JsString × Bool)) (es : List Edge) : Prop :=
  (s ≠ p → ∀ b, (p, b) ∈ es → b ∈ plan.map Prod.fst) ∧
    ∀ e ∈ plan, e.2 = true ↔ (p, e.1) ∈ es ∧ e.1 ≠ s ∧ (s = p ∨ (s, e.1) ∉ es)

theorem commitEdges_iff {p s : JsString} (hn : (plan.map Prod.fst).Nodup) (hes : es.Nodup) (hself : ∀ a, (a, a) ∉ es) :
    (commitEdges p s plan es).Nodup ∧ Moved p s es (commitEdges p s plan es) ↔ PlanCurrent p s plan es := by
  have hflag : ∀ b flag, (b, flag) ∈ plan → ((b, true) ∈ plan ↔ flag = true) := by
    intro b flag hb
    constructor
    · intro hb'
      have := List.inj_on_of_nodup_map hn hb hb' rfl
      exact (Prod.mk.inj this).2
    · rintro rfl
      exact hb
  rw [nodup_commitEdges hn hes]
  constructor
  · rintro ⟨hfresh, hmoved⟩
    constructor
    · intro hs b hb
      by_contra hnot
      have hstay : (p, b) ∈ commitEdges p s plan es :=
        (mem_commitEdges hn hes).mpr (Or.inl ⟨hb, fun h => hnot h.2⟩)
      rcases (hmoved p b).mp hstay with h | h
      · exact h.1 rfl
      · exact hs h.1.symm
    · rintro ⟨b, flag⟩ hb
      rw [← hflag b flag hb]
      constructor
      · intro hnew
        have hin := (hmoved s b).mp ((mem_commitEdges hn hes).mpr (Or.inr ⟨rfl, hnew⟩))
        rcases hfresh b hnew with hs | hs
        · subst hs
          rcases hin with h | h
          · exact absurd rfl h.1
          · exact ⟨h.2.2, h.2.1, Or.inl rfl⟩
        · rcases hin with h | h
          · exact absurd h.2 hs
          · exact ⟨h.2.2, h.2.1, Or.inr hs⟩
      · rintro ⟨hchild, hne, hfree⟩
        have hin := (mem_commitEdges hn hes).mp ((hmoved s b).mpr (Or.inr ⟨rfl, hne, hchild⟩))
        rcases hin with ⟨hold, hkept⟩ | hnew
        · rcases hfree with hs | hs
          · exact absurd ⟨hs, List.mem_map_of_mem (f := Prod.fst) hb⟩ hkept
          · exact absurd hold hs
        · exact hnew.2
  · rintro ⟨hall, hplan⟩
    have hnew : ∀ b, (b, true) ∈ plan → (p, b) ∈ es ∧ b ≠ s ∧ (s = p ∨ (s, b) ∉ es) := fun b hb =>
      (hplan _ hb).mp rfl
    refine ⟨fun b hb => (hnew b hb).2.2, ?_⟩
    intro a b
    rw [mem_commitEdges hn hes]
    constructor
    · rintro (⟨hold, hkept⟩ | ⟨rfl, hb⟩)
      · by_cases hp : a = p
        · subst hp
          have hnot : b ∉ plan.map Prod.fst := fun h => hkept ⟨rfl, h⟩
          have hs : s = a := by
            by_contra hs
            exact hnot (hall hs b hold)
          subst hs
          refine Or.inr ⟨rfl, ?_, hold⟩
          rintro rfl
          exact hself _ hold
        · exact Or.inl ⟨hp, hold⟩
      · exact Or.inr ⟨rfl, (hnew b hb).2.1, (hnew b hb).1⟩
    · rintro (⟨hp, hold⟩ | ⟨rfl, hne, hchild⟩)
      · exact Or.inl ⟨hold, fun h => hp h.1⟩
      · by_cases hb : b ∈ plan.map Prod.fst
        · obtain ⟨⟨b', flag⟩, he, rfl⟩ := List.mem_map.mp hb
          by_cases hfree : a = p ∨ (a, b') ∉ es
          · right
            exact ⟨rfl, (hflag b' flag he).mpr ((hplan _ he).mpr ⟨hchild, hne, hfree⟩)⟩
          · rw [not_or, not_not] at hfree
            exact Or.inl ⟨hfree.2, fun h => hfree.1 h.1⟩
        · left
          by_cases hs : a = p
          · exact ⟨hs ▸ hchild, fun h => hb h.2⟩
          · exact absurd (hall hs b hchild) hb

/-! ### Planning and committing -/

/-- The replacements of a plan are links from `s` to the planned children, and never from `s` to itself. -/
def Fits (s : JsString) (plan : List (Planned σ)) : Prop :=
  ∀ e ∈ plan, ∀ r, e.2 = some r → r.edge = (s, e.1.child) ∧ e.1.child ≠ s

def planChildren (plan : List (Planned σ)) : List JsString := plan.map fun e => e.1.child

theorem map_fst_entry (plan : List (Planned σ)) :
    (plan.map Planned.entry).map Prod.fst = planChildren plan := by
  rw [List.map_map]
  rfl

namespace Keyring

theorem edges_commitSuccession {p s : JsString} {plan : List (Planned σ)} (h : Fits s plan) (k : Keyring σ) :
    (k.commitSuccession p plan).edges = commitEdges p s (plan.map Planned.entry) k.edges := by
  induction plan generalizing k with
  | nil => rfl
  | cons e plan ih =>
      obtain ⟨child, r⟩ := e
      have ih := ih fun e he => h e (List.mem_cons_of_mem _ he)
      cases r with
      | none =>
          refine (ih _).trans ?_
          rw [edges_unlink]
          simp [commitEdges, Planned.entry]
      | some r =>
          have hr : r.edge = (s, child.child) := (h _ List.mem_cons_self r rfl).1
          refine (ih _).trans ?_
          have hedges : ({ (k.unlink p child.child).1 with links := (k.unlink p child.child).1.links ++ [r] } :
              Keyring σ).edges = k.edges.erase (p, child.child) ++ [(s, child.child)] := by
            rw [← edges_unlink, ← hr]
            simp [edges]
          rw [hedges]
          rfl

theorem edge_checkReplacement {k : Keyring σ} {s : JsString} {opts : SuccessionOptions σ} {now : JsNumber}
    {child r : KeyLink σ} (h : k.checkReplacement s opts now child = .ok r) : r.edge = (s, child.child) := by
  unfold checkReplacement at h
  split at h
  · cases h
  · rename_i r' hfind
    split_ifs at h
    obtain rfl := Except.ok.inj h
    exact isEdge_iff.mp (List.find?_some hfind)

theorem planSuccession_cases {k : Keyring σ} {s : JsString} {opts : SuccessionOptions σ} {now : JsNumber}
    {plan : List (Planned σ)} {rest : List (KeyLink σ)} {r : Planning σ}
    (h : k.planSuccession s opts now plan rest = .ok r) (hfits : Fits s plan) :
    (∃ plan', r = .planned plan' ∧ Fits s plan' ∧
        planChildren plan' = planChildren plan ++ rest.map KeyLink.child) ∨
      ∃ plan' child replacement rest', r = .check plan' child replacement rest' ∧
        Fits s (plan' ++ [(child, some replacement)]) ∧
        planChildren (plan' ++ [(child, some replacement)]) ++ rest'.map KeyLink.child =
          planChildren plan ++ rest.map KeyLink.child := by
  induction rest generalizing plan with
  | nil =>
      obtain rfl := Except.ok.inj h
      exact Or.inl ⟨plan, rfl, hfits, by simp⟩
  | cons child rest ih =>
      rw [planSuccession] at h
      split_ifs at h with hnone
      · have hfits' : Fits s (plan ++ [(child, none)]) := by
          intro e he r hr
          rcases List.mem_append.mp he with he | he
          · exact hfits e he r hr
          · obtain rfl := List.mem_singleton.mp he
            cases hr
        rcases ih h hfits' with ⟨plan', hr, hf, hc⟩ | ⟨plan', child', replacement, rest', hr, hf, hc⟩
        · exact Or.inl ⟨plan', hr, hf, by simpa [planChildren] using hc⟩
        · exact Or.inr ⟨plan', child', replacement, rest', hr, hf, by simpa [planChildren] using hc⟩
      · rw [not_or] at hnone
        cases hcheck : k.checkReplacement s opts now child with
        | error e => rw [hcheck] at h; cases h
        | ok replacement =>
            rw [hcheck] at h
            obtain rfl := Except.ok.inj h
            refine Or.inr ⟨plan, child, replacement, rest, rfl, ?_, by simp [planChildren]⟩
            intro e he r hr
            rcases List.mem_append.mp he with he | he
            · exact hfits e he r hr
            · obtain rfl := List.mem_singleton.mp he
              obtain rfl := Option.some.inj hr
              exact ⟨edge_checkReplacement hcheck, hnone.1⟩

end Keyring

/-! ### Sessions -/

/-- A call that waits for its signature check. -/
inductive Waiting (σ : Type) where
  | link (l : KeyLink σ)
  | unlink (u : SignedKeyUnlink σ)
  | transfer (t : Transfer σ)

structure KeyringSession (σ : Type) where
  keyring : Keyring σ
  waiting : List (Waiting σ)

/-- Calls, and the continuation of a waiting call; `ok` is the result of its signature check. -/
inductive KeyringCall (σ : Type) where
  | link (parent child relation : JsString) (scope : Option (List JsString)) (expires : Expiry) (now : Created)
  | unlink (parent child : JsString)
  | addVerifiedLink (l : KeyLink σ) (now : JsNumber)
  | applyUnlink (u : SignedKeyUnlink σ)
  | setSuccessor (policy : SuccessionPolicy)
  | executeSuccession (primaryId : JsString) (opts : SuccessionOptions σ) (now : Created)
  | resume (i : ℕ) (ok : Bool) (now : JsNumber)

/-- The result of `executeSuccession`, or of a part of it. -/
abbrev Succession (σ : Type) := Except KeyringError (Keyring σ × (SuccessionResult ⊕ Transfer σ))

namespace KeyringSession

def succession (s : KeyringSession σ) : KeyringCall σ → Option (Succession σ)
  | .executeSuccession primaryId opts now => some (s.keyring.executeSuccession primaryId opts now)
  | .resume i ok now =>
      match s.waiting[i]? with
      | some (.transfer t) => some (s.keyring.resumeSuccession t ok now)
      | _ => none
  | _ => none

/-- The keyring and the waiting calls after a part of a succession; a call that rejects changes nothing. -/
def settle (s : KeyringSession σ) : Succession σ → KeyringSession σ
  | .error _ => s
  | .ok (keyring, .inl _) => { s with keyring }
  | .ok (keyring, .inr t) => { keyring, waiting := s.waiting ++ [.transfer t] }

def update (s : KeyringSession σ) : Except KeyringError (Keyring σ) → KeyringSession σ
  | .error _ => s
  | .ok keyring => { s with keyring }

def step (s : KeyringSession σ) : KeyringCall σ → Option (KeyringSession σ)
  | .link parent child relation scope expires now =>
      some (s.update (s.keyring.link parent child relation scope expires now))
  | .unlink parent child => some { s with keyring := (s.keyring.unlink parent child).1 }
  | .addVerifiedLink l now =>
      match s.keyring.checkLink l now with
      | .error _ => some s
      | .ok () => some { s with waiting := s.waiting ++ [.link l] }
  | .applyUnlink u =>
      match s.keyring.checkUnlink u with
      | .error _ => some s
      | .ok () => some { s with waiting := s.waiting ++ [.unlink u] }
  | .setSuccessor policy => some { s with keyring := s.keyring.setSuccessor policy }
  | .executeSuccession primaryId opts now => some (s.settle (s.keyring.executeSuccession primaryId opts now))
  | .resume i ok now =>
      let s' := { s with waiting := s.waiting.eraseIdx i }
      match s.waiting[i]? with
      | none => none
      | some (.link l) => some (s'.update (s.keyring.insertLink l ok))
      | some (.unlink u) => some (s'.update ((s.keyring.recordUnlink u ok now).map Prod.fst))
      | some (.transfer t) => some (s'.settle (s.keyring.resumeSuccession t ok now))

/-- The transfer with supplied links that the call commits: the primary, the successor and the plan. -/
def committed (s : KeyringSession σ) : KeyringCall σ → Option (JsString × JsString × List (Planned σ))
  | .executeSuccession primaryId opts now =>
      match s.keyring.successions.get? primaryId with
      | none => none
      | some policy =>
          if policy.action = .transfer ∧ opts.localOnly = false then
            match s.keyring.planSuccession policy.successorId opts now.val [] (s.keyring.getChildren primaryId) with
            | .ok (.planned plan) => some (primaryId, policy.successorId, plan)
            | _ => none
          else none
  | .resume i ok now =>
      match s.waiting[i]? with
      | some (.transfer t) =>
          if ok then
            match s.keyring.planSuccession t.policy.successorId t.opts now
                (t.plan ++ [(t.child, some t.replacement)]) t.rest with
            | .ok (.planned plan) => some (t.primaryId, t.policy.successorId, plan)
            | _ => none
          else none
      | _ => none
  | _ => none

/-- What a step from `s` to `s'` should do. -/
structure Atomic (s : KeyringSession σ) (a : KeyringCall σ) (s' : KeyringSession σ) : Prop where
  /-- No edge is stored twice. -/
  unique : s'.keyring.edges.Nodup
  /-- After `unlink` returned true the edge is gone. -/
  unlinked : ∀ parent child, a = .unlink parent child → (s.keyring.unlink parent child).2 = true →
    (parent, child) ∉ s'.keyring.edges
  /-- A transfer with supplied links moves every child of its primary. -/
  moved : ∀ primaryId successorId plan, s.committed a = some (primaryId, successorId, plan) →
    Moved primaryId successorId s.keyring.edges s'.keyring.edges
  /-- Until it does, and when it rejects, a succession leaves the keyring as it is. -/
  untouched : ∀ r, s.succession a = some r → (∀ keyring result, r ≠ .ok (keyring, .inl result)) →
    s'.keyring.links = s.keyring.links ∧ s'.keyring.successions = s.keyring.successions

end KeyringSession

def keyringSession (σ : Type) (namespace' : Option JsString) (acceptLegacyV2 : Bool) :
    Machine (KeyringSession σ) (KeyringCall σ) :=
  ⟨⟨Keyring.new namespace' acceptLegacyV2, []⟩, KeyringSession.step⟩

def KeyringSession.AtomicStep (s : KeyringSession σ) (a : KeyringCall σ) : Prop := ∀ s', s.step a = some s' → s.Atomic a s'

def KeyringSession.CommitsCurrent (s : KeyringSession σ) (a : KeyringCall σ) : Prop :=
  ∀ primaryId successorId plan, s.committed a = some (primaryId, successorId, plan) →
    PlanCurrent primaryId successorId (plan.map Planned.entry) s.keyring.edges

/-! ### The invariant -/

/-- A waiting transfer has a plan that fits, and plans no child twice. -/
structure Transfer.Planned (t : Transfer σ) : Prop where
  fits : Fits t.policy.successorId (t.plan ++ [(t.child, some t.replacement)])
  nodup : (planChildren (t.plan ++ [(t.child, some t.replacement)]) ++ t.rest.map KeyLink.child).Nodup

/-- Between the steps of a run in which all committed plans are current. -/
structure KeyringSession.Inv (s : KeyringSession σ) : Prop where
  unique : s.keyring.edges.Nodup
  noSelf : ∀ a, (a, a) ∉ s.keyring.edges
  links : ∀ l, .link l ∈ s.waiting → l.parent ≠ l.child
  transfers : ∀ t, .transfer t ∈ s.waiting → t.Planned

namespace Keyring

variable {k k' : Keyring σ}

theorem edges_sublist (h : k'.links.Sublist k.links) : k'.edges.Sublist k.edges := h.map _

variable {now : Created}

theorem link_cases {parent child relation : JsString} {scope : Option (List JsString)}
    {expires : Expiry} (h : k.link parent child relation scope expires now = .ok k') :
    parent ≠ child ∧ (parent, child) ∉ k.edges ∧ k'.edges = k.edges ++ [(parent, child)] := by
  unfold link at h
  split_ifs at h with hrel hself hedge
  obtain rfl := Except.ok.inj h
  refine ⟨hself, fun hin => hedge (hasEdge_iff.mpr hin), ?_⟩
  simp [edges, KeyLink.edge]

theorem insertLink_cases {l : KeyLink σ} {valid : Bool} (h : k.insertLink l valid = .ok k') :
    l.edge ∉ k.edges ∧ k'.edges = k.edges ++ [l.edge] := by
  unfold insertLink at h
  split_ifs at h with hvalid hedge
  obtain rfl := Except.ok.inj h
  refine ⟨fun hin => hedge (hasEdge_iff.mpr hin), ?_⟩
  simp [edges]

theorem edges_recordUnlink {u : SignedKeyUnlink σ} {ok : Bool} {now : JsNumber}
    (h : (k.recordUnlink u ok now).map Prod.fst = .ok k') : k'.edges.Sublist k.edges := by
  unfold recordUnlink at h
  split_ifs at h
  · cases h
  · obtain rfl := Except.ok.inj h
    exact List.Sublist.refl _
  · obtain rfl := Except.ok.inj h
    exact edges_sublist List.filter_sublist

theorem transferFrom_cases (k : Keyring σ) (p : JsString) (policy : SuccessionPolicy) (opts : SuccessionOptions σ)
    (now : JsNumber) (plan : List (Planned σ)) (rest : List (KeyLink σ)) :
    (∃ e, k.planSuccession policy.successorId opts now plan rest = .error e ∧
        k.transferFrom p policy opts now plan rest = .error e) ∨
      (∃ plan' result, k.planSuccession policy.successorId opts now plan rest = .ok (.planned plan') ∧
        k.transferFrom p policy opts now plan rest =
          .ok (((k.commitSuccession p plan').finishSuccession p policy plan'.length).1, .inl result)) ∨
      ∃ plan' child r rest', k.planSuccession policy.successorId opts now plan rest =
          .ok (.check plan' child r rest') ∧
        k.transferFrom p policy opts now plan rest = .ok (k, .inr ⟨p, policy, opts, plan', child, r, rest'⟩) := by
  rw [transferFrom]
  cases h : k.planSuccession policy.successorId opts now plan rest with
  | error e => exact Or.inl ⟨e, rfl, rfl⟩
  | ok r =>
      cases r with
      | planned plan' => exact Or.inr (Or.inl ⟨plan', _, rfl, rfl⟩)
      | check plan' child r rest' => exact Or.inr (Or.inr ⟨plan', child, r, rest', rfl, rfl⟩)

theorem relinkLocally_edges {p s : JsString} {child : KeyLink σ}
    (hn : k.edges.Nodup) (hself : ∀ a, (a, a) ∉ k.edges) (h : k.relinkLocally p s now child = .ok k') :
    k'.edges.Nodup ∧ ∀ a, (a, a) ∉ k'.edges := by
  have hsub : (k.unlink p child.child).1.edges.Sublist k.edges := by
    rw [edges_unlink]
    exact List.erase_sublist
  have hn' := hn.sublist hsub
  have hself' : ∀ a, (a, a) ∉ (k.unlink p child.child).1.edges := fun a ha => hself a (hsub.subset ha)
  rw [relinkLocally] at h
  split_ifs at h
  · obtain ⟨hne, hnew, hedges⟩ := link_cases h
    rw [hedges]
    refine ⟨?_, ?_⟩
    · rw [List.nodup_append]
      refine ⟨hn', List.nodup_singleton _, ?_⟩
      rintro e he e' he' rfl
      exact hnew (List.mem_singleton.mp he' ▸ he)
    · intro a ha
      rcases List.mem_append.mp ha with ha | ha
      · exact hself' a ha
      · obtain ⟨rfl, rfl⟩ := Prod.mk.inj (List.mem_singleton.mp ha)
        exact hne rfl
  · obtain rfl := Except.ok.inj h
    exact ⟨hn', hself'⟩

theorem foldlM_relinkLocally_edges {p s : JsString} (children : List (KeyLink σ))
    (hn : k.edges.Nodup) (hself : ∀ a, (a, a) ∉ k.edges)
    (h : children.foldlM (fun k child => k.relinkLocally p s now child) k = .ok k') :
    k'.edges.Nodup ∧ ∀ a, (a, a) ∉ k'.edges := by
  induction children generalizing k with
  | nil =>
      obtain rfl := Except.ok.inj h
      exact ⟨hn, hself⟩
  | cons child children ih =>
      rw [List.foldlM_cons] at h
      cases hone : k.relinkLocally p s now child with
      | error e => rw [hone] at h; cases h
      | ok k₁ =>
          rw [hone] at h
          obtain ⟨hn₁, hself₁⟩ := relinkLocally_edges hn hself hone
          exact ih hn₁ hself₁ h

theorem foldl_unlink_edges {p : JsString} (children : List (KeyLink σ)) (k : Keyring σ) :
    (children.foldl (fun k child => (k.unlink p child.child).1) k).edges.Sublist k.edges := by
  induction children generalizing k with
  | nil => exact List.Sublist.refl _
  | cons child children ih =>
      refine (ih _).trans ?_
      rw [edges_unlink]
      exact List.erase_sublist

theorem nodup_getChildren (hn : k.edges.Nodup) (p : JsString) :
    ((k.getChildren p).map KeyLink.child).Nodup := by
  have hsub : ((k.getChildren p).map KeyLink.edge).Nodup := hn.sublist (List.filter_sublist.map _)
  have hedge : (k.getChildren p).map KeyLink.edge = ((k.getChildren p).map KeyLink.child).map (p, ·) := by
    rw [List.map_map]
    apply List.map_congr_left
    intro l hl
    have hp : l.parent = p := by simpa using (List.mem_filter.mp hl).2
    rw [KeyLink.edge, hp]
    rfl
  rw [hedge] at hsub
  exact hsub.of_map _

end Keyring
/-! ### Steps -/

namespace KeyringSession
variable {s s' : KeyringSession σ} {a : KeyringCall σ}

/-- Nothing is asked of a step that is no succession and no `unlink`, but that it keeps the edges unique. -/
theorem atomic_of_unique (hn : s'.keyring.edges.Nodup) (hc : s.committed a = none)
    (hu : ∀ parent child, a ≠ .unlink parent child) (hs : s.succession a = none) : s.Atomic a s' where
  unique := hn
  unlinked := fun parent child ha => absurd ha (hu parent child)
  moved := fun _ _ _ hsome => (by rw [hc] at hsome; cases hsome)
  untouched := fun _ hsome => (by rw [hs] at hsome; cases hsome)

theorem atomic_of_succession {r : Succession σ} (hn : s'.keyring.edges.Nodup) (hc : s.committed a = none)
    (hu : ∀ parent child, a ≠ .unlink parent child) (hs : s.succession a = some r)
    (hr : (∃ keyring result, r = .ok (keyring, .inl result)) ∨ s'.keyring = s.keyring) : s.Atomic a s' where
  unique := hn
  unlinked := fun parent child ha => absurd ha (hu parent child)
  moved := fun _ _ _ hsome => (by rw [hc] at hsome; cases hsome)
  untouched := by
    intro r' hr' hnot
    obtain rfl := Option.some.inj (hs.symm.trans hr')
    rcases hr with ⟨keyring, result, hr⟩ | hsame
    · exact absurd hr (hnot keyring result)
    · rw [hsame]
      exact ⟨rfl, rfl⟩

/-- Fewer edges and fewer waiting calls keep the invariant. -/
theorem Inv.mono (h : s.Inv) (he : s'.keyring.edges.Sublist s.keyring.edges)
    (hw : ∀ w ∈ s'.waiting, w ∈ s.waiting) : s'.Inv where
  unique := h.unique.sublist he
  noSelf := fun a ha => h.noSelf a (he.subset ha)
  links := fun l hl => h.links l (hw _ hl)
  transfers := fun t ht => h.transfers t (hw _ ht)

theorem Inv.concat (h : s.Inv) {e : Edge} (hself : e.1 ≠ e.2) (hnew : e ∉ s.keyring.edges)
    (he : s'.keyring.edges = s.keyring.edges ++ [e]) (hw : ∀ w ∈ s'.waiting, w ∈ s.waiting) : s'.Inv where
  unique := by
    rw [he, List.nodup_append]
    refine ⟨h.unique, List.nodup_singleton e, ?_⟩
    rintro a ha b hb rfl
    exact hnew (List.mem_singleton.mp hb ▸ ha)
  noSelf := by
    intro a ha
    rw [he] at ha
    rcases List.mem_append.mp ha with ha | ha
    · exact h.noSelf a ha
    · obtain rfl := List.mem_singleton.mp ha
      exact hself rfl
  links := fun l hl => h.links l (hw _ hl)
  transfers := fun t ht => h.transfers t (hw _ ht)

theorem Inv.wait (h : s.Inv) {w : Waiting σ} {waiting : List (Waiting σ)} (hold : ∀ w ∈ waiting, w ∈ s.waiting)
    (hl : ∀ l, w = .link l → l.parent ≠ l.child) (ht : ∀ t, w = .transfer t → t.Planned) :
    Inv ⟨s.keyring, waiting ++ [w]⟩ where
  unique := h.unique
  noSelf := h.noSelf
  links := by
    intro l hmem
    rcases List.mem_append.mp hmem with hmem | hmem
    · exact h.links l (hold _ hmem)
    · exact hl l (List.mem_singleton.mp hmem).symm
  transfers := by
    intro t hmem
    rcases List.mem_append.mp hmem with hmem | hmem
    · exact h.transfers t (hold _ hmem)
    · exact ht t (List.mem_singleton.mp hmem).symm

theorem planned_of_check {k : Keyring σ} {p : JsString} {policy : SuccessionPolicy} {opts : SuccessionOptions σ}
    {now : JsNumber} {plan plan' : List (Planned σ)} {rest rest' : List (KeyLink σ)} {child r : KeyLink σ}
    (h : k.planSuccession policy.successorId opts now plan rest = .ok (.check plan' child r rest'))
    (hfits : Fits policy.successorId plan) (hn : (planChildren plan ++ rest.map KeyLink.child).Nodup) :
    Transfer.Planned ⟨p, policy, opts, plan', child, r, rest'⟩ := by
  obtain ⟨_, hr, -⟩ | ⟨_, _, _, _, hr, hfits', hchildren⟩ := Keyring.planSuccession_cases h hfits
  · cases hr
  · cases hr
    exact ⟨hfits', by rw [hchildren]; exact hn⟩

/-- A step that commits no transfer keeps the invariant, and is as it should be. -/
theorem Inv.step_other (h : s.Inv) (hs : s.step a = some s') (hc : s.committed a = none) :
    s.Atomic a s' ∧ s'.Inv := by
  cases a with
  | link parent child relation scope expires now =>
      obtain rfl := Option.some.inj hs
      have hinv : (s.update (s.keyring.link parent child relation scope expires now)).Inv := by
        cases hl : s.keyring.link parent child relation scope expires now with
        | error e => exact h
        | ok k =>
            obtain ⟨hne, hnew, hedges⟩ := Keyring.link_cases hl
            exact h.concat hne hnew hedges fun _ hw => hw
      exact ⟨atomic_of_unique hinv.unique hc (fun _ _ ha => (by cases ha)) rfl, hinv⟩
  | unlink parent child =>
      obtain rfl := Option.some.inj hs
      have hedges := s.keyring.edges_unlink parent child
      refine ⟨⟨?_, ?_, fun _ _ _ hsome => (by cases hsome), fun _ hsome => (by cases hsome)⟩, ?_⟩
      · rw [hedges]
        exact h.unique.erase _
      · intro parent' child' ha _
        cases ha
        rw [hedges]
        exact h.unique.not_mem_erase
      · exact h.mono (hedges ▸ List.erase_sublist) fun _ hw => hw
  | addVerifiedLink l now =>
      simp only [step] at hs
      cases hl : s.keyring.checkLink l now with
      | error e =>
          rw [hl] at hs
          obtain rfl := Option.some.inj hs
          exact ⟨atomic_of_unique h.unique hc (fun _ _ ha => (by cases ha)) rfl, h⟩
      | ok _ =>
          rw [hl] at hs
          obtain rfl := Option.some.inj hs
          have hne : l.parent ≠ l.child := by
            unfold Keyring.checkLink at hl
            split_ifs at hl with _ _ hself
            exact hself
          refine ⟨atomic_of_unique h.unique hc (fun _ _ ha => (by cases ha)) rfl, ?_⟩
          refine h.wait (fun _ hw => hw) (fun l' hl' => ?_) fun _ ht => (by cases ht)
          cases hl'
          exact hne
  | applyUnlink u =>
      simp only [step] at hs
      cases hu : s.keyring.checkUnlink u with
      | error e =>
          rw [hu] at hs
          obtain rfl := Option.some.inj hs
          exact ⟨atomic_of_unique h.unique hc (fun _ _ ha => (by cases ha)) rfl, h⟩
      | ok _ =>
          rw [hu] at hs
          obtain rfl := Option.some.inj hs
          exact ⟨atomic_of_unique h.unique hc (fun _ _ ha => (by cases ha)) rfl,
            h.wait (fun _ hw => hw) (fun _ hl => (by cases hl)) fun _ ht => (by cases ht)⟩
  | setSuccessor policy =>
      obtain rfl := Option.some.inj hs
      exact ⟨atomic_of_unique h.unique hc (fun _ _ ha => (by cases ha)) rfl,
        h.mono (List.Sublist.refl _) fun _ hw => hw⟩
  | executeSuccession primaryId opts now =>
      obtain rfl := Option.some.inj hs
      have hnot : ∀ parent child, (.executeSuccession primaryId opts now : KeyringCall σ) ≠ .unlink parent child :=
        fun _ _ ha => (by cases ha)
      -- it rejects, it is done, or it waits
      have hdone : ∀ k result, s.keyring.executeSuccession primaryId opts now = .ok (k, .inl result) →
          k.edges.Nodup → (∀ a, (a, a) ∉ k.edges) →
          s.Atomic (.executeSuccession primaryId opts now) (s.settle (s.keyring.executeSuccession primaryId opts now)) ∧
            (s.settle (s.keyring.executeSuccession primaryId opts now)).Inv := by
        intro k result hr hn hself
        rw [hr]
        exact ⟨atomic_of_succession hn hc hnot (by rw [succession, hr]) (Or.inl ⟨k, result, rfl⟩),
          ⟨hn, hself, h.links, h.transfers⟩⟩
      have herror : ∀ e, s.keyring.executeSuccession primaryId opts now = .error e →
          s.Atomic (.executeSuccession primaryId opts now) (s.settle (s.keyring.executeSuccession primaryId opts now)) ∧
            (s.settle (s.keyring.executeSuccession primaryId opts now)).Inv := by
        intro e hr
        rw [hr]
        exact ⟨atomic_of_succession h.unique hc hnot (by rw [succession, hr]) (Or.inr rfl), h⟩
      cases hpolicy : s.keyring.successions.get? primaryId with
      | none => exact herror _ (by rw [Keyring.executeSuccession, hpolicy])
      | some policy =>
          cases haction : policy.action with
          | transfer =>
              cases hlocal : opts.localOnly with
              | true =>
                  cases hrun : (s.keyring.getChildren primaryId).foldlM
                      (fun k child => k.relinkLocally primaryId policy.successorId now child) s.keyring with
                  | error e =>
                      refine herror e ?_
                      rw [Keyring.executeSuccession, hpolicy]
                      simp only [haction, hlocal, if_true, hrun]
                  | ok k =>
                      obtain ⟨hn, hself⟩ := Keyring.foldlM_relinkLocally_edges _ h.unique h.noSelf hrun
                      refine hdone (k.finishSuccession primaryId policy (s.keyring.getChildren primaryId).length).1
                        (k.finishSuccession primaryId policy (s.keyring.getChildren primaryId).length).2 ?_ hn hself
                      rw [Keyring.executeSuccession, hpolicy]
                      simp only [haction, hlocal, if_true, hrun]
              | false =>
                  have hexec : s.keyring.executeSuccession primaryId opts now =
                      s.keyring.transferFrom primaryId policy opts now.val [] (s.keyring.getChildren primaryId) := by
                    rw [Keyring.executeSuccession, hpolicy]
                    simp only [haction, hlocal, Bool.false_eq_true, if_false]
                  rcases s.keyring.transferFrom_cases primaryId policy opts now.val []
                      (s.keyring.getChildren primaryId) with
                    ⟨e, -, hrun⟩ | ⟨plan, result, hplan, -⟩ | ⟨plan, child, r, rest, hplan, hrun⟩
                  · exact herror e (hexec.trans hrun)
                  · simp only [committed, hpolicy, haction, hlocal, and_self, if_true, hplan] at hc
                    cases hc
                  · have hr := hexec.trans hrun
                    rw [hr]
                    refine ⟨atomic_of_succession h.unique hc hnot (by rw [succession, hr]) (Or.inr rfl), ?_⟩
                    refine h.wait (fun _ hw => hw) (fun _ hl => (by cases hl)) ?_
                    intro t ht
                    cases ht
                    exact planned_of_check hplan (fun _ he => (by cases he))
                      (by simpa [planChildren] using Keyring.nodup_getChildren h.unique primaryId)
          | revoke =>
              have hsub := Keyring.foldl_unlink_edges (p := primaryId) (s.keyring.getChildren primaryId) s.keyring
              generalize hk : (s.keyring.getChildren primaryId).foldl
                (fun k child => (k.unlink primaryId child.child).1) s.keyring = k at hsub
              refine hdone (k.finishSuccession primaryId policy (s.keyring.getChildren primaryId).length).1
                (k.finishSuccession primaryId policy (s.keyring.getChildren primaryId).length).2 ?_
                (h.unique.sublist hsub) fun a ha => h.noSelf a (hsub.subset ha)
              rw [Keyring.executeSuccession, hpolicy]
              simp only [haction, hk]
          | notify =>
              refine hdone (s.keyring.finishSuccession primaryId policy (s.keyring.getChildren primaryId).length).1
                (s.keyring.finishSuccession primaryId policy (s.keyring.getChildren primaryId).length).2 ?_
                h.unique h.noSelf
              rw [Keyring.executeSuccession, hpolicy]
              simp only [haction]
  | resume i ok now =>
      have hnot : ∀ parent child, (.resume i ok now : KeyringCall σ) ≠ .unlink parent child := fun _ _ ha => (by cases ha)
      have hwaiting : ∀ w ∈ s.waiting.eraseIdx i, w ∈ s.waiting := fun w hw => List.mem_of_mem_eraseIdx hw
      have hrest : Inv ⟨s.keyring, s.waiting.eraseIdx i⟩ := h.mono (List.Sublist.refl _) hwaiting
      cases hw : s.waiting[i]? with
      | none => simp [step, hw] at hs
      | some w =>
          cases w with
          | link l =>
              simp only [step, hw] at hs
              obtain rfl := Option.some.inj hs
              have hsucc : s.succession (.resume i ok now) = none := by simp only [succession, hw]
              cases hl : s.keyring.insertLink l ok with
              | error e => exact ⟨atomic_of_unique h.unique hc hnot hsucc, hrest⟩
              | ok k =>
                  obtain ⟨hnew, hedges⟩ := Keyring.insertLink_cases hl
                  have hinv : Inv ⟨k, s.waiting.eraseIdx i⟩ :=
                    h.concat (h.links l (List.mem_of_getElem? hw)) hnew hedges hwaiting
                  exact ⟨atomic_of_unique hinv.unique hc hnot hsucc, hinv⟩
          | unlink u =>
              simp only [step, hw] at hs
              obtain rfl := Option.some.inj hs
              have hsucc : s.succession (.resume i ok now) = none := by simp only [succession, hw]
              cases hu : (s.keyring.recordUnlink u ok now).map Prod.fst with
              | error e => exact ⟨atomic_of_unique h.unique hc hnot hsucc, hrest⟩
              | ok k =>
                  have hinv : Inv ⟨k, s.waiting.eraseIdx i⟩ := h.mono (Keyring.edges_recordUnlink hu) hwaiting
                  exact ⟨atomic_of_unique hinv.unique hc hnot hsucc, hinv⟩
          | transfer t =>
              simp only [step, hw] at hs
              obtain rfl := Option.some.inj hs
              have hsucc : s.succession (.resume i ok now) = some (s.keyring.resumeSuccession t ok now) := by
                simp only [succession, hw]
              have hplanned := h.transfers t (List.mem_of_getElem? hw)
              have herror : ∀ e, s.keyring.resumeSuccession t ok now = .error e →
                  s.Atomic (.resume i ok now) (settle ⟨s.keyring, s.waiting.eraseIdx i⟩
                    (s.keyring.resumeSuccession t ok now)) ∧
                  (settle ⟨s.keyring, s.waiting.eraseIdx i⟩ (s.keyring.resumeSuccession t ok now)).Inv := by
                intro e hr
                rw [hr] at hsucc ⊢
                exact ⟨atomic_of_succession h.unique hc hnot hsucc (Or.inr rfl), hrest⟩
              cases hok : ok with
              | false =>
                  subst hok
                  exact herror _ rfl
              | true =>
                  subst hok
                  have hresume : s.keyring.resumeSuccession t true now = s.keyring.transferFrom t.primaryId t.policy
                      t.opts now (t.plan ++ [(t.child, some t.replacement)]) t.rest := rfl
                  rcases s.keyring.transferFrom_cases t.primaryId t.policy t.opts now
                      (t.plan ++ [(t.child, some t.replacement)]) t.rest with
                    ⟨e, -, hrun⟩ | ⟨plan, result, hplan, -⟩ | ⟨plan, child, r, rest, hplan, hrun⟩
                  · exact herror e (hresume.trans hrun)
                  · simp only [committed, hw, if_true, hplan] at hc
                    cases hc
                  · have hr := hresume.trans hrun
                    rw [hr] at hsucc ⊢
                    refine ⟨atomic_of_succession h.unique hc hnot hsucc (Or.inr rfl), ?_⟩
                    refine h.wait hwaiting (fun _ hl => (by cases hl)) ?_
                    intro t' ht'
                    cases ht'
                    exact planned_of_check hplan hplanned.fits hplanned.nodup

theorem Inv.step_committed (h : s.Inv) (hs : s.step a = some s') {p succ : JsString} {plan : List (Planned σ)}
    (hc : s.committed a = some (p, succ, plan)) :
    (planChildren plan).Nodup ∧ Fits succ plan ∧
      s'.keyring.edges = commitEdges p succ (plan.map Planned.entry) s.keyring.edges ∧
      (∀ w ∈ s'.waiting, w ∈ s.waiting) ∧ ∃ keyring result, s.succession a = some (.ok (keyring, .inl result)) := by
  cases a with
  | executeSuccession primaryId opts now =>
      simp only [committed] at hc
      split at hc
      · cases hc
      · rename_i policy hpolicy
        split_ifs at hc with htransfer
        rcases s.keyring.transferFrom_cases primaryId policy opts now.val [] (s.keyring.getChildren primaryId) with
          ⟨e, hplan, -⟩ | ⟨plan', result, hplan, hrun⟩ | ⟨plan', child, r, rest, hplan, -⟩
        · rw [hplan] at hc; cases hc
        · rw [hplan] at hc
          obtain ⟨rfl, rfl, rfl⟩ : primaryId = p ∧ policy.successorId.val = succ ∧ plan' = plan := by
            simpa using hc
          obtain ⟨plan₁, hr, hfits, hchildren⟩ | ⟨_, _, _, _, hr, -⟩ :=
            Keyring.planSuccession_cases hplan fun e he => (by cases he)
          · cases hr
            have hexec : s.keyring.executeSuccession primaryId opts now = .ok
                (((s.keyring.commitSuccession primaryId plan').finishSuccession primaryId policy plan'.length).1,
                  .inl result) := by
              rw [Keyring.executeSuccession, hpolicy]
              simp only [htransfer.1, htransfer.2, Bool.false_eq_true, if_false, hrun]
            obtain rfl : s.settle (s.keyring.executeSuccession primaryId opts now) = s' := Option.some.inj hs
            rw [hexec]
            refine ⟨?_, hfits, ?_, fun _ hw => hw, _, _, by rw [succession, hexec]⟩
            · rw [hchildren]
              simpa [planChildren] using Keyring.nodup_getChildren h.unique primaryId
            · exact Keyring.edges_commitSuccession hfits s.keyring
          · cases hr
        · rw [hplan] at hc; cases hc
  | resume i ok now =>
      simp only [committed] at hc
      split at hc
      · rename_i t ht
        split_ifs at hc with hok
        rcases s.keyring.transferFrom_cases t.primaryId t.policy t.opts now
            (t.plan ++ [(t.child, some t.replacement)]) t.rest with
          ⟨e, hplan, -⟩ | ⟨plan', result, hplan, hrun⟩ | ⟨plan', child, r, rest, hplan, -⟩
        · rw [hplan] at hc; cases hc
        · rw [hplan] at hc
          obtain ⟨rfl, rfl, rfl⟩ : t.primaryId = p ∧ t.policy.successorId.val = succ ∧ plan' = plan := by
            simpa using hc
          have hplanned := h.transfers t (List.mem_of_getElem? ht)
          obtain ⟨plan₁, hr, hfits, hchildren⟩ | ⟨_, _, _, _, hr, -⟩ :=
            Keyring.planSuccession_cases hplan hplanned.fits
          · cases hr
            have hresume : s.keyring.resumeSuccession t ok now = .ok
                (((s.keyring.commitSuccession t.primaryId plan').finishSuccession t.primaryId t.policy
                  plan'.length).1, .inl result) := by
              rw [Keyring.resumeSuccession, if_neg (by simp [hok]), hrun]
            simp only [step, ht, hresume] at hs
            obtain rfl := Option.some.inj hs
            have hsucc : s.succession (.resume i ok now) = some (.ok
                (((s.keyring.commitSuccession t.primaryId plan').finishSuccession t.primaryId t.policy
                  plan'.length).1, .inl result)) := by simp only [succession, ht, hresume]
            refine ⟨?_, hfits, ?_, fun w hw => List.mem_of_mem_eraseIdx hw, _, _, hsucc⟩
            · rw [hchildren]
              exact hplanned.nodup
            · exact Keyring.edges_commitSuccession hfits s.keyring
          · cases hr
        · rw [hplan] at hc; cases hc
      · cases hc
  | link => cases hc
  | unlink => cases hc
  | addVerifiedLink => cases hc
  | applyUnlink => cases hc
  | setSuccessor => cases hc

/-- One step from the invariant is as it should be if and only if the plan that it commits is current; the
invariant holds after it. -/
theorem Inv.step_iff (h : s.Inv) (hs : s.step a = some s') :
    (s.AtomicStep a ↔ s.CommitsCurrent a) ∧ (s.CommitsCurrent a → s'.Inv) := by
  have hstep : s.AtomicStep a ↔ s.Atomic a s' := by
    constructor
    · exact fun hall => hall s' hs
    · intro hone s'' hs''
      rwa [← Option.some.inj (hs.symm.trans hs'')]
  rw [hstep]
  cases hc : s.committed a with
  | none =>
      obtain ⟨hatomic, hinv⟩ := h.step_other hs hc
      exact ⟨iff_of_true hatomic fun _ _ _ hsome => (by rw [hc] at hsome; cases hsome), fun _ => hinv⟩
  | some c =>
      obtain ⟨p, succ, plan⟩ := c
      obtain ⟨hn, hfits, hedges, hwaiting, keyring, result, hsucc⟩ := h.step_committed hs hc
      have hcurrent : s.CommitsCurrent a ↔ PlanCurrent p succ (plan.map Planned.entry) s.keyring.edges := by
        constructor
        · exact fun hall => hall p succ plan hc
        · intro hone p' succ' plan' hc'
          obtain ⟨rfl, rfl, rfl⟩ : p = p' ∧ succ = succ' ∧ plan = plan' := by
            simpa using hc.symm.trans hc'
          exact hone
      have hentries : ((plan.map Planned.entry).map Prod.fst).Nodup := by
        rw [map_fst_entry]
        exact hn
      have hiff := commitEdges_iff (p := p) (s := succ) hentries h.unique h.noSelf
      rw [← hedges] at hiff
      rw [hcurrent, ← hiff]
      constructor
      · constructor
        · exact fun hatomic => ⟨hatomic.unique, hatomic.moved p succ plan hc⟩
        · rintro ⟨hunique, hmoved⟩
          constructor
          case unique => exact hunique
          case unlinked =>
            rintro parent child rfl
            cases hc
          case moved =>
            intro p' succ' plan' hc'
            obtain ⟨rfl, rfl, rfl⟩ : p = p' ∧ succ = succ' ∧ plan = plan' := by
              simpa using hc.symm.trans hc'
            exact hmoved
          case untouched =>
            intro r hr hnot
            exact absurd (Option.some.inj (hr.symm.trans hsucc)) (hnot keyring result)
      · rintro ⟨hunique, hmoved⟩
        refine ⟨hunique, ?_, fun l hl => h.links l (hwaiting _ hl), fun t ht => h.transfers t (hwaiting _ ht)⟩
        intro b hb
        rcases (hmoved b b).mp hb with ⟨-, hold⟩ | ⟨rfl, hne, -⟩
        · exact h.noSelf b hold
        · exact hne rfl

end KeyringSession

/-- In every run of calls on an empty keyring, interleaved at their signature checks: edges are unique after
every step, an edge is gone after `unlink` returned true, and every succession with supplied links changes
nothing or moves exactly the children of its primary, if and only if every plan is current when it is
committed. -/
theorem succession_atomic_iff (σ : Type) (namespace' : Option JsString) (acceptLegacyV2 : Bool)
    (calls : List (KeyringCall σ)) :
    (keyringSession σ namespace' acceptLegacyV2).Along KeyringSession.AtomicStep
        (keyringSession σ namespace' acceptLegacyV2).init calls ↔
      (keyringSession σ namespace' acceptLegacyV2).Along KeyringSession.CommitsCurrent
        (keyringSession σ namespace' acceptLegacyV2).init calls := by
  refine Machine.along_iff_of_invariant (I := KeyringSession.Inv) (fun s a s' h hs => h.step_iff hs) ?_ calls
  exact ⟨List.nodup_nil, fun _ ha => (by cases ha), fun _ hl => (by cases hl), fun _ ht => (by cases ht)⟩

/-! ### Two transfers of one child -/

section TwoTransfers

def heir : SuccessionPolicy where
  primaryId := ⟨js "p", by decide⟩
  successorId := ⟨js "s", by decide⟩
  action := .transfer

def heirLink : KeyLink Unit :=
  ⟨js "s", js "c", js "device", none, none, ⟨.ofNat 1, by decide +kernel⟩, none, some (some (), some ())⟩

def heirOptions : SuccessionOptions Unit := ⟨[heirLink], true, false⟩

/-- `p` has one child; both transfers are planned before the first one is committed. -/
def twoTransfers : List (KeyringCall Unit) :=
  [.link (js "p") (js "c") (js "device") none none ⟨.ofNat 1, by decide +kernel⟩, .setSuccessor heir,
    .executeSuccession (js "p") heirOptions ⟨.ofNat 1, by decide +kernel⟩,
    .executeSuccession (js "p") heirOptions ⟨.ofNat 1, by decide +kernel⟩, .resume 0 true 0]

theorem second_transfer_duplicates : ¬ (keyringSession Unit none false).Along KeyringSession.AtomicStep
    (keyringSession Unit none false).init (twoTransfers ++ [.resume 0 true 0]) := by
  intro hall
  obtain ⟨s, hs, -, hstep⟩ := Machine.exists_of_run
    (P := fun s : KeyringSession Unit => (s.step (.resume 0 true 0)).map (fun s' => s'.keyring.edges) =
      some [(js "s", js "c"), (js "s", js "c")])
    (show ((keyringSession Unit none false).run (fun _ _ => True) (keyringSession Unit none false).init
      twoTransfers).any _ = true by decide +kernel)
  obtain ⟨s', hs', hedges⟩ := Option.map_eq_some_iff.mp hstep
  have hunique := (Machine.Along.last hall hs hs' s' hs').unique
  rw [hedges] at hunique
  exact absurd hunique (by decide)

end TwoTransfers
end BrowserMesh.Core
