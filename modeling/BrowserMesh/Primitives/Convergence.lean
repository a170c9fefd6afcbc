import BrowserMesh.Primitives.Registers
import BrowserMesh.Primitives.Counters

/-! # Convergence of registers, maps and counters

Runs of replicas with distinct node ids that write under their own node id and replace their state by
its merge with any state some replica ever had. -/

namespace BrowserMesh.Primitives

open Js Replication

variable {V : Type} [HasNull V]

/-! ### Each type -/

section register
variable {α : Type} [HasNull α]
  {w : World JsString (LWWRegister α) (LWWRegister.Write α)}
  (h : (LWWRegister.system (α := α)).Reach LWWRegister.DefinedWrites w)
include h

theorem LWWRegister.mergeLaws : MergeLaws LWWRegister.merge Eq w.states :=
  (lastWriter.mergeLaws (fun _ _ => rfl) h).mono fun _ _ e => cell_injective (congrFun e ())

theorem LWWRegister.eq_of_sameHistory {s t : Snapshot JsString (LWWRegister α) (LWWRegister.Write α)}
    (hs : s ∈ w.ever) (ht : t ∈ w.ever) (he : SameHistory s t) : s.state = t.state :=
  cell_injective (congrFun (lastWriter.cells_eq h hs ht he) ())

end register

section map
variable {w : World JsString (LWWMap V) (LWWMap.Write V)}
  (h : (LWWMap.system (V := V)).Reach LWWMap.RegularWrites w)
include h

theorem LWWMap.mergeLaws :
    MergeLaws LWWMap.merge (fun m n => m.entries.Same n.entries) w.states :=
  (lastWriter.mergeLaws (fun _ _ => rfl) h).mono fun _ _ => same_of_cell

theorem LWWMap.same_of_sameHistory {s t : Snapshot JsString (LWWMap V) (LWWMap.Write V)}
    (hs : s ∈ w.ever) (ht : t ∈ w.ever) (he : SameHistory s t) :
    s.state.entries.Same t.state.entries :=
  same_of_cell (lastWriter.cells_eq h hs ht he)

end map

section gcounter
variable {w : World JsString GCounter JsNumber} (h : GCounter.system.Reach System.AnyStep w)
include h

theorem GCounter.mergeLaws :
    MergeLaws GCounter.merge (fun c d => c.counts.Same d.counts) w.states :=
  (lattice.mergeLaws (fun _ _ => rfl) h).mono fun _ _ => same_of_count

theorem GCounter.same_of_sameHistory {s t : Snapshot JsString GCounter JsNumber}
    (hs : s ∈ w.ever) (ht : t ∈ w.ever) (he : SameHistory s t) :
    s.state.counts.Same t.state.counts :=
  same_of_count (lattice.eq_of_sameHistory h hs ht he)

end gcounter

section pncounter
variable {w : World JsString PNCounter PNCounter.Write} (h : PNCounter.system.Reach System.AnyStep w)
include h

theorem PNCounter.mergeLaws : MergeLaws PNCounter.merge PNCounter.Same w.states :=
  (lattice.mergeLaws (fun _ _ => rfl) h).mono fun _ _ => same_of_count

theorem PNCounter.same_of_sameHistory {s t : Snapshot JsString PNCounter PNCounter.Write}
    (hs : s ∈ w.ever) (ht : t ∈ w.ever) (he : SameHistory s t) : s.state.Same t.state :=
  same_of_count (lattice.eq_of_sameHistory h hs ht he)

end pncounter

/-! ### Convergence -/

/-- **Convergence of registers, maps and counters.**  In every run, merging is commutative,
associative and idempotent on the states ever reached (of maps, up to insertion order), and
states with the same history show the same: a register that is not set to `undefined` its value; a
map whose keys are not first stamped `NaN` and not overwritten with `undefined` its value, keys,
entries and serialised form; a counter the count of every node, and its value when adding up the
counts does not round. -/
theorem registers_and_counters_converge :
    (∀ w, (LWWRegister.system (α := V)).Reach LWWRegister.DefinedWrites w →
      MergeLaws LWWRegister.merge Eq w.states ∧
        ∀ s ∈ w.ever, ∀ t ∈ w.ever, SameHistory s t → s.state.value = t.state.value) ∧
    (∀ w, (LWWMap.system (V := V)).Reach LWWMap.RegularWrites w →
      MergeLaws LWWMap.merge (fun m n => m.entries.Same n.entries) w.states ∧
        ∀ s ∈ w.ever, ∀ t ∈ w.ever, SameHistory s t →
          s.state.value = t.state.value ∧ s.state.keys = t.state.keys ∧
            s.state.liveEntries = t.state.liveEntries ∧ s.state.toJSON = t.state.toJSON) ∧
    (∀ w, GCounter.system.Reach System.AnyStep w →
      MergeLaws GCounter.merge (fun c d => c.counts.Same d.counts) w.states ∧
        ∀ s ∈ w.ever, ∀ t ∈ w.ever, SameHistory s t → s.state.counts.Same t.state.counts ∧
          (JsNumber.NoRounding s.state.counts.values → s.state.value = t.state.value)) ∧
    (∀ w, PNCounter.system.Reach System.AnyStep w →
      MergeLaws PNCounter.merge PNCounter.Same w.states ∧
        ∀ s ∈ w.ever, ∀ t ∈ w.ever, SameHistory s t → s.state.Same t.state ∧
          (JsNumber.NoRounding s.state.pos.counts.values →
            JsNumber.NoRounding s.state.neg.counts.values → s.state.value = t.state.value)) := by
  refine ⟨fun w h => ⟨LWWRegister.mergeLaws h, fun s hs t ht he => ?_⟩,
    fun w h => ⟨LWWMap.mergeLaws h, fun s hs t ht he => ?_⟩,
    fun w h => ⟨GCounter.mergeLaws h, fun s hs t ht he => ?_⟩,
    fun w h => ⟨PNCounter.mergeLaws h, fun s hs t ht he => ?_⟩⟩
  · rw [LWWRegister.eq_of_sameHistory h hs ht he]
  · have e := LWWMap.sorted_congr (LWWMap.same_of_sameHistory h hs ht he)
    simp only [LWWMap.value, LWWMap.keys, LWWMap.liveEntries, LWWMap.toJSON, e, and_self]
  · have e := GCounter.same_of_sameHistory h hs ht he
    exact ⟨e, GCounter.value_congr e⟩
  · have e := PNCounter.same_of_sameHistory h hs ht he
    exact ⟨e, PNCounter.value_congr e⟩

/-- Two replicas write different keys, and merge each other. -/
def mapRun : List (Action JsString (LWWMap.Write (JsValue ℕ))) :=
  [.update (js "a") (.set (js "k") (.of 1) (.ofNat 5)), .update (js "b") (.delete (js "l") (.ofNat 5)),
    .merge (js "a") 2, .merge (js "b") 1]

def countRun : List (Action JsString JsNumber) :=
  [.update (js "a") (.ofNat 3), .update (js "b") (.ofNat 4), .merge (js "a") 2, .merge (js "b") 1]

/-- Two states of a run with the same history that satisfy `P`. -/
def Meet {σ Op : Type} (P : σ → σ → Prop) (w : World JsString σ Op) : Prop :=
  ∃ s ∈ w.ever, ∃ t ∈ w.ever, SameHistory s t ∧ P s.state t.state

instance {σ Op : Type} [DecidableEq σ] [DecidableEq Op] (P : σ → σ → Prop) [DecidableRel P] :
    DecidablePred (Meet P : World JsString σ Op → Prop) :=
  fun w => inferInstanceAs (Decidable (∃ s ∈ w.ever, ∃ t ∈ w.ever, _))

theorem registers_and_counters_converge_runs :
    (∃ s t : LWWMap (JsValue ℕ), s ≠ t ∧ s.toJSON = t.toJSON) ∧
      ∃ s t : GCounter, s ≠ t ∧ s.value = t.value := by
  obtain ⟨_, hm, hg, _⟩ := registers_and_counters_converge (V := JsValue ℕ)
  constructor
  · obtain ⟨w, _, hr, s, hs, t, ht, he, hne⟩ := System.exists_of_run (P := Meet (· ≠ ·))
      (show (LWWMap.system.run LWWMap.RegularWrites LWWMap.system.initial mapRun).any _ =
        true by decide +kernel)
    exact ⟨_, _, hne, ((hm w hr).2 s hs t ht he).2.2.2⟩
  · obtain ⟨w, _, hr, s, hs, t, ht, he, hne, hv⟩ := System.exists_of_run
      (P := Meet (fun c d => c ≠ d ∧ c.counts.values = [3, 4].map .ofNat))
      (show (GCounter.system.run System.AnyStep GCounter.system.initial countRun).any _ = true by
        decide +kernel)
    refine ⟨_, _, hne, ((hg w hr).2 s hs t ht he).2 ?_⟩
    rw [hv]
    exact JsNumber.noRounding_ofNat (by norm_num)

/-! ### Where the limits are met -/

/-- A replica sets its register to `undefined`, another one merges it. -/
def undefinedRun : List (Action JsString (LWWRegister.Write (JsValue ℕ))) :=
  [.update (js "a") ⟨.undefined, .ofNat 1⟩, .merge (js "b") 1]

/-- Two replicas write a key with the timestamps `NaN` and `1`, and merge each other. -/
def nanRun : List (Action JsString (LWWMap.Write (JsValue ℕ))) :=
  [.update (js "a") (.set (js "k") (.of 1) .nan), .update (js "b") (.set (js "k") (.of 2) (.ofNat 1)),
    .merge (js "a") 2, .merge (js "b") 1]

/-- Three replicas count `2 ^ 53`, `1` and `1`; the first two merge everything. -/
def roundingRun : List (Action JsString JsNumber) :=
  [.update (js "a") (.ofNat (2 ^ 53)), .update (js "b") (.ofNat 1), .update (js "c") (.ofNat 1),
    .merge (js "a") 2, .merge (js "a") 3, .merge (js "b") 3, .merge (js "b") 1]

def NonNegAmounts : Action JsString JsNumber → Prop
  | .update _ amount => amount.NonNeg
  | _ => True

instance : DecidablePred NonNegAmounts
  | .update _ amount => inferInstanceAs (Decidable amount.NonNeg)
  | .merge _ _ => isTrue trivial
  | .silent _ => isTrue trivial

/-- A register set to `undefined` is merged as `null`.  A write stamped `NaN` to a missing key is
stored, and then neither replaces nor is replaced: maps that merged the same writes differ.  Counts
past `2 ^ 53` are added in different orders: counters that merged the same increments show different
values. -/
theorem register_map_and_counter_diverge :
    ¬ (∀ w, (LWWRegister.system (α := JsValue ℕ)).Reach System.AnyStep w →
      ∀ s ∈ w.ever, ∀ t ∈ w.ever, SameHistory s t → s.state.value = t.state.value) ∧
    ¬ (∀ w, (LWWMap.system (V := JsValue ℕ)).Reach System.AnyStep w →
      ∀ s ∈ w.ever, ∀ t ∈ w.ever, SameHistory s t → s.state.value = t.state.value) ∧
    ¬ (∀ w, GCounter.system.Reach (fun _ a => NonNegAmounts a) w →
      ∀ s ∈ w.ever, ∀ t ∈ w.ever, SameHistory s t → s.state.value = t.state.value) := by
  refine ⟨fun hall => ?_, fun hall => ?_, fun hall => ?_⟩
  · obtain ⟨w, _, hr, s, hs, t, ht, he, hne⟩ := System.exists_of_run
      (P := Meet (fun r r' : LWWRegister (JsValue ℕ) => r.value ≠ r'.value))
      (show (LWWRegister.system.run System.AnyStep LWWRegister.system.initial undefinedRun).any _ =
        true by decide +kernel)
    exact hne (hall w hr s hs t ht he)
  · obtain ⟨w, _, hr, s, hs, t, ht, he, hne⟩ := System.exists_of_run
      (P := Meet (fun m n : LWWMap (JsValue ℕ) => m.value ≠ n.value))
      (show (LWWMap.system.run System.AnyStep LWWMap.system.initial nanRun).any _ = true by
        decide +kernel)
    exact hne (hall w hr s hs t ht he)
  · obtain ⟨w, _, hr, s, hs, t, ht, he, hne⟩ := System.exists_of_run
      (P := Meet (fun c d : GCounter => c.value ≠ d.value))
      (show (GCounter.system.run (fun _ a => NonNegAmounts a) GCounter.system.initial
        roundingRun).any _ = true by decide +kernel)
    exact hne (hall w hr s hs t ht he)

end BrowserMesh.Primitives
