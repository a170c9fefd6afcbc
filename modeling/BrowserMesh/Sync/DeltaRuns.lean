import BrowserMesh.Sync.DeltaNetwork

/-! # Convergence and regression of delta synchronisation

A received batch is sorted within itself and then overwrites the live state, whatever the
coordinator's log already holds.  So

* states converge as long as every applied batch brings the newest entry of its keys (`Newest`)
  and none for `__proto__`, and two coordinators that exchange concurrent changes swap them otherwise;
* a key moves back to an older entry of the pod that writes it exactly when a batch brings an entry
  older than the log holds, or orders the pod's entries by timestamps that go backwards (`InOrder`).
  It happens to a pod's own change: a peer echoes the pod's earlier entries, as the peer's session
  knows nothing of what the pod has. -/

namespace BrowserMesh.Sync

open Js Transition

variable {V : Type}

/-- Local changes of a pod have increasing sequence numbers. -/
def SeqIncreasing (w : Network V) : DeltaAction V → Prop
  | .set i _ _ seq _ => ∀ e ∈ w.log i, e.origin = i → e.seq < seq
  | .delete i _ seq _ => ∀ e ∈ w.log i, e.origin = i → e.seq < seq
  | _ => True

instance (w : Network V) : DecidablePred (SeqIncreasing w)
  | .set i _ _ seq _ => inferInstanceAs (Decidable (∀ e ∈ w.log i, e.origin = i → e.seq < seq))
  | .delete i _ seq _ => inferInstanceAs (Decidable (∀ e ∈ w.log i, e.origin = i → e.seq < seq))
  | .requestSync .. => isTrue trivial
  | .deliver .. => isTrue trivial

/-! ### Convergence -/

/-- For every key, the newest entry of the batch is newer than all others in the log and the batch,
except those that do the same. -/
def NewestBatch (log batch : List (DeltaEntry V)) : Prop :=
  ∀ e ∈ batch, (∀ f ∈ batch, f.key = e.key → f.rank ≤ e.rank) →
    ∀ f ∈ log ++ batch, f.key = e.key → f.op = e.op ∨ f.rank < e.rank

/-- The entries an action applies include the newest ones of their keys. -/
def Newest (w : Network V) (a : DeltaAction V) : Prop :=
  ∀ i ∈ w.actor a, NewestBatch (w.log i) (w.incoming a)

instance [DecidableEq V] (w : Network V) : DecidablePred (Newest w) := fun a => by
  unfold Newest NewestBatch
  infer_instance

/-- They do, and none of them is for `__proto__`. -/
def NewestPlain (w : Network V) (a : DeltaAction V) : Prop := Newest w a ∧ PlainKeys (w.incoming a)

instance [DecidableEq V] (w : Network V) : DecidablePred (NewestPlain w) := fun _ =>
  inferInstanceAs (Decidable (_ ∧ _))

/-- The source of a key does what the newest entry of the log does. -/
def Current (w : Network V) : Prop :=
  ∀ i k, ∀ g ∈ w.log i, g.key.1 = k → (∀ f ∈ w.log i, f.key.1 = k → f.rank ≤ g.rank) →
    ∃ e, w.source i k = some e ∧ e.op = g.op

theorem exists_newest {log : List (DeltaEntry V)} {k : JsString} (h : ∃ f ∈ log, f.key.1 = k) :
    ∃ g ∈ log, g.key.1 = k ∧ ∀ f ∈ log, f.key.1 = k → f.rank ≤ g.rank := by
  obtain ⟨f, hf, hk⟩ := h
  have hfin : {g | g ∈ log ∧ g.key.1 = k}.Finite :=
    (List.finite_toSet log).subset fun _ hg => hg.1
  obtain ⟨g, ⟨hg, hgk⟩, hmax⟩ := Set.exists_max_image _ DeltaEntry.rank hfin ⟨f, hf, hk⟩
  exact ⟨g, hg, hgk, fun f hf hk => hmax f ⟨hf, hk⟩⟩

/-- Coordinators whose logs contain each other's entries show the same. -/
def Converged (pods : List PodId) (w : Network V) : Prop :=
  (∀ i ∈ pods, ∀ j ∈ pods, ∀ e ∈ w.log i, e ∈ w.log j) →
    ∀ i ∈ pods, ∀ j ∈ pods, (w.coordinator i).state.props.Same (w.coordinator j).state.props

section converge
variable [Spread V] {initialState : JsObject V} {w : Network V}

/-- A batch with the newest entries leaves the newest sources. -/
theorem current_step {P : DeltaEntry V → Prop} (hw : Wired P initialState w)
    {a : DeltaAction V} (hlocal : ∀ i key op seq now e, a.change = some (i, key, op, seq, now) →
      (w.coordinator i).newEntry key op seq now = .ok e → P e)
    (hok : Newest w a) {w' : Network V} (h : (network initialState).step w a = some w')
    (hc : Current w) : Current w' := by
  obtain ⟨i, hi, -, hlog, hsource, hother⟩ := hw.step_spec hlocal h
  intro j k g hg hgk hmax
  by_cases hj : j = i
  · subst hj
    rw [hlog] at hg hmax
    rw [hsource]
    by_cases hk : ∃ f ∈ w.incoming a, f.key.1 = k
    · obtain ⟨f, hf, hfk⟩ := hk
      obtain ⟨e, he, hrec, hek, hlast⟩ := record_last (w.source j)
        (pairwise_causalOrder (w.incoming a)) ⟨f, mem_causalOrder.mpr hf, hfk⟩
      have he' := mem_causalOrder.mp he
      have hnewest : ∀ f ∈ w.incoming a, f.key = e.key → f.rank ≤ e.rank := by
        intro f hf hfe
        rcases hlast f (mem_causalOrder.mpr hf) ((congrArg Subtype.val hfe).trans hek) with rfl | hle
        · exact le_rfl
        · exact hle
      refine ⟨e, hrec, ?_⟩
      rcases hok j hi e he' hnewest g hg (Subtype.ext (hgk.trans hek.symm)) with hop | hlt
      · exact hop.symm
      · exact absurd (hmax e (List.mem_append_right _ he') hek) (not_le.mpr hlt)
    · have hold : ∀ f ∈ w.incoming a, f.key.1 ≠ k := fun f hf hfk => hk ⟨f, hf, hfk⟩
      rw [record_of_not_mem fun f hf => hold f (mem_causalOrder.mp hf)]
      rcases List.mem_append.mp hg with hg | hg
      · exact hc j k g hg hgk fun f hf => hmax f (List.mem_append_left _ hf)
      · exact absurd hgk (hold g hg)
  · rw [(hother j hj).1] at hg hmax
    rw [(hother j hj).2]
    exact hc j k g hg hgk hmax

/-- **Convergence.**  In every run in which all applied entries are the newest ones of their keys, and
none of them is for `__proto__`, coordinators that started from the same state and know the same entries
have the same state. -/
theorem coordinators_converge (initialState : JsObject V)
    (hproto : initialState.hasOwn protoKey = false) (pods : List PodId) :
    ∀ w, (network initialState).Reach NewestPlain w → Converged pods w := by
  intro w h
  obtain ⟨hw, hc⟩ := h.invariant (I := fun w => Wired (fun _ => True) initialState w ∧ Current w)
    ⟨Wired.init, fun i k g hg => by cases hg⟩
    fun w a w' ⟨hw, hc⟩ hok hs => ⟨hw.step (fun _ _ _ _ _ _ _ _ => trivial) hs,
      current_step hw (fun _ _ _ _ _ _ _ _ => trivial) hok.1 hs hc⟩
  intro hlogs i hi j hj k
  by_cases hk : k = protoKey
  · rw [hk, hw.proto hproto i, hw.proto hproto j]
  · rw [hw.state i k hk, hw.state j k hk]
    have hsub : ∀ e, e ∈ w.log i ↔ e ∈ w.log j :=
      fun e => ⟨hlogs i hi j hj e, hlogs j hj i hi e⟩
    by_cases hex : ∃ f ∈ w.log i, f.key.1 = k
    · -- the newest entry of the key is the same in both logs
      obtain ⟨g, hg, hgk, hmax⟩ := exists_newest hex
      obtain ⟨e, he, hop⟩ := hc i k g hg hgk hmax
      obtain ⟨e', he', hop'⟩ := hc j k g ((hsub g).mp hg) hgk
        fun f hf => hmax f ((hsub f).mpr hf)
      rw [he, he', shown, shown, hop, hop']
    · have hnone : ∀ p, (∀ e ∈ w.log p, e ∈ w.log i) → w.source p k = none := by
        intro p hp
        cases hs : w.source p k with
        | none => rfl
        | some e =>
            obtain ⟨he, hek⟩ := hw.source_mem p k e hs
            exact absurd ⟨e, hp e he, hek⟩ hex
      rw [hnone i fun e he => he, hnone j fun e he => (hsub e).mpr he]

end converge

/-! ### Runs of two pods -/

def podP : PodId := ⟨js "P", by decide⟩
def podQ : PodId := ⟨js "Q", by decide⟩

/-- Values that no object is among. -/
instance : Spread ℕ := ⟨fun _ value => value⟩

/-- Both pods act only, and number their changes in order. -/
def TwoPods (w : Network ℕ) (a : DeltaAction ℕ) : Prop :=
  SeqIncreasing w a ∧ ∀ i ∈ w.actor a, i ∈ [podP, podQ]

instance (w : Network ℕ) : DecidablePred (TwoPods w) := fun a => by
  unfold TwoPods
  infer_instance

/-- `P` sets a key and `Q` fetches it; then `Q` sets it again and `P` fetches that. -/
def relayRun : List (DeltaAction ℕ) :=
  [.set podP (js "k") 1 1 1, .requestSync podQ podP, .deliver 0 2, .deliver 1 3,
    .set podQ (js "k") 2 2 4, .requestSync podP podQ, .deliver 3 5, .deliver 4 6]

theorem coordinators_converge_relayRun :
    ∃ w, (network (JsObject.empty (ν := ℕ))).run NewestPlain (network JsObject.empty).init relayRun = some w ∧
      (∀ i ∈ [podP, podQ], ∀ j ∈ [podP, podQ], ∀ e ∈ w.log i, e ∈ w.log j) ∧
      (w.coordinator podP).state.props.Same (w.coordinator podQ).state.props := by
  obtain ⟨w, hw, hr, hlogs⟩ := Machine.exists_of_run
    (P := fun w : Network ℕ => ∀ i ∈ [podP, podQ], ∀ j ∈ [podP, podQ], ∀ e ∈ w.log i, e ∈ w.log j)
    (show ((network JsObject.empty).run NewestPlain (network JsObject.empty).init relayRun).any _ = true by
      decide +kernel)
  exact ⟨w, hw, hlogs, coordinators_converge JsObject.empty rfl [podP, podQ] w hr hlogs podP (by simp)
    podQ (by simp)⟩

/-- Both pods set a key and then fetch each other's change. -/
def crossRun : List (DeltaAction ℕ) :=
  [.set podP (js "k") 1 1 1, .set podQ (js "k") 2 1 2, .requestSync podP podQ,
    .requestSync podQ podP, .deliver 0 3, .deliver 1 3, .deliver 2 4, .deliver 3 4]

theorem coordinators_diverge :
    ¬ ∀ w, (network (JsObject.empty (ν := ℕ))).Reach TwoPods w → Converged [podP, podQ] w := by
  intro hall
  obtain ⟨w, _, hr, hlogs, hne⟩ := Machine.exists_of_run
    (P := fun w : Network ℕ => (∀ i ∈ [podP, podQ], ∀ j ∈ [podP, podQ], ∀ e ∈ w.log i, e ∈ w.log j) ∧
      (w.coordinator podP).state.props.get? (js "k") ≠ (w.coordinator podQ).state.props.get? (js "k"))
    (show ((network JsObject.empty).run TwoPods (network JsObject.empty).init crossRun).any _ = true by
      decide +kernel)
  exact hne (hall w hr hlogs podP (by simp) podQ (by simp) (js "k"))

/-! ### Regression -/

/-- Applying the entries in this order moves a key from an entry of a pod to an earlier entry of it. -/
def Regresses (source : JsString → Option (DeltaEntry V)) : List (DeltaEntry V) → Prop
  | [] => False
  | e :: entries =>
      (∃ f ∈ source e.key.1, f.origin = e.origin ∧ e.seq < f.seq) ∨
        Regresses (Function.update source e.key.1 (some e)) entries

instance Regresses.decidable : ∀ (entries : List (DeltaEntry V))
    (source : JsString → Option (DeltaEntry V)), Decidable (Regresses source entries)
  | [], _ => isFalse id
  | e :: entries, source =>
      have := Regresses.decidable entries (Function.update source e.key.1 (some e))
      inferInstanceAs (Decidable (_ ∨ _))

/-- The action moves a key of the pod that acts to an earlier entry of the key's writer. -/
def Regress (w : Network V) (a : DeltaAction V) : Prop :=
  ∃ i ∈ w.actor a, Regresses (w.source i) (causalOrder (w.incoming a))

instance (w : Network V) : DecidablePred (Regress w) := fun a => by
  unfold Regress
  infer_instance

/-- No entry of the batch is older than one in the log for its key, and the timestamps of the
batch do not contradict the sequence numbers. -/
def InOrderBatch (log batch : List (DeltaEntry V)) : Prop :=
  (∀ e ∈ batch, ∀ f ∈ log, f.key = e.key → f.seq ≤ e.seq) ∧
    ∀ e ∈ batch, ∀ f ∈ batch, f.key = e.key → f.timestamp < e.timestamp → f.seq ≤ e.seq

def InOrder (w : Network V) (a : DeltaAction V) : Prop :=
  ∀ i ∈ w.actor a, InOrderBatch (w.log i) (w.incoming a)

def SingleWriter (writer : JsString → PodId) : DeltaAction V → Prop
  | .set i key .. => writer key = i
  | .delete i key .. => writer key = i
  | _ => True

instance (writer : JsString → PodId) : DecidablePred (SingleWriter (V := V) writer)
  | .set i key .. => inferInstanceAs (Decidable (writer key = i))
  | .delete i key .. => inferInstanceAs (Decidable (writer key = i))
  | .requestSync .. => isTrue trivial
  | .deliver .. => isTrue trivial

/-- Pods number their changes in order, and every key has one writer. -/
def WriterRun (writer : JsString → PodId) (w : Network V) (a : DeltaAction V) : Prop :=
  SeqIncreasing w a ∧ SingleWriter writer a

instance (writer : JsString → PodId) (w : Network V) : DecidablePred (WriterRun writer w) :=
  fun a => inferInstanceAs (Decidable (SeqIncreasing w a ∧ SingleWriter writer a))

section regress
variable {source : JsString → Option (DeltaEntry V)}

/-- No entry moves its key back, neither from the source nor from an entry before it. -/
theorem not_regresses_iff (writer : JsString → PodId) {entries : List (DeltaEntry V)}
    (hw : ∀ e ∈ entries, writer e.key.1 = e.origin)
    (hsw : ∀ k, ∀ f ∈ source k, f.key.1 = k ∧ writer k = f.origin) :
    ¬ Regresses source entries ↔
      (∀ e ∈ entries, ∀ f ∈ source e.key.1, f.seq ≤ e.seq) ∧
        entries.Pairwise fun f e => f.key = e.key → f.seq ≤ e.seq := by
  induction entries generalizing source with
  | nil => simp [Regresses]
  | cons x entries ih =>
      have hx := hw x List.mem_cons_self
      have hsw' : ∀ k, ∀ f ∈ Function.update source x.key.1 (some x) k,
          f.key.1 = k ∧ writer k = f.origin := by
        intro k f hf
        by_cases hk : k = x.key.1
        · subst hk
          rw [Function.update_self] at hf
          obtain rfl := Option.some.inj hf
          exact ⟨rfl, hx⟩
        · rw [Function.update_of_ne hk] at hf
          exact hsw k f hf
      have hfirst : (¬ ∃ f ∈ source x.key.1, f.origin = x.origin ∧ x.seq < f.seq) ↔
          ∀ f ∈ source x.key.1, f.seq ≤ x.seq := by
        constructor
        · intro h f hf
          by_contra hlt
          exact h ⟨f, hf, (hsw _ f hf).2.symm.trans hx, not_le.mp hlt⟩
        · rintro h ⟨f, hf, -, hlt⟩
          exact absurd (h f hf) (not_le.mpr hlt)
      rw [Regresses, not_or, hfirst, ih (fun e he => hw e (List.mem_cons_of_mem x he)) hsw',
        List.pairwise_cons, List.forall_mem_cons]
      constructor
      · rintro ⟨h1, h2, h3⟩
        have hafter : ∀ e ∈ entries, x.key = e.key → x.seq ≤ e.seq := by
          intro e he hk
          refine h2 e he x ?_
          rw [hk, Function.update_self]
          rfl
        refine ⟨⟨h1, fun e he f hf => ?_⟩, hafter, h3⟩
        by_cases hk : e.key = x.key
        · rw [hk] at hf
          exact (h1 f hf).trans (hafter e he hk.symm)
        · refine h2 e he f ?_
          rwa [Function.update_of_ne fun h => hk (Subtype.ext h)]
      · rintro ⟨⟨h1, h2⟩, hafter, h3⟩
        refine ⟨h1, fun e he f hf => ?_, h3⟩
        by_cases hk : e.key = x.key
        · rw [hk, Function.update_self] at hf
          obtain rfl := Option.some.inj hf
          exact hafter e he hk.symm
        · rw [Function.update_of_ne fun h => hk (Subtype.ext h)] at hf
          exact h2 e he f hf

/-- In the order of application, sequence numbers grow for every key exactly when the timestamps do
not contradict them. -/
theorem pairwise_causalOrder_iff {batch : List (DeltaEntry V)} :
    (causalOrder batch).Pairwise (fun f e => f.key = e.key → f.seq ≤ e.seq) ↔
      ∀ e ∈ batch, ∀ f ∈ batch, f.key = e.key → f.timestamp < e.timestamp → f.seq ≤ e.seq := by
  have hsorted := pairwise_causalOrder batch
  have hrank : ∀ {f e : DeltaEntry V}, f.timestamp < e.timestamp → f.rank < e.rank := by
    intro f e h
    exact Prod.Lex.toLex_lt_toLex.mpr (Or.inl h)
  constructor
  · intro h e he f hf hk ht
    have hbefore : (causalOrder batch).Pairwise
        fun f e => f.rank < e.rank → f.key = e.key → f.seq ≤ e.seq := by
      refine h.imp ?_
      intro f e hs _
      exact hs
    have hafter : (causalOrder batch).Pairwise
        fun e f => f.rank < e.rank → f.key = e.key → f.seq ≤ e.seq :=
      hsorted.imp fun hle hlt => absurd hlt (not_lt.mpr hle)
    exact List.Pairwise.forall_of_forall_of_flip (fun x _ hlt => absurd hlt (lt_irrefl _)) hbefore
      hafter (mem_causalOrder.mpr hf) (mem_causalOrder.mpr he) (hrank ht) hk
  · intro h
    refine hsorted.imp_of_mem fun {f e} hf he hle hk => ?_
    rcases Prod.Lex.toLex_le_toLex.mp hle with ht | ⟨-, hs⟩
    · exact h e (mem_causalOrder.mp he) f (mem_causalOrder.mp hf) hk ht
    · exact hs

/-- The source of a key is the latest entry of the log. -/
def Latest (w : Network V) : Prop :=
  ∀ i k, ∀ f ∈ w.source i k, ∀ g ∈ w.log i, g.key.1 = k → g.seq ≤ f.seq

variable [Spread V] {initialState : JsObject V} {w : Network V} {writer : JsString → PodId}

omit [Spread V] in
theorem origin_newEntry {P : DeltaEntry V → Prop} (hw : Wired P initialState w) {a : DeltaAction V}
    (hok : SingleWriter writer a) :
    ∀ i key op seq now e, a.change = some (i, key, op, seq, now) →
      (w.coordinator i).newEntry key op seq now = .ok e → writer e.key.1 = e.origin := by
  intro i key op seq now e hc he
  obtain ⟨hk, -, ho, -⟩ := newEntry_spec he
  rw [hk, ho, hw.pod i]
  cases a with
  | set j key' value seq' now' =>
      obtain ⟨rfl, rfl, -⟩ : j = i ∧ key' = key ∧ _ := by simpa [DeltaAction.change] using hc
      exact hok
  | delete j key' seq' now' =>
      obtain ⟨rfl, rfl, -⟩ : j = i ∧ key' = key ∧ _ := by simpa [DeltaAction.change] using hc
      exact hok
  | requestSync => cases hc
  | deliver => cases hc

theorem regress_step (hw : Wired (fun e => writer e.key.1 = e.origin) initialState w) (hl : Latest w)
    {a : DeltaAction V} (hok : SingleWriter writer a) {w' : Network V}
    (h : (network initialState).step w a = some w') :
    (¬ Regress w a ↔ InOrder w a) ∧ (InOrder w a → Latest w') := by
  obtain ⟨i, hi, hin, hlog, hsource, hother⟩ := hw.step_spec (origin_newEntry hw hok) h
  have hsrc : (∀ e ∈ w.incoming a, ∀ f ∈ w.source i e.key.1, f.seq ≤ e.seq) ↔
      ∀ e ∈ w.incoming a, ∀ f ∈ w.log i, f.key = e.key → f.seq ≤ e.seq := by
    refine forall₂_congr fun e he => ⟨fun hf f hfl hk => ?_, fun hf f hfs => ?_⟩
    · cases hs : w.source i e.key.1 with
      | none => exact absurd (congrArg Subtype.val hk) (hw.source_none i _ hs f hfl)
      | some x =>
          exact (hl i _ x hs f hfl (congrArg Subtype.val hk)).trans (hf x hs)
    · obtain ⟨hfl, hfk⟩ := hw.source_mem i _ f hfs
      exact hf f hfl (Subtype.ext hfk)
  constructor
  · have hiff : ¬ Regresses (w.source i) (causalOrder (w.incoming a)) ↔
        InOrderBatch (w.log i) (w.incoming a) := by
      rw [not_regresses_iff writer
        (fun e he => (hin e (mem_causalOrder.mp he)).2)
        (fun k f hf => ?_), pairwise_causalOrder_iff, InOrderBatch, ← hsrc]
      · simp only [mem_causalOrder]
      · obtain ⟨hfl, hfk⟩ := hw.source_mem i k f hf
        exact ⟨hfk, hfk ▸ (hw.plain i f hfl).2⟩
    simp only [Regress, InOrder, hi, Option.mem_def, Option.some.injEq, forall_eq', exists_eq_left', hiff]
  · intro ho j k f hf g hg hgk
    by_cases hj : j = i
    · subst hj
      obtain ⟨hold, htime⟩ := ho j hi
      rw [hlog, List.mem_append] at hg
      rw [hsource] at hf
      by_cases hk : ∃ x ∈ w.incoming a, x.key.1 = k
      · obtain ⟨x, hx, hxk⟩ := hk
        obtain ⟨e, he, hrec, hek, hlast⟩ := record_last (w.source j)
          (pairwise_causalOrder_iff.mpr htime) ⟨x, mem_causalOrder.mpr hx, hxk⟩
        obtain rfl : e = f := Option.some.inj (hrec.symm.trans hf)
        have hge : g.key = e.key := Subtype.ext (hgk.trans hek.symm)
        rcases hg with hg | hg
        · exact hold e (mem_causalOrder.mp he) g hg hge
        · rcases hlast g (mem_causalOrder.mpr hg) hgk with rfl | hle
          · exact le_rfl
          · exact hle hge
      · have hnot : ∀ x ∈ w.incoming a, x.key.1 ≠ k := fun x hx hxk => hk ⟨x, hx, hxk⟩
        rw [record_of_not_mem fun x hx => hnot x (mem_causalOrder.mp hx)] at hf
        rcases hg with hg | hg
        · exact hl j k f hf g hg hgk
        · exact absurd hgk (hnot g hg)
    · rw [(hother j hj).2] at hf
      rw [(hother j hj).1] at hg
      exact hl j k f hf g hg hgk

/-- **When keys move back.**  In a run in which every key has one writer and the pods number their
changes in order, no step moves a key to an earlier entry exactly when every step applies its
entries in order; what a coordinator shows for a key is what the entry that it was moved to wrote. -/
theorem no_regression_iff (initialState : JsObject V) (writer : JsString → PodId)
    {as : List (DeltaAction V)} {w : Network V}
    (h : (network initialState).run (WriterRun writer) (network initialState).init as = some w) :
    ((network initialState).Along (fun w a => ¬ Regress w a) (network initialState).init as ↔
      (network initialState).Along InOrder (network initialState).init as) ∧
    ∀ i, ∀ k ≠ protoKey, (w.coordinator i).state.props.get? k = shown initialState k (w.source i k) := by
  refine ⟨?_, ((Machine.reach_of_run .init h).invariant (I := Wired (fun e => writer e.key.1 = e.origin) initialState)
    Wired.init fun w a w' hw hok hs => hw.step (origin_newEntry hw hok.2) hs).state⟩
  refine Machine.along_iff (I := fun w => Wired (fun e => writer e.key.1 = e.origin) initialState w ∧
    Latest w) (fun w a w' ⟨hw, hl⟩ hok hs => ?_) ⟨Wired.init, fun i k f hf => by cases hf⟩ h
  obtain ⟨hiff, hlatest⟩ := regress_step hw hl hok.2 hs
  exact ⟨hiff, fun ho => ⟨hw.step (origin_newEntry hw hok.2) hs, hlatest ho⟩⟩

end regress

/-- `P` sets a key, `Q` fetches it, `P` sets it again, and then `P` asks `Q` for changes. -/
def echoRun : List (DeltaAction ℕ) :=
  [.set podP (js "k") 1 1 1, .requestSync podQ podP, .deliver 0 2, .deliver 1 3, .deliver 2 4,
    .set podP (js "k") 2 2 5, .requestSync podP podQ, .deliver 3 6]

/-- The answer of `Q`, on its way to `P`. -/
def echo : DeltaAction ℕ := .deliver 4 7

theorem no_regression_iff_relayRun :
    ∃ w, (network (JsObject.empty (ν := ℕ))).run (WriterRun fun _ => podP) (network JsObject.empty).init
        (echoRun ++ [echo]) = some w ∧
      ((network JsObject.empty).Along (fun w a => ¬ Regress w a) (network JsObject.empty).init
          (echoRun ++ [echo]) ↔
        (network JsObject.empty).Along InOrder (network JsObject.empty).init (echoRun ++ [echo])) := by
  obtain ⟨w, hw, _⟩ := Machine.exists_of_run (P := fun _ : Network ℕ => True)
    (show ((network JsObject.empty).run (WriterRun fun _ => podP) (network JsObject.empty).init
      (echoRun ++ [echo])).any _ = true by decide +kernel)
  exact ⟨w, hw, (no_regression_iff JsObject.empty (fun _ => podP) hw).1⟩

/-- It brings back the value that `P` has overwritten. -/
theorem echo_regresses :
    ¬ ∀ (writer : JsString → PodId) w,
      (network (JsObject.empty (ν := ℕ))).Reach (WriterRun writer) w →
        ∀ a w', WriterRun writer w a → (network JsObject.empty).step w a = some w' → ¬ Regress w a := by
  intro hall
  obtain ⟨w, _, hr, hreg, hok, hs⟩ := Machine.exists_of_run
    (P := fun w : Network ℕ => Regress w echo ∧ WriterRun (fun _ => podP) w echo ∧
      ((network JsObject.empty).step w echo).isSome)
    (show ((network JsObject.empty).run (WriterRun fun _ => podP) (network JsObject.empty).init
      echoRun).any _ = true by decide +kernel)
  obtain ⟨w', hs⟩ := Option.isSome_iff_exists.mp hs
  exact hall (fun _ => podP) w hr echo w' hok hs hreg

end BrowserMesh.Sync
