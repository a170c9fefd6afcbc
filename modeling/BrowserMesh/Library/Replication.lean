import Mathlib

/-! # State-based replication

Replicas that change their state by local updates and by merging states of other replicas.

* **System** (`System`).  An initial state, a local update (`none`: the call fails and
  changes nothing), a merge, and a silent local step that is not an update (such as reloading
  the state from its own serialisation).
* **World** (`World`).  The current state of every replica, and the list of all states any
  replica ever had.  A merge may pick any of them: received states may be stale, reordered
  or repeated.  The replicas are indexed by their identifiers, so identifiers are distinct.
* **Histories.**  Every state carries the list of updates it incorporates (`Snapshot.hist`).
  An update (`Event`) remembers its replica, its position among the updates of that
  replica, the state it was applied to and the identifiers of the updates known there.
  Histories are ghost data: no step reads them.
* **Runs.**  `Reach ok w`: `w` is reached by steps all of which satisfy `ok`.  `run` executes
  a list of actions.

`Reach.causal` collects what holds in every run of every system: identifiers of updates are
unique, histories are closed under the causal past, and under earlier updates of the same
replica.  `Lattice` is the standard argument for convergence: when an abstraction of the
states into a join-semilattice turns merges into joins and updates never decrease it, the
abstraction of a state is the least upper bound of what the effective updates of its history contributed
(`Lattice.isLUB`), so it depends on the history only (`Lattice.eq_of_sameHistory`) and is
monotone in it (`Lattice.le_of_effective`, `Lattice.le_of_subset`). -/

namespace BrowserMesh.Replication

/-- A replicated data type: states `σ`, update arguments `Op`, replica identifiers `ι`. -/
structure System (ι σ Op : Type) where
  init : σ
  update : ι → Op → σ → Option σ
  merge : σ → σ → Option σ
  silent : ι → σ → Option σ

/-- One local update. -/
structure Event (ι σ Op : Type) where
  node : ι
  seq : ℕ
  op : Op
  /-- The state the update was applied to. -/
  before : σ
  /-- The updates that state had incorporated. -/
  past : List (ι × ℕ)
deriving DecidableEq

/-- A state together with the updates it incorporates. -/
structure Snapshot (ι σ Op : Type) where
  state : σ
  hist : List (Event ι σ Op)
deriving DecidableEq

structure World (ι σ Op : Type) where
  cur : ι → Snapshot ι σ Op
  ever : List (Snapshot ι σ Op)
  issued : ι → ℕ

/-- The steps: an update, a merge with the `k`-th state ever reached, a silent step. -/
inductive Action (ι Op : Type) where
  | update (i : ι) (op : Op)
  | merge (i : ι) (k : ℕ)
  | silent (i : ι)

variable {ι σ Op : Type}

def Event.id (e : Event ι σ Op) : ι × ℕ := (e.node, e.seq)

/-- Two states that incorporate the same updates. -/
def SameHistory (s t : Snapshot ι σ Op) : Prop := ∀ e, e ∈ s.hist ↔ e ∈ t.hist

theorem sameHistory_iff {s t : Snapshot ι σ Op} :
    ((∀ e ∈ s.hist, e ∈ t.hist) ∧ ∀ e ∈ t.hist, e ∈ s.hist) ↔ SameHistory s t :=
  ⟨fun h e => ⟨h.1 e, h.2 e⟩, fun h => ⟨fun e => (h e).mp, fun e => (h e).mpr⟩⟩

instance [DecidableEq ι] [DecidableEq σ] [DecidableEq Op] (s t : Snapshot ι σ Op) :
    Decidable (SameHistory s t) :=
  decidable_of_iff _ sameHistory_iff

/-- `merge` is commutative, associative and idempotent on the states of `S`, up to `same`. -/
structure MergeLaws (merge : σ → σ → σ) (same : σ → σ → Prop) (S : Set σ) : Prop where
  comm : ∀ s ∈ S, ∀ t ∈ S, same (merge s t) (merge t s)
  assoc : ∀ s ∈ S, ∀ t ∈ S, ∀ u ∈ S, same (merge (merge s t) u) (merge s (merge t u))
  idem : ∀ s ∈ S, same (merge s s) s

theorem MergeLaws.mono {merge : σ → σ → σ} {same same' : σ → σ → Prop} {S : Set σ}
    (h : MergeLaws merge same S) (himp : ∀ s t, same s t → same' s t) : MergeLaws merge same' S where
  comm s hs t ht := himp _ _ (h.comm s hs t ht)
  assoc s hs t ht u hu := himp _ _ (h.assoc s hs t ht u hu)
  idem s hs := himp _ _ (h.idem s hs)

namespace World

/-- The states that some replica ever had. -/
def states (w : World ι σ Op) : Set σ := {x | ∃ s ∈ w.ever, s.state = x}

variable [DecidableEq ι]

/-- Replica `i` moves to `s`. -/
def put (w : World ι σ Op) (i : ι) (s : Snapshot ι σ Op) : World ι σ Op :=
  { w with cur := Function.update w.cur i s, ever := w.ever ++ [s] }

/-- The next update of replica `i`. -/
def event (w : World ι σ Op) (i : ι) (op : Op) : Event ι σ Op :=
  ⟨i, w.issued i, op, (w.cur i).state, (w.cur i).hist.map Event.id⟩

/-- Replica `i` performs an update that leads to `s`. -/
def commit (w : World ι σ Op) (i : ι) (op : Op) (s : σ) : World ι σ Op :=
  { w.put i ⟨s, w.event i op :: (w.cur i).hist⟩ with
    issued := Function.update w.issued i (w.issued i + 1) }

@[simp] theorem ever_put (w : World ι σ Op) (i : ι) (s : Snapshot ι σ Op) :
    (w.put i s).ever = w.ever ++ [s] := rfl

@[simp] theorem cur_put (w : World ι σ Op) (i : ι) (s : Snapshot ι σ Op) :
    (w.put i s).cur = Function.update w.cur i s := rfl

@[simp] theorem ever_commit (w : World ι σ Op) (i : ι) (op : Op) (s : σ) :
    (w.commit i op s).ever = w.ever ++ [⟨s, w.event i op :: (w.cur i).hist⟩] := rfl

@[simp] theorem cur_commit (w : World ι σ Op) (i : ι) (op : Op) (s : σ) :
    (w.commit i op s).cur =
      Function.update w.cur i ⟨s, w.event i op :: (w.cur i).hist⟩ := rfl

@[simp] theorem issued_commit (w : World ι σ Op) (i : ι) (op : Op) (s : σ) :
    (w.commit i op s).issued = Function.update w.issued i (w.issued i + 1) := rfl

end World

/-- An update that may throw is an update that may fail. -/
theorem toOption_eq_some {ε α : Type} {x : Except ε α} {a : α} (h : x.toOption = some a) :
    x = .ok a := by
  cases x with
  | error e => cases h
  | ok b => rw [Option.some.inj h]

namespace System
variable [DecidableEq ι] (sys : System ι σ Op)

/-- All replicas start in the initial state. -/
def initial : World ι σ Op := ⟨fun _ => ⟨sys.init, []⟩, [⟨sys.init, []⟩], fun _ => 0⟩

def step (w : World ι σ Op) : Action ι Op → Option (World ι σ Op)
  | .update i op => (sys.update i op (w.cur i).state).map (w.commit i op)
  | .merge i k =>
      w.ever[k]?.bind fun t =>
        (sys.merge (w.cur i).state t.state).map fun u => w.put i ⟨u, (w.cur i).hist ++ t.hist⟩
  | .silent i => (sys.silent i (w.cur i).state).map fun u => w.put i ⟨u, (w.cur i).hist⟩

/-- Execute a list of actions; `none` when one of them fails or is not `ok`. -/
def run (ok : World ι σ Op → Action ι Op → Prop) [∀ w a, Decidable (ok w a)] (w : World ι σ Op) :
    List (Action ι Op) → Option (World ι σ Op)
  | [] => some w
  | a :: as => if ok w a then (sys.step w a).bind fun w' => run ok w' as else none

/-- `w` is reached by a run all of whose steps satisfy `ok`. -/
inductive Reach (ok : World ι σ Op → Action ι Op → Prop) : World ι σ Op → Prop
  | initial : Reach ok sys.initial
  | step {w w' : World ι σ Op} {a : Action ι Op} :
      Reach ok w → ok w a → sys.step w a = some w' → Reach ok w'

/-- Every run: no condition on the steps. -/
def AnyStep : World ι σ Op → Action ι Op → Prop := fun _ _ => True

instance (w : World ι σ Op) (a : Action ι Op) : Decidable (AnyStep w a) := isTrue trivial

variable {w : World ι σ Op}

theorem step_cases {w' : World ι σ Op} {a : Action ι Op} (h : sys.step w a = some w') :
    (∃ i op s, a = .update i op ∧ sys.update i op (w.cur i).state = some s ∧
      w' = w.commit i op s) ∨
    (∃ i k t u, a = .merge i k ∧ t ∈ w.ever ∧ w.ever[k]? = some t ∧
      sys.merge (w.cur i).state t.state = some u ∧ w' = w.put i ⟨u, (w.cur i).hist ++ t.hist⟩) ∨
    (∃ i u, a = .silent i ∧ sys.silent i (w.cur i).state = some u ∧
      w' = w.put i ⟨u, (w.cur i).hist⟩) := by
  cases a with
  | update i op =>
      obtain ⟨s, hs, rfl⟩ := Option.map_eq_some_iff.mp h
      exact Or.inl ⟨i, op, s, rfl, hs, rfl⟩
  | merge i k =>
      obtain ⟨t, ht, h⟩ := Option.bind_eq_some_iff.mp h
      obtain ⟨u, hu, rfl⟩ := Option.map_eq_some_iff.mp h
      exact Or.inr (Or.inl ⟨i, k, t, u, rfl, List.mem_of_getElem? ht, ht, hu, rfl⟩)
  | silent i =>
      obtain ⟨u, hu, rfl⟩ := Option.map_eq_some_iff.mp h
      exact Or.inr (Or.inr ⟨i, u, rfl, hu, rfl⟩)

variable {sys}

theorem reach_of_run {ok : World ι σ Op → Action ι Op → Prop} [∀ w a, Decidable (ok w a)]
    {as : List (Action ι Op)} {w' : World ι σ Op} (hw : sys.Reach ok w)
    (h : sys.run ok w as = some w') : sys.Reach ok w' := by
  induction as generalizing w with
  | nil =>
      obtain rfl := Option.some.inj h
      exact hw
  | cons a as ih =>
      rw [run] at h
      split_ifs at h with hok
      obtain ⟨w₁, h₁, h₂⟩ := Option.bind_eq_some_iff.mp h
      exact ih (.step hw hok h₁) h₂

/-- What a test finds in an executed run holds of some run. -/
theorem exists_of_run {ok : World ι σ Op → Action ι Op → Prop} [∀ w a, Decidable (ok w a)]
    {as : List (Action ι Op)} {P : World ι σ Op → Prop} [DecidablePred P]
    (h : (sys.run ok sys.initial as).any (fun w => decide (P w)) = true) :
    ∃ w, sys.run ok sys.initial as = some w ∧ sys.Reach ok w ∧ P w := by
  obtain ⟨w, hw, hp⟩ := (Option.any_eq_true _ _).mp h
  exact ⟨w, hw, reach_of_run .initial hw, of_decide_eq_true hp⟩

/-! ### What holds in every run -/

/-- The bookkeeping of histories. -/
structure Causal (w : World ι σ Op) : Prop where
  /-- Current states are states ever reached. -/
  cur_mem : ∀ i, w.cur i ∈ w.ever
  seq_lt : ∀ s ∈ w.ever, ∀ e ∈ s.hist, e.seq < w.issued e.node
  id_inj : ∀ s ∈ w.ever, ∀ t ∈ w.ever, ∀ e ∈ s.hist, ∀ f ∈ t.hist, e.id = f.id → e = f
  /-- A replica's current state incorporates all its own updates. -/
  own : ∀ i k, k < w.issued i → ∃ e ∈ (w.cur i).hist, e.id = (i, k)
  /-- An update knows the earlier updates of its replica. -/
  own_past : ∀ s ∈ w.ever, ∀ e ∈ s.hist, ∀ k < e.seq, (e.node, k) ∈ e.past
  /-- Histories are closed under the causal past. -/
  past_mem : ∀ s ∈ w.ever, ∀ e ∈ s.hist, ∀ x ∈ e.past, ∃ f ∈ s.hist, f.id = x
  /-- The past of an update is the history of a state ever reached, the one it was applied to. -/
  before : ∀ s ∈ w.ever, ∀ e ∈ s.hist,
    ∃ t ∈ w.ever, t.state = e.before ∧ t.hist.map Event.id = e.past ∧ ∀ f ∈ t.hist, f ∈ s.hist

omit [DecidableEq ι] in
/-- The current state of a replica incorporates every update of that replica. -/
theorem Causal.mem_own (h : Causal w) {s : Snapshot ι σ Op} (hs : s ∈ w.ever)
    {e : Event ι σ Op} (he : e ∈ s.hist) : e ∈ (w.cur e.node).hist := by
  obtain ⟨f, hf, hid⟩ := h.own e.node e.seq (h.seq_lt s hs e he)
  exact h.id_inj _ (h.cur_mem e.node) s hs f hf e he hid ▸ hf

omit [DecidableEq ι] in
/-- An update knew another one: that one is in the history of the state it was applied to. -/
theorem Causal.mem_before (h : Causal w) {s t : Snapshot ι σ Op}
    (hs : s ∈ w.ever) (ht : t ∈ w.ever) {a b : Event ι σ Op} (ha : a ∈ s.hist) (hb : b ∈ t.hist)
    (hab : a.id ∈ b.past) : ∃ r ∈ w.ever, r.state = b.before ∧ a ∈ r.hist := by
  obtain ⟨r, hr, hst, hpast, _⟩ := h.before t ht b hb
  rw [← hpast] at hab
  obtain ⟨a', ha', hid⟩ := List.mem_map.mp hab
  exact ⟨r, hr, hst, h.id_inj r hr s hs a' ha' a ha hid ▸ ha'⟩

omit [DecidableEq ι] in
theorem causal_initial : Causal sys.initial := by
  have hempty : ∀ s ∈ sys.initial.ever, s.hist = [] := by
    intro s hs
    rw [List.mem_singleton.mp hs]
  constructor
  · exact fun i => List.mem_singleton.mpr rfl
  · exact fun s hs e he => by rw [hempty s hs] at he; cases he
  · exact fun s hs t _ e he => by rw [hempty s hs] at he; cases he
  · exact fun i k hk => absurd hk (Nat.not_lt_zero k)
  · exact fun s hs e he => by rw [hempty s hs] at he; cases he
  · exact fun s hs e he => by rw [hempty s hs] at he; cases he
  · exact fun s hs e he => by rw [hempty s hs] at he; cases he

/-- A replica moves to a state whose history joins those of states ever reached. -/
theorem Causal.put (h : Causal w) (i : ι) (t : Snapshot ι σ Op) (ht : t ∈ w.ever) (u : σ) (hist : List (Event ι σ Op))
    (hh : ∀ e, e ∈ hist ↔ e ∈ (w.cur i).hist ∨ e ∈ t.hist) : Causal (w.put i ⟨u, hist⟩) := by
  have hsrc : ∀ s ∈ (w.put i ⟨u, hist⟩).ever, ∀ e ∈ s.hist,
      ∃ s' ∈ w.ever, e ∈ s'.hist ∧ ∀ f ∈ s'.hist, f ∈ s.hist := by
    intro s hs e he
    rcases List.mem_append.mp hs with hs | hs
    · exact ⟨s, hs, he, fun f hf => hf⟩
    · obtain rfl := List.mem_singleton.mp hs
      rcases (hh e).mp he with he | he
      · exact ⟨w.cur i, h.cur_mem i, he, fun f hf => (hh f).mpr (Or.inl hf)⟩
      · exact ⟨t, ht, he, fun f hf => (hh f).mpr (Or.inr hf)⟩
  constructor
  · intro j
    by_cases hj : j = i
    · subst hj; simp
    · simp only [World.cur_put, World.ever_put, Function.update_of_ne hj]
      exact List.mem_append_left _ (h.cur_mem j)
  · intro s hs e he
    obtain ⟨s', hs', he', _⟩ := hsrc s hs e he
    exact h.seq_lt s' hs' e he'
  · intro s hs r hr e he f hf
    obtain ⟨s', hs', he', _⟩ := hsrc s hs e he
    obtain ⟨r', hr', hf', _⟩ := hsrc r hr f hf
    exact h.id_inj s' hs' r' hr' e he' f hf'
  · intro j k hk
    obtain ⟨e, he, hid⟩ := h.own j k hk
    by_cases hj : j = i
    · subst hj
      exact ⟨e, by simpa using (hh e).mpr (Or.inl he), hid⟩
    · exact ⟨e, by simpa [Function.update_of_ne hj] using he, hid⟩
  · intro s hs e he
    obtain ⟨s', hs', he', _⟩ := hsrc s hs e he
    exact h.own_past s' hs' e he'
  · intro s hs e he x hx
    obtain ⟨s', hs', he', hsub⟩ := hsrc s hs e he
    obtain ⟨f, hf, hid⟩ := h.past_mem s' hs' e he' x hx
    exact ⟨f, hsub f hf, hid⟩
  · intro s hs e he
    obtain ⟨s', hs', he', hsub⟩ := hsrc s hs e he
    obtain ⟨r, hr, hst, hpast, hrs⟩ := h.before s' hs' e he'
    exact ⟨r, List.mem_append_left _ hr, hst, hpast, fun f hf => hsub f (hrs f hf)⟩

theorem Causal.commit (h : Causal w) (i : ι) (op : Op) (s : σ) :
    Causal (w.commit i op s) := by
  set e₀ := w.event i op with he₀
  have hcur := h.cur_mem i
  have hbound : ∀ j, w.issued j ≤ (w.commit i op s).issued j := by
    intro j
    rw [World.issued_commit]
    by_cases hj : j = i
    · subst hj; simp
    · rw [Function.update_of_ne hj]
  -- an event of the new world is old, or it is the new one in the new state
  have hsrc : ∀ t ∈ (w.commit i op s).ever, ∀ e ∈ t.hist,
      (∃ t' ∈ w.ever, e ∈ t'.hist ∧ ∀ f ∈ t'.hist, f ∈ t.hist) ∨
        (e = e₀ ∧ ∀ f ∈ (w.cur i).hist, f ∈ t.hist) := by
    intro t ht e he
    rw [World.ever_commit, List.mem_append] at ht
    rcases ht with ht | ht
    · exact Or.inl ⟨t, ht, he, fun f hf => hf⟩
    · obtain rfl := List.mem_singleton.mp ht
      rcases List.mem_cons.mp he with rfl | he
      · exact Or.inr ⟨rfl, fun f hf => List.mem_cons_of_mem _ hf⟩
      · exact Or.inl ⟨w.cur i, hcur, he, fun f hf => List.mem_cons_of_mem _ hf⟩
  have hfresh : ∀ t ∈ w.ever, ∀ e ∈ t.hist, e.id ≠ e₀.id := by
    intro t ht e he hid
    have hlt := h.seq_lt t ht e he
    have h1 : e.node = i := congrArg Prod.fst hid
    have h2 : e.seq = w.issued i := congrArg Prod.snd hid
    rw [h1, h2] at hlt
    exact lt_irrefl _ hlt
  constructor
  · intro j
    rw [World.cur_commit, World.ever_commit]
    by_cases hj : j = i
    · subst hj; simp
    · rw [Function.update_of_ne hj]
      exact List.mem_append_left _ (h.cur_mem j)
  · intro t ht e he
    rcases hsrc t ht e he with ⟨t', ht', he', _⟩ | ⟨rfl, _⟩
    · exact lt_of_lt_of_le (h.seq_lt t' ht' e he') (hbound _)
    · show w.issued i < Function.update w.issued i (w.issued i + 1) i
      simp
  · intro t ht r hr e he f hf hid
    rcases hsrc t ht e he with ⟨t', ht', he', _⟩ | ⟨rfl, _⟩ <;>
      rcases hsrc r hr f hf with ⟨r', hr', hf', _⟩ | ⟨rfl, _⟩
    · exact h.id_inj t' ht' r' hr' e he' f hf' hid
    · exact absurd hid (hfresh t' ht' e he')
    · exact absurd hid.symm (hfresh r' hr' f hf')
    · rfl
  · intro j k hk
    rw [World.cur_commit]
    rw [World.issued_commit] at hk
    by_cases hj : j = i
    · subst hj
      rw [Function.update_self] at hk ⊢
      rcases Nat.lt_succ_iff_lt_or_eq.mp hk with hk | rfl
      · obtain ⟨e, he, hid⟩ := h.own j k hk
        exact ⟨e, List.mem_cons_of_mem _ he, hid⟩
      · exact ⟨e₀, List.mem_cons_self, rfl⟩
    · rw [Function.update_of_ne hj] at hk ⊢
      exact h.own j k hk
  · intro t ht e he k hk
    rcases hsrc t ht e he with ⟨t', ht', he', _⟩ | ⟨rfl, _⟩
    · exact h.own_past t' ht' e he' k hk
    · obtain ⟨f, hf, hid⟩ := h.own i k hk
      exact List.mem_map.mpr ⟨f, hf, hid⟩
  · intro t ht e he x hx
    rcases hsrc t ht e he with ⟨t', ht', he', hsub⟩ | ⟨rfl, hsub⟩
    · obtain ⟨f, hf, hid⟩ := h.past_mem t' ht' e he' x hx
      exact ⟨f, hsub f hf, hid⟩
    · obtain ⟨f, hf, hid⟩ := List.mem_map.mp hx
      exact ⟨f, hsub f hf, hid⟩
  · intro t ht e he
    rcases hsrc t ht e he with ⟨t', ht', he', hsub⟩ | ⟨rfl, hsub⟩
    · obtain ⟨r, hr, hst, hpast, hrs⟩ := h.before t' ht' e he'
      exact ⟨r, List.mem_append_left _ hr, hst, hpast, fun f hf => hsub f (hrs f hf)⟩
    · exact ⟨w.cur i, List.mem_append_left _ hcur, rfl, rfl, hsub⟩

theorem Reach.causal {ok : World ι σ Op → Action ι Op → Prop} (h : sys.Reach ok w) : Causal w := by
  induction h with
  | initial => exact causal_initial
  | step _ _ he ih =>
      rcases sys.step_cases he with ⟨i, op, s, rfl, _, rfl⟩ | ⟨i, k, t, u, rfl, ht, _, _, rfl⟩ |
        ⟨i, u, rfl, _, rfl⟩
      · exact ih.commit i op s
      · exact ih.put i t ht u _ (fun e => List.mem_append)
      · exact ih.put i _ (ih.cur_mem i) u _ (fun e => (or_self_iff).symm)

/-- The invariant rule for snapshots: what holds initially and is kept by updates, merges and silent
steps holds of every state ever reached. -/
theorem Reach.forall_ever {ok : World ι σ Op → Action ι Op → Prop} {P : Snapshot ι σ Op → Prop}
    (hinit : P ⟨sys.init, []⟩)
    (hupdate : ∀ w i op s, sys.Reach ok w → ok w (.update i op) → w.cur i ∈ w.ever → P (w.cur i) →
      sys.update i op (w.cur i).state = some s → P ⟨s, w.event i op :: (w.cur i).hist⟩)
    (hmerge : ∀ w i k t u, sys.Reach ok w → ok w (.merge i k) → w.cur i ∈ w.ever → t ∈ w.ever →
      w.ever[k]? = some t → P (w.cur i) → P t → sys.merge (w.cur i).state t.state = some u →
        P ⟨u, (w.cur i).hist ++ t.hist⟩) (hsilent : ∀ w i u, sys.Reach ok w → w.cur i ∈ w.ever → P (w.cur i) →
      sys.silent i (w.cur i).state = some u → P ⟨u, (w.cur i).hist⟩) (h : sys.Reach ok w) : ∀ s ∈ w.ever, P s := by
  induction h with
  | initial =>
      intro s hs
      rwa [List.mem_singleton.mp hs]
  | @step w w' a hr hok he ih =>
      have hcur := hr.causal.cur_mem
      rcases sys.step_cases he with ⟨i, op, s, rfl, hu, rfl⟩ | ⟨i, k, t, u, rfl, ht, hk, hm, rfl⟩ |
        ⟨i, u, rfl, hs, rfl⟩ <;> intro r hmem
      · rcases List.mem_append.mp hmem with hmem | hmem
        · exact ih r hmem
        · rw [List.mem_singleton.mp hmem]
          exact hupdate w i op s hr hok (hcur i) (ih _ (hcur i)) hu
      · rcases List.mem_append.mp hmem with hmem | hmem
        · exact ih r hmem
        · rw [List.mem_singleton.mp hmem]
          exact hmerge w i k t u hr hok (hcur i) ht hk (ih _ (hcur i)) (ih t ht) hm
      · rcases List.mem_append.mp hmem with hmem | hmem
        · exact ih r hmem
        · rw [List.mem_singleton.mp hmem]
          exact hsilent w i u hr (hcur i) (ih _ (hcur i)) hs

/-! ### Convergence by joins -/

section lattice
variable {L : Type} [SemilatticeSup L] (sys)

/-- An abstraction of the states into a join-semilattice that turns merges into joins and
that updates never decrease, on the states that satisfy `Valid`. -/
structure Lattice (ok : World ι σ Op → Action ι Op → Prop) (Valid : σ → Prop) (abs : σ → L) : Prop where
  init : Valid sys.init
  update : ∀ w i op s, ok w (.update i op) → Valid (w.cur i).state →
    sys.update i op (w.cur i).state = some s → Valid s ∧ abs (w.cur i).state ≤ abs s
  merge : ∀ s t u, Valid s → Valid t → sys.merge s t = some u → Valid u ∧ abs u = abs s ⊔ abs t
  silent : ∀ i s u, Valid s → sys.silent i s = some u → Valid u ∧ abs u = abs s

/-- The update changed the abstraction. -/
def Effective (abs : σ → L) (e : Event ι σ Op) : Prop :=
  ∃ s, sys.update e.node e.op e.before = some s ∧ abs e.before ≠ abs s

/-- What a history contributes: the initial state and the states after its effective updates. -/
def contributions (abs : σ → L) (hist : List (Event ι σ Op)) : Set L :=
  {x | x = abs sys.init ∨
    ∃ e ∈ hist, ∃ s, sys.update e.node e.op e.before = some s ∧ abs e.before ≠ abs s ∧ x = abs s}

variable {sys} {ok : World ι σ Op → Action ι Op → Prop} {Valid : σ → Prop} {abs : σ → L}

omit [DecidableEq ι] [SemilatticeSup L] in
theorem contributions_mono {h h' : List (Event ι σ Op)}
    (hsub : ∀ e ∈ h, sys.Effective abs e → e ∈ h') :
    sys.contributions abs h ⊆ sys.contributions abs h' := by
  rintro x (hx | ⟨e, he, s, hs, hne, hx⟩)
  · exact Or.inl hx
  · exact Or.inr ⟨e, hsub e he ⟨s, hs, hne⟩, s, hs, hne, hx⟩

omit [DecidableEq ι] [SemilatticeSup L] in
theorem contributions_append (h h' : List (Event ι σ Op)) :
    sys.contributions abs (h ++ h') = sys.contributions abs h ∪ sys.contributions abs h' := by
  apply Set.Subset.antisymm
  · rintro x (hx | ⟨e, he, hx⟩)
    · exact Or.inl (Or.inl hx)
    · rcases List.mem_append.mp he with he | he
      · exact Or.inl (Or.inr ⟨e, he, hx⟩)
      · exact Or.inr (Or.inr ⟨e, he, hx⟩)
  · exact Set.union_subset (contributions_mono fun e he _ => List.mem_append_left _ he)
      (contributions_mono fun e he _ => List.mem_append_right _ he)

variable {w : World ι σ Op}

/-- The abstraction of a state is the join of what its history contributed. -/
theorem Lattice.isLUB (hl : sys.Lattice ok Valid abs) (h : sys.Reach ok w) :
    ∀ s ∈ w.ever, Valid s.state ∧ IsLUB (sys.contributions abs s.hist) (abs s.state) := by
  refine h.forall_ever (P := fun s => Valid s.state ∧
    IsLUB (sys.contributions abs s.hist) (abs s.state)) ?_ ?_ ?_ ?_
  · have e : sys.contributions abs ([] : List (Event ι σ Op)) = {abs sys.init} := by
      ext x; simp [contributions]
    exact ⟨hl.init, by rw [e]; exact isLUB_singleton⟩
  · rintro w i op s - hok - ⟨hv, hlub⟩ hu
    obtain ⟨hv', hle⟩ := hl.update w i op s hok hv hu
    -- what the extended history contributes lies below the new state
    have hupper : ∀ x ∈ sys.contributions abs (w.event i op :: (w.cur i).hist), x ≤ abs s := by
      rintro x (rfl | ⟨e, he, u, hu', hne, rfl⟩)
      · exact (hlub.1 (Or.inl rfl)).trans hle
      · rcases List.mem_cons.mp he with rfl | he
        · rw [show u = s from Option.some.inj (hu'.symm.trans hu)]
        · exact (hlub.1 (Or.inr ⟨e, he, u, hu', hne, rfl⟩)).trans hle
    refine ⟨hv', hupper, fun b hb => ?_⟩
    by_cases heff : abs (w.cur i).state = abs s
    · rw [← heff]
      exact hlub.2 fun x hx => hb (contributions_mono (fun e he _ => List.mem_cons_of_mem _ he) hx)
    · exact hb (Or.inr ⟨w.event i op, List.mem_cons_self, s, hu, heff, rfl⟩)
  · rintro w i k t u - - - - - ⟨hv, hlub⟩ ⟨hvt, hlubt⟩ hm
    obtain ⟨hv', habs⟩ := hl.merge _ _ _ hv hvt hm
    refine ⟨hv', ?_⟩
    rw [habs, contributions_append]
    exact hlub.union hlubt
  · rintro w i u - - ⟨hv, hlub⟩ hs
    obtain ⟨hv', habs⟩ := hl.silent i _ _ hv hs
    exact ⟨hv', by rw [habs]; exact hlub⟩

/-- Merging is a join of abstractions, hence commutative, associative and idempotent. -/
theorem Lattice.mergeLaws (hl : sys.Lattice ok Valid abs) {merge : σ → σ → σ}
    (hm : ∀ s t, sys.merge s t = some (merge s t)) (h : sys.Reach ok w) :
    MergeLaws merge (fun s t => abs s = abs t) w.states := by
  have hval : ∀ s ∈ w.states, Valid s := by
    rintro _ ⟨s, hs, rfl⟩
    exact (hl.isLUB h s hs).1
  have hjoin : ∀ {s t}, Valid s → Valid t →
      Valid (merge s t) ∧ abs (merge s t) = abs s ⊔ abs t := fun hs ht => hl.merge _ _ _ hs ht (hm _ _)
  constructor
  · intro s hs t ht
    rw [(hjoin (hval s hs) (hval t ht)).2, (hjoin (hval t ht) (hval s hs)).2, sup_comm]
  · intro s hs t ht u hu
    have hst := hjoin (hval s hs) (hval t ht)
    have htu := hjoin (hval t ht) (hval u hu)
    rw [(hjoin hst.1 (hval u hu)).2, (hjoin (hval s hs) htu.1).2, hst.2, htu.2, sup_assoc]
  · intro s hs
    rw [(hjoin (hval s hs) (hval s hs)).2, sup_idem]

variable {s t : Snapshot ι σ Op}

/-- A state dominates every state whose effective updates it incorporates. -/
theorem Lattice.le_of_effective (hl : sys.Lattice ok Valid abs)
    (h : sys.Reach ok w) (hs : s ∈ w.ever) (ht : t ∈ w.ever)
    (hsub : ∀ e ∈ s.hist, sys.Effective abs e → e ∈ t.hist) : abs s.state ≤ abs t.state :=
  (hl.isLUB h s hs).2.mono (hl.isLUB h t ht).2 (contributions_mono hsub)

theorem Lattice.le_of_subset (hl : sys.Lattice ok Valid abs) (h : sys.Reach ok w) (hs : s ∈ w.ever) (ht : t ∈ w.ever)
    (hsub : ∀ e ∈ s.hist, e ∈ t.hist) : abs s.state ≤ abs t.state :=
  hl.le_of_effective h hs ht fun e he _ => hsub e he

/-- **Convergence**: states with the same history have the same abstraction. -/
theorem Lattice.eq_of_sameHistory (hl : sys.Lattice ok Valid abs)
    (h : sys.Reach ok w) (hs : s ∈ w.ever) (ht : t ∈ w.ever) (heq : SameHistory s t) : abs s.state = abs t.state :=
  le_antisymm (hl.le_of_subset h hs ht fun e he => (heq e).mp he)
    (hl.le_of_subset h ht hs fun e he => (heq e).mpr he)

end lattice

end System
end BrowserMesh.Replication
