import BrowserMesh.Sync.SyncEngine

/-! # The document types and suppressed notifications

The table of constructors for registers, maps, counters and sets, each with the lattice of what its
writes contribute: the stamps of the cells, the counts, the tags with the tombstones.  The
entries named `__proto__` are left out where they do not travel. -/

namespace BrowserMesh.Sync

open Js Replication Primitives

variable {V α : Type}

/-! ### The constructors -/

/-- The value of a register, or its state when the value is `undefined`. -/
def registerView (r : LWWRegister (JsValue V)) : JsValue V ⊕ LWWRegister (JsValue V) :=
  match r.value with
  | .undefined => .inr r.toJSON
  | v => .inl v

abbrev Ctor.lwwRegister (V : Type) : Ctor where
  State := LWWRegister (JsValue V)
  Write := LWWRegister.Write (JsValue V)
  Json := LWWRegister (JsValue V)
  View := JsValue V ⊕ LWWRegister (JsValue V)
  new := LWWRegister.new
  write i op r := some (r.set op.value op.timestamp i)
  merge := LWWRegister.merge
  toJSON := LWWRegister.toJSON
  fromJSON := LWWRegister.fromJSON
  value := registerView

abbrev Ctor.lwwMap (V : Type) [HasNull V] : Ctor where
  State := LWWMap V
  Write := LWWMap.Write V
  Json := JsObject (EntryJSON V)
  View := JsObject V
  new := LWWMap.new
  write i op m := some (op.apply i m)
  merge := LWWMap.merge
  toJSON := LWWMap.toJSON
  fromJSON := LWWMap.fromJSON
  value := LWWMap.value

abbrev Ctor.gCounter : Ctor where
  State := GCounter
  Write := JsNumber
  Json := JsObject JsNumber
  View := JsNumber
  new := GCounter.new
  write i amount c := (c.increment i amount).toOption
  merge := GCounter.merge
  toJSON := GCounter.toJSON
  fromJSON := GCounter.fromJSON
  value := GCounter.value

abbrev Ctor.pnCounter : Ctor where
  State := PNCounter
  Write := PNCounter.Write
  Json := JsObject JsNumber × JsObject JsNumber
  View := JsNumber
  new := PNCounter.new
  write i op c := (op.apply i c).toOption
  merge := PNCounter.merge
  toJSON := PNCounter.toJSON
  fromJSON := PNCounter.fromJSON
  value := PNCounter.value

abbrev Ctor.orSet (α : Type) [DecidableEq α] : Ctor where
  State := ORSet α
  Write := ORSet.Op α
  Json := ORSet.Json α
  View := JsSet α
  new := ORSet.new
  write i op s := some (op.apply i s)
  merge := ORSet.merge
  toJSON := ORSet.toJSON
  fromJSON := ORSet.fromJSON
  value := ORSet.value

/-! ### Their lattices -/

/-- No engine `__proto__` writes, and no `undefined` is written. -/
def registerOk (i : JsString) (op : LWWRegister.Write (JsValue V)) : Prop :=
  i ≠ protoKey ∧ Defined op.value

theorem sound_lwwRegister :
    Sound (C := Ctor.lwwRegister V) (fun i op _ => registerOk i op) LWWRegister.Regular
      LWWRegister.stamp where
  new := LWWRegister.regular_new
  write i op r r' hok hv hw := by
    obtain rfl := Option.some.inj hw
    obtain ⟨hv', ha⟩ := LWWRegister.set_spec hv hok.2 op.timestamp i
    exact ⟨hv', WithBot.coe_le_coe.mp ha.le, fun hp => absurd hp hok.1⟩
  merge r t hr ht := by
    have hreload : LWWRegister.fromJSON t.toJSON = t := LWWRegister.copy_eq_self ht
    obtain ⟨hv, hc⟩ := LWWRegister.merge_spec hr ht
    have hstamp : stampOf (r.merge t).cell = stampOf r.cell ⊔ stampOf t.cell := by
      rw [hc, stampOf_pick]
    change (LWWRegister.merge r (LWWRegister.fromJSON t.toJSON)).Regular ∧
      (LWWRegister.merge r (LWWRegister.fromJSON t.toJSON)).stamp = _
    rw [hreload]
    exact ⟨hv, WithBot.coe_injective hstamp⟩
  noop r t hr ht hle := by
    have hreload : LWWRegister.fromJSON t.toJSON = t := LWWRegister.copy_eq_self ht
    change registerView (LWWRegister.merge r (LWWRegister.fromJSON t.toJSON)) = registerView r
    rw [hreload, LWWRegister.merge_eq_self hr ht hle]

/-- No engine `__proto__` writes, and all writes are regular. -/
def mapOk [HasNull V] (i : JsString) (op : LWWMap.Write V) (m : LWWMap V) : Prop :=
  i ≠ protoKey ∧ op.Regular m

def mapStamps (m : LWWMap V) (k : {k : JsString // k ≠ protoKey}) : WithBot Stamp :=
  stampOf (m.cell k)

theorem sound_lwwMap [HasNull V] :
    Sound (C := Ctor.lwwMap V) mapOk LWWMap.Regular mapStamps where
  new := LWWMap.regular_new
  write i op m m' hok hv hw := by
    obtain rfl := Option.some.inj hw
    obtain ⟨hv', ha⟩ := LWWMap.Write.apply_spec hv i hok.2
    exact ⟨hv', fun k => (ha k).le, fun hp => absurd hp hok.1⟩
  merge m t hm ht := by
    obtain ⟨hv, hc⟩ := LWWMap.merge_spec hm (LWWMap.regular_reload ht)
    refine ⟨hv, funext fun k => ?_⟩
    change stampOf ((m.merge (LWWMap.fromJSON t.toJSON)).cell k) = _
    rw [hc, stampOf_pick, LWWMap.cell_reload ht, if_neg k.2]
    rfl
  noop m t hm ht hle := by
    refine LWWMap.value_congr (LWWMap.same_of_cell (funext fun k => ?_))
    change (m.merge (LWWMap.fromJSON t.toJSON)).cell k = m.cell k
    rw [(LWWMap.merge_spec hm (LWWMap.regular_reload ht)).2, LWWMap.cell_reload ht]
    split_ifs with hk
    · exact pick_of_le bot_le
    · exact pick_of_le (hle ⟨k, hk⟩)

def counts (c : GCounter) (k : {k : JsString // k ≠ protoKey}) : WithBot JsNumber := c.count k

variable {c d : GCounter}

theorem counts_merge_reload (hc : c.Counts) (hd : d.Counts) :
    (c.merge (GCounter.fromJSON d.toJSON)).Counts ∧
      counts (c.merge (GCounter.fromJSON d.toJSON)) = counts c ⊔ counts d := by
  obtain ⟨hv, hm⟩ := GCounter.merge_spec hc (GCounter.counts_reload hd)
  refine ⟨hv, funext fun k => ?_⟩
  rw [counts, hm, Pi.sup_apply, GCounter.count_reload, if_neg k.2]
  rfl

theorem merge_reload_eq_self (h : counts d ≤ counts c) :
    c.merge (GCounter.fromJSON d.toJSON) = c := by
  apply GCounter.merge_eq_self
  intro k
  rw [GCounter.count_reload]
  split_ifs with hk
  · exact bot_le
  · exact h ⟨k, hk⟩

/-- A count of the engine `__proto__` does not travel. -/
theorem counts_increment {i : JsString} {amount : JsNumber}
    (h : c.increment i amount = .ok d) (hp : i = protoKey) : counts c = counts d := by
  unfold GCounter.increment at h
  split_ifs at h
  obtain rfl := Except.ok.inj h
  funext k
  have hne : (k : JsString) ≠ i := fun e => k.2 (e.trans hp)
  exact ((JsMap.get?_set c.counts i _ k).trans (if_neg hne)).symm

theorem sound_gCounter :
    Sound (C := Ctor.gCounter) (fun _ _ _ => True) GCounter.Counts counts where
  new := GCounter.counts_new
  write i amount c d _ hv hw := by
    have hok := toOption_eq_some hw
    obtain ⟨hv', hle⟩ := GCounter.increment_spec hv hok
    exact ⟨hv', fun k => hle k, counts_increment hok⟩
  merge c d hc hd := counts_merge_reload hc hd
  noop c d _ _ hle := congrArg GCounter.value (merge_reload_eq_self hle)

theorem value_merge_reload {c d : PNCounter}
    (h : (counts d.pos, counts d.neg) ≤ (counts c.pos, counts c.neg)) :
    (c.merge (PNCounter.fromJSON d.toJSON)).value = c.value := by
  have e : c.merge (PNCounter.fromJSON d.toJSON) =
      ⟨c.pos.merge (GCounter.fromJSON d.pos.toJSON), c.neg.merge (GCounter.fromJSON d.neg.toJSON)⟩ :=
    rfl
  rw [e, merge_reload_eq_self h.1, merge_reload_eq_self h.2]

theorem sound_pnCounter :
    Sound (C := Ctor.pnCounter) (fun _ _ _ => True) PNCounter.Counts
      (fun c => (counts c.pos, counts c.neg)) where
  new := PNCounter.counts_new
  write i op c d _ hv hw := by
    have hok := toOption_eq_some hw
    obtain ⟨hv', hle⟩ := PNCounter.Write.apply_spec hv hok
    refine ⟨hv', ⟨fun k => hle.1 k, fun k => hle.2 k⟩, fun hp => ?_⟩
    cases op with
    | increment amount =>
        change (c.pos.increment i amount).map (fun pos => (⟨pos, c.neg⟩ : PNCounter)) = .ok d at hok
        cases hi : c.pos.increment i amount with
        | error e => rw [hi] at hok; cases hok
        | ok pos =>
            rw [hi] at hok
            obtain rfl := Except.ok.inj hok
            exact Prod.ext (counts_increment hi hp) rfl
    | decrement amount =>
        change (c.neg.increment i amount).map (fun neg => (⟨c.pos, neg⟩ : PNCounter)) = .ok d at hok
        cases hi : c.neg.increment i amount with
        | error e => rw [hi] at hok; cases hok
        | ok neg =>
            rw [hi] at hok
            obtain rfl := Except.ok.inj hok
            exact Prod.ext rfl (counts_increment hi hp)
  merge c d hc hd := by
    obtain ⟨hp, hpc⟩ := counts_merge_reload hc.1 hd.1
    obtain ⟨hn, hnc⟩ := counts_merge_reload hc.2 hd.2
    exact ⟨⟨hp, hn⟩, Prod.ext hpc hnc⟩
  noop c d _ _ hle := value_merge_reload hle

variable [DecidableEq α]

def setTags (s : ORSet α) : Set (α × JsString) × Set JsString :=
  ({x | x.2 ∈ s.tags x.1}, {tag | tag ∈ s.tombstones})

theorem setTags_le_apply (i : JsString) (op : ORSet.Op α) (s : ORSet α) :
    setTags s ≤ setTags (op.apply i s) := by
  cases op with
  | add x =>
      exact ⟨fun y hy => (ORSet.mem_tags_add s x i y.1 y.2).mpr (Or.inl hy), fun tag htag => htag⟩
  | remove x =>
      refine ⟨fun y hy => ?_, fun tag htag => (ORSet.mem_tombstones_remove s x tag).mpr (Or.inl htag)⟩
      change y.2 ∈ (s.remove x).tags y.1
      rw [ORSet.tags_remove]
      exact hy

theorem tagged_apply (i : JsString) (op : ORSet.Op α) {s : ORSet α} (hs : s.Tagged) :
    (op.apply i s).Tagged := by
  cases op with
  | add x => exact ORSet.tagged_add hs x i
  | remove x => exact ORSet.tagged_remove hs x

theorem sound_orSet :
    Sound (C := Ctor.orSet α) (fun i _ _ => i ≠ protoKey) ORSet.Tagged setTags where
  new := ORSet.tagged_new
  write i op s s' hok hv hw := by
    obtain rfl := Option.some.inj hw
    exact ⟨tagged_apply i op hv, setTags_le_apply i op s, fun hp => absurd hp hok⟩
  merge s t hs ht := by
    refine ⟨ORSet.tagged_merge hs (ORSet.tagged_reload ht), Prod.ext ?_ ?_⟩
    · ext x
      refine (ORSet.mem_tags_merge s _ x.1 x.2).trans (or_congr_right ?_)
      exact ORSet.mem_tags_reload t x.1 x.2
    · ext tag
      refine (ORSet.mem_tombstones_merge s _ tag).trans (or_congr_right ?_)
      exact ORSet.mem_tombstones_reload t tag
  noop s t _ ht hle := by
    refine ORSet.value_merge_eq (ORSet.tagged_reload ht) (fun x tag h => ?_) (fun tag h => ?_)
    · exact hle.1 (show (x, tag) ∈ (setTags t).1 from (ORSet.mem_tags_reload t x tag).mp h)
    · exact hle.2 ((ORSet.mem_tombstones_reload t tag).mp h)

/-! ### Suppressed notifications -/

omit [DecidableEq α] in
/-- **Sound suppression.**  In every run, a merge that does not notify its subscribers leaves
what the document shows: for a register that no engine `__proto__` writes and that is not
set to `undefined`; a map that no engine `__proto__` writes and whose writes are regular; every
counter; a set that no engine `__proto__` changes. -/
theorem suppression_sound [DecidableEq α] :
    SuppressionSound (C := Ctor.lwwRegister V) (fun i op _ => registerOk i op) ∧
    SuppressionSound (C := Ctor.lwwMap (JsValue V)) mapOk ∧
    SuppressionSound (C := Ctor.gCounter) (fun _ _ _ => True) ∧
    SuppressionSound (C := Ctor.pnCounter) (fun _ _ _ => True) ∧
    SuppressionSound (C := Ctor.orSet α) (fun i _ _ => i ≠ protoKey) :=
  ⟨sound_lwwRegister.suppressionSound, sound_lwwMap.suppressionSound,
    sound_gCounter.suppressionSound, sound_pnCounter.suppressionSound,
    sound_orSet.suppressionSound⟩

/-- Two engines create the document and add `1` and `2`; the second merges the first twice. -/
def duplicateRun : List (Action JsString (List (ORSet.Op ℕ))) :=
  [.silent (js "a"), .silent (js "b"), .update (js "a") [.add 1], .update (js "b") [.add 2],
    .merge (js "b") 3]

theorem suppression_sound_duplicateRun :
    ∃ w v, (system (Ctor.orSet ℕ) (js "doc")).run (UpdatesOk (fun i _ _ => i ≠ protoKey) (js "doc"))
        (system (Ctor.orSet ℕ) (js "doc")).initial duplicateRun = some w ∧
      silentMerge (js "doc") (js "b") 3 w = some (v, v) := by
  have h : ((system (Ctor.orSet ℕ) (js "doc")).run
      (UpdatesOk (fun i _ _ => i ≠ protoKey) (js "doc")) (system (Ctor.orSet ℕ) (js "doc")).initial
      duplicateRun).any (fun w => (silentMerge (js "doc") (js "b") 3 w).isSome) = true := by
    decide +kernel
  obtain ⟨w, hw, h⟩ := (Option.any_eq_true _ _).mp h
  obtain ⟨⟨v, v'⟩, hm⟩ := Option.isSome_iff_exists.mp h
  obtain rfl := (suppression_sound (V := ℕ) (α := ℕ)).2.2.2.2.eq (System.reach_of_run .initial hw) hm
  exact ⟨w, _, hw, hm⟩

/-! ### Where suppression hides a change -/

/-- An engine sets its register to `undefined`. -/
def undefinedRun : List (Action JsString (List (LWWRegister.Write (JsValue ℕ)))) :=
  [.silent (js "a"), .update (js "a") [⟨.undefined, .ofNat 1⟩]]

/-- Merging its own payload, the engine does not notify, and then shows `null`. -/
theorem suppression_hides_undefined :
    ¬ SuppressionSound (C := Ctor.lwwRegister ℕ) (fun _ _ _ => True) :=
  not_suppressionSound (js "doc") (js "a") 2 undefinedRun
    (by decide +kernel)

end BrowserMesh.Sync
