import BrowserMesh.Sync.MemorySync

/-! # Keeping both sides of a conflict

* `take`: one entry of a remote state; a merge is a sequence of them.  Under `keepBoth` an entry that differs from the
  local one is written under the suffixed key, whatever is there.
* `lossless_iff`: no value is lost along a run if and only if every step spares what it overwrites.
* `stops_iff`: a repeated exchange comes to an end if and only if there is no conflict at its start.  A conflict at a
  key is one at the suffixed key after the next exchange (`Alternating`). -/

namespace BrowserMesh.Sync

open Js

namespace AgentMemorySync
variable {V : Type}

def take (s : AgentMemorySync V) (remote : MemoryEntry V) : AgentMemorySync V := (mergeEntry ⟨s, 0, []⟩ remote).sync

theorem sync_mergeEntry (m : Merging V) (remote : MemoryEntry V) : (mergeEntry m remote).sync = take m.sync remote := by
  unfold take mergeEntry
  cases m.sync.state.get? remote.key with
  | none => rfl
  | some e =>
      simp only
      split_ifs
      · rfl
      · cases m.sync.resolveEntry e remote with
        | acceptRemote => rfl
        | keepLocal => rfl
        | keepBoth => rfl
        | conflict => rfl

def after (s : AgentMemorySync V) (entries : List (MemoryEntry V)) : AgentMemorySync V := entries.foldl take s

theorem sync_foldl_mergeEntry (entries : List (MemoryEntry V)) (m : Merging V) :
    (entries.foldl mergeEntry m).sync = m.sync.after entries := by
  induction entries generalizing m with
  | nil => rfl
  | cons e entries ih =>
      rw [List.foldl_cons, ih, sync_mergeEntry]
      rfl

theorem sync_mergeFrom (s t : AgentMemorySync V) : (mergeFrom s t).sync = s.after t.state.values :=
  sync_foldl_mergeEntry _ _

theorem after_append (s : AgentMemorySync V) (l l' : List (MemoryEntry V)) : s.after (l ++ l') = (s.after l).after l' :=
  List.foldl_append

theorem after_concat (s : AgentMemorySync V) (l : List (MemoryEntry V)) (e : MemoryEntry V) :
    s.after (l ++ [e]) = (s.after l).take e :=
  after_append s l [e]

/-- The remote entry is in conflict with the local one. -/
def Conflicts (s : AgentMemorySync V) (remote : MemoryEntry V) : Prop :=
  ∃ e, s.state.get? remote.key = some e ∧ ¬ SameStamp e remote

variable {s : AgentMemorySync V}

/-- One entry under `keepBoth`. -/
theorem take_keepBoth (hs : s.strategy = .keepBoth) (remote : MemoryEntry V) :
    (s.state.get? remote.key = none ∧ s.take remote = s.put remote) ∨
      (∃ e, s.state.get? remote.key = some e ∧ SameStamp e remote ∧ s.take remote = s) ∨
      s.Conflicts remote ∧ s.take remote = s.put remote.suffixed := by
  unfold take mergeEntry
  cases hget : s.state.get? remote.key with
  | none => exact Or.inl ⟨rfl, rfl⟩
  | some e =>
      by_cases hstamp : SameStamp e remote
      · exact Or.inr (Or.inl ⟨e, rfl, hstamp, by simp only [if_pos hstamp]⟩)
      · have hresolve : s.resolveEntry e remote = .keepBoth := by rw [resolveEntry, hs]
        exact Or.inr (Or.inr ⟨⟨e, hget, hstamp⟩, by simp only [if_neg hstamp, hresolve]⟩)

theorem strategy_take (hs : s.strategy = .keepBoth) (remote : MemoryEntry V) :
    (s.take remote).strategy = .keepBoth := by
  obtain ⟨-, h⟩ | ⟨-, -, -, h⟩ | ⟨-, h⟩ := take_keepBoth hs remote
  · rw [h]
    exact hs
  · rw [h]
    exact hs
  · rw [h]
    exact hs

theorem strategy_after (hs : s.strategy = .keepBoth) (entries : List (MemoryEntry V)) :
    (s.after entries).strategy = .keepBoth := by
  induction entries generalizing s with
  | nil => exact hs
  | cons e entries ih => exact ih (strategy_take hs e)

theorem get?_put (s : AgentMemorySync V) (e : MemoryEntry V) (k : JsString) :
    (s.put e).state.get? k = if k = e.key then some e else s.state.get? k :=
  JsMap.get?_set _ _ _ _

/-! ### Sequences of merges -/

/-- The instance after merges of remote states, each at its own time; a merge that throws changes nothing. -/
def mergeSequence (s : AgentMemorySync V) (states : List (Clock × List (EntryRecord V))) : AgentMemorySync V :=
  states.foldl (fun s remoteState => ((merge remoteState.1 s remoteState.2).map Merging.sync).getD s) s

def processed (states : List (Clock × List (EntryRecord V))) : List (MemoryEntry V) :=
  states.flatMap fun remoteState => (remoteState.2.mapM (newMemoryEntry remoteState.1)).getD []

theorem mergeSequence_eq (s : AgentMemorySync V) (states : List (Clock × List (EntryRecord V))) :
    mergeSequence s states = s.after (processed states) := by
  induction states generalizing s with
  | nil => rfl
  | cons remoteState states ih =>
      have hone : ((merge remoteState.1 s remoteState.2).map Merging.sync).getD s =
          s.after ((remoteState.2.mapM (newMemoryEntry remoteState.1)).getD []) := by
        unfold merge
        cases remoteState.2.mapM (newMemoryEntry remoteState.1) with
        | none => rfl
        | some entries => exact sync_foldl_mergeEntry entries ⟨s, 0, []⟩
      rw [processed, List.flatMap_cons, after_append, ← hone]
      exact ih _

/-! ### What is lost -/

def Live (s : AgentMemorySync V) (v : Option V) : Prop :=
  ∃ k e, s.state.get? k = some e ∧ e.tombstone = false ∧ e.value = v

/-- A live entry that an entry in conflict overwrites has the same value, or its value is stored elsewhere too. -/
def Spares (s : AgentMemorySync V) (remote : MemoryEntry V) : Prop :=
  s.Conflicts remote → ∀ old, s.state.get? (MemoryEntry.suffixedKey remote.key) = some old → old.tombstone = false →
    (remote.tombstone = false ∧ remote.value = old.value) ∨
      ∃ k e, k ≠ MemoryEntry.suffixedKey remote.key ∧ s.state.get? k = some e ∧ e.tombstone = false ∧
        e.value = old.value

/-- Along the entries, what is stored at some time is stored at all later times, and so is what was kept beside a local
entry. -/
structure Lossless (s : AgentMemorySync V) (entries : List (MemoryEntry V)) : Prop where
  values : ∀ before between later, entries = before ++ between ++ later → ∀ v, (s.after before).Live v →
    (s.after (before ++ between)).Live v
  both : ∀ before remote between later, entries = before ++ (remote :: between) ++ later →
    (s.after before).Conflicts remote → remote.tombstone = false →
    (s.after (before ++ (remote :: between))).Live remote.value

def AllSpare (s : AgentMemorySync V) (entries : List (MemoryEntry V)) : Prop :=
  ∀ before remote later, entries = before ++ remote :: later → (s.after before).Spares remote

/-- **One entry** keeps all values if and only if it spares what it overwrites. -/
theorem live_take_iff (hs : s.strategy = .keepBoth) (remote : MemoryEntry V) :
    (∀ v, s.Live v → (s.take remote).Live v) ↔ s.Spares remote := by
  constructor
  · intro hlive hconflict old hold hlive'
    obtain ⟨hnone, -⟩ | ⟨e, hget, hsame, -⟩ | ⟨-, htake⟩ := take_keepBoth hs remote
    · obtain ⟨e, hget, -⟩ := hconflict
      rw [hnone] at hget
      cases hget
    · obtain ⟨e', hget', hne⟩ := hconflict
      rw [hget] at hget'
      obtain rfl := Option.some.inj hget'
      exact absurd hsame hne
    · obtain ⟨k, e, hget, htomb, hvalue⟩ := hlive old.value ⟨_, old, hold, hlive', rfl⟩
      rw [htake, get?_put] at hget
      split_ifs at hget with hk
      · obtain rfl := Option.some.inj hget
        exact Or.inl ⟨htomb, hvalue⟩
      · exact Or.inr ⟨k, e, hk, hget, htomb, hvalue⟩
  · rintro hspares v ⟨k, e, hget, htomb, hvalue⟩
    obtain ⟨hnone, htake⟩ | ⟨-, -, -, htake⟩ | ⟨hconflict, htake⟩ := take_keepBoth hs remote
    · rw [htake]
      refine ⟨k, e, ?_, htomb, hvalue⟩
      rw [get?_put, if_neg, hget]
      rintro rfl
      rw [hnone] at hget
      cases hget
    · rw [htake]
      exact ⟨k, e, hget, htomb, hvalue⟩
    · rw [htake]
      by_cases hk : k = MemoryEntry.suffixedKey remote.key
      · subst hk
        obtain ⟨htomb', hvalue'⟩ | ⟨k', e', hk', hget', htomb', hvalue'⟩ := hspares hconflict e hget htomb
        · refine ⟨_, remote.suffixed, (get?_put _ _ _).trans (if_pos rfl), htomb', hvalue'.trans hvalue⟩
        · exact ⟨k', e', (get?_put _ _ _).trans ((if_neg hk').trans hget'), htomb', hvalue'.trans hvalue⟩
      · exact ⟨k, e, (get?_put _ _ _).trans ((if_neg hk).trans hget), htomb, hvalue⟩

theorem live_of_conflicts (hs : s.strategy = .keepBoth) {remote : MemoryEntry V}
    (h : s.Conflicts remote) (htomb : remote.tombstone = false) : (s.take remote).Live remote.value := by
  obtain ⟨hnone, -⟩ | ⟨e, hget, hsame, -⟩ | ⟨-, htake⟩ := take_keepBoth hs remote
  · obtain ⟨e, hget, -⟩ := h
    rw [hnone] at hget
    cases hget
  · obtain ⟨e', hget', hne⟩ := h
    rw [hget] at hget'
    obtain rfl := Option.some.inj hget'
    exact absurd hsame hne
  · rw [htake]
    exact ⟨_, remote.suffixed, (get?_put _ _ _).trans (if_pos rfl), htomb, rfl⟩

/-- **A run** keeps all values if and only if each of its entries spares what it overwrites. -/
theorem lossless_iff (hs : s.strategy = .keepBoth) (entries : List (MemoryEntry V)) :
    s.Lossless entries ↔ s.AllSpare entries := by
  constructor
  · intro h before remote later hsplit
    refine (live_take_iff (strategy_after hs before) remote).mp fun v hv => ?_
    have hkept := h.values before [remote] later (by rw [hsplit, List.append_assoc, List.singleton_append]) v hv
    rwa [after_concat] at hkept
  · intro h
    have hvalues : ∀ between before later, entries = before ++ between ++ later → ∀ v, (s.after before).Live v →
        (s.after (before ++ between)).Live v := by
      intro between
      induction between with
      | nil =>
          intro before later _ v hv
          rwa [List.append_nil]
      | cons e between ih =>
          intro before later hsplit v hv
          have hspares := h before e (between ++ later) (by rw [hsplit, List.append_assoc, List.cons_append])
          have hstep := (live_take_iff (strategy_after hs before) e).mpr hspares v hv
          rw [← after_concat] at hstep
          have hassoc : before ++ e :: between = before ++ [e] ++ between := by
            rw [List.append_assoc, List.singleton_append]
          rw [hassoc] at hsplit ⊢
          exact ih (before ++ [e]) later hsplit v hstep
    refine ⟨fun before between later => hvalues between before later, fun before remote between later hsplit hc ht => ?_⟩
    have hlive := live_of_conflicts (strategy_after hs before) hc ht
    have hassoc : before ++ remote :: between = before ++ [remote] ++ between := by
      rw [List.append_assoc, List.singleton_append]
    rw [← after_concat] at hlive
    rw [hassoc] at hsplit ⊢
    exact hvalues between (before ++ [remote]) later hsplit _ hlive

/-! ### Repeated exchanges -/

theorem SameStamp.refl (e : MemoryEntry V) : SameStamp e e := ⟨rfl, rfl⟩

variable {e e' : MemoryEntry V}

theorem SameStamp.symm (h : SameStamp e e') : SameStamp e' e := ⟨h.1.symm, h.2.symm⟩

theorem SameStamp.trans {e'' : MemoryEntry V} (h : SameStamp e e') (h' : SameStamp e' e'') : SameStamp e e'' :=
  ⟨h.1.trans h'.1, h.2.trans h'.2⟩

/-- The instances have entries that differ at the key. -/
def InConflict (a b : AgentMemorySync V) (k : JsString) : Prop :=
  ∃ e e', a.state.get? k = some e ∧ b.state.get? k = some e' ∧ ¬ SameStamp e e'

variable {a b a' b' : AgentMemorySync V}

/-- An exchange merges the state of the other instance, or the state that it has after its own merge. -/
theorem Exchanged.cases {now : Clock} (h : Exchanged now a b a' b') :
    (a' = a.after b.state.values ∧ (b' = b.after a.state.values ∨ b' = b.after a'.state.values)) ∨
      b' = b.after a.state.values ∧ a' = a.after b'.state.values := by
  obtain ⟨m, m', rfl, rfl, h⟩ := h
  simp only [merge_serializeState, Option.some.injEq] at h
  obtain ⟨rfl, rfl⟩ | ⟨rfl, rfl⟩ | ⟨rfl, rfl⟩ := h
  · exact Or.inl ⟨sync_mergeFrom a b, Or.inl (sync_mergeFrom b a)⟩
  · exact Or.inl ⟨sync_mergeFrom a b, Or.inr (sync_mergeFrom b _)⟩
  · exact Or.inr ⟨sync_mergeFrom b a, sync_mergeFrom a _⟩

/-! #### Without a conflict -/

theorem after_of_agree (hs : s.strategy = .keepBoth) {l : List (MemoryEntry V)}
    (hl : (l.map MemoryEntry.key).Nodup) (h : ∀ e ∈ l, ¬ s.Conflicts e) (k : JsString) :
    (s.after l).state.get? k = (s.state.get? k).or (l.find? fun e => e.key = k) := by
  induction l generalizing s with
  | nil => exact Option.or_none.symm
  | cons e l ih =>
      rw [List.map_cons, List.nodup_cons] at hl
      have hrest : ∀ e' ∈ l, e'.key ≠ e.key := by
        rintro e' he' hkey
        exact hl.1 (hkey ▸ List.mem_map_of_mem he')
      have hfind : e.key ≠ k → (e :: l).find? (fun e => e.key = k) = l.find? fun e => e.key = k := fun hk =>
        List.find?_cons_of_neg (by simpa using hk)
      have hstep : s.after (e :: l) = (s.take e).after l := rfl
      rw [hstep]
      obtain ⟨hnone, htake⟩ | ⟨e', hget, -, htake⟩ | ⟨hconflict, -⟩ := take_keepBoth hs e
      · rw [htake, ih (s := s.put e) hs hl.2, get?_put]
        · by_cases hk : k = e.key
          · rw [if_pos hk, hk, hnone, List.find?_cons_of_pos (by simp)]
            rfl
          · rw [if_neg hk, hfind (Ne.symm hk)]
        · rintro e₁ he₁ ⟨e₂, hget₂, hne⟩
          rw [get?_put, if_neg (hrest e₁ he₁)] at hget₂
          exact h e₁ (List.mem_cons_of_mem _ he₁) ⟨e₂, hget₂, hne⟩
      · rw [htake, ih hs hl.2 fun e₁ he₁ => h e₁ (List.mem_cons_of_mem _ he₁)]
        by_cases hk : e.key = k
        · rw [← hk, hget]
          rfl
        · rw [hfind hk]
      · exact absurd hconflict (h e List.mem_cons_self)

theorem find?_values (t : AgentMemorySync V) (k : JsString) :
    (t.state.values.find? fun e => e.key = k) = t.state.get? k := by
  have hcell := entryOfKey_values t k
  rw [entryOfKey, cell] at hcell
  exact Option.map_injective (fun e e' h => (Prod.mk.inj h).2) hcell

theorem conflicts_of_mem {t : AgentMemorySync V} (h : ∀ k, ¬ InConflict s t k)
    (he : e ∈ t.state.values) : ¬ s.Conflicts e := by
  rintro ⟨e', hget, hne⟩
  exact h e.key ⟨e', e, hget, mem_values_iff.mp he, hne⟩

variable {k : JsString}

theorem InConflict.symm (h : InConflict a b k) : InConflict b a k := by
  obtain ⟨e, e', hget, hget', hne⟩ := h
  exact ⟨e', e, hget', hget, fun hs => hne hs.symm⟩

theorem get?_after_of_agree (ha : a.strategy = .keepBoth) (h : ∀ k, ¬ InConflict a b k)
    (k : JsString) : (a.after b.state.values).state.get? k = (a.state.get? k).or (b.state.get? k) := by
  rw [after_of_agree ha b.nodup_keys_values (fun e he => conflicts_of_mem h he), find?_values]

theorem Exchanged.joined {now : Clock} (h : Exchanged now a b a' b')
    (ha : a.strategy = .keepBoth) (hb : b.strategy = .keepBoth) (hno : ∀ k, ¬ InConflict a b k) :
    (∀ k, a'.state.get? k = (a.state.get? k).or (b.state.get? k)) ∧
      ∀ k, b'.state.get? k = (b.state.get? k).or (a.state.get? k) := by
  have hno' : ∀ k, ¬ InConflict b a k := fun k hk => hno k hk.symm
  -- what is merged second has the entries of both, and no conflict with either
  have hsecond : ∀ {c d c' : AgentMemorySync V}, d.strategy = .keepBoth → (∀ k, ¬ InConflict d c k) →
      (∀ k, c'.state.get? k = (c.state.get? k).or (d.state.get? k)) →
      ∀ k, (d.after c'.state.values).state.get? k = (d.state.get? k).or (c.state.get? k) := by
    intro c d c' hd hdc hc' k
    rw [get?_after_of_agree hd, hc']
    · cases hget : d.state.get? k with
      | none => exact Option.or_none
      | some e => rfl
    · rintro k ⟨e, e', hget, hget', hne⟩
      rw [hc'] at hget'
      cases hgetc : c.state.get? k with
      | none =>
          rw [hgetc, Option.none_or, hget] at hget'
          obtain rfl := Option.some.inj hget'
          exact hne (SameStamp.refl e)
      | some e₂ =>
          rw [hgetc] at hget'
          obtain rfl := Option.some.inj hget'
          exact hdc k ⟨e, e₂, hget, hgetc, hne⟩
  obtain ⟨rfl, rfl | rfl⟩ | ⟨rfl, rfl⟩ := h.cases
  · exact ⟨get?_after_of_agree ha hno, get?_after_of_agree hb hno'⟩
  · exact ⟨get?_after_of_agree ha hno, hsecond hb hno' (get?_after_of_agree ha hno)⟩
  · exact ⟨hsecond ha hno (get?_after_of_agree hb hno'), get?_after_of_agree hb hno'⟩

/-- The instances have entries at the same keys, with the same stamps. -/
def Aligned (a b : AgentMemorySync V) : Prop :=
  ∀ k, (a.state.get? k = none ∧ b.state.get? k = none) ∨
    ∃ e e', a.state.get? k = some e ∧ b.state.get? k = some e' ∧ SameStamp e e'

theorem Exchanged.aligned {now : Clock} (h : Exchanged now a b a' b')
    (ha : a.strategy = .keepBoth) (hb : b.strategy = .keepBoth) (hno : ∀ k, ¬ InConflict a b k) : Aligned a' b' := by
  obtain ⟨hjoin, hjoin'⟩ := h.joined ha hb hno
  intro k
  rw [hjoin, hjoin']
  cases hget : a.state.get? k with
  | none =>
      cases hget' : b.state.get? k with
      | none => exact Or.inl ⟨rfl, rfl⟩
      | some e' => exact Or.inr ⟨e', e', rfl, rfl, SameStamp.refl e'⟩
  | some e =>
      cases hget' : b.state.get? k with
      | none => exact Or.inr ⟨e, e, rfl, rfl, SameStamp.refl e⟩
      | some e' => exact Or.inr ⟨e, e', rfl, rfl, by_contra fun hne => hno k ⟨e, e', hget, hget', hne⟩⟩

theorem after_of_aligned (ha : a.strategy = .keepBoth) (h : Aligned a b) :
    a.after b.state.values = a := by
  have hall : ∀ e ∈ b.state.values, ∃ e', a.state.get? e.key = some e' ∧ SameStamp e' e := by
    intro e he
    have hget := mem_values_iff.mp he
    obtain ⟨-, hnone⟩ | ⟨e₁, e₂, hget₁, hget₂, hsame⟩ := h e.key
    · rw [hget] at hnone
      cases hnone
    · rw [hget] at hget₂
      obtain rfl := Option.some.inj hget₂
      exact ⟨e₁, hget₁, hsame⟩
  clear h
  generalize b.state.values = entries at hall
  induction entries with
  | nil => rfl
  | cons e l ih =>
      obtain ⟨e', hget, hsame⟩ := hall e List.mem_cons_self
      have htake : a.take e = a := by
        obtain ⟨hnone, -⟩ | ⟨-, -, -, htake⟩ | ⟨⟨e₂, hget₂, hne⟩, -⟩ := take_keepBoth ha e
        · rw [hnone] at hget
          cases hget
        · exact htake
        · rw [hget] at hget₂
          obtain rfl := Option.some.inj hget₂
          exact absurd hsame hne
      have hstep : a.after (e :: l) = (a.take e).after l := rfl
      rw [hstep, htake]
      exact ih fun e₁ he₁ => hall e₁ (List.mem_cons_of_mem _ he₁)

theorem Aligned.symm (h : Aligned a b) : Aligned b a := by
  intro k
  obtain ⟨hnone, hnone'⟩ | ⟨e, e', hget, hget', hsame⟩ := h k
  · exact Or.inl ⟨hnone', hnone⟩
  · exact Or.inr ⟨e', e, hget', hget, hsame.symm⟩

theorem Exchanged.eq_of_aligned {now : Clock} (h : Exchanged now a b a' b')
    (ha : a.strategy = .keepBoth) (hb : b.strategy = .keepBoth) (haligned : Aligned a b) : a' = a ∧ b' = b := by
  have hfirst := after_of_aligned ha haligned
  have hsecond := after_of_aligned hb haligned.symm
  obtain ⟨rfl, rfl | rfl⟩ | ⟨rfl, rfl⟩ := h.cases
  · exact ⟨hfirst, hsecond⟩
  · rw [hfirst]
    exact ⟨rfl, hsecond⟩
  · rw [hsecond]
    exact ⟨hfirst, rfl⟩

/-! #### With a conflict -/

/-- The key after `n` suffixes. -/
def chain (k : JsString) (n : ℕ) : JsString := MemoryEntry.suffixedKey^[n] k

theorem chain_succ (k : JsString) (n : ℕ) : chain k (n + 1) = MemoryEntry.suffixedKey (chain k n) :=
  Function.iterate_succ_apply' _ _ _

theorem suffixedKey_injective : Function.Injective MemoryEntry.suffixedKey := fun _ _ h => List.append_left_injective _ h

theorem length_suffixedKey (k : JsString) : k.length < (MemoryEntry.suffixedKey k).length := by
  have hsuffix : 0 < (js "__conflict_1").length := by decide
  rw [MemoryEntry.suffixedKey, List.length_append]
  omega

theorem length_chain (k : JsString) (n : ℕ) : k.length + n ≤ (chain k n).length := by
  induction n with
  | zero => exact le_rfl
  | succ n ih =>
      have hlt := length_suffixedKey (chain k n)
      rw [chain_succ]
      omega

/-- The key gets suffixes to become `k`. -/
def Ancestor (k p : JsString) : Prop := ∃ n, chain p (n + 1) = k

variable {p : JsString}

theorem Ancestor.of_suffixed (h : Ancestor k (MemoryEntry.suffixedKey p)) : Ancestor k p := by
  obtain ⟨n, rfl⟩ := h
  exact ⟨n + 1, rfl⟩

theorem ancestor_suffixedKey (p : JsString) : Ancestor (MemoryEntry.suffixedKey p) p := ⟨0, rfl⟩

theorem Ancestor.length_lt (h : Ancestor k p) : p.length < k.length := by
  obtain ⟨n, rfl⟩ := h
  have hle := length_chain p (n + 1)
  omega

def turn (e e' : MemoryEntry V) (n : ℕ) : MemoryEntry V := if n % 2 = 0 then e else e'

theorem turn_succ (e e' : MemoryEntry V) (n : ℕ) : turn e e' (n + 1) = turn e' e n := by
  unfold turn
  rcases Nat.mod_two_eq_zero_or_one n with h | h
  · rw [if_neg (by omega), if_pos h]
  · rw [if_pos (by omega), if_neg (by omega)]

/-- Up to `n` suffixes the instance has the one entry of the conflict and the other one in turn. -/
def Turns (k : JsString) (e e' : MemoryEntry V) (n : ℕ) (a : AgentMemorySync V) : Prop :=
  ∀ i ≤ n, ∃ x, a.state.get? (chain k i) = some x ∧ SameStamp x (turn e e' i)

/-- No key that becomes `k` is in conflict. -/
def Rooted (k : JsString) (a b : AgentMemorySync V) : Prop := ∀ p, Ancestor k p → ¬ InConflict a b p

/-- While `a` takes entries of `b`: at the ancestors of `k` it has entries of one of them. -/
def FromBoth (k : JsString) (a b s : AgentMemorySync V) : Prop :=
  ∀ p, Ancestor k p → ∀ x, s.state.get? p = some x → a.state.get? p = some x ∨ b.state.get? p = some x

theorem Rooted.not_conflicts (h : Rooted k a b) (hs : FromBoth k a b s)
    (hp : Ancestor k p) (hkey : e.key = p) (he : b.state.get? p = some e) : ¬ s.Conflicts e := by
  rintro ⟨x, hget, hne⟩
  rw [hkey] at hget
  obtain hx | hx := hs p hp x hget
  · exact h p hp ⟨x, e, hx, he, hne⟩
  · rw [he] at hx
    obtain rfl := Option.some.inj hx
    exact hne (SameStamp.refl e)

variable {m n : ℕ}

/-- **One entry** of the other side keeps the turns: what it overwrites on the way, it overwrites by the same. -/
theorem turns_take (hs : s.strategy = .keepBoth) (hroot : Rooted k a b) (hb : Turns k e' e n b) (hm : m ≤ n + 1)
    (hturns : Turns k e e' m s) (hfrom : FromBoth k a b s) {r : MemoryEntry V} (hr : b.state.get? r.key = some r) :
    Turns k e e' m (s.take r) ∧ FromBoth k a b (s.take r) := by
  obtain ⟨hnone, htake⟩ | ⟨-, -, -, htake⟩ | ⟨hconflict, htake⟩ := take_keepBoth hs r
  · rw [htake]
    refine ⟨fun i hi => ?_, fun p hp x hx => ?_⟩
    · obtain ⟨x, hx, hsame⟩ := hturns i hi
      refine ⟨x, ?_, hsame⟩
      rw [get?_put, if_neg, hx]
      intro hkey
      rw [hkey, hnone] at hx
      cases hx
    · rw [get?_put] at hx
      split_ifs at hx with hkey
      · rw [hkey, hr]
        exact Or.inr hx
      · exact hfrom p hp x hx
  · rw [htake]
    exact ⟨hturns, hfrom⟩
  · rw [htake]
    have hfree : ∀ p, Ancestor k p → p ≠ r.key := by
      rintro p hp rfl
      exact hroot.not_conflicts hfrom hp rfl hr hconflict
    refine ⟨fun i hi => ?_, fun p hp x hx => ?_⟩
    · rw [get?_put]
      split_ifs with hkey
      · cases i with
        | zero =>
            -- the entry of an ancestor is not in conflict
            have hk : k = MemoryEntry.suffixedKey r.key := hkey
            exact absurd rfl (hfree r.key (hk ▸ ancestor_suffixedKey r.key))
        | succ i =>
            rw [chain_succ] at hkey
            have hkey := suffixedKey_injective hkey
            obtain ⟨y, hy, hsame⟩ := hb i (by omega)
            rw [hkey, hr] at hy
            obtain rfl := Option.some.inj hy
            refine ⟨_, rfl, ?_⟩
            rw [turn_succ]
            exact hsame
      · exact hturns i hi
    · rw [get?_put] at hx
      split_ifs at hx with hkey
      · have hkey : p = MemoryEntry.suffixedKey r.key := hkey
        rw [hkey] at hp
        exact absurd rfl (hfree r.key hp.of_suffixed)
      · exact hfrom p hp x hx

theorem turns_after (hs : s.strategy = .keepBoth) (hroot : Rooted k a b) (hb : Turns k e' e n b) (hm : m ≤ n + 1)
    (hturns : Turns k e e' m s) (hfrom : FromBoth k a b s) {l : List (MemoryEntry V)}
    (hl : ∀ r ∈ l, b.state.get? r.key = some r) : Turns k e e' m (s.after l) ∧ FromBoth k a b (s.after l) := by
  induction l generalizing s with
  | nil => exact ⟨hturns, hfrom⟩
  | cons r l ih =>
      obtain ⟨hturns', hfrom'⟩ := turns_take hs hroot hb hm hturns hfrom (hl r List.mem_cons_self)
      exact ih (strategy_take hs r) hturns' hfrom' fun r' hr' => hl r' (List.mem_cons_of_mem _ hr')

/-- **A merge** makes the turns longer by one: the entry at the last suffix is in conflict, and is kept beside. -/
theorem turns_merge (ha : a.strategy = .keepBoth)
    (hne : ¬ SameStamp e e') (hroot : Rooted k a b) (hturns : Turns k e e' n a) (hb : Turns k e' e n b) :
    Turns k e e' (n + 1) (a.after b.state.values) ∧ FromBoth k a b (a.after b.state.values) := by
  obtain ⟨r, hr, hlast⟩ := hb n le_rfl
  have hkey := b.keyed _ _ hr
  obtain ⟨l, l', hsplit⟩ := List.append_of_mem (mem_values_iff.mpr (by rw [hkey, hr]))
  have hall : ∀ r' ∈ b.state.values, b.state.get? r'.key = some r' := fun r' hr' => mem_values_iff.mp hr'
  rw [hsplit] at hall ⊢
  have hstart : FromBoth k a b a := fun p _ x hx => Or.inl hx
  obtain ⟨hturns₁, hfrom₁⟩ := turns_after ha hroot hb (Nat.le_succ n) hturns hstart
    fun r' hr' => hall r' (List.mem_append_left _ hr')
  have hs₁ := strategy_after ha l
  have hrkey : b.state.get? r.key = some r := by rw [hkey, hr]
  obtain ⟨hturns₂, hfrom₂⟩ := turns_take hs₁ hroot hb (Nat.le_succ n) hturns₁ hfrom₁ hrkey
  have hlonger : Turns k e e' (n + 1) ((a.after l).take r) := by
    intro i hi
    obtain hi | rfl := Nat.lt_or_eq_of_le hi
    · exact hturns₂ i (Nat.le_of_lt_succ hi)
    · obtain ⟨x, hx, hsame⟩ := hturns₁ n le_rfl
      rw [← hkey] at hx
      have hdiffer : ¬ SameStamp x r := by
        intro hsame'
        have h := (hsame.symm.trans hsame').trans hlast
        unfold turn at h
        split_ifs at h with hpar
        · exact hne h
        · exact hne h.symm
      obtain ⟨hnone, -⟩ | ⟨y, hy, hyr, -⟩ | ⟨-, htake⟩ := take_keepBoth hs₁ r
      · rw [hnone] at hx
        cases hx
      · rw [hy] at hx
        obtain rfl := Option.some.inj hx
        exact absurd hyr hdiffer
      · rw [htake]
        refine ⟨r.suffixed, ?_, ?_⟩
        · rw [get?_put, chain_succ, ← hkey]
          exact if_pos rfl
        · rw [turn_succ]
          exact hlast
  have hrest : a.after (l ++ r :: l') = ((a.after l).take r).after l' := after_append a l (r :: l')
  rw [hrest]
  exact turns_after (strategy_take hs₁ r) hroot hb le_rfl hlonger hfrom₂
    fun r' hr' => hall r' (List.mem_append_right _ (List.mem_cons_of_mem _ hr'))

theorem Turns.mono (h : Turns k e e' n a) (hm : m ≤ n) : Turns k e e' m a := fun i hi => h i (hi.trans hm)

theorem Rooted.symm (h : Rooted k a b) : Rooted k b a :=
  fun p hp hc => h p hp hc.symm

theorem Rooted.of_fromBoth {c d : AgentMemorySync V} (h : Rooted k a b) (hc : FromBoth k a b c)
    (hd : FromBoth k a b d) : Rooted k c d := by
  rintro p hp ⟨x, y, hx, hy, hne⟩
  obtain hx | hx := hc p hp x hx
  · obtain hy | hy := hd p hp y hy
    · rw [hx] at hy
      obtain rfl := Option.some.inj hy
      exact hne (SameStamp.refl x)
    · exact h p hp ⟨x, y, hx, hy, hne⟩
  · obtain hy | hy := hd p hp y hy
    · exact h p hp ⟨y, x, hy, hx, fun hs => hne hs.symm⟩
    · rw [hx] at hy
      obtain rfl := Option.some.inj hy
      exact hne (SameStamp.refl x)

/-- The two sides have the entries of the conflict in opposite turns. -/
structure Alternating (k : JsString) (e e' : MemoryEntry V) (n : ℕ) (a b : AgentMemorySync V) : Prop where
  left : Turns k e e' n a
  right : Turns k e' e n b
  rooted : Rooted k a b

/-- **An exchange** makes the turns longer on both sides. -/
theorem Alternating.exchanged {now : Clock}
    (h : Alternating k e e' n a b) (hne : ¬ SameStamp e e') (ha : a.strategy = .keepBoth) (hb : b.strategy = .keepBoth)
    (hex : Exchanged now a b a' b') : Alternating k e e' (n + 1) a' b' := by
  have hne' : ¬ SameStamp e' e := fun hs => hne hs.symm
  obtain ⟨hleft, hfrom⟩ := turns_merge ha hne h.rooted h.left h.right
  obtain ⟨hright, hfrom'⟩ := turns_merge hb hne' h.rooted.symm h.right h.left
  have hself : FromBoth k a b b := fun p _ x hx => Or.inr hx
  have hself' : FromBoth k a b a := fun p _ x hx => Or.inl hx
  have hswap : ∀ {s : AgentMemorySync V}, FromBoth k b a s → FromBoth k a b s := fun hs p hp x hx => (hs p hp x hx).symm
  obtain ⟨rfl, rfl | rfl⟩ | ⟨rfl, rfl⟩ := hex.cases
  · exact ⟨hleft, hright, h.rooted.of_fromBoth hfrom (hswap hfrom')⟩
  · have hrooted : Rooted k b (a.after b.state.values) := h.rooted.of_fromBoth hself hfrom
    obtain ⟨hright₂, hfrom₂⟩ := turns_merge hb hne' hrooted h.right (hleft.mono (Nat.le_succ n))
    refine ⟨hleft, hright₂, h.rooted.of_fromBoth hfrom fun p hp x hx => ?_⟩
    obtain hx | hx := hfrom₂ p hp x hx
    · exact Or.inr hx
    · exact hfrom p hp x hx
  · have hrooted : Rooted k a (b.after a.state.values) := h.rooted.of_fromBoth hself' (hswap hfrom')
    obtain ⟨hleft₂, hfrom₂⟩ := turns_merge ha hne hrooted h.left (hright.mono (Nat.le_succ n))
    refine ⟨hleft₂, hright, h.rooted.of_fromBoth (fun p hp x hx => ?_) (hswap hfrom')⟩
    obtain hx | hx := hfrom₂ p hp x hx
    · exact Or.inl hx
    · exact hswap hfrom' p hp x hx

theorem exists_rooted (h : ∃ k, InConflict a b k) :
    ∃ k, InConflict a b k ∧ Rooted k a b := by
  obtain ⟨k, hk⟩ := h
  induction hn : k.length using Nat.strongRecOn generalizing k with
  | ind n ih =>
      by_cases hroot : Rooted k a b
      · exact ⟨k, hk, hroot⟩
      · unfold Rooted at hroot
        push Not at hroot
        obtain ⟨p, hp, hconflict⟩ := hroot
        exact ih p.length (hn ▸ hp.length_lt) p hconflict rfl

/-! #### Repeating the exchange -/

/-- Two instances that exchange their states again and again, at any times. -/
structure Exchanging (now : ℕ → Clock) (f : ℕ → AgentMemorySync V × AgentMemorySync V) : Prop where
  left : (f 0).1.strategy = .keepBoth
  right : (f 0).2.strategy = .keepBoth
  step : ∀ n, Exchanged (now n) (f n).1 (f n).2 (f (n + 1)).1 (f (n + 1)).2

def Stops (f : ℕ → AgentMemorySync V × AgentMemorySync V) : Prop := ∃ N, ∀ n, N ≤ n → f n = f N

def KeysStop (f : ℕ → AgentMemorySync V × AgentMemorySync V) : Prop :=
  ∃ N, ∀ n, N ≤ n → (∀ k ∈ (f n).1.state.keys, k ∈ (f N).1.state.keys) ∧ ∀ k ∈ (f n).2.state.keys, k ∈ (f N).2.state.keys

theorem Exchanged.strategies {now : Clock} (h : Exchanged now a b a' b')
    (ha : a.strategy = .keepBoth) (hb : b.strategy = .keepBoth) :
    a'.strategy = .keepBoth ∧ b'.strategy = .keepBoth := by
  obtain ⟨rfl, rfl | rfl⟩ | ⟨rfl, rfl⟩ := h.cases
  · exact ⟨strategy_after ha _, strategy_after hb _⟩
  · exact ⟨strategy_after ha _, strategy_after hb _⟩
  · exact ⟨strategy_after ha _, strategy_after hb _⟩

section exchanging
variable {now : ℕ → Clock} {f : ℕ → AgentMemorySync V × AgentMemorySync V}

theorem Exchanging.strategies (h : Exchanging now f) (n : ℕ) :
    (f n).1.strategy = .keepBoth ∧ (f n).2.strategy = .keepBoth := by
  induction n with
  | zero => exact ⟨h.left, h.right⟩
  | succ n ih => exact (h.step n).strategies ih.1 ih.2

/-- A conflict leaves a key with `n` suffixes after `n` exchanges. -/
theorem Exchanging.alternating (h : Exchanging now f) {k : JsString} {e e' : MemoryEntry V}
    (hne : ¬ SameStamp e e') (h₀ : Alternating k e e' 0 (f 0).1 (f 0).2) (n : ℕ) :
    Alternating k e e' n (f n).1 (f n).2 := by
  induction n with
  | zero => exact h₀
  | succ n ih =>
      obtain ⟨ha, hb⟩ := h.strategies n
      exact ih.exchanged hne ha hb (h.step n)

theorem Exchanging.not_keysStop (h : Exchanging now f) (hconflict : ∃ k, InConflict (f 0).1 (f 0).2 k) :
    ¬ KeysStop f := by
  obtain ⟨k, ⟨e, e', hget, hget', hne⟩, hroot⟩ := exists_rooted hconflict
  have h₀ : Alternating k e e' 0 (f 0).1 (f 0).2 := by
    refine ⟨fun i hi => ⟨e, ?_, ?_⟩, fun i hi => ⟨e', ?_, ?_⟩, hroot⟩
    · rw [Nat.le_zero.mp hi]
      exact hget
    · rw [Nat.le_zero.mp hi]
      exact SameStamp.refl e
    · rw [Nat.le_zero.mp hi]
      exact hget'
    · rw [Nat.le_zero.mp hi]
      exact SameStamp.refl e'
  rintro ⟨N, hN⟩
  -- a key that is longer than all keys at the time `N`
  have hbound : ∀ x ∈ (f N).1.state.keys, x.length ≤ ((f N).1.state.keys.map List.length).sum := fun x hx =>
    List.le_sum_of_mem (List.mem_map_of_mem hx)
  generalize ((f N).1.state.keys.map List.length).sum = bound at hbound
  obtain ⟨x, hx, -⟩ := (h.alternating hne h₀ (N + bound + 1)).left (N + bound + 1) le_rfl
  have hmem : chain k (N + bound + 1) ∈ (f (N + bound + 1)).1.state.keys :=
    List.mem_map_of_mem (f := Prod.fst) (JsMap.mem_entries_iff.mpr hx)
  have hle := hbound _ ((hN (N + bound + 1) (by omega)).1 _ hmem)
  have hlength := length_chain k (N + bound + 1)
  omega

theorem Exchanging.stops (h : Exchanging now f) (hno : ∀ k, ¬ InConflict (f 0).1 (f 0).2 k) : Stops f := by
  refine ⟨1, fun n hn => ?_⟩
  have haligned : Aligned (f 1).1 (f 1).2 := (h.step 0).aligned h.left h.right hno
  induction n, hn using Nat.le_induction with
  | base => rfl
  | succ n hn ih =>
      obtain ⟨ha, hb⟩ := h.strategies n
      have heq := (h.step n).eq_of_aligned ha hb (by rw [ih]; exact haligned)
      rw [← ih]
      exact Prod.ext heq.1 heq.2

theorem Stops.keysStop (h : Stops f) : KeysStop f := by
  obtain ⟨N, hN⟩ := h
  refine ⟨N, fun n hn => ?_⟩
  rw [hN n hn]
  exact ⟨fun k hk => hk, fun k hk => hk⟩

/-- **A repeated exchange** comes to an end, in its states or only in its keys, if and only if it starts without a
conflict. -/
theorem Exchanging.stops_iff (h : Exchanging now f) :
    (Stops f ↔ ∀ k, ¬ InConflict (f 0).1 (f 0).2 k) ∧ (KeysStop f ↔ ∀ k, ¬ InConflict (f 0).1 (f 0).2 k) := by
  have hconflict : ∀ {P : Prop}, (P → KeysStop f) → P → ∀ k, ¬ InConflict (f 0).1 (f 0).2 k := by
    intro P hP hp k hk
    exact h.not_keysStop ⟨k, hk⟩ (hP hp)
  exact ⟨⟨hconflict Stops.keysStop, h.stops⟩, ⟨hconflict id, fun hno => (h.stops hno).keysStop⟩⟩

end exchanging

/-- **Keeping both**: a sequence of merges loses no value if and only if every entry spares what it overwrites, and a
repeated exchange comes to an end if and only if it starts without a conflict. -/
theorem keep_both_iff (now : ℕ → Clock) (s : AgentMemorySync V) (hs : s.strategy = .keepBoth)
    (states : List (Clock × List (EntryRecord V))) (f : ℕ → AgentMemorySync V × AgentMemorySync V)
    (hf : Exchanging now f) :
    (mergeSequence s states = s.after (processed states) ∧
      (s.Lossless (processed states) ↔ s.AllSpare (processed states))) ∧
    (Stops f ↔ ∀ k, ¬ InConflict (f 0).1 (f 0).2 k) ∧ (KeysStop f ↔ ∀ k, ¬ InConflict (f 0).1 (f 0).2 k) :=
  ⟨⟨mergeSequence_eq s states, lossless_iff hs _⟩, hf.stops_iff⟩

/-! #### Two devices -/

/-- Two instances that merge each other's states at once, again and again. -/
def rounds (a b : AgentMemorySync V) : ℕ → AgentMemorySync V × AgentMemorySync V
  | 0 => (a, b)
  | n + 1 => ((mergeFrom (rounds a b n).1 (rounds a b n).2).sync, (mergeFrom (rounds a b n).2 (rounds a b n).1).sync)

theorem exchanging_rounds (now : ℕ → Clock) (ha : a.strategy = .keepBoth)
    (hb : b.strategy = .keepBoth) : Exchanging now (rounds a b) :=
  ⟨ha, hb, fun _ => ⟨_, _, rfl, rfl, Or.inl ⟨merge_serializeState _ _ _, merge_serializeState _ _ _⟩⟩⟩

/-- An instance that keeps both sides, after it stored a value at a time. -/
def keeper (value time : ℕ) : AgentMemorySync ℕ :=
  (applyLocalOp noon (fresh (js "bot") true .keepBoth)
    ⟨.store, js "city", some value, none, some (.ofNat time)⟩).getD (fresh (js "bot") true .keepBoth)

/-- The states of two other devices come in. -/
def cityStates : List (Clock × List (EntryRecord ℕ)) :=
  [(noon, (keeper 2 2).serializeState), (noon, (keeper 3 3).serializeState)]

theorem keep_both_keepers :
    (mergeSequence (keeper 1 1) cityStates = (keeper 1 1).after (processed cityStates) ∧
      ((keeper 1 1).Lossless (processed cityStates) ↔ (keeper 1 1).AllSpare (processed cityStates))) ∧
    (Stops (rounds (keeper 1 1) (keeper 2 2)) ↔ ∀ k, ¬ InConflict (keeper 1 1) (keeper 2 2) k) ∧
      (KeysStop (rounds (keeper 1 1) (keeper 2 2)) ↔ ∀ k, ¬ InConflict (keeper 1 1) (keeper 2 2) k) :=
  keep_both_iff (fun _ => noon) (keeper 1 1) (by decide +kernel) cityStates (rounds (keeper 1 1) (keeper 2 2))
    (exchanging_rounds _ (by decide +kernel) (by decide +kernel))

def liveValues (s : AgentMemorySync V) : List (Option V) :=
  (s.state.values.filter fun e => e.tombstone = false).map MemoryEntry.value

theorem live_iff {v : Option V} : s.Live v ↔ v ∈ s.liveValues := by
  rw [liveValues, List.mem_map]
  constructor
  · rintro ⟨k, e, hget, htomb, hvalue⟩
    refine ⟨e, List.mem_filter.mpr ⟨mem_values_iff.mpr ?_, decide_eq_true htomb⟩, hvalue⟩
    rw [s.keyed k e hget, hget]
  · rintro ⟨e, he, hvalue⟩
    obtain ⟨he, htomb⟩ := List.mem_filter.mp he
    exact ⟨e.key, e, mem_values_iff.mp he, of_decide_eq_true htomb, hvalue⟩

/-- Three devices: the value of the second one is lost when the third one is merged.  Two devices: the keys never stop
growing. -/
theorem keep_both_loses :
    ((mergeSequence (keeper 1 1) [(noon, (keeper 2 2).serializeState)]).Live (some 2) ∧
      ¬ (mergeSequence (keeper 1 1) cityStates).Live (some 2)) ∧
    ¬ KeysStop (rounds (keeper 1 1) (keeper 2 2)) := by
  have hstrategies : (keeper 1 1).strategy = .keepBoth ∧ (keeper 2 2).strategy = .keepBoth := by decide +kernel
  have hentries : ((keeper 1 1).state.get? (js "city")).map MemoryEntry.timestamp = some (.ofNat 1) ∧
      ((keeper 2 2).state.get? (js "city")).map MemoryEntry.timestamp = some (.ofNat 2) := by decide +kernel
  simp only [live_iff]
  refine ⟨by decide +kernel, Exchanging.not_keysStop (exchanging_rounds (fun _ => noon) hstrategies.1 hstrategies.2) ?_⟩
  obtain ⟨e, hget, htime⟩ := Option.map_eq_some_iff.mp hentries.1
  obtain ⟨e', hget', htime'⟩ := Option.map_eq_some_iff.mp hentries.2
  refine ⟨js "city", e, e', hget, hget', fun hsame => ?_⟩
  have htimes : JsNumber.ofNat 1 = JsNumber.ofNat 2 := by rw [← htime, ← htime', hsame.1]
  revert htimes
  decide +kernel

end AgentMemorySync
end BrowserMesh.Sync
