import BrowserMesh.Core.GroupKeyMembership

/-! # The current epoch

`currentEpoch` is written by `initGroup`, by `rotate` and by `acceptEpoch`.  Only `acceptEpoch` compares the
new epoch with the current one: `epochs_ordered_iff` says which calls keep the current epoch the largest
held one. -/

namespace BrowserMesh.Core

open Js Transition

variable {K P : Type}

/-! ### Pruning -/

theorem zero_lt_zero : JsNumber.lt 0 0 = false := by decide

theorem zero_le_zero : JsNumber.le 0 0 = true := by decide

theorem EpochMap.get?_eq_none_iff {m : EpochMap K} {e : JsNumber} : m.get? e = none ↔ e ∉ m.map.keys :=
  JsMap.get?_eq_none_iff

theorem EpochMap.mem_keys_set {m : EpochMap K} {g : GroupState K} {e : JsNumber} :
    e ∈ (m.set g).map.keys ↔ e = g.epoch ∨ e ∈ m.map.keys := by
  rw [EpochMap.set, JsMap.keys_set]
  split_ifs with h
  · constructor
    · exact Or.inr
    · rintro (rfl | he)
      · exact h
      · exact he
  · rw [List.mem_append, List.mem_singleton, or_comm]

namespace GroupKeyManager

/-- The current epoch is held, and every held epoch is at most the current one. -/
structure CurrentLargest (m : GroupKeyManager K P) : Prop where
  held : m.currentEpoch ∈ m.epochs.map.keys
  largest : ∀ e ∈ m.epochs.map.keys, e.le m.currentEpoch = true

theorem keys_pruneOldEpochs (m : GroupKeyManager K P) :
    m.pruneOldEpochs.epochs.map.keys.Perm
      ((m.epochs.map.keys.insertionSort (· ≤ ·)).drop (m.epochs.map.size - m.maxEpochHistory)) := by
  have hsorted := List.perm_insertionSort (· ≤ ·) m.epochs.map.keys
  have hnodup := hsorted.nodup_iff.mpr m.epochs.map.nodup
  refine (List.perm_ext_iff_of_nodup m.pruneOldEpochs.epochs.map.nodup
    (hnodup.sublist (List.drop_sublist _ _))).mpr fun e => ?_
  have hold : e ∈ m.oldEpochs ↔
      e ∈ (m.epochs.map.keys.insertionSort (· ≤ ·)).take (m.epochs.map.size - m.maxEpochHistory) := by
    unfold oldEpochs
    split
    · rename_i hle
      rw [Nat.sub_eq_zero_of_le hle, List.take_zero]
    · exact Iff.rfl
  have hkept : e ∈ m.pruneOldEpochs.epochs.map.keys ↔ e ∉ m.oldEpochs ∧ e ∈ m.epochs.map.keys := by
    rw [← EpochMap.has_iff, EpochMap.has, JsMap.has, ← EpochMap.get?, get?_pruneOldEpochs]
    split
    · rename_i h
      exact iff_of_false Bool.false_ne_true fun hn => hn.1 h
    · rename_i h
      rw [and_iff_right h]
      exact EpochMap.has_iff
  have hsplit := List.take_append_drop (m.epochs.map.size - m.maxEpochHistory)
    (m.epochs.map.keys.insertionSort (· ≤ ·))
  refine hkept.trans ?_
  rw [hold, ← hsorted.mem_iff]
  rw [← hsplit] at hnodup
  constructor
  · rintro ⟨hnot, hmem⟩
    rw [← hsplit] at hmem
    exact (List.mem_append.mp hmem).resolve_left hnot
  · intro hdrop
    exact ⟨fun htake => (List.nodup_append.mp hnodup).2.2 e htake e hdrop rfl, List.mem_of_mem_drop hdrop⟩

theorem size_pruneOldEpochs_le (m : GroupKeyManager K P) :
    m.pruneOldEpochs.epochs.map.size ≤ m.maxEpochHistory := by
  have hlen := m.keys_pruneOldEpochs.length_eq
  rw [List.length_drop, List.length_insertionSort, JsMap.keys, JsMap.keys, List.length_map,
    List.length_map] at hlen
  change m.pruneOldEpochs.epochs.map.size = m.epochs.map.size - (m.epochs.map.size - m.maxEpochHistory)
    at hlen
  omega

variable {m : GroupKeyManager K P}

theorem mem_keys_of_prune {e : JsNumber} (h : e ∈ m.pruneOldEpochs.epochs.map.keys) : e ∈ m.epochs.map.keys :=
  (List.mem_insertionSort _).mp (List.mem_of_mem_drop (m.keys_pruneOldEpochs.mem_iff.mp h))

theorem mem_keys_prune (hmax : 1 ≤ m.maxEpochHistory) {e : JsNumber}
    (he : e ∈ m.epochs.map.keys) (hle : ∀ x ∈ m.epochs.map.keys, x ≤ e) :
    e ∈ m.pruneOldEpochs.epochs.map.keys := by
  have hpair := List.pairwise_insertionSort (· ≤ ·) m.epochs.map.keys
  have hmem : e ∈ m.epochs.map.keys.insertionSort (· ≤ ·) := (List.mem_insertionSort _).mpr he
  have hlen : (m.epochs.map.keys.insertionSort (· ≤ ·)).length = m.epochs.map.size := by
    rw [List.length_insertionSort, JsMap.keys, List.length_map]
    rfl
  have hpos := List.length_pos_of_mem he
  rw [JsMap.keys, List.length_map] at hpos
  change 0 < m.epochs.map.size at hpos
  rw [m.keys_pruneOldEpochs.mem_iff]
  by_contra hnot
  have hsplit := List.take_append_drop (m.epochs.map.size - m.maxEpochHistory)
    (m.epochs.map.keys.insertionSort (· ≤ ·))
  rw [← hsplit] at hmem hpair
  -- the last of the sorted epochs is above the dropped `e`, so it is `e`
  obtain ⟨x, hx⟩ : ∃ x, x ∈ (m.epochs.map.keys.insertionSort (· ≤ ·)).drop
      (m.epochs.map.size - m.maxEpochHistory) := by
    refine List.exists_mem_of_length_pos ?_
    rw [List.length_drop, hlen]
    omega
  have htake := (List.mem_append.mp hmem).resolve_right hnot
  have hex : e ≤ x := (List.pairwise_append.mp hpair).2.2 e htake x hx
  have hxe : x ≤ e := hle x ((List.mem_insertionSort _).mp (List.mem_of_mem_drop hx))
  exact hnot (le_antisymm hxe hex ▸ hx)

theorem maxEpochHistory_pruneOldEpochs (m : GroupKeyManager K P) :
    m.pruneOldEpochs.maxEpochHistory = m.maxEpochHistory := by
  unfold pruneOldEpochs
  split <;> rfl

/-- What a manager is meant to satisfy after the first `initGroup`. -/
structure Ordered (m : GroupKeyManager K P) : Prop where
  current : m.CurrentLargest
  active : m.getCurrentState ≠ none
  bounded : m.epochs.map.size ≤ m.maxEpochHistory

theorem CurrentLargest.active (h : m.CurrentLargest) : m.getCurrentState ≠ none :=
  fun hnone => EpochMap.get?_eq_none_iff.mp hnone h.held

/-- The invariant: the manager is ordered, and keeps an epoch at least. -/
structure Sound (m : GroupKeyManager K P) : Prop extends Ordered m where
  positive : 1 ≤ m.maxEpochHistory

theorem Sound.of_same {m' : GroupKeyManager K P} (h : m.Sound) (he : m'.epochs = m.epochs)
    (hc : m'.currentEpoch = m.currentEpoch) (hmax : m'.maxEpochHistory = m.maxEpochHistory) : m'.Sound where
  current := ⟨by rw [hc, he]; exact h.current.held, by rw [hc, he]; exact h.current.largest⟩
  active := by rw [getCurrentState, hc, he]; exact h.active
  bounded := by rw [he, hmax]; exact h.bounded
  positive := by rw [hmax]; exact h.positive

/-- A state is stored, the current epoch is set to `current`, and the old epochs are pruned. -/
def enter (m : GroupKeyManager K P) (g : GroupState K) (current : JsNumber) : GroupKeyManager K P :=
  pruneOldEpochs { m with epochs := m.epochs.set g, currentEpoch := current }

theorem install_eq_enter (m : GroupKeyManager K P) (g : GroupState K) : m.install g = m.enter g g.epoch := rfl

theorem enter_currentEpoch (m : GroupKeyManager K P) (g : GroupState K) (current : JsNumber) :
    (m.enter g current).currentEpoch = current :=
  pruneOldEpochs_currentEpoch _

theorem Sound.enter (h : m.Sound) {g : GroupState K} {current : JsNumber}
    (hheld : current = g.epoch ∨ current = m.currentEpoch) (hold : m.currentEpoch.le current = true)
    (hnew : g.epoch.le current = true) : (m.enter g current).Sound := by
  have hmem : current ∈ (m.epochs.set g).map.keys := by
    rw [EpochMap.mem_keys_set]
    rcases hheld with rfl | rfl
    · exact Or.inl rfl
    · exact Or.inr h.current.held
  have hle : ∀ e ∈ (m.epochs.set g).map.keys, e.le current = true := by
    intro e he
    rcases EpochMap.mem_keys_set.mp he with rfl | he
    · exact hnew
    · exact JsNumber.le_of_le_of_le (h.current.largest e he) hold
  have horder : ∀ e ∈ (m.epochs.set g).map.keys, e ≤ current := by
    intro e he
    have hlaw := hle e he
    rw [JsNumber.le, decide_eq_true_iff] at hlaw
    exact hlaw.2.2
  let w : GroupKeyManager K P := { m with epochs := m.epochs.set g, currentEpoch := current }
  have hcurrent : (m.enter g current).CurrentLargest :=
    { held := by
        rw [enter_currentEpoch]
        exact mem_keys_prune (m := w) h.positive hmem horder
      largest := by
        intro e he
        rw [enter_currentEpoch]
        exact hle e (mem_keys_of_prune (m := w) he) }
  have hmax : (m.enter g current).maxEpochHistory = m.maxEpochHistory := maxEpochHistory_pruneOldEpochs w
  exact
    { current := hcurrent
      active := hcurrent.active
      bounded := by rw [hmax]; exact w.size_pruneOldEpochs_le
      positive := by rw [hmax]; exact h.positive }

end GroupKeyManager

/-! ### Runs -/

/-- A local call or a distribution that comes in, or a direct call of `acceptEpoch`. -/
inductive EpochCall (K P : Type) where
  | event (e : ManagerEvent K P)
  | acceptEpoch (epoch : JsNumber) (key : K) (members : List JsString)

def epochManager (K : Type) {P : Type} [DecidableEq P] (localPodId groupId : NonEmptyString)
    (maxEpochHistory : ℕ) : Machine (GroupKeyManager K P) (EpochCall K P) where
  init := .new localPodId groupId maxEpochHistory
  step m
    | .event e => (groupKeyManager K localPodId groupId maxEpochHistory).step m e
    | .acceptEpoch epoch key members => some (m.settle (m.acceptEpoch epoch key members))

/-- The step leaves the manager ordered, at an epoch that is at least the one before. -/
def KeepsOrder [DecidableEq P] (localPodId groupId : NonEmptyString) (maxEpochHistory : ℕ)
    (m : GroupKeyManager K P) (call : EpochCall K P) : Prop :=
  ∀ m', (epochManager K localPodId groupId maxEpochHistory).step m call = some m' →
    m.currentEpoch.le m'.currentEpoch = true ∧ m'.Ordered

/-- The epoch is refused, or is at least the current one. -/
def GroupKeyManager.Advances (m : GroupKeyManager K P) (epoch : JsNumber) : Prop :=
  epoch.lt 0 = true ∨ m.currentEpoch.le epoch = true

/-- What installs an epoch as the current one installs none below it, and `NaN` is not accepted. -/
def Advancing (m : GroupKeyManager K P) : EpochCall K P → Prop
  | .event (.perform (.adopt _ epoch _)) => m.Advances epoch
  | .event (.perform (.keyGenerated i _)) =>
      ∀ call, m.generating[i]? = some call →
        match call with
        | .initGroup _ => m.Advances 0
        | .rotate nextEpoch _ => m.Advances nextEpoch
  | .event (.perform (.unwrapped i)) => ∀ u, m.unwrapping[i]? = some u → u.epoch ≠ .nan
  | .acceptEpoch epoch _ _ => epoch ≠ .nan
  | _ => True

namespace GroupKeyManager

variable {m : GroupKeyManager K P}

/-- **Installing.**  The order is kept exactly when the epoch is at least the current one. -/
theorem Sound.install_iff (h : m.Sound) (g : GroupState K) :
    (m.currentEpoch.le (m.install g).currentEpoch = true ∧ (m.install g).Ordered ↔
        m.currentEpoch.le g.epoch = true) ∧
      (m.currentEpoch.le g.epoch = true → (m.install g).Sound) := by
  have hsound : m.currentEpoch.le g.epoch = true → (m.install g).Sound := by
    intro hle
    refine h.enter (Or.inl rfl) hle ?_
    rw [JsNumber.le, decide_eq_true_iff] at hle ⊢
    exact ⟨hle.2.1, hle.2.1, le_refl _⟩
  refine ⟨⟨fun hk => ?_, fun hle => ⟨?_, (hsound hle).toOrdered⟩⟩, hsound⟩
  · rw [install_eq_enter, enter_currentEpoch] at hk
    exact hk.1
  · rw [install_eq_enter, enter_currentEpoch]
    exact hle

theorem Sound.le_refl (h : m.Sound) : m.currentEpoch.le m.currentEpoch = true :=
  h.current.largest _ h.current.held

variable {m' : GroupKeyManager K P}

theorem Sound.kept (h : m.Sound) (he : m'.epochs = m.epochs)
    (hc : m'.currentEpoch = m.currentEpoch) (hmax : m'.maxEpochHistory = m.maxEpochHistory) :
    (m.currentEpoch.le m'.currentEpoch = true ∧ m'.Ordered) ∧ m'.Sound :=
  ⟨⟨by rw [hc]; exact h.le_refl, (h.of_same he hc hmax).toOrdered⟩, h.of_same he hc hmax⟩

/-- A call that either throws or installs an epoch. -/
theorem Sound.installs_iff (h : m.Sound) (epoch : JsNumber) (key : K) (members : List JsString)
    (hm' : m' = m.settle ((GroupState.new epoch key members).map m.install)) :
    (m.currentEpoch.le m'.currentEpoch = true ∧ m'.Ordered ↔ m.Advances epoch) ∧
      (m.Advances epoch → m'.Sound) := by
  unfold Advances
  by_cases hneg : epoch.lt 0 = false
  · rw [GroupState.new, dif_pos hneg] at hm'
    subst hm'
    rw [or_iff_right (by simp [hneg])]
    exact h.install_iff ⟨epoch, key, JsSet.ofList members, hneg⟩
  · rw [GroupState.new, dif_neg hneg] at hm'
    subst hm'
    rw [Bool.not_eq_false] at hneg
    exact ⟨iff_of_true ⟨h.le_refl, h.toOrdered⟩ (Or.inl hneg), fun _ => h⟩

/-- **Accepting.**  The order is kept exactly when the epoch is a number. -/
theorem Sound.accept_iff (h : m.Sound) (epoch : JsNumber) (key : K) (members : List JsString)
    (hm' : m' = m.settle (m.acceptEpoch epoch key members)) :
    (m.currentEpoch.le m'.currentEpoch = true ∧ m'.Ordered ↔ epoch ≠ .nan) ∧ (epoch ≠ .nan → m'.Sound) := by
  have hcur : m.currentEpoch ≠ .nan := by
    have hle := h.le_refl
    rw [JsNumber.le, decide_eq_true_iff] at hle
    exact hle.1
  by_cases hhas : m.epochs.has epoch = true
  · -- a held epoch is a number
    have hnan : epoch ≠ .nan := by
      rintro rfl
      have hle := h.current.largest _ (EpochMap.has_iff.mp hhas)
      simp [JsNumber.le] at hle
    obtain rfl : m' = m := by simpa [acceptEpoch, hhas, settle] using hm'
    exact ⟨iff_of_true ⟨h.le_refl, h.toOrdered⟩ hnan, fun _ => h⟩
  by_cases hneg : epoch.lt 0 = true
  · have hnan : epoch ≠ .nan := by
      rintro rfl
      simp [JsNumber.lt] at hneg
    obtain rfl : m' = m := by simpa [acceptEpoch, hhas, GroupState.new, hneg, settle] using hm'
    exact ⟨iff_of_true ⟨h.le_refl, h.toOrdered⟩ hnan, fun _ => h⟩
  rw [Bool.not_eq_true] at hneg
  let g : GroupState K := ⟨epoch, key, JsSet.ofList members, hneg⟩
  have hresult : m' = m.enter g (if m.currentEpoch.lt epoch then epoch else m.currentEpoch) := by
    rw [hm', acceptEpoch, if_neg hhas, GroupState.new, dif_pos hneg]
    rfl
  have hsound : epoch ≠ .nan → m'.Sound := by
    intro hnan
    have hself : epoch.le epoch = true := by simp [JsNumber.le, hnan]
    rw [hresult]
    split_ifs with hlt
    · rw [JsNumber.lt_iff hcur hnan] at hlt
      exact h.enter (Or.inl rfl) (by simp [JsNumber.le, hcur, hnan, hlt.le]) hself
    · rw [JsNumber.lt_iff hcur hnan, not_lt] at hlt
      exact h.enter (Or.inr rfl) h.le_refl (by simp [g, JsNumber.le, hcur, hnan, hlt])
  refine ⟨⟨?_, fun hnan => ⟨?_, (hsound hnan).toOrdered⟩⟩, hsound⟩
  · rintro ⟨-, hordered⟩ rfl
    -- the accepted `NaN` is held from now on, above every number
    have hheld : JsNumber.nan ∈ m'.epochs.map.keys := by
      rw [hresult]
      exact mem_keys_prune (m := { m with epochs := m.epochs.set g, currentEpoch := _ }) h.positive
        (EpochMap.mem_keys_set.mpr (Or.inl rfl)) fun x _ => JsNumber.le_nan x
    have hle := hordered.current.largest _ hheld
    simp [JsNumber.le] at hle
  · rw [hresult, enter_currentEpoch]
    split_ifs with hlt
    · rw [JsNumber.lt_iff hcur hnan] at hlt
      simp [JsNumber.le, hcur, hnan, hlt.le]
    · exact h.le_refl

/-- **A second group.**  Founding a group again keeps the order exactly when the current epoch is the first. -/
theorem Sound.found_iff (h : m.Sound) (g : GroupState K) (hg : g.epoch = 0)
    (hm' : m' = { m with epochs := m.epochs.set g, currentEpoch := g.epoch }) :
    (m.currentEpoch.le m'.currentEpoch = true ∧ m'.Ordered ↔ m.Advances 0) ∧ (m.Advances 0 → m'.Sound) := by
  have hcur' : m'.currentEpoch = 0 := by rw [hm', ← hg]
  have hsound : m.currentEpoch.le 0 = true → m'.Sound := by
    intro hle
    obtain ⟨c, hc⟩ : ∃ c, m.epochs.get? m.currentEpoch = some c :=
      Option.isSome_iff_exists.mp (EpochMap.has_iff.mpr h.current.held)
    have hpos := c.nonneg
    rw [m.epochs.own _ _ hc] at hpos
    rw [JsNumber.le, decide_eq_true_iff] at hle
    obtain ⟨hnan, hz, hle⟩ := hle
    -- the current epoch is neither below nor above the first
    have hfirst : m.currentEpoch = 0 := by
      refine le_antisymm hle (not_lt.mp fun hlt => ?_)
      rw [(JsNumber.lt_iff hnan hz).mpr hlt] at hpos
      cases hpos
    have hheld : g.epoch ∈ m.epochs.map.keys := by rw [hg, ← hfirst]; exact h.current.held
    have hkeys : m'.epochs.map.keys = m.epochs.map.keys := by
      rw [hm']
      change (m.epochs.map.set g.epoch g).keys = _
      rw [JsMap.keys_set, if_pos hheld]
    have hsize : m'.epochs.map.size = m.epochs.map.size := by
      have hlen := congrArg List.length hkeys
      rwa [JsMap.keys, JsMap.keys, List.length_map, List.length_map] at hlen
    have hcurrent : m'.CurrentLargest :=
      ⟨by rw [hkeys, hcur', ← hfirst]; exact h.current.held,
        by rw [hkeys, hcur', ← hfirst]; exact h.current.largest⟩
    exact
      { current := hcurrent
        active := hcurrent.active
        bounded := by rw [hsize, hm']; exact h.bounded
        positive := by rw [hm']; exact h.positive }
  unfold Advances
  rw [hcur', zero_lt_zero, or_iff_right Bool.false_ne_true]
  exact ⟨⟨And.left, fun hle => ⟨hle, (hsound hle).toOrdered⟩⟩, hsound⟩

/-! ### Steps -/

theorem adopt_eq_map (m : GroupKeyManager K P) (newMembers : Option (List JsString)) (epoch : JsNumber) (key : K) :
    ∃ members, m.adopt newMembers epoch key = (GroupState.new epoch key members).map m.install := by
  refine ⟨newMembers.getD (m.getCurrentState.elim [m.localPodId.1] fun current => current.members.elems), ?_⟩
  unfold adopt
  cases m.getCurrentState with
  | none => cases hnew : GroupState.new epoch key (newMembers.getD [m.localPodId.1]) <;> simp [hnew, Except.map]
  | some current =>
      cases hnew : GroupState.new epoch key (newMembers.getD current.members.elems) <;> simp [hnew, Except.map]

/-- What a call that starts or ends nothing else does to the epochs: nothing. -/
structure SameEpochs (m m' : GroupKeyManager K P) : Prop where
  epochs : m'.epochs = m.epochs
  currentEpoch : m'.currentEpoch = m.currentEpoch
  maxEpochHistory : m'.maxEpochHistory = m.maxEpochHistory

theorem sameEpochs_refl (m : GroupKeyManager K P) : SameEpochs m m := ⟨rfl, rfl, rfl⟩

theorem sameEpochs_settle (m : GroupKeyManager K P) {r : Except GroupError (GroupKeyManager K P)}
    (h : ∀ m', r = .ok m' → SameEpochs m m') : SameEpochs m (m.settle r) := by
  unfold settle
  cases r with
  | error e => exact sameEpochs_refl m
  | ok m' => exact h m' rfl

theorem sameEpochs_initGroup (m : GroupKeyManager K P) (members : List JsString) :
    SameEpochs m (m.settle (m.initGroup members)) := by
  refine m.sameEpochs_settle fun m' h => ?_
  unfold initGroup at h
  split at h
  · cases h
  · cases h
    exact ⟨rfl, rfl, rfl⟩

theorem sameEpochs_rotate (m : GroupKeyManager K P) (newMembers : Option (List JsString)) :
    SameEpochs m (m.rotate newMembers) :=
  ⟨rfl, rfl, rfl⟩

theorem sameEpochs_removeMember (m : GroupKeyManager K P) (podId : JsString) :
    SameEpochs m (m.settle (m.removeMember podId)) := by
  refine m.sameEpochs_settle fun m' h => ?_
  unfold removeMember at h
  split at h
  · cases h
  · simp only at h
    split_ifs at h
    cases h
    exact m.sameEpochs_rotate _

theorem sameEpochs_addMember (m : GroupKeyManager K P) (podId : JsString) :
    SameEpochs m (m.settle (m.addMember podId)) := by
  refine m.sameEpochs_settle fun m' h => ?_
  unfold addMember at h
  split at h
  · cases h
  · split_ifs at h
    cases h
    exact m.sameEpochs_rotate _

theorem sameEpochs_broadcastDistribute (m : GroupKeyManager K P) : SameEpochs m m.broadcastDistribute.1 := by
  unfold broadcastDistribute
  cases m.getCurrentState with
  | none => exact m.sameEpochs_refl
  | some state =>
      simp only
      split
      · exact m.sameEpochs_refl
      · split
        · exact m.sameEpochs_refl
        · exact ⟨rfl, rfl, rfl⟩

theorem sameEpochs_keyWrapped {out : Option (Distribute K P)} {i : ℕ}
    (h : m.keyWrapped i = some (m', out)) : SameEpochs m m' := by
  unfold keyWrapped at h
  cases hb : m.broadcasting[i]? with
  | none =>
      rw [hb] at h
      cases h
  | some b =>
      simp only [hb] at h
      split at h
      · cases h
        exact ⟨rfl, rfl, rfl⟩
      · split at h
        · cases h
          exact ⟨rfl, rfl, rfl⟩
        · cases h
          exact ⟨rfl, rfl, rfl⟩

theorem sameEpochs_receive [DecidableEq P] (m : GroupKeyManager K P) (fromPodId : JsString)
    (payload : Distribute K P) : SameEpochs m (m.receive fromPodId payload) := by
  unfold receive
  split
  · exact m.sameEpochs_refl
  · split
    · split
      · exact m.sameEpochs_refl
      · split
        · split
          · exact m.sameEpochs_refl
          · exact ⟨rfl, rfl, rfl⟩
        · exact m.sameEpochs_refl
    · exact m.sameEpochs_refl

theorem Sound.finish_iff (h : m.Sound) (call : Generating) (key : K)
    (hm' : m' = m.settle (m.finish call key)) {epoch : JsNumber}
    (hepoch : (∃ members, call = .initGroup members ∧ epoch = 0) ∨ ∃ members, call = .rotate epoch members) :
    (m.currentEpoch.le m'.currentEpoch = true ∧ m'.Ordered ↔ m.Advances epoch) ∧
      (m.Advances epoch → m'.Sound) := by
  rcases hepoch with ⟨members, rfl, rfl⟩ | ⟨members, rfl⟩
  · refine h.found_iff ⟨0, key, JsSet.ofList members, zero_lt_zero⟩ rfl ?_
    rw [hm', finish, GroupState.new, dif_pos zero_lt_zero]
    rfl
  · refine h.installs_iff epoch key members ?_
    rw [hm', finish]
    split
    · rename_i hnew
      rw [hnew]
      rfl
    · rename_i hnew
      rw [hnew]
      rfl

/-- **One step.**  It keeps the order exactly when it is advancing. -/
theorem Sound.keepsOrder_iff [DecidableEq P] {localPodId groupId : NonEmptyString} {maxEpochHistory : ℕ}
    (h : m.Sound) {call : EpochCall K P}
    (hstep : (epochManager K localPodId groupId maxEpochHistory).step m call = some m') :
    (KeepsOrder localPodId groupId maxEpochHistory m call ↔ Advancing m call) ∧ (Advancing m call → m'.Sound) := by
  have hone : KeepsOrder localPodId groupId maxEpochHistory m call ↔
      m.currentEpoch.le m'.currentEpoch = true ∧ m'.Ordered := by
    constructor
    · exact fun hk => hk m' hstep
    · intro hk m₂ h₂
      obtain rfl := Option.some.inj (hstep.symm.trans h₂)
      exact hk
  have same : SameEpochs m m' → Advancing m call →
      (KeepsOrder localPodId groupId maxEpochHistory m call ↔ Advancing m call) ∧
        (Advancing m call → m'.Sound) := by
    intro hs ha
    obtain ⟨hlaw, hsound⟩ := h.kept hs.epochs hs.currentEpoch hs.maxEpochHistory
    exact ⟨iff_of_true (hone.mpr hlaw) ha, fun _ => hsound⟩
  cases call with
  | acceptEpoch epoch key members =>
      rw [hone]
      exact h.accept_iff epoch key members (Option.some.inj hstep).symm
  | event e =>
      cases e with
      | receive fromPodId payload =>
          obtain rfl := Option.some.inj hstep
          exact same (m.sameEpochs_receive fromPodId payload) trivial
      | perform op =>
          obtain ⟨⟨m₁, out⟩, hperform, rfl⟩ := Option.map_eq_some_iff.mp hstep
          cases op with
          | adopt newMembers epoch key =>
              obtain ⟨members, hadopt⟩ := m.adopt_eq_map newMembers epoch key
              rw [hone]
              refine h.installs_iff epoch key members ?_
              rw [← hadopt]
              exact (congrArg Prod.fst (Option.some.inj hperform)).symm
          | keyGenerated i key =>
              rw [perform] at hperform
              cases hcall : m.generating[i]? with
              | none =>
                  rw [hcall] at hperform
                  cases hperform
              | some waitingCall =>
                  rw [hcall] at hperform
                  let waiting : GroupKeyManager K P := { m with generating := m.generating.eraseIdx i }
                  have hwaiting : waiting.Sound := h.of_same rfl rfl rfl
                  have hm₁ := (congrArg Prod.fst (Option.some.inj hperform)).symm
                  rw [hone]
                  cases waitingCall with
                  | initGroup members =>
                      have hadv : Advancing m (.event (.perform (.keyGenerated i key))) ↔ m.Advances 0 :=
                        ⟨fun ha => ha _ hcall, fun ha c hc => by
                          obtain rfl := Option.some.inj (hcall.symm.trans hc)
                          exact ha⟩
                      rw [hadv]
                      exact hwaiting.finish_iff _ key hm₁ (Or.inl ⟨members, rfl, rfl⟩)
                  | rotate nextEpoch members =>
                      have hadv : Advancing m (.event (.perform (.keyGenerated i key))) ↔ m.Advances nextEpoch :=
                        ⟨fun ha => ha _ hcall, fun ha c hc => by
                          obtain rfl := Option.some.inj (hcall.symm.trans hc)
                          exact ha⟩
                      rw [hadv]
                      exact hwaiting.finish_iff _ key hm₁ (Or.inr ⟨members, rfl⟩)
          | unwrapped i =>
              rw [perform] at hperform
              cases hu : m.unwrapping[i]? with
              | none =>
                  rw [hu] at hperform
                  cases hperform
              | some u =>
                  rw [hu] at hperform
                  let waiting : GroupKeyManager K P := { m with unwrapping := m.unwrapping.eraseIdx i }
                  have hwaiting : waiting.Sound := h.of_same rfl rfl rfl
                  have hadv : Advancing m (.event (.perform (.unwrapped i))) ↔ u.epoch ≠ .nan :=
                    ⟨fun ha => ha u hu, fun ha c hc => by
                      obtain rfl := Option.some.inj (hu.symm.trans hc)
                      exact ha⟩
                  rw [hone, hadv]
                  exact hwaiting.accept_iff u.epoch u.key u.members
                    (congrArg Prod.fst (Option.some.inj hperform)).symm
          | keyWrapped i => exact same (m.sameEpochs_keyWrapped hperform) trivial
          | initEncryption keyPair =>
              obtain rfl := congrArg Prod.fst (Option.some.inj hperform)
              exact same ⟨rfl, rfl, rfl⟩ trivial
          | setMemberPublicKey podId publicKey =>
              obtain rfl := congrArg Prod.fst (Option.some.inj hperform)
              exact same ⟨rfl, rfl, rfl⟩ trivial
          | initGroup members =>
              obtain rfl := congrArg Prod.fst (Option.some.inj hperform)
              exact same (m.sameEpochs_initGroup members) trivial
          | rotate newMembers =>
              obtain rfl := congrArg Prod.fst (Option.some.inj hperform)
              exact same (m.sameEpochs_rotate newMembers) trivial
          | removeMember podId =>
              obtain rfl := congrArg Prod.fst (Option.some.inj hperform)
              exact same (m.sameEpochs_removeMember podId) trivial
          | addMember podId =>
              obtain rfl := congrArg Prod.fst (Option.some.inj hperform)
              exact same (m.sameEpochs_addMember podId) trivial
          | broadcastDistribute =>
              obtain rfl : m.broadcastDistribute.1 = m₁ := congrArg Prod.fst (Option.some.inj hperform)
              exact same m.sameEpochs_broadcastDistribute trivial

end GroupKeyManager

/-- The first `initGroup`, and its key. -/
def founding (members : List JsString) (key : K) : List (EpochCall K P) :=
  [.event (.perform (.initGroup members)), .event (.perform (.keyGenerated 0 key))]

theorem sound_founding [DecidableEq P] (localPodId groupId : NonEmptyString) {maxEpochHistory : ℕ}
    (hmax : 1 ≤ maxEpochHistory) {members : List JsString} (hmembers : members ≠ []) (key : K) :
    ∃ m : GroupKeyManager K P, (epochManager K localPodId groupId maxEpochHistory).run (fun _ _ => True)
        (epochManager K localPodId groupId maxEpochHistory).init (founding members key) = some m ∧ m.Sound := by
  let fresh : GroupKeyManager K P := .new localPodId groupId maxEpochHistory
  let allMembers := (JsSet.ofList members).add localPodId.1
  let g : GroupState K := ⟨0, key, JsSet.ofList allMembers.elems, zero_lt_zero⟩
  let m : GroupKeyManager K P := { fresh with epochs := EpochMap.empty.set g, currentEpoch := 0 }
  have hcurrent : m.CurrentLargest :=
    { held := List.mem_singleton_self _
      largest := by
        intro e he
        obtain rfl : e = 0 := List.mem_singleton.mp he
        exact zero_le_zero }
  refine ⟨m, ?_, ⟨hcurrent, hcurrent.active, hmax⟩, hmax⟩
  have hfirst : (epochManager K localPodId groupId maxEpochHistory).step fresh
      (.event (.perform (.initGroup members))) = some { fresh with generating := [.initGroup allMembers.elems] } := by
    change Option.map Prod.fst (some (fresh.settle (fresh.initGroup members), none)) = _
    rw [GroupKeyManager.initGroup, if_neg hmembers]
    rfl
  rw [founding, Machine.run, if_pos trivial]
  change Option.bind ((epochManager K localPodId groupId maxEpochHistory).step fresh _) _ = _
  rw [hfirst]
  rfl

/-- **After the first `initGroup` the current epoch never decreases, stays the largest held epoch and is held, and
at most `maxEpochHistory` epochs are held, if and only if every epoch that `rotate` or `initGroup` installs is at
least the current one and no accepted epoch is `NaN`.** -/
theorem epochs_ordered_iff [DecidableEq P] (localPodId groupId : NonEmptyString) (maxEpochHistory : ℕ)
    (hmax : 1 ≤ maxEpochHistory) (members : List JsString) (hmembers : members ≠ []) (key : K) :
    let machine := epochManager K (P := P) localPodId groupId maxEpochHistory
    ∃ m, machine.run (fun _ _ => True) machine.init (founding members key) = some m ∧ m.Ordered ∧
      ∀ calls, machine.Along (KeepsOrder localPodId groupId maxEpochHistory) m calls ↔
        machine.Along Advancing m calls := by
  intro machine
  obtain ⟨m, hrun, hsound⟩ := sound_founding (P := P) localPodId groupId hmax hmembers key
  exact ⟨m, hrun, hsound.toOrdered, fun calls =>
    Machine.along_iff_of_invariant (fun w call w' hw hstep => hw.keepsOrder_iff hstep) hsound calls⟩

theorem epochs_ordered_pair :
    let machine := epochManager ℕ (P := ℕ) podA groupG 1
    ∃ m, machine.run (fun _ _ => True) machine.init (founding [podB.1] 7) = some m ∧ m.Ordered ∧
      ∀ calls, machine.Along (KeepsOrder podA groupG 1) m calls ↔ machine.Along Advancing m calls :=
  epochs_ordered_iff podA groupG 1 (by decide) [podB.1] (by decide) 7

def adoptedEpochs : List (EpochCall ℕ ℕ) :=
  founding [podB.1] 7 ++ [.event (.perform (.adopt none (.ofNat 5) 8)), .event (.perform (.adopt none (.ofNat 3) 9))]

/-- With a history of one epoch, the current epoch falls from 5 to 3 and is pruned at once: epoch 5 is held, and there
is no current state. -/
theorem adopted_epoch_pruned :
    ∃ m, (epochManager ℕ podA groupG 1).run (fun _ _ => True) (epochManager ℕ podA groupG 1).init adoptedEpochs =
        some m ∧ m.currentEpoch = .ofNat 3 ∧ m.epochs.map.keys = [.ofNat 5] ∧ ¬ m.Ordered := by
  obtain ⟨m, hm, -, hcurrent, hkeys, hnone⟩ := Machine.exists_of_run
    (P := fun m : GroupKeyManager ℕ ℕ =>
      m.currentEpoch = .ofNat 3 ∧ m.epochs.map.keys = [.ofNat 5] ∧ m.getCurrentState = none)
    (show ((epochManager ℕ podA groupG 1).run (fun _ _ => True) (epochManager ℕ podA groupG 1).init
      adoptedEpochs).any _ = true by decide +kernel)
  exact ⟨m, hm, hcurrent, hkeys, fun h => h.active hnone⟩

end BrowserMesh.Core
