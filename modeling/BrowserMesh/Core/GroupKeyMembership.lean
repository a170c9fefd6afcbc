import BrowserMesh.Core.GroupKeyAgreement

/-! # Distributions from outsiders

The handler of `GROUP_KEY_DISTRIBUTE` asks whether the receiver is among the members of the message, and
never whether the sender is a member of the receiver's group.  What an accepted message changes is found
in `unaffected_acceptEpoch_iff`: nothing, exactly when its epoch is held, or negative, or dropped at once.
-/

namespace BrowserMesh.Core

open Js Transition

variable {K P : Type}

/-! ### Dropping epochs -/

theorem EpochMap.has_iff {m : EpochMap K} {e : JsNumber} : m.has e = true ↔ e ∈ m.map.keys :=
  JsMap.has_iff

theorem EpochMap.get?_foldl_delete (l : List JsNumber) (m : EpochMap K) (e : JsNumber) :
    (l.foldl EpochMap.delete m).get? e = if e ∈ l then none else m.get? e := by
  induction l generalizing m with
  | nil => rfl
  | cons d l ih =>
      rw [List.foldl_cons, ih, EpochMap.get?, EpochMap.delete, JsMap.get?_delete]
      by_cases hl : e ∈ l
      · simp [hl]
      · by_cases hd : e = d <;> simp [hl, hd, EpochMap.get?]

theorem EpochMap.keys_set {m : EpochMap K} {g : GroupState K} (h : g.epoch ∉ m.map.keys) :
    (m.set g).map.keys = m.map.keys ++ [g.epoch] := by
  rw [EpochMap.set, JsMap.keys_set, if_neg h]

namespace GroupKeyManager

/-- The current epoch, the current key and the held epochs are the same. -/
structure Unaffected (m m' : GroupKeyManager K P) : Prop where
  currentEpoch : m'.currentEpoch = m.currentEpoch
  currentKey : m'.getCurrentState.map GroupState.key = m.getCurrentState.map GroupState.key
  held : ∀ e, m'.epochs.has e = m.epochs.has e

/-- The epoch is older than all held ones, of which there are as many as are kept. -/
def DroppedAtOnce (m : GroupKeyManager K P) (epoch : JsNumber) : Prop :=
  m.epochs.map.size = m.maxEpochHistory ∧ ∀ e ∈ m.epochs.map.keys, epoch < e

/-- The epochs that pruning removes. -/
def oldEpochs (m : GroupKeyManager K P) : List JsNumber :=
  if m.epochs.map.size ≤ m.maxEpochHistory then []
  else
    (m.epochs.map.keys.insertionSort (· ≤ ·)).take (m.epochs.map.size - m.maxEpochHistory)

theorem oldEpochs_subset (m : GroupKeyManager K P) : m.oldEpochs ⊆ m.epochs.map.keys := by
  unfold oldEpochs
  split
  · exact List.nil_subset _
  · exact fun x hx => (List.mem_insertionSort _).mp (List.mem_of_mem_take hx)

theorem get?_pruneOldEpochs (m : GroupKeyManager K P) (e : JsNumber) :
    m.pruneOldEpochs.epochs.get? e = if e ∈ m.oldEpochs then none else m.epochs.get? e := by
  have hlen : (m.epochs.map.keys.insertionSort (· ≤ ·)).length = m.epochs.map.size := by
    rw [List.length_insertionSort, JsMap.keys, List.length_map]
    rfl
  unfold pruneOldEpochs oldEpochs
  split
  · simp
  · rw [← hlen]
    exact EpochMap.get?_foldl_delete _ _ _

theorem pruneOldEpochs_currentEpoch (m : GroupKeyManager K P) :
    m.pruneOldEpochs.currentEpoch = m.currentEpoch := by
  unfold pruneOldEpochs
  split <;> rfl

/-- The first `n` of the sorted list `l ++ [a]` are `a` alone if `n` is one and `a` is below `l`. -/
theorem take_insertionSort_iff {l : List JsNumber} {a : JsNumber} (hn : (l ++ [a]).Nodup) {n : ℕ}
    (hpos : 0 < n) (hle : n ≤ l.length + 1) :
    (∀ x, x ∈ ((l ++ [a]).insertionSort (· ≤ ·)).take n ↔ x = a) ↔ n = 1 ∧ ∀ x ∈ l, a < x := by
  obtain ⟨b, rest, hsorted⟩ : ∃ b rest, (l ++ [a]).insertionSort (· ≤ ·) = b :: rest := by
    refine List.exists_cons_of_ne_nil fun h => ?_
    simpa [h] using List.length_insertionSort (· ≤ ·) (l ++ [a])
  have hperm := List.perm_insertionSort (· ≤ ·) (l ++ [a])
  have hpair := List.pairwise_insertionSort (· ≤ ·) (l ++ [a])
  rw [hsorted] at hperm hpair ⊢
  have hbelow : ∀ x ∈ l ++ [a], b ≤ x := by
    intro x hx
    rcases List.mem_cons.mp (hperm.mem_iff.mpr hx) with rfl | hx
    · exact le_refl x
    · exact (List.pairwise_cons.mp hpair).1 x hx
  have hnot : a ∉ l := fun h => (List.nodup_append.mp hn).2.2 a h a (List.mem_singleton_self a) rfl
  constructor
  · intro h
    have hnodup : ((b :: rest).take n).Nodup := (hperm.nodup_iff.mpr hn).sublist (List.take_sublist n _)
    have hone : ((b :: rest).take n).length ≤ [a].length :=
      hnodup.length_le_of_subset fun x hx => List.mem_singleton.mpr ((h x).mp hx)
    have hlen := hperm.length_eq
    rw [List.length_append, List.length_singleton] at hlen
    rw [List.length_take, hlen, Nat.min_eq_left hle, List.length_singleton] at hone
    obtain rfl : n = 1 := by omega
    obtain rfl : b = a := (h b).mp (by simp)
    exact ⟨rfl, fun x hx => lt_of_le_of_ne (hbelow x (List.mem_append_left _ hx)) fun he => hnot (he ▸ hx)⟩
  · rintro ⟨rfl, hlt⟩ x
    have hb : b = a := by
      rcases List.mem_append.mp (hperm.mem_iff.mp List.mem_cons_self) with hb | hb
      · exact absurd (hlt b hb) (not_lt.mpr (hbelow a (by simp)))
      · exact List.mem_singleton.mp hb
    simp [hb]

/-- Setting a state of a new epoch and pruning removes just that epoch again if it is dropped at once. -/
theorem mem_oldEpochs_set_iff {m w : GroupKeyManager K P} {g : GroupState K}
    (hw : w.epochs = m.epochs.set g) (hmax : w.maxEpochHistory = m.maxEpochHistory)
    (hg : g.epoch ∉ m.epochs.map.keys) :
    (∀ x, x ∈ w.oldEpochs ↔ x = g.epoch) ↔ m.DroppedAtOnce g.epoch := by
  have hkeys : w.epochs.map.keys = m.epochs.map.keys ++ [g.epoch] := by
    rw [hw]
    exact EpochMap.keys_set hg
  have hlen : m.epochs.map.keys.length = m.epochs.map.size := List.length_map _
  have hsize : w.epochs.map.size = m.epochs.map.size + 1 := by
    rw [JsMap.size, ← List.length_map (f := Prod.fst), ← JsMap.keys, hkeys, List.length_append, hlen]
    rfl
  have hnodup : (m.epochs.map.keys ++ [g.epoch]).Nodup := hkeys ▸ w.epochs.map.nodup
  unfold oldEpochs DroppedAtOnce
  rw [hsize, hmax, hkeys]
  split
  · rename_i hle
    refine iff_of_false (fun h => ?_) fun h => ?_
    · exact absurd ((h g.epoch).mpr rfl) List.not_mem_nil
    · omega
  · rename_i hgt
    rw [take_insertionSort_iff hnodup (by omega) (by omega)]
    exact and_congr_left' (by omega)

theorem unaffected_of_get? {m m' : GroupKeyManager K P} (hc : m'.currentEpoch = m.currentEpoch)
    (h : ∀ e, m'.epochs.get? e = m.epochs.get? e) : Unaffected m m' where
  currentEpoch := hc
  currentKey := by rw [getCurrentState, getCurrentState, hc, h]
  held e := congrArg Option.isSome (h e)

/-- **What an accepted epoch leaves as it was**: everything, exactly when the epoch is held, negative, or
neither newer than the current one nor kept. -/
theorem unaffected_acceptEpoch_iff (m : GroupKeyManager K P) (epoch : JsNumber) (key : K)
    (members : List JsString) :
    Unaffected m (m.settle (m.acceptEpoch epoch key members)) ↔
      m.epochs.has epoch = true ∨ epoch.lt 0 = true ∨
        (m.currentEpoch.lt epoch = false ∧ m.DroppedAtOnce epoch) := by
  have same : Unaffected m m := unaffected_of_get? rfl fun _ => rfl
  by_cases hhas : m.epochs.has epoch = true
  · simpa [acceptEpoch, hhas, settle] using same
  by_cases hneg : epoch.lt 0 = true
  · simpa [acceptEpoch, hhas, GroupState.new, hneg, settle] using same
  rw [Bool.not_eq_true] at hneg
  let g : GroupState K := ⟨epoch, key, JsSet.ofList members, hneg⟩
  let w : GroupKeyManager K P :=
    { m with
      epochs := m.epochs.set g
      currentEpoch := if m.currentEpoch.lt epoch then epoch else m.currentEpoch }
  have hresult : m.settle (m.acceptEpoch epoch key members) = w.pruneOldEpochs := by
    simp [acceptEpoch, hhas, GroupState.new, hneg, settle, w, g]
  have hnew : g.epoch ∉ m.epochs.map.keys := fun hk => hhas (EpochMap.has_iff.mpr hk)
  have hdropped : (∀ x, x ∈ w.oldEpochs ↔ x = epoch) ↔ m.DroppedAtOnce epoch :=
    mem_oldEpochs_set_iff (g := g) rfl rfl hnew
  have hget : ∀ e, w.pruneOldEpochs.epochs.get? e =
      if e ∈ w.oldEpochs then none else if e = epoch then some g else m.epochs.get? e := by
    intro e
    rw [get?_pruneOldEpochs]
    exact if_congr Iff.rfl rfl EpochMap.get?_set
  have hfree : m.epochs.get? epoch = none := by
    simpa [EpochMap.has, JsMap.has, EpochMap.get?] using hhas
  rw [hresult, or_iff_right hhas, or_iff_right (by simp [hneg])]
  constructor
  · intro h
    refine ⟨?_, hdropped.mp fun x => ?_⟩
    · by_contra hlt
      have hc := h.currentEpoch
      rw [pruneOldEpochs_currentEpoch] at hc
      simp only [w, Bool.not_eq_false] at hc hlt
      rw [if_pos hlt] at hc
      rw [hc] at hlt
      simp [JsNumber.lt] at hlt
    · have hx := h.held x
      rw [EpochMap.has, JsMap.has, EpochMap.has, JsMap.has, ← EpochMap.get?, ← EpochMap.get?, hget] at hx
      constructor
      · intro hold
        by_contra hxe
        -- a held epoch that is dropped is missed
        have hmem : x ∈ m.epochs.map.keys := by
          have hw := w.oldEpochs_subset hold
          rw [show w.epochs.map.keys = m.epochs.map.keys ++ [epoch] from EpochMap.keys_set hnew] at hw
          exact (List.mem_append.mp hw).resolve_right fun hx => hxe (List.mem_singleton.mp hx)
        rw [if_pos hold] at hx
        have hheld : (m.epochs.get? x).isSome = true := EpochMap.has_iff.mpr hmem
        rw [← hx] at hheld
        cases hheld
      · rintro rfl
        by_contra hold
        rw [if_neg hold, if_pos rfl, hfree] at hx
        cases hx
  · rintro ⟨hlt, hd⟩
    have hold := hdropped.mpr hd
    refine unaffected_of_get? ?_ fun e => ?_
    · rw [pruneOldEpochs_currentEpoch]
      simp [w, hlt]
    · rw [hget]
      by_cases he : e = epoch
      · rw [if_pos ((hold e).mpr he), he, hfree]
      · rw [if_neg fun h => he ((hold e).mp h), if_neg he]

end GroupKeyManager

/-! ### Runs of one manager -/

/-- A local operation, or a distribution that comes in from a pod. -/
inductive ManagerEvent (K P : Type) where
  | perform (op : Operation K P)
  | receive (fromPodId : JsString) (payload : Distribute K P)

def groupKeyManager (K : Type) {P : Type} [DecidableEq P] (localPodId groupId : NonEmptyString)
    (maxEpochHistory : ℕ) : Machine (GroupKeyManager K P) (ManagerEvent K P) where
  init := .new localPodId groupId maxEpochHistory
  step m
    | .perform op => (m.perform op).map Prod.fst
    | .receive fromPodId payload => some (m.receive fromPodId payload)

/-- There is a group, and the pod is no member of it. -/
def Outsider (state : Option (GroupState K)) (podId : JsString) : Prop :=
  ∃ g, state = some g ∧ g.hasMember podId = false

/-- A message of a pod that is no member, when it comes in or when its key is unwrapped, changes neither the
current epoch nor the current key nor the held epochs. -/
def Protected [DecidableEq P] (m : GroupKeyManager K P) : ManagerEvent K P → Prop
  | .receive fromPodId payload =>
      Outsider m.getCurrentState fromPodId → m.Unaffected (m.receive fromPodId payload)
  | .perform (.unwrapped i) =>
      ∀ u, m.unwrapping[i]? = some u →
        Outsider u.receivedIn u.fromPodId ∨ Outsider m.getCurrentState u.fromPodId →
          ∀ m' out, m.perform (.unwrapped i) = some (m', out) → m.Unaffected m'
  | .perform _ => True

/-- When the key of an outsider is unwrapped, the epoch of the message is held, or negative, or neither
newer than the current one nor kept. -/
def OutsidersIgnored (m : GroupKeyManager K P) : ManagerEvent K P → Prop
  | .perform (.unwrapped i) =>
      ∀ u, m.unwrapping[i]? = some u →
        Outsider u.receivedIn u.fromPodId ∨ Outsider m.getCurrentState u.fromPodId →
          m.epochs.has u.epoch = true ∨ u.epoch.lt 0 = true ∨
            (m.currentEpoch.lt u.epoch = false ∧ m.DroppedAtOnce u.epoch)
  | _ => True

namespace GroupKeyManager

/-- Receiving a message adds an unwrapping at most. -/
theorem unaffected_receive [DecidableEq P] (m : GroupKeyManager K P) (fromPodId : JsString)
    (payload : Distribute K P) : m.Unaffected (m.receive fromPodId payload) := by
  have same : ∀ m' : GroupKeyManager K P, m'.currentEpoch = m.currentEpoch → m'.epochs = m.epochs →
      m.Unaffected m' := fun m' hc he => unaffected_of_get? hc fun e => by rw [he]
  unfold receive
  split
  · exact same m rfl rfl
  · split
    · split
      · exact same m rfl rfl
      · split
        · split
          · exact same m rfl rfl
          · exact same _ rfl rfl
        · exact same m rfl rfl
    · exact same m rfl rfl

theorem unaffected_unwrapped_iff {m m' : GroupKeyManager K P} {i : ℕ} {u : Unwrapping K}
    {out : Option (Distribute K P)} (hu : m.unwrapping[i]? = some u)
    (h : m.perform (.unwrapped i) = some (m', out)) :
    m.Unaffected m' ↔ m.epochs.has u.epoch = true ∨ u.epoch.lt 0 = true ∨
      (m.currentEpoch.lt u.epoch = false ∧ m.DroppedAtOnce u.epoch) := by
  rw [perform, hu] at h
  cases h
  have hiff := unaffected_acceptEpoch_iff { m with unwrapping := m.unwrapping.eraseIdx i } u.epoch u.key
    u.members
  exact ⟨fun ha => hiff.mp ⟨ha.1, ha.2, ha.3⟩, fun hc => by
    have ha := hiff.mpr hc
    exact ⟨ha.1, ha.2, ha.3⟩⟩

end GroupKeyManager

/-- `A` removes `B`, and a distribution of `B` for epoch 5 comes in. -/
def ousterRun : List (ManagerEvent ℕ ℕ) :=
  [.perform (.initEncryption (some 10)), .perform (.initGroup [podB.1]), .perform (.keyGenerated 0 1),
    .perform (.removeMember podB.1), .perform (.keyGenerated 0 2),
    .receive podB.1 ⟨groupG.1, .ofNat 5, some [podA.1],
      some ⟨JsMap.ofEntries [(podA.1, wrapKeyForMember 66 10)]⟩⟩]

end BrowserMesh.Core
