import BrowserMesh.Library.Transition
import BrowserMesh.Core.GroupKeys

/-! # Agreement on group keys

The managers of one group perform operations, encrypt, and receive each other's distributions, late,
repeatedly or never.  A key is carried at an epoch when a manager holds it there, when a broadcast, a
message or an unwrapping is on its way with it, or when a ciphertext of that epoch was made with it.

* `perform_spec`, `receive_spec`: what a manager can carry after a step comes from what it carried, from
  the message, or is installed by the step (`installs`).
* `Agreed`: at every epoch only one key is carried.  `agreed_step` is its step lemma, under the condition
  that an installed key meets no other key elsewhere (`Uncontested`). -/

namespace BrowserMesh.Core

open Js Transition

variable {K P N D C : Type}

/-! ### The keys of a manager -/

/-- The keys in the envelopes of a distribution of the epoch. -/
def Distribute.keysAt (d : Distribute K P) (epoch : JsNumber) : List K :=
  if d.epoch = epoch then
    match d.envelopes with
    | none => []
    | some envelopes => envelopes.props.values.map KeyEnvelope.wrappedKey
  else []

namespace GroupKeyManager

def heldKey (m : GroupKeyManager K P) (epoch : JsNumber) : Option K :=
  (m.epochs.get? epoch).map GroupState.key

/-- The keys that the waiting broadcasts and unwrappings have for the epoch. -/
def waitingKeys (m : GroupKeyManager K P) (epoch : JsNumber) : List K :=
  (m.broadcasting.filter (·.state.epoch = epoch)).map (·.state.key) ++
    (m.unwrapping.filter (·.epoch = epoch)).map Unwrapping.key

/-- The epoch and the key that an operation installs. -/
def installs (m : GroupKeyManager K P) : Operation K P → Option (JsNumber × K)
  | .adopt _ epoch key => if epoch.lt 0 then none else some (epoch, key)
  | .keyGenerated i key =>
      match m.generating[i]? with
      | none => none
      | some (.initGroup _) => some (0, key)
      | some (.rotate nextEpoch _) => if nextEpoch.lt 0 then none else some (nextEpoch, key)
  | _ => none

end GroupKeyManager

/-! ### What a step carries on -/

theorem EpochMap.get?_set {m : EpochMap K} {g : GroupState K} {e : JsNumber} :
    (m.set g).get? e = if e = g.epoch then some g else m.get? e := JsMap.get?_set _ _ _ _

theorem EpochMap.get?_of_foldl_delete {l : List JsNumber} {m : EpochMap K} {e : JsNumber}
    {g : GroupState K} (h : (l.foldl EpochMap.delete m).get? e = some g) : m.get? e = some g := by
  induction l generalizing m with
  | nil => exact h
  | cons d l ih =>
      have hd := ih h
      rw [EpochMap.get?, EpochMap.delete, JsMap.get?_delete] at hd
      split_ifs at hd
      exact hd

namespace GroupKeyManager

variable {m : GroupKeyManager K P} {e : JsNumber}

theorem mem_waitingKeys {k : K} :
    k ∈ m.waitingKeys e ↔
      (∃ b ∈ m.broadcasting, b.state.epoch = e ∧ b.state.key = k) ∨
        ∃ u ∈ m.unwrapping, u.epoch = e ∧ u.key = k := by
  simp [waitingKeys, and_assoc]

theorem heldKey_eq_some {k : K} :
    m.heldKey e = some k ↔ ∃ g, m.epochs.get? e = some g ∧ g.key = k := Option.map_eq_some_iff

variable {g : GroupState K}

theorem getCurrentState_epoch (h : m.getCurrentState = some g) : g.epoch = m.currentEpoch := m.epochs.own _ _ h

theorem heldKey_of_current (h : m.getCurrentState = some g) : m.heldKey g.epoch = some g.key := by
  rw [getCurrentState_epoch h]
  exact heldKey_eq_some.mpr ⟨g, h, rfl⟩

@[simp] theorem waitingKeys_pruneOldEpochs (m : GroupKeyManager K P) (e : JsNumber) :
    m.pruneOldEpochs.waitingKeys e = m.waitingKeys e := by
  unfold pruneOldEpochs
  split <;> rfl

theorem heldKey_of_pruneOldEpochs {k : K} (h : m.pruneOldEpochs.heldKey e = some k) : m.heldKey e = some k := by
  obtain ⟨g, hg, hk⟩ := heldKey_eq_some.mp h
  refine heldKey_eq_some.mpr ⟨g, ?_, hk⟩
  unfold pruneOldEpochs at hg
  split at hg
  · exact hg
  · exact EpochMap.get?_of_foldl_delete hg

variable {m' : GroupKeyManager K P}

/-- What is held after a state is set and old ones are dropped. -/
theorem heldKey_of_set (hm : m'.epochs = m.epochs.set g) {k : K} (h : m'.heldKey e = some k) :
    (e = g.epoch ∧ k = g.key) ∨ (e ≠ g.epoch ∧ m.heldKey e = some k) := by
  obtain ⟨g', hg, hk⟩ := heldKey_eq_some.mp h
  rw [hm, EpochMap.get?_set] at hg
  split_ifs at hg with he
  · exact Or.inl ⟨he, by rw [← hk, ← Option.some.inj hg]⟩
  · exact Or.inr ⟨he, heldKey_eq_some.mpr ⟨g', hg, hk⟩⟩

/-- What a step of a manager with the given installation leaves. -/
structure Carries (m m' : GroupKeyManager K P) (installed : Option (JsNumber × K)) : Prop where
  held : ∀ e k, m'.heldKey e = some k →
    installed = some (e, k) ∨ ((∀ k', installed ≠ some (e, k')) ∧ m.heldKey e = some k) ∨
      k ∈ m.waitingKeys e
  waiting : ∀ e k, k ∈ m'.waitingKeys e →
    k ∈ m.waitingKeys e ∨ (installed = none ∧ m.heldKey e = some k)

/-- A step that keeps the states and waits for nothing new. -/
theorem carries_of_same (he : m'.epochs = m.epochs)
    (hb : m'.broadcasting ⊆ m.broadcasting) (hu : m'.unwrapping ⊆ m.unwrapping) :
    Carries m m' none where
  held e k h := by
    refine Or.inr (Or.inl ⟨fun _ h => (by cases h), ?_⟩)
    rwa [heldKey, he] at h
  waiting e k h := by
    refine Or.inl (mem_waitingKeys.mpr ?_)
    rcases mem_waitingKeys.mp h with ⟨b, hbm, hbk⟩ | ⟨u, hum, huk⟩
    · exact Or.inl ⟨b, hb hbm, hbk⟩
    · exact Or.inr ⟨u, hu hum, huk⟩

theorem carries_refl (m : GroupKeyManager K P) : Carries m m none :=
  carries_of_same rfl (List.Subset.refl _) (List.Subset.refl _)

/-- A step that installs a key and waits for nothing new. -/
theorem carries_of_set (hheld : ∀ e k, m'.heldKey e = some k →
      (e = g.epoch ∧ k = g.key) ∨ (e ≠ g.epoch ∧ m.heldKey e = some k))
    (hw : ∀ e, m'.waitingKeys e = m.waitingKeys e) : Carries m m' (some (g.epoch, g.key)) where
  held e k h := by
    rcases hheld e k h with ⟨rfl, rfl⟩ | ⟨he, hold⟩
    · exact Or.inl rfl
    · exact Or.inr (Or.inl ⟨fun k' hk' => he (congrArg Prod.fst (Option.some.inj hk')).symm, hold⟩)
  waiting e k h := Or.inl (hw e ▸ h)

theorem carries_install (m : GroupKeyManager K P) (g : GroupState K) :
    Carries m (m.install g) (some (g.epoch, g.key)) := by
  refine carries_of_set (fun e k h => heldKey_of_set rfl (heldKey_of_pruneOldEpochs h)) fun e => ?_
  rw [install, waitingKeys_pruneOldEpochs]
  rfl

/-- A result that keeps the states and the waiting calls. -/
theorem carries_settle {r : Except GroupError (GroupKeyManager K P)}
    (h : ∀ m', r = .ok m' → Carries m m' none) : Carries m (m.settle r) none := by
  cases r with
  | error e => exact carries_refl m
  | ok m' => exact h m' rfl

theorem carries_rotate (m : GroupKeyManager K P) (newMembers : Option (List JsString)) :
    Carries m (m.rotate newMembers) none :=
  carries_of_same rfl (List.Subset.refl _) (List.Subset.refl _)

theorem carries_initGroup {members : List JsString} (h : m.initGroup members = .ok m') : Carries m m' none := by
  unfold initGroup at h
  split at h
  · cases h
  · cases h
    exact carries_of_same rfl (List.Subset.refl _) (List.Subset.refl _)

theorem carries_removeMember {podId : JsString} (h : m.removeMember podId = .ok m') : Carries m m' none := by
  unfold removeMember at h
  split at h
  · cases h
  · simp only at h
    split_ifs at h
    cases h
    exact carries_rotate m _

theorem carries_addMember {podId : JsString} (h : m.addMember podId = .ok m') : Carries m m' none := by
  unfold addMember at h
  split at h
  · cases h
  · split_ifs at h
    cases h
    exact carries_rotate m _

theorem carries_adopt (m : GroupKeyManager K P) (newMembers : Option (List JsString)) (epoch : JsNumber)
    (key : K) :
    Carries m (m.settle (m.adopt newMembers epoch key)) (m.installs (.adopt newMembers epoch key) (P := P)) := by
  unfold adopt installs settle GroupState.new
  by_cases hn : epoch.lt 0 = false
  · simpa [hn] using carries_install m _
  · simpa [hn] using carries_refl m

/-- `finish` installs the key it was given, at the epoch the call asked for. -/
theorem carries_finish (m : GroupKeyManager K P) (call : Generating) (key : K) :
    Carries m (m.settle (m.finish call key))
      (match call with
        | .initGroup _ => some (0, key)
        | .rotate nextEpoch _ => if nextEpoch.lt 0 then none else some (nextEpoch, key)) := by
  cases call with
  | initGroup members =>
      have h0 : (0 : JsNumber).lt 0 = false := by decide
      simp only [finish, GroupState.new, h0, settle, dif_pos]
      exact carries_of_set (g := ⟨0, key, JsSet.ofList members, h0⟩)
        (fun e k h => heldKey_of_set rfl h) fun e => rfl
  | rotate nextEpoch members =>
      by_cases hn : nextEpoch.lt 0 = false
      · simpa [finish, GroupState.new, hn, settle] using carries_install m _
      · simpa [finish, GroupState.new, hn, settle] using carries_refl m

/-- `acceptEpoch` keeps the states and adds at most the key it was given. -/
theorem heldKey_of_acceptEpoch {epoch : JsNumber} {key : K}
    {members : List JsString} (h : m.acceptEpoch epoch key members = .ok m') :
    (∀ e k, m'.heldKey e = some k → m.heldKey e = some k ∨ (e = epoch ∧ k = key)) ∧
      ∀ e, m'.waitingKeys e = m.waitingKeys e := by
  unfold acceptEpoch at h
  split at h
  · cases h
    exact ⟨fun e k hk => Or.inl hk, fun e => rfl⟩
  · split at h
    · cases h
    · rename_i state hstate
      obtain ⟨hepoch, hkey⟩ := GroupState.of_new hstate
      cases h
      refine ⟨fun e k hk => ?_, fun e => waitingKeys_pruneOldEpochs _ e⟩
      rcases heldKey_of_set rfl (heldKey_of_pruneOldEpochs hk) with ⟨he, hk'⟩ | ⟨-, hold⟩
      · exact Or.inr ⟨he.trans hepoch, hk'.trans hkey⟩
      · exact Or.inl hold

theorem carries_unwrapped {i : ℕ} {u : Unwrapping K} (hu : m.unwrapping[i]? = some u) :
    let waiting := { m with unwrapping := m.unwrapping.eraseIdx i }
    Carries m (waiting.settle (waiting.acceptEpoch u.epoch u.key u.members)) none := by
  intro waiting
  have hsame : Carries m waiting none :=
    carries_of_same rfl (List.Subset.refl _) (List.eraseIdx_subset)
  cases hacc : waiting.acceptEpoch u.epoch u.key u.members with
  | error e => exact hsame
  | ok m' =>
      obtain ⟨hheld, hw⟩ := heldKey_of_acceptEpoch hacc
      refine ⟨fun e k h => ?_, fun e k h => hsame.waiting e k (hw e ▸ h)⟩
      rcases hheld e k h with hold | ⟨rfl, rfl⟩
      · exact Or.inr (Or.inl ⟨fun _ h => (by cases h), hold⟩)
      · exact Or.inr (Or.inr (mem_waitingKeys.mpr (Or.inr ⟨u, List.mem_of_getElem? hu, rfl, rfl⟩)))

theorem eq_key_of_mem_keysAt {state : GroupState K} {envelopes : Option (JsObject (KeyEnvelope K P))}
    (h : ∀ o ∈ envelopes, ∀ podId e, o.props.get? podId = some e → e.wrappedKey = state.key)
    {k : K} (hk : k ∈ (m.distribution state envelopes).keysAt e) : state.epoch = e ∧ state.key = k := by
  unfold Distribute.keysAt distribution at hk
  split_ifs at hk with he
  · cases envelopes with
    | none => cases hk
    | some o =>
        obtain ⟨env, henv, rfl⟩ := List.mem_map.mp hk
        obtain ⟨⟨podId, env'⟩, hmem, rfl⟩ := List.mem_map.mp henv
        exact ⟨he, (h o rfl podId env' (JsMap.mem_entries_iff.mp hmem)).symm⟩
  · cases hk

theorem carries_broadcastDistribute (m : GroupKeyManager K P) :
    Carries m m.broadcastDistribute.1 none ∧
      ∀ d ∈ m.broadcastDistribute.2, ∀ e k, k ∈ d.keysAt e → k ∈ m.waitingKeys e ∨ m.heldKey e = some k := by
  unfold broadcastDistribute
  cases hstate : m.getCurrentState with
  | none => exact ⟨carries_refl m, fun d hd => by cases hd⟩
  | some state =>
      simp only
      split
      · refine ⟨carries_refl m, fun d hd e k hk => ?_⟩
        obtain rfl := Option.some.inj hd
        obtain ⟨rfl, rfl⟩ := eq_key_of_mem_keysAt (fun _ ho => by cases ho) hk
        exact Or.inr (heldKey_of_current hstate)
      · split
        · exact ⟨carries_refl m, fun d hd => by cases hd⟩
        · refine ⟨⟨fun e k h => Or.inr (Or.inl ⟨fun _ h => (by cases h), h⟩), fun e k h => ?_⟩,
            fun d hd => by cases hd⟩
          rcases mem_waitingKeys.mp h with ⟨b, hb, he, hk⟩ | hu
          · rcases List.mem_append.mp hb with hb | hb
            · exact Or.inl (mem_waitingKeys.mpr (Or.inl ⟨b, hb, he, hk⟩))
            · obtain rfl := List.mem_singleton.mp hb
              subst he hk
              exact Or.inr ⟨rfl, heldKey_of_current hstate⟩
          · exact Or.inl (mem_waitingKeys.mpr (Or.inr hu))

theorem carries_keyWrapped {out : Option (Distribute K P)} {i : ℕ} (h : m.keyWrapped i = some (m', out)) :
    Carries m m' none ∧ ∀ d ∈ out, ∀ e k, k ∈ d.keysAt e → k ∈ m.waitingKeys e ∨ m.heldKey e = some k := by
  unfold keyWrapped at h
  cases hb : m.broadcasting[i]? with
  | none =>
      rw [hb] at h
      cases h
  | some b =>
      have hmem := List.mem_of_getElem? hb
      simp only [hb] at h
      split at h
      · cases h
        refine ⟨carries_of_same rfl List.eraseIdx_subset (List.Subset.refl _), fun d hd e k hk => ?_⟩
        obtain rfl := Option.some.inj hd
        obtain ⟨he, hk'⟩ := eq_key_of_mem_keysAt
          (fun o ho => Option.some.inj ho ▸ wrapped_assign b.wrapped b.target b.publicKey) hk
        exact Or.inl (mem_waitingKeys.mpr (Or.inl ⟨b, hmem, he, hk'⟩))
      · split at h
        · cases h
          exact ⟨carries_of_same rfl List.eraseIdx_subset (List.Subset.refl _), fun d hd => by cases hd⟩
        · cases h
          refine ⟨⟨fun e k h => Or.inr (Or.inl ⟨fun _ h => (by cases h), h⟩), fun e k h => Or.inl ?_⟩,
            fun d hd => by cases hd⟩
          refine mem_waitingKeys.mpr ?_
          rcases mem_waitingKeys.mp h with ⟨b', hb', he, hk⟩ | hu
          · rcases List.mem_or_eq_of_mem_set hb' with hb' | rfl
            · exact Or.inl ⟨b', hb', he, hk⟩
            · exact Or.inl ⟨b, hmem, he, hk⟩
          · exact Or.inr hu

/-- **What an operation carries on**, in the manager and in the message it sends. -/
theorem perform_spec {op : Operation K P} {out : Option (Distribute K P)} (h : m.perform op = some (m', out)) :
    Carries m m' (m.installs op) ∧ ∀ d ∈ out, ∀ e k, k ∈ d.keysAt e →
      k ∈ m.waitingKeys e ∨ (m.installs op = none ∧ m.heldKey e = some k) := by
  have silent : ∀ d ∈ (none : Option (Distribute K P)), ∀ e k, k ∈ d.keysAt e →
      k ∈ m.waitingKeys e ∨ (m.installs op = none ∧ m.heldKey e = some k) := fun d hd => by cases hd
  cases op with
  | initEncryption keyPair =>
      cases h
      exact ⟨carries_of_same rfl (List.Subset.refl _) (List.Subset.refl _), silent⟩
  | setMemberPublicKey podId publicKey =>
      cases h
      exact ⟨carries_of_same rfl (List.Subset.refl _) (List.Subset.refl _), silent⟩
  | initGroup members =>
      cases h
      exact ⟨carries_settle fun _ => carries_initGroup, silent⟩
  | rotate newMembers =>
      cases h
      exact ⟨carries_rotate m newMembers, silent⟩
  | adopt newMembers epoch key =>
      cases h
      exact ⟨carries_adopt m newMembers epoch key, silent⟩
  | removeMember podId =>
      cases h
      exact ⟨carries_settle fun _ => carries_removeMember, silent⟩
  | addMember podId =>
      cases h
      exact ⟨carries_settle fun _ => carries_addMember, silent⟩
  | keyGenerated i key =>
      rw [perform] at h
      cases hcall : m.generating[i]? with
      | none =>
          rw [hcall] at h
          cases h
      | some call =>
          rw [hcall] at h
          cases h
          have hfin := carries_finish { m with generating := m.generating.eraseIdx i } call key
          refine ⟨?_, silent⟩
          rw [installs, hcall]
          cases call <;> exact ⟨hfin.held, hfin.waiting⟩
  | broadcastDistribute =>
      have h' : m.broadcastDistribute = (m', out) := Option.some.inj h
      have hspec := m.carries_broadcastDistribute
      rw [h'] at hspec
      exact ⟨hspec.1, fun d hd e k hk => (hspec.2 d hd e k hk).imp_right fun hheld => ⟨rfl, hheld⟩⟩
  | keyWrapped i =>
      obtain ⟨hcarries, hout⟩ := carries_keyWrapped h
      exact ⟨hcarries, fun d hd e k hk => (hout d hd e k hk).imp_right fun hheld => ⟨rfl, hheld⟩⟩
  | unwrapped i =>
      rw [perform] at h
      cases hu : m.unwrapping[i]? with
      | none =>
          rw [hu] at h
          cases h
      | some u =>
          rw [hu] at h
          cases h
          exact ⟨carries_unwrapped hu, silent⟩

/-- **What a received message adds**: at most a key from its envelopes, waiting to be accepted. -/
theorem receive_spec [DecidableEq P] (m : GroupKeyManager K P) (fromPodId : JsString)
    (d : Distribute K P) :
    (∀ e, (m.receive fromPodId d).heldKey e = m.heldKey e) ∧
      ∀ e k, k ∈ (m.receive fromPodId d).waitingKeys e → k ∈ m.waitingKeys e ∨ k ∈ d.keysAt e := by
  unfold receive
  split
  · exact ⟨fun _ => rfl, fun _ _ hk => Or.inl hk⟩
  · split
    · rename_i members envelopes keyPair hm henv hpair
      split
      · exact ⟨fun _ => rfl, fun _ _ hk => Or.inl hk⟩
      · split
        · rename_i envelope hread
          split
          · exact ⟨fun _ => rfl, fun _ _ hk => Or.inl hk⟩
          · rename_i key hkey
            refine ⟨fun _ => rfl, fun e k hk => ?_⟩
            rcases mem_waitingKeys.mp hk with hb | ⟨u, hu, he, hk⟩
            · exact Or.inl (mem_waitingKeys.mpr (Or.inl hb))
            · rcases List.mem_append.mp hu with hu | hu
              · exact Or.inl (mem_waitingKeys.mpr (Or.inr ⟨u, hu, he, hk⟩))
              · obtain rfl := List.mem_singleton.mp hu
                refine Or.inr ?_
                have hwrapped : envelope.wrappedKey = k := by
                  unfold unwrapKeyForMember at hkey
                  split_ifs at hkey
                  exact (Option.some.inj hkey).trans hk
                have hget : envelopes.props.get? m.localPodId.1 = some envelope := by
                  unfold JsObject.read at hread
                  split at hread
                  · rename_i v hv
                    rw [hv, Slot.own.inj hread]
                  · split at hread <;> cases hread
                simp only at he
                rw [Distribute.keysAt, if_pos he, henv]
                refine List.mem_map.mpr ⟨envelope, ?_, hwrapped⟩
                exact List.mem_map.mpr ⟨_, JsMap.mem_entries_iff.mpr hget, rfl⟩
        · exact ⟨fun _ => rfl, fun _ _ hk => Or.inl hk⟩
    · exact ⟨fun _ => rfl, fun _ _ hk => Or.inl hk⟩

end GroupKeyManager

/-! ### The network -/

/-- The managers of a group by pod, all distributions ever sent, with their senders, and all ciphertexts
ever produced. -/
structure KeyNetwork (P : Type) (cipher : Cipher K N D C) where
  managers : JsMap JsString (GroupKeyManager K P)
  sent : List (JsString × Distribute K P)
  encrypted : List (GroupKeyManager.Encrypted cipher)

inductive KeyEvent (K P N D : Type) where
  | perform (podId : JsString) (op : Operation K P)
  | encrypt (podId : JsString) (iv : N) (plaintext : D)
  /-- Deliver the `i`-th distribution ever sent. -/
  | deliver (podId : JsString) (i : ℕ)

namespace KeyNetwork
variable {cipher : Cipher K N D C}

/-- One pod performs an operation, encrypts or receives a message. -/
def step [DecidableEq P] (s : KeyNetwork P cipher) : KeyEvent K P N D → Option (KeyNetwork P cipher)
  | .perform podId op =>
      match s.managers.get? podId with
      | none => none
      | some m =>
          match m.perform op with
          | none => none
          | some (m', out) =>
              some { s with
                managers := s.managers.set podId m'
                sent := s.sent ++ out.toList.map fun d => (podId, d) }
  | .encrypt podId iv plaintext =>
      match s.managers.get? podId with
      | none => none
      | some m =>
          some { s with encrypted := s.encrypted ++ (m.encrypted cipher iv plaintext).toList }
  | .deliver podId i =>
      match s.managers.get? podId, s.sent[i]? with
      | some m, some (fromPodId, d) =>
          some { s with managers := s.managers.set podId (m.receive fromPodId d) }
      | _, _ => none

/-- The keys carried at the epoch, without those that `podId` holds. -/
def keysElsewhere (s : KeyNetwork P cipher) (podId : JsString) (epoch : JsNumber) : List K :=
  s.managers.entries.flatMap (fun e =>
      (if e.1 = podId then [] else (e.2.heldKey epoch).toList) ++ e.2.waitingKeys epoch) ++
    s.sent.flatMap (fun e => e.2.keysAt epoch) ++
    (s.encrypted.filter (·.epoch = epoch)).map (·.key)

/-- A key that is installed meets no other key of its epoch elsewhere: no other manager holds one, and
no broadcast, message or unwrapping is on its way with one, and no ciphertext was made with one. -/
def Uncontested (s : KeyNetwork P cipher) : KeyEvent K P N D → Prop
  | .encrypt _ _ _ => True
  | .deliver _ _ => True
  | .perform podId op =>
      ∀ m ∈ s.managers.get? podId, ∀ i ∈ m.installs op, ∀ k ∈ s.keysElsewhere podId i.1, k = i.2

instance [DecidableEq K] (s : KeyNetwork P cipher) (a : KeyEvent K P N D) :
    Decidable (s.Uncontested a) := by
  cases a with
  | encrypt podId iv plaintext => exact .isTrue trivial
  | deliver podId i => exact .isTrue trivial
  | perform podId op =>
      exact inferInstanceAs (Decidable (∀ m ∈ s.managers.get? podId, ∀ i ∈ m.installs op,
        ∀ k ∈ s.keysElsewhere podId i.1, k = i.2))

/-- Managers, waiting keys, messages, ciphertexts: everything that carries the key at the epoch. -/
inductive Carried (s : KeyNetwork P cipher) (epoch : JsNumber) (k : K) : Prop
  | held {podId : JsString} {m : GroupKeyManager K P} : s.managers.get? podId = some m →
      m.heldKey epoch = some k → Carried s epoch k
  | waiting {podId : JsString} {m : GroupKeyManager K P} : s.managers.get? podId = some m →
      k ∈ m.waitingKeys epoch → Carried s epoch k
  | sent {d : JsString × Distribute K P} : d ∈ s.sent → k ∈ d.2.keysAt epoch → Carried s epoch k
  | encrypted {x : GroupKeyManager.Encrypted cipher} : x ∈ s.encrypted → x.epoch = epoch → x.key = k →
      Carried s epoch k

/-- At every epoch one key is carried. -/
def Agreed (s : KeyNetwork P cipher) : Prop := ∀ e k k', s.Carried e k → s.Carried e k' → k = k'

variable {s : KeyNetwork P cipher} {podId : JsString} {e : JsNumber}

theorem mem_keysElsewhere {k : K} :
    k ∈ s.keysElsewhere podId e ↔
      (∃ q m, s.managers.get? q = some m ∧ ((q ≠ podId ∧ m.heldKey e = some k) ∨ k ∈ m.waitingKeys e)) ∨
        (∃ d ∈ s.sent, k ∈ d.2.keysAt e) ∨ ∃ x ∈ s.encrypted, x.epoch = e ∧ x.key = k := by
  unfold keysElsewhere
  rw [List.mem_append, List.mem_append, List.mem_flatMap, List.mem_flatMap, or_assoc]
  refine or_congr ⟨?_, ?_⟩ (or_congr Iff.rfl (by simp [and_assoc]))
  · rintro ⟨⟨q, m⟩, hmem, hk⟩
    refine ⟨q, m, JsMap.mem_entries_iff.mp hmem, ?_⟩
    rcases List.mem_append.mp hk with hk | hk
    · by_cases hq : q = podId
      · simp [hq] at hk
      · rw [if_neg hq, Option.mem_toList] at hk
        exact Or.inl ⟨hq, hk⟩
    · exact Or.inr hk
  · rintro ⟨q, m, hget, hk⟩
    refine ⟨(q, m), JsMap.mem_entries_iff.mpr hget, List.mem_append.mpr ?_⟩
    rcases hk with ⟨hq, hk⟩ | hk
    · left
      rw [if_neg hq, Option.mem_toList]
      exact hk
    · exact Or.inr hk

theorem Carried.of_elsewhere {k : K} (h : k ∈ s.keysElsewhere podId e) : s.Carried e k := by
  rcases mem_keysElsewhere.mp h with ⟨q, m, hget, ⟨-, hheld⟩ | hwait⟩ | ⟨d, hd, hk⟩ | ⟨x, hx, he, hk⟩
  · exact .held hget hheld
  · exact .waiting hget hwait
  · exact .sent hd hk
  · exact .encrypted hx he hk

/-- What is carried after an operation: the installed key; at an epoch without an installation what was
carried before; and otherwise what was carried elsewhere. -/
theorem carried_of_perform {s : KeyNetwork P cipher} {podId : JsString} {m m' : GroupKeyManager K P}
    {out : Option (Distribute K P)} {op : Operation K P} (hget : s.managers.get? podId = some m)
    (hop : m.perform op = some (m', out)) {e : JsNumber} {k : K}
    (h : Carried { s with
      managers := s.managers.set podId m'
      sent := s.sent ++ out.toList.map fun d => (podId, d) } e k) :
    m.installs op = some (e, k) ∨ ((∀ k', m.installs op ≠ some (e, k')) ∧ s.Carried e k) ∨
      k ∈ s.keysElsewhere podId e := by
  obtain ⟨hcarries, hout⟩ := GroupKeyManager.perform_spec hop
  have waiting : k ∈ m.waitingKeys e → k ∈ s.keysElsewhere podId e :=
    fun hk => mem_keysElsewhere.mpr (Or.inl ⟨podId, m, hget, Or.inr hk⟩)
  have unchanged : m.installs op = none ∧ m.heldKey e = some k →
      (∀ k', m.installs op ≠ some (e, k')) ∧ s.Carried e k :=
    fun hk => ⟨fun k' h' => (by rw [hk.1] at h'; cases h'), .held hget hk.2⟩
  cases h with
  | @held q n hn hheld =>
      rw [JsMap.get?_set] at hn
      split_ifs at hn with hq
      · obtain rfl := Option.some.inj hn
        rcases hcarries.held e k hheld with hi | ⟨hne, hold⟩ | hw
        · exact Or.inl hi
        · exact Or.inr (Or.inl ⟨hne, .held hget hold⟩)
        · exact Or.inr (Or.inr (waiting hw))
      · exact Or.inr (Or.inr (mem_keysElsewhere.mpr (Or.inl ⟨q, n, hn, Or.inl ⟨hq, hheld⟩⟩)))
  | @waiting q n hn hw =>
      rw [JsMap.get?_set] at hn
      split_ifs at hn with hq
      · obtain rfl := Option.some.inj hn
        rcases hcarries.waiting e k hw with hw | hk
        · exact Or.inr (Or.inr (waiting hw))
        · exact Or.inr (Or.inl (unchanged hk))
      · exact Or.inr (Or.inr (mem_keysElsewhere.mpr (Or.inl ⟨q, n, hn, Or.inr hw⟩)))
  | @sent d hd hk =>
      rcases List.mem_append.mp hd with hd | hd
      · exact Or.inr (Or.inr (mem_keysElsewhere.mpr (Or.inr (Or.inl ⟨d, hd, hk⟩))))
      · obtain ⟨d', hd', rfl⟩ := List.mem_map.mp hd
        rcases hout d' (Option.mem_toList.mp hd') e k hk with hw | hk
        · exact Or.inr (Or.inr (waiting hw))
        · exact Or.inr (Or.inl (unchanged hk))
  | @encrypted x hx he hk =>
      exact Or.inr (Or.inr (mem_keysElsewhere.mpr (Or.inr (Or.inr ⟨x, hx, he, hk⟩))))

theorem carried_of_receive [DecidableEq P]
    {m : GroupKeyManager K P} {d : JsString × Distribute K P} (hget : s.managers.get? podId = some m)
    (hd : d ∈ s.sent) {k : K}
    (h : Carried { s with managers := s.managers.set podId (m.receive d.1 d.2) } e k) : s.Carried e k := by
  obtain ⟨hheld, hwait⟩ := m.receive_spec d.1 d.2
  cases h with
  | @held q n hn hk =>
      rw [JsMap.get?_set] at hn
      split_ifs at hn with hq
      · obtain rfl := Option.some.inj hn
        exact .held hget ((hheld e).symm.trans hk)
      · exact .held hn hk
  | @waiting q n hn hk =>
      rw [JsMap.get?_set] at hn
      split_ifs at hn with hq
      · obtain rfl := Option.some.inj hn
        exact (hwait e k hk).elim (fun hw => .waiting hget hw) fun hs => .sent hd hs
      · exact .waiting hn hk
  | @sent d' hd' hk => exact .sent hd' hk
  | @encrypted x hx he hk => exact .encrypted hx he hk

/-- A ciphertext carries the key that its maker holds. -/
theorem carried_of_encrypt {m : GroupKeyManager K P} {iv : N}
    {plaintext : D} (hget : s.managers.get? podId = some m) {k : K}
    (h : Carried { s with encrypted := s.encrypted ++ (m.encrypted cipher iv plaintext).toList } e k) :
    s.Carried e k := by
  cases h with
  | @held q n hn hk => exact .held hn hk
  | @waiting q n hn hk => exact .waiting hn hk
  | @sent d hd hk => exact .sent hd hk
  | @encrypted x hx he hk =>
      rcases List.mem_append.mp hx with hx | hx
      · exact .encrypted hx he hk
      · obtain ⟨state, hstate, rfl⟩ := Option.map_eq_some_iff.mp (Option.mem_toList.mp hx)
        subst he hk
        exact .held hget (GroupKeyManager.heldKey_of_current hstate)

theorem agreed_step [DecidableEq P] {s s' : KeyNetwork P cipher} {a : KeyEvent K P N D} (hs : s.Agreed)
    (hok : s.Uncontested a) (h : s.step a = some s') : s'.Agreed := by
  cases a with
  | perform podId op =>
      rw [step] at h
      cases hget : s.managers.get? podId with
      | none =>
          rw [hget] at h
          cases h
      | some m =>
          cases hop : m.perform op with
          | none =>
              simp only [hget, hop] at h
              cases h
          | some r =>
              simp only [hget, hop] at h
              cases h
              intro e k k' hk hk'
              by_cases hi : ∃ k₀, m.installs op = some (e, k₀)
              · -- at the epoch of the installation every key is the installed one
                obtain ⟨k₀, hk₀⟩ := hi
                have one : ∀ x, Carried { s with
                    managers := s.managers.set podId r.1
                    sent := s.sent ++ r.2.toList.map fun d => (podId, d) } e x → x = k₀ := by
                  intro x hx
                  rcases carried_of_perform hget hop hx with hx | ⟨hne, -⟩ | hx
                  · exact congrArg Prod.snd (Option.some.inj (hx.symm.trans hk₀))
                  · exact absurd hk₀ (hne k₀)
                  · exact hok m hget (e, k₀) hk₀ x hx
                exact (one k hk).trans (one k' hk').symm
              · have old : ∀ x, Carried { s with
                    managers := s.managers.set podId r.1
                    sent := s.sent ++ r.2.toList.map fun d => (podId, d) } e x → s.Carried e x := by
                  intro x hx
                  rcases carried_of_perform hget hop hx with hx | ⟨-, hx⟩ | hx
                  · exact absurd ⟨x, hx⟩ hi
                  · exact hx
                  · exact .of_elsewhere hx
                exact hs e k k' (old k hk) (old k' hk')
  | encrypt podId iv plaintext =>
      rw [step] at h
      cases hget : s.managers.get? podId with
      | none =>
          rw [hget] at h
          cases h
      | some m =>
          rw [hget] at h
          cases h
          intro e k k' hk hk'
          exact hs e k k' (carried_of_encrypt hget hk) (carried_of_encrypt hget hk')
  | deliver podId i =>
      rw [step] at h
      split at h
      · rename_i m fromPodId d hget hd
        cases h
        intro e k k' hk hk'
        exact hs e k k' (carried_of_receive hget (List.mem_of_getElem? hd) hk)
          (carried_of_receive hget (List.mem_of_getElem? hd) hk')
      · cases h

end KeyNetwork

/-- The managers of a group before any of them does anything: pods with their `maxEpochHistory`. -/
def keyNetwork (P : Type) [DecidableEq P] (cipher : Cipher K N D C) (groupId : NonEmptyString)
    (pods : List (NonEmptyString × ℕ)) : Machine (KeyNetwork P cipher) (KeyEvent K P N D) where
  init :=
    { managers := JsMap.ofEntries (pods.map fun p => (p.1.1, .new p.1 groupId p.2))
      sent := []
      encrypted := [] }
  step := KeyNetwork.step

/-- Two managers that hold a state for an epoch hold the same key for it, and every ciphertext that was
produced at an epoch a manager holds is decrypted there. -/
def KeyAgreement {cipher : Cipher K N D C} (s : KeyNetwork P cipher) : Prop :=
  (∀ p q mp mq, s.managers.get? p = some mp → s.managers.get? q = some mq →
      ∀ e gp gq, mp.getEpochState e = some gp → mq.getEpochState e = some gq → gp.key = gq.key) ∧
    ∀ x ∈ s.encrypted, ∀ q mq, s.managers.get? q = some mq → (mq.getEpochState x.epoch).isSome = true →
      mq.decrypt cipher x.ciphertext x.iv x.epoch = .ok x.plaintext

theorem KeyNetwork.Agreed.keyAgreement {cipher : Cipher K N D C} {s : KeyNetwork P cipher}
    (h : s.Agreed) : KeyAgreement s := by
  constructor
  · intro p q mp mq hp hq e gp gq hgp hgq
    exact h e gp.key gq.key (.held hp (GroupKeyManager.heldKey_eq_some.mpr ⟨gp, hgp, rfl⟩))
      (.held hq (GroupKeyManager.heldKey_eq_some.mpr ⟨gq, hgq, rfl⟩))
  · intro x hx q mq hq hheld
    obtain ⟨g, hg⟩ := Option.isSome_iff_exists.mp hheld
    have hkey : x.key = g.key := h x.epoch x.key g.key (.encrypted hx rfl rfl)
      (.held hq (GroupKeyManager.heldKey_eq_some.mpr ⟨g, hg, rfl⟩))
    have hget : mq.epochs.get? x.epoch = some g := hg
    simp [GroupKeyManager.decrypt, hget, x.made, hkey, cipher.decrypt_encrypt]

section agreement
variable [DecidableEq P] {cipher : Cipher K N D C} {groupId : NonEmptyString}
  {pods : List (NonEmptyString × ℕ)}

theorem keyNetwork_init_agreed : (keyNetwork P cipher groupId pods).init.Agreed := by
  have hnew : ∀ (q : JsString) (m : GroupKeyManager K P),
      (keyNetwork P cipher groupId pods).init.managers.get? q = some m →
        ∃ p n, m = GroupKeyManager.new p groupId n := by
    intro q m hm
    have hmem := JsMap.mem_of_get?_ofEntries hm
    obtain ⟨p, -, hp⟩ := List.mem_map.mp hmem
    exact ⟨p.1, p.2, (congrArg Prod.snd hp).symm⟩
  intro e k k' hk _
  cases hk with
  | held hm hk =>
      obtain ⟨p, n, rfl⟩ := hnew _ _ hm
      cases hk
  | waiting hm hk =>
      obtain ⟨p, n, rfl⟩ := hnew _ _ hm
      cases hk
  | sent hd _ => cases hd
  | encrypted hx _ _ => cases hx

/-- **In every run whose installations are uncontested, managers that hold an epoch hold the same key for
it and decrypt each other's ciphertexts.** -/
theorem group_keys_agree {s : KeyNetwork P cipher}
    (h : (keyNetwork P cipher groupId pods).Reach KeyNetwork.Uncontested s) : KeyAgreement s :=
  (h.invariant (I := KeyNetwork.Agreed) keyNetwork_init_agreed
    fun _ _ _ hs hok hstep => KeyNetwork.agreed_step hs hok hstep).keyAgreement

end agreement

/-! ### Two pods -/

/-- A cipher that keeps the key and the nonce beside the plaintext. -/
def plainCipher : Cipher ℕ ℕ ℕ (ℕ × ℕ × ℕ) where
  encrypt k n d := (k, n, d)
  decrypt k n c := if c.1 = k ∧ c.2.1 = n then some c.2.2 else none
  decrypt_encrypt := by
    intro k n d
    simp

def podA : NonEmptyString := ⟨js "A", by decide⟩

def podB : NonEmptyString := ⟨js "B", by decide⟩

def groupG : NonEmptyString := ⟨js "g", by decide⟩

/-- Both pods, with key pairs 10 and 20. -/
def pairNetwork : Machine (KeyNetwork ℕ plainCipher) (KeyEvent ℕ ℕ ℕ ℕ) :=
  keyNetwork ℕ plainCipher groupG [(podA, 10), (podB, 10)]

/-- `A` makes the group and distributes key 1 of epoch 0, which `B` accepts. -/
def foundingRun : List (KeyEvent ℕ ℕ ℕ ℕ) :=
  [.perform podA.1 (.initEncryption (some 10)), .perform podB.1 (.initEncryption (some 20)),
    .perform podA.1 (.setMemberPublicKey podB.1 20), .perform podA.1 (.initGroup [podB.1]),
    .perform podA.1 (.keyGenerated 0 1), .perform podA.1 .broadcastDistribute,
    .perform podA.1 (.keyWrapped 0), .deliver podB.1 0, .perform podB.1 (.unwrapped 0)]

/-- `A` rotates, distributes the new key and encrypts with it. -/
def rotationRun : List (KeyEvent ℕ ℕ ℕ ℕ) :=
  foundingRun ++ [.perform podA.1 (.rotate none), .perform podA.1 (.keyGenerated 0 2),
    .perform podA.1 .broadcastDistribute, .perform podA.1 (.keyWrapped 0), .deliver podB.1 1,
    .perform podB.1 (.unwrapped 0), .encrypt podA.1 0 7]

/-- Both members rotate, and then `A` encrypts. -/
def contestedRun : List (KeyEvent ℕ ℕ ℕ ℕ) :=
  foundingRun ++ [.perform podA.1 (.rotate none), .perform podB.1 (.rotate none),
    .perform podA.1 (.keyGenerated 0 2), .perform podB.1 (.keyGenerated 0 3), .encrypt podA.1 0 7]

/-- The key a pod holds at an epoch. -/
def KeyNetwork.keyAt (s : KeyNetwork ℕ plainCipher) (podId : JsString) (epoch : JsNumber) : Option ℕ :=
  (s.managers.get? podId).bind fun m => m.heldKey epoch

theorem group_keys_agree_rotation :
    ∃ s, pairNetwork.run KeyNetwork.Uncontested pairNetwork.init rotationRun = some s ∧
      (s.keyAt podB.1 (.ofNat 1) = some 2 ∧ s.encrypted.length = 1) ∧ KeyAgreement s := by
  obtain ⟨s, hs, hr, hp⟩ := Machine.exists_of_run
    (P := fun s : KeyNetwork ℕ plainCipher =>
      s.keyAt podB.1 (.ofNat 1) = some 2 ∧ s.encrypted.length = 1)
    (show (pairNetwork.run KeyNetwork.Uncontested pairNetwork.init rotationRun).any _ = true by
      decide +kernel)
  exact ⟨s, hs, hp, group_keys_agree hr⟩

/-- Two members that rotate at once hold different keys at epoch 1, and `B` does not decrypt what `A`
encrypts there. -/
theorem concurrent_rotations_disagree :
    ∃ s, pairNetwork.run (fun _ _ => True) pairNetwork.init contestedRun = some s ∧
      (s.keyAt podA.1 (.ofNat 1) = some 2 ∧ s.keyAt podB.1 (.ofNat 1) = some 3 ∧
        s.encrypted.map (fun x => (x.epoch, x.ciphertext)) = [(.ofNat 1, (2, 0, 7))] ∧
        (s.managers.get? podB.1).map (fun m => m.decrypt plainCipher (2, 0, 7) 0 (.ofNat 1)) =
          some (.error .operation)) ∧ ¬ KeyAgreement s := by
  obtain ⟨s, hs, -, hp⟩ := Machine.exists_of_run
    (P := fun s : KeyNetwork ℕ plainCipher =>
      s.keyAt podA.1 (.ofNat 1) = some 2 ∧ s.keyAt podB.1 (.ofNat 1) = some 3 ∧
        s.encrypted.map (fun x => (x.epoch, x.ciphertext)) = [(.ofNat 1, (2, 0, 7))] ∧
        (s.managers.get? podB.1).map (fun m => m.decrypt plainCipher (2, 0, 7) 0 (.ofNat 1)) =
          some (.error .operation))
    (show (pairNetwork.run (fun _ _ => True) pairNetwork.init contestedRun).any _ = true by
      decide +kernel)
  refine ⟨s, hs, hp, fun h => ?_⟩
  obtain ⟨mA, hmA, hkA⟩ := Option.bind_eq_some_iff.mp hp.1
  obtain ⟨mB, hmB, hkB⟩ := Option.bind_eq_some_iff.mp hp.2.1
  obtain ⟨gA, hgA, hA⟩ := GroupKeyManager.heldKey_eq_some.mp hkA
  obtain ⟨gB, hgB, hB⟩ := GroupKeyManager.heldKey_eq_some.mp hkB
  have hsame := h.1 _ _ mA mB hmA hmB (.ofNat 1) gA gB hgA hgB
  rw [hA, hB] at hsame
  exact absurd hsame (by decide)

end BrowserMesh.Core
