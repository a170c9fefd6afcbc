import BrowserMesh.Apps.MeshKv

/-! # Reading one's own writes

* **Reading.**  `get` and `keys` show the live entries of the map.
* **Acceptance.**  A write, local or merged, is accepted if it is newer than the entry that the store has (`Accepts`); until
  then an entry stays as it is (`get?_step_of_not_accepts`).
* **Results.**  A local write is read back exactly if it is accepted; the local clock is not moved past the timestamps of
  merged entries (`reads_own_writes`). -/

namespace BrowserMesh.Apps.MeshKv
open Js BrowserMesh.Core Primitives Transition

variable {T V : Type}

/-! ### Reading -/

/-- `api.get`; `none` for `undefined`. -/
def get (m : MeshKv T V) (key : JsString) : Option V := (m.doc.crdt.get? key).bind fun r => r.value.value?

/-- `api.keys`. -/
def keys (m : MeshKv T V) (keyPrefix : JsString) : List JsString :=
  (((m.doc.crdt.entries.insertionSort (byRank Prod.fst)).filter fun e => e.2.value.value?.isSome).map Prod.fst).filter
    fun key => keyPrefix.isPrefixOf key

theorem mem_keys {m : MeshKv T V} {key keyPrefix : JsString} :
    key ∈ m.keys keyPrefix ↔ keyPrefix.isPrefixOf key = true ∧ (m.get key).isSome = true := by
  simp only [keys, get, List.mem_filter, List.mem_map, List.mem_insertionSort]
  constructor
  · rintro ⟨⟨⟨key', r⟩, ⟨hmem, hlive⟩, rfl⟩, hpre⟩
    rw [JsMap.mem_entries_iff.mp hmem]
    exact ⟨hpre, hlive⟩
  · rintro ⟨hpre, hlive⟩
    cases hget : m.doc.crdt.get? key with
    | none =>
        rw [hget] at hlive
        cases hlive
    | some r =>
        rw [hget] at hlive
        exact ⟨⟨(key, r), ⟨JsMap.mem_entries_iff.mpr hget, hlive⟩, rfl⟩, hpre⟩

/-! ### Acceptance -/

variable (o : Operators T)

/-- A write of the key with this timestamp, by this node, is newer than the entry that the store has. -/
def Beats (m : MeshKv T V) (key : JsString) (timestamp : T) (nodeId : JsString) : Prop :=
  ∀ r, m.doc.crdt.get? key = some r → newer o timestamp nodeId r.timestamp r.nodeId = some true

def BeatsNow (m : MeshKv T V) (key : JsString) (now : JsNumber) : Prop :=
  m.Beats o key (o.ofNumber (m.nextTimestamp now)) m.podId

/-- A write of the key is accepted: a local one that is newer, or an entry of a message that passes the gate and is newer. -/
def Accepts (m : MeshKv T V) (key : JsString) : KvEvent T V → Prop
  | .set key' _ now => key' = key ∧ m.BeatsNow o key now
  | .delete key' now => key' = key ∧ m.BeatsNow o key now
  | .incoming fromPubKey data now => ∃ payload rawEntries e, data.payload = some payload ∧
      payload.entries = some rawEntries ∧ rawEntries.props.get? key = some (some e) ∧ e.nodeId = some fromPubKey ∧
      m.MayWrite fromPubKey now ∧ m.Beats o key (e.timestamp.getD (o.ofNumber 0)) fromPubKey
  | _ => False

/-- The call returns: the comparison with the entry that the store has does not throw. -/
def Returns (m : MeshKv T V) (key : JsString) (now : JsNumber) : Prop :=
  ∀ r, m.doc.crdt.get? key = some r →
    newer o (o.ofNumber (m.nextTimestamp now)) m.podId r.timestamp r.nodeId ≠ none

/-- The key reads as the value: it is found and listed, or `undefined` and not listed. -/
structure ReadsAs (m : MeshKv T V) (key : JsString) (value : Option V) : Prop where
  get : m.get key = value
  keys : ∀ keyPrefix, key ∈ m.keys keyPrefix ↔ keyPrefix.isPrefixOf key = true ∧ value.isSome = true

theorem readsAs_get (m : MeshKv T V) (key : JsString) : m.ReadsAs key (m.get key) := ⟨rfl, fun _ => mem_keys⟩

section writes
variable [HasNull V] {o}
variable {m : MeshKv T V} {key : JsString} {value : Entry V} {now : JsNumber}

theorem localWrite_of_beats (hvalue : Defined value) (h : m.BeatsNow o key now) :
    (m.localWrite o key value now).1.doc.crdt.get? key = some ⟨value, o.ofNumber (m.nextTimestamp now), m.podId⟩ := by
  have hvalue : HasNull.orNull value = value := hvalue
  rw [localWrite]
  dsimp only
  rw [Document.update, write]
  cases hget : m.doc.crdt.get? key with
  | none =>
      dsimp only
      rw [JsMap.get?_set, if_pos rfl, Register.construct, hvalue]
  | some r =>
      dsimp only
      rw [Register.set, h r hget]
      exact (JsMap.get?_set _ _ _ _).trans (if_pos rfl)

theorem get?_localWrite {key' : JsString} (h : key = key' → ¬ m.BeatsNow o key' now) :
    (m.localWrite o key value now).1.doc.crdt.get? key' = m.doc.crdt.get? key' := by
  rw [localWrite]
  dsimp only
  rw [Document.update, write]
  by_cases hkey : key = key'
  · subst hkey
    cases hget : m.doc.crdt.get? key with
    | none => exact absurd (fun r hr => by rw [hget] at hr; cases hr) (h rfl)
    | some r =>
        dsimp only
        rw [Register.set]
        cases hwins : newer o (o.ofNumber (m.nextTimestamp now)) m.podId r.timestamp r.nodeId with
        | none => exact hget
        | some wins =>
            cases wins with
            | false => exact (JsMap.get?_set _ _ _ _).trans (if_pos rfl)
            | true =>
                refine absurd (fun r' hr' => ?_) (h rfl)
                rw [← Option.some.inj (hget.symm.trans hr')]
                exact hwins
  · have hne : ¬ key' = key := fun heq => hkey heq.symm
    cases m.doc.crdt.get? key with
    | none => exact (JsMap.get?_set _ _ _ _).trans (if_neg hne)
    | some r =>
        dsimp only
        cases r.set o value (o.ofNumber (m.nextTimestamp now)) m.podId with
        | none => rfl
        | some r' => exact (JsMap.get?_set _ _ _ _).trans (if_neg hne)

theorem get?_step_of_not_accepts {r : Register T V}
    (hget : m.doc.crdt.get? key = some r) (hdefined : Defined r.value) {event : KvEvent T V}
    (h : ¬ m.Accepts o key event) : (m.step o event).doc.crdt.get? key = some r := by
  cases event with
  | set key' value now => exact (get?_localWrite fun hkey hbeats => h ⟨hkey, hbeats⟩).trans hget
  | delete key' now => exact (get?_localWrite fun hkey hbeats => h ⟨hkey, hbeats⟩).trans hget
  | watch pubKey => exact hget
  | unwatch pubKey => exact hget
  | registry registry => exact hget
  | incoming fromPubKey data now =>
      rw [step]
      rcases onIncomingData_cases (o := o) m fromPubKey data now with hsame | ⟨payload, raw, hpayload, hraw, hmerged⟩
      · rw [hsame]
        exact hget
      rw [hmerged]
      rcases merge_cases_maps (o := o) m.doc (m.sanitizedEntries fromPubKey now raw) payload.version with
        hsame | ⟨-, crdt, -, -, hmaps, hcrdt⟩
      · rw [hsame]
        exact hget
      dsimp only
      rw [hcrdt]
      obtain ⟨t, ht, hheld⟩ := get?_mergeMaps_own hmaps hget
      rw [hheld]
      rw [mergeRegister] at ht
      cases hother : (fromJSON o (m.sanitizedEntries fromPubKey now raw)).get? key with
      | none =>
          rw [hother] at ht
          rw [← Option.some.inj ht, copy_of_defined hdefined]
      | some s =>
          rw [hother] at ht
          obtain ⟨wins, hwins, rfl⟩ := Option.map_eq_some_iff.mp ht
          cases wins with
          | false => rw [if_neg Bool.false_ne_true, copy_of_defined hdefined]
          | true =>
              obtain ⟨e, he, rfl⟩ := get?_fromJSON hother
              obtain ⟨hcarried, hwriter⟩ := mem_sanitizedEntries he
              have hmay : m.MayWrite fromPubKey now := by
                by_contra hdenied
                rw [sanitizedEntries_of_not_mayWrite hdenied] at he
                cases he
              refine absurd ⟨payload, raw, e, hpayload, hraw, hcarried, hwriter, hmay, fun r' hr' => ?_⟩ h
              rw [← Option.some.inj (hget.symm.trans hr')]
              rw [WireEntry.register, Register.construct, hwriter] at hwins
              exact hwins

theorem get?_run_of_not_accepts {r : Register T V}
    (hget : m.doc.crdt.get? key = some r) (hdefined : Defined r.value) {events : List (KvEvent T V)}
    (h : (machine o m.storeId m.podId m.registry).Along (fun m event => ¬ m.Accepts o key event) m events) :
    (m.run o events).doc.crdt.get? key = some r := by
  have hrun : ∀ (start : MeshKv T V) (events : List (KvEvent T V)) (m : MeshKv T V),
      m.doc.crdt.get? key = some r →
      (machine o start.storeId start.podId start.registry).Along (fun m event => ¬ m.Accepts o key event) m events →
      (m.run o events).doc.crdt.get? key = some r := by
    intro start events
    induction events with
    | nil => exact fun m hget _ => hget
    | cons event events ih =>
        intro m hget hall
        obtain ⟨hfirst, hrest⟩ := hall (m.step o event) rfl
        exact ih (m.step o event) (get?_step_of_not_accepts hget hdefined hfirst) hrest
  exact hrun m events m hget h

theorem readsAs_run_of_beats (hvalue : Defined value) (hbeats : m.BeatsNow o key now) {events : List (KvEvent T V)}
    (h : (machine o m.storeId m.podId m.registry).Along (fun m event => ¬ m.Accepts o key event)
      (m.localWrite o key value now).1 events) :
    ((m.localWrite o key value now).1.run o events).ReadsAs key value.value? := by
  have hkept := get?_run_of_not_accepts (localWrite_of_beats hvalue hbeats) hvalue h
  have hread : ((m.localWrite o key value now).1.run o events).get key = value.value? := by
    rw [get, hkept]
    rfl
  rw [← hread]
  exact readsAs_get _ key

theorem readsAs_of_not_beats (hbeats : ¬ m.BeatsNow o key now) (key' : JsString) :
    (m.localWrite o key value now).1.ReadsAs key' (m.get key') := by
  have hread : (m.localWrite o key value now).1.get key' = m.get key' := by
    rw [get, get, get?_localWrite fun hkey => hkey ▸ hbeats]
  rw [← hread]
  exact readsAs_get _ key'

end writes

/-- **Reading one's own writes.**  From every state, a `set` of a defined value and a `delete` are read back until
another write of the key is accepted if they are newer than the entry that the store has; else what the key reads as
stays. -/
theorem reads_own_writes [HasNull V] (o : Operators T) (m : MeshKv T V) (key : JsString) (now : JsNumber) :
    (m.BeatsNow o key now →
      (∀ value, Defined value → ∀ events,
        (machine o m.storeId m.podId m.registry).Along (fun m event => ¬ m.Accepts o key event)
          (m.step o (.set key value now)) events →
        ((m.step o (.set key value now)).run o events).ReadsAs key (some value)) ∧
      ∀ events,
        (machine o m.storeId m.podId m.registry).Along (fun m event => ¬ m.Accepts o key event)
          (m.step o (.delete key now)) events →
        ((m.step o (.delete key now)).run o events).ReadsAs key none) ∧
    (¬ m.BeatsNow o key now → ∀ key',
      (∀ value, (m.step o (.set key value now)).ReadsAs key' (m.get key')) ∧
      (m.step o (.delete key now)).ReadsAs key' (m.get key')) := by
  refine ⟨fun hbeats => ⟨fun value hvalue events h => ?_, fun events h => ?_⟩, fun hbeats key' => ⟨fun value => ?_, ?_⟩⟩
  · have hlive : Defined (Entry.live value) := congrArg Entry.live hvalue
    exact readsAs_run_of_beats hlive hbeats h
  · have htombstone : Defined (Entry.tombstone : Entry V) := rfl
    exact readsAs_run_of_beats htombstone hbeats h
  · exact readsAs_of_not_beats hbeats key'
  · exact readsAs_of_not_beats hbeats key'

def alices : MeshKv JsNumber (JsValue ℕ) := attach JsNumber (JsValue ℕ) (js "s") (js "alice") bobWrites

theorem reads_own_writes_first :
    ((alices.step .numbers (.set (js "k") (.of 1) (.ofNat 12))).run .numbers
      [.incoming (js "bob") (oneEntry (js "bob") (js "k") (.of 2)) (.ofNat 13)]).ReadsAs (js "k") (some (.of 1)) := by
  refine ((reads_own_writes .numbers alices (js "k") (.ofNat 12)).1 (fun r hr => ?_)).1 (.of 1) rfl _ ?_
  · cases hr
  · rintro m' hm'
    refine ⟨?_, trivial⟩
    rintro ⟨payload, raw, e, hpayload, hraw, he, -, -, hbeats⟩
    obtain rfl := Option.some.inj hpayload
    obtain rfl := Option.some.inj hraw
    -- Bob's entry bears the stamp 0
    have hentry : (JsObject.empty.assign (js "k") (some (⟨.of 2, some 0, some (js "bob"), false⟩ :
        WireEntry JsNumber (JsValue ℕ)))).props.get? (js "k") = some (some ⟨.of 2, some 0, some (js "bob"), false⟩) := by
      decide +kernel
    obtain rfl := Option.some.inj (Option.some.inj (hentry.symm.trans he))
    have hheld : (alices.step .numbers (.set (js "k") (.of 1) (.ofNat 12))).doc.crdt.get? (js "k") =
        some ⟨.live (.of 1), .ofNat 12, js "alice"⟩ := by decide +kernel
    have holder := hbeats _ hheld
    revert holder
    decide +kernel

/-- A message of Bob's with one entry, stamped by a clock that is ahead. -/
def aheadEntry (key : JsString) (value : JsValue ℕ) : IncomingData JsNumber (JsValue ℕ) where
  docId := some (js "kv:s")
  payload := some
    { type := js "lww-map"
      entries := some (JsObject.empty.assign key (some ⟨value, some (.ofNat 100), some (js "bob"), false⟩))
      version := some JsObject.empty }

theorem own_write_lost : ¬ ∀ (storeId podId : JsString) (registry : PeerRegistry) (m : MeshKv JsNumber (JsValue ℕ)),
    (machine .numbers storeId podId registry).Reach (fun _ _ => True) m →
    ∀ key value now, Defined value → m.Returns .numbers key now →
      (m.step .numbers (.set key value now)).get key = some value := by
  intro h
  obtain ⟨m, -, hreach, hreturns, hlost⟩ := Machine.exists_of_run
    (P := fun m : MeshKv JsNumber (JsValue ℕ) =>
      (∀ r ∈ m.doc.crdt.get? (js "k"), newer .numbers (m.nextTimestamp (.ofNat 12)) m.podId r.timestamp r.nodeId ≠ none) ∧
      (m.step .numbers (.set (js "k") (.of 1) (.ofNat 12))).get (js "k") ≠ some (.of 1))
    (show ((machine .numbers (js "s") (js "alice") bobWrites).run (fun _ _ => True)
      (machine .numbers (js "s") (js "alice") bobWrites).init
      [.incoming (js "bob") (aheadEntry (js "k") (.of 2)) 0]).any _ = true by decide +kernel)
  exact hlost (h (js "s") (js "alice") bobWrites m hreach (js "k") (.of 1) (.ofNat 12) rfl hreturns)

end BrowserMesh.Apps.MeshKv
