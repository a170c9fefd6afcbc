import BrowserMesh.Library.Transition
import BrowserMesh.Library.Replication
import BrowserMesh.Sync.DeltaSync

/-! # Coordinators over a network

Pods with distinct ids change keys locally and send each other the messages of the protocol.  A message
stays in the network: it may be delivered late, repeatedly or never.

* `turn`: what an action does to the coordinator that acts; `incoming`: the entries it applies.
* `source`: for every pod and key, the entry the value comes from.  It is ghost data, read by no step,
  and it is right: the state shows what the entry wrote (`Wired.state`).
* `Wired` collects what holds in every run; `Wired.step` is its step lemma. -/

namespace BrowserMesh.Sync

open Js Transition

variable {V : Type}

structure Envelope (V : Type) where
  sender : PodId
  target : PodId
  msg : Message V
deriving DecidableEq

structure Network (V : Type) where
  coordinator : PodId → SyncCoordinator V
  /-- All messages ever sent. -/
  sent : List (Envelope V)
  /-- The entry the value of a key comes from. -/
  source : PodId → JsString → Option (DeltaEntry V)

/-- Local changes with the sequence number the module's counter gives, and protocol steps. -/
inductive DeltaAction (V : Type) where
  | set (i : PodId) (key : JsString) (value : V) (seq : ℕ) (now : ℕ+)
  | delete (i : PodId) (key : JsString) (seq : ℕ) (now : ℕ+)
  | requestSync (i j : PodId)
  /-- Deliver the `k`-th message ever sent. -/
  | deliver (k : ℕ) (now : ℕ+)

/-- The local change an action makes: the pod, the key, the operation, the sequence number, the time. -/
def DeltaAction.change : DeltaAction V → Option (PodId × JsString × DeltaOp V × ℕ × ℕ+)
  | .set i key value seq now => some (i, key, .set value, seq, now)
  | .delete i key seq now => some (i, key, .delete, seq, now)
  | _ => none

/-- The entries a message brings. -/
def received (now : ℕ+) : Message V → List (DeltaEntry V)
  | .response data => (parseEntries now data).toOption.getD []
  | _ => []

/-- The entries, applied in this order, become the sources of their keys. -/
def record (source : JsString → Option (DeltaEntry V)) (entries : List (DeltaEntry V)) :
    JsString → Option (DeltaEntry V) :=
  entries.foldl (fun source e => Function.update source e.key.1 (some e)) source

namespace Network

def log (w : Network V) (i : PodId) : List (DeltaEntry V) := (w.coordinator i).log.entries

def actor (w : Network V) : DeltaAction V → Option PodId
  | .set i .. => some i
  | .delete i .. => some i
  | .requestSync i _ => some i
  | .deliver k _ => w.sent[k]?.map Envelope.target

/-- The entries an action applies: the entry of the local change, or the received batch. -/
def incoming (w : Network V) : DeltaAction V → List (DeltaEntry V)
  | .set i key value seq now =>
      ((w.coordinator i).newEntry key (.set value) seq now).toOption.toList
  | .delete i key seq now => ((w.coordinator i).newEntry key .delete seq now).toOption.toList
  | .requestSync _ _ => []
  | .deliver k now =>
      match w.sent[k]? with
      | some env => received now env.msg
      | none => []

variable [Spread V]

/-- The pod that acts, its new coordinator and the messages it sends. -/
def turn (w : Network V) : DeltaAction V → Option (PodId × SyncCoordinator V × List (PodId × Message V))
  | .set i key value seq now =>
      ((w.coordinator i).set key value seq now).toOption.map fun c => (i, c, [])
  | .delete i key seq now => ((w.coordinator i).delete key seq now).toOption.map fun c => (i, c, [])
  | .requestSync i j => some (i, w.coordinator i, SyncCoordinator.requestSync j)
  | .deliver k now =>
      w.sent[k]?.bind fun env =>
        ((w.coordinator env.target).handleMessage env.sender now env.msg).toOption.map fun r =>
          (env.target, r)

def step (w : Network V) (a : DeltaAction V) : Option (Network V) :=
  (w.turn a).map fun (i, c, out) =>
    { coordinator := Function.update w.coordinator i c
      sent := w.sent ++ out.map fun m => ⟨i, m.1, m.2⟩
      source := Function.update w.source i (record (w.source i) (causalOrder (w.incoming a))) }

end Network

/-- The network of coordinators that all start from `initialState`. -/
def network [Spread V] (initialState : JsObject V) : Machine (Network V) (DeltaAction V) where
  init := ⟨fun i => SyncCoordinator.new i initialState, [], fun _ _ => none⟩
  step := Network.step

/-! ### Applying entries -/

/-- What an entry leaves under its key. -/
def DeltaOp.effect : DeltaOp V → Option V
  | .set value => some value
  | .delete => none
  | .merge value => some value

/-- The operation is not a `merge`; local changes never are. -/
def DeltaOp.Plain (op : DeltaOp V) : Prop := ∀ value, op ≠ .merge value

/-- What a key shows, given its source. -/
def shown (initialState : JsObject V) (k : JsString) : Option (DeltaEntry V) → Option V
  | none => initialState.props.get? k
  | some e => e.op.effect

section apply
variable [Spread V] {state : JsObject V}

theorem get?_applyEntry {e : DeltaEntry V} (he : e.op.Plain) {k : JsString} (hk : k ≠ protoKey) :
    (applyEntry state e).props.get? k = if k = e.key.1 then e.op.effect else state.props.get? k := by
  unfold applyEntry
  cases hop : e.op with
  | set value =>
      simp only [DeltaOp.effect]
      by_cases hp : e.key.1 = protoKey
      · rw [if_neg (fun h => hk (h.trans hp))]
        unfold JsObject.assign
        split_ifs
        · rfl
        · rw [JsMap.get?_set, if_neg (fun h => hk (h.trans hp))]
      · exact JsObject.get?_assign_of_ne hp value k
  | delete => exact JsMap.get?_delete state.props e.key.1 k
  | merge value => exact absurd hop (he value)

theorem get?_applyEntry_protoKey (hs : state.props.get? protoKey = none) {e : DeltaEntry V}
    (he : e.op.Plain) : (applyEntry state e).props.get? protoKey = none := by
  have hown : state.hasOwn protoKey = false := by rw [JsObject.hasOwn, JsMap.has, hs]; rfl
  unfold applyEntry
  cases hop : e.op with
  | set value =>
      simp only []
      by_cases hp : e.key.1 = protoKey
      · rw [JsObject.assign, if_pos ⟨hp, hp ▸ hown⟩, hs]
      · rw [JsObject.get?_assign_of_ne hp, if_neg (fun h => hp h.symm), hs]
  | delete =>
      refine (JsMap.get?_delete state.props e.key.1 protoKey).trans ?_
      split_ifs
      · rfl
      · exact hs
  | merge value => exact absurd hop (he value)

theorem get?_apply {initialState : JsObject V} {source : JsString → Option (DeltaEntry V)}
    {k : JsString} (hk : k ≠ protoKey) {entries : List (DeltaEntry V)}
    (hplain : ∀ e ∈ entries, e.op.Plain)
    (hs : state.props.get? k = shown initialState k (source k)) :
    (apply state entries).props.get? k = shown initialState k (record source entries k) := by
  induction entries generalizing state source with
  | nil => exact hs
  | cons e entries ih =>
      refine ih (fun e' he' => hplain e' (List.mem_cons_of_mem e he')) ?_
      rw [get?_applyEntry (hplain e List.mem_cons_self) hk]
      show _ = shown initialState k (Function.update source e.key.1 (some e) k)
      by_cases h : k = e.key.1
      · rw [if_pos h, h, Function.update_self]
        rfl
      · rw [if_neg h, Function.update_of_ne h, hs]

theorem get?_apply_protoKey {entries : List (DeltaEntry V)} (hplain : ∀ e ∈ entries, e.op.Plain)
    (hs : state.props.get? protoKey = none) : (apply state entries).props.get? protoKey = none := by
  induction entries generalizing state with
  | nil => exact hs
  | cons e entries ih =>
      exact ih (fun e' he' => hplain e' (List.mem_cons_of_mem e he'))
        (get?_applyEntry_protoKey hs (hplain e List.mem_cons_self))

end apply

/-! ### Recording entries -/

section record
variable {source : JsString → Option (DeltaEntry V)} {entries : List (DeltaEntry V)} {k : JsString}

theorem record_append (e : DeltaEntry V) :
    record source (entries ++ [e]) = Function.update (record source entries) e.key.1 (some e) := by
  simp [record]

theorem record_of_not_mem (h : ∀ f ∈ entries, f.key.1 ≠ k) : record source entries k = source k := by
  induction entries generalizing source with
  | nil => rfl
  | cons e entries ih =>
      have hne : k ≠ e.key.1 := fun hk => h e List.mem_cons_self hk.symm
      exact (ih fun f hf => h f (List.mem_cons_of_mem e hf)).trans (Function.update_of_ne hne _ _)

/-- The source of a key among the entries is the last one. -/
theorem record_last (source : JsString → Option (DeltaEntry V)) {R : DeltaEntry V → DeltaEntry V → Prop} (hR : entries.Pairwise R)
    (hk : ∃ f ∈ entries, f.key.1 = k) :
    ∃ e ∈ entries, record source entries k = some e ∧ e.key.1 = k ∧
      ∀ f ∈ entries, f.key.1 = k → f = e ∨ R f e := by
  induction entries using List.reverseRecOn with
  | nil =>
      obtain ⟨f, hf, _⟩ := hk
      cases hf
  | append_singleton entries x ih =>
      rw [List.pairwise_append] at hR
      obtain ⟨hR, -, hx⟩ := hR
      rw [record_append]
      by_cases h : x.key.1 = k
      · refine ⟨x, by simp, by rw [← h, Function.update_self], h, fun f hf _ => ?_⟩
        rcases List.mem_append.mp hf with hf | hf
        · exact Or.inr (hx f hf x (List.mem_singleton_self x))
        · exact Or.inl (List.mem_singleton.mp hf)
      · obtain ⟨f, hf, hfk⟩ := hk
        have hold : ∀ f ∈ entries ++ [x], f.key.1 = k → f ∈ entries := by
          intro f hf hfk
          rcases List.mem_append.mp hf with hf | hf
          · exact hf
          · exact absurd (List.mem_singleton.mp hf ▸ hfk) h
        obtain ⟨e, he, hrec, hek, hlast⟩ := ih hR ⟨f, hold f hf hfk, hfk⟩
        refine ⟨e, List.mem_append_left _ he, ?_, hek, fun f hf hfk => hlast f (hold f hf hfk) hfk⟩
        rw [Function.update_of_ne (fun h' => h h'.symm), hrec]

end record

theorem mem_causalOrder {entries : List (DeltaEntry V)} {e : DeltaEntry V} :
    e ∈ causalOrder entries ↔ e ∈ entries :=
  List.mem_insertionSort _

theorem pairwise_causalOrder (entries : List (DeltaEntry V)) :
    (causalOrder entries).Pairwise fun e f => e.rank ≤ f.rank :=
  List.pairwise_insertionSort (byRank DeltaEntry.rank) entries

/-! ### What holds in every run -/

/-- The bookkeeping of a network whose entries all satisfy `P`. -/
structure Wired (P : DeltaEntry V → Prop) (initialState : JsObject V) (w : Network V) : Prop where
  pod : ∀ i, (w.coordinator i).localPodId = i
  unbounded : ∀ i, (w.coordinator i).log.maxSize = 0
  plain : ∀ i, ∀ e ∈ w.log i, e.op.Plain ∧ P e
  /-- Messages carry entries of the logs. -/
  messages : ∀ env ∈ w.sent, ∃ es : List (DeltaEntry V), env.msg.entries = es.map DeltaEntry.toJSON ∧
    ∀ e ∈ es, e.op.Plain ∧ P e
  source_mem : ∀ i k e, w.source i k = some e → e ∈ w.log i ∧ e.key.1 = k
  source_none : ∀ i k, w.source i k = none → ∀ e ∈ w.log i, e.key.1 ≠ k
  /-- The state shows what the sources wrote. -/
  state : ∀ i, ∀ k ≠ protoKey,
    (w.coordinator i).state.props.get? k = shown initialState k (w.source i k)
  /-- Assigning `__proto__` makes no property. -/
  proto : initialState.hasOwn protoKey = false →
    ∀ i, (w.coordinator i).state.props.get? protoKey = none

/-- What one coordinator does in its turn: it appends the incoming entries, applies them in
their order, and sends entries of its log or of messages. -/
structure Turn (P : DeltaEntry V → Prop) [Spread V] (w : Network V) (i : PodId)
    (c : SyncCoordinator V) (out : List (PodId × Message V)) (entries : List (DeltaEntry V)) : Prop where
  pod : c.localPodId = i
  log : c.log = ⟨w.log i ++ entries, 0⟩
  state : c.state = applyCausal (w.coordinator i).state entries
  plain : ∀ e ∈ entries, e.op.Plain ∧ P e
  out : ∀ m ∈ out, ∃ es : List (DeltaEntry V), m.2.entries = es.map DeltaEntry.toJSON ∧
    ∀ e ∈ es, e.op.Plain ∧ P e

/-! ### Turns -/

theorem newEntry_spec {c : SyncCoordinator V} {key : JsString} {op : DeltaOp V} {seq : ℕ} {now : ℕ+}
    {e : DeltaEntry V} (h : c.newEntry key op seq now = .ok e) :
    e.key.1 = key ∧ e.op = op ∧ e.origin = c.localPodId ∧ e.seq = seq := by
  unfold SyncCoordinator.newEntry DeltaEntry.construct at h
  split at h
  · cases h
  · split at h
    · cases h
    · obtain rfl := Except.ok.inj h
      exact ⟨rfl, rfl, rfl, rfl⟩

section wired
variable [Spread V] {P : DeltaEntry V → Prop} {initialState : JsObject V} {w : Network V}

/-- A local change appends its entry and applies it. -/
structure LocalChange (c c' : SyncCoordinator V) (e : DeltaEntry V) : Prop where
  pod : c'.localPodId = c.localPodId
  log : c'.log = c.log.append e
  state : c'.state = applyEntry c.state e

variable {c : SyncCoordinator V}

theorem set_spec {c' : SyncCoordinator V} {key : JsString} {value : V} {seq : ℕ} {now : ℕ+}
    (h : c.set key value seq now = .ok c') :
    ∃ e, c.newEntry key (.set value) seq now = .ok e ∧ LocalChange c c' e := by
  unfold SyncCoordinator.set at h
  cases he : c.newEntry key (.set value) seq now with
  | error x => rw [he] at h; cases h
  | ok e =>
      rw [he] at h
      obtain rfl := Except.ok.inj h
      obtain ⟨hk, hop, -, -⟩ := newEntry_spec he
      exact ⟨e, rfl, rfl, rfl, by rw [applyEntry, hop, hk]⟩

theorem delete_spec {c' : SyncCoordinator V} {key : JsString} {seq : ℕ} {now : ℕ+}
    (h : c.delete key seq now = .ok c') :
    ∃ e, c.newEntry key .delete seq now = .ok e ∧ LocalChange c c' e := by
  unfold SyncCoordinator.delete at h
  cases he : c.newEntry key .delete seq now with
  | error x => rw [he] at h; cases h
  | ok e =>
      rw [he] at h
      obtain rfl := Except.ok.inj h
      obtain ⟨hk, hop, -, -⟩ := newEntry_spec he
      exact ⟨e, rfl, rfl, rfl, by rw [applyEntry, hop, hk]⟩

theorem applyCausal_singleton (state : JsObject V) (e : DeltaEntry V) :
    applyCausal state [e] = applyEntry state e := by
  simp [applyCausal, causalOrder, apply]

omit [Spread V] in
theorem Wired.log_eq (hw : Wired P initialState w) (i : PodId) :
    (w.coordinator i).log = ⟨w.log i, 0⟩ := by
  rw [← hw.unbounded i]
  rfl

theorem Wired.turn_local (hw : Wired P initialState w) {i : PodId}
    {e : DeltaEntry V} (h : LocalChange (w.coordinator i) c e) (he : e.op.Plain ∧ P e) :
    Turn P w i c [] [e] where
  pod := h.pod.trans (hw.pod i)
  log := by rw [h.log, DeltaLog.append_of_unbounded (hw.unbounded i)]; rfl
  state := by rw [h.state, applyCausal_singleton]
  plain e' he' := List.mem_singleton.mp he' ▸ he
  out m hm := by cases hm

variable {out : List (PodId × Message V)}

/-- A coordinator whose log and state stay sends entries of its log, or those of a message. -/
theorem Wired.turn_quiet (hw : Wired P initialState w) {i : PodId}
    (hpod : c.localPodId = (w.coordinator i).localPodId)
    (hlog : c.log = (w.coordinator i).log) (hstate : c.state = (w.coordinator i).state)
    (hout : ∀ m ∈ out, ∃ es : List (DeltaEntry V), m.2.entries = es.map DeltaEntry.toJSON ∧
      ∀ e ∈ es, e.op.Plain ∧ P e) : Turn P w i c out [] where
  pod := hpod.trans (hw.pod i)
  log := by rw [hlog, hw.log_eq, List.append_nil]
  state := hstate
  plain e he := by cases he
  out := hout

omit [Spread V] in
theorem Wired.parse (hw : Wired P initialState w) {env : Envelope V} (henv : env ∈ w.sent) (now : ℕ+) :
    ∃ es, parseEntries now env.msg.entries = .ok es ∧ env.msg.entries = es.map DeltaEntry.toJSON ∧
      ∀ e ∈ es, e.op.Plain ∧ P e := by
  obtain ⟨es, hes, hp⟩ := hw.messages env henv
  exact ⟨es, by rw [hes, parseEntries_map_toJSON], hes, hp⟩

theorem Wired.turn_deliver (hw : Wired P initialState w) {env : Envelope V} (henv : env ∈ w.sent) {now : ℕ+}
    (h : (w.coordinator env.target).handleMessage env.sender now env.msg = .ok (c, out)) :
    Turn P w env.target c out (received now env.msg) := by
  obtain ⟨es, hparse, hes, hgood⟩ := hw.parse henv now
  cases hm : env.msg with
  | request =>
      rw [hm] at h
      obtain ⟨rfl, rfl⟩ := Prod.mk.inj (Except.ok.inj h)
      refine hw.turn_quiet rfl rfl rfl fun m hm => ?_
      rw [List.mem_singleton.mp hm]
      refine ⟨_, rfl, fun e he => hw.plain env.target e ?_⟩
      exact List.mem_of_mem_filter he
  | response data =>
      rw [hm] at h hparse hes
      replace hparse : parseEntries now data = .ok es := hparse
      simp only [SyncCoordinator.handleMessage, hparse] at h
      obtain ⟨rfl, rfl⟩ := Prod.mk.inj (Except.ok.inj h)
      have hr : received now (.response data) = es := by simp [received, hparse, Except.toOption]
      rw [hr]
      exact {
        pod := hw.pod env.target
        log := DeltaLog.appendAll_of_unbounded (hw.unbounded env.target) es
        state := rfl
        plain := hgood
        out := fun m hm => by
          rw [List.mem_singleton.mp hm]
          exact ⟨es, hes, hgood⟩ }
  | ack data =>
      rw [hm] at h hparse
      replace hparse : parseEntries now data = .ok es := hparse
      simp only [SyncCoordinator.handleMessage, hparse] at h
      split at h <;> obtain ⟨rfl, rfl⟩ := Prod.mk.inj (Except.ok.inj h) <;>
        exact hw.turn_quiet rfl rfl rfl fun m hm => by cases hm

variable {a : DeltaAction V}

/-- What an action does, if the entries of local changes satisfy `P`. -/
theorem Wired.turn (hw : Wired P initialState w)
    (hlocal : ∀ i key op seq now e, a.change = some (i, key, op, seq, now) →
      (w.coordinator i).newEntry key op seq now = .ok e → P e) {i : PodId} (h : w.turn a = some (i, c, out)) :
    w.actor a = some i ∧ Turn P w i c out (w.incoming a) := by
  cases a with
  | set j key value seq now =>
      obtain ⟨c', hc, hr⟩ := Option.map_eq_some_iff.mp h
      obtain ⟨rfl, rfl, rfl⟩ : j = i ∧ c' = c ∧ [] = out := by simpa using hr
      obtain ⟨e, he, hlc⟩ := set_spec (Replication.toOption_eq_some hc)
      have hin : w.incoming (.set j key value seq now) = [e] := by
        simp [Network.incoming, he, Except.toOption]
      rw [hin]
      refine ⟨rfl, hw.turn_local hlc ⟨?_, hlocal _ _ _ _ _ e rfl he⟩⟩
      rw [(newEntry_spec he).2.1]
      exact fun v hv => by cases hv
  | delete j key seq now =>
      obtain ⟨c', hc, hr⟩ := Option.map_eq_some_iff.mp h
      obtain ⟨rfl, rfl, rfl⟩ : j = i ∧ c' = c ∧ [] = out := by simpa using hr
      obtain ⟨e, he, hlc⟩ := delete_spec (Replication.toOption_eq_some hc)
      have hin : w.incoming (.delete j key seq now) = [e] := by
        simp [Network.incoming, he, Except.toOption]
      rw [hin]
      refine ⟨rfl, hw.turn_local hlc ⟨?_, hlocal _ _ _ _ _ e rfl he⟩⟩
      rw [(newEntry_spec he).2.1]
      exact fun v hv => by cases hv
  | requestSync j k =>
      obtain ⟨rfl, rfl, rfl⟩ :
          j = i ∧ w.coordinator j = c ∧ SyncCoordinator.requestSync k = out := by
        simpa [Network.turn] using h
      refine ⟨rfl, hw.turn_quiet rfl rfl rfl fun m hm => ?_⟩
      rw [List.mem_singleton.mp hm]
      exact ⟨[], rfl, fun e he => by cases he⟩
  | deliver k now =>
      obtain ⟨env, henv, h⟩ := Option.bind_eq_some_iff.mp h
      obtain ⟨⟨c', out'⟩, hc, hr⟩ := Option.map_eq_some_iff.mp h
      obtain ⟨rfl, rfl, rfl⟩ : env.target = i ∧ c' = c ∧ out' = out := by simpa using hr
      refine ⟨by simp [Network.actor, henv], ?_⟩
      have hin : w.incoming (.deliver k now) = received now env.msg := by
        simp only [Network.incoming, henv]
      rw [hin]
      exact hw.turn_deliver (List.mem_of_getElem? henv) (Replication.toOption_eq_some hc)

variable {w' : Network V}

theorem step_cases (h : (network initialState).step w a = some w') :
    ∃ i c out, w.turn a = some (i, c, out) ∧
      w' = { coordinator := Function.update w.coordinator i c
             sent := w.sent ++ out.map fun m => ⟨i, m.1, m.2⟩
             source := Function.update w.source i
               (record (w.source i) (causalOrder (w.incoming a))) } := by
  obtain ⟨⟨i, c, out⟩, ht, rfl⟩ := Option.map_eq_some_iff.mp h
  exact ⟨i, c, out, ht, rfl⟩

/-- What a step does to the logs and the sources. -/
theorem Wired.step_spec (hw : Wired P initialState w)
    (hlocal : ∀ i key op seq now e, a.change = some (i, key, op, seq, now) →
      (w.coordinator i).newEntry key op seq now = .ok e → P e) (h : (network initialState).step w a = some w') :
    ∃ i, w.actor a = some i ∧ (∀ e ∈ w.incoming a, e.op.Plain ∧ P e) ∧
      w'.log i = w.log i ++ w.incoming a ∧
      w'.source i = record (w.source i) (causalOrder (w.incoming a)) ∧
      ∀ j ≠ i, w'.log j = w.log j ∧ w'.source j = w.source j := by
  obtain ⟨i, c, out, ht, rfl⟩ := step_cases h
  obtain ⟨hi, hturn⟩ := hw.turn hlocal ht
  refine ⟨i, hi, hturn.plain, ?_, Function.update_self _ _ _, fun j hj => ⟨?_, ?_⟩⟩
  · simp [Network.log, hturn.log]
  · simp [Network.log, Function.update_of_ne hj]
  · exact Function.update_of_ne hj _ _

theorem Wired.init : Wired P initialState (network initialState).init where
  pod _ := rfl
  unbounded _ := rfl
  plain i e he := by cases he
  messages env henv := by cases henv
  source_mem i k e he := by cases he
  source_none i k _ e he := by cases he
  state i k _ := rfl
  proto hproto i := by
    show initialState.props.get? protoKey = none
    simpa [JsObject.hasOwn, JsMap.has] using hproto

theorem Wired.step (hw : Wired P initialState w)
    (hlocal : ∀ i key op seq now e, a.change = some (i, key, op, seq, now) →
      (w.coordinator i).newEntry key op seq now = .ok e → P e)
    (h : (network initialState).step w a = some w') : Wired P initialState w' := by
  obtain ⟨i, c, out, ht, rfl⟩ := step_cases h
  obtain ⟨-, hturn⟩ := hw.turn hlocal ht
  have hplain : ∀ e ∈ causalOrder (w.incoming a), e.op.Plain :=
    fun e he => (hturn.plain e (mem_causalOrder.mp he)).1
  have hsrc : ∀ k, (∃ f ∈ w.incoming a, f.key.1 = k) →
      ∃ e ∈ w.incoming a, record (w.source i) (causalOrder (w.incoming a)) k = some e ∧ e.key.1 = k := by
    rintro k ⟨f, hf, hk⟩
    obtain ⟨e, he, hrec, hek, -⟩ := record_last (w.source i)
      (pairwise_causalOrder (w.incoming a)) ⟨f, mem_causalOrder.mpr hf, hk⟩
    exact ⟨e, mem_causalOrder.mp he, hrec, hek⟩
  have hold : ∀ k, (¬ ∃ f ∈ w.incoming a, f.key.1 = k) →
      record (w.source i) (causalOrder (w.incoming a)) k = w.source i k := by
    intro k hk
    exact record_of_not_mem fun f hf hfk => hk ⟨f, mem_causalOrder.mp hf, hfk⟩
  -- what the pod's own fields become, the other pods keep theirs
  constructor
  · intro j
    by_cases hj : j = i
    · subst hj; simpa using hturn.pod
    · simpa [Function.update_of_ne hj] using hw.pod j
  · intro j
    by_cases hj : j = i
    · subst hj; simp [hturn.log]
    · simpa [Function.update_of_ne hj] using hw.unbounded j
  · intro j e he
    by_cases hj : j = i
    · subst hj
      simp only [Network.log, Function.update_self, hturn.log, List.mem_append] at he
      exact he.elim (hw.plain j e) (hturn.plain e)
    · exact hw.plain j e (by simpa [Network.log, Function.update_of_ne hj] using he)
  · intro env henv
    rcases List.mem_append.mp henv with henv | henv
    · exact hw.messages env henv
    · obtain ⟨m, hm, rfl⟩ := List.mem_map.mp henv
      exact hturn.out m hm
  · intro j k e he
    by_cases hj : j = i
    · subst hj
      simp only [Network.log, Function.update_self, hturn.log, List.mem_append] at he ⊢
      by_cases hk : ∃ f ∈ w.incoming a, f.key.1 = k
      · obtain ⟨e', he', hrec, hek⟩ := hsrc k hk
        obtain rfl := Option.some.inj (hrec.symm.trans he)
        exact ⟨Or.inr he', hek⟩
      · obtain ⟨hmem, hek⟩ := hw.source_mem j k e ((hold k hk).symm.trans he)
        exact ⟨Or.inl hmem, hek⟩
    · simp only [Network.log, Function.update_of_ne hj] at he ⊢
      exact hw.source_mem j k e he
  · intro j k hnone e he hek
    by_cases hj : j = i
    · subst hj
      simp only [Network.log, Function.update_self, hturn.log, List.mem_append] at he hnone
      by_cases hk : ∃ f ∈ w.incoming a, f.key.1 = k
      · obtain ⟨e', -, hrec, -⟩ := hsrc k hk
        rw [hrec] at hnone
        cases hnone
      · rcases he with he | he
        · exact hw.source_none j k ((hold k hk).symm.trans hnone) e he hek
        · exact hk ⟨e, he, hek⟩
    · simp only [Network.log, Function.update_of_ne hj] at he hnone
      exact hw.source_none j k hnone e he hek
  · intro j k hk
    by_cases hj : j = i
    · subst hj
      simp only [Function.update_self, hturn.state]
      exact get?_apply hk hplain (hw.state j k hk)
    · simpa [Function.update_of_ne hj] using hw.state j k hk
  · intro hproto j
    by_cases hj : j = i
    · subst hj
      simp only [Function.update_self, hturn.state]
      exact get?_apply_protoKey hplain (hw.proto hproto j)
    · simpa [Function.update_of_ne hj] using hw.proto hproto j

end wired
end BrowserMesh.Sync
