import BrowserMesh.Js.Dict
import BrowserMesh.Js.Number
import BrowserMesh.Library.LastWriter

/-! # Memory of agents

* `AgentMemorySync`: the entries of an agent by their keys, the strategy for conflicts, and the conflicts that are left
  to the user.
* `merge`: every entry of the remote state is taken, kept out, stored beside the local one or recorded as a conflict.
* `merge_lww`: under the strategy `lww` the merged state has at every key the cell with the greater timestamp, the local
  one on a tie.  `lww_exchange_iff` says when an exchange leaves the two sides with the same state. -/

namespace BrowserMesh.Sync

open Js

/-! ### Entries -/

/-- What `Date.now()` gives. -/
abbrev Clock : Type := {t : JsNumber // t.truthy = true}

structure MemoryEntry (V : Type) where
  key : JsString
  value : Option V
  category : JsString
  timestamp : JsNumber
  podId : JsString
  tombstone : Bool
  named : key ≠ []
  stamped : timestamp.truthy = true
deriving DecidableEq

/-- An entry as a plain object. -/
structure EntryRecord (V : Type) where
  key : JsString
  value : Option V
  category : Option JsString
  timestamp : Option JsNumber
  podId : Option JsString
  tombstone : Bool

variable {V : Type}

/-- `timestamp || Date.now()`. -/
def orNow (timestamp : Option JsNumber) (now : Clock) : Clock :=
  match timestamp with
  | none => now
  | some t => if h : t.truthy = true then ⟨t, h⟩ else now

/-- `new MemoryEntry(opts)`; `none` for the error. -/
def newMemoryEntry (now : Clock) (r : EntryRecord V) : Option (MemoryEntry V) :=
  if h : r.key ≠ [] then
    some ⟨r.key, r.value, r.category.getD (js "core"), (orNow r.timestamp now).1, r.podId.getD [], r.tombstone, h,
      (orNow r.timestamp now).2⟩
  else none

namespace MemoryEntry

def toJSON (e : MemoryEntry V) : EntryRecord V :=
  ⟨e.key, e.value, some e.category, some e.timestamp, some e.podId, e.tombstone⟩

theorem newMemoryEntry_toJSON (now : Clock) (e : MemoryEntry V) : newMemoryEntry now e.toJSON = some e := by
  have hnow : orNow e.toJSON.timestamp now = ⟨e.timestamp, e.stamped⟩ := dif_pos e.stamped
  have hnamed : e.toJSON.key ≠ [] := e.named
  unfold newMemoryEntry
  rw [dif_pos hnamed]
  simp only [hnow]
  rfl

def suffixedKey (key : JsString) : JsString := key ++ js "__conflict_1"

theorem suffixedKey_ne_nil (key : JsString) : suffixedKey key ≠ [] :=
  List.append_ne_nil_of_right_ne_nil _ (by decide)

/-- The entry under the suffixed key. -/
def suffixed (e : MemoryEntry V) : MemoryEntry V :=
  { e with key := suffixedKey e.key, named := suffixedKey_ne_nil e.key }

theorem timestamp_ne_nan (e : MemoryEntry V) : e.timestamp ≠ .nan :=
  (of_decide_eq_true e.stamped).2

end MemoryEntry

/-! ### The instance -/

inductive ConflictStrategy where
  | lww
  | trust
  | keepBoth
  | askUser
  /-- Any other text. -/
  | unknown
deriving DecidableEq

structure ConflictEntry (V : Type) where
  key : JsString
  localEntry : MemoryEntry V
  remote : MemoryEntry V
  strategy : ConflictStrategy
  resolved : Bool

structure AgentMemorySync (V : Type) where
  agentId : JsString
  /-- `this.#session.remotePodId` is there. -/
  remotePod : Bool
  strategy : ConflictStrategy
  trustScores : JsMap JsString ℚ
  state : JsMap JsString (MemoryEntry V)
  keyed : ∀ k e, state.get? k = some e → e.key = k
  conflicts : List (ConflictEntry V)

inductive LocalOpType where
  | store
  | update
  | forget
deriving DecidableEq

structure LocalOp (V : Type) where
  type : LocalOpType
  key : JsString
  value : Option V
  category : Option JsString
  timestamp : Option JsNumber

inductive Resolution where
  | acceptRemote
  | keepLocal
  | keepBoth
  | conflict
deriving DecidableEq

/-- What the loop of `merge` has done so far. -/
structure Merging (V : Type) where
  sync : AgentMemorySync V
  merged : ℕ
  conflicts : List (ConflictEntry V)

namespace AgentMemorySync

/-- A fresh instance, enabled with a strategy. -/
def fresh (agentId : JsString) (remotePod : Bool) (strategy : ConflictStrategy) : AgentMemorySync V :=
  ⟨agentId, remotePod, strategy, JsMap.empty, JsMap.empty, (fun _ _ h => by cases h), []⟩

theorem keyed_set (s : AgentMemorySync V) (e : MemoryEntry V) :
    ∀ k e', (s.state.set e.key e).get? k = some e' → e'.key = k := by
  intro k e' h
  rw [JsMap.get?_set] at h
  split_ifs at h with hk
  · rw [← Option.some.inj h, hk]
  · exact s.keyed k e' h

/-- `this.#state.set(entry.key, entry)`. -/
def put (s : AgentMemorySync V) (e : MemoryEntry V) : AgentMemorySync V :=
  { s with state := s.state.set e.key e, keyed := s.keyed_set e }

def podId (s : AgentMemorySync V) : JsString := if s.remotePod then js "local-" ++ s.agentId else s.agentId

/-- `applyLocalOp(op)`; `none` for the error. -/
def applyLocalOp (now : Clock) (s : AgentMemorySync V) (op : LocalOp V) : Option (AgentMemorySync V) :=
  let category := (op.category.filter (· ≠ [])).getD (js "core")
  let timestamp := orNow op.timestamp now
  (newMemoryEntry now
    (if op.type = .forget then ⟨op.key, none, some category, some timestamp.1, some s.podId, true⟩
      else ⟨op.key, op.value, some category, some timestamp.1, some s.podId, false⟩)).map s.put

/-- `remote.timestamp > local.timestamp`. -/
def laterWins (localEntry remote : MemoryEntry V) : Resolution :=
  if localEntry.timestamp.lt remote.timestamp then .acceptRemote else .keepLocal

/-- `#resolveEntry(local, remote)`. -/
def resolveEntry (s : AgentMemorySync V) (localEntry remote : MemoryEntry V) : Resolution :=
  match s.strategy with
  | .lww => laterWins localEntry remote
  | .keepBoth => .keepBoth
  | .askUser => .conflict
  | .trust =>
      let localTrust := (s.trustScores.get? localEntry.podId).getD (1 / 2)
      let remoteTrust := (s.trustScores.get? remote.podId).getD (1 / 2)
      if localTrust < remoteTrust then .acceptRemote
      else if remoteTrust < localTrust then .keepLocal
      else laterWins localEntry remote
  | .unknown => laterWins localEntry remote

/-- The entries have the same timestamp and the same pod. -/
def SameStamp (e e' : MemoryEntry V) : Prop := e.timestamp = e'.timestamp ∧ e.podId = e'.podId

instance (e e' : MemoryEntry V) : Decidable (SameStamp e e') := inferInstanceAs (Decidable (_ ∧ _))

/-- The body of the loop over the remote entries. -/
def mergeEntry (m : Merging V) (remote : MemoryEntry V) : Merging V :=
  match m.sync.state.get? remote.key with
  | none => { m with sync := m.sync.put remote, merged := m.merged + 1 }
  | some localEntry =>
      if SameStamp localEntry remote then m
      else
        match m.sync.resolveEntry localEntry remote with
        | .acceptRemote => { m with sync := m.sync.put remote, merged := m.merged + 1 }
        | .keepBoth => { m with sync := m.sync.put remote.suffixed, merged := m.merged + 1 }
        | .conflict =>
            let conflict : ConflictEntry V := ⟨remote.key, localEntry, remote, m.sync.strategy, false⟩
            { m with
              sync := { m.sync with conflicts := m.sync.conflicts ++ [conflict] }
              conflicts := m.conflicts ++ [conflict] }
        | .keepLocal => m

/-- `merge(remoteState)`; `none` for the error of an entry without a key. -/
def merge (now : Clock) (s : AgentMemorySync V) (remoteState : List (EntryRecord V)) : Option (Merging V) :=
  (remoteState.mapM (newMemoryEntry now)).map fun entries => entries.foldl mergeEntry ⟨s, 0, []⟩

def serializeState (s : AgentMemorySync V) : List (EntryRecord V) := s.state.values.map MemoryEntry.toJSON

/-- What a merge of the state of another instance leaves. -/
def mergeFrom (s t : AgentMemorySync V) : Merging V := t.state.values.foldl mergeEntry ⟨s, 0, []⟩

/-- The state of another instance is read back as it was. -/
theorem merge_serializeState (now : Clock) (s t : AgentMemorySync V) :
    merge now s t.serializeState = some (mergeFrom s t) := by
  have hread : t.serializeState.mapM (newMemoryEntry now) = some t.state.values := by
    unfold serializeState
    induction t.state.values with
    | nil => rfl
    | cons e l ih => rw [List.map_cons, List.mapM_cons, MemoryEntry.newMemoryEntry_toJSON, ih]; rfl
  rw [merge, hread]
  rfl

theorem nodup_keys_values (s : AgentMemorySync V) : (s.state.values.map MemoryEntry.key).Nodup := by
  have hkeys : s.state.values.map MemoryEntry.key = s.state.keys := by
    rw [JsMap.values, JsMap.keys, List.map_map]
    refine List.map_congr_left fun e he => ?_
    exact s.keyed e.1 e.2 (JsMap.mem_entries_iff.mp he)
  rw [hkeys]
  exact s.state.nodup

theorem mem_values_iff {s : AgentMemorySync V} {e : MemoryEntry V} :
    e ∈ s.state.values ↔ s.state.get? e.key = some e := by
  rw [JsMap.values, List.mem_map]
  constructor
  · rintro ⟨⟨k, e'⟩, he, rfl⟩
    have hget := JsMap.mem_entries_iff.mp he
    rw [s.keyed k e' hget]
    exact hget
  · exact fun h => ⟨(e.key, e), JsMap.mem_entries_iff.mpr h, rfl⟩

/-! ### The last writer wins -/

/-- The entry of a key as a stamped cell. -/
def cell (s : AgentMemorySync V) (k : JsString) : Option (JsNumber × MemoryEntry V) :=
  (s.state.get? k).map fun e => (e.timestamp, e)

open Replication (pick stampOf)

theorem cell_put (s : AgentMemorySync V) (e : MemoryEntry V) (k : JsString) :
    (s.put e).cell k = if k = e.key then some (e.timestamp, e) else s.cell k := by
  rw [cell, cell, put, JsMap.get?_set]
  split_ifs with hk
  · rfl
  · rfl

theorem pick_of_timestamp_le {e e' : MemoryEntry V} (h : e'.timestamp ≤ e.timestamp) :
    pick (some (e.timestamp, e)) (some (e'.timestamp, e')) = some (e.timestamp, e) := by
  apply Replication.pick_of_le
  rw [Replication.stampOf_some, Replication.stampOf_some]
  exact WithBot.coe_le_coe.mpr h

theorem pick_of_timestamp_lt {e e' : MemoryEntry V} (h : e.timestamp < e'.timestamp) :
    pick (some (e.timestamp, e)) (some (e'.timestamp, e')) = some (e'.timestamp, e') := by
  apply if_pos
  rw [Replication.stampOf_some, Replication.stampOf_some]
  exact WithBot.coe_lt_coe.mpr h

/-- One entry under `lww`: its cell is picked against the local one. -/
theorem mergeEntry_lww {m : Merging V} (hm : m.sync.strategy = .lww) (remote : MemoryEntry V) :
    (mergeEntry m remote).sync.strategy = .lww ∧
      ∀ k, (mergeEntry m remote).sync.cell k =
        if k = remote.key then pick (m.sync.cell k) (some (remote.timestamp, remote)) else m.sync.cell k := by
  cases hlocal : m.sync.state.get? remote.key with
  | none =>
      have hcell : m.sync.cell remote.key = none := by rw [cell, hlocal]; rfl
      rw [mergeEntry, hlocal]
      refine ⟨hm, fun k => ?_⟩
      rw [cell_put]
      split_ifs with hk
      · rw [hk, hcell]
        rfl
      · rfl
  | some e =>
      have hcell : m.sync.cell remote.key = some (e.timestamp, e) := by rw [cell, hlocal]; rfl
      have hsame : e.timestamp ≥ remote.timestamp → ∀ k, m.sync.cell k =
          if k = remote.key then pick (m.sync.cell k) (some (remote.timestamp, remote)) else m.sync.cell k := by
        intro hle k
        split_ifs with hk
        · rw [hk, hcell, pick_of_timestamp_le hle]
        · rfl
      rw [mergeEntry, hlocal]
      simp only
      by_cases hstamp : SameStamp e remote
      · rw [if_pos hstamp]
        exact ⟨hm, hsame hstamp.1.ge⟩
      · rw [if_neg hstamp]
        by_cases hlt : e.timestamp < remote.timestamp
        · have hresolve : m.sync.resolveEntry e remote = .acceptRemote := by
            rw [resolveEntry, hm]
            exact if_pos ((JsNumber.lt_iff e.timestamp_ne_nan remote.timestamp_ne_nan).mpr hlt)
          rw [hresolve]
          refine ⟨hm, fun k => ?_⟩
          rw [cell_put]
          split_ifs with hk
          · rw [hk, hcell, pick_of_timestamp_lt hlt]
          · rfl
        · have hresolve : m.sync.resolveEntry e remote = .keepLocal := by
            rw [resolveEntry, hm]
            exact if_neg (mt (JsNumber.lt_iff e.timestamp_ne_nan remote.timestamp_ne_nan).mp hlt)
          rw [hresolve]
          exact ⟨hm, hsame (not_lt.mp hlt)⟩

def entryOfKey (k : JsString) (l : List (MemoryEntry V)) : Option (JsNumber × MemoryEntry V) :=
  (l.find? fun e => e.key = k).map fun e => (e.timestamp, e)

theorem pick_none (c : Option (JsNumber × MemoryEntry V)) : pick c none = c :=
  Replication.pick_of_le bot_le

theorem foldl_mergeEntry_lww (l : List (MemoryEntry V)) (hl : (l.map MemoryEntry.key).Nodup) {m : Merging V}
    (hm : m.sync.strategy = .lww) :
    (l.foldl mergeEntry m).sync.strategy = .lww ∧
      ∀ k, (l.foldl mergeEntry m).sync.cell k = pick (m.sync.cell k) (entryOfKey k l) := by
  induction l generalizing m with
  | nil => exact ⟨hm, fun k => (pick_none _).symm⟩
  | cons e l ih =>
      rw [List.map_cons, List.nodup_cons] at hl
      obtain ⟨hstrategy, hcell⟩ := mergeEntry_lww hm e
      obtain ⟨hfinal, hcells⟩ := ih hl.2 hstrategy
      refine ⟨hfinal, fun k => ?_⟩
      rw [List.foldl_cons, hcells, hcell]
      by_cases hk : k = e.key
      · have hnone : entryOfKey k l = none := by
          refine Option.map_eq_none_iff.mpr (List.find?_eq_none.mpr fun e' he' hkey => hl.1 ?_)
          have hkey : e'.key = k := by simpa using hkey
          rw [← hk, ← hkey]
          exact List.mem_map_of_mem he'
        have hhead : entryOfKey k (e :: l) = some (e.timestamp, e) := by
          rw [entryOfKey, List.find?_cons_of_pos (by simp [hk])]
          rfl
        rw [if_pos hk, hnone, hhead, pick_none]
      · have hhead : entryOfKey k (e :: l) = entryOfKey k l := by
          rw [entryOfKey, List.find?_cons_of_neg (by simpa using Ne.symm hk), ← entryOfKey]
        rw [if_neg hk, hhead]

theorem entryOfKey_values (t : AgentMemorySync V) (k : JsString) : entryOfKey k t.state.values = t.cell k := by
  rw [entryOfKey, cell]
  congr 1
  cases hget : t.state.get? k with
  | none =>
      refine List.find?_eq_none.mpr fun e he hkey => ?_
      have hkey : e.key = k := by simpa using hkey
      have hmem := mem_values_iff.mp he
      rw [hkey, hget] at hmem
      cases hmem
  | some e =>
      have hkey := t.keyed k e hget
      cases hfind : t.state.values.find? (fun e => decide (e.key = k)) with
      | none =>
          refine absurd ?_ (List.find?_eq_none.mp hfind e (mem_values_iff.mpr (by rw [hkey, hget])))
          simpa using hkey
      | some e' =>
          have hkey' : e'.key = k := by simpa using List.find?_some hfind
          have hmem := mem_values_iff.mp (List.mem_of_find?_eq_some hfind)
          rw [hkey', hget] at hmem
          rw [Option.some.inj hmem]

/-- **A merge under `lww`**: at every key the cell with the greater timestamp, the local one on a tie. -/
theorem merge_lww {s : AgentMemorySync V} (hs : s.strategy = .lww) (t : AgentMemorySync V) :
    (mergeFrom s t).sync.strategy = .lww ∧ ∀ k, (mergeFrom s t).sync.cell k = pick (s.cell k) (t.cell k) := by
  obtain ⟨hstrategy, hcells⟩ := foldl_mergeEntry_lww t.state.values t.nodup_keys_values (m := ⟨s, 0, []⟩) hs
  refine ⟨hstrategy, fun k => ?_⟩
  rw [mergeFrom, hcells, entryOfKey_values]

/-- Entries that are not later than the local ones change nothing. -/
theorem foldl_mergeEntry_eq_self {l : List (MemoryEntry V)} {m : Merging V} (hm : m.sync.strategy = .lww)
    (h : ∀ e ∈ l, ∃ e', m.sync.state.get? e.key = some e' ∧ e.timestamp ≤ e'.timestamp) : l.foldl mergeEntry m = m := by
  induction l with
  | nil => rfl
  | cons e l ih =>
      obtain ⟨e', hget, hle⟩ := h e List.mem_cons_self
      have hstep : mergeEntry m e = m := by
        rw [mergeEntry, hget]
        simp only
        split_ifs with hstamp
        · rfl
        · have hresolve : m.sync.resolveEntry e' e = .keepLocal := by
            rw [resolveEntry, hm]
            exact if_neg (mt (JsNumber.lt_iff e'.timestamp_ne_nan e.timestamp_ne_nan).mp (not_lt.mpr hle))
          rw [hresolve]
      rw [List.foldl_cons, hstep]
      exact ih fun e₁ he₁ => h e₁ (List.mem_cons_of_mem _ he₁)

/-! ### Exchanges -/

/-- Each of two instances merges the state of the other: both at once, or one after the other. -/
def Exchanged (now : Clock) (a b a' b' : AgentMemorySync V) : Prop :=
  ∃ m m', a' = m.sync ∧ b' = m'.sync ∧
    ((merge now a b.serializeState = some m ∧ merge now b a.serializeState = some m') ∨
      (merge now a b.serializeState = some m ∧ merge now b m.sync.serializeState = some m') ∨
      (merge now b a.serializeState = some m' ∧ merge now a m'.sync.serializeState = some m))

/-- What the claim of convergence looks at in an entry. -/
def seen (e : MemoryEntry V) : Option V × Bool × JsNumber := (e.value, e.tombstone, e.timestamp)

/-- The same value, flag and timestamp at every key. -/
def SameState (a b : AgentMemorySync V) : Prop := ∀ k, (a.state.get? k).map seen = (b.state.get? k).map seen

/-- A further merge of the state of the other changes nothing. -/
def Settled (now : Clock) (a b : AgentMemorySync V) : Prop := merge now a b.serializeState = some ⟨a, 0, []⟩

/-- Entries of one key with the same timestamp have the same value and flag. -/
def TiesAgree (a b : AgentMemorySync V) : Prop :=
  ∀ k e e', a.state.get? k = some e → b.state.get? k = some e' → e.timestamp = e'.timestamp →
    e.value = e'.value ∧ e.tombstone = e'.tombstone

theorem pick_pick (c d : Option (JsNumber × MemoryEntry V)) : pick d (pick c d) = pick d c := by
  by_cases hlt : stampOf c < stampOf d
  · rw [pick, pick, if_pos hlt, if_neg (lt_irrefl _), Replication.pick_of_le hlt.le]
  · rw [Replication.pick_of_le (not_lt.mp hlt)]

/-- Both sides pick, each with its own entry first. -/
theorem Exchanged.cells {now : Clock} {a b a' b' : AgentMemorySync V} (h : Exchanged now a b a' b')
    (ha : a.strategy = .lww) (hb : b.strategy = .lww) :
    (a'.strategy = .lww ∧ ∀ k, a'.cell k = pick (a.cell k) (b.cell k)) ∧
      b'.strategy = .lww ∧ ∀ k, b'.cell k = pick (b.cell k) (a.cell k) := by
  obtain ⟨m, m', rfl, rfl, h⟩ := h
  simp only [merge_serializeState, Option.some.injEq] at h
  obtain ⟨rfl, rfl⟩ | ⟨rfl, rfl⟩ | ⟨rfl, rfl⟩ := h
  · exact ⟨merge_lww ha b, merge_lww hb a⟩
  · obtain ⟨hstrategy, hcells⟩ := merge_lww hb (mergeFrom a b).sync
    refine ⟨merge_lww ha b, hstrategy, fun k => ?_⟩
    rw [hcells, (merge_lww ha b).2, pick_pick]
  · obtain ⟨hstrategy, hcells⟩ := merge_lww ha (mergeFrom b a).sync
    refine ⟨⟨hstrategy, fun k => ?_⟩, merge_lww hb a⟩
    rw [hcells, (merge_lww hb a).2, pick_pick]

theorem exists_exchanged (now : Clock) (a b : AgentMemorySync V) : ∃ a' b', Exchanged now a b a' b' :=
  ⟨_, _, _, _, rfl, rfl, Or.inl ⟨merge_serializeState now a b, merge_serializeState now b a⟩⟩

/-- Nothing is merged from a state that is nowhere later. -/
theorem settled_of_stamps {a b : AgentMemorySync V} (now : Clock) (ha : a.strategy = .lww)
    (h : ∀ k, stampOf (b.cell k) ≤ stampOf (a.cell k)) : Settled now a b := by
  rw [Settled, merge_serializeState, mergeFrom]
  refine congrArg some (foldl_mergeEntry_eq_self ha fun e he => ?_)
  have hle := h e.key
  rw [cell, cell, mem_values_iff.mp he] at hle
  cases hget : a.state.get? e.key with
  | none =>
      rw [hget] at hle
      exact absurd hle (not_le.mpr (WithBot.bot_lt_coe _))
  | some e' =>
      rw [hget] at hle
      exact ⟨e', rfl, WithBot.coe_le_coe.mp hle⟩

theorem map_seen (s : AgentMemorySync V) (k : JsString) :
    (s.state.get? k).map seen = (s.cell k).map fun c => seen c.2 := by
  rw [cell, Option.map_map]
  rfl

/-- **An exchange under `lww`** leaves both sides with the same state, and a further merge changes nothing, if and only if
entries of one key with the same timestamp have the same value and flag. -/
theorem lww_exchange_iff (now : Clock) (a b a' b' : AgentMemorySync V) (ha : a.strategy = .lww) (hb : b.strategy = .lww)
    (h : Exchanged now a b a' b') :
    (SameState a' b' ∧ Settled now a' b' ∧ Settled now b' a') ↔ TiesAgree a b := by
  obtain ⟨⟨ha', hcells⟩, hb', hcells'⟩ := h.cells ha hb
  have hstamps : ∀ k, stampOf (a'.cell k) = stampOf (b'.cell k) := by
    intro k
    rw [hcells, hcells', Replication.stampOf_pick, Replication.stampOf_pick, sup_comm]
  have hsettled : Settled now a' b' ∧ Settled now b' a' :=
    ⟨settled_of_stamps now ha' fun k => (hstamps k).ge, settled_of_stamps now hb' fun k => (hstamps k).le⟩
  rw [and_iff_left hsettled]
  unfold SameState
  simp only [map_seen, hcells, hcells']
  constructor
  · intro hsame k e e' hget hget' htie
    have hk := hsame k
    rw [cell, cell, hget, hget', Option.map_some, Option.map_some, pick_of_timestamp_le htie.ge,
      pick_of_timestamp_le htie.le] at hk
    have hseen : seen e = seen e' := Option.some.inj hk
    exact ⟨congrArg Prod.fst hseen, congrArg (fun x => x.2.1) hseen⟩
  · intro hties k
    cases hget : a.state.get? k with
    | none =>
        have hcell : a.cell k = none := by rw [cell, hget]; rfl
        rw [hcell, pick_none]
        cases hcell' : b.cell k with
        | none => rfl
        | some c => rfl
    | some e =>
        cases hget' : b.state.get? k with
        | none =>
            have hcell : b.cell k = none := by rw [cell, hget']; rfl
            rw [hcell, pick_none]
            cases hcell' : a.cell k with
            | none => rfl
            | some c => rfl
        | some e' =>
            rw [cell, cell, hget, hget', Option.map_some, Option.map_some]
            rcases lt_trichotomy e.timestamp e'.timestamp with hlt | heq | hlt
            · rw [pick_of_timestamp_lt hlt, pick_of_timestamp_le hlt.le]
            · obtain ⟨hvalue, htombstone⟩ := hties k e e' hget hget' heq
              rw [pick_of_timestamp_le heq.ge, pick_of_timestamp_le heq.le, Option.map_some, Option.map_some, seen, seen,
                hvalue, htombstone, heq]
            · rw [pick_of_timestamp_le hlt.le, pick_of_timestamp_lt hlt]

theorem twelve_truthy : (JsNumber.ofNat 12).truthy = true := by decide +kernel

def noon : Clock := ⟨.ofNat 12, twelve_truthy⟩

/-- One of two devices of an agent, after it stored a value at time 5. -/
def device (value : ℕ) : AgentMemorySync ℕ :=
  (applyLocalOp noon (fresh (js "bot") true .lww)
    ⟨.store, js "city", some value, none, some (.ofNat 5)⟩).getD (fresh (js "bot") true .lww)

theorem lww_exchange_device : ∃ a' b', Exchanged noon (device 1) (device 1) a' b' ∧
    ((SameState a' b' ∧ Settled noon a' b' ∧ Settled noon b' a') ↔ TiesAgree (device 1) (device 1)) := by
  obtain ⟨a', b', h⟩ := exists_exchanged noon (device 1) (device 1)
  exact ⟨a', b', h, lww_exchange_iff noon _ _ a' b' (by decide +kernel) (by decide +kernel) h⟩

theorem tie_diverges : ∃ a' b', Exchanged noon (device 1) (device 2) a' b' ∧ ¬ SameState a' b' := by
  refine ⟨_, _, ⟨_, _, rfl, rfl, Or.inl ⟨merge_serializeState noon _ _, merge_serializeState noon _ _⟩⟩, fun hsame => ?_⟩
  have hcity := hsame (js "city")
  revert hcity
  decide +kernel

end AgentMemorySync
end BrowserMesh.Sync
