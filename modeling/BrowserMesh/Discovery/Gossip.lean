import BrowserMesh.Js.Dict
import BrowserMesh.Library.Transition

/-! # Gossip: versioned entries and digests

* **Versions.**  A node numbers the values it sets with a counter of its own; a received entry replaces the
  held one when its version is greater.
* **Digests** are plain objects, so a key that every object inherits reads as something no version exceeds
  (`exceeds`).
* **Facts.**  The version a node holds for a key (`held`) is what all handlers compare; pushes raise it, and a
  digest tells it (`exceeds_digest`). -/

namespace BrowserMesh.Discovery
open Js

structure GossipEntry (α : Type) where
  value : α
  version : ℕ
  origin : JsString
  deriving DecidableEq

/-- An entry with its key, as it is pushed. -/
abbrev KeyedEntry (α : Type) := JsString × GossipEntry α

inductive GossipMessage (α : Type) where
  | digest (digest : JsObject ℕ)
  | pull (digest : JsObject ℕ)
  | push (entries : List (KeyedEntry α))
  deriving DecidableEq

structure GossipProtocol (α : Type) where
  localId : JsString
  state : JsMap JsString (GossipEntry α)
  version : ℕ

/-- `version > (digest[key] ?? 0)`. -/
def exceeds (version : ℕ) (digest : JsObject ℕ) (key : JsString) : Bool :=
  match digest.read key with
  | .own remote => decide (remote < version)
  | .inherited => false
  | .absent => decide (0 < version)

namespace GossipProtocol
variable {α : Type}

/-- The constructor. -/
def new (localId : JsString) : GossipProtocol α := ⟨localId, JsMap.empty, 0⟩

def set (g : GossipProtocol α) (key : JsString) (value : α) : GossipProtocol α :=
  { g with
    version := g.version + 1
    state := g.state.set key ⟨value, g.version + 1, g.localId⟩ }

def get (g : GossipProtocol α) (key : JsString) : Option α := (g.state.get? key).map GossipEntry.value

/-- The digest of `pushDigest` and `handleDigest`. -/
def digest (g : GossipProtocol α) : JsObject ℕ :=
  JsObject.empty.assignAll (g.state.entries.map fun e => (e.1, e.2.version))

/-- The entries that are newer than a digest says. -/
def newer (g : GossipProtocol α) (digest : JsObject ℕ) : List (KeyedEntry α) :=
  g.state.entries.filter fun e => exceeds e.2.version digest e.1

/-- One entry of `handlePush`. -/
def receive (g : GossipProtocol α) (e : KeyedEntry α) : GossipProtocol α :=
  match g.state.get? e.1 with
  | none => { g with state := g.state.set e.1 e.2 }
  | some entry => if entry.version < e.2.version then { g with state := g.state.set e.1 e.2 } else g

def handlePush (g : GossipProtocol α) (entries : List (KeyedEntry α)) : GossipProtocol α :=
  entries.foldl receive g

/-- The reply of `handlePull`. -/
def handlePull (g : GossipProtocol α) (digest : JsObject ℕ) : List (GossipMessage α) := [.push (g.newer digest)]

/-- The remote node has something newer. -/
def needPull (g : GossipProtocol α) (digest : JsObject ℕ) : Bool :=
  digest.entries.any fun e => exceeds e.2 g.digest e.1

/-- The replies of `handleDigest`. -/
def handleDigest (g : GossipProtocol α) (digest : JsObject ℕ) : List (GossipMessage α) :=
  (if g.needPull digest then [.pull g.digest] else []) ++
    if (g.newer digest).length > 0 then [.push (g.newer digest)] else []

/-- The version that a node holds for a key, 0 without one. -/
def held (g : GossipProtocol α) (key : JsString) : ℕ := ((g.state.get? key).map GossipEntry.version).getD 0

variable {g : GossipProtocol α} {key : JsString}

theorem held_eq {entry : GossipEntry α} (h : g.state.get? key = some entry) : g.held key = entry.version := by
  rw [held, h]
  rfl

theorem exists_of_held_pos (h : 0 < g.held key) :
    ∃ entry, g.state.get? key = some entry ∧ entry.version = g.held key := by
  cases hget : g.state.get? key with
  | none =>
      rw [held, hget] at h
      exact absurd h (lt_irrefl 0)
  | some entry => exact ⟨entry, rfl, (held_eq hget).symm⟩

/-! ### What a digest says -/

variable {digest : JsObject ℕ}

theorem exceeds_mono {v v' : ℕ} (h : exceeds v digest key = true) (hle : v ≤ v') : exceeds v' digest key = true := by
  rw [exceeds] at h ⊢
  cases hread : digest.read key with
  | own remote =>
      rw [hread] at h
      exact decide_eq_true ((of_decide_eq_true h).trans_le hle)
  | inherited =>
      rw [hread] at h
      cases h
  | absent =>
      rw [hread] at h
      exact decide_eq_true ((of_decide_eq_true h).trans_le hle)

theorem get?_digest (g : GossipProtocol α) (key : JsString) : g.digest.props.get? key =
    if key = protoKey then none else (g.state.get? key).map GossipEntry.version := by
  have hnodup : ((g.state.entries.map fun e => (e.1, e.2.version)).map Prod.fst).Nodup := by
    rw [List.map_map]
    exact g.state.nodup
  rw [digest, JsObject.get?_assignAll_empty _ hnodup]
  split_ifs
  · rfl
  · exact assoc_map GossipEntry.version key g.state.entries

/-- What a digest says of a key is the version that is held. -/
theorem held_of_digest {v : ℕ} (h : g.digest.props.get? key = some v) : g.held key = v := by
  rw [get?_digest] at h
  split_ifs at h
  rw [held, h]
  rfl

theorem mem_inheritedNames_protoKey : protoKey ∈ inheritedNames := List.mem_cons_self

theorem digest_of_held (hkey : key ∉ inheritedNames)
    (h : 0 < g.held key) : g.digest.props.get? key = some (g.held key) := by
  obtain ⟨entry, hget, hversion⟩ := exists_of_held_pos h
  have hproto : key ≠ protoKey := fun heq => hkey (heq ▸ mem_inheritedNames_protoKey)
  rw [get?_digest, if_neg hproto, hget, ← hversion]
  rfl

/-- A node's digest is exceeded by what is above the version it holds, for keys that no object inherits. -/
theorem exceeds_digest {v : ℕ} (hkey : key ∉ inheritedNames) (h : g.held key < v) : exceeds v g.digest key = true := by
  rw [exceeds, JsObject.read]
  cases hget : g.digest.props.get? key with
  | some remote =>
      rw [held_of_digest hget] at h
      exact decide_eq_true h
  | none =>
      dsimp only
      rw [if_neg hkey]
      exact decide_eq_true (Nat.zero_lt_of_lt h)

/-! ### What a push does -/

theorem get?_receive (g : GossipProtocol α) (e : KeyedEntry α) (key : JsString) :
    (g.receive e).state.get? key = g.state.get? key ∨
      (key = e.1 ∧ (g.receive e).state.get? key = some e.2 ∧ g.held key ≤ e.2.version) := by
  have hset : ∀ entry : GossipEntry α, (g.state.set e.1 entry).get? key = g.state.get? key ∨
      (key = e.1 ∧ (g.state.set e.1 entry).get? key = some entry) := by
    intro entry
    rw [JsMap.get?_set]
    split_ifs with hkey
    · exact Or.inr ⟨hkey, rfl⟩
    · exact Or.inl rfl
  rw [receive]
  cases hget : g.state.get? e.1 with
  | none =>
      refine (hset e.2).imp_right fun h => ⟨h.1, h.2, ?_⟩
      rw [h.1, held, hget]
      exact Nat.zero_le _
  | some entry =>
      dsimp only
      split_ifs with hlt
      · refine (hset e.2).imp_right fun h => ⟨h.1, h.2, ?_⟩
        rw [h.1, held_eq hget]
        exact hlt.le
      · exact Or.inl rfl

theorem held_le_receive (g : GossipProtocol α) (e : KeyedEntry α) (key : JsString) :
    g.held key ≤ (g.receive e).held key := by
  rcases g.get?_receive e key with hsame | ⟨-, hnew, hle⟩
  · rw [held, held, hsame]
  · rw [held_eq hnew]
    exact hle

theorem version_le_receive (g : GossipProtocol α) (e : KeyedEntry α) :
    e.2.version ≤ (g.receive e).held e.1 := by
  rw [receive]
  cases hget : g.state.get? e.1 with
  | none => rw [held_eq (show _ = some e.2 by simp)]
  | some entry =>
      dsimp only
      split_ifs with hlt
      · rw [held_eq (show _ = some e.2 by simp)]
      · rw [held_eq hget]
        exact not_lt.mp hlt

theorem held_le_handlePush (g : GossipProtocol α) (entries : List (KeyedEntry α)) (key : JsString) :
    g.held key ≤ (g.handlePush entries).held key := by
  induction entries generalizing g with
  | nil => exact le_rfl
  | cons e entries ih => exact (g.held_le_receive e key).trans (ih (g.receive e))

/-- Everything that was pushed is held, or something as new. -/
theorem version_le_handlePush (g : GossipProtocol α) {entries : List (KeyedEntry α)} {e : KeyedEntry α}
    (h : e ∈ entries) : e.2.version ≤ (g.handlePush entries).held e.1 := by
  induction entries generalizing g with
  | nil => cases h
  | cons d entries ih =>
      rcases List.mem_cons.mp h with rfl | h
      · exact (g.version_le_receive e).trans (held_le_handlePush (g.receive e) entries e.1)
      · exact ih (g.receive d) h

/-- What is held after a push was held before or has been pushed. -/
theorem get?_handlePush {entries : List (KeyedEntry α)}
    {entry : GossipEntry α} (h : (g.handlePush entries).state.get? key = some entry) :
    g.state.get? key = some entry ∨ (key, entry) ∈ entries := by
  induction entries generalizing g with
  | nil => exact Or.inl h
  | cons e entries ih =>
      rcases ih (g := g.receive e) h with hbefore | hmem
      · rcases g.get?_receive e key with hsame | ⟨rfl, hnew, -⟩
        · exact Or.inl (hsame ▸ hbefore)
        · rw [hnew] at hbefore
          obtain rfl := Option.some.inj hbefore
          exact Or.inr List.mem_cons_self
      · exact Or.inr (List.mem_cons_of_mem e hmem)

theorem localId_handlePush (g : GossipProtocol α) (entries : List (KeyedEntry α)) :
    (g.handlePush entries).localId = g.localId ∧ (g.handlePush entries).version = g.version := by
  have hone : ∀ (g : GossipProtocol α) e, (g.receive e).localId = g.localId ∧
      (g.receive e).version = g.version := by
    intro g e
    rw [receive]
    cases g.state.get? e.1 with
    | none => exact ⟨rfl, rfl⟩
    | some entry =>
        dsimp only
        split_ifs
        · exact ⟨rfl, rfl⟩
        · exact ⟨rfl, rfl⟩
  induction entries generalizing g with
  | nil => exact ⟨rfl, rfl⟩
  | cons e entries ih =>
      obtain ⟨hid, hversion⟩ := ih (g.receive e)
      exact ⟨hid.trans (hone g e).1, hversion.trans (hone g e).2⟩

/-! ### What a value that is set does -/

theorem get?_set (g : GossipProtocol α) (key : JsString) (value : α) (k : JsString) :
    (g.set key value).state.get? k =
      if k = key then some ⟨value, g.version + 1, g.localId⟩ else g.state.get? k := JsMap.get?_set ..

theorem held_set (g : GossipProtocol α) (key : JsString) (value : α) (k : JsString) :
    (g.set key value).held k = if k = key then g.version + 1 else g.held k := by
  rw [held, get?_set]
  split_ifs
  · rfl
  · rfl

/-! ### What is sent -/

theorem mem_newer {e : KeyedEntry α} :
    e ∈ g.newer digest ↔ g.state.get? e.1 = some e.2 ∧ exceeds e.2.version digest e.1 = true := by
  rw [newer, List.mem_filter, JsMap.mem_entries_iff (k := e.1) (v := e.2)]

/-- A digest that tells more than is held is answered by a pull. -/
theorem needPull_of_lt {v : ℕ}
    (hkey : key ∉ inheritedNames) (hget : digest.props.get? key = some v) (h : g.held key < v) :
    g.needPull digest = true := by
  rw [needPull, List.any_eq_true]
  exact ⟨(key, v), digest.entries_perm.mem_iff.mpr (JsMap.mem_entries_iff.mpr hget), exceeds_digest hkey h⟩

theorem mem_handleDigest {msg : GossipMessage α}
    (h : msg ∈ g.handleDigest digest) : msg = .pull g.digest ∨ msg = .push (g.newer digest) := by
  rw [handleDigest] at h
  rcases List.mem_append.mp h with h | h
  · split_ifs at h
    · exact Or.inl (List.mem_singleton.mp h)
    · cases h
  · split_ifs at h
    · exact Or.inr (List.mem_singleton.mp h)
    · cases h

end GossipProtocol
end BrowserMesh.Discovery
