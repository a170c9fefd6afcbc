import BrowserMesh.Discovery.Gossip

/-! # What gossip converges to

* **The network.**  Messages arrive at any time, in any order, repeatedly or never.  The run records what every
  node has received, every value that was set with what its node had received before, and where the messages
  begin that were sent after the last `set` (`mark`).
* **The condition.**  A value is set under a version that is not below the held one, and that no other value
  of the key has (`Fresh`).
* **The argument.**  Held versions grow; a digest that is not met with as new an entry is answered by a pull,
  and the pull by a push (`Sound`).
* **Results.**  An entry that a node had received before it set a value never replaces that value, and when
  everything is handled and all pairs have exchanged digests since the last `set`, all values agree
  (`gossip_converges`). -/

namespace BrowserMesh.Discovery
open Js Transition

variable {α : Type}

/-- A message on its way. -/
structure GossipEnvelope (α : Type) where
  sender : JsString
  receiver : JsString
  msg : GossipMessage α
  deriving DecidableEq

/-- A value that was set, and the entries for its key that its node had received before. -/
structure Written (α : Type) where
  key : JsString
  entry : GossipEntry α
  seen : List (GossipEntry α)
  deriving DecidableEq

structure GossipNetwork (α : Type) where
  node : JsString → GossipProtocol α
  sent : List (GossipEnvelope α)
  handled : List ℕ
  mark : ℕ
  sets : List (Written α)
  received : JsString → List (KeyedEntry α)

inductive GossipAction (α : Type) where
  | set (y key : JsString) (value : α)
  | pushDigest (y targetId : JsString)
  | deliver (k : ℕ)

def GossipMessage.pushed : GossipMessage α → List (KeyedEntry α)
  | .push entries => entries
  | _ => []

/-- What a node makes of a message, and what it replies. -/
def GossipProtocol.handle (g : GossipProtocol α) : GossipMessage α → GossipProtocol α × List (GossipMessage α)
  | .digest digest => (g, g.handleDigest digest)
  | .pull digest => (g, g.handlePull digest)
  | .push entries => (g.handlePush entries, [])

namespace GossipNetwork

def written (w : GossipNetwork α) (y key : JsString) (value : α) : Written α where
  key := key
  entry := ⟨value, (w.node y).version + 1, (w.node y).localId⟩
  seen := ((w.received y).filter fun e => e.1 = key).map Prod.snd

def step (ids : List JsString) (w : GossipNetwork α) : GossipAction α → Option (GossipNetwork α)
  | .set y key value =>
      if y ∈ ids then
        some { w with
          node := Function.update w.node y ((w.node y).set key value)
          mark := w.sent.length
          sets := w.sets ++ [w.written y key value] }
      else none
  | .pushDigest y targetId =>
      if y ∈ ids ∧ targetId ∈ ids then
        some { w with sent := w.sent ++ [⟨y, targetId, .digest (w.node y).digest⟩] }
      else none
  | .deliver k =>
      match w.sent[k]? with
      | none => none
      | some e =>
          let r := (w.node e.receiver).handle e.msg
          some { w with
            node := Function.update w.node e.receiver r.1
            sent := w.sent ++ r.2.map fun msg => ⟨e.receiver, e.sender, msg⟩
            handled := w.handled ++ [k]
            received := Function.update w.received e.receiver (w.received e.receiver ++ e.msg.pushed) }

def machine (α : Type) (ids : List JsString) : Machine (GossipNetwork α) (GossipAction α) :=
  ⟨⟨GossipProtocol.new, [], [], 0, [], fun _ => []⟩, step ids⟩

/-! ### What is claimed -/

/-- An entry that a push puts in the place of another one. -/
structure Replaced (α : Type) where
  key : JsString
  old : GossipEntry α
  new : GossipEntry α

/-- What `handlePush` replaces, entry by entry. -/
def replacements (g : GossipProtocol α) : List (KeyedEntry α) → List (Replaced α)
  | [] => []
  | e :: entries =>
      (match g.state.get? e.1 with
        | none => []
        | some entry => if entry.version < e.2.version then [⟨e.1, entry, e.2⟩] else []) ++
      replacements (g.receive e) entries

/-- A delivery replaces no value by an entry that its node had received before it set the value. -/
def KeepsSet (w : GossipNetwork α) (k : ℕ) : Prop :=
  ∀ e, w.sent[k]? = some e → ∀ r ∈ replacements (w.node e.receiver) e.msg.pushed, ∀ s ∈ w.sets, s.key = r.key →
    s.entry = r.old → r.new ∉ s.seen

/-- Every message is handled, and since the last `set` every node has sent every other one its digest. -/
def Exchanged (ids : List JsString) (w : GossipNetwork α) : Prop :=
  (∀ k < w.sent.length, k ∈ w.handled) ∧
  ∀ x ∈ ids, ∀ y ∈ ids, x ≠ y → ∃ k ≥ w.mark, ∃ d, w.sent[k]? = some ⟨x, y, .digest d⟩

def SameValues (ids : List JsString) (w : GossipNetwork α) : Prop :=
  ∀ x ∈ ids, ∀ y ∈ ids, ∀ key, (w.node x).get key = (w.node y).get key

/-- The version that `set` gives is not below the held one, no other value of the key has it, and no object
inherits the key. -/
def Fresh (w : GossipNetwork α) : GossipAction α → Prop
  | .set y key value => (w.node y).held key ≤ (w.node y).version + 1 ∧ key ∉ inheritedNames ∧
      ∀ s ∈ w.sets, s.key = key → s.entry.version = (w.node y).version + 1 → s.entry.value = value
  | _ => True

/-! ### The invariant -/

def WasSet (w : GossipNetwork α) (key : JsString) (entry : GossipEntry α) : Prop :=
  ∃ s ∈ w.sets, s.key = key ∧ s.entry = entry

/-- A pull that asks for at least this version is on its way, or has been answered. -/
def Pulled (w : GossipNetwork α) (x y key : JsString) (v : ℕ) : Prop :=
  ∃ j d, w.sent[j]? = some ⟨y, x, .pull d⟩ ∧ exceeds v d key = true ∧ (j ∈ w.handled →
    ∃ es, ⟨x, y, .push es⟩ ∈ w.sent ∧ ∃ e ∈ es, e.1 = key ∧ v ≤ e.2.version)

structure Sound (ids : List JsString) (w : GossipNetwork α) : Prop where
  localId : ∀ y, (w.node y).localId = y
  held : ∀ y key entry, (w.node y).state.get? key = some entry → w.WasSet key entry
  pushed : ∀ e ∈ w.sent, ∀ x ∈ e.msg.pushed, w.WasSet x.1 x.2
  seen : ∀ s ∈ w.sets, ∀ x ∈ s.seen, x.version ≤ s.entry.version
  received : ∀ y, ∀ x ∈ w.received y, x.2.version ≤ (w.node y).held x.1
  origin : ∀ s ∈ w.sets, s.entry.origin ∈ ids ∧ s.key ∉ inheritedNames ∧ 0 < s.entry.version ∧
    s.entry.version ≤ (w.node s.entry.origin).held s.key
  same : ∀ s ∈ w.sets, ∀ s' ∈ w.sets, s.key = s'.key → s.entry.version = s'.entry.version →
    s.entry.value = s'.entry.value
  handled : ∀ k ∈ w.handled, k < w.sent.length
  digests : ∀ x y d, ⟨x, y, .digest d⟩ ∈ w.sent → ∀ key v, d.props.get? key = some v →
    key ∉ inheritedNames ∧ v ≤ (w.node x).held key
  marked : ∀ k ≥ w.mark, ∀ x y d, w.sent[k]? = some ⟨x, y, .digest d⟩ → ∀ s ∈ w.sets, s.entry.origin = x →
    ∃ v, d.props.get? s.key = some v ∧ s.entry.version ≤ v
  digested : ∀ k ∈ w.handled, ∀ x y d, w.sent[k]? = some ⟨x, y, .digest d⟩ → ∀ key v,
    d.props.get? key = some v → v ≤ (w.node y).held key ∨ w.Pulled x y key v
  delivered : ∀ k ∈ w.handled, ∀ x y es, w.sent[k]? = some ⟨x, y, .push es⟩ → ∀ e ∈ es,
    e.2.version ≤ (w.node y).held e.1

theorem sound_init (ids : List JsString) : Sound ids (machine α ids).init where
  localId _ := rfl
  held _ _ _ h := by cases h
  pushed e he := absurd he List.not_mem_nil
  seen s hs := absurd hs List.not_mem_nil
  received _ x hx := absurd hx List.not_mem_nil
  origin s hs := absurd hs List.not_mem_nil
  same s hs := absurd hs List.not_mem_nil
  handled k hk := absurd hk List.not_mem_nil
  digests _ _ _ h := absurd h List.not_mem_nil
  marked _ _ _ _ _ h := by cases h
  digested k hk := absurd hk List.not_mem_nil
  delivered k hk := absurd hk List.not_mem_nil

variable {ids : List JsString} {w w' : GossipNetwork α}

/-- What a step that sets no value does: held versions grow, `out` is sent, and the message `new` is answered. -/
structure Growth (w w' : GossipNetwork α) (out : List (GossipEnvelope α)) (new : Option ℕ) : Prop where
  localId : ∀ y, (w'.node y).localId = (w.node y).localId
  held : ∀ y key, (w.node y).held key ≤ (w'.node y).held key
  entries : ∀ y key entry, (w'.node y).state.get? key = some entry →
    (w.node y).state.get? key = some entry ∨ w.WasSet key entry
  sets : w'.sets = w.sets
  mark : w'.mark = w.mark
  sent : w'.sent = w.sent ++ out
  pushed : ∀ e ∈ out, ∀ x ∈ e.msg.pushed, w.WasSet x.1 x.2
  digests : ∀ x y d, ⟨x, y, .digest d⟩ ∈ out → d = (w.node x).digest
  received : ∀ y, ∀ x ∈ w'.received y, x ∈ w.received y ∨ x.2.version ≤ (w'.node y).held x.1
  handled : ∀ k ∈ w'.handled, k ∈ w.handled ∨ (new = some k ∧ k < w.sent.length)
  digested : ∀ k, new = some k → ∀ x y d, w.sent[k]? = some ⟨x, y, .digest d⟩ → ∀ key v,
    d.props.get? key = some v → key ∉ inheritedNames →
      v ≤ (w'.node y).held key ∨ ∃ d', ⟨y, x, .pull d'⟩ ∈ out ∧ exceeds v d' key = true
  pulled : ∀ k, new = some k → ∀ x y d, w.sent[k]? = some ⟨y, x, .pull d⟩ → ∀ key v,
    exceeds v d key = true → v ≤ (w.node x).held key →
      ∃ es, ⟨x, y, .push es⟩ ∈ out ∧ ∃ e ∈ es, e.1 = key ∧ v ≤ e.2.version
  delivered : ∀ k, new = some k → ∀ x y es, w.sent[k]? = some ⟨x, y, .push es⟩ → ∀ e ∈ es,
    e.2.version ≤ (w'.node y).held e.1

variable {out : List (GossipEnvelope α)} {new : Option ℕ} {k : ℕ} {e : GossipEnvelope α}

theorem Growth.sent_old (h : Growth w w' out new) (he : w.sent[k]? = some e) : w'.sent[k]? = some e := by
  obtain ⟨hlt, -⟩ := List.getElem?_eq_some_iff.mp he
  rw [h.sent, List.getElem?_append_left hlt, he]

theorem Growth.sent_cases (h : Growth w w' out new) (he : w'.sent[k]? = some e) :
    w.sent[k]? = some e ∨ (w.sent.length ≤ k ∧ e ∈ out) := by
  rw [h.sent] at he
  by_cases hlt : k < w.sent.length
  · rw [List.getElem?_append_left hlt] at he
    exact Or.inl he
  · rw [List.getElem?_append_right (not_lt.mp hlt)] at he
    exact Or.inr ⟨not_lt.mp hlt, List.mem_of_getElem? he⟩

theorem Sound.growth (h : Sound ids w) (hg : Growth w w' out new) : Sound ids w' := by
  have hset : ∀ {key entry}, w.WasSet key entry → w'.WasSet key entry := by
    intro key entry hs
    rw [WasSet, hg.sets]
    exact hs
  -- what a digest that is sent now says
  have hdigest : ∀ x key v, (w.node x).digest.props.get? key = some v →
      key ∉ inheritedNames ∧ v ≤ (w.node x).held key := by
    intro x key v hv
    have hheld := GossipProtocol.held_of_digest hv
    rw [GossipProtocol.get?_digest] at hv
    split_ifs at hv
    obtain ⟨entry, hget, -⟩ := Option.map_eq_some_iff.mp hv
    obtain ⟨s, hs, rfl, -⟩ := h.held x key entry hget
    exact ⟨(h.origin s hs).2.1, hheld.ge⟩
  have hpulled : ∀ x y key v, v ≤ (w.node x).held key → w.Pulled x y key v → w'.Pulled x y key v := by
    rintro x y key v hv ⟨j, d, hj, hexceeds, hanswer⟩
    refine ⟨j, d, hg.sent_old hj, hexceeds, fun hhandled => ?_⟩
    rcases hg.handled j hhandled with hold | ⟨hnew, -⟩
    · obtain ⟨es, hes, hrest⟩ := hanswer hold
      exact ⟨es, hg.sent ▸ List.mem_append_left _ hes, hrest⟩
    · obtain ⟨es, hes, hrest⟩ := hg.pulled j hnew x y d hj key v hexceeds hv
      exact ⟨es, hg.sent ▸ List.mem_append_right _ hes, hrest⟩
  refine { localId := ?_, held := ?_, pushed := ?_, seen := ?_, received := ?_, origin := ?_, same := ?_,
           handled := ?_, digests := ?_, marked := ?_, digested := ?_, delivered := ?_ }
  · exact fun y => (hg.localId y).trans (h.localId y)
  · exact fun y key entry hget => hset ((hg.entries y key entry hget).elim (h.held y key entry) id)
  · intro e he x hx
    rw [hg.sent] at he
    exact hset ((List.mem_append.mp he).elim (fun he => h.pushed e he x hx) fun he => hg.pushed e he x hx)
  · rw [hg.sets]
    exact h.seen
  · intro y x hx
    exact (hg.received y x hx).elim (fun hold => (h.received y x hold).trans (hg.held y x.1)) id
  · rw [hg.sets]
    intro s hs
    obtain ⟨hid, hkey, hpos, hle⟩ := h.origin s hs
    exact ⟨hid, hkey, hpos, hle.trans (hg.held _ _)⟩
  · rw [hg.sets]
    exact h.same
  · intro k hk
    rw [hg.sent, List.length_append]
    rcases hg.handled k hk with hold | ⟨-, hlt⟩
    · exact Nat.lt_add_right _ (h.handled k hold)
    · exact Nat.lt_add_right _ hlt
  · intro x y d he key v hv
    rw [hg.sent] at he
    rcases List.mem_append.mp he with he | he
    · obtain ⟨hkey, hle⟩ := h.digests x y d he key v hv
      exact ⟨hkey, hle.trans (hg.held x key)⟩
    · obtain rfl := hg.digests x y d he
      obtain ⟨hkey, hle⟩ := hdigest x key v hv
      exact ⟨hkey, hle.trans (hg.held x key)⟩
  · rw [hg.sets, hg.mark]
    intro k hk x y d he s hs horigin
    rcases hg.sent_cases he with he | ⟨-, he⟩
    · exact h.marked k hk x y d he s hs horigin
    · obtain rfl := hg.digests x y d he
      obtain ⟨-, hkey, hpos, hle⟩ := h.origin s hs
      rw [horigin] at hle
      exact ⟨_, GossipProtocol.digest_of_held hkey (hpos.trans_le hle), hle⟩
  · intro k hk x y d he key v hv
    rcases hg.handled k hk with hold | ⟨hnew, hlt⟩
    · have hbefore : w.sent[k]? = some ⟨x, y, .digest d⟩ :=
        (hg.sent_cases he).resolve_right fun hh => absurd (h.handled k hold) hh.1.not_gt
      have hle := (h.digests x y d (List.mem_of_getElem? hbefore) key v hv).2
      exact (h.digested k hold x y d hbefore key v hv).imp (fun hh => hh.trans (hg.held y key))
        (hpulled x y key v hle)
    · have hbefore : w.sent[k]? = some ⟨x, y, .digest d⟩ :=
        (hg.sent_cases he).resolve_right fun hh => absurd hlt hh.1.not_gt
      obtain ⟨hkey, -⟩ := h.digests x y d (List.mem_of_getElem? hbefore) key v hv
      rcases hg.digested k hnew x y d hbefore key v hv hkey with hheld | ⟨d', hd', hexceeds⟩
      · exact Or.inl hheld
      · right
        obtain ⟨i, hi, hget⟩ := List.getElem_of_mem hd'
        have hat : w'.sent[w.sent.length + i]? = some ⟨y, x, .pull d'⟩ := by
          rw [hg.sent, List.getElem?_append_right (Nat.le_add_right _ _), Nat.add_sub_cancel_left,
            List.getElem?_eq_getElem hi, hget]
        refine ⟨w.sent.length + i, d', hat, hexceeds, fun hhandled => ?_⟩
        rcases hg.handled _ hhandled with hold | ⟨-, hlt'⟩
        · exact absurd (h.handled _ hold) (Nat.le_add_right _ _).not_gt
        · exact absurd hlt' (Nat.le_add_right _ _).not_gt
  · intro k hk x y es he e hmem
    rcases hg.handled k hk with hold | ⟨hnew, hlt⟩
    · have hbefore : w.sent[k]? = some ⟨x, y, .push es⟩ :=
        (hg.sent_cases he).resolve_right fun hh => absurd (h.handled k hold) hh.1.not_gt
      exact (h.delivered k hold x y es hbefore e hmem).trans (hg.held y e.1)
    · have hbefore : w.sent[k]? = some ⟨x, y, .push es⟩ :=
        (hg.sent_cases he).resolve_right fun hh => absurd hlt hh.1.not_gt
      exact hg.delivered k hnew x y es hbefore e hmem

/-! ### One step -/

theorem growth_pushDigest (w : GossipNetwork α) (y targetId : JsString) :
    Growth w { w with sent := w.sent ++ [⟨y, targetId, .digest (w.node y).digest⟩] }
      [⟨y, targetId, .digest (w.node y).digest⟩] none where
  localId _ := rfl
  held _ _ := le_rfl
  entries _ _ _ h := Or.inl h
  sets := rfl
  mark := rfl
  sent := rfl
  pushed e he x hx := by
    obtain rfl := List.mem_singleton.mp he
    cases hx
  digests x z d he := by
    cases List.mem_singleton.mp he
    rfl
  received _ _ hx := Or.inl hx
  handled _ hk := Or.inl hk
  digested _ hk := nomatch hk
  pulled _ hk := nomatch hk
  delivered _ hk := nomatch hk

/-- The network after message `k`, from `x` to `y`, was handled with this outcome. -/
def handledAs (w : GossipNetwork α) (k : ℕ) (x y : JsString) (pushed : List (KeyedEntry α))
    (r : GossipProtocol α × List (GossipMessage α)) : GossipNetwork α :=
  { w with
    node := Function.update w.node y r.1
    sent := w.sent ++ r.2.map fun msg => ⟨y, x, msg⟩
    handled := w.handled ++ [k]
    received := Function.update w.received y (w.received y ++ pushed) }

variable {x y : JsString}

theorem mem_handled {j : ℕ} {pushed : List (KeyedEntry α)}
    {r : GossipProtocol α × List (GossipMessage α)} (he : w.sent[k]? = some e)
    (hj : j ∈ (w.handledAs k x y pushed r).handled) : j ∈ w.handled ∨ (some k = some j ∧ j < w.sent.length) := by
  rcases List.mem_append.mp hj with hold | hnew
  · exact Or.inl hold
  · obtain rfl := List.mem_singleton.mp hnew
    obtain ⟨hlt, -⟩ := List.getElem?_eq_some_iff.mp he
    exact Or.inr ⟨rfl, hlt⟩

theorem mem_received {z : JsString} {pushed : List (KeyedEntry α)}
    {r : GossipProtocol α × List (GossipMessage α)} {e : KeyedEntry α}
    (h : e ∈ (w.handledAs k x y pushed r).received z) : e ∈ w.received z ∨ (z = y ∧ e ∈ pushed) := by
  change e ∈ Function.update w.received y (w.received y ++ pushed) z at h
  by_cases hz : z = y
  · rw [hz, Function.update_self] at h
    rw [hz]
    exact (List.mem_append.mp h).imp_right fun hmem => ⟨rfl, hmem⟩
  · rw [Function.update_of_ne hz] at h
    exact Or.inl h

theorem growth_reply (h : Sound ids w) {msg : GossipMessage α}
    (he : w.sent[k]? = some ⟨x, y, msg⟩) {replies : List (GossipMessage α)}
    (hmsg : (∃ d, msg = .digest d ∧ replies = (w.node y).handleDigest d) ∨
      ∃ d, msg = .pull d ∧ replies = (w.node y).handlePull d) :
    Growth w (w.handledAs k x y [] (w.node y, replies)) (replies.map fun msg => ⟨y, x, msg⟩) (some k) := by
  have hnode : (w.handledAs k x y [] (w.node y, replies)).node = w.node := Function.update_eq_self y w.node
  have hreplies : ∀ reply ∈ replies, reply = .pull (w.node y).digest ∨
      ∃ d, reply = .push ((w.node y).newer d) := by
    intro reply hreply
    rcases hmsg with ⟨d, -, rfl⟩ | ⟨d, -, rfl⟩
    · exact (GossipProtocol.mem_handleDigest hreply).imp_right fun hpush => ⟨d, hpush⟩
    · exact Or.inr ⟨d, List.mem_singleton.mp hreply⟩
  refine { localId := fun z => by rw [hnode], held := fun z key => by rw [hnode], entries := ?_, sets := rfl,
           mark := rfl, sent := rfl, pushed := ?_, digests := ?_, received := ?_, handled := ?_,
           digested := ?_, pulled := ?_, delivered := ?_ }
  · intro z key entry hget
    rw [hnode] at hget
    exact Or.inl hget
  · intro e hmem z hz
    obtain ⟨reply, hreply, rfl⟩ := List.mem_map.mp hmem
    rcases hreplies reply hreply with rfl | ⟨d, rfl⟩
    · cases hz
    · exact h.held y z.1 z.2 (GossipProtocol.mem_newer.mp hz).1
  · intro a b d hmem
    obtain ⟨reply, hreply, heq⟩ := List.mem_map.mp hmem
    rcases hreplies reply hreply with rfl | ⟨d, rfl⟩
    · cases heq
    · cases heq
  · exact fun z e hmem => Or.inl ((mem_received hmem).resolve_right fun hnew => absurd hnew.2 List.not_mem_nil)
  · exact fun j hj => mem_handled he hj
  · intro j hj a b d hget key v hv hkey
    obtain rfl := Option.some.inj hj
    rw [he] at hget
    obtain ⟨rfl, rfl, rfl⟩ := GossipEnvelope.mk.inj (Option.some.inj hget)
    rcases hmsg with ⟨d', hd', rfl⟩ | ⟨d', hd', -⟩
    · obtain rfl := GossipMessage.digest.inj hd'
      rw [hnode]
      by_cases hle : v ≤ (w.node y).held key
      · exact Or.inl hle
      · have hlt : (w.node y).held key < v := not_le.mp hle
        refine Or.inr ⟨(w.node y).digest, List.mem_map.mpr ⟨_, ?_, rfl⟩, GossipProtocol.exceeds_digest hkey hlt⟩
        rw [GossipProtocol.handleDigest, if_pos (GossipProtocol.needPull_of_lt hkey hv hlt)]
        exact List.mem_append_left _ List.mem_cons_self
    · cases hd'
  · intro j hj a b d hget key v hexceeds hv
    obtain rfl := Option.some.inj hj
    rw [he] at hget
    obtain ⟨rfl, rfl, rfl⟩ := GossipEnvelope.mk.inj (Option.some.inj hget)
    rcases hmsg with ⟨d', hd', -⟩ | ⟨d', hd', rfl⟩
    · cases hd'
    · obtain rfl := GossipMessage.pull.inj hd'
      have hpos : 0 < v := by
        by_contra hzero
        obtain rfl : v = 0 := Nat.eq_zero_of_not_pos hzero
        rw [exceeds] at hexceeds
        cases hread : d.read key with
        | own remote =>
            rw [hread] at hexceeds
            exact absurd (of_decide_eq_true hexceeds) (Nat.not_lt_zero _)
        | inherited =>
            rw [hread] at hexceeds
            cases hexceeds
        | absent =>
            rw [hread] at hexceeds
            exact absurd (of_decide_eq_true hexceeds) (Nat.not_lt_zero _)
      obtain ⟨entry, hentry, hversion⟩ := GossipProtocol.exists_of_held_pos (hpos.trans_le hv)
      have hle : v ≤ entry.version := hversion ▸ hv
      exact ⟨_, List.mem_map.mpr ⟨_, List.mem_singleton.mpr rfl, rfl⟩, (key, entry),
        GossipProtocol.mem_newer.mpr ⟨hentry, GossipProtocol.exceeds_mono hexceeds hle⟩, rfl, hle⟩
  · intro j hj a b es hget
    obtain rfl := Option.some.inj hj
    rw [he] at hget
    obtain ⟨-, -, rfl⟩ := GossipEnvelope.mk.inj (Option.some.inj hget)
    rcases hmsg with ⟨d', hd', -⟩ | ⟨d', hd', -⟩
    · cases hd'
    · cases hd'

theorem growth_push (h : Sound ids w) {es : List (KeyedEntry α)} (he : w.sent[k]? = some ⟨x, y, .push es⟩) :
    Growth w (w.handledAs k x y es ((w.node y).handlePush es, [])) [] (some k) := by
  have hself : (w.handledAs k x y es ((w.node y).handlePush es, [])).node y = (w.node y).handlePush es :=
    Function.update_self ..
  have hother : ∀ z ≠ y, (w.handledAs k x y es ((w.node y).handlePush es, [])).node z = w.node z :=
    fun z hz => Function.update_of_ne hz ..
  refine { localId := ?_, held := ?_, entries := ?_, sets := rfl, mark := rfl, sent := rfl,
           pushed := fun e he => absurd he List.not_mem_nil, digests := fun _ _ _ he => absurd he List.not_mem_nil,
           received := ?_, handled := fun j hj => mem_handled he hj, digested := ?_, pulled := ?_,
           delivered := ?_ }
  · intro z
    by_cases hz : z = y
    · rw [hz, hself]
      exact ((w.node y).localId_handlePush es).1
    · rw [hother z hz]
  · intro z key
    by_cases hz : z = y
    · rw [hz, hself]
      exact (w.node y).held_le_handlePush es key
    · rw [hother z hz]
  · intro z key entry hget
    by_cases hz : z = y
    · rw [hz, hself] at hget
      rw [hz]
      exact (GossipProtocol.get?_handlePush hget).imp_right
        fun hmem => h.pushed _ (List.mem_of_getElem? he) (key, entry) hmem
    · rw [hother z hz] at hget
      exact Or.inl hget
  · intro z e hmem
    rcases mem_received hmem with hold | ⟨rfl, hes⟩
    · exact Or.inl hold
    · rw [hself]
      exact Or.inr ((w.node z).version_le_handlePush hes)
  · intro j hj a b d hget
    obtain rfl := Option.some.inj hj
    cases he.symm.trans hget
  · intro j hj a b d hget
    obtain rfl := Option.some.inj hj
    cases he.symm.trans hget
  · intro j hj a b es' hget e hmem
    obtain rfl := Option.some.inj hj
    rw [he] at hget
    obtain ⟨rfl, rfl, hes⟩ := GossipEnvelope.mk.inj (Option.some.inj hget)
    obtain rfl := GossipMessage.push.inj hes
    rw [hself]
    exact (w.node y).version_le_handlePush hmem

theorem sound_deliver (h : Sound ids w) (hs : step ids w (.deliver k) = some w') : Sound ids w' := by
  rw [step] at hs
  cases he : w.sent[k]? with
  | none =>
      rw [he] at hs
      cases hs
  | some e =>
      rw [he] at hs
      obtain rfl := Option.some.inj hs
      obtain ⟨x, y, msg⟩ := e
      cases msg with
      | digest d => exact h.growth (growth_reply h he (Or.inl ⟨d, rfl, rfl⟩))
      | pull d => exact h.growth (growth_reply h he (Or.inr ⟨d, rfl, rfl⟩))
      | push es => exact h.growth (growth_push h he)

theorem sound_set {key : JsString} {value : α} (h : Sound ids w) (hfresh : w.Fresh (.set y key value))
    (hs : step ids w (.set y key value) = some w') : Sound ids w' := by
  obtain ⟨hle, hkey, hunique⟩ := hfresh
  rw [step] at hs
  split_ifs at hs with hy
  obtain rfl := Option.some.inj hs
  have hgrow : ∀ z k, (w.node z).held k ≤ (Function.update w.node y ((w.node y).set key value) z).held k := by
    intro z k
    by_cases hz : z = y
    · rw [hz, Function.update_self, GossipProtocol.held_set]
      split_ifs with hk
      · exact hk ▸ hle
      · exact le_rfl
    · rw [Function.update_of_ne hz]
  have hset : ∀ {k entry}, w.WasSet k entry → ∃ s ∈ w.sets ++ [w.written y key value], s.key = k ∧ s.entry = entry :=
    fun ⟨s, hs, hrest⟩ => ⟨s, List.mem_append_left _ hs, hrest⟩
  have hcases : ∀ s ∈ w.sets ++ [w.written y key value], s ∈ w.sets ∨ s = w.written y key value :=
    fun s hs => (List.mem_append.mp hs).imp_right List.mem_singleton.mp
  refine { localId := ?_, held := ?_, pushed := ?_, seen := ?_, received := ?_, origin := ?_, same := ?_,
           handled := h.handled, digests := ?_, marked := ?_, digested := ?_, delivered := ?_ }
  · intro z
    dsimp only
    by_cases hz : z = y
    · rw [hz, Function.update_self]
      exact h.localId y
    · rw [Function.update_of_ne hz]
      exact h.localId z
  · intro z k entry hget
    dsimp only at hget
    by_cases hz : z = y
    · rw [hz, Function.update_self, GossipProtocol.get?_set] at hget
      split_ifs at hget with hk
      · obtain rfl := Option.some.inj hget
        exact ⟨w.written y key value, List.mem_append_right _ List.mem_cons_self, hk.symm, rfl⟩
      · exact hset (h.held y k entry hget)
    · rw [Function.update_of_ne hz] at hget
      exact hset (h.held z k entry hget)
  · exact fun e he x hx => hset (h.pushed e he x hx)
  · intro s hs x hx
    rcases hcases s hs with hold | rfl
    · exact h.seen s hold x hx
    · obtain ⟨e, he, rfl⟩ := List.mem_map.mp hx
      obtain ⟨hmem, hek⟩ := List.mem_filter.mp he
      have hreceived := h.received y e hmem
      rw [of_decide_eq_true hek] at hreceived
      exact hreceived.trans hle
  · exact fun z x hx => (h.received z x hx).trans (hgrow z x.1)
  · intro s hs
    rcases hcases s hs with hold | rfl
    · obtain ⟨hid, hk, hpos, hheld⟩ := h.origin s hold
      exact ⟨hid, hk, hpos, hheld.trans (hgrow _ _)⟩
    · have horigin : (w.written y key value).entry.origin = y := h.localId y
      refine ⟨horigin.symm ▸ hy, hkey, Nat.succ_pos _, ?_⟩
      rw [horigin]
      dsimp only
      rw [Function.update_self, GossipProtocol.held_set,
        if_pos (show (w.written y key value).key = key from rfl)]
      exact le_rfl
  · intro s hs s' hs' hk hv
    rcases hcases s hs with hold | rfl
    · rcases hcases s' hs' with hold' | rfl
      · exact h.same s hold s' hold' hk hv
      · exact hunique s hold hk hv
    · rcases hcases s' hs' with hold' | rfl
      · exact (hunique s' hold' hk.symm hv.symm).symm
      · rfl
  · intro a b d he k v hv
    obtain ⟨hk, hheld⟩ := h.digests a b d he k v hv
    exact ⟨hk, hheld.trans (hgrow a k)⟩
  · intro k hk a b d he
    rw [List.getElem?_eq_none hk] at he
    cases he
  · intro k hk a b d he key' v hv
    exact (h.digested k hk a b d he key' v hv).imp_left fun hh => hh.trans (hgrow b key')
  · exact fun k hk a b es he e hmem => (h.delivered k hk a b es he e hmem).trans (hgrow b e.1)

theorem sound_step {a : GossipAction α} (h : Sound ids w) (hfresh : w.Fresh a) (hs : step ids w a = some w') :
    Sound ids w' := by
  cases a with
  | set y key value => exact sound_set h hfresh hs
  | pushDigest y targetId =>
      rw [step] at hs
      split_ifs at hs
      obtain rfl := Option.some.inj hs
      exact h.growth (growth_pushDigest w y targetId)
  | deliver k => exact sound_deliver h hs

/-! ### Results -/

theorem version_lt_of_replaced {g : GossipProtocol α} {entries : List (KeyedEntry α)} {r : Replaced α}
    (h : r ∈ replacements g entries) : r.old.version < r.new.version := by
  induction entries generalizing g with
  | nil => cases h
  | cons e entries ih =>
      rw [replacements] at h
      rcases List.mem_append.mp h with h | h
      · cases hget : g.state.get? e.1 with
        | none =>
            rw [hget] at h
            cases h
        | some entry =>
            rw [hget] at h
            dsimp only at h
            split_ifs at h with hlt
            · obtain rfl := List.mem_singleton.mp h
              exact hlt
            · cases h
      · exact ih h

theorem Sound.keepsSet (h : Sound ids w) (k : ℕ) : w.KeepsSet k := by
  intro e _ r hr s hs _ hold hseen
  have hlt := version_lt_of_replaced hr
  have hle := h.seen s hs r.new hseen
  rw [hold] at hle
  exact absurd hlt hle.not_gt

theorem Sound.version_le_held (h : Sound ids w) (hall : w.Exchanged ids) {s : Written α} (hs : s ∈ w.sets)
    (hy : y ∈ ids) : s.entry.version ≤ (w.node y).held s.key := by
  obtain ⟨hhandled, hdigests⟩ := hall
  obtain ⟨hid, -, -, hle⟩ := h.origin s hs
  by_cases heq : s.entry.origin = y
  · exact heq ▸ hle
  · obtain ⟨k, hk, d, hget⟩ := hdigests _ hid y hy heq
    obtain ⟨v, hv, hversion⟩ := h.marked k hk _ y d hget s hs rfl
    have hlt : k < w.sent.length := (List.getElem?_eq_some_iff.mp hget).1
    refine hversion.trans ?_
    rcases h.digested k (hhandled k hlt) _ y d hget s.key v hv with hheld | ⟨j, d', hj, -, hanswer⟩
    · exact hheld
    · obtain ⟨es, hes, e, hmem, hek, hev⟩ := hanswer (hhandled j (List.getElem?_eq_some_iff.mp hj).1)
      obtain ⟨i, hi, hget'⟩ := List.getElem_of_mem hes
      have hpush : w.sent[i]? = some ⟨s.entry.origin, y, .push es⟩ := by
        rw [List.getElem?_eq_getElem hi, hget']
      have hdelivered := h.delivered i (hhandled i hi) _ y es hpush e hmem
      rw [hek] at hdelivered
      exact hev.trans hdelivered

theorem Sound.sameValues (h : Sound ids w) (hall : w.Exchanged ids) : w.SameValues ids := by
  -- a node that holds an entry of a key is met by every other node
  have hmeets : ∀ x ∈ ids, ∀ y ∈ ids, ∀ key entry, (w.node x).state.get? key = some entry →
      ∃ entry', (w.node y).state.get? key = some entry' ∧ entry.version ≤ entry'.version := by
    intro x _ y hy key entry hget
    obtain ⟨s, hs, rfl, rfl⟩ := h.held x key entry hget
    have hle := h.version_le_held hall hs hy
    obtain ⟨entry', hget', hversion⟩ := GossipProtocol.exists_of_held_pos ((h.origin s hs).2.2.1.trans_le hle)
    exact ⟨entry', hget', hversion ▸ hle⟩
  intro x hx y hy key
  rw [GossipProtocol.get, GossipProtocol.get]
  cases hxk : (w.node x).state.get? key with
  | none =>
      cases hyk : (w.node y).state.get? key with
      | none => rfl
      | some entry =>
          obtain ⟨entry', hget', -⟩ := hmeets y hy x hx key entry hyk
          rw [hxk] at hget'
          cases hget'
  | some entry =>
      obtain ⟨entry', hyk, hle⟩ := hmeets x hx y hy key entry hxk
      obtain ⟨entry'', hxk', hle'⟩ := hmeets y hy x hx key entry' hyk
      rw [hxk] at hxk'
      obtain rfl := Option.some.inj hxk'
      obtain ⟨s, hs, hk, rfl⟩ := h.held x key entry hxk
      obtain ⟨s', hs', hk', rfl⟩ := h.held y key entry' hyk
      rw [hyk]
      exact congrArg some (h.same s hs s' hs' (hk.trans hk'.symm) (le_antisymm hle hle'))

/-- In every run whose values are set under fresh versions, an entry that a node had received before it set a
value never replaces that value, and after the exchange all nodes hold the same values. -/
theorem gossip_converges (α : Type) (ids : List JsString) (w : GossipNetwork α)
    (h : (machine α ids).Reach Fresh w) :
    (∀ k, w.KeepsSet k) ∧ (w.Exchanged ids → w.SameValues ids) := by
  have hsound : Sound ids w :=
    h.invariant (I := Sound ids) (sound_init ids) fun _ _ _ hi hok hs => sound_step hi hok hs
  exact ⟨hsound.keepsSet, hsound.sameValues⟩

instance [DecidableEq α] (w : GossipNetwork α) (a : GossipAction α) : Decidable (w.Fresh a) := by
  cases a with
  | set y key value => exact inferInstanceAs (Decidable (_ ∧ _ ∧ _))
  | pushDigest y targetId => exact instDecidableTrue
  | deliver k => exact instDecidableTrue

/-- Bob receives what Alice set, sets another key, and then sets Alice's key; the two exchange digests. -/
def bobFollows : List (GossipAction ℕ) :=
  [.set (js "alice") (js "k") 1, .pushDigest (js "alice") (js "bob"), .deliver 0, .deliver 1, .deliver 2,
    .set (js "bob") (js "j") 5, .set (js "bob") (js "k") 2, .pushDigest (js "bob") (js "alice"), .deliver 3,
    .deliver 4, .deliver 5, .pushDigest (js "alice") (js "bob"), .deliver 6]

theorem gossip_converges_bob : ∃ w, (machine ℕ [js "alice", js "bob"]).run Fresh
    (machine ℕ [js "alice", js "bob"]).init bobFollows = some w ∧ (∀ k, w.KeepsSet k) ∧
    w.SameValues [js "alice", js "bob"] ∧ (w.node (js "alice")).get (js "k") = some 2 := by
  obtain ⟨w, hw, hreach, hlength, hhandled, hmark, halice, hbob, hvalue⟩ := Machine.exists_of_run
    (P := fun w : GossipNetwork ℕ => w.sent.length = 7 ∧ w.handled = [0, 1, 2, 3, 4, 5, 6] ∧ w.mark = 3 ∧
      w.sent[6]? = some ⟨js "alice", js "bob", .digest (w.node (js "alice")).digest⟩ ∧
      w.sent[3]? = some ⟨js "bob", js "alice", .digest (w.node (js "bob")).digest⟩ ∧
      (w.node (js "alice")).get (js "k") = some 2)
    (show ((machine ℕ [js "alice", js "bob"]).run Fresh (machine ℕ [js "alice", js "bob"]).init bobFollows).any _ =
      true by decide +kernel)
  obtain ⟨hkeeps, hsame⟩ := gossip_converges ℕ [js "alice", js "bob"] w hreach
  refine ⟨w, hw, hkeeps, hsame ⟨fun k hk => ?_, fun x hx y hy hne => ?_⟩, hvalue⟩
  · rw [hhandled]
    rw [hlength] at hk
    interval_cases k <;> decide
  · rw [hmark]
    rcases List.mem_pair.mp hx with rfl | rfl
    · rcases List.mem_pair.mp hy with rfl | rfl
      · exact absurd rfl hne
      · exact ⟨6, by decide, _, halice⟩
    · rcases List.mem_pair.mp hy with rfl | rfl
      · exact ⟨3, by decide, _, hbob⟩
      · exact absurd rfl hne

/-- A late copy of Alice's entry replaces the value that Bob set after he had received it; and values that are
set under the same version stay apart. -/
theorem update_lost_and_values_apart : (¬ ∀ (ids : List JsString) (w : GossipNetwork ℕ),
      (machine ℕ ids).Reach (fun _ _ => True) w → ∀ k, w.KeepsSet k) ∧
    ¬ ∀ (ids : List JsString) (w : GossipNetwork ℕ),
      (machine ℕ ids).Reach (fun _ _ => True) w → w.Exchanged ids → w.SameValues ids := by
  constructor
  · intro h
    obtain ⟨w, -, hreach, hsent, hheld, hset⟩ := Machine.exists_of_run
      (P := fun w : GossipNetwork ℕ =>
        w.sent[1]? = some ⟨js "alice", js "bob", .push [(js "k", ⟨2, 2, js "alice"⟩)]⟩ ∧
        (w.node (js "bob")).state.get? (js "k") = some ⟨3, 1, js "bob"⟩ ∧
        ⟨js "k", ⟨3, 1, js "bob"⟩, [⟨2, 2, js "alice"⟩]⟩ ∈ w.sets)
      (show ((machine ℕ [js "alice", js "bob"]).run (fun _ _ => True) (machine ℕ [js "alice", js "bob"]).init
        [.set (js "alice") (js "k") 1, .set (js "alice") (js "k") 2, .pushDigest (js "bob") (js "alice"),
          .deliver 0, .deliver 1, .set (js "bob") (js "k") 3]).any _ = true by decide +kernel)
    refine h [js "alice", js "bob"] w hreach 1 _ hsent ⟨js "k", ⟨3, 1, js "bob"⟩, ⟨2, 2, js "alice"⟩⟩ ?_ _ hset rfl
      rfl List.mem_cons_self
    rw [GossipMessage.pushed, replacements]
    dsimp only
    rw [hheld]
    exact List.mem_cons_self
  · intro h
    obtain ⟨w, -, hreach, hlength, hhandled, hmark, halice, hbob, hvalue⟩ := Machine.exists_of_run
      (P := fun w : GossipNetwork ℕ => w.sent.length = 2 ∧ w.handled = [0, 1] ∧ w.mark = 0 ∧
        w.sent[0]? = some ⟨js "alice", js "bob", .digest (w.node (js "alice")).digest⟩ ∧
        w.sent[1]? = some ⟨js "bob", js "alice", .digest (w.node (js "bob")).digest⟩ ∧
        (w.node (js "alice")).get (js "k") ≠ (w.node (js "bob")).get (js "k"))
      (show ((machine ℕ [js "alice", js "bob"]).run (fun _ _ => True) (machine ℕ [js "alice", js "bob"]).init
        [.set (js "alice") (js "k") 1, .set (js "bob") (js "k") 2, .pushDigest (js "alice") (js "bob"),
          .pushDigest (js "bob") (js "alice"), .deliver 0, .deliver 1]).any _ = true by decide +kernel)
    refine hvalue (h [js "alice", js "bob"] w hreach ⟨fun k hk => ?_, fun x hx y hy hne => ?_⟩ (js "alice")
      (by decide) (js "bob") (by decide) (js "k"))
    · rw [hhandled]
      rw [hlength] at hk
      interval_cases k <;> decide
    · rw [hmark]
      rcases List.mem_pair.mp hx with rfl | rfl
      · rcases List.mem_pair.mp hy with rfl | rfl
        · exact absurd rfl hne
        · exact ⟨0, le_rfl, _, halice⟩
      · rcases List.mem_pair.mp hy with rfl | rfl
        · exact ⟨1, by decide, _, hbob⟩
        · exact absurd rfl hne

end GossipNetwork
end BrowserMesh.Discovery
