import BrowserMesh.Js.Dict
import BrowserMesh.Js.Json
import BrowserMesh.Library.Transition

/-! # Replication of chunks

`replicatePut` waits until its targets have acknowledged the chunks of an entry or its timer runs out.
`handleReplicateAck` counts, for each target, the distinct ids of its acknowledgements, and compares the
count with the number of the chunks.  So the ids it counts need not be those of the chunks:
`acknowledged_iff`. -/

namespace BrowserMesh.Apps.ChunkReplication
open Js Transition

/-! ### The service -/

/-- What a call of `replicatePut` keeps while it waits. -/
structure Replication where
  targets : List JsString
  cids : JsSet JsString
  expectedByTarget : JsMap JsString (JsSet JsString)
  ackedByTarget : JsMap JsString (JsSet JsString)
  fullyAcked : JsSet JsString

/-- A `replicate-ack` message; `none` is an absent field. -/
structure ReplicateAck where
  requestId : Option Json
  cid : Option Json

/-- How a call comes to its result. -/
inductive Outcome where
  | localOnly
  | acked
  | timeout
deriving DecidableEq

/-- A call whose promise is resolved; without a request if there is nothing to wait for. -/
structure Settled where
  requestId : Option JsString
  replication : Replication
  outcome : Outcome

structure Service where
  subscribed : Bool
  reqSeq : ℕ
  pendingReplications : JsMap JsString Replication
  settled : List Settled

/-- `[...new Set((entry?.chunks || []).map((c) => c?.cid).filter(Boolean))]`. -/
def cidsOf (chunks : List (Option JsString)) : JsSet JsString :=
  JsSet.ofList ((chunks.filterMap id).filter fun cid => cid ≠ [])

namespace Replication

def start (targets : List JsString) (cids : JsSet JsString) : Replication where
  targets := targets
  cids := cids
  expectedByTarget := JsMap.ofEntries (targets.map fun t => (t, cids))
  ackedByTarget := JsMap.ofEntries (targets.map fun t => (t, JsSet.empty))
  fullyAcked := JsSet.empty

/-- The part of `handleReplicateAck` that changes the sets of the call, and whether the target has acknowledged enough;
`none` where it returns before. -/
def ack (r : Replication) (fromPubKey cid : JsString) : Option (Replication × Bool) :=
  match r.expectedByTarget.get? fromPubKey, r.ackedByTarget.get? fromPubKey with
  | some expected, some acked =>
      let acked := acked.add cid
      let r := { r with ackedByTarget := r.ackedByTarget.set fromPubKey acked }
      if acked.elems.length < expected.elems.length then some (r, false)
      else some ({ r with fullyAcked := r.fullyAcked.add fromPubKey }, true)
  | _, _ => none

/-- `pending.fullyAcked.size >= pending.expectedByTarget.size`. -/
def isComplete (r : Replication) : Bool := r.expectedByTarget.size ≤ r.fullyAcked.elems.length

def replicatedTo (r : Replication) : List JsString := r.fullyAcked.elems

end Replication

namespace Service

def init : Service := ⟨true, 0, JsMap.empty, []⟩

/-- `${peerNode?.podId || 'local'}:${Date.now()}:${++reqSeq}`. -/
def nextRequestId (s : Service) (podId : JsString) (now : ℕ) : JsString :=
  tagged ((if podId = [] then js "local" else podId) ++ colon :: decimal now) (s.reqSeq + 1)

/-- `replicatePut`, up to where it waits. -/
def replicatePut (s : Service) (podId : JsString) (now : ℕ) (targets : List JsString)
    (chunks : List (Option JsString)) : Service :=
  let r := Replication.start targets (cidsOf chunks)
  if r.targets = [] ∨ r.cids.elems = [] then { s with settled := s.settled ++ [⟨none, r, .localOnly⟩] }
  else
    { s with
      reqSeq := s.reqSeq + 1
      pendingReplications := s.pendingReplications.set (s.nextRequestId podId now) r }

/-- `pendingReplications.delete(requestId)` and `resolve()`. -/
def settle (s : Service) (requestId : JsString) (r : Replication) (outcome : Outcome) : Service :=
  { s with
    pendingReplications := s.pendingReplications.delete requestId
    settled := s.settled ++ [⟨some requestId, r, outcome⟩] }

def handleReplicateAck (s : Service) (fromPubKey requestId cid : JsString) : Service :=
  match s.pendingReplications.get? requestId with
  | none => s
  | some pending =>
      match pending.ack fromPubKey cid with
      | none => s
      | some (pending, enough) =>
          if enough ∧ pending.isComplete then s.settle requestId pending .acked
          else { s with pendingReplications := s.pendingReplications.set requestId pending }

def timeout (s : Service) (requestId : JsString) : Service :=
  match s.pendingReplications.get? requestId with
  | none => s
  | some pending => s.settle requestId pending .timeout

def teardown (s : Service) : Service := { s with subscribed := false, pendingReplications := JsMap.empty }

end Service

/-! ### Runs -/

/-- The service, with the acknowledgements that have come in for each request while it was pending. -/
structure System where
  service : Service
  heard : JsString → List (JsString × JsString)

inductive Action where
  | replicatePut (podId : JsString) (now : ℕ) (targets : List JsString) (chunks : List (Option JsString))
  /-- A query or a fetch takes a request id. -/
  | request
  | replicateAck (fromPubKey : JsString) (msg : ReplicateAck)
  | timeout (requestId : JsString)
  | teardown

namespace System

def receive (s : System) (fromPubKey requestId cid : JsString) : System where
  service := s.service.handleReplicateAck fromPubKey requestId cid
  heard :=
    if s.service.pendingReplications.has requestId then
      Function.update s.heard requestId (s.heard requestId ++ [(fromPubKey, cid)])
    else s.heard

/-- A message comes in: only a string is the id of a pending request, and only strings are counted. -/
def deliver (s : System) (fromPubKey : JsString) (msg : ReplicateAck) : System :=
  match msg.requestId, msg.cid with
  | some (.string requestId), some (.string cid) =>
      if s.service.subscribed then s.receive fromPubKey requestId cid else s
  | _, _ => s

def step (s : System) : Action → System
  | .replicatePut podId now targets chunks => { s with service := s.service.replicatePut podId now targets chunks }
  | .request => { s with service := { s.service with reqSeq := s.service.reqSeq + 1 } }
  | .replicateAck fromPubKey msg => s.deliver fromPubKey msg
  | .timeout requestId => { s with service := s.service.timeout requestId }
  | .teardown => { s with service := s.service.teardown }

end System

def machine : Machine System Action := ⟨⟨Service.init, fun _ => []⟩, fun s a => some (s.step a)⟩

def named (heard : List (JsString × JsString)) (target : JsString) : Finset JsString :=
  ((heard.filter fun e => e.1 = target).map Prod.snd).toFinset

namespace Settled

/-- The acknowledgements that came in before the call was resolved. -/
def heard (s : System) (c : Settled) : List (JsString × JsString) := c.requestId.elim [] s.heard

/-- The result names only targets that have acknowledged every chunk, and it waited for all of them, the time-out
excepted. -/
def Sound (s : System) (c : Settled) : Prop :=
  (∀ t ∈ c.replication.replicatedTo, t ∈ c.replication.targets ∧ ∀ cid ∈ c.replication.cids, (t, cid) ∈ c.heard s) ∧
  (c.outcome ≠ .timeout → ∀ t ∈ c.replication.targets, ∀ cid ∈ c.replication.cids, (t, cid) ∈ c.heard s)

/-- A target that leaves out chunks acknowledges fewer other ids than it leaves out. -/
def Matched (s : System) (c : Settled) : Prop :=
  ∀ t ∈ c.replication.targets, c.replication.cids.elems.toFinset ⊆ named (c.heard s) t ∨
    (named (c.heard s) t \ c.replication.cids.elems.toFinset).card <
      (c.replication.cids.elems.toFinset \ named (c.heard s) t).card

end Settled

theorem mem_named {heard : List (JsString × JsString)} {t cid : JsString} :
    cid ∈ named heard t ↔ (t, cid) ∈ heard := by
  simp [named]

theorem named_append {heard : List (JsString × JsString)} {e : JsString × JsString} {t : JsString} :
    named (heard ++ [e]) t = if e.1 = t then insert e.2 (named heard t) else named heard t := by
  ext cid
  rw [mem_named, List.mem_append, List.mem_singleton]
  split_ifs with h
  · rw [Finset.mem_insert, mem_named, or_comm, ← h, Prod.mk.injEq, eq_comm (a := e.1)]
    simp
  · rw [mem_named, or_iff_left]
    rintro rfl
    exact h rfl

/-! ### One call -/

/-- What the sets of a call hold after the acknowledgements `heard`. -/
structure Replication.Tracks (r : Replication) (heard : List (JsString × JsString)) : Prop where
  expected : ∀ t, r.expectedByTarget.get? t = if t ∈ r.targets then some r.cids else none
  acked : ∀ t ∈ r.targets, ∃ acked, r.ackedByTarget.get? t = some acked ∧ acked.elems.toFinset = named heard t
  full : ∀ t, t ∈ r.fullyAcked ↔ t ∈ r.targets ∧ r.cids.elems.length ≤ (named heard t).card

namespace Replication

theorem tracks_start {targets : List JsString} {cids : JsSet JsString} (hcids : cids.elems ≠ []) :
    (start targets cids).Tracks [] where
  expected t := (JsMap.get?_ofEntries_const targets cids t).trans (by congr)
  acked t ht := ⟨JsSet.empty, (JsMap.get?_ofEntries_const targets _ t).trans (if_pos ht), rfl⟩
  full t := by
    have hlength : ¬ cids.elems.length ≤ (named [] t).card := by
      have hpos := List.length_pos_of_ne_nil hcids
      show ¬ cids.elems.length ≤ 0
      omega
    exact iff_of_false (JsSet.not_mem_empty t) fun h => hlength h.2

variable {r r' : Replication} {heard : List (JsString × JsString)} {fromPubKey cid : JsString}

theorem Tracks.ack_none (h : r.Tracks heard) (hack : r.ack fromPubKey cid = none) :
    r.Tracks (heard ++ [(fromPubKey, cid)]) := by
  have hfrom : fromPubKey ∉ r.targets := by
    intro hmem
    obtain ⟨acked, hacked, _⟩ := h.acked fromPubKey hmem
    rw [ack, h.expected, if_pos hmem, hacked] at hack
    dsimp only at hack
    split_ifs at hack
  have hnamed : ∀ t ∈ r.targets, named (heard ++ [(fromPubKey, cid)]) t = named heard t := by
    intro t ht
    rw [named_append, if_neg]
    rintro rfl
    exact hfrom ht
  refine ⟨h.expected, fun t ht => ?_, fun t => ?_⟩
  · rw [hnamed t ht]
    exact h.acked t ht
  · rw [h.full t]
    exact and_congr_right fun ht => by rw [hnamed t ht]

theorem toFinset_add (acked : JsSet JsString) (cid : JsString) :
    (acked.add cid).elems.toFinset = insert cid acked.elems.toFinset := by
  ext a
  rw [List.mem_toFinset, Finset.mem_insert, List.mem_toFinset, JsSet.mem_elems, JsSet.mem_add, or_comm, JsSet.mem_elems]

theorem card_toFinset (acked : JsSet JsString) : acked.elems.toFinset.card = acked.elems.length :=
  List.toFinset_card_of_nodup acked.nodup

/-- A counted acknowledgement comes from a target, which is done if the distinct ids are as many as the chunks. -/
theorem Tracks.ack_some {enough : Bool} (h : r.Tracks heard) (hack : r.ack fromPubKey cid = some (r', enough)) :
    r'.Tracks (heard ++ [(fromPubKey, cid)]) ∧ r'.targets = r.targets ∧ r'.cids = r.cids := by
  have hfrom : fromPubKey ∈ r.targets := by
    by_contra hmem
    rw [ack, h.expected, if_neg hmem] at hack
    cases hack
  obtain ⟨acked, hacked, hset⟩ := h.acked fromPubKey hfrom
  have hadd : (acked.add cid).elems.toFinset = named (heard ++ [(fromPubKey, cid)]) fromPubKey := by
    rw [toFinset_add, named_append, if_pos rfl, hset]
  have hother : ∀ t, t ≠ fromPubKey → named (heard ++ [(fromPubKey, cid)]) t = named heard t :=
    fun t ht => by rw [named_append, if_neg (Ne.symm ht)]
  have hset' : ∀ t ∈ r.targets, ∃ a, (r.ackedByTarget.set fromPubKey (acked.add cid)).get? t = some a ∧
      a.elems.toFinset = named (heard ++ [(fromPubKey, cid)]) t := by
    intro t ht
    rw [JsMap.get?_set]
    split_ifs with heq
    · exact ⟨_, rfl, heq ▸ hadd⟩
    · rw [hother t heq]
      exact h.acked t ht
  have hgrows : named heard fromPubKey ⊆ named (heard ++ [(fromPubKey, cid)]) fromPubKey := by
    rw [named_append, if_pos rfl]
    exact Finset.subset_insert _ _
  have hcard : (acked.add cid).elems.length = (named (heard ++ [(fromPubKey, cid)]) fromPubKey).card := by
    rw [← card_toFinset, hadd]
  rw [ack, h.expected, if_pos hfrom, hacked] at hack
  dsimp only at hack
  split_ifs at hack with hless
  · cases hack
    refine ⟨⟨h.expected, hset', fun t => (h.full t).trans (and_congr_right fun _ => ?_)⟩, rfl, rfl⟩
    by_cases ht : t = fromPubKey
    · subst ht
      have hle := Finset.card_le_card hgrows
      dsimp only
      omega
    · rw [hother t ht]
  · cases hack
    refine ⟨⟨h.expected, hset', fun t => ?_⟩, rfl, rfl⟩
    rw [JsSet.mem_add, h.full t]
    by_cases ht : t = fromPubKey
    · subst ht
      exact iff_of_true (Or.inr rfl) ⟨hfrom, by rw [← hcard]; exact Nat.le_of_not_lt hless⟩
    · rw [hother t ht, or_iff_left ht]

theorem Tracks.complete (h : r.Tracks heard) (hall : r.isComplete = true) : ∀ t ∈ r.targets, t ∈ r.fullyAcked := by
  have hkeys : r.expectedByTarget.keys.toFinset = r.targets.toFinset := by
    ext t
    rw [List.mem_toFinset, List.mem_toFinset, ← JsMap.has_iff, JsMap.has, h.expected]
    split_ifs with ht <;> simp [ht]
  have hsub : r.fullyAcked.elems.toFinset ⊆ r.targets.toFinset := by
    intro t ht
    exact List.mem_toFinset.mpr ((h.full t).mp (List.mem_toFinset.mp ht)).1
  have hcard : r.targets.toFinset.card ≤ r.fullyAcked.elems.toFinset.card := by
    have hsize : r.expectedByTarget.keys.toFinset.card = r.expectedByTarget.size :=
      (List.toFinset_card_of_nodup r.expectedByTarget.nodup).trans (List.length_map _)
    rw [← hkeys, hsize, card_toFinset]
    exact of_decide_eq_true hall
  intro t ht
  rw [← List.mem_toFinset, ← Finset.eq_of_subset_of_card_le hsub hcard] at ht
  exact List.mem_toFinset.mp ht

end Replication

/-! ### All calls -/

def Service.Issued (s : Service) (requestId : JsString) : Prop := ∃ p n, n ≤ s.reqSeq ∧ requestId = tagged p n

namespace System

/-- Pending and resolved calls have different ids, and each has counted what has come in for it. -/
structure Counted (s : System) : Prop where
  issued : ∀ requestId, ¬ s.service.Issued requestId → s.heard requestId = [] ∧
    s.service.pendingReplications.get? requestId = none
  pending : ∀ requestId r, s.service.pendingReplications.get? requestId = some r → r.Tracks (s.heard requestId)
  settled : ∀ c ∈ s.service.settled,
    c.requestId = none ∧ c.outcome = .localOnly ∧ c.replication.fullyAcked = JsSet.empty ∧
        (c.replication.targets = [] ∨ c.replication.cids.elems = []) ∨
      ∃ requestId, c.requestId = some requestId ∧ s.service.Issued requestId ∧
        s.service.pendingReplications.get? requestId = none ∧ c.replication.Tracks (s.heard requestId) ∧
        (c.outcome ≠ .timeout → ∀ t ∈ c.replication.targets, t ∈ c.replication.fullyAcked)

variable {s : System}

theorem counted_init : System.Counted ⟨Service.init, fun _ => []⟩ where
  issued _ _ := ⟨rfl, rfl⟩
  pending _ _ h := by cases h
  settled _ h := by cases h

variable {requestId : JsString}

theorem ne_of_pending {m : JsMap JsString Replication} {id : JsString} {r : Replication}
    (hr : m.get? requestId = some r) (hnone : m.get? id = none) : id ≠ requestId := by
  rintro rfl
  rw [hr] at hnone
  cases hnone

theorem Counted.waits {r r' : Replication} {heard : List (JsString × JsString)}
    (h : s.Counted) (hr : s.service.pendingReplications.get? requestId = some r) (htracks : r'.Tracks heard) :
    System.Counted ⟨{ s.service with pendingReplications := s.service.pendingReplications.set requestId r' },
      Function.update s.heard requestId heard⟩ where
  issued id hid := by
    obtain ⟨hheard, hnone⟩ := h.issued id hid
    have hne := ne_of_pending hr hnone
    dsimp only
    rw [Function.update_of_ne hne, JsMap.get?_set, if_neg hne]
    exact ⟨hheard, hnone⟩
  pending id r₁ hid := by
    dsimp only at hid ⊢
    rw [JsMap.get?_set] at hid
    split_ifs at hid with heq
    · obtain rfl := Option.some.inj hid
      rw [heq, Function.update_self]
      exact htracks
    · rw [Function.update_of_ne heq]
      exact h.pending id r₁ hid
  settled c hc := by
    refine (h.settled c hc).imp_right fun ⟨id, hid, hissued, hnone, htracks', hall⟩ => ⟨id, hid, hissued, ?_, ?_, hall⟩
    · dsimp only
      rw [JsMap.get?_set, if_neg (ne_of_pending hr hnone)]
      exact hnone
    · dsimp only
      rw [Function.update_of_ne (ne_of_pending hr hnone)]
      exact htracks'

theorem Counted.settles {r r' : Replication} {heard : List (JsString × JsString)}
    (outcome : Outcome) (h : s.Counted) (hr : s.service.pendingReplications.get? requestId = some r)
    (htracks : r'.Tracks heard) (hall : outcome ≠ .timeout → ∀ t ∈ r'.targets, t ∈ r'.fullyAcked) :
    System.Counted ⟨s.service.settle requestId r' outcome, Function.update s.heard requestId heard⟩ where
  issued id hid := by
    obtain ⟨hheard, hnone⟩ := h.issued id hid
    have hne := ne_of_pending hr hnone
    dsimp only [Service.settle]
    rw [Function.update_of_ne hne, JsMap.get?_delete, if_neg hne]
    exact ⟨hheard, hnone⟩
  pending id r₁ hid := by
    dsimp only [Service.settle] at hid ⊢
    rw [JsMap.get?_delete] at hid
    split_ifs at hid with heq
    rw [Function.update_of_ne heq]
    exact h.pending id r₁ hid
  settled c hc := by
    dsimp only [Service.settle] at hc ⊢
    rcases List.mem_append.mp hc with hc | hc
    · refine (h.settled c hc).imp_right fun ⟨id, hid, hissued, hnone, htracks', hall⟩ =>
        ⟨id, hid, hissued, ?_, ?_, hall⟩
      · rw [JsMap.get?_delete, hnone, ite_self]
      · rw [Function.update_of_ne (ne_of_pending hr hnone)]
        exact htracks'
    · obtain rfl := List.mem_singleton.mp hc
      refine Or.inr ⟨requestId, rfl, ?_, ?_, ?_, hall⟩
      · by_contra hid
        exact ne_of_pending hr (h.issued requestId hid).2 rfl
      · rw [JsMap.get?_delete, if_pos rfl]
      · rw [Function.update_self]
        exact htracks

theorem Counted.receive (h : s.Counted) (fromPubKey requestId cid : JsString) :
    (s.receive fromPubKey requestId cid).Counted := by
  unfold System.receive Service.handleReplicateAck
  rw [JsMap.has]
  cases hr : s.service.pendingReplications.get? requestId with
  | none => exact h
  | some r =>
      rw [Option.isSome_some, if_pos rfl]
      have htracks := h.pending requestId r hr
      dsimp only
      cases hack : r.ack fromPubKey cid with
      | none =>
          have hwaits := h.waits hr (htracks.ack_none hack)
          rw [JsMap.set_eq_self hr] at hwaits
          exact hwaits
      | some res =>
          obtain ⟨r', enough⟩ := res
          have htracks' := (htracks.ack_some hack).1
          dsimp only
          split_ifs with hdone
          · exact h.settles .acked hr htracks' fun _ => htracks'.complete hdone.2
          · exact h.waits hr htracks'

theorem Counted.timeout (h : s.Counted) (requestId : JsString) :
    System.Counted { s with service := s.service.timeout requestId } := by
  unfold Service.timeout
  cases hr : s.service.pendingReplications.get? requestId with
  | none => exact h
  | some r =>
      have hsettles := h.settles .timeout hr (h.pending requestId r hr) fun hne => absurd rfl hne
      rw [Function.update_eq_self] at hsettles
      exact hsettles

theorem Counted.replicatePut (h : s.Counted) (podId : JsString) (now : ℕ) (targets : List JsString)
    (chunks : List (Option JsString)) :
    System.Counted { s with service := s.service.replicatePut podId now targets chunks } := by
  unfold Service.replicatePut
  dsimp only
  split_ifs with hnothing
  · exact ⟨h.issued, h.pending, fun c hc => by
      rcases List.mem_append.mp hc with hc | hc
      · exact h.settled c hc
      · obtain rfl := List.mem_singleton.mp hc
        exact Or.inl ⟨rfl, rfl, rfl, hnothing⟩⟩
  · have hnew : ¬ s.service.Issued (s.service.nextRequestId podId now) := by
      rintro ⟨p, n, hn, heq⟩
      have hseq := (tagged_inj heq).2
      omega
    obtain ⟨hheard, hnone⟩ := h.issued _ hnew
    have hmore : ∀ id, s.service.Issued id → id ≠ s.service.nextRequestId podId now := by
      rintro id hid rfl
      exact hnew hid
    refine ⟨fun id hid => ?_, fun id r hid => ?_, fun c hc => ?_⟩
    · have hne : id ≠ s.service.nextRequestId podId now := by
        rintro rfl
        exact hid ⟨_, _, Nat.le_refl _, rfl⟩
      dsimp only
      rw [JsMap.get?_set, if_neg hne]
      exact h.issued id fun ⟨p, n, hn, heq⟩ => hid ⟨p, n, Nat.le_succ_of_le hn, heq⟩
    · dsimp only at hid ⊢
      rw [JsMap.get?_set] at hid
      split_ifs at hid with heq
      · obtain rfl := Option.some.inj hid
        rw [heq, hheard]
        exact Replication.tracks_start fun hcids => hnothing (Or.inr hcids)
      · exact h.pending id r hid
    · refine (h.settled c hc).imp_right fun ⟨id, hid, hissued, hnone', htracks, hall⟩ =>
        ⟨id, hid, ?_, ?_, htracks, hall⟩
      · obtain ⟨p, n, hn, heq⟩ := hissued
        exact ⟨p, n, Nat.le_succ_of_le hn, heq⟩
      · dsimp only
        rw [JsMap.get?_set, if_neg (hmore id hissued)]
        exact hnone'

theorem Counted.step (h : s.Counted) (a : Action) : (s.step a).Counted := by
  cases a with
  | replicatePut podId now targets chunks => exact h.replicatePut podId now targets chunks
  | request =>
      refine ⟨fun id hid => h.issued id fun ⟨p, n, hn, heq⟩ => hid ⟨p, n, Nat.le_succ_of_le hn, heq⟩, h.pending,
        fun c hc => (h.settled c hc).imp_right fun ⟨id, hid, ⟨p, n, hn, heq⟩, hrest⟩ =>
          ⟨id, hid, ⟨p, n, Nat.le_succ_of_le hn, heq⟩, hrest⟩⟩
  | replicateAck fromPubKey msg =>
      show (s.deliver fromPubKey msg).Counted
      unfold System.deliver
      split
      · split_ifs
        · exact h.receive _ _ _
        · exact h
      · exact h
  | timeout requestId => exact h.timeout requestId
  | teardown =>
      refine ⟨fun id hid => ⟨(h.issued id hid).1, rfl⟩, fun id r hid => ?_, fun c hc =>
        (h.settled c hc).imp_right fun ⟨id, hid, hissued, _, hrest⟩ => ⟨id, hid, hissued, rfl, hrest⟩⟩
      cases hid

end System

theorem counted_of_reach {s : System} (h : machine.Reach (fun _ _ => True) s) : s.Counted :=
  h.invariant System.counted_init fun _ a _ hs _ hstep => Option.some.inj hstep ▸ hs.step a

/-- The result of a call is right exactly if the targets that leave out chunks acknowledge fewer other ids
than they leave out. -/
theorem acknowledged_iff {s : System} (h : machine.Reach (fun _ _ => True) s) :
    ∀ c ∈ s.service.settled, c.Sound s ↔ c.Matched s := by
  intro c hc
  rcases (counted_of_reach h).settled c hc with ⟨hid, _, hfull, hnothing⟩ | ⟨id, hid, _, _, htracks, hall⟩
  · have hnone : ∀ t ∈ c.replication.targets, ∀ cid, cid ∉ c.replication.cids := by
      intro t ht cid hcid
      rcases hnothing with htargets | hcids
      · rw [htargets] at ht
        cases ht
      · rw [← JsSet.mem_elems, hcids] at hcid
        cases hcid
    refine iff_of_true ⟨fun t ht => ?_, fun _ t ht cid hcid => absurd hcid (hnone t ht cid)⟩ fun t ht => Or.inl ?_
    · rw [Replication.replicatedTo, hfull] at ht
      cases ht
    · exact fun cid hcid => absurd (List.mem_toFinset.mp hcid) (hnone t ht cid)
  · have hheard : c.heard s = s.heard id := by rw [Settled.heard, hid]; rfl
    have hcovers : ∀ t, c.replication.cids.elems.toFinset ⊆ named (s.heard id) t ↔
        ∀ cid ∈ c.replication.cids, (t, cid) ∈ s.heard id := fun t =>
      ⟨fun hsub cid hcid => mem_named.mp (hsub (List.mem_toFinset.mpr hcid)),
        fun hmem cid hcid => mem_named.mpr (hmem cid (List.mem_toFinset.mp hcid))⟩
    have hcount : ∀ t ∈ c.replication.targets, t ∈ c.replication.fullyAcked ↔
        ¬ (named (s.heard id) t \ c.replication.cids.elems.toFinset).card <
          (c.replication.cids.elems.toFinset \ named (s.heard id) t).card := by
      intro t ht
      rw [Nat.not_lt, Finset.card_sdiff_le_card_sdiff_iff, Replication.card_toFinset, htracks.full t, and_iff_right ht]
    unfold Settled.Sound Settled.Matched
    rw [hheard]
    constructor
    · rintro ⟨hsound, _⟩ t ht
      refine or_iff_not_imp_right.mpr fun hless => (hcovers t).mpr (hsound t ?_).2
      exact (hcount t ht).mpr hless
    · intro hmatched
      have hsound : ∀ t ∈ c.replication.targets, t ∈ c.replication.fullyAcked →
          ∀ cid ∈ c.replication.cids, (t, cid) ∈ s.heard id := fun t ht hfull =>
        (hcovers t).mp ((hmatched t ht).resolve_right ((hcount t ht).mp hfull))
      refine ⟨fun t ht => ?_, fun hout t ht => hsound t ht (hall hout t ht)⟩
      have htarget := ((htracks.full t).mp ht).1
      exact ⟨htarget, hsound t htarget ht⟩

/-- A call with one target, which acknowledges the first of two chunks twice and then the second one. -/
def acknowledging (second : JsString) : List Action :=
  [.replicatePut (js "pod") 1000 [js "peer"] [some (js "c1"), none, some (js "c2"), some (js "c1")],
    .replicateAck (js "peer") ⟨some (.string (js "pod:1000:1")), some (.string (js "c1"))⟩,
    .replicateAck (js "peer") ⟨some (.string (js "pod:1000:1")), some (.string (js "c1"))⟩,
    .replicateAck (js "peer") ⟨some (.string (js "pod:1000:1")), some (.string second)⟩]

theorem acknowledged_two_chunks : ∃ s, machine.Reach (fun _ _ => True) s ∧
    s.service.settled.map (fun c => c.replication.replicatedTo) = [[js "peer"]] ∧
    ∀ c ∈ s.service.settled, c.Sound s ↔ c.Matched s := by
  obtain ⟨s, _, hreach, hsettled⟩ := Machine.exists_of_run
    (P := fun s => s.service.settled.map (fun c => c.replication.replicatedTo) = [[js "peer"]])
    (show ((machine.run (fun _ _ => True) machine.init (acknowledging (js "c2"))).any _) = true by decide +kernel)
  exact ⟨s, hreach, hsettled, acknowledged_iff hreach⟩

theorem foreign_id_counted : ∃ s, machine.Reach (fun _ _ => True) s ∧ ∃ c ∈ s.service.settled,
    c.replication.replicatedTo = [js "peer"] ∧ c.outcome = .acked ∧ js "c2" ∈ c.replication.cids ∧
    (js "peer", js "c2") ∉ c.heard s ∧ ¬ c.Sound s := by
  obtain ⟨s, _, hreach, c, hc, hto, hout, hcid, hnot⟩ := Machine.exists_of_run
    (P := fun s => ∃ c ∈ s.service.settled, c.replication.replicatedTo = [js "peer"] ∧ c.outcome = .acked ∧
      js "c2" ∈ c.replication.cids ∧ (js "peer", js "c2") ∉ c.heard s)
    (show ((machine.run (fun _ _ => True) machine.init (acknowledging (js "c3"))).any _) = true by decide +kernel)
  refine ⟨s, hreach, c, hc, hto, hout, hcid, hnot, fun hsound => hnot ?_⟩
  exact (hsound.1 (js "peer") (hto ▸ List.mem_singleton_self _)).2 _ hcid

end BrowserMesh.Apps.ChunkReplication
