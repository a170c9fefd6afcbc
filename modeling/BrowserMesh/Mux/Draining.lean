import BrowserMesh.Mux.Delivery

/-! # The drain loop

A multiplexer that sends and drains, over an adapter that never throws and is never closed.  `send` takes any
configured tier, while a frame has a code for `high`, `normal`, `low` and the inherited names only.  A chunk without a
code stops the loop after it left its queue; so all that was accepted is handed over exactly if every priority accepted
has a code (`drains_iff`).  The invariant is `Conserved`. -/

namespace BrowserMesh.Mux

open Js Transition

/-- `send` and the drain ticks. -/
def Action.isOfSender {T J : Type} : Action T J → Bool
  | .deliver _ => false
  | _ => true

namespace System
variable {T J : Type} (codec : Codec T J) (cfg peerCfg : Config T J)

def OfSender (_ : System T J) (a : Action T J) : Prop := a.isOfSender = true

instance (s : System T J) (a : Action T J) : Decidable (OfSender s a) := inferInstanceAs (Decidable (_ = _))

/-- The drain loop, for `n` ticks at most. -/
def drain (s : System T J) : ℕ → System T J
  | 0 => s
  | n + 1 => if s.sender.draining then s.tick.drain n else s

def queued (s : System T J) : List Chunk := s.sender.scheduler.tiers.dedup.flatMap s.sender.scheduler.queues

def frameOf (c : Chunk) : Option (List Byte) := (encodeChunkFrame c).toOption

def acceptedChunks (s : System T J) : List Chunk := s.sent.flatMap fun m => (m.parts codec cfg).chunks

/-- The loop is not stopped while chunks are queued, and when it has run to its end every chunk of every accepted
message was handed to the adapter, once. -/
def Drains (s : System T J) : Prop :=
  (s.sender.draining = false → s.queued = []) ∧
    ∃ n, (s.drain n).sender.draining = false ∧ (s.drain n).queued = [] ∧
      ((s.drain n).wire.map some).Perm ((s.acceptedChunks codec cfg).map frameOf)

/-- Every priority of an accepted message has a code. -/
def Coded (s : System T J) : Prop := ∀ m ∈ s.sent, (priorityCode m.priority).isSome = true

/-- What was handed over and what is queued are the accepted chunks, and they have frames; the loop stops only when
nothing is queued. -/
structure Conserved (s : System T J) : Prop where
  opened : s.sender.closed = false
  chunks : (s.wire.map some ++ s.queued.map frameOf).Perm ((s.acceptedChunks codec cfg).map frameOf)
  framed : ∀ c ∈ s.queued, (frameOf c).isSome = true
  running : s.sender.draining = false → s.queued = []

variable {codec cfg} {s : System T J}

theorem frameOf_isSome (c : Chunk) : (frameOf c).isSome = (priorityCode c.priority).isSome := by
  unfold frameOf encodeChunkFrame
  cases priorityCode c.priority with
  | none => rfl
  | some code => rfl

theorem frameOf_eq_some {c : Chunk} (h : (frameOf c).isSome = true) :
    ∃ frame, encodeChunkFrame c = .ok frame ∧ frameOf c = some frame := by
  unfold frameOf at h ⊢
  cases hframe : encodeChunkFrame c with
  | error e =>
      rw [hframe] at h
      cases h
  | ok frame => exact ⟨frame, rfl, rfl⟩

theorem framed_of_coded {m : Sent T J} (h : (priorityCode m.priority).isSome = true) :
    ∀ c ∈ (m.parts codec cfg).chunks, (frameOf c).isSome = true := by
  intro c hc
  obtain ⟨seq, _, rfl⟩ := List.mem_map.mp hc
  rw [frameOf_isSome]
  exact h

/-! ### A call of `send` -/

variable (codec cfg) in
/-- A call throws and queues nothing, or a message is accepted and its chunks are queued. -/
theorem send_cases' (hopen : s.sender.closed = false) (data : Data T J) (priority : Option JsString) :
    ((s.send codec cfg data priority).sent = s.sent ∧ (s.send codec cfg data priority).wire = s.wire ∧
        (s.send codec cfg data priority).queued = s.queued ∧ (s.send codec cfg data priority).sender.closed = false ∧
        (s.send codec cfg data priority).sender.draining = s.sender.draining) ∨
      ∃ m : Sent T J, (s.send codec cfg data priority).sent = s.sent ++ [m] ∧
        (s.send codec cfg data priority).wire = s.wire ∧
        (s.send codec cfg data priority).queued.Perm (s.queued ++ (m.parts codec cfg).chunks) ∧
        (s.send codec cfg data priority).sender.closed = false ∧
        (s.send codec cfg data priority).sender.draining = true := by
  rcases s.sender.send_cases codec cfg hopen data priority with ⟨next, e, hsend⟩ | ⟨m, htier, rfl, hid, _, hsend⟩
  · refine Or.inl ?_
    simp only [send, hsend, queued]
    exact ⟨trivial, trivial, trivial, hopen, trivial⟩
  · refine Or.inr ⟨m, ?_⟩
    obtain ⟨others, hbefore, hafter⟩ := Scheduler.flatMap_update s.sender.scheduler.tiers.nodup_dedup
      (List.mem_dedup.mpr htier) s.sender.scheduler.queues
      (s.sender.scheduler.queues m.priority ++ (m.parts codec cfg).chunks)
    simp only [send, hsend, queued]
    refine ⟨trivial, trivial, hafter.trans ?_, hopen, trivial⟩
    rw [List.append_assoc]
    refine (List.Perm.append_left _ List.perm_append_comm).trans ?_
    rw [← List.append_assoc]
    exact hbefore.symm.append_right _

theorem Conserved.send (h : s.Conserved codec cfg) (data : Data T J) (priority : Option JsString)
    (hcoded : (s.send codec cfg data priority).Coded) : (s.send codec cfg data priority).Conserved codec cfg := by
  rcases send_cases' codec cfg h.opened data priority with
    ⟨hsent, hwire, hqueued, hopen, hdraining⟩ | ⟨m, hsent, hwire, hqueued, hopen, hdraining⟩
  · constructor
    case opened => exact hopen
    case chunks =>
      rw [acceptedChunks, hsent, hwire, hqueued]
      exact h.chunks
    case framed => exact hqueued ▸ h.framed
    case running =>
      rw [hqueued, hdraining]
      exact h.running
  · have hm : (priorityCode m.priority).isSome = true :=
      hcoded m (hsent ▸ List.mem_append_right _ (List.mem_singleton_self m))
    constructor
    case opened => exact hopen
    case chunks =>
      rw [acceptedChunks, hsent, hwire, List.flatMap_append, List.flatMap_singleton, List.map_append]
      calc (s.wire.map some ++ (s.send codec cfg data priority).queued.map frameOf).Perm
            (s.wire.map some ++ (s.queued ++ (m.parts codec cfg).chunks).map frameOf) := (hqueued.map _).append_left _
        _ = (s.wire.map some ++ s.queued.map frameOf) ++ (m.parts codec cfg).chunks.map frameOf := by
            rw [List.map_append, List.append_assoc]
        _ |>.Perm _ := h.chunks.append_right _
    case framed =>
      intro c hc
      rcases List.mem_append.mp (hqueued.subset hc) with hc | hc
      · exact h.framed c hc
      · exact framed_of_coded hm c hc
    case running =>
      rw [hdraining]
      exact fun hstopped => absurd hstopped (by decide)

/-! ### A drain tick -/

theorem Conserved.tick_cases (h : s.Conserved codec cfg) :
    (∃ c frame, s.queued.Perm (c :: s.tick.queued) ∧ frameOf c = some frame ∧ s.tick.wire = s.wire ++ [frame] ∧
        s.tick.sent = s.sent ∧ s.tick.sender.closed = false ∧ s.tick.sender.draining = s.sender.draining) ∨
      (s.queued = [] ∧ s.tick.queued = [] ∧ s.tick.wire = s.wire ∧ s.tick.sent = s.sent ∧
        s.tick.sender.closed = false ∧ s.tick.sender.draining = false) := by
  rcases PriorityMux.drainTick_cases h.opened with ⟨tier, htier, c, rest, hq, hhanded⟩ | ⟨hempty, hidle⟩
  · obtain ⟨others, hbefore, hafter⟩ := Scheduler.flatMap_update s.sender.scheduler.tiers.nodup_dedup
      (List.mem_dedup.mpr htier) s.sender.scheduler.queues rest
    rw [hq] at hbefore
    obtain ⟨frame, hframe, hsome⟩ := frameOf_eq_some (h.framed c (hbefore.symm.subset List.mem_cons_self))
    refine Or.inl ⟨c, frame, ?_, hsome, ?_⟩
    · simp only [queued, tick, hhanded frame hframe]
      exact hbefore.trans (hafter.symm.cons c)
    · simp only [tick, hhanded frame hframe]
      exact ⟨trivial, trivial, h.opened, trivial⟩
  · have hnone : s.queued = [] := List.flatMap_eq_nil_iff.mpr fun tier ht => hempty tier (List.mem_dedup.mp ht)
    refine Or.inr ⟨hnone, ?_⟩
    simp only [queued, tick, hidle]
    exact ⟨hnone, trivial, trivial, h.opened, trivial⟩

theorem Conserved.tick (h : s.Conserved codec cfg) : s.tick.Conserved codec cfg := by
  rcases h.tick_cases with ⟨c, frame, hqueued, hframe, hwire, hsent, hopen, hdraining⟩ |
    ⟨hnone, hqueued, hwire, hsent, hopen, hdraining⟩
  · constructor
    case opened => exact hopen
    case chunks =>
      rw [acceptedChunks, hsent, hwire, List.map_append, List.append_assoc, List.map_singleton, ← hframe]
      exact ((hqueued.symm.map frameOf).append_left _).trans h.chunks
    case framed => exact fun c' hc' => h.framed c' (hqueued.symm.subset (List.mem_cons_of_mem c hc'))
    case running =>
      rw [hdraining]
      intro hstopped
      rw [h.running hstopped] at hqueued
      exact absurd hqueued.length_eq (Nat.zero_ne_add_one _)
  · constructor
    case opened => exact hopen
    case chunks =>
      rw [acceptedChunks, hsent, hwire, hqueued, ← hnone]
      exact h.chunks
    case framed =>
      rw [hqueued]
      exact fun c hc => absurd hc List.not_mem_nil
    case running => exact fun _ => hqueued

/-! ### Runs -/

theorem sent_prefix_send (s : System T J) (data : Data T J) (priority : Option JsString) :
    s.sent <+: (s.send codec cfg data priority).sent := by
  unfold send
  split
  · exact List.prefix_rfl
  · exact List.prefix_append _ _

theorem tick_sent (s : System T J) : s.tick.sent = s.sent := by
  unfold tick
  split <;> rfl

theorem drain_sent (s : System T J) (n : ℕ) : (s.drain n).sent = s.sent := by
  induction n generalizing s with
  | zero => rfl
  | succ n ih =>
      rw [drain]
      split_ifs
      · rw [ih, tick_sent]
      · rfl

theorem conserved_of_reach {firstMsgId firstMsgId' : Fin (2 ^ 32)}
    (hr : (machine codec cfg peerCfg firstMsgId firstMsgId').Reach OfSender s) (hcoded : s.Coded) :
    s.Conserved codec cfg := by
  induction hr with
  | init =>
      have hnone : (machine codec cfg peerCfg firstMsgId firstMsgId').init.queued = [] :=
        List.flatMap_eq_nil_iff.mpr fun _ _ => rfl
      constructor
      case opened => rfl
      case chunks =>
        rw [hnone]
        exact .nil
      case framed =>
        rw [hnone]
        exact fun c hc => absurd hc List.not_mem_nil
      case running => exact fun _ => hnone
  | @step s s' a _ hok hs ih =>
      cases a with
      | send data priority =>
          obtain rfl := Option.some.inj hs
          have hbefore : s.Coded := fun m hm => hcoded m ((sent_prefix_send s data priority).subset hm)
          exact (ih hbefore).send data priority hcoded
      | tick =>
          have htick : (if s.sender.draining then some s.tick else none) = some s' := hs
          split_ifs at htick
          obtain rfl := Option.some.inj htick
          rw [Coded, tick_sent] at hcoded
          exact (ih hcoded).tick
      | deliver i => cases hok

theorem Conserved.drain (h : s.Conserved codec cfg) :
    ∃ n, (s.drain n).Conserved codec cfg ∧ (s.drain n).sender.draining = false := by
  induction hlength : s.queued.length using Nat.strong_induction_on generalizing s with
  | _ length ih =>
      by_cases hdraining : s.sender.draining = true
      · have hnext : ∀ n, s.drain (n + 1) = s.tick.drain n := fun n => if_pos hdraining
        rcases h.tick_cases with ⟨c, frame, hqueued, _⟩ | ⟨_, _, _, _, _, hstopped⟩
        · have hshorter : s.tick.queued.length < length := by
            rw [← hlength, hqueued.length_eq]
            exact Nat.lt_succ_self _
          obtain ⟨n, hn⟩ := ih _ hshorter h.tick rfl
          exact ⟨n + 1, hnext n ▸ hn⟩
        · exact ⟨1, hnext 0 ▸ ⟨h.tick, hstopped⟩⟩
      · exact ⟨0, h, Bool.eq_false_iff.mpr hdraining⟩

/-- After any sends and ticks: draining hands over what was accepted, once, and does not stop before, exactly if every
accepted priority has a code. -/
theorem drains_iff {firstMsgId firstMsgId' : Fin (2 ^ 32)}
    (hr : (machine codec cfg peerCfg firstMsgId firstMsgId').Reach OfSender s) : s.Drains codec cfg ↔ s.Coded := by
  constructor
  · rintro ⟨_, n, _, _, hhanded⟩ m hm
    have hchunk : (m.parts codec cfg).chunk 0 ∈ (m.parts codec cfg).chunks :=
      List.mem_map_of_mem (List.mem_range.mpr (chunkCount_pos _ _))
    have haccepted : (m.parts codec cfg).chunk 0 ∈ s.acceptedChunks codec cfg :=
      List.mem_flatMap.mpr ⟨m, hm, hchunk⟩
    obtain ⟨frame, _, hframe⟩ := List.mem_map.mp (hhanded.symm.subset (List.mem_map_of_mem haccepted))
    have hsome := congrArg Option.isSome hframe
    rw [frameOf_isSome] at hsome
    exact hsome.symm
  · intro hcoded
    have h := conserved_of_reach peerCfg hr hcoded
    obtain ⟨n, hn, hstopped⟩ := h.drain
    have hnone := hn.running hstopped
    have hchunks := hn.chunks
    rw [hnone, List.map_nil, List.append_nil, acceptedChunks, drain_sent] at hchunks
    exact ⟨h.running, n, hstopped, hnone, hchunks⟩

end System

/-! ### A tier without a code -/

theorem drains_known_tiers : ∃ s, smallMachine.Reach System.OfSender s ∧ s.sent.length = 2 ∧
    s.Drains bytesOnly smallChunks := by
  obtain ⟨s, _, hr, hlength, hcoded⟩ := Machine.exists_of_run
    (P := fun s : System Empty Empty => s.sent.length = 2 ∧ ∀ m ∈ s.sent, (priorityCode m.priority).isSome = true)
    (show (smallMachine.run System.OfSender smallMachine.init
      [.send (.bytes [1, 2, 3]) (some (js "low")), .tick, .send (.bytes []) (some (js "high"))]).any _ = true by
        decide +kernel)
  exact ⟨s, hr, hlength, (System.drains_iff smallChunks hr).mpr hcoded⟩

local instance neZero_byteChunks : NeZero 1 := ⟨one_ne_zero⟩

/-- The tiers `urgent` and `normal`. -/
def urgentTiers : Config Empty Empty where
  chunkSize := 1
  tiers := [js "urgent", js "normal"]
  tiers_ne_nil := by decide
  starvationGuardInterval := none
  priorityOf := none
  defaultPriority := none

/-- The tick that meets the urgent message throws it away and stops; the normal message stays queued. -/
theorem drain_stops :
    (∃ s, (machine bytesOnly urgentTiers urgentTiers 0 0).Reach System.OfSender s ∧ s.sent.length = 2 ∧ s.wire = [] ∧
      s.sender.draining = false ∧ s.queued.length = 1) ∧
    ¬ ∀ (cfg : Config Empty Empty) (s : System Empty Empty),
      (machine bytesOnly cfg cfg 0 0).Reach System.OfSender s → s.Drains bytesOnly cfg := by
  obtain ⟨s, _, hr, hlength, hwire, hstopped, hqueued⟩ := Machine.exists_of_run
    (P := fun s : System Empty Empty =>
      s.sent.length = 2 ∧ s.wire = [] ∧ s.sender.draining = false ∧ s.queued.length = 1)
    (show ((machine bytesOnly urgentTiers urgentTiers 0 0).run System.OfSender
      (machine bytesOnly urgentTiers urgentTiers 0 0).init
      [.send (.bytes []) (some (js "urgent")), .send (.bytes []) (some (js "normal")), .tick]).any _ = true by
        decide +kernel)
  refine ⟨⟨s, hr, hlength, hwire, hstopped, hqueued⟩, fun h => ?_⟩
  rw [(h urgentTiers s hr).1 hstopped] at hqueued
  cases hqueued

end BrowserMesh.Mux
