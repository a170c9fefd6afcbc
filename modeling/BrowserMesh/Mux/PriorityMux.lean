import BrowserMesh.Mux.Reassembly
import BrowserMesh.Library.Transition

/-! # The priority multiplexer

* `Scheduler`: a queue for every tier.  `dequeue` serves the highest tier that is not empty, on a guard
  slot the lowest (`Scheduler.dequeue_cases`).
* `PriorityMux`: `send` queues the chunks of a message, `drainTick` hands one frame to the adapter,
  `handleIncoming` takes a frame of the peer.
* `machine`: a multiplexer and its peer.  A frame stays on the wire until it is delivered, once; any frame
  of the wire may be the next one. -/

namespace BrowserMesh.Mux

open Js

/-! ### Scheduler -/

/-- `starvationGuardInterval`; `none` stands for what is not finite, and no slot is a guard slot then. -/
abbrev GuardInterval := Option {r : ℚ // 1 ≤ r}

/-- `slot % starvationGuardInterval === 0`. -/
def isGuardSlot (interval : GuardInterval) (slot : ℕ) : Bool :=
  match interval with
  | none => false
  | some r => ((slot : ℚ) / r.val).isInt

structure Scheduler (α : Type) where
  /-- Tier names, highest first. -/
  tiers : List JsString
  starvationGuardInterval : GuardInterval
  queues : JsString → List α
  slotCounter : ℕ

namespace Scheduler
variable {α : Type}

def new (tiers : List JsString) (interval : GuardInterval) : Scheduler α := ⟨tiers, interval, fun _ => [], 0⟩

/-- `none`: it throws, the tier is unknown. -/
def enqueue (s : Scheduler α) (tier : JsString) (item : α) : Option (Scheduler α) :=
  if tier ∈ s.tiers then some { s with queues := Function.update s.queues tier (s.queues tier ++ [item]) }
  else none

/-- Take the first item of the first queue of `order` that is not empty. -/
def shiftFirst (queues : JsString → List α) : List JsString → (JsString → List α) × Option α
  | [] => (queues, none)
  | tier :: order =>
      match queues tier with
      | [] => shiftFirst queues order
      | item :: rest => (Function.update queues tier rest, some item)

def dequeue (s : Scheduler α) : Scheduler α × Option α :=
  let slotCounter := s.slotCounter + 1
  let order := if isGuardSlot s.starvationGuardInterval slotCounter then s.tiers.reverse else s.tiers
  let (queues, item) := shiftFirst s.queues order
  ({ s with queues, slotCounter }, item)

def items (s : Scheduler α) : List α := s.tiers.flatMap s.queues

theorem shiftFirst_cases (queues : JsString → List α) (order : List JsString) :
    (∃ tier ∈ order, ∃ item rest, queues tier = item :: rest ∧
        shiftFirst queues order = (Function.update queues tier rest, some item)) ∨
      ((∀ tier ∈ order, queues tier = []) ∧ shiftFirst queues order = (queues, none)) := by
  induction order with
  | nil => exact Or.inr ⟨fun _ h => (by cases h), rfl⟩
  | cons tier order ih =>
      cases hq : queues tier with
      | cons item rest =>
          exact Or.inl ⟨tier, List.mem_cons_self, item, rest, hq, by rw [shiftFirst, hq]⟩
      | nil =>
          have hstep : shiftFirst queues (tier :: order) = shiftFirst queues order := by
            rw [shiftFirst, hq]
          rw [hstep]
          rcases ih with ⟨t, ht, item, rest, h⟩ | ⟨h, hnone⟩
          · exact Or.inl ⟨t, List.mem_cons_of_mem tier ht, item, rest, h⟩
          · refine Or.inr ⟨?_, hnone⟩
            intro t ht
            rcases List.mem_cons.mp ht with rfl | ht
            · exact hq
            · exact h t ht

/-- `dequeue` takes the first item of some queue, unless all of them are empty. -/
theorem dequeue_cases (s : Scheduler α) :
    (∃ tier ∈ s.tiers, ∃ item rest, s.queues tier = item :: rest ∧
        s.dequeue = ({ s with
          queues := Function.update s.queues tier rest, slotCounter := s.slotCounter + 1 }, some item)) ∨
      ((∀ tier ∈ s.tiers, s.queues tier = []) ∧
        s.dequeue = ({ s with slotCounter := s.slotCounter + 1 }, none)) := by
  have hmem : ∀ tier, tier ∈ (if isGuardSlot s.starvationGuardInterval (s.slotCounter + 1) then
      s.tiers.reverse else s.tiers) ↔ tier ∈ s.tiers := by
    intro tier
    split_ifs
    · exact List.mem_reverse
    · exact Iff.rfl
  rcases shiftFirst_cases s.queues (if isGuardSlot s.starvationGuardInterval (s.slotCounter + 1) then
      s.tiers.reverse else s.tiers) with ⟨tier, ht, item, rest, hq, h⟩ | ⟨hq, h⟩
  · refine Or.inl ⟨tier, (hmem tier).mp ht, item, rest, hq, ?_⟩
    rw [dequeue, h]
  · refine Or.inr ⟨fun tier ht => hq tier ((hmem tier).mpr ht), ?_⟩
    rw [dequeue, h]

/-- A tier in a list of tiers without repetitions, and the other tiers. -/
theorem flatMap_update {tiers : List JsString} (hn : tiers.Nodup) {tier : JsString} (ht : tier ∈ tiers)
    (queues : JsString → List α) (q : List α) :
    ∃ others, (tiers.flatMap queues).Perm (queues tier ++ others) ∧
      (tiers.flatMap (Function.update queues tier q)).Perm (q ++ others) := by
  obtain ⟨l, l', rfl⟩ := List.append_of_mem ht
  have hl : tier ∉ l ++ l' := by
    have := (List.nodup_middle.mp hn)
    exact (List.nodup_cons.mp this).1
  have hother : (l ++ l').flatMap (Function.update queues tier q) = (l ++ l').flatMap queues := by
    apply List.flatMap_congr
    intro t h
    rw [Function.update_of_ne]
    rintro rfl
    exact hl h
  refine ⟨(l ++ l').flatMap queues, ?_, ?_⟩
  · exact (List.perm_middle.flatMap_right queues).trans (by rw [List.flatMap_cons])
  · refine (List.perm_middle.flatMap_right _).trans ?_
    rw [List.flatMap_cons, Function.update_self, hother]

theorem foldlM_enqueue (s : Scheduler α) {tier : JsString} (h : tier ∈ s.tiers) (items : List α) :
    items.foldlM (fun s c => s.enqueue tier c) s =
      some { s with queues := Function.update s.queues tier (s.queues tier ++ items) } := by
  induction items generalizing s with
  | nil => simp
  | cons c items ih =>
      have hone : s.enqueue tier c =
          some { s with queues := Function.update s.queues tier (s.queues tier ++ [c]) } := if_pos h
      have hrest := ih { s with queues := Function.update s.queues tier (s.queues tier ++ [c]) } h
      rw [List.foldlM_cons, hone]
      refine Eq.trans hrest ?_
      simp

end Scheduler

/-! ### Multiplexer -/

variable {T J : Type}

/-- The options of the constructor, as far as it accepts them. -/
structure Config (T J : Type) where
  chunkSize : ℕ+
  tiers : List JsString
  tiers_ne_nil : tiers ≠ []
  starvationGuardInterval : GuardInterval
  priorityOf : Option (Data T J → Option JsString)
  defaultPriority : Option JsString

/-- `s || …`: the empty string counts as missing. -/
def orElse (s : Option JsString) (other : Option JsString) : Option JsString :=
  (s.filter (· ≠ [])).or other

namespace Config
variable (cfg : Config T J)

/-- `#defaultPriority`. -/
def fallback : JsString :=
  (orElse cfg.defaultPriority none).getD
    (if js "normal" ∈ cfg.tiers then js "normal" else cfg.tiers.head cfg.tiers_ne_nil)

/-- `opts.priority || priorityOf(data) || defaultPriority`. -/
def resolve (data : Data T J) (priority : Option JsString) : JsString :=
  (orElse priority (orElse (cfg.priorityOf.bind (· data)) none)).getD cfg.fallback

end Config

inductive SendError where
  | closed
  | unknownTier (priority : JsString)
  /-- `new Array(total)` throws. -/
  | invalidArrayLength
deriving DecidableEq

/-- What `send` returns. -/
structure Receipt where
  msgId : ℕ
  total : ℕ
  priority : JsString
deriving DecidableEq

inductive MuxError where
  | frame (e : FrameError)
  | reassembly (e : ReassemblyError)
  | envelope (e : EnvelopeError)
deriving DecidableEq

/-- What the listeners get. -/
inductive Event (T J : Type) where
  | message (value : Data T J) (msgId : ℕ) (priority : JsString)
  | error (e : MuxError)
deriving DecidableEq

/-- A message that `send` accepted. -/
structure Sent (T J : Type) where
  data : Data T J
  priority : JsString
  msgId : ℕ
deriving DecidableEq

/-- The event that hands the message over. -/
def Sent.event (m : Sent T J) : Event T J := .message m.data m.msgId m.priority

/-- An accepted message, cut into parts. -/
def Sent.parts (codec : Codec T J) (cfg : Config T J) (m : Sent T J) : Parts where
  priority := m.priority
  msgId := m.msgId
  total := chunkCount (encodeEnvelope codec m.data).length cfg.chunkSize
  payload := chunkPayload (encodeEnvelope codec m.data) cfg.chunkSize

theorem Sent.bytes_parts (codec : Codec T J) (cfg : Config T J) (m : Sent T J) :
    (m.parts codec cfg).bytes = encodeEnvelope codec m.data :=
  flatten_splitIntoChunks _ cfg.chunkSize.pos

instance neZero_messageIds : NeZero (2 ^ 32) := ⟨by decide⟩

structure PriorityMux where
  scheduler : Scheduler Chunk
  reassembler : Reassembler
  /-- A call of `drainTick` is scheduled. -/
  draining : Bool
  closed : Bool
  nextMsgId : Fin (2 ^ 32)

/-- What a drain tick does. -/
inductive Drained where
  | idle
  | handed (frame : List Byte)
  /-- `adapter.send` or the encoding of the frame throws. -/
  | failed

namespace PriorityMux
variable (codec : Codec T J) (cfg : Config T J)

/-- The constructor; the first message id is random. -/
def new (firstMsgId : Fin (2 ^ 32)) : PriorityMux :=
  ⟨.new cfg.tiers cfg.starvationGuardInterval, JsMap.empty, false, false, firstMsgId⟩

def scheduleDrain (m : PriorityMux) : PriorityMux :=
  if m.draining || m.closed then m else { m with draining := true }

/-- The queued chunks of a message. -/
def chunksOf (priority : JsString) (msgId : ℕ) (chunks : List (ℕ × ℕ × List Byte)) : List Chunk :=
  chunks.map fun c => ⟨priority, msgId, c.1, c.2.1, c.2.2⟩

def send (m : PriorityMux) (data : Data T J) (priority : Option JsString) :
    PriorityMux × Except SendError Receipt :=
  if m.closed then (m, .error .closed)
  else
    let priority := cfg.resolve data priority
    if priority ∉ m.scheduler.tiers then (m, .error (.unknownTier priority))
    else
      let envelopeBytes := encodeEnvelope codec data
      let msgId := m.nextMsgId
      let m := { m with nextMsgId := m.nextMsgId + 1 }
      if 2 ^ 32 ≤ chunkCount envelopeBytes.length cfg.chunkSize then (m, .error .invalidArrayLength)
      else
        let chunks := splitIntoChunks envelopeBytes cfg.chunkSize
        match (chunksOf priority msgId chunks).foldlM (fun s c => s.enqueue priority c) m.scheduler with
        | none => (m, .error (.unknownTier priority))
        | some scheduler =>
            (scheduleDrain { m with scheduler }, .ok ⟨msgId, chunks.length, priority⟩)

/-- `adapterSend frame` tells whether `adapter.send(frame)` returns. -/
def drainTick (m : PriorityMux) (adapterSend : List Byte → Bool) : PriorityMux × Drained :=
  if m.closed then ({ m with draining := false }, .idle)
  else
    match m.scheduler.dequeue with
    | (scheduler, none) => ({ m with scheduler, draining := false }, .idle)
    | (scheduler, some item) =>
        match encodeChunkFrame item with
        | .error _ => ({ m with scheduler, draining := false }, .failed)
        | .ok frame =>
            if adapterSend frame then ({ m with scheduler }, .handed frame)
            else ({ m with scheduler, draining := false }, .failed)

/-- The multiplexer afterwards, and the event if there is one. -/
def handleIncoming (m : PriorityMux) (raw : List Byte) : PriorityMux × Option (Event T J) :=
  match decodeChunkFrame raw with
  | .error e => (m, some (.error (.frame e)))
  | .ok frame =>
      match m.reassembler.receive frame with
      | .error e => (m, some (.error (.reassembly e)))
      | .ok (reassembler, none) => ({ m with reassembler }, none)
      | .ok (reassembler, some result) =>
          match decodeEnvelope codec result.bytes with
          | .error e => ({ m with reassembler }, some (.error (.envelope e)))
          | .ok value => ({ m with reassembler }, some (.message value result.msgId result.priority))

variable {m : PriorityMux}

/-- A message that is not too long for its chunk size is queued. -/
theorem send_accepts (hclosed : m.closed = false) (data : Data T J)
    (priority : Option JsString) (hp : cfg.resolve data priority ∈ m.scheduler.tiers) {sent : Sent T J}
    (hsent : sent = ⟨data, cfg.resolve data priority, m.nextMsgId⟩) (hlen : (sent.parts codec cfg).total < 2 ^ 32) :
    m.send codec cfg data priority =
      ({ m with
        scheduler := { m.scheduler with
          queues := Function.update m.scheduler.queues sent.priority
            (m.scheduler.queues sent.priority ++ (sent.parts codec cfg).chunks) }
        draining := true
        nextMsgId := m.nextMsgId + 1 }, .ok ⟨sent.msgId, (sent.parts codec cfg).total, sent.priority⟩) := by
  subst hsent
  have hdrain : ∀ m : PriorityMux, m.closed = false → m.scheduleDrain = { m with draining := true } := by
    intro m hm
    unfold scheduleDrain
    split_ifs with h
    · have hdraining : m.draining = true := by simpa [hm] using h
      rw [← hdraining]
    · rfl
  have hopen : ¬ m.closed = true := by simp [hclosed]
  have hshort : ¬ 2 ^ 32 ≤ chunkCount (encodeEnvelope codec data).length cfg.chunkSize := Nat.not_le_of_lt hlen
  have hchunks : chunksOf (cfg.resolve data priority) m.nextMsgId
      (splitIntoChunks (encodeEnvelope codec data) cfg.chunkSize) =
      (Sent.parts codec cfg ⟨data, cfg.resolve data priority, m.nextMsgId⟩).chunks := by
    simp [chunksOf, splitIntoChunks, Parts.chunks, Parts.chunk, Sent.parts]
  have hlength : (splitIntoChunks (encodeEnvelope codec data) cfg.chunkSize).length =
      chunkCount (encodeEnvelope codec data).length cfg.chunkSize := by simp [splitIntoChunks]
  simp only [send, if_neg hopen, not_not.mpr hp, if_false, if_neg hshort, hchunks,
    Scheduler.foldlM_enqueue _ hp, hlength]
  exact Prod.ext (hdrain _ hclosed) rfl

/-- `send` throws and queues nothing, or it queues the chunks of the message. -/
theorem send_cases (hclosed : m.closed = false) (data : Data T J) (priority : Option JsString) :
    (∃ next e, m.send codec cfg data priority = ({ m with nextMsgId := next }, .error e)) ∨
      ∃ sent : Sent T J, sent.priority ∈ m.scheduler.tiers ∧ sent.data = data ∧ sent.msgId = m.nextMsgId ∧
        (sent.parts codec cfg).total < 2 ^ 32 ∧
        m.send codec cfg data priority =
          ({ m with
            scheduler := { m.scheduler with
              queues := Function.update m.scheduler.queues sent.priority
                (m.scheduler.queues sent.priority ++ (sent.parts codec cfg).chunks) }
            draining := true
            nextMsgId := m.nextMsgId + 1 }, .ok ⟨sent.msgId, (sent.parts codec cfg).total, sent.priority⟩) := by
  have hopen : ¬ m.closed = true := by simp [hclosed]
  by_cases hp : cfg.resolve data priority ∈ m.scheduler.tiers
  · by_cases hlen : 2 ^ 32 ≤ chunkCount (encodeEnvelope codec data).length cfg.chunkSize
    · refine Or.inl ⟨m.nextMsgId + 1, .invalidArrayLength, ?_⟩
      simp only [send, if_neg hopen, not_not.mpr hp, if_false, if_pos hlen]
    · exact Or.inr ⟨⟨data, cfg.resolve data priority, m.nextMsgId⟩, hp, rfl, rfl, Nat.lt_of_not_le hlen,
        send_accepts codec cfg hclosed data priority hp rfl (Nat.lt_of_not_le hlen)⟩
  · refine Or.inl ⟨m.nextMsgId, .unknownTier (cfg.resolve data priority), ?_⟩
    simp only [send, if_neg hopen, if_pos hp]

/-- A drain tick hands over the first chunk of some queue, and stops when all queues are empty. -/
theorem drainTick_cases (hclosed : m.closed = false) :
    (∃ tier ∈ m.scheduler.tiers, ∃ c rest, m.scheduler.queues tier = c :: rest ∧
        ∀ frame, encodeChunkFrame c = .ok frame →
          m.drainTick (fun _ => true) =
            ({ m with scheduler := { m.scheduler with
                queues := Function.update m.scheduler.queues tier rest
                slotCounter := m.scheduler.slotCounter + 1 } }, .handed frame)) ∨
      ((∀ tier ∈ m.scheduler.tiers, m.scheduler.queues tier = []) ∧
        m.drainTick (fun _ => true) =
          ({ m with
            scheduler := { m.scheduler with slotCounter := m.scheduler.slotCounter + 1 }
            draining := false }, .idle)) := by
  have hopen : ¬ m.closed = true := by simp [hclosed]
  rcases m.scheduler.dequeue_cases with ⟨tier, ht, c, rest, hq, h⟩ | ⟨hq, h⟩
  · refine Or.inl ⟨tier, ht, c, rest, hq, ?_⟩
    intro frame hframe
    simp only [drainTick, if_neg hopen, h, hframe, if_true]
  · refine Or.inr ⟨hq, ?_⟩
    simp only [drainTick, if_neg hopen, h]

/-- A chunk that the reassembler takes: nothing is emitted, or the message that it completes. -/
theorem handleIncoming_of_receive {raw : List Byte} {c : Chunk}
    {r : Reassembler × Option Reassembled} (hraw : decodeChunkFrame raw = .ok c)
    (hr : m.reassembler.receive c = .ok r) :
    m.handleIncoming codec raw = ({ m with reassembler := r.1 }, r.2.map fun result =>
      match decodeEnvelope codec result.bytes with
      | .error e => .error (.envelope e)
      | .ok value => .message value result.msgId result.priority) := by
  rcases r with ⟨reassembler, _ | result⟩
  · simp only [handleIncoming, hraw, hr, Option.map_none]
  · simp only [handleIncoming, hraw, hr, Option.map_some]
    cases decodeEnvelope codec result.bytes with
    | error e => rfl
    | ok value => rfl

end PriorityMux

/-! ### A multiplexer and its peer -/

structure System (T J : Type) where
  sender : PriorityMux
  peer : PriorityMux
  /-- The frames handed to the adapter and not delivered yet, in this order. -/
  wire : List (List Byte)
  /-- The accepted messages, in the order of the calls. -/
  sent : List (Sent T J)
  /-- What the peer emitted. -/
  events : List (Event T J)

inductive Action (T J : Type) where
  | send (data : Data T J) (priority : Option JsString)
  | tick
  | deliver (i : ℕ)

namespace System
variable (codec : Codec T J) (cfg peerCfg : Config T J)

def init (firstMsgId firstMsgId' : Fin (2 ^ 32)) : System T J :=
  ⟨.new cfg firstMsgId, .new peerCfg firstMsgId', [], [], []⟩

def send (s : System T J) (data : Data T J) (priority : Option JsString) : System T J :=
  match s.sender.send codec cfg data priority with
  | (sender, .error _) => { s with sender }
  | (sender, .ok receipt) =>
      { s with sender, sent := s.sent ++ [⟨data, receipt.priority, receipt.msgId⟩] }

/-- A drain tick; the adapter never throws. -/
def tick (s : System T J) : System T J :=
  match s.sender.drainTick fun _ => true with
  | (sender, .handed frame) => { s with sender, wire := s.wire ++ [frame] }
  | (sender, _) => { s with sender }

def deliver (s : System T J) (i : ℕ) (raw : List Byte) : System T J :=
  match s.peer.handleIncoming codec raw with
  | (peer, event) => { s with peer, wire := s.wire.eraseIdx i, events := s.events ++ event.toList }

def step (s : System T J) : Action T J → Option (System T J)
  | .send data priority => some (s.send codec cfg data priority)
  | .tick => if s.sender.draining then some s.tick else none
  | .deliver i => (s.wire[i]?).map (s.deliver codec i)

/-- The message ids of the chunks that are queued or on the wire. -/
def inFlight (s : System T J) : List ℕ :=
  s.sender.scheduler.items.map Chunk.msgId ++
    s.wire.filterMap fun raw => (decodeChunkFrame raw).toOption.map Chunk.msgId

/-- A send takes an id that no message in flight has. -/
def TakesFreeId (s : System T J) : Action T J → Prop
  | .send _ _ => s.sender.nextMsgId.val ∉ s.inFlight
  | _ => True

/-- The oldest frame is delivered first. -/
def InOrder (_ : System T J) : Action T J → Prop
  | .deliver i => i = 0
  | _ => True

instance (s : System T J) (a : Action T J) : Decidable (TakesFreeId s a) := by
  cases a <;> simp only [TakesFreeId] <;> infer_instance

instance (s : System T J) (a : Action T J) : Decidable (InOrder s a) := by
  cases a <;> simp only [InOrder] <;> infer_instance

end System

/-- The runs of a multiplexer and its peer. -/
def machine (codec : Codec T J) (cfg peerCfg : Config T J) (firstMsgId firstMsgId' : Fin (2 ^ 32)) :
    Transition.Machine (System T J) (Action T J) :=
  ⟨System.init cfg peerCfg firstMsgId firstMsgId', System.step codec cfg⟩

end BrowserMesh.Mux
