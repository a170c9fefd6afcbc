import BrowserMesh.Js.Number
import BrowserMesh.Library.Mailbox
import BrowserMesh.Library.Transition

/-! # Stream sockets

* **Buffers.**  `AsyncBuffer` is a mailbox that can be closed.  The push that fills its queue up to the high-water mark
  closes it and is refused, but what it pushed stays in the queue.
* **Pairs.**  Each end writes into the buffer that the other reads from.
* **Delivery.**  While every write has room, what is read at one end is what was written at the other; a write without room
  is read all the same (`reads_iff_room`). -/

namespace BrowserMesh.Netway
open Js Transition

structure AsyncBuffer (α : Type) extends Mailbox α where
  closed : Bool

namespace AsyncBuffer
variable {α : Type}

/-- `highWaterMark > 0 && length >= highWaterMark`. -/
def reached (highWaterMark : JsNumber) (length : ℕ) : Bool :=
  JsNumber.lt 0 highWaterMark && highWaterMark.le (.ofNat length)

def push (highWaterMark : JsNumber) (b : AsyncBuffer α) (data : α) : AsyncBuffer α × Bool :=
  if b.closed then (b, false)
  else
    let pushed : AsyncBuffer α := { b with toMailbox := b.toMailbox.give data }
    match b.waiters with
    | _ :: _ => (pushed, true)
    | [] =>
        if reached highWaterMark pushed.queue.length then ({ pushed with closed := true }, false) else (pushed, true)

def pull (b : AsyncBuffer α) : AsyncBuffer α := { b with toMailbox := b.toMailbox.take b.closed }

def close (b : AsyncBuffer α) : AsyncBuffer α := ⟨b.toMailbox.release.drop, true⟩

/-- A push finds somebody who waits, or leaves the queue below the mark. -/
def Room (highWaterMark : JsNumber) (b : AsyncBuffer α) : Prop :=
  b.waiters ≠ [] ∨ reached highWaterMark (b.queue.length + 1) = false

theorem push_of_room {highWaterMark : JsNumber} {b : AsyncBuffer α} (hopen : b.closed = false)
    (h : b.Room highWaterMark) (data : α) :
    b.push highWaterMark data = ({ b with toMailbox := b.toMailbox.give data }, true) := by
  rw [push, hopen, if_neg Bool.false_ne_true]
  cases hw : b.waiters with
  | cons i rest => rfl
  | nil =>
      have hbelow := h.resolve_left fun hne => hne hw
      have hqueue : (b.toMailbox.give data).queue.length = b.queue.length + 1 := by
        rw [Mailbox.give_of_none hw]
        exact List.length_append
      dsimp only
      rw [hqueue, hbelow, if_neg Bool.false_ne_true]

theorem push_of_not_room {highWaterMark : JsNumber} {b : AsyncBuffer α} (hopen : b.closed = false)
    (h : ¬ b.Room highWaterMark) (data : α) :
    b.push highWaterMark data = (⟨⟨b.queue ++ [data], b.waiters, b.asked, b.answered⟩, true⟩, false) := by
  obtain ⟨hwaiting, hbelow⟩ := not_or.mp h
  have hw : b.waiters = [] := not_not.mp hwaiting
  rw [push, hopen, if_neg Bool.false_ne_true, Mailbox.give_of_none hw, hw]
  dsimp only
  rw [List.length_append, List.length_singleton, if_pos (Bool.of_not_eq_false hbelow)]

end AsyncBuffer

inductive End where
  | socketA | socketB
  deriving DecidableEq

def End.other : End → End
  | socketA => socketB
  | socketB => socketA

@[simp] theorem End.other_other (e : End) : e.other.other = e := by cases e <;> rfl

/-- The sockets of `createPair`, with the chunks whose `write` resolved. -/
structure StreamSockets (α : Type) where
  /-- The outbound buffer of an end, and the inbound one of the other. -/
  outbound : End → AsyncBuffer α
  closed : End → Bool
  resolved : End → List α

namespace StreamSockets
variable {α : Type}

def createPair : StreamSockets α := ⟨fun _ => ⟨.empty, false⟩, fun _ => false, fun _ => []⟩

def setOutbound (s : StreamSockets α) (e : End) (b : AsyncBuffer α) : StreamSockets α :=
  { s with outbound := Function.update s.outbound e b }

@[simp] theorem outbound_setOutbound (s : StreamSockets α) (e : End) (b : AsyncBuffer α) (e' : End) :
    (s.setOutbound e b).outbound e' = if e' = e then b else s.outbound e' := Function.update_apply _ _ _ _

@[simp] theorem closed_setOutbound (s : StreamSockets α) (e : End) (b : AsyncBuffer α) :
    (s.setOutbound e b).closed = s.closed := rfl

@[simp] theorem resolved_setOutbound (s : StreamSockets α) (e : End) (b : AsyncBuffer α) :
    (s.setOutbound e b).resolved = s.resolved := rfl

def read (s : StreamSockets α) (e : End) : StreamSockets α :=
  let inbound := s.outbound e.other
  if s.closed e then s.setOutbound e.other { inbound with toMailbox := inbound.toMailbox.answer none }
  else s.setOutbound e.other inbound.pull

def write (highWaterMark : JsNumber) (s : StreamSockets α) (e : End) (data : α) : StreamSockets α :=
  if s.closed e then s
  else
    let pushed := (s.outbound e).push highWaterMark data
    let written := s.setOutbound e pushed.1
    if pushed.2 then { written with resolved := Function.update s.resolved e (s.resolved e ++ [data]) } else written

def close (s : StreamSockets α) (e : End) : StreamSockets α :=
  if s.closed e then s
  else { s with closed := Function.update s.closed e true, outbound := fun e => (s.outbound e).close }

inductive Action (α : Type) where
  | read (e : End)
  | write (e : End) (data : α)
  | close (e : End)

def step (highWaterMark : JsNumber) (s : StreamSockets α) : Action α → Option (StreamSockets α)
  | .read e => some (s.read e)
  | .write e data => some (s.write highWaterMark e data)
  | .close e => some (s.close e)

def machine (α : Type) (highWaterMark : JsNumber) : Machine (StreamSockets α) (Action α) :=
  ⟨createPair, step highWaterMark⟩

def HasRoom (highWaterMark : JsNumber) (s : StreamSockets α) : Action α → Prop
  | .read _ => True
  | .write e _ => (s.outbound e).Room highWaterMark
  | .close _ => False

instance (highWaterMark : JsNumber) (s : StreamSockets α) : DecidablePred (HasRoom highWaterMark s)
  | .read _ => inferInstanceAs (Decidable True)
  | .write _ _ => inferInstanceAs (Decidable (_ ∨ _))
  | .close _ => inferInstanceAs (Decidable False)

/-- Nothing is closed, and each buffer has the chunks whose writes resolved. -/
structure Delivering (s : StreamSockets α) : Prop where
  sockets : ∀ e, s.closed e = false
  buffers : ∀ e, (s.outbound e).closed = false
  fifo : ∀ e, (s.outbound e).Fifo (s.resolved e)

variable {highWaterMark : JsNumber} {s : StreamSockets α}

namespace Delivering

theorem read (h : Delivering s) (e : End) : Delivering (s.read e) := by
  obtain ⟨hsockets, hbuffers, hfifo⟩ := h
  rw [StreamSockets.read, hsockets, if_neg Bool.false_ne_true]
  refine ⟨hsockets, fun e' => ?_, fun e' => ?_⟩
  · rw [outbound_setOutbound]
    split_ifs with he
    · exact hbuffers _
    · exact hbuffers e'
  · rw [outbound_setOutbound, resolved_setOutbound]
    split_ifs with he
    · subst he
      exact (hfifo _).take fun hended => absurd ((hbuffers _).symm.trans hended) Bool.false_ne_true
    · exact hfifo e'

theorem write (h : Delivering s) {e : End} (hroom : (s.outbound e).Room highWaterMark) (data : α) :
    Delivering (s.write highWaterMark e data) := by
  obtain ⟨hsockets, hbuffers, hfifo⟩ := h
  rw [StreamSockets.write, hsockets, if_neg Bool.false_ne_true, AsyncBuffer.push_of_room (hbuffers e) hroom]
  simp only [if_true]
  refine ⟨hsockets, fun e' => ?_, fun e' => ?_⟩
  · rw [outbound_setOutbound]
    split_ifs with he
    · exact hbuffers e
    · exact hbuffers e'
  · rw [outbound_setOutbound]
    dsimp only
    rw [Function.update_apply]
    split_ifs with he
    · exact (hfifo e).give data
    · exact hfifo e'

theorem reads (h : Delivering s) (e : End) (n : ℕ) : Delivering ((fun s => s.read e)^[n] s) := by
  induction n generalizing s with
  | zero => exact h
  | succ n ih => exact ih (h.read e)

theorem of_reach (h : (machine α highWaterMark).Reach (HasRoom highWaterMark) s) : Delivering s := by
  refine h.invariant ⟨fun _ => rfl, fun _ => rfl, fun _ => Mailbox.fifo_empty⟩ fun s a s' hI hroom hs => ?_
  cases a with
  | read e => exact Option.some.inj hs ▸ hI.read e
  | write e data => exact Option.some.inj hs ▸ hI.write hroom data
  | close e => exact hroom.elim

end Delivering

theorem outbound_reads (hopen : ∀ e, s.closed e = false) (e : End) (n : ℕ) :
    (((fun s => s.read e.other)^[n] s).outbound e).toMailbox =
      (fun m : Mailbox α => m.take (s.outbound e).closed)^[n] (s.outbound e).toMailbox ∧
    ((fun s => s.read e.other)^[n] s).resolved = s.resolved := by
  induction n generalizing s with
  | zero => exact ⟨rfl, rfl⟩
  | succ n ih =>
      have hread : s.read e.other = s.setOutbound e (s.outbound e).pull := by
        rw [StreamSockets.read, hopen, if_neg Bool.false_ne_true, End.other_other]
      rw [Function.iterate_succ_apply, Function.iterate_succ_apply, hread]
      obtain ⟨hmailbox, hresolved⟩ := ih (s := s.setOutbound e (s.outbound e).pull) hopen
      rw [hmailbox, hresolved]
      rw [outbound_setOutbound, if_pos rfl]
      exact ⟨rfl, rfl⟩

theorem reads_of_not_room (h : Delivering s) {e : End} (hroom : ¬ (s.outbound e).Room highWaterMark) (data : α) :
    ∃ n, (((fun s => s.read e.other)^[n] (s.write highWaterMark e data)).outbound e).received = s.resolved e ++ [data] ∧
      ((fun s => s.read e.other)^[n] (s.write highWaterMark e data)).resolved e = s.resolved e := by
  have hwrite : s.write highWaterMark e data =
      s.setOutbound e ⟨⟨(s.outbound e).queue ++ [data], (s.outbound e).waiters, (s.outbound e).asked,
        (s.outbound e).answered⟩, true⟩ := by
    rw [write, h.sockets, if_neg Bool.false_ne_true, AsyncBuffer.push_of_not_room (h.buffers e) hroom]
    rfl
  obtain ⟨hmailbox, hresolved⟩ := outbound_reads (s := s.write highWaterMark e data) (by rw [hwrite]; exact h.sockets) e
    ((s.outbound e).queue ++ [data]).length
  refine ⟨((s.outbound e).queue ++ [data]).length, ?_, ?_⟩
  · rw [hmailbox, hwrite, outbound_setOutbound, if_pos rfl, ← (h.fifo e).conserved, List.append_assoc]
    exact Mailbox.received_iterate_take
      ⟨(s.outbound e).queue ++ [data], (s.outbound e).waiters, (s.outbound e).asked, (s.outbound e).answered⟩ true
  · rw [hresolved, hwrite]
    rfl

/-- While every write has room, the reads of an end return the chunks whose writes at the other end resolved, each once and
in order, and all of them if a read is waiting.  A write keeps this, whatever is read after it, exactly if it has room. -/
theorem reads_iff_room (h : (machine α highWaterMark).Reach (HasRoom highWaterMark) s) (e : End) :
    (s.outbound e).received <+: s.resolved e ∧ ((s.outbound e).waiters ≠ [] → (s.outbound e).received = s.resolved e) ∧
    (s.outbound e).InTurn ∧
    ∀ data, (∀ n, (((fun s => s.read e.other)^[n] (s.write highWaterMark e data)).outbound e).received <+:
        ((fun s => s.read e.other)^[n] (s.write highWaterMark e data)).resolved e) ↔
      HasRoom highWaterMark s (.write e data) := by
  have hI := Delivering.of_reach h
  have hearlier : ∀ {s : StreamSockets α}, Delivering s → (s.outbound e).received <+: s.resolved e :=
    fun hI => ⟨_, (hI.fifo e).conserved⟩
  refine ⟨hearlier hI, (hI.fifo e).received_of_waiting, (hI.fifo e).inTurn, fun data => ⟨fun hall => ?_, fun hroom n => ?_⟩⟩
  · by_contra hroom
    obtain ⟨n, hreceived, hresolved⟩ := reads_of_not_room hI hroom data
    have hlength := (hall n).length_le
    rw [hreceived, hresolved, List.length_append, List.length_singleton] at hlength
    omega
  · exact hearlier ((hI.write hroom data).reads e.other n)

/-- A chunk that is read, and one that a read waits for. -/
theorem reads_iff_room_waiting :
    ∃ s, (machine ℕ (.ofNat 1024)).run (HasRoom (.ofNat 1024)) createPair
        [.write .socketA 7, .read .socketB, .read .socketB, .write .socketA 8, .read .socketB] = some s ∧
      s.resolved .socketA = [7, 8] ∧ (s.outbound .socketA).received = s.resolved .socketA := by
  obtain ⟨s, hrun, hreach, hresolved, hwaiting⟩ := Machine.exists_of_run
    (P := fun s : StreamSockets ℕ => s.resolved .socketA = [7, 8] ∧ (s.outbound .socketA).waiters ≠ [])
    (show ((machine ℕ (.ofNat 1024)).run (HasRoom (.ofNat 1024)) (machine ℕ (.ofNat 1024)).init
      [.write .socketA 7, .read .socketB, .read .socketB, .write .socketA 8, .read .socketB]).any _ = true by
        decide +kernel)
  exact ⟨s, hrun, hresolved, (reads_iff_room hreach .socketA).2.1 hwaiting⟩

theorem rejected_write_read :
    ∃ s, (machine ℕ (.ofNat 1)).run (fun _ _ => True) createPair [.write .socketA 7, .read .socketB] = some s ∧
      (s.outbound .socketA).received = [7] ∧ s.resolved .socketA = [] :=
  ⟨_, rfl, by decide +kernel, by decide +kernel⟩

end StreamSockets
end BrowserMesh.Netway
