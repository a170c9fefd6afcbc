import BrowserMesh.Js.Number
import BrowserMesh.Library.Mailbox
import BrowserMesh.Library.Transition

/-! # Pipes

* **Buffers.**  `AsyncBuffer` is a mailbox that can be closed for writing, which leaves its queue to be drained, or for
  reading, which drops it.  The push that fills the queue up to the high-water mark is refused, but stays in the queue.
* **Pipes.**  A write that is refused closes the writer, and not the buffer.
* **Delivery.**  While every write has room, what is read is what was written, and a reader behind a closed writer is told
  the end; a write without room is read all the same (`pipe_delivers`). -/

namespace BrowserMesh.Kernel
open Js Transition

structure AsyncBuffer (α : Type) extends Mailbox α where
  writeClosed : Bool
  readClosed : Bool
  paused : Bool

namespace AsyncBuffer
variable {α : Type}

def new : AsyncBuffer α := ⟨.empty, false, false, false⟩

/-- `highWaterMark > 0 && length >= highWaterMark`. -/
def reached (highWaterMark : JsNumber) (length : ℕ) : Bool :=
  JsNumber.lt 0 highWaterMark && highWaterMark.le (.ofNat length)

def push (highWaterMark : JsNumber) (b : AsyncBuffer α) (data : α) : AsyncBuffer α × Bool :=
  if b.writeClosed || b.readClosed then (b, false)
  else
    let pushed : AsyncBuffer α := { b with toMailbox := b.toMailbox.give data }
    match b.waiters with
    | _ :: _ => (pushed, true)
    | [] =>
        if reached highWaterMark pushed.queue.length then ({ pushed with paused := true }, false) else (pushed, true)

def pull (highWaterMark : JsNumber) (b : AsyncBuffer α) : AsyncBuffer α :=
  let pulled : AsyncBuffer α := { b with toMailbox := b.toMailbox.take (b.writeClosed || b.readClosed) }
  match b.queue with
  | _ :: rest =>
      -- writes resume below the mark
      if b.paused && JsNumber.lt (.ofNat rest.length) highWaterMark then { pulled with paused := false } else pulled
  | [] => pulled

def closeWrite (b : AsyncBuffer α) : AsyncBuffer α :=
  { b with toMailbox := b.toMailbox.release, writeClosed := true, paused := false }

def closeRead (b : AsyncBuffer α) : AsyncBuffer α := ⟨b.toMailbox.release.drop, true, true, false⟩

/-- A push is refused at once, finds somebody who waits, or leaves the queue below the mark. -/
def Room (highWaterMark : JsNumber) (b : AsyncBuffer α) : Prop :=
  (b.writeClosed || b.readClosed) = true ∨ b.waiters ≠ [] ∨ reached highWaterMark (b.queue.length + 1) = false

variable {highWaterMark : JsNumber} {b : AsyncBuffer α}

theorem push_of_room (hopen : (b.writeClosed || b.readClosed) = false) (h : b.Room highWaterMark) (data : α) :
    b.push highWaterMark data = ({ b with toMailbox := b.toMailbox.give data }, true) := by
  rw [push, hopen, if_neg Bool.false_ne_true]
  rcases h with hclosed | hwaiting | hbelow
  · cases hopen.symm.trans hclosed
  · obtain ⟨i, rest, hw⟩ := List.exists_cons_of_ne_nil hwaiting
    rw [hw]
  · cases hw : b.waiters with
    | cons i rest => rfl
    | nil =>
        dsimp only
        rw [Mailbox.give_of_none hw, List.length_append, List.length_singleton, hbelow, if_neg Bool.false_ne_true]

theorem push_of_not_room (h : ¬ b.Room highWaterMark) (data : α) :
    b.push highWaterMark data =
      (⟨⟨b.queue ++ [data], b.waiters, b.asked, b.answered⟩, b.writeClosed, b.readClosed, true⟩, false) := by
  obtain ⟨hopen, hrest⟩ := not_or.mp h
  obtain ⟨hwaiting, hbelow⟩ := not_or.mp hrest
  have hw : b.waiters = [] := not_not.mp hwaiting
  rw [push, if_neg hopen, Mailbox.give_of_none hw, hw]
  dsimp only
  rw [List.length_append, List.length_singleton, if_pos (Bool.of_not_eq_false hbelow)]

theorem pull_eq (highWaterMark : JsNumber) (b : AsyncBuffer α) :
    ∃ paused, b.pull highWaterMark =
      ⟨b.toMailbox.take (b.writeClosed || b.readClosed), b.writeClosed, b.readClosed, paused⟩ := by
  rw [pull]
  split
  · split_ifs
    · exact ⟨false, rfl⟩
    · exact ⟨b.paused, rfl⟩
  · exact ⟨b.paused, rfl⟩

end AsyncBuffer

/-- The two ends of `createPipe`, with the chunks whose `write` resolved. -/
structure Pipe (α : Type) where
  buffer : AsyncBuffer α
  readerClosed : Bool
  writerClosed : Bool
  resolved : List α

namespace Pipe
variable {α : Type}

def createPipe : Pipe α := ⟨.new, false, false, []⟩

/-- `reader.read()`. -/
def read (highWaterMark : JsNumber) (s : Pipe α) : Pipe α :=
  if s.readerClosed then { s with buffer := { s.buffer with toMailbox := s.buffer.toMailbox.answer none } }
  else { s with buffer := s.buffer.pull highWaterMark }

/-- `reader.close()`. -/
def closeReader (s : Pipe α) : Pipe α :=
  if s.readerClosed then s else { s with readerClosed := true, buffer := s.buffer.closeRead }

/-- `writer.write(data)`. -/
def write (highWaterMark : JsNumber) (s : Pipe α) (data : α) : Pipe α :=
  if s.writerClosed then s
  else
    let pushed := s.buffer.push highWaterMark data
    if pushed.2 then { s with buffer := pushed.1, resolved := s.resolved ++ [data] }
    else { s with buffer := pushed.1, writerClosed := true }

/-- `writer.close()`. -/
def closeWriter (s : Pipe α) : Pipe α :=
  if s.writerClosed then s else { s with writerClosed := true, buffer := s.buffer.closeWrite }

inductive Action (α : Type) where
  | read
  | closeReader
  | write (data : α)
  | closeWriter

def step (highWaterMark : JsNumber) (s : Pipe α) : Action α → Option (Pipe α)
  | .read => some (s.read highWaterMark)
  | .closeReader => some s.closeReader
  | .write data => some (s.write highWaterMark data)
  | .closeWriter => some s.closeWriter

def machine (α : Type) (highWaterMark : JsNumber) : Machine (Pipe α) (Action α) := ⟨createPipe, step highWaterMark⟩

def HasRoom (highWaterMark : JsNumber) (s : Pipe α) : Action α → Prop
  | .write _ => s.writerClosed = true ∨ s.buffer.Room highWaterMark
  | _ => True

instance (highWaterMark : JsNumber) (s : Pipe α) : DecidablePred (HasRoom highWaterMark s)
  | .write _ => inferInstanceAs (Decidable (_ ∨ _ ∨ _ ∨ _))
  | .read => inferInstanceAs (Decidable True)
  | .closeReader => inferInstanceAs (Decidable True)
  | .closeWriter => inferInstanceAs (Decidable True)

/-- The buffer has the chunks whose writes resolved, until they are dropped; behind a closed writer nobody waits. -/
structure Delivering (s : Pipe α) : Prop where
  reader : s.readerClosed = s.buffer.readClosed
  writer : s.writerClosed = true → s.buffer.writeClosed = true
  ended : s.buffer.writeClosed = true → s.buffer.waiters = []
  fifo : s.buffer.readClosed = false → s.buffer.Fifo s.resolved
  dropped : s.buffer.readClosed = true →
    s.buffer.writeClosed = true ∧ s.buffer.queue = [] ∧ s.buffer.InTurn ∧ s.buffer.received <+: s.resolved

variable {highWaterMark : JsNumber} {s : Pipe α}

theorem read_of_open (highWaterMark : JsNumber) (h : s.readerClosed = false) :
    ∃ paused, s.read highWaterMark = { s with buffer :=
      ⟨s.buffer.toMailbox.take (s.buffer.writeClosed || s.buffer.readClosed), s.buffer.writeClosed, s.buffer.readClosed,
        paused⟩ } := by
  obtain ⟨paused, hpull⟩ := s.buffer.pull_eq highWaterMark
  exact ⟨paused, by rw [read, h, if_neg Bool.false_ne_true, hpull]⟩

namespace Delivering

theorem inTurn (h : Delivering s) : s.buffer.InTurn := by
  cases hclosed : s.buffer.readClosed with
  | false => exact (h.fifo hclosed).inTurn
  | true => exact (h.dropped hclosed).2.2.1

theorem received_earlier (h : Delivering s) : s.buffer.received <+: s.resolved := by
  cases hclosed : s.buffer.readClosed with
  | false => exact ⟨_, (h.fifo hclosed).conserved⟩
  | true => exact (h.dropped hclosed).2.2.2

theorem read (h : Delivering s) : Delivering (s.read highWaterMark) := by
  have hreader := h.reader
  cases hclosed : s.buffer.readClosed with
  | true =>
      obtain ⟨hwrite, hqueue, hturn, hearlier⟩ := h.dropped hclosed
      rw [Pipe.read, if_pos (hreader.trans hclosed)]
      refine ⟨hreader, h.writer, h.ended, fun hopen => absurd (hopen.symm.trans hclosed) Bool.false_ne_true, fun _ => ?_⟩
      refine ⟨hwrite, hqueue, hturn.answer (h.ended hwrite) none, ?_⟩
      rw [Mailbox.received_answer]
      exact (List.append_nil s.buffer.received).symm ▸ hearlier
  | false =>
      obtain ⟨paused, hread⟩ := read_of_open highWaterMark (hreader.trans hclosed)
      rw [hread, hclosed, Bool.or_false]
      have hfifo := (h.fifo hclosed).take h.ended
      refine ⟨hreader.trans hclosed, h.writer, fun hended => ?_, fun _ => hfifo, fun hread => (by cases hread)⟩
      rw [Mailbox.take]
      have hw := h.ended hended
      split
      · exact hw
      · rw [if_pos hended]
        exact hw

theorem closeReader (h : Delivering s) : Delivering s.closeReader := by
  rw [Pipe.closeReader]
  split_ifs with hclosed
  · exact h
  · refine ⟨rfl, fun _ => rfl, fun _ => rfl, fun hopen => (by cases hopen), fun _ => ⟨rfl, rfl, h.inTurn.release, ?_⟩⟩
    exact (Mailbox.received_release s.buffer.toMailbox).symm ▸ h.received_earlier

theorem closeWriter (h : Delivering s) : Delivering s.closeWriter := by
  rw [Pipe.closeWriter]
  split_ifs with hclosed
  · exact h
  · refine ⟨h.reader, fun _ => rfl, fun _ => rfl, fun hopen => (h.fifo hopen).release, fun hdropped => ?_⟩
    obtain ⟨-, hqueue, hturn, hearlier⟩ := h.dropped hdropped
    exact ⟨rfl, hqueue, hturn.release, (Mailbox.received_release s.buffer.toMailbox).symm ▸ hearlier⟩

theorem write (h : Delivering s) (data : α) (hroom : HasRoom highWaterMark s (.write data)) :
    Delivering (s.write highWaterMark data) := by
  by_cases hclosed : s.writerClosed = true
  · rw [Pipe.write, if_pos hclosed]
    exact h
  · cases hended : s.buffer.writeClosed || s.buffer.readClosed with
    | true =>
        -- a closed buffer is left as it is
        have hwrite : s.write highWaterMark data = { s with writerClosed := true } := by
          rw [Pipe.write, if_neg hclosed, AsyncBuffer.push, hended]
          rfl
        rw [hwrite]
        refine ⟨h.reader, fun _ => ?_, h.ended, h.fifo, h.dropped⟩
        rcases Bool.or_eq_true_iff.mp hended with hwrite | hread
        · exact hwrite
        · exact (h.dropped hread).1
    | false =>
        have hwrite : s.write highWaterMark data =
            ⟨{ s.buffer with toMailbox := s.buffer.toMailbox.give data }, s.readerClosed, s.writerClosed,
              s.resolved ++ [data]⟩ := by
          rw [Pipe.write, if_neg hclosed, AsyncBuffer.push_of_room hended (hroom.resolve_left hclosed)]
          rfl
        obtain ⟨hopen, hread⟩ := Bool.or_eq_false_iff.mp hended
        rw [hwrite]
        exact ⟨h.reader, h.writer, fun hended => absurd (hopen.symm.trans hended) Bool.false_ne_true,
          fun _ => (h.fifo hread).give data, fun hdropped => absurd (hread.symm.trans hdropped) Bool.false_ne_true⟩

theorem of_reach (h : (machine α highWaterMark).Reach (HasRoom highWaterMark) s) : Delivering s := by
  have hinit : Delivering (createPipe : Pipe α) :=
    ⟨rfl, fun h => (by cases h), fun _ => rfl, fun _ => Mailbox.fifo_empty, fun h => (by cases h)⟩
  refine h.invariant hinit fun s a s' hI hroom hs => ?_
  cases a with
  | read => exact Option.some.inj hs ▸ hI.read
  | closeReader => exact Option.some.inj hs ▸ hI.closeReader
  | write data => exact Option.some.inj hs ▸ hI.write data hroom
  | closeWriter => exact Option.some.inj hs ▸ hI.closeWriter

end Delivering

theorem buffer_reads (highWaterMark : JsNumber) (hopen : s.readerClosed = false) (n : ℕ) :
    ((read highWaterMark)^[n] s).buffer.toMailbox =
      (fun m : Mailbox α => m.take (s.buffer.writeClosed || s.buffer.readClosed))^[n] s.buffer.toMailbox ∧
    ((read highWaterMark)^[n] s).resolved = s.resolved := by
  induction n generalizing s with
  | zero => exact ⟨rfl, rfl⟩
  | succ n ih =>
      obtain ⟨paused, hread⟩ := read_of_open highWaterMark hopen
      rw [Function.iterate_succ_apply, Function.iterate_succ_apply, hread]
      exact ih (s := { s with buffer := ⟨_, _, _, paused⟩ }) hopen

theorem reads_of_not_room (h : Delivering s) {data : α} (hroom : ¬ HasRoom highWaterMark s (.write data)) :
    ∃ n, ((read highWaterMark)^[n] (s.write highWaterMark data)).buffer.received = s.resolved ++ [data] ∧
      ((read highWaterMark)^[n] (s.write highWaterMark data)).resolved = s.resolved := by
  obtain ⟨hwriter, hbuffer⟩ := not_or.mp hroom
  obtain ⟨-, hread⟩ := Bool.or_eq_false_iff.mp (Bool.eq_false_of_not_eq_true (not_or.mp hbuffer).1)
  have hwrite : s.write highWaterMark data =
      ⟨⟨⟨s.buffer.queue ++ [data], s.buffer.waiters, s.buffer.asked, s.buffer.answered⟩, s.buffer.writeClosed,
        s.buffer.readClosed, true⟩, s.readerClosed, true, s.resolved⟩ := by
    rw [write, if_neg hwriter, AsyncBuffer.push_of_not_room hbuffer]
    rfl
  obtain ⟨hmailbox, hresolved⟩ := buffer_reads (s := s.write highWaterMark data) highWaterMark
    (by rw [hwrite]; exact h.reader.trans hread) (s.buffer.queue ++ [data]).length
  refine ⟨(s.buffer.queue ++ [data]).length, ?_, by rw [hresolved, hwrite]⟩
  rw [hmailbox, hwrite, ← (h.fifo hread).conserved, List.append_assoc]
  exact Mailbox.received_iterate_take ⟨s.buffer.queue ++ [data], s.buffer.waiters, s.buffer.asked, s.buffer.answered⟩ _

/-- While every write has room, the reads return chunks whose writes resolved, each once and in order, and behind a closed
writer no read waits, and a read of the drained buffer returns the end.  A write keeps the former, whatever is read after
it, exactly if it has room. -/
theorem pipe_delivers (h : (machine α highWaterMark).Reach (HasRoom highWaterMark) s) :
    s.buffer.received <+: s.resolved ∧ s.buffer.InTurn ∧
    (s.writerClosed = true → s.buffer.waiters = [] ∧
      (s.buffer.queue = [] → (s.read highWaterMark).buffer.toMailbox = s.buffer.toMailbox.answer none)) ∧
    ∀ data, (∀ n, ((read highWaterMark)^[n] (s.write highWaterMark data)).buffer.received <+:
        ((read highWaterMark)^[n] (s.write highWaterMark data)).resolved) ↔ HasRoom highWaterMark s (.write data) := by
  have hI := Delivering.of_reach h
  refine ⟨hI.received_earlier, hI.inTurn, fun hclosed => ?_, fun data => ⟨fun hall => ?_, fun hroom n => ?_⟩⟩
  · have hended := hI.writer hclosed
    refine ⟨hI.ended hended, fun hdrained => ?_⟩
    cases hreader : s.readerClosed with
    | true => rw [read, hreader, if_pos rfl]
    | false =>
        obtain ⟨paused, hread⟩ := read_of_open highWaterMark hreader
        rw [hread, hended, Bool.true_or]
        dsimp only
        rw [Mailbox.take, hdrained]
        exact if_pos rfl
  · by_contra hroom
    obtain ⟨n, hreceived, hresolved⟩ := reads_of_not_room hI hroom
    have hlength := (hall n).length_le
    rw [hreceived, hresolved, List.length_append, List.length_singleton] at hlength
    omega
  · have hreads : ∀ {s : Pipe α}, Delivering s → Delivering ((read highWaterMark)^[n] s) := by
      induction n with
      | zero => exact id
      | succ n ih => exact fun h => ih h.read
    exact (hreads (hI.write data hroom)).received_earlier

/-- A chunk that is read before the writer is closed, and one that is read afterwards. -/
theorem pipe_delivers_ended :
    ∃ s, (machine ℕ (.ofNat 1024)).run (HasRoom (.ofNat 1024)) createPipe
        [.write 7, .read, .write 8, .closeWriter, .read] = some s ∧
      s.resolved = [7, 8] ∧ s.buffer.received <+: s.resolved ∧ s.buffer.waiters = [] ∧
      (s.read (.ofNat 1024)).buffer.toMailbox = s.buffer.toMailbox.answer none := by
  obtain ⟨s, hrun, hreach, hresolved, hclosed, hdrained⟩ := Machine.exists_of_run
    (P := fun s : Pipe ℕ => s.resolved = [7, 8] ∧ s.writerClosed = true ∧ s.buffer.queue = [])
    (show ((machine ℕ (.ofNat 1024)).run (HasRoom (.ofNat 1024)) (machine ℕ (.ofNat 1024)).init
      [.write 7, .read, .write 8, .closeWriter, .read]).any _ = true by decide +kernel)
  obtain ⟨hreceived, -, hends, -⟩ := pipe_delivers hreach
  exact ⟨s, hrun, hresolved, hreceived, (hends hclosed).1, (hends hclosed).2 hdrained⟩

/-- With the mark at one chunk the first write is rejected, and read; the next read waits although the writer is closed. -/
theorem rejected_write_delivered :
    ∃ s, (machine ℕ (.ofNat 1)).run (fun _ _ => True) createPipe [.write 7, .read, .closeWriter, .read] = some s ∧
      s.buffer.received = [7] ∧ s.resolved = [] ∧ s.writerClosed = true ∧ s.buffer.waiters = [1] :=
  ⟨_, rfl, by decide +kernel, by decide +kernel, by decide +kernel, by decide +kernel⟩

end Pipe
end BrowserMesh.Kernel
