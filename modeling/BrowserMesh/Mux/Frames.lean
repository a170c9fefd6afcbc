import BrowserMesh.Js.Text
import BrowserMesh.Js.Dict

/-! # Chunks, frames, envelopes

* `encodeEnvelope`, `decodeEnvelope`: a tag byte before the body of a message.
* `splitIntoChunks`: an envelope in chunks of `chunkSize` bytes; it is at least one chunk.
* `encodeChunkFrame`, `decodeChunkFrame`: 14 bytes of header before a chunk.
* `Reassembler`: chunks by message id until all of them are there.

`decode_encode_chunkFrame` and `flatten_splitIntoChunks` are the round trips of the bytes;
`Reassembler.receive_spec` says what a chunk of a message does to the entry of that message. -/

namespace BrowserMesh.Mux

open Js

abbrev Byte := Fin 256

/-! ### Priorities on the wire -/

/-- `PRIORITY_NAMES`. -/
def priorityNames : List JsString := [js "high", js "normal", js "low"]

/-- `PRIORITY_CODES`. -/
def priorityCodes : JsObject Byte :=
  ⟨JsMap.ofEntries [(js "high", 0), (js "normal", 1), (js "low", 2)]⟩

/-- `PRIORITY_CODES[priority]` as `setUint8` writes it, unless it is undefined.  What a name inherits from
`Object.prototype` is not a number and is written as 0. -/
def priorityCode (priority : JsString) : Option Byte :=
  match priorityCodes.read priority with
  | .own code => some code
  | .inherited => some 0
  | .absent => none

theorem priorityCode_of_mem {priority : JsString} (h : priority ∈ priorityNames) :
    ∃ code, priorityCode priority = some code ∧ priorityNames[code.val]? = some priority := by
  simp only [priorityNames, List.mem_cons, List.not_mem_nil, or_false] at h
  rcases h with rfl | rfl | rfl
  · exact ⟨0, by decide, rfl⟩
  · exact ⟨1, by decide, rfl⟩
  · exact ⟨2, by decide, rfl⟩

/-! ### Envelopes -/

/-- A message: bytes, a string, or another value. -/
inductive Data (T J : Type) where
  | bytes (b : List Byte)
  | text (s : T)
  | json (v : J)
deriving DecidableEq

/-- UTF-8 and JSON, as far as they round-trip: strings `T` and values `J` as bytes. -/
structure Codec (T J : Type) where
  encodeText : T → List Byte
  decodeText : List Byte → Option T
  encodeJson : J → List Byte
  decodeJson : List Byte → Option J
  decode_encodeText : ∀ s, decodeText (encodeText s) = some s
  decode_encodeJson : ∀ v, decodeJson (encodeJson v) = some v

inductive EnvelopeError where
  | tooShort
  | unknownTag (tag : Byte)
  /-- The text or JSON decoder throws. -/
  | malformed
deriving DecidableEq

variable {T J : Type} (codec : Codec T J)

def encodeEnvelope : Data T J → List Byte
  | .bytes b => 0 :: b
  | .text s => 1 :: codec.encodeText s
  | .json v => 2 :: codec.encodeJson v

def decodeEnvelope (bytes : List Byte) : Except EnvelopeError (Data T J) :=
  match bytes with
  | [] => .error .tooShort
  | tag :: body =>
      if tag = 0 then .ok (.bytes body)
      else if tag = 1 then
        match codec.decodeText body with
        | none => .error .malformed
        | some s => .ok (.text s)
      else if tag = 2 then
        match codec.decodeJson body with
        | none => .error .malformed
        | some v => .ok (.json v)
      else .error (.unknownTag tag)

theorem decode_encode_envelope (d : Data T J) : decodeEnvelope codec (encodeEnvelope codec d) = .ok d := by
  cases d with
  | bytes b => rfl
  | text s => simp [encodeEnvelope, decodeEnvelope, codec.decode_encodeText]
  | json v => simp [encodeEnvelope, decodeEnvelope, codec.decode_encodeJson]

/-! ### Chunks -/

/-- A queued chunk. -/
structure Chunk where
  priority : JsString
  msgId : ℕ
  seq : ℕ
  total : ℕ
  payload : List Byte
deriving DecidableEq

/-- `Math.max(1, Math.ceil(byteLength / chunkSize))`. -/
def chunkCount (byteLength chunkSize : ℕ) : ℕ := max 1 ((byteLength + chunkSize - 1) / chunkSize)

/-- `bytes.subarray(seq * chunkSize, seq * chunkSize + chunkSize)`. -/
def chunkPayload (bytes : List Byte) (chunkSize seq : ℕ) : List Byte :=
  (bytes.drop (seq * chunkSize)).take chunkSize

/-- `splitIntoChunks(bytes, chunkSize)`: `seq`, `total` and payload of every chunk. -/
def splitIntoChunks (bytes : List Byte) (chunkSize : ℕ) : List (ℕ × ℕ × List Byte) :=
  let total := chunkCount bytes.length chunkSize
  (List.range total).map fun seq => (seq, total, chunkPayload bytes chunkSize seq)

theorem chunkCount_pos (n c : ℕ) : 0 < chunkCount n c := lt_of_lt_of_le Nat.one_pos (le_max_left _ _)

theorem length_le_chunkCount_mul {n c : ℕ} (hc : 0 < c) : n ≤ chunkCount n c * c := by
  have hdiv := Nat.div_add_mod (n + c - 1) c
  have hmod := Nat.mod_lt (n + c - 1) hc
  have hle : (n + c - 1) / c * c ≤ chunkCount n c * c := Nat.mul_le_mul_right c (le_max_right _ _)
  rw [Nat.mul_comm] at hdiv
  omega

theorem flatten_chunkPayloads (bytes : List Byte) (c k : ℕ) :
    ((List.range k).map (chunkPayload bytes c)).flatten = bytes.take (k * c) := by
  induction k with
  | zero => simp
  | succ k ih =>
      rw [List.range_succ, List.map_append, List.flatten_append, ih, Nat.succ_mul, List.take_add]
      simp [chunkPayload]

/-- The payloads of the chunks make up the envelope. -/
theorem flatten_splitIntoChunks (bytes : List Byte) {chunkSize : ℕ} (hc : 0 < chunkSize) :
    ((List.range (chunkCount bytes.length chunkSize)).map (chunkPayload bytes chunkSize)).flatten =
      bytes := by
  rw [flatten_chunkPayloads]
  exact List.take_of_length_le (length_le_chunkCount_mul hc)

/-! ### Frames -/

/-- `FRAME_VERSION`. -/
def frameVersion : Byte := 1

/-- `view.setUint32(_, n >>> 0, true)`. -/
def u32le (n : ℕ) : List Byte :=
  [Fin.ofNat 256 n, Fin.ofNat 256 (n / 256), Fin.ofNat 256 (n / 65536), Fin.ofNat 256 (n / 16777216)]

/-- `view.getUint32(_, true)`. -/
def readU32 (a b c d : Byte) : ℕ := a.val + b.val * 256 + c.val * 65536 + d.val * 16777216

theorem readU32_u32le {n : ℕ} (h : n < 2 ^ 32) :
    readU32 (Fin.ofNat 256 n) (Fin.ofNat 256 (n / 256)) (Fin.ofNat 256 (n / 65536))
      (Fin.ofNat 256 (n / 16777216)) = n := by
  simp only [readU32, Fin.val_ofNat]
  omega

inductive FrameError where
  | tooShort
  | unsupportedVersion (version : Byte)
  | unknownTier (priority : JsString)
  | unknownPriority (code : Byte)
deriving DecidableEq

def encodeChunkFrame (c : Chunk) : Except FrameError (List Byte) :=
  match priorityCode c.priority with
  | none => .error (.unknownTier c.priority)
  | some code =>
      .ok (frameVersion :: code :: (u32le c.msgId ++ u32le c.seq ++ u32le c.total ++ c.payload))

def decodeChunkFrame (data : List Byte) : Except FrameError Chunk :=
  match data with
  | version :: code :: m0 :: m1 :: m2 :: m3 :: s0 :: s1 :: s2 :: s3 :: t0 :: t1 :: t2 :: t3 :: payload =>
      if version ≠ frameVersion then .error (.unsupportedVersion version)
      else
        match priorityNames[code.val]? with
        | none => .error (.unknownPriority code)
        | some priority =>
            .ok ⟨priority, readU32 m0 m1 m2 m3, readU32 s0 s1 s2 s3, readU32 t0 t1 t2 t3, payload⟩
  | _ => .error .tooShort

theorem decode_encode_chunkFrame {c : Chunk} (hp : c.priority ∈ priorityNames) (hm : c.msgId < 2 ^ 32)
    (hs : c.seq < 2 ^ 32) (ht : c.total < 2 ^ 32) :
    ∃ frame, encodeChunkFrame c = .ok frame ∧ decodeChunkFrame frame = .ok c := by
  obtain ⟨code, hcode, hname⟩ := priorityCode_of_mem hp
  refine ⟨frameVersion :: code :: (u32le c.msgId ++ u32le c.seq ++ u32le c.total ++ c.payload), ?_, ?_⟩
  · rw [encodeChunkFrame, hcode]
  · simp only [u32le, List.cons_append, List.nil_append]
    rw [decodeChunkFrame, if_neg (by simp), hname]
    simp only [readU32_u32le hm, readU32_u32le hs, readU32_u32le ht]

/-! ### Reassembler -/

structure Entry where
  total : ℕ
  priority : JsString
  chunks : List (Option (List Byte))
  receivedCount : ℕ
deriving DecidableEq

inductive ReassemblyError where
  | invalidTotal
  | seqOutOfRange (seq total : ℕ)
  | totalMismatch (msgId expected actual : ℕ)
deriving DecidableEq

/-- `#pending`. -/
abbrev Reassembler := JsMap ℕ Entry

/-- A message that is complete. -/
structure Reassembled where
  msgId : ℕ
  priority : JsString
  bytes : List Byte
deriving DecidableEq

namespace Reassembler

/-- Put a chunk into an entry, if its place is free. -/
def fill (entry : Entry) (seq : ℕ) (payload : List Byte) : Entry :=
  match entry.chunks[seq]? with
  | some none =>
      { entry with
        chunks := entry.chunks.set seq (some payload)
        receivedCount := entry.receivedCount + 1 }
  | _ => entry

def receive (pending : Reassembler) (c : Chunk) :
    Except ReassemblyError (Reassembler × Option Reassembled) :=
  if c.total < 1 then .error .invalidTotal
  else if c.total ≤ c.seq then .error (.seqOutOfRange c.seq c.total)
  else
    let entry := (pending.get? c.msgId).getD ⟨c.total, c.priority, List.replicate c.total none, 0⟩
    if entry.total ≠ c.total then .error (.totalMismatch c.msgId entry.total c.total)
    else
      let entry := fill entry c.seq c.payload
      if entry.receivedCount < entry.total then .ok (pending.set c.msgId entry, none)
      else
        .ok (pending.delete c.msgId,
          some ⟨c.msgId, entry.priority, (entry.chunks.map (Option.getD · [])).flatten⟩)

end Reassembler

/-! ### A message in parts -/

/-- A message cut into `total` parts. -/
structure Parts where
  priority : JsString
  msgId : ℕ
  total : ℕ
  payload : ℕ → List Byte

namespace Parts
variable (m : Parts)

def chunk (seq : ℕ) : Chunk := ⟨m.priority, m.msgId, seq, m.total, m.payload seq⟩

def bytes : List Byte := ((List.range m.total).map m.payload).flatten

/-- The entry of a message of which the parts `got` have arrived. -/
def entry (got : Finset ℕ) : Entry :=
  ⟨m.total, m.priority, (List.range m.total).map fun i => if i ∈ got then some (m.payload i) else none,
    got.card⟩

/-- What the reassembler holds of a message of which the parts `got` have arrived. -/
def held (got : Finset ℕ) : Option Entry := if got = ∅ then none else some (m.entry got)

theorem getD_held (got : Finset ℕ) :
    (m.held got).getD ⟨m.total, m.priority, List.replicate m.total none, 0⟩ = m.entry got := by
  unfold held
  split_ifs with h
  · subst h
    simp [entry]
  · rfl

theorem fill_entry {got : Finset ℕ} {seq : ℕ} (hseq : seq < m.total) :
    Reassembler.fill (m.entry got) seq (m.payload seq) = m.entry (insert seq got) := by
  by_cases hnew : seq ∈ got
  · -- the place is taken, and nothing changes
    have htaken : (m.entry got).chunks[seq]? = some (some (m.payload seq)) := by simp [entry, hseq, hnew]
    simp only [Reassembler.fill, htaken, Finset.insert_eq_of_mem hnew]
  have hfree : (m.entry got).chunks[seq]? = some none := by simp [entry, hseq, hnew]
  have hset : (m.entry got).chunks.set seq (some (m.payload seq)) = (m.entry (insert seq got)).chunks := by
    apply List.ext_getElem?
    intro i
    by_cases h : seq = i
    · subst h
      simp [entry, hseq]
    · have hother : ∀ j, (List.range m.total)[i]? = some j → (j ∈ insert seq got ↔ j ∈ got) := by
        intro j hj
        obtain ⟨hi, rfl⟩ := List.getElem?_eq_some_iff.mp hj
        rw [List.getElem_range, Finset.mem_insert]
        exact or_iff_right (Ne.symm h)
      rw [List.getElem?_set_ne h]
      simp only [entry, List.getElem?_map]
      cases hi : (List.range m.total)[i]? with
      | none => rfl
      | some j => simp only [Option.map_some, hother j hi]
  have hcard : got.card + 1 = (insert seq got).card := (Finset.card_insert_of_notMem hnew).symm
  simp only [Reassembler.fill, hfree, hset]
  simp only [entry, hcard]

theorem chunks_entry_range :
    ((m.entry (Finset.range m.total)).chunks.map (Option.getD · [])).flatten = m.bytes := by
  have hall : (m.entry (Finset.range m.total)).chunks = (List.range m.total).map fun i => some (m.payload i) := by
    apply List.map_congr_left
    intro i hi
    rw [if_pos (Finset.mem_range.mpr (List.mem_range.mp hi))]
  rw [hall, bytes, List.map_map]
  rfl

end Parts

/-- A part of a message completes it or is filed in its entry. -/
theorem Reassembler.receive_spec (m : Parts) {pending : Reassembler} {got : Finset ℕ} {seq : ℕ}
    (hgot : got ⊆ Finset.range m.total) (hseq : seq < m.total)
    (h : pending.get? m.msgId = m.held got) :
    pending.receive (m.chunk seq) =
      .ok (if insert seq got = Finset.range m.total then
          (pending.delete m.msgId, some ⟨m.msgId, m.priority, m.bytes⟩)
        else (pending.set m.msgId (m.entry (insert seq got)), none)) := by
  have hsub : insert seq got ⊆ Finset.range m.total :=
    Finset.insert_subset (Finset.mem_range.mpr hseq) hgot
  have hlt : (insert seq got).card < m.total ↔ insert seq got ≠ Finset.range m.total := by
    have hle := Finset.card_le_card hsub
    rw [Finset.card_range] at hle
    constructor
    · intro hc he
      rw [he, Finset.card_range] at hc
      exact hc.false
    · intro hne
      apply lt_of_le_of_ne hle
      intro hc
      exact hne (Finset.eq_of_subset_of_card_le hsub (by rw [Finset.card_range, hc]))
  have htotal : ¬ m.total < 1 := by omega
  have hrange : ¬ m.total ≤ seq := by omega
  have hentry : (pending.get? (m.chunk seq).msgId).getD ⟨(m.chunk seq).total, (m.chunk seq).priority,
      List.replicate (m.chunk seq).total none, 0⟩ = m.entry got := by
    rw [← m.getD_held, ← h]
    rfl
  have hsame : ¬ (m.entry got).total ≠ (m.chunk seq).total := fun hne => hne rfl
  have hfill : fill (m.entry got) (m.chunk seq).seq (m.chunk seq).payload = m.entry (insert seq got) :=
    m.fill_entry hseq
  rw [receive, if_neg (show ¬ (m.chunk seq).total < 1 from htotal),
    if_neg (show ¬ (m.chunk seq).total ≤ (m.chunk seq).seq from hrange)]
  simp only [hentry, if_neg hsame, hfill]
  by_cases hfull : insert seq got = Finset.range m.total
  · have hdone : ¬ (m.entry (insert seq got)).receivedCount < (m.entry (insert seq got)).total :=
      fun hc => hlt.mp hc hfull
    rw [if_neg hdone, if_pos hfull, hfull, m.chunks_entry_range]
    rfl
  · have hmore : (m.entry (insert seq got)).receivedCount < (m.entry (insert seq got)).total :=
      hlt.mpr hfull
    rw [if_pos hmore, if_neg hfull]
    rfl

end BrowserMesh.Mux
