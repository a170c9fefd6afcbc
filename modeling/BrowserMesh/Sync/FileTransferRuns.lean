import BrowserMesh.Sync.FileTransfer

/-! # Transfers that end once, with all of the files

* **The condition.**  A transfer is registered once, with the sum of its file sizes; what would write the status
  of a transfer that has ended does not happen; a receiver is told of completion only when it has all bytes, and
  records verified chunks that belong to the files; no file has two chunks with one CID (`MayStart`, `MayGoOn`).
* **The invariant.**  The bytes are counted chunk by chunk (`Counted`), what was received lies within the files
  and completes the transfer when it fills them (`Received`), and a generator has recorded all of what is behind it
  (`Sending`).
* **Results.**  Completed, failed and cancelled are final, a completed receiver has the whole of every file, and
  both ends are completed when all of the chunks have been received (`transfers_end`). -/

namespace BrowserMesh.Sync
open Js Guards Async Transition

/-! ### Bytes -/

namespace TransferState

def bytesOf (chunks : List ChunkRecord) (i : ℤ) : ℕ :=
  ((chunks.filter fun c => c.fileIndex = i).map ChunkRecord.size).sum

def fileBytes (s : TransferState) (i : ℤ) : ℕ := bytesOf s.chunks i

def sizeOf? (s : TransferState) (i : ℤ) : Option ℕ := if 0 ≤ i then s.fileSizes[i.toNat]? else none

/-- A chunk was recorded before, or is a new one of a file with room for it. -/
def Fits (s : TransferState) (c : ChunkRecord) : Prop :=
  c ∈ s.chunks ∨ c.key ∉ s.chunks.map ChunkRecord.key ∧
    (s.sizeOf? c.fileIndex).any (fun n => s.fileBytes c.fileIndex + c.size ≤ n) = true

instance (s : TransferState) (c : ChunkRecord) : Decidable (s.Fits c) := inferInstanceAs (Decidable (_ ∨ _))

/-- The recorded bytes of every file are the whole of it. -/
def Whole (s : TransferState) : Prop := ∀ (i n : ℕ), s.fileSizes[i]? = some n → s.fileBytes i = n

theorem sizeOf?_eq_some {s : TransferState} {i : ℤ} {n : ℕ} (h : s.sizeOf? i = some n) :
    ∃ j : ℕ, i = j ∧ s.fileSizes[j]? = some n := by
  rw [sizeOf?] at h
  split_ifs at h with hi
  exact ⟨i.toNat, (Int.toNat_of_nonneg hi).symm, h⟩

theorem bytesOf_append (chunks : List ChunkRecord) (c : ChunkRecord) (i : ℤ) :
    bytesOf (chunks ++ [c]) i = bytesOf chunks i + if c.fileIndex = i then c.size else 0 := by
  rw [bytesOf, List.filter_append, List.map_append, List.sum_append, bytesOf]
  by_cases hi : c.fileIndex = i
  · rw [List.filter_cons_of_pos (by simpa using hi), if_pos hi]
    rfl
  · rw [List.filter_cons_of_neg (by simpa using hi), if_neg hi]
    rfl

theorem sum_sizes {chunks : List ChunkRecord} {n : ℕ} (h : ∀ c ∈ chunks, ∃ i : ℕ, i < n ∧ c.fileIndex = i) :
    (chunks.map ChunkRecord.size).sum = ∑ i : Fin n, bytesOf chunks (i : ℕ) := by
  induction chunks using List.reverseRecOn with
  | nil => exact (Finset.sum_eq_zero fun i _ => rfl).symm
  | append_singleton chunks c ih =>
      obtain ⟨i, hi, hc⟩ := h c (List.mem_append_right _ List.mem_cons_self)
      have hone : ∀ j : Fin n, bytesOf (chunks ++ [c]) (j : ℕ) =
          bytesOf chunks (j : ℕ) + if j = ⟨i, hi⟩ then c.size else 0 := by
        intro j
        have hiff : c.fileIndex = (j : ℕ) ↔ j = ⟨i, hi⟩ := by
          rw [hc, Nat.cast_inj, Fin.ext_iff]
          exact eq_comm
        rw [bytesOf_append]
        exact congrArg _ (if_congr hiff rfl rfl)
      rw [List.map_append, List.sum_append, ih fun c' hc' => h c' (List.mem_append_left _ hc'),
        Finset.sum_congr rfl fun j _ => hone j, Finset.sum_add_distrib, Finset.sum_ite_eq' Finset.univ,
        if_pos (Finset.mem_univ _)]
      rfl

/-! ### The invariant of a state -/

/-- The counters. -/
structure Counted (s : TransferState) : Prop where
  total : s.totalSize = s.fileSizes.sum
  bytes : s.bytesTransferred = (s.chunks.map ChunkRecord.size).sum
  keys : (s.chunks.map ChunkRecord.key).Nodup

/-- What was received. -/
structure Received (computeCid : Bytes → JsString) (s : TransferState) : Prop where
  nonempty : 0 < s.totalSize
  inRange : ∀ c ∈ s.chunks, ∃ i : ℕ, i < s.fileSizes.length ∧ c.fileIndex = i
  within : ∀ (i n : ℕ), s.fileSizes[i]? = some n → s.fileBytes i ≤ n
  verified : ∀ c ∈ s.chunks, ∃ data, computeCid data = c.cid ∧ data.length = c.size
  complete : s.status = .completed → s.isComplete
  completed : s.chunks ≠ [] → s.isComplete → s.status = .completed

/-- What holds of every state, and of that of a receiver. -/
def Ok (computeCid : Bytes → JsString) (d : TransferDirection) (s : TransferState) : Prop :=
  s.Counted ∧ (d = .receive → s.Received computeCid)

/-- What may happen to a state. -/
structure Advance (s s' : TransferState) : Prop where
  transferId : s'.transferId = s.transferId
  totalSize : s'.totalSize = s.totalSize
  fileSizes : s'.fileSizes = s.fileSizes
  chunks : s.chunks ⊆ s'.chunks
  terminal : s.status.terminal = true → s'.status = s.status

variable {computeCid : Bytes → JsString} {s s' s'' : TransferState} {c : ChunkRecord} {status : TransferStatus}
  {d : TransferDirection}

theorem Advance.refl (s : TransferState) : Advance s s := ⟨rfl, rfl, rfl, fun _ h => h, fun _ => rfl⟩

theorem Advance.trans (h : Advance s s') (h' : Advance s' s'') : Advance s s'' where
  transferId := h'.transferId.trans h.transferId
  totalSize := h'.totalSize.trans h.totalSize
  fileSizes := h'.fileSizes.trans h.fileSizes
  chunks := fun _ hc => h'.chunks (h.chunks hc)
  terminal := by
    intro hs
    have hs' := h.terminal hs
    rw [h'.terminal (by rw [hs', hs]), hs']

theorem Received.whole (h : s.Received computeCid) (hc : s.Counted) (hs : s.status = .completed) : s.Whole := by
  have hle : ∀ i ∈ (Finset.univ : Finset (Fin s.fileSizes.length)), s.fileBytes (i : ℕ) ≤ s.fileSizes[i.1] :=
    fun i _ => h.within i _ (List.getElem?_eq_getElem i.2)
  have hbytes : s.bytesTransferred = ∑ i : Fin s.fileSizes.length, s.fileBytes (i : ℕ) :=
    hc.bytes.trans (sum_sizes h.inRange)
  have htotal : s.totalSize = ∑ i : Fin s.fileSizes.length, s.fileSizes[i.1] := by
    rw [hc.total, Fin.sum_univ_getElem]
  have heq : ∑ i : Fin s.fileSizes.length, s.fileBytes (i : ℕ) = ∑ i : Fin s.fileSizes.length, s.fileSizes[i.1] := by
    apply le_antisymm (Finset.sum_le_sum hle)
    rw [← hbytes, ← htotal]
    exact h.complete hs
  intro i n hn
  obtain ⟨hi, rfl⟩ := List.getElem?_eq_some_iff.mp hn
  exact (Finset.sum_eq_sum_iff_of_le hle).mp heq ⟨i, hi⟩ (Finset.mem_univ _)

/-! ### What is written -/

theorem advance_setStatus (h : s.status.terminal = true → status = s.status) :
    Advance s (s.setStatus status) :=
  ⟨rfl, rfl, rfl, fun _ hc => hc, h⟩

theorem Ok.setStatus (h : s.Ok computeCid d) (hterminal : s.status.terminal = true → status = s.status)
    (hcompleted : d = .receive → status = .completed → s.isComplete) : (s.setStatus status).Ok computeCid d := by
  refine ⟨⟨h.1.total, h.1.bytes, h.1.keys⟩, fun hd => ?_⟩
  obtain ⟨hnonempty, hrange, hwithin, hverified, hcomplete, hdone⟩ := h.2 hd
  refine ⟨hnonempty, hrange, hwithin, hverified, hcompleted hd, fun hchunks hbytes => ?_⟩
  have hs : s.status = .completed := hdone hchunks hbytes
  exact (hterminal (by rw [hs]; rfl)).trans hs

theorem addChunk_eq (s : TransferState) (c : ChunkRecord) :
    s.addChunk c = if c.key ∈ s.chunks.map ChunkRecord.key then s.setStatus .transferring
      else { s with
        status := .transferring
        bytesTransferred := s.bytesTransferred + c.size
        chunks := s.chunks ++ [c] } := by
  have hstatus : (if s.status ≠ .transferring then s.setStatus .transferring else s) = s.setStatus .transferring := by
    split_ifs with h
    · rfl
    · obtain ⟨_, status, _, _, _, _⟩ := s
      obtain rfl : status = .transferring := not_not.mp h
      rfl
  rw [addChunk, hstatus]
  rfl

theorem Counted.addChunk (h : s.Counted) : (s.addChunk c).Counted := by
  rw [addChunk_eq]
  split_ifs with hc
  · exact ⟨h.total, h.bytes, h.keys⟩
  · refine ⟨h.total, ?_, ?_⟩
    · change s.bytesTransferred + c.size = ((s.chunks ++ [c]).map _).sum
      rw [h.bytes, List.map_append, List.sum_append, List.map_singleton, List.sum_singleton]
    · change ((s.chunks ++ [c]).map _).Nodup
      rw [List.map_append, List.map_singleton]
      exact List.nodup_append.mpr ⟨h.keys, List.nodup_singleton _, fun a ha b hb => by
        rw [List.mem_singleton.mp hb]
        rintro rfl
        exact hc ha⟩

theorem chunks_addChunk (s : TransferState) (c : ChunkRecord) : s.chunks ⊆ (s.addChunk c).chunks := by
  rw [addChunk_eq]
  split_ifs
  · exact fun _ h => h
  · exact fun _ h => List.mem_append_left _ h

theorem advance_addChunk (h : s.status.terminal = false) : Advance s (s.addChunk c) := by
  refine ⟨?_, ?_, ?_, chunks_addChunk s c, fun hterminal => ?_⟩
  · rw [addChunk_eq]
    split_ifs <;> rfl
  · rw [addChunk_eq]
    split_ifs <;> rfl
  · rw [addChunk_eq]
    split_ifs <;> rfl
  · rw [h] at hterminal
    cases hterminal

theorem mem_addChunk (h : ∀ c' ∈ s.chunks, c'.key = c.key → c'.size = c.size) : c ∈ (s.addChunk c).chunks := by
  rw [addChunk_eq]
  split_ifs with hc
  · obtain ⟨c', hc', hkey⟩ := List.mem_map.mp hc
    have heq : c' = c := by
      obtain ⟨i, cid, size⟩ := c
      obtain ⟨i', cid', size'⟩ := c'
      obtain ⟨rfl, rfl⟩ := Prod.mk.inj hkey
      rw [show size' = size from h _ hc' rfl]
    exact heq ▸ hc'
  · exact List.mem_append_right _ List.mem_cons_self

/-- The end of `sendChunks` and of `receiveChunk`, as a write to the state. -/
def finish (s : TransferState) : TransferState := if s.isComplete then s.setStatus .completed else s

theorem finish_of_complete (h : s.isComplete) : s.finish = s.setStatus .completed := if_pos h

theorem chunks_finish (s : TransferState) : s.finish.chunks = s.chunks := by
  rw [finish]
  split_ifs <;> rfl

theorem received_addChunk (h : s.Received computeCid) (hfits : s.Fits c)
    (hverified : ∃ data, computeCid data = c.cid ∧ data.length = c.size) :
    (s.addChunk c).finish.Received computeCid := by
  have hold : c ∈ s.chunks → s.addChunk c = s.setStatus .transferring := by
    intro hmem
    rw [addChunk_eq, if_pos (List.mem_map_of_mem hmem)]
  -- whatever the status before, it is completed afterwards if and only if all bytes are there
  have hstatus : ∀ s' : TransferState, s'.status = .transferring →
      (s'.finish.status = .completed → s'.finish.isComplete) ∧
        (s'.finish.chunks ≠ [] → s'.finish.isComplete → s'.finish.status = .completed) := by
    intro s' hs'
    rw [finish]
    split_ifs with hcomplete
    · exact ⟨fun _ => hcomplete, fun _ _ => rfl⟩
    · refine ⟨fun hs => ?_, fun _ h' => absurd h' hcomplete⟩
      rw [hs'] at hs
      cases hs
  have hfields : ∀ s' : TransferState, s'.finish.totalSize = s'.totalSize ∧ s'.finish.fileSizes = s'.fileSizes ∧
      s'.finish.chunks = s'.chunks := by
    intro s'
    rw [finish]
    split_ifs <;> exact ⟨rfl, rfl, rfl⟩
  obtain ⟨htotal, hsizes, hchunks⟩ := hfields (s.addChunk c)
  have hbytes : ∀ i, (s.addChunk c).finish.fileBytes i = (s.addChunk c).fileBytes i := by
    intro i
    rw [fileBytes, hchunks, fileBytes]
  rcases hfits with hmem | ⟨hnew, hroom⟩
  · obtain ⟨hcomplete, hcompleted⟩ := hstatus (s.addChunk c) (by rw [hold hmem]; rfl)
    refine ⟨?_, ?_, ?_, ?_, hcomplete, hcompleted⟩
    · rw [htotal, hold hmem]
      exact h.nonempty
    · rw [hchunks, hsizes, hold hmem]
      exact h.inRange
    · intro i n hn
      rw [hsizes, hold hmem] at hn
      rw [hbytes, hold hmem]
      exact h.within i n hn
    · rw [hchunks, hold hmem]
      exact h.verified
  · obtain ⟨n, hsize, hle⟩ := (Option.any_eq_true _ _).mp hroom
    obtain ⟨j, hj, hn⟩ := sizeOf?_eq_some hsize
    have hadd : s.addChunk c = { s with
        status := .transferring
        bytesTransferred := s.bytesTransferred + c.size
        chunks := s.chunks ++ [c] } := by
      rw [addChunk_eq, if_neg hnew]
    obtain ⟨hcomplete, hcompleted⟩ := hstatus (s.addChunk c) (by rw [hadd])
    refine ⟨?_, ?_, ?_, ?_, hcomplete, hcompleted⟩
    · rw [htotal, hadd]
      exact h.nonempty
    · rw [hchunks, hsizes, hadd]
      intro c' hc'
      rcases List.mem_append.mp hc' with hc' | hc'
      · exact h.inRange c' hc'
      · rw [List.mem_singleton.mp hc']
        exact ⟨j, (List.getElem?_eq_some_iff.mp hn).1, hj⟩
    · intro i m hm
      rw [hsizes, hadd] at hm
      rw [hbytes, hadd]
      change bytesOf (s.chunks ++ [c]) i ≤ m
      rw [bytesOf_append]
      by_cases hi : c.fileIndex = i
      · obtain rfl : j = i := Int.ofNat.inj (hj.symm.trans hi)
        obtain rfl : n = m := Option.some.inj (hn.symm.trans hm)
        rw [if_pos hi, ← hi]
        exact of_decide_eq_true hle
      · rw [if_neg hi]
        exact h.within i m hm
    · rw [hchunks, hadd]
      intro c' hc'
      rcases List.mem_append.mp hc' with hc' | hc'
      · exact h.verified c' hc'
      · rw [List.mem_singleton.mp hc']
        exact hverified

theorem advance_received (h : s.Ok computeCid .receive) (hfailed : s.status ≠ .failed)
    (hcancelled : s.status ≠ .cancelled) : Advance s (s.addChunk c).finish := by
  have hkept : (s.addChunk c).finish.transferId = s.transferId ∧ (s.addChunk c).finish.totalSize = s.totalSize ∧
      (s.addChunk c).finish.fileSizes = s.fileSizes := by
    rw [finish, addChunk_eq]
    split_ifs <;> exact ⟨rfl, rfl, rfl⟩
  refine ⟨hkept.1, hkept.2.1, hkept.2.2, ?_, fun hterminal => ?_⟩
  · rw [chunks_finish]
    exact chunks_addChunk s c
  · have hstatus : s.status = .completed := by
      revert hterminal hfailed hcancelled
      cases s.status <;> simp [TransferStatus.terminal]
    have hcomplete : s.totalSize ≤ s.bytesTransferred := (h.2 rfl).complete hstatus
    have hadd : (s.addChunk c).isComplete := by
      rw [addChunk_eq]
      split_ifs
      · exact hcomplete
      · exact hcomplete.trans (Nat.le_add_right _ _)
    rw [finish_of_complete hadd, hstatus]
    rfl

theorem Counted.finish (h : s.Counted) : s.finish.Counted := by
  rw [TransferState.finish]
  split_ifs
  · exact ⟨h.total, h.bytes, h.keys⟩
  · exact h

theorem Fits.size_eq (hc : s.Counted) (h : s.Fits c) : ∀ c' ∈ s.chunks, c'.key = c.key → c'.size = c.size := by
  intro c' hc' hkey
  rcases h with hmem | ⟨hnew, -⟩
  · rw [List.inj_on_of_nodup_map hc.keys hc' hmem hkey]
  · exact absurd (List.mem_map.mpr ⟨c', hc', hkey⟩) hnew

end TransferState

/-! ### What is claimed -/

namespace MeshFileTransfer

/-- The transfer has completed, failed or was cancelled. -/
def Ended (t : MeshFileTransfer) (id : JsString) : Prop := (t.statusOf id).any TransferStatus.terminal = true

instance (t : MeshFileTransfer) (id : JsString) : Decidable (t.Ended id) :=
  inferInstanceAs (Decidable ((t.statusOf id).any TransferStatus.terminal = true))

def MayStart (t : MeshFileTransfer) : TransferCall → Prop
  | .createOffer id _ _ => t.states.get? id = none
  | .acceptOffer offer now => offer.isExpired now ∨ t.states.get? offer.transferId = none ∧
      offer.totalSize = TransferOffer.sizeOf offer.files ∧ 0 < offer.totalSize
  | .rejectOffer id => t.statusOf id ≠ some .completed ∧ t.statusOf id ≠ some .failed
  | .sendChunks id _ => t.offers.get? id = none ∨ ¬ t.Ended id ∧ t.directions.get? id ≠ some .receive
  | .dispatch (.accept id) => ¬ t.Ended id
  | .dispatch (.reject id) => t.statusOf id ≠ some .completed ∧ t.statusOf id ≠ some .failed
  | .dispatch (.complete id) => t.statusOf id ≠ some .failed ∧ t.statusOf id ≠ some .cancelled ∧
      (t.directions.get? id = some .receive → ∀ s ∈ t.getTransfer id, s.isComplete)
  | .dispatch (.cancel id) => t.statusOf id ≠ some .failed
  | _ => True

def hashed (computeCid : Bytes → JsString) (t : MeshFileTransfer) (p : ChunkPosition) : ChunkRecord :=
  Chunk.record ⟨p.fileIndex, computeCid (p.chunk t.chunkSize), p.chunk t.chunkSize⟩

/-- What a waiting call has to meet when it goes on: a generator does not write to a transfer that has ended, and
has not yielded a chunk of the file with the same CID; a verified chunk is for a receiver and fits. -/
def MayGoOn (computeCid : Bytes → JsString) (t : MeshFileTransfer) : TransferFrame → TransferEvent → Prop
  | .hashing g p, .computed => (t.hashed computeCid p).key ∉ g.yields.map (fun y => y.record.key) ∧
      ∀ s ∈ t.objects[g.ref]?, s.status.terminal = false ∧
        ∀ c ∈ s.chunks, c.key = (t.hashed computeCid p).key → c.size = (t.hashed computeCid p).size
  | .yielded g p, .next => p.next t.chunkSize = none →
      ∀ s ∈ t.objects[g.ref]?, s.isComplete → s.status ≠ .failed ∧ s.status ≠ .cancelled
  | .verifying id ref chunk, .computed => computeCid chunk.data = chunk.cid →
      t.directions.get? id = some .receive ∧
        ∀ s ∈ t.objects[ref]?, s.status ≠ .failed ∧ s.status ≠ .cancelled ∧ s.Fits chunk.record
  | _, _ => True

instance (t : MeshFileTransfer) : DecidablePred t.MayStart
  | .createOffer id _ _ => inferInstanceAs (Decidable (t.states.get? id = none))
  | .acceptOffer offer now => inferInstanceAs (Decidable (offer.isExpired now ∨ _ ∧ _ ∧ _))
  | .rejectOffer id => inferInstanceAs (Decidable (t.statusOf id ≠ some .completed ∧ t.statusOf id ≠ some .failed))
  | .cancelTransfer _ => instDecidableTrue
  | .fail _ => instDecidableTrue
  | .sendChunks id _ => inferInstanceAs (Decidable (t.offers.get? id = none ∨ _ ∧ _))
  | .receiveChunk _ _ => instDecidableTrue
  | .dispatch (.offer _) => instDecidableTrue
  | .dispatch (.accept id) => inferInstanceAs (Decidable (¬ t.Ended id))
  | .dispatch (.reject id) =>
      inferInstanceAs (Decidable (t.statusOf id ≠ some .completed ∧ t.statusOf id ≠ some .failed))
  | .dispatch (.complete id) =>
      inferInstanceAs (Decidable (t.statusOf id ≠ some .failed ∧ t.statusOf id ≠ some .cancelled ∧
        (t.directions.get? id = some .receive → ∀ s ∈ t.getTransfer id, s.isComplete)))
  | .dispatch (.cancel id) => inferInstanceAs (Decidable (t.statusOf id ≠ some .failed))

instance (computeCid : Bytes → JsString) (t : MeshFileTransfer) :
    ∀ frame event, Decidable (t.MayGoOn computeCid frame event)
  | .hashing g p, .computed =>
      inferInstanceAs (Decidable ((t.hashed computeCid p).key ∉ g.yields.map (fun y => y.record.key) ∧
        ∀ s ∈ t.objects[g.ref]?, s.status.terminal = false ∧
          ∀ c ∈ s.chunks, c.key = (t.hashed computeCid p).key → c.size = (t.hashed computeCid p).size))
  | .yielded g p, .next => inferInstanceAs (Decidable (p.next t.chunkSize = none →
      ∀ s ∈ t.objects[g.ref]?, s.isComplete → s.status ≠ .failed ∧ s.status ≠ .cancelled))
  | .verifying id ref chunk, .computed => inferInstanceAs (Decidable (computeCid chunk.data = chunk.cid →
      t.directions.get? id = some .receive ∧
        ∀ s ∈ t.objects[ref]?, s.status ≠ .failed ∧ s.status ≠ .cancelled ∧ s.Fits chunk.record))
  | .hashing _ _, .next => instDecidableTrue
  | .yielded _ _, .computed => instDecidableTrue
  | .verifying _ _ _, .next => instDecidableTrue

end MeshFileTransfer

namespace TransferPair

def Kept (computeCid : Bytes → JsString) (w : TransferEnd → TransferWorld) (a : TransferAction) : Prop :=
  Program.Meets MeshFileTransfer.MayStart (MeshFileTransfer.MayGoOn computeCid) (w a.1) a.2

instance (computeCid : Bytes → JsString) (w : TransferEnd → TransferWorld) (a : TransferAction) :
    Decidable (Kept computeCid w a) :=
  inferInstanceAs (Decidable (Program.Meets MeshFileTransfer.MayStart (MeshFileTransfer.MayGoOn computeCid) _ _))

/-- A receiver that is completed has the whole of every file in chunks that were verified. -/
def ReceivedWhole (computeCid : Bytes → JsString) (w : TransferEnd → TransferWorld) : Prop :=
  ∀ e id s, (w e).shared.getTransfer id = some s → (w e).shared.directions.get? id = some .receive →
    s.status = .completed →
      s.Whole ∧ ∀ c ∈ s.chunks, ∃ data, computeCid data = c.cid ∧ data.length = c.size

/-- Both ends are completed when a generator for files of the offered sizes has ended and the other end, which
accepted the offer, has received every chunk that it yielded. -/
def BothCompleted (w : TransferEnd → TransferWorld) : Prop :=
  ∀ (e : TransferEnd) (id : JsString) (fileData : List Bytes) (yields : List Chunk) (sender receiver : TransferState),
    Task.returned (.sent id fileData yields) ∈ (w e).tasks →
    (w e).shared.getTransfer id = some sender → fileData.map List.length = sender.fileSizes →
    (w e.other).shared.getTransfer id = some receiver → receiver.fileSizes = sender.fileSizes →
    (w e.other).shared.directions.get? id = some .receive →
    (∀ chunk ∈ yields, Task.returned (.received id chunk) ∈ (w e.other).tasks) →
      sender.status = .completed ∧ receiver.status = .completed

end TransferPair

/-! ### The invariant of a manager -/

namespace MeshFileTransfer

/-- Every state is that of its id. -/
structure Sound (computeCid : Bytes → JsString) (t : MeshFileTransfer) : Prop where
  objects : ∀ (ref : ℕ) (s : TransferState), t.objects[ref]? = some s →
    t.states.get? s.transferId = some ref ∧ ∃ d, t.directions.get? s.transferId = some d ∧ s.Ok computeCid d
  states : ∀ id ref, t.states.get? id = some ref → ∃ s, t.objects[ref]? = some s ∧ s.transferId = id

/-- What may happen to a manager. -/
structure Evolves (t t' : MeshFileTransfer) : Prop where
  chunkSize : t'.chunkSize = t.chunkSize
  states : ∀ id ref, t.states.get? id = some ref → t'.states.get? id = some ref
  directions : ∀ id ref, t.states.get? id = some ref → t'.directions.get? id = t.directions.get? id
  objects : ∀ (ref : ℕ) (s : TransferState), t.objects[ref]? = some s →
    ∃ s', t'.objects[ref]? = some s' ∧ s.Advance s'

variable {computeCid : Bytes → JsString} {t t' t'' : MeshFileTransfer} {id : JsString} {ref : ℕ}
  {s : TransferState} {f : TransferState → TransferState}

theorem sound_new (chunkSize : ℕ) : (new chunkSize).Sound computeCid where
  objects ref s h := by cases h
  states id ref h := by cases h

theorem Evolves.refl (t : MeshFileTransfer) : Evolves t t :=
  ⟨rfl, fun _ _ h => h, fun _ _ _ => rfl, fun _ s h => ⟨s, h, .refl s⟩⟩

theorem Evolves.trans (h : Evolves t t') (h' : Evolves t' t'') : Evolves t t'' where
  chunkSize := h'.chunkSize.trans h.chunkSize
  states id ref hs := h'.states id ref (h.states id ref hs)
  directions id ref hs := (h'.directions id ref (h.states id ref hs)).trans (h.directions id ref hs)
  objects ref s hs := by
    obtain ⟨s', hs', hadvance⟩ := h.objects ref s hs
    obtain ⟨s'', hs'', hadvance'⟩ := h'.objects ref s' hs'
    exact ⟨s'', hs'', hadvance.trans hadvance'⟩

theorem getTransfer_eq (href : t.states.get? id = some ref) (hs : t.objects[ref]? = some s) :
    t.getTransfer id = some s := by
  rw [getTransfer, href]
  exact hs

theorem getTransfer_eq_some (h : t.getTransfer id = some s) :
    ∃ ref, t.states.get? id = some ref ∧ t.objects[ref]? = some s := Option.bind_eq_some_iff.mp h

theorem Sound.of_getTransfer (h : t.Sound computeCid) (hs : t.getTransfer id = some s) :
    ∃ d, t.directions.get? id = some d ∧ s.Ok computeCid d ∧ s.transferId = id := by
  obtain ⟨ref, href, hobject⟩ := getTransfer_eq_some hs
  obtain ⟨s', hs', rfl⟩ := h.states id ref href
  obtain rfl : s' = s := Option.some.inj (hs'.symm.trans hobject)
  obtain ⟨-, d, hd, hok⟩ := h.objects ref s' hobject
  exact ⟨d, hd, hok, rfl⟩

theorem Evolves.getTransfer (h : Evolves t t') (hs : t.getTransfer id = some s) :
    ∃ s', t'.getTransfer id = some s' ∧ s.Advance s' := by
  obtain ⟨ref, href, hobject⟩ := getTransfer_eq_some hs
  obtain ⟨s', hs', hadvance⟩ := h.objects ref s hobject
  exact ⟨s', getTransfer_eq (h.states id ref href) hs', hadvance⟩

theorem Evolves.directions_eq (h : Evolves t t') (hs : t.getTransfer id = some s) :
    t'.directions.get? id = t.directions.get? id := by
  obtain ⟨ref, href, -⟩ := getTransfer_eq_some hs
  exact h.directions id ref href

theorem Evolves.statusOf (h : Evolves t t') {status : TransferStatus} (hs : t.statusOf id = some status)
    (hterminal : status.terminal = true) : t'.statusOf id = some status := by
  obtain ⟨s, hget, rfl⟩ := Option.map_eq_some_iff.mp hs
  obtain ⟨s', hget', hadvance⟩ := h.getTransfer hget
  rw [MeshFileTransfer.statusOf, hget']
  exact congrArg some (hadvance.terminal hterminal)

/-- Two managers with the same states. -/
structure Same (t t' : MeshFileTransfer) : Prop where
  chunkSize : t'.chunkSize = t.chunkSize
  states : t'.states = t.states
  objects : t'.objects = t.objects
  directions : t'.directions = t.directions

theorem Same.refl (t : MeshFileTransfer) : Same t t := ⟨rfl, rfl, rfl, rfl⟩

theorem Sound.modify (h : t.Sound computeCid) (ref : ℕ)
    (hf : ∀ s d, t.objects[ref]? = some s → t.directions.get? s.transferId = some d → s.Ok computeCid d →
      s.Advance (f s) ∧ (f s).Ok computeCid d)
    (hsame : Same (t.modify ref f) t') : t'.Sound computeCid ∧ Evolves t t' := by
  have hobjects : ∀ i : ℕ, t'.objects[i]? = if ref = i then t.objects[i]?.map f else t.objects[i]? := by
    intro i
    rw [hsame.objects]
    change (t.objects.modify ref f)[i]? = _
    rw [List.getElem?_modify]
    split_ifs
    · rfl
    · cases t.objects[i]? <;> rfl
  have hadvance : ∀ (i : ℕ) (s : TransferState), t.objects[i]? = some s → ∃ s', t'.objects[i]? = some s' ∧ s.Advance s' ∧
      ∀ d, t.directions.get? s.transferId = some d → s.Ok computeCid d → s'.Ok computeCid d := by
    intro i s hs
    rw [hobjects, hs]
    obtain ⟨-, d, hd, hok⟩ := h.objects i s hs
    split_ifs with hi
    · subst hi
      refine ⟨f s, rfl, (hf s d hs hd hok).1, fun d' hd' hok' => (hf s d' hs hd' hok').2⟩
    · exact ⟨s, rfl, .refl s, fun _ _ hok' => hok'⟩
  have hback : ∀ (i : ℕ) (s' : TransferState), t'.objects[i]? = some s' → ∃ s, t.objects[i]? = some s := by
    intro i s' hs'
    rw [hobjects] at hs'
    split_ifs at hs'
    · obtain ⟨s, hs, -⟩ := Option.map_eq_some_iff.mp hs'
      exact ⟨s, hs⟩
    · exact ⟨s', hs'⟩
  have hstates : t'.states = t.states := hsame.states
  have hdirections : t'.directions = t.directions := hsame.directions
  refine ⟨⟨fun i s' hs' => ?_, fun id i hi => ?_⟩, hsame.chunkSize, fun _ _ hs => ?_, fun _ _ _ => ?_,
    fun i s hs => ?_⟩
  · obtain ⟨s, hs⟩ := hback i s' hs'
    obtain ⟨s₁, hs₁, hadv, hok'⟩ := hadvance i s hs
    obtain rfl := Option.some.inj (hs₁.symm.trans hs')
    obtain ⟨hid, d, hd, hok⟩ := h.objects i s hs
    rw [hstates, hdirections, hadv.transferId]
    exact ⟨hid, d, hd, hok' d hd hok⟩
  · rw [hstates] at hi
    obtain ⟨s, hs, hid⟩ := h.states id i hi
    obtain ⟨s', hs', hadv, -⟩ := hadvance i s hs
    exact ⟨s', hs', hadv.transferId.trans hid⟩
  · rw [hstates]
    exact hs
  · rw [hdirections]
  · obtain ⟨s', hs', hadv, -⟩ := hadvance i s hs
    exact ⟨s', hs', hadv⟩

theorem Sound.same (h : t.Sound computeCid) (hsame : Same t t') : t'.Sound computeCid ∧ Evolves t t' := by
  refine ⟨⟨fun ref s hs => ?_, fun id ref hs => ?_⟩, hsame.chunkSize, fun id ref hs => ?_, fun id ref _ => ?_,
    fun ref s hs => ⟨s, ?_, .refl s⟩⟩
  · rw [hsame.objects] at hs
    rw [hsame.states, hsame.directions]
    exact h.objects ref s hs
  · rw [hsame.states] at hs
    rw [hsame.objects]
    exact h.states id ref hs
  · rw [hsame.states]
    exact hs
  · rw [hsame.directions]
  · rw [hsame.objects]
    exact hs

theorem Sound.write (h : t.Sound computeCid) (id : JsString)
    (hf : ∀ s d, t.getTransfer id = some s → t.directions.get? id = some d → s.Ok computeCid d →
      s.Advance (f s) ∧ (f s).Ok computeCid d)
    (hsame : Same (t.write id f) t') : t'.Sound computeCid ∧ Evolves t t' := by
  rw [MeshFileTransfer.write] at hsame
  cases hid : t.states.get? id with
  | none =>
      rw [hid] at hsame
      exact h.same hsame
  | some ref =>
      rw [hid] at hsame
      refine h.modify ref (fun s d hs hd hok => ?_) hsame
      obtain ⟨s', hs', rfl⟩ := h.states id ref hid
      obtain rfl : s' = s := Option.some.inj (hs'.symm.trans hs)
      exact hf s' d (getTransfer_eq hid hs) hd hok

theorem Sound.register (h : t.Sound computeCid) {offer : TransferOffer} {d : TransferDirection}
    {status : TransferStatus} (hnew : t.states.get? offer.transferId = none)
    (hok : (TransferState.new offer.transferId offer.totalSize status
      (offer.files.map FileDescriptor.size)).Ok computeCid d)
    (hsame : Same (t.register offer d status) t') : t'.Sound computeCid ∧ Evolves t t' := by
  have hstates : ∀ id, t'.states.get? id =
      if id = offer.transferId then some t.objects.length else t.states.get? id := by
    intro id
    rw [hsame.states]
    exact JsMap.get?_set t.states offer.transferId t.objects.length id
  have hdirections : ∀ id, t'.directions.get? id =
      if id = offer.transferId then some d else t.directions.get? id := by
    intro id
    rw [hsame.directions]
    exact JsMap.get?_set t.directions offer.transferId d id
  have hold : ∀ id ref, t.states.get? id = some ref → id ≠ offer.transferId := by
    rintro id ref hid rfl
    rw [hnew] at hid
    cases hid
  have hobject : ∀ (ref : ℕ) (s : TransferState), t.objects[ref]? = some s → t'.objects[ref]? = some s := by
    intro ref s hs
    rw [hsame.objects]
    exact (List.getElem?_append_left (List.getElem?_eq_some_iff.mp hs).1).trans hs
  have hlast : t'.objects[t.objects.length]? = some (.new offer.transferId offer.totalSize status
      (offer.files.map FileDescriptor.size)) := by
    rw [hsame.objects]
    exact List.getElem?_concat_length
  refine ⟨⟨fun ref s hs => ?_, fun id ref hid => ?_⟩, hsame.chunkSize, fun id ref hid => ?_, fun id ref hid => ?_,
    fun ref s hs => ⟨s, hobject ref s hs, .refl s⟩⟩
  · by_cases hlt : ref < t.objects.length
    · have hs' : t.objects[ref]? = some s := by
        rw [hsame.objects] at hs
        exact (List.getElem?_append_left hlt).symm.trans hs
      obtain ⟨hid, d', hd', hok'⟩ := h.objects ref s hs'
      rw [hstates, hdirections, if_neg (hold _ _ hid), if_neg (hold _ _ hid)]
      exact ⟨hid, d', hd', hok'⟩
    · have hlen : ref = t.objects.length := by
        have hbound := (List.getElem?_eq_some_iff.mp hs).1
        have hlength : t'.objects.length = t.objects.length + 1 := by
          rw [hsame.objects]
          exact List.length_append
        omega
      subst hlen
      obtain rfl := Option.some.inj (hlast.symm.trans hs)
      rw [hstates, hdirections]
      exact ⟨if_pos rfl, d, if_pos rfl, hok⟩
  · rw [hstates] at hid
    split_ifs at hid with heq
    · rw [← Option.some.inj hid, heq]
      exact ⟨_, hlast, rfl⟩
    · obtain ⟨s, hs, hs'⟩ := h.states id ref hid
      exact ⟨s, hobject ref s hs, hs'⟩
  · rw [hstates, if_neg (hold id ref hid)]
    exact hid
  · rw [hdirections, if_neg (hold id ref hid)]

end MeshFileTransfer

/-! ### The invariant of the calls -/

namespace ChunkPosition
variable {fileIndex offset : ℕ} {files : List Bytes} {p : ChunkPosition}

/-- The bytes from an offset in the first of the files on. -/
def left (offset : ℕ) : List Bytes → ℕ
  | [] => 0
  | data :: rest => (data.length - offset) + (rest.map List.length).sum

theorem left_zero (files : List Bytes) : left 0 files = (files.map List.length).sum := by
  cases files with
  | nil => rfl
  | cons data rest => rfl

theorem left_of_seek (h : seek fileIndex offset files = some p) :
    left p.offset (p.data :: p.rest) = left offset files := by
  induction files generalizing fileIndex offset with
  | nil => cases h
  | cons data rest ih =>
      rw [seek] at h
      split_ifs at h with hlt
      · cases h
        rfl
      · rw [ih h, left_zero, left, Nat.sub_eq_zero_of_le (not_lt.mp hlt), Nat.zero_add]

theorem left_eq_zero_of_seek (h : seek fileIndex offset files = none) : left offset files = 0 := by
  induction files generalizing fileIndex offset with
  | nil => rfl
  | cons data rest ih =>
      rw [seek] at h
      split_ifs at h with hlt
      have hrest := ih h
      rw [left_zero] at hrest
      rw [left, hrest, Nat.sub_eq_zero_of_le (not_lt.mp hlt)]

theorem length_chunk (p : ChunkPosition) (chunkSize : ℕ) :
    (p.chunk chunkSize).length + left (p.offset + chunkSize) (p.data :: p.rest) =
      left p.offset (p.data :: p.rest) := by
  rw [chunk, List.length_take, List.length_drop, left, left]
  omega

end ChunkPosition

namespace MeshFileTransfer

/-- A generator has recorded what it has yielded, and `n` bytes of the files are left. -/
structure Sending (t : MeshFileTransfer) (g : ChunkGenerator) (n : ℕ) : Prop where
  ref : t.states.get? g.transferId = some g.ref
  direction : t.directions.get? g.transferId ≠ some .receive
  recorded : ∃ s, t.objects[g.ref]? = some s ∧ ∀ c ∈ g.yields, c.record ∈ s.chunks
  keys : (g.yields.map fun c => c.record.key).Nodup
  progress : (g.yields.map fun c => c.record.size).sum + n = (g.fileData.map List.length).sum

def TaskOk (t : MeshFileTransfer) : Task TransferFrame TransferResult → Prop
  | .waiting (.hashing g p) => t.Sending g (ChunkPosition.left p.offset (p.data :: p.rest))
  | .waiting (.yielded g p) => t.Sending g (ChunkPosition.left (p.offset + t.chunkSize) (p.data :: p.rest))
  | .waiting (.verifying id ref _) => t.states.get? id = some ref
  | .returned (.sent id fileData yields) => ∃ s, t.getTransfer id = some s ∧
      (yields.map fun c => c.record.key).Nodup ∧
      (yields.map fun c => c.record.size).sum = (fileData.map List.length).sum ∧
      (fileData.map List.length = s.fileSizes → s.status = .completed)
  | .returned (.received id chunk) => ∃ s, t.getTransfer id = some s ∧
      t.directions.get? id = some .receive ∧ chunk.record ∈ s.chunks
  | _ => True

variable {computeCid : Bytes → JsString} {t t' : MeshFileTransfer} {id : JsString} {ref : ℕ} {s : TransferState}
  {g : ChunkGenerator} {p : ChunkPosition} {n : ℕ}

theorem Sending.mono (h : t.Sending g n) (hevolves : Evolves t t') : t'.Sending g n := by
  obtain ⟨s, hs, hrecorded⟩ := h.recorded
  obtain ⟨s', hs', hadvance⟩ := hevolves.objects g.ref s hs
  refine ⟨hevolves.states _ _ h.ref, ?_, ⟨s', hs', fun c hc => hadvance.chunks (hrecorded c hc)⟩, h.keys, h.progress⟩
  rw [hevolves.directions _ _ h.ref]
  exact h.direction

theorem TaskOk.mono {task : Task TransferFrame TransferResult} (h : t.TaskOk task) (hevolves : Evolves t t') :
    t'.TaskOk task := by
  cases task with
  | waiting frame =>
      cases frame with
      | hashing g p => exact Sending.mono h hevolves
      | yielded g p =>
          change t'.Sending g _
          rw [hevolves.chunkSize]
          exact Sending.mono h hevolves
      | verifying id ref chunk => exact hevolves.states id ref h
  | returned result =>
      cases result with
      | sent id fileData yields =>
          obtain ⟨s, hs, hkeys, hsum, hcompleted⟩ := h
          obtain ⟨s', hs', hadvance⟩ := hevolves.getTransfer hs
          refine ⟨s', hs', hkeys, hsum, fun hsizes => ?_⟩
          have hstatus := hcompleted (hsizes.trans hadvance.fileSizes)
          exact (hadvance.terminal (by rw [hstatus]; rfl)).trans hstatus
      | received id chunk =>
          obtain ⟨s, hs, hdirection, hrecorded⟩ := h
          obtain ⟨s', hs', hadvance⟩ := hevolves.getTransfer hs
          exact ⟨s', hs', (hevolves.directions_eq hs).trans hdirection, hadvance.chunks hrecorded⟩
      | done => trivial
      | invalid => trivial
      | thrown error => trivial

/-! ### One step -/

theorem statusOf_eq (hs : t.getTransfer id = some s) : t.statusOf id = some s.status := by
  rw [statusOf, hs]
  rfl

theorem terminal_of_not_ended (h : ¬ t.Ended id) (hs : t.getTransfer id = some s) : s.status.terminal = false := by
  rw [Ended, statusOf_eq hs] at h
  exact Bool.eq_false_iff.mpr h

theorem sound_settle (h : t.Sound computeCid) {outcome : Except JsString MeshFileTransfer}
    (hok : ∀ t', outcome = .ok t' → t'.Sound computeCid ∧ Evolves t t') :
    (t.settle outcome).1.Sound computeCid ∧ Evolves t (t.settle outcome).1 ∧
      (t.settle outcome).1.TaskOk (t.settle outcome).2 := by
  cases outcome with
  | error e => exact ⟨h, .refl t, trivial⟩
  | ok t' =>
      obtain ⟨hsound, hevolves⟩ := hok t' rfl
      exact ⟨hsound, hevolves, trivial⟩

theorem ok_new {offer : TransferOffer} {d : TransferDirection} {status : TransferStatus}
    (htotal : offer.totalSize = TransferOffer.sizeOf offer.files) (hnonempty : d = .receive → 0 < offer.totalSize)
    (hstatus : status ≠ .completed) : (TransferState.new offer.transferId offer.totalSize status
      (offer.files.map FileDescriptor.size)).Ok computeCid d :=
  ⟨⟨htotal, rfl, List.nodup_nil⟩, fun hd => ⟨hnonempty hd, fun _ hc => (List.not_mem_nil hc).elim,
    fun _ _ _ => Nat.zero_le _, fun _ hc => (List.not_mem_nil hc).elim, fun h => absurd h hstatus,
    fun h => absurd rfl h⟩⟩

theorem sound_createOffer (h : t.Sound computeCid) {files : List FileDescriptor} {expires : ℕ}
    (hnew : t.states.get? id = none) (hok : t.createOffer id files expires = .ok t') :
    t'.Sound computeCid ∧ Evolves t t' := by
  obtain ⟨offer, hoffer, hreturn⟩ := bind_eq_ok.mp hok
  obtain ⟨_, -, hpure⟩ := bind_eq_ok.mp hoffer
  cases pure_eq_ok.mp hpure
  cases pure_eq_ok.mp hreturn
  exact h.register hnew (ok_new rfl (fun hd => by cases hd) (by decide)) ⟨rfl, rfl, rfl, rfl⟩

theorem sound_acceptOffer (h : t.Sound computeCid) {offer : TransferOffer} {now : ℕ}
    (hmay : t.MayStart (.acceptOffer offer now)) (hok : t.acceptOffer offer now = .ok t') :
    t'.Sound computeCid ∧ Evolves t t' := by
  obtain ⟨offer', hoffer, hrest⟩ := bind_eq_ok.mp hok
  obtain ⟨_, -, hpure⟩ := bind_eq_ok.mp hoffer
  cases pure_eq_ok.mp hpure
  obtain ⟨_, hexpired, hreturn⟩ := bind_eq_ok.mp hrest
  cases pure_eq_ok.mp hreturn
  obtain ⟨hnew, htotal, hnonempty⟩ := hmay.resolve_left (failIf_eq_ok.mp hexpired)
  exact h.register hnew (ok_new htotal (fun _ => hnonempty) (by decide)) ⟨rfl, rfl, rfl, rfl⟩

theorem write_status {d : TransferDirection} {status : TransferStatus} (hok : s.Ok computeCid d)
    (hterminal : s.status.terminal = true → status = s.status)
    (hcompleted : d = .receive → status = .completed → s.isComplete) :
    s.Advance (s.setStatus status) ∧ (s.setStatus status).Ok computeCid d :=
  ⟨TransferState.advance_setStatus hterminal, hok.setStatus hterminal hcompleted⟩

theorem sound_rejectOffer (h : t.Sound computeCid) (hmay : t.MayStart (.rejectOffer id)) :
    (t.rejectOffer id).Sound computeCid ∧ Evolves t (t.rejectOffer id) := by
  refine h.write id (fun s d hs hd hok => ?_) (f := .setStatus .cancelled) ?_
  · refine write_status hok (fun hterminal => ?_) (fun _ hcompleted => by cases hcompleted)
    obtain ⟨hcompleted, hfailed⟩ := hmay
    rw [statusOf_eq hs] at hcompleted hfailed
    revert hterminal hcompleted hfailed
    cases s.status <;> simp [TransferStatus.terminal]
  · rw [rejectOffer, write, write]
    dsimp only
    cases t.states.get? id <;> exact ⟨rfl, rfl, rfl, rfl⟩

theorem sound_cancelTransfer (h : t.Sound computeCid) :
    (t.cancelTransfer id).Sound computeCid ∧ Evolves t (t.cancelTransfer id) := by
  refine h.write id (fun s d hs hd hok => ?_) ⟨rfl, rfl, rfl, rfl⟩
  split_ifs with hopen
  · refine write_status hok (fun hterminal => ?_) (fun _ hcompleted => by cases hcompleted)
    revert hterminal hopen
    cases s.status <;> simp [TransferStatus.terminal]
  · exact ⟨.refl s, hok⟩

theorem sound_dispatch (h : t.Sound computeCid) {message : FileMessage} (hmay : t.MayStart (.dispatch message))
    (hok : t.dispatch message = .ok t') : t'.Sound computeCid ∧ Evolves t t' := by
  cases message with
  | offer json =>
      obtain ⟨offer, -, hreturn⟩ := bind_eq_ok.mp hok
      cases pure_eq_ok.mp hreturn
      exact h.same ⟨rfl, rfl, rfl, rfl⟩
  | accept id =>
      cases hok
      refine h.write id (fun s d hs hd hok => ?_) (.refl _)
      have hopen := terminal_of_not_ended hmay hs
      exact write_status hok (fun hterminal => by rw [hopen] at hterminal; cases hterminal)
        (fun _ hcompleted => by cases hcompleted)
  | reject id =>
      cases hok
      refine h.write id (fun s d hs hd hok => ?_) ⟨rfl, rfl, rfl, rfl⟩
      split_ifs with hopen
      · refine write_status hok (fun hterminal => ?_) (fun _ hcompleted => by cases hcompleted)
        obtain ⟨hcompleted, hfailed⟩ := hmay
        rw [statusOf_eq hs] at hcompleted hfailed
        revert hterminal hcompleted hfailed
        cases s.status <;> simp [TransferStatus.terminal]
      · exact ⟨.refl s, hok⟩
  | complete id =>
      cases hok
      refine h.write id (fun s d hs hd hok => ?_) (.refl _)
      obtain ⟨hfailed, hcancelled, hcomplete⟩ := hmay
      rw [statusOf_eq hs] at hfailed hcancelled
      refine write_status hok (fun hterminal => ?_) (fun hreceive _ => hcomplete (hreceive ▸ hd) s hs)
      revert hterminal hcancelled hfailed
      cases s.status <;> simp [TransferStatus.terminal]
  | cancel id =>
      cases hok
      refine h.write id (fun s d hs hd hok => ?_) (.refl _)
      split_ifs with hopen
      · refine write_status hok (fun hterminal => ?_) (fun _ hcompleted => by cases hcompleted)
        have hfailed : t.statusOf id ≠ some .failed := hmay
        rw [statusOf_eq hs] at hfailed
        revert hterminal hopen hfailed
        cases s.status <;> simp [TransferStatus.terminal]
      · exact ⟨.refl s, hok⟩

theorem modify_congr {objects : List TransferState} {f f' : TransferState → TransferState}
    (h : ∀ s, objects[ref]? = some s → f s = f' s) : objects.modify ref f = objects.modify ref f' := by
  refine List.ext_getElem? fun i => ?_
  rw [List.getElem?_modify, List.getElem?_modify]
  cases hs : objects[i]? with
  | none => rfl
  | some s =>
      change some (if ref = i then f s else s) = some (if ref = i then f' s else s)
      split_ifs with hi
      · subst hi
        rw [h s hs]
      · rfl

theorem same_finish (t : MeshFileTransfer) (id : JsString) (ref : ℕ) :
    Same (t.modify ref TransferState.finish) (t.finish id ref) := by
  have hself : (∀ s, t.objects[ref]? = some s → s.finish = s) →
      t.objects = t.objects.modify ref TransferState.finish := by
    intro h
    exact ((modify_congr h).trans (List.modify_id ref t.objects)).symm
  rw [finish]
  cases hs : t.objects[ref]? with
  | none => exact ⟨rfl, rfl, hself fun s hs' => (by rw [hs] at hs'; cases hs'), rfl⟩
  | some s =>
      dsimp only
      split_ifs with hcomplete
      · refine ⟨rfl, rfl, modify_congr fun s' hs' => ?_, rfl⟩
        obtain rfl := Option.some.inj (hs.symm.trans hs')
        exact (TransferState.finish_of_complete hcomplete).symm
      · refine ⟨rfl, rfl, hself fun s' hs' => ?_, rfl⟩
        obtain rfl := Option.some.inj (hs.symm.trans hs')
        exact if_neg hcomplete

theorem sum_yields_le {yields : List Chunk} {chunks : List ChunkRecord}
    (hkeys : (yields.map fun c => c.record.key).Nodup) (h : ∀ c ∈ yields, c.record ∈ chunks) :
    (yields.map fun c => c.record.size).sum ≤ (chunks.map ChunkRecord.size).sum := by
  have hnodup : (yields.map Chunk.record).Nodup := by
    refine List.Nodup.of_map ChunkRecord.key ?_
    rw [List.map_map]
    exact hkeys
  have hsubset : yields.map Chunk.record ⊆ chunks := by
    intro c hc
    obtain ⟨y, hy, rfl⟩ := List.mem_map.mp hc
    exact h y hy
  obtain ⟨l, hperm, hsub⟩ := List.subperm_of_subset hnodup hsubset
  calc (yields.map fun c => c.record.size).sum
      = ((yields.map Chunk.record).map ChunkRecord.size).sum := by rw [List.map_map]; rfl
    _ = (l.map ChunkRecord.size).sum := ((hperm.map _).sum_eq).symm
    _ ≤ (chunks.map ChunkRecord.size).sum := (hsub.map _).sum_le_sum fun _ _ => Nat.zero_le _

theorem sound_goOn (h : t.Sound computeCid) (hsending : t.Sending g n) (next : Option ChunkPosition)
    (hleft : match next with
      | some p => ChunkPosition.left p.offset (p.data :: p.rest) = n
      | none => n = 0)
    (hmay : next = none → ∀ s ∈ t.objects[g.ref]?, s.isComplete → s.status ≠ .failed ∧ s.status ≠ .cancelled) :
    (t.goOn g next).1.Sound computeCid ∧ Evolves t (t.goOn g next).1 ∧
      (t.goOn g next).1.TaskOk (t.goOn g next).2 := by
  cases next with
  | some p =>
      refine ⟨h, .refl t, ?_⟩
      change t.Sending g _
      rw [show ChunkPosition.left p.offset (p.data :: p.rest) = n from hleft]
      exact hsending
  | none =>
      obtain ⟨s, hs, hrecorded⟩ := hsending.recorded
      obtain ⟨s₀, hs₀, hid⟩ := h.states _ _ hsending.ref
      obtain rfl : s₀ = s := Option.some.inj (hs₀.symm.trans hs)
      obtain ⟨-, d, -, hok⟩ := h.objects _ _ hs
      have hopen := hmay rfl s₀ hs
      have hsum : (g.yields.map fun c => c.record.size).sum = (g.fileData.map List.length).sum := by
        have hprogress := hsending.progress
        rw [show n = 0 from hleft] at hprogress
        exact hprogress
      have hfinish : ∀ s d, t.objects[g.ref]? = some s → t.directions.get? s.transferId = some d →
          s.Ok computeCid d → s.Advance s.finish ∧ s.finish.Ok computeCid d := by
        intro s d hs' hd hok
        rw [TransferState.finish]
        split_ifs with hcomplete
        · refine write_status hok (fun hterminal => ?_) (fun _ _ => hcomplete)
          obtain ⟨hfailed, hcancelled⟩ := hmay rfl s hs' hcomplete
          revert hterminal hfailed hcancelled
          cases s.status <;> simp [TransferStatus.terminal]
        · exact ⟨.refl s, hok⟩
      have hsame := same_finish t g.transferId g.ref
      obtain ⟨hsound, hevolves⟩ := h.modify g.ref hfinish hsame
      refine ⟨hsound, hevolves, s₀.finish, ?_, hsending.keys, hsum, fun hsizes => ?_⟩
      · refine getTransfer_eq (hevolves.states _ _ hsending.ref) ?_
        change (t.finish g.transferId g.ref).objects[g.ref]? = _
        rw [hsame.objects]
        change (t.objects.modify g.ref _)[g.ref]? = _
        rw [List.getElem?_modify_eq, hs]
        rfl
      · have hsizes' : g.fileData.map List.length = s₀.fileSizes := by
          rw [hsizes, TransferState.finish]
          split_ifs <;> rfl
        have hcomplete : s₀.isComplete := by
          change s₀.totalSize ≤ s₀.bytesTransferred
          rw [hok.1.total, hok.1.bytes, ← hsizes', ← hsum]
          exact sum_yields_le hsending.keys hrecorded
        rw [TransferState.finish_of_complete hcomplete]
        rfl

theorem seek_left (fileIndex offset : ℕ) (files : List Bytes) :
    match ChunkPosition.seek fileIndex offset files with
    | some p => ChunkPosition.left p.offset (p.data :: p.rest) = ChunkPosition.left offset files
    | none => ChunkPosition.left offset files = 0 := by
  cases h : ChunkPosition.seek fileIndex offset files with
  | none => exact ChunkPosition.left_eq_zero_of_seek h
  | some p => exact ChunkPosition.left_of_seek h

theorem sound_sendChunks (h : t.Sound computeCid) {fileData : List Bytes} (hmay : t.MayStart (.sendChunks id fileData)) :
    (t.sendChunks id fileData).1.Sound computeCid ∧ Evolves t (t.sendChunks id fileData).1 ∧
      (t.sendChunks id fileData).1.TaskOk (t.sendChunks id fileData).2 := by
  rw [sendChunks]
  cases hopen : t.openSend id with
  | error e => exact ⟨h, .refl t, trivial⟩
  | ok ref =>
      obtain ⟨offer, hoffer, href⟩ := bind_eq_ok.mp hopen
      obtain ⟨hended, hsend⟩ := hmay.resolve_left (by rw [required_eq_ok.mp hoffer]; exact Option.some_ne_none offer)
      have hstates := required_eq_ok.mp href
      obtain ⟨s, hs, hid⟩ := h.states id ref hstates
      have hget := getTransfer_eq hstates hs
      have hterminal := terminal_of_not_ended hended hget
      obtain ⟨hsound, hevolves⟩ := h.modify ref (f := .setStatus .transferring) (fun s' d hs' hd hok => by
        obtain rfl : s' = s := Option.some.inj (hs'.symm.trans hs)
        exact write_status hok (fun hend => by rw [hterminal] at hend; cases hend)
          (fun _ hcompleted => by cases hcompleted)) (.refl _)
      obtain ⟨s', hs', -⟩ := hevolves.objects ref s hs
      have hsending : (t.modify ref (.setStatus .transferring)).Sending ⟨id, ref, fileData, []⟩
          (ChunkPosition.left 0 fileData) :=
        ⟨hstates, hsend, ⟨s', hs', fun _ hc => (List.not_mem_nil hc).elim⟩, List.nodup_nil, by
          rw [ChunkPosition.left_zero]
          exact Nat.zero_add _⟩
      have hstatus : ∀ s₁ ∈ (t.modify ref (.setStatus .transferring)).objects[ref]?, s₁.status = .transferring := by
        intro s₁ hs₁
        have hmodified : (t.objects.modify ref (.setStatus .transferring))[ref]? = some s₁ := hs₁
        rw [List.getElem?_modify_eq, hs] at hmodified
        rw [← Option.some.inj hmodified]
        rfl
      obtain ⟨hsound', hevolves', htask⟩ :=
        sound_goOn hsound hsending (ChunkPosition.seek 0 0 fileData) (seek_left 0 0 fileData) fun _ s₁ hs₁ _ => by
          rw [hstatus s₁ hs₁]
          exact ⟨by decide, by decide⟩
      exact ⟨hsound', hevolves.trans hevolves', htask⟩

theorem sound_yieldChunk (h : t.Sound computeCid) (htask : t.TaskOk (.waiting (.hashing g p)))
    (hmay : t.MayGoOn computeCid (.hashing g p) .computed) :
    let r := t.yieldChunk g p (computeCid (p.chunk t.chunkSize))
    r.1.Sound computeCid ∧ Evolves t r.1 ∧ r.1.TaskOk r.2 := by
  dsimp only
  obtain ⟨href, hdirection, ⟨s, hs, hrecorded⟩, hkeys, hprogress⟩ := htask
  obtain ⟨hfresh, hstate⟩ := hmay
  obtain ⟨hterminal, hsize⟩ := hstate s hs
  obtain ⟨s₀, hs₀, hid⟩ := h.states _ _ href
  obtain rfl : s₀ = s := Option.some.inj (hs₀.symm.trans hs)
  let c : Chunk := ⟨p.fileIndex, computeCid (p.chunk t.chunkSize), p.chunk t.chunkSize⟩
  have hadd : ∀ s' d, t.objects[g.ref]? = some s' → t.directions.get? s'.transferId = some d →
      s'.Ok computeCid d → s'.Advance (s'.addChunk c.record) ∧ (s'.addChunk c.record).Ok computeCid d := by
    intro s' d hs' hd hok
    obtain rfl : s' = s₀ := Option.some.inj (hs'.symm.trans hs)
    refine ⟨TransferState.advance_addChunk hterminal, hok.1.addChunk, ?_⟩
    rintro rfl
    rw [hid] at hd
    exact absurd hd hdirection
  obtain ⟨hsound, hevolves⟩ := h.modify g.ref hadd (.refl _)
  refine ⟨hsound, hevolves, href, hdirection, ⟨s₀.addChunk c.record, ?_, fun y hy => ?_⟩, ?_, ?_⟩
  · change (t.objects.modify g.ref _)[g.ref]? = _
    rw [List.getElem?_modify_eq, hs]
    rfl
  · rcases List.mem_append.mp hy with hy | hy
    · exact TransferState.chunks_addChunk _ _ (hrecorded y hy)
    · rw [List.mem_singleton.mp hy]
      exact TransferState.mem_addChunk hsize
  · change ((g.yields ++ [c]).map _).Nodup
    rw [List.map_append]
    refine List.nodup_append.mpr ⟨hkeys, List.nodup_singleton _, fun a ha b hb => ?_⟩
    rw [List.mem_singleton.mp hb]
    rintro rfl
    exact hfresh ha
  · change ((g.yields ++ [c]).map _).sum + _ = (g.fileData.map List.length).sum
    have hlength := ChunkPosition.length_chunk p t.chunkSize
    have hone : (([c] : List Chunk).map fun c => c.record.size).sum = (p.chunk t.chunkSize).length :=
      List.sum_singleton
    rw [List.map_append, List.sum_append, hone, Nat.add_assoc]
    exact (congrArg _ hlength).trans hprogress

theorem sound_verified (h : t.Sound computeCid) {chunk : Chunk} (href : t.states.get? id = some ref)
    (hmay : t.MayGoOn computeCid (.verifying id ref chunk) .computed) :
    let r := t.verified id ref chunk (computeCid chunk.data = chunk.cid)
    r.1.Sound computeCid ∧ Evolves t r.1 ∧ r.1.TaskOk r.2 := by
  dsimp only
  rw [verified]
  by_cases hvalid : computeCid chunk.data = chunk.cid
  · rw [decide_eq_true hvalid, if_pos rfl]
    obtain ⟨hdirection, hstate⟩ := hmay hvalid
    obtain ⟨s, hs, hid⟩ := h.states id ref href
    obtain ⟨hfailed, hcancelled, hfits⟩ := hstate s hs
    have hadd : ∀ s' d, t.objects[ref]? = some s' → t.directions.get? s'.transferId = some d →
        s'.Ok computeCid d → s'.Advance (s'.addChunk chunk.record).finish ∧
          (s'.addChunk chunk.record).finish.Ok computeCid d := by
      intro s' d hs' hd hok
      obtain rfl : s' = s := Option.some.inj (hs'.symm.trans hs)
      obtain rfl : TransferDirection.receive = d := by
        rw [hid, hdirection] at hd
        exact Option.some.inj hd
      exact ⟨TransferState.advance_received hok hfailed hcancelled, hok.1.addChunk.finish,
        fun _ => TransferState.received_addChunk (hok.2 rfl) hfits ⟨chunk.data, hvalid, rfl⟩⟩
    have hcompose : (t.modify ref (.addChunk chunk.record)).modify ref TransferState.finish =
        t.modify ref fun s => (s.addChunk chunk.record).finish := by
      rw [modify, modify, modify]
      dsimp only
      rw [List.modify_modify_eq]
      rfl
    have hsame := same_finish (t.modify ref (.addChunk chunk.record)) id ref
    rw [hcompose] at hsame
    obtain ⟨hsound, hevolves⟩ := h.modify ref hadd hsame
    obtain ⟨-, d, -, hok⟩ := h.objects ref s hs
    refine ⟨hsound, hevolves, (s.addChunk chunk.record).finish, ?_, ?_, ?_⟩
    · refine getTransfer_eq (hevolves.states id ref href) ?_
      rw [hsame.objects]
      change (t.objects.modify ref _)[ref]? = _
      rw [List.getElem?_modify_eq, hs]
      rfl
    · exact (hevolves.directions id ref href).trans hdirection
    · rw [TransferState.chunks_finish]
      exact TransferState.mem_addChunk (hfits.size_eq hok.1)
  · rw [decide_eq_false hvalid, if_neg Bool.false_ne_true]
    exact ⟨h, .refl t, trivial⟩

section step
variable {r : MeshFileTransfer × Task TransferFrame TransferResult}

theorem sound_start (h : t.Sound computeCid) {call : TransferCall} (hmay : t.MayStart call)
    (hr : (transferProgram computeCid).start t call = some r) :
    r.1.Sound computeCid ∧ Evolves t r.1 ∧ r.1.TaskOk r.2 := by
  cases call with
  | createOffer id files expires =>
      cases hr
      exact sound_settle h fun t' hok => sound_createOffer h hmay hok
  | acceptOffer offer now =>
      cases hr
      exact sound_settle h fun t' hok => sound_acceptOffer h hmay hok
  | rejectOffer id =>
      cases hr
      exact sound_settle h fun t' hok => by
        cases hok
        exact sound_rejectOffer h hmay
  | cancelTransfer id =>
      cases hr
      exact sound_settle h fun t' hok => by
        cases hok
        exact sound_cancelTransfer h
  | fail id =>
      simp only [transferProgram] at hr
      split_ifs at hr with hopen
      cases hr
      refine sound_settle h fun t' hok => ?_
      cases hok
      refine h.write id (fun s d hs hd hok => ?_) (.refl _)
      have hterminal := terminal_of_not_ended (show ¬ t.Ended id from hopen) hs
      exact write_status hok (fun hend => by rw [hterminal] at hend; cases hend)
        (fun _ hcompleted => by cases hcompleted)
  | sendChunks id fileData =>
      cases hr
      exact sound_sendChunks h hmay
  | receiveChunk id chunk =>
      cases hr
      rw [receiveChunk]
      cases hstates : t.states.get? id with
      | none => exact ⟨h, .refl t, trivial⟩
      | some ref => exact ⟨h, .refl t, hstates⟩
  | dispatch message =>
      cases hr
      exact sound_settle h fun t' hok => sound_dispatch h hmay hok

theorem sound_resume (h : t.Sound computeCid) {frame : TransferFrame} {event : TransferEvent}
    (htask : t.TaskOk (.waiting frame)) (hmay : t.MayGoOn computeCid frame event)
    (hr : (transferProgram computeCid).resume t frame event = some r) :
    r.1.Sound computeCid ∧ Evolves t r.1 ∧ r.1.TaskOk r.2 := by
  cases frame with
  | hashing g p =>
      cases event with
      | next => cases hr
      | computed =>
          cases hr
          exact sound_yieldChunk h htask hmay
  | yielded g p =>
      cases event with
      | computed => cases hr
      | next =>
          cases hr
          exact sound_goOn h htask _ (seek_left _ _ _) hmay
  | verifying id ref chunk =>
      cases event with
      | next => cases hr
      | computed =>
          cases hr
          exact sound_verified h htask hmay

end step
end MeshFileTransfer

/-! ### Every run -/

namespace TransferPair
variable {computeCid : Bytes → JsString} {chunkSize : TransferEnd → ℕ} {w w' : TransferEnd → TransferWorld}
  {a : TransferAction}

def Sound (computeCid : Bytes → JsString) (w : TransferEnd → TransferWorld) : Prop :=
  ∀ e, (w e).shared.Sound computeCid ∧ ∀ task ∈ (w e).tasks, (w e).shared.TaskOk task

theorem sound_step (h : Sound computeCid w) (hkept : Kept computeCid w a)
    (hs : (machine computeCid chunkSize).step w a = some w') :
    Sound computeCid w' ∧ ∀ e, (w e).shared.Evolves (w' e).shared := by
  obtain ⟨e, action⟩ := a
  simp only [machine] at hs
  split_ifs at hs
  obtain ⟨w₁, hw₁, rfl⟩ := Option.map_eq_some_iff.mp hs
  obtain ⟨hsound, hevolves, htasks⟩ := Program.step_of_meets (fun _ _ _ hR hJ => hJ.mono hR)
    (fun _ _ _ hI hmay hr => MeshFileTransfer.sound_start hI hmay hr)
    (fun _ _ _ _ hI hJ hmay hr => MeshFileTransfer.sound_resume hI hJ hmay hr) (h e).1 (h e).2 hkept hw₁
  refine ⟨fun e' => ?_, fun e' => ?_⟩
  · by_cases he : e' = e
    · subst he
      rw [Function.update_self]
      exact ⟨hsound, htasks⟩
    · rw [Function.update_of_ne he]
      exact h e'
  · by_cases he : e' = e
    · subst he
      rw [Function.update_self]
      exact hevolves
    · rw [Function.update_of_ne he]
      exact .refl _

theorem sound_reach (h : (machine computeCid chunkSize).Reach (Kept computeCid) w) : Sound computeCid w :=
  h.invariant (fun _ => ⟨MeshFileTransfer.sound_new _, fun _ ht => (List.not_mem_nil ht).elim⟩)
    fun _ _ _ hI hkept hs => (sound_step hI hkept hs).1

theorem receivedWhole_of_sound (h : Sound computeCid w) : ReceivedWhole computeCid w := by
  intro e id s hs hdirection hstatus
  obtain ⟨d, hd, hok, -⟩ := (h e).1.of_getTransfer hs
  obtain rfl := Option.some.inj (hdirection.symm.trans hd)
  exact ⟨(hok.2 rfl).whole hok.1 hstatus, (hok.2 rfl).verified⟩

theorem bothCompleted_of_sound (h : Sound computeCid w) : BothCompleted w := by
  intro e id fileData yields sender receiver hsent hsender hsizes hreceiver hfiles hdirection hreceived
  obtain ⟨s, hs, hkeys, hsum, hcompleted⟩ := (h e).2 _ hsent
  obtain rfl := Option.some.inj (hs.symm.trans hsender)
  obtain ⟨d, hd, hok, -⟩ := (h e.other).1.of_getTransfer hreceiver
  obtain rfl := Option.some.inj (hdirection.symm.trans hd)
  have hall : ∀ c ∈ yields, c.record ∈ receiver.chunks := by
    intro c hc
    obtain ⟨s', hs', -, hmem⟩ := (h e.other).2 _ (hreceived c hc)
    obtain rfl := Option.some.inj (hs'.symm.trans hreceiver)
    exact hmem
  have hcomplete : receiver.isComplete := by
    change receiver.totalSize ≤ receiver.bytesTransferred
    rw [hok.1.total, hfiles, ← hsizes, ← hsum, hok.1.bytes]
    exact MeshFileTransfer.sum_yields_le hkeys hall
  have hchunks : receiver.chunks ≠ [] := by
    intro hempty
    have hbytes := hok.1.bytes
    rw [hempty] at hbytes
    have hpositive := (hok.2 rfl).nonempty
    have hle : receiver.totalSize ≤ receiver.bytesTransferred := hcomplete
    rw [hbytes] at hle
    exact absurd (hpositive.trans_le hle) (lt_irrefl 0)
  exact ⟨hcompleted hsizes, (hok.2 rfl).completed hchunks hcomplete⟩

theorem statusOf_run {as : List TransferAction} (h : Sound computeCid w)
    (hrun : (machine computeCid chunkSize).run (Kept computeCid) w as = some w') {e : TransferEnd} {id : JsString}
    {status : TransferStatus} (hs : (w e).shared.statusOf id = some status) (hterminal : status.terminal = true) :
    (w' e).shared.statusOf id = some status := by
  induction as generalizing w with
  | nil =>
      cases hrun
      exact hs
  | cons a as ih =>
      rw [Machine.run] at hrun
      split_ifs at hrun with hkept
      obtain ⟨w₁, hstep, hrest⟩ := Option.bind_eq_some_iff.mp hrun
      obtain ⟨hsound, hevolves⟩ := sound_step h hkept hstep
      exact ih hsound hrest ((hevolves e).statusOf hs hterminal)

/-- In every run whose steps meet the condition, a transfer that has ended keeps its status, a completed receiver
has the whole of every file, and both ends are completed once every chunk of a generator that ended has been
received. -/
theorem transfers_end (computeCid : Bytes → JsString) (chunkSize : TransferEnd → ℕ) (w : TransferEnd → TransferWorld)
    (h : (machine computeCid chunkSize).Reach (Kept computeCid) w) :
    (∀ as w', (machine computeCid chunkSize).run (Kept computeCid) w as = some w' → ∀ e id status,
      (w e).shared.statusOf id = some status → status.terminal = true →
        (w' e).shared.statusOf id = some status) ∧
      ReceivedWhole computeCid w ∧ BothCompleted w :=
  ⟨fun _ _ hrun _ _ _ hs hterminal => statusOf_run (sound_reach h) hrun hs hterminal,
    receivedWhole_of_sound (sound_reach h), bothCompleted_of_sound (sound_reach h)⟩

/-- The hash of the runs below, on the chunks that they send. -/
def sha256 (data : Bytes) : JsString :=
  if data = [7] then js "ca358758f6d27e6cf45272937977a748fd88391db679ceda7dc7bf1f005ee879"
  else if data = [8] then js "beead77994cf573341ec17b58bbf7eb34d2711c993c1d976b128b3188dc1829a"
  else data.flatMap fun byte => decimal byte.val ++ js " "

def oneFile (size : ℕ) : TransferOffer := ⟨js "xfer_1", [⟨js "a.txt", size⟩], size, 1000⟩

/-- The left end offers the file, the right end accepts it, and the generator starts. -/
def offered (data : Bytes) : List TransferAction :=
  [(.left, .start (.createOffer (js "xfer_1") [⟨js "a.txt", data.length⟩] 1000)),
    (.right, .start (.dispatch (.offer (oneFile data.length)))),
    (.right, .start (.acceptOffer (oneFile data.length) 5)), (.left, .start (.sendChunks (js "xfer_1") [data]))]

def given (i : ℕ) (data : Bytes) : List TransferAction :=
  [(.right, .start (.receiveChunk (js "xfer_1") ⟨0, sha256 data, data⟩)), (.right, .resume i .computed)]

/-- Two chunks, the second one received first and twice. -/
def outOfOrder : List TransferAction :=
  offered [7, 8] ++ [(.left, .start (.dispatch (.accept (js "xfer_1")))), (.left, .resume 1 .computed),
    (.left, .resume 1 .next), (.left, .resume 1 .computed)] ++ given 2 [8] ++ given 3 [7] ++ given 4 [8] ++
    [(.left, .start (.dispatch (.complete (js "xfer_1")))), (.left, .resume 1 .next),
      (.left, .start (.cancelTransfer (js "xfer_1")))]

theorem transfers_end_outOfOrder : ∃ w, (machine sha256 fun _ => 1).run (Kept sha256) (machine sha256 fun _ => 1).init
    outOfOrder = some w ∧ ReceivedWhole sha256 w ∧ BothCompleted w ∧
    (w .left).shared.statusOf (js "xfer_1") = some .completed ∧
    (w .right).shared.statusOf (js "xfer_1") = some .completed := by
  obtain ⟨w, hw, hreach, hleft, hright⟩ := Machine.exists_of_run (P := fun w : TransferEnd → TransferWorld =>
      (w .left).shared.statusOf (js "xfer_1") = some .completed ∧
        (w .right).shared.statusOf (js "xfer_1") = some .completed)
    (show ((machine sha256 fun _ => 1).run (Kept sha256) (machine sha256 fun _ => 1).init outOfOrder).any _ = true
      by decide +kernel)
  obtain ⟨-, hwhole, hboth⟩ := transfers_end sha256 (fun _ => 1) w hreach
  exact ⟨w, hw, hwhole, hboth, hleft, hright⟩

/-- A late accept message reopens a completed transfer, a complete message completes a receiver that has nothing, and
a file with two equal chunks is never completed. -/
theorem transfers_do_not_end :
    (¬ ∀ (as bs : List TransferAction) (w w' : TransferEnd → TransferWorld),
      (machine sha256 fun _ => 1).run (fun _ _ => True) (machine sha256 fun _ => 1).init as = some w →
      (machine sha256 fun _ => 1).run (fun _ _ => True) w bs = some w' →
        ∀ e id status, (w e).shared.statusOf id = some status → status.terminal = true →
          (w' e).shared.statusOf id = some status) ∧
    (¬ ∀ w, (machine sha256 fun _ => 1).Reach (fun _ _ => True) w → ReceivedWhole sha256 w) ∧
    ¬ ∀ w, (machine sha256 fun _ => 1).Reach (fun _ _ => True) w → BothCompleted w := by
  let m := machine sha256 fun _ => 1
  refine ⟨fun h => ?_, fun h => ?_, fun h => ?_⟩
  · let done := offered [7] ++ [(.left, .resume 1 .computed), (.left, .resume 1 .next)]
    let late : List TransferAction := [(.left, .start (.dispatch (.accept (js "xfer_1"))))]
    obtain ⟨w, hw, -, hcompleted, hlate⟩ := Machine.exists_of_run (P := fun w : TransferEnd → TransferWorld =>
        (w .left).shared.statusOf (js "xfer_1") = some .completed ∧
          (m.run (fun _ _ => True) w late).any fun w' =>
            (w' .left).shared.statusOf (js "xfer_1") = some .accepted)
      (show (m.run (fun _ _ => True) m.init done).any _ = true by decide +kernel)
    obtain ⟨w', hw', hstatus⟩ := (Option.any_eq_true _ _).mp hlate
    have hkept := h done late w w' hw hw' .left _ _ hcompleted rfl
    rw [of_decide_eq_true hstatus] at hkept
    cases hkept
  · obtain ⟨w, -, hreach, hstate, hdirection⟩ := Machine.exists_of_run (P := fun w : TransferEnd → TransferWorld =>
        (w .right).shared.getTransfer (js "xfer_1") = some ⟨js "xfer_1", .completed, 1, 0, [], [1]⟩ ∧
          (w .right).shared.directions.get? (js "xfer_1") = some .receive)
      (show (m.run (fun _ _ => True) m.init (offered [7] ++ [(.left, .resume 1 .computed), (.left, .resume 1 .next),
        (.right, .start (.dispatch (.complete (js "xfer_1"))))])).any _ = true by decide +kernel)
    obtain ⟨hwhole, -⟩ := h w hreach .right _ _ hstate hdirection rfl
    exact absurd (hwhole 0 1 rfl) (by decide)
  · let chunk : Chunk := ⟨0, sha256 [7], [7]⟩
    obtain ⟨w, -, hreach, hsent, hleft, hright, hdirection, hreceived⟩ :=
      Machine.exists_of_run (P := fun w : TransferEnd → TransferWorld =>
        Task.returned (.sent (js "xfer_1") [[7, 7]] [chunk, chunk]) ∈ (w .left).tasks ∧
          (w .left).shared.getTransfer (js "xfer_1") =
            some ⟨js "xfer_1", .transferring, 2, 1, [chunk.record], [2]⟩ ∧
          (w .right).shared.getTransfer (js "xfer_1") =
            some ⟨js "xfer_1", .transferring, 2, 1, [chunk.record], [2]⟩ ∧
          (w .right).shared.directions.get? (js "xfer_1") = some .receive ∧
          ∀ c ∈ [chunk, chunk], Task.returned (.received (js "xfer_1") c) ∈ (w .right).tasks)
      (show (m.run (fun _ _ => True) m.init (offered [7, 7] ++ [(.left, .resume 1 .computed), (.left, .resume 1 .next),
        (.left, .resume 1 .computed), (.left, .resume 1 .next)] ++ given 2 [7] ++ given 3 [7])).any _ = true
        by decide +kernel)
    obtain ⟨hcompleted, -⟩ := h w hreach .left _ _ _ _ _ hsent hleft rfl hright rfl hdirection hreceived
    cases hcompleted

end TransferPair
end BrowserMesh.Sync
