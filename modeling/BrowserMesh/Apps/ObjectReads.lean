import BrowserMesh.Apps.CloudObjects

/-! # Objects read back

What the manifest accepted last for a key is what every later read of the key finds, chunks included.  A command answers
as if its write had been accepted; so its data is read back as long as the stamp of every local write is greater than the
one that the manifest has (`objects_read_back`). -/

namespace BrowserMesh.Apps.CloudObjects
open Js Async Transition Primitives CloudStorageBackend

/-! ### What is asked for -/

def latest (key : JsString) (log : WriteLog) : Option Written :=
  (log.find? fun a => decide (a.key = key)).map Accepted.written

def Undisturbed (key : JsString) (log log' : WriteLog) : Prop := ∃ later, log' = later ++ log ∧ ∀ a ∈ later, a.key ≠ key

def Answered (w : ObjectWorld) (key : JsString) (log : WriteLog) : Written → Prop
  | .put data => ∃ durable, Task.returned (.stored key data durable log) ∈ w.tasks
  | .delete => Task.returned (.deleted key log) ∈ w.tasks
  | .merged => False

/-- What `get` responds. -/
def getAs : Written → GetResponse
  | .put data => .found data.plaintext (.ofNat data.plaintext.length) data.contentType data.metadata
  | _ => .notFound

def Describes (data : ObjectData) (entry : ObjectEntry) : Prop :=
  entry.size = .ofNat data.plaintext.length ∧ entry.contentType = data.contentType ∧ entry.metadata = data.metadata

/-- What `head` responds. -/
def HeadedAs (entry : Option ObjectEntry) : Written → Prop
  | .put data => ∃ e, entry = some e ∧ Describes data e
  | _ => entry = none

/-- What `list` responds. -/
def ListedAs (key keyPrefix : JsString) (keys : Option (List (JsString × JsNumber × JsNumber))) : Written → Prop
  | .put data => ∃ l, keys = some l ∧
      (keyPrefix.isPrefixOf key = true → ∃ updatedAt, (key, .ofNat data.plaintext.length, updatedAt) ∈ l)
  | _ => ∃ l, keys = some l ∧ ∀ x ∈ l, x.1 ≠ key

/-- Once a write is answered, every read before the next accepted write of the key finds it. -/
structure ReadsBack (w : ObjectWorld) : Prop where
  get : ∀ key log log' written response, Answered w key log written → Undisturbed key log log' →
    Task.returned (.got key log' response) ∈ w.tasks → response = getAs written
  head : ∀ key log log' written entry, Answered w key log written → Undisturbed key log log' →
    Task.returned (.headed key log' entry) ∈ w.tasks → HeadedAs entry written
  list : ∀ key log log' written keyPrefix keys, Answered w key log written → Undisturbed key log log' →
    Task.returned (.listed keyPrefix log' keys) ∈ w.tasks → ListedAs key keyPrefix keys written

/-- Every merged entry is a tombstone or holds an entry. -/
def Tidy (entries : JsObject (EntryJSON ManifestValue)) : Prop :=
  ∀ x ∈ entries.entries, x.2.tombstone = true ∨ (present (some x.2.value)).isSome = true

section
variable (nodeId : JsString) (s : Objects) (now : JsNumber)

/-- A deletion is accepted, and what is merged is tidy. -/
def MayPerform : ObjectOp → Prop
  | .delete key => accepts s.manifest key (nextTimestamp s now) nodeId = true
  | .merge entries => Tidy entries
  | .put _ _ => True
  | .get _ => True
  | .head _ => True
  | .list _ => True

def MaySettle : ObjectFrame → Prop
  | .awaitingReady op => MayPerform nodeId s now op
  | .encrypting key data offset _ _ _ =>
      data.plaintext.length ≤ offset + CHUNK_SIZE → accepts s.manifest key (nextTimestamp s now) nodeId = true
  | .savingPut _ _ _ => True
  | .replicating _ _ _ => True
  | .savingDelete _ _ => True
  | .savingMerge => True
  | .fetching _ _ _ _ _ => True
  | .hashing _ _ => True

def mayResume (frame : ObjectFrame) : ObjectEvent → Prop
  | .settled _ now => MaySettle nodeId s now frame
  | .replicated _ => True
  | .failed => True

instance (entries : JsObject (EntryJSON ManifestValue)) : Decidable (Tidy entries) :=
  inferInstanceAs (Decidable (∀ x ∈ entries.entries, _))

instance : DecidablePred (MayPerform nodeId s now)
  | .delete key => inferInstanceAs (Decidable (accepts s.manifest key (nextTimestamp s now) nodeId = true))
  | .merge entries => inferInstanceAs (Decidable (Tidy entries))
  | .put _ _ => instDecidableTrue
  | .get _ => instDecidableTrue
  | .head _ => instDecidableTrue
  | .list _ => instDecidableTrue

instance : DecidablePred (MaySettle nodeId s now)
  | .awaitingReady op => inferInstanceAs (Decidable (MayPerform nodeId s now op))
  | .encrypting key data offset _ _ _ =>
      inferInstanceAs (Decidable (data.plaintext.length ≤ offset + CHUNK_SIZE →
        accepts s.manifest key (nextTimestamp s now) nodeId = true))
  | .savingPut _ _ _ => instDecidableTrue
  | .replicating _ _ _ => instDecidableTrue
  | .savingDelete _ _ => instDecidableTrue
  | .savingMerge => instDecidableTrue
  | .fetching _ _ _ _ _ => instDecidableTrue
  | .hashing _ _ => instDecidableTrue

instance (frame : ObjectFrame) : DecidablePred (mayResume nodeId s frame)
  | .settled _ now => inferInstanceAs (Decidable (MaySettle nodeId s now frame))
  | .replicated _ => instDecidableTrue
  | .failed => instDecidableTrue

end

/-- Every local write is stamped above what the manifest has, and what is merged is tidy. -/
def Accepting (nodeId : JsString) : ObjectWorld → Action ObjectCall ObjectEvent → Prop :=
  Program.Meets (fun _ _ => True) fun s frame event => mayResume nodeId s frame event

instance (nodeId : JsString) (w : ObjectWorld) : DecidablePred (Accepting nodeId w) :=
  inferInstanceAs (DecidablePred (Program.Meets (fun _ _ => True) (fun s frame event => mayResume nodeId s frame event) w))

/-! ### The log -/

theorem latest_cons_self (key : JsString) (written : Written) (log : WriteLog) :
    latest key (⟨key, written⟩ :: log) = some written := by
  simp [latest]

variable {key : JsString}

theorem latest_append_of_forall (later : WriteLog) (log : WriteLog) (h : ∀ a ∈ later, a.key ≠ key) :
    latest key (later ++ log) = latest key log := by
  have hnone : later.find? (fun a => decide (a.key = key)) = none :=
    List.find?_eq_none.mpr fun a ha => by simpa using h a ha
  rw [latest, List.find?_append, hnone]
  rfl

theorem Undisturbed.latest_eq {log log' : WriteLog} (h : Undisturbed key log log') :
    latest key log' = latest key log := by
  obtain ⟨later, rfl, hlater⟩ := h
  exact latest_append_of_forall later log hlater


/-! ### The manifest -/

/-- No entry holds `undefined` or `null`. -/
def HoldsEntry (value : Entry ManifestValue) : Prop := ∀ v, value.value? = some v → ∃ entry, v = .of entry

theorem holdsEntry_live (entry : ObjectEntry) : HoldsEntry (.live (.of entry)) :=
  fun _ h => ⟨entry, (Option.some.inj h).symm⟩

theorem holdsEntry_tombstone : HoldsEntry .tombstone := fun _ h => by cases h

/-- The constructor of a register leaves an entry as it is. -/
theorem HoldsEntry.orNull {value : Entry ManifestValue} (h : HoldsEntry value) : HasNull.orNull value = value := by
  cases value with
  | tombstone => rfl
  | live v =>
      obtain ⟨entry, rfl⟩ := h v rfl
      rfl

theorem HoldsEntry.copy {r : LWWRegister (Entry ManifestValue)} (h : HoldsEntry r.value) : r.copy = r := by
  rw [LWWRegister.copy, LWWRegister.construct, h.orNull]

/-- A map without `undefined` and `null`. -/
def TidyMap (m : Manifest) : Prop := ∀ key r, m.entries.get? key = some r → HoldsEntry r.value

variable {m : Manifest}

theorem present_get (hm : TidyMap m) {v : ManifestValue} (h : m.get key = some v) :
    ∃ entry, v = .of entry := by
  obtain ⟨r, hr, hv⟩ := Option.bind_eq_some_iff.mp h
  exact hm key r hr v hv

theorem get?_write_of_accepts {nodeId : JsString} {value : Entry ManifestValue} {timestamp : JsNumber}
    (hvalue : HoldsEntry value) (h : accepts m key timestamp nodeId = true) (key' : JsString) :
    (m.write key value timestamp nodeId).entries.get? key' =
      if key' = key then some ⟨value, timestamp, nodeId⟩ else m.entries.get? key' := by
  unfold accepts at h
  unfold LWWMap.write
  cases hr : m.entries.get? key with
  | none =>
      dsimp only
      rw [JsMap.get?_set, LWWRegister.construct, hvalue.orNull]
  | some r =>
      rw [hr] at h
      dsimp only at h ⊢
      rw [JsMap.get?_set, LWWRegister.set, if_pos h]

theorem get?_merge_of_ne {remote : Manifest} (hm : TidyMap m)
    (h : ∀ r, remote.entries.get? key = some r → accepts m key r.timestamp r.nodeId = false) :
    (m.merge remote).entries.get? key = m.entries.get? key := by
  rw [LWWMap.get?_merge]
  cases hr : m.entries.get? key with
  | none =>
      cases hs : remote.entries.get? key with
      | none => rfl
      | some s =>
          have hs' := h s hs
          rw [accepts, hr] at hs'
          cases hs'
  | some r =>
      have hcopy : r.copy = r := (hm key r hr).copy
      cases hs : remote.entries.get? key with
      | none => exact congrArg some hcopy
      | some s =>
          have hs' := h s hs
          rw [accepts, hr] at hs'
          dsimp only at hs' ⊢
          rw [LWWRegister.merge, if_neg (Bool.eq_false_iff.mp hs'), hcopy]

theorem tidyMap_merge {remote : Manifest} (hm : TidyMap m) (hremote : TidyMap remote) : TidyMap (m.merge remote) := by
  intro key r hr
  rw [LWWMap.get?_merge] at hr
  cases hown : m.entries.get? key with
  | none =>
      rw [hown] at hr
      obtain ⟨s, hs, rfl⟩ := Option.map_eq_some_iff.mp hr
      rw [(hremote key s hs).copy]
      exact hremote key s hs
  | some own =>
      rw [hown] at hr
      cases hs : remote.entries.get? key with
      | none =>
          rw [hs] at hr
          obtain rfl := Option.some.inj hr
          rw [(hm key own hown).copy]
          exact hm key own hown
      | some s =>
          rw [hs] at hr
          obtain rfl := Option.some.inj hr
          rw [LWWRegister.merge]
          split_ifs
          · rw [(hremote key s hs).copy]
            exact hremote key s hs
          · rw [(hm key own hown).copy]
            exact hm key own hown

theorem tidyMap_fromJSON {entries : JsObject (EntryJSON ManifestValue)} (h : Tidy entries) :
    TidyMap (LWWMap.fromJSON entries) := by
  intro key r hr
  obtain ⟨x, hx, heq⟩ := List.mem_map.mp (JsMap.mem_of_get?_ofEntries hr)
  obtain ⟨-, rfl⟩ := Prod.mk.inj heq
  rcases h x hx with htombstone | hpresent
  · rw [LWWMap.ofEntryJSON, if_pos htombstone]
    exact holdsEntry_tombstone
  · rw [LWWMap.ofEntryJSON]
    split_ifs
    · exact holdsEntry_tombstone
    · cases hvalue : x.2.value with
      | undefined => rw [hvalue] at hpresent; cases hpresent
      | null => rw [hvalue] at hpresent; cases hpresent
      | of entry => exact holdsEntry_live entry

theorem mem_liveEntries {v : ManifestValue} :
    (key, v) ∈ m.liveEntries ↔ m.get key = some v := by
  have hsorted : ∀ x, x ∈ m.sorted ↔ x ∈ m.entries.entries := fun x => (List.perm_insertionSort _ _).mem_iff
  simp only [LWWMap.liveEntries, List.mem_filterMap, Option.map_eq_some_iff, Prod.mk.injEq, LWWMap.get,
    Option.bind_eq_some_iff]
  constructor
  · rintro ⟨⟨key', r⟩, hr, v', hv, rfl, rfl⟩
    exact ⟨r, JsMap.mem_entries_iff.mp ((hsorted _).mp hr), hv⟩
  · rintro ⟨r, hr, hv⟩
    exact ⟨(key, r), (hsorted _).mpr (JsMap.mem_entries_iff.mpr hr), v, hv, rfl, rfl⟩

/-- Without `null` the listing is that of the entries under the prefix. -/
theorem listing_spec (keyPrefix : JsString) {l : List (JsString × ManifestValue)} (hl : ∀ x ∈ l, ∃ entry, x.2 = .of entry) :
    ∃ keys, listing keyPrefix l = some keys ∧ ∀ key size updatedAt, (key, size, updatedAt) ∈ keys ↔
      keyPrefix.isPrefixOf key = true ∧ ∃ entry, (key, .of entry) ∈ l ∧ size = entry.size ∧ updatedAt = entry.updatedAt := by
  induction l with
  | nil => exact ⟨[], rfl, by simp⟩
  | cons x l ih =>
      obtain ⟨key₀, v⟩ := x
      obtain ⟨entry₀, rfl⟩ : ∃ entry, v = .of entry := hl _ List.mem_cons_self
      obtain ⟨keys, hkeys, hmem⟩ := ih fun x hx => hl x (List.mem_cons_of_mem _ hx)
      by_cases hpre : keyPrefix.isPrefixOf key₀ = true
      · refine ⟨(key₀, entry₀.size, entry₀.updatedAt) :: keys, ?_, fun key size updatedAt => ?_⟩
        · rw [listing, if_pos hpre, hkeys]
          rfl
        · simp only [List.mem_cons, hmem, Prod.mk.injEq, JsValue.of.injEq]
          constructor
          · rintro (⟨rfl, rfl, rfl⟩ | ⟨hkey, entry, hentry, hsize, htime⟩)
            · exact ⟨hpre, entry₀, Or.inl ⟨rfl, rfl⟩, rfl, rfl⟩
            · exact ⟨hkey, entry, Or.inr hentry, hsize, htime⟩
          · rintro ⟨hkey, entry, ⟨rfl, rfl⟩ | hentry, hsize, htime⟩
            · exact Or.inl ⟨rfl, hsize, htime⟩
            · exact Or.inr ⟨hkey, entry, hentry, hsize, htime⟩
      · refine ⟨keys, by rw [listing, if_neg hpre, hkeys], fun key size updatedAt => ?_⟩
        simp only [List.mem_cons, hmem, Prod.mk.injEq, JsValue.of.injEq]
        constructor
        · rintro ⟨hkey, entry, hentry, hsize, htime⟩
          exact ⟨hkey, entry, Or.inr hentry, hsize, htime⟩
        · rintro ⟨hkey, entry, ⟨rfl, -⟩ | hentry, hsize, htime⟩
          · exact absurd hkey hpre
          · exact ⟨hkey, entry, hentry, hsize, htime⟩


/-! ### What is kept -/

section
variable (crypto : StorageCrypto) (bucketKey : CloudStorageBackend.Bytes)

def asStorage (s : Objects) : Storage := ⟨some bucketKey, some bucketKey, none, s.chunkStore, []⟩

def Decrypts (s : Objects) (chunks : List ChunkEntry) (plaintext : CloudStorageBackend.Bytes) : Prop :=
  fetchAndDecrypt crypto (asStorage bucketKey s) chunks = some plaintext

def Holds (s : Objects) (key : JsString) : Written → Prop
  | .put data => ∃ entry, s.manifest.get key = some (.of entry) ∧ Describes data entry ∧
      Decrypts crypto bucketKey s entry.chunks data.plaintext
  | .delete => s.manifest.get key = none
  | .merged => True

structure Intact (s : Objects) : Prop where
  hashed : ∀ cid ciphertext, s.chunkStore.get? cid = some ciphertext → cid = crypto.computeCid ciphertext
  tidy : TidyMap s.manifest
  holds : ∀ key written, latest key s.log = some written → Holds crypto bucketKey s key written

/-- A read finds what was written last, unless that was merged. -/
def Finds (key : JsString) (log : WriteLog) (found : Written → Prop) : Prop :=
  ∀ written, latest key log = some written → written ≠ .merged → found written

def Reads (s : Objects) (entry : ObjectEntry) (chunks : List ChunkEntry) (parts : CloudStorageBackend.Bytes) : Written → Prop
  | .put data => Describes data entry ∧
      ∃ rest, Decrypts crypto bucketKey s chunks rest ∧ parts ++ rest = data.plaintext
  | _ => False

/-- What a call relies on, and what its result tells. -/
def Honest (s : Objects) : ObjectTask → Prop
  | .waiting (.encrypting _ data offset chunks iv ciphertext) =>
      Decrypts crypto bucketKey s chunks (data.plaintext.take offset) ∧
      ciphertext = crypto.aesEncrypt ((data.plaintext.drop offset).take CHUNK_SIZE) bucketKey iv
  | .waiting (.savingPut key data log) => latest key log = some (.put data)
  | .waiting (.replicating key data log) => latest key log = some (.put data)
  | .waiting (.savingDelete key log) => latest key log = some .delete
  | .waiting (.fetching key log entry chunks parts) => Finds key log (Reads crypto bucketKey s entry chunks parts)
  | .returned (.stored key data _ log) => latest key log = some (.put data)
  | .returned (.deleted key log) => latest key log = some .delete
  | .returned (.got key log response) => Finds key log fun written => response = getAs written
  | .returned (.headed key log entry) => Finds key log (HeadedAs entry)
  | .returned (.listed keyPrefix log keys) => ∀ key, Finds key log (ListedAs key keyPrefix keys)
  | _ => True

variable {crypto bucketKey} {s s' : Objects}

def Grows (s s' : Objects) : Prop :=
  ∀ cid ciphertext, s.chunkStore.get? cid = some ciphertext → s'.chunkStore.get? cid = some ciphertext

theorem Grows.refl (s : Objects) : Grows s s := fun _ _ h => h

variable {chunks : List ChunkEntry}

theorem Decrypts.grow (h : Grows s s') {plaintext : CloudStorageBackend.Bytes}
    (hchunks : Decrypts crypto bucketKey s chunks plaintext) : Decrypts crypto bucketKey s' chunks plaintext := by
  have hlater : Later (asStorage bucketKey s) (asStorage bucketKey s') :=
    ⟨fun _ h => h, fun _ h => h, fun h => ⟨h, rfl⟩, h⟩
  exact fetchAndDecrypt_later hlater hchunks

theorem Decrypts.uncons {chunk : ChunkEntry} {plaintext : CloudStorageBackend.Bytes}
    (h : Decrypts crypto bucketKey s (chunk :: chunks) plaintext) :
    ∃ ciphertext part rest, s.chunkStore.get? chunk.cid = some ciphertext ∧
      crypto.aesDecrypt ciphertext bucketKey chunk.iv = some part ∧ Decrypts crypto bucketKey s chunks rest ∧
      part ++ rest = plaintext := by
  simp only [Decrypts, fetchAndDecrypt, Option.bind_eq_bind, Option.bind_eq_some_iff] at h
  obtain ⟨ciphertext, hciphertext, key, hkey, part, hpart, rest, hrest, hplaintext⟩ := h
  obtain rfl : bucketKey = key := Option.some.inj hkey
  exact ⟨ciphertext, part, rest, hciphertext, hpart, hrest, Option.some.inj hplaintext⟩

variable {key : JsString} {written : Written}

theorem Holds.grow (h : Grows s s') (hmanifest : s'.manifest = s.manifest)
    (hholds : Holds crypto bucketKey s key written) : Holds crypto bucketKey s' key written := by
  cases written with
  | put data =>
      obtain ⟨entry, hentry, hdata, hchunks⟩ := hholds
      exact ⟨entry, (congrArg (LWWMap.get · key) hmanifest).trans hentry, hdata, hchunks.grow h⟩
  | delete => exact (congrArg (LWWMap.get · key) hmanifest).trans hholds
  | merged => exact trivial

variable {entry : ObjectEntry} {parts : CloudStorageBackend.Bytes}

theorem Reads.grow (h : Grows s s') (hreads : Reads crypto bucketKey s entry chunks parts written) :
    Reads crypto bucketKey s' entry chunks parts written := by
  cases written with
  | put data =>
      obtain ⟨hdata, rest, hrest, hparts⟩ := hreads
      exact ⟨hdata, rest, hrest.grow h, hparts⟩
  | delete => exact hreads
  | merged => exact hreads

theorem Honest.grow (h : Grows s s') {t : ObjectTask} (ht : Honest crypto bucketKey s t) :
    Honest crypto bucketKey s' t := by
  cases t with
  | waiting frame =>
      cases frame with
      | encrypting key data offset chunks iv ciphertext => exact ⟨ht.1.grow h, ht.2⟩
      | fetching key log entry chunks parts =>
          exact fun written hlatest hmerged => Reads.grow h (ht written hlatest hmerged)
      | awaitingReady op => exact trivial
      | savingPut key data log => exact ht
      | replicating key data log => exact ht
      | savingDelete key log => exact ht
      | savingMerge => exact trivial
      | hashing cid bytes => exact trivial
  | returned result =>
      cases result with
      | stored key data durable log => exact ht
      | got key log response => exact ht
      | headed key log entry => exact ht
      | deleted key log => exact ht
      | listed keyPrefix log keys => exact ht
      | done => exact trivial
      | failed => exact trivial

/-- The invariant after a step, and what became of the chunks. -/
def Keeps (crypto : StorageCrypto) (bucketKey : CloudStorageBackend.Bytes) (s : Objects) (r : Objects × ObjectTask) : Prop :=
  Intact crypto bucketKey r.1 ∧ Grows s r.1 ∧ Honest crypto bucketKey r.1 r.2

theorem Intact.keeps (h : Intact crypto bucketKey s) {t : ObjectTask} (ht : Honest crypto bucketKey s t) :
    Keeps crypto bucketKey s (s, t) :=
  ⟨h, .refl s, ht⟩

theorem Intact.putChunk (hcid : Function.Injective crypto.computeCid) (h : Intact crypto bucketKey s) (ciphertext : CloudStorageBackend.Bytes) :
    Intact crypto bucketKey { s with chunkStore := s.chunkStore.set (crypto.computeCid ciphertext) ciphertext } ∧
      Grows s { s with chunkStore := s.chunkStore.set (crypto.computeCid ciphertext) ciphertext } := by
  have hgrows : Grows s { s with chunkStore := s.chunkStore.set (crypto.computeCid ciphertext) ciphertext } := by
    intro cid c hc
    change (s.chunkStore.set _ _).get? cid = some c
    rw [JsMap.get?_set]
    split_ifs with heq
    · exact congrArg some (hcid (heq.symm.trans (h.hashed cid c hc)))
    · exact hc
  refine ⟨⟨fun cid c hc => ?_, h.tidy, fun key written hlatest => (h.holds key written hlatest).grow hgrows rfl⟩, hgrows⟩
  change (s.chunkStore.set _ _).get? cid = some c at hc
  rw [JsMap.get?_set] at hc
  split_ifs at hc with heq
  · rw [heq, Option.some.inj hc]
  · exact h.hashed cid c hc

theorem write_of_accepts {nodeId : JsString} {value : Entry ManifestValue} {now : JsNumber}
    (haccepts : accepts s.manifest key (nextTimestamp s now) nodeId = true) :
    (write nodeId s key value written now).log = ⟨key, written⟩ :: s.log := by
  unfold write
  rw [if_pos haccepts]

theorem Intact.write {nodeId : JsString} {value : Entry ManifestValue} {now : JsNumber}
    (h : Intact crypto bucketKey s) (hvalue : HoldsEntry value)
    (haccepts : accepts s.manifest key (nextTimestamp s now) nodeId = true)
    (hholds : (CloudObjects.write nodeId s key value written now).manifest.get key = value.value? →
      Holds crypto bucketKey (CloudObjects.write nodeId s key value written now) key written) :
    Intact crypto bucketKey (CloudObjects.write nodeId s key value written now) := by
  have hget := get?_write_of_accepts hvalue haccepts
  have hmanifest : ∀ key', (CloudObjects.write nodeId s key value written now).manifest.entries.get? key' =
      if key' = key then some ⟨value, nextTimestamp s now, nodeId⟩ else s.manifest.entries.get? key' := hget
  refine ⟨h.hashed, fun key' r hr => ?_, fun key' written' hlatest => ?_⟩
  · rw [hmanifest] at hr
    split_ifs at hr
    · obtain rfl := Option.some.inj hr
      exact hvalue
    · exact h.tidy key' r hr
  · rw [write_of_accepts haccepts] at hlatest
    by_cases hkey : key' = key
    · subst hkey
      obtain rfl := Option.some.inj ((latest_cons_self _ _ _).symm.trans hlatest)
      refine hholds ?_
      rw [LWWMap.get, hmanifest, if_pos rfl]
      rfl
    · have hother : latest key' (⟨key, written⟩ :: s.log) = latest key' s.log :=
        latest_append_of_forall [⟨key, written⟩] s.log fun a ha => by
          rw [List.mem_singleton.mp ha]
          exact fun heq => hkey heq.symm
      have hsame : (CloudObjects.write nodeId s key value written now).manifest.get key' = s.manifest.get key' := by
        rw [LWWMap.get, hmanifest, if_neg hkey]
        rfl
      have hbefore := h.holds key' written' (hother.symm.trans hlatest)
      cases written' with
      | put data =>
          obtain ⟨entry, hentry, hdata, hchunks⟩ := hbefore
          exact ⟨entry, hsame.trans hentry, hdata, hchunks⟩
      | delete => exact hsame.trans hbefore
      | merged => exact trivial

theorem Intact.mergeEntries (h : Intact crypto bucketKey s) {entries : JsObject (EntryJSON ManifestValue)}
    (htidy : Tidy entries) : Intact crypto bucketKey (CloudObjects.mergeEntries s entries) := by
  let remote : Manifest := LWWMap.fromJSON entries
  let accepted : WriteLog :=
    (remote.entries.entries.filter fun e => accepts s.manifest e.1 e.2.timestamp e.2.nodeId).map
      fun e => ⟨e.1, .merged⟩
  have hlog : (CloudObjects.mergeEntries s entries).log = accepted ++ s.log := rfl
  refine ⟨h.hashed, tidyMap_merge h.tidy (tidyMap_fromJSON htidy), fun key written hlatest => ?_⟩
  rw [hlog] at hlatest
  by_cases hmerged : ∃ a ∈ accepted, a.key = key
  · -- an entry of the key was accepted, and all that is known of the key is that
    obtain ⟨a, ha, hkey⟩ := hmerged
    rw [latest, List.find?_append] at hlatest
    cases hfind : accepted.find? fun a => decide (a.key = key) with
    | none => exact absurd (by simpa using hkey) (List.find?_eq_none.mp hfind a ha)
    | some b =>
        rw [hfind] at hlatest
        obtain ⟨e, -, rfl⟩ := List.mem_map.mp (List.mem_of_find?_eq_some hfind)
        obtain rfl : Written.merged = written := Option.some.inj hlatest
        exact trivial
  · have hnone : ∀ a ∈ accepted, a.key ≠ key := fun a ha hkey => hmerged ⟨a, ha, hkey⟩
    rw [latest_append_of_forall _ s.log hnone] at hlatest
    have hget : (s.manifest.merge remote).entries.get? key = s.manifest.entries.get? key := by
      refine get?_merge_of_ne h.tidy fun r hr => Bool.eq_false_iff.mpr fun haccepts => ?_
      refine hnone ⟨key, .merged⟩ (List.mem_map.mpr ⟨(key, r), List.mem_filter.mpr ⟨?_, haccepts⟩, rfl⟩) rfl
      exact JsMap.mem_entries_iff.mpr hr
    have hsame : (CloudObjects.mergeEntries s entries).manifest.get key = s.manifest.get key := by
      change (s.manifest.merge remote).get key = _
      rw [LWWMap.get, hget]
      rfl
    have hbefore := h.holds key written hlatest
    cases written with
    | put data =>
        obtain ⟨entry, hentry, hdata, hchunks⟩ := hbefore
        exact ⟨entry, hsame.trans hentry, hdata, hchunks⟩
    | delete => exact hsame.trans hbefore
    | merged => exact trivial

/-! ### The steps -/

variable {log : WriteLog}

theorem honest_fetchNext (h : Finds key log (Reads crypto bucketKey s entry chunks parts)) :
    Honest crypto bucketKey s (fetchNext key log entry chunks parts) := by
  cases chunks with
  | cons chunk chunks => exact h
  | nil =>
      intro written hlatest hmerged
      have hreads := h written hlatest hmerged
      cases written with
      | put data =>
          obtain ⟨⟨hsize, hcontentType, hmetadata⟩, rest, hrest, hparts⟩ := hreads
          obtain rfl : [] = rest := Option.some.inj hrest
          rw [List.append_nil] at hparts
          change GetResponse.found parts entry.size entry.contentType entry.metadata = getAs (.put data)
          rw [hparts, hsize, hcontentType, hmetadata]
          rfl
      | delete => exact hreads.elim
      | merged => exact hreads.elim

theorem keeps_get (h : Intact crypto bucketKey s) {nodeId : JsString} (key : NonEmptyString) (random : CloudStorageBackend.Bytes)
    (now : JsNumber) : Keeps crypto bucketKey s (perform crypto bucketKey nodeId s random now (.get key)) := by
  simp only [perform]
  cases hpresent : present (s.manifest.get key) with
  | none =>
      dsimp only
      refine h.keeps fun written hlatest hmerged => ?_
      have hholds := h.holds key written hlatest
      cases written with
      | put data =>
          obtain ⟨entry, hentry, -⟩ := hholds
          rw [hentry] at hpresent
          cases hpresent
      | delete => rfl
      | merged => exact absurd rfl hmerged
  | some entry =>
      dsimp only
      refine h.keeps (honest_fetchNext fun written hlatest hmerged => ?_)
      have hholds := h.holds key written hlatest
      cases written with
      | put data =>
          obtain ⟨entry', hentry', hdata, hchunks⟩ := hholds
          rw [hentry'] at hpresent
          obtain rfl : entry' = entry := Option.some.inj hpresent
          exact ⟨hdata, data.plaintext, hchunks, rfl⟩
      | delete =>
          have hnone : s.manifest.get key = none := hholds
          rw [hnone] at hpresent
          cases hpresent
      | merged => exact hmerged rfl

theorem keeps_head (h : Intact crypto bucketKey s) {nodeId : JsString} (key : NonEmptyString) (random : CloudStorageBackend.Bytes)
    (now : JsNumber) : Keeps crypto bucketKey s (perform crypto bucketKey nodeId s random now (.head key)) := by
  refine h.keeps fun written hlatest hmerged => ?_
  have hholds := h.holds key written hlatest
  cases written with
  | put data =>
      obtain ⟨entry, hentry, hdata, -⟩ := hholds
      exact ⟨entry, congrArg present hentry, hdata⟩
  | delete => exact congrArg present hholds
  | merged => exact absurd rfl hmerged

theorem keeps_list (h : Intact crypto bucketKey s) {nodeId : JsString} (keyPrefix : JsString) (random : CloudStorageBackend.Bytes)
    (now : JsNumber) : Keeps crypto bucketKey s (perform crypto bucketKey nodeId s random now (.list keyPrefix)) := by
  obtain ⟨keys, hkeys, hmem⟩ := listing_spec keyPrefix
    (fun (x : JsString × ManifestValue) hx => present_get h.tidy (mem_liveEntries.mp hx))
  refine h.keeps fun key written hlatest hmerged => ?_
  have hholds := h.holds key written hlatest
  cases written with
  | put data =>
      obtain ⟨entry, hentry, hdata, -⟩ := hholds
      refine ⟨keys, hkeys, fun hpre => ⟨entry.updatedAt, ?_⟩⟩
      exact (hmem _ _ _).mpr ⟨hpre, entry, mem_liveEntries.mpr hentry, hdata.1.symm, rfl⟩
  | delete =>
      refine ⟨keys, hkeys, ?_⟩
      rintro ⟨key', size, updatedAt⟩ hx rfl
      obtain ⟨-, entry, hentry, -⟩ := (hmem _ _ _).mp hx
      cases (mem_liveEntries.mp hentry).symm.trans hholds
  | merged => exact absurd rfl hmerged

variable {random : CloudStorageBackend.Bytes}

theorem keeps_perform (h : Intact crypto bucketKey s) {nodeId : JsString} {op : ObjectOp} {now : JsNumber}
    (hmay : MayPerform nodeId s now op) : Keeps crypto bucketKey s (perform crypto bucketKey nodeId s random now op) := by
  cases op with
  | put key data => exact h.keeps ⟨rfl, rfl⟩
  | get key => exact keeps_get h key random now
  | head key => exact keeps_head h key random now
  | list keyPrefix => exact keeps_list h keyPrefix random now
  | delete key =>
      refine ⟨h.write holdsEntry_tombstone hmay fun hget => hget, .refl s, ?_⟩
      change latest key (write nodeId s key .tombstone .delete now).log = some .delete
      rw [write_of_accepts hmay]
      exact latest_cons_self _ _ _
  | merge entries => exact ⟨h.mergeEntries hmay, .refl s, trivial⟩

variable {r : Objects × ObjectTask}

theorem keeps_encrypted (hdecrypt : ∀ data key iv, crypto.aesDecrypt (crypto.aesEncrypt data key iv) key iv = some data)
    (hcid : Function.Injective crypto.computeCid) (h : Intact crypto bucketKey s) {nodeId : JsString} {data : ObjectData}
    {offset : ℕ} {iv ciphertext : CloudStorageBackend.Bytes} {now : JsNumber}
    (hrelies : Honest crypto bucketKey s (.waiting (.encrypting key data offset chunks iv ciphertext)))
    (hmay : MaySettle nodeId s now (.encrypting key data offset chunks iv ciphertext))
    (hr : resumeCall crypto bucketKey nodeId s (.encrypting key data offset chunks iv ciphertext)
      (.settled random now) = some r) : Keeps crypto bucketKey s r := by
  obtain ⟨hchunks, hciphertext⟩ := hrelies
  let s₁ : Objects := { s with chunkStore := s.chunkStore.set (crypto.computeCid ciphertext) ciphertext }
  obtain ⟨hintact, hgrows⟩ : Intact crypto bucketKey s₁ ∧ Grows s s₁ := h.putChunk hcid ciphertext
  have hsofar : Decrypts crypto bucketKey s₁ (chunks ++ [⟨crypto.computeCid ciphertext, iv⟩])
      (data.plaintext.take (offset + CHUNK_SIZE)) := by
    have hchunk : s₁.chunkStore.get? (crypto.computeCid ciphertext) = some ciphertext :=
      (JsMap.get?_set _ _ _ _).trans (if_pos rfl)
    have hpart : crypto.aesDecrypt ciphertext bucketKey iv = some ((data.plaintext.drop offset).take CHUNK_SIZE) := by
      rw [hciphertext]
      exact hdecrypt _ _ _
    rw [List.take_add]
    exact fetchAndDecrypt_snoc (hchunks.grow hgrows) hchunk rfl hpart
  unfold resumeCall at hr
  dsimp only at hr
  split_ifs at hr with hmore
  · obtain rfl := Option.some.inj hr
    exact ⟨hintact, hgrows, hsofar, rfl⟩
  · obtain rfl := Option.some.inj hr
    have haccepts : accepts s₁.manifest key (nextTimestamp s₁ now) nodeId = true := hmay (not_lt.mp hmore)
    rw [List.take_of_length_le (not_lt.mp hmore)] at hsofar
    refine ⟨hintact.write (holdsEntry_live _) haccepts fun hget => ?_, hgrows, ?_⟩
    · exact ⟨_, hget, ⟨rfl, rfl, rfl⟩, hsofar⟩
    · change latest key (write nodeId s₁ key _ (.put data) now).log = some (.put data)
      rw [write_of_accepts haccepts]
      exact latest_cons_self _ _ _

theorem keeps_fetched (h : Intact crypto bucketKey s) {nodeId : JsString} {chunk : ChunkEntry} {now : JsNumber}
    (hrelies : Honest crypto bucketKey s (.waiting (.fetching key log entry (chunk :: chunks) parts)))
    (hr : resumeCall crypto bucketKey nodeId s (.fetching key log entry (chunk :: chunks) parts)
      (.settled random now) = some r) : Keeps crypto bucketKey s r := by
  have hput : ∀ written, latest key log = some written → written ≠ .merged → ∃ data ciphertext part,
      s.chunkStore.get? chunk.cid = some ciphertext ∧ crypto.aesDecrypt ciphertext bucketKey chunk.iv = some part ∧
        written = .put data ∧ Reads crypto bucketKey s entry chunks (parts ++ part) (.put data) := by
    intro written hlatest hmerged
    have hreads := hrelies written hlatest hmerged
    cases written with
    | put data =>
        obtain ⟨hdata, all, hall, hparts⟩ := hreads
        obtain ⟨ciphertext, part, rest, hciphertext, hpart, hrest, rfl⟩ := hall.uncons
        exact ⟨data, ciphertext, part, hciphertext, hpart, rfl, hdata, rest, hrest,
          (List.append_assoc _ _ _).trans hparts⟩
    | delete => exact hreads.elim
    | merged => exact hreads.elim
  simp only [resumeCall] at hr
  split at hr
  · rename_i hnone
    obtain rfl := Option.some.inj hr
    refine h.keeps fun written hlatest hmerged => ?_
    obtain ⟨data, ciphertext, part, hciphertext, -⟩ := hput written hlatest hmerged
    cases hnone.symm.trans hciphertext
  · rename_i ciphertext hciphertext
    split at hr
    · rename_i hnone
      obtain rfl := Option.some.inj hr
      refine h.keeps fun written hlatest hmerged => ?_
      obtain ⟨data, ciphertext', part, hciphertext', hpart, -⟩ := hput written hlatest hmerged
      obtain rfl : ciphertext = ciphertext' := Option.some.inj (hciphertext.symm.trans hciphertext')
      cases hnone.symm.trans hpart
    · rename_i part hpart
      obtain rfl := Option.some.inj hr
      refine h.keeps (honest_fetchNext fun written hlatest hmerged => ?_)
      obtain ⟨data, ciphertext', part', hciphertext', hpart', rfl, hreads⟩ := hput written hlatest hmerged
      obtain rfl : ciphertext = ciphertext' := Option.some.inj (hciphertext.symm.trans hciphertext')
      obtain rfl : part = part' := Option.some.inj (hpart.symm.trans hpart')
      exact hreads

theorem keeps_resume (hdecrypt : ∀ data key iv, crypto.aesDecrypt (crypto.aesEncrypt data key iv) key iv = some data)
    (hcid : Function.Injective crypto.computeCid) (h : Intact crypto bucketKey s) {nodeId : JsString}
    {frame : ObjectFrame} {event : ObjectEvent} (hrelies : Honest crypto bucketKey s (.waiting frame))
    (hmay : mayResume nodeId s frame event)
    (hr : resumeCall crypto bucketKey nodeId s frame event = some r) : Keeps crypto bucketKey s r := by
  cases frame with
  | awaitingReady op =>
      cases event with
      | settled random now =>
          obtain rfl := Option.some.inj hr
          exact keeps_perform h hmay
      | failed =>
          obtain rfl := Option.some.inj hr
          exact h.keeps trivial
      | replicated durable => cases hr
  | encrypting key data offset chunks iv ciphertext =>
      cases event with
      | settled random now => exact keeps_encrypted hdecrypt hcid h hrelies hmay hr
      | failed =>
          obtain rfl := Option.some.inj hr
          exact h.keeps trivial
      | replicated durable => cases hr
  | savingPut key data log =>
      cases event with
      | settled random now =>
          simp only [resumeCall] at hr
          obtain rfl := Option.some.inj hr
          refine h.keeps ?_
          split_ifs
          · exact hrelies
          · exact hrelies
      | failed =>
          obtain rfl := Option.some.inj hr
          exact h.keeps trivial
      | replicated durable => cases hr
  | replicating key data log =>
      cases event with
      | replicated durable =>
          obtain rfl := Option.some.inj hr
          exact h.keeps hrelies
      | settled random now => cases hr
      | failed => cases hr
  | savingDelete key log =>
      cases event with
      | settled random now =>
          obtain rfl := Option.some.inj hr
          exact h.keeps hrelies
      | failed =>
          obtain rfl := Option.some.inj hr
          exact h.keeps trivial
      | replicated durable => cases hr
  | savingMerge =>
      cases event with
      | settled random now =>
          obtain rfl := Option.some.inj hr
          exact h.keeps trivial
      | failed =>
          obtain rfl := Option.some.inj hr
          exact h.keeps trivial
      | replicated durable => cases hr
  | fetching key log entry chunks parts =>
      cases chunks with
      | nil => cases event <;> cases hr
      | cons chunk chunks =>
          cases event with
          | settled random now => exact keeps_fetched h hrelies hr
          | failed => cases hr
          | replicated durable => cases hr
  | hashing cid bytes =>
      cases event with
      | settled random now =>
          simp only [resumeCall] at hr
          split_ifs at hr with hhash
          · obtain rfl := Option.some.inj hr
            rw [← hhash]
            obtain ⟨hintact, hgrows⟩ := h.putChunk hcid bytes
            exact ⟨hintact, hgrows, trivial⟩
          · obtain rfl := Option.some.inj hr
            exact h.keeps trivial
      | failed =>
          obtain rfl := Option.some.inj hr
          exact h.keeps trivial
      | replicated durable => cases hr

theorem keeps_start (h : Intact crypto bucketKey s) (call : ObjectCall) : Keeps crypto bucketKey s (startCall s call) := by
  cases call with
  | run op => exact h.keeps trivial
  | setReplicationHook hooked =>
      exact ⟨⟨h.hashed, h.tidy, fun key written hlatest => (h.holds key written hlatest).grow (.refl s) rfl⟩,
        .refl s, trivial⟩
  | putChunkRaw cid bytes => exact h.keeps trivial

theorem intact_new : Intact crypto bucketKey new :=
  ⟨fun _ _ hc => (by cases hc), fun _ _ hr => (by cases hr), fun _ _ hlatest => (by cases hlatest)⟩

theorem Answered.latest {w : ObjectWorld} (htasks : ∀ t ∈ w.tasks, Honest crypto bucketKey w.shared t)
    (h : Answered w key log written) :
    CloudObjects.latest key log = some written ∧ written ≠ .merged := by
  cases written with
  | put data =>
      obtain ⟨durable, ht⟩ := h
      exact ⟨htasks _ ht, fun heq => by cases heq⟩
  | delete => exact ⟨htasks _ h, fun heq => by cases heq⟩
  | merged => exact h.elim

end

/-- In a run in which every local write is stamped above what the manifest has of its key, and what is merged is tidy, what
a command has answered is what every read finds before another write of the key is accepted. -/
theorem objects_read_back (crypto : StorageCrypto)
    (hdecrypt : ∀ data key iv, crypto.aesDecrypt (crypto.aesEncrypt data key iv) key iv = some data)
    (hcid : Function.Injective crypto.computeCid) (bucketKey : CloudStorageBackend.Bytes) (nodeId : JsString) (w : ObjectWorld)
    (h : (machine crypto bucketKey nodeId).Reach (Accepting nodeId) w) : ReadsBack w := by
  have hinv : Intact crypto bucketKey w.shared ∧ ∀ t ∈ w.tasks, Honest crypto bucketKey w.shared t := by
    refine h.invariant (I := fun w => Intact crypto bucketKey w.shared ∧
      ∀ t ∈ w.tasks, Honest crypto bucketKey w.shared t) ⟨intact_new, fun t ht => (by cases ht)⟩ ?_
    rintro w a w' ⟨hintact, htasks⟩ hok hs
    obtain ⟨hintact', -, htasks'⟩ := Program.step_of_meets (p := program crypto bucketKey nodeId) (R := Grows)
      (J := Honest crypto bucketKey)
      (fun s s' t hgrows ht => Honest.grow hgrows ht)
      (fun s call r hintact _ hr => by
        obtain rfl := Option.some.inj hr
        exact keeps_start hintact call)
      (fun s frame event r hintact hrelies hmay hr => keeps_resume hdecrypt hcid hintact hrelies hmay hr)
      hintact htasks hok hs
    exact ⟨hintact', htasks'⟩
  have hfound : ∀ {key log log' written found}, Answered w key log written → Undisturbed key log log' →
      Finds key log' found → found written := by
    intro key log log' written found hanswered hundisturbed hfinds
    obtain ⟨hlatest, hmerged⟩ := hanswered.latest hinv.2
    exact hfinds written (hundisturbed.latest_eq.trans hlatest) hmerged
  exact
    { get := fun key log log' written response hanswered hundisturbed ht => hfound hanswered hundisturbed (hinv.2 _ ht)
      head := fun key log log' written entry hanswered hundisturbed ht => hfound hanswered hundisturbed (hinv.2 _ ht)
      list := fun key log log' written keyPrefix keys hanswered hundisturbed ht =>
        hfound hanswered hundisturbed (hinv.2 _ ht key) }

def plaintext? : ObjectTask → Option (JsString × CloudStorageBackend.Bytes)
  | .returned (.stored key data _ _) => some (key, data.plaintext)
  | .returned (.got key _ (.found plaintext _ _ _)) => some (key, plaintext)
  | _ => none

def fileKey : NonEmptyString := ⟨js "k", by decide⟩

def oneByte : ObjectData := ⟨[1], .null, .null⟩

def putThenGet : List (Action ObjectCall ObjectEvent) :=
  [.start (.setReplicationHook true), .start (.run (.put fileKey oneByte)), .resume 1 (.settled [9] (.ofNat 5)),
    .resume 1 (.settled [] (.ofNat 6)), .resume 1 (.settled [] (.ofNat 6)), .resume 1 (.replicated none),
    .start (.run (.get fileKey)), .resume 2 (.settled [] (.ofNat 7)), .resume 2 (.settled [] (.ofNat 7))]

theorem objects_read_back_run : ∃ w, (machine plainCrypto [7] (js "a")).run (Accepting (js "a"))
    (machine plainCrypto [7] (js "a")).init putThenGet = some w ∧
    w.tasks.map plaintext? = [none, some (js "k", [1]), some (js "k", [1])] ∧ ReadsBack w := by
  obtain ⟨w, hw, hreach, htasks⟩ := Machine.exists_of_run (P := fun w : ObjectWorld =>
      w.tasks.map plaintext? = [none, some (js "k", [1]), some (js "k", [1])])
    (show ((machine plainCrypto [7] (js "a")).run (Accepting (js "a"))
      (machine plainCrypto [7] (js "a")).init putThenGet).any _ = true by decide +kernel)
  exact ⟨w, hw, htasks, objects_read_back plainCrypto plainCrypto_decrypts plainCrypto_injective [7] (js "a") w hreach⟩

/-- What a peer sends of a key: an entry, or `null`, stamped in the future. -/
def fromPeer (key : JsString) (value : ManifestValue) : ObjectOp :=
  .merge (JsObject.empty.assign key ⟨value, .ofNat 100, js "b", false⟩)

/-- A put of one byte was answered although only a merged entry of the key was accepted. -/
def refusedPut : ObjectTask → Bool
  | .returned (.stored key data _ [⟨merged, .merged⟩]) => decide (key = js "k" ∧ merged = js "k" ∧ data.plaintext = [1])
  | _ => false

def refusedDelete : ObjectTask → Bool
  | .returned (.deleted key [⟨merged, .merged⟩]) => decide (key = js "k" ∧ merged = js "k")
  | _ => false

/-- An empty object is read where only a merged entry of the key was accepted. -/
def readsMerged : ObjectTask → Bool
  | .returned (.got key [⟨merged, .merged⟩] (.found plaintext _ _ _)) =>
      decide (key = js "k" ∧ merged = js "k" ∧ plaintext = [])
  | _ => false

/-- A deletion was answered, and a listing fails, after an entry of another key was merged. -/
def deletesAfterMerge : ObjectTask → Bool
  | .returned (.deleted key [⟨deleted, .delete⟩, ⟨other, .merged⟩]) =>
      decide (key = js "k" ∧ deleted = js "k" ∧ other = js "n")
  | _ => false

def failsToList : ObjectTask → Bool
  | .returned (.listed _ [⟨deleted, .delete⟩, ⟨other, .merged⟩] none) => decide (deleted = js "k" ∧ other = js "n")
  | _ => false

variable {w : ObjectWorld}

theorem exists_refusedPut (h : w.tasks.any refusedPut = true) : ∃ data,
    Answered w (js "k") [⟨js "k", .merged⟩] (.put data) ∧ data.plaintext = [1] := by
  obtain ⟨t, ht, hput⟩ := List.any_eq_true.mp h
  unfold refusedPut at hput
  split at hput
  · rename_i key data durable merged
    obtain ⟨rfl, rfl, hdata⟩ := of_decide_eq_true hput
    exact ⟨data, ⟨durable, ht⟩, hdata⟩
  · cases hput

theorem exists_refusedDelete (h : w.tasks.any refusedDelete = true) :
    Answered w (js "k") [⟨js "k", .merged⟩] .delete := by
  obtain ⟨t, ht, hdelete⟩ := List.any_eq_true.mp h
  unfold refusedDelete at hdelete
  split at hdelete
  · obtain ⟨rfl, rfl⟩ := of_decide_eq_true hdelete
    exact ht
  · cases hdelete

theorem exists_readsMerged (h : w.tasks.any readsMerged = true) : ∃ size contentType metadata,
    Task.returned (.got (js "k") [⟨js "k", .merged⟩] (.found [] size contentType metadata)) ∈ w.tasks := by
  obtain ⟨t, ht, hread⟩ := List.any_eq_true.mp h
  unfold readsMerged at hread
  split at hread
  · rename_i key merged plaintext size contentType metadata
    obtain ⟨rfl, rfl, rfl⟩ := of_decide_eq_true hread
    exact ⟨size, contentType, metadata, ht⟩
  · cases hread

theorem exists_failsToList
    (h : w.tasks.any deletesAfterMerge = true ∧ w.tasks.any failsToList = true) : ∃ log keyPrefix,
    Answered w (js "k") log .delete ∧ Task.returned (.listed keyPrefix log none) ∈ w.tasks := by
  obtain ⟨t, ht, hdelete⟩ := List.any_eq_true.mp h.1
  obtain ⟨t', ht', hlist⟩ := List.any_eq_true.mp h.2
  unfold deletesAfterMerge at hdelete
  split at hdelete
  · obtain ⟨rfl, rfl, rfl⟩ := of_decide_eq_true hdelete
    unfold failsToList at hlist
    split at hlist
    · rename_i keyPrefix deleted other
      obtain ⟨rfl, rfl⟩ := of_decide_eq_true hlist
      exact ⟨_, keyPrefix, ht, ht'⟩
    · cases hlist
  · cases hdelete

theorem undisturbed_refl (key : JsString) (log : WriteLog) : Undisturbed key log log :=
  ⟨[], rfl, fun _ ha => by cases ha⟩

/-- After an entry from the future was merged, a put answers that it stored and a deletion that it deleted while the merged
entry stays; and a merged `null` makes every listing fail. -/
theorem objects_overruled :
    (¬ ∀ w, (machine plainCrypto [7] (js "a")).Reach (fun _ _ => True) w → ReadsBack w) ∧
    (¬ ∀ w, (machine plainCrypto [7] (js "a")).Reach (fun _ _ => True) w → ∀ key log response,
      Answered w key log .delete → Task.returned (.got key log response) ∈ w.tasks → response = .notFound) ∧
    ¬ ∀ w, (machine plainCrypto [7] (js "a")).Reach (fun _ _ => True) w → ∀ key log keyPrefix,
      Answered w key log .delete → Task.returned (.listed keyPrefix log none) ∉ w.tasks := by
  let entry : ObjectEntry := ⟨[], 0, .null, .null, .ofNat 1, .ofNat 100⟩
  refine ⟨fun h => ?_, fun h => ?_, fun h => ?_⟩
  · obtain ⟨w, -, hreach, hput, hget⟩ := Machine.exists_of_run (P := fun w : ObjectWorld =>
        w.tasks.any refusedPut = true ∧ w.tasks.any readsMerged = true)
      (show ((machine plainCrypto [7] (js "a")).run (fun _ _ => True) (machine plainCrypto [7] (js "a")).init
        [.start (.run (fromPeer (js "k") (.of entry))), .resume 0 (.settled [] (.ofNat 5)),
          .start (.run (.put fileKey oneByte)), .resume 1 (.settled [9] (.ofNat 5)), .resume 1 (.settled [] (.ofNat 6)),
          .resume 1 (.settled [] (.ofNat 6)), .start (.run (.get fileKey)),
          .resume 2 (.settled [] (.ofNat 7))]).any _ = true by decide +kernel)
    obtain ⟨data, hanswered, hdata⟩ := exists_refusedPut hput
    obtain ⟨size, contentType, metadata, hgot⟩ := exists_readsMerged hget
    have hresponse := (h w hreach).get _ _ _ _ _ hanswered (undisturbed_refl _ _) hgot
    obtain ⟨hplaintext, -⟩ := GetResponse.found.inj hresponse
    cases hplaintext.trans hdata
  · obtain ⟨w, -, hreach, hdelete, hget⟩ := Machine.exists_of_run (P := fun w : ObjectWorld =>
        w.tasks.any refusedDelete = true ∧ w.tasks.any readsMerged = true)
      (show ((machine plainCrypto [7] (js "a")).run (fun _ _ => True) (machine plainCrypto [7] (js "a")).init
        [.start (.run (fromPeer (js "k") (.of entry))), .resume 0 (.settled [] (.ofNat 5)),
          .start (.run (.delete fileKey)), .resume 1 (.settled [] (.ofNat 5)), .resume 1 (.settled [] (.ofNat 6)),
          .start (.run (.get fileKey)), .resume 2 (.settled [] (.ofNat 7))]).any _ = true by decide +kernel)
    obtain ⟨size, contentType, metadata, hgot⟩ := exists_readsMerged hget
    cases h w hreach _ _ _ (exists_refusedDelete hdelete) hgot
  · obtain ⟨w, -, hreach, hfails⟩ := Machine.exists_of_run (P := fun w : ObjectWorld =>
        w.tasks.any deletesAfterMerge = true ∧ w.tasks.any failsToList = true)
      (show ((machine plainCrypto [7] (js "a")).run (fun _ _ => True) (machine plainCrypto [7] (js "a")).init
        [.start (.run (fromPeer (js "n") .null)), .resume 0 (.settled [] (.ofNat 5)),
          .start (.run (.delete fileKey)), .resume 1 (.settled [] (.ofNat 5)), .resume 1 (.settled [] (.ofNat 6)),
          .start (.run (.list [])), .resume 2 (.settled [] (.ofNat 7))]).any _ = true by decide +kernel)
    obtain ⟨log, keyPrefix, hanswered, hlisted⟩ := exists_failsToList hfails
    exact h w hreach _ _ _ hanswered hlisted

end BrowserMesh.Apps.CloudObjects
