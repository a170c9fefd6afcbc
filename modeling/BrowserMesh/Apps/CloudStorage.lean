import BrowserMesh.Js.Dict
import BrowserMesh.Library.Async

/-! # The key of a bucket

* **First use.**  The first operation starts the bootstrap that loads or creates the key, all others wait for it;
  `importKeyRaw` goes past it.  Both read the key store, wait, and write the key in memory and then the store.
* **Waiting.**  A read and a write of the key store take effect at some time before the call that waits for it
  goes on.
* **Law.**  As long as no call goes on to write a key where another one was put meanwhile, no key is used before it
  was stored, and the ciphertexts that are stored have different CIDs, a key that is in use stays
  (`bucketKey_stays`). -/

namespace BrowserMesh.Apps.CloudStorageBackend
open Js Async Transition

abbrev Bytes : Type := List (Fin 256)

/-- `TRANSFER_DEFAULTS.chunkSize`. -/
def CHUNK_SIZE : ℕ := 256 * 1024

/-- AES-256-GCM under a key and an IV, and the CID of a ciphertext. -/
structure StorageCrypto where
  aesEncrypt : Bytes → Bytes → Bytes → Bytes
  aesDecrypt : Bytes → Bytes → Bytes → Option Bytes
  computeCid : Bytes → JsString

/-- What the manifest has of a chunk. -/
structure ChunkEntry where
  cid : JsString
  iv : Bytes
  deriving DecidableEq

/-- What the promise of `#ensureReady` has come to. -/
inductive Readiness where
  | pending | ready | failed
  deriving DecidableEq

/-- The backend with its key store and its chunk store; `encryptedUnder` notes the keys that were used. -/
structure Storage where
  bucketKey : Option Bytes
  storedKey : Option Bytes
  ready : Option Readiness
  chunkStore : JsMap JsString Bytes
  encryptedUnder : List Bytes

/-- A backend on a key store that may have a key. -/
def new (storedKey : Option Bytes) : Storage := ⟨none, storedKey, none, .empty, []⟩

/-- The operations that wait for `#ensureReady`; `get`, `delete`, `list`, `head` and the manifest calls do nothing
to the key. -/
inductive Operation where
  | put (plaintext : Bytes)
  | exportKeyRaw
  | other
  deriving DecidableEq

inductive StorageCall where
  | run (op : Operation)
  | importKeyRaw (rawKeyBytes : Bytes)
  | peekKeyRaw
  /-- `#loadManifest` rejects during the bootstrap. -/
  | manifestFails

/-- Where a call waits; the first operation carries the bootstrap. -/
inductive StorageFrame where
  | loadingKey (op : Operation)
  | loadedKey (op : Operation) (doc : Option Bytes)
  | savingKey (op : Operation) (key : Bytes)
  | bootstrapped (op : Operation)
  | awaitingReady (op : Operation)
  | encrypting (plaintext : Bytes) (offset : ℕ) (chunks : List ChunkEntry) (iv ciphertext : Bytes)
  | savingManifest (plaintext : Bytes) (chunks : List ChunkEntry)
  | loadingImport (rawKeyBytes : Bytes)
  | peekedImport (rawKeyBytes : Bytes) (existing : Option Bytes)
  | savingImport (rawKeyBytes : Bytes)
  | savedImport (rawKeyBytes : Bytes)
  | loadingPeek
  deriving DecidableEq

/-- The key store is read or written, or the call goes on, with the random bytes that it draws. -/
inductive StorageEvent where
  | read
  | written
  | settled (random : Bytes)
  | failed

inductive StorageResult where
  | stored (plaintext : Bytes) (chunks : List ChunkEntry)
  | exported (key : Bytes)
  | imported (key : Bytes)
  | peeked (key : Option Bytes)
  | done
  | failed
  deriving DecidableEq

abbrev StorageTask : Type := Task StorageFrame StorageResult

section
variable (crypto : StorageCrypto)

/-- One round of `#encryptAndChunk`, up to its first `await`. -/
def encryptSlice (s : Storage) (plaintext : Bytes) (offset : ℕ) (chunks : List ChunkEntry) (iv : Bytes) :
    Storage × StorageTask :=
  match s.bucketKey with
  | none => (s, .returned .failed)
  | some key =>
      let ciphertext := crypto.aesEncrypt ((plaintext.drop offset).take CHUNK_SIZE) key iv
      ({ s with encryptedUnder := key :: s.encryptedUnder },
        .waiting (.encrypting plaintext offset chunks iv ciphertext))

/-- What an operation does once the backend is ready. -/
def perform (s : Storage) (random : Bytes) : Operation → Storage × StorageTask
  | .put plaintext => encryptSlice crypto s plaintext 0 [] random
  | .exportKeyRaw =>
      match s.bucketKey with
      | none => (s, .returned .failed)
      | some key => (s, .returned (.exported key))
  | .other => (s, .returned .done)

/-- The synchronous part of a call. -/
def startCall (s : Storage) : StorageCall → Storage × StorageTask
  | .run op =>
      match s.ready with
      | some _ => (s, .waiting (.awaitingReady op))
      | none =>
          ({ s with ready := some .pending },
            .waiting (if s.bucketKey.isSome then .bootstrapped op else .loadingKey op))
  | .importKeyRaw rawKeyBytes =>
      if rawKeyBytes.length ≠ 32 then (s, .returned .failed)
      else match s.bucketKey with
        | some key => (s, .waiting (.peekedImport rawKeyBytes (some key)))
        | none => (s, .waiting (.loadingImport rawKeyBytes))
  | .peekKeyRaw =>
      match s.bucketKey with
      | some key => (s, .returned (.peeked (some key)))
      | none => (s, .waiting .loadingPeek)
  | .manifestFails =>
      (if s.ready = some .pending then { s with ready := some .failed } else s, .returned .done)

/-- What follows an `await`. -/
def resumeCall (s : Storage) : StorageFrame → StorageEvent → Option (Storage × StorageTask)
  | .loadingKey op, .read => some (s, .waiting (.loadedKey op s.storedKey))
  | .loadedKey op (some key), .settled _ => some ({ s with bucketKey := some key }, .waiting (.bootstrapped op))
  | .loadedKey op none, .settled random =>
      some ({ s with bucketKey := some random }, .waiting (.savingKey op random))
  | .savingKey op key, .written => some ({ s with storedKey := some key }, .waiting (.bootstrapped op))
  | .loadingKey _, .failed => some ({ s with ready := some .failed }, .returned .failed)
  | .savingKey _ _, .failed => some ({ s with ready := some .failed }, .returned .failed)
  | .bootstrapped op, .settled _ =>
      some ({ s with ready := some (if s.ready = some .failed then .failed else .ready) },
        .waiting (.awaitingReady op))
  | .awaitingReady op, .settled random =>
      match s.ready with
      | some .ready => some (perform crypto s random op)
      | some .failed => some (s, .returned .failed)
      | _ => none
  | .encrypting plaintext offset chunks iv ciphertext, .settled random =>
      let cid := crypto.computeCid ciphertext
      let s := { s with chunkStore := s.chunkStore.set cid ciphertext }
      if offset + CHUNK_SIZE < plaintext.length then
        some (encryptSlice crypto s plaintext (offset + CHUNK_SIZE) (chunks ++ [⟨cid, iv⟩]) random)
      else some (s, .waiting (.savingManifest plaintext (chunks ++ [⟨cid, iv⟩])))
  | .encrypting _ _ _ _ _, .failed => some (s, .returned .failed)
  | .savingManifest plaintext chunks, .settled _ => some (s, .returned (.stored plaintext chunks))
  | .savingManifest _ _, .failed => some (s, .returned .failed)
  | .loadingImport rawKeyBytes, .read => some (s, .waiting (.peekedImport rawKeyBytes s.storedKey))
  | .loadingImport _, .failed => some (s, .returned .failed)
  | .peekedImport rawKeyBytes (some existing), .settled _ =>
      if existing ≠ rawKeyBytes then some (s, .returned .failed)
      else some ({ s with bucketKey := some existing }, .returned (.imported rawKeyBytes))
  | .peekedImport rawKeyBytes none, .settled _ =>
      some ({ s with bucketKey := some rawKeyBytes }, .waiting (.savingImport rawKeyBytes))
  | .savingImport rawKeyBytes, .written =>
      some ({ s with storedKey := some rawKeyBytes }, .waiting (.savedImport rawKeyBytes))
  | .savingImport _, .failed => some (s, .returned .failed)
  | .savedImport rawKeyBytes, .settled _ => some (s, .returned (.imported rawKeyBytes))
  | .loadingPeek, .read => some (s, .returned (.peeked s.storedKey))
  | .loadingPeek, .failed => some (s, .returned .failed)
  | _, _ => none

def program : Program Storage StorageCall StorageEvent StorageFrame StorageResult :=
  ⟨fun s call => some (startCall s call), resumeCall crypto⟩

abbrev StorageWorld : Type := World Storage StorageFrame StorageResult

/-- A backend on a key store that may have a key. -/
def machine (storedKey : Option Bytes) : Machine StorageWorld (Action StorageCall StorageEvent) :=
  (program crypto).machine (new storedKey)

/-- `#fetchAndDecrypt`. -/
def fetchAndDecrypt (s : Storage) : List ChunkEntry → Option Bytes
  | [] => some []
  | chunk :: chunks => do
      let ciphertext ← s.chunkStore.get? chunk.cid
      let key ← s.bucketKey
      let part ← crypto.aesDecrypt ciphertext key chunk.iv
      let rest ← fetchAndDecrypt s chunks
      return part ++ rest

/-! ### The law -/

/-- A key that was given out, reported as imported or used is the key in memory and in the store. -/
def KeyStays (w : StorageWorld) : Prop :=
  ∀ key, (Task.returned (.exported key) ∈ w.tasks ∨ Task.returned (.imported key) ∈ w.tasks ∨
    key ∈ w.shared.encryptedUnder) → w.shared.bucketKey = some key ∧ w.shared.storedKey = some key

def ObjectsDecrypt (w : StorageWorld) : Prop :=
  ∀ plaintext chunks, Task.returned (.stored plaintext chunks) ∈ w.tasks →
    fetchAndDecrypt crypto w.shared chunks = some plaintext

/-- No call goes on to put a key where there is another one, no key is used that is not stored, and no ciphertext has the
CID of another one that is stored. -/
def mayGoOn (s : Storage) : StorageFrame → Prop
  | .loadedKey _ none => s.bucketKey = none
  | .peekedImport rawKeyBytes none => s.bucketKey = none ∨ s.bucketKey = some rawKeyBytes
  | .peekedImport rawKeyBytes (some existing) => existing = rawKeyBytes → s.storedKey = some existing
  | .awaitingReady op => op ≠ .other → s.ready = some .ready → s.storedKey = s.bucketKey
  | .encrypting _ _ _ _ ciphertext => ∀ c ∈ s.chunkStore.get? (crypto.computeCid ciphertext), c = ciphertext
  | _ => True

instance (s : Storage) : DecidablePred (mayGoOn crypto s)
  | .loadedKey _ none => inferInstanceAs (Decidable (s.bucketKey = none))
  | .loadedKey _ (some _) => inferInstanceAs (Decidable True)
  | .peekedImport rawKeyBytes none =>
      inferInstanceAs (Decidable (s.bucketKey = none ∨ s.bucketKey = some rawKeyBytes))
  | .peekedImport rawKeyBytes (some existing) =>
      inferInstanceAs (Decidable (existing = rawKeyBytes → s.storedKey = some existing))
  | .awaitingReady op => inferInstanceAs (Decidable (op ≠ .other → s.ready = some .ready → s.storedKey = s.bucketKey))
  | .loadingKey _ => inferInstanceAs (Decidable True)
  | .savingKey _ _ => inferInstanceAs (Decidable True)
  | .bootstrapped _ => inferInstanceAs (Decidable True)
  | .encrypting _ _ _ _ ciphertext =>
      inferInstanceAs (Decidable (∀ c ∈ s.chunkStore.get? (crypto.computeCid ciphertext), c = ciphertext))
  | .savingManifest _ _ => inferInstanceAs (Decidable True)
  | .loadingImport _ => inferInstanceAs (Decidable True)
  | .savingImport _ => inferInstanceAs (Decidable True)
  | .savedImport _ => inferInstanceAs (Decidable True)
  | .loadingPeek => inferInstanceAs (Decidable True)

def Kept : StorageWorld → Action StorageCall StorageEvent → Prop :=
  Program.Meets (fun _ _ => True) fun s frame _ => mayGoOn crypto s frame

instance (w : StorageWorld) : DecidablePred (Kept crypto w) :=
  inferInstanceAs (DecidablePred (Program.Meets (fun _ _ => True) (fun s frame _ => mayGoOn crypto s frame) w))

/-! ### What is kept -/

structure Sound (s : Storage) : Prop where
  /-- The key in the store is the one in memory. -/
  agree : ∀ key, s.storedKey = some key → s.bucketKey = none ∨ s.bucketKey = some key
  used : ∀ key ∈ s.encryptedUnder, s.bucketKey = some key ∧ s.storedKey = some key

/-- What a step may change: keys and chunks that are there stay, and the store has no key before the memory. -/
structure Later (s s' : Storage) : Prop where
  bucketKey : ∀ key, s.bucketKey = some key → s'.bucketKey = some key
  storedKey : ∀ key, s.storedKey = some key → s'.storedKey = some key
  unset : s'.bucketKey = none → s.bucketKey = none ∧ s'.storedKey = s.storedKey
  chunks : ∀ cid ciphertext, s.chunkStore.get? cid = some ciphertext → s'.chunkStore.get? cid = some ciphertext

def InUse (s : Storage) (key : Bytes) : Prop := s.bucketKey = some key ∧ s.storedKey = some key

def Relies (s : Storage) : StorageTask → Prop
  | .waiting (.loadedKey _ none) => s.bucketKey = none → s.storedKey = none
  | .waiting (.loadedKey _ (some key)) => s.storedKey = some key
  | .waiting (.savingKey _ key) => s.bucketKey = some key
  | .waiting (.encrypting plaintext offset chunks iv ciphertext) => ∃ key, InUse s key ∧
      fetchAndDecrypt crypto s chunks = some (plaintext.take offset) ∧
      ciphertext = crypto.aesEncrypt ((plaintext.drop offset).take CHUNK_SIZE) key iv
  | .waiting (.savingManifest plaintext chunks) => fetchAndDecrypt crypto s chunks = some plaintext
  | .waiting (.peekedImport _ none) => s.bucketKey = none → s.storedKey = none
  | .waiting (.peekedImport _ (some key)) => s.bucketKey = some key ∨ s.storedKey = some key
  | .waiting (.savingImport key) => s.bucketKey = some key
  | .waiting (.savedImport key) => InUse s key
  | .returned (.exported key) => InUse s key
  | .returned (.imported key) => InUse s key
  | .returned (.stored plaintext chunks) => fetchAndDecrypt crypto s chunks = some plaintext
  | _ => True

variable {crypto} {s s' : Storage}

theorem Later.refl (s : Storage) : Later s s := ⟨fun _ h => h, fun _ h => h, fun h => ⟨h, rfl⟩, fun _ _ h => h⟩

theorem Later.trans {s'' : Storage} (h : Later s s') (h' : Later s' s'') : Later s s'' where
  bucketKey key hkey := h'.bucketKey key (h.bucketKey key hkey)
  storedKey key hkey := h'.storedKey key (h.storedKey key hkey)
  unset hnone := ⟨(h.unset (h'.unset hnone).1).1, (h'.unset hnone).2.trans (h.unset (h'.unset hnone).1).2⟩
  chunks cid c hc := h'.chunks cid c (h.chunks cid c hc)

variable {key : Bytes}

theorem Later.inUse (h : Later s s') (hkey : InUse s key) : InUse s' key :=
  ⟨h.bucketKey key hkey.1, h.storedKey key hkey.2⟩

/-- A key is put in memory where there is none or the same. -/
theorem Later.setKey (h : s.bucketKey = none ∨ s.bucketKey = some key) :
    Later s { s with bucketKey := some key } := by
  refine ⟨fun key' hkey' => ?_, fun _ h => h, fun hnone => (by cases hnone), fun _ _ h => h⟩
  rcases h with hnone | hsome
  · cases hnone.symm.trans hkey'
  · exact hsome.symm.trans hkey'

theorem Later.storeKey (hsound : Sound s) (h : s.bucketKey = some key) :
    Later s { s with storedKey := some key } := by
  refine ⟨fun _ h => h, fun key' hkey' => ?_, fun hnone => (by cases h.symm.trans hnone), fun _ _ h => h⟩
  rcases hsound.agree key' hkey' with hnone | hsome
  · cases h.symm.trans hnone
  · exact h.symm.trans hsome

variable {chunks : List ChunkEntry} {plaintext : Bytes}

theorem fetchAndDecrypt_later (h : Later s s') (hfetch : fetchAndDecrypt crypto s chunks = some plaintext) :
    fetchAndDecrypt crypto s' chunks = some plaintext := by
  induction chunks generalizing plaintext with
  | nil => exact hfetch
  | cons chunk chunks ih =>
      simp only [fetchAndDecrypt, Option.bind_eq_bind, Option.bind_eq_some_iff] at hfetch ⊢
      obtain ⟨ciphertext, hciphertext, key, hkey, part, hpart, rest, hrest, hplaintext⟩ := hfetch
      exact ⟨ciphertext, h.chunks _ _ hciphertext, key, h.bucketKey key hkey, part, hpart, rest, ih hrest, hplaintext⟩

theorem fetchAndDecrypt_snoc {chunk : ChunkEntry} {ciphertext part : Bytes}
    (hfetch : fetchAndDecrypt crypto s chunks = some plaintext) (hchunk : s.chunkStore.get? chunk.cid = some ciphertext)
    (hkey : s.bucketKey = some key) (hpart : crypto.aesDecrypt ciphertext key chunk.iv = some part) :
    fetchAndDecrypt crypto s (chunks ++ [chunk]) = some (plaintext ++ part) := by
  induction chunks generalizing plaintext with
  | nil =>
      obtain rfl := Option.some.inj hfetch
      simp only [List.nil_append, fetchAndDecrypt, Option.bind_eq_bind, Option.bind_eq_some_iff]
      exact ⟨ciphertext, hchunk, key, hkey, part, hpart, [], rfl, congrArg some (List.append_nil part)⟩
  | cons chunk' chunks ih =>
      simp only [List.cons_append, fetchAndDecrypt, Option.bind_eq_bind, Option.bind_eq_some_iff] at hfetch ⊢
      obtain ⟨ciphertext', hciphertext', key', hkey', part', hpart', rest, hrest, hplaintext⟩ := hfetch
      refine ⟨ciphertext', hciphertext', key', hkey', part', hpart', rest ++ part, ih hrest, ?_⟩
      obtain rfl := Option.some.inj hplaintext
      exact congrArg some (List.append_assoc part' rest part).symm

variable {t : StorageTask}

theorem Relies.later (h : Later s s') (ht : Relies crypto s t) : Relies crypto s' t := by
  have hunset : (s.bucketKey = none → s.storedKey = none) → s'.bucketKey = none → s'.storedKey = none :=
    fun hnone hnone' => (h.unset hnone').2.trans (hnone (h.unset hnone').1)
  cases t with
  | waiting frame =>
      cases frame with
      | loadedKey op doc =>
          cases doc with
          | none => exact hunset ht
          | some key => exact h.storedKey key ht
      | savingKey op key => exact h.bucketKey key ht
      | encrypting plaintext offset chunks iv ciphertext =>
          obtain ⟨key, hkey, hfetch, hciphertext⟩ := ht
          exact ⟨key, h.inUse hkey, fetchAndDecrypt_later h hfetch, hciphertext⟩
      | savingManifest plaintext chunks => exact fetchAndDecrypt_later h ht
      | peekedImport rawKeyBytes existing =>
          cases existing with
          | none => exact hunset ht
          | some key => exact ht.imp (h.bucketKey key) (h.storedKey key)
      | savingImport key => exact h.bucketKey key ht
      | savedImport key => exact h.inUse ht
      | loadingKey op => exact trivial
      | bootstrapped op => exact trivial
      | awaitingReady op => exact trivial
      | loadingImport rawKeyBytes => exact trivial
      | loadingPeek => exact trivial
  | returned result =>
      cases result with
      | stored plaintext chunks => exact fetchAndDecrypt_later h ht
      | exported key => exact h.inUse ht
      | imported key => exact h.inUse ht
      | peeked key => exact trivial
      | done => exact trivial
      | failed => exact trivial

/-- A step from a sound state, with what it may change and what its call relies on from then on. -/
def StepOk (crypto : StorageCrypto) (s : Storage) (r : Storage × StorageTask) : Prop :=
  Sound r.1 ∧ Later s r.1 ∧ Relies crypto r.1 r.2

theorem stepOk_ready (h : Sound s) (ready : Option Readiness) (ht : Relies crypto s t) :
    StepOk crypto s ({ s with ready }, t) := by
  have hlater : Later s { s with ready } := ⟨fun _ h => h, fun _ h => h, fun h => ⟨h, rfl⟩, fun _ _ h => h⟩
  exact ⟨⟨h.agree, h.used⟩, hlater, ht.later hlater⟩

theorem stepOk_setKey (h : Sound s) (hfree : s.bucketKey = none ∨ s.bucketKey = some key)
    (hstored : ∀ key', s.storedKey = some key' → key' = key) (ht : Relies crypto { s with bucketKey := some key } t) :
    StepOk crypto s ({ s with bucketKey := some key }, t) := by
  have hlater := Later.setKey hfree
  refine ⟨⟨fun key' hkey' => ?_, fun key' hkey' => hlater.inUse (h.used key' hkey')⟩, hlater, ht⟩
  rw [hstored key' hkey']
  exact Or.inr rfl

theorem stepOk_storeKey (h : Sound s) (hkey : s.bucketKey = some key)
    (ht : Relies crypto { s with storedKey := some key } t) : StepOk crypto s ({ s with storedKey := some key }, t) := by
  have hlater := Later.storeKey h hkey
  refine ⟨⟨fun key' hkey' => Or.inr ?_, fun key' hkey' => hlater.inUse (h.used key' hkey')⟩, hlater, ht⟩
  exact hkey.trans hkey'

theorem stepOk_encryptSlice (h : Sound s) {iv : Bytes} {offset : ℕ}
    (hagree : s.storedKey = s.bucketKey) (hfetch : fetchAndDecrypt crypto s chunks = some (plaintext.take offset)) :
    StepOk crypto s (encryptSlice crypto s plaintext offset chunks iv) := by
  cases s with
  | mk bucketKey storedKey ready chunkStore encryptedUnder =>
      cases bucketKey with
      | none => exact ⟨h, .refl _, trivial⟩
      | some key =>
          have hlater : Later ⟨some key, storedKey, ready, chunkStore, encryptedUnder⟩
              ⟨some key, storedKey, ready, chunkStore, key :: encryptedUnder⟩ :=
            ⟨fun _ h => h, fun _ h => h, fun h => ⟨h, rfl⟩, fun _ _ h => h⟩
          refine ⟨⟨h.agree, fun key' hkey' => ?_⟩, hlater, key, ⟨rfl, hagree⟩,
            fetchAndDecrypt_later hlater hfetch, rfl⟩
          rcases List.mem_cons.mp hkey' with rfl | hkey'
          · exact ⟨rfl, hagree⟩
          · exact h.used key' hkey'

theorem stepOk_perform (h : Sound s) (op : Operation) (random : Bytes)
    (hagree : op ≠ .other → s.storedKey = s.bucketKey) : StepOk crypto s (perform crypto s random op) := by
  cases op with
  | put plaintext => exact stepOk_encryptSlice h (hagree fun hop => (by cases hop)) rfl
  | other => exact ⟨h, .refl s, trivial⟩
  | exportKeyRaw =>
      unfold perform
      cases hkey : s.bucketKey with
      | none => exact ⟨h, .refl s, trivial⟩
      | some key => exact ⟨h, .refl s, hkey, (hagree fun hop => (by cases hop)).trans hkey⟩

theorem stepOk_start (h : Sound s) (call : StorageCall) : StepOk crypto s (startCall s call) := by
  cases call with
  | run op =>
      have hop : Relies crypto s (.waiting (if s.bucketKey.isSome then .bootstrapped op else .loadingKey op)) := by
        split_ifs
        · exact trivial
        · exact trivial
      simp only [startCall]
      split
      · exact ⟨h, .refl s, trivial⟩
      · exact stepOk_ready h _ hop
  | importKeyRaw rawKeyBytes =>
      simp only [startCall]
      split_ifs
      · exact ⟨h, .refl s, trivial⟩
      · split
        · exact ⟨h, .refl s, Or.inl (by assumption)⟩
        · exact ⟨h, .refl s, trivial⟩
  | peekKeyRaw =>
      simp only [startCall]
      split
      · exact ⟨h, .refl s, trivial⟩
      · exact ⟨h, .refl s, trivial⟩
  | manifestFails =>
      have hdone : Relies crypto s (.returned .done) := trivial
      simp only [startCall]
      split_ifs
      · exact stepOk_ready h _ hdone
      · exact ⟨h, .refl s, trivial⟩

theorem stepOk_encrypted (hdecrypt : ∀ data key iv, crypto.aesDecrypt (crypto.aesEncrypt data key iv) key iv = some data)
    (h : Sound s) {iv ciphertext random : Bytes} {offset : ℕ}
    (hmay : mayGoOn crypto s (.encrypting plaintext offset chunks iv ciphertext))
    (hrelies : Relies crypto s (.waiting (.encrypting plaintext offset chunks iv ciphertext))) {r : Storage × StorageTask}
    (hr : resumeCall crypto s (.encrypting plaintext offset chunks iv ciphertext) (.settled random) = some r) :
    StepOk crypto s r := by
  obtain ⟨key, huse, hfetch, rfl⟩ := hrelies
  let ciphertext := crypto.aesEncrypt ((plaintext.drop offset).take CHUNK_SIZE) key iv
  let s₁ : Storage := { s with chunkStore := s.chunkStore.set (crypto.computeCid ciphertext) ciphertext }
  have hlater : Later s s₁ := by
    refine ⟨fun _ h => h, fun _ h => h, fun h => ⟨h, rfl⟩, fun cid c hc => ?_⟩
    change (s.chunkStore.set _ _).get? cid = some c
    rw [JsMap.get?_set]
    split_ifs with heq
    · exact congrArg some (hmay c (heq ▸ hc)).symm
    · exact hc
  have hsound : Sound s₁ := ⟨h.agree, h.used⟩
  have hchunks : fetchAndDecrypt crypto s₁ (chunks ++ [⟨crypto.computeCid ciphertext, iv⟩]) =
      some (plaintext.take (offset + CHUNK_SIZE)) := by
    rw [List.take_add]
    refine fetchAndDecrypt_snoc (fetchAndDecrypt_later hlater hfetch) ?_ huse.1 (hdecrypt _ key iv)
    exact (JsMap.get?_set _ _ _ _).trans (if_pos rfl)
  change (if offset + CHUNK_SIZE < plaintext.length then
      some (encryptSlice crypto s₁ plaintext (offset + CHUNK_SIZE) (chunks ++ [⟨crypto.computeCid ciphertext, iv⟩]) random)
    else some (s₁, .waiting (.savingManifest plaintext (chunks ++ [⟨crypto.computeCid ciphertext, iv⟩])))) = some r at hr
  split_ifs at hr with hmore
  · obtain rfl := Option.some.inj hr
    have hslice : StepOk crypto s₁ (encryptSlice crypto s₁ plaintext (offset + CHUNK_SIZE)
        (chunks ++ [⟨crypto.computeCid ciphertext, iv⟩]) random) :=
      stepOk_encryptSlice hsound ((hlater.inUse huse).2.trans (hlater.inUse huse).1.symm) hchunks
    obtain ⟨hnext, hlater', hrelies⟩ := hslice
    exact ⟨hnext, hlater.trans hlater', hrelies⟩
  · obtain rfl := Option.some.inj hr
    refine ⟨hsound, hlater, ?_⟩
    rwa [List.take_of_length_le (not_lt.mp hmore)] at hchunks

theorem stepOk_resume (hdecrypt : ∀ data key iv, crypto.aesDecrypt (crypto.aesEncrypt data key iv) key iv = some data)
    (h : Sound s) {frame : StorageFrame} {event : StorageEvent}
    (hrelies : Relies crypto s (.waiting frame)) (hmay : mayGoOn crypto s frame) {r : Storage × StorageTask}
    (hr : resumeCall crypto s frame event = some r) : StepOk crypto s r := by
  have hfailed : Relies crypto s (.returned .failed) := trivial
  have hunset : (s.bucketKey = none → s.storedKey = none) → ∀ key, s.bucketKey = none ∨ s.bucketKey = some key →
      ∀ key', s.storedKey = some key' → key' = key := by
    intro hnone key hfree key' hkey'
    rcases hfree with hfree | hfree
    · cases (hnone hfree).symm.trans hkey'
    · rcases h.agree key' hkey' with hnone' | hsome
      · cases hfree.symm.trans hnone'
      · exact Option.some.inj (hsome.symm.trans hfree)
  cases frame with
  | loadingKey op =>
      cases event with
      | read =>
          cases hr
          refine ⟨h, .refl s, ?_⟩
          cases hstored : s.storedKey with
          | none => exact fun _ => hstored
          | some key => exact hstored
      | failed =>
          cases hr
          exact stepOk_ready h _ hfailed
      | written => cases hr
      | settled random => cases hr
  | loadedKey op doc =>
      cases event with
      | settled random =>
          cases doc with
          | none =>
              cases hr
              exact stepOk_setKey h (Or.inl hmay) (hunset hrelies random (Or.inl hmay)) rfl
          | some key =>
              cases hr
              exact stepOk_setKey h (h.agree key hrelies)
                (fun key' hkey' => Option.some.inj (hkey'.symm.trans hrelies)) trivial
      | read => cases doc <;> cases hr
      | written => cases doc <;> cases hr
      | failed => cases doc <;> cases hr
  | savingKey op key =>
      cases event with
      | written =>
          cases hr
          exact stepOk_storeKey h hrelies trivial
      | failed =>
          cases hr
          exact stepOk_ready h _ hfailed
      | read => cases hr
      | settled random => cases hr
  | bootstrapped op =>
      have hready : Relies crypto s (.waiting (.awaitingReady op)) := trivial
      cases event with
      | settled random =>
          cases hr
          exact stepOk_ready h _ hready
      | read => cases hr
      | written => cases hr
      | failed => cases hr
  | awaitingReady op =>
      cases event with
      | settled random =>
          simp only [resumeCall] at hr
          split at hr
          · cases hr
            exact stepOk_perform h op random fun hop => hmay hop (by assumption)
          · cases hr
            exact ⟨h, .refl s, trivial⟩
          · cases hr
      | read => cases hr
      | written => cases hr
      | failed => cases hr
  | encrypting plaintext offset chunks iv ciphertext =>
      cases event with
      | settled random => exact stepOk_encrypted hdecrypt h hmay hrelies hr
      | failed =>
          cases hr
          exact ⟨h, .refl s, trivial⟩
      | read => cases hr
      | written => cases hr
  | savingManifest plaintext chunks =>
      cases event with
      | settled random =>
          cases hr
          exact ⟨h, .refl s, hrelies⟩
      | failed =>
          cases hr
          exact ⟨h, .refl s, trivial⟩
      | read => cases hr
      | written => cases hr
  | loadingImport rawKeyBytes =>
      cases event with
      | read =>
          cases hr
          refine ⟨h, .refl s, ?_⟩
          cases hstored : s.storedKey with
          | none => exact fun _ => hstored
          | some key => exact Or.inr hstored
      | failed =>
          cases hr
          exact ⟨h, .refl s, trivial⟩
      | written => cases hr
      | settled random => cases hr
  | peekedImport rawKeyBytes existing =>
      cases event with
      | settled random =>
          cases existing with
          | none =>
              cases hr
              exact stepOk_setKey h hmay (hunset hrelies rawKeyBytes hmay) rfl
          | some key =>
              simp only [resumeCall] at hr
              split_ifs at hr with hne
              · cases hr
                exact ⟨h, .refl s, trivial⟩
              · cases hr
                obtain rfl := not_not.mp hne
                have hstored : s.storedKey = some key := hmay rfl
                exact stepOk_setKey h (h.agree key hstored)
                  (fun key' hkey' => Option.some.inj (hkey'.symm.trans hstored)) ⟨rfl, hstored⟩
      | read => cases existing <;> cases hr
      | written => cases existing <;> cases hr
      | failed => cases existing <;> cases hr
  | savingImport rawKeyBytes =>
      cases event with
      | written =>
          cases hr
          exact stepOk_storeKey h hrelies ⟨hrelies, rfl⟩
      | failed =>
          cases hr
          exact ⟨h, .refl s, trivial⟩
      | read => cases hr
      | settled random => cases hr
  | savedImport rawKeyBytes =>
      cases event with
      | settled random =>
          cases hr
          exact ⟨h, .refl s, hrelies⟩
      | read => cases hr
      | written => cases hr
      | failed => cases hr
  | loadingPeek =>
      cases event with
      | read =>
          cases hr
          exact ⟨h, .refl s, trivial⟩
      | failed =>
          cases hr
          exact ⟨h, .refl s, trivial⟩
      | written => cases hr
      | settled random => cases hr

/-- In a run in which no call goes on to put a key in memory where another one was put meanwhile, no key is used, given
out or reported before it is stored, and no two of the stored ciphertexts have one CID, a key that is in use stays and
what was stored decrypts. -/
theorem bucketKey_stays (crypto : StorageCrypto)
    (hdecrypt : ∀ data key iv, crypto.aesDecrypt (crypto.aesEncrypt data key iv) key iv = some data)
    (storedKey : Option Bytes) (w : StorageWorld)
    (h : (machine crypto storedKey).Reach (Kept crypto) w) : KeyStays w ∧ ObjectsDecrypt crypto w := by
  have hinv : Sound w.shared ∧ ∀ t ∈ w.tasks, Relies crypto w.shared t := by
    refine h.invariant (I := fun w => Sound w.shared ∧ ∀ t ∈ w.tasks, Relies crypto w.shared t) ?_ ?_
    · refine ⟨⟨fun _ _ => Or.inl rfl, fun key hkey => (by cases hkey)⟩, ?_⟩
      exact fun t ht => (by cases ht)
    · rintro w a w' ⟨hsound, htasks⟩ hok hs
      obtain ⟨hsound', -, htasks'⟩ := Program.step_of_meets (p := program crypto) (R := Later) (J := Relies crypto)
        (fun s s' t hlater ht => Relies.later hlater ht)
        (fun s call r hsound _ hr => by
          obtain rfl := Option.some.inj hr
          exact stepOk_start hsound call)
        (fun s frame event r hsound hrelies hmay hr => stepOk_resume hdecrypt hsound hrelies hmay hr)
        hsound htasks hok hs
      exact ⟨hsound', htasks'⟩
  refine ⟨fun key hkey => ?_, fun plaintext chunks ht => hinv.2 _ ht⟩
  rcases hkey with ht | ht | hused
  · exact hinv.2 _ ht
  · exact hinv.2 _ ht
  · exact hinv.1.used key hused

theorem byte_le_unit : 256 ≤ 65536 := by decide

/-- A cipher whose ciphertext begins with the key and the IV, and a CID that is the ciphertext itself. -/
def plainCrypto : StorageCrypto where
  aesEncrypt data key iv := key ++ iv ++ data
  aesDecrypt ciphertext key iv :=
    if key ++ iv <+: ciphertext then some (ciphertext.drop (key ++ iv).length) else none
  computeCid ciphertext := ciphertext.map (Fin.castLE byte_le_unit)

theorem plainCrypto_decrypts (data key iv : Bytes) :
    plainCrypto.aesDecrypt (plainCrypto.aesEncrypt data key iv) key iv = some data := by
  change (if key ++ iv <+: key ++ iv ++ data then some ((key ++ iv ++ data).drop (key ++ iv).length) else none) = _
  rw [if_pos (List.prefix_append _ _), List.drop_left]

theorem plainCrypto_injective : Function.Injective plainCrypto.computeCid :=
  List.map_injective_iff.mpr fun _ _ h => Fin.castLE_injective _ h

/-- A received key, and a generated one. -/
def received : Bytes := List.replicate 32 7

def generated : Bytes := List.replicate 32 8

/-- A key is imported, and an object is put and the key exported afterwards. -/
def importedFirst : List (Action StorageCall StorageEvent) :=
  [.start (.importKeyRaw received), .resume 0 .read, .resume 0 (.settled []), .resume 0 .written,
    .resume 0 (.settled []), .start (.run (.put [1, 2])), .resume 1 (.settled []), .start (.run .exportKeyRaw),
    .resume 1 (.settled [9]), .resume 2 (.settled []), .resume 1 (.settled []), .resume 1 (.settled [])]

theorem bucketKey_stays_imported : ∃ w chunks,
    (machine plainCrypto none).run (Kept plainCrypto) (machine plainCrypto none).init importedFirst = some w ∧
      Task.returned (.stored [1, 2] chunks) ∈ w.tasks ∧ Task.returned (.exported received) ∈ w.tasks ∧
      w.shared.storedKey = some received ∧ fetchAndDecrypt plainCrypto w.shared chunks = some [1, 2] := by
  let chunks : List ChunkEntry := [⟨plainCrypto.computeCid (received ++ [9] ++ [1, 2]), [9]⟩]
  obtain ⟨w, hw, hreach, hstored, hexported⟩ := Machine.exists_of_run (P := fun w : StorageWorld =>
      Task.returned (.stored [1, 2] chunks) ∈ w.tasks ∧ Task.returned (.exported received) ∈ w.tasks)
    (show ((machine plainCrypto none).run (Kept plainCrypto) (machine plainCrypto none).init importedFirst).any _ = true
      by decide +kernel)
  obtain ⟨hkey, hobjects⟩ := bucketKey_stays plainCrypto plainCrypto_decrypts none w hreach
  exact ⟨w, chunks, hw, hstored, hexported, (hkey received (Or.inl hexported)).2, hobjects _ chunks hstored⟩

/-- The bootstrap replaces a key that was imported meanwhile, an import replaces a key that was created meanwhile, and a
key that is not yet stored is exported. -/
theorem bucketKey_changes :
    (¬ ∀ w, (machine plainCrypto none).Reach (fun _ _ => True) w → KeyStays w) ∧
    (¬ ∀ w, (machine plainCrypto none).Reach (fun _ _ => True) w → ObjectsDecrypt plainCrypto w) ∧
    ¬ ∀ w, (machine plainCrypto none).Reach (fun _ _ => True) w → ∀ key,
      Task.returned (.exported key) ∈ w.tasks → w.shared.storedKey = some key := by
  refine ⟨fun h => ?_, fun h => ?_, fun h => ?_⟩
  · obtain ⟨w, -, hreach, himported, hkey⟩ := Machine.exists_of_run (P := fun w : StorageWorld =>
        Task.returned (.imported received) ∈ w.tasks ∧ w.shared.bucketKey = some generated)
      (show ((machine plainCrypto none).run (fun _ _ => True) (machine plainCrypto none).init
        [.start (.run .exportKeyRaw), .start (.importKeyRaw received), .resume 0 .read, .resume 1 .read,
          .resume 1 (.settled []), .resume 1 .written, .resume 1 (.settled []),
          .resume 0 (.settled generated)]).any _ = true by decide +kernel)
    obtain ⟨hkept, -⟩ := h w hreach received (Or.inr (Or.inl himported))
    rw [hkey] at hkept
    exact absurd hkept (by decide)
  · let chunks : List ChunkEntry := [⟨plainCrypto.computeCid (generated ++ [9] ++ [1]), [9]⟩]
    obtain ⟨w, -, hreach, hstored, hlost⟩ := Machine.exists_of_run (P := fun w : StorageWorld =>
        Task.returned (.stored [1] chunks) ∈ w.tasks ∧ fetchAndDecrypt plainCrypto w.shared chunks = none)
      (show ((machine plainCrypto none).run (fun _ _ => True) (machine plainCrypto none).init
        [.start (.importKeyRaw received), .start (.run (.put [1])), .resume 0 .read, .resume 1 .read,
          .resume 1 (.settled generated), .resume 1 .written, .resume 1 (.settled []), .resume 1 (.settled [9]),
          .resume 1 (.settled []), .resume 1 (.settled []), .resume 0 (.settled [])]).any _ = true by decide +kernel)
    cases (h w hreach _ _ hstored).symm.trans hlost
  · obtain ⟨w, -, hreach, hexported, hstored⟩ := Machine.exists_of_run (P := fun w : StorageWorld =>
        Task.returned (.exported received) ∈ w.tasks ∧ w.shared.storedKey = none)
      (show ((machine plainCrypto none).run (fun _ _ => True) (machine plainCrypto none).init
        [.start (.importKeyRaw received), .resume 0 .read, .resume 0 (.settled []), .start (.run .exportKeyRaw),
          .resume 1 (.settled []), .resume 1 (.settled [])]).any _ = true by decide +kernel)
    cases hstored.symm.trans (h w hreach received hexported)

end
end BrowserMesh.Apps.CloudStorageBackend
