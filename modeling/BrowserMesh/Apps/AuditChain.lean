import BrowserMesh.Js.Number
import BrowserMesh.Js.Text
import BrowserMesh.Library.Async
import BrowserMesh.Library.Guards

/-! # The audit chain under concurrent appends

* **The chain.**  `verify` checks sequence, hash link and signature entry by entry; `verify_concat` says
  when one more entry keeps the chain valid.
* **Appending.**  `append` reads the length and hashes the last entry, waits for the digest, waits for the
  signature, and pushes.
* **Overlap.**  What is pushed is always what the resolved calls returned.  The chain stays valid exactly
  as long as no call pushes an entry whose position was taken meanwhile (`chain_valid_iff`). -/

namespace BrowserMesh.Apps
open Js Guards Async Transition

/-- `GENESIS_HASH`, 32 zero bytes. -/
def GENESIS_HASH : List (Fin 256) := List.replicate 32 0

/-- The fields of an `AuditEntry` that are signed. -/
structure SignedFields (δ : Type) where
  sequence : ℕ
  authorPodId : JsString
  operation : JsString
  data : δ
  previousHash : List (Fin 256)
  timestamp : JsNumber

structure AuditEntry (δ : Type) extends SignedFields δ where
  signature : Option (List (Fin 256))

/-- SHA-256 and Ed25519 over the canonical JSON of the signed fields, with the key of the author. -/
structure AuditCrypto (δ : Type) where
  hash : SignedFields δ → List (Fin 256)
  verify : JsString → SignedFields δ → List (Fin 256) → Bool

namespace AuditChain
variable {δ : Type} (crypto : AuditCrypto δ)

/-- The checks of `verify` on the entry at index `i`. -/
def verifyEntry (i : ℕ) (expectedPrev : List (Fin 256)) (entry : AuditEntry δ) :
    Except (JsString × ℕ) Unit := do
  failIf (entry.sequence ≠ i) (js "sequence mismatch", i)
  failIf (entry.previousHash ≠ expectedPrev) (js "hash chain broken", i)
  let signature ← required (js "missing signature", i) entry.signature
  failIf (crypto.verify entry.authorPodId entry.toSignedFields signature = false)
    (js "invalid signature", i)

/-- The loop of `verify` from index `i` on, where the entry before has the hash `expectedPrev`. -/
def verifyFrom (i : ℕ) (expectedPrev : List (Fin 256)) : List (AuditEntry δ) → Except (JsString × ℕ) Unit
  | [] => .ok ()
  | entry :: entries => do
      verifyEntry crypto i expectedPrev entry
      verifyFrom (i + 1) (crypto.hash entry.toSignedFields) entries

/-- `verify`. -/
def verify (entries : List (AuditEntry δ)) : Except (JsString × ℕ) Unit :=
  verifyFrom crypto 0 GENESIS_HASH entries

/-- The hash that the next entry has to name. -/
def headHash (entries : List (AuditEntry δ)) : List (Fin 256) :=
  entries.getLast?.elim GENESIS_HASH fun entry => crypto.hash entry.toSignedFields

variable {crypto}

theorem verifyEntry_eq_ok {i : ℕ} {expectedPrev : List (Fin 256)} {entry : AuditEntry δ} :
    verifyEntry crypto i expectedPrev entry = .ok () ↔
      entry.sequence = i ∧ entry.previousHash = expectedPrev ∧
        ∃ signature, entry.signature = some signature ∧
          crypto.verify entry.authorPodId entry.toSignedFields signature = true := by
  simp only [verifyEntry, bind_eq_ok, failIf_eq_ok, required_eq_ok, not_not, Bool.not_eq_false]
  constructor
  · rintro ⟨-, hseq, -, hprev, signature, hsig, hok⟩
    exact ⟨hseq, hprev, signature, hsig, hok⟩
  · rintro ⟨hseq, hprev, signature, hsig, hok⟩
    exact ⟨(), hseq, (), hprev, signature, hsig, hok⟩

theorem verifyFrom_concat (i : ℕ) (prev : List (Fin 256)) (entries : List (AuditEntry δ))
    (entry : AuditEntry δ) :
    verifyFrom crypto i prev (entries ++ [entry]) = .ok () ↔
      verifyFrom crypto i prev entries = .ok () ∧
        verifyEntry crypto (i + entries.length)
          (entries.getLast?.elim prev fun e => crypto.hash e.toSignedFields) entry = .ok () := by
  induction entries generalizing i prev with
  | nil =>
      simp only [List.nil_append, verifyFrom, bind_eq_ok]
      constructor
      · intro h
        obtain ⟨u, hentry, -⟩ := h
        exact ⟨trivial, hentry⟩
      · rintro ⟨-, hentry⟩
        exact ⟨(), hentry, trivial⟩
  | cons e entries ih =>
      have hlast : ((e :: entries).getLast?.elim prev fun e => crypto.hash e.toSignedFields) =
          entries.getLast?.elim (crypto.hash e.toSignedFields) fun e => crypto.hash e.toSignedFields := by
        rw [List.getLast?_cons]
        cases entries.getLast? <;> rfl
      have hlen : i + (e :: entries).length = i + 1 + entries.length := by
        rw [List.length_cons]; omega
      simp only [List.cons_append, verifyFrom, bind_eq_ok, ih, hlast, hlen]
      constructor
      · rintro ⟨u, hentry, hrest, hnew⟩
        exact ⟨⟨u, hentry, hrest⟩, hnew⟩
      · rintro ⟨⟨u, hentry, hrest⟩, hnew⟩
        exact ⟨u, hentry, hrest, hnew⟩

/-- One more entry keeps the chain valid when it has the next position, names the last hash and is
signed. -/
theorem verify_concat (entries : List (AuditEntry δ)) (entry : AuditEntry δ) :
    verify crypto (entries ++ [entry]) = .ok () ↔
      verify crypto entries = .ok () ∧ entry.sequence = entries.length ∧
        entry.previousHash = headHash crypto entries ∧
          ∃ signature, entry.signature = some signature ∧
            crypto.verify entry.authorPodId entry.toSignedFields signature = true := by
  rw [verify, verifyFrom_concat, verifyEntry_eq_ok, Nat.zero_add]
  rfl

/-! ### Appending -/

/-- The arguments of a call of `append`, with the clock reading it takes if it does not wait before. -/
structure Call (δ : Type) where
  authorPodId : JsString
  operation : JsString
  data : δ
  now : JsNumber

/-- Where a call of `append` waits. -/
inductive Frame (δ : Type) where
  /-- For the digest of the last entry, which is settled with the entry. -/
  | hashing (call : Call δ) (sequence : ℕ) (previousHash : List (Fin 256))
  /-- For `signFn`. -/
  | signing (fields : SignedFields δ)

inductive Event where
  | hashed (now : JsNumber)
  | signed (signature : List (Fin 256))
  | signFailed

/-- The state of a call that has the hash of the entry before it: it waits for the signature. -/
def awaitSignature (call : Call δ) (sequence : ℕ) (previousHash : List (Fin 256)) (now : JsNumber) :
    Task (Frame δ) (Option (AuditEntry δ)) :=
  .waiting (.signing ⟨sequence, call.authorPodId, call.operation, call.data, previousHash, now⟩)

variable (crypto)

/-- `append`.  It returns its entry, or `none` where `signFn` rejects.  A signing function that resolves
signs with the key of the author. -/
def append : Program (List (AuditEntry δ)) (Call δ) Event (Frame δ) (Option (AuditEntry δ)) where
  start entries call :=
    match entries.getLast? with
    | none => some (entries, awaitSignature call 0 GENESIS_HASH call.now)
    | some last =>
        some (entries, .waiting (.hashing call entries.length (crypto.hash last.toSignedFields)))
  resume entries frame event :=
    match frame, event with
    | .hashing call sequence previousHash, .hashed now =>
        some (entries, awaitSignature call sequence previousHash now)
    | .signing fields, .signed signature =>
        if crypto.verify fields.authorPodId fields signature then
          some (entries ++ [⟨fields, some signature⟩], .returned (some ⟨fields, some signature⟩))
        else none
    | .signing _, .signFailed => some (entries, .returned none)
    | _, _ => none

/-- A chain with the calls made on it. -/
abbrev Log (δ : Type) := World (List (AuditEntry δ)) (Frame δ) (Option (AuditEntry δ))

/-- The chain passes `verify`, and it holds what it began with and, once each, the entries that calls
resolved with. -/
structure Sound (initial : List (AuditEntry δ)) (log : Log δ) : Prop where
  valid : verify crypto log.shared = .ok ()
  pushed : log.shared.Perm (initial ++ log.collect id)

/-- If the step pushes an entry, the chain has the length that the call read when it was made. -/
def Unovertaken (log : Log δ) (a : Action (Call δ) Event) : Prop :=
  ∀ i signature fields, a = .resume i (.signed signature) →
    log.tasks[i]? = some (.waiting (.signing fields)) → fields.sequence = log.shared.length

/-- What a waiting call has read: a position of the chain and the hash before it. -/
def Read (entries : List (AuditEntry δ)) : Task (Frame δ) (Option (AuditEntry δ)) → Prop
  | .waiting (.hashing _ sequence previousHash) =>
      sequence ≤ entries.length ∧ previousHash = headHash crypto (entries.take sequence)
  | .waiting (.signing fields) =>
      fields.sequence ≤ entries.length ∧
        fields.previousHash = headHash crypto (entries.take fields.sequence)
  | .returned _ => True

variable {crypto}

/-! ### The run of a log -/

variable {entries : List (AuditEntry δ)}

/-- What was read stays so while the chain grows. -/
theorem Read.concat {t : Task (Frame δ) (Option (AuditEntry δ))} (h : Read crypto entries t) (entry : AuditEntry δ) :
    Read crypto (entries ++ [entry]) t := by
  have htake : ∀ {n : ℕ}, n ≤ entries.length → (entries ++ [entry]).take n = entries.take n := by
    intro n hn
    rw [List.take_append_of_le_length hn]
  have hlen : entries.length ≤ (entries ++ [entry]).length := by simp
  match t, h with
  | .waiting (.hashing _ _ _), ⟨hle, hprev⟩ => exact ⟨hle.trans hlen, by rw [htake hle]; exact hprev⟩
  | .waiting (.signing _), ⟨hle, hprev⟩ => exact ⟨hle.trans hlen, by rw [htake hle]; exact hprev⟩
  | .returned _, _ => trivial

theorem read_start {call : Call δ} {r : List (AuditEntry δ) × Task (Frame δ) (Option (AuditEntry δ))}
    (h : (append crypto).start entries call = some r) :
    r.1 = entries ∧ Read crypto entries r.2 ∧ r.2.result? = none := by
  simp only [append] at h
  split at h
  · rename_i hlast
    obtain rfl := Option.some.inj h
    obtain rfl := List.getLast?_eq_none_iff.mp hlast
    exact ⟨rfl, ⟨le_rfl, rfl⟩, rfl⟩
  · rename_i last hlast
    obtain rfl := Option.some.inj h
    refine ⟨rfl, ⟨le_rfl, ?_⟩, rfl⟩
    rw [List.take_length, headHash, hlast, Option.elim_some]

/-- A call that goes on takes the time, is turned down, or pushes its entry. -/
theorem resume_cases {frame : Frame δ} {event : Event}
    {r : List (AuditEntry δ) × Task (Frame δ) (Option (AuditEntry δ))}
    (h : (append crypto).resume entries frame event = some r) :
    (∃ call sequence previousHash now, frame = .hashing call sequence previousHash ∧
      r = (entries, awaitSignature call sequence previousHash now)) ∨
    (event = .signFailed ∧ r = (entries, .returned none)) ∨
    ∃ fields signature, frame = .signing fields ∧ event = .signed signature ∧
      crypto.verify fields.authorPodId fields signature = true ∧
      r = (entries ++ [⟨fields, some signature⟩], .returned (some ⟨fields, some signature⟩)) := by
  cases frame with
  | hashing call sequence previousHash =>
      cases event with
      | hashed now => exact Or.inl ⟨call, sequence, previousHash, now, rfl, (Option.some.inj h).symm⟩
      | signed signature => cases h
      | signFailed => cases h
  | signing fields =>
      cases event with
      | hashed now => cases h
      | signed signature =>
          simp only [append] at h
          split_ifs at h with hok
          exact Or.inr (Or.inr ⟨fields, signature, rfl, rfl, hok, (Option.some.inj h).symm⟩)
      | signFailed => exact Or.inr (Or.inl ⟨rfl, (Option.some.inj h).symm⟩)

/-- Every step keeps what the waiting calls have read. -/
theorem read_step {log log' : Log δ} {a : Action (Call δ) Event} (h : (append crypto).step log a = some log')
    (hread : ∀ t ∈ log.tasks, Read crypto log.shared t) : ∀ t ∈ log'.tasks, Read crypto log'.shared t := by
  refine (Program.forall_tasks_step (I := fun _ => True) ?_ ?_ trivial hread h).2
  · intro entries call r _ hr
    obtain ⟨hsame, hnew, -⟩ := read_start hr
    rw [hsame]
    exact ⟨trivial, hnew, fun t ht => ht⟩
  · intro entries frame event r _ hframe hr
    rcases resume_cases hr with ⟨call, sequence, previousHash, now, rfl, rfl⟩ | ⟨-, rfl⟩ |
      ⟨fields, signature, rfl, -, -, rfl⟩
    · exact ⟨trivial, hframe, fun t ht => ht⟩
    · exact ⟨trivial, trivial, fun t ht => ht⟩
    · exact ⟨trivial, trivial, fun t ht => ht.concat _⟩

/-- From a sound log a step leads to a sound one exactly when it pushes no overtaken entry. -/
theorem sound_step_iff {initial : List (AuditEntry δ)} {log log' : Log δ} {a : Action (Call δ) Event}
    (hs : Sound crypto initial log) (hread : ∀ t ∈ log.tasks, Read crypto log.shared t)
    (h : (append crypto).step log a = some log') : Sound crypto initial log' ↔ Unovertaken log a := by
  cases a with
  | start call =>
      obtain ⟨⟨entries, t⟩, hr, rfl⟩ := Program.step_start h
      obtain ⟨hsame, -, hresult⟩ := read_start hr
      obtain rfl : entries = log.shared := hsame
      refine iff_of_true ⟨hs.valid, ?_⟩ (fun i signature fields ha => (by cases ha))
      rw [collect_start id log.shared, hresult]
      simpa using hs.pushed
  | resume i event =>
      obtain ⟨frame, r, hframe, hr, rfl⟩ := Program.step_resume h
      have hcollect := collect_resume id log.shared r.1 r.2 hframe
      rcases resume_cases hr with ⟨call, sequence, previousHash, now, rfl, rfl⟩ | ⟨rfl, rfl⟩ |
        ⟨fields, signature, rfl, rfl, hok, rfl⟩
      · -- the digest is there
        refine iff_of_true ⟨hs.valid, hs.pushed.trans ?_⟩ ?_
        · simpa [awaitSignature] using (hcollect.symm.append_left initial)
        · rintro j signature fields ha hwait
          cases ha
          rw [hframe] at hwait
          cases hwait
      · -- the signature is refused
        refine iff_of_true ⟨hs.valid, hs.pushed.trans ?_⟩ (fun j signature fields ha => (by cases ha))
        simpa using (hcollect.symm.append_left initial)
      · -- the entry is pushed
        obtain ⟨hle, hprev⟩ := hread _ (List.mem_of_getElem? hframe)
        constructor
        · rintro ⟨hvalid, -⟩ j signature' fields' ha hwait
          cases ha
          rw [hframe] at hwait
          cases hwait
          exact ((verify_concat _ _).mp hvalid).2.1
        · intro hpos
          have hseq : fields.sequence = log.shared.length := hpos i signature fields rfl hframe
          rw [hseq, List.take_length] at hprev
          refine ⟨(verify_concat _ _).mpr ⟨hs.valid, hseq, hprev, signature, rfl, hok⟩, ?_⟩
          refine (hs.pushed.append_right [⟨fields, some signature⟩]).trans ?_
          rw [List.append_assoc]
          exact hcollect.symm.append_left initial

/-- A chain that passes `verify` passes it after every step, and holds the entries of the resolved calls,
if and only if no call pushes an entry after another one has taken its position. -/
theorem chain_valid_iff (crypto : AuditCrypto δ) (initial : List (AuditEntry δ))
    (hvalid : verify crypto initial = .ok ()) (actions : List (Action (Call δ) Event)) :
    ((append crypto).machine initial).Along
        (fun log a => ∀ log', (append crypto).step log a = some log' → Sound crypto initial log')
        ⟨initial, []⟩ actions ↔
      ((append crypto).machine initial).Along Unovertaken ⟨initial, []⟩ actions := by
  refine Machine.along_iff_of_invariant (I := fun log : Log δ => Sound crypto initial log ∧
    ∀ t ∈ log.tasks, Read crypto log.shared t) ?_ ⟨⟨hvalid, by simp [World.collect]⟩, by simp⟩ actions
  rintro log a log' ⟨hs, hread⟩ hstep
  have hiff := sound_step_iff hs hread hstep
  constructor
  · constructor
    · exact fun h => hiff.mp (h log' hstep)
    · intro h log'' hstep'
      rw [← Option.some.inj (hstep.symm.trans hstep')]
      exact hiff.mpr h
  · exact fun h => ⟨hiff.mpr h, read_step hstep hread⟩

/-- Digests that tell positions apart, signatures that name their author. -/
def sampleCrypto : AuditCrypto Unit where
  hash fields := List.replicate 32 (Fin.ofNat 256 (fields.sequence + 1))
  verify podId _ signature := decide (signature = podId.map fun c => Fin.ofNat 256 c.val)

def sampleCall (operation : String) : Call Unit := ⟨js "pod", js operation, (), 0⟩

def sampleSignature : List (Fin 256) := (js "pod").map fun c => Fin.ofNat 256 c.val

/-- Two calls, the second made when the first has returned. -/
def sequentialCalls : List (Action (Call Unit) Event) :=
  [.start (sampleCall "a"), .resume 0 (.signed sampleSignature), .start (sampleCall "b"),
    .resume 1 (.hashed 0), .resume 1 (.signed sampleSignature)]

theorem chain_valid_sequential :
    verify sampleCrypto [] = .ok () ∧
    (((append sampleCrypto).machine []).Along
        (fun log a => ∀ log', (append sampleCrypto).step log a = some log' → Sound sampleCrypto [] log')
        ⟨[], []⟩ sequentialCalls ↔
      ((append sampleCrypto).machine []).Along Unovertaken ⟨[], []⟩ sequentialCalls) :=
  ⟨rfl, chain_valid_iff sampleCrypto [] rfl sequentialCalls⟩

/-- Two calls that wait for their signatures at the same time take the same position. -/
theorem overlapping_appends_break_chain :
    ¬ ∀ (crypto : AuditCrypto Unit) (initial : List (AuditEntry Unit)),
      verify crypto initial = .ok () → ∀ actions : List (Action (Call Unit) Event),
      ((append crypto).machine initial).Along
        (fun log a => ∀ log', (append crypto).step log a = some log' → Sound crypto initial log')
        ⟨initial, []⟩ actions := by
  intro h
  have hall := h sampleCrypto [] rfl ([.start (sampleCall "a"), .start (sampleCall "b"),
    .resume 0 (.signed sampleSignature)] ++ [.resume 1 (.signed sampleSignature)])
  have hrun := (rfl : ((append sampleCrypto).machine []).run (fun _ _ => True) ⟨[], []⟩
    [.start (sampleCall "a"), .start (sampleCall "b"), .resume 0 (.signed sampleSignature)] = some _)
  have hsound := hall.last hrun rfl _ rfl
  cases hsound.valid

end AuditChain
end BrowserMesh.Apps
