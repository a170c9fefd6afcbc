import BrowserMesh.Apps.KeyDistribution

/-! # Who gets and who gives the bucket key

A delivery and a record that is being unwrapped rely on a pod that was authorized when they were checked.  They hand
their key over later, so the pod has to stay authorized until then: as long as no replay takes the authorization from a
pod that some waiting call relies on (`Undisturbed`), every key is sent to and taken from authorized pods
(`keys_stay_authorized`). -/

namespace BrowserMesh.Apps.KeyDistribution
open Js Async Transition

variable (crypto : DistributionCrypto)

/-! ### What is asked for -/

def Signed (resource : JsString) (record : DeliverRecord) : Prop :=
  (crypto.podIdFromRawPublicKey record.signedByPubKeyBytes).val = record.signedBy ∧
    crypto.verify record.signedByPubKeyBytes record.signature (signedFields resource record) = true

/-- A key is sent to a pod that is authorized at that time, wrapped for a key that it announced before, and taken from a
signed record of a pod that is authorized at that time. -/
def EntryOk (resource : JsString) (earlier : List LogEntry) : LogEntry → Prop
  | .announced _ _ => True
  | .sent target record rawKey recipientKey random effective =>
      hasAnyGrant target effective = true ∧ record.envelope = crypto.wrapKeyForMember rawKey recipientKey random ∧
        .announced target recipientKey ∈ earlier
  | .received rawKey record effective =>
      hasAnyGrant record.signedBy effective = true ∧ Signed crypto resource record ∧
        crypto.unwrapKeyForMember record.envelope = some rawKey

/-- Every entry of a log, the latest first, is in order. -/
def LogOk (resource : JsString) : List LogEntry → Prop
  | [] => True
  | e :: earlier => EntryOk crypto resource earlier e ∧ LogOk resource earlier

/-- The pod whose authorization a waiting call relies on. -/
def relies : DistributionTask → Option JsString
  | .waiting (.gettingKey target _) => some target
  | .waiting (.building target _ _) => some target
  | .waiting (.unwrapping record) => some record.signedBy
  | _ => none

/-- A replay leaves the pods authorized that waiting calls rely on. -/
def Undisturbed (w : DistributionWorld) : Action DistributionCall DistributionEvent → Prop
  | .start (.beginReplay next) => ∀ t ∈ w.tasks, (relies t).all fun p => hasAnyGrant p next
  | .start (.receive _ _) => True
  | .start (.notify _) => True
  | .start .endReplay => True
  | .resume _ _ => True

instance (w : DistributionWorld) : DecidablePred (Undisturbed w)
  | .start (.beginReplay next) =>
      inferInstanceAs (Decidable (∀ t ∈ w.tasks, (relies t).all fun p => hasAnyGrant p next))
  | .start (.receive _ _) => instDecidableTrue
  | .start (.notify _) => instDecidableTrue
  | .start .endReplay => instDecidableTrue
  | .resume _ _ => instDecidableTrue

/-! ### The invariant -/

/-- The state that holds once the replay under way is over. -/
def Distribution.current (s : Distribution) : Effective := s.replaying.getD s.effective

/-- Every known key was announced by its pod, and the log is in order. -/
structure Kept (resource : JsString) (s : Distribution) : Prop where
  sameResource : s.resource = resource
  known : ∀ p publicKey, s.knownEncryptionKeys.get? p = some publicKey → .announced p publicKey ∈ s.log
  log : LogOk crypto resource s.log

def Checked (resource : JsString) (s : Distribution) : DistributionTask → Prop
  | .waiting (.gettingKey target recipientKey) =>
      .announced target recipientKey ∈ s.log ∧ hasAnyGrant target s.current = true
  | .waiting (.building target recipientKey _) =>
      .announced target recipientKey ∈ s.log ∧ hasAnyGrant target s.current = true
  | .waiting (.verifying record) =>
      (crypto.podIdFromRawPublicKey record.signedByPubKeyBytes).val = record.signedBy
  | .waiting (.unwrapping record) => Signed crypto resource record ∧ hasAnyGrant record.signedBy s.current = true
  | _ => True

variable {crypto} {resource : JsString} {s s' : Distribution} {t : DistributionTask}

theorem Checked.mono (hlog : s.log <:+ s'.log) (hcurrent : s'.current = s.current) (h : Checked crypto resource s t) :
    Checked crypto resource s' t := by
  cases t with
  | returned r => exact trivial
  | waiting frame =>
      cases frame with
      | importing sender encryptionPublicKey => exact trivial
      | gettingKey target recipientKey => exact ⟨hlog.mem h.1, by rw [hcurrent]; exact h.2⟩
      | building target recipientKey rawKey => exact ⟨hlog.mem h.1, by rw [hcurrent]; exact h.2⟩
      | deriving' record => exact trivial
      | verifying record => exact h
      | unwrapping record => exact ⟨h.1, by rw [hcurrent]; exact h.2⟩

theorem checked_maybeDeliverTo (h : Kept crypto resource s) {target : PodId}
    (hgrant : hasAnyGrant target s.current = true) : Checked crypto resource s (maybeDeliverTo s target) := by
  unfold maybeDeliverTo
  cases hkey : s.knownEncryptionKeys.get? target with
  | none => exact trivial
  | some recipientKey => exact ⟨h.known target recipientKey hkey, hgrant⟩

theorem checked_receive (sender : PodId) (msg : Json) : Checked crypto resource s (receive crypto s sender msg) := by
  unfold receive
  split_ifs
  · exact trivial
  · cases stringField (js "encryptionPublicKey") msg <;> exact trivial
  · cases deliverRecord crypto msg <;> exact trivial
  · exact trivial

theorem hasAnyGrant_of_scopes {effective : Effective} {pubKey : JsString} (h : 0 < effective.scopes pubKey) :
    hasAnyGrant pubKey effective = true := by
  rw [hasAnyGrant, Bool.or_eq_true]
  exact Or.inr (decide_eq_true h)

variable {next : Effective}

theorem checked_handleGrantChange (h : Kept crypto resource s) (hnext : s.replaying = some next)
    (pubKey : PodId) (before : ℕ) :
    Checked crypto resource s (handleGrantChange s pubKey before (next.scopes pubKey)) := by
  unfold handleGrantChange
  split_ifs with hgained
  · exact trivial
  · refine checked_maybeDeliverTo h ?_
    rw [Distribution.current, hnext]
    exact hasAnyGrant_of_scopes hgained.2
  · exact trivial

/-! ### Steps -/

/-- What a step that is no replay does to what the other calls have checked. -/
def Grows (s s' : Distribution) : Prop := s.log <:+ s'.log ∧ s'.current = s.current

theorem Grows.refl (s : Distribution) : Grows s s := ⟨List.suffix_refl _, rfl⟩

theorem kept_start {call : DistributionCall} {r : Distribution × DistributionTask} (h : Kept crypto resource s)
    (hcall : ∀ next, call ≠ .beginReplay next) (hr : startCall crypto s call = some r) :
    Kept crypto resource r.1 ∧ Grows s r.1 ∧ Checked crypto resource r.1 r.2 := by
  cases call with
  | receive sender msg =>
      obtain ⟨_, heq⟩ := Option.ite_none_right_eq_some.mp hr
      obtain rfl := Option.some.inj heq
      exact ⟨h, .refl s, checked_receive sender msg⟩
  | beginReplay next => exact absurd rfl (hcall next)
  | notify pubKey =>
      obtain ⟨next, hnext, rfl⟩ := Option.map_eq_some_iff.mp hr
      exact ⟨h, .refl s, checked_handleGrantChange h hnext pubKey _⟩
  | endReplay =>
      obtain ⟨next, hnext, rfl⟩ := Option.map_eq_some_iff.mp hr
      refine ⟨⟨h.sameResource, h.known, h.log⟩, ⟨List.suffix_refl _, ?_⟩, trivial⟩
      rw [Distribution.current, Distribution.current, hnext]
      rfl

theorem kept_return (h : Kept crypto resource s) :
    Kept crypto resource s ∧ Grows s s ∧ Checked crypto resource s (.returned ()) := ⟨h, .refl s, trivial⟩

theorem Kept.cons (h : Kept crypto resource s) {e : LogEntry} (he : EntryOk crypto resource s.log e) :
    Kept crypto resource { s with log := e :: s.log } where
  sameResource := h.sameResource
  known p publicKey hkey := List.mem_cons_of_mem e (h.known p publicKey hkey)
  log := ⟨he, h.log⟩

theorem kept_announced (h : Kept crypto resource s) (sender : PodId) (publicKey : Bytes) :
    Kept crypto resource { s with
      knownEncryptionKeys := s.knownEncryptionKeys.set sender publicKey
      log := .announced sender publicKey :: s.log } where
  sameResource := h.sameResource
  known p publicKey' hkey := by
    rw [JsMap.get?_set] at hkey
    split_ifs at hkey with hp
    · obtain rfl := Option.some.inj hkey
      rw [hp]
      exact List.mem_cons_self
    · exact List.mem_cons_of_mem _ (h.known p publicKey' hkey)
  log := ⟨trivial, h.log⟩

theorem kept_resume {frame : DistributionFrame} {event : DistributionEvent} {r : Distribution × DistributionTask}
    (h : Kept crypto resource s) (hidle : s.replaying = none) (hframe : Checked crypto resource s (.waiting frame))
    (hr : resumeCall crypto s frame event = some r) :
    Kept crypto resource r.1 ∧ Grows s r.1 ∧ Checked crypto resource r.1 r.2 := by
  have hcurrent : ∀ s' : Distribution, s'.replaying = none → s'.current = s'.effective := by
    intro s' hs'
    rw [Distribution.current, hs']
    rfl
  cases event with
  | failed =>
      obtain rfl : (s, Task.returned ()) = r := by cases frame <;> exact Option.some.inj hr
      exact kept_return h
  | localKey rawKey =>
      cases frame with
      | gettingKey target recipientKey =>
          obtain rfl := Option.some.inj hr
          cases rawKey with
          | none => exact kept_return h
          | some rawKey => exact ⟨h, .refl s, hframe⟩
      | importing sender encryptionPublicKey => cases hr
      | building target recipientKey rawKey => cases hr
      | deriving' record => cases hr
      | verifying record => cases hr
      | unwrapping record => cases hr
  | settled random now =>
      cases frame with
      | importing sender encryptionPublicKey =>
          obtain rfl := Option.some.inj hr
          cases crypto.importPublicKey encryptionPublicKey with
          | none => exact kept_return h
          | some publicKey =>
              have hkept := kept_announced h sender publicKey
              refine ⟨hkept, ⟨List.suffix_cons _ _, rfl⟩, ?_⟩
              dsimp only
              split_ifs with hgrant
              · refine checked_maybeDeliverTo hkept ?_
                rw [hcurrent _ (by exact hidle)]
                exact hgrant
              · exact trivial
      | gettingKey target recipientKey => cases hr
      | building target recipientKey rawKey =>
          obtain rfl := Option.some.inj hr
          obtain ⟨hannounced, hgrant⟩ := hframe
          rw [hcurrent s hidle] at hgrant
          exact ⟨h.cons ⟨hgrant, rfl, hannounced⟩, ⟨List.suffix_cons _ _, rfl⟩, trivial⟩
      | deriving' record =>
          obtain rfl := Option.some.inj hr
          dsimp only
          split_ifs with hpod
          · exact ⟨h, .refl s, hpod⟩
          · exact kept_return h
      | verifying record =>
          obtain rfl := Option.some.inj hr
          dsimp only
          split_ifs with hboth
          · refine ⟨h, .refl s, ⟨hframe, h.sameResource ▸ hboth.1⟩, ?_⟩
            rw [hcurrent s hidle]
            exact hboth.2
          · exact kept_return h
      | unwrapping record =>
          obtain rfl := Option.some.inj hr
          obtain ⟨hsigned, hgrant⟩ := hframe
          rw [hcurrent s hidle] at hgrant
          cases hkey : crypto.unwrapKeyForMember record.envelope with
          | none => exact kept_return h
          | some rawKey => exact ⟨h.cons ⟨hgrant, hsigned, hkey⟩, ⟨List.suffix_cons _ _, rfl⟩, trivial⟩

/-! ### Runs -/

/-- The invariant of a world. -/
def Holds (crypto : DistributionCrypto) (resource : JsString) (w : DistributionWorld) : Prop :=
  Kept crypto resource w.shared ∧ ∀ t ∈ w.tasks, Checked crypto resource w.shared t

theorem holds_init (localPodId : PodId) (resource : JsString) :
    Holds crypto resource (machine crypto localPodId resource).init :=
  ⟨⟨rfl, fun p publicKey hkey => (by cases hkey), trivial⟩, fun t ht => absurd ht List.not_mem_nil⟩

theorem checked_beginReplay (h : Checked crypto resource s t) (hrelies : (relies t).all fun p => hasAnyGrant p next) :
    Checked crypto resource { s with replaying := some next } t := by
  cases t with
  | returned r => exact trivial
  | waiting frame =>
      cases frame with
      | importing sender encryptionPublicKey => exact trivial
      | gettingKey target recipientKey => exact ⟨h.1, hrelies⟩
      | building target recipientKey rawKey => exact ⟨h.1, hrelies⟩
      | deriving' record => exact trivial
      | verifying record => exact h
      | unwrapping record => exact ⟨h.1, hrelies⟩

theorem holds_beginReplay {w w' : DistributionWorld} (h : Holds crypto resource w)
    (hok : Undisturbed w (.start (.beginReplay next)))
    (hstep : (distributing crypto).step w (.start (.beginReplay next)) = some w') : Holds crypto resource w' := by
  obtain ⟨r, hr, rfl⟩ := Program.step_start hstep
  obtain ⟨_, heq⟩ := Option.ite_none_right_eq_some.mp hr
  obtain rfl := Option.some.inj heq
  refine ⟨⟨h.1.sameResource, h.1.known, h.1.log⟩, fun t ht => ?_⟩
  rcases List.mem_append.mp ht with ht | ht
  · exact checked_beginReplay (h.2 t ht) (hok t ht)
  · rw [List.mem_singleton.mp ht]
    exact trivial

theorem holds_step {w w' : DistributionWorld} {a : Action DistributionCall DistributionEvent}
    (h : Holds crypto resource w) (hok : Undisturbed w a) (hstep : (distributing crypto).step w a = some w') :
    Holds crypto resource w' := by
  by_cases hreplay : ∃ next, a = .start (.beginReplay next)
  · obtain ⟨next, rfl⟩ := hreplay
    exact holds_beginReplay h hok hstep
  have hmeets : Program.Meets (fun _ call => ∀ next, call ≠ .beginReplay next) (fun _ _ _ => True) w a := by
    cases a with
    | start call => exact fun next heq => hreplay ⟨next, by rw [heq]⟩
    | resume i event => exact fun _ _ => trivial
  obtain ⟨hkept, _, hchecked⟩ := Program.step_of_meets (R := Grows) (J := Checked crypto resource)
    (fun s s' t hgrows ht => ht.mono hgrows.1 hgrows.2)
    (fun s call r hI hcall hr => kept_start hI hcall hr)
    (fun s frame event r hI hJ _ hr => by
      obtain ⟨hidle, hr⟩ := Option.ite_none_right_eq_some.mp hr
      exact kept_resume hI (Option.isNone_iff_eq_none.mp hidle) hJ hr)
    h.1 h.2 hmeets hstep
  exact ⟨hkept, hchecked⟩

/-! ### Main result -/

/-- In every run whose replays leave the pods authorized that waiting calls rely on, every key is sent to a pod that is
authorized at that time, wrapped for a key that this pod announced, and taken from a signed record of a pod that is
authorized at that time. -/
theorem keys_stay_authorized {localPodId : PodId} {w : DistributionWorld}
    (h : (machine crypto localPodId resource).Reach Undisturbed w) : LogOk crypto resource w.shared.log :=
  (h.invariant (I := Holds crypto resource) (holds_init localPodId resource)
    fun _ _ _ hw hok hstep => holds_step hw hok hstep).1.log

def podOf (c : CodeUnit) : PodId := ⟨List.replicate 43 c, List.length_replicate⟩

/-- The operations at one key of each kind: `k` is the encryption key `[7]`, and every record is signed by `p`. -/
def tableCrypto (p : PodId) : DistributionCrypto where
  importPublicKey s := if s = js "k" then some [7] else none
  wrapKeyForMember _ _ _ := ⟨js "e", js "w", js "i"⟩
  unwrapKeyForMember envelope := if envelope = ⟨js "e", js "w", js "i"⟩ then some [1] else none
  decodeBase64url _ := some [2]
  podIdFromRawPublicKey _ := p
  verify publicKey signature _ := decide (publicKey = [2] ∧ signature = [2])
  sign _ := [2]
  publicKeyBytes := [2]

def announceOf (resource key : JsString) : Json :=
  .object [(js "resource", .string resource), (js "kind", .string (js "announce")),
    (js "encryptionPublicKey", .string key)]

def deliverOf (resource : JsString) (signer : PodId) : Json :=
  .object [(js "resource", .string resource), (js "kind", .string (js "deliver")),
    (js "envelope", .object [(js "ephemeralPublicKey", .string (js "e")), (js "wrappedKey", .string (js "w")),
      (js "iv", .string (js "i"))]),
    (js "at", .number (.ofNat 1)), (js "signedBy", .string signer.val),
    (js "signedByPubKeyBytes", .string (js "b")), (js "signature", .string (js "s"))]

def readerOnly (p : PodId) : Effective := ⟨[], JsMap.empty.set p.val [js "read"]⟩

/-- What a log entry hands over, and whether the pod it relies on is authorized. -/
def LogEntry.authorized : LogEntry → Option Bool
  | .announced _ _ => none
  | .sent target _ _ _ _ effective => some (hasAnyGrant target effective)
  | .received _ record effective => some (hasAnyGrant record.signedBy effective)

theorem LogOk.authorized {log : List LogEntry} (h : LogOk crypto resource log) :
    some false ∉ log.map LogEntry.authorized := by
  induction log with
  | nil => exact List.not_mem_nil
  | cons e earlier ih =>
      intro hmem
      rcases List.mem_cons.mp hmem with he | hmem
      · cases e with
        | announced sender publicKey => cases he
        | sent target record rawKey recipientKey random effective =>
            exact Bool.false_ne_true ((Option.some.inj he).trans h.1.1)
        | received rawKey record effective => exact Bool.false_ne_true ((Option.some.inj he).trans h.1.1)
      · exact ih h.2 hmem

/-- The pod is granted a scope, announces a key and gets the bucket key, and later a record of it is unwrapped. -/
theorem keys_stay_authorized_run : ∃ w : DistributionWorld,
    w.shared.log.map LogEntry.authorized = [some true, some true, none] ∧
      LogOk (tableCrypto (podOf 112)) (js "s3:b") w.shared.log := by
  obtain ⟨w, -, hw, hlog⟩ := Machine.exists_of_run
    (P := fun w : DistributionWorld => w.shared.log.map LogEntry.authorized = [some true, some true, none])
    (show ((machine (tableCrypto (podOf 112)) (podOf 113) (js "s3:b")).run Undisturbed
      (machine (tableCrypto (podOf 112)) (podOf 113) (js "s3:b")).init
      [.start (.beginReplay (readerOnly (podOf 112))), .start (.notify (podOf 112)), .start .endReplay,
        .start (.receive (podOf 112) (announceOf (js "s3:b") (js "k"))), .resume 3 (.settled [] (.ofNat 1)),
        .resume 3 (.localKey (some [1])), .resume 3 (.settled [] (.ofNat 1)),
        .start (.receive (podOf 112) (deliverOf (js "s3:b") (podOf 112))), .resume 4 (.settled [] (.ofNat 2)),
        .resume 4 (.settled [] (.ofNat 2)), .resume 4 (.settled [] (.ofNat 2))]).any _ = true by decide +kernel)
  exact ⟨w, hlog, keys_stay_authorized hw⟩

theorem keys_disturbed :
    (∃ w : DistributionWorld, (machine (tableCrypto (podOf 112)) (podOf 113) (js "s3:b")).Reach (fun _ _ => True) w ∧
      w.shared.log.map LogEntry.authorized = [some false, none] ∧
      ¬ LogOk (tableCrypto (podOf 112)) (js "s3:b") w.shared.log) ∧
    ∃ w : DistributionWorld, (machine (tableCrypto (podOf 112)) (podOf 113) (js "s3:b")).Reach (fun _ _ => True) w ∧
      w.shared.log.map LogEntry.authorized = [some false] ∧
      ¬ LogOk (tableCrypto (podOf 112)) (js "s3:b") w.shared.log := by
  constructor
  · obtain ⟨w, -, hw, hlog⟩ := Machine.exists_of_run
      (P := fun w : DistributionWorld => w.shared.log.map LogEntry.authorized = [some false, none])
      (show ((machine (tableCrypto (podOf 112)) (podOf 113) (js "s3:b")).run (fun _ _ => True)
        (machine (tableCrypto (podOf 112)) (podOf 113) (js "s3:b")).init
        [.start (.beginReplay (readerOnly (podOf 112))), .start .endReplay,
          .start (.receive (podOf 112) (announceOf (js "s3:b") (js "k"))), .resume 2 (.settled [] (.ofNat 1)),
          .resume 2 (.localKey (some [1])), .start (.beginReplay .empty), .start (.notify (podOf 112)),
          .start .endReplay, .resume 2 (.settled [] (.ofNat 1))]).any _ = true by decide +kernel)
    refine ⟨w, hw, hlog, fun hok => hok.authorized ?_⟩
    rw [hlog]
    exact List.mem_cons_self
  · obtain ⟨w, -, hw, hlog⟩ := Machine.exists_of_run
      (P := fun w : DistributionWorld => w.shared.log.map LogEntry.authorized = [some false])
      (show ((machine (tableCrypto (podOf 112)) (podOf 113) (js "s3:b")).run (fun _ _ => True)
        (machine (tableCrypto (podOf 112)) (podOf 113) (js "s3:b")).init
        [.start (.beginReplay (readerOnly (podOf 112))), .start .endReplay,
          .start (.receive (podOf 112) (deliverOf (js "s3:b") (podOf 112))), .resume 2 (.settled [] (.ofNat 2)),
          .resume 2 (.settled [] (.ofNat 2)), .start (.beginReplay .empty), .start (.notify (podOf 112)),
          .start .endReplay, .resume 2 (.settled [] (.ofNat 2))]).any _ = true by decide +kernel)
    refine ⟨w, hw, hlog, fun hok => hok.authorized ?_⟩
    rw [hlog]
    exact List.mem_cons_self

end BrowserMesh.Apps.KeyDistribution
