import BrowserMesh.Transport.Relay

/-! # The relay client agrees with its socket

* **Searches.**  A search waits with its timer running, on a socket that is alive, or was settled once.
* **Client.**  It is connected on a current socket that is alive and wanted; after a drop it is on its way back.

`Sound` is kept by every step but those that `MayCall` and `MayGoOn` leave out. -/

namespace BrowserMesh.Transport
open Js Async Transition

/-- The last call of the user, of the two, was `connect()`. -/
def wanted : List RelayNote → Bool
  | [] => false
  | .connectCalled :: _ => true
  | .disconnectCalled :: _ => false
  | _ :: rest => wanted rest

def sinceDrop (log : List RelayNote) : List RelayNote := log.takeWhile fun n => n ≠ .dropped

namespace MeshRelayClient
variable {s s' : MeshRelayClient} {i : ℕ}

/-- The socket opened, and was not closed by either side. -/
def AliveAt (s : MeshRelayClient) (i : ℕ) : Prop := ∃ r ∈ s.sockets[i]?, r.socket.Alive

instance (s : MeshRelayClient) (i : ℕ) : Decidable (s.AliveAt i) := inferInstanceAs (Decidable (∃ r ∈ _, _))

/-- The state is `connected` on a current socket that is alive, and the user did not disconnect since. -/
def Agrees (s : MeshRelayClient) : Prop :=
  s.state = .connected → ∃ i, s.ws = some i ∧ s.AliveAt i ∧ wanted s.log = true

/-- The promise of a search is not settled, its timer runs and its socket is not lost. -/
def Waits (s : MeshRelayClient) (n : ℕ) (f : Find) : Prop :=
  f.outcome = none ∧ f.timer = true ∧ s.log.count (.settled n) = 0 ∧ s.AliveAt f.socket

def Answered (s : MeshRelayClient) (n : ℕ) (f : Find) : Prop :=
  f.outcome ≠ none ∧ f.timer = false ∧ s.log.count (.settled n) = 1

/-- A timer waits, or the user closed the client, or the attempts are used up and it said so. -/
def Followed (s : MeshRelayClient) : Prop :=
  s.timers ≠ 0 ∨ wanted s.log = false ∨
    s.maxReconnectAttempts ≤ s.reconnectAttempts ∧ .error .givingUp ∈ sinceDrop s.log

instance (s : MeshRelayClient) : Decidable s.Followed := inferInstanceAs (Decidable (_ ∨ _ ∨ _))

/-- After a drop the client is connected or connecting, or something follows. -/
def Recovers (s : MeshRelayClient) : Prop :=
  s.autoReconnect = true → .dropped ∈ s.log → s.state ≠ .disconnected ∨ s.Followed

/-! ### Logs -/

theorem wanted_settled (l : List ℕ) (log : List RelayNote) : wanted (l.map RelayNote.settled ++ log) = wanted log := by
  induction l with
  | nil => rfl
  | cons n l ih => exact ih

/-- A note that says nothing of the user and of drops. -/
def Quiet (n : RelayNote) : Prop := n ≠ .dropped ∧ ∀ log, wanted (n :: log) = wanted log

theorem quiet_error (e : RelayError) : Quiet (.error e) := ⟨fun h => (by cases h), fun _ => rfl⟩

theorem quiet_settled (n : ℕ) : Quiet (.settled n) := ⟨fun h => (by cases h), fun _ => rfl⟩

variable {n : RelayNote} {log : List RelayNote}

theorem Quiet.mem (h : Quiet n) (hmem : .dropped ∈ n :: log) :
    .dropped ∈ log := by
  rcases List.mem_cons.mp hmem with heq | hmem
  · exact absurd heq.symm h.1
  · exact hmem

theorem Quiet.mem_sinceDrop (h : Quiet n) {m : RelayNote} (hmem : m ∈ sinceDrop log) : m ∈ sinceDrop (n :: log) := by
  have hcons : sinceDrop (n :: log) = n :: sinceDrop log := List.takeWhile_cons_of_pos (decide_eq_true h.1)
  rw [hcons]
  exact List.mem_cons_of_mem n hmem

theorem Followed.quiet (h : s.Followed) (hn : Quiet n) (htimers : s'.timers = s.timers)
    (hmax : s'.maxReconnectAttempts = s.maxReconnectAttempts) (hattempts : s'.reconnectAttempts = s.reconnectAttempts)
    (hlog : s'.log = n :: s.log) : s'.Followed := by
  unfold Followed
  rw [htimers, hmax, hattempts, hlog, hn.2]
  exact h.imp_right (Or.imp_right (And.imp_right hn.mem_sinceDrop))

/-! ### Searches -/

/-- The table of the searches `P` that wait: each search waits or was answered once. -/
structure Ledger (finds : List Find) (log : List RelayNote) (P : ℕ → Prop) : Prop where
  waiting : ∀ (n : ℕ), P n → ∃ f, finds[n]? = some f ∧ f.requestId = findId (n + 1) ∧ f.timer = true ∧
    f.outcome = none ∧ log.count (.settled n) = 0
  answered : ∀ (n : ℕ) (f : Find), finds[n]? = some f → ¬ P n →
    f.requestId = findId (n + 1) ∧ f.timer = false ∧ f.outcome ≠ none ∧ log.count (.settled n) = 1
  unknown : ∀ (n : ℕ), finds.length ≤ n → log.count (.settled n) = 0

theorem getElem?_answerAll (outcome : FindOutcome) (l : List ℕ) (finds : List Find) (n : ℕ) :
    (l.foldl (fun finds n => finds.modify n (.answer outcome)) finds)[n]? =
      if n ∈ l then finds[n]?.map (.answer outcome) else finds[n]? := by
  induction l generalizing finds with
  | nil => exact (if_neg (List.not_mem_nil)).symm
  | cons k l ih =>
      have hanswer : ∀ f : Find, (f.answer outcome).answer outcome = f.answer outcome := by
        intro f
        cases hf : f.outcome <;> simp [Find.answer, hf]
      rw [List.foldl_cons, ih, List.getElem?_modify]
      by_cases hk : k = n
      · subst hk
        cases hfind : finds[k]? <;> by_cases hmem : k ∈ l <;> simp [hmem, hanswer]
      · have hmem : n ∈ k :: l ↔ n ∈ l := by
          rw [List.mem_cons]
          exact or_iff_right fun h => hk h.symm
        simp only [hk, hmem, if_false, id_map']

theorem length_answerAll (outcome : FindOutcome) (l : List ℕ) (finds : List Find) :
    (l.foldl (fun finds n => finds.modify n (.answer outcome)) finds).length = finds.length := by
  induction l generalizing finds with
  | nil => rfl
  | cons k l ih => rw [List.foldl_cons, ih, List.length_modify]

theorem foldl_settle (outcome : FindOutcome) (l : List ℕ) (s : MeshRelayClient) :
    l.foldl (settle · outcome) s = { s with
      finds := l.foldl (fun finds n => finds.modify n (.answer outcome)) s.finds
      log := l.reverse.map RelayNote.settled ++ s.log } := by
  induction l generalizing s with
  | nil => rfl
  | cons n l ih =>
      rw [List.foldl_cons, ih]
      simp [settle]

theorem count_settled (l : List ℕ) (log : List RelayNote) (n : ℕ) :
    (l.reverse.map RelayNote.settled ++ log).count (.settled n) = l.count n + log.count (.settled n) := by
  rw [List.count_append, List.count_map_of_injective l.reverse _ (fun _ _ h => RelayNote.settled.inj h), List.count_reverse]

theorem Ledger.answerAll {finds : List Find} {P : ℕ → Prop} (h : Ledger finds log P)
    (outcome : FindOutcome) {l : List ℕ} (hl : l.Nodup) (hP : ∀ n ∈ l, P n) :
    Ledger (l.foldl (fun finds n => finds.modify n (.answer outcome)) finds)
      (l.reverse.map RelayNote.settled ++ log) (fun n => P n ∧ n ∉ l) := by
  refine ⟨fun n hn => ?_, fun n f' hf' hn => ?_, fun n hn => ?_⟩
  · obtain ⟨f, hf, hid, htimer, houtcome, hcount⟩ := h.waiting n hn.1
    refine ⟨f, ?_, hid, htimer, houtcome, ?_⟩
    · rw [getElem?_answerAll, if_neg hn.2, hf]
    · rw [count_settled, List.count_eq_zero_of_not_mem hn.2, hcount]
  · rw [getElem?_answerAll] at hf'
    rw [count_settled]
    by_cases hmem : n ∈ l
    · obtain ⟨f, hf, hid, -, houtcome, hcount⟩ := h.waiting n (hP n hmem)
      rw [if_pos hmem, hf] at hf'
      obtain rfl := Option.some.inj hf'
      refine ⟨hid, rfl, ?_, ?_⟩
      · simp [Find.answer, houtcome]
      · rw [List.count_eq_one_of_mem hl hmem, hcount]
    · rw [if_neg hmem] at hf'
      obtain ⟨hid, htimer, houtcome, hcount⟩ := h.answered n f' hf' (fun hPn => hn ⟨hPn, hmem⟩)
      refine ⟨hid, htimer, houtcome, ?_⟩
      rw [List.count_eq_zero_of_not_mem hmem, hcount]
  · rw [length_answerAll] at hn
    have hmem : n ∉ l := by
      intro hmem
      obtain ⟨f, hf, -⟩ := h.waiting n (hP n hmem)
      exact absurd (List.getElem?_eq_some_iff.mp hf).1 (by omega)
    rw [count_settled, List.count_eq_zero_of_not_mem hmem, h.unknown n hn]

def Listed (s : MeshRelayClient) (n : ℕ) : Prop := s.pendingFinds.get? (findId (n + 1)) = some n

structure Searches (s : MeshRelayClient) : Prop where
  ledger : Ledger s.finds s.log s.Listed
  ids : ∀ id n, s.pendingFinds.get? id = some n → id = findId (n + 1)
  alive : ∀ f ∈ s.finds, f.timer = true → s.AliveAt f.socket

theorem Searches.congr (h : Searches s) (hfinds : s'.finds = s.finds) (hpending : s'.pendingFinds = s.pendingFinds)
    (hlog : ∀ n, s'.log.count (.settled n) = s.log.count (.settled n))
    (halive : ∀ f ∈ s.finds, f.timer = true → s.AliveAt f.socket → s'.AliveAt f.socket) : Searches s' := by
  obtain ⟨⟨hwaiting, hanswered, hunknown⟩, hids, hsockets⟩ := h
  have hlisted : s'.Listed = s.Listed := by
    funext n
    unfold Listed
    rw [hpending]
  refine ⟨⟨?_, ?_, ?_⟩, ?_, ?_⟩
  · rw [hlisted, hfinds]
    simpa only [hlog] using hwaiting
  · rw [hlisted, hfinds]
    simpa only [hlog] using hanswered
  · rw [hfinds]
    simpa only [hlog] using hunknown
  · rw [hpending]
    exact hids
  · rw [hfinds]
    exact fun f hf htimer => halive f hf htimer (hsockets f hf htimer)

theorem Searches.note (h : Searches s) (hn : ∀ k, n ≠ .settled k) : Searches (s.note n) :=
  h.congr rfl rfl (fun k => List.count_cons_of_ne (hn k)) (fun _ _ _ halive => halive)

theorem Searches.listed_of_timer (h : Searches s) {n : ℕ} {f : Find} (hf : s.finds[n]? = some f)
    (htimer : f.timer = true) : s.Listed n := by
  by_contra hn
  cases htimer.symm.trans (h.ledger.answered n f hf hn).2.1

theorem Searches.requestId (h : Searches s) {n : ℕ} {f : Find} (hf : s.finds[n]? = some f) :
    f.requestId = findId (n + 1) := by
  by_cases hn : s.Listed n
  · obtain ⟨f', hf', hid, -⟩ := h.ledger.waiting n hn
    obtain rfl := Option.some.inj (hf.symm.trans hf')
    exact hid
  · exact (h.ledger.answered n f hf hn).1

/-- The searches `l` are settled and leave the table. -/
theorem Searches.answerAll (h : Searches s) (outcome : FindOutcome) {l : List ℕ} (hl : l.Nodup)
    (hlisted : ∀ n ∈ l, s.Listed n) (hs' : s'.finds = (l.foldl (settle · outcome) s).finds)
    (hlog : s'.log = (l.foldl (settle · outcome) s).log)
    (hpending : ∀ id n, s'.pendingFinds.get? id = some n ↔ s.pendingFinds.get? id = some n ∧ n ∉ l)
    (halive : ∀ f ∈ s'.finds, f.timer = true → s.AliveAt f.socket → s'.AliveAt f.socket) : Searches s' := by
  rw [foldl_settle] at hs' hlog
  have hlisted' : s'.Listed = fun n => s.Listed n ∧ n ∉ l := by
    funext n
    exact propext (hpending _ n)
  refine ⟨?_, fun id n hid => h.ids id n ((hpending id n).mp hid).1, fun f hf htimer => halive f hf htimer ?_⟩
  · rw [hlisted', hs', hlog]
    exact h.ledger.answerAll outcome hl hlisted
  · rw [hs'] at hf
    obtain ⟨n, hn⟩ := List.mem_iff_getElem?.mp hf
    rw [getElem?_answerAll] at hn
    by_cases hmem : n ∈ l
    · rw [if_pos hmem] at hn
      obtain ⟨f₀, -, rfl⟩ := Option.map_eq_some_iff.mp hn
      cases htimer
    · rw [if_neg hmem] at hn
      exact h.alive f (List.mem_of_getElem? hn) htimer

variable {id : JsString}

theorem Searches.settle (h : Searches s) (outcome : FindOutcome) {n : ℕ} (hid : s.pendingFinds.get? id = some n) :
    Searches ({ s with pendingFinds := s.pendingFinds.delete id }.settle outcome n) := by
  have hn : id = findId (n + 1) := h.ids id n hid
  refine h.answerAll outcome (l := [n]) (List.nodup_singleton n) ?_ rfl rfl ?_ (fun f hf htimer halive => halive)
  · rintro k hk
    obtain rfl := List.mem_singleton.mp hk
    unfold Listed
    rw [← hn]
    exact hid
  · intro id' k
    change (s.pendingFinds.delete id).get? id' = some k ↔ _
    rw [JsMap.get?_delete, List.mem_singleton]
    by_cases hid' : id' = id
    · subst hid'
      rw [if_pos rfl, hid]
      constructor
      · intro hk
        cases hk
      · rintro ⟨hk, hne⟩
        exact absurd (Option.some.inj hk).symm hne
    · rw [if_neg hid']
      refine (and_iff_left_of_imp fun hk hkn => hid' ?_).symm
      rw [h.ids id' k hk, hn, hkn]

theorem Searches.findPeers (h : Searches s) (hi : s.ws = some i) (halive : s.AliveAt i)
    (hstate : s.state = .connected) : Searches s.findPeers.1 := by
  have hnew : ¬ s.Listed s.finds.length := by
    intro hn
    obtain ⟨f, hf, -⟩ := h.ledger.waiting _ hn
    exact absurd (List.getElem?_eq_some_iff.mp hf).1 (by omega)
  simp only [MeshRelayClient.findPeers, hstate, hi, ne_eq, not_true_eq_false, if_false]
  have hlisted : ∀ (s' : MeshRelayClient) (n : ℕ),
      s'.pendingFinds = s.pendingFinds.set (findId (s.finds.length + 1)) s.finds.length →
      (s'.Listed n ↔ s.Listed n ∨ n = s.finds.length) := by
    intro s' n hs'
    unfold Listed
    rw [hs', JsMap.get?_set]
    by_cases hn : findId (n + 1) = findId (s.finds.length + 1)
    · have hn' : n = s.finds.length := Nat.succ.inj (findId_injective hn)
      rw [if_pos hn, hn']
      simp
    · rw [if_neg hn]
      exact (or_iff_left fun hn' => hn (by rw [hn'])).symm
  refine ⟨⟨fun n hn => ?_, fun n f hf hn => ?_, fun n hn => ?_⟩, fun id n hid => ?_, fun f hf htimer => ?_⟩
  · rcases (hlisted _ n rfl).mp hn with hn | rfl
    · obtain ⟨f, hf, hrest⟩ := h.ledger.waiting n hn
      refine ⟨f, ?_, hrest⟩
      rw [List.getElem?_append_left (List.getElem?_eq_some_iff.mp hf).1, hf]
    · refine ⟨_, List.getElem?_concat_length, rfl, rfl, rfl, h.ledger.unknown _ (le_refl _)⟩
  · rw [hlisted _ n rfl, not_or] at hn
    rw [List.getElem?_append] at hf
    split_ifs at hf with hlt
    · exact h.ledger.answered n f hf hn.1
    · have hlt' := (List.getElem?_eq_some_iff.mp hf).1
      rw [List.length_singleton] at hlt'
      exact absurd (show n = s.finds.length by omega) hn.2
  · rw [List.length_append] at hn
    exact h.ledger.unknown n (by omega)
  · change (s.pendingFinds.set (findId (s.finds.length + 1)) s.finds.length).get? id = some n at hid
    rw [JsMap.get?_set] at hid
    split_ifs at hid with hid'
    · rw [hid', Option.some.inj hid]
    · exact h.ids id n hid
  · rcases List.mem_append.mp hf with hf | hf
    · exact h.alive f hf htimer
    · rw [List.mem_singleton.mp hf]
      exact halive

/-! ### The client -/

structure Core (s : MeshRelayClient) : Prop where
  agrees : Agrees s
  closed : s.userClosed = true → wanted s.log = false
  opened : ∀ (i : ℕ) (r : RelaySocket), s.sockets[i]? = some r → r.socket.phase = .opened → r.settled ≠ none
  searches : Searches s

structure Sound (s : MeshRelayClient) : Prop extends Core s where
  recovers : Recovers s

/-- The close event of a socket: of the current one, or of one that does not matter any more, and no search of it
waits. -/
def MayClose (s : MeshRelayClient) (i : ℕ) : Prop :=
  (s.ws = some i ∨ s.state = .disconnected ∨ ∀ r ∈ s.sockets[i]?, r.settled = none) ∧
    ∀ f ∈ s.finds, f.timer = true → f.socket ≠ i

/-- A `connect()` that fails leaves something to follow, if there was a drop. -/
def MayFail (s : MeshRelayClient) : Prop := s.autoReconnect = true → .dropped ∈ s.log → s.Followed

instance (s : MeshRelayClient) (i : ℕ) : Decidable (s.MayClose i) := inferInstanceAs (Decidable (_ ∧ _))

instance (s : MeshRelayClient) : Decidable s.MayFail := inferInstanceAs (Decidable (_ → _))

def MayCall (s : MeshRelayClient) : RelayCall → Prop
  | .socket i .closes => s.MayClose i
  | _ => True

/-- A socket opened: the current one, that is alive and wanted.  Another that failed: nothing is connected. -/
def MayOpen (s : MeshRelayClient) (i : ℕ) : Option Opening → Prop
  | some .resolved => s.state = .connected ∨ s.ws = some i ∧ s.AliveAt i ∧ wanted s.log = true
  | some (.rejected _) => (s.ws = some i ∨ s.state = .disconnected) ∧ s.MayFail
  | none => True

def MayGoOn (s : MeshRelayClient) : RelayFrame → Unit → Prop
  | .opening i, _ => s.MayOpen i (s.sockets[i]?.bind RelaySocket.settled)
  | .failing, _ => s.MayFail
  | .finding _, _ => True

instance (s : MeshRelayClient) : ∀ call, Decidable (s.MayCall call)
  | .connect _ => .isTrue trivial
  | .disconnect => .isTrue trivial
  | .findPeers => .isTrue trivial
  | .socket i .closes => inferInstanceAs (Decidable (s.MayClose i))
  | .socket _ .opens => .isTrue trivial
  | .socket _ .errors => .isTrue trivial
  | .message _ _ => .isTrue trivial
  | .reconnectTimer _ => .isTrue trivial
  | .findTimer _ => .isTrue trivial

instance (s : MeshRelayClient) (i : ℕ) : ∀ opening, Decidable (s.MayOpen i opening)
  | some .resolved => inferInstanceAs (Decidable (_ ∨ _))
  | some (.rejected _) => inferInstanceAs (Decidable (_ ∧ _))
  | none => .isTrue trivial

instance (s : MeshRelayClient) : ∀ frame event, Decidable (s.MayGoOn frame event)
  | .opening i, _ => inferInstanceAs (Decidable (s.MayOpen i _))
  | .failing, _ => inferInstanceAs (Decidable s.MayFail)
  | .finding _, _ => .isTrue trivial

theorem Sound.quiet (h : Sound s) (hn : Quiet n) (hnew : ∀ k, n ≠ .settled k) : Sound (s.note n) := by
  refine ⟨⟨fun hstate => ?_, fun hclosed => ?_, h.opened, ?_⟩, fun hauto hdropped => ?_⟩
  · obtain ⟨i, hi, halive, hwanted⟩ := h.agrees hstate
    exact ⟨i, hi, halive, (hn.2 s.log).trans hwanted⟩
  · exact (hn.2 s.log).trans (h.closed hclosed)
  · exact h.searches.note hnew
  · exact (h.recovers hauto (hn.mem hdropped)).imp_right fun hf => hf.quiet hn rfl rfl rfl rfl

/-- The state becomes `disconnected`. -/
theorem Sound.disconnected (h : Sound s) (hn : Quiet n) (hnew : ∀ k, n ≠ .settled k)
    (hfollowed : s.MayFail) : Sound ({ s with state := .disconnected }.note n) := by
  refine ⟨⟨fun hstate => ?_, fun hclosed => ?_, h.opened, ?_⟩, fun hauto hdropped => .inr ?_⟩
  · cases hstate
  · exact (hn.2 s.log).trans (h.closed hclosed)
  · exact (h.searches.note hnew).congr rfl rfl (fun _ => rfl) (fun _ _ _ halive => halive)
  · exact (hfollowed hauto (hn.mem hdropped)).quiet hn rfl rfl rfl rfl

theorem Sound.connected (h : Sound s)
    (hopen : s.state = .connected ∨ s.ws = some i ∧ s.AliveAt i ∧ wanted s.log = true) : Sound s.connected := by
  refine ⟨⟨fun _ => ?_, h.closed, h.opened, ?_⟩, fun _ _ => .inl (fun hstate => by cases hstate)⟩
  · rcases hopen with hstate | ⟨hi, halive, hwanted⟩
    · exact h.agrees hstate
    · exact ⟨i, hi, halive, hwanted⟩
  · exact (h.searches.note (n := .connected) fun k hk => (by cases hk)).congr rfl rfl (fun _ => rfl)
      (fun _ _ _ halive => halive)

theorem aliveAt_append (r : RelaySocket) (hs' : s'.sockets = s.sockets ++ [r])
    (h : s.AliveAt i) : s'.AliveAt i := by
  obtain ⟨r', hr', halive⟩ := h
  refine ⟨r', ?_, halive⟩
  rw [hs', List.getElem?_append_left (List.getElem?_eq_some_iff.mp hr').1]
  exact hr'

/-- `connect` keeps what holds but for the user's call, and whatever followed. -/
theorem sound_connect (hagrees : Agrees s)
    (hopened : ∀ (i : ℕ) (r : RelaySocket), s.sockets[i]? = some r → r.socket.phase = .opened → r.settled ≠ none)
    (hsearches : Searches s) (hclosed : s.state = .connected → s.userClosed = true → wanted s.log = false)
    (fails : Bool) : Sound (s.connect fails).1 := by
  unfold MeshRelayClient.connect
  by_cases hstate : s.state = .connected
  · rw [if_pos hstate]
    exact ⟨⟨hagrees, hclosed hstate, hopened, hsearches⟩, fun _ _ => .inl (fun h => by cases hstate.symm.trans h)⟩
  · rw [if_neg hstate]
    cases fails with
    | true =>
        refine ⟨⟨fun h => (by cases h), fun h => (by cases h), hopened, ?_⟩, fun _ _ => .inl (fun h => by cases h)⟩
        exact hsearches.congr rfl rfl (fun _ => rfl) (fun f hf htimer halive => halive)
    | false =>
        refine ⟨⟨fun h => (by cases h), fun h => (by cases h), fun i r hr hphase => ?_, ?_⟩,
          fun _ _ => .inl (fun h => by cases h)⟩
        · change (s.sockets ++ [⟨.fresh, none⟩])[i]? = some r at hr
          rw [List.getElem?_append] at hr
          split_ifs at hr
          · exact hopened i r hr hphase
          · rw [List.mem_singleton.mp (List.mem_of_getElem? hr)] at hphase
            cases hphase
        · exact hsearches.congr rfl rfl (fun _ => rfl) (fun f hf htimer halive => aliveAt_append _ rfl halive)

theorem Sound.connectCalled (h : Sound s) (fails : Bool) : Sound ((s.note .connectCalled).connect fails).1 := by
  refine sound_connect (s := s.note .connectCalled) (fun hstate => ?_) h.opened ?_ (fun hstate hclosed => ?_) fails
  · obtain ⟨i, hi, halive, -⟩ := h.agrees hstate
    exact ⟨i, hi, halive, rfl⟩
  · exact h.searches.note (fun k hk => (by cases hk))
  · obtain ⟨i, -, -, hwanted⟩ := h.agrees hstate
    cases (h.closed hclosed).symm.trans hwanted

theorem Sound.reconnectTimer (h : Sound s) (fails : Bool) :
    Sound (if s.userClosed then ({ s with timers := s.timers - 1 }, .returned .done)
      else { s with timers := s.timers - 1 }.connect fails).1 := by
  have hsearches : Searches { s with timers := s.timers - 1 } :=
    h.searches.congr rfl rfl (fun _ => rfl) (fun f hf htimer halive => halive)
  by_cases hclosed : s.userClosed = true
  · rw [if_pos hclosed]
    exact ⟨⟨h.agrees, h.closed, h.opened, hsearches⟩, fun _ _ => .inr (.inr (.inl (h.closed hclosed)))⟩
  · rw [if_neg hclosed]
    exact sound_connect (s := { s with timers := s.timers - 1 }) h.agrees h.opened hsearches (fun _ => h.closed) fails

/-! ### Closing -/

theorem values_nodup (h : Searches s) : s.pendingFinds.values.Nodup := by
  have hkeys : s.pendingFinds.keys = s.pendingFinds.values.map fun n => findId (n + 1) := by
    unfold JsMap.keys JsMap.values
    rw [List.map_map]
    refine List.map_congr_left fun e he => ?_
    exact h.ids e.1 e.2 (JsMap.mem_entries_iff.mp he)
  have hnodup : s.pendingFinds.keys.Nodup := s.pendingFinds.nodup
  rw [hkeys] at hnodup
  exact hnodup.of_map

theorem mem_values_iff (h : Searches s) (n : ℕ) : n ∈ s.pendingFinds.values ↔ s.Listed n := by
  unfold JsMap.values Listed
  rw [List.mem_map]
  constructor
  · rintro ⟨⟨id, n'⟩, he, rfl⟩
    have hid := JsMap.mem_entries_iff.mp he
    rw [← h.ids id n' hid]
    exact hid
  · exact fun hn => ⟨(findId (n + 1), n), JsMap.mem_entries_iff.mpr hn, rfl⟩

/-- What `disconnect` does when there is something to disconnect. -/
theorem disconnect_of_ne (h : s.state ≠ .disconnected) : ∃ sockets ws,
    s.disconnect = MeshRelayClient.note { s with
      userClosed := true, sockets, ws, pendingFinds := .empty, state := .disconnected, knownPeerCount := 0
      finds := s.pendingFinds.values.foldl (fun finds n => finds.modify n (.answer .rejected)) s.finds
      log := s.pendingFinds.values.reverse.map RelayNote.settled ++ s.log } .disconnected ∧
    (sockets = s.sockets ∨ ∃ i, sockets = s.sockets.modify i fun r : RelaySocket => { r with socket := r.socket.close }) := by
  unfold MeshRelayClient.disconnect
  rw [if_neg h]
  cases hws : s.ws with
  | none =>
      refine ⟨s.sockets, none, ?_, .inl rfl⟩
      simp only [foldl_settle, MeshRelayClient.note]
  | some i =>
      refine ⟨_, none, ?_, .inr ⟨i, rfl⟩⟩
      simp only [foldl_settle, MeshRelayClient.note, modifySocket]

theorem getElem?_rejected (h : Searches s) {n : ℕ} {f : Find} (hf : s.finds[n]? = some f) (htimer : f.timer = true) :
    (s.pendingFinds.values.foldl (fun finds n => finds.modify n (.answer .rejected)) s.finds)[n]? =
      some (f.answer .rejected) := by
  rw [getElem?_answerAll, if_pos ((mem_values_iff h n).mpr (h.listed_of_timer hf htimer)), hf]
  rfl

theorem timer_answerAll (h : Searches s) (outcome : FindOutcome) :
    ∀ f ∈ s.pendingFinds.values.foldl (fun finds n => finds.modify n (.answer outcome)) s.finds, f.timer = false := by
  intro f hf
  obtain ⟨n, hn⟩ := List.mem_iff_getElem?.mp hf
  rw [getElem?_answerAll] at hn
  by_cases hmem : n ∈ s.pendingFinds.values
  · rw [if_pos hmem] at hn
    obtain ⟨f₀, -, rfl⟩ := Option.map_eq_some_iff.mp hn
    rfl
  · rw [if_neg hmem] at hn
    exact (h.ledger.answered n f hn fun hlisted => hmem ((mem_values_iff h n).mpr hlisted)).2.1

theorem Sound.disconnectCalled (h : Sound s) : Sound (s.note .disconnectCalled).disconnect := by
  have hsearches : Searches (s.note .disconnectCalled) :=
    h.searches.note (fun k hk => (by cases hk))
  by_cases hstate : s.state = .disconnected
  · rw [show (s.note .disconnectCalled).disconnect = s.note .disconnectCalled from if_pos hstate]
    exact ⟨⟨fun hconnected => (by cases hstate.symm.trans hconnected), fun _ => rfl, h.opened, hsearches⟩,
      fun _ _ => .inr (.inr (.inl rfl))⟩
  · obtain ⟨sockets, ws, heq, hsockets⟩ := disconnect_of_ne (s := s.note .disconnectCalled) hstate
    have hlog : wanted (s.note .disconnectCalled).disconnect.log = false := by
      rw [heq]
      exact wanted_settled s.pendingFinds.values.reverse (.disconnectCalled :: s.log)
    refine ⟨⟨fun hconnected => ?_, fun _ => hlog, fun i r hr hphase => ?_, ?_⟩, fun _ _ => .inr (.inr (.inl hlog))⟩
    · rw [heq] at hconnected
      cases hconnected
    · rw [heq] at hr
      rcases hsockets with rfl | ⟨j, rfl⟩
      · exact h.opened i r hr hphase
      · change (s.sockets.modify j _)[i]? = some r at hr
        rw [List.getElem?_modify] at hr
        obtain ⟨r₀, hr₀, rfl⟩ := Option.map_eq_some_iff.mp hr
        split_ifs at hphase ⊢
        · exact h.opened i r₀ hr₀ hphase
        · exact h.opened i r₀ hr₀ hphase
    · rw [heq]
      refine Searches.note (hsearches.answerAll .rejected (l := s.pendingFinds.values) (values_nodup h.searches)
        (fun n hn => (mem_values_iff h.searches n).mp hn) ?_ ?_ ?_ ?_) (fun k hk => (by cases hk))
      · rw [foldl_settle]
        rfl
      · rw [foldl_settle]
        rfl
      · intro id n
        refine ⟨fun hid => (by cases hid), fun hid => absurd ?_ hid.2⟩
        refine (mem_values_iff h.searches n).mpr ?_
        unfold Listed
        rw [← h.searches.ids id n hid.1]
        exact hid.1
      · intro f hf htimer
        cases htimer.symm.trans (timer_answerAll h.searches .rejected f hf)

/-! ### Sockets -/

variable {f : RelaySocket → RelaySocket} {r : RelaySocket}

theorem aliveAt_modify {j : ℕ} (hr : s.sockets[i]? = some r)
    (hf : r.socket.Alive → (f r).socket.Alive) (h : s.AliveAt j) : (s.modifySocket i f).AliveAt j := by
  obtain ⟨r', hr', halive⟩ := h
  refine ⟨if i = j then f r' else r', ?_, ?_⟩
  · change (s.sockets.modify i f)[j]? = _
    rw [List.getElem?_modify, hr']
    rfl
  · split_ifs with hij
    · subst hij
      obtain rfl := Option.some.inj (hr.symm.trans hr')
      exact hf halive
    · exact halive

theorem aliveAt_modify_ne {j : ℕ} (hij : j ≠ i) (h : s.AliveAt j) :
    (s.modifySocket i f).AliveAt j := by
  obtain ⟨r', hr', halive⟩ := h
  refine ⟨r', ?_, halive⟩
  change (s.sockets.modify i f)[j]? = _
  simpa only [List.getElem?_modify, if_neg (Ne.symm hij), id_map'] using Option.mem_def.mp hr'

theorem opened_modify (h : Sound s) (hr : s.sockets[i]? = some r)
    (hf : (f r).socket.phase = .opened → (f r).settled ≠ none) (j : ℕ) (r' : RelaySocket)
    (hr' : (s.modifySocket i f).sockets[j]? = some r') (hphase : r'.socket.phase = .opened) : r'.settled ≠ none := by
  change (s.sockets.modify i f)[j]? = some r' at hr'
  rw [List.getElem?_modify] at hr'
  obtain ⟨r₀, hr₀, rfl⟩ := Option.map_eq_some_iff.mp hr'
  split_ifs at hphase ⊢ with hij
  · subst hij
    obtain rfl := Option.some.inj (hr.symm.trans hr₀)
    exact hf hphase
  · exact h.opened j r₀ hr₀ hphase

theorem Sound.modifySocket (h : Sound s) (hr : s.sockets[i]? = some r) (halive : r.socket.Alive → (f r).socket.Alive)
    (hopened : (f r).socket.phase = .opened → (f r).settled ≠ none) : Sound (s.modifySocket i f) := by
  refine ⟨⟨fun hstate => ?_, h.closed, opened_modify h hr hopened, ?_⟩, h.recovers⟩
  · obtain ⟨j, hj, hcurrent, hwanted⟩ := h.agrees hstate
    exact ⟨j, hj, aliveAt_modify hr halive hcurrent, hwanted⟩
  · exact h.searches.congr rfl rfl (fun _ => rfl) (fun g hg htimer => aliveAt_modify hr halive)

theorem modifySocket_modifySocket (f g : RelaySocket → RelaySocket) :
    (s.modifySocket i f).modifySocket i g = s.modifySocket i (g ∘ f) := by
  simp only [MeshRelayClient.modifySocket, List.modify_modify_eq]

theorem sound_scheduleReconnect (h : Core s) : Sound s.scheduleReconnect := by
  unfold scheduleReconnect
  split_ifs with hmax
  · refine ⟨⟨h.agrees, h.closed, h.opened, ?_⟩, fun _ _ => .inr (.inr (.inr ⟨hmax, List.mem_cons_self⟩))⟩
    exact h.searches.note (fun k hk => (by cases hk))
  · refine ⟨⟨h.agrees, h.closed, h.opened, ?_⟩, fun _ _ => .inr (.inl (Nat.succ_ne_zero _))⟩
    exact h.searches.congr rfl rfl (fun _ => rfl) (fun f hf htimer halive => halive)

theorem onClose_of_unsettled (h : r.settled = none) :
    s.onClose i r = s.reject i .closedBeforeOpen := if_pos h

theorem errors_of_unsettled (h : r.settled = none) :
    s.onSocket i r .errors = s.reject i .socketFailed := if_pos h

theorem errors_of_settled (h : r.settled ≠ none) :
    s.onSocket i r .errors = s.note (.error .socketFailed) := if_neg h

theorem onClose_of_settled (h : r.settled ≠ none) : s.onClose i r =
    if s.userClosed = false ∧ s.autoReconnect = true then
      ({ s with state := .disconnected }.note .disconnected).scheduleReconnect
    else { s with state := .disconnected }.note .disconnected := if_neg h

theorem Core.onClose (hsettled : r.settled ≠ none)
    (h : Core ({ s with state := .disconnected }.note .disconnected)) : Sound (s.onClose i r) := by
  rw [onClose_of_settled hsettled]
  split_ifs with hreconnects
  · exact sound_scheduleReconnect h
  · refine ⟨h, fun hauto _ => .inr (.inr (.inl (h.closed ?_)))⟩
    by_contra hclosed
    exact hreconnects ⟨Bool.eq_false_of_not_eq_true hclosed, hauto⟩

variable {socket : Socket}

theorem Sound.closes (h : Sound s) (hr : s.sockets[i]? = some r)
    (hsocket : r.socket.receive .closes = some socket) (hwaits : ∀ f ∈ s.finds, f.timer = true → f.socket ≠ i)
    (hsettled : r.settled ≠ none) :
    Sound ((s.modifySocket i fun r : RelaySocket => { r with socket }).onSocket i r .closes) := by
  obtain ⟨-, rfl⟩ := Socket.receive_closes hsocket
  set s₁ := s.modifySocket i fun r' : RelaySocket => { r' with socket := { r.socket with phase := .closed } } with hs₁
  have hdropped : (if r.socket.Alive then s₁.note .dropped else s₁) =
      { s₁ with log := if r.socket.Alive then .dropped :: s.log else s.log } := by
    split_ifs <;> rfl
  have hcore : Core ({ s₁ with
      state := .disconnected
      log := if r.socket.Alive then .dropped :: s.log else s.log }.note .disconnected) := by
    have hwanted : wanted (if r.socket.Alive then .dropped :: s.log else s.log) = wanted s.log := by
      split_ifs <;> rfl
    have hcount : ∀ n, (if r.socket.Alive then .dropped :: s.log else s.log).count (.settled n) =
        s.log.count (.settled n) := by
      intro n
      split_ifs
      · exact List.count_cons_of_ne (fun heq => (by cases heq))
      · rfl
    refine ⟨fun hstate => (by cases hstate), fun hclosed => hwanted.trans (h.closed hclosed), ?_, ?_⟩
    · exact opened_modify h hr (fun hphase => by cases hphase)
    · refine Searches.note ?_ (fun k hk => by cases hk)
      exact h.searches.congr rfl rfl hcount (fun f hf htimer => aliveAt_modify_ne (hwaits f hf htimer))
  change Sound ((if r.socket.Alive then s₁.note .dropped else s₁).onClose i r)
  rw [hdropped]
  exact hcore.onClose hsettled

variable {e : SocketEvent}

theorem Sound.onSocket (h : Sound s)
    (hr : s.sockets[i]? = some r) (hsocket : r.socket.receive e = some socket) (hmay : s.MayCall (.socket i e)) :
    Sound ((s.modifySocket i fun r : RelaySocket => { r with socket }).onSocket i r e) := by
  cases e with
  | opens =>
      change Sound (MeshRelayClient.modifySocket _ i _)
      rw [modifySocket_modifySocket]
      refine h.modifySocket hr (fun halive => halive.receive hsocket (fun heq => by cases heq)) (fun _ => ?_)
      change r.settled.or (some .resolved) ≠ none
      cases r.settled <;> exact fun heq => by cases heq
  | errors =>
      obtain ⟨-, rfl⟩ := Socket.receive_errors hsocket
      by_cases hsettled : r.settled = none
      · rw [errors_of_unsettled hsettled]
        unfold reject
        rw [modifySocket_modifySocket]
        exact h.modifySocket hr (fun halive => halive.receive hsocket (fun heq => by cases heq))
          (fun _ heq => by cases heq)
      · rw [errors_of_settled hsettled]
        exact (h.modifySocket hr (fun halive => halive.receive hsocket (fun heq => by cases heq))
          (fun _ => hsettled)).quiet (quiet_error _) (fun k hk => by cases hk)
  | closes =>
      obtain ⟨-, hwaits⟩ := hmay
      by_cases hsettled : r.settled = none
      · have hphase : ¬ r.socket.Alive := fun halive => h.opened i r hr halive.1 hsettled
        obtain ⟨-, rfl⟩ := Socket.receive_closes hsocket
        change Sound (MeshRelayClient.onClose (if r.socket.Alive then _ else _) i r)
        rw [if_neg hphase, onClose_of_unsettled hsettled]
        unfold reject
        rw [modifySocket_modifySocket]
        exact h.modifySocket hr (fun halive => absurd halive hphase) (fun _ heq => by cases heq)
      · exact h.closes hr hsocket hwaits hsettled

theorem Sound.settle (h : Sound s) (outcome : FindOutcome) {n : ℕ} (hid : s.pendingFinds.get? id = some n) :
    Sound ({ s with pendingFinds := s.pendingFinds.delete id }.settle outcome n) :=
  ⟨⟨h.agrees, h.closed, h.opened, h.searches.settle outcome hid⟩,
    fun hauto hdropped => (h.recovers hauto ((quiet_settled n).mem hdropped)).imp_right
      fun hf => hf.quiet (quiet_settled n) rfl rfl rfl rfl⟩

theorem handleWsMessage_of_unknown {peers : Option (List JsString)}
    (h : s.pendingFinds.get? id = none) : s.handleWsMessage (.findResponse id peers) = s := by
  simp only [handleWsMessage, h]

theorem handleWsMessage_of_known {peers : Option (List JsString)} {n : ℕ}
    (h : s.pendingFinds.get? id = some n) : s.handleWsMessage (.findResponse id peers) =
      { s with pendingFinds := s.pendingFinds.delete id }.settle (.resolved peers) n := by
  simp only [handleWsMessage, h]

theorem Sound.findPeers (h : Sound s) : Sound s.findPeers.1 := by
  unfold MeshRelayClient.findPeers
  split_ifs with hstate
  · exact h
  · rw [not_not] at hstate
    obtain ⟨i, hi, halive, hwanted⟩ := h.agrees hstate
    have hsearches := h.searches.findPeers hi halive hstate
    unfold MeshRelayClient.findPeers at hsearches
    rw [if_neg (not_not.mpr hstate)] at hsearches
    rw [hi] at hsearches ⊢
    exact ⟨⟨fun _ => ⟨i, rfl, halive, hwanted⟩, h.closed, h.opened, hsearches⟩, h.recovers⟩

/-! ### Steps -/

theorem Sound.startCall (h : Sound s) {call : RelayCall} (hmay : s.MayCall call) {r : MeshRelayClient × RelayTask}
    (hr : s.startCall call = some r) : Sound r.1 := by
  cases call with
  | connect fails =>
      obtain rfl := Option.some.inj hr
      exact h.connectCalled fails
  | disconnect =>
      obtain rfl := Option.some.inj hr
      exact h.disconnectCalled
  | findPeers =>
      obtain rfl := Option.some.inj hr
      exact h.findPeers
  | socket i e =>
      obtain ⟨r₀, hr₀, hr⟩ := Option.bind_eq_some_iff.mp hr
      obtain ⟨socket, hsocket, hr⟩ := Option.bind_eq_some_iff.mp hr
      obtain rfl := Option.some.inj hr
      exact h.onSocket hr₀ hsocket hmay
  | message i m =>
      obtain ⟨r₀, hr₀, hr⟩ := Option.bind_eq_some_iff.mp hr
      obtain ⟨hopened, hr⟩ := Option.ite_none_right_eq_some.mp hr
      obtain rfl := Option.some.inj hr
      cases m with
      | findResponse id peers =>
          change Sound (s.handleWsMessage (.findResponse id peers))
          cases hid : s.pendingFinds.get? id with
          | none =>
              rw [handleWsMessage_of_unknown hid]
              exact h
          | some n =>
              rw [handleWsMessage_of_known hid]
              exact h.settle _ hid
      | error => exact h.quiet (quiet_error _) (fun k hk => by cases hk)
      | other => exact h
  | reconnectTimer fails =>
      obtain ⟨-, hr⟩ := Option.ite_none_left_eq_some.mp hr
      obtain rfl := Option.some.inj hr
      exact h.reconnectTimer fails
  | findTimer n =>
      obtain ⟨f, hf, hr⟩ := Option.bind_eq_some_iff.mp hr
      obtain ⟨htimer, hr⟩ := Option.ite_none_right_eq_some.mp hr
      obtain rfl := Option.some.inj hr
      refine h.settle _ ?_
      rw [h.searches.requestId hf]
      exact h.searches.listed_of_timer hf htimer

theorem Sound.resumeCall (h : Sound s) {frame : RelayFrame} {u : Unit} (hmay : s.MayGoOn frame u)
    {r : MeshRelayClient × RelayTask} (hr : s.resumeCall frame u = some r) : Sound r.1 := by
  cases frame with
  | opening i =>
      obtain ⟨r₀, hr₀, hr⟩ := Option.bind_eq_some_iff.mp hr
      obtain ⟨opening, hopening, hr⟩ := Option.bind_eq_some_iff.mp hr
      have hmay' : s.MayOpen i (some opening) := by
        rw [← hopening, ← Option.bind_some (f := RelaySocket.settled) (a := r₀), ← hr₀]
        exact hmay
      cases opening with
      | resolved =>
          obtain rfl := Option.some.inj hr
          exact h.connected hmay'
      | rejected e =>
          obtain rfl := Option.some.inj hr
          exact h.disconnected (quiet_error e) (fun k hk => by cases hk) hmay'.2
  | failing =>
      obtain rfl := Option.some.inj hr
      exact h.disconnected (quiet_error _) (fun k hk => by cases hk) hmay
  | finding n =>
      obtain ⟨f, hf, hr⟩ := Option.bind_eq_some_iff.mp hr
      obtain ⟨outcome, houtcome, hr⟩ := Option.bind_eq_some_iff.mp hr
      obtain rfl := Option.some.inj hr
      cases outcome with
      | rejected => exact h
      | resolved peers =>
          cases peers with
          | none => exact h
          | some peers =>
              refine ⟨⟨h.agrees, h.closed, h.opened, ?_⟩, h.recovers⟩
              exact h.searches.congr rfl rfl (fun _ => rfl) (fun _ _ _ halive => halive)

/-! ### What a step leaves as it was -/

/-- No search is forgotten, and no socket of a search that waits is lost, unless it is rejected. -/
structure Grows (s s' : MeshRelayClient) : Prop where
  length : s.finds.length ≤ s'.finds.length
  lost : ∀ (n : ℕ) (f : Find), s.finds[n]? = some f → f.timer = true → s.AliveAt f.socket →
    s'.AliveAt f.socket ∨ s'.finds[n]? = some (f.answer .rejected)

theorem grows_of_alive (hlength : s.finds.length ≤ s'.finds.length)
    (h : ∀ f ∈ s.finds, f.timer = true → s.AliveAt f.socket → s'.AliveAt f.socket) : Grows s s' :=
  ⟨hlength, fun _ f hf htimer halive => .inl (h f (List.mem_of_getElem? hf) htimer halive)⟩

theorem grows_connect (fails : Bool) : Grows s (s.connect fails).1 := by
  unfold MeshRelayClient.connect
  split_ifs
  · exact grows_of_alive (le_refl _) (fun _ _ _ halive => halive)
  · exact grows_of_alive (le_refl _) (fun _ _ _ halive => halive)
  · exact grows_of_alive (le_refl _) (fun _ _ _ halive => aliveAt_append _ rfl halive)

theorem connect_ne_finding (fails : Bool) (n : ℕ) : (s.connect fails).2 ≠ .waiting (.finding n) := by
  unfold MeshRelayClient.connect
  split_ifs <;> exact fun hn => by cases hn

theorem grows_disconnect (h : Searches s) : Grows s s.disconnect := by
  by_cases hstate : s.state = .disconnected
  · rw [show s.disconnect = s from if_pos hstate]
    exact grows_of_alive (le_refl _) (fun _ _ _ halive => halive)
  · obtain ⟨sockets, ws, heq, -⟩ := disconnect_of_ne hstate
    rw [heq]
    refine ⟨?_, fun n f hf htimer _ => .inr (getElem?_rejected h hf htimer)⟩
    exact le_of_eq (length_answerAll _ _ _).symm

/-- The searches stay, and of the sockets only promises are settled. -/
def OnlySettles (i : ℕ) (s s' : MeshRelayClient) : Prop := s'.finds = s.finds ∧
  ∃ settled : RelaySocket → Option Opening, s'.sockets = s.sockets.modify i fun r : RelaySocket => { r with settled := settled r }

theorem onlySettles_of_same (hfinds : s'.finds = s.finds) (hsockets : s'.sockets = s.sockets) :
    OnlySettles i s s' :=
  ⟨hfinds, RelaySocket.settled, hsockets.trans (List.modify_id i s.sockets).symm⟩

theorem onlySettles_onClose (r : RelaySocket) : OnlySettles i s (s.onClose i r) := by
  by_cases hsettled : r.settled = none
  · rw [onClose_of_unsettled hsettled]
    exact ⟨rfl, fun _ => some (.rejected .closedBeforeOpen), rfl⟩
  · rw [onClose_of_settled hsettled]
    unfold scheduleReconnect
    split_ifs <;> exact onlySettles_of_same rfl rfl

theorem onlySettles_onSocket (r : RelaySocket) (e : SocketEvent) : OnlySettles i s (s.onSocket i r e) := by
  cases e with
  | opens => exact ⟨rfl, fun r => r.settled.or (some .resolved), rfl⟩
  | errors =>
      by_cases hsettled : r.settled = none
      · rw [errors_of_unsettled hsettled]
        exact ⟨rfl, fun _ => some (.rejected .socketFailed), rfl⟩
      · rw [errors_of_settled hsettled]
        exact onlySettles_of_same rfl rfl
  | closes =>
      change OnlySettles i s ((if r.socket.Alive then s.note .dropped else s).onClose i r)
      split_ifs
      · obtain ⟨hfinds, hsockets⟩ := onlySettles_onClose (s := s.note .dropped) (i := i) r
        exact ⟨hfinds, hsockets⟩
      · exact onlySettles_onClose r

theorem OnlySettles.aliveAt {j : ℕ} (h : OnlySettles i s s') (halive : s.AliveAt j) : s'.AliveAt j := by
  obtain ⟨-, settled, hsockets⟩ := h
  obtain ⟨r, hr, hr'⟩ := halive
  refine ⟨if i = j then { r with settled := settled r } else r, ?_, ?_⟩
  · rw [hsockets, List.getElem?_modify, Option.mem_def.mp hr]
    rfl
  · split_ifs
    · exact hr'
    · exact hr'

theorem grows_onSocket (hr : s.sockets[i]? = some r)
    (hsocket : r.socket.receive e = some socket) (hmay : s.MayCall (.socket i e)) :
    Grows s ((s.modifySocket i fun r : RelaySocket => { r with socket }).onSocket i r e) := by
  have honly := onlySettles_onSocket (s := s.modifySocket i fun r : RelaySocket => { r with socket }) (i := i) r e
  refine grows_of_alive (le_of_eq (congrArg List.length honly.1).symm) fun f hf htimer halive => honly.aliveAt ?_
  by_cases he : e = .closes
  · subst he
    exact aliveAt_modify_ne (hmay.2 f hf htimer) halive
  · exact aliveAt_modify hr (fun hr' => hr'.receive hsocket he) halive

theorem grows_settle (outcome : FindOutcome) (n : ℕ) (id : JsString) :
    Grows s ({ s with pendingFinds := s.pendingFinds.delete id }.settle outcome n) :=
  ⟨le_of_eq (List.length_modify ..).symm, fun _ _ _ _ halive => .inl halive⟩

theorem Sound.grows_startCall (h : Sound s) {call : RelayCall} (hmay : s.MayCall call) {r : MeshRelayClient × RelayTask}
    (hr : s.startCall call = some r) : Grows s r.1 ∧ ∀ n, r.2 = .waiting (.finding n) → n < r.1.finds.length := by
  have hsame : Grows s s := grows_of_alive (le_refl _) (fun _ _ _ halive => halive)
  cases call with
  | connect fails =>
      obtain rfl := Option.some.inj hr
      exact ⟨⟨(grows_connect (s := s.note .connectCalled) fails).length, (grows_connect (s := s.note .connectCalled) fails).lost⟩,
        fun n hn => absurd hn (connect_ne_finding fails n)⟩
  | disconnect =>
      obtain rfl := Option.some.inj hr
      have hgrows := grows_disconnect (s := s.note .disconnectCalled) (h.searches.note (fun k hk => by cases hk))
      exact ⟨⟨hgrows.length, hgrows.lost⟩, fun n hn => (by cases hn)⟩
  | findPeers =>
      obtain rfl := Option.some.inj hr
      change Grows s s.findPeers.1 ∧ ∀ n, s.findPeers.2 = .waiting (.finding n) → n < s.findPeers.1.finds.length
      unfold MeshRelayClient.findPeers
      split_ifs
      · exact ⟨hsame, fun n hn => by cases hn⟩
      · cases s.ws with
        | none => exact ⟨hsame, fun n hn => by cases hn⟩
        | some i =>
            refine ⟨⟨?_, fun n f _ _ halive => .inl halive⟩, fun n hn => ?_⟩
            · simp
            · cases hn
              simp
  | socket i e =>
      obtain ⟨r₀, hr₀, hr⟩ := Option.bind_eq_some_iff.mp hr
      obtain ⟨socket, hsocket, hr⟩ := Option.bind_eq_some_iff.mp hr
      obtain rfl := Option.some.inj hr
      exact ⟨grows_onSocket hr₀ hsocket hmay, fun n hn => by cases hn⟩
  | message i m =>
      obtain ⟨r₀, hr₀, hr⟩ := Option.bind_eq_some_iff.mp hr
      obtain ⟨hopened, hr⟩ := Option.ite_none_right_eq_some.mp hr
      obtain rfl := Option.some.inj hr
      refine ⟨?_, fun n hn => by cases hn⟩
      cases m with
      | findResponse id peers =>
          change Grows s (s.handleWsMessage (.findResponse id peers))
          cases hid : s.pendingFinds.get? id with
          | none =>
              rw [handleWsMessage_of_unknown hid]
              exact hsame
          | some n =>
              rw [handleWsMessage_of_known hid]
              exact grows_settle _ n id
      | error => exact ⟨hsame.length, hsame.lost⟩
      | other => exact hsame
  | reconnectTimer fails =>
      obtain ⟨-, hr⟩ := Option.ite_none_left_eq_some.mp hr
      obtain rfl := Option.some.inj hr
      by_cases hclosed : s.userClosed = true
      · rw [if_pos hclosed]
        exact ⟨⟨hsame.length, hsame.lost⟩, fun n hn => by cases hn⟩
      · rw [if_neg hclosed]
        have hgrows := grows_connect (s := { s with timers := s.timers - 1 }) fails
        exact ⟨⟨hgrows.length, hgrows.lost⟩, fun n hn => absurd hn (connect_ne_finding fails n)⟩
  | findTimer n =>
      obtain ⟨f, hf, hr⟩ := Option.bind_eq_some_iff.mp hr
      obtain ⟨htimer, hr⟩ := Option.ite_none_right_eq_some.mp hr
      obtain rfl := Option.some.inj hr
      exact ⟨grows_settle _ n _, fun n hn => by cases hn⟩

theorem grows_resumeCall {frame : RelayFrame} {u : Unit} {r : MeshRelayClient × RelayTask}
    (hr : s.resumeCall frame u = some r) : Grows s r.1 ∧ ∀ n, r.2 ≠ .waiting (.finding n) := by
  have hsame : Grows s s := grows_of_alive (le_refl _) (fun _ _ _ halive => halive)
  cases frame with
  | opening i =>
      obtain ⟨r₀, hr₀, hr⟩ := Option.bind_eq_some_iff.mp hr
      obtain ⟨opening, hopening, hr⟩ := Option.bind_eq_some_iff.mp hr
      cases opening with
      | resolved =>
          obtain rfl := Option.some.inj hr
          exact ⟨⟨hsame.length, hsame.lost⟩, fun n hn => by cases hn⟩
      | rejected e =>
          obtain rfl := Option.some.inj hr
          exact ⟨⟨hsame.length, hsame.lost⟩, fun n hn => by cases hn⟩
  | failing =>
      obtain rfl := Option.some.inj hr
      exact ⟨⟨hsame.length, hsame.lost⟩, fun n hn => by cases hn⟩
  | finding n =>
      obtain ⟨f, hf, hr⟩ := Option.bind_eq_some_iff.mp hr
      obtain ⟨outcome, houtcome, hr⟩ := Option.bind_eq_some_iff.mp hr
      obtain rfl := Option.some.inj hr
      cases outcome with
      | rejected => exact ⟨hsame, fun n hn => by cases hn⟩
      | resolved peers =>
          cases peers with
          | none => exact ⟨hsame, fun n hn => by cases hn⟩
          | some peers => exact ⟨⟨hsame.length, hsame.lost⟩, fun n hn => by cases hn⟩

/-! ### Events of earlier sockets -/

theorem state_onSocket
    (h : e = .closes → s.state = .disconnected ∨ r.settled = none) : (s.onSocket i r e).state = s.state := by
  cases e with
  | opens => rfl
  | errors =>
      by_cases hsettled : r.settled = none
      · rw [errors_of_unsettled hsettled]
        rfl
      · rw [errors_of_settled hsettled]
        rfl
  | closes =>
      have hstate : ∀ t : MeshRelayClient, t.state = s.state → (t.onClose i r).state = s.state := by
        intro t ht
        by_cases hsettled : r.settled = none
        · rw [onClose_of_unsettled hsettled]
          exact ht
        · rw [onClose_of_settled hsettled, (h rfl).resolve_right hsettled]
          unfold scheduleReconnect
          split_ifs <;> rfl
      refine hstate _ ?_
      split_ifs <;> rfl

theorem state_handleWsMessage (m : RelayMessage) : (s.handleWsMessage m).state = s.state := by
  cases m with
  | findResponse id peers =>
      cases hid : s.pendingFinds.get? id with
      | none => rw [handleWsMessage_of_unknown hid]
      | some n =>
          rw [handleWsMessage_of_known hid]
          rfl
  | error => rfl
  | other => rfl

end MeshRelayClient

/-! ### Runs -/

abbrev RelayWorld : Type := World MeshRelayClient RelayFrame RelayResult

def Matched : RelayWorld → Action RelayCall Unit → Prop :=
  Program.Meets MeshRelayClient.MayCall MeshRelayClient.MayGoOn

instance (w : RelayWorld) (a : Action RelayCall Unit) : Decidable (Matched w a) :=
  inferInstanceAs (Decidable (Program.Meets _ _ w a))

/-- What happens to a socket that is not the current one, or after what happened to it. -/
def Late (w : RelayWorld) : Action RelayCall Unit → Prop
  | .start (.socket i _) => w.shared.ws ≠ some i
  | .start (.message i _) => w.shared.ws ≠ some i
  | .resume k _ => ∃ i, w.tasks[k]? = some (.waiting (.opening i)) ∧ w.shared.ws ≠ some i
  | _ => False

theorem state_of_late {w w' : RelayWorld} {a : Action RelayCall Unit} (hmay : Matched w a) (hlate : Late w a)
    (h : relayProgram.step w a = some w') : w'.shared.state = w.shared.state := by
  cases a with
  | start call =>
      obtain ⟨r, hr, rfl⟩ := Program.step_start h
      cases call with
      | socket i e =>
          obtain ⟨r₀, hr₀, hr⟩ := Option.bind_eq_some_iff.mp hr
          obtain ⟨socket, hsocket, hr⟩ := Option.bind_eq_some_iff.mp hr
          obtain rfl := Option.some.inj hr
          refine MeshRelayClient.state_onSocket (s := w.shared.modifySocket i _) fun he => ?_
          subst he
          rcases hmay.1 with hcurrent | hdisconnected | hunsettled
          · exact absurd hcurrent hlate
          · exact .inl hdisconnected
          · exact .inr (hunsettled r₀ hr₀)
      | message i m =>
          obtain ⟨r₀, hr₀, hr⟩ := Option.bind_eq_some_iff.mp hr
          obtain ⟨hopened, hr⟩ := Option.ite_none_right_eq_some.mp hr
          obtain rfl := Option.some.inj hr
          exact MeshRelayClient.state_handleWsMessage m
      | connect fails => exact hlate.elim
      | disconnect => exact hlate.elim
      | findPeers => exact hlate.elim
      | reconnectTimer fails => exact hlate.elim
      | findTimer n => exact hlate.elim
  | resume k u =>
      obtain ⟨i, hframe', hi⟩ := hlate
      obtain ⟨frame, r, hframe, hr, rfl⟩ := Program.step_resume h
      obtain rfl : frame = .opening i := by
        cases hframe.symm.trans hframe'
        rfl
      have hopen : w.shared.MayOpen i (w.shared.sockets[i]?.bind RelaySocket.settled) := hmay _ hframe
      obtain ⟨r₀, hr₀, hr⟩ := Option.bind_eq_some_iff.mp hr
      obtain ⟨opening, hopening, hr⟩ := Option.bind_eq_some_iff.mp hr
      rw [hr₀, Option.bind_some, hopening] at hopen
      cases opening with
      | resolved =>
          obtain rfl := Option.some.inj hr
          exact (hopen.resolve_right fun h => hi h.1).symm
      | rejected e =>
          obtain rfl := Option.some.inj hr
          exact (hopen.1.resolve_left hi).symm

/-- One step keeps the invariant, and what its calls wait for. -/
theorem sound_step {w w' : RelayWorld} {a : Action RelayCall Unit} (hsound : w.shared.Sound)
    (htasks : ∀ t ∈ w.tasks, ∀ n, t = .waiting (.finding n) → n < w.shared.finds.length) (hmay : Matched w a)
    (h : relayProgram.step w a = some w') :
    w'.shared.Sound ∧ MeshRelayClient.Grows w.shared w'.shared ∧
      ∀ t ∈ w'.tasks, ∀ n, t = .waiting (.finding n) → n < w'.shared.finds.length := by
  refine Program.step_of_meets (p := relayProgram) (I := MeshRelayClient.Sound) (R := MeshRelayClient.Grows)
    (J := fun s t => ∀ n, t = .waiting (.finding n) → n < s.finds.length)
    (fun s s' t hgrows ht n hn => lt_of_lt_of_le (ht n hn) hgrows.length)
    (fun s call r hs hmay hr => ⟨hs.startCall hmay hr, hs.grows_startCall hmay hr⟩)
    (fun s frame u r hs _ hmay hr => ⟨hs.resumeCall hmay hr, ?_⟩) hsound htasks hmay h
  obtain ⟨hgrows, hnot⟩ := MeshRelayClient.grows_resumeCall hr
  exact ⟨hgrows, fun n hn => absurd hn (hnot n)⟩

variable {fingerprint : JsString} {autoReconnect : Bool} {maxReconnectAttempts : ℕ}

theorem sound_fresh : (MeshRelayClient.fresh fingerprint autoReconnect maxReconnectAttempts).Sound := by
  refine ⟨⟨fun h => (by cases h), fun h => (by cases h), fun i r hr => (by cases hr), ?_⟩, fun _ h => (by cases h)⟩
  exact ⟨⟨fun n hn => (by cases hn), fun n f hf => (by cases hf), fun n _ => rfl⟩, fun id n hid => (by cases hid),
    fun f hf => (by cases hf)⟩

/-- In every run of steps that go right, `connected` means that the current socket is alive and wanted, and an event of
an earlier socket leaves the state; every search waits on a socket that is alive or was settled once, and is rejected
when its socket is lost; and after a drop the client is on its way back, was closed or gave up. -/
theorem relay_agrees_with_socket {w : RelayWorld}
    (h : (relayMachine fingerprint autoReconnect maxReconnectAttempts).Reach Matched w) :
    w.shared.Agrees ∧
    (∀ n f, w.shared.finds[n]? = some f → w.shared.Waits n f ∨ w.shared.Answered n f) ∧
    (∀ n, Task.waiting (.finding n) ∈ w.tasks → n < w.shared.finds.length) ∧
    w.shared.Recovers ∧
    ∀ a w', Matched w a → relayProgram.step w a = some w' →
      (Late w a → w'.shared.state = w.shared.state) ∧
      ∀ n f, w.shared.finds[n]? = some f → w.shared.Waits n f →
        w'.shared.AliveAt f.socket ∨ ∃ f', w'.shared.finds[n]? = some f' ∧ f'.outcome = some .rejected := by
  obtain ⟨hsound, htasks⟩ := h.invariant (I := fun w : RelayWorld => w.shared.Sound ∧
      ∀ t ∈ w.tasks, ∀ n, t = .waiting (.finding n) → n < w.shared.finds.length)
    ⟨sound_fresh, fun t ht => (by cases ht)⟩
    fun w a w' hI hok hstep => (sound_step hI.1 hI.2 hok hstep).imp_right And.right
  refine ⟨hsound.agrees, fun n f hf => ?_, fun n hn => htasks _ hn n rfl, hsound.recovers, fun a w' hok hstep =>
    ⟨fun hlate => state_of_late hok hlate hstep, fun n f hf hwaits => ?_⟩⟩
  · by_cases hn : w.shared.Listed n
    · obtain ⟨f', hf', -, htimer, houtcome, hcount⟩ := hsound.searches.ledger.waiting n hn
      obtain rfl := Option.some.inj (hf.symm.trans hf')
      exact .inl ⟨houtcome, htimer, hcount, hsound.searches.alive f (List.mem_of_getElem? hf) htimer⟩
    · obtain ⟨-, htimer, houtcome, hcount⟩ := hsound.searches.ledger.answered n f hf hn
      exact .inr ⟨houtcome, htimer, hcount⟩
  · obtain ⟨houtcome, htimer, -, halive⟩ := hwaits
    refine ((sound_step hsound htasks hok hstep).2.1.lost n f hf htimer halive).imp_right fun hf' => ⟨_, hf', ?_⟩
    change f.outcome.or (some .rejected) = some .rejected
    rw [houtcome]
    rfl

/-- A drop with a search that was answered, a new socket, and a search that `disconnect()` rejects. -/
theorem relay_agrees_with_socket_reconnected : ∃ w, (relayMachine (js "a") true 5).Reach Matched w ∧
    (RelayNote.dropped ∈ w.shared.log ∧ w.shared.sockets.length = 2 ∧ w.shared.finds.length = 2) ∧
    w.shared.Agrees := by
  obtain ⟨w, -, hw, hP⟩ := Machine.exists_of_run
    (P := fun w : RelayWorld =>
      RelayNote.dropped ∈ w.shared.log ∧ w.shared.sockets.length = 2 ∧ w.shared.finds.length = 2)
    (show ((relayMachine (js "a") true 5).run Matched (relayMachine (js "a") true 5).init
      [.start (.connect false), .start (.socket 0 .opens), .resume 0 (), .start .findPeers,
        .start (.message 0 (.findResponse (findId 1) (some [js "b"]))), .resume 2 (), .start (.socket 0 .closes),
        .start (.reconnectTimer false), .start (.socket 1 .opens), .resume 5 (), .start .findPeers,
        .start .disconnect, .resume 7 ()]).any _ = true by decide +kernel)
  exact ⟨w, hw, hP, (relay_agrees_with_socket hw).1⟩

/-- A socket that closes after the next `connect()` puts the state back, so that the one after that is `connected` by a
socket that is not the current one; a search stays when its socket is dropped; and a socket of the reconnection that
closes before it opens leaves nothing to follow. -/
theorem relay_strays :
    (∃ w, (relayMachine (js "a") true 5).Reach (fun _ _ => True) w ∧
      ∃ a w', relayProgram.step w a = some w' ∧ Late w a ∧ w'.shared.state ≠ w.shared.state) ∧
    (∃ w, (relayMachine (js "a") true 5).Reach (fun _ _ => True) w ∧ ¬ w.shared.Agrees) ∧
    (∃ w, (relayMachine (js "a") true 5).Reach (fun _ _ => True) w ∧
      ∃ f, w.shared.finds[0]? = some f ∧ f.outcome = none ∧ ¬ w.shared.AliveAt f.socket) ∧
    ∃ w, (relayMachine (js "a") true 5).Reach (fun _ _ => True) w ∧ ¬ w.shared.Recovers := by
  have hrun : ∀ (acts : List (Action RelayCall Unit)) (P : RelayWorld → Prop) [DecidablePred P],
      ((relayMachine (js "a") true 5).run (fun _ _ => True) (relayMachine (js "a") true 5).init acts).any
        (fun w => decide (P w)) = true →
      ∃ w, (relayMachine (js "a") true 5).Reach (fun _ _ => True) w ∧ P w := by
    intro acts P _ hany
    obtain ⟨w, -, hw, hP⟩ := Machine.exists_of_run hany
    exact ⟨w, hw, hP⟩
  refine ⟨?_, ?_, ?_, ?_⟩
  · obtain ⟨w, hw, hws, hstep⟩ := hrun [.start (.connect false), .start (.socket 0 .opens), .resume 0 (),
      .start .disconnect, .start (.connect false)]
      (fun w => w.shared.ws ≠ some 0 ∧ (relayProgram.step w (.start (.socket 0 .closes))).any
        (fun w' => decide (w'.shared.state ≠ w.shared.state)) = true) (by decide +kernel)
    obtain ⟨w', hw', hstate⟩ := (Option.any_eq_true _ _).mp hstep
    exact ⟨w, hw, _, w', hw', hws, of_decide_eq_true hstate⟩
  · obtain ⟨w, hw, hstate, hws, halive⟩ := hrun [.start (.connect false), .start (.socket 0 .opens), .resume 0 (),
      .start .disconnect, .start (.connect false), .start (.socket 0 .closes), .start (.connect false),
      .start (.socket 1 .opens), .resume 3 ()]
      (fun w => w.shared.state = .connected ∧ w.shared.ws = some 2 ∧ ¬ w.shared.AliveAt 2) (by decide +kernel)
    refine ⟨w, hw, fun hagrees => ?_⟩
    obtain ⟨i, hi, hi', -⟩ := hagrees hstate
    obtain rfl := Option.some.inj (hws.symm.trans hi)
    exact halive hi'
  · obtain ⟨w, hw, hfind⟩ := hrun [.start (.connect false), .start (.socket 0 .opens), .resume 0 (),
      .start .findPeers, .start (.socket 0 .closes)]
      (fun w => w.shared.finds[0]?.any (fun f : Find => decide (f.outcome = none ∧ ¬ w.shared.AliveAt f.socket)) = true)
      (by decide +kernel)
    obtain ⟨f, hf, hwaits⟩ := (Option.any_eq_true _ _).mp hfind
    exact ⟨w, hw, f, hf, of_decide_eq_true hwaits⟩
  · obtain ⟨w, hw, hauto, hdropped, hstate, hfollowed⟩ := hrun [.start (.connect false), .start (.socket 0 .opens),
      .resume 0 (), .start (.socket 0 .closes), .start (.reconnectTimer false), .start (.socket 1 .closes),
      .resume 3 ()]
      (fun w => w.shared.autoReconnect = true ∧ RelayNote.dropped ∈ w.shared.log ∧ w.shared.state = .disconnected ∧
        ¬ w.shared.Followed) (by decide +kernel)
    exact ⟨w, hw, fun hrecovers => (hrecovers hauto hdropped).elim (fun h => h hstate) hfollowed⟩

end BrowserMesh.Transport
