import BrowserMesh.Apps.PodRestarts

/-! # One replacement for a death

* **Given up.**  A pod that was unsupervised or drained, or whose supervisor was stopped, is not spawned again
  (`MayFollow`).
* **Lawful.**  An entry has one attempt at most, none while its pod runs, and none once it was given up (`Lawful`). -/

namespace BrowserMesh.Apps
open Js Async Transition Counting

/-- What may be noted after `older`: no restart spawn of a pod that was given up. -/
def MayFollow : SupervisorNote → SupervisorNote → Prop
  | .restartSpawn e _, older => older ≠ .unsupervised e ∧ older ≠ .drained e ∧ older ≠ .stopped
  | .scheduled _ _, _ => True
  | .unsupervised _, _ => True
  | .drained _, _ => True
  | .stopped, _ => True

instance : DecidableRel MayFollow
  | .restartSpawn _ _, _ => inferInstanceAs (Decidable (_ ∧ _ ∧ _))
  | .scheduled _ _, _ => inferInstanceAs (Decidable True)
  | .unsupervised _, _ => inferInstanceAs (Decidable True)
  | .drained _, _ => inferInstanceAs (Decidable True)
  | .stopped, _ => inferInstanceAs (Decidable True)

/-- `entry.ref.host = newHost`. -/
def PodEntry.movedTo (newHost : JsString) (entry : PodEntry) : PodEntry :=
  { entry with ref := { entry.ref with host := newHost } }

namespace PodSupervisor

def GivenUp (s : PodSupervisor) (e : ℕ) : Prop :=
  .unsupervised e ∈ s.log ∨ .drained e ∈ s.log ∨ .stopped ∈ s.log

structure Lawful (s : PodSupervisor) : Prop where
  single : ∀ e, pendingOf s.attempts e ≤ 1
  running : ∀ e entry, s.entries[e]? = some entry → entry.state = .running → pendingOf s.attempts e = 0
  known : ∀ key e, s.pods.get? key = some e → ∃ entry, s.entries[e]? = some entry ∧ refKey entry.ref = key
  range : ∀ a ∈ s.attempts, a.entry < s.entries.length
  idle : ∀ e, s.GivenUp e → pendingOf s.attempts e = 0
  out : ∀ key e entry, s.pods.get? key = some e → s.entries[e]? = some entry → entry.state = .running →
    .unsupervised e ∉ s.log ∧ .drained e ∉ s.log
  old : ∀ e, .unsupervised e ∈ s.log ∨ .drained e ∈ s.log → e < s.entries.length
  stopped : .stopped ∈ s.log → s.stopped = true
  spawns : s.log.Pairwise MayFollow

section
variable {s s' : PodSupervisor} {i e : ℕ} {a b : RestartAttempt}

theorem pendingOf_set (h : s.attempts[i]? = some a) (b : RestartAttempt) (e : ℕ) :
    pendingOf (s.attempts.set i b) e + (if a.stage.pending && a.entry = e then 1 else 0) =
      pendingOf s.attempts e + if b.stage.pending && b.entry = e then 1 else 0 := countP_set_add _ b h

theorem pendingOf_erase (h : s.attempts[i]? = some a) (e : ℕ) :
    pendingOf (s.attempts.eraseIdx i) e + (if a.stage.pending && a.entry = e then 1 else 0) = pendingOf s.attempts e :=
  countP_eraseIdx_add _ h

theorem pendingOf_pos (h : a ∈ s.attempts) (hpending : a.stage.pending = true) : 0 < pendingOf s.attempts a.entry :=
  List.countP_pos_iff.mpr ⟨a, h, by simp [hpending]⟩

theorem pendingOf_eq_zero_iff : pendingOf s.attempts e = 0 ↔ ∀ a ∈ s.attempts, a.stage.pending = true → a.entry ≠ e := by
  unfold pendingOf
  rw [List.countP_eq_zero]
  simp

theorem Lawful.not_givenUp (h : Lawful s) (hi : s.attempts[i]? = some a) (hpending : a.stage.pending = true) :
    ¬ s.GivenUp a.entry := fun hgiven => (pendingOf_pos (List.mem_of_getElem? hi) hpending).ne' (h.idle _ hgiven)

theorem Lawful.of_fewer (h : Lawful s) (hpending : ∀ e, pendingOf s'.attempts e ≤ pendingOf s.attempts e)
    (hrange : ∀ a ∈ s'.attempts, ∃ b ∈ s.attempts, a.entry = b.entry)
    (hlength : s'.entries.length = s.entries.length)
    (hentries : ∀ (e : ℕ) (entry' : PodEntry), s'.entries[e]? = some entry' → ∃ entry, s.entries[e]? = some entry ∧
      entry'.ref = entry.ref ∧ (entry'.state = .running → entry.state = .running))
    (hpods : ∀ key e, s'.pods.get? key = some e → s.pods.get? key = some e) (hlog : s'.log = s.log)
    (hstopped : s'.stopped = s.stopped) : Lawful s' := by
  refine ⟨fun e => (hpending e).trans (h.single e), fun e entry' hentry' hrunning => ?_, fun key e hkey => ?_,
    fun a ha => ?_, fun e hgiven => ?_, fun key e entry' hkey hentry' hrunning => ?_, fun e hold => ?_, fun hst => ?_, ?_⟩
  · obtain ⟨entry, hentry, -, hstate⟩ := hentries e entry' hentry'
    exact Nat.le_zero.mp ((hpending e).trans (h.running e entry hentry (hstate hrunning)).le)
  · obtain ⟨entry, hentry, href⟩ := h.known key e (hpods key e hkey)
    have hlt : e < s'.entries.length := hlength ▸ (List.getElem?_eq_some_iff.mp hentry).1
    obtain ⟨entry₀, hentry₀, href₀, -⟩ := hentries e _ (List.getElem?_eq_getElem hlt)
    obtain rfl := Option.some.inj (hentry.symm.trans hentry₀)
    exact ⟨_, List.getElem?_eq_getElem hlt, by rw [href₀, href]⟩
  · obtain ⟨b, hb, hab⟩ := hrange a ha
    rw [hab, hlength]
    exact h.range b hb
  · refine Nat.le_zero.mp ((hpending e).trans (h.idle e ?_).le)
    unfold GivenUp at hgiven ⊢
    rwa [hlog] at hgiven
  · obtain ⟨entry, hentry, -, hstate⟩ := hentries e entry' hentry'
    rw [hlog]
    exact h.out key e entry (hpods key e hkey) hentry (hstate hrunning)
  · rw [hlength]
    rw [hlog] at hold
    exact h.old e hold
  · rw [hstopped]
    rw [hlog] at hst
    exact h.stopped hst
  · rw [hlog]
    exact h.spawns

theorem Lawful.of_attempts (h : Lawful s) (hpending : ∀ e, pendingOf s'.attempts e ≤ pendingOf s.attempts e)
    (hrange : ∀ a ∈ s'.attempts, ∃ b ∈ s.attempts, a.entry = b.entry) (hentries : s'.entries = s.entries)
    (hpods : s'.pods = s.pods) (hlog : s'.log = s.log) (hstopped : s'.stopped = s.stopped) : Lawful s' := by
  refine h.of_fewer hpending hrange (by rw [hentries]) (fun e entry' hentry' => ?_) (fun key e hkey => ?_) hlog hstopped
  · exact ⟨entry', hentries ▸ hentry', rfl, id⟩
  · rwa [hpods] at hkey

theorem Lawful.modifyEntry (h : Lawful s) {f : PodEntry → PodEntry}
    (hf : ∀ entry, (f entry).ref = entry.ref ∧ ((f entry).state = .running → entry.state = .running)) :
    Lawful (s.modifyEntry e f) := by
  refine h.of_fewer (fun _ => le_rfl) (fun a ha => ⟨a, ha, rfl⟩) (List.length_modify ..) (fun e' entry' hentry' => ?_)
    (fun _ _ hkey => hkey) rfl rfl
  obtain ⟨entry, hentry, rfl⟩ := entry_of_modify hentry'
  refine ⟨entry, hentry, ?_⟩
  split_ifs
  · exact hf entry
  · exact ⟨rfl, id⟩

theorem Lawful.setAttempt (h : Lawful s) (hi : s.attempts[i]? = some a) (hentry : b.entry = a.entry)
    (hpending : b.stage.pending = true → a.stage.pending = true) : Lawful (s.setAttempt i b) := by
  refine h.of_attempts (fun e => ?_) (fun c hc => ?_) rfl rfl rfl rfl
  · have hset := pendingOf_set hi b e
    rw [hentry] at hset
    change pendingOf (s.attempts.set i b) e ≤ _
    cases hb : b.stage.pending with
    | false => grind
    | true =>
        rw [hb, hpending hb] at hset
        omega
  · rcases List.mem_or_eq_of_mem_set hc with hc | rfl
    · exact ⟨c, hc, rfl⟩
    · exact ⟨a, List.mem_of_getElem? hi, hentry⟩

theorem Lawful.of_cleared (h : Lawful s) (hs : Cleared s s') : Lawful s' := by
  have hrest := hs.rest
  have hlength : s'.entries.length = s.entries.length := by
    rw [← List.length_map (f := PodEntry.untimed), hs.entries, List.length_map]
  refine h.of_fewer (fun e => hs.attempts.countP_le) (fun a ha => ⟨a, hs.attempts.subset ha, rfl⟩) hlength
    (fun e entry' hentry' => ?_) (fun key e hkey => ?_) (by rw [hrest]) (by rw [hrest])
  · have hentry := hs.entry e
    rw [hentry'] at hentry
    obtain ⟨entry, hentry, heq⟩ := Option.map_eq_some_iff.mp hentry.symm
    have href := congrArg PodEntry.ref heq
    have hstate := congrArg PodEntry.state heq
    exact ⟨entry, hentry, href.symm, fun hrunning => hstate.trans hrunning⟩
  · rw [hrest] at hkey
    exact hkey

def Fits (s : PodSupervisor) : SupervisorNote → Prop
  | .scheduled _ _ => True
  | .restartSpawn e _ => ¬ s.GivenUp e
  | .unsupervised e => e < s.entries.length ∧ pendingOf s.attempts e = 0 ∧ ∀ key, s.pods.get? key ≠ some e
  | .drained e => e < s.entries.length ∧ pendingOf s.attempts e = 0 ∧
      ∀ entry, s.entries[e]? = some entry → entry.state ≠ .running
  | .stopped => s.stopped = true ∧ ∀ e, pendingOf s.attempts e = 0

theorem Lawful.note (h : Lawful s) {n : SupervisorNote} (hn : s.Fits n) : Lawful (s.note n) := by
  refine ⟨h.single, h.running, h.known, h.range, fun e hgiven => ?_, fun key e entry hkey hentry hrunning => ?_,
    fun e hold => ?_, fun hst => ?_, List.pairwise_cons.mpr ⟨fun older holder => ?_, h.spawns⟩⟩
  · rcases hgiven with hmem | hmem | hmem
    · rcases List.mem_cons.mp hmem with rfl | hmem
      · exact hn.2.1
      · exact h.idle e (.inl hmem)
    · rcases List.mem_cons.mp hmem with rfl | hmem
      · exact hn.2.1
      · exact h.idle e (.inr (.inl hmem))
    · rcases List.mem_cons.mp hmem with rfl | hmem
      · exact hn.2 e
      · exact h.idle e (.inr (.inr hmem))
  · obtain ⟨hunsupervised, hdrained⟩ := h.out key e entry hkey hentry hrunning
    refine ⟨fun hmem => ?_, fun hmem => ?_⟩
    · rcases List.mem_cons.mp hmem with rfl | hmem
      · exact hn.2.2 key hkey
      · exact hunsupervised hmem
    · rcases List.mem_cons.mp hmem with rfl | hmem
      · exact hn.2.2 entry hentry hrunning
      · exact hdrained hmem
  · rcases hold with hmem | hmem
    · rcases List.mem_cons.mp hmem with rfl | hmem
      · exact hn.1
      · exact h.old e (.inl hmem)
    · rcases List.mem_cons.mp hmem with rfl | hmem
      · exact hn.1
      · exact h.old e (.inr hmem)
  · rcases List.mem_cons.mp hst with rfl | hmem
    · exact hn.1
    · exact h.stopped hmem
  · cases n with
    | scheduled e k => exact trivial
    | unsupervised e => exact trivial
    | drained e => exact trivial
    | stopped => exact trivial
    | restartSpawn e k =>
        refine ⟨?_, ?_, ?_⟩
        · rintro rfl
          exact hn (.inl holder)
        · rintro rfl
          exact hn (.inr (.inl holder))
        · rintro rfl
          exact hn (.inr (.inr holder))

theorem Lawful.moved (h : Lawful s) {entry : PodEntry} {newHost : JsString} {m : JsMap JsString ℕ}
    (hentry : s.entries[e]? = some entry) (hgiven : ¬ s.GivenUp e)
    (hpods : ∀ key e', m.get? key = some e' →
      e' = e ∧ key = refKey (entry.movedTo newHost).ref ∨ e' ≠ e ∧ s.pods.get? key = some e') :
    Lawful { s.modifyEntry e (.movedTo newHost) with pods := m } := by
  refine ⟨h.single, fun e' entry' hentry' hrunning => ?_, fun key e' hkey => ?_, fun b hb => ?_, h.idle,
    fun key e' entry' hkey hentry' hrunning => ?_, fun e' hold => ?_, h.stopped, h.spawns⟩
  · obtain ⟨entry₀, hentry₀, rfl⟩ := entry_of_modify hentry'
    refine h.running e' entry₀ hentry₀ ?_
    split_ifs at hrunning
    · exact hrunning
    · exact hrunning
  · change ∃ entry', (s.entries.modify e (.movedTo newHost))[e']? = some entry' ∧ _
    rw [List.getElem?_modify]
    rcases hpods key e' hkey with ⟨rfl, rfl⟩ | ⟨hne, hkey⟩
    · exact ⟨entry.movedTo newHost, by rw [hentry]; exact congrArg some (if_pos rfl), rfl⟩
    · obtain ⟨entry', hentry', href⟩ := h.known key e' hkey
      exact ⟨entry', by rw [hentry']; exact congrArg some (if_neg (Ne.symm hne)), href⟩
  · exact (h.range b hb).trans_eq (List.length_modify ..).symm
  · rcases hpods key e' hkey with ⟨rfl, rfl⟩ | ⟨hne, hkey⟩
    · exact ⟨fun hmem => hgiven (.inl hmem), fun hmem => hgiven (.inr (.inl hmem))⟩
    · obtain ⟨entry₀, hentry₀, rfl⟩ := entry_of_modify hentry'
      rw [if_neg (Ne.symm hne)] at hrunning
      exact h.out key e' entry₀ hkey hentry₀ hrunning
  · exact (h.old e' hold).trans_eq (List.length_modify ..).symm

theorem Lawful.rekey (h : Lawful s) (newHost : JsString) (hgiven : ¬ s.GivenUp e) : Lawful (s.rekey e newHost) := by
  unfold PodSupervisor.rekey
  split
  · exact h
  · rename_i entry hentry
    have hold : ∀ key, s.pods.get? key = some e → key = refKey entry.ref := by
      intro key hkey
      obtain ⟨entry₀, hentry₀, href⟩ := h.known key e hkey
      obtain rfl := Option.some.inj (hentry.symm.trans hentry₀)
      exact href.symm
    dsimp only
    split_ifs with hsame
    · refine h.moved (m := s.pods) hentry hgiven fun key e' hkey => ?_
      by_cases heq : e' = e
      · exact .inl ⟨heq, (hold key (heq ▸ hkey)).trans hsame.symm⟩
      · exact .inr ⟨heq, hkey⟩
    · refine h.moved hentry hgiven fun key e' hkey => ?_
      rw [JsMap.get?_set, JsMap.get?_delete] at hkey
      split_ifs at hkey with hnew hgone
      · exact .inl ⟨(Option.some.inj hkey).symm, hnew⟩
      · exact .inr ⟨fun heq => hgone (hold key (heq ▸ hkey)), hkey⟩

theorem Lawful.restarted (h : Lawful s) (hi : s.attempts[i]? = some a) (hpending : a.stage.pending = true) :
    Lawful (s.restarted i a) := by
  have hgiven := h.not_givenUp hi hpending
  have hfinished : Lawful (s.setAttempt i { a with stage := .finishing }) :=
    h.setAttempt hi rfl fun heq => (by cases heq)
  have hzero : pendingOf (s.attempts.set i { a with stage := .finishing }) a.entry = 0 := by
    have hset := pendingOf_set hi { a with stage := .finishing } a.entry
    have hone := h.single a.entry
    rw [hpending] at hset
    simp only [AttemptStage.pending, decide_true, Bool.and_self, if_true, Bool.false_and, Bool.false_eq_true,
      if_false] at hset
    omega
  refine ⟨hfinished.single, fun e entry hentry hrunning => ?_, fun key e hkey => ?_, fun b hb => ?_, hfinished.idle,
    fun key e entry hkey hentry hrunning => ?_, fun e hold => ?_, hfinished.stopped, hfinished.spawns⟩
  · obtain ⟨entry₀, hentry₀, rfl⟩ := entry_of_modify hentry
    split_ifs at hrunning with heq
    · rw [← heq]
      exact hzero
    · exact hfinished.running e entry₀ hentry₀ hrunning
  · obtain ⟨entry, hentry, href⟩ := h.known key e hkey
    refine ⟨if a.entry = e then { entry with state := .running } else entry, ?_, ?_⟩
    · change (s.entries.modify a.entry fun entry => { entry with state := .running })[e]? = _
      rw [List.getElem?_modify, hentry]
      rfl
    · split_ifs
      · exact href
      · exact href
  · exact (hfinished.range b hb).trans_eq (List.length_modify ..).symm
  · obtain ⟨entry₀, hentry₀, rfl⟩ := entry_of_modify hentry
    split_ifs at hrunning with heq
    · rw [← heq]
      exact ⟨fun hmem => hgiven (.inl hmem), fun hmem => hgiven (.inr (.inl hmem))⟩
    · exact h.out key e entry₀ hkey hentry₀ hrunning
  · exact (h.old e hold).trans_eq (List.length_modify ..).symm

theorem Lawful.scheduleRestart (h : Lawful s) (e : ℕ) (reason : JsString) (running : Bool) :
    Lawful (s.scheduleRestart e reason running).1 := by
  unfold PodSupervisor.scheduleRestart
  split
  · exact h
  · split_ifs
    · exact h.modifyEntry fun _ => ⟨rfl, fun heq => (by cases heq)⟩
    · exact (h.modifyEntry (f := fun entry => { entry with restarts := entry.restarts + 1 }) fun _ => ⟨rfl, id⟩).note
        trivial

theorem Lawful.restartFailed (h : Lawful s) (hi : s.attempts[i]? = some a) (hpending : a.stage.pending = true) :
    Lawful (s.restartFailed i a) := by
  have hscheduled := h.scheduleRestart a.entry (js "restart-failed") true
  obtain ⟨hattempts, -, -, hnew⟩ := scheduleRestart_turns s a.entry (js "restart-failed") true
  unfold PodSupervisor.restartFailed
  dsimp only
  rw [← hattempts] at hi
  cases hnext : (s.scheduleRestart a.entry (js "restart-failed") true).2 with
  | none => exact hscheduled.setAttempt hi rfl fun _ => hpending
  | some b => exact hscheduled.setAttempt hi (hnew b hnext).1 fun _ => hpending

theorem Lawful.runRestart (h : Lawful s) (hi : s.attempts[i]? = some a) (hpending : a.stage.pending = true) :
    Lawful (s.runRestart i a) := by
  have hturn : Lawful { s with activeRestarts := s.activeRestarts + 1 } :=
    h.of_attempts (fun _ => le_rfl) (fun a ha => ⟨a, ha, rfl⟩) rfl rfl rfl rfl
  unfold PodSupervisor.runRestart
  dsimp only
  split_ifs
  · exact (hturn.setAttempt (b := { a with stage := .spawning }) hi rfl fun _ => hpending).note
      (h.not_givenUp hi hpending)
  · exact hturn.setAttempt hi rfl fun _ => hpending

theorem Lawful.release (h : Lawful s) : Lawful s.release :=
  h.of_attempts (fun e => (pendingOf_wake s.attempts e).le) (fun _ ha => (mem_wake ha).imp fun _ hb => ⟨hb.1, hb.2.1⟩)
    rfl rfl rfl rfl

theorem Lawful.event (h : Lawful s) {event : AttemptEvent} (hi : s.attempts[i]? = some a)
    (hs : s.attempt i a event = some s') : Lawful s' := by
  cases event with
  | audited =>
      simp only [attempt] at hs
      split at hs
      · rename_i running hstage
        obtain rfl := Option.some.inj hs
        have harmed : Lawful (s.setAttempt i { a with stage := .armed }) :=
          h.setAttempt hi rfl fun _ => by rw [hstage]; rfl
        have htimed : Lawful ((s.setAttempt i { a with stage := .armed }).modifyEntry a.entry
            fun entry => { entry with backoffTimer := some a.number }) := harmed.modifyEntry fun _ => ⟨rfl, id⟩
        cases running with
        | false => exact htimed
        | true => exact htimed.release
      · obtain rfl := Option.some.inj hs
        have herased : Lawful { s with attempts := s.attempts.eraseIdx i } :=
          h.of_attempts (fun e => (List.eraseIdx_sublist _ _).countP_le)
            (fun b hb => ⟨b, (List.eraseIdx_sublist _ _).subset hb, rfl⟩) rfl rfl rfl rfl
        exact herased.release
      · cases hs
  | fires =>
      simp only [attempt] at hs
      split_ifs at hs with hfires hfull
      · obtain rfl := Option.some.inj hs
        have hcleared : Lawful (s.modifyEntry a.entry fun entry => { entry with backoffTimer := none }) :=
          h.modifyEntry fun _ => ⟨rfl, id⟩
        refine hcleared.of_attempts (fun e => ?_) (fun b hb => ?_) rfl rfl rfl rfl
        · have herase := pendingOf_erase hi e
          rw [hfires.1] at herase
          change pendingOf (s.attempts.eraseIdx i ++ [{ a with stage := .queued }]) e ≤ pendingOf s.attempts e
          rw [← herase]
          exact (List.countP_append).trans_le (by rw [List.countP_singleton]; exact le_rfl)
        · rcases List.mem_append.mp hb with hb | hb
          · exact ⟨b, (List.eraseIdx_sublist _ _).subset hb, rfl⟩
          · rw [List.mem_singleton.mp hb]
            exact ⟨a, List.mem_of_getElem? hi, rfl⟩
      · obtain rfl := Option.some.inj hs
        have hcleared : Lawful (s.modifyEntry a.entry fun entry => { entry with backoffTimer := none }) :=
          h.modifyEntry fun _ => ⟨rfl, id⟩
        exact hcleared.runRestart hi (by rw [hfires.1]; rfl)
  | continues =>
      simp only [attempt] at hs
      split_ifs at hs with hwoken
      obtain rfl := Option.some.inj hs
      exact h.runRestart hi (by rw [hwoken]; rfl)
  | spawned =>
      simp only [attempt] at hs
      split at hs
      · rename_i hstage
        obtain rfl := Option.some.inj hs
        exact h.restarted hi (by rw [hstage]; rfl)
      · rename_i newHost hstage
        obtain rfl := Option.some.inj hs
        have hi' : (s.rekey a.entry newHost).attempts[i]? = some a := by rw [(rekey_turns s a.entry newHost).1, hi]
        have hpending : a.stage.pending = true := by rw [hstage]; rfl
        exact (h.rekey newHost (h.not_givenUp hi hpending)).restarted hi' hpending
      · cases hs
  | refused =>
      simp only [attempt] at hs
      split at hs
      · rename_i hstage
        obtain rfl := Option.some.inj hs
        exact h.setAttempt hi rfl fun _ => by rw [hstage]; rfl
      · rename_i hstage
        obtain rfl := Option.some.inj hs
        exact h.restartFailed hi (by rw [hstage]; rfl)
      · cases hs
  | failed =>
      simp only [attempt] at hs
      split at hs
      · rename_i hstage
        obtain rfl := Option.some.inj hs
        exact h.restartFailed hi (by rw [hstage]; rfl)
      · rename_i hstage
        obtain rfl := Option.some.inj hs
        exact h.restartFailed hi (by rw [hstage]; rfl)
      · rename_i hstage
        obtain rfl := Option.some.inj hs
        exact h.restartFailed hi (by rw [hstage]; rfl)
      · cases hs
  | placed newHost =>
      simp only [attempt] at hs
      split at hs
      · rename_i hstage
        obtain rfl := Option.some.inj hs
        have hpending : a.stage.pending = true := by rw [hstage]; rfl
        exact (h.setAttempt (b := { a with stage := .respawning newHost }) hi rfl fun _ => hpending).note
          (h.not_givenUp hi hpending)
      · cases hs

/-! ### What is left open -/

/-- Each attempt of an entry that is still to come waits for the timer that the entry knows. -/
def Held (s : PodSupervisor) (e : ℕ) : Prop :=
  ∀ a ∈ s.attempts, a.stage.pending = true → a.entry = e →
    a.stage = .armed ∧ s.entries[e]?.bind PodEntry.backoffTimer = some a.number

instance (s : PodSupervisor) (e : ℕ) : Decidable (s.Held e) := inferInstanceAs (Decidable (∀ a ∈ s.attempts, _))

/-- A pod is given up while no attempt of it is past its timer, or before it. -/
def MayCall (s : PodSupervisor) : SupervisorCall → Prop
  | .unsupervise ref => ∀ e ∈ s.pods.get? (refKey ref), s.Held e
  | .stop => s.stopped = false → ∀ a ∈ s.attempts, a.stage.pending = true → a.entry ∈ s.pods.values ∧ s.Held a.entry
  | .supervise _ _ => True
  | .drain _ _ => True
  | .exit _ _ => True
  | .hostLost _ => True
  | .reconcile => True
  | .attempt _ _ => True

def exiting : SupervisorFrame → Option (PodRef × ExitData)
  | .cascading [] (.exit ref data _) => some (ref, data)
  | _ => none

/-- No attempt of a pod is to come when its drain has settled, and an exit is handled for a pod that runs. -/
def MayGoOn (s : PodSupervisor) (frame : SupervisorFrame) (event : SupervisorEvent) : Prop :=
  event = .settled →
    (∀ entry ∈ settles frame, ∀ e ∈ entry, pendingOf s.attempts e = 0) ∧
      ∀ exit ∈ exiting frame, ∀ r ∈ s.restartable exit.1 exit.2, s.stopped = false ∧ r.2.state = .running

instance (s : PodSupervisor) (frame : SupervisorFrame) (event : SupervisorEvent) :
    Decidable (s.MayGoOn frame event) := inferInstanceAs (Decidable (_ → _))

instance (s : PodSupervisor) : DecidablePred s.MayCall
  | .unsupervise ref => inferInstanceAs (Decidable (∀ e ∈ s.pods.get? (refKey ref), s.Held e))
  | .stop => inferInstanceAs (Decidable (s.stopped = false → _))
  | .supervise _ _ => inferInstanceAs (Decidable True)
  | .drain _ _ => inferInstanceAs (Decidable True)
  | .exit _ _ => inferInstanceAs (Decidable True)
  | .hostLost _ => inferInstanceAs (Decidable True)
  | .reconcile => inferInstanceAs (Decidable True)
  | .attempt _ _ => inferInstanceAs (Decidable True)

theorem Held.stopTimer (h : s.Held e) : pendingOf (s.stopTimer e).attempts e = 0 := by
  rw [pendingOf_eq_zero_iff]
  intro a ha hpending heq
  have ha' := (cleared_stopTimer s e).attempts.subset ha
  obtain ⟨harmed, htimer⟩ := h a ha' hpending heq
  unfold PodSupervisor.stopTimer at ha
  rw [htimer] at ha
  obtain ⟨-, hkept⟩ := List.mem_filter.mp ha
  simp [heq, harmed] at hkept

theorem Lawful.unsupervise (h : Lawful s) {ref : PodRef} (hheld : ∀ e ∈ s.pods.get? (refKey ref), s.Held e) :
    Lawful (s.unsupervise ref) := by
  unfold PodSupervisor.unsupervise
  split
  · exact h
  · rename_i e hkey
    have hcleared := cleared_stopTimer s e
    have hlaws := h.of_cleared hcleared
    have hpods : (s.stopTimer e).pods = s.pods := by rw [hcleared.rest]
    obtain ⟨entry, hentry, href⟩ := h.known _ _ hkey
    have hdeleted : Lawful { s.stopTimer e with pods := s.pods.delete (refKey ref) } := by
      refine hlaws.of_fewer (fun _ => le_rfl) (fun a ha => ⟨a, ha, rfl⟩) rfl
        (fun e' entry' hentry' => ⟨entry', hentry', rfl, id⟩) (fun key e' hkey' => ?_) rfl rfl
      rw [JsMap.get?_delete] at hkey'
      split_ifs at hkey'
      rwa [hpods]
    refine hdeleted.note ⟨?_, (hheld e hkey).stopTimer, fun key hkey' => ?_⟩
    · have hlength := congrArg List.length hcleared.entries
      rw [List.length_map, List.length_map] at hlength
      exact (List.getElem?_eq_some_iff.mp hentry).1.trans_eq hlength.symm
    · rw [JsMap.get?_delete] at hkey'
      split_ifs at hkey' with hsame
      obtain ⟨entry', hentry', href'⟩ := h.known _ _ hkey'
      obtain rfl := Option.some.inj (hentry.symm.trans hentry')
      exact hsame (href'.symm.trans href)

theorem Held.of_clearTimer (h : s.Held e) {e' : ℕ} (hne : e' ≠ e) : (s.clearTimer e').Held e := by
  intro a ha hpending heq
  obtain ⟨harmed, htimer⟩ := h a ((cleared_clearTimer s e').attempts.subset ha) hpending heq
  refine ⟨harmed, ?_⟩
  have hentries : (s.stopTimer e').entries = s.entries := by
    unfold PodSupervisor.stopTimer
    split
    · rfl
    · rfl
  change (((s.stopTimer e').entries.modify e' _)[e]?).bind _ = _
  rw [hentries, List.getElem?_modify_ne _ _ hne, htimer]

theorem pendingOf_foldl {l : List ℕ} (hmem : e ∈ l) (h : s.Held e) :
    pendingOf (l.foldl PodSupervisor.clearTimer s).attempts e = 0 := by
  induction l generalizing s with
  | nil => cases hmem
  | cons e' l ih =>
      by_cases heq : e' = e
      · rw [heq]
        exact Nat.le_zero.mp ((cleared_foldl l (s.clearTimer e)).attempts.countP_le.trans h.stopTimer.le)
      · exact ih ((List.mem_cons.mp hmem).resolve_left (Ne.symm heq)) (h.of_clearTimer heq)

theorem Lawful.stop (h : Lawful s) (hheld : s.stopped = false → ∀ a ∈ s.attempts, a.stage.pending = true →
    a.entry ∈ s.pods.values ∧ s.Held a.entry) : Lawful s.stop := by
  unfold PodSupervisor.stop
  split_ifs with hstopped
  · exact h
  · have hcleared := cleared_foldl s.pods.values s
    have hlaws := h.of_cleared hcleared
    have hmarked : Lawful { s.pods.values.foldl PodSupervisor.clearTimer s with stopped := true } :=
      ⟨hlaws.single, hlaws.running, hlaws.known, hlaws.range, hlaws.idle, hlaws.out, hlaws.old, fun _ => rfl,
        hlaws.spawns⟩
    refine hmarked.note ⟨rfl, fun e => pendingOf_eq_zero_iff.mpr fun a ha hpending _ => ?_⟩
    obtain ⟨hvalue, hheld⟩ := hheld (Bool.eq_false_of_not_eq_true hstopped) a (hcleared.attempts.subset ha) hpending
    exact (pendingOf_pos ha hpending).ne' (pendingOf_foldl hvalue hheld)

theorem Lawful.drained? (h : Lawful s) {entry : Option ℕ} (hpending : ∀ e ∈ entry, pendingOf s.attempts e = 0)
    (hrange : ∀ e ∈ entry, e < s.entries.length) : Lawful (s.drained? entry) := by
  cases entry with
  | none => exact h
  | some e =>
      have hdead : Lawful (s.setState e .dead) := h.modifyEntry fun _ => ⟨rfl, fun heq => (by cases heq)⟩
      refine hdead.note ⟨?_, hpending e rfl, fun entry hentry => ?_⟩
      · exact (hrange e rfl).trans_eq (List.length_modify ..).symm
      · obtain ⟨entry₀, -, rfl⟩ := entry_of_modify hentry
        rw [if_pos rfl]
        exact fun heq => (by cases heq)

theorem Lawful.append (h : Lawful s) (hattempts : s'.attempts = s.attempts ++ [b])
    (hidle : pendingOf s.attempts b.entry = 0) (hgiven : ¬ s.GivenUp b.entry)
    (hstate : ∀ entry, s.entries[b.entry]? = some entry → entry.state ≠ .running) (hrange : b.entry < s.entries.length)
    (hrest : s' = { s with attempts := s'.attempts }) : Lawful s' := by
  have hpending : ∀ e, e ≠ b.entry → pendingOf s'.attempts e = pendingOf s.attempts e := by
    intro e hne
    unfold pendingOf
    rw [hattempts, List.countP_append, List.countP_singleton, if_neg, Nat.add_zero]
    simp [Ne.symm hne]
  have hentries : s'.entries = s.entries := by rw [hrest]
  have hpods : s'.pods = s.pods := by rw [hrest]
  have hlog : s'.log = s.log := by rw [hrest]
  have hst : s'.stopped = s.stopped := by rw [hrest]
  refine ⟨fun e => ?_, fun e entry hentry hrunning => ?_, ?_, fun a ha => ?_, fun e he => ?_, ?_, ?_, ?_, ?_⟩
  · by_cases heq : e = b.entry
    · subst heq
      unfold pendingOf at hidle ⊢
      rw [hattempts, List.countP_append, hidle, List.countP_singleton]
      split_ifs
      · exact le_rfl
      · exact Nat.zero_le _
    · rw [hpending e heq]
      exact h.single e
  · rw [hentries] at hentry
    rw [hpending]
    · exact h.running e entry hentry hrunning
    · rintro rfl
      exact hstate entry hentry hrunning
  · rw [hentries, hpods]
    exact h.known
  · rw [hentries]
    rw [hattempts] at ha
    rcases List.mem_append.mp ha with ha | ha
    · exact h.range a ha
    · rw [List.mem_singleton.mp ha]
      exact hrange
  · have he' : s.GivenUp e := by
      unfold GivenUp at he ⊢
      rwa [hlog] at he
    rw [hpending]
    · exact h.idle e he'
    · rintro rfl
      exact hgiven he'
  · rw [hentries, hpods, hlog]
    exact h.out
  · rw [hentries, hlog]
    exact h.old
  · rw [hlog, hst]
    exact h.stopped
  · rw [hlog]
    exact h.spawns

theorem scheduleRestart_restarting (s : PodSupervisor) (e : ℕ) (reason : JsString) :
    ((s.setState e .restarting).scheduleRestart e reason false).1.entries.length = s.entries.length ∧
      (∀ entry, ((s.setState e .restarting).scheduleRestart e reason false).1.entries[e]? = some entry →
        entry.state ≠ .running) ∧
      ∀ n, (∀ e k, n ≠ .scheduled e k) →
        (n ∈ ((s.setState e .restarting).scheduleRestart e reason false).1.log ↔ n ∈ s.log) := by
  have hrestarting : ∀ entry, (s.setState e .restarting).entries[e]? = some entry → entry.state = .restarting := by
    intro entry hentry
    obtain ⟨entry₀, -, rfl⟩ := entry_of_modify hentry
    rw [if_pos rfl]
  have hlength : (s.setState e .restarting).entries.length = s.entries.length := List.length_modify ..
  unfold PodSupervisor.scheduleRestart
  split
  · rename_i hnone
    refine ⟨hlength, fun entry hentry => ?_, fun n _ => Iff.rfl⟩
    rw [hnone] at hentry
    cases hentry
  · split_ifs
    · refine ⟨(List.length_modify ..).trans hlength, fun entry hentry => ?_, fun n _ => Iff.rfl⟩
      obtain ⟨entry₀, -, rfl⟩ := entry_of_modify hentry
      rw [if_pos rfl]
      exact fun heq => (by cases heq)
    · refine ⟨(List.length_modify ..).trans hlength, fun entry hentry => ?_, fun n hn => ?_⟩
      · obtain ⟨entry₀, hentry₀, rfl⟩ := entry_of_modify hentry
        rw [if_pos rfl]
        exact fun heq => (by cases (hrestarting _ hentry₀).symm.trans heq)
      · exact List.mem_cons.trans (or_iff_right (hn _ _))

theorem restartable_eq_some {ref : PodRef} {data : ExitData} {r : ℕ × PodEntry} (h : s.restartable ref data = some r) :
    s.pods.get? (refKey ref) = some r.1 ∧ s.entries[r.1]? = some r.2 := by
  obtain ⟨e, he, h⟩ := Option.bind_eq_some_iff.mp h
  obtain ⟨entry, hentry, h⟩ := Option.bind_eq_some_iff.mp h
  split_ifs at h
  obtain rfl := Option.some.inj h
  exact ⟨he, hentry⟩

theorem Lawful.onExit (h : Lawful s) {ref : PodRef} {data : ExitData} (after : AfterExit)
    (hruns : ∀ r ∈ s.restartable ref data, s.stopped = false ∧ r.2.state = .running) :
    Lawful (s.onExit ref data after).1 := by
  unfold PodSupervisor.onExit
  split
  · rename_i e entry hr
    obtain ⟨hkey, hentry⟩ := restartable_eq_some hr
    obtain ⟨hstopped, hrunning⟩ := hruns _ hr
    obtain ⟨hunsupervised, hdrained⟩ := h.out _ e entry hkey hentry hrunning
    have hrestarting : Lawful (s.setState e .restarting) := h.modifyEntry fun _ => ⟨rfl, fun heq => (by cases heq)⟩
    have hlaws := hrestarting.scheduleRestart e data.reason false
    obtain ⟨hattempts, -, -, hnew⟩ := scheduleRestart_turns (s.setState e .restarting) e data.reason false
    obtain ⟨hlength, hstate, hlog⟩ := scheduleRestart_restarting s e data.reason
    split
    · rename_i s' b hs'
      rw [hs'] at hlaws hattempts hnew hlength hstate hlog
      obtain ⟨hb, -⟩ := hnew b rfl
      change s'.attempts = s.attempts at hattempts
      refine hlaws.append rfl ?_ ?_ ?_ ?_ rfl
      · rw [hb, hattempts]
        exact h.running e entry hentry hrunning
      · rw [hb]
        rintro (hmem | hmem | hmem)
        · exact hunsupervised ((hlog _ fun _ _ heq => (by cases heq)).mp hmem)
        · exact hdrained ((hlog _ fun _ _ heq => (by cases heq)).mp hmem)
        · have hst := h.stopped ((hlog _ fun _ _ heq => (by cases heq)).mp hmem)
          rw [hstopped] at hst
          cases hst
      · rw [hb]
        exact hstate
      · rw [hb]
        exact (List.getElem?_eq_some_iff.mp hentry).1.trans_eq hlength.symm
    · rename_i s' hs'
      rw [hs'] at hlaws
      exact hlaws
  · split
    · exact h.modifyEntry fun _ => ⟨rfl, fun heq => (by cases heq)⟩
    · exact h

theorem Lawful.supervised (h : Lawful s) (ref : PodRef) (restart : RestartSpec) : Lawful (s.supervised ref restart) := by
  have hentries : ∀ (e : ℕ) (entry : PodEntry), (s.supervised ref restart).entries[e]? = some entry →
      s.entries[e]? = some entry ∨ e = s.entries.length := by
    intro e entry hentry
    change (s.entries ++ [_])[e]? = some entry at hentry
    rcases Nat.lt_trichotomy e s.entries.length with hlt | heq | hgt
    · rw [List.getElem?_append_left hlt] at hentry
      exact .inl hentry
    · exact .inr heq
    · rw [List.getElem?_eq_none ((List.length_append).trans_le hgt)] at hentry
      cases hentry
  have hlength : s.entries.length ≤ (s.supervised ref restart).entries.length :=
    (Nat.le_add_right _ _).trans_eq List.length_append.symm
  have hnew : pendingOf s.attempts s.entries.length = 0 :=
    pendingOf_eq_zero_iff.mpr fun a ha _ heq => absurd heq (h.range a ha).ne
  refine ⟨h.single, fun e entry hentry hrunning => ?_, fun key e hkey => ?_, fun a ha => (h.range a ha).trans_le hlength,
    h.idle, fun key e entry hkey hentry hrunning => ?_, fun e hold => (h.old e hold).trans_le hlength, h.stopped, h.spawns⟩
  · rcases hentries e entry hentry with hentry | rfl
    · exact h.running e entry hentry hrunning
    · exact hnew
  · change (s.pods.set (refKey ref) s.entries.length).get? key = some e at hkey
    rw [JsMap.get?_set] at hkey
    split_ifs at hkey with hsame
    · obtain rfl := Option.some.inj hkey
      exact ⟨_, List.getElem?_concat_length, hsame.symm⟩
    · obtain ⟨entry, hentry, href⟩ := h.known key e hkey
      exact ⟨entry, (List.getElem?_append_left (List.getElem?_eq_some_iff.mp hentry).1).trans hentry, href⟩
  · change (s.pods.set (refKey ref) s.entries.length).get? key = some e at hkey
    rw [JsMap.get?_set] at hkey
    split_ifs at hkey
    · obtain rfl := Option.some.inj hkey
      exact ⟨fun hmem => absurd (h.old _ (.inl hmem)) (lt_irrefl _), fun hmem => absurd (h.old _ (.inr hmem)) (lt_irrefl _)⟩
    · rcases hentries e entry hentry with hentry | rfl
      · exact h.out key e entry hkey hentry hrunning
      · obtain ⟨entry', hentry', -⟩ := h.known key _ hkey
        exact absurd (List.getElem?_eq_some_iff.mp hentry').1 (lt_irrefl _)

/-! ### Runs -/

def looked : SupervisorTask → List (Option ℕ)
  | .waiting (.cascading stack _) => stack
  | .waiting (.drainingChild stack child _) => child :: stack
  | .waiting (.draining entry) => [entry]
  | _ => []

def Looked (s : PodSupervisor) (t : SupervisorTask) : Prop :=
  ∀ entry ∈ looked t, ∀ e ∈ entry, e < s.entries.length

@[simp] theorem looked_afterExit (after : AfterExit) : looked (afterExit after) = [] := by
  cases after with
  | done => rfl
  | lost host names =>
      cases names with
      | nil => rfl
      | cons name names => rfl
  | sweep host names rest =>
      cases names with
      | nil =>
          cases rest with
          | nil => rfl
          | cons head rest => rfl
      | cons name names => rfl

theorem Looked.of_empty {t : SupervisorTask} (h : looked t = []) : s.Looked t := by
  intro entry hentry
  rw [h] at hentry
  cases hentry

theorem Lawful.get?_lt (h : Lawful s) {key : JsString} : ∀ e ∈ s.pods.get? key, e < s.entries.length := by
  intro e he
  obtain ⟨entry, hentry, -⟩ := h.known key e he
  exact (List.getElem?_eq_some_iff.mp hentry).1

theorem Cleared.length (h : Cleared s s') : s'.entries.length = s.entries.length := h.follows.length

theorem looked_onExit (s : PodSupervisor) (ref : PodRef) (data : ExitData) (after : AfterExit) :
    looked (s.onExit ref data after).2 = [] := by
  unfold PodSupervisor.onExit
  split
  · split
    · rfl
    · rfl
  · split
    · exact looked_afterExit after
    · exact looked_afterExit after

theorem onExit_length (s : PodSupervisor) (ref : PodRef) (data : ExitData) (after : AfterExit) :
    (s.onExit ref data after).1.entries.length = s.entries.length := by
  unfold PodSupervisor.onExit
  split
  · rename_i e _ _
    have hlength := (scheduleRestart_length (s.setState e .restarting) e data.reason false).trans (List.length_modify ..)
    split
    · rename_i s' b hs'
      rw [hs'] at hlength
      exact hlength
    · rename_i s' hs'
      rw [hs'] at hlength
      exact hlength
  · split
    · exact List.length_modify ..
    · rfl

variable {r : PodSupervisor × SupervisorTask}

theorem Lawful.start (h : Lawful s) {call : SupervisorCall} (hmay : s.MayCall call) (hs : s.startCall call = some r) :
    Lawful r.1 ∧ s.entries.length ≤ r.1.entries.length ∧ r.1.Looked r.2 := by
  cases call with
  | supervise ref restart =>
      obtain rfl := Option.some.inj hs
      refine ⟨h, le_rfl, .of_empty ?_⟩
      dsimp only
      split_ifs
      · rfl
      · rfl
  | unsupervise ref =>
      obtain rfl := Option.some.inj hs
      exact ⟨h.unsupervise hmay, (follows_unsupervise s ref).length.ge, .of_empty rfl⟩
  | drain ref cascade =>
      obtain rfl := Option.some.inj hs
      cases cascade with
      | true => exact ⟨h, le_rfl, .of_empty rfl⟩
      | false =>
          have hcleared := cleared_clearTimer? s (s.pods.get? (refKey ref))
          refine ⟨h.of_cleared hcleared, hcleared.length.ge, fun entry hentry e he => ?_⟩
          obtain rfl := List.mem_singleton.mp hentry
          exact (h.get?_lt e he).trans_eq hcleared.length.symm
  | stop =>
      obtain rfl := Option.some.inj hs
      exact ⟨h.stop hmay, (follows_stop s).length.ge, .of_empty rfl⟩
  | exit ref data =>
      simp only [startCall] at hs
      split_ifs at hs
      obtain rfl := Option.some.inj hs
      exact ⟨h, le_rfl, .of_empty rfl⟩
  | hostLost host =>
      simp only [startCall] at hs
      split_ifs at hs
      · obtain rfl := Option.some.inj hs
        exact ⟨h, le_rfl, .of_empty rfl⟩
      · obtain rfl := Option.some.inj hs
        exact ⟨h, le_rfl, .of_empty rfl⟩
  | reconcile =>
      simp only [startCall] at hs
      split_ifs at hs
      obtain rfl := Option.some.inj hs
      exact ⟨h, le_rfl, .of_empty (looked_afterExit _)⟩
  | attempt i event =>
      obtain ⟨s', hs', rfl⟩ := Option.map_eq_some_iff.mp hs
      obtain ⟨a, hi, hs'⟩ := Option.bind_eq_some_iff.mp hs'
      exact ⟨h.event hi hs', (attempt_length hi hs').ge, .of_empty rfl⟩

variable {frame : SupervisorFrame}

theorem looked_resume {event : SupervisorEvent} (hs : s.resumeCall frame event = some r) :
    ∀ entry ∈ looked r.2, entry ∈ looked (.waiting frame) ∨ ∃ key, entry = s.pods.get? key := by
  have hempty : looked r.2 = [] →
      ∀ entry ∈ looked r.2, entry ∈ looked (.waiting frame) ∨ ∃ key, entry = s.pods.get? key := by
    intro h entry hentry
    rw [h] at hentry
    cases hentry
  unfold resumeCall at hs
  split at hs
  · obtain rfl := Option.some.inj hs
    exact hempty rfl
  · obtain rfl := Option.some.inj hs
    exact hempty rfl
  · rename_i stack next key
    obtain rfl := Option.some.inj hs
    intro entry hentry
    rcases List.mem_cons.mp hentry with rfl | hentry
    · exact .inr ⟨key, rfl⟩
    · exact .inl hentry
  · obtain rfl := Option.some.inj hs
    exact fun entry hentry => .inl hentry
  · rename_i ref
    obtain rfl := Option.some.inj hs
    intro entry hentry
    exact .inr ⟨refKey ref, List.mem_singleton.mp hentry⟩
  · obtain rfl := Option.some.inj hs
    exact hempty (looked_onExit ..)
  · obtain rfl := Option.some.inj hs
    exact fun entry hentry => .inl (List.mem_cons_of_mem _ hentry)
  · obtain rfl := Option.some.inj hs
    exact hempty rfl
  · obtain rfl := Option.some.inj hs
    exact hempty rfl
  · split_ifs at hs
    obtain rfl := Option.some.inj hs
    exact hempty (looked_afterExit _)
  · obtain rfl := Option.some.inj hs
    exact hempty (looked_afterExit _)
  · obtain rfl := Option.some.inj hs
    exact hempty (looked_afterExit _)
  · obtain rfl := Option.some.inj hs
    exact hempty (looked_afterExit _)
  · obtain rfl := Option.some.inj hs
    exact hempty (looked_afterExit _)
  · cases hs

theorem mem_looked_of_settles {entry : Option ℕ} (h : settles frame = some entry) :
    entry ∈ looked (.waiting frame) := by
  cases frame with
  | drainingChild stack child next =>
      obtain rfl := Option.some.inj h
      exact List.mem_cons_self
  | draining entry =>
      obtain rfl := Option.some.inj h
      exact List.mem_singleton_self _
  | supervising ref restart => cases h
  | cascading stack next => cases h
  | drained => cases h
  | scheduled e n after => cases h
  | gaveUp after => cases h
  | losing host names => cases h
  | listing host entries rest => cases h

theorem Lawful.resume (h : Lawful s) {event : SupervisorEvent}
    (hlooked : s.Looked (.waiting frame)) (hmay : s.MayGoOn frame event) (hs : s.resumeCall frame event = some r) :
    Lawful r.1 ∧ s.entries.length ≤ r.1.entries.length ∧ r.1.Looked r.2 := by
  have hlength : s.entries.length ≤ r.1.entries.length := by
    cases goes_resume hs with
    | stays t => exact le_rfl
    | supervised ref restart _ => exact (Nat.le_add_right _ _).trans_eq List.length_append.symm
    | clears entry t => exact (cleared_clearTimer? s entry).length.ge
    | drained entry t _ _ => exact (follows_drained? s entry).length.ge
    | exits ref data after _ _ => exact (onExit_length s ref data after).ge
  refine ⟨?_, hlength, fun entry hentry e he => ?_⟩
  · cases goes_resume hs with
    | stays t => exact h
    | supervised ref restart _ => exact h.supervised ref restart
    | clears entry t => exact h.of_cleared (cleared_clearTimer? s entry)
    | drained entry t hsettles hevent =>
        exact h.drained? ((hmay hevent).1 entry hsettles) (hlooked entry (mem_looked_of_settles hsettles))
    | exits ref data after hframe hevent =>
        refine h.onExit after ((hmay hevent).2 (ref, data) ?_)
        rw [hframe]
        rfl
  · refine lt_of_lt_of_le ?_ hlength
    rcases looked_resume hs entry hentry with hold | ⟨key, rfl⟩
    · exact hlooked entry hold e he
    · exact h.get?_lt e he

end

end PodSupervisor

/-! ### The supervisor -/

/-- Pods are given up while no attempt is past its timer or before it, and exits are handled for pods that run. -/
def Kept : SupervisorWorld → Action SupervisorCall SupervisorEvent → Prop :=
  Program.Meets PodSupervisor.MayCall PodSupervisor.MayGoOn

instance (w : SupervisorWorld) : DecidablePred (Kept w) := fun a =>
  inferInstanceAs (Decidable (Program.Meets PodSupervisor.MayCall PodSupervisor.MayGoOn w a))

theorem PodSupervisor.lawful_new (m : ℕ) : (PodSupervisor.new m).Lawful :=
  ⟨fun _ => Nat.zero_le _, fun _ _ h => (by cases h), fun _ _ h => (by cases h), fun _ h => (by cases h), fun _ _ => rfl,
    fun _ _ _ h => (by cases h), fun _ h => h.elim (fun h => (by cases h)) fun h => (by cases h),
    fun h => (by cases h), List.Pairwise.nil⟩

theorem lawful_of_reach {m : ℕ} {w : SupervisorWorld} (h : (supervisorMachine m).Reach Kept w) : w.shared.Lawful := by
  have hinv : w.shared.Lawful ∧ ∀ t ∈ w.tasks, w.shared.Looked t := by
    refine h.invariant (I := fun w : SupervisorWorld => w.shared.Lawful ∧ ∀ t ∈ w.tasks, w.shared.Looked t)
      ⟨PodSupervisor.lawful_new m, fun t ht => (by cases ht)⟩ ?_
    intro w a w' hI hok hstep
    obtain ⟨hlaws, -, htasks⟩ := Program.step_of_meets (p := PodSupervisor.program)
      (R := fun s s' => s.entries.length ≤ s'.entries.length) (J := PodSupervisor.Looked)
      (fun s s' t hR hJ entry hentry e he => (hJ entry hentry e he).trans_le hR)
      (fun s call r hI hmay hs => hI.start hmay hs)
      (fun s frame event r hI hJ hmay hs => hI.resume hJ hmay hs) hI.1 hI.2 hok hstep
    exact ⟨hlaws, htasks⟩
  exact hinv.1

theorem turns_of_reach {m : ℕ} {w : SupervisorWorld} (h : (supervisorMachine m).Reach (fun _ _ => True) w) :
    w.shared.Turns ∧ w.shared.maxConcurrent = max 1 m ∧ w.shared.Tally := by
  refine h.invariant (I := fun w : SupervisorWorld =>
    w.shared.Turns ∧ w.shared.maxConcurrent = max 1 m ∧ w.shared.Tally) ?_ ?_
  · exact ⟨⟨rfl, Nat.zero_le _⟩, rfl, fun _ _ h => (by cases h), fun _ _ => rfl, fun _ h => (by cases h),
      fun _ _ h => (by cases h)⟩
  · intro w a w' hI _ hstep
    obtain ⟨hturns, hmax, htally⟩ := hI
    cases a with
    | start call =>
        obtain ⟨r, hr, rfl⟩ := Program.step_start hstep
        obtain ⟨hturns', hmax'⟩ := hturns.start hr
        exact ⟨hturns', hmax'.trans hmax, htally.start hr⟩
    | resume i event =>
        obtain ⟨frame, r, -, hr, rfl⟩ := Program.step_resume hstep
        have hgoes := PodSupervisor.goes_resume hr
        obtain ⟨hturns', hmax'⟩ := hturns.goes hgoes
        exact ⟨hturns', hmax'.trans hmax, htally.goes hgoes⟩

/-- In every run an entry is scheduled `maxRestarts` times at most, only what was scheduled spawns, and no more restart
spawns are in flight than there are turns.  In a run in which pods are given up while no attempt is past its timer or
before it, and exits are handled for pods that run, nothing is spawned again after it was given up, and an entry has one
attempt at most, and none while its pod runs. -/
theorem restarts_once {m : ℕ} {w : SupervisorWorld} (h : (supervisorMachine m).Reach (fun _ _ => True) w) :
    (flightsIn w.shared.attempts ≤ max 1 m ∧
      ∀ e entry, w.shared.entries[e]? = some entry → scheduledIn w.shared.log e ≤ entry.maxRestarts ∧
        ∀ n, .restartSpawn e n ∈ w.shared.log → .scheduled e n ∈ w.shared.log) ∧
    ((supervisorMachine m).Reach Kept w →
      w.shared.log.Pairwise MayFollow ∧
      ∀ e, pendingOf w.shared.attempts e ≤ 1 ∧
        ∀ entry, w.shared.entries[e]? = some entry → entry.state = .running → pendingOf w.shared.attempts e = 0) := by
  obtain ⟨hturns, hmax, htally⟩ := turns_of_reach h
  refine ⟨⟨hmax ▸ hturns.flightsIn_le, fun e entry hentry => ?_⟩, fun hkept => ?_⟩
  · obtain ⟨hcount, hbound⟩ := htally.counted e entry hentry
    exact ⟨hcount.trans_le hbound, htally.spawns e⟩
  · have hlaws := lawful_of_reach hkept
    exact ⟨hlaws.spawns, fun e => ⟨hlaws.single e, hlaws.running e⟩⟩

/-- A pod is supervised, dies, and is scheduled for its restart. -/
def died : List (Action SupervisorCall SupervisorEvent) :=
  [.start (.supervise ⟨js "a", js "p"⟩ ⟨.always, none⟩), .resume 0 .settled,
    .start (.exit ⟨js "a", js "p"⟩ ⟨js "crashed", none⟩), .resume 1 .settled]

theorem restarts_once_died : ∃ w, (supervisorMachine 1).Reach Kept w ∧
    ([SupervisorNote.unsupervised 0, .restartSpawn 0 1].Sublist w.shared.log ∧ flightsIn w.shared.attempts ≤ max 1 1) ∧
      w.shared.log.Pairwise MayFollow := by
  obtain ⟨w, -, hw, hlog⟩ := Machine.exists_of_run
    (P := fun w : SupervisorWorld => [SupervisorNote.unsupervised 0, .restartSpawn 0 1].Sublist w.shared.log)
    (show ((supervisorMachine 1).run Kept (supervisorMachine 1).init (died ++
      [.start (.attempt 0 .audited), .start (.attempt 0 .fires), .start (.attempt 0 .spawned),
        .start (.unsupervise ⟨js "a", js "p"⟩)])).any _ = true by decide +kernel)
  have honce := restarts_once (hw.mono fun _ _ _ => trivial)
  exact ⟨w, hw, ⟨hlog, honce.1.1⟩, (honce.2 hw).1⟩

/-- While the restart is being recorded, the pod is unsupervised, is drained, or the supervisor is stopped, and it is
spawned nevertheless; an exit that is reported twice starts two attempts. -/
theorem restarts_again :
    (∀ n ∈ [SupervisorNote.unsupervised 0, .drained 0, .stopped], ∃ w,
      (supervisorMachine 1).Reach (fun _ _ => True) w ∧ [.restartSpawn 0 1, n].Sublist w.shared.log) ∧
    ∃ w, (supervisorMachine 1).Reach (fun _ _ => True) w ∧ pendingOf w.shared.attempts 0 = 2 := by
  have hrun : ∀ (calls : List (Action SupervisorCall SupervisorEvent)) (n : SupervisorNote),
      ((supervisorMachine 1).run (fun _ _ => True) (supervisorMachine 1).init (died ++ calls ++
        [.start (.attempt 0 .audited), .start (.attempt 0 .fires)])).any
          (fun w => decide ([.restartSpawn 0 1, n].Sublist w.shared.log)) = true →
      ∃ w, (supervisorMachine 1).Reach (fun _ _ => True) w ∧ [.restartSpawn 0 1, n].Sublist w.shared.log := by
    intro calls n hany
    obtain ⟨w, -, hw, hlog⟩ := Machine.exists_of_run hany
    exact ⟨w, hw, hlog⟩
  refine ⟨fun n hn => ?_, ?_⟩
  · rcases List.mem_cons.mp hn with rfl | hn
    · exact hrun [.start (.unsupervise ⟨js "a", js "p"⟩)] _ (by decide +kernel)
    · rcases List.mem_cons.mp hn with rfl | hn
      · exact hrun [.start (.drain ⟨js "a", js "p"⟩ false), .resume 2 .settled] _ (by decide +kernel)
      · rw [List.mem_singleton.mp hn]
        exact hrun [.start .stop] _ (by decide +kernel)
  · obtain ⟨w, -, hw, hpending⟩ := Machine.exists_of_run
      (P := fun w : SupervisorWorld => pendingOf w.shared.attempts 0 = 2)
      (show ((supervisorMachine 1).run (fun _ _ => True) (supervisorMachine 1).init (died ++
        [.start (.exit ⟨js "a", js "p"⟩ ⟨js "crashed", none⟩), .resume 2 .settled])).any _ = true by decide +kernel)
    exact ⟨w, hw, hpending⟩

end BrowserMesh.Apps
