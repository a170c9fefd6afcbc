import BrowserMesh.Discovery.Swim

/-! # How long a suspicion lasts

* **Since when.**  A run is watched by noting for every pod since when it has been suspect without a break
  (`since`); every update of a message counts, also when the next one takes it back.
* **Timers.**  A suspicion starts a timer that nothing stops when the suspicion is refuted.  As long as no pod
  becomes suspect anew while such a timer is outstanding, every timer waits for the current suspicion
  (`Waits`).
* **Results.**  In these runs a pod is declared dead by the timeout only after it has been suspect for the
  whole time, if a timer can wait so long (`dead_after_wait`). -/

namespace BrowserMesh.Discovery
open Js Transition

namespace SwimMembership

def Suspects (m : SwimMembership) (p : JsString) : Prop := m.getState p = some .suspect

instance (m : SwimMembership) (p : JsString) : Decidable (m.Suspects p) := inferInstanceAs (Decidable (_ = _))

def Timed (m : SwimMembership) (p : JsString) : Prop :=
  ∃ seq timer, m.timers.get? seq = some timer ∧ timer.kind = .suspect p

/-- No pod that has an outstanding suspicion timer becomes suspect. -/
def SuspectsOnce (m m' : SwimMembership) : Prop := ∀ p, m'.Suspects p → ¬ m.Suspects p → ¬ m.Timed p

/-- Since when every pod has been suspect, after the node changes from `m` to `m'`. -/
def track (now : ℕ) (m m' : SwimMembership) (since : JsString → Option ℕ) (p : JsString) : Option ℕ :=
  if m'.Suspects p then if m.Suspects p then since p else some now else none

/-- Every outstanding suspicion timer waits for the current suspicion of its pod, if there is one. -/
def Waits (m : SwimMembership) (since : JsString → Option ℕ) : Prop :=
  ∀ seq timer p, m.timers.get? seq = some timer → timer.kind = .suspect p → m.Suspects p →
    ∃ start, since p = some start ∧ start + timeoutDelay m.config.suspectTimeoutMs ≤ timer.due

/-- The suspicion timers that are new wait for a suspicion that begins now. -/
structure Change (now : ℕ) (m m' : SwimMembership) : Prop where
  config : m'.config = m.config
  timers : ∀ seq timer, m'.timers.get? seq = some timer → m.timers.get? seq = some timer ∨
    ∀ p, timer.kind = .suspect p → ¬ m.Suspects p ∧ timer.due = now + timeoutDelay m.config.suspectTimeoutMs

variable {now : ℕ} {m m' : SwimMembership}

theorem waits_of_change {since : JsString → Option ℕ}
    (hchange : Change now m m') (honce : SuspectsOnce m m') (h : m.Waits since) :
    m'.Waits (track now m m' since) := by
  intro seq timer p htimer hkind hsuspects
  rw [track, if_pos hsuspects, hchange.config]
  rcases hchange.timers seq timer htimer with hold | hnew
  · by_cases hbefore : m.Suspects p
    · rw [if_pos hbefore]
      exact h seq timer p hold hkind hbefore
    · exact absurd ⟨seq, timer, hold, hkind⟩ (honce p hsuspects hbefore)
  · obtain ⟨hbefore, hdue⟩ := hnew p hkind
    rw [if_neg hbefore]
    exact ⟨now, rfl, hdue.ge⟩

/-! ### What each operation does to the timers -/

/-- Nothing but timers that are taken away. -/
structure Lesser (m m' : SwimMembership) : Prop where
  config : m'.config = m.config
  members : m'.members = m.members
  timers : ∀ seq timer, m'.timers.get? seq = some timer → m.timers.get? seq = some timer

theorem Lesser.getState (h : Lesser m m') (p : JsString) :
    m'.getState p = m.getState p := by
  rw [SwimMembership.getState, SwimMembership.getState, h.members]

theorem change_of_timers (hconfig : m'.config = m.config)
    (htimers : ∀ seq timer, m'.timers.get? seq = some timer → m.timers.get? seq = some timer) :
    Change now m m' := ⟨hconfig, fun seq timer h => Or.inl (htimers seq timer h)⟩

theorem lesser_delete (m : SwimMembership) (seq : ℕ) :
    Lesser m { m with timers := m.timers.delete seq } := by
  refine ⟨rfl, rfl, fun seq' timer h => ?_⟩
  change (m.timers.delete seq).get? seq' = some timer at h
  rw [JsMap.get?_delete] at h
  split_ifs at h
  exact h

theorem lesser_clear (m : SwimMembership) (seq : ℕ) : Lesser m (m.clear seq) := by
  rw [clear]
  split_ifs
  · exact ⟨rfl, rfl, (lesser_delete m seq).timers⟩
  · exact ⟨rfl, rfl, fun seq' timer h => h⟩

theorem lesser_beforeUpdates (m : SwimMembership) (msg : SwimMessage) : Lesser m (m.beforeUpdates msg) := by
  cases msg with
  | ping seq updates => exact ⟨rfl, rfl, fun seq' timer h => h⟩
  | ack seq updates => exact lesser_clear m seq
  | pingReq target seq => exact ⟨rfl, rfl, fun seq' timer h => h⟩
  | pingAck target originalFrom seq updates => exact lesser_clear m seq

theorem change_await {after : ℕ} {kind : TimerKind} {pending : PendingPing}
    (h : Lesser m m') (hkind : ∀ p, kind ≠ .suspect p) : Change now m (m'.await now after kind pending) := by
  refine ⟨h.config, fun seq timer htimer => ?_⟩
  change (m'.timers.set (m'.seqCounter + 1) ⟨kind, now + timeoutDelay after⟩).get? seq = some timer at htimer
  rw [JsMap.get?_set] at htimer
  split_ifs at htimer
  · obtain rfl := Option.some.inj htimer
    exact Or.inr fun p hp => absurd hp (hkind p)
  · exact Or.inl (h.timers seq timer htimer)

theorem change_onIndirectTimeout (h : Lesser m m') (targetId : JsString) :
    Change now m (m'.onIndirectTimeout now targetId).1 := by
  rw [onIndirectTimeout]
  cases hget : m'.members.get? targetId with
  | none => exact change_of_timers h.config h.timers
  | some entry =>
      dsimp only
      split_ifs with halive
      · exact change_of_timers h.config h.timers
      · refine ⟨h.config, fun seq timer htimer => ?_⟩
        change (m'.timers.set (m'.seqCounter + 1)
          ⟨.suspect targetId, now + timeoutDelay m'.config.suspectTimeoutMs⟩).get? seq = some timer at htimer
        rw [JsMap.get?_set] at htimer
        split_ifs at htimer
        · obtain rfl := Option.some.inj htimer
          refine Or.inr fun p hp => ⟨?_, by rw [h.config]⟩
          obtain rfl := TimerKind.suspect.inj hp
          rw [Suspects, ← h.getState, SwimMembership.getState, hget, Option.map_some, not_not.mp halive]
          exact nofun
        · exact Or.inl (h.timers seq timer htimer)

theorem change_onTimer (h : Lesser m m') (random : ℕ → ℕ) (seq : ℕ)
    (kind : TimerKind) : Change now m (m'.onTimer now random seq kind).1 := by
  have hforget : Lesser m (m'.forget seq) := ⟨h.config, h.members, h.timers⟩
  cases kind with
  | ping targetId =>
      rw [onTimer, onPingTimeout]
      dsimp only
      split_ifs
      · exact change_onIndirectTimeout hforget targetId
      · exact change_await hforget fun p h => by cases h
  | relay fromId target msgSeq => exact change_of_timers h.config h.timers
  | indirect targetId => exact change_onIndirectTimeout hforget targetId
  | suspect targetId =>
      rw [onTimer, onSuspectTimeout]
      cases m'.members.get? targetId with
      | none => exact change_of_timers h.config h.timers
      | some entry =>
          dsimp only
          split_ifs
          · exact change_of_timers h.config h.timers
          · exact change_of_timers h.config h.timers

theorem change_fire {random : ℕ → ℕ} {seq : ℕ}
    {r : SwimMembership × List SwimSend × Option SwimCallback} (h : m.fire now random seq = some r) :
    Change now m r.1 := by
  rw [fire] at h
  cases htimer : m.timers.get? seq with
  | none =>
      rw [htimer] at h
      cases h
  | some timer =>
      rw [htimer] at h
      dsimp only at h
      split_ifs at h
      obtain rfl := Option.some.inj h
      exact change_onTimer (lesser_delete m seq) random seq timer.kind

theorem change_pingRound (now : ℕ) (m : SwimMembership) (random : ℕ → ℕ) :
    Change now m (m.pingRound now random).1 := by
  have hrefill : Lesser m (if m.pingQueue.length = 0 then m.refillPingQueue random else m) := by
    split_ifs
    · exact ⟨rfl, rfl, fun seq timer h => h⟩
    · exact ⟨rfl, rfl, fun seq timer h => h⟩
  rw [pingRound]
  generalize (if m.pingQueue.length = 0 then m.refillPingQueue random else m) = m' at hrefill
  cases m'.pingQueue with
  | nil => exact change_of_timers hrefill.config hrefill.timers
  | cons targetId pingQueue =>
      dsimp only
      cases m'.members.get? targetId with
      | none => exact change_of_timers hrefill.config hrefill.timers
      | some entry =>
          dsimp only
          split_ifs
          · exact change_of_timers hrefill.config hrefill.timers
          · exact change_await ⟨hrefill.config, hrefill.members, hrefill.timers⟩ fun p h => by cases h

theorem change_afterUpdates (now : ℕ) (m : SwimMembership) (fromId : JsString) (msg : SwimMessage) :
    Change now m (m.afterUpdates now fromId msg).1 := by
  have hself : Lesser m m.drained := ⟨rfl, rfl, fun seq timer h => h⟩
  cases msg with
  | ping seq updates => exact change_of_timers rfl fun seq timer h => h
  | ack seq updates => exact change_of_timers rfl fun seq timer h => h
  | pingReq target seq => exact change_await hself fun p h => by cases h
  | pingAck target originalFrom seq updates => exact change_of_timers rfl fun seq timer h => h

theorem change_processUpdate (now : ℕ) (m : SwimMembership) (u : MemberUpdate) :
    Change now m (m.processUpdate now u).1 := by
  obtain ⟨-, hconfig, htimers, -, -⟩ := m.processUpdate_frame now u
  exact change_of_timers hconfig fun seq timer h => htimers ▸ h

theorem change_addMember (now : ℕ) (m : SwimMembership) (p : JsString) : Change now m (m.addMember p).1 := by
  rw [addMember]
  split_ifs
  · exact change_of_timers rfl fun seq timer h => h
  · exact change_of_timers rfl fun seq timer h => h
  · exact change_of_timers rfl fun seq timer h => h

theorem change_removeMember (now : ℕ) (m : SwimMembership) (p : JsString) :
    Change now m (m.removeMember p).1 := by
  rw [removeMember]
  cases m.members.get? p with
  | none => exact change_of_timers rfl fun seq timer h => h
  | some entry => exact change_of_timers rfl fun seq timer h => h

theorem change_stop (now : ℕ) (m : SwimMembership) : Change now m m.stop := by
  have hdelete : ∀ (keys : List ℕ) (timers : JsMap ℕ SwimTimer) (seq : ℕ) (timer : SwimTimer),
      (keys.foldl JsMap.delete timers).get? seq = some timer → timers.get? seq = some timer := by
    intro keys
    induction keys with
    | nil => exact fun timers seq timer h => h
    | cons key keys ih =>
        intro timers seq timer h
        have hrest := ih (timers.delete key) seq timer h
        rw [JsMap.get?_delete] at hrest
        split_ifs at hrest
        exact hrest
  exact change_of_timers rfl fun seq timer h => hdelete _ _ _ _ h

end SwimMembership

/-! ### Watched runs -/

/-- A run of a node, and since when every pod has been suspect. -/
structure WatchedRun where
  run : SwimRun
  since : JsString → Option ℕ

namespace WatchedRun
open SwimMembership

def watchUpdate (now : ℕ) (w : SwimMembership × (JsString → Option ℕ)) (u : MemberUpdate) :
    SwimMembership × (JsString → Option ℕ) :=
  ((w.1.processUpdate now u).1, track now w.1 (w.1.processUpdate now u).1 w.2)

/-- Since when every pod has been suspect after an event that leads to `run'`. -/
def sinceAfter (w : WatchedRun) (run' : SwimRun) : SwimEvent → JsString → Option ℕ
  | .message _ msg => (msg.updates.foldl (watchUpdate w.run.now) (w.run.node.beforeUpdates msg, w.since)).2
  | _ => track w.run.now w.run.node run'.node w.since

def machine (localId : JsString) (config : SwimConfig) : Machine WatchedRun SwimEvent where
  init := ⟨(SwimRun.machine localId config).init, fun _ => none⟩
  step w event := (w.run.step event).map fun run' => ⟨run', w.sinceAfter run' event⟩

/-- No update makes a pod suspect that has an outstanding suspicion timer. -/
def UpdatesSuspectOnce (now : ℕ) : SwimMembership → List MemberUpdate → Prop
  | _, [] => True
  | m, u :: updates =>
      SuspectsOnce m (m.processUpdate now u).1 ∧ UpdatesSuspectOnce now (m.processUpdate now u).1 updates

/-- No pod becomes suspect anew while a timer of an earlier suspicion of it is outstanding. -/
def NoRenewal (w : WatchedRun) : SwimEvent → Prop
  | .message _ msg => UpdatesSuspectOnce w.run.now (w.run.node.beforeUpdates msg) msg.updates
  | .timeout seq random => ∀ r, w.run.node.fire w.run.now random seq = some r → SuspectsOnce w.run.node r.1
  | _ => True

/-! ### Every timer waits for the current suspicion -/

variable {m m' : SwimMembership}

theorem waits_of_states {now : ℕ} {since : JsString → Option ℕ}
    (hchange : Change now m m') (h : ∀ p, m'.getState p = m.getState p) (hm : m.Waits since) :
    m'.Waits since := by
  intro seq timer p htimer hkind hsuspects
  have hbefore : m.Suspects p := (h p).symm.trans hsuspects
  rw [hchange.config]
  rcases hchange.timers seq timer htimer with hold | hnew
  · exact hm seq timer p hold hkind hbefore
  · exact absurd hbefore (hnew p hkind).1

theorem waits_watchUpdates {now : ℕ} {updates : List MemberUpdate}
    {since : JsString → Option ℕ} (hm : m.Waits since) (honce : UpdatesSuspectOnce now m updates) :
    (m.processUpdates now updates).Waits (updates.foldl (watchUpdate now) (m, since)).2 := by
  induction updates generalizing m since with
  | nil => exact hm
  | cons u updates ih =>
      exact ih (waits_of_change (change_processUpdate now m u) honce.1 hm) honce.2

theorem getState_of_members (h : m'.members = m.members) (p : JsString) :
    m'.getState p = m.getState p := by
  rw [SwimMembership.getState, SwimMembership.getState, h]

theorem suspectsOnce_addMember (m : SwimMembership) (p : JsString) : SuspectsOnce m (m.addMember p).1 := by
  intro q hafter hbefore
  rw [addMember] at hafter
  split_ifs at hafter
  · exact absurd hafter hbefore
  · exact absurd hafter hbefore
  · rw [Suspects, SwimMembership.getState, members_enqueueUpdate, members_setMember, JsMap.get?_set] at hafter
    split_ifs at hafter
    · cases hafter
    · exact absurd hafter hbefore

theorem suspectsOnce_removeMember (m : SwimMembership) (p : JsString) :
    SuspectsOnce m (m.removeMember p).1 := by
  intro q hafter hbefore
  rw [removeMember] at hafter
  cases hget : m.members.get? p with
  | none =>
      rw [hget] at hafter
      exact absurd hafter hbefore
  | some entry =>
      rw [hget] at hafter
      dsimp only at hafter
      rw [Suspects, SwimMembership.getState, members_enqueueUpdate, members_setMember, JsMap.get?_set] at hafter
      split_ifs at hafter
      · cases hafter
      · exact absurd hafter hbefore

theorem suspectsOnce_of_states (h : ∀ p, m'.getState p = m.getState p) :
    SuspectsOnce m m' := fun p hafter hbefore => absurd ((h p).symm.trans hafter) hbefore

theorem config_processUpdates (m : SwimMembership) (now : ℕ) (updates : List MemberUpdate) :
    (m.processUpdates now updates).config = m.config := (m.processUpdates_frame now updates).2.1

variable {w : WatchedRun} {localId : JsString} {config : SwimConfig}

theorem waits_step {w' : WatchedRun} {event : SwimEvent} (hw : w.run.node.Waits w.since) (hquiet : w.NoRenewal event)
    (hstep : (machine localId config).step w event = some w') : w'.run.node.Waits w'.since := by
  obtain ⟨run', hrun, rfl⟩ := Option.map_eq_some_iff.mp hstep
  cases event with
  | tick ms =>
      obtain rfl := Option.some.inj hrun
      have hself : Change w.run.now w.run.node w.run.node := change_of_timers rfl fun seq timer h => h
      exact waits_of_change hself (suspectsOnce_of_states fun p => rfl) hw
  | pingRound random =>
      obtain rfl := Option.some.inj hrun
      exact waits_of_change (change_pingRound _ _ _)
        (suspectsOnce_of_states (getState_of_members (members_pingRound _ _ _))) hw
  | message fromId msg =>
      obtain rfl := Option.some.inj hrun
      have hlesser := lesser_beforeUpdates w.run.node msg
      have hbefore : (w.run.node.beforeUpdates msg).Waits w.since :=
        waits_of_states (show Change w.run.now _ _ from change_of_timers hlesser.config hlesser.timers)
          hlesser.getState hw
      exact waits_of_states (change_afterUpdates w.run.now _ fromId msg)
        (getState_of_members (members_afterUpdates _ _ _ _)) (waits_watchUpdates hbefore hquiet)
  | timeout seq random =>
      obtain ⟨r, hr, rfl⟩ := Option.map_eq_some_iff.mp hrun
      exact waits_of_change (change_fire hr) (hquiet r hr) hw
  | addMember podId =>
      obtain rfl := Option.some.inj hrun
      exact waits_of_change (change_addMember _ _ _) (suspectsOnce_addMember _ _) hw
  | removeMember podId =>
      obtain rfl := Option.some.inj hrun
      exact waits_of_change (change_removeMember _ _ _) (suspectsOnce_removeMember _ _) hw
  | stop =>
      obtain rfl := Option.some.inj hrun
      exact waits_of_change (change_stop _ _) (suspectsOnce_of_states fun p => rfl) hw

theorem waits_of_reach (h : (machine localId config).Reach NoRenewal w) : w.run.node.Waits w.since := by
  refine Machine.Reach.invariant (I := fun w => w.run.node.Waits w.since) ?_ ?_ h
  · intro seq timer p htimer
    cases htimer
  · exact fun w event w' hw hquiet hstep => waits_step hw hquiet hstep

theorem config_step {w w' : SwimRun} {event : SwimEvent} (h : w.step event = some w') :
    w'.node.config = w.node.config := by
  cases event with
  | tick ms =>
      obtain rfl := Option.some.inj h
      rfl
  | pingRound random =>
      obtain rfl := Option.some.inj h
      exact (change_pingRound w.now w.node random).config
  | message fromId msg =>
      obtain rfl := Option.some.inj h
      refine (change_afterUpdates w.now _ fromId msg).config.trans ?_
      rw [config_processUpdates, (lesser_beforeUpdates w.node msg).config]
  | timeout seq random =>
      obtain ⟨r, hr, rfl⟩ := Option.map_eq_some_iff.mp h
      exact (change_fire hr).config
  | addMember podId =>
      obtain rfl := Option.some.inj h
      exact (change_addMember w.now w.node podId).config
  | removeMember podId =>
      obtain rfl := Option.some.inj h
      exact (change_removeMember w.now w.node podId).config
  | stop =>
      obtain rfl := Option.some.inj h
      rfl

theorem config_of_reach (h : (machine localId config).Reach NoRenewal w) : w.run.node.config = config := by
  refine Machine.Reach.invariant (I := fun w => w.run.node.config = config) rfl ?_ h
  intro w event w' hw _ hstep
  obtain ⟨run', hrun, rfl⟩ := Option.map_eq_some_iff.mp hstep
  exact (config_step hrun).trans hw

/-! ### Who is declared dead -/

theorem getState_onIndirectTimeout {now : ℕ} {targetId p : JsString}
    (h : (m.onIndirectTimeout now targetId).1.getState p = some .dead) : m.getState p = some .dead := by
  rw [onIndirectTimeout] at h
  cases hget : m.members.get? targetId with
  | none =>
      rw [hget] at h
      exact h
  | some entry =>
      rw [hget] at h
      dsimp only at h
      split_ifs at h
      · exact h
      · rw [SwimMembership.getState, members_await, members_enqueueUpdate, members_setMember,
          JsMap.get?_set] at h
        split_ifs at h
        · cases h
        · exact h

theorem suspicion_of_dead {now seq : ℕ} {random : ℕ → ℕ} {p : JsString}
    {r : SwimMembership × List SwimSend × Option SwimCallback} (hfire : m.fire now random seq = some r)
    (hbefore : m.getState p ≠ some .dead) (hafter : r.1.getState p = some .dead) :
    ∃ timer, m.timers.get? seq = some timer ∧ timer.kind = .suspect p ∧ timer.due ≤ now ∧ m.Suspects p := by
  rw [fire] at hfire
  cases htimer : m.timers.get? seq with
  | none =>
      rw [htimer] at hfire
      cases hfire
  | some timer =>
      rw [htimer] at hfire
      dsimp only at hfire
      split_ifs at hfire with hdue
      obtain rfl := Option.some.inj hfire
      refine ⟨timer, rfl, ?_⟩
      cases hkind : timer.kind with
      | ping targetId =>
          rw [hkind, onTimer, onPingTimeout] at hafter
          dsimp only at hafter
          split_ifs at hafter
          · exact absurd (getState_onIndirectTimeout hafter) hbefore
          · exact absurd hafter hbefore
      | relay fromId target msgSeq =>
          rw [hkind] at hafter
          exact absurd hafter hbefore
      | indirect targetId =>
          rw [hkind] at hafter
          exact absurd (getState_onIndirectTimeout hafter) hbefore
      | suspect targetId =>
          rw [hkind, onTimer, onSuspectTimeout] at hafter
          dsimp only at hafter
          cases hget : m.members.get? targetId with
          | none =>
              rw [hget] at hafter
              exact absurd hafter hbefore
          | some entry =>
              rw [hget] at hafter
              dsimp only at hafter
              split_ifs at hafter with hsuspect
              · exact absurd hafter hbefore
              · by_cases hp : p = targetId
                · subst hp
                  refine ⟨rfl, hdue, ?_⟩
                  rw [Suspects, SwimMembership.getState, hget, Option.map_some, not_not.mp hsuspect]
                · rw [SwimMembership.getState, members_enqueueUpdate, members_setMember, JsMap.get?_set,
                    if_neg hp] at hafter
                  exact absurd hafter hbefore

/-- **Suspicions last.**  With a suspicion timeout that a timer can wait for, in runs in which no pod becomes
suspect anew while a timer of an earlier suspicion of it is outstanding, a timeout declares a pod dead only
after it has been suspect without a break for the whole suspicion timeout. -/
theorem dead_after_wait (localId : JsString) (config : SwimConfig) (hconfig : config.suspectTimeoutMs < 2 ^ 31)
    (w : WatchedRun) (h : (machine localId config).Reach NoRenewal w) (seq : ℕ) (random : ℕ → ℕ) (p : JsString)
    (r : SwimMembership × List SwimSend × Option SwimCallback)
    (hfire : w.run.node.fire w.run.now random seq = some r)
    (hbefore : w.run.node.getState p ≠ some .dead) (hafter : r.1.getState p = some .dead) :
    ∃ start, w.since p = some start ∧ start + config.suspectTimeoutMs ≤ w.run.now := by
  obtain ⟨timer, htimer, hkind, hdue, hsuspects⟩ := suspicion_of_dead hfire hbefore hafter
  obtain ⟨start, hstart, hwait⟩ := waits_of_reach h seq timer p htimer hkind hsuspects
  rw [config_of_reach h, timeoutDelay, if_pos hconfig] at hwait
  exact ⟨start, hstart, hwait.trans hdue⟩

/-- What Alice does after the events; what is not possible is left out. -/
def aliceAfter (events : List SwimEvent) : WatchedRun :=
  events.foldl (fun w event => ((machine (js "alice") ⟨500, 5000, 3⟩).step w event).getD w)
    (machine (js "alice") ⟨500, 5000, 3⟩).init

theorem reach_aliceAfter {ok : WatchedRun → SwimEvent → Prop} (events : List SwimEvent) (event : SwimEvent)
    (h : (machine (js "alice") ⟨500, 5000, 3⟩).Reach ok (aliceAfter events))
    (hok : ok (aliceAfter events) event) :
    (machine (js "alice") ⟨500, 5000, 3⟩).Reach ok (aliceAfter (events ++ [event])) := by
  have hsnoc : aliceAfter (events ++ [event]) =
      ((machine (js "alice") ⟨500, 5000, 3⟩).step (aliceAfter events) event).getD (aliceAfter events) :=
    List.foldl_concat _ _ _ _
  rw [hsnoc]
  cases hstep : (machine (js "alice") ⟨500, 5000, 3⟩).step (aliceAfter events) event with
  | none => exact h
  | some w => exact .step h hok hstep

/-- Alice pings Bob, who never answers, and has nobody else to ask. -/
def silentBob : List SwimEvent := [.addMember (js "bob"), .pingRound fun _ => 0, .tick 500]

theorem noRenewal_of_pings {seq : ℕ} {random : ℕ → ℕ}
    (h : ∀ e ∈ w.run.node.timers.entries, e.2.kind = .ping (js "bob")) :
    w.NoRenewal (.timeout seq random) := by
  rintro r - p - - ⟨seq', timer, htimer, hkind⟩
  rw [h (seq', timer) (JsMap.mem_entries_iff.mpr htimer)] at hkind
  cases hkind

theorem reach_silentBob : (machine (js "alice") ⟨500, 5000, 3⟩).Reach NoRenewal
    (aliceAfter (silentBob ++ [.timeout 1 fun _ => 0, .tick 5000])) := by
  have hadded := @reach_aliceAfter NoRenewal [] (.addMember (js "bob")) .init trivial
  have hpinged := reach_aliceAfter _ (.pingRound fun _ => 0) hadded trivial
  have hwaited := reach_aliceAfter _ (.tick 500) hpinged trivial
  have hsuspected := reach_aliceAfter _ (.timeout 1 fun _ => 0) hwaited
    (noRenewal_of_pings (by decide +kernel))
  exact reach_aliceAfter _ (.tick 5000) hsuspected trivial

theorem dead_after_wait_bob : ∃ start,
    (aliceAfter (silentBob ++ [.timeout 1 fun _ => 0, .tick 5000])).since (js "bob") = some start ∧
      start + 5000 ≤ (aliceAfter (silentBob ++ [.timeout 1 fun _ => 0, .tick 5000])).run.now := by
  have hfire : ((aliceAfter (silentBob ++ [.timeout 1 fun _ => 0, .tick 5000])).run.node.fire
      (aliceAfter (silentBob ++ [.timeout 1 fun _ => 0, .tick 5000])).run.now (fun _ => 0) 2).any
        (fun r => r.1.getState (js "bob") = some .dead) = true := by decide +kernel
  obtain ⟨r, hr, hdead⟩ := (Option.any_eq_true _ _).mp hfire
  exact dead_after_wait (js "alice") ⟨500, 5000, 3⟩ (by decide) _ reach_silentBob 2 (fun _ => 0) (js "bob") r hr
    (by decide +kernel) (of_decide_eq_true hdead)

/-- Bob refutes the suspicion, and is suspected again when the timer is about to expire. -/
def suspectedAgain : List SwimEvent :=
  silentBob ++ [.timeout 1 fun _ => 0, .tick 4000,
    .message (js "carol") (.ping 1 [⟨js "bob", .alive, JsNumber.ofNat 1⟩]), .tick 900,
    .message (js "carol") (.ping 2 [⟨js "bob", .suspect, JsNumber.ofNat 1⟩]), .tick 100]

theorem dead_before_wait : ¬ ∀ (localId : JsString) (config : SwimConfig) (w : WatchedRun),
    (machine localId config).Reach (fun _ _ => True) w → ∀ seq random p r,
      w.run.node.fire w.run.now random seq = some r → w.run.node.getState p ≠ some .dead →
      r.1.getState p = some .dead →
        ∃ start, w.since p = some start ∧ start + config.suspectTimeoutMs ≤ w.run.now := by
  intro h
  have hreach : (machine (js "alice") ⟨500, 5000, 3⟩).Reach (fun _ _ => True) (aliceAfter suspectedAgain) := by
    have hall : ∀ events : List SwimEvent,
        (machine (js "alice") ⟨500, 5000, 3⟩).Reach (fun _ _ => True) (aliceAfter events) := by
      intro events
      induction events using List.reverseRecOn with
      | nil => exact .init
      | append_singleton events event ih => exact reach_aliceAfter events event ih trivial
    exact hall suspectedAgain
  have hfire : ((aliceAfter suspectedAgain).run.node.fire (aliceAfter suspectedAgain).run.now (fun _ => 0) 2).any
      (fun r => r.1.getState (js "bob") = some .dead) = true := by decide +kernel
  obtain ⟨r, hr, hdead⟩ := (Option.any_eq_true _ _).mp hfire
  obtain ⟨start, hstart, hwait⟩ := h (js "alice") ⟨500, 5000, 3⟩ _ hreach 2 (fun _ => 0) (js "bob") r hr
    (by decide +kernel) (of_decide_eq_true hdead)
  have hsince : (aliceAfter suspectedAgain).since (js "bob") = some 5400 := by decide +kernel
  have hnow : (aliceAfter suspectedAgain).run.now = 5500 := by decide +kernel
  rw [hsince] at hstart
  rw [hnow, ← Option.some.inj hstart] at hwait
  exact absurd hwait (by decide)

end WatchedRun
end BrowserMesh.Discovery
