import BrowserMesh.Discovery.Swim
import BrowserMesh.Library.Ranking

/-! # The order of membership updates

* **Standing.**  What an update says of a pod: its state and incarnation, ranked by the incarnation and then by
  the state.  On the states of the list and off `NaN` this rank decides (`standing_processUpdate`).
* **Unknown pods.**  Only an alive or suspect update makes an unknown pod a member; others are dropped.
* **Results.**  The order and repetition of updates does not matter for pods the node knows, and for unknown
  ones when their highest update is one that it takes (`updates_commute`). -/

namespace BrowserMesh.Discovery
open Js Transition Ranking

/-- A state and an incarnation. -/
abbrev Standing := MemberState × JsNumber

/-- The incarnation decides, then the priority of the state. -/
def Standing.rank (s : Standing) : JsNumber ×ₗ ℤ := toLex (s.2, (s.1.priority).getD (-2))

def Standing.Joins (s : Standing) : Prop := s.1 = .alive ∨ s.1 = .suspect

instance (s : Standing) : Decidable s.Joins := inferInstanceAs (Decidable (_ ∨ _))

/-- The state is one of `SWIM_MEMBER_STATES`, and the incarnation is not `NaN`. -/
def Standing.Listed (s : Standing) : Prop := (∀ name, s.1 ≠ .other name) ∧ s.2 ≠ .nan

theorem Standing.Listed.priority {s : Standing} (h : s.Listed) : ∃ p, s.1.priority = some p := by
  rcases s with ⟨state, incarnation⟩
  cases state with
  | other name => exact absurd rfl (h.1 name)
  | _ => exact ⟨_, rfl⟩

theorem Standing.rank_inj {s t : Standing} (hs : s.Listed) (ht : t.Listed) (h : s.rank = t.rank) : s = t := by
  obtain ⟨hincarnation, hpriority⟩ := Prod.mk.inj (congrArg ofLex h)
  rcases s with ⟨s, i⟩
  rcases t with ⟨t, j⟩
  have hstate : s = t := by
    cases s <;> cases t <;> first | rfl | exact absurd rfl (hs.1 _) | exact absurd rfl (ht.1 _) | cases hpriority
  rw [hstate, show i = j from hincarnation]

def MemberUpdate.standing (u : MemberUpdate) : Standing := (u.state, u.incarnation)

def Member.standing (e : Member) : Standing := (e.state, e.incarnation)

namespace SwimMembership

/-- The standing of a pod at a node, if the pod is known. -/
def standing (m : SwimMembership) (p : JsString) : Option Standing := (m.members.get? p).map Member.standing

variable {u : MemberUpdate}

/-- The rule of `processUpdate` keeps the higher standing. -/
theorem heard_standing {now : ℕ} {entry : Option Member} (hu : u.standing.Listed)
    (hentry : ∀ e, entry = some e → e.standing.Listed) :
    (heard now u entry).map Member.standing =
      hear Standing.rank Standing.Joins (entry.map Member.standing) u.standing := by
  cases entry with
  | none =>
      rw [heard, Option.map_none, hear]
      by_cases hjoins : u.state = .alive ∨ u.state = .suspect
      · rw [if_pos hjoins, if_pos (show u.standing.Joins from hjoins)]
        rfl
      · rw [if_neg hjoins, if_neg (show ¬ u.standing.Joins from hjoins)]
        rfl
  | some e =>
      have he := hentry e rfl
      obtain ⟨p, hp⟩ := hu.priority
      obtain ⟨q, hq⟩ := he.priority
      have hlt : e.incarnation.lt u.incarnation = true ↔ e.incarnation < u.incarnation :=
        JsNumber.lt_iff he.2 hu.2
      have heq : u.incarnation.eq e.incarnation = true ↔ u.incarnation = e.incarnation :=
        JsNumber.eq_iff hu.2
      have houtranks : u.state.outranks e.state = true ↔ q < p := by
        rw [MemberState.outranks, show u.state.priority = some p from hp,
          show e.state.priority = some q from hq]
        exact decide_eq_true_iff
      have hrank : e.standing.rank < u.standing.rank ↔
          e.incarnation < u.incarnation ∨ (u.incarnation = e.incarnation ∧ q < p) := by
        rw [Standing.rank, Standing.rank, hp, hq, Prod.Lex.toLex_lt_toLex]
        exact or_congr_right (and_congr_left fun _ => eq_comm)
      rw [heard, Option.map_some, hear]
      by_cases hhigher : e.incarnation.lt u.incarnation = true
      · rw [if_pos hhigher, if_pos (hrank.mpr (Or.inl (hlt.mp hhigher)))]
        rfl
      · rw [if_neg hhigher]
        by_cases hsame : (u.incarnation.eq e.incarnation && u.state.outranks e.state) = true
        · rw [if_pos hsame]
          rw [Bool.and_eq_true, heq, houtranks] at hsame
          rw [if_pos (hrank.mpr (Or.inr hsame)), Option.map_some]
          rw [Member.standing, MemberUpdate.standing, hsame.1]
        · rw [if_neg hsame]
          rw [Bool.and_eq_true, heq, houtranks] at hsame
          have hstays : ¬ e.standing.rank < u.standing.rank := by
            rw [hrank, not_or]
            exact ⟨fun h => hhigher (hlt.mpr h), hsame⟩
          rw [if_neg hstays]
          rfl

/-! ### Members stay on the list -/

def AllListed (m : SwimMembership) : Prop := ∀ p e, m.members.get? p = some e → e.standing.Listed

theorem heard_listed {now : ℕ} {entry : Option Member} {e' : Member}
    (hu : u.standing.Listed) (hentry : ∀ e, entry = some e → e.standing.Listed)
    (h : heard now u entry = some e') : e'.standing.Listed := by
  cases entry with
  | none =>
      rw [heard] at h
      split_ifs at h
      obtain rfl := Option.some.inj h
      exact hu
  | some e =>
      have he := hentry e rfl
      rw [heard] at h
      split_ifs at h
      · obtain rfl := Option.some.inj h
        exact hu
      · obtain rfl := Option.some.inj h
        exact ⟨hu.1, he.2⟩
      · obtain rfl := Option.some.inj h
        exact he

variable {m : SwimMembership}

theorem allListed_congr {m' : SwimMembership} (h : m'.members = m.members) (hm : m.AllListed) :
    m'.AllListed := by
  unfold AllListed
  rw [h]
  exact hm

theorem allListed_setMember (hm : m.AllListed) {p : JsString} {e : Member} (he : e.standing.Listed) :
    (m.setMember p e).AllListed := by
  intro q e' hget
  rw [members_setMember, JsMap.get?_set] at hget
  split_ifs at hget
  · exact Option.some.inj hget ▸ he
  · exact hm q e' hget

theorem allListed_processUpdate (hm : m.AllListed) (now : ℕ) (hu : u.standing.Listed) :
    (m.processUpdate now u).1.AllListed := by
  by_cases hself : u.podId = m.localId
  · exact allListed_congr (members_processUpdate_self m _ hself) hm
  · intro p e hget
    rw [get?_processUpdate m hself] at hget
    split_ifs at hget with hp
    · exact heard_listed hu (fun e' he' => hm p e' he') hget
    · exact hm p e hget

theorem allListed_processUpdates (hm : m.AllListed) (now : ℕ) {updates : List MemberUpdate}
    (hu : ∀ u ∈ updates, u.standing.Listed) : (m.processUpdates now updates).AllListed := by
  induction updates generalizing m with
  | nil => exact hm
  | cons u updates ih =>
      rw [List.forall_mem_cons] at hu
      exact ih (allListed_processUpdate hm now hu.1) hu.2

theorem allListed_handleMessage (hm : m.AllListed) (now : ℕ) (fromId : JsString) {msg : SwimMessage}
    (hu : ∀ u ∈ msg.updates, u.standing.Listed) : (m.handleMessage now fromId msg).1.AllListed := by
  refine allListed_congr (members_afterUpdates _ _ _ _) ?_
  exact allListed_processUpdates (allListed_congr (members_beforeUpdates m msg) hm) now hu

theorem listed_of_state {e : Member} (he : e.standing.Listed) {state : MemberState}
    (hstate : ∀ name, state ≠ .other name) (suspectAt : Option ℕ) :
    ({ e with state, suspectAt } : Member).standing.Listed := ⟨hstate, he.2⟩

theorem allListed_onIndirectTimeout (hm : m.AllListed) (now : ℕ) (p : JsString) :
    (m.onIndirectTimeout now p).1.AllListed := by
  rw [onIndirectTimeout]
  cases hget : m.members.get? p with
  | none => exact hm
  | some entry =>
      dsimp only
      split_ifs
      · exact hm
      · exact allListed_setMember hm (listed_of_state (hm p entry hget) (by intro name h; cases h) _)

theorem allListed_onSuspectTimeout (hm : m.AllListed) (p : JsString) :
    (m.onSuspectTimeout p).1.AllListed := by
  rw [onSuspectTimeout]
  cases hget : m.members.get? p with
  | none => exact hm
  | some entry =>
      dsimp only
      split_ifs
      · exact hm
      · exact allListed_setMember hm (listed_of_state (hm p entry hget) (by intro name h; cases h) _)

theorem allListed_onTimer (hm : m.AllListed) (now : ℕ) (random : ℕ → ℕ) (seq : ℕ) (kind : TimerKind) :
    (m.onTimer now random seq kind).1.AllListed := by
  cases kind with
  | ping targetId =>
      rw [onTimer, onPingTimeout]
      dsimp only
      split_ifs
      · have hforget : (m.forget seq).AllListed := hm
        exact allListed_onIndirectTimeout hforget now targetId
      · exact hm
  | relay fromId target msgSeq => exact hm
  | indirect targetId =>
      have hforget : (m.forget seq).AllListed := hm
      exact allListed_onIndirectTimeout hforget now targetId
  | suspect targetId => exact allListed_onSuspectTimeout hm targetId

theorem allListed_addMember (hm : m.AllListed) (p : JsString) : (m.addMember p).1.AllListed := by
  rw [addMember]
  split_ifs
  · exact hm
  · exact hm
  · exact allListed_setMember hm ⟨fun name h => (by cases h), show (0 : JsNumber) ≠ .nan by decide⟩

theorem allListed_removeMember (hm : m.AllListed) (p : JsString) : (m.removeMember p).1.AllListed := by
  rw [removeMember]
  cases hget : m.members.get? p with
  | none => exact hm
  | some entry => exact allListed_setMember hm (listed_of_state (hm p entry hget) (by intro name h; cases h) _)

end SwimMembership

def ListedEvent (_ : SwimRun) : SwimEvent → Prop
  | .message _ msg => ∀ u ∈ msg.updates, u.standing.Listed
  | _ => True

theorem allListed_of_reach {localId : JsString} {config : SwimConfig} {w : SwimRun}
    (h : (SwimRun.machine localId config).Reach ListedEvent w) : w.node.AllListed := by
  refine Machine.Reach.invariant (I := fun w => w.node.AllListed) ?_ ?_ h
  · intro p e hget
    change (JsMap.empty.set localId _).get? p = some e at hget
    rw [JsMap.get?_set] at hget
    split_ifs at hget
    · obtain rfl := Option.some.inj hget
      exact ⟨fun name h => (by cases h), show (0 : JsNumber) ≠ .nan by decide⟩
    · cases hget
  · intro w event w' hw hok hstep
    cases event with
    | tick ms =>
        obtain rfl := Option.some.inj hstep
        exact hw
    | pingRound random =>
        obtain rfl := Option.some.inj hstep
        exact SwimMembership.allListed_congr (SwimMembership.members_pingRound _ _ _) hw
    | message fromId msg =>
        obtain rfl := Option.some.inj hstep
        exact SwimMembership.allListed_handleMessage hw _ _ hok
    | timeout seq random =>
        obtain ⟨r, hr, rfl⟩ := Option.map_eq_some_iff.mp hstep
        rw [SwimMembership.fire] at hr
        cases htimer : w.node.timers.get? seq with
        | none =>
            rw [htimer] at hr
            cases hr
        | some timer =>
            rw [htimer] at hr
            dsimp only at hr
            split_ifs at hr
            obtain rfl := Option.some.inj hr
            have htaken : ({ w.node with timers := w.node.timers.delete seq } :
                SwimMembership).AllListed := hw
            exact SwimMembership.allListed_onTimer htaken _ _ _ _
    | addMember podId =>
        obtain rfl := Option.some.inj hstep
        exact SwimMembership.allListed_addMember hw podId
    | removeMember podId =>
        obtain rfl := Option.some.inj hstep
        exact SwimMembership.allListed_removeMember hw podId
    | stop =>
        obtain rfl := Option.some.inj hstep
        exact hw

/-! ### Messages -/

namespace SwimMembership
variable {m : SwimMembership}

def standingsOf (p : JsString) (updates : List MemberUpdate) : List Standing :=
  (updates.filter fun u => u.podId = p).map MemberUpdate.standing

theorem standing_processUpdates {p : JsString} (hp : p ≠ m.localId) (hm : m.AllListed) (now : ℕ)
    {updates : List MemberUpdate} (hu : ∀ u ∈ updates, u.standing.Listed) :
    (m.processUpdates now updates).standing p =
      (standingsOf p updates).foldl (hear Standing.rank Standing.Joins) (m.standing p) := by
  induction updates generalizing m with
  | nil => rfl
  | cons u updates ih =>
      rw [List.forall_mem_cons] at hu
      have hid := (m.processUpdate_frame now u).1
      have htail := ih (hid.symm ▸ hp) (allListed_processUpdate hm now hu.1) hu.2
      rw [show m.processUpdates now (u :: updates) = (m.processUpdate now u).1.processUpdates now updates
        from rfl, htail]
      by_cases hpod : u.podId = p
      · have hself : u.podId ≠ m.localId := hpod ▸ hp
        have hhead : (m.processUpdate now u).1.standing p =
            hear Standing.rank Standing.Joins (m.standing p) u.standing := by
          rw [standing, get?_processUpdate m hself, if_pos hpod.symm]
          exact heard_standing hu.1 fun e he => hm p e he
        have hlist : standingsOf p (u :: updates) = u.standing :: standingsOf p updates := by
          rw [standingsOf, List.filter_cons_of_pos (by simpa using hpod)]
          rfl
        rw [hhead, hlist, List.foldl_cons]
      · have hhead : (m.processUpdate now u).1.standing p = m.standing p := by
          by_cases hself : u.podId = m.localId
          · rw [standing, members_processUpdate_self m _ hself]
            rfl
          · rw [standing, get?_processUpdate m hself, if_neg fun h => hpod h.symm]
            rfl
        have hlist : standingsOf p (u :: updates) = standingsOf p updates := by
          rw [standingsOf, List.filter_cons_of_neg (by simpa using hpod)]
          rfl
        rw [hhead, hlist]

theorem standing_self (now : ℕ) (updates : List MemberUpdate) :
    (m.processUpdates now updates).standing m.localId = m.standing m.localId := by
  induction updates generalizing m with
  | nil => rfl
  | cons u updates ih =>
      have hid := (m.processUpdate_frame now u).1
      have htail := ih (m := (m.processUpdate now u).1)
      rw [hid] at htail
      rw [show m.processUpdates now (u :: updates) = (m.processUpdate now u).1.processUpdates now updates
        from rfl, htail]
      by_cases hself : u.podId = m.localId
      · rw [standing, members_processUpdate_self m _ hself]
        rfl
      · rw [standing, get?_processUpdate m hself, if_neg fun h => hself h.symm]
        rfl

/-- Messages that arrive one after the other, each at its time. -/
def deliver (m : SwimMembership) (messages : List (ℕ × JsString × SwimMessage)) : SwimMembership :=
  messages.foldl (fun m e => (m.handleMessage e.1 e.2.1 e.2.2).1) m

def updatesOf (messages : List (ℕ × JsString × SwimMessage)) : List MemberUpdate :=
  messages.flatMap fun e => e.2.2.updates

theorem standing_handleMessage {p : JsString} (hp : p ≠ m.localId) (hm : m.AllListed) (now : ℕ)
    (fromId : JsString) {msg : SwimMessage} (hu : ∀ u ∈ msg.updates, u.standing.Listed) :
    (m.handleMessage now fromId msg).1.standing p =
      (standingsOf p msg.updates).foldl (hear Standing.rank Standing.Joins) (m.standing p) := by
  have hbefore : (m.beforeUpdates msg).AllListed := allListed_congr (members_beforeUpdates m msg) hm
  rw [handleMessage, standing, members_afterUpdates]
  rw [← standing, standing_processUpdates (by rwa [localId_beforeUpdates]) hbefore now hu]
  rw [standing, members_beforeUpdates, ← standing]

theorem standing_deliver {p : JsString} (hp : p ≠ m.localId) (hm : m.AllListed)
    {messages : List (ℕ × JsString × SwimMessage)} (hu : ∀ u ∈ updatesOf messages, u.standing.Listed) :
    (m.deliver messages).standing p =
      (standingsOf p (updatesOf messages)).foldl (hear Standing.rank Standing.Joins) (m.standing p) := by
  induction messages generalizing m with
  | nil => rfl
  | cons e messages ih =>
      have hsplit : updatesOf (e :: messages) = e.2.2.updates ++ updatesOf messages := List.flatMap_cons
      rw [hsplit] at hu ⊢
      have hhead : ∀ u ∈ e.2.2.updates, u.standing.Listed := fun u h => hu u (List.mem_append_left _ h)
      have htail : ∀ u ∈ updatesOf messages, u.standing.Listed := fun u h => hu u (List.mem_append_right _ h)
      have hlist : standingsOf p (e.2.2.updates ++ updatesOf messages) =
          standingsOf p e.2.2.updates ++ standingsOf p (updatesOf messages) := by
        rw [standingsOf, List.filter_append, List.map_append]
        rfl
      rw [hlist, List.foldl_append, ← standing_handleMessage hp hm e.1 e.2.1 hhead]
      exact ih (by rwa [localId_handleMessage]) (allListed_handleMessage hm _ _ hhead) htail

theorem standing_deliver_self (messages : List (ℕ × JsString × SwimMessage)) :
    (m.deliver messages).standing m.localId = m.standing m.localId := by
  induction messages generalizing m with
  | nil => rfl
  | cons e messages ih =>
      have htail := ih (m := (m.handleMessage e.1 e.2.1 e.2.2).1)
      rw [localId_handleMessage] at htail
      refine htail.trans ?_
      have hself := standing_self (m := m.beforeUpdates e.2.2) e.1 e.2.2.updates
      rw [localId_beforeUpdates] at hself
      rw [handleMessage, standing, members_afterUpdates, ← standing, hself, standing, members_beforeUpdates,
        ← standing]

/-- **Updates commute.**  At a node that has only heard updates of the list, the order, the repetition and the
messages of further updates do not matter to the standing of any pod, when for every pod that the node does
not know one of the alive and suspect updates, if there are any, is as high as all updates about it. -/
theorem updates_commute (localId : JsString) (config : SwimConfig) (w : SwimRun)
    (hw : (SwimRun.machine localId config).Reach ListedEvent w)
    (messages messages' : List (ℕ × JsString × SwimMessage))
    (hsame : ∀ u, u ∈ updatesOf messages ↔ u ∈ updatesOf messages')
    (hlisted : ∀ u ∈ updatesOf messages, u.standing.Listed)
    (hsettled : ∀ p, w.node.members.get? p = none →
      Settled Standing.rank Standing.Joins (standingsOf p (updatesOf messages))) (p : JsString) :
    (w.node.deliver messages).standing p = (w.node.deliver messages').standing p := by
  have hm := allListed_of_reach hw
  by_cases hp : p = w.node.localId
  · rw [hp, standing_deliver_self, standing_deliver_self]
  have hlisted' : ∀ u ∈ updatesOf messages', u.standing.Listed := fun u hu => hlisted u ((hsame u).mpr hu)
  rw [standing_deliver hp hm hlisted, standing_deliver hp hm hlisted']
  have hmem : ∀ s, s ∈ standingsOf p (updatesOf messages) ↔ s ∈ standingsOf p (updatesOf messages') := by
    intro s
    simp only [standingsOf, List.mem_map, List.mem_filter, hsame]
  have hall : ∀ s ∈ standingsOf p (updatesOf messages), s.Listed := by
    intro s hs
    obtain ⟨u, hu, rfl⟩ := List.mem_map.mp hs
    exact hlisted u (List.mem_of_mem_filter hu)
  cases hget : w.node.members.get? p with
  | none =>
      have hunknown : w.node.standing p = none := by rw [standing, hget]; rfl
      rw [hunknown]
      exact foldl_hear_none_congr hmem (hsettled p hget) fun s hs t ht =>
        Standing.rank_inj (hall s hs) (hall t ht)
  | some e =>
      have hknown : w.node.standing p = some e.standing := by rw [standing, hget]; rfl
      have hcell : ∀ s ∈ e.standing :: standingsOf p (updatesOf messages), s.Listed :=
        List.forall_mem_cons.mpr ⟨hm p e hget, hall⟩
      rw [hknown]
      exact foldl_hear_some_congr hmem fun s hs t ht => Standing.rank_inj (hcell s hs) (hcell t ht)

/-! ### Unknown pods -/

/-- A ping from Bob that says that Carol has a state, in her first incarnation. -/
def carolIs (state : MemberState) : ℕ × JsString × SwimMessage :=
  (0, js "bob", .ping 1 [⟨js "carol", state, 0⟩])

/-- The configuration that the source defaults to. -/
def defaultConfig : SwimConfig := ⟨500, 5000, 3⟩

theorem mem_updatesOf_carolIs {state state' : MemberState} {u : MemberUpdate} :
    u ∈ updatesOf [carolIs state, carolIs state'] ↔
      u = ⟨js "carol", state, 0⟩ ∨ u = ⟨js "carol", state', 0⟩ := by
  simp [updatesOf, carolIs, SwimMessage.updates]

theorem updatesOf_carolIs_comm (state state' : MemberState) (u : MemberUpdate) :
    u ∈ updatesOf [carolIs state, carolIs state'] ↔ u ∈ updatesOf [carolIs state', carolIs state] := by
  rw [mem_updatesOf_carolIs, mem_updatesOf_carolIs, or_comm]

theorem podId_of_mem_carolIs {state state' : MemberState} {u : MemberUpdate}
    (hu : u ∈ updatesOf [carolIs state, carolIs state']) : u.podId = js "carol" := by
  rcases mem_updatesOf_carolIs.mp hu with rfl | rfl
  · rfl
  · rfl

theorem listed_carolIs (u : MemberUpdate) (hu : u ∈ updatesOf [carolIs .suspect, carolIs .alive]) :
    u.standing.Listed := by
  have hzero : (0 : JsNumber) ≠ .nan := by decide
  rcases mem_updatesOf_carolIs.mp hu with rfl | rfl
  · exact ⟨nofun, hzero⟩
  · exact ⟨nofun, hzero⟩

theorem settled_carolIs (p : JsString) : Settled Standing.rank Standing.Joins
    (standingsOf p (updatesOf [carolIs .suspect, carolIs .alive])) := by
  by_cases hp : js "carol" = p
  · subst hp
    refine fun _ => ⟨(.suspect, 0), by decide +kernel, Or.inr rfl, ?_⟩
    decide +kernel
  · rintro ⟨s, hs, -⟩
    obtain ⟨u, hu, -⟩ := List.mem_map.mp hs
    obtain ⟨hu, hpod⟩ := List.mem_filter.mp hu
    exact absurd ((podId_of_mem_carolIs hu).symm.trans (of_decide_eq_true hpod)) hp

theorem updates_commute_carol :
    ((SwimMembership.new (js "alice") defaultConfig).deliver [carolIs .suspect, carolIs .alive]).standing
        (js "carol") =
      ((SwimMembership.new (js "alice") defaultConfig).deliver [carolIs .alive, carolIs .suspect]).standing
        (js "carol") :=
  updates_commute (js "alice") defaultConfig _ .init [carolIs .suspect, carolIs .alive]
    [carolIs .alive, carolIs .suspect] (updatesOf_carolIs_comm .suspect .alive) listed_carolIs
    (fun p _ => settled_carolIs p) (js "carol")

theorem death_before_birth : ¬ ∀ (localId : JsString) (config : SwimConfig) (w : SwimRun),
    (SwimRun.machine localId config).Reach (fun _ _ => True) w →
    ∀ messages messages' : List (ℕ × JsString × SwimMessage),
      (∀ u, u ∈ updatesOf messages ↔ u ∈ updatesOf messages') →
      (∀ u ∈ updatesOf messages, u.podId ≠ localId) →
      ∀ p, (w.node.deliver messages).standing p = (w.node.deliver messages').standing p := by
  intro h
  have hcarol := h (js "alice") defaultConfig _ .init [carolIs .dead, carolIs .alive]
    [carolIs .alive, carolIs .dead] (updatesOf_carolIs_comm .dead .alive) (fun u hu heq => ?_) (js "carol")
  · revert hcarol
    decide +kernel
  · rw [podId_of_mem_carolIs hu] at heq
    revert heq
    decide +kernel

end SwimMembership
end BrowserMesh.Discovery
