import BrowserMesh.Discovery.Swim

/-! # Whose answer clears a probe

* **The network.**  Nodes with distinct ids; every message that was ever sent may arrive at any time, in any
  order, or never.
* **What a node does** is one conjunction of facts about its timers and what it sends (`Effect`); the
  network is honest in the sense that answers go back to questions (`Honest`).
* **Results.**  An ACK clears only a probe of its sender.  A SWIM_PING_ACK is sent only by a relay that got
  no answer, so it clears a probe rightly only when the target has answered the direct ping too late
  (`probes_cleared_iff`). -/

namespace BrowserMesh.Discovery
open Js Transition

/-- A message on its way. -/
structure Envelope where
  sender : JsString
  receiver : JsString
  msg : SwimMessage
  deriving DecidableEq

/-! ### What a node does -/

/-- Every outstanding timer is noted among the pending pings. -/
def SwimMembership.Tracked (m : SwimMembership) : Prop :=
  ∀ s timer, m.timers.get? s = some timer → m.pendingPings.has s = true

/-- What a node that turns from `m` into `m'` does to its timers and sends, after it heard a message or a
timer of it expired. -/
structure Effect (m m' : SwimMembership) (out : List SwimSend) (heard : Option (JsString × SwimMessage))
    (expired : Option TimerKind) : Prop where
  tracked : m.Tracked → m'.Tracked
  seq : m.seqCounter ≤ m'.seqCounter
  timers : ∀ s timer, m'.timers.get? s = some timer → m.timers.get? s = some timer ∨
    (m.seqCounter < s ∧ ∀ f t q, timer.kind = .relay f t q → heard = some (f, .pingReq t q))
  ping : ∀ dest s us, (dest, .ping s us) ∈ out → m.seqCounter < s ∧ s ≤ m'.seqCounter ∧
    ∀ timer, m'.timers.get? s = some timer → timer.kind = .ping dest ∨ ∃ f q, timer.kind = .relay f dest q
  pingReq : ∀ dest t s, (dest, .pingReq t s) ∈ out → m.seqCounter < s ∧ s ≤ m'.seqCounter ∧
    ∀ timer, m'.timers.get? s = some timer → timer.kind = .indirect t
  ack : ∀ dest s us, (dest, .ack s us) ∈ out → ∃ us', heard = some (dest, .ping s us')
  pingAck : ∀ dest t o s us, (dest, .pingAck t o s us) ∈ out → ∃ t', expired = some (.relay dest t' s)

namespace SwimMembership
variable {m m' : SwimMembership} {heard : Option (JsString × SwimMessage)} {expired : Option TimerKind}

/-- Timers are taken away at most, and no number is used. -/
structure Fewer (m m' : SwimMembership) : Prop where
  tracked : m.Tracked → m'.Tracked
  seq : m'.seqCounter = m.seqCounter
  timers : ∀ s timer, m'.timers.get? s = some timer → m.timers.get? s = some timer

theorem Fewer.refl (m : SwimMembership) : Fewer m m := ⟨id, rfl, fun _ _ h => h⟩

theorem Fewer.trans {m'' : SwimMembership} (h : Fewer m m') (h' : Fewer m' m'') : Fewer m m'' :=
  ⟨fun ht => h'.tracked (h.tracked ht), h'.seq.trans h.seq,
    fun s timer ht => h.timers s timer (h'.timers s timer ht)⟩

/-- Only the queue, the members and the update buffer change. -/
theorem fewer_of_eq (htimers : m'.timers = m.timers) (hpending : m'.pendingPings = m.pendingPings)
    (hseq : m'.seqCounter = m.seqCounter) : Fewer m m' := by
  refine ⟨fun h s timer ht => ?_, hseq, fun s timer ht => htimers ▸ ht⟩
  rw [hpending]
  exact h s timer (htimers ▸ ht)

variable {s : ℕ}

theorem get?_delete_some {ν : Type} {t : JsMap ℕ ν} {seq : ℕ} {v : ν} (h : (t.delete seq).get? s = some v) :
    s ≠ seq ∧ t.get? s = some v := by
  rw [JsMap.get?_delete] at h
  split_ifs at h with hs
  exact ⟨hs, h⟩

theorem fewer_delete (m : SwimMembership) (seq : ℕ) :
    Fewer m { m with timers := m.timers.delete seq } := by
  refine ⟨fun h s timer ht => ?_, rfl, fun s timer ht => (get?_delete_some ht).2⟩
  exact h s timer (get?_delete_some ht).2

theorem fewer_delete_forget (m : SwimMembership) (seq : ℕ) :
    Fewer m ({ m with timers := m.timers.delete seq }.forget seq) := by
  refine ⟨fun h s timer ht => ?_, rfl, fun s timer ht => (get?_delete_some ht).2⟩
  obtain ⟨hne, hold⟩ := get?_delete_some ht
  have hpending := h s timer hold
  rw [JsMap.has] at hpending ⊢
  change ((m.pendingPings.delete seq).get? s).isSome = true
  rwa [JsMap.get?_delete, if_neg hne]

theorem fewer_clear (m : SwimMembership) (seq : ℕ) : Fewer m (m.clear seq) := by
  rw [clear]
  split_ifs
  · exact fewer_delete_forget m seq
  · exact Fewer.refl m

theorem fewer_beforeUpdates (m : SwimMembership) (msg : SwimMessage) : Fewer m (m.beforeUpdates msg) := by
  cases msg with
  | ping seq updates => exact Fewer.refl m
  | ack seq updates => exact fewer_clear m seq
  | pingReq target seq => exact Fewer.refl m
  | pingAck target originalFrom seq updates => exact fewer_clear m seq

theorem fewer_processUpdates (m : SwimMembership) (now : ℕ) (updates : List MemberUpdate) :
    Fewer m (m.processUpdates now updates) := by
  obtain ⟨-, -, htimers, hpending, hseq⟩ := m.processUpdates_frame now updates
  exact fewer_of_eq htimers hpending hseq

theorem effect_of_fewer (h : Fewer m m') : Effect m m' [] heard expired where
  tracked := h.tracked
  seq := h.seq.ge
  timers s timer ht := Or.inl (h.timers s timer ht)
  ping _ _ _ hout := absurd hout List.not_mem_nil
  pingReq _ _ _ hout := absurd hout List.not_mem_nil
  ack _ _ _ hout := absurd hout List.not_mem_nil
  pingAck _ _ _ _ _ hout := absurd hout List.not_mem_nil

variable {now after : ℕ} {kind : TimerKind} {pending : PendingPing} {timer : SwimTimer}

theorem timers_await (h : Fewer m m') (ht : (m'.await now after kind pending).timers.get? s = some timer) :
    (s = m.seqCounter + 1 ∧ timer.kind = kind) ∨ (s ≠ m.seqCounter + 1 ∧ m.timers.get? s = some timer) := by
  change (m'.timers.set (m'.seqCounter + 1) ⟨kind, now + timeoutDelay after⟩).get? s = some timer at ht
  rw [h.seq, JsMap.get?_set] at ht
  split_ifs at ht with hs
  · obtain rfl := Option.some.inj ht
    exact Or.inl ⟨hs, rfl⟩
  · exact Or.inr ⟨hs, h.timers s timer ht⟩

theorem seq_await (h : Fewer m m') :
    (m'.await now after kind pending).seqCounter = m.seqCounter + 1 := congrArg (· + 1) h.seq

/-- One timer is started, and what is sent carries its number. -/
theorem effect_await (h : Fewer m m')
    {out : List SwimSend} (hrelay : ∀ f t q, kind = .relay f t q → heard = some (f, .pingReq t q))
    (hout : ∀ send ∈ out, (∃ us, send.2 = .ping (m.seqCounter + 1) us ∧
        (kind = .ping send.1 ∨ ∃ f q, kind = .relay f send.1 q)) ∨
      ∃ t, send.2 = .pingReq t (m.seqCounter + 1) ∧ kind = .indirect t) :
    Effect m (m'.await now after kind pending) out heard expired where
  tracked ht s timer htimer := by
    change (m'.pendingPings.set (m'.seqCounter + 1) pending).has s = true
    rw [JsMap.has, JsMap.get?_set]
    split_ifs with hs
    · rfl
    · change (m'.timers.set (m'.seqCounter + 1) ⟨kind, now + timeoutDelay after⟩).get? s = some timer at htimer
      rw [JsMap.get?_set, if_neg hs] at htimer
      exact h.tracked ht s timer htimer
  seq := (seq_await h).symm ▸ Nat.le_succ _
  timers s timer ht := by
    rcases timers_await h ht with ⟨rfl, hkind⟩ | ⟨-, hold⟩
    · exact Or.inr ⟨Nat.lt_succ_self _, fun f t q hk => hrelay f t q (hkind.symm.trans hk)⟩
    · exact Or.inl hold
  ping dest s us hmem := by
    rcases hout _ hmem with ⟨us', hping, hkind⟩ | ⟨t, hreq, -⟩
    · obtain ⟨rfl, -⟩ := SwimMessage.ping.inj hping
      refine ⟨Nat.lt_succ_self _, (seq_await h).ge, fun timer ht => ?_⟩
      rcases timers_await h ht with ⟨-, hk⟩ | ⟨hne, -⟩
      · rw [hk]
        exact hkind
      · exact absurd rfl hne
    · cases hreq
  pingReq dest t s hmem := by
    rcases hout _ hmem with ⟨us', hping, -⟩ | ⟨t', hreq, hkind⟩
    · cases hping
    · obtain ⟨rfl, rfl⟩ := SwimMessage.pingReq.inj hreq
      refine ⟨Nat.lt_succ_self _, (seq_await h).ge, fun timer ht => ?_⟩
      rcases timers_await h ht with ⟨-, hk⟩ | ⟨hne, -⟩
      · rw [hk]
        exact hkind
      · exact absurd rfl hne
  ack dest s us hmem := by
    rcases hout _ hmem with ⟨us', hping, -⟩ | ⟨t, hreq, -⟩
    · cases hping
    · cases hreq
  pingAck dest t o s us hmem := by
    rcases hout _ hmem with ⟨us', hping, -⟩ | ⟨t, hreq, -⟩
    · cases hping
    · cases hreq

variable (expired) in
theorem effect_handleMessage (m : SwimMembership) (now : ℕ) (fromId : JsString) (msg : SwimMessage) :
    Effect m (m.handleMessage now fromId msg).1 (m.handleMessage now fromId msg).2 (some (fromId, msg))
      expired := by
  have hfewer : Fewer m ((m.beforeUpdates msg).processUpdates now msg.updates) :=
    (fewer_beforeUpdates m msg).trans (fewer_processUpdates _ now msg.updates)
  rw [handleMessage]
  generalize (m.beforeUpdates msg).processUpdates now msg.updates = m' at hfewer
  cases msg with
  | ping seq updates =>
      have hdrained : Fewer m m'.drained := hfewer.trans (fewer_of_eq rfl rfl rfl)
      refine { @effect_of_fewer m m'.drained none none hdrained with
        timers := fun s timer ht => Or.inl (hdrained.timers s timer ht), ping := ?_, pingReq := ?_, ack := ?_,
        pingAck := ?_ }
      · intro dest s us hmem
        cases List.mem_singleton.mp hmem
      · intro dest t s hmem
        cases List.mem_singleton.mp hmem
      · intro dest s us hmem
        cases List.mem_singleton.mp hmem
        exact ⟨updates, rfl⟩
      · intro dest t o s us hmem
        cases List.mem_singleton.mp hmem
  | ack seq updates => exact effect_of_fewer hfewer
  | pingReq target seq =>
      have hdrained : Fewer m m'.drained := hfewer.trans (fewer_of_eq rfl rfl rfl)
      refine effect_await hdrained (fun f t q hkind => ?_) fun send hmem => Or.inl ?_
      · obtain ⟨rfl, rfl, rfl⟩ := TimerKind.relay.inj hkind
        rfl
      · obtain rfl := List.mem_singleton.mp hmem
        exact ⟨m'.updateBuffer, by rw [hfewer.seq], Or.inr ⟨fromId, seq, rfl⟩⟩
  | pingAck target originalFrom seq updates => exact effect_of_fewer hfewer

theorem effect_pingRound (m : SwimMembership) (now : ℕ) (random : ℕ → ℕ) :
    Effect m (m.pingRound now random).1 (m.pingRound now random).2 heard expired := by
  have hrefill : Fewer m (if m.pingQueue.length = 0 then m.refillPingQueue random else m) := by
    split_ifs
    · exact fewer_of_eq rfl rfl rfl
    · exact Fewer.refl m
  rw [pingRound]
  generalize (if m.pingQueue.length = 0 then m.refillPingQueue random else m) = m' at hrefill
  cases m'.pingQueue with
  | nil => exact effect_of_fewer hrefill
  | cons targetId pingQueue =>
      have hshifted : Fewer m { m' with pingQueue } := hrefill.trans (fewer_of_eq rfl rfl rfl)
      dsimp only
      cases m'.members.get? targetId with
      | none => exact effect_of_fewer hshifted
      | some entry =>
          dsimp only
          split_ifs
          · exact effect_of_fewer hshifted
          · have hdrained : Fewer m ({ m' with pingQueue } : SwimMembership).drained :=
              hrefill.trans (fewer_of_eq rfl rfl rfl)
            refine effect_await hdrained (fun f t q h => by cases h) fun send hmem => Or.inl ?_
            obtain rfl := List.mem_singleton.mp hmem
            exact ⟨m'.updateBuffer, by rw [← hrefill.seq], Or.inl rfl⟩

theorem effect_onIndirectTimeout (h : Fewer m m') (now : ℕ) (targetId : JsString) :
    Effect m (m'.onIndirectTimeout now targetId).1 [] heard expired := by
  rw [onIndirectTimeout]
  cases m'.members.get? targetId with
  | none => exact effect_of_fewer h
  | some entry =>
      dsimp only
      split_ifs
      · exact effect_of_fewer h
      · have hset : Fewer m ((m'.setMember targetId
            { entry with state := .suspect, suspectAt := some now }).enqueueUpdate
              ⟨targetId, .suspect, entry.incarnation⟩) := h.trans (fewer_of_eq rfl rfl rfl)
        exact effect_await hset (fun f t q h => by cases h) fun send hmem => absurd hmem List.not_mem_nil

variable (heard) in
theorem effect_onTimer (m : SwimMembership) (now : ℕ) (random : ℕ → ℕ) (seq : ℕ) (kind : TimerKind) :
    Effect m ({ m with timers := m.timers.delete seq }.onTimer now random seq kind).1
      ({ m with timers := m.timers.delete seq }.onTimer now random seq kind).2.1 heard (some kind) := by
  have hforget := fewer_delete_forget m seq
  have hdelete := fewer_delete m seq
  generalize ({ m with timers := m.timers.delete seq } : SwimMembership) = m' at hforget hdelete
  cases kind with
  | ping targetId =>
      rw [onTimer, onPingTimeout]
      dsimp only
      split_ifs
      · exact effect_onIndirectTimeout hforget now targetId
      · refine effect_await hforget (fun f t q h => by cases h) fun send hmem => Or.inr ?_
        obtain ⟨relayId, -, rfl⟩ := List.mem_map.mp hmem
        exact ⟨targetId, by rw [← hforget.seq], rfl⟩
  | relay fromId target msgSeq =>
      refine { @effect_of_fewer m (m'.forget seq) none none hforget with
        timers := fun s timer ht => Or.inl (hforget.timers s timer ht), ping := ?_, pingReq := ?_, ack := ?_,
        pingAck := ?_ }
      · intro dest s us hmem
        cases List.mem_singleton.mp hmem
      · intro dest t s hmem
        cases List.mem_singleton.mp hmem
      · intro dest s us hmem
        cases List.mem_singleton.mp hmem
      · intro dest t o s us hmem
        cases List.mem_singleton.mp hmem
        exact ⟨target, rfl⟩
  | indirect targetId => exact effect_onIndirectTimeout hforget now targetId
  | suspect targetId =>
      rw [onTimer, onSuspectTimeout]
      cases m'.members.get? targetId with
      | none => exact effect_of_fewer hdelete
      | some entry =>
          dsimp only
          split_ifs
          · exact effect_of_fewer hdelete
          · exact effect_of_fewer (hdelete.trans (fewer_of_eq rfl rfl rfl))

theorem effect_addMember (m : SwimMembership) (p : JsString) :
    Effect m (m.addMember p).1 [] heard expired := by
  rw [addMember]
  split_ifs
  · exact effect_of_fewer (Fewer.refl m)
  · exact effect_of_fewer (Fewer.refl m)
  · exact effect_of_fewer (fewer_of_eq rfl rfl rfl)

theorem effect_removeMember (m : SwimMembership) (p : JsString) :
    Effect m (m.removeMember p).1 [] heard expired := by
  rw [removeMember]
  cases m.members.get? p with
  | none => exact effect_of_fewer (Fewer.refl m)
  | some entry => exact effect_of_fewer (fewer_of_eq rfl rfl rfl)

/-! ### Which timers a message takes away -/

theorem get?_timers_handleMessage {fromId : JsString} {msg : SwimMessage}
    (h : (m.handleMessage now fromId msg).1.timers.get? s = none) :
    (m.beforeUpdates msg).timers.get? s = none := by
  obtain ⟨-, -, htimers, -, -⟩ := (m.beforeUpdates msg).processUpdates_frame now msg.updates
  rw [handleMessage] at h
  rw [← htimers]
  generalize (m.beforeUpdates msg).processUpdates now msg.updates = m' at h
  cases msg with
  | ping seq updates => exact h
  | ack seq updates => exact h
  | pingReq target seq =>
      change (m'.timers.set (m'.seqCounter + 1) _).get? s = none at h
      rw [JsMap.get?_set] at h
      split_ifs at h
      exact h
  | pingAck target originalFrom seq updates => exact h

theorem get?_timers_clear {seq : ℕ} (h : m.timers.get? s = some timer)
    (hclear : (m.clear seq).timers.get? s = none) : seq = s := by
  by_contra hne
  rw [clear] at hclear
  split_ifs at hclear
  · change (m.timers.delete seq).get? s = none at hclear
    rw [JsMap.get?_delete, if_neg (Ne.symm hne), h] at hclear
    cases hclear
  · rw [h] at hclear
    cases hclear

/-- Only an answer takes a timer away, and only the timer of its own number. -/
theorem answers_of_cleared {fromId : JsString} {msg : SwimMessage}
    (h : m.timers.get? s = some timer) (hcleared : (m.handleMessage now fromId msg).1.timers.get? s = none) :
    (∃ us, msg = .ack s us) ∨ ∃ t o us, msg = .pingAck t o s us := by
  have hbefore := get?_timers_handleMessage hcleared
  cases msg with
  | ping seq updates =>
      cases h.symm.trans hbefore
  | ack seq updates =>
      obtain rfl := get?_timers_clear h hbefore
      exact Or.inl ⟨updates, rfl⟩
  | pingReq target seq =>
      cases h.symm.trans hbefore
  | pingAck target originalFrom seq updates =>
      obtain rfl := get?_timers_clear h hbefore
      exact Or.inr ⟨target, originalFrom, updates, rfl⟩

/-- A SWIM_PING_ACK leaves no timer of its number. -/
theorem cleared_of_pingAck (h : m.Tracked) (now : ℕ) (fromId t o : JsString) (s : ℕ) (us : List MemberUpdate) :
    (m.handleMessage now fromId (.pingAck t o s us)).1.timers.get? s = none := by
  have hclear : (m.clear s).timers.get? s = none := by
    rw [clear]
    split_ifs with hpending
    · change (m.timers.delete s).get? s = none
      rw [JsMap.get?_delete, if_pos rfl]
    · cases htimer : m.timers.get? s with
      | none => rfl
      | some timer => exact absurd (h s timer htimer) hpending
  obtain ⟨-, -, htimers, -, -⟩ := (m.clear s).processUpdates_frame now us
  change ((m.clear s).processUpdates now us).timers.get? s = none
  rw [htimers]
  exact hclear

end SwimMembership

/-! ### The network -/

/-- The nodes, every message that was sent, and a record of the run: what was delivered, which direct ping an
indirect probe repeats, and what was sent by a node that handled an ACK. -/
structure SwimNetwork where
  node : JsString → SwimMembership
  now : ℕ
  sent : List Envelope
  delivered : List Envelope
  repeats : List ((JsString × ℕ) × ℕ)
  forwarded : List (Envelope × SwimSend)

inductive SwimAction where
  | tick (ms : ℕ)
  | pingRound (y : JsString) (random : ℕ → ℕ)
  | deliver (k : ℕ)
  | timeout (y : JsString) (seq : ℕ) (random : ℕ → ℕ)
  | addMember (y podId : JsString)
  | removeMember (y podId : JsString)

namespace SwimNetwork

/-- The node `y` becomes `m` and sends `out`. -/
def put (w : SwimNetwork) (y : JsString) (m : SwimMembership) (out : List SwimSend) : SwimNetwork :=
  { w with
    node := Function.update w.node y m
    sent := w.sent ++ out.map fun send => ⟨y, send.1, send.2⟩ }

def forwards (e : Envelope) (out : List SwimSend) : List (Envelope × SwimSend) :=
  match e.msg with
  | .ack _ _ => out.map fun send => (e, send)
  | _ => []

def step (w : SwimNetwork) : SwimAction → Option SwimNetwork
  | .tick ms => some { w with now := w.now + ms }
  | .pingRound y random =>
      let r := (w.node y).pingRound w.now random
      some (w.put y r.1 r.2)
  | .deliver k =>
      match w.sent[k]? with
      | none => none
      | some e =>
          let r := (w.node e.receiver).handleMessage w.now e.sender e.msg
          some { w.put e.receiver r.1 r.2 with
            delivered := w.delivered ++ [e], forwarded := w.forwarded ++ forwards e r.2 }
  | .timeout y seq random =>
      match (w.node y).fire w.now random seq with
      | none => none
      | some r =>
          some { w.put y r.1 r.2.1 with
            repeats := w.repeats ++ [((y, (w.node y).seqCounter + 1), seq)] }
  | .addMember y podId => some (w.put y ((w.node y).addMember podId).1 [])
  | .removeMember y podId => some (w.put y ((w.node y).removeMember podId).1 [])

/-- One node under every id, each with its own configuration. -/
def machine (config : JsString → SwimConfig) : Machine SwimNetwork SwimAction :=
  ⟨⟨fun id => SwimMembership.new id (config id), 0, [], [], [], []⟩, step⟩

/-! ### What is claimed -/

/-- `t` sent `y` an ACK with this number. -/
def Acked (w : SwimNetwork) (t y : JsString) (seq : ℕ) : Prop :=
  ∃ e ∈ w.sent, e.sender = t ∧ e.receiver = y ∧ ∃ us, e.msg = .ack seq us

/-- A relay that got an ACK of `t` forwarded it to `y` under this number. -/
def Forwarded (w : SwimNetwork) (t y : JsString) (seq : ℕ) : Prop :=
  ∃ f ∈ w.forwarded, f.1.sender = t ∧ f.2.1 = y ∧ ∃ t' o us, f.2.2 = .pingAck t' o seq us

/-- `t` sent `y` an ACK to the direct ping that its indirect probe repeats. -/
def AckedDirectly (w : SwimNetwork) (t y : JsString) (seq : ℕ) : Prop :=
  ∃ r ∈ w.repeats, r.1 = (y, seq) ∧ w.Acked t y r.2

/-- The target of the probe that a timer of `y` stands for has answered it. -/
def Answered (w : SwimNetwork) (y : JsString) (seq : ℕ) : TimerKind → Prop
  | .ping t => w.Acked t y seq
  | .relay _ t _ => w.Acked t y seq
  | .indirect t => w.AckedDirectly t y seq ∨ w.Forwarded t y seq
  | .suspect _ => True

/-- A probe is cleared by its target's answer only, and no probe runs out after a SWIM_PING_ACK for it. -/
def RightNode (w : SwimNetwork) : SwimAction → Prop
  | .deliver k => ∀ e ∈ w.sent[k]?, ∀ s, ∀ timer ∈ (w.node e.receiver).timers.get? s,
      ((w.node e.receiver).handleMessage w.now e.sender e.msg).1.timers.get? s = none →
        w.Answered e.receiver s timer.kind
  | .timeout y s _ => ∀ timer ∈ (w.node y).timers.get? s, ∀ t, timer.kind = .indirect t →
      ∀ e ∈ w.delivered, e.receiver = y → ∀ t' o us, e.msg ≠ .pingAck t' o s us
  | _ => True

/-- A SWIM_PING_ACK that finds its indirect probe outstanding comes after the target's ACK to the direct
ping. -/
def LateAck (w : SwimNetwork) : SwimAction → Prop
  | .deliver k => ∀ e ∈ w.sent[k]?, ∀ t' o s us, e.msg = .pingAck t' o s us →
      ∀ timer ∈ (w.node e.receiver).timers.get? s, ∀ t, timer.kind = .indirect t →
        w.AckedDirectly t e.receiver s
  | _ => True

/-! ### The invariant -/

/-- A sent message has a number that its sender has used, and what is still outstanding under it is what it
was sent for; an answer goes back to whom the question came from. -/
def Fair (w : SwimNetwork) (e : Envelope) : Prop :=
  match e.msg with
  | .ping s _ => s ≤ (w.node e.sender).seqCounter ∧ ∀ timer, (w.node e.sender).timers.get? s = some timer →
      timer.kind = .ping e.receiver ∨ ∃ f q, timer.kind = .relay f e.receiver q
  | .pingReq t s => s ≤ (w.node e.sender).seqCounter ∧ ∀ timer, (w.node e.sender).timers.get? s = some timer →
      timer.kind = .indirect t
  | .ack s _ => ∃ us, ⟨e.receiver, e.sender, .ping s us⟩ ∈ w.sent
  | .pingAck _ _ s _ => ∃ t, ⟨e.receiver, e.sender, .pingReq t s⟩ ∈ w.sent

structure Honest (w : SwimNetwork) : Prop where
  tracked : ∀ y, (w.node y).Tracked
  fair : ∀ e ∈ w.sent, w.Fair e
  relays : ∀ y s timer f t q, (w.node y).timers.get? s = some timer → timer.kind = .relay f t q →
    ⟨f, y, .pingReq t q⟩ ∈ w.sent
  delivered : ∀ e ∈ w.delivered, ∀ t o s us, e.msg = .pingAck t o s us →
    s ≤ (w.node e.receiver).seqCounter ∧ (w.node e.receiver).timers.get? s = none
  forwarded : w.forwarded = []

theorem honest_init (config : JsString → SwimConfig) : Honest (machine config).init where
  tracked y s timer h := by cases h
  fair e he := absurd he List.not_mem_nil
  relays y s timer f t q h := by cases h
  delivered e he := absurd he List.not_mem_nil
  forwarded := rfl

variable {w : SwimNetwork} {y : JsString} {m : SwimMembership} {out : List SwimSend}
  {heard : Option (JsString × SwimMessage)} {expired : Option TimerKind}

theorem node_put_self : (w.put y m out).node y = m := Function.update_self ..

theorem node_put_of_ne {x : JsString} (h : x ≠ y) : (w.put y m out).node x = w.node x :=
  Function.update_of_ne h ..

/-- What a node does keeps the network honest, if it was told what was sent to it. -/
theorem Honest.put (h : w.Honest) (heffect : Effect (w.node y) m out heard expired)
    (hheard : ∀ x msg, heard = some (x, msg) → ⟨x, y, msg⟩ ∈ w.sent)
    (hexpired : ∀ x t q, expired = some (.relay x t q) → ⟨x, y, .pingReq t q⟩ ∈ w.sent) :
    (w.put y m out).Honest := by
  have hsent : ∀ {e}, e ∈ w.sent → e ∈ (w.put y m out).sent := fun he => List.mem_append_left _ he
  -- a number that was in use before the step keeps its meaning
  have hold : ∀ x s, s ≤ (w.node x).seqCounter → s ≤ ((w.put y m out).node x).seqCounter ∧
      ∀ timer, ((w.put y m out).node x).timers.get? s = some timer → (w.node x).timers.get? s = some timer := by
    intro x s hs
    by_cases hx : x = y
    · subst hx
      rw [node_put_self]
      refine ⟨hs.trans heffect.seq, fun timer ht => ?_⟩
      rcases heffect.timers s timer ht with hbefore | ⟨hnew, -⟩
      · exact hbefore
      · exact absurd hs hnew.not_ge
    · rw [node_put_of_ne hx]
      exact ⟨hs, fun timer ht => ht⟩
  refine ⟨fun x => ?_, fun e he => ?_, ?_, ?_, h.forwarded⟩
  · by_cases hx : x = y
    · subst hx
      rw [node_put_self]
      exact heffect.tracked (h.tracked x)
    · rw [node_put_of_ne hx]
      exact h.tracked x
  · rcases List.mem_append.mp he with hbefore | hnew
    · have hfair := h.fair e hbefore
      obtain ⟨x, z, msg⟩ := e
      cases msg with
      | ping s us =>
          obtain ⟨hs, hkind⟩ := hfair
          obtain ⟨hs', htimers⟩ := hold x s hs
          exact ⟨hs', fun timer ht => hkind timer (htimers timer ht)⟩
      | ack s us =>
          obtain ⟨us', hping⟩ := hfair
          exact ⟨us', hsent hping⟩
      | pingReq t s =>
          obtain ⟨hs, hkind⟩ := hfair
          obtain ⟨hs', htimers⟩ := hold x s hs
          exact ⟨hs', fun timer ht => hkind timer (htimers timer ht)⟩
      | pingAck t o s us =>
          obtain ⟨t', hreq⟩ := hfair
          exact ⟨t', hsent hreq⟩
    · obtain ⟨⟨dest, msg⟩, hmem, rfl⟩ := List.mem_map.mp hnew
      cases msg with
      | ping s us =>
          obtain ⟨-, hs, hkind⟩ := heffect.ping dest s us hmem
          change s ≤ ((w.put y m out).node y).seqCounter ∧ _
          rw [node_put_self]
          exact ⟨hs, hkind⟩
      | ack s us =>
          obtain ⟨us', hping⟩ := heffect.ack dest s us hmem
          exact ⟨us', hsent (hheard dest _ hping)⟩
      | pingReq t s =>
          obtain ⟨-, hs, hkind⟩ := heffect.pingReq dest t s hmem
          change s ≤ ((w.put y m out).node y).seqCounter ∧ _
          rw [node_put_self]
          exact ⟨hs, hkind⟩
      | pingAck t o s us =>
          obtain ⟨t', hrelay⟩ := heffect.pingAck dest t o s us hmem
          exact ⟨t', hsent (hexpired dest t' s hrelay)⟩
  · intro x s timer f t q htimer hkind
    by_cases hx : x = y
    · subst hx
      rw [node_put_self] at htimer
      rcases heffect.timers s timer htimer with hbefore | ⟨-, hrelay⟩
      · exact hsent (h.relays x s timer f t q hbefore hkind)
      · exact hsent (hheard f _ (hrelay f t q hkind))
    · rw [node_put_of_ne hx] at htimer
      exact hsent (h.relays x s timer f t q htimer hkind)
  · intro e he t o s us hmsg
    obtain ⟨hs, hnone⟩ := h.delivered e he t o s us hmsg
    obtain ⟨hs', htimers⟩ := hold e.receiver s hs
    refine ⟨hs', ?_⟩
    cases htimer : ((w.put y m out).node e.receiver).timers.get? s with
    | none => rfl
    | some timer =>
        rw [htimers timer htimer] at hnone
        cases hnone

theorem timers_of_fire {now : ℕ} {random : ℕ → ℕ} {s : ℕ}
    {r : SwimMembership × List SwimSend × Option SwimCallback} (h : m.fire now random s = some r) :
    ∃ timer, m.timers.get? s = some timer ∧
      r = { m with timers := m.timers.delete s }.onTimer now random s timer.kind := by
  rw [SwimMembership.fire] at h
  cases htimer : m.timers.get? s with
  | none =>
      rw [htimer] at h
      cases h
  | some timer =>
      rw [htimer] at h
      dsimp only at h
      split_ifs at h
      exact ⟨timer, rfl, (Option.some.inj h).symm⟩

theorem forwards_nil (e : Envelope) (w : SwimNetwork) :
    forwards e ((w.node e.receiver).handleMessage w.now e.sender e.msg).2 = [] := by
  obtain ⟨x, z, msg⟩ := e
  cases msg <;> rfl

theorem honest_step {w w' : SwimNetwork} {a : SwimAction} (h : w.Honest) (hs : w.step a = some w') :
    w'.Honest := by
  have hquiet : ∀ {y : JsString} {m : SwimMembership} {out : List SwimSend},
      Effect (w.node y) m out none none → (w.put y m out).Honest :=
    fun heffect => h.put heffect (by intro x msg hnone; cases hnone) (by intro x t q hnone; cases hnone)
  cases a with
  | tick ms =>
      obtain rfl := Option.some.inj hs
      exact ⟨h.tracked, h.fair, h.relays, h.delivered, h.forwarded⟩
  | pingRound y random =>
      obtain rfl := Option.some.inj hs
      exact hquiet (SwimMembership.effect_pingRound _ w.now random)
  | deliver k =>
      rw [step] at hs
      cases he : w.sent[k]? with
      | none =>
          rw [he] at hs
          cases hs
      | some e =>
          rw [he] at hs
          obtain rfl := Option.some.inj hs
          have hsent : e ∈ w.sent := List.mem_of_getElem? he
          have hput := h.put (SwimMembership.effect_handleMessage none (w.node e.receiver) w.now
            e.sender e.msg) (by intro x msg heq; cases heq; exact hsent) (by intro x t q hnone; cases hnone)
          refine ⟨hput.tracked, hput.fair, hput.relays, fun d hd t o s us hmsg => ?_, ?_⟩
          · rcases List.mem_append.mp hd with hbefore | hnew
            · exact hput.delivered d hbefore t o s us hmsg
            · obtain rfl := List.mem_singleton.mp hnew
              have hfair := h.fair d hsent
              rw [Fair, hmsg] at hfair
              obtain ⟨t', hreq⟩ := hfair
              obtain ⟨hs, -⟩ := hput.fair _ (List.mem_append_left _ hreq)
              refine ⟨hs, ?_⟩
              change (Function.update w.node d.receiver _ d.receiver).timers.get? s = none
              rw [Function.update_self, hmsg]
              exact SwimMembership.cleared_of_pingAck (h.tracked d.receiver) w.now d.sender t o s us
          · change w.forwarded ++ _ = []
            rw [h.forwarded, forwards_nil]
            rfl
  | timeout y s random =>
      rw [step] at hs
      cases hfire : (w.node y).fire w.now random s with
      | none =>
          rw [hfire] at hs
          cases hs
      | some r =>
          rw [hfire] at hs
          obtain rfl := Option.some.inj hs
          obtain ⟨timer, htimer, rfl⟩ := timers_of_fire hfire
          have hput := h.put (SwimMembership.effect_onTimer none (w.node y) w.now random s timer.kind)
            (by intro x msg hnone; cases hnone)
            fun x t q hrelay => h.relays y s timer x t q htimer (Option.some.inj hrelay)
          exact ⟨hput.tracked, hput.fair, hput.relays, hput.delivered, hput.forwarded⟩
  | addMember y p =>
      obtain rfl := Option.some.inj hs
      exact hquiet (SwimMembership.effect_addMember _ p)
  | removeMember y p =>
      obtain rfl := Option.some.inj hs
      exact hquiet (SwimMembership.effect_removeMember _ p)

/-! ### Results -/

theorem rightNode_iff {w w' : SwimNetwork} {a : SwimAction} (h : w.Honest) (hs : w.step a = some w') :
    w.RightNode a ↔ w.LateAck a := by
  cases a with
  | tick ms => exact Iff.rfl
  | pingRound y random => exact Iff.rfl
  | addMember y p => exact Iff.rfl
  | removeMember y p => exact Iff.rfl
  | timeout y s random =>
      refine iff_of_true (fun timer htimer t hkind e he hreceiver t' o us hmsg => ?_) trivial
      obtain ⟨-, hnone⟩ := h.delivered e he t' o s us hmsg
      rw [hreceiver, htimer] at hnone
      cases hnone
  | deliver k =>
      refine forall₂_congr fun e he => ?_
      have hfair := h.fair e (List.mem_of_getElem? he)
      constructor
      · intro hright t' o s us hmsg timer htimer t hkind
        have hcleared : ((w.node e.receiver).handleMessage w.now e.sender e.msg).1.timers.get? s = none := by
          rw [hmsg]
          exact SwimMembership.cleared_of_pingAck (h.tracked e.receiver) w.now e.sender t' o s us
        have hanswered := hright s timer htimer hcleared
        rw [hkind] at hanswered
        rcases hanswered with hacked | ⟨f, hf, -⟩
        · exact hacked
        · rw [h.forwarded] at hf
          cases hf
      · intro hlate s timer htimer hcleared
        rcases SwimMembership.answers_of_cleared htimer hcleared with ⟨us, hmsg⟩ | ⟨t', o, us, hmsg⟩
        · have hacked : w.Acked e.sender e.receiver s :=
            ⟨e, List.mem_of_getElem? he, rfl, rfl, us, hmsg⟩
          rw [Fair, hmsg] at hfair
          obtain ⟨us', hping⟩ := hfair
          obtain ⟨-, hkind⟩ := h.fair _ hping
          rcases hkind timer htimer with hkind | ⟨f, q, hkind⟩
          · rw [hkind]
            exact hacked
          · rw [hkind]
            exact hacked
        · rw [Fair, hmsg] at hfair
          obtain ⟨t, hreq⟩ := hfair
          obtain ⟨-, hkind⟩ := h.fair _ hreq
          rw [hkind timer htimer]
          exact Or.inl (hlate t' o s us hmsg timer htimer t (hkind timer htimer))

/-- In every run, probes are cleared by their targets' answers only, and none runs out after a SWIM_PING_ACK,
exactly when every SWIM_PING_ACK that finds its probe outstanding comes after the target's ACK to the direct
ping. -/
theorem probes_cleared_iff (config : JsString → SwimConfig) (actions : List SwimAction) :
    (machine config).Along RightNode (machine config).init actions ↔
      (machine config).Along LateAck (machine config).init actions :=
  Machine.along_iff_of_invariant (I := Honest)
    (fun _ _ _ h hs => ⟨rightNode_iff h hs, fun _ => honest_step h hs⟩) (honest_init config) actions

/-- Alice pings Bob, who is gone; she asks Carol, who waits for Bob no longer than a tenth of a second. -/
def silentTarget : List SwimAction :=
  [.addMember (js "alice") (js "bob"), .addMember (js "alice") (js "carol"),
    .pingRound (js "alice") fun _ => 1, .tick 500, .timeout (js "alice") 1 fun _ => 1, .deliver 1, .tick 100,
    .timeout (js "carol") 1 fun _ => 0]

/-- Carol waits for 100 ms, everybody else for 500 ms. -/
def impatientCarol (id : JsString) : SwimConfig :=
  if id = js "carol" then ⟨100, 5000, 3⟩ else ⟨500, 5000, 3⟩

/-- Carol's notice that Bob did not respond clears Alice's probe of Bob. -/
theorem cleared_by_silence : ¬ ∀ (config : JsString → SwimConfig) (actions : List SwimAction),
    (machine config).Along RightNode (machine config).init actions := by
  intro h
  have hrun : ((machine impatientCarol).run (fun _ _ => True) (machine impatientCarol).init silentTarget).any
      (fun w => decide (w.sent[3]? = some ⟨js "carol", js "alice", .pingAck (js "bob") (js "alice") 2 []⟩ ∧
        (w.node (js "alice")).timers.get? 2 = some ⟨.indirect (js "bob"), 1000⟩ ∧
        (∀ e ∈ w.sent, e.sender ≠ js "bob") ∧ w.forwarded = [])) = true := by decide +kernel
  obtain ⟨w, hw, hfacts⟩ := (Option.any_eq_true _ _).mp hrun
  obtain ⟨hsent, htimer, hbob, hforwarded⟩ := of_decide_eq_true hfacts
  have hreach : w.Honest := (Machine.reach_of_run .init hw).invariant (I := Honest)
    (honest_init impatientCarol) fun _ _ _ hi _ hs => honest_step hi hs
  obtain ⟨w', hs⟩ : ∃ w', (machine impatientCarol).step w (.deliver 3) = some w' := by
    change ∃ w', w.step (.deliver 3) = some w'
    rw [step, hsent]
    exact ⟨_, rfl⟩
  have hright := (h impatientCarol (silentTarget ++ [.deliver 3])).last hw hs
  have hcleared := SwimMembership.cleared_of_pingAck (hreach.tracked (js "alice")) w.now (js "carol") (js "bob")
    (js "alice") 2 []
  have hanswered := hright _ hsent 2 _ htimer hcleared
  rcases hanswered with ⟨r, -, -, e, he, hsender, -⟩ | ⟨f, hf, -⟩
  · exact hbob e he hsender
  · rw [hforwarded] at hf
    cases hf

end SwimNetwork
end BrowserMesh.Discovery
