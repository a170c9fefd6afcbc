import BrowserMesh.Mux.PriorityMux

/-! # Every message arrives once, whole

`Inv` holds in every state of a multiplexer with the default tiers and its peer, as long as a send never
takes the id of a message in flight; `Ordered` holds as well when the frames are delivered in order.

* **Send, tick, deliver.**  `Inv.send`, `Inv.tick` and `Inv.deliver` keep both.
* **Delivery.**  `messages_delivered`: the peer emits no message twice and none that was not sent, and when
  nothing is left to drain or deliver it has emitted all of them.
* **A reused id.**  `reused_id_mixes_messages`: a message that stays in flight until all ids have been
  taken is mixed with another one, however few are in flight. -/

namespace BrowserMesh.Mux

open Js Transition

variable {T J : Type}

/-! ### The invariant -/

section Invariant
variable (codec : Codec T J) (cfg : Config T J)

/-- The chunk survives the header of a frame. -/
structure Chunk.Fits (c : Chunk) : Prop where
  priority : c.priority ∈ priorityNames
  msgId : c.msgId < 2 ^ 32
  seq : c.seq < 2 ^ 32
  total : c.total < 2 ^ 32

/-- `w` are the chunks on the wire, `done` the messages that came out, `live` those in flight. -/
structure Inv (s : System T J) (w : List Chunk) (done live : List (Sent T J)) : Prop where
  wire : List.Forall₂ (fun c raw => decodeChunkFrame raw = .ok c) w s.wire
  flow : Flow (Sent.parts codec cfg) s.peer.reassembler (s.sender.scheduler.items ++ w) live
  sent : s.sent.Perm (done ++ live)
  events : s.events = done.map Sent.event
  tiers : s.sender.scheduler.tiers = priorityNames
  lane : ∀ p, ∀ c ∈ s.sender.scheduler.queues p, p ∈ priorityNames ∧ c.priority = p
  fits : ∀ c ∈ s.sender.scheduler.items, c.Fits
  draining : s.sender.draining = false → s.sender.scheduler.items = []
  closed : s.sender.closed = false

/-- The chunks of one priority, those on the wire first. -/
def pipeline (queues : JsString → List Chunk) (w : List Chunk) (p : JsString) : List Chunk :=
  w.filter (·.priority = p) ++ queues p

/-- Chunks of one priority are in the order of their messages, and so are the messages. -/
structure Ordered (s : System T J) (w : List Chunk) (done live : List (Sent T J)) : Prop where
  lanes : ∀ p, (pipeline s.sender.scheduler.queues w p).Pairwise fun c c' =>
    ¬ [c'.msgId, c.msgId].Sublist (msgIds (Sent.parts codec cfg) live)
  sent : ∀ p, s.sent.filter (·.priority = p) = done.filter (·.priority = p) ++ live.filter (·.priority = p)

variable {codec cfg} {s : System T J} {w : List Chunk} {done live : List (Sent T J)}

theorem Inv.msgIds_inFlight (h : Inv codec cfg s w done live) {id : ℕ}
    (hid : id ∈ msgIds (Sent.parts codec cfg) live) : id ∈ s.inFlight := by
  have hwire : w.map Chunk.msgId =
      s.wire.filterMap fun raw => (decodeChunkFrame raw).toOption.map Chunk.msgId := by
    have key : ∀ {w : List Chunk} {wire : List (List Byte)},
        List.Forall₂ (fun c raw => decodeChunkFrame raw = .ok c) w wire → w.map Chunk.msgId =
          wire.filterMap fun raw => (decodeChunkFrame raw).toOption.map Chunk.msgId := by
      intro w wire hw
      induction hw with
      | nil => rfl
      | cons hc _ ih => simp [hc, ih, Except.toOption]
    exact key h.wire
  rw [System.inFlight, ← hwire, ← List.map_append]
  exact h.flow.mem_out_of_msgId hid

theorem Inv.mem_pipeline (h : Inv codec cfg s w done live) {c : Chunk} {p : JsString} :
    c ∈ pipeline s.sender.scheduler.queues w p ↔ c ∈ s.sender.scheduler.items ++ w ∧ c.priority = p := by
  have hitems : c ∈ s.sender.scheduler.items ↔ ∃ q ∈ priorityNames, c ∈ s.sender.scheduler.queues q := by
    rw [Scheduler.items, h.tiers, List.mem_flatMap]
  simp only [pipeline, List.mem_append, List.mem_filter, decide_eq_true_eq, hitems]
  constructor
  · rintro (⟨hc, hp⟩ | hc)
    · exact ⟨Or.inr hc, hp⟩
    · obtain ⟨hp, hcp⟩ := h.lane p c hc
      exact ⟨Or.inl ⟨p, hp, hc⟩, hcp⟩
  · rintro ⟨⟨q, -, hc⟩ | hc, hp⟩
    · right
      rwa [← hp, (h.lane q c hc).2]
    · exact Or.inl ⟨hc, hp⟩

theorem Inv.init {peerCfg : Config T J} (htiers : cfg.tiers = priorityNames) (first first' : Fin (2 ^ 32)) :
    Inv codec cfg (System.init cfg peerCfg first first') [] [] [] where
  wire := .nil
  flow := by
    have hitems : (System.init cfg peerCfg first first').sender.scheduler.items = [] := by
      simp [Scheduler.items, System.init, PriorityMux.new, Scheduler.new]
    rw [hitems]
    exact .nil
  sent := .nil
  events := rfl
  tiers := htiers
  lane := fun _ _ hc => (by cases hc)
  fits := by
    intro c hc
    simp [Scheduler.items, System.init, PriorityMux.new, Scheduler.new] at hc
  draining := by simp [Scheduler.items, System.init, PriorityMux.new, Scheduler.new]
  closed := rfl

theorem Ordered.init {peerCfg : Config T J} (first first' : Fin (2 ^ 32)) :
    Ordered codec cfg (System.init cfg peerCfg first first') [] [] [] where
  lanes := fun _ => .nil
  sent := fun _ => rfl

/-- One id before another, in a list that got a last element. -/
theorem pair_sublist_concat {a b x : ℕ} {ids : List ℕ} (h : [a, b].Sublist (ids ++ [x])) (hb : b ≠ x) :
    [a, b].Sublist ids := by
  obtain ⟨l₁, l₂, hl, h₁, h₂⟩ := List.sublist_append_iff.mp h
  rcases List.sublist_singleton.mp h₂ with rfl | rfl
  · rw [List.append_nil] at hl
    rwa [hl]
  · have hlast : (l₁ ++ [x]).getLast (by simp) = b := by simp [← hl]
    rw [List.getLast_append_singleton] at hlast
    exact absurd hlast.symm hb

/-- A send keeps the invariant and the order. -/
theorem Inv.send (h : Inv codec cfg s w done live) (data : Data T J) (priority : Option JsString)
    (hfree : s.sender.nextMsgId.val ∉ s.inFlight) :
    ∃ live', Inv codec cfg (s.send codec cfg data priority) w done live' ∧
      (Ordered codec cfg s w done live → Ordered codec cfg (s.send codec cfg data priority) w done live') := by
  rcases PriorityMux.send_cases codec cfg h.closed data priority with
    ⟨next, e, hs⟩ | ⟨m, hp, hdata, hmid, hlen, hs⟩
  · have hsend : s.send codec cfg data priority =
        { s with sender := { s.sender with nextMsgId := next } } := by rw [System.send, hs]
    rw [hsend]
    exact ⟨live, ⟨h.wire, h.flow, h.sent, h.events, h.tiers, h.lane, h.fits, h.draining, h.closed⟩,
      fun ho => ⟨ho.lanes, ho.sent⟩⟩
  · have hsend : s.send codec cfg data priority = { s with
        sender := { s.sender with
          scheduler := { s.sender.scheduler with
            queues := Function.update s.sender.scheduler.queues m.priority
              (s.sender.scheduler.queues m.priority ++ (m.parts codec cfg).chunks) }
          draining := true
          nextMsgId := s.sender.nextMsgId + 1 }
        sent := s.sent ++ [m] } := by
      rw [System.send, hs]
      simp only [← hdata]
    have hchunk : ∀ c ∈ (m.parts codec cfg).chunks,
        c.priority = m.priority ∧ c.Fits ∧ c.msgId = m.msgId := by
      intro c hc
      obtain ⟨seq, hseq, rfl⟩ := Parts.mem_chunks.mp hc
      refine ⟨rfl, ⟨?_, ?_, hseq.trans hlen, hlen⟩, rfl⟩
      · show m.priority ∈ priorityNames
        rw [← h.tiers]
        exact hp
      · show m.msgId < 2 ^ 32
        rw [hmid]
        exact s.sender.nextMsgId.isLt
    have hid : m.msgId ∉ msgIds (Sent.parts codec cfg) live := by
      intro hin
      rw [hmid] at hin
      exact hfree (h.msgIds_inFlight hin)
    obtain ⟨others, hold, hnew⟩ := Scheduler.flatMap_update (h.tiers ▸ (by decide : priorityNames.Nodup)) hp
      s.sender.scheduler.queues (s.sender.scheduler.queues m.priority ++ (m.parts codec cfg).chunks)
    have hitems : (s.sender.scheduler.tiers.flatMap (Function.update s.sender.scheduler.queues m.priority
        (s.sender.scheduler.queues m.priority ++ (m.parts codec cfg).chunks))).Perm
        (s.sender.scheduler.items ++ (m.parts codec cfg).chunks) := by
      refine hnew.trans (List.Perm.trans ?_ (hold.symm.append_right _))
      rw [List.append_assoc, List.append_assoc]
      exact List.perm_append_comm.append_left _
    rw [hsend]
    refine ⟨live ++ [m], ⟨h.wire, ?_, ?_, h.events, h.tiers, ?_, ?_, fun hf => (by cases hf), h.closed⟩, ?_⟩
    · -- the chunks of the message are in flight now
      refine (h.flow.append hid (chunkCount_pos _ _)).perm ?_
      refine List.Perm.trans ?_ (hitems.symm.append_right w)
      rw [List.append_assoc, List.append_assoc]
      exact List.perm_append_comm.append_left _
    · rw [← List.append_assoc]
      exact h.sent.append_right _
    · intro q c (hc : c ∈ Function.update s.sender.scheduler.queues m.priority _ q)
      by_cases hq : q = m.priority
      · subst hq
        rw [Function.update_self] at hc
        rcases List.mem_append.mp hc with hc | hc
        · exact h.lane _ c hc
        · exact ⟨h.tiers ▸ hp, (hchunk c hc).1⟩
      · rw [Function.update_of_ne hq] at hc
        exact h.lane q c hc
    · intro c hc
      rcases List.mem_append.mp (hitems.subset hc) with hc | hc
      · exact h.fits c hc
      · exact (hchunk c hc).2.1
    · intro ho
      have hids : msgIds (Sent.parts codec cfg) (live ++ [m]) =
          msgIds (Sent.parts codec cfg) live ++ [m.msgId] := by simp [msgIds, Sent.parts]
      have hne : ∀ q, ∀ c ∈ pipeline s.sender.scheduler.queues w q, c.msgId ∈ msgIds (Sent.parts codec cfg) live := by
        intro q c hc
        exact h.flow.msgId_mem (h.mem_pipeline.mp hc).1
      have hlanes : ∀ q, (pipeline s.sender.scheduler.queues w q).Pairwise fun c c' =>
          ¬ [c'.msgId, c.msgId].Sublist (msgIds (Sent.parts codec cfg) (live ++ [m])) := by
        intro q
        refine (ho.lanes q).imp_of_mem ?_
        intro c c' hc _ hnot hsub
        rw [hids] at hsub
        refine hnot (pair_sublist_concat hsub ?_)
        intro he
        exact hid (he ▸ hne q c hc)
      constructor
      · intro q
        show (pipeline (Function.update s.sender.scheduler.queues m.priority
          (s.sender.scheduler.queues m.priority ++ (m.parts codec cfg).chunks)) w q).Pairwise _
        by_cases hq : q = m.priority
        · subst hq
          rw [pipeline, Function.update_self, ← List.append_assoc, List.pairwise_append]
          refine ⟨hlanes _, ?_, ?_⟩
          · apply List.pairwise_of_forall_mem_list
            intro c hc c' hc' hsub
            rw [(hchunk c hc).2.2, (hchunk c' hc').2.2, hids] at hsub
            have hnodup := (h.flow.append hid (chunkCount_pos _ _)).ids
            rw [hids] at hnodup
            exact (List.nodup_cons.mp (hsub.nodup hnodup)).1 List.mem_cons_self
          · intro c hc c' hc' hsub
            rw [(hchunk c' hc').2.2, hids] at hsub
            have hin := pair_sublist_concat hsub fun he => hid (he ▸ hne _ c hc)
            exact hid (hin.subset List.mem_cons_self)
        · rw [pipeline, Function.update_of_ne hq]
          exact hlanes q
      · intro q
        simp only [List.filter_append, ho.sent q, List.append_assoc]

/-- So does a drain tick: it moves one chunk from its queue to the wire. -/
theorem Inv.tick (h : Inv codec cfg s w done live) (hdraining : s.sender.draining = true) :
    ∃ w', Inv codec cfg s.tick w' done live ∧
      (Ordered codec cfg s w done live → Ordered codec cfg s.tick w' done live) := by
  rcases PriorityMux.drainTick_cases h.closed with ⟨p, hp, c, rest, hq, hs⟩ | ⟨hq, hs⟩
  · have hitem : ∀ c' ∈ s.sender.scheduler.queues p, c' ∈ s.sender.scheduler.items := fun c' hc' =>
      List.mem_flatMap.mpr ⟨p, hp, hc'⟩
    have hcp : c.priority = p := (h.lane p c (hq ▸ List.mem_cons_self)).2
    have hfits := h.fits c (hitem c (hq ▸ List.mem_cons_self))
    obtain ⟨frame, hencode, hdecode⟩ :=
      decode_encode_chunkFrame hfits.priority hfits.msgId hfits.seq hfits.total
    have htick : s.tick = { s with
        sender := { s.sender with scheduler := { s.sender.scheduler with
          queues := Function.update s.sender.scheduler.queues p rest
          slotCounter := s.sender.scheduler.slotCounter + 1 } }
        wire := s.wire ++ [frame] } := by rw [System.tick, hs frame hencode]
    have hrest : ∀ q, ∀ c' ∈ Function.update s.sender.scheduler.queues p rest q,
        c' ∈ s.sender.scheduler.queues q := by
      intro q c' hc'
      by_cases hqp : q = p
      · subst hqp
        rw [Function.update_self] at hc'
        rw [hq]
        exact List.mem_cons_of_mem c hc'
      · rwa [Function.update_of_ne hqp] at hc'
    obtain ⟨others, hold, hnew⟩ := Scheduler.flatMap_update (h.tiers ▸ (by decide : priorityNames.Nodup)) hp
      s.sender.scheduler.queues rest
    have hitems : (s.sender.scheduler.items ++ w).Perm
        (s.sender.scheduler.tiers.flatMap (Function.update s.sender.scheduler.queues p rest) ++ (w ++ [c])) := by
      rw [hq] at hold
      refine (hold.append_right w).trans (List.Perm.trans ?_ (hnew.symm.append_right _))
      rw [← List.append_assoc]
      exact (List.perm_append_singleton c _).symm
    have hdrain : ∀ q, pipeline (Function.update s.sender.scheduler.queues p rest) (w ++ [c]) q =
        pipeline s.sender.scheduler.queues w q := by
      intro q
      by_cases hqp : q = p
      · subst hqp
        simp [pipeline, hq, hcp]
      · have hcq : ¬ c.priority = q := fun he => hqp (he.symm.trans hcp)
        simp [pipeline, hqp, hcq]
    rw [htick]
    refine ⟨w ++ [c], ⟨?_, h.flow.perm hitems, h.sent, h.events, h.tiers, ?_, ?_, ?_, h.closed⟩, ?_⟩
    · exact List.rel_append h.wire (.cons hdecode .nil)
    · exact fun q c' hc' => h.lane q c' (hrest q c' hc')
    · intro c' hc'
      obtain ⟨q, hq', hc'⟩ := List.mem_flatMap.mp hc'
      exact h.fits c' (List.mem_flatMap.mpr ⟨q, hq', hrest q c' hc'⟩)
    · intro hstop
      rw [hdraining] at hstop
      cases hstop
    · intro ho
      refine ⟨?_, ho.sent⟩
      intro q
      show (pipeline (Function.update s.sender.scheduler.queues p rest) (w ++ [c]) q).Pairwise _
      rw [hdrain q]
      exact ho.lanes q
  · have htick : s.tick = { s with sender := { s.sender with
        scheduler := { s.sender.scheduler with slotCounter := s.sender.scheduler.slotCounter + 1 }
        draining := false } } := by rw [System.tick, hs]
    have hempty : s.sender.scheduler.items = [] := List.flatMap_eq_nil_iff.mpr hq
    rw [htick]
    exact ⟨w, ⟨h.wire, h.flow, h.sent, h.events, h.tiers, h.lane, h.fits, fun _ => hempty, h.closed⟩,
      fun ho => ⟨ho.lanes, ho.sent⟩⟩

/-- So does a delivery, the order if the frames are delivered in order. -/
theorem Inv.deliver (h : Inv codec cfg s w done live) {i : ℕ} {raw : List Byte} (hraw : s.wire[i]? = some raw) :
    ∃ w' done' live', Inv codec cfg (s.deliver codec i raw) w' done' live' ∧
      (i = 0 → Ordered codec cfg s w done live →
        Ordered codec cfg (s.deliver codec i raw) w' done' live') := by
  obtain ⟨hi, hget⟩ := List.getElem?_eq_some_iff.mp hraw
  have hiw : i < w.length := h.wire.length_eq ▸ hi
  generalize hc : w[i] = c
  have hdecode : decodeChunkFrame raw = .ok c := by
    rw [← hget, ← hc]
    exact h.wire.get hiw hi
  have hwperm : w.Perm (c :: w.eraseIdx i) := hc ▸ (List.getElem_cons_eraseIdx_perm hiw).symm
  have hcw : c ∈ w := hwperm.symm.subset List.mem_cons_self
  have hwire : List.Forall₂ (fun c raw => decodeChunkFrame raw = .ok c) (w.eraseIdx i) (s.wire.eraseIdx i) := by
    rw [List.eraseIdx_eq_take_drop_succ, List.eraseIdx_eq_take_drop_succ]
    exact List.rel_append (List.forall₂_take i h.wire) (List.forall₂_drop (i + 1) h.wire)
  have hout : ((s.sender.scheduler.items ++ w).erase c).Perm (s.sender.scheduler.items ++ w.eraseIdx i) := by
    apply List.Perm.cons_inv (a := c)
    refine (List.perm_cons_erase (List.mem_append_right _ hcw)).symm.trans ?_
    exact (hwperm.append_left _).trans List.perm_middle
  -- what is left of a pipeline, when the oldest frame is delivered
  have hpipe : i = 0 → ∀ q, pipeline s.sender.scheduler.queues w q =
      (if c.priority = q then [c] else []) ++ pipeline s.sender.scheduler.queues (w.eraseIdx i) q := by
    rintro rfl q
    obtain ⟨c₀, w₀, rfl⟩ := List.exists_cons_of_length_pos hiw
    obtain rfl : c₀ = c := hc
    by_cases hq : c₀.priority = q <;> simp [pipeline, hq]
  obtain ⟨l, m, l', pending', hlive, hcm, ⟨hr, hflow⟩ | ⟨hr, hflow⟩⟩ :=
    h.flow.receive (List.mem_append_right _ hcw)
  · have hdeliver : s.deliver codec i raw = { s with
        peer := { s.peer with reassembler := pending' }
        wire := s.wire.eraseIdx i } := by
      rw [System.deliver, PriorityMux.handleIncoming_of_receive codec hdecode hr]
      simp
    rw [hdeliver]
    refine ⟨w.eraseIdx i, done, live, ⟨hwire, hflow.perm hout, h.sent, h.events, h.tiers, h.lane, h.fits,
      h.draining, h.closed⟩, ?_⟩
    intro hi0 ho
    refine ⟨?_, ho.sent⟩
    intro q
    have hlane := ho.lanes q
    rw [hpipe hi0 q, List.pairwise_append] at hlane
    exact hlane.2.1
  · -- `m` is complete
    have hdeliver : s.deliver codec i raw = { s with
        peer := { s.peer with reassembler := pending' }
        wire := s.wire.eraseIdx i
        events := s.events ++ [m.event] } := by
      rw [System.deliver, PriorityMux.handleIncoming_of_receive codec hdecode hr]
      simp only [Option.map_some, Sent.bytes_parts, decode_encode_envelope]
      rfl
    have hperm : live.Perm (m :: (l ++ l')) := hlive ▸ List.perm_middle
    rw [hdeliver]
    refine ⟨w.eraseIdx i, done ++ [m], l ++ l', ⟨hwire, hflow.perm hout, ?_, ?_, h.tiers, h.lane, h.fits,
      h.draining, h.closed⟩, ?_⟩
    · refine h.sent.trans ?_
      rw [List.append_assoc]
      exact hperm.append_left _
    · show s.events ++ [m.event] = _
      rw [h.events, List.map_append]
      rfl
    · intro hi0 ho
      have hcp : c.priority = m.priority := by
        obtain ⟨seq, -, rfl⟩ := Parts.mem_chunks.mp hcm
        rfl
      have hcid : c.msgId = m.msgId := Flow.msgId_of_mem_chunks hcm
      have hsub : (msgIds (Sent.parts codec cfg) (l ++ l')).Sublist (msgIds (Sent.parts codec cfg) live) := by
        rw [hlive]
        exact ((List.sublist_cons_self m l').append_left l).map _
      -- an earlier message of this priority would have a chunk behind `c`
      have hfirst : l.filter (·.priority = m.priority) = [] := by
        apply List.filter_eq_nil_iff.mpr
        intro m₀ hm₀ hp₀
        have hp₀ : m₀.priority = m.priority := of_decide_eq_true hp₀
        have hm₀live : m₀ ∈ live := hlive ▸ List.mem_append_left _ hm₀
        obtain ⟨c₀, hc₀, hcm₀⟩ := h.flow.flying m₀ hm₀live
        have hid₀ : c₀.msgId = m₀.msgId := Flow.msgId_of_mem_chunks hcm₀
        have hp₀' : c₀.priority = m.priority := by
          obtain ⟨seq, -, rfl⟩ := Parts.mem_chunks.mp hcm₀
          exact hp₀
        have hbefore : [m₀.msgId, m.msgId].Sublist (msgIds (Sent.parts codec cfg) live) := by
          have hone : [m₀, m].Sublist (l ++ m :: l') :=
            (List.singleton_sublist.mpr hm₀).append (List.singleton_sublist.mpr List.mem_cons_self)
          have hids := hone.map fun m : Sent T J => (m.parts codec cfg).msgId
          rw [← hlive] at hids
          exact hids
        have hne : c₀ ≠ c := by
          rintro rfl
          rw [← hid₀, ← hcid] at hbefore
          exact (List.nodup_cons.mp (hbefore.nodup h.flow.ids)).1 List.mem_cons_self
        have hmem : c₀ ∈ pipeline s.sender.scheduler.queues w m.priority := h.mem_pipeline.mpr ⟨hc₀, hp₀'⟩
        have hlane := ho.lanes m.priority
        rw [hpipe hi0, if_pos hcp] at hlane hmem
        have htail := (List.mem_cons.mp hmem).resolve_left hne
        refine (List.pairwise_cons.mp hlane).1 c₀ htail ?_
        rwa [hid₀, hcid]
      constructor
      · intro q
        have hlane := ho.lanes q
        rw [hpipe hi0 q, List.pairwise_append] at hlane
        exact hlane.2.1.imp fun hnot hin => hnot (hin.trans hsub)
      · intro q
        show s.sent.filter _ = _
        rw [ho.sent q, hlive]
        by_cases hq : m.priority = q
        · subst hq
          simp [hfirst]
        · simp [hq]

end Invariant

/-! ### Every message once -/

/-- The priority of a message that was emitted. -/
def Event.priority : Event T J → Option JsString
  | .message _ _ p => some p
  | .error _ => none

/-- In every run in which a send never takes the id of a message in flight, the peer emits no message that
was not sent, and each at most once.  When the sender has stopped draining nothing is queued, and when
nothing is queued or on the wire all messages have been emitted.  If the frames were delivered in order,
the messages of a priority are emitted in the order in which they were sent. -/
theorem messages_delivered (codec : Codec T J) {cfg : Config T J} (peerCfg : Config T J)
    (htiers : cfg.tiers = priorityNames) (first first' : Fin (2 ^ 32)) {s : System T J}
    (h : (machine codec cfg peerCfg first first').Reach System.TakesFreeId s) :
    s.events.Subperm (s.sent.map Sent.event) ∧
      (s.sender.draining = false → s.sender.scheduler.items = []) ∧
      (s.sender.scheduler.items = [] → s.wire = [] → s.events.Perm (s.sent.map Sent.event)) ∧
      ((machine codec cfg peerCfg first first').Reach (fun s a => s.TakesFreeId a ∧ s.InOrder a) s →
        ∀ p, s.events.filter (·.priority = some p) <+: (s.sent.filter (·.priority = p)).map Sent.event) := by
  have hstep : ∀ s a s', (machine codec cfg peerCfg first first').step s a = some s' → s.TakesFreeId a →
      ∀ w done live, Inv codec cfg s w done live →
        ∃ w' done' live', Inv codec cfg s' w' done' live' ∧
          (s.InOrder a → Ordered codec cfg s w done live → Ordered codec cfg s' w' done' live') := by
    intro s a s' hs hfree w done live hinv
    cases a with
    | send data priority =>
        obtain rfl := Option.some.inj hs
        obtain ⟨live', hinv', hord⟩ := hinv.send data priority hfree
        exact ⟨w, done, live', hinv', fun _ => hord⟩
    | tick =>
        simp only [machine, System.step] at hs
        split_ifs at hs with hdraining
        obtain rfl := Option.some.inj hs
        obtain ⟨w', hinv', hord⟩ := hinv.tick hdraining
        exact ⟨w', done, live, hinv', fun _ => hord⟩
    | deliver i =>
        obtain ⟨raw, hraw, rfl⟩ := Option.map_eq_some_iff.mp hs
        exact hinv.deliver hraw
  have hinv : ∃ w done live, Inv codec cfg s w done live := by
    refine h.invariant (I := fun s => ∃ w done live, Inv codec cfg s w done live)
      ⟨[], [], [], Inv.init htiers first first'⟩ ?_
    rintro s a s' ⟨w, done, live, hinv⟩ hfree hs
    obtain ⟨w', done', live', hinv', -⟩ := hstep s a s' hs hfree w done live hinv
    exact ⟨w', done', live', hinv'⟩
  obtain ⟨w, done, live, hinv⟩ := hinv
  have hall : (s.events ++ live.map Sent.event).Perm (s.sent.map Sent.event) := by
    rw [hinv.events, ← List.map_append]
    exact (hinv.sent.map _).symm
  refine ⟨?_, hinv.draining, ?_, ?_⟩
  · exact (List.sublist_append_left _ _).subperm.trans hall.subperm
  · intro hitems hwire
    have hw : w = [] := by
      have hlen := hinv.wire.length_eq
      rw [hwire] at hlen
      exact List.length_eq_zero_iff.mp hlen
    have hlive : live = [] := by
      apply List.eq_nil_iff_forall_not_mem.mpr
      intro m hm
      obtain ⟨c, hc, -⟩ := hinv.flow.flying m hm
      rw [hitems, hw] at hc
      cases hc
    rwa [hlive, List.map_nil, List.append_nil] at hall
  · intro hr p
    have hboth : ∃ w done live, Inv codec cfg s w done live ∧ Ordered codec cfg s w done live := by
      refine hr.invariant (I := fun s => ∃ w done live, Inv codec cfg s w done live ∧ Ordered codec cfg s w done live)
        ⟨[], [], [], Inv.init htiers first first', Ordered.init first first'⟩ ?_
      rintro s a s' ⟨w, done, live, hinv, hord⟩ ⟨hfree, hin⟩ hs
      obtain ⟨w', done', live', hinv', hord'⟩ := hstep s a s' hs hfree w done live hinv
      exact ⟨w', done', live', hinv', hord' hin hord⟩
    obtain ⟨w, done, live, hinv, hord⟩ := hboth
    have hevents : s.events.filter (·.priority = some p) =
        (done.filter (·.priority = p)).map Sent.event := by
      rw [hinv.events, List.filter_map]
      congr 1
      apply List.filter_congr
      intro m _
      simp [Sent.event, Event.priority]
    rw [hevents, hord.sent p, List.map_append]
    exact List.prefix_append _ _

/-- No strings and no other values, only bytes. -/
def bytesOnly : Codec Empty Empty where
  encodeText := Empty.elim
  decodeText := fun _ => none
  encodeJson := Empty.elim
  decodeJson := fun _ => none
  decode_encodeText := fun s => s.elim
  decode_encodeJson := fun v => v.elim

local instance neZero_smallChunks : NeZero 2 := ⟨by decide⟩

/-- Chunks of two bytes, no guard slots. -/
def smallChunks : Config Empty Empty where
  chunkSize := 2
  tiers := priorityNames
  tiers_ne_nil := by decide
  starvationGuardInterval := none
  priorityOf := none
  defaultPriority := none

abbrev smallMachine := machine bytesOnly smallChunks smallChunks 0 0

/-- Two messages of one priority, delivered in order. -/
theorem messages_delivered_two : ∃ s, smallMachine.Reach (fun s a => s.TakesFreeId a ∧ s.InOrder a) s ∧
    s.sent.length = 2 ∧ s.events.Perm (s.sent.map Sent.event) ∧
    s.events.filter (·.priority = some (js "low")) <+:
      (s.sent.filter (·.priority = js "low")).map Sent.event := by
  have hrun : (smallMachine.run (fun s a => s.TakesFreeId a ∧ s.InOrder a) smallMachine.init
      [.send (.bytes [1, 2, 3]) (some (js "low")), .tick, .send (.bytes []) (some (js "low")), .tick, .tick,
        .deliver 0, .deliver 0, .deliver 0]).any (fun s => decide (s.sender.scheduler.items = [] ∧
          s.wire = [] ∧ s.sent.length = 2)) = true := by decide +kernel
  obtain ⟨s, -, hr, hitems, hwire, hlen⟩ := Machine.exists_of_run hrun
  have h := messages_delivered bytesOnly smallChunks rfl 0 0 (hr.mono fun _ _ hok => hok.1)
  exact ⟨s, hr, hlen, h.2.2.1 hitems hwire, h.2.2.2 hr (js "low")⟩

/-! ### A reused id -/

def heldMessage : Sent Empty Empty := ⟨.bytes [1, 2, 3], js "normal", 0⟩

def lateMessage : Sent Empty Empty := ⟨.bytes [4, 5, 6], js "normal", 0⟩

def shortMessage (k : ℕ) : Sent Empty Empty := ⟨.bytes [], js "normal", k + 1⟩

/-- At most two messages are in flight. -/
def Few (s : System Empty Empty) (_ : Action Empty Empty) : Prop := s.sent.length ≤ s.events.length + 2

instance (s : System Empty Empty) (a : Action Empty Empty) : Decidable (Few s a) :=
  inferInstanceAs (Decidable (_ ≤ _))

/-- The scheduler of `smallChunks` with nothing but `normal` chunks. -/
def normalOnly (slot : ℕ) (chunks : List Chunk) : Scheduler Chunk :=
  ⟨priorityNames, none, Function.update (fun _ => []) (js "normal") chunks, slot⟩

theorem normalOnly_send {s : System Empty Empty} {slot : ℕ} (hs : s.sender.scheduler = normalOnly slot [])
    (hclosed : s.sender.closed = false) {m : Sent Empty Empty} (hp : m.priority = js "normal")
    (hid : m.msgId = s.sender.nextMsgId) (hlen : (m.parts bytesOnly smallChunks).total < 2 ^ 32) :
    smallMachine.step s (.send m.data none) = some { s with
      sender := { s.sender with
        scheduler := normalOnly slot (m.parts bytesOnly smallChunks).chunks
        draining := true
        nextMsgId := s.sender.nextMsgId + 1 }
      sent := s.sent ++ [m] } := by
  obtain ⟨data, priority, msgId⟩ := m
  obtain rfl : priority = js "normal" := hp
  have haccept := PriorityMux.send_accepts bytesOnly smallChunks hclosed data none
    (by rw [hs]; show js "normal" ∈ priorityNames; decide) (congrArg (Sent.mk data (js "normal")) hid) hlen
  show some (System.send _ _ _ _ _) = _
  rw [System.send, haccept]
  simp only [hs, normalOnly, Function.update_self, List.nil_append, Function.update_idem]

theorem normalOnly_tick {s : System Empty Empty} {slot : ℕ} {c : Chunk} {rest : List Chunk} {frame : List Byte}
    (hs : s.sender.scheduler = normalOnly slot (c :: rest)) (hclosed : s.sender.closed = false)
    (hdraining : s.sender.draining = true) (hframe : encodeChunkFrame c = .ok frame) :
    smallMachine.step s .tick = some { s with
      sender := { s.sender with scheduler := normalOnly (slot + 1) rest }
      wire := s.wire ++ [frame] } := by
  have hshift : Scheduler.shiftFirst (Function.update (fun _ => []) (js "normal") (c :: rest)) priorityNames =
      (Function.update (fun _ => []) (js "normal") rest, some c) := by
    have hhigh : js "high" ≠ js "normal" := by decide
    simp only [priorityNames, Scheduler.shiftFirst, Function.update_of_ne hhigh, Function.update_self,
      Function.update_idem]
  show (if s.sender.draining then some s.tick else none) = _
  rw [if_pos hdraining]
  simp only [System.tick, PriorityMux.drainTick, hclosed, Bool.false_eq_true, if_false, hs, normalOnly,
    Scheduler.dequeue, isGuardSlot, hshift, hframe, if_true]

/-- `heldMessage` is on the wire, and `k` short messages came through after it. -/
def heldState (k : ℕ) : System Empty Empty where
  sender := ⟨normalOnly (k + 2) [], JsMap.empty, true, false, Fin.ofNat _ (k + 1)⟩
  peer := .new smallChunks 0
  wire := (heldMessage.parts bytesOnly smallChunks).chunks.map fun c =>
    (encodeChunkFrame c).toOption.getD []
  sent := heldMessage :: (List.range k).map shortMessage
  events := (List.range k).map fun i => (shortMessage i).event

theorem total_shortMessage (k : ℕ) : ((shortMessage k).parts bytesOnly smallChunks).total = 1 := by
  simp [Sent.parts, shortMessage, encodeEnvelope, chunkCount, smallChunks]

theorem heldState_zero : smallMachine.Reach Few (heldState 0) := by
  have hinit : smallMachine.init.sender.scheduler = normalOnly 0 [] := by
    show Scheduler.mk _ _ _ _ = _
    rw [normalOnly, Function.update_eq_self]
    rfl
  have hchunks : (heldMessage.parts bytesOnly smallChunks).chunks =
      [⟨js "normal", 0, 0, 2, [0, 1]⟩, ⟨js "normal", 0, 1, 2, [2, 3]⟩] := by decide
  have hsend := normalOnly_send hinit rfl (m := heldMessage) rfl rfl (by decide)
  rw [hchunks] at hsend
  have h₁ := Machine.Reach.step .init (by decide : Few smallMachine.init _) hsend
  have h₂ := h₁.step (by decide) (normalOnly_tick rfl rfl rfl rfl)
  exact h₂.step (by decide) (normalOnly_tick rfl rfl rfl rfl)

theorem heldState_succ {k : ℕ} (hk : k + 1 < 2 ^ 32) (h : smallMachine.Reach Few (heldState k)) :
    smallMachine.Reach Few (heldState (k + 1)) := by
  have hval : (heldState k).sender.nextMsgId.val = k + 1 := Nat.mod_eq_of_lt hk
  have hfew : (heldState k).sent.length = (heldState k).events.length + 1 := by simp [heldState]
  have htotal : ((shortMessage k).parts bytesOnly smallChunks).total < 2 ^ 32 := by
    norm_num [total_shortMessage]
  generalize hc : ((shortMessage k).parts bytesOnly smallChunks).chunk 0 = c
  have hchunks : ((shortMessage k).parts bytesOnly smallChunks).chunks = [c] := by
    rw [Parts.chunks, total_shortMessage, ← hc]
    rfl
  obtain ⟨frame, hencode, hdecode⟩ : ∃ frame, encodeChunkFrame c = .ok frame ∧ decodeChunkFrame frame = .ok c := by
    rw [← hc]
    exact decode_encode_chunkFrame (by show js "normal" ∈ priorityNames; decide) hk (by norm_num [Parts.chunk]) htotal
  have hsend := normalOnly_send (s := heldState k) rfl rfl (m := shortMessage k) rfl hval.symm htotal
  rw [hchunks] at hsend
  have h₁ := h.step (by rw [Few, hfew]; omega) hsend
  have h₂ := h₁.step (by simp [Few, hfew]) (normalOnly_tick rfl rfl rfl hencode)
  refine h₂.step (a := .deliver 2) (by simp [Few, hfew]) ?_
  -- the chunk is received, and the short message is complete
  have hspec := @Reassembler.receive_spec ((shortMessage k).parts bytesOnly smallChunks) JsMap.empty ∅ 0
    (Finset.empty_subset _) (Nat.lt_of_lt_of_eq Nat.one_pos (total_shortMessage k).symm) rfl
  rw [hc, if_pos (by rw [total_shortMessage]; rfl), Sent.bytes_parts] at hspec
  have hin := PriorityMux.handleIncoming_of_receive bytesOnly (m := (heldState k).peer) hdecode hspec
  simp only [Option.map_some, decode_encode_envelope] at hin
  have hnext : (Fin.ofNat (2 ^ 32) (k + 1) + 1) = Fin.ofNat (2 ^ 32) (k + 1 + 1) := by
    apply Fin.ext
    simp [Fin.val_add]
  have hget : ((heldState k).wire ++ [frame])[2]? = some frame := rfl
  have hwire : ((heldState k).wire ++ [frame]).eraseIdx 2 = (heldState k).wire := rfl
  have hsent : (heldState k).sent ++ [shortMessage k] = (heldState (k + 1)).sent := by
    simp [heldState, List.range_succ]
  have hevents : (heldState k).events ++ [(shortMessage k).event] = (heldState (k + 1)).events := by
    simp [heldState, List.range_succ]
  show Option.map _ (((heldState k).wire ++ [frame])[2]?) = _
  rw [hget, Option.map_some]
  simp only [System.deliver, hin, Option.toList_some, hwire, hsent]
  refine congrArg some (Eq.trans ?_ (congrArg (fun events => { heldState (k + 1) with events }) hevents))
  show System.mk ⟨_, _, _, _, Fin.ofNat (2 ^ 32) (k + 1) + 1⟩ _ _ _ _ = _
  rw [hnext]
  rfl

theorem heldState_reach (k : ℕ) (hk : k < 2 ^ 32) : smallMachine.Reach Few (heldState k) := by
  induction k with
  | zero => exact heldState_zero
  | succ k ih => exact heldState_succ hk (ih (by omega))

/-- `heldMessage` stays in flight until all ids have been taken; then its first chunk and the last chunk of
a message under the same id make up a message that was never sent.  No more than two messages were ever
in flight. -/
theorem reused_id_mixes_messages : ∃ s, smallMachine.Reach Few s ∧
    .message (.bytes [1, 5, 6]) 0 (js "normal") ∈ s.events ∧ Data.bytes [1, 5, 6] ∉ s.sent.map Sent.data := by
  obtain ⟨k, hk⟩ : ∃ k, k + 1 = 2 ^ 32 := ⟨2 ^ 32 - 1, by norm_num⟩
  have hreach := heldState_reach k (by omega)
  have hnext : (heldState k).sender.nextMsgId.val = 0 := by
    show (k + 1) % 2 ^ 32 = 0
    rw [hk, Nat.mod_self]
  have hfew : (heldState k).sent.length = (heldState k).events.length + 1 := by simp [heldState]
  have hchunks : (lateMessage.parts bytesOnly smallChunks).chunks =
      [⟨js "normal", 0, 0, 2, [0, 4]⟩, ⟨js "normal", 0, 1, 2, [5, 6]⟩] := by decide
  have hsend := normalOnly_send (s := heldState k) rfl rfl (m := lateMessage) rfl hnext.symm (by decide)
  rw [hchunks] at hsend
  have h₁ := hreach.step (by rw [Few, hfew]; omega) hsend
  have h₂ := h₁.step (by simp [Few, hfew]) (normalOnly_tick rfl rfl rfl rfl)
  have h₃ := h₂.step (by simp [Few, hfew]) (normalOnly_tick rfl rfl rfl rfl)
  -- the first chunk of `heldMessage`, then the last one of `lateMessage`
  have h₄ := h₃.step (a := .deliver 0) (by simp [Few, hfew]) rfl
  have h₅ := h₄.step (a := .deliver 2) (by simp [Few, hfew, System.deliver]) rfl
  refine ⟨_, h₅, List.mem_append_right _ List.mem_cons_self, ?_⟩
  show Data.bytes [1, 5, 6] ∉ List.map Sent.data (heldMessage :: (List.range k).map shortMessage ++ [lateMessage])
  simp [heldMessage, lateMessage, shortMessage]

end BrowserMesh.Mux
