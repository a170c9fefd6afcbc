import BrowserMesh.Apps.MeshRouter
import BrowserMesh.Js.Countdown

/-! # How far a routed envelope goes

* **Hops.**  Every forward takes one from the TTL, which nothing bounds when an envelope enters: it is forwarded at most
  `m` times further, in every network, exactly when its TTL is at most `lastCount m`.
* **Deliveries.**  A router emits `message` for the envelopes to its own pod, once for each time it is handed one. -/

namespace BrowserMesh.Apps
open Js Transition

/-- A router that knows where to can forward the envelope. -/
def Forwardable (envelope : Json) : Prop :=
  (∃ target, envelope.field (js "to") = some (.string target)) ∧ MeshRouter.pathItems envelope ≠ none

/-- The TTL of the envelope is a number that counts down to `0` within `m` steps that stay above `0`. -/
def StopsWithin (m : ℕ) (envelope : Json) : Prop :=
  Forwardable envelope → ∀ x, MeshRouter.ttlNumber envelope = some x → x ≤ JsNumber.lastCount m

namespace MeshRouter
variable {r : MeshRouter} {now : JsNumber}

/-! ### One envelope -/

theorem forwardTo_cases (now : JsNumber) (targetPodId : Option Json) (envelope : Json) :
    ((r.forwardTo now targetPodId envelope).sent = [] ∧
        (r.forwardTo now targetPodId envelope).events.countP RouterEvent.isForward = 0) ∨
      (∃ target, targetPodId = some (.string target)) ∧
        (r.forwardTo now targetPodId envelope).events.countP RouterEvent.isForward = 1 ∧
        ((r.forwardTo now targetPodId envelope).sent = [] ∨
          ∃ dest, (r.forwardTo now targetPodId envelope).sent = [(dest, envelope)]) := by
  unfold forwardTo
  split
  · rename_i target
    split_ifs with hdirect
    · refine .inr ⟨⟨target, rfl⟩, rfl, ?_⟩
      unfold forwardFn
      split_ifs
      · exact .inr ⟨target, rfl⟩
      · exact .inl rfl
    · cases r.routeTable.get? target with
      | none => exact .inl ⟨rfl, rfl⟩
      | some route =>
          dsimp only
          split_ifs
          · exact .inr ⟨⟨target, rfl⟩, rfl, .inr ⟨route.nextHop, rfl⟩⟩
          · exact .inl ⟨rfl, rfl⟩
  · exact .inl ⟨rfl, rfl⟩

theorem messages_forwardTo (targetPodId : Option Json) (envelope : Json) :
    (r.forwardTo now targetPodId envelope).events.filterMap RouterEvent.message? = [] := by
  unfold forwardTo
  split
  · rename_i target
    split_ifs
    · rfl
    · cases r.routeTable.get? target with
      | none => rfl
      | some route =>
          dsimp only
          split_ifs <;> rfl
  · rfl

variable {envelope : Json}

theorem handleRoutedMessage_cases {h : Routed} (hh : r.handleRoutedMessage now envelope = some h) :
    (h.sent = [] ∧ h.events.countP RouterEvent.isForward = 0) ∨
      ∃ fields x path, envelope = .object fields ∧ Forwardable envelope ∧ ttlNumber envelope = some x ∧
        (x.sub (.ofNat 1)).le 0 = false ∧ h.events.countP RouterEvent.isForward = 1 ∧
        (h.sent = [] ∨ ∃ dest, h.sent = [(dest, r.forwarded (x.sub (.ofNat 1)) path fields)]) := by
  unfold handleRoutedMessage at hh
  split at hh
  · rename_i fields
    split_ifs at hh with hlocal
    · obtain rfl := Option.some.inj hh
      exact .inl ⟨rfl, rfl⟩
    · obtain ⟨x, hx, hh⟩ := Option.bind_eq_some_iff.mp hh
      dsimp only at hh
      split_ifs at hh with hexpired
      · obtain rfl := Option.some.inj hh
        exact .inl ⟨rfl, rfl⟩
      · obtain ⟨path, hpath, hh⟩ := Option.bind_eq_some_iff.mp hh
        obtain rfl := Option.some.inj hh
        rcases forwardTo_cases (r := r) now (assoc (js "to") fields)
          (r.forwarded (x.sub (.ofNat 1)) path fields) with hquiet | ⟨htarget, hcount, hsent⟩
        · exact .inl hquiet
        · refine .inr ⟨fields, x, path, rfl, ⟨htarget, ?_⟩, hx, Bool.eq_false_of_not_eq_true hexpired, hcount, hsent⟩
          rw [hpath]
          exact fun heq => by cases heq
  · obtain rfl := Option.some.inj hh
    exact .inl ⟨rfl, rfl⟩

/-- `message` is emitted for the envelopes to the own pod. -/
theorem messages_handleRoutedMessage {h : Routed} (hh : r.handleRoutedMessage now envelope = some h) :
    h.events.filterMap RouterEvent.message? =
      if Json.isString r.localPodId (envelope.field (js "to")) then [envelope] else [] := by
  unfold handleRoutedMessage at hh
  split at hh
  · rename_i fields
    change _ = if Json.isString r.localPodId (assoc (js "to") fields) then _ else _
    split_ifs at hh ⊢ with hlocal
    · obtain rfl := Option.some.inj hh
      rfl
    · obtain ⟨x, hx, hh⟩ := Option.bind_eq_some_iff.mp hh
      dsimp only at hh
      split_ifs at hh
      · obtain rfl := Option.some.inj hh
        rfl
      · obtain ⟨path, hpath, hh⟩ := Option.bind_eq_some_iff.mp hh
        obtain rfl := Option.some.inj hh
        exact messages_forwardTo _ _
  · rename_i hobject
    obtain rfl := Option.some.inj hh
    have hfield : envelope.field (js "to") = none := by
      cases envelope with
      | object fields => exact absurd rfl (hobject fields)
      | null => rfl
      | bool b => rfl
      | number n => rfl
      | string s => rfl
      | array items => rfl
    rw [hfield]
    rfl

theorem isString_eq_false_of_throws (hh : r.handleRoutedMessage now envelope = none) :
    Json.isString r.localPodId (envelope.field (js "to")) = false := by
  unfold handleRoutedMessage at hh
  split at hh
  · rename_i fields
    split_ifs at hh with hlocal
    · exact Bool.eq_false_of_not_eq_true hlocal
  · cases hh

/-! ### TTLs -/

theorem ttlNumber_forwarded (x : JsNumber) (path : List Json) (fields : List (JsString × Json)) :
    ttlNumber (r.forwarded x path fields) = some x := by
  have hfield : (r.forwarded x path fields).field (js "ttl") = some (.number x) := by
    change assoc (js "ttl") (Json.setField _ _ (Json.setField _ _ fields)) = _
    rw [Json.assoc_setField, if_neg (by decide), Json.assoc_setField, if_pos rfl]
  unfold ttlNumber
  rw [hfield]
  rfl

theorem ttlNumber_copy_forwarded (x : JsNumber) (path : List Json) (fields : List (JsString × Json)) :
    ttlNumber (r.forwarded x path fields).copy = some (if x.isFinite then x else 0) := by
  have hfield : (r.forwarded x path fields).copy.field (js "ttl") =
      some (if x.isFinite then .number x else .null) := by
    change assoc (js "ttl") (Json.copyFields (Json.setField _ _ (Json.setField _ _ fields))) = _
    rw [Json.assoc_copyFields, Json.assoc_setField, if_neg (by decide), Json.assoc_setField, if_pos rfl]
    rfl
  unfold ttlNumber
  rw [hfield]
  split_ifs <;> rfl

end MeshRouter

theorem zero_le_lastCount (m : ℕ) : (0 : JsNumber) ≤ JsNumber.lastCount m := by
  have hzero : (0 : JsNumber) = .ofNat 0 := by decide +kernel
  unfold JsNumber.lastCount
  split_ifs with h
  · rw [hzero, JsNumber.ofNat_eq (by norm_num), JsNumber.ofNat_eq (by omega)]
    exact JsNumber.fin_le_fin.mpr (Int.ofNat_le.mpr (Nat.mul_le_mul_right _ (by omega)))
  · decide +kernel

theorem stopsWithin_forwarded {r : MeshRouter} {x : JsNumber} {k : ℕ} (h : x ≤ JsNumber.lastCount k) (copied : Bool)
    (path : List Json) (fields : List (JsString × Json)) :
    StopsWithin k (if copied then (r.forwarded x path fields).copy else r.forwarded x path fields) := by
  intro _ y hy
  split_ifs at hy
  · rw [MeshRouter.ttlNumber_copy_forwarded] at hy
    obtain rfl := Option.some.inj hy
    split_ifs
    · exact h
    · exact zero_le_lastCount k
  · rw [MeshRouter.ttlNumber_forwarded] at hy
    obtain rfl := Option.some.inj hy
    exact h

/-- What `route` makes, as it is or as a copy of its text. -/
theorem stopsWithin_envelope {r : MeshRouter} {targetPodId : JsString} {message : Json} {m : ℕ}
    (h : r.maxTTL ≤ JsNumber.lastCount m) (copied : Bool) :
    StopsWithin m (if copied then (r.envelope targetPodId message).copy else r.envelope targetPodId message) := by
  intro _ y hy
  split_ifs at hy
  · have hcopy : MeshRouter.ttlNumber (r.envelope targetPodId message).copy =
        some (if r.maxTTL.isFinite then r.maxTTL else 0) := by
      unfold MeshRouter.ttlNumber
      rw [show (r.envelope targetPodId message).copy.field (js "ttl") =
        some (if r.maxTTL.isFinite then .number r.maxTTL else .null) from rfl]
      split_ifs <;> rfl
    rw [hcopy] at hy
    obtain rfl := Option.some.inj hy
    split_ifs
    · exact h
    · exact zero_le_lastCount m
  · obtain rfl : r.maxTTL = y := Option.some.inj hy
    exact h

theorem stopsWithin_envelope_iff {r : MeshRouter} {targetPodId : JsString} {message : Json} {m : ℕ} :
    StopsWithin m (r.envelope targetPodId message) ↔ r.maxTTL ≤ JsNumber.lastCount m :=
  ⟨fun h => h ⟨⟨targetPodId, rfl⟩, fun heq => (by cases heq)⟩ r.maxTTL rfl,
    fun h => stopsWithin_envelope h false⟩

theorem route_sent (r : MeshRouter) (now : JsNumber) (targetPodId : JsString) (message : Json) :
    (r.route now targetPodId message).1.sent = [] ∨
      ∃ dest, (r.route now targetPodId message).1.sent = [(dest, r.envelope targetPodId message)] := by
  have hforward : ∀ dest, r.forwardFn dest (r.envelope targetPodId message) = [] ∨
      r.forwardFn dest (r.envelope targetPodId message) = [(dest, r.envelope targetPodId message)] := by
    intro dest
    unfold MeshRouter.forwardFn
    split_ifs
    · exact .inr rfl
    · exact .inl rfl
  unfold MeshRouter.route
  dsimp only
  split_ifs
  · exact (hforward _).imp_right fun h => ⟨_, h⟩
  · cases r.routeTable.get? targetPodId with
    | none => exact .inl rfl
    | some route =>
        dsimp only
        split_ifs
        · exact (hforward _).imp_right fun h => ⟨_, h⟩
        · exact .inl rfl
        · exact .inl rfl

/-! ### Runs -/

/-- The `message` events are the deliveries to the own pod. -/
def atTarget (d : JsString × Json) : Bool := Json.isString d.1 (d.2.field (js "to"))

namespace RoutingNetwork
variable {w w' : RoutingNetwork}

/-- An envelope that stops within `m` was forwarded at most `m` times, and what is on its way stops within the rest. -/
structure Bounded (w : RoutingNetwork) (o m : ℕ) : Prop where
  count : w.forwards.count o ≤ m
  flights : ∀ f ∈ w.flights, f.origin = o → ∃ k, w.forwards.count o + k ≤ m ∧ StopsWithin k f.envelope

structure Sound (w : RoutingNetwork) : Prop where
  single : (w.flights.map Flight.origin).Nodup
  known : ∀ f ∈ w.flights, f.origin < w.entered.length
  forwarded : ∀ o ∈ w.forwards, o < w.entered.length
  messages : w.messages = w.delivered.filter atTarget
  bounded : ∀ o m e, w.entered[o]? = some e → StopsWithin m e → w.Bounded o m

theorem Sound.count_eq_zero (h : Sound w) {o : ℕ} (ho : w.entered.length ≤ o) : w.forwards.count o = 0 :=
  List.count_eq_zero_of_not_mem fun hmem => absurd (h.forwarded o hmem) (by omega)

theorem Sound.enters (h : Sound w) (routers : JsMap JsString MeshRouter) {e : Json} {flights : List Flight}
    (hflights : flights = [] ∨ ∃ f, flights = [f] ∧ f.origin = w.entered.length ∧
      ∀ m, StopsWithin m e → StopsWithin m f.envelope) :
    Sound { w with routers, flights := w.flights ++ flights, entered := w.entered ++ [e] } := by
  have hnew : ∀ f ∈ flights, f.origin = w.entered.length ∧ ∀ m, StopsWithin m e → StopsWithin m f.envelope := by
    rcases hflights with rfl | ⟨f, rfl, hf⟩
    · exact fun f hf => (by cases hf)
    · exact fun g hg => List.mem_singleton.mp hg ▸ hf
  refine ⟨?_, fun f hf => ?_, fun o ho => ?_, h.messages, fun o m e' he' hstops => ?_⟩
  · rw [List.map_append, List.nodup_append]
    refine ⟨h.single, ?_, fun o ho o' ho' heq => ?_⟩
    · rcases hflights with rfl | ⟨f, rfl, -⟩
      · exact List.nodup_nil
      · exact List.nodup_singleton _
    · obtain ⟨f, hf, rfl⟩ := List.mem_map.mp ho
      obtain ⟨g, hg, rfl⟩ := List.mem_map.mp ho'
      have hlt := h.known f hf
      rw [heq, (hnew g hg).1] at hlt
      exact lt_irrefl _ hlt
  · rw [List.length_append, List.length_singleton]
    rcases List.mem_append.mp hf with hf | hf
    · exact (h.known f hf).trans (Nat.lt_succ_self _)
    · rw [(hnew f hf).1]
      exact Nat.lt_succ_self _
  · rw [List.length_append, List.length_singleton]
    exact (h.forwarded o ho).trans (Nat.lt_succ_self _)
  · rcases Nat.lt_or_ge o w.entered.length with hlt | hge
    · rw [List.getElem?_append_left hlt] at he'
      have hbounded := h.bounded o m e' he' hstops
      refine ⟨hbounded.count, fun f hf hfo => ?_⟩
      rcases List.mem_append.mp hf with hf | hf
      · exact hbounded.flights f hf hfo
      · exact absurd ((hnew f hf).1.symm.trans hfo) (by omega)
    · rw [List.getElem?_append_right hge] at he'
      obtain rfl : e' = e := List.mem_singleton.mp (List.mem_of_getElem? he')
      have hzero := h.count_eq_zero hge
      refine ⟨by rw [hzero]; exact Nat.zero_le m, fun f hf hfo => ⟨m, by rw [hzero, zero_add], ?_⟩⟩
      rcases List.mem_append.mp hf with hf | hf
      · exact absurd (h.known f hf) (by omega)
      · exact (hnew f hf).2 m hstops

theorem Sound.taken (h : Sound w) {i : ℕ} {f : Flight} (hf : w.flights[i]? = some f) :
    Sound { w with flights := w.flights.eraseIdx i } ∧ ∀ g ∈ w.flights.eraseIdx i, g.origin ≠ f.origin := by
  have hsub : ∀ g ∈ w.flights.eraseIdx i, g ∈ w.flights := fun g hg => List.mem_of_mem_eraseIdx hg
  refine ⟨⟨?_, fun g hg => h.known g (hsub g hg), h.forwarded, h.messages, fun o m e he hstops => ?_⟩, fun g hg heq => ?_⟩
  · rw [← List.eraseIdx_map]
    exact h.single.eraseIdx i
  · exact ⟨(h.bounded o m e he hstops).count, fun g hg => (h.bounded o m e he hstops).flights g (hsub g hg)⟩
  · obtain ⟨hi, hif⟩ := List.getElem?_eq_some_iff.mp hf
    have hperm := List.getElem_cons_eraseIdx_perm hi
    have hnodup := (hperm.map Flight.origin).nodup_iff.mpr h.single
    rw [List.map_cons, List.nodup_cons, hif] at hnodup
    exact hnodup.1 (heq ▸ List.mem_map_of_mem hg)

theorem Sound.handled (h : Sound w) {f : Flight} {r : MeshRouter} {now : JsNumber} {routed : Routed}
    (hgone : ∀ g ∈ w.flights, g.origin ≠ f.origin) (hknown : f.origin < w.entered.length)
    (hstops : ∀ m e, w.entered[f.origin]? = some e → StopsWithin m e →
      ∃ k, w.forwards.count f.origin + k ≤ m ∧ StopsWithin k f.envelope)
    (hr : r.handleRoutedMessage now f.envelope = some routed) (copied : Bool) :
    Sound (RoutingNetwork.handled { w with delivered := w.delivered ++ [(r.localPodId.val, f.envelope)] }
      f r copied routed) := by
  have hmessages : w.messages ++ (routed.events.filterMap RouterEvent.message?).map (r.localPodId.val, ·) =
      (w.delivered ++ [(r.localPodId.val, f.envelope)]).filter atTarget := by
    rw [List.filter_append, h.messages, MeshRouter.messages_handleRoutedMessage hr]
    congr 1
    by_cases hlocal : Json.isString r.localPodId (f.envelope.field (js "to")) = true
    · rw [if_pos hlocal, List.filter_cons_of_pos (show atTarget (r.localPodId.val, f.envelope) = true from hlocal)]
      rfl
    · rw [if_neg hlocal, List.filter_cons_of_neg (show ¬ atTarget (r.localPodId.val, f.envelope) = true from hlocal)]
      rfl
  have hcases := MeshRouter.handleRoutedMessage_cases hr
  have hlaunch : ∀ g ∈ launch f.origin copied routed.sent, g.origin = f.origin := by
    intro g hg
    obtain ⟨s, -, rfl⟩ := List.mem_map.mp hg
    rfl
  refine ⟨?_, fun g hg => ?_, fun o ho => ?_, hmessages, fun o m e he hm => ?_⟩
  · change ((w.flights ++ launch f.origin copied routed.sent).map Flight.origin).Nodup
    rw [List.map_append, List.nodup_append]
    refine ⟨h.single, ?_, fun o ho o' ho' heq => ?_⟩
    · rcases hcases with ⟨hsent, -⟩ | ⟨_, _, _, -, -, -, -, -, hsent | ⟨_, hsent⟩⟩
      · rw [hsent]
        exact List.nodup_nil
      · rw [hsent]
        exact List.nodup_nil
      · rw [hsent]
        exact List.nodup_singleton _
    · obtain ⟨g, hg, rfl⟩ := List.mem_map.mp ho
      obtain ⟨g', hg', rfl⟩ := List.mem_map.mp ho'
      exact hgone g hg (heq.trans (hlaunch g' hg'))
  · rcases List.mem_append.mp hg with hg | hg
    · exact h.known g hg
    · rw [hlaunch g hg]
      exact hknown
  · rcases List.mem_append.mp ho with ho | ho
    · exact h.forwarded o ho
    · rw [List.eq_of_mem_replicate ho]
      exact hknown
  · have hbounded := h.bounded o m e he hm
    have hcount : (w.forwards ++ List.replicate (routed.events.countP RouterEvent.isForward) f.origin).count o =
        w.forwards.count o + if f.origin = o then routed.events.countP RouterEvent.isForward else 0 := by
      rw [List.count_append, List.count_replicate]
      simp only [beq_iff_eq]
    by_cases ho : f.origin = o
    · subst ho
      obtain ⟨k, hk, hk'⟩ := hstops m e he hm
      rw [if_pos rfl] at hcount
      rcases hcases with ⟨hsent, hzero⟩ | ⟨fields, x, path, henvelope, hforwardable, hx, hlive, hone, hsent⟩
      · have hsame := hcount.trans (by rw [hzero, add_zero])
        refine ⟨hsame.trans_le hbounded.count, fun g hg hgo => ?_⟩
        rcases List.mem_append.mp hg with hg | hg
        · exact absurd hgo (hgone g hg)
        · rw [hsent] at hg
          cases hg
      · have hle := hk' hforwardable x hx
        cases k with
        | zero => cases hlive.symm.trans (JsNumber.sub_one_le_zero hle)
        | succ k =>
            have hnext := JsNumber.sub_one_le_lastCount hle
            rw [hone] at hcount
            have hrest : w.forwards.count f.origin + 1 + k ≤ m := by omega
            refine ⟨?_, fun g hg hgo => ⟨k, ?_, ?_⟩⟩
            · change (w.forwards ++ List.replicate (routed.events.countP _) f.origin).count f.origin ≤ m
              rw [hone, hcount]
              omega
            · change (w.forwards ++ List.replicate (routed.events.countP _) f.origin).count f.origin + k ≤ m
              rw [hone, hcount]
              exact hrest
            · rcases List.mem_append.mp hg with hg | hg
              · exact absurd hgo (hgone g hg)
              · rcases hsent with hsent | ⟨dest, hsent⟩
                · rw [hsent] at hg
                  cases hg
                · rw [hsent] at hg
                  obtain rfl := List.mem_singleton.mp hg
                  exact stopsWithin_forwarded hnext copied path fields
    · rw [if_neg ho, add_zero] at hcount
      refine ⟨hcount.trans_le hbounded.count, fun g hg hgo => ?_⟩
      change ∃ k, (w.forwards ++ _).count o + k ≤ m ∧ _
      rw [hcount]
      rcases List.mem_append.mp hg with hg | hg
      · exact hbounded.flights g hg hgo
      · exact absurd ((hlaunch g hg).symm.trans hgo) ho

theorem Sound.delivered (h : Sound w) {d : JsString × Json} (hd : atTarget d = false) :
    Sound { w with delivered := w.delivered ++ [d] } := by
  refine ⟨h.single, h.known, h.forwarded, ?_, fun o m e he hm => ⟨(h.bounded o m e he hm).count, (h.bounded o m e he hm).flights⟩⟩
  change w.messages = (w.delivered ++ [d]).filter atTarget
  rw [List.filter_append, List.filter_cons_of_neg (by rw [hd]; exact Bool.false_ne_true), List.filter_nil,
    List.append_nil]
  exact h.messages

theorem sound_step {a : RoutingAction} (h : Sound w) (hstep : w.step a = some w') : Sound w' := by
  cases a with
  | route address now targetPodId message copied =>
      obtain ⟨r, hr, hstep⟩ := Option.bind_eq_some_iff.mp hstep
      obtain rfl := Option.some.inj hstep
      refine h.enters _ ?_
      rcases route_sent r now targetPodId message with hsent | ⟨dest, hsent⟩
      · rw [hsent]
        exact .inl rfl
      · rw [hsent]
        exact .inr ⟨_, rfl, rfl, fun m hm => stopsWithin_envelope (stopsWithin_envelope_iff.mp hm) copied⟩
  | forge dest envelope =>
      obtain rfl := Option.some.inj hstep
      exact h.enters w.routers (.inr ⟨_, rfl, rfl, fun m hm => hm⟩)
  | deliver i now copied =>
      obtain ⟨f, hf, hstep⟩ := Option.bind_eq_some_iff.mp hstep
      obtain ⟨htaken, hgone⟩ := h.taken hf
      have hmem := List.mem_of_getElem? hf
      dsimp only at hstep
      split at hstep
      · obtain rfl := Option.some.inj hstep
        exact htaken
      · rename_i r hr
        split at hstep
        · rename_i hthrows
          obtain rfl := Option.some.inj hstep
          exact htaken.delivered (MeshRouter.isString_eq_false_of_throws hthrows)
        · rename_i routed hrouted
          obtain rfl := Option.some.inj hstep
          exact htaken.handled hgone (h.known f hmem) (fun m e he hm => (h.bounded _ m e he hm).flights f hmem rfl)
            hrouted copied
  | change address c =>
      obtain ⟨r, hr, hstep⟩ := Option.bind_eq_some_iff.mp hstep
      obtain rfl := Option.some.inj hstep
      exact ⟨h.single, h.known, h.forwarded, h.messages,
        fun o m e he hm => ⟨(h.bounded o m e he hm).count, (h.bounded o m e he hm).flights⟩⟩

theorem sound_of_reach {routers : JsMap JsString MeshRouter}
    (h : (routingMachine routers).Reach (fun _ _ => True) w) : Sound w := by
  have hinit : Sound (routingMachine routers).init :=
    ⟨List.nodup_nil, fun f hf => (by cases hf), fun o ho => (by cases ho), rfl, fun o m e he => (by cases he)⟩
  exact h.invariant hinit fun w a w' hI _ hstep => sound_step hI hstep

/-! ### Loops -/

/-- A router whose route to `target` leads back to itself. -/
def loopRouter (maxTTL : ℕ) (target : JsString) : MeshRouter :=
  ⟨⟨target ++ [97], List.append_ne_nil_of_right_ne_nil _ (List.cons_ne_nil _ _)⟩,
    JsMap.empty.set target ⟨target, js "a", .ofNat 1, 0, .posInf⟩, .empty, true, .ofNat maxTTL, .ofNat 60000⟩

variable {target : JsString}

theorem handle_loop {m : ℕ} {fields : List (JsString × Json)} {path : List Json} {x : JsNumber}
    (hto : assoc (js "to") fields = some (.string target)) (hx : MeshRouter.ttlNumber (.object fields) = some x)
    (hpath : MeshRouter.pathItems (.object fields) = some path) (hlive : (x.sub (.ofNat 1)).le 0 = false) :
    (loopRouter m target).handleRoutedMessage 0 (.object fields) =
      some ⟨loopRouter m target, [(js "a", (loopRouter m target).forwarded (x.sub (.ofNat 1)) path fields)],
        [.forward ((loopRouter m target).forwarded (x.sub (.ofNat 1)) path fields)]⟩ := by
  have hlocal : ¬ Json.isString (loopRouter m target).localPodId (assoc (js "to") fields) = true := by
    rw [hto]
    intro heq
    have hlength := congrArg List.length (of_decide_eq_true heq)
    simp [loopRouter] at hlength
  have hroute : (loopRouter m target).routeTable.get? target = some ⟨target, js "a", .ofNat 1, 0, .posInf⟩ := by
    unfold loopRouter
    rw [JsMap.get?_set, if_pos rfl]
  have hdirect : ¬ (loopRouter m target).directPeers.has target = true := fun heq => (by cases heq)
  have hvalid : (0 : JsNumber).lt .posInf = true ∧ (loopRouter m target).forwards = true := ⟨by decide, rfl⟩
  unfold MeshRouter.handleRoutedMessage
  dsimp only
  rw [if_neg hlocal, hx, Option.bind_eq_bind, Option.bind_some, hlive, if_neg Bool.false_ne_true, hpath,
    Option.bind_eq_bind, Option.bind_some, hto]
  unfold MeshRouter.forwardTo
  dsimp only
  rw [if_neg hdirect, hroute]
  dsimp only
  rw [if_pos hvalid]
  rfl

/-- On its way to a router whose route is a loop. -/
structure Looping (m : ℕ) (target : JsString) (w : RoutingNetwork) (envelope : Json) (x : JsNumber) : Prop where
  router : w.routers.get? (js "a") = some (loopRouter m target)
  flights : w.flights = [⟨0, js "a", envelope⟩]
  target : envelope.field (js "to") = some (.string target)
  path : MeshRouter.pathItems envelope ≠ none
  ttl : MeshRouter.ttlNumber envelope = some x

theorem Looping.step {m : ℕ} {envelope : Json} {x : JsNumber} (h : Looping m target w envelope x)
    (hlive : (x.sub (.ofNat 1)).le 0 = false) : ∃ w' envelope', w.step (.deliver 0 0 false) = some w' ∧
      w'.entered = w.entered ∧ w'.forwards = w.forwards ++ [0] ∧ Looping m target w' envelope' (x.sub (.ofNat 1)) := by
  cases envelope with
  | object fields =>
      obtain ⟨path, hpath⟩ := Option.ne_none_iff_exists'.mp h.path
      have hhandled := handle_loop (m := m) h.target h.ttl hpath hlive
      let f : Flight := ⟨0, js "a", .object fields⟩
      let next := (loopRouter m target).forwarded (x.sub (.ofNat 1)) path fields
      refine ⟨RoutingNetwork.handled { w with
          flights := [], delivered := w.delivered ++ [((loopRouter m target).localPodId.val, f.envelope)] }
        f (loopRouter m target) false ⟨loopRouter m target, [(js "a", next)], [.forward next]⟩, next, ?_, rfl, rfl, ?_⟩
      · simp only [RoutingNetwork.step, h.flights, List.getElem?_cons_zero, Option.bind_eq_bind, Option.bind_some,
          h.router, hhandled]
        rfl
      · refine ⟨?_, ?_, ?_, ?_, MeshRouter.ttlNumber_forwarded _ _ _⟩
        · exact (JsMap.get?_set _ _ _ _).trans (if_pos rfl)
        · rfl
        · change assoc (js "to") (Json.setField _ _ (Json.setField _ _ fields)) = _
          rw [Json.assoc_setField, if_neg (by decide), Json.assoc_setField, if_neg (by decide)]
          exact h.target
        · have hfield : ((loopRouter m target).forwarded (x.sub (.ofNat 1)) path fields).field (js "path") =
              some (.array (path ++ [.string (loopRouter m target).localPodId])) := by
            change assoc (js "path") (Json.setField _ _ _) = _
            rw [Json.assoc_setField, if_pos rfl]
          unfold MeshRouter.pathItems
          rw [hfield]
          exact fun heq => by cases heq
  | null => cases h.target
  | bool b => cases h.target
  | number n => cases h.target
  | string s => cases h.target
  | array items => cases h.target

/-- What does not stop within `k` is forwarded `k + 1` times more. -/
theorem Looping.run {routers : JsMap JsString MeshRouter} {m : ℕ} {k : ℕ} {envelope : Json} {x : JsNumber}
    (hw : (routingMachine routers).Reach (fun _ _ => True) w) (h : Looping m target w envelope x)
    (hx : JsNumber.lastCount k < x) : ∃ w', (routingMachine routers).Reach (fun _ _ => True) w' ∧
      w'.entered = w.entered ∧ w'.forwards.count 0 = w.forwards.count 0 + (k + 1) := by
  induction k generalizing w envelope x with
  | zero =>
      obtain ⟨w', envelope', hstep, hentered, hforwards, -⟩ := h.step (JsNumber.sub_one_le_eq_false hx)
      refine ⟨w', .step hw (a := .deliver 0 0 false) trivial hstep, hentered, ?_⟩
      rw [hforwards, List.count_append]
      rfl
  | succ k ih =>
      obtain ⟨w', envelope', hstep, hentered, hforwards, hloop⟩ := h.step (JsNumber.sub_one_le_eq_false hx)
      obtain ⟨w'', hw'', hentered'', hcount⟩ := ih (.step hw (a := .deliver 0 0 false) trivial hstep) hloop (JsNumber.lastCount_lt_sub_one hx)
      refine ⟨w'', hw'', hentered''.trans hentered, ?_⟩
      rw [hcount, hforwards, List.count_append]
      change _ + 1 + (k + 1) = _
      omega

/-- An envelope that does not stop within `m` goes further in a loop of a router whose `maxTTL` is `m`. -/
theorem exists_of_not_stopsWithin {m : ℕ} {e : Json} (h : ¬ StopsWithin m e) :
    ∃ routers w, (routingMachine routers).Reach (fun _ _ => True) w ∧ w.entered[0]? = some e ∧
      m < w.forwards.count 0 := by
  unfold StopsWithin at h
  push Not at h
  obtain ⟨⟨⟨target, hto⟩, hpath⟩, x, hx, hlt⟩ := h
  let routers : JsMap JsString MeshRouter := JsMap.empty.set (js "a") (loopRouter m target)
  let w : RoutingNetwork := ⟨routers, [⟨0, js "a", e⟩], [e], [], [], []⟩
  have hw : (routingMachine routers).Reach (fun _ _ => True) w := .step .init (a := .forge (js "a") e) trivial rfl
  have hloop : Looping m target w e x := ⟨(JsMap.get?_set _ _ _ _).trans (if_pos rfl), rfl, hto, hpath, hx⟩
  obtain ⟨w', hw', hentered, hcount⟩ := hloop.run hw hlt
  refine ⟨routers, w', hw', by rw [hentered]; rfl, ?_⟩
  rw [hcount]
  exact Nat.lt_of_lt_of_le (Nat.lt_succ_self m) (Nat.le_add_left _ _)

end RoutingNetwork

/-- An envelope is forwarded at most `m` times further, in every network and whatever else happens, exactly when it
stops within `m`; one from `route()` does when `m` is the `maxTTL` of its router.  And `message` is emitted for the
deliveries to the own pod, once for each. -/
theorem routed_messages_stop (m : ℕ) (e : Json) :
    ((∀ routers w, (routingMachine routers).Reach (fun _ _ => True) w → ∀ o, w.entered[o]? = some e →
        w.forwards.count o ≤ m) ↔ StopsWithin m e) ∧
    (∀ (r : MeshRouter) (targetPodId : JsString) (message : Json), r.maxTTL = .ofNat m → m < 2 ^ 53 →
      StopsWithin m (r.envelope targetPodId message)) ∧
    ∀ routers w, (routingMachine routers).Reach (fun _ _ => True) w → w.messages = w.delivered.filter atTarget := by
  refine ⟨⟨fun h => ?_, fun hstops routers w hw o ho => ?_⟩, fun r targetPodId message hmax hm => ?_,
    fun routers w hw => (RoutingNetwork.sound_of_reach hw).messages⟩
  · by_contra hstops
    obtain ⟨routers, w, hw, hentered, hlt⟩ := RoutingNetwork.exists_of_not_stopsWithin hstops
    exact absurd (h routers w hw 0 hentered) (not_le.mpr hlt)
  · exact ((RoutingNetwork.sound_of_reach hw).bounded o m e ho hstops).count
  · rw [stopsWithin_envelope_iff, hmax]
    unfold JsNumber.lastCount
    rw [if_pos hm, JsNumber.ofNat_eq hm.le, JsNumber.ofNat_eq (by omega)]
    exact JsNumber.fin_le_fin.mpr (Int.ofNat_le.mpr (Nat.mul_le_mul_right _ (Nat.le_succ m)))

/-- Two routers whose routes to `c` lead to each other. -/
def loopOfTwo : JsMap JsString MeshRouter :=
  let router (podId : NonEmptyString) (nextHop : JsString) : MeshRouter :=
    ⟨podId, JsMap.empty.set (js "c") ⟨js "c", nextHop, .ofNat 1, 0, .posInf⟩, .empty, true, .ofNat 8, .ofNat 60000⟩
  (JsMap.empty.set (js "a") (router ⟨js "a", by decide⟩ (js "b"))).set (js "b") (router ⟨js "b", by decide⟩ (js "a"))

/-- A forged TTL above their `maxTTL` is forwarded nine times. -/
theorem routed_messages_go_on : (∀ r ∈ loopOfTwo.values, r.maxTTL = .ofNat 8) ∧
    ¬ ∀ w, (routingMachine loopOfTwo).Reach (fun _ _ => True) w → ∀ o, o < w.entered.length → w.forwards.count o ≤ 8 := by
  refine ⟨by decide +kernel, fun h => ?_⟩
  obtain ⟨w, -, hw, hentered, hcount⟩ := Machine.exists_of_run
    (P := fun w : RoutingNetwork => 0 < w.entered.length ∧ w.forwards.count 0 = 9)
    (show ((routingMachine loopOfTwo).run (fun _ _ => True) (routingMachine loopOfTwo).init
      (.forge (js "a") (.object [(js "to", .string (js "c")), (js "ttl", .number (.ofNat 100))]) ::
        List.replicate 9 (.deliver 0 0 true))).any _ = true by decide +kernel)
  exact absurd (h w hw 0 hentered) (by rw [hcount]; decide)

end BrowserMesh.Apps
