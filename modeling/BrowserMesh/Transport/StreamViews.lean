import BrowserMesh.Transport.Streams

/-! # One stream of a link

* **Views.**  What an end has of one stream, and what is on the link for it (`view`, `bodies`).
* **Steps.**  A call, a callback that returns and a message change the view of their own stream only, in one of the
  ways that `Acts` and `Hears` list.
* **Rule.**  A relation between the two views of every stream that each step keeps is an invariant of the link
  (`eachStream_step`). -/

namespace BrowserMesh.Transport
open Js Guards Link Transition

/-- What an end has of a stream; `running` and `ending` are its calls of `onCredits` and `onEnd`. -/
structure StreamView where
  stream : Option MeshStream
  written : List Payload
  heard : List StreamEvent
  initial : Option JsNumber
  running : Bool
  ending : Bool
  deleted : Bool

namespace StreamView

def put (v : StreamView) (s : MeshStream) : StreamView := { v with stream := some s }

def delete (v : StreamView) : StreamView := { v with deleted := true }

def start (v : StreamView) (s : MeshStream) : StreamView :=
  { v with stream := some s, initial := some s.sendCredits, deleted := false }

end StreamView

/-- What is on the link for a stream. -/
def bodies (q : List StreamMessage) (id : JsString) : List StreamBody :=
  (q.filter fun m => m.streamId = id).map StreamMessage.body

@[simp] theorem bodies_nil (id : JsString) : bodies [] id = [] := rfl

theorem bodies_append (q q' : List StreamMessage) (id : JsString) : bodies (q ++ q') id = bodies q id ++ bodies q' id := by
  rw [bodies, List.filter_append, List.map_append]
  rfl

theorem bodies_cons_self (m : StreamMessage) (q : List StreamMessage) :
    bodies (m :: q) m.streamId = m.body :: bodies q m.streamId := by
  rw [bodies, List.filter_cons_of_pos (by simp)]
  rfl

theorem bodies_cons_of_ne {m : StreamMessage} {id : JsString} (h : id ≠ m.streamId) (q : List StreamMessage) :
    bodies (m :: q) id = bodies q id := by
  rw [bodies, List.filter_cons_of_neg (by simpa using Ne.symm h)]
  rfl

theorem bodies_map_mk (id id' : JsString) (sent : List StreamBody) :
    bodies (sent.map (StreamMessage.mk id)) id' = if id' = id then sent else [] := by
  induction sent with
  | nil => split_ifs <;> rfl
  | cons b sent ih =>
      by_cases h : id' = id
      · subst h
        rw [if_pos rfl] at ih ⊢
        rw [List.map_cons, bodies_cons_self (StreamMessage.mk id' b)]
        exact congrArg _ ih
      · rw [if_neg h] at ih ⊢
        rw [List.map_cons, bodies_cons_of_ne (m := StreamMessage.mk id b) h]
        exact ih

namespace StreamEnd

/-- The data that was written to a stream. -/
def writtenTo (x : StreamEnd) (id : JsString) : List Payload := (x.written.filter fun w => w.1 = id).map Prod.snd

/-- The callbacks that were called for a stream. -/
def heardOf (x : StreamEnd) (id : JsString) : List StreamEvent := (x.heard.filter fun e => e.1 = id).map Prod.snd

def view (x : StreamEnd) (id : JsString) : StreamView :=
  ⟨x.stream? id, x.writtenTo id, x.heardOf id, x.initial.get? id, decide (.onCredits id ∈ x.running),
    decide (.onEnd id ∈ x.running), decide (id ∈ x.mux.deleted)⟩

/-- The ways in which the stream of an action changes. -/
def Acts (x : StreamEnd) : StreamAction → StreamView → List StreamBody → Prop
  | .openStream id initialCredits maxSize, v', sent => v' = x.view id ∧ sent = [] ∨
      ∃ s, x.mux.openStream initialCredits maxSize = .ok s ∧ v' = (x.view id).start s ∧ sent = [.opened s.sendCredits]
  | .write id bytes, v', sent => ∃ s, x.stream? id = some s ∧ (v' = x.view id ∧ sent = [] ∨
      ∃ r, s.write bytes = .ok r ∧
        v' = { (x.view id).put r.1 with written := (x.view id).written ++ [bytes] } ∧ sent = r.2)
  | .endStream id, v', sent => ∃ s, x.stream? id = some s ∧ v' = (x.view id).put s.endStream.1 ∧ sent = s.endStream.2
  | .cancel id reason, v', sent => ∃ s, x.stream? id = some s ∧ (s.cancel reason = none ∧ v' = x.view id ∧ sent = [] ∨
      ∃ r, s.cancel reason = some r ∧ sent = r.2 ∧
        v' = if s.state = .idle then (x.view id).put r.1 else ((x.view id).put r.1).delete)
  | .close id, v', sent => ∃ s, x.stream? id = some s ∧ (x.view id).deleted = false ∧ sent = s.endStream.2 ∧
      v' = if s.endStream.1.state = .closed then ((x.view id).put s.endStream.1).delete
        else (x.view id).put s.endStream.1
  | .closeOne id, v', sent => ∃ s, x.stream? id = some s ∧ (x.view id).deleted = false ∧
      (s.cancel (js "Multiplexer closing all streams") = none ∧ v' = (x.view id).delete ∧ sent = [] ∨
        ∃ r, s.cancel (js "Multiplexer closing all streams") = some r ∧ sent = r.2 ∧
          v' = ((x.view id).put r.1).delete)
  | .grantCredits id n, v', sent => ∃ s, x.stream? id = some s ∧ (v' = x.view id ∧ sent = [] ∨
      ∃ r, s.grantCredits n = .ok r ∧ v' = (x.view id).put r.1 ∧ sent = r.2)
  | .goOn (.onCredits id), v', sent => ∃ s, x.stream? id = some s ∧
      ((∃ r, s.drain = some r ∧ v' = (x.view id).put r.1 ∧ sent = r.2) ∨
        s.drain = none ∧ (∃ b, v' = { x.view id with running := b }) ∧ sent = [])
  | .goOn (.onEnd id), v', sent => ∃ s, x.stream? id = some s ∧ sent = [] ∧
      ∃ b, s.state ≠ .closed ∧ v' = { x.view id with ending := b } ∨
        s.state = .closed ∧ v' = { (x.view id).delete with ending := b }
  | .fails (.onCredits id), v', sent => sent = [] ∧ ∃ b, v' = { x.view id with running := b }
  | .fails (.onEnd id), v', sent => sent = [] ∧ ∃ b, v' = { x.view id with ending := b }
  | .forge id n, v', sent => v' = x.view id ∧ sent = [.windowUpdate n]

/-- The ways in which a message changes its stream. -/
def Hears (x : StreamEnd) (id : JsString) : StreamBody → StreamView → List StreamBody → Prop
  | .opened c, v', sent => v' = x.view id ∧ sent = [] ∧ (x.stream? id).isSome = true ∨
      x.mux.defaults.maxConcurrentStreams ≤ x.mux.activeCount ∧ v' = x.view id ∧
        (∃ code message retryable, sent = [.error code message retryable]) ∨
      v' = (x.view id).start (MeshStream.new c STREAM_DEFAULTS.maxStreamSize).markOpen ∧ sent = []
  | body, v', sent => (x.stream? id = none ∨ (x.view id).deleted = true) ∧ v' = x.view id ∧
      (∃ code message retryable, sent = [.error code message retryable]) ∨
    ∃ s, x.stream? id = some s ∧ (x.view id).deleted = false ∧ sent = [] ∧
      match body with
      | .data bytes seq => s.receiveData bytes seq = none ∧ v' = x.view id ∨
          ∃ s', s.receiveData bytes seq = some s' ∧
            v' = { (x.view id).put s' with heard := (x.view id).heard ++ [.data bytes] }
      | .ended _ => s.receiveEnd = none ∧ v' = (x.view id).delete ∨
          ∃ s', s.receiveEnd = some s' ∧
            v' = { (x.view id).put s' with heard := (x.view id).heard ++ [.ended], ending := true }
      | .windowUpdate n => v' = { (x.view id).put (s.receiveCredits n) with running := true }
      | _ => v' = ((x.view id).put s.receiveError).delete

/-! ### The views after a step -/

variable {x : StreamEnd} {id : JsString}

theorem view_update (x : StreamEnd) (id : JsString) (r : MeshStream × List StreamBody) (id' : JsString) :
    (x.update id r).1.view id' = if id' = id then (x.view id).put r.1 else x.view id' := by
  have hstream : (x.update id r).1.stream? id' = if id' = id then some r.1 else x.stream? id' :=
    JsMap.get?_set x.mux.streams id r.1 id'
  split_ifs with h
  · subst h
    rw [if_pos rfl] at hstream
    rw [view, hstream]
    rfl
  · rw [if_neg h] at hstream
    rw [view, hstream]
    rfl

theorem bodies_update (x : StreamEnd) (id : JsString) (r : MeshStream × List StreamBody) (id' : JsString) :
    bodies (x.update id r).2 id' = if id' = id then r.2 else [] := bodies_map_mk id id' r.2

theorem view_start (x : StreamEnd) (id : JsString) (s : MeshStream) (id' : JsString) :
    (x.start id s).view id' = if id' = id then (x.view id).start s else x.view id' := by
  have hstream : (x.start id s).stream? id' = if id' = id then some s else x.stream? id' :=
    JsMap.get?_set x.mux.streams id s id'
  have hinitial : (x.start id s).initial.get? id' = if id' = id then some s.sendCredits else x.initial.get? id' :=
    JsMap.get?_set x.initial id s.sendCredits id'
  have hdeleted : decide (id' ∈ (x.start id s).mux.deleted) = if id' = id then false else decide (id' ∈ x.mux.deleted) := by
    change decide (id' ∈ x.mux.deleted.filter fun id'' => id'' ≠ id) = _
    split_ifs with h
    · exact decide_eq_false (by simp [h])
    · exact decide_eq_decide.mpr (by simp [h])
  split_ifs with h
  · subst h
    rw [if_pos rfl] at hstream hinitial hdeleted
    rw [view, hstream, hinitial, hdeleted]
    rfl
  · rw [if_neg h] at hstream hinitial hdeleted
    rw [view, hstream, hinitial, hdeleted]
    rfl

theorem filter_snoc_fst {α : Type} (l : List (JsString × α)) (id id' : JsString) (a : α) :
    (((l ++ [(id, a)]).filter fun e => e.1 = id').map Prod.snd) =
      ((l.filter fun e => e.1 = id').map Prod.snd) ++ if id' = id then [a] else [] := by
  rw [List.filter_append, List.map_append]
  by_cases h : id' = id
  · rw [if_pos h, List.filter_cons_of_pos (by simpa using h.symm)]
    rfl
  · rw [if_neg h, List.filter_cons_of_neg (by simpa using Ne.symm h)]
    rfl

theorem view_erase (x : StreamEnd) (callback : StreamCallback) (id : JsString)
    (h : id ≠ callback.streamId) : ({ x with running := x.running.erase callback } : StreamEnd).view id = x.view id := by
  have hkept : ∀ callback' : StreamCallback, callback'.streamId = id →
      decide (callback' ∈ x.running.erase callback) = decide (callback' ∈ x.running) := by
    intro callback' hid
    refine decide_eq_decide.mpr (List.mem_erase_of_ne ?_)
    rintro rfl
    exact h hid.symm
  rw [view, view]
  dsimp only
  rw [hkept (.onCredits id) rfl, hkept (.onEnd id) rfl]
  rfl

theorem view_erase_onCredits (x : StreamEnd) (id : JsString) :
    ∃ b, ({ x with running := x.running.erase (.onCredits id) } : StreamEnd).view id = { x.view id with running := b } := by
  have hending : decide (StreamCallback.onEnd id ∈ x.running.erase (.onCredits id)) =
      decide (StreamCallback.onEnd id ∈ x.running) :=
    decide_eq_decide.mpr (List.mem_erase_of_ne fun h => (by cases h))
  refine ⟨decide (.onCredits id ∈ x.running.erase (.onCredits id)), ?_⟩
  rw [view, view]
  dsimp only
  rw [hending]
  rfl

theorem view_erase_onEnd (x : StreamEnd) (id : JsString) :
    ∃ b, ({ x with running := x.running.erase (.onEnd id) } : StreamEnd).view id = { x.view id with ending := b } := by
  have hrunning : decide (StreamCallback.onCredits id ∈ x.running.erase (.onEnd id)) =
      decide (StreamCallback.onCredits id ∈ x.running) :=
    decide_eq_decide.mpr (List.mem_erase_of_ne fun h => (by cases h))
  refine ⟨decide (.onEnd id ∈ x.running.erase (.onEnd id)), ?_⟩
  rw [view, view]
  dsimp only
  rw [hrunning]
  rfl

theorem view_delete (x : StreamEnd) (id id' : JsString) :
    (x.delete id).view id' = if id' = id then (x.view id).delete else x.view id' := by
  have hdeleted : decide (id' ∈ (x.delete id).mux.deleted) =
      if id' = id then true else decide (id' ∈ x.mux.deleted) := by
    change decide (id' ∈ id :: x.mux.deleted) = _
    split_ifs with h
    · exact decide_eq_true (by simp [h])
    · exact decide_eq_decide.mpr (by simp [h])
  rw [view, hdeleted]
  split_ifs with h
  · rw [h]
    rfl
  · rfl

theorem getStream_eq_some {s : MeshStream} (h : x.mux.getStream id = some s) :
    x.stream? id = some s ∧ (x.view id).deleted = false := by
  rw [StreamMultiplexer.getStream] at h
  split_ifs at h with hdeleted
  exact ⟨h, decide_eq_false hdeleted⟩

theorem getStream_eq_none (h : x.mux.getStream id = none) : x.stream? id = none ∨ (x.view id).deleted = true := by
  rw [StreamMultiplexer.getStream] at h
  split_ifs at h with hdeleted
  · exact Or.inr (decide_eq_true hdeleted)
  · exact Or.inl h

/-- An action changes its own stream only, in one of these ways. -/
theorem acts {a : StreamAction} {r : StreamEnd × List StreamMessage} (h : x.act a = some r) :
    x.Acts a (r.1.view a.streamId) (bodies r.2 a.streamId) ∧
      ∀ id, id ≠ a.streamId → r.1.view id = x.view id ∧ bodies r.2 id = [] := by
  have hupdate : ∀ id r, (x.update id r).1.view id = (x.view id).put r.1 ∧ bodies (x.update id r).2 id = r.2 ∧
      ∀ id', id' ≠ id → (x.update id r).1.view id' = x.view id' ∧ bodies (x.update id r).2 id' = [] := by
    intro id r
    refine ⟨?_, ?_, fun id' hne => ⟨?_, ?_⟩⟩
    · rw [view_update, if_pos rfl]
    · rw [bodies_update, if_pos rfl]
    · rw [view_update, if_neg hne]
    · rw [bodies_update, if_neg hne]
  have hdelete : ∀ (y : StreamEnd) id, (y.delete id).view id = (y.view id).delete ∧
      ∀ id', id' ≠ id → (y.delete id).view id' = y.view id' :=
    fun y id => ⟨(view_delete y id id).trans (if_pos rfl), fun id' hne => (view_delete y id id').trans (if_neg hne)⟩
  have hsame : ∀ id : JsString, id ≠ a.streamId → x.view id = x.view id ∧ bodies [] id = [] := fun _ _ => ⟨rfl, rfl⟩
  cases a with
  | openStream id initialCredits maxSize =>
      cases h
      cases hopen : x.mux.openStream initialCredits maxSize with
      | error e => exact ⟨Or.inl ⟨rfl, rfl⟩, hsame⟩
      | ok s =>
          refine ⟨Or.inr ⟨s, hopen, ?_, ?_⟩, fun id' hne => ⟨?_, ?_⟩⟩
          · exact (view_start x id s id).trans (if_pos rfl)
          · exact (bodies_map_mk id id [_]).trans (if_pos rfl)
          · exact (view_start x id s id').trans (if_neg hne)
          · exact (bodies_map_mk id id' [_]).trans (if_neg hne)
  | write id bytes =>
      obtain ⟨s, hs, rfl⟩ := Option.map_eq_some_iff.mp h
      cases hwrite : s.write bytes with
      | error e => exact ⟨⟨s, hs, Or.inl ⟨rfl, rfl⟩⟩, hsame⟩
      | ok r =>
          obtain ⟨hself, hsent, hother⟩ := hupdate id r
          have hview : ∀ id', ({ (x.update id r).1 with written := x.written ++ [(id, bytes)] } : StreamEnd).view id' =
              { (x.update id r).1.view id' with
                written := (x.view id').written ++ if id' = id then [bytes] else [] } := by
            intro id'
            rw [view, writtenTo, filter_snoc_fst]
            rfl
          refine ⟨⟨s, hs, Or.inr ⟨r, hwrite, (hview id).trans ?_, hsent⟩⟩,
            fun id' hne => ⟨(hview id').trans ?_, (hother id' hne).2⟩⟩
          · rw [hself, if_pos rfl]
          · rw [(hother id' hne).1, if_neg (show ¬ id' = id from hne), List.append_nil]
  | endStream id =>
      obtain ⟨s, hs, rfl⟩ := Option.map_eq_some_iff.mp h
      obtain ⟨hself, hsent, hother⟩ := hupdate id s.endStream
      exact ⟨⟨s, hs, hself, hsent⟩, hother⟩
  | cancel id reason =>
      obtain ⟨s, hs, rfl⟩ := Option.map_eq_some_iff.mp h
      rw [cancel]
      cases hcancel : s.cancel reason with
      | none => exact ⟨⟨s, hs, Or.inl ⟨hcancel, rfl, rfl⟩⟩, hsame⟩
      | some r =>
          obtain ⟨hself, hsent, hother⟩ := hupdate id r
          dsimp only
          by_cases hidle : s.state = .idle
          · rw [if_pos hidle]
            exact ⟨⟨s, hs, Or.inr ⟨r, hcancel, hsent, hself.trans (if_pos hidle).symm⟩⟩, hother⟩
          · obtain ⟨hdeleted, hkept⟩ := hdelete (x.update id r).1 id
            rw [if_neg hidle]
            refine ⟨⟨s, hs, Or.inr ⟨r, hcancel, hsent, hdeleted.trans ?_⟩⟩,
              fun id' hne => ⟨(hkept id' hne).trans (hother id' hne).1, (hother id' hne).2⟩⟩
            rw [hself]
            exact (if_neg hidle).symm
  | close id =>
      obtain ⟨s, hs, rfl⟩ := Option.map_eq_some_iff.mp h
      obtain ⟨hstream, hlisted⟩ := getStream_eq_some hs
      obtain ⟨hself, hsent, hother⟩ := hupdate id s.endStream
      dsimp only
      by_cases hclosed : s.endStream.1.state = .closed
      · obtain ⟨hdeleted, hkept⟩ := hdelete (x.update id s.endStream).1 id
        rw [if_pos hclosed]
        refine ⟨⟨s, hstream, hlisted, hsent, hdeleted.trans ?_⟩,
          fun id' hne => ⟨(hkept id' hne).trans (hother id' hne).1, (hother id' hne).2⟩⟩
        rw [hself]
        exact (if_pos hclosed).symm
      · rw [if_neg hclosed]
        exact ⟨⟨s, hstream, hlisted, hsent, hself.trans (if_neg hclosed).symm⟩, hother⟩
  | closeOne id =>
      obtain ⟨s, hs, rfl⟩ := Option.map_eq_some_iff.mp h
      obtain ⟨hstream, hlisted⟩ := getStream_eq_some hs
      dsimp only
      rw [cancel]
      cases hcancel : s.cancel (js "Multiplexer closing all streams") with
      | none =>
          obtain ⟨hdeleted, hkept⟩ := hdelete x id
          exact ⟨⟨s, hstream, hlisted, Or.inl ⟨hcancel, hdeleted, rfl⟩⟩, fun id' hne => ⟨hkept id' hne, rfl⟩⟩
      | some r =>
          obtain ⟨hself, hsent, hother⟩ := hupdate id r
          dsimp only
          have hview : ∀ y : StreamEnd, y = (x.update id r).1 ∨ y = (x.update id r).1.delete id →
              (y.delete id).view id = ((x.view id).put r.1).delete ∧
                ∀ id', id' ≠ id → (y.delete id).view id' = x.view id' := by
            rintro y hy
            obtain ⟨hdeleted, hkept⟩ := hdelete y id
            rcases hy with rfl | rfl
            · exact ⟨hdeleted.trans (by rw [hself]), fun id' hne => (hkept id' hne).trans (hother id' hne).1⟩
            · obtain ⟨hdeleted', hkept'⟩ := hdelete (x.update id r).1 id
              refine ⟨hdeleted.trans ?_, fun id' hne =>
                (hkept id' hne).trans ((hkept' id' hne).trans (hother id' hne).1)⟩
              rw [hdeleted', hself]
              rfl
          by_cases hidle : s.state = .idle
          · rw [if_pos hidle]
            obtain ⟨hnew, hold⟩ := hview _ (Or.inl rfl)
            exact ⟨⟨s, hstream, hlisted, Or.inr ⟨r, hcancel, hsent, hnew⟩⟩,
              fun id' hne => ⟨hold id' hne, (hother id' hne).2⟩⟩
          · rw [if_neg hidle]
            obtain ⟨hnew, hold⟩ := hview _ (Or.inr rfl)
            exact ⟨⟨s, hstream, hlisted, Or.inr ⟨r, hcancel, hsent, hnew⟩⟩,
              fun id' hne => ⟨hold id' hne, (hother id' hne).2⟩⟩
  | grantCredits id n =>
      obtain ⟨s, hs, rfl⟩ := Option.map_eq_some_iff.mp h
      cases hgrant : s.grantCredits n with
      | error e => exact ⟨⟨s, hs, Or.inl ⟨rfl, rfl⟩⟩, hsame⟩
      | ok r =>
          obtain ⟨hself, hsent, hother⟩ := hupdate id r
          exact ⟨⟨s, hs, Or.inr ⟨r, hgrant, hself, hsent⟩⟩, hother⟩
  | goOn callback =>
      rw [act] at h
      split_ifs at h
      obtain ⟨s, hs, rfl⟩ := Option.map_eq_some_iff.mp h
      cases callback with
      | onCredits id =>
          rw [goOn]
          cases hdrain : s.drain with
          | some r =>
              obtain ⟨hself, hsent, hother⟩ := hupdate id r
              exact ⟨⟨s, hs, Or.inl ⟨r, hdrain, hself, hsent⟩⟩, hother⟩
          | none => exact ⟨⟨s, hs, Or.inr ⟨hdrain, view_erase_onCredits x id, rfl⟩⟩,
              fun id' hne => ⟨view_erase x _ id' hne, rfl⟩⟩
      | onEnd id =>
          rw [goOn]
          by_cases hclosed : s.state = .closed
          · rw [if_pos hclosed]
            obtain ⟨b, hb⟩ := view_erase_onEnd (x.delete id) id
            refine ⟨⟨s, hs, rfl, b, Or.inr ⟨hclosed, ?_⟩⟩, fun id' hne => ⟨?_, rfl⟩⟩
            · rw [view_delete, if_pos rfl] at hb
              exact hb
            · exact (view_erase (x.delete id) (.onEnd id) id' hne).trans ((view_delete x id id').trans (if_neg hne))
          · rw [if_neg hclosed]
            obtain ⟨b, hb⟩ := view_erase_onEnd x id
            exact ⟨⟨s, hs, rfl, b, Or.inl ⟨hclosed, hb⟩⟩, fun id' hne => ⟨view_erase x _ id' hne, rfl⟩⟩
  | fails callback =>
      rw [act] at h
      split_ifs at h
      cases h
      cases callback with
      | onCredits id => exact ⟨⟨rfl, view_erase_onCredits x id⟩, fun id' hne => ⟨view_erase x _ id' hne, rfl⟩⟩
      | onEnd id => exact ⟨⟨rfl, view_erase_onEnd x id⟩, fun id' hne => ⟨view_erase x _ id' hne, rfl⟩⟩
  | forge id n =>
      cases h
      refine ⟨⟨rfl, (bodies_map_mk id id [_]).trans (if_pos rfl)⟩, fun id' hne => ⟨rfl, ?_⟩⟩
      exact (bodies_map_mk id id' [_]).trans (if_neg hne)

variable {body : StreamBody}

theorem dispatch_of_unlisted (h : x.mux.getStream id = none) (hbody : ∀ c, body ≠ .opened c) :
    x.dispatch ⟨id, body⟩ = (x, [⟨id, .error (js "INTERNAL") (js "Unknown stream ID") false⟩]) := by
  cases body with
  | opened c => exact absurd rfl (hbody c)
  | data bytes seq => simp only [dispatch, h]
  | ended totalBytes => simp only [dispatch, h]
  | error code message retryable => simp only [dispatch, h]
  | windowUpdate n => simp only [dispatch, h]

theorem dispatch_of_listed {s : MeshStream} (h : x.mux.getStream id = some s)
    (hbody : ∀ c, body ≠ .opened c) : x.dispatch ⟨id, body⟩ = (x.route id s body, []) := by
  cases body with
  | opened c => exact absurd rfl (hbody c)
  | data bytes seq => simp only [dispatch, h]
  | ended totalBytes => simp only [dispatch, h]
  | error code message retryable => simp only [dispatch, h]
  | windowUpdate n => simp only [dispatch, h]

theorem view_heard (x : StreamEnd) (id : JsString) (event : StreamEvent) (running : List StreamCallback) (id' : JsString) :
    ({ x with heard := x.heard ++ [(id, event)], running } : StreamEnd).view id' =
      { x.view id' with
        heard := (x.view id').heard ++ if id' = id then [event] else []
        running := decide (.onCredits id' ∈ running)
        ending := decide (.onEnd id' ∈ running) } := by
  rw [view, heardOf, filter_snoc_fst]
  rfl

theorem route_view (x : StreamEnd) (id : JsString) (s : MeshStream) (hs : x.stream? id = some s)
    (hlisted : (x.view id).deleted = false) (hbody : ∀ c, body ≠ .opened c) :
    x.Hears id body ((x.route id s body).view id) [] ∧
      ∀ id', id' ≠ id → (x.route id s body).view id' = x.view id' := by
  have hupdate : ∀ s', (x.update id (s', [])).1.view id = (x.view id).put s' ∧
      ∀ id', id' ≠ id → (x.update id (s', [])).1.view id' = x.view id' :=
    fun s' => ⟨(view_update x id (s', []) id).trans (if_pos rfl),
      fun id' hne => (view_update x id (s', []) id').trans (if_neg hne)⟩
  have hheard : ∀ s' event running id', ({ (x.update id (s', [])).1 with
        heard := x.heard ++ [(id, event)], running } : StreamEnd).view id' =
      { (x.update id (s', [])).1.view id' with
        heard := ((x.update id (s', [])).1.view id').heard ++ if id' = id then [event] else []
        running := decide (.onCredits id' ∈ running)
        ending := decide (.onEnd id' ∈ running) } := fun s' event running id' => view_heard _ id event running id'
  cases body with
  | opened c => exact absurd rfl (hbody c)
  | data bytes seq =>
      rw [route]
      cases hdata : s.receiveData bytes seq with
      | none => exact ⟨Or.inr ⟨s, hs, hlisted, rfl, Or.inl ⟨hdata, rfl⟩⟩, fun _ _ => rfl⟩
      | some s' =>
          obtain ⟨hself, hother⟩ := hupdate s'
          refine ⟨Or.inr ⟨s, hs, hlisted, rfl, Or.inr ⟨s', hdata, (hheard s' _ x.running id).trans ?_⟩⟩,
            fun id' hne => (hheard s' _ x.running id').trans ?_⟩
          · rw [hself, if_pos rfl]
            rfl
          · rw [hother id' hne, if_neg hne, List.append_nil]
            rfl
  | ended totalBytes =>
      rw [route]
      cases hend : s.receiveEnd with
      | none =>
          exact ⟨Or.inr ⟨s, hs, hlisted, rfl, Or.inl ⟨hend, (view_delete x id id).trans (if_pos rfl)⟩⟩,
            fun id' hne => (view_delete x id id').trans (if_neg hne)⟩
      | some s' =>
          obtain ⟨hself, hother⟩ := hupdate s'
          have hcredits : ∀ id', decide (StreamCallback.onCredits id' ∈ .onEnd id :: x.running) =
              (x.view id').running := fun id' => decide_eq_decide.mpr (by simp)
          refine ⟨Or.inr ⟨s, hs, hlisted, rfl, Or.inr ⟨s', hend, (hheard s' _ _ id).trans ?_⟩⟩,
            fun id' hne => (hheard s' _ _ id').trans ?_⟩
          · rw [hself, if_pos rfl, hcredits, decide_eq_true List.mem_cons_self]
            rfl
          · have hends : decide (StreamCallback.onEnd id' ∈ StreamCallback.onEnd id :: x.running) =
                (x.view id').ending := decide_eq_decide.mpr (by simp [hne])
            rw [hother id' hne, if_neg hne, List.append_nil, hcredits, hends]
  | error code message retryable =>
      obtain ⟨hself, hother⟩ := hupdate s.receiveError
      refine ⟨Or.inr ⟨s, hs, hlisted, rfl, ?_⟩, fun id' hne => ?_⟩
      · rw [route, view_delete, if_pos rfl, hself]
      · rw [route, view_delete, if_neg hne]
        exact hother id' hne
  | windowUpdate n =>
      obtain ⟨hself, hother⟩ := hupdate (s.receiveCredits n)
      have hends : ∀ id', decide (StreamCallback.onEnd id' ∈ .onCredits id :: x.running) = (x.view id').ending :=
        fun id' => decide_eq_decide.mpr (by simp)
      have hview : ∀ id', (x.route id s (.windowUpdate n)).view id' =
          { (x.update id (s.receiveCredits n, [])).1.view id' with
            running := decide (StreamCallback.onCredits id' ∈ StreamCallback.onCredits id :: x.running)
            ending := decide (StreamCallback.onEnd id' ∈ StreamCallback.onCredits id :: x.running) } :=
        fun _ => rfl
      refine ⟨Or.inr ⟨s, hs, hlisted, rfl, ?_⟩, fun id' hne => ?_⟩
      · rw [hview, hself, hends, decide_eq_true List.mem_cons_self]
        rfl
      · rw [hview, hother id' hne, hends]
        have hrunning : decide (StreamCallback.onCredits id' ∈ StreamCallback.onCredits id :: x.running) =
            (x.view id').running := decide_eq_decide.mpr (by simp [hne])
        rw [hrunning]

/-- A message changes its own stream only, in one of these ways. -/
theorem hears (x : StreamEnd) (msg : StreamMessage) :
    x.Hears msg.streamId msg.body ((x.dispatch msg).1.view msg.streamId) (bodies (x.dispatch msg).2 msg.streamId) ∧
      ∀ id, id ≠ msg.streamId → (x.dispatch msg).1.view id = x.view id ∧ bodies (x.dispatch msg).2 id = [] := by
  obtain ⟨id, body⟩ := msg
  dsimp only
  by_cases hopened : ∃ c, body = .opened c
  · obtain ⟨c, rfl⟩ := hopened
    change x.Hears id _ ((x.accept id c).1.view id) (bodies (x.accept id c).2 id) ∧
      ∀ id', id' ≠ id → (x.accept id c).1.view id' = x.view id' ∧ bodies (x.accept id c).2 id' = []
    rw [accept]
    split_ifs with hlisted hfull
    · obtain ⟨s, hs⟩ := Option.isSome_iff_exists.mp hlisted
      exact ⟨Or.inl ⟨rfl, rfl, Option.isSome_iff_exists.mpr ⟨s, (getStream_eq_some hs).1⟩⟩, fun _ _ => ⟨rfl, rfl⟩⟩
    · exact ⟨Or.inr (Or.inl ⟨hfull, rfl, _, _, _, (bodies_map_mk id id [_]).trans (if_pos rfl)⟩),
        fun id' hne => ⟨rfl, (bodies_map_mk id id' [_]).trans (if_neg hne)⟩⟩
    · exact ⟨Or.inr (Or.inr ⟨(view_start x id _ id).trans (if_pos rfl), rfl⟩),
        fun id' hne => ⟨(view_start x id _ id').trans (if_neg hne), rfl⟩⟩
  · have hbody : ∀ c, body ≠ .opened c := fun c hc => hopened ⟨c, hc⟩
    cases hget : x.mux.getStream id with
    | none =>
        rw [dispatch_of_unlisted hget hbody]
        have hself : bodies [⟨id, .error (js "INTERNAL") (js "Unknown stream ID") false⟩] id =
            [.error (js "INTERNAL") (js "Unknown stream ID") false] := (bodies_map_mk id id [_]).trans (if_pos rfl)
        refine ⟨?_, fun id' hne => ⟨rfl, (bodies_map_mk id id' [_]).trans (if_neg hne)⟩⟩
        rw [hself]
        cases body with
        | opened c => exact absurd rfl (hbody c)
        | data bytes seq => exact Or.inl ⟨getStream_eq_none hget, rfl, _, _, _, rfl⟩
        | ended totalBytes => exact Or.inl ⟨getStream_eq_none hget, rfl, _, _, _, rfl⟩
        | error code message retryable => exact Or.inl ⟨getStream_eq_none hget, rfl, _, _, _, rfl⟩
        | windowUpdate n => exact Or.inl ⟨getStream_eq_none hget, rfl, _, _, _, rfl⟩
    | some s =>
        rw [dispatch_of_listed hget hbody]
        obtain ⟨hs, hlisted⟩ := getStream_eq_some hget
        obtain ⟨hself, hother⟩ := route_view x id s hs hlisted hbody
        exact ⟨hself, fun id' hne => ⟨hother id' hne, rfl⟩⟩

end StreamEnd

/-! ### The rules -/

/-- A step changes the view of an end by an action of that end or by the message that it receives. -/
theorem view_step {w w' : StreamLink} {a : Link.Action StreamAction} (h : streamParty.step w a = some w') (e : End)
    (id : JsString) : (w' e).state.view id = (w e).state.view id ∨
      (∃ action sent, a = .act e action ∧ id = action.streamId ∧
        (w e).state.Acts action ((w' e).state.view id) sent) ∨
      ∃ body rest sent, a = .deliver e ∧ (w e).inbox = ⟨id, body⟩ :: rest ∧
        (w e).state.Hears id body ((w' e).state.view id) sent := by
  cases a with
  | act e₁ action =>
      obtain ⟨r, hr, rfl⟩ := Party.step_act h
      rcases e₁.eq_or_eq_other e with rfl | rfl
      · rw [put_self]
        obtain ⟨hself, hother⟩ := StreamEnd.acts hr
        by_cases hid : id = action.streamId
        · subst hid
          exact Or.inr (Or.inl ⟨action, _, rfl, rfl, hself⟩)
        · exact Or.inl (hother id hid).1
      · rw [put_other]
        exact Or.inl rfl
  | deliver e₁ =>
      obtain ⟨msg, rest, hinbox, rfl⟩ := Party.step_deliver h
      rcases e₁.eq_or_eq_other e with rfl | rfl
      · rw [put_self]
        obtain ⟨hself, hother⟩ := (w e).state.hears msg
        by_cases hid : id = msg.streamId
        · subst hid
          exact Or.inr (Or.inr ⟨msg.body, rest, _, rfl, hinbox, hself⟩)
        · exact Or.inl (hother id hid).1
      · rw [put_other]
        exact Or.inl rfl

/-- A relation between the views of every stream. -/
def EachStream (C : StreamView → List StreamBody → StreamView → List StreamBody → Prop) (x : StreamEnd)
    (q : List StreamMessage) (y : StreamEnd) (q' : List StreamMessage) : Prop :=
  ∀ id, C (x.view id) (bodies q id) (y.view id) (bodies q' id)

/-- The rule for relations between the views of every stream: an action is one of its own stream, and so is a message. -/
theorem eachStream_step {C : StreamView → List StreamBody → StreamView → List StreamBody → Prop}
    {mayAct : StreamEnd → StreamEnd → StreamAction → Prop} {mayReceive : StreamEnd → StreamMessage → Prop}
    (hact : ∀ (x y : StreamEnd) (a : StreamAction) v' f f' sent,
      C (x.view a.streamId) f (y.view a.streamId) f' → C (y.view a.streamId) f' (x.view a.streamId) f →
      mayAct x y a → x.Acts a v' sent →
        C v' (f ++ sent) (y.view a.streamId) f' ∧ C (y.view a.streamId) f' v' (f ++ sent))
    (hreceive : ∀ (x y : StreamEnd) (id : JsString) (body : StreamBody) v' f f' sent,
      C (x.view id) f (y.view id) (body :: f') → C (y.view id) (body :: f') (x.view id) f →
      mayReceive x ⟨id, body⟩ → x.Hears id body v' sent →
        C v' (f ++ sent) (y.view id) f' ∧ C (y.view id) f' v' (f ++ sent))
    {w w' : StreamLink} {a : Link.Action StreamAction} (h : Party.Both (EachStream C) w)
    (hmeets : Party.Meets mayAct mayReceive w a) (hs : streamParty.step w a = some w') :
    Party.Both (EachStream C) w' := by
  refine Party.both_step (fun x y a r q q' hfront hback hmay hr => ?_)
    (fun x y msg q q' hfront hback hmay => ?_) h hmeets hs
  · obtain ⟨hself, hother⟩ := StreamEnd.acts hr
    have hboth : ∀ id, C (r.1.view id) (bodies (q ++ r.2) id) (y.view id) (bodies q' id) ∧
        C (y.view id) (bodies q' id) (r.1.view id) (bodies (q ++ r.2) id) := by
      intro id
      rw [bodies_append]
      by_cases hid : id = a.streamId
      · subst hid
        exact hact x y a _ _ _ _ (hfront _) (hback _) hmay hself
      · obtain ⟨hview, hsent⟩ := hother id hid
        rw [hview, hsent, List.append_nil]
        exact ⟨hfront id, hback id⟩
    exact ⟨fun id => (hboth id).1, fun id => (hboth id).2⟩
  · obtain ⟨hself, hother⟩ := x.hears msg
    have hboth : ∀ id, C ((x.dispatch msg).1.view id) (bodies (q ++ (x.dispatch msg).2) id) (y.view id) (bodies q' id) ∧
        C (y.view id) (bodies q' id) ((x.dispatch msg).1.view id) (bodies (q ++ (x.dispatch msg).2) id) := by
      intro id
      rw [bodies_append]
      have hf := hfront id
      have hb := hback id
      by_cases hid : id = msg.streamId
      · subst hid
        rw [bodies_cons_self] at hf hb
        exact hreceive x y msg.streamId msg.body _ _ _ _ hf hb hmay hself
      · obtain ⟨hview, hsent⟩ := hother id hid
        rw [bodies_cons_of_ne hid] at hf hb
        rw [hview, hsent, List.append_nil]
        exact ⟨hf, hb⟩
    exact ⟨fun id => (hboth id).1, fun id => (hboth id).2⟩

end BrowserMesh.Transport
