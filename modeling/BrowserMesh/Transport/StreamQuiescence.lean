import BrowserMesh.Transport.StreamViews

/-! # Quiet links

* **Messages.**  A potential of the ends and a weight of the messages pay for every delivery and every callback that
  goes on, as long as no STREAM_ERROR is dispatched to an end that does not list its stream.
* **Streams.**  `Settling` relates the two ends of a stream: which of them has ended or closed it, and what is still on
  the link. -/

namespace BrowserMesh.Transport
open Js Guards Link Transition

/-! ### What is allowed -/

/-- The calls: ids are new, callbacks return, and nothing is put on the wire by hand. -/
def MayCall (x y : StreamEnd) : StreamAction → Prop
  | .openStream id _ _ => x.stream? id = none ∧ y.stream? id = none
  | .fails _ => False
  | .forge _ _ => False
  | _ => True

/-- In addition, `end` is called by `close` when the other end has ended the stream. -/
def MayClose (x y : StreamEnd) : StreamAction → Prop
  | .endStream id => ∀ s ∈ x.stream? id, s.state ≠ .halfClosedRemote
  | a => MayCall x y a

/-- No error is dispatched to an end that does not list its stream. -/
def ErrorIsKnown (x : StreamEnd) (id : JsString) : StreamBody → Prop
  | .error _ _ _ => (x.mux.getStream id).isSome = true
  | _ => True

instance (x y : StreamEnd) : DecidablePred (MayCall x y)
  | .openStream _ _ _ => inferInstanceAs (Decidable (_ ∧ _))
  | .fails _ => inferInstanceAs (Decidable False)
  | .forge _ _ => inferInstanceAs (Decidable False)
  | .write _ _ => inferInstanceAs (Decidable True)
  | .endStream _ => inferInstanceAs (Decidable True)
  | .cancel _ _ => inferInstanceAs (Decidable True)
  | .grantCredits _ _ => inferInstanceAs (Decidable True)
  | .close _ => inferInstanceAs (Decidable True)
  | .closeOne _ => inferInstanceAs (Decidable True)
  | .goOn _ => inferInstanceAs (Decidable True)

instance (x y : StreamEnd) : DecidablePred (MayClose x y)
  | .endStream id => inferInstanceAs (Decidable (∀ s ∈ x.stream? id, s.state ≠ .halfClosedRemote))
  | .openStream id c n => inferInstanceAs (Decidable (MayCall x y (.openStream id c n)))
  | .fails c => inferInstanceAs (Decidable (MayCall x y (.fails c)))
  | .forge id n => inferInstanceAs (Decidable (MayCall x y (.forge id n)))
  | .write id bytes => inferInstanceAs (Decidable (MayCall x y (.write id bytes)))
  | .cancel id reason => inferInstanceAs (Decidable (MayCall x y (.cancel id reason)))
  | .grantCredits id n => inferInstanceAs (Decidable (MayCall x y (.grantCredits id n)))
  | .close id => inferInstanceAs (Decidable (MayCall x y (.close id)))
  | .closeOne id => inferInstanceAs (Decidable (MayCall x y (.closeOne id)))
  | .goOn c => inferInstanceAs (Decidable (MayCall x y (.goOn c)))

instance (x : StreamEnd) (id : JsString) : DecidablePred (ErrorIsKnown x id)
  | .error _ _ _ => inferInstanceAs (Decidable ((x.mux.getStream id).isSome = true))
  | .opened _ => inferInstanceAs (Decidable True)
  | .data _ _ => inferInstanceAs (Decidable True)
  | .ended _ => inferInstanceAs (Decidable True)
  | .windowUpdate _ => inferInstanceAs (Decidable True)

def Calls : StreamLink → Link.Action StreamAction → Prop := Party.Meets MayCall fun _ _ => True

/-- A run in which errors are not answered and closed streams are removed. -/
def Settles : StreamLink → Link.Action StreamAction → Prop :=
  Party.Meets MayClose fun x msg => ErrorIsKnown x msg.streamId msg.body

instance (w : StreamLink) : DecidablePred (Calls w) :=
  inferInstanceAs (DecidablePred (Party.Meets MayCall (fun _ _ => True) w))

instance (w : StreamLink) : DecidablePred (Settles w) :=
  inferInstanceAs (DecidablePred (Party.Meets MayClose (fun x msg => ErrorIsKnown x msg.streamId msg.body) w))

/-! ### Every message is paid for -/

namespace StreamBody

/-- An error is not answered; everything else may start a callback or be answered with an error. -/
def weight : StreamBody → ℕ
  | .error _ _ _ => 1
  | _ => 2

end StreamBody

namespace MeshStream

def queued (s : MeshStream) : ℕ := s.sendQueue.length

/-- What is on the wire is worth. -/
def worth (sent : List StreamBody) : ℕ := (sent.map StreamBody.weight).sum

variable {s : MeshStream}
variable {r : MeshStream × List StreamBody}

theorem write_paid {bytes : Payload} (h : s.write bytes = .ok r) :
    3 * r.1.queued + worth r.2 ≤ 3 * s.queued + 3 := by
  simp only [write, bind_eq_ok, failIf_eq_ok, pure_eq_ok] at h
  obtain ⟨-, -, -, -, rfl⟩ := h
  split_ifs with hcredits
  · show 3 * s.queued + 2 ≤ _
    omega
  · show 3 * (s.sendQueue ++ [bytes]).length + 0 ≤ _
    rw [List.length_append, List.length_singleton]
    exact le_of_eq (by rw [queued]; omega)

theorem endStream_paid (s : MeshStream) : 3 * s.endStream.1.queued + worth s.endStream.2 ≤ 3 * s.queued + 3 := by
  unfold endStream
  cases s.state <;> dsimp only [queued] <;> simp [worth, StreamBody.weight]

theorem cancel_paid {reason : JsString} (h : s.cancel reason = some r) :
    3 * r.1.queued + worth r.2 ≤ 3 * s.queued + 3 := by
  unfold cancel at h
  split_ifs at h with hclosed hidle hreason
  · cases h
    exact Nat.zero_le _
  · cases h
    show 0 + 1 ≤ _
    omega
  · cases h
    show 0 + 1 ≤ _
    omega

theorem grantCredits_paid {n : JsNumber} (h : s.grantCredits n = .ok r) :
    3 * r.1.queued + worth r.2 ≤ 3 * s.queued + 3 := by
  simp only [grantCredits, bind_eq_ok, failIf_eq_ok] at h
  obtain ⟨-, -, h⟩ := h
  split_ifs at h
  · cases h
    exact Nat.le_add_right _ _
  · simp only [bind_eq_ok, failIf_eq_ok, pure_eq_ok] at h
    obtain ⟨-, -, rfl⟩ := h
    show 3 * s.queued + 2 ≤ _
    omega

theorem drain_paid (h : s.drain = some r) :
    3 * r.1.queued + worth r.2 + 1 ≤ 3 * s.queued + 0 := by
  unfold drain at h
  cases hqueue : s.sendQueue with
  | nil => simp [hqueue] at h
  | cons bytes rest =>
      rw [hqueue] at h
      dsimp only at h
      split_ifs at h
      cases h
      show 3 * rest.length + 2 + 1 ≤ 3 * s.sendQueue.length
      rw [hqueue, List.length_cons]
      omega

theorem receiveCredits_queued (s : MeshStream) (n : JsNumber) : (s.receiveCredits n).queued = s.queued := by
  rw [queued, receiveCredits]
  rfl

end MeshStream

namespace StreamEnd

/-- What is queued costs a message each, and a callback that is running goes on. -/
def potential (x : StreamEnd) : ℕ := 3 * x.mux.streams.sumBy MeshStream.queued + x.running.length

def credit : StreamAction → ℕ
  | .goOn _ => 0
  | _ => 4

variable {x : StreamEnd} {id : JsString}

theorem worth_map_mk (id : JsString) (sent : List StreamBody) :
    ((sent.map (StreamMessage.mk id)).map fun m => m.body.weight).sum = MeshStream.worth sent := by
  rw [List.map_map]
  rfl

theorem potential_update {s : MeshStream} (h : x.stream? id = some s) (r : MeshStream × List StreamBody) :
    (x.update id r).1.potential + 3 * s.queued = x.potential + 3 * r.1.queued := by
  have hsum : (x.mux.streams.set id r.1).sumBy MeshStream.queued + s.queued =
      x.mux.streams.sumBy MeshStream.queued + r.1.queued := by
    have hset := JsMap.sumBy_set MeshStream.queued x.mux.streams id r.1
    rwa [show x.mux.streams.get? id = some s from h] at hset
  change 3 * (x.mux.streams.set id r.1).sumBy MeshStream.queued + x.running.length + 3 * s.queued = _
  rw [potential]
  omega

theorem update_paid {s : MeshStream} (h : x.stream? id = some s) {r : MeshStream × List StreamBody} {k n : ℕ}
    (hpaid : 3 * r.1.queued + MeshStream.worth r.2 + k ≤ 3 * s.queued + n) :
    (x.update id r).1.potential + ((x.update id r).2.map fun m => m.body.weight).sum + k ≤ x.potential + n := by
  have hpotential := potential_update h r
  rw [update, worth_map_mk]
  rw [update] at hpotential
  omega

theorem potential_start (x : StreamEnd) (id : JsString) (c : JsNumber) (n : ℕ) :
    (x.start id (MeshStream.new c n).markOpen).potential ≤ x.potential := by
  have hsum := JsMap.sumBy_set MeshStream.queued x.mux.streams id (MeshStream.new c n).markOpen
  have hnew : (MeshStream.new c n).markOpen.queued = 0 := rfl
  change 3 * (x.mux.streams.set id _).sumBy MeshStream.queued + x.running.length ≤ _
  rw [potential]
  omega

theorem act_paid {y : StreamEnd} {a : StreamAction} {r : StreamEnd × List StreamMessage} (hmay : MayCall x y a)
    (h : x.act a = some r) :
    r.1.potential + (r.2.map fun m => m.body.weight).sum + 1 ≤ x.potential + credit a := by
  have hsame : ∀ n, x.potential + (([] : List StreamMessage).map fun m => m.body.weight).sum + 1 ≤
      x.potential + (n + 1) := fun n => by simp
  cases a with
  | openStream id initialCredits maxSize =>
      cases h
      cases hopen : x.mux.openStream initialCredits maxSize with
      | error e => exact hsame 3
      | ok s =>
          simp only [StreamMultiplexer.openStream, bind_eq_ok, failIf_eq_ok, pure_eq_ok] at hopen
          obtain ⟨-, -, rfl⟩ := hopen
          have hstart := potential_start x id (initialCredits.getD x.mux.defaults.initialCredits)
            (maxSize.getD x.mux.defaults.maxStreamSize)
          exact (Nat.add_le_add (Nat.add_le_add hstart (le_refl 2)) (le_refl 1)).trans
            (Nat.le_succ (x.potential + 3))
  | write id bytes =>
      obtain ⟨s, hs, rfl⟩ := Option.map_eq_some_iff.mp h
      cases hwrite : s.write bytes with
      | error e => exact hsame 3
      | ok r => exact update_paid hs (Nat.succ_le_succ (MeshStream.write_paid hwrite))
  | endStream id =>
      obtain ⟨s, hs, rfl⟩ := Option.map_eq_some_iff.mp h
      exact update_paid hs (Nat.succ_le_succ s.endStream_paid)
  | cancel id reason =>
      obtain ⟨s, hs, rfl⟩ := Option.map_eq_some_iff.mp h
      rw [cancel]
      cases hcancel : s.cancel reason with
      | none => exact hsame 3
      | some r =>
          dsimp only
          have hpaid := update_paid (k := 1) (n := 4) hs (Nat.succ_le_succ (MeshStream.cancel_paid hcancel))
          split_ifs
          · exact hpaid
          · exact hpaid
  | grantCredits id n =>
      obtain ⟨s, hs, rfl⟩ := Option.map_eq_some_iff.mp h
      cases hgrant : s.grantCredits n with
      | error e => exact hsame 3
      | ok r => exact update_paid hs (Nat.succ_le_succ (MeshStream.grantCredits_paid hgrant))
  | close id =>
      obtain ⟨s, hs, rfl⟩ := Option.map_eq_some_iff.mp h
      have hpaid := update_paid (k := 1) (n := 4) (getStream_eq_some hs).1 (Nat.succ_le_succ s.endStream_paid)
      dsimp only
      split_ifs
      · exact hpaid
      · exact hpaid
  | closeOne id =>
      obtain ⟨s, hs, rfl⟩ := Option.map_eq_some_iff.mp h
      dsimp only
      rw [cancel]
      cases hcancel : s.cancel (js "Multiplexer closing all streams") with
      | none => exact hsame 3
      | some r =>
          dsimp only
          have hpaid := update_paid (k := 1) (n := 4) (getStream_eq_some hs).1 (Nat.succ_le_succ (MeshStream.cancel_paid hcancel))
          split_ifs
          · exact hpaid
          · exact hpaid
  | goOn callback =>
      rw [act] at h
      split_ifs at h with hrunning
      obtain ⟨s, hs, rfl⟩ := Option.map_eq_some_iff.mp h
      have hreturned : ∀ y : StreamEnd, y.mux.streams = x.mux.streams → y.running = x.running.erase callback →
          y.potential + 1 ≤ x.potential := by
        intro y hstreams hrest
        have hlength := List.length_erase_of_mem hrunning
        have hpos := List.length_pos_of_mem hrunning
        rw [potential, potential, hstreams, hrest]
        omega
      cases callback with
      | onCredits id =>
          rw [goOn]
          cases hdrain : s.drain with
          | some r =>
              exact update_paid hs (MeshStream.drain_paid hdrain)
          | none => exact hreturned _ rfl rfl
      | onEnd id =>
          rw [goOn]
          dsimp only
          split_ifs
          · exact hreturned _ rfl rfl
          · exact hreturned _ rfl rfl
  | fails callback => exact hmay.elim
  | forge id n => exact hmay.elim

theorem dispatch_paid (x : StreamEnd) (msg : StreamMessage) (hknown : ErrorIsKnown x msg.streamId msg.body) :
    (x.dispatch msg).1.potential + ((x.dispatch msg).2.map fun m => m.body.weight).sum + 1 ≤
      x.potential + msg.body.weight := by
  obtain ⟨id, body⟩ := msg
  dsimp only at hknown ⊢
  by_cases hopened : ∃ c, body = .opened c
  · obtain ⟨c, rfl⟩ := hopened
    change (x.accept id c).1.potential + ((x.accept id c).2.map fun m => m.body.weight).sum + 1 ≤ x.potential + 2
    rw [accept]
    split_ifs
    · exact Nat.le_succ _
    · exact le_refl _
    · exact (Nat.succ_le_succ (potential_start x id c STREAM_DEFAULTS.maxStreamSize)).trans (Nat.le_succ _)
  · have hbody : ∀ c, body ≠ .opened c := fun c hc => hopened ⟨c, hc⟩
    cases hget : x.mux.getStream id with
    | none =>
        rw [dispatch_of_unlisted hget hbody]
        cases body with
        | opened c => exact absurd rfl (hbody c)
        | data bytes seq => exact le_refl _
        | ended totalBytes => exact le_refl _
        | windowUpdate n => exact le_refl _
        | error code message retryable =>
            rw [ErrorIsKnown, hget] at hknown
            cases hknown
    | some s =>
        rw [dispatch_of_listed hget hbody]
        have hs := (getStream_eq_some hget).1
        have hupdate : ∀ s', s'.queued ≤ s.queued → (x.update id (s', [])).1.potential ≤ x.potential := by
          intro s' hqueued
          have hpotential := potential_update hs (s', [])
          dsimp only at hpotential
          omega
        cases body with
        | opened c => exact absurd rfl (hbody c)
        | data bytes seq =>
            rw [route]
            cases hdata : s.receiveData bytes seq with
            | none => exact Nat.le_succ _
            | some s' =>
                have hqueued : s'.queued ≤ s.queued := by
                  unfold MeshStream.receiveData at hdata
                  split_ifs at hdata
                  cases hdata
                  exact le_refl _
                exact (Nat.succ_le_succ (hupdate s' hqueued)).trans (Nat.le_succ _)
        | ended totalBytes =>
            rw [route]
            cases hend : s.receiveEnd with
            | none => exact Nat.le_succ _
            | some s' =>
                have hqueued : s'.queued ≤ s.queued := by
                  unfold MeshStream.receiveEnd at hend
                  split at hend <;> cases hend <;> exact le_refl _
                exact Nat.succ_le_succ (Nat.succ_le_succ (hupdate s' hqueued))
        | error code message retryable =>
            refine Nat.succ_le_succ (hupdate s.receiveError ?_)
            unfold MeshStream.receiveError
            split_ifs
            · exact le_refl _
            · exact Nat.zero_le _
        | windowUpdate n =>
            have hpaid : (x.update id (s.receiveCredits n, [])).1.potential ≤ x.potential :=
              hupdate (s.receiveCredits n) (le_of_eq (s.receiveCredits_queued n))
            have hrunning : (x.route id s (.windowUpdate n)).potential =
                (x.update id (s.receiveCredits n, [])).1.potential + 1 :=
              (Nat.add_assoc _ x.running.length 1).symm
            change (x.route id s (.windowUpdate n)).potential + 0 + 1 ≤ x.potential + 2
            omega

end StreamEnd

def isCall : Link.Action StreamAction → Bool
  | .act _ (.goOn _) => false
  | .act _ _ => true
  | .deliver _ => false

def inFlight (w : StreamLink) : ℕ := (w .left).inbox.length + (w .right).inbox.length

theorem mayCall_of_mayClose {x y : StreamEnd} {a : StreamAction} (h : MayClose x y a) : MayCall x y a := by
  cases a with
  | endStream id => exact trivial
  | _ => exact h

theorem settles_paid {w w' : StreamLink} {a : Link.Action StreamAction} (h : Settles w a)
    (hs : streamParty.step w a = some w') :
    Party.total StreamEnd.potential (fun m => m.body.weight) w' + 1 ≤
      Party.total StreamEnd.potential (fun m => m.body.weight) w + Party.creditOf StreamEnd.credit a := by
  have hact : ∀ (x y : StreamEnd) action r, MayClose x y action → streamParty.act x action = some r →
      r.1.potential + (r.2.map fun m => m.body.weight).sum + 1 ≤ x.potential + StreamEnd.credit action :=
    fun x y action r hmay hr => StreamEnd.act_paid (mayCall_of_mayClose hmay) hr
  exact Party.total_step hact StreamEnd.dispatch_paid h hs

theorem credit_eq (a : Link.Action StreamAction) :
    Party.creditOf StreamEnd.credit a = if isCall a then 4 else 0 := by
  cases a with
  | deliver e => rfl
  | act e action => cases action <;> rfl

theorem sum_credit (acts : List (Link.Action StreamAction)) :
    (acts.map (Party.creditOf StreamEnd.credit)).sum = 4 * acts.countP isCall := by
  induction acts with
  | nil => rfl
  | cons a acts ih =>
      rw [List.map_cons, List.sum_cons, List.countP_cons, ih, credit_eq]
      split_ifs <;> omega

theorem length_le_sum_weight (q : List StreamMessage) : q.length ≤ (q.map fun m => m.body.weight).sum := by
  induction q with
  | nil => exact le_refl _
  | cons m q ih =>
      have hpos : 1 ≤ m.body.weight := by cases m.body <;> simp [StreamBody.weight]
      rw [List.length_cons, List.map_cons, List.sum_cons]
      omega

/-- A run makes at most four steps for each call, and what is still on the link is part of them. -/
theorem length_add_inFlight_le {defaults : End → StreamDefaults} {w : StreamLink}
    {acts : List (Link.Action StreamAction)}
    (h : (streamMachine defaults).run Settles (streamMachine defaults).init acts = some w) :
    acts.length + inFlight w ≤ 4 * acts.countP isCall := by
  have hbound := Party.length_add_total_le (fun _ _ _ hok hs => settles_paid hok hs) h
  have hinit : Party.total StreamEnd.potential (fun m => m.body.weight) (streamMachine defaults).init = 0 := rfl
  have hleft := length_le_sum_weight (w .left).inbox
  have hright := length_le_sum_weight (w .right).inbox
  rw [sum_credit, hinit, Party.total] at hbound
  rw [inFlight]
  omega

/-! ### The two ends of a stream -/

/-- What a message is. -/
inductive StreamKind where
  | opened | data | ended | error | windowUpdate
  deriving DecidableEq

def StreamBody.kind : StreamBody → StreamKind
  | .opened _ => .opened
  | .data _ _ => .data
  | .ended _ => .ended
  | .error _ _ _ => .error
  | .windowUpdate _ => .windowUpdate

/-- How many messages of a kind there are. -/
def countOf (k : StreamKind) (f : List StreamBody) : ℕ := f.countP fun b => b.kind = k

@[simp] theorem countOf_nil (k : StreamKind) : countOf k [] = 0 := rfl

theorem countOf_cons (k : StreamKind) (b : StreamBody) (f : List StreamBody) :
    countOf k (b :: f) = countOf k f + if b.kind = k then 1 else 0 := by
  rw [countOf, List.countP_cons]
  simp only [decide_eq_true_eq]
  rfl

theorem countOf_snoc (k : StreamKind) (f : List StreamBody) (b : StreamBody) :
    countOf k (f ++ [b]) = countOf k f + if b.kind = k then 1 else 0 := by
  rw [countOf, List.countP_append]
  exact congrArg (countOf k f + ·) ((countOf_cons k b []).trans (Nat.zero_add _))

theorem countOf_tail_snoc {k : StreamKind} {f : List StreamBody} {b : StreamBody} (h : countOf k f.tail = 0)
    (hb : b.kind = k → f = []) : countOf k (f ++ [b]).tail = 0 := by
  cases f with
  | nil => rfl
  | cons c f =>
      have hne : b.kind ≠ k := fun hk => (by cases hb hk)
      rw [List.cons_append, List.tail_cons, countOf_snoc, if_neg hne]
      exact h

theorem countOf_tail_tail {k : StreamKind} {f : List StreamBody} (h : countOf k f = 0) : countOf k f.tail = 0 := by
  cases f with
  | nil => rfl
  | cons b f =>
      rw [countOf_cons] at h
      exact Nat.eq_zero_of_add_eq_zero_right h

/-- The state of a stream, if there is one. -/
def StreamView.state? (v : StreamView) : Option StreamState := v.stream.map MeshStream.state

/-- An end `v` of a stream, with what is on the link from it, the other end `u`, and what is on the link back. -/
structure Settling (v : StreamView) (f : List StreamBody) (u : StreamView) (f' : List StreamBody) : Prop where
  live : v.state? ≠ some .idle
  deleted : v.deleted = true → v.state? = some .closed
  closing : v.state? = some .closed → v.deleted = true ∨ v.ending = true
  known : f ≠ [] → v.state? ≠ none ∨ u.state? ≠ none
  openFirst : countOf .opened f.tail = 0
  opening : 0 < countOf .opened f → u.state? = none ∧ v.state? ≠ none
  endOnce : countOf .ended f ≤ 1
  unended : v.state? = none ∨ v.state? = some .opened ∨ v.state? = some .halfClosedRemote → countOf .ended f = 0
  heard : u.state? = some .halfClosedRemote → countOf .ended f = 0
  remote : v.state? = some .halfClosedRemote → u.state? = some .halfClosedLocal ∨ u.state? = some .closed
  half : v.state? = some .halfClosedLocal → 0 < countOf .ended f ∨ u.state? = some .halfClosedRemote ∨
    u.state? = some .closed ∨ u.state? = none ∧ countOf .opened f = 0
  failed : 0 < countOf .error f → v.state? = some .closed ∨ v.state? = none ∧ countOf .opened f' = 0
  closed : v.state? = some .closed → 0 < countOf .error f ∨ u.state? = some .closed ∨
    u.state? = none ∧ countOf .opened f = 0 ∨ u.state? = some .halfClosedLocal ∧ 0 < countOf .ended f

namespace Settling
variable {v v' u : StreamView} {f f' : List StreamBody} {b : StreamBody}

theorem init {v u : StreamView} (hv : v.state? = none) (hdeleted : v.deleted = false) (hu : u.state? = none) :
    Settling v [] u [] := by
  constructor <;> simp [hv, hdeleted, hu]

/-- What a message more on the link does to the counts. -/
theorem counts_snoc (h : Settling v f u f') (b : StreamBody) :
    (countOf .opened (f ++ [b]) = countOf .opened f + if b.kind = .opened then 1 else 0) ∧
      (countOf .ended (f ++ [b]) = countOf .ended f + if b.kind = .ended then 1 else 0) ∧
      (countOf .error (f ++ [b]) = countOf .error f + if b.kind = .error then 1 else 0) ∧
      ((b.kind = .opened → f = []) → countOf .opened (f ++ [b]).tail = 0) :=
  ⟨countOf_snoc _ f b, countOf_snoc _ f b, countOf_snoc _ f b, countOf_tail_snoc h.openFirst⟩

theorem counts_cons (h : Settling v (b :: f) u f') :
    (countOf .opened (b :: f) = countOf .opened f + if b.kind = .opened then 1 else 0) ∧
      (countOf .ended (b :: f) = countOf .ended f + if b.kind = .ended then 1 else 0) ∧
      (countOf .error (b :: f) = countOf .error f + if b.kind = .error then 1 else 0) ∧
      countOf .opened f = 0 ∧ countOf .opened f.tail = 0 :=
  ⟨countOf_cons _ b f, countOf_cons _ b f, countOf_cons _ b f, h.openFirst, countOf_tail_tail h.openFirst⟩

theorem same (h : Settling v f u f') (h' : Settling u f' v f) (hstate : v'.state? = v.state?)
    (hdeleted : v'.deleted = true → v'.state? = some .closed)
    (hclosing : v'.state? = some .closed → v'.deleted = true ∨ v'.ending = true) :
    Settling v' f u f' ∧ Settling u f' v' f := by
  constructor
  · constructor <;> grind -ring -linarith [Settling]
  · constructor <;> grind -ring -linarith [Settling]

theorem sends (h : Settling v f u f') (h' : Settling u f' v f) (hknown : v.state? ≠ none)
    (hb : b.kind = .data ∨ b.kind = .windowUpdate) :
    Settling v (f ++ [b]) u f' ∧ Settling u f' v (f ++ [b]) := by
  obtain ⟨hopened, hended, herror, htail⟩ := h.counts_snoc b
  constructor
  · constructor <;> grind -ring -linarith [Settling]
  · constructor <;> grind -ring -linarith [Settling]

theorem opens (h : Settling v f u f') (h' : Settling u f' v f) (hv : v.state? = none) (hu : u.state? = none)
    (hb : b.kind = .opened) (hstate : v'.state? = some .opened) (hdeleted : v'.deleted = false) :
    Settling v' (f ++ [b]) u f' ∧ Settling u f' v' (f ++ [b]) := by
  obtain rfl : f = [] := by_contra fun hne => (h.known hne).elim (fun hk => hk hv) fun hk => hk hu
  obtain rfl : f' = [] := by_contra fun hne => (h'.known hne).elim (fun hk => hk hu) fun hk => hk hv
  have hopened := countOf_snoc .opened [] b
  have hended := countOf_snoc .ended [] b
  have herror := countOf_snoc .error [] b
  constructor
  · constructor <;> grind -ring -linarith [Settling, countOf_nil]
  · constructor <;> grind -ring -linarith [Settling, countOf_nil]

/-- `end` in an open stream. -/
theorem ends (h : Settling v f u f') (h' : Settling u f' v f) (hv : v.state? = some .opened) (hb : b.kind = .ended)
    (hstate : v'.state? = some .halfClosedLocal) (hdeleted : v'.deleted = v.deleted) :
    Settling v' (f ++ [b]) u f' ∧ Settling u f' v' (f ++ [b]) := by
  obtain ⟨hopened, hended, herror, htail⟩ := h.counts_snoc b
  constructor
  · constructor <;> grind -ring -linarith [Settling]
  · constructor <;> grind -ring -linarith [Settling]

/-- `close` in a stream that the other end has ended. -/
theorem finishes (h : Settling v f u f') (h' : Settling u f' v f) (hv : v.state? = some .halfClosedRemote)
    (hb : b.kind = .ended) (hstate : v'.state? = some .closed) (hdeleted : v'.deleted = true) :
    Settling v' (f ++ [b]) u f' ∧ Settling u f' v' (f ++ [b]) := by
  obtain ⟨hopened, hended, herror, htail⟩ := h.counts_snoc b
  constructor
  · constructor <;> grind -ring -linarith [Settling]
  · constructor <;> grind -ring -linarith [Settling]

theorem cancels (h : Settling v f u f') (h' : Settling u f' v f) (hv : v.state? ≠ none) (hb : b.kind = .error)
    (hstate : v'.state? = some .closed) (hdeleted : v'.deleted = true) :
    Settling v' (f ++ [b]) u f' ∧ Settling u f' v' (f ++ [b]) := by
  obtain ⟨hopened, hended, herror, htail⟩ := h.counts_snoc b
  constructor
  · constructor <;> grind -ring -linarith [Settling]
  · constructor <;> grind -ring -linarith [Settling]

theorem takes (h : Settling v f u (b :: f')) (h' : Settling u (b :: f') v f)
    (hb : b.kind = .data ∨ b.kind = .windowUpdate) : Settling v f u f' ∧ Settling u f' v f := by
  obtain ⟨hopened, hended, herror, hrest, htail⟩ := h'.counts_cons
  constructor
  · constructor <;> grind -ring -linarith [Settling]
  · constructor <;> grind -ring -linarith [Settling]

/-- A message for a stream that is not listed is answered with an error. -/
theorem answers (h : Settling v f u (b :: f')) (h' : Settling u (b :: f') v f) {c : StreamBody}
    (hv : v.state? = none ∨ v.state? = some .closed) (hc : c.kind = .error) : Settling v (f ++ [c]) u f' ∧ Settling u f' v (f ++ [c]) := by
  obtain ⟨hopened', hended', herror', htail'⟩ := h.counts_snoc c
  obtain ⟨hopened, hended, herror, hrest, htail⟩ := h'.counts_cons
  constructor
  · constructor <;> grind -ring -linarith [Settling]
  · constructor <;> grind -ring -linarith [Settling]

theorem accepts (h : Settling v f u (b :: f')) (h' : Settling u (b :: f') v f) (hb : b.kind = .opened)
    (hstate : v'.state? = some .opened) (hdeleted : v'.deleted = false) :
    Settling v' f u f' ∧ Settling u f' v' f := by
  obtain ⟨hopened, hended, herror, hrest, htail⟩ := h'.counts_cons
  constructor
  · constructor <;> grind -ring -linarith [Settling]
  · constructor <;> grind -ring -linarith [Settling]

theorem ended_of_head (h : Settling u (b :: f') v f) (hb : b.kind = .ended) :
    u.state? = some .halfClosedLocal ∨ u.state? = some .closed := by
  have hpos : countOf .ended (b :: f') ≠ 0 := by
    rw [countOf_cons, if_pos hb]
    exact Nat.succ_ne_zero _
  cases hu : u.state? with
  | none => exact absurd (h.unended (Or.inl hu)) hpos
  | some state =>
      cases state with
      | idle => exact absurd hu h.live
      | opened => exact absurd (h.unended (Or.inr (Or.inl hu))) hpos
      | halfClosedLocal => exact Or.inl rfl
      | halfClosedRemote => exact absurd (h.unended (Or.inr (Or.inr hu))) hpos
      | closed => exact Or.inr rfl

theorem hearsEnd (h : Settling v f u (b :: f')) (h' : Settling u (b :: f') v f) (hb : b.kind = .ended)
    (hv : v.state? = some .opened) (hstate : v'.state? = some .halfClosedRemote) (hdeleted : v'.deleted = v.deleted) :
    Settling v' f u f' ∧ Settling u f' v' f := by
  have hremote := h'.ended_of_head hb
  obtain ⟨hopened, hended, herror, hrest, htail⟩ := h'.counts_cons
  constructor
  · constructor <;> grind -ring -linarith [Settling]
  · constructor <;> grind -ring -linarith [Settling]

/-- The other end has ended a stream that this end has ended or closed. -/
theorem finishesEnd (h : Settling v f u (b :: f')) (h' : Settling u (b :: f') v f) (hb : b.kind = .ended)
    (hv : v.state? = some .halfClosedLocal ∨ v.state? = some .closed) (hstate : v'.state? = some .closed)
    (hclosing : v'.deleted = true ∨ v'.ending = true) : Settling v' f u f' ∧ Settling u f' v' f := by
  have hremote := h'.ended_of_head hb
  obtain ⟨hopened, hended, herror, hrest, htail⟩ := h'.counts_cons
  constructor
  · constructor <;> grind -ring -linarith [Settling]
  · constructor <;> grind -ring -linarith [Settling]

theorem hearsError (h : Settling v f u (b :: f')) (h' : Settling u (b :: f') v f) (hb : b.kind = .error)
    (hstate : v'.state? = some .closed) (hdeleted : v'.deleted = true) :
    Settling v' f u f' ∧ Settling u f' v' f := by
  obtain ⟨hopened, hended, herror, hrest, htail⟩ := h'.counts_cons
  constructor
  · constructor <;> grind -ring -linarith [Settling]
  · constructor <;> grind -ring -linarith [Settling]

end Settling
/-! ### Runs -/

theorem state?_eq {v : StreamView} {s : MeshStream} (h : v.stream = some s) : v.state? = some s.state := by
  rw [StreamView.state?, h]
  rfl

theorem put_of_stream {v : StreamView} {s : MeshStream} (h : v.stream = some s) : v.put s = v := by
  rw [StreamView.put, ← h]

namespace Settling
variable {v u : StreamView} {f f' sent : List StreamBody} {s : MeshStream}

theorem removes (h : Settling v f u f') (h' : Settling u f' v f) (hclosed : v.state? = some .closed) :
    Settling v.delete f u f' ∧ Settling u f' v.delete f := h.same h' rfl (fun _ => hclosed) fun _ => Or.inl rfl

/-- `end`, as a step of a stream that is removed when the other end has ended it. -/
theorem endStream (h : Settling v f u f') (h' : Settling u f' v f) (hs : v.stream = some s) :
    (s.state ≠ .halfClosedRemote → Settling (v.put s.endStream.1) (f ++ s.endStream.2) u f' ∧
        Settling u f' (v.put s.endStream.1) (f ++ s.endStream.2)) ∧
      (s.endStream.1.state = .closed → Settling (v.put s.endStream.1).delete (f ++ s.endStream.2) u f' ∧
        Settling u f' (v.put s.endStream.1).delete (f ++ s.endStream.2)) := by
  have hv := state?_eq hs
  cases hstate : s.state with
  | idle => exact absurd (hv.trans (congrArg some hstate)) h.live
  | opened =>
      have hend : s.endStream = ({ s with state := .halfClosedLocal }, [.ended s.bytesSent]) := by
        rw [MeshStream.endStream, hstate]
      rw [hend]
      exact ⟨fun _ => h.ends h' (hv.trans (congrArg some hstate)) rfl rfl rfl, fun hclosed => (by cases hclosed)⟩
  | halfClosedLocal =>
      have hend : s.endStream = (s, []) := by rw [MeshStream.endStream, hstate]
      rw [hend, List.append_nil, put_of_stream hs]
      exact ⟨fun _ => ⟨h, h'⟩, fun hclosed => (by cases hstate.symm.trans hclosed)⟩
  | halfClosedRemote =>
      have hend : s.endStream = ({ s with state := .closed }, [.ended s.bytesSent]) := by
        rw [MeshStream.endStream, hstate]
      rw [hend]
      exact ⟨fun hne => absurd rfl hne, fun _ => h.finishes h' (hv.trans (congrArg some hstate)) rfl rfl rfl⟩
  | closed =>
      have hend : s.endStream = (s, []) := by rw [MeshStream.endStream, hstate]
      rw [hend, List.append_nil, put_of_stream hs]
      exact ⟨fun _ => ⟨h, h'⟩, fun _ => h.removes h' (hv.trans (congrArg some hstate))⟩

/-- `cancel`, as a step of a stream that is removed. -/
theorem cancelled {reason : JsString} {r : MeshStream × List StreamBody} (h : Settling v f u f')
    (h' : Settling u f' v f) (hs : v.stream = some s) (hcancel : s.cancel reason = some r) :
    s.state ≠ .idle ∧ Settling (v.put r.1).delete (f ++ r.2) u f' ∧ Settling u f' (v.put r.1).delete (f ++ r.2) := by
  have hv := state?_eq hs
  have hlive : s.state ≠ .idle := fun hidle => h.live (hv.trans (congrArg some hidle))
  unfold MeshStream.cancel at hcancel
  rw [if_neg hlive] at hcancel
  split_ifs at hcancel with hclosed hreason
  · cases hcancel
    exact ⟨hlive, h.cancels h' (hv ▸ Option.some_ne_none _) rfl rfl rfl⟩
  · cases hcancel
    exact ⟨hlive, h.cancels h' (hv ▸ Option.some_ne_none _) rfl rfl rfl⟩

/-- A stream keeps its state, and sends nothing but data and credits. -/
theorem keeps {r : MeshStream × List StreamBody} (h : Settling v f u f') (h' : Settling u f' v f)
    (hs : v.stream = some s) {v' : StreamView} (hstate : r.1.state = s.state)
    (hv' : v'.state? = some r.1.state ∧ v'.deleted = v.deleted ∧ v'.ending = v.ending)
    (hsent : r.2 = [] ∨ ∃ b : StreamBody, (b.kind = .data ∨ b.kind = .windowUpdate) ∧ r.2 = [b]) :
    Settling v' (f ++ r.2) u f' ∧ Settling u f' v' (f ++ r.2) := by
  obtain ⟨hstate', hdeleted, hending⟩ := hv'
  have hsame : v'.state? = v.state? := by rw [hstate', hstate, state?_eq hs]
  obtain ⟨hkept, hkept'⟩ := h.same h' hsame (by rw [hsame, hdeleted]; exact h.deleted)
    (by rw [hsame, hdeleted, hending]; exact h.closing)
  rcases hsent with hsent | ⟨b, hb, hsent⟩
  · rw [hsent, List.append_nil]
    exact ⟨hkept, hkept'⟩
  · rw [hsent]
    exact hkept.sends hkept' (by rw [hstate']; exact Option.some_ne_none _) hb

theorem acts {x y : StreamEnd} {a : StreamAction} {v' : StreamView}
    (h : Settling (x.view a.streamId) f (y.view a.streamId) f')
    (h' : Settling (y.view a.streamId) f' (x.view a.streamId) f) (hmay : MayClose x y a) (hacts : x.Acts a v' sent) :
    Settling v' (f ++ sent) (y.view a.streamId) f' ∧ Settling (y.view a.streamId) f' v' (f ++ sent) := by
  have hunchanged : v' = x.view a.streamId → sent = [] →
      Settling v' (f ++ sent) (y.view a.streamId) f' ∧ Settling (y.view a.streamId) f' v' (f ++ sent) := by
    rintro rfl rfl
    rw [List.append_nil]
    exact ⟨h, h'⟩
  cases a with
  | openStream id initialCredits maxSize =>
      rcases hacts with ⟨rfl, rfl⟩ | ⟨s, hopen, rfl, rfl⟩
      · exact hunchanged rfl rfl
      · simp only [StreamMultiplexer.openStream, bind_eq_ok, failIf_eq_ok, pure_eq_ok] at hopen
        obtain ⟨-, -, rfl⟩ := hopen
        obtain ⟨hx, hy⟩ := hmay
        have hnone : ∀ z : StreamEnd, z.stream? id = none → (z.view id).state? = none := by
          intro z hz
          rw [StreamView.state?]
          exact congrArg (Option.map MeshStream.state) hz
        exact h.opens h' (hnone x hx) (hnone y hy) rfl rfl rfl
  | write id bytes =>
      obtain ⟨s, hs, ⟨rfl, rfl⟩ | ⟨r, hwrite, rfl, rfl⟩⟩ := hacts
      · exact hunchanged rfl rfl
      · simp only [MeshStream.write, bind_eq_ok, failIf_eq_ok, pure_eq_ok] at hwrite
        obtain ⟨-, -, -, -, rfl⟩ := hwrite
        refine h.keeps h' hs ?_ ⟨rfl, rfl, rfl⟩ ?_
        · split_ifs
          · rfl
          · rfl
        · split_ifs
          · exact Or.inr ⟨_, Or.inl rfl, rfl⟩
          · exact Or.inl rfl
  | endStream id =>
      obtain ⟨s, hs, rfl, rfl⟩ := hacts
      exact (h.endStream h' hs).1 (hmay s hs)
  | cancel id reason =>
      obtain ⟨s, hs, ⟨-, rfl, rfl⟩ | ⟨r, hcancel, rfl, rfl⟩⟩ := hacts
      · exact hunchanged rfl rfl
      · obtain ⟨hlive, hcancelled⟩ := h.cancelled h' hs hcancel
        rw [if_neg hlive]
        exact hcancelled
  | close id =>
      obtain ⟨s, hs, -, rfl, rfl⟩ := hacts
      obtain ⟨hhalf, hclosed⟩ := h.endStream h' hs
      split_ifs with hend
      · exact hclosed hend
      · refine hhalf fun hremote => hend ?_
        rw [MeshStream.endStream, hremote]
  | closeOne id =>
      obtain ⟨s, hs, -, ⟨hcancel, rfl, rfl⟩ | ⟨r, hcancel, rfl, rfl⟩⟩ := hacts
      · rw [List.append_nil]
        unfold MeshStream.cancel at hcancel
        split_ifs at hcancel with hclosed
        exact h.removes h' ((state?_eq hs).trans (congrArg some hclosed))
      · exact (h.cancelled h' hs hcancel).2
  | grantCredits id n =>
      obtain ⟨s, hs, ⟨rfl, rfl⟩ | ⟨r, hgrant, rfl, rfl⟩⟩ := hacts
      · exact hunchanged rfl rfl
      · simp only [MeshStream.grantCredits, bind_eq_ok, failIf_eq_ok] at hgrant
        obtain ⟨-, -, hgrant⟩ := hgrant
        split_ifs at hgrant
        · cases hgrant
          exact h.keeps (r := (s, [])) h' hs rfl ⟨rfl, rfl, rfl⟩ (Or.inl rfl)
        · simp only [bind_eq_ok, failIf_eq_ok, pure_eq_ok] at hgrant
          obtain ⟨-, -, rfl⟩ := hgrant
          exact h.keeps h' hs rfl ⟨rfl, rfl, rfl⟩ (Or.inr ⟨_, Or.inr rfl, rfl⟩)
  | goOn callback =>
      cases callback with
      | onCredits id =>
          obtain ⟨s, hs, ⟨r, hdrain, rfl, rfl⟩ | ⟨-, ⟨b, rfl⟩, rfl⟩⟩ := hacts
          · unfold MeshStream.drain at hdrain
            split at hdrain
            · cases hdrain
            · split_ifs at hdrain
              cases hdrain
              exact h.keeps h' hs rfl ⟨rfl, rfl, rfl⟩ (Or.inr ⟨_, Or.inl rfl, rfl⟩)
          · rw [List.append_nil]
            exact h.same h' rfl h.deleted h.closing
      | onEnd id =>
          obtain ⟨s, hs, rfl, b, ⟨hopen, rfl⟩ | ⟨hclosed, rfl⟩⟩ := hacts
          · rw [List.append_nil]
            refine h.same h' rfl h.deleted fun hclosed => absurd ?_ hopen
            exact Option.some.inj ((state?_eq hs).symm.trans hclosed)
          · rw [List.append_nil]
            exact h.same h' rfl (fun _ => (state?_eq hs).trans (congrArg some hclosed)) fun _ => Or.inl rfl
  | fails callback => exact hmay.elim
  | forge id n => exact hmay.elim

theorem hears {x y : StreamEnd} {id : JsString} {body : StreamBody} {v' : StreamView}
    (h : Settling (x.view id) f (y.view id) (body :: f')) (h' : Settling (y.view id) (body :: f') (x.view id) f)
    (hhears : x.Hears id body v' sent) :
    Settling v' (f ++ sent) (y.view id) f' ∧ Settling (y.view id) f' v' (f ++ sent) := by
  have hunlisted : x.stream? id = none ∨ (x.view id).deleted = true →
      (x.view id).state? = none ∨ (x.view id).state? = some .closed := by
    rintro (hnone | hdeleted)
    · exact Or.inl (congrArg (Option.map MeshStream.state) hnone)
    · exact Or.inr (h.deleted hdeleted)
  have hanswer : (∃ code message retryable, sent = [.error code message retryable]) → v' = x.view id →
      (x.view id).state? = none ∨ (x.view id).state? = some .closed →
      Settling v' (f ++ sent) (y.view id) f' ∧ Settling (y.view id) f' v' (f ++ sent) := by
    rintro ⟨code, message, retryable, rfl⟩ rfl hv
    exact h.answers h' hv rfl
  have htaken : body.kind = .data ∨ body.kind = .windowUpdate → ∀ s s' : MeshStream, x.stream? id = some s →
      s'.state = s.state → v'.state? = some s'.state → v'.deleted = (x.view id).deleted →
      v'.ending = (x.view id).ending → Settling v' f (y.view id) f' ∧ Settling (y.view id) f' v' f := by
    intro hb s s' hs hstate hv' hdeleted hending
    obtain ⟨htaken, htaken'⟩ := h.takes h' hb
    rw [hstate] at hv'
    have hsame : v'.state? = (x.view id).state? := hv'.trans (state?_eq hs).symm
    exact htaken.same htaken' hsame (by rw [hsame, hdeleted]; exact h.deleted)
      (by rw [hsame, hdeleted, hending]; exact h.closing)
  cases body with
  | opened c =>
      have hnone : (x.view id).state? = none := (h'.opening (by rw [countOf_cons]; exact Nat.succ_pos _)).1
      rcases hhears with ⟨-, -, hsome⟩ | ⟨-, rfl, herror⟩ | ⟨rfl, rfl⟩
      · obtain ⟨s, hs⟩ := Option.isSome_iff_exists.mp hsome
        exact absurd ((state?_eq (v := x.view id) hs).symm.trans hnone) (Option.some_ne_none _)
      · exact hanswer herror rfl (Or.inl hnone)
      · rw [List.append_nil]
        exact h.accepts h' rfl rfl rfl
  | data bytes seq =>
      rcases hhears with ⟨hnone, rfl, herror⟩ | ⟨s, hs, hlisted, rfl, ⟨-, rfl⟩ | ⟨s', hdata, rfl⟩⟩
      · exact hanswer herror rfl (hunlisted hnone)
      · rw [List.append_nil]
        exact h.takes h' (Or.inl rfl)
      · rw [List.append_nil]
        unfold MeshStream.receiveData at hdata
        split_ifs at hdata
        cases hdata
        exact htaken (Or.inl rfl) s _ hs rfl rfl rfl rfl
  | windowUpdate n =>
      rcases hhears with ⟨hnone, rfl, herror⟩ | ⟨s, hs, hlisted, rfl, rfl⟩
      · exact hanswer herror rfl (hunlisted hnone)
      · rw [List.append_nil]
        have hstate : (s.receiveCredits n).state = s.state := by rw [MeshStream.receiveCredits]
        exact htaken (Or.inr rfl) s (s.receiveCredits n) hs hstate rfl rfl rfl
  | ended totalBytes =>
      rcases hhears with ⟨hnone, rfl, herror⟩ | ⟨s, hs, hlisted, rfl, hend⟩
      · exact hanswer herror rfl (hunlisted hnone)
      · rw [List.append_nil]
        have hv := state?_eq (v := x.view id) hs
        rcases hend with ⟨hend, rfl⟩ | ⟨s', hend, rfl⟩
        · have hclosed : s.state = .closed := by
            unfold MeshStream.receiveEnd at hend
            split at hend
            · assumption
            all_goals cases hend
          exact h.finishesEnd h' rfl (Or.inr (hv.trans (congrArg some hclosed))) (hv.trans (congrArg some hclosed))
            (Or.inl rfl)
        · cases hstate : s.state with
          | idle => exact absurd (hv.trans (congrArg some hstate)) h.live
          | closed =>
              rw [MeshStream.receiveEnd, hstate] at hend
              cases hend
          | opened =>
              rw [MeshStream.receiveEnd, hstate] at hend
              cases hend
              exact h.hearsEnd h' rfl (hv.trans (congrArg some hstate)) rfl rfl
          | halfClosedLocal =>
              rw [MeshStream.receiveEnd, hstate] at hend
              cases hend
              exact h.finishesEnd h' rfl (Or.inl (hv.trans (congrArg some hstate))) rfl (Or.inr rfl)
          | halfClosedRemote =>
              have hnone := h'.heard (hv.trans (congrArg some hstate))
              rw [countOf_cons, if_pos (show StreamBody.kind (.ended totalBytes) = .ended from rfl)] at hnone
              cases hnone
  | error code message retryable =>
      rcases hhears with ⟨hnone, rfl, herror⟩ | ⟨s, hs, hlisted, rfl, rfl⟩
      · exact hanswer herror rfl (hunlisted hnone)
      · rw [List.append_nil]
        refine h.hearsError h' rfl ?_ rfl
        change some s.receiveError.state = some .closed
        unfold MeshStream.receiveError
        split_ifs with hclosed
        · rw [hclosed]
        · rfl

end Settling

theorem settling_reach {defaults : End → StreamDefaults} {w : StreamLink}
    (h : (streamMachine defaults).Reach Settles w) : Party.Both (EachStream Settling) w := by
  refine h.invariant (fun e id => Settling.init rfl rfl rfl) fun w a w' hI hok hs => ?_
  exact eachStream_step (fun x y a v' f f' sent h h' hmay hacts => h.acts h' hmay hacts)
    (fun x y id body v' f f' sent h h' _ hhears => h.hears h' hhears) hI hok hs

/-! ### Streams go forward -/

def StreamState.rank : StreamState → ℕ
  | .idle => 1
  | .opened => 2
  | .halfClosedRemote => 3
  | .halfClosedLocal => 4
  | .closed => 5

def StreamView.rank (v : StreamView) : ℕ := v.state?.elim 0 StreamState.rank

theorem rank_eq {v : StreamView} {s : MeshStream} (h : v.stream = some s) : v.rank = s.state.rank := by
  rw [StreamView.rank, state?_eq h]
  rfl

theorem rank_of_none {v : StreamView} (h : v.stream = none) : v.rank = 0 := by
  rw [StreamView.rank, StreamView.state?, h]
  rfl

theorem rank_le (state : StreamState) : state.rank ≤ 5 := by cases state <;> decide

/-- A stream that was ended is half closed or closed. -/
theorem state?_of_rank {v : StreamView} (h : 4 ≤ v.rank) :
    v.state? = some .closed ∨ v.state? = some .halfClosedLocal ∧ v.rank = 4 := by
  rw [StreamView.rank] at h ⊢
  cases hv : v.state? with
  | none => rw [hv] at h; cases h
  | some state =>
      rw [hv] at h
      cases state with
      | closed => exact Or.inl rfl
      | halfClosedLocal => exact Or.inr ⟨rfl, rfl⟩
      | idle => exact absurd h (by decide)
      | opened => exact absurd h (by decide)
      | halfClosedRemote => exact absurd h (by decide)

namespace MeshStream
variable {s : MeshStream}

theorem endStream_rank (s : MeshStream) :
    s.state.rank ≤ s.endStream.1.state.rank ∧ 4 ≤ s.endStream.1.state.rank := by
  unfold endStream
  cases hstate : s.state <;> simp [hstate, StreamState.rank]

variable {r : MeshStream × List StreamBody}

theorem cancel_rank {reason : JsString} (h : s.cancel reason = some r) :
    r.1.state.rank = 5 := by
  unfold cancel at h
  split_ifs at h <;> cases h <;> rfl

theorem write_state {bytes : Payload} (h : s.write bytes = .ok r) :
    r.1.state = s.state := by
  simp only [write, bind_eq_ok, failIf_eq_ok, pure_eq_ok] at h
  obtain ⟨-, -, -, -, rfl⟩ := h
  split_ifs
  · rfl
  · rfl

theorem grantCredits_state {n : JsNumber} (h : s.grantCredits n = .ok r) :
    r.1.state = s.state := by
  simp only [grantCredits, bind_eq_ok, failIf_eq_ok] at h
  obtain ⟨-, -, h⟩ := h
  split_ifs at h
  · cases h
    rfl
  · simp only [bind_eq_ok, failIf_eq_ok, pure_eq_ok] at h
    obtain ⟨-, -, rfl⟩ := h
    rfl

theorem drain_state (h : s.drain = some r) : r.1.state = s.state := by
  unfold drain at h
  split at h
  · cases h
  · split_ifs at h
    cases h
    rfl

theorem receiveData_state {bytes : Payload} {seq : ℕ} {s' : MeshStream} (h : s.receiveData bytes seq = some s') :
    s'.state = s.state := by
  unfold receiveData at h
  split_ifs at h
  cases h
  rfl

theorem receiveCredits_state (s : MeshStream) (n : JsNumber) : (s.receiveCredits n).state = s.state := by
  rw [receiveCredits]

theorem receiveEnd_rank {s' : MeshStream} (h : s.receiveEnd = some s') : s.state.rank ≤ s'.state.rank := by
  unfold receiveEnd at h
  cases hstate : s.state <;> rw [hstate] at h <;> cases h <;> simp [StreamState.rank]

theorem receiveError_rank (s : MeshStream) : s.receiveError.state.rank = 5 := by
  unfold receiveError
  split_ifs with hclosed
  · rw [hclosed]
    rfl
  · rfl

end MeshStream

theorem rank_le_of_acts {x y : StreamEnd} {a : StreamAction} {v' : StreamView} {sent : List StreamBody}
    (hmay : MayCall x y a) (hacts : x.Acts a v' sent) : (x.view a.streamId).rank ≤ v'.rank := by
  have hput : ∀ id s s', x.stream? id = some s → s.state.rank ≤ s'.state.rank →
      (x.view id).rank ≤ ((x.view id).put s').rank := by
    intro id s s' hs hle
    rw [rank_eq (show (x.view id).stream = some s from hs), rank_eq (show ((x.view id).put s').stream = some s' from rfl)]
    exact hle
  cases a with
  | openStream id initialCredits maxSize => exact (rank_of_none (v := x.view id) hmay.1).symm ▸ Nat.zero_le _
  | write id bytes =>
      obtain ⟨s, hs, ⟨rfl, -⟩ | ⟨r, hwrite, rfl, -⟩⟩ := hacts
      · exact le_refl _
      · exact hput id s r.1 hs (by rw [MeshStream.write_state hwrite])
  | endStream id =>
      obtain ⟨s, hs, rfl, -⟩ := hacts
      exact hput id s _ hs s.endStream_rank.1
  | cancel id reason =>
      obtain ⟨s, hs, ⟨-, rfl, -⟩ | ⟨r, hcancel, -, rfl⟩⟩ := hacts
      · exact le_refl _
      · have hle := hput id s r.1 hs (by rw [MeshStream.cancel_rank hcancel]; exact rank_le _)
        split_ifs
        · exact hle
        · exact hle
  | close id =>
      obtain ⟨s, hs, -, -, rfl⟩ := hacts
      have hle := hput id s _ hs s.endStream_rank.1
      split_ifs
      · exact hle
      · exact hle
  | closeOne id =>
      obtain ⟨s, hs, -, ⟨-, rfl, -⟩ | ⟨r, hcancel, -, rfl⟩⟩ := hacts
      · exact le_refl (x.view id).rank
      · exact hput id s r.1 hs (by rw [MeshStream.cancel_rank hcancel]; exact rank_le _)
  | grantCredits id n =>
      obtain ⟨s, hs, ⟨rfl, -⟩ | ⟨r, hgrant, rfl, -⟩⟩ := hacts
      · exact le_refl _
      · exact hput id s r.1 hs (by rw [MeshStream.grantCredits_state hgrant])
  | goOn callback =>
      cases callback with
      | onCredits id =>
          obtain ⟨s, hs, ⟨r, hdrain, rfl, -⟩ | ⟨-, ⟨b, rfl⟩, -⟩⟩ := hacts
          · exact hput id s r.1 hs (by rw [MeshStream.drain_state hdrain])
          · exact le_refl (x.view id).rank
      | onEnd id =>
          obtain ⟨s, hs, -, b, ⟨-, rfl⟩ | ⟨-, rfl⟩⟩ := hacts
          · exact le_refl (x.view id).rank
          · exact le_refl (x.view id).rank
  | fails callback => exact hmay.elim
  | forge id n => exact hmay.elim

theorem rank_le_of_hears {x : StreamEnd} {id : JsString} {body : StreamBody} {v' : StreamView}
    {sent : List StreamBody} (hnew : ∀ c, body = .opened c → x.stream? id = none) (hhears : x.Hears id body v' sent) :
    (x.view id).rank ≤ v'.rank := by
  have hput : ∀ s s', x.stream? id = some s → s.state.rank ≤ s'.state.rank →
      (x.view id).rank ≤ ((x.view id).put s').rank := by
    intro s s' hs hle
    rw [rank_eq (show (x.view id).stream = some s from hs), rank_eq (show ((x.view id).put s').stream = some s' from rfl)]
    exact hle
  cases body with
  | opened c => exact (rank_of_none (v := x.view id) (hnew c rfl)).symm ▸ Nat.zero_le _
  | data bytes seq =>
      rcases hhears with ⟨-, rfl, -⟩ | ⟨s, hs, -, -, ⟨-, rfl⟩ | ⟨s', hdata, rfl⟩⟩
      · exact le_refl _
      · exact le_refl _
      · exact hput s s' hs (by rw [MeshStream.receiveData_state hdata])
  | windowUpdate n =>
      rcases hhears with ⟨-, rfl, -⟩ | ⟨s, hs, -, -, rfl⟩
      · exact le_refl _
      · exact hput s (s.receiveCredits n) hs (by rw [s.receiveCredits_state])
  | ended totalBytes =>
      rcases hhears with ⟨-, rfl, -⟩ | ⟨s, hs, -, -, ⟨-, rfl⟩ | ⟨s', hend, rfl⟩⟩
      · exact le_refl _
      · exact le_refl (x.view id).rank
      · exact hput s s' hs (MeshStream.receiveEnd_rank hend)
  | error code message retryable =>
      rcases hhears with ⟨-, rfl, -⟩ | ⟨s, hs, -, -, rfl⟩
      · exact le_refl _
      · exact hput s s.receiveError hs (by rw [s.receiveError_rank]; exact rank_le _)

theorem rank_le_of_step {w w' : StreamLink} {a : Link.Action StreamAction} (h : Party.Both (EachStream Settling) w)
    (hok : Settles w a) (hs : streamParty.step w a = some w') (e : End) (id : JsString) :
    ((w e).state.view id).rank ≤ ((w' e).state.view id).rank := by
  rcases view_step hs e id with hsame | ⟨action, sent, rfl, rfl, hacts⟩ | ⟨body, rest, sent, rfl, hinbox, hhears⟩
  · rw [hsame]
  · exact rank_le_of_acts (mayCall_of_mayClose hok) hacts
  · refine rank_le_of_hears (fun c hbody => ?_) hhears
    have hsettling := h e.other id
    rw [End.other_other, hinbox] at hsettling
    subst hbody
    have hopening := hsettling.opening (by
      rw [show bodies (⟨id, .opened c⟩ :: rest) id = .opened c :: bodies rest id from
        bodies_cons_self ⟨id, .opened c⟩ rest, countOf_cons]
      exact Nat.succ_pos _)
    exact Option.map_eq_none_iff.mp hopening.1

/-! ### Quiet links -/

/-- Nothing is on the link, and no callback is running. -/
def Quiet (w : StreamLink) : Prop := ∀ e, (w e).inbox = [] ∧ (w e).state.running = []

/-- The end `e` has called `end` or `close`. -/
def Ended (e : End) (id : JsString) (acts : List (Link.Action StreamAction)) : Prop :=
  .act e (.endStream id) ∈ acts ∨ .act e (.close id) ∈ acts

/-- The end `e` has called `cancel` or `closeAll`. -/
def Cancelled (e : End) (id : JsString) (acts : List (Link.Action StreamAction)) : Prop :=
  (∃ reason, .act e (.cancel id reason) ∈ acts) ∨ .act e (.closeOne id) ∈ acts

section
variable {defaults : End → StreamDefaults} {acts : List (Link.Action StreamAction)} {w : StreamLink} {e : End}
  {id : JsString}

theorem rank_of_mem {n : ℕ} {action : StreamAction}
    (hrun : (streamMachine defaults).run Settles (streamMachine defaults).init acts = some w)
    (hmem : .act e action ∈ acts)
    (hdone : ∀ (x : StreamEnd) v' sent, x.Acts action v' sent → n ≤ v'.rank) :
    n ≤ ((w e).state.view action.streamId).rank := by
  refine Machine.of_mem_run (I := Party.Both (EachStream Settling))
    (Q := fun w => n ≤ ((w e).state.view action.streamId).rank) ?_ ?_ ?_ (settling_reach .init) hmem hrun
  · intro w a w' hI hok hs
    exact eachStream_step (fun x y a v' f f' sent h h' hmay hacts => h.acts h' hmay hacts)
      (fun x y id body v' f f' sent h h' _ hhears => h.hears h' hhears) hI hok hs
  · exact fun w a w' hI hQ hok hs => hQ.trans (rank_le_of_step hI hok hs e _)
  · intro w w' _ _ hs
    obtain ⟨r, hr, rfl⟩ := Party.step_act hs
    rw [put_self]
    exact hdone _ _ _ (StreamEnd.acts hr).1

theorem rank_of_ended (hrun : (streamMachine defaults).run Settles (streamMachine defaults).init acts = some w)
    (h : Ended e id acts) : 4 ≤ ((w e).state.view id).rank := by
  rcases h with hmem | hmem
  · refine rank_of_mem hrun hmem ?_
    rintro x v' sent ⟨s, -, rfl, -⟩
    exact s.endStream_rank.2
  · refine rank_of_mem hrun hmem ?_
    rintro x v' sent ⟨s, -, -, -, rfl⟩
    split_ifs
    · exact s.endStream_rank.2
    · exact s.endStream_rank.2

theorem rank_of_cancelled (hrun : (streamMachine defaults).run Settles (streamMachine defaults).init acts = some w)
    (h : Cancelled e id acts) : 5 ≤ ((w e).state.view id).rank := by
  have hclosed : ∀ (s : MeshStream) reason, s.cancel reason = none → 5 ≤ s.state.rank := by
    intro s reason hnone
    unfold MeshStream.cancel at hnone
    split_ifs at hnone with hclosed
    rw [hclosed]
    exact le_refl _
  rcases h with ⟨reason, hmem⟩ | hmem
  · refine rank_of_mem hrun hmem ?_
    rintro x v' sent ⟨s, hs, ⟨hcancel, rfl, -⟩ | ⟨r, hcancel, -, rfl⟩⟩
    · exact (hclosed s reason hcancel).trans (le_of_eq (rank_eq (v := x.view id) hs).symm)
    · split_ifs
      · exact le_of_eq (MeshStream.cancel_rank hcancel).symm
      · exact le_of_eq (MeshStream.cancel_rank hcancel).symm
  · refine rank_of_mem hrun hmem ?_
    rintro x v' sent ⟨s, hs, -, ⟨hcancel, rfl, -⟩ | ⟨r, hcancel, -, rfl⟩⟩
    · exact (hclosed s _ hcancel).trans (le_of_eq (rank_eq (v := x.view id) hs).symm)
    · exact le_of_eq (MeshStream.cancel_rank hcancel).symm

theorem unlisted_of_closed (hquiet : Quiet w) (h : Settling ((w e).state.view id) [] ((w e.other).state.view id) [])
    (hclosed : ((w e).state.view id).state? = some .closed) : (w e).state.mux.getStream id = none := by
  have hending : ((w e).state.view id).ending = false := by
    rw [StreamEnd.view, (hquiet e).2]
    rfl
  rcases h.closing hclosed with hdeleted | h
  · exact if_pos (of_decide_eq_true hdeleted)
  · cases hending.symm.trans h

theorem unlisted_of_none (hnone : ((w e).state.view id).state? = none) : (w e).state.mux.getStream id = none := by
  rw [StreamMultiplexer.getStream]
  split_ifs
  · rfl
  · exact Option.map_eq_none_iff.mp hnone

/-- What an end has closed, no end lists when the link is quiet. -/
theorem forgotten_of_closed (hquiet : Quiet w) (h : Party.Both (EachStream Settling) w)
    (hclosed : ((w e).state.view id).state? = some .closed) (e' : End) :
    (w e').state.mux.getStream id = none := by
  have hview : ∀ e, Settling ((w e).state.view id) [] ((w e.other).state.view id) [] := by
    intro e
    have hid := h e id
    rwa [(hquiet e).1, (hquiet e.other).1] at hid
  rcases e.eq_or_eq_other e' with rfl | rfl
  · exact unlisted_of_closed hquiet (hview _) hclosed
  · rcases (hview e).closed hclosed with herror | hclosed' | ⟨hnone, -⟩ | ⟨-, hended⟩
    · cases herror
    · exact unlisted_of_closed hquiet (hview _) hclosed'
    · exact unlisted_of_none hnone
    · cases hended

/-- In a run in which no error is dispatched to an end that does not list its stream and `end` is called by `close`
when the other end has ended the stream, a call makes at most four steps, the messages included, and once the link is
quiet no end lists a stream that both have ended or one has cancelled. -/
theorem quiesces (defaults : End → StreamDefaults) (acts : List (Link.Action StreamAction)) (w : StreamLink)
    (hrun : (streamMachine defaults).run Settles (streamMachine defaults).init acts = some w) :
    acts.length + inFlight w ≤ 4 * acts.countP isCall ∧
      (Quiet w → ∀ id, ((∃ e, Cancelled e id acts) ∨ ∀ e, Ended e id acts) →
        ∀ e, (w e).state.mux.getStream id = none) := by
  refine ⟨length_add_inFlight_le hrun, fun hquiet id hover => ?_⟩
  have hsettling := settling_reach (Machine.reach_of_run .init hrun)
  rcases hover with ⟨e, hcancelled⟩ | hended
  · rcases state?_of_rank (Nat.le_of_succ_le (rank_of_cancelled hrun hcancelled)) with hclosed | ⟨-, hrank⟩
    · exact forgotten_of_closed hquiet hsettling hclosed
    · exact absurd (rank_of_cancelled hrun hcancelled) (by rw [hrank]; decide)
  · rcases state?_of_rank (rank_of_ended hrun (hended .left)) with hclosed | ⟨hleft, -⟩
    · exact forgotten_of_closed hquiet hsettling hclosed
    rcases state?_of_rank (rank_of_ended hrun (hended .right)) with hclosed | ⟨hright, -⟩
    · exact forgotten_of_closed hquiet hsettling hclosed
    have hhalf := (hsettling .left id).half hleft
    rw [show (w End.left.other).inbox = [] from (hquiet _).1] at hhalf
    rcases hhalf with hpos | hremote | hclosed | ⟨hnone, -⟩
    · cases hpos
    · cases hright.symm.trans hremote
    · cases hright.symm.trans hclosed
    · cases hright.symm.trans hnone

end

/-- An end opens a stream, both close it. -/
def closedRun (id : JsString) : List (Link.Action StreamAction) :=
  [.act .left (.openStream id none none), .deliver .right, .act .left (.close id), .deliver .right,
    .act .right (.goOn (.onEnd id)), .act .right (.close id), .deliver .left, .act .left (.goOn (.onEnd id))]

theorem quiesces_closed : ∃ w,
    (streamMachine fun _ => STREAM_DEFAULTS).run Settles (streamMachine fun _ => STREAM_DEFAULTS).init
      (closedRun (js "s1")) = some w ∧
    (closedRun (js "s1")).length + inFlight w ≤ 4 * (closedRun (js "s1")).countP isCall ∧
    Quiet w ∧ ∀ e, (w e).state.mux.getStream (js "s1") = none := by
  obtain ⟨w, hw, -, hleft, hright⟩ := Machine.exists_of_run (P := fun w : StreamLink =>
      ((w .left).inbox = [] ∧ (w .left).state.running = []) ∧ (w .right).inbox = [] ∧ (w .right).state.running = [])
    (show ((streamMachine fun _ => STREAM_DEFAULTS).run Settles (streamMachine fun _ => STREAM_DEFAULTS).init
      (closedRun (js "s1"))).any _ = true by decide +kernel)
  have hquiet : Quiet w := fun e => (by
    cases e
    · exact hleft
    · exact hright)
  obtain ⟨hbound, hforgotten⟩ := quiesces (fun _ => STREAM_DEFAULTS) (closedRun (js "s1")) w hw
  have hended : ∀ e, Ended e (js "s1") (closedRun (js "s1")) := fun e => (by
    cases e
    · exact Or.inr (by simp [closedRun])
    · exact Or.inr (by simp [closedRun]))
  exact ⟨w, hw, hbound, hquiet, hforgotten hquiet (js "s1") (Or.inr hended)⟩

/-! ### What fails -/

/-- An error for a stream that is not known. -/
def unknownStream (id : JsString) : StreamMessage := ⟨id, .error (js "INTERNAL") (js "Unknown stream ID") false⟩

/-- Both ends answer the other one's error `n` times. -/
def answers : ℕ → List (Link.Action StreamAction)
  | 0 => []
  | n + 1 => .deliver .right :: .deliver .left :: answers n

/-- Errors for a stream that neither end lists are answered for ever. -/
theorem run_answers {d : End → StreamDefaults} {w : StreamLink} {id : JsString}
    (hunlisted : ∀ e, (w e).state.mux.getStream id = none) (hinbox : ∀ e, (w e).inbox = [unknownStream id]) (n : ℕ) :
    (streamMachine d).run (fun _ a => isCall a = false) w (answers n) = some w := by
  have hanswer : ∀ e, (w e).state.dispatch (unknownStream id) = ((w e).state, [unknownStream id]) :=
    fun e => StreamEnd.dispatch_of_unlisted (hunlisted e) fun c h => (by cases h)
  let w₁ : StreamLink := put w .right (w .right).state [] [unknownStream id]
  have hright : streamParty.step w (.deliver .right) = some w₁ := by
    have hstep : streamParty.step w (.deliver .right) = some (put w .right
        ((w .right).state.dispatch (unknownStream id)).1 [] ((w .right).state.dispatch (unknownStream id)).2) := by
      rw [Party.step, hinbox]
      rfl
    rw [hstep, hanswer]
  have hleft : streamParty.step w₁ (.deliver .left) = some w := by
    have hw₁ : w₁ .left = ⟨(w .left).state, [unknownStream id, unknownStream id]⟩ := by
      change Node.mk (w .left).state ((w .left).inbox ++ _) = _
      rw [hinbox]
      rfl
    have hstep : streamParty.step w₁ (.deliver .left) = some (put w₁ .left
        ((w .left).state.dispatch (unknownStream id)).1 [unknownStream id]
        ((w .left).state.dispatch (unknownStream id)).2) := by
      rw [Party.step, hw₁]
      rfl
    rw [hstep, hanswer]
    refine congrArg some (funext fun e => ?_)
    have he : w e = ⟨(w e).state, [unknownStream id]⟩ := by rw [← hinbox e]
    rw [he]
    cases e
    · rfl
    · rfl
  induction n with
  | zero => rfl
  | succ n ih =>
      rw [answers, Machine.run, if_pos (show isCall _ = false from rfl),
        show (streamMachine d).step w (.deliver .right) = some w₁ from hright, Option.bind_some, Machine.run,
        if_pos (show isCall _ = false from rfl),
        show (streamMachine d).step w₁ (.deliver .left) = some w from hleft, Option.bind_some]
      exact ih

theorem length_answers (n : ℕ) : (answers n).length = 2 * n := by
  induction n with
  | zero => rfl
  | succ n ih =>
      rw [answers, List.length_cons, List.length_cons, ih]
      omega

/-- Both ends cancel a stream, and both errors cross. -/
def crossing (id : JsString) : List (Link.Action StreamAction) :=
  [.act .left (.openStream id none none), .deliver .right, .act .left (.cancel id (js "")),
    .act .right (.cancel id (js "")), .deliver .right, .deliver .left, .deliver .right, .deliver .left]

/-- Two cancellations that cross are answered for ever, and `end` leaves a stream in the table that the other end has
ended. -/
theorem does_not_quiesce :
    (¬ ∀ (acts : List (Link.Action StreamAction)) (w : StreamLink),
      (streamMachine fun _ => STREAM_DEFAULTS).run Calls (streamMachine fun _ => STREAM_DEFAULTS).init acts = some w →
      ∃ n, ∀ (more : List (Link.Action StreamAction)) (w' : StreamLink),
        (streamMachine fun _ => STREAM_DEFAULTS).run (fun _ a => isCall a = false) w more = some w' →
          more.length ≤ n) ∧
    ¬ ∀ (acts : List (Link.Action StreamAction)) (w : StreamLink),
      (streamMachine fun _ => STREAM_DEFAULTS).run Calls (streamMachine fun _ => STREAM_DEFAULTS).init acts = some w →
      Quiet w → ∀ id, ((∃ e, Cancelled e id acts) ∨ ∀ e, Ended e id acts) →
        ∀ e, (w e).state.mux.getStream id = none := by
  refine ⟨fun h => ?_, fun h => ?_⟩
  · obtain ⟨w, hw, -, hleft, hright⟩ := Machine.exists_of_run (P := fun w : StreamLink =>
        ((w .left).state.mux.getStream (js "s1") = none ∧ (w .left).inbox = [unknownStream (js "s1")]) ∧
          (w .right).state.mux.getStream (js "s1") = none ∧ (w .right).inbox = [unknownStream (js "s1")])
      (show ((streamMachine fun _ => STREAM_DEFAULTS).run Calls (streamMachine fun _ => STREAM_DEFAULTS).init
        (crossing (js "s1"))).any _ = true by decide +kernel)
    obtain ⟨n, hn⟩ := h _ w hw
    have hrun := run_answers (d := fun _ => STREAM_DEFAULTS) (w := w)
      (fun e => (by
        cases e
        · exact hleft.1
        · exact hright.1))
      (fun e => (by
        cases e
        · exact hleft.2
        · exact hright.2)) (n + 1)
    have hle := hn _ w hrun
    rw [length_answers] at hle
    omega
  · let acts : List (Link.Action StreamAction) :=
      [.act .left (.openStream (js "s1") none none), .deliver .right, .act .left (.endStream (js "s1")),
        .deliver .right, .act .right (.goOn (.onEnd (js "s1"))), .act .right (.endStream (js "s1")), .deliver .left,
        .act .left (.goOn (.onEnd (js "s1")))]
    obtain ⟨w, hw, -, hleft, hright, hlisted⟩ := Machine.exists_of_run (P := fun w : StreamLink =>
        ((w .left).inbox = [] ∧ (w .left).state.running = []) ∧
          ((w .right).inbox = [] ∧ (w .right).state.running = []) ∧
            (w .right).state.mux.getStream (js "s1") ≠ none)
      (show ((streamMachine fun _ => STREAM_DEFAULTS).run Calls (streamMachine fun _ => STREAM_DEFAULTS).init
        acts).any _ = true by decide +kernel)
    have hquiet : Quiet w := fun e => (by
      cases e
      · exact hleft
      · exact hright)
    have hended : ∀ e, Ended e (js "s1") acts := fun e => (by
      cases e
      · exact Or.inl (by simp [acts])
      · exact Or.inl (by simp [acts]))
    exact hlisted (h acts w hw hquiet (js "s1") (Or.inr hended) .right)

end BrowserMesh.Transport
