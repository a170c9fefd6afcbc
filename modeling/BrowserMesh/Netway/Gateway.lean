import BrowserMesh.Library.Transition

/-! # Replies of the gateway

* **Calls.**  A call of `#doConnect` and its kin takes an id, hands its request to the wsh client, and registers itself as
  pending when `sendControl` has completed.  Calls are named by their ids.
* **Replies.**  A reply looks its id up in the maps of its kinds, and answers the call it finds.
* **Tables.**  `Registered`: the pending maps have the calls that are pending, each under its own id. -/

namespace BrowserMesh.Netway
open Transition

/-! ### The backend -/

/-- The operations that await a reply. -/
inductive Kind where
  | connect | listen | sendDatagram | resolve
  deriving DecidableEq

inductive Counter where
  | gatewayId | listenerId
  deriving DecidableEq

/-- The counter that the operation takes its id from. -/
def Kind.counter : Kind → Counter
  | listen => .listenerId
  | _ => .gatewayId

inductive MessageType where
  | gatewayOk | gatewayFail | dnsResult | listenOk | listenFail
  deriving DecidableEq

/-- A reply, with its `gateway_id` or `listener_id` and what else it brings. -/
structure Message (β : Type) where
  type : MessageType
  id : ℕ
  body : β

inductive Outcome (β : Type) where
  | replied (m : Message β)
  | timedOut
  | sendFailed

inductive Phase (β : Type) where
  /-- Awaiting the `sendControl` of the request. -/
  | sending
  | pending
  /-- Awaiting the `sendControl` of the datagram, after its channel was opened. -/
  | delivering (m : Message β)
  | settled (o : Outcome β)

structure Call (β : Type) where
  kind : Kind
  phase : Phase β

def Call.settle {β : Type} (o : Outcome β) (c : Call β) : Call β :=
  match c.phase with
  | .settled _ => c
  | _ => { c with phase := .settled o }

structure GatewayBackend (β : Type) where
  connected : Bool
  queue : List Kind
  /-- What each run of `drain` has left to execute. -/
  drains : List (List Kind)
  /-- `#gatewayIdCounter` and `#listenerIdCounter`. -/
  counters : Counter → ℕ
  /-- The ids in `#pendingConnections`, `#pendingListens`, `#pendingUdp` and `#pendingDns`. -/
  pending : Kind → Finset ℕ
  calls : Counter × ℕ → Option (Call β)

namespace GatewayBackend
variable {β : Type}

def new : GatewayBackend β := ⟨false, [], [], fun _ => 0, fun _ => ∅, fun _ => none⟩

def modify (s : GatewayBackend β) (id : Counter × ℕ) (f : Call β → Call β) : GatewayBackend β :=
  { s with calls := Function.update s.calls id ((s.calls id).map f) }

/-- `pendingMap.delete(id)`. -/
def delete (s : GatewayBackend β) (k : Kind) (n : ℕ) : GatewayBackend β :=
  { s with pending := Function.update s.pending k ((s.pending k).erase n) }

/-- `++counter`. -/
def increment (s : GatewayBackend β) (c : Counter) : GatewayBackend β :=
  { s with counters := Function.update s.counters c (s.counters c + 1) }

/-- The beginning of `#doConnect`, `#doListen`, `#doSendDatagram` and `#doResolve`. -/
def start (s : GatewayBackend β) (k : Kind) : GatewayBackend β :=
  { s.increment k.counter with
    calls := Function.update s.calls (k.counter, s.counters k.counter + 1) (some ⟨k, .sending⟩) }

@[simp] theorem counters_increment (s : GatewayBackend β) (c c' : Counter) :
    (s.increment c).counters c' = if c' = c then s.counters c + 1 else s.counters c' := Function.update_apply _ _ _ _

@[simp] theorem calls_start (s : GatewayBackend β) (k : Kind) (id : Counter × ℕ) :
    (s.start k).calls id = if id = (k.counter, s.counters k.counter + 1) then some ⟨k, .sending⟩ else s.calls id :=
  Function.update_apply _ _ _ _

/-- The `sendControl` of the request completes, or fails. -/
def sent (s : GatewayBackend β) (k : Kind) (n : ℕ) (succeeds : Bool) : Option (GatewayBackend β) :=
  match s.calls (k.counter, n) with
  | some ⟨k', .sending⟩ =>
      if k' ≠ k then none
      else if succeeds then
        some { s with
          pending := Function.update s.pending k (insert n (s.pending k))
          calls := Function.update s.calls (k.counter, n) (some ⟨k, .pending⟩) }
      else some (s.modify (k.counter, n) (Call.settle .sendFailed))
  | _ => none

/-- The timer of `#withTimeout`. -/
def timeout (s : GatewayBackend β) (k : Kind) (n : ℕ) : Option (GatewayBackend β) :=
  match s.calls (k.counter, n) with
  | some ⟨k', .pending⟩ | some ⟨k', .delivering _⟩ =>
      if k' ≠ k then none else some ((s.delete k n).modify (k.counter, n) (Call.settle .timedOut))
  | _ => none

/-- The `sendControl` of the datagram completes, or fails. -/
def dataSent (s : GatewayBackend β) (n : ℕ) (succeeds : Bool) : Option (GatewayBackend β) :=
  match s.calls (.gatewayId, n) with
  | some ⟨.sendDatagram, .delivering m⟩ =>
      some (s.modify (.gatewayId, n) (Call.settle (if succeeds then .replied m else .sendFailed)))
  | _ => none

/-- `#handleGatewayMessage`. -/
def handleGatewayMessage (s : GatewayBackend β) (m : Message β) : GatewayBackend β :=
  match m.type with
  | .gatewayOk =>
      if m.id ∈ s.pending .connect then
        (s.delete .connect m.id).modify (.gatewayId, m.id) (Call.settle (.replied m))
      else if m.id ∈ s.pending .sendDatagram then
        (s.delete .sendDatagram m.id).modify (.gatewayId, m.id) fun c => { c with phase := .delivering m }
      else s
  | .gatewayFail =>
      if m.id ∈ s.pending .connect ∨ m.id ∈ s.pending .sendDatagram ∨ m.id ∈ s.pending .resolve then
        (((s.delete .connect m.id).delete .sendDatagram m.id).delete .resolve m.id).modify (.gatewayId, m.id)
          (Call.settle (.replied m))
      else s
  | .dnsResult =>
      if m.id ∈ s.pending .resolve then
        (s.delete .resolve m.id).modify (.gatewayId, m.id) (Call.settle (.replied m))
      else s
  | .listenOk | .listenFail =>
      if m.id ∈ s.pending .listen then
        (s.delete .listen m.id).modify (.listenerId, m.id) (Call.settle (.replied m))
      else s

inductive Action (β : Type) where
  /-- The wsh client is authenticated, or is not any more. -/
  | setConnected (connected : Bool)
  /-- `connect`, `listen`, `sendDatagram` or `resolve`. -/
  | call (k : Kind)
  | drain
  /-- A drain executes its next operation: the one before has settled, or its drain timeout is over. -/
  | drainNext (i : ℕ)
  | sent (k : Kind) (n : ℕ) (succeeds : Bool)
  | dataSent (n : ℕ) (succeeds : Bool)
  | timeout (k : Kind) (n : ℕ)
  | message (m : Message β)
  /-- An inbound connection takes the next `gateway_id`. -/
  | inboundOpen

def step (maxSize : ℕ) (s : GatewayBackend β) : Action β → Option (GatewayBackend β)
  | .setConnected connected => some { s with connected := connected }
  | .call k =>
      if s.connected then some (s.start k)
      else if s.queue.length < maxSize then some { s with queue := s.queue ++ [k] } else none
  | .drain => some { s with queue := [], drains := s.drains ++ [s.queue] }
  | .drainNext i =>
      match s.drains[i]? with
      | some (k :: rest) => some ({ s with drains := s.drains.set i rest }.start k)
      | _ => none
  | .sent k n succeeds => s.sent k n succeeds
  | .dataSent n succeeds => s.dataSent n succeeds
  | .timeout k n => s.timeout k n
  | .message m => some (s.handleGatewayMessage m)
  | .inboundOpen => some (s.increment .gatewayId)

def machine (β : Type) (maxSize : ℕ) : Machine (GatewayBackend β) (Action β) := ⟨new, step maxSize⟩

end GatewayBackend

/-! ### What a reply is for -/

def MessageType.kinds : MessageType → List Kind
  | gatewayOk => [.connect, .sendDatagram]
  | gatewayFail => [.connect, .sendDatagram, .resolve]
  | dnsResult => [.resolve]
  | listenOk | listenFail => [.listen]

theorem MessageType.counter_eq {t : MessageType} {k k' : Kind} (hk : k ∈ t.kinds) (hk' : k' ∈ t.kinds) :
    k.counter = k'.counter := by
  cases t <;> cases k <;> cases k' <;> first
    | rfl
    | simp [kinds] at hk hk'

/-- A datagram is sent when its channel is open; all other replies settle their calls. -/
def Message.answered {β : Type} (m : Message β) : Kind → Phase β
  | .sendDatagram => if m.type = .gatewayOk then .delivering m else .settled (.replied m)
  | _ => .settled (.replied m)

namespace GatewayBackend
variable {β : Type} {s : GatewayBackend β}

/-- The pending maps have the calls that are pending, and ids beyond the counters are free. -/
structure Registered (s : GatewayBackend β) : Prop where
  listed : ∀ k n, n ∈ s.pending k ↔ s.calls (k.counter, n) = some ⟨k, .pending⟩
  used : ∀ id call, s.calls id = some call → id.2 ≤ s.counters id.1

namespace Registered

theorem not_mem_of_ne (h : Registered s) {k k' : Kind} {n : ℕ} (hn : n ∈ s.pending k) (hne : k' ≠ k)
    (hcounter : k'.counter = k.counter) : n ∉ s.pending k' := by
  intro hn'
  have heq := (hcounter ▸ (h.listed k' n).mp hn').symm.trans ((h.listed k n).mp hn)
  exact hne (congrArg Call.kind (Option.some.inj heq))

theorem moved (h : Registered s) {k : Kind} {n : ℕ} {old phase : Phase β} {ids : Finset ℕ}
    (hcall : s.calls (k.counter, n) = some ⟨k, old⟩) (hother : ∀ n', n' ≠ n → (n' ∈ ids ↔ n' ∈ s.pending k))
    (hself : n ∈ ids ↔ phase = .pending) :
    Registered { s with
      pending := Function.update s.pending k ids
      calls := Function.update s.calls (k.counter, n) (some ⟨k, phase⟩) } := by
  refine ⟨fun k' n' => ?_, fun id call hid => ?_⟩
  · dsimp only
    by_cases hk : k' = k
    · subst hk
      rw [Function.update_self]
      by_cases hn : n' = n
      · subst hn
        rw [Function.update_self, hself, Option.some.injEq, Call.mk.injEq]
        exact (and_iff_right rfl).symm
      · rw [Function.update_of_ne fun heq => hn (Prod.mk.inj heq).2, hother n' hn]
        exact h.listed k' n'
    · rw [Function.update_of_ne hk, h.listed k' n', Function.update_apply]
      split_ifs with hid
      · rw [hid, hcall, Option.some.injEq, Option.some.injEq, Call.mk.injEq, Call.mk.injEq]
        exact iff_of_false (fun heq => hk heq.1.symm) (fun heq => hk heq.1.symm)
      · exact Iff.rfl
  · dsimp only at hid ⊢
    rw [Function.update_apply] at hid
    split_ifs at hid with heq
    · exact heq ▸ h.used _ _ hcall
    · exact h.used id call hid

theorem incremented (h : Registered s) (c : Counter) : Registered (s.increment c) := by
  refine ⟨h.listed, fun id call hid => (h.used id call hid).trans ?_⟩
  rw [counters_increment]
  split_ifs with heq
  · exact heq ▸ Nat.le_succ _
  · exact le_refl _

theorem free (h : Registered s) (c : Counter) : s.calls (c, s.counters c + 1) = none := by
  by_contra hne
  obtain ⟨call, hcall⟩ := Option.ne_none_iff_exists'.mp hne
  exact absurd (h.used _ call hcall) (Nat.not_succ_le_self _)

theorem started (h : Registered s) (k : Kind) : Registered (s.start k) := by
  refine ⟨fun k' n => ?_, fun id call hid => ?_⟩
  · rw [calls_start]
    split_ifs with heq
    · refine (h.listed k' n).trans (iff_of_false (fun hpending => ?_) (fun hsending => by cases hsending))
      rw [heq, h.free] at hpending
      cases hpending
    · exact h.listed k' n
  · rw [calls_start] at hid
    split_ifs at hid with heq
    · rw [heq]
      exact (counters_increment s k.counter k.counter).symm ▸ (if_pos rfl).symm.le
    · exact (h.incremented k.counter).used id call hid

end Registered

/-! ### What a reply does -/

/-- The call `n` is found in the map of its kind, and answered. -/
def answer (s : GatewayBackend β) (k : Kind) (n : ℕ) (phase : Phase β) : GatewayBackend β :=
  { s with
    pending := Function.update s.pending k ((s.pending k).erase n)
    calls := Function.update s.calls (k.counter, n) (some ⟨k, phase⟩) }

variable {k : Kind}

theorem delete_of_notMem {n : ℕ} (h : n ∉ s.pending k) : s.delete k n = s := by
  rw [delete, Finset.erase_eq_of_notMem h, Function.update_eq_self]

theorem pending_delete_of_ne {k' : Kind} (h : k' ≠ k) (n : ℕ) : (s.delete k n).pending k' = s.pending k' :=
  Function.update_of_ne h _ _

theorem handleGatewayMessage_of_mem (h : Registered s) {m : Message β} (hk : k ∈ m.type.kinds)
    (hn : m.id ∈ s.pending k) : s.handleGatewayMessage m = s.answer k m.id (m.answered k) := by
  have hcall := (h.listed k m.id).mp hn
  have hmodify : ∀ f : Call β → Call β, f ⟨k, .pending⟩ = ⟨k, m.answered k⟩ →
      (s.delete k m.id).modify (k.counter, m.id) f = s.answer k m.id (m.answered k) := by
    intro f hf
    have hmap : ((s.delete k m.id).calls (k.counter, m.id)).map f = some ⟨k, m.answered k⟩ := by
      rw [← hf]
      exact congrArg (Option.map f) hcall
    rw [modify, hmap]
    rfl
  have hother : ∀ k', k' ≠ k → k'.counter = k.counter → m.id ∉ s.pending k' := fun k' => h.not_mem_of_ne hn
  obtain ⟨type, id, body⟩ := m
  cases type with
  | gatewayOk =>
      rcases List.mem_pair.mp hk with rfl | rfl
      · exact (if_pos hn).trans (hmodify _ rfl)
      · exact (if_neg (hother .connect (by decide) rfl)).trans
          ((if_pos hn).trans (hmodify (fun c => { c with phase := .delivering _ }) rfl))
  | gatewayFail =>
      simp only [MessageType.kinds, List.mem_cons, List.not_mem_nil, or_false] at hk
      rcases hk with rfl | rfl | rfl
      · refine (if_pos (Or.inl hn)).trans ?_
        have hdatagram : id ∉ (s.delete .connect id).pending .sendDatagram := by
          rw [pending_delete_of_ne (by decide)]
          exact hother .sendDatagram (by decide) rfl
        have hresolve : id ∉ (s.delete .connect id).pending .resolve := by
          rw [pending_delete_of_ne (by decide)]
          exact hother .resolve (by decide) rfl
        rw [delete_of_notMem hdatagram, delete_of_notMem hresolve]
        exact hmodify _ rfl
      · refine (if_pos (Or.inr (Or.inl hn))).trans ?_
        have hresolve : id ∉ (s.delete .sendDatagram id).pending .resolve := by
          rw [pending_delete_of_ne (by decide)]
          exact hother .resolve (by decide) rfl
        rw [delete_of_notMem (hother .connect (by decide) rfl), delete_of_notMem hresolve]
        exact hmodify _ rfl
      · refine (if_pos (Or.inr (Or.inr hn))).trans ?_
        rw [delete_of_notMem (hother .connect (by decide) rfl), delete_of_notMem (hother .sendDatagram (by decide) rfl)]
        exact hmodify _ rfl
  | dnsResult =>
      obtain rfl := List.mem_singleton.mp hk
      exact (if_pos hn).trans (hmodify _ rfl)
  | listenOk =>
      obtain rfl := List.mem_singleton.mp hk
      exact (if_pos hn).trans (hmodify _ rfl)
  | listenFail =>
      obtain rfl := List.mem_singleton.mp hk
      exact (if_pos hn).trans (hmodify _ rfl)

theorem handleGatewayMessage_of_not_mem {m : Message β} (h : ∀ k ∈ m.type.kinds, m.id ∉ s.pending k) :
    s.handleGatewayMessage m = s := by
  obtain ⟨type, id, body⟩ := m
  dsimp only at h
  cases type with
  | gatewayOk => exact (if_neg (h .connect (by decide))).trans (if_neg (h .sendDatagram (by decide)))
  | gatewayFail =>
      exact if_neg (not_or.mpr ⟨h .connect (by decide), not_or.mpr ⟨h .sendDatagram (by decide), h .resolve (by decide)⟩⟩)
  | dnsResult => exact if_neg (h .resolve (by decide))
  | listenOk => exact if_neg (h .listen (by decide))
  | listenFail => exact if_neg (h .listen (by decide))

theorem Registered.answered (h : Registered s) {n : ℕ} {old phase : Phase β}
    (hcall : s.calls (k.counter, n) = some ⟨k, old⟩) (hphase : phase ≠ .pending) : Registered (s.answer k n phase) :=
  h.moved hcall (fun _ hn => Finset.mem_erase.trans (and_iff_right hn))
    (iff_of_false (Finset.notMem_erase n _) hphase)

theorem answered_ne_pending (m : Message β) (k : Kind) : m.answered k ≠ .pending := by
  intro h
  cases k with
  | sendDatagram =>
      rw [Message.answered] at h
      split_ifs at h
  | connect => cases h
  | listen => cases h
  | resolve => cases h

/-! ### Steps -/

def Keeps (s s' : GatewayBackend β) : Prop :=
  ∀ id k o, s.calls id = some ⟨k, .settled o⟩ → s'.calls id = some ⟨k, .settled o⟩

theorem keeps_update {id : Counter × ℕ} {call : Option (Call β)} {s' : GatewayBackend β}
    (hopen : ∀ k o, s.calls id ≠ some ⟨k, .settled o⟩) (hs : s'.calls = Function.update s.calls id call) : Keeps s s' := by
  intro id' k o hid
  rw [hs, Function.update_of_ne]
  · exact hid
  · rintro rfl
    exact hopen k o hid

theorem keeps_answer {n : ℕ} {old phase : Phase β} (hcall : s.calls (k.counter, n) = some ⟨k, old⟩)
    (hopen : ∀ o, old ≠ .settled o) : Keeps s (s.answer k n phase) :=
  keeps_update (fun _ o heq => hopen o (congrArg Call.phase (Option.some.inj (hcall.symm.trans heq)))) rfl

theorem modify_settle {n : ℕ} {old : Phase β} (o : Outcome β)
    (hcall : s.calls (k.counter, n) = some ⟨k, old⟩) (hopen : ∀ o, old ≠ .settled o) :
    (s.delete k n).modify (k.counter, n) (Call.settle o) = s.answer k n (.settled o) := by
  have hsettle : Call.settle o ⟨k, old⟩ = ⟨k, .settled o⟩ := by
    cases old with
    | settled o' => exact absurd rfl (hopen o')
    | sending => rfl
    | pending => rfl
    | delivering m => rfl
  have hmap : ((s.delete k n).calls (k.counter, n)).map (Call.settle o) = some ⟨k, .settled o⟩ := by
    rw [← hsettle]
    exact congrArg _ hcall
  rw [modify, hmap]
  rfl

theorem step_registered (h : Registered s) {maxSize : ℕ} {a : Action β} {s' : GatewayBackend β}
    (hs : step maxSize s a = some s') : Registered s' ∧ Keeps s s' := by
  have hstart : ∀ {s₁ : GatewayBackend β} (k : Kind), Registered s₁ → Registered (s₁.start k) ∧ Keeps s₁ (s₁.start k) :=
    fun {s₁} k h => ⟨h.started k, keeps_update (fun _ o heq => by cases (h.free k.counter).symm.trans heq) rfl⟩
  have hsettle : ∀ {k n old} (o : Outcome β), s.calls (k.counter, n) = some ⟨k, old⟩ → (∀ o, old ≠ .settled o) →
      Registered ((s.delete k n).modify (k.counter, n) (Call.settle o)) ∧
        Keeps s ((s.delete k n).modify (k.counter, n) (Call.settle o)) := by
    intro k n old o hcall hopen
    rw [modify_settle o hcall hopen]
    exact ⟨h.answered hcall (fun heq => by cases heq), keeps_answer hcall hopen⟩
  -- a call that is not pending is in no map
  have hunlisted : ∀ {k n old}, s.calls (k.counter, n) = some ⟨k, old⟩ → old ≠ .pending → s.delete k n = s := by
    intro k n old hcall hold
    refine delete_of_notMem fun hn => hold ?_
    exact congrArg Call.phase (Option.some.inj (hcall.symm.trans ((h.listed k n).mp hn)))
  cases a with
  | setConnected connected =>
      obtain rfl := Option.some.inj hs
      exact ⟨⟨h.listed, h.used⟩, fun _ _ _ hid => hid⟩
  | call k =>
      rw [step] at hs
      split_ifs at hs
      · exact Option.some.inj hs ▸ hstart k h
      · obtain rfl := Option.some.inj hs
        exact ⟨⟨h.listed, h.used⟩, fun _ _ _ hid => hid⟩
  | drain =>
      obtain rfl := Option.some.inj hs
      exact ⟨⟨h.listed, h.used⟩, fun _ _ _ hid => hid⟩
  | drainNext i =>
      rw [step] at hs
      split at hs
      · exact Option.some.inj hs ▸ hstart _ ⟨h.listed, h.used⟩
      · cases hs
  | sent k n succeeds =>
      rw [step, sent] at hs
      split at hs
      · rename_i k' hcall
        split_ifs at hs with hk hsucceeds
        · obtain rfl := Option.some.inj hs
          obtain rfl := not_not.mp hk
          refine ⟨h.moved hcall (fun n' hn => ?_) (iff_of_true (Finset.mem_insert_self n _) rfl), ?_⟩
          · exact Finset.mem_insert.trans (or_iff_right hn)
          · exact keeps_update (fun k o heq => by cases hcall.symm.trans heq) rfl
        · obtain rfl := not_not.mp hk
          have hstep := hsettle .sendFailed hcall (fun o ho => by cases ho)
          rw [hunlisted hcall (fun hold => by cases hold)] at hstep
          exact Option.some.inj hs ▸ hstep
      · cases hs
  | dataSent n succeeds =>
      rw [step, dataSent] at hs
      split at hs
      · rename_i m hcall
        have hstep := hsettle (k := .sendDatagram) (if succeeds then .replied m else .sendFailed) hcall
          (fun o ho => by cases ho)
        rw [hunlisted (k := .sendDatagram) hcall (fun hold => by cases hold)] at hstep
        exact Option.some.inj hs ▸ hstep
      · cases hs
  | timeout k n =>
      rw [step, timeout] at hs
      split at hs
      · rename_i k' hcall
        split_ifs at hs with hk
        obtain rfl := not_not.mp hk
        exact Option.some.inj hs ▸ hsettle .timedOut hcall (fun o ho => by cases ho)
      · rename_i k' m hcall
        split_ifs at hs with hk
        obtain rfl := not_not.mp hk
        exact Option.some.inj hs ▸ hsettle .timedOut hcall (fun o ho => by cases ho)
      · cases hs
  | message m =>
      obtain rfl := Option.some.inj hs
      by_cases hfound : ∃ k ∈ m.type.kinds, m.id ∈ s.pending k
      · obtain ⟨k, hk, hn⟩ := hfound
        have hcall := (h.listed k m.id).mp hn
        rw [handleGatewayMessage_of_mem h hk hn]
        exact ⟨h.answered hcall (answered_ne_pending m k), keeps_answer hcall (fun o ho => by cases ho)⟩
      · rw [handleGatewayMessage_of_not_mem fun k hk hn => hfound ⟨k, hk, hn⟩]
        exact ⟨h, fun _ _ _ hid => hid⟩
  | inboundOpen =>
      obtain rfl := Option.some.inj hs
      exact ⟨h.incremented _, fun _ _ _ hid => hid⟩

theorem registered_reach {maxSize : ℕ} (h : (machine β maxSize).Reach (fun _ _ => True) s) : Registered s := by
  have hinit : Registered (new : GatewayBackend β) :=
    ⟨fun k n => iff_of_false (Finset.notMem_empty n) (fun hn => by cases hn), fun id call hid => (by cases hid)⟩
  exact h.invariant hinit fun s a s' hI _ hs => (step_registered hI (show step maxSize s a = some s' from hs)).1

/-- **Replies**: a reply answers the call with its id exactly if the `sendControl` of the request has completed, and changes
no other call; a call that is settled stays so. -/
theorem reply_answers_iff {maxSize : ℕ} (h : (machine β maxSize).Reach (fun _ _ => True) s) :
    (∀ (m : Message β) (k : Kind) (phase : Phase β), k ∈ m.type.kinds → s.calls (k.counter, m.id) = some ⟨k, phase⟩ →
      phase = .sending ∨ phase = .pending →
        ((s.handleGatewayMessage m).calls (k.counter, m.id) = some ⟨k, m.answered k⟩ ↔ phase = .pending)) ∧
    (∀ (m : Message β) (id : Counter × ℕ), (∀ k ∈ m.type.kinds, id ≠ (k.counter, m.id)) →
      (s.handleGatewayMessage m).calls id = s.calls id) ∧
    ∀ a s', step maxSize s a = some s' → Keeps s s' := by
  have hI := registered_reach h
  refine ⟨fun m k phase hk hcall hopen => ?_, fun m id hother => ?_, fun a s' hs => (step_registered hI hs).2⟩
  · rcases hopen with rfl | rfl
    · have hnone : ∀ k' ∈ m.type.kinds, m.id ∉ s.pending k' := by
        intro k' hk' hn
        rw [hI.listed, MessageType.counter_eq hk' hk, hcall] at hn
        cases hn
      rw [handleGatewayMessage_of_not_mem hnone, hcall]
      refine iff_of_false (fun heq => ?_) (fun heq => by cases heq)
      have hanswered := congrArg Call.phase (Option.some.inj heq)
      cases k with
      | sendDatagram =>
          rw [Message.answered] at hanswered
          split_ifs at hanswered
      | connect => cases hanswered
      | listen => cases hanswered
      | resolve => cases hanswered
    · refine iff_of_true ?_ rfl
      rw [handleGatewayMessage_of_mem hI hk ((hI.listed k m.id).mpr hcall)]
      exact Function.update_self _ _ _
  · by_cases hfound : ∃ k ∈ m.type.kinds, m.id ∈ s.pending k
    · obtain ⟨k, hk, hn⟩ := hfound
      rw [handleGatewayMessage_of_mem hI hk hn]
      exact Function.update_of_ne (hother k hk) _ _
    · rw [handleGatewayMessage_of_not_mem fun k hk hn => hfound ⟨k, hk, hn⟩]

theorem reply_answers_iff_sent : ∃ s : GatewayBackend Unit,
    (machine Unit 256).run (fun _ _ => True) new [.setConnected true, .call .connect, .sent .connect 1 true] = some s ∧
      (s.handleGatewayMessage ⟨.gatewayOk, 1, ()⟩).calls (.gatewayId, 1) =
        some ⟨.connect, .settled (.replied ⟨.gatewayOk, 1, ()⟩)⟩ := by
  refine ⟨_, rfl, ?_⟩
  have hreach := Machine.reach_of_run (m := machine Unit 256) .init
    (show (machine Unit 256).run (fun _ _ => True) new [.setConnected true, .call .connect, .sent .connect 1 true] =
      some _ from rfl)
  exact ((reply_answers_iff hreach).1 ⟨.gatewayOk, 1, ()⟩ .connect .pending (by decide) rfl (Or.inr rfl)).mpr rfl

/-- A reply that comes before the `sendControl` of its request has completed is lost. -/
theorem reply_lost : ∃ s : GatewayBackend Unit,
    (machine Unit 256).run (fun _ _ => True) new
      [.setConnected true, .call .connect, .message ⟨.gatewayOk, 1, ()⟩, .sent .connect 1 true] = some s ∧
      s.calls (.gatewayId, 1) = some ⟨.connect, .pending⟩ :=
  ⟨_, rfl, rfl⟩

end GatewayBackend
end BrowserMesh.Netway
