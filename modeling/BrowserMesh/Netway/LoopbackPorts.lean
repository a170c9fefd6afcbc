import BrowserMesh.Js.Countdown
import BrowserMesh.Js.Dict
import BrowserMesh.Library.Transition

/-! # Ports of the loopback backend

* **Search.**  A port `0` stands for the next ephemeral port that is free.  The cursor goes round: after `k` steps it is at
  `nth start k`, and it is back at its start when it has seen all ports.
* **Sockets.**  Listeners and datagram sockets are objects, which know whether they are closed; each registry maps a port
  to the object that is bound to it.
* **Table.**  `Bound`: what is registered under a port is the open socket of that port. -/

namespace BrowserMesh.Netway
open Js Transition

/-! ### The backend -/

/-- `DEFAULTS.EPHEMERAL_PORT_START`. -/
def EPHEMERAL_PORT_START : ℕ := 49152

/-- `DEFAULTS.EPHEMERAL_PORT_END`. -/
def EPHEMERAL_PORT_END : ℕ := 65535

structure AddressInUseError where
  port : JsNumber
  deriving DecidableEq

/-- The maps of the backend. -/
inductive Registry where
  | listeners | datagramSockets
  deriving DecidableEq

/-- A listener or a datagram socket. -/
structure Socket where
  registry : Registry
  localPort : JsNumber
  closed : Bool
  deriving DecidableEq

/-- The registries map ports to the indices of sockets. -/
structure LoopbackBackend where
  listeners : JsMap JsNumber ℕ
  datagramSockets : JsMap JsNumber ℕ
  nextEphemeral : ℕ

namespace LoopbackBackend

def new : LoopbackBackend := ⟨.empty, .empty, EPHEMERAL_PORT_START⟩

def registry (b : LoopbackBackend) : Registry → JsMap JsNumber ℕ
  | .listeners => b.listeners
  | .datagramSockets => b.datagramSockets

def write (b : LoopbackBackend) (m : JsMap JsNumber ℕ) : Registry → LoopbackBackend
  | .listeners => { b with listeners := m }
  | .datagramSockets => { b with datagramSockets := m }

/-- `this.#nextEphemeral++`, and back to the start behind the last one. -/
def advance (cursor : ℕ) : ℕ := if EPHEMERAL_PORT_END < cursor + 1 then EPHEMERAL_PORT_START else cursor + 1

/-- The loop of `#allocatePort`; `none` when it goes on. -/
def searchLoop (registry : JsMap JsNumber ℕ) (start : ℕ) : ℕ → ℕ → Option (Except AddressInUseError ℕ)
  | 0, _ => none
  | rounds + 1, cursor =>
      if registry.has (.ofNat cursor) then
        if advance cursor = start then some (.error ⟨0⟩)
        else searchLoop registry start rounds (advance cursor)
      else some (.ok cursor)

def ephemeralPorts : ℕ := EPHEMERAL_PORT_END - EPHEMERAL_PORT_START + 1

/-- `#allocatePort`: the port, and the cursor after it.  A search that fails leaves the cursor where it was. -/
def allocatePort (b : LoopbackBackend) (port : JsNumber) (registry : JsMap JsNumber ℕ) :
    Option (Except AddressInUseError (JsNumber × ℕ)) :=
  if port.eq 0 then
    (searchLoop registry b.nextEphemeral ephemeralPorts b.nextEphemeral).map fun found =>
      found.map fun assigned => (.ofNat assigned, advance assigned)
  else if registry.has port then some (.error ⟨port⟩)
  else some (.ok (port, b.nextEphemeral))

end LoopbackBackend

/-- The backend, and all sockets that it has returned. -/
structure Loopback where
  backend : LoopbackBackend
  sockets : List Socket

namespace Loopback

/-- `listen` and `bindDatagram`. -/
def bind (w : Loopback) (r : Registry) (port : JsNumber) : Option (Loopback × Except AddressInUseError JsNumber) :=
  (w.backend.allocatePort port (w.backend.registry r)).map fun allocated =>
    match allocated with
    | .error e => (w, .error e)
    | .ok (actualPort, cursor) =>
        (⟨{ w.backend with nextEphemeral := cursor }.write ((w.backend.registry r).set actualPort w.sockets.length) r,
          w.sockets ++ [⟨r, actualPort, false⟩]⟩, .ok actualPort)

def listen (w : Loopback) (port : JsNumber) := w.bind .listeners port

def bindDatagram (w : Loopback) (port : JsNumber) := w.bind .datagramSockets port

/-- `close` of a socket, with its `onClose`: `_removeListener` or `_removeDatagramSocket`. -/
def closeSocket (w : Loopback) (i : ℕ) : Loopback :=
  match w.sockets[i]? with
  | none => w
  | some s =>
      if s.closed then w
      else ⟨w.backend.write ((w.backend.registry s.registry).delete s.localPort) s.registry,
        w.sockets.set i { s with closed := true }⟩

/-- `close` of the backend. -/
def close (w : Loopback) : Loopback :=
  let listenersClosed := w.backend.listeners.values.foldl closeSocket w
  let allClosed := listenersClosed.backend.datagramSockets.values.foldl closeSocket listenersClosed
  { allClosed with backend := { allClosed.backend with listeners := .empty, datagramSockets := .empty } }

inductive Action where
  | listen (port : JsNumber)
  | bindDatagram (port : JsNumber)
  | closeSocket (i : ℕ)
  | close

def step (w : Loopback) : Action → Option Loopback
  | .listen port => (w.listen port).map Prod.fst
  | .bindDatagram port => (w.bindDatagram port).map Prod.fst
  | .closeSocket i => some (w.closeSocket i)
  | .close => some w.close

def machine : Machine Loopback Action := ⟨⟨.new, []⟩, step⟩

end Loopback

/-! ### The search -/

namespace LoopbackBackend

def Ephemeral (p : ℕ) : Prop := EPHEMERAL_PORT_START ≤ p ∧ p ≤ EPHEMERAL_PORT_END

instance (p : ℕ) : Decidable (Ephemeral p) := inferInstanceAs (Decidable (_ ∧ _))

variable {p : ℕ}

theorem ephemeral_iff : Ephemeral p ↔ 49152 ≤ p ∧ p ≤ 65535 := Iff.rfl

theorem advance_eq (p : ℕ) : advance p = if 65535 < p + 1 then 49152 else p + 1 := rfl

theorem ephemeral_advance (h : Ephemeral p) : Ephemeral (advance p) := by
  rw [ephemeral_iff] at *
  rw [advance_eq]
  split_ifs with hwrap
  · omega
  · omega

/-- The port that the cursor is at after `k` steps. -/
def nth (start k : ℕ) : ℕ := EPHEMERAL_PORT_START + (start - EPHEMERAL_PORT_START + k) % ephemeralPorts

theorem nth_eq (start k : ℕ) : nth start k = 49152 + (start - 49152 + k) % 16384 := rfl

variable {start : ℕ}

theorem nth_zero (h : Ephemeral start) : nth start 0 = start := by
  rw [ephemeral_iff] at h
  rw [nth_eq]
  omega

theorem ephemeral_nth (start k : ℕ) : Ephemeral (nth start k) := by
  rw [ephemeral_iff, nth_eq]
  omega

theorem advance_nth (start k : ℕ) : advance (nth start k) = nth start (k + 1) := by
  rw [advance_eq, nth_eq, nth_eq]
  split_ifs with hwrap
  · omega
  · omega

theorem nth_eq_start_iff {k : ℕ} (h : Ephemeral start) (hk : k ≤ 16384) (hpos : 0 < k) :
    nth start k = start ↔ k = 16384 := by
  rw [ephemeral_iff] at h
  rw [nth_eq]
  omega

theorem exists_nth (hstart : Ephemeral start) (hp : Ephemeral p) : ∃ k < 16384, nth start k = p := by
  rw [ephemeral_iff] at hstart hp
  refine ⟨(p + 16384 - start) % 16384, Nat.mod_lt _ (by norm_num), ?_⟩
  rw [nth_eq]
  omega

/-- From the `k`-th port on the search finds the first free one, or none. -/
theorem searchLoop_spec (registry : JsMap JsNumber ℕ) (hstart : Ephemeral start) {k rounds : ℕ}
    (hk : k < 16384) (hrounds : 16384 ≤ k + rounds) :
    (∃ j, k ≤ j ∧ j < 16384 ∧ registry.has (.ofNat (nth start j)) = false ∧
      searchLoop registry start rounds (nth start k) = some (.ok (nth start j))) ∨
    (∀ j, k ≤ j → j < 16384 → registry.has (.ofNat (nth start j)) = true) ∧
      searchLoop registry start rounds (nth start k) = some (.error ⟨0⟩) := by
  induction rounds generalizing k with
  | zero => omega
  | succ rounds ih =>
      rw [searchLoop]
      by_cases htaken : registry.has (.ofNat (nth start k)) = true
      · rw [if_pos htaken, advance_nth]
        by_cases hend : nth start (k + 1) = start
        · rw [if_pos hend]
          have hlast := (nth_eq_start_iff hstart hk (Nat.succ_pos k)).mp hend
          refine Or.inr ⟨fun j hkj hj => ?_, rfl⟩
          obtain rfl : j = k := by omega
          exact htaken
        · rw [if_neg hend]
          have hnext : k + 1 < 16384 := by
            refine lt_of_le_of_ne hk fun heq => hend ?_
            exact (nth_eq_start_iff hstart hk (Nat.succ_pos k)).mpr heq
          rcases ih hnext (by omega) with ⟨j, hkj, hj, hfree, hfound⟩ | ⟨hall, hfull⟩
          · exact Or.inl ⟨j, by omega, hj, hfree, hfound⟩
          · refine Or.inr ⟨fun j hkj hj => ?_, hfull⟩
            rcases hkj.eq_or_lt with rfl | hkj
            · exact htaken
            · exact hall j hkj hj
      · rw [if_neg htaken]
        exact Or.inl ⟨k, le_refl k, hk, Bool.eq_false_of_not_eq_true htaken, rfl⟩

theorem searchLoop_ends (registry : JsMap JsNumber ℕ) {rounds : ℕ} (hstart : Ephemeral start)
    (hrounds : ephemeralPorts ≤ rounds) :
    (∃ p, Ephemeral p ∧ registry.has (.ofNat p) = false ∧ searchLoop registry start rounds start = some (.ok p)) ∨
    (∀ p, Ephemeral p → registry.has (.ofNat p) = true) ∧ searchLoop registry start rounds start = some (.error ⟨0⟩) := by
  have hspec := searchLoop_spec registry hstart (k := 0) (by norm_num)
    (hrounds.trans (Nat.le_add_left rounds 0))
  rw [nth_zero hstart] at hspec
  rcases hspec with ⟨j, -, -, hfree, hfound⟩ | ⟨hall, hfull⟩
  · exact Or.inl ⟨nth start j, ephemeral_nth start j, hfree, hfound⟩
  · refine Or.inr ⟨fun p hp => ?_, hfull⟩
    obtain ⟨k, hk, rfl⟩ := exists_nth hstart hp
    exact hall k (Nat.zero_le k) hk

@[simp] theorem registry_write (b : LoopbackBackend) (m : JsMap JsNumber ℕ) (r r' : Registry) :
    (b.write m r).registry r' = if r' = r then m else b.registry r' := by
  cases r <;> cases r' <;> rfl

@[simp] theorem nextEphemeral_write (b : LoopbackBackend) (m : JsMap JsNumber ℕ) (r : Registry) :
    (b.write m r).nextEphemeral = b.nextEphemeral := by cases r <;> rfl

end LoopbackBackend

/-! ### The table -/

namespace Loopback
open LoopbackBackend

/-- The socket `i` is open, in the registry `r` and at the port. -/
def OpenAt (w : Loopback) (r : Registry) (port : JsNumber) (i : ℕ) : Prop :=
  ∃ s, w.sockets[i]? = some s ∧ s.registry = r ∧ s.localPort = port ∧ s.closed = false

def InUse (w : Loopback) (r : Registry) (port : JsNumber) : Prop := ∃ i, w.OpenAt r port i

/-- A registry has the open socket of each port, and the cursor is at an ephemeral port. -/
structure Bound (w : Loopback) : Prop where
  cursor : Ephemeral w.backend.nextEphemeral
  listed : ∀ r port i, (w.backend.registry r).get? port = some i ↔ w.OpenAt r port i

namespace Bound
variable {w : Loopback}

theorem has_iff (h : Bound w) (r : Registry) (port : JsNumber) :
    (w.backend.registry r).has port = true ↔ w.InUse r port := by
  rw [JsMap.has, Option.isSome_iff_exists]
  exact exists_congr fun i => h.listed r port i

theorem has_eq_false_iff (h : Bound w) (r : Registry) (port : JsNumber) :
    (w.backend.registry r).has port = false ↔ ¬ w.InUse r port := by
  rw [← h.has_iff, Bool.not_eq_true]

theorem added (h : Bound w) {r : Registry} {port : JsNumber} {cursor : ℕ} (hfree : ¬ w.InUse r port)
    (hcursor : Ephemeral cursor) :
    Bound ⟨{ w.backend with nextEphemeral := cursor }.write
      ((w.backend.registry r).set port w.sockets.length) r, w.sockets ++ [⟨r, port, false⟩]⟩ := by
  refine ⟨by rw [nextEphemeral_write]; exact hcursor, fun r' port' i => ?_⟩
  have hold : ∀ r, ({ w.backend with nextEphemeral := cursor } : LoopbackBackend).registry r = w.backend.registry r :=
    fun r => by cases r <;> rfl
  have hopen : OpenAt ⟨{ w.backend with nextEphemeral := cursor }.write
        ((w.backend.registry r).set port w.sockets.length) r, w.sockets ++ [⟨r, port, false⟩]⟩ r' port' i ↔
      w.OpenAt r' port' i ∨ i = w.sockets.length ∧ r = r' ∧ port = port' := by
    rw [OpenAt, OpenAt]
    dsimp only
    constructor
    · rintro ⟨s, hs, hr, hport, hclosed⟩
      rw [List.getElem?_append] at hs
      split_ifs at hs with hlt
      · exact Or.inl ⟨s, hs, hr, hport, hclosed⟩
      · obtain ⟨hi, rfl⟩ := List.getElem?_eq_some_iff.mp hs |>.imp fun hi hs => (List.mem_singleton.mp (hs ▸ List.getElem_mem _))
        exact Or.inr ⟨by rw [List.length_singleton] at hi; omega, hr, hport⟩
    · rintro (⟨s, hs, hr, hport, hclosed⟩ | ⟨rfl, rfl, rfl⟩)
      · refine ⟨s, ?_, hr, hport, hclosed⟩
        rw [List.getElem?_append_left (List.getElem?_eq_some_iff.mp hs).1]
        exact hs
      · exact ⟨_, List.getElem?_concat_length, rfl, rfl, rfl⟩
  rw [hopen, registry_write, hold]
  split_ifs with hr
  · subst hr
    rw [JsMap.get?_set]
    split_ifs with hport
    · subst hport
      constructor
      · rintro heq
        exact Or.inr ⟨(Option.some.inj heq).symm, rfl, rfl⟩
      · rintro (hi | ⟨rfl, -, -⟩)
        · exact absurd ⟨i, hi⟩ hfree
        · rfl
    · rw [h.listed]
      exact ⟨Or.inl, fun hi => hi.resolve_right fun hne => hport hne.2.2.symm⟩
  · rw [h.listed]
    exact ⟨Or.inl, fun hi => hi.resolve_right fun hne => hr hne.2.1.symm⟩

end Bound

/-! ### Closing -/

variable {w : Loopback}

theorem openAt_closeSocket_iff (i : ℕ) (r : Registry) (port : JsNumber) (j : ℕ) :
    (w.closeSocket i).OpenAt r port j ↔ w.OpenAt r port j ∧ j ≠ i := by
  rw [closeSocket]
  cases hs : w.sockets[i]? with
  | none =>
      refine ⟨fun h => ⟨h, ?_⟩, And.left⟩
      rintro rfl
      obtain ⟨s, hs', -⟩ := h
      cases hs.symm.trans hs'
  | some s =>
      dsimp only
      split_ifs with hclosed
      · refine ⟨fun h => ⟨h, ?_⟩, And.left⟩
        rintro rfl
        obtain ⟨s', hs', -, -, hopen⟩ := h
        obtain rfl := Option.some.inj (hs.symm.trans hs')
        cases hclosed.symm.trans hopen
      · have hlt := (List.getElem?_eq_some_iff.mp hs).1
        constructor
        · rintro ⟨s', hs', hr, hport, hopen⟩
          dsimp only at hs'
          rw [List.getElem?_set] at hs'
          split_ifs at hs' with hij
          · obtain rfl := Option.some.inj hs'
            cases hopen
          · exact ⟨⟨s', hs', hr, hport, hopen⟩, Ne.symm hij⟩
        · rintro ⟨⟨s', hs', hr, hport, hopen⟩, hne⟩
          refine ⟨s', ?_, hr, hport, hopen⟩
          dsimp only
          rw [List.getElem?_set_ne (Ne.symm hne)]
          exact hs'

theorem Bound.closeSocket (h : Bound w) (i : ℕ) : Bound (w.closeSocket i) := by
  have hopen := openAt_closeSocket_iff (w := w) i
  refine ⟨?_, fun r port j => ?_⟩
  · rw [Loopback.closeSocket]
    split
    · exact h.cursor
    · split_ifs
      · exact h.cursor
      · rw [nextEphemeral_write]
        exact h.cursor
  · rw [hopen]
    have hown : ∀ s, w.sockets[i]? = some s → s.closed = false →
        (w.backend.registry s.registry).get? s.localPort = some i := fun s hs hclosed =>
      (h.listed _ _ _).mpr ⟨s, hs, rfl, rfl, hclosed⟩
    have hunlisted : ∀ j, (∀ s, w.sockets[i]? = some s → s.closed = true) →
        ((w.backend.registry r).get? port = some j ↔ w.OpenAt r port j ∧ j ≠ i) := by
      intro j hclosed
      rw [h.listed]
      refine ⟨fun hj => ⟨hj, ?_⟩, And.left⟩
      rintro rfl
      obtain ⟨s, hs, -, -, hopen⟩ := hj
      cases (hclosed s hs).symm.trans hopen
    rw [Loopback.closeSocket]
    cases hs : w.sockets[i]? with
    | none => exact hunlisted j fun s hs' => by cases hs.symm.trans hs'
    | some s =>
        dsimp only
        split_ifs with hclosed
        · exact hunlisted j fun s' hs' => Option.some.inj (hs.symm.trans hs') ▸ hclosed
        · have hget := hown s hs (Bool.eq_false_of_not_eq_true hclosed)
          rw [registry_write]
          by_cases hr : r = s.registry
          · rw [if_pos hr, JsMap.get?_delete, hr]
            by_cases hport : port = s.localPort
            · rw [if_pos hport, hport]
              constructor
              · intro hj
                cases hj
              · rintro ⟨hj, hne⟩
                exact absurd (Option.some.inj (((h.listed _ _ _).mpr hj).symm.trans hget)) hne
            · rw [if_neg hport, h.listed]
              refine ⟨fun hj => ⟨hj, ?_⟩, And.left⟩
              rintro rfl
              obtain ⟨s', hs', -, hport', -⟩ := hj
              exact hport (hport' ▸ Option.some.inj (hs.symm.trans hs') ▸ rfl)
          · rw [if_neg hr, h.listed]
            refine ⟨fun hj => ⟨hj, ?_⟩, And.left⟩
            rintro rfl
            obtain ⟨s', hs', hr', -, -⟩ := hj
            exact hr (hr' ▸ Option.some.inj (hs.symm.trans hs') ▸ rfl)

theorem foldl_closeSocket (h : Bound w) (l : List ℕ) : Bound (l.foldl Loopback.closeSocket w) ∧
    ∀ r port j, (l.foldl Loopback.closeSocket w).OpenAt r port j ↔ w.OpenAt r port j ∧ j ∉ l := by
  induction l generalizing w with
  | nil => exact ⟨h, fun r port j => ⟨fun hj => ⟨hj, List.not_mem_nil⟩, And.left⟩⟩
  | cons i l ih =>
      obtain ⟨hbound, hopen⟩ := ih (h.closeSocket i)
      refine ⟨hbound, fun r port j => (hopen r port j).trans ?_⟩
      rw [openAt_closeSocket_iff, List.mem_cons, not_or, and_assoc]

theorem Bound.close (h : Bound w) : Bound w.close ∧ ∀ r port j, ¬ w.close.OpenAt r port j := by
  have hvalue : ∀ {w : Loopback}, Bound w → ∀ {r port j}, w.OpenAt r port j → j ∈ (w.backend.registry r).values := by
    intro w h r port j hj
    exact List.mem_map.mpr ⟨(port, j), JsMap.mem_entries_iff.mpr ((h.listed r port j).mpr hj), rfl⟩
  obtain ⟨hbound, hopen⟩ := foldl_closeSocket h w.backend.listeners.values
  obtain ⟨hbound', hopen'⟩ := foldl_closeSocket hbound
    (w.backend.listeners.values.foldl Loopback.closeSocket w).backend.datagramSockets.values
  have hnone : ∀ r port j, ¬ w.close.OpenAt r port j := by
    intro r port j hj
    obtain ⟨hj, hdatagram⟩ := (hopen' r port j).mp hj
    obtain ⟨hopenAt, hlistener⟩ := (hopen r port j).mp hj
    cases r with
    | listeners => exact hlistener (hvalue h hopenAt)
    | datagramSockets => exact hdatagram (hvalue hbound hj)
  refine ⟨⟨hbound'.cursor, fun r port j => ⟨fun hj => ?_, fun hj => absurd hj (hnone r port j)⟩⟩, hnone⟩
  cases r with
  | listeners => cases hj
  | datagramSockets => cases hj

/-! ### Requests -/

theorem Bound.bind (h : Bound w) (r : Registry) (port : JsNumber) :
    (∃ e, w.bind r port = some (w, .error e) ∧
      if port.eq 0 then e = ⟨0⟩ ∧ ∀ p, Ephemeral p → w.InUse r (.ofNat p) else e = ⟨port⟩ ∧ w.InUse r port) ∨
    ∃ actualPort w', w.bind r port = some (w', .ok actualPort) ∧ Bound w' ∧ ¬ w.InUse r actualPort ∧
      w'.InUse r actualPort ∧
      if port.eq 0 then ∃ p, Ephemeral p ∧ actualPort = .ofNat p else actualPort = port := by
  have hbound : ∀ actualPort cursor, ¬ w.InUse r actualPort → Ephemeral cursor →
      w.backend.allocatePort port (w.backend.registry r) = some (.ok (actualPort, cursor)) →
      ∃ w', w.bind r port = some (w', .ok actualPort) ∧ Bound w' ∧ w'.InUse r actualPort := by
    intro actualPort cursor hfree hcursor hallocated
    refine ⟨_, by rw [Loopback.bind, hallocated]; rfl, h.added hfree hcursor, w.sockets.length, ⟨r, actualPort, false⟩,
      List.getElem?_concat_length, rfl, rfl, rfl⟩
  by_cases hzero : port.eq 0 = true
  · simp only [hzero, if_true]
    rcases searchLoop_ends (w.backend.registry r) h.cursor (le_refl ephemeralPorts) with
      ⟨p, hp, hfree, hfound⟩ | ⟨hall, hfull⟩
    · refine Or.inr ?_
      rw [h.has_eq_false_iff] at hfree
      obtain ⟨w', hbind, hw', hused⟩ := hbound (.ofNat p) (advance p) hfree (ephemeral_advance hp)
        (by rw [allocatePort, if_pos hzero, hfound]; rfl)
      exact ⟨.ofNat p, w', hbind, hw', hfree, hused, p, hp, rfl⟩
    · refine Or.inl ⟨⟨0⟩, ?_, rfl, fun p hp => (h.has_iff r _).mp (hall p hp)⟩
      rw [Loopback.bind, allocatePort, if_pos hzero, hfull]
      rfl
  · simp only [hzero, Bool.false_eq_true, if_false]
    by_cases hused : (w.backend.registry r).has port = true
    · refine Or.inl ⟨⟨port⟩, ?_, rfl, (h.has_iff r _).mp hused⟩
      rw [Loopback.bind, allocatePort, if_neg hzero, if_pos hused]
      rfl
    · rw [h.has_iff] at hused
      obtain ⟨w', hbind, hw', hnow⟩ := hbound port w.backend.nextEphemeral hused h.cursor (by
        rw [allocatePort, if_neg hzero, if_neg (fun hhas => hused ((h.has_iff r _).mp hhas))])
      exact Or.inr ⟨port, w', hbind, hw', hused, hnow, rfl⟩

theorem bound_reach (h : machine.Reach (fun _ _ => True) w) : Bound w := by
  have hinit : Bound machine.init := by
    refine ⟨(by decide), fun r port i => ⟨fun hi => ?_, ?_⟩⟩
    · cases r <;> cases hi
    · rintro ⟨s, hs, -⟩
      cases hs
  refine h.invariant hinit fun w a w' hI _ hs => ?_
  · have hbind : ∀ r port, (w.bind r port).map Prod.fst = some w' → Bound w' := by
      intro r port hs
      rcases hI.bind r port with ⟨e, hbind, -⟩ | ⟨actualPort, w₁, hbind, hw₁, -⟩
      · rw [hbind] at hs
        exact Option.some.inj hs ▸ hI
      · rw [hbind] at hs
        exact Option.some.inj hs ▸ hw₁
    cases a with
    | listen port => exact hbind .listeners port hs
    | bindDatagram port => exact hbind .datagramSockets port hs
    | closeSocket i => exact Option.some.inj hs ▸ hI.closeSocket i
    | close => exact Option.some.inj hs ▸ hI.close.1

/-- No two open sockets of a registry share a port, and the cursor stays at an ephemeral port.  The search ends after at
most all ephemeral ports, and a request for port `0` gets one that was free if there is one, and otherwise fails and
changes nothing; a request for another port gets that port if it was free.  Closing a socket frees its own port only, and
closing the backend frees all. -/
theorem port_table (h : machine.Reach (fun _ _ => True) w) :
    (∀ r port i j, w.OpenAt r port i → w.OpenAt r port j → i = j) ∧
    Ephemeral w.backend.nextEphemeral ∧
    (∀ r rounds, ephemeralPorts ≤ rounds →
      searchLoop (w.backend.registry r) w.backend.nextEphemeral rounds w.backend.nextEphemeral ≠ none) ∧
    (∀ r, (∃ p, Ephemeral p ∧ ¬ w.InUse r (.ofNat p)) ↔
      ∃ p w', Ephemeral p ∧ ¬ w.InUse r (.ofNat p) ∧ w.bind r 0 = some (w', .ok (.ofNat p)) ∧ w'.InUse r (.ofNat p)) ∧
    (∀ r, (¬ ∃ p, Ephemeral p ∧ ¬ w.InUse r (.ofNat p)) → w.bind r 0 = some (w, .error ⟨0⟩)) ∧
    (∀ r port, port.eq 0 = false → (w.InUse r port → w.bind r port = some (w, .error ⟨port⟩)) ∧
      (¬ w.InUse r port → ∃ w', w.bind r port = some (w', .ok port) ∧ w'.InUse r port)) ∧
    (∀ i r port, w.OpenAt r port i → ∀ r' port', (w.closeSocket i).InUse r' port' ↔
      w.InUse r' port' ∧ ¬ (r' = r ∧ port' = port)) ∧
    ∀ r port, ¬ w.close.InUse r port := by
  have hbound := bound_reach h
  have hexclusive : ∀ r port i j, w.OpenAt r port i → w.OpenAt r port j → i = j := by
    intro r port i j hi hj
    exact Option.some.inj (((hbound.listed r port i).mpr hi).symm.trans ((hbound.listed r port j).mpr hj))
  have hzero : (0 : JsNumber).eq 0 = true := by decide +kernel
  refine ⟨hexclusive, hbound.cursor, fun r rounds hrounds => ?_, fun r => ⟨?_, ?_⟩, fun r hnone => ?_,
    fun r port hport => ?_, fun i r port hi r' port' => ⟨?_, ?_⟩, fun r port ⟨i, hi⟩ => hbound.close.2 r port i hi⟩
  · rcases searchLoop_ends (w.backend.registry r) hbound.cursor hrounds with ⟨p, -, -, hfound⟩ | ⟨-, hfull⟩
    · rw [hfound]
      exact Option.some_ne_none _
    · rw [hfull]
      exact Option.some_ne_none _
  · rintro ⟨p, hp, hfree⟩
    rcases hbound.bind r 0 with ⟨e, -, hall⟩ | ⟨actualPort, w', hbind, -, hunused, hused, hport⟩
    · rw [if_pos hzero] at hall
      exact absurd (hall.2 p hp) hfree
    · rw [if_pos hzero] at hport
      obtain ⟨q, hq, rfl⟩ := hport
      exact ⟨q, w', hq, hunused, hbind, hused⟩
  · rintro ⟨p, w', hp, hfree, -⟩
    exact ⟨p, hp, hfree⟩
  · rcases hbound.bind r 0 with ⟨e, hbind, hall⟩ | ⟨actualPort, w', -, -, hunused, -, hport⟩
    · rw [if_pos hzero] at hall
      rw [hbind, hall.1]
    · rw [if_pos hzero] at hport
      obtain ⟨q, hq, rfl⟩ := hport
      exact absurd ⟨q, hq, hunused⟩ hnone
  · rcases hbound.bind r port with ⟨e, hbind, he⟩ | ⟨actualPort, w', hbind, -, hunused, hused, heq⟩
    · rw [hport, if_neg Bool.false_ne_true] at he
      exact ⟨fun _ => by rw [hbind, he.1], fun hfree => absurd he.2 hfree⟩
    · rw [hport, if_neg Bool.false_ne_true] at heq
      subst heq
      exact ⟨fun hnow => absurd hnow hunused, fun _ => ⟨w', hbind, hused⟩⟩
  · rintro ⟨j, hj⟩
    obtain ⟨hj, hne⟩ := (openAt_closeSocket_iff i r' port' j).mp hj
    refine ⟨⟨j, hj⟩, ?_⟩
    rintro ⟨rfl, rfl⟩
    exact hne (hexclusive _ _ _ _ hj hi)
  · rintro ⟨⟨j, hj⟩, hother⟩
    refine ⟨j, (openAt_closeSocket_iff i r' port' j).mpr ⟨hj, ?_⟩⟩
    rintro rfl
    obtain ⟨s, hs, rfl, rfl, -⟩ := hi
    obtain ⟨s', hs', rfl, rfl, -⟩ := hj
    exact hother (Option.some.inj (hs.symm.trans hs') ▸ ⟨rfl, rfl⟩)

theorem step_listen (w : Loopback) (port : JsNumber) :
    Loopback.machine.step w (.listen port) = (w.bind .listeners port).map Prod.fst := rfl

/-- With a listener at the first ephemeral port, a request for port `0` gets another one. -/
theorem port_table_listened : ∃ w, Loopback.machine.step machine.init (.listen (.ofNat 49152)) = some w ∧
    ∃ p w', Ephemeral p ∧ ¬ w.InUse .listeners (.ofNat p) ∧ w.bind .listeners 0 = some (w', .ok (.ofNat p)) ∧
      w'.InUse .listeners (.ofNat p) := by
  have hlisten : Loopback.machine.step machine.init (.listen (.ofNat 49152)) =
      some ⟨⟨JsMap.empty.set (.ofNat 49152) 0, .empty, 49152⟩, [⟨.listeners, .ofNat 49152, false⟩]⟩ := by
    have hallocated : machine.init.backend.allocatePort (.ofNat 49152) (machine.init.backend.registry .listeners) =
        some (.ok (.ofNat 49152, 49152)) := by
      rw [allocatePort, if_neg (by decide +kernel)]
      rfl
    rw [step_listen, Loopback.bind, hallocated]
    rfl
  refine ⟨_, hlisten, ?_⟩
  have htable := port_table (.step .init trivial hlisten)
  refine (htable.2.2.2.1 .listeners).mp ⟨49153, ephemeral_iff.mpr (by norm_num), ?_⟩
  rintro ⟨i, s, hs, -, hport, -⟩
  obtain rfl := List.mem_singleton.mp (List.mem_of_getElem? hs)
  exact absurd hport (by decide +kernel)

end Loopback
end BrowserMesh.Netway
