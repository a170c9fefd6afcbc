import BrowserMesh.Transport.WebRTC

/-! # How a WebRTC connection ends

* **Held.**  Only the current peer connection is not released, and a closed connection holds nothing.
* **Open.**  While the control channel is open and no failure was reported, the connection says so.
* **Once.**  The close callbacks run when the connection is closed, and not again.

`Sound` is kept by every step but three kinds, which `Orderly` leaves out. -/

namespace BrowserMesh.Transport
open Js Async Transition

/-- A failure of the peer connection was reported, and the state was not `connected` again since. -/
def failureReported : List RtcNote → Bool
  | [] => false
  | .error .peerFailed :: _ => true
  | .stateChanged .connected :: _ => false
  | .stateChanged .new :: rest => failureReported rest
  | .stateChanged .connecting :: rest => failureReported rest
  | .stateChanged .failed :: rest => failureReported rest
  | .stateChanged .closed :: rest => failureReported rest
  | .closed :: rest => failureReported rest
  | .error .peerDisconnected :: rest => failureReported rest
  | .error .peerClosed :: rest => failureReported rest
  | .error (.channel _) :: rest => failureReported rest

def closesIn (log : List RtcNote) : ℕ := log.count .closed

namespace WebRTCPeerConnection
variable {s s' : WebRTCPeerConnection} {i : ℕ}

def ControlOpen (s : WebRTCPeerConnection) : Prop := ∃ c ∈ s.channelAt s.dataChannel, c.readyState = .opened

instance (s : WebRTCPeerConnection) : Decidable s.ControlOpen := inferInstanceAs (Decidable (∃ c ∈ _, _))

structure Sound (s : WebRTCPeerConnection) : Prop where
  only : ∀ i p, s.peers[i]? = some p → p.released = false → s.pc = some i
  empty : s.state = .closed → s.pc = none ∧ s.dataChannel = none ∧ s.bulkChannel = none ∧ s.extraChannels = .empty
  control : ∀ i, s.dataChannel = some i → ∃ c, s.channels[i]? = some c ∧ c.kind = .control ∧ c.handled = true
  connected : s.ControlOpen → failureReported s.log = false → s.state = .connected
  once : closesIn s.log = if s.state = .closed then 1 else 0

/-- The invariant is kept, and nothing leaves `closed`. -/
def Keeps (s s' : WebRTCPeerConnection) : Prop := s'.Sound ∧ (s.state = .closed → s'.state = .closed)

theorem Keeps.refl (h : Sound s) : Keeps s s := ⟨h, id⟩

theorem controlOpen_iff : s.ControlOpen ↔
    ∃ i c, s.dataChannel = some i ∧ s.channels[i]? = some c ∧ c.readyState = .opened := by
  unfold ControlOpen channelAt
  constructor
  · rintro ⟨c, hc, hopen⟩
    obtain ⟨i, hi, hc⟩ := Option.bind_eq_some_iff.mp hc
    exact ⟨i, c, hi, hc, hopen⟩
  · rintro ⟨i, c, hi, hc, hopen⟩
    exact ⟨c, Option.bind_eq_some_iff.mpr ⟨i, hi, hc⟩, hopen⟩

theorem not_controlOpen (h : s.dataChannel = none) : ¬ s.ControlOpen := by
  rw [controlOpen_iff]
  rintro ⟨i, c, hi, -⟩
  cases h.symm.trans hi

/-! ### States -/

theorem Sound.congr (h : Sound s) (hpeers : s'.peers.map RtcPeer.released = s.peers.map RtcPeer.released)
    (hchannels : s'.channels = s.channels) (hpc : s'.pc = s.pc) (hdata : s'.dataChannel = s.dataChannel)
    (hbulk : s'.bulkChannel = s.bulkChannel) (hextra : s'.extraChannels = s.extraChannels) (hstate : s'.state = s.state)
    (hfailure : failureReported s'.log = false → failureReported s.log = false)
    (hcloses : closesIn s'.log = closesIn s.log) : Sound s' := by
  refine ⟨fun i p' hp' hreleased => ?_, ?_, ?_, fun hopen hreported => ?_, ?_⟩
  · have hmap := congrArg (·[i]?) hpeers
    simp only [List.getElem?_map] at hmap
    rw [hp'] at hmap
    obtain ⟨p, hp, heq⟩ := Option.map_eq_some_iff.mp hmap.symm
    rw [hpc]
    exact h.only i p hp (heq.trans hreleased)
  · rw [hstate, hpc, hdata, hbulk, hextra]
    exact h.empty
  · rw [hdata, hchannels]
    exact h.control
  · rw [hstate]
    rw [controlOpen_iff, hdata, hchannels, ← controlOpen_iff] at hopen
    exact h.connected hopen (hfailure hreported)
  · rw [hcloses, hstate]
    exact h.once

variable {next : ConnectionState}

theorem failureReported_stateChanged (h : next ≠ .connected) (log : List RtcNote) :
    failureReported (.stateChanged next :: log) = failureReported log := by
  cases next with
  | connected => exact absurd rfl h
  | new => rfl
  | connecting => rfl
  | failed => rfl
  | closed => rfl

theorem setState_same (h : s.state = next) : s.setState next = s := if_pos h

theorem setState_of_ne (h : s.state ≠ next) :
    s.setState next = { s with
      state := next
      disconnectedTimer := if next = .closed then false else s.disconnectedTimer
      log := .stateChanged next :: s.log } := if_neg h

/-- A state other than `closed`; it is `connected`, or the control channel is not open without a failure. -/
theorem Sound.setState (h : Sound s) (hnext : next ≠ .closed) (hstate : s.state ≠ .closed)
    (hopen : next = .connected ∨ (s.ControlOpen → failureReported s.log = true)) : Keeps s (s.setState next) := by
  by_cases hsame : s.state = next
  · rw [setState_same hsame]
    exact .refl h
  · rw [setState_of_ne hsame]
    refine ⟨⟨h.only, fun heq => absurd heq hnext, h.control, fun hcontrol hreported => ?_, ?_⟩, fun heq => absurd heq hstate⟩
    · rcases hopen with rfl | hopen
      · rfl
      · by_cases hconnected : next = .connected
        · exact hconnected
        · change failureReported (.stateChanged next :: s.log) = false at hreported
          rw [failureReported_stateChanged hconnected, hopen hcontrol] at hreported
          cases hreported
    · change closesIn (.stateChanged next :: s.log) = if next = .closed then 1 else 0
      have honce := h.once
      rw [if_neg hstate] at honce
      rw [if_neg hnext, ← honce]
      exact List.count_cons_of_ne (fun heq => (by cases heq))

/-! ### Connections that are let go -/

/-- Nothing is held, and every peer connection is released. -/
structure Bare (s s' : WebRTCPeerConnection) : Prop where
  released : ∀ (i : ℕ) (p : RtcPeer), s'.peers[i]? = some p → p.released = true
  pc : s'.pc = none
  dataChannel : s'.dataChannel = none
  bulkChannel : s'.bulkChannel = none
  extraChannels : s'.extraChannels = .empty
  state : s'.state = s.state
  log : s'.log = s.log

theorem foldl_dropChannel (detach : Bool) (l : List ℕ) (s : WebRTCPeerConnection) :
    (l.foldl (dropChannel · detach) s).peers = s.peers ∧ (l.foldl (dropChannel · detach) s).state = s.state ∧
      (l.foldl (dropChannel · detach) s).log = s.log := by
  induction l generalizing s with
  | nil => exact ⟨rfl, rfl, rfl⟩
  | cons i l ih => exact ih (s.dropChannel detach i)

theorem bare_dropAll (h : ∀ (i : ℕ) (p : RtcPeer), s.peers[i]? = some p → p.released = false → s.pc = some i) (detach : Bool) :
    Bare s (s.dropAll detach) := by
  have hchannels := foldl_dropChannel detach (s.dataChannel.toList ++ s.bulkChannel.toList ++ s.extraChannels.values) s
  refine ⟨fun i p hp => ?_, rfl, rfl, rfl, rfl, ?_, ?_⟩
  · cases hpc : s.pc with
    | none =>
        simp only [dropAll, hpc, Option.toList_none, List.foldl_nil] at hp
        rw [hchannels.1] at hp
        cases hreleased : p.released with
        | true => rfl
        | false =>
            cases hpc.symm.trans (h i p hp hreleased)
    | some j =>
        simp only [dropAll, hpc, Option.toList_some, List.foldl_cons, List.foldl_nil, dropPeer, modifyPeer] at hp
        rw [hchannels.1, List.getElem?_modify] at hp
        obtain ⟨p₀, hp₀, rfl⟩ := Option.map_eq_some_iff.mp hp
        split_ifs with hij
        · rfl
        · cases hreleased : p₀.released with
          | true => rfl
          | false => exact absurd (Option.some.inj (hpc.symm.trans (h i p₀ hp₀ hreleased))) hij
  · cases hpc : s.pc with
    | none =>
        simp only [dropAll, hpc, Option.toList_none, List.foldl_nil]
        exact hchannels.2.1
    | some j =>
        simp only [dropAll, hpc, Option.toList_some, List.foldl_cons, List.foldl_nil, dropPeer, modifyPeer]
        exact hchannels.2.1
  · cases hpc : s.pc with
    | none =>
        simp only [dropAll, hpc, Option.toList_none, List.foldl_nil]
        exact hchannels.2.2
    | some j =>
        simp only [dropAll, hpc, Option.toList_some, List.foldl_cons, List.foldl_nil, dropPeer, modifyPeer]
        exact hchannels.2.2

theorem Bare.sound (hbare : Bare s s') (h : Sound s) : Sound s' := by
  refine ⟨fun i p hp hreleased => ?_, fun _ => ⟨hbare.pc, hbare.dataChannel, hbare.bulkChannel, hbare.extraChannels⟩,
    fun i hi => ?_, fun hopen => absurd hopen (not_controlOpen hbare.dataChannel), ?_⟩
  · cases (hbare.released i p hp).symm.trans hreleased
  · cases hbare.dataChannel.symm.trans hi
  · rw [hbare.log, hbare.state]
    exact h.once

theorem Sound.close (h : Sound s) : Keeps s s.close ∧ s.close.state = .closed := by
  have hbare := bare_dropAll h.only false
  have hsound := hbare.sound h
  unfold WebRTCPeerConnection.close
  split_ifs with hclosed
  · exact ⟨⟨hsound, fun _ => hbare.state.trans hclosed⟩, hbare.state.trans hclosed⟩
  · have hstate : (s.dropAll false).state ≠ .closed := by rwa [hbare.state]
    have hafter : (((s.dropAll false).setState .closed).note .closed).state = .closed := by
      rw [setState_of_ne hstate]
      rfl
    refine ⟨⟨?_, fun heq => absurd heq hclosed⟩, hafter⟩
    have honce := hsound.once
    rw [if_neg hstate] at honce
    rw [setState_of_ne hstate]
    refine ⟨fun i p hp hreleased => ?_, fun _ => ⟨hbare.pc, hbare.dataChannel, hbare.bulkChannel, hbare.extraChannels⟩,
      fun i hi => ?_, fun hopen => absurd hopen (not_controlOpen hbare.dataChannel), ?_⟩
    · cases (hbare.released i p hp).symm.trans hreleased
    · cases hbare.dataChannel.symm.trans hi
    · change closesIn (.closed :: .stateChanged .closed :: (s.dropAll false).log) = 1
      rw [closesIn, List.count_cons_self, List.count_cons_of_ne (fun heq => (by cases heq))]
      exact congrArg (· + 1) honce

/-! ### Events -/

theorem Sound.addPeer (h : Sound s) (hstate : s.state ≠ .closed)
    (hreleased : ∀ (i : ℕ) (p : RtcPeer), s.peers[i]? = some p → p.released = true) (adopts : Bool) :
    Sound (s.addPeer adopts) := by
  refine ⟨fun i p hp hopen => ?_, fun heq => absurd heq hstate, h.control, h.connected, h.once⟩
  change (s.peers ++ [_])[i]? = some p at hp
  rcases Nat.lt_trichotomy i s.peers.length with hlt | rfl | hgt
  · rw [List.getElem?_append_left hlt] at hp
    cases (hreleased i p hp).symm.trans hopen
  · rfl
  · rw [List.getElem?_eq_none ((List.length_append).trans_le hgt)] at hp
    cases hp

theorem Sound.addChannel (h : Sound s) (hstate : s.state ≠ .closed) (peer : ℕ) (kind : ChannelKind) :
    Keeps s (s.addChannel peer kind) := by
  have hold : ∀ (i : ℕ) (c : RtcChannel), s.channels[i]? = some c →
      (s.channels ++ [RtcChannel.mk peer kind .connecting true])[i]? = some c := by
    intro i c hc
    rw [List.getElem?_append_left (List.getElem?_eq_some_iff.mp hc).1]
    exact hc
  have hcontrol : ∀ i, s.dataChannel = some i → ∃ c,
      (s.channels ++ [RtcChannel.mk peer kind .connecting true])[i]? = some c ∧ c.kind = .control ∧ c.handled = true := by
    intro i hi
    obtain ⟨c, hc, hkind⟩ := h.control i hi
    exact ⟨c, hold i c hc, hkind⟩
  have hopen : ∀ i c, s.dataChannel = some i →
      (s.channels ++ [RtcChannel.mk peer kind .connecting true])[i]? = some c → c.readyState = .opened → s.ControlOpen := by
    intro i c hi hc hready
    obtain ⟨c₀, hc₀, -⟩ := h.control i hi
    obtain rfl := Option.some.inj ((hold i c₀ hc₀).symm.trans hc)
    exact controlOpen_iff.mpr ⟨i, c₀, hi, hc₀, hready⟩
  refine ⟨?_, fun heq => absurd heq hstate⟩
  unfold WebRTCPeerConnection.addChannel
  dsimp only
  cases kind with
  | control =>
      refine ⟨h.only, fun heq => absurd heq hstate, fun i hi => ?_, fun hcontrol _ => ?_, h.once⟩
      · obtain rfl := Option.some.inj hi
        exact ⟨_, List.getElem?_concat_length, rfl, rfl⟩
      · obtain ⟨i, c, hi, hc, hready⟩ := controlOpen_iff.mp hcontrol
        obtain rfl := Option.some.inj hi
        obtain rfl := Option.some.inj (List.getElem?_concat_length.symm.trans hc)
        cases hready
  | bulk =>
      refine ⟨h.only, fun heq => absurd heq hstate, hcontrol, fun hcontrol hreported => ?_, h.once⟩
      obtain ⟨i, c, hi, hc, hready⟩ := controlOpen_iff.mp hcontrol
      exact h.connected (hopen i c hi hc hready) hreported
  | extra name =>
      refine ⟨h.only, fun heq => absurd heq hstate, hcontrol, fun hcontrol hreported => ?_, h.once⟩
      obtain ⟨i, c, hi, hc, hready⟩ := controlOpen_iff.mp hcontrol
      exact h.connected (hopen i c hi hc hready) hreported

variable {c : RtcChannel}

theorem channel_of_modify {f : RtcChannel → RtcChannel} {i j : ℕ} (h : (s.modifyChannel i f).channels[j]? = some c) :
    ∃ c₀, s.channels[j]? = some c₀ ∧ c = if i = j then f c₀ else c₀ := by
  unfold modifyChannel at h
  rw [List.getElem?_modify] at h
  obtain ⟨c₀, hc₀, heq⟩ := Option.map_eq_some_iff.mp h
  exact ⟨c₀, hc₀, heq.symm⟩

theorem Sound.control_modify (h : Sound s) (i : ℕ) (ready : ReadyState) :
    ∀ j, s.dataChannel = some j → ∃ c, (s.modifyChannel i fun c => { c with readyState := ready }).channels[j]? = some c ∧
      c.kind = .control ∧ c.handled = true := by
  intro j hj
  obtain ⟨c, hc, hkind, hhandled⟩ := h.control j hj
  refine ⟨if i = j then { c with readyState := ready } else c, ?_, ?_⟩
  · unfold modifyChannel
    rw [List.getElem?_modify, hc]
    rfl
  · split_ifs
    · exact ⟨hkind, hhandled⟩
    · exact ⟨hkind, hhandled⟩

theorem Sound.modifyChannel (h : Sound s) {ready : ReadyState} (hi : s.dataChannel ≠ some i ∨ ready ≠ .opened) :
    Sound (s.modifyChannel i fun c => { c with readyState := ready }) := by
  refine ⟨h.only, h.empty, h.control_modify i ready, fun hopen hreported => h.connected ?_ hreported, h.once⟩
  obtain ⟨j, c, hj, hc, hready⟩ := controlOpen_iff.mp hopen
  obtain ⟨c₀, hc₀, rfl⟩ := channel_of_modify hc
  refine controlOpen_iff.mpr ⟨j, c₀, hj, hc₀, ?_⟩
  split_ifs at hready with hij
  · exact absurd hi (fun hi => hi.elim (fun hne => hne (hij ▸ hj)) fun hne => hne hready)
  · exact hready

theorem Sound.forget (h : Sound s) (i : ℕ) (kind : ChannelKind) : Keeps s (s.forget i kind) := by
  unfold WebRTCPeerConnection.forget
  cases kind with
  | control => exact .refl h
  | bulk =>
      dsimp only
      split_ifs with hbulk
      · refine ⟨⟨h.only, fun hclosed => ?_, h.control, h.connected, h.once⟩, id⟩
        obtain ⟨hpc, hdata, -, hextra⟩ := h.empty hclosed
        exact ⟨hpc, hdata, rfl, hextra⟩
      · exact .refl h
  | extra name =>
      dsimp only
      split_ifs with hname
      · refine ⟨⟨h.only, fun hclosed => ?_, h.control, h.connected, h.once⟩, id⟩
        obtain ⟨-, -, -, hextra⟩ := h.empty hclosed
        rw [hextra] at hname
        cases hname
      · exact .refl h

theorem Keeps.trans {s'' : WebRTCPeerConnection} (h : Keeps s s') (h' : Keeps s' s'') : Keeps s s'' :=
  ⟨h'.1, fun hclosed => h'.2 (h.2 hclosed)⟩

theorem Sound.error (h : Sound s) (e : RtcError) : Keeps s (s.note (.error e)) := by
  refine ⟨h.congr rfl rfl rfl rfl rfl rfl rfl (fun hreported => ?_) (List.count_cons_of_ne (fun heq => (by cases heq))), id⟩
  cases e with
  | peerFailed => cases hreported
  | peerDisconnected => exact hreported
  | peerClosed => exact hreported
  | channel kind => exact hreported

theorem Sound.timer (h : Sound s) (timer : Bool) : Keeps s { s with disconnectedTimer := timer } :=
  ⟨h.congr rfl rfl rfl rfl rfl rfl rfl id rfl, id⟩

theorem Sound.opens (h : Sound s) (hc : s.channels[i]? = some c)
    (hs : s.channelEvent i c .opens = some s') : Keeps s s' := by
  simp only [channelEvent] at hs
  split_ifs at hs with hmay hcontrol
  · obtain rfl := Option.some.inj hs
    obtain ⟨-, p, hp, hreleased⟩ := hmay
    have hstate : s.state ≠ .closed := by
      intro hclosed
      cases (h.empty hclosed).1.symm.trans (h.only _ p hp hreleased)
    by_cases hsame : (s.modifyChannel i fun c => { c with readyState := .opened }).state = .connected
    · rw [setState_same hsame]
      exact ⟨⟨h.only, h.empty, h.control_modify i .opened, fun _ _ => hsame, h.once⟩, id⟩
    · rw [setState_of_ne hsame]
      refine ⟨⟨h.only, fun heq => (by cases heq), h.control_modify i .opened, fun _ _ => rfl, ?_⟩,
        fun hclosed => absurd hclosed hstate⟩
      have honce := h.once
      rw [if_neg hstate] at honce
      change closesIn (.stateChanged .connected :: s.log) = 0
      rw [← honce]
      exact List.count_cons_of_ne (fun heq => (by cases heq))
  · obtain rfl := Option.some.inj hs
    refine ⟨h.modifyChannel (.inl fun hi => ?_), id⟩
    obtain ⟨c₀, hc₀, hkind, hhandled⟩ := h.control i hi
    obtain rfl := Option.some.inj (hc.symm.trans hc₀)
    exact hcontrol ⟨hhandled, hkind⟩

theorem Sound.closes (h : Sound s) (hs : s.channelEvent i c .closes = some s') : Keeps s s' := by
  simp only [channelEvent] at hs
  have hsound : Keeps s (s.modifyChannel i fun c => { c with readyState := .closed }) :=
    ⟨h.modifyChannel (.inr fun heq => (by cases heq)), id⟩
  split_ifs at hs
  · obtain rfl := Option.some.inj hs
    unfold onChannelClose
    split_ifs
    · exact hsound.trans hsound.1.close.1
    · exact hsound
    · exact hsound.trans (hsound.1.forget i c.kind)
  · obtain rfl := Option.some.inj hs
    exact hsound

theorem Sound.errors (h : Sound s) (hmay : c.handled = true → c.kind = .control → s.state = .closed)
    (hs : s.channelEvent i c .errors = some s') : Keeps s s' := by
  simp only [channelEvent] at hs
  have hnoted := h.error (.channel c.kind)
  split_ifs at hs with hready hhandled
  · obtain rfl := Option.some.inj hs
    unfold onChannelError
    dsimp only
    split_ifs with hkind hopen
    · exact absurd (hmay hhandled hkind) hopen
    · exact hnoted
    · exact hnoted.trans (hnoted.1.forget i c.kind)
  · obtain rfl := Option.some.inj hs
    exact .refl h

theorem Sound.failed (h : Sound s) (hstate : s.state ≠ .closed) :
    Keeps s ((s.setState .failed).note (.error .peerFailed)) := by
  have honce := h.once
  rw [if_neg hstate] at honce
  by_cases hsame : s.state = .failed
  · rw [setState_same hsame]
    exact h.error .peerFailed
  · rw [setState_of_ne hsame]
    refine ⟨⟨h.only, fun heq => (by cases heq), h.control, fun _ hreported => (by cases hreported), ?_⟩,
      fun hclosed => absurd hclosed hstate⟩
    change closesIn (.error .peerFailed :: .stateChanged .failed :: s.log) = 0
    rw [closesIn, List.count_cons_of_ne (fun heq => (by cases heq)), List.count_cons_of_ne (fun heq => (by cases heq))]
    exact honce

theorem Sound.onConnectionStateChange (h : Sound s) : Keeps s s.onConnectionStateChange := by
  have htimer := h.timer false
  unfold WebRTCPeerConnection.onConnectionStateChange
  split
  · by_cases hstate : s.state = .closed
    · dsimp only
      rw [if_neg (not_not.mpr hstate)]
      exact htimer.trans (htimer.1.error .peerFailed)
    · dsimp only
      rw [if_pos hstate]
      exact htimer.trans (htimer.1.failed hstate)
  · exact h.timer true
  · split_ifs
    · have hnoted := htimer.trans (htimer.1.error .peerClosed)
      exact hnoted.trans hnoted.1.close.1
    · exact htimer
  · exact htimer

theorem Sound.modifyPeer (h : Sound s) {f : RtcPeer → RtcPeer} (hf : ∀ p, (f p).released = p.released) :
    Keeps s (s.modifyPeer i f) := by
  refine ⟨h.congr ?_ rfl rfl rfl rfl rfl rfl id rfl, id⟩
  refine List.ext_getElem? fun j => ?_
  unfold WebRTCPeerConnection.modifyPeer
  rw [List.getElem?_map, List.getElem?_map, List.getElem?_modify]
  cases s.peers[j]? with
  | none => rfl
  | some p =>
      change some (RtcPeer.released (if i = j then f p else p)) = some p.released
      split_ifs
      · rw [hf]
      · rfl

/-! ### Steps -/

/-- No offer is created while a peer connection is held, and no control channel fails before the connection is closed. -/
def MayCall (s : WebRTCPeerConnection) : RtcCall → Prop
  | .createOffer => s.state = .closed ∨ s.pc = none
  | .channel i .errors => ∀ c ∈ s.channels[i]?, c.handled = true → c.kind = .control → s.state = .closed
  | .channel _ .opens => True
  | .channel _ .closes => True
  | .handleOffer _ => True
  | .handleAnswer _ => True
  | .addIceCandidate => True
  | .reconnect _ => True
  | .close => True
  | .incoming _ _ => True
  | .connection _ _ => True
  | .signaling _ _ => True
  | .grace => True

/-- The call ends with the state `connecting`. -/
def EndsConnecting : RtcFrame → Prop
  | .settingOffer => True
  | .settingAnswer renegotiation => renegotiation = false
  | .creatingOffer => False
  | .settingRemote _ _ _ => False
  | .flushing _ _ => False
  | .flushed _ => False
  | .creatingAnswer _ => False
  | .addingCandidate => False
  | .reoffering => False
  | .settingReoffer => False

/-- It does so when the connection is not closed, nor its control channel open without a failure. -/
def MayGoOn (s : WebRTCPeerConnection) (frame : RtcFrame) (event : RtcEvent) : Prop :=
  EndsConnecting frame → event = .settled →
    s.state ≠ .closed ∧ (s.ControlOpen → failureReported s.log = true)

theorem Sound.start (h : Sound s) {call : RtcCall} {r : WebRTCPeerConnection × RtcTask} (hmay : s.MayCall call)
    (hs : s.startCall call = some r) : Keeps s r.1 := by
  cases call with
  | createOffer =>
      obtain rfl := Option.some.inj hs
      by_cases hstate : s.state = .closed
      · rw [if_pos hstate]
        exact .refl h
      · rw [if_neg hstate]
        have hpc := hmay.resolve_left hstate
        have hreleased : ∀ (i : ℕ) (p : RtcPeer), s.peers[i]? = some p → p.released = true := by
          intro i p hp
          cases hreleased : p.released with
          | true => rfl
          | false => cases hpc.symm.trans (h.only i p hp hreleased)
        have hpeer := h.addPeer hstate hreleased false
        have hcontrol := hpeer.addChannel hstate s.peers.length .control
        exact ⟨(hcontrol.1.addChannel hstate s.peers.length .bulk).1, fun heq => absurd heq hstate⟩
  | handleOffer offer =>
      obtain rfl := Option.some.inj hs
      split_ifs with hrefused hrenegotiation
      · exact .refl h
      · split
        · exact .refl h
        · exact .refl h
      · have hstate := (not_or.mp hrefused).1
        have hbare := bare_dropAll h.only true
        refine ⟨(hbare.sound h).addPeer ?_ hbare.released true, fun heq => absurd heq hstate⟩
        exact fun heq => hstate (hbare.state.symm.trans heq)
  | handleAnswer sdp =>
      obtain rfl := Option.some.inj hs
      split
      · exact .refl h
      · split_ifs
        · exact .refl h
        · exact .refl h
  | addIceCandidate =>
      obtain rfl := Option.some.inj hs
      split
      · exact .refl h
      · split_ifs
        · exact .refl h
        · exact ⟨h.congr rfl rfl rfl rfl rfl rfl rfl id rfl, id⟩
        · exact .refl h
  | reconnect force =>
      obtain rfl := Option.some.inj hs
      exact .refl h
  | close =>
      obtain rfl := Option.some.inj hs
      exact h.close.1
  | channel i event =>
      obtain ⟨s', hs', rfl⟩ := Option.map_eq_some_iff.mp hs
      obtain ⟨c, hc, hs'⟩ := Option.bind_eq_some_iff.mp hs'
      cases event with
      | opens => exact h.opens hc hs'
      | closes => exact h.closes hs'
      | errors => exact h.errors (hmay c hc) hs'
  | incoming i label =>
      simp only [startCall] at hs
      split at hs
      · rename_i p hp
        split_ifs at hs with hreleased hadopts
        · obtain rfl := Option.some.inj hs
          refine h.addChannel (fun hclosed => ?_) i (kindOf label)
          cases (h.empty hclosed).1.symm.trans (h.only i p hp (Bool.eq_false_of_not_eq_true hreleased))
        · obtain rfl := Option.some.inj hs
          exact .refl h
      · cases hs
  | connection i state =>
      simp only [startCall] at hs
      split at hs
      · rename_i p hp
        have hchanged : Keeps s (s.modifyPeer i fun p => { p with connectionState := state }) :=
          h.modifyPeer fun _ => rfl
        split_ifs at hs
        · obtain rfl := Option.some.inj hs
          exact hchanged.trans hchanged.1.onConnectionStateChange
        · obtain rfl := Option.some.inj hs
          exact hchanged
      · cases hs
  | signaling i stable =>
      simp only [startCall] at hs
      split at hs
      · split_ifs at hs
        obtain rfl := Option.some.inj hs
        exact h.modifyPeer fun _ => rfl
      · cases hs
  | grace =>
      simp only [startCall] at hs
      have htimer := h.timer false
      split_ifs at hs
      · obtain rfl := Option.some.inj hs
        exact htimer
      · obtain rfl := Option.some.inj hs
        exact htimer.trans (htimer.1.error .peerDisconnected)
      · obtain rfl := Option.some.inj hs
        exact htimer

theorem Sound.resume (h : Sound s) {frame : RtcFrame} {event : RtcEvent} {r : WebRTCPeerConnection × RtcTask}
    (hmay : s.MayGoOn frame event) (hs : s.resumeCall frame event = some r) : Keeps s r.1 := by
  unfold resumeCall at hs
  split at hs
  · obtain rfl := Option.some.inj hs
    exact .refl h
  · obtain rfl := Option.some.inj hs
    obtain ⟨hstate, hopen⟩ := hmay trivial rfl
    exact h.setState (fun heq => (by cases heq)) hstate (.inr hopen)
  · rename_i i sdp next
    obtain rfl := Option.some.inj hs
    have hremote := h.modifyPeer (i := i) (f := fun p => { p with remoteDescription := sdp }) fun _ => rfl
    exact hremote.trans ⟨hremote.1.congr rfl rfl rfl rfl rfl rfl rfl id rfl, id⟩
  · obtain rfl := Option.some.inj hs
    exact .refl h
  · obtain rfl := Option.some.inj hs
    exact .refl h
  · obtain rfl := Option.some.inj hs
    exact .refl h
  · obtain rfl := Option.some.inj hs
    exact .refl h
  · obtain rfl := Option.some.inj hs
    exact .refl h
  · obtain rfl := Option.some.inj hs
    obtain ⟨hstate, hopen⟩ := hmay rfl rfl
    exact h.setState (fun heq => (by cases heq)) hstate (.inr hopen)
  · obtain rfl := Option.some.inj hs
    exact .refl h
  · obtain rfl := Option.some.inj hs
    exact .refl h
  · obtain rfl := Option.some.inj hs
    exact .refl h
  · obtain rfl := Option.some.inj hs
    exact .refl h
  · cases hs
  · obtain rfl := Option.some.inj hs
    exact .refl h

instance (s : WebRTCPeerConnection) : DecidablePred s.MayCall
  | .createOffer => inferInstanceAs (Decidable (_ ∨ _))
  | .channel i .errors =>
      inferInstanceAs (Decidable (∀ c ∈ s.channels[i]?, c.handled = true → c.kind = .control → s.state = .closed))
  | .channel _ .opens => inferInstanceAs (Decidable True)
  | .channel _ .closes => inferInstanceAs (Decidable True)
  | .handleOffer _ => inferInstanceAs (Decidable True)
  | .handleAnswer _ => inferInstanceAs (Decidable True)
  | .addIceCandidate => inferInstanceAs (Decidable True)
  | .reconnect _ => inferInstanceAs (Decidable True)
  | .close => inferInstanceAs (Decidable True)
  | .incoming _ _ => inferInstanceAs (Decidable True)
  | .connection _ _ => inferInstanceAs (Decidable True)
  | .signaling _ _ => inferInstanceAs (Decidable True)
  | .grace => inferInstanceAs (Decidable True)

instance : DecidablePred EndsConnecting
  | .settingOffer => inferInstanceAs (Decidable True)
  | .settingAnswer renegotiation => inferInstanceAs (Decidable (renegotiation = false))
  | .creatingOffer => inferInstanceAs (Decidable False)
  | .settingRemote _ _ _ => inferInstanceAs (Decidable False)
  | .flushing _ _ => inferInstanceAs (Decidable False)
  | .flushed _ => inferInstanceAs (Decidable False)
  | .creatingAnswer _ => inferInstanceAs (Decidable False)
  | .addingCandidate => inferInstanceAs (Decidable False)
  | .reoffering => inferInstanceAs (Decidable False)
  | .settingReoffer => inferInstanceAs (Decidable False)

instance (s : WebRTCPeerConnection) (frame : RtcFrame) (event : RtcEvent) : Decidable (s.MayGoOn frame event) :=
  inferInstanceAs (Decidable (EndsConnecting frame → event = .settled → _))

end WebRTCPeerConnection

/-! ### Runs -/

/-- No offer is created while a peer connection is held, no control channel fails before the connection is closed, and
no call ends with the state `connecting` when the connection is closed or its control channel open. -/
def Orderly : RtcWorld → Action RtcCall RtcEvent → Prop :=
  Program.Meets WebRTCPeerConnection.MayCall WebRTCPeerConnection.MayGoOn

instance (w : RtcWorld) : DecidablePred (Orderly w) := fun a =>
  inferInstanceAs (Decidable (Program.Meets WebRTCPeerConnection.MayCall WebRTCPeerConnection.MayGoOn w a))

theorem WebRTCPeerConnection.sound_fresh : WebRTCPeerConnection.fresh.Sound := by
  refine ⟨fun _ _ hp => (by cases hp), fun hclosed => (by cases hclosed), fun _ hi => (by cases hi), fun hopen => ?_, rfl⟩
  exact absurd hopen (WebRTCPeerConnection.not_controlOpen rfl)

theorem keeps_step {w w' : RtcWorld} {a : Action RtcCall RtcEvent} (h : w.shared.Sound) (hok : Orderly w a)
    (hstep : rtcMachine.step w a = some w') : w.shared.Keeps w'.shared := by
  obtain ⟨hsound, hkeeps, -⟩ := Program.step_of_meets (p := WebRTCPeerConnection.program)
    (I := WebRTCPeerConnection.Sound) (R := WebRTCPeerConnection.Keeps) (J := fun _ _ => True)
    (fun _ _ _ _ _ => trivial)
    (fun s call r hI hmay hs => ⟨(hI.start hmay hs).1, hI.start hmay hs, trivial⟩)
    (fun s frame event r hI _ hmay hs => ⟨(hI.resume hmay hs).1, hI.resume hmay hs, trivial⟩)
    h (fun _ _ => trivial) hok hstep
  exact hkeeps

/-- In an orderly run nothing leaves `closed`, a closed connection holds nothing and has released every peer connection,
the close callbacks have run once when it is closed and not before, and while its control channel is open and no failure was reported it is `connected`. -/
theorem closed_stays {w : RtcWorld} (h : rtcMachine.Reach Orderly w) :
    (w.shared.state = .closed → w.shared.pc = none ∧ w.shared.dataChannel = none ∧ w.shared.bulkChannel = none ∧
      w.shared.extraChannels = .empty ∧ (∀ p ∈ w.shared.peers, p.released = true) ∧
      ∀ a w', Orderly w a → rtcMachine.step w a = some w' → w'.shared.state = .closed) ∧
    closesIn w.shared.log = (if w.shared.state = .closed then 1 else 0) ∧
    (w.shared.ControlOpen → failureReported w.shared.log = false → w.shared.state = .connected) := by
  have hsound := h.invariant (I := fun w : RtcWorld => w.shared.Sound) WebRTCPeerConnection.sound_fresh
    fun w a w' hI hok hstep => (keeps_step hI hok hstep).1
  refine ⟨fun hclosed => ?_, hsound.once, hsound.connected⟩
  obtain ⟨hpc, hdata, hbulk, hextra⟩ := hsound.empty hclosed
  refine ⟨hpc, hdata, hbulk, hextra, fun p hp => ?_, fun a w' hok hstep => (keeps_step hsound hok hstep).2 hclosed⟩
  obtain ⟨i, hi⟩ := List.getElem?_of_mem hp
  cases hreleased : p.released with
  | true => rfl
  | false => cases hpc.symm.trans (hsound.only i p hi hreleased)

theorem closed_stays_answered : ∃ w, rtcMachine.Reach Orderly w ∧
    (RtcNote.stateChanged .connected ∈ w.shared.log ∧ w.shared.state = .closed) ∧ closesIn w.shared.log = 1 := by
  obtain ⟨w, -, hw, hlog, hclosed⟩ := Machine.exists_of_run
    (P := fun w : RtcWorld => RtcNote.stateChanged .connected ∈ w.shared.log ∧ w.shared.state = .closed)
    (show (rtcMachine.run Orderly rtcMachine.init
      [.start .createOffer, .resume 0 .settled, .resume 0 .settled, .start (.handleAnswer (js "answer")),
        .resume 1 .settled, .resume 1 .settled, .start (.channel 0 .opens), .start .close]).any _ = true by
          decide +kernel)
  have hstays := (closed_stays hw).2.1
  rw [if_pos hclosed] at hstays
  exact ⟨w, hw, ⟨hlog, hclosed⟩, hstays⟩

/-- A connection that is closed while its offer is set goes back to `connecting`, and is closed once more; one that was
replaced by a second offer makes a closed connection `connected`; an error of the control channel closes the connection
without letting its peer connection go; an answer that completes after its channel has opened puts the state back. -/
theorem closed_is_left :
    (∃ w, rtcMachine.Reach (fun _ _ => True) w ∧ w.shared.state = .connecting ∧ RtcNote.closed ∈ w.shared.log) ∧
    (∃ w, rtcMachine.Reach (fun _ _ => True) w ∧ w.shared.state = .connected ∧ RtcNote.closed ∈ w.shared.log) ∧
    (∃ w, rtcMachine.Reach (fun _ _ => True) w ∧ closesIn w.shared.log = 2) ∧
    (∃ w, rtcMachine.Reach (fun _ _ => True) w ∧ w.shared.state = .closed ∧ w.shared.pc ≠ none) ∧
    ∃ w, rtcMachine.Reach (fun _ _ => True) w ∧ w.shared.ControlOpen ∧ failureReported w.shared.log = false ∧
      w.shared.state ≠ .connected := by
  have hrun : ∀ (acts : List (Action RtcCall RtcEvent)) (P : RtcWorld → Prop) [DecidablePred P],
      (rtcMachine.run (fun _ _ => True) rtcMachine.init acts).any (fun w => decide (P w)) = true →
      ∃ w, rtcMachine.Reach (fun _ _ => True) w ∧ P w := by
    intro acts P _ hany
    obtain ⟨w, -, hw, hP⟩ := Machine.exists_of_run hany
    exact ⟨w, hw, hP⟩
  refine ⟨?_, ?_, ?_, ?_, ?_⟩
  · exact hrun [.start .createOffer, .resume 0 .settled, .start .close, .resume 0 .settled] _ (by decide +kernel)
  · exact hrun [.start .createOffer, .resume 0 .settled, .resume 0 .settled, .start (.handleAnswer (js "answer")),
      .resume 1 .settled, .resume 1 .settled, .start .createOffer, .start .close, .start (.channel 0 .opens)] _
      (by decide +kernel)
  · exact hrun [.start .createOffer, .resume 0 .settled, .start .close, .resume 0 .settled, .start .close] _
      (by decide +kernel)
  · exact hrun [.start .createOffer, .start (.channel 0 .errors)] _ (by decide +kernel)
  · exact hrun [.start (.handleOffer ⟨js "offer", some false⟩), .resume 0 .settled, .resume 0 .settled,
      .resume 0 .settled, .start (.incoming 0 (js "mesh")), .start (.channel 0 .opens), .resume 0 .settled] _
      (by decide +kernel)

end BrowserMesh.Transport
