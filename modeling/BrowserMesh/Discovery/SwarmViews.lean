import BrowserMesh.Discovery.SwimProbes

/-! # The swarm coordinator over SWIM

* **Three tables.**  The distributor's members, the election's candidates and the SWIM members are kept in step
  by two callbacks: `onJoin` calls `join`, `onDead` calls `leave`; `onSuspect` and `onLeave` are not attached.
* **Re-entry.**  `join` calls `addMember`, which may call `onJoin`, which calls `join`; the inner call finds
  the pod (`joinPod_eq`).  A callback that throws breaks off the message.
* **Results.**  The tables agree in every run whose joins, leaves and updates meet `Kept`
  (`SwarmRun.views_agree`). -/

namespace BrowserMesh.Discovery
open Js Transition

/-- The ids that the constructors accept. -/
abbrev PodId := { podId : JsString // podId ≠ js "" }

structure SwarmMember where
  podId : PodId
  capabilities : List JsString
  deriving DecidableEq

/-! ### The tables -/

/-- The members of a `TaskDistributor`. -/
structure TaskDistributor where
  members : JsMap JsString SwarmMember
  deriving DecidableEq

namespace TaskDistributor

def addMember (d : TaskDistributor) (member : SwarmMember) : TaskDistributor :=
  ⟨d.members.set member.podId member⟩

def removeMember (d : TaskDistributor) (podId : JsString) : TaskDistributor := ⟨d.members.delete podId⟩

end TaskDistributor

structure LeaderElection where
  localPodId : PodId
  candidates : JsSet JsString
  leader : Option JsString
  heartbeats : JsMap JsString ℕ
  deriving DecidableEq

namespace LeaderElection

/-- The constructor. -/
def new (localPodId : PodId) (now : ℕ) : LeaderElection where
  localPodId := localPodId
  candidates := JsSet.empty.add localPodId
  leader := none
  heartbeats := JsMap.empty.set localPodId now

def addCandidate (el : LeaderElection) (now : ℕ) (podId : JsString) : LeaderElection :=
  { el with
    candidates := el.candidates.add podId
    heartbeats := if el.heartbeats.has podId then el.heartbeats else el.heartbeats.set podId now }

def removeCandidate (el : LeaderElection) (podId : JsString) : LeaderElection :=
  { el with
    candidates := el.candidates.delete podId
    heartbeats := el.heartbeats.delete podId
    leader := if el.leader = some podId then none else el.leader }

end LeaderElection

/-! ### The coordinator -/

/-- A coordinator with its `'local'` swarm. -/
structure SwarmCoordinator where
  localPodId : PodId
  election : LeaderElection
  distributor : TaskDistributor
  swim : SwimMembership
  deriving DecidableEq

namespace SwarmCoordinator

/-- The constructor, with a SWIM instance for the same pod. -/
def new (localPodId : PodId) (config : SwimConfig) (now : ℕ) : SwarmCoordinator where
  localPodId := localPodId
  election := .new localPodId now
  distributor := TaskDistributor.addMember ⟨JsMap.empty⟩ ⟨localPodId, []⟩
  swim := .new localPodId config

/-- Enter a member into the distributor and the election. -/
def enlist (c : SwarmCoordinator) (now : ℕ) (member : SwarmMember) : SwarmCoordinator :=
  { c with
    distributor := c.distributor.addMember member
    election := c.election.addCandidate now member.podId }

/-- `join` with a new member; `onJoin` is what the callback of `addMember` does. -/
def joinWith (onJoin : SwarmCoordinator → PodId → SwarmCoordinator) (c : SwarmCoordinator) (now : ℕ)
    (member : SwarmMember) : SwarmCoordinator :=
  let c := c.enlist now member
  let r := c.swim.addMember member.podId
  match r.2 with
  | some _ => onJoin { c with swim := r.1 } member.podId
  | none => { c with swim := r.1 }

/-- The join of the callback, in which `addMember` finds the pod. -/
def joinAgain (now : ℕ) (c : SwarmCoordinator) (podId : PodId) : SwarmCoordinator :=
  joinWith (fun c _ => c) c now ⟨podId, []⟩

def joinPod (c : SwarmCoordinator) (now : ℕ) (member : SwarmMember) : SwarmCoordinator :=
  joinWith (joinAgain now) c now member

/-- `join`; without a pod id it throws. -/
def join (c : SwarmCoordinator) (now : ℕ) (podId : JsString) (capabilities : List JsString) :
    Option SwarmCoordinator :=
  if h : podId = js "" then none else some (c.joinPod now ⟨⟨podId, h⟩, capabilities⟩)

/-- `leave`. -/
def leave (c : SwarmCoordinator) (podId : JsString) : SwarmCoordinator :=
  { c with
    election := c.election.removeCandidate podId
    swim := (c.swim.removeMember podId).1
    distributor := c.distributor.removeMember podId }

/-- The callbacks that the constructor attaches, and whether the callback throws. -/
def notify (c : SwarmCoordinator) (now : ℕ) : Option SwimCallback → SwarmCoordinator × Bool
  | some (.onJoin podId) =>
      match c.join now podId [] with
      | some c' => (c', false)
      | none => (c, true)
  | some (.onDead podId) => (c.leave podId, false)
  | _ => (c, false)

/-- `#processUpdate` with its callback. -/
def processUpdate (c : SwarmCoordinator) (now : ℕ) (update : MemberUpdate) : SwarmCoordinator × Bool :=
  let r := c.swim.processUpdate now update
  { c with swim := r.1 }.notify now r.2

def processUpdates (c : SwarmCoordinator) (now : ℕ) : List MemberUpdate → SwarmCoordinator × Bool
  | [] => (c, false)
  | update :: updates =>
      let r := c.processUpdate now update
      if r.2 then r else r.1.processUpdates now updates

/-- `handleMessage` of the SWIM instance. -/
def handleMessage (c : SwarmCoordinator) (now : ℕ) (fromId : JsString) (msg : SwimMessage) :
    SwarmCoordinator × List SwimSend :=
  let r := { c with swim := c.swim.beforeUpdates msg }.processUpdates now msg.updates
  if r.2 then (r.1, [])
  else
    let after := r.1.swim.afterUpdates now fromId msg
    ({ r.1 with swim := after.1 }, after.2)

def fire (c : SwarmCoordinator) (now : ℕ) (random : ℕ → ℕ) (seq : ℕ) :
    Option (SwarmCoordinator × List SwimSend) :=
  (c.swim.fire now random seq).map fun r => (({ c with swim := r.1 }.notify now r.2.2).1, r.2.1)

/-! ### What a join and a leave do -/

theorem addMember_known {m : SwimMembership} {p : JsString} (h : p = m.localId ∨ m.members.has p = true) :
    m.addMember p = (m, none) := by
  rw [SwimMembership.addMember]
  by_cases hlocal : p = m.localId
  · rw [if_pos hlocal]
  · rw [if_neg hlocal, if_pos (h.resolve_left hlocal)]

/-- What `addMember` makes of a node that does not know the pod. -/
def added (m : SwimMembership) (p : JsString) : SwimMembership :=
  (m.setMember p ⟨.alive, 0, none⟩).enqueueUpdate ⟨p, .alive, 0⟩

theorem addMember_unknown {m : SwimMembership} {p : JsString} (hlocal : p ≠ m.localId)
    (h : m.members.has p = false) : m.addMember p = (added m p, some (.onJoin p)) := by
  rw [SwimMembership.addMember, if_neg hlocal, if_neg (by simp [h])]
  rfl

theorem has_added (m : SwimMembership) (p : JsString) : (added m p).members.has p = true := by
  simp [added, JsMap.has]

theorem joinPod_known {c : SwarmCoordinator} {now : ℕ} {member : SwarmMember}
    (h : member.podId.1 = c.swim.localId ∨ c.swim.members.has member.podId = true) :
    c.joinPod now member = c.enlist now member := by
  have hadd : (c.enlist now member).swim.addMember member.podId = (c.swim, none) := addMember_known h
  rw [joinPod, joinWith, hadd]
  rfl

theorem joinPod_unknown {c : SwarmCoordinator} {now : ℕ} {member : SwarmMember}
    (hlocal : member.podId.1 ≠ c.swim.localId) (h : c.swim.members.has member.podId = false) :
    c.joinPod now member =
      { (c.enlist now member).enlist now ⟨member.podId, []⟩ with swim := added c.swim member.podId } := by
  have hadd : (c.enlist now member).swim.addMember member.podId =
      (added c.swim member.podId, some (.onJoin member.podId)) := addMember_unknown hlocal h
  have hagain : (added c.swim member.podId).addMember member.podId = (added c.swim member.podId, none) :=
    addMember_known (Or.inr (has_added c.swim member.podId))
  rw [joinPod, joinWith, hadd]
  dsimp only
  rw [joinAgain, joinWith]
  dsimp only [enlist]
  rw [hagain]

/-- The recursion of the source: the join that the callback makes is the same function. -/
theorem joinPod_eq (c : SwarmCoordinator) (now : ℕ) (member : SwarmMember) :
    c.joinPod now member = joinWith (fun c podId => c.joinPod now ⟨podId, []⟩) c now member := by
  by_cases hknown : member.podId.1 = c.swim.localId ∨ c.swim.members.has member.podId = true
  · have hadd : (c.enlist now member).swim.addMember member.podId = (c.swim, none) := addMember_known hknown
    rw [joinPod_known hknown, joinWith, hadd]
    rfl
  · obtain ⟨hlocal, hhas⟩ := not_or.mp hknown
    have hunknown : c.swim.members.has member.podId = false := by simpa using hhas
    have hadd : (c.enlist now member).swim.addMember member.podId =
        (added c.swim member.podId, some (.onJoin member.podId)) := addMember_unknown hlocal hunknown
    rw [joinPod_unknown hlocal hunknown, joinWith, hadd]
    dsimp only
    rw [joinPod_known (Or.inr (has_added c.swim member.podId))]
    rfl

/-! ### The views -/

end SwarmCoordinator

def SwimMembership.Live (m : SwimMembership) (p : JsString) : Prop :=
  m.getState p = some .alive ∨ m.getState p = some .suspect

instance (m : SwimMembership) (p : JsString) : Decidable (m.Live p) := inferInstanceAs (Decidable (_ ∨ _))

namespace SwarmCoordinator
variable {c c' : SwarmCoordinator} {now : ℕ} {p : JsString}

/-- The pod is a member of the distributor and a candidate of the election exactly when it is the local pod or
SWIM holds it alive or suspect. -/
def At (c : SwarmCoordinator) (p : JsString) : Prop :=
  (c.distributor.members.has p = true ↔ p = c.localPodId ∨ c.swim.Live p) ∧
  (p ∈ c.election.candidates ↔ p = c.localPodId ∨ c.swim.Live p)

def Agree (c : SwarmCoordinator) : Prop := ∀ p, c.At p

theorem At.congr (h : c.At p) (hlocal : c'.localPodId = c.localPodId) (hdist : c'.distributor = c.distributor)
    (helection : c'.election = c.election) (hlive : c'.swim.Live p ↔ c.swim.Live p) : c'.At p := by
  rw [At, hdist, helection, hlocal, hlive]
  exact h

theorem has_set {ν : Type} (t : JsMap JsString ν) (k : JsString) (v : ν) (q : JsString) :
    (t.set k v).has q = true ↔ q = k ∨ t.has q = true := by
  rw [JsMap.has, JsMap.get?_set]
  split_ifs with hq
  · exact iff_of_true rfl (Or.inl hq)
  · exact ⟨Or.inr, fun h => h.resolve_left hq⟩

theorem has_delete {ν : Type} (t : JsMap JsString ν) (k q : JsString) :
    (t.delete k).has q = true ↔ q ≠ k ∧ t.has q = true := by
  rw [JsMap.has, JsMap.get?_delete]
  split_ifs with hq
  · exact iff_of_false (by simp) fun h => h.1 hq
  · exact ⟨fun h => ⟨hq, h⟩, fun h => h.2⟩

theorem live_set (m m' : SwimMembership) (p : JsString) (entry : Member)
    (h : m'.members = m.members.set p entry) (q : JsString) :
    m'.Live q ↔ if q = p then entry.state = .alive ∨ entry.state = .suspect else m.Live q := by
  rw [SwimMembership.Live, SwimMembership.getState, h, JsMap.get?_set]
  split_ifs with hq
  · simp
  · rfl

theorem live_congr {m m' : SwimMembership} (h : m'.members = m.members) (q : JsString) :
    m'.Live q ↔ m.Live q := by
  rw [SwimMembership.Live, SwimMembership.getState, h]
  rfl

theorem not_live_of_unknown {m : SwimMembership} (h : m.members.has p = false) : ¬ m.Live p := by
  rw [JsMap.has, Option.isSome_eq_false_iff, Option.isNone_iff_eq_none] at h
  rw [SwimMembership.Live, SwimMembership.getState, h]
  simp

theorem At.enlist {q : JsString} {member : SwarmMember} (h : q ≠ member.podId → c.At q)
    (hlive : q = member.podId → q = c.localPodId ∨ c.swim.Live q) : (c.enlist now member).At q := by
  have hdist : (c.enlist now member).distributor.members.has q = true ↔
      q = member.podId ∨ c.distributor.members.has q = true := has_set ..
  have hcand : q ∈ (c.enlist now member).election.candidates ↔
      q ∈ c.election.candidates ∨ q = member.podId := JsSet.mem_add
  rw [At, hdist, hcand]
  by_cases hq : q = member.podId
  · exact ⟨iff_of_true (Or.inl hq) (hlive hq), iff_of_true (Or.inr hq) (hlive hq)⟩
  · obtain ⟨hmember, hcandidate⟩ := h hq
    exact ⟨(or_iff_right hq).trans hmember, (or_iff_left hq).trans hcandidate⟩

theorem agree_joinPod {member : SwarmMember} (hid : c.swim.localId = c.localPodId)
    (h : ∀ q : JsString, q ≠ member.podId → c.At q)
    (hpod : member.podId = c.localPodId ∨ c.swim.Live member.podId ∨ c.swim.members.has member.podId = false) :
    (c.joinPod now member).Agree := by
  by_cases hknown : member.podId.1 = c.swim.localId ∨ c.swim.members.has member.podId = true
  · rw [joinPod_known hknown]
    refine fun q => At.enlist (h q) fun hq => ?_
    rw [hq]
    rcases hpod with hlocal | hlive | hunknown
    · exact Or.inl (congrArg Subtype.val hlocal)
    · exact Or.inr hlive
    · exact Or.inl ((hknown.resolve_right (by simp [hunknown])).trans hid)
  · obtain ⟨hlocal, hhas⟩ := not_or.mp hknown
    rw [joinPod_unknown hlocal (by simpa using hhas)]
    have hlive := live_set c.swim (added c.swim member.podId) member.podId ⟨.alive, 0, none⟩ rfl
    intro q
    have hbase : ({ c.enlist now member with swim := added c.swim member.podId } : SwarmCoordinator).At q := by
      refine At.enlist (c := { c with swim := added c.swim member.podId }) (fun hq => ?_) fun hq => ?_
      · refine (h q hq).congr rfl rfl rfl ?_
        rw [hlive, if_neg hq]
      · right
        rw [hlive, if_pos hq]
        exact Or.inl rfl
    refine At.enlist (c := { c.enlist now member with swim := added c.swim member.podId }) (fun _ => hbase)
      fun hq => Or.inr ?_
    change (added c.swim member.podId).Live q
    rw [hlive, if_pos hq]
    exact Or.inl rfl

theorem agree_leave (h : ∀ q, q ≠ p → c.At q) (hlocal : p ≠ c.localPodId) : (c.leave p).Agree := by
  intro q
  have hdist : (c.leave p).distributor.members.has q = true ↔ q ≠ p ∧ c.distributor.members.has q = true :=
    has_delete ..
  have hcand : q ∈ (c.leave p).election.candidates ↔ q ∈ c.election.candidates ∧ q ≠ p := JsSet.mem_delete
  have hlive : (c.leave p).swim.Live q ↔ q ≠ p ∧ c.swim.Live q := by
    change (c.swim.removeMember p).1.Live q ↔ _
    rw [SwimMembership.removeMember]
    cases hget : c.swim.members.get? p with
    | none =>
        refine ⟨fun hq => ⟨?_, hq⟩, fun hq => hq.2⟩
        rintro rfl
        exact not_live_of_unknown (by rw [JsMap.has, hget]; rfl) hq
    | some entry =>
        rw [live_set c.swim _ p { entry with state := .left, suspectAt := none } rfl]
        split_ifs with hq
        · simp [hq]
        · simp [hq]
  rw [At, hdist, hcand, hlive]
  change (_ ↔ q = c.localPodId ∨ _) ∧ (_ ↔ q = c.localPodId ∨ _)
  by_cases hq : q = p
  · subst hq
    refine ⟨iff_of_false (fun hh => hh.1 rfl) ?_, iff_of_false (fun hh => hh.2 rfl) ?_⟩
    · rintro (hq | hq)
      · exact hlocal hq
      · exact hq.1 rfl
    · rintro (hq | hq)
      · exact hlocal hq
      · exact hq.1 rfl
  · obtain ⟨hmember, hcandidate⟩ := h q hq
    exact ⟨by simpa [hq] using hmember, by simpa [hq] using hcandidate⟩

/-! ### Updates -/

def Takes (m : SwimMembership) (u : MemberUpdate) : Prop :=
  match m.members.get? u.podId with
  | none => u.state = .alive ∨ u.state = .suspect
  | some entry => entry.incarnation.lt u.incarnation = true ∨
      (u.incarnation.eq entry.incarnation && u.state.outranks entry.state) = true

def raised (podId : JsString) : MemberState → Option SwimCallback
  | .alive => some (.onJoin podId)
  | .suspect => some (.onSuspect podId)
  | .dead => some (.onDead podId)
  | .left => some (.onLeave podId)
  | .other _ => none

theorem fireStateCallbacks_eq (podId : JsString) (old new : MemberState) :
    SwimMembership.fireStateCallbacks podId old new = if old = new then none else raised podId new := by
  cases new <;> rfl

variable {u : MemberUpdate}

theorem processUpdate_self {m : SwimMembership} (h : u.podId = m.localId) :
    (m.processUpdate now u).2 = none := by
  rw [SwimMembership.processUpdate]
  dsimp only
  rw [if_pos h]
  split_ifs <;> rfl

theorem processUpdate_refused {m : SwimMembership} (hself : u.podId ≠ m.localId)
    (h : ¬ Takes m u) : m.processUpdate now u = (m, none) := by
  rw [Takes] at h
  rw [SwimMembership.processUpdate]
  dsimp only
  rw [if_neg hself]
  cases hget : m.members.get? u.podId with
  | none =>
      rw [hget] at h
      obtain ⟨halive, hsuspect⟩ := not_or.mp h
      dsimp only
      rw [if_neg halive, if_neg hsuspect]
  | some entry =>
      rw [hget] at h
      obtain ⟨hlt, heq⟩ := not_or.mp h
      dsimp only
      rw [if_neg hlt, if_neg heq]

variable (now) in
theorem processUpdate_taken {m : SwimMembership} (hself : u.podId ≠ m.localId)
    (h : Takes m u) : ∃ entry, entry.state = u.state ∧ m.processUpdate now u =
      (m.setMember u.podId entry, if m.getState u.podId = some u.state then none else raised u.podId u.state) := by
  rw [Takes] at h
  rw [SwimMembership.processUpdate, SwimMembership.getState]
  dsimp only
  rw [if_neg hself]
  cases hget : m.members.get? u.podId with
  | none =>
      rw [hget] at h
      dsimp only
      rcases h with halive | hsuspect
      · rw [if_pos halive]
        refine ⟨⟨u.state, u.incarnation, none⟩, rfl, ?_⟩
        simp [halive, raised]
      · rw [if_neg (by simp [hsuspect]), if_pos hsuspect]
        refine ⟨⟨u.state, u.incarnation, some now⟩, rfl, ?_⟩
        simp [hsuspect, raised]
  | some entry =>
      rw [hget] at h
      dsimp only [Option.map_some]
      simp only [Option.some.injEq]
      rw [fireStateCallbacks_eq]
      by_cases hlt : entry.incarnation.lt u.incarnation = true
      · rw [if_pos hlt]
        exact ⟨⟨u.state, u.incarnation, SwimMembership.suspectAt now u.state⟩, rfl, rfl⟩
      · rw [if_neg hlt, if_pos (h.resolve_left hlt)]
        exact ⟨⟨u.state, entry.incarnation, SwimMembership.suspectAt now u.state⟩, rfl, rfl⟩

/-- What an update has to meet: it does not bring a pod without an id, it does not suspect a pod that SWIM
does not hold alive or suspect, and it does not take such a pod away other than by its death. -/
def Kept (c : SwarmCoordinator) (u : MemberUpdate) : Prop :=
  u.podId ≠ c.localPodId → Takes c.swim u →
    match u.state with
    | .alive => u.podId ≠ js ""
    | .suspect => c.swim.Live u.podId
    | .dead => True
    | .left => ¬ c.swim.Live u.podId
    | .other _ => ¬ c.swim.Live u.podId

instance (m : SwimMembership) (u : MemberUpdate) : Decidable (Takes m u) := by
  unfold Takes
  split <;> infer_instance

instance (c : SwarmCoordinator) (u : MemberUpdate) : Decidable (c.Kept u) := by
  unfold Kept
  split <;> infer_instance

variable (now) in
theorem agree_processUpdate (hid : c.swim.localId = c.localPodId) (h : c.Agree)
    (hkept : c.Kept u) : (c.processUpdate now u).1.Agree ∧ (c.processUpdate now u).2 = false := by
  rw [processUpdate]
  by_cases hself : u.podId = c.localPodId
  · have hmembers := c.swim.members_processUpdate_self now (hself.trans hid.symm)
    rw [processUpdate_self (hself.trans hid.symm)]
    exact ⟨fun q => (h q).congr rfl rfl rfl (live_congr hmembers q), rfl⟩
  · have hself' : u.podId ≠ c.swim.localId := hid ▸ hself
    by_cases htakes : Takes c.swim u
    · obtain ⟨entry, hstate, hupdate⟩ := processUpdate_taken now hself' htakes
      have hlive := live_set c.swim (c.swim.setMember u.podId entry) u.podId entry rfl
      rw [hupdate]
      dsimp only
      generalize hc : ({ c with swim := c.swim.setMember u.podId entry } : SwarmCoordinator) = c₁
      have hoff : ∀ q, q ≠ u.podId → c₁.At q := by
        intro q hq
        refine (h q).congr (hc ▸ rfl) (hc ▸ rfl) (hc ▸ rfl) ?_
        rw [← hc, hlive, if_neg hq]
      have hsame : (c₁.swim.Live u.podId ↔ c.swim.Live u.podId) → c₁.Agree := by
        intro hiff q
        by_cases hq : q = u.podId
        · rw [hq]
          exact (h u.podId).congr (hc ▸ rfl) (hc ▸ rfl) (hc ▸ rfl) hiff
        · exact hoff q hq
      have hpod : c₁.swim.Live u.podId ↔ u.state = .alive ∨ u.state = .suspect := by
        rw [← hc, hlive, if_pos rfl, hstate]
      have hlocal : c₁.localPodId = c.localPodId := hc ▸ rfl
      have hid₁ : c₁.swim.localId = c₁.localPodId := by
        rw [← hc]
        exact hid
      have hneeds := hkept hself htakes
      cases hnew : u.state with
      | alive =>
          rw [hnew] at hneeds hpod
          split_ifs with hold
          · exact ⟨hsame (iff_of_true (hpod.mpr (Or.inl rfl)) (Or.inl hold)), rfl⟩
          · rw [raised, notify, join, dif_neg hneeds]
            exact ⟨agree_joinPod hid₁ hoff (Or.inr (Or.inl (hpod.mpr (Or.inl rfl)))), rfl⟩
      | suspect =>
          rw [hnew] at hneeds hpod
          have hagree : c₁.Agree := hsame (iff_of_true (hpod.mpr (Or.inr rfl)) hneeds)
          split_ifs
          · exact ⟨hagree, rfl⟩
          · exact ⟨hagree, rfl⟩
      | dead =>
          rw [hnew] at hpod
          split_ifs with hold
          · refine ⟨hsame (iff_of_false (fun hh => ?_) fun hh => ?_), rfl⟩
            · rcases hpod.mp hh with hh | hh
              · cases hh
              · cases hh
            · rw [SwimMembership.Live, hold] at hh
              simp at hh
          · exact ⟨agree_leave hoff (hlocal ▸ hself), rfl⟩
      | left =>
          rw [hnew] at hneeds hpod
          have hagree : c₁.Agree := hsame (iff_of_false (fun hh => by simpa using hpod.mp hh) hneeds)
          split_ifs
          · exact ⟨hagree, rfl⟩
          · exact ⟨hagree, rfl⟩
      | other name =>
          rw [hnew] at hneeds hpod
          have hagree : c₁.Agree := hsame (iff_of_false (fun hh => by simpa using hpod.mp hh) hneeds)
          split_ifs
          · exact ⟨hagree, rfl⟩
          · exact ⟨hagree, rfl⟩
    · rw [processUpdate_refused hself' htakes]
      exact ⟨h, rfl⟩

end SwarmCoordinator

/-! ### Whom the timers are about -/

/-- The pod that a timer may declare suspect or dead. -/
def TimerKind.target : TimerKind → Option JsString
  | .ping t => some t
  | .relay _ _ _ => none
  | .indirect t => some t
  | .suspect t => some t

section shuffle
variable {α : Type}

theorem mem_swap {copy : List α} {i j : ℕ} {a : α} (h : a ∈ swap copy i j) : a ∈ copy := by
  rw [swap] at h
  cases hi : copy[i]? with
  | none =>
      rw [hi] at h
      exact h
  | some x =>
      cases hj : copy[j]? with
      | none =>
          rw [hi, hj] at h
          exact h
      | some y =>
          rw [hi, hj] at h
          rcases List.mem_or_eq_of_mem_set h with h | rfl
          · rcases List.mem_or_eq_of_mem_set h with h | rfl
            · exact h
            · exact List.mem_of_getElem? hj
          · exact List.mem_of_getElem? hi

theorem mem_shuffle {random : ℕ → ℕ} {i : ℕ} {copy : List α} {a : α} (h : a ∈ shuffle random i copy) :
    a ∈ copy := by
  induction i generalizing copy with
  | zero => exact h
  | succ i ih => exact mem_swap (ih h)

theorem mem_pickRandom {random : ℕ → ℕ} {arr : List α} {count : ℕ} {a : α}
    (h : a ∈ pickRandom random arr count) : a ∈ arr :=
  mem_shuffle (List.mem_of_mem_take h)

end shuffle

namespace SwimMembership
variable {m m' : SwimMembership}

/-- No timer and no queued ping is about the node itself. -/
structure OthersOnly (m : SwimMembership) : Prop where
  queue : ∀ t ∈ m.pingQueue, t ≠ m.localId
  timers : ∀ s timer, m.timers.get? s = some timer → timer.kind.target ≠ some m.localId

theorem OthersOnly.of (h : m.OthersOnly) (hid : m'.localId = m.localId)
    (hqueue : ∀ t ∈ m'.pingQueue, t ∈ m.pingQueue ∨ t ≠ m.localId)
    (htimers : ∀ s timer, m'.timers.get? s = some timer →
      m.timers.get? s = some timer ∨ timer.kind.target ≠ some m.localId) : m'.OthersOnly where
  queue t ht := by
    rw [hid]
    exact (hqueue t ht).elim (h.queue t) id
  timers s timer ht := by
    rw [hid]
    exact (htimers s timer ht).elim (h.timers s timer) id

/-- The node's id, queue and timers are the same. -/
structure SameTimers (m m' : SwimMembership) : Prop where
  localId : m'.localId = m.localId
  pingQueue : m'.pingQueue = m.pingQueue
  timers : m'.timers = m.timers

theorem SameTimers.refl (m : SwimMembership) : SameTimers m m := ⟨rfl, rfl, rfl⟩

theorem SameTimers.trans {m'' : SwimMembership} (h : SameTimers m m') (h' : SameTimers m' m'') :
    SameTimers m m'' :=
  ⟨h'.localId.trans h.localId, h'.pingQueue.trans h.pingQueue, h'.timers.trans h.timers⟩

theorem SameTimers.othersOnly (hs : SameTimers m m') (h : m.OthersOnly) : m'.OthersOnly :=
  h.of hs.localId (fun _ ht => Or.inl (hs.pingQueue ▸ ht)) fun _ _ ht => Or.inl (hs.timers ▸ ht)

theorem pingQueue_processUpdate (m : SwimMembership) (now : ℕ) (u : MemberUpdate) :
    (m.processUpdate now u).1.pingQueue = m.pingQueue := by
  rw [processUpdate]
  dsimp only
  by_cases hself : u.podId = m.localId
  · rw [if_pos hself]
    split_ifs
    · rfl
    · rfl
  · rw [if_neg hself]
    cases m.members.get? u.podId with
    | none =>
        dsimp only
        split_ifs
        · rfl
        · rfl
        · rfl
    | some entry =>
        dsimp only
        split_ifs
        · rfl
        · rfl
        · rfl

theorem sameTimers_processUpdate (m : SwimMembership) (now : ℕ) (u : MemberUpdate) :
    SameTimers m (m.processUpdate now u).1 := by
  obtain ⟨hid, -, htimers, -, -⟩ := m.processUpdate_frame now u
  exact ⟨hid, m.pingQueue_processUpdate now u, htimers⟩

theorem sameTimers_removeMember (m : SwimMembership) (p : JsString) :
    SameTimers m (m.removeMember p).1 := by
  rw [removeMember]
  cases m.members.get? p with
  | none => exact SameTimers.refl m
  | some entry => exact ⟨rfl, rfl, rfl⟩

theorem OthersOnly.beforeUpdates (h : m.OthersOnly) (msg : SwimMessage) : (m.beforeUpdates msg).OthersOnly := by
  have hclear : ∀ seq, (m.clear seq).pingQueue = m.pingQueue := by
    intro seq
    rw [clear]
    split_ifs
    · rfl
    · rfl
  have hqueue : (m.beforeUpdates msg).pingQueue = m.pingQueue := by
    cases msg with
    | ping seq updates => rfl
    | ack seq updates => exact hclear seq
    | pingReq target seq => rfl
    | pingAck target originalFrom seq updates => exact hclear seq
  exact h.of (localId_beforeUpdates m msg) (fun t ht => Or.inl (hqueue ▸ ht))
    fun s timer ht => Or.inl ((fewer_beforeUpdates m msg).timers s timer ht)

theorem OthersOnly.await (h : m.OthersOnly) {now after : ℕ} {kind : TimerKind} {pending : PendingPing}
    (hkind : kind.target ≠ some m.localId) : (m.await now after kind pending).OthersOnly := by
  refine h.of rfl (fun t ht => Or.inl ht) fun s timer ht => ?_
  rcases timers_await (Fewer.refl m) ht with ⟨-, hnew⟩ | ⟨-, hold⟩
  · right
    rw [hnew]
    exact hkind
  · exact Or.inl hold

theorem OthersOnly.afterUpdates (h : m.OthersOnly) (now : ℕ) (fromId : JsString) (msg : SwimMessage) :
    (m.afterUpdates now fromId msg).1.OthersOnly := by
  cases msg with
  | ping seq updates => exact ⟨h.queue, h.timers⟩
  | ack seq updates => exact h
  | pingReq target seq =>
      have hdrained : m.drained.OthersOnly := ⟨h.queue, h.timers⟩
      have hkind : (TimerKind.relay fromId target seq).target ≠ some m.drained.localId := fun hlocal => nomatch hlocal
      exact hdrained.await hkind
  | pingAck target originalFrom seq updates => exact h

theorem OthersOnly.pingRound (h : m.OthersOnly) (now : ℕ) (random : ℕ → ℕ) :
    (m.pingRound now random).1.OthersOnly := by
  have hrefill : (if m.pingQueue.length = 0 then m.refillPingQueue random else m).OthersOnly := by
    split_ifs
    · refine ⟨fun t ht => ?_, h.timers⟩
      have hmem := mem_pickRandom ht
      exact of_decide_eq_true (List.mem_filter.mp hmem).2
    · exact h
  rw [SwimMembership.pingRound]
  generalize (if m.pingQueue.length = 0 then m.refillPingQueue random else m) = m₁ at hrefill
  cases hqueue : m₁.pingQueue with
  | nil => exact hrefill
  | cons targetId pingQueue =>
      have htarget : targetId ≠ m₁.localId := hrefill.queue targetId (hqueue ▸ List.mem_cons_self)
      have hshifted : ({ m₁ with pingQueue } : SwimMembership).OthersOnly :=
        ⟨fun t ht => hrefill.queue t (hqueue ▸ List.mem_cons_of_mem _ ht), hrefill.timers⟩
      dsimp only
      cases m₁.members.get? targetId with
      | none => exact hshifted
      | some entry =>
          dsimp only
          split_ifs
          · exact hshifted
          · exact OthersOnly.await (m := ({ m₁ with pingQueue } : SwimMembership).drained)
              ⟨hshifted.queue, hshifted.timers⟩ fun hlocal => htarget (Option.some.inj hlocal)

theorem localId_pingRound (m : SwimMembership) (now : ℕ) (random : ℕ → ℕ) :
    (m.pingRound now random).1.localId = m.localId := by
  have hrefill : (if m.pingQueue.length = 0 then m.refillPingQueue random else m).localId = m.localId := by
    split_ifs <;> rfl
  rw [SwimMembership.pingRound]
  generalize (if m.pingQueue.length = 0 then m.refillPingQueue random else m) = m₁ at hrefill
  cases m₁.pingQueue with
  | nil => exact hrefill
  | cons targetId pingQueue =>
      dsimp only
      cases m₁.members.get? targetId with
      | none => exact hrefill
      | some entry =>
          dsimp only
          split_ifs
          · exact hrefill
          · exact hrefill

/-! ### What a timer does to the members -/

/-- What an expired timer does: SWIM holds the same pods alive or suspect, and neither `onJoin` nor `onDead`
is called; or a suspicion ends in the death of its pod. -/
structure Expiry (m : SwimMembership) (target : Option JsString)
    (r : SwimMembership × List SwimSend × Option SwimCallback) : Prop where
  othersOnly : r.1.OthersOnly
  localId : r.1.localId = m.localId
  outcome : ((∀ q, r.1.Live q ↔ m.Live q) ∧ ∀ p, r.2.2 ≠ some (.onJoin p) ∧ r.2.2 ≠ some (.onDead p)) ∨
    ∃ t entry, target = some t ∧ r.1.members = m.members.set t entry ∧ r.2.2 = some (.onDead t)

theorem expiry_onIndirectTimeout (h : m.OthersOnly) {t : JsString} (ht : t ≠ m.localId) (now : ℕ) :
    Expiry m (some t) ((m.onIndirectTimeout now t).1, [], (m.onIndirectTimeout now t).2) := by
  rw [onIndirectTimeout]
  cases hget : m.members.get? t with
  | none => exact ⟨h, rfl, Or.inl ⟨fun q => Iff.rfl, fun p => ⟨fun h => (by cases h), fun h => (by cases h)⟩⟩⟩
  | some entry =>
      dsimp only
      split_ifs with halive
      · exact ⟨h, rfl, Or.inl ⟨fun q => Iff.rfl, fun p => ⟨fun h => (by cases h), fun h => (by cases h)⟩⟩⟩
      · have hkind : (TimerKind.suspect t).target ≠ some m.localId := fun hlocal => ht (Option.some.inj hlocal)
        have hset : ((m.setMember t { entry with state := .suspect, suspectAt := some now }).enqueueUpdate
            ⟨t, .suspect, entry.incarnation⟩).OthersOnly := ⟨h.queue, h.timers⟩
        refine ⟨hset.await hkind, rfl, Or.inl ⟨fun q => ?_, fun p => ⟨fun h => (by cases h), fun h => (by cases h)⟩⟩⟩
        dsimp only
        rw [SwarmCoordinator.live_set m _ t ⟨.suspect, entry.incarnation, some now⟩ rfl]
        split_ifs with hq
        · refine iff_of_true (Or.inr rfl) (Or.inl ?_)
          rw [hq, getState, hget]
          exact congrArg some (not_not.mp halive)
        · exact Iff.rfl

theorem expiry_onTimer (h : m.OthersOnly) {kind : TimerKind} (hkind : kind.target ≠ some m.localId) (now : ℕ)
    (random : ℕ → ℕ) (seq : ℕ) : Expiry m kind.target (m.onTimer now random seq kind) := by
  have hforget : (m.forget seq).OthersOnly := ⟨h.queue, h.timers⟩
  cases kind with
  | ping t =>
      have ht : t ≠ (m.forget seq).localId := fun hlocal => hkind (congrArg some hlocal)
      rw [onTimer, onPingTimeout]
      dsimp only
      split_ifs
      · obtain ⟨hothers, hid, hout⟩ := expiry_onIndirectTimeout hforget ht now
        exact ⟨hothers, hid, hout⟩
      · exact ⟨OthersOnly.await hforget hkind, rfl, Or.inl ⟨fun q => Iff.rfl, fun p => ⟨fun h => (by cases h), fun h => (by cases h)⟩⟩⟩
  | relay f t q => exact ⟨hforget, rfl, Or.inl ⟨fun q => Iff.rfl, fun p => ⟨fun h => (by cases h), fun h => (by cases h)⟩⟩⟩
  | indirect t =>
      have ht : t ≠ (m.forget seq).localId := fun hlocal => hkind (congrArg some hlocal)
      obtain ⟨hothers, hid, hout⟩ := expiry_onIndirectTimeout hforget ht now
      exact ⟨hothers, hid, hout⟩
  | suspect t =>
      rw [onTimer, onSuspectTimeout]
      cases m.members.get? t with
      | none => exact ⟨h, rfl, Or.inl ⟨fun q => Iff.rfl, fun p => ⟨fun h => (by cases h), fun h => (by cases h)⟩⟩⟩
      | some entry =>
          dsimp only
          split_ifs
          · exact ⟨h, rfl, Or.inl ⟨fun q => Iff.rfl, fun p => ⟨fun h => (by cases h), fun h => (by cases h)⟩⟩⟩
          · exact ⟨⟨h.queue, h.timers⟩, rfl, Or.inr ⟨t, _, rfl, rfl, rfl⟩⟩

end SwimMembership

namespace SwarmCoordinator
variable {c c' : SwarmCoordinator} {now : ℕ} {p : JsString}

/-! ### One step -/

/-- The views agree, and the SWIM instance is the local pod's and watches other pods only. -/
structure Settled (c : SwarmCoordinator) : Prop where
  agree : c.Agree
  localId : c.swim.localId = c.localPodId
  othersOnly : c.swim.OthersOnly

/-- The same coordinator with the same timers. -/
structure Steady (c c' : SwarmCoordinator) : Prop where
  localPodId : c'.localPodId = c.localPodId
  timers : SwimMembership.SameTimers c.swim c'.swim

theorem Settled.of (h : c.Settled) (hs : Steady c c') (hagree : c'.Agree) : c'.Settled where
  agree := hagree
  localId := by rw [hs.timers.localId, hs.localPodId, h.localId]
  othersOnly := hs.timers.othersOnly h.othersOnly

theorem steady_joinPod (c : SwarmCoordinator) (now : ℕ) (member : SwarmMember) :
    Steady c (c.joinPod now member) := by
  by_cases hknown : member.podId.1 = c.swim.localId ∨ c.swim.members.has member.podId = true
  · rw [joinPod_known hknown]
    exact ⟨rfl, .refl _⟩
  · obtain ⟨hlocal, hhas⟩ := not_or.mp hknown
    rw [joinPod_unknown hlocal (by simpa using hhas)]
    exact ⟨rfl, rfl, rfl, rfl⟩

theorem steady_leave (c : SwarmCoordinator) (p : JsString) : Steady c (c.leave p) :=
  ⟨rfl, c.swim.sameTimers_removeMember p⟩

theorem steady_notify (c : SwarmCoordinator) (now : ℕ) (callback : Option SwimCallback) :
    Steady c (c.notify now callback).1 := by
  have hnothing : Steady c c := ⟨rfl, .refl _⟩
  cases callback with
  | none => exact hnothing
  | some callback =>
      cases callback with
      | onJoin q =>
          rw [notify, join]
          split_ifs with hq
          · exact hnothing
          · exact steady_joinPod c now _
      | onSuspect q => exact hnothing
      | onDead q => exact steady_leave c q
      | onLeave q => exact hnothing

variable (now) in
theorem settled_processUpdate {u : MemberUpdate} (h : c.Settled) (hkept : c.Kept u) :
    (c.processUpdate now u).1.Settled ∧ (c.processUpdate now u).2 = false := by
  obtain ⟨hagree, hthrown⟩ := agree_processUpdate now h.localId h.agree hkept
  obtain ⟨hlocal, htimers⟩ := steady_notify { c with swim := (c.swim.processUpdate now u).1 } now
    (c.swim.processUpdate now u).2
  exact ⟨h.of ⟨hlocal, (c.swim.sameTimers_processUpdate now u).trans htimers⟩ hagree, hthrown⟩

/-- Every update of a message meets its condition when it is processed. -/
def Heeds (c : SwarmCoordinator) (now : ℕ) : List MemberUpdate → Prop
  | [] => True
  | u :: us => c.Kept u ∧ Heeds (c.processUpdate now u).1 now us

theorem settled_processUpdates {us : List MemberUpdate} (h : c.Settled) (hheeds : c.Heeds now us) :
    (c.processUpdates now us).1.Settled ∧ (c.processUpdates now us).2 = false := by
  induction us generalizing c with
  | nil => exact ⟨h, rfl⟩
  | cons u us ih =>
      obtain ⟨hkept, hrest⟩ := hheeds
      obtain ⟨hsettled, hthrown⟩ := settled_processUpdate now h hkept
      rw [processUpdates, hthrown]
      exact ih hsettled hrest

theorem Settled.withSwim (h : c.Settled) {m : SwimMembership} (hmembers : m.members = c.swim.members)
    (hid : m.localId = c.swim.localId) (hothers : m.OthersOnly) : ({ c with swim := m } : _).Settled where
  agree q := (h.agree q).congr rfl rfl rfl (live_congr hmembers q)
  localId := hid.trans h.localId
  othersOnly := hothers

theorem settled_handleMessage {fromId : JsString} {msg : SwimMessage} (h : c.Settled)
    (hheeds : ({ c with swim := c.swim.beforeUpdates msg } : SwarmCoordinator).Heeds now msg.updates) :
    (c.handleMessage now fromId msg).1.Settled := by
  have hbefore : ({ c with swim := c.swim.beforeUpdates msg } : SwarmCoordinator).Settled :=
    h.withSwim (SwimMembership.members_beforeUpdates c.swim msg) (SwimMembership.localId_beforeUpdates c.swim msg)
      (h.othersOnly.beforeUpdates msg)
  obtain ⟨hsettled, hthrown⟩ := settled_processUpdates hbefore hheeds
  rw [handleMessage, hthrown]
  have hid : ∀ m : SwimMembership, (m.afterUpdates now fromId msg).1.localId = m.localId := by
    intro m
    cases msg <;> rfl
  exact hsettled.withSwim (SwimMembership.members_afterUpdates _ now fromId msg) (hid _)
    (hsettled.othersOnly.afterUpdates now fromId msg)

theorem settled_fire {random : ℕ → ℕ} {seq : ℕ} {r : SwarmCoordinator × List SwimSend} (h : c.Settled)
    (hfire : c.fire now random seq = some r) : r.1.Settled := by
  obtain ⟨r, hr, rfl⟩ := Option.map_eq_some_iff.mp hfire
  obtain ⟨timer, htimer, rfl⟩ := SwimNetwork.timers_of_fire hr
  have hkind := h.othersOnly.timers seq timer htimer
  have hothers : ({ c.swim with timers := c.swim.timers.delete seq } : SwimMembership).OthersOnly :=
    h.othersOnly.of rfl (fun t ht => Or.inl ht)
      fun s t ht => Or.inl ((SwimMembership.fewer_delete c.swim seq).timers s t ht)
  obtain ⟨hnew, hid, hout⟩ := SwimMembership.expiry_onTimer hothers hkind now random seq
  generalize ({ c.swim with timers := c.swim.timers.delete seq } : SwimMembership).onTimer now random seq
    timer.kind = r at hnew hid hout
  have hsteady := steady_notify { c with swim := r.1 } now r.2.2
  have hid' : (({ c with swim := r.1 } : SwarmCoordinator).notify now r.2.2).1.swim.localId =
      (({ c with swim := r.1 } : SwarmCoordinator).notify now r.2.2).1.localPodId := by
    rw [hsteady.timers.localId, hsteady.localPodId]
    exact hid.trans h.localId
  refine ⟨?_, hid', hsteady.timers.othersOnly hnew⟩
  rcases hout with ⟨hlive, hquiet⟩ | ⟨t, entry, htarget, hmembers, hdead⟩
  · have hsame : ({ c with swim := r.1 } : SwarmCoordinator).Agree :=
      fun q => (h.agree q).congr rfl rfl rfl (hlive q)
    cases hcallback : r.2.2 with
    | none => exact hsame
    | some callback =>
        cases callback with
        | onJoin q => exact absurd hcallback (hquiet q).1
        | onSuspect q => exact hsame
        | onDead q => exact absurd hcallback (hquiet q).2
        | onLeave q => exact hsame
  · rw [hdead]
    refine agree_leave (fun q hq => ?_) ?_
    · refine (h.agree q).congr rfl rfl rfl ?_
      rw [live_set c.swim r.1 t entry hmembers, if_neg hq]
    · rintro rfl
      rw [htarget, h.localId] at hkind
      exact hkind rfl

end SwarmCoordinator

/-! ### Runs -/

/-- A coordinator and the time of its clock and its timers. -/
structure SwarmRun where
  coordinator : SwarmCoordinator
  now : ℕ
  deriving DecidableEq

inductive SwarmEvent where
  | tick (ms : ℕ)
  | pingRound (random : ℕ → ℕ)
  | message (fromId : JsString) (msg : SwimMessage)
  | timeout (seq : ℕ) (random : ℕ → ℕ)
  | join (podId : JsString) (capabilities : List JsString)
  | leave (podId : JsString)

namespace SwarmRun

/-- A timeout is possible when its timer is due; a join that throws changes nothing. -/
def step (w : SwarmRun) : SwarmEvent → Option SwarmRun
  | .tick ms => some { w with now := w.now + ms }
  | .pingRound random =>
      some { w with coordinator := { w.coordinator with swim := (w.coordinator.swim.pingRound w.now random).1 } }
  | .message fromId msg => some { w with coordinator := (w.coordinator.handleMessage w.now fromId msg).1 }
  | .timeout seq random => (w.coordinator.fire w.now random seq).map fun r => { w with coordinator := r.1 }
  | .join podId capabilities =>
      some { w with coordinator := (w.coordinator.join w.now podId capabilities).getD w.coordinator }
  | .leave podId => some { w with coordinator := w.coordinator.leave podId }

def machine (localPodId : PodId) (config : SwimConfig) : Machine SwarmRun SwarmEvent :=
  ⟨⟨SwarmCoordinator.new localPodId config 0, 0⟩, step⟩

/-- The local pod does not leave; a pod joins that SWIM does not know or holds alive or suspect; the updates
meet `Kept`. -/
def Kept (w : SwarmRun) : SwarmEvent → Prop
  | .message _ msg =>
      ({ w.coordinator with swim := w.coordinator.swim.beforeUpdates msg } : SwarmCoordinator).Heeds w.now
        msg.updates
  | .join podId _ => podId = js "" ∨ podId = w.coordinator.localPodId ∨ w.coordinator.swim.Live podId ∨
      w.coordinator.swim.members.has podId = false
  | .leave podId => podId ≠ w.coordinator.localPodId
  | _ => True

theorem settled_init (localPodId : PodId) (config : SwimConfig) :
    (SwarmCoordinator.new localPodId config 0).Settled where
  agree p := by
    have hlive : (SwimMembership.new localPodId.1 config).Live p ↔ p = localPodId.1 := by
      rw [SwarmCoordinator.live_set { SwimMembership.new localPodId.1 config with members := JsMap.empty } _
        localPodId.1 ⟨.alive, 0, none⟩ rfl]
      split_ifs with hp
      · exact iff_of_true (Or.inl rfl) hp
      · exact iff_of_false (by simp [SwimMembership.Live, SwimMembership.getState]) hp
    have hdist : (SwarmCoordinator.new localPodId config 0).distributor.members.has p = true ↔
        p = localPodId.1 := by
      rw [SwarmCoordinator.new, TaskDistributor.addMember, SwarmCoordinator.has_set]
      simp [JsMap.has]
    have hcand : p ∈ (SwarmCoordinator.new localPodId config 0).election.candidates ↔ p = localPodId.1 := by
      change p ∈ JsSet.empty.add localPodId.1 ↔ _
      simp
    rw [SwarmCoordinator.At, hdist, hcand]
    exact ⟨⟨Or.inl, fun h => h.elim id hlive.mp⟩, ⟨Or.inl, fun h => h.elim id hlive.mp⟩⟩
  localId := rfl
  othersOnly := ⟨fun t ht => absurd ht List.not_mem_nil, fun s timer ht => by cases ht⟩

theorem settled_step {w w' : SwarmRun} {event : SwarmEvent} (h : w.coordinator.Settled) (hkept : w.Kept event)
    (hs : w.step event = some w') : w'.coordinator.Settled := by
  cases event with
  | tick ms =>
      obtain rfl := Option.some.inj hs
      exact h
  | pingRound random =>
      obtain rfl := Option.some.inj hs
      exact h.withSwim (SwimMembership.members_pingRound _ w.now random)
        (SwimMembership.localId_pingRound _ w.now random) (h.othersOnly.pingRound w.now random)
  | message fromId msg =>
      obtain rfl := Option.some.inj hs
      exact SwarmCoordinator.settled_handleMessage h hkept
  | timeout seq random =>
      obtain ⟨r, hr, rfl⟩ := Option.map_eq_some_iff.mp hs
      exact SwarmCoordinator.settled_fire h hr
  | join podId capabilities =>
      obtain rfl := Option.some.inj hs
      change ((w.coordinator.join w.now podId capabilities).getD w.coordinator).Settled
      rw [SwarmCoordinator.join]
      split_ifs with hid
      · exact h
      · refine h.of (SwarmCoordinator.steady_joinPod _ _ _)
          (SwarmCoordinator.agree_joinPod h.localId (fun q _ => h.agree q) ?_)
        rcases hkept with hempty | hlocal | hrest
        · exact absurd hempty hid
        · exact Or.inl (Subtype.ext hlocal)
        · exact Or.inr hrest
  | leave podId =>
      obtain rfl := Option.some.inj hs
      exact h.of (SwarmCoordinator.steady_leave _ _) (SwarmCoordinator.agree_leave (fun q _ => h.agree q) hkept)

/-- In every run whose steps meet `Kept`, the distributor's members and the election's candidates are the local
pod and the pods that SWIM holds alive or suspect. -/
theorem views_agree (localPodId : PodId) (config : SwimConfig) (w : SwarmRun)
    (h : (machine localPodId config).Reach Kept w) : w.coordinator.Agree :=
  (h.invariant (I := fun w : SwarmRun => w.coordinator.Settled) (settled_init localPodId config)
    fun _ _ _ hi hok hs => settled_step hi hok hs).agree

instance (c : SwarmCoordinator) (now : ℕ) (us : List MemberUpdate) : Decidable (c.Heeds now us) := by
  induction us generalizing c with
  | nil => exact instDecidableTrue
  | cons u us ih => exact @instDecidableAnd _ _ _ (ih _)

instance (w : SwarmRun) (event : SwarmEvent) : Decidable (w.Kept event) := by
  unfold Kept
  split <;> infer_instance

def alicePod : PodId := ⟨js "alice", by decide⟩

/-- Bob joins, Carol is learned from a message, and Bob, who is silent, is declared dead. -/
def bobDies : List SwarmEvent :=
  [.join (js "bob") [js "gpu"], .pingRound fun _ => 0,
    .message (js "carol") (.ping 1 [⟨js "carol", .alive, JsNumber.ofNat 3⟩]), .tick 500, .timeout 1 fun _ => 0,
    .tick 500, .timeout 2 fun _ => 0, .tick 5000, .timeout 3 fun _ => 0]

theorem views_agree_alice : ∃ w, (machine alicePod ⟨500, 5000, 3⟩).run Kept (machine alicePod ⟨500, 5000, 3⟩).init
    bobDies = some w ∧ w.coordinator.Agree ∧ w.coordinator.distributor.members.keys = [js "alice", js "carol"] ∧
    w.coordinator.swim.getState (js "bob") = some .left := by
  obtain ⟨w, hw, hreach, hkeys, hbob⟩ := Machine.exists_of_run (P := fun w : SwarmRun =>
      w.coordinator.distributor.members.keys = [js "alice", js "carol"] ∧
        w.coordinator.swim.getState (js "bob") = some .left)
    (show ((machine alicePod ⟨500, 5000, 3⟩).run Kept (machine alicePod ⟨500, 5000, 3⟩).init bobDies).any _ = true
      by decide +kernel)
  exact ⟨w, hw, views_agree alicePod ⟨500, 5000, 3⟩ w hreach, hkeys, hbob⟩

theorem rejoined_not_watched : ¬ ∀ (localPodId : PodId) (config : SwimConfig) (w : SwarmRun),
    (machine localPodId config).Reach (fun _ _ => True) w → w.coordinator.Agree := by
  intro h
  obtain ⟨w, -, hreach, hmember, hlocal, hleft⟩ := Machine.exists_of_run (P := fun w : SwarmRun =>
      w.coordinator.distributor.members.has (js "bob") = true ∧ w.coordinator.localPodId = alicePod ∧
        w.coordinator.swim.getState (js "bob") = some .left)
    (show ((machine alicePod ⟨500, 5000, 3⟩).run (fun _ _ => True) (machine alicePod ⟨500, 5000, 3⟩).init
      [.join (js "bob") [], .leave (js "bob"), .join (js "bob") []]).any _ = true by decide +kernel)
  rcases (h alicePod ⟨500, 5000, 3⟩ w hreach (js "bob")).1.mp hmember with hbob | hlive
  · rw [hlocal] at hbob
    exact absurd hbob (by decide)
  · rw [SwimMembership.Live, hleft] at hlive
    exact absurd hlive (by decide)

end SwarmRun
end BrowserMesh.Discovery
