import BrowserMesh.Apps.Consensus
import BrowserMesh.Js.Json
import BrowserMesh.Library.Guards
import BrowserMesh.Library.Transition

/-! # Votes over the mesh

The manager of `BrowserMesh.Apps.Consensus` as the transport sees it: messages carry any JSON value, so a proposal keeps
what the constructor does not check as it came.

* Proposals are accepted by the author they claim, from whoever sends them, and replace the tally of their id.
* Votes are cast for the sender.
* Proposals are closed for whoever asks.

So strangers write, and ballots go, exactly as `Vetted` says: `transport_respects_iff`. -/

namespace BrowserMesh.Apps.ConsensusTransport
open Js Consensus Transition

/-! ### Proposals and ballots -/

/-- `Object.entries(v)`. -/
def objectEntries : Json → List (JsString × Json)
  | .object fields =>
      (fields.filter fun f => (arrayIndex f.1).isSome).insertionSort (byRank fun f => (arrayIndex f.1).getD 0) ++
        fields.filter fun f => !(arrayIndex f.1).isSome
  | .array items => items.zipIdx.map fun e => (decimal e.2, e.1)
  | .string s => s.zipIdx.map fun e => (decimal e.2, .string [e.1])
  | _ => []

/-- What the constructor of a proposal is given; `none` is `undefined`. -/
structure ProposalData where
  proposalId : Option Json
  authorPodId : Option Json
  title : Option Json
  description : Option Json
  options : Option Json
  voteType : Option Json
  weights : Option Json
  quorum : Option Json
  deadline : Option Json
  createdAt : Option Json
  status : Option Json

/-- `v ?? other`. -/
def orElse (other : Json) : Option Json → Json
  | none | some .null => other
  | some v => v

/-- `opts` of `propose`. -/
structure ProposeOptions where
  description : Option Json := none
  weights : Option Json := none
  quorum : Option Json := none
  deadline : Option Json := none

/-- A proposal; `weights` are the entries of its map. -/
structure Proposal where
  proposalId : NonEmptyString
  authorPodId : NonEmptyString
  title : NonEmptyString
  description : Json
  options : List Json
  voteType : VoteType
  weights : Option (List (JsString × Json))
  quorum : JsNumber
  deadline : Json
  createdAt : Json
  status : Json
  two_options : 2 ≤ options.length
  quorum_pos : quorum.lt (.ofNat 1) = false

/-- The errors, as they are thrown. -/
inductive ConsensusError where
  | proposalId
  | authorPodId
  | title
  | options
  | voteType
  | quorum
  | maximum
  | notValidator
  | notFound
  | voterPodId
  | choice
  | weight
  | mismatch
  | closed
  | expired
  | invalidChoice
  | duplicate
  /-- A deadline that has no number. -/
  | coercion
deriving DecidableEq

/-- `!v || typeof v !== 'string'` refuses all else. -/
def nonEmptyString (e : ConsensusError) : Option Json → Except ConsensusError NonEmptyString
  | some (.string s) => if h : s ≠ [] then .ok ⟨s, h⟩ else .error e
  | _ => .error e

/-- `VALID_VOTE_TYPES`. -/
def readVoteType (v : Option Json) : Except ConsensusError VoteType :=
  if Json.isString (js "simple") v then .ok .simple
  else if Json.isString (js "super") v then .ok .super
  else if Json.isString (js "unanimous") v then .ok .unanimous
  else if Json.isString (js "weighted") v then .ok .weighted
  else .error .voteType

def readOptions : Option Json → Except ConsensusError {options : List Json // 2 ≤ options.length}
  | some (.array items) => if h : 2 ≤ items.length then .ok ⟨items, h⟩ else .error .options
  | _ => .error .options

def readQuorum : Option Json → Except ConsensusError {quorum : JsNumber // quorum.lt (.ofNat 1) = false}
  | some (.number n) => if h : n.lt (.ofNat 1) = false then .ok ⟨n, h⟩ else .error .quorum
  | _ => .error .quorum

namespace Proposal

/-- The constructor. -/
def make (data : ProposalData) (now : JsNumber) : Except ConsensusError Proposal := do
  let proposalId ← nonEmptyString .proposalId data.proposalId
  let authorPodId ← nonEmptyString .authorPodId data.authorPodId
  let title ← nonEmptyString .title data.title
  let options ← readOptions data.options
  let voteType ← readVoteType data.voteType
  let quorum ← readQuorum data.quorum
  return {
    proposalId, authorPodId, title, voteType
    description := data.description.getD .null
    options := options.1
    weights := (data.weights.filter Json.truthy).map objectEntries
    quorum := quorum.1
    deadline := data.deadline.getD .null
    createdAt := data.createdAt.getD (.number now)
    status := data.status.getD (.string (js "open"))
    two_options := options.2
    quorum_pos := quorum.2 }

def fromJSON (data : Json) (now : JsNumber) : Except ConsensusError Proposal :=
  make
    { proposalId := data.field (js "proposalId")
      authorPodId := data.field (js "authorPodId")
      title := data.field (js "title")
      description := data.field (js "description")
      options := data.field (js "options")
      voteType := data.field (js "voteType")
      weights := data.field (js "weights")
      quorum := data.field (js "quorum")
      deadline := data.field (js "deadline")
      createdAt := data.field (js "createdAt")
      status := data.field (js "status") } now

/-- `this.status === status`. -/
def hasStatus (p : Proposal) (status : JsString) : Bool := Json.isString status (some p.status)

/-- `isExpired`; `none` if the deadline has no number. -/
def isExpired (p : Proposal) (now : JsNumber) : Option Bool :=
  match p.deadline with
  | .null => some false
  | deadline => deadline.toNumber.map fun d => d.le now

end Proposal

structure Ballot where
  proposalId : NonEmptyString
  voterPodId : NonEmptyString
  choice : NonEmptyString
  weight : JsNumber
  timestamp : JsNumber
  weight_nonneg : weight.lt 0 = false

/-- `typeof weight !== 'number' || weight < 0` refuses all else. -/
def readWeight : Json → Except ConsensusError {weight : JsNumber // weight.lt 0 = false}
  | .number n => if h : n.lt 0 = false then .ok ⟨n, h⟩ else .error .weight
  | _ => .error .weight

/-- The constructor, with the weight as it is given. -/
def Ballot.make (proposalId voterPodId choice : Option Json) (weight : Json) (now : JsNumber) :
    Except ConsensusError Ballot := do
  let proposalId ← nonEmptyString .proposalId proposalId
  let voterPodId ← nonEmptyString .voterPodId voterPodId
  let choice ← nonEmptyString .choice choice
  let weight ← readWeight weight
  return ⟨proposalId, voterPodId, choice, weight.1, now, weight.2⟩

structure Tally where
  proposal : Proposal
  ballots : JsMap JsString Ballot

namespace Tally

/-- `new Tally(proposal)`. -/
def start (p : Proposal) : Tally := ⟨p, JsMap.empty⟩

def cast (t : Tally) (ballot : Ballot) (now : JsNumber) : Except ConsensusError Tally :=
  if ballot.proposalId ≠ t.proposal.proposalId then .error .mismatch
  else if t.proposal.hasStatus (js "closed") then .error .closed
  else if t.proposal.hasStatus (js "expired") then .error .expired
  else
    match t.proposal.isExpired now with
    | none => .error .coercion
    | some true => .error .expired
    | some false =>
        if !t.proposal.options.any fun option => Json.isString ballot.choice.1 (some option) then .error .invalidChoice
        else if t.ballots.has ballot.voterPodId.1 then .error .duplicate
        else .ok { t with ballots := t.ballots.set ballot.voterPodId.1 ballot }

/-- `this.#proposal.status = status`. -/
def setStatus (t : Tally) (status : JsString) : Tally :=
  { t with proposal := { t.proposal with status := .string status } }

theorem hasStatus_setStatus (t : Tally) (status : JsString) :
    (t.setStatus status).proposal.hasStatus status = true := decide_eq_true rfl

end Tally

/-! ### The manager -/

structure Manager where
  tallies : JsMap JsString Tally
  maxProposals : ℕ
  validators : JsSet JsString

namespace Manager

/-- `new ConsensusManager({ maxProposals, validators })`. -/
def new (maxProposals : ℕ) (validators : List JsString) : Manager :=
  ⟨JsMap.empty, maxProposals, JsSet.ofList validators⟩

def isValidator (m : Manager) (podId : Option Json) : Bool :=
  if m.validators.elems.length = 0 then true
  else
    match podId with
    | some (.string s) => m.validators.has s
    | _ => false

/-- `this.#tallies.get(proposalId)`. -/
def tally? (m : Manager) : Option Json → Option Tally
  | some (.string s) => m.tallies.get? s
  | _ => none

def keyOf : Option Json → JsString
  | some (.string s) => s
  | _ => []

def addTally (m : Manager) (proposalId : JsString) (t : Tally) : Manager :=
  { m with tallies := m.tallies.set proposalId t }

/-- `propose`; the id is generated. -/
def propose (m : Manager) (proposalId : NonEmptyString) (authorPodId title options voteType : Option Json)
    (opts : ProposeOptions) (now : JsNumber) : Except ConsensusError Manager :=
  if m.maxProposals ≤ m.tallies.size then .error .maximum
  else if !m.isValidator authorPodId then .error .notValidator
  else do
    let proposal ← Proposal.make
      { proposalId := some (.string proposalId.1)
        authorPodId, title, options, voteType
        description := some (orElse .null opts.description)
        weights := some (orElse .null opts.weights)
        quorum := some (orElse (.number (.ofNat 1)) opts.quorum)
        deadline := some (orElse .null opts.deadline)
        createdAt := none
        status := none } now
    return m.addTally proposal.proposalId.1 (Tally.start proposal)

def vote (m : Manager) (proposalId voterPodId choice : Option Json) (weight : Json) (now : JsNumber) :
    Except ConsensusError Manager :=
  match m.tally? proposalId with
  | none => .error .notFound
  | some tally =>
      if !m.isValidator voterPodId then .error .notValidator
      else do
        let ballot ← Ballot.make proposalId voterPodId choice weight now
        let tally ← tally.cast ballot now
        return m.addTally ballot.proposalId.1 tally

/-- `closeProposal`, without the outcome. -/
def closeProposal (m : Manager) (proposalId : Option Json) : Except ConsensusError Manager :=
  match m.tally? proposalId with
  | none => .error .notFound
  | some tally =>
      if tally.proposal.hasStatus (js "closed") then .error .closed
      else .ok (m.addTally (keyOf proposalId) (tally.setStatus (js "closed")))

/-- The loop of `expireAll`; a deadline without a number ends it. -/
def expireLoop (now : JsNumber) (m : Manager) : List (JsString × Tally) → Manager
  | [] => m
  | (id, t) :: rest =>
      if !t.proposal.hasStatus (js "open") then expireLoop now m rest
      else
        match t.proposal.isExpired now with
        | none => m
        | some true => expireLoop now (m.addTally id (t.setStatus (js "expired"))) rest
        | some false => expireLoop now m rest

def expireAll (m : Manager) (now : JsNumber) : Manager := expireLoop now m m.tallies.entries

def settle (m : Manager) : Except ConsensusError Manager → Manager
  | .ok m' => m'
  | .error _ => m

/-! ### Messages -/

/-- The handler of `CONSENSUS_PROPOSE`; it does not look at the sender. -/
def receiveProposal (m : Manager) (payload : Json) (now : JsNumber) : Except ConsensusError Manager :=
  if !m.isValidator (payload.field (js "authorPodId")) then .error .notValidator
  else do
    let proposal ← Proposal.fromJSON payload now
    return m.addTally proposal.proposalId.1 (Tally.start proposal)

/-- The handler of `CONSENSUS_VOTE`. -/
def receiveVote (m : Manager) (payload fromPodId : Json) (now : JsNumber) : Except ConsensusError Manager :=
  m.vote (payload.field (js "proposalId")) (some fromPodId) (payload.field (js "choice"))
    (orElse (.number (.ofNat 1)) (payload.field (js "weight"))) now

/-- The handler of `CONSENSUS_CLOSE`; it does not look at the sender. -/
def receiveClose (m : Manager) (payload : Json) : Except ConsensusError Manager :=
  m.closeProposal (payload.field (js "proposalId"))

end Manager

/-- The wire types. -/
inductive WireType where
  | propose
  | vote
  | close
  | result
deriving DecidableEq

/-- What happens to a manager: messages, and local operations. -/
inductive ConsensusOp where
  | receive (type : WireType) (payload fromPodId : Json) (now : JsNumber)
  | propose (proposalId : NonEmptyString) (authorPodId title options voteType : Option Json) (opts : ProposeOptions)
      (now : JsNumber)
  | vote (proposalId voterPodId choice : Option Json) (weight : Json) (now : JsNumber)
  | closeProposal (proposalId : Option Json)
  | expireAll (now : JsNumber)
  | addValidator (podId : NonEmptyString)
  | removeValidator (podId : JsString)

namespace Manager

/-- The handlers of `wireTransport`. -/
def receive (m : Manager) (type : WireType) (payload fromPodId : Json) (now : JsNumber) : Manager :=
  match type with
  | .propose => m.settle (m.receiveProposal payload now)
  | .vote => m.settle (m.receiveVote payload fromPodId now)
  | .close => m.settle (m.receiveClose payload)
  | .result => m

def step (m : Manager) : ConsensusOp → Manager
  | .receive type payload fromPodId now => m.receive type payload fromPodId now
  | .propose proposalId authorPodId title options voteType opts now =>
      m.settle (m.propose proposalId authorPodId title options voteType opts now)
  | .vote proposalId voterPodId choice weight now => m.settle (m.vote proposalId voterPodId choice weight now)
  | .closeProposal proposalId => m.settle (m.closeProposal proposalId)
  | .expireAll now => m.expireAll now
  | .addValidator podId => { m with validators := m.validators.add podId.1 }
  | .removeValidator podId => { m with validators := m.validators.delete podId }

def machine (maxProposals : ℕ) (validators : List JsString) : Machine Manager ConsensusOp :=
  ⟨Manager.new maxProposals validators, fun m op => some (m.step op)⟩

def Keeps (m m' : Manager) : Prop :=
  ∀ id t voter ballot, m.tallies.get? id = some t → t.ballots.get? voter = some ballot →
    ∃ t', m'.tallies.get? id = some t' ∧ t'.ballots.get? voter = some ballot

/-- A message of a stranger changes no tally, and no message removes or alters a ballot. -/
def Respected (m : Manager) : ConsensusOp → Prop
  | .receive type payload fromPodId now =>
      (m.isValidator (some fromPodId) = false → (m.receive type payload fromPodId now).tallies = m.tallies) ∧
        m.Keeps (m.receive type payload fromPodId now)
  | _ => True

/-- A proposal that is accepted is sent by a validator, or is there as it comes; and the tally of its id has no ballots.
A proposal that can be closed is closed by a validator. -/
def Vetted (m : Manager) : ConsensusOp → Prop
  | .receive .propose payload fromPodId now => ∀ p, m.isValidator (payload.field (js "authorPodId")) = true →
      Proposal.fromJSON payload now = .ok p →
      (m.isValidator (some fromPodId) = true ∨ m.tallies.get? p.proposalId.1 = some (Tally.start p)) ∧
        ∀ t, m.tallies.get? p.proposalId.1 = some t → t.ballots = JsMap.empty
  | .receive .close payload fromPodId _ => m.isValidator (some fromPodId) = true ∨
      ∀ t, m.tally? (payload.field (js "proposalId")) = some t → t.proposal.hasStatus (js "closed") = true
  | _ => True

/-! ### What messages do -/

variable {m : Manager}

theorem tally?_eq {id : Option Json} {t : Tally} (h : m.tally? id = some t) :
    m.tallies.get? (keyOf id) = some t := by
  unfold tally? at h
  split at h
  · exact h
  · cases h

theorem keeps_refl (m : Manager) : m.Keeps m := fun _ t _ _ ht hballot => ⟨t, ht, hballot⟩

theorem keeps_addTally {id : JsString} {t' : Tally}
    (h : ∀ t voter ballot, m.tallies.get? id = some t → t.ballots.get? voter = some ballot →
      t'.ballots.get? voter = some ballot) : m.Keeps (m.addTally id t') := by
  intro id' t voter ballot ht hballot
  show ∃ t'', (m.tallies.set id t').get? id' = some t'' ∧ t''.ballots.get? voter = some ballot
  rw [JsMap.get?_set]
  split_ifs with hid
  · subst hid
    exact ⟨t', rfl, h t voter ballot ht hballot⟩
  · exact ⟨t, ht, hballot⟩

theorem keeps_start_iff {p : Proposal} :
    m.Keeps (m.addTally p.proposalId.1 (Tally.start p)) ↔
      ∀ t, m.tallies.get? p.proposalId.1 = some t → t.ballots = JsMap.empty := by
  constructor
  · intro h t ht
    refine JsMap.ext (List.eq_nil_iff_forall_not_mem.mpr fun e he => ?_)
    obtain ⟨t', ht', hballot⟩ := h _ t e.1 e.2 ht (JsMap.mem_entries_iff.mp he)
    have hget : (m.tallies.set p.proposalId.1 (Tally.start p)).get? p.proposalId.1 = some t' := ht'
    rw [JsMap.get?_set, if_pos rfl] at hget
    obtain rfl := Option.some.inj hget
    cases hballot
  · intro h
    refine keeps_addTally fun t voter ballot ht hballot => ?_
    rw [h t ht] at hballot
    cases hballot

theorem addTally_tallies_eq_iff {id : JsString} {t : Tally} :
    (m.addTally id t).tallies = m.tallies ↔ m.tallies.get? id = some t := by
  constructor
  · intro h
    have hget : (m.tallies.set id t).get? id = m.tallies.get? id := congrArg (fun tallies => tallies.get? id) h
    rw [JsMap.get?_set, if_pos rfl] at hget
    exact hget.symm
  · exact fun h => JsMap.set_eq_self h

theorem cast_eq_ok {t t' : Tally} {ballot : Ballot} {now : JsNumber} (h : t.cast ballot now = .ok t') :
    t.ballots.get? ballot.voterPodId.1 = none ∧
      t' = { t with ballots := t.ballots.set ballot.voterPodId.1 ballot } := by
  cases hdeadline : t.proposal.isExpired now with
  | none =>
      simp only [Tally.cast, hdeadline] at h
      split_ifs at h
  | some b =>
      simp only [Tally.cast, hdeadline] at h
      cases b with
      | true => split_ifs at h
      | false =>
          split_ifs at h with hid hclosed hexpired hchoice hvoted
          obtain rfl := Except.ok.inj h
          exact ⟨Option.not_isSome_iff_eq_none.mp hvoted, rfl⟩

theorem vote_eq_ok {m' : Manager} {proposalId voterPodId choice : Option Json} {weight : Json} {now : JsNumber}
    (h : m.vote proposalId voterPodId choice weight now = .ok m') :
    m.isValidator voterPodId = true ∧ ∃ t ballot, m.tallies.get? ballot.proposalId.1 = some t ∧
      t.ballots.get? ballot.voterPodId.1 = none ∧
      m' = m.addTally ballot.proposalId.1 { t with ballots := t.ballots.set ballot.voterPodId.1 ballot } := by
  unfold vote at h
  cases ht : m.tally? proposalId with
  | none =>
      rw [ht] at h
      cases h
  | some t =>
      simp only [ht] at h
      split_ifs at h with hvalidator
      refine ⟨by simpa using hvalidator, ?_⟩
      obtain ⟨ballot, hballot, h⟩ := Guards.bind_eq_ok.mp h
      obtain ⟨t', hcast, h⟩ := Guards.bind_eq_ok.mp h
      obtain rfl := Except.ok.inj h
      obtain ⟨hnone, rfl⟩ := cast_eq_ok hcast
      refine ⟨t, ballot, ?_, hnone, rfl⟩
      -- the ballot has the id that was looked up
      obtain ⟨id, hid, hrest⟩ := Guards.bind_eq_ok.mp hballot
      obtain ⟨_, -, hrest⟩ := Guards.bind_eq_ok.mp hrest
      obtain ⟨_, -, hrest⟩ := Guards.bind_eq_ok.mp hrest
      obtain ⟨_, -, hrest⟩ := Guards.bind_eq_ok.mp hrest
      obtain rfl := Except.ok.inj hrest
      show m.tallies.get? id.1 = some t
      unfold nonEmptyString at hid
      unfold tally? at ht
      split at ht
      · simp only at hid
        split_ifs at hid
        obtain rfl := Except.ok.inj hid
        exact ht
      · cases ht

/-- **Votes** respect both. -/
theorem vote_respected (m : Manager) (payload fromPodId : Json) (now : JsNumber) :
    m.Respected (.receive .vote payload fromPodId now) := by
  show (m.isValidator (some fromPodId) = false → (m.settle (m.receiveVote payload fromPodId now)).tallies = m.tallies) ∧
    m.Keeps (m.settle (m.receiveVote payload fromPodId now))
  cases hvote : m.receiveVote payload fromPodId now with
  | error e => exact ⟨fun _ => rfl, m.keeps_refl⟩
  | ok m' =>
      obtain ⟨hvalidator, t, ballot, ht, hnone, rfl⟩ := vote_eq_ok hvote
      constructor
      · intro hstranger
        rw [hstranger] at hvalidator
        cases hvalidator
      · refine keeps_addTally fun t' voter ballot' ht' hballot' => ?_
        obtain rfl := Option.some.inj (ht.symm.trans ht')
        show (t.ballots.set ballot.voterPodId.1 ballot).get? voter = some ballot'
        rw [JsMap.get?_set, if_neg, hballot']
        rintro rfl
        rw [hnone] at hballot'
        cases hballot'

/-- **Proposals** respect both exactly if they are vetted. -/
theorem proposal_respected_iff (m : Manager) (payload fromPodId : Json) (now : JsNumber) :
    m.Respected (.receive .propose payload fromPodId now) ↔ m.Vetted (.receive .propose payload fromPodId now) := by
  show ((m.isValidator (some fromPodId) = false →
      (m.settle (m.receiveProposal payload now)).tallies = m.tallies) ∧
      m.Keeps (m.settle (m.receiveProposal payload now))) ↔
    ∀ p, m.isValidator (payload.field (js "authorPodId")) = true → Proposal.fromJSON payload now = .ok p →
      (m.isValidator (some fromPodId) = true ∨ m.tallies.get? p.proposalId.1 = some (Tally.start p)) ∧
        ∀ t, m.tallies.get? p.proposalId.1 = some t → t.ballots = JsMap.empty
  have hrefused : ∀ e, m.receiveProposal payload now = .error e →
      (m.isValidator (some fromPodId) = false → (m.settle (m.receiveProposal payload now)).tallies = m.tallies) ∧
        m.Keeps (m.settle (m.receiveProposal payload now)) := by
    intro e he
    rw [he]
    exact ⟨fun _ => rfl, m.keeps_refl⟩
  cases hauthor : m.isValidator (payload.field (js "authorPodId")) with
  | false =>
      refine iff_of_true (hrefused .notValidator ?_) fun p h => by cases h
      rw [receiveProposal, hauthor]
      rfl
  | true =>
      cases hparse : Proposal.fromJSON payload now with
      | error e =>
          refine iff_of_true (hrefused e ?_) fun p _ h => by cases h
          rw [receiveProposal, hauthor, hparse]
          rfl
      | ok p =>
          have haccepted : m.receiveProposal payload now = .ok (m.addTally p.proposalId.1 (Tally.start p)) := by
            rw [receiveProposal, hauthor, hparse]
            rfl
          have hvetted : (∀ p', true = true → (Except.ok p : Except ConsensusError Proposal) = .ok p' →
              (m.isValidator (some fromPodId) = true ∨ m.tallies.get? p'.proposalId.1 = some (Tally.start p')) ∧
                ∀ t, m.tallies.get? p'.proposalId.1 = some t → t.ballots = JsMap.empty) ↔
              (m.isValidator (some fromPodId) = true ∨ m.tallies.get? p.proposalId.1 = some (Tally.start p)) ∧
                ∀ t, m.tallies.get? p.proposalId.1 = some t → t.ballots = JsMap.empty := by
            constructor
            · exact fun h => h p rfl rfl
            · rintro h p' - heq
              obtain rfl := Except.ok.inj heq
              exact h
          rw [hvetted, haccepted, settle, addTally_tallies_eq_iff, keeps_start_iff]
          refine and_congr_left fun _ => ?_
          cases m.isValidator (some fromPodId) with
          | true => simp
          | false => simp

/-- **Closing** removes no ballot; it is respected exactly if it is vetted. -/
theorem close_respected_iff (m : Manager) (payload fromPodId : Json) (now : JsNumber) :
    m.Respected (.receive .close payload fromPodId now) ↔ m.Vetted (.receive .close payload fromPodId now) := by
  show ((m.isValidator (some fromPodId) = false → (m.settle (m.receiveClose payload)).tallies = m.tallies) ∧
      m.Keeps (m.settle (m.receiveClose payload))) ↔
    (m.isValidator (some fromPodId) = true ∨
      ∀ t, m.tally? (payload.field (js "proposalId")) = some t → t.proposal.hasStatus (js "closed") = true)
  cases ht : m.tally? (payload.field (js "proposalId")) with
  | none =>
      have hresult : m.receiveClose payload = .error .notFound := by simp only [receiveClose, closeProposal, ht]
      rw [hresult]
      exact iff_of_true ⟨fun _ => rfl, m.keeps_refl⟩ (Or.inr fun t h => by cases h)
  | some t =>
      cases hclosed : t.proposal.hasStatus (js "closed") with
      | true =>
          have hresult : m.receiveClose payload = .error .closed := by
            simp only [receiveClose, closeProposal, ht, hclosed, if_true]
          rw [hresult]
          refine iff_of_true ⟨fun _ => rfl, m.keeps_refl⟩ (Or.inr fun t' h => ?_)
          obtain rfl := Option.some.inj h
          exact hclosed
      | false =>
          have hresult : m.receiveClose payload =
              .ok (m.addTally (keyOf (payload.field (js "proposalId"))) (t.setStatus (js "closed"))) := by
            simp only [receiveClose, closeProposal, ht, hclosed, Bool.false_eq_true, if_false]
          have hget := tally?_eq ht
          have hkeeps : m.Keeps (m.addTally (keyOf (payload.field (js "proposalId"))) (t.setStatus (js "closed"))) := by
            refine keeps_addTally fun t' voter ballot ht' hballot => ?_
            obtain rfl := Option.some.inj (hget.symm.trans ht')
            exact hballot
          have hchanged : ¬ (m.addTally (keyOf (payload.field (js "proposalId")))
              (t.setStatus (js "closed"))).tallies = m.tallies := by
            rw [addTally_tallies_eq_iff, hget]
            intro heq
            rw [Option.some.inj heq, Tally.hasStatus_setStatus] at hclosed
            cases hclosed
          rw [hresult, settle, and_iff_left hkeeps]
          constructor
          · intro h
            refine Or.inl ?_
            by_contra hstranger
            exact hchanged (h (by simpa using hstranger))
          · rintro (hvalidator | hall) hstranger
            · rw [hstranger] at hvalidator
              cases hvalidator
            · rw [hall t rfl] at hclosed
              cases hclosed

/-- **The transport respects the electorate**, in every run, exactly if all its messages are vetted. -/
theorem transport_respects_iff (maxProposals : ℕ) (validators : List JsString) (ops : List ConsensusOp) :
    (machine maxProposals validators).Along Respected (machine maxProposals validators).init ops ↔
      (machine maxProposals validators).Along Vetted (machine maxProposals validators).init ops := by
  refine Machine.along_congr (fun m op m' _ => ?_) _ _
  cases op with
  | receive type payload fromPodId now =>
      cases type with
      | propose => exact m.proposal_respected_iff payload fromPodId now
      | vote => exact iff_of_true (m.vote_respected payload fromPodId now) trivial
      | close => exact m.close_respected_iff payload fromPodId now
      | result => exact iff_of_true ⟨fun _ => rfl, m.keeps_refl⟩ trivial
  | propose _ _ _ _ _ _ _ | vote _ _ _ _ _ | closeProposal _ | expireAll _ | addValidator _ | removeValidator _ =>
      exact Iff.rfl

def lunch : Json :=
  .object [(js "proposalId", .string (js "lunch")), (js "authorPodId", .string (js "alice")),
    (js "title", .string (js "Lunch")), (js "options", .array [.string (js "yes"), .string (js "no")]),
    (js "voteType", .string (js "simple")), (js "quorum", .number (.ofNat 1)), (js "createdAt", .number 0)]

def lunchVote : Json := .object [(js "proposalId", .string (js "lunch")), (js "choice", .string (js "yes"))]

def messageFrom (podId : JsString) (type : WireType) (payload : Json) : ConsensusOp :=
  .receive type payload (.string podId) 0

def hasBallot (m : Manager) (id voter : JsString) : Bool := (m.tallies.get? id).any fun t => t.ballots.has voter

def isClosed (m : Manager) (id : JsString) : Bool := (m.tallies.get? id).any fun t => t.proposal.hasStatus (js "closed")

theorem Keeps.hasBallot {m' : Manager} (h : m.Keeps m') {id voter : JsString} (hm : m.hasBallot id voter = true) :
    m'.hasBallot id voter = true := by
  obtain ⟨t, ht, hvoter⟩ := (Option.any_eq_true _ _).mp hm
  obtain ⟨ballot, hballot⟩ := Option.isSome_iff_exists.mp hvoter
  obtain ⟨t', ht', hballot'⟩ := h id t voter ballot ht hballot
  exact (Option.any_eq_true _ _).mpr ⟨t', ht', Option.isSome_iff_exists.mpr ⟨ballot, hballot'⟩⟩

theorem along_cons {maxProposals : ℕ} {validators : List JsString} {op : ConsensusOp}
    {ops : List ConsensusOp} (h : (machine maxProposals validators).Along Respected m (op :: ops)) :
    m.Respected op ∧ (machine maxProposals validators).Along Respected (m.step op) ops := h _ rfl

def council : Manager := Manager.new 10 [js "alice", js "bob"]

def proposed : Manager := council.step (messageFrom (js "alice") .propose lunch)

def voted : Manager := proposed.step (messageFrom (js "bob") .vote lunchVote)

theorem stranger_proposes : council.isValidator (some (.string (js "mallory"))) = false ∧
    council.tallies.size = 0 ∧ (council.step (messageFrom (js "mallory") .propose lunch)).tallies.size = 1 := by
  decide +kernel

theorem ballot_lost : voted.hasBallot (js "lunch") (js "bob") = true ∧
    (voted.step (messageFrom (js "alice") .propose lunch)).hasBallot (js "lunch") (js "bob") = false := by
  decide +kernel

theorem stranger_closes : proposed.isValidator (some (.string (js "mallory"))) = false ∧
    proposed.isClosed (js "lunch") = false ∧
    (proposed.step (messageFrom (js "mallory") .close lunch)).isClosed (js "lunch") = true := by decide +kernel

/-- Mallory, who is no validator, makes a proposal in Alice's name; the same proposal, sent again, removes Bob's ballot;
and Mallory closes the proposal. -/
theorem electorate_ignored :
    ¬ (machine 10 [js "alice", js "bob"]).Along Respected (machine 10 [js "alice", js "bob"]).init
      [messageFrom (js "mallory") .propose lunch] ∧
    ¬ (machine 10 [js "alice", js "bob"]).Along Respected (machine 10 [js "alice", js "bob"]).init
      [messageFrom (js "alice") .propose lunch, messageFrom (js "bob") .vote lunchVote,
        messageFrom (js "alice") .propose lunch] ∧
    ¬ (machine 10 [js "alice", js "bob"]).Along Respected (machine 10 [js "alice", js "bob"]).init
      [messageFrom (js "alice") .propose lunch, messageFrom (js "mallory") .close lunch] := by
  have hinit : (machine 10 [js "alice", js "bob"]).init = council := rfl
  rw [hinit]
  refine ⟨fun h => ?_, fun h => ?_, fun h => ?_⟩
  · obtain ⟨hstranger, hbefore, hafter⟩ := stranger_proposes
    obtain ⟨⟨hunchanged, -⟩, -⟩ := along_cons h
    have hsize : (council.step (messageFrom (js "mallory") .propose lunch)).tallies.size = council.tallies.size :=
      congrArg JsMap.size (hunchanged hstranger)
    rw [hbefore, hafter] at hsize
    cases hsize
  · obtain ⟨⟨-, hkeeps⟩, -⟩ := along_cons (along_cons (along_cons h).2).2
    have hkept : (voted.step (messageFrom (js "alice") .propose lunch)).hasBallot (js "lunch") (js "bob") = true :=
      hkeeps.hasBallot ballot_lost.1
    rw [ballot_lost.2] at hkept
    cases hkept
  · obtain ⟨hstranger, hopen, hclosed⟩ := stranger_closes
    obtain ⟨⟨hunchanged, -⟩, -⟩ := along_cons (along_cons h).2
    have hsame : (proposed.step (messageFrom (js "mallory") .close lunch)).tallies = proposed.tallies :=
      hunchanged hstranger
    have hstatus : (proposed.step (messageFrom (js "mallory") .close lunch)).isClosed (js "lunch") =
        proposed.isClosed (js "lunch") := by
      unfold isClosed
      rw [hsame]
    rw [hopen, hclosed] at hstatus
    cases hstatus

end Manager

end BrowserMesh.Apps.ConsensusTransport
