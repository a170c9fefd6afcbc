import BrowserMesh.Js.Dict
import BrowserMesh.Library.Best

/-! # Votes

* `Proposal`, `Ballot` and `Tally`: a tally holds the accepted ballots of a proposal, one for each voter.
* `getResults` counts ballots and weights for every option, `getWinner` tests the option that is best by
  ballots and then by weight (`getWinner_spec`).
* `ConsensusManager`: `vote` and `closeProposal`.

`getWinner` looks neither at the quorum nor at the weights of the proposal: `correct_iff`. -/

namespace BrowserMesh.Apps.Consensus
open Js

/-! ### Proposals and ballots -/

inductive VoteType where
  | simple
  | super
  | unanimous
  | weighted
deriving DecidableEq

inductive Status where
  | open'
  | closed
  | expired
deriving DecidableEq

/-- A `Proposal`. -/
structure Proposal where
  proposalId : JsString
  authorPodId : JsString
  options : List JsString
  voteType : VoteType
  weights : Option (JsMap JsString ℚ)
  quorum : ℚ
  deadline : Option ℚ
  status : Status
  two_options : 2 ≤ options.length
  quorum_pos : 1 ≤ quorum

/-- `now >= this.deadline`, if there is one. -/
def Proposal.isExpired (p : Proposal) (now : ℚ) : Bool := p.deadline.any (· ≤ now)

structure Ballot where
  proposalId : JsString
  voterPodId : JsString
  choice : JsString
  weight : ℚ
  required : proposalId ≠ [] ∧ voterPodId ≠ [] ∧ choice ≠ []
  weight_nonneg : 0 ≤ weight

/-- The ballots are those that `cast` has accepted, by voter. -/
structure Tally where
  proposal : Proposal
  ballots : JsMap JsString Ballot
  accepted : ∀ v b, ballots.get? v = some b →
    b.proposalId = proposal.proposalId ∧ b.voterPodId = v ∧ b.choice ∈ proposal.options

inductive VoteError where
  | notFound (proposalId : JsString)
  | notValidator (podId : JsString)
  | required
  | negativeWeight
  | mismatch
  | closed
  | expired
  | invalidChoice (choice : JsString)
  | duplicate (voterPodId : JsString)

/-- What an option has got. -/
structure Result where
  votes : ℕ
  weight : ℚ

structure Winner where
  choice : JsString
  votes : ℕ
  weight : ℚ
  passed : Bool

/-- `new Ballot({ proposalId, voterPodId, choice, weight })`. -/
def Ballot.make (proposalId voterPodId choice : JsString) (weight : ℚ) : Except VoteError Ballot :=
  if hrequired : proposalId ≠ [] ∧ voterPodId ≠ [] ∧ choice ≠ [] then
    if hweight : 0 ≤ weight then .ok ⟨proposalId, voterPodId, choice, weight, hrequired, hweight⟩
    else .error .negativeWeight
  else .error .required

namespace Tally

def start (p : Proposal) : Tally where
  proposal := p
  ballots := JsMap.empty
  accepted _ _ h := by cases h

/-- `cast(ballot)`. -/
def cast (t : Tally) (ballot : Ballot) (now : ℚ) : Except VoteError Tally :=
  if hid : ballot.proposalId ≠ t.proposal.proposalId then .error .mismatch
  else if t.proposal.status = .closed then .error .closed
  else if t.proposal.status = .expired ∨ t.proposal.isExpired now then .error .expired
  else if hchoice : ballot.choice ∉ t.proposal.options then .error (.invalidChoice ballot.choice)
  else if t.ballots.has ballot.voterPodId then .error (.duplicate ballot.voterPodId)
  else
    .ok
      { t with
        ballots := t.ballots.set ballot.voterPodId ballot
        accepted := fun v b h => by
          rw [JsMap.get?_set] at h
          split_ifs at h with hv
          · obtain rfl := Option.some.inj h
            exact ⟨not_not.mp hid, hv.symm, not_not.mp hchoice⟩
          · exact t.accepted v b h }

/-- `entry.votes += 1; entry.weight += ballot.weight`. -/
def count (results : JsMap JsString Result) (ballot : Ballot) : JsMap JsString Result :=
  match results.get? ballot.choice with
  | none => results
  | some entry => results.set ballot.choice ⟨entry.votes + 1, entry.weight + ballot.weight⟩

def getResults (t : Tally) : JsMap JsString Result :=
  t.ballots.values.foldl count (JsMap.ofEntries (t.proposal.options.map fun opt => (opt, ⟨0, 0⟩)))

def totalVotes (t : Tally) : ℕ := t.ballots.size

def totalWeight (t : Tally) : ℚ := (t.ballots.values.map Ballot.weight).sum

def hasQuorum (t : Tally) : Bool := t.proposal.quorum ≤ t.totalVotes

/-- One turn of the loop of `getWinner`. -/
def better (best : Option (JsString × Result)) (e : JsString × Result) : Option (JsString × Result) :=
  match best with
  | none => some e
  | some b =>
      if b.2.votes < e.2.votes ∨ (e.2.votes = b.2.votes ∧ b.2.weight < e.2.weight) then some e else some b

/-- `passed`, by the vote type. -/
def passes (t : Tally) (best : Result) : Bool :=
  match t.proposal.voteType with
  | .simple => (t.totalVotes : ℚ) / 2 < best.votes
  | .super => (t.totalVotes : ℚ) * (2 / 3) < best.votes
  | .unanimous => best.votes = t.totalVotes
  | .weighted => 0 < t.totalWeight ∧ t.totalWeight / 2 < best.weight

def getWinner (t : Tally) : Option Winner :=
  if t.ballots.size = 0 then none
  else (t.getResults.entries.foldl better none).map fun b => ⟨b.1, b.2.votes, b.2.weight, t.passes b.2⟩

end Tally

/-- The proposals by their id, and who may vote: everybody if there are no validators. -/
structure ConsensusManager where
  tallies : JsMap JsString Tally
  maxProposals : ℕ
  validators : JsSet JsString

namespace ConsensusManager

def isValidator (m : ConsensusManager) (podId : JsString) : Bool :=
  if m.validators.elems.length = 0 then true else m.validators.has podId

def vote (m : ConsensusManager) (proposalId voterPodId choice : JsString) (weight now : ℚ) :
    Except VoteError ConsensusManager :=
  match m.tallies.get? proposalId with
  | none => .error (.notFound proposalId)
  | some tally =>
      if ¬ m.isValidator voterPodId then .error (.notValidator voterPodId)
      else do
        let ballot ← Ballot.make proposalId voterPodId choice weight
        let tally ← tally.cast ballot now
        return { m with tallies := m.tallies.set proposalId tally }

def closeProposal (m : ConsensusManager) (proposalId : JsString) :
    Except VoteError (ConsensusManager × Option Winner × JsMap JsString Result) :=
  match m.tallies.get? proposalId with
  | none => .error (.notFound proposalId)
  | some tally =>
      if tally.proposal.status = .closed then .error .closed
      else
        let tally : Tally := ⟨{ tally.proposal with status := .closed }, tally.ballots, tally.accepted⟩
        .ok ({ m with tallies := m.tallies.set proposalId tally }, tally.getWinner, tally.getResults)

end ConsensusManager

/-! ### What the ballots say -/

namespace Tally

/-- The number of the ballots for an option. -/
def votesFor (t : Tally) (c : JsString) : ℕ := t.ballots.values.countP fun b => b.choice = c

/-- What a function of the ballots adds up to over those for an option. -/
def sumFor (f : Ballot → ℚ) (c : JsString) (l : List Ballot) : ℚ := ((l.filter fun b => b.choice = c).map f).sum

def weightFor (t : Tally) (c : JsString) : ℚ := sumFor Ballot.weight c t.ballots.values

/-- The weight which a ballot has to count with: for a weighted proposal with a weights map the one assigned
there to its voter, if there is one. -/
def assignedWeight (t : Tally) (b : Ballot) : ℚ :=
  if t.proposal.voteType = .weighted then (t.proposal.weights.bind (·.get? b.voterPodId)).getD b.weight else b.weight

/-- The threshold of the vote type, which no option meets without any ballot. -/
def Meets (t : Tally) (c : JsString) : Prop :=
  match t.proposal.voteType with
  | .simple => t.totalVotes < 2 * t.votesFor c
  | .super => 2 * t.totalVotes < 3 * t.votesFor c
  | .unanimous => 0 < t.totalVotes ∧ t.votesFor c = t.totalVotes
  | .weighted => (t.ballots.values.map t.assignedWeight).sum < 2 * sumFor t.assignedWeight c t.ballots.values

/-- `getWinner` reports that the option has passed. -/
def Reports (t : Tally) (c : JsString) : Prop := ∃ w, t.getWinner = some w ∧ w.choice = c ∧ w.passed = true

/-- The tally as it is without the ballot of a voter. -/
def without (t : Tally) (v : JsString) : Tally where
  proposal := t.proposal
  ballots := t.ballots.delete v
  accepted v' b h := by
    rw [JsMap.get?_delete] at h
    split_ifs at h
    exact t.accepted v' b h

/-- The option of a ballot loses `w` with the ballot. -/
def CountsWith (t : Tally) (v : JsString) (b : Ballot) (w : ℚ) : Prop :=
  ∃ r r', t.getResults.get? b.choice = some r ∧ (t.without v).getResults.get? b.choice = some r' ∧
    r.weight = r'.weight + w

structure Correct (t : Tally) : Prop where
  winner : ∀ c ∈ t.proposal.options, t.Reports c ↔ t.Meets c
  quorum : ∀ c, t.Reports c → t.hasQuorum = true
  weights : ∀ weights, t.proposal.voteType = .weighted → t.proposal.weights = some weights →
    ∀ v b w, t.ballots.get? v = some b → weights.get? v = some w → t.CountsWith v b w

/-- The ballots carry the weights of the proposal. -/
def Weighed (t : Tally) : Prop :=
  ∀ weights, t.proposal.voteType = .weighted → t.proposal.weights = some weights →
    ∀ v b w, t.ballots.get? v = some b → weights.get? v = some w → b.weight = w

/-! ### Sums over ballots -/

section sums
variable {f : Ballot → ℚ} {c d : JsString}

theorem sumFor_cons (b : Ballot) (l : List Ballot) :
    sumFor f c (b :: l) = (if b.choice = c then f b else 0) + sumFor f c l := by
  unfold sumFor
  rw [List.filter_cons]
  by_cases h : b.choice = c <;> simp [h]

theorem sumFor_add_le (hf : ∀ b, 0 ≤ f b) (hne : c ≠ d) (l : List Ballot) :
    sumFor f c l + sumFor f d l ≤ (l.map f).sum := by
  induction l with
  | nil => exact le_of_eq (add_zero _)
  | cons b l ih =>
      have hb := hf b
      rw [sumFor_cons, sumFor_cons, List.map_cons, List.sum_cons]
      split_ifs with hc hd hd
      · exact absurd (hc.symm.trans hd) hne
      all_goals linarith

theorem sumFor_le (hf : ∀ b, 0 ≤ f b) (l : List Ballot) : sumFor f c l ≤ (l.map f).sum := by
  induction l with
  | nil => exact le_rfl
  | cons b l ih =>
      have hb := hf b
      rw [sumFor_cons, List.map_cons, List.sum_cons]
      split_ifs <;> linarith

theorem countP_eq_sumFor (l : List Ballot) : (l.countP (fun b => b.choice = c) : ℚ) = sumFor (fun _ => 1) c l := by
  rw [sumFor, List.map_const', List.sum_replicate, nsmul_one, List.countP_eq_length_filter]

end sums

/-! ### The results -/

variable {t : Tally} {c : JsString}

theorem get?_foldl_count (l : List Ballot) (results : JsMap JsString Result) (c : JsString) :
    (l.foldl count results).get? c = (results.get? c).map fun r =>
      ⟨r.votes + l.countP fun b => b.choice = c, r.weight + sumFor Ballot.weight c l⟩ := by
  induction l generalizing results with
  | nil =>
      have hsum : sumFor Ballot.weight c [] = 0 := rfl
      simp [hsum]
  | cons b l ih =>
      have hone : (count results b).get? c = (results.get? c).map fun r =>
          if b.choice = c then ⟨r.votes + 1, r.weight + b.weight⟩ else r := by
        unfold count
        cases hb : results.get? b.choice with
        | none =>
            dsimp only
            by_cases hc : b.choice = c
            · rw [← hc, hb]
              rfl
            · simp [hc]
        | some e =>
            dsimp only
            rw [JsMap.get?_set]
            by_cases hc : b.choice = c
            · rw [if_pos hc.symm, ← hc, hb]
              simp
            · rw [if_neg (Ne.symm hc)]
              simp [hc]
      rw [List.foldl_cons, ih, hone, Option.map_map]
      congr 1
      funext r
      dsimp only [Function.comp]
      rw [sumFor_cons, List.countP_cons]
      by_cases hc : b.choice = c
      · simp only [hc, if_true, decide_true]
        congr 1 <;> ring
      · simp [hc]

theorem get?_getResults (t : Tally) (c : JsString) :
    t.getResults.get? c = if c ∈ t.proposal.options then some ⟨t.votesFor c, t.weightFor c⟩ else none := by
  rw [getResults, get?_foldl_count, JsMap.get?_ofEntries_const]
  split_ifs with hc
  · simp [votesFor, weightFor]
  · rfl

theorem weightFor_without {v : JsString} {b : Ballot} (h : t.ballots.get? v = some b) :
    t.weightFor b.choice = (t.without v).weightFor b.choice + b.weight := by
  have hperm : t.ballots.values.Perm (b :: (t.ballots.delete v).values) := (JsMap.entries_perm_of_get? h).map Prod.snd
  have hsum : t.weightFor b.choice = sumFor Ballot.weight b.choice (b :: (t.ballots.delete v).values) :=
    ((hperm.filter _).map _).sum_eq
  rw [hsum, sumFor_cons, if_pos rfl, add_comm]
  rfl

/-- A ballot counts with the weight that it carries. -/
theorem countsWith_iff {v : JsString} {b : Ballot} {w : ℚ} (h : t.ballots.get? v = some b) :
    t.CountsWith v b w ↔ b.weight = w := by
  have hchoice := (t.accepted v b h).2.2
  have hwithout : (t.without v).getResults.get? b.choice =
      some ⟨(t.without v).votesFor b.choice, (t.without v).weightFor b.choice⟩ := by
    rw [get?_getResults, if_pos]
    exact hchoice
  unfold CountsWith
  rw [get?_getResults, if_pos hchoice, hwithout]
  constructor
  · rintro ⟨r, r', hr, hr', heq⟩
    cases hr
    cases hr'
    have hsum := weightFor_without h
    dsimp only at heq
    linarith
  · rintro rfl
    exact ⟨_, _, rfl, rfl, weightFor_without h⟩

theorem votesFor_add_le {d : JsString} (hne : c ≠ d) : t.votesFor c + t.votesFor d ≤ t.totalVotes := by
  have hle := sumFor_add_le (f := fun _ => 1) (fun _ => zero_le_one) hne t.ballots.values
  rw [← countP_eq_sumFor, ← countP_eq_sumFor, List.map_const', List.sum_replicate, nsmul_one] at hle
  have hlength : t.ballots.values.length = t.totalVotes := List.length_map _
  rw [hlength] at hle
  exact_mod_cast hle

/-! ### The best option -/

/-- How the loop ranks an option. -/
def rank (e : JsString × Result) : WithBot (ℕ ×ₗ ℚ) := (toLex (e.2.votes, e.2.weight) : ℕ ×ₗ ℚ)

def ranked (best : Option (JsString × Result)) : Option (JsString × Result) × WithBot (ℕ ×ₗ ℚ) :=
  (best, best.elim ⊥ rank)

theorem rank_lt_iff {e e' : JsString × Result} :
    rank e < rank e' ↔ e.2.votes < e'.2.votes ∨ e'.2.votes = e.2.votes ∧ e.2.weight < e'.2.weight := by
  rw [rank, rank, WithBot.coe_lt_coe, Prod.Lex.toLex_lt_toLex, eq_comm]

theorem ranked_better (best : Option (JsString × Result)) (e : JsString × Result) :
    ranked (better best e) = Best.keep rank (ranked best) e := by
  cases best with
  | none => exact (if_pos (WithBot.bot_lt_coe _)).symm
  | some b =>
      unfold better Best.keep
      dsimp only
      by_cases h : rank b < rank e
      · rw [if_pos (rank_lt_iff.mp h), if_pos (show (ranked (some b)).2 < rank e from h)]
        rfl
      · rw [if_neg fun h' => h (rank_lt_iff.mpr h'), if_neg (show ¬ (ranked (some b)).2 < rank e from h)]

theorem foldl_better (l : List (JsString × Result)) (best : Option (JsString × Result)) :
    ranked (l.foldl better best) = l.foldl (Best.keep rank) (ranked best) := by
  induction l generalizing best with
  | nil => rfl
  | cons e l ih => rw [List.foldl_cons, List.foldl_cons, ih, ranked_better]

/-- No option has more ballots, and none with as many has more weight. -/
def IsBest (t : Tally) (c : JsString) : Prop :=
  c ∈ t.proposal.options ∧ ∀ d ∈ t.proposal.options,
    t.votesFor d < t.votesFor c ∨ t.votesFor d = t.votesFor c ∧ t.weightFor d ≤ t.weightFor c

theorem mem_getResults_iff {e : JsString × Result} :
    e ∈ t.getResults.entries ↔ e.1 ∈ t.proposal.options ∧ e.2 = ⟨t.votesFor e.1, t.weightFor e.1⟩ := by
  rw [show e = (e.1, e.2) from rfl, JsMap.mem_entries_iff, get?_getResults]
  split_ifs with h
  · simp [h, eq_comm]
  · simp [h]

/-- The loop of `getWinner` finds a best option. -/
theorem best_spec (t : Tally) : ∃ c, t.IsBest c ∧
    t.getResults.entries.foldl better none = some (c, ⟨t.votesFor c, t.weightFor c⟩) := by
  have hfold := foldl_better t.getResults.entries none
  rcases Best.foldl_keep rank t.getResults.entries (none, ⊥) with ⟨_, hle⟩ | ⟨e, earlier, later, hr, _, hfirst⟩
  · obtain ⟨c, hc⟩ : ∃ c, c ∈ t.proposal.options := by
      have htwo := t.proposal.two_options
      exact List.exists_mem_of_length_pos (by omega)
    have hmem : (c, ⟨t.votesFor c, t.weightFor c⟩) ∈ t.getResults.entries := mem_getResults_iff.mpr ⟨hc, rfl⟩
    exact absurd (hle _ hmem) (not_le.mpr (WithBot.bot_lt_coe _))
  · obtain ⟨hoption, hresult⟩ := mem_getResults_iff.mp hfirst.mem
    refine ⟨e.1, ⟨hoption, fun d hd => ?_⟩, ?_⟩
    · have hmem : (d, ⟨t.votesFor d, t.weightFor d⟩) ∈ t.getResults.entries := mem_getResults_iff.mpr ⟨hd, rfl⟩
      have hle := hfirst.le_of_mem hmem
      rw [← not_lt, rank_lt_iff, hresult] at hle
      push Not at hle
      rcases hle.1.lt_or_eq with hlt | heq
      · exact Or.inl hlt
      · exact Or.inr ⟨heq, hle.2 heq⟩
    · rw [show (none, (⊥ : WithBot (ℕ ×ₗ ℚ))) = ranked none from rfl, ← hfold] at hr
      have hbest := congrArg Prod.fst hr
      rw [← hresult]
      exact hbest

/-- With ballots, `getWinner` returns a best option, and whether it passes. -/
theorem getWinner_spec (t : Tally) (h : t.totalVotes ≠ 0) : ∃ c, t.IsBest c ∧
    ∀ d, t.Reports d ↔ d = c ∧ t.passes ⟨t.votesFor c, t.weightFor c⟩ = true := by
  obtain ⟨c, hbest, hfold⟩ := best_spec t
  refine ⟨c, hbest, fun d => ?_⟩
  unfold Reports getWinner
  rw [if_neg (show ¬ t.ballots.size = 0 from h), hfold]
  constructor
  · rintro ⟨w, hw, rfl, hpassed⟩
    cases hw
    exact ⟨rfl, hpassed⟩
  · rintro ⟨rfl, hpassed⟩
    exact ⟨_, rfl, rfl, hpassed⟩

/-! ### The outcome -/

/-- No option with more than half of the weight of a weighted proposal has fewer ballots than another one. -/
def Backed (t : Tally) : Prop :=
  t.proposal.voteType = .weighted → ∀ c ∈ t.proposal.options, t.Meets c →
    ∀ d ∈ t.proposal.options, t.votesFor d ≤ t.votesFor c

theorem assigned_eq (h : t.Weighed) {b : Ballot} (hb : b ∈ t.ballots.values) : t.assignedWeight b = b.weight := by
  obtain ⟨e, he, rfl⟩ := List.mem_map.mp hb
  have hget : t.ballots.get? e.1 = some e.2 := JsMap.mem_entries_iff.mp he
  unfold assignedWeight
  split_ifs with ht
  · cases hweights : t.proposal.weights with
    | none => rfl
    | some weights =>
        rw [Option.bind_some, (t.accepted e.1 e.2 hget).2.1]
        cases hw : weights.get? e.1 with
        | none => rfl
        | some w => exact (h weights ht hweights e.1 e.2 w hget hw).symm
  · rfl

theorem meets_weighted_iff (h : t.Weighed) (ht : t.proposal.voteType = .weighted) :
    t.Meets c ↔ t.totalWeight < 2 * t.weightFor c := by
  have htotal : (t.ballots.values.map t.assignedWeight).sum = t.totalWeight := by
    rw [totalWeight, List.map_congr_left fun b hb => assigned_eq h hb]
  have hfor : sumFor t.assignedWeight c t.ballots.values = t.weightFor c := by
    rw [weightFor, sumFor, sumFor, List.map_congr_left fun b hb => assigned_eq h (List.mem_filter.mp hb).1]
  unfold Meets
  rw [ht]
  dsimp only
  rw [htotal, hfor]

/-- Without ballots no option meets its threshold. -/
theorem not_meets_of_empty (h : t.totalVotes = 0) : ¬ t.Meets c := by
  have hnil : t.ballots.values = [] := List.map_eq_nil_iff.mpr (List.length_eq_zero_iff.mp h)
  have hvotes : t.votesFor c = 0 := by rw [votesFor, hnil]; rfl
  unfold Meets
  split
  · omega
  · omega
  · omega
  · simp [hnil, sumFor]

/-- An option passes the test of the code if it meets the threshold. -/
theorem passes_iff (h : t.Weighed) (hne : t.totalVotes ≠ 0) :
    t.passes ⟨t.votesFor c, t.weightFor c⟩ = true ↔ t.Meets c := by
  unfold passes
  split
  · rename_i ht
    unfold Meets
    rw [ht, decide_eq_true_iff]
    dsimp only
    rw [div_lt_iff₀ two_pos, mul_comm]
    exact_mod_cast Iff.rfl
  · rename_i ht
    unfold Meets
    rw [ht, decide_eq_true_iff]
    dsimp only
    rw [← mul_div_assoc, div_lt_iff₀ three_pos, mul_comm, mul_comm (t.votesFor c : ℚ)]
    exact_mod_cast Iff.rfl
  · rename_i ht
    unfold Meets
    rw [ht, decide_eq_true_iff]
    exact (and_iff_right (Nat.pos_of_ne_zero hne)).symm
  · rename_i ht
    rw [meets_weighted_iff h ht, decide_eq_true_iff]
    have hle : t.weightFor c ≤ t.totalWeight := sumFor_le Ballot.weight_nonneg t.ballots.values
    constructor
    · rintro ⟨_, hhalf⟩
      linarith
    · intro hmore
      exact ⟨by linarith, by linarith⟩

/-- An option that meets its threshold is the best one. -/
theorem eq_best (h : t.Weighed) (hbacked : t.Backed) {d : JsString} (hbest : t.IsBest d)
    (hc : c ∈ t.proposal.options) (hmeets : t.Meets c) : c = d := by
  by_contra hne
  have hvotes := votesFor_add_le (t := t) hne
  have hrank := hbest.2 c hc
  have hmore : t.votesFor c ≤ t.votesFor d := hrank.elim Nat.le_of_lt fun heq => heq.1.le
  cases ht : t.proposal.voteType with
  | simple =>
      rw [Meets, ht] at hmeets
      dsimp only at hmeets
      omega
  | super =>
      rw [Meets, ht] at hmeets
      dsimp only at hmeets
      omega
  | unanimous =>
      rw [Meets, ht] at hmeets
      dsimp only at hmeets
      omega
  | weighted =>
      have hfewer := hbacked ht c hc hmeets d hbest.1
      have hless : t.weightFor c ≤ t.weightFor d := (hrank.resolve_left (Nat.not_lt.mpr hfewer)).2
      have htotal : t.weightFor c + t.weightFor d ≤ t.totalWeight :=
        sumFor_add_le Ballot.weight_nonneg hne t.ballots.values
      have hhalf := (meets_weighted_iff h ht).mp hmeets
      linarith

/-- The outcome of a tally is right exactly if its ballots carry the weights of the proposal, no option meets
its threshold below the quorum, and none with more than half of the weight has fewer ballots than another. -/
theorem correct_iff (t : Tally) :
    t.Correct ↔ t.Weighed ∧ (∀ c ∈ t.proposal.options, t.Meets c → t.hasQuorum = true) ∧ t.Backed := by
  constructor
  · intro h
    have hweighed : t.Weighed := fun weights ht hweights v b w hb hw =>
      (countsWith_iff hb).mp (h.weights weights ht hweights v b w hb hw)
    refine ⟨hweighed, fun c hc hmeets => h.quorum c ((h.winner c hc).mpr hmeets), fun ht c hc hmeets d hd => ?_⟩
    have hne : t.totalVotes ≠ 0 := fun hempty => not_meets_of_empty hempty hmeets
    obtain ⟨best, hbest, hreports⟩ := getWinner_spec t hne
    obtain ⟨rfl, _⟩ := (hreports c).mp ((h.winner c hc).mpr hmeets)
    exact (hbest.2 d hd).elim Nat.le_of_lt fun heq => heq.1.le
  · rintro ⟨hweighed, hquorum, hbacked⟩
    by_cases hempty : t.totalVotes = 0
    · have hnone : ∀ c, ¬ t.Reports c := by
        rintro c ⟨w, hw, _⟩
        rw [getWinner, if_pos (show t.ballots.size = 0 from hempty)] at hw
        cases hw
      exact ⟨fun c _ => iff_of_false (hnone c) (not_meets_of_empty hempty), fun c hc => absurd hc (hnone c),
        fun weights ht hweights v b w hb hw => (countsWith_iff hb).mpr (hweighed weights ht hweights v b w hb hw)⟩
    · obtain ⟨best, hbest, hreports⟩ := getWinner_spec t hempty
      have hwinner : ∀ c ∈ t.proposal.options, t.Reports c ↔ t.Meets c := by
        intro c hc
        rw [hreports c]
        constructor
        · rintro ⟨rfl, hpasses⟩
          exact (passes_iff hweighed hempty).mp hpasses
        · intro hmeets
          obtain rfl := eq_best hweighed hbacked hbest hc hmeets
          exact ⟨rfl, (passes_iff hweighed hempty).mpr hmeets⟩
      refine ⟨hwinner, fun c hc => ?_, fun weights ht hweights v b w hb hw =>
        (countsWith_iff hb).mpr (hweighed weights ht hweights v b w hb hw)⟩
      obtain ⟨rfl, _⟩ := (hreports c).mp hc
      exact hquorum c hbest.1 ((hwinner c hbest.1).mp hc)

/-- A weighted poll without a weights map. -/
def poll : Proposal where
  proposalId := js "p"
  authorPodId := js "author"
  options := [js "yes", js "no"]
  voteType := .weighted
  weights := none
  quorum := 1
  deadline := none
  status := .open'
  two_options := by decide
  quorum_pos := le_rfl

/-- Two ballots of weight one against one of weight ten. -/
def polled : Except VoteError Tally := do
  let first ← Ballot.make (js "p") (js "a") (js "yes") 1
  let second ← Ballot.make (js "p") (js "b") (js "yes") 1
  let third ← Ballot.make (js "p") (js "c") (js "no") 10
  let t ← (Tally.start poll).cast first 0
  let t ← t.cast second 0
  t.cast third 0

/-- The option with most of the weight is not the best one by ballots, and nothing passes. -/
theorem weight_outvoted : ∃ t, polled = .ok t ∧ t.totalWeight < 2 * t.weightFor (js "no") ∧
    t.getWinner.map (fun w => (w.choice, w.passed)) = some (js "yes", false) ∧ ¬ t.Correct := by
  obtain ⟨t, ht, hrest⟩ := (Option.any_eq_true _ _).mp
    (show polled.toOption.any (fun t => decide (t.proposal.voteType = .weighted ∧ t.proposal.weights = none ∧
      js "no" ∈ t.proposal.options ∧ t.totalWeight < 2 * t.weightFor (js "no") ∧
      t.getWinner.map (fun w => (w.choice, w.passed)) = some (js "yes", false))) = true by decide +kernel)
  obtain ⟨hweighted, hnone, hoption, hhalf, hwinner⟩ := of_decide_eq_true hrest
  have hweighed : t.Weighed := fun weights _ hsome => by
    rw [hnone] at hsome
    cases hsome
  have hok : polled = .ok t := by
    cases hpolled : polled with
    | error e =>
        rw [hpolled] at ht
        cases ht
    | ok t' =>
        rw [hpolled] at ht
        rw [Option.some.inj ht]
  refine ⟨t, hok, hhalf, hwinner, fun h => ?_⟩
  obtain ⟨w, hw, hchoice, hpassed⟩ := (h.winner _ hoption).mpr ((meets_weighted_iff hweighed hweighted).mpr hhalf)
  rw [hw, Option.map_some, hpassed] at hwinner
  have hfalse := congrArg Prod.snd (Option.some.inj hwinner)
  cases hfalse

end Tally
end BrowserMesh.Apps.Consensus
