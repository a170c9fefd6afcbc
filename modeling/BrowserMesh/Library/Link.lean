import BrowserMesh.Library.Transition

/-! # Two ends of a lossless link in order

* **Parties.**  Both ends run one `Party`: it acts by itself, or it receives the oldest message on the link
  towards it, and what it sends is put behind the messages that are on the link to the other end.
* **Rules.**  A relation `I s q s' q'` between an end `s`, the messages `q` on the link from it, the other end `s'` and
  the messages `q'` on the link back is an invariant of both directions (`Both`) when each step keeps it for the end
  that moves, as the sender and as the receiver (`both_step`).  A potential of the ends and a weight of the messages
  that pay for every step bound the length of a run (`length_add_total_le`). -/

namespace BrowserMesh.Link
open Transition

inductive End where
  | left | right
  deriving DecidableEq

def End.other : End → End
  | .left => .right
  | .right => .left

@[simp] theorem End.other_other (e : End) : e.other.other = e := by cases e <;> rfl

theorem End.other_ne (e : End) : e.other ≠ e := by cases e <;> decide

theorem End.eq_or_eq_other (e e' : End) : e' = e ∨ e' = e.other := by cases e <;> cases e' <;> decide

/-- What an end does: `none` for what it cannot do. -/
structure Party (σ α μ : Type) where
  act : σ → α → Option (σ × List μ)
  receive : σ → μ → σ × List μ

/-- An end, with the messages on the link towards it. -/
structure Node (σ μ : Type) where
  state : σ
  inbox : List μ
  deriving DecidableEq

/-- One end acts, or receives the oldest message. -/
inductive Action (α : Type) where
  | act (e : End) (action : α)
  | deliver (e : End)
  deriving DecidableEq

variable {σ α μ : Type}

/-- The end `e` has moved. -/
def put (w : End → Node σ μ) (e : End) (state : σ) (inbox sent : List μ) : End → Node σ μ := fun e' =>
  if e' = e then ⟨state, inbox⟩ else ⟨(w e').state, (w e').inbox ++ sent⟩

section put
variable (w : End → Node σ μ) (e : End) (state : σ) (inbox sent : List μ)

@[simp] theorem put_self : put w e state inbox sent e = ⟨state, inbox⟩ := if_pos rfl

@[simp] theorem put_other :
    put w e state inbox sent e.other = ⟨(w e.other).state, (w e.other).inbox ++ sent⟩ := if_neg e.other_ne

end put

namespace Party
variable (p : Party σ α μ)

def step (w : End → Node σ μ) : Action α → Option (End → Node σ μ)
  | .act e action => (p.act (w e).state action).map fun r => put w e r.1 (w e).inbox r.2
  | .deliver e =>
      match (w e).inbox with
      | [] => none
      | m :: rest => some (put w e (p.receive (w e).state m).1 rest (p.receive (w e).state m).2)

/-- The two ends from their initial states, with nothing on the link. -/
def machine (init : End → σ) : Machine (End → Node σ μ) (Action α) := ⟨fun e => ⟨init e, []⟩, p.step⟩

variable {p} {w w' : End → Node σ μ}

theorem step_act {e : End} {action : α} (h : p.step w (.act e action) = some w') :
    ∃ r, p.act (w e).state action = some r ∧ w' = put w e r.1 (w e).inbox r.2 := by
  obtain ⟨r, hr, rfl⟩ := Option.map_eq_some_iff.mp h
  exact ⟨r, hr, rfl⟩

theorem step_deliver {e : End} (h : p.step w (.deliver e) = some w') :
    ∃ m rest, (w e).inbox = m :: rest ∧
      w' = put w e (p.receive (w e).state m).1 rest (p.receive (w e).state m).2 := by
  simp only [step] at h
  split at h
  · cases h
  · rename_i m rest hinbox
    exact ⟨m, rest, hinbox, (Option.some.inj h).symm⟩

/-- What a step has to meet, given for an end that acts, which may depend on the other one, and for a message that
is received. -/
def Meets (mayAct : σ → σ → α → Prop) (mayReceive : σ → μ → Prop) (w : End → Node σ μ) : Action α → Prop
  | .act e action => mayAct (w e).state (w e.other).state action
  | .deliver e => ∀ m ∈ (w e).inbox.head?, mayReceive (w e).state m

instance (mayAct : σ → σ → α → Prop) (mayReceive : σ → μ → Prop) [∀ s s' action, Decidable (mayAct s s' action)]
    [∀ s m, Decidable (mayReceive s m)] (w : End → Node σ μ) : DecidablePred (Meets mayAct mayReceive w)
  | .act e action => inferInstanceAs (Decidable (mayAct (w e).state (w e.other).state action))
  | .deliver e => inferInstanceAs (Decidable (∀ m ∈ (w e).inbox.head?, mayReceive (w e).state m))

/-- A relation between the ends in both directions. -/
def Both (I : σ → List μ → σ → List μ → Prop) (w : End → Node σ μ) : Prop :=
  ∀ e, I (w e).state (w e.other).inbox (w e.other).state (w e).inbox

/-- The two directions after the end `e` has moved. -/
theorem both_put {I : σ → List μ → σ → List μ → Prop} {e : End} {state : σ} {inbox sent : List μ}
    (hsender : I state ((w e.other).inbox ++ sent) (w e.other).state inbox)
    (hreceiver : I (w e.other).state inbox state ((w e.other).inbox ++ sent)) :
    Both I (put w e state inbox sent) := by
  intro e'
  rcases e.eq_or_eq_other e' with rfl | rfl
  · rw [put_self, put_other]
    exact hsender
  · rw [End.other_other, put_self, put_other]
    exact hreceiver

/-- The rule for relations between the ends: `q` is on the link from the end that moves, `q'` on the link towards
it. -/
theorem both_step {I : σ → List μ → σ → List μ → Prop} {mayAct : σ → σ → α → Prop} {mayReceive : σ → μ → Prop}
    (hact : ∀ s s' action r q q', I s q s' q' → I s' q' s q → mayAct s s' action → p.act s action = some r →
      I r.1 (q ++ r.2) s' q' ∧ I s' q' r.1 (q ++ r.2))
    (hreceive : ∀ s s' m q q', I s q s' (m :: q') → I s' (m :: q') s q → mayReceive s m →
      I (p.receive s m).1 (q ++ (p.receive s m).2) s' q' ∧ I s' q' (p.receive s m).1 (q ++ (p.receive s m).2))
    {a : Action α} (h : Both I w) (hmeets : Meets mayAct mayReceive w a) (hs : p.step w a = some w') :
    Both I w' := by
  cases a with
  | act e action =>
      obtain ⟨r, hr, rfl⟩ := step_act hs
      have hback := h e.other
      rw [End.other_other] at hback
      obtain ⟨hsender, hreceiver⟩ := hact _ _ _ _ _ _ (h e) hback hmeets hr
      exact both_put hsender hreceiver
  | deliver e =>
      obtain ⟨m, rest, hinbox, rfl⟩ := step_deliver hs
      have hfront := h e
      have hback := h e.other
      rw [hinbox] at hfront
      rw [End.other_other, hinbox] at hback
      have hmay : mayReceive (w e).state m := hmeets m (by rw [hinbox]; rfl)
      obtain ⟨hsender, hreceiver⟩ := hreceive _ _ _ _ _ hfront hback hmay
      exact both_put hsender hreceiver

/-! ### Bounded runs -/

/-- What is left to spend: the potential of both ends, and the weight of what is on the link. -/
def total (potential : σ → ℕ) (weight : μ → ℕ) (w : End → Node σ μ) : ℕ :=
  potential (w .left).state + ((w .left).inbox.map weight).sum +
    (potential (w .right).state + ((w .right).inbox.map weight).sum)

def creditOf (credit : α → ℕ) : Action α → ℕ
  | .act _ action => credit action
  | .deliver _ => 0

theorem total_put (potential : σ → ℕ) (weight : μ → ℕ) (w : End → Node σ μ) (e : End) (state : σ) (inbox sent : List μ) :
    total potential weight (put w e state inbox sent) +
        (potential (w e).state + ((w e).inbox.map weight).sum) =
      total potential weight w + (potential state + (inbox.map weight).sum + (sent.map weight).sum) := by
  cases e
  · have hother : put w .left state inbox sent .right = ⟨(w .right).state, (w .right).inbox ++ sent⟩ := rfl
    rw [total, total, put_self, hother]
    simp only [List.map_append, List.sum_append]
    omega
  · have hother : put w .right state inbox sent .left = ⟨(w .left).state, (w .left).inbox ++ sent⟩ := rfl
    rw [total, total, put_self, hother]
    simp only [List.map_append, List.sum_append]
    omega

theorem total_step {potential : σ → ℕ} {weight : μ → ℕ} {credit : α → ℕ} {mayAct : σ → σ → α → Prop}
    {mayReceive : σ → μ → Prop}
    (hact : ∀ s s' action r, mayAct s s' action → p.act s action = some r →
      potential r.1 + (r.2.map weight).sum + 1 ≤ potential s + credit action)
    (hreceive : ∀ s m, mayReceive s m →
      potential (p.receive s m).1 + ((p.receive s m).2.map weight).sum + 1 ≤ potential s + weight m)
    {a : Action α} (hmeets : Meets mayAct mayReceive w a) (hs : p.step w a = some w') :
    total potential weight w' + 1 ≤ total potential weight w + creditOf credit a := by
  cases a with
  | act e action =>
      obtain ⟨r, hr, rfl⟩ := step_act hs
      have hpaid := hact _ _ _ _ hmeets hr
      have htotal := total_put potential weight w e r.1 (w e).inbox r.2
      rw [creditOf]
      omega
  | deliver e =>
      obtain ⟨m, rest, hinbox, rfl⟩ := step_deliver hs
      have hpaid := hreceive (w e).state m (hmeets m (by rw [hinbox]; rfl))
      have htotal := total_put potential weight w e (p.receive (w e).state m).1 rest (p.receive (w e).state m).2
      rw [hinbox, List.map_cons, List.sum_cons] at htotal
      rw [creditOf]
      omega

/-- Runs whose steps are paid for are as long as what is added allows. -/
theorem length_add_total_le {potential : σ → ℕ} {weight : μ → ℕ} {credit : α → ℕ} {init : End → σ}
    {ok : (End → Node σ μ) → Action α → Prop} [∀ w a, Decidable (ok w a)]
    (hstep : ∀ w a w', ok w a → p.step w a = some w' →
      total potential weight w' + 1 ≤ total potential weight w + creditOf credit a)
    {as : List (Action α)} {w w' : End → Node σ μ} (h : (p.machine init).run ok w as = some w') :
    as.length + total potential weight w' ≤ total potential weight w + (as.map (creditOf credit)).sum := by
  induction as generalizing w with
  | nil =>
      obtain rfl := Option.some.inj h
      simp
  | cons a as ih =>
      rw [Machine.run] at h
      split_ifs at h with hok
      obtain ⟨w₁, h₁, h₂⟩ := Option.bind_eq_some_iff.mp h
      have hone := hstep w a w₁ hok h₁
      have hrest := ih h₂
      rw [List.length_cons, List.map_cons, List.sum_cons]
      omega

end Party
end BrowserMesh.Link
