import Mathlib.Data.List.Basic

/-! # WebSockets

A socket opens at most once, and not after `close()` or a failure; it closes at most once, and then nothing more
happens on it. -/

namespace BrowserMesh.Transport

inductive SocketPhase where
  | connecting | opened | closed
  deriving DecidableEq

structure Socket where
  phase : SocketPhase
  /-- `close()` was called, or the connection failed. -/
  ending : Bool
  deriving DecidableEq

inductive SocketEvent where
  | opens | errors | closes
  deriving DecidableEq

namespace Socket

def fresh : Socket := ⟨.connecting, false⟩

/-- `close()`. -/
def close (s : Socket) : Socket := { s with ending := true }

/-- What an event leaves of a socket; `none` when it cannot happen. -/
def receive (s : Socket) : SocketEvent → Option Socket
  | .opens => if s.phase = .connecting ∧ s.ending = false then some { s with phase := .opened } else none
  | .errors => if s.phase = .closed then none else some { s with ending := s.ending || s.phase = .connecting }
  | .closes => if s.phase = .closed then none else some { s with phase := .closed }

/-- Opened, and not yet closed by either side. -/
def Alive (s : Socket) : Prop := s.phase = .opened ∧ s.ending = false

instance (s : Socket) : Decidable s.Alive := inferInstanceAs (Decidable (_ ∧ _))

variable {s s' : Socket}

theorem receive_opens (h : s.receive .opens = some s') :
    s.phase = .connecting ∧ s.ending = false ∧ s' = { s with phase := .opened } := by
  obtain ⟨hmay, h⟩ := Option.ite_none_right_eq_some.mp h
  exact ⟨hmay.1, hmay.2, (Option.some.inj h).symm⟩

theorem receive_errors (h : s.receive .errors = some s') :
    s.phase ≠ .closed ∧ s' = { s with ending := s.ending || s.phase = .connecting } := by
  obtain ⟨hclosed, h⟩ := Option.ite_none_left_eq_some.mp h
  exact ⟨hclosed, (Option.some.inj h).symm⟩

theorem receive_closes (h : s.receive .closes = some s') : s.phase ≠ .closed ∧ s' = { s with phase := .closed } := by
  obtain ⟨hclosed, h⟩ := Option.ite_none_left_eq_some.mp h
  exact ⟨hclosed, (Option.some.inj h).symm⟩

/-- Only its close event ends the life of a socket from outside. -/
theorem Alive.receive {e : SocketEvent} (h : s.receive e = some s') (halive : s.Alive) (he : e ≠ .closes) :
    s'.Alive := by
  cases e with
  | opens => cases halive.1.symm.trans (receive_opens h).1
  | errors =>
      obtain ⟨-, rfl⟩ := receive_errors h
      refine ⟨halive.1, ?_⟩
      change (s.ending || decide (s.phase = .connecting)) = false
      rw [halive.1, halive.2]
      rfl
  | closes => exact absurd rfl he

end Socket
end BrowserMesh.Transport
