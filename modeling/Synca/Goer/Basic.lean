import Mathlib.Tactic.Lemma

/-!
# Goers and events

A `Goer` is the handle through which a journey is cancelled or timed out. All copies of a goer
share one status; the journey's own `handleEvents` takes the status back with `reset`. Here every
call is one step. `Synca.Goer.Race` splits the calls into their reads and writes.
-/

namespace Synca

/-- `EventStatus`. -/
inductive EventStatus where
  | normal
  | cancelled
  | timedout
  deriving DecidableEq, Repr

def statusToString : EventStatus → String
  | .normal    => "Normal"
  | .cancelled => "Cancelled"
  | .timedout  => "Timed out"

/-- What `handleEvents` throws. -/
structure EventException where
  status : EventStatus
  deriving DecidableEq, Repr

def EventException.what (e : EventException) : String :=
  "Journey event received: " ++ statusToString e.status

/-- `Goer::State`, the cell behind the shared pointer. -/
structure Goer where
  status : EventStatus := .normal
  deriving DecidableEq, Repr

namespace Goer

/-- The owner takes the status and leaves `ES_NORMAL`. -/
def reset (g : Goer) : EventStatus × Goer := (g.status, { g with status := .normal })

/-- The first event wins: a status other than `ES_NORMAL` is not replaced. -/
def setStatus0 (g : Goer) (s : EventStatus) : Bool × Goer :=
  if g.status ≠ .normal then (false, g) else (true, { g with status := s })

def cancel (g : Goer) : Bool × Goer := g.setStatus0 .cancelled

def timedout (g : Goer) : Bool × Goer := g.setStatus0 .timedout

@[simp] lemma reset_fst (g : Goer) : g.reset.1 = g.status := rfl

@[simp] lemma reset_snd_status (g : Goer) : g.reset.2.status = .normal := rfl

lemma setStatus0_of_normal {g : Goer} (h : g.status = .normal) (s : EventStatus) :
    g.setStatus0 s = (true, { g with status := s }) := by
  simp [setStatus0, h]

lemma setStatus0_of_ne {g : Goer} (h : g.status ≠ .normal) (s : EventStatus) :
    g.setStatus0 s = (false, g) := by
  simp [setStatus0, h]

end Goer

end Synca
