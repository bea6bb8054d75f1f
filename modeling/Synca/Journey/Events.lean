import Mathlib.Tactic.SplitIfs
import Synca.Goer.Basic

/-!
# Events of a journey

The part of a `Journey` that `handleEvents` reads: its goer and the flag `eventsAllowed`. The third
input, `std::uncaught_exception()`, belongs to the executing thread and is passed as `uncaught`.
-/

namespace Synca

structure Events where
  gr : Goer := {}
  eventsAllowed : Bool := true
  deriving DecidableEq, Repr

namespace Events

/-- `Journey::handleEvents`: the exception thrown, if any, and the state it leaves. -/
def handleEvents (e : Events) (uncaught : Bool) : Option EventException × Events :=
  if !e.eventsAllowed || uncaught then (none, e)
  else if e.gr.reset.1 = .normal then (none, { e with gr := e.gr.reset.2 })
  else (some ⟨e.gr.reset.1⟩, { e with gr := e.gr.reset.2 })

/-- `Journey::disableEvents`. -/
def disableEvents (e : Events) (uncaught : Bool) : Option EventException × Events :=
  match e.handleEvents uncaught with
  | (none, e)   => (none, { e with eventsAllowed := false })
  | (some x, e) => (some x, e)

/-- `Journey::enableEvents`. -/
def enableEvents (e : Events) (uncaught : Bool) : Option EventException × Events :=
  { e with eventsAllowed := true }.handleEvents uncaught

/-- `handleEvents` would throw. -/
def Deliverable (e : Events) (uncaught : Bool) : Prop :=
  e.eventsAllowed = true ∧ uncaught = false ∧ e.gr.status ≠ .normal

instance (e : Events) (u : Bool) : Decidable (e.Deliverable u) :=
  inferInstanceAs (Decidable (_ ∧ _))

variable {e : Events} {u : Bool}

lemma handleEvents_of_deliverable (h : e.Deliverable u) :
    e.handleEvents u = (some ⟨e.gr.status⟩, { e with gr := {} }) := by
  obtain ⟨ha, hu, hs⟩ := h
  simp [handleEvents, ha, hu, hs, Goer.reset]

lemma handleEvents_of_not_deliverable (h : ¬ e.Deliverable u) : e.handleEvents u = (none, e) := by
  unfold handleEvents
  split_ifs with h₁ h₂
  · rfl
  · have hs : e.gr.status = .normal := h₂
    obtain ⟨⟨s⟩, a⟩ := e
    cases hs
    rfl
  · simp only [Bool.or_eq_true, Bool.not_eq_true', not_or, Bool.not_eq_true, Bool.not_eq_false]
      at h₁
    exact absurd ⟨h₁.1, h₁.2, h₂⟩ h

end Events

end Synca
