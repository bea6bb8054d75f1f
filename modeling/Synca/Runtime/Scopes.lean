import Synca.Runtime.Timing

/-!
# The laws of timeout scopes

`~Timeout` cancels the timer and polls the events once. What the scope promises then depends on what
this poll finds. The conditions below are those of the clock machine, read on the runtime.
-/

namespace Synca

open Transition

namespace Runtime

variable {s s' : Runtime} {a : Action} {C : Runtime → Action → Prop} {D : Clock → Tick → Prop}

/-- Every action is seen as a run of the clock whose ticks meet `D`, if this is so for the end of a
scope and for callbacks. -/
lemma Seen.ticks (h : s.Seen a s'.clock) (hD : ∀ b, (∀ j k, b ≠ .closeTimeout j k) →
    (∀ k, b ≠ .callback k) → D s.clock b)
    (hclose : ∀ t j k, a = .poll t j → (s.journey j).ctx = .polling k →
      ¬ (s.journey j).events.Deliverable (s.uncaught t) → D s.clock (.closeTimeout j k))
    (hcallback : ∀ k, a = .callback k → D s.clock (.callback k)) :
    ∃ bs, Clock.machine.Along D s.clock bs ∧ Clock.machine.exec s.clock bs = some s'.clock := by
  cases h with
  | quiet h => exact Machine.seen_nil h
  | deliver j hj h =>
    refine Machine.seen_step (b := .deliver j) (hD _ (by simp) (by simp)) ?_
    rw [h]
    exact if_neg hj
  | openTimeout j h =>
    refine Machine.seen_step (b := .openTimeout j) (hD _ (by simp) (by simp)) ?_
    rw [h]
    rfl
  | cancelOne j k ks hk h =>
    refine Machine.seen_step (b := .cancelOne j k) (hD _ (by simp) (by simp)) ?_
    rw [h]
    show Clock.step s.clock (.cancelOne j k) = _
    simp only [Clock.step, hk, if_true]
  | closeTimeout t j k ha hk hd h =>
    refine Machine.seen_step (b := .closeTimeout j k) (hclose t j k ha hk hd) ?_
    have hp : (s.clock.face j).polling = some k := by
      show (s.journey j).ctx.pollingId = _
      rw [hk]
      rfl
    rw [h]
    exact if_pos hp
  | reset j h =>
    refine Machine.seen_step (b := .reset j) (hD _ (by simp) (by simp)) ?_
    rw [h]
    rfl
  | expire k hk h =>
    refine Machine.seen_step (b := .expire k) (hD _ (by simp) (by simp)) ?_
    rw [h]
    exact if_pos hk
  | callback k ha hk h =>
    refine Machine.seen_step (b := .callback k) (hcallback k ha) ?_
    rw [h]
    exact if_pos hk
  | cancel j h =>
    refine Machine.seen_step (b := .cancel j) (hD _ (by simp) (by simp)) ?_
    rw [h]
    rfl

lemma clock_init (h : machine.init s) : s.clock = {} := by
  obtain ⟨alone, rfl⟩ := h
  rfl

/-- Whatever the journeys do, the clock runs. -/
theorem refines_clock : machine.Refines Clock.machine C (fun _ _ => True) clock where
  init _ := clock_init
  step _ _ _ _ _ hs := (seen_of_rule (.of_step hs)).ticks (fun _ _ _ => trivial)
    (fun _ _ _ _ _ _ => trivial) fun _ _ => trivial

/-- A pending event that stems from a timer times out the journey that made the timer. -/
theorem timedout_of_cause (h : machine.Reachable s) {j k : ℕ} (hc : (s.journey j).cause = some k) :
    (s.timer k).owner = j ∧ (s.journey j).events.gr.status = .timedout :=
  have hO := Clock.inductive_owned.holds (refines_clock.reachableBy h)
  ⟨(hO.cause j k hc).1, (hO.cause j k hc).2.2⟩

/-! ### No exception after the scope -/

/-- `~Timeout` polls in vain only if the callback of its timer is neither queued nor pending. -/
def PollsLast (s : Runtime) : Action → Prop
  | .poll t j => match (s.journey j).ctx with
    | .polling k => (s.journey j).events.Deliverable (s.uncaught t) ∨
      ((s.timer k).phase ≠ .due ∧ (s.journey j).cause ≠ some k)
    | _          => True
  | _         => True

instance (s : Runtime) (a : Action) : Decidable (s.PollsLast a) := by
  induction a using Action.casesOn with
  | poll t j =>
    dsimp only [PollsLast]
    induction (s.journey j).ctx using Ctx.casesOn <;> infer_instance
  | _ => exact .isTrue trivial

theorem refines_settled : machine.Refines Clock.machine PollsLast Clock.Settled clock where
  init _ := clock_init
  step s a s' _ hC hs := by
    refine (seen_of_rule (.of_step hs)).ticks ?_ ?_ fun _ _ => trivial
    · intro b hb _
      cases b with
      | closeTimeout j k => exact absurd rfl (hb j k)
      | _ => trivial
    · rintro t j k rfl hk hd
      simp only [PollsLast, hk] at hC
      exact hC.resolve_left hd

/-- If no `~Timeout` leaves its callback queued or its event pending, no timer causes an exception
after its scope. -/
theorem stray_eq_zero (h : machine.ReachableBy PollsLast s) (k : ℕ) : (s.timer k).stray = 0 :=
  Clock.no_stray (refines_settled.reachableBy h) k

/-- The timer fires inside the scope; the exception is caught after it. -/
def firesInside : List Action :=
  [.go 0 (some 1), .dispatch 0 ⟨1, 1, true⟩, .timeout 0 1, .expire 0, .callback 0,
    .handleEvents 0 1, .closeScope 0 1, .poll 0 1, .catching 0 1, .handleEvents 0 1]

theorem stray_firesInside : ∃ s, machine.exec {} firesInside = some s ∧
    (s.timer 0).scope = false ∧ (s.timer 0).fired = true ∧ (s.timer 0).stray = 0 :=
  have he : machine.exec {} firesInside = some _ := rfl
  ⟨_, he, rfl, rfl, stray_eq_zero (.exec (.init ⟨_, rfl⟩) (by decide) he) 0⟩

/-- The timer has expired when the scope is left, and its callback runs after. -/
def callbackAfterScope : List Action :=
  [.go 0 (some 1), .dispatch 0 ⟨1, 1, true⟩, .timeout 0 1, .expire 0, .closeScope 0 1, .poll 0 1,
    .callback 0, .handleEvents 0 1]

/-- The event is pending when an exception of the user leaves the scope: the poll does nothing. -/
def unwoundPending : List Action :=
  [.go 0 (some 1), .dispatch 0 ⟨1, 1, true⟩, .timeout 0 1, .expire 0, .callback 0,
    .throw 0 1 .std, .closeScope 0 1, .poll 0 1, .catching 0 1, .handleEvents 0 1]

theorem stray_ne_zero :
    (¬ ∀ s, machine.Reachable s → ∀ k, (s.timer k).stray = 0) ∧
    ∃ s, machine.exec {} unwoundPending = some s ∧ (s.timer 0).stray = 1 := by
  constructor
  · intro h
    have hr := Machine.Reachable.of_exec (M := machine) (s := {}) ⟨_, rfl⟩
      (show machine.exec {} callbackAfterScope = some _ from rfl)
    exact absurd (h _ hr 0) (by decide)
  · exact ⟨_, rfl, rfl⟩

/-! ### Nested scopes -/

/-- A callback that runs inside its scope finds no event pending, and no `~Timeout` polls in vain
while the event of its timer is pending. -/
def EachHeard (s : Runtime) : Action → Prop
  | .callback k => (s.timer k).scope = true →
    (s.journey (s.timer k).owner).events.gr.status = .normal
  | .poll t j   => match (s.journey j).ctx with
    | .polling k => (s.journey j).events.Deliverable (s.uncaught t) ∨ (s.journey j).cause ≠ some k
    | _          => True
  | _           => True

instance (s : Runtime) (a : Action) : Decidable (s.EachHeard a) := by
  induction a using Action.casesOn with
  | callback k => exact inferInstanceAs (Decidable (_ → _))
  | poll t j =>
    dsimp only [EachHeard]
    induction (s.journey j).ctx using Ctx.casesOn <;> infer_instance
  | _ => exact .isTrue trivial

theorem refines_heeded : machine.Refines Clock.machine EachHeard Clock.Heeded clock where
  init _ := clock_init
  step s a s' _ hC hs := by
    refine (seen_of_rule (.of_step hs)).ticks ?_ ?_ ?_
    · intro b hb hb'
      cases b with
      | closeTimeout j k => exact absurd rfl (hb j k)
      | callback k => exact absurd rfl (hb' k)
      | _ => trivial
    · rintro t j k rfl hk hd
      simp only [EachHeard, hk] at hC
      exact hC.resolve_left hd
    · rintro k rfl
      exact hC

/-- If every callback that runs inside its scope finds the status free and is heard there, each
has caused one exception of its own when the scope has been left; the status of an event that stems
from a timer is `ES_TIMEDOUT`. -/
theorem thrown_eq_one (h : machine.ReachableBy EachHeard s) :
    (∀ k, (s.timer k).scope = false → (s.timer k).fired = true → (s.timer k).thrown = 1) ∧
    ∀ j k, (s.journey j).cause = some k →
      (s.timer k).owner = j ∧ (s.journey j).events.gr.status = .timedout :=
  ⟨fun _ hs hf => Clock.thrown_once (refines_heeded.reachableBy h) hs hf,
    fun _ _ hc => timedout_of_cause h.reachable hc⟩

/-- The inner of two timers fires, then the outer one; the journey polls in between. -/
def innerThenOuter : List Action :=
  [.go 0 (some 1), .dispatch 0 ⟨1, 1, true⟩, .timeout 0 1, .timeout 0 1, .expire 0, .expire 1,
    .callback 1, .handleEvents 0 1, .callback 0, .closeScope 0 1, .poll 0 1, .catching 0 1,
    .handleEvents 0 1, .closeScope 0 1, .poll 0 1]

theorem thrown_innerThenOuter : ∃ s, machine.exec {} innerThenOuter = some s ∧
    (s.timer 0).scope = false ∧ (s.timer 0).fired = true ∧ (s.timer 0).thrown = 1 :=
  have he : machine.exec {} innerThenOuter = some _ := rfl
  ⟨_, he, rfl, rfl, (thrown_eq_one (.exec (.init ⟨_, rfl⟩) (by decide) he)).1 0 rfl rfl⟩

/-- Both timers fire before the journey polls; the inner exception is caught between the scopes. -/
def bothBeforePoll : List Action :=
  [.go 0 (some 1), .dispatch 0 ⟨1, 1, true⟩, .timeout 0 1, .timeout 0 1, .expire 0, .expire 1,
    .callback 1, .callback 0, .handleEvents 0 1, .closeScope 0 1, .poll 0 1, .catching 0 1,
    .closeScope 0 1, .poll 0 1]

theorem thrown_ne_one : ¬ ∀ s, machine.Reachable s → ∀ k, (s.timer k).scope = false →
    (s.timer k).fired = true → (s.timer k).thrown = 1 := by
  intro h
  have hr := Machine.Reachable.of_exec (M := machine) (s := {}) ⟨_, rfl⟩
    (show machine.exec {} bothBeforePoll = some _ from rfl)
  exact absurd (h _ hr 0 rfl rfl) (by decide)

end Runtime

end Synca
