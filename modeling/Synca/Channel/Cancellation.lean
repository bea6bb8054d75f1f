import Synca.Channel.Conservation

/-!
# `get` under cancellation

When is the channel, after a `get` has ended by `EventException`, as if the `get` had not been
made? The exception can come from either `handleEvents` of `defer`. The first runs with the waiter
pushed and the guard released: the mutex stays locked and the waiter stays on the list. The second
runs after the resumption: a value that a `put` has handed over is dropped, but nothing is lost if
it was `close` that released the waiter.
-/

namespace Synca

open Transition

variable {T : Type*}

namespace Channel

/-- Call `g` does not hold the mutex, none of its waiters is in the channel, and no value was
assigned to it. -/
structure Untouched (s : Channel T) (g : ℕ) : Prop where
  mutex : s.mutex ≠ some g
  waiter : ∀ q, ¬ s.Holds q g
  value : s.assignments g = []

/-- Every `get` that threw left the channel as if it had not been made. -/
def Atomic (s : Channel T) : Prop := ∀ g e, s.call g = .threw e → s.Untouched g

lemma Values.untouched {s : Channel T} (hW : s.Waiters) (hV : s.Values) {g : ℕ}
    {e : EventException} (hg : s.call g = .threw e) : s.Untouched g := by
  have hwaits : ¬ (s.call g).Waits := by simp [hg, Call.Waits]
  constructor
  · rw [Ne, hW.mutex, hg]
    simp
  · exact hW.not_holds hwaits
  · apply hV.assignments_eq_nil hW hwaits
    rw [HasValue, hg]
    exact id

/-- Along the runs in which a `get` meets its events neither before it suspends nor with a value
already handed to it, every `get` that threw left the channel untouched, and every value put is in
the queue, in the hand of a `put`, or with the `get` it was assigned to. -/
theorem atomic_of_uninterrupted {s : Channel T} (h : (machine T).ReachableBy Uninterrupted s) :
    s.Atomic ∧ s.puts = s.gots.map Prod.snd ++ s.queue ∧
      ∀ g v, (g, v) ∈ s.gots →
        (∃ p, (s.call p).handed = some (v, g)) ∨ (s.HasValue g ∧ s.dest g = some v) := by
  obtain ⟨hW, hV⟩ := inductive_values.holds h
  exact ⟨fun g e hg => hV.untouched hW hg, hV.conserved, hV.assigned⟩

/-- A `get` that has suspended is cancelled, `close` releases it and it throws; a `get` and a `put`
made afterwards meet. -/
def cancelledThenClosed : List (Action ℕ) :=
  [.make 0 (.get 7), .lock 0, .enterDefer 0 false, .setProceed 0, .set 7 .cancelled,
    .make 1 .closing, .lock 1, .closeNext 1, .closeNext 1, .resume 0, .leaveDefer 0 false,
    .make 2 .opening, .lock 2, .make 3 (.get 7), .lock 3, .enterDefer 3 false, .setProceed 3,
    .make 4 (.put 10), .lock 4, .handOff 4, .resume 3, .leaveDefer 3 false]

theorem atomic_cancelledThenClosed :
    ∃ s, (machine ℕ).exec {} cancelledThenClosed = some s ∧ s.call 0 = .threw ⟨.cancelled⟩ ∧
      s.call 3 = .returned true ∧ s.Atomic :=
  have he : (machine ℕ).exec {} cancelledThenClosed = some _ := rfl
  ⟨_, he, rfl, rfl, (atomic_of_uninterrupted (.exec (.init rfl) (by decide) he)).1⟩

/-- The condition is exact: the first step that does not meet it ends a `get` by an exception and
leaves the channel touched. -/
theorem atomic_iff_uninterrupted {s s' : Channel T} {a : Action T}
    (h : (machine T).ReachableBy Uninterrupted s) (hs : Channel.step s a = some s') :
    s'.Atomic ↔ s.Uninterrupted a := by
  obtain ⟨hW, hV⟩ := inductive_values.holds h
  constructor
  · intro hA
    cases Rule.of_step hs with
    | enterDefer g u hg he => exact he
    | enterThrow g u hg he =>
      -- the mutex is still that of the suspended guard
      have hthrew := hA g ⟨(s.eventsOf g).gr.status⟩ (by simp [move])
      exact absurd ((hW.mutex g).mpr (.inl hg)) hthrew.mutex
    | leaveDefer g u hg he => exact fun h => absurd h he
    | leaveThrow g u hg he =>
      intro _
      by_contra hval
      have hhas : s.HasValue g := by simpa [HasValue, hg, Call.HasValue] using hval
      obtain ⟨v, hv, -⟩ := hV.assignments_of_hasValue hW hhas
      have hthrew := hA g ⟨(s.eventsOf g).gr.status⟩ (by simp [move])
      have hnil : s.assignments g = [] := hthrew.value
      rw [hv] at hnil
      cases hnil
    | _ => trivial
  · intro hU g e hg
    obtain ⟨hW', hV'⟩ := inductive_values.holds (h.step hU hs)
    exact hV'.untouched hW' hg

/-- The journey is cancelled before its `get` enters `defer`. -/
def cancelledOnEntry : List (Action ℕ) :=
  [.set 7 .cancelled, .make 0 (.get 7), .lock 0, .enterDefer 0 false]

/-- The journey is cancelled when a `put` has handed its value over. -/
def cancelledAfterHandOff : List (Action ℕ) :=
  [.make 0 (.get 7), .lock 0, .enterDefer 0 false, .setProceed 0, .make 1 (.put 10), .lock 1,
    .handOff 1, .set 7 .cancelled, .resume 0, .leaveDefer 0 false]

/-- The first run leaves the mutex locked and the waiter on the list, the second loses the value. -/
theorem threw_not_untouched :
    (¬ ∀ s, (machine ℕ).Reachable s → ∀ g e, s.call g = .threw e →
      s.mutex ≠ some g ∨ ∀ q, ¬ s.Holds q g) ∧
    ¬ ∀ s, (machine ℕ).Reachable s → ∀ g e, s.call g = .threw e → s.assignments g = [] := by
  constructor
  · intro h
    have hr := Machine.Reachable.of_exec (M := machine ℕ) (s := {}) rfl
      (show (machine ℕ).exec {} cancelledOnEntry = some _ from rfl)
    rcases h _ hr 0 ⟨.cancelled⟩ rfl with h | h
    · exact h rfl
    · exact h .list ⟨[0], ⟨rfl, rfl⟩, List.mem_cons_self⟩
  · intro h
    have hr := Machine.Reachable.of_exec (M := machine ℕ) (s := {}) rfl
      (show (machine ℕ).exec {} cancelledAfterHandOff = some _ from rfl)
    exact absurd (h _ hr 0 ⟨.cancelled⟩ rfl) (by decide)

end Channel

end Synca
