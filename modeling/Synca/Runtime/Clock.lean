import Mathlib.Data.Nat.Notation
import Mathlib.Logic.Function.Basic
import Mathlib.Tactic.SplitIfs
import Synca.Runtime.State
import Synca.Transition.Machine

/-!
# Timeouts and the events of journeys

What timers, scopes and polls do to the one status that a journey has for all its events, without
threads, tasks and schedulers. A journey shows its face: the pending status and the timer behind
it, the timeout scopes open on its stack, and the one whose destructor is about to poll.

The callback of a timer that was not cancelled in time sets the status like any other event; a poll
takes the status back. Whether every callback that runs inside a scope is answered inside it, and
none after, depends on what the destructor finds: `Heeded` and `Settled` are the conditions.
-/

namespace Synca

open Transition

/-- What a journey shows of its events and timeouts. -/
structure Face where
  status : EventStatus := .normal
  cause : Option ℕ := none
  timeouts : List ℕ := []
  polling : Option ℕ := none

structure Clock where
  face : ℕ → Face := fun _ => {}
  timer : ℕ → Timer := fun _ => {}
  timers : ℕ := 0

inductive Tick where
  /-- A poll of journey `j` throws. -/
  | deliver (j : ℕ)
  | openTimeout (j : ℕ)
  /-- The destructor of the innermost timeout cancels its timer. -/
  | cancelOne (j k : ℕ)
  /-- The destructor of the timeout is over; its poll did not throw. -/
  | closeTimeout (j k : ℕ)
  /-- The stack of the journey is abandoned. -/
  | reset (j : ℕ)
  | expire (k : ℕ)
  | callback (k : ℕ)
  | cancel (j : ℕ)

namespace Clock

def setFace (c : Clock) (j : ℕ) (f : Face) : Clock :=
  { c with face := Function.update c.face j f }

def setTimer (c : Clock) (k : ℕ) (x : Timer) : Clock :=
  { c with timer := Function.update c.timer k x }

def clear (c : Clock) (j : ℕ) : Clock :=
  c.setFace j { c.face j with status := .normal, cause := none }

def deliver (c : Clock) (j : ℕ) : Clock :=
  match (c.face j).cause with
  | some k => (c.clear j).setTimer k (c.timer k).throwing
  | none   => c.clear j

def openTimeout (c : Clock) (j : ℕ) : Clock :=
  let k := c.timers
  let c' := c.setFace j { c.face j with timeouts := k :: (c.face j).timeouts }
  { c'.setTimer k { c.timer k with owner := j, phase := .armed, scope := true } with
    timers := k + 1 }

def cancelOne (c : Clock) (j k : ℕ) (ks : List ℕ) : Clock :=
  let x := c.timer k
  (c.setFace j { c.face j with timeouts := ks, polling := some k }).setTimer k
    { x with phase := if x.phase = .armed then .cancelled else x.phase }

def closeTimeout (c : Clock) (j k : ℕ) : Clock :=
  (c.setFace j { c.face j with polling := none }).setTimer k { c.timer k with scope := false }

def reset (c : Clock) (j : ℕ) : Clock := c.setFace j { c.face j with polling := none }

def expire (c : Clock) (k : ℕ) : Clock := c.setTimer k { c.timer k with phase := .due }

def callback (c : Clock) (k : ℕ) : Clock :=
  let x := c.timer k
  let f := c.face x.owner
  let c' := c.setTimer k { x with phase := .done, fired := x.fired || x.scope }
  if f.status = .normal then c'.setFace x.owner { f with status := .timedout, cause := some k }
  else c'

def cancel (c : Clock) (j : ℕ) : Clock :=
  if (c.face j).status = .normal then c.setFace j { c.face j with status := .cancelled } else c

def step (c : Clock) : Tick → Option Clock
  | .deliver j => if (c.face j).status = .normal then none else some (c.deliver j)
  | .openTimeout j => some (c.openTimeout j)
  | .cancelOne j k =>
    match (c.face j).timeouts with
    | k' :: ks => if k' = k then some (c.cancelOne j k ks) else none
    | []       => none
  | .closeTimeout j k =>
    if (c.face j).polling = some k then some (c.closeTimeout j k) else none
  | .reset j => some (c.reset j)
  | .expire k => if (c.timer k).phase = .armed then some (c.expire k) else none
  | .callback k => if (c.timer k).phase = .due then some (c.callback k) else none
  | .cancel j => some (c.cancel j)

def machine : Machine Clock Tick where
  init c := c = {}
  step   := step

/-! ### Rules -/

inductive Rule (c : Clock) : Tick → Clock → Prop where
  | deliver (j : ℕ) (h : (c.face j).status ≠ .normal) : Rule c (.deliver j) (c.deliver j)
  | openTimeout (j : ℕ) : Rule c (.openTimeout j) (c.openTimeout j)
  | cancelOne (j k : ℕ) (ks : List ℕ) (h : (c.face j).timeouts = k :: ks) :
      Rule c (.cancelOne j k) (c.cancelOne j k ks)
  | closeTimeout (j k : ℕ) (h : (c.face j).polling = some k) :
      Rule c (.closeTimeout j k) (c.closeTimeout j k)
  | reset (j : ℕ) : Rule c (.reset j) (c.reset j)
  | expire (k : ℕ) (h : (c.timer k).phase = .armed) : Rule c (.expire k) (c.expire k)
  | callback (k : ℕ) (h : (c.timer k).phase = .due) : Rule c (.callback k) (c.callback k)
  | cancel (j : ℕ) : Rule c (.cancel j) (c.cancel j)

lemma Rule.of_step {c c' : Clock} {a : Tick} (h : step c a = some c') : Rule c a c' := by
  cases a with
  | deliver j =>
    simp only [step] at h
    split_ifs at h with hs
    cases h
    exact .deliver j hs
  | openTimeout j =>
    cases h
    exact .openTimeout j
  | cancelOne j k =>
    simp only [step] at h
    split at h
    case h_2 => cases h
    case h_1 k' ks hks =>
      split_ifs at h with hk
      cases h
      subst hk
      exact .cancelOne j k' ks hks
  | closeTimeout j k =>
    simp only [step] at h
    split_ifs at h with hp
    cases h
    exact .closeTimeout j k hp
  | reset j =>
    cases h
    exact .reset j
  | expire k =>
    simp only [step] at h
    split_ifs at h with hk
    cases h
    exact .expire k hk
  | callback k =>
    simp only [step] at h
    split_ifs at h with hk
    cases h
    exact .callback k hk
  | cancel j =>
    cases h
    exact .cancel j

/-! ### Faces and timers after a tick -/

@[simp] lemma face_setFace (c : Clock) (j i : ℕ) (f : Face) :
    (c.setFace j f).face i = if i = j then f else c.face i :=
  Function.update_apply _ _ _ _

@[simp] lemma timer_setFace (c : Clock) (j : ℕ) (f : Face) : (c.setFace j f).timer = c.timer := rfl

@[simp] lemma timers_setFace (c : Clock) (j : ℕ) (f : Face) : (c.setFace j f).timers = c.timers :=
  rfl

@[simp] lemma timer_setTimer (c : Clock) (k i : ℕ) (x : Timer) :
    (c.setTimer k x).timer i = if i = k then x else c.timer i :=
  Function.update_apply _ _ _ _

@[simp] lemma face_setTimer (c : Clock) (k : ℕ) (x : Timer) : (c.setTimer k x).face = c.face := rfl

@[simp] lemma timers_setTimer (c : Clock) (k : ℕ) (x : Timer) :
    (c.setTimer k x).timers = c.timers := rfl

@[simp] lemma throwing_owner (x : Timer) : x.throwing.owner = x.owner := by
  unfold Timer.throwing
  split_ifs <;> rfl

@[simp] lemma throwing_phase (x : Timer) : x.throwing.phase = x.phase := by
  unfold Timer.throwing
  split_ifs <;> rfl

@[simp] lemma throwing_scope (x : Timer) : x.throwing.scope = x.scope := by
  unfold Timer.throwing
  split_ifs <;> rfl

@[simp] lemma throwing_fired (x : Timer) : x.throwing.fired = x.fired := by
  unfold Timer.throwing
  split_ifs <;> rfl

lemma face_deliver (c : Clock) (j i : ℕ) : (c.deliver j).face i =
    if i = j then { c.face j with status := .normal, cause := none } else c.face i := by
  unfold deliver
  split <;> simp [clear]

lemma timer_deliver (c : Clock) (j k : ℕ) : (c.deliver j).timer k =
    if (c.face j).cause = some k then (c.timer k).throwing else c.timer k := by
  unfold deliver
  split
  case h_1 k' hk' =>
    simp only [timer_setTimer, clear, timer_setFace, hk', Option.some.injEq]
    split_ifs with h₁ h₂ h₂
    · rw [h₁]
    · exact absurd h₁.symm h₂
    · exact absurd h₂.symm h₁
    · rfl
  case h_2 hn => simp [clear, hn]

@[simp] lemma timers_deliver (c : Clock) (j : ℕ) : (c.deliver j).timers = c.timers := by
  unfold deliver
  split <;> rfl

lemma face_callback (c : Clock) (k i : ℕ) : (c.callback k).face i =
    if i = (c.timer k).owner ∧ (c.face i).status = .normal then
      { c.face i with status := .timedout, cause := some k } else c.face i := by
  simp only [callback]
  split_ifs with h₁ h₂ h₂
  · simp [h₂.1]
  · have : i ≠ (c.timer k).owner := by
      rintro rfl
      exact h₂ ⟨rfl, h₁⟩
    simp [this]
  · obtain ⟨rfl, h⟩ := h₂
    exact absurd h h₁
  · rfl

lemma timer_callback (c : Clock) (k i : ℕ) : (c.callback k).timer i =
    if i = k then
      { c.timer k with phase := .done, fired := (c.timer k).fired || (c.timer k).scope }
    else c.timer i := by
  simp only [callback]
  split_ifs <;> simp_all

@[simp] lemma timers_callback (c : Clock) (k : ℕ) : (c.callback k).timers = c.timers := by
  simp only [callback]
  split_ifs <;> rfl

lemma face_cancel (c : Clock) (j i : ℕ) : (c.cancel j).face i =
    if i = j ∧ (c.face i).status = .normal then { c.face i with status := .cancelled }
    else c.face i := by
  simp only [cancel]
  split_ifs with h₁ h₂ h₂
  · simp [h₂.1]
  · have : i ≠ j := by
      rintro rfl
      exact h₂ ⟨rfl, h₁⟩
    simp [this]
  · obtain ⟨rfl, h⟩ := h₂
    exact absurd h h₁
  · rfl

@[simp] lemma timer_cancel (c : Clock) (j : ℕ) : (c.cancel j).timer = c.timer := by
  simp only [cancel]
  split_ifs <;> rfl

@[simp] lemma timers_cancel (c : Clock) (j : ℕ) : (c.cancel j).timers = c.timers := by
  simp only [cancel]
  split_ifs <;> rfl

lemma timer_openTimeout (c : Clock) (j k : ℕ) :
    (c.openTimeout j).timer k =
    if k = c.timers then { c.timer c.timers with owner := j, phase := .armed, scope := true }
    else c.timer k :=
  Function.update_apply _ _ _ _

lemma face_openTimeout (c : Clock) (j i : ℕ) :
    (c.openTimeout j).face i =
    if i = j then { c.face j with timeouts := c.timers :: (c.face j).timeouts }
    else c.face i :=
  Function.update_apply _ _ _ _

lemma timer_cancelOne (c : Clock) (j k i : ℕ) (ks : List ℕ) :
    (c.cancelOne j k ks).timer i = if i = k then
    { c.timer k with phase := if (c.timer k).phase = .armed then .cancelled
    else (c.timer k).phase } else c.timer i :=
  Function.update_apply _ _ _ _

lemma face_cancelOne (c : Clock) (j k i : ℕ) (ks : List ℕ) :
    (c.cancelOne j k ks).face i =
    if i = j then { c.face j with timeouts := ks, polling := some k } else c.face i :=
  Function.update_apply _ _ _ _

lemma timer_closeTimeout (c : Clock) (j k i : ℕ) :
    (c.closeTimeout j k).timer i =
    if i = k then { c.timer k with scope := false } else c.timer i :=
  Function.update_apply _ _ _ _

lemma face_closeTimeout (c : Clock) (j k i : ℕ) :
    (c.closeTimeout j k).face i =
    if i = j then { c.face j with polling := none } else c.face i :=
  Function.update_apply _ _ _ _

lemma face_reset (c : Clock) (j i : ℕ) :
    (c.reset j).face i = if i = j then { c.face j with polling := none }
    else c.face i :=
  Function.update_apply _ _ _ _

lemma face_expire (c : Clock) (k : ℕ) : (c.expire k).face = c.face := rfl

lemma timer_expire (c : Clock) (k i : ℕ) :
    (c.expire k).timer i =
    if i = k then { c.timer k with phase := .due } else c.timer i :=
  Function.update_apply _ _ _ _

end Clock

end Synca
