import Mathlib.Data.Nat.Notation
import Mathlib.Logic.Function.Basic
import Synca.Journey.Events
import Synca.Journey.Life
import Synca.Transition.Machine

/-!
# `Waiter`

One `Waiter` in one journey. Its `proceeder` is a shared pointer to the waiter itself, and the
deleter proceeds the journey. `go` copies the pointer into the handler of the child. The copy is in
the task that starts the child, until this task is destroyed, and a second one on the stack of the
child, until the handler is destroyed there. A control block is known by its number, and a reference
by its owner.

`wait` gives the pointer away: the handler that it gives to `defer` moves it to a local variable
after the context of the journey was saved. The count that `unique` reads, the end of a reference
and the deleter are single steps; between them come the steps of the children, of the thread in
`onExit0` and of whoever sets an event on the journey. Elsewhere the journey may suspend too, in a
call that is none of the waiter's and is proceeded by others.

The life of the journey, the calls of `wait` with what was proceeded in the course of each, and
whether one has thrown after its suspension are history that the program does not keep.
-/

namespace Synca

open Transition

namespace Barrier

/-- Where the journey stands. -/
inductive Spot where
  | user
  /-- Suspended in another call. -/
  | away
  /-- Likewise, and the other call has proceeded it. -/
  | roused
  /-- In the `defer` of `wait`, in `yield`. -/
  | yielded
  | suspended
  /-- In the `defer` of `wait`, before the second `handleEvents`. -/
  | resumed
  deriving DecidableEq, Repr

/-- The journey is in the course of a `wait`. -/
def Spot.waiting : Spot → Bool
  | .yielded | .suspended | .resumed => true
  | _                                => false

/-- `onExit0`, on the thread that saved the context, with the handler of `wait`. -/
inductive Deferral where
  | idle
  | pending
  | dropping (toDestroy : Option ℕ)
  deriving DecidableEq, Repr

inductive Lifetime where
  | unmade
  | alive
  | destroyed
  deriving DecidableEq, Repr

/-- The owner of a copy of `proceeder`. -/
inductive Owner where
  | waiter
  | toDestroy
  /-- The task that starts the child. -/
  | task (c : ℕ)
  /-- The handler on the stack of the child. -/
  | coro (c : ℕ)
  deriving DecidableEq, Repr

inductive Phase where
  | posted
  | running
  | suspended
  /-- The handler has returned, or an exception of it was caught. -/
  | ended
  /-- Its copy on the stack is destroyed. -/
  | closed
  deriving DecidableEq, Repr

/-- The task that starts a child. -/
inductive Start where
  | posted
  | executing
  /-- The context was switched back. -/
  | leaving
  | destroyed
  deriving DecidableEq, Repr

/-- A journey created by `Waiter::go`. -/
structure Child where
  /-- The block of the pointer that was copied. -/
  block : Option ℕ := none
  phase : Phase := .posted
  start : Start := .posted
  deriving DecidableEq, Repr

/-- The handler has ended. -/
def Child.Over (x : Child) : Prop := x.phase = .ended ∨ x.phase = .closed

/-- A task of the child is posted or executed. -/
def Child.Busy (x : Child) : Prop :=
  x.phase = .posted ∨ x.phase = .running ∨ x.phase = .ended ∨ x.start ≠ .destroyed

instance (x : Child) : Decidable x.Over := inferInstanceAs (Decidable (_ ∨ _))

instance (x : Child) : Decidable x.Busy := inferInstanceAs (Decidable (_ ∨ _))

end Barrier

structure Barrier where
  events : Events := {}
  spot : Barrier.Spot := .user
  deferral : Barrier.Deferral := .idle
  /-- The resumptions of the journey that are posted. -/
  posted : ℕ := 0
  lifetime : Barrier.Lifetime := .unmade
  /-- The field `proceed` is not null. -/
  proceed : Bool := false
  proceeder : Option ℕ := none
  /-- The control blocks made. -/
  blocks : ℕ := 0
  holders : ℕ → List Barrier.Owner := fun _ => []
  child : ℕ → Barrier.Child := fun _ => {}
  children : ℕ := 0
  /-- A deleter has read the waiter after its destruction. -/
  dangling : Bool := false
  /-- A resumption has found the journey not suspended. -/
  stray : Bool := false
  log : List LifeEvent := []
  waits : ℕ := 0
  /-- The calls of `wait` that have suspended. -/
  suspends : List ℕ := []
  /-- How often a deleter has proceeded the journey in the course of each call of `wait`, and
  outside of them. -/
  proceeds : Option ℕ → ℕ := fun _ => 0
  /-- A resumed `wait` has thrown. -/
  thrown : Bool := false

namespace Barrier

def record (s : Barrier) (e : LifeEvent) : Barrier := { s with log := s.log ++ [e] }

def mapChild (s : Barrier) (c : ℕ) (f : Child → Child) : Barrier :=
  { s with child := Function.update s.child c (f (s.child c)) }

/-- The call of `wait` that the journey is in. -/
def call (s : Barrier) : Option ℕ := if s.spot.waiting then some s.waits else none

/-- `Journey::proceed`, called by a deleter. -/
def proceedJourney (s : Barrier) : Barrier :=
  { s.record .proceed with
    posted   := s.posted + 1
    proceeds := Function.update s.proceeds s.call (s.proceeds s.call + 1) }

/-- The deleter of `init0`. -/
def dispose (s : Barrier) : Barrier :=
  if s.lifetime = .destroyed then { s with dangling := true }
  else if s.proceed then s.proceedJourney else s

/-- A reference is copied. -/
def hold (s : Barrier) (p : Option ℕ) (o : Owner) : Barrier :=
  match p with
  | some b => { s with holders := Function.update s.holders b (s.holders b ++ [o]) }
  | none   => s

/-- A reference is moved. -/
def pass (s : Barrier) (p : Option ℕ) (o o' : Owner) : Barrier :=
  match p with
  | some b => { s with holders := Function.update s.holders b ((s.holders b).erase o ++ [o']) }
  | none   => s

/-- A reference ends, the last one with the deleter. -/
def release (s : Barrier) (p : Option ℕ) (o : Owner) : Barrier :=
  match p with
  | some b =>
    let s' := { s with holders := Function.update s.holders b ((s.holders b).erase o) }
    if s'.holders b = [] then s'.dispose else s'
  | none   => s

/-- `proceeder.reset`. -/
def init0 (s : Barrier) : Barrier :=
  let s' := { s with
    proceeder := some s.blocks
    blocks    := s.blocks + 1
    holders   := Function.update s.holders s.blocks [.waiter] }
  s'.release s.proceeder .waiter

def construct (s : Barrier) : Barrier := { s with lifetime := .alive, proceed := true }.init0

/-- `~Waiter`, and the end of its fields. -/
def destroy (s : Barrier) : Barrier :=
  { { s with proceed := false }.release s.proceeder .waiter with
    proceeder := none
    lifetime  := .destroyed }

def go (s : Barrier) : Barrier :=
  { s with
    child    := Function.update s.child s.children { block := s.proceeder }
    children := s.children + 1 }.hold s.proceeder (.task s.children)

/-- `proceeder.unique()`. -/
def Unique (s : Barrier) : Prop := ∃ b ∈ s.proceeder, (s.holders b).length = 1

instance (s : Barrier) : Decidable s.Unique :=
  match h : s.proceeder with
  | some b => decidable_of_iff ((s.holders b).length = 1) (by simp [Unique, h])
  | none   => .isFalse (by simp [Unique, h])

/-- `wait` suspends. -/
def yield (s : Barrier) : Barrier :=
  { s.record .yield with spot := .yielded, suspends := s.suspends ++ [s.waits] }

/-- `wait`, up to `yield`; an exception leaves it. -/
def wait (s : Barrier) (uncaught : Bool) : Barrier :=
  let s' := { s with waits := s.waits + 1 }
  if s.Unique then s'
  else match s.events.handleEvents uncaught with
    | (none, e)   => { s' with events := e : Barrier }.yield
    | (some _, e) => { s' with events := e }

/-- The handler of `wait`: the pointer is moved to `toDestroy`. -/
def move (s : Barrier) : Barrier :=
  { s with
    deferral  := .dropping s.proceeder
    proceeder := none }.pass s.proceeder .waiter .toDestroy

/-- `toDestroy` ends. -/
def drop (s : Barrier) (b : Option ℕ) : Barrier :=
  { s with deferral := .idle }.release b .toDestroy

/-- `wait`, from the second `handleEvents` of `defer` on. -/
def leave (s : Barrier) (uncaught : Bool) : Barrier :=
  match s.events.handleEvents uncaught with
  | (none, e)   => { s with events := e, spot := .user }.init0
  | (some _, e) => { s with events := e, spot := .user, thrown := true }

/-- The scheduler runs a posted resumption. -/
def dispatch (s : Barrier) : Barrier :=
  let s' := { s.record .resume with posted := s.posted - 1 }
  match s.spot with
  | .suspended        => { s' with spot := .resumed }
  | .away | .roused => { s' with spot := .user }
  | _                 => { s with stray := true }

inductive ChildEvent where
  | start
  | suspend
  | resume
  | finish
  /-- The copy of the handler on the stack is destroyed. -/
  | close
  /-- The task that has started the child is destroyed. -/
  | dropTask
  deriving DecidableEq, Repr

/-- The thread has left the coroutine. -/
def Child.leaves (x : Child) : Start := if x.start = .executing then .leaving else x.start

def stepChild (s : Barrier) (c : ℕ) : ChildEvent → Option Barrier
  | .start    =>
    if (s.child c).phase = .posted then
      some ((s.mapChild c fun x => { x with phase := .running, start := .executing }).hold
        (s.child c).block (.coro c))
    else none
  | .suspend  =>
    if (s.child c).phase = .running then
      some (s.mapChild c fun x => { x with phase := .suspended, start := x.leaves })
    else none
  | .resume   =>
    if (s.child c).phase = .suspended then
      some (s.mapChild c fun x => { x with phase := .running })
    else none
  | .finish   =>
    if (s.child c).phase = .running then some (s.mapChild c fun x => { x with phase := .ended })
    else none
  | .close    =>
    if (s.child c).phase = .ended then
      some ((s.mapChild c fun x => { x with phase := .closed, start := x.leaves }).release
        (s.child c).block (.coro c))
    else none
  | .dropTask =>
    if (s.child c).start = .leaving then
      some ((s.mapChild c fun x => { x with start := .destroyed }).release
        (s.child c).block (.task c))
    else none

inductive Action where
  | construct
  | destroy
  | go
  /-- `uncaught` is `std::uncaught_exception()`. -/
  | wait (uncaught : Bool)
  | leave (uncaught : Bool)
  /-- The context of the waiting journey is saved. -/
  | save
  | move
  | drop
  /-- The journey suspends in another call. -/
  | pause
  /-- The other call proceeds it. -/
  | rouse
  | dispatch
  /-- A cancel or a timeout is set on the journey. -/
  | set (e : EventStatus)
  | handleEvents (uncaught : Bool)
  | disableEvents (uncaught : Bool)
  | enableEvents (uncaught : Bool)
  | child (c : ℕ) (e : ChildEvent)
  deriving DecidableEq, Repr

/-- The journey executes, outside of the waiter, and the waiter is as given. -/
def At (s : Barrier) (l : Lifetime) : Prop := s.spot = .user ∧ s.lifetime = l

instance (s : Barrier) (l : Lifetime) : Decidable (s.At l) := inferInstanceAs (Decidable (_ ∧ _))

def stepLive (s : Barrier) : Action → Option Barrier
  | .construct => if s.At .unmade then some s.construct else none
  | .destroy   => if s.At .alive then some s.destroy else none
  | .go        => if s.At .alive then some s.go else none
  | .wait u    => if s.At .alive then some (s.wait u) else none
  | .leave u   => if s.spot = .resumed then some (s.leave u) else none
  | .save      =>
    if s.spot = .yielded then
      some { s.record .save with spot := .suspended, deferral := .pending }
    else none
  | .move      => if s.deferral = .pending then some s.move else none
  | .drop      =>
    match s.deferral with
    | .dropping b => some (s.drop b)
    | _           => none
  | .pause     =>
    if s.spot = .user then some { (s.record .yield).record .save with spot := .away } else none
  | .rouse    =>
    if s.spot = .away then
      some { s.record .proceed with spot := .roused, posted := s.posted + 1 }
    else none
  | .dispatch  => if 0 < s.posted then some s.dispatch else none
  | .set e     => some { s with events := { s.events with gr := (s.events.gr.setStatus0 e).2 } }
  | .handleEvents u  =>
    if s.spot = .user then some { s with events := (s.events.handleEvents u).2 } else none
  | .disableEvents u =>
    if s.spot = .user then some { s with events := (s.events.disableEvents u).2 } else none
  | .enableEvents u  =>
    if s.spot = .user then some { s with events := (s.events.enableEvents u).2 } else none
  | .child c e => if c < s.children then s.stepChild c e else none

/-- After a read of the destroyed waiter or a failed check of `resume` there is no step. -/
def step (s : Barrier) (a : Action) : Option Barrier :=
  if s.dangling ∨ s.stray then none else s.stepLive a

/-- The journey before the construction of the waiter. -/
def machine : Machine Barrier Action where
  init s := s = {}
  step   := step

/-! ### Rules -/

/-- The journey handles its events, outside of the waiter. -/
def Action.polls : Action → Bool
  | .handleEvents _ | .disableEvents _ | .enableEvents _ => true
  | _                                                    => false

/-- The step function as rules, one for each way a step can go. -/
inductive Rule (s : Barrier) : Action → Barrier → Prop where
  | construct (hs : s.At .unmade) : Rule s .construct s.construct
  | destroy (hs : s.At .alive) : Rule s .destroy s.destroy
  | go (hs : s.At .alive) : Rule s .go s.go
  | waitUnique (u : Bool) (hs : s.At .alive) (hu : s.Unique) :
      Rule s (.wait u) { s with waits := s.waits + 1 }
  | waitThrow (u : Bool) (hs : s.At .alive) (hu : ¬ s.Unique) (he : s.events.Deliverable u) :
      Rule s (.wait u) { s with waits := s.waits + 1, events := { s.events with gr := {} } }
  | waitYield (u : Bool) (hs : s.At .alive) (hu : ¬ s.Unique) (he : ¬ s.events.Deliverable u) :
      Rule s (.wait u) (yield { s with waits := s.waits + 1 })
  | leaveReturn (u : Bool) (hs : s.spot = .resumed) (he : ¬ s.events.Deliverable u) :
      Rule s (.leave u) (init0 { s with spot := .user })
  | leaveThrow (u : Bool) (hs : s.spot = .resumed) (he : s.events.Deliverable u) :
      Rule s (.leave u)
        { s with events := { s.events with gr := {} }, spot := .user, thrown := true }
  | save (hs : s.spot = .yielded) :
      Rule s .save { s.record .save with spot := .suspended, deferral := .pending }
  | move (hd : s.deferral = .pending) : Rule s .move s.move
  | drop (b : Option ℕ) (hd : s.deferral = .dropping b) : Rule s .drop (s.drop b)
  | pause (hs : s.spot = .user) :
      Rule s .pause { (s.record .yield).record .save with spot := .away }
  | rouse (hs : s.spot = .away) :
      Rule s .rouse { s.record .proceed with spot := .roused, posted := s.posted + 1 }
  | dispatch (hp : 0 < s.posted) : Rule s .dispatch s.dispatch
  | set (e : EventStatus) :
      Rule s (.set e) { s with events := { s.events with gr := (s.events.gr.setStatus0 e).2 } }
  | poll (a : Action) (e : Events) (ha : a.polls = true) (hs : s.spot = .user)
      (he : s.events.gr.status = .normal → e.gr.status = .normal) : Rule s a { s with events := e }
  | start (c : ℕ) (hc : c < s.children) (hp : (s.child c).phase = .posted) :
      Rule s (.child c .start) ((s.mapChild c fun x =>
        { x with phase := .running, start := .executing }).hold (s.child c).block (.coro c))
  | suspend (c : ℕ) (hc : c < s.children) (hp : (s.child c).phase = .running) :
      Rule s (.child c .suspend)
        (s.mapChild c fun x => { x with phase := .suspended, start := x.leaves })
  | resume (c : ℕ) (hc : c < s.children) (hp : (s.child c).phase = .suspended) :
      Rule s (.child c .resume) (s.mapChild c fun x => { x with phase := .running })
  | finish (c : ℕ) (hc : c < s.children) (hp : (s.child c).phase = .running) :
      Rule s (.child c .finish) (s.mapChild c fun x => { x with phase := .ended })
  | close (c : ℕ) (hc : c < s.children) (hp : (s.child c).phase = .ended) :
      Rule s (.child c .close) ((s.mapChild c fun x =>
        { x with phase := .closed, start := x.leaves }).release (s.child c).block (.coro c))
  | dropTask (c : ℕ) (hc : c < s.children) (hp : (s.child c).start = .leaving) :
      Rule s (.child c .dropTask) ((s.mapChild c fun x =>
        { x with start := .destroyed }).release (s.child c).block (.task c))

variable {s s' : Barrier} {a : Action}

lemma status_of_handleEvents {e : Events} {u : Bool} (h : e.gr.status = .normal) :
    (e.handleEvents u).2.gr.status = .normal := by
  rw [Events.handleEvents_of_not_deliverable fun hd => hd.2.2 h]
  exact h

lemma status_of_disableEvents {e : Events} {u : Bool} (h : e.gr.status = .normal) :
    (e.disableEvents u).2.gr.status = .normal := by
  rw [Events.disableEvents, Events.handleEvents_of_not_deliverable fun hd => hd.2.2 h]
  exact h

lemma Rule.of_wait {u : Bool} (hs : s.At .alive) : Rule s (.wait u) (s.wait u) := by
  unfold wait
  split_ifs with hu
  · exact .waitUnique u hs hu
  · by_cases he : s.events.Deliverable u
    · rw [Events.handleEvents_of_deliverable he]
      exact .waitThrow u hs hu he
    · rw [Events.handleEvents_of_not_deliverable he]
      exact .waitYield u hs hu he

lemma Rule.of_leave {u : Bool} (hs : s.spot = .resumed) : Rule s (.leave u) (s.leave u) := by
  unfold leave
  by_cases he : s.events.Deliverable u
  · rw [Events.handleEvents_of_deliverable he]
    exact .leaveThrow u hs he
  · rw [Events.handleEvents_of_not_deliverable he]
    exact .leaveReturn u hs he

lemma Rule.of_stepChild {c : ℕ} {e : ChildEvent} (hc : c < s.children)
    (h : s.stepChild c e = some s') : Rule s (.child c e) s' := by
  cases e <;> obtain ⟨hp, ⟨⟩⟩ := Option.ite_none_right_eq_some.mp h
  case start    => exact .start c hc hp
  case suspend  => exact .suspend c hc hp
  case resume   => exact .resume c hc hp
  case finish   => exact .finish c hc hp
  case close    => exact .close c hc hp
  case dropTask => exact .dropTask c hc hp

lemma Rule.of_stepLive (h : s.stepLive a = some s') : Rule s a s' := by
  cases a with
  | construct =>
    obtain ⟨hs, ⟨⟩⟩ := Option.ite_none_right_eq_some.mp h
    exact .construct hs
  | destroy =>
    obtain ⟨hs, ⟨⟩⟩ := Option.ite_none_right_eq_some.mp h
    exact .destroy hs
  | go =>
    obtain ⟨hs, ⟨⟩⟩ := Option.ite_none_right_eq_some.mp h
    exact .go hs
  | wait u =>
    obtain ⟨hs, ⟨⟩⟩ := Option.ite_none_right_eq_some.mp h
    exact .of_wait hs
  | leave u =>
    obtain ⟨hs, ⟨⟩⟩ := Option.ite_none_right_eq_some.mp h
    exact .of_leave hs
  | save =>
    obtain ⟨hs, ⟨⟩⟩ := Option.ite_none_right_eq_some.mp h
    exact .save hs
  | move =>
    obtain ⟨hd, ⟨⟩⟩ := Option.ite_none_right_eq_some.mp h
    exact .move hd
  | drop =>
    simp only [stepLive] at h
    split at h <;> cases h
    exact .drop _ ‹_›
  | pause =>
    obtain ⟨hs, ⟨⟩⟩ := Option.ite_none_right_eq_some.mp h
    exact .pause hs
  | rouse =>
    obtain ⟨hs, ⟨⟩⟩ := Option.ite_none_right_eq_some.mp h
    exact .rouse hs
  | dispatch =>
    obtain ⟨hp, ⟨⟩⟩ := Option.ite_none_right_eq_some.mp h
    exact .dispatch hp
  | set e =>
    cases h
    exact .set e
  | handleEvents u =>
    obtain ⟨hs, ⟨⟩⟩ := Option.ite_none_right_eq_some.mp h
    exact .poll _ _ rfl hs status_of_handleEvents
  | disableEvents u =>
    obtain ⟨hs, ⟨⟩⟩ := Option.ite_none_right_eq_some.mp h
    exact .poll _ _ rfl hs status_of_disableEvents
  | enableEvents u =>
    obtain ⟨hs, ⟨⟩⟩ := Option.ite_none_right_eq_some.mp h
    exact .poll _ _ rfl hs fun h => status_of_handleEvents h
  | child c e =>
    obtain ⟨hc, h⟩ := Option.ite_none_right_eq_some.mp h
    exact .of_stepChild hc h

lemma Rule.of_step (h : s.step a = some s') : Rule s a s' := by
  obtain ⟨-, h⟩ := Option.ite_none_left_eq_some.mp h
  exact .of_stepLive h

end Barrier

end Synca
