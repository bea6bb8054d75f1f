import Mathlib.Data.Nat.Notation
import Mathlib.Logic.Function.Basic
import Synca.Journey.Events
import Synca.Transition.Machine

/-!
# `Channel`

One channel, used by any number of journeys and threads. A call of `put`, `get`, `open` or `close`
is numbered when it is made; the `Waiter` that a suspended `get` leaves on its stack is known by the
number of the call. `Iterator::operator++` is a call of `get`, so iteration is a sequence of calls.

The section of a call under the mutex is one step. `get` keeps the mutex when it suspends: the
handler it gives to `defer` stores `proceed` in the waiter and unlocks on the far side of the
context switch. A hand-off by `put` and each turn of the loop of `close` are later steps without the
mutex, and so is the resumption of a `get` whose `proceed` was called.
-/

namespace Synca

open Transition

/-- `Channel::Waiter`. The variable behind `val` is `Channel.dest` of the call. -/
structure Waiter where
  /-- `proc` is set. -/
  proc : Bool := false
  next : Option ℕ := none
  /-- `val` is not null. -/
  val : Bool := true
  deriving DecidableEq, Repr

/-- The program counter of a call. -/
inductive Call (T : Type*) where
  /-- Not made yet. -/
  | idle
  /-- `get`, `put`, `open`, `close`: the mutex comes next. -/
  | get
  | put (v : T)
  | opening
  | closing
  /-- `get`, in `defer` before its first `handleEvents`, with the mutex. -/
  | deferring
  /-- `get`, switched away; the deferred handler is still to run, with the mutex. -/
  | yielded
  /-- `get`, suspended; its `proc` is set and has not been called. -/
  | suspended
  /-- `get`, its `proc` was called: the resumption is posted to the journey's scheduler. -/
  | proceeded
  /-- `get`, back from `yield`, before the second `handleEvents` of `defer`. -/
  | resumed
  | returned (b : Bool)
  | threw (e : EventException)
  /-- `put`, holding a waiter it has popped. -/
  | handing (v : T) (w : ℕ)
  /-- `close`, with the rest of the list it has detached. -/
  | walking (root : Option ℕ)
  /-- `put`, `open` or `close`, returned. -/
  | done
  deriving DecidableEq, Repr

/-- What a caller asks for. -/
inductive Request (T : Type*) where
  | get (journey : ℕ)
  | put (v : T)
  | opening
  | closing
  deriving DecidableEq, Repr

structure Channel (T : Type*) where
  /-- `waiters.root`. -/
  root : Option ℕ := none
  waiter : ℕ → Waiter := fun _ => {}
  queue : List T := []
  closed : Bool := false
  /-- The call that holds the mutex across a step. -/
  mutex : Option ℕ := none
  call : ℕ → Call T := fun _ => .idle
  /-- The journey a `get` was made by. -/
  journey : ℕ → ℕ := fun _ => 0
  /-- The variable a `get` was given to assign. -/
  dest : ℕ → Option T := fun _ => none
  events : ℕ → Events := fun _ => {}
  /-- Values put, in the order the puts took the mutex. -/
  puts : List T := []
  /-- Values assigned to gets, in the order of assignment under the mutex. -/
  gots : List (ℕ × T) := []

namespace Channel

variable {T : Type*}

inductive Action (T : Type*) where
  | make (g : ℕ) (r : Request T)
  /-- The section under the mutex. -/
  | lock (g : ℕ)
  /-- The first `handleEvents` of `defer`; `uncaught` is `std::uncaught_exception()`. -/
  | enterDefer (g : ℕ) (uncaught : Bool)
  /-- The deferred handler: `setProceed`, then unlock. -/
  | setProceed (g : ℕ)
  /-- `put` proceeds the waiter it has popped. -/
  | handOff (p : ℕ)
  /-- A turn of the loop of `close`. -/
  | closeNext (p : ℕ)
  /-- The scheduler runs the posted resumption. -/
  | resume (g : ℕ)
  /-- The second `handleEvents` of `defer`, and the end of `get`. -/
  | leaveDefer (g : ℕ) (uncaught : Bool)
  /-- A cancel or a timeout is set on a journey. -/
  | set (j : ℕ) (s : EventStatus)
  /-- A journey disables or enables its events. -/
  | allow (j : ℕ) (b : Bool)
  deriving DecidableEq, Repr

/-- The `next` fields. -/
def next (s : Channel T) (w : ℕ) : Option ℕ := (s.waiter w).next

/-- The events of the journey of a call. -/
def eventsOf (s : Channel T) (g : ℕ) : Events := s.events (s.journey g)

/-- Call `g` goes on to `pc`. -/
def move (s : Channel T) (g : ℕ) (pc : Call T) : Channel T :=
  { s with call := Function.update s.call g pc }

def make (s : Channel T) (g : ℕ) : Request T → Channel T
  | .get j   => { s.move g .get with journey := Function.update s.journey g j }
  | .put v   => s.move g (.put v)
  | .opening => s.move g .opening
  | .closing => s.move g .closing

/-- `get` takes the front of the queue. -/
def takeFront (s : Channel T) (g : ℕ) (v : T) (q : List T) : Channel T :=
  { s.move g (.returned true) with
    queue := q
    dest  := Function.update s.dest g (some v)
    gots  := s.gots ++ [(g, v)] }

/-- `get` pushes a fresh waiter and keeps the mutex. -/
def pushWaiter (s : Channel T) (g : ℕ) : Channel T :=
  { s.move g .deferring with
    root   := some g
    waiter := Function.update s.waiter g { next := s.root }
    mutex  := some g }

/-- `get` under the mutex. -/
def lockGet (s : Channel T) (g : ℕ) : Channel T :=
  match s.queue with
  | v :: q => s.takeFront g v q
  | []     => if s.closed then s.move g (.returned false) else s.pushWaiter g

/-- `put` pops a waiter, which is to get the value. -/
def popWaiter (s : Channel T) (p : ℕ) (v : T) (w : ℕ) : Channel T :=
  { s.move p (.handing v w) with
    root := s.next w
    puts := s.puts ++ [v]
    gots := s.gots ++ [(w, v)] }

/-- `put` finds no waiter. -/
def emplace (s : Channel T) (p : ℕ) (v : T) : Channel T :=
  { s.move p .done with puts := s.puts ++ [v], queue := s.queue ++ [v] }

/-- `put` under the mutex. -/
def lockPut (s : Channel T) (p : ℕ) (v : T) : Channel T :=
  match s.root with
  | some w => s.popWaiter p v w
  | none   => s.emplace p v

/-- `close` detaches all waiters. -/
def popAll (s : Channel T) (p : ℕ) : Channel T :=
  { s.move p (.walking s.root) with closed := true, root := none }

/-- `close` under the mutex. -/
def lockClose (s : Channel T) (p : ℕ) : Channel T :=
  if s.closed then s.move p .done else s.popAll p

/-- The journey of call `g` has polled its events. -/
def setEvents (s : Channel T) (g : ℕ) (e : Events) : Channel T :=
  { s with events := Function.update s.events (s.journey g) e }

/-- `Goer::setStatus0` of the goer of journey `j`. -/
def setStatus (s : Channel T) (j : ℕ) (e : EventStatus) : Channel T :=
  let gr := ((s.events j).gr.setStatus0 e).2
  { s with events := Function.update s.events j { s.events j with gr := gr } }

/-- The flag `eventsAllowed` of journey `j`. -/
def setAllowed (s : Channel T) (j : ℕ) (b : Bool) : Channel T :=
  { s with events := Function.update s.events j { s.events j with eventsAllowed := b } }

/-- The deferred handler of `get`. -/
def setProceed (s : Channel T) (g : ℕ) : Channel T :=
  { s.move g .suspended with
    waiter := Function.update s.waiter g { s.waiter g with proc := true }
    mutex  := none }

/-- `Waiter::proceed(T&&)`: the value is moved out, and `proc()` posts the resumption. -/
def proceedWith (s : Channel T) (w : ℕ) (v : T) : Channel T :=
  { s.move w .proceeded with dest := Function.update s.dest w (some v) }

/-- `Waiter::proceed()`. -/
def proceedClosed (s : Channel T) (w : ℕ) : Channel T :=
  { s.move w .proceeded with
    waiter := Function.update s.waiter w { s.waiter w with val := false } }

def step (s : Channel T) : Action T → Option (Channel T)
  | .make g r =>
    match s.call g with
    | .idle => some (s.make g r)
    | _     => none
  | .lock g =>
    match s.mutex, s.call g with
    | none, .get     => some (s.lockGet g)
    | none, .put v   => some (s.lockPut g v)
    | none, .opening => some { s.move g .done with closed := false }
    | none, .closing => some (s.lockClose g)
    | _, _           => none
  | .enterDefer g u =>
    match s.call g with
    | .deferring =>
      match (s.eventsOf g).handleEvents u with
      | (none, e)   => some ((s.setEvents g e).move g .yielded)
      | (some x, e) => some ((s.setEvents g e).move g (.threw x))
    | _ => none
  | .setProceed g =>
    match s.call g with
    | .yielded => some (s.setProceed g)
    | _        => none
  | .handOff p =>
    match s.call p with
    | .handing v w => some ((s.proceedWith w v).move p .done)
    | _            => none
  | .closeNext p =>
    match s.call p with
    | .walking (some w) => some ((s.proceedClosed w).move p (.walking (s.next w)))
    | .walking none     => some (s.move p .done)
    | _                 => none
  | .resume g =>
    match s.call g with
    | .proceeded => some (s.move g .resumed)
    | _          => none
  | .leaveDefer g u =>
    match s.call g with
    | .resumed =>
      match (s.eventsOf g).handleEvents u with
      | (none, e)   => some ((s.setEvents g e).move g (.returned (s.waiter g).val))
      | (some x, e) => some ((s.setEvents g e).move g (.threw x))
    | _ => none
  | .set j e   => some (s.setStatus j e)
  | .allow j b => some (s.setAllowed j b)

/-- A channel just constructed, before any call. -/
def machine (T : Type*) : Machine (Channel T) (Action T) where
  init s := s = {}
  step   := step

/-! ### Rules -/

/-- The step function as rules, one for each way a step can go. -/
inductive Rule (s : Channel T) : Action T → Channel T → Prop where
  | make (g : ℕ) (r : Request T) (hg : s.call g = .idle) : Rule s (.make g r) (s.make g r)
  | takeFront (g : ℕ) (v : T) (q : List T) (hm : s.mutex = none) (hg : s.call g = .get)
      (hq : s.queue = v :: q) : Rule s (.lock g) (s.takeFront g v q)
  | getClosed (g : ℕ) (hm : s.mutex = none) (hg : s.call g = .get) (hq : s.queue = [])
      (hc : s.closed = true) : Rule s (.lock g) (s.move g (.returned false))
  | pushWaiter (g : ℕ) (hm : s.mutex = none) (hg : s.call g = .get) (hq : s.queue = [])
      (hc : s.closed = false) : Rule s (.lock g) (s.pushWaiter g)
  | popWaiter (p : ℕ) (v : T) (w : ℕ) (hm : s.mutex = none) (hp : s.call p = .put v)
      (hr : s.root = some w) : Rule s (.lock p) (s.popWaiter p v w)
  | emplace (p : ℕ) (v : T) (hm : s.mutex = none) (hp : s.call p = .put v)
      (hr : s.root = none) : Rule s (.lock p) (s.emplace p v)
  | opening (p : ℕ) (hm : s.mutex = none) (hp : s.call p = .opening) :
      Rule s (.lock p) { s.move p .done with closed := false }
  | closeClosed (p : ℕ) (hm : s.mutex = none) (hp : s.call p = .closing)
      (hc : s.closed = true) : Rule s (.lock p) (s.move p .done)
  | popAll (p : ℕ) (hm : s.mutex = none) (hp : s.call p = .closing) (hc : s.closed = false) :
      Rule s (.lock p) (s.popAll p)
  | enterDefer (g : ℕ) (u : Bool) (hg : s.call g = .deferring)
      (he : ¬ (s.eventsOf g).Deliverable u) : Rule s (.enterDefer g u) (s.move g .yielded)
  | enterThrow (g : ℕ) (u : Bool) (hg : s.call g = .deferring)
      (he : (s.eventsOf g).Deliverable u) : Rule s (.enterDefer g u)
        ((s.setEvents g { s.eventsOf g with gr := {} }).move g
          (.threw ⟨(s.eventsOf g).gr.status⟩))
  | setProceed (g : ℕ) (hg : s.call g = .yielded) : Rule s (.setProceed g) (s.setProceed g)
  | handOff (p : ℕ) (v : T) (w : ℕ) (hp : s.call p = .handing v w) :
      Rule s (.handOff p) ((s.proceedWith w v).move p .done)
  | closeNext (p : ℕ) (w : ℕ) (hp : s.call p = .walking (some w)) :
      Rule s (.closeNext p) ((s.proceedClosed w).move p (.walking (s.next w)))
  | closeEnd (p : ℕ) (hp : s.call p = .walking none) : Rule s (.closeNext p) (s.move p .done)
  | resume (g : ℕ) (hg : s.call g = .proceeded) : Rule s (.resume g) (s.move g .resumed)
  | leaveDefer (g : ℕ) (u : Bool) (hg : s.call g = .resumed)
      (he : ¬ (s.eventsOf g).Deliverable u) :
      Rule s (.leaveDefer g u) (s.move g (.returned (s.waiter g).val))
  | leaveThrow (g : ℕ) (u : Bool) (hg : s.call g = .resumed)
      (he : (s.eventsOf g).Deliverable u) : Rule s (.leaveDefer g u)
        ((s.setEvents g { s.eventsOf g with gr := {} }).move g
          (.threw ⟨(s.eventsOf g).gr.status⟩))
  | set (j : ℕ) (e : EventStatus) : Rule s (.set j e) (s.setStatus j e)
  | allow (j : ℕ) (b : Bool) : Rule s (.allow j b) (s.setAllowed j b)

lemma setEvents_eventsOf (s : Channel T) (g : ℕ) : s.setEvents g (s.eventsOf g) = s := by
  simp [setEvents, eventsOf]

lemma Rule.of_step {s s' : Channel T} {a : Action T} (h : step s a = some s') : Rule s a s' := by
  cases a with
  | make g r =>
    simp only [step] at h
    split at h <;> cases h
    exact .make g r ‹_›
  | lock g =>
    simp only [step] at h
    split at h <;> cases h
    case h_1 hm hg =>
      unfold lockGet
      split
      · exact .takeFront g _ _ hm hg ‹_›
      · split_ifs with hc
        · exact .getClosed g hm hg ‹_› hc
        · exact .pushWaiter g hm hg ‹_› (by simpa using hc)
    case h_2 v hm hg =>
      unfold lockPut
      split
      · exact .popWaiter g v _ hm hg ‹_›
      · exact .emplace g v hm hg ‹_›
    case h_3 hm hg => exact .opening g hm hg
    case h_4 hm hg =>
      unfold lockClose
      split_ifs with hc
      · exact .closeClosed g hm hg hc
      · exact .popAll g hm hg (by simpa using hc)
  | enterDefer g u =>
    simp only [step] at h
    split at h
    case h_2 => cases h
    case h_1 hg =>
      by_cases he : (s.eventsOf g).Deliverable u
      · rw [Events.handleEvents_of_deliverable he] at h
        cases h
        exact .enterThrow g u hg he
      · rw [Events.handleEvents_of_not_deliverable he] at h
        simp only [setEvents_eventsOf] at h
        cases h
        exact .enterDefer g u hg he
  | setProceed g =>
    simp only [step] at h
    split at h <;> cases h
    exact .setProceed g ‹_›
  | handOff p =>
    simp only [step] at h
    split at h <;> cases h
    exact .handOff p _ _ ‹_›
  | closeNext p =>
    simp only [step] at h
    split at h <;> cases h
    · exact .closeNext p _ ‹_›
    · exact .closeEnd p ‹_›
  | resume g =>
    simp only [step] at h
    split at h <;> cases h
    exact .resume g ‹_›
  | leaveDefer g u =>
    simp only [step] at h
    split at h
    case h_2 => cases h
    case h_1 hg =>
      by_cases he : (s.eventsOf g).Deliverable u
      · rw [Events.handleEvents_of_deliverable he] at h
        cases h
        exact .leaveThrow g u hg he
      · rw [Events.handleEvents_of_not_deliverable he] at h
        simp only [setEvents_eventsOf] at h
        cases h
        exact .leaveDefer g u hg he
  | set j x =>
    cases h
    exact .set j x
  | allow j b =>
    cases h
    exact .allow j b

end Channel

end Synca
