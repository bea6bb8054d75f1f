import Mathlib.Data.Int.Notation
import Mathlib.Data.Nat.Notation
import Mathlib.Logic.Function.Basic
import Synca.Journey.Events
import Synca.Journey.Life

/-!
# The runtime: journeys, schedulers and what journeys wait for

The state shared by all threads. A journey is an object with a coroutine; at any time its stack is
described by `ctx` (where it is between user code and the library), by the scopes it has open, and
by the exception in flight, if any. What the user code computes is left open: whenever a journey
executes user code, any call of the library may come next. In particular the destructors of the
user's objects, which an exception in flight runs, may call the library; that exception waits in a
frame while they do.

A journey gives up its thread in `teleport`, in the calls of a group, in `Channel::get` and in
`deferIo`. `Waiter::wait` is the subject of `Synca.Barrier.Machine`; that a program gives `defer` a
handler of its own is left out.

Tasks posted to a scheduler are run by any thread, once each. Groups are the calls of `goWait`,
`goAnyWait` and `goAnyResult`. Channels are seen here as lists of waiters; `Synca.Channel.Machine`
has the pointers. Setting and resetting the status of a goer are single steps here; their reads and
writes are taken apart in `Synca.Goer.Race`.

Some fields record history that the program does not keep: the life of a journey, the timer behind
a pending event, what each timer caused, and where each portal was left.
-/

namespace Synca

/-- An exception in flight. -/
inductive Exn where
  | event (e : EventException)
  /-- Any other object derived from `std::exception`. -/
  | std
  | other
  deriving DecidableEq, Repr

inductive GroupKind where
  | goWait
  | goAnyWait
  | goAnyResult
  deriving DecidableEq, Repr

/-- Who called `teleport`. The journey was on scheduler `began` when the construction of the portal
began, and `source` is the field of the portal. -/
inductive Caller where
  | user
  /-- The constructor of a `Portal`. -/
  | portal (source began : ℕ)
  /-- The destructor of a `Portal`. -/
  | unportal (source began : ℕ)
  deriving DecidableEq, Repr

/-- The call that uses `defer`. -/
inductive Op where
  | teleport (c : Caller)
  | group (k : ℕ)
  | get (w : ℕ)
  | deferIo (i : ℕ)
  deriving DecidableEq, Repr

/-- What `defer` is given to do on the far side of the context switch. -/
inductive Deferred where
  /-- `proceedHandler()`, from `teleport`. -/
  | proceed
  /-- The launch loop of a group. -/
  | launch (k : ℕ)
  /-- `Channel::get`: store `proceed` in the waiter and unlock. -/
  | setProceed (w : ℕ)
  /-- `deferIo`: start the operation. -/
  | startIo (i : ℕ)
  deriving DecidableEq, Repr

def Deferred.startsIo : Deferred → Bool
  | .startIo _ => true
  | _          => false

/-- A scope object on the stack of a journey. -/
inductive Frame where
  | portal (source began : ℕ)
  | timeout (k : ℕ)
  | guard
  /-- A destructor of the user's code that executes; `e` was in flight when it began. -/
  | destructor (e : Option Exn)
  deriving DecidableEq, Repr

/-- Where the stack of a journey stands. -/
inductive Ctx where
  /-- The coroutine was not entered yet. -/
  | fresh
  | user
  /-- In `~Timeout`, between `cancel_one` and `handleEvents`. -/
  | polling (k : ℕ)
  /-- In `defer`, switched away by `yield`. -/
  | yielded (op : Op)
  /-- In `defer`, back from `yield`. -/
  | resumed (op : Op)
  /-- The handler has ended; its copy in the coroutine is still alive. -/
  | closing
  | ended
  deriving DecidableEq, Repr

/-- `Coro`. -/
structure Coro where
  started : Bool := false
  running : Bool := false
  /-- `exc` is set. -/
  exc : Bool := false
  deriving DecidableEq, Repr

/-- Where a portal was left: the scheduler the journey was on when the construction began, the one
it runs on and the one `scheduler()` returns. -/
structure PortalExit where
  began : ℕ
  via : ℕ
  sched : ℕ
  deriving DecidableEq, Repr

structure Journey where
  /-- The object exists. -/
  alive : Bool := false
  events : Events := {}
  /-- The timer that set the pending event. -/
  cause : Option ℕ := none
  sched : ℕ := 0
  coro : Coro := {}
  deferHandler : Option Deferred := none
  ctx : Ctx := .fresh
  frames : List Frame := []
  flight : Option Exn := none
  /-- A child of a group: the group, and the index in its list of handlers. -/
  role : Option (ℕ × ℕ) := none
  exits : List PortalExit := []
  log : List LifeEvent := []
  deriving DecidableEq, Repr

/-- A handler posted to a scheduler: the first run of a journey or a resumption. -/
structure Task where
  sched : ℕ
  journey : ℕ
  start : Bool
  deriving DecidableEq, Repr

/-- What a thread does for a task. -/
inductive Stage where
  /-- The coroutine executes. -/
  | running
  /-- The context was switched back; `jump0` goes on. -/
  | switched
  /-- In the destructor of `CoroGuard`. -/
  | exiting
  /-- In the launch loop of a group, called by `onExit0`. -/
  | loop (k : ℕ)
  /-- `onExit0` is over; the task itself is still to be destroyed. -/
  | finishing
  deriving DecidableEq, Repr

structure Exec where
  /-- The scheduler that dispatched the task. -/
  via : ℕ
  journey : ℕ
  start : Bool
  /-- `jump0` has rethrown the exception of the coroutine. -/
  threw : Bool := false
  stage : Stage
  deriving DecidableEq, Repr

/-- A call of `put` or `close` after it has unlocked the channel. -/
inductive ThreadCall where
  | idle
  | handing (v w : ℕ)
  | walking (ws : List ℕ)
  deriving DecidableEq, Repr

/-- An OS thread, of a pool or not. -/
structure Thread where
  exec : Option Exec := none
  call : ThreadCall := .idle
  /-- What `std::uncaught_exception()` tests. -/
  uncaught : ℤ := 0
  deriving DecidableEq, Repr

/-- The owner of a copy of the shared pointer of a group. -/
inductive Holder where
  | loop
  /-- The task that starts the child. -/
  | task (j : ℕ)
  /-- The handler on the stack of the child. -/
  | coro (j : ℕ)
  deriving DecidableEq, Repr

structure Group where
  kind : GroupKind := .goWait
  owner : ℕ := 0
  size : ℕ := 0
  /-- The launch loop was entered. -/
  began : Bool := false
  launched : ℕ := 0
  holders : List Holder := []
  counter : ℕ := 0
  /-- The variables of the caller. -/
  index : Option ℕ := none
  result : Option ℕ := none
  /-- The caller has left the call. -/
  left : Bool := false
  deriving DecidableEq, Repr

inductive WaiterPhase where
  /-- Pushed, `proc` not set. -/
  | pushed
  /-- `proc` is set. -/
  | armed
  /-- `proc` was called. -/
  | fired
  deriving DecidableEq, Repr

structure ChannelWaiter where
  owner : ℕ := 0
  channel : ℕ := 0
  phase : WaiterPhase := .pushed
  val : Option ℕ := none
  deriving DecidableEq, Repr

structure WaiterList where
  mutex : Option ℕ := none
  queue : List ℕ := []
  closed : Bool := false
  waiters : List ℕ := []
  deriving DecidableEq, Repr

structure Io where
  owner : ℕ := 0
  pending : Bool := false
  error : Bool := false
  deriving DecidableEq, Repr

inductive TimerPhase where
  | armed
  /-- Expired: the callback is queued with a success code. -/
  | due
  | cancelled
  /-- The callback has run with a success code. -/
  | done
  deriving DecidableEq, Repr

structure Timer where
  owner : ℕ := 0
  phase : TimerPhase := .cancelled
  /-- The scope of the `Timeout` has not been left. -/
  scope : Bool := false
  /-- The callback has run with a success code inside the scope. -/
  fired : Bool := false
  /-- Exceptions stemming from this timer: those thrown inside the scope, and those thrown after. -/
  thrown : ℕ := 0
  stray : ℕ := 0
  deriving DecidableEq, Repr

/-- An exception of the timer is thrown. -/
def Timer.throwing (x : Timer) : Timer :=
  if x.scope then { x with thrown := x.thrown + 1 } else { x with stray := x.stray + 1 }

structure Runtime where
  journey : ℕ → Journey := fun _ => {}
  /-- The counters of created and destroyed journeys. Journeys are numbered from 1. -/
  created : ℕ := 0
  destroyed : ℕ := 0
  posted : List Task := []
  thread : ℕ → Thread := fun _ => {}
  /-- Which schedulers are strands, and the thread on which a strand runs a handler. -/
  alone : ℕ → Bool := fun _ => false
  strand : ℕ → Option ℕ := fun _ => none
  group : ℕ → Group := fun _ => {}
  groups : ℕ := 0
  channel : ℕ → WaiterList := fun _ => {}
  waiter : ℕ → ChannelWaiter := fun _ => {}
  waiters : ℕ := 0
  io : ℕ → Io := fun _ => {}
  ios : ℕ := 0
  timer : ℕ → Timer := fun _ => {}
  timers : ℕ := 0
  /-- The scheduler attached under `DefaultTag`. -/
  dflt : Option ℕ := none
  /-- `std::terminate` was called. -/
  terminated : Bool := false
  /-- A `VERIFY` of `Coro` failed, an empty handler was called or a deleted journey was used. -/
  fault : Bool := false

end Synca
