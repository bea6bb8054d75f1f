import Synca.Runtime.State
import Synca.Transition.Machine

/-!
# The steps of the runtime

Each function below is a function of the source, or the part of one between two points where other
threads may come in. An action names the thread that takes the step and the journey it executes.
-/

namespace Synca

open Transition

namespace Runtime

/-- A call that goes straight to `defer`. -/
inductive Request where
  | teleport (d : ℕ)
  | group (kind : GroupKind) (size : ℕ)
  | deferIo
  deriving DecidableEq, Repr

/-- The `VERIFY` with which the call begins. -/
def Request.Accepted : Request → Prop
  | .group .goAnyWait size => 1 ≤ size
  | _                      => True

instance (r : Request) : Decidable r.Accepted := by
  induction r using Request.casesOn with
  | group kind size =>
    induction kind using GroupKind.casesOn with
    | goAnyWait => exact inferInstanceAs (Decidable (_ ≤ _))
    | _ => exact .isTrue trivial
  | _ => exact .isTrue trivial

/-! ### Access -/

def mapJourney (s : Runtime) (j : ℕ) (f : Journey → Journey) : Runtime :=
  { s with journey := Function.update s.journey j (f (s.journey j)) }

def mapThread (s : Runtime) (t : ℕ) (f : Thread → Thread) : Runtime :=
  { s with thread := Function.update s.thread t (f (s.thread t)) }

def mapGroup (s : Runtime) (k : ℕ) (f : Group → Group) : Runtime :=
  { s with group := Function.update s.group k (f (s.group k)) }

def mapChannel (s : Runtime) (c : ℕ) (f : WaiterList → WaiterList) : Runtime :=
  { s with channel := Function.update s.channel c (f (s.channel c)) }

def mapWaiter (s : Runtime) (w : ℕ) (f : ChannelWaiter → ChannelWaiter) : Runtime :=
  { s with waiter := Function.update s.waiter w (f (s.waiter w)) }

def mapIo (s : Runtime) (i : ℕ) (f : Io → Io) : Runtime :=
  { s with io := Function.update s.io i (f (s.io i)) }

def mapTimer (s : Runtime) (k : ℕ) (f : Timer → Timer) : Runtime :=
  { s with timer := Function.update s.timer k (f (s.timer k)) }

/-- What thread `t` does for a task of journey `j`. -/
def stage (s : Runtime) (t j : ℕ) : Option Stage :=
  match (s.thread t).exec with
  | some x => if x.journey = j then some x.stage else none
  | none   => none

/-- The scheduler whose task thread `t` executes. -/
def via (s : Runtime) (t : ℕ) : ℕ :=
  match (s.thread t).exec with
  | some x => x.via
  | none   => 0

/-- `std::uncaught_exception()` on thread `t`. -/
def uncaught (s : Runtime) (t : ℕ) : Bool := (s.thread t).uncaught ≠ 0

/-- Thread `t` executes the coroutine of journey `j`, whose stack stands at `c`. -/
def Runs (s : Runtime) (t j : ℕ) (c : Ctx) : Prop :=
  s.stage t j = some .running ∧ (s.thread t).call = .idle ∧ (s.journey j).ctx = c

instance (s : Runtime) (t j : ℕ) (c : Ctx) : Decidable (s.Runs t j c) :=
  inferInstanceAs (Decidable (_ ∧ _))

/-- Thread `t` executes user code of journey `j`, with no exception in flight but those that wait
for a destructor to end. -/
def Calls (s : Runtime) (t j : ℕ) : Prop := s.Runs t j .user ∧ (s.journey j).flight = none

instance (s : Runtime) (t j : ℕ) : Decidable (s.Calls t j) :=
  inferInstanceAs (Decidable (_ ∧ _))

/-- Thread `t` may call functions that need no journey: it executes user code of a journey, or no
task at all. -/
def MayCall (s : Runtime) (t : ℕ) : Prop :=
  (s.thread t).call = .idle ∧ match (s.thread t).exec with
    | some x => s.Calls t x.journey
    | none   => True

instance (s : Runtime) (t : ℕ) : Decidable (s.MayCall t) := by
  unfold MayCall
  cases (s.thread t).exec <;> infer_instance

def setStage (s : Runtime) (t : ℕ) (g : Stage) : Runtime :=
  s.mapThread t fun th => { th with exec := th.exec.map fun x => { x with stage := g } }

def setCall (s : Runtime) (t : ℕ) (c : ThreadCall) : Runtime :=
  s.mapThread t fun th => { th with call := c }

def addUncaught (s : Runtime) (t : ℕ) (n : ℤ) : Runtime :=
  s.mapThread t fun th => { th with uncaught := th.uncaught + n }

def terminate (s : Runtime) : Runtime := { s with terminated := true }

def fail (s : Runtime) : Runtime := { s with fault := true }

/-! ### Journeys and tasks -/

/-- `Journey::schedule0`. -/
def schedule0 (s : Runtime) (j : ℕ) (start : Bool) : Runtime :=
  { s with posted := s.posted ++ [⟨(s.journey j).sched, j, start⟩] }

def record (s : Runtime) (j : ℕ) (e : LifeEvent) : Runtime :=
  s.mapJourney j fun x => { x with log := x.log ++ [e] }

/-- `Journey::proceed`. -/
def proceed (s : Runtime) (j : ℕ) : Runtime := (s.record j .proceed).schedule0 j false

/-- `Journey::Journey`, for the journey that comes next. -/
def construct (s : Runtime) (d : ℕ) (role : Option (ℕ × ℕ)) : Runtime :=
  let s' := s.mapJourney (s.created + 1) fun x =>
    { x with alive := true, sched := d, role := role, log := x.log ++ [.create] }
  { s' with created := s.created + 1 }

/-- `Journey::create` and `start0`. -/
def create (s : Runtime) (d : ℕ) (role : Option (ℕ × ℕ)) : Runtime :=
  (s.construct d role).schedule0 (s.created + 1) true

/-! ### Groups -/

/-- `tryProceed` of `goAnyResult`. -/
def tryProceed (s : Runtime) (k : ℕ) (v : Option ℕ) : Runtime :=
  let x := s.group k
  let s' := s.mapGroup k fun x => { x with counter := x.counter + 1 }
  if x.counter = 0 then (s'.mapGroup k fun x => { x with result := v }).proceed x.owner else s'

/-- The end of child `i` of `goAnyWait`. -/
def win (s : Runtime) (k i : ℕ) : Runtime :=
  let x := s.group k
  let s' := s.mapGroup k fun x => { x with counter := x.counter + 1 }
  if x.counter = 0 then (s'.mapGroup k fun x => { x with index := some i }).proceed x.owner else s'

/-- What the last copy of the shared pointer does. -/
def deleter (s : Runtime) (k : ℕ) : Runtime :=
  match (s.group k).kind with
  | .goWait      => s.proceed (s.group k).owner
  | .goAnyWait   => s
  | .goAnyResult => s.tryProceed k none

/-- A copy of the shared pointer is made. -/
def hold (s : Runtime) (k : ℕ) (h : Holder) : Runtime :=
  s.mapGroup k fun x => { x with holders := x.holders ++ [h] }

/-- A copy of the shared pointer is destroyed. -/
def release (s : Runtime) (k : ℕ) (h : Holder) : Runtime :=
  let s' := s.mapGroup k fun x => { x with holders := x.holders.erase h }
  if (s'.group k).holders = [] then s'.deleter k else s'

/-! ### Events -/

/-- The pending event of journey `j` is thrown on thread `t`, which leaves `e`. -/
def takeEvent (s : Runtime) (t j : ℕ) (e : Events) : Runtime :=
  (s.mapJourney j fun x => { x with events := e, cause := none }).addUncaught t 1

/-- What `handleEvents` leaves when it throws. -/
def deliver (s : Runtime) (t j : ℕ) (e : Events) : Runtime :=
  match (s.journey j).cause with
  | some k => (s.takeEvent t j e).mapTimer k Timer.throwing
  | none   => s.takeEvent t j e

/-- `Journey::handleEvents`: the exception thrown, if any, and the state it leaves. -/
def handleEvents (s : Runtime) (t j : ℕ) : Option Exn × Runtime :=
  match (s.journey j).events.handleEvents (s.uncaught t) with
  | (none, e)   => (none, s.mapJourney j fun x => { x with events := e })
  | (some x, e) => (some (.event x), s.deliver t j e)

/-- `Goer::cancel`. -/
def cancel (s : Runtime) (j : ℕ) : Runtime :=
  s.mapJourney j fun x => { x with events := { x.events with gr := x.events.gr.cancel.2 } }

/-- `Goer::timedout`, called for timer `k`. -/
def timedout (s : Runtime) (j k : ℕ) : Runtime :=
  s.mapJourney j fun x =>
    { x with
      events := { x.events with gr := x.events.gr.timedout.2 }
      cause  := if x.events.gr.timedout.1 then some k else x.cause }

/-- The exception `e`, just thrown, is in flight in the user code of journey `j`. -/
def fly (s : Runtime) (j : ℕ) (e : Exn) : Runtime :=
  s.mapJourney j fun x => { x with ctx := .user, flight := some e }

/-! ### `defer` -/

/-- Control leaves the portal whose construction began on `began`. -/
def leavePortal (s : Runtime) (t j began : ℕ) : Runtime :=
  s.mapJourney j fun x => { x with exits := x.exits ++ [⟨began, s.via t, x.sched⟩] }

/-- The exception `e` leaves the call `op`. A destructor lets no exception out. -/
def throwFrom (s : Runtime) (t j : ℕ) (e : Exn) : Op → Runtime
  | .teleport .user           => s.fly j e
  | .teleport (.portal _ b)   => (s.leavePortal t j b).fly j e
  | .teleport (.unportal _ _) => s.terminate
  | .group k                  => (s.mapGroup k fun x => { x with left := true }).fly j e
  | .get _                    => s.fly j e
  | .deferIo _                => s.fly j e

/-- `deferHandler` is set and `coro::yield` switches the context. -/
def yield (s : Runtime) (t j : ℕ) (op : Op) (h : Deferred) : Runtime :=
  (s.mapJourney j fun x =>
    { x with ctx := .yielded op, deferHandler := some h, log := x.log ++ [.yield] }).setStage t
    .switched

/-- `Journey::defer` up to the context switch. -/
def defer (s : Runtime) (t j : ℕ) (op : Op) (h : Deferred) : Runtime :=
  match s.handleEvents t j with
  | (none, s')   => s'.yield t j op h
  | (some e, s') => s'.throwFrom t j e op

/-- `teleport` returns to its caller. -/
def arrive (s : Runtime) (t j : ℕ) : Caller → Runtime
  | .user         => s.mapJourney j fun x => { x with ctx := .user }
  | .portal src b => s.mapJourney j fun x =>
      { x with ctx := .user, frames := .portal src b :: x.frames }
  | .unportal _ b => (s.leavePortal t j b).mapJourney j fun x => { x with ctx := .user }

/-- `Journey::teleport`. -/
def teleport (s : Runtime) (t j d : ℕ) (c : Caller) : Runtime :=
  if d = (s.journey j).sched then s.arrive t j c
  else (s.mapJourney j fun x => { x with sched := d }).defer t j (.teleport c) .proceed

/-- A call of `goWait`, `goAnyWait` or `goAnyResult`. -/
def goGroup (s : Runtime) (t j : ℕ) (kind : GroupKind) (size : ℕ) : Runtime :=
  let k := s.groups
  let s' := s.mapGroup k fun x => { x with kind := kind, owner := j, size := size }
  { s' with groups := k + 1 : Runtime }.defer t j (.group k) (.launch k)

def deferIo (s : Runtime) (t j : ℕ) : Runtime :=
  let i := s.ios
  let s' := s.mapIo i fun x => { x with owner := j }
  { s' with ios := i + 1 : Runtime }.defer t j (.deferIo i) (.startIo i)

def request (s : Runtime) (t j : ℕ) : Request → Runtime
  | .teleport d      => s.teleport t j d .user
  | .group kind size => s.goGroup t j kind size
  | .deferIo         => s.deferIo t j

/-- `Channel::get`. -/
def get (s : Runtime) (t j c : ℕ) : Runtime :=
  match (s.channel c).queue with
  | _ :: q => s.mapChannel c fun x => { x with queue := q }
  | []     =>
    if (s.channel c).closed then s
    else
      let w := s.waiters
      let s' := (s.mapWaiter w fun x => { x with owner := j, channel := c }).mapChannel c fun x =>
        { x with waiters := w :: x.waiters, mutex := some w }
      { s' with waiters := w + 1 : Runtime }.defer t j (.get w) (.setProceed w)

/-- The second `handleEvents` of `defer`, and the rest of the call. -/
def leave (s : Runtime) (t j : ℕ) (op : Op) : Runtime :=
  match s.handleEvents t j with
  | (some e, s') => s'.throwFrom t j e op
  | (none, s')   =>
    match op with
    | .teleport c => s'.arrive t j c
    | .group k    =>
      let x := s'.group k
      -- the `VERIFY` of `goAnyWait`
      if x.kind = .goAnyWait ∧ ¬ ∃ i ∈ x.index, i < x.size then
        (s'.addUncaught t 1).throwFrom t j .std op
      else
        (s'.mapGroup k fun x => { x with left := true }).mapJourney j fun x =>
          { x with ctx := .user }
    | .get _      => s'.mapJourney j fun x => { x with ctx := .user }
    | .deferIo i  =>
      if (s'.io i).error then (s'.addUncaught t 1).throwFrom t j .std op
      else s'.mapJourney j fun x => { x with ctx := .user }

/-! ### The far side of the context switch -/

/-- Thread `t` takes a task off its scheduler. -/
def take (s : Runtime) (t : ℕ) (k : Task) : Runtime :=
  { s.mapThread t fun th =>
      { th with exec := some { via := k.sched, journey := k.journey, start := k.start,
                               stage := .running } } with
    posted := s.posted.erase k
    strand := if s.alone k.sched then Function.update s.strand k.sched (some t) else s.strand }

/-- `Coro::start`, up to the call of the handler, of which a child of a group gets a copy. -/
def start (s : Runtime) (j : ℕ) : Runtime :=
  if (s.journey j).alive ∧ ¬ ((s.journey j).coro.started ∨ (s.journey j).coro.running) then
    let s' := s.mapJourney j fun x =>
      { x with ctx := .user, coro := ⟨true, true, false⟩, log := x.log ++ [.start] }
    match (s.journey j).role with
    | some (k, _) => s'.hold k (.coro j)
    | none        => s'
  else s.fail

/-- `Coro::resume`, up to the return of `yield`. -/
def resume (s : Runtime) (j : ℕ) : Runtime :=
  if (s.journey j).alive ∧ (s.journey j).coro.started ∧ ¬ (s.journey j).coro.running then
    match (s.journey j).ctx with
    | .yielded op => s.mapJourney j fun x =>
        { x with ctx := .resumed op, coro := { x.coro with running := true }
                 log := x.log ++ [.resume] }
    | _ => s.fail
  else s.fail

/-- The task of a journey is run: `onEnter0`, then `Coro::start` or `Coro::resume`. -/
def dispatch (s : Runtime) (t : ℕ) (k : Task) : Runtime :=
  if k.start then (s.take t k).start k.journey else (s.take t k).resume k.journey

/-- `Coro::jump0` after the context was switched back. -/
def jump (s : Runtime) (t j : ℕ) : Runtime :=
  let s' := (s.mapJourney j fun x =>
    { x with coro := { x.coro with running := false }, log := x.log ++ [.save] }).setStage t
    .exiting
  if (s.journey j).coro.exc then
    (s'.mapThread t fun th => { th with exec := th.exec.map fun x => { x with threw := true } })
      |>.addUncaught t 1
  else s'

/-- The deferred handler. -/
def runDeferred (s : Runtime) (t j : ℕ) : Deferred → Runtime
  | .proceed      => (s.proceed j).setStage t .finishing
  | .launch k     =>
    (s.mapGroup k fun x => { x with began := true, holders := [.loop] }).setStage t (.loop k)
  | .setProceed w =>
    ((s.mapWaiter w fun x => { x with phase := .armed }).mapChannel (s.waiter w).channel fun x =>
      { x with mutex := none }).setStage t .finishing
  | .startIo i    => (s.mapIo i fun x => { x with pending := true }).setStage t .finishing

/-- `Journey::onExit0`. `fails`: starting an operation throws, in a destructor. -/
def onExit0 (s : Runtime) (t j : ℕ) (fails : Bool) : Runtime :=
  match (s.journey j).deferHandler with
  | none   =>
    let s' := s.mapJourney j fun x => { x with alive := false, log := x.log ++ [.delete] }
    { s' with destroyed := s.destroyed + 1 : Runtime }.setStage t .finishing
  | some h =>
    if fails && h.startsIo then s.terminate
    else (s.mapJourney j fun x => { x with deferHandler := none }).runDeferred t j h

/-- A turn of the launch loop of group `k`, or its end. `go` throws if no default scheduler is
attached, and `onExit0` is called by a destructor. -/
def launch (s : Runtime) (t k : ℕ) : Runtime :=
  let x := s.group k
  if x.launched < x.size then
    match s.dflt with
    | none   => s.terminate
    | some d =>
      ((s.create d (some (k, x.launched))).mapGroup k fun x =>
        { x with launched := x.launched + 1 }).hold k (.task (s.created + 1))
  else (s.release k .loop).setStage t .finishing

/-- Thread `t` is done with a task, and so is the strand it came from. -/
def giveUp (s : Runtime) (t : ℕ) (x : Exec) : Runtime :=
  { s.mapThread t fun th => { th with exec := none } with
    strand := if s.alone x.via then Function.update s.strand x.via none else s.strand }

/-- The task is destroyed, and with it the handler of a child it has started. An exception that has
left the coroutine leaves the thread. -/
def finish (s : Runtime) (t j : ℕ) (x : Exec) : Runtime :=
  if x.threw then (s.giveUp t x).terminate
  else match x.start, (s.journey j).role with
    | true, some (k, _) => (s.giveUp t x).release k (.task j)
    | _, _              => s.giveUp t x

/-! ### The end of a journey -/

/-- The handler returns; `v` is the value a child of `goAnyResult` returns. -/
def ret (s : Runtime) (j : ℕ) (v : Option ℕ) : Runtime :=
  let s' := s.mapJourney j fun x => { x with ctx := .closing }
  match (s.journey j).role with
  | none        => s'
  | some (k, i) =>
    match (s.group k).kind, v with
    | .goAnyWait,   _      => s'.win k i
    | .goAnyResult, some r => s'.tryProceed k (some r)
    | _,            _      => s'

/-- The handler of the coroutine is destroyed, and the context switched back. -/
def endCoro (s : Runtime) (t j : ℕ) : Runtime :=
  let s' := (s.mapJourney j fun x =>
    { x with ctx := .ended, coro := { x.coro with started := false }, log := x.log ++ [.finish] })
    |>.setStage t .switched
  match (s.journey j).role with
  | some (k, _) => s'.release k (.coro j)
  | none        => s'

/-! ### Scopes -/

/-- `Timeout::Timeout`. -/
def openTimeout (s : Runtime) (j : ℕ) : Runtime :=
  let k := s.timers
  let s' : Runtime := { s with timers := k + 1 }
  (s'.mapTimer k fun x => { x with owner := j, phase := .armed, scope := true }).mapJourney j
    fun x => { x with frames := .timeout k :: x.frames }

/-- `EventsGuard::EventsGuard`, or a call of `disableEvents` when `guard` is false. -/
def disableEvents (s : Runtime) (t j : ℕ) (guard : Bool) : Runtime :=
  match s.handleEvents t j with
  | (some e, s') => s'.fly j e
  | (none, s')   => s'.mapJourney j fun x =>
    { x with events := { x.events with eventsAllowed := false }
             frames := if guard then .guard :: x.frames else x.frames }

/-- A call of `handleEvents` by user code. -/
def checkEvents (s : Runtime) (t j : ℕ) : Runtime :=
  match s.handleEvents t j with
  | (some e, s') => s'.fly j e
  | (none, s')   => s'

/-- The flag `eventsAllowed` is set. -/
def allowEvents (s : Runtime) (j : ℕ) : Runtime :=
  s.mapJourney j fun x => { x with events := { x.events with eventsAllowed := true } }

/-- `~EventsGuard`. -/
def closeGuard (s : Runtime) (t j : ℕ) : Runtime :=
  match (s.allowEvents j).handleEvents t j with
  | (some _, s') => s'.terminate
  | (none, s')   => s'

/-- A destructor of the user's code begins. -/
def openDestructor (s : Runtime) (j : ℕ) : Runtime :=
  s.mapJourney j fun x => { x with flight := none, frames := .destructor x.flight :: x.frames }

/-- It ends, and the exception `e` flies on. It lets no exception out. -/
def closeDestructor (s : Runtime) (j : ℕ) (e : Option Exn) : Runtime :=
  if (s.journey j).flight = none then s.mapJourney j fun x => { x with flight := e }
  else s.terminate

/-- `~Timeout` up to `handleEvents`: `cancel_one` has no effect on an expired timer. -/
def cancelOne (s : Runtime) (j k : ℕ) : Runtime :=
  (s.mapTimer k fun x =>
    { x with phase := if x.phase = .armed then .cancelled else x.phase }).mapJourney j fun x =>
    { x with ctx := .polling k }

/-- The destructor of the innermost scope, or the end of one of the user's. -/
def closeScope (s : Runtime) (t j : ℕ) : Frame → Runtime
  | .portal src b => s.teleport t j src (.unportal src b)
  | .timeout k    => s.cancelOne j k
  | .guard        => s.closeGuard t j
  | .destructor e => s.closeDestructor j e

/-- The rest of `~Timeout`. -/
def poll (s : Runtime) (t j k : ℕ) : Runtime :=
  match s.handleEvents t j with
  | (some _, s') => s'.terminate
  | (none, s')   => (s'.mapTimer k fun x => { x with scope := false }).mapJourney j fun x =>
    { x with ctx := .user }

/-! ### Channels -/

/-- The section of `Channel::put` under the mutex. -/
def put (s : Runtime) (t c v : ℕ) : Runtime :=
  match (s.channel c).waiters with
  | w :: ws => (s.mapChannel c fun x => { x with waiters := ws }).setCall t (.handing v w)
  | []      => s.mapChannel c fun x => { x with queue := x.queue ++ [v] }

/-- The section of `Channel::close` under the mutex. -/
def close (s : Runtime) (t c : ℕ) : Runtime :=
  if (s.channel c).closed then s
  else (s.mapChannel c fun x => { x with closed := true, waiters := [] }).setCall t
    (.walking (s.channel c).waiters)

/-- `Channel::Waiter::proceed`. -/
def fire (s : Runtime) (w : ℕ) (v : Option ℕ) : Runtime :=
  match (s.waiter w).phase with
  | .pushed => s.fail
  | _       =>
    (s.mapWaiter w fun x => { x with phase := .fired, val := v }).proceed (s.waiter w).owner

/-! ### Timers and operations -/

/-- The callback of an expired timer. -/
def callback (s : Runtime) (k : ℕ) : Runtime :=
  (s.mapTimer k fun x => { x with phase := .done, fired := x.fired || x.scope }).timedout
    (s.timer k).owner k

/-- The callback of an operation. -/
def complete (s : Runtime) (i : ℕ) (error : Bool) : Runtime :=
  (s.mapIo i fun x => { x with pending := false, error := error }).proceed (s.io i).owner

inductive Action where
  | dispatch (t : ℕ) (k : Task)
  | leave (t j : ℕ)
  | jump (t j : ℕ)
  | exit (t j : ℕ) (fails : Bool)
  | launch (t j : ℕ)
  | finish (t j : ℕ)
  | go (t : ℕ) (d : Option ℕ)
  | request (t j : ℕ) (r : Request)
  | get (t j c : ℕ)
  | portal (t j d : ℕ)
  | timeout (t j : ℕ)
  | guard (t j : ℕ)
  /-- A destructor of the user's code begins, run by an exception in flight or not. -/
  | destructor (t j : ℕ)
  | closeScope (t j : ℕ)
  | poll (t j : ℕ)
  | handleEvents (t j : ℕ)
  | disableEvents (t j : ℕ)
  | enableEvents (t j : ℕ)
  | throw (t j : ℕ) (e : Exn)
  | catching (t j : ℕ)
  | ret (t j : ℕ) (v : Option ℕ)
  /-- An exception leaves the handler. -/
  | escape (t j : ℕ)
  | endCoro (t j : ℕ)
  | put (t c v : ℕ)
  | handOff (t : ℕ)
  | opening (t c : ℕ)
  | close (t c : ℕ)
  | closeNext (t : ℕ)
  | cancel (j : ℕ)
  /-- Timer `k` expires. -/
  | expire (k : ℕ)
  | callback (k : ℕ)
  | complete (i : ℕ) (error : Bool)
  | attach (d : Option ℕ)
  deriving DecidableEq, Repr

/-- A thread takes a task off a scheduler; a strand gives out one at a time. -/
def Takes (s : Runtime) (t : ℕ) (k : Task) : Prop :=
  (s.thread t).exec = none ∧ (s.thread t).call = .idle ∧ k ∈ s.posted ∧
    (s.alone k.sched = true → s.strand k.sched = none)

instance (s : Runtime) (t : ℕ) (k : Task) : Decidable (s.Takes t k) :=
  inferInstanceAs (Decidable (_ ∧ _))

/-- The step while the program runs. Where a `VERIFY` of the library throws into user code (no
scheduler or service attached, no handlers), the step is `throw`. -/
def stepLive (s : Runtime) : Action → Option Runtime
  | .dispatch t k => if s.Takes t k then some (s.dispatch t k) else none
  | .leave t j =>
    match (s.journey j).ctx with
    | .resumed op => if s.Runs t j (.resumed op) then some (s.leave t j op) else none
    | _           => none
  | .jump t j => if s.stage t j = some .switched then some (s.jump t j) else none
  | .exit t j fails => if s.stage t j = some .exiting then some (s.onExit0 t j fails) else none
  | .launch t j =>
    match s.stage t j with
    | some (.loop k) => some (s.launch t k)
    | _              => none
  | .finish t j =>
    match (s.thread t).exec with
    | some x => if x.journey = j ∧ x.stage = .finishing then some (s.finish t j x) else none
    | none   => none
  | .go t d =>
    match d <|> s.dflt with
    | some d => if s.MayCall t then some (s.create d none) else none
    | none   => none
  | .request t j r => if s.Calls t j ∧ r.Accepted then some (s.request t j r) else none
  | .get t j c =>
    if s.Calls t j ∧ (s.channel c).mutex = none then some (s.get t j c) else none
  | .portal t j d =>
    if s.Calls t j then some (s.teleport t j d (.portal (s.journey j).sched (s.via t))) else none
  | .timeout t j => if s.Calls t j then some (s.openTimeout j) else none
  | .guard t j => if s.Calls t j then some (s.disableEvents t j true) else none
  | .destructor t j => if s.Runs t j .user then some (s.openDestructor j) else none
  | .closeScope t j =>
    match (s.journey j).frames with
    | f :: fs =>
      if s.Runs t j .user then
        some ((s.mapJourney j fun x => { x with frames := fs }).closeScope t j f)
      else none
    | []      => none
  | .poll t j =>
    match (s.journey j).ctx with
    | .polling k => if s.Runs t j (.polling k) then some (s.poll t j k) else none
    | _          => none
  | .handleEvents t j => if s.Calls t j then some (s.checkEvents t j) else none
  | .disableEvents t j => if s.Calls t j then some (s.disableEvents t j false) else none
  | .enableEvents t j =>
    if s.Calls t j then some ((s.allowEvents j).checkEvents t j) else none
  | .throw t j e => if s.Calls t j then some ((s.addUncaught t 1).fly j e) else none
  | .catching t j =>
    if s.Runs t j .user ∧ (s.journey j).flight ≠ none then
      some ((s.addUncaught t (-1)).mapJourney j fun x => { x with flight := none })
    else none
  | .ret t j v =>
    if s.Calls t j ∧ (s.journey j).frames = [] then some (s.ret j v) else none
  | .escape t j =>
    match (s.journey j).flight, (s.journey j).frames with
    | some e, [] =>
      if s.Runs t j .user then
        some ((s.addUncaught t (-1)).mapJourney j fun x =>
          { x with ctx := .closing, flight := none, coro := { x.coro with exc := e = .other } })
      else none
    | _, _ => none
  | .endCoro t j => if s.Runs t j .closing then some (s.endCoro t j) else none
  | .put t c v => if s.MayCall t ∧ (s.channel c).mutex = none then some (s.put t c v) else none
  | .handOff t =>
    match (s.thread t).call with
    | .handing v w => some ((s.setCall t .idle).fire w (some v))
    | _            => none
  | .opening t c =>
    if s.MayCall t ∧ (s.channel c).mutex = none then
      some (s.mapChannel c fun x => { x with closed := false })
    else none
  | .close t c => if s.MayCall t ∧ (s.channel c).mutex = none then some (s.close t c) else none
  | .closeNext t =>
    match (s.thread t).call with
    | .walking (w :: ws) => some ((s.setCall t (.walking ws)).fire w none)
    | .walking []        => some (s.setCall t .idle)
    | _                  => none
  | .cancel j => if 0 < j ∧ j ≤ s.created then some (s.cancel j) else none
  | .expire k =>
    if (s.timer k).phase = .armed then some (s.mapTimer k fun x => { x with phase := .due })
    else none
  | .callback k => if (s.timer k).phase = .due then some (s.callback k) else none
  | .complete i error => if (s.io i).pending then some (s.complete i error) else none
  | .attach d => some { s with dflt := d }

/-- After `std::terminate` or a fault there is no step. -/
def step (s : Runtime) (a : Action) : Option Runtime :=
  if s.terminated ∨ s.fault then none else s.stepLive a

/-- No journey was created yet; which schedulers are strands is arbitrary. -/
def machine : Machine Runtime Action where
  init s := ∃ alone, s = { alone := alone }
  step   := step

end Runtime

end Synca
