import Mathlib.Algebra.Group.Nat.Defs
import Mathlib.Data.List.Nodup
import Mathlib.Logic.Function.Basic
import Synca.Transition.Machine

/-!
# Coroutines of one thread

`Coro` switches stacks with `jump_fcontext(&ofc, nfc)`, which saves where it was called in `ofc` and
goes on where `nfc` was saved. So the model has a context for each place of `coro.cpp` that can be
switched to, with the local variables used there, and `land` is what runs after a switch until
control is back in code of the user. The steps are the calls of the user's code, on whatever stack
it runs.
-/

namespace Synca.Coroutines

open Transition

/-- The place in the code where a context was saved. -/
inductive Point (κ : Type*) where
  /-- nothing ran yet, `make_fcontext` aims at `starterWrapper0` -/
  | entry
  /-- in the `yield0` called by `yield` -/
  | yielded
  /-- in the `yield0` at the end of `starter0` -/
  | ended
  /-- in `jump0` of coroutine `c`, for the `n`-th accepted call, with the local variable `old` -/
  | jumped (n : ℕ) (c : κ) (old : Option κ)

/-- A saved place and its stack: that of a coroutine, or `none` for the thread's own. -/
structure Context (κ : Type*) where
  stack : Option κ
  point : Point κ

structure Coro (κ ε : Type*) where
  started : Bool := false
  running : Bool := false
  context : Option (Context κ) := none
  savedContext : Option (Context κ) := none
  exc : Option ε := none

/-- `isStarted`. -/
def Coro.isStarted {κ ε : Type*} (r : Coro κ ε) : Bool := r.started || r.running

/-- A call of `start` or `resume` that was accepted: `t_coro` and the stack at the time. -/
structure Call (κ : Type*) where
  id : ℕ
  coro : κ
  before : Option κ
  caller : Option κ

/-- How calls end for the code that made them. -/
inductive Event (ε : Type*) where
  | returned (n : ℕ)
  | threw (n : ℕ) (e : ε)
  | refused (text : String)

/-- The accepted call that the event ends. -/
def Event.call {ε : Type*} : Event ε → Option ℕ
  | .returned n => some n
  | .threw n _  => some n
  | .refused _  => none

/-- The exception that a coroutine's end makes a call throw. -/
def Event.exn {ε : Type*} : Event ε → Option ε
  | .threw _ e => some e
  | _          => none

/-- `tCoro` is `t_coro`, `stack` the stack in use, `self k` the `this` of the `starter0` on stack
`k`. The fields from `calls` on record the run: `active` holds the accepted calls that have not
ended, the latest first, and `entered c` the last one that was made on `c`. `lost` is set by a
switch to no code. -/
structure State (κ ε : Type*) where
  coro : κ → Coro κ ε := fun _ => {}
  tCoro : Option κ := none
  stack : Option κ := none
  self : Option κ → Option κ := fun _ => none
  calls : ℕ := 0
  active : List (Call κ) := []
  entered : κ → Option ℕ := fun _ => none
  asleep : κ → Bool := fun _ => false
  log : List (Event ε) := []
  lost : Bool := false

inductive Action (κ ε : Type*) where
  | start (c : κ)
  | resume (c : κ)
  | yield
  /-- the handler returns, or throws -/
  | finish (r : Option ε)

def Action.exn {κ ε : Type*} : Action κ ε → Option ε
  | .finish r => r
  | _         => none

namespace State

variable {κ ε : Type*}

/-- The coroutines of the active calls, the innermost first. -/
def chain (s : State κ ε) : List κ := s.active.map Call.coro

/-- `VERIFY` throws. -/
def refuse (s : State κ ε) (text : String) : State κ ε :=
  { s with log := s.log ++ [.refused text] }

variable [DecidableEq κ]

def modify (s : State κ ε) (c : κ) (f : Coro κ ε → Coro κ ε) : State κ ε :=
  { s with coro := Function.update s.coro c (f (s.coro c)) }

/-- `jump0` after the switch, on the stack `k` of its caller. -/
def afterJump (s : State κ ε) (k : Option κ) (n : ℕ) (c : κ) (old : Option κ) : State κ ε :=
  { s.modify c fun r => { r with running := false } with
    tCoro := old
    stack := k
    active := s.active.filter (·.id != n)
    log := s.log ++ [match (s.coro c).exc with
      | some e => .threw n e
      | none   => .returned n] }

/-- `starter0` until the handler runs. -/
def starter0 (s : State κ ε) (k : Option κ) (c : κ) : State κ ε :=
  { s.modify c fun r => { r with started := true, exc := none } with
    stack := k
    self := Function.update s.self k (some c) }

/-- What `jump_fcontext` leads to. -/
def land (s : State κ ε) : Option (Context κ) → State κ ε
  | some ⟨k, .entry⟩          => match s.tCoro with
    | some c => s.starter0 k c
    | none   => { s with lost := true }
  | some ⟨k, .yielded⟩        => { s with stack := k }
  | some ⟨k, .jumped n c old⟩ => s.afterJump k n c old
  | some ⟨_, .ended⟩          => { s with lost := true }
  | none                      => { s with lost := true }

def yield0 (s : State κ ε) (c : κ) (p : Point κ) : State κ ε :=
  (s.modify c fun r => { r with context := some ⟨s.stack, p⟩ }).land (s.coro c).savedContext

def jump0 (s : State κ ε) (c : κ) : State κ ε :=
  { s.modify c fun r => { r with
      running := true, savedContext := some ⟨s.stack, .jumped s.calls c s.tCoro⟩ } with
    tCoro := some c
    calls := s.calls + 1
    active := ⟨s.calls, c, s.tCoro, s.stack⟩ :: s.active
    entered := Function.update s.entered c (some s.calls)
    asleep := Function.update s.asleep c false : State κ ε }.land (s.coro c).context

def start (s : State κ ε) (c : κ) : State κ ε :=
  if (s.coro c).isStarted then
    s.refuse "Verification failed: !isStarted(): Trying to start already started coro"
  else
    (s.modify c fun r => { r with context := some ⟨some c, .entry⟩ }).jump0 c

def resume (s : State κ ε) (c : κ) : State κ ε :=
  if (s.coro c).started = false then
    s.refuse "Verification failed: started: Cannot resume: not started"
  else if (s.coro c).running then
    s.refuse "Verification failed: !running: Cannot resume: in running state"
  else s.jump0 c

def yield (s : State κ ε) : State κ ε :=
  match s.tCoro with
  | none   => s.refuse "Verification failed: isInsideCoro(): yield() outside coro"
  | some c => { s with asleep := Function.update s.asleep c true }.yield0 c .yielded

/-- The handler on stack `k` has returned or thrown. -/
def finish (s : State κ ε) (k : κ) (r : Option ε) : State κ ε :=
  match s.self (some k) with
  | none   => { s with lost := true }
  | some c => (s.modify c fun q => { q with
      started := false, exc := match r with
        | some e => some e
        | none   => q.exc }).yield0 c .ended

def step (s : State κ ε) (a : Action κ ε) : Option (State κ ε) :=
  if s.lost then none else match a with
  | .start c  => some (s.start c)
  | .resume c => some (s.resume c)
  | .yield    => some s.yield
  | .finish r => s.stack.map fun k => s.finish k r

end State

/-- The coroutines of a thread, none started, with the thread on its own stack. -/
def machine (κ ε : Type*) [DecidableEq κ] : Machine (State κ ε) (Action κ ε) where
  init s := s = {}
  step := State.step

end Synca.Coroutines
