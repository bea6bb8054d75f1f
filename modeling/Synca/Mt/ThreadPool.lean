import Mathlib.Data.Fintype.Basic
import Mathlib.Data.List.Nodup
import Mathlib.Logic.Function.Basic
import Synca.Transition.Machine

/-!
# `ThreadPool`

The workers of a pool loop over `service.run()` and a section under the mutex; one outside thread
calls `schedule`, `wait` and at last the destructor. A step is a return of `run()`, a handler
taken, left or posted from inside another, a section under the mutex, or a notification.

Of the service the model keeps what its documentation promises: `run()` executes queued handlers,
in any order, and returns only while the service is stopped; the service stops at the moment its
outstanding work (the work object, the queued and the executing handlers) reaches zero; `reset()`
clears the stop.
-/

namespace Synca

open Transition

/-- Where a worker thread stands in its loop. -/
inductive WorkerPc where
  /-- In `service.run()`, between handlers. -/
  | run
  /-- In `service.run()`, executing a handler. -/
  | exec (h : ℕ)
  /-- `service.run()` has returned; the mutex comes next. -/
  | left
  /-- The mutex is released; `cond.notify_all()` comes next. -/
  | notify
  | exited
  deriving DecidableEq, Repr

/-- The worker executes a handler. -/
def WorkerPc.isExec : WorkerPc → Bool
  | .exec _ => true
  | _       => false

/-- Where the outside thread stands; `mark` is the number of handlers scheduled before the call of
`wait`. -/
inductive OutsidePc where
  | idle
  /-- In `cond.wait`. -/
  | waiting (mark : ℕ)
  /-- `cond.wait` is about to take the mutex back. -/
  | woken (mark : ℕ)
  /-- The last call of `wait` has returned. -/
  | returned (mark : ℕ)
  /-- In the destructor, joining the threads. -/
  | joining
  | destroyed
  deriving DecidableEq, Repr

/-- The outside thread is free to make its next call. -/
def OutsidePc.Free : OutsidePc → Prop
  | .idle | .returned _ => True
  | _                   => False

instance (pc : OutsidePc) : Decidable pc.Free := by
  cases pc <;> simp only [OutsidePc.Free] <;> infer_instance

/-- The number of handlers scheduled before the current or last `wait`. -/
def OutsidePc.mark? : OutsidePc → Option ℕ
  | .waiting mark | .woken mark | .returned mark => some mark
  | _                                            => none

/-- The outside thread is blocked in `wait`. -/
def OutsidePc.Waiting : OutsidePc → Prop
  | .waiting _ | .woken _ => True
  | _                     => False

/-- A pool of `n` threads. Handlers are numbered in the order they were scheduled. -/
structure ThreadPool (n : ℕ) where
  worker : Fin n → WorkerPc := fun _ => .run
  outside : OutsidePc := .idle
  /-- Handlers posted to the service and not yet taken. -/
  queue : List ℕ := []
  /-- The work object exists. -/
  work : Bool := true
  /-- The service is stopped. -/
  stopped : Bool := false
  toStop : Bool := false
  scheduled : ℕ := 0
  /-- The handler that scheduled a handler, if a handler did. -/
  parent : ℕ → Option ℕ := fun _ => none
  /-- Handlers executed, the last one first. -/
  finished : List ℕ := []

namespace ThreadPool

variable {n : ℕ}

inductive Action (n : ℕ) where
  /-- A worker takes a handler out of the queue. -/
  | take (t : Fin n) (h : ℕ)
  /-- The handler a worker executes schedules another one. -/
  | post (t : Fin n)
  | finish (t : Fin n)
  /-- `service.run()` returns. -/
  | leave (t : Fin n)
  /-- The section of the worker loop under the mutex. -/
  | lock (t : Fin n)
  | notify (t : Fin n)
  | schedule
  | wait
  /-- `cond.wait` returns without a notification. -/
  | spurious
  /-- `cond.wait` has the mutex again, and the loop of `wait` tests the work object. -/
  | recheck
  | destroy
  | join
  deriving DecidableEq, Repr

/-- No handler is queued or executing. -/
def Drained (s : ThreadPool n) : Prop := s.queue = [] ∧ ∀ t, (s.worker t).isExec = false

instance (s : ThreadPool n) : Decidable s.Drained :=
  inferInstanceAs (Decidable (_ ∧ _))

def moveWorker (s : ThreadPool n) (t : Fin n) (pc : WorkerPc) : ThreadPool n :=
  { s with worker := Function.update s.worker t pc }

/-- The outstanding work has just gone down: the service stops if nothing is left. -/
def workFinished (s : ThreadPool n) : ThreadPool n :=
  if s.work = false ∧ s.Drained then { s with stopped := true } else s

/-- `service.post`, by handler `p` or by the outside thread. -/
def post (s : ThreadPool n) (p : Option ℕ) : ThreadPool n :=
  { s with
    queue     := s.queue ++ [s.scheduled]
    scheduled := s.scheduled + 1
    parent    := Function.update s.parent s.scheduled p }

/-- `work.reset()`. -/
def resetWork (s : ThreadPool n) : ThreadPool n := { s with work := false }.workFinished

/-- The section of the worker loop. -/
def section0 (s : ThreadPool n) (t : Fin n) : ThreadPool n :=
  if s.toStop then s.moveWorker t .exited
  else if s.work = false then { s.moveWorker t .notify with work := true, stopped := false }
  else s.moveWorker t .run

def notifyAll (s : ThreadPool n) : ThreadPool n :=
  match s.outside with
  | .waiting mark => { s with outside := .woken mark }
  | _             => s

def step (s : ThreadPool n) : Action n → Option (ThreadPool n)
  | .take t h =>
    if s.worker t = .run ∧ s.stopped = false ∧ h ∈ s.queue then
      some { s.moveWorker t (.exec h) with queue := s.queue.erase h }
    else none
  | .post t =>
    match s.worker t with
    | .exec h => some (s.post (some h))
    | _       => none
  | .finish t =>
    match s.worker t with
    | .exec h => some { s.moveWorker t .run with finished := h :: s.finished }.workFinished
    | _       => none
  | .leave t =>
    if s.worker t = .run ∧ s.stopped = true then some (s.moveWorker t .left) else none
  | .lock t => if s.worker t = .left then some (s.section0 t) else none
  | .notify t =>
    if s.worker t = .notify then some (s.notifyAll.moveWorker t .run) else none
  | .schedule => if s.outside.Free then some (s.post none) else none
  | .wait =>
    if s.outside.Free then some { s.resetWork with outside := .waiting s.scheduled } else none
  | .spurious =>
    match s.outside with
    | .waiting mark => some { s with outside := .woken mark }
    | _             => none
  | .recheck =>
    match s.outside with
    | .woken mark =>
      some { s with outside := if s.work then .returned mark else .waiting mark }
    | _ => none
  | .destroy =>
    if s.outside.Free then some { s.resetWork with toStop := true, outside := .joining } else none
  | .join =>
    if s.outside = .joining ∧ ∀ t, s.worker t = .exited then
      some { s with outside := .destroyed }
    else none

/-- A pool just constructed. -/
def machine (n : ℕ) : Machine (ThreadPool n) (Action n) where
  init s := s = {}
  step   := step

/-! ### What each step does -/

section Inversion

variable {s s' : ThreadPool n} {t : Fin n} {h : ℕ}

lemma step_take (hs : step s (.take t h) = some s') :
    s.worker t = .run ∧ s.stopped = false ∧ h ∈ s.queue ∧
      s' = { s.moveWorker t (.exec h) with queue := s.queue.erase h } := by
  simp only [step, Option.ite_none_right_eq_some, Option.some.injEq] at hs
  exact ⟨hs.1.1, hs.1.2.1, hs.1.2.2, hs.2.symm⟩

lemma step_post (hs : step s (.post t) = some s') :
    ∃ h, s.worker t = .exec h ∧ s' = s.post (some h) := by
  simp only [step] at hs
  split at hs
  case h_1 h hw => exact ⟨h, hw, by simpa using hs.symm⟩
  case h_2 => cases hs

lemma step_finish (hs : step s (.finish t) = some s') :
    ∃ h, s.worker t = .exec h ∧
      s' = { s.moveWorker t .run with finished := h :: s.finished }.workFinished := by
  simp only [step] at hs
  split at hs
  case h_1 h hw => exact ⟨h, hw, by simpa using hs.symm⟩
  case h_2 => cases hs

lemma step_leave (hs : step s (.leave t) = some s') :
    s.worker t = .run ∧ s.stopped = true ∧ s' = s.moveWorker t .left := by
  simp only [step, Option.ite_none_right_eq_some, Option.some.injEq] at hs
  exact ⟨hs.1.1, hs.1.2, hs.2.symm⟩

/-- The section stops the worker, revives the service, or does nothing. -/
lemma step_lock (hs : step s (.lock t) = some s') :
    s.worker t = .left ∧
      (s.toStop = true ∧ s' = s.moveWorker t .exited ∨
       s.toStop = false ∧ s.work = false ∧
        s' = { s.moveWorker t .notify with work := true, stopped := false } ∨
       s.toStop = false ∧ s.work = true ∧ s' = s.moveWorker t .run) := by
  simp only [step, section0, Option.ite_none_right_eq_some, Option.some.injEq] at hs
  refine ⟨hs.1, ?_⟩
  obtain ⟨-, hs⟩ := hs
  split_ifs at hs with h₁ h₂
  · exact .inl ⟨h₁, hs.symm⟩
  · exact .inr (.inl ⟨by simpa using h₁, h₂, hs.symm⟩)
  · exact .inr (.inr ⟨by simpa using h₁, by simpa using h₂, hs.symm⟩)

lemma step_notify (hs : step s (.notify t) = some s') :
    s.worker t = .notify ∧ s' = s.notifyAll.moveWorker t .run := by
  simp only [step, Option.ite_none_right_eq_some, Option.some.injEq] at hs
  exact ⟨hs.1, hs.2.symm⟩

lemma step_schedule (hs : step s .schedule = some s') :
    s.outside.Free ∧ s' = s.post none := by
  simp only [step, Option.ite_none_right_eq_some, Option.some.injEq] at hs
  exact ⟨hs.1, hs.2.symm⟩

lemma step_wait (hs : step s .wait = some s') :
    s.outside.Free ∧ s' = { s.resetWork with outside := .waiting s.scheduled } := by
  simp only [step, Option.ite_none_right_eq_some, Option.some.injEq] at hs
  exact ⟨hs.1, hs.2.symm⟩

lemma step_spurious (hs : step s .spurious = some s') :
    ∃ mark, s.outside = .waiting mark ∧ s' = { s with outside := .woken mark } := by
  simp only [step] at hs
  split at hs
  case h_1 mark ho => exact ⟨mark, ho, by simpa using hs.symm⟩
  case h_2 => cases hs

lemma step_recheck (hs : step s .recheck = some s') :
    ∃ mark, s.outside = .woken mark ∧
      (s.work = true ∧ s' = { s with outside := .returned mark } ∨
       s.work = false ∧ s' = { s with outside := .waiting mark }) := by
  simp only [step] at hs
  split at hs
  case h_1 mark ho =>
    refine ⟨mark, ho, ?_⟩
    cases hw : s.work
    · exact .inr ⟨rfl, by simpa [hw] using hs.symm⟩
    · exact .inl ⟨rfl, by simpa [hw] using hs.symm⟩
  case h_2 => cases hs

lemma step_destroy (hs : step s .destroy = some s') :
    s.outside.Free ∧ s' = { s.resetWork with toStop := true, outside := .joining } := by
  simp only [step, Option.ite_none_right_eq_some, Option.some.injEq] at hs
  exact ⟨hs.1, hs.2.symm⟩

lemma step_join (hs : step s .join = some s') :
    s.outside = .joining ∧ (∀ t, s.worker t = .exited) ∧
      s' = { s with outside := .destroyed } := by
  simp only [step, Option.ite_none_right_eq_some, Option.some.injEq] at hs
  exact ⟨hs.1.1, hs.1.2, hs.2.symm⟩

end Inversion

/-! ### Fields -/

section Fields

variable (s : ThreadPool n) (t u : Fin n) (pc : WorkerPc) (p : Option ℕ)

@[simp] lemma worker_moveWorker :
    (s.moveWorker t pc).worker u = if u = t then pc else s.worker u := by
  simp [moveWorker, Function.update_apply]

@[simp] lemma outside_moveWorker : (s.moveWorker t pc).outside = s.outside := rfl
@[simp] lemma queue_moveWorker : (s.moveWorker t pc).queue = s.queue := rfl
@[simp] lemma work_moveWorker : (s.moveWorker t pc).work = s.work := rfl
@[simp] lemma stopped_moveWorker : (s.moveWorker t pc).stopped = s.stopped := rfl
@[simp] lemma toStop_moveWorker : (s.moveWorker t pc).toStop = s.toStop := rfl
@[simp] lemma scheduled_moveWorker : (s.moveWorker t pc).scheduled = s.scheduled := rfl
@[simp] lemma parent_moveWorker : (s.moveWorker t pc).parent = s.parent := rfl
@[simp] lemma finished_moveWorker : (s.moveWorker t pc).finished = s.finished := rfl

lemma workFinished_eq : s.workFinished = s ∨
    s.work = false ∧ s.Drained ∧ s.workFinished = { s with stopped := true } := by
  unfold workFinished
  split_ifs with h
  · exact .inr ⟨h.1, h.2, rfl⟩
  · exact .inl rfl

lemma notifyAll_eq : s.notifyAll = s ∨
    ∃ mark, s.outside = .waiting mark ∧ s.notifyAll = { s with outside := .woken mark } := by
  unfold notifyAll
  split
  case h_1 mark ho => exact .inr ⟨mark, ho, rfl⟩
  case h_2 => exact .inl rfl

end Fields

end ThreadPool

end Synca
