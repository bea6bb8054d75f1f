import Mathlib.Tactic.Lemma
import Mathlib.Data.List.Induction
import Mathlib.Data.Option.Basic

/-!
# The life of a journey

What a journey is for its environment, stated without threads, tasks or handlers: it is created,
started, suspends and is proceeded and resumed any number of times, finishes and is deleted, once
and in this order. A yield is answered by one proceed, and the proceed comes after the context was
saved. The history of each journey of the runtime is such a life.
-/

namespace Synca

inductive LifeEvent where
  | create
  /-- `Coro::start`. -/
  | start
  | yield
  /-- The context is saved and the flag `running` cleared. -/
  | save
  /-- `Journey::proceed`. -/
  | proceed
  /-- `Coro::resume`. -/
  | resume
  /-- The handler has ended. -/
  | finish
  | delete
  deriving DecidableEq, Repr

inductive Life where
  | absent
  | created
  | running
  | yielding
  | suspended
  | proceeded
  | finishing
  | finished
  | deleted
  deriving DecidableEq, Repr

namespace Life

/-- What may happen next. -/
def next : Life → LifeEvent → Option Life
  | .absent,    .create  => some .created
  | .created,   .start   => some .running
  | .running,   .yield   => some .yielding
  | .yielding,  .save    => some .suspended
  | .suspended, .proceed => some .proceeded
  | .proceeded, .resume  => some .running
  | .running,   .finish  => some .finishing
  | .finishing, .save    => some .finished
  | .finished,  .delete  => some .deleted
  | _,          _        => none

/-- The object exists. -/
def alive : Life → Bool
  | .absent | .deleted => false
  | _                  => true

/-- The flag `started` of the coroutine. -/
def started : Life → Bool
  | .running | .yielding | .suspended | .proceeded => true
  | _                                              => false

/-- The flag `running` of the coroutine. -/
def active : Life → Bool
  | .running | .yielding | .finishing => true
  | _                                 => false

/-- The stack is switched away. -/
def away : Life → Bool
  | .yielding | .suspended | .proceeded => true
  | _                                   => false

/-- The life after a history, if the history is one. -/
def after (l : Life) : List LifeEvent → Option Life
  | []      => some l
  | e :: es => (l.next e).bind fun l' => l'.after es

attribute [grind =] next after

lemma after_append {l l' : Life} {es : List LifeEvent} (h : l.after es = some l')
    (e : LifeEvent) : l.after (es ++ [e]) = l'.next e := by
  induction es generalizing l with
  | nil =>
    obtain rfl : l = l' := by simpa [after] using h
    simp [after]
  | cons d es ih =>
    obtain ⟨m, hm, h⟩ := Option.bind_eq_some_iff.mp h
    simp [after, hm, ih h]

lemma after_append_eq (l : Life) (es ds : List LifeEvent) :
    l.after (es ++ ds) = (l.after es).bind fun m => m.after ds := by
  induction es generalizing l with
  | nil => rfl
  | cons e es ih => simp [after, ih, Option.bind_assoc]

lemma after_concat {l m : Life} {es : List LifeEvent} {e : LifeEvent} :
    l.after (es ++ [e]) = some m ↔ ∃ n, l.after es = some n ∧ n.next e = some m := by
  simp [after_append_eq, after, Option.bind_eq_some_iff]

/-- A journey that was just proceeded can only be resumed. -/
lemma proceeded_iff {l : Life} {es : List LifeEvent} (h : Life.absent.after es = some l) :
    l = .proceeded ↔ es.getLast? = some .proceed := by
  rcases List.eq_nil_or_concat es with rfl | ⟨ds, e, rfl⟩
  · obtain rfl : .absent = l := Option.some_injective _ h
    simp
  · rw [List.concat_eq_append] at h ⊢
    obtain ⟨n, -, hn⟩ := after_concat.mp h
    rw [List.getLast?_concat]
    cases n <;> cases e <;> simp [next] at hn ⊢ <;> simp [← hn]

lemma created_iff {l : Life} {es : List LifeEvent} (h : Life.absent.after es = some l) :
    l = .created ↔ es.getLast? = some .create := by
  rcases List.eq_nil_or_concat es with rfl | ⟨ds, e, rfl⟩
  · obtain rfl : .absent = l := Option.some_injective _ h
    simp
  · rw [List.concat_eq_append] at h ⊢
    obtain ⟨n, -, hn⟩ := after_concat.mp h
    rw [List.getLast?_concat]
    cases n <;> cases e <;> simp [next] at hn ⊢ <;> simp [← hn]

/-- After a `proceed`, the history goes on with `resume`. -/
lemma proceeded_after {l : Life} {es : List LifeEvent} (h : Life.proceeded.after es = some l)
    (hr : LifeEvent.resume ∉ es) : es = [] := by
  cases es with
  | nil => rfl
  | cons e es => cases e <;> simp [after, next] at h hr

lemma suspended_after {l : Life} {es : List LifeEvent} (h : Life.suspended.after es = some l)
    (hr : LifeEvent.resume ∉ es) : es = [] ∨ es = [.proceed] := by
  cases es with
  | nil => exact .inl rfl
  | cons e es =>
    cases e <;> simp only [after, next, Option.bind_none, Option.bind_some, reduceCtorEq] at h
    rw [proceeded_after h fun h => hr (List.mem_cons_of_mem _ h)]
    exact .inr rfl

/-- A journey that executes and does not switch away goes on. -/
lemma running_after {l : Life} {es : List LifeEvent} (h : Life.running.after es = some l)
    (hr : LifeEvent.resume ∉ es) (hf : LifeEvent.finish ∉ es) (ha : l.away = false) : es = [] := by
  cases es with
  | nil => rfl
  | cons e es =>
    cases e <;> simp only [after, next, Option.bind_none, Option.bind_some, reduceCtorEq] at h
    · have hr : LifeEvent.resume ∉ es := fun hm => hr (List.mem_cons_of_mem _ hm)
      cases es with
      | nil =>
        obtain rfl : .yielding = l := Option.some_injective _ h
        cases ha
      | cons e es =>
        cases e <;> simp only [after, next, Option.bind_none, Option.bind_some, reduceCtorEq] at h
        rcases suspended_after h fun hm => hr (List.mem_cons_of_mem _ hm) with rfl | rfl
        · obtain rfl : .suspended = l := Option.some_injective _ h
          cases ha
        · obtain rfl : .proceeded = l := Option.some_injective _ h
          cases ha
    · exact absurd List.mem_cons_self hf

lemma proceeded_of_resume {l l' : Life} (h : l.after [.resume] = some l') : l = .proceeded := by
  cases l <;> first | rfl | cases h

/-- Until it is resumed, a journey that is switched away is proceeded once. -/
lemma proceeds_once {l l' : Life} {es : List LifeEvent} (hl : l.away = true)
    (h : l.after es = some l') (hr : LifeEvent.resume ∉ es) :
    (es.count .proceed = 0 ∧ (l = .proceeded → es = [])) ∨
      (es.count .proceed = 1 ∧ l ≠ .proceeded ∧ es.getLast? = some .proceed) := by
  cases l with
  | proceeded =>
    rw [proceeded_after h hr]
    simp
  | suspended => rcases suspended_after h hr with rfl | rfl <;> simp
  | yielding =>
    cases es with
    | nil => simp
    | cons e es =>
      cases e <;> simp only [after, next, Option.bind_none, Option.bind_some, reduceCtorEq] at h
      rcases suspended_after h fun h => hr (List.mem_cons_of_mem _ h) with rfl | rfl <;> simp
  | absent | created | running | finishing | finished | deleted => cases hl

/-- The handler has ended. -/
def past : Life → Bool
  | .finishing | .finished | .deleted => true
  | _                                 => false

/-- The handler was called. -/
def begun : Life → Bool
  | .absent | .created => false
  | _                  => true

lemma not_started_of_past {l : Life} (h : l.past = true) : l.started = false := by
  cases l <;> first | rfl | cases h

lemma past_iff {l : Life} {es : List LifeEvent} (h : Life.absent.after es = some l) :
    l.past = true ↔ LifeEvent.finish ∈ es := by
  induction es using List.reverseRecOn generalizing l with
  | nil =>
    obtain rfl : .absent = l := Option.some_injective _ h
    simp [past]
  | append_singleton es e ih =>
    obtain ⟨n, hn, hne⟩ := after_concat.mp h
    rw [List.mem_append, ← ih hn]
    cases n <;> cases e <;> simp [next] at hne <;> simp [← hne, past]

lemma begun_iff {l : Life} {es : List LifeEvent} (h : Life.absent.after es = some l) :
    l.begun = true ↔ LifeEvent.start ∈ es := by
  induction es using List.reverseRecOn generalizing l with
  | nil =>
    obtain rfl : .absent = l := Option.some_injective _ h
    simp [begun]
  | append_singleton es e ih =>
    obtain ⟨n, hn, hne⟩ := after_concat.mp h
    rw [List.mem_append, ← ih hn]
    cases n <;> cases e <;> simp [next] at hne <;> simp [← hne, begun]

lemma absent_iff {l : Life} {es : List LifeEvent} (h : Life.absent.after es = some l) :
    l = .absent ↔ es = [] := by
  rcases List.eq_nil_or_concat es with rfl | ⟨ds, e, rfl⟩
  · obtain rfl : .absent = l := Option.some_injective _ h
    simp
  · rw [List.concat_eq_append] at h ⊢
    obtain ⟨n, -, hn⟩ := after_concat.mp h
    cases n <;> cases e <;> simp [next] at hn <;> simp [← hn]

end Life

end Synca
