import Mathlib.Data.List.ReduceOption
import Synca.Runtime.State

/-!
# What a journey hears

The history of one journey as far as events go: the events set on its goer, its calls of
`handleEvents` with what they throw, where it throws and catches exceptions of its own, and where
the destructors of its own code begin and end. A journey unwinds from the throw of an exception to
the catch, also in the destructors that the exception runs.

A journey that hears its own events, and these only, has a history in which each call throws what
follows from the part before it. Two such histories that agree in all but the outcomes of the calls
agree in the outcomes as well.
-/

namespace Synca

/-- What a journey has at hand when it calls `handleEvents`. -/
structure Own where
  events : Events := {}
  flight : Option Exn := none
  /-- What was in flight when each of the destructors that execute began, the innermost first. -/
  aside : List (Option Exn) := []
  deriving DecidableEq, Repr

/-- The function that calls `handleEvents`. -/
inductive Poll where
  | plain
  /-- A call that throws something else if `handleEvents` returns. -/
  | failing
  /-- `disableEvents`. -/
  | disabling
  /-- `enableEvents`. -/
  | enabling
  deriving DecidableEq, Repr

namespace Poll

/-- The events before the call of `handleEvents`. -/
def before (p : Poll) (e : Events) : Events :=
  match p with
  | .enabling => { e with eventsAllowed := true }
  | _         => e

/-- The events after a call of `handleEvents` that returns. -/
def after (p : Poll) (e : Events) : Events :=
  match p with
  | .disabling => { e with eventsAllowed := false }
  | _          => e

end Poll

inductive Note where
  /-- An event is set, unless one is pending. -/
  | set (st : EventStatus)
  /-- A call of `handleEvents`, and what it throws. -/
  | poll (p : Poll) (x : Option EventException)
  | throws (e : Exn)
  | catches
  /-- A destructor of the user's code begins. -/
  | enters
  /-- It ends. -/
  | leaves
  deriving DecidableEq, Repr

/-- The note without the outcome of the call. -/
def Note.erase : Note → Note
  | .poll p _ => .poll p none
  | n         => n

/-- Nothing is thrown, caught or put aside. -/
def Note.Quiet : Note → Prop
  | .set _    => True
  | .poll p x => p ≠ .failing ∧ x = none
  | _         => False

namespace Own

def setEvents (o : Own) (e : Events) : Own := { o with events := e }

def fly (o : Own) (e : Exn) : Own := { o with flight := some e }

/-- What the journey has at hand after a note. -/
def hear (o : Own) : Note → Own
  | .set st          => o.setEvents { o.events with gr := (o.events.gr.setStatus0 st).2 }
  | .poll p none     => { o with events := p.after (p.before o.events)
                                 flight := if p = .failing then some .std else o.flight }
  | .poll p (some x) => (o.setEvents { p.before o.events with gr := {} }).fly (.event x)
  | .throws e        => o.fly e
  | .catches         => { o with flight := none }
  | .enters          => { o with flight := none, aside := o.flight :: o.aside }
  | .leaves          => match o.aside with
    | e :: es => { o with flight := e, aside := es }
    | []      => o

def hears (o : Own) (ns : List Note) : Own := ns.foldl hear o

/-- The exceptions that were thrown and not caught. -/
def exns (o : Own) : List Exn := (o.flight :: o.aside).reduceOption

/-- What a call of `handleEvents` throws if the journey's own exceptions are all that counts. -/
def outcome (o : Own) (p : Poll) : Option EventException :=
  ((p.before o.events).handleEvents (o.exns ≠ [])).1

/-- Each call throws what follows from what the journey has at hand. -/
def Agrees (o : Own) : List Note → Prop
  | []      => True
  | n :: ns => (match n with
    | .poll p x => x = o.outcome p
    | _         => True) ∧ (o.hear n).Agrees ns

variable {o : Own} {ns ms : List Note} {n : Note}

@[simp] lemma hears_nil (o : Own) : o.hears [] = o := rfl

@[simp] lemma hears_cons (o : Own) (n : Note) (ns : List Note) :
    o.hears (n :: ns) = (o.hear n).hears ns := rfl

lemma exns_of_flight {e : Exn} (h : o.flight = some e) :
    o.exns = e :: o.aside.reduceOption := by
  rw [exns, h, List.reduceOption_cons_of_some]

lemma exns_of_no_flight (h : o.flight = none) : o.exns = o.aside.reduceOption := by
  rw [exns, h, List.reduceOption_cons_of_none]

lemma mem_exns_of_aside {e : Exn} (h : e ∈ o.aside.reduceOption) : e ∈ o.exns := by
  rw [exns, List.reduceOption_mem_iff]
  exact List.mem_cons_of_mem _ (List.reduceOption_mem_iff.mp h)

lemma no_flight_of_exns (h : o.exns = []) : o.flight = none := by
  by_contra hn
  obtain ⟨e, he⟩ := Option.ne_none_iff_exists'.mp hn
  rw [exns_of_flight he] at h
  cases h

lemma exns_hear (h : n.Quiet) : (o.hear n).exns = o.exns := by
  cases n with
  | set st => rfl
  | poll p x =>
    obtain ⟨hp, rfl⟩ := h
    simp only [exns, hear, if_neg hp]
  | throws e => cases h
  | catches => cases h
  | enters => cases h
  | leaves => cases h

lemma exns_hears (h : ∀ n ∈ ns, n.Quiet) : (o.hears ns).exns = o.exns := by
  induction ns generalizing o with
  | nil => rfl
  | cons n ns ih =>
    rw [hears_cons, ih fun m hm => h m (List.mem_cons_of_mem _ hm),
      exns_hear (h n List.mem_cons_self)]

/-- A destructor puts the exception in flight aside. -/
lemma exns_enters (o : Own) : (o.hear .enters).exns = o.exns :=
  exns_of_no_flight rfl

lemma events_leaves (o : Own) : (o.hear .leaves).events = o.events := by
  obtain ⟨ev, fl, as⟩ := o
  cases as <;> rfl

/-- The exception flies on when the destructor has ended. -/
lemma exns_leaves (h : o.flight = none) : (o.hear .leaves).exns = o.exns := by
  rw [exns_of_no_flight h]
  obtain ⟨ev, fl, as⟩ := o
  cases as with
  | nil => exact exns_of_no_flight h
  | cons e es => rfl

lemma agrees_append : o.Agrees (ns ++ ms) ↔ o.Agrees ns ∧ (o.hears ns).Agrees ms := by
  induction ns generalizing o with
  | nil => simp [Agrees]
  | cons n ns ih => simp [Agrees, ih, and_assoc]

/-- Notes without a call agree with everything. -/
lemma agrees_singleton (h : ∀ p x, n = .poll p x → x = o.outcome p) : o.Agrees [n] := by
  cases n with
  | poll p x => exact ⟨h p x rfl, trivial⟩
  | set st => exact ⟨trivial, trivial⟩
  | throws e => exact ⟨trivial, trivial⟩
  | catches => exact ⟨trivial, trivial⟩
  | enters => exact ⟨trivial, trivial⟩
  | leaves => exact ⟨trivial, trivial⟩

/-- The outcomes of the calls follow from the rest of the history. -/
theorem Agrees.unique (h : o.Agrees ns) (h' : o.Agrees ms)
    (he : ns.map Note.erase = ms.map Note.erase) : ns = ms := by
  induction ns generalizing o ms with
  | nil => exact (List.map_eq_nil_iff.mp he.symm).symm
  | cons n ns ih =>
    obtain ⟨m, ms, rfl⟩ := List.exists_cons_of_ne_nil (l := ms) (by rintro rfl; simp at he)
    obtain ⟨hn, hns⟩ := List.cons.inj he
    -- the first notes are the same, as both tell the outcome that `o` determines
    have hnm : n = m := by
      cases n with
      | poll p x =>
        cases m with
        | poll q y =>
          obtain rfl : p = q := (Note.poll.inj hn).1
          rw [h.1.trans h'.1.symm]
        | set st => cases hn
        | throws e => cases hn
        | catches => cases hn
        | enters => cases hn
        | leaves => cases hn
      | set st => cases m <;> first | exact hn | cases hn
      | throws e => cases m <;> first | exact hn | cases hn
      | catches => cases m <;> first | exact hn | cases hn
      | enters => cases m <;> first | exact hn | cases hn
      | leaves => cases m <;> first | exact hn | cases hn
    subst hnm
    rw [ih h.2 h'.2 hns]

end Own

end Synca
