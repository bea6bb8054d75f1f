import Synca.Collector.History
import Synca.Journey.WaitForAll
import Synca.Runtime.Step

/-!
# The garbage collector of a journey

`gcnew` puts a deleter into the vector of the journey that executes, and the destructor of `GC`
calls them in a reverse loop. `GC` is a member of `Journey`: its destructor runs after the body of
`~Journey`, which counts the journey as destroyed.

The steps of the runtime are taken as they are, up to one thing: the thread that deletes a journey
goes on when the loop is over. The loop goes by an index, as its iterators do; a destructor that it
calls may call `gcnew`, which appends to the vector or reallocates it. One thread is in
`waitForAll`. Which destructor deletes what is history that the program does not keep.
-/

namespace Synca

open Transition

/-- What a deleter has captured: a pointer, and the type of the object. -/
structure Object where
  address : ℕ
  type : ℕ
  deriving DecidableEq, Repr

/-- The loop of `~GC`. -/
structure GcLoop where
  /-- The number of deleters that are still to be called. -/
  next : ℕ
  /-- A deleter was called. -/
  calling : Bool := false
  deriving DecidableEq, Repr

structure Collector where
  rt : Runtime := {}
  /-- `GC::deleters` of each journey. -/
  deleters : ℕ → List Object := fun _ => []
  allocated : ℕ := 0
  loop : ℕ → Option GcLoop := fun _ => none
  /-- The vector was reallocated under the iterators of a loop. -/
  dangling : Bool := false
  pc : WaitPc := .outside
  history : ℕ → List (Collector.HeapEvent Object) := fun _ => []

namespace Collector

/-- Thread `t` executes code of journey `j` that is not the library's. -/
def Executes (s : Collector) (t j : ℕ) : Prop := s.rt.Runs t j .user ∨ s.rt.Runs t j .closing

instance (s : Collector) (t j : ℕ) : Decidable (s.Executes t j) :=
  inferInstanceAs (Decidable (_ ∨ _))

def record (s : Collector) (j : ℕ) (e : HeapEvent Object) : Collector :=
  { s with history := Function.update s.history j (s.history j ++ [e]) }

/-- `gcnew`, for journey `j`: `new` and `GC::add`. -/
def add (s : Collector) (j type : ℕ) : Collector :=
  let o : Object := ⟨s.allocated, type⟩
  { s.record j (.alloc o) with
    deleters  := Function.update s.deleters j (s.deleters j ++ [o])
    allocated := s.allocated + 1 }

/-- The body of `~Journey` has run, and `~GC` begins. -/
def beginLoop (s : Collector) (j : ℕ) : Collector :=
  { s.record j .count with
    loop := Function.update s.loop j (some { next := (s.deleters j).length }) }

/-- The action deletes journey `j`. -/
def Deletes (s : Runtime) : Runtime.Action → Option ℕ
  | .exit _ j _ => if (s.journey j).deferHandler = none then some j else none
  | _           => none

/-- A step of the runtime leads to `rt`. -/
def run (s : Collector) (a : Runtime.Action) (rt : Runtime) : Collector :=
  match Deletes s.rt a with
  | some j => { s.beginLoop j with rt := rt }
  | none   => { s with rt := rt }

/-- The thread that deletes a journey is in `~Journey`. -/
def Ready (s : Collector) : Runtime.Action → Prop
  | .finish _ j => s.loop j = none
  | _           => True

instance (s : Collector) (a : Runtime.Action) : Decidable (s.Ready a) := by
  induction a using Runtime.Action.casesOn with
  | finish t j => exact inferInstanceAs (Decidable (_ = _))
  | _ => exact .isTrue trivial

/-- The next deleter is called. -/
def free (s : Collector) (j n : ℕ) (o : Object) : Collector :=
  { s.record j (.free o) with
    loop := Function.update s.loop j (some { next := n, calling := true }) }

/-- `gcnew`, called by the destructor of an object of journey `j`. -/
def addInside (s : Collector) (j type : ℕ) (grows : Bool) : Collector :=
  { s.add j type with dangling := grows }

/-- The vector is destroyed. -/
def endLoop (s : Collector) (j : ℕ) : Collector :=
  { s with loop := Function.update s.loop j none, deleters := Function.update s.deleters j [] }

/-- The second load ends the comparison. -/
def compare (s : Collector) (mark c d : ℕ) : Collector :=
  { s with pc := if c = d then .returned mark else .comparing mark }

inductive Action where
  | run (a : Runtime.Action)
  | gcnew (t j type : ℕ)
  | free (j : ℕ)
  /-- `gcnew` in a destructor; `grows` tells whether the vector is reallocated. -/
  | gcnewInside (j type : ℕ) (grows : Bool)
  | endLoop (j : ℕ)
  | waitForAll
  | loadCreated
  | loadDestroyed
  deriving DecidableEq, Repr

def stepLive (s : Collector) : Action → Option Collector
  | .run a         => if s.Ready a then (s.rt.step a).map (s.run a) else none
  | .gcnew t j ty  => if s.Executes t j then some (s.add j ty) else none
  | .free j        =>
    match s.loop j with
    | some ⟨n + 1, _⟩ => ((s.deleters j)[n]?).map (s.free j n)
    | _               => none
  | .gcnewInside j ty grows =>
    match s.loop j with
    | some ⟨_, true⟩ => some (s.addInside j ty grows)
    | _              => none
  | .endLoop j     =>
    match s.loop j with
    | some ⟨0, _⟩ => some (s.endLoop j)
    | _           => none
  | .waitForAll    =>
    match s.pc with
    | .outside | .returned _ => some { s with pc := .comparing s.rt.created }
    | _                      => none
  | .loadCreated   =>
    match s.pc with
    | .comparing mark         => some { s with pc := .loadedCreated mark s.rt.created }
    | .loadedDestroyed mark d => some (s.compare mark s.rt.created d)
    | _                       => none
  | .loadDestroyed =>
    match s.pc with
    | .comparing mark       => some { s with pc := .loadedDestroyed mark s.rt.destroyed }
    | .loadedCreated mark c => some (s.compare mark c s.rt.destroyed)
    | _                     => none

/-- After `std::terminate`, or once the loop has lost its iterators, there is no step. -/
def step (s : Collector) (a : Action) : Option Collector :=
  if s.rt.terminated ∨ s.dangling then none else s.stepLive a

def machine : Machine Collector Action where
  init s := ∃ rt, Runtime.machine.init rt ∧ s = { rt := rt }
  step   := step

end Collector

end Synca
