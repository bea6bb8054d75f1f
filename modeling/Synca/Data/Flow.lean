import Synca.Data.Pipes

/-!
# Flow

What the pipelines are for: values move along channels, from the workers that emit them to the
workers that receive them. A channel is what was taken out of it, what is in it, and whether it is
closed; a worker has a value in hand, or outputs to emit, or has ended. Calls, waiters and the
mutex are not seen here. The moves are those of any run of the pipelines, and a property that every
move keeps holds in every run.
-/

namespace Synca

namespace Data

open Transition

/-- What a worker is at. -/
inductive Phase (T : Type*) where
  | unborn
  /-- With what it still has to emit; with nothing it is after the next value. -/
  | looping (rest : List T)
  /-- It was given a value, and `f` was not called yet. -/
  | holding (v : T)
  /-- It was refused, and has not closed the destination. -/
  | ended
  | done
  deriving DecidableEq

namespace Phase

variable {T : Type*}

/-- The value in hand. -/
def held : Phase T → List T
  | .holding v => [v]
  | _          => []

/-- The outputs still to emit. -/
def pending : Phase T → List T
  | .looping rest => rest
  | _             => []

end Phase

@[ext]
structure Flow (ι κ T : Type*) where
  gots : ι → List T := fun _ => []
  queue : ι → List T := fun _ => []
  closed : ι → Bool := fun _ => false
  phase : κ × ℕ → Phase T := fun _ => .unborn
  /-- The producers have not finished. -/
  feeding : Bool := true
  runs : List (Run κ T) := []

/-- What is known of the producers and of those who close. -/
structure Terms (ι κ T : Type*) where
  /-- The channels producers put into. -/
  feeds : ι → Prop := fun _ => True
  /-- The flow when the producers finish. -/
  finishes : Flow ι κ T → Prop := fun _ => True
  /-- The flow when a worker is the first to close its destination. -/
  closes : Flow ι κ T → κ × ℕ → Prop := fun _ _ => True

variable {ι κ Ω T : Type*}

namespace Flow

/-- The values put into a channel. -/
def puts (f : Flow ι κ T) (c : ι) : List T := f.gots c ++ f.queue c

section

variable [DecidableEq ι] [DecidableEq κ]

def setPhase (f : Flow ι κ T) (w : κ × ℕ) (x : Phase T) : Flow ι κ T :=
  { f with phase := Function.update f.phase w x }

/-- A value is put into a channel. -/
def enqueue (f : Flow ι κ T) (c : ι) (v : T) : Flow ι κ T :=
  { f with queue := Function.update f.queue c (f.queue c ++ [v]) }

/-- The front of a channel is taken. -/
def dequeue (f : Flow ι κ T) (c : ι) (v : T) (q : List T) : Flow ι κ T :=
  { f with
    gots  := Function.update f.gots c (f.gots c ++ [v])
    queue := Function.update f.queue c q }

open Classical in
/-- A channel is closed, and the workers `E` are refused. -/
noncomputable def close (f : Flow ι κ T) (c : ι) (E : κ × ℕ → Prop) : Flow ι κ T :=
  { f with
    closed := Function.update f.closed c true
    phase  := fun w => if E w then .ended else f.phase w }

variable (stage : κ → Stage ι Ω T) (c₀ : ι) (t : Terms ι κ T)

/-- The workers `E` wait on the channel `c`, and it is empty if there are any. -/
structure Released (f : Flow ι κ T) (c : ι) (E : κ × ℕ → Prop) : Prop where
  looping : ∀ w, E w → f.phase w = .looping []
  src : ∀ w, E w → (stage w.1).src = c
  queue : ∀ w, E w → f.queue c = []

inductive Move (f : Flow ι κ T) : Flow ι κ T → Prop where
  | go (w : κ × ℕ) (hw : f.phase w = .unborn) (hn : w.2 < (stage w.1).n) :
      Move f (f.setPhase w (.looping []))
  | feed (c : ι) (v : T) (hf : f.feeding = true) (ht : t.feeds c) : Move f (f.enqueue c v)
  | receive (w : κ × ℕ) (v : T) (q : List T) (hw : f.phase w = .looping [])
      (hq : f.queue (stage w.1).src = v :: q) :
      Move f ((f.dequeue (stage w.1).src v q).setPhase w (.holding v))
  | apply (w : κ × ℕ) (x : Ω) (v : T) (hw : f.phase w = .holding v) :
      Move f { f.setPhase w (.looping ((stage w.1).outputs x v)) with
        runs := f.runs ++ [⟨w, v, (stage w.1).outputs x v⟩] }
  | emit (w : κ × ℕ) (d : ι) (v : T) (rest : List T) (hw : f.phase w = .looping (v :: rest))
      (hd : (stage w.1).dst = some d) : Move f ((f.enqueue d v).setPhase w (.looping rest))
  | refuse (w : κ × ℕ) (hw : f.phase w = .looping []) (hq : f.queue (stage w.1).src = [])
      (hc : f.closed (stage w.1).src = true) : Move f (f.setPhase w .ended)
  | close (w : κ × ℕ) (d : ι) (E : κ × ℕ → Prop) (hw : f.phase w = .ended)
      (hd : (stage w.1).dst = some d) (hE : f.Released stage d E)
      (ht : f.closed d = false → t.closes f w) : Move f ((f.close d E).setPhase w .done)
  | quit (w : κ × ℕ) (hw : f.phase w = .ended) (hd : (stage w.1).dst = none) :
      Move f (f.setPhase w .done)
  | finish (hf : f.feeding = true) (ht : t.finishes f) : Move f { f with feeding := false }
  | shut (E : κ × ℕ → Prop) (hf : f.feeding = false) (hE : f.Released stage c₀ E) :
      Move f (f.close c₀ E)

variable {stage c₀ t}

/-- What every move keeps is kept. -/
lemma kept {I : Flow ι κ T → Prop} (hI : ∀ f f', I f → f.Move stage c₀ t f' → I f')
    {f f' : Flow ι κ T} (hf : I f) (h : Relation.ReflTransGen (Move stage c₀ t) f f') : I f' := by
  induction h with
  | refl => exact hf
  | tail _ hm ih => exact hI _ _ ih hm

end

/-! ### Fields after an operation -/

section

variable [DecidableEq κ] (f : Flow ι κ T)

@[simp] lemma phase_setPhase (w w' : κ × ℕ) (x : Phase T) :
    (f.setPhase w x).phase w' = if w' = w then x else f.phase w' :=
  Function.update_apply _ _ _ _

lemma setPhase_self {w : κ × ℕ} {x : Phase T} (h : f.phase w = x) : f.setPhase w x = f := by
  subst h
  exact Flow.ext rfl rfl rfl (Function.update_eq_self _ _) rfl rfl

@[simp] lemma gots_setPhase (w : κ × ℕ) (x : Phase T) : (f.setPhase w x).gots = f.gots := rfl

@[simp] lemma queue_setPhase (w : κ × ℕ) (x : Phase T) : (f.setPhase w x).queue = f.queue := rfl

@[simp] lemma closed_setPhase (w : κ × ℕ) (x : Phase T) :
    (f.setPhase w x).closed = f.closed := rfl

@[simp] lemma feeding_setPhase (w : κ × ℕ) (x : Phase T) :
    (f.setPhase w x).feeding = f.feeding := rfl

@[simp] lemma runs_setPhase (w : κ × ℕ) (x : Phase T) : (f.setPhase w x).runs = f.runs := rfl

end

section

variable [DecidableEq ι] (f : Flow ι κ T)

@[simp] lemma queue_enqueue (c c' : ι) (v : T) :
    (f.enqueue c v).queue c' = if c' = c then f.queue c ++ [v] else f.queue c' :=
  Function.update_apply _ _ _ _

@[simp] lemma gots_dequeue (c c' : ι) (v : T) (q : List T) :
    (f.dequeue c v q).gots c' = if c' = c then f.gots c ++ [v] else f.gots c' :=
  Function.update_apply _ _ _ _

@[simp] lemma queue_dequeue (c c' : ι) (v : T) (q : List T) :
    (f.dequeue c v q).queue c' = if c' = c then q else f.queue c' :=
  Function.update_apply _ _ _ _

@[simp] lemma closed_close (c c' : ι) (E : κ × ℕ → Prop) :
    (f.close c E).closed c' = if c' = c then true else f.closed c' :=
  Function.update_apply _ _ _ _

end

end Flow

end Data

end Synca
