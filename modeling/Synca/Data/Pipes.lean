import Synca.Channel.Lane

/-!
# Pipelines

The stages of `data.h` on channels, each stage with the workers that `piping` makes by `goN`. A
worker iterates the source, puts what `f` makes of each value into the destination, and closes the
destination when it leaves: `Closer`. The calls of one worker follow each other; those of different
workers interleave, and so do the steps inside them, which are the steps of the channels.

Outside the workers there are the producers, who put values into channels, and the thread that
closes one channel, `c₀`, after they have finished, and waits: `closeAndWait`.

The type `T` has the values of all channels. The type `Ω` is what `f` sees besides its argument.
-/

namespace Synca

namespace Data

open Transition

/-- What a part of the body of a loop does: the values that it puts into the destination, one after
another, and how it ends. An exception is a `std::exception`, with its `what()`. -/
structure Puts (T α : Type*) where
  puts : List T
  result : Except String α

namespace Puts

variable {T α β : Type*}

def put (v : T) : Puts T Unit := ⟨[v], .ok ()⟩

/-- A call of `f` that does not see the destination. -/
def call (r : Except String α) : Puts T α := ⟨[], r⟩

/-- One part after the other; an exception of the first leaves out the second. -/
def bind (x : Puts T α) (k : α → Puts T β) : Puts T β :=
  match x.result with
  | .ok a    => ⟨x.puts ++ (k a).puts, (k a).result⟩
  | .error e => ⟨x.puts, .error e⟩

/-- `try` with the `catch` that writes a log. -/
def catching (x : Puts T Unit) : Puts T Unit :=
  match x.result with
  | .ok u    => ⟨x.puts, .ok u⟩
  | .error _ => ⟨x.puts, .ok ()⟩

end Puts

/-- The three templates of a loop over the source. -/
inductive Body (Ω T : Type*) where
  | oneToMany (f : Ω → T → Puts T Unit)
  | oneToOne (f : Ω → T → Except String T)
  | oneTo01 (isEmpty : T → Bool) (f : Ω → T → Except String T)

namespace Body

variable {Ω T : Type*}

/-- The body of the loop. -/
def loop : Body Ω T → Ω → T → Puts T Unit
  | .oneToMany f, x, v => .catching (f x v)
  | .oneToOne f, x, v => .catching ((Puts.call (f x v)).bind .put)
  | .oneTo01 isEmpty f, x, v => .catching ((Puts.call (f x v)).bind fun r =>
    if !isEmpty r then .put r else .call (.ok ()))

/-- The values put into the destination for a value of the source. -/
def outputs (b : Body Ω T) (x : Ω) (v : T) : List T := (b.loop x v).puts

/-- The loop goes on after every value. -/
lemma result_loop (b : Body Ω T) (x : Ω) (v : T) : (b.loop x v).result = .ok () := by
  have key : ∀ y : Puts T Unit, y.catching.result = .ok () := by
    intro y
    unfold Puts.catching
    split <;> rfl
  cases b <;> exact key _

end Body

structure Stage (ι Ω T : Type*) where
  src : ι
  /-- The channel that is put into and closed; none, if the journey only consumes. -/
  dst : Option ι
  n : ℕ
  outputs : Ω → T → List T

section

variable {ι Ω T : Type*}

def piping (s d : ι) (f : Body Ω T) (n : ℕ) : Stage ι Ω T := ⟨s, some d, n, f.outputs⟩

def piping1toMany (s d : ι) (f : Ω → T → Puts T Unit) (n : ℕ) : Stage ι Ω T :=
  piping s d (.oneToMany f) n

def piping1to1 (s d : ι) (f : Ω → T → Except String T) (n : ℕ) : Stage ι Ω T :=
  piping s d (.oneToOne f) n

def piping1to01 (isEmpty : T → Bool) (s d : ι) (f : Ω → T → Except String T) (n : ℕ) :
    Stage ι Ω T :=
  piping s d (.oneTo01 isEmpty f) n

/-- One journey that iterates a channel from begin to end. -/
def consumer (s : ι) : Stage ι Ω T := ⟨s, none, 1, fun _ _ => []⟩

end

/-- `goN`. -/
inductive GoN where
  | before
  /-- The loop of its journey, with the next `i`. -/
  | looping (i : ℕ)
  | made
  deriving DecidableEq, Repr

/-- The program counter of a worker. -/
inductive Pc (T : Type*) where
  | unborn
  /-- In the loop, with what is still to be put for the value at hand. -/
  | looping (rest : List T)
  /-- In `Iterator::operator++`, in the call `g` of `get`. -/
  | getting (g : ℕ)
  /-- In the call `p` of `put`. -/
  | putting (p : ℕ) (rest : List T)
  /-- Out of the loop; the destructor of `Closer` is next. -/
  | leaving
  /-- In the call `p` of `close`. -/
  | closing (p : ℕ)
  | done
  deriving DecidableEq, Repr

structure Worker (T : Type*) where
  /-- Its journey. -/
  journey : ℕ := 0
  pc : Pc T := .unborn

/-- The producers and the thread in `closeAndWait`. -/
inductive Outside where
  /-- Before the first `tp.wait()` has returned. -/
  | feeding
  /-- `c.close()` is next. -/
  | closing
  /-- In the call `p` of `close`. -/
  | shutting (p : ℕ)
  /-- In the second `tp.wait()`. -/
  | waiting
  | returned
  deriving DecidableEq, Repr

/-- A call of `f`: the worker, the value and the outputs. -/
structure Run (κ T : Type*) where
  worker : κ × ℕ
  value : T
  outs : List T
  deriving DecidableEq, Repr

structure Pipes (ι κ T : Type*) where
  chan : ι → Channel T := fun _ => {}
  goN : κ → GoN := fun _ => .before
  worker : κ × ℕ → Worker T := fun _ => {}
  /-- Journeys of workers made. -/
  journeys : ℕ := 0
  outside : Outside := .feeding
  /-- Calls of `f`, in order. -/
  runs : List (Run κ T) := []

namespace Pipes

variable {ι κ Ω T : Type*}

inductive Action (ι κ Ω T : Type*) where
  /-- `piping` is called for a stage. -/
  | piping (i : κ)
  /-- A turn of the loop of `goN`. -/
  | go (i : κ)
  /-- A worker calls `get`. -/
  | get (w : κ × ℕ) (g : ℕ)
  /-- `get` has returned a value, and `f` is called. -/
  | apply (w : κ × ℕ) (x : Ω)
  /-- `get` has returned `false`. -/
  | leave (w : κ × ℕ)
  | put (w : κ × ℕ) (p : ℕ)
  | putDone (w : κ × ℕ)
  /-- The destructor of `Closer` calls `close`. -/
  | close (w : κ × ℕ) (p : ℕ)
  | exit (w : κ × ℕ)
  /-- A step inside a call on a channel. -/
  | channel (c : ι) (a : Channel.Action T)
  /-- A producer calls `put`. -/
  | feed (c : ι) (p : ℕ) (v : T)
  /-- The producers have finished; the first `tp.wait()` returns. -/
  | finish
  | shut (p : ℕ)
  | shutDone
  /-- The second `tp.wait()` returns. -/
  | wait

def pc (s : Pipes ι κ T) (w : κ × ℕ) : Pc T := (s.worker w).pc

variable [DecidableEq ι] [DecidableEq κ]

def setChan (s : Pipes ι κ T) (c : ι) (x : Channel T) : Pipes ι κ T :=
  { s with chan := Function.update s.chan c x }

def setPc (s : Pipes ι κ T) (w : κ × ℕ) (pc : Pc T) : Pipes ι κ T :=
  { s with worker := Function.update s.worker w { s.worker w with pc := pc } }

def setGoN (s : Pipes ι κ T) (i : κ) (x : GoN) : Pipes ι κ T :=
  { s with goN := Function.update s.goN i x }

/-- `go` makes a worker. -/
def create (s : Pipes ι κ T) (w : κ × ℕ) : Pipes ι κ T :=
  { s with
    worker   := Function.update s.worker w ⟨s.journeys, .looping []⟩
    journeys := s.journeys + 1 }

/-- A worker has called `f`. -/
def call (s : Pipes ι κ T) (w : κ × ℕ) (v : T) (outs : List T) : Pipes ι κ T :=
  { s.setPc w (.looping outs) with runs := s.runs ++ [⟨w, v, outs⟩] }

/-- A step on one channel. -/
def onChan (s : Pipes ι κ T) (c : ι) (a : Channel.Action T) : Option (Pipes ι κ T) :=
  (Channel.step (s.chan c) a).map (s.setChan c)

end Pipes

/-- The steps inside a call. -/
def internal {T : Type*} : Channel.Action T → Bool
  | .make _ _ | .set _ _ | .allow _ _ => false
  | _ => true

section

variable {ι κ Ω T : Type*} [DecidableEq ι] [DecidableEq κ] (stage : κ → Stage ι Ω T) (c₀ : ι)

open Pipes

def step (s : Pipes ι κ T) : Action ι κ Ω T → Option (Pipes ι κ T)
  | .piping i =>
    match s.goN i with
    | .before =>
      some (if (stage i).n = 1 then (s.create (i, 0)).setGoN i .made else s.setGoN i (.looping 0))
    | _ => none
  | .go i =>
    match s.goN i with
    | .looping m =>
      some (if m < (stage i).n then (s.create (i, m)).setGoN i (.looping (m + 1))
        else s.setGoN i .made)
    | _ => none
  | .get w g =>
    match s.pc w with
    | .looping [] =>
      (s.onChan (stage w.1).src (.make g (.get (s.worker w).journey))).map (·.setPc w (.getting g))
    | _ => none
  | .apply w x =>
    match s.pc w with
    | .getting g =>
      match (s.chan (stage w.1).src).call g, (s.chan (stage w.1).src).dest g with
      | .returned true, some v => some (s.call w v ((stage w.1).outputs x v))
      | _, _ => none
    | _ => none
  | .leave w =>
    match s.pc w with
    | .getting g =>
      match (s.chan (stage w.1).src).call g with
      | .returned false => some (s.setPc w (if (stage w.1).dst.isSome then .leaving else .done))
      | _ => none
    | _ => none
  | .put w p =>
    match s.pc w, (stage w.1).dst with
    | .looping (v :: rest), some d =>
      (s.onChan d (.make p (.put v))).map (·.setPc w (.putting p rest))
    | _, _ => none
  | .putDone w =>
    match s.pc w, (stage w.1).dst with
    | .putting p rest, some d =>
      match (s.chan d).call p with
      | .done => some (s.setPc w (.looping rest))
      | _     => none
    | _, _ => none
  | .close w p =>
    match s.pc w, (stage w.1).dst with
    | .leaving, some d => (s.onChan d (.make p .closing)).map (·.setPc w (.closing p))
    | _, _ => none
  | .exit w =>
    match s.pc w, (stage w.1).dst with
    | .closing p, some d =>
      match (s.chan d).call p with
      | .done => some (s.setPc w .done)
      | _     => none
    | _, _ => none
  | .channel c a => if internal a then s.onChan c a else none
  | .feed c p v =>
    match s.outside with
    | .feeding => s.onChan c (.make p (.put v))
    | _        => none
  | .finish =>
    match s.outside with
    | .feeding => some { s with outside := .closing }
    | _        => none
  | .shut p =>
    match s.outside with
    | .closing =>
      (s.onChan c₀ (.make p .closing)).map fun s => { s with outside := .shutting p }
    | _ => none
  | .shutDone =>
    match s.outside with
    | .shutting p =>
      match (s.chan c₀).call p with
      | .done => some { s with outside := .waiting }
      | _     => none
    | _ => none
  | .wait =>
    match s.outside with
    | .waiting => some { s with outside := .returned }
    | _        => none

/-- The pipelines of the stages, with the channel `c₀` closed from outside. -/
def machine : Machine (Pipes ι κ T) (Action ι κ Ω T) where
  init s := s = {}
  step   := step stage c₀

/-! ### Rules -/

/-- The step function as rules, one for each way a step can go. -/
inductive Rule (s : Pipes ι κ T) : Action ι κ Ω T → Pipes ι κ T → Prop where
  | pipingOne (i : κ) (hi : s.goN i = .before) (hn : (stage i).n = 1) :
      Rule s (.piping i) ((s.create (i, 0)).setGoN i .made)
  | pipingMany (i : κ) (hi : s.goN i = .before) (hn : (stage i).n ≠ 1) :
      Rule s (.piping i) (s.setGoN i (.looping 0))
  | go (i : κ) (m : ℕ) (hi : s.goN i = .looping m) (hm : m < (stage i).n) :
      Rule s (.go i) ((s.create (i, m)).setGoN i (.looping (m + 1)))
  | goEnd (i : κ) (m : ℕ) (hi : s.goN i = .looping m) (hm : ¬ m < (stage i).n) :
      Rule s (.go i) (s.setGoN i .made)
  | get (w : κ × ℕ) (g : ℕ) (hw : s.pc w = .looping [])
      (hg : (s.chan (stage w.1).src).call g = .idle) :
      Rule s (.get w g) ((s.setChan (stage w.1).src
        ((s.chan (stage w.1).src).make g (.get (s.worker w).journey))).setPc w (.getting g))
  | apply (w : κ × ℕ) (x : Ω) (g : ℕ) (v : T) (hw : s.pc w = .getting g)
      (hg : (s.chan (stage w.1).src).call g = .returned true)
      (hv : (s.chan (stage w.1).src).dest g = some v) :
      Rule s (.apply w x) (s.call w v ((stage w.1).outputs x v))
  | leave (w : κ × ℕ) (g : ℕ) (hw : s.pc w = .getting g)
      (hg : (s.chan (stage w.1).src).call g = .returned false) :
      Rule s (.leave w) (s.setPc w (if (stage w.1).dst.isSome then .leaving else .done))
  | put (w : κ × ℕ) (p : ℕ) (d : ι) (v : T) (rest : List T) (hw : s.pc w = .looping (v :: rest))
      (hd : (stage w.1).dst = some d) (hp : (s.chan d).call p = .idle) :
      Rule s (.put w p)
        ((s.setChan d ((s.chan d).make p (.put v))).setPc w (.putting p rest))
  | putDone (w : κ × ℕ) (p : ℕ) (d : ι) (rest : List T) (hw : s.pc w = .putting p rest)
      (hd : (stage w.1).dst = some d) (hp : (s.chan d).call p = .done) :
      Rule s (.putDone w) (s.setPc w (.looping rest))
  | close (w : κ × ℕ) (p : ℕ) (d : ι) (hw : s.pc w = .leaving) (hd : (stage w.1).dst = some d)
      (hp : (s.chan d).call p = .idle) :
      Rule s (.close w p)
        ((s.setChan d ((s.chan d).make p .closing)).setPc w (.closing p))
  | exit (w : κ × ℕ) (p : ℕ) (d : ι) (hw : s.pc w = .closing p) (hd : (stage w.1).dst = some d)
      (hp : (s.chan d).call p = .done) : Rule s (.exit w) (s.setPc w .done)
  | channel (c : ι) (a : Channel.Action T) (x : Channel T) (ha : internal a = true)
      (hx : Channel.step (s.chan c) a = some x) : Rule s (.channel c a) (s.setChan c x)
  | feed (c : ι) (p : ℕ) (v : T) (ho : s.outside = .feeding) (hp : (s.chan c).call p = .idle) :
      Rule s (.feed c p v) (s.setChan c ((s.chan c).make p (.put v)))
  | finish (ho : s.outside = .feeding) : Rule s .finish { s with outside := .closing }
  | shut (p : ℕ) (ho : s.outside = .closing) (hp : (s.chan c₀).call p = .idle) :
      Rule s (.shut p)
        { s.setChan c₀ ((s.chan c₀).make p .closing) with outside := .shutting p }
  | shutDone (p : ℕ) (ho : s.outside = .shutting p) (hp : (s.chan c₀).call p = .done) :
      Rule s .shutDone { s with outside := .waiting }
  | wait (ho : s.outside = .waiting) : Rule s .wait { s with outside := .returned }

variable {stage c₀}

omit [DecidableEq κ] in
lemma onChan_make {s s' : Pipes ι κ T} {c : ι} {g : ℕ} {r : Request T}
    (h : s.onChan c (.make g r) = some s') :
    (s.chan c).call g = .idle ∧ s' = s.setChan c ((s.chan c).make g r) := by
  obtain ⟨x, hx, rfl⟩ := Option.map_eq_some_iff.mp h
  simp only [Channel.step] at hx
  split at hx <;> cases hx
  exact ⟨‹_›, rfl⟩

lemma Rule.of_step {s s' : Pipes ι κ T} {a : Action ι κ Ω T} (h : step stage c₀ s a = some s') :
    Rule stage c₀ s a s' := by
  cases a with
  | piping i =>
    simp only [step] at h
    split at h <;> cases h
    split_ifs with hn
    · exact .pipingOne i ‹_› hn
    · exact .pipingMany i ‹_› hn
  | go i =>
    simp only [step] at h
    split at h <;> cases h
    split_ifs with hm
    · exact .go i _ ‹_› hm
    · exact .goEnd i _ ‹_› hm
  | get w g =>
    simp only [step] at h
    split at h
    case h_2 => cases h
    obtain ⟨u, hu, rfl⟩ := Option.map_eq_some_iff.mp h
    obtain ⟨hg, rfl⟩ := onChan_make hu
    exact .get w g ‹_› hg
  | apply w x =>
    simp only [step] at h
    split at h
    case h_2 => cases h
    split at h <;> cases h
    exact .apply w x _ _ ‹_› ‹_› ‹_›
  | leave w =>
    simp only [step] at h
    split at h
    case h_2 => cases h
    split at h <;> cases h
    exact .leave w _ ‹_› ‹_›
  | put w p =>
    simp only [step] at h
    split at h
    case h_2 => cases h
    obtain ⟨u, hu, rfl⟩ := Option.map_eq_some_iff.mp h
    obtain ⟨hg, rfl⟩ := onChan_make hu
    exact .put w p _ _ _ ‹_› ‹_› hg
  | putDone w =>
    simp only [step] at h
    split at h
    case h_2 => cases h
    split at h <;> cases h
    exact .putDone w _ _ _ ‹_› ‹_› ‹_›
  | close w p =>
    simp only [step] at h
    split at h
    case h_2 => cases h
    obtain ⟨u, hu, rfl⟩ := Option.map_eq_some_iff.mp h
    obtain ⟨hg, rfl⟩ := onChan_make hu
    exact .close w p _ ‹_› ‹_› hg
  | exit w =>
    simp only [step] at h
    split at h
    case h_2 => cases h
    split at h <;> cases h
    exact .exit w _ _ ‹_› ‹_› ‹_›
  | channel c a =>
    simp only [step] at h
    split_ifs at h with ha
    obtain ⟨x, hx, rfl⟩ := Option.map_eq_some_iff.mp h
    exact .channel c a x ha hx
  | feed c p v =>
    simp only [step] at h
    split at h
    case h_2 => cases h
    obtain ⟨hp, rfl⟩ := onChan_make h
    exact .feed c p v ‹_› hp
  | finish =>
    simp only [step] at h
    split at h <;> cases h
    exact .finish ‹_›
  | shut p =>
    simp only [step] at h
    split at h
    case h_2 => cases h
    obtain ⟨u, hu, rfl⟩ := Option.map_eq_some_iff.mp h
    obtain ⟨hp, rfl⟩ := onChan_make hu
    exact .shut p ‹_› hp
  | shutDone =>
    simp only [step] at h
    split at h
    case h_2 => cases h
    split at h <;> cases h
    exact .shutDone _ ‹_› ‹_›
  | wait =>
    simp only [step] at h
    split at h <;> cases h
    exact .wait ‹_›

/-- No task is left: every stage has been made, a worker that has not left is suspended in `get`,
and no call of the outside is under way. -/
structure Pipes.Idle (stage : κ → Stage ι Ω T) (s : Pipes ι κ T) : Prop where
  made : ∀ i, s.goN i = .made
  workers : ∀ i m, m < (stage i).n → s.pc (i, m) = .done ∨
    ∃ g, s.pc (i, m) = .getting g ∧ (s.chan (stage i).src).call g = .suspended
  calls : ∀ c g, ((s.chan c).call g).AtRest

end

end Data

end Synca
