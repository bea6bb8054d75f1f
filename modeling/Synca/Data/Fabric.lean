import Synca.Data.Ties
import Synca.Transition.Dataflow

/-!
# Networks of workers on channels

The workers of `Synca.Transition.Dataflow` with real channels for their queues: each call of `get`,
`put` and `close` is made on a channel, and the steps inside it interleave with those of the other
calls. A worker may put into several channels and close several, and has a memory.

Besides the workers there is one thread outside. It puts the values it is told to, and when it is
told so it closes a channel, after which it is told nothing any more.
-/

namespace Synca

namespace Data

open Transition

/-- Where a worker stands, or the thread outside. -/
inductive Place {ι : Type*} (T : ι → Type*) where
  /-- It puts values; when none is left, a worker is after the next item. -/
  | looping (rest : List (Σ c, T c))
  /-- In the call `g` of `get`. -/
  | getting (g : ℕ)
  /-- In the call `p` of `put`. -/
  | putting (v : Σ c, T c) (p : ℕ) (rest : List (Σ c, T c))
  /-- It closes channels. -/
  | leaving (cs : List ι)
  /-- In the call `p` of `close`. -/
  | closing (c : ι) (p : ℕ) (cs : List ι)
  | gone

variable {ι κ Ω : Type*} {T : ι → Type*} {σ : κ → Type*}

structure Fabric (node : ∀ k, Node T Ω (σ k)) where
  chan : ∀ c, Channel (T c) := fun _ => {}
  /-- The workers, and the thread outside as `none`. -/
  post : Option κ → Place T := fun _ => .looping []
  mem : ∀ k, σ k
  /-- What the thread outside was told to put. -/
  feeds : List (Σ c, T c) := []
  runs : List (Transition.Run node) := []

namespace Fabric

inductive Action (κ Ω : Type*) {ι : Type*} (T : ι → Type*) where
  | get (k : κ) (g : ℕ)
  /-- `get` has returned a value, and the worker processes it. -/
  | apply (k : κ) (x : Ω)
  /-- `get` has returned `false`. -/
  | leave (k : κ)
  | put (o : Option κ) (p : ℕ)
  | putDone (o : Option κ)
  | close (o : Option κ) (p : ℕ)
  | closeDone (o : Option κ)
  | quit (k : κ)
  /-- The thread outside is told to put a value. -/
  | feed (v : Σ c, T c)
  /-- It is told to close a channel. -/
  | shut (c : ι)
  /-- A step inside a call on a channel. -/
  | channel (c : ι) (a : Channel.Action (T c))

variable [DecidableEq ι] [DecidableEq κ] {node : ∀ k, Node T Ω (σ k)}

def setChan (s : Fabric node) (c : ι) (x : Channel (T c)) : Fabric node :=
  { s with chan := Function.update s.chan c x }

def setPost (s : Fabric node) (o : Option κ) (y : Place T) : Fabric node :=
  { s with post := Function.update s.post o y }

/-- A worker has made `outs` of an item. -/
def ran (s : Fabric node) (k : κ) (x : Ω) (v : T (node k).src) (outs : List (Σ c, T c))
    (m : σ k) : Fabric node :=
  { s.setPost (some k) (.looping outs) with
    mem  := Function.update s.mem k m
    runs := s.runs ++ [⟨k, x, v, outs⟩] }

def onChan (s : Fabric node) (c : ι) (a : Channel.Action (T c)) : Option (Fabric node) :=
  (Channel.step (s.chan c) a).map (s.setChan c)

/-- The journeys of the workers have the numbers `journey`. -/
def step (journey : κ → ℕ) (s : Fabric node) : Action κ Ω T → Option (Fabric node)
  | .get k g =>
    match s.post (some k) with
    | .looping [] => (s.onChan (node k).src (.make g (.get (journey k)))).map
      (·.setPost (some k) (.getting g))
    | _           => none
  | .apply k x =>
    match s.post (some k) with
    | .getting g =>
      match (s.chan (node k).src).call g, (s.chan (node k).src).dest g with
      | .returned true, some v =>
        some (s.ran k x v ((node k).call x (s.mem k) v).1 ((node k).call x (s.mem k) v).2)
      | _, _ => none
    | _          => none
  | .leave k =>
    match s.post (some k) with
    | .getting g =>
      match (s.chan (node k).src).call g with
      | .returned false => some (s.setPost (some k) (.leaving (node k).shuts))
      | _               => none
    | _          => none
  | .put o p =>
    match s.post o with
    | .looping (v :: rest) =>
      (s.onChan v.1 (.make p (.put v.2))).map (·.setPost o (.putting v p rest))
    | _                    => none
  | .putDone o =>
    match s.post o with
    | .putting v p rest =>
      match (s.chan v.1).call p with
      | .done => some (s.setPost o (.looping rest))
      | _     => none
    | _                 => none
  | .close o p =>
    match s.post o with
    | .leaving (c :: cs) => (s.onChan c (.make p .closing)).map (·.setPost o (.closing c p cs))
    | _                  => none
  | .closeDone o =>
    match s.post o with
    | .closing c p cs =>
      match (s.chan c).call p with
      | .done => some (s.setPost o (.leaving cs))
      | _     => none
    | _               => none
  | .quit k =>
    match s.post (some k) with
    | .leaving [] => some (s.setPost (some k) .gone)
    | _           => none
  | .feed v =>
    match s.post none with
    | .looping [] => some { s.setPost none (.looping [v]) with feeds := s.feeds ++ [v] }
    | _           => none
  | .shut c =>
    match s.post none with
    | .looping [] => some (s.setPost none (.leaving [c]))
    | _           => none
  | .channel c a => if internal a then s.onChan c a else none

/-- The workers start with the memories `m`. -/
def machine (node : ∀ k, Node T Ω (σ k)) (journey : κ → ℕ) (m : ∀ k, σ k) :
    Machine (Fabric node) (Action κ Ω T) where
  init s := s = { mem := m }
  step   := step journey

/-- The step function as rules. -/
inductive Rule (journey : κ → ℕ) (s : Fabric node) : Action κ Ω T → Fabric node → Prop where
  | get (k : κ) (g : ℕ) (hk : s.post (some k) = .looping [])
      (hg : (s.chan (node k).src).call g = .idle) :
      Rule journey s (.get k g) ((s.setChan (node k).src
        ((s.chan (node k).src).make g (.get (journey k)))).setPost (some k) (.getting g))
  | apply (k : κ) (x : Ω) (g : ℕ) (v : T (node k).src) (hk : s.post (some k) = .getting g)
      (hg : (s.chan (node k).src).call g = .returned true)
      (hv : (s.chan (node k).src).dest g = some v) :
      Rule journey s (.apply k x)
        (s.ran k x v ((node k).call x (s.mem k) v).1 ((node k).call x (s.mem k) v).2)
  | leave (k : κ) (g : ℕ) (hk : s.post (some k) = .getting g)
      (hg : (s.chan (node k).src).call g = .returned false) :
      Rule journey s (.leave k) (s.setPost (some k) (.leaving (node k).shuts))
  | put (o : Option κ) (p : ℕ) (v : Σ c, T c) (rest : List (Σ c, T c))
      (ho : s.post o = .looping (v :: rest)) (hp : (s.chan v.1).call p = .idle) :
      Rule journey s (.put o p)
        ((s.setChan v.1 ((s.chan v.1).make p (.put v.2))).setPost o (.putting v p rest))
  | putDone (o : Option κ) (v : Σ c, T c) (p : ℕ) (rest : List (Σ c, T c))
      (ho : s.post o = .putting v p rest) (hp : (s.chan v.1).call p = .done) :
      Rule journey s (.putDone o) (s.setPost o (.looping rest))
  | close (o : Option κ) (p : ℕ) (c : ι) (cs : List ι) (ho : s.post o = .leaving (c :: cs))
      (hp : (s.chan c).call p = .idle) :
      Rule journey s (.close o p)
        ((s.setChan c ((s.chan c).make p .closing)).setPost o (.closing c p cs))
  | closeDone (o : Option κ) (c : ι) (p : ℕ) (cs : List ι) (ho : s.post o = .closing c p cs)
      (hp : (s.chan c).call p = .done) : Rule journey s (.closeDone o) (s.setPost o (.leaving cs))
  | quit (k : κ) (hk : s.post (some k) = .leaving []) :
      Rule journey s (.quit k) (s.setPost (some k) .gone)
  | feed (v : Σ c, T c) (ho : s.post none = .looping []) :
      Rule journey s (.feed v) { s.setPost none (.looping [v]) with feeds := s.feeds ++ [v] }
  | shut (c : ι) (ho : s.post none = .looping []) :
      Rule journey s (.shut c) (s.setPost none (.leaving [c]))
  | channel (c : ι) (a : Channel.Action (T c)) (x : Channel (T c)) (ha : internal a = true)
      (hx : Channel.step (s.chan c) a = some x) : Rule journey s (.channel c a) (s.setChan c x)

variable {journey : κ → ℕ} {s s' : Fabric node} {a : Action κ Ω T}

omit [DecidableEq κ] in
lemma onChan_make {c : ι} {g : ℕ} {r : Request (T c)} (h : s.onChan c (.make g r) = some s') :
    (s.chan c).call g = .idle ∧ s' = s.setChan c ((s.chan c).make g r) := by
  obtain ⟨x, hx, rfl⟩ := Option.map_eq_some_iff.mp h
  simp only [Channel.step] at hx
  split at hx <;> cases hx
  exact ⟨‹_›, rfl⟩

lemma Rule.of_step (h : step journey s a = some s') : Rule journey s a s' := by
  cases a with
  | get k g =>
    simp only [step] at h
    split at h
    case h_2 => cases h
    obtain ⟨u, hu, rfl⟩ := Option.map_eq_some_iff.mp h
    obtain ⟨hg, rfl⟩ := onChan_make hu
    exact .get k g ‹_› hg
  | apply k x =>
    simp only [step] at h
    split at h
    case h_2 => cases h
    split at h <;> cases h
    exact .apply k x _ _ ‹_› ‹_› ‹_›
  | leave k =>
    simp only [step] at h
    split at h
    case h_2 => cases h
    split at h <;> cases h
    exact .leave k _ ‹_› ‹_›
  | put o p =>
    simp only [step] at h
    split at h
    case h_2 => cases h
    obtain ⟨u, hu, rfl⟩ := Option.map_eq_some_iff.mp h
    obtain ⟨hp, rfl⟩ := onChan_make hu
    exact .put o p _ _ ‹_› hp
  | putDone o =>
    simp only [step] at h
    split at h
    case h_2 => cases h
    split at h <;> cases h
    exact .putDone o _ _ _ ‹_› ‹_›
  | close o p =>
    simp only [step] at h
    split at h
    case h_2 => cases h
    obtain ⟨u, hu, rfl⟩ := Option.map_eq_some_iff.mp h
    obtain ⟨hp, rfl⟩ := onChan_make hu
    exact .close o p _ _ ‹_› hp
  | closeDone o =>
    simp only [step] at h
    split at h
    case h_2 => cases h
    split at h <;> cases h
    exact .closeDone o _ _ _ ‹_› ‹_›
  | quit k =>
    simp only [step] at h
    split at h <;> cases h
    exact .quit k ‹_›
  | feed v =>
    simp only [step] at h
    split at h <;> cases h
    exact .feed v ‹_›
  | shut c =>
    simp only [step] at h
    split at h <;> cases h
    exact .shut c ‹_›
  | channel c b =>
    simp only [step] at h
    split_ifs at h with hb
    obtain ⟨x, hx, rfl⟩ := Option.map_eq_some_iff.mp h
    exact .channel c b x hb hx

omit [DecidableEq κ] in
@[simp] lemma chan_setChan (s : Fabric node) (c : ι) (x : Channel (T c)) :
    (s.setChan c x).chan c = x := by
  simp [setChan]

omit [DecidableEq ι] in
@[simp] lemma post_setPost (s : Fabric node) (o : Option κ) (y : Place T) :
    (s.setPost o y).post o = y := by
  simp [setPost]

/-- What a step does to a channel. -/
inductive Touch (s s' : Fabric node) (a : Action κ Ω T) (c : ι) : Prop where
  | same (h : s'.chan c = s.chan c)
  | make (g : ℕ) (r : Request (T c)) (hg : (s.chan c).call g = .idle) (hr : r ≠ .opening)
      (h : s'.chan c = (s.chan c).make g r)
  | inside (b : Channel.Action (T c)) (ha : a = .channel c b) (hb : internal b = true)
      (h : Channel.step (s.chan c) b = some (s'.chan c))

omit [DecidableEq κ] in
lemma Touch.of_make {c : ι} {g : ℕ} {r : Request (T c)} (hg : (s.chan c).call g = .idle)
    (hr : r ≠ .opening) (h : s'.chan = Function.update s.chan c ((s.chan c).make g r)) (e : ι) :
    Touch s s' a e := by
  rcases eq_or_ne e c with rfl | he
  · exact .make g r hg hr (by rw [h, Function.update_self])
  · exact .same (by rw [h, Function.update_of_ne he])

lemma touch_of_step (h : step journey s a = some s') (e : ι) : Touch s s' a e := by
  cases Rule.of_step h with
  | get k g hk hg => exact .of_make hg (by simp) rfl e
  | put o p v rest ho hp => exact .of_make hp (by simp) rfl e
  | close o p c cs ho hp => exact .of_make hp (by simp) rfl e
  | channel c b x hb hx =>
    rcases eq_or_ne e c with rfl | he
    · exact .inside b rfl hb (by rwa [chan_setChan])
    · exact .same (Function.update_of_ne he _ _)
  | _ => exact .same rfl

end Fabric

end Data

end Synca
