import Mathlib.Logic.Function.Basic
import Synca.Journey.Events
import Synca.Network.Frames
import Synca.Transition.Machine

/-!
# The client of the examples

`UI::handleKey` asks both caches at a time and goes on with the first value found, or else loads the
value from the network and writes it to both caches at a time, with its events disabled; then it
hands the value to the UI. Any number of requests may be under way. An event may be set on the
journey of a request at any time, by its goer or by a timer of a `Timeout`.

A call of a cache is one step, since each cache has a strand of its own; so is a call of the UI.
What an event does is up to where it is noticed. An exception in flight ends the request; one that
would leave the destructor of a `Portal`, a `Timeout` or an `EventsGuard` ends the program.

The children of `goAnyResult` have references to handlers that live in its call. A child that comes
to its handler after the call was left uses what is gone, and the program has no meaning.
-/

namespace Synca

abbrev Client.Str := List Hello.Byte

inductive Cache where
  | disk
  | mem
  deriving DecidableEq, Repr

instance (p : Cache → Prop) [DecidablePred p] : Decidable (∀ c, p c) :=
  decidable_of_iff (p .disk ∧ p .mem)
    ⟨fun h c => by cases c; exacts [h.1, h.2], fun h => ⟨h _, h _⟩⟩

namespace Client

/-- A child of `goAnyResult`. -/
inductive Child where
  | unmade
  /-- Its handler was not called yet. -/
  | apart
  /-- Its handler has returned. -/
  | has (res : Option Str)
  | over
  deriving DecidableEq, Repr

/-- Where the journey of a request stands in the handler of `handleKey`. -/
inductive Pos where
  | absent
  | fresh
  /-- In `goAnyResult`. -/
  | asking
  /-- The caches had nothing. The timer of the network and the portal are next. -/
  | missed
  /-- In `Network::get`. -/
  | loading
  /-- `get` has returned. The destructors of the portal and the timer are next. -/
  | loaded (val : Str)
  | unguarded (val : Str)
  /-- In `goWait`, with what its children have done. -/
  | storing (val : Str) (done : Cache → Bool)
  /-- The portal of the UI is next. -/
  | showing (val : Str)
  /-- `handleResult` was called. The destructors of the portal and of `t` are next. -/
  | shown
  | ended

structure Request where
  key : Str := []
  pos : Pos := .absent
  events : Events := {}
  child : Cache → Child := fun _ => .unmade
  /-- What `goAnyResult` proceeds with. -/
  answer : Option (Option Str) := none

/-- What others see of a request. -/
inductive Effect where
  /-- `Network::get` has returned. -/
  | got (val : Str)
  | stored (c : Cache) (val : Str)
  /-- `UI::handleResult` was called. -/
  | result (val : Str)
  deriving DecidableEq, Repr

inductive Outcome where
  | goes (r : Request) (e : Option Effect)
  /-- `std::terminate` is called. -/
  | terminates
  /-- A handler is used that is gone. -/
  | faults

/-- What the journey of a request or one of its children does next. -/
inductive Turn where
  /-- An event is set. -/
  | set (e : EventStatus)
  /-- `goAnyResult` is called. -/
  | ask
  /-- A child calls `get` of its cache. -/
  | look (c : Cache)
  /-- A child ends. -/
  | report (c : Cache)
  /-- `goAnyResult` goes on. -/
  | resume
  /-- The portal of the network is made. -/
  | enter
  | get (val : Str)
  /-- An exception leaves `get`. -/
  | fail
  | leave
  /-- The `EventsGuard` is made. -/
  | guard
  /-- A child calls `set` of its cache. -/
  | store (c : Cache)
  /-- `goWait` has returned; the `EventsGuard` is destroyed. -/
  | unguard
  /-- The portal of the UI is made and `handleResult` called. -/
  | handleResult
  | finish
  deriving DecidableEq, Repr

namespace Request

/-- Where events are looked for; an exception ends the request. -/
def pass (r : Request) (f : Events → Option EventException × Events) (next : Request)
    (e : Option Effect) : Outcome :=
  match f r.events with
  | (none, ev)   => .goes { next with events := ev } e
  | (some _, ev) => .goes { r with events := ev, pos := .ended } none

/-- The same in a destructor. -/
def leave (r : Request) (f : Events → Option EventException × Events) (next : Request) : Outcome :=
  match f r.events with
  | (none, ev)   => .goes { next with events := ev } none
  | (some _, _)  => .terminates

/-- `Counter::tryProceed`. -/
def tryProceed (r : Request) (res : Option Str) : Request :=
  if r.answer = none then { r with answer := some res } else r

def setChild (r : Request) (c : Cache) (x : Child) : Request :=
  { r with child := Function.update r.child c x }

/-- A child is done with its copy of the counter; the last one proceeds in the destructor. -/
def release (r : Request) (c : Cache) : Request :=
  if ∀ d, (r.setChild c .over).child d = .over then (r.setChild c .over).tryProceed none
  else r.setChild c .over

/-- What `get` of a cache returns; `found` is what the memory cache has for the key. -/
def lookup (found : Option Str) : Cache → Option Str
  | .disk => none
  | .mem  => found

def step (found : Option Str) (r : Request) : Turn → Option Outcome
  | .set e => match r.pos with
    | .absent => none
    | _       => some (.goes { r with events := { r.events with
        gr := (r.events.gr.setStatus0 e).2 } } none)
  | .ask => match r.pos with
    | .fresh => some (r.pass (·.handleEvents false)
        { r with pos := .asking, child := fun _ => .apart } none)
    | _      => none
  | .look c => match r.child c, r.pos with
    | .apart, .asking =>
      some (.goes (r.setChild c (.has (lookup found c))) none)
    | .apart, _       => some .faults
    | _,      _       => none
  | .report c => match r.child c with
    | .has (some val) => some (.goes ((r.tryProceed (some val)).release c) none)
    | .has none       => some (.goes (r.release c) none)
    | _               => none
  | .resume => match r.pos, r.answer with
    | .asking, some (some val) =>
      some (r.pass (·.handleEvents false) { r with pos := .showing val } none)
    | .asking, some none       =>
      some (r.pass (·.handleEvents false) { r with pos := .missed } none)
    | _,       _               => none
  | .enter => match r.pos with
    | .missed => some (r.pass (·.handleEvents false) { r with pos := .loading } none)
    | _       => none
  | .get val => match r.pos with
    | .loading => some (.goes { r with pos := .loaded val } (some (.got val)))
    | _        => none
  | .fail => match r.pos with
    | .loading => some (.goes { r with pos := .ended } none)
    | _        => none
  | .leave => match r.pos with
    | .loaded val => some (r.leave (·.handleEvents false) { r with pos := .unguarded val })
    | _           => none
  | .guard => match r.pos with
    | .unguarded val => some (r.pass (·.disableEvents false)
        { r with pos := .storing val fun _ => false } none)
    | _              => none
  | .store c => match r.pos with
    | .storing val done =>
      if done c then none
      else some (.goes { r with pos := .storing val (Function.update done c true) }
        (some (.stored c val)))
    | _                 => none
  | .unguard => match r.pos with
    | .storing val done =>
      if done .disk && done .mem then
        some (r.leave (·.enableEvents false) { r with pos := .showing val })
      else none
    | _                 => none
  | .handleResult => match r.pos with
    | .showing val =>
      some (r.pass (·.handleEvents false) { r with pos := .shown } (some (.result val)))
    | _            => none
  | .finish => match r.pos with
    | .shown => some (r.leave (·.handleEvents false) { r with pos := .ended })
    | _      => none

/-- The step function as rules. -/
inductive Rule (found : Option Str) (r : Request) : Turn → Outcome → Prop where
  | set (e : EventStatus) (hp : r.pos ≠ .absent) : Rule found r (.set e)
      (.goes { r with events := { r.events with gr := (r.events.gr.setStatus0 e).2 } } none)
  /-- An exception ends the request; it does not write to the caches. -/
  | thrown (a : Turn) (ev : Events) (hp : r.pos ≠ .absent) (hs : ∀ v d, r.pos ≠ .storing v d) :
      Rule found r a (.goes { r with events := ev, pos := .ended } none)
  | terminates (a : Turn) : Rule found r a .terminates
  | faults (c : Cache) (hc : r.child c = .apart) (hp : r.pos ≠ .asking) :
      Rule found r (.look c) .faults
  | ask (ev : Events) (hp : r.pos = .fresh) : Rule found r .ask
      (.goes { r with events := ev, pos := .asking, child := fun _ => .apart } none)
  | look (c : Cache) (hc : r.child c = .apart) (hp : r.pos = .asking) : Rule found r (.look c)
      (.goes (r.setChild c (.has (lookup found c))) none)
  | report (c : Cache) (val : Str) (hc : r.child c = .has (some val)) : Rule found r (.report c)
      (.goes ((r.tryProceed (some val)).release c) none)
  | reportNone (c : Cache) (hc : r.child c = .has none) : Rule found r (.report c)
      (.goes (r.release c) none)
  | resume (ev : Events) (val : Str) (hp : r.pos = .asking) (ha : r.answer = some (some val)) :
      Rule found r .resume (.goes { r with events := ev, pos := .showing val } none)
  | miss (ev : Events) (hp : r.pos = .asking) (ha : r.answer = some none) :
      Rule found r .resume (.goes { r with events := ev, pos := .missed } none)
  | enter (ev : Events) (hp : r.pos = .missed) :
      Rule found r .enter (.goes { r with events := ev, pos := .loading } none)
  | get (val : Str) (hp : r.pos = .loading) :
      Rule found r (.get val) (.goes { r with pos := .loaded val } (some (.got val)))
  | leave (ev : Events) (val : Str) (hp : r.pos = .loaded val) :
      Rule found r .leave (.goes { r with events := ev, pos := .unguarded val } none)
  | guard (ev : Events) (val : Str) (hp : r.pos = .unguarded val) : Rule found r .guard
      (.goes { r with events := ev, pos := .storing val fun _ => false } none)
  | store (c : Cache) (val : Str) (done : Cache → Bool) (hp : r.pos = .storing val done)
      (hc : done c = false) : Rule found r (.store c)
      (.goes { r with pos := .storing val (Function.update done c true) } (some (.stored c val)))
  | unguard (ev : Events) (val : Str) (done : Cache → Bool) (hp : r.pos = .storing val done)
      (hd : done .disk = true) (hm : done .mem = true) :
      Rule found r .unguard (.goes { r with events := ev, pos := .showing val } none)
  | handleResult (ev : Events) (val : Str) (hp : r.pos = .showing val) :
      Rule found r .handleResult
      (.goes { r with events := ev, pos := .shown } (some (.result val)))
  | finish (ev : Events) (hp : r.pos = .shown) :
      Rule found r .finish (.goes { r with events := ev, pos := .ended } none)

lemma rule_pass {found : Option Str} {r next : Request} {a : Turn}
    {f : Events → Option EventException × Events} {e : Option Effect} (hp : r.pos ≠ .absent)
    (hs : ∀ v d, r.pos ≠ .storing v d)
    (hnext : ∀ ev, Rule found r a (.goes { next with events := ev } e)) :
    Rule found r a (r.pass f next e) := by
  unfold pass
  split
  · exact hnext _
  · exact .thrown a _ hp hs

lemma rule_leave {found : Option Str} {r next : Request} {a : Turn}
    {f : Events → Option EventException × Events}
    (hnext : ∀ ev, Rule found r a (.goes { next with events := ev } none)) :
    Rule found r a (r.leave f next) := by
  unfold leave
  split
  · exact hnext _
  · exact .terminates a

lemma rule_of_step {found : Option Str} {r : Request} {a : Turn} {o : Outcome}
    (h : r.step found a = some o) : Rule found r a o := by
  cases a with
  | set e =>
    simp only [step] at h
    split at h <;> cases h
    exact .set e ‹_›
  | ask =>
    simp only [step] at h
    split at h <;> cases h
    next hp => exact rule_pass (by simp [hp]) (by simp [hp]) fun ev => .ask ev hp
  | look c =>
    simp only [step] at h
    split at h <;> cases h
    next hc hp => exact .look c hc hp
    next hc hp => exact .faults c hc hp
  | report c =>
    simp only [step] at h
    split at h <;> cases h
    next val hc => exact .report c val hc
    next hc => exact .reportNone c hc
  | resume =>
    simp only [step] at h
    split at h <;> cases h
    next val hp ha => exact rule_pass (by simp [hp]) (by simp [hp]) fun ev => .resume ev val hp ha
    next hp ha => exact rule_pass (by simp [hp]) (by simp [hp]) fun ev => .miss ev hp ha
  | enter =>
    simp only [step] at h
    split at h <;> cases h
    next hp => exact rule_pass (by simp [hp]) (by simp [hp]) fun ev => .enter ev hp
  | get val =>
    simp only [step] at h
    split at h <;> cases h
    next hp => exact .get val hp
  | fail =>
    simp only [step] at h
    split at h <;> cases h
    next hp => exact .thrown .fail r.events (by simp [hp]) (by simp [hp])
  | leave =>
    simp only [step] at h
    split at h <;> cases h
    next val hp => exact rule_leave fun ev => .leave ev val hp
  | guard =>
    simp only [step] at h
    split at h <;> cases h
    next val hp => exact rule_pass (by simp [hp]) (by simp [hp]) fun ev => .guard ev val hp
  | store c =>
    simp only [step] at h
    split at h
    case h_2 => cases h
    next val done hp =>
      split_ifs at h with hc
      cases h
      exact .store c val done hp (by simpa using hc)
  | unguard =>
    simp only [step] at h
    split at h
    case h_2 => cases h
    next val done hp =>
      split_ifs at h with hd
      cases h
      obtain ⟨hd, hm⟩ := Bool.and_eq_true_iff.mp hd
      exact rule_leave fun ev => .unguard ev val done hp hd hm
  | handleResult =>
    simp only [step] at h
    split at h <;> cases h
    next val hp => exact rule_pass (by simp [hp]) (by simp [hp]) fun ev => .handleResult ev val hp
  | finish =>
    simp only [step] at h
    split at h <;> cases h
    next hp => exact rule_leave fun ev => .finish ev hp

end Request

/-- An effect of a request. -/
structure Entry where
  request : ℕ
  key : Str
  effect : Effect
  deriving DecidableEq, Repr

inductive Action where
  | handleKey (key : Str)
  | act (i : ℕ) (a : Turn)
  deriving DecidableEq, Repr

end Client

structure Client where
  request : ℕ → Client.Request := fun _ => {}
  requests : ℕ := 0
  /-- `MemCache::map`. -/
  map : Client.Str → Option Client.Str := fun _ => none
  log : List Client.Entry := []
  /-- The program has ended, or has no meaning any more. -/
  stopped : Bool := false

namespace Client

def setRequest (s : Client) (i : ℕ) (r : Request) : Client :=
  { s with request := Function.update s.request i r }

/-- The effects of request `i`. -/
def effect (s : Client) (i : ℕ) (e : Effect) : Client :=
  { s with
    log := s.log ++ [⟨i, (s.request i).key, e⟩]
    map := match e with
      | .stored .mem val => Function.update s.map (s.request i).key (some val)
      | _                => s.map }

def after (s : Client) (i : ℕ) : Outcome → Client
  | .goes r (some e) => (s.setRequest i r).effect i e
  | .goes r none     => s.setRequest i r
  | .terminates      => { s with stopped := true }
  | .faults          => { s with stopped := true }

def step (s : Client) : Action → Option Client
  | .handleKey key =>
    if s.stopped then none
    else some { s.setRequest s.requests { key := key, pos := .fresh } with
      requests := s.requests + 1 }
  | .act i a =>
    if s.stopped then none
    else ((s.request i).step (s.map (s.request i).key) a).map (s.after i)

def machine : Transition.Machine Client Action where
  init s := s = {}
  step   := step

end Client

end Synca
