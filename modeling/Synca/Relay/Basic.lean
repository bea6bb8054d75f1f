import Mathlib.Logic.Relation
import Mathlib.Order.Nat
import Mathlib.Tactic.Lemma
import Mathlib.Tactic.SplitIfs
import Synca.Runtime.State

/-!
# The relay

Who has the right to make a journey go on. A journey that was created or proceeded has a task posted
to its scheduler; a journey that executes has a thread; a journey that waits has left its right with
a group, a channel or an operation. The right is handed on like a baton, and this is all that is
kept here of the runtime: no events, scopes, values or exceptions.

A hop is what one or several steps of the runtime do to the rights. The hop `move` changes the
scheduler of a journey that stays where it is; only a `teleport` that throws does this.
-/

namespace Synca

/-- Where the stack of a journey is, seen from outside. -/
inductive Whereabouts where
  | here
  /-- Switched away by `yield`. -/
  | away
  /-- Back from `yield`, still in `defer`. -/
  | back
  deriving DecidableEq, Repr

/-- A journey. -/
structure Runner where
  alive : Bool := false
  sched : ℕ := 0
  started : Bool := false
  running : Bool := false
  deferHandler : Option Deferred := none
  place : Whereabouts := .here
  /-- The group the journey is a child of. -/
  role : Option ℕ := none
  log : List LifeEvent := []

/-- A group. -/
structure Team where
  kind : GroupKind := .goWait
  owner : ℕ := 0
  began : Bool := false
  holders : List Holder := []
  counter : ℕ := 0

/-- A waiter of a channel. -/
structure Seat where
  owner : ℕ := 0
  channel : ℕ := 0
  phase : WaiterPhase := .pushed

/-- A channel. -/
structure Line where
  mutex : Option ℕ := none
  waiters : List ℕ := []

/-- An operation. -/
structure Errand where
  owner : ℕ := 0
  pending : Bool := false

structure Relay where
  runner : ℕ → Runner := fun _ => {}
  created : ℕ := 0
  destroyed : ℕ := 0
  posted : List Task := []
  exec : ℕ → Option Exec := fun _ => none
  /-- The waiters that a call of `put` or `close` on a thread has still to call. -/
  hand : ℕ → List ℕ := fun _ => []
  alone : ℕ → Bool := fun _ => false
  strand : ℕ → Option ℕ := fun _ => none
  team : ℕ → Team := fun _ => {}
  teams : ℕ := 0
  line : ℕ → Line := fun _ => {}
  seat : ℕ → Seat := fun _ => {}
  seats : ℕ := 0
  errand : ℕ → Errand := fun _ => {}
  errands : ℕ := 0
  fault : Bool := false

namespace Relay

/-! ### Access -/

def mapRunner (c : Relay) (j : ℕ) (f : Runner → Runner) : Relay :=
  { c with runner := Function.update c.runner j (f (c.runner j)) }

def mapExec (c : Relay) (t : ℕ) (f : Exec → Exec) : Relay :=
  { c with exec := Function.update c.exec t ((c.exec t).map f) }

def mapTeam (c : Relay) (k : ℕ) (f : Team → Team) : Relay :=
  { c with team := Function.update c.team k (f (c.team k)) }

def mapLine (c : Relay) (l : ℕ) (f : Line → Line) : Relay :=
  { c with line := Function.update c.line l (f (c.line l)) }

def mapSeat (c : Relay) (w : ℕ) (f : Seat → Seat) : Relay :=
  { c with seat := Function.update c.seat w (f (c.seat w)) }

def mapErrand (c : Relay) (i : ℕ) (f : Errand → Errand) : Relay :=
  { c with errand := Function.update c.errand i (f (c.errand i)) }

def setHand (c : Relay) (t : ℕ) (ws : List ℕ) : Relay :=
  { c with hand := Function.update c.hand t ws }

lemma runner_mapRunner (c : Relay) (j i : ℕ) (f : Runner → Runner) :
    (c.mapRunner j f).runner i = if i = j then f (c.runner j) else c.runner i :=
  Function.update_apply _ _ _ _

lemma exec_mapExec (c : Relay) (t u : ℕ) (f : Exec → Exec) :
    (c.mapExec t f).exec u = if u = t then (c.exec t).map f else c.exec u :=
  Function.update_apply _ _ _ _

lemma team_mapTeam (c : Relay) (k i : ℕ) (f : Team → Team) :
    (c.mapTeam k f).team i = if i = k then f (c.team k) else c.team i :=
  Function.update_apply _ _ _ _

lemma seat_mapSeat (c : Relay) (w i : ℕ) (f : Seat → Seat) :
    (c.mapSeat w f).seat i = if i = w then f (c.seat w) else c.seat i :=
  Function.update_apply _ _ _ _

lemma errand_mapErrand (c : Relay) (i n : ℕ) (f : Errand → Errand) :
    (c.mapErrand i f).errand n = if n = i then f (c.errand i) else c.errand n :=
  Function.update_apply _ _ _ _

def setStage (c : Relay) (t : ℕ) (g : Stage) : Relay :=
  c.mapExec t fun x => { x with stage := g }

/-- What thread `t` does for a task of journey `j`. -/
def stage (c : Relay) (t j : ℕ) : Option Stage :=
  match c.exec t with
  | some x => if x.journey = j then some x.stage else none
  | none   => none

lemma stage_eq_some_iff {c : Relay} {t j : ℕ} {g : Stage} :
    c.stage t j = some g ↔ ∃ x, c.exec t = some x ∧ x.journey = j ∧ x.stage = g := by
  unfold stage
  constructor
  · intro h
    split at h
    case h_1 x hx =>
      split_ifs at h with hj
      exact ⟨x, hx, hj, Option.some_injective _ h⟩
    case h_2 => cases h
  · rintro ⟨x, hx, rfl, rfl⟩
    simp [hx]

def fail (c : Relay) : Relay := { c with fault := true }

/-! ### Tasks -/

def post (c : Relay) (j : ℕ) (start : Bool) : Relay :=
  { c with posted := c.posted ++ [⟨(c.runner j).sched, j, start⟩] }

def record (c : Relay) (j : ℕ) (e : LifeEvent) : Relay :=
  c.mapRunner j fun r => { r with log := r.log ++ [e] }

def proceed (c : Relay) (j : ℕ) : Relay := (c.record j .proceed).post j false

def construct (c : Relay) (d : ℕ) (role : Option ℕ) : Relay :=
  let c' := c.mapRunner (c.created + 1) fun r =>
    { r with alive := true, sched := d, role := role, log := r.log ++ [.create] }
  { c' with created := c.created + 1 }

def create (c : Relay) (d : ℕ) (role : Option ℕ) : Relay :=
  (c.construct d role).post (c.created + 1) true

/-! ### Groups -/

def bump (c : Relay) (k : ℕ) : Relay :=
  let c' := c.mapTeam k fun x => { x with counter := x.counter + 1 }
  if (c.team k).counter = 0 then c'.proceed (c.team k).owner else c'

/-- What the last holder does. -/
def settle (c : Relay) (k : ℕ) : Relay :=
  match (c.team k).kind with
  | .goWait      => c.proceed (c.team k).owner
  | .goAnyWait   => c
  | .goAnyResult => c.bump k

def hold (c : Relay) (k : ℕ) (h : Holder) : Relay :=
  c.mapTeam k fun x => { x with holders := x.holders ++ [h] }

def release (c : Relay) (k : ℕ) (h : Holder) : Relay :=
  let c' := c.mapTeam k fun x => { x with holders := x.holders.erase h }
  if (c'.team k).holders = [] then c'.settle k else c'

def newTeam (c : Relay) (j : ℕ) (kind : GroupKind) : Relay :=
  let c' := c.mapTeam c.teams fun x => { x with kind := kind, owner := j }
  { c' with teams := c.teams + 1 }

/-! ### Channels and operations -/

def newSeat (c : Relay) (j l : ℕ) : Relay :=
  let c' := (c.mapSeat c.seats fun x => { x with owner := j, channel := l }).mapLine l fun x =>
    { x with waiters := c.seats :: x.waiters, mutex := some c.seats }
  { c' with seats := c.seats + 1 }

def pop (c : Relay) (t l w : ℕ) (ws : List ℕ) : Relay :=
  (c.mapLine l fun x => { x with waiters := ws }).setHand t [w]

def sweep (c : Relay) (t l : ℕ) : Relay :=
  (c.mapLine l fun x => { x with waiters := [] }).setHand t (c.line l).waiters

def fire (c : Relay) (w : ℕ) : Relay :=
  match (c.seat w).phase with
  | .pushed => c.fail
  | _       => (c.mapSeat w fun x => { x with phase := .fired }).proceed (c.seat w).owner

def newErrand (c : Relay) (j : ℕ) : Relay :=
  let c' := c.mapErrand c.errands fun x => { x with owner := j }
  { c' with errands := c.errands + 1 }

def complete (c : Relay) (i : ℕ) : Relay :=
  (c.mapErrand i fun x => { x with pending := false }).proceed (c.errand i).owner

/-! ### Threads and coroutines -/

def take (c : Relay) (t : ℕ) (k : Task) : Relay :=
  { c with
    exec := Function.update c.exec t (some { via := k.sched, journey := k.journey,
                                             start := k.start, stage := .running })
    posted := c.posted.erase k
    strand := if c.alone k.sched then Function.update c.strand k.sched (some t) else c.strand }

def start (c : Relay) (j : ℕ) : Relay :=
  let r := c.runner j
  if r.alive ∧ ¬ (r.started ∨ r.running) then
    let c' := c.mapRunner j fun r =>
      { r with started := true, running := true, place := .here, log := r.log ++ [.start] }
    match r.role with
    | some k => c'.hold k (.coro j)
    | none   => c'
  else c.fail

def resume (c : Relay) (j : ℕ) : Relay :=
  let r := c.runner j
  if r.alive ∧ r.started ∧ ¬ r.running ∧ r.place = .away then
    c.mapRunner j fun r => { r with running := true, place := .back, log := r.log ++ [.resume] }
  else c.fail

def dispatch (c : Relay) (t : ℕ) (k : Task) : Relay :=
  if k.start then (c.take t k).start k.journey else (c.take t k).resume k.journey

/-- A call of the journey is over. -/
def leave (c : Relay) (j : ℕ) : Relay := c.mapRunner j fun r => { r with place := .here }

def move (c : Relay) (j d : ℕ) : Relay := c.mapRunner j fun r => { r with sched := d }

def yield (c : Relay) (t j : ℕ) (h : Deferred) : Relay :=
  (c.mapRunner j fun r =>
    { r with place := .away, deferHandler := some h, log := r.log ++ [.yield] }).setStage t
    .switched

def save (c : Relay) (t j : ℕ) (threw : Bool) : Relay :=
  (c.mapRunner j fun r => { r with running := false, log := r.log ++ [.save] }).mapExec t fun x =>
    { x with stage := .exiting, threw := if threw then true else x.threw }

/-- What the deferred handler does. -/
def answer (c : Relay) (t j : ℕ) : Deferred → Relay
  | .proceed      => (c.proceed j).setStage t .finishing
  | .launch k     =>
    (c.mapTeam k fun x => { x with began := true, holders := [.loop] }).setStage t (.loop k)
  | .setProceed w =>
    ((c.mapSeat w fun x => { x with phase := .armed }).mapLine (c.seat w).channel fun x =>
      { x with mutex := none }).setStage t .finishing
  | .startIo i    => (c.mapErrand i fun x => { x with pending := true }).setStage t .finishing

def delete (c : Relay) (t j : ℕ) : Relay :=
  let c' := c.mapRunner j fun r => { r with alive := false, log := r.log ++ [.delete] }
  { c' with destroyed := c.destroyed + 1 : Relay }.setStage t .finishing

def launch (c : Relay) (k d : ℕ) : Relay :=
  (c.create d (some k)).hold k (.task (c.created + 1))

def giveUp (c : Relay) (t : ℕ) (x : Exec) : Relay :=
  { c with
    exec   := Function.update c.exec t none
    strand := if c.alone x.via then Function.update c.strand x.via none else c.strand }

lemma exec_take (c : Relay) (t u : ℕ) (x : Task) : (c.take t x).exec u = if u = t then
    some { via := x.sched, journey := x.journey, start := x.start, stage := .running }
    else c.exec u :=
  Function.update_apply _ _ _ _

lemma exec_giveUp (c : Relay) (t u : ℕ) (x : Exec) :
    (c.giveUp t x).exec u = if u = t then none else c.exec u :=
  Function.update_apply _ _ _ _

/-- A thread that executes a task after `take` did so before, unless it has taken it. -/
lemma exec_of_take {c : Relay} {t u : ℕ} {k : Task} {y : Exec}
    (h : (c.take t k).exec u = some y) : c.exec u = some y ∨
      (u = t ∧ y = { via := k.sched, journey := k.journey, start := k.start,
                     stage := .running }) := by
  rw [exec_take] at h
  split_ifs at h with hu
  · exact .inr ⟨hu, (Option.some_injective _ h).symm⟩
  · exact .inl h

lemma exec_of_giveUp {c : Relay} {t u : ℕ} {x y : Exec} (h : (c.giveUp t x).exec u = some y) :
    u ≠ t ∧ c.exec u = some y := by
  rw [exec_giveUp] at h
  split_ifs at h with hu
  exact ⟨hu, h⟩

def endCoro (c : Relay) (t j : ℕ) : Relay :=
  (c.mapRunner j fun r => { r with started := false, log := r.log ++ [.finish] }).setStage t
    .switched

/-! ### Hops -/

inductive Hop (stray : Prop) (c : Relay) : Relay → Prop where
  | create (d : ℕ) : Hop stray c (c.create d none)
  | dispatch (t : ℕ) (k : Task) (ht : c.exec t = none) (hk : k ∈ c.posted)
      (hs : c.alone k.sched = true → c.strand k.sched = none) : Hop stray c (c.dispatch t k)
  | leave (t j : ℕ) (h : c.stage t j = some .running) : Hop stray c (c.leave j)
  | move (hm : stray) (t j d : ℕ) (h : c.stage t j = some .running)
      (hp : (c.runner j).place = .here) : Hop stray c (c.move j d)
  | depart (t j d : ℕ) (h : c.stage t j = some .running) :
      Hop stray c ((c.move j d).yield t j .proceed)
  | newTeam (j : ℕ) (kind : GroupKind) : Hop stray c (c.newTeam j kind)
  | newSeat (j l : ℕ) (hm : (c.line l).mutex = none) : Hop stray c (c.newSeat j l)
  | newErrand (j : ℕ) : Hop stray c (c.newErrand j)
  | goGroup (t j : ℕ) (kind : GroupKind) (h : c.stage t j = some .running) :
      Hop stray c ((c.newTeam j kind).yield t j (.launch c.teams))
  | get (t j l : ℕ) (h : c.stage t j = some .running) (hm : (c.line l).mutex = none) :
      Hop stray c ((c.newSeat j l).yield t j (.setProceed c.seats))
  | deferIo (t j : ℕ) (h : c.stage t j = some .running) :
      Hop stray c ((c.newErrand j).yield t j (.startIo c.errands))
  | save (t j : ℕ) (threw : Bool) (h : c.stage t j = some .switched) :
      Hop stray c (c.save t j threw)
  | delete (t j : ℕ) (h : c.stage t j = some .exiting) (hd : (c.runner j).deferHandler = none) :
      Hop stray c (c.delete t j)
  | answer (t j : ℕ) (d : Deferred) (h : c.stage t j = some .exiting)
      (hd : (c.runner j).deferHandler = some d) :
      Hop stray c ((c.mapRunner j fun r => { r with deferHandler := none }).answer t j d)
  | launch (t j k d : ℕ) (h : c.stage t j = some (.loop k)) : Hop stray c (c.launch k d)
  | endLoop (t j k : ℕ) (h : c.stage t j = some (.loop k)) :
      Hop stray c ((c.setStage t .finishing).release k .loop)
  | drop (t : ℕ) (x : Exec) (h : c.exec t = some x) (hx : x.stage = .finishing) :
      Hop stray c (c.giveUp t x)
  | finish (t k : ℕ) (x : Exec) (h : c.exec t = some x) (hx : x.stage = .finishing)
      (hs : x.start = true) (hr : (c.runner x.journey).role = some k) :
      Hop stray c ((c.giveUp t x).release k (.task x.journey))
  | win (t j k : ℕ) (h : c.stage t j = some .running) (hr : (c.runner j).role = some k)
      (hk : (c.team k).kind ≠ .goWait) : Hop stray c (c.bump k)
  | endCoro (t j : ℕ) (h : c.stage t j = some .running) (hr : (c.runner j).role = none) :
      Hop stray c (c.endCoro t j)
  | endChild (t j k : ℕ) (h : c.stage t j = some .running) (hr : (c.runner j).role = some k) :
      Hop stray c ((c.endCoro t j).release k (.coro j))
  | pop (t l w : ℕ) (ws : List ℕ) (hm : (c.line l).mutex = none)
      (hl : (c.line l).waiters = w :: ws) (hh : c.hand t = []) : Hop stray c (c.pop t l w ws)
  | sweep (t l : ℕ) (hm : (c.line l).mutex = none) (hh : c.hand t = []) :
      Hop stray c (c.sweep t l)
  | fire (t w : ℕ) (ws : List ℕ) (h : c.hand t = w :: ws) :
      Hop stray c ((c.setHand t ws).fire w)
  | complete (i : ℕ) (h : (c.errand i).pending = true) : Hop stray c (c.complete i)

/-- Any number of hops. -/
abbrev Hops (stray : Prop) : Relay → Relay → Prop := Relation.ReflTransGen (Hop stray)

end Relay

end Synca
