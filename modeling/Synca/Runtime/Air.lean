import Synca.Runtime.Answers
import Synca.Runtime.Notes
import Synca.Runtime.Rules

/-!
# Exceptions in flight

What of the runtime decides which exceptions are in flight and which of them `handleEvents` sees:
what each journey has at hand and where its stack stands, and the count of uncaught exceptions of
each thread. The counts belong to the threads, the exceptions to the journeys. A destructor that
lets an exception out ends the program.
-/

namespace Synca

open Transition

/-- What was in flight when a destructor of the user's code began. -/
def Frame.aside : Frame → Option (Option Exn)
  | .destructor e => some e
  | _             => none

def Journey.own (x : Journey) : Own := ⟨x.events, x.flight, x.frames.filterMap Frame.aside⟩

structure Air where
  own : ℕ → Own
  ctx : ℕ → Ctx
  /-- The exception with which the coroutine has ended. -/
  exc : ℕ → Bool
  exec : ℕ → Option Exec
  uncaught : ℕ → ℤ
  terminated : Bool

namespace Air

def setOwn (c : Air) (j : ℕ) (o : Own) : Air := { c with own := Function.update c.own j o }

def hear (c : Air) (j : ℕ) (ns : List Note) : Air := c.setOwn j ((c.own j).hears ns)

def place (c : Air) (j : ℕ) (x : Ctx) : Air := { c with ctx := Function.update c.ctx j x }

def setExc (c : Air) (j : ℕ) (b : Bool) : Air := { c with exc := Function.update c.exc j b }

def mapExec (c : Air) (t : ℕ) (f : Exec → Exec) : Air :=
  { c with exec := Function.update c.exec t ((c.exec t).map f) }

def setStage (c : Air) (t : ℕ) (g : Stage) : Air := c.mapExec t fun x => { x with stage := g }

def addUncaught (c : Air) (t : ℕ) (n : ℤ) : Air :=
  { c with uncaught := Function.update c.uncaught t (c.uncaught t + n) }

def take (c : Air) (t : ℕ) (x : Exec) : Air := { c with exec := Function.update c.exec t (some x) }

def giveUp (c : Air) (t : ℕ) : Air := { c with exec := Function.update c.exec t none }

def terminate (c : Air) : Air := { c with terminated := true }

@[simp] lemma hear_nil (c : Air) (j : ℕ) : c.hear j [] = c := by simp [hear, setOwn]

lemma place_self {c : Air} {j : ℕ} {x : Ctx} (h : c.ctx j = x) : c.place j x = c := by
  simp [place, ← h]

@[simp] lemma setOwn_setOwn (c : Air) (j : ℕ) (o o' : Own) :
    (c.setOwn j o).setOwn j o' = c.setOwn j o' := by simp [setOwn]

lemma own_setOwn (c : Air) (j : ℕ) (o : Own) : (c.setOwn j o).own j = o := by simp [setOwn]

end Air

namespace Runtime

variable {s s' : Runtime} {t j k : ℕ} {a : Action}

def air (s : Runtime) : Air where
  own j      := (s.journey j).own
  ctx j      := (s.journey j).ctx
  exc j      := (s.journey j).coro.exc
  exec t     := (s.thread t).exec
  uncaught t := (s.thread t).uncaught
  terminated := s.terminated

/-! ### The calls of `handleEvents` -/

/-- The call that returns from the switch fails. -/
def Fails (s : Runtime) : Op → Prop
  | .group k   => (s.group k).kind = .goAnyWait ∧ ¬ ∃ i ∈ (s.group k).index, i < (s.group k).size
  | .deferIo i => (s.io i).error = true
  | _          => False

instance (s : Runtime) (op : Op) : Decidable (s.Fails op) := by
  induction op using Op.casesOn with
  | group k => exact inferInstanceAs (Decidable (_ ∧ _))
  | deferIo i => exact inferInstanceAs (Decidable (_ = _))
  | _ => exact .isFalse id

/-- The call of `handleEvents` that an action makes: the thread, the journey and the caller. -/
def call (s : Runtime) : Action → Option (ℕ × ℕ × Poll)
  | .leave t j         => match (s.journey j).ctx with
    | .resumed op => some (t, j, if s.Fails op then .failing else .plain)
    | _           => none
  | .request t j r     =>
    if r = .teleport (s.journey j).sched then none else some (t, j, .plain)
  | .get t j c         =>
    if (s.channel c).queue = [] ∧ (s.channel c).closed = false then some (t, j, .plain) else none
  | .portal t j d      => if d = (s.journey j).sched then none else some (t, j, .plain)
  | .guard t j         => some (t, j, .disabling)
  | .closeScope t j    => match (s.journey j).frames with
    | .portal src _ :: _ => if src = (s.journey j).sched then none else some (t, j, .plain)
    | .guard :: _        => some (t, j, .enabling)
    | _                  => none
  | .poll t j          => some (t, j, .plain)
  | .handleEvents t j  => some (t, j, .plain)
  | .disableEvents t j => some (t, j, .disabling)
  | .enableEvents t j  => some (t, j, .enabling)
  | _                  => none

/-- What the call throws. -/
def outcome (s : Runtime) (t j : ℕ) (p : Poll) : Option EventException :=
  ((p.before (s.journey j).events).handleEvents (s.uncaught t)).1

/-- The action ends a destructor of the user's code. -/
def endsDestructor (s : Runtime) : Action → Bool
  | .closeScope _ j => match (s.journey j).frames with
    | .destructor _ :: _ => true
    | _                  => false
  | _               => false

/-- The call of `handleEvents` of an action, as the journey notes it. -/
def polled (s : Runtime) (a : Action) : ℕ × List Note :=
  match s.call a with
  | some (t, j, p) => (j, [.poll p (s.outcome t j p)])
  | none           => (0, [])

/-- What an action adds to the history of a journey. -/
def entry (s : Runtime) : Action → ℕ × List Note
  | .cancel j       => (j, [.set .cancelled])
  | .callback k     => ((s.timer k).owner, [.set .timedout])
  | .throw _ j e    => (j, [.throws e])
  | .catching _ j   => (j, [.catches])
  | .escape _ j     => (j, [.catches])
  | .destructor _ j => (j, [.enters])
  | .closeScope t j =>
    if s.endsDestructor (.closeScope t j) then (j, [.leaves]) else s.polled (.closeScope t j)
  | a               => s.polled a

/-- An exception of journey `j` was thrown and not caught. -/
def Unwinding (s : Runtime) (j : ℕ) : Prop := (s.journey j).own.exns ≠ []

instance (s : Runtime) (j : ℕ) : Decidable (s.Unwinding j) := inferInstanceAs (Decidable (_ ≠ _))

/-- No exception leaves a destructor of the user's code. -/
def DestructorsHold (s : Runtime) : Action → Prop
  | .closeScope t j => s.endsDestructor (.closeScope t j) = true → (s.journey j).flight = none
  | _               => True

/-- The journeys of the program throw objects derived from `std::exception`, and not out of their
destructors, a default scheduler is attached when the launch loop of a group needs it, and no
operation fails to start. -/
def Ordinary (s : Runtime) : Action → Prop
  | .throw _ _ e    => e ≠ .other
  | .closeScope t j => s.DestructorsHold (.closeScope t j)
  | .exit _ _ fails => fails = false
  | .launch t j     => match s.stage t j with
    | some (.loop k) => (s.group k).launched < (s.group k).size → s.dflt ≠ none
    | _              => True
  | _               => True

/-- The call of `handleEvents` that an action makes in `~Timeout`, `~Portal` or `~EventsGuard`. -/
def scopeCall (s : Runtime) : Action → Option (ℕ × ℕ × Poll)
  | .poll t j       => s.call (.poll t j)
  | .closeScope t j => s.call (.closeScope t j)
  | .leave t j      => match (s.journey j).ctx with
    | .resumed (.teleport (.unportal _ _)) => s.call (.leave t j)
    | _                                    => none
  | _               => none

/-- No destructor of a scope finds an event to deliver. -/
def ScopesEndQuietly (s : Runtime) (a : Action) : Prop :=
  match s.scopeCall a with
  | some (t, j, p) => ¬ (p.before (s.journey j).events).Deliverable (s.uncaught t)
  | none           => True

/-- The journey that an action switches away from its thread, unless an event is thrown first. -/
def switches (s : Runtime) : Action → Option ℕ
  | .request _ j r  => if r = .teleport (s.journey j).sched then none else some j
  | .get _ j c      =>
    if (s.channel c).queue = [] ∧ (s.channel c).closed = false then some j else none
  | .portal _ j d   => if d = (s.journey j).sched then none else some j
  | .closeScope _ j => match (s.journey j).frames with
    | .portal src _ :: _ => if src = (s.journey j).sched then none else some j
    | _                  => none
  | _               => none

/-- No journey leaves its thread between the throw of an exception and the catch. -/
def UnwindsInPlace (s : Runtime) (a : Action) : Prop := ∀ j ∈ s.switches a, ¬ s.Unwinding j

/-! ### Updates -/

lemma air_mapJourney (s : Runtime) (j : ℕ) (f : Journey → Journey) : (s.mapJourney j f).air =
    ((s.air.setOwn j (f (s.journey j)).own).place j (f (s.journey j)).ctx).setExc j
      (f (s.journey j)).coro.exc := by
  simp only [air, mapJourney, Air.setOwn, Air.place, Air.setExc, Air.mk.injEq, and_true]
  refine ⟨?_, ?_, ?_⟩ <;> funext i <;> simp only [Function.update_apply] <;> split_ifs <;> rfl

lemma own_air (s : Runtime) (j : ℕ) : s.air.own j = (s.journey j).own := rfl

@[simp] lemma setOwn_air (s : Runtime) (j : ℕ) : s.air.setOwn j (s.journey j).own = s.air := by
  simp [Air.setOwn, air]

lemma air_setOwn_place {f : Journey → Journey}
    (he : (f (s.journey j)).coro.exc = (s.journey j).coro.exc) : (s.mapJourney j f).air =
      (s.air.setOwn j (f (s.journey j)).own).place j (f (s.journey j)).ctx := by
  rw [air_mapJourney, he]
  simp [Air.setOwn, Air.place, Air.setExc, air]

/-- Only the place on the stack changes. -/
lemma air_place {f : Journey → Journey} (ho : (f (s.journey j)).own = (s.journey j).own)
    (he : (f (s.journey j)).coro.exc = (s.journey j).coro.exc) :
    (s.mapJourney j f).air = s.air.place j (f (s.journey j)).ctx := by
  rw [air_setOwn_place he, ho, setOwn_air]

lemma air_mapJourney_of_eq {f : Journey → Journey}
    (ho : (f (s.journey j)).own = (s.journey j).own)
    (hc : (f (s.journey j)).ctx = (s.journey j).ctx)
    (he : (f (s.journey j)).coro.exc = (s.journey j).coro.exc) :
    (s.mapJourney j f).air = s.air := by
  rw [air_place ho he, hc]
  exact Air.place_self rfl

/-- Only what the journey has at hand changes. -/
lemma air_setOwn {f : Journey → Journey} (hc : (f (s.journey j)).ctx = (s.journey j).ctx)
    (he : (f (s.journey j)).coro.exc = (s.journey j).coro.exc) :
    (s.mapJourney j f).air = s.air.setOwn j (f (s.journey j)).own := by
  rw [air_setOwn_place he, hc]
  exact Air.place_self rfl

lemma air_mapExec (e : Exec → Exec) :
    (s.mapThread t fun th => { th with exec := th.exec.map e }).air = s.air.mapExec t e := by
  simp only [air, mapThread, Air.mapExec, Air.mk.injEq, and_true, true_and]
  constructor <;> funext u <;> simp only [Function.update_apply] <;> split_ifs with hu
  · rfl
  · rfl
  · rw [hu]
  · rfl

lemma air_setStage (s : Runtime) (t : ℕ) (g : Stage) :
    (s.setStage t g).air = s.air.setStage t g := air_mapExec _

lemma air_addUncaught (s : Runtime) (t : ℕ) (n : ℤ) :
    (s.addUncaught t n).air = s.air.addUncaught t n := by
  simp only [air, addUncaught, mapThread, Air.addUncaught, Air.mk.injEq, and_true, true_and]
  constructor <;> funext u <;> simp only [Function.update_apply] <;> split_ifs with hu
  · rw [hu]
  · rfl
  · rfl
  · rfl

lemma air_setCall (s : Runtime) (t : ℕ) (x : ThreadCall) : (s.setCall t x).air = s.air := by
  simp only [air, setCall, mapThread, Air.mk.injEq, and_true, true_and]
  constructor <;> funext u <;> simp only [Function.update_apply] <;> split_ifs with hu
  · rw [hu]
  · rfl
  · rw [hu]
  · rfl

/-! ### Functions that raise nothing -/

lemma air_proceed (s : Runtime) (j : ℕ) : (s.proceed j).air = s.air :=
  air_mapJourney_of_eq (f := fun x => { x with log := x.log ++ [.proceed] }) rfl rfl rfl

lemma air_create (s : Runtime) (d : ℕ) (r : Option (ℕ × ℕ)) : (s.create d r).air = s.air :=
  air_mapJourney_of_eq (f := fun x => { x with
    alive := true, sched := d, role := r, log := x.log ++ [.create] }) rfl rfl rfl

lemma air_tryProceed (s : Runtime) (k : ℕ) (v : Option ℕ) : (s.tryProceed k v).air = s.air := by
  simp only [tryProceed]
  split_ifs
  · exact air_proceed _ _
  · rfl

lemma air_win (s : Runtime) (k i : ℕ) : (s.win k i).air = s.air := by
  simp only [win]
  split_ifs
  · exact air_proceed _ _
  · rfl

lemma air_release (s : Runtime) (k : ℕ) (h : Holder) : (s.release k h).air = s.air := by
  simp only [release]
  split_ifs
  · unfold deleter
    split
    · exact air_proceed _ _
    · rfl
    · exact air_tryProceed _ _ _
  · rfl

lemma air_fire (s : Runtime) (w : ℕ) (v : Option ℕ) : (s.fire w v).air = s.air := by
  unfold fire
  split
  · rfl
  · exact air_proceed _ _

lemma air_put (s : Runtime) (t c v : ℕ) : (s.put t c v).air = s.air := by
  unfold put
  split
  · exact air_setCall _ _ _
  · rfl

lemma air_close (s : Runtime) (t c : ℕ) : (s.close t c).air = s.air := by
  unfold close
  split_ifs
  · rfl
  · exact air_setCall _ _ _

lemma air_leavePortal (s : Runtime) (t j b : ℕ) : (s.leavePortal t j b).air = s.air :=
  air_mapJourney_of_eq rfl rfl rfl

lemma air_arrive (s : Runtime) (t j : ℕ) (c : Caller) :
    (s.arrive t j c).air = s.air.place j .user := by
  cases c with
  | user =>
    rw [arrive]
    exact air_place rfl rfl
  | portal src b =>
    rw [arrive]
    exact air_place rfl rfl
  | unportal src b =>
    rw [arrive, ← air_leavePortal s t j b]
    exact air_place rfl rfl

end Runtime

end Synca
