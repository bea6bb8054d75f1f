import Synca.Runtime.Answers
import Synca.Runtime.Rules
import Synca.Transition.Refinement

/-!
# The runtime keeps the clock

Seen through the faces of its journeys, the runtime is a run of the clock machine: an action is seen
as one tick or not at all. The laws of timeout scopes carry over.
-/

namespace Synca

open Transition

def Frame.timeoutId : Frame → Option ℕ
  | .timeout k => some k
  | _          => none

def Ctx.pollingId : Ctx → Option ℕ
  | .polling k => some k
  | _          => none

def Journey.face (x : Journey) : Face where
  status   := x.events.gr.status
  cause    := x.cause
  timeouts := x.frames.filterMap Frame.timeoutId
  polling  := x.ctx.pollingId

namespace Runtime

def clock (s : Runtime) : Clock := ⟨fun j => (s.journey j).face, s.timer, s.timers⟩

variable {s s' : Runtime} {t j k : ℕ}

lemma clock_mapJourney (s : Runtime) (j : ℕ) (f : Journey → Journey) :
    (s.mapJourney j f).clock = s.clock.setFace j (f (s.journey j)).face := by
  simp only [clock, mapJourney, Clock.setFace, Clock.mk.injEq, and_true]
  funext i
  simp only [Function.update_apply]
  split_ifs <;> rfl

lemma setFace_clock (s : Runtime) (j : ℕ) : s.clock.setFace j (s.journey j).face = s.clock := by
  simp only [Clock.setFace, clock, Clock.mk.injEq, and_true]
  exact Function.update_eq_self j _

lemma clock_mapJourney_of_face {f : Journey → Journey}
    (h : (f (s.journey j)).face = (s.journey j).face) : (s.mapJourney j f).clock = s.clock := by
  rw [clock_mapJourney, h, setFace_clock]

/-! ### What is not seen -/

lemma clock_record (s : Runtime) (j : ℕ) (e : LifeEvent) : (s.record j e).clock = s.clock :=
  clock_mapJourney_of_face rfl

lemma clock_proceed (s : Runtime) (j : ℕ) : (s.proceed j).clock = s.clock :=
  clock_record s j .proceed

lemma clock_construct (s : Runtime) (d : ℕ) (r : Option (ℕ × ℕ)) :
    (s.construct d r).clock = s.clock := by
  have hj : (s.mapJourney (s.created + 1) fun x => { x with
      alive := true, sched := d, role := r, log := x.log ++ [.create] }).clock = s.clock :=
    clock_mapJourney_of_face rfl
  exact hj

lemma clock_create (s : Runtime) (d : ℕ) (r : Option (ℕ × ℕ)) : (s.create d r).clock = s.clock :=
  clock_construct s d r

lemma clock_tryProceed (s : Runtime) (k : ℕ) (v : Option ℕ) :
    (s.tryProceed k v).clock = s.clock := by
  simp only [tryProceed]
  split_ifs
  · exact clock_proceed _ _
  · rfl

lemma clock_win (s : Runtime) (k i : ℕ) : (s.win k i).clock = s.clock := by
  simp only [win]
  split_ifs
  · exact clock_proceed _ _
  · rfl

lemma clock_deleter (s : Runtime) (k : ℕ) : (s.deleter k).clock = s.clock := by
  simp only [deleter]
  split
  · exact clock_proceed _ _
  · rfl
  · exact clock_tryProceed _ _ _

lemma clock_release (s : Runtime) (k : ℕ) (h : Holder) : (s.release k h).clock = s.clock := by
  simp only [release]
  split_ifs
  · exact clock_deleter _ _
  · rfl

lemma clock_fire (s : Runtime) (w : ℕ) (v : Option ℕ) : (s.fire w v).clock = s.clock := by
  unfold fire
  split
  · rfl
  · exact clock_proceed _ _

lemma clock_ret (h : (s.journey j).ctx = .user) (v : Option ℕ) : (s.ret j v).clock = s.clock := by
  have hj : (s.mapJourney j fun x => { x with ctx := .closing }).clock = s.clock :=
    clock_mapJourney_of_face (by simp [Journey.face, Ctx.pollingId, h])
  unfold ret
  split
  · exact hj
  · split
    · exact (clock_win _ _ _).trans hj
    · exact (clock_tryProceed _ _ _).trans hj
    · exact hj

lemma clock_endCoro (h : (s.journey j).ctx = .closing) : (s.endCoro t j).clock = s.clock := by
  have hj : (s.mapJourney j fun x => { x with
      ctx := .ended, coro := { x.coro with started := false },
      log := x.log ++ [.finish] }).clock = s.clock :=
    clock_mapJourney_of_face (by simp [Journey.face, Ctx.pollingId, h])
  unfold endCoro
  split
  · exact (clock_release _ _ _).trans hj
  · exact hj

lemma clock_jump (s : Runtime) (t j : ℕ) : (s.jump t j).clock = s.clock := by
  have hj : (s.mapJourney j fun x => { x with
      coro := { x.coro with running := false }, log := x.log ++ [.save] }).clock = s.clock :=
    clock_mapJourney_of_face rfl
  simp only [jump]
  split_ifs <;> exact hj

lemma clock_runDeferred (s : Runtime) (t j : ℕ) (h : Deferred) :
    (s.runDeferred t j h).clock = s.clock := by
  cases h with
  | proceed => exact clock_proceed _ _
  | launch k => rfl
  | setProceed w => rfl
  | startIo i => rfl

lemma clock_onExit0 (s : Runtime) (t j : ℕ) (fails : Bool) :
    (s.onExit0 t j fails).clock = s.clock := by
  unfold onExit0
  split
  · have hj : (s.mapJourney j fun x => { x with
        alive := false, log := x.log ++ [.delete] }).clock = s.clock :=
      clock_mapJourney_of_face rfl
    exact hj
  · split_ifs
    · rfl
    · exact (clock_runDeferred _ _ _ _).trans (clock_mapJourney_of_face rfl)

lemma clock_launch (s : Runtime) (t k : ℕ) : (s.launch t k).clock = s.clock := by
  simp only [launch]
  split_ifs
  · split
    · rfl
    · exact clock_create _ _ _
  · exact clock_release _ _ _

lemma clock_finish (s : Runtime) (t j : ℕ) (x : Exec) : (s.finish t j x).clock = s.clock := by
  unfold finish
  split_ifs
  · rfl
  · split
    · exact clock_release _ _ _
    · rfl

/-! ### Polls -/

lemma clock_takeEvent {e : Events} (he : e.gr.status = .normal) :
    (s.takeEvent t j e).clock = s.clock.clear j := by
  have hj : (s.mapJourney j fun x => { x with events := e, cause := none }).clock =
      s.clock.setFace j { s.clock.face j with status := .normal, cause := none } := by
    rw [clock_mapJourney]
    simp only [Journey.face, he]
    rfl
  exact hj

lemma clock_mapTimer (s : Runtime) (k : ℕ) (f : Timer → Timer) :
    (s.mapTimer k f).clock = s.clock.setTimer k (f (s.timer k)) := rfl

lemma clock_deliver {e : Events} (he : e.gr.status = .normal) :
    (s.deliver t j e).clock = s.clock.deliver j := by
  unfold deliver Clock.deliver
  rw [show (s.clock.face j).cause = (s.journey j).cause from rfl]
  cases (s.journey j).cause with
  | none => exact clock_takeEvent he
  | some k =>
    simp only
    rw [clock_mapTimer, clock_takeEvent he]
    rfl

lemma ctx_deliver (s : Runtime) (t j : ℕ) (e : Events) (i : ℕ) :
    ((s.deliver t j e).journey i).ctx = (s.journey i).ctx := by
  have hj : ((s.takeEvent t j e).journey i).ctx = (s.journey i).ctx := by
    simp only [takeEvent, addUncaught, mapThread, mapJourney, Function.update_apply]
    split_ifs with hi
    · rw [hi]
    · rfl
  unfold deliver
  split <;> exact hj

/-- Journey `j` may have thrown its pending event, and nothing else was seen. -/
def Polled (s s' : Runtime) (j : ℕ) : Prop :=
  s'.clock = s.clock ∨ ((s.journey j).events.gr.status ≠ .normal ∧ s'.clock = s.clock.deliver j)

/-- A poll throws, and what comes after it is not seen. -/
lemma polled_of_deliverable (hd : (s.journey j).events.Deliverable (s.uncaught t))
    (h : s'.clock = (s.deliver t j { (s.journey j).events with gr := {} }).clock) :
    s.Polled s' j :=
  .inr ⟨hd.2.2, h.trans (clock_deliver rfl)⟩

lemma clock_fly {e : Exn} (h : (s.journey j).ctx.pollingId = none) :
    (s.fly j e).clock = s.clock := by
  rw [fly]
  apply clock_mapJourney_of_face
  rw [Journey.face, Journey.face, h]
  rfl

lemma clock_leavePortal (s : Runtime) (t j b : ℕ) : (s.leavePortal t j b).clock = s.clock :=
  clock_mapJourney_of_face rfl

lemma journey_leavePortal (s : Runtime) (t j b : ℕ) :
    ((s.leavePortal t j b).journey j).ctx = (s.journey j).ctx := by
  simp [leavePortal, mapJourney]

lemma clock_throwFrom {e : Exn} (h : (s.journey j).ctx.pollingId = none) (op : Op) :
    (s.throwFrom t j e op).clock = s.clock := by
  unfold throwFrom
  split
  · exact clock_fly h
  · exact (clock_fly (by rwa [journey_leavePortal])).trans (clock_leavePortal _ _ _ _)
  · rfl
  · exact clock_fly (s := s.mapGroup _ _) h
  · exact clock_fly h
  · exact clock_fly h

lemma clock_setStage (s : Runtime) (t : ℕ) (g : Stage) : (s.setStage t g).clock = s.clock := rfl

lemma clock_yield (h : (s.journey j).ctx.pollingId = none) (op : Op) (d : Deferred) :
    (s.yield t j op d).clock = s.clock := by
  rw [yield, clock_setStage]
  apply clock_mapJourney_of_face
  rw [Journey.face, Journey.face, h]
  rfl

lemma clock_toUser (h : (s.journey j).ctx.pollingId = none) :
    (s.mapJourney j fun x => { x with ctx := .user }).clock = s.clock := by
  apply clock_mapJourney_of_face
  rw [Journey.face, Journey.face, h]
  rfl

lemma clock_arrive (h : (s.journey j).ctx.pollingId = none) (c : Caller) :
    (s.arrive t j c).clock = s.clock := by
  cases c with
  | user => exact clock_toUser h
  | portal src b =>
    rw [arrive]
    apply clock_mapJourney_of_face
    rw [Journey.face, Journey.face, h]
    rfl
  | unportal src b =>
    exact (clock_toUser (by rwa [journey_leavePortal])).trans (clock_leavePortal _ _ _ _)

lemma polled_defer (h : (s.journey j).ctx.pollingId = none) (op : Op) (d : Deferred) :
    s.Polled (s.defer t j op d) j := by
  unfold defer
  by_cases hd : (s.journey j).events.Deliverable (s.uncaught t)
  · rw [handleEvents_of_deliverable hd]
    exact polled_of_deliverable hd (clock_throwFrom (by rwa [ctx_deliver]) op)
  · rw [handleEvents_of_not_deliverable hd]
    exact .inl (clock_yield h op d)

lemma polled_teleport (h : (s.journey j).ctx.pollingId = none) (d : ℕ) (c : Caller) :
    s.Polled (s.teleport t j d c) j := by
  unfold teleport
  split_ifs
  · exact .inl (clock_arrive h c)
  · have hs : (s.mapJourney j fun x => { x with sched := d }).clock = s.clock :=
      clock_mapJourney_of_face rfl
    have hj : (s.mapJourney j fun x => { x with sched := d }).journey j =
        { s.journey j with sched := d } := by simp [mapJourney]
    have := polled_defer (s := s.mapJourney j fun x => { x with sched := d }) (t := t) (j := j)
      (by rwa [hj]) (.teleport c) .proceed
    unfold Polled at this ⊢
    rwa [hs, hj] at this

lemma polled_request (h : (s.journey j).ctx.pollingId = none) (r : Request) :
    s.Polled (s.request t j r) j := by
  cases r with
  | teleport d => exact polled_teleport h d .user
  | group kind size => exact polled_defer (s := { s.mapGroup _ _ with groups := _ }) h _ _
  | deferIo => exact polled_defer (s := { s.mapIo _ _ with ios := _ }) h _ _

lemma polled_get (h : (s.journey j).ctx.pollingId = none) (c : ℕ) :
    s.Polled (s.get t j c) j := by
  unfold get
  split
  · exact .inl rfl
  · split_ifs
    · exact .inl rfl
    · exact polled_defer (s := { (s.mapWaiter _ _).mapChannel _ _ with waiters := _ }) h _ _

lemma polled_leave (h : (s.journey j).ctx.pollingId = none) (op : Op) :
    s.Polled (s.leave t j op) j := by
  unfold leave
  by_cases hd : (s.journey j).events.Deliverable (s.uncaught t)
  · rw [handleEvents_of_deliverable hd]
    exact polled_of_deliverable hd (clock_throwFrom (by rwa [ctx_deliver]) op)
  · rw [handleEvents_of_not_deliverable hd]
    refine .inl ?_
    cases op with
    | teleport c => exact clock_arrive h c
    | group k =>
      simp only
      split_ifs
      · exact clock_throwFrom (s := s.addUncaught t 1) h _
      · exact clock_toUser (s := s.mapGroup _ _) h
    | get w => exact clock_toUser h
    | deferIo i =>
      simp only
      split_ifs
      · exact clock_throwFrom (s := s.addUncaught t 1) h _
      · exact clock_toUser h

lemma polled_checkEvents (h : (s.journey j).ctx.pollingId = none) :
    s.Polled (s.checkEvents t j) j := by
  unfold checkEvents
  by_cases hd : (s.journey j).events.Deliverable (s.uncaught t)
  · rw [handleEvents_of_deliverable hd]
    exact polled_of_deliverable hd (clock_fly (by rwa [ctx_deliver]))
  · rw [handleEvents_of_not_deliverable hd]
    exact .inl rfl

lemma polled_disableEvents (h : (s.journey j).ctx.pollingId = none) (guard : Bool) :
    s.Polled (s.disableEvents t j guard) j := by
  unfold disableEvents
  by_cases hd : (s.journey j).events.Deliverable (s.uncaught t)
  · rw [handleEvents_of_deliverable hd]
    exact polled_of_deliverable hd (clock_fly (by rwa [ctx_deliver]))
  · rw [handleEvents_of_not_deliverable hd]
    refine .inl ?_
    apply clock_mapJourney_of_face
    cases guard <;> rfl

/-- The flag `eventsAllowed` is not seen. -/
lemma Polled.of_allowEvents (h : (s.allowEvents j).Polled s' j) : s.Polled s' j := by
  have hs : (s.allowEvents j).clock = s.clock := by
    rw [allowEvents]
    exact clock_mapJourney_of_face rfl
  have hj : ((s.allowEvents j).journey j).events.gr = (s.journey j).events.gr := by
    simp [allowEvents, mapJourney]
  unfold Polled at h ⊢
  rwa [hs, hj] at h

lemma polled_closeGuard : s.Polled (s.closeGuard t j) j := by
  apply Polled.of_allowEvents
  unfold closeGuard
  by_cases hd : ((s.allowEvents j).journey j).events.Deliverable ((s.allowEvents j).uncaught t)
  · rw [handleEvents_of_deliverable hd]
    exact polled_of_deliverable hd rfl
  · rw [handleEvents_of_not_deliverable hd]
    exact .inl rfl

/-! ### Actions as ticks -/

/-- What is seen of an action: the clock `c'` it leads to. -/
inductive Seen (s : Runtime) (a : Action) (c' : Clock) : Prop where
  | quiet (h : c' = s.clock)
  | deliver (j : ℕ) (hj : (s.clock.face j).status ≠ .normal) (h : c' = s.clock.deliver j)
  | openTimeout (j : ℕ) (h : c' = s.clock.openTimeout j)
  | cancelOne (j k : ℕ) (ks : List ℕ) (hk : (s.clock.face j).timeouts = k :: ks)
      (h : c' = s.clock.cancelOne j k ks)
  | closeTimeout (t j k : ℕ) (ha : a = .poll t j) (hk : (s.journey j).ctx = .polling k)
      (hd : ¬ (s.journey j).events.Deliverable (s.uncaught t)) (h : c' = s.clock.closeTimeout j k)
  | reset (j : ℕ) (h : c' = s.clock.reset j)
  | expire (k : ℕ) (hk : (s.timer k).phase = .armed) (h : c' = s.clock.expire k)
  | callback (k : ℕ) (ha : a = .callback k) (hk : (s.timer k).phase = .due)
      (h : c' = s.clock.callback k)
  | cancel (j : ℕ) (h : c' = s.clock.cancel j)

lemma Polled.seen (h : s.Polled s' j) (a : Action) : s.Seen a s'.clock := by
  rcases h with h | ⟨hj, h⟩
  · exact .quiet h
  · exact .deliver j hj h

lemma clock_start (s : Runtime) (j : ℕ) :
    (s.start j).clock = s.clock.reset j ∨ (s.start j).clock = s.clock := by
  have hj : (s.mapJourney j fun x => { x with
      ctx := .user, coro := ⟨true, true, false⟩, log := x.log ++ [.start] }).clock =
      s.clock.reset j :=
    clock_mapJourney s j _
  unfold start
  split_ifs
  · left
    split <;> exact hj
  · exact .inr rfl

lemma clock_resume (s : Runtime) (j : ℕ) : (s.resume j).clock = s.clock := by
  unfold resume
  split_ifs
  · split
    case h_1 op hop =>
      apply clock_mapJourney_of_face
      rw [Journey.face, Journey.face, hop]
      rfl
    case h_2 => rfl
  · rfl

lemma seen_closeScope {f : Frame} {fs : List Frame} (a : Action)
    (h : (s.journey j).ctx.pollingId = none) (hf : (s.journey j).frames = f :: fs) :
    s.Seen a ((s.mapJourney j fun x => { x with frames := fs }).closeScope t j f).clock := by
  have hj : (s.mapJourney j fun x => { x with frames := fs }).journey j =
      { s.journey j with frames := fs } := by simp [mapJourney]
  have hquiet : f.timeoutId = none →
      (s.mapJourney j fun x => { x with frames := fs }).clock = s.clock := by
    intro hid
    apply clock_mapJourney_of_face
    simp [Journey.face, hf, hid]
  cases f with
  | portal src b =>
    have := polled_teleport (s := s.mapJourney j fun x => { x with frames := fs }) (t := t) (j := j)
      (by rwa [hj]) src (.unportal src b)
    refine Polled.seen (j := j) ?_ a
    unfold Polled at this ⊢
    rwa [hquiet rfl, hj] at this
  | timeout k =>
    refine .cancelOne j k (fs.filterMap Frame.timeoutId) (by simp [clock, Journey.face, hf]; rfl) ?_
    rw [closeScope, Runtime.cancelOne, clock_mapJourney, clock_mapTimer, clock_mapJourney]
    rw [show ((s.mapJourney j fun x => { x with frames := fs }).mapTimer k _).journey j = _ from hj]
    simp only [Clock.cancelOne, Clock.setFace, Clock.setTimer, Function.update_idem, Clock.mk.injEq,
      and_true]
    exact ⟨rfl, rfl⟩
  | guard =>
    have := polled_closeGuard (s := s.mapJourney j fun x => { x with frames := fs }) (t := t)
      (j := j)
    refine Polled.seen (j := j) ?_ a
    unfold Polled at this ⊢
    rwa [hquiet rfl, hj] at this
  | destructor e =>
    refine .quiet ?_
    rw [← hquiet rfl]
    unfold closeScope closeDestructor
    split_ifs
    · exact clock_mapJourney_of_face rfl
    · rfl

lemma seen_poll (h : (s.journey j).ctx = .polling k) :
    s.Seen (.poll t j) (s.poll t j k).clock := by
  unfold poll
  by_cases hd : (s.journey j).events.Deliverable (s.uncaught t)
  · rw [handleEvents_of_deliverable hd]
    exact .deliver j hd.2.2 (clock_deliver rfl)
  · rw [handleEvents_of_not_deliverable hd]
    refine .closeTimeout t j k rfl h hd ?_
    simp only [clock_mapJourney, clock_mapTimer]
    rfl

lemma clock_cancel (s : Runtime) (j : ℕ) : (s.cancel j).clock = s.clock.cancel j := by
  rw [Runtime.cancel, clock_mapJourney, Clock.cancel]
  split_ifs with h
  · have h : (s.journey j).events.gr.status = .normal := h
    simp only [Journey.face, Goer.cancel, Goer.setStatus0_of_normal h]
    rfl
  · have h : (s.journey j).events.gr.status ≠ .normal := h
    rw [← setFace_clock s j]
    simp only [Journey.face, Goer.cancel, Goer.setStatus0_of_ne h]
    simp [Clock.setFace]

lemma clock_callback (s : Runtime) (k : ℕ) : (s.callback k).clock = s.clock.callback k := by
  rw [Runtime.callback, timedout, clock_mapJourney, clock_mapTimer, Clock.callback]
  by_cases h : (s.journey (s.timer k).owner).events.gr.status = .normal
  · rw [if_pos (show (s.clock.face (s.clock.timer k).owner).status = .normal from h)]
    simp only [mapTimer, Journey.face, Goer.timedout, Goer.setStatus0_of_normal h]
    rfl
  · rw [if_neg (show (s.clock.face (s.clock.timer k).owner).status ≠ .normal from h)]
    simp only [mapTimer, Journey.face, Goer.timedout, Goer.setStatus0_of_ne h]
    exact setFace_clock (s.mapTimer k fun x => { x with
      phase := .done, fired := x.fired || x.scope }) (s.timer k).owner

lemma seen_of_rule {a : Action} (hs : Rule s a s') : s.Seen a s'.clock := by
  cases hs with
  | dispatch t k h =>
    unfold dispatch
    split_ifs
    · rcases (s.take t k).clock_start k.journey with h | h
      · exact .reset _ h
      · exact .quiet h
    · exact .quiet (clock_resume _ _)
  | leave t j op h => exact (polled_leave (by rw [h.2.2]; rfl) op).seen _
  | jump t j h => exact .quiet (clock_jump s t j)
  | exit t j fails h => exact .quiet (clock_onExit0 s t j fails)
  | launch t j k h => exact .quiet (clock_launch s t k)
  | finish t j x hx hj h => exact .quiet (clock_finish s t j x)
  | go t d d' h hd => exact .quiet (clock_create s d' none)
  | request t j r h => exact (polled_request (by rw [h.1.2.2]; rfl) r).seen _
  | get t j c h hm => exact (polled_get (by rw [h.1.2.2]; rfl) c).seen _
  | portal t j d h => exact (polled_teleport (by rw [h.1.2.2]; rfl) d _).seen _
  | timeout t j h =>
    refine .openTimeout j ?_
    rw [Runtime.openTimeout, clock_mapJourney]
    rfl
  | guard t j h => exact (polled_disableEvents (by rw [h.1.2.2]; rfl) true).seen _
  | destructor t j h => exact .quiet (clock_mapJourney_of_face rfl)
  | closeScope t j f fs h hf => exact seen_closeScope _ (by rw [h.2.2]; rfl) hf
  | poll t j k h => exact seen_poll h.2.2
  | handleEvents t j h => exact (polled_checkEvents (by rw [h.1.2.2]; rfl)).seen _
  | disableEvents t j h => exact (polled_disableEvents (by rw [h.1.2.2]; rfl) false).seen _
  | enableEvents t j h =>
    refine (Polled.of_allowEvents (polled_checkEvents ?_)).seen _
    simp [allowEvents, mapJourney, h.1.2.2, Ctx.pollingId]
  | throw t j e h =>
    refine .quiet (clock_fly (s := s.addUncaught t 1) ?_)
    rw [show ((s.addUncaught t 1).journey j).ctx = .user from h.1.2.2]
    rfl
  | catching t j h he => exact .quiet (clock_mapJourney_of_face (s := s.addUncaught t (-1)) rfl)
  | ret t j v h hf => exact .quiet (clock_ret h.1.2.2 v)
  | escape t j e h he hf =>
    refine .quiet (clock_mapJourney_of_face (s := s.addUncaught t (-1)) ?_)
    have hc : ((s.addUncaught t (-1)).journey j).ctx = .user := h.2.2
    rw [Journey.face, Journey.face, hc]
    rfl
  | endCoro t j h => exact .quiet (clock_endCoro h.2.2)
  | put t c v h hm =>
    refine .quiet ?_
    unfold put
    split <;> rfl
  | handOff t v w h => exact .quiet (clock_fire _ _ _)
  | opening t c h hm => exact .quiet rfl
  | close t c h hm =>
    refine .quiet ?_
    unfold close
    split_ifs <;> rfl
  | closeNext t w ws h => exact .quiet (clock_fire _ _ _)
  | closeEnd t h => exact .quiet rfl
  | cancel j h => exact .cancel j (clock_cancel s j)
  | expire k h => exact .expire k h rfl
  | callback k h => exact .callback k rfl h (clock_callback s k)
  | complete i error h => exact .quiet (clock_proceed _ _)
  | attach d => exact .quiet rfl

end Runtime

end Synca
