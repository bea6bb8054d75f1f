import Synca.Relay.Runs
import Synca.Runtime.Rules

/-!
# The runtime is a relay

What an action of the runtime does to the rights of journeys is a sequence of hops of the relay. The
hop `move`, with which a journey stays where it is under another scheduler, is needed only for a
`teleport` that finds an event to deliver.
-/

namespace Synca

open Transition Relay

def Ctx.whereabouts : Ctx → Whereabouts
  | .yielded _ => .away
  | .resumed _ => .back
  | _          => .here

def Journey.runner (x : Journey) : Runner where
  alive        := x.alive
  sched        := x.sched
  started      := x.coro.started
  running      := x.coro.running
  deferHandler := x.deferHandler
  place        := x.ctx.whereabouts
  role         := x.role.map Prod.fst
  log          := x.log

def Group.team (x : Group) : Team := ⟨x.kind, x.owner, x.began, x.holders, x.counter⟩

def ChannelWaiter.seat (x : ChannelWaiter) : Seat := ⟨x.owner, x.channel, x.phase⟩

def WaiterList.line (x : WaiterList) : Line := ⟨x.mutex, x.waiters⟩

def Io.errand (x : Io) : Errand := ⟨x.owner, x.pending⟩

def ThreadCall.hand : ThreadCall → List ℕ
  | .idle        => []
  | .handing _ w => [w]
  | .walking ws  => ws

namespace Runtime

def relay (s : Runtime) : Relay where
  runner j  := (s.journey j).runner
  created   := s.created
  destroyed := s.destroyed
  posted    := s.posted
  exec t    := (s.thread t).exec
  hand t    := (s.thread t).call.hand
  alone     := s.alone
  strand    := s.strand
  team k    := (s.group k).team
  teams     := s.groups
  line c    := (s.channel c).line
  seat w    := (s.waiter w).seat
  seats     := s.waiters
  errand i  := (s.io i).errand
  errands   := s.ios
  fault     := s.fault

variable {s s' : Runtime} {t j k : ℕ}

lemma exec_of_stage {g : Stage} (h : s.stage t j = some g) :
    ∃ x, (s.thread t).exec = some x ∧ x.journey = j ∧ x.stage = g :=
  (stage_eq_some_iff (c := s.relay)).mp h

lemma role_relay {i : ℕ} (h : (s.journey j).role = some (k, i)) :
    (s.relay.runner j).role = some k :=
  congrArg (Option.map Prod.fst) h

lemma hand_relay {x : ThreadCall} (h : (s.thread t).call = x) : s.relay.hand t = x.hand :=
  congrArg ThreadCall.hand h

/-! ### Updates -/

/-- The view of a function updated at one place. -/
lemma update_comp {α β : Type*} (φ : α → β) (f : ℕ → α) (i : ℕ) (x : α) :
    (fun n => φ (Function.update f i x n)) = Function.update (fun n => φ (f n)) i (φ x) := by
  funext n
  simp only [Function.update_apply]
  split_ifs <;> rfl

lemma relay_mapJourney {f : Journey → Journey} (g : Runner → Runner)
    (h : (f (s.journey j)).runner = g (s.journey j).runner) :
    (s.mapJourney j f).relay = s.relay.mapRunner j g := by
  simp only [relay, mapJourney, Relay.mapRunner, update_comp Journey.runner, h]

lemma relay_mapJourney_of_eq {f : Journey → Journey}
    (h : (f (s.journey j)).runner = (s.journey j).runner) : (s.mapJourney j f).relay = s.relay := by
  simp only [relay, mapJourney, update_comp Journey.runner, h]
  simp

lemma relay_mapExec (e : Exec → Exec) : (s.mapThread t fun th =>
    { th with exec := th.exec.map e }).relay = s.relay.mapExec t e := by
  simp only [relay, mapThread, Relay.mapExec, update_comp Thread.exec,
    update_comp fun th : Thread => th.call.hand]
  simp

lemma relay_setStage (s : Runtime) (t : ℕ) (g : Stage) :
    (s.setStage t g).relay = s.relay.setStage t g :=
  relay_mapExec _

lemma relay_setCall (s : Runtime) (t : ℕ) (x : ThreadCall) :
    (s.setCall t x).relay = s.relay.setHand t x.hand := by
  simp only [relay, setCall, mapThread, Relay.setHand, update_comp Thread.exec,
    update_comp fun th : Thread => th.call.hand]
  simp

lemma relay_addUncaught (s : Runtime) (t : ℕ) (n : ℤ) : (s.addUncaught t n).relay = s.relay := by
  simp only [relay, addUncaught, mapThread, update_comp Thread.exec,
    update_comp fun th : Thread => th.call.hand]
  simp

lemma relay_mapGroup {f : Group → Group} (g : Team → Team)
    (h : (f (s.group k)).team = g (s.group k).team) :
    (s.mapGroup k f).relay = s.relay.mapTeam k g := by
  simp only [relay, mapGroup, Relay.mapTeam, update_comp Group.team, h]

lemma relay_mapGroup_of_eq {f : Group → Group} (h : (f (s.group k)).team = (s.group k).team) :
    (s.mapGroup k f).relay = s.relay := by
  simp only [relay, mapGroup, update_comp Group.team, h]
  simp

lemma relay_mapChannel {c : ℕ} {f : WaiterList → WaiterList} (g : Line → Line)
    (h : (f (s.channel c)).line = g (s.channel c).line) :
    (s.mapChannel c f).relay = s.relay.mapLine c g := by
  simp only [relay, mapChannel, Relay.mapLine, update_comp WaiterList.line, h]

lemma relay_mapChannel_of_eq {c : ℕ} {f : WaiterList → WaiterList}
    (h : (f (s.channel c)).line = (s.channel c).line) : (s.mapChannel c f).relay = s.relay := by
  simp only [relay, mapChannel, update_comp WaiterList.line, h]
  simp

lemma relay_mapWaiter {w : ℕ} {f : ChannelWaiter → ChannelWaiter} (g : Seat → Seat)
    (h : (f (s.waiter w)).seat = g (s.waiter w).seat) :
    (s.mapWaiter w f).relay = s.relay.mapSeat w g := by
  simp only [relay, mapWaiter, Relay.mapSeat, update_comp ChannelWaiter.seat, h]

lemma relay_mapIo {i : ℕ} {f : Io → Io} (g : Errand → Errand)
    (h : (f (s.io i)).errand = g (s.io i).errand) :
    (s.mapIo i f).relay = s.relay.mapErrand i g := by
  simp only [relay, mapIo, Relay.mapErrand, update_comp Io.errand, h]

/-! ### Functions -/

lemma relay_schedule0 (s : Runtime) (j : ℕ) (b : Bool) :
    (s.schedule0 j b).relay = s.relay.post j b := rfl

lemma relay_record (s : Runtime) (j : ℕ) (e : LifeEvent) :
    (s.record j e).relay = s.relay.record j e :=
  relay_mapJourney (fun r => { r with log := r.log ++ [e] }) rfl

lemma relay_proceed (s : Runtime) (j : ℕ) : (s.proceed j).relay = s.relay.proceed j := by
  rw [Runtime.proceed, relay_schedule0, relay_record]
  rfl

lemma relay_construct (s : Runtime) (d : ℕ) (r : Option (ℕ × ℕ)) :
    (s.construct d r).relay = s.relay.construct d (r.map Prod.fst) := by
  have h : (s.mapJourney (s.created + 1) fun x => { x with
      alive := true, sched := d, role := r, log := x.log ++ [.create] }).relay =
      s.relay.mapRunner (s.created + 1) fun x => { x with
        alive := true, sched := d, role := r.map Prod.fst, log := x.log ++ [.create] } :=
    relay_mapJourney _ rfl
  exact congrArg (fun c : Relay => { c with created := s.created + 1 }) h

lemma relay_create (s : Runtime) (d : ℕ) (r : Option (ℕ × ℕ)) :
    (s.create d r).relay = s.relay.create d (r.map Prod.fst) := by
  rw [Runtime.create, relay_schedule0, relay_construct]
  rfl

lemma relay_bump (s : Runtime) (k : ℕ) {f : Group → Group}
    (hf : (f { s.group k with counter := (s.group k).counter + 1 }).team =
      { (s.group k).team with counter := (s.group k).counter + 1 }) :
    (if (s.group k).counter = 0 then
      ((s.mapGroup k fun x => { x with counter := x.counter + 1 }).mapGroup k f).proceed
        (s.group k).owner
      else s.mapGroup k fun x => { x with counter := x.counter + 1 }).relay = s.relay.bump k := by
  have h₁ : (s.mapGroup k fun x => { x with counter := x.counter + 1 }).relay =
      s.relay.mapTeam k fun x => { x with counter := x.counter + 1 } := relay_mapGroup _ rfl
  have h₂ : ((s.mapGroup k fun x => { x with counter := x.counter + 1 }).mapGroup k f).relay =
      s.relay.mapTeam k fun x => { x with counter := x.counter + 1 } := by
    rw [relay_mapGroup_of_eq, h₁]
    simp only [mapGroup, Function.update_self]
    exact hf
  simp only [Relay.bump]
  split_ifs with hc hc' hc'
  · rw [relay_proceed, h₂]
    rfl
  · exact absurd hc hc'
  · exact absurd hc' hc
  · exact h₁

lemma relay_tryProceed (s : Runtime) (k : ℕ) (v : Option ℕ) :
    (s.tryProceed k v).relay = s.relay.bump k :=
  relay_bump s k (f := fun x => { x with result := v }) rfl

lemma relay_win (s : Runtime) (k i : ℕ) : (s.win k i).relay = s.relay.bump k :=
  relay_bump s k (f := fun x => { x with index := some i }) rfl

lemma relay_deleter (s : Runtime) (k : ℕ) : (s.deleter k).relay = s.relay.settle k := by
  unfold deleter settle
  rw [show (s.relay.team k).kind = (s.group k).kind from rfl]
  cases (s.group k).kind with
  | goWait => exact relay_proceed _ _
  | goAnyWait => rfl
  | goAnyResult => exact relay_tryProceed _ _ _

lemma relay_hold (s : Runtime) (k : ℕ) (h : Holder) : (s.hold k h).relay = s.relay.hold k h :=
  relay_mapGroup (fun x => { x with holders := x.holders ++ [h] }) rfl

lemma relay_release (s : Runtime) (k : ℕ) (h : Holder) :
    (s.release k h).relay = s.relay.release k h := by
  have hm : (s.mapGroup k fun x => { x with holders := x.holders.erase h }).relay =
      s.relay.mapTeam k fun x => { x with holders := x.holders.erase h } := relay_mapGroup _ rfl
  simp only [Runtime.release, Relay.release]
  rw [← hm]
  show (if ((s.mapGroup k _).group k).holders = [] then _ else _ : Runtime).relay =
    if ((s.mapGroup k _).group k).holders = [] then _ else _
  split_ifs
  · exact relay_deleter _ _
  · rfl

lemma relay_yield (s : Runtime) (t j : ℕ) (op : Op) (h : Deferred) :
    (s.yield t j op h).relay = s.relay.yield t j h := by
  rw [Runtime.yield, relay_setStage, relay_mapJourney (fun r => { r with
    place := .away, deferHandler := some h, log := r.log ++ [.yield] }) rfl]
  rfl

/-- User code, or another part of the library, takes over from a call. -/
lemma relay_leave {f : Journey → Journey} (h : (f (s.journey j)).runner =
    { (s.journey j).runner with place := .here }) : (s.mapJourney j f).relay = s.relay.leave j :=
  relay_mapJourney (fun r => { r with place := .here }) h

lemma relay_fly (s : Runtime) (j : ℕ) (e : Exn) : (s.fly j e).relay = s.relay.leave j :=
  relay_leave rfl

lemma relay_leavePortal (s : Runtime) (t j b : ℕ) : (s.leavePortal t j b).relay = s.relay :=
  relay_mapJourney_of_eq rfl

lemma relay_deliver (s : Runtime) (t j : ℕ) (e : Events) : (s.deliver t j e).relay = s.relay := by
  have h : (s.takeEvent t j e).relay = s.relay := by
    rw [takeEvent, relay_addUncaught, relay_mapJourney_of_eq rfl]
  unfold deliver
  split <;> exact h

lemma relay_handleEvents (s : Runtime) (t j : ℕ) : (s.handleEvents t j).2.relay = s.relay := by
  by_cases hd : (s.journey j).events.Deliverable (s.uncaught t)
  · rw [handleEvents_of_deliverable hd]
    exact relay_deliver _ _ _ _
  · rw [handleEvents_of_not_deliverable hd]

/-- An exception leaves a call, or would leave a destructor. -/
lemma relay_throwFrom (s : Runtime) (t j : ℕ) (e : Exn) (op : Op) :
    (s.throwFrom t j e op).relay = s.relay ∨ (s.throwFrom t j e op).relay = s.relay.leave j := by
  unfold throwFrom
  split
  · exact .inr (relay_fly _ _ _)
  · refine .inr ?_
    rw [relay_fly, relay_leavePortal]
  · exact .inl rfl
  · refine .inr ?_
    rw [relay_fly, relay_mapGroup_of_eq rfl]
  · exact .inr (relay_fly _ _ _)
  · exact .inr (relay_fly _ _ _)

lemma relay_defer_of_deliverable (h : (s.journey j).events.Deliverable (s.uncaught t)) (op : Op)
    (d : Deferred) : (s.defer t j op d).relay = s.relay ∨
      (s.defer t j op d).relay = s.relay.leave j := by
  unfold defer
  rw [handleEvents_of_deliverable h]
  have := (s.deliver t j { (s.journey j).events with gr := {} }).relay_throwFrom t j
    (.event ⟨(s.journey j).events.gr.status⟩) op
  rwa [relay_deliver] at this

lemma relay_defer_of_not_deliverable (h : ¬ (s.journey j).events.Deliverable (s.uncaught t))
    (op : Op) (d : Deferred) : (s.defer t j op d).relay = s.relay.yield t j d := by
  unfold defer
  rw [handleEvents_of_not_deliverable h]
  exact relay_yield _ _ _ _ _

lemma relay_arrive (s : Runtime) (t j : ℕ) (c : Caller) :
    (s.arrive t j c).relay = s.relay.leave j := by
  cases c with
  | user =>
    rw [arrive]
    exact relay_leave rfl
  | portal src b =>
    rw [arrive]
    exact relay_leave rfl
  | unportal src b =>
    rw [arrive, ← relay_leavePortal s t j b]
    exact relay_leave rfl

lemma relay_newTeam (s : Runtime) (j : ℕ) (kind : GroupKind) (size : ℕ) :
    ({ s.mapGroup s.groups fun x => { x with kind := kind, owner := j, size := size } with
      groups := s.groups + 1 } : Runtime).relay = s.relay.newTeam j kind := by
  have h : (s.mapGroup s.groups fun x => { x with
      kind := kind, owner := j, size := size }).relay =
      s.relay.mapTeam s.groups fun x => { x with kind := kind, owner := j } := relay_mapGroup _ rfl
  exact congrArg (fun c : Relay => { c with teams := s.groups + 1 }) h

lemma relay_newSeat (s : Runtime) (j c : ℕ) :
    ({ (s.mapWaiter s.waiters fun x => { x with owner := j, channel := c }).mapChannel c fun x =>
        { x with waiters := s.waiters :: x.waiters, mutex := some s.waiters } with
      waiters := s.waiters + 1 } : Runtime).relay = s.relay.newSeat j c := by
  have h₁ : (s.mapWaiter s.waiters fun x => { x with owner := j, channel := c }).relay =
      s.relay.mapSeat s.waiters fun x => { x with owner := j, channel := c } :=
    relay_mapWaiter _ rfl
  have h₂ : ((s.mapWaiter s.waiters fun x => { x with owner := j, channel := c }).mapChannel c
      fun x => { x with waiters := s.waiters :: x.waiters, mutex := some s.waiters }).relay =
      (s.relay.mapSeat s.waiters fun x => { x with owner := j, channel := c }).mapLine c fun x =>
        { x with waiters := s.waiters :: x.waiters, mutex := some s.waiters } := by
    rw [relay_mapChannel (fun x => { x with
      waiters := s.waiters :: x.waiters, mutex := some s.waiters }) rfl, h₁]
  exact congrArg (fun c : Relay => { c with seats := s.waiters + 1 }) h₂

lemma relay_newErrand (s : Runtime) (j : ℕ) :
    ({ s.mapIo s.ios fun x => { x with owner := j } with ios := s.ios + 1 } : Runtime).relay =
      s.relay.newErrand j := by
  have h : (s.mapIo s.ios fun x => { x with owner := j }).relay =
      s.relay.mapErrand s.ios fun x => { x with owner := j } := relay_mapIo _ rfl
  exact congrArg (fun c : Relay => { c with errands := s.ios + 1 }) h

lemma relay_take (s : Runtime) (t : ℕ) (k : Task) : (s.take t k).relay = s.relay.take t k := by
  have h : (s.mapThread t fun th => { th with
      exec := some ⟨k.sched, k.journey, k.start, false, .running⟩ }).relay = { s.relay with
        exec := Function.update s.relay.exec t
          (some ⟨k.sched, k.journey, k.start, false, .running⟩) } := by
    simp only [relay, mapThread, update_comp Thread.exec,
      update_comp fun th : Thread => th.call.hand]
    simp
  exact congrArg (fun c : Relay => { c with
    posted := s.posted.erase k
    strand := if s.alone k.sched then Function.update s.strand k.sched (some t)
              else s.strand }) h

lemma relay_start (s : Runtime) (j : ℕ) : (s.start j).relay = s.relay.start j := by
  have hm : (s.mapJourney j fun x => { x with
      ctx := .user, coro := ⟨true, true, false⟩, log := x.log ++ [.start] }).relay =
      s.relay.mapRunner j fun r => { r with
        started := true, running := true, place := .here, log := r.log ++ [.start] } :=
    relay_mapJourney _ rfl
  unfold Runtime.start Relay.start
  rw [← hm]
  show _ = if (s.journey j).alive = true ∧
    ¬ ((s.journey j).coro.started = true ∨ (s.journey j).coro.running = true) then _ else _
  split_ifs
  · have hrole : (s.relay.runner j).role = (s.journey j).role.map Prod.fst := rfl
    rw [hrole]
    cases (s.journey j).role with
    | none => rfl
    | some r => exact relay_hold _ _ _
  · rfl

lemma relay_resume (s : Runtime) (j : ℕ) : (s.resume j).relay = s.relay.resume j := by
  unfold Runtime.resume Relay.resume
  show _ = if (s.journey j).alive = true ∧ (s.journey j).coro.started = true ∧
    ¬ (s.journey j).coro.running = true ∧ (s.journey j).ctx.whereabouts = .away then _ else _
  cases hc : (s.journey j).ctx with
  | yielded op =>
    have hw : (Ctx.yielded op).whereabouts = .away := rfl
    simp only [hw, and_true]
    split_ifs
    · exact relay_mapJourney (fun r => { r with
        running := true, place := .back, log := r.log ++ [.resume] }) rfl
    · rfl
  | fresh | user | polling | resumed | closing | ended =>
    simp only [Ctx.whereabouts, reduceCtorEq, and_false, if_false]
    split_ifs <;> rfl

lemma relay_dispatch (s : Runtime) (t : ℕ) (k : Task) :
    (s.dispatch t k).relay = s.relay.dispatch t k := by
  unfold Runtime.dispatch Relay.dispatch
  split_ifs
  · rw [relay_start, relay_take]
  · rw [relay_resume, relay_take]

lemma relay_jump (s : Runtime) (t j : ℕ) :
    (s.jump t j).relay = s.relay.save t j (s.journey j).coro.exc := by
  have hm : (s.mapJourney j fun x => { x with
      coro := { x.coro with running := false }, log := x.log ++ [.save] }).relay =
      s.relay.mapRunner j fun r => { r with running := false, log := r.log ++ [.save] } :=
    relay_mapJourney _ rfl
  simp only [Runtime.jump]
  split_ifs with he
  · rw [relay_addUncaught, relay_mapExec, relay_setStage, hm, he]
    simp [Relay.save, Relay.setStage, Relay.mapExec, Function.comp_def]
  · rw [relay_setStage, hm]
    simp [Relay.save, Relay.setStage, he]

lemma relay_runDeferred (s : Runtime) (t j : ℕ) (h : Deferred) :
    (s.runDeferred t j h).relay = s.relay.answer t j h := by
  cases h with
  | proceed =>
    rw [runDeferred, relay_setStage, relay_proceed]
    rfl
  | launch k =>
    rw [runDeferred, relay_setStage, relay_mapGroup (fun x => { x with
      began := true, holders := [.loop] }) rfl]
    rfl
  | setProceed w =>
    rw [runDeferred, relay_setStage, relay_mapChannel (fun x => { x with mutex := none }) rfl,
      relay_mapWaiter (fun x => { x with phase := .armed }) rfl]
    rfl
  | startIo i =>
    rw [runDeferred, relay_setStage, relay_mapIo (fun x => { x with pending := true }) rfl]
    rfl

lemma relay_giveUp (s : Runtime) (t : ℕ) (x : Exec) :
    (s.giveUp t x).relay = s.relay.giveUp t x := by
  have h : (s.mapThread t fun th => { th with exec := none }).relay =
      { s.relay with exec := Function.update s.relay.exec t none } := by
    simp only [relay, mapThread, update_comp Thread.exec,
      update_comp fun th : Thread => th.call.hand]
    simp
  exact congrArg (fun c : Relay => { c with
    strand := if s.alone x.via then Function.update s.strand x.via none else s.strand }) h

lemma relay_fire (s : Runtime) (w : ℕ) (v : Option ℕ) : (s.fire w v).relay = s.relay.fire w := by
  unfold Runtime.fire Relay.fire
  rw [show (s.relay.seat w).phase = (s.waiter w).phase from rfl]
  have hm : (s.mapWaiter w fun x => { x with phase := .fired, val := v }).relay =
      s.relay.mapSeat w fun x => { x with phase := .fired } := relay_mapWaiter _ rfl
  cases (s.waiter w).phase with
  | pushed => rfl
  | armed | fired =>
    simp only
    rw [relay_proceed, hm]
    rfl

end Runtime

end Synca
