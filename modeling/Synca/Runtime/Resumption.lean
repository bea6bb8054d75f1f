import Synca.Runtime.Batons

/-!
# One resumption per suspension

Every run of the runtime is a run of the relay, so the laws of the relay are laws of the runtime:
each journey leads a life, no `VERIFY` of `Coro` fails, and the counters count.
-/

namespace Synca

open Transition Relay

namespace Runtime

variable {s s' : Runtime} {t j k : ℕ} {stray : Prop} {a : Action}

/-- A `teleport` that finds an event to deliver after it has set the scheduler. -/
def Strays (s : Runtime) : Action → Prop
  | .request t j (.teleport d) =>
    d ≠ (s.journey j).sched ∧ (s.journey j).events.Deliverable (s.uncaught t)
  | .portal t j d              =>
    d ≠ (s.journey j).sched ∧ (s.journey j).events.Deliverable (s.uncaught t)
  | .closeScope t j            => match (s.journey j).frames with
    | .portal src _ :: _ =>
      src ≠ (s.journey j).sched ∧ (s.journey j).events.Deliverable (s.uncaught t)
    | _                  => False
  | _                          => False

/-! ### Actions as hops -/

lemma hops_of_eq (h : s'.relay = s.relay) : Hops stray s.relay s'.relay := by
  rw [h]

lemma hops_leave (ht : s.stage t j = some .running) (h : s'.relay = s.relay.leave j) :
    Hops stray s.relay s'.relay := by
  rw [h]
  exact .single (.leave t j ht)

/-- A call that has thrown, or has left the program to `std::terminate`. -/
lemma hops_thrown {c : Relay} (ht : c.stage t j = some .running)
    (h : s'.relay = c ∨ s'.relay = c.leave j) : Hops stray c s'.relay := by
  rcases h with h | h
  · rw [h]
  · rw [h]
    exact .single (.leave t j ht)

/-- `defer`, when its caller has led to `c`. -/
lemma hops_defer {c : Relay} {s₁ : Runtime} (hm : s₁.relay = c) (ht : c.stage t j = some .running)
    (op : Op) (d : Deferred)
    (hprep : (s₁.journey j).events.Deliverable (s₁.uncaught t) → Hop stray s.relay c)
    (hyield : Hop stray s.relay (c.yield t j d)) :
    Hops stray s.relay (s₁.defer t j op d).relay := by
  by_cases hdel : (s₁.journey j).events.Deliverable (s₁.uncaught t)
  · have hthrown := relay_defer_of_deliverable hdel op d
    rw [hm] at hthrown
    exact .head (hprep hdel) (hops_thrown ht hthrown)
  · rw [relay_defer_of_not_deliverable hdel, hm]
    exact .single hyield

lemma hops_teleport (ht : s.stage t j = some .running) (hu : (s.journey j).ctx = .user) (d : ℕ)
    (c : Caller) (hst : d ≠ (s.journey j).sched →
      (s.journey j).events.Deliverable (s.uncaught t) → stray) :
    Hops stray s.relay (s.teleport t j d c).relay := by
  unfold teleport
  split_ifs with hd
  · exact hops_leave ht (relay_arrive _ _ _ _)
  set s₁ := s.mapJourney j fun x => { x with sched := d } with hs₁
  have hm : s₁.relay = s.relay.move j d := relay_mapJourney (fun r => { r with sched := d }) rfl
  have hev : (s₁.journey j).events = (s.journey j).events := by simp [hs₁, mapJourney]
  have hhere : (s.relay.runner j).place = .here := congrArg Ctx.whereabouts hu
  refine hops_defer hm ht _ _ (fun hdel => ?_) (.depart t j d ht)
  rw [hev] at hdel
  exact .move (hst hd hdel) t j d ht hhere

lemma hops_goGroup (ht : s.stage t j = some .running) (kind : GroupKind) (size : ℕ) :
    Hops stray s.relay (s.goGroup t j kind size).relay :=
  hops_defer (relay_newTeam s j kind size) ht _ _ (fun _ => .newTeam j kind)
    (.goGroup t j kind ht)

lemma hops_deferIo (ht : s.stage t j = some .running) :
    Hops stray s.relay (s.deferIo t j).relay :=
  hops_defer (relay_newErrand s j) ht _ _ (fun _ => .newErrand j) (.deferIo t j ht)

lemma hops_get (ht : s.stage t j = some .running) {c : ℕ} (hmutex : (s.channel c).mutex = none) :
    Hops stray s.relay (s.get t j c).relay := by
  unfold get
  split
  · exact hops_of_eq (relay_mapChannel_of_eq rfl)
  split_ifs
  · rfl
  exact hops_defer (relay_newSeat s j c) ht _ _ (fun _ => .newSeat j c hmutex)
    (.get t j c ht hmutex)

lemma hops_request (ht : s.stage t j = some .running) (hu : (s.journey j).ctx = .user) (r : Request)
    (hst : s.Strays (.request t j r) → stray) : Hops stray s.relay (s.request t j r).relay := by
  cases r with
  | teleport d => exact hops_teleport ht hu d .user fun h₁ h₂ => hst ⟨h₁, h₂⟩
  | group kind size => exact hops_goGroup ht kind size
  | deferIo => exact hops_deferIo ht

lemma relay_leaveCall (s : Runtime) (t j : ℕ) (op : Op) :
    (s.leave t j op).relay = s.relay ∨ (s.leave t j op).relay = s.relay.leave j := by
  unfold Runtime.leave
  by_cases hd : (s.journey j).events.Deliverable (s.uncaught t)
  · rw [handleEvents_of_deliverable hd]
    have := (s.deliver t j { (s.journey j).events with gr := {} }).relay_throwFrom t j
      (.event ⟨(s.journey j).events.gr.status⟩) op
    rwa [relay_deliver] at this
  · rw [handleEvents_of_not_deliverable hd]
    have hthrow : ∀ e op', ((s.addUncaught t 1).throwFrom t j e op').relay = s.relay ∨
        ((s.addUncaught t 1).throwFrom t j e op').relay = s.relay.leave j := by
      intro e op'
      have := (s.addUncaught t 1).relay_throwFrom t j e op'
      rwa [relay_addUncaught] at this
    cases op with
    | teleport c => exact .inr (relay_arrive _ _ _ _)
    | group k =>
      simp only
      split_ifs
      · exact hthrow _ _
      · refine .inr ?_
        rw [relay_leave rfl, relay_mapGroup_of_eq rfl]
    | get w => exact .inr (relay_leave rfl)
    | deferIo i =>
      simp only
      split_ifs
      · exact hthrow _ _
      · exact .inr (relay_leave rfl)

lemma relay_checkEvents (s : Runtime) (t j : ℕ) : (s.checkEvents t j).relay = s.relay ∨
    (s.checkEvents t j).relay = s.relay.leave j := by
  unfold checkEvents
  have h := relay_handleEvents s t j
  split
  case h_1 e s' he =>
    rw [he] at h
    refine .inr ?_
    rw [relay_fly, h]
  case h_2 s' he =>
    rw [he] at h
    exact .inl h

lemma relay_disableEvents (s : Runtime) (t j : ℕ) (guard : Bool) :
    (s.disableEvents t j guard).relay = s.relay ∨
      (s.disableEvents t j guard).relay = s.relay.leave j := by
  unfold disableEvents
  have h := relay_handleEvents s t j
  split
  case h_1 e s' he =>
    rw [he] at h
    refine .inr ?_
    rw [relay_fly, h]
  case h_2 s' he =>
    rw [he] at h
    refine .inl ?_
    rw [relay_mapJourney_of_eq rfl, h]

lemma relay_allowEvents (s : Runtime) (j : ℕ) : (s.allowEvents j).relay = s.relay :=
  relay_mapJourney_of_eq rfl

lemma relay_closeGuard (s : Runtime) (t j : ℕ) : (s.closeGuard t j).relay = s.relay := by
  unfold closeGuard
  have h := relay_handleEvents (s.allowEvents j) t j
  rw [relay_allowEvents] at h
  split
  case h_1 e s' he =>
    rw [he] at h
    exact h
  case h_2 s' he =>
    rw [he] at h
    exact h

lemma relay_poll (s : Runtime) (t j k : ℕ) :
    (s.poll t j k).relay = s.relay ∨ (s.poll t j k).relay = s.relay.leave j := by
  unfold poll
  have h := relay_handleEvents s t j
  split
  case h_1 e s' he =>
    rw [he] at h
    exact .inl h
  case h_2 s' he =>
    rw [he] at h
    refine .inr ?_
    rw [relay_leave rfl]
    exact congrArg (Relay.leave · j) h

lemma hops_closeScope {f : Frame} {fs : List Frame} (ht : s.stage t j = some .running)
    (hu : (s.journey j).ctx = .user) (hf : (s.journey j).frames = f :: fs)
    (hst : s.Strays (.closeScope t j) → stray) : Hops stray s.relay
      ((s.mapJourney j fun x => { x with frames := fs }).closeScope t j f).relay := by
  set s₁ := s.mapJourney j fun x => { x with frames := fs } with hs₁
  have hq : s₁.relay = s.relay := relay_mapJourney_of_eq rfl
  have hj : s₁.journey j = { s.journey j with frames := fs } := by simp [hs₁, mapJourney]
  rw [← hq]
  cases f with
  | portal src b =>
    refine hops_teleport (s := s₁) ht (by rw [hj]; exact hu) src (.unportal src b)
      fun h₁ h₂ => hst ?_
    rw [hj] at h₁ h₂
    simp only [Strays, hf]
    exact ⟨h₁, h₂⟩
  | timeout k =>
    rw [closeScope, cancelOne]
    exact hops_leave (s := s₁) ht (relay_leave (s := s₁.mapTimer k _) rfl)
  | guard => exact hops_of_eq (relay_closeGuard _ _ _)
  | destructor e =>
    unfold closeScope closeDestructor
    split_ifs
    · exact hops_of_eq (relay_mapJourney_of_eq rfl)
    · exact hops_of_eq rfl

lemma hops_launch (ht : s.stage t j = some (.loop k)) :
    Hops stray s.relay (s.launch t k).relay := by
  simp only [Runtime.launch]
  split_ifs
  · split
    case h_1 => rfl
    case h_2 d hd =>
      rw [relay_hold, relay_mapGroup_of_eq rfl, relay_create]
      exact .single (.launch t j k d ht)
  · rw [relay_setStage, relay_release, release_setStage]
    exact .single (.endLoop t j k ht)

lemma hops_finish {x : Exec} (hx : (s.thread t).exec = some x) (hg : x.stage = .finishing) :
    Hops stray s.relay (s.finish t x.journey x).relay := by
  unfold finish
  have hdrop : Hops stray s.relay (s.giveUp t x).relay := by
    rw [relay_giveUp]
    exact .single (.drop t x hx hg)
  split_ifs
  · exact hdrop
  · split
    case h_1 k i hs hr =>
      rw [relay_release, relay_giveUp]
      exact .single (.finish t k x hx hg hs (role_relay hr))
    case h_2 => exact hdrop

lemma hops_ret (ht : s.stage t j = some .running) (v : Option ℕ) :
    Hops stray s.relay (s.ret j v).relay := by
  have hm : (s.mapJourney j fun x => { x with ctx := .closing }).relay = s.relay.leave j :=
    relay_leave rfl
  have hl : Hops stray s.relay (s.relay.leave j) := .single (.leave t j ht)
  unfold ret
  split
  case h_1 =>
    rw [hm]
    exact hl
  case h_2 k i hr =>
    have hrole : ((s.relay.leave j).runner j).role = some k := by
      rw [Relay.leave, runner_mapRunner, if_pos rfl]
      exact role_relay hr
    have hbump : (s.group k).kind ≠ .goWait → Hops stray s.relay ((s.relay.leave j).bump k) :=
      fun hk => hl.tail (.win t j k ht hrole hk)
    split
    case h_1 hk =>
      rw [relay_win, hm]
      exact hbump (by rw [hk]; simp)
    case h_2 hk =>
      rw [relay_tryProceed, hm]
      exact hbump (by rw [hk]; simp)
    case h_3 =>
      rw [hm]
      exact hl

lemma hops_endCoro (h : s.Runs t j .closing) : Hops stray s.relay (s.endCoro t j).relay := by
  have hm : ((s.mapJourney j fun x => { x with
      ctx := .ended, coro := { x.coro with started := false },
      log := x.log ++ [.finish] }).setStage t .switched).relay = s.relay.endCoro t j := by
    rw [relay_setStage, relay_mapJourney fun r => { r with
      started := false, log := r.log ++ [.finish] }]
    · rfl
    · simp [Journey.runner, h.2.2, Ctx.whereabouts]
  unfold Runtime.endCoro
  split
  case h_1 k i hr =>
    rw [relay_release, hm]
    exact .single (.endChild t j k h.1 (role_relay hr))
  case h_2 hr =>
    rw [hm]
    exact .single (.endCoro t j h.1 (congrArg (Option.map Prod.fst) hr))

lemma hops_onExit0 (ht : s.stage t j = some .exiting) (fails : Bool) :
    Hops stray s.relay (s.onExit0 t j fails).relay := by
  unfold onExit0
  split
  case h_1 hd =>
    have hm : (s.mapJourney j fun x => { x with
        alive := false, log := x.log ++ [.delete] }).relay =
        s.relay.mapRunner j fun r => { r with alive := false, log := r.log ++ [.delete] } :=
      relay_mapJourney _ rfl
    have hdel : (Runtime.setStage { s.mapJourney j fun x => { x with
        alive := false, log := x.log ++ [.delete] } with
        destroyed := s.destroyed + 1 } t .finishing).relay = s.relay.delete t j := by
      rw [relay_setStage]
      exact congrArg (fun c : Relay =>
        { c with destroyed := s.destroyed + 1 : Relay }.setStage t .finishing) hm
    rw [hdel]
    exact .single (.delete t j ht hd)
  case h_2 d hd =>
    split_ifs
    · rfl
    · rw [relay_runDeferred, relay_mapJourney (fun r => { r with deferHandler := none }) rfl]
      exact .single (.answer t j d ht hd)

/-- Every action is a sequence of hops. -/
theorem hops_of_rule (h : Rule s a s') : Hops (s.Strays a) s.relay s'.relay := by
  cases h with
  | dispatch t k h =>
    rw [relay_dispatch]
    exact .single (.dispatch t k h.1 h.2.2.1 h.2.2.2)
  | leave t j op h => exact hops_thrown h.1 (relay_leaveCall s t j op)
  | jump t j h =>
    rw [relay_jump]
    exact .single (.save t j _ h)
  | exit t j fails h => exact hops_onExit0 h fails
  | launch t j k h => exact hops_launch h
  | finish t j x hx hj h =>
    subst hj
    exact hops_finish hx h
  | go t d d' h hd =>
    rw [relay_create]
    exact .single (.create d')
  | request t j r h => exact hops_request h.1.1 h.1.2.2 r id
  | get t j c h hm => exact hops_get h.1.1 hm
  | portal t j d h => exact hops_teleport h.1.1 h.1.2.2 d _ fun h₁ h₂ => ⟨h₁, h₂⟩
  | timeout t j h =>
    rw [openTimeout, relay_mapJourney_of_eq rfl]
    exact hops_of_eq rfl
  | guard t j h => exact hops_thrown h.1.1 (relay_disableEvents s t j true)
  | destructor t j h => exact hops_of_eq (relay_mapJourney_of_eq rfl)
  | closeScope t j f fs h hf => exact hops_closeScope h.1 h.2.2 hf id
  | poll t j k h => exact hops_thrown h.1 (relay_poll s t j k)
  | handleEvents t j h => exact hops_thrown h.1.1 (relay_checkEvents s t j)
  | disableEvents t j h => exact hops_thrown h.1.1 (relay_disableEvents s t j false)
  | enableEvents t j h =>
    have := relay_checkEvents (s.allowEvents j) t j
    rw [relay_allowEvents] at this
    exact hops_thrown h.1.1 this
  | throw t j e h =>
    refine hops_leave h.1.1 ?_
    rw [relay_fly, relay_addUncaught]
  | catching t j h he =>
    rw [relay_mapJourney_of_eq rfl, relay_addUncaught]
  | ret t j v h hf => exact hops_ret h.1.1 v
  | escape t j e h he hf =>
    refine hops_leave h.1 ?_
    rw [← relay_addUncaught s t (-1)]
    exact relay_leave rfl
  | endCoro t j h => exact hops_endCoro h
  | put t c v h hm =>
    unfold put
    split
    case h_1 w ws hw =>
      rw [relay_setCall, relay_mapChannel (fun x => { x with waiters := ws }) rfl]
      exact .single (.pop t c w ws hm hw (hand_relay h.1))
    case h_2 => exact hops_of_eq (relay_mapChannel_of_eq rfl)
  | handOff t v w h =>
    rw [relay_fire, relay_setCall]
    exact .single (.fire t w [] (hand_relay h))
  | opening t c h hm => exact hops_of_eq (relay_mapChannel_of_eq rfl)
  | close t c h hm =>
    unfold close
    split_ifs
    · rfl
    · rw [relay_setCall, relay_mapChannel (fun x => { x with waiters := [] }) rfl]
      exact .single (.sweep t c hm (hand_relay h.1))
  | closeNext t w ws h =>
    rw [relay_fire, relay_setCall]
    exact .single (.fire t w ws (hand_relay h))
  | closeEnd t h =>
    refine hops_of_eq ?_
    have hh : s.relay.hand t = ThreadCall.idle.hand := (hand_relay h).trans rfl
    rw [relay_setCall, Relay.setHand, ← hh, Function.update_eq_self]
  | cancel j h => exact hops_of_eq (relay_mapJourney_of_eq rfl)
  | expire k h => exact hops_of_eq rfl
  | callback k h =>
    rw [callback, timedout, relay_mapJourney_of_eq rfl]
    exact hops_of_eq rfl
  | complete i error h =>
    have hm : (s.mapIo i fun x => { x with pending := false, error := error }).relay =
        s.relay.mapErrand i fun x => { x with pending := false } := relay_mapIo _ rfl
    rw [Runtime.complete, relay_proceed, hm]
    exact .single (.complete i h)
  | attach d => exact hops_of_eq rfl

/-! ### The law -/

lemma relay_init (h : machine.init s) : s.relay.Sound := by
  obtain ⟨alone, rfl⟩ := h
  exact .init alone

theorem inductive_sound : machine.Inductive (fun _ _ => True) fun s => s.relay.Sound where
  init _ := relay_init
  step _ _ _ hS _ hs := hS.hops (hops_of_rule (.of_step hs))

/-- The journeys that exist. -/
def living (s : Runtime) : Finset ℕ := s.relay.living

lemma mem_living (hS : s.relay.Sound) : j ∈ s.living ↔ (s.journey j).alive = true := by
  constructor
  · intro h
    exact (Finset.mem_filter.mp h).2
  · intro h
    have hle : j ≤ s.created := hS.shares.born j (.inl h)
    exact Finset.mem_filter.mpr ⟨Finset.mem_range.mpr (Nat.lt_succ_of_le hle), h⟩

/-- In every state of every run each journey has led a life: created, started, then proceeded once
and resumed once for each yield, after its context was saved, and deleted once, after its handler
has ended. No coroutine was started twice or resumed while it was running or not started, and the
counters tell the number of journeys that exist. -/
theorem one_resumption_per_suspension (h : machine.Reachable s) :
    (∀ j, ∃ l, Life.absent.after (s.journey j).log = some l) ∧ s.fault = false ∧
      (∀ j, j ∈ s.living ↔ (s.journey j).alive = true) ∧
      s.created = s.destroyed + s.living.card := by
  have hS := inductive_sound.holds h
  refine ⟨fun j => ?_, hS.tallied.fault, fun j => mem_living hS, hS.tallied.count⟩
  obtain ⟨l, hl⟩ := hS.lives.leads j
  exact ⟨l, hl.after⟩

/-- A journey teleports, ends and is deleted, with a cancel in between that nobody hears. -/
def wholeLife : List Action :=
  [.go 0 (some 1), .dispatch 0 ⟨1, 1, true⟩, .request 0 1 (.teleport 2), .jump 0 1,
    .exit 0 1 false, .finish 0 1, .dispatch 1 ⟨2, 1, false⟩, .leave 1 1, .cancel 1, .ret 1 1 none,
    .endCoro 1 1, .jump 1 1, .exit 1 1 false]

theorem one_resumption_wholeLife : ∃ s, machine.exec {} wholeLife = some s ∧
    (s.journey 1).log =
      [.create, .start, .yield, .save, .proceed, .resume, .finish, .save, .delete] ∧
    (∀ j, ∃ l, Life.absent.after (s.journey j).log = some l) ∧ s.fault = false ∧
      (∀ j, j ∈ s.living ↔ (s.journey j).alive = true) ∧
      s.created = s.destroyed + s.living.card :=
  have he : machine.exec {} wholeLife = some _ := rfl
  ⟨_, he, rfl, one_resumption_per_suspension (.of_exec ⟨_, rfl⟩ he)⟩

end Runtime

end Synca
