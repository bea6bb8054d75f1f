import Synca.Runtime.Travel

/-!
# Portals

A portal remembers the scheduler its journey names and teleports there when it is destroyed. This
leads back to where the construction began if the journey ran on the scheduler it named, if no event
interrupts the constructor, and if the destructor does not take the journey to be at home already
when it is not.
-/

namespace Synca

open Transition Relay

def Ctx.caller : Ctx → Option Caller
  | .yielded (.teleport c) => some c
  | .resumed (.teleport c) => some c
  | _                      => none

/-- The portals of a journey lead back to where their construction began. -/
structure Journey.Straight (x : Journey) : Prop where
  frames : ∀ src b, .portal src b ∈ x.frames → src = b
  entering : ∀ src b, x.ctx.caller = some (.portal src b) → src = b
  leaving : ∀ src b, x.ctx.caller = some (.unportal src b) → src = b ∧ x.sched = src
  exits : ∀ e ∈ x.exits, e.via = e.began ∧ e.sched = e.began

/-- What a call of `teleport` for a portal must remember; the journey names scheduler `d`. -/
structure Caller.Straight (c : Caller) (d : ℕ) : Prop where
  entering : ∀ src b, c = .portal src b → src = b
  leaving : ∀ src b, c = .unportal src b → src = b ∧ d = src

namespace Journey.Straight

variable {x y : Journey}

lemma same (hx : x.Straight) (hf : y.frames = x.frames) (hc : y.ctx = x.ctx)
    (hs : y.sched = x.sched) (he : y.exits = x.exits) : y.Straight where
  frames := hf ▸ hx.frames
  entering := hc ▸ hx.entering
  leaving := by rw [hc, hs]; exact hx.leaving
  exits := he ▸ hx.exits

/-- The journey is in no call of `teleport` for a portal. -/
lemma ease (hx : x.Straight) (hf : ∀ src b, .portal src b ∈ y.frames → .portal src b ∈ x.frames)
    (hc : y.ctx.caller = none) (he : y.exits = x.exits) : y.Straight where
  frames src b h := hx.frames src b (hf src b h)
  entering src b h := by rw [hc] at h; cases h
  leaving src b h := by rw [hc] at h; cases h
  exits := he ▸ hx.exits

lemma call (hx : x.Straight) (hf : y.frames = x.frames) {c : Caller}
    (hc : y.ctx.caller = some c) (hs : c.Straight y.sched) (he : y.exits = x.exits) :
    y.Straight where
  frames := hf ▸ hx.frames
  entering src b h := hs.entering src b (Option.some_injective _ (hc.symm.trans h))
  leaving src b h := hs.leaving src b (Option.some_injective _ (hc.symm.trans h))
  exits := he ▸ hx.exits

/-- A portal is constructed. -/
lemma push (hx : x.Straight) {src b : ℕ} (hb : src = b) : ({ x with
    ctx := .user, frames := .portal src b :: x.frames } : Journey).Straight where
  frames src' b' h := by
    rcases List.mem_cons.mp h with h | h
    · obtain ⟨rfl, rfl⟩ := Frame.portal.inj h
      exact hb
    · exact hx.frames src' b' h
  entering := nofun
  leaving := nofun
  exits := hx.exits

/-- A portal is left where its construction began. -/
lemma exit (hx : x.Straight) {b : ℕ} (hs : x.sched = b) :
    ({ x with exits := x.exits ++ [⟨b, b, x.sched⟩] } : Journey).Straight where
  frames := hx.frames
  entering := hx.entering
  leaving := hx.leaving
  exits e he := by
    rcases List.mem_append.mp he with he | he
    · exact hx.exits e he
    · obtain rfl := List.mem_singleton.mp he
      exact ⟨rfl, hs⟩

end Journey.Straight

namespace Runtime

variable {s s' : Runtime} {t j k : ℕ} {a : Action}

def Straight (s : Runtime) : Prop := ∀ j, (s.journey j).Straight

/-- A portal is constructed on the scheduler that the journey names, no event interrupts its
constructor, and its destructor does not skip the way back from another scheduler. -/
def PortalsQuietly (s : Runtime) : Action → Prop
  | .portal t j d   => s.via t = (s.journey j).sched ∧
    (d = (s.journey j).sched ∨ ¬ (s.journey j).events.Deliverable (s.uncaught t))
  | .leave t j      => match (s.journey j).ctx with
    | .resumed (.teleport (.portal _ _)) => ¬ (s.journey j).events.Deliverable (s.uncaught t)
    | _                                  => True
  | .closeScope t j => match (s.journey j).frames with
    | .portal src _ :: _ => src = (s.journey j).sched → s.via t = src
    | _                  => True
  | _               => True

instance (s : Runtime) (a : Action) : Decidable (s.PortalsQuietly a) := by
  induction a using Action.casesOn with
  | portal t j d => exact inferInstanceAs (Decidable (_ ∧ _))
  | leave t j =>
    dsimp only [PortalsQuietly]
    induction (s.journey j).ctx using Ctx.casesOn with
    | resumed op => induction op using Op.casesOn with
      | teleport d => induction d using Caller.casesOn <;> infer_instance
      | _ => exact .isTrue trivial
    | _ => exact .isTrue trivial
  | closeScope t j =>
    dsimp only [PortalsQuietly]
    induction (s.journey j).frames using List.casesOn with
    | nil => exact .isTrue trivial
    | cons f fs => induction f using Frame.casesOn <;> infer_instance
  | _ => exact .isTrue trivial

/-! ### Straightness and updates -/

lemma Straight.mapJourney (hS : s.Straight) {f : Journey → Journey}
    (hf : (f (s.journey j)).Straight) : (s.mapJourney j f).Straight := by
  intro i
  have h : (s.mapJourney j f).journey i = if i = j then f (s.journey j) else s.journey i :=
    Function.update_apply _ _ _ _
  rw [h]
  split_ifs
  · exact hf
  · exact hS i

lemma Straight.same (hS : s.Straight) {f : Journey → Journey}
    (hf : (f (s.journey j)).frames = (s.journey j).frames)
    (hc : (f (s.journey j)).ctx = (s.journey j).ctx)
    (hs : (f (s.journey j)).sched = (s.journey j).sched)
    (he : (f (s.journey j)).exits = (s.journey j).exits) : (s.mapJourney j f).Straight :=
  hS.mapJourney ((hS j).same hf hc hs he)

/-- Control goes to a place of the stack outside `teleport`. -/
lemma Straight.ease (hS : s.Straight) {f : Journey → Journey}
    (hf : (f (s.journey j)).frames = (s.journey j).frames)
    (hc : (f (s.journey j)).ctx.caller = none)
    (he : (f (s.journey j)).exits = (s.journey j).exits) : (s.mapJourney j f).Straight :=
  hS.mapJourney ((hS j).ease (fun _ _ => hf ▸ id) hc he)

/-! ### Functions that portals do not see -/

lemma straight_proceed (hS : s.Straight) (j : ℕ) : (s.proceed j).Straight := by
  have h : (s.record j .proceed).Straight := hS.same rfl rfl rfl rfl
  exact h

/-- The new journey is in no call. -/
lemma straight_create (hS : s.Straight) (hn : (s.journey (s.created + 1)).ctx.caller = none)
    (d : ℕ) (r : Option (ℕ × ℕ)) : (s.create d r).Straight := by
  have h : (s.mapJourney (s.created + 1) fun x => { x with
      alive := true, sched := d, role := r, log := x.log ++ [.create] }).Straight :=
    hS.ease rfl hn rfl
  exact h

lemma straight_tryProceed (hS : s.Straight) (k : ℕ) (v : Option ℕ) :
    (s.tryProceed k v).Straight := by
  simp only [tryProceed]
  split_ifs
  · exact straight_proceed (s := (s.mapGroup k _).mapGroup k _) hS _
  · exact hS

lemma straight_win (hS : s.Straight) (k i : ℕ) : (s.win k i).Straight := by
  simp only [win]
  split_ifs
  · exact straight_proceed (s := (s.mapGroup k _).mapGroup k _) hS _
  · exact hS

lemma straight_release (hS : s.Straight) (k : ℕ) (h : Holder) : (s.release k h).Straight := by
  have hm : (s.mapGroup k fun x => { x with holders := x.holders.erase h }).Straight := hS
  simp only [release]
  split_ifs
  · unfold deleter
    split
    · exact straight_proceed hm _
    · exact hm
    · exact straight_tryProceed hm _ _
  · exact hm

lemma straight_fire (hS : s.Straight) (w : ℕ) (v : Option ℕ) : (s.fire w v).Straight := by
  unfold fire
  split
  · exact hS
  · exact straight_proceed (s := s.mapWaiter w _) hS _

lemma straight_start (hS : s.Straight) (j : ℕ) : (s.start j).Straight := by
  have h : (s.mapJourney j fun x => { x with
      ctx := .user, coro := ⟨true, true, false⟩, log := x.log ++ [.start] }).Straight :=
    hS.ease rfl rfl rfl
  unfold start
  split_ifs
  · split <;> exact h
  · exact hS

/-- The call is the same before and after the switch. -/
lemma straight_resume (hS : s.Straight) (j : ℕ) : (s.resume j).Straight := by
  unfold resume
  split_ifs
  · split
    case h_1 op hop =>
      refine hS.mapJourney ?_
      cases op with
      | teleport c =>
        have hc : (s.journey j).ctx.caller = some c := by
          rw [hop]
          rfl
        refine (hS j).call rfl rfl ⟨fun src b h => ?_, fun src b h => ?_⟩ rfl
        · exact (hS j).entering src b (hc.trans (congrArg some h))
        · exact (hS j).leaving src b (hc.trans (congrArg some h))
      | group | get | deferIo => exact (hS j).ease (fun _ _ => id) rfl rfl
    case h_2 => exact hS
  · exact hS

lemma straight_jump (hS : s.Straight) (t j : ℕ) : (s.jump t j).Straight := by
  have h : (s.mapJourney j fun x => { x with
      coro := { x.coro with running := false }, log := x.log ++ [.save] }).Straight :=
    hS.same rfl rfl rfl rfl
  simp only [jump]
  split_ifs <;> exact h

lemma straight_runDeferred (hS : s.Straight) (t j : ℕ) (h : Deferred) :
    (s.runDeferred t j h).Straight := by
  cases h with
  | proceed => exact straight_proceed hS j
  | launch k => exact hS
  | setProceed w => exact hS
  | startIo i => exact hS

lemma straight_onExit0 (hS : s.Straight) (t j : ℕ) (fails : Bool) :
    (s.onExit0 t j fails).Straight := by
  unfold onExit0
  split
  · have h : (s.mapJourney j fun x => { x with
        alive := false, log := x.log ++ [.delete] }).Straight := hS.same rfl rfl rfl rfl
    exact h
  · split_ifs
    · exact hS
    · have h : (s.mapJourney j fun x => { x with deferHandler := none }).Straight :=
        hS.same rfl rfl rfl rfl
      exact straight_runDeferred h _ _ _

lemma straight_launch (hS : s.Straight) (hn : (s.journey (s.created + 1)).ctx.caller = none)
    (t k : ℕ) : (s.launch t k).Straight := by
  simp only [launch]
  split_ifs
  · split
    · exact hS
    · exact straight_create hS hn _ _
  · exact straight_release hS _ _

lemma straight_finish (hS : s.Straight) (t j : ℕ) (x : Exec) : (s.finish t j x).Straight := by
  unfold finish
  split_ifs
  · exact hS
  · split
    · exact straight_release (s := s.giveUp t x) hS _ _
    · exact hS

lemma straight_ret (hS : s.Straight) (j : ℕ) (v : Option ℕ) : (s.ret j v).Straight := by
  have h : (s.mapJourney j fun x => { x with ctx := .closing }).Straight := hS.ease rfl rfl rfl
  unfold ret
  split
  · exact h
  · split
    · exact straight_win h _ _
    · exact straight_tryProceed h _ _
    · exact h

lemma straight_endCoro (hS : s.Straight) (t j : ℕ) : (s.endCoro t j).Straight := by
  have h : (s.mapJourney j fun x => { x with
      ctx := .ended, coro := { x.coro with started := false },
      log := x.log ++ [.finish] }).Straight := hS.ease rfl rfl rfl
  unfold endCoro
  split
  · refine straight_release ?_ _ _
    exact h
  · exact h

lemma straight_deliver (hS : s.Straight) (t j : ℕ) (e : Events) :
    (s.deliver t j e).Straight := by
  have h : (s.mapJourney j fun x => { x with events := e, cause := none }).Straight :=
    hS.same rfl rfl rfl rfl
  unfold deliver
  split <;> exact h

lemma straight_fly (hS : s.Straight) (j : ℕ) (e : Exn) : (s.fly j e).Straight :=
  hS.ease rfl rfl rfl

/-- An exception leaves a call other than the construction of a portal. -/
lemma straight_throwFrom (hS : s.Straight) (t j : ℕ) (e : Exn) {op : Op}
    (ho : ∀ src b, op ≠ .teleport (.portal src b)) : (s.throwFrom t j e op).Straight := by
  unfold throwFrom
  split
  · exact straight_fly hS _ _
  · exact absurd rfl (ho _ _)
  · exact hS
  · exact straight_fly (s := s.mapGroup _ _) hS _ _
  · exact straight_fly hS _ _
  · exact straight_fly hS _ _

lemma straight_checkEvents (hS : s.Straight) (t j : ℕ) : (s.checkEvents t j).Straight := by
  unfold checkEvents
  by_cases hd : (s.journey j).events.Deliverable (s.uncaught t)
  · rw [handleEvents_of_deliverable hd]
    exact straight_fly (straight_deliver hS _ _ _) _ _
  · rw [handleEvents_of_not_deliverable hd]
    exact hS

lemma straight_allowEvents (hS : s.Straight) (j : ℕ) : (s.allowEvents j).Straight :=
  hS.same rfl rfl rfl rfl

lemma straight_disableEvents (hS : s.Straight) (t j : ℕ) (guard : Bool) :
    (s.disableEvents t j guard).Straight := by
  unfold disableEvents
  by_cases hd : (s.journey j).events.Deliverable (s.uncaught t)
  · rw [handleEvents_of_deliverable hd]
    exact straight_fly (straight_deliver hS _ _ _) _ _
  · rw [handleEvents_of_not_deliverable hd]
    refine hS.mapJourney ⟨fun src b h => (hS j).frames src b ?_, (hS j).entering,
      (hS j).leaving, (hS j).exits⟩
    cases guard with
    | false => exact h
    | true => exact (List.mem_cons.mp h).resolve_left nofun

lemma straight_closeGuard (hS : s.Straight) (t j : ℕ) : (s.closeGuard t j).Straight := by
  unfold closeGuard
  have hA := straight_allowEvents hS j
  by_cases hd : ((s.allowEvents j).journey j).events.Deliverable ((s.allowEvents j).uncaught t)
  · rw [handleEvents_of_deliverable hd]
    exact straight_deliver hA _ _ _
  · rw [handleEvents_of_not_deliverable hd]
    exact hA

lemma straight_poll (hS : s.Straight) (t j k : ℕ) : (s.poll t j k).Straight := by
  unfold poll
  by_cases hd : (s.journey j).events.Deliverable (s.uncaught t)
  · rw [handleEvents_of_deliverable hd]
    exact straight_deliver hS _ _ _
  · rw [handleEvents_of_not_deliverable hd]
    exact Straight.ease (s := s.mapTimer k _) hS rfl rfl rfl

/-! ### Calls of `teleport` -/

lemma straight_yield (hS : s.Straight) (t : ℕ) {op : Op}
    (ho : ∀ c, op = .teleport c → c.Straight (s.journey j).sched) (h : Deferred) :
    (s.yield t j op h).Straight := by
  have hm : (s.mapJourney j fun x => { x with
      ctx := .yielded op, deferHandler := some h, log := x.log ++ [.yield] }).Straight := by
    refine hS.mapJourney ?_
    cases op with
    | teleport c => exact (hS j).call rfl rfl (ho c rfl) rfl
    | group | get | deferIo => exact (hS j).ease (fun _ _ => id) rfl rfl
  exact hm

/-- A call that suspends, or throws although no portal is being constructed. -/
lemma straight_defer (hS : s.Straight) (t : ℕ) (op : Op)
    (ho : ∀ c, op = .teleport c → c.Straight (s.journey j).sched)
    (hp : ∀ src b, op = .teleport (.portal src b) →
      ¬ (s.journey j).events.Deliverable (s.uncaught t)) (h : Deferred) :
    (s.defer t j op h).Straight := by
  unfold defer
  by_cases hd : (s.journey j).events.Deliverable (s.uncaught t)
  · rw [handleEvents_of_deliverable hd]
    exact straight_throwFrom (straight_deliver hS _ _ _) _ _ _ fun src b h => hp src b h hd
  · rw [handleEvents_of_not_deliverable hd]
    exact straight_yield hS t ho h

lemma straight_leavePortal (hS : s.Straight) {b : ℕ} (hv : s.via t = b)
    (hb : (s.journey j).sched = b) : (s.leavePortal t j b).Straight := by
  refine hS.mapJourney ?_
  rw [hv]
  exact (hS j).exit hb

lemma straight_arrive (hS : s.Straight) {c : Caller} (hc : c.Straight (s.journey j).sched)
    (hv : ∀ src b, c = .unportal src b → s.via t = src) : (s.arrive t j c).Straight := by
  cases c with
  | user =>
    rw [arrive]
    exact hS.ease rfl rfl rfl
  | portal src b =>
    rw [arrive]
    refine hS.mapJourney ((hS j).push ?_)
    exact hc.entering src b rfl
  | unportal src b =>
    obtain ⟨rfl, hs⟩ := hc.leaving src b rfl
    rw [arrive]
    exact (straight_leavePortal hS (hv _ _ rfl) hs).ease rfl rfl rfl

/-- A call of `teleport` from user code. -/
lemma straight_teleport (hS : s.Straight) (hu : (s.journey j).ctx = .user) {d : ℕ} {c : Caller}
    (hc : c.Straight d) (hv : ∀ src b, c = .unportal src b → d = (s.journey j).sched →
      s.via t = src)
    (hp : ∀ src b, c = .portal src b → d = (s.journey j).sched ∨
      ¬ (s.journey j).events.Deliverable (s.uncaught t)) : (s.teleport t j d c).Straight := by
  unfold teleport
  split_ifs with hd
  · exact straight_arrive hS (hd ▸ hc) fun src b h => hv src b h hd
  · have hm : (s.mapJourney j fun x => { x with sched := d }).Straight :=
      hS.ease rfl (by rw [hu]; rfl) rfl
    have hj : (s.mapJourney j fun x => { x with sched := d }).journey j =
        { s.journey j with sched := d } := by simp [mapJourney]
    refine straight_defer hm t _ (fun c' h => ?_) (fun src b h => ?_) _
    · obtain rfl : c = c' := Op.teleport.inj h
      rw [hj]
      exact hc
    · rw [hj]
      exact (hp src b (Op.teleport.inj h)).resolve_left hd

/-- The return from a switch. -/
lemma straight_leave (hS : s.Straight) {op : Op} (hr : (s.journey j).ctx = .resumed op)
    (hv : s.via t = (s.journey j).sched)
    (hp : ∀ src b, op = .teleport (.portal src b) →
      ¬ (s.journey j).events.Deliverable (s.uncaught t)) : (s.leave t j op).Straight := by
  have hc : ∀ c, op = .teleport c → c.Straight (s.journey j).sched := by
    rintro c rfl
    have hcall : (s.journey j).ctx.caller = some c := by
      rw [hr]
      rfl
    exact ⟨fun src b h => (hS j).entering src b (hcall.trans (congrArg some h)),
      fun src b h => (hS j).leaving src b (hcall.trans (congrArg some h))⟩
  unfold leave
  by_cases hd : (s.journey j).events.Deliverable (s.uncaught t)
  · rw [handleEvents_of_deliverable hd]
    exact straight_throwFrom (straight_deliver hS _ _ _) _ _ _ fun src b h => hp src b h hd
  · rw [handleEvents_of_not_deliverable hd]
    cases op with
    | teleport c =>
      refine straight_arrive hS (hc c rfl) fun src b h => ?_
      rw [hv]
      exact ((hc c rfl).leaving src b h).2
    | group k =>
      simp only
      split_ifs
      · exact straight_throwFrom (s := s.addUncaught t 1) hS _ _ _ nofun
      · exact Straight.ease (s := s.mapGroup k _) hS rfl rfl rfl
    | get w => exact hS.ease rfl rfl rfl
    | deferIo i =>
      simp only
      split_ifs
      · exact straight_throwFrom (s := s.addUncaught t 1) hS _ _ _ nofun
      · exact hS.ease rfl rfl rfl

lemma straight_get (hS : s.Straight) (t j c : ℕ) : (s.get t j c).Straight := by
  unfold get
  split
  · exact hS
  · split_ifs
    · exact hS
    · refine straight_defer ?_ t (.get s.waiters) (fun c h => nomatch h)
        (fun src b h => nomatch h) _
      exact hS

lemma straight_request (hS : s.Straight) (hu : (s.journey j).ctx = .user) (t : ℕ) (r : Request) :
    (s.request t j r).Straight := by
  cases r with
  | teleport d => exact straight_teleport hS hu ⟨nofun, nofun⟩ nofun nofun
  | group kind size =>
    rw [request, goGroup]
    refine straight_defer ?_ t (.group s.groups) (fun c h => nomatch h)
      (fun src b h => nomatch h) _
    exact hS
  | deferIo =>
    rw [request, deferIo]
    refine straight_defer ?_ t (.deferIo s.ios) (fun c h => nomatch h)
      (fun src b h => nomatch h) _
    exact hS

lemma straight_closeScope (hS : s.Straight) (hu : (s.journey j).ctx = .user) {f : Frame}
    {fs : List Frame} (hf : (s.journey j).frames = f :: fs)
    (hC : s.PortalsQuietly (.closeScope t j)) :
    ((s.mapJourney j fun x => { x with frames := fs }).closeScope t j f).Straight := by
  have hm : (s.mapJourney j fun x => { x with frames := fs }).Straight := by
    refine hS.mapJourney ((hS j).ease (fun src b h => ?_) (by rw [hu]; rfl) rfl)
    rw [hf]
    exact List.mem_cons_of_mem _ h
  have hj : (s.mapJourney j fun x => { x with frames := fs }).journey j =
      { s.journey j with frames := fs } := by simp [mapJourney]
  cases f with
  | portal src b =>
    have hb : src = b := (hS j).frames src b (hf ▸ List.mem_cons_self)
    have hC : src = (s.journey j).sched → s.via t = src := by
      simpa only [PortalsQuietly, hf] using hC
    refine straight_teleport hm (by rw [hj]; exact hu) ⟨by simp, ?_⟩ ?_ (by simp)
    · rintro _ _ ⟨⟩
      exact ⟨hb, rfl⟩
    · rintro _ _ ⟨⟩ h
      rw [hj] at h
      exact hC h
  | timeout k =>
    rw [closeScope, cancelOne]
    refine Straight.ease ?_ rfl rfl rfl
    exact hm
  | guard => exact straight_closeGuard hm t j
  | destructor e =>
    unfold closeScope closeDestructor
    split_ifs
    · exact hm.same rfl rfl rfl rfl
    · exact hm

/-! ### Every run -/

lemma straight_of_rule (hS : s.Straight) (hL : s.relay.Lives) (hB : s.relay.BackOn)
    (hC : s.PortalsQuietly a) (h : Rule s a s') : s'.Straight := by
  have hn : (s.journey (s.created + 1)).ctx.caller = none := by
    have hf : (s.journey (s.created + 1)).runner = {} := hL.fresh _ (.inr (Nat.lt_succ_self _))
    have hp : (s.journey (s.created + 1)).ctx.whereabouts = .here :=
      congrArg Runner.place hf
    cases hc : (s.journey (s.created + 1)).ctx with
    | yielded op | resumed op =>
      rw [hc] at hp
      cases hp
    | fresh | user | polling | closing | ended => rfl
  cases h with
  | dispatch t k h =>
    have ht : (s.take t k).Straight := hS
    unfold dispatch
    split_ifs
    · exact straight_start ht _
    · exact straight_resume ht _
  | leave t j op h =>
    refine straight_leave hS h.2.2 ?_ ?_
    · obtain ⟨x, hx, rfl, hg⟩ := exec_of_stage h.1
      rw [via_of_exec hx]
      exact hB t x hx hg (by
        show (s.journey x.journey).ctx.whereabouts = .back
        rw [h.2.2]
        rfl)
    · rintro src b rfl
      simpa only [PortalsQuietly, h.2.2] using hC
  | jump t j h => exact straight_jump hS t j
  | exit t j fails h => exact straight_onExit0 hS t j fails
  | launch t j k h => exact straight_launch hS hn t k
  | finish t j x hx hj h => exact straight_finish hS t j x
  | go t d d' h hd => exact straight_create hS hn d' none
  | request t j r h => exact straight_request hS h.1.2.2 t r
  | get t j c h hm => exact straight_get hS t j c
  | portal t j d h =>
    obtain ⟨hv, hd⟩ := hC
    refine straight_teleport hS h.1.2.2 ⟨?_, by simp⟩ (by simp) fun _ _ _ => hd
    rintro _ _ ⟨⟩
    exact hv.symm
  | timeout t j h =>
    rw [openTimeout]
    refine Straight.mapJourney ?_ ?_
    · exact hS
    · refine ⟨fun src b hm => (hS j).frames src b ?_, (hS j).entering, (hS j).leaving,
        (hS j).exits⟩
      exact (List.mem_cons.mp hm).resolve_left (by simp)
  | guard t j h => exact straight_disableEvents hS t j true
  | destructor t j h =>
    rw [openDestructor]
    refine hS.mapJourney ((hS j).ease (fun src b hm => ?_) (by rw [h.2.2]; rfl) rfl)
    exact (List.mem_cons.mp hm).resolve_left (by simp)
  | closeScope t j f fs h hf => exact straight_closeScope hS h.2.2 hf hC
  | poll t j k h => exact straight_poll hS t j k
  | handleEvents t j h => exact straight_checkEvents hS t j
  | disableEvents t j h => exact straight_disableEvents hS t j false
  | enableEvents t j h => exact straight_checkEvents (straight_allowEvents hS j) t j
  | throw t j e h => exact straight_fly (s := s.addUncaught t 1) hS j e
  | catching t j h he => exact Straight.same (s := s.addUncaught t (-1)) hS rfl rfl rfl rfl
  | ret t j v h hf => exact straight_ret hS j v
  | escape t j e h he hf => exact Straight.ease (s := s.addUncaught t (-1)) hS rfl rfl rfl
  | endCoro t j h => exact straight_endCoro hS t j
  | put t c v h hm =>
    unfold put
    split <;> exact hS
  | handOff t v w h => exact straight_fire (s := s.setCall t .idle) hS _ _
  | opening t c h hm => exact hS
  | close t c h hm =>
    unfold close
    split_ifs <;> exact hS
  | closeNext t w ws h => exact straight_fire (s := s.setCall t (.walking ws)) hS _ _
  | closeEnd t h => exact hS
  | cancel j h => exact hS.same rfl rfl rfl rfl
  | expire k h => exact hS
  | callback k h =>
    rw [callback, timedout]
    refine Straight.same ?_ rfl rfl rfl rfl
    exact hS
  | complete i error h => exact straight_proceed (s := s.mapIo i _) hS _
  | attach d => exact hS

lemma inductive_straight : machine.Inductive PortalsQuietly fun s =>
    (s.relay.Sound ∧ s.relay.HasStrand ∧ s.relay.BackOn) ∧ s.Straight := by
  refine (inductive_rides.mono fun _ _ _ => trivial).and (fun s h => ?_) ?_
  · obtain ⟨alone, rfl⟩ := h
    exact fun j => ⟨nofun, nofun, nofun, nofun⟩
  · intro s a s' hR hS hC hs
    exact straight_of_rule hS hR.1.lives hR.2.2 hC (.of_step hs)

/-- Along the runs whose portals are constructed and destroyed quietly, the journey is, and names
the scheduler, where the construction of a portal began when control has left the portal. -/
theorem home_of_exit (h : machine.ReachableBy PortalsQuietly s) {e : PortalExit}
    (he : e ∈ (s.journey j).exits) : e.via = e.began ∧ e.sched = e.began :=
  ((inductive_straight.holds h).2 j).exits e he

/-- A journey goes through a portal; an exception of the user leads it back, and it is caught. -/
def throwsInside : List Action :=
  [.go 0 (some 1), .dispatch 0 ⟨1, 1, true⟩, .portal 0 1 2, .jump 0 1, .exit 0 1 false, .finish 0 1,
    .dispatch 1 ⟨2, 1, false⟩, .leave 1 1, .throw 1 1 .std, .closeScope 1 1, .jump 1 1,
    .exit 1 1 false, .finish 1 1, .dispatch 0 ⟨1, 1, false⟩, .leave 0 1, .catching 0 1]

theorem home_throwsInside : ∃ s, machine.exec {} throwsInside = some s ∧
    ∃ e ∈ (s.journey 1).exits, e.via = e.began ∧ e.sched = e.began :=
  have he : machine.exec {} throwsInside = some _ := rfl
  have hm : (⟨1, 1, 1⟩ : PortalExit) ∈ [⟨1, 1, 1⟩] := List.mem_singleton_self _
  ⟨_, he, ⟨1, 1, 1⟩, hm, home_of_exit (j := 1) (.exec (.init ⟨_, rfl⟩) (by decide) he) hm⟩

/-- An event interrupts the constructor of the portal before the switch, or after it. -/
def cancelledBefore : List Action :=
  [.go 0 (some 1), .dispatch 0 ⟨1, 1, true⟩, .cancel 1, .portal 0 1 2, .catching 0 1]

def cancelledBetween : List Action :=
  [.go 0 (some 1), .dispatch 0 ⟨1, 1, true⟩, .portal 0 1 2, .jump 0 1, .exit 0 1 false, .finish 0 1,
    .cancel 1, .dispatch 1 ⟨2, 1, false⟩, .leave 1 1, .catching 1 1]

/-- In the first run the journey names the destination, in the second it runs there as well. -/
theorem exit_not_home : (¬ ∀ s, machine.Reachable s → ∀ j, ∀ e ∈ (s.journey j).exits,
      e.via = e.began ∧ e.sched = e.began) ∧
    (∃ s, machine.exec {} cancelledBefore = some s ∧ (s.journey 1).exits = [⟨1, 1, 2⟩]) ∧
    ∃ s, machine.exec {} cancelledBetween = some s ∧ (s.journey 1).exits = [⟨1, 2, 2⟩] := by
  refine ⟨fun h => ?_, ⟨_, rfl, rfl⟩, ⟨_, rfl, rfl⟩⟩
  have hr := Machine.Reachable.of_exec (M := machine) (s := {}) ⟨_, rfl⟩
    (show machine.exec {} cancelledBetween = some _ from rfl)
  have he : (⟨1, 2, 2⟩ : PortalExit) ∈ [⟨1, 2, 2⟩] := List.mem_singleton_self _
  exact absurd (h _ hr 1 ⟨1, 2, 2⟩ he) (by decide)

end Runtime

end Synca
