import Synca.Runtime.Air
import Synca.Runtime.Batons

/-!
# Where exceptions come from

What each action does to the exceptions in flight: it is one of the things below. The laws about
destructors and about `handleEvents` are read off from them.
-/

namespace Synca

open Transition

namespace Runtime

variable {s s' u : Runtime} {t j k : ℕ} {a : Action} {ns : List Note}

/-- What is seen of an action: the air `c` it leads to. -/
inductive Gust (s : Runtime) (a : Action) (c : Air) : Prop where
  /-- An exception leaves a destructor, or the thread. -/
  | ends (h : c.terminated = true) (why : s.ScopesEndQuietly a → s.Ordinary a →
      ∃ t j x, a = .finish t j ∧ (s.thread t).exec = some x ∧ x.threw = true)
  | calm (j : ℕ) (ns : List Note) (he : s.entry a = (j, ns)) (hq : ∀ n ∈ ns, n.Quiet)
      (h : c = s.air.hear j ns)
  /-- Control goes to another place of the stack. -/
  | place (t i j : ℕ) (ns : List Note) (x : Ctx) (he : s.entry a = (i, ns))
      (hq : ∀ n ∈ ns, n.Quiet) (ht : s.stage t j = some .running)
      (hx : x = .user ∨ (∃ k, x = .polling k) ∨ ¬ s.Unwinding j)
      (h : c = (s.air.hear i ns).place j x)
  | throw (t j : ℕ) (ns : List Note) (e : Exn) (he : s.entry a = (j, ns))
      (ht : s.stage t j = some .running)
      (hf : (s.journey j).flight = none ∨ ∃ op, (s.journey j).ctx = .resumed op)
      (hn : ((s.journey j).own.hears ns).exns = e :: (s.journey j).own.aside.reduceOption)
      (ho : s.Ordinary a → e ≠ .other)
      (h : c = ((s.air.hear j ns).place j .user).addUncaught t 1)
  | catching (t j : ℕ) (x : Ctx) (b : Bool) (he : s.entry a = (j, [.catches]))
      (ht : s.stage t j = some .running) (hf : (s.journey j).flight ≠ none)
      (hx : x = .user ∨ (s.journey j).own.aside = [])
      (hb : b = true → (s.journey j).coro.exc = true ∨ (s.journey j).flight = some .other)
      (h : c = (((s.air.hear j [.catches]).place j x).setExc j b).addUncaught t (-1))
  /-- A destructor of the user's code begins or ends. -/
  | shift (t j : ℕ) (n : Note) (he : s.entry a = (j, [n])) (ht : s.stage t j = some .running)
      (hn : ((s.journey j).own.hear n).exns = (s.journey j).own.exns) (h : c = s.air.hear j [n])
  /-- The coroutine switches away or has ended. -/
  | away (t i j : ℕ) (ns : List Note) (x : Ctx) (he : s.entry a = (i, ns))
      (hq : ∀ n ∈ ns, n.Quiet) (ht : s.stage t j = some .running)
      (hf : s.UnwindsInPlace a → ¬ s.Unwinding j ∨ (s.journey j).ctx = .closing)
      (h : c = ((s.air.hear i ns).place j x).setStage t .switched)
  | save (t j : ℕ) (he : (s.entry a).2 = []) (ht : s.stage t j = some .switched)
      (h : c = if (s.journey j).coro.exc then
          ((s.air.setStage t .exiting).mapExec t fun x => { x with threw := true }).addUncaught t 1
        else s.air.setStage t .exiting)
  | stage (t : ℕ) (x : Exec) (g : Stage) (he : (s.entry a).2 = [])
      (hx : (s.thread t).exec = some x) (hs : x.stage ≠ .running ∧ x.stage ≠ .switched)
      (hg : g ≠ .running ∧ g ≠ .switched) (h : c = s.air.setStage t g)
  | take (t : ℕ) (k : Task) (x : Ctx) (b : Bool) (he : (s.entry a).2 = []) (hk : s.Takes t k)
      (hb : b = true → (s.journey k.journey).coro.exc = true)
      (h : c = ((s.air.take t ⟨k.sched, k.journey, k.start, false, .running⟩).place k.journey
        x).setExc k.journey b)
  | giveUp (t : ℕ) (x : Exec) (he : (s.entry a).2 = []) (hx : (s.thread t).exec = some x)
      (hs : x.stage = .finishing) (hw : x.threw = false) (h : c = s.air.giveUp t)

/-- An action that no journey notes. -/
lemma Gust.still {c : Air} (he : s.entry a = (0, [])) (h : c = s.air) : s.Gust a c :=
  .calm 0 [] he (by simp) (by simpa using h)

/-! ### Calls -/

lemma outcome_of_deliverable {p : Poll}
    (h : (p.before (s.journey j).events).Deliverable (s.uncaught t)) :
    s.outcome t j p = some ⟨(p.before (s.journey j).events).gr.status⟩ := by
  rw [outcome, Events.handleEvents_of_deliverable h]

lemma outcome_of_not_deliverable {p : Poll}
    (h : ¬ (p.before (s.journey j).events).Deliverable (s.uncaught t)) :
    s.outcome t j p = none := by
  rw [outcome, Events.handleEvents_of_not_deliverable h]

lemma own_congr (h : u.air = s.air) (j : ℕ) : (u.journey j).own = (s.journey j).own :=
  congrArg (fun c : Air => c.own j) h

lemma events_congr (h : u.air = s.air) (j : ℕ) : (u.journey j).events = (s.journey j).events :=
  congrArg Own.events (own_congr h j)

lemma air_fly (s : Runtime) (j : ℕ) (e : Exn) :
    (s.fly j e).air = (s.air.setOwn j ((s.journey j).own.fly e)).place j .user :=
  air_setOwn_place rfl

/-- An exception leaves a call that is not in a destructor. -/
lemma air_throwFrom (s : Runtime) (t j : ℕ) (e : Exn) {op : Op}
    (ho : ∀ src b, op ≠ .teleport (.unportal src b)) :
    (s.throwFrom t j e op).air = (s.fly j e).air := by
  unfold throwFrom
  split
  · rfl
  · rw [air_fly, air_fly, air_leavePortal, own_congr (air_leavePortal _ _ _ _)]
  · exact absurd rfl (ho _ _)
  · rfl
  · rfl
  · rfl

lemma air_deliver (s : Runtime) (t j : ℕ) (e : Events) : (s.deliver t j e).air =
    (s.air.setOwn j ((s.journey j).own.setEvents e)).addUncaught t 1 := by
  have h : (s.takeEvent t j e).air =
      (s.air.setOwn j ((s.journey j).own.setEvents e)).addUncaught t 1 := by
    rw [takeEvent, air_addUncaught, air_setOwn rfl rfl]
    rfl
  unfold deliver
  split <;> exact h

lemma own_deliver (s : Runtime) (t j : ℕ) (e : Events) :
    ((s.deliver t j e).journey j).own = (s.journey j).own.setEvents e := by
  have h := congrArg (fun c : Air => c.own j) (air_deliver s t j e)
  exact h.trans (Air.own_setOwn _ _ _)

/-- The pending event is thrown. -/
lemma air_fly_deliver (s : Runtime) (t j : ℕ) (e : Events) (x : Exn) :
    ((s.deliver t j e).fly j x).air = ((s.air.setOwn j
      (((s.journey j).own.setEvents e).fly x)).place j .user).addUncaught t 1 := by
  rw [air_fly, air_deliver, own_deliver]
  exact congrArg (fun c : Air => (c.place j .user).addUncaught t 1) (Air.setOwn_setOwn _ _ _ _)

/-- The call of `handleEvents` throws. -/
lemma gust_throw {p : Poll} {c : Air} (he : s.entry a = (j, [.poll p (s.outcome t j p)]))
    (ht : s.stage t j = some .running)
    (hf : (s.journey j).flight = none ∨ ∃ op, (s.journey j).ctx = .resumed op)
    (hd : (p.before (s.journey j).events).Deliverable (s.uncaught t))
    (h : c = ((s.air.setOwn j
      (((s.journey j).own.setEvents { p.before (s.journey j).events with gr := {} }).fly
        (.event ⟨(p.before (s.journey j).events).gr.status⟩))).place j .user).addUncaught t 1) :
    s.Gust a c := by
  rw [outcome_of_deliverable hd] at he
  exact .throw t j _ _ he ht hf (Own.exns_of_flight rfl) (fun _ => nofun) h

lemma uncaught_congr (h : u.air = s.air) (t : ℕ) : u.uncaught t = s.uncaught t := by
  have h : (u.thread t).uncaught = (s.thread t).uncaught := congrArg (fun c => c.uncaught t) h
  rw [uncaught, uncaught, h]

lemma deliverable_congr (h : u.air = s.air) :
    (u.journey j).events.Deliverable (u.uncaught t) ↔
      (s.journey j).events.Deliverable (s.uncaught t) := by
  rw [events_congr h, uncaught_congr h]

/-- The notes of a call that returns. -/
lemma quiet_outcome {p : Poll} (hp : p ≠ .failing) (h : s.outcome t j p = none) :
    ∀ n ∈ [Note.poll p (s.outcome t j p)], n.Quiet := by
  intro n hn
  obtain rfl := List.mem_singleton.mp hn
  exact ⟨hp, h⟩

/-- A call of `handleEvents` with nothing around it, which returns. -/
lemma hear_plain (h : s.outcome t j .plain = none) :
    s.air.hear j [.poll .plain (s.outcome t j .plain)] = s.air := by
  rw [h, Air.hear]
  exact (congrArg (fun o => { s.air with own := o }) (Function.update_eq_self j s.air.own))

lemma air_yield (s : Runtime) (t j : ℕ) (op : Op) (d : Deferred) :
    (s.yield t j op d).air = (s.air.place j (.yielded op)).setStage t .switched := by
  rw [Runtime.yield, air_setStage]
  exact congrArg (Air.setStage · t .switched) (air_place rfl rfl)

/-- The state `u` differs from `s` in what no exception depends on. -/
lemma gust_defer (hu : u.air = s.air)
    (he : s.entry a = (j, [.poll .plain (s.outcome t j .plain)]))
    (ht : s.stage t j = some .running) {op : Op} (d : Deferred)
    (hw : j ∈ s.switches a)
    (hop : (s.journey j).events.Deliverable (s.uncaught t) →
      (∃ src b, op = .teleport (.unportal src b)) ∧ ¬ s.ScopesEndQuietly a ∨
      (∀ src b, op ≠ .teleport (.unportal src b)) ∧ (s.journey j).flight = none) :
    s.Gust a (u.defer t j op d).air := by
  unfold defer
  by_cases hd : (s.journey j).events.Deliverable (s.uncaught t)
  · rw [handleEvents_of_deliverable ((deliverable_congr hu).mpr hd)]
    rcases hop hd with ⟨⟨src, b, rfl⟩, hq⟩ | ⟨ho, hn⟩
    · exact .ends rfl fun h => absurd h hq
    · refine gust_throw he ht (.inl hn) hd ?_
      simp only
      rw [air_throwFrom _ _ _ _ ho, air_fly_deliver, hu, own_congr hu, events_congr hu]
      rfl
  · rw [handleEvents_of_not_deliverable (fun h => hd ((deliverable_congr hu).mp h))]
    have hn : s.outcome t j .plain = none := outcome_of_not_deliverable hd
    refine .away t j j _ (.yielded op) he (quiet_outcome (by simp) hn) ht
      (fun h => .inl (h j hw)) ?_
    simp only
    rw [air_yield, hu, hear_plain hn]

/-- A call by user code. -/
lemma gust_call (hu : u.air = s.air)
    (he : s.entry a = (j, [.poll .plain (s.outcome t j .plain)])) (hw : j ∈ s.switches a)
    (h : s.Calls t j) (op : Op) (ho : ∀ src b, op ≠ .teleport (.unportal src b)) (d : Deferred) :
    s.Gust a (u.defer t j op d).air :=
  gust_defer hu he h.1.1 d hw fun _ => .inr ⟨ho, h.2⟩

/-- A call of `teleport`, other than by the destructor of a portal. -/
lemma gust_teleport {d : ℕ} {c : Caller} (hc : ∀ src b, c ≠ .unportal src b)
    (he : d = (s.journey j).sched → s.entry a = (0, []))
    (he' : d ≠ (s.journey j).sched → s.entry a = (j, [.poll .plain (s.outcome t j .plain)]))
    (hw : d ≠ (s.journey j).sched → j ∈ s.switches a) (h : s.Calls t j) :
    s.Gust a (s.teleport t j d c).air := by
  unfold teleport
  split_ifs with hd
  · exact .place t 0 j [] .user (he hd) (by simp) h.1.1 (.inl rfl) (by
      rw [air_arrive, Air.hear_nil])
  · exact gust_call (air_mapJourney_of_eq rfl rfl rfl) (he' hd) (hw hd) h _
      (fun src b ho => hc src b (Op.teleport.inj ho)) _

lemma gust_request (h : s.Calls t j) (r : Request) :
    s.Gust (.request t j r) (s.request t j r).air := by
  have hother : r ≠ .teleport (s.journey j).sched →
      s.entry (.request t j r) = (j, [.poll .plain (s.outcome t j .plain)]) := by
    intro hr
    simp [entry, polled, call, hr]
  have hswitches : r ≠ .teleport (s.journey j).sched → j ∈ s.switches (.request t j r) := by
    intro hr
    simp [switches, hr]
  cases r with
  | teleport d =>
    refine gust_teleport (by simp) (fun hd => ?_) (fun hd => hother ?_) (fun hd => hswitches ?_) h
    · simp [entry, polled, call, hd]
    · simpa using hd
    · simpa using hd
  | group kind size =>
    rw [request, goGroup]
    refine gust_call ?_ (hother (by simp)) (hswitches (by simp)) h (.group s.groups) (by simp)
      (.launch s.groups)
    rfl
  | deferIo =>
    rw [request, deferIo]
    refine gust_call ?_ (hother (by simp)) (hswitches (by simp)) h (.deferIo s.ios) (by simp)
      (.startIo s.ios)
    rfl

lemma gust_get (h : s.Calls t j) (c : ℕ) : s.Gust (.get t j c) (s.get t j c).air := by
  unfold get
  split
  case h_1 v q hq => exact .still (by simp [entry, polled, call, hq]) rfl
  case h_2 hq =>
    split_ifs with hc
    · exact .still (by simp [entry, polled, call, hc]) rfl
    · refine gust_call ?_ ?_ ?_ h (.get s.waiters) (by simp) (.setProceed s.waiters)
      · rfl
      · simp [entry, polled, call, hq, hc]
      · simp [switches, hq, hc]

/-! ### Returns and scopes -/

/-- A call fails after `handleEvents` has returned. -/
lemma gust_fail (hu : u.air = s.air)
    (he : s.entry a = (j, [.poll .failing (s.outcome t j .failing)]))
    (ht : s.stage t j = some .running) {op : Op} (hr : (s.journey j).ctx = .resumed op)
    (ho : ∀ src b, op ≠ .teleport (.unportal src b))
    (hd : ¬ (s.journey j).events.Deliverable (s.uncaught t)) :
    s.Gust a ((u.addUncaught t 1).throwFrom t j .std op).air := by
  have hn : s.outcome t j .failing = none := outcome_of_not_deliverable hd
  rw [hn] at he
  refine .throw t j _ .std he ht (.inr ⟨op, hr⟩) (Own.exns_of_flight rfl) (fun _ => nofun) ?_
  rw [air_throwFrom _ _ _ _ ho, air_fly, air_addUncaught, hu]
  have h : ((u.addUncaught t 1).journey j).own = (s.journey j).own := own_congr hu j
  rw [h]
  rfl

lemma gust_leave {op : Op} (h : s.Runs t j (.resumed op)) :
    s.Gust (.leave t j) (s.leave t j op).air := by
  have he : s.entry (.leave t j) = (j, [.poll (if s.Fails op then .failing else .plain)
      (s.outcome t j (if s.Fails op then .failing else .plain))]) := by
    simp [entry, polled, call, h.2.2]
  unfold leave
  by_cases hd : (s.journey j).events.Deliverable (s.uncaught t)
  · rw [handleEvents_of_deliverable hd]
    by_cases ho : ∃ src b, op = .teleport (.unportal src b)
    · obtain ⟨src, b, rfl⟩ := ho
      exact .ends rfl fun hq => absurd hd (by
        simpa [ScopesEndQuietly, scopeCall, call, h.2.2, Fails, Poll.before] using hq)
    · have hp : (if s.Fails op then Poll.failing else .plain).before (s.journey j).events =
          (s.journey j).events := by split_ifs <;> rfl
      refine gust_throw he h.1 (.inr ⟨op, h.2.2⟩) (hp.symm ▸ hd) ?_
      simp only
      rw [air_throwFrom _ _ _ _ fun src b h => ho ⟨src, b, h⟩, air_fly_deliver, hp]
  · rw [handleEvents_of_not_deliverable hd]
    have hn : s.outcome t j .plain = none := outcome_of_not_deliverable hd
    have hret : ¬ s.Fails op → ∀ c : Air, c = s.air.place j .user → s.Gust (.leave t j) c := by
      intro hf c hc
      rw [if_neg hf] at he
      exact .place t j j _ .user he (quiet_outcome (by simp) hn) h.1 (.inl rfl) (by
        rw [hear_plain hn, hc])
    have hfail : s.Fails op → s.entry (.leave t j) =
        (j, [.poll .failing (s.outcome t j .failing)]) := fun hf => by rwa [if_pos hf] at he
    cases op with
    | teleport c => exact hret id _ (air_arrive _ _ _ _)
    | group k =>
      simp only
      split_ifs with hf
      · exact gust_fail rfl (hfail hf) h.1 h.2.2 nofun hd
      · exact hret hf _ (air_place rfl rfl)
    | get w => exact hret id _ (air_place rfl rfl)
    | deferIo i =>
      simp only
      split_ifs with hf
      · exact gust_fail rfl (hfail hf) h.1 h.2.2 nofun hd
      · exact hret hf _ (air_place rfl rfl)

/-- A call of `handleEvents` by user code, in a state `u` where the flag may have been set. -/
lemma gust_check {p : Poll} (hp : p = .plain ∨ p = .enabling)
    (hu : u.air = s.air.setOwn j ((s.journey j).own.setEvents (p.before (s.journey j).events)))
    (he : s.entry a = (j, [.poll p (s.outcome t j p)])) (h : s.Calls t j) :
    s.Gust a (u.checkEvents t j).air := by
  have hown : (u.journey j).own =
      (s.journey j).own.setEvents (p.before (s.journey j).events) := by
    rw [← own_air, hu, Air.own_setOwn]
  have hev : (u.journey j).events = p.before (s.journey j).events := congrArg Own.events hown
  have hun : u.uncaught t = s.uncaught t := by
    have hc : (u.thread t).uncaught = (s.thread t).uncaught := congrArg (fun c => c.uncaught t) hu
    rw [uncaught, uncaught, hc]
  unfold checkEvents
  by_cases hd : (u.journey j).events.Deliverable (u.uncaught t)
  · rw [handleEvents_of_deliverable hd]
    refine gust_throw he h.1.1 (.inl h.2) (by rwa [hev, hun] at hd) ?_
    simp only
    rw [air_fly_deliver, hu, hown, hev, Air.setOwn_setOwn]
    rfl
  · rw [handleEvents_of_not_deliverable hd]
    rw [hev, hun] at hd
    have hn := outcome_of_not_deliverable hd
    obtain hp | hp := hp <;> subst hp <;>
      exact .calm j _ he (quiet_outcome (by simp) hn) (by rw [hu, Air.hear, hn]; rfl)

lemma gust_disableEvents (guard : Bool)
    (he : s.entry a = (j, [.poll .disabling (s.outcome t j .disabling)])) (h : s.Calls t j) :
    s.Gust a (s.disableEvents t j guard).air := by
  unfold disableEvents
  by_cases hd : (s.journey j).events.Deliverable (s.uncaught t)
  · rw [handleEvents_of_deliverable hd]
    exact gust_throw he h.1.1 (.inl h.2) hd (air_fly_deliver _ _ _ _ _)
  · rw [handleEvents_of_not_deliverable hd]
    have hn : s.outcome t j .disabling = none := outcome_of_not_deliverable hd
    refine .calm j _ he (quiet_outcome (by simp) hn) ?_
    rw [hn]
    cases guard with
    | false => exact air_setOwn rfl rfl
    | true => exact air_setOwn rfl rfl

/-- The flag is set, and the destructor of the guard polls the events. -/
lemma gust_closeGuard (hu : u.air = s.air)
    (he : s.entry a = (j, [.poll .enabling (s.outcome t j .enabling)]))
    (hC : s.ScopesEndQuietly a →
      ¬ (Poll.enabling.before (s.journey j).events).Deliverable (s.uncaught t)) :
    s.Gust a (u.closeGuard t j).air := by
  have ha : (u.allowEvents j).air =
      s.air.setOwn j ((s.journey j).own.setEvents (Poll.enabling.before (s.journey j).events)) := by
    have hset : (u.allowEvents j).air = u.air.setOwn j
        ((u.journey j).own.setEvents (Poll.enabling.before (u.journey j).events)) :=
      air_setOwn rfl rfl
    rw [hset, hu, own_congr hu, events_congr hu]
  have hev : ((u.allowEvents j).journey j).events = Poll.enabling.before (s.journey j).events := by
    have hown := congrArg (fun c : Air => (c.own j).events) ha
    exact hown.trans (congrArg Own.events (Air.own_setOwn _ _ _))
  have hun : (u.allowEvents j).uncaught t = s.uncaught t := uncaught_congr hu t
  unfold closeGuard
  by_cases hd : ((u.allowEvents j).journey j).events.Deliverable ((u.allowEvents j).uncaught t)
  · rw [handleEvents_of_deliverable hd]
    rw [hev, hun] at hd
    exact .ends rfl fun hq => absurd hd (hC hq)
  · rw [handleEvents_of_not_deliverable hd]
    rw [hev, hun] at hd
    have hn : s.outcome t j .enabling = none := outcome_of_not_deliverable hd
    refine .calm j _ he (quiet_outcome (by simp) hn) ?_
    rw [hn]
    exact ha

lemma gust_poll (h : s.Runs t j (.polling k)) : s.Gust (.poll t j) (s.poll t j k).air := by
  unfold poll
  by_cases hd : (s.journey j).events.Deliverable (s.uncaught t)
  · rw [handleEvents_of_deliverable hd]
    exact .ends rfl fun hq => absurd hd hq
  · rw [handleEvents_of_not_deliverable hd]
    have hn : s.outcome t j .plain = none := outcome_of_not_deliverable hd
    refine .place t j j [.poll .plain (s.outcome t j .plain)] .user rfl (quiet_outcome (by simp) hn)
      h.1 (.inl rfl) ?_
    rw [hear_plain hn]
    exact air_place rfl rfl

/-- A scope of the library is left. -/
lemma air_tail {f : Frame} {fs : List Frame} (hf : (s.journey j).frames = f :: fs)
    (ha : f.aside = none) : (s.mapJourney j fun x => { x with frames := fs }).air = s.air := by
  refine air_mapJourney_of_eq ?_ rfl rfl
  simp [Journey.own, hf, ha]

lemma gust_openDestructor (h : s.Runs t j .user) :
    s.Gust (.destructor t j) (s.openDestructor j).air := by
  refine .shift t j .enters rfl h.1 (Own.exns_enters _) ?_
  rw [openDestructor, air_setOwn rfl rfl]
  rfl

lemma gust_closeDestructor {e : Option Exn} {fs : List Frame} (h : s.Runs t j .user)
    (hf : (s.journey j).frames = .destructor e :: fs) : s.Gust (.closeScope t j)
      ((s.mapJourney j fun x => { x with frames := fs }).closeDestructor j e).air := by
  have hj : (s.mapJourney j fun x => { x with frames := fs }).journey j =
      { s.journey j with frames := fs } := by simp [mapJourney]
  have hends : s.endsDestructor (.closeScope t j) = true := by simp [endsDestructor, hf]
  unfold closeDestructor
  rw [hj]
  split_ifs with hn
  · refine .shift t j .leaves (by simp [entry, hends]) h.1 (Own.exns_leaves hn) ?_
    have haside : (s.journey j).own = ⟨(s.journey j).events, (s.journey j).flight,
        e :: fs.filterMap Frame.aside⟩ := by simp [Journey.own, hf, Frame.aside]
    have hmap : ((s.mapJourney j fun x => { x with frames := fs }).mapJourney j fun x =>
        { x with flight := e }) = s.mapJourney j fun x => { x with frames := fs, flight := e } := by
      simp [mapJourney]
    rw [hmap, air_setOwn rfl rfl, Air.hear, own_air, haside]
    rfl
  · refine .ends rfl fun _ hO => absurd (hO hends) hn

lemma gust_closeScope {f : Frame} {fs : List Frame} (h : s.Runs t j .user)
    (hf : (s.journey j).frames = f :: fs) : s.Gust (.closeScope t j)
      ((s.mapJourney j fun x => { x with frames := fs }).closeScope t j f).air := by
  have hj : (s.mapJourney j fun x => { x with frames := fs }).journey j =
      { s.journey j with frames := fs } := by simp [mapJourney]
  cases f with
  | portal src b =>
    have hu := air_tail hf rfl
    rw [closeScope, teleport, hj]
    split_ifs with hs
    · exact .place t 0 j [] .user (by simp [entry, endsDestructor, polled, call, hf, hs]) (by simp)
        h.1 (.inl rfl) (by rw [air_arrive, Air.hear_nil, hu])
    · have hu' := (air_mapJourney_of_eq (j := j) (f := fun x => { x with sched := src }) rfl rfl
        rfl).trans hu
      refine gust_defer hu' ?_ h.1 _ ?_ ?_
      · simp [entry, endsDestructor, polled, call, hf, hs]
      · simp [switches, hf, hs]
      · refine fun hd => .inl ⟨⟨src, b, rfl⟩, fun hC => ?_⟩
        simp only [ScopesEndQuietly, scopeCall, call, hf, if_neg hs] at hC
        exact hC hd
  | timeout k =>
    refine .place t 0 j [] (.polling k) (by simp [entry, endsDestructor, polled, call, hf])
      (by simp) h.1 (.inr (.inl ⟨k, rfl⟩)) ?_
    rw [Air.hear_nil, ← air_tail hf rfl, closeScope, cancelOne]
    refine (air_place rfl rfl).trans ?_
    rfl
  | guard =>
    refine gust_closeGuard (air_tail hf rfl) (by simp [entry, endsDestructor, polled, call, hf])
      fun hC => ?_
    simp only [ScopesEndQuietly, scopeCall, call, hf] at hC
    exact hC
  | destructor e => exact gust_closeDestructor h hf

/-! ### Threads and coroutines -/

lemma air_take (s : Runtime) (t : ℕ) (k : Task) :
    (s.take t k).air = s.air.take t ⟨k.sched, k.journey, k.start, false, .running⟩ := by
  simp only [air, take, mapThread, Air.take, Air.mk.injEq, and_true, true_and]
  constructor <;> funext u <;> simp only [Function.update_apply] <;> split_ifs with hu
  · rfl
  · rfl
  · rw [hu]
  · rfl

lemma air_giveUp (s : Runtime) (t : ℕ) (x : Exec) : (s.giveUp t x).air = s.air.giveUp t := by
  simp only [air, giveUp, mapThread, Air.giveUp, Air.mk.injEq, and_true, true_and]
  constructor <;> funext u <;> simp only [Function.update_apply] <;> split_ifs with hu
  · rfl
  · rfl
  · rw [hu]
  · rfl

lemma gust_dispatch {k : Task} (h : s.Takes t k) :
    s.Gust (.dispatch t k) (s.dispatch t k).air := by
  have hj : (s.take t k).journey = s.journey := rfl
  -- the task is taken, and nothing more is done
  have hfault : ∀ c : Air, c = (s.take t k).air → s.Gust (.dispatch t k) c := by
    rintro c rfl
    refine .take t k (s.journey k.journey).ctx (s.journey k.journey).coro.exc rfl h id ?_
    rw [air_take]
    simp [Air.take, Air.place, Air.setExc, air]
  unfold dispatch
  split_ifs
  · unfold start
    split_ifs
    · refine .take t k .user false rfl h (by simp) ?_
      have hs : ((s.take t k).mapJourney k.journey fun x => { x with
          ctx := .user, coro := ⟨true, true, false⟩, log := x.log ++ [.start] }).air =
          ((s.take t k).air.place k.journey .user).setExc k.journey false := by
        rw [air_mapJourney, hj]
        exact congrArg (fun c : Air => (c.place k.journey .user).setExc k.journey false)
          (setOwn_air (s.take t k) k.journey)
      rw [← air_take, ← hs]
      split <;> rfl
    · exact hfault _ rfl
  · unfold resume
    split_ifs
    · split
      case h_1 op hop =>
        refine .take t k (.resumed op) (s.journey k.journey).coro.exc rfl h id ?_
        rw [air_place rfl rfl, air_take]
        simp [Air.take, Air.place, Air.setExc, air]
      case h_2 => exact hfault _ rfl
    · exact hfault _ rfl

lemma gust_jump (h : s.stage t j = some .switched) : s.Gust (.jump t j) (s.jump t j).air := by
  refine .save t j rfl h ?_
  have hs : ((s.mapJourney j fun x => { x with
      coro := { x.coro with running := false }, log := x.log ++ [.save] }).setStage t
      .exiting).air = s.air.setStage t .exiting := by
    rw [air_setStage, air_mapJourney_of_eq rfl rfl rfl]
  simp only [jump]
  split_ifs
  · rw [air_addUncaught, air_mapExec, hs]
  · exact hs

/-- A thread that has left the coroutine goes on to stage `g`. -/
lemma gust_stage {g g' : Stage} (he : (s.entry a).2 = []) (h : s.stage t j = some g')
    (hs : g' ≠ .running ∧ g' ≠ .switched) (hg : g ≠ .running ∧ g ≠ .switched)
    (hu : u.air = s.air) : s.Gust a (u.setStage t g).air := by
  obtain ⟨x, hx, -, rfl⟩ := exec_of_stage h
  exact .stage t x g he hx hs hg (by rw [air_setStage, hu])

lemma gust_onExit0 (h : s.stage t j = some .exiting) (fails : Bool) :
    s.Gust (.exit t j fails) (s.onExit0 t j fails).air := by
  have hstage : ∀ {u : Runtime} {g : Stage}, g ≠ .running ∧ g ≠ .switched → u.air = s.air →
      s.Gust (.exit t j fails) (u.setStage t g).air :=
    fun hg hu => gust_stage rfl h ⟨nofun, nofun⟩ hg hu
  unfold onExit0
  split
  · have hd : (s.mapJourney j fun x => { x with
        alive := false, log := x.log ++ [.delete] }).air = s.air :=
      air_mapJourney_of_eq rfl rfl rfl
    exact hstage ⟨nofun, nofun⟩ hd
  · split_ifs with hf
    · refine .ends rfl fun _ ho => ?_
      rw [show fails = false from ho] at hf
      cases hf
    · have hd : (s.mapJourney j fun x => { x with deferHandler := none }).air = s.air :=
        air_mapJourney_of_eq rfl rfl rfl
      rename_i d _
      cases d with
      | proceed => exact hstage ⟨nofun, nofun⟩ ((air_proceed _ _).trans hd)
      | launch k => exact hstage ⟨nofun, nofun⟩ hd
      | setProceed w => exact hstage ⟨nofun, nofun⟩ hd
      | startIo i => exact hstage ⟨nofun, nofun⟩ hd

lemma gust_launch (h : s.stage t j = some (.loop k)) : s.Gust (.launch t j) (s.launch t k).air := by
  simp only [launch]
  split_ifs with hlt
  · split
    case h_1 hd =>
      refine .ends rfl fun _ ho => ?_
      simp only [Ordinary, h] at ho
      exact absurd hd (ho hlt)
    case h_2 d hd => exact .still rfl (air_create s d _)
  · exact gust_stage rfl h ⟨by simp, by simp⟩ ⟨by simp, by simp⟩ (air_release s k .loop)

lemma gust_finish {x : Exec} (hx : (s.thread t).exec = some x) (h : x.stage = .finishing) :
    s.Gust (.finish t j) (s.finish t j x).air := by
  unfold finish
  split_ifs with hw
  · exact .ends rfl fun _ _ => ⟨t, j, x, rfl, hx, hw⟩
  · refine .giveUp t x rfl hx h (by simpa using hw) ?_
    split
    · rw [air_release, air_giveUp]
    · exact air_giveUp _ _ _

lemma gust_ret (h : s.Calls t j) (hf : (s.journey j).frames = []) (v : Option ℕ) :
    s.Gust (.ret t j v) (s.ret j v).air := by
  have hcalm : ¬ s.Unwinding j := by
    rw [Unwinding, not_not, Own.exns_of_no_flight h.2]
    simp [Journey.own, hf]
  refine .place t 0 j [] .closing rfl (by simp) h.1.1 (.inr (.inr hcalm)) ?_
  have hp : (s.mapJourney j fun x => { x with ctx := .closing }).air = s.air.place j .closing :=
    air_place rfl rfl
  rw [Air.hear_nil, ← hp]
  unfold ret
  split
  · rfl
  · split
    · exact air_win _ _ _
    · exact air_tryProceed _ _ _
    · rfl

lemma gust_endCoro (h : s.Runs t j .closing) : s.Gust (.endCoro t j) (s.endCoro t j).air := by
  refine .away t 0 j [] .ended rfl (by simp) h.1 (fun _ => .inr h.2.2) ?_
  have hp : ((s.mapJourney j fun x => { x with
      ctx := .ended, coro := { x.coro with started := false },
      log := x.log ++ [.finish] }).setStage t .switched).air =
      (s.air.place j .ended).setStage t .switched := by
    rw [air_setStage, air_place rfl rfl]
  rw [Air.hear_nil, ← hp]
  unfold endCoro
  split
  · exact air_release _ _ _
  · rfl

lemma gust_cancel (j : ℕ) : s.Gust (.cancel j) (s.cancel j).air := by
  refine .calm j [.set .cancelled] rfl ?_ ?_
  · intro n hn
    obtain rfl := List.mem_singleton.mp hn
    trivial
  · exact air_setOwn rfl rfl

lemma gust_callback (k : ℕ) : s.Gust (.callback k) (s.callback k).air := by
  refine .calm (s.timer k).owner [.set .timedout] rfl ?_ ?_
  · intro n hn
    obtain rfl := List.mem_singleton.mp hn
    trivial
  · rw [callback, timedout, air_setOwn rfl rfl]
    rfl

lemma gust_escape {e : Exn} (h : s.Runs t j .user) (he : (s.journey j).flight = some e)
    (hf : (s.journey j).frames = []) :
    s.Gust (.escape t j) ((s.addUncaught t (-1)).mapJourney j fun x => { x with
      ctx := .closing, flight := none, coro := { x.coro with exc := e = .other } }).air := by
  have haside : (s.journey j).own.aside = [] := by simp [Journey.own, hf]
  refine .catching t j .closing (e = .other) rfl h.1 (by simp [he]) (.inr haside)
    (fun hb => .inr ?_) ?_
  · rw [he, of_decide_eq_true hb]
  · rw [air_mapJourney, air_addUncaught]
    rfl

lemma gust_catching (h : s.Runs t j .user) (he : (s.journey j).flight ≠ none) :
    s.Gust (.catching t j)
      ((s.addUncaught t (-1)).mapJourney j fun x => { x with flight := none }).air := by
  refine .catching t j (s.journey j).ctx (s.journey j).coro.exc rfl h.1 he (.inl h.2.2) .inl ?_
  rw [air_mapJourney, air_addUncaught]
  rfl

lemma gust_of_rule (h : Rule s a s') : s.Gust a s'.air := by
  cases h with
  | dispatch t k h => exact gust_dispatch h
  | leave t j op h => exact gust_leave h
  | jump t j h => exact gust_jump h
  | exit t j fails h => exact gust_onExit0 h fails
  | launch t j k h => exact gust_launch h
  | finish t j x hx hj h => exact gust_finish hx h
  | go t d d' h hd => exact .still rfl (air_create s d' none)
  | request t j r h => exact gust_request h r
  | get t j c h hm => exact gust_get h c
  | portal t j d h =>
    exact gust_teleport (by simp) (fun hd => by simp [entry, polled, call, hd])
      (fun hd => by simp [entry, polled, call, hd]) (fun hd => by simp [switches, hd]) h
  | timeout t j h =>
    refine .still rfl ?_
    rw [openTimeout, air_mapJourney_of_eq rfl rfl rfl]
    rfl
  | guard t j h => exact gust_disableEvents true rfl h
  | destructor t j h => exact gust_openDestructor h
  | closeScope t j f fs h hf => exact gust_closeScope h hf
  | poll t j k h => exact gust_poll h
  | handleEvents t j h => exact gust_check (.inl rfl) (setOwn_air s j).symm rfl h
  | disableEvents t j h => exact gust_disableEvents false rfl h
  | enableEvents t j h => exact gust_check (.inr rfl) (air_setOwn rfl rfl) rfl h
  | throw t j e h =>
    refine .throw t j [.throws e] e rfl h.1.1 (.inl h.2) (Own.exns_of_flight rfl) id ?_
    rw [air_fly, air_addUncaught]
    rfl
  | catching t j h he => exact gust_catching h he
  | ret t j v h hf => exact gust_ret h hf v
  | escape t j e h he hf => exact gust_escape h he hf
  | endCoro t j h => exact gust_endCoro h
  | put t c v h hm => exact .still rfl (air_put _ _ _ _)
  | handOff t v w h => exact .still rfl ((air_fire _ _ _).trans (air_setCall _ _ _))
  | opening t c h hm => exact .still rfl rfl
  | close t c h hm => exact .still rfl (air_close _ _ _)
  | closeNext t w ws h => exact .still rfl ((air_fire _ _ _).trans (air_setCall _ _ _))
  | closeEnd t h => exact .still rfl (air_setCall _ _ _)
  | cancel j h => exact gust_cancel j
  | expire k h => exact .still rfl rfl
  | callback k h => exact gust_callback k
  | complete i error h => exact .still rfl (air_proceed (s.mapIo i _) _)
  | attach d => exact .still rfl rfl

/-! ### What a journey notes -/

lemma entry_of_call {p : Poll} (h : s.call a = some (t, j, p)) :
    s.entry a = (j, [.poll p (s.outcome t j p)]) := by
  have hpolled : s.polled a = (j, [.poll p (s.outcome t j p)]) := by rw [polled, h]
  cases a with
  | cancel | callback | throw | catching | escape | destructor => cases h
  | closeScope u i =>
    have hends : s.endsDestructor (.closeScope u i) = false := by
      cases hf : (s.journey i).frames with
      | nil => simp [endsDestructor, hf]
      | cons f fs =>
        cases f with
        | destructor e => simp [call, hf] at h
        | _ => simp [endsDestructor, hf]
    rw [entry, hends, if_neg Bool.false_ne_true, hpolled]
  | _ => exact hpolled

/-- What an action adds to the history of journey `j`. -/
def notes (j : ℕ) (s : Runtime) (a : Action) : List Note :=
  if (s.entry a).1 = j then (s.entry a).2 else []

lemma notes_of_entry {i : ℕ} {ns : List Note} (h : s.entry a = (i, ns)) (j : ℕ) :
    s.notes j a = if i = j then ns else [] := by
  rw [notes, h]

lemma own_hear (c : Air) (i j : ℕ) (ns : List Note) :
    (c.hear i ns).own j = (c.own j).hears (if i = j then ns else []) := by
  split_ifs with hi
  · subst hi
    exact Air.own_setOwn _ _ _
  · exact Function.update_of_ne (Ne.symm hi) _ _

/-- What a journey has at hand after an action. -/
lemma Gust.own {c : Air} (h : s.Gust a c) (hlive : c.terminated = false) (j : ℕ) :
    c.own j = (s.journey j).own.hears (s.notes j a) := by
  have hnil : (s.entry a).2 = [] → (s.journey j).own.hears (s.notes j a) = s.air.own j := by
    intro he
    rw [notes, he, ite_self]
    rfl
  cases h with
  | ends h why => cases h.symm.trans hlive
  | calm i ns he hq h =>
    rw [h, notes_of_entry he]
    exact own_hear _ _ _ _
  | place t i n ns x he hq ht hx h =>
    rw [h, notes_of_entry he]
    exact own_hear _ _ _ _
  | throw t i ns e he ht hf hn ho h =>
    rw [h, notes_of_entry he]
    exact own_hear _ _ _ _
  | catching t i x b he ht hf hx hb h =>
    rw [h, notes_of_entry he]
    exact own_hear _ _ _ _
  | shift t i n he ht hn h =>
    rw [h, notes_of_entry he]
    exact own_hear _ _ _ _
  | away t i n ns x he hq ht hf h =>
    rw [h, notes_of_entry he]
    exact own_hear _ _ _ _
  | save t i he ht h =>
    rw [h, hnil he]
    split_ifs <;> rfl
  | stage t x g he hx hs hg h => exact h ▸ (hnil he).symm
  | take t k x b he hk hb h => exact h ▸ (hnil he).symm
  | giveUp t x he hx hs hw h => exact h ▸ (hnil he).symm

end Runtime

end Synca
