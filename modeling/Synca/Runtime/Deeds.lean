import Synca.Runtime.Clan

/-!
# What actions do to groups

Each action does one of the things below to the groups and to the journeys in them.
-/

namespace Synca

open Transition Relay

namespace Runtime

variable {s s' u : Runtime} {t j k : ℕ} {a : Action}

/-- What a child returns: its group, its index and the value. -/
def returned (s : Runtime) : Action → Option (ℕ × ℕ × Option ℕ)
  | .ret _ j v => (s.journey j).role.map fun r => (r.1, r.2, v)
  | _          => none

/-- What is seen of an action that leads to `s'`. -/
inductive Deed (s : Runtime) (a : Action) (s' : Runtime) : Prop where
  | still (hn : s.returned a = none) (h : s'.clan = s.clan)
  | proceeds (i : ℕ) (hn : s.returned a = none) (h : s'.clan = s.clan.proceed i)
  | creates (hn : s.returned a = none) (h : s'.clan = s.clan.create none)
  /-- User code or a destructor takes over, not from the call of a group. -/
  | goes (t j : ℕ) (x : Ctx) (hn : s.returned a = none) (ht : s.stage t j = some .running)
      (hx : x = .user ∨ ∃ i, x = .polling i) (hc : (s.journey j).ctx = .user ∨
        (∃ i, (s.journey j).ctx = .polling i) ∨
        ∃ op, (s.journey j).ctx = .resumed op ∧ ∀ k, op ≠ .group k)
      (h : s'.clan = s.clan.place j x)
  | yields (t j : ℕ) (op : Op) (hn : s.returned a = none) (ht : s.stage t j = some .running)
      (hc : (s.journey j).ctx = .user) (hop : ∀ k, op ≠ .group k)
      (h : s'.clan = s.clan.yield t j op op.deferred)
  /-- A call of a group switches away. -/
  | calls (t j : ℕ) (kind : GroupKind) (size : ℕ) (hn : s.returned a = none)
      (ht : s.stage t j = some .running) (hc : (s.journey j).ctx = .user)
      (hs : kind = .goAnyWait → 1 ≤ size)
      (h : s'.clan = (s.clan.newGroup j kind size).yield t j (.group s.groups) (.launch s.groups))
  /-- A call of a group throws before the switch. -/
  | refuses (t j : ℕ) (kind : GroupKind) (size : ℕ) (hn : s.returned a = none)
      (ht : s.stage t j = some .running) (hc : (s.journey j).ctx = .user)
      (hs : kind = .goAnyWait → 1 ≤ size)
      (h : s'.clan = ((s.clan.newGroup j kind size).quit s.groups).place j .user)
  | leaves (t j k : ℕ) (ha : a = .leave t j) (hn : s.returned a = none)
      (ht : s.stage t j = some .running) (hc : (s.journey j).ctx = .resumed (.group k))
      (h : s'.clan = (s.clan.quit k).place j .user)
  | starts (t : ℕ) (x : Task) (hn : s.returned a = none) (hk : s.Takes t x) (hs : x.start = true)
      (h : s'.clan = (s.clan.take t x).start x.journey)
  | resumes (t : ℕ) (x : Task) (op : Op) (hn : s.returned a = none) (hk : s.Takes t x)
      (hs : x.start = false) (hc : (s.journey x.journey).ctx = .yielded op)
      (h : s'.clan = (s.clan.take t x).resume x.journey op)
  | saves (t j : ℕ) (b : Bool) (hn : s.returned a = none) (ht : s.stage t j = some .switched)
      (h : s'.clan = (s.clan.record j .save).mapExec t fun x => { x with
        stage := .exiting, threw := b || x.threw })
  | deletes (t j : ℕ) (hn : s.returned a = none) (ht : s.stage t j = some .exiting)
      (hd : (s.journey j).deferHandler = none)
      (h : s'.clan = (s.clan.record j .delete).setStage t .finishing)
  | answers (t j : ℕ) (d : Deferred) (hn : s.returned a = none)
      (ht : s.stage t j = some .exiting) (hd : (s.journey j).deferHandler = some d)
      (h : s'.clan = (s.clan.mapMember j fun m => { m with handler := none }).answer t j d)
  | launches (t j k : ℕ) (hn : s.returned a = none) (ht : s.stage t j = some (.loop k))
      (hlt : (s.group k).launched < (s.group k).size) (h : s'.clan = s.clan.launch k)
  | endsLoop (t j k : ℕ) (hn : s.returned a = none) (ht : s.stage t j = some (.loop k))
      (hge : (s.group k).size ≤ (s.group k).launched)
      (h : s'.clan = (s.clan.release k .loop).setStage t .finishing)
  /-- The task is destroyed, and no handler of a child with it; or the program ends. -/
  | drops (t : ℕ) (x : Exec) (hn : s.returned a = none) (hx : (s.thread t).exec = some x)
      (hg : x.stage = .finishing) (hr : s'.terminated = false → x.start = true →
        (s.journey x.journey).role = none) (h : s'.clan = s.clan.giveUp t)
  | endsTask (t : ℕ) (x : Exec) (k i : ℕ) (hn : s.returned a = none)
      (hx : (s.thread t).exec = some x) (hg : x.stage = .finishing) (hs : x.start = true)
      (hr : (s.journey x.journey).role = some (k, i))
      (h : s'.clan = (s.clan.giveUp t).release k (.task x.journey))
  | rets (t j : ℕ) (v : Option ℕ) (ha : a = .ret t j v) (ht : s.stage t j = some .running)
      (hc : (s.journey j).ctx = .user) (h : s'.clan = s.clan.ret j v)
  | escapes (t j : ℕ) (ha : a = .escape t j) (hn : s.returned a = none)
      (ht : s.stage t j = some .running) (hc : (s.journey j).ctx = .user)
      (h : s'.clan = s.clan.place j .closing)
  | endsCoro (t j : ℕ) (hn : s.returned a = none) (ht : s.stage t j = some .running)
      (hc : (s.journey j).ctx = .closing) (h : s'.clan = s.clan.endCoro t j)

/-! ### Calls -/

/-- An exception leaves a call that is not that of a group. -/
lemma clan_throwFrom (s : Runtime) (t j : ℕ) (e : Exn) {op : Op} (ho : ∀ k, op ≠ .group k)
    (hu : ∀ src b, op ≠ .teleport (.unportal src b)) :
    (s.throwFrom t j e op).clan = s.clan.place j .user := by
  unfold throwFrom
  split
  · exact clan_fly _ _ _
  · rw [clan_fly, clan_leavePortal]
  · exact absurd rfl (hu _ _)
  · exact absurd rfl (ho _)
  · exact clan_fly _ _ _
  · exact clan_fly _ _ _

/-- The state `u` differs from `s` in what groups do not depend on, or by a new channel waiter or
operation. -/
lemma deed_defer (hu : u.clan = s.clan) (hn : s.returned a = none)
    (ht : s.stage t j = some .running) (hc : (s.journey j).ctx = .user) (op : Op)
    (ho : ∀ k, op ≠ .group k) : s.Deed a (u.defer t j op op.deferred) := by
  unfold defer
  by_cases hd : (u.journey j).events.Deliverable (u.uncaught t)
  · rw [handleEvents_of_deliverable hd]
    refine .still hn ?_
    by_cases hp : ∃ src b, op = .teleport (.unportal src b)
    · obtain ⟨src, b, rfl⟩ := hp
      exact (clan_deliver _ _ _ _).trans hu
    · simp only
      rw [clan_throwFrom _ _ _ _ ho fun src b h => hp ⟨src, b, h⟩, clan_deliver, hu]
      exact Clan.place_self hc
  · rw [handleEvents_of_not_deliverable hd]
    refine .yields t j op hn ht hc ho ?_
    simp only
    rw [clan_yield, hu]

lemma deed_teleport (hu : u.clan = s.clan) (hn : s.returned a = none)
    (ht : s.stage t j = some .running) (hc : (s.journey j).ctx = .user) (d : ℕ) (c : Caller) :
    s.Deed a (u.teleport t j d c) := by
  unfold teleport
  split_ifs
  · refine .still hn ?_
    rw [clan_arrive, hu]
    exact Clan.place_self hc
  · exact deed_defer ((clan_mapJourney_of_eq rfl).trans hu) hn ht hc (.teleport c) nofun

lemma deed_group (ht : s.stage t j = some .running) (hc : (s.journey j).ctx = .user)
    (hn : s.returned a = none) {kind : GroupKind} {size : ℕ} (hs : kind = .goAnyWait → 1 ≤ size) :
    s.Deed a (s.goGroup t j kind size) := by
  rw [goGroup]
  set u : Runtime := { s.mapGroup s.groups fun x => { x with
    kind := kind, owner := j, size := size } with groups := s.groups + 1 } with hu
  have hclan : u.clan = s.clan.newGroup j kind size := clan_newGroup s j kind size
  unfold defer
  by_cases hd : (u.journey j).events.Deliverable (u.uncaught t)
  · rw [handleEvents_of_deliverable hd]
    refine .refuses t j kind size hn ht hc hs ?_
    rw [← hclan]
    simp only [throwFrom]
    rw [clan_fly, clan_mapGroup, clan_deliver]
    rfl
  · rw [handleEvents_of_not_deliverable hd]
    refine .calls t j kind size hn ht hc hs ?_
    simp only
    rw [clan_yield, hclan]

lemma deed_request (h : s.Calls t j) {r : Request} (hr : r.Accepted) :
    s.Deed (.request t j r) (s.request t j r) := by
  cases r with
  | teleport d => exact deed_teleport rfl rfl h.1.1 h.1.2.2 d .user
  | group kind size =>
    refine deed_group h.1.1 h.1.2.2 rfl ?_
    rintro rfl
    exact hr
  | deferIo =>
    rw [request, deferIo]
    refine deed_defer ?_ rfl h.1.1 h.1.2.2 (.deferIo s.ios) nofun
    rfl

lemma deed_get (h : s.Calls t j) (c : ℕ) : s.Deed (.get t j c) (s.get t j c) := by
  unfold get
  split
  · exact .still rfl rfl
  · split_ifs
    · exact .still rfl rfl
    · refine deed_defer ?_ rfl h.1.1 h.1.2.2 (.get s.waiters) nofun
      rfl

/-! ### Returns and scopes -/

lemma deed_leave {op : Op} (h : s.Runs t j (.resumed op)) :
    s.Deed (.leave t j) (s.leave t j op) := by
  by_cases hg : ∃ k, op = .group k
  · obtain ⟨k, rfl⟩ := hg
    refine .leaves t j k rfl rfl h.1 h.2.2 ?_
    have hq : ∀ (u : Runtime) (e : Exn), (u.throwFrom t j e (.group k)).clan =
        (u.clan.quit k).place j .user := fun u e => clan_fly _ _ _
    unfold leave
    by_cases hd : (s.journey j).events.Deliverable (s.uncaught t)
    · rw [handleEvents_of_deliverable hd]
      simp only
      rw [hq, clan_deliver]
    · rw [handleEvents_of_not_deliverable hd]
      simp only
      split_ifs
      · rw [hq, clan_addUncaught]
      · exact clan_place rfl
  · have ho : ∀ k, op ≠ .group k := fun k h => hg ⟨k, h⟩
    have hgo : ∀ {u : Runtime}, u.clan = s.clan.place j .user → s.Deed (.leave t j) u :=
      fun hu => .goes t j .user rfl h.1 (.inl rfl) (.inr (.inr ⟨op, h.2.2, ho⟩)) hu
    unfold leave
    by_cases hd : (s.journey j).events.Deliverable (s.uncaught t)
    · rw [handleEvents_of_deliverable hd]
      by_cases hp : ∃ src b, op = .teleport (.unportal src b)
      · obtain ⟨src, b, rfl⟩ := hp
        exact .still rfl (clan_deliver _ _ _ _)
      · refine hgo ?_
        simp only
        rw [clan_throwFrom _ _ _ _ ho fun src b h => hp ⟨src, b, h⟩, clan_deliver]
    · rw [handleEvents_of_not_deliverable hd]
      cases op with
      | teleport c => exact hgo (clan_arrive _ _ _ _)
      | group k => exact absurd rfl (ho k)
      | get w => exact hgo (clan_place rfl)
      | deferIo i =>
        simp only
        split_ifs
        · refine hgo ?_
          rw [clan_throwFrom _ _ _ _ ho nofun, clan_addUncaught]
        · exact hgo (clan_place rfl)

/-- A step of user code that stays in user code. -/
lemma deed_user (hu : u.clan = s.clan.place j .user) (hn : s.returned a = none)
    (hc : (s.journey j).ctx = .user) : s.Deed a u :=
  .still hn (hu.trans (Clan.place_self hc))

lemma deed_checkEvents (hu : u.clan = s.clan) (hn : s.returned a = none)
    (hc : (s.journey j).ctx = .user) : s.Deed a (u.checkEvents t j) := by
  unfold checkEvents
  by_cases hd : (u.journey j).events.Deliverable (u.uncaught t)
  · rw [handleEvents_of_deliverable hd]
    refine deed_user ?_ hn hc
    simp only
    rw [clan_fly, clan_deliver, hu]
  · rw [handleEvents_of_not_deliverable hd]
    exact .still hn hu

lemma deed_disableEvents (hn : s.returned a = none) (hc : (s.journey j).ctx = .user)
    (guard : Bool) : s.Deed a (s.disableEvents t j guard) := by
  unfold disableEvents
  by_cases hd : (s.journey j).events.Deliverable (s.uncaught t)
  · rw [handleEvents_of_deliverable hd]
    refine deed_user ?_ hn hc
    simp only
    rw [clan_fly, clan_deliver]
  · rw [handleEvents_of_not_deliverable hd]
    exact .still hn (clan_mapJourney_of_eq rfl)

lemma deed_closeGuard (hu : u.clan = s.clan) (hn : s.returned a = none) :
    s.Deed a (u.closeGuard t j) := by
  have ha : (u.allowEvents j).clan = s.clan := (clan_mapJourney_of_eq rfl).trans hu
  unfold closeGuard
  by_cases hd : ((u.allowEvents j).journey j).events.Deliverable ((u.allowEvents j).uncaught t)
  · rw [handleEvents_of_deliverable hd]
    exact .still hn ((clan_deliver _ _ _ _).trans ha)
  · rw [handleEvents_of_not_deliverable hd]
    exact .still hn ha

lemma deed_poll (h : s.Runs t j (.polling k)) : s.Deed (.poll t j) (s.poll t j k) := by
  unfold poll
  by_cases hd : (s.journey j).events.Deliverable (s.uncaught t)
  · rw [handleEvents_of_deliverable hd]
    exact .still rfl (clan_deliver _ _ _ _)
  · rw [handleEvents_of_not_deliverable hd]
    refine .goes t j .user rfl h.1 (.inl rfl) (.inr (.inl ⟨k, h.2.2⟩)) ?_
    exact clan_place rfl

lemma deed_closeScope {f : Frame} {fs : List Frame} (h : s.Runs t j .user) :
    s.Deed (.closeScope t j)
      ((s.mapJourney j fun x => { x with frames := fs }).closeScope t j f) := by
  have hu : (s.mapJourney j fun x => { x with frames := fs }).clan = s.clan :=
    clan_mapJourney_of_eq rfl
  cases f with
  | portal src b => exact deed_teleport hu rfl h.1 h.2.2 src (.unportal src b)
  | timeout k =>
    refine .goes t j (.polling k) rfl h.1 (.inr ⟨k, rfl⟩) (.inl h.2.2) ?_
    rw [closeScope, cancelOne, ← hu]
    exact clan_place rfl
  | guard => exact deed_closeGuard hu rfl
  | destructor e =>
    unfold closeScope closeDestructor
    split_ifs
    · exact .still rfl ((clan_mapJourney_of_eq rfl).trans hu)
    · exact .still rfl hu

/-! ### Threads and coroutines -/

lemma deed_dispatch (hS : s.relay.Sound) {x : Task} (h : s.Takes t x) :
    s.Deed (.dispatch t x) (s.dispatch t x) := by
  have htake : (s.take t x).clan = s.clan.take t x := clan_take hS.lives.nodup h.2.2.1 t
  have hlead := hS.lives.leads_posted (x := x) h.2.2.1
  unfold dispatch
  split_ifs with hs
  · rw [if_pos hs] at hlead
    have hg : (s.journey x.journey).alive = true ∧ ¬ ((s.journey x.journey).coro.started = true ∨
        (s.journey x.journey).coro.running = true) := by
      refine ⟨hlead.fits.alive, ?_⟩
      rintro (h | h)
      · cases hlead.fits.started.symm.trans h
      · cases hlead.fits.running.symm.trans h
    refine .starts t x rfl h hs ?_
    rw [← htake]
    exact clan_start hg
  · rw [if_neg hs] at hlead
    have hplace : (s.journey x.journey).ctx.whereabouts = .away := hlead.fits.away.mpr rfl
    obtain ⟨op, hop⟩ : ∃ op, (s.journey x.journey).ctx = .yielded op := by
      cases hc : (s.journey x.journey).ctx with
      | yielded op => exact ⟨op, rfl⟩
      | fresh | user | polling | resumed | closing | ended =>
        rw [hc] at hplace
        cases hplace
    have hg : (s.journey x.journey).alive = true ∧ (s.journey x.journey).coro.started = true ∧
        ¬ (s.journey x.journey).coro.running = true := by
      refine ⟨hlead.fits.alive, hlead.fits.started, fun h => ?_⟩
      cases hlead.fits.running.symm.trans h
    refine .resumes t x op rfl h (by simpa using hs) hop ?_
    rw [← htake]
    exact clan_resume (s := s.take t x) hg hop

lemma deed_jump (h : s.stage t j = some .switched) : s.Deed (.jump t j) (s.jump t j) := by
  refine .saves t j (s.journey j).coro.exc rfl h ?_
  have hm : (s.mapJourney j fun x => { x with
      coro := { x.coro with running := false }, log := x.log ++ [.save] }).clan =
      s.clan.record j .save := clan_mapJourney (fun m => { m with log := m.log ++ [.save] }) rfl
  simp only [jump]
  split_ifs with he
  · rw [clan_addUncaught, clan_mapExec, clan_setStage, hm, he]
    simp [Clan.setStage, Clan.mapExec, Function.comp_def]
  · rw [clan_setStage, hm]
    simp [Clan.setStage, he]

lemma deed_onExit0 (h : s.stage t j = some .exiting) (fails : Bool) :
    s.Deed (.exit t j fails) (s.onExit0 t j fails) := by
  unfold onExit0
  split
  case h_1 hd =>
    refine .deletes t j rfl h hd ?_
    have hm : (s.mapJourney j fun x => { x with
        alive := false, log := x.log ++ [.delete] }).clan = s.clan.record j .delete :=
      clan_mapJourney (fun m => { m with log := m.log ++ [.delete] }) rfl
    rw [clan_setStage, ← hm]
    rfl
  case h_2 d hd =>
    split_ifs
    · exact .still rfl rfl
    · refine .answers t j d rfl h hd ?_
      have hm : (s.mapJourney j fun x => { x with deferHandler := none }).clan =
          s.clan.mapMember j fun m => { m with handler := none } := clan_mapJourney _ rfl
      rw [clan_runDeferred, hm]

lemma deed_launch (h : s.stage t j = some (.loop k)) : s.Deed (.launch t j) (s.launch t k) := by
  simp only [launch]
  split_ifs with hlt
  · split
    · exact .still rfl rfl
    · refine .launches t j k rfl h hlt ?_
      simp only [hold, clan_mapGroup, clan_create]
      rfl
  · refine .endsLoop t j k rfl h (by omega) ?_
    rw [clan_setStage, clan_release]

lemma deed_finish {x : Exec} (hx : (s.thread t).exec = some x) (hj : x.journey = j)
    (h : x.stage = .finishing) : s.Deed (.finish t j) (s.finish t j x) := by
  unfold finish
  split_ifs
  · exact .drops t x rfl hx h (fun h => Bool.noConfusion h) (clan_giveUp s t x)
  · split
    case h_1 k i hs hr =>
      refine .endsTask t x k i rfl hx h hs (hj ▸ hr) ?_
      rw [clan_release, clan_giveUp, hj]
    case h_2 hno =>
      refine .drops t x rfl hx h (fun _ hs => ?_) (clan_giveUp _ _ _)
      rw [hj]
      cases hr : (s.journey j).role with
      | none => rfl
      | some r => exact absurd hr (hno r.1 r.2 hs)

lemma clan_fire (s : Runtime) (w : ℕ) (v : Option ℕ) :
    (s.fire w v).clan = s.clan ∨ (s.fire w v).clan = s.clan.proceed (s.waiter w).owner := by
  unfold fire
  split
  · exact .inl rfl
  · exact .inr (clan_proceed _ _)

/-- A waiter is called by a thread that has unlocked the channel. -/
lemma deed_fire (hu : u.clan = s.clan) (hn : s.returned a = none) (w : ℕ) (v : Option ℕ) :
    s.Deed a (u.fire w v) := by
  rcases u.clan_fire w v with h | h
  · exact .still hn (h.trans hu)
  · exact .proceeds (u.waiter w).owner hn (by rw [h, hu])

lemma deed_of_rule (hS : s.relay.Sound) (h : Rule s a s') : s.Deed a s' := by
  cases h with
  | dispatch t k h => exact deed_dispatch hS h
  | leave t j op h => exact deed_leave h
  | jump t j h => exact deed_jump h
  | exit t j fails h => exact deed_onExit0 h fails
  | launch t j k h => exact deed_launch h
  | finish t j x hx hj h => exact deed_finish hx hj h
  | go t d d' h hd => exact .creates rfl (clan_create _ _ _)
  | request t j r h hr => exact deed_request h hr
  | get t j c h hm => exact deed_get h c
  | portal t j d h => exact deed_teleport rfl rfl h.1.1 h.1.2.2 d _
  | timeout t j h =>
    refine .still rfl ?_
    rw [openTimeout, clan_mapJourney_of_eq rfl]
    rfl
  | guard t j h => exact deed_disableEvents rfl h.1.2.2 true
  | destructor t j h => exact .still rfl (clan_mapJourney_of_eq rfl)
  | closeScope t j f fs h hf => exact deed_closeScope h
  | poll t j k h => exact deed_poll h
  | handleEvents t j h => exact deed_checkEvents rfl rfl h.1.2.2
  | disableEvents t j h => exact deed_disableEvents rfl h.1.2.2 false
  | enableEvents t j h => exact deed_checkEvents (clan_mapJourney_of_eq rfl) rfl h.1.2.2
  | throw t j e h =>
    refine deed_user ?_ rfl h.1.2.2
    rw [clan_fly, clan_addUncaught]
  | catching t j h he =>
    exact .still rfl ((clan_mapJourney_of_eq rfl).trans (clan_addUncaught _ _ _))
  | ret t j v h hf => exact .rets t j v rfl h.1.1 h.1.2.2 (clan_ret _ _ _)
  | escape t j e h he hf =>
    refine .escapes t j rfl rfl h.1 h.2.2 ?_
    rw [clan_place rfl, clan_addUncaught]
  | endCoro t j h => exact .endsCoro t j rfl h.1 h.2.2 (clan_endCoro _ _ _)
  | put t c v h hm =>
    refine .still rfl ?_
    unfold put
    split
    · exact clan_setCall _ _ _
    · rfl
  | handOff t v w h => exact deed_fire (clan_setCall _ _ _) rfl _ _
  | opening t c h hm => exact .still rfl rfl
  | close t c h hm =>
    refine .still rfl ?_
    unfold close
    split_ifs
    · rfl
    · exact clan_setCall _ _ _
  | closeNext t w ws h => exact deed_fire (clan_setCall _ _ _) rfl _ _
  | closeEnd t h => exact .still rfl (clan_setCall _ _ _)
  | cancel j h => exact .still rfl (clan_mapJourney_of_eq rfl)
  | expire k h => exact .still rfl rfl
  | callback k h =>
    refine .still rfl ?_
    rw [callback, timedout, clan_mapJourney_of_eq rfl]
    rfl
  | complete i error h => exact .proceeds (s.io i).owner rfl (clan_proceed (s.mapIo i _) _)
  | attach d => exact .still rfl rfl

end Runtime

end Synca
