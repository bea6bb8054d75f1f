import Mathlib.Data.Set.Insert
import Synca.Runtime.Resumption

/-!
# Groups and their members

What of the runtime the groups depend on: the groups themselves with all their fields, for each
journey its role, its place on the stack, its deferred handler and its life, and which tasks are
posted and executed. The functions of the runtime are seen as functions of this.
-/

namespace Synca

open Transition Relay

/-- What a journey shows to its group. -/
structure Member where
  role : Option (ℕ × ℕ) := none
  ctx : Ctx := .fresh
  handler : Option Deferred := none
  log : List LifeEvent := []
  started : Bool := false

structure Clan where
  member : ℕ → Member
  created : ℕ
  group : ℕ → Group
  groups : ℕ
  /-- The tasks posted: the journey, and whether the task starts it. -/
  posted : Set (ℕ × Bool)
  exec : ℕ → Option Exec

def Journey.member (x : Journey) : Member := ⟨x.role, x.ctx, x.deferHandler, x.log, x.coro.started⟩

namespace Clan

def mapMember (c : Clan) (j : ℕ) (f : Member → Member) : Clan :=
  { c with member := Function.update c.member j (f (c.member j)) }

def mapGroup (c : Clan) (k : ℕ) (f : Group → Group) : Clan :=
  { c with group := Function.update c.group k (f (c.group k)) }

def mapExec (c : Clan) (t : ℕ) (f : Exec → Exec) : Clan :=
  { c with exec := Function.update c.exec t ((c.exec t).map f) }

def setStage (c : Clan) (t : ℕ) (g : Stage) : Clan := c.mapExec t fun x => { x with stage := g }

def giveUp (c : Clan) (t : ℕ) : Clan := { c with exec := Function.update c.exec t none }

/-- A task is taken; a journey has one task at most. -/
def take (c : Clan) (t : ℕ) (k : Task) : Clan :=
  { c with
    posted := { p ∈ c.posted | p.1 ≠ k.journey }
    exec := Function.update c.exec t (some ⟨k.sched, k.journey, k.start, false, .running⟩) }

def post (c : Clan) (j : ℕ) (b : Bool) : Clan := { c with posted := insert (j, b) c.posted }

def record (c : Clan) (j : ℕ) (e : LifeEvent) : Clan :=
  c.mapMember j fun m => { m with log := m.log ++ [e] }

def proceed (c : Clan) (j : ℕ) : Clan := (c.record j .proceed).post j false

def create (c : Clan) (r : Option (ℕ × ℕ)) : Clan :=
  let c' := c.mapMember (c.created + 1) fun m => { m with role := r, log := m.log ++ [.create] }
  { c' with created := c.created + 1 : Clan }.post (c.created + 1) true

/-- The counter is incremented, and the first to do so proceeds the owner. -/
def bump (c : Clan) (k : ℕ) (f : Group → Group) : Clan :=
  let c' := c.mapGroup k fun x => { x with counter := x.counter + 1 }
  if (c.group k).counter = 0 then (c'.mapGroup k f).proceed (c.group k).owner else c'

def settle (c : Clan) (k : ℕ) : Clan :=
  match (c.group k).kind with
  | .goWait      => c.proceed (c.group k).owner
  | .goAnyWait   => c
  | .goAnyResult => c.bump k fun x => { x with result := none }

def hold (c : Clan) (k : ℕ) (h : Holder) : Clan :=
  c.mapGroup k fun x => { x with holders := x.holders ++ [h] }

def release (c : Clan) (k : ℕ) (h : Holder) : Clan :=
  let c' := c.mapGroup k fun x => { x with holders := x.holders.erase h }
  if (c'.group k).holders = [] then c'.settle k else c'

def place (c : Clan) (j : ℕ) (x : Ctx) : Clan := c.mapMember j fun m => { m with ctx := x }

lemma place_self {c : Clan} {j : ℕ} {x : Ctx} (h : (c.member j).ctx = x) : c.place j x = c := by
  subst h
  simp [place, mapMember]

def yield (c : Clan) (t j : ℕ) (op : Op) (d : Deferred) : Clan :=
  (c.mapMember j fun m =>
    { m with ctx := .yielded op, handler := some d, log := m.log ++ [.yield] }).setStage t
    .switched

def newGroup (c : Clan) (j : ℕ) (kind : GroupKind) (size : ℕ) : Clan :=
  let c' := c.mapGroup c.groups fun x => { x with kind := kind, owner := j, size := size }
  { c' with groups := c.groups + 1 }

def quit (c : Clan) (k : ℕ) : Clan := c.mapGroup k fun x => { x with left := true }

def start (c : Clan) (j : ℕ) : Clan :=
  let c' := c.mapMember j fun m =>
    { m with ctx := .user, started := true, log := m.log ++ [.start] }
  match (c.member j).role with
  | some (k, _) => c'.hold k (.coro j)
  | none        => c'

def resume (c : Clan) (j : ℕ) (op : Op) : Clan :=
  c.mapMember j fun m => { m with ctx := .resumed op, log := m.log ++ [.resume] }

def answer (c : Clan) (t j : ℕ) : Deferred → Clan
  | .proceed      => (c.proceed j).setStage t .finishing
  | .launch k     =>
    (c.mapGroup k fun x => { x with began := true, holders := [.loop] }).setStage t (.loop k)
  | .setProceed _ => c.setStage t .finishing
  | .startIo _    => c.setStage t .finishing

def launch (c : Clan) (k : ℕ) : Clan :=
  ((c.create (some (k, (c.group k).launched))).mapGroup k fun x =>
    { x with launched := x.launched + 1 }).hold k (.task (c.created + 1))

def ret (c : Clan) (j : ℕ) (v : Option ℕ) : Clan :=
  let c' := c.place j .closing
  match (c.member j).role with
  | none        => c'
  | some (k, i) =>
    match (c.group k).kind, v with
    | .goAnyWait,   _      => c'.bump k fun x => { x with index := some i }
    | .goAnyResult, some r => c'.bump k fun x => { x with result := some r }
    | _,            _      => c'

def endCoro (c : Clan) (t j : ℕ) : Clan :=
  let c' := (c.mapMember j fun m =>
    { m with ctx := .ended, started := false, log := m.log ++ [.finish] }).setStage t .switched
  match (c.member j).role with
  | some (k, _) => c'.release k (.coro j)
  | none        => c'

end Clan

/-- What the call `op` gives to `defer`. -/
def Op.deferred : Op → Deferred
  | .teleport _ => .proceed
  | .group k    => .launch k
  | .get w      => .setProceed w
  | .deferIo i  => .startIo i

/-- The tasks on a list, as a set. -/
def Task.ends (ks : List Task) : Set (ℕ × Bool) := { p | ∃ x ∈ ks, x.journey = p.1 ∧ x.start = p.2 }

namespace Runtime

variable {s s' u : Runtime} {t j k : ℕ} {a : Action}

def clan (s : Runtime) : Clan where
  member j := (s.journey j).member
  created  := s.created
  group    := s.group
  groups   := s.groups
  posted   := Task.ends s.posted
  exec t   := (s.thread t).exec

/-! ### Updates -/

lemma clan_mapJourney {f : Journey → Journey} (g : Member → Member)
    (h : (f (s.journey j)).member = g (s.journey j).member) :
    (s.mapJourney j f).clan = s.clan.mapMember j g := by
  simp only [clan, mapJourney, Clan.mapMember, update_comp Journey.member, h]

lemma clan_mapJourney_of_eq {f : Journey → Journey}
    (h : (f (s.journey j)).member = (s.journey j).member) : (s.mapJourney j f).clan = s.clan := by
  simp only [clan, mapJourney, update_comp Journey.member, h]
  simp

lemma clan_place {f : Journey → Journey} {x : Ctx}
    (h : (f (s.journey j)).member = { (s.journey j).member with ctx := x }) :
    (s.mapJourney j f).clan = s.clan.place j x :=
  clan_mapJourney (fun m => { m with ctx := x }) h

lemma clan_mapExec (e : Exec → Exec) : (s.mapThread t fun th =>
    { th with exec := th.exec.map e }).clan = s.clan.mapExec t e := by
  simp only [clan, mapThread, Clan.mapExec, update_comp Thread.exec]

lemma clan_setStage (s : Runtime) (t : ℕ) (g : Stage) :
    (s.setStage t g).clan = s.clan.setStage t g :=
  clan_mapExec _

lemma clan_setCall (s : Runtime) (t : ℕ) (x : ThreadCall) : (s.setCall t x).clan = s.clan := by
  simp only [clan, setCall, mapThread, update_comp Thread.exec]
  simp

lemma clan_addUncaught (s : Runtime) (t : ℕ) (n : ℤ) : (s.addUncaught t n).clan = s.clan := by
  simp only [clan, addUncaught, mapThread, update_comp Thread.exec]
  simp

lemma clan_mapGroup (s : Runtime) (k : ℕ) (f : Group → Group) :
    (s.mapGroup k f).clan = s.clan.mapGroup k f := rfl

/-! ### Functions -/

lemma ends_append (ks : List Task) (x : Task) :
    Task.ends (ks ++ [x]) = insert (x.journey, x.start) (Task.ends ks) := by
  ext p
  simp only [Task.ends, Set.mem_ofPred_eq, List.mem_append, List.mem_singleton, Set.mem_insert_iff]
  constructor
  · rintro ⟨y, hy | rfl, hj, hs⟩
    · exact .inr ⟨y, hy, hj, hs⟩
    · exact .inl (Prod.ext hj.symm hs.symm)
  · rintro (rfl | ⟨y, hy, h⟩)
    · exact ⟨x, .inr rfl, rfl, rfl⟩
    · exact ⟨y, .inl hy, h⟩

lemma clan_schedule0 (s : Runtime) (j : ℕ) (b : Bool) :
    (s.schedule0 j b).clan = s.clan.post j b := by
  simp only [clan, schedule0, Clan.post, ends_append]

lemma clan_record (s : Runtime) (j : ℕ) (e : LifeEvent) :
    (s.record j e).clan = s.clan.record j e :=
  clan_mapJourney (fun m => { m with log := m.log ++ [e] }) rfl

lemma clan_proceed (s : Runtime) (j : ℕ) : (s.proceed j).clan = s.clan.proceed j := by
  rw [Runtime.proceed, clan_schedule0, clan_record]
  rfl

lemma clan_create (s : Runtime) (d : ℕ) (r : Option (ℕ × ℕ)) :
    (s.create d r).clan = s.clan.create r := by
  have h : (s.mapJourney (s.created + 1) fun x => { x with
      alive := true, sched := d, role := r, log := x.log ++ [.create] }).clan =
      s.clan.mapMember (s.created + 1) fun m => { m with
        role := r, log := m.log ++ [.create] } := clan_mapJourney _ rfl
  rw [Runtime.create, clan_schedule0]
  exact congrArg (fun c : Clan => { c with created := s.created + 1 : Clan }.post (s.created + 1)
    true) h

/-- The clan of a counted group; `f` writes what the first one leaves behind. -/
lemma clan_bump (s : Runtime) (k : ℕ) (f : Group → Group) :
    (if (s.group k).counter = 0 then
      ((s.mapGroup k fun x => { x with counter := x.counter + 1 }).mapGroup k f).proceed
        (s.group k).owner
      else s.mapGroup k fun x => { x with counter := x.counter + 1 }).clan = s.clan.bump k f := by
  simp only [Clan.bump]
  show _ = if (s.group k).counter = 0 then _ else _
  split_ifs
  · exact clan_proceed _ _
  · rfl

lemma clan_tryProceed (s : Runtime) (k : ℕ) (v : Option ℕ) :
    (s.tryProceed k v).clan = s.clan.bump k fun x => { x with result := v } :=
  clan_bump s k _

lemma clan_win (s : Runtime) (k i : ℕ) :
    (s.win k i).clan = s.clan.bump k fun x => { x with index := some i } :=
  clan_bump s k _

lemma clan_release (s : Runtime) (k : ℕ) (h : Holder) :
    (s.release k h).clan = s.clan.release k h := by
  have hd : ∀ u : Runtime, (u.deleter k).clan = u.clan.settle k := by
    intro u
    unfold deleter Clan.settle
    rw [show (u.clan.group k).kind = (u.group k).kind from rfl]
    cases (u.group k).kind with
    | goWait => exact clan_proceed _ _
    | goAnyWait => rfl
    | goAnyResult => exact clan_tryProceed _ _ _
  simp only [Runtime.release, Clan.release]
  show _ = if ((s.mapGroup k fun x => { x with holders := x.holders.erase h }).group k).holders = []
    then _ else _
  split_ifs
  · exact hd _
  · rfl

lemma clan_yield (s : Runtime) (t j : ℕ) (op : Op) (d : Deferred) :
    (s.yield t j op d).clan = s.clan.yield t j op d := by
  rw [Runtime.yield, clan_setStage, clan_mapJourney (fun m => { m with
    ctx := .yielded op, handler := some d, log := m.log ++ [.yield] }) rfl]
  rfl

lemma clan_fly (s : Runtime) (j : ℕ) (e : Exn) : (s.fly j e).clan = s.clan.place j .user :=
  clan_place rfl

lemma clan_deliver (s : Runtime) (t j : ℕ) (e : Events) : (s.deliver t j e).clan = s.clan := by
  have h : (s.takeEvent t j e).clan = s.clan := by
    rw [takeEvent, clan_addUncaught, clan_mapJourney_of_eq rfl]
  unfold deliver
  split <;> exact h

lemma clan_leavePortal (s : Runtime) (t j b : ℕ) : (s.leavePortal t j b).clan = s.clan :=
  clan_mapJourney_of_eq rfl

lemma clan_arrive (s : Runtime) (t j : ℕ) (c : Caller) :
    (s.arrive t j c).clan = s.clan.place j .user := by
  cases c with
  | user =>
    rw [arrive]
    exact clan_place rfl
  | portal src b =>
    rw [arrive]
    exact clan_place rfl
  | unportal src b =>
    rw [arrive, ← clan_leavePortal s t j b]
    exact clan_place rfl

lemma clan_newGroup (s : Runtime) (j : ℕ) (kind : GroupKind) (size : ℕ) :
    ({ s.mapGroup s.groups fun x => { x with kind := kind, owner := j, size := size } with
      groups := s.groups + 1 } : Runtime).clan = s.clan.newGroup j kind size := rfl

/-- A task is taken off its scheduler; its journey has no other. -/
lemma clan_take (hn : (s.posted.map Task.journey).Nodup) {x : Task} (hx : x ∈ s.posted) (t : ℕ) :
    (s.take t x).clan = s.clan.take t x := by
  have hp : Task.ends (s.posted.erase x) = { p ∈ Task.ends s.posted | p.1 ≠ x.journey } := by
    have hperm := (List.perm_cons_erase hx).map Task.journey
    have hnd := hperm.nodup_iff.mp hn
    obtain ⟨hnot, -⟩ := List.nodup_cons.mp hnd
    ext p
    simp only [Task.ends, Set.mem_ofPred_eq]
    constructor
    · rintro ⟨y, hy, hj, hs⟩
      refine ⟨⟨y, List.mem_of_mem_erase hy, hj, hs⟩, ?_⟩
      rintro hpx
      exact hnot (List.mem_map.mpr ⟨y, hy, hj.trans hpx⟩)
    · rintro ⟨⟨y, hy, hj, hs⟩, hne⟩
      refine ⟨y, (List.mem_erase_of_ne ?_).mpr hy, hj, hs⟩
      rintro rfl
      exact hne hj.symm
  simp only [clan, Runtime.take, mapThread, Clan.take, update_comp Thread.exec, hp]

lemma clan_giveUp (s : Runtime) (t : ℕ) (x : Exec) : (s.giveUp t x).clan = s.clan.giveUp t := by
  simp only [clan, Runtime.giveUp, mapThread, Clan.giveUp, update_comp Thread.exec]

lemma clan_runDeferred (s : Runtime) (t j : ℕ) (d : Deferred) :
    (s.runDeferred t j d).clan = s.clan.answer t j d := by
  cases d with
  | proceed =>
    rw [runDeferred, clan_setStage, clan_proceed]
    rfl
  | launch k => exact clan_setStage _ _ _
  | setProceed w => exact clan_setStage _ _ _
  | startIo i => exact clan_setStage _ _ _

lemma clan_start (h : (s.journey j).alive = true ∧
    ¬ ((s.journey j).coro.started = true ∨ (s.journey j).coro.running = true)) :
    (s.start j).clan = s.clan.start j := by
  have hm : (s.mapJourney j fun x => { x with
      ctx := .user, coro := ⟨true, true, false⟩, log := x.log ++ [.start] }).clan =
      s.clan.mapMember j fun m => { m with
        ctx := .user, started := true, log := m.log ++ [.start] } := clan_mapJourney _ rfl
  unfold Runtime.start Clan.start
  rw [if_pos h, ← hm, show (s.clan.member j).role = (s.journey j).role from rfl]
  cases (s.journey j).role with
  | none => rfl
  | some r => rfl

lemma clan_resume (h : (s.journey j).alive = true ∧ (s.journey j).coro.started = true ∧
    ¬ (s.journey j).coro.running = true) {op : Op} (hc : (s.journey j).ctx = .yielded op) :
    (s.resume j).clan = s.clan.resume j op := by
  unfold Runtime.resume
  rw [if_pos h, hc]
  exact clan_mapJourney _ rfl

lemma clan_ret (s : Runtime) (j : ℕ) (v : Option ℕ) : (s.ret j v).clan = s.clan.ret j v := by
  have hp : (s.mapJourney j fun x => { x with ctx := .closing }).clan = s.clan.place j .closing :=
    clan_place rfl
  unfold Runtime.ret Clan.ret
  rw [show (s.clan.member j).role = (s.journey j).role from rfl]
  cases (s.journey j).role with
  | none => exact hp
  | some r =>
    simp only
    rw [show (s.clan.group r.1).kind = (s.group r.1).kind from rfl]
    cases (s.group r.1).kind with
    | goWait => exact hp
    | goAnyWait =>
      simp only
      rw [clan_win, hp]
    | goAnyResult =>
      cases v with
      | none => exact hp
      | some v =>
        simp only
        rw [clan_tryProceed, hp]

lemma clan_endCoro (s : Runtime) (t j : ℕ) : (s.endCoro t j).clan = s.clan.endCoro t j := by
  have hp : ((s.mapJourney j fun x => { x with
      ctx := .ended, coro := { x.coro with started := false },
      log := x.log ++ [.finish] }).setStage t .switched).clan =
      (s.clan.mapMember j fun m => { m with
        ctx := .ended, started := false, log := m.log ++ [.finish] }).setStage t .switched := by
    rw [clan_setStage]
    exact congrArg (Clan.setStage · t .switched) (clan_mapJourney _ rfl)
  unfold Runtime.endCoro Clan.endCoro
  rw [show (s.clan.member j).role = (s.journey j).role from rfl]
  cases (s.journey j).role with
  | none => exact hp
  | some r =>
    simp only
    rw [clan_release, hp]

end Runtime

end Synca
