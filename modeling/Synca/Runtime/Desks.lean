import Synca.Runtime.Batons
import Synca.Runtime.Rules

/-!
# What threads have on their desks

A thread that is past the code of a journey has no call of `put` or `close` open: these are called
by user code, and return to it. So a thread that is done with a task is free for the next one.
-/

namespace Synca

open Transition

/-- The task and the open call of each thread. -/
abbrev Desks : Type := ℕ → Option Exec × ThreadCall

/-- Only user code has a call open. -/
def Desks.Tidy (d : Desks) : Prop :=
  ∀ t x, (d t).1 = some x → x.stage ≠ .running → (d t).2 = .idle

lemma Desks.Tidy.update {d : Desks} (h : d.Tidy) (t : ℕ) {p : Option Exec × ThreadCall}
    (hp : ∀ x, p.1 = some x → x.stage ≠ .running → p.2 = .idle) :
    Desks.Tidy (Function.update d t p) := by
  intro u x
  rw [Function.update_apply]
  split_ifs
  · exact hp x
  · exact h u x

namespace Runtime

variable {s s' u : Runtime} {t j k : ℕ} {a : Action}

def desks (s : Runtime) : Desks := fun t => ((s.thread t).exec, (s.thread t).call)

lemma desks_mapThread (s : Runtime) (t : ℕ) (f : Thread → Thread) : (s.mapThread t f).desks =
    Function.update s.desks t ((f (s.thread t)).exec, (f (s.thread t)).call) := by
  funext i
  simp only [desks, mapThread, Function.update_apply]
  split_ifs <;> rfl

@[simp] lemma desks_addUncaught (s : Runtime) (t : ℕ) (n : ℤ) :
    (s.addUncaught t n).desks = s.desks := by
  rw [addUncaught, desks_mapThread]
  exact Function.update_eq_self t s.desks

@[simp] lemma desks_tryProceed (s : Runtime) (k : ℕ) (v : Option ℕ) :
    (s.tryProceed k v).desks = s.desks := by
  unfold tryProceed
  simp only
  split_ifs <;> rfl

@[simp] lemma desks_release (s : Runtime) (k : ℕ) (h : Holder) :
    (s.release k h).desks = s.desks := by
  unfold release
  simp only
  split_ifs
  · unfold deleter
    split
    · rfl
    · rfl
    · exact desks_tryProceed _ _ _
  · rfl

@[simp] lemma desks_deliver (s : Runtime) (t j : ℕ) (e : Events) :
    (s.deliver t j e).desks = s.desks := by
  unfold deliver
  split
  · exact desks_addUncaught (s.mapJourney j fun x => { x with events := e, cause := none }) t 1
  · exact desks_addUncaught (s.mapJourney j fun x => { x with events := e, cause := none }) t 1

@[simp] lemma desks_handleEvents (s : Runtime) (t j : ℕ) :
    (s.handleEvents t j).2.desks = s.desks := by
  unfold handleEvents
  split
  · rfl
  · exact desks_deliver _ _ _ _

@[simp] lemma desks_throwFrom (s : Runtime) (t j : ℕ) (e : Exn) (op : Op) :
    (s.throwFrom t j e op).desks = s.desks := by
  unfold throwFrom
  split <;> rfl

@[simp] lemma desks_arrive (s : Runtime) (t j : ℕ) (c : Caller) :
    (s.arrive t j c).desks = s.desks := by
  cases c <;> rfl

namespace Tidy

/-- A thread without an open call changes its stage. -/
lemma setStage (h : u.desks.Tidy) (hc : (u.thread t).call = .idle) (g : Stage) :
    (u.setStage t g).desks.Tidy := by
  rw [Runtime.setStage, desks_mapThread]
  exact h.update t fun _ _ _ => hc

lemma defer (h : u.desks.Tidy) (hc : (u.thread t).call = .idle) (op : Op) (d : Deferred) :
    (u.defer t j op d).desks.Tidy := by
  unfold Runtime.defer
  have hdesks := desks_handleEvents u t j
  split
  · rename_i v hv
    rw [hv] at hdesks
    have hcall : (v.thread t).call = .idle :=
      (congrArg Prod.snd (congrFun hdesks t)).trans hc
    have hv : v.desks.Tidy := hdesks.symm ▸ h
    exact setStage (u := v.mapJourney j fun x => { x with
      ctx := .yielded op, deferHandler := some d, log := x.log ++ [.yield] }) hv hcall .switched
  · rename_i e v hv
    rw [hv] at hdesks
    rw [desks_throwFrom, hdesks]
    exact h

lemma teleport (h : u.desks.Tidy) (hc : (u.thread t).call = .idle) (d : ℕ) (c : Caller) :
    (u.teleport t j d c).desks.Tidy := by
  unfold Runtime.teleport
  split_ifs
  · rw [desks_arrive]
    exact h
  · exact defer (u := u.mapJourney j fun x => { x with sched := d }) h hc _ _

end Tidy

namespace Tidy

lemma call_of_stage (hT : s.desks.Tidy) {g : Stage} (h : s.stage t j = some g)
    (hg : g ≠ .running) : (s.thread t).call = .idle := by
  obtain ⟨x, hx, -, rfl⟩ := exec_of_stage h
  exact hT t x hx hg

/-- A call is opened or goes on. -/
lemma setCall (hT : u.desks.Tidy) {c : ThreadCall}
    (hc : c ≠ .idle → ∀ x, (u.thread t).exec = some x → x.stage = .running) :
    (u.setCall t c).desks.Tidy := by
  rw [Runtime.setCall, desks_mapThread]
  refine hT.update t fun x hx hs => ?_
  by_contra hn
  exact hs (hc hn x hx)

lemma running_of_mayCall (h : s.MayCall t) {x : Exec} (hx : (s.thread t).exec = some x) :
    x.stage = .running := by
  have hcalls : s.Calls t x.journey := by
    have h₂ := h.2
    rw [hx] at h₂
    exact h₂
  obtain ⟨y, hy, -, hg⟩ := exec_of_stage hcalls.1.1
  obtain rfl : x = y := Option.some_injective _ (hx.symm.trans hy)
  exact hg

lemma start (hT : u.desks.Tidy) (j : ℕ) : (u.start j).desks.Tidy := by
  unfold Runtime.start
  split_ifs
  · simp only
    split <;> exact hT
  · exact hT

lemma resume (hT : u.desks.Tidy) (j : ℕ) : (u.resume j).desks.Tidy := by
  unfold Runtime.resume
  split_ifs
  · split <;> exact hT
  · exact hT

lemma fire (hT : u.desks.Tidy) (w : ℕ) (v : Option ℕ) : (u.fire w v).desks.Tidy := by
  unfold Runtime.fire
  split <;> exact hT

lemma checkEvents (hT : u.desks.Tidy) : (u.checkEvents t j).desks.Tidy := by
  have hdesks := desks_handleEvents u t j
  unfold Runtime.checkEvents
  split <;> rename_i hv <;> rw [hv] at hdesks <;> exact hdesks.symm ▸ hT

lemma disableEvents (hT : u.desks.Tidy) (g : Bool) : (u.disableEvents t j g).desks.Tidy := by
  have hdesks := desks_handleEvents u t j
  unfold Runtime.disableEvents
  split <;> rename_i hv <;> rw [hv] at hdesks <;> exact hdesks.symm ▸ hT

lemma closeGuard (hT : u.desks.Tidy) : (u.closeGuard t j).desks.Tidy := by
  have hdesks := desks_handleEvents (u.allowEvents j) t j
  unfold Runtime.closeGuard
  split <;> rename_i hv <;> rw [hv] at hdesks <;> exact hdesks.symm ▸ hT

lemma leave (hT : u.desks.Tidy) (op : Op) : (u.leave t j op).desks.Tidy := by
  have hdesks := desks_handleEvents u t j
  unfold Runtime.leave
  split <;> rename_i hv <;> rw [hv] at hdesks
  · rw [desks_throwFrom, hdesks]
    exact hT
  · split
    · rw [desks_arrive, hdesks]
      exact hT
    · simp only
      split_ifs
      · rw [desks_throwFrom, desks_addUncaught, hdesks]
        exact hT
      · exact hdesks.symm ▸ hT
    · exact hdesks.symm ▸ hT
    · split_ifs
      · rw [desks_throwFrom, desks_addUncaught, hdesks]
        exact hT
      · exact hdesks.symm ▸ hT

lemma step (hs : Runtime.step s a = some s') (hT : s.desks.Tidy) : s'.desks.Tidy := by
  have hgive : ∀ t x, (s.giveUp t x).desks.Tidy := fun t x =>
    (desks_mapThread s t fun th => { th with exec := none }) ▸ hT.update t (by simp)
  cases Rule.of_step hs with
  | dispatch t k h =>
    have htake : (s.take t k).desks.Tidy :=
      (desks_mapThread s t fun th => { th with exec := some {
        via := k.sched, journey := k.journey, start := k.start, stage := .running } }) ▸
        hT.update t fun x hx hs => by
          obtain rfl := Option.some_injective _ hx
          exact absurd rfl hs
    unfold Runtime.dispatch
    split_ifs
    · exact start htake _
    · exact resume htake _
  | leave t j op h => exact leave hT op
  | jump t j h =>
    have hc := call_of_stage hT h (by simp)
    unfold Runtime.jump
    simp only
    split_ifs
    · rw [desks_addUncaught, desks_mapThread]
      refine (setStage (u := s.mapJourney j fun x => { x with
        coro := { x.coro with running := false }, log := x.log ++ [.save] }) hT hc .exiting).update
          t fun x _ _ => ?_
      simpa [Runtime.setStage, mapThread, mapJourney] using hc
    · refine setStage ?_ ?_ _
      · exact hT
      · exact hc
  | exit t j fails h =>
    have hc := call_of_stage hT h (by simp)
    unfold onExit0
    split
    · refine setStage ?_ ?_ _
      · exact hT
      · exact hc
    · rename_i d hd
      split_ifs
      · exact hT
      · cases d <;> (refine setStage ?_ ?_ _; exacts [hT, hc])
  | launch t j k h =>
    have hc := call_of_stage hT h (by simp)
    unfold Runtime.launch
    simp only
    split_ifs
    · split
      · exact hT
      · exact hT
    · exact setStage (u := s.release k .loop) (by rwa [desks_release])
        ((congrArg Prod.snd (congrFun (desks_release s k .loop) t)).trans hc) .finishing
  | finish t j x hx hj h =>
    unfold Runtime.finish
    split_ifs
    · exact hgive t x
    · split
      · rw [desks_release]
        exact hgive t x
      · exact hgive t x
  | go t d d' h hd => exact hT
  | request t j r h hr =>
    cases r with
    | teleport d => exact teleport hT h.1.2.1 _ _
    | group kind size =>
      unfold Runtime.request goGroup
      refine defer ?_ ?_ _ _
      · exact hT
      · exact h.1.2.1
    | deferIo =>
      unfold Runtime.request Runtime.deferIo
      refine defer ?_ ?_ _ _
      · exact hT
      · exact h.1.2.1
  | get t j c h hm =>
    unfold Runtime.get
    split
    · exact hT
    · split_ifs
      · exact hT
      · refine defer ?_ ?_ _ _
        · exact hT
        · exact h.1.2.1
  | portal t j d h => exact teleport hT h.1.2.1 _ _
  | timeout t j h => exact hT
  | guard t j h => exact disableEvents hT _
  | destructor t j h => exact hT
  | closeScope t j f fs h hf =>
    cases f with
    | portal src b =>
      refine teleport ?_ ?_ _ _
      · exact hT
      · exact h.2.1
    | timeout k => exact hT
    | guard =>
      refine closeGuard ?_
      exact hT
    | destructor e =>
      unfold closeScope closeDestructor
      split_ifs <;> exact hT
  | poll t j k h =>
    have hdesks := desks_handleEvents s t j
    unfold Runtime.poll
    split <;> rename_i hv <;> rw [hv] at hdesks
    · exact hdesks.symm ▸ hT
    · exact hdesks.symm ▸ hT
  | handleEvents t j h => exact checkEvents hT
  | disableEvents t j h => exact disableEvents hT _
  | enableEvents t j h => exact checkEvents (u := s.allowEvents j) hT
  | throw t j e h => exact (desks_addUncaught s t 1).symm ▸ hT
  | catching t j h he => exact (desks_addUncaught s t (-1)).symm ▸ hT
  | ret t j v h hf =>
    unfold Runtime.ret
    simp only
    split
    · exact hT
    · split
      · unfold win
        simp only
        split_ifs <;> exact hT
      · rw [desks_tryProceed]
        exact hT
      · exact hT
  | escape t j e h he hf => exact (desks_addUncaught s t (-1)).symm ▸ hT
  | endCoro t j h =>
    have hset : ((s.mapJourney j fun x => { x with
        ctx := .ended, coro := { x.coro with started := false },
        log := x.log ++ [.finish] }).setStage t .switched).desks.Tidy := by
      refine setStage ?_ ?_ _
      · exact hT
      · exact h.2.1
    unfold Runtime.endCoro
    simp only
    split
    · rw [desks_release]
      exact hset
    · exact hset
  | put t c v h hm =>
    unfold Runtime.put
    split
    · exact setCall hT fun _ x hx => running_of_mayCall h hx
    · exact hT
  | handOff t v w h => exact fire (setCall hT fun hn => absurd rfl hn) _ _
  | opening t c h hm => exact hT
  | close t c h hm =>
    unfold Runtime.close
    split_ifs
    · exact hT
    · exact setCall hT fun _ x hx => running_of_mayCall h hx
  | closeNext t w ws h =>
    refine fire (setCall hT fun _ x hx => ?_) _ _
    by_contra hs
    cases h.symm.trans (hT t x hx hs)
  | closeEnd t h => exact setCall hT fun hn => absurd rfl hn
  | cancel j h => exact hT
  | expire k h => exact hT
  | callback k h => exact hT
  | complete i error h => exact hT
  | attach d => exact hT

end Tidy

theorem inductive_tidy : machine.Inductive (fun _ _ => True) fun s => s.desks.Tidy where
  init s h := by
    obtain ⟨alone, rfl⟩ := h
    exact fun _ _ hx => by cases hx
  step _ _ _ hT _ hs := Tidy.step hs hT

end Runtime

end Synca
