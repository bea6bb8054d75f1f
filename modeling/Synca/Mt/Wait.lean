import Synca.Mt.Tokens

/-!
# When `ThreadPool::wait` waits for quiescence

A worker whose `run()` has returned takes the null work pointer as the sign that the pool has just
become idle. A worker left over from an earlier stop may see the null that a later `wait` has
written, revive the service and release the waiting thread while handlers are still queued.

Along the runs in which no worker does so while handlers are outstanding, the sign is right:
`finished_of_returned`.
-/

namespace Synca

open Transition

namespace ThreadPool

variable {n : ℕ}

/-- Handlers scheduled before a call of `wait`, and those they scheduled directly or
transitively. -/
def Awaited (s : ThreadPool n) (mark : ℕ) : ℕ → Prop := Descends s.parent (· < mark)

/-- A worker that finds no work object, and the pool not about to be destroyed, finds the pool
idle. -/
def NoStaleWorker (s : ThreadPool n) : Action n → Prop
  | .lock _ => s.toStop = false → s.work = false → s.Drained
  | _       => True

instance (s : ThreadPool n) (a : Action n) : Decidable (s.NoStaleWorker a) := by
  cases a <;> simp only [NoStaleWorker] <;> infer_instance

/-! ### What holds on every run -/

/-- The service is stopped only while nothing is outstanding, and the outside thread runs only
while the work object exists. -/
structure Control (s : ThreadPool n) : Prop where
  stopped : s.stopped = true → s.work = false ∧ s.Drained
  free : s.outside.Free → s.work = true
  mark : ∀ m, s.outside.mark? = some m → m ≤ s.scheduled

lemma Drained.moveWorker {s : ThreadPool n} (h : s.Drained) {t : Fin n} {pc : WorkerPc}
    (hpc : pc.isExec = false) : (s.moveWorker t pc).Drained := by
  refine ⟨h.1, fun u => ?_⟩
  rw [worker_moveWorker]
  split_ifs
  · exact hpc
  · exact h.2 u

lemma Drained.not_exec {s : ThreadPool n} (h : s.Drained) {t : Fin n} {x : ℕ} :
    s.worker t ≠ .exec x := by
  intro hw
  have := h.2 t
  rw [hw] at this
  cases this

lemma Control.post {s : ThreadPool n} (hC : s.Control) {p : Option ℕ} (hs : s.stopped = false) :
    (s.post p).Control where
  stopped h := by
    rw [show (s.post p).stopped = s.stopped from rfl, hs] at h
    cases h
  free := hC.free
  mark m hm := (hC.mark m hm).trans (Nat.le_succ _)

lemma Control.moveWorker {s : ThreadPool n} (hC : s.Control) {t : Fin n} {pc : WorkerPc}
    (hpc : pc.isExec = false) : (s.moveWorker t pc).Control :=
  ⟨fun h => ⟨(hC.stopped h).1, (hC.stopped h).2.moveWorker hpc⟩, hC.free, hC.mark⟩

lemma Control.workFinished {s : ThreadPool n} (hC : s.Control) : s.workFinished.Control := by
  obtain h | ⟨hw, hd, h⟩ := s.workFinished_eq <;> rw [h]
  · exact hC
  · exact ⟨fun _ => ⟨hw, hd⟩, hC.free, hC.mark⟩

/-- A blocked outside thread may lose the work object. -/
lemma Control.resetWork {s : ThreadPool n} (hC : s.Control) {pc : OutsidePc} (hpc : ¬ pc.Free)
    (hm : ∀ m, pc.mark? = some m → m ≤ s.scheduled) {b : Bool} :
    ({ s.resetWork with outside := pc, toStop := b } : ThreadPool n).Control := by
  have hW : ({ s with work := false, outside := pc } : ThreadPool n).Control :=
    ⟨fun h => ⟨rfl, (hC.stopped h).2⟩, fun h => absurd h hpc, hm⟩
  have hF := hW.workFinished
  unfold ThreadPool.resetWork
  rw [ThreadPool.workFinished] at hF ⊢
  split_ifs at hF ⊢ with h₁ h₂ h₂
  · exact ⟨hF.stopped, fun h => absurd h hpc, hm⟩
  · exact absurd h₁ h₂
  · exact absurd h₂ h₁
  · exact ⟨hF.stopped, fun h => absurd h hpc, hm⟩

lemma Control.step {s s' : ThreadPool n} {a : Action n} (hC : s.Control)
    (hs : step s a = some s') : s'.Control := by
  cases a with
  | take t h =>
    obtain ⟨-, hst, -, rfl⟩ := step_take hs
    refine ⟨fun h => ?_, hC.free, hC.mark⟩
    rw [stopped_moveWorker, hst] at h
    cases h
  | post t =>
    obtain ⟨h, hw, rfl⟩ := step_post hs
    apply hC.post
    by_contra hst
    exact (hC.stopped (by simpa using hst)).2.not_exec hw
  | finish t =>
    obtain ⟨h, hw, rfl⟩ := step_finish hs
    apply Control.workFinished
    refine ⟨fun hst => ?_, hC.free, hC.mark⟩
    exact absurd hw (hC.stopped hst).2.not_exec
  | leave t =>
    obtain ⟨-, -, rfl⟩ := step_leave hs
    exact hC.moveWorker rfl
  | lock t =>
    obtain ⟨-, ⟨-, rfl⟩ | ⟨-, -, rfl⟩ | ⟨-, -, rfl⟩⟩ := step_lock hs
    · exact hC.moveWorker rfl
    · exact ⟨by simp, fun _ => rfl, hC.mark⟩
    · exact hC.moveWorker rfl
  | notify t =>
    obtain ⟨-, rfl⟩ := step_notify hs
    apply Control.moveWorker _ rfl
    obtain h | ⟨mark, ho, h⟩ := s.notifyAll_eq <;> rw [h]
    · exact hC
    · refine ⟨hC.stopped, fun h => absurd h (by simp [OutsidePc.Free]), fun m hm => ?_⟩
      exact hC.mark m (by rw [ho]; exact hm)
  | schedule =>
    obtain ⟨hf, rfl⟩ := step_schedule hs
    apply hC.post
    by_contra hst
    have := (hC.stopped (by simpa using hst)).1
    rw [hC.free hf] at this
    cases this
  | wait =>
    obtain ⟨-, rfl⟩ := step_wait hs
    exact hC.resetWork (by simp [OutsidePc.Free]) (by simp [OutsidePc.mark?])
  | spurious =>
    obtain ⟨mark, ho, rfl⟩ := step_spurious hs
    refine ⟨hC.stopped, fun h => absurd h (by simp [OutsidePc.Free]), fun m hm => ?_⟩
    exact hC.mark m (by rw [ho]; exact hm)
  | recheck =>
    obtain ⟨mark, ho, ⟨hw, rfl⟩ | ⟨hw, rfl⟩⟩ := step_recheck hs
    · exact ⟨hC.stopped, fun _ => hw, fun m hm => hC.mark m (by rw [ho]; exact hm)⟩
    · refine ⟨hC.stopped, fun h => absurd h (by simp [OutsidePc.Free]), fun m hm => ?_⟩
      exact hC.mark m (by rw [ho]; exact hm)
  | destroy =>
    obtain ⟨-, rfl⟩ := step_destroy hs
    exact hC.resetWork (by simp [OutsidePc.Free]) (by simp [OutsidePc.mark?])
  | join =>
    obtain ⟨-, -, rfl⟩ := step_join hs
    exact ⟨hC.stopped, fun h => absurd h (by simp [OutsidePc.Free]), by simp [OutsidePc.mark?]⟩

lemma inductive_control :
    (machine n).Inductive (fun _ _ => True) fun s => s.Tokens ∧ s.Control where
  init s h := by
    obtain rfl : s = {} := h
    exact ⟨tokens_init, by simp, by simp, by simp [OutsidePc.mark?]⟩
  step s a s' h _ hs := ⟨h.1.step hs, h.2.step hs⟩

/-! ### What holds while no stale worker brings the work object back -/

/-- While `wait` blocks, a work object that is back means that the pool is drained. -/
structure Quiet (s : ThreadPool n) : Prop where
  waiting : s.outside.Waiting → s.work = true → s.Drained
  returned : ∀ mark, s.outside = .returned mark → ∀ h, s.Awaited mark h → h ∈ s.finished

/-- Steps of a worker that neither take nor leave a handler, and do not touch the work object. -/
lemma Quiet.moveWorker {s : ThreadPool n} (hQ : s.Quiet) {t : Fin n} {pc : WorkerPc}
    (hpc : pc.isExec = false) : (s.moveWorker t pc).Quiet where
  waiting hw h := (hQ.waiting hw h).moveWorker hpc
  returned := hQ.returned

/-- A handler issued by one that is not awaited is not awaited. -/
lemma Quiet.post {s : ThreadPool n} (hT : s.Tokens) (hC : s.Control) (hQ : s.Quiet)
    {p : Option ℕ} (hp : ∀ i, p = some i → ∃ t, s.worker t = .exec i)
    (hw : s.outside.Waiting → ¬ s.Drained) : (s.post p).Quiet where
  waiting hw' h := absurd (hQ.waiting hw' h) (hw hw')
  returned mark ho h ha := by
    have ho : s.outside = .returned mark := ho
    have hm : mark ≤ s.scheduled := hC.mark mark (by rw [ho]; rfl)
    have hlt : ∀ i, p = some i → i < s.scheduled := by
      intro i hi
      obtain ⟨t, ht⟩ := hp i hi
      exact hT.lt (.worker t) i ht
    rcases Nat.lt_trichotomy h s.scheduled with hh | rfl | hh
    · exact hQ.returned mark ho h (Descends.of_issue hT.bounded hh ha)
    · obtain ⟨i, hi, hai⟩ := Descends.issued hT.bounded hlt (by omega) ha
      obtain ⟨t, ht⟩ := hp i hi
      have hf : s.Holds .finished i := hQ.returned mark ho i hai
      cases hT.exclusive hf (q := .worker t) ht
    · cases ha with
      | base hb => omega
      | @child i _ hi _ =>
        have := (hT.bounded.issue hlt h i hi).2
        omega

lemma Quiet.workFinished {s : ThreadPool n} (hQ : s.Quiet) : s.workFinished.Quiet := by
  obtain h | ⟨-, -, h⟩ := s.workFinished_eq <;> rw [h]
  · exact hQ
  · exact ⟨hQ.waiting, hQ.returned⟩

/-- `wait` and the destructor null the work object. -/
lemma Quiet.resetWork {s : ThreadPool n} {pc : OutsidePc} {b : Bool}
    (hr : ∀ mark, pc ≠ .returned mark) :
    ({ s.resetWork with outside := pc, toStop := b } : ThreadPool n).Quiet := by
  have hwork : s.resetWork.work = false := by
    obtain h | ⟨-, -, h⟩ := ({ s with work := false } : ThreadPool n).workFinished_eq <;>
      rw [ThreadPool.resetWork, h]
  refine ⟨fun _ h => ?_, fun mark ho => absurd ho (hr mark)⟩
  cases hwork.symm.trans h

/-- Every awaited handler of a drained pool is finished. -/
lemma Tokens.finished_of_drained {s : ThreadPool n} (hT : s.Tokens) (hd : s.Drained) {mark h : ℕ}
    (hm : mark ≤ s.scheduled) (ha : s.Awaited mark h) : h ∈ s.finished := by
  have hlt : h < s.scheduled := by
    cases ha with
    | base hb => omega
    | @child i _ hi _ => exact (hT.bounded h i hi).2
  obtain ⟨_ | t | _, hp⟩ := hT.held h hlt
  · rw [Holds, hd.1] at hp
    cases hp
  · exact absurd hp hd.not_exec
  · exact hp

lemma Quiet.step {s s' : ThreadPool n} {a : Action n} (hT : s.Tokens) (hC : s.Control)
    (hQ : s.Quiet) (hN : s.NoStaleWorker a) (hs : step s a = some s') : s'.Quiet := by
  cases a with
  | take t h =>
    obtain ⟨hw, hst, hq, rfl⟩ := step_take hs
    have hd : ¬ s.Drained := fun hd => by simp [hd.1] at hq
    exact ⟨fun hwait h => absurd (hQ.waiting hwait h) hd, hQ.returned⟩
  | post t =>
    obtain ⟨h, hw, rfl⟩ := step_post hs
    apply hQ.post hT hC
    · intro i hi
      obtain rfl : h = i := by simpa using hi
      exact ⟨t, hw⟩
    · exact fun _ hd => hd.not_exec hw
  | finish t =>
    obtain ⟨h, hw, rfl⟩ := step_finish hs
    apply Quiet.workFinished
    refine ⟨fun hwait h => ?_, fun mark ho x hx =>
      List.mem_cons_of_mem _ (hQ.returned mark ho x hx)⟩
    exact absurd hw (hQ.waiting hwait h).not_exec
  | leave t =>
    obtain ⟨-, -, rfl⟩ := step_leave hs
    exact hQ.moveWorker rfl
  | lock t =>
    obtain ⟨-, ⟨-, rfl⟩ | ⟨hn, hw, rfl⟩ | ⟨-, -, rfl⟩⟩ := step_lock hs
    · exact hQ.moveWorker rfl
    · -- the worker takes the null work pointer as idleness
      exact ⟨fun _ _ => (hN hn hw).moveWorker rfl, hQ.returned⟩
    · exact hQ.moveWorker rfl
  | notify t =>
    obtain ⟨-, rfl⟩ := step_notify hs
    apply Quiet.moveWorker _ rfl
    obtain h | ⟨mark, ho, h⟩ := s.notifyAll_eq <;> rw [h]
    · exact hQ
    · exact ⟨fun _ => hQ.waiting (by simp [ho, OutsidePc.Waiting]), by simp⟩
  | schedule =>
    obtain ⟨hf, rfl⟩ := step_schedule hs
    refine hQ.post hT hC (by simp) fun hw => ?_
    cases ho : s.outside <;> rw [ho] at hf hw <;> cases hf <;> cases hw
  | wait =>
    obtain ⟨-, rfl⟩ := step_wait hs
    exact Quiet.resetWork (by simp)
  | spurious =>
    obtain ⟨mark, ho, rfl⟩ := step_spurious hs
    exact ⟨fun _ => hQ.waiting (by simp [ho, OutsidePc.Waiting]), by simp⟩
  | recheck =>
    obtain ⟨mark, ho, ⟨hw, rfl⟩ | ⟨hw, rfl⟩⟩ := step_recheck hs
    · have hd : s.Drained := hQ.waiting (by simp [ho, OutsidePc.Waiting]) hw
      refine ⟨fun hwait => absurd hwait (by simp [OutsidePc.Waiting]), fun m hm x hx => ?_⟩
      obtain rfl : mark = m := by simpa using hm
      exact hT.finished_of_drained hd (hC.mark mark (by rw [ho]; rfl)) hx
    · exact ⟨fun _ => hQ.waiting (by simp [ho, OutsidePc.Waiting]), by simp⟩
  | destroy =>
    obtain ⟨-, rfl⟩ := step_destroy hs
    exact Quiet.resetWork (by simp)
  | join =>
    obtain ⟨-, -, rfl⟩ := step_join hs
    exact ⟨fun h => absurd h (by simp [OutsidePc.Waiting]), by simp⟩

lemma inductive_quiet :
    (machine n).Inductive NoStaleWorker fun s => (s.Tokens ∧ s.Control) ∧ s.Quiet := by
  refine (inductive_control.mono fun _ _ _ => trivial).and (fun s h => ?_) ?_
  · obtain rfl : s = {} := h
    exact ⟨by simp [OutsidePc.Waiting], by simp⟩
  · intro s a s' h hQ hN hs
    exact hQ.step h.1 h.2 hN hs

/-- Along the runs in which no worker brings the work object back while handlers are outstanding, a
`wait` that has returned left every handler scheduled before it, and every handler scheduled
transitively by those, finished. -/
theorem finished_of_returned {s : ThreadPool n} (h : (machine n).ReachableBy NoStaleWorker s)
    {mark : ℕ} (ho : s.outside = .returned mark) : ∀ x, s.Awaited mark x → x ∈ s.finished :=
  (inductive_quiet.holds h).2.returned mark ho

/-- Two workers; the wait is called while both are in `run()`, the handler schedules another. -/
def nestedHandlers : List (Action 2) :=
  [.schedule, .take 0 0, .wait, .post 0, .finish 0, .take 1 1, .finish 1, .leave 1, .leave 0,
    .lock 1, .notify 1, .recheck]

theorem finished_nestedHandlers :
    ∃ s, (machine 2).exec {} nestedHandlers = some s ∧ s.outside = .returned 1 ∧
      ∀ x, s.Awaited 1 x → x ∈ s.finished :=
  have he : (machine 2).exec {} nestedHandlers = some _ := rfl
  ⟨_, he, rfl, finished_of_returned (.exec (.init rfl) (by decide) he) rfl⟩

/-- The first wait stops the service and both workers leave `run()`; worker 0 revives the service
and releases the outside thread. Worker 1 is still on its way to the mutex when the next handler is
scheduled and the second wait nulls the work object. -/
def staleWorker : List (Action 2) :=
  [.wait, .leave 0, .leave 1, .lock 0, .notify 0, .recheck, .schedule, .wait, .lock 1, .notify 1,
    .recheck]

/-- The second wait returns with the handler still queued. -/
theorem staleWorker_not_finished :
    ¬ ∀ s, (machine 2).Reachable s → ∀ mark, s.outside = .returned mark →
      ∀ x, s.Awaited mark x → x ∈ s.finished := by
  intro h
  have hr := Machine.Reachable.of_exec (M := machine 2) (s := {}) rfl
    (show (machine 2).exec {} staleWorker = some _ from rfl)
  exact absurd (h _ hr 1 rfl 0 (.base Nat.zero_lt_one)) (by decide)

end ThreadPool

end Synca
