import Synca.Mt.Wait

/-!
# The destructor of a `ThreadPool`

A worker leaves its loop when it finds `toStop`, which it may do long after its `run()` has
returned. Handlers could then be left behind if every worker were on its way out while the service
is running again. This does not happen: whoever revives the service goes back to `run()`, and
`run()` returns to no one before the service has stopped once more.
-/

namespace Synca

open Transition

/-- A worker that is in `run()`, or on its way back to it. -/
def WorkerPc.Serving : WorkerPc → Prop
  | .run | .exec _ | .notify => True
  | .left | .exited          => False

namespace ThreadPool

variable {n : ℕ}

/-- While the service runs, some worker serves it. -/
structure Manned (s : ThreadPool n) : Prop where
  serving : s.stopped = false → ∃ t, (s.worker t).Serving
  joined : s.outside = .destroyed → ∀ t, s.worker t = .exited

namespace Manned

variable {s : ThreadPool n} {t : Fin n} {pc : WorkerPc}

/-- A worker moves; if it stops serving, so does the service. -/
lemma moveWorker (hM : s.Manned) (hpc : (s.worker t).Serving → pc.Serving)
    (ht : s.worker t ≠ .exited) : (s.moveWorker t pc).Manned where
  serving hst := by
    obtain ⟨u, hu⟩ := hM.serving hst
    refine ⟨u, ?_⟩
    rw [worker_moveWorker]
    split_ifs with hut
    · exact hpc (hut ▸ hu)
    · exact hu
  joined ho := absurd (hM.joined ho t) ht

/-- The workers stay, and the service does not start again. -/
lemma congr {s' : ThreadPool n} (hM : s.Manned) (hw : s'.worker = s.worker)
    (hst : s'.stopped = false → s.stopped = false)
    (ho : s'.outside = .destroyed → ∀ t, s.worker t = .exited) : s'.Manned where
  serving h := by
    rw [hw]
    exact hM.serving (hst h)
  joined h := by
    rw [hw]
    exact ho h

lemma workFinished (hM : s.Manned) : s.workFinished.Manned := by
  obtain h | ⟨-, -, h⟩ := s.workFinished_eq <;> rw [h]
  · exact hM
  · exact hM.congr rfl (by simp) hM.joined

lemma resetWork (hM : s.Manned) : s.resetWork.Manned :=
  workFinished (hM.congr rfl id hM.joined)

/-- A worker that serves takes over the service. -/
lemma serve {s' : ThreadPool n} (h : (s'.worker t).Serving) (ho : s'.outside ≠ .destroyed) :
    s'.Manned :=
  ⟨fun _ => ⟨t, h⟩, fun h => absurd h ho⟩

lemma step {s' : ThreadPool n} {a : Action n} (hM : s.Manned) (hs : ThreadPool.step s a = some s') :
    s'.Manned := by
  cases a with
  | take t h =>
    obtain ⟨hw, -, -, rfl⟩ := step_take hs
    have hx : (s.moveWorker t (.exec h)).Manned :=
      hM.moveWorker (fun _ => trivial) (by simp [hw])
    exact hx.congr rfl id fun ho => absurd (hM.joined ho t) (by simp [hw])
  | post t =>
    obtain ⟨h, -, rfl⟩ := step_post hs
    exact hM.congr rfl id hM.joined
  | finish t =>
    obtain ⟨h, hw, rfl⟩ := step_finish hs
    have hr : (s.moveWorker t .run).Manned := hM.moveWorker (fun _ => trivial) (by simp [hw])
    apply workFinished
    exact hr.congr rfl id fun ho => absurd (hM.joined ho t) (by simp [hw])
  | leave t =>
    obtain ⟨hw, hst, rfl⟩ := step_leave hs
    refine ⟨fun h => ?_, fun ho => absurd (hM.joined ho t) (by simp [hw])⟩
    rw [stopped_moveWorker, hst] at h
    cases h
  | lock t =>
    obtain ⟨hw, ⟨-, rfl⟩ | ⟨-, -, rfl⟩ | ⟨-, -, rfl⟩⟩ := step_lock hs
    · refine hM.moveWorker (fun h => ?_) (by simp [hw])
      rw [hw] at h
      exact h
    · refine serve (t := t) (by simp [WorkerPc.Serving]) fun ho => ?_
      exact absurd (hM.joined ho t) (by simp [hw])
    · exact hM.moveWorker (fun _ => trivial) (by simp [hw])
  | notify t =>
    obtain ⟨hw, rfl⟩ := step_notify hs
    have ho : s.outside ≠ .destroyed := fun ho => absurd (hM.joined ho t) (by simp [hw])
    refine serve (t := t) (by simp [WorkerPc.Serving]) ?_
    obtain h | ⟨mark, -, h⟩ := s.notifyAll_eq <;> rw [outside_moveWorker, h]
    · exact ho
    · simp
  | schedule =>
    obtain ⟨-, rfl⟩ := step_schedule hs
    exact hM.congr rfl id hM.joined
  | wait =>
    obtain ⟨-, rfl⟩ := step_wait hs
    exact hM.resetWork.congr rfl id (by simp)
  | spurious =>
    obtain ⟨mark, -, rfl⟩ := step_spurious hs
    exact hM.congr rfl id (by simp)
  | recheck =>
    obtain ⟨mark, -, ⟨-, rfl⟩ | ⟨-, rfl⟩⟩ := step_recheck hs <;> exact hM.congr rfl id (by simp)
  | destroy =>
    obtain ⟨-, rfl⟩ := step_destroy hs
    exact hM.resetWork.congr rfl id (by simp)
  | join =>
    obtain ⟨-, hw, rfl⟩ := step_join hs
    exact hM.congr rfl id fun _ => hw

end Manned

lemma inductive_manned (hn : 0 < n) : (machine n).Inductive (fun _ _ => True) fun s =>
    (s.Tokens ∧ s.Control) ∧ s.Manned := by
  refine inductive_control.and (fun s h => ?_) fun s a s' _ hM _ hs => hM.step hs
  obtain rfl : s = {} := h
  exact ⟨fun _ => ⟨⟨0, hn⟩, trivial⟩, by simp⟩

/-- When no worker serves, every handler that was ever scheduled has been executed, once. -/
lemma count_finished {s : ThreadPool n} (hT : s.Tokens) (hC : s.Control) (hM : s.Manned)
    (hw : ∀ t, s.worker t = .exited) : ∀ h < s.scheduled, s.finished.count h = 1 := by
  have hst : s.stopped = true := by
    by_contra hst
    obtain ⟨t, ht⟩ := hM.serving (by simpa using hst)
    rw [hw t] at ht
    exact ht
  intro h hh
  apply List.count_eq_one_of_mem hT.finished_nodup
  exact hT.finished_of_drained (hC.stopped hst).2 le_rfl (.base hh)

/-- When the destructor has joined the threads of a pool, each handler scheduled on it was executed
once. In no state have all workers left their loops while a handler is queued, and in none, the
section of the worker loop apart, is the service stopped with a live work object. -/
theorem executed_of_destroyed (hn : 0 < n) {s : ThreadPool n} (h : (machine n).Reachable s) :
    (s.outside = .destroyed → ∀ h < s.scheduled, s.finished.count h = 1) ∧
    ((∀ t, s.worker t = .exited) → s.queue = []) ∧
    (s.stopped = true → s.work = false) := by
  obtain ⟨⟨hT, hC⟩, hM⟩ := (inductive_manned hn).holds h
  refine ⟨fun ho => count_finished hT hC hM (hM.joined ho), fun hw => ?_, fun hst => ?_⟩
  · refine List.eq_nil_iff_forall_not_mem.mpr fun x hx => ?_
    have hlt : x < s.scheduled := hT.lt .queued x hx
    have hf : x ∈ s.finished := List.count_pos_iff.mp (by
      rw [count_finished hT hC hM hw x hlt]
      exact Nat.one_pos)
    -- a handler is in one place
    cases hT.exclusive (show s.Holds .queued x from hx) (show s.Holds .finished x from hf)
  · exact (hC.stopped hst).1

/-- Worker 1 is still on its way to the mutex when worker 0 has revived the service, and finds
`toStop` there; worker 0 executes what is left, a handler and the one it schedules. -/
def staleAtStop : List (Action 2) :=
  let w₀ : Fin 2 := ⟨0, Nat.two_pos⟩
  let w₁ : Fin 2 := ⟨1, Nat.one_lt_two⟩
  [.wait, .leave w₀, .leave w₁, .lock w₀, .notify w₀, .recheck, .schedule, .destroy, .lock w₁,
    .take w₀ 0, .post w₀, .finish w₀, .take w₀ 1, .finish w₀, .leave w₀, .lock w₀, .join]

theorem executed_staleAtStop : ∃ s, (machine 2).exec {} staleAtStop = some s ∧
    s.outside = .destroyed ∧ ∀ h < 2, s.finished.count h = 1 :=
  have he : (machine 2).exec {} staleAtStop = some _ := rfl
  ⟨_, he, rfl, (executed_of_destroyed Nat.two_pos (.of_exec rfl he)).1 rfl⟩

end ThreadPool

end Synca
