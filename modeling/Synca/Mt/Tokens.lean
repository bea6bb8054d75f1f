import Synca.Mt.ThreadPool
import Synca.Transition.Ancestry
import Synca.Transition.Ownership

/-!
# Every handler is in one place

A handler scheduled on a pool is queued, executing on one worker or finished, never in two of these
places and never twice in one. This holds on every run, whatever the order of the steps.
-/

namespace Synca

open Transition

namespace ThreadPool

variable {n : ℕ}

/-- Where a handler can be. -/
inductive Place (n : ℕ) where
  | queued
  | worker (t : Fin n)
  | finished

def Holds (s : ThreadPool n) : Place n → ℕ → Prop
  | .queued,   h => h ∈ s.queue
  | .worker t, h => s.worker t = .exec h
  | .finished, h => h ∈ s.finished

structure Tokens (s : ThreadPool n) : Prop where
  exclusive : Exclusive s.Holds
  queue_nodup : s.queue.Nodup
  finished_nodup : s.finished.Nodup
  held : ∀ h < s.scheduled, ∃ p, s.Holds p h
  lt : ∀ p h, s.Holds p h → h < s.scheduled
  bounded : Bounded s.parent s.scheduled

/-- Steps that move no handler. -/
lemma Tokens.congr {s s' : ThreadPool n} (hT : s.Tokens) (hq : s'.queue = s.queue)
    (hf : s'.finished = s.finished) (hs : s'.scheduled = s.scheduled)
    (hp : s'.parent = s.parent) (hw : ∀ t h, s'.worker t = .exec h ↔ s.worker t = .exec h) :
    s'.Tokens := by
  have hH : ∀ p h, s'.Holds p h ↔ s.Holds p h := by
    rintro (_ | t | _) h
    · simp [Holds, hq]
    · exact hw t h
    · simp [Holds, hf]
  refine ⟨hT.exclusive.mono fun p h => (hH p h).mp, hq ▸ hT.queue_nodup,
    hf ▸ hT.finished_nodup, fun h hh => ?_, fun p h hh => ?_, by rw [hs, hp]; exact hT.bounded⟩
  · obtain ⟨p, hp⟩ := hT.held h (hs ▸ hh)
    exact ⟨p, (hH p h).mpr hp⟩
  · exact hs ▸ hT.lt p h ((hH p h).mp hh)

lemma Tokens.workFinished {s : ThreadPool n} (hT : s.Tokens) : s.workFinished.Tokens := by
  obtain h | ⟨-, -, h⟩ := s.workFinished_eq <;> rw [h]
  · exact hT
  · exact hT.congr rfl rfl rfl rfl fun _ _ => Iff.rfl

lemma Tokens.resetWork {s : ThreadPool n} (hT : s.Tokens) : s.resetWork.Tokens :=
  Tokens.workFinished (hT.congr rfl rfl rfl rfl fun _ _ => Iff.rfl)

/-- A worker between handlers goes from one such position to another. -/
lemma Tokens.moveWorker {s : ThreadPool n} (hT : s.Tokens) {t : Fin n} {pc : WorkerPc}
    (h : (s.worker t).isExec = false) (h' : pc.isExec = false) :
    (s.moveWorker t pc).Tokens := by
  refine hT.congr rfl rfl rfl rfl fun u h₀ => ?_
  by_cases hu : u = t
  · subst hu
    cases hw : s.worker u <;> cases pc <;> simp_all [WorkerPc.isExec]
  · simp [hu]

lemma Tokens.take {s : ThreadPool n} (hT : s.Tokens) {t : Fin n} {h : ℕ}
    (hw : s.worker t = .run) (hq : h ∈ s.queue) :
    ({ s.moveWorker t (.exec h) with queue := s.queue.erase h } : ThreadPool n).Tokens where
  exclusive := by
    have hfrom : s.Holds .queued h := hq
    refine hT.exclusive.move hfrom (.worker t) (fun _ => ?_) ?_
    · simp [Holds, hT.queue_nodup.mem_erase_iff]
    · rintro (_ | u | _) x hx
      · exact .inl (List.mem_of_mem_erase hx)
      · simp only [Holds, worker_moveWorker] at hx
        split_ifs at hx with hu
        · exact .inr ⟨by rw [hu], by simpa using hx.symm⟩
        · exact .inl hx
      · exact .inl hx
  queue_nodup := hT.queue_nodup.erase h
  finished_nodup := hT.finished_nodup
  held x hx := by
    obtain ⟨p, hp⟩ := hT.held x hx
    by_cases hxh : x = h
    · exact ⟨.worker t, by simp [Holds, hxh]⟩
    · refine ⟨p, ?_⟩
      rcases p with _ | u | _
      · exact hT.queue_nodup.mem_erase_iff.mpr ⟨hxh, hp⟩
      · have hu : u ≠ t := fun hu => by simp [Holds, hu, hw] at hp
        simpa [Holds, hu] using hp
      · exact hp
  lt := by
    rintro (_ | u | _) x hx
    · exact hT.lt .queued x (List.mem_of_mem_erase hx)
    · simp only [Holds, worker_moveWorker] at hx
      split_ifs at hx with hu
      · obtain rfl : h = x := by simpa using hx
        exact hT.lt .queued h hq
      · exact hT.lt (.worker u) x hx
    · exact hT.lt .finished x hx
  bounded := hT.bounded

lemma Tokens.post {s : ThreadPool n} (hT : s.Tokens) {p : Option ℕ}
    (hp : ∀ i, p = some i → i < s.scheduled) : (s.post p).Tokens where
  exclusive := by
    have hfresh : ∀ q, ¬ s.Holds q s.scheduled := fun q hq => (hT.lt q _ hq).false
    refine hT.exclusive.issue .queued hfresh ?_
    rintro (_ | u | _) x hx
    · rcases List.mem_append.mp hx with hx | hx
      · exact .inl hx
      · exact .inr ⟨rfl, by simpa using hx⟩
    · exact .inl hx
    · exact .inl hx
  queue_nodup := by
    refine List.nodup_append.mpr ⟨hT.queue_nodup, List.nodup_singleton _, fun x hx y hy => ?_⟩
    have := hT.lt .queued x hx
    have : y = s.scheduled := by simpa using hy
    omega
  finished_nodup := hT.finished_nodup
  held x hx := by
    by_cases hxs : x = s.scheduled
    · exact ⟨.queued, by simp [Holds, ThreadPool.post, hxs]⟩
    · obtain ⟨q, hq⟩ := hT.held x (by simp only [ThreadPool.post] at hx; omega)
      refine ⟨q, ?_⟩
      rcases q with _ | u | _
      · exact List.mem_append_left _ hq
      · exact hq
      · exact hq
  lt := by
    have hlt : s.scheduled < (s.post p).scheduled := Nat.lt_succ_self _
    rintro (_ | u | _) x hx
    · rcases List.mem_append.mp hx with hx | hx
      · exact (hT.lt .queued x hx).trans hlt
      · simp only [List.mem_singleton] at hx
        exact hx ▸ hlt
    · exact (hT.lt (.worker u) x hx).trans hlt
    · exact (hT.lt .finished x hx).trans hlt
  bounded := hT.bounded.issue hp

lemma Tokens.finish {s : ThreadPool n} (hT : s.Tokens) {t : Fin n} {h : ℕ}
    (hw : s.worker t = .exec h) :
    ({ s.moveWorker t .run with finished := h :: s.finished } : ThreadPool n).Tokens where
  exclusive := by
    have hfrom : s.Holds (.worker t) h := hw
    refine hT.exclusive.move hfrom .finished (fun _ => ?_) ?_
    · simp [Holds]
    · rintro (_ | u | _) x hx
      · exact .inl hx
      · simp only [Holds, worker_moveWorker] at hx
        split_ifs at hx with hu
        exact .inl hx
      · rcases List.mem_cons.mp hx with rfl | hx
        · exact .inr ⟨rfl, rfl⟩
        · exact .inl hx
  queue_nodup := hT.queue_nodup
  finished_nodup := by
    refine List.nodup_cons.mpr ⟨fun hm => ?_, hT.finished_nodup⟩
    have := hT.exclusive (p := .finished) (q := .worker t) hm hw
    cases this
  held x hx := by
    obtain ⟨p, hp⟩ := hT.held x hx
    by_cases hxh : x = h
    · exact ⟨.finished, by simp [Holds, hxh]⟩
    · refine ⟨p, ?_⟩
      rcases p with _ | u | _
      · exact hp
      · have hu : u ≠ t := by
          rintro rfl
          simp only [Holds] at hp
          exact hxh (by simpa using (hp.symm.trans hw))
        simpa [Holds, hu] using hp
      · exact List.mem_cons_of_mem _ hp
  lt := by
    rintro (_ | u | _) x hx
    · exact hT.lt .queued x hx
    · simp only [Holds, worker_moveWorker] at hx
      split_ifs at hx with hu
      exact hT.lt (.worker u) x hx
    · rcases List.mem_cons.mp hx with rfl | hx
      · exact hT.lt (.worker t) x hw
      · exact hT.lt .finished x hx
  bounded := hT.bounded

/-- No step loses or doubles a handler. -/
lemma Tokens.step {s s' : ThreadPool n} {a : Action n} (hT : s.Tokens)
    (hs : step s a = some s') : s'.Tokens := by
  cases a with
  | take t h =>
    obtain ⟨hw, -, hq, rfl⟩ := step_take hs
    exact hT.take hw hq
  | post t =>
    obtain ⟨h, hw, rfl⟩ := step_post hs
    exact hT.post fun i hi => by
      obtain rfl : h = i := by simpa using hi
      exact hT.lt (.worker t) h hw
  | finish t =>
    obtain ⟨h, hw, rfl⟩ := step_finish hs
    exact (hT.finish hw).workFinished
  | leave t =>
    obtain ⟨hw, -, rfl⟩ := step_leave hs
    exact hT.moveWorker (by simp [hw, WorkerPc.isExec]) rfl
  | lock t =>
    obtain ⟨hw, h⟩ := step_lock hs
    have hx : (s.worker t).isExec = false := by simp [hw, WorkerPc.isExec]
    obtain ⟨-, rfl⟩ | ⟨-, -, rfl⟩ | ⟨-, -, rfl⟩ := h
    · exact hT.moveWorker hx rfl
    · exact (hT.moveWorker hx rfl).congr rfl rfl rfl rfl fun _ _ => Iff.rfl
    · exact hT.moveWorker hx rfl
  | notify t =>
    obtain ⟨hw, rfl⟩ := step_notify hs
    have hx : (s.worker t).isExec = false := by simp [hw, WorkerPc.isExec]
    obtain h | ⟨mark, -, h⟩ := s.notifyAll_eq <;> rw [h]
    · exact hT.moveWorker hx rfl
    · exact (hT.moveWorker hx rfl).congr rfl rfl rfl rfl fun _ _ => Iff.rfl
  | schedule =>
    obtain ⟨-, rfl⟩ := step_schedule hs
    exact hT.post (by simp)
  | wait =>
    obtain ⟨-, rfl⟩ := step_wait hs
    exact hT.resetWork.congr rfl rfl rfl rfl fun _ _ => Iff.rfl
  | spurious =>
    obtain ⟨mark, -, rfl⟩ := step_spurious hs
    exact hT.congr rfl rfl rfl rfl fun _ _ => Iff.rfl
  | recheck =>
    obtain ⟨mark, -, ⟨-, rfl⟩ | ⟨-, rfl⟩⟩ := step_recheck hs <;>
      exact hT.congr rfl rfl rfl rfl fun _ _ => Iff.rfl
  | destroy =>
    obtain ⟨-, rfl⟩ := step_destroy hs
    exact hT.resetWork.congr rfl rfl rfl rfl fun _ _ => Iff.rfl
  | join =>
    obtain ⟨-, -, rfl⟩ := step_join hs
    exact hT.congr rfl rfl rfl rfl fun _ _ => Iff.rfl

lemma tokens_init : ({} : ThreadPool n).Tokens where
  exclusive := by rintro (_ | t | _) (_ | u | _) x hx hy <;> simp_all [Holds]
  queue_nodup := List.nodup_nil
  finished_nodup := List.nodup_nil
  held := by simp
  lt := by rintro (_ | t | _) x hx <;> simp [Holds] at hx
  bounded := by simp [Bounded]

end ThreadPool

end Synca
