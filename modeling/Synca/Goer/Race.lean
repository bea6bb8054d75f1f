import Mathlib.Logic.Function.Basic
import Mathlib.Data.Int.Notation
import Mathlib.Data.List.Perm.Basic
import Synca.Goer.Basic
import Synca.Transition.Machine

/-!
# The status of a goer under interleaved calls

`setStatus0` tests the status and then writes it, `reset` reads it and then writes it, and nothing
makes either pair atomic. In this machine each of these reads and writes is a step of its own, any
number of setter calls runs beside the calls of the one owner, and two histories are kept: the
statuses whose setter returned `true`, and those that `reset` gave to `handleEvents` to throw.

The histories agree, up to the status still pending, exactly along the runs in which every call
writes while the status still is what the call read: `accounted_iff_fresh`.
-/

namespace Synca

open Transition

/-- The public setters of a `Goer`. -/
inductive Setter where
  | cancel
  | timedout
  deriving DecidableEq, Repr

def Setter.status : Setter → EventStatus
  | .cancel   => .cancelled
  | .timedout => .timedout

/-- Where a call of `setStatus0` stands. -/
inductive SetterPc where
  | idle
  | entered (c : Setter)
  /-- The test found `ES_NORMAL`; the write comes next. -/
  | tested (c : Setter)
  deriving DecidableEq, Repr

/-- Where the journey stands in `handleEvents`. -/
inductive OwnerPc where
  | idle
  | entered
  /-- `reset` has read the status and has yet to write `ES_NORMAL`. -/
  | read (s : EventStatus)
  deriving DecidableEq, Repr

structure SharedGoer where
  status : EventStatus := .normal
  setter : ℕ → SetterPc := fun _ => .idle
  owner : OwnerPc := .idle
  /-- The statuses whose setter returned `true`. -/
  accepted : List EventStatus := []
  /-- The statuses thrown as `EventException`. -/
  delivered : List EventStatus := []

namespace SharedGoer

inductive Action where
  | call (i : ℕ) (c : Setter)
  | test (i : ℕ)
  | write (i : ℕ)
  /-- `suppressed`: events are not allowed, or an exception is in flight. -/
  | handleEvents (suppressed : Bool)
  | read
  | clear
  deriving DecidableEq, Repr

/-- Setter call `i` goes on to `pc`. -/
def moveSetter (s : SharedGoer) (i : ℕ) (pc : SetterPc) : SharedGoer :=
  { s with setter := Function.update s.setter i pc }

/-- Setter call `i` writes its status and returns `true`. -/
def accept (s : SharedGoer) (i : ℕ) (c : Setter) : SharedGoer :=
  { s.moveSetter i .idle with status := c.status, accepted := s.accepted ++ [c.status] }

/-- `reset` writes `ES_NORMAL` and returns the status `v` it has read. -/
def deliver (s : SharedGoer) (v : EventStatus) : SharedGoer :=
  { s with
    status    := .normal
    owner     := .idle
    delivered := if v = .normal then s.delivered else s.delivered ++ [v] }

def step (s : SharedGoer) : Action → Option SharedGoer
  | .call i c =>
    match s.setter i with
    | .idle => some (s.moveSetter i (.entered c))
    | _     => none
  | .test i =>
    match s.setter i with
    | .entered c =>
      if s.status ≠ .normal then some (s.moveSetter i .idle)
      else some (s.moveSetter i (.tested c))
    | _ => none
  | .write i =>
    match s.setter i with
    | .tested c => some (s.accept i c)
    | _         => none
  | .handleEvents suppressed =>
    match s.owner with
    | .idle => if suppressed then some s else some { s with owner := .entered }
    | _     => none
  | .read =>
    match s.owner with
    | .entered => some { s with owner := .read s.status }
    | _        => none
  | .clear =>
    match s.owner with
    | .read v => some (s.deliver v)
    | _       => none

/-- One goer, no call in progress. -/
def machine : Machine SharedGoer Action where
  init s := s = {}
  step   := step

/-- The event still in the status, if any. -/
def pending (s : SharedGoer) : List EventStatus :=
  if s.status = .normal then [] else [s.status]

def Quiescent (s : SharedGoer) : Prop := (∀ i, s.setter i = .idle) ∧ s.owner = .idle

/-- Every accepted event was delivered once or is pending, and nothing else was delivered. -/
def Accounted (s : SharedGoer) : Prop := s.accepted.Perm (s.delivered ++ s.pending)

/-- A write is fresh if the status still is what the writing call read. -/
def Fresh (s : SharedGoer) : Action → Prop
  | .write _ => s.status = .normal
  | .clear   => s.owner = .read s.status
  | _        => True

instance (s : SharedGoer) (a : Action) : Decidable (s.Fresh a) := by
  cases a <;> simp only [Fresh] <;> infer_instance

@[simp] lemma setter_moveSetter (s : SharedGoer) (i j : ℕ) (pc : SetterPc) :
    (s.moveSetter i pc).setter j = if j = i then pc else s.setter j := by
  simp [moveSetter, Function.update_apply]

@[simp] lemma status_moveSetter (s : SharedGoer) (i : ℕ) (pc : SetterPc) :
    (s.moveSetter i pc).status = s.status := rfl

@[simp] lemma owner_moveSetter (s : SharedGoer) (i : ℕ) (pc : SetterPc) :
    (s.moveSetter i pc).owner = s.owner := rfl

@[simp] lemma delivered_moveSetter (s : SharedGoer) (i : ℕ) (pc : SetterPc) :
    (s.moveSetter i pc).delivered = s.delivered := rfl

@[simp] lemma Setter.status_ne_normal (c : Setter) : c.status ≠ .normal := by
  cases c <;> simp [Setter.status]

/-! ### What each step does -/

section Inversion

variable {s s' : SharedGoer} {i : ℕ} {c : Setter}

lemma step_call (h : step s (.call i c) = some s') :
    s.setter i = .idle ∧ s' = s.moveSetter i (.entered c) := by
  simp only [step] at h
  split at h
  case h_1 hi => exact ⟨hi, by simpa using h.symm⟩
  case h_2 => cases h

/-- A test that finds an event makes the setter return `false`. -/
lemma step_test (h : step s (.test i) = some s') :
    ∃ c, s.setter i = .entered c ∧
      (s.status ≠ .normal ∧ s' = s.moveSetter i .idle ∨
        s.status = .normal ∧ s' = s.moveSetter i (.tested c)) := by
  simp only [step] at h
  split at h
  case h_1 c hi =>
    refine ⟨c, hi, ?_⟩
    split_ifs at h with hs
    · exact .inl ⟨hs, by simpa using h.symm⟩
    · exact .inr ⟨not_not.mp hs, by simpa using h.symm⟩
  case h_2 => cases h

lemma step_write (h : step s (.write i) = some s') :
    ∃ c, s.setter i = .tested c ∧ s' = s.accept i c := by
  simp only [step] at h
  split at h
  case h_1 c hi => exact ⟨c, hi, by simpa using h.symm⟩
  case h_2 => cases h

lemma step_handleEvents {b : Bool} (h : step s (.handleEvents b) = some s') :
    s.owner = .idle ∧ (s' = s ∨ s' = { s with owner := .entered }) := by
  simp only [step] at h
  split at h
  case h_1 ho =>
    refine ⟨ho, ?_⟩
    split_ifs at h
    · exact .inl (by simpa using h.symm)
    · exact .inr (by simpa using h.symm)
  case h_2 => cases h

lemma step_read (h : step s .read = some s') :
    s.owner = .entered ∧ s' = { s with owner := .read s.status } := by
  simp only [step] at h
  split at h
  case h_1 ho => exact ⟨ho, by simpa using h.symm⟩
  case h_2 => cases h

lemma step_clear (h : step s .clear = some s') :
    ∃ v, s.owner = .read v ∧ s' = s.deliver v := by
  simp only [step] at h
  split at h
  case h_1 v ho => exact ⟨v, ho, by simpa using h.symm⟩
  case h_2 => cases h

end Inversion

/-! ### Counting the events lost -/

/-- Accepted events that are neither delivered nor pending. -/
def lost (s : SharedGoer) : ℤ :=
  (s.accepted.length : ℤ) - s.delivered.length - s.pending.length

lemma Accounted.lost_eq_zero {s : SharedGoer} (h : s.Accounted) : s.lost = 0 := by
  have := h.length_eq
  simp only [List.length_append] at this
  simp only [lost]
  omega

lemma lost_accept (s : SharedGoer) (i : ℕ) (c : Setter) :
    (s.accept i c).lost = s.lost + if s.status = .normal then 0 else 1 := by
  by_cases hs : s.status = .normal <;> simp [lost, pending, accept, hs] <;> omega

lemma lost_deliver (s : SharedGoer) (v : EventStatus) :
    (s.deliver v).lost =
      s.lost + (if s.status = .normal then 0 else 1) - if v = .normal then 0 else 1 := by
  by_cases hs : s.status = .normal <;> by_cases hv : v = .normal <;>
    simp [lost, pending, deliver, hs, hv] <;> omega

/-- A status that `reset` has read is still there until it is cleared, unless an event was lost. -/
structure Tally (s : SharedGoer) : Prop where
  nonneg : 0 ≤ s.lost
  owner : ∀ v, s.owner = .read v → v ≠ .normal →
    s.status ≠ .normal ∧ (s.status = v ∨ 0 < s.lost)

/-- What one step does to the count: it never falls, and a stale write leaves it positive. -/
lemma Tally.step {s s' : SharedGoer} {a : Action} (hT : s.Tally) (h : step s a = some s') :
    s'.Tally ∧ s.lost ≤ s'.lost ∧ (¬ s.Fresh a → 0 < s'.lost) := by
  have hnn : 0 ≤ s.lost := hT.nonneg
  cases a with
  | call i c =>
    obtain ⟨-, rfl⟩ := step_call h
    exact ⟨⟨hnn, hT.owner⟩, Int.le_refl _, fun hF => absurd trivial hF⟩
  | test i =>
    obtain ⟨c, -, ⟨-, rfl⟩ | ⟨-, rfl⟩⟩ := step_test h <;>
      exact ⟨⟨hnn, hT.owner⟩, Int.le_refl _, fun hF => absurd trivial hF⟩
  | write i =>
    obtain ⟨c, -, rfl⟩ := step_write h
    have hl := lost_accept s i c
    refine ⟨⟨?_, fun v hv hne => ⟨by simp [accept], .inr ?_⟩⟩, ?_, fun hF => ?_⟩
    · split_ifs at hl <;> omega
    · rw [if_neg (hT.owner v hv hne).1] at hl
      omega
    · split_ifs at hl <;> omega
    · have hs : s.status ≠ .normal := hF
      rw [if_neg hs] at hl
      omega
  | handleEvents b =>
    obtain ⟨-, rfl | rfl⟩ := step_handleEvents h
    · exact ⟨hT, Int.le_refl _, fun hF => absurd trivial hF⟩
    · exact ⟨⟨hnn, by simp⟩, Int.le_refl _, fun hF => absurd trivial hF⟩
  | read =>
    obtain ⟨-, rfl⟩ := step_read h
    refine ⟨⟨hnn, fun v hv hne => ?_⟩, Int.le_refl _, fun hF => absurd trivial hF⟩
    obtain rfl : s.status = v := by simpa using hv
    exact ⟨hne, .inl rfl⟩
  | clear =>
    obtain ⟨v, ho, rfl⟩ := step_clear h
    have hl := lost_deliver s v
    by_cases hv : v = .normal
    · -- `reset` read `ES_NORMAL`: an event set since then is wiped out
      rw [if_pos hv] at hl
      refine ⟨⟨?_, by simp [deliver]⟩, ?_, fun hF => ?_⟩
      · split_ifs at hl <;> omega
      · split_ifs at hl <;> omega
      · have hs : s.status ≠ .normal := fun hs => hF (by simp [Fresh, ho, hv, hs])
        rw [if_neg hs] at hl
        omega
    · obtain ⟨hs, hlt⟩ := hT.owner v ho hv
      simp only [hs, hv, if_false] at hl
      refine ⟨⟨by omega, by simp [deliver]⟩, by omega, fun hF => ?_⟩
      have := hlt.resolve_left fun he => hF (by simp [Fresh, ho, he])
      omega

/-- A fresh step keeps the histories in order: the pending event is the last one accepted. -/
lemma accepted_step {s s' : SharedGoer} {a : Action} (hF : s.Fresh a)
    (hs : s.accepted = s.delivered ++ s.pending) (h : step s a = some s') :
    s'.accepted = s'.delivered ++ s'.pending := by
  cases a with
  | call i c =>
    obtain ⟨-, rfl⟩ := step_call h
    exact hs
  | test i => obtain ⟨c, -, ⟨-, rfl⟩ | ⟨-, rfl⟩⟩ := step_test h <;> exact hs
  | write i =>
    obtain ⟨c, -, rfl⟩ := step_write h
    have hn : s.status = .normal := hF
    simp_all [pending, accept]
  | handleEvents b => obtain ⟨-, rfl | rfl⟩ := step_handleEvents h <;> exact hs
  | read =>
    obtain ⟨-, rfl⟩ := step_read h
    exact hs
  | clear =>
    obtain ⟨v, ho, rfl⟩ := step_clear h
    obtain rfl : s.status = v := by simpa [Fresh, ho, eq_comm] using hF
    by_cases hn : s.status = .normal <;> simp_all [pending, deliver]

/-! ### Whole runs -/

lemma accepted_exec {s s' : SharedGoer} {as : List Action} (hF : machine.Along Fresh s as)
    (hs : s.accepted = s.delivered ++ s.pending) (h : machine.exec s as = some s') :
    s'.accepted = s'.delivered ++ s'.pending := by
  induction as generalizing s with
  | nil =>
    obtain rfl : s = s' := by simpa using h
    exact hs
  | cons a as ih =>
    obtain ⟨u, hu, h⟩ := Option.bind_eq_some_iff.mp h
    rw [Machine.along_cons] at hF
    exact ih (hF.2 u hu) (accepted_step hF.1 hs hu) h

/-- Over a run the count never falls, and it ends positive if some write was stale. -/
lemma lost_exec {s s' : SharedGoer} {as : List Action} (hT : s.Tally)
    (h : machine.exec s as = some s') :
    s.lost ≤ s'.lost ∧ (¬ machine.Along Fresh s as → 0 < s'.lost) := by
  induction as generalizing s with
  | nil =>
    obtain rfl : s = s' := by simpa using h
    exact ⟨Int.le_refl _, fun hF => absurd trivial hF⟩
  | cons a as ih =>
    obtain ⟨u, hu, h⟩ := Option.bind_eq_some_iff.mp h
    obtain ⟨hTu, hle, hst⟩ := hT.step hu
    obtain ⟨hle', hrest⟩ := ih hTu h
    refine ⟨Int.le_trans hle hle', fun hF => ?_⟩
    by_cases ha : s.Fresh a
    · refine hrest fun hA => hF (Machine.along_cons.mpr ⟨ha, fun v hv => ?_⟩)
      obtain rfl : u = v := Option.some_injective _ (hu.symm.trans hv)
      exact hA
    · exact Int.lt_of_lt_of_le (hst ha) hle'

/-- A setter that returned `false` changed nothing but its own position. -/
lemma refused_test {s s' : SharedGoer} {i : ℕ} (h : step s (.test i) = some s')
    (hi : s'.setter i = .idle) :
    s'.status = s.status ∧ s'.accepted = s.accepted ∧ s'.delivered = s.delivered := by
  obtain ⟨c, -, ⟨-, rfl⟩ | ⟨-, rfl⟩⟩ := step_test h
  · exact ⟨rfl, rfl, rfl⟩
  · simp at hi

/-- Along a run the events accepted are those delivered plus the pending one, with the same
statuses, exactly if every write found the status its call had read. A refused setter changes
nothing on any run. -/
theorem accounted_iff_fresh {as : List Action} {s : SharedGoer}
    (h : machine.exec {} as = some s) :
    (s.Accounted ↔ machine.Along Fresh {} as) ∧
    ∀ i s', step s (.test i) = some s' → s'.setter i = .idle →
      s'.status = s.status ∧ s'.accepted = s.accepted ∧ s'.delivered = s.delivered := by
  have hT : Tally {} := ⟨by simp [lost, pending], by simp⟩
  refine ⟨⟨fun hA => ?_, fun hF => ?_⟩, fun i s' => refused_test⟩
  · by_contra hF
    have := (lost_exec hT h).2 hF
    have := hA.lost_eq_zero
    omega
  · rw [Accounted, accepted_exec hF (by simp [pending]) h]

/-- A cancel is set and delivered, then a timeout is set. -/
def cancelThenTimedout : List Action :=
  [.call 0 .cancel, .test 0, .write 0, .handleEvents false, .read, .clear,
    .call 1 .timedout, .test 1, .write 1]

theorem accounted_cancelThenTimedout :
    ∃ s, machine.exec {} cancelThenTimedout = some s ∧ s.Accounted :=
  have hr : machine.exec {} cancelThenTimedout = some _ := rfl
  ⟨_, hr, (accounted_iff_fresh hr).1.mpr (by decide)⟩

/-- Two setters both pass the test and both return `true`. -/
def twoSetters : List Action :=
  [.call 0 .cancel, .call 1 .timedout, .test 0, .test 1, .write 0, .write 1]

/-- The second setter overwrites the event of the first, which is lost. -/
theorem twoSetters_not_accounted : ¬ ∀ s, machine.Reachable s → s.Quiescent → s.Accounted := by
  intro h
  have hr := Machine.Reachable.of_exec (M := machine) (s := {}) rfl
    (show machine.exec {} twoSetters = some _ from rfl)
  have hA := h _ hr ⟨?_, rfl⟩
  · exact absurd hA.length_eq (by decide)
  · intro i
    simp only [setter_moveSetter, accept]
    split_ifs <;> rfl

end SharedGoer

end Synca
