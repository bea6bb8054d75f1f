import Mathlib.Data.Finset.Card
import Mathlib.Logic.Function.Basic
import Mathlib.Order.Interval.Finset.Nat
import Synca.Transition.Ancestry
import Synca.Transition.Machine

/-!
# `waitForAll` against creation and destruction

A journey counts itself in `atomic<JourneyCreateTag>()` when it is constructed and in
`atomic<JourneyDestroyTag>()` when it is destroyed. `waitForAll` loops until the two counters
compare equal, and the language leaves open which of them the comparison loads first. Here each
load and each increment is a step, any number of journeys start further journeys while they live,
and one thread is in `waitForAll`.

Loading the destroyed counter first is safe whatever happens between the loads. Loading the created
counter first is safe as long as nothing is created between the loads, or no journey the call has to
wait for lives at the second one: `not_alive_of_returned`.
-/

namespace Synca

open Transition

/-- Where a thread stands in `waitForAll`; `mark` is the number of journeys created before the
call. -/
inductive WaitPc where
  | outside
  | comparing (mark : ℕ)
  | loadedCreated (mark c : ℕ)
  | loadedDestroyed (mark d : ℕ)
  | returned (mark : ℕ)
  deriving DecidableEq, Repr

/-- The journeys and their two counters. Journey `n` is the `n`-th created, as its `index()`. -/
structure Census where
  created : ℕ := 0
  destroyed : ℕ := 0
  alive : Finset ℕ := ∅
  /-- The journey that called `go`, if a journey did. -/
  parent : ℕ → Option ℕ := fun _ => none
  pc : WaitPc := .outside

namespace Census

inductive Action where
  /-- `go`, called by plain code or by a living journey. -/
  | go (p : Option ℕ)
  /-- A journey ends and is deleted. -/
  | destroy (j : ℕ)
  | waitForAll
  | loadCreated
  | loadDestroyed
  deriving DecidableEq, Repr

/-- `Journey::Journey`. -/
def create (s : Census) (p : Option ℕ) : Census :=
  { s with
    created := s.created + 1
    alive   := insert (s.created + 1) s.alive
    parent  := Function.update s.parent (s.created + 1) p }

/-- `Journey::~Journey`. -/
def destroy (s : Census) (j : ℕ) : Census :=
  { s with destroyed := s.destroyed + 1, alive := s.alive.erase j }

/-- The second load ends the comparison: return if equal, else once more. -/
def compare (s : Census) (mark c d : ℕ) : Census :=
  { s with pc := if c = d then .returned mark else .comparing mark }

def step (s : Census) : Action → Option Census
  | .go p =>
    match p with
    | none   => some (s.create none)
    | some i => if i ∈ s.alive then some (s.create (some i)) else none
  | .destroy j => if j ∈ s.alive then some (s.destroy j) else none
  | .waitForAll =>
    match s.pc with
    | .outside | .returned _ => some { s with pc := .comparing s.created }
    | _                      => none
  | .loadCreated =>
    match s.pc with
    | .comparing mark         => some { s with pc := .loadedCreated mark s.created }
    | .loadedDestroyed mark d => some (s.compare mark s.created d)
    | _                       => none
  | .loadDestroyed =>
    match s.pc with
    | .comparing mark       => some { s with pc := .loadedDestroyed mark s.destroyed }
    | .loadedCreated mark c => some (s.compare mark c s.destroyed)
    | _                     => none

attribute [grind =] step

def machine : Machine Census Action where
  init s := s = {}
  step   := step

/-- Journeys created before the call, and those they started directly or transitively. -/
def Awaited (s : Census) (mark : ℕ) : ℕ → Prop := Descends s.parent (· ≤ mark)

/-- No journey the call has to wait for is alive. -/
def Done (s : Census) (mark : ℕ) : Prop := ∀ j ∈ s.alive, ¬ s.Awaited mark j

/-- When the destroyed counter is loaded, nothing was created since the load of the created counter
it is compared with, or no journey the call has to wait for is alive. -/
def CreatesOutsideLoads (s : Census) : Action → Prop
  | .loadDestroyed => ∀ mark c, s.pc = .loadedCreated mark c → s.created = c ∨ s.Done mark
  | _              => True

/-! ### What each step does -/

section Inversion

variable {s s' : Census} {j : ℕ} {p : Option ℕ}

lemma step_go (h : step s (.go p) = some s') :
    (∀ i, p = some i → i ∈ s.alive) ∧ s' = s.create p := by
  cases p with
  | none => exact ⟨by simp, by simpa [step] using h.symm⟩
  | some i =>
    simp only [step, Option.ite_none_right_eq_some, Option.some.injEq] at h
    refine ⟨fun i' hi => ?_, h.2.symm⟩
    obtain rfl : i = i' := by simpa using hi
    exact h.1

lemma step_destroy (h : step s (.destroy j) = some s') : j ∈ s.alive ∧ s' = s.destroy j := by
  simp only [step, Option.ite_none_right_eq_some, Option.some.injEq] at h
  exact ⟨h.1, h.2.symm⟩

lemma step_waitForAll (h : step s .waitForAll = some s') :
    s' = { s with pc := .comparing s.created } := by
  simp only [step] at h
  split at h <;> simp_all

lemma step_loadCreated (h : step s .loadCreated = some s') :
    (∃ mark, s.pc = .comparing mark ∧ s' = { s with pc := .loadedCreated mark s.created }) ∨
    (∃ mark d, s.pc = .loadedDestroyed mark d ∧ s' = s.compare mark s.created d) := by
  simp only [step] at h
  split at h
  case h_1 mark hp => exact .inl ⟨mark, hp, by simpa using h.symm⟩
  case h_2 mark d hp => exact .inr ⟨mark, d, hp, by simpa using h.symm⟩
  case h_3 => cases h

lemma step_loadDestroyed (h : step s .loadDestroyed = some s') :
    (∃ mark, s.pc = .comparing mark ∧ s' = { s with pc := .loadedDestroyed mark s.destroyed }) ∨
    (∃ mark c, s.pc = .loadedCreated mark c ∧ s' = s.compare mark c s.destroyed) := by
  simp only [step] at h
  split at h
  case h_1 mark hp => exact .inl ⟨mark, hp, by simpa using h.symm⟩
  case h_2 mark c hp => exact .inr ⟨mark, c, hp, by simpa using h.symm⟩
  case h_3 => cases h

end Inversion

/-! ### The counters count -/

/-- The counters differ by the journeys alive, and ids and marks stay in range. -/
structure Counted (s : Census) : Prop where
  balance : s.created = s.destroyed + s.alive.card
  alive_le : ∀ j ∈ s.alive, j ≤ s.created
  bounded : Bounded s.parent (s.created + 1)

lemma Counted.create {s : Census} (h : s.Counted) {p : Option ℕ}
    (hp : ∀ i, p = some i → i ∈ s.alive) : (s.create p).Counted where
  balance := by
    have hnew : s.created + 1 ∉ s.alive := fun hm => by
      have := h.alive_le _ hm
      omega
    have hb := h.balance
    simp only [Census.create, Finset.card_insert_of_notMem hnew]
    omega
  alive_le j hj := by
    rcases Finset.mem_insert.mp hj with rfl | hj
    · exact le_refl _
    · exact (h.alive_le j hj).trans (Nat.le_succ _)
  bounded := h.bounded.issue fun i hi => Nat.lt_succ_of_le (h.alive_le i (hp i hi))

lemma Counted.destroy {s : Census} (h : s.Counted) {j : ℕ} (hj : j ∈ s.alive) :
    (s.destroy j).Counted where
  balance := by
    have := Finset.card_erase_add_one hj
    simp only [Census.destroy, h.balance]
    omega
  alive_le i hi := h.alive_le i (Finset.mem_of_mem_erase hi)
  bounded := h.bounded

lemma Counted.of_pc {s : Census} (h : s.Counted) (pc : WaitPc) :
    ({ s with pc := pc } : Census).Counted :=
  ⟨h.balance, h.alive_le, h.bounded⟩

lemma Counted.alive_eq_empty {s : Census} (h : s.Counted) (he : s.created ≤ s.destroyed) :
    s.alive = ∅ := by
  have := h.balance
  exact Finset.card_eq_zero.mp (by omega)

/-- Once nothing awaited is alive, nothing awaited is ever created. -/
lemma Done.create {s : Census} (h : s.Counted) {p : Option ℕ} {mark : ℕ}
    (hp : ∀ i, p = some i → i ∈ s.alive) (hm : mark ≤ s.created) (hd : s.Done mark) :
    (s.create p).Done mark := by
  have hlt : ∀ i ∈ s.alive, i < s.created + 1 := fun i hi => Nat.lt_succ_of_le (h.alive_le i hi)
  intro j hj ha
  rcases Finset.mem_insert.mp hj with rfl | hj
  · obtain ⟨i, hi, hai⟩ := Descends.issued h.bounded (fun i hi => hlt i (hp i hi)) (by omega) ha
    exact hd i (hp i hi) hai
  · exact hd j hj (Descends.of_issue h.bounded (hlt j hj) ha)

lemma Done.destroy {s : Census} {j mark : ℕ} (hd : s.Done mark) : (s.destroy j).Done mark :=
  fun i hi => hd i (Finset.mem_of_mem_erase hi)

lemma done_of_empty {s : Census} (h : s.alive = ∅) (mark : ℕ) : s.Done mark := by
  simp [Done, h]

/-! ### The invariant -/

/-- What the loads made so far still say about the counters. -/
def LoadsGood (s : Census) : Prop :=
  match s.pc with
  | .outside                => True
  | .comparing mark         => mark ≤ s.created
  | .loadedCreated mark _   => mark ≤ s.created
  | .loadedDestroyed mark d => mark ≤ s.created ∧ d ≤ s.destroyed
  | .returned mark          => mark ≤ s.created ∧ s.Done mark

/-- The counters grow, and no awaited journey comes to life. -/
lemma LoadsGood.mono {s s' : Census} (hL : s.LoadsGood) (hpc : s'.pc = s.pc)
    (hc : s.created ≤ s'.created) (hd : s.destroyed ≤ s'.destroyed)
    (hD : ∀ mark ≤ s.created, s.Done mark → s'.Done mark) : s'.LoadsGood := by
  unfold LoadsGood at hL ⊢
  rw [hpc]
  cases h : s.pc with
  | outside => trivial
  | comparing mark =>
    simp only [h] at hL
    exact hL.trans hc
  | loadedCreated mark c =>
    simp only [h] at hL
    exact hL.trans hc
  | loadedDestroyed mark d =>
    simp only [h] at hL
    exact ⟨hL.1.trans hc, hL.2.trans hd⟩
  | returned mark =>
    simp only [h] at hL
    exact ⟨hL.1.trans hc, hD mark hL.1 hL.2⟩

lemma LoadsGood.create {s : Census} (h : s.Counted) (hL : s.LoadsGood) {p : Option ℕ}
    (hp : ∀ i, p = some i → i ∈ s.alive) : (s.create p).LoadsGood :=
  hL.mono rfl (Nat.le_succ _) (le_refl _) fun _ hm hd => hd.create h hp hm

lemma LoadsGood.destroy {s : Census} (hL : s.LoadsGood) (j : ℕ) : (s.destroy j).LoadsGood :=
  hL.mono rfl (le_refl _) (Nat.le_succ _) fun _ _ hd => hd.destroy

lemma LoadsGood.compare {s : Census} {mark c d : ℕ} (hm : mark ≤ s.created)
    (hd : c = d → s.Done mark) : (s.compare mark c d).LoadsGood := by
  unfold LoadsGood Census.compare
  by_cases h : c = d
  · simp only [h, if_true]
    exact ⟨hm, hd h⟩
  · simp only [h, if_false]
    exact hm

lemma inductive_loadsGood :
    machine.Inductive CreatesOutsideLoads fun s => s.Counted ∧ s.LoadsGood where
  init s h := by
    obtain rfl : s = {} := h
    exact ⟨⟨rfl, by simp, by simp [Bounded]⟩, trivial⟩
  step s a s' h hC hst := by
    obtain ⟨hI, hL⟩ := h
    cases a with
    | go p =>
      obtain ⟨hp, rfl⟩ := step_go hst
      exact ⟨hI.create hp, hL.create hI hp⟩
    | destroy j =>
      obtain ⟨hj, rfl⟩ := step_destroy hst
      exact ⟨hI.destroy hj, hL.destroy j⟩
    | waitForAll =>
      obtain rfl := step_waitForAll hst
      exact ⟨hI.of_pc _, le_refl _⟩
    | loadCreated =>
      obtain ⟨mark, hpc, rfl⟩ | ⟨mark, d, hpc, rfl⟩ := step_loadCreated hst
      · simp only [LoadsGood, hpc] at hL
        exact ⟨hI.of_pc _, hL⟩
      · -- the destroyed counter was loaded first, and can only have grown since
        simp only [LoadsGood, hpc] at hL
        refine ⟨hI.of_pc _, LoadsGood.compare hL.1 fun he => ?_⟩
        exact done_of_empty (hI.alive_eq_empty (he ▸ hL.2)) mark
    | loadDestroyed =>
      obtain ⟨mark, hpc, rfl⟩ | ⟨mark, c, hpc, rfl⟩ := step_loadDestroyed hst
      · simp only [LoadsGood, hpc] at hL
        exact ⟨hI.of_pc _, hL, le_refl _⟩
      · simp only [LoadsGood, hpc] at hL
        refine ⟨hI.of_pc _, LoadsGood.compare hL fun he => ?_⟩
        rcases hC mark c hpc with hc | hd
        · exact done_of_empty (hI.alive_eq_empty (hc.trans he).le) mark
        · exact hd

/-- Along the runs in which nothing is created between a load of the created counter and the later
load it is compared with, unless no awaited journey lives then, a `waitForAll` that has returned
left no awaited journey alive. -/
theorem not_alive_of_returned {s : Census} (h : machine.ReachableBy CreatesOutsideLoads s)
    {mark : ℕ} (hpc : s.pc = .returned mark) : ∀ j ∈ s.alive, ¬ s.Awaited mark j := by
  have hL := (inductive_loadsGood.holds h).2
  simp only [LoadsGood, hpc] at hL
  exact hL.2

/-- A journey ends between the loads, created counter first. -/
def endsBetweenLoads : List Action :=
  [.go none, .waitForAll, .loadCreated, .destroy 1, .loadDestroyed]

theorem not_alive_endsBetweenLoads :
    ∃ s, machine.ReachableBy CreatesOutsideLoads s ∧ s.pc = .returned 1 ∧
      ∀ j ∈ s.alive, ¬ s.Awaited 1 j :=
  have he : machine.exec {} endsBetweenLoads = some _ := rfl
  have hr : machine.ReachableBy CreatesOutsideLoads _ :=
    .exec (.init rfl) (by simp [endsBetweenLoads, Machine.Along, machine, step, create, destroy,
      CreatesOutsideLoads]) he
  ⟨_, hr, rfl, not_alive_of_returned hr rfl⟩

/-- Journey 1 starts journey 2 after the created counter was loaded, and journey 2 ends before the
destroyed counter is. -/
def childBetweenLoads : List Action :=
  [.go none, .waitForAll, .loadCreated, .go (some 1), .destroy 2, .loadDestroyed]

/-- Both counters are then loaded as 1, and the call returns while journey 1 lives. -/
theorem returned_with_journey_alive :
    ¬ ∀ s, machine.Reachable s → ∀ mark, s.pc = .returned mark →
      ∀ j ∈ s.alive, ¬ s.Awaited mark j := by
  intro h
  have hr := Machine.Reachable.of_exec (M := machine) (s := {}) rfl
    (show machine.exec {} childBetweenLoads = some _ from rfl)
  exact h _ hr 1 rfl 1 (by decide) (.base (le_refl 1))

end Census

end Synca
