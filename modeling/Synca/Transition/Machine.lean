import Mathlib.Tactic.Lemma
import Mathlib.Data.Option.Basic

/-!
# Labelled machines and their runs

A machine is a set of initial states and a partial step function: `step s a` is `none` when the
action `a` is not enabled in `s`. Interleaving is the choice of the next action, so a property of
every interleaving is a property of every list of actions.

A law often holds only along the runs whose steps all meet some condition on the state before the
step. `ReachableBy C` is reachability along such runs, `Reachable` the unconditional case, and
`Along C s as` says that the run of `as` from `s` is one of them.
-/

namespace Transition

/-- States `σ` and actions `α`; a step is a function of the state and the action chosen. -/
structure Machine (σ α : Type*) where
  init : σ → Prop
  step : σ → α → Option σ

namespace Machine

variable {σ α : Type*} (M : Machine σ α)

/-- The state after the actions in order, if each was enabled when its turn came. -/
def exec : σ → List α → Option σ
  | s, []      => some s
  | s, a :: as => (M.step s a).bind fun s' => exec s' as

/-- Every step of the run of the actions meets `C`. -/
def Along (C : σ → α → Prop) : σ → List α → Prop
  | _, []      => True
  | s, a :: as => C s a ∧ (match M.step s a with
    | some s' => Along C s' as
    | none    => True)

/-- The states at the end of runs all of whose steps meet `C`. -/
inductive ReachableBy (C : σ → α → Prop) : σ → Prop where
  | init {s : σ} (h : M.init s) : ReachableBy C s
  | step {s s' : σ} {a : α} (h : ReachableBy C s) (hC : C s a) (hs : M.step s a = some s') :
      ReachableBy C s'

/-- Reachability without a condition on the steps. -/
abbrev Reachable : σ → Prop := M.ReachableBy fun _ _ => True

variable {M} {C D : σ → α → Prop} {I J : σ → Prop}

@[simp] lemma exec_nil (s : σ) : M.exec s [] = some s := rfl

@[simp] lemma exec_cons (s : σ) (a : α) (as : List α) :
    M.exec s (a :: as) = (M.step s a).bind fun s' => M.exec s' as := rfl

lemma along_cons {s : σ} {a : α} {as : List α} :
    M.Along C s (a :: as) ↔ C s a ∧ ∀ s', M.step s a = some s' → M.Along C s' as := by
  cases h : M.step s a <;> simp [Along, h]

instance Along.decidable [∀ s a, Decidable (C s a)] :
    ∀ (s : σ) (as : List α), Decidable (M.Along C s as)
  | _, []      => .isTrue trivial
  | s, a :: as =>
    have : ∀ u, Decidable (M.Along C u as) := fun u => Along.decidable u as
    match h : M.step s a with
    | some u => decidable_of_iff (C s a ∧ M.Along C u as) (by simp [Along, h])
    | none   => decidable_of_iff (C s a) (by simp [Along, h])

/-! ### Runs and reachability -/

lemma ReachableBy.mono (h : ∀ s a, C s a → D s a) {s : σ} (hs : M.ReachableBy C s) :
    M.ReachableBy D s := by
  induction hs with
  | init h₀ => exact .init h₀
  | step _ hC hst ih => exact .step ih (h _ _ hC) hst

lemma ReachableBy.reachable {s : σ} (hs : M.ReachableBy C s) : M.Reachable s :=
  hs.mono fun _ _ _ => trivial

/-- A run whose steps meet the condition ends in a state reachable under it. -/
lemma ReachableBy.exec {s s' : σ} {as : List α} (hs : M.ReachableBy C s) (hC : M.Along C s as)
    (h : M.exec s as = some s') : M.ReachableBy C s' := by
  induction as generalizing s with
  | nil =>
    obtain rfl : s = s' := by simpa using h
    exact hs
  | cons a as ih =>
    obtain ⟨u, hu, h⟩ := Option.bind_eq_some_iff.mp h
    rw [along_cons] at hC
    exact ih (hs.step hC.1 hu) (hC.2 u hu) h

lemma along_true (s : σ) (as : List α) : M.Along (fun _ _ => True) s as := by
  induction as generalizing s with
  | nil => trivial
  | cons a as ih => exact along_cons.mpr ⟨trivial, fun s' _ => ih s'⟩

lemma Reachable.of_exec {s s' : σ} {as : List α} (hs : M.init s) (h : M.exec s as = some s') :
    M.Reachable s' :=
  ReachableBy.exec (.init hs) (along_true s as) h

lemma Along.mono (h : ∀ s a, C s a → D s a) {s : σ} {as : List α} (hs : M.Along C s as) :
    M.Along D s as := by
  induction as generalizing s with
  | nil => trivial
  | cons a as ih =>
    rw [along_cons] at hs ⊢
    exact ⟨h s a hs.1, fun s' hst => ih (hs.2 s' hst)⟩

lemma along_and {s : σ} {as : List α} :
    M.Along (fun s a => C s a ∧ D s a) s as ↔ M.Along C s as ∧ M.Along D s as := by
  induction as generalizing s with
  | nil => simp [Along]
  | cons a as ih =>
    simp only [along_cons, ih]
    grind

/-- Along a run it matters only what the conditions say of its steps. -/
lemma along_iff (h : ∀ s a s', M.Reachable s → M.step s a = some s' → (C s a ↔ D s a))
    {s s' : σ} {as : List α} (hs : M.Reachable s) (he : M.exec s as = some s') :
    M.Along C s as ↔ M.Along D s as := by
  induction as generalizing s with
  | nil => exact Iff.rfl
  | cons a as ih =>
    obtain ⟨u, hu, he⟩ := Option.bind_eq_some_iff.mp he
    have hrest := ih (hs.step trivial hu) he
    rw [along_cons, along_cons, h s a u hs hu]
    refine and_congr_right fun _ => forall₂_congr fun w hw => ?_
    obtain rfl : u = w := Option.some_injective _ (hu.symm.trans hw)
    exact hrest

/-- A property whose loss stops the machine holds after a run exactly if each step of the run kept
it, that is, met `D`. -/
theorem holds_iff_along {P : σ → Prop} (hstop : ∀ s a s', M.step s a = some s' → P s)
    (hstep : ∀ s a s', M.ReachableBy C s → C s a → M.step s a = some s' → (P s' ↔ D s a))
    {s s' : σ} {as : List α} (hs : M.ReachableBy C s) (hP : P s) (hC : M.Along C s as)
    (h : M.exec s as = some s') : P s' ↔ M.Along D s as := by
  induction as generalizing s with
  | nil =>
    obtain rfl : s = s' := by simpa using h
    exact iff_of_true hP trivial
  | cons a as ih =>
    obtain ⟨u, hu, h⟩ := Option.bind_eq_some_iff.mp h
    rw [along_cons] at hC ⊢
    have hiff := hstep s a u hs hC.1 hu
    by_cases hPu : P u
    · rw [ih (hs.step hC.1 hu) hPu (hC.2 u hu) h]
      constructor
      · intro ha
        refine ⟨hiff.mp hPu, fun w hw => ?_⟩
        obtain rfl : u = w := Option.some_injective _ (hu.symm.trans hw)
        exact ha
      · exact fun ha => ha.2 u hu
    · -- the machine has stopped
      cases as with
      | nil =>
        obtain rfl : u = s' := by simpa using h
        exact iff_of_false hPu fun ha => hPu (hiff.mpr ha.1)
      | cons b bs =>
        obtain ⟨w, hw, -⟩ := Option.bind_eq_some_iff.mp h
        exact absurd (hstop u b w hw) hPu

/-! ### Invariants -/

variable (M) in
/-- `I` holds at the start and is kept by every step that meets `C`. -/
structure Inductive (C : σ → α → Prop) (I : σ → Prop) : Prop where
  init : ∀ s, M.init s → I s
  step : ∀ s a s', I s → C s a → M.step s a = some s' → I s'

/-- The induction over runs: an inductive predicate holds in every state reached. -/
theorem Inductive.holds (h : M.Inductive C I) {s : σ} (hs : M.ReachableBy C s) : I s := by
  induction hs with
  | init h₀ => exact h.init _ h₀
  | step _ hC hst ih => exact h.step _ _ _ ih hC hst

/-- A condition that the states of the runs make stronger. -/
lemma Inductive.reachableBy (h : M.Inductive C I) (hD : ∀ s a, I s → C s a → D s a) {s : σ}
    (hs : M.ReachableBy C s) : M.ReachableBy D s := by
  induction hs with
  | init h₀ => exact .init h₀
  | step hs hC hst ih => exact .step ih (hD _ _ (h.holds hs) hC) hst

lemma Inductive.mono (h : M.Inductive D I) (hCD : ∀ s a, C s a → D s a) : M.Inductive C I where
  init := h.init
  step s a s' hI hC hst := h.step s a s' hI (hCD s a hC) hst

/-- A second predicate may use the first in its step. -/
theorem Inductive.and (hI : M.Inductive C I) (h₀ : ∀ s, M.init s → J s)
    (hJ : ∀ s a s', I s → J s → C s a → M.step s a = some s' → J s') :
    M.Inductive C fun s => I s ∧ J s where
  init s h := ⟨hI.init s h, h₀ s h⟩
  step s a s' h hC hst := ⟨hI.step s a s' h.1 hC hst, hJ s a s' h.1 h.2 hC hst⟩

end Machine

end Transition
