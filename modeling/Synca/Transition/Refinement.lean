import Synca.Transition.Machine

/-!
# Refinement

A machine refines another one through a view of its states if every step is seen as a run of the
other. The runs are then seen as runs, and what is proved of the states of the abstract machine
holds of the views.
-/

namespace Transition.Machine

variable {σ α τ β : Type*}

/-- Seen through `view`, the runs of `M` whose steps meet `C` are runs of `N` whose steps
meet `D`. -/
structure Refines (M : Machine σ α) (N : Machine τ β) (C : σ → α → Prop) (D : τ → β → Prop)
    (view : σ → τ) : Prop where
  init : ∀ s, M.init s → N.init (view s)
  step : ∀ s a s', M.ReachableBy C s → C s a → M.step s a = some s' →
    ∃ bs, N.Along D (view s) bs ∧ N.exec (view s) bs = some (view s')

namespace Refines

variable {M : Machine σ α} {N : Machine τ β} {C : σ → α → Prop} {D : τ → β → Prop} {view : σ → τ}

theorem reachableBy (h : M.Refines N C D view) {s : σ} (hs : M.ReachableBy C s) :
    N.ReachableBy D (view s) := by
  induction hs with
  | init h₀ => exact .init (h.init _ h₀)
  | step hr hC hst ih =>
    obtain ⟨bs, hD, he⟩ := h.step _ _ _ hr hC hst
    exact ih.exec hD he

end Refines

variable {N : Machine τ β} {D : τ → β → Prop} {u u' : τ}

/-- A step that is not seen. -/
lemma seen_nil (h : u' = u) : ∃ bs, N.Along D u bs ∧ N.exec u bs = some u' :=
  ⟨[], trivial, by rw [h, exec_nil]⟩

/-- A step that is seen as one step. -/
lemma seen_step {b : β} (hD : D u b) (h : N.step u b = some u') :
    ∃ bs, N.Along D u bs ∧ N.exec u bs = some u' :=
  ⟨[b], along_cons.mpr ⟨hD, fun _ _ => trivial⟩, by simp [h]⟩

end Transition.Machine
