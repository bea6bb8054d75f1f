import Mathlib.Algebra.Group.Nat.Defs
import Synca.Transition.Machine

/-!
# Counting along runs

How often a run takes steps of some kind. If the state itself tells the count, as a function that
each step changes by what it counts, then the bounds of this function bound the count.
-/

namespace Transition.Machine

variable {σ α : Type*} (M : Machine σ α)

/-- The sum of `f` over the steps of a run. -/
def tally (f : σ → α → ℕ) : σ → List α → ℕ
  | _, []      => 0
  | s, a :: as => f s a + (match M.step s a with
    | some s' => tally f s' as
    | none    => 0)

variable {M} {C : σ → α → Prop} {I P : σ → Prop} {f : σ → α → ℕ} {s s' : σ} {a : α} {as : List α}

@[simp] lemma tally_nil : M.tally f s [] = 0 := rfl

lemma tally_cons (h : M.step s a = some s') :
    M.tally f s (a :: as) = f s a + M.tally f s' as := by
  simp [tally, h]

/-- What the steps of a run count, the state tells. -/
theorem Inductive.tally_eq (hI : M.Inductive C I) {n : σ → ℕ}
    (hn : ∀ s a s', I s → C s a → M.step s a = some s' → n s' = n s + f s a)
    (hs : I s) (hC : M.Along C s as) (h : M.exec s as = some s') :
    n s' = n s + M.tally f s as := by
  induction as generalizing s with
  | nil =>
    obtain rfl : s = s' := by simpa using h
    rfl
  | cons a as ih =>
    obtain ⟨u, hu, h⟩ := Option.bind_eq_some_iff.mp h
    rw [along_cons] at hC
    rw [ih (hI.step _ _ _ hs hC.1 hu) (hC.2 u hu) h, hn _ _ _ hs hC.1 hu, tally_cons hu, add_assoc]

/-- What a counted step brings about and every step keeps. -/
theorem Inductive.of_tally (hI : M.Inductive C I)
    (hset : ∀ s a s', I s → C s a → M.step s a = some s' → 0 < f s a → P s')
    (hkeep : ∀ s a s', I s → C s a → M.step s a = some s' → P s → P s')
    (hs : I s) (hC : M.Along C s as) (h : M.exec s as = some s')
    (hP : P s ∨ 0 < M.tally f s as) : P s' := by
  induction as generalizing s with
  | nil =>
    obtain rfl : s = s' := by simpa using h
    exact hP.resolve_right (Nat.lt_irrefl 0)
  | cons a as ih =>
    obtain ⟨u, hu, h⟩ := Option.bind_eq_some_iff.mp h
    rw [along_cons] at hC
    refine ih (hI.step _ _ _ hs hC.1 hu) (hC.2 u hu) h ?_
    rcases hP with hP | hP
    · exact .inl (hkeep _ _ _ hs hC.1 hu hP)
    · rw [tally_cons hu] at hP
      rcases Nat.eq_zero_or_pos (f s a) with h0 | hpos
      · rw [h0, zero_add] at hP
        exact .inr hP
      · exact .inl (hset _ _ _ hs hC.1 hu hpos)

end Transition.Machine
