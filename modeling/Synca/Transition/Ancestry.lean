import Mathlib.Logic.Function.Basic
import Mathlib.Tactic.Lemma
import Mathlib.Order.Nat

/-!
# Items that start further items

Items are numbered as they are issued, and an item may be issued by an earlier one, its parent.
`Descends parent base j` says that `j` satisfies `base` or was issued, directly or transitively, by
an item that does.
-/

namespace Transition

/-- The closure of `base` under issuing. -/
inductive Descends (parent : ℕ → Option ℕ) (base : ℕ → Prop) : ℕ → Prop where
  | base {j : ℕ} (h : base j) : Descends parent base j
  | child {i j : ℕ} (h : parent j = some i) (hi : Descends parent base i) : Descends parent base j

/-- Parents of the items below `k` are below `k`, and items from `k` on have none. -/
def Bounded (parent : ℕ → Option ℕ) (k : ℕ) : Prop :=
  ∀ j i, parent j = some i → i < k ∧ j < k

namespace Descends

variable {parent : ℕ → Option ℕ} {base : ℕ → Prop} {k j : ℕ} {p : Option ℕ}

/-- Issuing item `k` does not change the descent of the items before it. -/
lemma of_issue (hb : Bounded parent k) (hj : j < k)
    (h : Descends (Function.update parent k p) base j) : Descends parent base j := by
  induction h with
  | base h => exact .base h
  | @child i j hij _ ih =>
    have hij : parent j = some i := by rwa [Function.update_of_ne hj.ne] at hij
    exact .child hij (ih (hb j i hij).1)

/-- The new item descends from the base only through the item that issued it. -/
lemma issued (hb : Bounded parent k) (hp : ∀ i, p = some i → i < k) (hk : ¬ base k)
    (h : Descends (Function.update parent k p) base k) :
    ∃ i, p = some i ∧ Descends parent base i := by
  cases h with
  | base h => exact absurd h hk
  | @child i _ hij hi =>
    have hpi : p = some i := by simpa using hij
    exact ⟨i, hpi, of_issue hb (hp i hpi) hi⟩

end Descends

lemma Bounded.issue {parent : ℕ → Option ℕ} {k : ℕ} {p : Option ℕ} (hb : Bounded parent k)
    (hp : ∀ i, p = some i → i < k) : Bounded (Function.update parent k p) (k + 1) := by
  intro j i hij
  by_cases hj : j = k
  · subst hj
    have := hp i (by simpa using hij)
    exact ⟨by omega, by omega⟩
  · have := hb j i (by rwa [Function.update_of_ne hj] at hij)
    exact ⟨by omega, by omega⟩

end Transition
