import Mathlib.Tactic.Lemma
import Mathlib.Data.List.Nodup

/-!
# Tokens with at most one owner

Many concurrent invariants say that a right (to run a task, to wake a thread, to release a
reference) is held in one place at a time. `at_ p x` says that place `p` holds token `x`;
`Exclusive at_` that no token is in two places. A step that passes a token from one place to
another, issues a fresh one or drops one keeps this, by the lemmas below.
-/

namespace Transition

variable {P T : Type*}

/-- No token is held at two places. -/
def Exclusive (at_ : P → T → Prop) : Prop := ∀ ⦃p q : P⦄ ⦃x : T⦄, at_ p x → at_ q x → p = q

namespace Exclusive

variable {at_ at' : P → T → Prop}

/-- Every place hands what it holds to one other place. -/
lemma map (h : Exclusive at_) (f : P → P) (hsub : ∀ p x, at' p x → ∃ q, at_ q x ∧ f q = p) :
    Exclusive at' := by
  intro p q x hp hq
  obtain ⟨p', hp', rfl⟩ := hsub p x hp
  obtain ⟨q', hq', rfl⟩ := hsub q x hq
  rw [h hp' hq']

/-- Holding less keeps exclusivity. -/
lemma mono (h : Exclusive at_) (hsub : ∀ p x, at' p x → at_ p x) : Exclusive at' :=
  h.map id fun p x hp => ⟨p, hsub p x hp, rfl⟩

/-- Token `x₀` goes from `p₀` to `q₀`; nothing else is newly held. -/
lemma move (h : Exclusive at_) {p₀ : P} {x₀ : T} (hfrom : at_ p₀ x₀) (q₀ : P)
    (hleft : p₀ ≠ q₀ → ¬ at' p₀ x₀)
    (hsub : ∀ p x, at' p x → at_ p x ∨ (p = q₀ ∧ x = x₀)) : Exclusive at' := by
  have key : ∀ p, at' p x₀ → p = q₀ := by
    intro p hp
    rcases hsub p x₀ hp with h₁ | ⟨rfl, -⟩
    · obtain rfl : p = p₀ := h h₁ hfrom
      by_contra hne
      exact hleft hne hp
    · rfl
  intro p q x hp hq
  by_cases hx : x = x₀
  · subst hx
    rw [key p hp, key q hq]
  · have hp' := (hsub p x hp).resolve_right fun h => hx h.2
    have hq' := (hsub q x hq).resolve_right fun h => hx h.2
    exact h hp' hq'

/-- A token held nowhere is issued at `q₀`. -/
lemma issue (h : Exclusive at_) (q₀ : P) {x₀ : T} (hfresh : ∀ p, ¬ at_ p x₀)
    (hsub : ∀ p x, at' p x → at_ p x ∨ (p = q₀ ∧ x = x₀)) : Exclusive at' := by
  intro p q x hp hq
  rcases hsub p x hp with hp | ⟨rfl, rfl⟩
  · rcases hsub q x hq with hq | ⟨rfl, rfl⟩
    · exact h hp hq
    · exact absurd hp (hfresh p)
  · rcases hsub q x hq with hq | ⟨rfl, -⟩
    · exact absurd hq (hfresh q)
    · rfl

end Exclusive

end Transition
