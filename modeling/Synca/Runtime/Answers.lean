import Synca.Runtime.Timeouts

/-!
# Each callback is answered inside its scope

If every callback that runs inside its scope finds the status free, and no destructor leaves its own
event pending, then each such callback causes one exception, thrown before the scope is left.
-/

namespace Synca

open Transition

namespace Clock

variable {c c' : Clock}

/-- A callback that runs inside its scope finds no event pending, and the destructor of a timeout
that polls in vain does not leave its own event pending. -/
def Heeded (c : Clock) : Tick → Prop
  | .callback k       =>
    (c.timer k).scope = true → (c.face (c.timer k).owner).status = .normal
  | .closeTimeout j k => (c.face j).cause ≠ some k
  | _                 => True

/-- Each callback that ran in its scope has caused its exception, or its event is pending there. -/
structure Honoured (c : Clock) : Prop where
  done : ∀ k, (c.timer k).fired = true → (c.timer k).phase = .done
  fired : ∀ k, (c.timer k).fired = true →
    ((c.timer k).thrown = 1 ∧ (c.face (c.timer k).owner).cause ≠ some k) ∨
    ((c.timer k).thrown = 0 ∧ (c.timer k).scope = true ∧
      (c.face (c.timer k).owner).cause = some k)
  idle : ∀ k, (c.timer k).fired = false → (c.timer k).thrown = 0 ∧
    ((c.timer k).scope = true → (c.face (c.timer k).owner).cause ≠ some k)

lemma honoured_init : ({} : Clock).Honoured where
  done := by simp
  fired := by simp
  idle := by simp

/-- A tick that leaves cause, scope, count and owner of the timers as they are. -/
lemma Honoured.congr (hH : c.Honoured) (hcause : ∀ j, (c'.face j).cause = (c.face j).cause)
    (howner : ∀ k, (c'.timer k).owner = (c.timer k).owner)
    (hscope : ∀ k, (c'.timer k).scope = (c.timer k).scope)
    (hfired : ∀ k, (c'.timer k).fired = (c.timer k).fired)
    (hthrown : ∀ k, (c'.timer k).thrown = (c.timer k).thrown)
    (hdone : ∀ k, (c.timer k).phase = .done → (c'.timer k).phase = .done) : c'.Honoured where
  done k h := hdone k (hH.done k (hfired k ▸ h))
  fired k h := by
    rw [hthrown, howner, hscope, hcause]
    exact hH.fired k (hfired k ▸ h)
  idle k h := by
    rw [hthrown, howner, hscope, hcause]
    exact hH.idle k (hfired k ▸ h)

lemma Honoured.deliver (hO : c.Owned) (hH : c.Honoured) (j : ℕ) : (c.deliver j).Honoured := by
  have hcause : ∀ k, (c.face j).cause ≠ some k →
      (((c.deliver j).face (c.timer k).owner).cause = some k ↔
        (c.face (c.timer k).owner).cause = some k) := by
    intro k hk
    rw [face_deliver]
    split_ifs with hj
    · rw [hj]
      exact ⟨by simp, fun h => absurd h hk⟩
    · rfl
  constructor
  · intro k hk
    rw [timer_deliver] at hk ⊢
    split_ifs at hk ⊢
    · rw [throwing_phase]
      exact hH.done k (by simpa using hk)
    · exact hH.done k hk
  · intro k hk
    rw [timer_deliver] at hk ⊢
    split_ifs at hk ⊢ with hj
    · -- the event thrown is that of timer `k`
      have howner := (hO.cause j k hj).1
      rcases hH.fired k (by simpa using hk) with ⟨-, hne⟩ | ⟨h0, hscope, -⟩
      · exact absurd (howner ▸ hj) hne
      · refine .inl ⟨?_, ?_⟩
        · rw [Timer.throwing, if_pos hscope]
          simp [h0]
        · rw [throwing_owner, howner, face_deliver, if_pos rfl]
          simp
    · rcases hH.fired k hk with ⟨h1, hne⟩ | ⟨h0, hscope, he⟩
      · exact .inl ⟨h1, fun h => hne ((hcause k hj).mp h)⟩
      · exact .inr ⟨h0, hscope, (hcause k hj).mpr he⟩
  · intro k hk
    rw [timer_deliver] at hk ⊢
    split_ifs at hk ⊢ with hj
    · have howner := (hO.cause j k hj).1
      obtain ⟨h0, hne⟩ := hH.idle k (by simpa using hk)
      have hscope : (c.timer k).scope = false := by
        by_contra hs
        exact hne (by simpa using hs) (howner ▸ hj)
      rw [Timer.throwing, if_neg (by simp [hscope])]
      exact ⟨h0, fun h => absurd h (by simp [hscope])⟩
    · obtain ⟨h0, hne⟩ := hH.idle k hk
      exact ⟨h0, fun hs h => hne hs ((hcause k hj).mp h)⟩

lemma Honoured.openTimeout (hO : c.Owned) (hH : c.Honoured) (j : ℕ) :
    (c.openTimeout j).Honoured := by
  have hcause : ∀ i, ((c.openTimeout j).face i).cause = (c.face i).cause := by
    intro i
    rw [face_openTimeout]
    split_ifs with hi
    · rw [hi]
    · rfl
  have hfired : (c.timer c.timers).fired = false := by rw [hO.fresh _ (Nat.le_refl _)]
  constructor
  · intro k hk
    rw [timer_openTimeout] at hk ⊢
    split_ifs at hk ⊢
    · cases hfired.symm.trans hk
    · exact hH.done k hk
  · intro k hk
    rw [timer_openTimeout] at hk ⊢
    split_ifs at hk ⊢
    · cases hfired.symm.trans hk
    · rw [hcause]
      exact hH.fired k hk
  · intro k hk
    rw [timer_openTimeout] at hk ⊢
    split_ifs at hk ⊢ with hkn
    · refine ⟨by simp [hO.fresh _ (Nat.le_refl _)], fun _ h => ?_⟩
      rw [hcause] at h
      exact absurd (hkn ▸ (hO.cause _ k h).2.1) (Nat.lt_irrefl _)
    · rw [hcause]
      exact hH.idle k hk

lemma Honoured.closeTimeout (hO : c.Owned) (hH : c.Honoured) {j k : ℕ}
    (h : (c.face j).polling = some k) (hC : (c.face j).cause ≠ some k) :
    (c.closeTimeout j k).Honoured := by
  have howner := (hO.polling j k h).1
  have hcause : ∀ i, ((c.closeTimeout j k).face i).cause = (c.face i).cause := by
    intro i
    rw [face_closeTimeout]
    split_ifs with hi
    · rw [hi]
    · rfl
  constructor
  · intro i hi
    rw [timer_closeTimeout] at hi ⊢
    split_ifs at hi ⊢
    · exact hH.done k hi
    · exact hH.done i hi
  · intro i hi
    rw [timer_closeTimeout] at hi ⊢
    split_ifs at hi ⊢ with hik
    · subst hik
      rw [hcause]
      rcases hH.fired i hi with h₁ | ⟨-, -, he⟩
      · exact .inl h₁
      · exact absurd (howner ▸ he) hC
    · rw [hcause]
      exact hH.fired i hi
  · intro i hi
    rw [timer_closeTimeout] at hi ⊢
    split_ifs at hi ⊢
    · exact ⟨(hH.idle k hi).1, nofun⟩
    · rw [hcause]
      exact hH.idle i hi

lemma Honoured.callback (hO : c.Owned) (hH : c.Honoured) {k : ℕ} (h : (c.timer k).phase = .due)
    (hC : (c.timer k).scope = true → (c.face (c.timer k).owner).status = .normal) :
    (c.callback k).Honoured := by
  have hfired : (c.timer k).fired = false := by
    by_contra hf
    have := hH.done k (by simpa using hf)
    rw [h] at this
    cases this
  -- a status that was free belonged to no timer
  have hother : ∀ i, i ≠ k → ∀ x, (((c.callback k).face x).cause = some i ↔
      (c.face x).cause = some i) := by
    intro i hi x
    rw [face_callback]
    split_ifs with hx
    · rw [hO.cause_of_normal hx.2]
      exact ⟨fun h => absurd (Option.some_injective _ h).symm hi, nofun⟩
    · rfl
  constructor
  · intro i hi
    rw [timer_callback] at hi ⊢
    split_ifs at hi ⊢
    · rfl
    · exact hH.done i hi
  · intro i hi
    rw [timer_callback] at hi ⊢
    split_ifs at hi ⊢ with hik
    · have hscope : (c.timer k).scope = true := by simpa [hfired] using hi
      refine .inr ⟨(hH.idle k hfired).1, hscope, ?_⟩
      rw [face_callback, if_pos ⟨rfl, hC hscope⟩, hik]
    · rw [hother i hik]
      rcases hH.fired i hi with ⟨h1, hne⟩ | h₂
      · exact .inl ⟨h1, fun he => hne ((hother i hik _).mp he)⟩
      · exact .inr h₂
  · intro i hi
    rw [timer_callback] at hi ⊢
    split_ifs at hi ⊢ with hik
    · have hscope : (c.timer k).scope = false := by simpa [hfired] using hi
      exact ⟨(hH.idle k hfired).1, fun hs => absurd hs (by simp [hscope])⟩
    · obtain ⟨h0, hne⟩ := hH.idle i hi
      exact ⟨h0, fun hs he => hne hs ((hother i hik _).mp he)⟩

lemma Honoured.step {a : Tick} (hO : c.Owned) (hH : c.Honoured) (hC : c.Heeded a)
    (hs : Rule c a c') : c'.Honoured := by
  cases hs with
  | deliver j h => exact hH.deliver hO j
  | openTimeout j => exact hH.openTimeout hO j
  | cancelOne j k ks h =>
    have htimer : ∀ i, (c.cancelOne j k ks).timer i = { c.timer i with
        phase := ((c.cancelOne j k ks).timer i).phase } := by
      intro i
      rw [timer_cancelOne]
      by_cases hi : i = k
      · rw [if_pos hi, hi]
      · rw [if_neg hi]
    apply hH.congr
    · intro i
      rw [face_cancelOne]
      split_ifs with hi
      · rw [hi]
      · rfl
    · exact fun i => by rw [htimer]
    · exact fun i => by rw [htimer]
    · exact fun i => by rw [htimer]
    · exact fun i => by rw [htimer]
    · intro i hi
      rw [timer_cancelOne]
      by_cases hik : i = k
      · subst hik
        simp [hi]
      · rwa [if_neg hik]
  | closeTimeout j k h => exact hH.closeTimeout hO h hC
  | reset j =>
    refine hH.congr (fun i => ?_) (fun _ => rfl) (fun _ => rfl) (fun _ => rfl) (fun _ => rfl)
      fun _ => id
    rw [face_reset]
    split_ifs with hi
    · rw [hi]
    · rfl
  | expire k h =>
    have htimer : ∀ i, (c.expire k).timer i =
        { c.timer i with phase := ((c.expire k).timer i).phase } := by
      intro i
      rw [timer_expire]
      split_ifs with hi
      · rw [hi]
      · rfl
    apply hH.congr (fun i => by rw [face_expire])
    · exact fun i => by rw [htimer]
    · exact fun i => by rw [htimer]
    · exact fun i => by rw [htimer]
    · exact fun i => by rw [htimer]
    · intro i hi
      rw [timer_expire, if_neg]
      · exact hi
      · rintro rfl
        cases h.symm.trans hi
  | callback k h => exact hH.callback hO h hC
  | cancel j =>
    refine hH.congr (fun i => ?_) (fun k => by rw [timer_cancel]) (fun k => by rw [timer_cancel])
      (fun k => by rw [timer_cancel]) (fun k => by rw [timer_cancel])
      fun k hk => by rwa [timer_cancel]
    rw [face_cancel]
    split_ifs <;> rfl

lemma inductive_honoured : machine.Inductive Heeded fun c => c.Owned ∧ c.Honoured := by
  refine (inductive_owned.mono fun _ _ _ => trivial).and (fun c h => ?_) ?_
  · obtain rfl : c = {} := h
    exact honoured_init
  · intro c a c' hO hH hC hs
    exact hH.step hO hC (.of_step hs)

/-- A callback that ran inside its scope has thrown once when the scope is over. -/
theorem thrown_once (h : machine.ReachableBy Heeded c) {k : ℕ}
    (hs : (c.timer k).scope = false) (hf : (c.timer k).fired = true) : (c.timer k).thrown = 1 := by
  rcases (inductive_honoured.holds h).2.fired k hf with h₁ | h₂
  · exact h₁.1
  · cases hs.symm.trans h₂.2.1

end Clock

end Synca
