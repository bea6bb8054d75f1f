import Mathlib.Tactic.Tauto
import Synca.Runtime.Clock

/-!
# Timers do not act outside their scope

If the destructor of a timeout, polling in vain, finds its callback neither queued nor pending, no
exception that stems from the timer is thrown after the scope.
-/

namespace Synca

open Transition

namespace Clock

variable {c c' : Clock}

/-! ### What holds on every run -/

/-- Timers belong to one journey, and a timer behind a pending event has set the status. -/
structure Owned (c : Clock) : Prop where
  cause : ∀ j k, (c.face j).cause = some k →
    (c.timer k).owner = j ∧ k < c.timers ∧ (c.face j).status = .timedout
  polling : ∀ j k, (c.face j).polling = some k →
    (c.timer k).owner = j ∧ k < c.timers ∧ (c.timer k).phase ≠ .armed
  timeouts : ∀ j, ∀ k ∈ (c.face j).timeouts, (c.timer k).owner = j ∧ k < c.timers
  fresh : ∀ k, c.timers ≤ k → c.timer k = {}

lemma owned_init : ({} : Clock).Owned where
  cause := by simp
  polling := by simp
  timeouts := by simp
  fresh _ _ := rfl

/-- A step that touches neither owners nor the timers not yet made. -/
lemma Owned.congr (hO : c.Owned) (hn : c'.timers = c.timers)
    (howner : ∀ k, (c'.timer k).owner = (c.timer k).owner)
    (hfresh : ∀ k, c.timers ≤ k → c'.timer k = c.timer k)
    (hcause : ∀ j k, (c'.face j).cause = some k →
      (c.timer k).owner = j ∧ k < c.timers ∧ (c'.face j).status = .timedout)
    (hpoll : ∀ j k, (c'.face j).polling = some k →
      (c.timer k).owner = j ∧ k < c.timers ∧ (c'.timer k).phase ≠ .armed)
    (hto : ∀ j, ∀ k ∈ (c'.face j).timeouts, k ∈ (c.face j).timeouts) : c'.Owned where
  cause j k h := by
    rw [howner, hn]
    exact hcause j k h
  polling j k h := by
    rw [howner, hn]
    exact hpoll j k h
  timeouts j k h := by
    rw [howner, hn]
    exact hO.timeouts j k (hto j k h)
  fresh k h := by
    rw [hn] at h
    rw [hfresh k h]
    exact hO.fresh k h

lemma Owned.deliver (hO : c.Owned) (j : ℕ) : (c.deliver j).Owned := by
  apply hO.congr (c.timers_deliver j)
  · intro k
    rw [timer_deliver]
    split_ifs <;> simp
  · intro k hk
    rw [timer_deliver, if_neg]
    intro hc
    exact absurd (hO.cause j k hc).2.1 (Nat.not_lt.mpr hk)
  · intro i k hc
    rw [face_deliver] at hc ⊢
    split_ifs at hc ⊢ with hi
    exact hO.cause i k hc
  · intro i k hp
    have hold : (c.face i).polling = some k := by
      rw [face_deliver] at hp
      split_ifs at hp with hi
      · exact hi ▸ hp
      · exact hp
    obtain ⟨h₁, h₂, h₃⟩ := hO.polling i k hold
    refine ⟨h₁, h₂, ?_⟩
    rw [timer_deliver]
    split_ifs <;> simpa using h₃
  · intro i k hk
    rw [face_deliver] at hk
    split_ifs at hk with hi
    · exact hi ▸ hk
    · exact hk

lemma Owned.openTimeout (hO : c.Owned) (j : ℕ) : (c.openTimeout j).Owned := by
  have hlt : ∀ k, k < c.timers → k ≠ c.timers := fun k hk => Nat.ne_of_lt hk
  have hold : ∀ i k, (c.timer k).owner = i ∧ k < c.timers →
      ((c.openTimeout j).timer k).owner = i ∧ k < (c.openTimeout j).timers := by
    rintro i k ⟨h₁, h₂⟩
    rw [timer_openTimeout, if_neg (hlt k h₂)]
    exact ⟨h₁, Nat.lt_succ_of_lt h₂⟩
  constructor
  · intro i k hc
    have hc' : (c.face i).cause = some k := by
      rw [face_openTimeout] at hc
      split_ifs at hc with hi
      · exact hi ▸ hc
      · exact hc
    obtain ⟨h₁, h₂, h₃⟩ := hO.cause i k hc'
    refine ⟨(hold i k ⟨h₁, h₂⟩).1, (hold i k ⟨h₁, h₂⟩).2, ?_⟩
    rw [face_openTimeout]
    split_ifs with hi
    · exact hi ▸ h₃
    · exact h₃
  · intro i k hp
    have hp' : (c.face i).polling = some k := by
      rw [face_openTimeout] at hp
      split_ifs at hp with hi
      · exact hi ▸ hp
      · exact hp
    obtain ⟨h₁, h₂, h₃⟩ := hO.polling i k hp'
    refine ⟨(hold i k ⟨h₁, h₂⟩).1, (hold i k ⟨h₁, h₂⟩).2, ?_⟩
    rw [timer_openTimeout, if_neg (hlt k h₂)]
    exact h₃
  · intro i k hk
    rw [face_openTimeout] at hk
    split_ifs at hk with hi
    · rcases List.mem_cons.mp hk with rfl | hk
      · rw [timer_openTimeout, if_pos rfl]
        exact ⟨hi.symm, Nat.lt_succ_self _⟩
      · exact hold i k (hi ▸ hO.timeouts j k hk)
    · exact hold i k (hO.timeouts i k hk)
  · intro k hk
    have hk : c.timers + 1 ≤ k := hk
    rw [timer_openTimeout, if_neg (by omega)]
    exact hO.fresh k (by omega)

lemma Owned.cancelOne (hO : c.Owned) {j k : ℕ} {ks : List ℕ}
    (h : (c.face j).timeouts = k :: ks) : (c.cancelOne j k ks).Owned := by
  have hk := hO.timeouts j k (h ▸ List.mem_cons_self)
  have hphase : ((c.cancelOne j k ks).timer k).phase ≠ .armed := by
    rw [timer_cancelOne, if_pos rfl]
    show (if (c.timer k).phase = .armed then TimerPhase.cancelled else (c.timer k).phase) ≠ _
    split_ifs with hp
    · nofun
    · exact hp
  have hn : (c.cancelOne j k ks).timers = c.timers := rfl
  apply hO.congr hn
  · intro i
    rw [timer_cancelOne]
    by_cases hi : i = k
    · rw [if_pos hi, hi]
    · rw [if_neg hi]
  · intro i hi
    rw [timer_cancelOne, if_neg]
    rintro rfl
    exact absurd hk.2 (Nat.not_lt.mpr hi)
  · intro i x hc
    rw [face_cancelOne] at hc ⊢
    split_ifs at hc ⊢ with hi
    · subst hi
      exact hO.cause i x hc
    · exact hO.cause i x hc
  · intro i x hp
    rw [face_cancelOne] at hp
    split_ifs at hp with hi
    · obtain rfl : k = x := Option.some_injective _ hp
      exact ⟨hi ▸ hk.1, hk.2, hphase⟩
    · obtain ⟨h₁, h₂, h₃⟩ := hO.polling i x hp
      refine ⟨h₁, h₂, ?_⟩
      by_cases hx : x = k
      · exact hx ▸ hphase
      · rw [timer_cancelOne, if_neg hx]
        exact h₃
  · intro i x hx
    rw [face_cancelOne] at hx
    split_ifs at hx with hi
    · rw [hi, h]
      exact List.mem_cons_of_mem _ hx
    · exact hx

lemma Owned.closeTimeout (hO : c.Owned) {j k : ℕ} (h : (c.face j).polling = some k) :
    (c.closeTimeout j k).Owned := by
  have hk := hO.polling j k h
  have hn : (c.closeTimeout j k).timers = c.timers := rfl
  apply hO.congr hn
  · intro i
    rw [timer_closeTimeout]
    split_ifs with hi
    · rw [hi]
    · rfl
  · intro i hi
    rw [timer_closeTimeout, if_neg]
    rintro rfl
    exact absurd hk.2.1 (Nat.not_lt.mpr hi)
  · intro i x hc
    rw [face_closeTimeout] at hc ⊢
    split_ifs at hc ⊢ with hi
    · subst hi
      exact hO.cause i x hc
    · exact hO.cause i x hc
  · intro i x hp
    rw [face_closeTimeout] at hp
    split_ifs at hp with hi
    obtain ⟨h₁, h₂, h₃⟩ := hO.polling i x hp
    refine ⟨h₁, h₂, ?_⟩
    rw [timer_closeTimeout]
    split_ifs with hx
    · exact hx ▸ h₃
    · exact h₃
  · intro i x hx
    rw [face_closeTimeout] at hx
    split_ifs at hx with hi
    · exact hi ▸ hx
    · exact hx

lemma Owned.reset (hO : c.Owned) (j : ℕ) : (c.reset j).Owned := by
  have htimer : (c.reset j).timer = c.timer := rfl
  have hn : (c.reset j).timers = c.timers := rfl
  apply hO.congr hn (fun k => by rw [htimer]) (fun k _ => by rw [htimer])
  · intro i k hc
    rw [face_reset] at hc ⊢
    split_ifs at hc ⊢ with hi
    · subst hi
      exact hO.cause i k hc
    · exact hO.cause i k hc
  · intro i k hp
    rw [face_reset] at hp
    split_ifs at hp
    rw [htimer]
    exact hO.polling i k hp
  · intro i k hk
    rw [face_reset] at hk
    split_ifs at hk with hi
    · exact hi ▸ hk
    · exact hk

lemma Owned.expire (hO : c.Owned) {k : ℕ} (h : (c.timer k).phase = .armed) :
    (c.expire k).Owned := by
  have hn : (c.expire k).timers = c.timers := rfl
  apply hO.congr hn
  · intro i
    rw [timer_expire]
    split_ifs with hi
    · rw [hi]
    · rfl
  · intro i hi
    rw [timer_expire, if_neg]
    rintro rfl
    rw [hO.fresh i hi] at h
    cases h
  · exact hO.cause
  · intro i x hp
    obtain ⟨h₁, h₂, h₃⟩ := hO.polling i x hp
    refine ⟨h₁, h₂, ?_⟩
    rw [timer_expire]
    split_ifs
    · nofun
    · exact h₃
  · exact fun _ _ => id

lemma Owned.callback (hO : c.Owned) {k : ℕ} (h : (c.timer k).phase = .due) :
    (c.callback k).Owned := by
  have hk : k < c.timers := by
    by_contra hk
    rw [hO.fresh k (Nat.not_lt.mp hk)] at h
    cases h
  apply hO.congr (c.timers_callback k)
  · intro i
    rw [timer_callback]
    split_ifs with hi
    · rw [hi]
    · rfl
  · intro i hi
    rw [timer_callback, if_neg]
    rintro rfl
    exact absurd hk (Nat.not_lt.mpr hi)
  · intro i x hc
    rw [face_callback] at hc ⊢
    split_ifs at hc ⊢ with hi
    · obtain rfl : k = x := Option.some_injective _ hc
      exact ⟨hi.1.symm, hk, rfl⟩
    · exact hO.cause i x hc
  · intro i x hp
    have hold : (c.face i).polling = some x := by
      rw [face_callback] at hp
      split_ifs at hp <;> exact hp
    obtain ⟨h₁, h₂, h₃⟩ := hO.polling i x hold
    refine ⟨h₁, h₂, ?_⟩
    rw [timer_callback]
    split_ifs
    · nofun
    · exact h₃
  · intro i x hx
    rw [face_callback] at hx
    split_ifs at hx <;> exact hx

lemma Owned.cancel (hO : c.Owned) (j : ℕ) : (c.cancel j).Owned := by
  apply hO.congr (c.timers_cancel j)
  · exact fun i => by rw [timer_cancel]
  · exact fun i _ => by rw [timer_cancel]
  · intro i k hc
    rw [face_cancel] at hc ⊢
    split_ifs at hc ⊢ with hi
    · -- a pending status is not replaced
      have := (hO.cause i k hc).2.2
      rw [hi.2] at this
      cases this
    · exact hO.cause i k hc
  · intro i k hp
    rw [timer_cancel]
    apply hO.polling i k
    rw [face_cancel] at hp
    split_ifs at hp <;> exact hp
  · intro i k hk
    rw [face_cancel] at hk
    split_ifs at hk <;> exact hk

lemma Owned.step {a : Tick} (hO : c.Owned) (hs : Rule c a c') : c'.Owned := by
  cases hs with
  | deliver j h => exact hO.deliver j
  | openTimeout j => exact hO.openTimeout j
  | cancelOne j k ks h => exact hO.cancelOne h
  | closeTimeout j k h => exact hO.closeTimeout h
  | reset j => exact hO.reset j
  | expire k h => exact hO.expire h
  | callback k h => exact hO.callback h
  | cancel j => exact hO.cancel j

lemma inductive_owned : machine.Inductive (fun _ _ => True) Owned where
  init c h := by
    obtain rfl : c = {} := h
    exact owned_init
  step _ _ _ hO _ hs := hO.step (.of_step hs)

lemma Owned.cause_of_normal (hO : c.Owned) {j : ℕ} (h : (c.face j).status = .normal) :
    (c.face j).cause = none := by
  cases hc : (c.face j).cause with
  | none => rfl
  | some k =>
    have := (hO.cause j k hc).2.2
    rw [h] at this
    cases this

/-- A tick that sets no cause. -/
lemma cause_congr {a : Tick} (hs : Rule c a c') (ha : ∀ k, a ≠ .callback k) {j k : ℕ}
    (h : (c'.face j).cause = some k) : (c.face j).cause = some k := by
  cases hs with
  | deliver i _ =>
    rw [face_deliver] at h
    split_ifs at h
    exact h
  | openTimeout i =>
    rw [face_openTimeout] at h
    split_ifs at h with hi
    · exact hi ▸ h
    · exact h
  | cancelOne i _ _ _ =>
    rw [face_cancelOne] at h
    split_ifs at h with hi
    · exact hi ▸ h
    · exact h
  | closeTimeout i _ _ =>
    rw [face_closeTimeout] at h
    split_ifs at h with hi
    · exact hi ▸ h
    · exact h
  | reset i =>
    rw [face_reset] at h
    split_ifs at h with hi
    · exact hi ▸ h
    · exact h
  | expire _ _ => exact h
  | callback i _ => exact absurd rfl (ha i)
  | cancel i =>
    rw [face_cancel] at h
    split_ifs at h <;> exact h

/-! ### No exception after the scope -/

/-- The destructor of a timeout that polls in vain finds neither its callback queued nor its event
pending. -/
def Settled (c : Clock) : Tick → Prop
  | .closeTimeout j k => (c.timer k).phase ≠ .due ∧ (c.face j).cause ≠ some k
  | _                 => True

/-- Timers that can still act, or have an event pending, are in scope. -/
structure Tame (c : Clock) : Prop where
  cause : ∀ j k, (c.face j).cause = some k → (c.timer k).scope = true
  queued : ∀ k, (c.timer k).phase = .armed ∨ (c.timer k).phase = .due → (c.timer k).scope = true
  stray : ∀ k, (c.timer k).stray = 0

lemma tame_init : ({} : Clock).Tame where
  cause := by simp
  queued := by simp
  stray _ := rfl

lemma Tame.step {a : Tick} (hO : c.Owned) (hT : c.Tame) (hC : c.Settled a) (hs : Rule c a c') :
    c'.Tame := by
  cases hs with
  | deliver j h =>
    have hscope : ∀ k, ((c.deliver j).timer k).scope = (c.timer k).scope := by
      intro k
      rw [timer_deliver]
      split_ifs <;> simp
    constructor
    · intro i k hc
      rw [hscope]
      exact hT.cause i k (cause_congr (.deliver j h) (by simp) hc)
    · intro k hk
      rw [hscope]
      apply hT.queued k
      rw [timer_deliver] at hk
      split_ifs at hk <;> simpa using hk
    · intro k
      rw [timer_deliver]
      split_ifs with hk
      · rw [Timer.throwing, if_pos (hT.cause j k hk)]
        exact hT.stray k
      · exact hT.stray k
  | openTimeout j =>
    constructor
    · intro i k hc
      rw [timer_openTimeout]
      split_ifs
      · rfl
      · exact hT.cause i k (cause_congr (.openTimeout j) (by simp) hc)
    · intro k hk
      rw [timer_openTimeout] at hk ⊢
      split_ifs at hk ⊢
      · rfl
      · exact hT.queued k hk
    · intro k
      rw [timer_openTimeout]
      split_ifs
      · exact hT.stray c.timers
      · exact hT.stray k
  | cancelOne j k ks h =>
    have hscope : ∀ i, ((c.cancelOne j k ks).timer i).scope = (c.timer i).scope := by
      intro i
      rw [timer_cancelOne]
      by_cases hi : i = k
      · rw [if_pos hi, hi]
      · rw [if_neg hi]
    constructor
    · intro i x hc
      rw [hscope]
      exact hT.cause i x (cause_congr (.cancelOne j k ks h) (by simp) hc)
    · intro i hi
      rw [hscope]
      apply hT.queued i
      rw [timer_cancelOne] at hi
      by_cases hik : i = k
      · simp only [if_pos hik] at hi
        by_cases hp : (c.timer k).phase = .armed
        · exact .inl (hik ▸ hp)
        · rw [if_neg hp] at hi
          exact hik ▸ hi
      · rwa [if_neg hik] at hi
    · intro i
      rw [timer_cancelOne]
      by_cases hi : i = k
      · rw [if_pos hi]
        exact hT.stray k
      · rw [if_neg hi]
        exact hT.stray i
  | closeTimeout j k h =>
    obtain ⟨hdue, hpending⟩ : (c.timer k).phase ≠ .due ∧ (c.face j).cause ≠ some k := hC
    obtain ⟨howner, -, harmed⟩ := hO.polling j k h
    constructor
    · intro i x hc
      have hold := cause_congr (.closeTimeout j k h) (by simp) hc
      rw [timer_closeTimeout, if_neg]
      · exact hT.cause i x hold
      · -- the only journey with this timer pending would be `j`
        rintro rfl
        obtain rfl : j = i := howner.symm.trans (hO.cause i x hold).1
        exact hpending hold
    · intro i hi
      rw [timer_closeTimeout] at hi ⊢
      split_ifs at hi ⊢
      · rcases hi with hi | hi
        · exact absurd hi harmed
        · exact absurd hi hdue
      · exact hT.queued i hi
    · intro i
      rw [timer_closeTimeout]
      split_ifs
      · exact hT.stray k
      · exact hT.stray i
  | reset j =>
    exact ⟨fun i k hc => hT.cause i k (cause_congr (.reset j) (by simp) hc), hT.queued, hT.stray⟩
  | expire k h =>
    have hscope : ∀ i, ((c.expire k).timer i).scope = (c.timer i).scope := by
      intro i
      rw [timer_expire]
      split_ifs with hi
      · rw [hi]
      · rfl
    constructor
    · intro i x hc
      rw [hscope]
      exact hT.cause i x hc
    · intro i hi
      rw [hscope]
      by_cases hik : i = k
      · exact hT.queued i (.inl (hik ▸ h))
      · rw [timer_expire, if_neg hik] at hi
        exact hT.queued i hi
    · intro i
      rw [timer_expire]
      split_ifs
      · exact hT.stray k
      · exact hT.stray i
  | callback k h =>
    have hscope : ∀ i, ((c.callback k).timer i).scope = (c.timer i).scope := by
      intro i
      rw [timer_callback]
      split_ifs with hi
      · rw [hi]
      · rfl
    constructor
    · intro i x hc
      rw [hscope]
      rw [face_callback] at hc
      split_ifs at hc with hi
      · obtain rfl : k = x := Option.some_injective _ hc
        exact hT.queued k (.inr h)
      · exact hT.cause i x hc
    · intro i hi
      rw [hscope]
      rw [timer_callback] at hi
      split_ifs at hi with hik
      · simp at hi
      · exact hT.queued i hi
    · intro i
      rw [timer_callback]
      split_ifs
      · exact hT.stray k
      · exact hT.stray i
  | cancel j =>
    constructor
    · intro i k hc
      rw [timer_cancel]
      exact hT.cause i k (cause_congr (.cancel j) (by simp) hc)
    · rw [timer_cancel]
      exact hT.queued
    · rw [timer_cancel]
      exact hT.stray

lemma inductive_tame : machine.Inductive Settled fun c => c.Owned ∧ c.Tame := by
  refine (inductive_owned.mono fun _ _ _ => trivial).and (fun c h => ?_) ?_
  · obtain rfl : c = {} := h
    exact tame_init
  · intro c a c' hO hT hC hs
    exact hT.step hO hC (.of_step hs)

/-- No timer throws outside its scope. -/
theorem no_stray (h : machine.ReachableBy Settled c) (k : ℕ) : (c.timer k).stray = 0 :=
  (inductive_tame.holds h).2.stray k

end Clock

end Synca
