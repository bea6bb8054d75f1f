import Synca.Barrier.Holders

/-!
# The rounds of a waiter

Where the journey, the thread in `onExit0` and the pointer of the waiter stand together, and what
the end of a reference does there: the last one ends either while `wait` is suspended, and the
deleter proceeds the journey, or after the destruction of the waiter.

The use of a waiter whose resumed `wait` has thrown is left out.
-/

namespace Synca

open Transition

namespace Barrier

variable {s s' : Barrier} {a : Action} {b c : ℕ} {o : Owner} {p : Option ℕ}

/-- The call uses a waiter that is as its constructor left it, or throws at once. -/
def Usable (s : Barrier) : Action → Prop
  | .go     => s.thrown = false
  | .wait u => s.thrown = false ∨ s.events.Deliverable u
  | _       => True

/-- The waiter exists, and no `wait` was left by an exception after its suspension. -/
def Sane (s : Barrier) : Prop := s.lifetime = .alive ∧ s.proceed = true ∧ s.thrown = false

/-- What is in order outside of `wait`. -/
inductive Outside (s : Barrier) : Prop where
  | unmade (hl : s.lifetime = .unmade) (hn : s.proceeder = none) (hb : s.blocks = 0)
      (ht : s.thrown = false)
  | usable (hl : s.Sane) (hp : s.proceeder ≠ none)
  | spoiled (hl : s.lifetime = .alive) (ht : s.thrown = true) (hn : s.proceeder = none)
      (hB : s.Bare)
  | destroyed (hl : s.lifetime = .destroyed) (hn : s.proceeder = none)

/-- Where the journey and the thread in `onExit0` are. -/
inductive Placed (s : Barrier) : Prop where
  | outside (hw : s.spot.waiting = false) (hd : s.deferral = .idle)
      (hp : s.posted = if s.spot = .roused then 1 else 0) (ho : s.Outside)
  | entering (hs : s.spot = .yielded ∧ s.deferral = .idle ∨
      s.spot = .suspended ∧ s.deferral = .pending) (hp : s.posted = 0) (hl : s.Sane)
      (hb : s.proceeder ≠ none)
  | dropping (b : ℕ) (hs : s.spot = .suspended) (hd : s.deferral = .dropping (some b))
      (hp : s.posted = 0) (hl : s.Sane) (hn : s.proceeder = none)
  | waiting (hs : s.spot = .suspended) (hd : s.deferral = .idle) (hp : s.posted = 0) (hl : s.Sane)
      (hn : s.proceeder = none) (hB : ¬ s.Bare)
  | proceeded (hs : s.spot = .suspended) (hd : s.deferral = .idle) (hp : s.posted = 1)
      (hl : s.Sane) (hn : s.proceeder = none) (hB : s.Bare)
  | resumed (hs : s.spot = .resumed) (hd : s.deferral = .idle) (hp : s.posted = 0) (hl : s.Sane)
      (hn : s.proceeder = none) (hB : s.Bare)

/-- What the end of a reference may do. -/
inductive Released (s : Barrier) (b : ℕ) (o : Owner) : Barrier → Prop where
  | kept (h : (s.holders b).erase o ≠ []) : Released s b o (s.erase b o)
  | dangles (h : (s.holders b).erase o = []) (hl : s.lifetime = .destroyed) :
      Released s b o { s.erase b o with dangling := true }
  | proceeds (h : (s.holders b).erase o = []) (hs : s.spot = .suspended) (hp : s.posted = 0)
      (hd : s.deferral = .idle) (hl : s.Sane) (hn : s.proceeder = none) :
      Released s b o (s.erase b o).proceedJourney

lemma Owned.not_bare (hO : s.Owned) (h : s.Owns b o) : ¬ s.Bare := fun hB => by
  simpa [hB b] using hO.mem h

/-- Only the last block has owners. -/
lemma Owned.bare_erase (hO : s.Owned) (h : s.Owns b o) (he : (s.holders b).erase o = []) :
    (s.erase b o).Bare := by
  intro d
  by_cases hd : d = b
  · rw [hd, erase_holders, he]
  · have hne : (s.erase b o).holders d = s.holders d := by simp [erase, hd]
    rw [hne]
    by_contra hne
    have h₁ := hO.last d hne
    have h₂ := hO.last_of_owns h
    omega

lemma released_of_proceeds (he : (s.holders b).erase o = []) (hs : s.spot = .suspended)
    (hp : s.posted = 0) (hd : s.deferral = .idle) (hl : s.Sane) (hn : s.proceeder = none) :
    s.Released b o (s.release (some b) o) := by
  have hdis : (s.erase b o).dispose = (s.erase b o).proceedJourney := by
    simp [dispose, erase, hl.1, hl.2.1]
  rw [release_of_eq he, hdis]
  exact .proceeds he hs hp hd hl hn

/-- A child gives up a reference. -/
lemma released_of_child (hO : s.Owned) (hP : s.Placed) (h : s.Owns b o) (ho : o.child ≠ none) :
    s.Released b o (s.release (some b) o) := by
  by_cases he : (s.holders b).erase o = []
  · -- nobody else holds the pointer
    have hall : ∀ {d o'}, s.Owns d o' → o' = o := by
      intro d o' h'
      obtain rfl := hO.owns_unique h' h
      by_contra hne
      have hm := (List.mem_erase_of_ne hne).mpr (hO.mem h')
      rw [he] at hm
      cases hm
    have hw : s.proceeder = none := by
      by_contra hne
      obtain ⟨d, hd⟩ := Option.ne_none_iff_exists'.mp hne
      exact ho (hall (show s.Owns d .waiter from hd) ▸ rfl)
    cases hP with
    | outside hs hd hp hout =>
      cases hout with
      | unmade hl hn hb => exact absurd (hO.last_of_owns h) (by omega)
      | usable hl hp => exact absurd hw hp
      | spoiled hl ht hn hB => exact absurd hB (hO.not_bare h)
      | destroyed hl hn =>
        have hdis : (s.erase b o).dispose = { s.erase b o with dangling := true } := by
          simp [dispose, erase, hl]
        rw [release_of_eq he, hdis]
        exact .dangles he hl
    | entering hs hp hl hb => exact absurd hw hb
    | dropping d hs hd hp hl hn =>
      exact absurd (hall (show s.Owns d .toDestroy from hd) ▸ rfl) ho
    | waiting hs hd hp hl hn hB => exact released_of_proceeds he hs hp hd hl hn
    | proceeded hs hd hp hl hn hB => exact absurd hB (hO.not_bare h)
    | resumed hs hd hp hl hn hB => exact absurd hB (hO.not_bare h)
  · rw [release_of_ne he]
    exact .kept he

/-- The copy on the stack of a child ends. -/
lemma released_of_close (hO : s.Owned) (hP : s.Placed) (hb : (s.child c).block ≠ none)
    (hp : (s.child c).phase = .ended) : ∃ b, s.Owns b (.coro c) ∧
      s.Released b (.coro c) (s.release (s.child c).block (.coro c)) := by
  obtain ⟨b, hb⟩ := Option.ne_none_iff_exists'.mp hb
  have hown : s.Owns b (.coro c) := ⟨hb, .inr (.inr hp)⟩
  rw [hb]
  exact ⟨b, hown, released_of_child hO hP hown (by simp [Owner.child])⟩

/-- The copy in the task of a child ends. -/
lemma released_of_dropTask (hO : s.Owned) (hP : s.Placed) (hb : (s.child c).block ≠ none)
    (hp : (s.child c).start = .leaving) : ∃ b, s.Owns b (.task c) ∧
      s.Released b (.task c) (s.release (s.child c).block (.task c)) := by
  obtain ⟨b, hb⟩ := Option.ne_none_iff_exists'.mp hb
  have hown : s.Owns b (.task c) := ⟨hb, by simp [hp]⟩
  rw [hb]
  exact ⟨b, hown, released_of_child hO hP hown (by simp [Owner.child])⟩

/-- The deleter does not look at the children. -/
lemma release_mapChild (f : Child → Child) (p : Option ℕ) (o : Owner) :
    (s.mapChild c f).release p o = (s.release p o).mapChild c f := by
  cases p with
  | none => rfl
  | some b =>
    simp only [release, dispose]
    split_ifs <;> first | rfl | contradiction

/-- The handler of `wait` ends. -/
lemma released_of_drop (hs : s.spot = .suspended) (hp : s.posted = 0)
    (hl : s.Sane) (hn : s.proceeder = none) :
    Released { s with deferral := .idle } b .toDestroy (s.drop (some b)) := by
  by_cases he : (s.holders b).erase .toDestroy = []
  · exact released_of_proceeds he hs hp rfl hl hn
  · rw [drop, release_of_ne (s := { s with deferral := .idle }) he]
    exact .kept he

/-- What a resumption does not change. -/
lemma dispatch_eq (s : Barrier) : ∃ n l x t,
    s.dispatch = { s with posted := n, log := l, spot := x, stray := t } := by
  unfold dispatch
  split
  · exact ⟨_, _, _, _, rfl⟩
  · exact ⟨_, _, _, _, rfl⟩
  · exact ⟨_, _, _, _, rfl⟩
  · exact ⟨_, _, _, _, rfl⟩

/-! ### One step -/

lemma not_bare_hold : ¬ (s.hold (some b) o).Bare := fun hB => by
  simpa [hold] using hB b

lemma Sane.congr (hS : s.Sane) (hl : s'.lifetime = s.lifetime) (he : s'.proceed = s.proceed)
    (ht : s'.thrown = s.thrown) : s'.Sane :=
  ⟨hl.trans hS.1, he.trans hS.2.1, ht.trans hS.2.2⟩

lemma Outside.congr (ho : s.Outside) (hl : s'.lifetime = s.lifetime) (he : s'.proceed = s.proceed)
    (ht : s'.thrown = s.thrown) (hn : s'.proceeder = s.proceeder) (hb : s'.blocks = s.blocks)
    (hB : s'.Bare ↔ s.Bare) : s'.Outside := by
  cases ho with
  | unmade hl' hn' hb' ht' =>
    exact .unmade (hl.trans hl') (hn.trans hn') (hb.trans hb') (ht.trans ht')
  | usable hl' hp' => exact .usable (hl'.congr hl he ht) (hn ▸ hp')
  | spoiled hl' ht' hn' hB' =>
    exact .spoiled (hl.trans hl') (ht.trans ht') (hn.trans hn') (hB.mpr hB')
  | destroyed hl' hn' => exact .destroyed (hl.trans hl') (hn.trans hn')

namespace Placed

/-- What a situation depends on. -/
lemma congr (hP : s.Placed) (hs : s'.spot = s.spot) (hd : s'.deferral = s.deferral)
    (hp : s'.posted = s.posted) (hl : s'.lifetime = s.lifetime) (he : s'.proceed = s.proceed)
    (ht : s'.thrown = s.thrown) (hn : s'.proceeder = s.proceeder) (hb : s'.blocks = s.blocks)
    (hB : s'.Bare ↔ s.Bare) : s'.Placed := by
  have hS : s.Sane → s'.Sane := fun h => h.congr hl he ht
  cases hP with
  | outside hw hd' hp' ho =>
    exact .outside (hs ▸ hw) (hd.trans hd') (by rw [hp, hs, hp'])
      (ho.congr hl he ht hn hb hB)
  | entering hs' hp' hl' hb' =>
    exact .entering (by rwa [hs, hd]) (hp.trans hp') (hS hl') (hn ▸ hb')
  | dropping b hs' hd' hp' hl' hn' =>
    exact .dropping b (hs.trans hs') (hd.trans hd') (hp.trans hp') (hS hl') (hn.trans hn')
  | waiting hs' hd' hp' hl' hn' hB' =>
    exact .waiting (hs.trans hs') (hd.trans hd') (hp.trans hp') (hS hl') (hn.trans hn')
      fun h => hB' (hB.mp h)
  | proceeded hs' hd' hp' hl' hn' hB' =>
    exact .proceeded (hs.trans hs') (hd.trans hd') (hp.trans hp') (hS hl') (hn.trans hn')
      (hB.mpr hB')
  | resumed hs' hd' hp' hl' hn' hB' =>
    exact .resumed (hs.trans hs') (hd.trans hd') (hp.trans hp') (hS hl') (hn.trans hn')
      (hB.mpr hB')

lemma init : ({} : Barrier).Placed := .outside rfl rfl rfl (.unmade rfl rfl rfl rfl)

lemma of_outside (hP : s.Placed) (hw : s.spot.waiting = false) :
    s.deferral = .idle ∧ s.posted = (if s.spot = .roused then 1 else 0) ∧ s.Outside := by
  cases hP with
  | outside hw hd hp ho => exact ⟨hd, hp, ho⟩
  | entering hs => rcases hs with ⟨hs, -⟩ | ⟨hs, -⟩ <;> simp [hs, Spot.waiting] at hw
  | dropping _ hs | waiting hs | proceeded hs | resumed hs => simp [hs, Spot.waiting] at hw

lemma of_user (hP : s.Placed) (hs : s.spot = .user) :
    s.deferral = .idle ∧ s.posted = 0 ∧ s.Outside := by
  obtain ⟨hd, hp, ho⟩ := hP.of_outside (by simp [hs, Spot.waiting])
  exact ⟨hd, by simpa [hs] using hp, ho⟩

lemma of_unmade (hP : s.Placed) (hs : s.At .unmade) :
    s.proceeder = none ∧ s.blocks = 0 ∧ s.thrown = false := by
  obtain ⟨-, -, ho⟩ := hP.of_user hs.1
  cases ho with
  | unmade hl hn hb ht => exact ⟨hn, hb, ht⟩
  | usable hl => cases hs.2.symm.trans hl.1
  | spoiled hl | destroyed hl => cases hs.2.symm.trans hl

lemma of_at (hP : s.Placed) (hs : s.At .alive) (ht : s.thrown = false) :
    s.Sane ∧ s.proceeder ≠ none := by
  obtain ⟨-, -, ho⟩ := hP.of_user hs.1
  cases ho with
  | usable hl hp => exact ⟨hl, hp⟩
  | unmade hl => cases hs.2.symm.trans hl
  | spoiled hl ht' => cases ht.symm.trans ht'
  | destroyed hl => cases hs.2.symm.trans hl

lemma of_resumed (hP : s.Placed) (hs : s.spot = .resumed) :
    s.deferral = .idle ∧ s.posted = 0 ∧ s.Sane ∧ s.proceeder = none ∧ s.Bare := by
  cases hP with
  | outside hw => simp [hs, Spot.waiting] at hw
  | resumed hs' hd hp hl hn hB => exact ⟨hd, hp, hl, hn, hB⟩
  | entering hs' | dropping _ hs' | waiting hs' | proceeded hs' => simp [hs] at hs'

lemma of_yielded (hP : s.Placed) (hs : s.spot = .yielded) :
    s.deferral = .idle ∧ s.posted = 0 ∧ s.Sane ∧ s.proceeder ≠ none := by
  cases hP with
  | outside hw => simp [hs, Spot.waiting] at hw
  | entering hs' hp hl hb => exact ⟨by simpa [hs] using hs', hp, hl, hb⟩
  | dropping _ hs' | waiting hs' | proceeded hs' | resumed hs' => simp [hs] at hs'

lemma of_pending (hP : s.Placed) (hd : s.deferral = .pending) :
    s.spot = .suspended ∧ s.posted = 0 ∧ s.Sane ∧ s.proceeder ≠ none := by
  cases hP with
  | entering hs hp hl hb => exact ⟨by simpa [hd] using hs, hp, hl, hb⟩
  | outside _ hd' | dropping _ _ hd' | waiting _ hd' | proceeded _ hd' | resumed _ hd' =>
    cases hd.symm.trans hd'

lemma of_dropping (hP : s.Placed) (hd : s.deferral = .dropping p) :
    ∃ b, p = some b ∧ s.spot = .suspended ∧ s.posted = 0 ∧ s.Sane ∧ s.proceeder = none := by
  cases hP with
  | dropping b hs hd' hp hl hn =>
    cases hd.symm.trans hd'
    exact ⟨b, rfl, hs, hp, hl, hn⟩
  | entering hs => simp [hd] at hs
  | outside _ hd' | waiting _ hd' | proceeded _ hd' | resumed _ hd' => cases hd.symm.trans hd'

/-- `wait` is suspended, and nobody has proceeded it. -/
lemma of_waiting (hP : s.Placed) (hs : s.spot = .suspended) (hd : s.deferral = .idle)
    (hp : s.posted = 0) : s.proceeder = none ∧ ¬ s.Bare := by
  cases hP with
  | waiting _ _ _ _ hn hB => exact ⟨hn, hB⟩
  | outside hw => simp [hs, Spot.waiting] at hw
  | entering hs' => simp [hs, hd] at hs'
  | dropping _ _ hd' => cases hd.symm.trans hd'
  | proceeded _ _ hp' => omega
  | resumed hs' => cases hs.symm.trans hs'

/-- The journey is resumed where it was suspended, and it has been proceeded. -/
lemma of_posted (hP : s.Placed) (hp : 0 < s.posted) :
    s.posted = 1 ∧ (s.spot = .roused ∧ s.deferral = .idle ∧ s.Outside ∨
      s.spot = .suspended ∧ s.deferral = .idle ∧ s.Sane ∧ s.proceeder = none ∧ s.Bare) := by
  cases hP with
  | outside hw hd hp' ho =>
    split_ifs at hp' with hs
    · exact ⟨hp', .inl ⟨hs, hd, ho⟩⟩
    · omega
  | proceeded hs hd hp' hl hn hB => exact ⟨hp', .inr ⟨hs, hd, hl, hn, hB⟩⟩
  | entering _ hp' | dropping _ _ _ hp' | waiting _ _ hp' | resumed _ _ hp' => omega

lemma mapChild (hP : s.Placed) (f : Child → Child) : (s.mapChild c f).Placed :=
  hP.congr rfl rfl rfl rfl rfl rfl rfl rfl Iff.rfl

/-- A reference of a child has ended. -/
lemma of_released (hO : s.Owned) (hP : s.Placed) (h : s.Owns b o) (hr : s.Released b o s') :
    s'.Placed := by
  cases hr with
  | kept he =>
    refine hP.congr rfl rfl rfl rfl rfl rfl rfl rfl (iff_of_false (fun hB => he ?_)
      (hO.not_bare h))
    simpa using hB b
  | dangles he hl =>
    obtain ⟨hw, hd, hp, hn⟩ : s.spot.waiting = false ∧ s.deferral = .idle ∧
        s.posted = (if s.spot = .roused then 1 else 0) ∧ s.proceeder = none := by
      cases hP with
      | outside hw hd hp ho =>
        refine ⟨hw, hd, hp, ?_⟩
        cases ho with
        | usable hl' => cases hl.symm.trans hl'.1
        | unmade _ hn | spoiled _ _ hn | destroyed _ hn => exact hn
      | entering _ _ hl' | dropping _ _ _ _ hl' | waiting _ _ _ hl' | proceeded _ _ _ hl'
      | resumed _ _ _ hl' => cases hl.symm.trans hl'.1
    exact .outside hw hd hp (.destroyed hl hn)
  | proceeds he hs hp hd hl hn =>
    exact .proceeded hs hd (congrArg (· + 1) hp) hl hn (hO.bare_erase h he)

/-- The handler of `wait` has ended. -/
lemma of_drop (hO : s.Owned) (hP : s.Placed) (hd : s.deferral = .dropping p) :
    (s.drop p).Placed := by
  obtain ⟨b, rfl, hs, hp, hl, hn⟩ := hP.of_dropping hd
  have hown : s.Owns b .toDestroy := hd
  have hr := released_of_drop (b := b) hs hp hl hn
  generalize s.drop (some b) = u at hr ⊢
  cases hr with
  | kept he =>
    refine .waiting hs rfl hp hl hn fun hB => he ?_
    simpa using hB b
  | dangles _ hl' => cases hl.1.symm.trans hl'
  | proceeds he => exact .proceeded hs rfl (congrArg (· + 1) hp) hl hn (hO.bare_erase hown he)

lemma of_construct (hP : s.Placed) (hs : s.At .unmade) : s.construct.Placed := by
  obtain ⟨hd, hp, -⟩ := hP.of_user hs.1
  obtain ⟨hn, -, ht⟩ := hP.of_unmade hs
  rw [construct, init0_eq (s := { s with lifetime := .alive, proceed := true }) hn]
  exact .outside (by simp [hs.1, Spot.waiting]) hd (by simp [hs.1, hp])
    (.usable ⟨rfl, rfl, ht⟩ (Option.some_ne_none _))

lemma of_destroy (hP : s.Placed) (hs : s.At .alive) : s.destroy.Placed := by
  obtain ⟨hd, hp, -⟩ := hP.of_user hs.1
  cases hn : s.proceeder with
  | none =>
    rw [destroy_eq_of_none hn]
    exact .outside (by simp [hs.1, Spot.waiting]) hd (by simp [hs.1, hp]) (.destroyed rfl rfl)
  | some b =>
    rw [destroy_eq hs.2 hn]
    exact .outside (by simp [erase, hs.1, Spot.waiting]) hd (by simp [erase, hs.1, hp])
      (.destroyed rfl rfl)

lemma of_go (hP : s.Placed) (hs : s.At .alive) (ht : s.thrown = false) : s.go.Placed := by
  obtain ⟨hd, hp, -⟩ := hP.of_user hs.1
  obtain ⟨hl, hb⟩ := hP.of_at hs ht
  obtain ⟨b, hb⟩ := Option.ne_none_iff_exists'.mp hb
  rw [go, hb]
  exact .outside (by simp [hold, hs.1, Spot.waiting]) hd (by simp [hold, hs.1, hp])
    (.usable hl (by simp [hold]))

lemma of_dispatch (hP : s.Placed) (hp : 0 < s.posted) : s.dispatch.Placed := by
  obtain ⟨hp, ⟨hs, hd, ho⟩ | ⟨hs, hd, hl, hn, hB⟩⟩ := hP.of_posted hp
  · have he : s.dispatch = { s.record .resume with posted := s.posted - 1, spot := .user } := by
      simp [dispatch, hs]
    rw [he]
    exact .outside rfl hd (by simp [hp]) (ho.congr rfl rfl rfl rfl rfl Iff.rfl)
  · have he : s.dispatch = { s.record .resume with posted := s.posted - 1, spot := .resumed } := by
      simp [dispatch, hs]
    rw [he]
    exact .resumed rfl hd (by simp [hp]) hl hn hB

lemma of_rule (hO : s.Owned) (hP : s.Placed) (hT : s.Tracked) (hu : s.Usable a)
    (h : s.Rule a s') : s'.Placed := by
  cases h with
  | construct hs => exact hP.of_construct hs
  | destroy hs => exact hP.of_destroy hs
  | go hs => exact hP.of_go hs hu
  | waitUnique u hs => exact hP.congr rfl rfl rfl rfl rfl rfl rfl rfl Iff.rfl
  | waitThrow u hs => exact hP.congr rfl rfl rfl rfl rfl rfl rfl rfl Iff.rfl
  | waitYield u hs hne he =>
    obtain ⟨hd, hp, -⟩ := hP.of_user hs.1
    obtain ⟨hl, hb⟩ := hP.of_at hs (hu.resolve_right he)
    exact .entering (.inl ⟨rfl, hd⟩) hp hl hb
  | leaveReturn u hs =>
    obtain ⟨hd, hp, hl, hn, hB⟩ := hP.of_resumed hs
    rw [init0_eq (s := { s with spot := .user }) hn]
    exact .outside rfl hd hp (.usable hl (Option.some_ne_none _))
  | leaveThrow u hs =>
    obtain ⟨hd, hp, hl, hn, hB⟩ := hP.of_resumed hs
    exact .outside rfl hd hp (.spoiled hl.1 rfl hn hB)
  | save hs =>
    obtain ⟨hd, hp, hl, hb⟩ := hP.of_yielded hs
    exact .entering (.inr ⟨rfl, rfl⟩) hp hl hb
  | move hd =>
    obtain ⟨hs, hp, hl, hb⟩ := hP.of_pending hd
    obtain ⟨b, hb⟩ := Option.ne_none_iff_exists'.mp hb
    rw [Barrier.move, hb]
    exact .dropping b hs rfl hp hl rfl
  | drop b hd => exact hP.of_drop hO hd
  | pause hs =>
    obtain ⟨hd, hp, ho⟩ := hP.of_user hs
    exact .outside rfl hd hp (ho.congr rfl rfl rfl rfl rfl Iff.rfl)
  | rouse hs =>
    obtain ⟨hd, hp, ho⟩ := hP.of_outside (by simp [hs, Spot.waiting])
    refine .outside rfl hd ?_ (ho.congr rfl rfl rfl rfl rfl Iff.rfl)
    simpa [hs] using hp
  | dispatch hp => exact hP.of_dispatch hp
  | set | poll => exact hP.congr rfl rfl rfl rfl rfl rfl rfl rfl Iff.rfl
  | start c hc hp =>
    obtain ⟨b, hb⟩ := Option.ne_none_iff_exists'.mp (hT c hc)
    rw [hb]
    have hown : s.Owns b (.task c) := ⟨hb, by simp [hO.posted c hp]⟩
    exact hP.congr rfl rfl rfl rfl rfl rfl rfl rfl (iff_of_false not_bare_hold (hO.not_bare hown))
  | suspend | resume | finish => exact hP.mapChild _
  | close c hc hp =>
    obtain ⟨b, hown, hr⟩ := released_of_close hO hP (hT c hc) hp
    rw [release_mapChild]
    exact (of_released hO hP hown hr).mapChild _
  | dropTask c hc hp =>
    obtain ⟨b, hown, hr⟩ := released_of_dropTask hO hP (hT c hc) hp
    rw [release_mapChild]
    exact (of_released hO hP hown hr).mapChild _

end Placed

/-! ### Runs -/

namespace Tracked

lemma release (hT : s.Tracked) (p : Option ℕ) (o : Owner) : (s.release p o).Tracked := by
  cases p with
  | none => exact hT
  | some b =>
    obtain ⟨d, n, l, q, he⟩ := release_eq s b o
    rw [he]
    exact hT

lemma init0 (hT : s.Tracked) : s.init0.Tracked := by
  let s' : Barrier := { s with
    proceeder := some s.blocks
    blocks    := s.blocks + 1
    holders   := Function.update s.holders s.blocks [.waiter] }
  exact release (s := s') hT s.proceeder .waiter

lemma hold (hT : s.Tracked) (p : Option ℕ) (o : Owner) : (s.hold p o).Tracked := by
  cases p <;> exact hT

lemma mapChild (hT : s.Tracked) {f : Child → Child}
    (hf : (f (s.child c)).block = (s.child c).block) : (s.mapChild c f).Tracked := by
  intro i hi
  rw [child_mapChild]
  split_ifs with h
  · rw [hf]
    exact h ▸ hT i hi
  · exact hT i hi

lemma go (hT : s.Tracked) (hp : s.proceeder ≠ none) : s.go.Tracked := by
  intro i hi
  rw [children_go] at hi
  rw [child_go]
  split_ifs with h
  · exact hp
  · exact hT i (by omega)

lemma of_rule (hT : s.Tracked) (hP : s.Placed) (hu : s.Usable a) (h : s.Rule a s') :
    s'.Tracked := by
  cases h with
  | construct hs => exact init0 (s := { s with lifetime := .alive, proceed := true }) hT
  | destroy hs => exact release (s := { s with proceed := false }) hT _ _
  | go hs => exact hT.go (hP.of_at hs hu).2
  | leaveReturn u hs => exact init0 (s := { s with spot := .user }) hT
  | waitUnique | waitThrow | waitYield | leaveThrow | save | pause | rouse | set | poll => exact hT
  | move hd =>
    rw [move]
    cases s.proceeder <;> exact hT
  | drop b hd => exact release (s := { s with deferral := .idle }) hT _ _
  | dispatch hp =>
    obtain ⟨n, l, x, t, he⟩ := dispatch_eq s
    rw [he]
    exact hT
  | start c hc hp => exact (hT.mapChild rfl).hold _ _
  | suspend | resume | finish => exact hT.mapChild rfl
  | close | dropTask => exact (hT.mapChild rfl).release _ _

end Tracked

lemma Owned.of_rule (hO : s.Owned) (hP : s.Placed) (hT : s.Tracked) (hu : s.Usable a)
    (h : s.Rule a s') : s'.Owned := by
  cases h with
  | construct hs =>
    obtain ⟨hn, hb, -⟩ := hP.of_unmade hs
    have hO' : Owned { s with lifetime := .alive, proceed := true } :=
      hO.congr rfl rfl rfl rfl fun b o => by cases o <;> exact Iff.rfl
    refine hO'.init0 hn fun b => ?_
    by_contra hne
    have := hO.last b hne
    omega
  | destroy hs => exact hO.destroy hs.2
  | go hs =>
    obtain ⟨b, hb⟩ := Option.ne_none_iff_exists'.mp (hP.of_at hs hu).2
    exact hO.go hb
  | waitUnique | waitThrow | waitYield | leaveThrow | pause | rouse | set | poll =>
    exact hO.congr rfl rfl rfl rfl fun b o => by cases o <;> exact Iff.rfl
  | leaveReturn u hs =>
    obtain ⟨-, -, -, hn, hB⟩ := hP.of_resumed hs
    have hO' : Owned { s with spot := .user } :=
      hO.congr rfl rfl rfl rfl fun b o => by cases o <;> exact Iff.rfl
    exact hO'.init0 hn hB
  | save hs =>
    refine hO.congr rfl rfl rfl rfl fun b o => ?_
    cases o with
    | toDestroy => simp [Owns, (hP.of_yielded hs).1]
    | waiter | task | coro => exact Iff.rfl
  | move hd =>
    obtain ⟨b, hb⟩ := Option.ne_none_iff_exists'.mp (hP.of_pending hd).2.2.2
    exact hO.move hb hd
  | drop p hd =>
    obtain ⟨b, rfl, -⟩ := hP.of_dropping hd
    exact hO.drop hd
  | dispatch hp =>
    obtain ⟨n, l, x, t, he⟩ := dispatch_eq s
    rw [he]
    exact hO.congr rfl rfl rfl rfl fun b o => by cases o <;> exact Iff.rfl
  | start c hc hp =>
    obtain ⟨b, hb⟩ := Option.ne_none_iff_exists'.mp (hT c hc)
    rw [hb]
    exact hO.start hb hp
  | suspend c hc hp =>
    refine hO.mapChild rfl Child.leaves_eq_destroyed ?_ (by simp)
    simp [Child.Inside, hp]
  | resume c hc hp =>
    refine hO.mapChild rfl Iff.rfl ?_ (by simp)
    simp [Child.Inside, hp]
  | finish c hc hp =>
    refine hO.mapChild rfl Iff.rfl ?_ (by simp)
    simp [Child.Inside, hp]
  | close c hc hp =>
    obtain ⟨b, hb⟩ := Option.ne_none_iff_exists'.mp (hT c hc)
    rw [hb]
    exact hO.close hb hp
  | dropTask c hc hp =>
    obtain ⟨b, hb⟩ := Option.ne_none_iff_exists'.mp (hT c hc)
    rw [hb]
    exact hO.dropTask hb hp

structure Sound (s : Barrier) : Prop where
  owned : s.Owned
  placed : s.Placed
  tracked : s.Tracked

/-- The references are in order as long as the waiter is used as it may be. -/
theorem inductive_sound : machine.Inductive Usable Sound where
  init s h := by
    subst h
    exact ⟨.init, .init, fun c hc => absurd hc (Nat.not_lt_zero c)⟩
  step s a s' hI hu hst := by
    have h := Rule.of_step hst
    exact ⟨hI.owned.of_rule hI.placed hI.tracked hu h,
      hI.placed.of_rule hI.owned hI.tracked hu h, hI.tracked.of_rule hI.placed hu h⟩

end Barrier

end Synca
