import Synca.Barrier.Rounds

/-!
# A waiter is a reusable barrier

Each `wait` that suspends is proceeded once, and no other is. It returns when every child has ended,
with the waiter as after its construction, and it does not stay suspended when they have.
-/

namespace Synca

open Transition

namespace Barrier

variable {s s' : Barrier} {a : Action} {b c : ℕ} {o : Owner} {p : Option ℕ}

/-- The condition of a waiter just constructed. -/
def Fresh (s : Barrier) : Prop :=
  s.lifetime = .alive ∧ s.proceed = true ∧ ∃ b, s.proceeder = some b ∧ s.holders b = [.waiter]

/-- Every handler that `go` has started has ended. -/
def AllOver (s : Barrier) : Prop := ∀ c < s.children, (s.child c).Over

/-- `wait` is suspended for good: every handler has ended, and no task is posted or executed. -/
def Stuck (s : Barrier) : Prop :=
  s.spot = .suspended ∧ s.posted = 0 ∧ s.deferral = .idle ∧ s.AllOver ∧
    ∀ c < s.children, ¬ (s.child c).Busy

instance (s : Barrier) : Decidable s.Stuck :=
  have : Decidable s.AllOver := Nat.decidableBallLT _ _
  inferInstanceAs (Decidable (_ ∧ _))

/-- With the step, a call of `wait` is over and no exception has left it: the journey was in the
call or has made it, it executes outside of the waiter again, and no event was taken from it. -/
def Returns (s : Barrier) (a : Action) (s' : Barrier) : Prop :=
  (s.spot.waiting = true ∨ ∃ u, a = .wait u) ∧ s'.spot = .user ∧ s'.events.gr = s.events.gr

/-- No event is set on the journey. -/
def Undisturbed (_ : Barrier) : Action → Prop
  | .set _ => False
  | _      => True

instance (s : Barrier) (a : Action) : Decidable (s.Undisturbed a) := by
  induction a using Action.casesOn with
  | set e => exact .isFalse id
  | _ => exact .isTrue trivial

structure Reusable (s : Barrier) : Prop where
  made : ∀ s', machine.step s .construct = some s' → s'.Fresh
  returns : ∀ a s', machine.step s a = some s' → s.Returns a s' → s.AllOver ∧ s'.Fresh
  once : ∀ n, s.proceeds (some n) ≤ 1
  suspended : ∀ n, n ∉ s.suspends → s.proceeds (some n) = 0
  /-- No deleter proceeds the journey outside of `wait`. -/
  outside : s.proceeds none = 0
  life : ∃ l, Life.running.after s.log = some l
  calm : s.stray = false
  live : ¬ s.Stuck

/-! ### What `wait` waits for -/

lemma Owned.over (hO : s.Owned) (hb : (s.child c).block = some b) (ht : ¬ s.Owns b (.task c))
    (hc : ¬ s.Owns b (.coro c)) : (s.child c).Over := by
  cases hp : (s.child c).phase with
  | posted => exact absurd ⟨hb, by simp [hO.posted c hp]⟩ ht
  | running => exact absurd ⟨hb, .inl hp⟩ hc
  | suspended => exact absurd ⟨hb, .inr (.inl hp)⟩ hc
  | ended => exact .inl hp
  | closed => exact .inr hp

/-- A child that is over and has nothing to do has no pointer. -/
lemma not_owns_of_idle (hover : (s.child c).Over) (hidle : ¬ (s.child c).Busy)
    (ho : o.child = some c) : ¬ s.Owns b o := by
  intro h
  cases o <;> cases ho
  case task => exact hidle (.inr (.inr (.inr h.2)))
  case coro =>
    rcases h.2 with hp | hp | hp
    · exact hidle (.inr (.inl hp))
    · rcases hover with hp' | hp' <;> cases hp.symm.trans hp'
    · exact hidle (.inr (.inr (.inl hp)))

/-! ### Where a call of `wait` ends -/

/-- An exception of `handleEvents` takes the event. -/
lemma gr_ne_of_deliverable {u : Bool} (h : s.events.Deliverable u) : {} ≠ s.events.gr :=
  fun he => h.2.2 (he ▸ rfl)

lemma spot_release (s : Barrier) (p : Option ℕ) (o : Owner) : (s.release p o).spot = s.spot := by
  cases p with
  | none => rfl
  | some b =>
    obtain ⟨d, n, l, q, he⟩ := release_eq s b o
    rw [he]
    rfl

/-- Until it leaves the call, the journey is in the course of `wait`. -/
lemma waiting_of_rule (h : s.Rule a s') (hl : ∀ u, a ≠ .leave u) (hw : s.spot.waiting = true) :
    s'.spot.waiting = true := by
  have huser : s.spot ≠ .user := fun hs => by simp [hs, Spot.waiting] at hw
  cases h with
  | construct hs | destroy hs | go hs | waitUnique u hs | waitThrow u hs | waitYield u hs =>
    exact absurd hs.1 huser
  | pause hs | poll _ _ _ hs => exact absurd hs huser
  | leaveReturn u | leaveThrow u => exact absurd rfl (hl u)
  | rouse hs => simp [hs, Spot.waiting] at hw
  | save => rfl
  | move hd =>
    rw [move]
    cases s.proceeder <;> exact hw
  | drop b hd =>
    rw [drop, spot_release]
    exact hw
  | dispatch hp =>
    cases hs : s.spot <;> simp [dispatch, hs, Spot.waiting, record] at hw ⊢
  | set | suspend | resume | finish => exact hw
  | start c hc hp => cases (s.child c).block <;> exact hw
  | close | dropTask =>
    rw [spot_release]
    exact hw

namespace Sound

lemma allOver_of_bare (hS : s.Sound) (hB : s.Bare) : s.AllOver := by
  intro c hc
  obtain ⟨b, hb⟩ := Option.ne_none_iff_exists'.mp (hS.tracked c hc)
  exact hS.owned.over hb (fun h => hS.owned.not_bare h hB) fun h => hS.owned.not_bare h hB

/-- The count that `unique` reads is that of the pointer of the waiter. -/
lemma allOver_of_unique (hS : s.Sound) (hu : s.Unique) : s.AllOver := by
  intro c hc
  obtain ⟨b, hb⟩ := Option.ne_none_iff_exists'.mp (hS.tracked c hc)
  obtain ⟨d, hd, hl⟩ := hu
  have hw : s.Owns d .waiter := hd
  have hone : ∀ {o}, s.Owns b o → o = .waiter := by
    intro o ho
    obtain rfl := hS.owned.owns_unique ho hw
    exact (hS.owned.shared b).unique hl hw ho
  refine hS.owned.over hb (fun h => ?_) fun h => ?_
  · cases hone h
  · cases hone h

lemma fresh_of_unique (hS : s.Sound) (hs : s.At .alive) (hu : s.Unique) : s.Fresh := by
  obtain ⟨d, hd, hl⟩ := hu
  have hw : s.Owns d .waiter := hd
  obtain ⟨-, -, ho⟩ := hS.placed.of_user hs.1
  cases ho with
  | usable hS' hp =>
    exact ⟨hs.2, hS'.2.1, d, hd, (hS.owned.shared d).eq_singleton hl hw⟩
  | unmade _ hn | spoiled _ _ hn | destroyed _ hn => cases hn.symm.trans hd

/-- Whoever is still to drop the last reference has something to do. -/
lemma not_stuck (hS : s.Sound) : ¬ s.Stuck := by
  rintro ⟨hs, hp, hd, hover, hidle⟩
  obtain ⟨hn, hB⟩ := hS.placed.of_waiting hs hd hp
  refine hB fun b => ?_
  rw [(hS.owned.shared b).eq_nil_iff]
  intro o ho
  cases o with
  | waiter => cases hn.symm.trans ho
  | toDestroy => cases hd.symm.trans ho
  | task c | coro c =>
    have hc := hS.owned.born ho.1
    exact not_owns_of_idle (hover c hc) (hidle c hc) (by simp [Owner.child]) ho

lemma fresh_of_init0 (hl : s.Sane) (hn : s.proceeder = none) : s.init0.Fresh := by
  rw [init0_eq hn]
  exact ⟨hl.1, hl.2.1, s.blocks, rfl, by simp⟩

lemma fresh_of_construct (hS : s.Sound) (h : machine.step s .construct = some s') : s'.Fresh := by
  cases Rule.of_step h with
  | construct hs =>
    obtain ⟨hn, -, ht⟩ := hS.placed.of_unmade hs
    exact fresh_of_init0 (s := { s with lifetime := .alive, proceed := true }) ⟨rfl, rfl, ht⟩ hn
  | poll _ _ ha => cases ha

lemma of_returns (hS : s.Sound) (h : machine.step s a = some s') (hr : s.Returns a s') :
    s.AllOver ∧ s'.Fresh := by
  have hrule := Rule.of_step h
  obtain ⟨hcall, hspot, hgr⟩ := hr
  by_cases hwait : ∃ u, a = .wait u
  · obtain ⟨u, rfl⟩ := hwait
    cases hrule with
    | waitUnique u hs hu => exact ⟨hS.allOver_of_unique hu, hS.fresh_of_unique hs hu⟩
    | waitThrow u hs hu he => exact absurd hgr (gr_ne_of_deliverable he)
    | waitYield u hs => cases hspot
    | poll _ _ ha => cases ha
  · by_cases hleave : ∃ u, a = .leave u
    · obtain ⟨u, rfl⟩ := hleave
      cases hrule with
      | leaveReturn u hs =>
        obtain ⟨-, -, hl, hn, hB⟩ := hS.placed.of_resumed hs
        exact ⟨hS.allOver_of_bare hB, fresh_of_init0 (s := { s with spot := .user }) hl hn⟩
      | leaveThrow u hs he => exact absurd hgr (gr_ne_of_deliverable he)
      | poll _ _ ha => cases ha
    · -- no other step ends the call
      have hw := waiting_of_rule hrule (fun u hu => hleave ⟨u, hu⟩) (hcall.resolve_right hwait)
      rw [hspot] at hw
      cases hw

end Sound

/-! ### Who is proceeded -/

/-- The life of the journey. -/
def life (s : Barrier) : Life :=
  match s.spot with
  | .user | .resumed => .running
  | .away            => .suspended
  | .roused        => .proceeded
  | .yielded         => .yielding
  | .suspended       => if s.posted = 0 then .suspended else .proceeded

structure Answered (s : Barrier) : Prop where
  life : Life.running.after s.log = some s.life
  outside : s.proceeds none = 0
  once : ∀ n, s.proceeds (some n) ≤ 1
  suspended : ∀ n, n ∉ s.suspends → s.proceeds (some n) = 0
  bound : ∀ n ∈ s.suspends, n ≤ s.waits
  open_ : s.spot = .yielded ∨ s.spot = .suspended ∧ s.posted = 0 →
    s.waits ∈ s.suspends ∧ s.proceeds (some s.waits) = 0
  calm : s.stray = false

namespace Answered

lemma init : ({} : Barrier).Answered := by
  constructor <;> simp [Barrier.life, Life.after]

/-- The journey goes on, and no deleter proceeds it. -/
lemma advance (hA : s.Answered) (es : List LifeEvent) (hl : s'.log = s.log ++ es)
    (hn : s.life.after es = some s'.life) (hq : s'.proceeds = s.proceeds)
    (hu : s'.suspends = s.suspends) (hw : s'.waits = s.waits) (ht : s'.stray = s.stray)
    (ho : s'.spot = .yielded ∨ s'.spot = .suspended ∧ s'.posted = 0 →
      s.spot = .yielded ∨ s.spot = .suspended ∧ s.posted = 0) : s'.Answered where
  life := by
    rw [hl, Life.after_append_eq, hA.life]
    exact hn
  outside := by
    rw [hq]
    exact hA.outside
  once := by
    rw [hq]
    exact hA.once
  suspended := by
    rw [hq, hu]
    exact hA.suspended
  bound := by
    rw [hu, hw]
    exact hA.bound
  open_ h := by
    rw [hw, hu, hq]
    exact hA.open_ (ho h)
  calm := ht.trans hA.calm

lemma congr (hA : s.Answered) (hs : s'.spot = s.spot) (hp : s'.posted = s.posted)
    (hl : s'.log = s.log) (hq : s'.proceeds = s.proceeds) (hu : s'.suspends = s.suspends)
    (hw : s'.waits = s.waits) (ht : s'.stray = s.stray) : s'.Answered := by
  refine hA.advance [] (by simp [hl]) ?_ hq hu hw ht (by simp [hs, hp])
  simp [Life.after, Barrier.life, hs, hp]

/-- The deleter proceeds the journey that waits. -/
lemma proceedJourney (hA : s.Answered) (hs : s.spot = .suspended) (hp : s.posted = 0) :
    s.proceedJourney.Answered := by
  obtain ⟨hmem, hzero⟩ := hA.open_ (.inr ⟨hs, hp⟩)
  have hcall : s.call = some s.waits := by simp [call, hs, Spot.waiting]
  have hq : ∀ x, s.proceedJourney.proceeds x = if x = some s.waits then 1 else s.proceeds x := by
    intro x
    simp [Barrier.proceedJourney, record, hcall, hzero, Function.update_apply]
  have hlife : s.life = .suspended := by simp [Barrier.life, hs, hp]
  constructor
  · rw [show s.proceedJourney.log = s.log ++ [.proceed] from rfl, Life.after_append hA.life, hlife]
    simp [Barrier.life, Barrier.proceedJourney, record, hs, Life.next]
  · rw [hq]
    simp [hA.outside]
  · intro n
    rw [hq]
    split_ifs
    · exact Nat.le_refl 1
    · exact hA.once n
  · intro n hn
    rw [hq, if_neg]
    · exact hA.suspended n hn
    · rintro ⟨⟩
      exact hn hmem
  · exact hA.bound
  · simp [Barrier.proceedJourney, record, hs]
  · exact hA.calm

/-- Outside of `wait` the number of the next call is free. -/
lemma waits (hA : s.Answered) (hs : s.spot = .user) :
    Answered { s with waits := s.waits + 1 } where
  life := hA.life
  outside := hA.outside
  once := hA.once
  suspended := hA.suspended
  bound n hn := Nat.le_succ_of_le (hA.bound n hn)
  open_ h := by simp [hs] at h
  calm := hA.calm

lemma yield (hA : s.Answered) (hs : s.spot = .user) (hw : s.waits ∉ s.suspends) :
    s.yield.Answered where
  life := by
    have hlife : s.life = .running := by simp [Barrier.life, hs]
    rw [show s.yield.log = s.log ++ [.yield] from rfl, Life.after_append hA.life, hlife]
    rfl
  outside := hA.outside
  once := hA.once
  suspended n hn := hA.suspended n fun h => hn (List.mem_append_left _ h)
  bound n hn := by
    rcases List.mem_append.mp hn with hn | hn
    · exact hA.bound n hn
    · exact Nat.le_of_eq (List.mem_singleton.mp hn)
  open_ _ := ⟨List.mem_append_right _ (List.mem_singleton_self _), hA.suspended _ hw⟩
  calm := hA.calm

lemma mapChild (hA : s.Answered) (f : Child → Child) : (s.mapChild c f).Answered :=
  hA.congr rfl rfl rfl rfl rfl rfl rfl

/-- A reference has ended. -/
lemma of_released (hA : s.Answered) (hr : s.Released b o s') : s'.Answered := by
  cases hr with
  | kept | dangles => exact hA.congr rfl rfl rfl rfl rfl rfl rfl
  | proceeds he hs hp =>
    have hA' : (s.erase b o).Answered := hA.congr rfl rfl rfl rfl rfl rfl rfl
    exact hA'.proceedJourney hs hp

lemma init0 (hA : s.Answered) (hn : s.proceeder = none) : s.init0.Answered := by
  rw [init0_eq hn]
  exact hA.congr rfl rfl rfl rfl rfl rfl rfl

lemma of_dispatch (hA : s.Answered) (hP : s.Placed) (hp : 0 < s.posted) :
    s.dispatch.Answered := by
  obtain ⟨hp, ⟨hs, -⟩ | ⟨hs, -⟩⟩ := hP.of_posted hp
  · have he : s.dispatch = { s.record .resume with posted := s.posted - 1, spot := .user } := by
      simp [dispatch, hs]
    rw [he]
    refine hA.advance [.resume] rfl ?_ rfl rfl rfl rfl (by simp)
    simp [Barrier.life, hs, Life.after, Life.next]
  · have he : s.dispatch = { s.record .resume with posted := s.posted - 1, spot := .resumed } := by
      simp [dispatch, hs]
    rw [he]
    refine hA.advance [.resume] rfl ?_ rfl rfl rfl rfl (by simp)
    simp [Barrier.life, hs, hp, Life.after, Life.next]

lemma of_rule (hA : s.Answered) (hS : s.Sound) (h : s.Rule a s') : s'.Answered := by
  cases h with
  | construct hs =>
    have hA' : Answered { s with lifetime := .alive, proceed := true } :=
      hA.congr rfl rfl rfl rfl rfl rfl rfl
    exact hA'.init0 (hS.placed.of_unmade hs).1
  | destroy hs =>
    cases hn : s.proceeder with
    | none =>
      rw [destroy_eq_of_none hn]
      exact hA.congr rfl rfl rfl rfl rfl rfl rfl
    | some b =>
      rw [destroy_eq hs.2 hn]
      exact hA.congr rfl rfl rfl rfl rfl rfl rfl
  | go hs =>
    rw [go]
    cases s.proceeder <;> exact hA.congr rfl rfl rfl rfl rfl rfl rfl
  | waitUnique u hs => exact hA.waits hs.1
  | waitThrow u hs => exact (hA.waits hs.1).congr rfl rfl rfl rfl rfl rfl rfl
  | waitYield u hs =>
    refine (hA.waits hs.1).yield hs.1 fun h => ?_
    exact Nat.not_succ_le_self _ (hA.bound _ h)
  | leaveReturn u hs =>
    obtain ⟨-, -, hl, hn, hB⟩ := hS.placed.of_resumed hs
    have hA' : Answered { s with spot := .user } := by
      refine hA.advance [] (by simp) ?_ rfl rfl rfl rfl (by simp)
      simp [Barrier.life, hs, Life.after]
    exact hA'.init0 hn
  | leaveThrow u hs =>
    refine hA.advance [] (by simp) ?_ rfl rfl rfl rfl (by simp)
    simp [Barrier.life, hs, Life.after]
  | save hs =>
    refine hA.advance [.save] rfl ?_ rfl rfl rfl rfl fun _ => .inl hs
    simp [Barrier.life, hs, Life.after, Life.next, (hS.placed.of_yielded hs).2.1, record]
  | move hd =>
    rw [move]
    cases s.proceeder <;> exact hA.congr rfl rfl rfl rfl rfl rfl rfl
  | drop p hd =>
    obtain ⟨b, rfl, hs, hp, hl, hn⟩ := hS.placed.of_dropping hd
    have hA' : Answered { s with deferral := .idle } := hA.congr rfl rfl rfl rfl rfl rfl rfl
    exact hA'.of_released (released_of_drop hs hp hl hn)
  | pause hs =>
    refine hA.advance [.yield, .save] (by simp [record]) ?_ rfl rfl rfl rfl (by simp)
    simp [Barrier.life, hs, Life.after, Life.next]
  | rouse hs =>
    refine hA.advance [.proceed] rfl ?_ rfl rfl rfl rfl (by simp)
    simp [Barrier.life, hs, Life.after, Life.next]
  | dispatch hp => exact hA.of_dispatch hS.placed hp
  | set | poll => exact hA.congr rfl rfl rfl rfl rfl rfl rfl
  | start c hc hp =>
    cases (s.child c).block <;> exact hA.congr rfl rfl rfl rfl rfl rfl rfl
  | suspend | resume | finish => exact hA.mapChild _
  | close c hc hp =>
    obtain ⟨b, -, hr⟩ := released_of_close hS.owned hS.placed (hS.tracked c hc) hp
    rw [release_mapChild]
    exact (hA.of_released hr).mapChild _
  | dropTask c hc hp =>
    obtain ⟨b, -, hr⟩ := released_of_dropTask hS.owned hS.placed (hS.tracked c hc) hp
    rw [release_mapChild]
    exact (hA.of_released hr).mapChild _

end Answered

lemma inductive_answered : machine.Inductive Usable fun s => s.Sound ∧ s.Answered :=
  inductive_sound.and (fun _ h => h ▸ .init) fun _ _ _ hS hA _ hst =>
    hA.of_rule hS (Rule.of_step hst)

lemma reusable_of_usable (h : machine.ReachableBy Usable s) : s.Reusable := by
  obtain ⟨hS, hA⟩ := inductive_answered.holds h
  exact {
    made := fun s' => hS.fresh_of_construct
    returns := fun a s' => hS.of_returns
    once := hA.once
    suspended := hA.suspended
    outside := hA.outside
    life := ⟨_, hA.life⟩
    calm := hA.calm
    live := hS.not_stuck }

/-- No event is pending, and none was thrown. -/
def Quiet (s : Barrier) : Prop := s.events.gr.status = .normal ∧ s.thrown = false

namespace Quiet

lemma not_deliverable (hQ : s.Quiet) {u : Bool} : ¬ s.events.Deliverable u :=
  fun h => h.2.2 hQ.1

lemma release (hQ : s.Quiet) (p : Option ℕ) (o : Owner) : (s.release p o).Quiet := by
  cases p with
  | none => exact hQ
  | some b =>
    obtain ⟨d, n, l, q, he⟩ := release_eq s b o
    rw [he]
    exact hQ

lemma init0 (hQ : s.Quiet) : s.init0.Quiet := by
  let s' : Barrier := { s with
    proceeder := some s.blocks
    blocks    := s.blocks + 1
    holders   := Function.update s.holders s.blocks [.waiter] }
  exact release (s := s') hQ s.proceeder .waiter

lemma of_rule (hQ : s.Quiet) (hC : s.Undisturbed a) (h : s.Rule a s') : s'.Quiet := by
  cases h with
  | construct hs => exact init0 (s := { s with lifetime := .alive, proceed := true }) hQ
  | destroy hs => exact release (s := { s with proceed := false }) hQ _ _
  | go hs =>
    rw [go]
    cases s.proceeder <;> exact hQ
  | waitUnique | waitYield | save | pause | rouse => exact hQ
  | waitThrow u hs hu he => exact absurd he hQ.not_deliverable
  | leaveReturn u hs => exact init0 (s := { s with spot := .user }) hQ
  | leaveThrow u hs he => exact absurd he hQ.not_deliverable
  | move hd =>
    rw [move]
    cases s.proceeder <;> exact hQ
  | drop b hd => exact release (s := { s with deferral := .idle }) hQ _ _
  | dispatch hp =>
    obtain ⟨n, l, x, t, he⟩ := dispatch_eq s
    rw [he]
    exact hQ
  | set e => exact hC.elim
  | poll a e ha hs he => exact ⟨he hQ.1, hQ.2⟩
  | start c hc hp => cases (s.child c).block <;> exact hQ
  | suspend | resume | finish => exact hQ
  | close | dropTask => exact release (s := s.mapChild _ _) hQ _ _

end Quiet

lemma inductive_quiet : machine.Inductive Undisturbed Quiet where
  init _ h := h ▸ ⟨rfl, rfl⟩
  step _ _ _ hQ hC hst := hQ.of_rule hC (Rule.of_step hst)

/-- Without an event, a waiter serves any number of rounds. -/
theorem reusable (h : machine.ReachableBy Undisturbed s) : s.Reusable := by
  refine reusable_of_usable (inductive_quiet.reachableBy (fun s a hQ _ => ?_) h)
  cases a with
  | go => exact hQ.2
  | wait u => exact .inl hQ.2
  | _ => trivial

/-- A child ends, and so does the task that has started it. -/
def childRun (c : ℕ) : List Action :=
  [.child c .start, .child c .finish, .child c .close, .child c .dropTask]

/-- Two rounds: in the first the child ends after the suspension, and in the second before. -/
def twoRounds : List Action :=
  [.construct, .go, .wait false, .save, .move, .drop] ++ childRun 0 ++
    [.dispatch, .leave false, .go] ++ childRun 1 ++ [.wait false, .destroy]

theorem reusable_twoRounds : ∃ s, machine.exec {} twoRounds = some s ∧ s.Reusable := by
  have he : machine.exec {} twoRounds = some _ := rfl
  exact ⟨_, he, reusable ((Machine.ReachableBy.init rfl).exec (by decide) he)⟩

end Barrier

end Synca
