import Synca.Relay.Departures
import Synca.Runtime.Desks
import Synca.Runtime.Joins
import Synca.Runtime.Terminate

/-!
# The end of a handler

An exception that leaves a handler crosses four layers. `start0` catches what is derived from
`std::exception`, `starter0` stores the rest, `jump0` rethrows it through `CoroGuard`, which deletes
the journey, and the wrapper of the thread catches what is derived from `std::exception`. So the
journey is deleted in any case, and nothing stops another object.
-/

namespace Synca

open Transition Relay

namespace Air

/-- No exception was stored in a coroutine or rethrown. -/
structure Clean (c : Air) : Prop where
  exc : ∀ j, c.exc j = false
  threw : ∀ t x, c.exec t = some x → x.threw = false

lemma Clean.congr {c c' : Air} (h : c.Clean) (hc : c'.exc = c.exc) (hx : c'.exec = c.exec) :
    c'.Clean := ⟨hc ▸ h.exc, hx ▸ h.threw⟩

/-- A thread goes on without rethrowing anything. -/
lemma Clean.update {c c' : Air} (h : c.Clean) (hc : c'.exc = c.exc) {t : ℕ} {y : Option Exec}
    (hx : c'.exec = Function.update c.exec t y) (hy : ∀ x, y = some x → x.threw = false) :
    c'.Clean := by
  refine ⟨hc ▸ h.exc, fun u x hux => ?_⟩
  rw [hx, Function.update_apply] at hux
  split_ifs at hux
  · exact hy x hux
  · exact h.threw u x hux

lemma Clean.setStage {c : Air} (h : c.Clean) (t : ℕ) (g : Stage) : (c.setStage t g).Clean := by
  refine h.update rfl rfl fun x hx => ?_
  obtain ⟨y, hy, rfl⟩ := Option.map_eq_some_iff.mp hx
  exact h.threw t y hy

end Air

namespace Runtime

variable {s s' u : Runtime} {t j k : ℕ} {a : Action}

/-- What leaves a handler is derived from `std::exception`. -/
def LetsOutStd (s : Runtime) : Action → Prop
  | .escape _ j => (s.journey j).flight ≠ some .other
  | _           => True

/-- No deferred handler throws: an operation starts, and a default scheduler is attached when the
launch loop of a group needs it. -/
def DeferredStarts (s : Runtime) : Action → Prop
  | .exit _ j fails => ∀ h, (s.journey j).deferHandler = some h → h.startsIo = true → fails = false
  | .launch t j     => match s.stage t j with
    | some (.loop k) => (s.group k).launched < (s.group k).size → s.dflt ≠ none
    | _              => True
  | _               => True

/-- The program goes on. Each journey is deleted once at most and counted, and one whose handler has
ended is deleted by the thread that executes it: the steps that are left to this thread can be
taken, do not end the program and lead back to the loop of the pool, where the next task may be
taken. -/
structure Contained (s : Runtime) : Prop where
  live : s.terminated = false
  once (j : ℕ) : (s.journey j).log.count .delete ≤ 1
  counted : s.created = s.destroyed + s.living.card
  leaving (j : ℕ) : s.Ended j → LifeEvent.delete ∉ (s.journey j).log →
    ∃ t, s.stage t j = some .switched ∨ s.stage t j = some .exiting
  closes (t j : ℕ) : s.Runs t j .closing →
    ∃ s', step s (.endCoro t j) = some s' ∧ s'.terminated = false ∧ s'.stage t j = some .switched
  jumps (t j : ℕ) : s.stage t j = some .switched →
    ∃ s', step s (.jump t j) = some s' ∧ s'.terminated = false ∧ s'.stage t j = some .exiting
  deletes (t j : ℕ) (fails : Bool) : s.stage t j = some .exiting → s.Ended j →
    ∃ s', step s (.exit t j fails) = some s' ∧ s'.terminated = false ∧
      s'.stage t j = some .finishing ∧ (s'.journey j).alive = false ∧
      (s'.journey j).log = (s.journey j).log ++ [.delete] ∧ s'.destroyed = s.destroyed + 1
  returns (t : ℕ) (x : Exec) : (s.thread t).exec = some x → x.stage = .finishing →
    ∃ s', step s (.finish t x.journey) = some s' ∧ s'.terminated = false ∧
      (s'.thread t).exec = none ∧ ∀ k ∈ s'.posted,
        (s'.alone k.sched = true → s'.strand k.sched = none) → s'.Takes t k

/-! ### Exceptions that leave handlers -/

/-- Only `catching` and `escape` end the flight of an exception. -/
lemma entry_ne_catches (hc : ∀ t j, a ≠ .catching t j) (he : ∀ t j, a ≠ .escape t j) (j : ℕ) :
    s.entry a ≠ (j, [.catches]) := by
  have hpolled : s.polled a ≠ (j, [.catches]) := by
    unfold polled
    split <;> simp
  cases a with
  | catching t i => exact absurd rfl (hc t i)
  | escape t i => exact absurd rfl (he t i)
  | cancel | callback | throw | destructor => simp [entry]
  | closeScope t i =>
    rw [entry]
    split_ifs
    · simp
    · exact hpolled
  | _ => exact hpolled

lemma clean_of_gust {c : Air} (h : s.Gust a c) (hlive : c.terminated = false)
    (hc : ∀ j, s.entry a ≠ (j, [.catches])) (hP : s.air.Clean) : c.Clean := by
  cases h with
  | ends h why => cases h.symm.trans hlive
  | calm j ns he hq h => exact h ▸ hP.congr rfl rfl
  | place t i j ns x he hq ht hx h => exact h ▸ hP.congr rfl rfl
  | throw t j ns e he ht hf hn ho h => exact h ▸ hP.congr rfl rfl
  | catching t j x b he ht hf hx hb h => exact absurd he (hc j)
  | shift t j n he ht hn h => exact h ▸ hP.congr rfl rfl
  | away t i j ns x he hq ht hf h =>
    have hplace : ((s.air.hear i ns).place j x).Clean := hP.congr rfl rfl
    exact h ▸ hplace.setStage t .switched
  | save t j he ht h =>
    have hx : (s.journey j).coro.exc = false := hP.exc j
    rw [h, if_neg (by simp [hx])]
    exact hP.setStage t .exiting
  | stage t x g he hx hs hg h => exact h ▸ hP.setStage t g
  | take t k x b he hk hb h =>
    have hb : b = false := by
      by_contra hn
      have hexc : (s.journey k.journey).coro.exc = false := hP.exc _
      cases hexc.symm.trans (hb (by simpa using hn))
    have htake : (s.air.take t ⟨k.sched, k.journey, k.start, false, .running⟩).Clean :=
      hP.update rfl rfl fun y hy => by
        obtain rfl := Option.some_injective _ hy
        rfl
    rw [h, hb]
    refine ⟨fun i => ?_, htake.threw⟩
    simp only [Air.setExc, Function.update_apply]
    split_ifs
    · rfl
    · exact htake.exc i
  | giveUp t x he hx hs hw h =>
    have hgive : (s.air.giveUp t).Clean := hP.update rfl rfl fun y hy => by cases hy
    exact h ▸ hgive

lemma exec_air_addUncaught_mapJourney {n : ℤ} {f : Journey → Journey} :
    ((s.addUncaught t n).mapJourney j f).air.exec = s.air.exec := by
  have h : (s.addUncaught t n).air.exec = s.air.exec := by rw [air_addUncaught]; rfl
  exact h

lemma clean_of_step (hs : step s a = some s') (hL : s.LetsOutStd a) (hP : s.air.Clean)
    (hlive : s'.terminated = false) : s'.air.Clean := by
  by_cases hc : ∃ t j, a = .catching t j
  · obtain ⟨t, j, rfl⟩ := hc
    cases Rule.of_step hs with
    | catching t j h he =>
      refine hP.congr (funext fun i => ?_) exec_air_addUncaught_mapJourney
      simp only [air, addUncaught, mapThread, mapJourney, Function.update_apply]
      split_ifs with hi
      · rw [hi]
      · rfl
  by_cases he : ∃ t j, a = .escape t j
  · obtain ⟨t, j, rfl⟩ := he
    cases Rule.of_step hs with
    | escape t j e h he hf =>
      have hne : e ≠ .other := fun heq => hL (heq ▸ he)
      refine ⟨fun i => ?_, fun u x hx => hP.threw u x ?_⟩
      case refine_2 => rwa [exec_air_addUncaught_mapJourney] at hx
      simp only [air, addUncaught, mapThread, mapJourney, Function.update_apply]
      split_ifs
      · simpa using hne
      · exact hP.exc i
  · exact clean_of_gust (gust_of_rule (.of_step hs)) hlive
      (entry_ne_catches (fun t j h => hc ⟨t, j, h⟩) fun t j h => he ⟨t, j, h⟩) hP

lemma inductive_clean :
    machine.Inductive LetsOutStd fun s => s.terminated = false → s.air.Clean where
  init s h := by
    obtain ⟨alone, rfl⟩ := h
    exact fun _ => ⟨fun _ => rfl, fun _ _ hx => by cases hx⟩
  step _ _ _ hP hL hs := clean_of_step hs hL (hP (live_of_step hs))

/-! ### What is left to the thread -/

lemma inductive_departs :
    machine.Inductive (fun _ _ => True) fun s => s.relay.Sound ∧ s.relay.Departs :=
  inductive_sound.and
    (by
      rintro s ⟨alone, rfl⟩
      exact .init alone)
    fun _ _ _ hS hD _ hs => hD.hops hS (hops_of_rule (.of_step hs))

lemma stage_setStage {g g' : Stage} (h : s.stage t j = some g) :
    (s.setStage t g').stage t j = some g' := by
  obtain ⟨x, hx, hj, -⟩ := exec_of_stage h
  simp [setStage, mapThread, stage, hx, hj]

lemma stage_congr (h : s'.desks = s.desks) : s'.stage t j = s.stage t j := by
  have hexec : (s'.thread t).exec = (s.thread t).exec := congrArg Prod.fst (congrFun h t)
  rw [stage, stage, hexec]

/-- The life of a journey that was deleted ends with this. -/
lemma count_delete {l : Life} {es : List LifeEvent} (h : Life.absent.after es = some l) :
    es.count .delete = if l = .deleted then 1 else 0 := by
  induction es using List.reverseRecOn generalizing l with
  | nil =>
    obtain rfl : .absent = l := Option.some_injective _ h
    rfl
  | append_singleton es e ih =>
    obtain ⟨n, hn, hne⟩ := Life.after_concat.mp h
    rw [List.count_append, ih hn]
    cases n <;> cases e <;> simp [Life.next] at hne <;> simp [← hne]

lemma terminated_release (s : Runtime) (k : ℕ) (h : Holder) :
    (s.release k h).terminated = s.terminated :=
  congrArg Air.terminated (air_release s k h)

lemma step_eq (hf : s.fault = false) (hlive : s.terminated = false) : step s a = s.stepLive a := by
  rw [step, if_neg (by simp [hf, hlive])]

lemma closes_of_live (hf : s.fault = false) (hlive : s.terminated = false)
    (h : s.Runs t j .closing) : ∃ s', step s (.endCoro t j) = some s' ∧ s'.terminated = false ∧
      s'.stage t j = some .switched := by
  refine ⟨s.endCoro t j, ?_, ?_, ?_⟩
  · rw [step_eq hf hlive, stepLive, if_pos h]
  · unfold endCoro
    simp only
    split
    · rw [terminated_release]
      exact hlive
    · exact hlive
  · have hset : ((s.mapJourney j fun x => { x with
        ctx := .ended, coro := { x.coro with started := false },
        log := x.log ++ [.finish] }).setStage t .switched).stage t j = some .switched := by
      refine stage_setStage (g := .running) ?_
      exact h.1
    unfold endCoro
    simp only
    split
    · rw [stage_congr (desks_release _ _ _)]
      exact hset
    · exact hset

lemma jumps_of_live (hf : s.fault = false) (hlive : s.terminated = false)
    (hexc : (s.journey j).coro.exc = false) (h : s.stage t j = some .switched) :
    ∃ s', step s (.jump t j) = some s' ∧ s'.terminated = false ∧
      s'.stage t j = some .exiting := by
  refine ⟨s.jump t j, ?_, ?_, ?_⟩
  · rw [step_eq hf hlive, stepLive, if_pos h]
  · rw [jump, if_neg (by simp [hexc])]
    exact hlive
  · rw [jump, if_neg (by simp [hexc])]
    refine stage_setStage (g := .switched) ?_
    exact h

/-- On the way out, a journey that has ended has no deferred handler. -/
lemma no_handler_of_ended (hS : s.relay.Sound) (h : s.stage t j = some .exiting)
    (he : s.Ended j) : (s.journey j).deferHandler = none := by
  obtain ⟨l, hlead, hl⟩ := hS.lives.leads_at (p := .exiting t) (does_iff_stage.mpr h)
  have hpast := (Life.past_iff hlead.after).mpr he
  rcases hl with ⟨rfl, -⟩ | rfl
  · cases hpast
  · exact hlead.fits.no_handler (by simp) (by simp)

lemma deletes_of_live (hS : s.relay.Sound) (hlive : s.terminated = false)
    (h : s.stage t j = some .exiting) (he : s.Ended j) (fails : Bool) :
    ∃ s', step s (.exit t j fails) = some s' ∧ s'.terminated = false ∧
      s'.stage t j = some .finishing ∧ (s'.journey j).alive = false ∧
      (s'.journey j).log = (s.journey j).log ++ [.delete] ∧ s'.destroyed = s.destroyed + 1 := by
  have hd := no_handler_of_ended hS h he
  have hexit : s.onExit0 t j fails = { s.mapJourney j fun x => { x with
      alive := false, log := x.log ++ [.delete] } with
        destroyed := s.destroyed + 1 : Runtime }.setStage t .finishing := by
    rw [onExit0, hd]
  refine ⟨s.onExit0 t j fails, ?_, ?_⟩
  · rw [step_eq hS.tallied.fault hlive, stepLive, if_pos h]
  · rw [hexit]
    refine ⟨hlive, ?_, ?_, ?_, rfl⟩
    · refine stage_setStage (g := .exiting) ?_
      exact h
    · simp [setStage, mapThread, mapJourney]
    · simp [setStage, mapThread, mapJourney]

lemma returns_of_live (hf : s.fault = false) (hT : s.desks.Tidy) (hlive : s.terminated = false)
    {x : Exec} (hx : (s.thread t).exec = some x) (hg : x.stage = .finishing)
    (hw : x.threw = false) : ∃ s', step s (.finish t x.journey) = some s' ∧
      s'.terminated = false ∧ (s'.thread t).exec = none ∧ ∀ k ∈ s'.posted,
        (s'.alone k.sched = true → s'.strand k.sched = none) → s'.Takes t k := by
  have hcall := hT t x hx (by simp [hg])
  have hdesks : (s.giveUp t x).desks t = (none, .idle) := by
    have h : (s.giveUp t x).desks = Function.update s.desks t (none, (s.thread t).call) :=
      desks_mapThread s t fun th => { th with exec := none }
    rw [h, Function.update_self]
    exact congrArg (Prod.mk none) hcall
  have hfinish : (s.finish t x.journey x).terminated = false ∧
      (s.finish t x.journey x).desks t = (none, .idle) := by
    unfold finish
    rw [if_neg (by simp [hw])]
    split
    · rw [terminated_release, desks_release]
      exact ⟨hlive, hdesks⟩
    · exact ⟨hlive, hdesks⟩
  refine ⟨s.finish t x.journey x, ?_, hfinish.1, congrArg Prod.fst hfinish.2, fun k hk hst =>
    ⟨congrArg Prod.fst hfinish.2, congrArg Prod.snd hfinish.2, hk, hst⟩⟩
  rw [step_eq hf hlive, stepLive, hx]
  exact if_pos ⟨rfl, hg⟩

lemma contained_of_clean (hS : s.relay.Sound) (hD : s.relay.Departs) (hT : s.desks.Tidy)
    (hC : s.air.Clean) (hlive : s.terminated = false) : s.Contained where
  live := hlive
  once j := by
    obtain ⟨l, hl⟩ := hS.lives.leads j
    have hcount := count_delete hl.after
    refine (Nat.le_of_eq hcount).trans ?_
    split_ifs <;> decide
  counted := hS.tallied.count
  leaving j he hn := by
    obtain ⟨t, ht⟩ := hD j ⟨he, hn⟩
    exact ⟨t, ht.imp does_iff_stage.mp does_iff_stage.mp⟩
  closes _ _ h := closes_of_live hS.tallied.fault hlive h
  jumps _ j h := jumps_of_live hS.tallied.fault hlive (hC.exc j) h
  deletes _ _ fails h he := deletes_of_live hS hlive h he fails
  returns t x hx hg := returns_of_live hS.tallied.fault hT hlive hx hg (hC.threw t x hx)

/-! ### What else ends the program -/

/-- A deferred handler throws. -/
lemma terminated_of_not_starts (h : Rule s a s') (hC : ¬ s.DeferredStarts a) :
    s'.terminated = true := by
  cases h with
  | exit t j fails h =>
    simp only [DeferredStarts, not_forall, Bool.not_eq_false] at hC
    obtain ⟨d, hd, hio, rfl⟩ := hC
    simp only [onExit0, hd, hio, Bool.and_self, if_true]
    rfl
  | launch t j k h =>
    simp only [DeferredStarts, h, Classical.not_imp, not_not] at hC
    rw [launch, if_pos hC.1]
    simp only [hC.2]
    rfl
  | _ => exact absurd trivial hC

/-- An exception leaves a destructor of the user's code. -/
lemma terminated_of_not_holds (h : Rule s a s') (hC : ¬ s.DestructorsHold a) :
    s'.terminated = true := by
  cases h with
  | closeScope t j f fs h hf =>
    obtain ⟨hends, hn⟩ := Classical.not_imp.mp hC
    have hj : (s.mapJourney j fun x => { x with frames := fs }).journey j =
        { s.journey j with frames := fs } := by simp [mapJourney]
    cases f with
    | destructor e =>
      rw [closeScope, closeDestructor, hj, if_neg hn]
      rfl
    | _ => simp [endsDestructor, hf] at hends
  | _ => exact absurd trivial hC

lemma lives_of_exit {fails : Bool} (hD : s.DeferredStarts (.exit t j fails))
    (hlive : s.terminated = false) : (s.onExit0 t j fails).terminated = false := by
  unfold onExit0
  split
  · exact hlive
  · rename_i d hd
    rw [if_neg]
    · cases d <;> exact hlive
    · intro hf
      rw [Bool.and_eq_true] at hf
      cases hf.1.symm.trans (hD d hd hf.2)

lemma lives_of_launch (h : s.stage t j = some (.loop k)) (hD : s.DeferredStarts (.launch t j))
    (hlive : s.terminated = false) : (s.launch t k).terminated = false := by
  simp only [DeferredStarts, h] at hD
  unfold launch
  simp only
  split_ifs with hlt
  · split
    · exact absurd ‹_› (hD hlt)
    · exact hlive
  · exact (terminated_release s k .loop).trans hlive

lemma lives_of_starts (h : Rule s a s') (hQ : s.ScopesEndQuietly a) (hH : s.DestructorsHold a)
    (hD : s.DeferredStarts a) (hC : s.air.Clean) (hlive : s.terminated = false) :
    s'.terminated = false := by
  have hordinary : s.Ordinary a → s'.terminated = false := fun hO =>
    (gust_of_rule h).lives hQ hO (fun t _ x _ => hC.threw t x) hlive
  cases h with
  | exit t j fails h => exact lives_of_exit hD hlive
  | launch t j k h => exact lives_of_launch h hD hlive
  | throw t j e h => exact hlive
  | closeScope t j f fs h hf => exact hordinary hH
  | _ => exact hordinary trivial

instance (s : Runtime) (a : Action) : Decidable (s.LetsOutStd a) := by
  induction a using Action.casesOn with
  | escape t j => exact inferInstanceAs (Decidable (_ ≠ _))
  | _ => exact .isTrue trivial

/-- No exception leaves a destructor: that of a scope finds no event to deliver, one of the user's
code lets nothing out, and the deferred handler, which `~CoroGuard` runs, does not throw. -/
def DestructorsQuiet (s : Runtime) (a : Action) : Prop :=
  s.ScopesEndQuietly a ∧ s.DestructorsHold a ∧ s.DeferredStarts a

instance (s : Runtime) (a : Action) : Decidable (s.DeferredStarts a) := by
  induction a using Action.casesOn with
  | exit t j fails =>
    dsimp only [DeferredStarts]
    induction (s.journey j).deferHandler using Option.casesOn with
    | none => exact .isTrue nofun
    | some d => exact decidable_of_iff (d.startsIo = true → fails = false) (by simp)
  | launch t j =>
    dsimp only [DeferredStarts]
    induction s.stage t j using Option.casesOn with
    | none => exact .isTrue trivial
    | some g => induction g using Stage.casesOn <;> infer_instance
  | _ => exact .isTrue trivial

instance (s : Runtime) (a : Action) : Decidable (s.DestructorsHold a) := by
  induction a using Action.casesOn with
  | closeScope t j => exact inferInstanceAs (Decidable (_ → _))
  | _ => exact .isTrue trivial

instance (s : Runtime) (a : Action) : Decidable (s.DestructorsQuiet a) :=
  inferInstanceAs (Decidable (_ ∧ _))

/-- As long as no handler lets out anything but objects derived from `std::exception`, the ends of
handlers stay inside exactly if no exception leaves a destructor. -/
theorem contained_of_std {s₀ : Runtime} {as : List Action} (h₀ : machine.init s₀)
    (hL : machine.Along LetsOutStd s₀ as) (he : machine.exec s₀ as = some s) :
    s.Contained ↔ machine.Along DestructorsQuiet s₀ as := by
  have hr : machine.ReachableBy LetsOutStd s := Machine.ReachableBy.exec (.init h₀) hL he
  have hlive : s.terminated = false ↔ machine.Along DestructorsQuiet s₀ as := by
    refine Machine.holds_iff_along (fun _ _ _ => live_of_step) (fun s a s' hr hL hs => ?_)
      (.init h₀) ?_ hL he
    · have hrule := Rule.of_step hs
      constructor
      · intro hlive
        refine ⟨?_, ?_, ?_⟩ <;> by_contra hC
        · cases hlive.symm.trans (terminated_of_not_quiet hrule hC)
        · cases hlive.symm.trans (terminated_of_not_holds hrule hC)
        · cases hlive.symm.trans (terminated_of_not_starts hrule hC)
      · intro hC
        have hlive := live_of_step hs
        exact lives_of_starts hrule hC.1 hC.2.1 hC.2.2 (inductive_clean.holds hr hlive) hlive
    · obtain ⟨alone, rfl⟩ := h₀
      rfl
  rw [← hlive]
  refine ⟨Contained.live, fun hlive => ?_⟩
  exact contained_of_clean (inductive_sound.holds hr.reachable)
    (inductive_departs.holds hr.reachable).2 (inductive_tidy.holds hr.reachable)
    (inductive_clean.holds hr hlive) hlive

/-- A journey teleports and then throws an error on the second thread. -/
def throwsStd : List Action :=
  [.go 0 (some 1), .dispatch 0 ⟨1, 1, true⟩, .request 0 1 (.teleport 2), .jump 0 1,
    .exit 0 1 false, .finish 0 1, .dispatch 1 ⟨2, 1, false⟩, .leave 1 1, .throw 1 1 .std,
    .escape 1 1, .endCoro 1 1, .jump 1 1, .exit 1 1 false, .finish 1 1]

theorem contained_throwsStd :
    ∃ s, machine.exec {} throwsStd = some s ∧ s.Contained ∧ s.destroyed = 1 :=
  have he : machine.exec {} throwsStd = some _ := rfl
  ⟨_, he, (contained_of_std ⟨_, rfl⟩ (by decide) he).mpr (by decide), rfl⟩

/-- `throw 42` in a handler. -/
def throwsOther : List Action :=
  [.go 0 (some 1), .dispatch 0 ⟨1, 1, true⟩, .throw 0 1 .other, .escape 0 1, .endCoro 0 1,
    .jump 0 1, .exit 0 1 false]

theorem not_contained_of_other : ¬ ∀ (s₀ s : Runtime) (as : List Action), machine.init s₀ →
    machine.exec s₀ as = some s → s.Contained := by
  intro h
  have he : machine.exec {} throwsOther = some _ := rfl
  obtain ⟨s', hs, hlive, -⟩ := (h {} _ throwsOther ⟨_, rfl⟩ he).returns 0
    ⟨1, 1, true, true, .finishing⟩ rfl rfl
  cases hs
  cases hlive

end Runtime

end Synca
