import Synca.Runtime.Flights

/-!
# When the program terminates

A destructor lets no exception out: if `handleEvents` throws in `~Timeout`, `~Portal` or
`~EventsGuard`, `std::terminate` is called. Nothing else ends a program that throws objects derived
from `std::exception` only, has its default scheduler attached and starts its operations.
-/

namespace Synca

open Transition

namespace Air

/-- All exceptions are derived from `std::exception`. -/
structure Plain (c : Air) : Prop where
  exns : ∀ j, .other ∉ (c.own j).exns
  exc : ∀ j, c.exc j = false
  threw : ∀ t x, c.exec t = some x → x.threw = false

namespace Plain

variable {c : Air} {j t : ℕ}

lemma setOwn (h : c.Plain) {o : Own} (ho : .other ∉ o.exns) : (c.setOwn j o).Plain := by
  refine ⟨fun i => ?_, h.exc, h.threw⟩
  rw [Air.setOwn]
  simp only [Function.update_apply]
  split_ifs
  · exact ho
  · exact h.exns i

lemma hear (h : c.Plain) {ns : List Note}
    (hn : ((c.own j).hears ns).exns = (c.own j).exns) : (c.hear j ns).Plain := by
  apply h.setOwn
  rw [hn]
  exact h.exns j

lemma place (h : c.Plain) (x : Ctx) : (c.place j x).Plain := ⟨h.exns, h.exc, h.threw⟩

lemma addUncaught (h : c.Plain) (n : ℤ) : (c.addUncaught t n).Plain := ⟨h.exns, h.exc, h.threw⟩

lemma setExc (h : c.Plain) : (c.setExc j false).Plain := by
  refine ⟨h.exns, fun i => ?_, h.threw⟩
  rw [Air.setExc]
  simp only [Function.update_apply]
  split_ifs
  · rfl
  · exact h.exc i

lemma setStage (h : c.Plain) (g : Stage) : (c.setStage t g).Plain := by
  refine ⟨h.exns, h.exc, fun u x hx => ?_⟩
  rw [Air.setStage, Air.mapExec] at hx
  simp only [Function.update_apply] at hx
  split_ifs at hx with hu
  · obtain ⟨y, hy, rfl⟩ := Option.map_eq_some_iff.mp hx
    exact h.threw t y hy
  · exact h.threw u x hx

lemma take (h : c.Plain) {x : Exec} (hx : x.threw = false) : (c.take t x).Plain := by
  refine ⟨h.exns, h.exc, fun u y hy => ?_⟩
  rw [Air.take] at hy
  simp only [Function.update_apply] at hy
  split_ifs at hy with hu
  · obtain rfl := Option.some_injective _ hy
    exact hx
  · exact h.threw u y hy

lemma giveUp (h : c.Plain) : (c.giveUp t).Plain := by
  refine ⟨h.exns, h.exc, fun u y hy => ?_⟩
  rw [Air.giveUp] at hy
  simp only [Function.update_apply] at hy
  split_ifs at hy
  exact h.threw u y hy

end Plain

end Air

namespace Runtime

variable {s s' : Runtime} {a : Action}

lemma Gust.plain {c : Air} (h : s.Gust a c) (hO : s.Ordinary a) (hP : s.air.Plain)
    (hlive : c.terminated = false) : c.Plain := by
  cases h with
  | ends h why => cases h.symm.trans hlive
  | calm j ns he hq h => exact h ▸ hP.hear (Own.exns_hears hq)
  | place t i j ns x he hq ht hx h => exact h ▸ (hP.hear (Own.exns_hears hq)).place x
  | throw t j ns e he ht hf hn ho h =>
    rw [h]
    refine ((hP.setOwn ?_).place .user).addUncaught 1
    rw [own_air, hn, List.mem_cons]
    exact fun h => h.elim (fun h => ho hO h.symm) fun h => hP.exns j (Own.mem_exns_of_aside h)
  | catching t j x b he ht hf hx hb h =>
    have hb : b = false := by
      by_contra hn
      rcases hb (by simpa using hn) with h | h
      · cases (hP.exc j).symm.trans h
      · have hexns : (s.air.own j).exns = .other :: (s.air.own j).aside.reduceOption :=
          Own.exns_of_flight h
        exact hP.exns j (hexns ▸ List.mem_cons_self)
    rw [h, hb]
    have hn : .other ∉ ((s.air.own j).hears [.catches]).exns := by
      rw [Own.hears_cons, Own.hears_nil, Own.exns_of_no_flight rfl]
      exact fun h => hP.exns j (Own.mem_exns_of_aside h)
    exact (((hP.setOwn hn).place x).setExc).addUncaught (-1)
  | shift t j n he ht hn h => exact h ▸ hP.hear hn
  | away t i j ns x he hq ht hf h => exact h ▸ ((hP.hear (Own.exns_hears hq)).place x).setStage _
  | save t j he ht h =>
    have hx : (s.journey j).coro.exc = false := hP.exc j
    rw [h, if_neg (by simp [hx])]
    exact hP.setStage _
  | stage t x g he hx hs hg h => exact h ▸ hP.setStage g
  | take t k x b he hk hb h =>
    have hb : b = false := by
      by_contra hn
      have : (s.journey k.journey).coro.exc = false := hP.exc _
      cases this.symm.trans (hb (by simpa using hn))
    rw [h, hb]
    exact ((hP.take rfl).place x).setExc
  | giveUp t x he hx hs hw h => exact h ▸ hP.giveUp

/-- The destructors let an event out. -/
lemma terminated_of_not_quiet (h : Rule s a s') (hC : ¬ s.ScopesEndQuietly a) :
    s'.terminated = true := by
  cases h with
  | poll t j k h =>
    have hd : (s.journey j).events.Deliverable (s.uncaught t) := not_not.mp hC
    rw [poll, handleEvents_of_deliverable hd]
    rfl
  | leave t j op h =>
    unfold ScopesEndQuietly at hC
    simp only [scopeCall, call, h.2.2] at hC
    cases op with
    | teleport c =>
      cases c with
      | unportal src b =>
        have hd : (s.journey j).events.Deliverable (s.uncaught t) := not_not.mp hC
        rw [leave, handleEvents_of_deliverable hd]
        rfl
      | _ => exact absurd trivial hC
    | _ => exact absurd trivial hC
  | closeScope t j f fs h hf =>
    have hj : (s.mapJourney j fun x => { x with frames := fs }).journey j =
        { s.journey j with frames := fs } := by simp [mapJourney]
    simp only [ScopesEndQuietly, scopeCall, call, hf] at hC
    cases f with
    | portal src b =>
      by_cases hne : src = (s.journey j).sched
      · simp only [if_pos hne] at hC
        exact absurd trivial hC
      · simp only [if_neg hne] at hC
        have hd : (s.journey j).events.Deliverable (s.uncaught t) := not_not.mp hC
        rw [closeScope, teleport, hj, if_neg hne, defer, handleEvents_of_deliverable]
        · rfl
        · refine (deliverable_congr ?_).mpr hd
          exact (air_mapJourney_of_eq rfl rfl rfl).trans (air_tail hf rfl)
    | timeout k => exact absurd trivial hC
    | guard =>
      rw [closeScope, closeGuard, handleEvents_of_deliverable]
      · rfl
      · have ha : (((s.mapJourney j fun x => { x with frames := fs }).allowEvents j).journey
            j).events = { (s.journey j).events with eventsAllowed := true } := by
          simp [allowEvents, mapJourney]
        rw [ha]
        exact not_not.mp hC
    | destructor e => exact absurd trivial hC
  | _ => exact absurd trivial hC

lemma inductive_plain : machine.Inductive Ordinary fun s => s.terminated = false → s.air.Plain where
  init s h := by
    obtain ⟨alone, rfl⟩ := h
    refine fun _ => ⟨fun j h => ?_, fun _ => rfl, fun _ _ => nofun⟩
    cases h
  step s a s' hP hO hs := (gust_of_rule (.of_step hs)).plain hO (hP (live_of_step hs))

/-- Nothing else ends the program. -/
lemma Gust.lives {c : Air} (h : s.Gust a c) (hC : s.ScopesEndQuietly a) (hO : s.Ordinary a)
    (hP : ∀ t j x, a = .finish t j → s.air.exec t = some x → x.threw = false)
    (hlive : s.terminated = false) : c.terminated = false := by
  cases h with
  | ends h why =>
    obtain ⟨t, j, x, ha, hx, hw⟩ := why hC hO
    cases (hP t j x ha hx).symm.trans hw
  | save t j he ht h =>
    rw [h]
    split_ifs <;> exact hlive
  | calm j ns he hq h => exact h ▸ hlive
  | place t i j ns x he hq ht hx h => exact h ▸ hlive
  | throw t j ns e he ht hf hn ho h => exact h ▸ hlive
  | catching t j x b he ht hf hx hb h => exact h ▸ hlive
  | shift t j n he ht hn h => exact h ▸ hlive
  | away t i j ns x he hq ht hf h => exact h ▸ hlive
  | stage t x g he hx hs hg h => exact h ▸ hlive
  | take t k x b he hk hb h => exact h ▸ hlive
  | giveUp t x he hx hs hw h => exact h ▸ hlive

instance (s : Runtime) (a : Action) : Decidable (s.Ordinary a) := by
  induction a using Action.casesOn with
  | throw t j e => exact inferInstanceAs (Decidable (_ ≠ _))
  | closeScope t j => exact inferInstanceAs (Decidable (_ → _))
  | exit t j fails => exact inferInstanceAs (Decidable (_ = _))
  | launch t j =>
    dsimp only [Ordinary]
    induction s.stage t j using Option.casesOn with
    | none => exact .isTrue trivial
    | some g => induction g using Stage.casesOn <;> infer_instance
  | _ => exact .isTrue trivial

instance (s : Runtime) (a : Action) : Decidable (s.ScopesEndQuietly a) := by
  dsimp only [ScopesEndQuietly]
  induction s.scopeCall a using Option.casesOn with
  | none => exact .isTrue trivial
  | some x => exact inferInstanceAs (Decidable (¬ _))

/-- A program of such journeys goes on exactly as long as no destructor of a scope finds an event to
deliver. -/
lemma live_iff {s₀ : Runtime} {as : List Action} (h₀ : machine.init s₀)
    (hO : machine.Along Ordinary s₀ as) (h : machine.exec s₀ as = some s) :
    s.terminated = false ↔ machine.Along ScopesEndQuietly s₀ as := by
  refine Machine.holds_iff_along (fun _ _ _ => live_of_step) (fun s a s' hr hO hs => ?_)
    (.init h₀) ?_ hO h
  · have hrule := Rule.of_step hs
    constructor
    · intro hlive
      by_contra hC
      cases hlive.symm.trans (terminated_of_not_quiet hrule hC)
    · intro hC
      have hlive := live_of_step hs
      exact (gust_of_rule hrule).lives hC hO
        (fun t _ x _ => (inductive_plain.holds hr hlive).threw t x) hlive
  · obtain ⟨alone, rfl⟩ := h₀
    rfl

/-! ### What becomes of the events -/

/-- When a scope ends, no event is pending, or events are not allowed, or the journey is unwinding
and its thread counts an exception. -/
def ScopesEndIdle (s : Runtime) (a : Action) : Prop :=
  match s.scopeCall a with
  | some (t, j, p) => (s.journey j).events.gr.status = .normal ∨
    (p.before (s.journey j).events).eventsAllowed = false ∨ s.Unwinding j ∧ s.uncaught t = true
  | none           => True

/-- An event that is pending when a scope ends normally is thrown into the code of the journey,
which may catch it. Where events are not allowed, it stays pending. -/
def EventsReach (s : Runtime) (a : Action) : Prop :=
  match s.scopeCall a with
  | some (_, j, p) => ¬ s.Unwinding j → (s.journey j).events.gr.status ≠ .normal →
    ∀ s' ∈ step s a,
      if (p.before (s.journey j).events).eventsAllowed then s'.terminated = false ∧
        (s'.journey j).ctx = .user ∧
        (s'.journey j).flight = some (.event ⟨(s.journey j).events.gr.status⟩)
      else s'.terminated = false ∧ (s'.journey j).events.gr = (s.journey j).events.gr
  | none           => True

instance (s : Runtime) (a : Action) : Decidable (s.ScopesEndIdle a) := by
  dsimp only [ScopesEndIdle]
  induction s.scopeCall a using Option.casesOn with
  | none => exact .isTrue trivial
  | some x => exact inferInstanceAs (Decidable (_ ∨ _))

instance (s : Runtime) (a : Action) : Decidable (s.EventsReach a) := by
  dsimp only [EventsReach]
  induction s.scopeCall a using Option.casesOn with
  | none => exact .isTrue trivial
  | some x => exact inferInstanceAs (Decidable (_ → _))

variable {t j : ℕ} {p : Poll}

lemma call_of_scopeCall (h : s.scopeCall a = some (t, j, p)) : s.call a = some (t, j, p) := by
  cases a with
  | poll u i => exact h
  | closeScope u i => exact h
  | leave u i =>
    simp only [scopeCall] at h
    split at h
    · exact h
    · cases h
  | _ => cases h

/-- The destructors do nothing after the call of `handleEvents` that could fail. -/
lemma ne_failing_of_scopeCall (h : s.scopeCall a = some (t, j, p)) : p ≠ .failing := by
  rintro rfl
  cases a with
  | poll u i => cases h
  | closeScope u i =>
    simp only [scopeCall, call] at h
    split at h
    · split_ifs at h
      cases h
    · cases h
    · cases h
  | leave u i =>
    simp only [scopeCall] at h
    split at h
    case h_1 src b hc =>
      simp only [call, hc, Fails] at h
      cases h
    case h_2 => cases h
  | _ => cases h

lemma ordinary_of_scopeCall (h : s.scopeCall a = some (t, j, p)) : s.Ordinary a := by
  cases a with
  | poll u i => trivial
  | closeScope u i =>
    intro hends
    simp only [endsDestructor] at hends
    split at hends
    case h_1 e fs hf =>
      simp only [scopeCall, call, hf] at h
      cases h
    case h_2 => cases hends
  | leave u i => trivial
  | _ => cases h

/-- A scope ends, and its destructor lets no event out. -/
lemma own_of_quiet (h : Rule s a s') (hlive : s.terminated = false)
    (hc : s.scopeCall a = some (t, j, p)) (hC : s.ScopesEndQuietly a) :
    s'.terminated = false ∧ (s'.journey j).own = (s.journey j).own.hear (.poll p none) := by
  have hgust := gust_of_rule h
  have hlive' : s'.terminated = false := by
    refine hgust.lives hC (ordinary_of_scopeCall hc) (fun t i x ha => ?_) hlive
    rw [ha] at hc
    cases hc
  have hd : ¬ (p.before (s.journey j).events).Deliverable (s.uncaught t) := by
    simpa only [ScopesEndQuietly, hc] using hC
  refine ⟨hlive', (hgust.own hlive' j).trans ?_⟩
  rw [notes_of_entry (entry_of_call (call_of_scopeCall hc)), if_pos rfl,
    outcome_of_not_deliverable hd]
  rfl

lemma quiet_and_reach_iff (hs : step s a = some s') :
    s.ScopesEndQuietly a ∧ s.EventsReach a ↔ s.ScopesEndIdle a := by
  cases hc : s.scopeCall a with
  | none => simp [ScopesEndQuietly, EventsReach, ScopesEndIdle, hc]
  | some x =>
    obtain ⟨t, j, p⟩ := x
    have hgr : (p.before (s.journey j).events).gr = (s.journey j).events.gr := by cases p <;> rfl
    have hquiet : s.ScopesEndQuietly a ↔
        ¬ (p.before (s.journey j).events).Deliverable (s.uncaught t) := by
      simp only [ScopesEndQuietly, hc]
    have hafter := own_of_quiet (.of_step hs) (live_of_step hs) hc
    simp only [EventsReach, ScopesEndIdle, hc]
    constructor
    · rintro ⟨hC, hreach⟩
      by_contra hn
      obtain ⟨hst, ha, hw⟩ : (s.journey j).events.gr.status ≠ .normal ∧
          (p.before (s.journey j).events).eventsAllowed = true ∧
          ¬ (s.Unwinding j ∧ s.uncaught t = true) := by simpa [not_or] using hn
      have hu : s.uncaught t = true := by
        by_contra hu
        exact hquiet.mp hC ⟨ha, by simpa using hu, hgr ▸ hst⟩
      -- the thread counts an exception that is not one of the journey
      have hj : ¬ s.Unwinding j := fun hj => hw ⟨hj, hu⟩
      have hthrown := hreach hj hst s' hs
      rw [if_pos ha] at hthrown
      have hflight : (s'.journey j).flight = (s.journey j).flight := by
        have hown := congrArg Own.flight (hafter hC).2
        exact hown.trans (if_neg (ne_failing_of_scopeCall hc))
      have hnone : (s.journey j).flight = none :=
        Own.no_flight_of_exns (o := (s.journey j).own) (not_not.mp hj)
      rw [hflight, hnone] at hthrown
      cases hthrown.2.2
    · intro hidle
      have hC : s.ScopesEndQuietly a := by
        rw [hquiet]
        rintro ⟨ha, hu, hst⟩
        rcases hidle with h | h | h
        · exact hst (hgr ▸ h)
        · cases ha.symm.trans h
        · cases hu.symm.trans h.2
      refine ⟨hC, fun hj hst u hu => ?_⟩
      obtain rfl := Option.some_injective _ (hs.symm.trans hu)
      have ha : (p.before (s.journey j).events).eventsAllowed = false :=
        (hidle.resolve_left hst).resolve_right fun h => hj h.1
      rw [ha, if_neg Bool.false_ne_true]
      refine ⟨(hafter hC).1, ?_⟩
      have hown := congrArg (fun o : Own => o.events.gr) (hafter hC).2
      refine hown.trans ?_
      cases p <;> rfl

/-- Along a run of such journeys, `std::terminate` is not called and each event that is pending when
a scope ends normally reaches its journey, exactly if no scope ends with an event to deliver. -/
theorem not_terminated_iff {s₀ : Runtime} {as : List Action} (h₀ : machine.init s₀)
    (hO : machine.Along Ordinary s₀ as) (h : machine.exec s₀ as = some s) :
    s.terminated = false ∧ machine.Along EventsReach s₀ as ↔
      machine.Along ScopesEndIdle s₀ as := by
  rw [live_iff h₀ hO h, ← Machine.along_and]
  exact Machine.along_iff (fun _ _ _ _ hs => quiet_and_reach_iff hs) (.init h₀) h

/-- An event is set while a guard is open, and one more by a timer; both are heard in time. -/
def heardInside : List Action :=
  [.go 0 (some 1), .dispatch 0 ⟨1, 1, true⟩, .timeout 0 1, .guard 0 1, .closeScope 0 1, .expire 0,
    .callback 0, .handleEvents 0 1, .closeScope 0 1, .poll 0 1, .catching 0 1]

theorem not_terminated_heardInside : ∃ s, machine.exec {} heardInside = some s ∧
    s.terminated = false ∧ machine.Along EventsReach {} heardInside :=
  have he : machine.exec {} heardInside = some _ := rfl
  ⟨_, he, (not_terminated_iff ⟨_, rfl⟩ (by decide) he).mpr (by decide)⟩

/-- The timer fires before the scope of the timeout ends. -/
def pendingAtTimeout : List Action :=
  [.go 0 (some 1), .dispatch 0 ⟨1, 1, true⟩, .timeout 0 1, .expire 0, .callback 0, .closeScope 0 1,
    .poll 0 1]

/-- The journey is cancelled behind the portal. -/
def pendingAtPortal : List Action :=
  [.go 0 (some 1), .dispatch 0 ⟨1, 1, true⟩, .portal 0 1 2, .jump 0 1, .exit 0 1 false, .finish 0 1,
    .dispatch 1 ⟨2, 1, false⟩, .leave 1 1, .cancel 1, .closeScope 1 1]

/-- The journey is cancelled under the guard. -/
def pendingAtGuard : List Action :=
  [.go 0 (some 1), .dispatch 0 ⟨1, 1, true⟩, .guard 0 1, .cancel 1, .closeScope 0 1]

/-- A thread counts the exception that has led journey 2 out of a portal to another thread. The
timer of journey 1 fires there before the scope of its timeout ends. -/
def deafTimeout : List Action :=
  [.go 0 (some 2), .go 0 (some 1), .dispatch 0 ⟨1, 2, true⟩, .portal 0 2 2, .jump 0 2,
    .exit 0 2 false, .finish 0 2, .dispatch 1 ⟨2, 2, false⟩, .leave 1 2, .throw 1 2 .std,
    .closeScope 1 2, .jump 1 2, .exit 1 2 false, .finish 1 2, .dispatch 1 ⟨2, 1, true⟩,
    .timeout 1 1, .expire 0, .callback 0, .closeScope 1 1, .poll 1 1]

theorem terminated_of_pending :
    (¬ ∀ (s₀ s : Runtime) (as : List Action), machine.init s₀ → machine.Along Ordinary s₀ as →
      machine.exec s₀ as = some s → s.terminated = false ∧ machine.Along EventsReach s₀ as) ∧
    (∀ as ∈ [pendingAtTimeout, pendingAtPortal, pendingAtGuard], machine.Along Ordinary {} as ∧
      ∃ s, machine.exec {} as = some s ∧ s.terminated = true) ∧
    machine.Along Ordinary {} deafTimeout ∧ ¬ machine.Along EventsReach {} deafTimeout ∧
      ∃ s, machine.exec {} deafTimeout = some s ∧ s.terminated = false := by
  have hrun : ∀ as ∈ [pendingAtTimeout, pendingAtPortal, pendingAtGuard],
      machine.Along Ordinary {} as ∧ ∃ s, machine.exec {} as = some s ∧ s.terminated = true := by
    intro as ha
    simp only [List.mem_cons, List.not_mem_nil, or_false] at ha
    obtain rfl | rfl | rfl := ha
    · exact ⟨by decide, _, rfl, rfl⟩
    · exact ⟨by decide, _, rfl, rfl⟩
    · exact ⟨by decide, _, rfl, rfl⟩
  refine ⟨fun h => ?_, hrun, by decide, by decide, _, rfl, rfl⟩
  obtain ⟨hO, s, he, ht⟩ := hrun pendingAtTimeout (by simp)
  cases (h {} s _ ⟨_, rfl⟩ hO he).1.symm.trans ht

end Runtime

end Synca
