import Synca.Relay.Rides
import Synca.Runtime.Resumption

/-!
# A journey runs where it says it runs

`teleport` sets the scheduler of the journey before `defer` can throw. If no `teleport` throws
there, a journey that executes user code does so on the scheduler that `scheduler()` returns, and
the journeys of a strand take turns.
-/

namespace Synca

open Transition Relay

namespace Runtime

variable {s s' : Runtime} {t j : ℕ} {stray : Prop} {a : Action} {c c' : Relay}

/-- Thread `t` executes user code of journey `j`. -/
def InUser (s : Runtime) (t j : ℕ) : Prop :=
  s.stage t j = some .running ∧ (s.journey j).ctx = .user

/-- No `teleport` to another scheduler finds an event that `handleEvents` would throw. -/
def TeleportsQuietly (s : Runtime) : Action → Prop
  | .request t j (.teleport d) =>
    d = (s.journey j).sched ∨ ¬ (s.journey j).events.Deliverable (s.uncaught t)
  | .portal t j d              =>
    d = (s.journey j).sched ∨ ¬ (s.journey j).events.Deliverable (s.uncaught t)
  | _                          => True

instance (s : Runtime) (a : Action) : Decidable (s.TeleportsQuietly a) := by
  induction a using Action.casesOn with
  | request t j r => induction r using Request.casesOn with
    | teleport d => exact inferInstanceAs (Decidable (_ ∨ _))
    | _ => exact .isTrue trivial
  | portal t j d => exact inferInstanceAs (Decidable (_ ∨ _))
  | _ => exact .isTrue trivial

/-! ### What holds on every run -/

lemma rides_of_hops (hS : c.Sound) (h : Hops stray c c') (hH : c.HasStrand) (hB : c.BackOn) :
    c'.HasStrand ∧ c'.BackOn := by
  induction h with
  | refl => exact ⟨hH, hB⟩
  | tail hs hh ih =>
    have hS' := hS.hops hs
    have hr := hh.ride hS'.lives hS'.waits
    exact ⟨hr.hasStrand ih.1, hr.backOn hS'.lives ih.2⟩

lemma inductive_rides : machine.Inductive (fun _ _ => True) fun s =>
    s.relay.Sound ∧ s.relay.HasStrand ∧ s.relay.BackOn := by
  refine inductive_sound.and (fun s h => ?_) ?_
  · obtain ⟨alone, rfl⟩ := h
    exact ⟨nofun, nofun⟩
  · intro s a s' hS hR _ hs
    exact rides_of_hops hS (hops_of_rule (.of_step hs)) hR.1 hR.2

/-! ### On schedule -/

lemma onSchedule_of_hops (hS : c.Sound) (h : Hops False c c') (hO : c.OnSchedule) :
    c'.OnSchedule := by
  induction h with
  | refl => exact hO
  | tail hs hh ih =>
    have hS' := hS.hops hs
    exact (hh.ride hS'.lives hS'.waits).onSchedule hS'.lives ih

/-- The destructor of a portal that would let an event out ends the program. -/
lemma terminated_of_strays (h : Rule s (.closeScope t j) s') (hst : s.Strays (.closeScope t j)) :
    s'.terminated = true := by
  cases h with
  | closeScope t j f fs h hf =>
    simp only [Strays, hf] at hst
    cases f with
    | timeout k => cases hst
    | guard => cases hst
    | destructor e => cases hst
    | portal src b =>
      obtain ⟨hne, hdel⟩ := hst
      set s₁ := s.mapJourney j fun x => { x with frames := fs } with hs₁
      have hj : s₁.journey j = { s.journey j with frames := fs } := by simp [hs₁, mapJourney]
      set s₂ := s₁.mapJourney j fun x => { x with sched := src } with hs₂
      have hj₂ : s₂.journey j = { s.journey j with frames := fs, sched := src } := by
        simp [hs₂, mapJourney, hs₁]
      have hdel' : (s₂.journey j).events.Deliverable (s₂.uncaught t) := by
        rw [hj₂]
        exact hdel
      rw [closeScope, teleport, if_neg (by rw [hj]; exact hne), defer,
        handleEvents_of_deliverable hdel']
      rfl

lemma inductive_onSchedule : machine.Inductive TeleportsQuietly fun s =>
    s.relay.Sound ∧ (s.terminated = false → s.relay.OnSchedule) := by
  refine (inductive_sound.mono fun _ _ _ => trivial).and (fun s h => ?_) ?_
  · obtain ⟨alone, rfl⟩ := h
    exact fun _ => nofun
  · intro s a s' hS hO hC hs hlive
    have hrule := Rule.of_step hs
    have hlive' : s.terminated = false := live_of_step hs
    by_cases hst : s.Strays a
    · have hterm : s'.terminated = true := by
        cases a with
        | request t j r =>
          cases r with
          | teleport d => exact absurd hst fun h => hC.elim h.1 fun hn => hn h.2
          | _ => cases hst
        | portal t j d => exact absurd hst fun h => hC.elim h.1 fun hn => hn h.2
        | closeScope t j => exact terminated_of_strays hrule hst
        | _ => cases hst
      cases hterm.symm.trans hlive
    · have hh := hops_of_rule hrule
      rw [eq_false hst] at hh
      exact onSchedule_of_hops hS hh (hO hlive')

/-- Along the runs in which no `teleport` throws before the switch, a journey that executes user
code does so on the scheduler it names, and of the journeys that name a strand one at most does. -/
theorem via_eq_sched (h : machine.ReachableBy TeleportsQuietly s) (hlive : s.terminated = false) :
    (∀ t j, s.InUser t j → s.via t = (s.journey j).sched) ∧
    ∀ t t' j j', s.InUser t j → s.InUser t' j' → (s.journey j).sched = (s.journey j').sched →
      s.alone (s.journey j).sched = true → j = j' := by
  have hO := (inductive_onSchedule.holds h).2 hlive
  have hH := (inductive_rides.holds h.reachable).2.1
  have hvia : ∀ t j, s.InUser t j → s.via t = (s.journey j).sched := by
    intro t j hu
    obtain ⟨x, hx, rfl, hg⟩ := exec_of_stage hu.1
    rw [via_of_exec hx]
    exact hO t x hx hg
  refine ⟨hvia, fun t t' j j' hu hu' hs ha => ?_⟩
  obtain ⟨x, hx, rfl, hg⟩ := exec_of_stage hu.1
  obtain ⟨x', hx', rfl, hg'⟩ := exec_of_stage hu'.1
  have hxv : x.via = (s.journey x.journey).sched := hO t x hx hg
  have hxv' : x'.via = (s.journey x'.journey).sched := hO t' x' hx' hg'
  -- both threads have the strand
  have hst := hH t x hx (by rw [hxv]; exact ha)
  have hst' := hH t' x' hx' (by rw [hxv', ← hs]; exact ha)
  rw [hxv] at hst
  rw [hxv', ← hs, hst] at hst'
  obtain rfl := Option.some_injective _ hst'
  obtain rfl := Option.some_injective _ (hx.symm.trans hx')
  rfl

/-- A journey teleports to a strand; another one waits there for its turn. -/
def visitStrand : List Action :=
  [.go 0 (some 1), .go 0 (some 2), .dispatch 0 ⟨1, 1, true⟩, .request 0 1 (.teleport 2), .jump 0 1,
    .exit 0 1 false, .finish 0 1, .dispatch 1 ⟨2, 1, false⟩, .leave 1 1]

theorem via_visitStrand : ∃ s, machine.exec { alone := fun d => d == 2 } visitStrand = some s ∧
    s.InUser 1 1 ∧ s.alone 2 = true ∧ s.via 1 = (s.journey 1).sched :=
  have he : machine.exec { alone := fun d => d == 2 } visitStrand = some _ := rfl
  ⟨_, he, ⟨rfl, rfl⟩, rfl,
    (via_eq_sched (.exec (.init ⟨_, rfl⟩) (by decide) he) rfl).1 1 1 ⟨rfl, rfl⟩⟩

/-- The journey is cancelled, teleports and catches the exception. -/
def cancelledTeleport : List Action :=
  [.go 0 (some 1), .dispatch 0 ⟨1, 1, true⟩, .cancel 1, .request 0 1 (.teleport 2), .catching 0 1]

/-- It goes on where it was, and `scheduler()` returns the destination. -/
theorem via_ne_sched : ¬ ∀ s, machine.Reachable s → s.terminated = false →
    ∀ t j, s.InUser t j → s.via t = (s.journey j).sched := by
  intro h
  have hr := Machine.Reachable.of_exec (M := machine) (s := {}) ⟨_, rfl⟩
    (show machine.exec {} cancelledTeleport = some _ from rfl)
  exact absurd (h _ hr rfl 0 1 ⟨rfl, rfl⟩) (by decide)

end Runtime

end Synca
