import Synca.Runtime.Faults
import Synca.Runtime.Operations

/-!
# Failing operations

The deferred handler runs in a destructor, on the far side of the context switch. What its operation
reports later reaches the caller: the callback stores the error and proceeds the journey, and
`deferIo` throws when it is back. What the handler itself throws reaches nobody.
-/

namespace Synca

open Transition Relay

namespace Runtime

variable {s s' u : Runtime} {t j i : ℕ} {a : Action}

/-- The journey of an operation that has failed is resumed with no event to deliver. -/
def FailsUndisturbed (s : Runtime) : Action → Prop
  | .leave t j => match (s.journey j).ctx with
    | .resumed (.deferIo i) => (s.io i).error = true →
      ¬ (s.journey j).events.Deliverable (s.uncaught t)
    | _                     => True
  | _          => True

/-- What a deferred operation owes to its caller in the step from `s` to `s'`. The operations of
`Socket`, `Acceptor` and `Resolver` are calls of `deferIo`. -/
structure Reports (s : Runtime) (a : Action) (s' : Runtime) : Prop where
  /-- Nothing leaves `~CoroGuard`. -/
  quiet : (∀ t j fails, a = .exit t j fails → s'.terminated = false) ∧
    ∀ t j, a = .launch t j → s'.terminated = false
  waits : ∀ j i, (s.journey j).ctx = .yielded (.deferIo i) →
    (s.journey j).deferHandler = some (.startIo i) ∨ (s.io i).pending = true ∨
    (s.journey j).log.getLast? = some .proceed
  completes : ∀ i error, a = .complete i error →
    (s.journey (s.io i).owner).ctx = .yielded (.deferIo i) ∧
    Life.absent.after (s.journey (s.io i).owner).log = some .suspended ∧
    (s'.journey (s.io i).owner).log = (s.journey (s.io i).owner).log ++ [.proceed] ∧
    s'.io i = { s.io i with pending := false, error := error } ∧ s'.Spent i
  keeps : ∀ i, s.Spent i → s'.Spent i ∧ s'.io i = s.io i
  stays : ∀ j i, s.Awaits j i → s'.Awaits j i ∨ ∃ t, a = .leave t j
  once : ∀ j i, s.Awaits j i → s.Spent i →
    (s'.journey j).log.count .proceed = (s.journey j).log.count .proceed
  throws : ∀ t j i, a = .leave t j → (s.journey j).ctx = .resumed (.deferIo i) →
    (s.io i).error = true → (s'.journey j).ctx = .user ∧ (s'.journey j).flight = some .std

/-- Journey `j`, proceeded by the failed operation `i`, is still in the call after the actions, or
it has left it with the failure. It was not proceeded again meanwhile. -/
def Receives (s : Runtime) (j i : ℕ) (as : List Action) : Prop :=
  (∀ u, machine.exec s as = some u → u.Awaits j i ∧
    (u.journey j).log.count .proceed = (s.journey j).log.count .proceed) ∨
  ∃ bs t cs u u', as = bs ++ .leave t j :: cs ∧ machine.exec s bs = some u ∧
    step u (.leave t j) = some u' ∧ (u'.journey j).flight = some .std ∧
    (u'.journey j).ctx = .user ∧
    (u'.journey j).log.count .proceed = (s.journey j).log.count .proceed

/-! ### Once -/

lemma step_once (hG : s.Grouped) (hW : s.Wired) (hR : Rule s a s') (h : s.Awaits j i)
    (hs : s.Spent i) : (s'.journey j).log.count .proceed = (s.journey j).log.count .proceed := by
  have hD := deed_of_rule hG.sound hR
  have hS' := hG.sound.hops (hops_of_rule hR)
  have hnil : ∀ {es : List LifeEvent}, (s'.journey j).log = (s.journey j).log ++ es →
      es = [] ∨ es = [.resume] →
      (s'.journey j).log.count .proceed = (s.journey j).log.count .proceed := by
    rintro es hlog (rfl | rfl) <;> simp [hlog]
  rcases h with hc | hc
  · have hlast : (s.journey j).log.getLast? = some .proceed := by
      rcases hW.waits j i hc with h | h | h
      · exact absurd h (hs.handler j)
      · cases hs.done.symm.trans h
      · exact h
    obtain ⟨l, hlead⟩ := hG.sound.lives.leads j
    obtain rfl : l = .proceeded := (Life.proceeded_iff hlead.after).mpr hlast
    obtain ⟨es, l', hlog, hr, hafter⟩ := after_of_deed hS' hD hlead
    refine hnil hlog ?_
    by_cases hm : LifeEvent.resume ∈ es
    · exact .inr (hr hm).1
    · exact .inl (Life.proceeded_after hafter hm)
  · have hlead := running_of_resumed hG hW hc
    have hctx' : (s'.journey j).ctx ≠ .ended ∧ ∀ op, (s'.journey j).ctx ≠ .yielded op := by
      have hctx : ∀ {m : Member}, s'.bare j = m → (s'.journey j).ctx = m.ctx :=
        fun h => congrArg Member.ctx h
      cases memberTurn_of_deed hG.sound hD j with
      | same h | creates _ h | launches _ _ _ _ _ _ _ _ h | answers _ _ _ h =>
        simp [(hctx h).trans hc]
      | goes x hx _ h =>
        rw [hctx h]
        rcases hx with rfl | ⟨k, rfl⟩ <;> simp
      | starts hl _ =>
        cases Option.some_injective _ (hl.after.symm.trans hlead.after)
      | yields _ hc' _ _ | leaves _ _ _ hc' _ | resumes _ _ hc' _ | closes _ _ _ hc' _
      | ends hc' _ => cases hc.symm.trans hc'
    obtain ⟨es, hlog, hr, hf⟩ := log_of_deed hD j
    obtain ⟨es', l', hlog', -, hafter⟩ := after_of_deed hS' hD hlead
    obtain rfl : es = es' := List.append_cancel_left (hlog.symm.trans hlog')
    refine hnil hlog ?_
    by_cases hm : LifeEvent.resume ∈ es
    · exact .inr (hr hm).1
    · refine .inl (Life.running_after hafter hm (fun h => hctx'.1 (hf h)) ?_)
      obtain ⟨l, hlead'⟩ := hS'.lives.leads j
      have hold : Life.absent.after (s.journey j).log = some .running := hlead.after
      have hnew : Life.absent.after (s'.journey j).log = some l := hlead'.after
      rw [hlog, Life.after_append_eq, hold, Option.bind_some, hafter] at hnew
      obtain rfl := Option.some_injective _ hnew
      by_contra hn
      have hplace := hlead'.fits.away.mpr (by simpa using hn)
      have hplace : (s'.journey j).ctx.whereabouts = .away := hplace
      cases hc' : (s'.journey j).ctx with
      | yielded op => exact hctx'.2 op hc'
      | _ => simp [hc', Ctx.whereabouts] at hplace

/-! ### The steps -/

lemma step_completes (hG : s.Grouped) (hW : s.Wired) {e : Bool} (hR : Rule s (.complete i e) s') :
    (s.journey (s.io i).owner).ctx = .yielded (.deferIo i) ∧
    Life.absent.after (s.journey (s.io i).owner).log = some .suspended ∧
    (s'.journey (s.io i).owner).log = (s.journey (s.io i).owner).log ++ [.proceed] ∧
    s'.io i = { s.io i with pending := false, error := e } ∧ s'.Spent i := by
  have hlog := log_complete hR
  have hU := Undone.hops hG.sound (hops_of_rule hR)
  cases hR with
  | complete _ _ hp =>
    have hc := hW.armed i hp
    have hi := (hW.call _ i (.inl hc)).1
    obtain ⟨l, hlead, hl⟩ := hG.sound.lives.leads_at (Wired.at_errand hp)
    obtain ⟨rfl, -⟩ := hl
    have hio : (s.complete i e).io i = { s.io i with pending := false, error := e } := by
      simp [complete, proceed, record, schedule0, mapJourney, mapIo]
    refine ⟨hc, hlead.after, hlog, hio, hi, by rw [hio], fun j hd => ?_⟩
    rcases hU.starts j i hd with hold | hle
    · have hnp : (s.io i).pending = false := (hG.sound.waits.prepared j _ hold).2.2
      cases hp.symm.trans hnp
    · exact absurd hi (Nat.not_lt.mpr hle)

lemma step_throws (hc : (s.journey j).ctx = .resumed (.deferIo i)) (he : (s.io i).error = true)
    (hR : Rule s (.leave t j) s') : (s'.journey j).ctx = .user ∧
      ((s'.journey j).flight = some .std ↔ s.FailsUndisturbed (.leave t j)) := by
  simp only [FailsUndisturbed, hc, he, forall_const]
  cases hR with
  | leave _ _ op h =>
    obtain rfl := Ctx.resumed.inj (h.2.2.symm.trans hc)
    unfold leave
    by_cases hd : (s.journey j).events.Deliverable (s.uncaught t)
    · rw [handleEvents_of_deliverable hd]
      simp [throwFrom, fly, mapJourney, hd]
    · rw [handleEvents_of_not_deliverable hd]
      simp [he, throwFrom, fly, mapJourney, hd]

theorem reports_iff (hG : s.Grouped) (hW : s.Wired) (hs : step s a = some s') :
    s.Reports a s' ↔ s.DeferredStarts a ∧ s.FailsUndisturbed a := by
  have hR := Rule.of_step hs
  have hlive := live_of_step hs
  constructor
  · intro h
    refine ⟨?_, ?_⟩
    · by_contra hC
      have hterm := terminated_of_not_starts hR hC
      cases a with
      | exit t j fails => cases (h.quiet.1 t j fails rfl).symm.trans hterm
      | launch t j => cases (h.quiet.2 t j rfl).symm.trans hterm
      | _ => exact hC trivial
    · cases a with
      | leave t j =>
        simp only [FailsUndisturbed]
        split
        · rename_i i hc
          intro he
          have hthrows := ((step_throws hc he hR).2.mp (h.throws t j i rfl hc he).2)
          simp only [FailsUndisturbed, hc] at hthrows
          exact hthrows he
        · trivial
      | _ => trivial
  · rintro ⟨hD, hF⟩
    refine ⟨⟨?_, ?_⟩, hW.waits, ?_, ?_, ?_, ?_, ?_⟩
    · rintro t j fails rfl
      cases hR with
      | exit _ _ _ h => exact lives_of_exit hD hlive
    · rintro t j rfl
      cases hR with
      | launch _ _ k h => exact lives_of_launch h hD hlive
    · rintro i e rfl
      exact step_completes hG hW hR
    · exact fun i h => spent_of_course hG.sound hR h
    · exact fun j i h => awaits_of_rule hG hW hR h
    · exact fun j i h hs => step_once hG hW hR h hs
    · rintro t j i rfl hc he
      have hthrows := step_throws hc he hR
      exact ⟨hthrows.1, hthrows.2.mpr hF⟩

/-! ### Runs -/

lemma receives_of_along (hr : machine.Reachable s) (ha : s.Awaits j i) (hi : s.Spent i)
    (he : (s.io i).error = true) {as : List Action} (hF : machine.Along FailsUndisturbed s as) :
    s.Receives j i as := by
  induction as generalizing s with
  | nil =>
    refine .inl fun u hu => ?_
    obtain rfl : s = u := Option.some_injective _ hu
    exact ⟨ha, rfl⟩
  | cons a as ih =>
    obtain ⟨hG, hW⟩ := inductive_wired.holds hr
    rw [Machine.along_cons] at hF
    by_cases hs : ∃ s', step s a = some s'
    · obtain ⟨s', hs⟩ := hs
      have hR := Rule.of_step hs
      obtain ⟨hi', hio⟩ := spent_of_course hG.sound hR hi
      have hcount := step_once hG hW hR ha hi
      rcases awaits_of_rule hG hW hR ha with ha' | ⟨t, rfl⟩
      · rcases ih (hr.step trivial hs) ha' hi' (hio ▸ he) (hF.2 s' hs) with h | h
        · refine .inl fun u hu => ?_
          have hu : machine.exec s' as = some u := by
            obtain ⟨v, hv, hu⟩ := Option.bind_eq_some_iff.mp hu
            obtain rfl : s' = v := Option.some_injective _ (hs.symm.trans hv)
            exact hu
          exact ⟨(h u hu).1, (h u hu).2.trans hcount⟩
        · obtain ⟨bs, t, cs, u, u', rfl, hu, hu', hf, hc, hn⟩ := h
          refine .inr ⟨a :: bs, t, cs, u, u', rfl, ?_, hu', hf, hc, hn.trans hcount⟩
          have hstep : machine.step s a = some s' := hs
          rw [Machine.exec_cons, hstep, Option.bind_some, hu]
      · have hc : (s.journey j).ctx = .resumed (.deferIo i) := by
          cases hR with
          | leave _ _ op h =>
            rcases ha with hc | hc
            · cases h.2.2.symm.trans hc
            · exact hc
        have hthrows := step_throws hc he hR
        exact .inr ⟨[], t, as, s, s', rfl, rfl, hs, hthrows.2.mpr hF.1, hthrows.1, hcount⟩
    · refine .inl fun u hu => ?_
      obtain ⟨v, hv, -⟩ := Option.bind_eq_some_iff.mp hu
      exact absurd ⟨v, hv⟩ hs

/-- Every step of a run keeps what a deferred operation owes to its caller exactly if no deferred
handler throws in it and no failure meets an event. Then the failure of an operation reaches the
journey that waits for it, proceeded once, as an exception from the call. -/
theorem reported_of_starts {s₀ : Runtime} {as : List Action} (h₀ : machine.init s₀)
    (he : machine.exec s₀ as = some s) :
    (machine.Along (fun u a => ∀ u', step u a = some u' → u.Reports a u') s₀ as ↔
      machine.Along (fun u a => u.DeferredStarts a ∧ u.FailsUndisturbed a) s₀ as) ∧
    ∀ i s', step s (.complete i true) = some s' → ∀ bs,
      machine.Along (fun u a => u.DeferredStarts a ∧ u.FailsUndisturbed a) s' bs →
        s'.Receives (s.io i).owner i bs := by
  refine ⟨?_, fun i s' hs bs hF => ?_⟩
  · refine Machine.along_iff (fun u a u' hr hu => ?_) (.init h₀) he
    obtain ⟨hG, hW⟩ := inductive_wired.holds hr
    have hu : step u a = some u' := hu
    rw [← reports_iff hG hW hu]
    exact ⟨fun h => h u' hu, fun h v hv => Option.some_injective _ (hu.symm.trans hv) ▸ h⟩
  · have hr : machine.Reachable s := .of_exec h₀ he
    obtain ⟨hG, hW⟩ := inductive_wired.holds hr
    have hR := Rule.of_step hs
    obtain ⟨hc, -, -, hio, hi⟩ := step_completes hG hW hR
    have ha : s'.Awaits (s.io i).owner i := by
      rcases awaits_of_rule hG hW hR (.inl hc) with h | ⟨t, h⟩
      · exact h
      · cases h
    refine receives_of_along (hr.step trivial hs) ha hi (by rw [hio]) ?_
    exact Machine.Along.mono (fun _ _ h => h.2) hF

instance (s : Runtime) (a : Action) : Decidable (s.DeferredStarts a) := by
  induction a using Action.casesOn with
  | exit t j fails =>
    refine decidable_of_iff (∀ h ∈ (s.journey j).deferHandler, h.startsIo = true → fails = false) ?_
    simp [DeferredStarts]
  | launch t j =>
    unfold DeferredStarts
    dsimp only
    split <;> infer_instance
  | _ => exact .isTrue trivial

instance (s : Runtime) (a : Action) : Decidable (s.FailsUndisturbed a) := by
  induction a using Action.casesOn with
  | leave t j =>
    unfold FailsUndisturbed
    dsimp only
    split <;> infer_instance
  | _ => exact .isTrue trivial

/-- A journey connects to an address where nobody listens. -/
def refused : List Action :=
  [.go 0 (some 1), .dispatch 0 ⟨1, 1, true⟩, .request 0 1 .deferIo, .jump 0 1, .exit 0 1 false]

theorem reported_refused : ∃ s s' s'', machine.exec {} refused = some s ∧
    step s (.complete 0 true) = some s' ∧
    machine.exec s' [.dispatch 1 ⟨1, 1, false⟩, .leave 1 1] = some s'' ∧
    (s''.journey 1).flight = some .std ∧ s'.Receives 1 0 [.dispatch 1 ⟨1, 1, false⟩, .leave 1 1] :=
  have he : machine.exec {} refused = some _ := rfl
  ⟨_, _, _, he, rfl, rfl, rfl, (reported_of_starts ⟨_, rfl⟩ he).2 0 _ rfl _ (by decide)⟩

/-- A journey connects to an address that `from_string` does not accept. -/
def malformed : List Action :=
  [.go 0 (some 1), .dispatch 0 ⟨1, 1, true⟩, .request 0 1 .deferIo, .jump 0 1, .exit 0 1 true]

theorem not_reported_of_malformed : ¬ ∀ (s₀ s : Runtime) (as : List Action), machine.init s₀ →
    machine.exec s₀ as = some s →
    machine.Along (fun u a => ∀ u', step u a = some u' → u.Reports a u') s₀ as := by
  intro h
  have he : machine.exec {} malformed = some _ := rfl
  obtain ⟨-, -, -, -, hexit, -⟩ := h {} _ malformed ⟨_, rfl⟩ he
  cases (hexit _ rfl).quiet.1 0 1 true rfl

end Runtime

end Synca
