import Synca.Relay.Runs

/-!
# Where journeys execute

A task is posted to the scheduler that its journey names, so a journey that is started or resumed
executes there. It stays there as long as no `move` gives it another scheduler without a switch; and
a strand is on one thread at a time.
-/

namespace Synca

namespace Relay

variable {c c' c₁ : Relay} {t j k : ℕ} {stray : Prop}

/-- No journey begins to execute, and none changes its scheduler. -/
structure Steady (c c' : Relay) : Prop where
  running : ∀ t x, c'.exec t = some x → x.stage = .running → c.exec t = some x
  via : ∀ t x, c'.exec t = some x → ∃ y, c.exec t = some y ∧ y.via = x.via
  sched : ∀ j, (c'.runner j).sched = (c.runner j).sched
  back : ∀ j, (c'.runner j).place = .back → (c.runner j).place = .back
  alone : c'.alone = c.alone
  strand : c'.strand = c.strand

namespace Steady

lemma of_eq (hr : c'.runner = c.runner) (he : c'.exec = c.exec) (ha : c'.alone = c.alone)
    (hs : c'.strand = c.strand) : Steady c c' where
  running t x h _ := he ▸ h
  via t x h := ⟨x, he ▸ h, rfl⟩
  sched j := by rw [hr]
  back j := by rw [hr]; exact id
  alone := ha
  strand := hs

lemma trans (h : Steady c c') (h' : Steady c' c₁) : Steady c c₁ where
  running t x hx hg := h.running t x (h'.running t x hx hg) hg
  via t x hx := by
    obtain ⟨y, hy, hyx⟩ := h'.via t x hx
    obtain ⟨z, hz, hzy⟩ := h.via t y hy
    exact ⟨z, hz, hzy.trans hyx⟩
  sched j := (h'.sched j).trans (h.sched j)
  back j := h.back j ∘ h'.back j
  alone := h'.alone.trans h.alone
  strand := h'.strand.trans h.strand

lemma mapRunner {f : Runner → Runner} (hs : (f (c.runner j)).sched = (c.runner j).sched)
    (hb : (f (c.runner j)).place = .back → (c.runner j).place = .back) :
    Steady c (c.mapRunner j f) where
  running _ _ h _ := h
  via _ x h := ⟨x, h, rfl⟩
  sched i := by
    rw [runner_mapRunner]
    split_ifs with hi
    · rw [hs, hi]
    · rfl
  back i := by
    rw [runner_mapRunner]
    split_ifs with hi
    · rw [hi]
      exact hb
    · exact id
  alone := rfl
  strand := rfl

lemma mapExec {f : Exec → Exec} (hg : ∀ x, (f x).stage ≠ .running)
    (hv : ∀ x, (f x).via = x.via) : Steady c (c.mapExec t f) where
  running u x h hx := by
    rw [exec_mapExec] at h
    split_ifs at h with hu
    · obtain ⟨y, -, rfl⟩ := Option.map_eq_some_iff.mp h
      exact absurd hx (hg y)
    · exact h
  via u x h := by
    rw [exec_mapExec] at h
    split_ifs at h with hu
    · obtain ⟨y, hy, rfl⟩ := Option.map_eq_some_iff.mp h
      exact ⟨y, hu ▸ hy, (hv y).symm⟩
    · exact ⟨x, h, rfl⟩
  sched _ := rfl
  back _ := id
  alone := rfl
  strand := rfl

lemma setStage {g : Stage} (hg : g ≠ .running) : Steady c (c.setStage t g) :=
  mapExec (fun _ => hg) fun _ => rfl

lemma proceed (c : Relay) (j : ℕ) : Steady c (c.proceed j) :=
  (mapRunner rfl id : Steady c (c.record j .proceed)).trans (of_eq rfl rfl rfl rfl)

lemma yield (c : Relay) (t j : ℕ) (d : Deferred) : Steady c (c.yield t j d) :=
  (mapRunner rfl nofun : Steady c (c.mapRunner j fun r => { r with
    place := .away, deferHandler := some d, log := r.log ++ [.yield] })).trans (setStage nofun)

lemma bump (c : Relay) (k : ℕ) : Steady c (c.bump k) :=
  bump_induction (P := Steady c) (fun _ _ _ h => h.trans (of_eq rfl rfl rfl rfl))
    (fun _ j h => h.trans (proceed _ j)) (of_eq rfl rfl rfl rfl) k

lemma release (c : Relay) (k : ℕ) (h : Holder) : Steady c (c.release k h) :=
  release_induction (P := Steady c) (fun _ _ _ h => h.trans (of_eq rfl rfl rfl rfl))
    (fun _ j h => h.trans (proceed _ j)) (of_eq rfl rfl rfl rfl)

lemma answer (c : Relay) (t j : ℕ) (d : Deferred) : Steady c (c.answer t j d) := by
  cases d with
  | proceed => exact (proceed c j).trans (setStage nofun)
  | launch k =>
    exact (of_eq rfl rfl rfl rfl : Steady c (c.mapTeam k fun x =>
      { x with began := true, holders := [.loop] })).trans (setStage nofun)
  | setProceed w =>
    exact (of_eq rfl rfl rfl rfl : Steady c ((c.mapSeat w fun x =>
      { x with phase := .armed }).mapLine (c.seat w).channel fun x =>
        { x with mutex := none })).trans (setStage nofun)
  | startIo i =>
    exact (of_eq rfl rfl rfl rfl : Steady c (c.mapErrand i fun x =>
      { x with pending := true })).trans (setStage nofun)

lemma endCoro (c : Relay) (t j : ℕ) : Steady c (c.endCoro t j) :=
  (mapRunner rfl id : Steady c (c.mapRunner j fun r => { r with
    started := false, log := r.log ++ [.finish] })).trans (setStage nofun)

lemma delete (c : Relay) (t j : ℕ) : Steady c (c.delete t j) := by
  set c₁ := c.mapRunner j fun r => { r with alive := false, log := r.log ++ [.delete] }
  have h₁ : Steady c c₁ := mapRunner rfl id
  have h₂ : Steady c₁ { c₁ with destroyed := c.destroyed + 1 } := of_eq rfl rfl rfl rfl
  exact (h₁.trans h₂).trans (setStage (g := .finishing) nofun)

end Steady

/-! ### Strands -/

/-- A thread that executes a task of a strand has the strand. -/
def HasStrand (c : Relay) : Prop :=
  ∀ t x, c.exec t = some x → c.alone x.via = true → c.strand x.via = some t

/-- A journey that is back from a switch is on its scheduler. -/
def BackOn (c : Relay) : Prop :=
  ∀ t x, c.exec t = some x → x.stage = .running → (c.runner x.journey).place = .back →
    x.via = (c.runner x.journey).sched

/-- A journey that executes is on its scheduler. -/
def OnSchedule (c : Relay) : Prop :=
  ∀ t x, c.exec t = some x → x.stage = .running → x.via = (c.runner x.journey).sched

lemma Steady.hasStrand (h : Steady c c') (hH : c.HasStrand) : c'.HasStrand := by
  intro t x hx ha
  obtain ⟨y, hy, hv⟩ := h.via t x hx
  rw [h.strand, ← hv]
  exact hH t y hy (by rwa [hv, ← h.alone])

/-- The kinds of hops that matter here. -/
inductive Ride (stray : Prop) (c : Relay) : Relay → Prop where
  | steady {c' : Relay} (h : Steady c c') : Ride stray c c'
  | create (d : ℕ) (r : Option ℕ) {c' : Relay} (h : Steady (c.create d r) c') : Ride stray c c'
  | dispatch (t : ℕ) (x : Task) {c' : Relay} (ht : c.exec t = none) (hx : x ∈ c.posted)
      (hs : c.alone x.sched = true → c.strand x.sched = none) (he : c'.exec = (c.take t x).exec)
      (ha : c'.alone = c.alone) (hst : c'.strand = (c.take t x).strand)
      (hsched : ∀ j, (c'.runner j).sched = (c.runner j).sched)
      (hb : ∀ j, j ≠ x.journey → c'.runner j = c.runner j) : Ride stray c c'
  | move (hm : stray) (t j d : ℕ) (h : c.stage t j = some .running)
      (hp : (c.runner j).place = .here) : Ride stray c (c.move j d)
  | depart (t j d : ℕ) (h : c.stage t j = some .running) :
      Ride stray c ((c.move j d).yield t j .proceed)
  | giveUp (t : ℕ) (x : Exec) {c' : Relay} (hx : c.exec t = some x)
      (h : Steady (c.giveUp t x) c') : Ride stray c c'

lemma Hop.ride (hL : c.Lives) (hW : c.Waits) (h : Hop stray c c') : Ride stray c c' := by
  cases h with
  | create d => exact .create d none (.of_eq rfl rfl rfl rfl)
  | dispatch t x ht hx hs =>
    have htake : (c.take t x).runner = c.runner := rfl
    have hkeep : ∀ f : Runner → Runner,
        (f (c.runner x.journey)).sched = (c.runner x.journey).sched →
        (∀ j, (((c.take t x).mapRunner x.journey f).runner j).sched = (c.runner j).sched) ∧
        ∀ j, j ≠ x.journey → ((c.take t x).mapRunner x.journey f).runner j = c.runner j := by
      intro f hf
      refine ⟨fun j => ?_, fun j hj => ?_⟩
      · rw [runner_mapRunner, htake]
        split_ifs with hj
        · rw [hj, hf]
        · rfl
      · rw [runner_mapRunner, if_neg hj, htake]
    unfold Relay.dispatch
    split_ifs with hst
    · simp only [Relay.start, htake]
      rw [if_pos (hL.startable hx hst)]
      obtain ⟨hsched, hother⟩ := hkeep (fun r => { r with
        started := true, running := true, place := .here, log := r.log ++ [.start] }) rfl
      split
      · exact .dispatch t x ht hx hs rfl rfl rfl hsched hother
      · exact .dispatch t x ht hx hs rfl rfl rfl hsched hother
    · simp only [Relay.resume, htake]
      rw [if_pos (hL.resumable hx (by simpa using hst))]
      obtain ⟨hsched, hother⟩ := hkeep (fun r => { r with
        running := true, place := .back, log := r.log ++ [.resume] }) rfl
      exact .dispatch t x ht hx hs rfl rfl rfl hsched hother
  | leave t j h => exact .steady (.mapRunner rfl (by simp))
  | move hm t j d h hp => exact .move hm t j d h hp
  | depart t j d h => exact .depart t j d h
  | newTeam j kind => exact .steady (.of_eq rfl rfl rfl rfl)
  | newSeat j l hm => exact .steady (.of_eq rfl rfl rfl rfl)
  | newErrand j => exact .steady (.of_eq rfl rfl rfl rfl)
  | goGroup t j kind h =>
    exact .steady ((.of_eq rfl rfl rfl rfl : Steady c (c.newTeam j kind)).trans (.yield _ t j _))
  | get t j l h hm =>
    exact .steady ((.of_eq rfl rfl rfl rfl : Steady c (c.newSeat j l)).trans (.yield _ t j _))
  | deferIo t j h =>
    exact .steady ((.of_eq rfl rfl rfl rfl : Steady c (c.newErrand j)).trans (.yield _ t j _))
  | save t j threw h =>
    exact .steady ((.mapRunner rfl id : Steady c (c.mapRunner j fun r => { r with
      running := false, log := r.log ++ [.save] })).trans (.mapExec (by simp) fun _ => rfl))
  | delete t j h hd => exact .steady (.delete c t j)
  | answer t j d h hd =>
    exact .steady ((.mapRunner rfl id : Steady c (c.mapRunner j fun r =>
      { r with deferHandler := none })).trans (.answer _ t j d))
  | launch t j k d h => exact .create d (some k) (.of_eq rfl rfl rfl rfl)
  | endLoop t j k h =>
    exact .steady ((.setStage (by simp) : Steady c (c.setStage t .finishing)).trans
      (.release _ k _))
  | drop t x h hx => exact .giveUp t x h (.of_eq rfl rfl rfl rfl)
  | finish t k x h hx hs hr => exact .giveUp t x h (.release _ k _)
  | win t j k h hr hk => exact .steady (.bump c k)
  | endCoro t j h hr => exact .steady (.endCoro c t j)
  | endChild t j k h hr => exact .steady ((Steady.endCoro c t j).trans (.release _ k _))
  | pop t l w ws hm hl hh => exact .steady (.of_eq rfl rfl rfl rfl)
  | sweep t l hm hh => exact .steady (.of_eq rfl rfl rfl rfl)
  | fire t w ws h =>
    rw [hW.fire_eq h]
    exact .steady ((.of_eq rfl rfl rfl rfl : Steady c ((c.setHand t ws).mapSeat w fun x =>
      { x with phase := .fired })).trans (.proceed _ _))
  | complete i h =>
    exact .steady ((.of_eq rfl rfl rfl rfl : Steady c (c.mapErrand i fun x =>
      { x with pending := false })).trans (.proceed _ _))

/-! ### What rides keep -/

lemma strand_take (c : Relay) (t d : ℕ) (x : Task) : (c.take t x).strand d =
    if c.alone x.sched = true ∧ d = x.sched then some t else c.strand d := by
  show (if c.alone x.sched = true then Function.update c.strand x.sched (some t)
    else c.strand) d = _
  by_cases ha : c.alone x.sched = true
  · simp [ha, Function.update_apply]
  · simp [ha]

lemma strand_giveUp (c : Relay) (t d : ℕ) (x : Exec) : (c.giveUp t x).strand d =
    if c.alone x.via = true ∧ d = x.via then none else c.strand d := by
  show (if c.alone x.via = true then Function.update c.strand x.via none else c.strand) d = _
  by_cases ha : c.alone x.via = true
  · simp [ha, Function.update_apply]
  · simp [ha]

/-- A journey that executes was created before. -/
lemma Lives.journey_ne_next (hL : c.Lives) {x : Exec} (hx : c.exec t = some x)
    (hg : x.stage = .running) : x.journey ≠ c.created + 1 := by
  intro hj
  have hlead := hL.leads_running (stage_eq_some_iff.mpr ⟨x, hx, rfl, hg⟩)
  have := hL.exists_of_not_absent hlead.after nofun
  omega

lemma runner_create_of_ne {d : ℕ} {r : Option ℕ} (hj : j ≠ c.created + 1) :
    (c.create d r).runner j = c.runner j :=
  Function.update_of_ne hj _ _

/-- The journey of a posted task executes nowhere. -/
lemma Lives.journey_ne_posted (hL : c.Lives) {x : Exec} {y : Task} (hx : c.exec t = some x)
    (hg : x.stage = .running) (hy : y ∈ c.posted) : x.journey ≠ y.journey := by
  intro hj
  cases hL.excl (show c.At (.running t) y.journey from ⟨x, hx, hj, hg⟩)
    (show c.At (.task y.start) y.journey from ⟨y, hy, rfl, rfl⟩)

/-- A journey executes on one thread. -/
lemma Lives.thread_unique (hL : c.Lives) {x : Exec} {u : ℕ} (h : c.stage t j = some .running)
    (hx : c.exec u = some x) (hg : x.stage = .running) (hj : x.journey = j) : u = t :=
  Place.running.inj (hL.excl (show c.At (.running u) j from ⟨x, hx, hj, hg⟩)
    (does_iff_stage.mpr h : c.At (.running t) j))

lemma runner_move_of_ne {i d : ℕ} (hi : i ≠ j) : (c.move j d).runner i = c.runner i :=
  Function.update_of_ne hi _ _

lemma runner_yield_of_ne {i : ℕ} {h : Deferred} (hi : i ≠ j) :
    (c.yield t j h).runner i = c.runner i :=
  Function.update_of_ne hi _ _

lemma running_yield {u : ℕ} {h : Deferred} {x : Exec} (hx : (c.yield t j h).exec u = some x)
    (hg : x.stage = .running) : c.exec u = some x ∧ u ≠ t := by
  have hx : Function.update c.exec t ((c.exec t).map fun y => { y with stage := .switched }) u =
    some x := hx
  rw [Function.update_apply] at hx
  split_ifs at hx with hu
  · obtain ⟨y, -, rfl⟩ := Option.map_eq_some_iff.mp hx
    cases hg
  · exact ⟨hx, hu⟩

lemma Ride.hasStrand (h : Ride stray c c') (hH : c.HasStrand) : c'.HasStrand := by
  cases h with
  | steady h => exact h.hasStrand hH
  | create d r h =>
    have hc : (c.create d r).HasStrand := hH
    exact h.hasStrand hc
  | dispatch t x ht hx hs he ha hst hsched hb =>
    intro u y hy hal
    rw [he, exec_take] at hy
    rw [ha] at hal
    rw [hst, strand_take]
    split_ifs at hy with hu
    · obtain rfl := Option.some_injective _ hy
      rw [if_pos ⟨hal, rfl⟩, hu]
    · rw [if_neg]
      · exact hH u y hy hal
      · -- the strand was free
        rintro ⟨hxa, hv⟩
        have hold := hH u y hy hal
        rw [hv, hs hxa] at hold
        cases hold
  | move hm t j d h hp => exact hH
  | depart t j d h =>
    have hm : (c.move j d).HasStrand := hH
    exact (Steady.yield _ t j .proceed).hasStrand hm
  | giveUp t x hx h =>
    refine h.hasStrand fun u y hy hal => ?_
    rw [exec_giveUp] at hy
    split_ifs at hy with hu
    have hold := hH u y hy hal
    rw [strand_giveUp, if_neg]
    · exact hold
    · rintro ⟨-, hv⟩
      have hx' := hH t x hx (by rw [← hv]; exact hal)
      rw [← hv, hold] at hx'
      exact hu (Option.some_injective _ hx')

/-- A journey that executes after a ride was dispatched by it, or executed before and goes on, or
was moved. -/
lemma Ride.of_running (h : Ride stray c c') (hL : c.Lives) {x : Exec} (hx : c'.exec t = some x)
    (hg : x.stage = .running) :
    x.via = (c'.runner x.journey).sched ∨
    (c.exec t = some x ∧ (c'.runner x.journey).sched = (c.runner x.journey).sched ∧
      ((c'.runner x.journey).place = .back → (c.runner x.journey).place = .back)) ∨
    (stray ∧ (c'.runner x.journey).place = .here) := by
  cases h with
  | steady h => exact .inr (.inl ⟨h.running t x hx hg, h.sched _, h.back _⟩)
  | create d r h =>
    have hold : c.exec t = some x := h.running t x hx hg
    have hr : (c.create d r).runner x.journey = c.runner x.journey :=
      runner_create_of_ne (hL.journey_ne_next hold hg)
    refine .inr (.inl ⟨hold, ?_, ?_⟩)
    · rw [h.sched, hr]
    · rw [← hr]
      exact h.back _
  | dispatch u y hu hy hs he ha hst hsched hb =>
    rw [he] at hx
    obtain hold | ⟨-, rfl⟩ := exec_of_take hx
    · refine .inr (.inl ⟨hold, hsched _, ?_⟩)
      rw [hb _ (hL.journey_ne_posted hold hg hy)]
      exact id
    · exact .inl ((hL.sched y hy).trans (hsched _).symm)
  | move hm u j d hs hp =>
    by_cases hj : x.journey = j
    · refine .inr (.inr ⟨hm, ?_⟩)
      rw [hj, Relay.move, runner_mapRunner, if_pos rfl]
      exact hp
    · have hr : (c.move j d).runner x.journey = c.runner x.journey := runner_move_of_ne hj
      rw [hr]
      exact .inr (.inl ⟨hx, rfl, id⟩)
  | depart u j d hs =>
    obtain ⟨hold, hut⟩ := running_yield hx hg
    have hne : x.journey ≠ j := fun hj => hut (hL.thread_unique hs hold hg hj)
    have hr : ((c.move j d).yield u j .proceed).runner x.journey = c.runner x.journey := by
      rw [runner_yield_of_ne hne, runner_move_of_ne hne]
    rw [hr]
    exact .inr (.inl ⟨hold, rfl, id⟩)
  | giveUp u y hy h =>
    have hold := h.running t x hx hg
    exact .inr (.inl ⟨(exec_of_giveUp hold).2, h.sched _, h.back _⟩)

lemma Ride.backOn (h : Ride stray c c') (hL : c.Lives) (hB : c.BackOn) : c'.BackOn := by
  intro t x hx hg hp
  obtain hv | ⟨hold, hs, hb⟩ | ⟨-, hh⟩ := h.of_running hL hx hg
  · exact hv
  · rw [hs]
    exact hB t x hold hg (hb hp)
  · rw [hh] at hp
    cases hp

lemma Ride.onSchedule (h : Ride False c c') (hL : c.Lives) (hO : c.OnSchedule) :
    c'.OnSchedule := by
  intro t x hx hg
  obtain hv | ⟨hold, hs, -⟩ | ⟨hm, -⟩ := h.of_running hL hx hg
  · exact hv
  · rw [hs]
    exact hO t x hold hg
  · exact absurd hm id

end Relay

end Synca
