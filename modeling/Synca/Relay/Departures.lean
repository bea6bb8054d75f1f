import Synca.Relay.Runs

/-!
# Journeys that have ended leave their threads

The handler of a journey ends on a thread, and it is this thread that deletes the journey: until
then the thread has nothing else to do.
-/

namespace Synca

namespace Relay

variable {c c' c₁ : Relay} {t j k : ℕ} {stray : Prop}

/-- The handler of journey `j` has ended, and the journey was not deleted. -/
def Over (c : Relay) (j : ℕ) : Prop :=
  LifeEvent.finish ∈ (c.runner j).log ∧ LifeEvent.delete ∉ (c.runner j).log

/-- Thread `t` leaves the stack of journey `j`, or has left it and runs `onExit0`. -/
def Leaves (c : Relay) (t j : ℕ) : Prop := c.Does t j .switched ∨ c.Does t j .exiting

/-- A journey that has ended is still on the way out. -/
def Departs (c : Relay) : Prop := ∀ j, c.Over j → ∃ t, c.Leaves t j

/-- No handler ends, and no thread that leaves a stack does anything else. -/
structure Undisturbed (c c' : Relay) : Prop where
  past : ∀ j, c'.Over j → c.Over j
  leaves : ∀ t j, c.Leaves t j → c'.Leaves t j

lemma Undisturbed.departs (h : Undisturbed c c') (hD : c.Departs) : c'.Departs := by
  intro j hj
  obtain ⟨t, ht⟩ := hD j (h.past j hj)
  exact ⟨t, h.leaves t j ht⟩

namespace Undisturbed

lemma of_eq (hr : c'.runner = c.runner) (he : c'.exec = c.exec) : Undisturbed c c' where
  past j := by
    rw [Over, Over, hr]
    exact id
  leaves t j := by
    rw [Leaves, Leaves, Does, Does, Does, Does, he]
    exact id

lemma trans (h : Undisturbed c c') (h' : Undisturbed c' c₁) : Undisturbed c c₁ where
  past j := h.past j ∘ h'.past j
  leaves t j := h'.leaves t j ∘ h.leaves t j

lemma mapRunner {f : Runner → Runner} {l : List LifeEvent}
    (hf : (f (c.runner j)).log = (c.runner j).log ++ l) (he : LifeEvent.finish ∉ l) :
    Undisturbed c (c.mapRunner j f) where
  past i := by
    rw [Over, Over, runner_mapRunner]
    split_ifs with hi
    · rw [hi, hf, List.mem_append, List.mem_append, not_or]
      exact fun h => ⟨h.1.resolve_right he, h.2.1⟩
    · exact id
  leaves _ _ h := h

/-- A thread that leaves no stack goes on. -/
lemma update {y : Option Exec}
    (hy : ∀ x, c.exec t = some x → x.stage ≠ .switched ∧ x.stage ≠ .exiting)
    (he : c'.exec = Function.update c.exec t y) (hr : c'.runner = c.runner) : Undisturbed c c' where
  past j := by
    rw [Over, Over, hr]
    exact id
  leaves u i h := by
    have hu : u ≠ t := by
      rintro rfl
      rcases h with ⟨x, hx, -, hg⟩ | ⟨x, hx, -, hg⟩
      · exact (hy x hx).1 hg
      · exact (hy x hx).2 hg
    rw [Leaves, Does, Does, he, Function.update_of_ne hu]
    exact h

lemma proceed (c : Relay) (j : ℕ) : Undisturbed c (c.proceed j) :=
  (mapRunner (l := [.proceed]) rfl (by simp) : Undisturbed c (c.record j .proceed)).trans
    (of_eq rfl rfl)

lemma bump (c : Relay) (k : ℕ) : Undisturbed c (c.bump k) :=
  bump_induction (P := Undisturbed c) (fun _ _ _ h => h.trans (of_eq rfl rfl))
    (fun _ j h => h.trans (proceed _ j)) (of_eq rfl rfl) k

lemma release (c : Relay) (k : ℕ) (h : Holder) : Undisturbed c (c.release k h) :=
  release_induction (P := Undisturbed c) (fun _ _ _ h => h.trans (of_eq rfl rfl))
    (fun _ j h => h.trans (proceed _ j)) (of_eq rfl rfl)

lemma create (c : Relay) (d : ℕ) (r : Option ℕ) : Undisturbed c (c.create d r) := by
  have h : Undisturbed c (c.mapRunner (c.created + 1) fun x => { x with
      alive := true, sched := d, role := r, log := x.log ++ [.create] }) :=
    mapRunner rfl (by simp)
  exact h.trans (of_eq rfl rfl)

lemma setStage {g g' : Stage} (h : c.stage t j = some g) (hs : g ≠ .switched) (he : g ≠ .exiting) :
    Undisturbed c (c.setStage t g') := by
  obtain ⟨y, hy, -, hg⟩ := stage_eq_some_iff.mp h
  refine update (fun x hx => ?_) rfl rfl
  obtain rfl : y = x := Option.some_injective _ (hy.symm.trans hx)
  exact ⟨hg ▸ hs, hg ▸ he⟩

lemma giveUp {x : Exec} (h : c.exec t = some x) (hx : x.stage = .finishing) :
    Undisturbed c (c.giveUp t x) := by
  refine update (t := t) (fun y hy => ?_) rfl rfl
  obtain rfl : x = y := Option.some_injective _ (h.symm.trans hy)
  simp [hx]

lemma yield {d : Deferred} (h : c.stage t j = some .running) : Undisturbed c (c.yield t j d) := by
  set c₂ := c.mapRunner j fun r => { r with
    place := .away, deferHandler := some d, log := r.log ++ [.yield] }
  have h₁ : Undisturbed c c₂ := mapRunner rfl (by simp)
  have hst : c₂.stage t j = some .running := h
  exact h₁.trans (setStage hst (by simp) (by simp))

end Undisturbed

/-- What a deferred handler does, and then the thread goes on. -/
lemma exists_answer (c : Relay) (t j : ℕ) (d : Deferred) :
    ∃ c₁ g, c.answer t j d = c₁.setStage t g ∧ c₁.exec = c.exec ∧ Undisturbed c c₁ := by
  cases d with
  | proceed => exact ⟨_, _, rfl, rfl, .proceed c j⟩
  | launch k => exact ⟨_, _, rfl, rfl, .of_eq rfl rfl⟩
  | setProceed w => exact ⟨_, _, rfl, rfl, .of_eq rfl rfl⟩
  | startIo i => exact ⟨_, _, rfl, rfl, .of_eq rfl rfl⟩

/-- A journey with a deferred handler has not ended. -/
lemma Lives.not_over (hL : c.Lives) (h : c.stage t j = some .exiting) {d : Deferred}
    (hd : (c.runner j).deferHandler = some d) : ¬ c.Over j := by
  intro ho
  obtain ⟨l, hlead, hl⟩ := hL.leads_at (p := .exiting t) (does_iff_stage.mpr h)
  have hpast := (Life.past_iff hlead.after).mpr ho.1
  rcases hlead.fits.handler (by simp [hd]) with rfl | rfl <;> cases hpast

/-- The end of a handler, and the thread that is with it. -/
lemma Departs.endCoro (hD : c.Departs) (h : c.stage t j = some .running) :
    (c.endCoro t j).Departs := by
  obtain ⟨x, hx, hj, hg⟩ := stage_eq_some_iff.mp h
  have hon : (c.endCoro t j).Leaves t j := .inl ⟨{ x with stage := .switched }, by
    simp [Relay.endCoro, Relay.setStage, exec_mapExec, Relay.mapRunner, hx], hj, rfl⟩
  intro i hi
  by_cases hij : i = j
  · exact ⟨t, hij ▸ hon⟩
  · have hrunner : (c.endCoro t j).runner i = c.runner i := by
      simp [Relay.endCoro, Relay.setStage, Relay.mapExec, runner_mapRunner, hij]
    rw [Over, hrunner] at hi
    obtain ⟨u, hu⟩ := hD i hi
    have hset : Undisturbed c (c.setStage t .switched) := .setStage h (by simp) (by simp)
    exact ⟨u, hset.leaves u i hu⟩

/-- A thread is done with journey `j`, which is not over. -/
lemma Departs.exits (hD : c.Departs) (h : c.stage t j = some .exiting)
    (hover : ¬ c'.Over j) (hother : ∀ i, i ≠ j → c'.Over i → c.Over i)
    (hexec : ∀ u, u ≠ t → c'.exec u = c.exec u) : c'.Departs := by
  intro i hi
  have hij : i ≠ j := by
    rintro rfl
    exact hover hi
  obtain ⟨u, hu⟩ := hD i (hother i hij hi)
  have hut : u ≠ t := by
    rintro rfl
    obtain ⟨x, hx, hj, -⟩ := stage_eq_some_iff.mp h
    rcases hu with ⟨y, hy, hi', -⟩ | ⟨y, hy, hi', -⟩ <;>
      exact hij (hi'.symm.trans ((congrArg Exec.journey
        (Option.some_injective _ (hy.symm.trans hx))).trans hj))
  refine ⟨u, ?_⟩
  rw [Leaves, Does, Does, hexec u hut]
  exact hu

lemma Departs.hop (hL : c.Lives) (hW : c.Waits) (hD : c.Departs) (h : Hop stray c c') :
    c'.Departs := by
  cases h with
  | create d => exact (Undisturbed.create c d none).departs hD
  | dispatch t x ht hx hs =>
    have htake : Undisturbed c (c.take t x) := .update (t := t) (by simp [ht]) rfl rfl
    refine Undisturbed.departs (htake.trans ?_) hD
    unfold Relay.dispatch
    split_ifs with hst
    · unfold Relay.start
      simp only
      split_ifs
      · have hm : Undisturbed (c.take t x) ((c.take t x).mapRunner x.journey fun r => { r with
            started := true, running := true, place := .here, log := r.log ++ [.start] }) :=
          .mapRunner rfl (by simp)
        split
        · exact hm.trans (.of_eq rfl rfl)
        · exact hm
      · exact .of_eq rfl rfl
    · unfold Relay.resume
      simp only
      split_ifs
      · exact .mapRunner rfl (by simp)
      · exact .of_eq rfl rfl
  | leave t j h => exact (Undisturbed.mapRunner (l := []) (by simp) (by simp)).departs hD
  | move hm t j d h hp => exact (Undisturbed.mapRunner (l := []) (by simp) (by simp)).departs hD
  | depart t j d h =>
    have hm : Undisturbed c (c.move j d) := .mapRunner (l := []) (by simp) (by simp)
    exact (hm.trans (.yield h)).departs hD
  | newTeam j kind => exact (Undisturbed.of_eq rfl rfl).departs hD
  | newSeat j l hm => exact (Undisturbed.of_eq rfl rfl).departs hD
  | newErrand j => exact (Undisturbed.of_eq rfl rfl).departs hD
  | goGroup t j kind h =>
    have hn : Undisturbed c (c.newTeam j kind) := .of_eq rfl rfl
    exact (hn.trans (.yield h)).departs hD
  | get t j l h hm =>
    have hn : Undisturbed c (c.newSeat j l) := .of_eq rfl rfl
    exact (hn.trans (.yield h)).departs hD
  | deferIo t j h =>
    have hn : Undisturbed c (c.newErrand j) := .of_eq rfl rfl
    exact (hn.trans (.yield h)).departs hD
  | save t j threw h =>
    have hm : Undisturbed c (c.mapRunner j fun r => { r with
        running := false, log := r.log ++ [.save] }) := .mapRunner rfl (by simp)
    refine Undisturbed.departs ⟨hm.past, fun u i hu => ?_⟩ hD
    by_cases hut : u = t
    · obtain ⟨x, hx, hj, -⟩ := stage_eq_some_iff.mp h
      refine .inr ⟨{ x with stage := .exiting, threw := if threw then true else x.threw }, ?_, ?_,
        rfl⟩
      · simp [Relay.save, exec_mapExec, Relay.mapRunner, hut, hx]
      · subst hut
        rcases hu with ⟨y, hy, hi, -⟩ | ⟨y, hy, hi, -⟩ <;>
          exact (congrArg Exec.journey (Option.some_injective _ (hx.symm.trans hy))).trans hi
    · rw [Leaves, Does, Does, Relay.save, exec_mapExec, if_neg hut]
      exact hu
  | delete t j h hd =>
    refine hD.exits h (fun ho => ho.2 ?_) (fun i hi ho => ?_) fun u hu => ?_
    · simp [Relay.delete, Relay.setStage, Relay.mapExec, runner_mapRunner]
    · rw [Over, Relay.delete, show ∀ c : Relay, (c.setStage t .finishing).runner = c.runner from
        fun _ => rfl, runner_mapRunner, if_neg hi] at ho
      exact ho
    · simp [Relay.delete, Relay.setStage, exec_mapExec, Relay.mapRunner, hu]
  | answer t j d h hd =>
    obtain ⟨c₁, g, heq, he, hu⟩ := exists_answer (c.mapRunner j fun r => { r with
      deferHandler := none }) t j d
    have hm : Undisturbed c (c.mapRunner j fun r => { r with deferHandler := none }) :=
      .mapRunner (l := []) (by simp) (by simp)
    rw [heq]
    refine hD.exits h (fun ho => hL.not_over h hd (hm.past j (hu.past j ho)))
      (fun i _ ho => hm.past i (hu.past i ho)) fun u hut => ?_
    simp [Relay.setStage, exec_mapExec, hut, he, Relay.mapRunner]
  | launch t j k d h =>
    exact ((Undisturbed.create c d (some k)).trans (.of_eq rfl rfl)).departs hD
  | endLoop t j k h =>
    exact ((Undisturbed.setStage h (by simp) (by simp)).trans (.release _ k _)).departs hD
  | drop t x h hx =>
    have hg : Undisturbed c (c.giveUp t x) := .giveUp h hx
    exact hg.departs hD
  | finish t k x h hx hs hr =>
    have hg : Undisturbed c (c.giveUp t x) := .giveUp h hx
    exact (hg.trans (.release _ k _)).departs hD
  | win t j k h hr hk => exact (Undisturbed.bump c k).departs hD
  | endCoro t j h hr => exact hD.endCoro h
  | endChild t j k h hr => exact (Undisturbed.release _ k _).departs (hD.endCoro h)
  | pop t l w ws hm hl hh => exact (Undisturbed.of_eq rfl rfl).departs hD
  | sweep t l hm hh => exact (Undisturbed.of_eq rfl rfl).departs hD
  | fire t w ws h =>
    rw [hW.fire_eq h]
    have hs : Undisturbed c ((c.setHand t ws).mapSeat w fun x => { x with phase := .fired }) :=
      .of_eq rfl rfl
    exact (hs.trans (.proceed _ _)).departs hD
  | complete i h =>
    have he : Undisturbed c (c.mapErrand i fun x => { x with pending := false }) := .of_eq rfl rfl
    exact (he.trans (.proceed _ _)).departs hD

lemma Departs.init (alone : ℕ → Bool) : ({ alone := alone } : Relay).Departs := by
  rintro j ⟨h, -⟩
  cases h

lemma Departs.hops (hS : c.Sound) (hD : c.Departs) (h : Hops stray c c') : c'.Departs := by
  have hboth : c'.Sound ∧ c'.Departs := by
    induction h with
    | refl => exact ⟨hS, hD⟩
    | tail _ hh ih => exact ⟨ih.1.hop hh, ih.2.hop ih.1.lives ih.1.waits hh⟩
  exact hboth.2

end Relay

end Synca
