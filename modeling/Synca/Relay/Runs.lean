import Mathlib.Data.Finset.Card
import Mathlib.Data.Finset.Range
import Synca.Relay.Lives

/-!
# The relay keeps its batons

Every hop keeps the invariants of waiting places, groups and lives, no hop runs into a fault, and
the two counters of journeys count the journeys that exist.
-/

namespace Synca

open Transition

namespace Relay

variable {c c' : Relay} {t j k i w : ℕ}

namespace Lives

lemma create (hL : c.Lives) (d : ℕ) (r : Option ℕ) : (c.create d r).Lives := by
  have hfresh : c.runner (c.created + 1) = {} := hL.fresh _ (.inr (Nat.lt_succ_self _))
  have hnowhere : ∀ p, ¬ c.At p (c.created + 1) := by
    intro p hp
    obtain ⟨l, hlead, hl⟩ := hL.leads_at hp
    have hl' := hlead.after
    rw [hfresh] at hl'
    obtain rfl : Life.absent = l := Option.some_injective _ hl'
    cases p with
    | task b => cases b <;> cases hl
    | running | switched | exiting | team | seat | errand => simp [Place.Suits] at hl
  refine hL.engage (f := fun x => { x with
    alive := true, sched := d, role := r, log := x.log ++ [.create] }) (b := true) hnowhere
    ⟨.created, ?_, ?_, rfl⟩ (Nat.le_succ _) ⟨Nat.succ_pos _, Nat.le_refl _⟩
  · rw [hfresh]
    rfl
  · rw [hfresh]
    constructor <;> simp [Life.alive, Life.started, Life.active, Life.away]

/-- A task that is taken starts or resumes a journey that awaits this. -/
lemma leads_posted (hL : c.Lives) {x : Task} (hx : x ∈ c.posted) :
    c.Leads x.journey (if x.start then .created else .proceeded) := by
  have hp : c.At (.task x.start) x.journey := ⟨x, hx, rfl, rfl⟩
  obtain ⟨l, hlead, hl⟩ := hL.leads_at hp
  cases hs : x.start <;> rw [hs] at hl <;> obtain rfl := hl <;> exact hlead

/-- A thread takes a task, and the journey goes on. -/
lemma take (hL : c.Lives) {x : Task} (hx : x ∈ c.posted) {f : Runner → Runner}
    (hs : (f (c.runner x.journey)).sched = (c.runner x.journey).sched)
    (hl : ∃ l, Life.absent.after (f (c.runner x.journey)).log = some l ∧
      (f (c.runner x.journey)).Fits l ∧ l = .running) :
    ((c.take t x).mapRunner x.journey f).Lives := by
  have hp : c.At (.task x.start) x.journey := ⟨x, hx, rfl, rfl⟩
  have hrange := hL.exists_of_not_absent (hL.leads_posted hx).after (by split_ifs <;> nofun)
  have hrunner : ∀ i, ((c.take t x).mapRunner x.journey f).runner i =
      if i = x.journey then f (c.runner x.journey) else c.runner i :=
    fun i => Function.update_apply _ _ _ _
  have hperm : (c.posted.map Task.journey).Perm
      (x.journey :: (c.posted.erase x).map Task.journey) := (List.perm_cons_erase hx).map _
  have hnodup := List.nodup_cons.mp (hperm.nodup_iff.mp hL.nodup)
  have hdoes : ∀ u i g, (c.take t x).Does u i g →
      c.Does u i g ∨ (u = t ∧ i = x.journey ∧ g = .running) := by
    rintro u i g ⟨y, hy, hi, hg⟩
    obtain hy | ⟨hu, rfl⟩ := exec_of_take hy
    · exact .inl ⟨y, hy, hi, hg⟩
    · exact .inr ⟨hu, hi.symm, hg.symm⟩
  -- the only task of the journey has been taken
  have hat : ∀ p i, (c.take t x).At p i →
      (c.At p i ∧ i ≠ x.journey) ∨ (p = .running t ∧ i = x.journey) := by
    have hother : ∀ p i, c.At p i → (∀ b, p ≠ .task b) → c.At p i ∧ i ≠ x.journey := by
      intro p i hi hne
      refine ⟨hi, ?_⟩
      rintro rfl
      exact hne _ (hL.excl hi hp)
    intro p i hi
    cases p with
    | task b =>
      obtain ⟨y, hy, hyi, hyb⟩ := hi
      refine .inl ⟨⟨y, List.mem_of_mem_erase hy, hyi, hyb⟩, ?_⟩
      rintro rfl
      exact hnodup.1 (List.mem_map.mpr ⟨y, hy, hyi⟩)
    | running u =>
      obtain h | ⟨rfl, hi, -⟩ := hdoes u i _ hi
      · exact .inl (hother (.running u) i h nofun)
      · exact .inr ⟨rfl, hi⟩
    | switched u =>
      obtain h | ⟨-, -, hg⟩ := hdoes u i _ hi
      · exact .inl (hother (.switched u) i h nofun)
      · cases hg
    | exiting u =>
      obtain h | ⟨-, -, hg⟩ := hdoes u i _ hi
      · exact .inl (hother (.exiting u) i h nofun)
      · cases hg
    | team k => exact .inl (hother (.team k) i hi nofun)
    | seat w => exact .inl (hother (.seat w) i hi nofun)
    | errand n => exact .inl (hother (.errand n) i hi nofun)
  refine hL.change x.journey (q := some (.running t)) (fun i hi => ?_) (fun p i hi => ?_) ?_
    hnodup.2 (fun y hy => ?_) fun i hi => ?_
  · rw [hrunner, if_neg hi]
  · rw [at_mapRunner] at hi
    exact (hat p i hi).imp id fun h => ⟨congrArg some h.1.symm, h.2⟩
  · obtain ⟨l, ha, hf, rfl⟩ := hl
    refine ⟨.running, ?_, ?_, ?_⟩
    · rw [hrunner, if_pos rfl]
      exact ha
    · rw [hrunner, if_pos rfl]
      exact hf
    · rintro _ ⟨⟩
      rfl
  · rw [hL.sched y (List.mem_of_mem_erase hy), hrunner]
    split_ifs with hj
    · rw [hs, hj]
    · rfl
  · have hi' : i = 0 ∨ c.created < i := hi
    rw [hrunner, if_neg (by omega)]
    exact hL.fresh i hi'

/-! ### Nothing goes wrong -/

lemma startable (hL : c.Lives) {x : Task} (hx : x ∈ c.posted) (hs : x.start = true) :
    (c.runner x.journey).alive = true ∧
    ¬ ((c.runner x.journey).started = true ∨ (c.runner x.journey).running = true) := by
  have hlead := hL.leads_posted hx
  rw [if_pos hs] at hlead
  rw [hlead.fits.alive, hlead.fits.started, hlead.fits.running]
  decide

/-- `Coro::resume` is called on a coroutine that is started and not running. -/
lemma resumable (hL : c.Lives) {x : Task} (hx : x ∈ c.posted) (hs : x.start = false) :
    (c.runner x.journey).alive = true ∧ (c.runner x.journey).started = true ∧
    ¬ (c.runner x.journey).running = true ∧ (c.runner x.journey).place = .away := by
  have hlead := hL.leads_posted hx
  rw [if_neg (by simp [hs])] at hlead
  rw [hlead.fits.alive, hlead.fits.started, hlead.fits.running, hlead.fits.away]
  decide

lemma start (hL : c.Lives) (hS : c.Shares) {x : Task} (hx : x ∈ c.posted) (hs : x.start = true) :
    ((c.take t x).start x.journey).Lives := by
  have hlead := hL.leads_posted hx
  rw [if_pos hs] at hlead
  have hrun : ((c.take t x).mapRunner x.journey fun r => { r with
      started := true, running := true, place := .here, log := r.log ++ [.start] }).Lives :=
    hL.take hx rfl ⟨.running, Life.after_append hlead.after .start, hlead.fits.start _, rfl⟩
  have htake : (c.take t x).runner = c.runner := rfl
  simp only [Relay.start, htake]
  rw [if_pos (hL.startable hx hs)]
  split
  case h_1 k hk =>
    have hmem := hS.claims k (.task x.journey) ⟨hk, none, x, hx, rfl, hs⟩
    exact hrun.hold _ (List.ne_nil_of_mem hmem)
  case h_2 => exact hrun

lemma resume (hL : c.Lives) {x : Task} (hx : x ∈ c.posted) (hs : x.start = false) :
    ((c.take t x).resume x.journey).Lives := by
  have hlead := hL.leads_posted hx
  rw [if_neg (by simp [hs])] at hlead
  have htake : (c.take t x).runner = c.runner := rfl
  simp only [Relay.resume, htake]
  rw [if_pos (hL.resumable hx hs)]
  exact hL.take hx rfl ⟨.running, Life.after_append hlead.after .resume, hlead.fits.resume _, rfl⟩

/-! ### Every hop -/

lemma giveUp (hL : c.Lives) (t : ℕ) (x : Exec) : (c.giveUp t x).Lives := by
  have hdoes : ∀ u i g, (c.giveUp t x).Does u i g → c.Does u i g := by
    rintro u i g ⟨y, hy, hi, hg⟩
    exact ⟨y, (exec_of_giveUp hy).2, hi, hg⟩
  refine hL.mono rfl rfl rfl fun p i hi => ?_
  cases p with
  | running u | switched u | exiting u => exact hdoes u i _ hi
  | _ => exact hi

lemma newTeam (hL : c.Lives) (hW : c.Waits) (j : ℕ) (kind : GroupKind) :
    (c.newTeam j kind).Lives := by
  refine hL.mono rfl rfl rfl fun p i hi => ?_
  have hi : (c.mapTeam c.teams fun x => { x with kind := kind, owner := j }).At p i := by
    cases p <;> exact hi
  obtain ⟨hi, -⟩ | ⟨-, -, ha⟩ := at_mapTeam hi
  · exact hi
  · have hb : (c.team c.teams).began = true := ha.began
    rw [hW.team _ le_rfl] at hb
    cases hb

lemma newSeat (hL : c.Lives) (hW : c.Waits) (j l : ℕ) : (c.newSeat j l).Lives := by
  refine hL.mono rfl rfl rfl fun p i hi => ?_
  have hi : (c.mapSeat c.seats fun x => { x with owner := j, channel := l }).At p i := by
    cases p <;> exact hi
  obtain ⟨hi, -⟩ | ⟨-, -, ha⟩ := at_mapSeat hi
  · exact hi
  · have ha : (c.seat c.seats).phase = .armed := ha
    rw [hW.seat _ le_rfl] at ha
    cases ha

lemma newErrand (hL : c.Lives) (hW : c.Waits) (j : ℕ) : (c.newErrand j).Lives := by
  refine hL.mono rfl rfl rfl fun p i hi => ?_
  have hi : (c.mapErrand c.errands fun x => { x with owner := j }).At p i := by
    cases p <;> exact hi
  obtain ⟨hi, -⟩ | ⟨-, -, ha⟩ := at_mapErrand hi
  · exact hi
  · have ha : (c.errand c.errands).pending = true := ha
    rw [hW.errand _ le_rfl] at ha
    cases ha

lemma fire (hL : c.Lives) (hW : c.Waits) {ws : List ℕ} (h : c.hand t = w :: ws) :
    ((c.setHand t ws).fire w).Lives := by
  rw [hW.fire_eq h]
  have hp : c.At (.seat w) (c.seat w).owner := ⟨rfl, (hW.held t w (h ▸ List.mem_cons_self)).2⟩
  set c₁ := (c.setHand t ws).mapSeat w fun x => { x with phase := .fired } with hc₁
  have hat : ∀ q i, c₁.At q i → c.At q i ∧ q ≠ .seat w := by
    intro q i hq
    obtain ⟨hq, hne⟩ | ⟨-, -, ha⟩ := at_mapSeat hq
    · exact ⟨by cases q <;> exact hq, hne⟩
    · cases ha
  have hL' : c₁.Lives := hL.mono rfl rfl rfl fun q i hq => (hat q i hq).1
  exact hL'.proceed (hL.disarm hp trivial rfl hat)

lemma complete (hL : c.Lives) (h : (c.errand i).pending = true) : (c.complete i).Lives := by
  have hp : c.At (.errand i) (c.errand i).owner := ⟨rfl, h⟩
  set c₁ := c.mapErrand i fun x => { x with pending := false } with hc₁
  have hat : ∀ q j, c₁.At q j → c.At q j ∧ q ≠ .errand i := by
    intro q j hq
    obtain hq | ⟨-, -, ha⟩ := at_mapErrand hq
    · exact hq
    · cases ha
  have hL' : c₁.Lives := hL.mono rfl rfl rfl fun q i hq => (hat q i hq).1
  exact hL'.proceed (hL.disarm hp trivial rfl hat)

lemma setStage (hL : c.Lives) {g g' : Stage} (ht : c.Does t j g')
    (hg : ∀ p : Place, p.stage ≠ some (t, g)) : (c.setStage t g).Lives := by
  refine hL.mono rfl rfl rfl fun p i hi => ?_
  obtain ⟨hi, -⟩ | ⟨-, hs⟩ :=
    at_mapExec (f := fun x => { x with stage := g }) (fun _ => rfl) (fun _ => rfl) ht hi
  · exact hi
  · exact absurd hs (hg p)

lemma hop {stray : Prop} (hL : c.Lives) (hS : c.Shares) (hW : c.Waits) (h : Hop stray c c') :
    c'.Lives := by
  cases h with
  | create d => exact hL.create d none
  | dispatch t x ht hx hs =>
    unfold Relay.dispatch
    split_ifs with hst
    · exact hL.start hS hx hst
    · exact hL.resume hx (by simpa using hst)
  | leave t j h => exact hL.leave h
  | move hm t j d h hp => exact hL.move h d
  | depart t j d h => exact (hL.move h d).yield h .proceed
  | newTeam j kind => exact hL.newTeam hW j kind
  | newSeat j l hm => exact hL.newSeat hW j l
  | newErrand j => exact hL.newErrand hW j
  | goGroup t j kind h => exact (hL.newTeam hW j kind).yield h _
  | get t j l h hm => exact (hL.newSeat hW j l).yield h _
  | deferIo t j h => exact (hL.newErrand hW j).yield h _
  | save t j threw h => exact hL.save h threw
  | delete t j h hd => exact hL.delete h hd
  | answer t j d h hd => exact hL.answer hW h hd
  | launch t j k d h =>
    obtain ⟨x, hx, -, hk⟩ := does_iff_stage.mpr h
    have hmem := hS.claims k .loop ⟨t, x, hx, hk⟩
    exact (hL.create d (some k)).hold _ (List.ne_nil_of_mem hmem)
  | endLoop t j k h =>
    obtain ⟨x, hx, -, hk⟩ := does_iff_stage.mpr h
    have hmem := hS.claims k .loop ⟨t, x, hx, hk⟩
    have hs : (c.setStage t .finishing).Lives :=
      hL.setStage (does_iff_stage.mpr h) fun p => by cases p <;> nofun
    exact hs.release (hS.began_of_stage h) hmem
  | drop t x h hx => exact hL.giveUp t x
  | finish t k x h hx hs hr =>
    have hmem := hS.claims k (.task x.journey) ⟨hr, some t, x, h, rfl, hs⟩
    exact (hL.giveUp t x).release (hS.role _ k hr) hmem
  | win t j k h hr hk => exact hL.bump (hS.role j k hr) hk
  | endCoro t j h hr => exact hL.endCoro h
  | endChild t j k h hr =>
    have hmem := hS.claims k (.coro j) ⟨hr, (hL.leads_running h).fits.started⟩
    exact (hL.endCoro h).release (hS.role j k hr) hmem
  | pop t l w ws hm hl hh => exact hL.mono rfl rfl rfl fun p i hi => by cases p <;> exact hi
  | sweep t l hm hh => exact hL.mono rfl rfl rfl fun p i hi => by cases p <;> exact hi
  | fire t w ws h => exact hL.fire hW h
  | complete i h => exact hL.complete h

end Lives

/-! ### What a group does is no concern of the threads -/

lemma bump_setStage (c : Relay) (k t : ℕ) (g : Stage) :
    (c.bump k).setStage t g = (c.setStage t g).bump k := by
  simp only [bump]
  rw [show ((c.setStage t g).team k).counter = (c.team k).counter from rfl]
  split_ifs <;> rfl

lemma settle_setStage (c : Relay) (k t : ℕ) (g : Stage) :
    (c.settle k).setStage t g = (c.setStage t g).settle k := by
  unfold settle
  rw [show (c.setStage t g).team = c.team from rfl]
  cases (c.team k).kind with
  | goWait => rfl
  | goAnyWait => rfl
  | goAnyResult => exact bump_setStage c k t g

lemma release_setStage (c : Relay) (k : ℕ) (h : Holder) (t : ℕ) (g : Stage) :
    (c.release k h).setStage t g = (c.setStage t g).release k h := by
  set c₁ := c.mapTeam k fun x => { x with holders := x.holders.erase h } with hc₁
  have hm : (c.setStage t g).mapTeam k (fun x => { x with holders := x.holders.erase h }) =
      c₁.setStage t g := rfl
  simp only [release]
  rw [hm, show (c₁.setStage t g).team = c₁.team from rfl]
  split_ifs
  · exact settle_setStage c₁ k t g
  · rfl

/-! ### Counting -/

/-- The journeys that exist. -/
def living (c : Relay) : Finset ℕ :=
  (Finset.range (c.created + 1)).filter fun j => (c.runner j).alive = true

/-- No fault, and the counters count. -/
structure Tallied (c : Relay) : Prop where
  fault : c.fault = false
  count : c.created = c.destroyed + c.living.card

/-- What `Tallied` speaks about is the same in both. -/
structure Kept (c c' : Relay) : Prop where
  fault : c'.fault = c.fault
  created : c'.created = c.created
  destroyed : c'.destroyed = c.destroyed
  alive : ∀ i, (c'.runner i).alive = (c.runner i).alive

namespace Kept

variable {c₁ : Relay}

lemma of_runner (hf : c'.fault = c.fault) (hc : c'.created = c.created)
    (hd : c'.destroyed = c.destroyed) (hr : c'.runner = c.runner) : Kept c c' :=
  ⟨hf, hc, hd, fun i => by rw [hr]⟩

lemma trans (h : Kept c c') (h' : Kept c' c₁) : Kept c c₁ :=
  ⟨h'.fault.trans h.fault, h'.created.trans h.created, h'.destroyed.trans h.destroyed,
    fun i => (h'.alive i).trans (h.alive i)⟩

lemma mapRunner {f : Runner → Runner} (hf : (f (c.runner j)).alive = (c.runner j).alive) :
    Kept c (c.mapRunner j f) := by
  refine ⟨rfl, rfl, rfl, fun i => ?_⟩
  rw [runner_mapRunner]
  split_ifs with hi
  · rw [hf, hi]
  · rfl

lemma proceed (c : Relay) (j : ℕ) : Kept c (c.proceed j) :=
  (mapRunner rfl : Kept c (c.record j .proceed)).trans (of_runner rfl rfl rfl rfl)

lemma yield (c : Relay) (t j : ℕ) (d : Deferred) : Kept c (c.yield t j d) :=
  (mapRunner rfl : Kept c (c.mapRunner j fun r => { r with
    place := .away, deferHandler := some d, log := r.log ++ [.yield] })).trans
    (of_runner rfl rfl rfl rfl)

lemma bump (c : Relay) (k : ℕ) : Kept c (c.bump k) :=
  bump_induction (P := Kept c) (fun _ _ _ h => h.trans (of_runner rfl rfl rfl rfl))
    (fun _ j h => h.trans (proceed _ j)) (of_runner rfl rfl rfl rfl) k

lemma release (c : Relay) (k : ℕ) (h : Holder) : Kept c (c.release k h) :=
  release_induction (P := Kept c) (fun _ _ _ h => h.trans (of_runner rfl rfl rfl rfl))
    (fun _ j h => h.trans (proceed _ j)) (of_runner rfl rfl rfl rfl)

lemma answer (c : Relay) (t j : ℕ) (d : Deferred) : Kept c (c.answer t j d) := by
  cases d with
  | proceed => exact (proceed c j).trans (of_runner rfl rfl rfl rfl)
  | launch k => exact of_runner rfl rfl rfl rfl
  | setProceed w => exact of_runner rfl rfl rfl rfl
  | startIo i => exact of_runner rfl rfl rfl rfl

end Kept

namespace Tallied

lemma init (alone : ℕ → Bool) : ({ alone := alone } : Relay).Tallied := ⟨rfl, rfl⟩

lemma kept (hT : c.Tallied) (h : Kept c c') : c'.Tallied := by
  have hl : c'.living = c.living := by
    ext j
    simp only [living, Finset.mem_filter, h.created, h.alive]
  exact ⟨h.fault.trans hT.fault, by rw [h.created, h.destroyed, hl, hT.count]⟩

lemma create (hT : c.Tallied) (d : ℕ) (r : Option ℕ) : (c.create d r).Tallied := by
  refine ⟨hT.fault, ?_⟩
  have hrunner : ∀ i, ((c.create d r).runner i).alive =
      if i = c.created + 1 then true else (c.runner i).alive := by
    intro i
    have h : (c.create d r).runner i = if i = c.created + 1 then _ else c.runner i :=
      Function.update_apply _ _ _ _
    rw [h]
    split_ifs <;> rfl
  have hcreated : (c.create d r).created = c.created + 1 := rfl
  have hl : (c.create d r).living = insert (c.created + 1) c.living := by
    ext j
    simp only [living, hcreated, Finset.mem_filter, Finset.mem_range, hrunner, Finset.mem_insert]
    split_ifs with hj
    · simp [hj]
    · simp only [hj, false_or]
      constructor
      · rintro ⟨hlt, ha⟩
        exact ⟨by omega, ha⟩
      · rintro ⟨hlt, ha⟩
        exact ⟨by omega, ha⟩
  have hnot : c.created + 1 ∉ c.living := by simp [living]
  rw [hl, Finset.card_insert_of_notMem hnot]
  show c.created + 1 = c.destroyed + (c.living.card + 1)
  rw [hT.count, Nat.add_assoc]

lemma delete (hT : c.Tallied) (hL : c.Lives) (h : c.stage t j = some .exiting)
    (hd : (c.runner j).deferHandler = none) : (c.delete t j).Tallied := by
  refine ⟨hT.fault, ?_⟩
  have hlead := hL.leads_exiting h hd
  have hrange := hL.exists_of_not_absent hlead.after nofun
  have hmem : j ∈ c.living := by
    refine Finset.mem_filter.mpr ⟨Finset.mem_range.mpr (by omega), ?_⟩
    exact hlead.fits.alive
  have hrunner : ∀ i, ((c.delete t j).runner i).alive =
      if i = j then false else (c.runner i).alive := by
    intro i
    have h : (c.delete t j).runner i = if i = j then _ else c.runner i :=
      Function.update_apply _ _ _ _
    rw [h]
    split_ifs <;> rfl
  have hcreated : (c.delete t j).created = c.created := rfl
  have hliving : (c.delete t j).living = c.living.erase j := by
    ext i
    simp only [living, hcreated, Finset.mem_filter, hrunner, Finset.mem_erase]
    split_ifs with hi
    · simp [hi]
    · simp [hi]
  have hpos : 0 < c.living.card := Finset.card_pos.mpr ⟨j, hmem⟩
  rw [hliving, Finset.card_erase_of_mem hmem]
  show c.created = c.destroyed + 1 + (c.living.card - 1)
  have hcount := hT.count
  omega

lemma hop {stray : Prop} (hT : c.Tallied) (hL : c.Lives) (hW : c.Waits) (h : Hop stray c c') :
    c'.Tallied := by
  cases h with
  | create d => exact hT.create d none
  | dispatch t x ht hx hs =>
    have htake : (c.take t x).runner = c.runner := rfl
    have hk : Kept c (c.take t x) := .of_runner rfl rfl rfl rfl
    apply hT.kept
    unfold Relay.dispatch
    split_ifs with hst
    · simp only [Relay.start, htake]
      rw [if_pos (hL.startable hx hst)]
      have hr := hk.trans (.mapRunner (j := x.journey) (f := fun r => { r with
        started := true, running := true, place := .here, log := r.log ++ [.start] }) rfl)
      split
      · exact hr.trans (.of_runner rfl rfl rfl rfl)
      · exact hr
    · simp only [Relay.resume, htake]
      rw [if_pos (hL.resumable hx (by simpa using hst))]
      exact hk.trans (.mapRunner rfl)
  | leave t j h => exact hT.kept (.mapRunner rfl)
  | move hm t j d h hp => exact hT.kept (.mapRunner rfl)
  | depart t j d h =>
    exact hT.kept ((.mapRunner rfl : Kept c (c.move j d)).trans (.yield _ t j _))
  | newTeam j kind => exact hT.kept (.of_runner rfl rfl rfl rfl)
  | newSeat j l hm => exact hT.kept (.of_runner rfl rfl rfl rfl)
  | newErrand j => exact hT.kept (.of_runner rfl rfl rfl rfl)
  | goGroup t j kind h =>
    exact hT.kept ((.of_runner rfl rfl rfl rfl : Kept c (c.newTeam j kind)).trans (.yield _ t j _))
  | get t j l h hm =>
    exact hT.kept ((.of_runner rfl rfl rfl rfl : Kept c (c.newSeat j l)).trans (.yield _ t j _))
  | deferIo t j h =>
    exact hT.kept ((.of_runner rfl rfl rfl rfl : Kept c (c.newErrand j)).trans (.yield _ t j _))
  | save t j threw h =>
    exact hT.kept ((.mapRunner rfl : Kept c (c.mapRunner j fun r => { r with
      running := false, log := r.log ++ [.save] })).trans (.of_runner rfl rfl rfl rfl))
  | delete t j h hd => exact hT.delete hL h hd
  | answer t j d h hd =>
    exact hT.kept ((.mapRunner rfl : Kept c (c.mapRunner j fun r =>
      { r with deferHandler := none })).trans (.answer _ t j d))
  | launch t j k d h =>
    exact (hT.create d (some k)).kept (.of_runner rfl rfl rfl rfl)
  | endLoop t j k h =>
    exact hT.kept ((.of_runner rfl rfl rfl rfl : Kept c (c.setStage t .finishing)).trans
      (.release _ k _))
  | drop t x h hx => exact hT.kept (.of_runner rfl rfl rfl rfl)
  | finish t k x h hx hs hr =>
    exact hT.kept ((.of_runner rfl rfl rfl rfl : Kept c (c.giveUp t x)).trans (.release _ k _))
  | win t j k h hr hk => exact hT.kept (.bump c k)
  | endCoro t j h hr =>
    exact hT.kept ((.mapRunner rfl : Kept c (c.mapRunner j fun r => { r with
      started := false, log := r.log ++ [.finish] })).trans (.of_runner rfl rfl rfl rfl))
  | endChild t j k h hr =>
    have he : Kept c (c.endCoro t j) := (.mapRunner rfl : Kept c (c.mapRunner j fun r => { r with
      started := false, log := r.log ++ [.finish] })).trans (.of_runner rfl rfl rfl rfl)
    exact hT.kept (he.trans (.release _ k _))
  | pop t l w ws hm hl hh => exact hT.kept (.of_runner rfl rfl rfl rfl)
  | sweep t l hm hh => exact hT.kept (.of_runner rfl rfl rfl rfl)
  | fire t w ws h =>
    rw [hW.fire_eq h]
    exact hT.kept ((.of_runner rfl rfl rfl rfl : Kept c ((c.setHand t ws).mapSeat w fun x =>
      { x with phase := .fired })).trans (.proceed _ _))
  | complete i h =>
    exact hT.kept ((.of_runner rfl rfl rfl rfl : Kept c (c.mapErrand i fun x =>
      { x with pending := false })).trans (.proceed _ _))

end Tallied

/-! ### All of it -/

structure Sound (c : Relay) : Prop where
  waits : c.Waits
  shares : c.Shares
  lives : c.Lives
  tallied : c.Tallied

namespace Sound

lemma init (alone : ℕ → Bool) : ({ alone := alone } : Relay).Sound :=
  ⟨.init alone, .init alone, .init alone, .init alone⟩

theorem hop {stray : Prop} (hS : c.Sound) (h : Hop stray c c') : c'.Sound :=
  ⟨hS.waits.hop h, hS.shares.hop hS.waits h, hS.lives.hop hS.shares hS.waits h,
    hS.tallied.hop hS.lives hS.waits h⟩

theorem hops {stray : Prop} (hS : c.Sound) (h : Hops stray c c') : c'.Sound := by
  induction h with
  | refl => exact hS
  | tail _ hh ih => exact ih.hop hh

end Sound

end Relay

end Synca
