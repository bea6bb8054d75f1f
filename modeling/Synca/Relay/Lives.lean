import Synca.Relay.Shares

/-!
# The baton of a journey

At any time the right to make a journey go on is in one place at most, and what place it is agrees
with the life the journey has led, with the flags of its coroutine and with its deferred handler.
This is the invariant behind every resumption.
-/

namespace Synca

open Transition

/-- The group still owes its owner a proceed. -/
structure Team.Armed (x : Team) : Prop where
  began : x.began = true
  holders : x.kind = .goWait → x.holders ≠ []
  counter : x.kind ≠ .goWait → x.counter = 0

/-- What a journey shows at a point of its life. -/
structure Runner.Fits (r : Runner) (l : Life) : Prop where
  alive : r.alive = l.alive
  started : r.started = l.started
  running : r.running = l.active
  away : r.place = .away ↔ l.away = true
  handler : r.deferHandler.isSome = true → l = .yielding ∨ l = .suspended
  yielding : l = .yielding → r.deferHandler.isSome = true

namespace Runner.Fits

variable {r : Runner}

lemma no_handler {l : Life} (h : r.Fits l) (hy : l ≠ .yielding) (hs : l ≠ .suspended) :
    r.deferHandler = none := by
  by_contra hn
  rcases h.handler (Option.isSome_iff_ne_none.mpr hn) with rfl | rfl
  · exact hy rfl
  · exact hs rfl

lemma start (h : r.Fits .created) (es : List LifeEvent) : ({ r with
    started := true, running := true, place := .here, log := es } : Runner).Fits .running := by
  have hd := h.no_handler nofun nofun
  exact ⟨h.alive, rfl, rfl, by simp [Life.away], by simp [hd], nofun⟩

lemma resume (h : r.Fits .proceeded) (es : List LifeEvent) :
    ({ r with running := true, place := .back, log := es } : Runner).Fits .running := by
  have hd := h.no_handler nofun nofun
  exact ⟨h.alive, h.started, rfl, by simp [Life.away], by simp [hd], nofun⟩

lemma leave (h : r.Fits .running) : ({ r with place := .here } : Runner).Fits .running :=
  ⟨h.alive, h.started, h.running, by simp [Life.away], h.handler, h.yielding⟩

lemma yield (h : r.Fits .running) (d : Deferred) (es : List LifeEvent) :
    ({ r with place := .away, deferHandler := some d, log := es } : Runner).Fits .yielding :=
  ⟨h.alive, h.started, h.running, by simp [Life.away], fun _ => .inl rfl, fun _ => rfl⟩

lemma save (h : r.Fits .yielding) (es : List LifeEvent) :
    ({ r with running := false, log := es } : Runner).Fits .suspended :=
  ⟨h.alive, h.started, rfl, h.away, fun _ => .inr rfl, nofun⟩

lemma saveLast (h : r.Fits .finishing) (es : List LifeEvent) :
    ({ r with running := false, log := es } : Runner).Fits .finished := by
  have hd := h.no_handler nofun nofun
  exact ⟨h.alive, h.started, rfl, h.away, by simp [hd], nofun⟩

lemma handled (h : r.Fits .suspended) :
    ({ r with deferHandler := none } : Runner).Fits .suspended :=
  ⟨h.alive, h.started, h.running, h.away, by simp, nofun⟩

lemma proceed (h : r.Fits .suspended) (hd : r.deferHandler = none) (es : List LifeEvent) :
    ({ r with log := es } : Runner).Fits .proceeded :=
  ⟨h.alive, h.started, h.running, h.away, by simp [hd], nofun⟩

lemma finish (h : r.Fits .running) (es : List LifeEvent) :
    ({ r with started := false, log := es } : Runner).Fits .finishing := by
  have hd := h.no_handler nofun nofun
  exact ⟨h.alive, rfl, h.running, h.away, by simp [hd], nofun⟩

lemma delete (h : r.Fits .finished) (es : List LifeEvent) :
    ({ r with alive := false, log := es } : Runner).Fits .deleted := by
  have hd := h.no_handler nofun nofun
  exact ⟨rfl, h.started, h.running, h.away, by simp [hd], nofun⟩

end Runner.Fits

namespace Relay

variable {c c' : Relay} {t j k i : ℕ} {l : Life}

/-- Where the right to make a journey go on can be. -/
inductive Place where
  | task (start : Bool)
  | running (t : ℕ)
  | switched (t : ℕ)
  | exiting (t : ℕ)
  | team (k : ℕ)
  | seat (w : ℕ)
  | errand (i : ℕ)

def Place.stage : Place → Option (ℕ × Stage)
  | .running t  => some (t, .running)
  | .switched t => some (t, .switched)
  | .exiting t  => some (t, .exiting)
  | _           => none

def Does (c : Relay) (t j : ℕ) (g : Stage) : Prop :=
  ∃ x, c.exec t = some x ∧ x.journey = j ∧ x.stage = g

def At (c : Relay) : Place → ℕ → Prop
  | .task b,     j => ∃ x ∈ c.posted, x.journey = j ∧ x.start = b
  | .running t,  j => c.Does t j .running
  | .switched t, j => c.Does t j .switched
  | .exiting t,  j => c.Does t j .exiting
  | .team k,     j => (c.team k).owner = j ∧ (c.team k).Armed
  | .seat w,     j => (c.seat w).owner = j ∧ (c.seat w).phase = .armed
  | .errand i,   j => (c.errand i).owner = j ∧ (c.errand i).pending = true

/-- The journey waits, and its deferred handler has run. -/
def Place.Waiting : Place → Prop
  | .team _ | .seat _ | .errand _ => True
  | _                             => False

/-- The place agrees with the life; `b` tells whether a deferred handler is set. -/
def Place.Suits : Place → Life → Bool → Prop
  | .task true,  l, _ => l = .created
  | .task false, l, _ => l = .proceeded
  | .running _,  l, _ => l = .running
  | .switched _, l, _ => l = .yielding ∨ l = .finishing
  | .exiting _,  l, b => l = .suspended ∧ b = true ∨ l = .finished
  | _,           l, b => l = .suspended ∧ b = false

attribute [grind =] At Place.Suits Place.stage

/-- Journey `j` has led the life `l`, and all there is agrees with it. -/
structure Leads (c : Relay) (j : ℕ) (l : Life) : Prop where
  after : Life.absent.after (c.runner j).log = some l
  fits : (c.runner j).Fits l
  suits : ∀ p, c.At p j → p.Suits l (c.runner j).deferHandler.isSome

structure Lives (c : Relay) : Prop where
  leads : ∀ j, ∃ l, c.Leads j l
  excl : Exclusive c.At
  nodup : (c.posted.map Task.journey).Nodup
  sched : ∀ x ∈ c.posted, x.sched = (c.runner x.journey).sched
  fresh : ∀ j, j = 0 ∨ c.created < j → c.runner j = {}

/-- Journey `j` is suspended, and nothing is there to make it go on. -/
structure Idle (c : Relay) (j : ℕ) : Prop where
  after : Life.absent.after (c.runner j).log = some .suspended
  handler : (c.runner j).deferHandler = none
  nowhere : ∀ p, ¬ c.At p j

lemma does_iff_stage {g : Stage} : c.Does t j g ↔ c.stage t j = some g :=
  stage_eq_some_iff.symm

/-! ### What updates do to the places -/

lemma at_mapRunner (c : Relay) (j : ℕ) (f : Runner → Runner) (p : Place) :
    (c.mapRunner j f).At p i ↔ c.At p i := by
  cases p <;> exact Iff.rfl

lemma at_post {b : Bool} {p : Place} (h : (c.post j b).At p i) :
    c.At p i ∨ (p = .task b ∧ i = j) := by
  cases p with
  | task b' =>
    obtain ⟨x, hx, hi, hs⟩ := h
    rcases List.mem_append.mp hx with hx | hx
    · exact .inl ⟨x, hx, hi, hs⟩
    · obtain rfl := List.mem_singleton.mp hx
      exact .inr ⟨congrArg Place.task hs.symm, hi.symm⟩
  | _ => exact .inl h

lemma does_mapExec {f : Exec → Exec} (hj : ∀ x, (f x).journey = x.journey) {u : ℕ} {g : Stage}
    (h : (c.mapExec t f).Does u i g) :
    (u ≠ t ∧ c.Does u i g) ∨
      (u = t ∧ ∃ x, c.exec t = some x ∧ x.journey = i ∧ (f x).stage = g) := by
  obtain ⟨y, hy, hi, hg⟩ := h
  rw [exec_mapExec] at hy
  split_ifs at hy with hu
  · obtain ⟨x, hx, rfl⟩ := Option.map_eq_some_iff.mp hy
    exact .inr ⟨hu, x, hx, (hj x).symm.trans hi, hg⟩
  · exact .inl ⟨hu, y, hy, hi, hg⟩

/-- Thread `t`, which executes journey `j`, goes to stage `g`. -/
lemma at_mapExec {f : Exec → Exec} {g g' : Stage} (hj : ∀ x, (f x).journey = x.journey)
    (hg : ∀ x, (f x).stage = g) (ht : c.Does t j g') {p : Place} (h : (c.mapExec t f).At p i) :
    (c.At p i ∧ ∀ n, p.stage ≠ some (t, n)) ∨ (i = j ∧ p.stage = some (t, g)) := by
  have key : ∀ u n, (c.mapExec t f).Does u i n →
      (c.Does u i n ∧ u ≠ t) ∨ (i = j ∧ (u, n) = (t, g)) := by
    intro u n h
    obtain ⟨hu, h⟩ | ⟨rfl, x, hx, hi, hn⟩ := does_mapExec hj h
    · exact .inl ⟨h, hu⟩
    · obtain ⟨y, hy, hyj, -⟩ := ht
      obtain rfl : x = y := Option.some_injective _ (hx.symm.trans hy)
      exact .inr ⟨hi.symm.trans hyj, by rw [← hn, hg]⟩
  cases p with
  | running u | switched u | exiting u =>
    obtain ⟨h, hu⟩ | ⟨hi, hg⟩ := key u _ h
    · exact .inl ⟨h, fun n hn => hu (Prod.mk.inj (Option.some_injective _ hn)).1⟩
    · exact .inr ⟨hi, congrArg some hg⟩
  | task b => exact .inl ⟨h, nofun⟩
  | team k => exact .inl ⟨h, nofun⟩
  | seat w => exact .inl ⟨h, nofun⟩
  | errand i => exact .inl ⟨h, nofun⟩

lemma at_mapTeam {f : Team → Team} {p : Place} (h : (c.mapTeam k f).At p i) :
    (c.At p i ∧ p ≠ .team k) ∨
      (p = .team k ∧ (f (c.team k)).owner = i ∧ (f (c.team k)).Armed) := by
  cases p with
  | team n =>
    have h : ((c.mapTeam k f).team n).owner = i ∧ ((c.mapTeam k f).team n).Armed := h
    rw [team_mapTeam] at h
    split_ifs at h with hn
    · exact .inr ⟨congrArg Place.team hn, h⟩
    · exact .inl ⟨h, fun hp => hn (Place.team.inj hp)⟩
  | _ => exact .inl ⟨h, nofun⟩

lemma at_mapSeat {w : ℕ} {f : Seat → Seat} {p : Place} (h : (c.mapSeat w f).At p i) :
    (c.At p i ∧ p ≠ .seat w) ∨
      (p = .seat w ∧ (f (c.seat w)).owner = i ∧ (f (c.seat w)).phase = .armed) := by
  cases p with
  | seat n =>
    have h : ((c.mapSeat w f).seat n).owner = i ∧ ((c.mapSeat w f).seat n).phase = .armed := h
    rw [seat_mapSeat] at h
    split_ifs at h with hn
    · exact .inr ⟨congrArg Place.seat hn, h⟩
    · exact .inl ⟨h, fun hp => hn (Place.seat.inj hp)⟩
  | _ => exact .inl ⟨h, nofun⟩

lemma at_mapErrand {n : ℕ} {f : Errand → Errand} {p : Place} (h : (c.mapErrand n f).At p i) :
    (c.At p i ∧ p ≠ .errand n) ∨
      (p = .errand n ∧ (f (c.errand n)).owner = i ∧ (f (c.errand n)).pending = true) := by
  cases p with
  | errand m =>
    have h : ((c.mapErrand n f).errand m).owner = i ∧
      ((c.mapErrand n f).errand m).pending = true := h
    rw [errand_mapErrand] at h
    split_ifs at h with hm
    · exact .inr ⟨congrArg Place.errand hm, h⟩
    · exact .inl ⟨h, fun hp => hm (Place.errand.inj hp)⟩
  | _ => exact .inl ⟨h, nofun⟩

namespace Lives

lemma init (alone : ℕ → Bool) : ({ alone := alone } : Relay).Lives := by
  have hat : ∀ p i, ¬ ({ alone := alone } : Relay).At p i := by
    intro p i h
    cases p with
    | task b =>
      obtain ⟨x, hx, -⟩ := h
      cases hx
    | running t | switched t | exiting t =>
      obtain ⟨x, hx, -⟩ := h
      cases hx
    | team k => cases h.2.began
    | seat w => cases h.2
    | errand n => cases h.2
  refine ⟨fun j => ⟨.absent, rfl, ?_, fun p h => absurd h (hat p j)⟩, fun p q j hp => ?_,
    List.nodup_nil, nofun, fun _ _ => rfl⟩
  · constructor <;> simp [Life.alive, Life.started, Life.active, Life.away]
  · exact absurd hp (hat p j)

/-- The life of a journey whose place is known. -/
lemma leads_at (hL : c.Lives) {p : Place} (hp : c.At p j) :
    ∃ l, c.Leads j l ∧ p.Suits l (c.runner j).deferHandler.isSome := by
  obtain ⟨l, hl⟩ := hL.leads j
  exact ⟨l, hl, hl.suits p hp⟩

lemma leads_running (hL : c.Lives) (h : c.stage t j = some .running) : c.Leads j .running := by
  have hp : c.At (.running t) j := does_iff_stage.mpr h
  obtain ⟨l, hlead, hl⟩ := hL.leads_at hp
  obtain rfl : l = .running := hl
  exact hlead

/-- A journey that leaves the coroutine without a deferred handler has finished. -/
lemma leads_exiting (hL : c.Lives) (h : c.stage t j = some .exiting)
    (hd : (c.runner j).deferHandler = none) : c.Leads j .finished := by
  have hp : c.At (.exiting t) j := does_iff_stage.mpr h
  obtain ⟨l, hlead, ⟨-, hs⟩ | hl⟩ := hL.leads_at hp
  · rw [hd] at hs
    cases hs
  · exact hl ▸ hlead

/-- One journey may have changed; all others are as they were. -/
lemma change (hL : c.Lives) (j : ℕ) {q : Option Place}
    (hrunner : ∀ i, i ≠ j → c'.runner i = c.runner i)
    (hat : ∀ p i, c'.At p i → (c.At p i ∧ i ≠ j) ∨ (q = some p ∧ i = j))
    (hj : ∃ l, Life.absent.after (c'.runner j).log = some l ∧ (c'.runner j).Fits l ∧
      ∀ p, q = some p → p.Suits l (c'.runner j).deferHandler.isSome)
    (hnodup : (c'.posted.map Task.journey).Nodup)
    (hsched : ∀ x ∈ c'.posted, x.sched = (c'.runner x.journey).sched)
    (hfresh : ∀ i, i = 0 ∨ c'.created < i → c'.runner i = {}) : c'.Lives := by
  refine ⟨fun i => ?_, fun p p' i hp hp' => ?_, hnodup, hsched, hfresh⟩
  · by_cases hi : i = j
    · subst hi
      obtain ⟨l, ha, hf, hs⟩ := hj
      refine ⟨l, ha, hf, fun p hp => ?_⟩
      obtain ⟨-, hne⟩ | ⟨hq, -⟩ := hat p i hp
      · exact absurd rfl hne
      · exact hs p hq
    · obtain ⟨l, ha, hf, hs⟩ := hL.leads i
      rw [← hrunner i hi] at ha hf hs
      refine ⟨l, ha, hf, fun p hp => ?_⟩
      obtain ⟨hp, -⟩ | ⟨-, rfl⟩ := hat p i hp
      · exact hs p hp
      · exact absurd rfl hi
  · obtain ⟨hp, hi⟩ | ⟨hq, rfl⟩ := hat p i hp
    · obtain ⟨hp', -⟩ | ⟨-, rfl⟩ := hat p' i hp'
      · exact hL.excl hp hp'
      · exact absurd rfl hi
    · obtain ⟨-, hi⟩ | ⟨hq', -⟩ := hat p' i hp'
      · exact absurd rfl hi
      · exact Option.some_injective _ (hq.symm.trans hq')

/-- Places are given up, and nothing else. -/
lemma mono (hL : c.Lives) (hr : c'.runner = c.runner) (hp : c'.posted = c.posted)
    (hc : c'.created = c.created) (hat : ∀ p i, c'.At p i → c.At p i) : c'.Lives := by
  refine ⟨fun j => ?_, hL.excl.mono hat, hp ▸ hL.nodup, ?_, ?_⟩
  · obtain ⟨l, ha, hf, hs⟩ := hL.leads j
    rw [← hr] at ha hf hs
    exact ⟨l, ha, hf, fun p hp => hs p (hat p j hp)⟩
  · rw [hp, hr]
    exact hL.sched
  · rw [hc, hr]
    exact hL.fresh

lemma exists_of_not_absent (hL : c.Lives) (hl : Life.absent.after (c.runner j).log = some l)
    (ha : l ≠ .absent) : 0 < j ∧ j ≤ c.created := by
  by_contra hj
  have hj : j = 0 ∨ c.created < j := by omega
  rw [hL.fresh j hj] at hl
  exact ha (Option.some_injective _ hl).symm

lemma mem_journeys {x : ℕ} : x ∈ c.posted.map Task.journey ↔ ∃ b, c.At (.task b) x := by
  rw [List.mem_map]
  constructor
  · rintro ⟨y, hy, hx⟩
    exact ⟨y.start, y, hy, hx, rfl⟩
  · rintro ⟨b, y, hy, hx, -⟩
    exact ⟨y, hy, hx⟩

/-! ### Threads go on -/

/-- A journey on a thread goes on to place `q`, or leaves its place for none. -/
lemma turn (hL : c.Lives) {p : Place} {q : Option Place} {g g' : Stage} (hp : c.At p j)
    (hpg : p.stage = some (t, g)) (hq : ∀ p', p'.stage = some (t, g') → q = some p')
    {f : Runner → Runner} {e : Exec → Exec} (he : ∀ x, (e x).journey = x.journey)
    (hg : ∀ x, (e x).stage = g') (hs : (f (c.runner j)).sched = (c.runner j).sched)
    (hl : ∀ l, c.Leads j l → p.Suits l (c.runner j).deferHandler.isSome → l ≠ .absent ∧
      ∃ l', Life.absent.after (f (c.runner j)).log = some l' ∧ (f (c.runner j)).Fits l' ∧
        ∀ p', q = some p' → p'.Suits l' (f (c.runner j)).deferHandler.isSome) :
    ((c.mapRunner j f).mapExec t e).Lives := by
  obtain ⟨l, hlead, hsuit⟩ := hL.leads_at hp
  obtain ⟨habs, l', hafter, hfits, hsuits⟩ := hl l hlead hsuit
  have hrange := hL.exists_of_not_absent hlead.after habs
  have hself : ((c.mapRunner j f).mapExec t e).runner j = f (c.runner j) := by
    show (c.mapRunner j f).runner j = _
    rw [runner_mapRunner, if_pos rfl]
  have hother : ∀ i, i ≠ j → ((c.mapRunner j f).mapExec t e).runner i = c.runner i := by
    intro i hi
    show (c.mapRunner j f).runner i = _
    rw [runner_mapRunner, if_neg hi]
  have hdoes : (c.mapRunner j f).Does t j g := by
    cases p <;> cases hpg <;> exact hp
  refine hL.change j (q := q) hother (fun p' i h => ?_) ?_ hL.nodup (fun x hx => ?_) fun i hi => ?_
  · obtain ⟨hold, hne⟩ | ⟨hi, hstage⟩ := at_mapExec he hg hdoes h
    · rw [at_mapRunner] at hold
      refine .inl ⟨hold, ?_⟩
      rintro rfl
      exact hne g (hL.excl hp hold ▸ hpg)
    · exact .inr ⟨hq p' hstage, hi⟩
  · rw [hself]
    exact ⟨l', hafter, hfits, hsuits⟩
  · by_cases hx' : x.journey = j
    · rw [hx', hself, hs, ← hx']
      exact hL.sched x hx
    · rw [hother _ hx']
      exact hL.sched x hx
  · have hi' : i = 0 ∨ c.created < i := hi
    rw [hother i (by omega)]
    exact hL.fresh i hi'

lemma yield (hL : c.Lives) (h : c.stage t j = some .running) (d : Deferred) :
    (c.yield t j d).Lives := by
  have hp : c.At (.running t) j := does_iff_stage.mpr h
  refine hL.turn (q := some (.switched t)) hp rfl (fun p' hp' => ?_) (fun _ => rfl) (fun _ => rfl)
    rfl fun l hlead hl => ?_
  · cases p' <;> cases hp'
    rfl
  · obtain rfl : l = .running := hl
    refine ⟨nofun, .yielding, Life.after_append hlead.after .yield, hlead.fits.yield d _, ?_⟩
    rintro _ ⟨⟩
    exact .inl rfl

lemma save (hL : c.Lives) (h : c.stage t j = some .switched) (threw : Bool) :
    (c.save t j threw).Lives := by
  have hp : c.At (.switched t) j := does_iff_stage.mpr h
  refine hL.turn (q := some (.exiting t)) hp rfl (fun p' hp' => ?_) (fun _ => rfl) (fun _ => rfl)
    rfl fun l hlead hl => ?_
  · cases p' <;> cases hp'
    rfl
  · rcases hl with rfl | rfl
    · refine ⟨nofun, .suspended, Life.after_append hlead.after .save, hlead.fits.save _, ?_⟩
      rintro _ ⟨⟩
      exact .inl ⟨rfl, hlead.fits.yielding rfl⟩
    · refine ⟨nofun, .finished, Life.after_append hlead.after .save, hlead.fits.saveLast _, ?_⟩
      rintro _ ⟨⟩
      exact .inr rfl

lemma endCoro (hL : c.Lives) (h : c.stage t j = some .running) : (c.endCoro t j).Lives := by
  have hp : c.At (.running t) j := does_iff_stage.mpr h
  refine hL.turn (q := some (.switched t)) hp rfl (fun p' hp' => ?_) (fun _ => rfl) (fun _ => rfl)
    rfl fun l hlead hl => ?_
  · cases p' <;> cases hp'
    rfl
  · obtain rfl : l = .running := hl
    refine ⟨nofun, .finishing, Life.after_append hlead.after .finish, hlead.fits.finish _, ?_⟩
    rintro _ ⟨⟩
    exact .inr rfl

lemma delete (hL : c.Lives) (h : c.stage t j = some .exiting)
    (hd : (c.runner j).deferHandler = none) : (c.delete t j).Lives := by
  have hp : c.At (.exiting t) j := does_iff_stage.mpr h
  have hr : ((c.mapRunner j fun r => { r with alive := false, log := r.log ++ [.delete] }).setStage
      t .finishing).Lives := by
    refine hL.turn (q := none) hp rfl (fun p' hp' => ?_) (fun _ => rfl) (fun _ => rfl) rfl
      fun l hlead hl => ?_
    · cases p' <;> cases hp'
    · rcases hl with ⟨-, hs⟩ | rfl
      · rw [hd] at hs
        cases hs
      · exact ⟨nofun, .deleted, Life.after_append hlead.after .delete, hlead.fits.delete _, nofun⟩
  exact hr.mono rfl rfl rfl fun p i h => by cases p <;> exact h

/-- A journey that executes changes and goes on. It has no task posted, so its scheduler may be
set. -/
lemma mapRunner (hL : c.Lives) (h : c.stage t j = some .running) {f : Runner → Runner}
    (hlog : (f (c.runner j)).log = (c.runner j).log)
    (hfits : (c.runner j).Fits .running → (f (c.runner j)).Fits .running) :
    (c.mapRunner j f).Lives := by
  have hp : c.At (.running t) j := does_iff_stage.mpr h
  have hlead := hL.leads_running h
  have hrange := hL.exists_of_not_absent hlead.after nofun
  refine hL.change j (q := some (.running t)) (fun i hi => ?_) (fun p i hi => ?_)
    ⟨.running, ?_, ?_, ?_⟩ hL.nodup (fun x hx => ?_) fun i hi => ?_
  · rw [runner_mapRunner, if_neg hi]
  · rw [at_mapRunner] at hi
    by_cases hij : i = j
    · subst hij
      exact .inr ⟨congrArg some (hL.excl hp hi), rfl⟩
    · exact .inl ⟨hi, hij⟩
  · rw [runner_mapRunner, if_pos rfl, hlog]
    exact hlead.after
  · rw [runner_mapRunner, if_pos rfl]
    exact hfits hlead.fits
  · rintro _ ⟨⟩
    rfl
  · have hxj : x.journey ≠ j := by
      rintro rfl
      cases hL.excl hp (show c.At (.task x.start) x.journey from ⟨x, hx, rfl, rfl⟩)
    rw [hL.sched x hx, runner_mapRunner, if_neg hxj]
  · have hi' : i = 0 ∨ c.created < i := hi
    rw [runner_mapRunner, if_neg (by omega)]
    exact hL.fresh i hi'

/-- A call of the journey is over. -/
lemma leave (hL : c.Lives) (h : c.stage t j = some .running) : (c.leave j).Lives :=
  hL.mapRunner h rfl Runner.Fits.leave

lemma move (hL : c.Lives) (h : c.stage t j = some .running) (d : ℕ) : (c.move j d).Lives :=
  hL.mapRunner h rfl fun hf =>
    ⟨hf.alive, hf.started, hf.running, hf.away, hf.handler, hf.yielding⟩

/-! ### Suspended journeys -/

lemma fits_of_idle (hL : c.Lives) (hI : c.Idle j) : (c.runner j).Fits .suspended := by
  obtain ⟨l, hlead⟩ := hL.leads j
  obtain rfl : l = .suspended := Option.some_injective _ (hlead.after.symm.trans hI.after)
  exact hlead.fits

/-- A journey whose baton is nowhere gets a task. -/
lemma engage (hL : c.Lives) (hno : ∀ p, ¬ c.At p j) {f : Runner → Runner} {b : Bool} {n : ℕ}
    (hl : ∃ l, Life.absent.after (f (c.runner j)).log = some l ∧ (f (c.runner j)).Fits l ∧
      (Place.task b).Suits l (f (c.runner j)).deferHandler.isSome)
    (hc : c.created ≤ n) (hj : 0 < j ∧ j ≤ n) :
    ({ (c.mapRunner j f).post j b with created := n } : Relay).Lives := by
  have hself : (c.mapRunner j f).runner j = f (c.runner j) := by
    rw [runner_mapRunner, if_pos rfl]
  have hother : ∀ i, i ≠ j → (c.mapRunner j f).runner i = c.runner i := by
    intro i hi
    rw [runner_mapRunner, if_neg hi]
  refine hL.change j (q := some (.task b)) hother (fun p i hi => ?_) ?_ ?_ (fun x hx => ?_)
    fun i hi => ?_
  · have hi : ((c.mapRunner j f).post j b).At p i := by cases p <;> exact hi
    obtain hold | ⟨rfl, hij⟩ := at_post hi
    · rw [at_mapRunner] at hold
      refine .inl ⟨hold, ?_⟩
      rintro rfl
      exact hno p hold
    · exact .inr ⟨rfl, hij⟩
  · obtain ⟨l, ha, hf, hs⟩ := hl
    refine ⟨l, (congrArg (Life.after _ ·.log) hself).trans ha, hself ▸ hf, ?_⟩
    rintro _ ⟨⟩
    exact hself ▸ hs
  · show ((c.posted ++ [_]).map Task.journey).Nodup
    rw [List.map_append]
    refine List.nodup_append.mpr ⟨hL.nodup, List.nodup_singleton _, ?_⟩
    rintro x hx _ hy rfl
    obtain rfl := List.mem_singleton.mp hy
    obtain ⟨b, hb⟩ := mem_journeys.mp hx
    exact hno _ hb
  · rcases List.mem_append.mp hx with hx | hx
    · have hne : x.journey ≠ j := fun hxj => hno (.task x.start) ⟨x, hx, hxj, rfl⟩
      rw [hL.sched x hx, ← hother _ hne]
      rfl
    · obtain rfl := List.mem_singleton.mp hx
      rfl
  · have hi' : i = 0 ∨ n < i := hi
    exact (hother i (by omega)).trans (hL.fresh i (by omega))

/-- A journey is proceeded by whoever held its baton. -/
lemma proceed (hL : c.Lives) (hI : c.Idle j) : (c.proceed j).Lives :=
  hL.engage (f := fun r => { r with log := r.log ++ [.proceed] }) (b := false) hI.nowhere
    ⟨.proceeded, Life.after_append hI.after .proceed, (hL.fits_of_idle hI).proceed hI.handler _,
      rfl⟩ le_rfl (hL.exists_of_not_absent hI.after nofun)

/-- A suspended journey leaves its baton at a waiting place. -/
lemma arm (hL : c.Lives) (hI : c.Idle j) {q : Place} (hw : q.Waiting) (hr : c'.runner = c.runner)
    (hp : c'.posted = c.posted) (hc : c'.created = c.created)
    (hat : ∀ p i, c'.At p i → c.At p i ∨ (p = q ∧ i = j)) : c'.Lives := by
  refine hL.change j (q := some q) (fun i _ => by rw [hr]) (fun p i hi => ?_)
    ⟨.suspended, ?_, ?_, ?_⟩ (hp ▸ hL.nodup) ?_ ?_
  · obtain hi | ⟨rfl, hi⟩ := hat p i hi
    · refine .inl ⟨hi, ?_⟩
      rintro rfl
      exact hI.nowhere p hi
    · exact .inr ⟨rfl, hi⟩
  · rw [hr]
    exact hI.after
  · rw [hr]
    exact hL.fits_of_idle hI
  · rintro _ ⟨⟩
    rw [hr, hI.handler]
    cases q <;> first | exact ⟨rfl, rfl⟩ | cases hw
  · rw [hp, hr]
    exact hL.sched
  · rw [hc, hr]
    exact hL.fresh

/-- The baton is taken from a waiting place. -/
lemma disarm (hL : c.Lives) {p : Place} (hp : c.At p j) (hw : p.Waiting)
    (hr : c'.runner = c.runner) (hat : ∀ q i, c'.At q i → c.At q i ∧ q ≠ p) : c'.Idle j := by
  obtain ⟨l, hlead, hl⟩ := hL.leads_at hp
  have hl : l = .suspended ∧ (c.runner j).deferHandler.isSome = false := by
    cases p <;> first | exact hl | cases hw
  obtain ⟨rfl, hd⟩ := hl
  refine ⟨hr ▸ hlead.after, ?_, fun q hq => ?_⟩
  · rw [hr]
    simpa using hd
  · obtain ⟨hq, hne⟩ := hat q j hq
    exact hne (hL.excl hq hp)

/-! ### The deferred handler runs -/

/-- The handler is taken, and the thread is no longer concerned with the journey. -/
lemma handled (hL : c.Lives) (h : c.stage t j = some .exiting) {d : Deferred}
    (hd : (c.runner j).deferHandler = some d) {g : Stage}
    (hg : ∀ p : Place, p.stage ≠ some (t, g)) :
    ((c.mapRunner j fun r => { r with deferHandler := none }).setStage t g).Lives ∧
    ((c.mapRunner j fun r => { r with deferHandler := none }).setStage t g).Idle j := by
  have hp : c.At (.exiting t) j := does_iff_stage.mpr h
  have hsusp : ∀ l, c.Leads j l → (Place.exiting t).Suits l (c.runner j).deferHandler.isSome →
      l = .suspended := by
    rintro l hlead (⟨hl, -⟩ | rfl)
    · exact hl
    · rw [hlead.fits.no_handler nofun nofun] at hd
      cases hd
  constructor
  · refine hL.turn (q := none) hp rfl (fun p' hp' => absurd hp' (hg p')) (fun _ => rfl)
      (fun _ => rfl) rfl fun l hlead hl => ?_
    obtain rfl := hsusp l hlead hl
    exact ⟨nofun, .suspended, hlead.after, hlead.fits.handled, nofun⟩
  · obtain ⟨l, hlead, hl⟩ := hL.leads_at hp
    obtain rfl := hsusp l hlead hl
    have hself : ((c.mapRunner j fun r => { r with deferHandler := none }).setStage t g).runner j =
        { c.runner j with deferHandler := none } := Function.update_self _ _ _
    refine ⟨?_, ?_, fun p hp' => ?_⟩
    · rw [hself]
      exact hlead.after
    · rw [hself]
    · have hdoes : (c.mapRunner j fun r => { r with deferHandler := none }).Does t j .exiting :=
        hp
      obtain ⟨hold, hne⟩ | ⟨-, hstage⟩ :=
        at_mapExec (f := fun x => { x with stage := g }) (fun _ => rfl) (fun _ => rfl) hdoes hp'
      · rw [at_mapRunner] at hold
        exact hne .exiting (hL.excl hp hold ▸ rfl)
      · exact hg p hstage

lemma answer (hL : c.Lives) (hW : c.Waits) (h : c.stage t j = some .exiting)
    {d : Deferred} (hd : (c.runner j).deferHandler = some d) :
    ((c.mapRunner j fun r => { r with deferHandler := none }).answer t j d).Lives := by
  have hprep := hW.prepared j d hd
  have hfin : ∀ p : Place, p.stage ≠ some (t, .finishing) := by
    intro p
    cases p <;> nofun
  cases d with
  | proceed =>
    obtain ⟨hL', hI⟩ := hL.handled h hd hfin
    exact hL'.proceed hI
  | launch k =>
    obtain ⟨hL', hI⟩ := hL.handled h hd (g := .loop k) (fun p => by cases p <;> nofun)
    refine hL'.arm hI (q := .team k) trivial rfl rfl rfl fun p i hi => ?_
    have hi : (((c.mapRunner j fun r => { r with deferHandler := none }).setStage t
        (.loop k)).mapTeam k fun x => { x with began := true, holders := [.loop] }).At p i := by
      cases p <;> exact hi
    obtain ⟨hi, -⟩ | ⟨rfl, ho, -⟩ := at_mapTeam hi
    · exact .inl hi
    · exact .inr ⟨rfl, ho.symm.trans hprep.1⟩
  | setProceed w =>
    obtain ⟨hL', hI⟩ := hL.handled h hd hfin
    refine hL'.arm hI (q := .seat w) trivial rfl rfl rfl fun p i hi => ?_
    have hi : (((c.mapRunner j fun r => { r with deferHandler := none }).setStage t
        .finishing).mapSeat w fun x => { x with phase := .armed }).At p i := by
      cases p <;> exact hi
    obtain ⟨hi, -⟩ | ⟨rfl, ho, -⟩ := at_mapSeat hi
    · exact .inl hi
    · exact .inr ⟨rfl, ho.symm.trans hprep.1⟩
  | startIo n =>
    obtain ⟨hL', hI⟩ := hL.handled h hd hfin
    refine hL'.arm hI (q := .errand n) trivial rfl rfl rfl fun p i hi => ?_
    have hi : (((c.mapRunner j fun r => { r with deferHandler := none }).setStage t
        .finishing).mapErrand n fun x => { x with pending := true }).At p i := by
      cases p <;> exact hi
    obtain ⟨hi, -⟩ | ⟨rfl, ho, -⟩ := at_mapErrand hi
    · exact .inl hi
    · exact .inr ⟨rfl, ho.symm.trans hprep.1⟩

/-! ### Groups -/

/-- A group that changes owes nothing it did not owe before. -/
lemma mapTeam (hL : c.Lives) {f : Team → Team} (ho : (f (c.team k)).owner = (c.team k).owner)
    (ha : (f (c.team k)).Armed → (c.team k).Armed) : (c.mapTeam k f).Lives := by
  refine hL.mono rfl rfl rfl fun p i hi => ?_
  obtain ⟨hi, -⟩ | ⟨rfl, hi, harm⟩ := at_mapTeam hi
  · exact hi
  · exact ⟨ho.symm.trans hi, ha harm⟩

/-- A group pays what it owes. -/
lemma pay (hL : c.Lives) (h : (c.team k).Armed) {f : Team → Team} (ha : ¬ (f (c.team k)).Armed) :
    ((c.mapTeam k f).proceed (c.team k).owner).Lives := by
  have hp : c.At (.team k) (c.team k).owner := ⟨rfl, h⟩
  have hat : ∀ q i, (c.mapTeam k f).At q i → c.At q i ∧ q ≠ .team k := by
    intro q i hq
    obtain hq | ⟨-, -, harm⟩ := at_mapTeam hq
    · exact hq
    · exact absurd harm ha
  have hL' : (c.mapTeam k f).Lives := hL.mono rfl rfl rfl fun q i hq => (hat q i hq).1
  exact hL'.proceed (hL.disarm hp trivial rfl hat)

lemma bump (hL : c.Lives) (hb : (c.team k).began = true) (hk : (c.team k).kind ≠ .goWait) :
    (c.bump k).Lives := by
  simp only [Relay.bump]
  split_ifs with hc
  · apply hL.pay ⟨hb, fun h => absurd h hk, fun _ => hc⟩
    intro ha
    exact absurd (ha.counter hk) (Nat.succ_ne_zero _)
  · refine hL.mapTeam rfl fun ha => ?_
    exact absurd (ha.counter hk) (Nat.succ_ne_zero _)

lemma hold (hL : c.Lives) (h : Holder) (hne : (c.team k).holders ≠ []) : (c.hold k h).Lives :=
  hL.mapTeam rfl fun ha => ⟨ha.began, fun _ => hne, ha.counter⟩

/-- A copy that exists is dropped. -/
lemma release (hL : c.Lives) (hb : (c.team k).began = true) {h : Holder}
    (hh : h ∈ (c.team k).holders) : (c.release k h).Lives := by
  have hne : (c.team k).holders ≠ [] := List.ne_nil_of_mem hh
  have he : (c.mapTeam k fun x => { x with holders := x.holders.erase h }).Lives :=
    hL.mapTeam rfl fun ha => ⟨hb, fun _ => hne, ha.counter⟩
  have hteam : (c.mapTeam k fun x => { x with holders := x.holders.erase h }).team k =
      { c.team k with holders := (c.team k).holders.erase h } := Function.update_self _ _ _
  simp only [Relay.release]
  split_ifs with hlast
  · unfold settle
    split
    case h_1 hk =>
      rw [hteam] at hk hlast ⊢
      exact hL.pay ⟨hb, fun _ => hne, fun h => absurd hk h⟩ fun ha => ha.holders hk hlast
    case h_2 => exact he
    case h_3 hk =>
      refine he.bump ?_ (by rw [hk]; simp)
      rw [hteam]
      exact hb
  · exact he

end Lives

end Relay

end Synca
