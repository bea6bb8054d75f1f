import Synca.Relay.Rides

/-!
# No baton is lost

The right to make a journey go on is somewhere as long as the journey exists: whoever gives it up
hands it to somebody else, and only the journey that is deleted takes its own along. Likewise a
waiter stays on the list of its channel, or in the hand of the thread that has taken it off, until
it is called.
-/

namespace Synca

open Transition

namespace Relay

variable {c c' c₁ : Relay} {t j k i w : ℕ} {stray : Prop}

/-- Every journey that exists has its right somewhere. -/
def Held (c : Relay) : Prop := ∀ j, (c.runner j).alive = true → ∃ p, c.At p j

/-- What is known of journeys that exist afterwards: each right is handed on. -/
structure Carries (c c' : Relay) : Prop where
  alive : ∀ j, (c'.runner j).alive = true → (c.runner j).alive = true ∨ ∃ p, c'.At p j
  places : ∀ p j, c.At p j → (c'.runner j).alive = true → ∃ q, c'.At q j

lemma Held.carries (hH : c.Held) (h : Carries c c') : c'.Held := by
  intro j hj
  rcases h.alive j hj with ha | hp
  · obtain ⟨p, hp⟩ := hH j ha
    exact h.places p j hp hj
  · exact hp

namespace Carries

lemma trans (h : Carries c c') (h' : Carries c' c₁) : Carries c c₁ where
  alive j hj := by
    rcases h'.alive j hj with ha | hp
    · rcases h.alive j ha with ha' | ⟨p, hp⟩
      · exact .inl ha'
      · exact .inr (h'.places p j hp hj)
    · exact .inr hp
  places p j hp hj := by
    rcases h'.alive j hj with ha | hq
    · obtain ⟨q, hq⟩ := h.places p j hp ha
      exact h'.places q j hq hj
    · exact hq

/-- No journey changes, and every place but those of journey `j` is as it was. -/
lemma of_runner (hr : c'.runner = c.runner)
    (hp : ∀ p i, c.At p i → c'.At p i ∨ ∃ q, c'.At q i) : Carries c c' where
  alive _ hi := .inl (hr ▸ hi)
  places p i h _ := (hp p i h).elim (fun h => ⟨p, h⟩) id

lemma of_imp (hr : c'.runner = c.runner) (hp : ∀ p i, c.At p i → c'.At p i) : Carries c c' :=
  of_runner hr fun p i h => .inl (hp p i h)

lemma mapRunner {f : Runner → Runner}
    (hf : (f (c.runner j)).alive = true → (c.runner j).alive = true) :
    Carries c (c.mapRunner j f) where
  alive i hi := by
    rw [runner_mapRunner] at hi
    split_ifs at hi with hij
    · exact .inl (hij ▸ hf hi)
    · exact .inl hi
  places p i h _ := ⟨p, (at_mapRunner c j f p).mpr h⟩

lemma post (c : Relay) (j : ℕ) (b : Bool) : Carries c (c.post j b) := by
  refine of_imp rfl fun p i h => ?_
  cases p with
  | task b' =>
    obtain ⟨x, hx, hi, hs⟩ := h
    exact ⟨x, List.mem_append_left _ hx, hi, hs⟩
  | _ => exact h

end Carries

/-- A task that was posted is a place. -/
lemma at_task_post (c : Relay) (j : ℕ) (b : Bool) : (c.post j b).At (.task b) j :=
  ⟨⟨(c.runner j).sched, j, b⟩, List.mem_append_right _ (List.mem_singleton_self _), rfl, rfl⟩

lemma at_task_proceed (c : Relay) (j : ℕ) : (c.proceed j).At (.task false) j := at_task_post _ j _

namespace Carries

lemma proceed (c : Relay) (j : ℕ) : Carries c (c.proceed j) :=
  (mapRunner id : Carries c (c.record j .proceed)).trans (post _ j false)

/-- All places of others stay, and journey `j` is proceeded. -/
lemma and_proceed (hr : c'.runner = c.runner) (hp : ∀ p i, c.At p i → i ≠ j → c'.At p i) :
    Carries c (c'.proceed j) := by
  have h := proceed c' j
  refine ⟨fun i hi => ?_, fun p i hi ha => ?_⟩
  · rcases h.alive i hi with ha | hq
    · exact .inl (hr ▸ ha)
    · exact .inr hq
  · by_cases hij : i = j
    · exact ⟨.task false, hij ▸ at_task_proceed c' j⟩
    · exact h.places p i (hp p i hi hij) ha

/-! ### Groups -/

lemma mapTeam {f : Team → Team} (ho : (f (c.team k)).owner = (c.team k).owner)
    (ha : (c.team k).Armed → (f (c.team k)).Armed) : Carries c (c.mapTeam k f) := by
  refine of_imp rfl fun p i h => ?_
  cases p with
  | team n =>
    show ((c.mapTeam k f).team n).owner = i ∧ ((c.mapTeam k f).team n).Armed
    rw [team_mapTeam]
    split_ifs with hn
    · subst hn
      exact ⟨ho.trans h.1, ha h.2⟩
    · exact h
  | _ => exact h

/-- The places of a group belong to its owner. -/
lemma pay (c : Relay) (k : ℕ) (f : Team → Team) :
    Carries c ((c.mapTeam k f).proceed (c.team k).owner) := by
  refine and_proceed rfl fun p i h hi => ?_
  cases p with
  | team n =>
    have hn : n ≠ k := by
      rintro rfl
      exact hi h.1.symm
    show ((c.mapTeam k f).team n).owner = i ∧ ((c.mapTeam k f).team n).Armed
    rw [team_mapTeam, if_neg hn]
    exact h
  | _ => exact h

lemma bump (c : Relay) (hk : (c.team k).kind ≠ .goWait) : Carries c (c.bump k) := by
  unfold Relay.bump
  simp only
  split_ifs with hc
  · exact pay c k _
  · refine mapTeam rfl fun ha => ?_
    exact absurd (ha.counter hk) hc

lemma release (c : Relay) (k : ℕ) (h : Holder) : Carries c (c.release k h) := by
  set f : Team → Team := fun x => { x with holders := x.holders.erase h }
  have hteam : (c.mapTeam k f).team k = f (c.team k) := by
    rw [team_mapTeam, if_pos rfl]
  have hkeep : (c.team k).kind ≠ .goWait ∨ (f (c.team k)).holders ≠ [] →
      Carries c (c.mapTeam k f) := by
    intro hk
    refine mapTeam rfl fun ha => ⟨ha.began, fun hw => ?_, ha.counter⟩
    exact hk.resolve_left (not_not.mpr hw)
  simp only [Relay.release]
  rw [hteam]
  split_ifs with hh
  · unfold settle
    rw [hteam]
    cases hk : (f (c.team k)).kind with
    | goWait => exact pay c k f
    | goAnyWait =>
      refine hkeep (.inl ?_)
      simp [show (c.team k).kind = .goAnyWait from hk]
    | goAnyResult =>
      have hne : (c.team k).kind ≠ .goWait := by
        simp [show (c.team k).kind = .goAnyResult from hk]
      refine (hkeep (.inl hne)).trans (bump _ ?_)
      rw [hteam]
      exact hne
  · exact hkeep (.inr hh)

lemma hold (c : Relay) (k : ℕ) (h : Holder) : Carries c (c.hold k h) :=
  mapTeam rfl fun ha => ⟨ha.began, fun _ => by simp, ha.counter⟩

/-! ### Threads -/

/-- All places of others stay, and journey `j` has one if it exists. -/
lemma of_others (ha : ∀ i, (c'.runner i).alive = true → (c.runner i).alive = true)
    (hp : ∀ p i, c.At p i → i ≠ j → c'.At p i)
    (hq : (c'.runner j).alive = true → ∃ q, c'.At q j) : Carries c c' := by
  refine ⟨fun i hi => .inl (ha i hi), fun p i h hi => ?_⟩
  by_cases hij : i = j
  · exact hij ▸ hq (hij ▸ hi)
  · exact ⟨p, hp p i h hij⟩

/-- The two differ in what the threads do, and in journeys that change nothing here. -/
structure Alike (c c' : Relay) : Prop where
  alive : ∀ i, (c'.runner i).alive = true → (c.runner i).alive = true
  posted : c'.posted = c.posted
  team : c'.team = c.team
  seat : c'.seat = c.seat
  errand : c'.errand = c.errand

lemma Alike.at_iff (h : Alike c c') {p : Place} (hp : p.stage = none) : c'.At p i ↔ c.At p i := by
  cases p with
  | running | switched | exiting => cases hp
  | task => simp only [At, h.posted]
  | team => simp only [At, h.team]
  | seat => simp only [At, h.seat]
  | errand => simp only [At, h.errand]

lemma at_iff_does {p : Place} {g : Stage} (hp : p.stage = some (t, g)) :
    c.At p i ↔ c.Does t i g := by
  cases p <;> cases hp <;> exact Iff.rfl

/-- Threads that stand at a place of a journey do so afterwards. -/
lemma of_does (h : Alike c c') (hd : ∀ (p : Place) u g i, p.stage = some (u, g) → c.Does u i g →
    (c'.runner i).alive = true → ∃ q, c'.At q i) : Carries c c' := by
  refine ⟨fun i hi => .inl (h.alive i hi), fun p i hp hi => ?_⟩
  cases hs : p.stage with
  | none => exact ⟨p, (h.at_iff hs).mpr hp⟩
  | some s => exact hd p s.1 s.2 i hs ((at_iff_does hs).mp hp) hi

/-- Thread `t` was at no place of a journey. -/
lemma update (h : Alike c c') {y : Option Exec} (he : c'.exec = Function.update c.exec t y)
    (hy : ∀ (x : Exec) (p : Place), c.exec t = some x → p.stage ≠ some (t, x.stage)) :
    Carries c c' := by
  refine of_does h fun p u g i hp hd _ => ?_
  obtain ⟨x, hx, hi, hg⟩ := hd
  have hu : u ≠ t := by
    rintro rfl
    exact hy x p hx (hg ▸ hp)
  exact ⟨p, (at_iff_does hp).mpr ⟨x, by rw [he, Function.update_of_ne hu, hx], hi, hg⟩⟩

lemma giveUp {x : Exec} (hx : c.exec t = some x) (hg : x.stage = .finishing) :
    Carries c (c.giveUp t x) := by
  refine update (t := t) ⟨fun _ => id, rfl, rfl, rfl, rfl⟩ rfl fun y p hy => ?_
  obtain rfl : x = y := Option.some_injective _ (hx.symm.trans hy)
  rw [hg]
  cases p <;> simp [Place.stage]

/-- A thread leaves a launch loop. -/
lemma setStage (h : c.stage t j = some (.loop k)) (g : Stage) : Carries c (c.setStage t g) := by
  obtain ⟨x, hx, -, hg⟩ := stage_eq_some_iff.mp h
  refine update (t := t) ⟨fun _ => id, rfl, rfl, rfl, rfl⟩ rfl fun y p hy => ?_
  obtain rfl : x = y := Option.some_injective _ (hx.symm.trans hy)
  rw [hg]
  cases p <;> simp [Place.stage]

/-- The journey of a thread goes from place to place. -/
lemma mapExec {f : Exec → Exec} {g : Stage} (hj : ∀ x, (f x).journey = x.journey)
    (hf : ∀ x, (f x).stage = g) {q : Place} (hq : q.stage = some (t, g)) :
    Carries c (c.mapExec t f) := by
  refine of_does ⟨fun _ => id, rfl, rfl, rfl, rfl⟩ fun p u g' i hp hd _ => ?_
  obtain ⟨x, hx, hi, hg'⟩ := hd
  by_cases hu : u = t
  · subst hu
    refine ⟨q, (at_iff_does hq).mpr ⟨f x, ?_, (hj x).trans hi, hf x⟩⟩
    rw [exec_mapExec, if_pos rfl, hx, Option.map_some]
  · refine ⟨p, (at_iff_does hp).mpr ⟨x, ?_, hi, hg'⟩⟩
    rw [exec_mapExec, if_neg hu, hx]

lemma yield (c : Relay) (t j : ℕ) (d : Deferred) : Carries c (c.yield t j d) :=
  (mapRunner id : Carries c (c.mapRunner j fun r => { r with
    place := .away, deferHandler := some d, log := r.log ++ [.yield] })).trans
    (mapExec (fun _ => rfl) (fun _ => rfl) (q := .switched t) rfl)

/-- What is left of thread `t` is of no concern to other journeys than the one it executes. -/
lemma does_setStage_of_ne {g g' : Stage} {u : ℕ} (ht : c.stage t j = some g') (hi : i ≠ j)
    {n : Stage} (hd : c.Does u i n) : (c.setStage t g).Does u i n := by
  obtain ⟨x, hx, hxi, hn⟩ := hd
  obtain ⟨y, hy, hyj, -⟩ := stage_eq_some_iff.mp ht
  have hu : u ≠ t := by
    rintro rfl
    obtain rfl : x = y := Option.some_injective _ (hx.symm.trans hy)
    exact hi (hxi.symm.trans hyj)
  refine ⟨x, ?_, hxi, hn⟩
  show (c.mapExec t _).exec u = some x
  rw [exec_mapExec, if_neg hu, hx]

/-- A thread takes a task and executes its journey. -/
lemma take {x : Task} (ht : c.exec t = none) : Carries c (c.take t x) := by
  have hself : (c.take t x).At (.running t) x.journey := by
    refine ⟨⟨x.sched, x.journey, x.start, false, .running⟩, ?_, rfl, rfl⟩
    rw [exec_take, if_pos rfl]
  have hdoes : ∀ u i g, c.Does u i g → (c.take t x).Does u i g := by
    rintro u i g ⟨y, hy, hi, hg⟩
    have hu : u ≠ t := by
      rintro rfl
      cases ht.symm.trans hy
    exact ⟨y, by rw [exec_take, if_neg hu, hy], hi, hg⟩
  refine of_others (j := x.journey) (fun _ => id) (fun p i h hi => ?_) fun _ => ⟨_, hself⟩
  cases p with
  | task b =>
    obtain ⟨y, hy, hyi, hb⟩ := h
    have hne : y ≠ x := by
      rintro rfl
      exact hi hyi.symm
    exact ⟨y, (List.mem_erase_of_ne hne).mpr hy, hyi, hb⟩
  | running u | switched u | exiting u => exact hdoes u i _ h
  | team | seat | errand => exact h

end Carries

/-! ### Every hop -/

namespace Held

/-- The deferred handler leaves the right of the journey where it waits. -/
lemma answer (hH : c.Held) (hW : c.Waits) (hS : c.Shares) (h : c.stage t j = some .exiting)
    {d : Deferred} (hd : (c.runner j).deferHandler = some d) :
    ((c.mapRunner j fun r => { r with deferHandler := none }).answer t j d).Held := by
  have hprep := hW.prepared j d hd
  set c₁ := c.mapRunner j fun r => { r with deferHandler := none } with hc₁
  have h₁ : c₁.stage t j = some .exiting := h
  have hrunner : ∀ i, (c₁.runner i).alive = true → (c.runner i).alive = true := by
    intro i hi
    rw [hc₁, runner_mapRunner] at hi
    split_ifs at hi with hij
    · exact hij ▸ hi
    · exact hi
  -- the places of the others, thread by thread and list by list
  have hother : ∀ g p i, c.At p i → i ≠ j → (c₁.setStage t g).At p i := by
    intro g p i hp hi
    cases p with
    | running | switched | exiting => exact Carries.does_setStage_of_ne h₁ hi hp
    | task | team | seat | errand => exact hp
  refine hH.carries ?_
  cases d with
  | proceed =>
    have hm : Carries c ((c₁.setStage t .finishing).proceed j) :=
      (Carries.mapRunner id : Carries c c₁).trans (.and_proceed rfl fun p i hp hi =>
        hother _ p i ((at_mapRunner c j _ p).mp hp) hi)
    exact hm
  | launch k =>
    obtain ⟨ho, -, hb⟩ := hprep
    have hteam : ∀ n, (c₁.answer t j (.launch k)).team n =
        if n = k then { c.team k with began := true, holders := [.loop] } else c.team n :=
      fun n => Function.update_apply _ _ _ _
    refine .of_others (j := j) hrunner (fun p i hp hi => ?_) fun _ => ⟨.team k, ?_⟩
    · have hp' := hother (.loop k) p i hp hi
      cases p with
      | team n =>
        have hn : n ≠ k := by
          rintro rfl
          cases hb.symm.trans hp.2.began
        show ((c₁.answer t j (.launch k)).team n).owner = i ∧ _
        rw [hteam, if_neg hn]
        exact hp
      | _ => exact hp'
    · show ((c₁.answer t j (.launch k)).team k).owner = j ∧ _
      rw [hteam, if_pos rfl]
      exact ⟨ho, rfl, fun _ => List.cons_ne_nil _ _, fun _ => hS.unbegun k hb⟩
  | setProceed w =>
    obtain ⟨ho, -, hph, -⟩ := hprep
    have hseat : ∀ n, (c₁.answer t j (.setProceed w)).seat n =
        if n = w then { c.seat w with phase := .armed } else c.seat n :=
      fun n => Function.update_apply _ _ _ _
    refine .of_others (j := j) hrunner (fun p i hp hi => ?_) fun _ => ⟨.seat w, ?_⟩
    · have hp' := hother .finishing p i hp hi
      cases p with
      | seat n =>
        have hn : n ≠ w := by
          rintro rfl
          cases hph.symm.trans hp.2
        show ((c₁.answer t j (.setProceed w)).seat n).owner = i ∧ _
        rw [hseat, if_neg hn]
        exact hp
      | _ => exact hp'
    · show ((c₁.answer t j (.setProceed w)).seat w).owner = j ∧ _
      rw [hseat, if_pos rfl]
      exact ⟨ho, rfl⟩
  | startIo n =>
    obtain ⟨ho, -, hpe⟩ := hprep
    have herrand : ∀ m, (c₁.answer t j (.startIo n)).errand m =
        if m = n then { c.errand n with pending := true } else c.errand m :=
      fun m => Function.update_apply _ _ _ _
    refine .of_others (j := j) hrunner (fun p i hp hi => ?_) fun _ => ⟨.errand n, ?_⟩
    · have hp' := hother .finishing p i hp hi
      cases p with
      | errand m =>
        have hm : m ≠ n := by
          rintro rfl
          cases hpe.symm.trans hp.2
        show ((c₁.answer t j (.startIo n)).errand m).owner = i ∧ _
        rw [herrand, if_neg hm]
        exact hp
      | _ => exact hp'
    · show ((c₁.answer t j (.startIo n)).errand n).owner = j ∧ _
      rw [herrand, if_pos rfl]
      exact ⟨ho, rfl⟩

end Held

namespace Carries

lemma create (c : Relay) (d : ℕ) (r : Option ℕ) : Carries c (c.create d r) := by
  have hp : ∀ p i, c.At p i → (c.create d r).At p i := by
    intro p i h
    have hm : (c.construct d r).At p i := by
      cases p <;> exact h
    cases p with
    | task b =>
      obtain ⟨x, hx, hi, hs⟩ := hm
      exact ⟨x, List.mem_append_left _ hx, hi, hs⟩
    | _ => exact hm
  refine ⟨fun i hi => ?_, fun p i h _ => ⟨p, hp p i h⟩⟩
  by_cases hij : i = c.created + 1
  · exact .inr ⟨.task true, hij ▸ at_task_post (c.construct d r) _ true⟩
  · refine .inl ?_
    rwa [runner_create_of_ne hij] at hi

/-- A new group, waiter or operation is no place yet. -/
lemma newTeam (hW : c.Waits) (j : ℕ) (kind : GroupKind) : Carries c (c.newTeam j kind) := by
  refine of_imp rfl fun p i h => ?_
  cases p with
  | team n =>
    have hn : n ≠ c.teams := by
      rintro rfl
      cases (hW.team _ le_rfl).symm.trans h.2.began
    have hteam : (c.newTeam j kind).team n = c.team n := Function.update_of_ne hn _ _
    show ((c.newTeam j kind).team n).owner = i ∧ ((c.newTeam j kind).team n).Armed
    rw [hteam]
    exact h
  | _ => exact h

lemma newSeat (hW : c.Waits) (j l : ℕ) : Carries c (c.newSeat j l) := by
  refine of_imp rfl fun p i h => ?_
  cases p with
  | seat n =>
    have hn : n ≠ c.seats := by
      rintro rfl
      cases (hW.seat _ le_rfl).symm.trans h.2
    show ((c.newSeat j l).seat n).owner = i ∧ ((c.newSeat j l).seat n).phase = .armed
    rw [Waits.seat_newSeat, if_neg hn]
    exact h
  | _ => exact h

lemma newErrand (hW : c.Waits) (j : ℕ) : Carries c (c.newErrand j) := by
  refine of_imp rfl fun p i h => ?_
  cases p with
  | errand n =>
    have hn : n ≠ c.errands := by
      rintro rfl
      cases (hW.errand _ le_rfl).symm.trans h.2
    have herr : (c.newErrand j).errand n = c.errand n := Function.update_of_ne hn _ _
    show ((c.newErrand j).errand n).owner = i ∧ ((c.newErrand j).errand n).pending = true
    rw [herr]
    exact h
  | _ => exact h

/-- The waiter and the operation that are done belong to the journey that is proceeded. -/
lemma fire (hW : c.Waits) {ws : List ℕ} (h : c.hand t = w :: ws) :
    Carries c ((c.setHand t ws).fire w) := by
  rw [hW.fire_eq h]
  refine and_proceed rfl fun p i hp hi => ?_
  cases p with
  | seat n =>
    have hn : n ≠ w := by
      rintro rfl
      exact hi hp.1.symm
    show (((c.setHand t ws).mapSeat w fun x => { x with phase := .fired }).seat n).owner = i ∧ _
    rw [seat_mapSeat, if_neg hn]
    exact hp
  | _ => exact hp

lemma complete (c : Relay) (i : ℕ) : Carries c (c.complete i) := by
  refine and_proceed rfl fun p j hp hj => ?_
  cases p with
  | errand n =>
    have hn : n ≠ i := by
      rintro rfl
      exact hj hp.1.symm
    show ((c.mapErrand i fun x => { x with pending := false }).errand n).owner = j ∧ _
    rw [errand_mapErrand, if_neg hn]
    exact hp
  | _ => exact hp

lemma dispatch {x : Task} (ht : c.exec t = none) : Carries c (c.dispatch t x) := by
  refine (take ht : Carries c (c.take t x)).trans ?_
  unfold Relay.dispatch
  split_ifs
  · unfold Relay.start
    simp only
    split_ifs with ha
    · have hm : Carries (c.take t x) ((c.take t x).mapRunner x.journey fun r => { r with
          started := true, running := true, place := .here, log := r.log ++ [.start] }) :=
        mapRunner fun _ => ha.1
      split
      · exact hm.trans (hold _ _ _)
      · exact hm
    · exact of_imp rfl fun p i h => by cases p <;> exact h
  · unfold Relay.resume
    simp only
    split_ifs with ha
    · exact mapRunner fun _ => ha.1
    · exact of_imp rfl fun p i h => by cases p <;> exact h

lemma endCoro (c : Relay) (t j : ℕ) : Carries c (c.endCoro t j) :=
  (mapRunner id : Carries c (c.mapRunner j fun r => { r with
    started := false, log := r.log ++ [.finish] })).trans
    (mapExec (fun _ => rfl) (fun _ => rfl) (q := .switched t) rfl)

/-- The journey that is deleted needs no place. -/
lemma delete (h : c.stage t j = some .exiting) : Carries c (c.delete t j) := by
  set c₁ := c.mapRunner j fun r => { r with alive := false, log := r.log ++ [.delete] } with hc₁
  have halive : ∀ i, (c₁.runner i).alive = if i = j then false else (c.runner i).alive := by
    intro i
    rw [hc₁, runner_mapRunner]
    split_ifs <;> rfl
  refine of_others (j := j) (fun i hi => ?_) (fun p i hp hi => ?_) fun ha => ?_
  · have hi : (c₁.runner i).alive = true := hi
    rw [halive] at hi
    split_ifs at hi
    exact hi
  · have h₁ : c₁.stage t j = some .exiting := h
    cases p with
    | running | switched | exiting => exact does_setStage_of_ne h₁ hi hp
    | task | team | seat | errand => exact hp
  · have ha : (c₁.runner j).alive = true := ha
    rw [halive, if_pos rfl] at ha
    cases ha

end Carries

lemma Held.init (alone : ℕ → Bool) : ({ alone := alone } : Relay).Held := by
  intro j h
  cases h

lemma Held.hop (hS : c.Sound) (hH : c.Held) (h : Hop stray c c') : c'.Held := by
  cases h with
  | create d => exact hH.carries (.create c d none)
  | dispatch t x ht hx hs => exact hH.carries (.dispatch ht)
  | leave t j h => exact hH.carries (.mapRunner id)
  | move hm t j d h hp => exact hH.carries (.mapRunner id)
  | depart t j d h =>
    exact hH.carries ((Carries.mapRunner id : Carries c (c.move j d)).trans (.yield _ t j _))
  | newTeam j kind => exact hH.carries (.newTeam hS.waits j kind)
  | newSeat j l hm => exact hH.carries (.newSeat hS.waits j l)
  | newErrand j => exact hH.carries (.newErrand hS.waits j)
  | goGroup t j kind h =>
    exact hH.carries ((Carries.newTeam hS.waits j kind).trans (.yield _ t j _))
  | get t j l h hm =>
    exact hH.carries ((Carries.newSeat hS.waits j l).trans (.yield _ t j _))
  | deferIo t j h => exact hH.carries ((Carries.newErrand hS.waits j).trans (.yield _ t j _))
  | save t j threw h =>
    exact hH.carries ((Carries.mapRunner id : Carries c (c.mapRunner j fun r => { r with
      running := false, log := r.log ++ [.save] })).trans
      (.mapExec (fun _ => rfl) (fun _ => rfl) (q := .exiting t) rfl))
  | delete t j h hd => exact hH.carries (.delete h)
  | answer t j d h hd => exact hH.answer hS.waits hS.shares h hd
  | launch t j k d h => exact hH.carries ((Carries.create c d (some k)).trans (.hold _ _ _))
  | endLoop t j k h => exact hH.carries ((Carries.setStage h .finishing).trans (.release _ _ _))
  | drop t x h hx => exact hH.carries (.giveUp h hx)
  | finish t k x h hx hs hr => exact hH.carries ((Carries.giveUp h hx).trans (.release _ _ _))
  | win t j k h hr hk => exact hH.carries (.bump c hk)
  | endCoro t j h hr => exact hH.carries (.endCoro c t j)
  | endChild t j k h hr => exact hH.carries ((Carries.endCoro c t j).trans (.release _ _ _))
  | pop t l w ws hm hl hh => exact hH.carries (.of_imp rfl fun p i h => by cases p <;> exact h)
  | sweep t l hm hh => exact hH.carries (.of_imp rfl fun p i h => by cases p <;> exact h)
  | fire t w ws h => exact hH.carries (.fire hS.waits h)
  | complete i h => exact hH.carries (.complete c i)

theorem Held.hops (hS : c.Sound) (hH : c.Held) (h : Hops stray c c') : c'.Held := by
  have hboth : c'.Sound ∧ c'.Held := by
    induction h with
    | refl => exact ⟨hS, hH⟩
    | tail _ hh ih => exact ⟨ih.1.hop hh, ih.2.hop ih.1 hh⟩
  exact hboth.2

/-! ### Waiters -/

/-- A waiter that was not called is on a list. -/
def Queued (c : Relay) : Prop :=
  ∀ w < c.seats, (c.seat w).phase ≠ .fired → ∃ p, w ∈ c.queue p

namespace Queued

lemma init (alone : ℕ → Bool) : ({ alone := alone } : Relay).Queued := by
  intro w hw
  cases hw

lemma bump (hQ : c.Queued) (k : ℕ) : (c.bump k).Queued :=
  bump_induction (P := Queued) (fun _ _ _ h => h) (fun _ _ h => h) hQ k

lemma release (hQ : c.Queued) (k : ℕ) (h : Holder) : (c.release k h).Queued :=
  release_induction (P := Queued) (fun _ _ _ h => h) (fun _ _ h => h) hQ

/-- A waiter is put on the list when it is made. -/
lemma newSeat (hQ : c.Queued) (j l : ℕ) : (c.newSeat j l).Queued := by
  have hmem : ∀ p, ∀ w ∈ c.queue p, w ∈ (c.newSeat j l).queue p := by
    intro p w hw
    cases p with
    | hand t => exact hw
    | line m =>
      show w ∈ ((c.newSeat j l).line m).waiters
      rw [Waits.line_newSeat]
      split_ifs with hm
      · subst hm
        exact List.mem_cons_of_mem _ hw
      · exact hw
  intro w hw hf
  rcases Nat.lt_succ_iff_lt_or_eq.mp hw with hlt | rfl
  · rw [Waits.seat_newSeat, if_neg hlt.ne] at hf
    obtain ⟨p, hp⟩ := hQ w hlt hf
    exact ⟨p, hmem p w hp⟩
  · refine ⟨.line l, ?_⟩
    show c.seats ∈ ((c.newSeat j l).line l).waiters
    rw [Waits.line_newSeat, if_pos rfl]
    exact List.mem_cons_self

lemma answer (hQ : c.Queued) (hW : c.Waits) {d : Deferred} (hd : (c.runner j).deferHandler = some d)
    (t : ℕ) : ((c.mapRunner j fun r => { r with deferHandler := none }).answer t j d).Queued := by
  cases d with
  | proceed | launch | startIo => exact hQ
  | setProceed w =>
    obtain ⟨-, -, hph, -⟩ := hW.prepared j _ hd
    set c₁ := (c.mapRunner j fun r => { r with deferHandler := none }).answer t j (.setProceed w)
    have hseat : ∀ n, c₁.seat n = if n = w then { c.seat w with phase := .armed } else c.seat n :=
      fun n => Function.update_apply _ _ _ _
    have hline : ∀ l, c₁.line l = if l = (c.seat w).channel then
        { c.line (c.seat w).channel with mutex := none } else c.line l :=
      fun l => Function.update_apply _ _ _ _
    intro n hn hf
    have hold : (c.seat n).phase ≠ .fired := by
      rw [hseat] at hf
      split_ifs at hf with hnw
      · simp [hnw, hph]
      · exact hf
    obtain ⟨p, hp⟩ := hQ n hn hold
    refine ⟨p, ?_⟩
    cases p with
    | hand u => exact hp
    | line l =>
      show n ∈ (c₁.line l).waiters
      rw [hline]
      split_ifs with hl
      · exact hl ▸ hp
      · exact hp

/-- A waiter is taken off the list of a channel by a thread with empty hands. -/
lemma grab (hQ : c.Queued) {l : ℕ} {ws vs : List ℕ} (hh : c.hand t = [])
    (hws : ∀ w ∈ (c.line l).waiters, w ∈ ws ∨ w ∈ vs) :
    ((c.mapLine l fun x => { x with waiters := ws }).setHand t vs).Queued := by
  set c₁ := (c.mapLine l fun x => { x with waiters := ws }).setHand t vs
  have hline : ∀ m, c₁.line m = if m = l then { c.line l with waiters := ws } else c.line m :=
    fun m => Function.update_apply _ _ _ _
  have hhand : ∀ u, c₁.hand u = if u = t then vs else c.hand u :=
    fun u => Function.update_apply _ _ _ _
  intro w hw hf
  obtain ⟨p, hp⟩ := hQ w hw hf
  cases p with
  | hand u =>
    have hu : u ≠ t := by
      rintro rfl
      have hp : w ∈ c.hand u := hp
      rw [hh] at hp
      cases hp
    refine ⟨.hand u, ?_⟩
    show w ∈ c₁.hand u
    rw [hhand, if_neg hu]
    exact hp
  | line m =>
    by_cases hm : m = l
    · subst hm
      rcases hws w hp with h | h
      · refine ⟨.line m, ?_⟩
        show w ∈ (c₁.line m).waiters
        rw [hline, if_pos rfl]
        exact h
      · refine ⟨.hand t, ?_⟩
        show w ∈ c₁.hand t
        rw [hhand, if_pos rfl]
        exact h
    · refine ⟨.line m, ?_⟩
      show w ∈ (c₁.line m).waiters
      rw [hline, if_neg hm]
      exact hp

lemma fire (hQ : c.Queued) (hW : c.Waits) {ws : List ℕ} (h : c.hand t = w :: ws) :
    ((c.setHand t ws).fire w).Queued := by
  rw [hW.fire_eq h]
  set c₁ := (c.setHand t ws).mapSeat w fun x => { x with phase := .fired }
  have hseat : ∀ n, c₁.seat n = if n = w then { c.seat w with phase := .fired } else c.seat n :=
    fun n => Function.update_apply _ _ _ _
  have hhand : ∀ u, c₁.hand u = if u = t then ws else c.hand u :=
    fun u => Function.update_apply _ _ _ _
  have hQ₁ : c₁.Queued := by
    intro n hn hf
    rw [hseat] at hf
    split_ifs at hf with hnw
    · exact absurd rfl hf
    · obtain ⟨p, hp⟩ := hQ n hn hf
      refine ⟨p, ?_⟩
      cases p with
      | line l => exact hp
      | hand u =>
        have hp : n ∈ c.hand u := hp
        show n ∈ c₁.hand u
        rw [hhand]
        split_ifs with hu
        · rw [hu, h] at hp
          exact (List.mem_cons.mp hp).resolve_left hnw
        · exact hp
  exact hQ₁

lemma hop (hW : c.Waits) (hQ : c.Queued) (h : Hop stray c c') : c'.Queued := by
  cases h with
  | create | leave | move | depart | newTeam | newErrand | goGroup | deferIo | save | delete
  | launch | drop | endCoro | complete => exact hQ
  | dispatch t x ht hx hs =>
    unfold Relay.dispatch
    split_ifs
    · unfold Relay.start
      simp only
      split_ifs
      · split <;> exact hQ
      · exact hQ
    · unfold Relay.resume
      simp only
      split_ifs <;> exact hQ
  | newSeat j l hm => exact hQ.newSeat j l
  | get t j l h hm => exact hQ.newSeat j l
  | answer t j d h hd => exact hQ.answer hW hd t
  | endLoop t j k h => exact release (c := c.setStage t .finishing) hQ k _
  | finish t k x h hx hs hr => exact release (c := c.giveUp t x) hQ k _
  | win t j k h hr hk => exact hQ.bump k
  | endChild t j k h hr => exact release (c := c.endCoro t j) hQ k _
  | pop t l w ws hm hl hh =>
    refine hQ.grab hh fun n hn => ?_
    rw [hl] at hn
    exact (List.mem_cons.mp hn).symm.imp id List.mem_singleton.mpr
  | sweep t l hm hh => exact hQ.grab hh fun n hn => .inr hn
  | fire t w ws h => exact hQ.fire hW h

theorem hops (hS : c.Sound) (hQ : c.Queued) (h : Hops stray c c') : c'.Queued := by
  have hboth : c'.Sound ∧ c'.Queued := by
    induction h with
    | refl => exact ⟨hS, hQ⟩
    | tail _ hh ih => exact ⟨ih.1.hop hh, ih.2.hop ih.1.waits hh⟩
  exact hboth.2

end Queued

end Relay

end Synca
