import Synca.Runtime.Flights
import Synca.Runtime.Travel

/-!
# Journeys hear their own events

`handleEvents` asks the thread whether an exception is in flight, and means the journey. The two
agree as long as no journey leaves its thread with an exception in flight, which destructors do:
that of a portal, and those of the user's code when they wait or teleport. Then what a journey hears
depends on the journey alone.
-/

namespace Synca

open Transition

namespace Air

/-- The count that thread `t` would have if each exception counted where its journey executes. -/
def load (c : Air) (t : ℕ) : ℤ :=
  match c.exec t with
  | some x => if x.threw then 1
              else if x.stage = .running then (c.own x.journey).exns.length else 0
  | none   => 0

/-- Each exception in flight is that of a journey that executes, and is counted by its thread. -/
structure Aloft (c : Air) : Prop where
  flying : ∀ j, (c.own j).exns ≠ [] → (c.ctx j = .user ∨ ∃ k, c.ctx j = .polling k) ∧
    ∃ t x, c.exec t = some x ∧ x.journey = j ∧ x.stage = .running
  count : ∀ t, c.uncaught t = c.load t
  inside : ∀ t x, c.exec t = some x → x.stage = .running ∨ x.stage = .switched → x.threw = false

namespace Aloft

variable {c c' : Air} {t j : ℕ}

lemma load_congr {t : ℕ} (he : c'.exec t = c.exec t) (ho : ∀ x, c.exec t = some x →
    x.stage = .running → (c'.own x.journey).exns = (c.own x.journey).exns) :
    c'.load t = c.load t := by
  unfold load
  rw [he]
  cases hx : c.exec t with
  | none => rfl
  | some x =>
    by_cases hs : x.stage = .running
    · simp only [ho x hx hs]
    · simp [hs]

/-- A thread that executes a journey counts the exceptions of this journey. -/
lemma uncaught_eq (hA : c.Aloft) {x : Exec} (hx : c.exec t = some x) (hs : x.stage = .running) :
    c.uncaught t = (c.own x.journey).exns.length := by
  rw [hA.count, load, hx]
  simp [hA.inside t x hx (.inl hs), hs]

/-- Nothing is thrown or caught, and all threads stay where they are. -/
lemma congr (hA : c.Aloft) (ho : ∀ j, (c'.own j).exns = (c.own j).exns)
    (hc : ∀ j, (c.own j).exns ≠ [] → c'.ctx j = c.ctx j ∨ c'.ctx j = .user ∨
      ∃ k, c'.ctx j = .polling k)
    (he : c'.exec = c.exec) (hu : c'.uncaught = c.uncaught) : c'.Aloft := by
  refine ⟨fun j hj => ?_, fun t => ?_, he ▸ hA.inside⟩
  · rw [ho j] at hj
    obtain ⟨hctx, hrun⟩ := hA.flying j hj
    refine ⟨?_, he ▸ hrun⟩
    rcases hc j hj with h | h
    · rw [h]
      exact hctx
    · exact h
  · rw [hu, hA.count]
    exact (load_congr (by rw [he]) fun x _ _ => ho _).symm

/-- Thread `t` goes on to something else, from a journey without an exception in flight. -/
lemma thread (hA : c.Aloft) (t : ℕ) (ho : ∀ j, (c'.own j).exns = (c.own j).exns)
    (hc : ∀ j, (c.own j).exns ≠ [] → c'.ctx j = c.ctx j)
    (he : ∀ u, u ≠ t → c'.exec u = c.exec u) (hu : ∀ u, u ≠ t → c'.uncaught u = c.uncaught u)
    (hleave : ∀ x, c.exec t = some x → x.stage = .running → (c.own x.journey).exns = [])
    (hcount : c'.uncaught t = c'.load t)
    (hinside : ∀ x, c'.exec t = some x → x.stage = .running ∨ x.stage = .switched →
      x.threw = false) : c'.Aloft := by
  refine ⟨fun j hj => ?_, fun u => ?_, fun u x hx hs => ?_⟩
  · rw [ho j] at hj
    obtain ⟨hctx, u, x, hx, rfl, hs⟩ := hA.flying j hj
    rw [hc _ hj]
    refine ⟨hctx, u, x, ?_, rfl, hs⟩
    rw [he u]
    · exact hx
    · rintro rfl
      exact hj (hleave x hx hs)
  · by_cases hut : u = t
    · rw [hut, hcount]
    · rw [hu u hut, hA.count]
      exact (load_congr (he u hut) fun x _ _ => ho _).symm
  · by_cases hut : u = t
    · subst hut
      exact hinside x hx hs
    · rw [he u hut] at hx
      exact hA.inside u x hx hs

/-- An exception of the journey on thread `t` comes or goes, and is counted there. -/
lemma flip (hA : c.Aloft) {x : Exec} (hx : c.exec t = some x) (hs : x.stage = .running)
    (ho : ∀ j, j ≠ x.journey → (c'.own j).exns = (c.own j).exns)
    (hc : ∀ j, j ≠ x.journey → c'.ctx j = c.ctx j)
    (hj : (c'.own x.journey).exns ≠ [] → c'.ctx x.journey = .user)
    (he : c'.exec = c.exec) (hu : ∀ u, u ≠ t → c'.uncaught u = c.uncaught u)
    (ht : c'.uncaught t = (c'.own x.journey).exns.length)
    (halone : ∀ u y, c.exec u = some y → y.stage = .running → y.journey = x.journey → u = t) :
    c'.Aloft := by
  refine ⟨fun j hj' => ?_, fun u => ?_, he ▸ hA.inside⟩
  · by_cases hji : j = x.journey
    · subst hji
      exact ⟨.inl (hj hj'), t, x, he ▸ hx, rfl, hs⟩
    · rw [ho j hji] at hj'
      rw [hc j hji, he]
      exact hA.flying j hj'
  · by_cases hut : u = t
    · subst hut
      rw [ht, load, he, hx]
      simp [hA.inside u x hx (.inl hs), hs]
    · rw [hu u hut, hA.count]
      refine (load_congr (by rw [he]) fun y hy hys => ho _ fun hji => ?_).symm
      exact hut (halone u y hy hys hji)

end Aloft

lemma own_setOwn_of_ne (c : Air) {i j : ℕ} (o : Own) (h : i ≠ j) :
    (c.setOwn j o).own i = c.own i :=
  Function.update_of_ne h _ _

lemma exns_hear (c : Air) (i j : ℕ) {ns : List Note}
    (h : ((c.own j).hears ns).exns = (c.own j).exns) :
    ((c.hear j ns).own i).exns = (c.own i).exns := by
  by_cases hi : i = j
  · subst hi
    rw [hear, own_setOwn, h]
  · rw [hear, own_setOwn_of_ne c _ hi]

lemma ctx_place_of_ne (c : Air) {i j : ℕ} (x : Ctx) (h : i ≠ j) : (c.place j x).ctx i = c.ctx i :=
  Function.update_of_ne h _ _

lemma ctx_place (c : Air) (j : ℕ) (x : Ctx) : (c.place j x).ctx j = x := Function.update_self ..

lemma exec_mapExec_of_ne (c : Air) {t u : ℕ} (f : Exec → Exec) (h : u ≠ t) :
    (c.mapExec t f).exec u = c.exec u :=
  Function.update_of_ne h _ _

lemma exec_mapExec (c : Air) (t : ℕ) (f : Exec → Exec) :
    (c.mapExec t f).exec t = (c.exec t).map f :=
  Function.update_self ..

lemma uncaught_addUncaught_of_ne (c : Air) {t u : ℕ} (n : ℤ) (h : u ≠ t) :
    (c.addUncaught t n).uncaught u = c.uncaught u :=
  Function.update_of_ne h _ _

lemma uncaught_addUncaught (c : Air) (t : ℕ) (n : ℤ) :
    (c.addUncaught t n).uncaught t = c.uncaught t + n :=
  Function.update_self ..

/-- Thread `t`, which has left the coroutine, goes on to stage `g`. -/
lemma Aloft.setStage {c : Air} (hA : c.Aloft) {t : ℕ} {x : Exec} (hx : c.exec t = some x)
    {g : Stage} (hg : g ≠ .running)
    (hsw : g = .switched → x.threw = false)
    (hf : x.stage = .running → (c.own x.journey).exns = []) : (c.setStage t g).Aloft := by
  have ht : (c.setStage t g).exec t = some { x with stage := g } := by
    rw [Air.setStage, exec_mapExec, hx]
    rfl
  refine hA.thread t (fun _ => rfl) (fun _ _ => rfl) (fun u hu => exec_mapExec_of_ne _ _ hu)
    (fun _ _ => rfl) (fun y hy hs => ?_) ?_ fun y hy hs => ?_
  · obtain rfl := Option.some_injective _ (hx.symm.trans hy)
    exact hf hs
  · have hold : c.uncaught t = if x.threw then 1 else 0 := by
      rw [hA.count, load, hx]
      by_cases hs : x.stage = .running
      · simp [hf hs]
      · simp [hs]
    rw [load, ht]
    show c.uncaught t = _
    simpa [hg] using hold
  · obtain rfl := Option.some_injective _ (ht.symm.trans hy)
    exact hs.elim (fun h => absurd h hg) hsw

/-- A thread rethrows the exception of the coroutine. -/
lemma Aloft.rethrow {c : Air} (hA : c.Aloft) {t : ℕ} {x : Exec} (hx : c.exec t = some x)
    (hs : x.stage = .exiting) (hw : x.threw = false) :
    ((c.mapExec t fun x => { x with threw := true }).addUncaught t 1).Aloft := by
  have ht : ((c.mapExec t fun x => { x with threw := true }).addUncaught t 1).exec t =
      some { x with threw := true } :=
    (exec_mapExec c t _).trans (congrArg (Option.map _) hx)
  refine hA.thread t (fun _ => rfl) (fun _ _ => rfl) (fun u hu => exec_mapExec_of_ne _ _ hu)
    (fun u hu => uncaught_addUncaught_of_ne _ _ hu) (fun y hy hys => ?_) ?_ fun y hy hys => ?_
  · obtain rfl := Option.some_injective _ (hx.symm.trans hy)
    cases hs.symm.trans hys
  · have h0 : c.uncaught t = 0 := by
      rw [hA.count, load, hx]
      simp [hs, hw]
    rw [uncaught_addUncaught, load, ht]
    show c.uncaught t + 1 = 1
    rw [h0]
    rfl
  · obtain rfl := Option.some_injective _ (ht.symm.trans hy)
    rcases hys with hys | hys <;> cases hs.symm.trans hys

lemma Aloft.take {c : Air} (hA : c.Aloft) {t : ℕ} (hn : c.exec t = none) {x : Exec}
    (hw : x.threw = false) (hf : (c.own x.journey).exns = []) : (c.take t x).Aloft := by
  have ht : (c.take t x).exec t = some x := Function.update_self ..
  refine hA.thread t (fun _ => rfl) (fun _ _ => rfl) (fun u hu => Function.update_of_ne hu _ _)
    (fun _ _ => rfl) (fun y hy => ?_) ?_ fun y hy _ => ?_
  · cases hn.symm.trans hy
  · have h0 : c.uncaught t = 0 := by rw [hA.count, load, hn]
    rw [load, ht]
    show c.uncaught t = if x.threw then 1 else if x.stage = .running then
      ((c.own x.journey).exns.length : ℤ) else 0
    simp [hw, hf, h0]
  · obtain rfl := Option.some_injective _ (ht.symm.trans hy)
    exact hw

lemma Aloft.giveUp {c : Air} (hA : c.Aloft) {t : ℕ} {x : Exec} (hx : c.exec t = some x)
    (hs : x.stage ≠ .running) (hw : x.threw = false) : (c.giveUp t).Aloft := by
  have ht : (c.giveUp t).exec t = none := Function.update_self ..
  refine hA.thread t (fun _ => rfl) (fun _ _ => rfl) (fun u hu => Function.update_of_ne hu _ _)
    (fun _ _ => rfl) (fun y hy hys => ?_) ?_ fun y hy _ => ?_
  · obtain rfl := Option.some_injective _ (hx.symm.trans hy)
    exact absurd hys hs
  · have h0 : c.uncaught t = 0 := by
      rw [hA.count, load, hx]
      simp [hs, hw]
    rw [load, ht]
    exact h0
  · cases ht.symm.trans hy

end Air

namespace Runtime

variable {s s' : Runtime} {t j : ℕ} {a : Action}

lemma Gust.aloft {c : Air} (h : s.Gust a c) (hA : s.air.Aloft) (hL : s.relay.Lives)
    (hC : s.UnwindsInPlace a) (hlive : c.terminated = false) : c.Aloft := by
  have halone : ∀ {t j x}, s.stage t j = some .running → (s.thread t).exec = some x →
      ∀ u y, (s.thread u).exec = some y → y.stage = .running → y.journey = x.journey → u = t := by
    intro t j x ht hx u y hy hys hji
    obtain ⟨z, hz, rfl, hs⟩ := exec_of_stage ht
    obtain rfl := Option.some_injective _ (hx.symm.trans hz)
    exact hL.thread_unique ht hy hys hji
  -- only journeys that execute user code or poll have an exception in flight
  have hcalm : ∀ {j}, s.air.ctx j ≠ .user → (∀ k, s.air.ctx j ≠ .polling k) →
      (s.air.own j).exns = [] := by
    intro j hu hp
    by_contra hn
    rcases (hA.flying j hn).1 with h | ⟨k, h⟩
    · exact hu h
    · exact hp k h
  cases h with
  | ends h why => cases h.symm.trans hlive
  | calm j ns he hq h =>
    exact h ▸ hA.congr (fun i => Air.exns_hear _ _ _ (Own.exns_hears hq)) (fun _ _ => .inl rfl) rfl
      rfl
  | place t i j ns x he hq ht hx h =>
    refine h ▸ hA.congr (fun i => Air.exns_hear _ _ _ (Own.exns_hears hq)) (fun n hn => ?_) rfl rfl
    by_cases hnj : n = j
    · subst hnj
      rw [Air.ctx_place]
      exact .inr (hx.elim .inl fun h => h.elim .inr fun h => absurd hn h)
    · exact .inl (Air.ctx_place_of_ne _ _ hnj)
  | throw t j ns e he ht hf hn ho h =>
    obtain ⟨x, hx, rfl, hs⟩ := exec_of_stage ht
    have hnone : (s.journey x.journey).own.flight = none := by
      obtain hf | ⟨op, hop⟩ := hf
      · exact hf
      · have hop : s.air.ctx x.journey = .resumed op := hop
        exact Own.no_flight_of_exns (hcalm (by simp [hop]) (by simp [hop]))
    have hflies : (((s.air.hear x.journey ns).place x.journey .user).own x.journey).exns =
        e :: (s.journey x.journey).own.exns := by
      rw [Own.exns_of_no_flight hnone, ← hn]
      exact congrArg Own.exns (Air.own_setOwn _ _ _)
    refine h ▸ hA.flip hx hs (fun i hi => congrArg Own.exns (Air.own_setOwn_of_ne _ _ hi))
      (fun i hi => Air.ctx_place_of_ne _ _ hi) (fun _ => Air.ctx_place _ _ _) rfl
      (fun u hu => Air.uncaught_addUncaught_of_ne _ _ hu) ?_ (halone ht hx)
    rw [Air.uncaught_addUncaught]
    show s.air.uncaught t + 1 =
      (((s.air.hear x.journey ns).place x.journey .user).own x.journey).exns.length
    rw [hflies, hA.uncaught_eq hx hs, List.length_cons, Int.natCast_succ]
    rfl
  | catching t j x b he ht hf hx hb h =>
    obtain ⟨y, hy, rfl, hs⟩ := exec_of_stage ht
    obtain ⟨e, he'⟩ := Option.ne_none_iff_exists'.mp hf
    have hflew : (s.air.own y.journey).exns = e :: (s.journey y.journey).own.aside.reduceOption :=
      Own.exns_of_flight he'
    have hlands : ((s.air.hear y.journey [.catches]).own y.journey).exns =
        (s.journey y.journey).own.aside.reduceOption :=
      (congrArg Own.exns (Air.own_setOwn s.air y.journey _)).trans (Own.exns_of_no_flight rfl)
    refine h ▸ hA.flip hy hs (fun i hi => congrArg Own.exns (Air.own_setOwn_of_ne _ _ hi))
      (fun i hi => Air.ctx_place_of_ne _ _ hi) (fun hn => ?_) rfl
      (fun u hu => Air.uncaught_addUncaught_of_ne _ _ hu) ?_ (halone ht hy)
    · rcases hx with rfl | hx
      · exact Air.ctx_place _ _ _
      · exact absurd (hlands.trans (by rw [hx]; rfl)) hn
    · rw [Air.uncaught_addUncaught]
      show s.air.uncaught t + -1 =
        ((s.air.hear y.journey [.catches]).own y.journey).exns.length
      rw [hlands, hA.uncaught_eq hy hs, hflew, List.length_cons, Int.natCast_succ]
      exact Int.add_neg_cancel_right _ _
  | shift t j n he ht hn h =>
    exact h ▸ hA.congr (fun i => Air.exns_hear _ _ _ hn) (fun _ _ => .inl rfl) rfl rfl
  | away t i j ns x he hq ht hf h =>
    obtain ⟨y, hy, rfl, hs⟩ := exec_of_stage ht
    have hnone : (s.air.own y.journey).exns = [] := by
      rcases hf hC with hf | hc
      · exact not_not.mp hf
      · have hc : s.air.ctx y.journey = .closing := hc
        exact hcalm (by simp [hc]) (by simp [hc])
    have hA' : ((s.air.hear i ns).place y.journey x).Aloft := by
      refine hA.congr (fun n => Air.exns_hear _ _ _ (Own.exns_hears hq)) (fun n hn => .inl ?_) rfl
        rfl
      exact Air.ctx_place_of_ne _ _ fun hny => hn (hny ▸ hnone)
    refine h ▸ hA'.setStage hy nofun (fun _ => hA.inside t y hy (.inl hs)) fun _ => ?_
    exact (Air.exns_hear _ _ _ (Own.exns_hears hq)).trans hnone
  | save t j he ht h =>
    obtain ⟨x, hx, rfl, hs⟩ := exec_of_stage ht
    have hE : (s.air.setStage t .exiting).Aloft :=
      hA.setStage hx nofun nofun fun h => by cases hs.symm.trans h
    have hx' : (s.air.setStage t .exiting).exec t = some { x with stage := .exiting } := by
      rw [Air.setStage, Air.exec_mapExec]
      exact congrArg (Option.map _) hx
    rw [h]
    split_ifs
    · exact hE.rethrow hx' rfl (hA.inside t x hx (.inr hs))
    · exact hE
  | stage t x g he hx hs hg h =>
    exact h ▸ hA.setStage hx hg.1 (fun h => absurd h hg.2) fun h => absurd h hs.1
  | take t k x b he hk hb h =>
    have hnone : (s.air.own k.journey).exns = [] := by
      by_contra hn
      obtain ⟨-, u, y, hy, hyj, hys⟩ := hA.flying _ hn
      exact hL.journey_ne_posted hy hys hk.2.2.1 hyj
    have hT := hA.take (x := ⟨k.sched, k.journey, k.start, false, .running⟩) hk.1 rfl hnone
    refine h ▸ hT.congr (fun _ => rfl) (fun i hi => .inl ?_) rfl rfl
    exact Air.ctx_place_of_ne _ _ fun hik => hi (hik ▸ hnone)
  | giveUp t x he hx hs hw h => exact h ▸ hA.giveUp hx (by simp [hs]) hw

lemma inductive_aloft : machine.Inductive UnwindsInPlace fun s =>
    s.relay.Sound ∧ (s.terminated = false → s.air.Aloft) := by
  refine (inductive_sound.mono fun _ _ _ => trivial).and (fun s h => ?_) ?_
  · obtain ⟨alone, rfl⟩ := h
    exact fun _ => ⟨fun j hj => absurd rfl hj, fun _ => rfl, nofun⟩
  · intro s a s' hS hA hC hs
    exact (gust_of_rule (.of_step hs)).aloft (hA (live_of_step hs)) hS.lives hC

/-! ### Histories -/

def history (j : ℕ) : Runtime → List Action → List Note
  | _, []      => []
  | s, a :: as => s.notes j a ++ match step s a with
    | some s' => history j s' as
    | none    => []

/-- A call of `handleEvents` is made by the journey that the thread executes. -/
lemma stage_of_call {p : Poll} (h : Rule s a s') (hc : s.call a = some (t, j, p)) :
    s.stage t j = some .running := by
  have key : ∀ {u i : ℕ} {q : Poll}, s.stage u i = some .running →
      some (u, i, q) = some (t, j, p) → s.stage t j = some .running := by
    intro u i q hr he
    cases he
    exact hr
  cases h with
  | leave u i op h =>
    simp only [call, h.2.2] at hc
    exact key h.1 hc
  | request u i r h | portal u i d h =>
    simp only [call] at hc
    split_ifs at hc
    exact key h.1.1 hc
  | get u i c h hm =>
    simp only [call] at hc
    split_ifs at hc
    exact key h.1.1 hc
  | closeScope u i f fs h hf =>
    simp only [call, hf] at hc
    cases f with
    | portal src b =>
      simp only at hc
      split_ifs at hc
      exact key h.1 hc
    | timeout k => cases hc
    | guard => exact key h.1 hc
    | destructor e => cases hc
  | poll u i k h => exact key h.1 hc
  | guard u i h | handleEvents u i h | disableEvents u i h | enableEvents u i h =>
    exact key h.1.1 hc
  | _ => cases hc

/-- The thread that executes a journey has an exception in flight if the journey has. -/
lemma uncaught_eq (hA : s.air.Aloft) (ht : s.stage t j = some .running) :
    s.uncaught t = (s.Unwinding j : Bool) := by
  obtain ⟨x, hx, rfl, hs⟩ := exec_of_stage ht
  have h : (s.thread t).uncaught = ((s.journey x.journey).own.exns.length : ℤ) :=
    hA.uncaught_eq hx hs
  rw [uncaught, h]
  exact decide_eq_decide.mpr (by simp [Unwinding])

lemma outcome_eq {p : Poll} (hA : s.air.Aloft) (ht : s.stage t j = some .running) :
    s.outcome t j p = (s.journey j).own.outcome p := by
  rw [outcome, uncaught_eq hA ht]
  rfl

/-- The outcome of the call, if an action makes one, follows from what the journey has at hand. -/
lemma agrees_of_rule (hA : s.air.Aloft) (h : Rule s a s') :
    (s.journey j).own.Agrees (s.notes j a) := by
  unfold notes
  split_ifs with hj
  · subst hj
    have hpolled : (s.journey (s.polled a).1).own.Agrees (s.polled a).2 := by
      unfold polled
      split
      case h_1 t i p hc =>
        refine Own.agrees_singleton fun q x hq => ?_
        obtain ⟨rfl, rfl⟩ := Note.poll.inj hq
        exact outcome_eq hA (stage_of_call h hc)
      case h_2 => trivial
    cases a with
    | cancel | callback | throw | catching | escape | destructor =>
      exact Own.agrees_singleton fun p x h => by cases h
    | closeScope t i =>
      rw [entry]
      split_ifs
      · exact Own.agrees_singleton fun p x h => by cases h
      · exact hpolled
    | _ => exact hpolled
  · trivial

/-- In a history, each call of `handleEvents` throws what follows from the part before it. -/
lemma agrees_history {as : List Action} {u : Runtime} (hs : machine.ReachableBy UnwindsInPlace s)
    (hlive : s.terminated = false) (hC : machine.Along UnwindsInPlace s as)
    (h : machine.exec s as = some u) : (s.journey j).own.Agrees (history j s as) := by
  induction as generalizing s with
  | nil => trivial
  | cons a as ih =>
    obtain ⟨s', hs', h⟩ := Option.bind_eq_some_iff.mp h
    have hstep : step s a = some s' := hs'
    have hrule := Rule.of_step hs'
    rw [Machine.along_cons] at hC
    simp only [history, hstep]
    refine Own.agrees_append.mpr
      ⟨agrees_of_rule ((inductive_aloft.holds hs).2 hlive) hrule, ?_⟩
    by_cases hlive' : s'.terminated = false
    · rw [← (gust_of_rule hrule).own hlive']
      exact ih (hs.step hC.1 hs') hlive' (hC.2 s' hs') h
    · -- the program has ended
      cases as with
      | nil => trivial
      | cons b bs =>
        obtain ⟨w, hw, -⟩ := Option.bind_eq_some_iff.mp h
        exact absurd (live_of_step hw) hlive'

/-! ### The laws -/

/-- What a call of `handleEvents` throws is up to the journey: an event if events are allowed, one
is pending and the journey is not unwinding. -/
lemma throws_iff {p : Poll} (hA : s.air.Aloft) (ht : s.stage t j = some .running) :
    s.outcome t j p ≠ none ↔ (p.before (s.journey j).events).eventsAllowed = true ∧
      (s.journey j).events.gr.status ≠ .normal ∧ ¬ s.Unwinding j := by
  have hgr : (p.before (s.journey j).events).gr = (s.journey j).events.gr := by cases p <;> rfl
  have hD : (p.before (s.journey j).events).Deliverable (s.uncaught t) ↔
      (p.before (s.journey j).events).eventsAllowed = true ∧
        (s.journey j).events.gr.status ≠ .normal ∧ ¬ s.Unwinding j := by
    rw [Events.Deliverable, uncaught_eq hA ht, hgr]
    simp [and_comm]
  rw [← hD]
  constructor
  · intro h
    by_contra hd
    exact h (outcome_of_not_deliverable hd)
  · intro hd
    rw [outcome_of_deliverable hd]
    exact Option.some_ne_none _

instance (s : Runtime) (a : Action) : Decidable (s.UnwindsInPlace a) :=
  inferInstanceAs (Decidable (∀ _ ∈ _, _))

/-- As long as no journey leaves its thread while it is unwinding, `handleEvents` throws exactly if
events of the journey are allowed, one is pending and the journey is not unwinding; and in two runs
in which a journey does and suffers the same, its calls of `handleEvents` throw the same. -/
theorem hears_own_events {s₀ : Runtime} {as : List Action} (h₀ : machine.init s₀)
    (hC : machine.Along UnwindsInPlace s₀ as) (h : machine.exec s₀ as = some s) :
    (∀ a s' t j p, machine.step s a = some s' → s.call a = some (t, j, p) →
      (s.outcome t j p ≠ none ↔ (p.before (s.journey j).events).eventsAllowed = true ∧
        (s.journey j).events.gr.status ≠ .normal ∧ ¬ s.Unwinding j)) ∧
    ∀ j j' s₀' s' as', machine.init s₀' → machine.Along UnwindsInPlace s₀' as' →
      machine.exec s₀' as' = some s' →
      (history j s₀ as).map Note.erase = (history j' s₀' as').map Note.erase →
      history j s₀ as = history j' s₀' as' := by
  constructor
  · intro a s' t j p hs hc
    have hA := (inductive_aloft.holds (.exec (.init h₀) hC h)).2 (live_of_step hs)
    exact throws_iff hA (stage_of_call (.of_step hs) hc)
  · intro j j' s₀' s' as' h₀' hC' h' herase
    have hinit : ∀ {u i}, machine.init u → (u.journey i).own = {} ∧ u.terminated = false := by
      rintro u i ⟨alone, rfl⟩
      exact ⟨rfl, rfl⟩
    have hagrees := agrees_history (j := j) (.init h₀) (hinit (i := j) h₀).2 hC h
    have hagrees' := agrees_history (j := j') (.init h₀') (hinit (i := j') h₀').2 hC' h'
    rw [(hinit h₀).1] at hagrees
    rw [(hinit h₀').1] at hagrees'
    exact hagrees.unique hagrees' herase

/-- Journey 1 is cancelled and polls. -/
def pollsAlone : List Action :=
  [.go 0 (some 2), .go 0 (some 1), .dispatch 1 ⟨2, 1, true⟩, .cancel 1, .handleEvents 1 1]

/-- Before, on the same thread, an exception of journey 2 leads it through a destructor that closes
a channel and out of a timeout, and ends it. -/
def pollsAfterThrow : List Action :=
  [.go 0 (some 2), .go 0 (some 2), .dispatch 1 ⟨2, 2, true⟩, .timeout 1 2, .throw 1 2 .std,
    .destructor 1 2, .close 1 0, .closeNext 1, .closeScope 1 2, .closeScope 1 2, .poll 1 2,
    .escape 1 2, .endCoro 1 2, .jump 1 2, .exit 1 2 false, .finish 1 2, .dispatch 1 ⟨2, 1, true⟩,
    .cancel 1, .handleEvents 1 1]

theorem hears_pollsAfterThrow : ∃ s, machine.exec {} (pollsAfterThrow.dropLast) = some s ∧
    s.outcome 1 1 .plain ≠ none ∧ history 1 {} pollsAlone = history 1 {} pollsAfterThrow := by
  have h₀ : machine.init {} := ⟨_, rfl⟩
  have he : machine.exec {} pollsAfterThrow.dropLast = some _ := rfl
  have he' : machine.exec {} pollsAlone = some _ := rfl
  refine ⟨_, he, ?_, ?_⟩
  · refine ((hears_own_events h₀ (by decide) he).1 (.handleEvents 1 1) _ 1 1 .plain rfl rfl).mpr ?_
    exact ⟨rfl, by decide, by decide⟩
  · exact (hears_own_events h₀ (by decide) he').2 1 1 {} _ pollsAfterThrow h₀ (by decide) rfl
      (by decide)

/-- Before, on the same thread, an exception leads journey 2 out of a portal to scheduler 1. -/
def pollsAfterPortal : List Action :=
  [.go 0 (some 2), .go 0 (some 1), .dispatch 0 ⟨1, 2, true⟩, .portal 0 2 2, .jump 0 2,
    .exit 0 2 false, .finish 0 2, .dispatch 1 ⟨2, 2, false⟩, .leave 1 2, .throw 1 2 .std,
    .closeScope 1 2, .jump 1 2, .exit 1 2 false, .finish 1 2, .dispatch 1 ⟨2, 1, true⟩, .cancel 1,
    .handleEvents 1 1]

theorem deaf_after_portal :
    (¬ ∀ s s' a t j p, machine.Reachable s → machine.step s a = some s' →
      s.call a = some (t, j, p) →
      (s.outcome t j p ≠ none ↔ (p.before (s.journey j).events).eventsAllowed = true ∧
        (s.journey j).events.gr.status ≠ .normal ∧ ¬ s.Unwinding j)) ∧
    (∃ s s', machine.exec {} pollsAlone = some s ∧ machine.exec {} pollsAfterPortal = some s') ∧
    (history 1 {} pollsAlone).map Note.erase = (history 1 {} pollsAfterPortal).map Note.erase ∧
    history 1 {} pollsAlone ≠ history 1 {} pollsAfterPortal := by
  refine ⟨fun h => ?_, ⟨_, _, rfl, rfl⟩, by decide, by decide⟩
  have hr := Machine.Reachable.of_exec (M := machine) (s := {}) ⟨_, rfl⟩
    (show machine.exec {} pollsAfterPortal.dropLast = some _ from rfl)
  exact (h _ _ (.handleEvents 1 1) 1 1 .plain hr rfl rfl).mpr ⟨rfl, by decide, by decide⟩ rfl

end Runtime

end Synca
