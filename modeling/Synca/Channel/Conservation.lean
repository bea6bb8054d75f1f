import Synca.Channel.Waiters

/-!
# Conservation and order of values

The values put into a channel, in the order the puts took the mutex, are those assigned to gets, in
the order of assignment, followed by the content of the queue. A value is assigned under the mutex,
when it is popped from the queue or its `put` pops a waiter; the hand-off comes later, and until
then the value is in the hand of that `put`.

The invariant holds along the runs in which a `get` is interrupted at most after `close` has
released it. Along runs without events on the getting journeys no `get` is interrupted at all.
-/

namespace Synca

open Transition

variable {T : Type*}

namespace Call

/-- The value in the hand of a `put`, and the waiter it is for. -/
def handed : Call T → Option (T × ℕ)
  | .handing v w => some (v, w)
  | _            => none

/-- A `get` that has its value; `val` is that of its waiter. -/
def HasValue (val : Bool) : Call T → Prop
  | .returned b            => b = true
  | .proceeded | .resumed  => val = true
  | _                      => False

/-- A `get` in progress. -/
def Getting : Call T → Prop
  | .get | .deferring | .yielded | .suspended | .proceeded | .resumed => True
  | _ => False

lemma hand_of_handed {c : Call T} {v : T} {w : ℕ} (h : c.handed = some (v, w)) :
    c.hand = some w := by
  cases c <;> simp_all [handed, hand]

lemma not_hasValue_of_waits {c : Call T} {b : Bool} (h : c.Waits) : ¬ c.HasValue b := by
  rcases h with rfl | rfl | rfl <;> exact id

end Call

namespace Channel

def HasValue (s : Channel T) (g : ℕ) : Prop := (s.call g).HasValue (s.waiter g).val

/-- The values assigned to call `g`, in order. -/
def assignments (s : Channel T) (g : ℕ) : List T := (s.gots.filter (·.1 = g)).map Prod.snd

structure Values (s : Channel T) : Prop where
  /-- A waiter on the list excludes values in the queue, and a closed channel. -/
  empty : s.root ≠ none → s.queue = [] ∧ s.closed = false
  conserved : s.puts = s.gots.map Prod.snd ++ s.queue
  /-- An assigned value is in the hand of a `put` or has arrived. -/
  assigned : ∀ g v, (g, v) ∈ s.gots →
    (∃ p, (s.call p).handed = some (v, g)) ∨ (s.HasValue g ∧ s.dest g = some v)
  handed : ∀ p v w, (s.call p).handed = some (v, w) → (w, v) ∈ s.gots
  received : ∀ g, s.HasValue g → ∃ v, (g, v) ∈ s.gots
  once : (s.gots.map Prod.fst).Nodup

/-- A `get` is not interrupted before it suspends, nor afterwards if a value was handed to it. -/
def Uninterrupted (s : Channel T) : Action T → Prop
  | .enterDefer g u => ¬ (s.eventsOf g).Deliverable u
  | .leaveDefer g u => (s.eventsOf g).Deliverable u → (s.waiter g).val = false
  | _               => True

instance (s : Channel T) (a : Action T) : Decidable (s.Uninterrupted a) := by
  cases a <;> unfold Uninterrupted <;> infer_instance

lemma Uninterrupted.entersQuietly {s : Channel T} {a : Action T} (h : s.Uninterrupted a) :
    s.EntersQuietly a := by
  cases a <;> first | exact h | trivial

lemma Values.congr {s s' : Channel T} (hV : s.Values)
    (hempty : s'.root ≠ none → s'.queue = [] ∧ s'.closed = false) (hp : s'.puts = s.puts)
    (hg : s'.gots = s.gots) (hq : s'.queue = s.queue) (hd : s'.dest = s.dest)
    (hhand : ∀ p, (s'.call p).handed = (s.call p).handed)
    (hhas : ∀ g, s'.HasValue g ↔ s.HasValue g) : s'.Values where
  empty := hempty
  conserved := by
    rw [hp, hg, hq]
    exact hV.conserved
  assigned g v hgv := by
    simp only [hhand, hhas, hd]
    exact hV.assigned g v (hg ▸ hgv)
  handed p v w h := by
    rw [hg]
    exact hV.handed p v w (hhand p ▸ h)
  received g h := by
    rw [hg]
    exact hV.received g ((hhas g).mp h)
  once := hg ▸ hV.once

/-- A step that assigns nothing and moves one call. -/
lemma Values.frame {s s' : Channel T} (hV : s.Values) {g : ℕ} {c d : Call T}
    (hg : s.call g = c) (hc : s'.call = (s.move g d).call)
    (hempty : s'.root ≠ none → s'.queue = [] ∧ s'.closed = false) (hp : s'.puts = s.puts)
    (hgots : s'.gots = s.gots) (hq : s'.queue = s.queue) (hdest : s'.dest = s.dest)
    (hhand : d.handed = c.handed)
    (hhas : d.HasValue (s'.waiter g).val ↔ c.HasValue (s.waiter g).val)
    (hw : ∀ x, x ≠ g → s'.waiter x = s.waiter x) : s'.Values := by
  subst hg
  apply hV.congr hempty hp hgots hq hdest
  · rw [hc]
    exact apply_call_move _ hhand
  · intro x
    have hx : s'.call x = if x = g then d else s.call x := by rw [hc, call_move]
    rw [HasValue, HasValue, hx]
    split_ifs with hxg
    · rw [hxg]
      exact hhas
    · rw [hw x hxg]

/-- Call `g` has been assigned nothing yet. -/
lemma Values.not_assigned {s : Channel T} (hV : s.Values) {g : ℕ} (hval : ¬ s.HasValue g)
    (hhand : ∀ p, ¬ s.Holds (.hand p) g) : g ∉ s.gots.map Prod.fst := by
  intro hg
  obtain ⟨⟨g', v⟩, hgv, rfl⟩ := List.mem_map.mp hg
  rcases hV.assigned g' v hgv with ⟨p, hp⟩ | ⟨h, -⟩
  · exact hhand p (Call.hand_of_handed hp)
  · exact hval h

lemma nodup_append_key {l : List (ℕ × T)} {g : ℕ} {v : T} (h : (l.map Prod.fst).Nodup)
    (hg : g ∉ l.map Prod.fst) : ((l ++ [(g, v)]).map Prod.fst).Nodup := by
  rw [List.map_append]
  refine List.nodup_append.mpr ⟨h, List.nodup_singleton _, fun x hx y hy => ?_⟩
  obtain rfl : y = g := by simpa using hy
  rintro rfl
  exact hg hx

lemma Values.takeFront {s : Channel T} (hW : s.Waiters) (hV : s.Values) {g : ℕ} {v : T}
    {q : List T} (hg : s.call g = .get) (hq : s.queue = v :: q) : (s.takeFront g v q).Values := by
  have hcall : ∀ x, (s.takeFront g v q).call x = if x = g then .returned true else s.call x :=
    fun x => call_move s g x (.returned true)
  have hhand : ∀ x, ((s.takeFront g v q).call x).handed = (s.call x).handed :=
    apply_call_move (d := .returned true) _ (by rw [hg]; rfl)
  have hnone : ¬ s.HasValue g := by
    rw [HasValue, hg]
    exact id
  have hfresh : g ∉ s.gots.map Prod.fst :=
    hV.not_assigned hnone fun p => hW.not_holds (by simp [hg, Call.Waits]) _
  have hhas : ∀ x, x ≠ g → ((s.takeFront g v q).HasValue x ↔ s.HasValue x) := by
    intro x hx
    rw [HasValue, HasValue, hcall, if_neg hx]
    rfl
  constructor
  · intro hr
    have := (hV.empty hr).1
    rw [hq] at this
    cases this
  · show s.puts = (s.gots ++ [(g, v)]).map Prod.snd ++ q
    rw [hV.conserved, hq]
    simp
  · intro x u hxu
    rcases List.mem_append.mp hxu with hold | hnew
    · have hx : x ≠ g := by
        rintro rfl
        exact hfresh (List.mem_map.mpr ⟨(x, u), hold, rfl⟩)
      have hd : (s.takeFront g v q).dest x = s.dest x := Function.update_of_ne hx _ _
      simp only [hhand, hhas x hx, hd]
      exact hV.assigned x u hold
    · obtain ⟨rfl, rfl⟩ : x = g ∧ u = v := by simpa using hnew
      refine .inr ⟨?_, ?_⟩
      · rw [HasValue, hcall, if_pos rfl]
        rfl
      · simp [Channel.takeFront]
  · intro p u w h
    rw [hhand] at h
    exact List.mem_append_left _ (hV.handed p u w h)
  · intro x hx
    by_cases hxg : x = g
    · exact ⟨v, List.mem_append_right _ (by simp [hxg])⟩
    · obtain ⟨u, hu⟩ := hV.received x ((hhas x hxg).mp hx)
      exact ⟨u, List.mem_append_left _ hu⟩
  · exact nodup_append_key hV.once hfresh

lemma Values.popWaiter {s : Channel T} (hW : s.Waiters) (hV : s.Values) {p w : ℕ} {v : T}
    (hp : s.call p = .put v) (hr : s.root = some w) : (s.popWaiter p v w).Values := by
  have hcall : ∀ x, (s.popWaiter p v w).call x = if x = p then .handing v w else s.call x :=
    fun x => call_move s p x (.handing v w)
  obtain ⟨us, hus⟩ := hW.list
  obtain ⟨ws, rfl, -⟩ := Linked.some_iff.mp (hr ▸ hus)
  have hw : s.Holds .list w := ⟨w :: ws, hus, List.mem_cons_self⟩
  have hfresh : w ∉ s.gots.map Prod.fst := by
    refine hV.not_assigned (Call.not_hasValue_of_waits (hW.waits _ _ hw)) fun y hy => ?_
    cases hW.exclusive hw hy
  have hhas : ∀ x, (s.popWaiter p v w).HasValue x ↔ s.HasValue x := by
    intro x
    rw [HasValue, HasValue, hcall]
    split_ifs with hx
    · rw [hx, hp]
      rfl
    · rfl
  obtain ⟨hqueue, hclosed⟩ := hV.empty (by simp [hr])
  constructor
  · exact fun _ => ⟨hqueue, hclosed⟩
  · show s.puts ++ [v] = (s.gots ++ [(w, v)]).map Prod.snd ++ s.queue
    rw [hV.conserved, hqueue]
    simp
  · intro x u hxu
    rcases List.mem_append.mp hxu with hxu | hxu
    · rcases hV.assigned x u hxu with ⟨y, hy⟩ | h
      · refine .inl ⟨y, ?_⟩
        rw [hcall, if_neg]
        · exact hy
        · rintro rfl
          simp [hp, Call.handed] at hy
      · exact .inr ⟨(hhas x).mpr h.1, h.2⟩
    · obtain ⟨rfl, rfl⟩ : x = w ∧ u = v := by simpa using hxu
      exact .inl ⟨p, by rw [hcall, if_pos rfl]; rfl⟩
  · intro y u x h
    rw [hcall] at h
    split_ifs at h
    · obtain ⟨rfl, rfl⟩ : v = u ∧ w = x := by simpa [Call.handed] using h
      exact List.mem_append_right _ (by simp)
    · exact List.mem_append_left _ (hV.handed y u x h)
  · intro x hx
    obtain ⟨u, hu⟩ := hV.received x ((hhas x).mp hx)
    exact ⟨u, List.mem_append_left _ hu⟩
  · exact nodup_append_key hV.once hfresh

lemma Values.emplace {s : Channel T} (hV : s.Values) {p : ℕ} {v : T} (hp : s.call p = .put v)
    (hr : s.root = none) : (s.emplace p v).Values := by
  have hhand : ∀ x, ((s.emplace p v).call x).handed = (s.call x).handed :=
    apply_call_move (d := .done) _ (by rw [hp]; rfl)
  have hhas : ∀ x, (s.emplace p v).HasValue x ↔ s.HasValue x := by
    intro x
    have hcall : (s.emplace p v).call x = if x = p then .done else s.call x :=
      call_move s p x .done
    rw [HasValue, HasValue, hcall]
    split_ifs with hx
    · rw [hx, hp]
      rfl
    · rfl
  constructor
  · exact fun h => absurd hr h
  · show s.puts ++ [v] = s.gots.map Prod.snd ++ (s.queue ++ [v])
    rw [hV.conserved, List.append_assoc]
  · intro x u hxu
    simp only [hhand, hhas]
    exact hV.assigned x u hxu
  · exact fun y u x h => hV.handed y u x (hhand y ▸ h)
  · exact fun x hx => hV.received x ((hhas x).mp hx)
  · exact hV.once

lemma Values.handOff {s : Channel T} (hW : s.Waiters) (hV : s.Values) {p w : ℕ} {v : T}
    (hp : s.call p = .handing v w) : ((s.proceedWith w v).move p .done).Values := by
  have hws : s.call w = .suspended := hW.suspended_of_handing hp
  have hwp : w ≠ p := by
    rintro rfl
    cases hp.symm.trans hws
  have hcall : ∀ x, ((s.proceedWith w v).move p .done).call x =
      if x = p then .done else if x = w then .proceeded else s.call x := by
    intro x
    simp [proceedWith, move, Function.update_apply]
  have hgot : (w, v) ∈ s.gots := hV.handed p v w (by rw [hp]; rfl)
  have hw : ((s.proceedWith w v).move p .done).HasValue w := by
    rw [HasValue, hcall, if_neg hwp, if_pos rfl]
    exact hW.val w (by simp [hws, Call.Waits])
  have hhas : ∀ x, x ≠ w → (((s.proceedWith w v).move p .done).HasValue x ↔ s.HasValue x) := by
    intro x hx
    rw [HasValue, HasValue, hcall, if_neg hx]
    split_ifs with h
    · rw [h, hp]
      rfl
    · rfl
  constructor
  · exact hV.empty
  · exact hV.conserved
  · intro x u hxu
    by_cases hx : x = w
    · subst hx
      -- the key is assigned once, so the value is the one in the hand
      have : u = v := by
        have := List.inj_on_of_nodup_map hV.once hxu hgot rfl
        simpa using this
      subst this
      exact .inr ⟨hw, by simp [proceedWith, move]⟩
    · rcases hV.assigned x u hxu with ⟨y, hy⟩ | h
      · refine .inl ⟨y, ?_⟩
        rw [hcall, if_neg, if_neg]
        · exact hy
        · rintro rfl
          simp [hws, Call.handed] at hy
        · rintro rfl
          rw [hp] at hy
          cases hy
          exact hx rfl
      · exact .inr ⟨(hhas x hx).mpr h.1, by simpa [proceedWith, move, hx] using h.2⟩
  · intro y u x h
    rw [hcall] at h
    split_ifs at h
    · cases h
    · cases h
    · exact hV.handed y u x h
  · intro x hx
    by_cases hxw : x = w
    · exact ⟨v, hxw ▸ hgot⟩
    · exact hV.received x ((hhas x hxw).mp hx)
  · exact hV.once

lemma Values.step {s s' : Channel T} {a : Action T} (hW : s.Waiters) (hV : s.Values)
    (hC : s.Uninterrupted a) (hs : step s a = some s') : s'.Values := by
  cases Rule.of_step hs with
  | make g r hg =>
    cases r <;> exact hV.frame hg rfl hV.empty rfl rfl rfl rfl rfl Iff.rfl fun _ _ => rfl
  | takeFront g v q hm hg hq => exact hV.takeFront hW hg hq
  | getClosed g hm hg hq hc =>
    exact hV.frame hg rfl hV.empty rfl rfl rfl rfl rfl (by simp [Call.HasValue]) fun _ _ => rfl
  | pushWaiter g hm hg hq hc =>
    refine hV.frame (d := .deferring) hg rfl (fun _ => ⟨hq, hc⟩) rfl rfl rfl rfl rfl Iff.rfl
      fun x hx => ?_
    simp [pushWaiter, hx]
  | popWaiter p v w hm hp hr => exact hV.popWaiter hW hp hr
  | emplace p v hm hp hr => exact hV.emplace hp hr
  | opening p hm hp =>
    exact hV.frame hp rfl (fun h => ⟨(hV.empty h).1, rfl⟩) rfl rfl rfl rfl rfl Iff.rfl
      fun _ _ => rfl
  | closeClosed p hm hp hc =>
    exact hV.frame hp rfl hV.empty rfl rfl rfl rfl rfl Iff.rfl fun _ _ => rfl
  | popAll p hm hp hc =>
    exact hV.frame hp rfl (fun h => absurd rfl h) rfl rfl rfl rfl rfl Iff.rfl fun _ _ => rfl
  | enterDefer g u hg he =>
    exact hV.frame hg rfl hV.empty rfl rfl rfl rfl rfl Iff.rfl fun _ _ => rfl
  | enterThrow g u hg he => exact absurd he hC
  | setProceed g hg =>
    refine hV.frame (d := .suspended) hg rfl hV.empty rfl rfl rfl rfl rfl Iff.rfl fun x hx => ?_
    simp [setProceed, hx]
  | handOff p v w hp => exact hV.handOff hW hp
  | closeNext p w hp =>
    have hsw : s.call w = .suspended := hW.suspended_of_walking hp
    -- the two calls that move, one after the other
    have h₁ : (s.proceedClosed w).Values := by
      refine hV.frame (d := .proceeded) hsw rfl hV.empty rfl rfl rfl rfl rfl ?_ fun x hx => ?_
      · simp [proceedClosed, Call.HasValue]
      · simp [proceedClosed, hx]
    have hp' : (s.proceedClosed w).call p = .walking (some w) := by
      rw [← hp]
      refine Function.update_of_ne ?_ _ _
      rintro rfl
      cases hp.symm.trans hsw
    exact h₁.frame hp' rfl hV.empty rfl rfl rfl rfl rfl Iff.rfl fun _ _ => rfl
  | closeEnd p hp => exact hV.frame hp rfl hV.empty rfl rfl rfl rfl rfl Iff.rfl fun _ _ => rfl
  | resume g hg => exact hV.frame hg rfl hV.empty rfl rfl rfl rfl rfl Iff.rfl fun _ _ => rfl
  | leaveDefer g u hg he =>
    exact hV.frame hg rfl hV.empty rfl rfl rfl rfl rfl Iff.rfl fun _ _ => rfl
  | leaveThrow g u hg he =>
    have hval : (s.waiter g).val = false := hC he
    refine hV.frame (d := .threw _) hg rfl hV.empty rfl rfl rfl rfl rfl ?_ fun _ _ => rfl
    simp [Call.HasValue, hval]
  | set j e | allow j b =>
    exact hV.congr hV.empty rfl rfl rfl rfl (fun _ => rfl) fun _ => Iff.rfl

lemma values_init : ({} : Channel T).Values where
  empty := by simp
  conserved := rfl
  assigned := by simp
  handed := by simp [Call.handed]
  received g h := absurd h id
  once := List.nodup_nil

lemma inductive_values : (machine T).Inductive Uninterrupted fun s => s.Waiters ∧ s.Values where
  init s h := by
    obtain rfl : s = {} := h
    exact ⟨waiters_init, values_init⟩
  step _ _ _ h hC hs := ⟨h.1.step hC.entersQuietly hs, h.2.step h.1 hC hs⟩

/-! ### What a call received -/

lemma filter_key_eq_singleton {l : List (ℕ × T)} {g : ℕ} {v : T} (h : (l.map Prod.fst).Nodup)
    (hv : (g, v) ∈ l) : l.filter (·.1 = g) = [(g, v)] := by
  induction l with
  | nil => cases hv
  | cons e l ih =>
    obtain ⟨he, hl⟩ := List.nodup_cons.mp h
    rcases List.mem_cons.mp hv with rfl | hv
    · have hnone : l.filter (·.1 = g) = [] := by
        refine List.filter_eq_nil_iff.mpr fun x hx hxg => he ?_
        exact List.mem_map.mpr ⟨x, hx, by simpa using hxg⟩
      simp [hnone]
    · have hne : e.1 ≠ g := by
        rintro rfl
        exact he (List.mem_map.mpr ⟨_, hv, rfl⟩)
      simpa [hne] using ih hl hv

lemma Values.assignments_eq {s : Channel T} (hV : s.Values) {g : ℕ} {v : T}
    (hv : (g, v) ∈ s.gots) : s.assignments g = [v] := by
  rw [assignments, filter_key_eq_singleton hV.once hv]
  rfl

lemma Values.assignments_of_hasValue {s : Channel T} (hW : s.Waiters) (hV : s.Values) {g : ℕ}
    (h : s.HasValue g) : ∃ v, s.assignments g = [v] ∧ s.dest g = some v := by
  obtain ⟨v, hv⟩ := hV.received g h
  refine ⟨v, hV.assignments_eq hv, ?_⟩
  rcases hV.assigned g v hv with ⟨p, hp⟩ | ⟨-, hd⟩
  · exact absurd h (Call.not_hasValue_of_waits (hW.waits (.hand p) g (Call.hand_of_handed hp)))
  · exact hd

/-- A call that neither waits nor has its value was assigned nothing. -/
lemma Values.assignments_eq_nil {s : Channel T} (hW : s.Waiters) (hV : s.Values) {g : ℕ}
    (hw : ¬ (s.call g).Waits) (h : ¬ s.HasValue g) : s.assignments g = [] := by
  have hg : g ∉ s.gots.map Prod.fst := hV.not_assigned h fun p => hW.not_holds hw _
  rw [assignments, List.map_eq_nil_iff, List.filter_eq_nil_iff]
  intro e he hge
  exact hg (List.mem_map.mpr ⟨e, he, by simpa using hge⟩)

/-! ### Runs without events on getting journeys -/

/-- No event is set on a journey that is in a `get`, and none is pending when it calls `get`. -/
def Undisturbed (s : Channel T) : Action T → Prop
  | .make _ (.get j) => (s.events j).gr.status = .normal
  | .set j _         => ∀ g, s.journey g = j → ¬ (s.call g).Getting
  | _                => True

/-- A getting journey has no event pending. -/
def Calm (s : Channel T) : Prop := ∀ g, (s.call g).Getting → (s.eventsOf g).gr.status = .normal

lemma Calm.not_deliverable {s : Channel T} (hC : s.Calm) {g : ℕ} (hg : (s.call g).Getting)
    (u : Bool) : ¬ (s.eventsOf g).Deliverable u :=
  fun h => h.2.2 (hC g hg)

lemma Calm.uninterrupted {s s' : Channel T} {a : Action T} (hC : s.Calm)
    (hs : Channel.step s a = some s') : s.Uninterrupted a := by
  cases Rule.of_step hs with
  | enterDefer g u hg he => exact he
  | leaveDefer g u hg he => exact fun h => absurd h he
  | enterThrow g u hg he => exact absurd he (hC.not_deliverable (by simp [hg, Call.Getting]) u)
  | leaveThrow g u hg he => exact absurd he (hC.not_deliverable (by simp [hg, Call.Getting]) u)
  | _ => trivial

/-- A step after which only calls that were getting before are getting. -/
lemma Calm.congr {s s' : Channel T} (hC : s.Calm)
    (hg : ∀ g, (s'.call g).Getting → (s.call g).Getting) (he : s'.events = s.events)
    (hj : s'.journey = s.journey) : s'.Calm := by
  intro g h
  rw [eventsOf, he, hj]
  exact hC g (hg g h)

lemma getting_move {s : Channel T} {g : ℕ} {d : Call T}
    (h : d.Getting → (s.call g).Getting) (x : ℕ) (hx : ((s.move g d).call x).Getting) :
    (s.call x).Getting := by
  rw [call_move] at hx
  split_ifs at hx with hxg
  · rw [hxg]
    exact h hx
  · exact hx

lemma Calm.step {s s' : Channel T} {a : Action T} (hW : s.Waiters) (hC : s.Calm)
    (hU : s.Undisturbed a) (hs : Channel.step s a = some s') : s'.Calm := by
  cases Rule.of_step hs with
  | make g r hg =>
    cases r with
    | get j =>
      have hj : (s.events j).gr.status = .normal := hU
      intro x hx
      by_cases hxg : x = g
      · simpa [Channel.make, move, eventsOf, hxg] using hj
      · simpa [Channel.make, move, eventsOf, hxg] using hC x (by simpa [Channel.make, hxg] using hx)
    | put v => exact hC.congr (getting_move (d := .put v) (by simp [Call.Getting])) rfl rfl
    | opening => exact hC.congr (getting_move (d := .opening) (by simp [Call.Getting])) rfl rfl
    | closing => exact hC.congr (getting_move (d := .closing) (by simp [Call.Getting])) rfl rfl
  | takeFront g v q hm hg hq =>
    exact hC.congr (getting_move (d := .returned true) (by simp [Call.Getting])) rfl rfl
  | getClosed g hm hg hq hc => exact hC.congr (getting_move (by simp [Call.Getting])) rfl rfl
  | pushWaiter g hm hg hq hc =>
    exact hC.congr (getting_move (d := .deferring) (by simp [hg, Call.Getting])) rfl rfl
  | popWaiter p v w hm hp hr =>
    exact hC.congr (getting_move (d := .handing v w) (by simp [Call.Getting])) rfl rfl
  | emplace p v hm hp hr =>
    exact hC.congr (getting_move (d := .done) (by simp [Call.Getting])) rfl rfl
  | opening p hm hp => exact hC.congr (getting_move (d := .done) (by simp [Call.Getting])) rfl rfl
  | closeClosed p hm hp hc => exact hC.congr (getting_move (by simp [Call.Getting])) rfl rfl
  | popAll p hm hp hc =>
    exact hC.congr (getting_move (d := .walking s.root) (by simp [Call.Getting])) rfl rfl
  | enterDefer g u hg he => exact hC.congr (getting_move (by simp [hg, Call.Getting])) rfl rfl
  | enterThrow g u hg he => exact absurd he (hC.not_deliverable (by simp [hg, Call.Getting]) u)
  | setProceed g hg =>
    exact hC.congr (getting_move (d := .suspended) (by simp [hg, Call.Getting])) rfl rfl
  | handOff p v w hp =>
    have hw := hW.suspended_of_handing hp
    have h₁ : (s.proceedWith w v).Calm :=
      hC.congr (getting_move (d := .proceeded) (by simp [hw, Call.Getting])) rfl rfl
    exact h₁.congr (getting_move (by simp [Call.Getting])) rfl rfl
  | closeNext p w hp =>
    have hw := hW.suspended_of_walking hp
    have h₁ : (s.proceedClosed w).Calm :=
      hC.congr (getting_move (d := .proceeded) (by simp [hw, Call.Getting])) rfl rfl
    exact h₁.congr (getting_move (by simp [Call.Getting])) rfl rfl
  | closeEnd p hp => exact hC.congr (getting_move (by simp [Call.Getting])) rfl rfl
  | resume g hg => exact hC.congr (getting_move (by simp [hg, Call.Getting])) rfl rfl
  | leaveDefer g u hg he => exact hC.congr (getting_move (by simp [Call.Getting])) rfl rfl
  | leaveThrow g u hg he => exact absurd he (hC.not_deliverable (by simp [hg, Call.Getting]) u)
  | set j e =>
    intro x hx
    have hxj : s.journey x ≠ j := fun h => hU x h hx
    have := hC x hx
    simpa [setStatus, eventsOf, hxj] using this
  | allow j b =>
    intro x hx
    have := hC x hx
    by_cases hxj : s.journey x = j
    · simpa [setAllowed, eventsOf, hxj] using this
    · simpa [setAllowed, eventsOf, hxj] using this

lemma inductive_calm :
    (machine T).Inductive Undisturbed fun s => (s.Waiters ∧ s.Values) ∧ s.Calm where
  init s h := by
    obtain rfl : s = {} := h
    exact ⟨inductive_values.init _ rfl, fun _ _ => rfl⟩
  step _ _ _ h hU hs :=
    ⟨inductive_values.step _ _ _ h.1 (h.2.uninterrupted hs) hs, h.2.step h.1.1 hU hs⟩

/-- Conservation and order. Values put are values assigned and then the queue, a value assigned is
in the hand of the `put` that popped the waiter or was received, and a `get` that has returned
received what it was assigned: one value, or none. -/
theorem puts_eq_gots_append_queue {s : Channel T} (h : (machine T).ReachableBy Undisturbed s) :
    s.puts = s.gots.map Prod.snd ++ s.queue ∧
    (∀ g v, (g, v) ∈ s.gots →
      (∃ p, (s.call p).handed = some (v, g)) ∨ (s.HasValue g ∧ s.dest g = some v)) ∧
    (∀ g, s.call g = .returned true → ∃ v, s.assignments g = [v] ∧ s.dest g = some v) ∧
    ∀ g, s.call g = .returned false → s.assignments g = [] := by
  obtain ⟨⟨hW, hV⟩, -⟩ := inductive_calm.holds h
  refine ⟨hV.conserved, hV.assigned, fun g hg => ?_, fun g hg => ?_⟩
  · exact hV.assignments_of_hasValue hW (by simp [HasValue, hg, Call.HasValue])
  · exact hV.assignments_eq_nil hW (by simp [hg, Call.Waits])
      (by simp [HasValue, hg, Call.HasValue])

/-- Get 0 suspends; put 1 pops its waiter and put 2, overtaking the hand-off, finds none. Then the
channel is closed, get 4 empties the queue and get 5 finds nothing. -/
def handedAndQueued : List (Action ℕ) :=
  [.make 0 (.get 7), .lock 0, .enterDefer 0 false, .setProceed 0,
    .make 1 (.put 10), .lock 1, .make 2 (.put 20), .lock 2, .make 3 .closing, .lock 3,
    .make 4 (.get 8), .lock 4, .handOff 1, .closeNext 3, .set 9 .cancelled, .resume 0,
    .leaveDefer 0 false, .make 5 (.get 8), .lock 5]

theorem puts_eq_handedAndQueued :
    ∃ s, (machine ℕ).exec {} handedAndQueued = some s ∧ s.puts = [10, 20] ∧
      s.puts = s.gots.map Prod.snd ++ s.queue ∧ s.call 0 = .returned true ∧
      s.call 5 = .returned false := by
  have he : (machine ℕ).exec {} handedAndQueued = some _ := rfl
  have hC : (machine ℕ).Along Undisturbed {} handedAndQueued := by
    refine ⟨rfl, trivial, trivial, trivial, trivial, trivial, trivial, trivial, trivial, trivial,
      rfl, trivial, trivial, trivial, ?_, trivial, trivial, rfl, trivial, trivial⟩
    intro g hg
    have hj : Function.update (Function.update (fun _ => 0) 0 7) 4 8 g = 9 := hg
    simp only [Function.update_apply] at hj
    split_ifs at hj <;> cases hj
  exact ⟨_, he, rfl, (puts_eq_gots_append_queue (.exec (.init rfl) hC he)).1, rfl, rfl⟩

end Channel

end Synca
