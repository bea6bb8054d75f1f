import Mathlib.Logic.Relation
import Synca.Channel.Conservation

/-!
# The lane of a channel

What the values and the flag `closed` of a channel show of its calls. A `get` is decided once, in a
section under the mutex: it takes the front of the queue, or a `put` hands it a value past an empty
queue, or the channel is closed and the queue empty. Whatever comes between this and its return is
not seen on the lane.

Every step of a channel is a run of at most two deeds on its lane, as long as no events are set and
the channel is not opened again.
-/

namespace Synca

open Transition

variable {T : Type*}

/-- Where a call stands on the lane. -/
inductive Deal (T : Type*) where
  | idle
  /-- A `get` that is not decided. -/
  | asking
  | got (v : T)
  | refused
  /-- A `put` before its section under the mutex. -/
  | put (v : T)
  | closing
  | done
  deriving DecidableEq

@[ext]
structure Lane (T : Type*) where
  deal : ℕ → Deal T := fun _ => .idle
  /-- Values taken by gets, in order. -/
  gots : List T := []
  queue : List T := []
  closed : Bool := false

namespace Lane

/-- A `get` takes the front of the queue, which leaves `q`. -/
def take (l : Lane T) (g : ℕ) (v : T) (q : List T) : Lane T :=
  { l with deal := Function.update l.deal g (.got v), gots := l.gots ++ [v], queue := q }

def refuse (l : Lane T) (g : ℕ) : Lane T :=
  { l with deal := Function.update l.deal g .refused }

def put (l : Lane T) (p : ℕ) (v : T) : Lane T :=
  { l with deal := Function.update l.deal p .done, queue := l.queue ++ [v] }

/-- A call of `close` refuses the waiting gets `ws`. -/
def close (l : Lane T) (p : ℕ) (ws : List ℕ) : Lane T :=
  { l with
    deal   := fun x => if x ∈ ws then .refused else Function.update l.deal p .done x
    closed := true }

inductive Deed (l : Lane T) : Lane T → Prop where
  | take (g : ℕ) (v : T) (q : List T) (hg : l.deal g = .asking) (hq : l.queue = v :: q) :
      Deed l (l.take g v q)
  | refuse (g : ℕ) (hg : l.deal g = .asking) (hq : l.queue = []) (hc : l.closed = true) :
      Deed l (l.refuse g)
  | put (p : ℕ) (v : T) (hp : l.deal p = .put v) : Deed l (l.put p v)
  | close (p : ℕ) (ws : List ℕ) (hp : l.deal p = .closing) (hws : ∀ w ∈ ws, l.deal w = .asking)
      (hq : ws ≠ [] → l.queue = []) : Deed l (l.close p ws)

/-- A call is made. -/
def make (l : Lane T) (g : ℕ) (d : Deal T) : Lane T :=
  { l with deal := Function.update l.deal g d }

end Lane

/-- What the lane can tell of a call from its program counter alone. -/
inductive Role (T : Type*) where
  | idle
  /-- A `get` before its section under the mutex. -/
  | get
  /-- A `get` after it. -/
  | gets
  | put (v : T)
  | closing
  | done

def Call.role : Call T → Role T
  | .idle    => .idle
  | .get     => .get
  | .put v   => .put v
  | .closing => .closing
  | .deferring | .yielded | .suspended | .proceeded | .resumed | .returned _ | .threw _ => .gets
  | .opening | .handing _ _ | .walking _ | .done => .done

/-- Where a new call stands. -/
def Request.deal : Request T → Deal T
  | .get _   => .asking
  | .put v   => .put v
  | .opening => .done
  | .closing => .closing

/-- A call that neither runs nor waits for its turn to. -/
def Call.AtRest : Call T → Prop
  | .idle | .suspended | .returned _ | .threw _ | .done => True
  | _ => False

namespace Channel

open Classical in
/-- A `get` past its section is decided by what it was assigned; without that it is still asking
exactly if its waiter is on the list. -/
noncomputable def deal (s : Channel T) (g : ℕ) : Deal T :=
  match (s.call g).role with
  | .idle    => .idle
  | .get     => .asking
  | .put v   => .put v
  | .closing => .closing
  | .done    => .done
  | .gets    =>
    match s.assignments g with
    | v :: _ => .got v
    | []     => if s.Holds .list g then .asking else .refused

noncomputable def lane (s : Channel T) : Lane T where
  deal   := s.deal
  gots   := s.gots.map Prod.snd
  queue  := s.queue
  closed := s.closed

/-! ### What a step does not change -/

lemma lane_eq {s : Channel T} {d : ℕ → Deal T} {gs q : List T} {c : Bool}
    (hd : ∀ g, s.deal g = d g) (hg : s.gots.map Prod.snd = gs) (hq : s.queue = q)
    (hc : s.closed = c) : s.lane = ⟨d, gs, q, c⟩ :=
  Lane.ext (funext hd) hg hq hc

lemma deal_congr {s s' : Channel T} {g : ℕ} (hr : (s'.call g).role = (s.call g).role)
    (ha : s'.assignments g = s.assignments g) (hl : s'.Holds .list g ↔ s.Holds .list g) :
    s'.deal g = s.deal g := by
  rw [deal, deal, hr, ha, propext hl]

lemma holds_list_congr {s s' : Channel T} (hn : s'.next = s.next) (hr : s'.root = s.root) (g : ℕ) :
    s'.Holds .list g ↔ s.Holds .list g := by
  simp only [Holds, hn, hr]

lemma assignments_congr {s s' : Channel T} (h : s'.gots = s.gots) (g : ℕ) :
    s'.assignments g = s.assignments g := by
  rw [assignments, assignments, h]

lemma assignments_append {s s' : Channel T} {g : ℕ} {v : T} (h : s'.gots = s.gots ++ [(g, v)])
    (x : ℕ) : s'.assignments x = s.assignments x ++ if x = g then [v] else [] := by
  rw [assignments, assignments, h, List.filter_append, List.map_append]
  split_ifs with hx
  · simp [hx]
  · simp [Ne.symm hx]

/-- Steps that are not seen on the lane. -/
lemma lane_congr {s s' : Channel T} (hr : ∀ g, (s'.call g).role = (s.call g).role)
    (hn : s'.next = s.next) (hroot : s'.root = s.root) (hg : s'.gots = s.gots)
    (hq : s'.queue = s.queue) (hc : s'.closed = s.closed) : s'.lane = s.lane := by
  have hd : s'.deal = s.deal :=
    funext fun g => deal_congr (hr g) (assignments_congr hg g) (holds_list_congr hn hroot g)
  simp only [lane, hd, hg, hq, hc]

/-- A move of a call to a program counter of the same role. -/
lemma lane_move {s : Channel T} {g : ℕ} {d : Call T} (hd : d.role = (s.call g).role) :
    (s.move g d).lane = s.lane :=
  lane_congr (apply_call_move _ hd) rfl rfl rfl rfl rfl

lemma lane_make {s : Channel T} (g : ℕ) (r : Request T) :
    (s.make g r).lane = s.lane.make g r.deal := by
  have hd : (s.make g r).deal = Function.update s.deal g r.deal := by
    funext x
    rcases eq_or_ne x g with rfl | hx
    · cases r <;> simp [deal, make, Request.deal, Call.role]
    · rw [Function.update_of_ne hx]
      have hroot : (s.make g r).root = s.root := by cases r <;> rfl
      have hn : (s.make g r).next = s.next := by cases r <;> rfl
      have hgots : (s.make g r).gots = s.gots := by cases r <;> rfl
      refine deal_congr ?_ (assignments_congr hgots x) (holds_list_congr hn hroot x)
      cases r <;> simp [make, hx]
  cases r <;> simp_all [lane, Lane.make, make, move]

/-! ### Steadily used channels -/

/-- No events are set, and no `open` is called. -/
def Steady (_ : Channel T) : Action T → Prop
  | .make _ .opening => False
  | .set _ _         => False
  | _                => True

structure Still (s : Channel T) : Prop where
  waiters : s.Waiters
  values : s.Values
  calm : s.Calm
  normal : ∀ j, (s.events j).gr.status = .normal
  opening : ∀ g, s.call g ≠ .opening

namespace Still

variable {s s' : Channel T} {a : Action T}

lemma undisturbed (h : s.Still) (ha : s.Steady a) : s.Undisturbed a := by
  cases a with
  | make g r => cases r <;> simp [Undisturbed, h.normal]
  | set j e => cases ha
  | _ => trivial

lemma step_events (h : s.Still) (ha : s.Steady a) (hs : Channel.step s a = some s') (j : ℕ) :
    (s'.events j).gr.status = .normal := by
  cases Rule.of_step hs with
  | make g r hg => cases r <;> exact h.normal j
  | enterThrow g u hg he => exact absurd he (h.calm.not_deliverable (by simp [hg, Call.Getting]) u)
  | leaveThrow g u hg he => exact absurd he (h.calm.not_deliverable (by simp [hg, Call.Getting]) u)
  | set k e => cases ha
  | allow k b =>
    simp only [setAllowed, Function.update_apply]
    split_ifs with hj
    · exact h.normal k
    · exact h.normal j
  | _ => exact h.normal j

lemma step_opening (h : s.Still) (ha : s.Steady a) (hs : Channel.step s a = some s') (x : ℕ) :
    s'.call x ≠ .opening := by
  have hmove : ∀ (u : Channel T) (g : ℕ) (d : Call T), (∀ y, u.call y ≠ .opening) →
      d ≠ .opening → (u.move g d).call x ≠ .opening := by
    intro u g d hu hd
    rw [call_move]
    split_ifs
    · exact hd
    · exact hu x
  cases Rule.of_step hs with
  | make g r hg =>
    cases r with
    | opening => cases ha
    | _ => exact hmove s g _ h.opening (by simp)
  | handOff p v w hp =>
    exact hmove (s.proceedWith w v) p _ (fun y => by
      have := h.opening y
      simp only [proceedWith, call_move]
      split_ifs <;> simp [this]) (by simp)
  | closeNext p w hp =>
    exact hmove (s.proceedClosed w) p _ (fun y => by
      have := h.opening y
      simp only [proceedClosed, call_move]
      split_ifs <;> simp [this]) (by simp)
  | set j e => exact h.opening x
  | allow j b => exact h.opening x
  | _ => exact hmove _ _ _ h.opening (by simp)

end Still

lemma inductive_still : (machine T).Inductive Steady Still where
  init s h := by
    obtain ⟨⟨hW, hV⟩, hC⟩ := inductive_calm.init s h
    obtain rfl : s = {} := h
    exact ⟨hW, hV, hC, fun _ => rfl, fun _ => nofun⟩
  step s a s' h ha hs := by
    obtain ⟨⟨hW, hV⟩, hC⟩ :=
      inductive_calm.step s a s' ⟨⟨h.waiters, h.values⟩, h.calm⟩ (h.undisturbed ha) hs
    exact ⟨hW, hV, hC, h.step_events ha hs, h.step_opening ha hs⟩

lemma Still.make {s : Channel T} (h : s.Still) {g : ℕ} {r : Request T} (hg : s.call g = .idle)
    (hr : r ≠ .opening) : (s.make g r).Still := by
  refine inductive_still.step s (.make g r) _ h ?_ (by simp [machine, step, hg])
  cases r <;> trivial

/-! ### Steps as deeds -/

/-- A deed in the step `a` from `s`. A `put` or a `close` has its section before anything else. -/
def Does (s : Channel T) (a : Action T) (l l' : Lane T) : Prop :=
  l.Deed l' ∧ ∀ p, (l.deal p = .closing ∨ ∃ v, l.deal p = .put v) → l'.deal p ≠ l.deal p →
    l = s.lane ∧ a = .lock p

lemma call_of_closing {s : Channel T} {p : ℕ} (h : s.deal p = .closing) :
    s.call p = .closing := by
  cases hr : (s.call p).role with
  | closing => cases hc : s.call p <;> simp_all [Call.role]
  | gets =>
    simp only [deal, hr] at h
    split at h
    · cases h
    · split_ifs at h
  | _ => simp [deal, hr] at h

lemma call_of_put {s : Channel T} {p : ℕ} {v : T} (h : s.deal p = .put v) :
    s.call p = .put v := by
  cases hr : (s.call p).role with
  | put u =>
    obtain rfl : u = v := by simpa [deal, hr] using h
    cases hc : s.call p <;> simp_all [Call.role]
  | gets =>
    simp only [deal, hr] at h
    split at h
    · cases h
    · split_ifs at h
  | _ => simp [deal, hr] at h

lemma deal_of_idle {s : Channel T} {g : ℕ} (h : s.call g = .idle) : s.deal g = .idle := by
  simp [deal, h, Call.role]

lemma deal_of_done {s : Channel T} {g : ℕ} (h : s.call g = .done) : s.deal g = .done := by
  simp [deal, h, Call.role]

lemma deal_of_closing {s : Channel T} {p : ℕ} (h : s.call p = .closing) : s.deal p = .closing := by
  simp [deal, h, Call.role]

lemma deal_of_put {s : Channel T} {p : ℕ} {v : T} (h : s.call p = .put v) : s.deal p = .put v := by
  simp [deal, h, Call.role]

lemma deal_got {s : Channel T} {g : ℕ} {v : T} (h : (s.call g).role = .gets)
    (ha : s.assignments g = [v]) : s.deal g = .got v := by
  simp [deal, h, ha]

lemma deal_refused {s : Channel T} {g : ℕ} (h : (s.call g).role = .gets)
    (ha : s.assignments g = []) (hl : ¬ s.Holds .list g) : s.deal g = .refused := by
  simp [deal, h, ha, hl]

namespace Still

variable {s s' : Channel T} {a : Action T}

lemma assignments_of_get (h : s.Still) {g : ℕ} (hg : s.call g = .get) : s.assignments g = [] :=
  h.values.assignments_eq_nil h.waiters (by simp [hg, Call.Waits])
    (by simp [HasValue, hg, Call.HasValue])

/-- A waiter on the list was assigned nothing. -/
lemma assignments_of_list (h : s.Still) {g : ℕ} (hg : s.Holds .list g) : s.assignments g = [] := by
  have hw := h.waiters.waits _ _ hg
  have hfresh : g ∉ s.gots.map Prod.fst := by
    refine h.values.not_assigned (Call.not_hasValue_of_waits hw) fun p hp => ?_
    cases h.waiters.exclusive hg hp
  rw [assignments, List.map_eq_nil_iff, List.filter_eq_nil_iff]
  intro e he hge
  exact hfresh (List.mem_map.mpr ⟨e, he, by simpa using hge⟩)

lemma deal_of_list (h : s.Still) {g : ℕ} (hg : s.Holds .list g) : s.deal g = .asking := by
  have hr : (s.call g).role = .gets := by
    rcases h.waiters.waits _ _ hg with hc | hc | hc <;> rw [hc] <;> rfl
  simp [deal, hr, h.assignments_of_list hg, hg]

lemma not_list (h : s.Still) {g : ℕ} (hg : ¬ (s.call g).Waits) : ¬ s.Holds .list g :=
  h.waiters.not_holds hg _

/-- The section of a call changes its own deal. -/
lemma locked_of_update {g p : ℕ} {x : Deal T} (h : Function.update s.deal g x p ≠ s.deal p) :
    s.lane = s.lane ∧ Action.lock g = (Action.lock p : Action T) := by
  obtain rfl : p = g := of_not_not fun hp => h (Function.update_of_ne hp _ _)
  exact ⟨rfl, rfl⟩

lemma lane_takeFront (h : s.Still) {g : ℕ} {v : T} {q : List T} (hg : s.call g = .get)
    (hq : s.queue = v :: q) : s.Does (.lock g) s.lane (s.takeFront g v q).lane := by
  have hd : ∀ x, (s.takeFront g v q).deal x = Function.update s.deal g (.got v) x := by
    intro x
    rcases eq_or_ne x g with rfl | hx
    · rw [Function.update_self]
      refine deal_got (by simp [takeFront, move, Call.role]) ?_
      rw [assignments_append (s := s) (g := x) (v := v) rfl, h.assignments_of_get hg, if_pos rfl]
      rfl
    · rw [Function.update_of_ne hx]
      refine deal_congr (by simp [takeFront, move, hx]) ?_ (holds_list_congr rfl rfl x)
      rw [assignments_append (s := s) (g := g) (v := v) rfl, if_neg hx, List.append_nil]
  rw [lane_eq (s := s.takeFront g v q) hd (List.map_append) rfl rfl]
  exact ⟨.take g v q (by simp [lane, deal, hg, Call.role]) hq, fun p _ => locked_of_update⟩

lemma lane_refuse (h : s.Still) {g : ℕ} (hg : s.call g = .get) (hq : s.queue = [])
    (hc : s.closed = true) : s.Does (.lock g) s.lane (s.move g (.returned false)).lane := by
  have hd : ∀ x, (s.move g (.returned false)).deal x = Function.update s.deal g .refused x := by
    intro x
    rcases eq_or_ne x g with rfl | hx
    · rw [Function.update_self]
      exact deal_refused (by simp [Call.role]) (h.assignments_of_get hg)
        (h.not_list (by simp [hg, Call.Waits]))
    · rw [Function.update_of_ne hx]
      exact deal_congr (by simp [hx]) (assignments_congr rfl x) (holds_list_congr rfl rfl x)
  rw [lane_eq (s := s.move g (.returned false)) hd rfl rfl rfl]
  exact ⟨.refuse g (by simp [lane, deal, hg, Call.role]) hq hc, fun p _ => locked_of_update⟩

lemma lane_pushWaiter (h : s.Still) {g : ℕ} (hg : s.call g = .get) :
    (s.pushWaiter g).lane = s.lane := by
  obtain ⟨ws, hws⟩ := h.waiters.list
  have hfresh : ¬ s.Holds .list g := h.not_list (by simp [hg, Call.Waits])
  have hlist : Linked (s.pushWaiter g).next (some g) (g :: ws) :=
    s.next_pushWaiter g ▸ hws.push fun hw => hfresh ⟨ws, hws, hw⟩
  have hholds : ∀ x, (s.pushWaiter g).Holds .list x ↔ x = g ∨ s.Holds .list x := by
    intro x
    constructor
    · rintro ⟨us, hus, hx⟩
      obtain rfl : us = g :: ws := hus.unique hlist
      exact (List.mem_cons.mp hx).imp_right fun hx => ⟨ws, hws, hx⟩
    · rintro (rfl | ⟨us, hus, hx⟩)
      · exact ⟨x :: ws, hlist, List.mem_cons_self⟩
      · obtain rfl : us = ws := hus.unique hws
        exact ⟨g :: us, hlist, List.mem_cons_of_mem _ hx⟩
  refine lane_eq (fun x => ?_) rfl rfl rfl
  rcases eq_or_ne x g with rfl | hx
  · have hr : ((s.pushWaiter x).call x).role = .gets := by simp [pushWaiter, move, Call.role]
    have ha : (s.pushWaiter x).assignments x = [] := h.assignments_of_get hg
    have hl : (s.pushWaiter x).Holds .list x := (hholds x).mpr (.inl rfl)
    calc (s.pushWaiter x).deal x = .asking := by simp [deal, hr, ha, hl]
      _ = s.deal x := by simp [deal, hg, Call.role]
  · refine deal_congr (by simp [pushWaiter, move, hx]) (assignments_congr rfl x) ?_
    rw [hholds, or_iff_right hx]

lemma lane_emplace {p : ℕ} {v : T} (hp : s.call p = .put v) :
    s.Does (.lock p) s.lane (s.emplace p v).lane := by
  have hd : ∀ x, (s.emplace p v).deal x = Function.update s.deal p .done x := by
    intro x
    rcases eq_or_ne x p with rfl | hx
    · rw [Function.update_self]
      simp [deal, emplace, move, Call.role]
    · rw [Function.update_of_ne hx]
      exact deal_congr (by simp [emplace, move, hx]) (assignments_congr rfl x)
        (holds_list_congr rfl rfl x)
  rw [lane_eq (s := s.emplace p v) hd rfl rfl rfl]
  exact ⟨.put p v (deal_of_put hp), fun x _ => locked_of_update⟩

/-- A value handed past the queue is put into it and taken at once. -/
lemma lane_popWaiter (h : s.Still) {p w : ℕ} {v : T} (hp : s.call p = .put v)
    (hr : s.root = some w) :
    Relation.ReflTransGen (s.Does (.lock p)) s.lane (s.popWaiter p v w).lane := by
  obtain ⟨us, hus⟩ := h.waiters.list
  obtain ⟨ws, rfl, hws⟩ := Linked.some_iff.mp (hr ▸ hus)
  have hw : s.Holds .list w := ⟨w :: ws, hus, List.mem_cons_self⟩
  have hwp : w ≠ p := by
    rintro rfl
    simpa [hp, Call.Waits] using h.waiters.waits _ _ hw
  obtain ⟨hq, -⟩ := h.values.empty (by simp [hr])
  have hd : ∀ x, (s.popWaiter p v w).deal x =
      Function.update (Function.update s.deal p .done) w (.got v) x := by
    intro x
    rcases eq_or_ne x w with rfl | hxw
    · rw [Function.update_self]
      refine deal_got ?_ ?_
      · rcases h.waiters.waits _ _ hw with hc | hc | hc <;>
          simp [popWaiter, move, hwp, hc, Call.role]
      · rw [assignments_append (s := s) (g := x) (v := v) rfl, h.assignments_of_list hw, if_pos rfl]
        rfl
    rw [Function.update_of_ne hxw]
    rcases eq_or_ne x p with rfl | hxp
    · rw [Function.update_self]
      simp [deal, popWaiter, move, Call.role]
    · rw [Function.update_of_ne hxp]
      refine deal_congr (by simp [popWaiter, move, hxp]) ?_ ⟨?_, ?_⟩
      · rw [assignments_append (s := s) (g := w) (v := v) rfl, if_neg hxw, List.append_nil]
      · rintro ⟨vs, hvs, hx⟩
        obtain rfl : vs = ws := hvs.unique hws
        exact ⟨w :: vs, hus, List.mem_cons_of_mem _ hx⟩
      · rintro ⟨vs, hvs, hx⟩
        obtain rfl : vs = w :: ws := hvs.unique hus
        exact ⟨ws, hws, (List.mem_cons.mp hx).resolve_left hxw⟩
  have hput := Lane.Deed.put (l := s.lane) p v (deal_of_put hp)
  have hasking : Function.update s.deal p .done w = .asking := by
    rw [Function.update_of_ne hwp, h.deal_of_list hw]
  refine .tail (.single ⟨hput, fun x _ => locked_of_update⟩) ?_
  rw [lane_eq (s := s.popWaiter p v w) hd List.map_append hq rfl]
  refine ⟨.take w v [] hasking (by simp [Lane.put, lane, hq]), fun x hx hne => ?_⟩
  -- the second deed is one of the waiter
  obtain rfl : x = w := of_not_not fun hxw => hne (Function.update_of_ne hxw _ _)
  rcases hx with hx | ⟨u, hx⟩ <;> cases hasking.symm.trans hx

lemma lane_closeClosed {p : ℕ} (hp : s.call p = .closing) (hc : s.closed = true) :
    s.Does (.lock p) s.lane (s.move p .done).lane := by
  have hd : ∀ x, (s.move p .done).deal x =
      if x ∈ ([] : List ℕ) then .refused else Function.update s.deal p .done x := by
    intro x
    rw [if_neg List.not_mem_nil]
    rcases eq_or_ne x p with rfl | hx
    · rw [Function.update_self]
      simp [deal, Call.role]
    · rw [Function.update_of_ne hx]
      exact deal_congr (by simp [hx]) (assignments_congr rfl x) (holds_list_congr rfl rfl x)
  rw [lane_eq (s := s.move p .done) hd rfl rfl hc]
  refine ⟨.close p [] (by simp [lane, deal, hp, Call.role]) (by simp) (by simp), fun x _ hne => ?_⟩
  exact locked_of_update (by simpa [lane] using hne)

lemma lane_popAll (h : s.Still) {p : ℕ} (hp : s.call p = .closing) :
    s.Does (.lock p) s.lane (s.popAll p).lane := by
  obtain ⟨ws, hws⟩ := h.waiters.list
  have hlist : ∀ x, s.Holds .list x ↔ x ∈ ws := by
    intro x
    constructor
    · rintro ⟨us, hus, hx⟩
      exact hus.unique hws ▸ hx
    · exact fun hx => ⟨ws, hws, hx⟩
  have hnone : ∀ x, ¬ (s.popAll p).Holds .list x := by
    rintro x ⟨us, hus, hx⟩
    rw [Linked.none_iff.mp hus] at hx
    cases hx
  have hd : ∀ x, (s.popAll p).deal x =
      if x ∈ ws then .refused else Function.update s.deal p .done x := by
    intro x
    split_ifs with hx
    · have hx' := (hlist x).mpr hx
      have hxp : x ≠ p := by
        rintro rfl
        simpa [hp, Call.Waits] using h.waiters.waits _ _ hx'
      refine deal_refused ?_ (h.assignments_of_list hx') (hnone x)
      rcases h.waiters.waits _ _ hx' with hc | hc | hc <;> simp [popAll, move, hxp, hc, Call.role]
    · rcases eq_or_ne x p with rfl | hxp
      · rw [Function.update_self]
        simp [deal, popAll, move, Call.role]
      · rw [Function.update_of_ne hxp]
        refine deal_congr (by simp [popAll, move, hxp]) (assignments_congr rfl x) ?_
        exact iff_of_false (hnone x) (mt (hlist x).mp hx)
  rw [lane_eq (s := s.popAll p) hd rfl rfl rfl]
  have hasking : ∀ w ∈ ws, s.deal w = .asking := fun w hw => h.deal_of_list ((hlist w).mpr hw)
  refine ⟨.close p ws (by simp [lane, deal, hp, Call.role]) hasking
    fun hne => (h.values.empty fun hr => hne ?_).1, fun x hx hne => ?_⟩
  · rw [hr] at hws
    exact Linked.none_iff.mp hws
  · have hxw : x ∉ ws := by
      intro hw
      rcases hx with hx | ⟨u, hx⟩ <;> cases (hasking x hw).symm.trans hx
    have hne : (if x ∈ ws then .refused else Function.update s.deal p .done x) ≠ s.deal x := hne
    rw [if_neg hxw] at hne
    exact locked_of_update hne

lemma lane_handOff (h : s.Still) {p w : ℕ} {v : T} (hp : s.call p = .handing v w) :
    ((s.proceedWith w v).move p .done).lane = s.lane := by
  have hw := h.waiters.suspended_of_handing hp
  have hpw : p ≠ w := by
    rintro rfl
    cases hp.symm.trans hw
  have hcall : (s.proceedWith w v).call p = .handing v w := by simp [proceedWith, move, hpw, hp]
  calc ((s.proceedWith w v).move p .done).lane
      = (s.proceedWith w v).lane := lane_move (by rw [hcall]; rfl)
    _ = s.lane := by
      refine lane_congr (apply_call_move (d := .proceeded) _ ?_) rfl rfl rfl rfl rfl
      rw [hw]
      rfl

lemma lane_closeNext (h : s.Still) {p w : ℕ} (hp : s.call p = .walking (some w)) :
    ((s.proceedClosed w).move p (.walking (s.next w))).lane = s.lane := by
  have hw := h.waiters.suspended_of_walking hp
  have hpw : p ≠ w := by
    rintro rfl
    cases hp.symm.trans hw
  have hcall : (s.proceedClosed w).call p = .walking (some w) := by
    simp [proceedClosed, move, hpw, hp]
  have hn : (s.proceedClosed w).next = s.next := by
    funext x
    rcases eq_or_ne x w with rfl | hx
    · simp [next, proceedClosed]
    · simp [next, proceedClosed, hx]
  calc ((s.proceedClosed w).move p (.walking (s.next w))).lane
      = (s.proceedClosed w).lane := lane_move (by rw [hcall]; rfl)
    _ = s.lane := by
      refine lane_congr (apply_call_move (d := .proceeded) _ ?_) hn rfl rfl rfl rfl
      rw [hw]
      rfl

/-- A step of a channel, the making of a call apart, is seen on the lane as deeds. -/
theorem deeds_of_step (h : s.Still) (ha : s.Steady a) (hm : ∀ g r, a ≠ .make g r)
    (hs : Channel.step s a = some s') : Relation.ReflTransGen (s.Does a) s.lane s'.lane := by
  have hquiet : s'.lane = s.lane → Relation.ReflTransGen (s.Does a) s.lane s'.lane :=
    fun he => he ▸ .refl
  cases Rule.of_step hs with
  | make g r hg => exact absurd rfl (hm g r)
  | takeFront g v q hm hg hq => exact .single (h.lane_takeFront hg hq)
  | getClosed g hm hg hq hc => exact .single (h.lane_refuse hg hq hc)
  | pushWaiter g hm hg hq hc => exact hquiet (h.lane_pushWaiter hg)
  | popWaiter p v w hm hp hr => exact h.lane_popWaiter hp hr
  | emplace p v hm hp hr => exact .single (lane_emplace hp)
  | opening p hm hp => exact absurd hp (h.opening p)
  | closeClosed p hm hp hc => exact .single (lane_closeClosed hp hc)
  | popAll p hm hp hc => exact .single (h.lane_popAll hp)
  | enterThrow g u hg he => exact absurd he (h.calm.not_deliverable (by simp [hg, Call.Getting]) u)
  | leaveThrow g u hg he => exact absurd he (h.calm.not_deliverable (by simp [hg, Call.Getting]) u)
  | setProceed g hg =>
    refine hquiet (lane_congr (apply_call_move (d := .suspended) _ ?_) (s.next_setProceed g) rfl
      rfl rfl rfl)
    rw [hg]
    rfl
  | handOff p v w hp => exact hquiet (h.lane_handOff hp)
  | closeNext p w hp => exact hquiet (h.lane_closeNext hp)
  | set j e => cases ha
  | allow j b => exact hquiet (lane_congr (fun _ => rfl) rfl rfl rfl rfl rfl)
  | enterDefer g u hg he => exact hquiet (lane_move (by rw [hg]; rfl))
  | closeEnd p hp => exact hquiet (lane_move (by rw [hp]; rfl))
  | resume g hg => exact hquiet (lane_move (by rw [hg]; rfl))
  | leaveDefer g u hg he => exact hquiet (lane_move (by rw [hg]; rfl))

/-- The value assigned to a `get`. -/
lemma deal_of_gots (h : s.Still) {g : ℕ} {v : T} (hg : (g, v) ∈ s.gots) : s.deal g = .got v := by
  refine deal_got ?_ (h.values.assignments_eq hg)
  rcases h.values.assigned g v hg with ⟨p, hp⟩ | ⟨hval, -⟩
  · have hw := h.waiters.suspended (.hand p) g (Call.hand_of_handed hp) (by simp)
    rw [hw]
    rfl
  · rw [HasValue] at hval
    cases hc : s.call g <;> simp_all [Call.HasValue, Call.role]

lemma gots_of_deal {g : ℕ} {v : T} (hg : s.deal g = .got v) : (g, v) ∈ s.gots := by
  have ha : v ∈ s.assignments g := by
    cases hr : (s.call g).role with
    | gets =>
      simp only [deal, hr] at hg
      split at hg
      case h_1 u us hu =>
        cases hg
        rw [hu]
        exact List.mem_cons_self
      case h_2 => split_ifs at hg
    | _ => simp [deal, hr] at hg
  obtain ⟨e, he, rfl⟩ := List.mem_map.mp ha
  obtain ⟨hm, hk⟩ := List.mem_filter.mp he
  obtain rfl : e.1 = g := by simpa using hk
  exact hm

lemma deal_of_returned (h : s.Still) {g : ℕ} {v : T} (hg : s.call g = .returned true)
    (hv : s.dest g = some v) : s.deal g = .got v := by
  obtain ⟨u, ha, hu⟩ := h.values.assignments_of_hasValue h.waiters (g := g)
    (by simp [HasValue, hg, Call.HasValue])
  obtain rfl : u = v := Option.some_injective _ (hu.symm.trans hv)
  exact deal_got (by simp [hg, Call.role]) ha

lemma deal_of_returned_false (h : s.Still) {g : ℕ} (hg : s.call g = .returned false) :
    s.deal g = .refused :=
  deal_refused (by simp [hg, Call.role])
    (h.values.assignments_eq_nil h.waiters (by simp [hg, Call.Waits])
      (by simp [HasValue, hg, Call.HasValue]))
    (h.not_list (by simp [hg, Call.Waits]))

/-- When all calls are at rest, but for those of `close` that wait for their turn, a suspended `get`
is on the list. -/
theorem holds_of_suspended (h : s.Still) (hr : ∀ p, (s.call p).AtRest ∨ s.call p = .closing)
    {g : ℕ} (hg : s.call g = .suspended) : s.Holds .list g := by
  obtain ⟨q, hq⟩ := h.waiters.held g (by simp [hg, Call.Waits])
  cases q with
  | list => exact hq
  | walk p =>
    have hp := hr p
    obtain ⟨ws, hws, hw⟩ := hq
    cases hc : s.call p <;> simp_all [Call.root, Call.AtRest]
  | hand p =>
    have hp := hr p
    have hh : (s.call p).hand = some g := hq
    cases hc : s.call p <;> simp_all [Call.hand, Call.AtRest]

lemma empty_of_list (h : s.Still) {g : ℕ} (hg : s.Holds .list g) :
    s.queue = [] ∧ s.closed = false := by
  refine h.values.empty fun hr => ?_
  obtain ⟨ws, hws, hw⟩ := hg
  rw [hr] at hws
  rw [Linked.none_iff.mp hws] at hw
  cases hw

end Still

/-! ### Several channels -/

section

variable {ι : Type*} {T : ι → Type*} [DecidableEq ι] {chan : ∀ c, Channel (T c)} {c : ι}

lemma lane_update (chan : ∀ c, Channel (T c)) (c : ι) (x : Channel (T c)) :
    (fun d => (Function.update chan c x d).lane) =
      Function.update (fun d => (chan d).lane) c x.lane :=
  funext fun d => Function.apply_update (fun c (x : Channel (T c)) => x.lane) chan c x d

lemma still_update (h : ∀ c, (chan c).Still) {x : Channel (T c)} (hx : x.Still) (d : ι) :
    (Function.update chan c x d).Still := by
  rcases eq_or_ne d c with rfl | hd
  · rwa [Function.update_self]
  · rw [Function.update_of_ne hd]
    exact h d

end

end Channel

end Synca
