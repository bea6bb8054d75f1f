import Mathlib.Tactic.Tauto
import Synca.Channel.Machine
import Synca.Transition.Linked
import Synca.Transition.Ownership

/-!
# The waiters of a channel

A waiter that has been pushed and not proceeded is in one place: on the channel's list, on the list
some `close` is walking, or in the hand of some `put`. Its `get` is suspended with `proc` set, or it
is the one that still holds the mutex. Conversely every such `get` has its waiter in one of these
places. This is kept as long as no `get` throws before it has suspended: a `get` that does leaves
its waiter on the list.
-/

namespace Synca

open Transition

variable {T : Type*}

namespace Call

/-- The list a call of `close` walks. -/
def root : Call T → Option ℕ
  | .walking r => r
  | _          => none

/-- The waiter a call of `put` has popped. -/
def hand : Call T → Option ℕ
  | .handing _ w => some w
  | _            => none

/-- A `get` that has pushed its waiter and has not been proceeded. -/
def Waits (c : Call T) : Prop := c = .deferring ∨ c = .yielded ∨ c = .suspended

end Call

namespace Channel

/-- Where a waiter can be. -/
inductive Place where
  | list
  | walk (p : ℕ)
  | hand (p : ℕ)

def Holds (s : Channel T) : Place → ℕ → Prop
  | .list,   w => ∃ ws, Linked s.next s.root ws ∧ w ∈ ws
  | .walk p, w => ∃ ws, Linked s.next (s.call p).root ws ∧ w ∈ ws
  | .hand p, w => (s.call p).hand = some w

structure Waiters (s : Channel T) : Prop where
  list : ∃ ws, Linked s.next s.root ws
  walk : ∀ p, ∃ ws, Linked s.next (s.call p).root ws
  exclusive : Exclusive s.Holds
  /-- A waiter in some place belongs to a waiting `get`, and away from the list to a suspended
  one. -/
  waits : ∀ q w, s.Holds q w → (s.call w).Waits
  suspended : ∀ q w, s.Holds q w → q ≠ .list → s.call w = .suspended
  held : ∀ w, (s.call w).Waits → ∃ q, s.Holds q w
  mutex : ∀ g, s.mutex = some g ↔ s.call g = .deferring ∨ s.call g = .yielded
  val : ∀ g, (s.call g).Waits → (s.waiter g).val = true
  proc : ∀ g, s.call g = .suspended → (s.waiter g).proc = true

/-- No `get` meets an event before it suspends. -/
def EntersQuietly (s : Channel T) : Action T → Prop
  | .enterDefer g u => ¬ (s.eventsOf g).Deliverable u
  | _               => True

@[simp] lemma call_move (s : Channel T) (g p : ℕ) (pc : Call T) :
    (s.move g pc).call p = if p = g then pc else s.call p :=
  Function.update_apply _ _ _ _

/-- A move of a call between positions that `f` does not tell apart. -/
lemma apply_call_move {α : Sort*} {s : Channel T} {g : ℕ} {d : Call T} (f : Call T → α)
    (hf : f d = f (s.call g)) (p : ℕ) : f ((s.move g d).call p) = f (s.call p) := by
  rw [call_move]
  split_ifs with hp
  · rw [hf, hp]
  · rfl

lemma holds_congr {s s' : Channel T} (hn : s'.next = s.next) (hr : s'.root = s.root)
    (hw : ∀ p, (s'.call p).root = (s.call p).root) (hh : ∀ p, (s'.call p).hand = (s.call p).hand) :
    s'.Holds = s.Holds := by
  funext q w
  cases q with
  | list => simp only [Holds, hn, hr]
  | walk p => simp only [Holds, hn, hw]
  | hand p => simp only [Holds, hh]

/-- Steps that keep every waiter where it is. -/
lemma Waiters.congr {s s' : Channel T} (hW : s.Waiters) (hn : s'.next = s.next)
    (hr : s'.root = s.root) (hroot : ∀ p, (s'.call p).root = (s.call p).root)
    (hhand : ∀ p, (s'.call p).hand = (s.call p).hand)
    (hwaits : ∀ p, (s'.call p).Waits ↔ (s.call p).Waits)
    (hsusp : ∀ p, s.call p = .suspended → s'.call p = .suspended)
    (hm : ∀ g, s'.mutex = some g ↔ s'.call g = .deferring ∨ s'.call g = .yielded)
    (hv : ∀ g, (s'.call g).Waits → (s'.waiter g).val = true)
    (hp : ∀ g, s'.call g = .suspended → (s'.waiter g).proc = true) : s'.Waiters := by
  have hH : s'.Holds = s.Holds := holds_congr hn hr hroot hhand
  refine ⟨?_, fun p => ?_, ?_, fun q w hq => ?_, fun q w hq hne => ?_, fun w hw => ?_, hm, hv, hp⟩
  · rw [hn, hr]
    exact hW.list
  · rw [hn, hroot]
    exact hW.walk p
  · rw [hH]
    exact hW.exclusive
  · rw [hwaits]
    exact hW.waits q w (hH ▸ hq)
  · exact hsusp w (hW.suspended q w (hH ▸ hq) hne)
  · rw [hH]
    exact hW.held w ((hwaits w).mp hw)

/-- A step of a call that neither has a waiter nor gets one. -/
lemma Waiters.frame {s s' : Channel T} (hW : s.Waiters) {g : ℕ} {c d : Call T}
    (hg : s.call g = c) (hc : s'.call = (s.move g d).call) (hw : s'.waiter = s.waiter)
    (hr : s'.root = s.root) (hm : s'.mutex = s.mutex) (hroot : d.root = c.root)
    (hhand : d.hand = c.hand) (hcw : ¬ c.Waits) (hd : ¬ d.Waits) : s'.Waiters := by
  subst hg
  have hcall : ∀ p, s'.call p = if p = g then d else s.call p := fun p => by rw [hc, call_move]
  have hsame : ∀ p c, c.Waits → (s'.call p = c ↔ s.call p = c) := by
    intro p c hcw
    rw [hcall]
    split_ifs with hp
    · subst hp
      constructor <;> rintro rfl <;> contradiction
    · rfl
  have hwaits : ∀ p, (s'.call p).Waits ↔ (s.call p).Waits := by
    intro p
    rw [hcall]
    split_ifs with hp
    · subst hp
      tauto
    · rfl
  have hs : ∀ p, s'.call p = .suspended ↔ s.call p = .suspended :=
    fun p => hsame p _ (by simp [Call.Waits])
  apply hW.congr (funext fun w => by simp only [next, hw]) hr
  · rw [hc]
    exact apply_call_move _ hroot
  · rw [hc]
    exact apply_call_move _ hhand
  · exact hwaits
  · exact fun p => (hs p).mpr
  · intro p
    rw [hm, hsame p _ (by simp [Call.Waits]), hsame p _ (by simp [Call.Waits])]
    exact hW.mutex p
  · intro p hp
    rw [hw]
    exact hW.val p ((hwaits p).mp hp)
  · intro p hp
    rw [hw]
    exact hW.proc p ((hs p).mp hp)

lemma Waiters.eq_of_mutex {s : Channel T} (hW : s.Waiters) {g p : ℕ}
    (hg : s.call g = .deferring ∨ s.call g = .yielded)
    (hp : s.call p = .deferring ∨ s.call p = .yielded) : p = g := by
  have h := (hW.mutex g).mpr hg
  rw [(hW.mutex p).mpr hp] at h
  exact Option.some_injective _ h

lemma Waiters.enterDefer {s : Channel T} (hW : s.Waiters) {g : ℕ} (hg : s.call g = .deferring) :
    (s.move g .yielded).Waiters := by
  have hwaits : ∀ p, ((s.move g .yielded).call p).Waits = (s.call p).Waits :=
    apply_call_move _ (by simp [hg, Call.Waits])
  have hn : (s.move g .yielded).next = s.next := rfl
  apply hW.congr hn rfl (apply_call_move _ (by rw [hg]; rfl))
    (apply_call_move _ (by rw [hg]; rfl)) fun p => by rw [hwaits]
  · intro p hp
    rw [call_move, if_neg]
    · exact hp
    · rintro rfl
      rw [hg] at hp
      cases hp
  · intro p
    have := hW.mutex p
    by_cases hp : p = g
    · subst hp
      simpa [hg, move] using this
    · simpa [hp, move] using this
  · intro p hp
    exact hW.val p (hwaits p ▸ hp)
  · intro p hp
    rw [call_move] at hp
    split_ifs at hp
    exact hW.proc p hp

lemma next_setProceed (s : Channel T) (g : ℕ) : (s.setProceed g).next = s.next := by
  funext w
  simp only [next, setProceed, Function.update_apply]
  split_ifs with hw
  · rw [hw]
  · rfl

lemma Waiters.setProceed {s : Channel T} (hW : s.Waiters) {g : ℕ} (hg : s.call g = .yielded) :
    (s.setProceed g).Waiters := by
  have hcall : ∀ p, (s.setProceed g).call p = if p = g then .suspended else s.call p :=
    fun p => call_move s g p .suspended
  have hwaits : ∀ p, ((s.setProceed g).call p).Waits = (s.call p).Waits :=
    apply_call_move (d := .suspended) _ (by simp [hg, Call.Waits])
  apply hW.congr (s.next_setProceed g) rfl (apply_call_move (d := .suspended) _ (by rw [hg]; rfl))
    (apply_call_move (d := .suspended) _ (by rw [hg]; rfl)) fun p => by rw [hwaits]
  · intro p hp
    rw [hcall]
    split_ifs
    · rfl
    · exact hp
  · -- the mutex is free, and no other `get` was holding it
    intro p
    suffices ¬ ((s.setProceed g).call p = .deferring ∨ (s.setProceed g).call p = .yielded) by
      simpa [Channel.setProceed] using this
    rw [hcall]
    split_ifs with hp
    · simp
    · exact fun h => hp (hW.eq_of_mutex (.inr hg) h)
  · intro p hp
    have := hW.val p (hwaits p ▸ hp)
    simp only [Channel.setProceed, Function.update_apply]
    split_ifs with hpg
    · exact hpg ▸ this
    · exact this
  · intro p hp
    rw [hcall] at hp
    simp only [Channel.setProceed, Function.update_apply]
    split_ifs at hp ⊢
    · rfl
    · exact hW.proc p hp

/-- Nothing is held for a call that does not wait. -/
lemma Waiters.not_holds {s : Channel T} (hW : s.Waiters) {g : ℕ} (hg : ¬ (s.call g).Waits)
    (q : Place) : ¬ s.Holds q g :=
  fun h => hg (hW.waits q g h)

lemma Waiters.suspended_of_mutex {s : Channel T} (hW : s.Waiters) (hm : s.mutex = none) {q : Place}
    {w : ℕ} (hq : s.Holds q w) : s.call w = .suspended := by
  have h : ¬ (s.call w = .deferring ∨ s.call w = .yielded) := by
    rw [← hW.mutex, hm]
    simp
  rcases hW.waits q w hq with h' | h' | h'
  · exact absurd (.inl h') h
  · exact absurd (.inr h') h
  · exact h'

lemma next_pushWaiter (s : Channel T) (g : ℕ) :
    (s.pushWaiter g).next = Function.update s.next g s.root := by
  funext w
  simp only [next, pushWaiter, Function.update_apply]
  split_ifs <;> rfl

lemma Waiters.pushWaiter {s : Channel T} (hW : s.Waiters) {g : ℕ} (hm : s.mutex = none)
    (hg : s.call g = .get) : (s.pushWaiter g).Waiters := by
  have hfresh : ∀ q, ¬ s.Holds q g := hW.not_holds (by simp [hg, Call.Waits])
  have hcall : ∀ p, (s.pushWaiter g).call p = if p = g then .deferring else s.call p :=
    fun p => call_move s g p .deferring
  have hroot : ∀ p, ((s.pushWaiter g).call p).root = (s.call p).root :=
    apply_call_move (d := .deferring) _ (by rw [hg]; rfl)
  have hhand : ∀ p, ((s.pushWaiter g).call p).hand = (s.call p).hand :=
    apply_call_move (d := .deferring) _ (by rw [hg]; rfl)
  have hn := s.next_pushWaiter g
  obtain ⟨ws, hws⟩ := hW.list
  have hlist : Linked (s.pushWaiter g).next (some g) (g :: ws) :=
    hn ▸ hws.push fun hw => hfresh .list ⟨ws, hws, hw⟩
  have hwalk : ∀ p us, Linked s.next (s.call p).root us →
      Linked (s.pushWaiter g).next ((s.pushWaiter g).call p).root us := by
    intro p us hus
    rw [hn, hroot]
    exact hus.update (fun hu => hfresh (.walk p) ⟨us, hus, hu⟩) _
  have hsub : ∀ q w, (s.pushWaiter g).Holds q w → s.Holds q w ∨ (q = .list ∧ w = g) := by
    rintro (_ | p | p) w hq
    · obtain ⟨us, hus, hw⟩ := hq
      obtain rfl : us = g :: ws := hus.unique hlist
      rcases List.mem_cons.mp hw with rfl | hw
      · exact .inr ⟨rfl, rfl⟩
      · exact .inl ⟨ws, hws, hw⟩
    · obtain ⟨us, hus, hw⟩ := hq
      obtain ⟨vs, hvs⟩ := hW.walk p
      obtain rfl : us = vs := hus.unique (hwalk p vs hvs)
      exact .inl ⟨us, hvs, hw⟩
    · exact .inl (by rw [Holds, ← hhand]; exact hq)
  have hsup : ∀ q w, s.Holds q w → (s.pushWaiter g).Holds q w := by
    rintro (_ | p | p) w hq
    · obtain ⟨us, hus, hw⟩ := hq
      obtain rfl : us = ws := hus.unique hws
      exact ⟨g :: us, hlist, List.mem_cons_of_mem _ hw⟩
    · obtain ⟨us, hus, hw⟩ := hq
      exact ⟨us, hwalk p us hus, hw⟩
    · rw [Holds, hhand]
      exact hq
  constructor
  · exact ⟨g :: ws, hlist⟩
  · intro p
    obtain ⟨us, hus⟩ := hW.walk p
    exact ⟨us, hwalk p us hus⟩
  · exact hW.exclusive.issue .list hfresh hsub
  · intro q w hq
    rw [hcall]
    split_ifs with hw
    · exact .inl rfl
    · exact hW.waits q w ((hsub q w hq).resolve_right fun h => hw h.2)
  · intro q w hq hne
    have hold := (hsub q w hq).resolve_right fun h => hne h.1
    rw [hcall, if_neg]
    · exact hW.suspended q w hold hne
    · rintro rfl
      exact hfresh q hold
  · intro w hw
    rw [hcall] at hw
    split_ifs at hw with hwg
    · exact ⟨.list, g :: ws, hlist, hwg ▸ List.mem_cons_self⟩
    · obtain ⟨q, hq⟩ := hW.held w hw
      exact ⟨q, hsup q w hq⟩
  · intro p
    have := hW.mutex p
    rw [hcall]
    split_ifs with hp
    · simp [hp, Channel.pushWaiter]
    · simpa [Channel.pushWaiter, Ne.symm hp, hm] using this
  · intro p hp
    rw [hcall] at hp
    simp only [Channel.pushWaiter, Function.update_apply]
    split_ifs at hp ⊢
    · rfl
    · exact hW.val p hp
  · intro p hp
    rw [hcall] at hp
    split_ifs at hp with hpg
    simpa [Channel.pushWaiter, hpg] using hW.proc p hp

/-- `put` takes the front of the list into its hand. -/
lemma Waiters.popWaiter {s : Channel T} (hW : s.Waiters) {p w : ℕ} {v : T} (hm : s.mutex = none)
    (hp : s.call p = .put v) (hr : s.root = some w) : (s.popWaiter p v w).Waiters := by
  have hcall : ∀ x, (s.popWaiter p v w).call x = if x = p then .handing v w else s.call x :=
    fun x => call_move s p x (.handing v w)
  have hroot : ∀ x, ((s.popWaiter p v w).call x).root = (s.call x).root :=
    apply_call_move (d := .handing v w) _ (by rw [hp]; rfl)
  have hwaits : ∀ x, ((s.popWaiter p v w).call x).Waits = (s.call x).Waits :=
    apply_call_move (d := .handing v w) _ (by simp [hp, Call.Waits])
  obtain ⟨us, hus⟩ := hW.list
  obtain ⟨ws, rfl, hws⟩ := Linked.some_iff.mp (hr ▸ hus)
  have hnd := List.nodup_cons.mp hus.nodup
  have hfrom : s.Holds .list w := ⟨w :: ws, hus, List.mem_cons_self⟩
  have hsub : ∀ q x, (s.popWaiter p v w).Holds q x →
      (s.Holds q x ∧ x ≠ w) ∨ (q = .hand p ∧ x = w) := by
    rintro (_ | y | y) x hq
    · obtain ⟨vs, hvs, hx⟩ := hq
      obtain rfl : vs = ws := hvs.unique hws
      refine .inl ⟨⟨w :: vs, hus, List.mem_cons_of_mem _ hx⟩, ?_⟩
      rintro rfl
      exact hnd.1 hx
    · rw [Holds, hroot] at hq
      refine .inl ⟨hq, ?_⟩
      rintro rfl
      cases hW.exclusive hfrom (q := .walk y) hq
    · rw [Holds, hcall] at hq
      split_ifs at hq with hy
      · exact .inr ⟨by rw [hy], (Option.some_injective _ hq).symm⟩
      · refine .inl ⟨hq, ?_⟩
        rintro rfl
        cases hW.exclusive hfrom (q := .hand y) hq
  have hhand : (s.popWaiter p v w).Holds (.hand p) w := by
    rw [Holds, hcall, if_pos rfl]
    rfl
  constructor
  · exact ⟨ws, hws⟩
  · intro x
    rw [hroot]
    exact hW.walk x
  · refine hW.exclusive.move hfrom (.hand p) (fun _ h => ?_) fun q x hq => ?_
    · rcases hsub .list w h with h | h
      · exact h.2 rfl
      · cases h.1
    · exact (hsub q x hq).imp_left And.left
  · intro q x hq
    rw [hwaits]
    rcases hsub q x hq with h | ⟨-, rfl⟩
    · exact hW.waits q x h.1
    · exact hW.waits .list x hfrom
  · intro q x hq _
    have hx : s.call x = .suspended := by
      rcases hsub q x hq with h | ⟨-, rfl⟩
      · exact hW.suspended_of_mutex hm h.1
      · exact hW.suspended_of_mutex hm hfrom
    rw [hcall, if_neg]
    · exact hx
    · rintro rfl
      cases hp.symm.trans hx
  · intro x hx
    rw [hwaits] at hx
    by_cases hxw : x = w
    · exact ⟨.hand p, hxw ▸ hhand⟩
    · obtain ⟨q, hq⟩ := hW.held x hx
      refine ⟨q, ?_⟩
      rcases q with _ | y | y
      · obtain ⟨vs, hvs, hm⟩ := hq
        obtain rfl := hvs.unique hus
        exact ⟨ws, hws, (List.mem_cons.mp hm).resolve_left hxw⟩
      · rw [Holds, hroot]
        exact hq
      · rw [Holds, hcall, if_neg]
        · exact hq
        · rintro rfl
          simp [Holds, hp, Call.hand] at hq
  · intro x
    have := hW.mutex x
    rw [hcall]
    split_ifs with hx
    · simp [Channel.popWaiter, move, hm]
    · exact this
  · exact fun x hx => hW.val x (hwaits x ▸ hx)
  · intro x hx
    rw [hcall] at hx
    split_ifs at hx
    exact hW.proc x hx

/-- `close` takes the whole list. -/
lemma Waiters.popAll {s : Channel T} (hW : s.Waiters) {p : ℕ} (hm : s.mutex = none)
    (hp : s.call p = .closing) : (s.popAll p).Waiters := by
  have hcall : ∀ x, (s.popAll p).call x = if x = p then .walking s.root else s.call x :=
    fun x => call_move s p x (.walking s.root)
  have hhand : ∀ x, ((s.popAll p).call x).hand = (s.call x).hand :=
    apply_call_move (d := .walking s.root) _ (by rw [hp]; rfl)
  have hwaits : ∀ x, ((s.popAll p).call x).Waits = (s.call x).Waits :=
    apply_call_move (d := .walking s.root) _ (by simp [hp, Call.Waits])
  -- `close` had no list of its own before
  have hnot : ∀ x, ¬ s.Holds (.walk p) x := by
    rintro x ⟨us, hus, hx⟩
    rw [hp] at hus
    rw [Linked.none_iff.mp hus] at hx
    cases hx
  have hsub : ∀ q x, (s.popAll p).Holds q x →
      ∃ q₀, s.Holds q₀ x ∧ (match q₀ with | .list => Place.walk p | q₀ => q₀) = q := by
    rintro (_ | y | y) x hq
    · obtain ⟨us, hus, hx⟩ := hq
      rw [Linked.none_iff.mp hus] at hx
      cases hx
    · rw [Holds, hcall] at hq
      split_ifs at hq with hy
      · exact ⟨.list, hq, by rw [hy]⟩
      · exact ⟨.walk y, hq, rfl⟩
    · rw [Holds, hhand] at hq
      exact ⟨.hand y, hq, rfl⟩
  constructor
  · exact ⟨[], rfl⟩
  · intro x
    rw [hcall]
    split_ifs
    · exact hW.list
    · exact hW.walk x
  · exact hW.exclusive.map _ hsub
  · intro q x hq
    rw [hwaits]
    obtain ⟨q₀, hq₀, -⟩ := hsub q x hq
    exact hW.waits q₀ x hq₀
  · intro q x hq _
    obtain ⟨q₀, hq₀, -⟩ := hsub q x hq
    have hx := hW.suspended_of_mutex hm hq₀
    rw [hcall, if_neg]
    · exact hx
    · rintro rfl
      cases hp.symm.trans hx
  · intro x hx
    obtain ⟨q, hq⟩ := hW.held x (hwaits x ▸ hx)
    rcases q with _ | y | y
    · refine ⟨.walk p, ?_⟩
      rw [Holds, hcall, if_pos rfl]
      exact hq
    · refine ⟨.walk y, ?_⟩
      rw [Holds, hcall, if_neg]
      · exact hq
      · rintro rfl
        exact hnot x hq
    · exact ⟨.hand y, by rw [Holds, hhand]; exact hq⟩
  · intro x
    have := hW.mutex x
    rw [hcall]
    split_ifs
    · simp [Channel.popAll, move, hm]
    · exact this
  · exact fun x hx => hW.val x (hwaits x ▸ hx)
  · intro x hx
    rw [hcall] at hx
    split_ifs at hx
    exact hW.proc x hx

/-- Waiter `w`, held away from the list, is proceeded by call `p`. -/
lemma Waiters.release {s s' : Channel T} (hW : s.Waiters) {p w : ℕ} {pc : Call T} {q₀ : Place}
    (hw : s.Holds q₀ w) (hq₀ : q₀ ≠ .list) (hp : ¬ (s.call p).Waits) (hpc : ¬ pc.Waits)
    (hcall : ∀ x, s'.call x = if x = p then pc else if x = w then .proceeded else s.call x)
    (hlist : ∃ us, Linked s'.next s'.root us)
    (hwalk : ∀ x, ∃ us, Linked s'.next (s'.call x).root us)
    (hiff : ∀ q x, s'.Holds q x ↔ s.Holds q x ∧ x ≠ w) (hm : s'.mutex = s.mutex)
    (hwt : ∀ x, x ≠ w → s'.waiter x = s.waiter x) : s'.Waiters := by
  have hws : s.call w = .suspended := hW.suspended q₀ w hw hq₀
  have hof : ∀ x c, c.Waits → s'.call x = c → x ≠ w ∧ s.call x = c := by
    intro x c hc hx
    rw [hcall] at hx
    split_ifs at hx with h₁ h₂
    · exact absurd (hx ▸ hc) hpc
    · rw [← hx] at hc
      simp [Call.Waits] at hc
    · exact ⟨h₂, hx⟩
  have hto : ∀ x, x ≠ w → (s.call x).Waits → s'.call x = s.call x := by
    intro x hx hxw
    rw [hcall, if_neg, if_neg hx]
    rintro rfl
    exact hp hxw
  constructor
  · exact hlist
  · exact hwalk
  · exact hW.exclusive.mono fun q x hq => ((hiff q x).mp hq).1
  · intro q x hq
    obtain ⟨hq, hx⟩ := (hiff q x).mp hq
    have := hW.waits q x hq
    rwa [hto x hx this]
  · intro q x hq hne
    obtain ⟨hq, hx⟩ := (hiff q x).mp hq
    rw [hto x hx (hW.waits q x hq)]
    exact hW.suspended q x hq hne
  · intro x hx
    obtain ⟨hxw, he⟩ := hof x _ hx rfl
    obtain ⟨q, hq⟩ := hW.held x (he ▸ hx)
    exact ⟨q, (hiff q x).mpr ⟨hq, hxw⟩⟩
  · intro x
    rw [hm, hW.mutex]
    constructor
    · intro hx
      have hxw : x ≠ w := by
        rintro rfl
        simp [hws] at hx
      rwa [hto x hxw (by tauto)]
    · exact Or.imp (fun h => (hof x _ (by simp [Call.Waits]) h).2)
        (fun h => (hof x _ (by simp [Call.Waits]) h).2)
  · intro x hx
    obtain ⟨hxw, he⟩ := hof x _ hx rfl
    rw [hwt x hxw]
    exact hW.val x (he ▸ hx)
  · intro x hx
    obtain ⟨hxw, he⟩ := hof x _ (by simp [Call.Waits]) hx
    rw [hwt x hxw]
    exact hW.proc x he

lemma holds_hand {s : Channel T} {p w : ℕ} {v : T} (hp : s.call p = .handing v w) :
    s.Holds (.hand p) w := by
  rw [Holds, hp]
  rfl

lemma Waiters.suspended_of_handing {s : Channel T} (hW : s.Waiters) {p w : ℕ} {v : T}
    (hp : s.call p = .handing v w) : s.call w = .suspended :=
  hW.suspended _ w (holds_hand hp) (by simp)

lemma Waiters.holds_walk {s : Channel T} (hW : s.Waiters) {p w : ℕ}
    (hp : s.call p = .walking (some w)) : s.Holds (.walk p) w := by
  obtain ⟨us, hus⟩ := hW.walk p
  rw [hp] at hus
  obtain ⟨ws, rfl, -⟩ := Linked.some_iff.mp hus
  exact ⟨w :: ws, by rw [hp]; exact hus, List.mem_cons_self⟩

lemma Waiters.suspended_of_walking {s : Channel T} (hW : s.Waiters) {p w : ℕ}
    (hp : s.call p = .walking (some w)) : s.call w = .suspended :=
  hW.suspended _ w (hW.holds_walk hp) (by simp)

lemma Waiters.handOff {s : Channel T} (hW : s.Waiters) {p w : ℕ} {v : T}
    (hp : s.call p = .handing v w) : ((s.proceedWith w v).move p .done).Waiters := by
  have hfrom : s.Holds (.hand p) w := holds_hand hp
  have hws : s.call w = .suspended := hW.suspended_of_handing hp
  have hcall : ∀ x, ((s.proceedWith w v).move p .done).call x =
      if x = p then .done else if x = w then .proceeded else s.call x := by
    intro x
    simp [proceedWith, move, Function.update_apply]
  have hroot : ∀ x, (((s.proceedWith w v).move p .done).call x).root = (s.call x).root := by
    intro x
    rw [hcall]
    split_ifs with h₁ h₂
    · rw [h₁, hp]
      rfl
    · rw [h₂, hws]
      rfl
    · rfl
  refine hW.release hfrom (by simp) (by simp [hp, Call.Waits]) (by simp [Call.Waits]) hcall hW.list
    (fun x => by rw [hroot]; exact hW.walk x) (fun q x => ?_) rfl fun _ _ => rfl
  have hne : ∀ q, q ≠ .hand p → s.Holds q x → x ≠ w := by
    rintro q hq hx rfl
    exact hq (hW.exclusive hx hfrom)
  rcases q with _ | y | y
  · exact ⟨fun h => ⟨h, hne .list (by simp) h⟩, And.left⟩
  · simp only [Holds, hroot]
    exact ⟨fun h => ⟨h, hne (.walk y) (by simp) h⟩, And.left⟩
  · simp only [Holds, hcall]
    split_ifs with h₁ h₂
    · subst h₁
      simp [hp, Call.hand, eq_comm]
    · subst h₂
      simp [hws, Call.hand]
    · exact ⟨fun h => ⟨h, hne (.hand y) (by simpa using h₁) h⟩, And.left⟩

lemma next_closeNext (s : Channel T) (p w : ℕ) (pc : Call T) :
    ((s.proceedClosed w).move p pc).next = s.next := by
  funext x
  simp only [next, proceedClosed, move, Function.update_apply]
  split_ifs with hx
  · rw [hx]
  · rfl

lemma Waiters.closeNext {s : Channel T} (hW : s.Waiters) {p w : ℕ}
    (hp : s.call p = .walking (some w)) :
    ((s.proceedClosed w).move p (.walking (s.next w))).Waiters := by
  have hn := s.next_closeNext p w (.walking (s.next w))
  obtain ⟨us, hus⟩ := hW.walk p
  rw [hp] at hus
  obtain ⟨ws, rfl, hws⟩ := Linked.some_iff.mp hus
  have hfrom : s.Holds (.walk p) w := hW.holds_walk hp
  have hsw : s.call w = .suspended := hW.suspended_of_walking hp
  have hcall : ∀ x, ((s.proceedClosed w).move p (.walking (s.next w))).call x =
      if x = p then .walking (s.next w) else if x = w then .proceeded else s.call x := by
    intro x
    simp [proceedClosed, move, Function.update_apply]
  have hroot : ∀ x, x ≠ p →
      (((s.proceedClosed w).move p (.walking (s.next w))).call x).root = (s.call x).root := by
    intro x hx
    rw [hcall, if_neg hx]
    split_ifs with h
    · rw [h, hsw]
      rfl
    · rfl
  have hhand : ∀ x,
      (((s.proceedClosed w).move p (.walking (s.next w))).call x).hand = (s.call x).hand := by
    intro x
    rw [hcall]
    split_ifs with h₁ h₂
    · rw [h₁, hp]
      rfl
    · rw [h₂, hsw]
      rfl
    · rfl
  refine hW.release hfrom (by simp) (by simp [hp, Call.Waits]) (by simp [Call.Waits]) hcall
    (hn ▸ hW.list) (fun x => ?_) (fun q x => ?_) rfl fun x hx => ?_
  · rw [hn]
    by_cases hx : x = p
    · rw [hcall, if_pos hx]
      exact ⟨ws, hws⟩
    · rw [hroot x hx]
      exact hW.walk x
  · have hne : ∀ q, q ≠ .walk p → s.Holds q x → x ≠ w := by
      rintro q hq hx rfl
      exact hq (hW.exclusive hx hfrom)
    rcases q with _ | y | y
    · simp only [Holds, hn]
      exact ⟨fun h => ⟨h, hne .list (by simp) h⟩, And.left⟩
    · by_cases hy : y = p
      · -- the list of this `close` is now the old one without its front
        subst hy
        simp only [Holds, hn, hcall, if_pos, hp]
        constructor
        · rintro ⟨vs, hvs, hx⟩
          obtain rfl : vs = ws := hvs.unique hws
          refine ⟨⟨w :: vs, hus, List.mem_cons_of_mem _ hx⟩, ?_⟩
          rintro rfl
          exact (List.nodup_cons.mp hus.nodup).1 hx
        · rintro ⟨⟨vs, hvs, hx⟩, hxw⟩
          obtain rfl := hvs.unique hus
          exact ⟨ws, hws, (List.mem_cons.mp hx).resolve_left hxw⟩
      · simp only [Holds, hn, hroot y hy]
        exact ⟨fun h => ⟨h, hne (.walk y) (by simpa using hy) h⟩, And.left⟩
    · simp only [Holds, hhand]
      exact ⟨fun h => ⟨h, hne (.hand y) (by simp) h⟩, And.left⟩
  · simp [proceedClosed, move, hx]

lemma Waiters.step {s s' : Channel T} {a : Action T} (hW : s.Waiters) (hC : s.EntersQuietly a)
    (hs : step s a = some s') : s'.Waiters := by
  cases Rule.of_step hs with
  | make g r hg =>
    cases r with
    | get j =>
      exact hW.frame hg rfl rfl rfl rfl rfl rfl (by simp [Call.Waits]) (by simp [Call.Waits])
    | put v =>
      exact hW.frame hg rfl rfl rfl rfl rfl rfl (by simp [Call.Waits]) (by simp [Call.Waits])
    | opening =>
      exact hW.frame hg rfl rfl rfl rfl rfl rfl (by simp [Call.Waits]) (by simp [Call.Waits])
    | closing =>
      exact hW.frame hg rfl rfl rfl rfl rfl rfl (by simp [Call.Waits]) (by simp [Call.Waits])
  | takeFront g v q hm hg hq =>
    exact hW.frame hg rfl rfl rfl rfl rfl rfl (by simp [Call.Waits]) (by simp [Call.Waits])
  | getClosed g hm hg hq hc =>
    exact hW.frame hg rfl rfl rfl rfl rfl rfl (by simp [Call.Waits]) (by simp [Call.Waits])
  | pushWaiter g hm hg hq hc => exact hW.pushWaiter hm hg
  | popWaiter p v w hm hp hr => exact hW.popWaiter hm hp hr
  | emplace p v hm hp hr =>
    exact hW.frame hp rfl rfl rfl rfl rfl rfl (by simp [Call.Waits]) (by simp [Call.Waits])
  | opening p hm hp =>
    exact hW.frame hp rfl rfl rfl rfl rfl rfl (by simp [Call.Waits]) (by simp [Call.Waits])
  | closeClosed p hm hp hc =>
    exact hW.frame hp rfl rfl rfl rfl rfl rfl (by simp [Call.Waits]) (by simp [Call.Waits])
  | popAll p hm hp hc => exact hW.popAll hm hp
  | enterDefer g u hg he => exact hW.enterDefer hg
  | enterThrow g u hg he => exact absurd he hC
  | setProceed g hg => exact hW.setProceed hg
  | handOff p v w hp => exact hW.handOff hp
  | closeNext p w hp => exact hW.closeNext hp
  | closeEnd p hp =>
    exact hW.frame hp rfl rfl rfl rfl rfl rfl (by simp [Call.Waits]) (by simp [Call.Waits])
  | resume g hg =>
    exact hW.frame hg rfl rfl rfl rfl rfl rfl (by simp [Call.Waits]) (by simp [Call.Waits])
  | leaveDefer g u hg he =>
    exact hW.frame hg rfl rfl rfl rfl rfl rfl (by simp [Call.Waits]) (by simp [Call.Waits])
  | leaveThrow g u hg he =>
    exact hW.frame hg rfl rfl rfl rfl rfl rfl (by simp [Call.Waits]) (by simp [Call.Waits])
  | set j e | allow j b =>
    exact hW.congr rfl rfl (fun _ => rfl) (fun _ => rfl) (fun _ => Iff.rfl) (fun _ h => h)
      hW.mutex hW.val hW.proc

lemma waiters_init : ({} : Channel T).Waiters where
  list := ⟨[], rfl⟩
  walk _ := ⟨[], rfl⟩
  exclusive := by
    rintro (_ | p | p) q w hq
    · exact absurd hq (by simp [Holds])
    · exact absurd hq (by simp [Holds, Call.root])
    · exact absurd hq (by simp [Holds, Call.hand])
  waits := by
    rintro (_ | p | p) w hq
    · exact absurd hq (by simp [Holds])
    · exact absurd hq (by simp [Holds, Call.root])
    · exact absurd hq (by simp [Holds, Call.hand])
  suspended := by
    rintro (_ | p | p) w hq
    · exact absurd hq (by simp [Holds])
    · exact absurd hq (by simp [Holds, Call.root])
    · exact absurd hq (by simp [Holds, Call.hand])
  held w hw := by simp [Call.Waits] at hw
  mutex := by simp
  val := by simp
  proc := by simp

end Channel

end Synca
