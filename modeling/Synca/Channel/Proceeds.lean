import Synca.Channel.Lane
import Synca.Transition.Tally

/-!
# Waiters are removed and proceeded once

A waiter lives on the stack of its `get` until the `get` goes on. Each waiter is taken off the list
once, under the mutex, by a `put` or a `close`, and the same call proceeds it once afterwards.
Nobody looks at it once it was proceeded. These are counts over runs, and the state tells them: the
field `proc` is set when the `get` has suspended, and stays set.
-/

namespace Synca

open Transition

variable {T : Type*}

/-- A `get` that has suspended at some time may stand here. -/
def Call.Waited : Call T → Prop
  | .suspended | .proceeded | .resumed | .returned _ | .threw _ => True
  | _ => False

/-- A `put` or `close` that holds waiters away from the list. -/
def Call.Busy : Call T → Prop
  | .handing _ _ | .walking _ => True
  | _ => False

namespace Channel

/-- Under the mutex, a `put` or a `close` takes waiter `w` off the list. -/
def Removes (s : Channel T) : Action T → ℕ → Prop
  | .lock p, w => ((∃ v, s.call p = .put v) ∧ s.root = some w) ∨
    (s.call p = .closing ∧ s.closed = false ∧ s.Holds .list w)
  | _, _ => False

/-- The step calls the proceed handler of waiter `w`. -/
def Proceeds (s : Channel T) : Action T → ℕ → Prop
  | .handOff p,   w => (s.call p).hand = some w
  | .closeNext p, w => (s.call p).root = some w
  | _, _ => False

/-- A step of `put` or of the loop of `close` reads or writes a field of waiter `w`: `pop` reads
`next`, and `proceed` uses `val` and `proc`. -/
def Touches (s : Channel T) : Action T → ℕ → Prop
  | .lock p,      w => (∃ v, s.call p = .put v) ∧ s.root = some w
  | .handOff p,   w => (s.call p).hand = some w
  | .closeNext p, w => (s.call p).root = some w
  | _, _ => False

open Classical in
noncomputable def removals (w : ℕ) (s : Channel T) (a : Action T) : ℕ :=
  if s.Removes a w then 1 else 0

open Classical in
/-- The removals by call `p`. -/
noncomputable def removalsBy (p w : ℕ) (s : Channel T) (a : Action T) : ℕ :=
  if a = .lock p ∧ s.Removes a w then 1 else 0

open Classical in
noncomputable def proceeds (w : ℕ) (s : Channel T) (a : Action T) : ℕ :=
  if s.Proceeds a w then 1 else 0

/-- The waiter was taken off the list. -/
def Removed (s : Channel T) (w : ℕ) : Prop := (s.waiter w).proc = true ∧ ¬ s.Holds .list w

/-- The proceed handler of the waiter was called. -/
def Proceeded (s : Channel T) (w : ℕ) : Prop := (s.waiter w).proc = true ∧ s.call w ≠ .suspended

/-- `proc` is set by a `get` that suspends. -/
def Armed (s : Channel T) : Prop := ∀ w, (s.waiter w).proc = true → (s.call w).Waited

variable {s s' : Channel T} {a : Action T} {w : ℕ}

/-! ### `proc` -/

lemma Armed.proc_eq_false (hA : s.Armed) (hw : ¬ (s.call w).Waited) :
    (s.waiter w).proc = false := by
  by_contra hp
  exact hw (hA w (by simpa using hp))

lemma Armed.move (hA : s.Armed) {g : ℕ} {c d : Call T} (hg : s.call g = c)
    (h : c.Waited → d.Waited) (hc : s'.call = (s.move g d).call) (hp : s'.waiter = s.waiter) :
    s'.Armed := by
  subst hg
  intro w hw
  rw [hp] at hw
  rw [hc, call_move]
  split_ifs with hwg
  · exact h (hwg ▸ hA w hw)
  · exact hA w hw

lemma Armed.step (hW : s.Waiters) (hA : s.Armed) (hs : step s a = some s') : s'.Armed := by
  cases Rule.of_step hs with
  | make g r hg => cases r <;> exact hA.move hg (fun h => h.elim) rfl rfl
  | takeFront g v q hm hg hq => exact hA.move hg (fun h => h.elim) rfl rfl
  | getClosed g hm hg hq hc => exact hA.move hg (fun h => h.elim) rfl rfl
  | pushWaiter g hm hg hq hc =>
    intro w hw
    simp only [pushWaiter, Function.update_apply] at hw
    split_ifs at hw with hwg
    have hcall : (s.pushWaiter g).call w = s.call w := by simp [pushWaiter, hwg]
    rw [hcall]
    exact hA w hw
  | popWaiter p v w hm hp hr => exact hA.move hp (fun h => h.elim) rfl rfl
  | emplace p v hm hp hr => exact hA.move hp (fun h => h.elim) rfl rfl
  | opening p hm hp => exact hA.move hp (fun h => h.elim) rfl rfl
  | closeClosed p hm hp hc => exact hA.move hp (fun h => h.elim) rfl rfl
  | popAll p hm hp hc => exact hA.move hp (fun h => h.elim) rfl rfl
  | enterDefer g u hg he => exact hA.move hg (fun h => h.elim) rfl rfl
  | enterThrow g u hg he => exact hA.move hg (fun h => h.elim) rfl rfl
  | setProceed g hg =>
    intro w hw
    have hcall : (s.setProceed g).call w = if w = g then .suspended else s.call w :=
      call_move s g w _
    rw [hcall]
    simp only [setProceed, Function.update_apply] at hw
    split_ifs at hw ⊢ with hwg
    · trivial
    · exact hA w hw
  | handOff p v w hp =>
    have hw := hW.suspended_of_handing hp
    have h₁ : (s.proceedWith w v).Armed := hA.move (d := .proceeded) hw (fun _ => trivial) rfl rfl
    have hp' : (s.proceedWith w v).call p = .handing v w := by
      rw [← hp]
      refine Function.update_of_ne ?_ _ _
      rintro rfl
      cases hp.symm.trans hw
    exact h₁.move hp' (fun h => h.elim) rfl rfl
  | closeNext p w hp =>
    have hw := hW.suspended_of_walking hp
    intro x hx
    have hproc : (s.waiter x).proc = true := by
      simp only [proceedClosed, Channel.move, Function.update_apply] at hx
      split_ifs at hx with hxw
      · exact hxw ▸ hx
      · exact hx
    have hxp : x ≠ p := by
      rintro rfl
      have h := hA x hproc
      rw [hp] at h
      exact h
    simp only [proceedClosed, call_move, if_neg hxp]
    split_ifs
    · trivial
    · exact hA x hproc
  | closeEnd p hp => exact hA.move hp (fun h => h.elim) rfl rfl
  | resume g hg => exact hA.move (d := .resumed) hg (fun _ => trivial) rfl rfl
  | leaveDefer g u hg he => exact hA.move (d := .returned _) hg (fun _ => trivial) rfl rfl
  | leaveThrow g u hg he => exact hA.move (d := .threw _) hg (fun _ => trivial) rfl rfl
  | set j e | allow j b => exact hA

/-! ### What the state tells -/

/-- A call that has not suspended moves on, or one whose resumption is posted. -/
lemma proceeded_move (hA : s.Armed) {g : ℕ} {c d : Call T} (hg : s.call g = c)
    (hc : ¬ c.Waited ∨ (c ≠ .suspended ∧ d ≠ .suspended))
    (hcall : s'.call = (s.move g d).call) (hwt : s'.waiter = s.waiter) :
    s'.Proceeded w ↔ s.Proceeded w := by
  subst hg
  simp only [Proceeded, hwt, hcall, call_move]
  split_ifs with hwg
  · subst hwg
    rcases hc with hc | hc
    · simp [hA.proc_eq_false hc]
    · simp [hc]
  · rfl

/-- Waiter `x`, suspended before, is proceeded by call `p`. -/
lemma proceeded_release (hA : s.Armed) {p x : ℕ} {d : Call T} (hx : s.call x = .suspended)
    (hproc : (s.waiter x).proc = true) (hp : ¬ (s.call p).Waited)
    (hcall : ∀ y, s'.call y = if y = p then d else if y = x then .proceeded else s.call y)
    (hwt : ∀ y, (s'.waiter y).proc = (s.waiter y).proc) :
    (s'.Proceeded w ↔ s.Proceeded w ∨ w = x) ∧ (w = x → ¬ s.Proceeded w) := by
  refine ⟨?_, fun hwx h => h.2 (hwx ▸ hx)⟩
  have hxp : x ≠ p := by
    rintro rfl
    rw [hx] at hp
    exact hp trivial
  rw [Proceeded, Proceeded, hwt, hcall]
  rcases eq_or_ne w p with rfl | hwp
  · simp [hA.proc_eq_false hp, hxp.symm]
  · rcases eq_or_ne w x with rfl | hwx
    · simp [hwp, hproc]
    · simp [hwp, hwx]

/-- What a step adds to the waiters proceeded. -/
lemma proceeded_step (hW : s.Waiters) (hA : s.Armed) (hs : step s a = some s') (w : ℕ) :
    (s'.Proceeded w ↔ s.Proceeded w ∨ s.Proceeds a w) ∧ (s.Proceeds a w → ¬ s.Proceeded w) := by
  have hstill : (∀ x, ¬ s.Proceeds a x) → (s'.Proceeded w ↔ s.Proceeded w) →
      (s'.Proceeded w ↔ s.Proceeded w ∨ s.Proceeds a w) ∧ (s.Proceeds a w → ¬ s.Proceeded w) :=
    fun hn h => ⟨h.trans (or_iff_left (hn w)).symm, fun hp => absurd hp (hn w)⟩
  cases Rule.of_step hs with
  | make g r hg =>
    cases r <;> exact hstill (fun _ => id) (proceeded_move hA hg (.inl id) rfl rfl)
  | takeFront g v q hm hg hq =>
    exact hstill (fun _ => id) (proceeded_move (d := .returned true) hA hg (.inl id) rfl rfl)
  | getClosed g hm hg hq hc =>
    exact hstill (fun _ => id) (proceeded_move hA hg (.inl id) rfl rfl)
  | pushWaiter g hm hg hq hc =>
    refine hstill (fun _ => id) ?_
    rcases eq_or_ne w g with rfl | hwg
    · have hp : (s.waiter w).proc = false := hA.proc_eq_false (by rw [hg]; exact id)
      simp [Proceeded, hp, pushWaiter]
    · simp [Proceeded, pushWaiter, hwg]
  | popWaiter p v x hm hp hr =>
    exact hstill (fun _ => id) (proceeded_move (d := .handing v x) hA hp (.inl id) rfl rfl)
  | emplace p v hm hp hr =>
    exact hstill (fun _ => id) (proceeded_move (d := .done) hA hp (.inl id) rfl rfl)
  | opening p hm hp =>
    exact hstill (fun _ => id) (proceeded_move (d := .done) hA hp (.inl id) rfl rfl)
  | closeClosed p hm hp hc =>
    exact hstill (fun _ => id) (proceeded_move hA hp (.inl id) rfl rfl)
  | popAll p hm hp hc =>
    exact hstill (fun _ => id) (proceeded_move (d := .walking s.root) hA hp (.inl id) rfl rfl)
  | enterDefer g u hg he =>
    exact hstill (fun _ => id) (proceeded_move hA hg (.inl id) rfl rfl)
  | enterThrow g u hg he =>
    exact hstill (fun _ => id) (proceeded_move (d := .threw _) hA hg (.inl id) rfl rfl)
  | setProceed g hg =>
    refine hstill (fun _ => id) ?_
    have hcall : (s.setProceed g).call w = if w = g then .suspended else s.call w :=
      call_move s g w _
    rw [Proceeded, Proceeded, hcall]
    rcases eq_or_ne w g with rfl | hwg
    · have hp : (s.waiter w).proc = false := hA.proc_eq_false (by rw [hg]; exact id)
      simp [hp]
    · simp [setProceed, hwg]
  | handOff p v x hp =>
    have hx := hW.suspended_of_handing hp
    have hcall : ∀ y, ((s.proceedWith x v).move p .done).call y =
        if y = p then .done else if y = x then .proceeded else s.call y := fun y => by
      simp [proceedWith, move, Function.update_apply]
    have h := proceeded_release (w := w) hA hx (hW.proc x hx) (by rw [hp]; exact id) hcall
      fun _ => rfl
    have hiff : s.Proceeds (.handOff p) w ↔ w = x := by simp [Proceeds, hp, Call.hand, eq_comm]
    rwa [hiff]
  | closeNext p x hp =>
    have hx := hW.suspended_of_walking hp
    have hcall : ∀ y, ((s.proceedClosed x).move p (.walking (s.next x))).call y =
        if y = p then .walking (s.next x) else if y = x then .proceeded else s.call y := fun y => by
      simp [proceedClosed, move, Function.update_apply]
    have h := proceeded_release (w := w) hA hx (hW.proc x hx) (by rw [hp]; exact id) hcall
      fun y => by
        simp only [proceedClosed, move, Function.update_apply]
        split_ifs with hy
        · rw [hy]
        · rfl
    have hiff : s.Proceeds (.closeNext p) w ↔ w = x := by simp [Proceeds, hp, Call.root, eq_comm]
    rwa [hiff]
  | closeEnd p hp =>
    exact hstill (fun x => by simp [Proceeds, hp, Call.root])
      (proceeded_move hA hp (.inl id) rfl rfl)
  | resume g hg =>
    exact hstill (fun _ => id) (proceeded_move (d := .resumed) hA hg (.inr (by simp)) rfl rfl)
  | leaveDefer g u hg he =>
    exact hstill (fun _ => id) (proceeded_move (d := .returned _) hA hg (.inr (by simp)) rfl rfl)
  | leaveThrow g u hg he =>
    exact hstill (fun _ => id) (proceeded_move (d := .threw _) hA hg (.inr (by simp)) rfl rfl)
  | set j e | allow j b => exact hstill (fun _ => id) Iff.rfl

/-- What a step adds to the waiters removed. -/
lemma removed_step (hW : s.Waiters) (hA : s.Armed) (hs : step s a = some s') (w : ℕ) :
    (s'.Removed w ↔ s.Removed w ∨ s.Removes a w) ∧ (s.Removes a w → ¬ s.Removed w) := by
  have hstill : (∀ x, ¬ s.Removes a x) → s'.next = s.next → s'.root = s.root →
      (∀ x, (s'.waiter x).proc = (s.waiter x).proc) →
      (s'.Removed w ↔ s.Removed w ∨ s.Removes a w) ∧ (s.Removes a w → ¬ s.Removed w) := by
    intro hn hnext hroot hproc
    refine ⟨?_, fun h => absurd h (hn w)⟩
    rw [or_iff_left (hn w), Removed, Removed, hproc, holds_list_congr hnext hroot]
  -- a waiter on the list of a free channel has suspended
  have hlist : s.mutex = none → s.Holds .list w → (s.waiter w).proc = true :=
    fun hm hw => hW.proc w (hW.suspended_of_mutex hm hw)
  cases Rule.of_step hs with
  | make g r hg => cases r <;> exact hstill (fun _ => id) rfl rfl fun _ => rfl
  | takeFront g v q hm hg hq =>
    exact hstill (fun x => by simp [Removes, hg]) rfl rfl fun _ => rfl
  | getClosed g hm hg hq hc =>
    exact hstill (fun x => by simp [Removes, hg]) rfl rfl fun _ => rfl
  | pushWaiter g hm hg hq hc =>
    have hn : ¬ s.Removes (.lock g) w := by simp [Removes, hg]
    refine ⟨?_, fun h => absurd h hn⟩
    rw [or_iff_left hn]
    rcases eq_or_ne w g with rfl | hwg
    · have hp : (s.waiter w).proc = false := hA.proc_eq_false (by rw [hg]; exact id)
      simp [Removed, hp, pushWaiter]
    · have hproc : (s.pushWaiter g).waiter w = s.waiter w := by simp [pushWaiter, hwg]
      obtain ⟨ws, hws⟩ := hW.list
      have hg' : g ∉ ws := fun hm => hW.not_holds (by simp [hg, Call.Waits]) .list ⟨ws, hws, hm⟩
      have hlist' : Linked (s.pushWaiter g).next (some g) (g :: ws) :=
        s.next_pushWaiter g ▸ hws.push hg'
      have hholds : (s.pushWaiter g).Holds .list w ↔ s.Holds .list w := by
        constructor
        · rintro ⟨us, hus, hw⟩
          obtain rfl := hus.unique hlist'
          exact ⟨ws, hws, (List.mem_cons.mp hw).resolve_left hwg⟩
        · rintro ⟨us, hus, hw⟩
          obtain rfl := hus.unique hws
          exact ⟨g :: us, hlist', List.mem_cons_of_mem _ hw⟩
      rw [Removed, Removed, hproc, hholds]
  | popWaiter p v x hm hp hr =>
    have hiff : s.Removes (.lock p) w ↔ w = x := by simpa [Removes, hp, hr] using eq_comm
    obtain ⟨us, hus⟩ := hW.list
    obtain ⟨ws, rfl, hws⟩ := Linked.some_iff.mp (hr ▸ hus)
    have hx : s.Holds .list x := ⟨x :: ws, hus, List.mem_cons_self⟩
    have hholds : (s.popWaiter p v x).Holds .list w ↔ s.Holds .list w ∧ w ≠ x := by
      constructor
      · rintro ⟨vs, hvs, hw⟩
        obtain rfl := hvs.unique hws
        refine ⟨⟨x :: vs, hus, List.mem_cons_of_mem _ hw⟩, ?_⟩
        rintro rfl
        exact (List.nodup_cons.mp hus.nodup).1 hw
      · rintro ⟨⟨vs, hvs, hw⟩, hwx⟩
        obtain rfl := hvs.unique hus
        exact ⟨ws, hws, (List.mem_cons.mp hw).resolve_left hwx⟩
    have hproc : (s.popWaiter p v x).waiter = s.waiter := rfl
    rw [hiff, Removed, Removed, hproc, hholds]
    rcases eq_or_ne w x with rfl | hwx
    · simp [hlist hm hx, hx]
    · simp [hwx]
  | emplace p v hm hp hr =>
    exact hstill (fun x => by simp [Removes, hp, hr]) rfl rfl fun _ => rfl
  | opening p hm hp => exact hstill (fun x => by simp [Removes, hp]) rfl rfl fun _ => rfl
  | closeClosed p hm hp hc =>
    exact hstill (fun x => by simp [Removes, hp, hc]) rfl rfl fun _ => rfl
  | popAll p hm hp hc =>
    have hiff : s.Removes (.lock p) w ↔ s.Holds .list w := by simp [Removes, hp, hc]
    have hnone : ¬ (s.popAll p).Holds .list w := by
      rintro ⟨us, hus, hw⟩
      rw [Linked.none_iff.mp hus] at hw
      cases hw
    have hproc : (s.popAll p).waiter = s.waiter := rfl
    rw [hiff, Removed, Removed, hproc]
    by_cases hw : s.Holds .list w
    · simp [hlist hm hw, hw, hnone]
    · simp [hw, hnone]
  | enterDefer g u hg he => exact hstill (fun _ => id) rfl rfl fun _ => rfl
  | enterThrow g u hg he => exact hstill (fun _ => id) rfl rfl fun _ => rfl
  | setProceed g hg =>
    have hn : ¬ s.Removes (.setProceed g) w := id
    refine ⟨?_, fun h => absurd h hn⟩
    rw [or_iff_left hn, Removed, Removed, holds_list_congr (s.next_setProceed g) rfl]
    rcases eq_or_ne w g with rfl | hwg
    · -- the waiter of a `get` that has not suspended is on the list
      obtain ⟨q, hq⟩ := hW.held w (by simp [hg, Call.Waits])
      have hw : s.Holds .list w := by
        rcases q with _ | p | p
        · exact hq
        · cases hg.symm.trans (hW.suspended _ w hq (by simp))
        · cases hg.symm.trans (hW.suspended _ w hq (by simp))
      simp [hw]
    · simp [setProceed, hwg]
  | handOff p v x hp => exact hstill (fun _ => id) rfl rfl fun _ => rfl
  | closeNext p x hp =>
    refine hstill (fun _ => id) (s.next_closeNext p x _) rfl fun y => ?_
    simp only [proceedClosed, move, Function.update_apply]
    split_ifs with hy
    · rw [hy]
    · rfl
  | closeEnd p hp => exact hstill (fun _ => id) rfl rfl fun _ => rfl
  | resume g hg => exact hstill (fun _ => id) rfl rfl fun _ => rfl
  | leaveDefer g u hg he => exact hstill (fun _ => id) rfl rfl fun _ => rfl
  | leaveThrow g u hg he => exact hstill (fun _ => id) rfl rfl fun _ => rfl
  | set j e | allow j b => exact hstill (fun _ => id) rfl rfl fun _ => rfl

/-! ### From the removal to the proceed -/

/-- Such a call goes on by its own steps only. -/
lemma call_of_busy (hW : s.Waiters) (hs : step s a = some s') {p : ℕ} (hp : (s.call p).Busy)
    (ha : a ≠ .handOff p) (ha' : a ≠ .closeNext p) : s'.call p = s.call p := by
  have hne : ∀ {g : ℕ} {c d : Call T}, s.call g = c → ¬ c.Busy →
      (s.move g d).call p = s.call p := by
    rintro g c d rfl hc
    rw [call_move, if_neg]
    rintro rfl
    exact hc hp
  cases Rule.of_step hs with
  | make g r hg => cases r <;> exact hne hg id
  | takeFront g v q hm hg hq => exact hne hg id
  | getClosed g hm hg hq hc => exact hne hg id
  | pushWaiter g hm hg hq hc => exact hne hg id
  | popWaiter g v w hm hg hr => exact hne hg id
  | emplace g v hm hg hr => exact hne hg id
  | opening g hm hg => exact hne hg id
  | closeClosed g hm hg hc => exact hne hg id
  | popAll g hm hg hc => exact hne hg id
  | enterDefer g u hg he => exact hne hg id
  | enterThrow g u hg he => exact hne hg id
  | setProceed g hg => exact hne hg id
  | handOff g v w hg =>
    have hpg : p ≠ g := fun h => ha (by rw [h])
    have hw := hW.suspended_of_handing hg
    have hpw : p ≠ w := by
      rintro rfl
      rw [hw] at hp
      exact hp
    simp [proceedWith, hpg, hpw]
  | closeNext g w hg =>
    have hpg : p ≠ g := fun h => ha' (by rw [h])
    have hw := hW.suspended_of_walking hg
    have hpw : p ≠ w := by
      rintro rfl
      rw [hw] at hp
      exact hp
    simp [proceedClosed, hpg, hpw]
  | closeEnd g hg =>
    have hpg : p ≠ g := fun h => ha' (by rw [h])
    simp [hpg]
  | resume g hg => exact hne hg id
  | leaveDefer g u hg he => exact hne hg id
  | leaveThrow g u hg he => exact hne hg id
  | set j e | allow j b => rfl

/-- A waiter away from the list stays with its call until it is proceeded. -/
lemma holds_step (hW : s.Waiters) (hs : step s a = some s') {q : Place} (hq : s.Holds q w)
    (hne : q ≠ .list) : s'.Holds q w ∨ s.Proceeds a w := by
  have hnext : ∀ p us, Linked s.next (s.call p).root us → Linked s'.next (s.call p).root us := by
    intro p us hus
    cases Rule.of_step hs with
    | make g r hg => cases r <;> exact hus
    | pushWaiter g hm hg hq hc =>
      rw [s.next_pushWaiter g]
      exact hus.update (fun hu => hW.not_holds (by simp [hg, Call.Waits]) (.walk p) ⟨us, hus, hu⟩) _
    | setProceed g hg => exact (s.next_setProceed g).symm ▸ hus
    | closeNext g x hg => exact (s.next_closeNext g x _).symm ▸ hus
    | _ => exact hus
  cases q with
  | list => exact absurd rfl hne
  | hand p =>
    have hq : (s.call p).hand = some w := hq
    by_cases ha : a = .handOff p
    · exact .inr (ha ▸ hq)
    · have hbusy : (s.call p).Busy := by
        cases hc : s.call p <;> simp_all [Call.hand, Call.Busy]
      have ha' : a ≠ .closeNext p := by
        rintro rfl
        simp only [step] at hs
        split at hs
        · simp_all [Call.hand]
        · simp_all [Call.hand]
        · cases hs
      exact .inl ((congrArg Call.hand (call_of_busy hW hs hbusy ha ha')).trans hq)
  | walk p =>
    obtain ⟨us, hus, hw⟩ := hq
    have hroot : (s.call p).root ≠ none := by
      intro h
      rw [h] at hus
      rw [Linked.none_iff.mp hus] at hw
      cases hw
    obtain ⟨x, hp⟩ : ∃ x, s.call p = .walking (some x) := by
      cases hc : s.call p with
      | walking r =>
        cases r with
        | none => simp [hc, Call.root] at hroot
        | some x => exact ⟨x, rfl⟩
      | _ => simp [hc, Call.root] at hroot
    have hbusy : (s.call p).Busy := by
      rw [hp]
      trivial
    have ha : a ≠ .handOff p := by
      rintro rfl
      simp [step, hp] at hs
    by_cases ha' : a = .closeNext p
    · subst ha'
      obtain rfl : s' = (s.proceedClosed x).move p (.walking (s.next x)) := by
        simpa [step, hp] using hs.symm
      rw [hp] at hus
      obtain ⟨ws, rfl, hws⟩ := Linked.some_iff.mp hus
      rcases List.mem_cons.mp hw with rfl | hw
      · refine .inr ?_
        rw [Proceeds, hp]
        rfl
      · refine .inl ⟨ws, ?_, hw⟩
        rw [s.next_closeNext p x _, call_move, if_pos rfl]
        exact hws
    · refine .inl ⟨us, ?_, hw⟩
      rw [call_of_busy hW hs hbusy ha ha']
      exact hnext p us hus

/-- The waiter is with call `p`, or was proceeded. -/
def Served (s : Channel T) (p w : ℕ) : Prop :=
  s.Holds (.hand p) w ∨ s.Holds (.walk p) w ∨ s.Proceeded w

lemma Served.step {p : ℕ} (hW : s.Waiters) (hA : s.Armed) (hs : Channel.step s a = some s')
    (h : s.Served p w) : s'.Served p w := by
  have hiff := (proceeded_step hW hA hs w).1
  rcases h with h | h | h
  · rcases holds_step hW hs h (by simp) with h | h
    · exact .inl h
    · exact .inr (.inr (hiff.mpr (.inr h)))
  · rcases holds_step hW hs h (by simp) with h | h
    · exact .inr (.inl h)
    · exact .inr (.inr (hiff.mpr (.inr h)))
  · exact .inr (.inr (hiff.mpr (.inl h)))

/-- The call that removes a waiter has it. -/
lemma served_of_removes {p : ℕ} (hs : Channel.step s (.lock p) = some s')
    (h : s.Removes (.lock p) w) : s'.Served p w := by
  rcases h with ⟨⟨v, hp⟩, hr⟩ | ⟨hp, hc, hw⟩
  · obtain rfl : s' = s.popWaiter p v w := by
      cases Rule.of_step hs <;> simp_all
    refine .inl ?_
    simp [Holds, popWaiter, Call.hand]
  · obtain rfl : s' = s.popAll p := by
      cases Rule.of_step hs <;> simp_all
    refine .inr (.inl ?_)
    have hroot : ((s.popAll p).call p).root = s.root := by simp [popAll, Call.root]
    obtain ⟨us, hus, hm⟩ := hw
    exact ⟨us, hroot.symm ▸ hus, hm⟩

/-! ### Runs -/

/-- The waiters after the run `as` to the state `s`. -/
structure Attended (as : List (Action T)) (s : Channel T) : Prop where
  list : s.mutex = none → ∃ ws, Linked s.next s.root ws ∧ ws.Nodup ∧
    ∀ w ∈ ws, s.call w = .suspended ∧ (s.waiter w).proc = true
  empty : s.mutex = none → s.root ≠ none → s.queue = [] ∧ s.closed = false
  removed : ∀ w, (machine T).tally (removals w) {} as ≤ 1
  proceeded : ∀ w, (machine T).tally (proceeds w) {} as ≤ 1
  /-- A call that has removed a waiter and has returned has proceeded it. -/
  served : ∀ p w, 0 < (machine T).tally (removalsBy p w) {} as → s.call p = .done →
    (machine T).tally (proceeds w) {} as = 1
  untouched : ∀ a s' w, step s a = some s' → s.Touches a w →
    (machine T).tally (proceeds w) {} as = 0
  /-- With no waiter on its way, nobody waits for a value that is there, or for one that will not
  come. -/
  awake : (∀ p, ¬ (s.call p).Busy) → ∀ w, s.call w = .suspended → s.queue = [] ∧ s.closed = false

/-- Nobody looks at a waiter that was proceeded. -/
lemma not_proceeded_of_touches (hW : s.Waiters) (hs : step s a = some s') (h : s.Touches a w) :
    ¬ s.Proceeded w := by
  have hw : s.call w = .suspended := by
    cases a with
    | lock p =>
      obtain ⟨⟨v, hp⟩, hr⟩ := h
      have hm : s.mutex = none := by
        by_contra hm
        obtain ⟨g, hg⟩ := Option.ne_none_iff_exists'.mp hm
        simp [step, hg] at hs
      obtain ⟨us, hus⟩ := hW.list
      obtain ⟨ws, rfl, -⟩ := Linked.some_iff.mp (hr ▸ hus)
      exact hW.suspended_of_mutex hm (q := .list) ⟨w :: ws, hus, List.mem_cons_self⟩
    | handOff p => exact hW.suspended (.hand p) w h (by simp)
    | closeNext p =>
      refine hW.suspended (.walk p) w ?_ (by simp)
      obtain ⟨us, hus⟩ := hW.walk p
      have hr : (s.call p).root = some w := h
      obtain ⟨ws, rfl, -⟩ := Linked.some_iff.mp (hr ▸ hus)
      exact ⟨w :: ws, hus, List.mem_cons_self⟩
    | _ => exact h.elim
  exact fun hp => hp.2 hw

lemma busy_of_holds {q : Place} (hq : s.Holds q w) (hne : q ≠ .list) : ∃ p, (s.call p).Busy := by
  cases q with
  | list => exact absurd rfl hne
  | hand p =>
    refine ⟨p, ?_⟩
    have hq : (s.call p).hand = some w := hq
    cases hc : s.call p <;> simp_all [Call.hand, Call.Busy]
  | walk p =>
    refine ⟨p, ?_⟩
    obtain ⟨us, hus, hw⟩ := hq
    cases hc : s.call p <;> simp_all [Call.root, Call.Busy]

lemma inductive_armed : (machine T).Inductive Undisturbed
    fun s => ((s.Waiters ∧ s.Values) ∧ s.Calm) ∧ s.Armed := by
  refine inductive_calm.and (fun s h => ?_) fun s a s' hI hA _ hs => hA.step hI.1.1 hs
  obtain rfl : s = {} := h
  exact fun w hw => by cases hw

/-- Waiters are not forgotten, and not touched twice. -/
theorem attended_of_undisturbed {as : List (Action T)} (hC : (machine T).Along Undisturbed {} as)
    (he : (machine T).exec {} as = some s) : Attended as s := by
  classical
  have hI := inductive_armed (T := T)
  have h₀ := hI.init {} rfl
  obtain ⟨⟨⟨hW, hV⟩, -⟩, -⟩ := hI.holds (.exec (.init rfl) hC he)
  have hproceeded : ∀ w, (if s.Proceeded w then 1 else 0) =
      (machine T).tally (proceeds w) {} as := by
    intro w
    have h := hI.tally_eq (f := proceeds w) (n := fun s => if s.Proceeded w then 1 else 0)
      (fun s a s' hI _ hs => ?_) h₀ hC he
    · rw [h, if_neg, zero_add]
      exact fun h => Bool.noConfusion h.1
    · obtain ⟨hiff, hnot⟩ := proceeded_step hI.1.1.1 hI.2 hs w
      simp only [hiff, proceeds]
      by_cases hp : s.Proceeds a w
      · simp [hp, hnot hp]
      · simp [hp]
  have hremoved : ∀ w, (if s.Removed w then 1 else 0) =
      (machine T).tally (removals w) {} as := by
    intro w
    have h := hI.tally_eq (f := removals w) (n := fun s => if s.Removed w then 1 else 0)
      (fun s a s' hI _ hs => ?_) h₀ hC he
    · rw [h, if_neg, zero_add]
      exact fun h => Bool.noConfusion h.1
    · obtain ⟨hiff, hnot⟩ := removed_step hI.1.1.1 hI.2 hs w
      simp only [hiff, removals]
      by_cases hp : s.Removes a w
      · simp [hp, hnot hp]
      · simp [hp]
  refine ⟨fun hm => ?_, fun _ => hV.empty, fun w => ?_, fun w => ?_, fun p w hr hp => ?_,
    fun a s' w hs ht => ?_, fun hidle w hw => ?_⟩
  · obtain ⟨ws, hws⟩ := hW.list
    refine ⟨ws, hws, hws.nodup, fun w hw => ?_⟩
    have hsusp := hW.suspended_of_mutex hm (q := .list) ⟨ws, hws, hw⟩
    exact ⟨hsusp, hW.proc w hsusp⟩
  · rw [← hremoved]
    split_ifs <;> simp
  · rw [← hproceeded]
    split_ifs <;> simp
  · have hserved : s.Served p w := by
      refine hI.of_tally (P := fun s => s.Served p w) (f := removalsBy p w)
        (fun s a s' hI _ hs hpos => ?_) (fun s a s' hI _ hs h => h.step hI.1.1.1 hI.2 hs) h₀ hC he
        (.inr hr)
      have hrem : a = .lock p ∧ s.Removes a w := by
        by_contra hn
        simp [removalsBy, hn] at hpos
      obtain ⟨rfl, hrem⟩ := hrem
      exact served_of_removes hs hrem
    rw [← hproceeded, if_pos]
    rcases hserved with h | ⟨us, hus, hw⟩ | h
    · simp [Holds, hp, Call.hand] at h
    · rw [hp] at hus
      rw [Linked.none_iff.mp hus] at hw
      cases hw
    · exact h
  · rw [← hproceeded, if_neg (not_proceeded_of_touches hW hs ht)]
  · obtain ⟨q, hq⟩ := hW.held w (by simp [hw, Call.Waits])
    have hlist : q = .list := by
      by_contra hne
      obtain ⟨p, hp⟩ := busy_of_holds hq hne
      exact hidle p hp
    subst hlist
    obtain ⟨us, hus, hm⟩ := hq
    refine hV.empty fun hr => ?_
    rw [hr] at hus
    rw [Linked.none_iff.mp hus] at hm
    cases hm

/-- Two gets wait; a `put` takes the later one, and `close` the other. -/
def handedAndClosed : List (Action ℕ) :=
  [.make 0 (.get 7), .lock 0, .enterDefer 0 false, .setProceed 0, .make 1 (.get 8), .lock 1,
    .enterDefer 1 false, .setProceed 1, .make 2 (.put 10), .lock 2, .make 3 .closing, .lock 3,
    .handOff 2, .closeNext 3, .closeNext 3]

theorem attended_handedAndClosed : ∃ s, (machine ℕ).exec {} handedAndClosed = some s ∧
    s.call 0 = .proceeded ∧ s.call 1 = .proceeded ∧ Attended handedAndClosed s := by
  have he : (machine ℕ).exec {} handedAndClosed = some _ := rfl
  have t : True := trivial
  have hC : (machine ℕ).Along Undisturbed {} handedAndClosed :=
    ⟨rfl, t, t, t, rfl, t, t, t, t, t, t, t, t, t, t, t⟩
  exact ⟨_, he, rfl, rfl, attended_of_undisturbed hC he⟩

end Channel

end Synca
