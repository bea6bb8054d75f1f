import Synca.Relay.Basic
import Synca.Transition.Ownership

/-!
# What a journey waits for

A journey that has set its deferred handler has made a fresh group, waiter or operation for it. A
waiter is on the list of its channel, or in the hand of the thread that has taken it off, and when
it is there its `proc` is set. So no call of `proc` finds it unset, and none is made twice.
-/

namespace Synca

open Transition

namespace Relay

variable {c : Relay} {t j k l w i : ℕ}

/-! ### Decomposing a release -/

/-- What holds across changes of a group and across `proceed` holds across the end of a group. -/
lemma settle_induction {P : Relay → Prop}
    (hteam : ∀ c k n, P c → P (c.mapTeam k fun x => { x with counter := n }))
    (hproceed : ∀ c j, P c → P (c.proceed j)) (h : P c) (k : ℕ) : P (c.settle k) := by
  unfold settle
  split
  · exact hproceed _ _ h
  · exact h
  · have hb := hteam c k ((c.team k).counter + 1) h
    simp only [bump]
    split_ifs
    · exact hproceed _ _ hb
    · exact hb

lemma bump_induction {P : Relay → Prop}
    (hteam : ∀ c k n, P c → P (c.mapTeam k fun x => { x with counter := n }))
    (hproceed : ∀ c j, P c → P (c.proceed j)) (h : P c) (k : ℕ) : P (c.bump k) := by
  have hb := hteam c k ((c.team k).counter + 1) h
  simp only [bump]
  split_ifs
  · exact hproceed _ _ hb
  · exact hb

lemma release_induction {P : Relay → Prop}
    (hteam : ∀ c k n, P c → P (c.mapTeam k fun x => { x with counter := n }))
    (hproceed : ∀ c j, P c → P (c.proceed j)) {h : Holder}
    (hh : P (c.mapTeam k fun x => { x with holders := x.holders.erase h })) :
    P (c.release k h) := by
  simp only [release]
  split_ifs
  · exact settle_induction hteam hproceed hh k
  · exact hh

/-! ### The invariant -/

/-- What the deferred handler of journey `j` is about has been made by it for this purpose. -/
def Prepared (c : Relay) (j : ℕ) : Deferred → Prop
  | .proceed      => True
  | .launch k     => (c.team k).owner = j ∧ k < c.teams ∧ (c.team k).began = false
  | .setProceed w => (c.seat w).owner = j ∧ w < c.seats ∧ (c.seat w).phase = .pushed ∧
    (c.line (c.seat w).channel).mutex = some w
  | .startIo i    => (c.errand i).owner = j ∧ i < c.errands ∧ (c.errand i).pending = false

/-- Each part of the state matters only to the handlers that name it. -/
lemma Prepared.imp {c' : Relay} {h : Deferred} (hp : c.Prepared j h)
    (hteam : ∀ k, c.Prepared j (.launch k) → c'.Prepared j (.launch k))
    (hseat : ∀ w, c.Prepared j (.setProceed w) → c'.Prepared j (.setProceed w))
    (herrand : ∀ i, c.Prepared j (.startIo i) → c'.Prepared j (.startIo i)) :
    c'.Prepared j h := by
  cases h with
  | proceed => trivial
  | launch k => exact hteam k hp
  | setProceed w => exact hseat w hp
  | startIo i => exact herrand i hp

/-- Where a waiter can be. -/
inductive Spot where
  | line (l : ℕ)
  | hand (t : ℕ)

def queue (c : Relay) : Spot → List ℕ
  | .line l => (c.line l).waiters
  | .hand t => c.hand t

structure Waits (c : Relay) : Prop where
  prepared : ∀ j h, (c.runner j).deferHandler = some h → c.Prepared j h
  team : ∀ k, c.teams ≤ k → (c.team k).began = false
  seat : ∀ w, c.seats ≤ w → (c.seat w).phase = .pushed
  errand : ∀ i, c.errands ≤ i → (c.errand i).pending = false
  listed : ∀ l, ∀ w ∈ (c.line l).waiters, w < c.seats ∧ (c.seat w).channel = l ∧
    ((c.seat w).phase = .armed ∨ ((c.seat w).phase = .pushed ∧ (c.line l).mutex = some w))
  held : ∀ t, ∀ w ∈ c.hand t, w < c.seats ∧ (c.seat w).phase = .armed
  nodup : ∀ p, (c.queue p).Nodup
  excl : Exclusive fun p w => w ∈ c.queue p

namespace Waits

lemma init (alone : ℕ → Bool) : ({ alone := alone } : Relay).Waits where
  prepared := by simp
  team _ _ := rfl
  seat _ _ := rfl
  errand _ _ := rfl
  listed := by simp
  held := by simp
  nodup p := by cases p <;> exact List.nodup_nil
  excl p q x hp := by cases p <;> cases hp

/-- The runners matter only through their deferred handlers. -/
lemma mapRunner (hW : c.Waits) {f : Runner → Runner}
    (hf : ∀ h, (f (c.runner j)).deferHandler = some h → c.Prepared j h) :
    (c.mapRunner j f).Waits :=
  { hW with
    prepared := by
      intro i h hi
      by_cases hij : i = j
      · subst hij
        have hi : (f (c.runner i)).deferHandler = some h := by simpa [Relay.mapRunner] using hi
        exact hf h hi
      · have hi : (c.runner i).deferHandler = some h := by
          simpa [Relay.mapRunner, hij] using hi
        exact hW.prepared i h hi }

lemma mapRunner_of_eq (hW : c.Waits) {f : Runner → Runner}
    (hf : (f (c.runner j)).deferHandler = (c.runner j).deferHandler) : (c.mapRunner j f).Waits :=
  hW.mapRunner fun h hh => hW.prepared j h (hf ▸ hh)

lemma mapExec (hW : c.Waits) (f : Exec → Exec) : (c.mapExec t f).Waits := { hW with }

lemma post (hW : c.Waits) (b : Bool) : (c.post j b).Waits := { hW with }

lemma proceed (hW : c.Waits) (j : ℕ) : (c.proceed j).Waits :=
  (hW.mapRunner_of_eq rfl).post false

lemma create (hW : c.Waits) (d : ℕ) (r : Option ℕ) : (c.create d r).Waits := by
  have hc : (c.mapRunner (c.created + 1) fun x =>
      { x with alive := true, sched := d, role := r, log := x.log ++ [.create] }).Waits :=
    hW.mapRunner_of_eq rfl
  have hc' : (c.construct d r).Waits := { hc with }
  exact hc'.post true

lemma mapTeam (hW : c.Waits) {f : Team → Team} (ho : (f (c.team k)).owner = (c.team k).owner)
    (hb : (f (c.team k)).began = (c.team k).began) : (c.mapTeam k f).Waits :=
  { hW with
    prepared := by
      intro i h hi
      refine (hW.prepared i h hi).imp (fun n hp => ?_) (fun _ => id) fun _ => id
      show ((c.mapTeam k f).team n).owner = i ∧ n < c.teams ∧
        ((c.mapTeam k f).team n).began = false
      rw [team_mapTeam]
      split_ifs with hn
      · subst hn
        rw [ho, hb]
        exact hp
      · exact hp
    team := by
      intro n hn
      rw [team_mapTeam]
      split_ifs with hk
      · rw [hb, ← hk]
        exact hW.team n hn
      · exact hW.team n hn }

lemma release (hW : c.Waits) (k : ℕ) (h : Holder) : (c.release k h).Waits :=
  release_induction (fun _ _ _ h => h.mapTeam rfl rfl) (fun _ j h => h.proceed j)
    (hW.mapTeam rfl rfl)

lemma bump (hW : c.Waits) (k : ℕ) : (c.bump k).Waits :=
  bump_induction (fun _ _ _ h => h.mapTeam rfl rfl) (fun _ j h => h.proceed j) hW k

/-! ### New groups, waiters and operations -/

lemma newTeam (hW : c.Waits) (j : ℕ) (kind : GroupKind) : (c.newTeam j kind).Waits :=
  { hW with
    prepared := by
      intro i h hi
      refine (hW.prepared i h hi).imp (fun n hp => ?_) (fun _ => id) fun _ => id
      obtain ⟨ho, hn, hb⟩ := hp
      have hteam : (c.newTeam j kind).team n = c.team n := Function.update_of_ne hn.ne _ _
      show ((c.newTeam j kind).team n).owner = i ∧ n < c.teams + 1 ∧
        ((c.newTeam j kind).team n).began = false
      rw [hteam]
      exact ⟨ho, Nat.lt_succ_of_lt hn, hb⟩
    team := by
      intro n hn
      have hn : c.teams < n := hn
      have hteam : (c.newTeam j kind).team n = c.team n :=
        Function.update_of_ne hn.ne' _ _
      rw [hteam]
      exact hW.team n hn.le }

lemma prepared_newTeam (hW : c.Waits) (j : ℕ) (kind : GroupKind) :
    (c.newTeam j kind).Prepared j (.launch c.teams) := by
  have hteam : (c.newTeam j kind).team c.teams = { c.team c.teams with kind := kind, owner := j } :=
    Function.update_self _ _ _
  show ((c.newTeam j kind).team c.teams).owner = j ∧ c.teams < c.teams + 1 ∧
    ((c.newTeam j kind).team c.teams).began = false
  rw [hteam]
  exact ⟨rfl, Nat.lt_succ_self _, hW.team _ le_rfl⟩

lemma seat_newSeat (c : Relay) (j l w : ℕ) : (c.newSeat j l).seat w =
    if w = c.seats then { c.seat c.seats with owner := j, channel := l } else c.seat w :=
  Function.update_apply _ _ _ _

lemma line_newSeat (c : Relay) (j l m : ℕ) : (c.newSeat j l).line m =
    if m = l then
      { (c.line l) with waiters := c.seats :: (c.line l).waiters, mutex := some c.seats }
    else c.line m :=
  Function.update_apply _ _ _ _

lemma newSeat (hW : c.Waits) (j : ℕ) (hm : (c.line l).mutex = none) : (c.newSeat j l).Waits := by
  have hold : ∀ w, w < c.seats → (c.newSeat j l).seat w = c.seat w := fun w hw => by
    rw [seat_newSeat, if_neg hw.ne]
  have hfresh : ∀ p, c.seats ∉ c.queue p := by
    intro p hp
    cases p with
    | line m => exact absurd (hW.listed m _ hp).1 (Nat.lt_irrefl _)
    | hand t => exact absurd (hW.held t _ hp).1 (Nat.lt_irrefl _)
  constructor
  · intro i h hi
    refine (hW.prepared i h hi).imp (fun _ => id) (fun w hp => ?_) fun _ => id
    obtain ⟨ho, hw, hph, hmu⟩ := hp
    have hne : (c.seat w).channel ≠ l := by
      intro heq
      rw [heq, hm] at hmu
      cases hmu
    show ((c.newSeat j l).seat w).owner = i ∧ w < c.seats + 1 ∧
      ((c.newSeat j l).seat w).phase = .pushed ∧
      ((c.newSeat j l).line ((c.newSeat j l).seat w).channel).mutex = some w
    rw [hold w hw, line_newSeat, if_neg hne]
    exact ⟨ho, Nat.lt_succ_of_lt hw, hph, hmu⟩
  · exact hW.team
  · intro w hw
    have hw : c.seats < w := hw
    rw [seat_newSeat, if_neg hw.ne']
    exact hW.seat w hw.le
  · exact hW.errand
  · intro m w hw
    show w < c.seats + 1 ∧ _
    rw [line_newSeat] at hw ⊢
    split_ifs at hw ⊢ with hml
    · subst hml
      rcases List.mem_cons.mp hw with rfl | hw
      · rw [seat_newSeat, if_pos rfl]
        exact ⟨Nat.lt_succ_self _, rfl, .inr ⟨hW.seat _ le_rfl, rfl⟩⟩
      · obtain ⟨hlt, hc, ha | ⟨-, hmu⟩⟩ := hW.listed m w hw
        · rw [hold w hlt]
          exact ⟨Nat.lt_succ_of_lt hlt, hc, .inl ha⟩
        · rw [hm] at hmu
          cases hmu
    · obtain ⟨hlt, h⟩ := hW.listed m w hw
      rw [hold w hlt]
      exact ⟨Nat.lt_succ_of_lt hlt, h⟩
  · intro t w hw
    obtain ⟨hlt, ha⟩ := hW.held t w hw
    rw [hold w hlt]
    exact ⟨Nat.lt_succ_of_lt hlt, ha⟩
  · intro p
    cases p with
    | hand t => exact hW.nodup (.hand t)
    | line m =>
      show ((c.newSeat j l).line m).waiters.Nodup
      rw [line_newSeat]
      split_ifs
      · exact List.nodup_cons.mpr ⟨hfresh (.line l), hW.nodup (.line l)⟩
      · exact hW.nodup (.line m)
  · refine hW.excl.issue (.line l) hfresh fun p w hw => ?_
    cases p with
    | hand t => exact .inl hw
    | line m =>
      have hw : w ∈ ((c.newSeat j l).line m).waiters := hw
      rw [line_newSeat] at hw
      split_ifs at hw with hml
      · subst hml
        exact (List.mem_cons.mp hw).symm.imp id fun h => ⟨rfl, h⟩
      · exact .inl hw

lemma prepared_newSeat (hW : c.Waits) (j l : ℕ) :
    (c.newSeat j l).Prepared j (.setProceed c.seats) := by
  have hseat : (c.newSeat j l).seat c.seats = { c.seat c.seats with owner := j, channel := l } := by
    rw [seat_newSeat, if_pos rfl]
  show ((c.newSeat j l).seat c.seats).owner = j ∧ c.seats < c.seats + 1 ∧
    ((c.newSeat j l).seat c.seats).phase = .pushed ∧
    ((c.newSeat j l).line ((c.newSeat j l).seat c.seats).channel).mutex = some c.seats
  rw [hseat, line_newSeat, if_pos rfl]
  exact ⟨rfl, Nat.lt_succ_self _, hW.seat _ le_rfl, rfl⟩

lemma newErrand (hW : c.Waits) (j : ℕ) : (c.newErrand j).Waits :=
  { hW with
    prepared := by
      intro i h hi
      refine (hW.prepared i h hi).imp (fun _ => id) (fun _ => id) fun n hp => ?_
      obtain ⟨ho, hn, hb⟩ := hp
      have herr : (c.newErrand j).errand n = c.errand n := Function.update_of_ne hn.ne _ _
      show ((c.newErrand j).errand n).owner = i ∧ n < c.errands + 1 ∧
        ((c.newErrand j).errand n).pending = false
      rw [herr]
      exact ⟨ho, Nat.lt_succ_of_lt hn, hb⟩
    errand := by
      intro n hn
      have hn : c.errands < n := hn
      have herr : (c.newErrand j).errand n = c.errand n :=
        Function.update_of_ne hn.ne' _ _
      rw [herr]
      exact hW.errand n hn.le }

lemma prepared_newErrand (hW : c.Waits) (j : ℕ) :
    (c.newErrand j).Prepared j (.startIo c.errands) := by
  have herr : (c.newErrand j).errand c.errands = { c.errand c.errands with owner := j } :=
    Function.update_self _ _ _
  show ((c.newErrand j).errand c.errands).owner = j ∧ c.errands < c.errands + 1 ∧
    ((c.newErrand j).errand c.errands).pending = false
  rw [herr]
  exact ⟨rfl, Nat.lt_succ_self _, hW.errand _ le_rfl⟩

lemma yield (hW : c.Waits) {d : Deferred} (hp : c.Prepared j d) (t : ℕ) :
    (c.yield t j d).Waits := by
  refine (hW.mapRunner fun h hh => ?_).mapExec _
  obtain rfl : d = h := Option.some_injective _ hh
  exact hp

/-! ### The deferred handler runs -/

/-- While its handler runs the journey has none. -/
lemma answer (hW : c.Waits) {d : Deferred} (hp : c.Prepared j d)
    (hd : (c.runner j).deferHandler = none) (t : ℕ) : (c.answer t j d).Waits := by
  have hne : ∀ i h, (c.runner i).deferHandler = some h → i ≠ j := by
    rintro i h hi rfl
    rw [hd] at hi
    cases hi
  cases d with
  | proceed => exact (hW.proceed j).mapExec _
  | launch k =>
    obtain ⟨ho, hk, -⟩ := hp
    have hteam : ∀ n, n ≠ k → (c.answer t j (.launch k)).team n = c.team n := fun n hn =>
      Function.update_of_ne hn _ _
    refine { hW with prepared := ?_, team := ?_ }
    · intro i h hi
      refine (hW.prepared i h hi).imp (fun n hp => ?_) (fun _ => id) fun _ => id
      have hn : n ≠ k := by
        rintro rfl
        exact hne i h hi (hp.1.symm.trans ho)
      show ((c.answer t j (.launch k)).team n).owner = i ∧ n < c.teams ∧
        ((c.answer t j (.launch k)).team n).began = false
      rw [hteam n hn]
      exact hp
    · intro n hn
      rw [hteam n (hk.trans_le hn).ne']
      exact hW.team n hn
  | setProceed w =>
    obtain ⟨ho, hw, hph, hmu⟩ := hp
    have hseat : ∀ x, (c.answer t j (.setProceed w)).seat x =
        if x = w then { c.seat w with phase := .armed } else c.seat x := fun x =>
      Function.update_apply _ _ _ _
    have hline : ∀ l, (c.answer t j (.setProceed w)).line l = if l = (c.seat w).channel then
        { c.line (c.seat w).channel with mutex := none } else c.line l := fun l =>
      Function.update_apply _ _ _ _
    have hwaiters : ∀ l, ((c.answer t j (.setProceed w)).line l).waiters = (c.line l).waiters := by
      intro l
      rw [hline]
      split_ifs with hl
      · rw [hl]
      · rfl
    constructor
    · intro i h hi
      refine (hW.prepared i h hi).imp (fun _ => id) (fun x hp => ?_) fun _ => id
      obtain ⟨ho', hx, hph', hmu'⟩ := hp
      have hxw : x ≠ w := by
        rintro rfl
        exact hne i h hi (ho'.symm.trans ho)
      -- the mutex is held for one waiter
      have hch : (c.seat x).channel ≠ (c.seat w).channel := by
        intro heq
        rw [heq, hmu] at hmu'
        exact hxw (Option.some_injective _ hmu').symm
      show ((c.answer t j (.setProceed w)).seat x).owner = i ∧ x < c.seats ∧
        ((c.answer t j (.setProceed w)).seat x).phase = .pushed ∧
        ((c.answer t j (.setProceed w)).line
          ((c.answer t j (.setProceed w)).seat x).channel).mutex = some x
      rw [hseat, if_neg hxw, hline, if_neg hch]
      exact ⟨ho', hx, hph', hmu'⟩
    · exact hW.team
    · intro x hx
      rw [hseat, if_neg (hw.trans_le hx).ne']
      exact hW.seat x hx
    · exact hW.errand
    · intro l x hx
      rw [hwaiters] at hx
      obtain ⟨hlt, hc, h⟩ := hW.listed l x hx
      refine ⟨hlt, ?_⟩
      rw [hseat]
      split_ifs with hxw
      · exact ⟨hxw ▸ hc, .inl rfl⟩
      · refine ⟨hc, h.imp id fun ⟨hph', hmu'⟩ => ⟨hph', ?_⟩⟩
        rw [hline, if_neg]
        · exact hmu'
        · rintro rfl
          rw [hmu] at hmu'
          exact hxw (Option.some_injective _ hmu').symm
    · intro u x hx
      obtain ⟨hlt, ha⟩ := hW.held u x hx
      refine ⟨hlt, ?_⟩
      rw [hseat]
      split_ifs
      · rfl
      · exact ha
    · intro p
      cases p with
      | hand u => exact hW.nodup (.hand u)
      | line l =>
        show ((c.answer t j (.setProceed w)).line l).waiters.Nodup
        rw [hwaiters]
        exact hW.nodup (.line l)
    · refine hW.excl.mono fun p x hx => ?_
      cases p with
      | hand u => exact hx
      | line l =>
        have hx : x ∈ ((c.answer t j (.setProceed w)).line l).waiters := hx
        rwa [hwaiters] at hx
  | startIo i =>
    obtain ⟨ho, hi, -⟩ := hp
    have herr : ∀ n, n ≠ i → (c.answer t j (.startIo i)).errand n = c.errand n := fun n hn =>
      Function.update_of_ne hn _ _
    refine { hW with prepared := ?_, errand := ?_ }
    · intro m h hm
      refine (hW.prepared m h hm).imp (fun _ => id) (fun _ => id) fun n hp => ?_
      have hn : n ≠ i := by
        rintro rfl
        exact hne m h hm (hp.1.symm.trans ho)
      show ((c.answer t j (.startIo i)).errand n).owner = m ∧ n < c.errands ∧
        ((c.answer t j (.startIo i)).errand n).pending = false
      rw [herr n hn]
      exact hp
    · intro n hn
      rw [herr n (hi.trans_le hn).ne']
      exact hW.errand n hn

/-! ### Waiters are called -/

lemma armed_of_unlocked (hW : c.Waits) (hm : (c.line l).mutex = none)
    (hw : w ∈ (c.line l).waiters) : (c.seat w).phase = .armed := by
  obtain ⟨-, -, ha | ⟨-, hmu⟩⟩ := hW.listed l w hw
  · exact ha
  · rw [hm] at hmu
    cases hmu

/-- A thread takes some of the waiters off the list of an unlocked channel. -/
lemma unlist (hW : c.Waits) (vs ws : List ℕ) (hm : (c.line l).mutex = none)
    (hl : (c.line l).waiters = vs ++ ws) :
    ((c.mapLine l fun x => { x with waiters := ws }).setHand t vs).Waits := by
  set c' := (c.mapLine l fun x => { x with waiters := ws }).setHand t vs with hc'
  have hline : ∀ m, c'.line m = if m = l then { c.line l with waiters := ws } else c.line m :=
    fun m => Function.update_apply _ _ _ _
  have hhand : ∀ u, c'.hand u = if u = t then vs else c.hand u :=
    fun u => Function.update_apply _ _ _ _
  have hmutex : ∀ m, (c'.line m).mutex = (c.line m).mutex := by
    intro m
    rw [hline]
    split_ifs with hml
    · rw [hml]
    · rfl
  have hwaiters : ∀ m, ∀ w ∈ (c'.line m).waiters, w ∈ (c.line m).waiters := by
    intro m w hw
    rw [hline] at hw
    split_ifs at hw with hml
    · rw [hml, hl]
      exact List.mem_append_right _ hw
    · exact hw
  have hnodup : (vs ++ ws).Nodup := hl ▸ hW.nodup (.line l)
  constructor
  · intro i h hi
    refine (hW.prepared i h hi).imp (fun _ => id) (fun w hp => ?_) fun _ => id
    obtain ⟨ho, hw, hph, hmu⟩ := hp
    exact ⟨ho, hw, hph, (hmutex _).trans hmu⟩
  · exact hW.team
  · exact hW.seat
  · exact hW.errand
  · intro m w hw
    rw [hmutex]
    exact hW.listed m w (hwaiters m w hw)
  · intro u w hw
    rw [hhand] at hw
    split_ifs at hw
    · have hw : w ∈ (c.line l).waiters := hl ▸ List.mem_append_left _ hw
      exact ⟨(hW.listed l w hw).1, hW.armed_of_unlocked hm hw⟩
    · exact hW.held u w hw
  · intro p
    cases p with
    | line m =>
      show (c'.line m).waiters.Nodup
      rw [hline]
      split_ifs
      · exact (List.nodup_append.mp hnodup).2.1
      · exact hW.nodup (.line m)
    | hand u =>
      show (c'.hand u).Nodup
      rw [hhand]
      split_ifs
      · exact (List.nodup_append.mp hnodup).1
      · exact hW.nodup (.hand u)
  · -- a waiter that has left the list of `l` is in the hand of `t`
    have key : ∀ w ∈ vs, ∀ p, w ∈ c'.queue p → p = .hand t := by
      intro w hw p hp
      have hwl : w ∈ c.queue (.line l) := by
        show w ∈ (c.line l).waiters
        rw [hl]
        exact List.mem_append_left _ hw
      cases p with
      | line m =>
        have hp : w ∈ (c'.line m).waiters := hp
        obtain hml : Spot.line m = .line l := hW.excl (hwaiters m w hp) hwl
        rw [hline, if_pos (Spot.line.inj hml)] at hp
        exact absurd rfl ((List.nodup_append.mp hnodup).2.2 w hw w hp)
      | hand u =>
        have hp : w ∈ c'.hand u := hp
        rw [hhand] at hp
        split_ifs at hp with hu
        · rw [hu]
        · cases hW.excl (show w ∈ c.queue (.hand u) from hp) hwl
    intro p q w hp hq
    by_cases hw : w ∈ vs
    · rw [key w hw p hp, key w hw q hq]
    · have hback : ∀ p, w ∈ c'.queue p → w ∈ c.queue p := by
        intro p hp
        cases p with
        | line m => exact hwaiters m w hp
        | hand u =>
          have hp : w ∈ c'.hand u := hp
          rw [hhand] at hp
          split_ifs at hp
          · exact absurd hp hw
          · exact hp
      exact hW.excl (hback p hp) (hback q hq)

/-- A waiter in the hand of a thread is called. -/
lemma fired (hW : c.Waits) {ws : List ℕ} (hh : c.hand t = w :: ws) :
    ((c.setHand t ws).mapSeat w fun x => { x with phase := .fired }).Waits := by
  set c' := (c.setHand t ws).mapSeat w fun x => { x with phase := .fired } with hc'
  have hwt : w ∈ c.hand t := hh ▸ List.mem_cons_self
  have hheld := hW.held t w hwt
  have hhand : ∀ u, c'.hand u = if u = t then ws else c.hand u :=
    fun u => Function.update_apply _ _ _ _
  have hseat : ∀ x, x ≠ w → c'.seat x = c.seat x := fun x hx => Function.update_of_ne hx _ _
  have hne : ∀ u, ∀ x ∈ c'.hand u, x ∈ c.hand u ∧ x ≠ w := by
    intro u x hx
    rw [hhand] at hx
    split_ifs at hx with hu
    · have hnodup : (w :: ws).Nodup := hh ▸ hW.nodup (.hand t)
      refine ⟨hu ▸ hh ▸ List.mem_cons_of_mem _ hx, ?_⟩
      rintro rfl
      exact (List.nodup_cons.mp hnodup).1 hx
    · refine ⟨hx, ?_⟩
      rintro rfl
      exact hu (Spot.hand.inj (hW.excl (show x ∈ c.queue (.hand u) from hx) hwt))
  constructor
  · intro i h hi
    refine (hW.prepared i h hi).imp (fun _ => id) (fun x hp => ?_) fun _ => id
    obtain ⟨ho, hx, hph, hmu⟩ := hp
    have hxw : x ≠ w := by
      rintro rfl
      rw [hheld.2] at hph
      cases hph
    show (c'.seat x).owner = i ∧ x < c.seats ∧ (c'.seat x).phase = .pushed ∧
      (c.line (c'.seat x).channel).mutex = some x
    rw [hseat x hxw]
    exact ⟨ho, hx, hph, hmu⟩
  · exact hW.team
  · intro x hx
    rw [hseat x (hheld.1.trans_le hx).ne']
    exact hW.seat x hx
  · exact hW.errand
  · intro l x hx
    rw [hseat x]
    · exact hW.listed l x hx
    · rintro rfl
      have hp := hW.excl (show x ∈ c.queue (.line l) from hx) (show x ∈ c.queue (.hand t) from hwt)
      cases hp
  · intro u x hx
    obtain ⟨hx, hxw⟩ := hne u x hx
    rw [hseat x hxw]
    exact hW.held u x hx
  · intro p
    cases p with
    | line l => exact hW.nodup (.line l)
    | hand u =>
      show (c'.hand u).Nodup
      rw [hhand]
      split_ifs
      · have hnodup : (w :: ws).Nodup := hh ▸ hW.nodup (.hand t)
        exact (List.nodup_cons.mp hnodup).2
      · exact hW.nodup (.hand u)
  · refine hW.excl.mono fun p x hx => ?_
    cases p with
    | line l => exact hx
    | hand u => exact (hne u x hx).1

/-- The `proc` of a waiter that is called was set. -/
lemma fire_eq (hW : c.Waits) {ws : List ℕ} (hh : c.hand t = w :: ws) :
    (c.setHand t ws).fire w = ((c.setHand t ws).mapSeat w fun x =>
      { x with phase := .fired }).proceed (c.seat w).owner := by
  have ha : ((c.setHand t ws).seat w).phase = .armed :=
    (hW.held t w (hh ▸ List.mem_cons_self)).2
  rw [Relay.fire, ha]
  rfl

lemma complete (hW : c.Waits) (i : ℕ) :
    (c.mapErrand i fun x => { x with pending := false }).Waits := by
  have herr : ∀ n, ((c.mapErrand i fun x => { x with pending := false }).errand n).owner =
      (c.errand n).owner ∧ ((c.errand n).pending = false →
      ((c.mapErrand i fun x => { x with pending := false }).errand n).pending = false) := by
    intro n
    rw [errand_mapErrand]
    split_ifs with hn
    · rw [hn]
      exact ⟨rfl, fun _ => rfl⟩
    · exact ⟨rfl, id⟩
  refine { hW with prepared := ?_, errand := ?_ }
  · intro m h hm
    refine (hW.prepared m h hm).imp (fun _ => id) (fun _ => id) fun n hp => ?_
    exact ⟨(herr n).1.trans hp.1, hp.2.1, (herr n).2 hp.2.2⟩
  · exact fun n hn => (herr n).2 (hW.errand n hn)

/-! ### Every hop -/

lemma start (hW : c.Waits) (j : ℕ) : (c.start j).Waits := by
  have hs : (c.mapRunner j fun r => { r with
      started := true, running := true, place := .here, log := r.log ++ [.start] }).Waits :=
    hW.mapRunner_of_eq rfl
  simp only [Relay.start]
  split_ifs
  · split
    · exact hs.mapTeam rfl rfl
    · exact hs
  · exact { hW with }

lemma resume (hW : c.Waits) (j : ℕ) : (c.resume j).Waits := by
  simp only [Relay.resume]
  split_ifs
  · exact hW.mapRunner_of_eq rfl
  · exact { hW with }

lemma dispatch (hW : c.Waits) (t : ℕ) (k : Task) : (c.dispatch t k).Waits := by
  have ht : (c.take t k).Waits := { hW with }
  unfold Relay.dispatch
  split_ifs
  · exact ht.start _
  · exact ht.resume _

lemma hop {stray : Prop} {c' : Relay} (hW : c.Waits) (h : Hop stray c c') : c'.Waits := by
  cases h with
  | create d => exact hW.create d none
  | dispatch t k ht hk hs => exact hW.dispatch t k
  | leave t j h => exact hW.mapRunner_of_eq rfl
  | move hm t j d h hp => exact hW.mapRunner_of_eq rfl
  | depart t j d h =>
    have hm : (c.move j d).Waits := hW.mapRunner_of_eq rfl
    exact hm.yield (d := .proceed) trivial t
  | newTeam j kind => exact hW.newTeam j kind
  | newSeat j l hm => exact hW.newSeat j hm
  | newErrand j => exact hW.newErrand j
  | goGroup t j kind h => exact (hW.newTeam j kind).yield (hW.prepared_newTeam j kind) t
  | get t j l h hm => exact (hW.newSeat j hm).yield (hW.prepared_newSeat j l) t
  | deferIo t j h => exact (hW.newErrand j).yield (hW.prepared_newErrand j) t
  | save t j threw h => exact (hW.mapRunner_of_eq rfl).mapExec _
  | delete t j h hd =>
    have hr : (c.mapRunner j fun r => { r with
        alive := false, log := r.log ++ [.delete] }).Waits := hW.mapRunner_of_eq rfl
    exact { hr with }
  | answer t j d h hd =>
    have hr : (c.mapRunner j fun r => { r with deferHandler := none }).Waits :=
      hW.mapRunner nofun
    exact hr.answer (hW.prepared j d hd) (by simp [Relay.mapRunner]) t
  | launch t j k d h =>
    exact (hW.create d (some k)).mapTeam
      (f := fun x => { x with holders := x.holders ++ [.task (c.created + 1)] }) rfl rfl
  | endLoop t j k h => exact (hW.mapExec _).release k .loop
  | drop t x h hx => exact { hW with }
  | finish t k x h hx hs hr =>
    have hg : (c.giveUp t x).Waits := { hW with }
    exact hg.release k _
  | win t j k h hr hk => exact hW.bump k
  | endCoro t j h hr => exact (hW.mapRunner_of_eq rfl).mapExec _
  | endChild t j k h hr =>
    have he : (c.endCoro t j).Waits := (hW.mapRunner_of_eq rfl).mapExec _
    exact he.release k _
  | pop t l w ws hm hl hh => exact hW.unlist [w] ws hm hl
  | sweep t l hm hh => exact hW.unlist _ [] hm (List.append_nil _).symm
  | fire t w ws h =>
    rw [hW.fire_eq h]
    exact (hW.fired h).proceed _
  | complete i h => exact (hW.complete i).proceed _

end Waits

end Relay

end Synca
