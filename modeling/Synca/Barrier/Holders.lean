import Synca.Barrier.Machine
import Synca.Transition.Sharing

/-!
# Who holds the pointer

The owners listed at each block are those that exist. At most one block has owners, the last one
made: `init0` runs when the block before has none left.
-/

namespace Synca

open Transition

namespace Barrier

variable {s s' : Barrier} {b c i : ℕ} {l : List Owner} {o o' : Owner} {p : Option ℕ}

/-- The handler is on the stack of the child. -/
def Child.Inside (x : Child) : Prop :=
  x.phase = .running ∨ x.phase = .suspended ∨ x.phase = .ended

/-- The owner exists, with a reference to block `b`. -/
def Owns (s : Barrier) (b : ℕ) : Owner → Prop
  | .waiter    => s.proceeder = some b
  | .toDestroy => s.deferral = .dropping (some b)
  | .task c    => (s.child c).block = some b ∧ (s.child c).start ≠ .destroyed
  | .coro c    => (s.child c).block = some b ∧ (s.child c).Inside

structure Owned (s : Barrier) : Prop where
  shared : ∀ b, Shared (s.Owns b) (s.holders b)
  last : ∀ b, s.holders b ≠ [] → b + 1 = s.blocks
  unborn : ∀ c, s.children ≤ c → (s.child c).block = none
  posted : ∀ c, (s.child c).phase = .posted → (s.child c).start = .posted

/-- No block has an owner. -/
def Bare (s : Barrier) : Prop := ∀ b, s.holders b = []

/-- Each child holds, or has held, a pointer to the waiter. -/
def Tracked (s : Barrier) : Prop := ∀ c < s.children, (s.child c).block ≠ none

/-! ### What the references do to the state -/

lemma child_mapChild (f : Child → Child) (i : ℕ) :
    (s.mapChild c f).child i = if i = c then f (s.child c) else s.child i := by
  simp [mapChild, Function.update_apply]

/-- The end of a reference, the deleter apart. -/
def erase (s : Barrier) (b : ℕ) (o : Owner) : Barrier :=
  { s with holders := Function.update s.holders b ((s.holders b).erase o) }

@[simp] lemma erase_holders : (s.erase b o).holders b = (s.holders b).erase o := by simp [erase]

lemma release_of_ne (h : (s.holders b).erase o ≠ []) : s.release (some b) o = s.erase b o := by
  simp [release, erase, h]

lemma release_of_eq (h : (s.holders b).erase o = []) :
    s.release (some b) o = (s.erase b o).dispose := by
  simp [release, erase, h]

/-- What the deleter does not change. -/
lemma dispose_eq (s : Barrier) : ∃ d n l q,
    s.dispose = { s with dangling := d, posted := n, log := l, proceeds := q } := by
  unfold dispose
  split_ifs
  · exact ⟨_, _, _, _, rfl⟩
  · exact ⟨_, _, _, _, rfl⟩
  · exact ⟨_, _, _, _, rfl⟩

lemma release_eq (s : Barrier) (b : ℕ) (o : Owner) : ∃ d n l q, s.release (some b) o =
    { s.erase b o with dangling := d, posted := n, log := l, proceeds := q } := by
  by_cases h : (s.holders b).erase o = []
  · rw [release_of_eq h]
    exact dispose_eq _
  · rw [release_of_ne h]
    exact ⟨_, _, _, _, rfl⟩

lemma init0_eq (h : s.proceeder = none) : s.init0 = { s with
    proceeder := some s.blocks
    blocks    := s.blocks + 1
    holders   := Function.update s.holders s.blocks [.waiter] } := by
  simp [init0, h, release]

/-- The destructor disables the deleter. -/
lemma destroy_eq (hl : s.lifetime = .alive) (hp : s.proceeder = some b) : s.destroy =
    { s.erase b .waiter with proceed := false, proceeder := none, lifetime := .destroyed } := by
  by_cases h : (s.holders b).erase .waiter = []
  · simp [destroy, hp, release, h, dispose, hl, erase]
  · simp [destroy, hp, release, h, erase]

lemma destroy_eq_of_none (hp : s.proceeder = none) : s.destroy =
    { s with proceed := false, proceeder := none, lifetime := .destroyed } := by
  simp [destroy, hp, release]

lemma child_go (i : ℕ) :
    s.go.child i = if i = s.children then { block := s.proceeder } else s.child i := by
  cases h : s.proceeder <;> simp [go, hold, h, Function.update_apply]

@[simp] lemma children_go : s.go.children = s.children + 1 := by
  cases h : s.proceeder <;> simp [go, hold, h]

@[simp] lemma blocks_go : s.go.blocks = s.blocks := by
  cases h : s.proceeder <;> simp [go, hold, h]

@[simp] lemma proceeder_go : s.go.proceeder = s.proceeder := by
  cases h : s.proceeder <;> simp [go, hold, h]

@[simp] lemma deferral_go : s.go.deferral = s.deferral := by
  cases h : s.proceeder <;> simp [go, hold, h]

/-! ### Owners come and go -/

/-- The child that the owner belongs to. -/
def Owner.child : Owner → Option ℕ
  | .waiter | .toDestroy => none
  | .task c | .coro c    => some c

lemma owns_mapChild_of_ne {f : Child → Child} (ho : o.child ≠ some c) :
    (s.mapChild c f).Owns b o ↔ s.Owns b o := by
  cases o with
  | waiter | toDestroy => exact Iff.rfl
  | task i | coro i =>
    have hi : i ≠ c := fun h => ho (congrArg some h)
    simp [Owns, child_mapChild, hi]

lemma Child.leaves_eq_destroyed {x : Child} : x.leaves = .destroyed ↔ x.start = .destroyed := by
  unfold leaves
  split_ifs with h <;> simp [h]

namespace Owned

lemma init : ({} : Barrier).Owned where
  shared b := .nil fun o ho => by cases o <;> simp [Owns] at ho
  last := by simp
  unborn := by simp
  posted := by simp

lemma mem (hO : s.Owned) (h : s.Owns b o) : o ∈ s.holders b := ((hO.shared b).mem o).mpr h

lemma last_of_owns (hO : s.Owned) (h : s.Owns b o) : b + 1 = s.blocks :=
  hO.last b (List.ne_nil_of_mem (hO.mem h))

/-- Two references are to one block. -/
lemma owns_unique (hO : s.Owned) {d : ℕ} (hb : s.Owns b o) (hd : s.Owns d o') : b = d := by
  have h₁ := hO.last_of_owns hb
  have h₂ := hO.last_of_owns hd
  omega

lemma born (hO : s.Owned) (h : (s.child c).block = some b) : c < s.children := by
  by_contra hc
  rw [hO.unborn c (Nat.not_lt.mp hc)] at h
  cases h

/-- The owners are the same. -/
lemma congr (hO : s.Owned) (hh : s'.holders = s.holders) (hb : s'.blocks = s.blocks)
    (hc : s'.child = s.child) (hn : s'.children = s.children)
    (ho : ∀ b o, s'.Owns b o ↔ s.Owns b o) : s'.Owned where
  shared b := by
    rw [hh]
    exact (hO.shared b).congr (ho b)
  last := by
    rw [hh, hb]
    exact hO.last
  unborn := by
    rw [hc, hn]
    exact hO.unborn
  posted := by
    rw [hc]
    exact hO.posted

/-- The owners of one block change, which had some. -/
lemma update (hO : s.Owned) (hown : s.Owns b o) (hl : Shared (s'.Owns b) l)
    (hh : s'.holders = Function.update s.holders b l) (hb : s'.blocks = s.blocks)
    (ho : ∀ d ≠ b, ∀ o, s'.Owns d o ↔ s.Owns d o)
    (hu : ∀ c, s'.children ≤ c → (s'.child c).block = none)
    (hp : ∀ c, (s'.child c).phase = .posted → (s'.child c).start = .posted) : s'.Owned where
  shared d := by
    rw [hh]
    by_cases hd : d = b
    · subst hd
      rw [Function.update_self]
      exact hl
    · rw [Function.update_of_ne hd]
      exact (hO.shared d).congr (ho d hd)
  last d hne := by
    rw [hb]
    by_cases hd : d = b
    · exact hd ▸ hO.last_of_owns hown
    · rw [hh, Function.update_of_ne hd] at hne
      exact hO.last d hne
  unborn := hu
  posted := hp

lemma unborn_mapChild (hO : s.Owned) {f : Child → Child}
    (hb : (f (s.child c)).block = (s.child c).block) (h : s.children ≤ i) :
    ((s.mapChild c f).child i).block = none := by
  rw [child_mapChild]
  split_ifs with hc
  · rw [hb]
    exact hO.unborn c (hc ▸ h)
  · exact hO.unborn i h

lemma posted_mapChild (hO : s.Owned) {f : Child → Child} (hp : (f (s.child c)).phase ≠ .posted)
    (h : ((s.mapChild c f).child i).phase = .posted) :
    ((s.mapChild c f).child i).start = .posted := by
  rw [child_mapChild] at h ⊢
  split_ifs at h ⊢ with hc
  · exact absurd h hp
  · exact hO.posted i h

/-- A child goes on, with the references it has. -/
lemma mapChild (hO : s.Owned) {f : Child → Child} (hb : (f (s.child c)).block = (s.child c).block)
    (hs : (f (s.child c)).start = .destroyed ↔ (s.child c).start = .destroyed)
    (hi : (f (s.child c)).Inside ↔ (s.child c).Inside)
    (hp : (f (s.child c)).phase ≠ .posted) : (s.mapChild c f).Owned where
  shared b := by
    refine (hO.shared b).congr fun o => ?_
    by_cases ho : o.child = some c
    · cases o <;> cases ho <;> simp [Owns, child_mapChild, hb, hs, hi]
    · exact owns_mapChild_of_ne ho
  last := hO.last
  unborn _ := hO.unborn_mapChild hb
  posted _ := hO.posted_mapChild hp

/-- A child takes a second reference. -/
lemma hold_child (hO : s.Owned) {f : Child → Child} (hb : (s.child c).block = some b)
    (hfb : (f (s.child c)).block = some b) (ho : o.child = some c) (hown : s.Owns b o')
    (hnew : ¬ s.Owns b o)
    (hf : ∀ o', o'.child = some c → ((s.mapChild c f).Owns b o' ↔ s.Owns b o' ∨ o' = o))
    (hp : (f (s.child c)).phase ≠ .posted) : ((s.mapChild c f).hold (some b) o).Owned := by
  refine hO.update hown ((hO.shared b).hold hnew fun p => ?_) rfl rfl
    (fun d hd p => ?_) (fun _ => hO.unborn_mapChild (hfb.trans hb.symm))
    fun _ => hO.posted_mapChild hp
  · change (s.mapChild c f).Owns b p ↔ _
    by_cases hpc : p.child = some c
    · exact hf p hpc
    · rw [owns_mapChild_of_ne hpc]
      refine (or_iff_left ?_).symm
      rintro rfl
      exact hpc ho
  · change (s.mapChild c f).Owns d p ↔ _
    by_cases hpc : p.child = some c
    · cases p <;> cases hpc <;> simp [Owns, child_mapChild, hb, hfb, Ne.symm hd]
    · exact owns_mapChild_of_ne hpc

/-- A child starts, and copies the pointer from its task. -/
lemma start (hO : s.Owned) (hb : (s.child c).block = some b) (hp : (s.child c).phase = .posted) :
    ((s.mapChild c fun x => { x with phase := .running, start := .executing }).hold
      (some b) (.coro c)).Owned := by
  have hst := hO.posted c hp
  have hown : s.Owns b (.task c) := ⟨hb, by simp [hst]⟩
  refine hO.hold_child hb hb rfl hown (fun h => ?_) (fun o ho => ?_) (by simp)
  · simp [Owns, Child.Inside, hp] at h
  · cases o <;> cases ho
    · simp [Owns, child_mapChild, hb, hst]
    · simp [Owns, child_mapChild, Child.Inside, hb, hp]

/-- A child gives up one of its references. -/
lemma release_child (hO : s.Owned) {f : Child → Child} (hb : (s.child c).block = some b)
    (hfb : (f (s.child c)).block = some b) (ho : o.child = some c) (hown : s.Owns b o)
    (hf : ∀ o', o'.child = some c → ((s.mapChild c f).Owns b o' ↔ s.Owns b o' ∧ o' ≠ o))
    (hp : (f (s.child c)).phase ≠ .posted) : ((s.mapChild c f).release (some b) o).Owned := by
  obtain ⟨x, n, l, q, he⟩ := release_eq (s.mapChild c f) b o
  rw [he]
  refine hO.update hown ((hO.shared b).release (p := o) fun o' => ?_) rfl rfl
    (fun d hd o' => ?_) (fun _ => hO.unborn_mapChild (hfb.trans hb.symm))
    fun _ => hO.posted_mapChild hp
  · change (s.mapChild c f).Owns b o' ↔ _
    by_cases ho' : o'.child = some c
    · exact hf o' ho'
    · rw [owns_mapChild_of_ne ho']
      refine (and_iff_left ?_).symm
      rintro rfl
      exact ho' ho
  · change (s.mapChild c f).Owns d o' ↔ _
    by_cases ho' : o'.child = some c
    · cases o' <;> cases ho' <;> simp [Owns, child_mapChild, hb, hfb, Ne.symm hd]
    · exact owns_mapChild_of_ne ho'

lemma close (hO : s.Owned) (hb : (s.child c).block = some b) (hp : (s.child c).phase = .ended) :
    ((s.mapChild c fun x => { x with phase := .closed, start := x.leaves }).release
      (some b) (.coro c)).Owned := by
  refine hO.release_child hb hb rfl ⟨hb, .inr (.inr hp)⟩ (fun o ho => ?_) (by simp)
  cases o <;> cases ho
  · simp [Owns, child_mapChild, hb, Child.leaves_eq_destroyed]
  · simp [Owns, child_mapChild, hb, Child.Inside]

lemma dropTask (hO : s.Owned) (hb : (s.child c).block = some b)
    (hp : (s.child c).start = .leaving) :
    ((s.mapChild c fun x => { x with start := .destroyed }).release (some b) (.task c)).Owned := by
  refine hO.release_child hb hb rfl ⟨hb, by simp [hp]⟩ (fun o ho => ?_) (fun h => ?_)
  · cases o <;> cases ho
    · simp [Owns, child_mapChild, hb]
    · simp [Owns, child_mapChild, hb, Child.Inside]
  · rw [hO.posted c h] at hp
    cases hp

/-! ### The waiter -/

/-- A child is created, and its task copies the pointer. -/
lemma go (hO : s.Owned) (hb : s.proceeder = some b) : s.go.Owned := by
  have hnew : (s.child s.children).block = none := hO.unborn _ (Nat.le_refl _)
  have hown : ∀ d o, s.go.Owns d o ↔ s.Owns d o ∨ d = b ∧ o = .task s.children := by
    intro d o
    cases o with
    | waiter | toDestroy => simp [Owns]
    | task i =>
      by_cases hi : i = s.children
      · simp [Owns, child_go, hi, hb, hnew, eq_comm]
      · simp [Owns, child_go, hi]
    | coro i =>
      by_cases hi : i = s.children
      · simp [Owns, child_go, hi, hnew, Child.Inside]
      · simp [Owns, child_go, hi]
  refine hO.update (o := .waiter) hb ((hO.shared b).hold (p := .task s.children) (fun h => ?_)
    fun o => ?_) (by simp [Barrier.go, hold, hb]) (by simp) (fun d hd o => ?_) (fun i hi => ?_)
    fun i hi => ?_
  · simp [Owns, hnew] at h
  · simp [hown]
  · simp [hown, hd]
  · rw [children_go] at hi
    rw [child_go, if_neg (Nat.ne_of_gt hi)]
    exact hO.unborn i (Nat.le_of_succ_le hi)
  · rw [child_go] at hi ⊢
    split_ifs at hi ⊢ with hc
    · rfl
    · exact hO.posted i hi

/-- A new block is made when no other has owners. -/
lemma init0 (hO : s.Owned) (hp : s.proceeder = none) (hB : s.Bare) : s.init0.Owned := by
  have hnone : ∀ d o, ¬ s.Owns d o := fun d o h => by simpa [hB d] using hO.mem h
  have hown : ∀ d o, s.init0.Owns d o ↔ d = s.blocks ∧ o = .waiter := by
    intro d o
    rw [init0_eq hp]
    cases o with
    | waiter => simp [Owns, eq_comm]
    | toDestroy => exact iff_of_false (hnone d .toDestroy) (by simp)
    | task i => exact iff_of_false (hnone d (.task i)) (by simp)
    | coro i => exact iff_of_false (hnone d (.coro i)) (by simp)
  have hh : s.init0.holders = Function.update s.holders s.blocks [.waiter] := by
    rw [init0_eq hp]
  constructor
  · intro d
    rw [hh]
    by_cases hd : d = s.blocks
    · subst hd
      rw [Function.update_self]
      exact .singleton fun o => (hown _ o).trans (and_iff_right rfl)
    · rw [Function.update_of_ne hd, hB d]
      exact .nil fun o ho => hd ((hown d o).mp ho).1
  · intro d hne
    rw [hh] at hne
    by_cases hd : d = s.blocks
    · rw [hd, init0_eq hp]
    · rw [Function.update_of_ne hd] at hne
      exact absurd (hB d) hne
  · rw [init0_eq hp]
    exact hO.unborn
  · rw [init0_eq hp]
    exact hO.posted

/-- The waiter passes its pointer to the handler that was deferred. -/
lemma move (hO : s.Owned) (hb : s.proceeder = some b) (hd : s.deferral = .pending) :
    s.move.Owned := by
  have hown : ∀ d o, s.move.Owns d o ↔ s.Owns d o ∧ o ≠ .waiter ∨ d = b ∧ o = .toDestroy := by
    intro d o
    cases o <;> simp [Barrier.move, pass, hb, hd, Owns, eq_comm]
  refine hO.update (o := .waiter) hb ((hO.shared b).pass (p := .waiter) (q := .toDestroy)
    (fun h => ?_) fun o => ?_) (by simp [Barrier.move, pass, hb]) (by simp [Barrier.move, pass, hb])
    (fun d hne o => ?_) ?_ ?_
  · simp [Owns, hd] at h
  · simp [hown]
  · rw [hown]
    refine ⟨fun h => ?_, fun h => .inl ⟨h, ?_⟩⟩
    · exact (h.resolve_right fun h => hne h.1).1
    · rintro rfl
      exact hne (hO.owns_unique h (show s.Owns b .waiter from hb))
  · simpa [Barrier.move, pass, hb] using hO.unborn
  · simpa [Barrier.move, pass, hb] using hO.posted

/-- The handler that was deferred ends. -/
lemma drop (hO : s.Owned) (hd : s.deferral = .dropping (some b)) : (s.drop (some b)).Owned := by
  obtain ⟨x, n, l, q, he⟩ := release_eq { s with deferral := .idle } b .toDestroy
  rw [Barrier.drop, he]
  refine hO.update (o := .toDestroy) hd ((hO.shared b).release (p := .toDestroy) fun o => ?_) rfl
    rfl (fun d hne o => ?_) hO.unborn hO.posted
  · cases o <;> simp [erase, Owns]
  · cases o <;> simp [erase, Owns, hd, Ne.symm hne]

/-- The waiter is destroyed. -/
lemma destroy (hO : s.Owned) (hl : s.lifetime = .alive) : s.destroy.Owned := by
  cases hp : s.proceeder with
  | none =>
    rw [destroy_eq_of_none hp]
    refine hO.congr rfl rfl rfl rfl fun b o => ?_
    cases o <;> simp [Owns, hp]
  | some b =>
    rw [destroy_eq hl hp]
    refine hO.update (o := .waiter) hp ((hO.shared b).release (p := .waiter) fun o => ?_) rfl rfl
      (fun d hne o => ?_) hO.unborn hO.posted
    · cases o <;> simp [erase, Owns]
    · cases o <;> simp [erase, Owns, hp, Ne.symm hne]

end Owned

end Barrier

end Synca
