import Synca.Barrier.Reuse

/-!
# Events and early destruction

An exception that leaves `wait` before its suspension changes nothing. One that leaves it afterwards
skips `init0`: the pointer is gone, `go` copies a null pointer, and the next `wait` suspends for
good. The deleter keeps a raw pointer to the waiter, so a waiter that is destroyed while a child has
a copy is read after its destruction. Without these two uses the waiter survives events.
-/

namespace Synca

open Transition

namespace Barrier

variable {s s' : Barrier} {a : Action} {b c : ℕ} {o : Owner}

/-- After a resumed `wait` has thrown, the waiter is not used but to be destroyed, and it is
destroyed when its children are over. -/
def Careful (s : Barrier) : Action → Prop
  | .go      => s.thrown = false
  | .wait u  => s.thrown = false ∨ s.events.Deliverable u
  | .destroy => ∀ c < s.children, (s.child c).Over ∧ ¬ (s.child c).Busy
  | _        => True

instance (s : Barrier) (a : Action) : Decidable (s.Careful a) := by
  induction a using Action.casesOn with
  | go => exact inferInstanceAs (Decidable (_ = _))
  | wait u => exact inferInstanceAs (Decidable (_ ∨ _))
  | destroy => exact Nat.decidableBallLT _ _
  | _ => exact .isTrue trivial

structure Survives (s : Barrier) : Prop extends s.Reusable where
  tracked : s.Tracked
  intact : s.dangling = false

lemma usable_of_careful (h : s.Careful a) : s.Usable a := by
  cases a with
  | go | wait => exact h
  | _ => trivial

/-- After the destruction nobody has a pointer to the waiter. -/
structure Intact (s : Barrier) : Prop where
  bare : s.lifetime = .destroyed → s.Bare
  intact : s.dangling = false

namespace Intact

lemma of_alive (hI : s.Intact) (hl : s'.lifetime = .alive) (hd : s'.dangling = s.dangling) :
    s'.Intact :=
  ⟨fun hl' => (by cases hl.symm.trans hl'), hd.trans hI.intact⟩

/-- As long as there is a pointer, the waiter is there. -/
lemma not_destroyed (hI : s.Intact) (hO : s.Owned) (h : s.Owns b o) : s.lifetime ≠ .destroyed :=
  fun hl => hO.not_bare h (hI.bare hl)

lemma of_released (hI : s.Intact) (hO : s.Owned) (h : s.Owns b o) (hr : s.Released b o s') :
    s'.Intact := by
  cases hr with
  | kept => exact ⟨fun hl => absurd hl (hI.not_destroyed hO h), hI.intact⟩
  | dangles _ hl => exact absurd hl (hI.not_destroyed hO h)
  | proceeds _ _ _ _ hl => exact hI.of_alive hl.1 rfl

lemma init0 (hI : s.Intact) (hl : s.lifetime = .alive) (hn : s.proceeder = none) :
    s.init0.Intact := by
  rw [init0_eq hn]
  exact hI.of_alive hl rfl

/-- The owners that are left after the destruction were owners before. -/
lemma owns_of_destroy (hl : s.lifetime = .alive) (h : s.destroy.Owns b o) :
    s.Owns b o ∧ o ≠ .waiter := by
  cases hn : s.proceeder with
  | none =>
    rw [destroy_eq_of_none hn] at h
    cases o with
    | waiter => cases h
    | toDestroy | task | coro => exact ⟨h, by simp⟩
  | some d =>
    rw [destroy_eq hl hn] at h
    cases o with
    | waiter => cases h
    | toDestroy | task | coro => exact ⟨h, by simp⟩

lemma dangling_destroy (hl : s.lifetime = .alive) : s.destroy.dangling = s.dangling := by
  cases hn : s.proceeder with
  | none => rw [destroy_eq_of_none hn]
  | some b =>
    rw [destroy_eq hl hn]
    rfl

/-- Children that are over have given up their pointers. -/
lemma of_destroy (hI : s.Intact) (hS : s.Sound) (hs : s.At .alive)
    (hc : ∀ c < s.children, (s.child c).Over ∧ ¬ (s.child c).Busy) : s.destroy.Intact := by
  refine ⟨fun _ b => ?_, (dangling_destroy hs.2).trans hI.intact⟩
  rw [((hS.owned.destroy hs.2).shared b).eq_nil_iff]
  intro o ho
  obtain ⟨ho, hne⟩ := owns_of_destroy hs.2 ho
  cases o with
  | waiter => exact hne rfl
  | toDestroy => cases (hS.placed.of_user hs.1).1.symm.trans ho
  | task c | coro c =>
    obtain ⟨hover, hidle⟩ := hc c (hS.owned.born ho.1)
    exact not_owns_of_idle hover hidle (by simp [Owner.child]) ho

lemma of_rule (hI : s.Intact) (hS : s.Sound) (hC : s.Careful a) (h : s.Rule a s') :
    s'.Intact := by
  cases h with
  | construct hs =>
    have hI' : Intact { s with lifetime := .alive, proceed := true } :=
      ⟨fun hl => (by cases hl), hI.intact⟩
    exact hI'.init0 rfl (hS.placed.of_unmade hs).1
  | destroy hs => exact hI.of_destroy hS hs hC
  | go hs =>
    rw [go]
    cases s.proceeder <;> exact hI.of_alive hs.2 rfl
  | waitUnique | waitThrow | waitYield | leaveThrow | save | pause | rouse | set | poll =>
    exact ⟨hI.bare, hI.intact⟩
  | leaveReturn u hs =>
    obtain ⟨-, -, hl, hn, -⟩ := hS.placed.of_resumed hs
    have hI' : Intact { s with spot := .user } := ⟨hI.bare, hI.intact⟩
    exact hI'.init0 hl.1 hn
  | move hd =>
    obtain ⟨-, -, hl, -⟩ := hS.placed.of_pending hd
    rw [move]
    cases s.proceeder <;> exact hI.of_alive hl.1 rfl
  | drop p hd =>
    obtain ⟨b, rfl, hs, hp, hl, hn⟩ := hS.placed.of_dropping hd
    have hr := released_of_drop (b := b) hs hp hl hn
    generalize s.drop (some b) = u at hr ⊢
    cases hr with
    | kept | proceeds => exact hI.of_alive hl.1 rfl
    | dangles _ hl' => cases hl.1.symm.trans hl'
  | dispatch hp =>
    obtain ⟨n, l, x, t, he⟩ := dispatch_eq s
    rw [he]
    exact ⟨hI.bare, hI.intact⟩
  | start c hc hp =>
    obtain ⟨b, hb⟩ := Option.ne_none_iff_exists'.mp (hS.tracked c hc)
    have hown : s.Owns b (.task c) := ⟨hb, by simp [hS.owned.posted c hp]⟩
    rw [hb]
    exact ⟨fun hl => absurd hl (hI.not_destroyed hS.owned hown), hI.intact⟩
  | suspend | resume | finish => exact ⟨hI.bare, hI.intact⟩
  | close c hc hp =>
    obtain ⟨b, hown, hr⟩ := released_of_close hS.owned hS.placed (hS.tracked c hc) hp
    have hI' := hI.of_released hS.owned hown hr
    rw [release_mapChild]
    exact ⟨hI'.bare, hI'.intact⟩
  | dropTask c hc hp =>
    obtain ⟨b, hown, hr⟩ := released_of_dropTask hS.owned hS.placed (hS.tracked c hc) hp
    have hI' := hI.of_released hS.owned hown hr
    rw [release_mapChild]
    exact ⟨hI'.bare, hI'.intact⟩

end Intact

lemma inductive_intact :
    machine.Inductive Careful fun s => (s.Sound ∧ s.Answered) ∧ s.Intact := by
  refine (inductive_answered.mono fun _ _ => usable_of_careful).and ?_ ?_
  · rintro s rfl
    exact ⟨fun hl => (by cases hl), rfl⟩
  · exact fun s a s' hS hI hC hst => hI.of_rule hS.1 hC (Rule.of_step hst)

/-- The waiter survives events as long as it is used with care. -/
theorem survives (h : machine.ReachableBy Careful s) : s.Survives := by
  obtain ⟨⟨hS, -⟩, hI⟩ := inductive_intact.holds h
  exact {
    reusable_of_usable (h.mono fun _ _ => usable_of_careful) with
    tracked := hS.tracked
    intact := hI.intact }

/-- The first `wait` is left by an exception before its suspension, and the second by one after. -/
def twoEvents : List Action :=
  [.construct, .go, .set .cancelled, .wait false, .wait false, .save, .move, .drop] ++ childRun 0 ++
    [.set .timedout, .dispatch, .leave false, .destroy]

theorem survives_twoEvents : ∃ s, machine.exec {} twoEvents = some s ∧ s.Survives := by
  have he : machine.exec {} twoEvents = some _ := rfl
  exact ⟨_, he, survives ((Machine.ReachableBy.init rfl).exec (by decide) he)⟩

/-- The journey uses the waiter after a resumed `wait` has thrown. -/
def afterEvent : List Action :=
  [.construct, .go, .wait false, .save, .move, .drop] ++ childRun 0 ++
    [.set .cancelled, .dispatch, .leave false, .go] ++ childRun 1 ++
    [.wait false, .save, .move, .drop]

/-- The waiter is destroyed before its child has ended. -/
def earlyDestruction : List Action := [.construct, .go, .destroy] ++ childRun 0

/-- The second child is not tracked, and the journey waits for good; and the deleter reads a waiter
that was destroyed. -/
theorem not_survives :
    (∃ s, machine.exec {} afterEvent = some s ∧ (s.child 1).block = none ∧ s.Stuck) ∧
      ∃ s, machine.exec {} earlyDestruction = some s ∧ s.dangling = true := by
  refine ⟨?_, ?_⟩
  · have he : machine.exec {} afterEvent = some _ := rfl
    exact ⟨_, he, by decide, by decide⟩
  · have he : machine.exec {} earlyDestruction = some _ := rfl
    exact ⟨_, he, by decide⟩

end Barrier

end Synca
