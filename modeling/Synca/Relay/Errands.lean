import Synca.Relay.Runs

/-!
# Operations are started once

The deferred handler that starts an operation is made together with it, so once it has run nobody
starts the operation again.
-/

namespace Synca

namespace Relay

variable {c c' c₁ : Relay} {t j k : ℕ} {stray : Prop}

/-- What is to be started was so before, or is new. -/
structure Undone (c c' : Relay) : Prop where
  errands : c.errands ≤ c'.errands
  starts : ∀ j i, (c'.runner j).deferHandler = some (.startIo i) →
    (c.runner j).deferHandler = some (.startIo i) ∨ c.errands ≤ i

namespace Undone

lemma of_eq (hr : c'.runner = c.runner) (he : c'.errands = c.errands) : Undone c c' :=
  ⟨he.ge, fun _ _ h => .inl (hr ▸ h)⟩

lemma refl (c : Relay) : Undone c c := of_eq rfl rfl

lemma trans (h : Undone c c') (h' : Undone c' c₁) : Undone c c₁ := by
  refine ⟨h.errands.trans h'.errands, fun j i hj => ?_⟩
  rcases h'.starts j i hj with hj | hi
  · exact h.starts j i hj
  · exact .inr (h.errands.trans hi)

lemma mapRunner {f : Runner → Runner} (hf : ∀ i, (f (c.runner j)).deferHandler =
    some (.startIo i) → (c.runner j).deferHandler = some (.startIo i) ∨ c.errands ≤ i) :
    Undone c (c.mapRunner j f) := by
  refine ⟨le_rfl, fun i n h => ?_⟩
  rw [runner_mapRunner] at h
  split_ifs at h with hi
  · exact hi ▸ hf n h
  · exact .inl h

/-- The deferred handler stays. -/
lemma keep {f : Runner → Runner}
    (hf : (f (c.runner j)).deferHandler = (c.runner j).deferHandler) : Undone c (c.mapRunner j f) :=
  mapRunner fun _ h => .inl (hf ▸ h)

lemma proceed (c : Relay) (j : ℕ) : Undone c (c.proceed j) :=
  (keep rfl : Undone c (c.record j .proceed)).trans (of_eq rfl rfl)

lemma bump (c : Relay) (k : ℕ) : Undone c (c.bump k) :=
  bump_induction (P := Undone c) (fun _ _ _ h => h.trans (of_eq rfl rfl))
    (fun _ j h => h.trans (proceed _ j)) (refl c) k

lemma release (c : Relay) (k : ℕ) (h : Holder) : Undone c (c.release k h) :=
  release_induction (P := Undone c) (fun _ _ _ h => h.trans (of_eq rfl rfl))
    (fun _ j h => h.trans (proceed _ j)) (of_eq rfl rfl)

lemma create (c : Relay) (d : ℕ) (r : Option ℕ) : Undone c (c.create d r) :=
  (keep rfl : Undone c (c.mapRunner (c.created + 1) fun x => { x with
    alive := true, sched := d, role := r, log := x.log ++ [.create] })).trans (of_eq rfl rfl)

/-- A new handler is set. -/
lemma yield (c : Relay) (t j : ℕ) {d : Deferred} (hd : ∀ i, d = .startIo i → c.errands ≤ i) :
    Undone c (c.yield t j d) := by
  have hm : Undone c (c.mapRunner j fun r => { r with
      place := .away, deferHandler := some d, log := r.log ++ [.yield] }) :=
    mapRunner fun i hi => .inr (hd i (Option.some_injective _ hi))
  exact hm.trans (of_eq rfl rfl)

lemma answer (c : Relay) (t j : ℕ) (d : Deferred) : Undone c (c.answer t j d) := by
  cases d with
  | proceed => exact (proceed c j).trans (of_eq rfl rfl)
  | launch k => exact of_eq rfl rfl
  | setProceed w => exact of_eq rfl rfl
  | startIo i => exact of_eq rfl rfl

lemma endCoro (c : Relay) (t j : ℕ) : Undone c (c.endCoro t j) :=
  (keep rfl : Undone c (c.mapRunner j fun r => { r with
    started := false, log := r.log ++ [.finish] })).trans (of_eq rfl rfl)

lemma dispatch (c : Relay) (t : ℕ) (k : Task) : Undone c (c.dispatch t k) := by
  have htake : Undone c (c.take t k) := of_eq rfl rfl
  refine htake.trans ?_
  unfold Relay.dispatch
  split_ifs
  · unfold Relay.start
    simp only
    split_ifs
    · have hm : Undone (c.take t k) ((c.take t k).mapRunner k.journey fun r => { r with
          started := true, running := true, place := .here, log := r.log ++ [.start] }) := keep rfl
      split
      · exact hm.trans (of_eq rfl rfl)
      · exact hm
    · exact of_eq rfl rfl
  · unfold Relay.resume
    simp only
    split_ifs
    · exact keep rfl
    · exact of_eq rfl rfl

lemma hop (hW : c.Waits) (h : Hop stray c c') : Undone c c' := by
  cases h with
  | create d => exact create c d none
  | dispatch t x ht hx hs => exact dispatch c t x
  | leave t j h => exact keep rfl
  | move hm t j d h hp => exact keep rfl
  | depart t j d h =>
    exact (keep rfl : Undone c (c.move j d)).trans (yield _ t j (by simp))
  | newTeam j kind => exact of_eq rfl rfl
  | newSeat j l hm => exact of_eq rfl rfl
  | newErrand j => exact ⟨Nat.le_succ _, fun _ _ h => .inl h⟩
  | goGroup t j kind h =>
    exact (of_eq rfl rfl : Undone c (c.newTeam j kind)).trans (yield _ t j (by simp))
  | get t j l h hm =>
    exact (of_eq rfl rfl : Undone c (c.newSeat j l)).trans (yield _ t j (by simp))
  | deferIo t j h =>
    refine ⟨Nat.le_succ _, fun i n hn => ?_⟩
    have hm : Undone c (c.mapRunner j fun r => { r with
        place := .away, deferHandler := some (.startIo c.errands), log := r.log ++ [.yield] }) :=
      mapRunner fun m hm => .inr (Deferred.startIo.inj (Option.some_injective _ hm)).le
    exact hm.starts i n hn
  | save t j threw h =>
    exact (keep rfl : Undone c (c.mapRunner j fun r => { r with
      running := false, log := r.log ++ [.save] })).trans (of_eq rfl rfl)
  | delete t j h hd =>
    exact (keep rfl : Undone c (c.mapRunner j fun r => { r with
      alive := false, log := r.log ++ [.delete] })).trans (of_eq rfl rfl)
  | answer t j d h hd =>
    have hm : Undone c (c.mapRunner j fun r => { r with deferHandler := none }) :=
      mapRunner fun i hi => by cases hi
    exact hm.trans (answer _ t j d)
  | launch t j k d h => exact (create c d (some k)).trans (of_eq rfl rfl)
  | endLoop t j k h =>
    exact (of_eq rfl rfl : Undone c (c.setStage t .finishing)).trans (release _ k _)
  | drop t x h hx => exact of_eq rfl rfl
  | finish t k x h hx hs hr =>
    exact (of_eq rfl rfl : Undone c (c.giveUp t x)).trans (release _ k _)
  | win t j k h hr hk => exact bump c k
  | endCoro t j h hr => exact endCoro c t j
  | endChild t j k h hr => exact (endCoro c t j).trans (release _ k _)
  | pop t l w ws hm hl hh => exact of_eq rfl rfl
  | sweep t l hm hh => exact of_eq rfl rfl
  | fire t w ws h =>
    rw [hW.fire_eq h]
    exact (of_eq rfl rfl : Undone c ((c.setHand t ws).mapSeat w fun x =>
      { x with phase := .fired })).trans (proceed _ _)
  | complete i h =>
    exact (of_eq rfl rfl : Undone c (c.mapErrand i fun x =>
      { x with pending := false })).trans (proceed _ _)

lemma hops (hS : c.Sound) (h : Hops stray c c') : Undone c c' := by
  have hboth : c'.Sound ∧ Undone c c' := by
    induction h with
    | refl => exact ⟨hS, refl c⟩
    | tail _ hh ih => exact ⟨ih.1.hop hh, ih.2.trans (hop ih.1.waits hh)⟩
  exact hboth.2

end Undone

end Relay

end Synca
