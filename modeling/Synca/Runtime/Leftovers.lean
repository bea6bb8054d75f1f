import Synca.Runtime.Races

/-!
# What a finished race leaves behind

The handlers of `goAnyWait` and `goAnyResult`, and the variables of the caller, are captured by
reference, while the caller goes on with the first handler that is done. Nobody uses them afterwards
if the caller leaves last.
-/

namespace Synca

open Transition Relay

namespace Group

variable {x : Group} {h : Holder} {i : ℕ} {v : Option ℕ} {f : Group → Group}

lemma count_of_ne (hc : x.counter ≠ 0) :
    (x.count f).index = x.index ∧ (x.count f).result = x.result := by
  rw [count, if_neg hc]
  exact ⟨rfl, rfl⟩

lemma released_of_ne (hc : x.counter ≠ 0) :
    (x.released h).index = x.index ∧ (x.released h).result = x.result := by
  unfold released
  simp only
  split_ifs
  · unfold settled
    split
    · exact count_of_ne (x := { x with holders := x.holders.erase h }) hc
    · exact ⟨rfl, rfl⟩
  · exact ⟨rfl, rfl⟩

lemma returned_of_ne (hc : x.counter ≠ 0) :
    (x.returned i v).index = x.index ∧ (x.returned i v).result = x.result := by
  unfold returned
  split
  · exact count_of_ne hc
  · exact count_of_ne hc
  · exact ⟨rfl, rfl⟩

end Group

namespace Runtime

variable {s s' s₀ : Runtime} {t j k i : ℕ} {a : Action} {as : List Action}

/-- The loop has launched the handlers of group `k`, and each has returned or thrown. -/
def AllDone (s : Runtime) (k : ℕ) : Prop :=
  (s.group k).launched = (s.group k).size ∧
    ∀ j ≤ s.created, (s.journey j).role.map Prod.fst = some k → s.Done j

instance (s : Runtime) (k : ℕ) : Decidable (s.AllDone k) := inferInstanceAs (Decidable (_ ∧ _))

/-- The caller leaves the race of group `k` when the handlers are done. -/
def LeavesLast (k : ℕ) (s : Runtime) : Action → Prop
  | .leave _ j => (s.journey j).ctx = .resumed (.group k) → (s.group k).kind ≠ .goWait → s.AllDone k
  | _          => True

instance (k : ℕ) (s : Runtime) (a : Action) : Decidable (s.LeavesLast k a) := by
  induction a using Action.casesOn with
  | leave t j => exact inferInstanceAs (Decidable (_ → _ → _))
  | _ => exact .isTrue trivial

/-- The race was not begun, or its handlers are done. -/
def Settled (k : ℕ) (s : Runtime) : Prop :=
  (s.group k).left = true → (s.group k).kind ≠ .goWait → (s.group k).began = true → s.AllDone k

lemma created_of_role (hS : s.relay.Sound) {r : ℕ × ℕ} (hr : (s.journey j).role = some r) :
    j ≤ s.created := by
  by_contra hj
  cases (Kin.role_fresh hS (Nat.not_le.mp hj)).symm.trans hr

lemma allDone_step (hG : s.Grouped) (hD : s.Deed a s') (hk : k < s.groups) (hA : s.AllDone k) :
    s'.AllDone k := by
  obtain ⟨hsize, hdone⟩ := hA
  have hS := hG.sound
  have hfixed := (groupTurn_of_deed hS hD k).fixed hk
  have hl : (s'.group k).launched = (s.group k).launched := by
    rcases Kin.launched_of_deed hS hD k with h | ⟨-, hlt, -⟩
    · exact h
    · omega
  refine ⟨by rw [hl, hfixed.2.2, hsize], fun j _ hj => ?_⟩
  obtain ⟨i, hr⟩ := role_of_map hj
  rcases Kin.role_of_deed hS hD hr with h | ⟨-, -, h, -⟩
  · exact hG.kin.done_stays hS hD
      (hdone j (created_of_role hS h) (congrArg (Option.map Prod.fst) h))
  · simp only at h
    omega

lemma settled_step (hG : s.Grouped) (hD : s.Deed a s') (hC : s.LeavesLast k a)
    (hF : s.Settled k) : s'.Settled k := by
  intro hl hkind hb
  have hS := hG.sound
  have hT := groupTurn_of_deed hS hD k
  by_cases hk : k < s.groups
  · have hkind' : (s.group k).kind ≠ .goWait := (hT.fixed hk).1 ▸ hkind
    refine allDone_step hG hD hk ?_
    cases hT with
    | quits t j _ ha hc _ h =>
      subst ha
      exact hC hc hkind'
    | opens _ _ _ _ _ hg => exact absurd hg hk.ne
    | begins j _ hd _ h =>
      obtain ⟨op, ho, he⟩ := hG.inCall.handler j _ hd
      obtain rfl := deferred_eq_launch he
      rw [h] at hl
      cases (hG.inCall.call j k (.inl ho)).2.2.symm.trans hl
    | releases x _ hnb _ _ h _ =>
      exact hF (by rwa [h, Group.sameCall_released.left] at hl) hkind' hnb
    | rets t j i v _ _ hnb _ _ _ h _ =>
      exact hF (by rwa [h, Group.sameCall_returned.left] at hl) hkind' hnb
    | same _ h | launches _ _ _ _ _ h | holds _ _ _ _ h =>
      rw [h] at hl hb
      exact hF hl hkind' hb
  · have hfresh : (s.group k).began = false := hS.waits.team k (Nat.not_lt.mp hk)
    cases hT with
    | begins j _ hd _ _ => exact absurd (hS.waits.prepared j _ hd).2.1 hk
    | same _ h | opens _ _ _ _ _ _ _ _ h | quits _ _ _ _ _ _ h =>
      rw [h] at hb
      cases hfresh.symm.trans hb
    | launches _ h | holds _ _ h | releases _ _ h | rets _ _ _ _ _ _ h => cases hfresh.symm.trans h

lemma inductive_settled (k : ℕ) :
    machine.Inductive (LeavesLast k) fun s => s.Grouped ∧ s.Settled k := by
  refine (inductive_grouped.mono fun _ _ _ => trivial).and ?_ ?_
  · rintro _ ⟨alone, rfl⟩ hl
    cases hl
  · intro s a s' hG hF hC hs
    exact settled_step hG (deed_of_rule hG.sound (.of_step hs)) hC hF

/-- When the caller leaves the race last, the loop reads no more handlers, no handler is called or
executes any more, and nobody writes the variables of the caller. -/
theorem unused_of_left (h : machine.ReachableBy (LeavesLast k) s) (hl : (s.group k).left = true)
    (hk : (s.group k).kind ≠ .goWait) :
    (∀ t j, s.stage t j = some (.loop k) → (s.group k).size ≤ (s.group k).launched) ∧
    (∀ j i, (s.journey j).role = some (k, i) → s.Done j) ∧
    ∀ a s', machine.step s a = some s' →
      (s'.group k).index = (s.group k).index ∧ (s'.group k).result = (s.group k).result := by
  obtain ⟨hG, hF⟩ := (inductive_settled k).holds h
  have hS := hG.sound
  have hF := hF hl hk
  refine ⟨fun t j ht => ?_, fun j i hr => ?_, fun a s' hs => ?_⟩
  · exact (hF (mem_loop hS ht).1).1.ge
  · have hb : (s.group k).began = true := hS.shares.role j k (role_relay hr)
    exact (hF hb).2 j (created_of_role hS hr) (congrArg (Option.map Prod.fst) hr)
  · have hT := groupTurn_of_deed hS (deed_of_rule hS (.of_step hs)) k
    have hlt : k < s.groups := by
      by_contra hlt
      rw [hG.inCall.fresh k (Nat.not_lt.mp hlt)] at hl
      cases hl
    have hcount : (s.group k).began = true → (s.group k).counter ≠ 0 := by
      intro hb
      rcases hG.inCall.left k hl with h | h
      · cases h.symm.trans hb
      · exact h.2.2 hk
    cases hT with
    | opens _ _ _ _ _ hg => exact absurd hg hlt.ne
    | releases x _ hb _ _ h _ =>
      rw [h]
      exact Group.released_of_ne (hcount hb)
    | rets t j i v _ _ hb _ _ _ h _ =>
      rw [h]
      exact Group.returned_of_ne (hcount hb)
    | same _ h | quits _ _ _ _ _ _ h | begins _ _ _ _ h | launches _ _ _ _ _ h
    | holds _ _ _ _ h =>
      rw [h]
      exact ⟨rfl, rfl⟩

/-- The first of two handlers returns, and the caller leaves; the second was not even called. -/
def firstWins : List Action :=
  [.go 0 (some 1), .attach (some 1), .dispatch 0 ⟨1, 1, true⟩, .request 0 1 (.group .goAnyWait 2),
    .jump 0 1, .exit 0 1 false, .launch 0 1, .launch 0 1, .launch 0 1, .finish 0 1,
    .dispatch 0 ⟨1, 2, true⟩, .ret 0 2 none, .endCoro 0 2, .jump 0 2, .exit 0 2 false, .finish 0 2,
    .dispatch 0 ⟨1, 1, false⟩, .leave 0 1]

theorem unused_secondWins : ∃ s, machine.exec {} (secondWins ++ allEnd.take 6) = some s ∧
    (∀ t j, s.stage t j = some (.loop 0) → (s.group 0).size ≤ (s.group 0).launched) ∧
    (∀ j i, (s.journey j).role = some (0, i) → s.Done j) ∧
    ∃ s', machine.step s (.ret 0 1 none) = some s' ∧ (s'.group 0).index = (s.group 0).index := by
  have h₀ : machine.init {} := ⟨_, rfl⟩
  have hC : machine.Along (LeavesLast 0) {} (secondWins ++ allEnd.take 6) := by decide +kernel
  obtain ⟨s, he⟩ := Option.isSome_iff_exists.mp
    (show (machine.exec {} (secondWins ++ allEnd.take 6)).isSome = true by decide +kernel)
  have hleft : (s.group 0).left = true ∧ (s.group 0).kind ≠ .goWait ∧
      (machine.step s (.ret 0 1 none)).isSome = true := by
    obtain rfl := Option.some_injective _ he
    decide +kernel
  obtain ⟨s', hs'⟩ := Option.isSome_iff_exists.mp hleft.2.2
  obtain ⟨hloop, hdone, hkeep⟩ := unused_of_left (.exec (.init h₀) hC he) hleft.1 hleft.2.1
  exact ⟨s, he, hloop, hdone, s', hs', (hkeep _ s' hs').1⟩

/-- A handler is called after its caller has left. -/
theorem used_after_left : ¬ ∀ (s : Runtime) (k : ℕ), machine.Reachable s →
    (s.group k).left = true → (s.group k).kind ≠ .goWait →
    (∀ t j, s.stage t j = some (.loop k) → (s.group k).size ≤ (s.group k).launched) ∧
    (∀ j i, (s.journey j).role = some (k, i) → s.Done j) ∧
    ∀ a s', machine.step s a = some s' →
      (s'.group k).index = (s.group k).index ∧ (s'.group k).result = (s.group k).result := by
  intro h
  have h₀ : machine.init {} := ⟨_, rfl⟩
  have he : machine.exec {} firstWins = some _ := rfl
  obtain ⟨-, hdone, -⟩ := h _ 0 (.of_exec h₀ he) (by decide +kernel) (by decide +kernel)
  have hnot := hdone 3 1 (by decide +kernel)
  revert hnot
  decide +kernel

end Runtime

end Synca
