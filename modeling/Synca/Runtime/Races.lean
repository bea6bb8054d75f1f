import Synca.Runtime.Joins

/-!
# The race of the handlers

The handlers of `goAnyResult` and `goAnyWait` race for the counter of their group. The run of a
program gives the sequence of what the children of a group return, and the variables of the caller
are a function of this sequence.
-/

namespace Synca

open Transition Relay

namespace Group

variable {x y : Group} {h : Holder} {i : ℕ} {v : Option ℕ} {rs : List (ℕ × Option ℕ)}

/-- The variables of the caller after the children have returned `rs`. -/
structure Judged (x : Group) (rs : List (ℕ × Option ℕ)) : Prop where
  fresh : x.began = false → rs = [] ∧ x.counter = 0 ∧ x.result = none
  quiet : x.kind = .goAnyResult → x.counter = 0 → x.result = none ∧ ∀ r ∈ rs, r.2 = none
  result : x.kind = .goAnyResult → x.counter ≠ 0 → x.result = rs.findSome? Prod.snd
  last : x.kind = .goAnyResult → x.counter ≠ 0 → x.result = none → x.holders = []
  emptied : x.kind = .goAnyResult → x.began = true → x.holders = [] → x.counter ≠ 0
  waiting : x.kind = .goAnyWait → x.counter = 0 → rs = []
  index : x.kind = .goAnyWait → x.counter ≠ 0 →
    ∃ r rs', rs = r :: rs' ∧ x.index = some r.1

namespace Judged

lemma init : ({} : Group).Judged [] := by
  refine ⟨fun _ => ⟨rfl, rfl, rfl⟩, ?_, ?_, ?_, ?_, ?_, ?_⟩ <;> intro hk <;> cases hk

/-- What the caller reads is not touched, and the pointer stays with somebody. -/
lemma congr (hJ : x.Judged rs) (hb : y.began = x.began) (hk : y.kind = x.kind)
    (hc : y.counter = x.counter) (hr : y.result = x.result) (hi : y.index = x.index)
    (hl : x.counter ≠ 0 → x.result = none → x.holders = [] → y.holders = [])
    (he : y.holders = [] → x.holders = []) : y.Judged rs where
  fresh h := by
    rw [hc, hr]
    exact hJ.fresh (hb ▸ h)
  quiet h := by
    rw [hc, hr]
    exact hJ.quiet (hk ▸ h)
  result h := by
    rw [hc, hr]
    exact hJ.result (hk ▸ h)
  last h := by
    rw [hc, hr]
    exact fun hc hr => hl hc hr (hJ.last (hk ▸ h) hc hr)
  emptied h := by
    rw [hb, hc]
    exact fun hb hh => hJ.emptied (hk ▸ h) hb (he hh)
  waiting h := by
    rw [hc]
    exact hJ.waiting (hk ▸ h)
  index h := by
    rw [hc, hi]
    exact hJ.index (hk ▸ h)

/-- The pointer gets a new holder besides the one it has. -/
lemma hold (hJ : x.Judged rs) (hh : x.holders ≠ []) (hs : List Holder) (n : ℕ) :
    ({ x with launched := n, holders := x.holders ++ hs } : Group).Judged rs :=
  hJ.congr rfl rfl rfl rfl rfl (fun _ _ h => absurd h hh) fun h =>
    absurd (List.append_eq_nil_iff.mp h).1 hh

lemma release (hJ : x.Judged rs) (hb : x.began = true) (hh : h ∈ x.holders) :
    (x.released h).Judged rs := by
  have hne : x.holders ≠ [] := List.ne_nil_of_mem hh
  unfold released
  simp only
  split_ifs with he
  · unfold settled
    simp only
    split
    case h_1 hk =>
      unfold count
      simp only
      split_ifs with hc
      · obtain ⟨hr, hall⟩ := hJ.quiet hk hc
        refine ⟨fun h => ?_, fun _ h => ?_, fun _ _ => ?_, fun _ _ _ => he, fun _ _ _ => ?_,
          fun h => ?_, fun h => ?_⟩
        · cases hb.symm.trans h
        · cases h
        · exact (List.findSome?_eq_none_iff.mpr hall).symm
        · exact Nat.succ_ne_zero _
        · cases hk.symm.trans h
        · cases hk.symm.trans h
      · refine ⟨fun h => ?_, fun _ h => ?_, fun _ _ => hJ.result hk hc, fun _ _ _ => he,
          fun _ _ _ => Nat.succ_ne_zero _, fun h => ?_, fun h => ?_⟩
        · cases hb.symm.trans h
        · cases h
        · cases hk.symm.trans h
        · cases hk.symm.trans h
    case h_2 hk =>
      exact ⟨hJ.fresh, fun h => absurd h hk, fun h => absurd h hk, fun h => absurd h hk,
        fun h => absurd h hk, hJ.waiting, hJ.index⟩
  · refine hJ.congr rfl rfl rfl rfl rfl (fun _ _ h => absurd h hne) fun h => absurd h he

lemma ret (hJ : x.Judged rs) (hb : x.began = true) (hh : h ∈ x.holders) (i : ℕ) (v : Option ℕ) :
    (x.returned i v).Judged (rs ++ [(i, v)]) := by
  have hne : x.holders ≠ [] := List.ne_nil_of_mem hh
  have hfresh : ∀ {p : Prop}, x.began = false → p := fun h => by cases hb.symm.trans h
  unfold returned
  cases hk : x.kind with
  | goWait =>
    refine ⟨hfresh, fun h => ?_, fun h => ?_, fun h => ?_, fun h => ?_, fun h => ?_,
      fun h => ?_⟩ <;> cases hk.symm.trans h
  | goAnyWait =>
    simp only [count]
    split_ifs with hc
    · refine ⟨hfresh, fun h => ?_, fun h => ?_, fun h => ?_, fun h => ?_, fun _ h => ?_,
        fun _ _ => ?_⟩
      · cases hk.symm.trans h
      · cases hk.symm.trans h
      · cases hk.symm.trans h
      · cases hk.symm.trans h
      · cases h
      · rw [hJ.waiting hk hc]
        exact ⟨_, _, rfl, rfl⟩
    · refine ⟨hfresh, fun h => ?_, fun h => ?_, fun h => ?_, fun h => ?_, fun _ h => ?_,
        fun _ _ => ?_⟩
      · cases hk.symm.trans h
      · cases hk.symm.trans h
      · cases hk.symm.trans h
      · cases hk.symm.trans h
      · cases h
      · obtain ⟨r, rs', hrs, hi⟩ := hJ.index hk hc
        exact ⟨r, rs' ++ [(i, v)], by rw [hrs, List.cons_append], hi⟩
  | goAnyResult =>
    cases v with
    | none =>
      refine ⟨hfresh, fun h hc => ?_, fun h hc => ?_, fun h => hJ.last h, fun h => hJ.emptied h,
        fun h => ?_, fun h => ?_⟩
      · obtain ⟨hr, hall⟩ := hJ.quiet h hc
        refine ⟨hr, fun r hr => ?_⟩
        rcases List.mem_append.mp hr with hr | hr
        · exact hall r hr
        · rw [List.mem_singleton.mp hr]
      · rw [hJ.result h hc, List.findSome?_append]
        simp
      · cases hk.symm.trans h
      · cases hk.symm.trans h
    | some v =>
      simp only [count]
      split_ifs with hc
      · obtain ⟨-, hall⟩ := hJ.quiet hk hc
        refine ⟨hfresh, fun _ h => ?_, fun _ _ => ?_, fun _ _ h => ?_, fun _ _ h => absurd h hne,
          fun h => ?_, fun h => ?_⟩
        · cases h
        · rw [List.findSome?_append, List.findSome?_eq_none_iff.mpr hall]
          rfl
        · cases h
        · cases hk.symm.trans h
        · cases hk.symm.trans h
      · have hsome : x.result ≠ none := fun hr => hne (hJ.last hk hc hr)
        refine ⟨hfresh, fun _ h => ?_, fun _ _ => ?_, fun _ _ h => absurd h hsome,
          fun _ _ h => absurd h hne, fun h => ?_, fun h => ?_⟩
        · cases h
        · have hres := hJ.result hk hc
          rw [List.findSome?_append, ← hres]
          cases hx : x.result with
          | none => exact absurd hx hsome
          | some r => rfl
        · cases hk.symm.trans h
        · cases hk.symm.trans h

end Judged

end Group

namespace Runtime

variable {s s' s₀ : Runtime} {t j k i : ℕ} {a : Action} {as : List Action}
  {rs : List (ℕ × Option ℕ)}

/-- What the children of group `k` return in a run, in order: their indices and values. -/
def returns (k : ℕ) : Runtime → List Action → List (ℕ × Option ℕ)
  | _, []      => []
  | s, a :: as => match machine.step s a with
    | some s' => (s.returnTo k a).toList ++ returns k s' as
    | none    => []

lemma judged_step (hS : s.relay.Sound) (hT : s.GroupTurn a s' k) (hJ : (s.group k).Judged rs) :
    (s'.group k).Judged (rs ++ (s.returnTo k a).toList) := by
  cases hT with
  | rets t j i v hn _ hb _ hx _ h _ =>
    rw [hn, h]
    exact hJ.ret hb hx i v
  | same hn h =>
    rw [hn, h, Option.toList_none, List.append_nil]
    exact hJ
  | opens j kind size left hn hk _ _ h =>
    rw [hn, h, Option.toList_none, List.append_nil]
    have hb : (s.group k).began = false := hS.waits.team k hk.ge
    obtain ⟨rfl, hc, hr⟩ := hJ.fresh hb
    refine ⟨fun _ => ⟨rfl, hc, hr⟩, fun _ _ => ⟨hr, by simp⟩, fun _ h => absurd hc h,
      fun _ h => absurd hc h, fun _ h => ?_, fun _ _ => rfl, fun _ h => absurd hc h⟩
    cases hb.symm.trans h
  | quits t j hn _ _ _ h =>
    rw [hn, h, Option.toList_none, List.append_nil]
    exact hJ.congr rfl rfl rfl rfl rfl (fun _ _ h => h) id
  | begins j hn _ hb h =>
    rw [hn, h, Option.toList_none, List.append_nil]
    obtain ⟨rfl, hc, hr⟩ := hJ.fresh hb
    refine ⟨fun h => ?_, fun _ _ => ⟨hr, by simp⟩, fun _ h => absurd hc h,
      fun _ h => absurd hc h, fun _ _ h => ?_, fun _ _ => rfl, fun _ h => absurd hc h⟩
    · cases h
    · cases h
  | launches hn _ hl _ _ h =>
    rw [hn, h, Option.toList_none, List.append_nil]
    exact hJ.hold (List.ne_nil_of_mem hl) _ _
  | holds j hn _ hl h =>
    rw [hn, h, Option.toList_none, List.append_nil]
    exact hJ.hold (List.ne_nil_of_mem hl) _ _
  | releases x hn hb hx _ h _ =>
    rw [hn, h, Option.toList_none, List.append_nil]
    exact hJ.release hb hx

lemma judged_run (hG : s₀.Grouped) (hs : machine.exec s₀ as = some s)
    (hJ : (s₀.group k).Judged rs) : (s.group k).Judged (rs ++ returns k s₀ as) := by
  induction as generalizing s₀ rs with
  | nil =>
    obtain rfl : s₀ = s := Option.some_injective _ hs
    rwa [returns, List.append_nil]
  | cons a as ih =>
    obtain ⟨s', ha, hs⟩ := Option.bind_eq_some_iff.mp hs
    have hG' := inductive_grouped.step _ _ _ hG trivial ha
    have hT := groupTurn_of_deed hG.sound (deed_of_rule hG.sound (.of_step ha)) k
    have hrun := ih hG' hs (judged_step hG.sound hT hJ)
    rwa [returns, ha, ← List.append_assoc]

/-- The variables of the caller after a run. -/
theorem judged (h₀ : machine.init s₀) (hs : machine.exec s₀ as = some s) (k : ℕ) :
    (s.group k).Judged (returns k s₀ as) := by
  have hG := inductive_grouped.init _ h₀
  have hJ : (s₀.group k).Judged [] := by
    obtain ⟨alone, rfl⟩ := h₀
    exact .init
  exact judged_run hG hs hJ

/-! ### The first result -/

/-- The children of group `k` have ended and have destroyed their copies of the counter. -/
structure Over (s : Runtime) (k : ℕ) : Prop where
  launched : (s.group k).launched = (s.group k).size
  ended : ∀ j i, (s.journey j).role = some (k, i) → s.Ended j
  released : ∀ h ∈ (s.group k).holders, h = .loop

/-- The call of `goAnyResult` returns the first value that a handler returns, and nothing only if no
handler returns a value; its caller is proceeded when the last copy of the counter is gone, so when
the children are over and the launch loop is. -/
theorem goAnyResult_first (h₀ : machine.init s₀) (hs : machine.exec s₀ as = some s)
    (hk : (s.group k).kind = .goAnyResult) :
    proceeds k s₀ as ≤ 1 ∧
    (s.Proceeded k → (s.group k).result = (returns k s₀ as).findSome? Prod.snd) ∧
    (s.Proceeded k → (s.group k).result = none →
      s.Joined k ∧ ∀ r ∈ returns k s₀ as, r.2 = none) ∧
    (proceeds k s₀ as = 0 → ∀ r ∈ returns k s₀ as, r.2 = none) ∧
    ((s.group k).began = true → s.Over k → proceeds k s₀ as = 1 ∨
      .loop ∈ (s.group k).holders ∧
        (s.terminated = false → ∃ t j, s.stage t j = some (.loop k))) := by
  have hK := inductive_kept.holds (Machine.Reachable.of_exec h₀ hs)
  have hJ := judged h₀ hs k
  have hC := counted h₀ hs k
  have hnot : (s.group k).kind ≠ .goWait := by simp [hk]
  refine ⟨hC.once, fun hp => ?_, fun hp hr => ?_, fun hn => ?_, fun hb hO => ?_⟩
  · exact hJ.result hk ((hK.answered_of_proceeded hp).2.2 hnot)
  · obtain ⟨hb, -, hc⟩ := hK.answered_of_proceeded hp
    refine ⟨hK.joined hb (hJ.last hk (hc hnot) hr), ?_⟩
    have hres := hJ.result hk (hc hnot)
    rw [hr] at hres
    exact List.findSome?_eq_none_iff.mp hres.symm
  · by_cases hb : (s.group k).began = true
    · have hc : (s.group k).counter = 0 := by
        by_contra hc
        have hone := hC.answered.mpr ⟨hb, fun h => absurd h hnot, fun _ => hc⟩
        omega
      exact (hJ.quiet hk hc).2
    · rw [(hJ.fresh (by simpa using hb)).1]
      simp
  · by_cases hl : .loop ∈ (s.group k).holders
    · refine .inr ⟨hl, fun hT => ?_⟩
      obtain ⟨t, x, hx, hg⟩ := (hK.backed hT).backs k .loop hl
      exact ⟨t, x.journey, (stage_eq_some_iff (c := s.relay)).mpr ⟨x, hx, rfl, hg⟩⟩
    · have hh : (s.group k).holders = [] := by
        rw [List.eq_nil_iff_forall_not_mem]
        intro h hm
        exact hl (hO.released h hm ▸ hm)
      exact .inl (hC.answered.mpr ⟨hb, fun h => absurd h hnot, fun _ => hJ.emptied hk hb hh⟩)

/-- A journey calls `goAnyResult` with two handlers; the second returns a value. -/
def secondReturns : List Action :=
  [.go 0 (some 1), .attach (some 1), .dispatch 0 ⟨1, 1, true⟩, .request 0 1 (.group .goAnyResult 2),
    .jump 0 1, .exit 0 1 false, .launch 0 1, .launch 0 1, .launch 0 1, .finish 0 1,
    .dispatch 0 ⟨1, 2, true⟩, .ret 0 2 none, .endCoro 0 2, .jump 0 2, .exit 0 2 false, .finish 0 2,
    .dispatch 0 ⟨1, 3, true⟩, .ret 0 3 (some 5)]

/-- The only handler has ended without a value while the loop has not. -/
def loopLast : List Action :=
  [.go 0 (some 1), .attach (some 1), .dispatch 0 ⟨1, 1, true⟩, .request 0 1 (.group .goAnyResult 1),
    .jump 0 1, .exit 0 1 false, .launch 0 1, .dispatch 1 ⟨1, 2, true⟩, .ret 1 2 none,
    .endCoro 1 2, .jump 1 2, .exit 1 2 false, .finish 1 2]

theorem goAnyResult_secondReturns : ∃ s, machine.exec {} secondReturns = some s ∧
    proceeds 0 {} secondReturns ≤ 1 ∧ (s.group 0).result = some 5 ∧
    ∃ s', machine.exec {} (loopLast ++ [.launch 0 1]) = some s' ∧ s'.Joined 0 ∧
      (proceeds 0 {} (loopLast ++ [.launch 0 1]) = 1 ∨ .loop ∈ (s'.group 0).holders) ∧
    ∃ s'', machine.exec {} loopLast = some s'' ∧ ∀ r ∈ returns 0 {} loopLast, r.2 = none := by
  have h₀ : machine.init {} := ⟨_, rfl⟩
  have he : machine.exec {} secondReturns = some _ := rfl
  have he' : machine.exec {} (loopLast ++ [.launch 0 1]) = some _ := rfl
  have he'' : machine.exec {} loopLast = some _ := rfl
  obtain ⟨hle, hres, -, -, -⟩ := goAnyResult_first h₀ he (k := 0) (by decide +kernel)
  obtain ⟨-, -, hnone, -, hover⟩ := goAnyResult_first h₀ he' (k := 0) (by decide +kernel)
  obtain ⟨-, -, -, hzero, -⟩ := goAnyResult_first h₀ he'' (k := 0) (by decide +kernel)
  have hret : returns 0 {} secondReturns = [(0, none), (1, some 5)] := by decide +kernel
  refine ⟨_, he, hle, ?_, _, he', (hnone (by decide +kernel) (by decide +kernel)).1, ?_, _, he'',
    hzero (by decide +kernel)⟩
  · rw [hres (by decide +kernel), hret]
    rfl
  · refine (hover (by decide +kernel)
      ⟨by decide +kernel, fun j i => ?_, by decide +kernel⟩).imp_right And.left
    exact ended_of_created h₀ he' (by decide +kernel) (0, i)

/-- The children can be over, and the caller not proceeded, while the launch loop still holds its
copy of the counter. -/
theorem loop_answers_last : ¬ ∀ (s₀ s : Runtime) (as : List Action) (k : ℕ), machine.init s₀ →
    machine.exec s₀ as = some s → (s.group k).kind = .goAnyResult →
    (s.group k).began = true → s.Over k → proceeds k s₀ as ≠ 0 := by
  intro h
  have h₀ : machine.init {} := ⟨_, rfl⟩
  have he : machine.exec {} loopLast = some _ := rfl
  refine h {} _ loopLast 0 h₀ he (by decide +kernel) (by decide +kernel)
    ⟨by decide +kernel, fun j i => ?_, by decide +kernel⟩ (by decide +kernel)
  exact ended_of_created h₀ he (by decide +kernel) (0, i)

/-! ### The winner -/

/-- Each value returned comes from a child that is done. -/
def Reported (s : Runtime) (k : ℕ) (rs : List (ℕ × Option ℕ)) : Prop :=
  ∀ r ∈ rs, ∃ j, (s.journey j).role = some (k, r.1) ∧ s.Done j

lemma reported_step (hG : s.Grouped) (hD : s.Deed a s') (hR : s.Reported k rs) :
    s'.Reported k (rs ++ (s.returnTo k a).toList) := by
  intro r hr
  rcases List.mem_append.mp hr with hr | hr
  · obtain ⟨j, hj, hd⟩ := hR r hr
    exact ⟨j, Kin.role_stays hG.sound hD hj, hG.kin.done_stays hG.sound hD hd⟩
  · have hT := groupTurn_of_deed hG.sound hD k
    cases hT with
    | rets t j i v hn _ _ hrole _ hc _ _ =>
      rw [hn, Option.toList_some, List.mem_singleton] at hr
      subst hr
      exact ⟨j, Kin.role_stays hG.sound hD hrole, .inl hc⟩
    | same hn | opens _ _ _ _ hn | quits _ _ hn | begins _ hn | launches hn | holds _ hn
    | releases _ hn =>
      rw [hn] at hr
      cases hr

lemma reported_run (hG : s₀.Grouped) (hs : machine.exec s₀ as = some s) (hR : s₀.Reported k rs) :
    s.Reported k (rs ++ returns k s₀ as) := by
  induction as generalizing s₀ rs with
  | nil =>
    obtain rfl : s₀ = s := Option.some_injective _ hs
    rwa [returns, List.append_nil]
  | cons a as ih =>
    obtain ⟨s', ha, hs⟩ := Option.bind_eq_some_iff.mp hs
    have hG' := inductive_grouped.step _ _ _ hG trivial ha
    have hrun := ih hG' hs (reported_step hG (deed_of_rule hG.sound (.of_step ha)) hR)
    rwa [returns, ha, ← List.append_assoc]

/-- An exception leaves a handler of `goAnyWait` before any handler has returned: the loop has more
handlers to launch, or another handler is not done. -/
def Rescued (s : Runtime) : Action → Prop
  | .escape _ j => match (s.journey j).role with
    | some (k, _) => (s.group k).kind = .goAnyWait → (s.group k).counter = 0 →
      (s.group k).launched < (s.group k).size ∨
        ∃ i ≤ s.created, i ≠ j ∧ (s.journey i).role.map Prod.fst = some k ∧ ¬ s.Done i
    | none        => True
  | _           => True

instance (s : Runtime) (a : Action) : Decidable (s.Rescued a) := by
  induction a using Action.casesOn with
  | escape t j =>
    dsimp only [Rescued]
    induction (s.journey j).role using Option.casesOn <;> infer_instance
  | _ => exact .isTrue trivial

/-- Some handler of group `k` may still return. -/
def Hopeful (s : Runtime) (k : ℕ) : Prop :=
  (s.group k).launched < (s.group k).size ∨
    ∃ j, (s.journey j).role.map Prod.fst = some k ∧ ¬ s.Done j

/-- While no handler of a `goAnyWait` has returned, one may. -/
def Racing (s : Runtime) : Prop :=
  ∀ k, (s.group k).began = true → (s.group k).kind = .goAnyWait → (s.group k).counter = 0 →
    s.Hopeful k

/-- A child that was just launched is not done. -/
lemma not_done_of_created (hG : s.Grouped) (hD : s.Deed a s') : ¬ s'.Done (s.created + 1) := by
  intro hd
  have hfresh := congrArg Runner.log (hG.sound.lives.fresh (s.created + 1) (.inr (by simp [relay])))
  have hlog : (s.journey (s.created + 1)).log = [] := hfresh
  rcases Kin.done_of_deed hG.sound hD hd with h | ⟨-, t, ht, -⟩
  · have := hG.kin.begun _ h
    rw [hlog] at this
    cases this
  · have hlead := (hG.sound.lives.leads_running ht).after
    rw [hfresh] at hlead
    cases hlead

/-- While the loop goes on, or some handler is not done, the next step leaves a hope. -/
lemma hopeful_of_launched (hG : s.Grouped) (hD : s.Deed a s') (hk : k < s.groups)
    (hlt : (s.group k).launched < (s.group k).size) : s'.Hopeful k := by
  have hT := groupTurn_of_deed hG.sound hD k
  rcases Kin.launched_of_deed hG.sound hD k with h | ⟨-, -, -, hr⟩
  · exact .inl (by rwa [h, (hT.fixed hk).2.2])
  · exact .inr ⟨_, congrArg (Option.map Prod.fst) hr, not_done_of_created hG hD⟩

lemma role_of_map (h : (s.journey j).role.map Prod.fst = some k) :
    ∃ i, (s.journey j).role = some (k, i) := by
  obtain ⟨r, hr, rfl⟩ := Option.map_eq_some_iff.mp h
  exact ⟨r.2, hr⟩

lemma hopeful_step (hG : s.Grouped) (hD : s.Deed a s') (hC : s.Rescued a) (hk : k < s.groups)
    (hkind : (s.group k).kind = .goAnyWait) (hc : (s.group k).counter = 0)
    (hc' : (s'.group k).counter = 0) (hH : s.Hopeful k) : s'.Hopeful k := by
  have hS := hG.sound
  rcases hH with hlt | ⟨j, hj, hnd⟩
  · exact hopeful_of_launched hG hD hk hlt
  · obtain ⟨i, hr⟩ := role_of_map hj
    by_cases hd : s'.Done j
    · rcases Kin.done_of_deed hS hD hd with h | ⟨-, t, -, rfl | ⟨v, rfl⟩⟩
      · exact absurd h hnd
      · -- the handler throws, and somebody else is to be hoped for
        simp only [Rescued, hr] at hC
        rcases hC hkind hc with hlt | ⟨n, -, hne, hn, hnn⟩
        · exact hopeful_of_launched hG hD hk hlt
        · obtain ⟨m, hm⟩ := role_of_map hn
          refine .inr ⟨n, congrArg (Option.map Prod.fst) (Kin.role_stays hS hD hm), fun hdn => ?_⟩
          rcases Kin.done_of_deed hS hD hdn with h | ⟨-, u, -, h | ⟨v, h⟩⟩
          · exact hnn h
          · cases h
            exact hne rfl
          · cases h
      · -- the handler returns, and wins
        have hret : s.returnTo k (.ret t j v) = some (i, v) := by
          simp [returnTo, returned, hr]
        have hT := groupTurn_of_deed hS hD k
        cases hT with
        | rets _ _ i' v' _ _ _ _ _ _ h _ =>
          have hne : ((s.group k).returned i' v').counter ≠ 0 := by
            simp only [Group.returned, hkind]
            exact Group.counter_count fun _ => rfl
          rw [h] at hc'
          exact absurd hc' hne
        | same hn | opens _ _ _ _ hn | quits _ _ hn | begins _ hn | launches hn | holds _ hn
        | releases _ hn => cases hret.symm.trans hn
    · exact .inr ⟨j, congrArg (Option.map Prod.fst) (Kin.role_stays hS hD hr), hd⟩

lemma racing_step (hG : s.Grouped) (hD : s.Deed a s') (hC : s.Rescued a) (hR : s.Racing) :
    s'.Racing := by
  intro k hb hkind hc
  have hS := hG.sound
  have hT := groupTurn_of_deed hS hD k
  by_cases hnb : (s.group k).began = true
  · have hk : k < s.groups := by
      by_contra hk
      cases (hS.waits.team k (Nat.not_lt.mp hk)).symm.trans hnb
    have hkind' := (hT.fixed hk).1.symm.trans hkind
    have hc' : (s.group k).counter = 0 := by
      by_contra hne
      have ha := hT.answered hS.waits ⟨hnb, fun h => by simp [hkind'] at h, fun _ => hne⟩
      exact ha.2.2 (by simp [hkind]) hc
    exact hopeful_step hG hD hC hk hkind' hc' hc (hR k hnb hkind' hc')
  · cases hT with
    | begins j _ _ _ h =>
      rw [h] at hkind
      have hsize := hG.kin.sized k hkind
      have hzero : (s.group k).launched = 0 := by
        by_contra hne
        obtain ⟨j, hj⟩ := hG.kin.exist k 0 (by omega)
        exact hnb (hS.shares.role j k (role_relay hj))
      refine .inl ?_
      rw [h]
      simp only
      omega
    | same _ h | opens _ _ _ _ _ _ _ _ h | quits _ _ _ _ _ _ h =>
      rw [h] at hb
      exact absurd hb hnb
    | launches _ h | holds _ _ h | releases _ _ h | rets _ _ _ _ _ _ h => exact absurd h hnb

lemma inductive_racing : machine.Inductive Rescued fun s => s.Kept ∧ s.Racing := by
  refine (inductive_kept.mono fun _ _ _ => trivial).and ?_ ?_
  · rintro _ ⟨alone, rfl⟩ k hb
    cases hb
  · intro s a s' hK hR hC hs
    exact racing_step hK.grouped (deed_of_rule hK.grouped.sound (.of_step hs)) hC hR

/-- If exceptions do not leave the last handlers of `goAnyWait` before one has returned, the caller
is proceeded at most once, gets the index of the first handler that has returned, and is not left
waiting when all children have ended. -/
theorem goAnyWait_reports (h₀ : machine.init s₀) (hs : machine.exec s₀ as = some s)
    (hC : machine.Along Rescued s₀ as) (hk : (s.group k).kind = .goAnyWait) :
    proceeds k s₀ as ≤ 1 ∧
    (s.Proceeded k → ∃ r rs, returns k s₀ as = r :: rs ∧ (s.group k).index = some r.1 ∧
      r.1 < (s.group k).size ∧ ∃ j, (s.journey j).role = some (k, r.1) ∧ s.Done j) ∧
    (s.terminated = false → s.Quiet →
      (∀ j i, (s.journey j).role = some (k, i) → s.Ended j) →
      ∀ j, (s.journey j).ctx ≠ .yielded (.group k)) := by
  obtain ⟨hK, hR⟩ := inductive_racing.holds (Machine.ReachableBy.exec (.init h₀) hC hs)
  have hJ := judged h₀ hs k
  have hnot : (s.group k).kind ≠ .goWait := by simp [hk]
  refine ⟨(counted h₀ hs k).once, fun hp => ?_, fun hT hQ hend j hc => ?_⟩
  · obtain ⟨r, rs, hrs, hi⟩ := hJ.index hk ((hK.answered_of_proceeded hp).2.2 hnot)
    have hG₀ := inductive_grouped.init _ h₀
    have hrep : s.Reported k ([] ++ returns k s₀ as) := reported_run hG₀ hs (by simp [Reported])
    rw [List.nil_append, hrs] at hrep
    obtain ⟨j, hj, hd⟩ := hrep r List.mem_cons_self
    have hlt := hK.grouped.kin.role j k r.1 hj
    have hle := hK.grouped.kin.size k
    exact ⟨r, rs, hrs, hi, by omega, j, hj, hd⟩
  · obtain ⟨hb, hn⟩ := hK.waits_of_quiet hQ hc
    have hh := hK.holders_of_quiet hT hQ hend
    have hzero : (s.group k).counter = 0 := by
      by_contra hne
      exact hn ⟨hb, fun h => absurd h hnot, fun _ => hne⟩
    rcases hR k hb hk hzero with hlt | ⟨n, hrole, hnd⟩
    · have := hK.grouped.kin.loop k hb (by simp [hh])
      omega
    · obtain ⟨i, hr⟩ := role_of_map hrole
      exact hnd (hK.grouped.kin.finished n (hend n i hr))

/-- A journey calls `goAnyWait` with two handlers; the first throws, the second returns. -/
def secondWins : List Action :=
  [.go 0 (some 1), .attach (some 1), .dispatch 0 ⟨1, 1, true⟩, .request 0 1 (.group .goAnyWait 2),
    .jump 0 1, .exit 0 1 false, .launch 0 1, .launch 0 1, .launch 0 1, .finish 0 1,
    .dispatch 0 ⟨1, 2, true⟩, .throw 0 2 .std, .escape 0 2, .endCoro 0 2, .jump 0 2,
    .exit 0 2 false, .finish 0 2, .dispatch 0 ⟨1, 3, true⟩, .ret 0 3 none]

/-- The child and the caller end. -/
def allEnd : List Action :=
  [.endCoro 0 3, .jump 0 3, .exit 0 3 false, .finish 0 3, .dispatch 0 ⟨1, 1, false⟩, .leave 0 1,
    .ret 0 1 none, .endCoro 0 1, .jump 0 1, .exit 0 1 false, .finish 0 1]

theorem goAnyWait_secondWins : ∃ s, machine.exec {} secondWins = some s ∧
    proceeds 0 {} secondWins ≤ 1 ∧ (∃ r rs, returns 0 {} secondWins = r :: rs ∧
      (s.group 0).index = some r.1 ∧ r.1 < (s.group 0).size ∧
      ∃ j, (s.journey j).role = some (0, r.1) ∧ s.Done j) ∧
    ∃ s', machine.exec {} (secondWins ++ allEnd) = some s' ∧
      ∀ j, (s'.journey j).ctx ≠ .yielded (.group 0) := by
  have h₀ : machine.init {} := ⟨_, rfl⟩
  have he : machine.exec {} secondWins = some _ := rfl
  have he' : machine.exec {} (secondWins ++ allEnd) = some _ := rfl
  have hexec : ∀ s, machine.exec {} (secondWins ++ allEnd) = some s →
      ∀ t, (s.thread t).exec = none := by
    intro s hs t
    obtain rfl := Option.some_injective _ hs
    cases t <;> rfl
  obtain ⟨hle, hwin, -⟩ := goAnyWait_reports h₀ he (by decide +kernel) (k := 0) (by decide +kernel)
  obtain ⟨-, -, hnone⟩ := goAnyWait_reports h₀ he' (by decide +kernel) (k := 0) (by decide +kernel)
  refine ⟨_, he, hle, hwin (by decide +kernel), _, he', ?_⟩
  refine hnone (by decide +kernel) ⟨by decide +kernel, hexec _ he'⟩ fun j i => ?_
  exact ended_of_created h₀ he' (by decide +kernel) (0, i)

/-- When all handlers throw, the caller is left waiting. -/
theorem stranded_of_throws : ¬ ∀ (s₀ s : Runtime) (as : List Action) (k : ℕ), machine.init s₀ →
    machine.exec s₀ as = some s → (s.group k).kind = .goAnyWait → s.terminated = false →
    s.Quiet → (∀ j i, (s.journey j).role = some (k, i) → s.Ended j) →
    ∀ j, (s.journey j).ctx ≠ .yielded (.group k) := by
  intro h
  have h₀ : machine.init {} := ⟨_, rfl⟩
  have he : machine.exec {} throwsOne = some _ := rfl
  have hexec : ∀ s, machine.exec {} throwsOne = some s → ∀ t, (s.thread t).exec = none := by
    intro s hs t
    obtain rfl := Option.some_injective _ hs
    cases t <;> rfl
  refine h {} _ throwsOne 0 h₀ he (by decide +kernel) (by decide +kernel)
    ⟨by decide +kernel, hexec _ he⟩ (fun j i => ?_) 1 (by decide +kernel)
  exact ended_of_created h₀ he (by decide +kernel) (0, i)

end Runtime

end Synca
