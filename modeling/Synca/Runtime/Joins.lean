import Synca.Runtime.House

/-!
# The call goWait joins its handlers

A group of `goWait` is answered by the deleter of its shared pointer, so when the last copy is gone.
The caller is proceeded once, after the loop and every handler of the list have ended, and nobody
is left waiting when all of them have.
-/

namespace Synca

open Transition Relay

namespace Runtime

variable {s s' s₀ : Runtime} {t j k i : ℕ} {a : Action} {as : List Action}

/-! ### Every run -/

structure Kept (s : Runtime) : Prop where
  grouped : s.Grouped
  house : s.clan.House
  backed : s.terminated = false → s.clan.Backed

lemma kept_init (h : machine.init s) : s.Kept := by
  obtain ⟨alone, rfl⟩ := h
  refine ⟨inductive_grouped.init _ ⟨alone, rfl⟩, ?_, fun _ => ?_⟩
  · exact ⟨by simp [clan, Journey.member], by simp [clan, Journey.member],
      by simp [clan, Journey.member]⟩
  · exact ⟨by simp [clan], by simp [clan]⟩

theorem inductive_kept : machine.Inductive (fun _ _ => True) Kept where
  init _ := kept_init
  step s a s' h hC hs := by
    have hD := deed_of_rule h.grouped.sound (.of_step hs)
    exact ⟨inductive_grouped.step s a s' h.grouped hC hs,
      house_of_deed h.grouped.sound hD h.house,
      fun hT => backed_of_deed h.grouped hD hT (h.backed (live_of_step hs))⟩

/-! ### Groups without holders -/

/-- No task is queued, and no thread executes one. -/
structure Quiet (s : Runtime) : Prop where
  posted : s.posted = []
  exec : ∀ t, (s.thread t).exec = none

namespace Kept

/-- A child that has not ended has a copy of the pointer. -/
lemma ended (hK : s.Kept) (hh : (s.group k).holders = []) (hr : (s.journey j).role = some (k, i)) :
    s.Ended j := by
  have hS := hK.grouped.sound
  have hnot : ∀ h, ¬ s.relay.Claims k h := by
    intro h hc
    have hm : h ∈ (s.group k).holders := hS.shares.claims k h hc
    rw [hh] at hm
    cases hm
  obtain ⟨l, hl⟩ := hS.lives.leads j
  refine (Life.past_iff hl.after).mp ?_
  have hstarted : l.started = false := by
    rw [← hl.fits.started]
    by_contra hs
    exact hnot (.coro j) ⟨role_relay hr, by simpa using hs⟩
  have hcreated : l ≠ .created := by
    intro h
    obtain ⟨x, hx, hj, hs⟩ := hK.house.created j ((Life.created_iff hl.after).mp h)
    exact hnot (.task j) ⟨role_relay hr, none, x, hx, hj, hs⟩
  have habsent : l ≠ .absent := fun h =>
    hK.grouped.kin.born j _ hr ((Life.absent_iff hl.after).mp h)
  cases l with
  | absent => exact absurd rfl habsent
  | created => exact absurd rfl hcreated
  | running | yielding | suspended | proceeded => cases hstarted
  | finishing | finished | deleted => rfl

lemma no_loop (hK : s.Kept) (hh : (s.group k).holders = []) (t j : ℕ) :
    s.stage t j ≠ some (.loop k) := by
  intro h
  have hm := (mem_loop hK.grouped.sound h).2
  rw [hh] at hm
  cases hm

/-- When all is quiet, a group whose children have ended has no holders. -/
lemma holders_of_quiet (hK : s.Kept) (hT : s.terminated = false) (hQ : s.Quiet)
    (hend : ∀ j i, (s.journey j).role = some (k, i) → s.Ended j) : (s.group k).holders = [] := by
  rw [List.eq_nil_iff_forall_not_mem]
  intro h hm
  have hexec : ∀ t, s.clan.exec t = none := hQ.exec
  have hposted : ∀ p, p ∉ s.clan.posted := by
    rintro p ⟨x, hx, -⟩
    rw [hQ.posted] at hx
    cases hx
  have hb := (hK.backed hT).backs k h hm
  cases h with
  | loop =>
    obtain ⟨t, x, hx, -⟩ := hb
    cases (hexec t).symm.trans hx
  | task j =>
    obtain ⟨-, hp | ⟨t, x, hx, -⟩⟩ := hb
    · exact hposted _ hp
    · cases (hexec t).symm.trans hx
  | coro j =>
    obtain ⟨⟨i, hi⟩, hs⟩ := hb
    obtain ⟨l, hl⟩ := hK.grouped.sound.lives.leads j
    have hover := (Life.past_iff hl.after).mpr (hend j i hi)
    have hstart : l.started = true := hl.fits.started.symm.trans hs
    cases (Life.not_started_of_past hover).symm.trans hstart

/-- When all is quiet, a journey in the call of a group waits for the group to answer. -/
lemma waits_of_quiet (hK : s.Kept) (hQ : s.Quiet)
    (hc : (s.journey j).ctx = .yielded (.group k)) :
    (s.group k).began = true ∧ ¬ (s.group k).Answered := by
  have hI := hK.grouped.inCall
  refine ⟨hI.began j k hc ?_, fun ha => ?_⟩
  · by_contra hd
    obtain ⟨t, x, hx, -⟩ := hK.house.attended j hd
    cases (hQ.exec t).symm.trans hx
  · obtain ⟨x, hx, -⟩ := hK.house.proceeded j (hI.proceeded j k hc ha)
    rw [hQ.posted] at hx
    cases hx

end Kept

/-! ### One proceed for each call -/

/-- How often a step proceeds the caller of group `k` out of the call. -/
def proceeding (k : ℕ) (s s' : Runtime) : ℕ :=
  let j := (s.group k).owner
  if (s.journey j).ctx = .yielded (.group k) then
    (s'.journey j).log.count .proceed - (s.journey j).log.count .proceed
  else 0

/-- How often a run does. -/
def proceeds (k : ℕ) : Runtime → List Action → ℕ
  | _, []      => 0
  | s, a :: as => match machine.step s a with
    | some s' => proceeding k s s' + proceeds k s' as
    | none    => 0

/-- The caller of group `k` was proceeded `n` times. -/
structure Counted (s : Runtime) (k n : ℕ) : Prop where
  once : n ≤ 1
  answered : n = 1 ↔ (s.group k).Answered

lemma counted_init (h : machine.init s) (k : ℕ) : s.Counted k 0 := by
  obtain ⟨alone, rfl⟩ := h
  exact ⟨Nat.zero_le _, by simp [Group.Answered]⟩

/-- A caller that is proceeded out of its call is proceeded by the group, and the group answers. -/
lemma answered_of_proceeding (hG : s.Grouped) (hG' : s'.Grouped) (hD : s.Deed a s')
    (hc : (s.journey (s.group k).owner).ctx = .yielded (.group k))
    (hne : ¬ s.relay.Leads (s.group k).owner .proceeded)
    (hlast : (s'.journey (s.group k).owner).log.getLast? = some .proceed) :
    (s'.group k).Answered := by
  obtain ⟨l, hl⟩ := hG'.sound.lives.leads (s.group k).owner
  obtain rfl : l = .proceeded := (Life.proceeded_iff hl.after).mpr hlast
  refine hG'.inCall.answered (j := (s.group k).owner) ?_ hl
  have hctx : ∀ {m : Member}, s'.bare (s.group k).owner = m →
      (s'.journey (s.group k).owner).ctx = m.ctx := fun h => congrArg Member.ctx h
  cases memberTurn_of_deed hG.sound hD (s.group k).owner with
  | same h | creates _ h | launches _ _ _ _ _ _ _ _ h | answers _ _ _ h => exact (hctx h).trans hc
  | starts hl _ =>
    have hhere := hl.fits.away.mp (congrArg Ctx.whereabouts hc)
    cases hhere
  | resumes _ hl _ _ => exact absurd hl hne
  | goes x _ hc' _ =>
    rw [hc] at hc'
    rcases hc' with h | ⟨i, h⟩ | ⟨op, h, -⟩ <;> cases h
  | yields _ hc' _ _ | leaves _ _ _ hc' _ | closes _ _ _ hc' _ | ends hc' _ =>
    cases hc.symm.trans hc'

/-- A step from one count to the next. -/
lemma Counted.step {n : ℕ} (h : s.Counted k n) (hG : s.Grouped) (hG' : s'.Grouped)
    (hD : s.Deed a s') : s'.Counted k (n + proceeding k s s') := by
  have hS := hG.sound
  have hT := groupTurn_of_deed hS hD k
  obtain ⟨l, hl⟩ := hS.lives.leads (s.group k).owner
  obtain ⟨es, l', hlog, hr, hafter⟩ := after_of_deed hG'.sound hD hl
  have hcount : (s.journey (s.group k).owner).ctx = .yielded (.group k) →
      proceeding k s s' = es.count .proceed := by
    intro hc
    unfold proceeding
    simp only
    rw [if_pos hc, hlog, List.count_append]
    omega
  have hle := h.once
  by_cases ha : (s.group k).Answered
  · have hn : n = 1 := h.answered.mpr ha
    have hzero : proceeding k s s' = 0 := by
      by_cases hc : (s.journey (s.group k).owner).ctx = .yielded (.group k)
      · have hlast := hG.inCall.proceeded _ k hc ha
        obtain rfl : l = .proceeded := (Life.proceeded_iff hl.after).mpr hlast
        rw [hcount hc]
        by_cases hres : LifeEvent.resume ∈ es
        · rw [(hr hres).1]
          rfl
        · rw [Life.proceeded_after hafter hres]
          rfl
      · unfold proceeding
        simp only
        rw [if_neg hc]
    rw [hzero, hn]
    exact ⟨le_rfl, fun _ => hT.answered hS.waits ha, fun _ => rfl⟩
  · have hn : n = 0 := by
      by_contra hn
      exact ha (h.answered.mp (by omega))
    rw [hn, Nat.zero_add]
    by_cases hc : (s.journey (s.group k).owner).ctx = .yielded (.group k)
    · have hne : l ≠ .proceeded := by
        rintro rfl
        exact ha (hG.inCall.answered hc hl)
      have hnl : ¬ s.relay.Leads (s.group k).owner .proceeded := by
        intro hl'
        exact hne (Option.some_injective _ (hl.after.symm.trans hl'.after))
      have haway : l.away = true := hl.fits.away.mp (congrArg Ctx.whereabouts hc)
      have hres : LifeEvent.resume ∉ es := by
        intro hres
        rw [(hr hres).1] at hafter
        exact hne (Life.proceeded_of_resume hafter)
      rw [hcount hc]
      rcases Life.proceeds_once haway hafter hres with ⟨h0, -⟩ | ⟨h1, -, hlast⟩
      · rw [h0]
        refine ⟨Nat.zero_le _, fun h => ?_, fun ha' => ?_⟩
        · cases h
        · -- the group answers now, so the last event is a `proceed`
          obtain ⟨-, hlast⟩ := hT.newly hS ha ha'
          rcases List.eq_nil_or_concat es with rfl | ⟨ds, e, rfl⟩
          · rw [hlog, List.append_nil] at hlast
            exact absurd ((Life.proceeded_iff hl.after).mpr hlast) hne
          · rw [hlog, List.concat_eq_append, ← List.append_assoc, List.getLast?_concat] at hlast
            rw [Option.some_injective _ hlast, List.concat_eq_append, List.count_append] at h0
            simp at h0
      · rw [h1]
        refine ⟨le_rfl, fun _ => ?_, fun _ => rfl⟩
        refine answered_of_proceeding hG hG' hD hc hnl ?_
        rw [hlog, List.getLast?_append, hlast]
        rfl
    · have hzero : proceeding k s s' = 0 := by
        unfold proceeding
        simp only
        rw [if_neg hc]
      rw [hzero]
      refine ⟨Nat.zero_le _, fun h => ?_, fun ha' => ?_⟩
      · cases h
      · exact absurd (hG.inCall.armed k (hT.newly hS ha ha').1 ha) hc

lemma Counted.run {n : ℕ} (h : s₀.Counted k n) (hG : s₀.Grouped)
    (hs : machine.exec s₀ as = some s) : s.Counted k (n + proceeds k s₀ as) := by
  induction as generalizing s₀ n with
  | nil =>
    obtain rfl : s₀ = s := Option.some_injective _ hs
    exact h
  | cons a as ih =>
    obtain ⟨s', ha, hs⟩ := Option.bind_eq_some_iff.mp hs
    have hG' := inductive_grouped.step _ _ _ hG trivial ha
    have hD := deed_of_rule hG.sound (.of_step ha)
    have hrun := ih (h.step hG hG' hD) hG' hs
    rwa [proceeds, ha, ← Nat.add_assoc]

/-- The caller of a group is proceeded at most once out of its call, namely when the group
answers. -/
theorem counted (h₀ : machine.init s₀) (hs : machine.exec s₀ as = some s) (k : ℕ) :
    s.Counted k (proceeds k s₀ as) := by
  have h := (counted_init h₀ k).run (inductive_grouped.init _ h₀) hs
  rwa [Nat.zero_add] at h

/-! ### The join -/

/-- The caller of group `k` was proceeded, and may still be on its way out of the call. -/
def Proceeded (s : Runtime) (k : ℕ) : Prop :=
  let x := s.journey (s.group k).owner
  (x.ctx = .yielded (.group k) ∧ x.log.getLast? = some .proceed) ∨ x.ctx = .resumed (.group k)

instance (s : Runtime) (k : ℕ) : Decidable (s.Proceeded k) := inferInstanceAs (Decidable (_ ∨ _))

/-- The launch loop of group `k` is over, and so is every handler of the list. -/
structure Joined (s : Runtime) (k : ℕ) : Prop where
  launched : (s.group k).launched = (s.group k).size
  loop : ∀ t j, s.stage t j ≠ some (.loop k)
  ended : ∀ i < (s.group k).size, ∃ j, (s.journey j).role = some (k, i) ∧ s.Ended j

/-- Nobody uses the handlers of group `k`. -/
structure Unused (s : Runtime) (k : ℕ) : Prop where
  loop : ∀ t j, s.stage t j ≠ some (.loop k)
  ended : ∀ j i, (s.journey j).role = some (k, i) → s.Ended j

namespace Kept

lemma answered_of_proceeded (hK : s.Kept) (h : s.Proceeded k) : (s.group k).Answered := by
  rcases h with ⟨hc, hl⟩ | hc
  · obtain ⟨l, hlead⟩ := hK.grouped.sound.lives.leads (s.group k).owner
    obtain rfl : l = .proceeded := (Life.proceeded_iff hlead.after).mpr hl
    exact hK.grouped.inCall.answered hc hlead
  · exact hK.grouped.inCall.resumed _ k hc

/-- A group without holders has launched all its children, and all have ended. -/
lemma joined (hK : s.Kept) (hb : (s.group k).began = true) (hh : (s.group k).holders = []) :
    s.Joined k := by
  have hsize : (s.group k).launched = (s.group k).size :=
    hK.grouped.kin.loop k hb (by simp [hh])
  refine ⟨hsize, hK.no_loop hh, fun i hi => ?_⟩
  obtain ⟨j, hj⟩ := hK.grouped.kin.exist k i (hsize ▸ hi)
  exact ⟨j, hj, hK.ended hh hj⟩

/-- A call of `goWait` that was left leaves nothing behind. -/
lemma unused (hK : s.Kept) (hk : (s.group k).kind = .goWait) (hl : (s.group k).left = true) :
    s.Unused k := by
  rcases hK.grouped.inCall.left k hl with hb | ⟨-, hw, -⟩
  · constructor
    · intro t j h
      cases hb.symm.trans (mem_loop hK.grouped.sound h).1
    · intro j i hr
      have hb' : (s.group k).began = true := hK.grouped.sound.shares.role j k (role_relay hr)
      cases hb.symm.trans hb'
  · exact ⟨hK.no_loop (hw hk), fun j i => hK.ended (hw hk)⟩

end Kept

/-- The call stays left. -/
lemma left_of_step (hG : s.Grouped) (hs : machine.step s a = some s')
    (hl : (s.group k).left = true) :
    (s'.group k).left = true ∧ (s'.group k).kind = (s.group k).kind := by
  have hk : k < s.groups := by
    by_contra hk
    rw [hG.inCall.fresh k (Nat.not_lt.mp hk)] at hl
    cases hl
  have hT := groupTurn_of_deed hG.sound (deed_of_rule hG.sound (.of_step hs)) k
  refine ⟨?_, (hT.fixed hk).1⟩
  cases hT with
  | opens _ _ _ _ _ hg => exact absurd hg hk.ne
  | quits _ _ _ _ _ _ h => rw [h]
  | releases x _ _ _ _ h _ => rw [h, Group.sameCall_released.left, hl]
  | rets t i n v _ _ _ _ _ _ h _ => rw [h, Group.sameCall_returned.left, hl]
  | same _ h | begins _ _ _ _ h | launches _ _ _ _ _ h | holds _ _ _ _ h =>
    rw [h]
    exact hl

lemma left_of_exec (hG : s.Grouped) (hs : machine.exec s as = some s')
    (hl : (s.group k).left = true) :
    (s'.group k).left = true ∧ (s'.group k).kind = (s.group k).kind := by
  induction as generalizing s with
  | nil =>
    obtain rfl : s = s' := Option.some_injective _ hs
    exact ⟨hl, rfl⟩
  | cons a as ih =>
    obtain ⟨u, hu, hs⟩ := Option.bind_eq_some_iff.mp hs
    obtain ⟨hlu, hku⟩ := left_of_step hG hu hl
    obtain ⟨hl', hk'⟩ := ih (inductive_grouped.step _ _ _ hG trivial hu) hs hlu
    exact ⟨hl', hk'.trans hku⟩

/-- Each call of `goWait` is a join: its caller is proceeded at most once, and only when the
handlers have ended; nobody uses the handlers when the call is left; and when all children have
ended and all is quiet, nobody is left waiting. -/
theorem goWait_joins :
    (∀ (s₀ s : Runtime) (as : List Action) (k : ℕ), machine.init s₀ →
      machine.exec s₀ as = some s → proceeds k s₀ as ≤ 1) ∧
    ∀ s : Runtime, machine.Reachable s →
      (∀ k, (s.group k).kind = .goWait → s.Proceeded k → s.Joined k) ∧
      (∀ k as s', (s.group k).kind = .goWait → (s.group k).left = true →
        machine.exec s as = some s' → s'.Unused k) ∧
      (s.terminated = false → s.Quiet →
        (∀ j r, (s.journey j).role = some r → s.Ended j) →
        ∀ j k, (s.journey j).ctx = .yielded (.group k) → (s.group k).kind ≠ .goWait) := by
  refine ⟨fun s₀ s as k h₀ hs => (counted h₀ hs k).once, fun s hr => ?_⟩
  have hK := inductive_kept.holds hr
  refine ⟨fun k hk hp => ?_, fun k as s' hk hl hs => ?_, fun hT hQ hend j k hc hk => ?_⟩
  · have ha := hK.answered_of_proceeded hp
    exact hK.joined ha.1 (ha.2.1 hk)
  · obtain ⟨hl', hk'⟩ := left_of_exec hK.grouped hs hl
    have hK' := inductive_kept.holds (hr.exec (Machine.along_true s as) hs)
    exact hK'.unused (hk'.trans hk) hl'
  · obtain ⟨hb, hn⟩ := hK.waits_of_quiet hQ hc
    have hh := hK.holders_of_quiet (k := k) hT hQ fun i n hr => hend i (k, n) hr
    exact hn ⟨hb, fun _ => hh, fun h => absurd hk h⟩

/-- A journey calls `goWait` with two handlers, which both end. -/
def joinsTwo : List Action :=
  [.go 0 (some 1), .attach (some 1), .dispatch 0 ⟨1, 1, true⟩, .request 0 1 (.group .goWait 2),
    .jump 0 1, .exit 0 1 false, .launch 0 1, .launch 0 1, .launch 0 1, .finish 0 1,
    .dispatch 0 ⟨1, 2, true⟩, .ret 0 2 none, .endCoro 0 2, .jump 0 2, .exit 0 2 false, .finish 0 2,
    .dispatch 0 ⟨1, 3, true⟩, .throw 0 3 .std, .escape 0 3, .endCoro 0 3, .jump 0 3,
    .exit 0 3 false, .finish 0 3]

/-- The caller goes on. -/
def leavesTwo : List Action := [.dispatch 0 ⟨1, 1, false⟩, .leave 0 1]

/-- A journey calls `goAnyWait` with one handler, which throws. -/
def throwsOne : List Action :=
  [.go 0 (some 1), .attach (some 1), .dispatch 0 ⟨1, 1, true⟩, .request 0 1 (.group .goAnyWait 1),
    .jump 0 1, .exit 0 1 false, .launch 0 1, .launch 0 1, .finish 0 1, .dispatch 0 ⟨1, 2, true⟩,
    .throw 0 2 .std, .escape 0 2, .endCoro 0 2, .jump 0 2, .exit 0 2 false, .finish 0 2]

/-- In a given state, only the journeys that exist are children. -/
lemma ended_of_created (h₀ : machine.init s₀) (h : machine.exec s₀ as = some s)
    (hall : ∀ j ≤ s.created, (s.journey j).role ≠ none → s.Ended j) (r : ℕ × ℕ)
    (hr : (s.journey j).role = some r) : s.Ended j := by
  refine hall j ?_ (by simp [hr])
  by_contra hj
  have hS := inductive_sound.holds (Machine.Reachable.of_exec h₀ h)
  cases (Kin.role_fresh hS (Nat.not_le.mp hj)).symm.trans hr

theorem goWait_joins_two : ∃ s s' s'', machine.exec {} joinsTwo = some s ∧
    proceeds 0 {} joinsTwo ≤ 1 ∧ s.Joined 0 ∧
    machine.exec {} (joinsTwo ++ leavesTwo) = some s' ∧ s'.Unused 0 ∧
    machine.exec {} throwsOne = some s'' ∧ (s''.group 0).kind ≠ .goWait := by
  have h₀ : machine.init {} := ⟨_, rfl⟩
  have he : machine.exec {} joinsTwo = some _ := rfl
  have he' : machine.exec {} (joinsTwo ++ leavesTwo) = some _ := rfl
  have he'' : machine.exec {} throwsOne = some _ := rfl
  have hexec : ∀ s, machine.exec {} throwsOne = some s → ∀ t, (s.thread t).exec = none := by
    intro s hs t
    obtain rfl := Option.some_injective _ hs
    cases t <;> rfl
  refine ⟨_, _, _, he, goWait_joins.1 _ _ _ 0 h₀ he,
    (goWait_joins.2 _ (.of_exec h₀ he)).1 0 (by decide) (by decide), he',
    (goWait_joins.2 _ (.of_exec h₀ he')).2.1 0 [] _ (by decide) (by decide) rfl, he'', ?_⟩
  exact (goWait_joins.2 _ (.of_exec h₀ he'')).2.2 rfl ⟨rfl, hexec _ he''⟩
    (fun j r => ended_of_created h₀ he'' (by decide) r) 1 0 (by decide)

end Runtime

end Synca
