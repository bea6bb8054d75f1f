import Synca.Relay.Custody
import Synca.Runtime.Races

/-!
# Who is left when nothing runs

The right to make a journey go on is never lost, so a journey that is left when no thread has
anything to do waits for a channel, or for children of its own, or it called `goAnyWait` and every
handler ended with an exception. Hence the counters that `waitForAll` compares are equal then unless
somebody waits for a channel or was stranded in `goAnyWait`.
-/

namespace Synca

open Transition Relay

namespace Runtime

variable {s s' : Runtime} {t j k i w : ℕ} {a : Action}

/-! ### Children are younger -/

/-- The caller of a group existed before its children. -/
structure Elder (s : Runtime) : Prop where
  born : ∀ k, (s.group k).began = true → (s.journey (s.group k).owner).log ≠ []
  older : ∀ j k i, (s.journey j).role = some (k, i) → (s.group k).owner < j

lemma elder_init (h : machine.init s) : s.Elder := by
  obtain ⟨alone, rfl⟩ := h
  exact ⟨by simp, by simp⟩

/-- A journey that has led a life was created. -/
lemma le_created_of_log (hS : s.relay.Sound) (h : (s.journey j).log ≠ []) : j ≤ s.created := by
  by_contra hj
  have hr : s.relay.runner j = {} := hS.lives.fresh j (.inr (Nat.not_le.mp hj))
  exact h (congrArg Runner.log hr)

lemma log_ne_nil_of_deed (hD : s.Deed a s') (h : (s.journey j).log ≠ []) :
    (s'.journey j).log ≠ [] := by
  obtain ⟨es, hes, -⟩ := log_of_deed hD j
  rw [hes]
  simp [h]

/-- A group that has begun was opened before. -/
lemma lt_groups_of_began (hS : s.relay.Sound) (hb : (s.group k).began = true) : k < s.groups := by
  by_contra hk
  cases (hS.waits.team k (Nat.not_lt.mp hk)).symm.trans hb

lemma Elder.step (hG : s.Grouped) (hD : s.Deed a s') (h : s.Elder) : s'.Elder := by
  have hS := hG.sound
  have howner : ∀ k, (s.group k).began = true → (s'.group k).owner = (s.group k).owner :=
    fun k hb => ((groupTurn_of_deed hS hD k).fixed (lt_groups_of_began hS hb)).2.1
  constructor
  · intro k hb
    by_cases hold : (s.group k).began = true
    · rw [howner k hold]
      exact log_ne_nil_of_deed hD (h.born k hold)
    · have hnot : (s.group k).began = false := by simpa using hold
      cases groupTurn_of_deed hS hD k with
      | begins j _ hd _ hg =>
        -- the caller has set the handler that is run
        obtain ⟨ho, -⟩ := hS.waits.prepared j _ hd
        have ho : (s.group k).owner = j := ho
        obtain ⟨l, hl⟩ := hS.lives.leads j
        have hsome : (s.relay.runner j).deferHandler.isSome = true :=
          Option.isSome_iff_exists.mpr ⟨_, hd⟩
        have hne : (s.journey j).log ≠ [] := by
          intro hnil
          rcases hl.fits.handler hsome with rfl | rfl <;>
            cases (Life.absent_iff hl.after).mpr hnil
        rw [hg]
        exact log_ne_nil_of_deed hD (ho ▸ hne)
      | opens _ _ _ _ _ _ _ _ hg | same _ hg | quits _ _ _ _ _ _ hg =>
        rw [hg] at hb
        exact absurd hb hold
      | launches _ hb' | holds _ _ hb' | releases _ _ hb' | rets _ _ _ _ _ _ hb' =>
        exact absurd hb' hold
  · intro j k i hr
    rcases Kin.role_of_deed hS hD hr with hr' | ⟨hj, -, hl, -⟩
    · have hb : (s.group k).began = true := hS.shares.role j k (role_relay hr')
      rw [howner k hb]
      exact h.older j k i hr'
    · have hb : (s.group k).began = true := by
        cases groupTurn_of_deed hS hD k with
        | launches _ hb | holds _ _ hb | releases _ _ hb | rets _ _ _ _ _ _ hb => exact hb
        | begins _ _ _ _ hg | opens _ _ _ _ _ _ _ _ hg | same _ hg | quits _ _ _ _ _ _ hg =>
          simp only [hg] at hl
          omega
      rw [howner k hb]
      have := le_created_of_log hS (h.born k hb)
      omega

/-! ### What every run keeps -/

structure Custody (s : Runtime) : Prop where
  kept : s.Kept
  held : s.relay.Held
  queued : s.relay.Queued
  elder : s.Elder
  judged : ∀ k, ∃ rs, (s.group k).Judged rs

theorem inductive_custody : machine.Inductive (fun _ _ => True) Custody where
  init s h := by
    obtain ⟨alone, rfl⟩ := h
    exact ⟨kept_init ⟨alone, rfl⟩, .init alone, .init alone, elder_init ⟨alone, rfl⟩,
      fun k => ⟨[], .init⟩⟩
  step s a s' h hC hs := by
    have hS := h.kept.grouped.sound
    have hR : Rule s a s' := .of_step hs
    have hh := hops_of_rule hR
    have hD := deed_of_rule hS hR
    refine ⟨inductive_kept.step s a s' h.kept hC hs, h.held.hops hS hh, h.queued.hops hS hh,
      h.elder.step h.kept.grouped hD, fun k => ?_⟩
    obtain ⟨rs, hJ⟩ := h.judged k
    exact ⟨_, judged_step hS (groupTurn_of_deed hS hD k) hJ⟩

/-! ### One baton for each journey -/

lemma alive_of_at (hS : s.relay.Sound) {p : Place} (h : s.relay.At p j) :
    (s.journey j).alive = true := by
  obtain ⟨l, hl, hs⟩ := hS.lives.leads_at h
  have ha : (s.journey j).alive = l.alive := hl.fits.alive
  rw [ha]
  cases p with
  | task b => cases b <;> obtain rfl := hs <;> rfl
  | running t => obtain rfl := hs; rfl
  | switched t => rcases hs with rfl | rfl <;> rfl
  | exiting t => rcases hs with ⟨rfl, -⟩ | rfl <;> rfl
  | team k | seat w | errand n => obtain ⟨rfl, -⟩ := hs; rfl

/-- A journey exists as long as its right to go on does, which is in one place: a posted task, a
thread, a group, a waiter or an operation. A waiter that is to be called is on the list of its
channel or in the hands of a thread. -/
theorem one_baton (h : machine.Reachable s) (j : ℕ) :
    ((s.journey j).alive = true ↔ ∃! p, s.relay.At p j) ∧
    ∀ w, s.relay.At (.seat w) j → ∃ q, w ∈ s.relay.queue q := by
  have hC := inductive_custody.holds h
  have hS := hC.kept.grouped.sound
  refine ⟨⟨fun ha => ?_, fun ⟨p, hp, _⟩ => alive_of_at hS hp⟩, fun w ⟨_, hw⟩ => ?_⟩
  · obtain ⟨p, hp⟩ := hC.held j ha
    exact ⟨p, hp, fun q hq => hS.lives.excl hq hp⟩
  · have hlt : w < s.relay.seats := by
      by_contra hn
      cases (hS.waits.seat w (Nat.not_lt.mp hn)).symm.trans hw
    exact hC.queued w hlt (by rw [hw]; simp)

/-- A journey waits for a channel. -/
def waitsForChannel : List Action :=
  [.go 0 (some 1), .dispatch 0 ⟨1, 1, true⟩, .get 0 1 0, .jump 0 1, .exit 0 1 false, .finish 0 1]

theorem one_baton_waitsForChannel : ∃ s, machine.exec {} waitsForChannel = some s ∧
    (∃! p, s.relay.At p 1) ∧ (∃ q, 0 ∈ s.relay.queue q) ∧ ¬ ∃! p, s.relay.At p 2 := by
  have h₀ : machine.init {} := ⟨_, rfl⟩
  have he : machine.exec {} waitsForChannel = some _ := rfl
  have hbaton := one_baton (.of_exec h₀ he)
  refine ⟨_, he, (hbaton 1).1.mp (by decide +kernel), (hbaton 1).2 0 ⟨rfl, rfl⟩, fun hp => ?_⟩
  have hno := (hbaton 2).1.mpr hp
  revert hno
  decide +kernel

/-! ### Nothing runs -/

/-- No thread has anything to do, and no operation is under way. -/
structure Still (s : Runtime) : Prop where
  quiet : s.Quiet
  calls : ∀ t, (s.thread t).call = .idle
  ios : ∀ i, (s.io i).pending = false

/-- Journey `j` waits in `get`: its waiter is on the list of the channel. -/
structure Listening (s : Runtime) (j w : ℕ) : Prop where
  owner : (s.waiter w).owner = j
  phase : (s.waiter w).phase = .armed
  listed : w ∈ (s.channel (s.waiter w).channel).waiters

/-- Every handler of a call of `goAnyWait` has ended, and none has returned. -/
structure Stranded (s : Runtime) (k : ℕ) : Prop where
  kind : (s.group k).kind = .goAnyWait
  began : (s.group k).began = true
  holders : (s.group k).holders = []
  counter : (s.group k).counter = 0

namespace Custody

/-- A group that still owes its owner a proceed has a child left, or it is stranded. -/
lemma child_of_armed (hC : s.Custody) (hT : s.terminated = false) (hQ : s.Quiet)
    (ha : (s.group k).team.Armed) :
    s.Stranded k ∨ ∃ j i, (s.journey j).role = some (k, i) ∧ (s.journey j).alive = true := by
  by_cases hend : ∀ j i, (s.journey j).role = some (k, i) → s.Ended j
  · have hh := hC.kept.holders_of_quiet hT hQ hend
    refine .inl ?_
    cases hk : (s.group k).kind with
    | goWait => exact absurd hh (ha.holders hk)
    | goAnyWait => exact ⟨hk, ha.began, hh, ha.counter (by simp [Group.team, hk])⟩
    | goAnyResult =>
      obtain ⟨rs, hJ⟩ := hC.judged k
      exact absurd (ha.counter (by simp [Group.team, hk])) (hJ.emptied hk ha.began hh)
  · push Not at hend
    obtain ⟨j, i, hr, hne⟩ := hend
    refine .inr ⟨j, i, hr, ?_⟩
    obtain ⟨l, hl⟩ := hC.kept.grouped.sound.lives.leads j
    have halive : (s.journey j).alive = l.alive := hl.fits.alive
    have habsent : l ≠ .absent := fun h =>
      hC.kept.grouped.kin.born j _ hr ((Life.absent_iff hl.after).mp h)
    have hpast : l.past = false := by
      by_contra hp
      exact hne ((Life.past_iff hl.after).mp (by simpa using hp))
    rw [halive]
    cases l with
    | absent => exact absurd rfl habsent
    | deleted => cases hpast
    | _ => rfl

/-- Who is left when nothing runs. -/
lemma waits (hC : s.Custody) (hT : s.terminated = false) (hS : s.Still)
    (ha : (s.journey j).alive = true) :
    (∃ w, s.Listening j w) ∨ ∃ k, (s.journey j).ctx = .yielded (.group k) ∧ (s.group k).owner = j ∧
      (s.Stranded k ∨ ∃ i n, (s.journey i).role = some (k, n) ∧ (s.journey i).alive = true) := by
  have hexec : ∀ t g, ¬ s.relay.Does t j g := by
    rintro t g ⟨x, hx, -⟩
    cases (hS.quiet.exec t).symm.trans hx
  obtain ⟨p, hp⟩ := hC.held j ha
  cases p with
  | task b =>
    obtain ⟨x, hx, -⟩ := hp
    rw [show s.relay.posted = [] from hS.quiet.posted] at hx
    cases hx
  | running t | switched t | exiting t => exact absurd hp (hexec t _)
  | errand n => cases (hS.ios n).symm.trans hp.2
  | team k =>
    have hr : (s.group k).team.Armed := hp.2
    have hnot : ¬ (s.group k).Answered := by
      intro hA
      by_cases hk : (s.group k).kind = .goWait
      · exact hr.holders hk (hA.2.1 hk)
      · exact hA.2.2 hk (hr.counter hk)
    have hctx := hC.kept.grouped.inCall.armed k hr.began hnot
    have ho : (s.group k).owner = j := hp.1
    rw [ho] at hctx
    exact .inr ⟨k, hctx, ho, hC.child_of_armed hT hS.quiet hr⟩
  | seat w =>
    have hw : (s.waiter w).phase = .armed := hp.2
    have hlt : w < s.relay.seats := by
      by_contra hn
      cases (hC.kept.grouped.sound.waits.seat w (Nat.not_lt.mp hn)).symm.trans hp.2
    obtain ⟨q, hq⟩ := hC.queued w hlt (by rw [hp.2]; simp)
    cases q with
    | hand t =>
      have hq : w ∈ (s.thread t).call.hand := hq
      rw [hS.calls t] at hq
      cases hq
    | line c =>
      have hch : (s.waiter w).channel = c := (hC.kept.grouped.sound.waits.listed c w hq).2.1
      exact .inl ⟨w, hp.1, hw, hch ▸ hq⟩

/-- From child to child one comes to a journey that has none. -/
lemma exists_leaf (hC : s.Custody) (hT : s.terminated = false) (hS : s.Still) :
    ∀ n j, s.created ≤ j + n → (s.journey j).alive = true →
      (∃ i w, s.Listening i w) ∨ ∃ k, s.Stranded k := by
  intro n
  induction n with
  | zero =>
    intro j hj ha
    rcases hC.waits hT hS ha with ⟨w, hw⟩ | ⟨k, -, ho, hk | ⟨i, m, hr, hi⟩⟩
    · exact .inl ⟨j, w, hw⟩
    · exact .inr ⟨k, hk⟩
    · -- there is no journey after the last
      have hlt := hC.elder.older i k m hr
      have hle : i ≤ s.created := hC.kept.grouped.sound.shares.born i (.inl hi)
      omega
  | succ n ih =>
    intro j hj ha
    rcases hC.waits hT hS ha with ⟨w, hw⟩ | ⟨k, -, ho, hk | ⟨i, m, hr, hi⟩⟩
    · exact .inl ⟨j, w, hw⟩
    · exact .inr ⟨k, hk⟩
    · have hlt := hC.elder.older i k m hr
      exact ih i (by omega) hi

end Custody

lemma Listening.alive (hS : s.relay.Sound) (h : s.Listening j w) : (s.journey j).alive = true :=
  alive_of_at hS (p := .seat w) ⟨h.owner, h.phase⟩

lemma Stranded.alive (hS : s.relay.Sound) (h : s.Stranded k) :
    (s.journey (s.group k).owner).alive = true := by
  refine alive_of_at hS (p := .team k) ⟨rfl, h.began, fun hk => ?_, fun _ => h.counter⟩
  cases h.kind.symm.trans hk

/-- When nothing runs, each journey that is left waits for a channel, or in a group call for a child
that is left as well, or it is stranded in `goAnyWait`. The counters that `waitForAll` compares are
equal then exactly if nobody waits for a channel and nobody is stranded. -/
theorem left_of_still (h : machine.Reachable s) (hT : s.terminated = false) (hS : s.Still) :
    (∀ j, (s.journey j).alive = true → (∃ w, s.Listening j w) ∨
      ∃ k, (s.journey j).ctx = .yielded (.group k) ∧ (s.group k).owner = j ∧ (s.Stranded k ∨
        ∃ i n, (s.journey i).role = some (k, n) ∧ (s.journey i).alive = true ∧ j < i)) ∧
    (s.created = s.destroyed ↔ (∀ j w, ¬ s.Listening j w) ∧ ∀ k, ¬ s.Stranded k) := by
  have hC := inductive_custody.holds h
  have hsound := hC.kept.grouped.sound
  have hcount : s.created = s.destroyed + s.living.card := hsound.tallied.count
  refine ⟨fun j ha => ?_, ⟨fun he => ⟨fun j w hw => ?_, fun k hk => ?_⟩, fun ⟨hl, hs⟩ => ?_⟩⟩
  · refine (hC.waits hT hS ha).imp id ?_
    rintro ⟨k, hc, ho, hk | ⟨i, n, hr, hi⟩⟩
    · exact ⟨k, hc, ho, .inl hk⟩
    · exact ⟨k, hc, ho, .inr ⟨i, n, hr, hi, ho ▸ hC.elder.older i k n hr⟩⟩
  · have hpos := Finset.card_pos.mpr ⟨j, (mem_living hsound).mpr (hw.alive hsound)⟩
    omega
  · have hpos := Finset.card_pos.mpr ⟨_, (mem_living hsound).mpr (hk.alive hsound)⟩
    omega
  · have hempty : s.living = ∅ := by
      rw [Finset.eq_empty_iff_forall_notMem]
      intro j hj
      rcases hC.exists_leaf hT hS s.created j (by omega) ((mem_living hsound).mp hj) with
        ⟨i, w, hw⟩ | ⟨k, hk⟩
      · exact hl i w hw
      · exact hs k hk
    rw [hcount, hempty]
    rfl

lemma still_waitsForChannel (hs : machine.exec {} waitsForChannel = some s) :
    s.Still ∧ s.Listening 1 0 ∧ s.terminated = false := by
  obtain rfl := Option.some_injective _ hs
  refine ⟨⟨⟨rfl, fun t => ?_⟩, fun t => ?_, fun i => rfl⟩, ⟨rfl, rfl, ?_⟩, rfl⟩
  · cases t <;> rfl
  · cases t <;> rfl
  · decide +kernel

theorem left_of_still_waitsForChannel : ∃ s, machine.exec {} waitsForChannel = some s ∧
    s.Listening 1 0 ∧ s.created ≠ s.destroyed := by
  have h₀ : machine.init {} := ⟨_, rfl⟩
  have he : machine.exec {} waitsForChannel = some _ := rfl
  obtain ⟨hS, hL, hT⟩ := still_waitsForChannel he
  refine ⟨_, he, hL, fun hc => ?_⟩
  exact ((left_of_still (.of_exec h₀ he) hT hS).2.mp hc).1 1 0 hL

end Runtime

end Synca
