import Synca.Collector.Machine
import Synca.Runtime.Faults

/-!
# What is collected, and when

The reverse loop deletes what was allocated before it began, the last object first. It does not see
what destructors allocate while it runs, and it begins after the journey was counted.
-/

namespace Synca

open Transition Relay

namespace Collector

variable {s s' : Collector} {t j i : ℕ} {a : Action} {b : Runtime.Action} {rt : Runtime}

/-- The objects of journey `j` are deleted in time: all of them before the journey is counted, so
that none is left when `waitForAll` has returned. -/
structure InTime (s : Collector) (j : ℕ) : Prop where
  collected : Collected (s.history j)
  waited : ∀ mark, s.pc = .returned mark → left [] (s.history j) = some []

/-- What is deleted, how often and in which order. -/
structure Accounted (s : Collector) : Prop where
  after : ∀ j o, .free o ∈ s.history j → s.rt.Ended j
  typed : ∀ j o, .free o ∈ s.history j → .alloc o ∈ s.history j
  once : ∀ j, (frees (s.history j)).Nodup
  unique : ∀ j j' o o', .alloc o ∈ s.history j → .alloc o' ∈ s.history j' →
    o.address = o'.address → j = j' ∧ o = o'
  /-- The loop goes on. -/
  goes : ∀ j n c, s.rt.terminated = false → s.dangling = false → s.loop j = some ⟨n + 1, c⟩ →
    ∃ s', step s (.free j) = some s'
  /-- When the loop is over, all is deleted in reverse order exactly if no destructor has allocated
  anything meanwhile. -/
  reversed : ∀ j, .count ∈ s.history j → s.loop j = none →
    (Emptied (s.history j) ↔ ClosedByCount (s.history j))

/-! ### The journeys of the runtime -/

lemma deletes_eq_some (h : Deletes s.rt b = some j) :
    ∃ t fails, b = .exit t j fails ∧ (s.rt.journey j).deferHandler = none := by
  cases b with
  | exit t i fails =>
    simp only [Deletes, Option.ite_none_right_eq_some, Option.some.injEq] at h
    obtain ⟨hd, rfl⟩ := h
    exact ⟨t, fails, rfl, hd⟩
  | _ => cases h

lemma leads_of_deleted (hS : rt.relay.Sound) (h : LifeEvent.delete ∈ (rt.journey j).log) :
    rt.relay.Leads j .deleted := by
  obtain ⟨l, hl⟩ := hS.lives.leads j
  have hcount := Runtime.count_delete hl.after
  split_ifs at hcount with hd
  · exact hd ▸ hl
  · exact absurd h (List.count_eq_zero.mp hcount)

lemma ended_of_deleted (hS : rt.relay.Sound) (h : LifeEvent.delete ∈ (rt.journey j).log) :
    rt.Ended j :=
  (Life.past_iff (leads_of_deleted hS h).after).mp rfl

lemma not_deleted_of_stage (hS : rt.relay.Sound) {g : Stage} (h : rt.stage t j = some g)
    (hg : g = .running ∨ g = .exiting) : LifeEvent.delete ∉ (rt.journey j).log := by
  intro hd
  have hl := leads_of_deleted hS hd
  rcases hg with rfl | rfl
  · have := hl.suits (.running t) (does_iff_stage.mpr h)
    cases this
  · rcases hl.suits (.exiting t) (does_iff_stage.mpr h) with h | h
    · cases h.1
    · cases h

lemma delete_stays (hS : s.rt.relay.Sound) (h : s.rt.step b = some rt)
    (hd : LifeEvent.delete ∈ (s.rt.journey j).log) : LifeEvent.delete ∈ (rt.journey j).log := by
  obtain ⟨es, hes, -⟩ := Runtime.log_of_deed (Runtime.deed_of_rule hS (.of_step h)) j
  rw [hes]
  exact List.mem_append_left _ hd

/-! ### Where the objects of a journey are -/

/-- The journey allocates, the loop runs, or it is over. -/
inductive Phase (s : Collector) (j : ℕ) : Prop where
  | filling (hl : s.loop j = none) (hh : s.history j = (s.deleters j).map .alloc)
  | looping (x : GcLoop) (old ins : List Object) (tail : List (HeapEvent Object))
      (hl : s.loop j = some x) (hd : s.deleters j = old ++ ins) (hn : x.next ≤ old.length)
      (hh : Swept old x.next ins (s.history j) tail)
      (he : LifeEvent.delete ∈ (s.rt.journey j).log)
  | finished (old ins : List Object) (tail : List (HeapEvent Object)) (hl : s.loop j = none)
      (hh : Swept old 0 ins (s.history j) tail) (he : LifeEvent.delete ∈ (s.rt.journey j).log)

namespace Phase

/-- The collector of the journey is left alone. -/
lemma same (h : s.Phase j) (hl : s'.loop j = s.loop j) (hd : s'.deleters j = s.deleters j)
    (hh : s'.history j = s.history j) (he : LifeEvent.delete ∈ (s.rt.journey j).log →
      LifeEvent.delete ∈ (s'.rt.journey j).log) : s'.Phase j := by
  cases h with
  | filling hl' hh' => exact .filling (hl.trans hl') (by rw [hh, hd, hh'])
  | looping x old ins tail hl' hd' hn hh' he' =>
    exact .looping x old ins tail (hl.trans hl') (hd.trans hd') hn (hh ▸ hh') (he he')
  | finished old ins tail hl' hh' he' =>
    exact .finished old ins tail (hl.trans hl') (hh ▸ hh') (he he')

lemma add (h : s.Phase j) (hn : LifeEvent.delete ∉ (s.rt.journey j).log) (ty i : ℕ)
    (hi : s.Phase i) : (s.add j ty).Phase i := by
  by_cases hij : i = j
  · subst hij
    cases h with
    | filling hl hh =>
      refine .filling hl ?_
      simp [Collector.add, record, hh]
    | looping x old ins tail hl hd hn' hh he => exact absurd he hn
    | finished old ins tail hl hh he => exact absurd he hn
  · refine hi.same rfl ?_ ?_ id
    · exact Function.update_of_ne hij _ _
    · exact Function.update_of_ne hij _ _

lemma beginLoop (h : s.Phase j) (hn : LifeEvent.delete ∉ (s.rt.journey j).log)
    (he : LifeEvent.delete ∈ (rt.journey j).log)
    (hstay : ∀ i, LifeEvent.delete ∈ (s.rt.journey i).log → LifeEvent.delete ∈ (rt.journey i).log)
    (hi : s.Phase i) : ({ s.beginLoop j with rt := rt } : Collector).Phase i := by
  by_cases hij : i = j
  · subst hij
    cases h with
    | filling hl hh =>
      refine .looping { next := (s.deleters i).length } (s.deleters i) [] [] ?_ ?_ le_rfl ?_ he
      · exact Function.update_self _ _ _
      · exact (List.append_nil _).symm
      · simp only [Collector.beginLoop, record, Function.update_self, hh]
        exact .init _
    | looping x old ins tail hl hd hn' hh he' => exact absurd he' hn
    | finished old ins tail hl hh he' => exact absurd he' hn
  · refine hi.same ?_ rfl ?_ (hstay i)
    · exact Function.update_of_ne hij _ _
    · exact Function.update_of_ne hij _ _

lemma free (h : s.Phase j) {n : ℕ} {c : Bool} {o : Object} (hl : s.loop j = some ⟨n + 1, c⟩)
    (ho : (s.deleters j)[n]? = some o) (hi : s.Phase i) : (s.free j n o).Phase i := by
  by_cases hij : i = j
  · subst hij
    cases h with
    | filling hl' hh => cases hl.symm.trans hl'
    | finished old ins tail hl' hh he => cases hl.symm.trans hl'
    | looping x old ins tail hl' hd hn hh he =>
      obtain rfl := Option.some_injective _ (hl'.symm.trans hl)
      have hlt : n < old.length := hn
      rw [hd, List.getElem?_append_left hlt] at ho
      refine .looping { next := n, calling := true } old ins (tail ++ [.free o]) ?_ hd hlt.le ?_ he
      · exact Function.update_self _ _ _
      · simp only [Collector.free, record, Function.update_self]
        exact hh.free ho
  · refine hi.same ?_ rfl ?_ id
    · exact Function.update_of_ne hij _ _
    · exact Function.update_of_ne hij _ _

lemma addInside (h : s.Phase j) {x : GcLoop} (hl : s.loop j = some x) (ty : ℕ) (g : Bool)
    (hi : s.Phase i) : (s.addInside j ty g).Phase i := by
  by_cases hij : i = j
  · subst hij
    cases h with
    | filling hl' hh => cases hl.symm.trans hl'
    | finished old ins tail hl' hh he => cases hl.symm.trans hl'
    | looping y old ins tail hl' hd hn hh he =>
      refine .looping y old (ins ++ [⟨s.allocated, ty⟩]) (tail ++ [.alloc ⟨s.allocated, ty⟩]) hl' ?_
        hn ?_ he
      · simp [Collector.addInside, Collector.add, hd]
      · simp only [Collector.addInside, Collector.add, record, Function.update_self]
        exact hh.alloc _
  · refine hi.same rfl ?_ ?_ id
    · exact Function.update_of_ne hij _ _
    · exact Function.update_of_ne hij _ _

lemma endLoop (h : s.Phase j) {c : Bool} (hl : s.loop j = some ⟨0, c⟩) (hi : s.Phase i) :
    (s.endLoop j).Phase i := by
  by_cases hij : i = j
  · subst hij
    cases h with
    | filling hl' hh => cases hl.symm.trans hl'
    | finished old ins tail hl' hh he => cases hl.symm.trans hl'
    | looping x old ins tail hl' hd hn hh he =>
      obtain rfl := Option.some_injective _ (hl'.symm.trans hl)
      exact .finished old ins tail (Function.update_self _ _ _) hh he
  · refine hi.same ?_ ?_ rfl id
    · exact Function.update_of_ne hij _ _
    · exact Function.update_of_ne hij _ _

end Phase

/-! ### Which object is which -/

/-- An address is given out once. -/
structure Addressed (s : Collector) : Prop where
  bound : ∀ j, ∀ o ∈ allocs (s.history j), o.address < s.allocated
  unique : ∀ j j', ∀ o ∈ allocs (s.history j), ∀ o' ∈ allocs (s.history j'),
    o.address = o'.address → j = j' ∧ o = o'
  nodup : ∀ j, (allocs (s.history j)).Nodup

namespace Addressed

lemma of_eq (h : s.Addressed) (ha : s'.allocated = s.allocated)
    (hh : ∀ j, allocs (s'.history j) = allocs (s.history j)) : s'.Addressed where
  bound j o ho := by
    rw [ha]
    exact h.bound j o (hh j ▸ ho)
  unique j j' o ho o' ho' := h.unique j j' o (hh j ▸ ho) o' (hh j' ▸ ho')
  nodup j := hh j ▸ h.nodup j

lemma record (h : s.Addressed) (j : ℕ) {e : HeapEvent Object} (he : allocs [e] = []) :
    (s.record j e).Addressed := by
  refine h.of_eq rfl fun i => ?_
  simp only [Collector.record, Function.update_apply]
  split_ifs with hi
  · rw [allocs_append, he, List.append_nil, hi]
  · rfl

lemma add (h : s.Addressed) (j ty : ℕ) : (s.add j ty).Addressed := by
  have hmem : ∀ {i o}, o ∈ allocs ((s.add j ty).history i) →
      o ∈ allocs (s.history i) ∨ (i = j ∧ o = ⟨s.allocated, ty⟩) := by
    intro i o ho
    simp only [Collector.add, Collector.record, Function.update_apply] at ho
    split_ifs at ho with hi
    · rw [allocs_append, List.mem_append] at ho
      subst hi
      rcases ho with ho | ho
      · exact .inl ho
      · exact .inr ⟨rfl, by simpa using ho⟩
    · exact .inl ho
  refine ⟨fun i o ho => ?_, fun i i' o ho o' ho' he => ?_, fun i => ?_⟩
  · rcases hmem ho with ho | ⟨-, rfl⟩
    · exact Nat.lt_succ_of_lt (h.bound i o ho)
    · exact Nat.lt_succ_self _
  · rcases hmem ho with hold | ⟨hi, rfl⟩ <;> rcases hmem ho' with hold' | ⟨hi', rfl⟩
    · exact h.unique i i' o hold o' hold' he
    · exact absurd he (h.bound i o hold).ne
    · exact absurd he.symm (h.bound i' o' hold').ne
    · exact ⟨hi.trans hi'.symm, rfl⟩
  · simp only [Collector.add, Collector.record, Function.update_apply]
    split_ifs with hi
    · rw [allocs_append, List.nodup_append]
      refine ⟨h.nodup j, List.nodup_singleton _, fun o ho o' ho' heq => ?_⟩
      obtain rfl : o' = ⟨s.allocated, ty⟩ := by simpa using ho'
      subst heq
      exact absurd (h.bound j _ ho) (Nat.lt_irrefl _)
    · exact h.nodup i

end Addressed

/-! ### Every run -/

structure Tracked (s : Collector) : Prop where
  sound : s.rt.relay.Sound
  phase : ∀ j, s.Phase j
  addressed : s.Addressed

namespace Tracked

lemma init (h : machine.init s) : s.Tracked := by
  obtain ⟨rt, hrt, rfl⟩ := h
  exact ⟨Runtime.relay_init hrt, fun j => .filling rfl rfl,
    ⟨by simp, by simp, fun _ => List.nodup_nil⟩⟩

/-- Of journeys and their objects only what is put into the history matters. -/
lemma of_eq (h : s.Tracked) (hr : s'.rt = s.rt) (hl : s'.loop = s.loop)
    (hd : s'.deleters = s.deleters) (ha : s'.allocated = s.allocated)
    (hh : s'.history = s.history) : s'.Tracked where
  sound := hr ▸ h.sound
  phase j := (h.phase j).same (by rw [hl]) (by rw [hd]) (by rw [hh]) (by rw [hr]; exact id)
  addressed := h.addressed.of_eq ha fun j => by rw [hh]

lemma run (h : s.Tracked) (hb : s.rt.step b = some rt) : (s.run b rt).Tracked := by
  have hR := Runtime.Rule.of_step hb
  have hS' : rt.relay.Sound := h.sound.hops (Runtime.hops_of_rule hR)
  have hstay : ∀ i, LifeEvent.delete ∈ (s.rt.journey i).log →
      LifeEvent.delete ∈ (rt.journey i).log := fun i => delete_stays h.sound hb
  unfold Collector.run
  split
  · rename_i j hj
    obtain ⟨t, fails, rfl, hd⟩ := deletes_eq_some hj
    have hstage : s.rt.stage t j = some .exiting := by
      cases hR with
      | exit _ _ _ h => exact h
    have hlog : LifeEvent.delete ∈ (rt.journey j).log := by
      cases hR with
      | exit _ _ _ h =>
        simp [Runtime.onExit0, hd, Runtime.setStage, Runtime.mapThread, Runtime.mapJourney]
    have hn := not_deleted_of_stage h.sound hstage (.inr rfl)
    exact ⟨hS', fun i => (h.phase j).beginLoop hn hlog hstay (h.phase i),
      (h.addressed.record j rfl).of_eq rfl fun _ => rfl⟩
  · exact ⟨hS', fun j => (h.phase j).same rfl rfl rfl (hstay j), h.addressed.of_eq rfl fun _ => rfl⟩

lemma gcnew (h : s.Tracked) (he : s.Executes t j) (ty : ℕ) : (s.add j ty).Tracked := by
  have hn : LifeEvent.delete ∉ (s.rt.journey j).log := by
    rcases he with he | he <;> exact not_deleted_of_stage h.sound he.1 (.inl rfl)
  exact ⟨h.sound, fun i => (h.phase j).add hn ty i (h.phase i), h.addressed.add j ty⟩

lemma step (h : s.Tracked) (hs : Collector.step s a = some s') : s'.Tracked := by
  unfold Collector.step at hs
  split_ifs at hs
  cases a with
  | run b =>
    simp only [stepLive, Option.ite_none_right_eq_some] at hs
    obtain ⟨rt, hb, rfl⟩ := Option.map_eq_some_iff.mp hs.2
    exact h.run hb
  | gcnew t j ty =>
    simp only [stepLive, Option.ite_none_right_eq_some, Option.some.injEq] at hs
    obtain ⟨he, rfl⟩ := hs
    exact h.gcnew he ty
  | free j =>
    simp only [stepLive] at hs
    split at hs
    case h_2 => cases hs
    case h_1 n c hl =>
      obtain ⟨o, ho, rfl⟩ := Option.map_eq_some_iff.mp hs
      exact ⟨h.sound, fun i => (h.phase j).free hl ho (h.phase i),
        (h.addressed.record j rfl).of_eq rfl fun _ => rfl⟩
  | gcnewInside j ty g =>
    simp only [stepLive] at hs
    split at hs <;> cases hs
    rename_i n hl
    exact ⟨h.sound, fun i => (h.phase j).addInside hl ty g (h.phase i),
      (h.addressed.add j ty).of_eq rfl fun _ => rfl⟩
  | endLoop j =>
    simp only [stepLive] at hs
    split at hs <;> cases hs
    rename_i c hl
    exact ⟨h.sound, fun i => (h.phase j).endLoop hl (h.phase i), h.addressed.of_eq rfl fun _ => rfl⟩
  | waitForAll | loadCreated | loadDestroyed =>
    simp only [stepLive] at hs
    split at hs <;> cases hs <;> exact h.of_eq rfl rfl rfl rfl rfl

end Tracked

lemma inductive_tracked : machine.Inductive (fun _ _ => True) Tracked where
  init _ := .init
  step _ _ _ h _ hs := h.step hs

/-! ### What is deleted -/

namespace Phase

/-- The loop has begun once the journey is counted. -/
lemma swept (h : s.Phase j) (hc : .count ∈ s.history j) : ∃ old n ins tail,
    Swept old n ins (s.history j) tail ∧ LifeEvent.delete ∈ (s.rt.journey j).log ∧
    (s.loop j = none → n = 0) := by
  cases h with
  | filling hl hh =>
    rw [hh] at hc
    simp at hc
  | looping x old ins tail hl hd hn hh he =>
    exact ⟨old, x.next, ins, tail, hh, he, fun h => by cases hl.symm.trans h⟩
  | finished old ins tail hl hh he => exact ⟨old, 0, ins, tail, hh, he, fun _ => rfl⟩

lemma count_of_free (h : s.Phase j) {o : Object} (hf : .free o ∈ s.history j) :
    .count ∈ s.history j := by
  cases h with
  | filling hl hh =>
    rw [hh] at hf
    simp at hf
  | looping x old ins tail hl hd hn hh he => rw [hh.eq]; simp
  | finished old ins tail hl hh he => rw [hh.eq]; simp

lemma sublist (h : s.Phase j) : ∃ l : List Object, frees (s.history j) = l.reverse ∧
    l.Sublist (allocs (s.history j)) := by
  have hswept : ∀ {old n ins tail}, Swept old n ins (s.history j) tail →
      ∃ l : List Object, frees (s.history j) = l.reverse ∧ l.Sublist (allocs (s.history j)) := by
    intro old n ins tail hh
    refine ⟨old.drop n, hh.frees_eq, ?_⟩
    rw [hh.allocs_eq]
    exact (List.drop_sublist n old).trans (List.sublist_append_left old ins)
  cases h with
  | filling hl hh =>
    refine ⟨[], ?_, List.nil_sublist _⟩
    rw [hh, frees_map_alloc]
    rfl
  | looping x old ins tail hl hd hn hh he => exact hswept hh
  | finished old ins tail hl hh he => exact hswept hh

end Phase

namespace Tracked

lemma accounted (h : s.Tracked) : s.Accounted where
  after j o ho := by
    obtain ⟨old, n, ins, tail, hh, he, -⟩ := (h.phase j).swept ((h.phase j).count_of_free ho)
    exact ended_of_deleted h.sound he
  typed j o ho := by
    obtain ⟨l, hl, hsub⟩ := (h.phase j).sublist
    rw [← mem_frees, hl, List.mem_reverse] at ho
    exact mem_allocs.mp (hsub.subset ho)
  once j := by
    obtain ⟨l, hl, hsub⟩ := (h.phase j).sublist
    rw [hl, List.nodup_reverse]
    exact (h.addressed.nodup j).sublist hsub
  unique j j' o o' ho ho' :=
    h.addressed.unique j j' o (mem_allocs.mpr ho) o' (mem_allocs.mpr ho')
  goes j n c hlive hd hl := by
    cases h.phase j with
    | filling hl' hh => cases hl.symm.trans hl'
    | finished old ins tail hl' hh he => cases hl.symm.trans hl'
    | looping x old ins tail hl' hdel hn hh he =>
      obtain rfl := Option.some_injective _ (hl'.symm.trans hl)
      have hlt : n < (s.deleters j).length := by
        rw [hdel, List.length_append]
        exact Nat.lt_add_right _ hn
      refine ⟨s.free j n (s.deleters j)[n], ?_⟩
      simp [Collector.step, hlive, hd, stepLive, hl, hlt]
  reversed j hc hl := by
    obtain ⟨old, n, ins, tail, hh, -, hn⟩ := (h.phase j).swept hc
    obtain rfl := hn hl
    exact hh.emptied_iff

end Tracked

/-- The objects of a journey are deleted before it is counted only if there are none. They are
deleted after its handler has ended, each once and with its own type, and in reverse order unless
one of their destructors calls `gcnew`. -/
theorem inTime_iff (h : machine.Reachable s) :
    (∀ j, .count ∈ s.history j → (s.InTime j ↔ allocs (s.history j) = [])) ∧ s.Accounted := by
  have hT := inductive_tracked.holds h
  refine ⟨fun j hc => ?_, hT.accounted⟩
  obtain ⟨old, n, ins, tail, hh, -, -⟩ := (hT.phase j).swept hc
  rw [← hh.collected_iff]
  constructor
  · exact fun hj => hj.collected
  · rintro hcol
    refine ⟨hcol, fun _ _ => ?_⟩
    obtain ⟨pre, hpre, he⟩ := hcol
    rw [hpre, left_append, he]
    rfl

/-- Journey 1 allocates an object, teleports, allocates another one and throws; journey 2 allocates
nothing. -/
def twoObjects : List Action :=
  [.run (.go 0 (some 1)), .run (.go 0 (some 1)), .run (.dispatch 0 ⟨1, 1, true⟩), .gcnew 0 1 5,
    .run (.request 0 1 (.teleport 2)), .run (.jump 0 1), .run (.exit 0 1 false),
    .run (.finish 0 1), .run (.dispatch 1 ⟨2, 1, false⟩), .run (.leave 1 1), .gcnew 1 1 6,
    .run (.throw 1 1 .std), .run (.escape 1 1), .run (.endCoro 1 1), .run (.jump 1 1),
    .run (.exit 1 1 false), .free 1, .free 1, .endLoop 1, .run (.finish 1 1),
    .run (.dispatch 0 ⟨1, 2, true⟩), .run (.ret 0 2 none), .run (.endCoro 0 2), .run (.jump 0 2),
    .run (.exit 0 2 false), .endLoop 2]

theorem inTime_twoObjects : ∃ s, machine.exec {} twoObjects = some s ∧ s.InTime 2 ∧
    ¬ s.InTime 1 ∧ Emptied (s.history 1) :=
  have he : machine.exec {} twoObjects = some _ := rfl
  have h := inTime_iff (.of_exec ⟨_, ⟨_, rfl⟩, rfl⟩ he)
  ⟨_, he, (h.1 2 (by decide)).mpr rfl, fun hn => (by cases (h.1 1 (by decide)).mp hn), rfl⟩

/-- `waitForAll` is called when the journey is counted. -/
def counted : List Action :=
  [.run (.go 0 (some 1)), .run (.dispatch 0 ⟨1, 1, true⟩), .gcnew 0 1 5, .run (.ret 0 1 none),
    .run (.endCoro 0 1), .run (.jump 0 1), .run (.exit 0 1 false), .waitForAll, .loadCreated,
    .loadDestroyed]

/-- It returns, and the object is still to be deleted. -/
theorem not_inTime_counted : ¬ ∀ s j, machine.Reachable s → .count ∈ s.history j → s.InTime j := by
  intro h
  have he : machine.exec {} counted = some _ := rfl
  cases (h _ 1 (.of_exec ⟨_, ⟨_, rfl⟩, rfl⟩ he) (by decide)).waited 1 rfl

end Collector

end Synca
