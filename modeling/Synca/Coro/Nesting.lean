import Synca.Coro.Machine

/-!
# The nesting of coroutines

The flags, `t_coro` and the saved contexts are written in pieces on both sides of each switch.
Together they describe one list, the calls of `start` and `resume` that are active: each saved
context leads to the call before, and `t_coro` is the coroutine of the latest. A call puts itself on
that list or is refused, and a coroutine that yields or ends takes the latest off.
-/

namespace Synca.Coroutines

open Transition

variable {κ ε : Type*}

/-- How call `n` ends, given the exception left by its coroutine. -/
def Event.answer (n : ℕ) : Option ε → Event ε
  | some e => .threw n e
  | none   => .returned n

@[simp] lemma Event.call_answer (n : ℕ) (r : Option ε) : (Event.answer n r).call = some n := by
  cases r <;> rfl

@[simp] lemma Event.exn_answer (n : ℕ) (r : Option ε) : (Event.answer n r).exn = r := by
  cases r <;> rfl

namespace State

variable {s s' : State κ ε} {c : κ} {x : Call κ} {xs : List (Call κ)}

/-- The saved contexts lead from each call of the list to the one before, and from the last one to
plain code. -/
inductive Returns (s : State κ ε) : List (Call κ) → Option κ → Prop where
  | nil : Returns s [] none
  | cons {x : Call κ} {xs : List (Call κ)} (hx : x.caller = x.before)
      (hs : (s.coro x.coro).savedContext = some ⟨x.caller, .jumped x.id x.coro x.before⟩)
      (h : Returns s xs x.before) : Returns s (x :: xs) (some x.coro)

lemma Returns.congr {t : Option κ} (h : s.Returns xs t)
    (heq : ∀ y ∈ xs, (s'.coro y.coro).savedContext = (s.coro y.coro).savedContext) :
    s'.Returns xs t := by
  induction h with
  | nil => exact .nil
  | @cons x xs hx hs h ih =>
    exact .cons hx ((heq x List.mem_cons_self).trans hs)
      (ih fun y hy => heq y (List.mem_cons_of_mem x hy))

structure Nested (s : State κ ε) : Prop where
  found : s.lost = false
  returns : s.Returns s.active s.tCoro
  stack : s.stack = s.tCoro
  ids : (s.active.map Call.id).Nodup
  fresh (x : Call κ) : x ∈ s.active → x.id < s.calls
  nodup : s.chain.Nodup
  running (c : κ) : (s.coro c).running = true ↔ c ∈ s.chain
  started (c : κ) : (s.coro c).started = true ↔ c ∈ s.chain ∨ s.asleep c = true
  asleep (c : κ) : s.asleep c = true →
    c ∉ s.chain ∧ (s.coro c).context = some ⟨some c, .yielded⟩
  alive (c : κ) : (s.coro c).started = true → s.self (some c) = some c ∧ (s.coro c).exc = none

lemma Nested.init : ({} : State κ ε).Nested where
  found := rfl
  returns := .nil
  stack := rfl
  ids := List.nodup_nil
  fresh x hx := by simp at hx
  nodup := List.nodup_nil
  running c := by simp [chain]
  started c := by simp [chain]
  asleep c h := by simp at h
  alive c h := by simp at h

lemma Nested.not_started_iff (h : s.Nested) :
    (s.coro c).isStarted = false ↔ s.asleep c = false ∧ c ∉ s.chain := by
  have hr := h.running c
  have hs := h.started c
  rw [Coro.isStarted, Bool.or_eq_false_iff]
  constructor
  · rintro ⟨h₁, h₂⟩
    rw [h₂] at hr
    rw [h₁] at hs
    have hc : c ∉ s.chain := fun hc => by simpa using hr.mpr hc
    exact ⟨by by_contra ha; simpa using hs.mpr (.inr (by simpa using ha)), hc⟩
  · rintro ⟨ha, hc⟩
    refine ⟨?_, ?_⟩
    · by_contra hst
      rcases hs.mp (by simpa using hst) with hm | hm
      · exact hc hm
      · rw [ha] at hm
        cases hm
    · by_contra hrun
      exact hc (hr.mp (by simpa using hrun))

lemma Nested.asleep_iff (h : s.Nested) :
    (s.coro c).started = true ∧ (s.coro c).running = false ↔ s.asleep c = true := by
  rw [h.started c, Bool.eq_false_iff, Ne, h.running c]
  constructor
  · rintro ⟨hc | ha, hn⟩
    · exact absurd hc hn
    · exact ha
  · exact fun ha => ⟨.inr ha, (h.asleep c ha).1⟩

/-- The active calls are taken from the front. -/
lemma Nested.active_filter (h : s.Nested) (hx : s.active = x :: xs) :
    s.active.filter (·.id != x.id) = xs := by
  have hids := h.ids
  rw [hx, List.map_cons, List.nodup_cons] at hids
  rw [hx, List.filter_cons_of_neg (by simp), List.filter_eq_self]
  intro y hy
  simpa using fun heq : y.id = x.id => hids.1 (heq ▸ List.mem_map_of_mem hy)

/-- Inside a coroutine there is a latest active call, and it entered that coroutine. -/
lemma Nested.exists_active (h : s.Nested) (hc : s.tCoro = some c) :
    ∃ x xs, s.active = x :: xs ∧ x.coro = c ∧ x.caller = x.before ∧
      (s.coro c).savedContext = some ⟨x.caller, .jumped x.id c x.before⟩ := by
  have hret := h.returns
  rw [hc] at hret
  generalize hl : s.active = l at hret
  cases hret with
  | @cons x xs hx hs hrest => exact ⟨x, xs, rfl, rfl, hx, hs⟩

lemma Nested.active_eq_nil (h : s.Nested) (hc : s.tCoro = none) : s.active = [] := by
  have hret := h.returns
  rw [hc] at hret
  generalize s.active = l at hret
  cases hret
  rfl

/-- What is refused changes no coroutine. -/
structure Refused (s s' : State κ ε) : Prop where
  coro : s'.coro = s.coro
  tCoro : s'.tCoro = s.tCoro
  stack : s'.stack = s.stack
  self : s'.self = s.self
  calls : s'.calls = s.calls
  active : s'.active = s.active
  entered : s'.entered = s.entered
  asleep : s'.asleep = s.asleep
  log : ∃ text, s'.log = s.log ++ [.refused text]
  lost : s'.lost = s.lost

lemma refused_refuse (s : State κ ε) (text : String) : Refused s (s.refuse text) :=
  ⟨rfl, rfl, rfl, rfl, rfl, rfl, rfl, rfl, ⟨text, rfl⟩, rfl⟩

variable [DecidableEq κ]

/-- A call that enters `c`: it is the latest active call, and the code that runs is that of `c`. -/
structure Enters (s s' : State κ ε) (c : κ) : Prop where
  active : s'.active = ⟨s.calls, c, s.tCoro, s.stack⟩ :: s.active
  tCoro : s'.tCoro = some c
  stack : s'.stack = some c
  log : s'.log = s.log
  calls : s'.calls = s.calls + 1
  entered : s'.entered = Function.update s.entered c (some s.calls)
  asleep : s'.asleep = Function.update s.asleep c false
  self : s'.self = Function.update s.self (some c) (some c)
  lost : s'.lost = s.lost
  other : ∀ d, d ≠ c → s'.coro d = s.coro d
  coro : ∃ t, s'.coro c = ⟨true, true, t, some ⟨s.stack, .jumped s.calls c s.tCoro⟩, none⟩

/-- The latest active call `x` ends, and its caller goes on with `t_coro` as it was before the call.
The coroutine sleeps or has ended, then with the exception `r` or none. -/
structure Leaves (s s' : State κ ε) (x : Call κ) (slept : Bool) (r : Option ε) : Prop where
  active : s.active = x :: s'.active
  tCoro : s'.tCoro = x.before
  stack : s'.stack = x.caller
  log : s'.log = s.log ++ [Event.answer x.id r]
  calls : s'.calls = s.calls
  entered : s'.entered = s.entered
  asleep : s'.asleep = Function.update s.asleep x.coro slept
  self : s'.self = s.self
  lost : s'.lost = s.lost
  other : ∀ d, d ≠ x.coro → s'.coro d = s.coro d
  coro : ∃ t, s'.coro x.coro = ⟨slept, false, some ⟨some x.coro, t⟩, some ⟨x.caller,
    .jumped x.id x.coro x.before⟩, r⟩ ∧ (slept = true → t = .yielded ∧ r = none)

/-! ### What the calls do -/

/-- `start` makes a fresh context, and `starter0` runs on it. -/
lemma enters_start (hc : (s.coro c).isStarted = false) : Enters s (s.start c) c := by
  have hst : s.start c = { s with
    coro := Function.update s.coro c ⟨true, true, some ⟨some c, .entry⟩,
      some ⟨s.stack, .jumped s.calls c s.tCoro⟩, none⟩
    tCoro := some c
    stack := some c
    self := Function.update s.self (some c) (some c)
    calls := s.calls + 1
    active := ⟨s.calls, c, s.tCoro, s.stack⟩ :: s.active
    entered := Function.update s.entered c (some s.calls)
    asleep := Function.update s.asleep c false } := by
    simp [start, hc, jump0, land, starter0, modify]
  rw [hst]
  exact ⟨rfl, rfl, rfl, rfl, rfl, rfl, rfl, rfl, rfl, fun d hd => Function.update_of_ne hd ..,
    ⟨_, Function.update_self ..⟩⟩

/-- `resume` goes on in the `yield0` where the coroutine left. -/
lemma Nested.enters_resume (h : s.Nested) (ha : s.asleep c = true) : Enters s (s.resume c) c := by
  obtain ⟨hstart, hrun⟩ := h.asleep_iff.mpr ha
  obtain ⟨hself, hexc⟩ := h.alive c hstart
  have hst : s.resume c = { s with
    coro := Function.update s.coro c ⟨true, true, some ⟨some c, .yielded⟩,
      some ⟨s.stack, .jumped s.calls c s.tCoro⟩, none⟩
    tCoro := some c
    stack := some c
    calls := s.calls + 1
    active := ⟨s.calls, c, s.tCoro, s.stack⟩ :: s.active
    entered := Function.update s.entered c (some s.calls)
    asleep := Function.update s.asleep c false } := by
    simp [resume, hstart, hrun, hexc, jump0, land, modify, (h.asleep c ha).2]
  rw [hst]
  exact ⟨rfl, rfl, rfl, rfl, rfl, rfl, rfl, (Function.update_eq_self_iff.mpr hself.symm).symm, rfl,
    fun d hd => Function.update_of_ne hd .., ⟨_, Function.update_self ..⟩⟩

lemma Nested.leaves_yield (h : s.Nested) (hx : s.active = x :: xs) (hc : s.tCoro = some x.coro) :
    Leaves s s.yield x true none := by
  obtain ⟨y, ys, hy, hyc, hcall, hsaved⟩ := h.exists_active hc
  obtain ⟨rfl, rfl⟩ : x = y ∧ xs = ys := by simpa using hx.symm.trans hy
  have hmem : x.coro ∈ s.chain := by simp [chain, hx]
  have hstart := (h.started x.coro).mpr (.inl hmem)
  have hexc := (h.alive x.coro hstart).2
  have hst : s.yield = { s with
    coro := Function.update s.coro x.coro ⟨true, false, some ⟨some x.coro, .yielded⟩,
      some ⟨x.caller, .jumped x.id x.coro x.before⟩, none⟩
    tCoro := x.before
    stack := x.caller
    active := xs
    asleep := Function.update s.asleep x.coro true
    log := s.log ++ [Event.answer x.id none] } := by
    simp [yield, hc, yield0, hsaved, land, afterJump, modify, hstart, hexc, h.stack,
      h.active_filter hx, Event.answer]
  rw [hst]
  exact ⟨hx, rfl, rfl, rfl, rfl, rfl, rfl, rfl, rfl, fun d hd => Function.update_of_ne hd ..,
    ⟨.yielded, Function.update_self .., fun _ => ⟨rfl, rfl⟩⟩⟩

lemma Nested.leaves_finish (h : s.Nested) (hx : s.active = x :: xs) (hc : s.tCoro = some x.coro)
    (r : Option ε) : Leaves s (s.finish x.coro r) x false r := by
  obtain ⟨y, ys, hy, hyc, hcall, hsaved⟩ := h.exists_active hc
  obtain ⟨rfl, rfl⟩ : x = y ∧ xs = ys := by simpa using hx.symm.trans hy
  have hmem : x.coro ∈ s.chain := by simp [chain, hx]
  have hstart := (h.started x.coro).mpr (.inl hmem)
  obtain ⟨hself, hexc⟩ := h.alive x.coro hstart
  have hasleep : s.asleep x.coro = false := by
    by_contra ha
    exact (h.asleep x.coro (by simpa using ha)).1 hmem
  have hst : s.finish x.coro r = { s with
    coro := Function.update s.coro x.coro ⟨false, false, some ⟨some x.coro, .ended⟩,
      some ⟨x.caller, .jumped x.id x.coro x.before⟩, r⟩
    tCoro := x.before
    stack := x.caller
    active := xs
    log := s.log ++ [Event.answer x.id r] } := by
    cases r <;> simp [finish, hself, yield0, hsaved, land, afterJump, modify, hexc, h.stack, hc,
      h.active_filter hx, Event.answer]
  rw [hst]
  exact ⟨hx, rfl, rfl, rfl, rfl, rfl, (Function.update_eq_self_iff.mpr hasleep.symm).symm, rfl, rfl,
    fun d hd => Function.update_of_ne hd ..,
    ⟨.ended, Function.update_self .., fun hf => Bool.noConfusion hf⟩⟩

/-! ### The nesting is kept -/

omit [DecidableEq κ] in
lemma Nested.refused (h : s.Nested) (hr : Refused s s') : s'.Nested := by
  have hchain : s'.chain = s.chain := congrArg (List.map Call.coro) hr.active
  refine ⟨?_, ?_, ?_, ?_, ?_, ?_, ?_, ?_, ?_, ?_⟩
  · rw [hr.lost]
    exact h.found
  · rw [hr.active, hr.tCoro]
    exact h.returns.congr fun y _ => by rw [hr.coro]
  · rw [hr.stack, hr.tCoro]
    exact h.stack
  · rw [hr.active]
    exact h.ids
  · rw [hr.active, hr.calls]
    exact h.fresh
  · rw [hchain]
    exact h.nodup
  · rw [hchain, hr.coro]
    exact h.running
  · rw [hchain, hr.coro, hr.asleep]
    exact h.started
  · rw [hchain, hr.coro, hr.asleep]
    exact h.asleep
  · rw [hr.coro, hr.self]
    exact h.alive

lemma Nested.enters (h : s.Nested) (hc : c ∉ s.chain) (he : Enters s s' c) : s'.Nested := by
  have hchain : s'.chain = c :: s.chain := congrArg (List.map Call.coro) he.active
  obtain ⟨t, hcoro⟩ := he.coro
  have hsaved : ∀ y ∈ s.active, (s'.coro y.coro).savedContext = (s.coro y.coro).savedContext := by
    intro y hy
    rw [he.other]
    rintro rfl
    exact hc (List.mem_map_of_mem hy)
  have hasleep : ∀ d, d ≠ c → s'.asleep d = s.asleep d := fun d hd => by
    rw [he.asleep, Function.update_of_ne hd]
  have hawake : s'.asleep c = false := by
    rw [he.asleep, Function.update_self]
  have hself : ∀ d, d ≠ c → s'.self (some d) = s.self (some d) := fun d hd => by
    rw [he.self, Function.update_of_ne fun heq => hd (Option.some_injective _ heq)]
  refine ⟨he.lost.trans h.found, ?_, he.stack.trans he.tCoro.symm, ?_, ?_, ?_, fun d => ?_,
    fun d => ?_, fun d => ?_, fun d => ?_⟩
  · rw [he.active, he.tCoro]
    exact .cons h.stack (by rw [hcoro]) (h.returns.congr hsaved)
  · rw [he.active, List.map_cons, List.nodup_cons]
    refine ⟨fun hm => ?_, h.ids⟩
    obtain ⟨y, hy, hid⟩ := List.mem_map.mp hm
    exact absurd (h.fresh y hy) (by rw [hid]; exact Nat.lt_irrefl _)
  · rw [he.active, he.calls]
    intro y hy
    rcases List.mem_cons.mp hy with rfl | hy
    · exact Nat.lt_succ_self _
    · exact Nat.lt_succ_of_lt (h.fresh y hy)
  · rw [hchain]
    exact List.nodup_cons.mpr ⟨hc, h.nodup⟩
  · rw [hchain]
    by_cases hd : d = c
    · simp [hd, hcoro]
    · simp [hd, he.other d hd, h.running d]
  · rw [hchain]
    by_cases hd : d = c
    · simp [hd, hcoro]
    · simp [hd, he.other d hd, hasleep d hd, h.started d]
  · rw [hchain]
    by_cases hd : d = c
    · simp [hd, hawake]
    · simpa [hd, he.other d hd, hasleep d hd] using h.asleep d
  · by_cases hd : d = c
    · simp [hd, hcoro, he.self]
    · simpa [hd, he.other d hd, hself d hd] using h.alive d

lemma Nested.leaves {slept : Bool} {r : Option ε} (h : s.Nested) (hl : Leaves s s' x slept r) :
    s'.Nested := by
  have hchain : s.chain = x.coro :: s'.chain := congrArg (List.map Call.coro) hl.active
  have hnodup := h.nodup
  rw [hchain, List.nodup_cons] at hnodup
  obtain ⟨t, hcoro, hslept⟩ := hl.coro
  have hret := h.returns
  rw [hl.active] at hret
  generalize s.tCoro = k at hret
  have hsaved : ∀ y ∈ s'.active, (s'.coro y.coro).savedContext = (s.coro y.coro).savedContext := by
    intro y hy
    rw [hl.other]
    rintro heq
    exact hnodup.1 (heq ▸ List.mem_map_of_mem hy)
  have hasleep : ∀ d, d ≠ x.coro → s'.asleep d = s.asleep d := fun d hd => by
    rw [hl.asleep, Function.update_of_ne hd]
  have hown : s'.asleep x.coro = slept := by
    rw [hl.asleep, Function.update_self]
  have halive := h.alive x.coro ((h.started x.coro).mpr (.inl (by simp [hchain])))
  have hids := h.ids
  rw [hl.active, List.map_cons, List.nodup_cons] at hids
  refine ⟨hl.lost.trans h.found, ?_, ?_, hids.2, ?_, hnodup.2, fun d => ?_,
    fun d => ?_, fun d => ?_, fun d => ?_⟩
  · rw [hl.tCoro]
    cases hret with
    | cons hx hs hret => exact hret.congr hsaved
  · rw [hl.tCoro, hl.stack]
    cases hret with
    | cons hx hs hret => exact hx
  · intro y hy
    rw [hl.calls]
    exact h.fresh y (by simp [hl.active, hy])
  · by_cases hd : d = x.coro
    · simp [hd, hcoro, hnodup.1]
    · simpa [hd, hl.other d hd, hchain] using h.running d
  · by_cases hd : d = x.coro
    · simp [hd, hcoro, hnodup.1, hown]
    · simpa [hd, hl.other d hd, hchain, hasleep d hd] using h.started d
  · by_cases hd : d = x.coro
    · subst hd
      rw [hown, hcoro]
      exact fun hs => ⟨hnodup.1, by rw [(hslept hs).1]⟩
    · simpa [hd, hl.other d hd, hchain, hasleep d hd] using h.asleep d
  · by_cases hd : d = x.coro
    · subst hd
      rw [hl.self, hcoro]
      exact fun hs => ⟨halive.1, (hslept hs).2⟩
    · simpa [hd, hl.other d hd, hl.self] using h.alive d

/-- What a step does: `start` enters a coroutine that neither sleeps nor has an active call,
`resume` one that sleeps, and the end or the `yield` of a coroutine ends the latest active call. -/
def Does (s s' : State κ ε) : Action κ ε → Prop
  | .start c  => if s.asleep c = false ∧ c ∉ s.chain then Enters s s' c else Refused s s'
  | .resume c => if s.asleep c = true then Enters s s' c else Refused s s'
  | .yield    => match s.active with
    | []     => Refused s s'
    | x :: _ => Leaves s s' x true none
  | .finish r => match s.active with
    | []     => False
    | x :: _ => Leaves s s' x false r

lemma Nested.does {a : Action κ ε} (h : s.Nested) (hs : step s a = some s') : s.Does s' a := by
  simp only [step, h.found, Bool.false_eq_true, if_false] at hs
  cases a with
  | start c =>
    obtain rfl := Option.some_injective _ hs
    rw [Does]
    split_ifs with hc
    · exact enters_start (h.not_started_iff.mpr hc)
    · have hst : (s.coro c).isStarted = true := by
        by_contra hst
        exact hc (h.not_started_iff.mp (by simpa using hst))
      simp only [start, hst, if_true]
      exact refused_refuse s _
  | resume c =>
    obtain rfl := Option.some_injective _ hs
    rw [Does]
    split_ifs with hc
    · exact h.enters_resume hc
    · rw [← h.asleep_iff, not_and, Bool.not_eq_false] at hc
      simp only [resume]
      split_ifs with hst hrun
      · exact refused_refuse s _
      · exact refused_refuse s _
      · exact absurd (hc (by simpa using hst)) hrun
  | yield =>
    obtain rfl := Option.some_injective _ hs
    rw [Does]
    cases hc : s.tCoro with
    | none =>
      rw [h.active_eq_nil hc]
      simp only [yield, hc]
      exact refused_refuse s _
    | some c =>
      obtain ⟨x, xs, hx, rfl, -⟩ := h.exists_active hc
      rw [hx]
      exact h.leaves_yield hx hc
  | finish r =>
    obtain ⟨c, hc, rfl⟩ := Option.map_eq_some_iff.mp hs
    rw [h.stack] at hc
    obtain ⟨x, xs, hx, rfl, -⟩ := h.exists_active hc
    rw [Does, hx]
    exact h.leaves_finish hx hc r

/-- A step that is not refused enters a coroutine or leaves one. -/
lemma Does.cases {a : Action κ ε} (h : s.Does s' a) :
    (a.exn = none ∧ Refused s s') ∨
    (a.exn = none ∧ ∃ c, (s.asleep c = true ∨ c ∉ s.chain) ∧ Enters s s' c) ∨
    ∃ x slept, Leaves s s' x slept a.exn := by
  cases a with
  | start c =>
    rw [Does] at h
    split_ifs at h with hc
    · exact .inr (.inl ⟨rfl, c, .inr hc.2, h⟩)
    · exact .inl ⟨rfl, h⟩
  | resume c =>
    rw [Does] at h
    split_ifs at h with hc
    · exact .inr (.inl ⟨rfl, c, .inl hc, h⟩)
    · exact .inl ⟨rfl, h⟩
  | yield =>
    rw [Does] at h
    cases hx : s.active with
    | nil =>
      rw [hx] at h
      exact .inl ⟨rfl, h⟩
    | cons x xs =>
      rw [hx] at h
      exact .inr (.inr ⟨x, true, h⟩)
  | finish r =>
    rw [Does] at h
    cases hx : s.active with
    | nil =>
      rw [hx] at h
      exact h.elim
    | cons x xs =>
      rw [hx] at h
      exact .inr (.inr ⟨x, false, h⟩)

lemma Nested.step {a : Action κ ε} (h : s.Nested) (hs : step s a = some s') : s'.Nested := by
  rcases (h.does hs).cases with ⟨-, hr⟩ | ⟨-, c, hc, he⟩ | ⟨x, slept, hl⟩
  · exact h.refused hr
  · exact h.enters (hc.elim (fun ha => (h.asleep c ha).1) id) he
  · exact h.leaves hl

lemma nested_inductive : (machine κ ε).Inductive (fun _ _ => True) State.Nested where
  init s hs := by
    obtain rfl : s = {} := hs
    exact .init
  step _ _ _ h _ hs := h.step hs

/-! ### Each accepted call ends once -/

/-- The accepted calls are those that are active, the latest of their coroutines, and those that
have ended, each once. -/
structure Answered (s : State κ ε) : Prop where
  entered (x : Call κ) : x ∈ s.active → s.entered x.coro = some x.id
  calls (n : ℕ) : n < s.calls ↔ n ∈ s.active.map Call.id ∨ n ∈ s.log.filterMap Event.call
  ended (n : ℕ) : n ∈ s.log.filterMap Event.call → n ∉ s.active.map Call.id
  once : (s.log.filterMap Event.call).Nodup

lemma Answered.step {a : Action κ ε} (h : s.Nested) (hA : s.Answered)
    (hs : State.step s a = some s') : s'.Answered := by
  rcases (h.does hs).cases with ⟨-, hr⟩ | ⟨-, c, hc, he⟩ | ⟨x, slept, hl⟩
  · obtain ⟨text, hlog⟩ := hr.log
    have hcalls : s'.log.filterMap Event.call = s.log.filterMap Event.call := by
      simp [hlog, Event.call]
    refine ⟨?_, ?_, ?_, ?_⟩
    · rw [hr.active, hr.entered]
      exact hA.entered
    · rw [hr.active, hr.calls, hcalls]
      exact hA.calls
    · rw [hr.active, hcalls]
      exact hA.ended
    · rw [hcalls]
      exact hA.once
  · have hnc : c ∉ s.chain := hc.elim (fun ha => (h.asleep c ha).1) id
    refine ⟨?_, fun n => ?_, fun n hn => ?_, ?_⟩
    · rw [he.active, he.entered]
      intro y hy
      rcases List.mem_cons.mp hy with rfl | hy
      · exact Function.update_self ..
      · rw [Function.update_of_ne fun heq => hnc (by rw [← heq]; exact List.mem_map_of_mem hy)]
        exact hA.entered y hy
    · rw [he.active, he.log, he.calls, Nat.lt_succ_iff_lt_or_eq, hA.calls n]
      simp only [List.map_cons, List.mem_cons]
      tauto
    · rw [he.log] at hn
      rw [he.active, List.map_cons, List.mem_cons, not_or]
      exact ⟨Nat.ne_of_lt ((hA.calls n).mpr (.inr hn)), hA.ended n hn⟩
    · rw [he.log]
      exact hA.once
  · have hcalls : s'.log.filterMap Event.call = s.log.filterMap Event.call ++ [x.id] := by
      simp [hl.log]
    have hids := h.ids
    rw [hl.active, List.map_cons, List.nodup_cons] at hids
    have hx : x.id ∉ s.log.filterMap Event.call := fun hx =>
      hA.ended x.id hx (by simp [hl.active])
    refine ⟨fun y hy => ?_, fun n => ?_, fun n hn => ?_, ?_⟩
    · rw [hl.entered]
      exact hA.entered y (by simp [hl.active, hy])
    · rw [hl.calls, hA.calls n, hl.active, hcalls]
      simp only [List.map_cons, List.mem_cons, List.mem_append, List.not_mem_nil, or_false]
      tauto
    · rw [hcalls, List.mem_append, List.mem_singleton] at hn
      rcases hn with hn | rfl
      · exact fun hm => hA.ended n hn (by rw [hl.active]; exact List.mem_cons_of_mem _ hm)
      · exact hids.1
    · rw [hcalls, List.nodup_append]
      exact ⟨hA.once, List.nodup_singleton _, fun n hn m hm => by
        rw [List.mem_singleton.mp hm]
        rintro rfl
        exact hx hn⟩

lemma answered_inductive :
    (machine κ ε).Inductive (fun _ _ => True) fun s => s.Nested ∧ s.Answered :=
  nested_inductive.and
    (by
      rintro s rfl
      exact ⟨fun x hx => by simp at hx, fun n => by simp, fun n hn => by simp at hn,
        List.nodup_nil⟩)
    fun _ _ _ h hA _ hs => hA.step h hs

/-- The calls throw what ends the coroutines, in this order. -/
lemma Nested.thrown {as : List (Action κ ε)} (h : s.Nested)
    (he : (machine κ ε).exec s as = some s') :
    s'.log.filterMap Event.exn = s.log.filterMap Event.exn ++ as.filterMap Action.exn := by
  induction as generalizing s with
  | nil =>
    obtain rfl : s = s' := by simpa using he
    simp
  | cons a as ih =>
    obtain ⟨u, hu, he⟩ := Option.bind_eq_some_iff.mp he
    have hstep : u.log.filterMap Event.exn = s.log.filterMap Event.exn ++ a.exn.toList := by
      rcases (h.does hu).cases with ⟨hn, hr⟩ | ⟨hn, c, -, he⟩ | ⟨x, slept, hl⟩
      · obtain ⟨text, hlog⟩ := hr.log
        simp [hlog, hn, Event.exn]
      · simp [he.log, hn]
      · cases hx : a.exn <;> simp [hl.log, hx]
    rw [ih (h.step hu) he, hstep, List.append_assoc]
    cases hx : a.exn <;> simp [hx]

/-! ### The discipline -/

/-- The coroutines that run are those of the active calls, the innermost of which is `t_coro`. What
the next step does is a matter of the active calls and of who sleeps. The accepted calls end once,
and throw what their coroutines ended with. -/
structure Disciplined (s : State κ ε) (as : List (Action κ ε)) : Prop where
  running (c : κ) : (s.coro c).running = true ↔ c ∈ s.chain
  nodup : s.chain.Nodup
  tCoro : s.tCoro = s.chain.head?
  stack : s.stack = s.tCoro
  found : s.lost = false
  entered (x : Call κ) : x ∈ s.active → s.entered x.coro = some x.id
  does (a : Action κ ε) (s' : State κ ε) : step s a = some s' → s.Does s' a
  calls (n : ℕ) : n < s.calls ↔ n ∈ s.active.map Call.id ∨ n ∈ s.log.filterMap Event.call
  ended (n : ℕ) : n ∈ s.log.filterMap Event.call → n ∉ s.active.map Call.id
  once : (s.log.filterMap Event.call).Nodup
  thrown : s.log.filterMap Event.exn = as.filterMap Action.exn

omit [DecidableEq κ] in
lemma Returns.head_eq {l : List (Call κ)} {k : Option κ} (h : s.Returns l k) :
    k = (l.map Call.coro).head? := by
  cases h <;> rfl

end State

/-- Whatever the code on the stacks of one thread does with its coroutines, their calls nest. -/
theorem disciplined_of_exec [DecidableEq κ] {as : List (Action κ ε)} {s : State κ ε}
    (he : (machine κ ε).exec {} as = some s) : s.Disciplined as := by
  obtain ⟨h, hA⟩ := State.answered_inductive.holds (Machine.Reachable.of_exec rfl he)
  exact {
    running := h.running
    nodup := h.nodup
    tCoro := h.returns.head_eq
    stack := h.stack
    found := h.found
    entered := hA.entered
    does := fun _ _ => h.does
    calls := hA.calls
    ended := hA.ended
    once := hA.once
    thrown := State.Nested.init.thrown he }

/-- Coroutine 0 starts 1, which sleeps, and a resume from plain code makes 1 throw; then 1 is used
again, and a call from inside that is refused. -/
def reused : List (Action ℕ String) :=
  [.start 0, .start 1, .yield, .yield, .resume 1, .finish (some "boom"), .start 1, .resume 0,
    .start 1, .finish none]

theorem disciplined_reused : ∃ s, (machine ℕ String).exec {} reused = some s ∧
    s.Disciplined reused ∧ s.log = [.returned 1, .returned 0, .threw 2 "boom",
      .refused "Verification failed: !isStarted(): Trying to start already started coro",
      .returned 4] :=
  have he : (machine ℕ String).exec {} reused = some _ := rfl
  ⟨_, he, disciplined_of_exec he, rfl⟩

end Synca.Coroutines
