import Mathlib.Algebra.Order.BigOperators.Group.Finset
import Synca.Transition.Dataflow

/-!
# The end of a network of workers

If queues are closed from outside only at rest, no item comes to a closed queue, and every worker
downstream of a closed queue leaves. A run is as long as the items that are put allow.
-/

namespace Transition

variable {ι κ Ω : Type*} {T : ι → Type*} {σ : κ → Type*}

namespace Dataflow

variable [DecidableEq ι] [DecidableEq κ] {node : ∀ k, Node T Ω (σ k)} {s s' : Dataflow node}
  {a : Action κ Ω T}

/-! ### Closing -/

/-- Nothing is fed once a queue is closed, and from outside queues are closed only at rest. -/
def Calm (s : Dataflow node) : Action κ Ω T → Prop
  | .feed _ => ∀ c, s.closed c = false
  | .shut _ => s.Drained
  | _       => True

structure Closing (s : Dataflow node) : Prop where
  drained : ∀ c, s.closed c = true → s.Drained
  src : ∀ k, (s.phase k).Left → s.closed (node k).src = true
  leaving : ∀ k cs, s.phase k = .leaving cs →
    ∃ ds, (node k).shuts = ds ++ cs ∧ ∀ c ∈ ds, s.closed c = true
  gone : ∀ k, s.phase k = .gone → ∀ c ∈ (node k).shuts, s.closed c = true

namespace Closing

omit [DecidableEq ι] in
/-- A worker that does not leave changes its phase, in a network that is not at rest. -/
lemma setPhase (h : s.Closing) (hd : ¬ s.Drained) {k : κ} {x : Phase T (T (node k).src)}
    (hx : ¬ x.Left) : (s.setPhase k x).Closing := by
  have hclosed : ∀ c, s.closed c = true → False := fun c hc => hd (h.drained c hc)
  have hleft : ∀ k', ¬ ((s.setPhase k x).phase k').Left := by
    intro k' hk'
    by_cases he : k' = k
    · subst he
      rw [show (s.setPhase k' x).phase k' = x from Function.update_self ..] at hk'
      exact hx hk'
    · rw [show (s.setPhase k x).phase k' = s.phase k' from Function.update_of_ne he ..] at hk'
      exact hclosed _ (h.src k' hk')
  refine ⟨fun c hc => (hclosed c hc).elim, fun k' hk' => (hleft k' hk').elim, ?_, ?_⟩
  · intro k' cs hk'
    exact (hleft k' (by rw [hk']; trivial)).elim
  · intro k' hk'
    exact (hleft k' (by rw [hk']; trivial)).elim

omit [DecidableEq ι] [DecidableEq κ] in
lemma not_drained_of_queue {c : ι} {v : T c} {q : List (T c)} (hq : s.queue c = v :: q) :
    ¬ s.Drained := by
  intro hd
  rw [hd.queue] at hq
  cases hq

omit [DecidableEq ι] in
/-- A worker leaves or is about to. -/
lemma leave (h : s.Closing) {k : κ} {x : Phase T (T (node k).src)} (hx : x.Left)
    (hc : s.closed (node k).src = true)
    (hleaving : ∀ cs, x = .leaving cs →
      ∃ ds, (node k).shuts = ds ++ cs ∧ ∀ c ∈ ds, s.closed c = true)
    (hgone : x = .gone → ∀ c ∈ (node k).shuts, s.closed c = true) :
    (s.setPhase k x).Closing := by
  have hd := h.drained _ hc
  have hphase : ∀ k', (s.setPhase k x).phase k' = Function.update s.phase k x k' := fun _ => rfl
  refine ⟨fun _ _ => ⟨hd.queue, fun k' => ?_, fun k' => ?_⟩, fun k' hk' => ?_, fun k' cs hk' => ?_,
    fun k' hk' => ?_⟩
  all_goals
    by_cases he : k' = k
  · subst he
    rw [hphase, Function.update_self]
    cases x <;> first | rfl | cases hx
  · rw [hphase, Function.update_of_ne he]
    exact hd.held k'
  · subst he
    rw [hphase, Function.update_self]
    cases x <;> first | rfl | cases hx
  · rw [hphase, Function.update_of_ne he]
    exact hd.pending k'
  · subst he
    exact hc
  · rw [hphase, Function.update_of_ne he] at hk'
    exact h.src k' hk'
  · subst he
    rw [hphase, Function.update_self] at hk'
    exact hleaving cs hk'
  · rw [hphase, Function.update_of_ne he] at hk'
    exact h.leaving k' cs hk'
  · subst he
    rw [hphase, Function.update_self] at hk'
    exact hgone hk'
  · rw [hphase, Function.update_of_ne he] at hk'
    exact h.gone k' hk'

omit [DecidableEq κ] in
/-- A queue is closed at rest. -/
lemma shut (h : s.Closing) (hd : s.Drained) (c : ι) : (s.shut c).Closing := by
  have hmono : ∀ c', s.closed c' = true → (s.shut c).closed c' = true := by
    intro c' hc'
    by_cases he : c' = c
    · subst he
      exact Function.update_self ..
    · exact (Function.update_of_ne he ..).trans hc'
  refine ⟨fun _ _ => ⟨hd.queue, hd.held, hd.pending⟩, fun k hk => hmono _ (h.src k hk), ?_, ?_⟩
  · intro k cs hk
    obtain ⟨ds, hds, hc⟩ := h.leaving k cs hk
    exact ⟨ds, hds, fun c' hc' => hmono c' (hc c' hc')⟩
  · exact fun k hk c' hc' => hmono c' (h.gone k hk c' hc')

end Closing

theorem inductive_closing (m : ∀ k, σ k) : (machine node m).Inductive Calm Closing where
  init s hs := by
    obtain rfl := hs
    refine ⟨fun c hc => ?_, fun k hk => hk.elim, fun k cs hk => ?_, fun k hk => ?_⟩
    · cases hc
    · cases hk
    · cases hk
  step s a s' h hC hs := by
    cases rule_of_step hs with
    | take k v q hk hq =>
      have hq' : ¬ s.Drained := Closing.not_drained_of_queue hq
      have := h.setPhase hq' (k := k) (x := .holding v) id
      exact ⟨fun c hc => (hq' (h.drained c hc)).elim, this.src, this.leaving, this.gone⟩
    | call k x v hk =>
      have hd : ¬ s.Drained := fun hd => by
        have := hd.held k
        rw [hk] at this
        cases this
      have := h.setPhase hd (k := k) (x := .looping ((node k).call x (s.mem k) v).1) id
      exact ⟨fun c hc => (hd (h.drained c hc)).elim, this.src, this.leaving, this.gone⟩
    | emit k v rest hk =>
      have hd : ¬ s.Drained := fun hd => by
        have := hd.pending k
        rw [hk] at this
        cases this
      have := h.setPhase hd (k := k) (x := .looping rest) id
      exact ⟨fun c hc => (hd (h.drained c hc)).elim, this.src, this.leaving, this.gone⟩
    | refuse k hk hq hc =>
      refine h.leave trivial hc (fun cs hcs => ⟨[], ?_, by simp⟩) (by simp)
      cases hcs
      rfl
    | close k c cs hk =>
      have hsrc := h.src k (by rw [hk]; trivial)
      have hshut := h.shut (h.drained _ hsrc) c
      refine hshut.leave (k := k) trivial ?_ (fun cs' hcs => ?_) (by simp)
      · exact hshut.src k (by show (s.phase k).Left; rw [hk]; trivial)
      · cases hcs
        obtain ⟨ds, hds, hclosed⟩ := hshut.leaving k _ hk
        refine ⟨ds ++ [c], by rw [hds, List.append_assoc]; rfl, fun c' hc' => ?_⟩
        rcases List.mem_append.mp hc' with hc' | hc'
        · exact hclosed c' hc'
        · rw [List.mem_singleton.mp hc']
          exact Function.update_self ..
    | quit k hk =>
      have hsrc := h.src k (by rw [hk]; trivial)
      refine h.leave trivial hsrc (by simp) fun _ => ?_
      obtain ⟨ds, hds, hclosed⟩ := h.leaving k _ hk
      rw [hds, List.append_nil]
      exact hclosed
    | feed v =>
      have hno : ∀ c, s.closed c ≠ true := fun c => by rw [hC c]; simp
      exact ⟨fun c hc => (hno c hc).elim, h.src, h.leaving, h.gone⟩
    | shut c => exact h.shut hC c

/-- A worker downstream of a queue. -/
inductive Downstream (node : ∀ k, Node T Ω (σ k)) (c : ι) : κ → Prop where
  | first (k : κ) (h : (node k).src = c) : Downstream node c k
  | next (k k' : κ) (h : Downstream node c k) (hk' : (node k').src ∈ (node k).shuts) :
      Downstream node c k'

omit [DecidableEq ι] [DecidableEq κ] in
/-- If those whose sources are closed are gone, so are all downstream of a closed queue. -/
lemma Closing.gone_of_downstream (h : s.Closing)
    (hgone : ∀ k, s.closed (node k).src = true → s.phase k = .gone) {c : ι}
    (hc : s.closed c = true) {k : κ} (hk : Downstream node c k) : s.phase k = .gone := by
  induction hk with
  | first k hk => exact hgone k (hk ▸ hc)
  | next k k' _ hk' ih => exact hgone k' (h.gone k ih _ hk')

/-- No worker can leave, or go on with leaving. -/
def Stays (s : Dataflow node) : Prop :=
  ∀ k, s.step (.refuse k) = none ∧ s.step (.close k) = none ∧ s.step (.quit k) = none

/-- Every worker downstream of a closed queue leaves. -/
theorem Closing.gone_of_stays (h : s.Closing) (hs : s.Stays) {c : ι} (hc : s.closed c = true)
    {k : κ} (hk : Downstream node c k) : s.phase k = .gone := by
  have hd := h.drained c hc
  refine h.gone_of_downstream (fun k hsrc => ?_) hc hk
  cases hp : s.phase k with
  | looping rest =>
    obtain rfl : rest = [] := by
      have := hd.pending k
      rwa [hp] at this
    have := (hs k).1
    rw [(Rule.refuse k hp (hd.queue _) hsrc).step] at this
    cases this
  | holding v =>
    have := hd.held k
    rw [hp] at this
    cases this
  | leaving cs =>
    cases cs with
    | nil =>
      have := (hs k).2.2
      rw [(Rule.quit k hp).step] at this
      cases this
    | cons c cs =>
      have := (hs k).2.1
      rw [(Rule.close k c cs hp).step] at this
      cases this
  | gone => rfl

omit [DecidableEq ι] [DecidableEq κ] in
/-- At rest, the workers downstream of a closed queue have left. -/
lemma Closing.gone_of_atRest (h : s.Closing) (hs : s.AtRest) {c : ι} (hc : s.closed c = true)
    {k : κ} (hk : Downstream node c k) : s.phase k = .gone := by
  refine h.gone_of_downstream (fun k hsrc => ?_) hc hk
  rcases hs k with hgone | ⟨-, -, hopen⟩
  · exact hgone
  · rw [hsrc] at hopen
    cases hopen

/-! ### Runs are finite if few items are put -/

section

variable [Fintype κ]

/-- What the network has done: items put, taken and processed, and steps of leaving. -/
def work (s : Dataflow node) : ℕ :=
  s.puts.length + 2 * s.runs.length + ∑ k, (s.phase k).held.length +
    ∑ k, (s.phase k).left (node k).shuts

def Action.isShut : Action κ Ω T → Bool
  | .shut _ => true
  | _       => false

omit [DecidableEq ι] in
lemma work_setPhase (s : Dataflow node) (k : κ) (x : Phase T (T (node k).src)) :
    (s.setPhase k x).work + ((s.phase k).held.length + (s.phase k).left (node k).shuts) =
      s.work + (x.held.length + x.left (node k).shuts) := by
  have hheld := sum_update (fun k (x : Phase T (T (node k).src)) => x.held.length) s.phase k x
  have hleft := sum_update (fun k (x : Phase T (T (node k).src)) => x.left (node k).shuts)
    s.phase k x
  show s.puts.length + 2 * s.runs.length + ∑ k', (Function.update s.phase k x k').held.length +
    ∑ k', (Function.update s.phase k x k').left (node k').shuts + _ = s.puts.length +
    2 * s.runs.length + ∑ k', (s.phase k').held.length +
    ∑ k', (s.phase k').left (node k').shuts + _
  omega

omit [DecidableEq κ] in
lemma work_put (s : Dataflow node) (v : Σ c, T c) : (s.put v).work = s.work + 1 := by
  show (s.puts ++ [v]).length + 2 * s.runs.length + ∑ k, (s.phase k).held.length +
    ∑ k, (s.phase k).left (node k).shuts = _
  rw [List.length_append, work, List.length_singleton]
  omega

/-- Each step but the closing of a queue from outside is work. -/
lemma work_step (h : s.Closing) (hs : s.step a = some s') (ha : a.isShut = false) :
    s.work + 1 ≤ s'.work := by
  cases rule_of_step hs with
  | take k v q hk hq =>
    have hw := work_setPhase (s.setQueue (node k).src q) k (.holding v)
    have hk : (s.setQueue (node k).src q).phase k = .looping [] := hk
    rw [hk] at hw
    have he : (s.setQueue (node k).src q).work = s.work := rfl
    simp only [Phase.held, Phase.left, List.length_nil, List.length_cons] at hw
    omega
  | call k x v hk =>
    have hw := work_setPhase s k (.looping ((node k).call x (s.mem k) v).1)
    have he : (s.ran k x v ((node k).call x (s.mem k) v).1 ((node k).call x (s.mem k) v).2).work =
        (s.setPhase k (.looping ((node k).call x (s.mem k) v).1)).work + 2 := by
      simp only [work, ran, List.length_append, List.length_singleton]
      show _ + 2 * (s.runs.length + 1) + _ + _ = _ + 2 * s.runs.length + _ + _ + 2
      omega
    simp only [hk, Phase.held, Phase.left, List.length_nil, List.length_cons] at hw
    omega
  | emit k v rest hk =>
    have hw := work_setPhase (s.put v) k (.looping rest)
    have hk : (s.put v).phase k = .looping (v :: rest) := hk
    have he := work_put s v
    simp only [hk, Phase.held, Phase.left, List.length_nil] at hw
    omega
  | refuse k hk hq hc =>
    have hw := work_setPhase s k (.leaving (node k).shuts)
    simp only [hk, Phase.held, Phase.left, List.length_nil] at hw
    omega
  | close k c cs hk =>
    obtain ⟨ds, hds, -⟩ := h.leaving k _ hk
    have hw := work_setPhase (s.shut c) k (.leaving cs)
    have hk : (s.shut c).phase k = .leaving (c :: cs) := hk
    have he : (s.shut c).work = s.work := rfl
    simp only [hk, hds, Phase.held, Phase.left, List.length_nil, List.length_append,
      List.length_cons] at hw
    omega
  | quit k hk =>
    obtain ⟨ds, hds, -⟩ := h.leaving k _ hk
    have hw := work_setPhase s k .gone
    simp only [hk, Phase.held, Phase.left, List.length_nil] at hw
    omega
  | feed v =>
    exact (work_put s v).ge
  | shut c => cases ha

omit [DecidableEq κ] in
lemma work_shut (s : Dataflow node) (c : ι) : (s.shut c).work = s.work := rfl

/-- A run is as long as the work it does, the closing of queues from outside not counted. -/
theorem length_le_work {m : ∀ k, σ k} {as : List (Action κ Ω T)} (h : s.Closing)
    (hC : (machine node m).Along Calm s as) (he : (machine node m).exec s as = some s') :
    as.length + s.work ≤ s'.work + as.countP Action.isShut := by
  induction as generalizing s with
  | nil =>
    obtain rfl : s = s' := Option.some.inj he
    simp
  | cons a as ih =>
    obtain ⟨u, hu, he⟩ := Option.bind_eq_some_iff.mp he
    rw [Machine.along_cons] at hC
    have hrest := ih ((inductive_closing m).step _ _ _ h hC.1 hu) (hC.2 u hu) he
    rw [List.length_cons, List.countP_cons]
    cases ha : a.isShut with
    | false =>
      have := work_step h hu ha
      simp only [Bool.false_eq_true, if_false]
      omega
    | true =>
      cases a with
      | shut c =>
        obtain rfl : s.shut c = u := Option.some.inj hu
        rw [work_shut] at hrest
        simp only [if_true]
        omega
      | _ => cases ha

omit [DecidableEq ι] [DecidableEq κ] in
/-- The work is bounded by the number of items put. -/
lemma work_le [Fintype ι] (h : s.Balanced) :
    s.work ≤ 3 * s.puts.length + ∑ k, ((node k).shuts.length + 2) := by
  have hcard := congrArg Multiset.card h.taken
  have hin : Multiset.card s.inHand = ∑ k, (s.phase k).held.length := by
    rw [inHand, Multiset.card_sum]
    exact Finset.sum_congr rfl fun k _ => by rw [Multiset.coe_card, List.length_map]
  rw [Multiset.card_add, Multiset.card_add, hin, Multiset.coe_card, Multiset.coe_card, items,
    List.length_map] at hcard
  have hleft : ∑ k, (s.phase k).left (node k).shuts ≤ ∑ k, ((node k).shuts.length + 2) := by
    refine Finset.sum_le_sum fun k _ => ?_
    cases s.phase k with
    | looping rest => exact Nat.zero_le _
    | holding v => exact Nat.zero_le _
    | leaving cs =>
      simp only [Phase.left]
      omega
    | gone =>
      simp only [Phase.left]
      omega
  rw [work]
  omega

end

end Dataflow

end Transition
