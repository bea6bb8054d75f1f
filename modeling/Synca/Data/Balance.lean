import Mathlib.Algebra.BigOperators.Group.Finset.Sigma
import Mathlib.Algebra.Order.Group.Multiset
import Mathlib.Tactic.Abel
import Synca.Data.Refinement

/-!
# Balance

What was taken from a channel is what its readers have called `f` with and what they have in hand;
what was put into a channel that the producers do not use is what its writers have put, all that
`f` has made so far apart from the outputs still to be put. These are multisets: workers of one
stage overtake each other.
-/

namespace Synca

namespace Data

open Transition

variable {ι κ Ω T : Type*}

section

variable [Fintype κ] {M : Type*} [AddCommMonoid M]

/-- The sum over the workers of all stages. -/
def total (n : κ → ℕ) (a : κ × ℕ → M) : M := ∑ i, ∑ m ∈ Finset.range (n i), a (i, m)

/-- The sum after a change of one summand. -/
lemma total_update [DecidableEq κ] {n : κ → ℕ} {a b : κ × ℕ → M} {w : κ × ℕ}
    (hw : w.2 < n w.1) (h : ∀ w', w' ≠ w → b w' = a w') :
    total n b + a w = total n a + b w := by
  have hsigma : ∀ c : κ × ℕ → M,
      total n c = ∑ x ∈ Finset.univ.sigma fun i => Finset.range (n i), c (x.1, x.2) :=
    fun c => Finset.sum_sigma' _ _ _
  have hmem : (⟨w.1, w.2⟩ : Σ _ : κ, ℕ) ∈ Finset.univ.sigma fun i => Finset.range (n i) := by
    simp [hw]
  have hrest : ∑ x ∈ (Finset.univ.sigma fun i => Finset.range (n i)).erase ⟨w.1, w.2⟩,
      b (x.1, x.2) =
      ∑ x ∈ (Finset.univ.sigma fun i => Finset.range (n i)).erase ⟨w.1, w.2⟩, a (x.1, x.2) := by
    refine Finset.sum_congr rfl fun x hx => h _ fun he => (Finset.mem_erase.mp hx).1 ?_
    rw [← he]
  rw [hsigma, hsigma, ← Finset.add_sum_erase _ _ hmem, ← Finset.add_sum_erase _ _ hmem, hrest,
    add_right_comm, add_comm (b _), add_right_comm]

lemma total_eq_zero {n : κ → ℕ} {a : κ × ℕ → M} (h : ∀ i m, m < n i → a (i, m) = 0) :
    total n a = 0 :=
  Finset.sum_eq_zero fun i _ => Finset.sum_eq_zero fun m hm => h i m (Finset.mem_range.mp hm)

end

section

variable [DecidableEq ι] (stage : κ → Stage ι Ω T) (f : Flow ι κ T) (c : ι)

namespace Flow

/-- What a worker has in hand from the channel. -/
def inHand (w : κ × ℕ) : Multiset T :=
  if (stage w.1).src = c then ((f.phase w).held : Multiset T) else 0

/-- What a worker still has to put into the channel. -/
def owed (w : κ × ℕ) : Multiset T :=
  if (stage w.1).dst = some c then ((f.phase w).pending : Multiset T) else 0

end Flow

/-- The calls of `f` with values of the channel. -/
def readers (runs : List (Run κ T)) : List (Run κ T) :=
  runs.filter fun r => (stage r.worker.1).src = c

/-- The calls of `f` for outputs into the channel. -/
def writers (runs : List (Run κ T)) : List (Run κ T) :=
  runs.filter fun r => (stage r.worker.1).dst = some c

structure Balanced [Fintype κ] (t : Terms ι κ T) : Prop where
  born : ∀ i m, f.phase (i, m) ≠ .unborn → m < (stage i).n
  taken : ∀ c, (f.gots c : Multiset T) =
    (((readers stage c f.runs).map Run.value : List T) : Multiset T) +
      total (fun i => (stage i).n) (f.inHand stage c)
  given : ∀ c, ¬ t.feeds c → (f.puts c : Multiset T) +
    total (fun i => (stage i).n) (f.owed stage c) = ((writers stage c f.runs).flatMap Run.outs)

end

namespace Balanced

variable [DecidableEq ι] [DecidableEq κ] [Fintype κ] {stage : κ → Stage ι Ω T} {c₀ : ι}
  {t : Terms ι κ T} {f f' : Flow ι κ T}

omit [DecidableEq κ] in
lemma init : Balanced stage {} t where
  born _ _ h := absurd rfl h
  taken c := by
    have h : total (fun i => (stage i).n) (({} : Flow ι κ T).inHand stage c) = 0 :=
      total_eq_zero fun i m _ => by simp [Flow.inHand, Phase.held]
    rw [h]
    rfl
  given c _ := by
    have h : total (fun i => (stage i).n) (({} : Flow ι κ T).owed stage c) = 0 :=
      total_eq_zero fun i m _ => by simp [Flow.owed, Phase.pending]
    rw [h]
    rfl

omit [DecidableEq κ] in
/-- Moves of workers that have nothing in hand and nothing to put. -/
lemma frame (h : Balanced stage f t) (hb : ∀ i m, f'.phase (i, m) ≠ .unborn → m < (stage i).n)
    (hg : f'.gots = f.gots) (hq : f'.queue = f.queue) (hr : f'.runs = f.runs)
    (hheld : ∀ w, (f'.phase w).held = (f.phase w).held)
    (hpend : ∀ w, (f'.phase w).pending = (f.phase w).pending) : Balanced stage f' t where
  born := hb
  taken c := by
    have hin : f'.inHand stage c = f.inHand stage c := by
      funext w
      rw [Flow.inHand, Flow.inHand, hheld]
    rw [hg, hr, hin]
    exact h.taken c
  given c hc := by
    have ho : f'.owed stage c = f.owed stage c := by
      funext w
      rw [Flow.owed, Flow.owed, hpend]
    rw [Flow.puts, hg, hq, hr, ho]
    exact h.given c hc

omit [DecidableEq ι] [Fintype κ] in
/-- The phases when one worker has moved. -/
lemma held_setPhase {w : κ × ℕ} {y : Phase T} (hy : y.held = (f.phase w).held) (w' : κ × ℕ) :
    ((f.setPhase w y).phase w').held = (f.phase w').held := by
  rw [Flow.phase_setPhase]
  split_ifs with hw
  · rw [hy, hw]
  · rfl

omit [DecidableEq ι] [Fintype κ] in
lemma pending_setPhase {w : κ × ℕ} {y : Phase T} (hy : y.pending = (f.phase w).pending)
    (w' : κ × ℕ) : ((f.setPhase w y).phase w').pending = (f.phase w').pending := by
  rw [Flow.phase_setPhase]
  split_ifs with hw
  · rw [hy, hw]
  · rfl

lemma born_setPhase (h : Balanced stage f t) {w : κ × ℕ} {y : Phase T} (hw : w.2 < (stage w.1).n)
    (i : κ) (m : ℕ) (hm : (f.setPhase w y).phase (i, m) ≠ .unborn) : m < (stage i).n := by
  rw [Flow.phase_setPhase] at hm
  split_ifs at hm with he
  · subst he
    exact hw
  · exact h.born i m hm

/-- A worker moves on with nothing in hand and nothing to put. -/
lemma setPhase (h : Balanced stage f t) {w : κ × ℕ} {y : Phase T} (hw : w.2 < (stage w.1).n)
    (hheld : y.held = (f.phase w).held) (hpend : y.pending = (f.phase w).pending) :
    Balanced stage (f.setPhase w y) t :=
  h.frame (h.born_setPhase hw) rfl rfl rfl (held_setPhase hheld) (pending_setPhase hpend)

omit [DecidableEq κ] in
lemma lt_of_phase (h : Balanced stage f t) {w : κ × ℕ} {x : Phase T} (hw : f.phase w = x)
    (hx : x ≠ .unborn) : w.2 < (stage w.1).n :=
  h.born w.1 w.2 (by rw [hw]; exact hx)

omit [DecidableEq κ] in
lemma close (h : Balanced stage f t) {c : ι} {E : κ × ℕ → Prop} (hE : f.Released stage c E) :
    Balanced stage (f.close c E) t := by
  have hphase : ∀ w, (f.close c E).phase w = f.phase w ∨
      (f.phase w = .looping [] ∧ (f.close c E).phase w = .ended) := by
    intro w
    by_cases hw : E w
    · exact .inr ⟨hE.looping w hw, if_pos hw⟩
    · exact .inl (if_neg hw)
  refine h.frame (fun i m hm => h.born i m ?_) rfl rfl rfl (fun w => ?_) fun w => ?_
  · rcases hphase (i, m) with he | ⟨he, -⟩
    · rwa [← he]
    · rw [he]
      simp
  · rcases hphase w with he | ⟨he, he'⟩
    · rw [he]
    · rw [he, he']
      rfl
  · rcases hphase w with he | ⟨he, he'⟩
    · rw [he]
    · rw [he, he']
      rfl

/-- One worker moves: the balances are kept if the change in hand is that of what was taken, and
the change of what is owed that of what was put. -/
lemma worker (h : Balanced stage f t) {w : κ × ℕ} {y : Phase T} (hw : w.2 < (stage w.1).n)
    (hp : ∀ w', f'.phase w' = if w' = w then y else f.phase w')
    (htaken : ∀ c, (f'.gots c : Multiset T) +
        ((readers stage c f.runs).map Run.value : List T) + f.inHand stage c w =
      (f.gots c : Multiset T) + ((readers stage c f'.runs).map Run.value : List T) +
        f'.inHand stage c w)
    (hgiven : ∀ c, ¬ t.feeds c → (f'.puts c : Multiset T) + f'.owed stage c w +
        ((writers stage c f.runs).flatMap Run.outs : List T) =
      (f.puts c : Multiset T) + f.owed stage c w +
        ((writers stage c f'.runs).flatMap Run.outs : List T)) : Balanced stage f' t where
  born i m hm := by
    rw [hp] at hm
    split_ifs at hm with he
    · subst he
      exact hw
    · exact h.born i m hm
  taken c := by
    have hsum := total_update (n := fun i => (stage i).n) (a := f.inHand stage c)
      (b := f'.inHand stage c) hw fun w' hw' => by simp only [Flow.inHand, hp, if_neg hw']
    refine add_right_cancel (b := ((readers stage c f.runs).map Run.value : List T) +
      f.inHand stage c w) ?_
    rw [← add_assoc, htaken c, h.taken c, add_add_add_comm _ _ _ (f.inHand stage c w), hsum]
    abel
  given c hc := by
    have hsum := total_update (n := fun i => (stage i).n) (a := f.owed stage c)
      (b := f'.owed stage c) hw fun w' hw' => by simp only [Flow.owed, hp, if_neg hw']
    refine add_right_cancel (b := f.owed stage c w +
      ((writers stage c f.runs).flatMap Run.outs : List T)) ?_
    calc (f'.puts c : Multiset T) + total (fun i => (stage i).n) (f'.owed stage c) +
          (f.owed stage c w + ((writers stage c f.runs).flatMap Run.outs : List T))
        = (f'.puts c : Multiset T) + f'.owed stage c w +
            ((writers stage c f.runs).flatMap Run.outs : List T) +
            total (fun i => (stage i).n) (f.owed stage c) := by
          rw [add_assoc, ← add_assoc (total _ _), hsum]
          abel
      _ = (f.puts c : Multiset T) + f.owed stage c w +
            ((writers stage c f'.runs).flatMap Run.outs : List T) +
            total (fun i => (stage i).n) (f.owed stage c) := by rw [hgiven c hc]
      _ = ((f.puts c : Multiset T) + total (fun i => (stage i).n) (f.owed stage c)) +
            (f.owed stage c w + ((writers stage c f'.runs).flatMap Run.outs : List T)) := by abel
      _ = ((writers stage c f'.runs).flatMap Run.outs : List T) + (f.owed stage c w +
            ((writers stage c f.runs).flatMap Run.outs : List T)) := by
          rw [h.given c hc]
          abel

lemma receive (h : Balanced stage f t) {w : κ × ℕ} {v : T} {q : List T}
    (hw : f.phase w = .looping []) (hq : f.queue (stage w.1).src = v :: q) :
    Balanced stage ((f.dequeue (stage w.1).src v q).setPhase w (.holding v)) t := by
  refine h.worker (h.lt_of_phase hw (by simp)) (Flow.phase_setPhase _ _ · _) (fun c => ?_)
    fun c hc => ?_
  · rw [Flow.inHand, Flow.inHand, Flow.phase_setPhase, if_pos rfl, hw, Flow.gots_setPhase,
      Flow.gots_dequeue]
    rcases eq_or_ne (stage w.1).src c with rfl | hne
    · rw [if_pos rfl, if_pos rfl, if_pos rfl, ← Multiset.coe_add]
      simp only [Phase.held, Multiset.coe_nil, add_zero]
      exact add_right_comm _ _ _
    · rw [if_neg hne, if_neg hne, if_neg hne.symm]
      rfl
  · have hputs : (f.dequeue (stage w.1).src v q).puts c = f.puts c := by
      rcases eq_or_ne c (stage w.1).src with rfl | hne
      · simp [Flow.puts, hq]
      · simp [Flow.puts, hne]
    have ho : ((f.dequeue (stage w.1).src v q).setPhase w (.holding v)).owed stage c w =
        f.owed stage c w := by
      rw [Flow.owed, Flow.owed, Flow.phase_setPhase, if_pos rfl, hw]
      rfl
    rw [ho]
    exact congrArg (fun x : List T => (x : Multiset T) + _ + _) hputs

lemma apply (h : Balanced stage f t) {w : κ × ℕ} {v : T} (x : Ω) (hw : f.phase w = .holding v) :
    Balanced stage { f.setPhase w (.looping ((stage w.1).outputs x v)) with
      runs := f.runs ++ [⟨w, v, (stage w.1).outputs x v⟩] } t := by
  refine h.worker (h.lt_of_phase hw (by simp)) (Flow.phase_setPhase _ _ · _) (fun c => ?_)
    fun c hc => ?_
  · simp only [Flow.inHand, Flow.setPhase, Function.update_self, hw, readers, List.filter_append,
      List.map_append]
    rcases eq_or_ne (stage w.1).src c with he | hne
    · simp [he, Phase.held, ← Multiset.coe_add, add_assoc]
    · simp [hne]
  · simp only [Flow.owed, Flow.setPhase, Function.update_self, hw, writers, List.filter_append,
      List.flatMap_append]
    rcases eq_or_ne (stage w.1).dst (some c) with he | hne
    · simp [he, Phase.pending, ← Multiset.coe_add, Flow.puts]
      abel
    · simp [hne, Flow.puts]

lemma emit (h : Balanced stage f t) {w : κ × ℕ} {d : ι} {v : T} {rest : List T}
    (hw : f.phase w = .looping (v :: rest)) (hd : (stage w.1).dst = some d) :
    Balanced stage ((f.enqueue d v).setPhase w (.looping rest)) t := by
  refine h.worker (h.lt_of_phase hw (by simp)) (Flow.phase_setPhase _ _ · _) (fun c => ?_)
    fun c hc => ?_
  · rw [Flow.inHand, Flow.inHand, Flow.phase_setPhase, if_pos rfl, hw]
    rfl
  · simp only [Flow.owed, Flow.phase_setPhase, hw, hd]
    rcases eq_or_ne c d with rfl | hne
    · simp [Flow.puts, Phase.pending]
      exact List.Perm.refl _
    · simp [Flow.puts, Ne.symm hne, hne]
      exact List.Perm.refl _

/-- Every move keeps the balances. -/
lemma move (h : Balanced stage f t) (hm : f.Move stage c₀ t f') : Balanced stage f' t := by
  cases hm with
  | go w hw hn => exact h.setPhase hn (by rw [hw]; rfl) (by rw [hw]; rfl)
  | feed c v hf hc =>
    refine ⟨h.born, h.taken, fun d hd => ?_⟩
    have hne : d ≠ c := by
      rintro rfl
      exact hd hc
    have hputs : (f.enqueue c v).puts d = f.puts d := by simp [Flow.puts, Flow.enqueue, hne]
    rw [hputs]
    exact h.given d hd
  | receive w v q hw hq => exact h.receive hw hq
  | apply w x v hw => exact h.apply x hw
  | emit w d v rest hw hd => exact h.emit hw hd
  | refuse w hw hq hc =>
    exact h.setPhase (h.lt_of_phase hw (by simp)) (by rw [hw]; rfl) (by rw [hw]; rfl)
  | close w d E hw hd hE ht =>
    have hw' : (f.close d E).phase w = .ended := by
      by_cases he : E w
      · exact if_pos he
      · exact (if_neg he).trans hw
    exact (h.close hE).setPhase (h.lt_of_phase hw (by simp)) (by rw [hw']; rfl) (by rw [hw']; rfl)
  | quit w hw hd =>
    exact h.setPhase (h.lt_of_phase hw (by simp)) (by rw [hw]; rfl) (by rw [hw]; rfl)
  | finish hf ht => exact ⟨h.born, h.taken, h.given⟩
  | shut E hf hE => exact h.close hE

end Balanced

end Data

end Synca
