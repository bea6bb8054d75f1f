import Mathlib.Algebra.BigOperators.Group.Finset.Piecewise
import Mathlib.Algebra.BigOperators.Group.Multiset.Basic
import Mathlib.Tactic.Abel
import Synca.Transition.Machine

/-!
# Networks of workers and queues

Each worker takes the items of one queue, its source, one after the other. A worker has a memory;
what it makes of an item it puts into queues, one item after the other. When its source is closed
and empty it leaves, and closes some queues. The network may have cycles. From outside items are
fed and queues closed.

Nothing is lost: `Balanced` says where each item is. When no item is under way, the items that were
processed are those fed and those made of the items processed.
-/

namespace Transition

variable {ι κ Ω : Type*} {T : ι → Type*} {σ : κ → Type*}

/-- What a worker does; the type `S` has the items of its source. -/
inductive Phase (T : ι → Type*) (S : Type*) where
  /-- It puts items; when none is left it takes the next one of its source. -/
  | looping (rest : List (Σ c, T c))
  | holding (v : S)
  /-- It closes queues. -/
  | leaving (cs : List ι)
  | gone

structure Node (T : ι → Type*) (Ω σ : Type*) where
  src : ι
  /-- What is made of an item; the first argument is what the worker learns from outside. -/
  call : Ω → σ → T src → List (Σ c, T c) × σ
  shuts : List ι

namespace Phase

variable {S : Type*}

def held : Phase T S → List S
  | .holding v => [v]
  | _          => []

def pending : Phase T S → List (Σ c, T c)
  | .looping rest => rest
  | _             => []

/-- The worker is after the next item. -/
def waits : Phase T S → Bool
  | .looping [] => true
  | _           => false

/-- The steps of leaving that were made, of those of a worker that closes `cs`. -/
def left (cs : List ι) : Phase T S → ℕ
  | .leaving rest => 1 + (cs.length - rest.length)
  | .gone         => 2 + cs.length
  | _             => 0

/-- The worker has left, or is about to. -/
def Left : Phase T S → Prop
  | .leaving _ => True
  | .gone      => True
  | _          => False

end Phase

section

variable (node : ∀ k, Node T Ω (σ k))

/-- A worker has processed an item, with what it learned from outside. -/
structure Run where
  worker : κ
  learned : Ω
  item : T (node worker).src
  outs : List (Σ c, T c)

@[ext]
structure Dataflow where
  queue : ∀ c, List (T c) := fun _ => []
  closed : ι → Bool := fun _ => false
  phase : ∀ k, Phase T (T (node k).src) := fun _ => .looping []
  mem : ∀ k, σ k
  /-- All that was put. -/
  puts : List (Σ c, T c) := []
  /-- All that was put from outside. -/
  feeds : List (Σ c, T c) := []
  runs : List (Run node) := []

end

namespace Dataflow

inductive Action (κ Ω : Type*) (T : ι → Type*) where
  | take (k : κ)
  | call (k : κ) (x : Ω)
  | emit (k : κ)
  | refuse (k : κ)
  | close (k : κ)
  | quit (k : κ)
  | feed (v : Σ c, T c)
  | shut (c : ι)

variable [DecidableEq ι] [DecidableEq κ] {node : ∀ k, Node T Ω (σ k)}

def setPhase (s : Dataflow node) (k : κ) (x : Phase T (T (node k).src)) : Dataflow node :=
  { s with phase := Function.update s.phase k x }

def setQueue (s : Dataflow node) (c : ι) (q : List (T c)) : Dataflow node :=
  { s with queue := Function.update s.queue c q }

def put (s : Dataflow node) (v : Σ c, T c) : Dataflow node :=
  { s.setQueue v.1 (s.queue v.1 ++ [v.2]) with puts := s.puts ++ [v] }

def shut (s : Dataflow node) (c : ι) : Dataflow node :=
  { s with closed := Function.update s.closed c true }

/-- A worker has made `outs` of an item. -/
def ran (s : Dataflow node) (k : κ) (x : Ω) (v : T (node k).src) (outs : List (Σ c, T c))
    (m : σ k) : Dataflow node :=
  { s.setPhase k (.looping outs) with
    mem  := Function.update s.mem k m
    runs := s.runs ++ [⟨k, x, v, outs⟩] }

def step (s : Dataflow node) : Action κ Ω T → Option (Dataflow node)
  | .take k => match s.phase k, s.queue (node k).src with
    | .looping [], v :: q => some ((s.setQueue (node k).src q).setPhase k (.holding v))
    | _,           _      => none
  | .call k x => match s.phase k with
    | .holding v =>
      some (s.ran k x v ((node k).call x (s.mem k) v).1 ((node k).call x (s.mem k) v).2)
    | _          => none
  | .emit k => match s.phase k with
    | .looping (v :: rest) => some ((s.put v).setPhase k (.looping rest))
    | _                    => none
  | .refuse k => match s.phase k, s.queue (node k).src with
    | .looping [], [] =>
      if s.closed (node k).src = true then some (s.setPhase k (.leaving (node k).shuts)) else none
    | _,           _  => none
  | .close k => match s.phase k with
    | .leaving (c :: cs) => some ((s.shut c).setPhase k (.leaving cs))
    | _                  => none
  | .quit k => match s.phase k with
    | .leaving [] => some (s.setPhase k .gone)
    | _           => none
  | .feed v => some { s.put v with feeds := s.feeds ++ [v] }
  | .shut c => some (s.shut c)

/-- The workers start with the memories `m`. -/
def machine (node : ∀ k, Node T Ω (σ k)) (m : ∀ k, σ k) :
    Machine (Dataflow node) (Action κ Ω T) where
  init s := s = { mem := m }
  step   := step

/-- The step function as rules. -/
inductive Rule (s : Dataflow node) : Action κ Ω T → Dataflow node → Prop where
  | take (k : κ) (v : T (node k).src) (q : List (T (node k).src)) (hk : s.phase k = .looping [])
      (hq : s.queue (node k).src = v :: q) :
      Rule s (.take k) ((s.setQueue (node k).src q).setPhase k (.holding v))
  | call (k : κ) (x : Ω) (v : T (node k).src) (hk : s.phase k = .holding v) :
      Rule s (.call k x)
        (s.ran k x v ((node k).call x (s.mem k) v).1 ((node k).call x (s.mem k) v).2)
  | emit (k : κ) (v : Σ c, T c) (rest : List (Σ c, T c)) (hk : s.phase k = .looping (v :: rest)) :
      Rule s (.emit k) ((s.put v).setPhase k (.looping rest))
  | refuse (k : κ) (hk : s.phase k = .looping []) (hq : s.queue (node k).src = [])
      (hc : s.closed (node k).src = true) :
      Rule s (.refuse k) (s.setPhase k (.leaving (node k).shuts))
  | close (k : κ) (c : ι) (cs : List ι) (hk : s.phase k = .leaving (c :: cs)) :
      Rule s (.close k) ((s.shut c).setPhase k (.leaving cs))
  | quit (k : κ) (hk : s.phase k = .leaving []) : Rule s (.quit k) (s.setPhase k .gone)
  | feed (v : Σ c, T c) : Rule s (.feed v) { s.put v with feeds := s.feeds ++ [v] }
  | shut (c : ι) : Rule s (.shut c) (s.shut c)

variable {s s' : Dataflow node} {a : Action κ Ω T}

lemma rule_of_step (h : s.step a = some s') : Rule s a s' := by
  cases a with
  | take k =>
    simp only [step] at h
    split at h
    next v q hk hq =>
      cases h
      exact .take k v q hk hq
    next => cases h
  | call k x =>
    simp only [step] at h
    split at h
    next v hk =>
      cases h
      exact .call k x v hk
    next => cases h
  | emit k =>
    simp only [step] at h
    split at h
    next v rest hk =>
      cases h
      exact .emit k v rest hk
    next => cases h
  | refuse k =>
    simp only [step] at h
    split at h
    next hk hq =>
      split_ifs at h with hc
      cases h
      exact .refuse k hk hq hc
    next => cases h
  | close k =>
    simp only [step] at h
    split at h
    next c cs hk =>
      cases h
      exact .close k c cs hk
    next => cases h
  | quit k =>
    simp only [step] at h
    split at h
    next hk =>
      cases h
      exact .quit k hk
    next => cases h
  | feed v =>
    cases h
    exact .feed v
  | shut c =>
    cases h
    exact .shut c

lemma Rule.step (h : Rule s a s') : s.step a = some s' := by
  cases h with
  | take k v q hk hq => simp [Dataflow.step, hk, hq]
  | call k x v hk => simp [Dataflow.step, hk]
  | emit k v rest hk => simp [Dataflow.step, hk]
  | refuse k hk hq hc => simp [Dataflow.step, hk, hq, hc]
  | close k c cs hk => simp [Dataflow.step, hk]
  | quit k hk => simp [Dataflow.step, hk]
  | feed v => rfl
  | shut c => rfl

lemma Rule.reachableBy {C : Dataflow node → Action κ Ω T → Prop} {m : ∀ k, σ k} (h : Rule s a s')
    (hs : (machine node m).ReachableBy C s) (hC : C s a) : (machine node m).ReachableBy C s' :=
  hs.step hC h.step

lemma Rule.reachable {m : ∀ k, σ k} (h : Rule s a s') (hs : (machine node m).Reachable s) :
    (machine node m).Reachable s' :=
  h.reachableBy hs trivial

omit [DecidableEq ι] in
lemma setPhase_self (s : Dataflow node) (k : κ) : s.setPhase k (s.phase k) = s :=
  Dataflow.ext rfl rfl (Function.update_eq_self _ _) rfl rfl rfl rfl

omit [DecidableEq ι] in
lemma setPhase_setPhase (s : Dataflow node) (k : κ) (x y : Phase T (T (node k).src)) :
    (s.setPhase k x).setPhase k y = s.setPhase k y :=
  Dataflow.ext rfl rfl (Function.update_idem _ _ _) rfl rfl rfl rfl

/-- The workers `ks` have been refused. -/
def refuseAll (s : Dataflow node) (ks : List κ) : Dataflow node :=
  { s with phase := fun k => if k ∈ ks then .leaving (node k).shuts else s.phase k }

omit [DecidableEq ι] in
lemma refuseAll_cons (s : Dataflow node) {k : κ} {ks : List κ} (hk : k ∉ ks) :
    (s.setPhase k (.leaving (node k).shuts)).refuseAll ks = s.refuseAll (k :: ks) := by
  refine Dataflow.ext rfl rfl (funext fun i => ?_) rfl rfl rfl rfl
  rcases eq_or_ne i k with rfl | hi
  · simp [refuseAll, setPhase, hk]
  · simp [refuseAll, setPhase, hi]

/-- Workers that wait on queues that are closed and empty may leave, one after the other. -/
lemma reachableBy_refuseAll {C : Dataflow node → Action κ Ω T → Prop}
    (hC : ∀ s k, C s (.refuse k)) {m : ∀ k, σ k} (h : (machine node m).ReachableBy C s)
    {ks : List κ} (hnd : ks.Nodup) (hphase : ∀ k ∈ ks, s.phase k = .looping [])
    (hqueue : ∀ k ∈ ks, s.queue (node k).src = [])
    (hclosed : ∀ k ∈ ks, s.closed (node k).src = true) :
    (machine node m).ReachableBy C (s.refuseAll ks) := by
  induction ks generalizing s with
  | nil => simpa [refuseAll] using h
  | cons k ks ih =>
    obtain ⟨hk, hnd⟩ := List.nodup_cons.mp hnd
    have hr := Rule.refuse k (hphase k List.mem_cons_self) (hqueue k List.mem_cons_self)
      (hclosed k List.mem_cons_self)
    have hother : ∀ i ∈ ks, (s.setPhase k (.leaving (node k).shuts)).phase i = s.phase i :=
      fun i hi => Function.update_of_ne (ne_of_mem_of_not_mem hi hk) _ _
    rw [← refuseAll_cons s hk]
    exact ih (hr.reachableBy h (hC _ _)) hnd
      (fun i hi => (hother i hi).trans (hphase i (List.mem_cons_of_mem _ hi)))
      (fun i hi => hqueue i (List.mem_cons_of_mem _ hi))
      (fun i hi => hclosed i (List.mem_cons_of_mem _ hi))

/-! ### Where the items are -/

section

variable [Fintype ι] [Fintype κ]

/-- The sum after a change of one summand. -/
lemma sum_update {α M : Type*} [Fintype α] [DecidableEq α] [AddCommMonoid M] {β : α → Type*}
    (f : ∀ a, β a → M) (g : ∀ a, β a) (a : α) (x : β a) :
    ∑ b, f b (Function.update g a x b) + f a (g a) = ∑ b, f b (g b) + f a x := by
  have hrest : ∑ b ∈ Finset.univ.erase a, f b (Function.update g a x b) =
      ∑ b ∈ Finset.univ.erase a, f b (g b) :=
    Finset.sum_congr rfl fun b hb => by rw [Function.update_of_ne (Finset.ne_of_mem_erase hb)]
  rw [← Finset.add_sum_erase _ _ (Finset.mem_univ a), hrest, Function.update_self,
    ← Finset.add_sum_erase Finset.univ (fun b => f b (g b)) (Finset.mem_univ a)]
  abel

/-- The items of a list, in no order. -/
abbrev bag {α : Type*} (xs : List α) : Multiset α := xs

/-- What workers still have to put. -/
def owed (s : Dataflow node) : Multiset (Σ c, T c) := ∑ k, bag (s.phase k).pending

/-- What workers were given and have not processed. -/
def inHand (s : Dataflow node) : Multiset (Σ c, T c) :=
  ∑ k, bag ((s.phase k).held.map (Sigma.mk (node k).src))

def stored (s : Dataflow node) : Multiset (Σ c, T c) := ∑ c, bag ((s.queue c).map (Sigma.mk c))

/-- The items of runs. -/
def items (rs : List (Run node)) : List (Σ c, T c) :=
  rs.map fun r => ⟨(node r.worker).src, r.item⟩

/-- What was made in runs. -/
def made (rs : List (Run node)) : List (Σ c, T c) := rs.flatMap Run.outs

/-- Every item that was put is in a queue, in hand, or was processed; every item that was made was
put, or is still to be put. -/
structure Balanced (s : Dataflow node) : Prop where
  taken : bag s.puts = s.stored + s.inHand + bag (items s.runs)
  given : bag s.puts + s.owed = bag s.feeds + bag (made s.runs)

lemma bag_append {α : Type*} (xs ys : List α) : bag (xs ++ ys) = bag xs + bag ys :=
  (Multiset.coe_add xs ys).symm

lemma bag_cons {α : Type*} (x : α) (xs : List α) : bag (x :: xs) = bag [x] + bag xs :=
  bag_append [x] xs

omit [DecidableEq ι] [Fintype ι] in
lemma owed_setPhase (s : Dataflow node) (k : κ) (x : Phase T (T (node k).src)) :
    (s.setPhase k x).owed + bag (s.phase k).pending = s.owed + bag x.pending :=
  sum_update (fun k (x : Phase T (T (node k).src)) => bag x.pending) s.phase k x

omit [DecidableEq ι] [Fintype ι] in
lemma inHand_setPhase (s : Dataflow node) (k : κ) (x : Phase T (T (node k).src)) :
    (s.setPhase k x).inHand + bag ((s.phase k).held.map (Sigma.mk (node k).src)) =
      s.inHand + bag (x.held.map (Sigma.mk (node k).src)) :=
  sum_update (fun k (x : Phase T (T (node k).src)) => bag (x.held.map (Sigma.mk (node k).src)))
    s.phase k x

omit [DecidableEq κ] [Fintype κ] in
lemma stored_setQueue (s : Dataflow node) (c : ι) (q : List (T c)) :
    (s.setQueue c q).stored + bag ((s.queue c).map (Sigma.mk c)) =
      s.stored + bag (q.map (Sigma.mk c)) :=
  sum_update (fun c (q : List (T c)) => bag (q.map (Sigma.mk c))) s.queue c q

omit [DecidableEq κ] [Fintype κ] in
lemma stored_put (s : Dataflow node) (v : Σ c, T c) : (s.put v).stored = s.stored + bag [v] := by
  have h := stored_setQueue s v.1 (s.queue v.1 ++ [v.2])
  rw [List.map_append, bag_append, add_comm (bag _) (bag _), ← add_assoc] at h
  exact add_right_cancel h

omit [DecidableEq κ] [Fintype κ] in
lemma stored_dequeue {s : Dataflow node} {c : ι} {v : T c} {q : List (T c)}
    (h : s.queue c = v :: q) : s.stored = (s.setQueue c q).stored + bag [⟨c, v⟩] := by
  have hs := stored_setQueue s c q
  rw [h, List.map_cons, bag_cons, ← add_assoc] at hs
  exact (add_right_cancel hs).symm

namespace Balanced

omit [DecidableEq ι] in
/-- Nothing is lost by a change of phase in which nothing is held or to be put. -/
lemma setPhase (h : s.Balanced) {k : κ} {x : Phase T (T (node k).src)}
    (hheld : x.held = (s.phase k).held) (hpending : x.pending = (s.phase k).pending) :
    (s.setPhase k x).Balanced := by
  have hin := inHand_setPhase s k x
  have hout := owed_setPhase s k x
  rw [hheld] at hin
  rw [hpending] at hout
  refine ⟨?_, ?_⟩
  · rw [add_right_cancel hin]
    exact h.taken
  · rw [add_right_cancel hout]
    exact h.given

lemma take (h : s.Balanced) {k : κ} {v : T (node k).src} {q : List (T (node k).src)}
    (hk : s.phase k = .looping []) (hq : s.queue (node k).src = v :: q) :
    ((s.setQueue (node k).src q).setPhase k (.holding v)).Balanced := by
  have hstored := stored_dequeue hq
  have hin := inHand_setPhase (s.setQueue (node k).src q) k (.holding v)
  have hout := owed_setPhase (s.setQueue (node k).src q) k (.holding v)
  have hk : (s.setQueue (node k).src q).phase k = .looping [] := hk
  simp only [hk, Phase.held, Phase.pending, List.map_nil, List.map_cons, bag, Multiset.coe_nil,
    add_zero] at hin hout
  refine ⟨?_, ?_⟩
  · show bag s.puts = (s.setQueue (node k).src q).stored + _ + bag (items s.runs)
    rw [h.taken, hstored, hin]
    show _ + s.inHand + _ = _ + (s.inHand + _) + _
    abel
  · rw [hout]
    exact h.given

omit [DecidableEq ι] in
lemma call (h : s.Balanced) {k : κ} {v : T (node k).src} (hk : s.phase k = .holding v) (x : Ω)
    (outs : List (Σ c, T c)) (m : σ k) : (s.ran k x v outs m).Balanced := by
  have hin := inHand_setPhase s k (.looping outs)
  have hout := owed_setPhase s k (.looping outs)
  simp only [hk, Phase.held, Phase.pending, List.map_nil, List.map_cons, bag, Multiset.coe_nil,
    add_zero] at hin hout
  refine ⟨?_, ?_⟩
  · show bag s.puts = s.stored + (s.setPhase k (.looping outs)).inHand +
      bag (items (s.runs ++ [⟨k, x, v, outs⟩]))
    rw [h.taken, ← hin, items, items, List.map_append, bag_append]
    show _ = _ + _ + (_ + bag [_])
    abel
  · show bag s.puts + (s.setPhase k (.looping outs)).owed = bag s.feeds +
      bag (Dataflow.made (s.runs ++ [⟨k, x, v, outs⟩]))
    rw [hout, ← add_assoc, h.given, Dataflow.made, Dataflow.made, List.flatMap_append, bag_append,
      add_assoc]
    simp

lemma emit (h : s.Balanced) {k : κ} {v : Σ c, T c} {rest : List (Σ c, T c)}
    (hk : s.phase k = .looping (v :: rest)) :
    ((s.put v).setPhase k (.looping rest)).Balanced := by
  have hin := inHand_setPhase (s.put v) k (.looping rest)
  have hout := owed_setPhase (s.put v) k (.looping rest)
  have hk : (s.put v).phase k = .looping (v :: rest) := hk
  rw [hk] at hin hout
  simp only [Phase.held, List.map_nil, bag, Multiset.coe_nil, add_zero] at hin
  rw [Phase.pending, Phase.pending, bag_cons, ← add_assoc] at hout
  have hout := add_right_cancel hout
  refine ⟨?_, ?_⟩
  · show bag (s.puts ++ [v]) = (s.put v).stored + _ + bag (items s.runs)
    rw [hin, stored_put, bag_append, h.taken]
    show _ + bag [v] = _ + bag [v] + s.inHand + _
    abel
  · show bag (s.puts ++ [v]) + _ = bag s.feeds + bag (Dataflow.made s.runs)
    rw [← h.given, bag_append]
    show _ + bag [v] + _ = _ + (s.put v).owed
    rw [← hout]
    abel

omit [DecidableEq κ] in
lemma feed (h : s.Balanced) (v : Σ c, T c) :
    Balanced { s.put v with feeds := s.feeds ++ [v] } := by
  refine ⟨?_, ?_⟩
  · show bag (s.puts ++ [v]) = (s.put v).stored + s.inHand + bag (items s.runs)
    rw [stored_put, bag_append, h.taken]
    abel
  · show bag (s.puts ++ [v]) + s.owed = bag (s.feeds ++ [v]) + bag (Dataflow.made s.runs)
    rw [bag_append, bag_append, add_right_comm, h.given]
    exact add_right_comm _ _ _

end Balanced

theorem inductive_balanced (m : ∀ k, σ k) :
    (machine node m).Inductive (fun _ _ => True) Balanced where
  init s hs := by
    obtain rfl := hs
    refine ⟨?_, ?_⟩ <;> simp [stored, inHand, owed, items, made, Phase.held, Phase.pending]
  step s a s' h _ hs := by
    cases rule_of_step hs with
    | take k v q hk hq => exact h.take hk hq
    | call k x v hk => exact h.call hk _ _ _
    | emit k v rest hk => exact h.emit hk
    | refuse k hk hq hc => exact h.setPhase (by rw [hk]; rfl) (by rw [hk]; rfl)
    | close k c cs hk =>
      have hc : (s.shut c).Balanced := ⟨h.taken, h.given⟩
      have hk : (s.shut c).phase k = .leaving (c :: cs) := hk
      exact hc.setPhase (by rw [hk]; rfl) (by rw [hk]; rfl)
    | quit k hk => exact h.setPhase (by rw [hk]; rfl) (by rw [hk]; rfl)
    | feed v => exact h.feed v
    | shut c => exact ⟨h.taken, h.given⟩

end

/-! ### At rest -/

/-- No item is in a queue or with a worker. -/
structure Drained (s : Dataflow node) : Prop where
  queue : ∀ c, s.queue c = []
  held : ∀ k, (s.phase k).held = []
  pending : ∀ k, (s.phase k).pending = []

omit [DecidableEq ι] [DecidableEq κ] in
/-- The items that were processed are those fed and those made of the items processed. -/
theorem Balanced.of_drained [Fintype ι] [Fintype κ] (h : s.Balanced) (hd : s.Drained) :
    bag (items s.runs) = bag s.feeds + bag (made s.runs) ∧ bag s.puts = bag (items s.runs) := by
  have hstored : s.stored = 0 :=
    Finset.sum_eq_zero fun c _ => by rw [hd.queue]; rfl
  have hin : s.inHand = 0 := Finset.sum_eq_zero fun k _ => by rw [hd.held]; rfl
  have hout : s.owed = 0 := Finset.sum_eq_zero fun k _ => by rw [hd.pending]; rfl
  have htaken := h.taken
  have hgiven := h.given
  rw [hstored, hin, zero_add, zero_add] at htaken
  rw [hout, add_zero] at hgiven
  exact ⟨htaken.symm.trans hgiven, htaken⟩

/-- Each worker has left, or waits on a queue that is empty and not closed. -/
def AtRest (s : Dataflow node) : Prop :=
  ∀ k, s.phase k = .gone ∨
    s.phase k = .looping [] ∧ s.queue (node k).src = [] ∧ s.closed (node k).src = false

/-- What processing an item keeps of runs and memories is kept. -/
theorem of_ran {m : ∀ k, σ k} {C : Dataflow node → Action κ Ω T → Prop}
    {P : List (Run node) → (∀ k, σ k) → Prop} (h₀ : P [] m)
    (hran : ∀ rs μ k x v, P rs μ → P (rs ++ [⟨k, x, v, ((node k).call x (μ k) v).1⟩])
      (Function.update μ k ((node k).call x (μ k) v).2))
    (h : (machine node m).ReachableBy C s) : P s.runs s.mem := by
  induction h with
  | init h => exact h ▸ h₀
  | step _ _ hs ih =>
    cases rule_of_step hs with
    | call k x v hk => exact hran _ _ k x v ih
    | _ => exact ih

/-! ### The items of one queue -/

section

/-- The items of a list that belong to the queue `c`. -/
def on (c : ι) (xs : List (Σ c, T c)) : List (T c) :=
  xs.filterMap fun x => if h : x.1 = c then some (h ▸ x.2) else none

variable {c d : ι} {xs ys zs : List (Σ c, T c)}

@[simp] lemma on_nil (c : ι) : on c ([] : List (Σ c, T c)) = [] := rfl

@[simp] lemma on_append (c : ι) (xs ys : List (Σ c, T c)) : on c (xs ++ ys) = on c xs ++ on c ys :=
  List.filterMap_append

@[simp] lemma on_cons_self (v : T c) : on c (⟨c, v⟩ :: xs) = v :: on c xs := by
  simp [on]

@[simp] lemma on_cons_ne (h : d ≠ c) (v : T d) : on c (⟨d, v⟩ :: xs) = on c xs := by
  simp [on, h]

@[simp] lemma on_map_self (l : List (T c)) : on c (l.map (Sigma.mk c)) = l := by
  induction l with
  | nil => rfl
  | cons v l ih => rw [List.map_cons, on_cons_self, ih]

@[simp] lemma on_map_ne (h : d ≠ c) (l : List (T d)) : on c (l.map (Sigma.mk d)) = [] := by
  induction l with
  | nil => rfl
  | cons v l ih => rw [List.map_cons, on_cons_ne h, ih]

lemma mem_on {v : T c} : v ∈ on c xs ↔ ⟨c, v⟩ ∈ xs := by
  induction xs with
  | nil => simp
  | cons x xs ih =>
    obtain ⟨d, w⟩ := x
    by_cases h : d = c
    · subst h
      simp [ih]
    · rw [on_cons_ne h, ih, List.mem_cons]
      refine ⟨.inr, fun hv => hv.resolve_left fun he => h ?_⟩
      exact (congrArg Sigma.fst he).symm

lemma bag_on (c : ι) (xs : List (Σ c, T c)) : bag (on c xs) =
    (bag xs).filterMap fun x => if h : x.1 = c then some (h ▸ x.2) else none := rfl

lemma bag_on_le (h : bag xs ≤ bag ys) (c : ι) : bag (on c xs) ≤ bag (on c ys) := by
  rw [bag_on, bag_on]
  exact Multiset.filterMap_le_filterMap _ h

lemma bag_on_add (h : bag xs = bag ys + bag zs) (c : ι) :
    bag (on c xs) = bag (on c ys) + bag (on c zs) := by
  rw [← bag_append] at h
  rw [← bag_append, ← on_append, bag_on, h, ← bag_on]

/-- Every item belongs to one queue. -/
lemma length_eq_sum_on [Fintype ι] (xs : List (Σ c, T c)) :
    xs.length = ∑ c, (on c xs).length := by
  induction xs with
  | nil => simp
  | cons x xs ih =>
    obtain ⟨d, v⟩ := x
    have hsplit : ∀ c, (on c (⟨d, v⟩ :: xs)).length =
        (on c xs).length + if c = d then 1 else 0 := by
      intro c
      by_cases h : c = d
      · subst h
        simp
      · rw [on_cons_ne (Ne.symm h), if_neg h, Nat.add_zero]
    rw [List.length_cons, ih, Finset.sum_congr rfl fun c _ => hsplit c, Finset.sum_add_distrib,
      Finset.sum_ite_eq', if_pos (Finset.mem_univ d)]

variable [Fintype ι] [Fintype κ]

omit [DecidableEq ι] [DecidableEq κ] in
lemma Balanced.mem_puts (h : s.Balanced) {k : κ} {v : T (node k).src}
    (hk : s.phase k = .holding v) : ⟨_, v⟩ ∈ s.puts := by
  have hin : ⟨_, v⟩ ∈ s.inHand := by
    refine Multiset.mem_sum.mpr ⟨k, Finset.mem_univ k, ?_⟩
    rw [hk]
    exact List.mem_singleton_self _
  have hputs : (⟨_, v⟩ : Σ c, T c) ∈ bag s.puts := by
    rw [h.taken]
    exact Multiset.mem_add.mpr (.inl (Multiset.mem_add.mpr (.inr hin)))
  exact hputs

omit [DecidableEq ι] [DecidableEq κ] in
/-- What was processed was put, and what was put was fed or made. -/
lemma Balanced.le (h : s.Balanced) :
    bag (items s.runs) ≤ bag s.puts ∧ bag s.puts ≤ bag (s.feeds ++ made s.runs) := by
  rw [bag_append, ← h.given, h.taken]
  exact ⟨Multiset.le_add_left _ _, Multiset.le_add_right _ _⟩

end

end Dataflow

end Transition
