import Mathlib.Data.Fintype.Basic
import Mathlib.Data.Fintype.Sigma
import Synca.Data.Refinement
import Synca.Transition.Dataflow

/-!
# The network of the workers

The pipelines on channels are a network of workers and queues: whatever the steps inside the calls,
what happens to the values in a run of the pipelines happens in a run of the network, where a `put`,
a `get` and a `close` are one step each. When a channel is closed while workers are suspended in
`get`, these are refused one after the other.
-/

namespace Synca

namespace Data

open Transition

variable {ι κ Ω T : Type*}

/-- The outputs, on their way to the destination. -/
def Stage.sends (st : Stage ι Ω T) (vs : List T) : List (Σ _ : ι, T) :=
  match st.dst with
  | some d => vs.map (Sigma.mk d)
  | none   => []

abbrev Stage.node (st : Stage ι Ω T) : Node (fun _ : ι => T) Ω Unit where
  src := st.src
  call x m v := (st.sends (st.outputs x v), m)
  shuts := st.dst.toList

lemma Stage.sends_nil (st : Stage ι Ω T) : st.sends [] = [] := by
  unfold Stage.sends
  split <;> rfl

lemma Stage.sends_cons {st : Stage ι Ω T} {d : ι} (hd : st.dst = some d) (v : T) (vs : List T) :
    st.sends (v :: vs) = ⟨d, v⟩ :: st.sends vs := by
  simp [Stage.sends, hd]

/-- What a worker of the stage is at, in the network. -/
def Stage.view (st : Stage ι Ω T) : Phase T → Transition.Phase (fun _ : ι => T) T
  | .unborn       => .looping []
  | .looping rest => .looping (st.sends rest)
  | .holding v    => .holding v
  | .ended        => .leaving st.dst.toList
  | .done         => .gone

variable (stage : κ → Stage ι Ω T)

/-- The workers of all stages. -/
abbrev Member := Σ i : κ, Fin (stage i).n

abbrev network (k : Member stage) : Node (fun _ : ι => T) Ω Unit := (stage k.1).node

variable {stage}

def Member.seat (k : Member stage) : κ × ℕ := (k.1, k.2)

lemma Member.seat_injective : Function.Injective (Member.seat : Member stage → κ × ℕ) := by
  rintro ⟨i, m⟩ ⟨j, n⟩ h
  obtain ⟨rfl, h⟩ := Prod.mk.inj h
  exact congrArg (Sigma.mk i) (Fin.ext h)

section

variable [DecidableEq ι]

/-- The network shows a flow. -/
structure Flow.Shown (stage : κ → Stage ι Ω T) (f : Flow ι κ T) (d : Dataflow (network stage)) :
    Prop where
  queue : ∀ c, d.queue c = f.queue c
  closed : ∀ c, d.closed c = f.closed c
  puts : ∀ c, Dataflow.on c d.puts = f.puts c
  phase : ∀ k : Member stage, d.phase k = (stage k.1).view (f.phase k.seat)
  runs : d.runs.map (fun r => (Member.seat r.worker, r.item, r.outs)) =
    f.runs.map fun r => (r.worker, r.value, (stage r.worker.1).sends r.outs)
  /-- A stage has no more workers. -/
  unborn : ∀ i m, (stage i).n ≤ m → f.phase (i, m) = .unborn

end

namespace Flow

variable [DecidableEq ι] [DecidableEq κ] {c₀ : ι} {t : Terms ι κ T} {f f' : Flow ι κ T}
  {d : Dataflow (network stage)} {w : κ × ℕ}

omit [DecidableEq κ] in
lemma Shown.init : Shown stage {} { mem := fun _ => () } where
  queue _  := rfl
  closed _ := rfl
  puts _   := rfl
  phase _  := rfl
  runs     := rfl
  unborn _ _ _ := rfl

omit [DecidableEq κ] in
/-- A worker that was made has a place in the network. -/
lemma Shown.exists_seat (h : f.Shown stage d) (hw : f.phase w ≠ .unborn) :
    ∃ k : Member stage, k.seat = w :=
  ⟨⟨w.1, w.2, not_le.mp fun hn => hw (h.unborn w.1 w.2 hn)⟩, rfl⟩

lemma Shown.setPhase (h : f.Shown stage d) {k : Member stage} {x : Phase T}
    {y : Transition.Phase (fun _ : ι => T) T} (hy : y = (stage k.1).view x) :
    (f.setPhase k.seat x).Shown stage (d.setPhase k y) where
  queue  := h.queue
  closed := h.closed
  puts   := h.puts
  runs   := h.runs
  phase i := by
    rw [phase_setPhase]
    rcases eq_or_ne i k with rfl | hi
    · rw [if_pos rfl, hy]
      exact Function.update_self _ _ _
    · rw [if_neg fun he => hi (Member.seat_injective he)]
      exact (Function.update_of_ne hi _ _).trans (h.phase i)
  unborn i m hm := by
    rw [phase_setPhase, if_neg]
    · exact h.unborn i m hm
    · rintro he
      obtain ⟨rfl, rfl⟩ := Prod.mk.inj he
      exact absurd k.2.2 (not_lt.mpr hm)

omit [DecidableEq κ] in
lemma Shown.enqueue (h : f.Shown stage d) (c : ι) (v : T) :
    (f.enqueue c v).Shown stage (d.put ⟨c, v⟩) where
  closed := h.closed
  phase  := h.phase
  runs   := h.runs
  unborn := h.unborn
  queue c' := by
    rw [queue_enqueue]
    show Function.update d.queue c (d.queue c ++ [v]) c' = _
    rw [Function.update_apply, h.queue, h.queue]
  puts c' := by
    show Dataflow.on c' (d.puts ++ [⟨c, v⟩]) = f.gots c' ++ (f.enqueue c v).queue c'
    rw [Dataflow.on_append, h.puts, queue_enqueue, Flow.puts, List.append_assoc]
    split_ifs with hc
    · subst hc
      simp
    · simp [Ne.symm hc]

omit [DecidableEq κ] in
lemma Shown.dequeue (h : f.Shown stage d) {c : ι} {v : T} {q : List T} (hq : f.queue c = v :: q) :
    (f.dequeue c v q).Shown stage (d.setQueue c q) where
  closed := h.closed
  phase  := h.phase
  runs   := h.runs
  unborn := h.unborn
  queue c' := by
    rw [queue_dequeue]
    show Function.update d.queue c q c' = _
    rw [Function.update_apply, h.queue]
  puts c' := by
    show Dataflow.on c' d.puts = _
    rw [h.puts, Flow.puts, Flow.puts, gots_dequeue, queue_dequeue]
    split_ifs with hc
    · rw [hc, hq, List.append_assoc, List.singleton_append]
    · rfl

/-- A worker calls `f`. -/
lemma Shown.run (h : f.Shown stage d) {k : Member stage} (x : Ω) (v : T) (outs : List T) :
    Flow.Shown stage
      { f.setPhase k.seat (.looping outs) with runs := f.runs ++ [⟨k.seat, v, outs⟩] }
      (d.ran k x v ((stage k.1).sends outs) ()) :=
  have hphase := h.setPhase (k := k) (x := .looping outs) rfl
  { queue  := h.queue
    closed := h.closed
    puts   := h.puts
    phase  := hphase.phase
    unborn := hphase.unborn
    runs   := by
      show (d.runs ++ [_]).map _ = (f.runs ++ [_]).map _
      rw [List.map_append, List.map_append, h.runs]
      rfl }

variable [Fintype κ]

open Classical in
/-- A channel is closed, and the workers `E` are refused one after the other. -/
lemma Shown.close (h : f.Shown stage d) {c : ι}
    (hd : (Dataflow.machine (network stage) fun _ => ()).Reachable (d.shut c))
    {E : κ × ℕ → Prop} (hE : f.Released stage c E) :
    ∃ d', (Dataflow.machine (network stage) fun _ => ()).Reachable d' ∧
      (f.close c E).Shown stage d' := by
  set ks : List (Member stage) := (Finset.univ.filter fun k => E k.seat).toList with hks
  have hmem : ∀ k, k ∈ ks ↔ E k.seat := fun k => by simp [hks]
  have hclosed : ∀ c', (d.shut c).closed c' = (f.close c E).closed c' := fun c' => by
    rw [closed_close, ← h.closed]
    exact Function.update_apply _ _ _ _
  refine ⟨(d.shut c).refuseAll ks, Dataflow.reachableBy_refuseAll (fun _ _ => trivial) hd
    (Finset.nodup_toList _)
    (fun k hk => ?_) (fun k hk => ?_) (fun k hk => ?_), ?_⟩
  · have hw := hE.looping _ ((hmem k).mp hk)
    refine (h.phase k).trans ?_
    rw [hw]
    exact congrArg _ (Stage.sends_nil _)
  · have hE' := (hmem k).mp hk
    refine (h.queue _).trans ?_
    rw [show (network stage k).src = c from hE.src _ hE']
    exact hE.queue _ hE'
  · rw [show (network stage k).src = c from hE.src _ ((hmem k).mp hk)]
    exact Function.update_self _ _ _
  · exact
      { queue  := h.queue
        closed := hclosed
        puts   := h.puts
        runs   := h.runs
        phase k := by
          show (if k ∈ ks then _ else d.phase k) = (stage k.1).view (if E k.seat then _ else _)
          simp only [hmem]
          split_ifs
          · rfl
          · exact h.phase k
        unborn i m hm := by
          have hu := h.unborn i m hm
          refine (if_neg fun he => ?_).trans hu
          cases hu.symm.trans (hE.looping _ he) }

omit [Fintype κ] in
lemma close_setPhase (f : Flow ι κ T) (c : ι) {E : κ × ℕ → Prop} {w : κ × ℕ} (hw : ¬ E w)
    (x : Phase T) : (f.setPhase w x).close c E = (f.close c E).setPhase w x := by
  refine Flow.ext rfl rfl rfl (funext fun w' => ?_) rfl rfl
  rw [phase_setPhase]
  simp only [close, phase_setPhase]
  rcases eq_or_ne w' w with rfl | hne
  · rw [if_neg hw, if_pos rfl, if_pos rfl]
  · rw [if_neg hne, if_neg hne]

/-- Every move is seen as steps of the network. -/
theorem Shown.move (h : f.Shown stage d)
    (hd : (Dataflow.machine (network stage) fun _ => ()).Reachable d) (hm : f.Move stage c₀ t f') :
    ∃ d', (Dataflow.machine (network stage) fun _ => ()).Reachable d' ∧ f'.Shown stage d' := by
  have hwaits : ∀ k : Member stage, f.phase k.seat = .looping [] → d.phase k = .looping [] :=
    fun k hk => by rw [h.phase, hk, Stage.view, Stage.sends_nil]
  cases hm with
  | go w hw hn =>
    set k : Member stage := ⟨w.1, w.2, hn⟩
    have hk : d.phase k = (stage k.1).view (.looping []) := by
      rw [h.phase, show f.phase k.seat = .unborn from hw, Stage.view, Stage.view, Stage.sends_nil]
    have hset := h.setPhase hk
    rw [Dataflow.setPhase_self] at hset
    exact ⟨d, hd, hset⟩
  | feed c v hf ht =>
    have hr := Dataflow.Rule.feed (s := d) ⟨c, v⟩
    have hput := h.enqueue c v
    exact ⟨_, hr.reachable hd,
      ⟨hput.queue, hput.closed, hput.puts, hput.phase, hput.runs, hput.unborn⟩⟩
  | receive w v q hw hq =>
    obtain ⟨k, rfl⟩ := h.exists_seat (by rw [hw]; simp)
    have hq : f.queue (stage k.1).src = v :: q := hq
    have hr := Dataflow.Rule.take k v q (hwaits k hw) ((h.queue _).trans hq)
    exact ⟨_, hr.reachable hd, (h.dequeue hq).setPhase rfl⟩
  | apply w x v hw =>
    obtain ⟨k, rfl⟩ := h.exists_seat (by rw [hw]; simp)
    have hk : d.phase k = .holding v := by rw [h.phase, hw, Stage.view]
    have hr := Dataflow.Rule.call (s := d) k x v hk
    exact ⟨_, hr.reachable hd, h.run x v _⟩
  | emit w c v rest hw hc =>
    obtain ⟨k, rfl⟩ := h.exists_seat (by rw [hw]; simp)
    have hc : (stage k.1).dst = some c := hc
    have hk : d.phase k = .looping (⟨c, v⟩ :: (stage k.1).sends rest) := by
      rw [h.phase, hw, Stage.view, Stage.sends_cons hc]
    have hr := Dataflow.Rule.emit k _ _ hk
    exact ⟨_, hr.reachable hd, (h.enqueue c v).setPhase rfl⟩
  | refuse w hw hq hc =>
    obtain ⟨k, rfl⟩ := h.exists_seat (by rw [hw]; simp)
    have hr := Dataflow.Rule.refuse k (hwaits k hw) ((h.queue _).trans hq) ((h.closed _).trans hc)
    exact ⟨_, hr.reachable hd, h.setPhase rfl⟩
  | close w c E hw hc hE ht =>
    obtain ⟨k, rfl⟩ := h.exists_seat (by rw [hw]; simp)
    have hc : (stage k.1).dst = some c := hc
    have hk : d.phase k = .leaving [c] := by
      rw [h.phase, hw, Stage.view, hc]
      rfl
    have hne : ∀ w', E w' → w' ≠ k.seat := by
      rintro w' hw' rfl
      cases hw.symm.trans (hE.looping _ hw')
    -- it closes the channel and leaves, before the others are refused
    have hr := Dataflow.Rule.close k c [] hk
    have hr' := Dataflow.Rule.quit (s := (d.shut c).setPhase k (.leaving [])) k
      (Function.update_self _ _ _)
    have hd' := hr'.reachable (hr.reachable hd)
    rw [Dataflow.setPhase_setPhase] at hd'
    have hE' : (f.setPhase k.seat .done).Released stage c E :=
      { src     := hE.src
        queue   := hE.queue
        looping := fun w' hw' => by
          rw [phase_setPhase, if_neg (hne w' hw')]
          exact hE.looping w' hw' }
    have hset : (f.setPhase k.seat .done).Shown stage (d.setPhase k .gone) := h.setPhase rfl
    obtain ⟨d', hd', hshown⟩ := hset.close hd' hE'
    exact ⟨d', hd', close_setPhase f c (fun hw => hne _ hw rfl) .done ▸ hshown⟩
  | quit w hw hc =>
    obtain ⟨k, rfl⟩ := h.exists_seat (by rw [hw]; simp)
    have hc : (stage k.1).dst = none := hc
    have hk : d.phase k = .leaving [] := by
      rw [h.phase, hw, Stage.view, hc]
      rfl
    have hr := Dataflow.Rule.quit k hk
    exact ⟨_, hr.reachable hd, h.setPhase rfl⟩
  | finish hf ht => exact ⟨d, hd, ⟨h.queue, h.closed, h.puts, h.phase, h.runs, h.unborn⟩⟩
  | shut E hf hE =>
    have hr := Dataflow.Rule.shut (s := d) c₀
    exact h.close (hr.reachable hd) hE

end Flow

namespace Pipes

variable [DecidableEq ι] [DecidableEq κ] [Fintype κ] {c₀ : ι} {t : Terms ι κ T} {s : Pipes ι κ T}

/-- Every state of the pipelines is shown by a state of the network: the channels hold the same and
have been given the same, the workers are at the same, and `f` was called on the same values in the
same order. When no task of the pipelines is left, the network is at rest: no worker has missed a
value or a closing. -/
theorem exists_shown (h : (machine stage c₀).ReachableBy (Meets stage t) s) :
    ∃ d, (Dataflow.machine (network stage) fun _ => ()).Reachable d ∧
      (s.flow stage).Shown stage d ∧
      (∀ c, d.queue c = (s.chan c).queue ∧ d.closed c = (s.chan c).closed ∧
        Dataflow.on c d.puts = (s.chan c).puts) ∧
      (s.Idle stage → d.AtRest) := by
  have hS := (inductive_sound stage c₀ t).holds h
  obtain ⟨d, hd, hshown⟩ := holds_flow (I := fun f => ∃ d, _ ∧ f.Shown stage d)
    ⟨_, .init rfl, .init⟩ (fun f f' hf hm => hf.elim fun d hd => hd.2.move hd.1 hm) h
  refine ⟨d, hd, hshown, fun c => ⟨hshown.queue c, hshown.closed c, ?_⟩, fun hidle k => ?_⟩
  · exact (hshown.puts c).trans (hS.still c).values.conserved.symm
  · rcases hS.worker_of_idle hidle k.1 k.2 k.2.2 with hdone | ⟨hw, hq, hc⟩
    · refine .inl ?_
      rw [hshown.phase, show (s.flow stage).phase k.seat = .done from Sound.phase_of_pc hdone,
        Stage.view]
    · refine .inr ⟨?_, (hshown.queue _).trans hq, (hshown.closed _).trans hc⟩
      rw [hshown.phase, show (s.flow stage).phase k.seat = .looping [] from hw, Stage.view,
        Stage.sends_nil]

end Pipes

/-- Two workers on one channel. -/
def increment : Unit → Stage Bool Unit ℕ :=
  fun _ => piping1to1 false true (fun _ v => .ok (v + 1)) 2

/-- Both workers are suspended when the value 5 is put; the second one is given it. The first one is
refused in the section of the call that closes the channel. -/
def incremented : List (Pipes.Action Bool Unit Unit ℕ) :=
  [.piping (), .go (), .go (), .go (), .get ((), 0) 0, .channel false (.lock 0),
    .channel false (.enterDefer 0 false), .channel false (.setProceed 0), .get ((), 1) 1,
    .channel false (.lock 1), .channel false (.enterDefer 1 false), .channel false (.setProceed 1),
    .feed false 2 5, .channel false (.lock 2), .channel false (.handOff 2), .finish, .shut 3,
    .channel false (.lock 3), .channel false (.closeNext 3), .channel false (.closeNext 3),
    .shutDone, .channel false (.resume 1), .channel false (.leaveDefer 1 false),
    .apply ((), 1) (), .put ((), 1) 0, .channel true (.lock 0), .putDone ((), 1),
    .channel false (.resume 0), .channel false (.leaveDefer 0 false), .leave ((), 0),
    .close ((), 0) 1, .channel true (.lock 1), .channel true (.closeNext 1), .exit ((), 0),
    .get ((), 1) 4, .channel false (.lock 4), .leave ((), 1), .close ((), 1) 2,
    .channel true (.lock 2), .exit ((), 1)]

theorem exists_shown_incremented :
    ∃ s, (machine increment false).exec {} incremented = some s ∧
      ∃ d, (Dataflow.machine (network increment) fun _ => ()).Reachable d ∧ d.AtRest ∧
        Dataflow.on false d.puts = [5] ∧ d.queue true = [6] := by
  have he : (machine increment false).exec {} incremented = some _ := rfl
  have hC : (machine increment false).Along (Pipes.Meets increment {}) {} incremented := by
    refine ⟨trivial, trivial, trivial, trivial, trivial, fun _ _ _ _ _ => trivial, trivial, trivial,
      trivial, fun _ _ _ _ _ => trivial, trivial, trivial, trivial, fun _ _ _ _ _ => trivial,
      trivial, ⟨trivial, ?_⟩, trivial, fun _ _ _ _ _ => trivial, trivial, trivial, trivial, trivial,
      trivial, trivial, trivial, fun _ _ _ _ _ => trivial, trivial, trivial, trivial, trivial,
      trivial, fun _ _ _ _ _ => trivial, trivial, trivial, trivial, fun _ _ _ _ _ => trivial,
      trivial, trivial, fun _ _ _ _ _ => trivial, trivial, trivial⟩
    intro c p v hp
    cases c
    · rcases p with _ | _ | _ | p <;> cases hp
    · cases hp
  obtain ⟨d, hd, -, hchan, hrest⟩ := Pipes.exists_shown (.exec (.init rfl) hC he)
  refine ⟨_, he, d, hd, hrest ⟨?_, ?_, ?_⟩, (hchan false).2.2.trans rfl, (hchan true).1.trans rfl⟩
  · exact fun _ => rfl
  · intro i m hm
    rcases m with _ | _ | m
    · exact .inl rfl
    · exact .inl rfl
    · exact absurd hm (not_lt.mpr (Nat.le_add_left 2 m))
  · intro c g
    cases c
    · rcases g with _ | _ | _ | _ | _ | g
      all_goals trivial
    · rcases g with _ | _ | _ | g
      all_goals trivial

end Data

end Synca
