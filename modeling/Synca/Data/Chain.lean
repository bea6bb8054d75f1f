import Synca.Data.Refinement

/-!
# Chains of stages

A chain of stages with one worker each computes the composition of its stages. Each worker emits
the outputs of the values it has received, in order, so what has passed a channel and what its
worker still has to do are the stage's function of what was taken from the channel before; when the
worker has left, the channel before was closed and empty, and stays so.
-/

namespace Synca

namespace Data

open Transition

variable {T : Type*}

/-- The channels are numbered along the chain, and stage `i` pipes channel `i` to the next. -/
def chain (ps : List (Body Unit T)) (i : Fin ps.length) : Stage ℕ Unit T :=
  piping i.val (i.val + 1) ps[i] 1

/-- The function of a stage: the results of `f`, without the empty ones for `piping1to01`, or what
`f` has put, be it up to an exception, for `piping1toMany`. -/
def Body.function : Body Unit T → T → List T
  | .oneToMany f, v       => (f () v).puts
  | .oneToOne f, v        => (f () v).toOption.toList
  | .oneTo01 isEmpty f, v => (f () v).toOption.toList.filter fun r => !isEmpty r

/-- The loop of a stage computes its function. -/
lemma Body.outputs_eq_function (b : Body Unit T) : b.outputs () = b.function := by
  funext v
  cases b with
  | oneToMany f =>
    simp only [outputs, loop, Puts.catching, function]
    split <;> rfl
  | oneToOne f =>
    simp only [outputs, loop, Puts.catching, Puts.bind, Puts.call, function]
    cases f () v <;> rfl
  | oneTo01 isEmpty f =>
    simp only [outputs, loop, Puts.catching, Puts.bind, Puts.call, function]
    cases f () v with
    | error e => rfl
    | ok r => cases hr : isEmpty r <;> simp [hr, Puts.put, Except.toOption]

/-- The stage functions applied in turn. -/
def through (ps : List (Body Unit T)) (vs : List T) : List T :=
  ps.foldl (fun vs p => vs.flatMap p.function) vs

lemma through_take_succ (ps : List (Body Unit T)) (i : Fin ps.length) (vs : List T) :
    through (ps.take (i + 1)) vs = (through (ps.take i) vs).flatMap ps[i].function := by
  rw [List.take_succ_eq_append_getElem i.isLt, through, List.foldl_append]
  rfl

/-- Values are put from outside into the first channel only, and it is closed after the last. -/
def Supplied (ps : List (Body Unit T)) (s : Pipes ℕ (Fin ps.length) T) :
    Pipes.Action ℕ (Fin ps.length) Unit T → Prop
  | .feed c _ _ => c = 0
  | .finish     => ∀ p v, (s.chan 0).call p ≠ .put v
  | _           => True

/-- The terms of the chain. -/
def supply (κ : Type*) : Terms ℕ κ T := { feeds := fun c => c = 0 }

section

variable (ps : List (Body Unit T))

@[simp] lemma chain_src (i : Fin ps.length) : (chain ps i).src = i := rfl

@[simp] lemma chain_dst (i : Fin ps.length) : (chain ps i).dst = some (i.val + 1) := rfl

@[simp] lemma chain_n (i : Fin ps.length) : (chain ps i).n = 1 := rfl

@[simp] lemma chain_outputs (i : Fin ps.length) : (chain ps i).outputs = ps[i].outputs := rfl

/-- How the flow of a chain stands. -/
structure Chained (f : Flow ℕ (Fin ps.length) T) : Prop where
  one : ∀ i m, f.phase (i, m) ≠ .unborn → m = 0
  through : ∀ i : Fin ps.length, f.puts (i + 1) ++ (f.phase (i, 0)).pending ++
    (f.phase (i, 0)).held.flatMap (ps[i].outputs ()) = (f.gots i).flatMap (ps[i].outputs ())
  ended : ∀ i : Fin ps.length, f.phase (i, 0) = .ended ∨ f.phase (i, 0) = .done →
    f.closed i = true ∧ f.queue i = []
  shut : f.closed 0 = true → f.feeding = false
  closed : ∀ i : Fin ps.length, f.closed (i + 1) = true ↔ f.phase (i, 0) = .done

end

namespace Chained

variable {ps : List (Body Unit T)} {f f' : Flow ℕ (Fin ps.length) T}

lemma init : Chained ps {} where
  one _ _ h := absurd rfl h
  through _ := rfl
  ended _ h := by rcases h with h | h <;> cases h
  shut h := by cases h
  closed _ := ⟨nofun, nofun⟩

/-- A worker that has been made is the only one of its stage. -/
lemma eq_zero (h : Chained ps f) {w : Fin ps.length × ℕ} {x : Phase T} (hw : f.phase w = x)
    (hx : x ≠ .unborn) : w = (w.1, 0) :=
  Prod.ext rfl (h.one w.1 w.2 (by rw [hw]; exact hx))

/-- A move of the worker of one stage, which closes nothing. -/
lemma worker (h : Chained ps f) {i : Fin ps.length} {y : Phase T}
    (hp : ∀ w, f'.phase w = if w = (i, 0) then y else f.phase w) (hc : f'.closed = f.closed)
    (hf : f'.feeding = f.feeding) (hold : f.phase (i, 0) ≠ .done) (hnew : y ≠ .done)
    (hend : y = .ended → f.closed i = true ∧ f'.queue i = [])
    (hq : ∀ j, f.closed j = true → f.queue j = [] → f'.queue j = [])
    (hi : f'.puts (i + 1) ++ y.pending ++ y.held.flatMap (ps[i].outputs ()) =
      (f'.gots i).flatMap (ps[i].outputs ()))
    (hj : ∀ j : Fin ps.length, j ≠ i → f'.puts (j + 1) = f.puts (j + 1) ∧ f'.gots j = f.gots j) :
    Chained ps f' := by
  constructor
  · intro j m hm
    rw [hp] at hm
    split_ifs at hm with he
    · exact congrArg Prod.snd he
    · exact h.one j m hm
  · intro j
    rw [hp]
    split_ifs with he
    · obtain rfl : j = i := congrArg Prod.fst he
      exact hi
    · obtain ⟨hputs, hgots⟩ := hj j fun he' => he (by rw [he'])
      rw [hputs, hgots]
      exact h.through j
  · intro j hx
    rw [hc]
    rw [hp] at hx
    split_ifs at hx with he
    · obtain rfl : j = i := congrArg Prod.fst he
      exact hend (hx.resolve_right hnew)
    · obtain ⟨hclosed, hqueue⟩ := h.ended j hx
      exact ⟨hclosed, hq j hclosed hqueue⟩
  · rw [hc, hf]
    exact h.shut
  · intro j
    rw [hc, hp, h.closed]
    split_ifs with he
    · rw [he]
      exact iff_of_false hold hnew
    · rfl

/-- How a `close` of the channel `c` can change the phase of a worker of stage `i`. -/
inductive Closes (f : Flow ℕ (Fin ps.length) T) (c : ℕ) (i : Fin ps.length) (x y : Phase T) :
    Prop where
  | same (hy : y = x)
  | refused (hx : x = .looping []) (hy : y = .ended) (hc : (i : ℕ) = c) (hq : f.queue c = [])
  | closer (hx : x = .ended) (hy : y = .done) (hc : (i : ℕ) + 1 = c)

lemma closes_of_released {c : ℕ} {E : Fin ps.length × ℕ → Prop}
    (hE : f.Released (chain ps) c E) (w : Fin ps.length × ℕ) :
    Closes f c w.1 (f.phase w) ((f.close c E).phase w) := by
  by_cases hw : E w
  · exact .refused (hE.looping w hw) (if_pos hw) (hE.src w hw) (hE.queue w hw)
  · exact .same (if_neg hw)

lemma close (h : Chained ps f) {c : ℕ}
    (hp : ∀ w, Closes f c w.1 (f.phase w) (f'.phase w))
    (hc : ∀ d, f'.closed d = if d = c then true else f.closed d) (hq : f'.queue = f.queue)
    (hgots : f'.gots = f.gots) (hf : f'.feeding = f.feeding) (hshut : c = 0 → f.feeding = false)
    (hdone : ∀ i : Fin ps.length, (i : ℕ) + 1 = c → f'.phase (i, 0) = .done) :
    Chained ps f' := by
  have hclosed : ∀ d, f.closed d = true → f'.closed d = true := by
    intro d hd
    rw [hc]
    split_ifs
    · rfl
    · exact hd
  constructor
  · intro j m hm
    refine h.one j m fun hn => ?_
    cases hp (j, m) with
    | same hy => exact hm (hy.trans hn)
    | refused hx => cases hn.symm.trans hx
    | closer hx => cases hn.symm.trans hx
  · intro j
    have hj := h.through j
    rw [Flow.puts, hq, hgots]
    cases hp (j, 0) with
    | same hy => rwa [hy]
    | refused hx hy =>
      rw [hx] at hj
      rwa [hy]
    | closer hx hy =>
      rw [hx] at hj
      rwa [hy]
  · intro j hj
    rw [hq]
    cases hp (j, 0) with
    | same hy =>
      rw [hy] at hj
      exact (h.ended j hj).imp_left (hclosed j)
    | refused hx hy hjc hqueue =>
      subst hjc
      exact ⟨by rw [hc, if_pos rfl], hqueue⟩
    | closer hx hy => exact (h.ended j (.inl hx)).imp_left (hclosed j)
  · rw [hc, hf]
    split_ifs with h0
    · exact fun _ => hshut h0.symm
    · exact h.shut
  · intro j
    rw [hc]
    split_ifs with hjc
    · exact iff_of_true rfl (hdone j hjc)
    · rw [h.closed]
      cases hp (j, 0) with
      | same hy => rw [hy]
      | refused hx hy => simp [hx, hy]
      | closer hx hy hcl => exact absurd hcl hjc

end Chained

/-- Every move keeps the chain. -/
lemma Chained.move {ps : List (Body Unit T)} {f f' : Flow ℕ (Fin ps.length) T}
    (h : Chained ps f) (hm : f.Move (chain ps) 0 (supply _) f') : Chained ps f' := by
  cases hm with
  | go w hw hn =>
    obtain ⟨i, m⟩ := w
    obtain rfl : m = 0 := Nat.lt_one_iff.mp hn
    have hi := h.through i
    rw [hw] at hi
    exact h.worker (f.phase_setPhase _ · _) rfl rfl (by simp [hw]) (by simp) (by simp)
      (fun _ _ hq => hq) hi fun _ _ => ⟨rfl, rfl⟩
  | feed c v hf hc =>
    obtain rfl : c = 0 := hc
    refine ⟨h.one, fun i => ?_, fun i hi => ?_, h.shut, h.closed⟩
    · have hputs : (f.enqueue 0 v).puts (i + 1) = f.puts (i + 1) := by
        simp [Flow.puts, Flow.enqueue]
      rw [hputs]
      exact h.through i
    · obtain ⟨hclosed, hqueue⟩ := h.ended i hi
      refine ⟨hclosed, ?_⟩
      rw [Flow.queue_enqueue, if_neg]
      · exact hqueue
      · -- the first channel is not closed yet
        intro hi0
        have hopen := h.shut (hi0 ▸ hclosed)
        rw [hf] at hopen
        cases hopen
  | receive w v q hw hq =>
    obtain ⟨i, m⟩ := w
    obtain rfl : m = 0 := h.one i m (by simp [hw])
    have hi := h.through i
    rw [hw] at hi
    have hq : f.queue i = v :: q := hq
    have hputs : ∀ c, (f.dequeue i v q).puts c = f.puts c := by
      intro c
      rcases eq_or_ne c i with rfl | hc
      · simp [Flow.puts, hq]
      · simp [Flow.puts, hc]
    refine h.worker (Flow.phase_setPhase _ _ · _) rfl rfl (by simp [hw]) (by simp) (by simp) ?_ ?_
      ?_
    · intro j _ hj
      show (f.dequeue i v q).queue j = []
      rw [Flow.queue_dequeue, if_neg]
      · exact hj
      · rintro rfl
        cases hq.symm.trans hj
    · show (f.dequeue i v q).puts (i + 1) ++ _ ++ _ = ((f.dequeue i v q).gots i).flatMap _
      rw [hputs, Flow.gots_dequeue, if_pos rfl, List.flatMap_append, ← hi]
      simp [Phase.pending, Phase.held]
    · intro j hj
      have hne : (j : ℕ) ≠ i := fun he => hj (Fin.ext he)
      exact ⟨hputs _, by simp [hne]⟩
  | apply w x v hw =>
    obtain ⟨i, m⟩ := w
    obtain rfl : m = 0 := h.one i m (by simp [hw])
    have hi := h.through i
    rw [hw] at hi
    refine h.worker (f.phase_setPhase _ · _) rfl rfl (by simp [hw]) (by simp) (by simp)
      (fun _ _ hq => hq) ?_ fun _ _ => ⟨rfl, rfl⟩
    show f.puts (i + 1) ++ _ ++ _ = (f.gots i).flatMap _
    simpa [Phase.pending, Phase.held] using hi
  | emit w d v rest hw hd =>
    obtain ⟨i, m⟩ := w
    obtain rfl : m = 0 := h.one i m (by simp [hw])
    obtain rfl : (i : ℕ) + 1 = d := Option.some_injective _ hd
    have hi := h.through i
    rw [hw] at hi
    refine h.worker (Flow.phase_setPhase _ _ · _) rfl rfl (by simp [hw]) (by simp) (by simp) ?_ ?_
      ?_
    · intro j hclosed hj
      show (f.enqueue (i + 1) v).queue j = []
      rw [Flow.queue_enqueue, if_neg]
      · exact hj
      · -- the destination is not closed while its worker puts
        rintro rfl
        cases hw.symm.trans ((h.closed i).mp hclosed)
    · show (f.gots (i + 1) ++ (f.enqueue (i + 1) v).queue (i + 1)) ++ _ ++ _ = (f.gots i).flatMap _
      rw [Flow.queue_enqueue, if_pos rfl, ← hi]
      simp [Phase.pending, Phase.held, Flow.puts]
    · intro j hj
      have hne : (j : ℕ) ≠ i := fun he => hj (Fin.ext he)
      exact ⟨by simp [Flow.puts, Flow.enqueue, hne], rfl⟩
  | refuse w hw hq hc =>
    obtain ⟨i, m⟩ := w
    obtain rfl : m = 0 := h.one i m (by simp [hw])
    have hi := h.through i
    rw [hw] at hi
    exact h.worker (f.phase_setPhase _ · _) rfl rfl (by simp [hw]) (by simp) (fun _ => ⟨hc, hq⟩)
      (fun _ _ hq => hq) hi fun _ _ => ⟨rfl, rfl⟩
  | close w d E hw hd hE ht =>
    obtain ⟨i, m⟩ := w
    obtain rfl : m = 0 := h.one i m (by simp [hw])
    obtain rfl : (i : ℕ) + 1 = d := Option.some_injective _ hd
    refine h.close (fun w' => ?_) (f.closed_close _ · E) rfl rfl rfl (by simp) fun j hj => ?_
    · rw [Flow.phase_setPhase]
      split_ifs with hw'
      · exact .closer (hw' ▸ hw) rfl (by rw [hw'])
      · exact Chained.closes_of_released hE w'
    · obtain rfl : j = i := Fin.ext (Nat.add_right_cancel hj)
      simp
  | quit w hw hd => cases hd
  | finish hf ht => exact ⟨h.one, h.through, h.ended, fun _ => rfl, h.closed⟩
  | shut E hf hE =>
    exact h.close (Chained.closes_of_released hE) (f.closed_close _ · _) rfl rfl rfl (fun _ => hf)
      (by simp)

section

variable {ps : List (Body Unit T)} {s : Pipes ℕ (Fin ps.length) T}

lemma Supplied.meets {a : Pipes.Action ℕ (Fin ps.length) Unit T}
    (hS : s.Sound (chain ps) 0 (supply _)) (h : Supplied ps s a) :
    s.Meets (chain ps) (supply _) a := by
  cases a with
  | feed c p v => exact h
  | finish =>
    refine ⟨trivial, fun c p v hp => (hS.ties.putter c p v ?_).resolve_right ?_⟩
    · exact Channel.deal_of_put hp
    · rintro ⟨-, hc⟩
      obtain rfl : c = 0 := hc
      exact h p v hp
  | channel c b =>
    cases b with
    | lock p => exact fun _ _ _ _ _ => trivial
    | _ => trivial
  | _ => trivial

/-- When no task is left, the workers have left one after another down the chain. -/
lemma closed_of_idle (hS : s.Sound (chain ps) 0 (supply _)) (hC : Chained ps (s.flow (chain ps)))
    (hidle : s.Idle (chain ps)) (i : Fin ps.length) (hi : (s.chan i).closed = true) :
    (s.chan (i + 1)).closed = true ∧ (s.chan i).queue = [] := by
  have hdone : (s.flow (chain ps)).phase (i, 0) = .done := by
    rcases hS.worker_of_idle hidle i 0 Nat.one_pos with hw | ⟨-, -, hopen⟩
    · exact Pipes.Sound.phase_of_pc hw
    · cases hi.symm.trans hopen
  exact ⟨(hC.closed i).mpr hdone, (hC.ended i (.inr hdone)).2⟩

end

/-- The first stage throws on `0`, the second puts twice. -/
def incrementAndDouble : List (Body Unit ℕ) :=
  [.oneToOne fun _ v => if v = 0 then .error "zero" else .ok (v + 1),
    .oneToMany fun _ v => ⟨[v, 2 * v], .ok ()⟩]

/-- The value 0 is handed to the first worker and 4 queued; the second worker is made late and gets
its value from hand to hand. -/
def increasedAndDoubled : List (Pipes.Action ℕ (Fin 2) Unit ℕ) :=
  let w₀ : Fin 2 := ⟨0, Nat.two_pos⟩
  let w₁ : Fin 2 := ⟨1, Nat.one_lt_two⟩
  [.piping w₀, .get (w₀, 0) 0, .channel 0 (.lock 0), .channel 0 (.enterDefer 0 false),
    .channel 0 (.setProceed 0), .feed 0 1 0, .channel 0 (.lock 1), .feed 0 2 4,
    .channel 0 (.lock 2), .finish, .shut 3, .channel 0 (.lock 3), .channel 0 (.handOff 1),
    .channel 0 (.closeNext 3), .shutDone, .channel 0 (.resume 0), .channel 0 (.leaveDefer 0 false),
    .apply (w₀, 0) (), .get (w₀, 0) 4, .channel 0 (.lock 4), .apply (w₀, 0) (), .piping w₁,
    .get (w₁, 0) 0, .channel 1 (.lock 0), .channel 1 (.enterDefer 0 false),
    .channel 1 (.setProceed 0), .put (w₀, 0) 1, .channel 1 (.lock 1), .channel 1 (.handOff 1),
    .putDone (w₀, 0), .get (w₀, 0) 5, .channel 0 (.lock 5), .leave (w₀, 0), .close (w₀, 0) 2,
    .channel 1 (.lock 2), .channel 1 (.closeNext 2), .exit (w₀, 0), .channel 1 (.resume 0),
    .channel 1 (.leaveDefer 0 false), .apply (w₁, 0) (), .put (w₁, 0) 0, .channel 2 (.lock 0),
    .putDone (w₁, 0), .put (w₁, 0) 1, .channel 2 (.lock 1), .putDone (w₁, 0), .get (w₁, 0) 3,
    .channel 1 (.lock 3), .leave (w₁, 0), .close (w₁, 0) 2, .channel 2 (.lock 2),
    .channel 2 (.closeNext 2), .exit (w₁, 0)]

end Data

end Synca
