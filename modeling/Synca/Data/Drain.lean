import Mathlib.Data.Fintype.Basic
import Mathlib.Logic.Relation
import Synca.Data.Balance

/-!
# Draining a graph of stages

The stages may form any finite graph, cycles included, and several may read or write one channel.
`closeAndWait` waits until no task is left, closes one channel and waits again. While the producers
are at work nothing is closed. When no task is left the first time, every worker is suspended and
every source is empty, and stays so: from there on only `close` goes along the stages.
-/

namespace Synca

open Transition

namespace Lane

variable {T : Type*} {l m : Lane T} {p : ℕ}

/-- A call of `close` that goes on before its section or has had it. -/
lemma Deed.shut (h : l.Deed m) (hp : l.deal p = .closing ∨ l.closed = true) :
    m.deal p = .closing ∨ m.closed = true := by
  rcases hp with hp | hl
  · cases h with
    | take g v q hg hq =>
      refine .inl ((Function.update_of_ne ?_ _ _).trans hp)
      rintro rfl
      cases hg.symm.trans hp
    | refuse g hg hq hc => exact .inr hc
    | put g v hg =>
      refine .inl ((Function.update_of_ne ?_ _ _).trans hp)
      rintro rfl
      cases hg.symm.trans hp
    | close => exact .inr rfl
  · exact .inr (h.closed hl)

/-- What a step of the pipelines does to a lane. -/
inductive Next (l : Lane T) : Lane T → Prop where
  | deeds {m : Lane T} (h : Relation.ReflTransGen Deed l m) : Next l m
  | make (g : ℕ) (d : Deal T) (hg : l.deal g = .idle) : Next l (l.make g d)

namespace Next

lemma refl : l.Next l := .deeds .refl

lemma closed (h : l.Next m) (hl : l.closed = true) : m.closed = true := by
  cases h with
  | deeds h =>
    induction h with
    | refl => exact hl
    | tail _ hd ih => exact hd.closed ih
  | make g d hg => exact hl

lemma shut (h : l.Next m) (hp : l.deal p = .closing ∨ l.closed = true) :
    m.deal p = .closing ∨ m.closed = true := by
  cases h with
  | deeds h =>
    induction h with
    | refl => exact hp
    | tail _ hd ih => exact hd.shut ih
  | make g d hg =>
    refine hp.imp_left fun hp => (Function.update_of_ne ?_ _ _).trans hp
    rintro rfl
    cases hg.symm.trans hp

end Next

end Lane

namespace Data

variable {ι κ Ω T : Type*}

/-- Stages with at least one worker each. -/
structure Graph (ι κ Ω T : Type*) where
  src : κ → ι
  dst : κ → ι
  f : κ → Body Ω T
  n : κ → ℕ
  pos : ∀ i, 0 < n i

namespace Graph

variable (G : Graph ι κ Ω T)

def stage (i : κ) : Stage ι Ω T := piping (G.src i) (G.dst i) (G.f i) (G.n i)

/-- There is a stage from `c` to `d`. -/
def Edge (c d : ι) : Prop := ∃ i, G.src i = c ∧ G.dst i = d

/-- `ThreadPool::wait` returns when no task is left. -/
def WaitsIdle (s : Pipes ι κ T) : Pipes.Action ι κ Ω T → Prop
  | .finish | .wait => s.Idle G.stage
  | _ => True

/-- What `closeAndWait` of the channel `c₀` leaves: everything is closed, the sources are empty, all
workers have left, and the values ever put into a source are those handed to the workers. -/
structure Drained (c₀ : ι) [DecidableEq ι] (s : Pipes ι κ T) : Prop where
  closed : (s.chan c₀).closed = true ∧ ∀ i, (s.chan (G.dst i)).closed = true
  empty : ∀ i, (s.chan (G.src i)).queue = []
  left : ∀ i m, m < G.n i → s.pc (i, m) = .done
  handed : ∀ i, ((s.chan (G.src i)).puts : Multiset T) =
    ((s.runs.filter fun r => G.src r.worker.1 = G.src i).map Run.value : List T)

/-- When the producers finish, a worker that has not left is after the next value, and there is
none. -/
def quiet : Terms ι κ T where
  finishes f := ∀ i m, m < G.n i →
    f.phase (i, m) = .done ∨ (f.phase (i, m) = .looping [] ∧ f.queue (G.src i) = [])

/-- A worker that has nothing in hand and nothing to put. -/
def Empty : Phase T → Prop
  | .holding _    => False
  | .looping rest => rest = []
  | _             => True

structure Draining (f : Flow ι κ T) : Prop where
  /-- Nothing is closed before the producers have finished. -/
  opened : f.feeding = true →
    (∀ c, f.closed c = false) ∧ ∀ w, f.phase w ≠ .ended ∧ f.phase w ≠ .done
  drained : f.feeding = false → (∀ i, f.queue (G.src i) = []) ∧ ∀ w, Empty (f.phase w)
  closed : ∀ i m, f.phase (i, m) = .done → f.closed (G.dst i) = true

namespace Draining

variable {G} {c₀ : ι} {f f' : Flow ι κ T}

lemma init : G.Draining {} where
  opened _ := ⟨fun _ => rfl, by simp⟩
  drained h := by cases h
  closed _ _ h := by cases h

lemma fed_of_phase (h : G.Draining f) {w : κ × ℕ} {x : Phase T} (hw : f.phase w = x)
    (hx : ¬ Empty x) : f.feeding = true := by
  by_contra hf
  exact hx (hw ▸ (h.drained (by simpa using hf)).2 w)

lemma fed_of_queue (h : G.Draining f) {i : κ} (hq : f.queue (G.src i) ≠ []) :
    f.feeding = true := by
  by_contra hf
  exact hq ((h.drained (by simpa using hf)).1 i)

lemma finished_of_closed (h : G.Draining f) {c : ι} (hc : f.closed c = true) :
    f.feeding = false := by
  by_contra hf
  cases hc.symm.trans ((h.opened (by simpa using hf)).1 c)

lemma finished_of_ended (h : G.Draining f) {w : κ × ℕ} (hw : f.phase w = .ended) :
    f.feeding = false := by
  by_contra hf
  exact ((h.opened (by simpa using hf)).2 w).1 hw

variable [DecidableEq κ]

/-- A worker moves while the producers are at work. -/
lemma feed (h : G.Draining f) {w : κ × ℕ} {y : Phase T} (hf : f.feeding = true)
    (hy : y ≠ .ended ∧ y ≠ .done) (hc : f'.closed = f.closed) (hfeed : f'.feeding = f.feeding)
    (hp : ∀ w', f'.phase w' = if w' = w then y else f.phase w') : G.Draining f' := by
  have hphase : ∀ w', f'.phase w' ≠ .ended ∧ f'.phase w' ≠ .done := by
    intro w'
    rw [hp]
    split_ifs
    · exact hy
    · exact (h.opened hf).2 w'
  refine ⟨fun _ => ⟨?_, hphase⟩, fun hf' => ?_, fun i m hm => absurd hm (hphase _).2⟩
  · rw [hc]
    exact (h.opened hf).1
  · cases hf.symm.trans (hfeed.symm.trans hf')

/-- A worker moves that has nothing to put. -/
lemma setPhase (h : G.Draining f) {w : κ × ℕ} {y : Phase T} (hy : Empty y)
    (ho : y = .ended ∨ y = .done → f.feeding = false)
    (hd : y = .done → f.closed (G.dst w.1) = true) : G.Draining (f.setPhase w y) := by
  refine ⟨fun hf => ⟨(h.opened hf).1, fun w' => ?_⟩,
    fun hf => ⟨(h.drained hf).1, fun w' => ?_⟩, fun i m hm => ?_⟩
  · rw [Flow.phase_setPhase]
    split_ifs
    · refine ⟨fun he => ?_, fun he => ?_⟩
      · cases hf.symm.trans (ho (.inl he))
      · cases hf.symm.trans (ho (.inr he))
    · exact (h.opened hf).2 w'
  · rw [Flow.phase_setPhase]
    split_ifs
    · exact hy
    · exact (h.drained hf).2 w'
  · rw [Flow.phase_setPhase] at hm
    split_ifs at hm with he
    · subst he
      exact hd hm
    · exact h.closed i m hm

variable [DecidableEq ι]

omit [DecidableEq κ] in
lemma close (h : G.Draining f) {c : ι} {E : κ × ℕ → Prop} (hf : f.feeding = false) :
    G.Draining (f.close c E) := by
  have hphase : ∀ w, (f.close c E).phase w = f.phase w ∨ (f.close c E).phase w = .ended := by
    intro w
    by_cases hw : E w
    · exact .inr (if_pos hw)
    · exact .inl (if_neg hw)
  refine ⟨fun hf' => ?_, fun _ => ⟨(h.drained hf).1, fun w => ?_⟩, fun i m hm => ?_⟩
  · cases hf.symm.trans hf'
  · rcases hphase w with he | he
    · rw [he]
      exact (h.drained hf).2 w
    · rw [he]
      trivial
  · rw [Flow.closed_close]
    split_ifs
    · rfl
    · refine h.closed i m ?_
      rcases hphase (i, m) with he | he
      · rwa [← he]
      · cases he.symm.trans hm

/-- Every move keeps it. -/
lemma move [Fintype κ] (h : G.Draining f) (hB : Balanced G.stage f G.quiet)
    (hm : f.Move G.stage c₀ G.quiet f') : G.Draining f' := by
  cases hm with
  | go w hw hn => exact h.setPhase rfl (by simp) (by simp)
  | feed c v hf hc =>
    refine ⟨h.opened, fun hf' => ?_, h.closed⟩
    cases hf.symm.trans hf'
  | receive w v q hw hq =>
    have hf := h.fed_of_queue (i := w.1) (by rw [show f.queue (G.src w.1) = _ from hq]; simp)
    exact h.feed hf (by simp) rfl rfl (Flow.phase_setPhase _ _ · _)
  | apply w x v hw =>
    have hf := h.fed_of_phase hw (by simp [Empty])
    exact h.feed hf (by simp) rfl rfl (f.phase_setPhase _ · _)
  | emit w c v rest hw hd =>
    have hf := h.fed_of_phase hw (by simp [Empty])
    exact h.feed hf (by simp) rfl rfl (Flow.phase_setPhase _ _ · _)
  | refuse w hw hq hc => exact h.setPhase trivial (fun _ => h.finished_of_closed hc) (by simp)
  | close w d E hw hd hE ht =>
    have hf := h.finished_of_ended hw
    obtain rfl : G.dst w.1 = d := Option.some_injective _ hd
    exact (h.close hf).setPhase trivial (fun _ => hf) fun _ => by simp
  | quit w hw hd => cases hd
  | finish hf ht =>
    have hquiet : ∀ i m, m < G.n i → f.phase (i, m) = .looping [] ∧ f.queue (G.src i) = [] :=
      fun i m hm => (ht i m hm).resolve_left ((h.opened hf).2 (i, m)).2
    refine ⟨fun hf' => Bool.noConfusion hf', fun _ => ⟨fun i => (hquiet i 0 (G.pos i)).2, ?_⟩,
      h.closed⟩
    rintro ⟨i, m⟩
    show Empty (f.phase (i, m))
    by_cases hu : f.phase (i, m) = .unborn
    · rw [hu]
      trivial
    · rw [(hquiet i m (hB.born i m hu)).1]
      rfl
  | shut E hf hE => exact h.close hf

end Draining

/-! ### The pipelines of a graph -/

section

variable {G} {c₀ : ι} {t : Terms ι κ T} {s s' : Pipes ι κ T} {a : Pipes.Action ι κ Ω T}

lemma WaitsIdle.meets (hS : s.Sound G.stage c₀ G.quiet) (h : G.WaitsIdle s a) :
    s.Meets G.stage G.quiet a := by
  cases a with
  | finish =>
    refine ⟨fun i m hm => ?_, fun c p v hp => ?_⟩
    · rcases hS.worker_of_idle h i m hm with hw | ⟨hw, hq, -⟩
      · refine .inl ?_
        rw [Pipes.Sound.phase_of_pc hw]
        rfl
      · exact .inr ⟨hw, hq⟩
    · have hrest := h.calls c p
      rw [hp] at hrest
      exact hrest.elim
  | channel c b =>
    cases b with
    | lock p => exact fun _ _ _ _ _ => trivial
    | _ => trivial
  | _ => trivial

variable [DecidableEq ι]

lemma lane_update {c : ι} {m : Lane T} (hm : (s.lanes c).Next m) (d : ι) :
    (s.lanes d).Next (Function.update s.lanes c m d) := by
  rcases eq_or_ne d c with rfl | hd
  · rwa [Function.update_self]
  · rw [Function.update_of_ne hd]
    exact .refl

lemma lane_make {c : ι} {g : ℕ} {r : Request T} (hg : (s.chan c).call g = .idle) (d : ι) :
    (s.lanes d).Next ((s.setChan c ((s.chan c).make g r)).lanes d) := by
  rw [Pipes.lanes_make]
  exact lane_update (.make g r.deal (Channel.deal_of_idle hg)) d

variable [DecidableEq κ]

lemma lane_next (hS : s.Sound G.stage c₀ t) (hs : step G.stage c₀ s a = some s') (d : ι) :
    (s.lanes d).Next (s'.lanes d) := by
  cases Rule.of_step hs with
  | get w g hw hg => exact lane_make hg d
  | put w p c v rest hw hd hp => exact lane_make hp d
  | close w p c hw hd hp => exact lane_make hp d
  | feed c p v ho hp => exact lane_make hp d
  | shut p ho hp => exact lane_make hp d
  | channel c b x hb hx =>
    rw [Pipes.lanes_setChan]
    exact lane_update (.deeds ((hS.deeds_of_channel hb hx).lift id fun _ _ h => h.1)) d
  | _ => exact .refl

/-- How far the call of `close` from outside is. -/
def Shutting (c₀ : ι) (s : Pipes ι κ T) : Prop :=
  match s.outside with
  | .shutting p => (s.lanes c₀).deal p = .closing ∨ (s.lanes c₀).closed = true
  | .waiting | .returned => (s.lanes c₀).closed = true
  | _ => True

lemma Shutting.step (hS : s.Sound G.stage c₀ t) (h : Shutting c₀ s)
    (hs : Data.step G.stage c₀ s a = some s') : Shutting c₀ s' := by
  have hnext := lane_next hS hs c₀
  have hsame : s'.outside = s.outside → Shutting c₀ s' := by
    intro ho
    unfold Shutting at h ⊢
    rw [ho]
    cases hout : s.outside <;> simp only [hout] at h ⊢
    · exact hnext.shut h
    · exact hnext.closed h
    · exact hnext.closed h
  cases Rule.of_step hs with
  | finish ho => trivial
  | shut p ho hp =>
    have hl : (s.setChan c₀ ((s.chan c₀).make p .closing)).lanes c₀ =
        (s.lanes c₀).make p .closing := by
      rw [Pipes.lanes_make, Function.update_self]
      rfl
    exact .inl ((congrArg (Lane.deal · p) hl).trans (Function.update_self _ _ _))
  | shutDone p ho hp =>
    simp only [Shutting, ho] at h
    refine h.resolve_left fun hc => ?_
    cases hc.symm.trans (Channel.deal_of_done hp)
  | wait ho =>
    simp only [Shutting, ho] at h
    exact h
  | _ => exact hsame rfl

lemma done_of_step (hS : s.Sound G.stage c₀ t) (hs : Data.step G.stage c₀ s a = some s')
    {w : κ × ℕ} (hw : s.pc w = .done) : s'.pc w = .done := by
  have hkeep : ∀ {w' x}, s.pc w' = x → x ≠ .done → ∀ y,
      Function.update s.pc w' y w = .done := by
    rintro w' x hx hne y
    rw [Function.update_of_ne]
    · exact hw
    · rintro rfl
      exact hne (hx.symm.trans hw)
  have hcreate : ∀ {i m}, ¬ (s.goN i).Past m → (s.create (i, m)).pc w = .done := by
    intro i m hm
    rw [Pipes.pc_create]
    exact hkeep (hS.unborn hm) (by simp) _
  cases Rule.of_step hs with
  | pipingOne i hi hn => exact hcreate (by simp [hi, GoN.Past])
  | go i m hi hm => exact hcreate (by simp [hi, GoN.Past])
  | get w' g hw' hg => simpa using hkeep hw' (by simp) _
  | apply w' x g v hw' hg hv => simpa using hkeep hw' (by simp) _
  | leave w' g hw' hg => simpa using hkeep hw' (by simp) _
  | put w' p d v rest hw' hd hp => simpa using hkeep hw' (by simp) _
  | putDone w' p d rest hw' hd hp => simpa using hkeep hw' (by simp) _
  | close w' p d hw' hd hp => simpa using hkeep hw' (by simp) _
  | exit w' p d hw' hd hp => simpa using hkeep hw' (by simp) _
  | _ => exact hw

/-! ### What is left -/

lemma reachable_quiet (h : (machine G.stage c₀).ReachableBy G.WaitsIdle s) :
    (machine G.stage c₀).ReachableBy (Pipes.Meets G.stage G.quiet) s :=
  Pipes.reachable_meets (fun _ _ hS hC => WaitsIdle.meets hS hC) h

lemma sound_of_reachable (h : (machine G.stage c₀).ReachableBy G.WaitsIdle s) :
    s.Sound G.stage c₀ G.quiet :=
  (Pipes.inductive_sound _ _ _).holds (reachable_quiet h)

lemma shutting_of_reachable (h : (machine G.stage c₀).ReachableBy G.WaitsIdle s) :
    Shutting c₀ s := by
  induction h with
  | @init s h₀ =>
    obtain rfl : s = {} := h₀
    trivial
  | step hr ha hs ih => exact ih.step (sound_of_reachable hr) hs

variable [Fintype κ]

lemma draining_of_reachable (h : (machine G.stage c₀).ReachableBy G.WaitsIdle s) :
    Balanced G.stage (s.flow G.stage) G.quiet ∧ G.Draining (s.flow G.stage) :=
  Pipes.holds_flow (I := fun f => Balanced G.stage f G.quiet ∧ G.Draining f) ⟨.init, .init⟩
    (fun _ _ hI hm => ⟨hI.1.move hm, hI.2.move hI.1 hm⟩) (reachable_quiet h)

/-- When no task is left after the close, the workers have left one stage after another. -/
lemma left_of_idle (hG : ∀ i, Relation.ReflTransGen G.Edge c₀ (G.src i))
    (h : (machine G.stage c₀).ReachableBy G.WaitsIdle s) (hidle : s.Idle G.stage)
    (hc₀ : (s.chan c₀).closed = true) (i : κ) (m : ℕ) (hm : m < G.n i) :
    s.pc (i, m) = .done := by
  have hS := sound_of_reachable h
  have hdone : ∀ i m, m < G.n i → (s.chan (G.src i)).closed = true → s.pc (i, m) = .done := by
    intro i m hm hc
    refine (hS.worker_of_idle hidle i m hm).resolve_right ?_
    rintro ⟨-, -, hopen⟩
    cases hc.symm.trans hopen
  refine hdone i m hm ?_
  have hclosed : ∀ c, Relation.ReflTransGen G.Edge c₀ c → (s.chan c).closed = true := by
    intro c hc
    induction hc with
    | refl => exact hc₀
    | tail _ he ih =>
      obtain ⟨j, rfl, rfl⟩ := he
      refine (draining_of_reachable h).2.closed j 0 ?_
      rw [Pipes.Sound.phase_of_pc (hdone j 0 (G.pos j) ih)]
      rfl
  exact hclosed _ (hG i)

lemma left_of_returned (hG : ∀ i, Relation.ReflTransGen G.Edge c₀ (G.src i))
    (h : (machine G.stage c₀).ReachableBy G.WaitsIdle s) (hret : s.outside = .returned) (i : κ)
    (m : ℕ) (hm : m < G.n i) : s.pc (i, m) = .done := by
  induction h with
  | @init s h₀ =>
    obtain rfl : s = {} := h₀
    cases hret
  | @step s s' a hr ha hs ih =>
    have hkeep : s'.outside = s.outside → s'.pc (i, m) = .done :=
      fun ho => done_of_step (sound_of_reachable hr) hs (ih (ho.symm.trans hret))
    cases Rule.of_step hs with
    | finish ho => cases hret
    | shut p ho hp => cases hret
    | shutDone p ho hp => cases hret
    | wait ho =>
      have hc : Shutting c₀ s := shutting_of_reachable hr
      simp only [Shutting, ho] at hc
      exact left_of_idle hG hr ha hc i m hm
    | _ => exact hkeep rfl

end

end Graph

/-- A stage that puts back into its source, until the value is 0. -/
def countDown : Graph Unit Unit Unit ℕ where
  src _ := ()
  dst _ := ()
  f _   := .oneTo01 (fun v => v == 0) fun _ v => .ok (v - 1)
  n _   := 2
  pos _ := Nat.two_pos

/-- The values 2 and 1, the second put by the worker that was handed the first. -/
def countedDown : List (Pipes.Action Unit Unit Unit ℕ) :=
  [.piping (), .go (), .go (), .go (), .feed () 0 2, .channel () (.lock 0), .get ((), 0) 1,
    .channel () (.lock 1), .get ((), 1) 2, .channel () (.lock 2), .channel () (.enterDefer 2 false),
    .channel () (.setProceed 2), .apply ((), 0) (), .put ((), 0) 3, .channel () (.lock 3),
    .channel () (.handOff 3), .putDone ((), 0), .channel () (.resume 2),
    .channel () (.leaveDefer 2 false), .apply ((), 1) (), .get ((), 0) 4, .channel () (.lock 4),
    .channel () (.enterDefer 4 false), .channel () (.setProceed 4), .get ((), 1) 5,
    .channel () (.lock 5), .channel () (.enterDefer 5 false), .channel () (.setProceed 5), .finish,
    .shut 6, .channel () (.lock 6), .channel () (.closeNext 6), .channel () (.closeNext 6),
    .channel () (.closeNext 6), .shutDone, .channel () (.resume 4),
    .channel () (.leaveDefer 4 false), .leave ((), 0), .close ((), 0) 7, .channel () (.lock 7),
    .exit ((), 0), .channel () (.resume 5), .channel () (.leaveDefer 5 false), .leave ((), 1),
    .close ((), 1) 8, .channel () (.lock 8), .exit ((), 1), .wait]

end Data

end Synca
