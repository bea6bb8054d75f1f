import Synca.Data.Carriage

/-!
# Networks on channels at rest

When no task is left, every worker has left or is suspended in `get`, and no call runs. Then only
the thread outside can go on, and the network of queues is at rest: no worker has missed an item or
a closing.
-/

namespace Synca

open Transition

namespace Channel

variable {T : Type*} {s s' : Channel T} {a : Action T} {p : ℕ}

/-- A step inside a call that is not at rest. -/
lemma exists_active (ha : Data.internal a = true) (hs : step s a = some s') :
    ∃ g, ¬ (s.call g).AtRest ∧ (s.call g = .closing → a = .lock g) := by
  cases Rule.of_step hs with
  | make g r hg | set j e | allow j b => cases ha
  | takeFront g v q hm hg hq | getClosed g hm hg hq hc | pushWaiter g hm hg hq hc
  | popWaiter g v w hm hg hr | emplace g v hm hg hr | opening g hm hg | closeClosed g hm hg hc
  | popAll g hm hg hc => exact ⟨g, by simp [hg, Call.AtRest], fun _ => rfl⟩
  | enterDefer g u hg he | enterThrow g u hg he | setProceed g hg | handOff g v w hg
  | closeNext g w hg | closeEnd g hg | resume g hg | leaveDefer g u hg he | leaveThrow g u hg he =>
    exact ⟨g, by simp [hg, Call.AtRest], by simp [hg]⟩

lemma closed_make (s : Channel T) (g : ℕ) (r : Request T) : (s.make g r).closed = s.closed := by
  cases r <;> rfl

/-- A step inside a call after which the channel is closed. -/
lemma closed_of_step (hs : step s a = some s') (hc : s'.closed = true) :
    s.closed = true ∨ ∃ p, a = .lock p ∧ s.call p = .closing := by
  cases Rule.of_step hs with
  | make g r hg => exact .inl (closed_make s g r ▸ hc)
  | popAll p hm hp ho => exact .inr ⟨p, rfl, hp⟩
  | opening p hm hp => cases hc
  | _ => exact .inl hc

/-- A channel that is not opened stays closed. -/
lemma Still.closed_step (h : s.Still) (hs : step s a = some s') (hc : s.closed = true) :
    s'.closed = true := by
  cases Rule.of_step hs with
  | make g r hg => exact (closed_make s g r).trans hc
  | popAll p hm hp ho => rfl
  | opening p hm hp => exact absurd hp (h.opening p)
  | _ => exact hc

/-- The section of a call of `close` closes the channel. -/
lemma closed_of_lock (hs : step s (.lock p) = some s') (hp : s.call p = .closing) :
    s'.closed = true ∧ s'.call p ≠ .closing := by
  cases Rule.of_step hs with
  | closeClosed _ hm _ hc => exact ⟨hc, by simp⟩
  | popAll _ hm _ hc => exact ⟨rfl, by simp [popAll, move]⟩
  | _ => simp_all

/-- A step inside a call leaves no call before the section of `close` that was not there. -/
lemma closing_of_step (ha : Data.internal a = true) (hs : step s a = some s')
    (hp : s'.call p = .closing) : s.call p = .closing := by
  have hmove : ∀ (u : Channel T) (g : ℕ) (d : Call T), d ≠ .closing →
      (u.move g d).call p = .closing → u.call p = .closing := by
    intro u g d hd hu
    rw [call_move] at hu
    split_ifs at hu
    · exact absurd hu hd
    · exact hu
  cases Rule.of_step hs with
  | make g r hg | set j e | allow j b => cases ha
  | handOff q v w hq => exact hmove s w .proceeded (by simp) (hmove _ _ _ (by simp) hp)
  | closeNext q w hq => exact hmove s w .proceeded (by simp) (hmove _ _ _ (by simp) hp)
  | _ => exact hmove _ _ _ (by simp) hp

end Channel

namespace Data

variable {ι κ Ω : Type*} {T : ι → Type*} {σ : κ → Type*} {node : ∀ k, Node T Ω (σ k)}

namespace Fabric

/-- A worker has left, or is suspended in `get`. -/
def Rests (s : Fabric node) (k : κ) : Prop :=
  s.post (some k) = .gone ∨
    ∃ g, s.post (some k) = .getting g ∧ (s.chan (node k).src).call g = .suspended

/-- No task is left, but for the call `x`. -/
structure Quiet (s : Fabric node) (x : Option (ι × ℕ)) : Prop where
  workers : ∀ k, s.Rests k
  calls : ∀ c p, x ≠ some (c, p) → ((s.chan c).call p).AtRest

abbrev Idle (s : Fabric node) : Prop := s.Quiet none

variable {s s' : Fabric node} {d : Dataflow node} {c : ι} {k : κ} {g p : ℕ} {x : Option (ι × ℕ)}

/-- A worker that is suspended is on the list of the waiters of an empty channel. -/
lemma Sound.asking_of_suspended (h : s.Sound)
    (hr : ∀ p, ((s.chan c).call p).AtRest ∨ (s.chan c).call p = .closing)
    (hg : (s.chan c).call g = .suspended) :
    (s.lanes c).deal g = .asking ∧ (s.chan c).queue = [] ∧ (s.chan c).closed = false :=
  have hl := (h.still c).holds_of_suspended hr hg
  ⟨(h.still c).deal_of_list hl, (h.still c).empty_of_list hl⟩

lemma Sound.phase_of_rests [DecidableEq ι] (h : s.Sound) (hd : s.Shown d)
    (hr : ∀ p, ((s.chan (node k).src).call p).AtRest ∨ (s.chan (node k).src).call p = .closing)
    (hk : s.Rests k) : d.phase k = .gone ∨
      d.phase k = .looping [] ∧ d.queue (node k).src = [] ∧ d.closed (node k).src = false := by
  rcases hk with hk | ⟨g, hk, hg⟩
  · exact .inl (by rw [hd.phase, hk, view])
  · obtain ⟨hdeal, hq, hc⟩ := h.asking_of_suspended hr hg
    refine .inr ⟨by rw [hd.phase, hk, view, hdeal], (hd.queue _).trans hq, (hd.closed _).trans hc⟩

/-- The network shows that no task is left. -/
theorem Sound.atRest [DecidableEq ι] (h : s.Sound) (hd : s.Shown d)
    (hx : ∀ c p, x = some (c, p) → (s.chan c).call p = .closing) (hq : s.Quiet x) : d.AtRest := by
  refine fun k => h.phase_of_rests hd (fun p => ?_) (hq.workers k)
  rcases eq_or_ne x (some ((node k).src, p)) with hx' | hx'
  · exact .inr (hx _ _ hx')
  · exact .inl (hq.calls _ _ hx')

/-! ### Who can go on -/

variable [DecidableEq ι] [DecidableEq κ] {a : Action κ Ω T} {journey : κ → ℕ} {cs : List ι}

omit [DecidableEq ι] [DecidableEq κ] in
lemma Quiet.suspended (h : s.Quiet x) (hk : s.post (some k) = .getting g) :
    (s.chan (node k).src).call g = .suspended := by
  rcases h.workers k with hgone | ⟨g', hk', hg⟩
  · cases hk.symm.trans hgone
  · cases hk.symm.trans hk'
    exact hg

omit [DecidableEq ι] [DecidableEq κ] in
/-- Who is at anything else is the thread outside. -/
lemma Quiet.outside {o : Option κ} {y : Place T} (h : s.Quiet x) (ho : s.post o = y)
    (hy : y ≠ .gone ∧ ∀ g, y ≠ .getting g) : o = none := by
  cases o with
  | none => rfl
  | some k =>
    rcases h.workers k with hgone | ⟨g, hk, -⟩
    · exact absurd (ho.symm.trans hgone) hy.1
    · exact absurd (ho.symm.trans hk) (hy.2 g)

/-- Only the thread outside goes on, and the call that is left. -/
lemma Quiet.step (h : s.Quiet x) (hs : Fabric.step journey s a = some s') :
    s'.post none ≠ s.post none ∨ ∃ c p b, x = some (c, p) ∧ a = .channel c b ∧
      ((s.chan c).call p = .closing → b = .lock p) := by
  cases Rule.of_step hs with
  | get k g hk hg => cases h.outside hk (by simp)
  | apply k x g v hk hg hv => cases hg.symm.trans (h.suspended hk)
  | leave k g hk hg => cases hg.symm.trans (h.suspended hk)
  | quit k hk => cases h.outside hk (by simp)
  | put o p v rest ho hp =>
    obtain rfl := h.outside ho (by simp)
    exact .inl (by rw [post_setPost, ho]; simp)
  | putDone o v p rest ho hp =>
    obtain rfl := h.outside ho (by simp)
    exact .inl (by rw [post_setPost, ho]; simp)
  | close o p c cs ho hp =>
    obtain rfl := h.outside ho (by simp)
    exact .inl (by rw [post_setPost, ho]; simp)
  | closeDone o c p cs ho hp =>
    obtain rfl := h.outside ho (by simp)
    exact .inl (by rw [post_setPost, ho]; simp)
  | feed v ho => exact .inl (by rw [ho]; simp)
  | shut c ho => exact .inl (by rw [post_setPost, ho]; simp)
  | channel c b u hb hu =>
    obtain ⟨g, hrest, hlock⟩ := Channel.exists_active hb hu
    have hx : x = some (c, g) := by
      by_contra hx
      exact hrest (h.calls c g hx)
    exact .inr ⟨c, g, b, hx, rfl, hlock⟩

omit [DecidableEq ι] in
lemma Quiet.setPost (h : s.Quiet x) (y : Place T) : (s.setPost none y).Quiet x where
  workers k := h.workers k
  calls     := h.calls

omit [DecidableEq κ] in
/-- The thread outside calls `close`. -/
lemma Quiet.close (h : s.Idle) (hp : (s.chan c).call p = .idle) :
    (s.setChan c ((s.chan c).make p .closing)).Quiet (some (c, p)) := by
  have hcall : ∀ e q, (c, p) ≠ (e, q) →
      ((s.setChan c ((s.chan c).make p .closing)).chan e).call q = (s.chan e).call q := by
    intro e q hq
    rcases eq_or_ne e c with rfl | he
    · have hqp : q ≠ p := fun hqp => hq (hqp ▸ rfl)
      simp [setChan, Channel.make, Channel.move, hqp]
    · simp [setChan, he]
  constructor
  · intro k
    rcases h.workers k with hgone | ⟨g, hk, hg⟩
    · exact .inl hgone
    · refine .inr ⟨g, hk, (hcall _ _ fun he => ?_).trans hg⟩
      obtain ⟨rfl, rfl⟩ := Prod.mk.inj he
      cases hp.symm.trans hg
  · intro e q hq
    rw [hcall e q fun he => hq (congrArg some he)]
    exact h.calls e q (by simp)

lemma closed_of_step (hs : Fabric.step journey s a = some s') (hc : (s'.chan c).closed = true) :
    (s.chan c).closed = true ∨ ∃ p, (s.chan c).call p = .closing := by
  cases touch_of_step hs c with
  | same h => exact .inl (h ▸ hc)
  | make g r hg hr h => exact .inl (by rwa [h, Channel.closed_make] at hc)
  | inside b ha hb hx => exact (Channel.closed_of_step hx hc).imp_right fun ⟨p, _, hp⟩ => ⟨p, hp⟩

lemma Sound.closed_step (h : s.Sound) (hs : Fabric.step journey s a = some s')
    (hc : (s.chan c).closed = true) : (s'.chan c).closed = true := by
  cases touch_of_step hs c with
  | same h => rwa [h]
  | make g r hg hr h => rwa [h, Channel.closed_make]
  | inside b ha hb hx => exact (h.still c).closed_step hx hc

/-- A call of the thread outside is before its section only if it was. -/
lemma Sound.closing_of_step (h : s.Sound) (hs : Fabric.step journey s a = some s')
    (ho : s.post none = .closing c p cs) (hp : (s'.chan c).call p = .closing) :
    (s.chan c).call p = .closing := by
  cases touch_of_step hs c with
  | same h => rwa [h] at hp
  | make g r hg hr he =>
    have hpg : p ≠ g := by
      rintro rfl
      exact h.seated.uses_ne (Sound.idle hg) none (by rw [ho]; rfl)
    rw [he] at hp
    cases r <;> simpa [Channel.make, hpg] using hp
  | inside b ha hb hx => exact Channel.closing_of_step hb hx hp

end Fabric

end Data

end Synca
