import Synca.Data.Ties

/-!
# The pipelines refine the flow

Each step of the pipelines is seen as moves of the flow, none or a few, so that what every move
keeps holds in every state the pipelines reach. Every channel of the pipelines is a channel reached
by itself, without events and without `open`.
-/

namespace Synca

namespace Data

open Transition

variable {ι κ Ω T : Type*}

/-- The workers that `goN` has made. -/
def GoN.Past : GoN → ℕ → Prop
  | .before,    _ => False
  | .looping i, m => m < i
  | .made,      _ => True

namespace Pipes

noncomputable def lanes (s : Pipes ι κ T) (c : ι) : Lane T := (s.chan c).lane

noncomputable def flow (stage : κ → Stage ι Ω T) (s : Pipes ι κ T) : Flow ι κ T :=
  flowOf stage s.lanes s.pc s.outside s.runs

/-- What the terms say about a step. When the producers finish, no `put` of theirs is left before
its section. -/
def Meets (stage : κ → Stage ι Ω T) (t : Terms ι κ T) (s : Pipes ι κ T) :
    Action ι κ Ω T → Prop
  | .feed c _ _ => t.feeds c
  | .finish => t.finishes (s.flow stage) ∧ ∀ c p v, (s.chan c).call p = .put v →
      ∃ w rest, (stage w.1).dst = some c ∧ s.pc w = .putting p rest
  | .channel c (.lock p) => (s.chan c).call p = .closing → (s.chan c).closed = false →
      ∀ w, (stage w.1).dst = some c → s.pc w = .closing p → t.closes (s.flow stage) w
  | _ => True

structure Sound (stage : κ → Stage ι Ω T) (c₀ : ι) (t : Terms ι κ T) (s : Pipes ι κ T) :
    Prop where
  still : ∀ c, (s.chan c).Still
  ties : Ties stage c₀ t s.lanes s.pc s.outside
  born : ∀ i m, s.pc (i, m) ≠ .unborn → (s.goN i).Past m

end Pipes

namespace Ties

variable {stage : κ → Stage ι Ω T} {c₀ : ι} {t : Terms ι κ T} {l : ι → Lane T}
  {pc : κ × ℕ → Pc T} {o : Outside} {runs : List (Run κ T)} {c : ι} {g : ℕ} {x : Deal T}
  {w : κ × ℕ} {y : Pc T}

/-- No worker is in a call that is not made. -/
lemma uses_ne (h : Ties stage c₀ t l pc o) (hg : (l c).deal g = .idle) (w : κ × ℕ) :
    (stage w.1).uses (pc w) ≠ some (c, g) := by
  intro hu
  have hfit := h.fits w
  rw [deal_of_uses hu, hg] at hfit
  cases hw : pc w <;> simp_all [Pc.Fits, Stage.uses]

/-- A call of a worker is decided, or has had its section. -/
def Settled (st : Stage ι Ω T) (l : ι → Lane T) (y : Pc T) : Prop :=
  ∀ c g, st.uses y = some (c, g) →
    (l c).deal g ≠ .asking ∧ (l c).deal g ≠ .closing ∧ ∀ v, (l c).deal g ≠ .put v

section

variable [DecidableEq κ]

/-- A worker leaves a settled call. -/
lemma leave (h : Ties stage c₀ t l pc o) (hset : Settled (stage w.1) l (pc w))
    (hy : (stage w.1).uses y = none) (hfit : y.Fits none) :
    Ties stage c₀ t l (Function.update pc w y) o := by
  have hne : ∀ {w'} {z}, (stage w'.1).uses (Function.update pc w y w') = some z → w' ≠ w := by
    rintro w' z hu rfl
    rw [Function.update_self, hy] at hu
    cases hu
  constructor
  · intro w₁ w₂ z h₁ h₂
    have hn₁ := hne h₁
    have hn₂ := hne h₂
    rw [Function.update_of_ne hn₁] at h₁
    rw [Function.update_of_ne hn₂] at h₂
    exact h.one _ _ _ h₁ h₂
  · intro w'
    rcases eq_or_ne w' w with rfl | hw
    · rw [Function.update_self, Stage.deal, hy]
      exact hfit
    · rw [Function.update_of_ne hw]
      exact h.fits w'
  · intro d g hg
    obtain ⟨w', hd, hw'⟩ := h.asker d g hg
    refine ⟨w', hd, ?_⟩
    rw [Function.update_of_ne]
    · exact hw'
    · rintro rfl
      exact (hset d g (by simp [hw', Stage.uses, hd])).1 hg
  · intro d p v hp
    refine (h.putter d p v hp).imp_left ?_
    rintro ⟨w', rest, hd, hw'⟩
    refine ⟨w', rest, hd, ?_⟩
    rw [Function.update_of_ne]
    · exact hw'
    · rintro rfl
      exact (hset d p (by simp [hw', Stage.uses, hd])).2.2 v hp
  · intro d p hp
    refine (h.closer d p hp).imp_left ?_
    rintro ⟨w', hd, hw'⟩
    refine ⟨w', hd, ?_⟩
    rw [Function.update_of_ne]
    · exact hw'
    · rintro rfl
      exact (hset d p (by simp [hw', Stage.uses, hd])).2.1 hp

end

section

variable [DecidableEq ι]

lemma deal_make (d : ι) (q : ℕ) : (Function.update l c ((l c).make g x) d).deal q =
    if d = c ∧ q = g then x else (l d).deal q := by
  rcases eq_or_ne d c with rfl | hd
  · by_cases hq : q = g <;> simp [Lane.make, hq]
  · simp [hd]

/-- A call of the outside is made. -/
lemma make (h : Ties stage c₀ t l pc o) {o' : Outside} (hg : (l c).deal g = .idle)
    (hx : x ≠ .asking) (hfeed : ∀ v, x = .put v → o' = .feeding ∧ t.feeds c)
    (hshut : x = .closing → o' = .shutting g ∧ c = c₀) (ho : o = .feeding → o' = .feeding)
    (hs : ∀ p, o ≠ .shutting p) :
    Ties stage c₀ t (Function.update l c ((l c).make g x)) pc o' := by
  constructor
  · exact h.one
  · intro w
    rw [deal_update fun q hq => ?_]
    · exact h.fits w
    · refine Function.update_of_ne ?_ _ _
      rintro rfl
      exact h.uses_ne hg w hq
  · intro d q hq
    rw [deal_make] at hq
    split_ifs at hq with hdq
    · exact absurd hq hx
    · exact h.asker d q hq
  · intro d p v hp
    rw [deal_make] at hp
    split_ifs at hp with hdp
    · obtain ⟨rfl, rfl⟩ := hdp
      exact .inr (hfeed v hp)
    · exact (h.putter d p v hp).imp_right fun hf => ⟨ho hf.1, hf.2⟩
  · intro d p hp
    rw [deal_make] at hp
    split_ifs at hp with hdp
    · obtain ⟨rfl, rfl⟩ := hdp
      exact .inr (hshut hp)
    · exact (h.closer d p hp).imp_right fun hf => absurd hf.1 (hs p)

variable [DecidableEq κ]

/-- A worker makes a call. -/
lemma call (h : Ties stage c₀ t l pc o) (hg : (l c).deal g = .idle)
    (hw : (stage w.1).uses (pc w) = none) (hy : (stage w.1).uses y = some (c, g))
    (hfit : y.Fits (some x)) (hget : x = .asking → y = .getting g)
    (hput : ∀ v, x = .put v → ∃ rest, (stage w.1).dst = some c ∧ y = .putting g rest)
    (hclose : x = .closing → (stage w.1).dst = some c ∧ y = .closing g) :
    Ties stage c₀ t (Function.update l c ((l c).make g x)) (Function.update pc w y) o := by
  have hmake : ((l c).make g x).deal g = x := Function.update_self _ _ _
  have hold : ∀ {w' z}, pc w' = z → (stage w'.1).uses z ≠ none →
      Function.update pc w y w' = z := by
    rintro w' z rfl hz
    rw [Function.update_of_ne]
    rintro rfl
    exact hz hw
  constructor
  · intro w₁ w₂ z h₁ h₂
    rcases eq_or_ne w₁ w with rfl | hn₁ <;> rcases eq_or_ne w₂ w₁ with rfl | hn₂
    · rfl
    · rw [Function.update_self, hy] at h₁
      rw [Function.update_of_ne hn₂] at h₂
      exact absurd (h₂.trans h₁.symm) (h.uses_ne hg w₂)
    · rfl
    · rcases eq_or_ne w₂ w with rfl | hn
      · rw [Function.update_self, hy] at h₂
        rw [Function.update_of_ne hn₁] at h₁
        exact absurd (h₁.trans h₂.symm) (h.uses_ne hg w₁)
      · rw [Function.update_of_ne hn₁] at h₁
        rw [Function.update_of_ne hn] at h₂
        exact h.one _ _ _ h₁ h₂
  · intro w'
    rcases eq_or_ne w' w with rfl | hn
    · rw [Function.update_self, deal_of_uses hy, Function.update_self, hmake]
      exact hfit
    · rw [Function.update_of_ne hn, deal_update fun q hq => ?_]
      · exact h.fits w'
      · refine Function.update_of_ne ?_ _ _
        rintro rfl
        exact h.uses_ne hg w' hq
  · intro d q hq
    rw [deal_make] at hq
    split_ifs at hq with hdq
    · obtain ⟨rfl, rfl⟩ := hdq
      obtain rfl := hget hq
      refine ⟨w, ?_, Function.update_self _ _ _⟩
      simpa [Stage.uses] using hy
    · obtain ⟨w', hd, hw'⟩ := h.asker d q hq
      exact ⟨w', hd, hold hw' (by simp [Stage.uses])⟩
  · intro d p v hp
    rw [deal_make] at hp
    split_ifs at hp with hdp
    · obtain ⟨rfl, rfl⟩ := hdp
      obtain ⟨rest, hd, rfl⟩ := hput v hp
      exact .inl ⟨w, rest, hd, Function.update_self _ _ _⟩
    · refine (h.putter d p v hp).imp_left ?_
      rintro ⟨w', rest, hd, hw'⟩
      exact ⟨w', rest, hd, hold hw' (by simp [Stage.uses, hd])⟩
  · intro d p hp
    rw [deal_make] at hp
    split_ifs at hp with hdp
    · obtain ⟨rfl, rfl⟩ := hdp
      obtain ⟨hd, rfl⟩ := hclose hp
      exact .inl ⟨w, hd, Function.update_self _ _ _⟩
    · refine (h.closer d p hp).imp_left ?_
      rintro ⟨w', hd, hw'⟩
      exact ⟨w', hd, hold hw' (by simp [Stage.uses, hd])⟩

end

/-! ### The flow after a change of the workers -/

section

variable [DecidableEq κ]

lemma flow_setPc (hy : (stage w.1).uses y = none) :
    flowOf stage l (Function.update pc w y) o runs =
      (flowOf stage l pc o runs).setPhase w (y.phase none) := by
  refine Flow.ext rfl rfl rfl (funext fun w' => ?_) rfl rfl
  rw [Flow.phase_setPhase]
  split_ifs with hw
  · subst hw
    simp [flowOf, Stage.deal, hy]
  · simp [flowOf, hw]

variable [DecidableEq ι]

omit [DecidableEq κ] in
lemma flow_make (h : Ties stage c₀ t l pc o) (hg : (l c).deal g = .idle) :
    flowOf stage (Function.update l c ((l c).make g x)) pc o runs = flowOf stage l pc o runs := by
  refine Flow.ext (gots_same rfl) (queue_same rfl) (closed_same rfl) (funext fun w => ?_) rfl rfl
  refine phase_update fun q hq => Function.update_of_ne ?_ _ _
  rintro rfl
  exact h.uses_ne hg w hq

lemma flow_call (h : Ties stage c₀ t l pc o) (hg : (l c).deal g = .idle)
    (hy : (stage w.1).uses y = some (c, g))
    (hphase : y.phase (some x) = (flowOf stage l pc o runs).phase w) :
    flowOf stage (Function.update l c ((l c).make g x)) (Function.update pc w y) o runs =
      flowOf stage l pc o runs := by
  have hself : ((l c).make g x).deal g = x := Function.update_self _ _ _
  refine Flow.ext (gots_same rfl) (queue_same rfl) (closed_same rfl) (funext fun w' => ?_) rfl rfl
  rcases eq_or_ne w' w with rfl | hw
  · rw [← hphase, flowOf]
    simp only [Function.update_self]
    rw [deal_of_uses hy, Function.update_self, hself]
  · refine Eq.trans ?_ (congrFun (congrArg Flow.phase (flow_make (x := x) h hg)) w')
    simp only [flowOf, Function.update_of_ne hw]

end

end Ties

namespace Pipes

variable {stage : κ → Stage ι Ω T} {c₀ : ι} {t : Terms ι κ T} {s s' : Pipes ι κ T}
  {a : Action ι κ Ω T}

section

variable [DecidableEq κ] (s) (w : κ × ℕ)

@[simp] lemma pc_setPc (y : Pc T) : (s.setPc w y).pc = Function.update s.pc w y := by
  funext w'
  rcases eq_or_ne w' w with rfl | hw
  · simp [pc, setPc]
  · simp [pc, setPc, hw]

@[simp] lemma lanes_setPc (y : Pc T) : (s.setPc w y).lanes = s.lanes := rfl

@[simp] lemma outside_setPc (y : Pc T) : (s.setPc w y).outside = s.outside := rfl

@[simp] lemma runs_setPc (y : Pc T) : (s.setPc w y).runs = s.runs := rfl

@[simp] lemma pc_call (v : T) (outs : List T) :
    (s.call w v outs).pc = Function.update s.pc w (.looping outs) :=
  pc_setPc s w _

@[simp] lemma lanes_call (v : T) (outs : List T) : (s.call w v outs).lanes = s.lanes := rfl

@[simp] lemma outside_call (v : T) (outs : List T) : (s.call w v outs).outside = s.outside := rfl

@[simp] lemma pc_create : (s.create w).pc = Function.update s.pc w (.looping []) := by
  funext w'
  rcases eq_or_ne w' w with rfl | hw
  · simp [pc, create]
  · simp [pc, create, hw]

end

section

variable [DecidableEq ι]

@[simp] lemma lanes_setChan (c : ι) (x : Channel T) :
    (s.setChan c x).lanes = Function.update s.lanes c x.lane :=
  Channel.lane_update s.chan c x

@[simp] lemma pc_setChan (c : ι) (x : Channel T) : (s.setChan c x).pc = s.pc := rfl

@[simp] lemma outside_setChan (c : ι) (x : Channel T) :
    (s.setChan c x).outside = s.outside := rfl

@[simp] lemma runs_setChan (c : ι) (x : Channel T) : (s.setChan c x).runs = s.runs := rfl

lemma lanes_make (s : Pipes ι κ T) (c : ι) (g : ℕ) (r : Request T) :
    (s.setChan c ((s.chan c).make g r)).lanes =
      Function.update s.lanes c ((s.lanes c).make g r.deal) := by
  rw [lanes_setChan, Channel.lane_make]
  rfl

end

namespace Sound

lemma deal_idle {c : ι} {g : ℕ} (h : (s.chan c).call g = .idle) : (s.lanes c).deal g = .idle :=
  Channel.deal_of_idle h

/-- A worker that `goN` has not made. -/
lemma unborn (h : s.Sound stage c₀ t) {i : κ} {m : ℕ} (hm : ¬ (s.goN i).Past m) :
    s.pc (i, m) = .unborn := by
  by_contra hne
  exact hm (h.born i m hne)

lemma deal_got (h : s.Sound stage c₀ t) {w : κ × ℕ} {g : ℕ} {v : T} (hw : s.pc w = .getting g)
    (hg : (s.chan (stage w.1).src).call g = .returned true)
    (hv : (s.chan (stage w.1).src).dest g = some v) :
    (stage w.1).deal s.lanes (s.pc w) = some (.got v) := by
  simp [Stage.deal, Stage.uses, hw, lanes, Channel.lane, (h.still _).deal_of_returned hg hv]

lemma deal_refused (h : s.Sound stage c₀ t) {w : κ × ℕ} {g : ℕ} (hw : s.pc w = .getting g)
    (hg : (s.chan (stage w.1).src).call g = .returned false) :
    (stage w.1).deal s.lanes (s.pc w) = some .refused := by
  simp [Stage.deal, Stage.uses, hw, lanes, Channel.lane, (h.still _).deal_of_returned_false hg]

lemma deal_done {w : κ × ℕ} {c : ι} {p : ℕ} (hu : (stage w.1).uses (s.pc w) = some (c, p))
    (hp : (s.chan c).call p = .done) : (stage w.1).deal s.lanes (s.pc w) = some .done := by
  simp [Stage.deal, hu, lanes, Channel.lane, Channel.deal_of_done hp]

lemma settled_of_deal {w : κ × ℕ} {x : Deal T}
    (hx : (stage w.1).deal s.lanes (s.pc w) = some x)
    (hne : x ≠ .asking ∧ x ≠ .closing ∧ ∀ v, x ≠ .put v) :
    Ties.Settled (stage w.1) s.lanes (s.pc w) := by
  intro c g hu
  rw [Ties.deal_of_uses hu] at hx
  rw [Option.some_injective _ hx]
  exact hne

lemma settled_of_none {w : κ × ℕ} (hw : (stage w.1).uses (s.pc w) = none) :
    Ties.Settled (stage w.1) s.lanes (s.pc w) := by
  intro c g hu
  rw [hw] at hu
  cases hu

lemma ties_create [DecidableEq κ] (h : s.Sound stage c₀ t) {w : κ × ℕ} (hw : s.pc w = .unborn) :
    Ties stage c₀ t s.lanes (s.create w).pc s.outside := by
  rw [pc_create]
  exact h.ties.leave (settled_of_none (by simp [hw, Stage.uses])) rfl trivial

variable [DecidableEq ι] [DecidableEq κ]

lemma step_still (h : s.Sound stage c₀ t) (hs : step stage c₀ s a = some s') (d : ι) :
    (s'.chan d).Still := by
  cases Rule.of_step hs with
  | get w g hw hp | put w p c v rest hw hd hp | close w p c hw hd hp | feed c p v ho hp
  | shut p ho hp => exact Channel.still_update h.still ((h.still _).make hp (by simp)) d
  | channel c b x hb hx =>
    exact Channel.still_update h.still ((h.still c).step_internal hb hx) d
  | _ => exact h.still d

/-- The ties along the deeds of a step on a channel, and the moves of the flow. -/
lemma ties_deeds (h : s.Sound stage c₀ t) {c : ι} {b : Channel.Action T} {m : Lane T}
    (ht : s.Meets stage t (.channel c b))
    (hm : Relation.ReflTransGen ((s.chan c).Does b) (s.lanes c) m) :
    Ties stage c₀ t (Function.update s.lanes c m) s.pc s.outside ∧
    Relation.ReflTransGen (Flow.Move stage c₀ t) (s.flow stage)
      (flowOf stage (Function.update s.lanes c m) s.pc s.outside s.runs) := by
  induction hm with
  | refl =>
    rw [Function.update_eq_self]
    exact ⟨h.ties, .refl⟩
  | @tail m m' _ hd ih =>
    obtain ⟨hties, hmoves⟩ := ih
    obtain ⟨hdeed, hcl⟩ := hd
    have hself : Function.update s.lanes c m c = m := Function.update_self _ _ _
    have hidem : Function.update (Function.update s.lanes c m) c m' =
        Function.update s.lanes c m' := Function.update_idem _ _ _
    rw [← hidem]
    rw [← hself] at hdeed
    refine ⟨hties.deed hdeed,
      hmoves.tail (hties.move_of_deed hdeed fun hne p hp hp' w hd hw => ?_)⟩
    rw [hself] at hdeed hne hp
    -- it is the section of a `close`
    obtain ⟨rfl, rfl⟩ := hcl p (.inl hp) (hp.symm ▸ hp')
    have hcall := Channel.call_of_closing hp
    have hfree : (s.chan c).closed = false := by
      by_contra hc
      have hc : (s.chan c).lane.closed = true := by simpa [Channel.lane] using hc
      exact hne ((hdeed.closed hc).trans hc.symm)
    have he : Function.update s.lanes c (s.chan c).lane = s.lanes := Function.update_eq_self _ _
    rw [he]
    exact ht hcall hfree w hd hw

omit [DecidableEq ι] [DecidableEq κ] in
lemma deeds_of_channel (h : s.Sound stage c₀ t) {c : ι} {b : Channel.Action T} {x : Channel T}
    (hb : internal b = true) (hx : Channel.step (s.chan c) b = some x) :
    Relation.ReflTransGen ((s.chan c).Does b) (s.lanes c) x.lane := by
  exact (h.still c).deeds_of_internal hb hx

lemma step_ties (h : s.Sound stage c₀ t) (ht : s.Meets stage t a)
    (hs : step stage c₀ s a = some s') : Ties stage c₀ t s'.lanes s'.pc s'.outside := by
  cases Rule.of_step hs with
  | pipingOne i hi hn => exact h.ties_create (h.unborn (by simp [hi, GoN.Past]))
  | pipingMany i hi hn => exact h.ties
  | go i m hi hm => exact h.ties_create (h.unborn (by simp [hi, GoN.Past]))
  | goEnd i m hi hm => exact h.ties
  | get w g hw hg =>
    simp only [pc_setPc, lanes_setPc, outside_setPc, lanes_make, pc_setChan, outside_setChan]
    exact h.ties.call (deal_idle hg) (by simp [hw, Stage.uses]) rfl (.inl rfl) (fun _ => rfl)
      (by simp [Request.deal]) (by simp [Request.deal])
  | apply w x g v hw hg hv =>
    simp only [pc_call, lanes_call, outside_call]
    exact h.ties.leave (settled_of_deal (h.deal_got hw hg hv) (by simp)) rfl trivial
  | leave w g hw hg =>
    simp only [pc_setPc, lanes_setPc, outside_setPc]
    have hset := settled_of_deal (h.deal_refused hw hg) (by simp)
    split_ifs
    · exact h.ties.leave hset rfl trivial
    · exact h.ties.leave hset rfl trivial
  | put w p d v rest hw hd hp =>
    simp only [pc_setPc, lanes_setPc, outside_setPc, lanes_make, pc_setChan, outside_setChan]
    refine h.ties.call (deal_idle hp) (by simp [hw, Stage.uses]) (by simp [Stage.uses, hd])
      (.inr ⟨v, rfl⟩) (by simp [Request.deal]) (fun _ _ => ⟨rest, hd, rfl⟩) (by simp [Request.deal])
  | putDone w p d rest hw hd hp =>
    simp only [pc_setPc, lanes_setPc, outside_setPc]
    have hu : (stage w.1).uses (s.pc w) = some (d, p) := by simp [hw, Stage.uses, hd]
    exact h.ties.leave (settled_of_deal (deal_done hu hp) (by simp)) rfl trivial
  | close w p d hw hd hp =>
    simp only [pc_setPc, lanes_setPc, outside_setPc, lanes_make, pc_setChan, outside_setChan]
    exact h.ties.call (deal_idle hp) (by simp [hw, Stage.uses]) (by simp [Stage.uses, hd])
      (.inr rfl) (by simp [Request.deal]) (by simp [Request.deal]) fun _ => ⟨hd, rfl⟩
  | exit w p d hw hd hp =>
    simp only [pc_setPc, lanes_setPc, outside_setPc]
    have hu : (stage w.1).uses (s.pc w) = some (d, p) := by simp [hw, Stage.uses, hd]
    exact h.ties.leave (settled_of_deal (deal_done hu hp) (by simp)) rfl trivial
  | channel c b x hb hx =>
    rw [lanes_setChan]
    exact (h.ties_deeds ht (h.deeds_of_channel hb hx)).1
  | feed c p v ho hp =>
    rw [lanes_make]
    refine h.ties.make (deal_idle hp) (by simp [Request.deal]) (fun _ _ => ⟨ho, ht⟩)
      (by simp [Request.deal]) id (by simp [ho])
  | finish ho =>
    refine ⟨h.ties.one, h.ties.fits, h.ties.asker, fun c p v hp => ?_, fun c p hp => ?_⟩
    · exact .inl (ht.2 c p v (Channel.call_of_put hp))
    · exact (h.ties.closer c p hp).imp_right fun hf => by cases ho.symm.trans hf.1
  | shut p ho hp =>
    have hl := lanes_make s c₀ p .closing
    exact hl ▸ h.ties.make (deal_idle hp) (by simp [Request.deal]) (by simp [Request.deal])
      (fun _ => ⟨rfl, rfl⟩) (by simp [ho]) (by simp [ho])
  | shutDone p ho hp => 
    refine ⟨h.ties.one, h.ties.fits, h.ties.asker, fun c p v hp => ?_, fun c q hq => ?_⟩
    · exact (h.ties.putter c p v hp).imp_right fun hf => by cases ho.symm.trans hf.1
    · refine .inl ((h.ties.closer c q hq).resolve_right ?_)
      rintro ⟨hpq, rfl⟩
      cases ho.symm.trans hpq
      cases (Channel.deal_of_done hp).symm.trans hq
  | wait ho =>
    refine ⟨h.ties.one, h.ties.fits, h.ties.asker, fun c p v hp => ?_, fun c q hq => ?_⟩
    · exact (h.ties.putter c p v hp).imp_right fun hf => by cases ho.symm.trans hf.1
    · exact (h.ties.closer c q hq).imp_right fun hf => by cases ho.symm.trans hf.1

omit [DecidableEq ι] in
/-- A worker that has been made goes on. -/
lemma born_update (h : s.Sound stage c₀ t) {w : κ × ℕ} {y : Pc T} (hw : s.pc w ≠ .unborn) (i : κ)
    (m : ℕ) (hm : Function.update s.pc w y (i, m) ≠ .unborn) : (s.goN i).Past m := by
  rcases eq_or_ne (i, m) w with rfl | hne
  · exact h.born i m hw
  · rw [Function.update_of_ne hne] at hm
    exact h.born i m hm

omit [DecidableEq ι] in
lemma born_create (h : s.Sound stage c₀ t) {i : κ} {m : ℕ} {x : GoN}
    (hx : ∀ k, (s.goN i).Past k ∨ k = m → x.Past k) (j : κ) (k : ℕ)
    (hk : (s.create (i, m)).pc (j, k) ≠ .unborn) :
    (((s.create (i, m)).setGoN i x).goN j).Past k := by
  rw [pc_create] at hk
  rcases eq_or_ne j i with rfl | hj
  · simp only [setGoN, Function.update_self]
    refine hx k ?_
    rcases eq_or_ne k m with rfl | hkm
    · exact .inr rfl
    · rw [Function.update_of_ne (by simpa using hkm)] at hk
      exact .inl (h.born j k hk)
  · simp only [setGoN, Function.update_of_ne hj]
    rw [Function.update_of_ne (by simp [hj])] at hk
    exact h.born j k hk

lemma step_born (h : s.Sound stage c₀ t) (hs : step stage c₀ s a = some s') (i : κ) (m : ℕ)
    (hm : s'.pc (i, m) ≠ .unborn) : (s'.goN i).Past m := by
  cases Rule.of_step hs with
  | pipingOne j hj hn => exact h.born_create (x := .made) (fun _ _ => trivial) i m hm
  | pipingMany j hj hn =>
    have hold := h.born i m hm
    rcases eq_or_ne i j with rfl | hij
    · rw [hj] at hold
      cases hold
    · simpa [setGoN, hij] using hold
  | go j k hj hk =>
    refine h.born_create (fun q hq => ?_) i m hm
    rw [hj] at hq
    exact Nat.lt_succ_iff_lt_or_eq.mpr hq
  | goEnd j k hj hk =>
    have hold := h.born i m hm
    rcases eq_or_ne i j with rfl | hij
    · simp [setGoN, GoN.Past]
    · simpa [setGoN, hij] using hold
  | get w g hw hg =>
    exact h.born_update (w := w) (by simp [hw]) i m (by simpa using hm)
  | apply w x g v hw hg hv =>
    exact h.born_update (w := w) (by simp [hw]) i m (by simpa using hm)
  | leave w g hw hg => exact h.born_update (w := w) (by simp [hw]) i m (by simpa using hm)
  | put w p d v rest hw hd hp =>
    exact h.born_update (w := w) (by simp [hw]) i m (by simpa using hm)
  | putDone w p d rest hw hd hp =>
    exact h.born_update (w := w) (by simp [hw]) i m (by simpa using hm)
  | close w p d hw hd hp =>
    exact h.born_update (w := w) (by simp [hw]) i m (by simpa using hm)
  | exit w p d hw hd hp => exact h.born_update (w := w) (by simp [hw]) i m (by simpa using hm)
  | _ => exact h.born i m hm

theorem step (h : s.Sound stage c₀ t) (ht : s.Meets stage t a)
    (hs : Data.step stage c₀ s a = some s') : s'.Sound stage c₀ t :=
  ⟨h.step_still hs, h.step_ties ht hs, h.step_born hs⟩

/-! ### Steps as moves -/

omit [DecidableEq ι] [DecidableEq κ] in
lemma phase_of_pc {w : κ × ℕ} {y : Pc T} (hw : s.pc w = y) :
    (s.flow stage).phase w = y.phase ((stage w.1).deal s.lanes y) := by
  subst hw
  rfl

omit [DecidableEq ι] in
lemma flow_setPc {w : κ × ℕ} {y : Pc T} (hy : (stage w.1).uses y = none) :
    (s.setPc w y).flow stage = (s.flow stage).setPhase w (y.phase none) := by
  rw [flow, pc_setPc]
  exact Ties.flow_setPc hy

omit [DecidableEq ι] in
lemma flow_create (w : κ × ℕ) (i : κ) (x : GoN) :
    ((s.create w).setGoN i x).flow stage = (s.flow stage).setPhase w (.looping []) := by
  have hpc : ((s.create w).setGoN i x).pc = Function.update s.pc w (.looping []) := pc_create s w
  rw [flow, hpc]
  exact Ties.flow_setPc rfl

omit [DecidableEq ι] in
lemma flow_call (w : κ × ℕ) (v : T) (outs : List T) : (s.call w v outs).flow stage =
    { (s.flow stage).setPhase w (.looping outs) with runs := s.runs ++ [⟨w, v, outs⟩] } := by
  rw [flow, pc_call]
  exact Ties.flow_setPc rfl

/-- A worker makes a call. -/
lemma flow_make (h : s.Sound stage c₀ t) {w : κ × ℕ} {c : ι} {g : ℕ} {r : Request T} {y : Pc T}
    (hg : (s.chan c).call g = .idle) (hy : (stage w.1).uses y = some (c, g))
    (hphase : y.phase (some r.deal) = (s.flow stage).phase w) :
    ((s.setChan c ((s.chan c).make g r)).setPc w y).flow stage = s.flow stage := by
  rw [flow, pc_setPc, lanes_setPc, lanes_make]
  exact h.ties.flow_call (deal_idle hg) hy hphase

/-- Every step is a run of moves. -/
theorem moves (h : s.Sound stage c₀ t) (ht : s.Meets stage t a)
    (hs : Data.step stage c₀ s a = some s') :
    Relation.ReflTransGen (Flow.Move stage c₀ t) (s.flow stage) (s'.flow stage) := by
  have hquiet : s'.flow stage = s.flow stage →
      Relation.ReflTransGen (Flow.Move stage c₀ t) (s.flow stage) (s'.flow stage) :=
    fun he => he ▸ .refl
  cases Rule.of_step hs with
  | pipingOne i hi hn =>
    rw [flow_create]
    have hw : s.pc (i, 0) = .unborn := h.unborn (by simp [hi, GoN.Past])
    exact .single (.go (i, 0) (phase_of_pc hw) (by simp [hn]))
  | pipingMany i hi hn => exact hquiet rfl
  | go i m hi hm =>
    rw [flow_create]
    have hw : s.pc (i, m) = .unborn := h.unborn (by simp [hi, GoN.Past])
    exact .single (.go (i, m) (phase_of_pc hw) hm)
  | goEnd i m hi hm => exact hquiet rfl
  | get w g hw hg => exact hquiet (h.flow_make hg rfl (phase_of_pc hw).symm)
  | apply w x g v hw hg hv =>
    rw [flow_call]
    have hphase : (s.flow stage).phase w = .holding v := by
      rw [phase_of_pc rfl, h.deal_got hw hg hv, hw]
      rfl
    exact .single (.apply w x v hphase)
  | leave w g hw hg =>
    have hphase : (s.flow stage).phase w = .ended := by
      rw [phase_of_pc rfl, h.deal_refused hw hg, hw]
      rfl
    by_cases hd : (stage w.1).dst.isSome = true
    · refine hquiet ?_
      rw [if_pos hd, flow_setPc rfl]
      exact Flow.setPhase_self _ hphase
    · rw [if_neg hd, flow_setPc rfl]
      exact .single (.quit w hphase (by simpa using hd))
  | put w p d v rest hw hd hp =>
    exact hquiet (h.flow_make hp (by simp [Stage.uses, hd]) (phase_of_pc hw).symm)
  | putDone w p d rest hw hd hp =>
    have hu : (stage w.1).uses (s.pc w) = some (d, p) := by simp [hw, Stage.uses, hd]
    refine hquiet ?_
    rw [flow_setPc rfl]
    refine Flow.setPhase_self _ ?_
    rw [phase_of_pc rfl, deal_done hu hp, hw]
    rfl
  | close w p d hw hd hp =>
    exact hquiet (h.flow_make hp (by simp [Stage.uses, hd]) (phase_of_pc hw).symm)
  | exit w p d hw hd hp =>
    have hu : (stage w.1).uses (s.pc w) = some (d, p) := by simp [hw, Stage.uses, hd]
    refine hquiet ?_
    rw [flow_setPc rfl]
    refine Flow.setPhase_self _ ?_
    rw [phase_of_pc rfl, deal_done hu hp, hw]
    rfl
  | channel c b x hb hx =>
    have hm := (h.ties_deeds ht (h.deeds_of_channel hb hx)).2
    rwa [← lanes_setChan] at hm
  | feed c p v ho hp =>
    refine hquiet ?_
    rw [flow, lanes_make]
    exact h.ties.flow_make (deal_idle hp)
  | finish ho =>
    have he : (s.flow stage).feeding = true := by simp [flow, flowOf, ho]
    exact .single (.finish he ht.1)
  | shut p ho hp =>
    refine hquiet ?_
    have hl := lanes_make s c₀ p .closing
    calc flowOf stage (s.setChan c₀ ((s.chan c₀).make p .closing)).lanes s.pc (.shutting p) s.runs
        = flowOf stage (Function.update s.lanes c₀ ((s.lanes c₀).make p .closing)) s.pc
            (.shutting p) s.runs := by rw [hl]; rfl
      _ = flowOf stage (Function.update s.lanes c₀ ((s.lanes c₀).make p .closing)) s.pc
            s.outside s.runs := by rw [ho]; rfl
      _ = s.flow stage := h.ties.flow_make (deal_idle hp)
  | shutDone p ho hp =>
    refine hquiet ?_
    rw [flow, flow, ho]
    rfl
  | wait ho =>
    refine hquiet ?_
    rw [flow, flow, ho]
    rfl

end Sound

/-- When no task is left, a worker that has not left waits on an empty channel that is not
closed. -/
lemma Sound.worker_of_idle (h : s.Sound stage c₀ t) (hidle : s.Idle stage) (i : κ) (m : ℕ)
    (hm : m < (stage i).n) : s.pc (i, m) = .done ∨ (s.flow stage).phase (i, m) = .looping [] ∧
      (s.chan (stage i).src).queue = [] ∧ (s.chan (stage i).src).closed = false := by
  refine (hidle.workers i m hm).imp_right ?_
  rintro ⟨g, hw, hg⟩
  have hl := (h.still _).holds_of_suspended (fun p => .inl (hidle.calls _ p)) hg
  refine ⟨?_, (h.still _).empty_of_list hl⟩
  have hd : (s.lanes (stage i).src).deal g = .asking := (h.still _).deal_of_list hl
  rw [Sound.phase_of_pc hw, Ties.deal_of_uses rfl, hd]
  rfl

lemma sound_init : ({} : Pipes ι κ T).Sound stage c₀ t where
  still c := Channel.inductive_still.init _ rfl
  ties :=
    have hidle : ∀ c g, (({} : Pipes ι κ T).lanes c).deal g = .idle :=
      fun c g => Channel.deal_of_idle (s := {}) (g := g) rfl
    { one := fun _ _ _ hu => by cases hu
      fits := fun _ => trivial
      asker := fun c g hg => by cases (hidle c g).symm.trans hg
      putter := fun c p v hp => by cases (hidle c p).symm.trans hp
      closer := fun c p hp => by cases (hidle c p).symm.trans hp }
  born i m hm := absurd rfl hm

section

variable [DecidableEq ι] [DecidableEq κ] {C : Pipes ι κ T → Action ι κ Ω T → Prop}

lemma inductive_sound (stage : κ → Stage ι Ω T) (c₀ : ι) (t : Terms ι κ T) :
    (machine stage c₀).Inductive (Meets stage t) (Sound stage c₀ t) where
  init s h := by
    obtain rfl : s = {} := h
    exact sound_init
  step _ _ _ h ht hs := h.step ht hs

/-- A condition that implies the terms, in states reached so far. -/
lemma reachable_meets (hC : ∀ s a, s.Sound stage c₀ t → C s a → s.Meets stage t a)
    (h : (machine stage c₀).ReachableBy C s) :
    (machine stage c₀).ReachableBy (Meets stage t) s := by
  induction h with
  | init h₀ => exact .init h₀
  | step _ ha hs ih => exact ih.step (hC _ _ ((inductive_sound stage c₀ t).holds ih) ha) hs

/-- A property of the flow that every move keeps holds in every state reached along the runs that
meet the terms. -/
theorem holds_flow {I : Flow ι κ T → Prop} (h₀ : I {})
    (hI : ∀ f f', I f → f.Move stage c₀ t f' → I f')
    (h : (machine stage c₀).ReachableBy (Meets stage t) s) : I (s.flow stage) := by
  refine (Machine.Inductive.holds (I := fun s => s.Sound stage c₀ t ∧ I (s.flow stage)) ?_ h).2
  refine (inductive_sound stage c₀ t).and (fun s hs => ?_) fun s a s' hS hf ht hs => ?_
  · obtain rfl : s = {} := hs
    have he : ({} : Pipes ι κ T).flow stage = {} := rfl
    rwa [he]
  · exact Flow.kept hI hf (hS.moves ht hs)

end

end Pipes

end Data

end Synca
