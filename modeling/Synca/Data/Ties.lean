import Synca.Data.Flow

/-!
# Calls of workers

Which call on which lane a worker is in, and what this says of the worker: the view of the
pipelines as a flow. No two workers are in the same call, a `get` that is still asking belongs to
some worker, and a `put` or `close` before its section to a worker or to the outside. Under these
ties every deed on a lane is one move of the flow.
-/

namespace Synca

open Transition

variable {ι κ Ω T : Type*}

namespace Lane

variable {l m : Lane T}

/-- What a deed does to the deal of a call. -/
lemma Deed.next (h : l.Deed m) (g : ℕ) :
    m.deal g = l.deal g ∨
    (l.deal g = .asking ∧ (m.deal g = .refused ∨ ∃ v, m.deal g = .got v)) ∨
    ((∃ v, l.deal g = .put v) ∧ m.deal g = .done) ∨
    (l.deal g = .closing ∧ m.deal g = .done) := by
  cases h with
  | take x v q hx hq =>
    rcases eq_or_ne g x with rfl | hg
    · exact .inr (.inl ⟨hx, .inr ⟨v, Function.update_self _ _ _⟩⟩)
    · exact .inl (Function.update_of_ne hg _ _)
  | refuse x hx hq hc =>
    rcases eq_or_ne g x with rfl | hg
    · exact .inr (.inl ⟨hx, .inl (Function.update_self _ _ _)⟩)
    · exact .inl (Function.update_of_ne hg _ _)
  | put p v hp =>
    rcases eq_or_ne g p with rfl | hg
    · exact .inr (.inr (.inl ⟨⟨v, hp⟩, Function.update_self _ _ _⟩))
    · exact .inl (Function.update_of_ne hg _ _)
  | close p ws hp hws hq =>
    by_cases hg : g ∈ ws
    · exact .inr (.inl ⟨hws g hg, .inl (if_pos hg)⟩)
    · simp only [Lane.close, if_neg hg]
      rcases eq_or_ne g p with rfl | hgp
      · exact .inr (.inr (.inr ⟨hp, Function.update_self _ _ _⟩))
      · exact .inl (Function.update_of_ne hgp _ _)

/-- A lane is not opened again. -/
lemma Deed.closed (h : l.Deed m) (hl : l.closed = true) : m.closed = true := by
  cases h with
  | close => rfl
  | _ => exact hl

/-- A deed leaves no call asking, putting or closing that was not so before. -/
lemma deal_before {T : ι → Type*} [DecidableEq ι] {l : ∀ c, Lane (T c)} {c : ι} {m : Lane (T c)}
    {d : ι} {g : ℕ} {x : Deal (T d)} (hm : (l c).Deed m) (h : (Function.update l c m d).deal g = x)
    (hx : x ≠ .done ∧ x ≠ .refused ∧ ∀ v, x ≠ .got v) : (l d).deal g = x := by
  rcases eq_or_ne d c with rfl | hd
  · rw [Function.update_self] at h
    rcases hm.next g with he | ⟨-, he | ⟨v, he⟩⟩ | ⟨-, he⟩ | ⟨-, he⟩
    · exact he ▸ h
    · exact absurd (h.symm.trans he) hx.2.1
    · exact absurd (h.symm.trans he) (hx.2.2 v)
    · exact absurd (h.symm.trans he) hx.1
    · exact absurd (h.symm.trans he) hx.1
  · rwa [Function.update_of_ne hd] at h

end Lane

namespace Data

/-- A step inside a call sets no events and makes no call. -/
lemma steady_of_internal {s : Channel T} {b : Channel.Action T} (hb : internal b = true) :
    s.Steady b := by
  cases b <;> trivial

end Data

lemma Channel.Still.step_internal {s x : Channel T} (h : s.Still) {b : Channel.Action T}
    (hb : Data.internal b = true) (hx : Channel.step s b = some x) : x.Still :=
  Channel.inductive_still.step s b x h (Data.steady_of_internal hb) hx

lemma Channel.Still.deeds_of_internal {s x : Channel T} (h : s.Still) {b : Channel.Action T}
    (hb : Data.internal b = true) (hx : Channel.step s b = some x) :
    Relation.ReflTransGen (s.Does b) s.lane x.lane := by
  refine h.deeds_of_step (Data.steady_of_internal hb) (fun g r he => ?_) hx
  rw [he] at hb
  cases hb

namespace Data

/-- The call a worker is in, with its channel. -/
def Stage.uses (st : Stage ι Ω T) : Pc T → Option (ι × ℕ)
  | .getting g   => some (st.src, g)
  | .putting p _ => st.dst.map (·, p)
  | .closing p   => st.dst.map (·, p)
  | _            => none

/-- Where this call stands. -/
def Stage.deal (st : Stage ι Ω T) (l : ι → Lane T) (pc : Pc T) : Option (Deal T) :=
  (st.uses pc).map fun x => (l x.1).deal x.2

namespace Pc

/-- What a worker is at, from its program counter and the deal of its call. -/
def phase : Pc T → Option (Deal T) → Phase T
  | .unborn,         _               => .unborn
  | .looping rest,   _               => .looping rest
  | .getting _,      some (.got v)   => .holding v
  | .getting _,      some .refused   => .ended
  | .getting _,      _               => .looping []
  | .putting _ rest, some (.put v)   => .looping (v :: rest)
  | .putting _ rest, _               => .looping rest
  | .leaving,        _               => .ended
  | .closing _,      some .closing   => .ended
  | .closing _,      _               => .done
  | .done,           _               => .done

/-- The deals a worker can meet. -/
def Fits : Pc T → Option (Deal T) → Prop
  | .getting _,   x => x = some .asking ∨ x = some .refused ∨ ∃ v, x = some (.got v)
  | .putting _ _, x => x = some .done ∨ ∃ v, x = some (.put v)
  | .closing _,   x => x = some .done ∨ x = some .closing
  | _,            _ => True

end Pc

/-- The lanes and workers of a state of the pipelines, seen as a flow. -/
def flowOf (stage : κ → Stage ι Ω T) (l : ι → Lane T) (pc : κ × ℕ → Pc T) (o : Outside)
    (runs : List (Run κ T)) : Flow ι κ T where
  gots c   := (l c).gots
  queue c  := (l c).queue
  closed c := (l c).closed
  phase w  := (pc w).phase ((stage w.1).deal l (pc w))
  feeding  := decide (o = .feeding)
  runs     := runs

structure Ties (stage : κ → Stage ι Ω T) (c₀ : ι) (t : Terms ι κ T) (l : ι → Lane T)
    (pc : κ × ℕ → Pc T) (o : Outside) : Prop where
  one : ∀ w w' x, (stage w.1).uses (pc w) = some x → (stage w'.1).uses (pc w') = some x → w = w'
  fits : ∀ w, (pc w).Fits ((stage w.1).deal l (pc w))
  asker : ∀ c g, (l c).deal g = .asking → ∃ w, (stage w.1).src = c ∧ pc w = .getting g
  putter : ∀ c p v, (l c).deal p = .put v →
    (∃ w rest, (stage w.1).dst = some c ∧ pc w = .putting p rest) ∨ (o = .feeding ∧ t.feeds c)
  closer : ∀ c p, (l c).deal p = .closing →
    (∃ w, (stage w.1).dst = some c ∧ pc w = .closing p) ∨ (o = .shutting p ∧ c = c₀)

namespace Ties

variable {stage : κ → Stage ι Ω T} {c₀ : ι} {t : Terms ι κ T} {l : ι → Lane T}
  {pc : κ × ℕ → Pc T} {o : Outside} {runs : List (Run κ T)} {c : ι} {m : Lane T}

section

variable [DecidableEq ι]

/-- A lane is not seen by a worker whose call on it is left as it is. -/
lemma deal_update {st : Stage ι Ω T} {x : Pc T}
    (h : ∀ g, st.uses x = some (c, g) → m.deal g = (l c).deal g) :
    st.deal (Function.update l c m) x = st.deal l x := by
  unfold Stage.deal
  cases hu : st.uses x with
  | none => rfl
  | some y =>
    obtain ⟨d, g⟩ := y
    rcases eq_or_ne d c with rfl | hd
    · simp [h g hu]
    · simp [hd]

omit [DecidableEq ι] in
lemma deal_of_uses {st : Stage ι Ω T} {x : Pc T} {g : ℕ} (h : st.uses x = some (c, g)) :
    st.deal l x = some ((l c).deal g) := by
  simp [Stage.deal, h]

lemma fits_deed (h : Ties stage c₀ t l pc o) (hm : (l c).Deed m) (w : κ × ℕ) :
    (pc w).Fits ((stage w.1).deal (Function.update l c m) (pc w)) := by
  have hw := h.fits w
  by_cases hu : ∃ g, (stage w.1).uses (pc w) = some (c, g)
  · obtain ⟨g, hu⟩ := hu
    rw [deal_of_uses hu] at hw ⊢
    rw [Function.update_self]
    rcases hm.next g with he | ⟨hb, he⟩ | ⟨⟨v, hb⟩, he⟩ | ⟨hb, he⟩
    · rwa [he]
    · rcases he with he | ⟨v, he⟩ <;> cases hp : pc w <;> simp_all [Pc.Fits]
    · cases hp : pc w <;> simp_all [Pc.Fits]
    · cases hp : pc w <;> simp_all [Pc.Fits]
  · rw [deal_update fun g hg => absurd ⟨g, hg⟩ hu]
    exact hw

lemma deed (h : Ties stage c₀ t l pc o) (hm : (l c).Deed m) :
    Ties stage c₀ t (Function.update l c m) pc o where
  one    := h.one
  fits   := h.fits_deed hm
  asker d g hg    := h.asker d g (Lane.deal_before hm hg (by simp))
  putter d p v hp := h.putter d p v (Lane.deal_before hm hp (by simp))
  closer d p hp   := h.closer d p (Lane.deal_before hm hp (by simp))

/-! ### Deeds as moves -/

variable [DecidableEq κ]

omit [DecidableEq ι] [DecidableEq κ] in
lemma phase_of_uses {w : κ × ℕ} {g : ℕ} (h : (stage w.1).uses (pc w) = some (c, g)) :
    (flowOf stage l pc o runs).phase w = (pc w).phase (some ((l c).deal g)) := by
  simp only [flowOf, deal_of_uses h]

omit [DecidableEq κ] in
/-- Workers whose calls are left as they are keep their phases. -/
lemma phase_update {w : κ × ℕ}
    (h : ∀ g, (stage w.1).uses (pc w) = some (c, g) → m.deal g = (l c).deal g) :
    (flowOf stage (Function.update l c m) pc o runs).phase w =
      (flowOf stage l pc o runs).phase w := by
  simp only [flowOf, deal_update h]

omit [DecidableEq κ] in
lemma phase_update_of_uses {w : κ × ℕ} {g : ℕ} (h : (stage w.1).uses (pc w) = some (c, g)) :
    (flowOf stage (Function.update l c m) pc o runs).phase w =
      (pc w).phase (some (m.deal g)) := by
  rw [phase_of_uses h, Function.update_self]

omit [DecidableEq κ] in
lemma gots_update : (flowOf stage (Function.update l c m) pc o runs).gots =
    Function.update (flowOf stage l pc o runs).gots c m.gots :=
  funext fun d => Function.apply_update (fun _ => Lane.gots) l c m d

omit [DecidableEq κ] in
lemma queue_update : (flowOf stage (Function.update l c m) pc o runs).queue =
    Function.update (flowOf stage l pc o runs).queue c m.queue :=
  funext fun d => Function.apply_update (fun _ => Lane.queue) l c m d

omit [DecidableEq κ] in
lemma closed_update : (flowOf stage (Function.update l c m) pc o runs).closed =
    Function.update (flowOf stage l pc o runs).closed c m.closed :=
  funext fun d => Function.apply_update (fun _ => Lane.closed) l c m d

omit [DecidableEq κ] in
lemma gots_same (h : m.gots = (l c).gots) :
    (flowOf stage (Function.update l c m) pc o runs).gots = (flowOf stage l pc o runs).gots := by
  rw [gots_update, h]
  exact Function.update_eq_self _ _

omit [DecidableEq κ] in
lemma queue_same (h : m.queue = (l c).queue) :
    (flowOf stage (Function.update l c m) pc o runs).queue = (flowOf stage l pc o runs).queue := by
  rw [queue_update, h]
  exact Function.update_eq_self _ _

omit [DecidableEq κ] in
lemma closed_same (h : m.closed = (l c).closed) :
    (flowOf stage (Function.update l c m) pc o runs).closed =
      (flowOf stage l pc o runs).closed := by
  rw [closed_update, h]
  exact Function.update_eq_self _ _

omit [DecidableEq κ] in
/-- Only the worker in the call `g` sees a deed that changes the deal of `g` alone. -/
lemma phase_other (h : Ties stage c₀ t l pc o) {w w' : κ × ℕ} {g : ℕ}
    (hu : (stage w.1).uses (pc w) = some (c, g)) (hw : w' ≠ w)
    (hm : ∀ x, x ≠ g → m.deal x = (l c).deal x) :
    (flowOf stage (Function.update l c m) pc o runs).phase w' =
      (flowOf stage l pc o runs).phase w' := by
  refine phase_update fun x hx => hm x ?_
  rintro rfl
  exact hw (h.one _ _ _ hx hu)

lemma move_take (h : Ties stage c₀ t l pc o) {g : ℕ} {v : T} {q : List T}
    (hg : (l c).deal g = .asking) (hq : (l c).queue = v :: q) :
    (flowOf stage l pc o runs).Move stage c₀ t
      (flowOf stage (Function.update l c ((l c).take g v q)) pc o runs) := by
  obtain ⟨w, rfl, hw⟩ := h.asker c g hg
  have hu : (stage w.1).uses (pc w) = some ((stage w.1).src, g) := by rw [hw]; rfl
  have hphase : (flowOf stage l pc o runs).phase w = .looping [] := by
    rw [phase_of_uses hu, hg, hw]
    rfl
  have hself : ((l (stage w.1).src).take g v q).deal g = .got v := Function.update_self _ _ _
  have hmove : (flowOf stage l pc o runs).Move stage c₀ t _ := .receive w v q hphase hq
  convert hmove using 1
  refine Flow.ext gots_update queue_update (closed_same rfl) (funext fun w' => ?_) rfl rfl
  rw [Flow.phase_setPhase]
  split_ifs with hw'
  · subst hw'
    rw [phase_update_of_uses hu, hself, hw]
    rfl
  · exact h.phase_other hu hw' fun x hx => Function.update_of_ne hx _ _

lemma move_refuse (h : Ties stage c₀ t l pc o) {g : ℕ} (hg : (l c).deal g = .asking)
    (hq : (l c).queue = []) (hc : (l c).closed = true) :
    (flowOf stage l pc o runs).Move stage c₀ t
      (flowOf stage (Function.update l c ((l c).refuse g)) pc o runs) := by
  obtain ⟨w, rfl, hw⟩ := h.asker c g hg
  have hu : (stage w.1).uses (pc w) = some ((stage w.1).src, g) := by rw [hw]; rfl
  have hphase : (flowOf stage l pc o runs).phase w = .looping [] := by
    rw [phase_of_uses hu, hg, hw]
    rfl
  have hself : ((l (stage w.1).src).refuse g).deal g = .refused := Function.update_self _ _ _
  have hmove : (flowOf stage l pc o runs).Move stage c₀ t _ := .refuse w hphase hq hc
  convert hmove using 1
  refine Flow.ext (gots_same rfl) (queue_same rfl) (closed_same rfl) (funext fun w' => ?_) rfl rfl
  rw [Flow.phase_setPhase]
  split_ifs with hw'
  · subst hw'
    rw [phase_update_of_uses hu, hself, hw]
    rfl
  · exact h.phase_other hu hw' fun x hx => Function.update_of_ne hx _ _

omit [DecidableEq ι] [DecidableEq κ] in
/-- A worker in a call of `put` that has not had its section is putting. -/
lemma putting_of_uses (h : Ties stage c₀ t l pc o) {w : κ × ℕ} {p : ℕ} {v : T}
    (hu : (stage w.1).uses (pc w) = some (c, p)) (hp : (l c).deal p = .put v) :
    ∃ rest, (stage w.1).dst = some c ∧ pc w = .putting p rest := by
  have hfit := h.fits w
  rw [deal_of_uses hu, hp] at hfit
  cases hw : pc w <;> simp_all [Pc.Fits, Stage.uses]

omit [DecidableEq ι] [DecidableEq κ] in
lemma getting_of_uses (h : Ties stage c₀ t l pc o) {w : κ × ℕ} {g : ℕ}
    (hu : (stage w.1).uses (pc w) = some (c, g)) (hg : (l c).deal g = .asking) :
    (stage w.1).src = c ∧ pc w = .getting g := by
  have hfit := h.fits w
  rw [deal_of_uses hu, hg] at hfit
  cases hw : pc w <;> simp_all [Pc.Fits, Stage.uses]

omit [DecidableEq ι] [DecidableEq κ] in
lemma closing_of_uses (h : Ties stage c₀ t l pc o) {w : κ × ℕ} {p : ℕ}
    (hu : (stage w.1).uses (pc w) = some (c, p)) (hp : (l c).deal p = .closing) :
    (stage w.1).dst = some c ∧ pc w = .closing p := by
  have hfit := h.fits w
  rw [deal_of_uses hu, hp] at hfit
  cases hw : pc w <;> simp_all [Pc.Fits, Stage.uses]

lemma move_put (h : Ties stage c₀ t l pc o) {p : ℕ} {v : T} (hp : (l c).deal p = .put v) :
    (flowOf stage l pc o runs).Move stage c₀ t
      (flowOf stage (Function.update l c ((l c).put p v)) pc o runs) := by
  have hself : ((l c).put p v).deal p = .done := Function.update_self _ _ _
  by_cases howned : ∃ w rest, (stage w.1).dst = some c ∧ pc w = .putting p rest
  · obtain ⟨w, rest, hd, hw⟩ := howned
    have hu : (stage w.1).uses (pc w) = some (c, p) := by simp [Stage.uses, hw, hd]
    have hphase : (flowOf stage l pc o runs).phase w = .looping (v :: rest) := by
      rw [phase_of_uses hu, hp, hw]
      rfl
    have hmove : (flowOf stage l pc o runs).Move stage c₀ t _ := .emit w c v rest hphase hd
    convert hmove using 1
    refine Flow.ext (gots_same rfl) queue_update (closed_same rfl) (funext fun w' => ?_) rfl rfl
    rw [Flow.phase_setPhase]
    split_ifs with hw'
    · subst hw'
      rw [phase_update_of_uses hu, hself, hw]
      rfl
    · exact h.phase_other hu hw' fun x hx => Function.update_of_ne hx _ _
  · -- a put of the producers
    obtain ⟨rfl, ht⟩ := (h.putter c p v hp).resolve_left howned
    have hmove : (flowOf stage l pc .feeding runs).Move stage c₀ t _ := .feed c v rfl ht
    convert hmove using 1
    refine Flow.ext (gots_same rfl) queue_update (closed_same rfl) (funext fun w' => ?_) rfl rfl
    refine phase_update fun x hx => Function.update_of_ne ?_ _ _
    rintro rfl
    obtain ⟨rest, hw'⟩ := h.putting_of_uses hx hp
    exact howned ⟨w', rest, hw'⟩

/-- The workers in the calls `ws`. -/
def Among (stage : κ → Stage ι Ω T) (pc : κ × ℕ → Pc T) (c : ι) (ws : List ℕ) (w : κ × ℕ) : Prop :=
  ∃ g ∈ ws, (stage w.1).uses (pc w) = some (c, g)

omit [DecidableEq ι] [DecidableEq κ] in
lemma released (h : Ties stage c₀ t l pc o) {ws : List ℕ}
    (hws : ∀ w ∈ ws, (l c).deal w = .asking) (hq : ws ≠ [] → (l c).queue = []) :
    (flowOf stage l pc o runs).Released stage c (Among stage pc c ws) where
  looping := by
    rintro w ⟨g, hg, hu⟩
    rw [phase_of_uses hu, hws g hg, (h.getting_of_uses hu (hws g hg)).2]
    rfl
  src := by
    rintro w ⟨g, hg, hu⟩
    exact (h.getting_of_uses hu (hws g hg)).1
  queue := by
    rintro w ⟨g, hg, hu⟩
    exact hq (List.ne_nil_of_mem hg)

omit [DecidableEq κ] in
/-- A `close` changes the phases of the workers it refuses, and of the worker that calls it. -/
lemma phase_close (h : Ties stage c₀ t l pc o) {p : ℕ} {ws : List ℕ} {w : κ × ℕ}
    (hws : ∀ w ∈ ws, (l c).deal w = .asking) (hw : (stage w.1).uses (pc w) ≠ some (c, p)) :
    (flowOf stage (Function.update l c ((l c).close p ws)) pc o runs).phase w =
      ((flowOf stage l pc o runs).close c (Among stage pc c ws)).phase w := by
  simp only [Flow.close]
  split_ifs with hE
  · obtain ⟨g, hg, hu⟩ := hE
    have hg' : ((l c).close p ws).deal g = .refused := if_pos hg
    rw [phase_update_of_uses hu, hg', (h.getting_of_uses hu (hws g hg)).2]
    rfl
  · refine phase_update fun x hx => ?_
    have hxw : x ∉ ws := fun hm => hE ⟨x, hm, hx⟩
    have hxp : x ≠ p := by
      rintro rfl
      exact hw hx
    simp [Lane.close, hxw, hxp]

lemma move_close (h : Ties stage c₀ t l pc o) {p : ℕ} {ws : List ℕ}
    (hp : (l c).deal p = .closing) (hws : ∀ w ∈ ws, (l c).deal w = .asking)
    (hq : ws ≠ [] → (l c).queue = [])
    (ht : (l c).closed = false → ∀ w, (stage w.1).dst = some c → pc w = .closing p →
      t.closes (flowOf stage l pc o runs) w) :
    (flowOf stage l pc o runs).Move stage c₀ t
      (flowOf stage (Function.update l c ((l c).close p ws)) pc o runs) := by
  have hpws : p ∉ ws := fun hm => by cases hp.symm.trans (hws p hm)
  have hself : ((l c).close p ws).deal p = .done := by simp [Lane.close, hpws]
  by_cases howned : ∃ w, (stage w.1).dst = some c ∧ pc w = .closing p
  · obtain ⟨w, hd, hw⟩ := howned
    have hu : (stage w.1).uses (pc w) = some (c, p) := by simp [Stage.uses, hw, hd]
    have hphase : (flowOf stage l pc o runs).phase w = .ended := by
      rw [phase_of_uses hu, hp, hw]
      rfl
    have hmove : (flowOf stage l pc o runs).Move stage c₀ t _ :=
      .close w c _ hphase hd (h.released hws hq) fun hc => ht hc w hd hw
    convert hmove using 1
    refine Flow.ext (gots_same rfl) (queue_same rfl) closed_update (funext fun w' => ?_) rfl rfl
    rw [Flow.phase_setPhase]
    split_ifs with hw'
    · subst hw'
      rw [phase_update_of_uses hu, hself, hw]
      rfl
    · exact h.phase_close hws fun hu' => hw' (h.one _ _ _ hu' hu)
  · -- the call of the outside
    obtain ⟨rfl, rfl⟩ := (h.closer c p hp).resolve_left howned
    have hmove : (flowOf stage l pc (.shutting p) runs).Move stage c t _ :=
      .shut _ rfl (h.released hws hq)
    convert hmove using 1
    refine Flow.ext (gots_same rfl) (queue_same rfl) closed_update (funext fun w' => ?_) rfl rfl
    exact h.phase_close hws fun hu' => howned ⟨w', h.closing_of_uses hu' hp⟩

/-- A deed on a lane is a move of the flow. -/
theorem move_of_deed (h : Ties stage c₀ t l pc o) (hm : (l c).Deed m)
    (ht : m.closed ≠ (l c).closed → ∀ p, (l c).deal p = .closing → m.deal p ≠ .closing →
      ∀ w, (stage w.1).dst = some c → pc w = .closing p →
        t.closes (flowOf stage l pc o runs) w) :
    (flowOf stage l pc o runs).Move stage c₀ t
      (flowOf stage (Function.update l c m) pc o runs) := by
  cases hm with
  | take g v q hg hq => exact h.move_take hg hq
  | refuse g hg hq hc => exact h.move_refuse hg hq hc
  | put p v hp => exact h.move_put hp
  | close p ws hp hws hq =>
    refine h.move_close hp hws hq fun hc => ht ?_ p hp ?_
    · rw [hc]
      exact Bool.noConfusion
    · have hpws : p ∉ ws := fun hm => by cases hp.symm.trans (hws p hm)
      simp [Lane.close, hpws]

end

end Ties

end Data

end Synca
