import Synca.Data.Seats

/-!
# Networks on channels refine networks of queues

Each step of the workers on channels is seen as steps of the network, none or a few, and the thread
outside as what is fed and closed from outside. A condition on what comes from outside is met by the
network if it is met where the thread outside has the sections of its calls.
-/

namespace Synca

namespace Data

open Transition

variable {ι κ Ω : Type*} {T : ι → Type*} {σ : κ → Type*} {node : ∀ k, Node T Ω (σ k)}

namespace Fabric

noncomputable def lanes (s : Fabric node) (c : ι) : Lane (T c) := (s.chan c).lane

structure Sound (s : Fabric node) : Prop where
  still : ∀ c, (s.chan c).Still
  seated : Seated node s.lanes s.post

/-- In no call. -/
def Free : Place T → Prop
  | .looping _ | .leaving _ | .gone => True
  | _ => False

variable {l l' : ∀ c, Lane (T c)} {post : Option κ → Place T} {o : Option κ} {y : Place T} {c : ι}
  {g : ℕ} {x : Deal (T c)}

lemma uses_of_free (h : Free y) (o : Option κ) : uses node o y = none := by
  cases y <;> first | rfl | cases h

lemma fits_of_free (h : Free y) (l : ∀ c, Lane (T c)) (o : Option κ) : Fits node l o y := by
  cases y <;> trivial

namespace Seated

/-- No one is in a call that is not made. -/
lemma uses_ne (h : Seated node l post) (hg : (l c).deal g = .idle) (o : Option κ) :
    uses node o (post o) ≠ some (c, g) := by
  intro hu
  have hf := h.fits o
  cases hp : post o with
  | getting q =>
    rw [hp] at hu hf
    obtain ⟨k, rfl, hk⟩ := hf
    obtain ⟨rfl, rfl⟩ := Prod.mk.inj (Option.some_injective _ hu)
    simp [hg] at hk
  | putting v p rest =>
    rw [hp] at hu hf
    obtain ⟨rfl, rfl⟩ := Prod.mk.inj (Option.some_injective _ hu)
    simp [Fits, hg] at hf
  | closing d p cs =>
    rw [hp] at hu hf
    obtain ⟨rfl, rfl⟩ := Prod.mk.inj (Option.some_injective _ hu)
    simp [Fits, hg] at hf
  | _ => simp [hp, uses] at hu

variable [DecidableEq κ]

/-- One takes another place, and only its calls change. -/
lemma set (h : Seated node l post)
    (hone : ∀ o' z, uses node o y = some z → uses node o' (post o') = some z → o' = o)
    (hfit : Fits node l' o y) (hfits : ∀ o', o' ≠ o → Fits node l' o' (post o'))
    (hasks : ∀ c g, (l' c).deal g = .asking →
      (∃ k, o = some k ∧ (node k).src = c ∧ y = .getting g) ∨
      (l c).deal g = .asking ∧ uses node o (post o) ≠ some (c, g))
    (hputs : ∀ c p v, (l' c).deal p = .put v → (∃ rest, y = .putting ⟨c, v⟩ p rest) ∨
      (l c).deal p = .put v ∧ uses node o (post o) ≠ some (c, p))
    (hcloses : ∀ c p, (l' c).deal p = .closing → (∃ cs, y = .closing c p cs) ∨
      (l c).deal p = .closing ∧ uses node o (post o) ≠ some (c, p)) :
    Seated node l' (Function.update post o y) := by
  constructor
  · intro o₁ o₂ z h₁ h₂
    rcases eq_or_ne o₁ o with rfl | hn₁ <;> rcases eq_or_ne o₂ o₁ with rfl | hn₂
    · rfl
    · rw [Function.update_self] at h₁
      rw [Function.update_of_ne hn₂] at h₂
      exact absurd (hone o₂ z h₁ h₂) hn₂
    · rfl
    · rw [Function.update_of_ne hn₁] at h₁
      rcases eq_or_ne o₂ o with rfl | hn
      · rw [Function.update_self] at h₂
        exact absurd (hone o₁ z h₂ h₁) hn₁
      · rw [Function.update_of_ne hn] at h₂
        exact h.one _ _ _ h₁ h₂
  · intro o'
    rcases eq_or_ne o' o with rfl | hn
    · rwa [Function.update_self]
    · rw [Function.update_of_ne hn]
      exact hfits o' hn
  · intro c g hg
    rcases hasks c g hg with ⟨k, rfl, hk, rfl⟩ | ⟨hold, hu⟩
    · exact ⟨k, hk, Function.update_self _ _ _⟩
    · obtain ⟨k, hk, hpost⟩ := h.asker c g hold
      refine ⟨k, hk, (Function.update_of_ne ?_ _ _).trans hpost⟩
      rintro rfl
      exact hu (by rw [hpost, ← hk]; rfl)
  · intro c p v hp
    rcases hputs c p v hp with ⟨rest, rfl⟩ | ⟨hold, hu⟩
    · exact ⟨o, rest, Function.update_self _ _ _⟩
    · obtain ⟨o', rest, hpost⟩ := h.putter c p v hold
      refine ⟨o', rest, (Function.update_of_ne ?_ _ _).trans hpost⟩
      rintro rfl
      exact hu (by rw [hpost]; rfl)
  · intro c p hp
    rcases hcloses c p hp with ⟨cs, rfl⟩ | ⟨hold, hu⟩
    · exact ⟨o, cs, Function.update_self _ _ _⟩
    · obtain ⟨o', cs, hpost⟩ := h.closer c p hold
      refine ⟨o', cs, (Function.update_of_ne ?_ _ _).trans hpost⟩
      rintro rfl
      exact hu (by rw [hpost]; rfl)

/-- One leaves a call that is decided, or has had its section. -/
lemma leave (h : Seated node l post) (hy : Free y)
    (hset : ∀ c g, uses node o (post o) = some (c, g) →
      (l c).deal g ≠ .asking ∧ (l c).deal g ≠ .closing ∧ ∀ v, (l c).deal g ≠ .put v) :
    Seated node l (Function.update post o y) := by
  refine h.set (fun o' z hz => ?_) (fits_of_free hy l o) (fun o' _ => h.fits o')
    (fun c g hg => .inr ⟨hg, fun hu => (hset c g hu).1 hg⟩)
    (fun c p v hp => .inr ⟨hp, fun hu => (hset c p hu).2.2 v hp⟩)
    fun c p hp => .inr ⟨hp, fun hu => (hset c p hu).2.1 hp⟩
  rw [uses_of_free hy] at hz
  cases hz

variable [DecidableEq ι]

/-- One makes a call. -/
lemma call (h : Seated node l post) (hg : (l c).deal g = .idle) (hpost : Free (post o))
    (hy : uses node o y = some (c, g))
    (hfit : Fits node (Function.update l c ((l c).make g x)) o y)
    (hasks : x = .asking → ∃ k, o = some k ∧ (node k).src = c ∧ y = .getting g)
    (hputs : ∀ v, x = .put v → ∃ rest, y = .putting ⟨c, v⟩ g rest)
    (hcloses : x = .closing → ∃ cs, y = .closing c g cs) :
    Seated node (Function.update l c ((l c).make g x)) (Function.update post o y) := by
  have hmake : ∀ q, q ≠ g → ((l c).make g x).deal q = (l c).deal q :=
    fun q hq => Function.update_of_ne hq _ _
  have hself : ((l c).make g x).deal g = x := Function.update_self _ _ _
  have hnone : ∀ z, uses node o (post o) ≠ some z := by simp [uses_of_free hpost]
  refine h.set (fun o' z hz hz' => ?_) hfit (fun o' ho' => ?_) (fun d q hq => ?_)
    (fun d q v hq => ?_) fun d q hq => ?_
  · obtain rfl := Option.some_injective _ (hy.symm.trans hz)
    exact absurd hz' (h.uses_ne hg o')
  · exact (h.fits o').update fun q hq => hmake q fun hqg => h.uses_ne hg o' (hqg ▸ hq)
  · rcases eq_or_ne d c with rfl | hd
    · rw [Function.update_self] at hq
      rcases eq_or_ne q g with rfl | hqg
      · exact .inl (hasks (hself.symm.trans hq))
      · exact .inr ⟨(hmake q hqg).symm.trans hq, hnone _⟩
    · rw [Function.update_of_ne hd] at hq
      exact .inr ⟨hq, hnone _⟩
  · rcases eq_or_ne d c with rfl | hd
    · rw [Function.update_self] at hq
      rcases eq_or_ne q g with rfl | hqg
      · exact .inl (hputs v (hself.symm.trans hq))
      · exact .inr ⟨(hmake q hqg).symm.trans hq, hnone _⟩
    · rw [Function.update_of_ne hd] at hq
      exact .inr ⟨hq, hnone _⟩
  · rcases eq_or_ne d c with rfl | hd
    · rw [Function.update_self] at hq
      rcases eq_or_ne q g with rfl | hqg
      · exact .inl (hcloses (hself.symm.trans hq))
      · exact .inr ⟨(hmake q hqg).symm.trans hq, hnone _⟩
    · rw [Function.update_of_ne hd] at hq
      exact .inr ⟨hq, hnone _⟩

end Seated

variable {s s' : Fabric node} {d : Dataflow node} {a : Action κ Ω T} {journey : κ → ℕ} {k : κ}

namespace Sound

lemma idle (hg : (s.chan c).call g = .idle) : (s.lanes c).deal g = .idle :=
  Channel.deal_of_idle hg

lemma deal_got (h : s.Sound) {v : T c} (hg : (s.chan c).call g = .returned true)
    (hv : (s.chan c).dest g = some v) : (s.lanes c).deal g = .got v :=
  (h.still c).deal_of_returned hg hv

lemma deal_refused (h : s.Sound) (hg : (s.chan c).call g = .returned false) :
    (s.lanes c).deal g = .refused :=
  (h.still c).deal_of_returned_false hg

lemma deal_done (hp : (s.chan c).call g = .done) : (s.lanes c).deal g = .done :=
  Channel.deal_of_done hp

lemma init (m₀ : ∀ k, σ k) : ({ mem := m₀ } : Fabric node).Sound where
  still c := Channel.inductive_still.init _ rfl
  seated :=
    have hidle : ∀ c g, (({ mem := m₀ } : Fabric node).lanes c).deal g = .idle :=
      fun c g => idle rfl
    { one    := fun _ _ _ hu => by cases hu
      fits   := fun _ => trivial
      asker  := fun c g hg => by cases (hidle c g).symm.trans hg
      putter := fun c p v hp => by cases (hidle c p).symm.trans hp
      closer := fun c p hp => by cases (hidle c p).symm.trans hp }

/-- One that is in no call takes another place in none. -/
lemma free [DecidableEq κ] (h : s.Sound) (ho : Free (s.post o)) (hy : Free y) :
    Seated node s.lanes (Function.update s.post o y) := by
  refine h.seated.leave hy fun c g hu => ?_
  rw [uses_of_free ho] at hu
  cases hu

/-- One leaves a call of which this is the deal. -/
lemma leave [DecidableEq κ] (h : s.Sound) (hy : Free y) (hu : uses node o (s.post o) = some (c, g))
    (hx : (s.lanes c).deal g = x) (hne : x ≠ .asking ∧ x ≠ .closing ∧ ∀ v, x ≠ .put v) :
    Seated node s.lanes (Function.update s.post o y) := by
  refine h.seated.leave hy fun e q hu' => ?_
  obtain ⟨rfl, rfl⟩ := Prod.mk.inj (Option.some_injective _ (hu'.symm.trans hu))
  rwa [hx]

end Sound

section

variable [DecidableEq ι]

lemma lanes_setChan (s : Fabric node) (c : ι) (x : Channel (T c)) :
    (s.setChan c x).lanes = Function.update s.lanes c x.lane :=
  Channel.lane_update s.chan c x

lemma lanes_make (s : Fabric node) (c : ι) (g : ℕ) (r : Request (T c)) :
    (s.setChan c ((s.chan c).make g r)).lanes =
      Function.update s.lanes c ((s.lanes c).make g r.deal) := by
  rw [lanes_setChan, Channel.lane_make]
  rfl

lemma Sound.seated_deeds (h : s.Sound) {b : Channel.Action (T c)} {m : Lane (T c)}
    (hm : Relation.ReflTransGen ((s.chan c).Does b) (s.lanes c) m) :
    Seated node (Function.update s.lanes c m) s.post := by
  induction hm with
  | refl =>
    rw [Function.update_eq_self]
    exact h.seated
  | @tail m m' _ hd ih =>
    have hdeed := hd.1
    rw [← Function.update_self c m s.lanes] at hdeed
    have := ih.deed hdeed
    rwa [Function.update_idem] at this

/-- The state is shown by a state of the network. -/
abbrev Shown (s : Fabric node) (d : Dataflow node) : Prop := s.Shows s.lanes d

/-- The section of a call of the thread outside meets the condition on the network. -/
def Meets (C : Dataflow node → Dataflow.Action κ Ω T → Prop) (s : Fabric node)
    (d : Dataflow node) : Action κ Ω T → Prop
  | .channel c (.lock p) =>
    (∀ v rest, s.post none = .putting ⟨c, v⟩ p rest → (s.chan c).call p = .put v →
      C d (.feed ⟨c, v⟩)) ∧
    ∀ cs, s.post none = .closing c p cs → (s.chan c).call p = .closing → C d (.shut c)
  | _ => True

lemma shown_init (m₀ : ∀ k, σ k) : ({ mem := m₀ } : Fabric node).Shown { mem := m₀ } :=
  ⟨fun _ => rfl, fun _ => rfl, fun _ => rfl, fun _ => rfl, rfl, rfl, rfl⟩

/-- What is seen of the channels stays, and of the workers and the thread outside. -/
lemma Shows.congr (h : s.Shows l d) (hqueue : ∀ c, (l' c).queue = (l c).queue)
    (hclosed : ∀ c, (l' c).closed = (l c).closed) (hgots : ∀ c, (l' c).gots = (l c).gots)
    (hview : ∀ k, view node l' k (s'.post (some k)) = view node l k (s.post (some k)))
    (howed : owed l' (s'.post none) = owed l (s.post none)) (hmem : s'.mem = s.mem)
    (hruns : s'.runs = s.runs) (hfeeds : s'.feeds = s.feeds) : s'.Shows l' d where
  queue c  := (h.queue c).trans (hqueue c).symm
  closed c := (h.closed c).trans (hclosed c).symm
  puts c   := by rw [h.puts, hgots, hqueue]
  phase k  := (h.phase k).trans (hview k).symm
  mem      := h.mem.trans hmem.symm
  runs     := h.runs.trans hruns.symm
  feeds    := by rw [howed, hfeeds, h.feeds]

end

variable [DecidableEq ι] [DecidableEq κ]

namespace Sound

/-- One makes a call. -/
lemma call (h : s.Sound) {r : Request (T c)} (hg : (s.chan c).call g = .idle)
    (ho : Free (s.post o)) (hy : uses node o y = some (c, g))
    (hfit : Fits node (Function.update s.lanes c ((s.lanes c).make g r.deal)) o y)
    (hasks : r.deal = .asking → ∃ k, o = some k ∧ (node k).src = c ∧ y = .getting g)
    (hputs : ∀ v, r.deal = .put v → ∃ rest, y = .putting ⟨c, v⟩ g rest)
    (hcloses : r.deal = .closing → ∃ cs, y = .closing c g cs) :
    Seated node ((s.setChan c ((s.chan c).make g r)).setPost o y).lanes
      ((s.setChan c ((s.chan c).make g r)).setPost o y).post := by
  show Seated node (s.setChan c ((s.chan c).make g r)).lanes _
  rw [lanes_make]
  exact h.seated.call (idle hg) ho hy hfit hasks hputs hcloses

lemma step_still (h : s.Sound) (hs : Fabric.step journey s a = some s') (e : ι) :
    (s'.chan e).Still := by
  cases touch_of_step hs e with
  | same he => exact he ▸ h.still e
  | make g r hg hr he => exact he ▸ (h.still e).make hg hr
  | inside b ha hb hx => exact (h.still e).step_internal hb hx

lemma step_seated (h : s.Sound) (hs : Fabric.step journey s a = some s') :
    Seated node s'.lanes s'.post := by
  cases Rule.of_step hs with
  | get k g hk hg =>
    refine h.call hg (by rw [hk]; trivial) rfl ⟨k, rfl, .inl ?_⟩ (fun _ => ⟨k, rfl, rfl, rfl⟩)
      (by simp [Request.deal]) (by simp [Request.deal])
    rw [Function.update_self]
    exact Function.update_self _ _ _
  | apply k x g v hk hg hv =>
    exact h.leave trivial (by rw [hk]; rfl) (h.deal_got hg hv) (by simp)
  | leave k g hk hg => exact h.leave trivial (by rw [hk]; rfl) (h.deal_refused hg) (by simp)
  | put o p v rest ho hp =>
    refine h.call hp (by rw [ho]; trivial) rfl (.inl ?_) (by simp [Request.deal])
      (fun u hu => ⟨rest, ?_⟩) (by simp [Request.deal])
    · rw [Function.update_self]
      exact Function.update_self _ _ _
    · obtain rfl : v.2 = u := by simpa [Request.deal] using hu
      rfl
  | putDone o v p rest ho hp => exact h.leave trivial (by rw [ho]; rfl) (deal_done hp) (by simp)
  | close o p c cs ho hp =>
    refine h.call hp (by rw [ho]; trivial) rfl (.inl ?_) (by simp [Request.deal])
      (by simp [Request.deal]) fun _ => ⟨cs, rfl⟩
    rw [Function.update_self]
    exact Function.update_self _ _ _
  | closeDone o c p cs ho hp => exact h.leave trivial (by rw [ho]; rfl) (deal_done hp) (by simp)
  | quit k hk => exact h.free (by rw [hk]; trivial) trivial
  | feed v ho => exact h.free (by rw [ho]; trivial) trivial
  | shut c ho => exact h.free (by rw [ho]; trivial) trivial
  | channel c b x hb hx =>
    rw [lanes_setChan]
    exact h.seated_deeds ((h.still c).deeds_of_internal hb hx)

theorem step (h : s.Sound) (hs : Fabric.step journey s a = some s') : s'.Sound :=
  ⟨h.step_still hs, h.step_seated hs⟩

end Sound

/-! ### What is shown -/

/-- One takes another place and shows the same. -/
lemma Shows.setPost (h : s.Shows l d) (hview : ∀ k, o = some k →
      view node l k y = view node l k (s.post (some k)))
    (howed : o = none → owed l y = owed l (s.post none)) : (s.setPost o y).Shows l d := by
  refine h.congr (fun _ => rfl) (fun _ => rfl) (fun _ => rfl) (fun k => ?_) ?_ rfl rfl rfl
  · show view node l k (Function.update s.post o y (some k)) = _
    rcases eq_or_ne (some k) o with rfl | hk
    · rw [Function.update_self]
      exact hview k rfl
    · rw [Function.update_of_ne hk]
  · show owed l (Function.update s.post o y none) = _
    rcases eq_or_ne none o with rfl | ho
    · rw [Function.update_self]
      exact howed rfl
    · rw [Function.update_of_ne ho]

omit [DecidableEq κ] in
/-- The calls that are made are not seen. -/
lemma Sound.shows_make (h : s.Sound) (hd : s.Shown d) {r : Request (T c)}
    (hg : (s.chan c).call g = .idle) :
    (s.setChan c ((s.chan c).make g r)).Shown d := by
  have hne := fun o => h.seated.uses_ne (Sound.idle hg) o
  have hm : ∀ o q, uses node o (s.post o) = some (c, q) →
      ((s.lanes c).make g r.deal).deal q = (s.lanes c).deal q := by
    intro o q hq
    refine Function.update_of_ne ?_ _ _
    rintro rfl
    exact hne o hq
  rw [Shown, lanes_make]
  refine hd.congr (fun e => ?_) (fun e => ?_) (fun e => ?_) (fun k => view_update (hm _))
    (owed_update (hm _)) rfl rfl rfl
  all_goals
    rcases eq_or_ne e c with rfl | he
    · rw [Function.update_self]
      rfl
    · rw [Function.update_of_ne he]

/-- One makes a call, and shows the same. -/
lemma Sound.shows_call (h : s.Sound) (hd : s.Shown d) {r : Request (T c)}
    (hg : (s.chan c).call g = .idle)
    (hview : ∀ l : ∀ c, Lane (T c), (l c).deal g = r.deal → ∀ k, o = some k →
      view node l k y = view node l k (s.post (some k)))
    (howed : ∀ l : ∀ c, Lane (T c), (l c).deal g = r.deal → o = none →
      owed l y = owed l (s.post none)) :
    ((s.setChan c ((s.chan c).make g r)).setPost o y).Shown d := by
  have hself : ((s.setChan c ((s.chan c).make g r)).lanes c).deal g = r.deal := by
    rw [lanes_make, Function.update_self]
    exact Function.update_self _ _ _
  exact (h.shows_make hd hg).setPost (hview _ hself) (howed _ hself)

/-! ### Steps -/

variable {C : Dataflow node → Dataflow.Action κ Ω T → Prop} {m₀ : ∀ k, σ k}

/-- A worker goes on to where it is seen. -/
lemma Shows.setPhase (h : s.Shows l d) {x : Transition.Phase T (T (node k).src)}
    (hx : view node l k y = x) : (s.setPost (some k) y).Shows l (d.setPhase k x) where
  queue  := h.queue
  closed := h.closed
  puts   := h.puts
  mem    := h.mem
  runs   := h.runs
  feeds  := h.feeds
  phase i := by
    show Function.update d.phase k x i =
      view node l i (Function.update s.post (some k) y (some i))
    rcases eq_or_ne i k with rfl | hi
    · rw [Function.update_self, Function.update_self, hx]
    · rw [Function.update_of_ne hi, Function.update_of_ne (by simpa using hi), h.phase]

/-- A worker has processed an item. -/
lemma Shows.ran (h : s.Shows l d) {x : Ω} {v : T (node k).src} {outs : List (Σ c, T c)} {n : σ k} :
    (s.ran k x v outs n).Shows l (d.ran k x v outs n) :=
  have hphase := h.setPhase (k := k) (y := .looping outs) rfl
  { queue  := h.queue
    closed := h.closed
    puts   := h.puts
    phase  := hphase.phase
    feeds  := h.feeds
    mem    := congrArg (fun m => Function.update m k n) h.mem
    runs   := congrArg (· ++ _) h.runs }

/-- A step inside a call. -/
lemma Sound.shown_channel [Fintype κ] (h : s.Sound) (hC : Outer C)
    (hd : (Dataflow.machine node m₀).ReachableBy C d) (hshown : s.Shown d)
    {b : Channel.Action (T c)} {m : Lane (T c)}
    (hmeets : ∀ d, (Dataflow.machine node m₀).ReachableBy C d → s.Shown d →
      s.Meets C d (.channel c b))
    (hm : Relation.ReflTransGen ((s.chan c).Does b) (s.lanes c) m) :
    ∃ d', (Dataflow.machine node m₀).ReachableBy C d' ∧
      s.Shows (Function.update s.lanes c m) d' := by
  induction hm with
  | refl =>
    rw [Function.update_eq_self]
    exact ⟨d, hd, hshown⟩
  | @tail m m' hm hdoes ih =>
    obtain ⟨d', hd', hshown'⟩ := ih
    obtain ⟨hdeed, hlock⟩ := hdoes
    have hself : Function.update s.lanes c m c = m := Function.update_self _ _ _
    have hidem : Function.update (Function.update s.lanes c m) c m' =
        Function.update s.lanes c m' := Function.update_idem _ _ _
    -- a call of the outside has its section first
    have houter : ∀ p, (m.deal p = .closing ∨ ∃ v, m.deal p = .put v) → m'.deal p ≠ m.deal p →
        m = (s.chan c).lane ∧ s.Meets C d' (.channel c (.lock p)) := by
      intro p hp hne
      obtain ⟨rfl, rfl⟩ := hlock p hp hne
      have he : Function.update s.lanes c (s.chan c).lane = s.lanes := Function.update_eq_self _ _
      rw [he] at hshown'
      exact ⟨rfl, hmeets d' hd' hshown'⟩
    rw [← hidem]
    rw [← hself] at hdeed
    refine hshown'.deed (h.seated_deeds hm) hdeed hC hd' (fun v p rest ho hp hp' => ?_)
      fun p cs ho hp hp' => ?_
    · rw [hself] at hp
      obtain ⟨rfl, hmeet⟩ := houter p (.inr ⟨v, hp⟩) (hp.symm ▸ hp')
      exact hmeet.1 v rest ho (Channel.call_of_put hp)
    · rw [hself] at hp
      obtain ⟨rfl, hmeet⟩ := houter p (.inl hp) (hp.symm ▸ hp')
      exact hmeet.2 cs ho (Channel.call_of_closing hp)

/-- Every step is seen as steps of the network. -/
theorem Sound.shown_step [Fintype κ] (h : s.Sound) (hC : Outer C)
    (hd : (Dataflow.machine node m₀).ReachableBy C d) (hshown : s.Shown d)
    (hmeets : ∀ d, (Dataflow.machine node m₀).ReachableBy C d → s.Shown d → s.Meets C d a)
    (hs : Fabric.step journey s a = some s') :
    ∃ d', (Dataflow.machine node m₀).ReachableBy C d' ∧ s'.Shown d' := by
  cases Rule.of_step hs with
  | get k g hk hg =>
    refine ⟨d, hd, h.shows_call hshown hg (fun l hl i hi => ?_) fun l hl ho => by cases ho⟩
    obtain rfl := Option.some_injective _ hi
    rw [hk, view, view, hl]
    rfl
  | apply k x g v hk hg hv =>
    have hphase : d.phase k = .holding v := by
      rw [hshown.phase, hk, view, h.deal_got hg hv]
    have hr := Dataflow.Rule.call (s := d) k x v hphase
    rw [hshown.mem] at hr
    exact ⟨_, hr.reachableBy hd (hC _ _ (by simp) (by simp)), hshown.ran⟩
  | leave k g hk hg =>
    refine ⟨d, hd, hshown.setPost (fun i hi => ?_) fun ho => by cases ho⟩
    obtain rfl := Option.some_injective _ hi
    rw [hk, view, view, h.deal_refused hg]
  | put o p v rest ho hp =>
    refine ⟨d, hd, h.shows_call hshown hp (fun l hl i hi => ?_) fun l hl hn => ?_⟩
    · rw [← hi, ho, view, view, hl]
      rfl
    · rw [← hn, ho, owed, owed, hl]
      rfl
  | putDone o v p rest ho hp =>
    refine ⟨d, hd, hshown.setPost (fun i hi => ?_) fun hn => ?_⟩
    · rw [← hi, ho, view, view, deal_done hp]
    · rw [← hn, ho, owed, owed, deal_done hp]
  | close o p c cs ho hp =>
    refine ⟨d, hd, h.shows_call hshown hp (fun l hl i hi => ?_) fun l hl hn => ?_⟩
    · rw [← hi, ho, view, view, hl]
      rfl
    · rw [← hn, ho]
      rfl
  | closeDone o c p cs ho hp =>
    refine ⟨d, hd, hshown.setPost (fun i hi => ?_) fun hn => ?_⟩
    · rw [← hi, ho, view, view, deal_done hp]
    · rw [← hn, ho]
      rfl
  | quit k hk =>
    have hphase : d.phase k = .leaving [] := by rw [hshown.phase, hk, view]
    have hr := Dataflow.Rule.quit k hphase
    exact ⟨_, hr.reachableBy hd (hC _ _ (by simp) (by simp)), hshown.setPhase rfl⟩
  | feed v ho =>
    have hfeeds := hshown.feeds
    rw [ho] at hfeeds
    refine ⟨d, hd, ⟨hshown.queue, hshown.closed, hshown.puts, hshown.phase, hshown.mem, hshown.runs,
      ?_⟩⟩
    show d.feeds ++ owed s.lanes (Function.update s.post none (.looping [v]) none) = _
    rw [Function.update_self, owed, ← hfeeds, owed, List.append_nil]
  | shut c ho =>
    refine ⟨d, hd, hshown.setPost (fun i hi => by cases hi) fun _ => ?_⟩
    rw [ho]
    rfl
  | channel c b x hb hx =>
    obtain ⟨d', hd', hshown'⟩ := h.shown_channel hC hd hshown hmeets
      ((h.still c).deeds_of_internal hb hx)
    refine ⟨d', hd', ?_⟩
    rw [Shown, lanes_setChan]
    exact hshown'.congr (fun _ => rfl) (fun _ => rfl) (fun _ => rfl) (fun _ => rfl) rfl rfl rfl rfl

/-- If the condition on what comes from outside is met wherever `I` holds, which every step keeps,
every state is shown. -/
theorem shown_of_reachable [Fintype κ] {D : Fabric node → Action κ Ω T → Prop}
    {I : Fabric node → Prop} (hC : Outer C) (hinit : I { mem := m₀ })
    (hstep : ∀ s d a s', s.Sound → (Dataflow.machine node m₀).ReachableBy C d → s.Shown d → I s →
      D s a → Fabric.step journey s a = some s' → I s')
    (hmeets : ∀ s d a, s.Sound → (Dataflow.machine node m₀).ReachableBy C d → s.Shown d → I s →
      s.Meets C d a) (h : (machine node journey m₀).ReachableBy D s) :
    s.Sound ∧ I s ∧ ∃ d, (Dataflow.machine node m₀).ReachableBy C d ∧ s.Shown d := by
  induction h with
  | init h =>
    obtain rfl := h
    exact ⟨.init m₀, hinit, _, .init rfl, shown_init m₀⟩
  | step _ hD hs ih =>
    obtain ⟨hS, hI, d, hd, hshown⟩ := ih
    exact ⟨hS.step hs, hstep _ _ _ _ hS hd hshown hI hD hs,
      hS.shown_step hC hd hshown (fun d' hd' hshown' => hmeets _ _ _ hS hd' hshown' hI) hs⟩

end Fabric

end Data

end Synca
