import Synca.Data.Fabric

/-!
# What the workers on channels show

Which call each worker is in, and the thread outside, and what the lanes of the channels say of it:
the view of the channels as queues. No two are in the same call, and a call that is not decided
belongs to one of them. So every deed on a lane is a step of the network, or a few where a channel
is closed.
-/

namespace Synca

namespace Data

open Transition

variable {ι κ Ω : Type*} {T : ι → Type*} {σ : κ → Type*}

namespace Fabric

section

variable (node : ∀ k, Node T Ω (σ k))

/-- The call that one is in, with its channel. -/
def uses (o : Option κ) : Place T → Option (ι × ℕ)
  | .getting g      => o.map fun k => ((node k).src, g)
  | .putting v p _  => some (v.1, p)
  | .closing c p _  => some (c, p)
  | _               => none

/-- The deals one can meet. -/
def Fits (l : ∀ c, Lane (T c)) (o : Option κ) : Place T → Prop
  | .getting g     => ∃ k, o = some k ∧ ((l (node k).src).deal g = .asking ∨
    (l (node k).src).deal g = .refused ∨ ∃ v, (l (node k).src).deal g = .got v)
  | .putting v p _ => (l v.1).deal p = .put v.2 ∨ (l v.1).deal p = .done
  | .closing c p _ => (l c).deal p = .closing ∨ (l c).deal p = .done
  | _              => True

/-- What a worker is at. -/
def view (l : ∀ c, Lane (T c)) (k : κ) : Place T → Transition.Phase T (T (node k).src)
  | .looping rest     => .looping rest
  | .getting g        => match (l (node k).src).deal g with
    | .got v   => .holding v
    | .refused => .leaving (node k).shuts
    | _        => .looping []
  | .putting v p rest => match (l v.1).deal p with
    | .put _ => .looping (v :: rest)
    | _      => .looping rest
  | .leaving cs       => .leaving cs
  | .closing c p cs   => match (l c).deal p with
    | .closing => .leaving (c :: cs)
    | _        => .leaving cs
  | .gone             => .gone

/-- What is still to be put. -/
def owed (l : ∀ c, Lane (T c)) : Place T → List (Σ c, T c)
  | .looping rest     => rest
  | .putting v p rest => match (l v.1).deal p with
    | .put _ => v :: rest
    | _      => rest
  | _                 => []

structure Seated (l : ∀ c, Lane (T c)) (post : Option κ → Place T) : Prop where
  one : ∀ o o' x, uses node o (post o) = some x → uses node o' (post o') = some x → o = o'
  fits : ∀ o, Fits node l o (post o)
  asker : ∀ c g, (l c).deal g = .asking → ∃ k, (node k).src = c ∧ post (some k) = .getting g
  putter : ∀ c p v, (l c).deal p = .put v → ∃ o rest, post o = .putting ⟨c, v⟩ p rest
  closer : ∀ c p, (l c).deal p = .closing → ∃ o cs, post o = .closing c p cs

end

/-- The state, with the lanes `l` of its channels, is shown by a state of the network. -/
structure Shows {node : ∀ k, Node T Ω (σ k)} [DecidableEq ι] (s : Fabric node)
    (l : ∀ c, Lane (T c)) (d : Dataflow node) : Prop where
  queue : ∀ c, d.queue c = (l c).queue
  closed : ∀ c, d.closed c = (l c).closed
  puts : ∀ c, Dataflow.on c d.puts = (l c).gots ++ (l c).queue
  phase : ∀ k, d.phase k = view node l k (s.post (some k))
  mem : d.mem = s.mem
  runs : d.runs = s.runs
  feeds : d.feeds ++ owed l (s.post none) = s.feeds

variable {node : ∀ k, Node T Ω (σ k)} {l : ∀ c, Lane (T c)} {post : Option κ → Place T}
  {c : ι} {m : Lane (T c)} {k : κ} {o : Option κ} {y : Place T}

section

variable [DecidableEq ι]

/-- A lane is not seen by one whose call on it is left as it is. -/
lemma view_update (h : ∀ g, uses node (some k) y = some (c, g) → m.deal g = (l c).deal g) :
    view node (Function.update l c m) k y = view node l k y := by
  cases y with
  | getting g =>
    rcases eq_or_ne (node k).src c with rfl | hc
    · simp only [view, Function.update_self, h g rfl]
    · simp only [view, Function.update_of_ne hc]
  | putting v p rest =>
    rcases eq_or_ne v.1 c with rfl | hc
    · simp only [view, Function.update_self, h p rfl]
    · simp only [view, Function.update_of_ne hc]
  | closing d p cs =>
    rcases eq_or_ne d c with rfl | hc
    · simp only [view, Function.update_self, h p rfl]
    · simp only [view, Function.update_of_ne hc]
  | _ => rfl

lemma owed_update (h : ∀ g, uses node none y = some (c, g) → m.deal g = (l c).deal g) :
    owed (Function.update l c m) y = owed l y := by
  cases y with
  | putting v p rest =>
    rcases eq_or_ne v.1 c with rfl | hc
    · simp only [owed, Function.update_self, h p rfl]
    · simp only [owed, Function.update_of_ne hc]
  | _ => rfl

lemma Fits.update (h : Fits node l o y)
    (hm : ∀ g, uses node o y = some (c, g) → m.deal g = (l c).deal g) :
    Fits node (Function.update l c m) o y := by
  cases y with
  | getting g =>
    obtain ⟨k, rfl, hk⟩ := h
    refine ⟨k, rfl, ?_⟩
    rcases eq_or_ne (node k).src c with rfl | hc
    · rwa [Function.update_self, hm g rfl]
    · rwa [Function.update_of_ne hc]
  | putting v p rest =>
    rcases eq_or_ne v.1 c with rfl | hc
    · rwa [Fits, Function.update_self, hm p rfl]
    · rwa [Fits, Function.update_of_ne hc]
  | closing d p cs =>
    rcases eq_or_ne d c with rfl | hc
    · rwa [Fits, Function.update_self, hm p rfl]
    · rwa [Fits, Function.update_of_ne hc]
  | _ => trivial

lemma Fits.deed (h : Fits node l o y) (hm : (l c).Deed m) :
    Fits node (Function.update l c m) o y := by
  cases y with
  | getting g =>
    obtain ⟨k, rfl, hk⟩ := h
    refine ⟨k, rfl, ?_⟩
    rcases eq_or_ne (node k).src c with rfl | hc
    · rw [Function.update_self]
      rcases hm.next g with he | ⟨-, he⟩ | ⟨⟨v, hb⟩, -⟩ | ⟨hb, -⟩
      · rwa [he]
      · exact .inr he
      · simp [hb] at hk
      · simp [hb] at hk
    · rwa [Function.update_of_ne hc]
  | putting v p rest =>
    rcases eq_or_ne v.1 c with rfl | hc
    · rw [Fits, Function.update_self]
      rcases hm.next p with he | ⟨hb, -⟩ | ⟨-, he⟩ | ⟨-, he⟩
      · rwa [he]
      · simp [Fits, hb] at h
      · exact .inr he
      · exact .inr he
    · rwa [Fits, Function.update_of_ne hc]
  | closing d p cs =>
    rcases eq_or_ne d c with rfl | hc
    · rw [Fits, Function.update_self]
      rcases hm.next p with he | ⟨hb, -⟩ | ⟨-, he⟩ | ⟨-, he⟩
      · rwa [he]
      · simp [Fits, hb] at h
      · exact .inr he
      · exact .inr he
    · rwa [Fits, Function.update_of_ne hc]
  | _ => trivial

lemma Seated.deed (h : Seated node l post) (hm : (l c).Deed m) :
    Seated node (Function.update l c m) post where
  one := h.one
  fits o          := (h.fits o).deed hm
  asker d g hg    := h.asker d g (Lane.deal_before hm hg (by simp))
  putter d p v hp := h.putter d p v (Lane.deal_before hm hp (by simp))
  closer d p hp   := h.closer d p (Lane.deal_before hm hp (by simp))

omit [DecidableEq ι] in
/-- Only the one in the call `g` sees a deed that changes the deal of `g` alone. -/
lemma Seated.other (h : Seated node l post) {o o' : Option κ} {g : ℕ}
    (hu : uses node o (post o) = some (c, g)) (ho : o' ≠ o)
    (hm : ∀ x, x ≠ g → m.deal x = (l c).deal x) (x : ℕ)
    (hx : uses node o' (post o') = some (c, x)) : m.deal x = (l c).deal x := by
  refine hm x ?_
  rintro rfl
  exact ho (h.one _ _ _ hx hu)

/-! ### Deeds as steps -/

variable {s : Fabric node} {d d' : Dataflow node}

/-- One lane has changed. -/
lemma Shows.update (h : s.Shows l d) (hqueue : d'.queue = Function.update d.queue c m.queue)
    (hclosed : d'.closed = Function.update d.closed c m.closed)
    (hputs : Dataflow.on c d'.puts = m.gots ++ m.queue)
    (hother : ∀ c', c' ≠ c → Dataflow.on c' d'.puts = Dataflow.on c' d.puts)
    (hphase : ∀ k, d'.phase k = view node (Function.update l c m) k (s.post (some k)))
    (hmem : d'.mem = d.mem) (hruns : d'.runs = d.runs)
    (hfeeds : d'.feeds ++ owed (Function.update l c m) (s.post none) =
      d.feeds ++ owed l (s.post none)) : s.Shows (Function.update l c m) d' where
  phase := hphase
  mem   := hmem.trans h.mem
  runs  := hruns.trans h.runs
  feeds := hfeeds.trans h.feeds
  queue c' := by
    rw [hqueue]
    rcases eq_or_ne c' c with rfl | hc
    · rw [Function.update_self, Function.update_self]
    · rw [Function.update_of_ne hc, Function.update_of_ne hc, h.queue]
  closed c' := by
    rw [hclosed]
    rcases eq_or_ne c' c with rfl | hc
    · rw [Function.update_self, Function.update_self]
    · rw [Function.update_of_ne hc, Function.update_of_ne hc, h.closed]
  puts c' := by
    rcases eq_or_ne c' c with rfl | hc
    · rw [Function.update_self, hputs]
    · rw [Function.update_of_ne hc, hother c' hc, h.puts]

lemma Shows.queue_same (h : s.Shows l d) (hm : m.queue = (l c).queue) :
    d.queue = Function.update d.queue c m.queue := by
  rw [hm, ← h.queue, Function.update_eq_self]

lemma Shows.closed_same (h : s.Shows l d) (hm : m.closed = (l c).closed) :
    d.closed = Function.update d.closed c m.closed := by
  rw [hm, ← h.closed, Function.update_eq_self]

variable [DecidableEq κ]

/-- Only the worker in the call `g` changes its phase. -/
lemma Shows.phase_self (h : s.Shows l d) (hS : Seated node l s.post) {g : ℕ}
    (hu : uses node (some k) (s.post (some k)) = some (c, g))
    (hm : ∀ x, x ≠ g → m.deal x = (l c).deal x) {x : Transition.Phase T (T (node k).src)}
    (hx : view node (Function.update l c m) k (s.post (some k)) = x) (i : κ) :
    (d.setPhase k x).phase i = view node (Function.update l c m) i (s.post (some i)) := by
  show Function.update d.phase k x i = _
  rcases eq_or_ne i k with rfl | hi
  · rw [Function.update_self, hx]
  · rw [Function.update_of_ne hi, view_update (hS.other hu (by simpa using hi) hm), h.phase]

lemma Shows.take (h : s.Shows l d) (hS : Seated node l s.post) {g : ℕ} {v : T c} {q : List (T c)}
    (hg : (l c).deal g = .asking) (hq : (l c).queue = v :: q) :
    ∃ k d', Dataflow.Rule d (.take k) d' ∧
      s.Shows (Function.update l c ((l c).take g v q)) d' := by
  obtain ⟨k, rfl, hk⟩ := hS.asker c g hg
  have hu : uses node (some k) (s.post (some k)) = some ((node k).src, g) := by rw [hk]; rfl
  have hself : ((l (node k).src).take g v q).deal g = .got v := Function.update_self _ _ _
  have hm : ∀ x, x ≠ g → ((l (node k).src).take g v q).deal x = (l (node k).src).deal x :=
    fun x hx => Function.update_of_ne hx _ _
  have hphase : d.phase k = .looping [] := by rw [h.phase, hk, view, hg]
  have hview : view node (Function.update l (node k).src ((l (node k).src).take g v q)) k
      (s.post (some k)) = .holding v := by
    rw [hk, view, Function.update_self, hself]
  refine ⟨k, _, .take k v q hphase ((h.queue _).trans hq), ?_⟩
  refine h.update rfl (h.closed_same rfl) ?_ (fun _ _ => rfl) (h.phase_self hS hu hm hview) rfl rfl
    ?_
  · refine (h.puts _).trans ?_
    simp [Lane.take, hq]
  · rw [owed_update (hS.other hu (by simp) hm)]
    rfl

lemma Shows.refuse (h : s.Shows l d) (hS : Seated node l s.post) {g : ℕ}
    (hg : (l c).deal g = .asking) (hq : (l c).queue = []) (hc : (l c).closed = true) :
    ∃ k d', Dataflow.Rule d (.refuse k) d' ∧
      s.Shows (Function.update l c ((l c).refuse g)) d' := by
  obtain ⟨k, rfl, hk⟩ := hS.asker c g hg
  have hu : uses node (some k) (s.post (some k)) = some ((node k).src, g) := by rw [hk]; rfl
  have hself : ((l (node k).src).refuse g).deal g = .refused := Function.update_self _ _ _
  have hm : ∀ x, x ≠ g → ((l (node k).src).refuse g).deal x = (l (node k).src).deal x :=
    fun x hx => Function.update_of_ne hx _ _
  have hphase : d.phase k = .looping [] := by rw [h.phase, hk, view, hg]
  have hview : view node (Function.update l (node k).src ((l (node k).src).refuse g)) k
      (s.post (some k)) = .leaving (node k).shuts := by
    rw [hk, view, Function.update_self, hself]
  refine ⟨k, _, .refuse k hphase ((h.queue _).trans hq) ((h.closed _).trans hc), ?_⟩
  refine h.update (h.queue_same rfl) (h.closed_same rfl) (h.puts _) (fun _ _ => rfl)
    (h.phase_self hS hu hm hview) rfl rfl ?_
  rw [owed_update (hS.other hu (by simp) hm)]
  rfl

/-- A worker puts a value, or the thread outside does. -/
lemma Shows.put (h : s.Shows l d) (hS : Seated node l s.post) {p : ℕ} {v : T c}
    (hp : (l c).deal p = .put v) :
    ∃ a d', Dataflow.Rule d a d' ∧ s.Shows (Function.update l c ((l c).put p v)) d' ∧
      ((∃ k, a = .emit k) ∨ a = .feed ⟨c, v⟩ ∧ ∃ rest, s.post none = .putting ⟨c, v⟩ p rest) := by
  obtain ⟨o, rest, ho⟩ := hS.putter c p v hp
  have hu : uses node o (s.post o) = some (c, p) := by rw [ho]; rfl
  have hself : ((l c).put p v).deal p = .done := Function.update_self _ _ _
  have hm : ∀ x, x ≠ p → ((l c).put p v).deal x = (l c).deal x :=
    fun x hx => Function.update_of_ne hx _ _
  have hqueue : (d.put ⟨c, v⟩).queue = Function.update d.queue c ((l c).put p v).queue := by
    show Function.update d.queue c (d.queue c ++ [v]) = _
    rw [h.queue]
    rfl
  have hputs : Dataflow.on c (d.put ⟨c, v⟩).puts =
      ((l c).put p v).gots ++ ((l c).put p v).queue := by
    show Dataflow.on c (d.puts ++ [⟨c, v⟩]) = (l c).gots ++ ((l c).queue ++ [v])
    rw [Dataflow.on_append, h.puts, List.append_assoc]
    simp
  have hother : ∀ c', c' ≠ c → Dataflow.on c' (d.put ⟨c, v⟩).puts = Dataflow.on c' d.puts := by
    intro c' hc
    show Dataflow.on c' (d.puts ++ [⟨c, v⟩]) = _
    rw [Dataflow.on_append]
    simp [Ne.symm hc]
  cases o with
  | some k =>
    have hphase : d.phase k = .looping (⟨c, v⟩ :: rest) := by rw [h.phase, ho, view, hp]
    have hview : view node (Function.update l c ((l c).put p v)) k (s.post (some k)) =
        .looping rest := by
      rw [ho, view, Function.update_self, hself]
    refine ⟨_, _, .emit k _ rest hphase, ?_, .inl ⟨k, rfl⟩⟩
    refine h.update hqueue (h.closed_same rfl) hputs hother (h.phase_self hS hu hm hview) rfl rfl ?_
    rw [owed_update (hS.other hu (by simp) hm)]
    rfl
  | none =>
    refine ⟨_, _, .feed ⟨c, v⟩, ?_, .inr ⟨rfl, rest, ho⟩⟩
    refine h.update hqueue (h.closed_same rfl) hputs hother (fun k => ?_) rfl rfl ?_
    · rw [view_update (hS.other hu (by simp) hm)]
      exact h.phase k
    · rw [ho, owed, owed, Function.update_self, hself, hp]
      exact List.append_assoc _ _ _

/-! ### Closing -/

variable {m₀ : ∀ k, σ k} {C : Dataflow node → Dataflow.Action κ Ω T → Prop}

/-- The condition is one on what comes from outside. -/
def Outer (C : Dataflow node → Dataflow.Action κ Ω T → Prop) : Prop :=
  ∀ d a, (∀ v, a ≠ .feed v) → (∀ c, a ≠ .shut c) → C d a

omit [DecidableEq ι] [DecidableEq κ] in
/-- A call of `get` that is not decided is one of a worker of the channel. -/
lemma Seated.getting (h : Seated node l post) {g : ℕ} (hu : uses node o (post o) = some (c, g))
    (hg : (l c).deal g = .asking) : ∃ k, o = some k ∧ (node k).src = c ∧ post o = .getting g := by
  obtain ⟨k, hk, hpost⟩ := h.asker c g hg
  have hu' : uses node (some k) (post (some k)) = some (c, g) := by rw [hpost, ← hk]; rfl
  obtain rfl := h.one _ _ _ hu hu'
  exact ⟨k, rfl, hk, hpost⟩

open Classical in
/-- The channel has been closed, and the workers that wait on it are refused one after the other. -/
lemma Shows.refuseAll [Fintype κ] (h : s.Shows l d) (hS : Seated node l s.post) {p : ℕ}
    {ws : List ℕ} {cs : List ι} (ho : s.post o = .closing c p cs)
    (hws : ∀ w ∈ ws, (l c).deal w = .asking) (hq : ws ≠ [] → (l c).queue = []) (hC : Outer C)
    (hd : (Dataflow.machine node m₀).ReachableBy C d') (hqueue : d'.queue = d.queue)
    (hclosed : d'.closed = Function.update d.closed c true) (hputs : d'.puts = d.puts)
    (hmem : d'.mem = d.mem) (hruns : d'.runs = d.runs) (hfeeds : d'.feeds = d.feeds)
    (hphase : ∀ k, some k ≠ o → d'.phase k = d.phase k)
    (hself : ∀ k, o = some k → d'.phase k = .leaving cs) :
    ∃ d'', (Dataflow.machine node m₀).ReachableBy C d'' ∧
      s.Shows (Function.update l c ((l c).close p ws)) d'' := by
  have hu : uses node o (s.post o) = some (c, p) := by rw [ho]; rfl
  have hpws : p ∉ ws := by
    intro hm
    obtain ⟨k, -, -, hpost⟩ := hS.getting hu (hws p hm)
    cases ho.symm.trans hpost
  have hdone : ((l c).close p ws).deal p = .done := by simp [Lane.close, hpws]
  have hrefused : ∀ g ∈ ws, ((l c).close p ws).deal g = .refused := fun g hg => if_pos hg
  -- others than the waiting workers and the one that closes see nothing
  have hother : ∀ o', o' ≠ o → (∀ g ∈ ws, uses node o' (s.post o') ≠ some (c, g)) → ∀ g,
      uses node o' (s.post o') = some (c, g) → ((l c).close p ws).deal g = (l c).deal g := by
    intro o' ho' hg' g hg
    have hgw : g ∉ ws := fun hm => hg' g hm hg
    have hgp : g ≠ p := by
      rintro rfl
      exact ho' (hS.one _ _ _ hg hu)
    simp [Lane.close, hgw, hgp]
  set E : κ → Prop := fun k => ∃ g ∈ ws, uses node (some k) (s.post (some k)) = some (c, g) with hE
  have hwait : ∀ k, E k →
      (node k).src = c ∧ some k ≠ o ∧ ∃ g ∈ ws, s.post (some k) = .getting g := by
    rintro k ⟨g, hg, hk⟩
    obtain ⟨i, hi, hsrc, hpost⟩ := hS.getting hk (hws g hg)
    obtain rfl := Option.some_injective _ hi
    refine ⟨hsrc, ?_, g, hg, hpost⟩
    rintro rfl
    cases ho.symm.trans hpost
  set ks : List κ := (Finset.univ.filter E).toList with hks
  have hmem' : ∀ k, k ∈ ks ↔ E k := fun k => by simp [hks]
  refine ⟨d'.refuseAll ks, Dataflow.reachableBy_refuseAll (fun _ _ => hC _ _ (by simp) (by simp)) hd
    (Finset.nodup_toList _) (fun k hk => ?_) (fun k hk => ?_) (fun k hk => ?_), ?_⟩
  · obtain ⟨rfl, hne, g, hg, hpost⟩ := hwait k ((hmem' k).mp hk)
    rw [hphase k hne, h.phase, hpost, view, hws g hg]
  · obtain ⟨rfl, -, g, hg, -⟩ := hwait k ((hmem' k).mp hk)
    rw [hqueue, h.queue]
    exact hq (List.ne_nil_of_mem hg)
  · rw [(hwait k ((hmem' k).mp hk)).1, hclosed, Function.update_self]
  · refine h.update (hqueue.trans (h.queue_same rfl)) hclosed ((congrArg _ hputs).trans (h.puts c))
      (fun _ _ => congrArg _ hputs) (fun k => ?_) hmem hruns ?_
    · show (if k ∈ ks then _ else d'.phase k) = _
      simp only [hmem']
      split_ifs with hk
      · obtain ⟨rfl, -, g, hg, hpost⟩ := hwait k hk
        rw [hpost, view, Function.update_self, hrefused g hg]
      · by_cases hko : some k = o
        · subst hko
          rw [hself k rfl, ho, view, Function.update_self, hdone]
        · rw [hphase k hko, h.phase]
          refine (view_update (hother _ hko fun g hg hk' => hk ⟨g, hg, hk'⟩)).symm
    · show d'.feeds ++ _ = _
      rw [hfeeds]
      rcases eq_or_ne none o with rfl | hno
      · rw [ho]
        rfl
      · rw [owed_update (hother _ hno fun g hg hk' => ?_)]
        obtain ⟨k, hk, -⟩ := hS.getting hk' (hws g hg)
        cases hk

/-- A channel is closed by a worker, or by the thread outside. -/
lemma Shows.close [Fintype κ] (h : s.Shows l d) (hS : Seated node l s.post) {p : ℕ} {ws : List ℕ}
    (hp : (l c).deal p = .closing) (hws : ∀ w ∈ ws, (l c).deal w = .asking)
    (hq : ws ≠ [] → (l c).queue = []) (hC : Outer C)
    (hd : (Dataflow.machine node m₀).ReachableBy C d)
    (hshut : ∀ cs, s.post none = .closing c p cs → C d (.shut c)) :
    ∃ d', (Dataflow.machine node m₀).ReachableBy C d' ∧
      s.Shows (Function.update l c ((l c).close p ws)) d' := by
  obtain ⟨o, cs, ho⟩ := hS.closer c p hp
  cases o with
  | some k =>
    have hphase : d.phase k = .leaving (c :: cs) := by rw [h.phase, ho, view, hp]
    have hr := Dataflow.Rule.close k c cs hphase
    refine h.refuseAll hS ho hws hq hC (hr.reachableBy hd (hC _ _ (by simp) (by simp))) rfl rfl rfl
      rfl rfl rfl (fun i hi => ?_) fun i hi => ?_
    · exact Function.update_of_ne (by simpa using hi) _ _
    · obtain rfl := Option.some_injective _ hi
      exact Function.update_self _ _ _
  | none =>
    have hr := Dataflow.Rule.shut (s := d) c
    exact h.refuseAll hS ho hws hq hC (hr.reachableBy hd (hshut cs ho)) rfl rfl rfl rfl rfl rfl
      (fun _ _ => rfl) fun i hi => by cases hi

/-- Every deed on a lane is seen as steps of the network. -/
theorem Shows.deed [Fintype κ] (h : s.Shows l d) (hS : Seated node l s.post) (hm : (l c).Deed m)
    (hC : Outer C) (hd : (Dataflow.machine node m₀).ReachableBy C d)
    (hfeed : ∀ v p rest, s.post none = .putting ⟨c, v⟩ p rest → (l c).deal p = .put v →
      m.deal p ≠ .put v → C d (.feed ⟨c, v⟩))
    (hshut : ∀ p cs, s.post none = .closing c p cs → (l c).deal p = .closing →
      m.deal p ≠ .closing → C d (.shut c)) :
    ∃ d', (Dataflow.machine node m₀).ReachableBy C d' ∧ s.Shows (Function.update l c m) d' := by
  cases hm with
  | take g v q hg hq =>
    obtain ⟨k, d', hr, hshown⟩ := h.take hS hg hq
    exact ⟨d', hr.reachableBy hd (hC _ _ (by simp) (by simp)), hshown⟩
  | refuse g hg hq hc =>
    obtain ⟨k, d', hr, hshown⟩ := h.refuse hS hg hq hc
    exact ⟨d', hr.reachableBy hd (hC _ _ (by simp) (by simp)), hshown⟩
  | put p v hp =>
    obtain ⟨a, d', hr, hshown, ⟨k, rfl⟩ | ⟨rfl, rest, ho⟩⟩ := h.put hS hp
    · exact ⟨d', hr.reachableBy hd (hC _ _ (by simp) (by simp)), hshown⟩
    · exact ⟨d', hr.reachableBy hd (hfeed v p rest ho hp (by simp [Lane.put])), hshown⟩
  | close p ws hp hws hq =>
    refine h.close hS hp hws hq hC hd fun cs ho => hshut p cs ho hp ?_
    have hpws : p ∉ ws := fun hm => by cases hp.symm.trans (hws p hm)
    simp [Lane.close, hpws]

end

end Fabric

end Data

end Synca
