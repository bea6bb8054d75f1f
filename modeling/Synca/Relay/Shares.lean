import Mathlib.Data.List.Nodup
import Synca.Relay.Waits

/-!
# Who shares a group

The shared pointer of a group is held by its launch loop, by the tasks that start its children and
by the handlers on the stacks of the children. Each of these that exists is counted among the
holders, so the group ends when the last of them is gone.
-/

namespace Synca

open Transition

namespace Relay

variable {c : Relay} {t j k d : ℕ}

/-- A task that starts journey `j` is posted, or a thread executes it. -/
def StartsAt (c : Relay) : Option ℕ → ℕ → Prop
  | none,   j => ∃ x ∈ c.posted, x.journey = j ∧ x.start = true
  | some t, j => ∃ x, c.exec t = some x ∧ x.journey = j ∧ x.start = true

/-- What holds the pointer of group `k` exists. -/
def Claims (c : Relay) (k : ℕ) : Holder → Prop
  | .loop   => ∃ t x, c.exec t = some x ∧ x.stage = .loop k
  | .task j => (c.runner j).role = some k ∧ ∃ p, c.StartsAt p j
  | .coro j => (c.runner j).role = some k ∧ (c.runner j).started = true

/-- The journeys whose first task is posted. -/
def starts (c : Relay) : List ℕ := (c.posted.filter fun x => x.start).map Task.journey

structure Shares (c : Relay) : Prop where
  unbegun : ∀ k, (c.team k).began = false → (c.team k).counter = 0
  role : ∀ j k, (c.runner j).role = some k → (c.team k).began = true
  loop : ∀ t x k, c.exec t = some x → x.stage = .loop k → (c.team k).began = true
  alone : ∀ t t' x x' k, c.exec t = some x → c.exec t' = some x' → x.stage = .loop k →
    x'.stage = .loop k → t = t'
  claims : ∀ k h, c.Claims k h → h ∈ (c.team k).holders
  bound : ∀ p j, c.StartsAt p j → j ≤ c.created
  once : c.starts.Nodup
  excl : Exclusive c.StartsAt
  born : ∀ j, (c.runner j).alive = true ∨ (c.runner j).started = true → j ≤ c.created

lemma mem_starts : j ∈ c.starts ↔ c.StartsAt none j := by
  simp only [starts, List.mem_map, List.mem_filter, StartsAt]
  constructor
  · rintro ⟨x, ⟨hx, hs⟩, hj⟩
    exact ⟨x, hx, hj, hs⟩
  · rintro ⟨x, hx, hj, hs⟩
    exact ⟨x, ⟨hx, hs⟩, hj⟩

namespace Shares

lemma init (alone : ℕ → Bool) : ({ alone := alone } : Relay).Shares where
  unbegun _ _ := rfl
  role := by simp
  loop := by simp
  alone := by simp
  claims k h hc := by cases h <;> simp [Claims, StartsAt] at hc
  bound p j h := by cases p <;> simp [StartsAt] at h
  once := List.nodup_nil
  excl p q j hp := by cases p <;> simp [StartsAt] at hp
  born := by simp

/-! ### Runners and tasks -/

/-- A coroutine that counts as started after the change holds its copy. -/
lemma mapRunner_of_holds (hS : c.Shares) {f : Runner → Runner}
    (hr : (f (c.runner j)).role = (c.runner j).role)
    (hb : (f (c.runner j)).alive = true ∨ (f (c.runner j)).started = true → j ≤ c.created)
    (hh : (f (c.runner j)).started = true → ∀ k, (c.runner j).role = some k →
      .coro j ∈ (c.team k).holders) : (c.mapRunner j f).Shares := by
  have hrole : ∀ i, ((c.mapRunner j f).runner i).role = (c.runner i).role := by
    intro i
    rw [runner_mapRunner]
    split_ifs with hi
    · rw [hr, hi]
    · rfl
  refine { hS with role := ?_, claims := ?_, born := ?_ }
  · intro i k h
    exact hS.role i k ((hrole i).symm.trans h)
  · intro k h hc
    cases h with
    | loop => exact hS.claims k .loop hc
    | task i => exact hS.claims k (.task i) ⟨(hrole i).symm.trans hc.1, hc.2⟩
    | coro i =>
      obtain ⟨hk, hs⟩ := hc
      rw [hrole] at hk
      rw [runner_mapRunner] at hs
      split_ifs at hs with hi
      · subst hi
        exact hh hs k hk
      · exact hS.claims k (.coro i) ⟨hk, hs⟩
  · intro i h
    rw [runner_mapRunner] at h
    split_ifs at h with hi
    · exact hi ▸ hb h
    · exact hS.born i h

lemma mapRunner (hS : c.Shares) {f : Runner → Runner}
    (hr : (f (c.runner j)).role = (c.runner j).role)
    (ha : (f (c.runner j)).alive = true → (c.runner j).alive = true)
    (hs : (f (c.runner j)).started = true → (c.runner j).started = true) :
    (c.mapRunner j f).Shares :=
  hS.mapRunner_of_holds hr (fun h => hS.born j (h.imp ha hs)) fun h k hk =>
    hS.claims k (.coro j) ⟨hk, hs h⟩

/-- The tasks are distributed anew: no launch loop is entered, and no right to start a journey
made. -/
lemma distribute (hS : c.Shares) {e : ℕ → Option Exec} {p : List Task} {d : ℕ → Option ℕ}
    (hloop : ∀ u y k, e u = some y → y.stage = .loop k → c.exec u = some y)
    (hstarts : ∀ q i, ({ c with exec := e, posted := p, strand := d } : Relay).StartsAt q i →
      ∃ q', c.StartsAt q' i)
    (honce : ({ c with exec := e, posted := p, strand := d } : Relay).starts.Nodup)
    (hexcl : Exclusive ({ c with exec := e, posted := p, strand := d } : Relay).StartsAt) :
    ({ c with exec := e, posted := p, strand := d } : Relay).Shares := by
  refine { hS with
    loop := ?_, alone := ?_, claims := ?_, bound := ?_, once := honce, excl := hexcl }
  · exact fun u y k hy hk => hS.loop u y k (hloop u y k hy hk) hk
  · exact fun u u' y y' k hy hy' hk hk' =>
      hS.alone u u' y y' k (hloop u y k hy hk) (hloop u' y' k hy' hk') hk hk'
  · intro k h hc
    cases h with
    | loop =>
      obtain ⟨u, y, hy, hk⟩ := hc
      exact hS.claims k .loop ⟨u, y, hloop u y k hy hk, hk⟩
    | task i =>
      obtain ⟨hr, q, hq⟩ := hc
      exact hS.claims k (.task i) ⟨hr, hstarts q i hq⟩
    | coro i => exact hS.claims k (.coro i) hc
  · intro q i h
    obtain ⟨q', hq'⟩ := hstarts q i h
    exact hS.bound q' i hq'

/-- A task that starts no journey is posted. -/
lemma post (hS : c.Shares) (j : ℕ) : (c.post j false).Shares := by
  have hstarts : ∀ p i, (c.post j false).StartsAt p i → c.StartsAt p i := by
    intro p i h
    cases p with
    | some t => exact h
    | none =>
      obtain ⟨x, hx, hj, hs⟩ := h
      rcases List.mem_append.mp hx with hx | hx
      · exact ⟨x, hx, hj, hs⟩
      · obtain rfl := List.mem_singleton.mp hx
        cases hs
  have honce : (c.post j false).starts.Nodup := by
    have heq : (c.post j false).starts = c.starts := by simp [starts, Relay.post]
    rw [heq]
    exact hS.once
  exact hS.distribute (fun _ _ _ hy _ => hy) (fun p i h => ⟨p, hstarts p i h⟩) honce
    (hS.excl.mono hstarts)

lemma proceed (hS : c.Shares) (j : ℕ) : (c.proceed j).Shares :=
  (hS.mapRunner rfl id id).post j

/-! ### Holders -/

lemma mapTeam (hS : c.Shares) {f : Team → Team}
    (hb : (c.team k).began = true → (f (c.team k)).began = true)
    (hu : (f (c.team k)).began = false → (f (c.team k)).counter = 0)
    (hh : ∀ h, c.Claims k h → h ∈ (f (c.team k)).holders) : (c.mapTeam k f).Shares := by
  have hbegan : ∀ n, (c.team n).began = true → ((c.mapTeam k f).team n).began = true := by
    intro n hn
    rw [team_mapTeam]
    split_ifs with h
    · exact hb (h ▸ hn)
    · exact hn
  refine { hS with unbegun := ?_, role := ?_, loop := ?_, claims := ?_ }
  · intro n hn
    rw [team_mapTeam] at hn ⊢
    split_ifs at hn ⊢ with h
    · exact hu hn
    · exact hS.unbegun n hn
  · exact fun j n h => hbegan n (hS.role j n h)
  · exact fun t x n hx h => hbegan n (hS.loop t x n hx h)
  · intro n h hc
    have hc : c.Claims n h := by cases h <;> exact hc
    rw [team_mapTeam]
    split_ifs with hn
    · exact hh h (hn ▸ hc)
    · exact hS.claims n h hc

/-- The counter of a group that has begun counts. -/
lemma count (hS : c.Shares) (hb : (c.team k).began = true) (n : ℕ) :
    (c.mapTeam k fun x => { x with counter := n }).Shares :=
  hS.mapTeam id (fun h => absurd (hb.symm.trans h) nofun) (hS.claims k)

lemma bump (hS : c.Shares) (hb : (c.team k).began = true) : (c.bump k).Shares := by
  have hc := hS.count hb ((c.team k).counter + 1)
  simp only [Relay.bump]
  split_ifs
  · exact hc.proceed _
  · exact hc

/-- A copy that is not claimed is dropped. -/
lemma release (hS : c.Shares) (hb : (c.team k).began = true) {h : Holder}
    (hh : ¬ c.Claims k h) : (c.release k h).Shares := by
  have he : (c.mapTeam k fun x => { x with holders := x.holders.erase h }).Shares := by
    apply hS.mapTeam id (hS.unbegun k)
    intro g hg
    refine (List.mem_erase_of_ne ?_).mpr (hS.claims k g hg)
    rintro rfl
    exact hh hg
  have hb' : ((c.mapTeam k fun x => { x with holders := x.holders.erase h }).team k).began
      = true := by
    rw [team_mapTeam, if_pos rfl]
    exact hb
  simp only [Relay.release]
  split_ifs
  · unfold settle
    split
    · exact he.proceed _
    · exact he
    · exact he.bump hb'
  · exact he

lemma hold (hS : c.Shares) (k : ℕ) (h : Holder) : (c.hold k h).Shares :=
  hS.mapTeam id (hS.unbegun k) fun g hg => List.mem_append_left _ (hS.claims k g hg)

/-! ### Threads -/

/-- A thread goes on with its task, outside launch loops. -/
lemma mapExec (hS : c.Shares) (t : ℕ) {f : Exec → Exec} (hj : ∀ x, (f x).journey = x.journey)
    (hs : ∀ x, (f x).start = x.start) (hg : ∀ x k, (f x).stage ≠ .loop k) :
    (c.mapExec t f).Shares := by
  have hexec : ∀ u y, (c.mapExec t f).exec u = some y →
      ∃ x, c.exec u = some x ∧ (y = x ∨ y = f x) := by
    intro u y hy
    rw [exec_mapExec] at hy
    split_ifs at hy with hu
    · subst hu
      obtain ⟨x, hx, rfl⟩ := Option.map_eq_some_iff.mp hy
      exact ⟨x, hx, .inr rfl⟩
    · exact ⟨y, hy, .inl rfl⟩
  have hloop : ∀ u y k, (c.mapExec t f).exec u = some y → y.stage = .loop k →
      c.exec u = some y := by
    intro u y k hy hk
    obtain ⟨x, hx, rfl | rfl⟩ := hexec u y hy
    · exact hx
    · exact absurd hk (hg x k)
  have hstarts : ∀ p i, (c.mapExec t f).StartsAt p i → c.StartsAt p i := by
    intro p i h
    cases p with
    | none => exact h
    | some u =>
      obtain ⟨y, hy, h₁, h₂⟩ := h
      obtain ⟨x, hx, rfl | rfl⟩ := hexec u y hy
      · exact ⟨y, hx, h₁, h₂⟩
      · exact ⟨x, hx, hj x ▸ h₁, hs x ▸ h₂⟩
  exact hS.distribute hloop (fun p i h => ⟨p, hstarts p i h⟩) hS.once (hS.excl.mono hstarts)

lemma setStage (hS : c.Shares) (t : ℕ) {g : Stage} (hg : ∀ k, g ≠ .loop k) :
    (c.setStage t g).Shares :=
  hS.mapExec t (fun _ => rfl) (fun _ => rfl) fun _ => hg

/-- A thread is done with its task. -/
lemma giveUp (hS : c.Shares) (t : ℕ) (x : Exec) : (c.giveUp t x).Shares := by
  have hstarts : ∀ p i, (c.giveUp t x).StartsAt p i → c.StartsAt p i := by
    intro p i h
    cases p with
    | none => exact h
    | some u => exact h.imp fun y hy => ⟨(exec_of_giveUp hy.1).2, hy.2⟩
  exact hS.distribute (fun _ _ _ hy _ => (exec_of_giveUp (x := x) hy).2)
    (fun p i h => ⟨p, hstarts p i h⟩) hS.once (hS.excl.mono hstarts)

/-- A thread takes a task off its scheduler. -/
lemma take (hS : c.Shares) {x : Task} (hx : x ∈ c.posted) (t : ℕ) : (c.take t x).Shares := by
  have hloop : ∀ u y k, (c.take t x).exec u = some y → y.stage = .loop k →
      c.exec u = some y := by
    intro u y k hy hk
    obtain hy | ⟨-, rfl⟩ := exec_of_take hy
    · exact hy
    · cases hk
  have hposted : ∀ i, (c.take t x).StartsAt none i → c.StartsAt none i :=
    fun i h => h.imp fun y hy => ⟨List.mem_of_mem_erase hy.1, hy.2⟩
  have hthread : ∀ u i, (c.take t x).StartsAt (some u) i → c.StartsAt (some u) i ∨
      (u = t ∧ i = x.journey ∧ x.start = true) := by
    rintro u i ⟨y, hy, hi, hs⟩
    obtain hy | ⟨hu, rfl⟩ := exec_of_take hy
    · exact .inl ⟨y, hy, hi, hs⟩
    · exact .inr ⟨hu, hi.symm, hs⟩
  have hsome : ∀ p i, (c.take t x).StartsAt p i → ∃ q, c.StartsAt q i := by
    intro p i h
    cases p with
    | none => exact ⟨none, hposted i h⟩
    | some u =>
      obtain h | ⟨-, rfl, hs⟩ := hthread u i h
      · exact ⟨some u, h⟩
      · exact ⟨none, x, hx, rfl, hs⟩
  have honce : ((c.posted.erase x).filter fun y => y.start).Sublist
      (c.posted.filter fun y => y.start) := List.erase_sublist.filter _
  refine hS.distribute hloop hsome (hS.once.sublist (honce.map _)) ?_
  · by_cases hs : x.start = true
    · -- the right to start the journey goes from the scheduler to the thread
      have hfrom : c.StartsAt none x.journey := ⟨x, hx, rfl, hs⟩
      refine hS.excl.move hfrom (some t) (fun _ h => ?_) fun p i h => ?_
      · obtain ⟨y, hy, hj, hys⟩ := h
        have hperm : c.starts.Perm (x.journey :: (c.take t x).starts) := by
          have := (List.perm_cons_erase hx).filter fun y => y.start
          rw [List.filter_cons_of_pos hs] at this
          exact this.map Task.journey
        have hnd := hperm.nodup_iff.mp hS.once
        exact (List.nodup_cons.mp hnd).1 (mem_starts.mpr ⟨y, hy, hj, hys⟩)
      · cases p with
        | none => exact .inl (hposted i h)
        | some u => exact (hthread u i h).imp id fun h => ⟨congrArg some h.1, h.2.1⟩
    · refine hS.excl.mono fun p i h => ?_
      cases p with
      | none => exact hposted i h
      | some u => exact (hthread u i h).resolve_right fun h => hs h.2.2

/-! ### Children -/

/-- The coroutine is entered; the handler of a child holds a copy. -/
lemma start (hS : c.Shares) (j : ℕ) : (c.start j).Shares := by
  simp only [Relay.start]
  split_ifs with hg
  case neg => exact { hS with }
  have hb : j ≤ c.created := hS.born j (.inl hg.1)
  split
  case h_1 k hk =>
    have hmem : .coro j ∈ ((c.hold k (.coro j)).team k).holders := by
      rw [Relay.hold, team_mapTeam, if_pos rfl]
      exact List.mem_append_right _ (List.mem_singleton_self _)
    show ((c.hold k (.coro j)).mapRunner j fun r => { r with
      started := true, running := true, place := .here, log := r.log ++ [.start] }).Shares
    refine (hS.hold k (.coro j)).mapRunner_of_holds rfl (fun _ => hb) fun _ n hn => ?_
    obtain rfl : k = n := Option.some_injective _ (hk.symm.trans hn)
    exact hmem
  case h_2 hn =>
    refine hS.mapRunner_of_holds rfl (fun _ => hb) fun _ k hk => ?_
    rw [hn] at hk
    cases hk

/-- A journey is created. If it is a child of `k`, its first task holds a copy. -/
lemma create (hS : c.Shares) (d : ℕ) {r : Option ℕ} {g : ℕ → Team}
    (hkind : ∀ n, (g n).began = (c.team n).began ∧ (g n).counter = (c.team n).counter)
    (hold : ∀ n, ∀ h ∈ (c.team n).holders, h ∈ (g n).holders)
    (hr : ∀ k, r = some k → (c.team k).began = true ∧ .task (c.created + 1) ∈ (g k).holders) :
    ({ c.create d r with team := g } : Relay).Shares := by
  set c' : Relay := { c.create d r with team := g } with hc'
  have hrunner : ∀ i, c'.runner i = if i = c.created + 1 then
      { c.runner (c.created + 1) with
        alive := true, sched := d, role := r
        log := (c.runner (c.created + 1)).log ++ [.create] } else c.runner i :=
    fun i => Function.update_apply _ _ _ _
  have hposted : c'.posted =
      c.posted ++ [⟨(c'.runner (c.created + 1)).sched, c.created + 1, true⟩] := rfl
  have hstarts : ∀ p i, c'.StartsAt p i → c.StartsAt p i ∨ (p = none ∧ i = c.created + 1) := by
    intro p i h
    cases p with
    | some u => exact .inl h
    | none =>
      obtain ⟨x, hx, hj, hs⟩ := h
      rw [hposted] at hx
      rcases List.mem_append.mp hx with hx | hx
      · exact .inl ⟨x, hx, hj, hs⟩
      · obtain rfl := List.mem_singleton.mp hx
        exact .inr ⟨rfl, hj.symm⟩
  have hfresh : ∀ p, ¬ c.StartsAt p (c.created + 1) := fun p h =>
    absurd (hS.bound p _ h) (Nat.not_succ_le_self _)
  have hrole : ∀ i k, (c'.runner i).role = some k →
      (i ≠ c.created + 1 ∧ (c.runner i).role = some k) ∨ (i = c.created + 1 ∧ r = some k) := by
    intro i k h
    rw [hrunner] at h
    split_ifs at h with hi
    · exact .inr ⟨hi, h⟩
    · exact .inl ⟨hi, h⟩
  constructor
  · intro k hk
    rw [(hkind k).1] at hk
    rw [(hkind k).2]
    exact hS.unbegun k hk
  · intro i k h
    rw [(hkind k).1]
    obtain ⟨-, h⟩ | ⟨-, h⟩ := hrole i k h
    · exact hS.role i k h
    · exact (hr k h).1
  · intro t x k hx h
    rw [(hkind k).1]
    exact hS.loop t x k hx h
  · exact hS.alone
  · intro k h hc
    cases h with
    | loop => exact hold k _ (hS.claims k .loop hc)
    | task i =>
      obtain ⟨hi, p, hp⟩ := hc
      obtain ⟨hne, hik⟩ | ⟨rfl, hrk⟩ := hrole i k hi
      · obtain hp | ⟨-, rfl⟩ := hstarts p i hp
        · exact hold k _ (hS.claims k (.task i) ⟨hik, p, hp⟩)
        · exact absurd rfl hne
      · exact (hr k hrk).2
    | coro i =>
      obtain ⟨hi, hs⟩ := hc
      rw [hrunner] at hs
      split_ifs at hs with hne
      · exact absurd (hS.born _ (.inr hs)) (Nat.not_succ_le_self _)
      · have hik := ((hrole i k hi).resolve_right fun h => hne h.1).2
        exact hold k _ (hS.claims k (.coro i) ⟨hik, hs⟩)
  · intro p i h
    obtain h | ⟨-, rfl⟩ := hstarts p i h
    · exact Nat.le_succ_of_le (hS.bound p i h)
    · exact Nat.le_refl _
  · have hs : c'.starts = c.starts ++ [c.created + 1] := by
      simp [starts, hposted]
    rw [hs]
    refine List.nodup_append.mpr ⟨hS.once, List.nodup_singleton _, ?_⟩
    rintro i hi _ hj rfl
    obtain rfl := List.mem_singleton.mp hj
    exact hfresh none (mem_starts.mp hi)
  · exact hS.excl.issue none hfresh hstarts
  · intro i h
    by_cases hi : i = c.created + 1
    · exact hi.le
    · rw [hrunner, if_neg hi] at h
      exact Nat.le_succ_of_le (hS.born i h)

lemma launch (hS : c.Shares) (hb : (c.team k).began = true) (d : ℕ) : (c.launch k d).Shares := by
  have hteam : ∀ n, (c.launch k d).team n = if n = k then
      { c.team k with holders := (c.team k).holders ++ [.task (c.created + 1)] } else c.team n :=
    fun n => Function.update_apply _ _ _ _
  refine hS.create d (r := some k) (g := (c.launch k d).team) (fun n => ?_) (fun n h hh => ?_)
    fun n hn => ?_
  · rw [hteam]
    split_ifs with hn
    · rw [hn]
      exact ⟨rfl, rfl⟩
    · exact ⟨rfl, rfl⟩
  · rw [hteam]
    split_ifs with hn
    · exact List.mem_append_left _ (hn ▸ hh)
    · exact hh
  · obtain rfl : k = n := Option.some_injective _ hn
    rw [hteam, if_pos rfl]
    exact ⟨hb, List.mem_append_right _ (List.mem_singleton_self _)⟩

/-- The launch loop of a group is entered. -/
lemma begin (hS : c.Shares) (hb : (c.team k).began = false) (t : ℕ) :
    ((c.mapTeam k fun x => { x with began := true, holders := [.loop] }).setStage t
      (.loop k)).Shares := by
  -- nobody holds a copy of a group that has not begun
  have hno : ∀ h, ¬ c.Claims k h := by
    intro h hc
    have : (c.team k).began = true := by
      cases h with
      | loop =>
        obtain ⟨u, x, hx, hk⟩ := hc
        exact hS.loop u x k hx hk
      | task i => exact hS.role i k hc.1
      | coro i => exact hS.role i k hc.1
    rw [hb] at this
    cases this
  set c' := (c.mapTeam k fun x => { x with began := true, holders := [.loop] }).setStage t
    (.loop k) with hc'
  have hteam : ∀ n, c'.team n =
      if n = k then { c.team k with began := true, holders := [.loop] } else c.team n :=
    fun n => Function.update_apply _ _ _ _
  have hbegan : ∀ n, (c.team n).began = true → (c'.team n).began = true := by
    intro n hn
    rw [hteam]
    split_ifs
    · rfl
    · exact hn
  have hexec : ∀ u y, c'.exec u = some y →
      c.exec u = some y ∨ (u = t ∧ ∃ x, c.exec u = some x ∧ y = { x with stage := .loop k }) := by
    intro u y hy
    have hy : Function.update c.exec t ((c.exec t).map fun x => { x with stage := .loop k }) u =
      some y := hy
    rw [Function.update_apply] at hy
    split_ifs at hy with hu
    · subst hu
      obtain ⟨x, hx, rfl⟩ := Option.map_eq_some_iff.mp hy
      exact .inr ⟨rfl, x, hx, rfl⟩
    · exact .inl hy
  have hstarts : ∀ p i, c'.StartsAt p i → c.StartsAt p i := by
    intro p i h
    cases p with
    | none => exact h
    | some u =>
      obtain ⟨y, hy, hi, hs⟩ := h
      obtain hy | ⟨-, x, hx, rfl⟩ := hexec u y hy
      · exact ⟨y, hy, hi, hs⟩
      · exact ⟨x, hx, hi, hs⟩
  have hloop : ∀ u y n, c'.exec u = some y → y.stage = .loop n →
      (n ≠ k ∧ c.exec u = some y) ∨ (n = k ∧ u = t) := by
    intro u y n hy hn
    obtain hold | ⟨hu, x, hx, rfl⟩ := hexec u y hy
    · refine .inl ⟨?_, hold⟩
      rintro rfl
      exact hno .loop ⟨u, y, hold, hn⟩
    · exact .inr ⟨(Stage.loop.inj hn).symm, hu⟩
  constructor
  · intro n hn
    rw [hteam] at hn ⊢
    split_ifs at hn ⊢ with h
    · exact hS.unbegun n hn
  · exact fun i n h => hbegan n (hS.role i n h)
  · intro u y n hy hn
    obtain ⟨-, hy⟩ | ⟨rfl, -⟩ := hloop u y n hy hn
    · exact hbegan n (hS.loop u y n hy hn)
    · rw [hteam, if_pos rfl]
  · intro u u' y y' n hy hy' hn hn'
    obtain ⟨hne, hy⟩ | ⟨rfl, hu⟩ := hloop u y n hy hn
    · obtain ⟨-, hy'⟩ | ⟨rfl, -⟩ := hloop u' y' n hy' hn'
      · exact hS.alone u u' y y' n hy hy' hn hn'
      · exact absurd rfl hne
    · obtain ⟨hne, -⟩ | ⟨-, hu'⟩ := hloop u' y' n hy' hn'
      · exact absurd rfl hne
      · rw [hu, hu']
  · intro n h hc
    by_cases hn : n = k
    · subst hn
      cases h with
      | loop =>
        rw [hteam, if_pos rfl]
        exact List.mem_singleton_self _
      | task i => exact absurd ⟨hc.1, hc.2.imp fun p hp => hstarts p i hp⟩ (hno (.task i))
      | coro i => exact absurd hc (hno (.coro i))
    · rw [hteam, if_neg hn]
      cases h with
      | loop =>
        obtain ⟨u, y, hy, hk⟩ := hc
        obtain ⟨-, hy⟩ | ⟨h, -⟩ := hloop u y n hy hk
        · exact hS.claims n .loop ⟨u, y, hy, hk⟩
        · exact absurd h hn
      | task i => exact hS.claims n (.task i) ⟨hc.1, hc.2.imp fun p hp => hstarts p i hp⟩
      | coro i => exact hS.claims n (.coro i) hc
  · exact fun p i h => hS.bound p i (hstarts p i h)
  · exact hS.once
  · exact hS.excl.mono hstarts
  · exact hS.born

/-! ### Every hop -/

/-- After its stage changed, nobody executes the loop of the group. -/
lemma not_claims_loop (hS : c.Shares) (h : c.stage t j = some (.loop k)) :
    ¬ (c.setStage t .finishing).Claims k .loop := by
  rintro ⟨u, y, hy, hk⟩
  obtain ⟨x, hx, -, hxk⟩ := stage_eq_some_iff.mp h
  have hy : Function.update c.exec t ((c.exec t).map fun x => { x with stage := .finishing }) u =
    some y := hy
  rw [Function.update_apply] at hy
  split_ifs at hy with hu
  · obtain ⟨z, -, rfl⟩ := Option.map_eq_some_iff.mp hy
    cases hk
  · exact hu (hS.alone u t y x k hy hx hk hxk)

lemma began_of_stage (hS : c.Shares) (h : c.stage t j = some (.loop k)) :
    (c.team k).began = true := by
  obtain ⟨x, hx, -, hk⟩ := stage_eq_some_iff.mp h
  exact hS.loop t x k hx hk

/-- When the first task of a child is gone, there is no other. -/
lemma not_claims_task (hS : c.Shares) {x : Exec} (hx : c.exec t = some x) (hs : x.start = true)
    (k : ℕ) : ¬ (c.giveUp t x).Claims k (.task x.journey) := by
  rintro ⟨-, p, hp⟩
  have hfrom : c.StartsAt (some t) x.journey := ⟨x, hx, rfl, hs⟩
  cases p with
  | none => cases hS.excl (show c.StartsAt none x.journey from hp) hfrom
  | some u =>
    obtain ⟨y, hy, hj, hys⟩ := hp
    obtain ⟨hu, hy⟩ := exec_of_giveUp hy
    exact hu (Option.some_injective _
      (hS.excl (show c.StartsAt (some u) x.journey from ⟨y, hy, hj, hys⟩) hfrom))

lemma not_claims_coro (c : Relay) (t j k : ℕ) : ¬ (c.endCoro t j).Claims k (.coro j) := by
  rintro ⟨-, hs⟩
  have hs : ((c.mapRunner j fun r => { r with
      started := false, log := r.log ++ [.finish] }).runner j).started = true := hs
  rw [runner_mapRunner, if_pos rfl] at hs
  cases hs

lemma yield (hS : c.Shares) (t j : ℕ) (d : Deferred) : (c.yield t j d).Shares :=
  (hS.mapRunner rfl id id).setStage t nofun

lemma newTeam (hS : c.Shares) (j : ℕ) (kind : GroupKind) : (c.newTeam j kind).Shares := by
  have hm : (c.mapTeam c.teams fun x => { x with kind := kind, owner := j }).Shares :=
    hS.mapTeam id (hS.unbegun _) (hS.claims _)
  exact { hm with }

lemma answer (hS : c.Shares) (hW : c.Waits) {d : Deferred}
    (hd : (c.runner j).deferHandler = some d) (t : ℕ) :
    ((c.mapRunner j fun r => { r with deferHandler := none }).answer t j d).Shares := by
  have hr : (c.mapRunner j fun r => { r with deferHandler := none }).Shares :=
    hS.mapRunner rfl id id
  cases d with
  | proceed => exact (hr.proceed j).setStage t nofun
  | launch k => exact hr.begin (hW.prepared j _ hd).2.2 t
  | setProceed w =>
    have hs : (((c.mapRunner j fun r => { r with deferHandler := none }).mapSeat w fun x =>
        { x with phase := .armed }).mapLine (c.seat w).channel fun x =>
          { x with mutex := none }).Shares := { hr with }
    exact hs.setStage t nofun
  | startIo i =>
    have hi : ((c.mapRunner j fun r => { r with deferHandler := none }).mapErrand i fun x =>
        { x with pending := true }).Shares := { hr with }
    exact hi.setStage t nofun

lemma hop {stray : Prop} {c' : Relay} (hS : c.Shares) (hW : c.Waits) (h : Hop stray c c') :
    c'.Shares := by
  cases h with
  | create d => exact hS.create d (fun _ => ⟨rfl, rfl⟩) (fun _ _ => id) (by simp)
  | dispatch t k ht hk hs =>
    have hx := hS.take hk t
    unfold Relay.dispatch
    split_ifs
    · exact hx.start _
    · simp only [Relay.resume]
      split_ifs
      · exact hx.mapRunner rfl id id
      · exact { hx with }
  | leave t j h => exact hS.mapRunner rfl id id
  | move hm t j d h hp => exact hS.mapRunner rfl id id
  | depart t j d h =>
    have hm : (c.move j d).Shares := hS.mapRunner rfl id id
    exact hm.yield t j _
  | newTeam j kind => exact hS.newTeam j kind
  | newSeat j l hm => exact { hS with }
  | newErrand j => exact { hS with }
  | goGroup t j kind h => exact (hS.newTeam j kind).yield t j _
  | get t j l h hm =>
    have hn : (c.newSeat j l).Shares := { hS with }
    exact hn.yield t j _
  | deferIo t j h =>
    have hn : (c.newErrand j).Shares := { hS with }
    exact hn.yield t j _
  | save t j threw h =>
    exact (hS.mapRunner rfl id id).mapExec t (fun _ => rfl) (fun _ => rfl) (by simp)
  | delete t j h hd =>
    have hr : (c.mapRunner j fun r => { r with
        alive := false, log := r.log ++ [.delete] }).Shares :=
      hS.mapRunner rfl (fun h => Bool.noConfusion h) id
    have hd' : ({ c.mapRunner j fun r => { r with alive := false, log := r.log ++ [.delete] } with
      destroyed := c.destroyed + 1 } : Relay).Shares := { hr with }
    exact hd'.setStage t (by simp)
  | answer t j d h hd => exact hS.answer hW hd t
  | launch t j k d h => exact hS.launch (hS.began_of_stage h) d
  | endLoop t j k h =>
    have hs : (c.setStage t .finishing).Shares := hS.setStage t (by simp)
    exact hs.release (hS.began_of_stage h) (hS.not_claims_loop h)
  | drop t x h hx => exact hS.giveUp t x
  | finish t k x h hx hs hr =>
    exact (hS.giveUp t x).release (hS.role _ k hr) (hS.not_claims_task h hs k)
  | win t j k h hr hk => exact hS.bump (hS.role j k hr)
  | endCoro t j h hr => exact (hS.mapRunner rfl id fun h => Bool.noConfusion h).setStage t (by simp)
  | endChild t j k h hr =>
    have he : (c.endCoro t j).Shares :=
      (hS.mapRunner rfl id fun h => Bool.noConfusion h).setStage t (by simp)
    exact he.release (hS.role j k hr) (not_claims_coro c t j k)
  | pop t l w ws hm hl hh => exact { hS with }
  | sweep t l hm hh => exact { hS with }
  | fire t w ws h =>
    rw [hW.fire_eq h]
    have hf : ((c.setHand t ws).mapSeat w fun x => { x with phase := .fired }).Shares :=
      { hS with }
    exact hf.proceed _
  | complete i h =>
    have hc : (c.mapErrand i fun x => { x with pending := false }).Shares := { hS with }
    exact hc.proceed _

end Shares

end Relay

end Synca
