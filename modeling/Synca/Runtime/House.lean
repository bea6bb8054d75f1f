import Synca.Runtime.Kin

/-!
# Nothing that waits is forgotten

A journey that was created or proceeded has its task, one that is leaving its stack has the thread
that leaves it, and each copy of the pointer of a group is where its holder says. So a group that
waits is waited for by something that will go on.
-/

namespace Synca

open Transition Relay

namespace Clan

variable {c c' : Clan} {t j k : ℕ}

lemma exec_bump (c : Clan) (k : ℕ) (f : Group → Group) : (c.bump k f).exec = c.exec := by
  unfold bump
  split_ifs <;> rfl

lemma exec_release (c : Clan) (k : ℕ) (x : Holder) : (c.release k x).exec = c.exec := by
  unfold release
  simp only
  split_ifs
  · unfold settle
    split
    · rfl
    · rfl
    · exact exec_bump _ _ _
  · rfl

/-- A thread switches away from journey `j`. -/
def Attended (c : Clan) (j : ℕ) : Prop :=
  ∃ t x, c.exec t = some x ∧ x.journey = j ∧ (x.stage = .switched ∨ x.stage = .exiting)

structure House (c : Clan) : Prop where
  created : ∀ j, (c.member j).log.getLast? = some .create → (j, true) ∈ c.posted
  proceeded : ∀ j, (c.member j).log.getLast? = some .proceed → (j, false) ∈ c.posted
  attended : ∀ j, (c.member j).handler ≠ none → c.Attended j

namespace House

lemma congr (h : c.House) (hm : c'.member = c.member) (hp : c'.posted = c.posted)
    (he : c'.exec = c.exec) : c'.House := by
  refine ⟨fun j => ?_, fun j => ?_, fun j => ?_⟩
  · rw [hm, hp]
    exact h.created j
  · rw [hm, hp]
    exact h.proceeded j
  · rw [hm, Attended, he]
    exact h.attended j

/-- Member `j` takes a step that needs no task. -/
lemma mapMember (h : c.House) {f : Member → Member}
    (hlog : (f (c.member j)).log = (c.member j).log ∨
      ∃ e, (f (c.member j)).log = (c.member j).log ++ [e] ∧ e ≠ .create ∧ e ≠ .proceed)
    (hd : (f (c.member j)).handler ≠ none → c.Attended j) : (c.mapMember j f).House := by
  have hlast : ∀ e, e = LifeEvent.create ∨ e = .proceed →
      (f (c.member j)).log.getLast? = some e → (c.member j).log.getLast? = some e := by
    intro e he hl
    rcases hlog with hs | ⟨e', hs, hc, hp⟩
    · rwa [hs] at hl
    · rw [hs, List.getLast?_concat] at hl
      obtain rfl : e' = e := Option.some_injective _ hl
      rcases he with rfl | rfl
      · exact absurd rfl hc
      · exact absurd rfl hp
  refine ⟨fun i hi => ?_, fun i hi => ?_, fun i hi => ?_⟩ <;>
    simp only [Clan.mapMember, Function.update_apply] at hi <;> split_ifs at hi with hij
  · exact hij ▸ h.created j (hlast _ (.inl rfl) hi)
  · exact h.created i hi
  · exact hij ▸ h.proceeded j (hlast _ (.inr rfl) hi)
  · exact h.proceeded i hi
  · exact hij ▸ hd hi
  · exact h.attended i hi

lemma record (h : c.House) (j : ℕ) {e : LifeEvent} (hc : e ≠ .create) (hp : e ≠ .proceed) :
    (c.record j e).House :=
  h.mapMember (.inr ⟨e, rfl, hc, hp⟩) (h.attended j)

lemma place (h : c.House) (j : ℕ) (x : Ctx) : (c.place j x).House :=
  h.mapMember (.inl rfl) (h.attended j)

/-- A member comes to life, or goes on, and its task is posted. -/
lemma post (h : c.House) {f : Member → Member} {e : LifeEvent} {b : Bool}
    (hf : (f (c.member j)).log = (c.member j).log ++ [e])
    (hb : e = if b then .create else .proceed)
    (hd : (f (c.member j)).handler = (c.member j).handler) :
    ((c.mapMember j f).post j b).House := by
  have hlast : (f (c.member j)).log.getLast? = some e := by rw [hf, List.getLast?_concat]
  refine ⟨fun i hi => ?_, fun i hi => ?_, fun i hi => ?_⟩ <;>
    simp only [Clan.post, Clan.mapMember, Function.update_apply] at hi ⊢ <;>
    split_ifs at hi with hij
  · rw [hlast, hb] at hi
    cases b
    · cases hi
    · exact .inl (by rw [hij])
  · exact .inr (h.created i hi)
  · rw [hlast, hb] at hi
    cases b
    · exact .inl (by rw [hij])
    · cases hi
  · exact .inr (h.proceeded i hi)
  · rw [hd] at hi
    exact hij ▸ h.attended j hi
  · exact h.attended i hi

lemma proceed (h : c.House) (j : ℕ) : (c.proceed j).House := h.post rfl rfl rfl

lemma create (h : c.House) (r : Option (ℕ × ℕ)) : (c.create r).House :=
  (h.post (j := c.created + 1) (b := true)
    (f := fun m => { m with role := r, log := m.log ++ [.create] }) rfl rfl rfl).congr rfl rfl rfl

lemma bump (h : c.House) (k : ℕ) (f : Group → Group) : (c.bump k f).House := by
  unfold Clan.bump
  split_ifs
  · exact (h.proceed (c.group k).owner).congr rfl rfl rfl
  · exact h.congr rfl rfl rfl

lemma release (h : c.House) (k : ℕ) (x : Holder) : (c.release k x).House := by
  have h' : (c.mapGroup k fun y => { y with holders := y.holders.erase x }).House :=
    h.congr rfl rfl rfl
  unfold Clan.release
  simp only
  split_ifs
  · unfold settle
    split
    · exact h'.proceed _
    · exact h'
    · exact h'.bump _ _
  · exact h'

/-- A thread goes on; if it was leaving a stack, it still does or has no handler left to call. -/
lemma setExec (h : c.House) {y : Option Exec} (hy : ∀ x, c.exec t = some x →
    (x.stage = .switched ∨ x.stage = .exiting) → (c.member x.journey).handler ≠ none →
    ∃ x', y = some x' ∧ x'.journey = x.journey ∧ (x'.stage = .switched ∨ x'.stage = .exiting)) :
    { c with exec := Function.update c.exec t y : Clan }.House := by
  refine ⟨h.created, h.proceeded, fun i hi => ?_⟩
  obtain ⟨u, x, hx, rfl, hg⟩ := h.attended i hi
  by_cases hu : u = t
  · subst hu
    obtain ⟨x', rfl, hj, hg'⟩ := hy x hx hg hi
    exact ⟨u, x', Function.update_self _ _ _, hj, hg'⟩
  · exact ⟨u, x, by simp [Function.update_of_ne hu, hx], rfl, hg⟩

/-- A thread that executes user code, a loop or nothing more of its task goes on. -/
lemma mapExec (h : c.House) {f : Exec → Exec} (hf : ∀ x, c.exec t = some x →
    (x.stage ≠ .switched ∧ x.stage ≠ .exiting) ∨ (c.member x.journey).handler = none ∨
    (f x).journey = x.journey ∧ (f x).stage = .exiting) : (c.mapExec t f).House := by
  refine h.setExec fun x hx hg hd => ?_
  rcases hf x hx with ⟨hs, he⟩ | hn | ⟨hj, hs⟩
  · rcases hg with hg | hg
    · exact absurd hg hs
    · exact absurd hg he
  · exact absurd hn hd
  · exact ⟨f x, by rw [hx, Option.map_some], hj, .inr hs⟩

lemma giveUp (h : c.House) {x : Exec} (hx : c.exec t = some x) (hg : x.stage = .finishing) :
    (c.giveUp t).House := by
  refine h.setExec fun y hy hs _ => ?_
  obtain rfl : x = y := Option.some_injective _ (hx.symm.trans hy)
  rw [hg] at hs
  rcases hs with hs | hs <;> cases hs

/-- A task is taken, and its journey starts or resumes. -/
lemma take (h : c.House) (ht : c.exec t = none) {x : Task} {f : Member → Member} {e : LifeEvent}
    (hf : (f (c.member x.journey)).log = (c.member x.journey).log ++ [e])
    (hc : e ≠ .create) (hp : e ≠ .proceed)
    (hd : (f (c.member x.journey)).handler = none) :
    ((c.take t x).mapMember x.journey f).House := by
  refine ⟨fun i hi => ?_, fun i hi => ?_, fun i hi => ?_⟩ <;>
    simp only [Clan.mapMember, Clan.take, Function.update_apply] at hi ⊢ <;>
    split_ifs at hi with hij
  · rw [hf, List.getLast?_concat] at hi
    exact absurd (Option.some_injective _ hi) hc
  · exact ⟨h.created i hi, hij⟩
  · rw [hf, List.getLast?_concat] at hi
    exact absurd (Option.some_injective _ hi) hp
  · exact ⟨h.proceeded i hi, hij⟩
  · exact absurd hd hi
  · obtain ⟨u, y, hy, hj, hg⟩ := h.attended i hi
    have hu : u ≠ t := by
      rintro rfl
      cases ht.symm.trans hy
    exact ⟨u, y, by simp [Function.update_of_ne hu, hy], hj, hg⟩

end House

/-! ### Holders -/

/-- Holder `h` of group `k` is where it says. -/
def Backs (c : Clan) (k : ℕ) : Holder → Prop
  | .loop   => ∃ t x, c.exec t = some x ∧ x.stage = .loop k
  | .task j => (∃ i, (c.member j).role = some (k, i)) ∧
    ((j, true) ∈ c.posted ∨ ∃ t x, c.exec t = some x ∧ x.journey = j ∧ x.start = true)
  | .coro j => (∃ i, (c.member j).role = some (k, i)) ∧ (c.member j).started = true

lemma holders_mapGroup (c : Clan) (k : ℕ) {f : Group → Group}
    (hf : ∀ x, (f x).holders = x.holders) (n : ℕ) :
    ((c.mapGroup k f).group n).holders = (c.group n).holders := by
  simp only [mapGroup, Function.update_apply]
  split_ifs with hn
  · rw [hf, hn]
  · rfl

structure Backed (c : Clan) : Prop where
  nodup : ∀ k, (c.group k).holders.Nodup
  backs : ∀ k, ∀ h ∈ (c.group k).holders, c.Backs k h

def Keeps (c c' : Clan) : Prop := ∀ k h, c.Backs k h → c'.Backs k h

namespace Keeps

variable {c'' : Clan}

lemma of_eq (hm : c'.member = c.member) (hp : c'.posted = c.posted) (he : c'.exec = c.exec) :
    c.Keeps c' := by
  intro k h hb
  cases h <;> simpa only [Backs, hm, hp, he] using hb

lemma trans (h : c.Keeps c') (h' : c'.Keeps c'') : c.Keeps c'' := fun k x hb => h' k x (h k x hb)

lemma mapMember {f : Member → Member}
    (hr : (c.member j).role ≠ none → (f (c.member j)).role = (c.member j).role)
    (hs : (c.member j).started = true → (f (c.member j)).started = true) :
    c.Keeps (c.mapMember j f) := by
  have hrole : ∀ n r, (c.member n).role = some r →
      ((c.mapMember j f).member n).role = some r := by
    intro n r h
    simp only [Clan.mapMember, Function.update_apply]
    split_ifs with hn
    · subst hn
      rw [hr (by simp [h]), h]
    · exact h
  intro k h hb
  cases h with
  | loop => exact hb
  | task n =>
    obtain ⟨⟨i, hi⟩, hp⟩ := hb
    exact ⟨⟨i, hrole n _ hi⟩, hp⟩
  | coro n =>
    obtain ⟨⟨i, hi⟩, hst⟩ := hb
    refine ⟨⟨i, hrole n _ hi⟩, ?_⟩
    simp only [Clan.mapMember, Function.update_apply]
    split_ifs with hn
    · exact hs (hn ▸ hst)
    · exact hst

lemma post (c : Clan) (j : ℕ) (b : Bool) : c.Keeps (c.post j b) := by
  intro k h hb
  cases h with
  | loop => exact hb
  | task n => exact ⟨hb.1, hb.2.imp_left fun h => .inr h⟩
  | coro n => exact hb

/-- A thread goes on with its task; what it leaves is not the loop that counts. -/
lemma mapExec_of_ne {f : Exec → Exec} (hj : ∀ x, (f x).journey = x.journey)
    (hs : ∀ x, (f x).start = x.start) {h : Holder}
    (ht : h = .loop → ∀ x, c.exec t = some x → x.stage ≠ .loop k) (hb : c.Backs k h) :
    (c.mapExec t f).Backs k h := by
  cases h with
  | loop =>
    obtain ⟨u, x, hx, hg⟩ := hb
    have hu : u ≠ t := by
      rintro rfl
      exact ht rfl x hx hg
    exact ⟨u, x, by simp [Clan.mapExec, Function.update_of_ne hu, hx], hg⟩
  | task n =>
    refine ⟨hb.1, hb.2.imp_right ?_⟩
    rintro ⟨u, x, hx, hn, hst⟩
    by_cases hu : u = t
    · subst hu
      exact ⟨u, f x, by simp [Clan.mapExec, hx], (hj x).trans hn, (hs x).trans hst⟩
    · exact ⟨u, x, by simp [Clan.mapExec, Function.update_of_ne hu, hx], hn, hst⟩
  | coro n => exact hb

lemma mapExec {f : Exec → Exec} (hj : ∀ x, (f x).journey = x.journey)
    (hs : ∀ x, (f x).start = x.start) (ht : ∀ x k, c.exec t = some x → x.stage ≠ .loop k) :
    c.Keeps (c.mapExec t f) :=
  fun k _ => mapExec_of_ne hj hs fun _ x => ht x k

/-- A thread gives up its task, and a child that the task has started does not count. -/
lemma giveUp_of_ne {x : Exec} (hx : c.exec t = some x) (hg : x.stage = .finishing) {h : Holder}
    (ht : h = .task x.journey → x.start ≠ true) (hb : c.Backs k h) : (c.giveUp t).Backs k h := by
  have hexec : ∀ u y, c.exec u = some y → u ≠ t → (c.giveUp t).exec u = some y :=
    fun u y hy hu => by simp [Clan.giveUp, Function.update_of_ne hu, hy]
  have hself : ∀ y, c.exec t = some y → y = x := fun y hy =>
    Option.some_injective _ (hy.symm.trans hx)
  cases h with
  | loop =>
    obtain ⟨u, y, hy, hs⟩ := hb
    refine ⟨u, y, hexec u y hy ?_, hs⟩
    rintro rfl
    rw [hself y hy, hg] at hs
    cases hs
  | task n =>
    refine ⟨hb.1, hb.2.imp_right ?_⟩
    rintro ⟨u, y, hy, hn, hst⟩
    refine ⟨u, y, hexec u y hy ?_, hn, hst⟩
    rintro rfl
    rw [hself y hy] at hn hst
    exact ht (by rw [hn]) hst
  | coro n => exact hb

/-- The coroutine of journey `j` ends; its copy does not count. -/
lemma ended_of_ne {f : Member → Member} (hr : (f (c.member j)).role = (c.member j).role)
    {h : Holder} (hj : h ≠ .coro j) (hb : c.Backs k h) : (c.mapMember j f).Backs k h := by
  have hrole : ∀ n r, (c.member n).role = some r →
      ((c.mapMember j f).member n).role = some r := by
    intro n r h
    simp only [Clan.mapMember, Function.update_apply]
    split_ifs with hn
    · rw [hr, ← hn, h]
    · exact h
  cases h with
  | loop => exact hb
  | task n =>
    obtain ⟨⟨i, hi⟩, hp⟩ := hb
    exact ⟨⟨i, hrole n _ hi⟩, hp⟩
  | coro n =>
    obtain ⟨⟨i, hi⟩, hs⟩ := hb
    have hn : n ≠ j := fun h => hj (by rw [h])
    refine ⟨⟨i, hrole n _ hi⟩, ?_⟩
    simp only [Clan.mapMember, Function.update_of_ne hn]
    exact hs

lemma proceed (c : Clan) (j : ℕ) : c.Keeps (c.proceed j) :=
  (mapMember (j := j) (f := fun m => { m with log := m.log ++ [.proceed] }) (fun _ => rfl) id).trans
    (post _ _ _)

lemma create (h : (c.member (c.created + 1)).role = none) (r : Option (ℕ × ℕ)) :
    c.Keeps (c.create r) := by
  refine (mapMember (j := c.created + 1) (f := fun m =>
    { m with role := r, log := m.log ++ [.create] }) (fun hr => absurd h hr) id).trans ?_
  exact (of_eq rfl rfl rfl).trans (post { c.mapMember (c.created + 1) fun m =>
    { m with role := r, log := m.log ++ [.create] } with created := c.created + 1 } _ _)

lemma bump (c : Clan) (k : ℕ) (f : Group → Group) : c.Keeps (c.bump k f) := by
  unfold Clan.bump
  split_ifs
  · exact (proceed c _).trans (of_eq rfl rfl rfl)
  · exact of_eq rfl rfl rfl

lemma release (c : Clan) (k : ℕ) (x : Holder) : c.Keeps (c.release k x) := by
  have h' : c.Keeps (c.mapGroup k fun y => { y with holders := y.holders.erase x }) :=
    of_eq rfl rfl rfl
  unfold Clan.release
  simp only
  split_ifs
  · unfold settle
    split
    · exact h'.trans (proceed _ _)
    · exact h'
    · exact h'.trans (bump _ _ _)
  · exact h'

lemma place (c : Clan) (j : ℕ) (x : Ctx) : c.Keeps (c.place j x) := mapMember (fun _ => rfl) id

/-- The thread that takes a task now stands for it. -/
lemma take (ht : c.exec t = none) {x : Task}
    (hx : (x.journey, true) ∈ c.posted → x.start = true) : c.Keeps (c.take t x) := by
  have hexec : ∀ u y, c.exec u = some y → (c.take t x).exec u = some y := by
    intro u y hy
    have hu : u ≠ t := by
      rintro rfl
      cases ht.symm.trans hy
    simp [Clan.take, Function.update_of_ne hu, hy]
  intro k h hb
  cases h with
  | loop =>
    obtain ⟨u, y, hy, hg⟩ := hb
    exact ⟨u, y, hexec u y hy, hg⟩
  | task n =>
    refine ⟨hb.1, ?_⟩
    rcases hb.2 with hp | ⟨u, y, hy, h⟩
    · by_cases hn : n = x.journey
      · subst hn
        exact .inr ⟨t, _, Function.update_self _ _ _, rfl, hx hp⟩
      · exact .inl ⟨hp, hn⟩
    · exact .inr ⟨u, y, hexec u y hy, h⟩
  | coro n => exact hb

end Keeps

namespace Backed

lemma keeps (h : c.Backed) (hK : c.Keeps c')
    (hg : ∀ k, (c'.group k).holders = (c.group k).holders) : c'.Backed := by
  refine ⟨fun k => hg k ▸ h.nodup k, fun k x hx => ?_⟩
  exact hK k x (h.backs k x (hg k ▸ hx))

/-- Group `k` gets a new holder. -/
lemma push (h : c.Backed) (hK : c.Keeps c') {x : Holder} (hx : ¬ c.Backs k x) (hx' : c'.Backs k x)
    (hk : (c'.group k).holders = (c.group k).holders ++ [x])
    (hg : ∀ n, n ≠ k → (c'.group n).holders = (c.group n).holders) : c'.Backed := by
  constructor
  · intro n
    by_cases hn : n = k
    · rw [hn, hk]
      have hnot : x ∉ (c.group k).holders := fun hm => hx (h.backs k x hm)
      exact List.nodup_append.mpr ⟨h.nodup k, List.nodup_singleton x, by
        rintro a ha b hb rfl
        exact hnot (List.mem_singleton.mp hb ▸ ha)⟩
    · rw [hg n hn]
      exact h.nodup n
  · intro n y hy
    by_cases hn : n = k
    · rw [hn, hk, List.mem_append, List.mem_singleton] at hy
      rcases hy with hy | rfl
      · exact hn ▸ hK k y (h.backs k y hy)
      · exact hn ▸ hx'
    · rw [hg n hn] at hy
      exact hK n y (h.backs n y hy)

/-- The holders after a release. -/
lemma holders_release (c : Clan) (k : ℕ) (x : Holder) :
    ((c.release k x).group k).holders = (c.group k).holders.erase x ∧
      ∀ n, n ≠ k → ((c.release k x).group n).holders = (c.group n).holders := by
  rw [group_release]
  refine ⟨?_, fun n hn => ?_⟩
  · rw [Function.update_self, Group.holders_released]
  · rw [Function.update_of_ne hn]

/-- Holder `x` of group `k` goes, and no other. -/
lemma pop (h : c.Backed) {x : Holder} (hK : ∀ n y, (n ≠ k ∨ y ≠ x) → c.Backs n y → c'.Backs n y)
    (hk : (c'.group k).holders = (c.group k).holders.erase x)
    (hg : ∀ n, n ≠ k → (c'.group n).holders = (c.group n).holders) : c'.Backed := by
  constructor
  · intro n
    by_cases hn : n = k
    · rw [hn, hk]
      exact (h.nodup k).erase x
    · rw [hg n hn]
      exact h.nodup n
  · intro n y hy
    by_cases hn : n = k
    · subst hn
      rw [hk, (h.nodup n).mem_erase_iff] at hy
      exact hK n y (.inr hy.1) (h.backs n y hy.2)
    · rw [hg n hn] at hy
      exact hK n y (.inl hn) (h.backs n y hy)

end Backed

end Clan

namespace Runtime

variable {s s' : Runtime} {t j k i : ℕ} {a : Action}

lemma exec_clan_of_stage {g : Stage} (h : s.stage t j = some g) {x : Exec}
    (hx : s.clan.exec t = some x) : x.journey = j ∧ x.stage = g := by
  obtain ⟨y, hy, hj, hg⟩ := exec_of_stage h
  obtain rfl : y = x := Option.some_injective _ (hy.symm.trans hx)
  exact ⟨hj, hg⟩

theorem house_of_deed (hS : s.relay.Sound) (hD : s.Deed a s') (h : s.clan.House) :
    s'.clan.House := by
  have hplace : ∀ {t j g x}, s.stage t j = some g → g ≠ .switched → g ≠ .exiting →
      s.clan.exec t = some x → x.stage ≠ .switched ∧ x.stage ≠ .exiting := by
    intro t j g x hst hs he hx
    obtain ⟨-, rfl⟩ := exec_clan_of_stage hst hx
    exact ⟨hs, he⟩
  have htaken : ∀ {x : Task}, x ∈ s.posted → (s.clan.member x.journey).handler = none := by
    intro x hx
    have hlead := hS.lives.leads_posted (x := x) hx
    cases hs : x.start <;> rw [hs] at hlead
    · exact hlead.fits.no_handler (by simp) (by simp)
    · exact hlead.fits.no_handler (by simp) (by simp)
  have hyield : ∀ {c : Clan} {t j op d}, c.House → c.exec = s.clan.exec →
      s.stage t j = some .running → (c.yield t j op d).House := by
    intro c t j op d hc hce ht
    obtain ⟨x, hx, hj, hg⟩ := exec_of_stage ht
    have hx' : c.exec t = some x := by rw [hce]; exact hx
    have hset : (c.setStage t .switched).House := hc.mapExec fun y hy => by
      obtain rfl : x = y := Option.some_injective _ (hx'.symm.trans hy)
      exact .inl ⟨by simp [hg], by simp [hg]⟩
    have hatt : (c.setStage t .switched).Attended j := by
      refine ⟨t, { x with stage := .switched }, ?_, hj, .inl rfl⟩
      simp [Clan.setStage, Clan.mapExec, hx']
    exact hset.mapMember (f := fun m =>
        { m with ctx := .yielded op, handler := some d, log := m.log ++ [.yield] })
      (.inr ⟨.yield, rfl, by simp, by simp⟩) fun _ => hatt
  cases hD with
  | still hn h' => rwa [h']
  | proceeds i hn h' => exact h' ▸ h.proceed i
  | creates hn h' => exact h' ▸ h.create none
  | goes t j x hn ht hx hc h' => exact h' ▸ h.place j x
  | yields t j op hn ht hc hop h' => exact h' ▸ hyield h rfl ht
  | calls t j kind size hn ht hc hs h' =>
    exact h' ▸ hyield (c := s.clan.newGroup j kind size) (h.congr rfl rfl rfl) rfl ht
  | refuses t j kind size hn ht hc hs h' =>
    exact h' ▸ Clan.House.place (c := (s.clan.newGroup j kind size).quit s.groups)
      (h.congr rfl rfl rfl) j .user
  | leaves t j k ha hn ht hc h' =>
    exact h' ▸ Clan.House.place (c := s.clan.quit k) (h.congr rfl rfl rfl) j .user
  | starts t x hn hk hs h' =>
    rw [h']
    have hm : ((s.clan.take t x).mapMember x.journey fun m =>
        { m with ctx := .user, started := true, log := m.log ++ [.start] }).House :=
      h.take hk.1 (e := .start) rfl (by simp) (by simp) (htaken hk.2.2.1)
    unfold Clan.start
    cases ((s.clan.take t x).member x.journey).role with
    | none => exact hm
    | some r => exact hm.congr rfl rfl rfl
  | resumes t x op hn hk hs hc h' =>
    rw [h']
    exact h.take hk.1 (e := .resume) rfl (by simp) (by simp) (htaken hk.2.2.1)
  | saves t j b hn ht h' =>
    rw [h']
    refine (h.record j (e := .save) (by simp) (by simp)).mapExec fun x hx => ?_
    exact .inr (.inr ⟨rfl, rfl⟩)
  | deletes t j hn ht hd h' =>
    rw [h']
    refine (h.record j (e := .delete) (by simp) (by simp)).mapExec fun x hx => ?_
    obtain ⟨rfl, -⟩ := exec_clan_of_stage ht hx
    refine .inr (.inl ?_)
    simp only [Clan.record, Clan.mapMember, Function.update_self]
    exact hd
  | answers t j d hn ht hd h' =>
    rw [h']
    have hm : (s.clan.mapMember j fun m => { m with handler := none }).House :=
      h.mapMember (.inl rfl) (by simp)
    have hset : ∀ {c : Clan} (g : Stage), c.House → c.exec = s.clan.exec →
        (c.member j).handler = none → (c.setStage t g).House := by
      intro c g hc he hn
      refine hc.mapExec fun x hx => ?_
      rw [he] at hx
      obtain ⟨rfl, -⟩ := exec_clan_of_stage ht hx
      exact .inr (.inl hn)
    cases d with
    | proceed => exact hset _ (hm.proceed j) rfl (by simp [Clan.proceed, Clan.record, Clan.post,
        Clan.mapMember])
    | launch k => exact hset _ (hm.congr rfl rfl rfl) rfl (by simp [Clan.mapMember, Clan.mapGroup])
    | setProceed w => exact hset _ hm rfl (by simp [Clan.mapMember])
    | startIo i => exact hset _ hm rfl (by simp [Clan.mapMember])
  | launches t j k hn ht hlt h' =>
    exact h' ▸ (h.create (some (k, (s.group k).launched))).congr rfl rfl rfl
  | endsLoop t j k hn ht hge h' =>
    rw [h']
    refine (h.release k .loop).mapExec fun x hx => .inl (hplace ht (by simp) (by simp) ?_)
    rwa [Clan.exec_release] at hx
  | drops t x hn hx hg hr h' => exact h' ▸ h.giveUp hx hg
  | endsTask t x k i hn hx hg hs hr h' => exact h' ▸ (h.giveUp hx hg).release k _
  | rets t j v ha ht hc h' =>
    rw [h']
    have hm := h.place j .closing
    unfold Clan.ret
    cases (s.clan.member j).role with
    | none => exact hm
    | some r =>
      simp only
      split
      · exact hm.bump _ _
      · exact hm.bump _ _
      · exact hm
  | escapes t j ha hn ht hc h' => exact h' ▸ h.place j .closing
  | endsCoro t j hn ht hc h' =>
    rw [h']
    have hm : (s.clan.mapMember j fun m => { m with
        ctx := .ended, started := false, log := m.log ++ [.finish] }).House :=
      h.mapMember (.inr ⟨.finish, rfl, by simp, by simp⟩) (h.attended j)
    have hset := hm.mapExec (t := t) (f := fun x => { x with stage := .switched })
      fun x hx => .inl (hplace ht (by simp) (by simp) hx)
    unfold Clan.endCoro
    cases (s.clan.member j).role with
    | none => exact hset
    | some r => exact hset.release _ _

theorem backed_of_deed (hG : s.Grouped) (hD : s.Deed a s') (hT : s'.terminated = false)
    (h : s.clan.Backed) : s'.clan.Backed := by
  have hS := hG.sound
  have hexec : ∀ {t j g x k}, s.stage t j = some g → (∀ k, g ≠ .loop k) →
      s.clan.exec t = some x → x.stage ≠ .loop k := by
    intro t j g x k hst hg hx
    obtain ⟨-, rfl⟩ := exec_clan_of_stage hst hx
    exact hg k
  have hyield : ∀ {c : Clan} {t j op d}, s.clan.Keeps c → c.exec = s.clan.exec →
      s.stage t j = some .running → s.clan.Keeps (c.yield t j op d) := by
    intro c t j op d hc he ht
    have hm : c.Keeps (c.mapMember j fun m =>
      { m with ctx := .yielded op, handler := some d, log := m.log ++ [.yield] }) :=
      .mapMember (fun _ => rfl) id
    refine (hc.trans hm).trans (.mapExec (fun _ => rfl) (fun _ => rfl) fun x k hx => ?_)
    exact hexec ht (by simp) (he ▸ hx)
  cases hD with
  | still hn h' => rwa [h']
  | proceeds i hn h' => exact h' ▸ h.keeps (.proceed _ _) fun _ => rfl
  | creates hn h' =>
    exact h' ▸ h.keeps (.create (Kin.role_fresh hS (Nat.lt_succ_self _)) _) fun _ => rfl
  | goes t j x hn ht hx hc h' => exact h' ▸ h.keeps (.place _ _ _) fun _ => rfl
  | yields t j op hn ht hc hop h' =>
    exact h' ▸ h.keeps (hyield (.of_eq rfl rfl rfl) rfl ht) fun _ => rfl
  | calls t j kind size hn ht hc hs h' =>
    rw [h']
    refine h.keeps (hyield (c := s.clan.newGroup j kind size) (.of_eq rfl rfl rfl) rfl ht) ?_
    exact s.clan.holders_mapGroup s.groups
      (f := fun x => { x with kind := kind, owner := j, size := size }) fun _ => rfl
  | refuses t j kind size hn ht hc hs h' =>
    rw [h']
    have hk : s.clan.Keeps ((s.clan.newGroup j kind size).quit s.groups) := .of_eq rfl rfl rfl
    refine h.keeps (hk.trans (.place _ _ _)) fun n => ?_
    refine ((s.clan.newGroup j kind size).holders_mapGroup s.groups
      (f := fun x => { x with left := true }) (fun _ => rfl) n).trans ?_
    exact s.clan.holders_mapGroup s.groups
      (f := fun x => { x with kind := kind, owner := j, size := size }) (fun _ => rfl) n
  | leaves t j k ha hn ht hc h' =>
    rw [h']
    have hk : s.clan.Keeps (s.clan.quit k) := .of_eq rfl rfl rfl
    refine h.keeps (hk.trans (.place _ _ _)) ?_
    exact s.clan.holders_mapGroup k (f := fun x => { x with left := true }) fun _ => rfl
  | starts t x hn hk hs h' =>
    rw [h']
    have hlead := hS.lives.leads_posted (x := x) hk.2.2.1
    rw [if_pos hs] at hlead
    have hm : s.clan.Keeps ((s.clan.take t x).mapMember x.journey fun m =>
        { m with ctx := .user, started := true, log := m.log ++ [.start] }) :=
      (Clan.Keeps.take hk.1 fun _ => hs).trans (.mapMember (fun _ => rfl) fun _ => rfl)
    unfold Clan.start
    cases hr : ((s.clan.take t x).member x.journey).role with
    | none => exact h.keeps hm fun _ => rfl
    | some r =>
      have hold : ¬ s.clan.Backs r.1 (.coro x.journey) := fun hb => by
        cases hlead.fits.started.symm.trans hb.2
      refine h.push (k := r.1) (hm.trans (.of_eq rfl rfl rfl)) hold ⟨⟨r.2, ?_⟩, ?_⟩ ?_ ?_
      · simpa [Clan.hold, Clan.mapGroup, Clan.mapMember] using hr
      · simp [Clan.hold, Clan.mapGroup, Clan.mapMember]
      · simp [Clan.hold, Clan.mapGroup, Clan.mapMember, Clan.take]
      · intro n hn
        simp [Clan.hold, Clan.mapGroup, Clan.mapMember, Clan.take, Function.update_of_ne hn]
  | resumes t x op hn hk hs hc h' =>
    rw [h']
    have hlead := hS.lives.leads_posted (x := x) hk.2.2.1
    rw [if_neg (by simp [hs])] at hlead
    have hone : (x.journey, true) ∈ s.clan.posted → x.start = true := by
      rintro ⟨y, hy, hj, hys⟩
      have hlead' := hS.lives.leads_posted (x := y) hy
      rw [if_pos hys, hj] at hlead'
      cases Option.some_injective _ (hlead.after.symm.trans hlead'.after)
    exact h.keeps ((Clan.Keeps.take hk.1 hone).trans (.mapMember (fun _ => rfl) id)) fun _ => rfl
  | saves t j b hn ht h' =>
    rw [h']
    have hm : s.clan.Keeps (s.clan.record j .save) := .mapMember (fun _ => rfl) id
    refine h.keeps (hm.trans (.mapExec (fun _ => rfl) (fun _ => rfl) fun x k hx => ?_))
      fun _ => rfl
    exact hexec ht (by simp) hx
  | deletes t j hn ht hd h' =>
    rw [h']
    have hm : s.clan.Keeps (s.clan.record j .delete) := .mapMember (fun _ => rfl) id
    refine h.keeps (hm.trans (.mapExec (fun _ => rfl) (fun _ => rfl) fun x k hx => ?_))
      fun _ => rfl
    exact hexec ht (by simp) hx
  | answers t j d hn ht hd h' =>
    rw [h']
    have hm : s.clan.Keeps (s.clan.mapMember j fun m => { m with handler := none }) :=
      .mapMember (fun _ => rfl) id
    have hset : ∀ {c : Clan} (g : Stage), s.clan.Keeps c → c.exec = s.clan.exec →
        s.clan.Keeps (c.setStage t g) := by
      intro c g hc he
      refine hc.trans (.mapExec (fun _ => rfl) (fun _ => rfl) fun x k hx => ?_)
      exact hexec ht (by simp) (he ▸ hx)
    cases d with
    | proceed =>
      exact h.keeps (hset .finishing (hm.trans (.proceed _ j)) rfl) fun _ => rfl
    | setProceed w => exact h.keeps (hset .finishing hm rfl) fun _ => rfl
    | startIo i => exact h.keeps (hset .finishing hm rfl) fun _ => rfl
    | launch k =>
      obtain ⟨x, hx, -⟩ := exec_of_stage ht
      set c := (s.clan.mapMember j fun m => { m with handler := none }).answer t j (.launch k)
        with hc
      have hk : s.clan.Keeps c := hset (.loop k) (hm.trans (.of_eq rfl rfl rfl)) rfl
      have hgroup : ∀ n, (c.group n).holders =
          if n = k then [.loop] else (s.group n).holders := by
        intro n
        simp only [hc, Clan.answer, Clan.setStage, Clan.mapExec, Clan.mapGroup, Clan.mapMember,
          Function.update_apply]
        split_ifs <;> rfl
      refine ⟨fun n => ?_, fun n y hy => ?_⟩
      · rw [hgroup n]
        split_ifs
        · exact List.nodup_singleton _
        · exact h.nodup n
      · rw [hgroup n] at hy
        split_ifs at hy with hn
        · obtain rfl := List.mem_singleton.mp hy
          refine ⟨t, { x with stage := .loop k }, ?_, by rw [hn]⟩
          have hx' : s.clan.exec t = some x := hx
          simp [hc, Clan.answer, Clan.setStage, Clan.mapExec, Clan.mapGroup, Clan.mapMember, hx']
        · exact hk n y (h.backs n y hy)
  | launches t j k hn ht hlt h' =>
    rw [h']
    have hfresh := Kin.role_fresh hS (Nat.lt_succ_self s.created)
    have hk : s.clan.Keeps (s.clan.launch k) :=
      (Clan.Keeps.create hfresh _).trans (.of_eq rfl rfl rfl)
    have hold : ¬ s.clan.Backs k (.task (s.created + 1)) := by
      rintro ⟨⟨i, hi⟩, -⟩
      cases hfresh.symm.trans hi
    refine h.push (k := k) hk hold ⟨⟨(s.group k).launched, ?_⟩, .inl ?_⟩ ?_ ?_
    · simp [Clan.launch, Clan.hold, Clan.mapGroup, Clan.create, Clan.post, Clan.mapMember, clan]
    · simp [Clan.launch, Clan.hold, Clan.mapGroup, Clan.create, Clan.post, Clan.mapMember, clan]
    · simp [Clan.launch, Clan.hold, Clan.mapGroup, Clan.create, Clan.post, Clan.mapMember, clan]
    · intro n hn
      simp [Clan.launch, Clan.hold, Clan.mapGroup, Clan.create, Clan.post, Clan.mapMember, clan,
        Function.update_of_ne hn]
  | endsLoop t j k hn ht hge h' =>
    rw [h']
    obtain ⟨hk, hother⟩ := Clan.Backed.holders_release s.clan k .loop
    refine h.pop (x := .loop) (fun n y hy hb => ?_) hk hother
    refine Clan.Keeps.mapExec_of_ne (f := fun x => { x with stage := .finishing })
      (fun _ => rfl) (fun _ => rfl) ?_ (Clan.Keeps.release _ _ _ n y hb)
    rintro rfl x hx hs
    rw [Clan.exec_release] at hx
    obtain ⟨-, hg⟩ := exec_clan_of_stage ht hx
    cases hg.symm.trans hs
    exact hy.elim (fun h => h rfl) fun h => h rfl
  | drops t x hn hx hg hr h' =>
    rw [h']
    refine h.keeps (fun n y hb => Clan.Keeps.giveUp_of_ne hx hg ?_ hb) fun _ => rfl
    rintro rfl hs
    obtain ⟨⟨i, hi⟩, -⟩ := hb
    cases (hr hT hs).symm.trans hi
  | endsTask t x k i hn hx hg hs hr h' =>
    rw [h']
    obtain ⟨hk, hother⟩ := Clan.Backed.holders_release (s.clan.giveUp t) k (.task x.journey)
    refine h.pop (fun n y hy hb => Clan.Keeps.release _ _ _ n y ?_) hk hother
    refine Clan.Keeps.giveUp_of_ne hx hg ?_ hb
    rintro rfl
    obtain ⟨⟨i', hi'⟩, -⟩ := hb
    cases hr.symm.trans hi'
    exact absurd hy (by simp)
  | rets t j v ha ht hc h' =>
    rw [h']
    have hret : s.clan.Keeps (s.clan.ret j v) := by
      refine (Clan.Keeps.place _ j .closing).trans ?_
      unfold Clan.ret
      cases (s.clan.member j).role with
      | none => exact .of_eq rfl rfl rfl
      | some r =>
        simp only
        split
        · exact .bump _ _ _
        · exact .bump _ _ _
        · exact .of_eq rfl rfl rfl
    refine h.keeps hret fun n => ?_
    rw [Clan.group_ret]
    cases (s.clan.member j).role with
    | none => rfl
    | some r =>
      simp only [Function.update_apply]
      split_ifs with hn
      · rw [Group.holders_returned, hn]
      · rfl
  | escapes t j ha hn ht hc h' => exact h' ▸ h.keeps (.place _ _ _) fun _ => rfl
  | endsCoro t j hn ht hc h' =>
    rw [h']
    have hend : ∀ n y, y ≠ .coro j → s.clan.Backs n y → ((s.clan.mapMember j fun m => { m with
        ctx := .ended, started := false, log := m.log ++ [.finish] }).setStage t
        .switched).Backs n y := by
      intro n y hy hb
      refine Clan.Keeps.mapExec_of_ne (f := fun x => { x with stage := .switched })
        (fun _ => rfl) (fun _ => rfl) (fun _ x hx => ?_) (Clan.Keeps.ended_of_ne ?_ hy hb)
      · exact hexec ht (by simp) hx
      · rfl
    unfold Clan.endCoro
    cases hr : (s.clan.member j).role with
    | none =>
      refine h.keeps (fun n y hb => hend n y ?_ hb) fun _ => rfl
      rintro rfl
      obtain ⟨⟨i, hi⟩, -⟩ := hb
      cases hr.symm.trans hi
    | some r =>
      obtain ⟨hk, hother⟩ := Clan.Backed.holders_release
        ((s.clan.mapMember j fun m => { m with
          ctx := .ended, started := false, log := m.log ++ [.finish] }).setStage t .switched)
        r.1 (.coro j)
      refine h.pop (fun n y hy hb => Clan.Keeps.release _ _ _ n y (hend n y ?_ hb)) hk hother
      rintro rfl
      obtain ⟨⟨i, hi⟩, -⟩ := hb
      cases hr.symm.trans hi
      exact hy.elim (fun h => h rfl) fun h => h rfl

end Runtime

end Synca
