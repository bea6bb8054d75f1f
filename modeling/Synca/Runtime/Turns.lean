import Synca.Runtime.Deeds

/-!
# What becomes of one group and of one journey

A deed is seen here from a single group, and from a single journey. A group is opened, begun by its
launch loop, grows with each child, and shrinks until it is settled; a journey enters a call and
comes back from it.
-/

namespace Synca

open Transition Relay

namespace Group

variable {x : Group} {h : Holder} {i : ℕ} {v : Option ℕ}

/-- The counter is incremented; the first to do so writes `f`. -/
def count (x : Group) (f : Group → Group) : Group :=
  if x.counter = 0 then f { x with counter := x.counter + 1 }
  else { x with counter := x.counter + 1 }

/-- What the last holder leaves. -/
def settled (x : Group) : Group :=
  match x.kind with
  | .goAnyResult => x.count fun x => { x with result := none }
  | _            => x

def released (x : Group) (h : Holder) : Group :=
  let x' := { x with holders := x.holders.erase h }
  if x'.holders = [] then x'.settled else x'

/-- Child `i` has returned `v`. -/
def returned (x : Group) (i : ℕ) (v : Option ℕ) : Group :=
  match x.kind, v with
  | .goAnyWait,   _      => x.count fun x => { x with index := some i }
  | .goAnyResult, some r => x.count fun x => { x with result := some r }
  | _,            _      => x

/-- The owner was proceeded by the group. -/
def Answered (x : Group) : Prop :=
  x.began = true ∧ (x.kind = .goWait → x.holders = []) ∧ (x.kind ≠ .goWait → x.counter ≠ 0)

end Group

namespace Clan

variable (c : Clan) (t j k i : ℕ)

/-! ### Groups of a clan -/

lemma group_bump {f : Group → Group} :
    (c.bump k f).group = Function.update c.group k ((c.group k).count f) := by
  unfold bump Group.count
  split_ifs
  · simp [proceed, record, post, mapMember, mapGroup]
  · rfl

lemma group_settle :
    (c.settle k).group = Function.update c.group k (c.group k).settled := by
  unfold settle Group.settled
  cases (c.group k).kind with
  | goWait => simp [proceed, record, post, mapMember]
  | goAnyWait => simp
  | goAnyResult => exact c.group_bump k

lemma group_release (h : Holder) :
    (c.release k h).group = Function.update c.group k ((c.group k).released h) := by
  simp only [release, Group.released]
  rw [show ((c.mapGroup k fun x => { x with holders := x.holders.erase h }).group k) =
    { c.group k with holders := (c.group k).holders.erase h } by simp [mapGroup]]
  split_ifs
  · rw [group_settle]
    simp [mapGroup]
  · rfl

lemma group_ret {v : Option ℕ} : (c.ret j v).group = match (c.member j).role with
    | some (k, i) => Function.update c.group k ((c.group k).returned i v)
    | none        => c.group := by
  unfold ret Group.returned
  cases (c.member j).role with
  | none => rfl
  | some r =>
    simp only
    cases (c.group r.1).kind with
    | goWait => simp [place, mapMember]
    | goAnyWait => exact group_bump _ _
    | goAnyResult =>
      cases v with
      | none => simp [place, mapMember]
      | some v => exact group_bump _ _

/-! ### Members of a clan -/

/-- What the journeys show, their histories apart. -/
def bare (c : Clan) : ℕ → Member := fun j => { c.member j with log := [] }

variable {c j}

lemma bare_mapMember (c : Clan) {j : ℕ} {f g : Member → Member}
    (h : ({ f (c.member j) with log := [] } : Member) = g (c.bare j)) :
    (c.mapMember j f).bare = Function.update c.bare j (g (c.bare j)) := by
  funext i
  simp only [bare, mapMember, Function.update_apply]
  split_ifs
  · exact h
  · rfl

lemma bare_record (e : LifeEvent) : (c.record j e).bare = c.bare := by
  rw [record, c.bare_mapMember (g := id) rfl]
  simp

lemma bare_proceed : (c.proceed j).bare = c.bare := bare_record .proceed

lemma bare_bump {f : Group → Group} : (c.bump k f).bare = c.bare := by
  unfold bump
  split_ifs
  · exact bare_proceed
  · rfl

lemma bare_release {h : Holder} : (c.release k h).bare = c.bare := by
  unfold release
  simp only
  split_ifs
  · unfold settle
    split
    · exact bare_proceed
    · rfl
    · exact bare_bump _
  · rfl

lemma bare_create (r : Option (ℕ × ℕ)) : (c.create r).bare =
    Function.update c.bare (c.created + 1) { c.bare (c.created + 1) with role := r } :=
  c.bare_mapMember (f := fun m => { m with role := r, log := m.log ++ [.create] })
    (g := fun m => { m with role := r }) rfl

lemma bare_place (x : Ctx) :
    (c.place j x).bare = Function.update c.bare j { c.bare j with ctx := x } :=
  c.bare_mapMember (g := fun m => { m with ctx := x }) rfl

lemma bare_yield (op : Op) (d : Deferred) : (c.yield t j op d).bare =
    Function.update c.bare j { c.bare j with ctx := .yielded op, handler := some d } :=
  c.bare_mapMember (f := fun m =>
      { m with ctx := .yielded op, handler := some d, log := m.log ++ [.yield] })
    (g := fun m => { m with ctx := .yielded op, handler := some d }) rfl

lemma bare_start : (c.start j).bare =
    Function.update c.bare j { c.bare j with ctx := .user, started := true } := by
  have h : (c.mapMember j fun m =>
      { m with ctx := .user, started := true, log := m.log ++ [.start] }).bare =
      Function.update c.bare j { c.bare j with ctx := .user, started := true } :=
    c.bare_mapMember (g := fun m => { m with ctx := .user, started := true }) rfl
  unfold start
  cases (c.member j).role with
  | none => exact h
  | some r => exact h

lemma bare_resume (op : Op) : (c.resume j op).bare =
    Function.update c.bare j { c.bare j with ctx := .resumed op } :=
  c.bare_mapMember (g := fun m => { m with ctx := .resumed op }) rfl

lemma bare_answer (d : Deferred) : (c.answer t j d).bare = c.bare := by
  cases d with
  | proceed => exact bare_proceed
  | launch k => rfl
  | setProceed w => rfl
  | startIo i => rfl

lemma bare_ret (v : Option ℕ) :
    (c.ret j v).bare = Function.update c.bare j { c.bare j with ctx := .closing } := by
  rw [← bare_place]
  unfold ret
  cases (c.member j).role with
  | none => rfl
  | some r =>
    simp only
    split
    · exact bare_bump _
    · exact bare_bump _
    · rfl

lemma bare_endCoro : (c.endCoro t j).bare =
    Function.update c.bare j { c.bare j with ctx := .ended, started := false } := by
  have h : ((c.mapMember j fun m => { m with
      ctx := .ended, started := false, log := m.log ++ [.finish] }).setStage t .switched).bare =
      Function.update c.bare j { c.bare j with ctx := .ended, started := false } :=
    c.bare_mapMember (f := fun m =>
        { m with ctx := .ended, started := false, log := m.log ++ [.finish] })
      (g := fun m => { m with ctx := .ended, started := false }) rfl
  unfold endCoro
  cases (c.member j).role with
  | none => exact h
  | some r => exact (bare_release _).trans h

/-! ### The owner of a group -/

lemma last_proceed : ((c.proceed j).member j).log.getLast? = some .proceed := by
  simp [proceed, record, post, mapMember]

variable {k}

lemma last_bump {f : Group → Group} (h : (c.group k).counter = 0) :
    ((c.bump k f).member (c.group k).owner).log.getLast? = some .proceed := by
  simp only [bump, if_pos h]
  exact last_proceed

/-- A group that is answered by a return proceeds its owner. -/
lemma last_ret {v : Option ℕ} (hr : (c.member j).role = some (k, i))
    (hn : ¬ (c.group k).Answered) (ha : ((c.ret j v).group k).Answered) :
    ((c.ret j v).member (c.group k).owner).log.getLast? = some .proceed := by
  have hzero : (c.ret j v).group k = (c.group k).returned i v := by
    rw [group_ret, hr]
    simp
  rw [hzero] at ha
  unfold ret
  simp only [hr]
  unfold Group.returned at ha
  cases hk : (c.group k).kind with
  | goWait =>
    rw [hk] at ha
    exact absurd ha hn
  | goAnyWait =>
    refine last_bump (c := c.place j .closing) ?_
    by_contra hc
    rw [hk] at ha
    simp only [Group.count] at ha
    rw [if_neg (show ¬ (c.group k).counter = 0 from hc)] at ha
    exact hn ⟨ha.1, by simp [hk], fun _ => hc⟩
  | goAnyResult =>
    cases v with
    | none =>
      rw [hk] at ha
      exact absurd ha hn
    | some v =>
      refine last_bump (c := c.place j .closing) ?_
      by_contra hc
      rw [hk] at ha
      simp only [Group.count] at ha
      rw [if_neg (show ¬ (c.group k).counter = 0 from hc)] at ha
      exact hn ⟨ha.1, by simp [hk], fun _ => hc⟩

/-- A group that is answered by its last holder proceeds its owner. -/
lemma last_release {h : Holder} (hn : ¬ (c.group k).Answered)
    (ha : ((c.release k h).group k).Answered) :
    ((c.release k h).member (c.group k).owner).log.getLast? = some .proceed := by
  rw [group_release, Function.update_self] at ha
  unfold Group.released at ha
  unfold release
  simp only at ha ⊢
  have hk : ∀ f : Group → Group, (c.mapGroup k f).group k = f (c.group k) := fun f =>
    Function.update_self _ _ _
  rw [hk]
  split_ifs at ha ⊢ with he
  · unfold Group.settled at ha
    unfold settle
    rw [hk]
    simp only at ha ⊢
    cases hkind : (c.group k).kind with
    | goWait => exact last_proceed
    | goAnyWait =>
      rw [hkind] at ha
      exact absurd ⟨ha.1, by simp [hkind], fun _ => ha.2.2 (by simp)⟩ hn
    | goAnyResult =>
      have hb := last_bump (c := c.mapGroup k fun x => { x with holders := x.holders.erase h })
        (k := k) (f := fun x => { x with result := none })
      rw [hk] at hb
      refine hb ?_
      by_contra hc
      rw [hkind] at ha
      simp only [Group.count] at ha
      rw [if_neg (show ¬ (c.group k).counter = 0 from hc)] at ha
      exact hn ⟨ha.1, by simp [hkind], fun _ => hc⟩
  · refine absurd ⟨ha.1, fun hkind => ?_, ha.2.2⟩ hn
    exact absurd (ha.2.1 hkind) he

/-! ### Histories -/

/-- Histories grow, but nobody resumes and no handler ends. -/
def Grows (c c' : Clan) : Prop :=
  ∀ i, ∃ es, (c'.member i).log = (c.member i).log ++ es ∧
    ∀ e ∈ es, e ≠ LifeEvent.resume ∧ e ≠ .finish

namespace Grows

variable {c' c'' : Clan}

lemma of_eq (h : c'.member = c.member) : c.Grows c' :=
  fun i => ⟨[], by rw [h, List.append_nil], by simp⟩

lemma trans (h : c.Grows c') (h' : c'.Grows c'') : c.Grows c'' := by
  intro i
  obtain ⟨es, hes, hr⟩ := h i
  obtain ⟨es', hes', hr'⟩ := h' i
  refine ⟨es ++ es', by rw [hes', hes, List.append_assoc], fun e he => ?_⟩
  exact (List.mem_append.mp he).elim (hr e) (hr' e)

lemma of_update (es : List LifeEvent) {m : Member} (h : c'.member = Function.update c.member j m)
    (hm : m.log = (c.member j).log ++ es) (hr : ∀ e ∈ es, e ≠ .resume ∧ e ≠ .finish) :
    c.Grows c' := by
  intro i
  rw [h, Function.update_apply]
  split_ifs with hi
  · subst hi
    exact ⟨es, hm, hr⟩
  · exact ⟨[], by rw [List.append_nil], by simp⟩

lemma proceed (c : Clan) (j : ℕ) : c.Grows (c.proceed j) :=
  of_update (j := j) [.proceed] rfl rfl (by simp)

lemma bump (c : Clan) (k : ℕ) (f : Group → Group) : c.Grows (c.bump k f) := by
  unfold Clan.bump
  split_ifs
  · exact proceed _ _
  · exact of_eq rfl

lemma release (c : Clan) (k : ℕ) (h : Holder) : c.Grows (c.release k h) := by
  unfold Clan.release
  simp only
  split_ifs
  · unfold settle
    split
    · exact proceed _ _
    · exact of_eq rfl
    · exact bump _ _ _
  · exact of_eq rfl

lemma place (c : Clan) (j : ℕ) (x : Ctx) : c.Grows (c.place j x) :=
  of_update (j := j) [] rfl (List.append_nil _).symm (by simp)

lemma answer (c : Clan) (t j : ℕ) (d : Deferred) : c.Grows (c.answer t j d) := by
  cases d with
  | proceed => exact proceed c j
  | _ => exact of_eq rfl

lemma start (c : Clan) (j : ℕ) : c.Grows (c.start j) := by
  have h : c.Grows (c.mapMember j fun m =>
      { m with ctx := .user, started := true, log := m.log ++ [.start] }) :=
    of_update (j := j) [.start] rfl rfl (by simp)
  unfold Clan.start
  cases (c.member j).role <;> exact h

lemma ret (c : Clan) (j : ℕ) (v : Option ℕ) : c.Grows (c.ret j v) := by
  refine (place c j .closing).trans ?_
  unfold Clan.ret
  cases (c.member j).role with
  | none => exact of_eq rfl
  | some r =>
    simp only
    split
    · exact bump _ _ _
    · exact bump _ _ _
    · exact of_eq rfl

/-- The handler of journey `j` ends, and others may be proceeded. -/
lemma endCoro (c : Clan) (t j : ℕ) : (c.mapMember j fun m => { m with
    ctx := .ended, started := false, log := m.log ++ [.finish] }).Grows (c.endCoro t j) := by
  unfold Clan.endCoro
  cases (c.member j).role with
  | none => exact of_eq rfl
  | some r => exact release _ _ _

end Grows

/-! ### The number of groups -/

lemma groups_bump (c : Clan) (k : ℕ) (f : Group → Group) : (c.bump k f).groups = c.groups := by
  unfold bump
  split_ifs <;> rfl

lemma groups_release (c : Clan) (k : ℕ) (h : Holder) : (c.release k h).groups = c.groups := by
  unfold release
  simp only
  split_ifs
  · unfold settle
    split
    · rfl
    · rfl
    · exact groups_bump _ _ _
  · rfl

lemma groups_start (c : Clan) (j : ℕ) : (c.start j).groups = c.groups := by
  unfold start
  cases (c.member j).role <;> rfl

lemma groups_answer (c : Clan) (t j : ℕ) (d : Deferred) :
    (c.answer t j d).groups = c.groups := by
  cases d <;> rfl

lemma groups_ret (c : Clan) (j : ℕ) (v : Option ℕ) : (c.ret j v).groups = c.groups := by
  unfold ret
  cases (c.member j).role with
  | none => rfl
  | some r =>
    simp only
    split
    · exact groups_bump _ _ _
    · exact groups_bump _ _ _
    · rfl

lemma groups_endCoro (c : Clan) (t j : ℕ) : (c.endCoro t j).groups = c.groups := by
  unfold endCoro
  cases (c.member j).role with
  | none => rfl
  | some r => exact groups_release _ _ _

end Clan

namespace Runtime

variable {s s' : Runtime} {t j k i : ℕ} {a : Action}

/-- What a child of group `k` returns: its index and the value. -/
def returnTo (s : Runtime) (k : ℕ) (a : Action) : Option (ℕ × Option ℕ) :=
  (s.returned a).bind fun r => if r.1 = k then some r.2 else none

lemma returnTo_none (h : s.returned a = none) (k : ℕ) : s.returnTo k a = none := by
  rw [returnTo, h, Option.bind_none]

/-- What is seen of an action from group `k`. -/
inductive GroupTurn (s : Runtime) (a : Action) (s' : Runtime) (k : ℕ) : Prop where
  | same (hn : s.returnTo k a = none) (h : s'.group k = s.group k)
  | opens (j : ℕ) (kind : GroupKind) (size : ℕ) (left : Bool) (hn : s.returnTo k a = none)
      (hk : k = s.groups) (hg : s'.groups = s.groups + 1) (hs : kind = .goAnyWait → 1 ≤ size)
      (h : s'.group k = { s.group k with kind := kind, owner := j, size := size, left := left })
  | quits (t j : ℕ) (hn : s.returnTo k a = none) (ha : a = .leave t j)
      (hc : (s.journey j).ctx = .resumed (.group k)) (hc' : (s'.journey j).ctx = .user)
      (h : s'.group k = { s.group k with left := true })
  | begins (j : ℕ) (hn : s.returnTo k a = none)
      (hd : (s.journey j).deferHandler = some (.launch k)) (hb : (s.group k).began = false)
      (h : s'.group k = { s.group k with began := true, holders := [.loop] })
  | launches (hn : s.returnTo k a = none) (hb : (s.group k).began = true)
      (hl : .loop ∈ (s.group k).holders) (hlt : (s.group k).launched < (s.group k).size)
      (hr : (s'.journey (s.created + 1)).role = some (k, (s.group k).launched))
      (h : s'.group k = { s.group k with
        launched := (s.group k).launched + 1
        holders := (s.group k).holders ++ [.task (s.created + 1)] })
  | holds (j : ℕ) (hn : s.returnTo k a = none) (hb : (s.group k).began = true)
      (hl : .task j ∈ (s.group k).holders)
      (h : s'.group k = { s.group k with holders := (s.group k).holders ++ [.coro j] })
  | releases (x : Holder) (hn : s.returnTo k a = none) (hb : (s.group k).began = true)
      (hx : x ∈ (s.group k).holders) (hl : x = .loop → (s.group k).size ≤ (s.group k).launched)
      (h : s'.group k = (s.group k).released x)
      (hp : ¬ (s.group k).Answered → (s'.group k).Answered →
        (s'.journey (s.group k).owner).log.getLast? = some .proceed)
  | rets (t j i : ℕ) (v : Option ℕ) (hn : s.returnTo k a = some (i, v)) (ha : a = .ret t j v)
      (hb : (s.group k).began = true) (hr : (s.journey j).role = some (k, i))
      (hx : .coro j ∈ (s.group k).holders) (hc : (s'.journey j).ctx = .closing)
      (h : s'.group k = (s.group k).returned i v)
      (hp : ¬ (s.group k).Answered → (s'.group k).Answered →
        (s'.journey (s.group k).owner).log.getLast? = some .proceed)

/-! ### The holders of a group -/

lemma mem_coro (hS : s.relay.Sound) (ht : s.stage t j = some .running)
    (hr : (s.journey j).role = some (k, i)) :
    (s.group k).began = true ∧ .coro j ∈ (s.group k).holders :=
  ⟨hS.shares.role j k (role_relay hr), hS.shares.claims k (.coro j)
    ⟨role_relay hr, (hS.lives.leads_running ht).fits.started⟩⟩

lemma mem_task (hS : s.relay.Sound) {x : Task} (hx : x ∈ s.posted) (hs : x.start = true)
    (hr : (s.journey x.journey).role = some (k, i)) :
    (s.group k).began = true ∧ .task x.journey ∈ (s.group k).holders :=
  ⟨hS.shares.role _ k (role_relay hr), hS.shares.claims k (.task x.journey)
    ⟨role_relay hr, none, x, hx, rfl, hs⟩⟩

lemma mem_exec (hS : s.relay.Sound) {x : Exec} (hx : (s.thread t).exec = some x)
    (hs : x.start = true) (hr : (s.journey x.journey).role = some (k, i)) :
    (s.group k).began = true ∧ .task x.journey ∈ (s.group k).holders :=
  ⟨hS.shares.role _ k (role_relay hr), hS.shares.claims k (.task x.journey)
    ⟨role_relay hr, some t, x, hx, rfl, hs⟩⟩

lemma mem_loop (hS : s.relay.Sound) (ht : s.stage t j = some (.loop k)) :
    (s.group k).began = true ∧ .loop ∈ (s.group k).holders := by
  obtain ⟨x, hx, -, hk⟩ := exec_of_stage ht
  exact ⟨hS.shares.loop t x k hx hk, hS.shares.claims k .loop ⟨t, x, hx, hk⟩⟩

lemma member_ctx (s : Runtime) (j : ℕ) : (s.clan.member j).ctx = (s.journey j).ctx := rfl

lemma member_role (s : Runtime) (j : ℕ) : (s.clan.member j).role = (s.journey j).role := rfl

lemma member_log (s : Runtime) (j : ℕ) : (s.clan.member j).log = (s.journey j).log := rfl

lemma group_eq {c : Clan} (h : s'.clan = c) (k : ℕ) : s'.group k = c.group k :=
  congrArg (fun c : Clan => c.group k) h

/-- The deed is about another group. -/
lemma turn_of_update (hn : s.returnTo k a = none) {n : ℕ} {x : Group}
    (h : s'.group = Function.update s.group n x) (hk : n = k → s.GroupTurn a s' k) :
    s.GroupTurn a s' k := by
  by_cases hnk : n = k
  · exact hk hnk
  · exact .same hn (by rw [h, Function.update_of_ne (Ne.symm hnk)])

/-- A copy of the pointer is destroyed. -/
lemma turn_of_release {c : Clan} (hn : s.returned a = none) {n : ℕ} {x : Holder}
    (hg : s'.clan.group = (c.release n x).group) (hm : s'.clan.member = (c.release n x).member)
    (hc : c.group = s.group) (hmem : (s.group n).began = true ∧ x ∈ (s.group n).holders)
    (hl : x = .loop → (s.group n).size ≤ (s.group n).launched) : s.GroupTurn a s' k := by
  have hup : s'.group = Function.update s.group n ((s.group n).released x) := by
    rw [← hc, ← c.group_release n x]
    exact hg
  refine turn_of_update (returnTo_none hn k) hup ?_
  rintro rfl
  refine .releases x (returnTo_none hn n) hmem.1 hmem.2 hl ?_ fun hna ha => ?_
  · rw [hup, Function.update_self]
  · rw [← hc] at hna
    have hlast := Clan.last_release (h := x) hna (by rwa [← hg])
    rw [hc, ← hm] at hlast
    exact hlast

/-- What a deed is to a group. -/
theorem groupTurn_of_deed (hS : s.relay.Sound) (h : s.Deed a s') (k : ℕ) :
    s.GroupTurn a s' k := by
  cases h with
  | still hn h => exact .same (returnTo_none hn k) (group_eq h k)
  | proceeds i hn h => exact .same (returnTo_none hn k) (group_eq h k)
  | creates hn h => exact .same (returnTo_none hn k) (group_eq h k)
  | goes t j x hn ht hx hc h => exact .same (returnTo_none hn k) (group_eq h k)
  | yields t j op hn ht hc hop h => exact .same (returnTo_none hn k) (group_eq h k)
  | calls t j kind size hn ht hc hs h =>
    refine turn_of_update (returnTo_none hn k) (congrArg Clan.group h) ?_
    rintro rfl
    exact .opens j kind size _ (returnTo_none hn _) rfl (congrArg Clan.groups h) hs
      ((group_eq h _).trans (Function.update_self _ _ _))
  | refuses t j kind size hn ht hc hs h =>
    have hg : s'.group = Function.update s.group s.groups { s.group s.groups with
        kind := kind, owner := j, size := size, left := true } := by
      refine (congrArg Clan.group h).trans ?_
      simp [Clan.place, Clan.mapMember, Clan.quit, Clan.mapGroup, Clan.newGroup, clan]
    refine turn_of_update (returnTo_none hn k) hg ?_
    rintro rfl
    exact .opens j kind size true (returnTo_none hn _) rfl (congrArg Clan.groups h) hs
      (by rw [hg, Function.update_self])
  | leaves t j n ha hn ht hc h =>
    refine turn_of_update (returnTo_none hn k) (congrArg Clan.group h) ?_
    rintro rfl
    refine .quits t j (returnTo_none hn _) ha hc ?_
      ((group_eq h _).trans (Function.update_self _ _ _))
    rw [← member_ctx, h]
    simp [Clan.place, Clan.mapMember]
  | starts t x hn hk hs h =>
    unfold Clan.start at h
    cases hr : (s.journey x.journey).role with
    | none =>
      rw [show ((s.clan.take t x).member x.journey).role = none from hr] at h
      exact .same (returnTo_none hn k) (group_eq h k)
    | some r =>
      rw [show ((s.clan.take t x).member x.journey).role = some r from hr] at h
      obtain ⟨hb, hm⟩ := mem_task (k := r.1) (i := r.2) hS hk.2.2.1 hs hr
      refine turn_of_update (returnTo_none hn k) (congrArg Clan.group h) ?_
      rintro rfl
      exact .holds x.journey (returnTo_none hn _) hb hm
        ((group_eq h _).trans (Function.update_self _ _ _))
  | resumes t x op hn hk hs hc h => exact .same (returnTo_none hn k) (group_eq h k)
  | saves t j b hn ht h => exact .same (returnTo_none hn k) (group_eq h k)
  | deletes t j hn ht hd h => exact .same (returnTo_none hn k) (group_eq h k)
  | answers t j d hn ht hd h =>
    cases d with
    | launch n =>
      refine turn_of_update (returnTo_none hn k) (congrArg Clan.group h) ?_
      rintro rfl
      exact .begins j (returnTo_none hn _) hd (hS.waits.prepared j _ hd).2.2
        ((group_eq h _).trans (Function.update_self _ _ _))
    | _ => exact .same (returnTo_none hn k) (group_eq h k)
  | launches t j n hn ht hlt h =>
    obtain ⟨hb, hm⟩ := mem_loop hS ht
    have hg : s'.group = Function.update s.group n { s.group n with
        launched := (s.group n).launched + 1
        holders := (s.group n).holders ++ [.task (s.created + 1)] } := by
      refine (congrArg Clan.group h).trans ?_
      simp [Clan.launch, Clan.hold, Clan.mapGroup, Clan.create, Clan.post, Clan.mapMember, clan]
    refine turn_of_update (returnTo_none hn k) hg ?_
    rintro rfl
    refine .launches (returnTo_none hn _) hb hm hlt ?_ (by rw [hg, Function.update_self])
    rw [← member_role, h]
    simp [Clan.launch, Clan.hold, Clan.mapGroup, Clan.create, Clan.post, Clan.mapMember, clan]
  | endsLoop t j n hn ht hge h =>
    refine turn_of_release (c := s.clan) (x := .loop) hn ?_ ?_ rfl (mem_loop hS ht) fun _ => hge
    · rw [h]
      rfl
    · rw [h]
      rfl
  | drops t x hn hx hg hr h => exact .same (returnTo_none hn k) (group_eq h k)
  | endsTask t x n i hn hx hg hs hr h =>
    exact turn_of_release (c := s.clan.giveUp t) hn (congrArg Clan.group h)
      (congrArg Clan.member h) rfl (mem_exec hS hx hs hr) (by simp)
  | rets t j v ha ht hc h =>
    have hg := (congrArg Clan.group h).trans (s.clan.group_ret j)
    cases hr : (s.journey j).role with
    | none =>
      rw [show (s.clan.member j).role = none from hr] at hg
      refine .same ?_ (congrFun hg k)
      rw [returnTo, ha, returned, hr, Option.map_none, Option.bind_none]
    | some r =>
      rw [show (s.clan.member j).role = some r from hr] at hg
      have hret : s.returnTo k a = if r.1 = k then some (r.2, v) else none := by
        rw [returnTo, ha, returned, hr, Option.map_some, Option.bind_some]
      by_cases hk : r.1 = k
      · obtain ⟨hb, hm⟩ := mem_coro (k := r.1) (i := r.2) hS ht hr
        subst hk
        refine .rets t j r.2 v (by rw [hret, if_pos rfl]) ha hb hr hm ?_ ?_ fun hna hans => ?_
        · have hbare := congrFun ((congrArg Clan.bare h).trans (Clan.bare_ret v)) j
          rw [Function.update_self] at hbare
          exact congrArg Member.ctx hbare
        · exact (congrFun hg r.1).trans (Function.update_self _ _ _)
        · have hlast := Clan.last_ret (c := s.clan) r.2 (v := v) hr hna (by rwa [← h])
          rwa [← h] at hlast
      · exact .same (by rw [hret, if_neg hk])
          ((congrFun hg k).trans (Function.update_of_ne (Ne.symm hk) _ _))
  | escapes t j ha hn ht hc h => exact .same (returnTo_none hn k) (group_eq h k)
  | endsCoro t j hn ht hc h =>
    unfold Clan.endCoro at h
    cases hr : (s.journey j).role with
    | none =>
      rw [show (s.clan.member j).role = none from hr] at h
      exact .same (returnTo_none hn k) (group_eq h k)
    | some r =>
      rw [show (s.clan.member j).role = some r from hr] at h
      refine turn_of_release hn (congrArg Clan.group h) (congrArg Clan.member h) ?_
        (mem_coro (k := r.1) (i := r.2) hS ht hr) (by simp)
      rfl

/-! ### Journeys -/

/-- What a journey shows, its history apart. -/
def bare (s : Runtime) (j : ℕ) : Member := s.clan.bare j

@[simp] lemma bare_ctx (s : Runtime) (j : ℕ) : (s.bare j).ctx = (s.journey j).ctx := rfl

@[simp] lemma bare_handler (s : Runtime) (j : ℕ) :
    (s.bare j).handler = (s.journey j).deferHandler := rfl

@[simp] lemma bare_role (s : Runtime) (j : ℕ) : (s.bare j).role = (s.journey j).role := rfl

@[simp] lemma bare_started (s : Runtime) (j : ℕ) :
    (s.bare j).started = (s.journey j).coro.started := rfl

/-- What is seen of an action from journey `j`. -/
inductive MemberTurn (s : Runtime) (a : Action) (s' : Runtime) (j : ℕ) : Prop where
  | same (h : s'.bare j = s.bare j)
  | creates (hj : j = s.created + 1) (h : s'.bare j = { s.bare j with role := none })
  | launches (t i k : ℕ) (hj : j = s.created + 1) (ht : s.stage t i = some (.loop k))
      (hlt : (s.group k).launched < (s.group k).size)
      (hl : (s'.group k).launched = (s.group k).launched + 1) (hn : (s'.journey j).log ≠ [])
      (h : s'.bare j = { s.bare j with role := some (k, (s.group k).launched) })
  | starts (hl : s.relay.Leads j .created)
      (h : s'.bare j = { s.bare j with ctx := .user, started := true })
  | goes (x : Ctx) (hx : x = .user ∨ ∃ i, x = .polling i) (hc : (s.journey j).ctx = .user ∨
        (∃ i, (s.journey j).ctx = .polling i) ∨
        ∃ op, (s.journey j).ctx = .resumed op ∧ ∀ k, op ≠ .group k)
      (h : s'.bare j = { s.bare j with ctx := x })
  | yields (op : Op) (hc : (s.journey j).ctx = .user)
      (ho : ∀ k, op = .group k → k = s.groups ∧ s'.groups = s.groups + 1 ∧
        (s'.group k).owner = j ∧ (s'.group k).left = (s.group k).left)
      (h : s'.bare j = { s.bare j with ctx := .yielded op, handler := some op.deferred })
  | leaves (t k : ℕ) (ha : a = .leave t j) (hc : (s.journey j).ctx = .resumed (.group k))
      (h : s'.bare j = { s.bare j with ctx := .user })
  | answers (d : Deferred) (hd : (s.journey j).deferHandler = some d)
      (hb : ∀ k, d = .launch k → (s'.group k).began = true)
      (h : s'.bare j = { s.bare j with handler := none })
  | resumes (op : Op) (hl : s.relay.Leads j .proceeded) (hc : (s.journey j).ctx = .yielded op)
      (h : s'.bare j = { s.bare j with ctx := .resumed op })
  | closes (t : ℕ) (ht : s.stage t j = some .running)
      (ha : a = .escape t j ∨ ∃ v, a = .ret t j v) (hc : (s.journey j).ctx = .user)
      (h : s'.bare j = { s.bare j with ctx := .closing })
  | ends (hc : (s.journey j).ctx = .closing)
      (h : s'.bare j = { s.bare j with ctx := .ended, started := false })

lemma turn_of_bare {n : ℕ} {m : Member} (h : s'.clan.bare = Function.update s.clan.bare n m)
    (hn : n = j → s'.bare j = m → s.MemberTurn a s' j) : s.MemberTurn a s' j := by
  by_cases hj : n = j
  · refine hn hj ?_
    rw [bare, h, hj, Function.update_self]
  · exact .same (by rw [bare, h, Function.update_of_ne (Ne.symm hj), bare])

/-- What a deed is to a journey. -/
theorem memberTurn_of_deed (hS : s.relay.Sound) (h : s.Deed a s') (j : ℕ) :
    s.MemberTurn a s' j := by
  cases h with
  | still hn h => exact .same (by rw [bare, h, bare])
  | proceeds i hn h => exact .same (by rw [bare, h, Clan.bare_proceed, bare])
  | creates hn h =>
    refine turn_of_bare ((congrArg Clan.bare h).trans (Clan.bare_create none)) ?_
    rintro rfl hb
    exact .creates rfl hb
  | goes t i x hn ht hx hc h =>
    refine turn_of_bare ((congrArg Clan.bare h).trans (Clan.bare_place x)) ?_
    rintro rfl hb
    exact .goes x hx hc hb
  | yields t i op hn ht hc hop h =>
    refine turn_of_bare ((congrArg Clan.bare h).trans (Clan.bare_yield t op op.deferred)) ?_
    rintro rfl hb
    exact .yields op hc (fun k hk => absurd hk (hop k)) hb
  | calls t i kind size hn ht hc hs h =>
    have hbare := (congrArg Clan.bare h).trans (Clan.bare_yield t (.group s.groups)
      (.launch s.groups))
    refine turn_of_bare hbare ?_
    rintro rfl hb
    refine .yields (.group s.groups) hc ?_ hb
    rintro k ⟨⟩
    have hg : s'.group s.groups = { s.group s.groups with
        kind := kind, owner := i, size := size } :=
      (group_eq h _).trans (Function.update_self _ _ _)
    rw [hg]
    exact ⟨rfl, congrArg Clan.groups h, rfl, rfl⟩
  | refuses t i kind size hn ht hc hs h =>
    have hbare := (congrArg Clan.bare h).trans (Clan.bare_place .user)
    refine turn_of_bare hbare ?_
    rintro rfl hb
    exact .goes .user (.inl rfl) (.inl hc) hb
  | leaves t i k ha hn ht hc h =>
    refine turn_of_bare ((congrArg Clan.bare h).trans (Clan.bare_place .user)) ?_
    rintro rfl hb
    exact .leaves t k ha hc hb
  | starts t x hn hk hs h =>
    refine turn_of_bare ((congrArg Clan.bare h).trans Clan.bare_start) ?_
    rintro rfl hb
    have hlead := hS.lives.leads_posted (x := x) hk.2.2.1
    rw [if_pos hs] at hlead
    exact .starts hlead hb
  | resumes t x op hn hk hs hc h =>
    refine turn_of_bare ((congrArg Clan.bare h).trans (Clan.bare_resume op)) ?_
    rintro rfl hb
    have hlead := hS.lives.leads_posted (x := x) hk.2.2.1
    rw [if_neg (by simp [hs])] at hlead
    exact .resumes op hlead hc hb
  | saves t i b hn ht h => exact .same (by rw [bare, h]; exact congrFun (Clan.bare_record _) j)
  | deletes t i hn ht hd h => exact .same (by rw [bare, h]; exact congrFun (Clan.bare_record _) j)
  | answers t i d hn ht hd h =>
    have hbare := (congrArg Clan.bare h).trans ((Clan.bare_answer t d).trans
      (s.clan.bare_mapMember (j := i) (g := fun m => { m with handler := none }) rfl))
    refine turn_of_bare hbare ?_
    rintro rfl hb
    refine .answers d hd ?_ hb
    rintro k rfl
    rw [(group_eq h k).trans (Function.update_self _ _ _)]
  | launches t i n hn ht hlt h =>
    have hbare := (congrArg Clan.bare h).trans (Clan.bare_create _)
    refine turn_of_bare hbare ?_
    rintro rfl hb
    refine .launches t i n rfl ht hlt ?_ ?_ hb
    · rw [group_eq h n]
      simp [Clan.launch, Clan.hold, Clan.mapGroup, Clan.create, Clan.post, Clan.mapMember, clan]
    · rw [← member_log, h]
      simp [Clan.launch, Clan.hold, Clan.mapGroup, Clan.create, Clan.post, Clan.mapMember, clan]
  | endsLoop t i n hn ht hge h =>
    refine .same ?_
    rw [bare, h]
    exact congrFun (Clan.bare_release n) j
  | drops t x hn hx hg hr h =>
    refine .same ?_
    rw [bare, h]
    rfl
  | endsTask t x n i hn hx hg hs hr h =>
    refine .same ?_
    rw [bare, h]
    exact congrFun (Clan.bare_release n) j
  | rets t i v ha ht hc h =>
    refine turn_of_bare ((congrArg Clan.bare h).trans (Clan.bare_ret v)) ?_
    rintro rfl hb
    exact .closes t ht (.inr ⟨v, ha⟩) hc hb
  | escapes t i ha hn ht hc h =>
    refine turn_of_bare ((congrArg Clan.bare h).trans (Clan.bare_place .closing)) ?_
    rintro rfl hb
    exact .closes t ht (.inl ha) hc hb
  | endsCoro t i hn ht hc h =>
    refine turn_of_bare ((congrArg Clan.bare h).trans (Clan.bare_endCoro t)) ?_
    rintro rfl hb
    exact .ends hc hb

/-! ### Histories -/

lemma groups_of_deed (h : s.Deed a s') : s.groups ≤ s'.groups := by
  have hg : ∀ {c : Clan}, s'.clan = c → c.groups = s.groups → s.groups ≤ s'.groups := by
    intro c hc hcg
    exact (hcg.symm.trans (congrArg Clan.groups hc.symm)).le
  cases h with
  | calls t j kind size hn ht hc hs h =>
    have := congrArg Clan.groups h
    exact Nat.le_of_lt (Nat.lt_of_lt_of_eq (Nat.lt_succ_self _) this.symm)
  | refuses t j kind size hn ht hc hs h =>
    have := congrArg Clan.groups h
    exact Nat.le_of_lt (Nat.lt_of_lt_of_eq (Nat.lt_succ_self _) this.symm)
  | starts t x hn hk hs h => exact hg h (Clan.groups_start _ _)
  | answers t j d hn ht hd h => exact hg h (Clan.groups_answer _ _ _ _)
  | endsLoop t j k hn ht hge h => exact hg h (Clan.groups_release _ _ _)
  | endsTask t x k i hn hx hs hr ho h => exact hg h (Clan.groups_release _ _ _)
  | rets t j v ha ht hc h => exact hg h (Clan.groups_ret _ _ _)
  | endsCoro t j hn ht hc h => exact hg h (Clan.groups_endCoro _ _ _)
  | _ => exact hg ‹_› rfl

/-- A history grows by what the journey did; a resumption brings it back into its call. -/
lemma log_of_deed (h : s.Deed a s') (j : ℕ) : ∃ es, (s'.journey j).log = (s.journey j).log ++ es ∧
    (LifeEvent.resume ∈ es → es = [.resume] ∧ ∃ op, (s'.journey j).ctx = .resumed op) ∧
    (LifeEvent.finish ∈ es → (s'.journey j).ctx = .ended) := by
  have hg : ∀ {c : Clan}, s'.clan = c → s.clan.Grows c → ∃ es,
      (s'.journey j).log = (s.journey j).log ++ es ∧
      (LifeEvent.resume ∈ es → es = [.resume] ∧ ∃ op, (s'.journey j).ctx = .resumed op) ∧
      (LifeEvent.finish ∈ es → (s'.journey j).ctx = .ended) := by
    rintro _ rfl hgrow
    obtain ⟨es, hes, hr⟩ := hgrow j
    exact ⟨es, hes, fun h => absurd rfl (hr _ h).1, fun h => absurd rfl (hr _ h).2⟩
  cases h with
  | still hn h => exact hg h (.of_eq rfl)
  | proceeds i hn h => exact hg h (.proceed _ _)
  | creates hn h => exact hg h (.of_update [.create] rfl rfl (by simp))
  | goes t i x hn ht hx hc h => exact hg h (.place _ _ _)
  | yields t i op hn ht hc hop h => exact hg h (.of_update (j := i) [.yield] rfl rfl (by simp))
  | calls t i kind size hn ht hc hs h => exact hg h (.of_update (j := i) [.yield] rfl rfl (by simp))
  | refuses t i kind size hn ht hc hs h => exact hg h (.place _ _ _)
  | leaves t i k ha hn ht hc h => exact hg h (.place _ _ _)
  | starts t x hn hk hs h => exact hg h (.start _ _)
  | resumes t x op hn hk hs hc h =>
    have hm := congrArg (fun c : Clan => c.member j) h
    simp only [Clan.resume, Clan.mapMember, Function.update_apply] at hm
    split_ifs at hm with hj
    · have hlog := congrArg Member.log hm
      have hctx := congrArg Member.ctx hm
      exact ⟨[.resume], by rw [hj]; rw [hj] at hlog; exact hlog, fun _ => ⟨rfl, op, hctx⟩,
        by simp⟩
    · exact ⟨[], (congrArg Member.log hm).trans (List.append_nil _).symm, by simp, by simp⟩
  | saves t i b hn ht h => exact hg h (.of_update (j := i) [.save] rfl rfl (by simp))
  | deletes t i hn ht hd h => exact hg h (.of_update (j := i) [.delete] rfl rfl (by simp))
  | answers t i d hn ht hd h =>
    refine hg h (.trans ?_ (.answer _ _ _ _))
    exact .of_update (j := i) [] rfl (List.append_nil _).symm (by simp)
  | launches t i k hn ht hlt h => exact hg h (.of_update [.create] rfl rfl (by simp))
  | endsLoop t i k hn ht hge h => exact hg h ((Clan.Grows.release _ _ _).trans (.of_eq rfl))
  | drops t x hn hx hs hr h => exact hg h (.of_eq rfl)
  | endsTask t x k i hn hx hs hr ho h => exact hg h (.release _ _ _)
  | rets t i v ha ht hc h => exact hg h (.ret _ _ _)
  | escapes t i ha hn ht hc h => exact hg h (.place _ _ _)
  | endsCoro t i hn ht hc h =>
    obtain ⟨es, hes, hr⟩ := Clan.Grows.endCoro s.clan t i j
    rw [← h] at hes
    simp only [Clan.mapMember, Function.update_apply] at hes
    split_ifs at hes with hj
    · subst hj
      refine ⟨.finish :: es, ?_, fun hm => ?_, fun _ => ?_⟩
      · exact hes.trans (List.append_assoc _ _ _)
      · rcases List.mem_cons.mp hm with hm | hm
        · cases hm
        · exact absurd rfl (hr _ hm).1
      · have hb := congrFun ((congrArg Clan.bare h).trans (Clan.bare_endCoro t)) j
        rw [Function.update_self] at hb
        exact congrArg Member.ctx hb
    · exact ⟨es, hes, fun h => absurd rfl (hr _ h).1, fun h => absurd rfl (hr _ h).2⟩

/-- The history grows by what the life allows. -/
lemma after_of_deed (hS' : s'.relay.Sound) (h : s.Deed a s') {l : Life}
    (hl : s.relay.Leads j l) : ∃ es l', (s'.journey j).log = (s.journey j).log ++ es ∧
    (LifeEvent.resume ∈ es → es = [.resume] ∧ ∃ op, (s'.journey j).ctx = .resumed op) ∧
    l.after es = some l' := by
  obtain ⟨es, hlog, hr, -⟩ := log_of_deed h j
  obtain ⟨l', hl'⟩ := hS'.lives.leads j
  refine ⟨es, l', hlog, hr, ?_⟩
  have hold : Life.absent.after (s.journey j).log = some l := hl.after
  have hnew : Life.absent.after (s'.journey j).log = some l' := hl'.after
  rwa [hlog, Life.after_append_eq, hold, Option.bind_some] at hnew

end Runtime

end Synca
