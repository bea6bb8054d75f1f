import Synca.Runtime.Turns

/-!
# Groups and their children in every run

The children of a group are numbered in the order in which they are launched, and a journey that is
in the call of a group is its owner. The call goes on when the group has answered, and not before.
-/

namespace Synca

open Transition Relay

namespace Group

variable {x y : Group} {h : Holder} {i : ℕ} {v : Option ℕ} {f : Group → Group}

/-- The call is the same, and the children are. -/
structure SameCall (x y : Group) : Prop where
  kind : y.kind = x.kind
  owner : y.owner = x.owner
  size : y.size = x.size
  began : y.began = x.began
  launched : y.launched = x.launched
  left : y.left = x.left

lemma SameCall.rfl : x.SameCall x := ⟨.refl _, .refl _, .refl _, .refl _, .refl _, .refl _⟩

lemma sameCall_count (hf : ∀ y, SameCall y (f y)) : x.SameCall (x.count f) := by
  unfold count
  split_ifs
  · have := hf { x with counter := x.counter + 1 }
    exact ⟨this.kind, this.owner, this.size, this.began, this.launched, this.left⟩
  · exact ⟨.refl _, .refl _, .refl _, .refl _, .refl _, .refl _⟩

lemma sameCall_settled : x.SameCall x.settled := by
  unfold settled
  cases x.kind with
  | goAnyResult =>
    exact sameCall_count fun _ => ⟨.refl _, .refl _, .refl _, .refl _, .refl _, .refl _⟩
  | _ => exact .rfl

lemma sameCall_released : x.SameCall (x.released h) := by
  unfold released
  simp only
  split_ifs
  · have := sameCall_settled (x := { x with holders := x.holders.erase h })
    exact ⟨this.kind, this.owner, this.size, this.began, this.launched, this.left⟩
  · exact ⟨.refl _, .refl _, .refl _, .refl _, .refl _, .refl _⟩

lemma sameCall_returned : x.SameCall (x.returned i v) := by
  unfold returned
  split
  · exact sameCall_count fun _ => ⟨.refl _, .refl _, .refl _, .refl _, .refl _, .refl _⟩
  · exact sameCall_count fun _ => ⟨.refl _, .refl _, .refl _, .refl _, .refl _, .refl _⟩
  · exact .rfl

lemma holders_count (hf : ∀ y, (f y).holders = y.holders) : (x.count f).holders = x.holders := by
  unfold count
  split_ifs
  · exact hf _
  · rfl

lemma holders_released : (x.released h).holders = x.holders.erase h := by
  unfold released
  simp only
  split_ifs
  · unfold settled
    split
    · exact holders_count fun _ => rfl
    · rfl
  · rfl

lemma holders_returned : (x.returned i v).holders = x.holders := by
  unfold returned
  split
  · exact holders_count fun _ => rfl
  · exact holders_count fun _ => rfl
  · rfl

lemma counter_count (hf : ∀ y, (f y).counter = y.counter) : (x.count f).counter ≠ 0 := by
  unfold count
  split_ifs
  · rw [hf]
    exact Nat.succ_ne_zero _
  · exact Nat.succ_ne_zero _

lemma counter_released (hc : x.counter ≠ 0) : (x.released h).counter ≠ 0 := by
  unfold released
  simp only
  split_ifs
  · unfold settled
    split
    · exact counter_count fun _ => rfl
    · exact hc
  · exact hc

lemma counter_returned (hc : x.counter ≠ 0) : (x.returned i v).counter ≠ 0 := by
  unfold returned
  split
  · exact counter_count fun _ => rfl
  · exact counter_count fun _ => rfl
  · exact hc

end Group

namespace Runtime

variable {s s' : Runtime} {t j k i : ℕ} {a : Action}

namespace GroupTurn

/-- A group that has answered has answered for good. -/
lemma answered (hW : s.relay.Waits) (h : s.GroupTurn a s' k) (ha : (s.group k).Answered) :
    (s'.group k).Answered := by
  obtain ⟨hb, hw, hc⟩ := ha
  cases h with
  | same _ h => exact h ▸ ⟨hb, hw, hc⟩
  | opens j kind size left _ hk _ _ h =>
    cases (hW.team k hk.ge).symm.trans hb
  | quits t j _ _ _ _ h => exact h ▸ ⟨hb, hw, hc⟩
  | begins j _ _ hnb h => cases hnb.symm.trans hb
  | launches _ _ hl _ _ h =>
    refine h ▸ ⟨hb, fun hk => ?_, hc⟩
    rw [hw hk] at hl
    cases hl
  | holds j _ _ hl h =>
    refine h ▸ ⟨hb, fun hk => ?_, hc⟩
    rw [hw hk] at hl
    cases hl
  | releases x _ _ _ _ h _ =>
    have hsame := Group.sameCall_released (x := s.group k) (h := x)
    refine h ▸ ⟨hsame.began ▸ hb, fun hk => ?_, fun hk => ?_⟩
    · rw [Group.holders_released, hw (hsame.kind ▸ hk)]
      rfl
    · exact Group.counter_released (hc (hsame.kind ▸ hk))
  | rets t j i v _ _ _ _ _ _ h _ =>
    have hsame := Group.sameCall_returned (x := s.group k) (i := i) (v := v)
    refine h ▸ ⟨hsame.began ▸ hb, fun hk => ?_, fun hk => ?_⟩
    · rw [Group.holders_returned, hw (hsame.kind ▸ hk)]
    · exact Group.counter_returned (hc (hsame.kind ▸ hk))

/-- The owner, the kind and the size of a call are fixed when it is opened. -/
lemma fixed (hk : k < s.groups) (h : s.GroupTurn a s' k) : (s'.group k).kind = (s.group k).kind ∧
    (s'.group k).owner = (s.group k).owner ∧ (s'.group k).size = (s.group k).size := by
  cases h with
  | opens _ _ _ _ _ hk' => exact absurd hk'.symm hk.ne'
  | releases x _ _ _ _ h _ =>
    rw [h]
    exact ⟨Group.sameCall_released.kind, Group.sameCall_released.owner,
      Group.sameCall_released.size⟩
  | rets t j i v _ _ _ _ _ _ h _ =>
    rw [h]
    exact ⟨Group.sameCall_returned.kind, Group.sameCall_returned.owner,
      Group.sameCall_returned.size⟩
  | same _ h | quits _ _ _ _ _ _ h | begins _ _ _ _ h | launches _ _ _ _ _ h | holds _ _ _ _ h =>
    rw [h]
    exact ⟨rfl, rfl, rfl⟩

/-- A launch loop that was entered stays entered. -/
lemma began (h : s.GroupTurn a s' k) (hb : (s.group k).began = true) :
    (s'.group k).began = true := by
  cases h with
  | releases x _ _ _ _ h _ => rw [h, Group.sameCall_released.began, hb]
  | rets t j i v _ _ _ _ _ _ h _ => rw [h, Group.sameCall_returned.began, hb]
  | begins _ _ _ _ h => rw [h]
  | same _ h | opens _ _ _ _ _ _ _ _ h | quits _ _ _ _ _ _ h | launches _ _ _ _ _ h
  | holds _ _ _ _ h =>
    rw [h]
    exact hb

/-- A group that answers now proceeds its owner now. -/
lemma newly (hS : s.relay.Sound) (h : s.GroupTurn a s' k) (hn : ¬ (s.group k).Answered)
    (ha : (s'.group k).Answered) : (s.group k).began = true ∧
      (s'.journey (s.group k).owner).log.getLast? = some .proceed := by
  obtain ⟨hb, hw, hc⟩ := ha
  cases h with
  | releases x _ hnb _ _ h hp => exact ⟨hnb, hp hn ⟨hb, hw, hc⟩⟩
  | rets t j i v _ _ hnb _ _ _ h hp => exact ⟨hnb, hp hn ⟨hb, hw, hc⟩⟩
  | same _ h => exact absurd (h ▸ ⟨hb, hw, hc⟩) hn
  | quits _ _ _ _ _ _ h =>
    rw [h] at hb hw hc
    exact absurd ⟨hb, hw, hc⟩ hn
  | opens j kind size left _ hk _ _ h =>
    rw [h] at hb
    cases (hS.waits.team k hk.ge).symm.trans hb
  | begins j _ _ hnb h =>
    rw [h] at hw hc
    have hzero : (s.group k).counter = 0 := hS.shares.unbegun k hnb
    by_cases hk : (s.group k).kind = .goWait
    · cases hw hk
    · exact absurd hzero (hc hk)
  | launches _ hnb hl _ _ h =>
    rw [h] at hb hw hc
    refine absurd ⟨hnb, fun hk => ?_, hc⟩ hn
    exact absurd (hw hk) (by simp)
  | holds j _ hnb hl h =>
    rw [h] at hb hw hc
    refine absurd ⟨hnb, fun hk => ?_, hc⟩ hn
    exact absurd (hw hk) (by simp)

end GroupTurn

/-! ### The calls of groups -/

/-- The journey is in the call of group `k`. -/
def Within (s : Runtime) (j k : ℕ) : Prop :=
  (s.journey j).ctx = .yielded (.group k) ∨ (s.journey j).ctx = .resumed (.group k)

structure InCall (s : Runtime) : Prop where
  fresh : ∀ k, s.groups ≤ k → s.group k = {}
  call : ∀ j k, s.Within j k → k < s.groups ∧ (s.group k).owner = j ∧ (s.group k).left = false
  handler : ∀ j d, (s.journey j).deferHandler = some d →
    ∃ op, (s.journey j).ctx = .yielded op ∧ d = op.deferred
  began : ∀ j k, (s.journey j).ctx = .yielded (.group k) → (s.journey j).deferHandler = none →
    (s.group k).began = true
  resumed : ∀ j k, (s.journey j).ctx = .resumed (.group k) → (s.group k).Answered
  proceeded : ∀ j k, (s.journey j).ctx = .yielded (.group k) → (s.group k).Answered →
    (s.journey j).log.getLast? = some .proceed
  left : ∀ k, (s.group k).left = true → (s.group k).began = false ∨ (s.group k).Answered
  armed : ∀ k, (s.group k).began = true → ¬ (s.group k).Answered →
    (s.journey (s.group k).owner).ctx = .yielded (.group k)

lemma deferred_eq_launch {op : Op} (h : Deferred.launch k = op.deferred) : op = .group k := by
  cases op with
  | group n =>
    cases h
    rfl
  | teleport c => cases h
  | get w => cases h
  | deferIo n => cases h

/-- A journey that is switched away in a call was so before, or has just entered the call. -/
lemma yielded_of_deed (hS : s.relay.Sound) (hD : s.Deed a s')
    (hc : (s'.journey j).ctx = .yielded (.group k)) :
    (s.journey j).ctx = .yielded (.group k) ∨ (k = s.groups ∧ s'.groups = s.groups + 1 ∧
      (s'.group k).owner = j ∧ (s'.group k).left = (s.group k).left) := by
  have hctx : ∀ {m : Member}, s'.bare j = m → m.ctx = .yielded (.group k) :=
    fun h => (congrArg Member.ctx h).symm.trans hc
  cases memberTurn_of_deed hS hD j with
  | same h | creates _ h | launches _ _ _ _ _ _ _ _ h | answers _ _ _ h => exact .inl (hctx h)
  | goes x hx _ h =>
    have := hctx h
    rcases hx with rfl | ⟨i, rfl⟩ <;> cases this
  | yields op _ ho h =>
    have := hctx h
    cases this
    exact .inr (ho k rfl)
  | starts _ h | leaves _ _ _ _ h | resumes _ _ _ h | closes _ _ _ _ h | ends _ h => cases hctx h

/-- A journey that is back in a call was so before, or has just been resumed. -/
lemma resumed_of_deed (hS : s.relay.Sound) (hD : s.Deed a s')
    (hc : (s'.journey j).ctx = .resumed (.group k)) :
    (s.journey j).ctx = .resumed (.group k) ∨
      ((s.journey j).ctx = .yielded (.group k) ∧ s.relay.Leads j .proceeded) := by
  have hctx : ∀ {m : Member}, s'.bare j = m → m.ctx = .resumed (.group k) :=
    fun h => (congrArg Member.ctx h).symm.trans hc
  cases memberTurn_of_deed hS hD j with
  | same h | creates _ h | launches _ _ _ _ _ _ _ _ h | answers _ _ _ h => exact .inl (hctx h)
  | goes x hx _ h =>
    have := hctx h
    rcases hx with rfl | ⟨i, rfl⟩ <;> cases this
  | resumes op hl hc h =>
    have := hctx h
    cases this
    exact .inr ⟨hc, hl⟩
  | starts _ h | yields _ _ _ h | leaves _ _ _ _ h | closes _ _ _ _ h | ends _ h => cases hctx h

namespace InCall

lemma init (h : machine.init s) : s.InCall := by
  obtain ⟨alone, rfl⟩ := h
  exact ⟨by simp, by simp [Within], by simp, by simp, by simp, by simp, by simp, by simp⟩

/-- A group that was begun and has not answered has its owner's right to go on. -/
lemma at_team (hb : (s.group k).began = true) (hn : ¬ (s.group k).Answered) :
    s.relay.At (.team k) (s.group k).owner := by
  refine ⟨rfl, hb, fun hk he => ?_, fun hk => ?_⟩
  · exact hn ⟨hb, fun _ => he, fun hk' => absurd hk hk'⟩
  · by_contra hne
    exact hn ⟨hb, fun hk' => absurd hk' hk, fun _ => hne⟩

/-- A caller that was proceeded was proceeded by its group. -/
lemma answered (hI : s.InCall) (hc : (s.journey j).ctx = .yielded (.group k))
    (hl : s.relay.Leads j .proceeded) : (s.group k).Answered := by
  have hd : (s.journey j).deferHandler = none := hl.fits.no_handler (by simp) (by simp)
  have hb := hI.began j k hc hd
  by_contra hn
  have hat := at_team hb hn
  rw [(hI.call j k (.inl hc)).2.1] at hat
  cases (hl.suits _ hat).1

variable (hS : s.relay.Sound) (hD : s.Deed a s') (hI : s.InCall)
include hS hD hI

lemma step_fresh : ∀ k, s'.groups ≤ k → s'.group k = {} := by
  intro k hk
  have hle := groups_of_deed hD
  have hk' : s.groups ≤ k := hle.trans hk
  have hnb : (s.group k).began = false := hS.waits.team k hk'
  cases groupTurn_of_deed hS hD k with
  | same _ h => rw [h, hI.fresh k hk']
  | opens j kind size left _ hg hg' _ h => omega
  | quits t j _ _ hc _ h => exact absurd (hI.call j k (.inr hc)).1 (by omega)
  | begins j _ hd _ h => exact absurd (hS.waits.prepared j _ hd).2.1 (Nat.not_lt.mpr hk')
  | launches _ hb => cases hnb.symm.trans hb
  | holds j _ hb => cases hnb.symm.trans hb
  | releases x _ hb => cases hnb.symm.trans hb
  | rets t j i v _ _ hb => cases hnb.symm.trans hb

/-- The caller stays in the call, and the group open. -/
lemma stays (hw : s.Within j k) (hw' : (s'.journey j).ctx ≠ .user) :
    k < s'.groups ∧ (s'.group k).owner = j ∧ (s'.group k).left = false := by
  obtain ⟨hk, ho, hl⟩ := hI.call j k hw
  have hT := groupTurn_of_deed hS hD k
  refine ⟨hk.trans_le (groups_of_deed hD), (hT.fixed hk).2.1.trans ho, ?_⟩
  cases hT with
  | opens _ _ _ _ _ hg => exact absurd hg hk.ne
  | quits t i _ _ hc hc' _ =>
    obtain rfl : i = j := (hI.call i k (.inr hc)).2.1.symm.trans ho
    exact absurd hc' hw'
  | releases x _ _ _ _ h _ => rw [h, Group.sameCall_released.left, hl]
  | rets t i n v _ _ _ _ _ _ h _ => rw [h, Group.sameCall_returned.left, hl]
  | same _ h | begins _ _ _ _ h | launches _ _ _ _ _ h | holds _ _ _ _ h =>
    rw [h]
    exact hl

lemma step_call (hw : s'.Within j k) :
    k < s'.groups ∧ (s'.group k).owner = j ∧ (s'.group k).left = false := by
  rcases hw with hw | hw
  · rcases yielded_of_deed hS hD hw with h | ⟨rfl, hg, ho, hl⟩
    · exact hI.stays hS hD (.inl h) (by simp [hw])
    · exact ⟨by omega, ho, by rw [hl, hI.fresh _ le_rfl]⟩
  · have hold : s.Within j k := by
      rcases resumed_of_deed hS hD hw with h | ⟨h, -⟩
      · exact .inr h
      · exact .inl h
    exact hI.stays hS hD hold (by simp [hw])

lemma step_handler {d : Deferred} (hd : (s'.journey j).deferHandler = some d) :
    ∃ op, (s'.journey j).ctx = .yielded op ∧ d = op.deferred := by
  have hctx : ∀ {m : Member}, s'.bare j = m → (s'.journey j).ctx = m.ctx :=
    fun h => congrArg Member.ctx h
  have hhand : ∀ {m : Member}, s'.bare j = m → m.handler = some d :=
    fun h => (congrArg Member.handler h).symm.trans hd
  cases memberTurn_of_deed hS hD j with
  | same h | creates _ h | launches _ _ _ _ _ _ _ _ h =>
    rw [hctx h]
    exact hI.handler j d (hhand h)
  | starts hl h =>
    cases (hl.fits.no_handler (by simp) (by simp)).symm.trans (hhand h)
  | resumes op hl _ h =>
    cases (hl.fits.no_handler (by simp) (by simp)).symm.trans (hhand h)
  | goes x _ hc h =>
    obtain ⟨op, ho, -⟩ := hI.handler j d (hhand h)
    rw [ho] at hc
    rcases hc with hc | ⟨i, hc⟩ | ⟨op', hc, -⟩ <;> cases hc
  | yields op _ _ h =>
    have := hhand h
    exact ⟨op, hctx h, (Option.some_injective _ this).symm⟩
  | leaves _ _ _ hc h | closes _ _ _ hc h | ends hc h =>
    obtain ⟨op, ho, -⟩ := hI.handler j d (hhand h)
    cases hc.symm.trans ho
  | answers _ _ _ h => cases hhand h

lemma step_began (hc : (s'.journey j).ctx = .yielded (.group k))
    (hd : (s'.journey j).deferHandler = none) : (s'.group k).began = true := by
  have hctx : ∀ {m : Member}, s'.bare j = m → m.ctx = .yielded (.group k) :=
    fun h => (congrArg Member.ctx h).symm.trans hc
  have hhand : ∀ {m : Member}, s'.bare j = m → m.handler = none :=
    fun h => (congrArg Member.handler h).symm.trans hd
  have hmono := (groupTurn_of_deed hS hD k).began
  cases memberTurn_of_deed hS hD j with
  | same h | creates _ h | launches _ _ _ _ _ _ _ _ h =>
    exact hmono (hI.began j k (hctx h) (hhand h))
  | answers d hd' hb h =>
    obtain ⟨op, ho, rfl⟩ := hI.handler j d hd'
    obtain rfl : op = .group k := by
      cases ho.symm.trans (hctx h)
      rfl
    exact hb k rfl
  | goes x hx _ h =>
    have := hctx h
    rcases hx with rfl | ⟨i, rfl⟩ <;> cases this
  | yields op _ _ h => cases hhand h
  | starts _ h | leaves _ _ _ _ h | resumes _ _ _ h | closes _ _ _ _ h | ends _ h => cases hctx h

lemma step_resumed (hc : (s'.journey j).ctx = .resumed (.group k)) : (s'.group k).Answered := by
  have hmono := (groupTurn_of_deed hS hD k).answered hS.waits
  rcases resumed_of_deed hS hD hc with h | ⟨h, hl⟩
  · exact hmono (hI.resumed j k h)
  · exact hmono (hI.answered h hl)

lemma step_left (hl : (s'.group k).left = true) :
    (s'.group k).began = false ∨ (s'.group k).Answered := by
  have hT := groupTurn_of_deed hS hD k
  have hmono := hT.answered hS.waits
  have hold : (s.group k).left = true → (s'.group k).began = (s.group k).began →
      (s'.group k).began = false ∨ (s'.group k).Answered := by
    intro h hb
    rw [hb]
    exact (hI.left k h).imp_right hmono
  cases hT with
  | opens j kind size left _ hg _ _ h =>
    refine .inl ?_
    rw [h]
    exact hS.waits.team k hg.ge
  | quits t j _ _ hc _ h => exact .inr (hmono (hI.resumed j k hc))
  | begins j _ hd _ h =>
    obtain ⟨op, ho, he⟩ := hI.handler j _ hd
    obtain rfl := deferred_eq_launch he
    rw [h] at hl
    cases (hI.call j k (.inl ho)).2.2.symm.trans hl
  | releases x _ _ _ _ h _ =>
    exact hold (by rwa [h, Group.sameCall_released.left] at hl)
      (by rw [h, Group.sameCall_released.began])
  | rets t j i v _ _ _ _ _ _ h _ =>
    exact hold (by rwa [h, Group.sameCall_returned.left] at hl)
      (by rw [h, Group.sameCall_returned.began])
  | same _ h | launches _ _ _ _ _ h | holds _ _ _ _ h =>
    rw [h] at hl
    exact hold hl (by rw [h])

lemma step_armed (hb : (s'.group k).began = true) (hn : ¬ (s'.group k).Answered) :
    (s'.journey (s'.group k).owner).ctx = .yielded (.group k) := by
  have hT := groupTurn_of_deed hS hD k
  have hna : ¬ (s.group k).Answered := fun ha => hn (hT.answered hS.waits ha)
  -- the owner is switched away in the call, and the launch loop begins or has begun
  obtain ⟨hk, hc, hsus⟩ : k < s.groups ∧
      (s.journey (s.group k).owner).ctx = .yielded (.group k) ∧
      ¬ s.relay.Leads (s.group k).owner .proceeded := by
    by_cases hnb : (s.group k).began = true
    · refine ⟨?_, hI.armed k hnb hna, fun hl => ?_⟩
      · by_contra hk
        cases (hS.waits.team k (Nat.not_lt.mp hk)).symm.trans hnb
      · cases (hl.suits _ (at_team hnb hna)).1
    · cases hT with
      | begins j _ hd _ h =>
        obtain ⟨op, ho, he⟩ := hI.handler j _ hd
        obtain rfl := deferred_eq_launch he
        obtain ⟨hk, rfl, -⟩ := hI.call j k (.inl ho)
        refine ⟨hk, ho, fun hl => ?_⟩
        cases (hl.fits.no_handler (by simp) (by simp)).symm.trans hd
      | opens _ _ _ _ _ _ _ _ h | same _ h | quits _ _ _ _ _ _ h =>
        rw [h] at hb
        exact absurd hb hnb
      | launches _ h | holds _ _ h | releases _ _ h | rets _ _ _ _ _ _ h => exact absurd h hnb
  rw [(hT.fixed hk).2.1]
  have hctx : ∀ {m : Member}, s'.bare (s.group k).owner = m →
      (s'.journey (s.group k).owner).ctx = m.ctx := fun h => congrArg Member.ctx h
  cases memberTurn_of_deed hS hD (s.group k).owner with
  | same h | creates _ h | launches _ _ _ _ _ _ _ _ h | answers _ _ _ h => exact (hctx h).trans hc
  | starts hl _ =>
    have hhere := hl.fits.away.mp (congrArg Ctx.whereabouts hc)
    cases hhere
  | resumes _ hl _ _ => exact absurd hl hsus
  | goes x _ hc' _ =>
    rw [hc] at hc'
    rcases hc' with h | ⟨i, h⟩ | ⟨op, h, -⟩ <;> cases h
  | yields _ hc' _ _ | leaves _ _ _ hc' _ | closes _ _ _ hc' _ | ends hc' _ =>
    cases hc.symm.trans hc'

/-- A caller that was proceeded waits for its resumption. -/
lemma step_proceeded (hS' : s'.relay.Sound) (hc : (s'.journey j).ctx = .yielded (.group k))
    (ha : (s'.group k).Answered) : (s'.journey j).log.getLast? = some .proceed := by
  by_cases hans : (s.group k).Answered
  · have hk : k < s.groups := by
      by_contra hk
      cases (hS.waits.team k (Nat.not_lt.mp hk)).symm.trans hans.1
    have hold : (s.journey j).ctx = .yielded (.group k) := by
      rcases yielded_of_deed hS hD hc with h | ⟨hk', -⟩
      · exact h
      · exact absurd hk' hk.ne
    have hlast := hI.proceeded j k hold hans
    obtain ⟨l, hl⟩ := hS.lives.leads j
    obtain rfl : l = .proceeded := (Life.proceeded_iff hl.after).mpr hlast
    obtain ⟨es, l', hlog, hr, hafter⟩ := after_of_deed hS' hD hl
    have hes : es = [] := by
      refine Life.proceeded_after hafter fun h => ?_
      obtain ⟨-, op, ho⟩ := hr h
      cases ho.symm.trans hc
    rw [hlog, hes, List.append_nil]
    exact hlast
  · have hT := groupTurn_of_deed hS hD k
    obtain ⟨hb, hlast⟩ := hT.newly hS hans ha
    have hk : k < s.groups := by
      by_contra hk
      cases (hS.waits.team k (Nat.not_lt.mp hk)).symm.trans hb
    have ho := (hI.step_call hS hD (.inl hc)).2.1
    rw [(hT.fixed hk).2.1] at ho
    rwa [ho] at hlast

theorem step (hS' : s'.relay.Sound) : s'.InCall where
  fresh := hI.step_fresh hS hD
  call _ _ := hI.step_call hS hD
  handler _ _ := hI.step_handler hS hD
  began _ _ := hI.step_began hS hD
  resumed _ _ := hI.step_resumed hS hD
  proceeded _ _ := hI.step_proceeded hS hD hS'
  left _ := hI.step_left hS hD
  armed _ := hI.step_armed hS hD

end InCall

/-! ### The children of groups -/

/-- The handler of journey `j` has returned or thrown. -/
def Done (s : Runtime) (j : ℕ) : Prop :=
  (s.journey j).ctx = .closing ∨ (s.journey j).ctx = .ended

instance (s : Runtime) (j : ℕ) : Decidable (s.Done j) := inferInstanceAs (Decidable (_ ∨ _))

/-- The handler of journey `j` has ended, and its copy in the coroutine is gone. -/
def Ended (s : Runtime) (j : ℕ) : Prop := LifeEvent.finish ∈ (s.journey j).log

instance (s : Runtime) (j : ℕ) : Decidable (s.Ended j) := inferInstanceAs (Decidable (_ ∈ _))

structure Kin (s : Runtime) : Prop where
  begun : ∀ j, s.Done j → LifeEvent.start ∈ (s.journey j).log
  finished : ∀ j, s.Ended j → s.Done j
  sized : ∀ k, (s.group k).kind = .goAnyWait → 1 ≤ (s.group k).size
  born : ∀ j r, (s.journey j).role = some r → (s.journey j).log ≠ []
  role : ∀ j k i, (s.journey j).role = some (k, i) → i < (s.group k).launched
  unique : ∀ j j' r, (s.journey j).role = some r → (s.journey j').role = some r → j = j'
  exist : ∀ k i, i < (s.group k).launched → ∃ j, (s.journey j).role = some (k, i)
  size : ∀ k, (s.group k).launched ≤ (s.group k).size
  /-- Without its loop, a group has all its children. -/
  loop : ∀ k, (s.group k).began = true → .loop ∉ (s.group k).holders →
    (s.group k).launched = (s.group k).size

namespace Kin

lemma init (h : machine.init s) : s.Kin := by
  obtain ⟨alone, rfl⟩ := h
  exact ⟨by simp [Done], by simp [Ended], by simp, by simp, by simp, by simp, by simp, by simp,
    by simp⟩

lemma role_fresh (hS : s.relay.Sound) (hj : s.created < j) : (s.journey j).role = none := by
  have h := congrArg Runner.role (hS.lives.fresh j (.inr hj))
  simpa [relay, Journey.runner] using h

variable (hS : s.relay.Sound) (hD : s.Deed a s') (hK : s.Kin)
include hS hD

/-- A child after the step was one before, or is launched. -/
lemma role_of_deed {r : ℕ × ℕ} (hr : (s'.journey j).role = some r) :
    (s.journey j).role = some r ∨ (j = s.created + 1 ∧ r.2 = (s.group r.1).launched ∧
      (s'.group r.1).launched = (s.group r.1).launched + 1 ∧ (s'.journey j).log ≠ []) := by
  have hrole : ∀ {m : Member}, s'.bare j = m → m.role = some r :=
    fun h => (congrArg Member.role h).symm.trans hr
  cases memberTurn_of_deed hS hD j with
  | creates _ h => cases hrole h
  | launches t i k hj _ _ hl hn h =>
    obtain rfl : (k, (s.group k).launched) = r := Option.some_injective _ (hrole h)
    exact .inr ⟨hj, rfl, hl, hn⟩
  | same h | starts _ h | goes _ _ _ h | yields _ _ _ h | leaves _ _ _ _ h | answers _ _ _ h
  | resumes _ _ _ h | closes _ _ _ _ h | ends _ h => exact .inl (hrole h)

/-- A journey keeps its role. -/
lemma role_stays {r : ℕ × ℕ} (hr : (s.journey j).role = some r) :
    (s'.journey j).role = some r := by
  have hold : j ≠ s.created + 1 := by
    rintro rfl
    cases (role_fresh hS (Nat.lt_succ_self _)).symm.trans hr
  have hrole : ∀ {m : Member}, s'.bare j = m → (s'.journey j).role = m.role :=
    fun h => congrArg Member.role h
  cases memberTurn_of_deed hS hD j with
  | creates hj _ => exact absurd hj hold
  | launches _ _ _ hj _ _ _ _ _ => exact absurd hj hold
  | same h | starts _ h | goes _ _ _ h | yields _ _ _ h | leaves _ _ _ _ h | answers _ _ _ h
  | resumes _ _ _ h | closes _ _ _ _ h | ends _ h => exact (hrole h).trans hr

lemma launched_of_deed (k : ℕ) : (s'.group k).launched = (s.group k).launched ∨
    ((s'.group k).launched = (s.group k).launched + 1 ∧ (s.group k).launched < (s.group k).size ∧
      (s'.group k).size = (s.group k).size ∧
      (s'.journey (s.created + 1)).role = some (k, (s.group k).launched)) := by
  cases groupTurn_of_deed hS hD k with
  | launches _ _ _ hlt hr h =>
    rw [h]
    exact .inr ⟨rfl, hlt, rfl, hr⟩
  | releases x _ _ _ _ h _ => rw [h, Group.sameCall_released.launched]; exact .inl rfl
  | rets t j i v _ _ _ _ _ _ h _ => rw [h, Group.sameCall_returned.launched]; exact .inl rfl
  | same _ h | opens _ _ _ _ _ _ _ _ h | quits _ _ _ _ _ _ h | begins _ _ _ _ h
  | holds _ _ _ _ h =>
    rw [h]
    exact .inl rfl

/-- A handler that is done was done before, or it is ended by the action. -/
lemma done_of_deed (hd : s'.Done j) : s.Done j ∨ (s.journey j).ctx = .user ∧
    ∃ t, s.stage t j = some .running ∧ (a = .escape t j ∨ ∃ v, a = .ret t j v) := by
  have hctx : ∀ {m : Member}, s'.bare j = m → m.ctx = .closing ∨ m.ctx = .ended := by
    rintro _ rfl
    exact hd
  cases memberTurn_of_deed hS hD j with
  | same h | creates _ h | launches _ _ _ _ _ _ _ _ h | answers _ _ _ h => exact .inl (hctx h)
  | goes x hx _ h =>
    have := hctx h
    rcases hx with rfl | ⟨i, rfl⟩ <;> rcases this with h | h <;> cases h
  | starts _ h | yields _ _ _ h | leaves _ _ _ _ h | resumes _ _ _ h =>
    rcases hctx h with h | h <;> cases h
  | closes t ht ha hc _ => exact .inr ⟨hc, t, ht, ha⟩
  | ends hc _ => exact .inl (.inl hc)

include hK

/-- A handler that is done is done for good. -/
lemma done_stays (hd : s.Done j) : s'.Done j := by
  have hctx : ∀ {m : Member}, s'.bare j = m → (s'.journey j).ctx = m.ctx :=
    fun h => congrArg Member.ctx h
  have hnot : ∀ {x}, (s.journey j).ctx = x → x = .closing ∨ x = .ended := by
    rintro _ rfl
    exact hd
  unfold Done
  cases memberTurn_of_deed hS hD j with
  | same h | creates _ h | launches _ _ _ _ _ _ _ _ h | answers _ _ _ h =>
    rw [hctx h]
    exact hd
  | starts hl _ =>
    have := (Life.begun_iff hl.after).mpr (hK.begun j hd)
    cases this
  | goes x _ hc _ =>
    rcases hc with h | ⟨i, h⟩ | ⟨op, h, -⟩ <;> rcases hnot h with h | h <;> cases h
  | yields _ hc _ _ | leaves _ _ _ hc _ | resumes _ _ hc _ | closes _ _ _ hc _ =>
    rcases hnot hc with h | h <;> cases h
  | ends _ h => exact .inr (hctx h)

lemma step_begun (hd : s'.Done j) : LifeEvent.start ∈ (s'.journey j).log := by
  obtain ⟨es, hes, -⟩ := log_of_deed hD j
  rw [hes]
  refine List.mem_append_left _ ?_
  rcases done_of_deed hS hD hd with h | ⟨-, t, ht, -⟩
  · exact hK.begun j h
  · exact (Life.begun_iff (hS.lives.leads_running ht).after).mp rfl

lemma step_finished (he : s'.Ended j) : s'.Done j := by
  obtain ⟨es, hes, -, hf⟩ := log_of_deed hD j
  rw [Ended, hes, List.mem_append] at he
  rcases he with he | he
  · exact hK.done_stays hS hD (hK.finished j he)
  · exact .inr (hf he)

lemma step_sized (hI : s.InCall) (hg : (s'.group k).kind = .goAnyWait) :
    1 ≤ (s'.group k).size := by
  have hT := groupTurn_of_deed hS hD k
  by_cases hlt : k < s.groups
  · obtain ⟨hkind, -, hsize⟩ := hT.fixed hlt
    rw [hsize]
    exact hK.sized k (hkind ▸ hg)
  · have hfresh := hI.fresh k (Nat.not_lt.mp hlt)
    have hnb : (s.group k).began = false := by rw [hfresh]
    cases hT with
    | opens j kind size left _ _ _ hs h =>
      rw [h] at hg ⊢
      exact hs hg
    | same _ h =>
      rw [h, hfresh] at hg
      cases hg
    | quits _ _ _ _ _ _ h | begins _ _ _ _ h =>
      rw [h, hfresh] at hg
      cases hg
    | launches _ h | holds _ _ h | releases _ _ h | rets _ _ _ _ _ _ h => cases hnb.symm.trans h

lemma step_born {r : ℕ × ℕ} (hr : (s'.journey j).role = some r) : (s'.journey j).log ≠ [] := by
  rcases role_of_deed hS hD hr with h | ⟨-, -, -, hn⟩
  · obtain ⟨es, hes, -⟩ := log_of_deed hD j
    rw [hes]
    simp [hK.born j r h]
  · exact hn

lemma step_role {i : ℕ} (hr : (s'.journey j).role = some (k, i)) : i < (s'.group k).launched := by
  rcases role_of_deed hS hD hr with h | ⟨-, hi, hl, -⟩
  · have := hK.role j k i h
    rcases launched_of_deed hS hD k with h | ⟨h, -⟩ <;> omega
  · simp only at hi hl
    omega

lemma step_unique {j' : ℕ} {r : ℕ × ℕ} (hr : (s'.journey j).role = some r)
    (hr' : (s'.journey j').role = some r) : j = j' := by
  rcases role_of_deed hS hD hr with h | ⟨hj, hi, -⟩ <;>
    rcases role_of_deed hS hD hr' with h' | ⟨hj', hi', -⟩
  · exact hK.unique j j' r h h'
  · exact absurd (hK.role j r.1 r.2 h) (by omega)
  · exact absurd (hK.role j' r.1 r.2 h') (by omega)
  · rw [hj, hj']

lemma step_exist {i : ℕ} (hi : i < (s'.group k).launched) :
    ∃ j, (s'.journey j).role = some (k, i) := by
  have hold : i < (s.group k).launched → ∃ j, (s'.journey j).role = some (k, i) := by
    intro h
    obtain ⟨j, hj⟩ := hK.exist k i h
    exact ⟨j, role_stays hS hD hj⟩
  rcases launched_of_deed hS hD k with h | ⟨h, -, -, hr⟩
  · exact hold (h ▸ hi)
  · by_cases hlt : i < (s.group k).launched
    · exact hold hlt
    · obtain rfl : i = (s.group k).launched := by omega
      exact ⟨_, hr⟩

lemma step_size (hI : s.InCall) (k : ℕ) : (s'.group k).launched ≤ (s'.group k).size := by
  have hle := hK.size k
  rcases launched_of_deed hS hD k with h | ⟨h, hlt, hs, -⟩
  · by_cases hk : k < s.groups
    · rw [h, ((groupTurn_of_deed hS hD k).fixed hk).2.2]
      exact hle
    · rw [h, hI.fresh k (Nat.not_lt.mp hk)]
      exact Nat.zero_le _
  · omega

lemma step_loop (hb : (s'.group k).began = true)
    (hl : .loop ∉ (s'.group k).holders) : (s'.group k).launched = (s'.group k).size := by
  cases groupTurn_of_deed hS hD k with
  | opens j kind size left _ hg _ _ h =>
    rw [h] at hb
    cases (hS.waits.team k hg.ge).symm.trans hb
  | begins j _ _ _ h =>
    rw [h] at hl
    exact absurd (List.mem_singleton_self _) hl
  | launches _ _ hm _ _ h =>
    rw [h] at hl
    exact absurd (List.mem_append_left _ hm) hl
  | holds j _ _ _ h =>
    rw [h] at hb hl ⊢
    exact hK.loop k hb fun hm => hl (List.mem_append_left _ hm)
  | releases x _ hnb _ hx h _ =>
    rw [h, Group.holders_released] at hl
    rw [h, Group.sameCall_released.launched, Group.sameCall_released.size]
    by_cases hxl : x = .loop
    · exact Nat.le_antisymm (hK.size k) (hx hxl)
    · exact hK.loop k hnb fun hm => hl ((List.mem_erase_of_ne (Ne.symm hxl)).mpr hm)
  | rets t j i v _ _ hnb _ _ _ h _ =>
    rw [h, Group.holders_returned] at hl
    rw [h, Group.sameCall_returned.launched, Group.sameCall_returned.size]
    exact hK.loop k hnb hl
  | same _ h | quits _ _ _ _ _ _ h =>
    rw [h] at hb hl ⊢
    exact hK.loop k hb hl

theorem step (hI : s.InCall) : s'.Kin where
  begun _ := hK.step_begun hS hD
  finished _ := hK.step_finished hS hD
  sized _ := hK.step_sized hS hD hI
  born _ _ := hK.step_born hS hD
  role _ _ _ := hK.step_role hS hD
  unique _ _ _ := hK.step_unique hS hD
  exist _ _ := hK.step_exist hS hD
  size := hK.step_size hS hD hI
  loop _ := hK.step_loop hS hD

end Kin

/-- What holds of groups in every state. -/
structure Grouped (s : Runtime) : Prop where
  sound : s.relay.Sound
  inCall : s.InCall
  kin : s.Kin

theorem inductive_grouped : machine.Inductive (fun _ _ => True) Grouped where
  init _ h := ⟨relay_init h, .init h, .init h⟩
  step s a s' h _ hs := by
    have hR := Rule.of_step hs
    have hD := deed_of_rule h.sound hR
    have hS' := h.sound.hops (hops_of_rule hR)
    exact ⟨hS', h.inCall.step h.sound hD hS', h.kin.step h.sound hD h.inCall⟩

end Runtime

end Synca
