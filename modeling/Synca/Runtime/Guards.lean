import Synca.Runtime.Hearing

/-!
# Guards

`EventsGuard` keeps no count: its destructor sets `eventsAllowed`, whoever else has cleared it. So
one guard shuts events out for the whole of its scope, and of two nested ones the outer is open from
the end of the inner.
-/

namespace Synca

open Transition

namespace Runtime

variable {s s' u : Runtime} {t j k : ℕ} {a : Action}

/-- The open scopes of each journey. -/
def scopes (s : Runtime) (j : ℕ) : List Frame := (s.journey j).frames

lemma scopes_mapJourney {f : Journey → Journey} {fs : List Frame}
    (hf : (f (s.journey j)).frames = fs) :
    (s.mapJourney j f).scopes = Function.update s.scopes j fs := by
  funext i
  simp only [scopes, mapJourney, Function.update_apply]
  split_ifs with hi
  · exact hf
  · rfl

lemma scopes_mapJourney_of_eq {f : Journey → Journey}
    (hf : (f (s.journey j)).frames = (s.journey j).frames) :
    (s.mapJourney j f).scopes = s.scopes :=
  (scopes_mapJourney hf).trans (Function.update_eq_self j s.scopes)

@[simp] lemma scopes_proceed (s : Runtime) (j : ℕ) : (s.proceed j).scopes = s.scopes :=
  scopes_mapJourney_of_eq (s := s) (f := fun x => { x with log := x.log ++ [.proceed] }) rfl

@[simp] lemma scopes_create (s : Runtime) (d : ℕ) (r : Option (ℕ × ℕ)) :
    (s.create d r).scopes = s.scopes :=
  scopes_mapJourney_of_eq (s := s) (f := fun x => { x with
    alive := true, sched := d, role := r, log := x.log ++ [.create] }) rfl

@[simp] lemma scopes_tryProceed (s : Runtime) (k : ℕ) (v : Option ℕ) :
    (s.tryProceed k v).scopes = s.scopes := by
  unfold tryProceed
  simp only
  split_ifs
  · exact scopes_proceed _ _
  · rfl

@[simp] lemma scopes_win (s : Runtime) (k i : ℕ) : (s.win k i).scopes = s.scopes := by
  unfold win
  simp only
  split_ifs
  · exact scopes_proceed _ _
  · rfl

@[simp] lemma scopes_release (s : Runtime) (k : ℕ) (h : Holder) :
    (s.release k h).scopes = s.scopes := by
  unfold release
  simp only
  split_ifs
  · unfold deleter
    split
    · exact scopes_proceed _ _
    · rfl
    · exact scopes_tryProceed _ _ _
  · rfl

@[simp] lemma scopes_deliver (s : Runtime) (t j : ℕ) (e : Events) :
    (s.deliver t j e).scopes = s.scopes := by
  have h : (s.takeEvent t j e).scopes = s.scopes :=
    scopes_mapJourney_of_eq (s := s) (f := fun x => { x with events := e, cause := none }) rfl
  unfold deliver
  split
  · exact h
  · exact h

@[simp] lemma scopes_handleEvents (s : Runtime) (t j : ℕ) :
    (s.handleEvents t j).2.scopes = s.scopes := by
  unfold handleEvents
  split
  · dsimp only
    apply scopes_mapJourney_of_eq
    rfl
  · exact scopes_deliver _ _ _ _

@[simp] lemma scopes_fly (s : Runtime) (j : ℕ) (e : Exn) : (s.fly j e).scopes = s.scopes := by
  apply scopes_mapJourney_of_eq
  rfl

@[simp] lemma scopes_leavePortal (s : Runtime) (t j b : ℕ) :
    (s.leavePortal t j b).scopes = s.scopes := by
  apply scopes_mapJourney_of_eq
  rfl

@[simp] lemma scopes_throwFrom (s : Runtime) (t j : ℕ) (e : Exn) (op : Op) :
    (s.throwFrom t j e op).scopes = s.scopes := by
  unfold throwFrom
  split
  · exact scopes_fly _ _ _
  · rw [scopes_fly, scopes_leavePortal]
  · rfl
  · exact scopes_fly _ _ _
  · exact scopes_fly _ _ _
  · exact scopes_fly _ _ _

@[simp] lemma scopes_yield (s : Runtime) (t j : ℕ) (op : Op) (h : Deferred) :
    (s.yield t j op h).scopes = s.scopes :=
  scopes_mapJourney_of_eq (s := s) (f := fun x => { x with
    ctx := .yielded op, deferHandler := some h, log := x.log ++ [.yield] }) rfl

@[simp] lemma scopes_defer (s : Runtime) (t j : ℕ) (op : Op) (h : Deferred) :
    (s.defer t j op h).scopes = s.scopes := by
  have hscopes := scopes_handleEvents s t j
  unfold defer
  split <;> rename_i hv <;> rw [hv] at hscopes
  · rw [scopes_yield, hscopes]
  · rw [scopes_throwFrom, hscopes]

/-- The scopes after `teleport` has returned to its caller. -/
def enter : Caller → List Frame → List Frame
  | .portal src b, fs => .portal src b :: fs
  | _,             fs => fs

lemma scopes_arrive (s : Runtime) (t j : ℕ) (c : Caller) :
    (s.arrive t j c).scopes = Function.update s.scopes j (enter c (s.scopes j)) := by
  cases c with
  | user =>
    rw [arrive]
    apply scopes_mapJourney
    rfl
  | portal src b =>
    rw [arrive]
    apply scopes_mapJourney
    rfl
  | unportal src b =>
    have h := scopes_leavePortal s t j b
    rw [arrive, ← h]
    apply scopes_mapJourney
    rfl

/-- Scopes after an action that opens a scope of journey `j`, if it returns. -/
def Enters (s s' : Runtime) (j : ℕ) (c : Caller) : Prop :=
  s'.scopes = s.scopes ∨ s'.scopes = Function.update s.scopes j (enter c (s.scopes j))

lemma enters_teleport (hu : u.scopes = s.scopes) (t j d : ℕ) (c : Caller) :
    s.Enters (u.teleport t j d c) j c := by
  unfold teleport
  split_ifs
  · refine .inr ?_
    rw [scopes_arrive, hu]
  · refine .inl ?_
    rw [scopes_defer, ← hu]
    apply scopes_mapJourney_of_eq
    rfl

/-- A call that opens no portal returns or throws. -/
lemma scopes_leave (s : Runtime) (t j : ℕ) {op : Op} (ho : ∀ c, op ≠ .teleport c) :
    (s.leave t j op).scopes = s.scopes := by
  have hscopes := scopes_handleEvents s t j
  unfold leave
  split <;> rename_i hv <;> rw [hv] at hscopes
  · rw [scopes_throwFrom, hscopes]
  · split
    · exact absurd rfl (ho _)
    · simp only
      split_ifs
      · rw [scopes_throwFrom]
        exact hscopes
      · rw [← hscopes]
        apply scopes_mapJourney_of_eq
        rfl
    · rw [← hscopes]
      apply scopes_mapJourney_of_eq
      rfl
    · split_ifs
      · rw [scopes_throwFrom]
        exact hscopes
      · rw [← hscopes]
        apply scopes_mapJourney_of_eq
        rfl

lemma enters_leave (s : Runtime) (t j : ℕ) (c : Caller) :
    s.Enters (s.leave t j (.teleport c)) j c := by
  have hscopes := scopes_handleEvents s t j
  unfold leave
  split <;> rename_i hv <;> rw [hv] at hscopes
  · refine .inl ?_
    rw [scopes_throwFrom, hscopes]
  · refine .inr ?_
    simp only
    rw [scopes_arrive, hscopes]

/-- What an action does to the scopes of journey `j`. -/
inductive ScopeTurn (s : Runtime) (a : Action) (s' : Runtime) (j : ℕ) : Prop where
  | same (h : s'.scopes j = s.scopes j)
  | opens (f : Frame) (hf : f ≠ .guard) (h : s'.scopes j = f :: s.scopes j)
  | guards (t : ℕ) (ha : a = .guard t j) (h : s'.scopes j = .guard :: s.scopes j)
  | closes (t : ℕ) (f : Frame) (ha : a = .closeScope t j) (h : s.scopes j = f :: s'.scopes j)

lemma ScopeTurn.of_eq (h : s'.scopes = s.scopes) : s.ScopeTurn a s' j :=
  .same (congrFun h j)

lemma ScopeTurn.of_enters {i : ℕ} {c : Caller} (h : s.Enters s' i c) : s.ScopeTurn a s' j := by
  rcases h with h | h
  · exact .of_eq h
  · by_cases hj : j = i
    · subst hj
      have hs : s'.scopes j = enter c (s.scopes j) := by rw [h, Function.update_self]
      cases c with
      | user => exact .same hs
      | portal src b => exact .opens _ (by simp) hs
      | unportal src b => exact .same hs
    · exact .same (by rw [h, Function.update_of_ne hj])

lemma scopes_checkEvents (u : Runtime) (t j : ℕ) : (u.checkEvents t j).scopes = u.scopes := by
  have hscopes := scopes_handleEvents u t j
  unfold checkEvents
  split <;> rename_i hv <;> rw [hv] at hscopes
  · rw [scopes_fly, hscopes]
  · exact hscopes

lemma scopes_allowEvents (s : Runtime) (j : ℕ) : (s.allowEvents j).scopes = s.scopes := by
  apply scopes_mapJourney_of_eq
  rfl

/-- The events are closed, or an event is thrown. -/
lemma scopes_disableEvents (s : Runtime) (t j : ℕ) (b : Bool) :
    (s.disableEvents t j b).scopes = s.scopes ∨ (s.disableEvents t j b).scopes =
      Function.update s.scopes j (if b then .guard :: s.scopes j else s.scopes j) := by
  have hscopes := scopes_handleEvents s t j
  unfold disableEvents
  split <;> rename_i hv <;> rw [hv] at hscopes
  · exact .inl (by rw [scopes_fly, hscopes])
  · refine .inr ?_
    rw [← hscopes]
    apply scopes_mapJourney
    rfl

lemma scopes_closeScope (u : Runtime) (t j : ℕ) (f : Frame) :
    (u.closeScope t j f).scopes = u.scopes := by
  cases f with
  | portal src b =>
    rcases enters_teleport (u := u) rfl t j src (.unportal src b) with h | h
    · exact h
    · exact h.trans (Function.update_eq_self j u.scopes)
  | timeout k =>
    rw [closeScope, cancelOne]
    apply scopes_mapJourney_of_eq
    rfl
  | guard =>
    have hscopes := (scopes_handleEvents (u.allowEvents j) t j).trans (scopes_allowEvents u j)
    unfold closeScope closeGuard
    simp only
    split <;> rename_i hv <;> rw [hv] at hscopes <;> exact hscopes
  | destructor e =>
    unfold closeScope closeDestructor
    split_ifs
    · apply scopes_mapJourney_of_eq
      rfl
    · rfl

lemma scopes_poll (s : Runtime) (t j k : ℕ) : (s.poll t j k).scopes = s.scopes := by
  have hscopes := scopes_handleEvents s t j
  unfold poll
  split <;> rename_i hv <;> rw [hv] at hscopes
  · exact hscopes
  · rw [← hscopes]
    apply scopes_mapJourney_of_eq
    rfl

lemma scopes_dispatch (s : Runtime) (t : ℕ) (k : Task) :
    (s.dispatch t k).scopes = s.scopes := by
  unfold dispatch
  split_ifs
  · unfold start
    split_ifs
    · simp only
      split <;> exact scopes_mapJourney_of_eq (s := s.take t k) (j := k.journey) (f := fun x => { x
        with ctx := .user, coro := ⟨true, true, false⟩, log := x.log ++ [.start] }) rfl
    · rfl
  · unfold resume
    split_ifs
    · split
      · exact scopes_mapJourney_of_eq (s := s.take t k) rfl
      · rfl
    · rfl

lemma scopes_onExit0 (s : Runtime) (t j : ℕ) (fails : Bool) :
    (s.onExit0 t j fails).scopes = s.scopes := by
  unfold onExit0
  split
  · exact scopes_mapJourney_of_eq (s := s) (j := j)
      (f := fun x => { x with alive := false, log := x.log ++ [.delete] }) rfl
  · split_ifs
    · rfl
    · rename_i d hd _
      have h : (s.mapJourney j fun x => { x with deferHandler := none }).scopes = s.scopes := by
        apply scopes_mapJourney_of_eq
        rfl
      cases d with
      | proceed => exact (scopes_proceed _ _).trans h
      | launch k => exact h
      | setProceed w => exact h
      | startIo i => exact h

lemma scopes_jump (s : Runtime) (t j : ℕ) : (s.jump t j).scopes = s.scopes := by
  have h : (s.mapJourney j fun x => { x with
      coro := { x.coro with running := false }, log := x.log ++ [.save] }).scopes = s.scopes := by
    apply scopes_mapJourney_of_eq
    rfl
  unfold jump
  simp only
  split_ifs <;> exact h

lemma scopes_launch (s : Runtime) (t k : ℕ) : (s.launch t k).scopes = s.scopes := by
  unfold launch
  simp only
  split_ifs
  · split
    · rfl
    · exact scopes_create _ _ _
  · exact scopes_release _ _ _

lemma scopes_finish (s : Runtime) (t j : ℕ) (x : Exec) : (s.finish t j x).scopes = s.scopes := by
  unfold finish
  split_ifs
  · rfl
  · split
    · exact scopes_release _ _ _
    · rfl

lemma scopes_ret (s : Runtime) (j : ℕ) (v : Option ℕ) : (s.ret j v).scopes = s.scopes := by
  have h : (s.mapJourney j fun x => { x with ctx := .closing }).scopes = s.scopes := by
    apply scopes_mapJourney_of_eq
    rfl
  unfold ret
  simp only
  split
  · exact h
  · split
    · rw [scopes_win, h]
    · rw [scopes_tryProceed, h]
    · exact h

lemma scopes_endCoro (s : Runtime) (t j : ℕ) : (s.endCoro t j).scopes = s.scopes := by
  have h : (s.mapJourney j fun x => { x with
      ctx := .ended, coro := { x.coro with started := false },
      log := x.log ++ [.finish] }).scopes = s.scopes := by
    apply scopes_mapJourney_of_eq
    rfl
  unfold endCoro
  simp only
  split
  · rw [scopes_release]
    exact h
  · exact h

lemma scopes_fire (s : Runtime) (w : ℕ) (v : Option ℕ) : (s.fire w v).scopes = s.scopes := by
  unfold fire
  split
  · rfl
  · exact scopes_proceed _ _

/-- What an action does to the scopes. -/
theorem scopeTurn_of_rule (h : Rule s a s') (j : ℕ) : s.ScopeTurn a s' j := by
  cases h with
  | dispatch t k h => exact .of_eq (scopes_dispatch s t k)
  | leave t i op h =>
    cases op with
    | teleport c => exact .of_enters (enters_leave s t i c)
    | group k => exact .of_eq (scopes_leave s t i (by simp))
    | get w => exact .of_eq (scopes_leave s t i (by simp))
    | deferIo n => exact .of_eq (scopes_leave s t i (by simp))
  | jump t i h => exact .of_eq (scopes_jump s t i)
  | exit t i fails h => exact .of_eq (scopes_onExit0 s t i fails)
  | launch t i k h => exact .of_eq (scopes_launch s t k)
  | finish t i x hx hj h => exact .of_eq (scopes_finish s t i x)
  | go t d d' h hd => exact .of_eq (scopes_create _ _ _)
  | request t i r h hr =>
    cases r with
    | teleport d => exact .of_enters (enters_teleport rfl t i d .user)
    | group kind size => exact .of_eq (scopes_defer _ _ _ _ _)
    | deferIo => exact .of_eq (scopes_defer _ _ _ _ _)
  | get t i c h hm =>
    unfold Runtime.get
    split
    · exact .of_eq rfl
    · split_ifs
      · exact .of_eq rfl
      · exact .of_eq (scopes_defer _ _ _ _ _)
  | portal t i d h => exact .of_enters (enters_teleport rfl t i d _)
  | timeout t i h =>
    have hopen : (s.openTimeout i).scopes =
        Function.update s.scopes i (.timeout s.timers :: s.scopes i) := by
      rw [openTimeout]
      apply scopes_mapJourney
      rfl
    by_cases hj : j = i
    · subst hj
      exact .opens (.timeout s.timers) (by simp) (by rw [hopen, Function.update_self])
    · exact .same (by rw [hopen, Function.update_of_ne hj])
  | guard t i h =>
    rcases scopes_disableEvents s t i true with hs | hs
    · exact .of_eq hs
    · by_cases hj : j = i
      · subst hj
        exact .guards t rfl (by rw [hs, Function.update_self, if_pos rfl])
      · exact .same (by rw [hs, Function.update_of_ne hj])
  | destructor t i h =>
    have hopen : (s.openDestructor i).scopes =
        Function.update s.scopes i (.destructor (s.journey i).flight :: s.scopes i) := by
      rw [openDestructor]
      apply scopes_mapJourney
      rfl
    by_cases hj : j = i
    · subst hj
      exact .opens (.destructor _) (by simp) (by rw [hopen, Function.update_self])
    · exact .same (by rw [hopen, Function.update_of_ne hj])
  | closeScope t i f fs h hf =>
    have hs : ((s.mapJourney i fun x => { x with frames := fs }).closeScope t i f).scopes =
        Function.update s.scopes i fs := by
      rw [scopes_closeScope]
      apply scopes_mapJourney
      rfl
    by_cases hj : j = i
    · subst hj
      exact .closes t f rfl (by rw [hs, Function.update_self]; exact hf)
    · exact .same (by rw [hs, Function.update_of_ne hj])
  | poll t i k h => exact .of_eq (scopes_poll s t i k)
  | handleEvents t i h => exact .of_eq (scopes_checkEvents s t i)
  | disableEvents t i h =>
    rcases scopes_disableEvents s t i false with hs | hs
    · exact .of_eq hs
    · exact .of_eq (hs.trans (Function.update_eq_self i s.scopes))
  | enableEvents t i h =>
    exact .of_eq ((scopes_checkEvents _ t i).trans (scopes_allowEvents s i))
  | throw t i e h => exact .of_eq (scopes_fly _ _ _)
  | catching t i h he =>
    exact .of_eq (scopes_mapJourney_of_eq (s := s.addUncaught t (-1)) (j := i)
      (f := fun x => { x with flight := none }) rfl)
  | ret t i v h hf => exact .of_eq (scopes_ret s i v)
  | escape t i e h he hf =>
    exact .of_eq (scopes_mapJourney_of_eq (s := s.addUncaught t (-1)) (j := i) (f := fun x =>
      { x with ctx := .closing, flight := none, coro := { x.coro with exc := e = .other } }) rfl)
  | endCoro t i h => exact .of_eq (scopes_endCoro s t i)
  | put t c v h hm =>
    unfold Runtime.put
    split <;> exact .of_eq rfl
  | handOff t v w h => exact .of_eq (scopes_fire _ _ _)
  | opening t c h hm => exact .of_eq rfl
  | close t c h hm =>
    unfold Runtime.close
    split_ifs <;> exact .of_eq rfl
  | closeNext t w ws h => exact .of_eq (scopes_fire _ _ _)
  | closeEnd t h => exact .of_eq rfl
  | cancel i h =>
    refine .of_eq ?_
    rw [cancel]
    apply scopes_mapJourney_of_eq
    rfl
  | expire k h => exact .of_eq rfl
  | callback k h =>
    refine .of_eq ?_
    rw [callback, timedout]
    exact scopes_mapJourney_of_eq (s := s.mapTimer k _) rfl
  | complete i error h => exact .of_eq (scopes_proceed _ _)
  | attach d => exact .of_eq rfl

/-! ### Events are allowed outside guards -/

/-- Only guards disable events. -/
def GuardsOnly (_ : Runtime) : Action → Prop
  | .disableEvents _ _ | .enableEvents _ _ => False
  | _                                      => True

/-- And no guard is destroyed inside another one. -/
def GuardsFlat (s : Runtime) : Action → Prop
  | .disableEvents _ _ | .enableEvents _ _ => False
  | .closeScope _ j                        => match (s.journey j).frames with
    | .guard :: fs => .guard ∉ fs
    | _            => True
  | _                                      => True

/-- The action destroys a guard of journey `j`. -/
def ClosesGuard (s : Runtime) (a : Action) (j : ℕ) : Prop :=
  ∃ t fs, a = .closeScope t j ∧ (s.journey j).frames = .guard :: fs

/-- The call is that of the constructor of a guard, or of the destructor, or changes nothing. -/
lemma call_cases {p : Poll} (hF : s.GuardsOnly a) (hc : s.call a = some (t, j, p)) :
    (a = .guard t j ∧ p = .disabling) ∨ (s.ClosesGuard a j ∧ p = .enabling) ∨
      (p = .plain ∨ p = .failing) ∧ (∀ u, a ≠ .guard u j) ∧ ¬ s.ClosesGuard a j := by
  cases a with
  | guard u i =>
    cases hc
    exact .inl ⟨rfl, rfl⟩
  | closeScope u i =>
    simp only [call] at hc
    split at hc
    · rename_i src b fs hf
      split_ifs at hc
      cases hc
      refine .inr (.inr ⟨.inl rfl, by simp, ?_⟩)
      rintro ⟨v, gs, he, hg⟩
      cases hf.symm.trans hg
    · rename_i fs hf
      cases hc
      exact .inr (.inl ⟨⟨t, fs, rfl, hf⟩, rfl⟩)
    · cases hc
  | disableEvents u i => exact hF.elim
  | enableEvents u i => exact hF.elim
  | leave u i =>
    refine .inr (.inr ⟨?_, by simp, by simp [ClosesGuard]⟩)
    simp only [call] at hc
    split at hc
    · cases hc
      split_ifs
      · exact .inr rfl
      · exact .inl rfl
    · cases hc
  | _ =>
    refine .inr (.inr ⟨.inl ?_, by simp, by simp [ClosesGuard]⟩)
    simp only [call] at hc
    try split_ifs at hc
    all_goals
      cases hc
      try rfl

/-- Events of a journey are allowed exactly outside its guards. -/
def Shut (s : Runtime) : Prop :=
  ∀ j, (s.journey j).events.eventsAllowed = true ↔ .guard ∉ s.scopes j

/-- A call of `handleEvents` says whether events are allowed after it. -/
lemma allowed_hear (o : Own) (p : Poll) (x : Option EventException) :
    (o.hear (.poll p x)).events.eventsAllowed = if p = .enabling then true
      else if p = .disabling ∧ x = none then false else o.events.eventsAllowed := by
  cases p <;> cases x <;> rfl

/-- Journey `j` notes its call of `handleEvents`, or something else, or nothing. -/
lemma notes_cases (s : Runtime) (a : Action) (j : ℕ) :
    (∃ t p, s.call a = some (t, j, p) ∧ s.notes j a = [.poll p (s.outcome t j p)]) ∨
      (∀ t p, s.call a ≠ some (t, j, p)) ∧ ∀ n ∈ s.notes j a, ∀ p x, n ≠ .poll p x := by
  by_cases hc : ∃ t p, s.call a = some (t, j, p)
  · obtain ⟨t, p, hc⟩ := hc
    exact .inl ⟨t, p, hc, by rw [notes_of_entry (entry_of_call hc), if_pos rfl]⟩
  · refine .inr ⟨fun t p h => hc ⟨t, p, h⟩, fun n hn p x hp => ?_⟩
    subst hp
    have hpolled : (s.polled a).1 = j → .poll p x ∉ (s.polled a).2 := by
      unfold polled
      split
      case h_1 t i q h =>
        rintro rfl
        exact absurd ⟨t, q, h⟩ hc
      case h_2 => simp
    unfold notes at hn
    split_ifs at hn with hj
    · cases a with
      | cancel | callback | throw | catching | escape | destructor =>
        obtain h := List.mem_singleton.mp hn
        cases h
      | closeScope t i =>
        rw [entry] at hn hj
        split_ifs at hn hj
        · obtain h := List.mem_singleton.mp hn
          cases h
        · exact hpolled hj hn
      | _ => exact hpolled hj hn
    · cases hn

lemma allowed_hears {o : Own} {ns : List Note} (h : ∀ n ∈ ns, ∀ p x, n ≠ .poll p x) :
    (o.hears ns).events.eventsAllowed = o.events.eventsAllowed := by
  induction ns generalizing o with
  | nil => rfl
  | cons n ns ih =>
    rw [Own.hears_cons, ih fun m hm => h m (List.mem_cons_of_mem _ hm)]
    cases n with
    | poll p x => exact absurd rfl (h _ List.mem_cons_self p x)
    | set st => rfl
    | throws e => rfl
    | catches => rfl
    | enters => rfl
    | leaves => rw [Own.events_leaves]

/-- An event that is pending stays. -/
lemma status_hears {o : Own} {ns : List Note} (h : ∀ n ∈ ns, ∀ p x, n ≠ .poll p (some x))
    (hs : o.events.gr.status ≠ .normal) : (o.hears ns).events.gr = o.events.gr := by
  induction ns generalizing o with
  | nil => rfl
  | cons n ns ih =>
    have hn : (o.hear n).events.gr = o.events.gr := by
      cases n with
      | set st => exact congrArg Prod.snd (Goer.setStatus0_of_ne hs st)
      | poll p x =>
        cases x with
        | some x => exact absurd rfl (h _ List.mem_cons_self p x)
        | none => cases p <;> rfl
      | throws e => rfl
      | catches => rfl
      | enters => rfl
      | leaves => rw [Own.events_leaves]
    rw [Own.hears_cons, ih (fun m hm => h m (List.mem_cons_of_mem _ hm)) (by rwa [hn]), hn]

/-- The guard is there if its constructor has returned. -/
lemma scopes_guard (h : Rule s (.guard t j) s') :
    (s.outcome t j .disabling = none → s'.scopes j = .guard :: s.scopes j) ∧
      (s.outcome t j .disabling ≠ none → s'.scopes j = s.scopes j) := by
  cases h with
  | guard _ _ h =>
    by_cases hd : (s.journey j).events.Deliverable (s.uncaught t)
    · rw [outcome_of_deliverable (p := .disabling) hd]
      refine ⟨fun hn => absurd hn (by simp), fun _ => ?_⟩
      rw [disableEvents, handleEvents_of_deliverable hd]
      simp only
      rw [scopes_fly, scopes_deliver]
    · rw [outcome_of_not_deliverable (p := .disabling) hd]
      refine ⟨fun _ => ?_, fun hn => absurd rfl hn⟩
      rw [disableEvents, handleEvents_of_not_deliverable hd]
      simp [scopes, mapJourney]

lemma scopes_close {f : Frame} {fs : List Frame} (h : Rule s (.closeScope t j) s')
    (hf : s.scopes j = f :: fs) : s'.scopes j = fs := by
  cases h with
  | closeScope _ _ g gs h hg =>
    obtain ⟨rfl, rfl⟩ := List.cons.inj (hg.symm.trans hf)
    rw [scopes_closeScope]
    simp [scopes, mapJourney]

/-- Apart from its own guards, a journey does not see who opens or closes scopes. -/
lemma guard_mem_of_rule (h : Rule s a s') (hg : ∀ u, a ≠ .guard u j) (hc : ¬ s.ClosesGuard a j) :
    .guard ∈ s'.scopes j ↔ .guard ∈ s.scopes j := by
  cases scopeTurn_of_rule h j with
  | same h => rw [h]
  | opens f hf h =>
    rw [h, List.mem_cons]
    exact or_iff_right (Ne.symm hf)
  | guards t ha h => exact absurd ha (hg t)
  | closes t f ha hs =>
    rw [hs, List.mem_cons]
    refine (or_iff_right ?_).symm
    rintro rfl
    exact hc ⟨t, s'.scopes j, ha, hs⟩

lemma GuardsFlat.guardsOnly (h : s.GuardsFlat a) : s.GuardsOnly a := by
  cases a with
  | disableEvents | enableEvents => exact h
  | _ => trivial

lemma Shut.step (hS : s.Shut) (hF : s.GuardsFlat a) (h : Rule s a s')
    (hlive : s'.terminated = false) : s'.Shut := by
  intro j
  have hown : (s'.journey j).events = ((s.journey j).own.hears (s.notes j a)).events :=
    congrArg Own.events ((gust_of_rule h).own hlive j)
  rw [hown]
  rcases notes_cases s a j with ⟨t, p, hc, hn⟩ | ⟨hc, hn⟩
  · rw [hn, Own.hears_cons, Own.hears_nil, allowed_hear]
    rcases call_cases hF.guardsOnly hc with ⟨rfl, rfl⟩ | ⟨⟨u, fs, rfl, hf⟩, rfl⟩ | ⟨hp, hg, hcl⟩
    · -- the constructor of a guard
      have hscopes := scopes_guard h
      by_cases ho : s.outcome t j .disabling = none
      · rw [hscopes.1 ho]
        simp [ho]
      · rw [hscopes.2 ho, if_neg (by simp), if_neg fun hx => ho hx.2]
        exact hS j
    · -- the destructor
      have hflat : .guard ∉ fs := by simpa only [GuardsFlat, hf] using hF
      have hcl : s'.scopes j = fs := scopes_close h hf
      rw [hcl, if_pos rfl]
      exact iff_of_true rfl hflat
    · rw [guard_mem_of_rule h hg hcl]
      rcases hp with rfl | rfl <;> exact hS j
  · have hg : ∀ u, a ≠ .guard u j := by
      rintro u rfl
      exact hc u .disabling rfl
    have hcl : ¬ s.ClosesGuard a j := by
      rintro ⟨u, fs, rfl, hf⟩
      exact hc u .enabling (by simp only [call, hf])
    rw [guard_mem_of_rule h hg hcl, allowed_hears hn]
    exact hS j

lemma inductive_shut : machine.Inductive GuardsFlat fun s => s.terminated = false → s.Shut where
  init s h := by
    obtain ⟨alone, rfl⟩ := h
    exact fun _ j => by simp [scopes]
  step _ _ _ hS hF hs := (hS (live_of_step hs)).step hF (.of_step hs)

/-! ### What guards promise -/

/-- The scopes around a call of `handleEvents`: a destructor is outside of its own object. -/
def around (s : Runtime) (j : ℕ) : Action → List Frame
  | .closeScope _ _ => (s.journey j).frames.tail
  | _               => (s.journey j).frames

/-- What journey `j` is thrown by `handleEvents`. -/
def heard (j : ℕ) (s : Runtime) (a : Action) : Option EventException :=
  match s.call a with
  | some (t, i, p) => if i = j then s.outcome t j p else none
  | none           => none

/-- Journey `j` calls `handleEvents` outside all guards, and is not unwinding. -/
def Listens (j : ℕ) (s : Runtime) (a : Action) : Prop :=
  ∃ t p, s.call a = some (t, j, p) ∧ .guard ∉ s.around j a ∧ ¬ s.Unwinding j

/-- When a journey calls `handleEvents`, its thread counts an exception exactly if the journey is
unwinding. -/
def CountsOwn (s : Runtime) (a : Action) : Prop :=
  match s.call a with
  | some (t, j, _) => s.uncaught t = true ↔ s.Unwinding j
  | none           => True

/-- No guard is inside another one, and the counts are right. -/
def GuardsAlone (s : Runtime) (a : Action) : Prop := s.GuardsFlat a ∧ s.CountsOwn a

/-- An event is thrown only to a journey that listens, that is, outside all guards, and a pending
one the first time it does. Until then it stays pending. -/
structure Guarded (C : Runtime → Action → Prop) (s : Runtime) (j : ℕ) : Prop where
  silent (a : Action) (s' : Runtime) : step s a = some s' → C s a → ¬ s.Listens j a →
    s.heard j a = none
  thrown (a : Action) (s' : Runtime) : step s a = some s' → C s a → s.Listens j a →
    (s.journey j).events.gr.status ≠ .normal →
      s.heard j a = some ⟨(s.journey j).events.gr.status⟩ ∧
        (s'.terminated = false → (s'.journey j).events.gr.status = .normal)
  kept (as : List Action) (s' : Runtime) : machine.exec s as = some s' → s'.terminated = false →
    machine.Along (fun s a => C s a ∧ ¬ s.Listens j a) s as →
      (s.journey j).events.gr.status ≠ .normal →
        (s'.journey j).events.gr = (s.journey j).events.gr

lemma heard_of_call {p : Poll} (hc : s.call a = some (t, j, p)) :
    s.heard j a = s.outcome t j p := by
  simp [heard, hc]

lemma heard_of_no_call (hc : ∀ t p, s.call a ≠ some (t, j, p)) : s.heard j a = none := by
  unfold heard
  split
  · rename_i t i p h
    rw [if_neg]
    rintro rfl
    exact hc t p h
  · rfl

/-- When `handleEvents` looks, events are allowed exactly outside guards. -/
lemma Shut.allowed_iff (hS : s.Shut) (hF : s.GuardsFlat a) {p : Poll}
    (hc : s.call a = some (t, j, p)) :
    (p.before (s.journey j).events).eventsAllowed = true ↔ .guard ∉ s.around j a := by
  rcases call_cases hF.guardsOnly hc with ⟨rfl, rfl⟩ | ⟨⟨u, fs, rfl, hf⟩, rfl⟩ | ⟨hp, hg, hcl⟩
  · exact hS j
  · have hflat : .guard ∉ fs := by simpa only [GuardsFlat, hf] using hF
    refine iff_of_true rfl ?_
    rw [around, hf]
    exact hflat
  · have hbefore : p.before (s.journey j).events = (s.journey j).events := by
      rcases hp with rfl | rfl <;> rfl
    rw [hbefore, hS j]
    cases a with
    | closeScope u i =>
      simp only [call] at hc
      -- the destructor of a portal
      split at hc
      · rename_i src b fs hf
        split_ifs at hc
        cases hc
        simp [around, scopes, hf]
      · rename_i fs hf
        cases hc
        exact absurd ⟨t, fs, rfl, hf⟩ hcl
      · cases hc
    | _ => exact Iff.rfl

/-- The call throws if events are allowed, one is pending and the journey is not unwinding. -/
lemma Shut.outcome_iff (hS : s.Shut) (hF : s.GuardsAlone a) {p : Poll}
    (hc : s.call a = some (t, j, p)) :
    (p.before (s.journey j).events).Deliverable (s.uncaught t) ↔
      s.Listens j a ∧ (s.journey j).events.gr.status ≠ .normal := by
  have hgr : (p.before (s.journey j).events).gr = (s.journey j).events.gr := by cases p <;> rfl
  have hcount : s.uncaught t = true ↔ s.Unwinding j := by simpa only [CountsOwn, hc] using hF.2
  rw [Events.Deliverable, hS.allowed_iff hF.1 hc, hgr, ← Bool.not_eq_true, hcount]
  constructor
  · rintro ⟨hg, hu, hs⟩
    exact ⟨⟨t, p, hc, hg, hu⟩, hs⟩
  · rintro ⟨⟨u, q, hc', hg, hu⟩, hs⟩
    exact ⟨hg, hu, hs⟩

lemma Shut.silent (hS : s.Shut) (hF : s.GuardsAlone a) (hL : ¬ s.Listens j a) :
    s.heard j a = none := by
  by_cases hc : ∃ t p, s.call a = some (t, j, p)
  · obtain ⟨t, p, hc⟩ := hc
    rw [heard_of_call hc]
    exact outcome_of_not_deliverable fun hd => hL ((hS.outcome_iff hF hc).mp hd).1
  · exact heard_of_no_call fun t p h => hc ⟨t, p, h⟩

lemma Shut.thrown (hS : s.Shut) (hF : s.GuardsAlone a) (h : Rule s a s') (hL : s.Listens j a)
    (hs : (s.journey j).events.gr.status ≠ .normal) :
    s.heard j a = some ⟨(s.journey j).events.gr.status⟩ ∧
      (s'.terminated = false → (s'.journey j).events.gr.status = .normal) := by
  obtain ⟨t, p, hc, hg, hu⟩ := hL
  have hd := (hS.outcome_iff hF hc).mpr ⟨⟨t, p, hc, hg, hu⟩, hs⟩
  have hgr : (p.before (s.journey j).events).gr = (s.journey j).events.gr := by cases p <;> rfl
  have hout := outcome_of_deliverable hd
  rw [heard_of_call hc, hout, hgr]
  refine ⟨rfl, fun hlive => ?_⟩
  have hown : (s'.journey j).events = ((s.journey j).own.hears (s.notes j a)).events :=
    congrArg Own.events ((gust_of_rule h).own hlive j)
  rcases notes_cases s a j with ⟨u, q, hc', hn⟩ | ⟨hc', -⟩
  · obtain ⟨rfl, rfl⟩ : t = u ∧ p = q := by simpa using hc.symm.trans hc'
    rw [hown, hn, hout]
    rfl
  · exact absurd hc (hc' t p)

lemma Shut.stays (hS : s.Shut) (hF : s.GuardsAlone a) (h : Rule s a s')
    (hlive : s'.terminated = false) (hL : ¬ s.Listens j a)
    (hs : (s.journey j).events.gr.status ≠ .normal) :
    (s'.journey j).events.gr = (s.journey j).events.gr := by
  have hown : (s'.journey j).events = ((s.journey j).own.hears (s.notes j a)).events :=
    congrArg Own.events ((gust_of_rule h).own hlive j)
  rw [hown]
  refine status_hears (o := (s.journey j).own) (fun n hn p x hp => ?_) hs
  rcases notes_cases s a j with ⟨t, q, hc, hns⟩ | ⟨-, hns⟩
  · have hsilent := hS.silent hF hL
    rw [heard_of_call hc] at hsilent
    rw [hns, List.mem_singleton, hsilent] at hn
    obtain ⟨-, hx⟩ := Note.poll.inj (hp.symm.trans hn)
    cases hx
  · exact hns n hn p (some x) hp

lemma shut_of_reachable (h : machine.ReachableBy GuardsAlone s) (hlive : s.terminated = false) :
    s.Shut :=
  (inductive_shut.mono fun _ _ h => h.1).holds h hlive

lemma kept_of_reachable {as : List Action} (h : machine.ReachableBy GuardsAlone s)
    (he : machine.exec s as = some s') (hlive : s'.terminated = false)
    (hC : machine.Along (fun s a => s.GuardsAlone a ∧ ¬ s.Listens j a) s as)
    (hs : (s.journey j).events.gr.status ≠ .normal) :
    (s'.journey j).events.gr = (s.journey j).events.gr := by
  induction as generalizing s with
  | nil =>
    obtain rfl : s = s' := by simpa using he
    rfl
  | cons a as ih =>
    obtain ⟨u, hu, he⟩ := Option.bind_eq_some_iff.mp he
    rw [Machine.along_cons] at hC
    have hliveU : u.terminated = false := by
      cases as with
      | nil =>
        obtain rfl : u = s' := by simpa using he
        exact hlive
      | cons b bs =>
        obtain ⟨w, hw, -⟩ := Option.bind_eq_some_iff.mp he
        exact live_of_step hw
    have hgr := (shut_of_reachable h (live_of_step hu)).stays hC.1.1 (.of_step hu) hliveU
      hC.1.2 hs
    rw [ih (h.step hC.1.1 hu) he (hC.2 u hu) (by rwa [hgr]), hgr]

instance (s : Runtime) (a : Action) : Decidable (s.GuardsFlat a) := by
  induction a using Action.casesOn with
  | disableEvents t j => exact .isFalse id
  | enableEvents t j => exact .isFalse id
  | closeScope t j =>
    dsimp only [GuardsFlat]
    induction (s.journey j).frames using List.casesOn with
    | nil => exact .isTrue trivial
    | cons f fs => induction f using Frame.casesOn <;> infer_instance
  | _ => exact .isTrue trivial

instance (s : Runtime) (a : Action) : Decidable (s.GuardsAlone a) := by
  have hcounts : Decidable (s.CountsOwn a) := by
    dsimp only [CountsOwn]
    induction s.call a using Option.casesOn with
    | none => exact .isTrue trivial
    | some x => exact inferInstanceAs (Decidable (_ ↔ _))
  exact inferInstanceAs (Decidable (_ ∧ _))

/-- Guards that are not nested protect their scopes, as long as the counts of the threads are
right. -/
theorem guarded_of_flat (h : machine.ReachableBy GuardsAlone s) (j : ℕ) :
    s.Guarded GuardsAlone j where
  silent _ _ hs hF hL := (shut_of_reachable h (live_of_step hs)).silent hF hL
  thrown _ _ hs hF hL hp :=
    (shut_of_reachable h (live_of_step hs)).thrown hF (.of_step hs) hL hp
  kept _ _ he hlive hC hp := kept_of_reachable h he hlive hC hp

/-- A journey is cancelled under a guard, which an error destroys. -/
def cancelledInside : List Action :=
  [.go 0 (some 1), .dispatch 0 ⟨1, 1, true⟩, .guard 0 1, .cancel 1, .handleEvents 0 1,
    .throw 0 1 .std, .closeScope 0 1, .catching 0 1]

theorem guarded_cancelledInside : ∃ s, machine.exec {} cancelledInside = some s ∧
    s.Guarded GuardsAlone 1 ∧ s.heard 1 (.handleEvents 0 1) = some ⟨.cancelled⟩ :=
  have he : machine.exec {} cancelledInside = some _ := rfl
  ⟨_, he, guarded_of_flat (.exec (.init ⟨_, rfl⟩) (by decide) he) 1, rfl⟩

/-- A function with a guard returns to one that still holds its own, and then the journey is
cancelled. -/
def innerClosed : List Action :=
  [.go 0 (some 1), .dispatch 0 ⟨1, 1, true⟩, .guard 0 1, .guard 0 1, .closeScope 0 1, .cancel 1]

theorem not_guarded_of_nested :
    ¬ ∀ s, machine.ReachableBy GuardsOnly s → ∀ j, s.Guarded GuardsOnly j := by
  intro h
  have he : machine.exec {} innerClosed = some _ := rfl
  have hC : machine.Along GuardsOnly {} innerClosed := ⟨trivial, trivial, trivial, trivial, trivial,
    trivial, trivial⟩
  have hguarded := h _ (.exec (.init ⟨_, rfl⟩) hC he) 1
  refine absurd (hguarded.silent (.handleEvents 0 1) _ rfl trivial ?_) (by decide)
  rintro ⟨t, p, -, hg, -⟩
  exact hg (by decide)

end Runtime

end Synca
