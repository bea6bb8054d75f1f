import Synca.Relay.Errands
import Synca.Runtime.Flights
import Synca.Runtime.Kin

/-!
# Operations

An operation is opened by the call of `deferIo`, started by the deferred handler and completed by
its callback. Here is what each action does to it, and where its caller stands meanwhile.
-/

namespace Synca

open Transition Relay

namespace Runtime

variable {s s' u v : Runtime} {t j k i n : ℕ} {a : Action}

/-- The operations. -/
def wires (s : Runtime) : (ℕ → Io) × ℕ := (s.io, s.ios)

/-- Where the stack of a journey stands, and what is left to do for it. -/
def stance (s : Runtime) (j : ℕ) : Ctx × Option Deferred :=
  ((s.journey j).ctx, (s.journey j).deferHandler)

/-- No operation is different in `u`, and no journey but `j` stands elsewhere. -/
structure Beside (s u : Runtime) (j : ℕ) : Prop where
  stance : ∀ n, n ≠ j → u.stance n = s.stance n
  wires : u.wires = s.wires

namespace Beside

lemma refl (s : Runtime) (j : ℕ) : s.Beside s j := ⟨fun _ _ => rfl, rfl⟩

lemma trans (h : s.Beside u j) (h' : u.Beside v j) : s.Beside v j :=
  ⟨fun n hn => (h'.stance n hn).trans (h.stance n hn), h'.wires.trans h.wires⟩

/-- The journey is arbitrary: none stands elsewhere. -/
lemma stances (h : ∀ j, s.Beside u j) (n : ℕ) : u.stance n = s.stance n :=
  (h (n + 1)).stance n (Nat.ne_of_lt (Nat.lt_succ_self n))

/-- Only journey `j` changes. -/
lemma change {x : Journey} (h : s.Beside u j) (hj : v.journey = Function.update u.journey j x)
    (hw : v.wires = u.wires) : s.Beside v j := by
  refine ⟨fun n hn => ?_, hw.trans h.wires⟩
  rw [← h.stance n hn, Runtime.stance, hj, Function.update_of_ne hn, Runtime.stance]

/-- What changes is neither a journey nor an operation. -/
lemma congr (h : s.Beside u j) (hj : v.journey = u.journey) (hw : v.wires = u.wires) :
    s.Beside v j := by
  refine ⟨fun n hn => ?_, hw.trans h.wires⟩
  rw [← h.stance n hn, Runtime.stance, hj, Runtime.stance]

/-- A journey changes, but stands where it stood. -/
lemma keep {f : Journey → Journey} (h : s.Beside u j) (i : ℕ)
    (hc : (f (u.journey i)).ctx = (u.journey i).ctx)
    (hd : (f (u.journey i)).deferHandler = (u.journey i).deferHandler) :
    s.Beside (u.mapJourney i f) j := by
  refine ⟨fun n hn => ?_, h.wires⟩
  rw [← h.stance n hn]
  simp only [Runtime.stance, mapJourney, Function.update_apply]
  split_ifs with hi
  · rw [hi, hc, hd]
  · rfl

lemma proceed (h : s.Beside u j) (i : ℕ) : s.Beside (u.proceed i) j :=
  (h.keep i rfl rfl : s.Beside (u.record i .proceed) j).congr rfl rfl

lemma create (h : s.Beside u j) (d : ℕ) (r : Option (ℕ × ℕ)) : s.Beside (u.create d r) j := by
  have hmap : s.Beside (u.mapJourney (u.created + 1) fun x => { x with
      alive := true, sched := d, role := r, log := x.log ++ [.create] }) j := h.keep _ rfl rfl
  exact hmap.congr rfl rfl

lemma tryProceed (h : s.Beside u j) (k : ℕ) (v : Option ℕ) : s.Beside (u.tryProceed k v) j := by
  unfold Runtime.tryProceed
  simp only
  split_ifs
  · refine proceed ?_ _
    exact h.congr rfl rfl
  · exact h.congr rfl rfl

lemma win (h : s.Beside u j) (k i : ℕ) : s.Beside (u.win k i) j := by
  unfold Runtime.win
  simp only
  split_ifs
  · refine proceed ?_ _
    exact h.congr rfl rfl
  · exact h.congr rfl rfl

lemma release (h : s.Beside u j) (k : ℕ) (x : Holder) : s.Beside (u.release k x) j := by
  have hmap : s.Beside (u.mapGroup k fun y => { y with holders := y.holders.erase x }) j :=
    h.congr rfl rfl
  unfold Runtime.release
  simp only
  split_ifs
  · unfold deleter
    split
    · exact hmap.proceed _
    · exact hmap
    · exact hmap.tryProceed _ _
  · exact hmap

lemma fire (h : s.Beside u j) (w : ℕ) (v : Option ℕ) : s.Beside (u.fire w v) j := by
  unfold Runtime.fire
  split
  · exact h.congr rfl rfl
  · refine proceed ?_ _
    exact h.congr rfl rfl

lemma deliver (s : Runtime) (t j : ℕ) (e : Events) : s.Beside (s.deliver t j e) j := by
  have h : s.Beside (s.takeEvent t j e) j := (refl s j).change rfl rfl
  unfold Runtime.deliver
  split
  · exact h.congr rfl rfl
  · exact h

lemma handleEvents (s : Runtime) (t j : ℕ) : s.Beside (s.handleEvents t j).2 j := by
  unfold Runtime.handleEvents
  split
  · exact (refl s j).change rfl rfl
  · exact deliver _ _ _ _

lemma throwFrom (h : s.Beside u j) (t : ℕ) (e : Exn) (op : Op) :
    s.Beside (u.throwFrom t j e op) j := by
  unfold Runtime.throwFrom
  split
  · exact h.change rfl rfl
  · rename_i b
    have hleave : s.Beside (u.leavePortal t j b) j := h.change rfl rfl
    exact hleave.change rfl rfl
  · exact h.congr rfl rfl
  · exact h.change rfl rfl
  · exact h.change rfl rfl
  · exact h.change rfl rfl

lemma defer (h : s.Beside u j) (t : ℕ) (op : Op) (d : Deferred) :
    s.Beside (u.defer t j op d) j := by
  have h' := h.trans (handleEvents u t j)
  unfold Runtime.defer
  split <;> rename_i hv <;> rw [hv] at h'
  · exact h'.change rfl rfl
  · exact h'.throwFrom _ _ _

lemma arrive (h : s.Beside u j) (t : ℕ) (c : Caller) : s.Beside (u.arrive t j c) j := by
  cases c with
  | user => exact h.change rfl rfl
  | portal src b => exact h.change rfl rfl
  | unportal src b =>
    have hleave : s.Beside (u.leavePortal t j b) j := h.change rfl rfl
    exact hleave.change rfl rfl

lemma teleport (h : s.Beside u j) (t d : ℕ) (c : Caller) : s.Beside (u.teleport t j d c) j := by
  unfold Runtime.teleport
  split_ifs
  · exact h.arrive _ _
  · exact (h.change rfl rfl : s.Beside (u.mapJourney j _) j).defer _ _ _

lemma leave (s : Runtime) (t j : ℕ) (op : Op) : s.Beside (s.leave t j op) j := by
  have h := handleEvents s t j
  unfold Runtime.leave
  split <;> rename_i hv <;> rw [hv] at h
  · exact h.throwFrom _ _ _
  · split
    · exact h.arrive _ _
    · simp only
      split_ifs
      · refine throwFrom (h.congr ?_ ?_) _ _ _ <;> rfl
      · exact h.change rfl rfl
    · exact h.change rfl rfl
    · split_ifs
      · refine throwFrom (h.congr ?_ ?_) _ _ _ <;> rfl
      · exact h.change rfl rfl

lemma checkEvents (h : s.Beside u j) (t : ℕ) : s.Beside (u.checkEvents t j) j := by
  have h' := h.trans (handleEvents u t j)
  unfold Runtime.checkEvents
  split <;> rename_i hv <;> rw [hv] at h'
  · exact h'.change rfl rfl
  · exact h'

lemma disableEvents (s : Runtime) (t j : ℕ) (g : Bool) : s.Beside (s.disableEvents t j g) j := by
  have h := handleEvents s t j
  unfold Runtime.disableEvents
  split <;> rename_i hv <;> rw [hv] at h
  · exact h.change rfl rfl
  · exact h.change rfl rfl

lemma closeScope (h : s.Beside u j) (t : ℕ) (f : Frame) : s.Beside (u.closeScope t j f) j := by
  cases f with
  | portal src b => exact h.teleport _ _ _
  | timeout k =>
    unfold Runtime.closeScope cancelOne
    exact h.change rfl rfl
  | guard =>
    have hallow : s.Beside (u.allowEvents j) j := h.change rfl rfl
    have h' := hallow.trans (handleEvents _ t j)
    unfold Runtime.closeScope closeGuard
    simp only
    split <;> rename_i hv <;> rw [hv] at h'
    · exact h'.congr rfl rfl
    · exact h'
  | destructor e =>
    unfold Runtime.closeScope closeDestructor
    split_ifs
    · exact h.change rfl rfl
    · exact h.congr rfl rfl

lemma poll (s : Runtime) (t j k : ℕ) : s.Beside (s.poll t j k) j := by
  have h := handleEvents s t j
  unfold Runtime.poll
  split <;> rename_i hv <;> rw [hv] at h
  · exact h.congr rfl rfl
  · exact h.change rfl rfl

lemma ret (s : Runtime) (j : ℕ) (r : Option ℕ) : s.Beside (s.ret j r) j := by
  have h : s.Beside (s.mapJourney j fun x => { x with ctx := .closing }) j :=
    (refl s j).change rfl rfl
  unfold Runtime.ret
  simp only
  split
  · exact h
  · split
    · exact h.win _ _
    · exact h.tryProceed _ _
    · exact h

lemma endCoro (s : Runtime) (t j : ℕ) : s.Beside (s.endCoro t j) j := by
  have h : s.Beside ((s.mapJourney j fun x => { x with
      ctx := .ended, coro := { x.coro with started := false },
      log := x.log ++ [.finish] }).setStage t .switched) j := (refl s j).change rfl rfl
  unfold Runtime.endCoro
  simp only
  split
  · exact h.release _ _
  · exact h

lemma jump (s : Runtime) (t i j : ℕ) : s.Beside (s.jump t i) j := by
  have h : s.Beside (s.mapJourney i fun x => { x with
      coro := { x.coro with running := false }, log := x.log ++ [.save] }) j :=
    (refl s j).keep i rfl rfl
  unfold Runtime.jump
  simp only
  split_ifs <;> exact h.congr rfl rfl

lemma launch (s : Runtime) (t k j : ℕ) : s.Beside (s.launch t k) j := by
  unfold Runtime.launch
  simp only
  split_ifs
  · split
    · exact (refl s j).congr rfl rfl
    · rename_i d hd
      exact ((refl s j).create d _).congr rfl rfl
  · exact ((refl s j).release k .loop).congr rfl rfl

lemma finish (s : Runtime) (t i : ℕ) (x : Exec) (j : ℕ) : s.Beside (s.finish t i x) j := by
  have h : s.Beside (s.giveUp t x) j := (refl s j).congr rfl rfl
  unfold Runtime.finish
  split_ifs
  · exact h.congr rfl rfl
  · split
    · exact h.release _ _
    · exact h

lemma dispatch (s : Runtime) (t : ℕ) (k : Task) : s.Beside (s.dispatch t k) k.journey := by
  have htake : s.Beside (s.take t k) k.journey := (refl s _).congr rfl rfl
  unfold Runtime.dispatch
  split_ifs
  · unfold start
    split_ifs
    · simp only
      split
      · exact htake.change rfl rfl
      · exact htake.change rfl rfl
    · exact htake.congr rfl rfl
  · unfold resume
    split_ifs
    · split
      · exact htake.change rfl rfl
      · exact htake.congr rfl rfl
    · exact htake.congr rfl rfl

end Beside

/-- What an action does to operations, and to where journeys stand. -/
inductive Course (s : Runtime) (a : Action) (s' : Runtime) : Prop where
  | aside (h : ∀ j, s.Beside s' j)
  | takes (t : ℕ) (k : Task) (hk : s.Takes t k) (h : s.Beside s' k.journey)
  /-- The journey itself executes. -/
  | moves (t j : ℕ) (ht : s.stage t j = some .running)
      (hr : ∀ op, (s.journey j).ctx = .resumed op → a = .leave t j) (h : s.Beside s' j)
  | opens (t j : ℕ) (h : s.Calls t j) (hs : ∀ n, n ≠ j → s'.stance n = s.stance n)
      (hw : s'.wires = (Function.update s.io s.ios { s.io s.ios with owner := j }, s.ios + 1))
  | answers (t j : ℕ) (d : Deferred) (ht : s.stage t j = some .exiting)
      (hd : (s.journey j).deferHandler = some d) (hs : ∀ n, n ≠ j → s'.stance n = s.stance n)
      (hj : s'.stance j = ((s.journey j).ctx, none))
      (hw : s'.wires = match d with
        | .startIo i => (Function.update s.io i { s.io i with pending := true }, s.ios)
        | _          => s.wires)
  | completes (i : ℕ) (error : Bool) (ha : a = .complete i error)
      (hp : (s.io i).pending = true) (hs : ∀ n, s'.stance n = s.stance n)
      (hw : s'.wires =
        (Function.update s.io i { s.io i with pending := false, error := error }, s.ios))

namespace Course

lemma of_calls (h : s.Calls t j) (hb : s.Beside s' j) : s.Course a s' :=
  .moves t j h.1.1 (fun op ho => by cases h.1.2.2.symm.trans ho) hb

lemma of_user (h : s.Runs t j .user) (hb : s.Beside s' j) : s.Course a s' :=
  .moves t j h.1 (fun op ho => by cases h.2.2.symm.trans ho) hb

lemma of_exit (h : s.stage t j = some .exiting) (fails : Bool) :
    s.Course a (s.onExit0 t j fails) := by
  unfold onExit0
  split
  · exact .aside fun i => ((Beside.refl s i).keep j rfl rfl :
      s.Beside (s.mapJourney j fun x => { x with
        alive := false, log := x.log ++ [.delete] }) i).congr rfl rfl
  · rename_i d hd
    split_ifs
    · exact .aside fun i => (Beside.refl s i).congr rfl rfl
    · have hmap : ∀ n, n ≠ j →
          (s.mapJourney j fun x => { x with deferHandler := none }).stance n = s.stance n :=
        ((Beside.refl s j).change rfl rfl : s.Beside (s.mapJourney j fun x => { x with
          deferHandler := none }) j).stance
      have hself : (s.mapJourney j fun x => { x with deferHandler := none }).stance j =
          ((s.journey j).ctx, none) := by simp [stance, mapJourney]
      cases d with
      | proceed =>
        have hp := Beside.stances fun i => (Beside.refl (s.mapJourney j fun x => { x with
          deferHandler := none }) i).proceed j
        exact .answers t j _ h hd (fun n hn => (hp n).trans (hmap n hn)) ((hp j).trans hself) rfl
      | launch k => exact .answers t j _ h hd hmap hself rfl
      | setProceed w => exact .answers t j _ h hd hmap hself rfl
      | startIo i => exact .answers t j _ h hd hmap hself rfl

end Course

theorem course_of_rule (h : Rule s a s') : s.Course a s' := by
  cases h with
  | dispatch t k h => exact .takes t k h (.dispatch s t k)
  | leave t j op h => exact .moves t j h.1 (fun _ _ => rfl) (.leave s t j op)
  | jump t j h => exact .aside (Beside.jump s t j)
  | exit t j fails h => exact .of_exit h fails
  | launch t j k h => exact .aside (Beside.launch s t k)
  | finish t j x hx hj h => exact .aside (Beside.finish s t j x)
  | go t d d' h hd => exact .aside fun j => (Beside.refl s j).create _ _
  | request t j r h hr =>
    cases r with
    | teleport d => exact .of_calls h ((Beside.refl s j).teleport _ _ _)
    | group kind size =>
      refine .of_calls h (Beside.defer ?_ _ _ _)
      exact (Beside.refl s j).congr rfl rfl
    | deferIo =>
      have hb := (Beside.refl ({ s.mapIo s.ios fun x => { x with owner := j } with
        ios := s.ios + 1 } : Runtime) j).defer t (.deferIo s.ios) (.startIo s.ios)
      exact .opens t j h hb.stance hb.wires
  | get t j c h hm =>
    unfold Runtime.get
    split
    · exact .aside fun i => (Beside.refl s i).congr rfl rfl
    · split_ifs
      · exact .aside (Beside.refl s)
      · refine .of_calls h (Beside.defer ?_ _ _ _)
        exact (Beside.refl s j).congr rfl rfl
  | portal t j d h => exact .of_calls h ((Beside.refl s j).teleport _ _ _)
  | timeout t j h =>
    refine .of_calls h ?_
    exact (Beside.refl s j).change rfl rfl
  | guard t j h => exact .of_calls h (.disableEvents s t j true)
  | destructor t j h =>
    refine .of_user h ?_
    exact (Beside.refl s j).change rfl rfl
  | closeScope t j f fs h hf =>
    refine .of_user h (Beside.closeScope ?_ t f)
    exact (Beside.refl s j).change rfl rfl
  | poll t j k h =>
    exact .moves t j h.1 (fun op ho => by cases h.2.2.symm.trans ho) (.poll s t j k)
  | handleEvents t j h => exact .of_calls h ((Beside.refl s j).checkEvents t)
  | disableEvents t j h => exact .of_calls h (.disableEvents s t j false)
  | enableEvents t j h =>
    refine .of_calls h (Beside.checkEvents ?_ t)
    exact (Beside.refl s j).change rfl rfl
  | throw t j e h => exact .of_calls h ((Beside.refl s j).change rfl rfl)
  | catching t j h he => exact .of_user h ((Beside.refl s j).change rfl rfl)
  | ret t j v h hf => exact .of_calls h (.ret s j v)
  | escape t j e h he hf => exact .of_user h ((Beside.refl s j).change rfl rfl)
  | endCoro t j h =>
    exact .moves t j h.1 (fun op ho => by cases h.2.2.symm.trans ho) (.endCoro s t j)
  | put t c v h hm =>
    refine .aside fun i => ?_
    unfold Runtime.put
    split <;> exact (Beside.refl s i).congr rfl rfl
  | handOff t v w h =>
    refine .aside fun i => Beside.fire ?_ _ _
    exact (Beside.refl s i).congr rfl rfl
  | opening t c h hm => exact .aside fun i => (Beside.refl s i).congr rfl rfl
  | close t c h hm =>
    refine .aside fun i => ?_
    unfold Runtime.close
    split_ifs
    · exact .refl s i
    · exact (Beside.refl s i).congr rfl rfl
  | closeNext t w ws h =>
    refine .aside fun i => Beside.fire ?_ _ _
    exact (Beside.refl s i).congr rfl rfl
  | closeEnd t h => exact .aside fun i => (Beside.refl s i).congr rfl rfl
  | cancel j h => exact .aside fun i => (Beside.refl s i).keep j rfl rfl
  | expire k h => exact .aside fun i => (Beside.refl s i).congr rfl rfl
  | callback k h =>
    have htimer : ∀ i, s.Beside (s.mapTimer k fun x => { x with
        phase := .done, fired := x.fired || x.scope }) i :=
      fun i => (Beside.refl s i).congr rfl rfl
    refine .aside fun i => ?_
    rw [callback, timedout]
    refine (htimer i).keep _ ?_ ?_ <;> rfl
  | complete i error h =>
    have hp := Beside.stances fun n => (Beside.refl (s.mapIo i fun x => { x with
      pending := false, error := error }) n).proceed (s.io i).owner
    exact .completes i error rfl h hp rfl
  | attach d => exact .aside fun i => (Beside.refl s i).congr rfl rfl

/-! ### The callers of operations -/

/-- Journey `j` is in the call of operation `i`. -/
def Awaits (s : Runtime) (j i : ℕ) : Prop :=
  (s.journey j).ctx = .yielded (.deferIo i) ∨ (s.journey j).ctx = .resumed (.deferIo i)

/-- Operation `i` was started, and its callback has run. -/
structure Spent (s : Runtime) (i : ℕ) : Prop where
  opened : i < s.ios
  done : (s.io i).pending = false
  handler : ∀ j, (s.journey j).deferHandler ≠ some (.startIo i)

structure Wired (s : Runtime) : Prop where
  begun : ∀ j, (s.journey j).ctx ≠ .fresh → LifeEvent.start ∈ (s.journey j).log
  call : ∀ j i, s.Awaits j i → i < s.ios ∧ (s.io i).owner = j
  /-- A switched away caller has still to start the operation, or the callback is to come, or it
  has come. -/
  waits : ∀ j i, (s.journey j).ctx = .yielded (.deferIo i) →
    (s.journey j).deferHandler = some (.startIo i) ∨ (s.io i).pending = true ∨
    (s.journey j).log.getLast? = some .proceed
  armed : ∀ i, (s.io i).pending = true →
    (s.journey (s.io i).owner).ctx = .yielded (.deferIo i)

lemma deferred_eq_startIo {op : Op} (h : Deferred.startIo i = op.deferred) : op = .deferIo i := by
  cases op with
  | deferIo n =>
    cases h
    rfl
  | teleport c => cases h
  | group k => cases h
  | get w => cases h

lemma io_of_wires {f : ℕ → Io} {m : ℕ} (h : s'.wires = (f, m)) (i : ℕ) : s'.io i = f i :=
  congrFun (congrArg Prod.fst h) i

/-- The owner of an operation is fixed when it is opened. -/
lemma Course.owner (h : s.Course a s') (hi : i ≠ s.ios) : (s'.io i).owner = (s.io i).owner := by
  have hb : ∀ {j}, s.Beside s' j → (s'.io i).owner = (s.io i).owner := fun h =>
    congrArg Io.owner (io_of_wires h.wires i)
  cases h with
  | aside h => exact hb (h 0)
  | takes t k hk h => exact hb h
  | moves t j ht hr h => exact hb h
  | opens t j h hs hw => rw [io_of_wires hw, Function.update_of_ne hi]
  | answers t j d ht hd hs hj hw =>
    cases d with
    | startIo n =>
      rw [io_of_wires hw]
      simp only [Function.update_apply]
      split_ifs with hn
      · rw [hn]
      · rfl
    | _ => exact congrArg Io.owner (io_of_wires hw i)
  | completes n e ha hp hs hw =>
    rw [io_of_wires hw]
    simp only [Function.update_apply]
    split_ifs with hn
    · rw [hn]
    · rfl

lemma Course.ios_le (h : s.Course a s') : s.ios ≤ s'.ios := by
  have hn : ∀ {f : ℕ → Io} {m : ℕ}, s'.wires = (f, m) → s'.ios = m := congrArg Prod.snd
  cases h with
  | aside h => exact (hn (h 0).wires).ge
  | takes t k hk h => exact (hn h.wires).ge
  | moves t j ht hr h => exact (hn h.wires).ge
  | opens t j h hs hw => exact (hn hw).symm ▸ Nat.le_succ _
  | answers t j d ht hd hs hj hw => cases d <;> exact (hn hw).ge
  | completes n e ha hp hs hw => exact (hn hw).ge

/-- Only the deferred handler itself takes itself off. -/
lemma Course.started (hS : s.relay.Sound) (hC : s.Course a s')
    (hd : (s.journey j).deferHandler = some (.startIo i))
    (hd' : (s'.journey j).deferHandler ≠ some (.startIo i)) : (s'.io i).pending = true := by
  have hsame : s'.stance j ≠ s.stance j := fun h => hd' ((congrArg Prod.snd h).trans hd)
  have hbusy : ∀ l, s.relay.Leads j l → l = .yielding ∨ l = .suspended := fun l hl =>
    hl.fits.handler (Option.isSome_iff_exists.mpr ⟨_, hd⟩)
  have hrun : ∀ {t}, s.stage t j ≠ some .running := fun ht => by
    rcases hbusy _ (hS.lives.leads_running ht) with h | h <;> cases h
  cases hC with
  | aside h => exact absurd (Beside.stances h j) hsame
  | takes t k hk h =>
    by_cases hj : j = k.journey
    · obtain ⟨l, hlead, hl⟩ := hS.lives.leads_at (p := .task k.start) (j := j)
        ⟨k, hk.2.2.1, hj.symm, rfl⟩
      have hne : l = .created ∨ l = .proceeded := by
        cases hst : k.start <;> rw [hst] at hl
        · exact .inr hl
        · exact .inl hl
      rcases hbusy l hlead with rfl | rfl <;> rcases hne with h | h <;> cases h
    · exact absurd (h.stance j hj) hsame
  | moves t n ht hr h =>
    refine absurd (h.stance j ?_) hsame
    rintro rfl
    exact hrun ht
  | opens t n h hs hw =>
    refine absurd (hs j ?_) hsame
    rintro rfl
    exact hrun h.1.1
  | answers t n d ht hdn hs hj hw =>
    by_cases hjn : j = n
    · subst hjn
      obtain rfl := Option.some_injective _ (hdn.symm.trans hd)
      rw [io_of_wires hw, Function.update_self]
    · exact absurd (hs j hjn) hsame
  | completes n e ha hp hs hw => exact absurd (hs j) hsame

/-- A pending operation is pending until its callback. -/
lemma Course.pending (hC : s.Course a s') (hp : (s.io i).pending = true) :
    (s'.io i).pending = true ∨ ∃ e, a = .complete i e := by
  have hb : ∀ {j}, s.Beside s' j → (s'.io i).pending = true := fun h => by
    rw [io_of_wires h.wires]
    exact hp
  cases hC with
  | aside h => exact .inl (hb (h 0))
  | takes t k hk h => exact .inl (hb h)
  | moves t j ht hr h => exact .inl (hb h)
  | opens t j h hs hw =>
    refine .inl ?_
    rw [io_of_wires hw]
    simp only [Function.update_apply]
    split_ifs with hi
    · rw [← hi]
      exact hp
    · exact hp
  | answers t j d ht hd hs hj hw =>
    refine .inl ?_
    cases d with
    | startIo n =>
      rw [io_of_wires hw]
      simp only [Function.update_apply]
      split_ifs
      · rfl
      · exact hp
    | _ =>
      rw [io_of_wires hw]
      exact hp
  | completes n e ha _ hs hw =>
    by_cases hi : i = n
    · exact .inr ⟨e, hi ▸ ha⟩
    · refine .inl ?_
      rw [io_of_wires hw, Function.update_of_ne hi]
      exact hp

/-- An operation that is pending was so before, or its deferred handler has just run. -/
lemma Course.of_pending (hC : s.Course a s') (hp : (s'.io i).pending = true) :
    (s.io i).pending = true ∨ ∃ j, (s.journey j).deferHandler = some (.startIo i) ∧
      (s'.journey j).ctx = (s.journey j).ctx := by
  have hb : ∀ {j}, s.Beside s' j → (s.io i).pending = true := fun h => by
    rw [io_of_wires h.wires] at hp
    exact hp
  cases hC with
  | aside h => exact .inl (hb (h 0))
  | takes t k hk h => exact .inl (hb h)
  | moves t j ht hr h => exact .inl (hb h)
  | opens t j h hs hw =>
    rw [io_of_wires hw] at hp
    simp only [Function.update_apply] at hp
    split_ifs at hp with hi
    · exact .inl (hi ▸ hp)
    · exact .inl hp
  | answers t j d ht hd hs hj hw =>
    cases d with
    | startIo n =>
      by_cases hi : i = n
      · subst hi
        exact .inr ⟨j, hd, congrArg Prod.fst hj⟩
      · rw [io_of_wires hw, Function.update_of_ne hi] at hp
        exact .inl hp
    | _ =>
      rw [io_of_wires hw] at hp
      exact .inl hp
  | completes n e ha _ hs hw =>
    rw [io_of_wires hw] at hp
    simp only [Function.update_apply] at hp
    split_ifs at hp
    exact .inl hp

/-- The callback proceeds the owner. -/
lemma log_complete {e : Bool} (h : Rule s (.complete i e) s') :
    (s'.journey (s.io i).owner).log = (s.journey (s.io i).owner).log ++ [.proceed] := by
  cases h with
  | complete _ _ h =>
    simp [complete, proceed, record, mapIo, schedule0, mapJourney]

namespace Wired

lemma init (h : machine.init s) : s.Wired := by
  obtain ⟨alone, rfl⟩ := h
  exact ⟨by simp, by simp [Awaits], by simp, by simp⟩

/-- The caller of a pending operation is suspended. -/
lemma at_errand (hp : (s.io i).pending = true) : s.relay.At (.errand i) (s.io i).owner := ⟨rfl, hp⟩

variable (hG : s.Grouped) (hD : s.Deed a s')
include hG hD

/-- A journey that is switched away in a call was so before, or has set its handler. -/
lemma yielded_before (hc : (s'.journey j).ctx = .yielded (.deferIo i)) :
    (s.journey j).ctx = .yielded (.deferIo i) ∨
      (s'.journey j).deferHandler = some (.startIo i) := by
  have hctx : ∀ {m : Member}, s'.bare j = m → m.ctx = .yielded (.deferIo i) := by
    rintro _ rfl
    exact hc
  cases memberTurn_of_deed hG.sound hD j with
  | same h | creates _ h | launches _ _ _ _ _ _ _ _ h | answers _ _ _ h => exact .inl (hctx h)
  | yields op _ _ h =>
    obtain rfl := Ctx.yielded.inj (hctx h)
    exact .inr (congrArg Member.handler h)
  | goes x hx _ h =>
    have := hctx h
    rcases hx with rfl | ⟨k, rfl⟩ <;> cases this
  | starts _ h | leaves _ _ _ _ h | resumes _ _ _ h | closes _ _ _ _ h | ends _ h => cases hctx h

/-- A journey that is still switched away after it was proceeded is not proceeded again. -/
lemma proceeded_stays (hS' : s'.relay.Sound) {op : Op} (hc : (s'.journey j).ctx = .yielded op)
    (hl : (s.journey j).log.getLast? = some .proceed) : (s'.journey j).log = (s.journey j).log := by
  obtain ⟨l, hlead⟩ := hG.sound.lives.leads j
  obtain rfl : l = .proceeded := (Life.proceeded_iff hlead.after).mpr hl
  obtain ⟨es, l', hlog, hr, hafter⟩ := after_of_deed hS' hD hlead
  have hes : es = [] := Life.proceeded_after hafter fun h => by
    obtain ⟨-, op', ho⟩ := hr h
    cases ho.symm.trans hc
  rw [hlog, hes, List.append_nil]

variable (hW : s.Wired)
include hW

lemma step_begun (hS' : s'.relay.Sound) (hc : (s'.journey j).ctx ≠ .fresh) :
    LifeEvent.start ∈ (s'.journey j).log := by
  obtain ⟨es, hes, -⟩ := log_of_deed hD j
  have hold : (s.journey j).ctx ≠ .fresh → LifeEvent.start ∈ (s'.journey j).log := fun h => by
    rw [hes]
    exact List.mem_append_left _ (hW.begun j h)
  have hctx : ∀ {m : Member}, s'.bare j = m → m.ctx ≠ .fresh := by
    rintro _ rfl
    exact hc
  cases memberTurn_of_deed hG.sound hD j with
  | same h | creates _ h | launches _ _ _ _ _ _ _ _ h | answers _ _ _ h => exact hold (hctx h)
  | starts hl h =>
    obtain ⟨l, hlead⟩ := hS'.lives.leads j
    have hst : l.started = true :=
      hlead.fits.started.symm.trans (congrArg Member.started h)
    refine (Life.begun_iff hlead.after).mp ?_
    cases l <;> first | rfl | cases hst
  | goes x _ hc' _ =>
    refine hold ?_
    rcases hc' with h | ⟨i, h⟩ | ⟨op, h, -⟩ <;> simp [h]
  | yields op hc' _ _ => exact hold (by simp [hc'])
  | leaves _ _ _ hc' _ => exact hold (by simp [hc'])
  | resumes op _ hc' _ => exact hold (by simp [hc'])
  | closes _ _ _ hc' _ => exact hold (by simp [hc'])
  | ends hc' _ => exact hold (by simp [hc'])

/-- A caller was in the call before, or the operation is new. -/
lemma step_call (hS' : s'.relay.Sound) (hC : s.Course a s') (h : s'.Awaits j i) :
    i < s'.ios ∧ (s'.io i).owner = j := by
  have hold : s.Awaits j i → i < s'.ios ∧ (s'.io i).owner = j := fun h => by
    obtain ⟨hi, ho⟩ := hW.call j i h
    exact ⟨hi.trans_le hC.ios_le, (hC.owner hi.ne).trans ho⟩
  have hctx : ∀ {m : Member}, s'.bare j = m →
      m.ctx = .yielded (.deferIo i) ∨ m.ctx = .resumed (.deferIo i) := by
    rintro _ rfl
    exact h
  cases memberTurn_of_deed hG.sound hD j with
  | same h | creates _ h | launches _ _ _ _ _ _ _ _ h | answers _ _ _ h => exact hold (hctx h)
  | yields op _ _ h =>
    rcases hctx h with hop | hop
    · obtain rfl := Ctx.yielded.inj hop
      have hd : (s'.journey j).deferHandler = some (.startIo i) := congrArg Member.handler h
      obtain ⟨ho, hi, -⟩ := hS'.waits.prepared j _ hd
      exact ⟨hi, ho⟩
    · cases hop
  | resumes op _ hc h =>
    rcases hctx h with hop | hop
    · cases hop
    · obtain rfl := Ctx.resumed.inj hop
      exact hold (.inl hc)
  | goes x hx _ h =>
    rcases hx with rfl | ⟨k, rfl⟩ <;> rcases hctx h with h | h <;> cases h
  | starts _ h | leaves _ _ _ _ h | closes _ _ _ _ h | ends _ h =>
    rcases hctx h with h | h <;> cases h

lemma step_waits (hS' : s'.relay.Sound) (hR : Rule s a s')
    (hc : (s'.journey j).ctx = .yielded (.deferIo i)) :
    (s'.journey j).deferHandler = some (.startIo i) ∨ (s'.io i).pending = true ∨
      (s'.journey j).log.getLast? = some .proceed := by
  have hC := course_of_rule hR
  rcases yielded_before hG hD hc with hold | hd
  · rcases hW.waits j i hold with hd | hp | hl
    · by_cases hd' : (s'.journey j).deferHandler = some (.startIo i)
      · exact .inl hd'
      · exact .inr (.inl (hC.started hG.sound hd hd'))
    · rcases hC.pending hp with hp' | ⟨e, rfl⟩
      · exact .inr (.inl hp')
      · refine .inr (.inr ?_)
        have hlog := log_complete hR
        rw [(hW.call j i (.inl hold)).2] at hlog
        rw [hlog, List.getLast?_concat]
    · exact .inr (.inr (by rw [proceeded_stays hG hD hS' hc hl, hl]))
  · exact .inl hd

/-- Until it is proceeded, the caller stays where it is. -/
lemma step_armed (hR : Rule s a s') (hp : (s'.io i).pending = true) :
    (s'.journey (s'.io i).owner).ctx = .yielded (.deferIo i) := by
  have hC := course_of_rule hR
  rcases hC.of_pending hp with hp | ⟨j, hd, hc⟩
  · have hi : i ≠ s.ios := by
      rintro rfl
      cases (hG.sound.waits.errand s.ios le_rfl).symm.trans hp
    rw [hC.owner hi]
    have hold := hW.armed i hp
    have hsus : ∀ l, s.relay.Leads (s.io i).owner l → l = .suspended :=
      fun l hl => (hl.suits _ (at_errand hp)).1
    have hctx : ∀ {m : Member}, s'.bare (s.io i).owner = m →
        (s'.journey (s.io i).owner).ctx = m.ctx := fun h => congrArg Member.ctx h
    cases memberTurn_of_deed hG.sound hD (s.io i).owner with
    | same h | creates _ h | launches _ _ _ _ _ _ _ _ h | answers _ _ _ h =>
      exact (hctx h).trans hold
    | starts hl _ => cases hsus _ hl
    | resumes _ hl _ _ => cases hsus _ hl
    | goes x _ hc' _ =>
      rw [hold] at hc'
      rcases hc' with h | ⟨i, h⟩ | ⟨op, h, -⟩ <;> cases h
    | yields _ hc' _ _ | leaves _ _ _ hc' _ | closes _ _ _ hc' _ | ends hc' _ =>
      cases hold.symm.trans hc'
  · obtain ⟨op, ho, he⟩ := hG.inCall.handler j _ hd
    obtain rfl := deferred_eq_startIo he
    obtain ⟨hi, how⟩ := hW.call j i (.inl ho)
    rw [hC.owner hi.ne, how, hc, ho]

theorem step (hS' : s'.relay.Sound) (hR : Rule s a s') : s'.Wired where
  begun _ := hW.step_begun hG hD hS'
  call _ _ := hW.step_call hG hD hS' (course_of_rule hR)
  waits _ _ := hW.step_waits hG hD hS' hR
  armed _ := hW.step_armed hG hD hR

end Wired

theorem inductive_wired : machine.Inductive (fun _ _ => True) fun s => s.Grouped ∧ s.Wired :=
  inductive_grouped.and (fun _ => .init) fun _ _ _ hG hW _ hs => by
    have hR := Rule.of_step hs
    exact hW.step hG (deed_of_rule hG.sound hR) (hG.sound.hops (hops_of_rule hR)) hR

/-! ### What has been settled -/

/-- Nothing happens to an operation any more. -/
lemma spent_of_course (hS : s.relay.Sound) (hR : Rule s a s') (h : s.Spent i) :
    s'.Spent i ∧ s'.io i = s.io i := by
  have hC := course_of_rule hR
  have hU := Undone.hops hS (hops_of_rule hR)
  have hio : s'.io i = s.io i := by
    cases hC with
    | aside hb => exact io_of_wires (hb 0).wires i
    | takes t k hk hb => exact io_of_wires hb.wires i
    | moves t j ht hr hb => exact io_of_wires hb.wires i
    | opens t j hc hs hw => rw [io_of_wires hw, Function.update_of_ne h.opened.ne]
    | answers t j d ht hd hs hj hw =>
      cases d with
      | startIo n =>
        have hn : i ≠ n := by
          rintro rfl
          exact h.handler j hd
        rw [io_of_wires hw, Function.update_of_ne hn]
      | _ => exact io_of_wires hw i
    | completes n e ha hp hs hw =>
      have hn : i ≠ n := by
        rintro rfl
        cases hp.symm.trans h.done
      rw [io_of_wires hw, Function.update_of_ne hn]
  refine ⟨⟨h.opened.trans_le hC.ios_le, hio ▸ h.done, fun j hd => ?_⟩, hio⟩
  rcases hU.starts j i hd with hold | hi
  · exact h.handler j hold
  · exact absurd h.opened (Nat.not_lt.mpr hi)

/-- A journey whose stack is back in a call executes. -/
lemma running_of_resumed (hG : s.Grouped) (hW : s.Wired) {op : Op}
    (hc : (s.journey j).ctx = .resumed op) : s.relay.Leads j .running := by
  obtain ⟨l, hl⟩ := hG.sound.lives.leads j
  have hbegun := (Life.begun_iff hl.after).mpr (hW.begun j (by simp [hc]))
  have hpast : l.past = false := by
    by_contra hn
    have hend := (Life.past_iff hl.after).mp (by simpa using hn)
    rcases hG.kin.finished j hend with h | h <;> cases hc.symm.trans h
  have haway : l.away = false := by
    by_contra hn
    have hplace := hl.fits.away.mpr (by simpa using hn)
    have hback : (s.journey j).ctx.whereabouts = .back := congrArg Ctx.whereabouts hc
    cases hback.symm.trans hplace
  cases l with
  | running => exact hl
  | absent | created => cases hbegun
  | yielding | suspended | proceeded => cases haway
  | finishing | finished | deleted => cases hpast

/-- Only `leave` ends the call. -/
lemma awaits_of_rule (hG : s.Grouped) (hW : s.Wired) (hR : Rule s a s') (h : s.Awaits j i) :
    s'.Awaits j i ∨ ∃ t, a = .leave t j := by
  have hD := deed_of_rule hG.sound hR
  rcases h with hc | hc
  · refine .inl ?_
    have hctx : ∀ {m : Member}, s'.bare j = m → (s'.journey j).ctx = m.ctx :=
      fun h => congrArg Member.ctx h
    cases memberTurn_of_deed hG.sound hD j with
    | same h | creates _ h | launches _ _ _ _ _ _ _ _ h | answers _ _ _ h =>
      exact .inl ((hctx h).trans hc)
    | resumes op _ hc' h =>
      obtain rfl := Ctx.yielded.inj (hc.symm.trans hc')
      exact .inr (hctx h)
    | starts hl _ => cases hl.fits.away.mp (congrArg Ctx.whereabouts hc)
    | goes x _ hc' _ =>
      rw [hc] at hc'
      rcases hc' with h | ⟨i, h⟩ | ⟨op, h, -⟩ <;> cases h
    | yields _ hc' _ _ | leaves _ _ _ hc' _ | closes _ _ _ hc' _ | ends hc' _ =>
      cases hc.symm.trans hc'
  · have hlead := running_of_resumed hG hW hc
    have hsame : s'.stance j = s.stance j → s'.Awaits j i := fun h =>
      .inr ((congrArg Prod.fst h).trans hc)
    cases course_of_rule hR with
    | aside hb => exact .inl (hsame (Beside.stances hb j))
    | takes t k hk hb =>
      refine .inl (hsame (hb.stance j ?_))
      rintro rfl
      have hl := hlead.suits (.task k.start) ⟨k, hk.2.2.1, rfl, rfl⟩
      cases hst : k.start <;> rw [hst] at hl <;> cases hl
    | moves t n ht hr hb =>
      by_cases hj : j = n
      · subst hj
        exact .inr ⟨t, hr _ hc⟩
      · exact .inl (hsame (hb.stance j hj))
    | opens t n hcalls hs hw =>
      refine .inl (hsame (hs j ?_))
      rintro rfl
      cases hc.symm.trans hcalls.1.2.2
    | answers t n d ht hd hs hj hw =>
      by_cases hjn : j = n
      · subst hjn
        exact .inl (.inr ((congrArg Prod.fst hj).trans hc))
      · exact .inl (hsame (hs j hjn))
    | completes n e ha hp hs hw => exact .inl (hsame (hs j))

end Runtime

end Synca
