import Synca.Data.Balance

/-!
# One stage with several workers

A stage from `s` to `d` and a consumer that iterates `d`. Every worker of the stage closes `d` when
it leaves, also while others are still at work. If the first of them to close it finds the others
with nothing more to put, the consumer receives all outputs; otherwise outputs may come to a channel
that the consumer has left.
-/

namespace Synca

namespace Data

open Transition

variable {Ω T : Type*}

/-- The channels. -/
inductive Post where
  | s
  | d
  deriving DecidableEq, Repr

inductive Job where
  | pipe
  | consume
  deriving DecidableEq, Repr

instance : Fintype Job := ⟨{.pipe, .consume}, fun j => by cases j <;> simp⟩

/-- The stage, and the journey that consumes what it puts. -/
def delivery (b : Body Ω T) (n : ℕ) : Job → Stage Post Ω T
  | .pipe    => piping .s .d b n
  | .consume => consumer .d

/-- Values are put from outside into `s` only, and it is closed after the last. -/
def Delivers (s : Pipes Post Job T) : Pipes.Action Post Job Ω T → Prop
  | .feed c _ _ => c = .s
  | .finish     => ∀ p v, (s.chan .s).call p ≠ .put v
  | _           => True

/-- Worker `k` of the stage has outputs still to put, or was handed a value that `f` may make some
of. -/
def Busy (b : Body Ω T) (s : Pipes Post Job T) (k : ℕ) : Prop :=
  match s.pc (.pipe, k) with
  | .looping rest   => rest ≠ []
  | .putting p rest => rest ≠ [] ∨ ∃ v, (s.chan .d).call p = .put v
  | .getting g      => ∃ v, (g, v) ∈ (s.chan .s).gots ∧ ∃ x, b.outputs x v ≠ []
  | _               => False

/-- The first `close` of the destination finds no worker busy. -/
def ClosesLast (b : Body Ω T) (s : Pipes Post Job T) : Pipes.Action Post Job Ω T → Prop
  | .channel .d (.lock p) =>
    (s.chan .d).call p = .closing → (s.chan .d).closed = false → ∀ k, ¬ Busy b s k
  | _ => True

/-- The values that the calls of `f` of a job were made with. -/
def valuesOf (s : Pipes Post Job T) (j : Job) : List T :=
  (s.runs.filter fun r => r.worker.1 = j).map Run.value

/-- The outputs that `f` has made in the stage. -/
def outputsOf (s : Pipes Post Job T) : List T :=
  (s.runs.filter fun r => r.worker.1 = .pipe).flatMap Run.outs

/-- When the consumer's iteration has ended, every worker has made its last put, the values received
are the outputs for all values put into `s`, and none is left behind. For values that `f` was not
called with yet it puts nothing. -/
structure Delivered (b : Body Ω T) (s : Pipes Post Job T) : Prop where
  last : ∀ k, ¬ Busy b s k
  source : (s.chan .s).closed = true ∧ (s.chan .s).queue = []
  received : (valuesOf s .consume : Multiset T) = outputsOf s
  complete : ∃ rest : Multiset T, ((s.chan .s).puts : Multiset T) = valuesOf s .pipe + rest ∧
    ∀ v ∈ rest, ∀ x, b.outputs x v = []
  empty : (s.chan .d).queue = []

/-! ### The flow of a delivery -/

/-- Worker `k` of the stage has outputs still to emit. -/
def Flow.Busy (b : Body Ω T) (f : Flow Post Job T) (k : ℕ) : Prop :=
  (f.phase (.pipe, k)).pending ≠ [] ∨
    ∃ v ∈ (f.phase (.pipe, k)).held, ∃ x, b.outputs x v ≠ []

/-- The terms of a delivery. -/
def deliveryTerms (b : Body Ω T) : Terms Post Job T where
  feeds c    := c = .s
  closes f _ := ∀ k, ¬ f.Busy b k

structure Delivering (b : Body Ω T) (f : Flow Post Job T) : Prop where
  shut : f.closed .s = true → f.feeding = false
  ended : ∀ k, f.phase (.pipe, k) = .ended ∨ f.phase (.pipe, k) = .done →
    f.closed .s = true ∧ f.queue .s = []
  last : f.closed .d = true → (∀ k, ¬ f.Busy b k) ∧ f.closed .s = true ∧ f.queue .s = []
  consumed : ∀ m, f.phase (.consume, m) = .ended ∨ f.phase (.consume, m) = .done →
    f.closed .d = true ∧ f.queue .d = []
  consuming : ∀ m, (f.phase (.consume, m)).pending = []

namespace Delivering

variable {b : Body Ω T} {n : ℕ} {f f' : Flow Post Job T}

lemma init : Delivering b {} where
  shut h := by cases h
  ended _ h := by rcases h with h | h <;> cases h
  last h := by cases h
  consumed _ h := by rcases h with h | h <;> cases h
  consuming _ := rfl

/-- A worker moves on. -/
lemma setPhase (h : Delivering b f) {w : Job × ℕ} {y : Phase T}
    (hpipe : w.1 = .pipe → (f.closed .d = true → y.pending = [] ∧
      ∀ v ∈ y.held, ∀ x, b.outputs x v = []) ∧
      (y = .ended ∨ y = .done → f.closed .s = true ∧ f.queue .s = []))
    (hconsume : w.1 = .consume → y.pending = [] ∧
      (y = .ended ∨ y = .done → f.closed .d = true ∧ f.queue .d = [])) :
    Delivering b (f.setPhase w y) := by
  refine ⟨h.shut, fun k hk => ?_, fun hd => ?_, fun m hm => ?_, fun m => ?_⟩
  · rw [Flow.phase_setPhase] at hk
    split_ifs at hk with he
    · exact (hpipe (congrArg Prod.fst he).symm).2 hk
    · exact h.ended k hk
  · obtain ⟨hbusy, hs⟩ := h.last hd
    refine ⟨fun k hk => ?_, hs⟩
    rw [Flow.Busy, Flow.phase_setPhase] at hk
    split_ifs at hk with he
    · obtain ⟨hp, hv⟩ := (hpipe (congrArg Prod.fst he).symm).1 hd
      rcases hk with hk | ⟨v, hm, x, hx⟩
      · exact hk hp
      · exact hx (hv v hm x)
    · exact hbusy k hk
  · rw [Flow.phase_setPhase] at hm
    split_ifs at hm with he
    · exact (hconsume (congrArg Prod.fst he).symm).2 hm
    · exact h.consumed m hm
  · rw [Flow.phase_setPhase]
    split_ifs with he
    · exact (hconsume (congrArg Prod.fst he).symm).1
    · exact h.consuming m

lemma enqueue (h : Delivering b f) {c : Post} {v : T} (hc : f.closed c = false) :
    Delivering b (f.enqueue c v) := by
  have hq : ∀ x, f.closed x = true → f.queue x = [] → (f.enqueue c v).queue x = [] := by
    intro x hd hqd
    rw [Flow.queue_enqueue, if_neg]
    · exact hqd
    · rintro rfl
      cases hc.symm.trans hd
  refine ⟨h.shut, fun k hk => ?_, fun hd => ?_, fun m hm => ?_, h.consuming⟩
  · obtain ⟨hs, hqs⟩ := h.ended k hk
    exact ⟨hs, hq _ hs hqs⟩
  · obtain ⟨hbusy, hs, hqs⟩ := h.last hd
    exact ⟨hbusy, hs, hq _ hs hqs⟩
  · obtain ⟨hd, hqd⟩ := h.consumed m hm
    exact ⟨hd, hq _ hd hqd⟩

lemma dequeue (h : Delivering b f) {c : Post} {v : T} {q : List T} (hc : f.queue c = v :: q) :
    Delivering b (f.dequeue c v q) := by
  have hq : ∀ x, f.queue x = [] → (f.dequeue c v q).queue x = [] := by
    intro x hqd
    rw [Flow.queue_dequeue, if_neg]
    · exact hqd
    · rintro rfl
      cases hc.symm.trans hqd
  refine ⟨h.shut, fun k hk => ?_, fun hd => ?_, fun m hm => ?_, h.consuming⟩
  · exact (h.ended k hk).imp_right (hq _)
  · obtain ⟨hbusy, hs, hqs⟩ := h.last hd
    exact ⟨hbusy, hs, hq _ hqs⟩
  · exact (h.consumed m hm).imp_right (hq _)

/-- How a `close` can change the phase of a worker. -/
lemma phase_close {c : Post} {E : Job × ℕ → Prop} (hE : f.Released (delivery b n) c E)
    (w : Job × ℕ) : (f.close c E).phase w = f.phase w ∨ (f.phase w = .looping [] ∧
      (f.close c E).phase w = .ended ∧ (delivery b n w.1).src = c ∧ f.queue c = []) := by
  by_cases hw : E w
  · exact .inr ⟨hE.looping w hw, if_pos hw, hE.src w hw, hE.queue w hw⟩
  · exact .inl (if_neg hw)

lemma close (h : Delivering b f) {c : Post} {E : Job × ℕ → Prop}
    (hE : f.Released (delivery b n) c E) (hs : c = .s → f.feeding = false)
    (hd : c = .d → (∀ k, ¬ f.Busy b k) ∧ f.closed .s = true ∧ f.queue .s = []) :
    Delivering b (f.close c E) := by
  have hclosed : ∀ x, f.closed x = true → (f.close c E).closed x = true := by
    intro x hx
    rw [Flow.closed_close]
    split_ifs
    · rfl
    · exact hx
  refine ⟨fun hc => ?_, fun k hk => ?_, fun hc => ?_, fun m hm => ?_, fun m => ?_⟩
  · rw [Flow.closed_close] at hc
    split_ifs at hc with he
    · exact hs he.symm
    · exact h.shut hc
  · rcases phase_close hE (.pipe, k) with he | ⟨-, -, hsrc, hq⟩
    · rw [he] at hk
      exact (h.ended k hk).imp_left (hclosed _)
    · obtain rfl : Post.s = c := hsrc
      exact ⟨by simp, hq⟩
  · have hlast : (∀ k, ¬ f.Busy b k) ∧ f.closed .s = true ∧ f.queue .s = [] := by
      rw [Flow.closed_close] at hc
      split_ifs at hc with he
      · exact hd he.symm
      · exact h.last hc
    refine ⟨fun k hk => ?_, hclosed _ hlast.2.1, hlast.2.2⟩
    rw [Flow.Busy] at hk
    rcases phase_close hE (.pipe, k) with he | ⟨-, he, -, -⟩
    · rw [he] at hk
      exact hlast.1 k hk
    · rw [he] at hk
      rcases hk with hk | ⟨v, hv, -⟩
      · exact hk rfl
      · cases hv
  · rcases phase_close hE (.consume, m) with he | ⟨-, -, hsrc, hq⟩
    · rw [he] at hm
      exact (h.consumed m hm).imp_left (hclosed _)
    · obtain rfl : Post.d = c := hsrc
      exact ⟨by simp, hq⟩
  · rcases phase_close hE (.consume, m) with he | ⟨-, he, -, -⟩
    · rw [he]
      exact h.consuming m
    · rw [he]
      rfl

/-- A worker that still emits is busy, so the destination is not closed. -/
lemma open_of_busy (h : Delivering b f) {k : ℕ} (hk : f.Busy b k) : f.closed .d = false := by
  by_contra hd
  exact (h.last (by simpa using hd)).1 k hk

/-- Every move keeps the delivery. -/
lemma move (h : Delivering b f) (hm : f.Move (delivery b n) .s (deliveryTerms b) f') :
    Delivering b f' := by
  cases hm with
  | go w hw hn =>
    exact h.setPhase (fun _ => ⟨fun _ => ⟨rfl, fun v hv => by cases hv⟩, by simp⟩)
      fun _ => ⟨rfl, by simp⟩
  | feed c v hf hc =>
    obtain rfl : c = .s := hc
    refine h.enqueue ?_
    by_contra hs
    cases hf.symm.trans (h.shut (by simpa using hs))
  | receive w v q hw hq =>
    refine (h.dequeue hq).setPhase (fun hj => ⟨fun hd => ?_, by simp⟩) fun _ => ⟨rfl, by simp⟩
    -- with the destination closed nothing is left to receive
    rw [hj] at hq
    cases hq.symm.trans (h.last hd).2.2
  | apply w x v hw =>
    have h' : Delivering b (f.setPhase w (.looping ((delivery b n w.1).outputs x v))) := by
      obtain ⟨j, k⟩ := w
      refine h.setPhase (fun hj => ⟨fun hd => ⟨?_, fun u hu => by cases hu⟩, by simp⟩)
        fun hj => ⟨?_, by simp⟩
      · obtain rfl : j = .pipe := hj
        by_contra hne
        exact (h.last hd).1 k (.inr ⟨v, by simp [hw, Phase.held], x, hne⟩)
      · obtain rfl : j = .consume := hj
        rfl
    exact ⟨h'.shut, h'.ended, h'.last, h'.consumed, h'.consuming⟩
  | emit w c v rest hw hd =>
    obtain ⟨j, k⟩ := w
    cases j with
    | consume => cases hd
    | pipe =>
      obtain rfl : Post.d = c := Option.some_injective _ hd
      have hopen := h.open_of_busy (k := k) (.inl (by simp [hw, Phase.pending]))
      refine (h.enqueue hopen).setPhase (fun _ => ⟨fun hc => ?_, by simp⟩) (by simp)
      cases hopen.symm.trans hc
  | refuse w hw hq hc =>
    obtain ⟨j, k⟩ := w
    refine h.setPhase (fun hj => ⟨fun _ => ⟨rfl, fun v hv => by cases hv⟩, fun _ => ?_⟩)
      fun hj => ⟨rfl, fun _ => ?_⟩
    · obtain rfl : j = .pipe := hj
      exact ⟨hc, hq⟩
    · obtain rfl : j = .consume := hj
      exact ⟨hc, hq⟩
  | close w c E hw hd hE ht =>
    obtain ⟨j, k⟩ := w
    cases j with
    | consume => cases hd
    | pipe =>
      obtain rfl : Post.d = c := Option.some_injective _ hd
      obtain ⟨hs, hq⟩ := h.ended k (.inl hw)
      have hlast : (∀ k, ¬ f.Busy b k) ∧ f.closed .s = true ∧ f.queue .s = [] := by
        cases hcd : f.closed .d with
        | false => exact ⟨ht hcd, hs, hq⟩
        | true => exact h.last hcd
      refine (h.close hE (by simp) fun _ => hlast).setPhase
        (fun _ => ⟨fun _ => ⟨rfl, fun v hv => by cases hv⟩, fun _ => ?_⟩) (by simp)
      exact ⟨by simpa using hs, hq⟩
  | quit w hw hd =>
    obtain ⟨j, k⟩ := w
    cases j with
    | pipe => cases hd
    | consume => exact h.setPhase (by simp) fun _ => ⟨rfl, fun _ => h.consumed k (.inl hw)⟩
  | finish hf ht => exact ⟨fun _ => rfl, h.ended, h.last, h.consumed, h.consuming⟩
  | shut E hf hE => exact h.close hE (fun _ => hf) (by simp)

end Delivering

/-! ### The delivery in the pipelines -/

section

variable {b : Body Ω T} {n : ℕ} {s : Pipes Post Job T}

lemma busy_iff (hS : s.Sound (delivery b n) .s (deliveryTerms b)) (k : ℕ) :
    Busy b s k ↔ (s.flow (delivery b n)).Busy b k := by
  have hfit := hS.ties.fits (.pipe, k)
  have hphase : (s.flow (delivery b n)).phase (.pipe, k) = _ := Pipes.Sound.phase_of_pc rfl
  unfold Busy Flow.Busy
  rw [hphase]
  cases hpc : s.pc (.pipe, k) with
  | putting p rest =>
    have hu : (delivery b n .pipe).uses (.putting p rest) = some (.d, p) := rfl
    have hdeal := Ties.deal_of_uses (l := s.lanes) hu
    rw [hpc, hdeal] at hfit
    rw [hdeal]
    rcases hfit with hd | ⟨v, hd⟩
    · have hput : ∀ v, (s.chan .d).call p ≠ .put v := by
        intro v hv
        have hdone : (s.chan .d).deal p = .done := Option.some.inj hd
        cases (Channel.deal_of_put hv).symm.trans hdone
      simp [hd, hput, Pc.phase, Phase.pending, Phase.held]
    · have hv := Channel.call_of_put (Option.some.inj hd)
      simp [hd, hv, Pc.phase, Phase.pending]
  | getting g =>
    have hu : (delivery b n .pipe).uses (.getting g) = some (.s, g) := rfl
    have hdeal := Ties.deal_of_uses (l := s.lanes) hu
    rw [hpc, hdeal] at hfit
    rw [hdeal]
    have hgot : ∀ v, (g, v) ∈ (s.chan .s).gots ↔ (s.lanes .s).deal g = .got v :=
      fun v => ⟨(hS.still .s).deal_of_gots, Channel.Still.gots_of_deal⟩
    simp only [hgot]
    rcases hfit with hd | hd | ⟨v, hd⟩ <;>
      simp [Option.some.inj hd, Pc.phase, Phase.pending, Phase.held]
  | closing p =>
    have hu : (delivery b n .pipe).uses (.closing p) = some (.d, p) := rfl
    have hdeal := Ties.deal_of_uses (l := s.lanes) hu
    rw [hpc, hdeal] at hfit
    rw [hdeal]
    rcases hfit with hd | hd <;> simp [hd, Pc.phase, Phase.pending, Phase.held]
  | looping rest => simp [Pc.phase, Phase.pending, Phase.held]
  | _ => simp [Pc.phase, Phase.pending, Phase.held]

lemma Delivers.meets {a : Pipes.Action Post Job Ω T}
    (hS : s.Sound (delivery b n) .s (deliveryTerms b)) (h : Delivers s a) (hl : ClosesLast b s a) :
    s.Meets (delivery b n) (deliveryTerms b) a := by
  cases a with
  | feed c p v => exact h
  | finish =>
    refine ⟨trivial, fun c p v hp => (hS.ties.putter c p v ?_).resolve_right ?_⟩
    · exact Channel.deal_of_put hp
    · rintro ⟨-, hc⟩
      obtain rfl : c = .s := hc
      exact h p v hp
  | channel c a =>
    cases a with
    | lock p =>
      intro hcall hfree w hd hw
      obtain ⟨j, m⟩ := w
      cases j with
      | consume => cases hd
      | pipe =>
        obtain rfl : Post.d = c := Option.some_injective _ hd
        exact fun k hk => hl hcall hfree k ((busy_iff hS k).mpr hk)
    | _ => trivial
  | _ => trivial

/-- The values in hand are those of some workers. -/
lemma exists_of_mem_total {n : Job → ℕ} {a : Job × ℕ → Multiset T} {v : T} (h : v ∈ total n a) :
    ∃ w, v ∈ a w := by
  obtain ⟨i, -, hi⟩ := Multiset.mem_sum.mp h
  obtain ⟨m, -, hm⟩ := Multiset.mem_sum.mp hi
  exact ⟨(i, m), hm⟩

lemma readers_delivery (runs : List (Run Job T)) :
    readers (delivery b n) .s runs = runs.filter (fun r => r.worker.1 = .pipe) ∧
    readers (delivery b n) .d runs = runs.filter (fun r => r.worker.1 = .consume) := by
  constructor <;> refine List.filter_congr fun r _ => ?_ <;>
    cases hr : r.worker.1 <;> simp [delivery, piping, consumer]

lemma writers_delivery (runs : List (Run Job T)) :
    writers (delivery b n) .d runs = runs.filter (fun r => r.worker.1 = .pipe) := by
  refine List.filter_congr fun r _ => ?_
  cases hr : r.worker.1 <;> simp [delivery, piping, consumer]

/-- A delivery whose destination is first closed when no worker is busy. -/
theorem delivered_of_ended
    (h : (machine (delivery b n) .s).ReachableBy (fun s a => Delivers s a ∧ ClosesLast b s a) s)
    (hend : s.pc (.consume, 0) = .done) : Delivered b s := by
  have hr := Pipes.reachable_meets (fun _ _ hS hC => Delivers.meets hS hC.1 hC.2) h
  have hS := (Pipes.inductive_sound _ _ _).holds hr
  have hD : Delivering b (s.flow (delivery b n)) :=
    Pipes.holds_flow .init (fun _ _ => Delivering.move) hr
  have hB : Balanced (delivery b n) (s.flow (delivery b n)) (deliveryTerms b) :=
    Pipes.holds_flow .init (fun _ _ => Balanced.move) hr
  have hdone : (s.flow (delivery b n)).phase (.consume, 0) = .done := by
    rw [Pipes.Sound.phase_of_pc hend]
    rfl
  obtain ⟨hclosed, hempty⟩ := hD.consumed 0 (.inr hdone)
  obtain ⟨hbusy, hs, hqs⟩ := hD.last hclosed
  -- nobody holds a value from `d`, and nobody owes it one
  have hheld : total (fun i => (delivery b n i).n)
      ((s.flow (delivery b n)).inHand (delivery b n) .d) = 0 := by
    refine total_eq_zero fun i m hm => ?_
    cases i with
    | pipe => rfl
    | consume =>
      obtain rfl : m = 0 := Nat.lt_one_iff.mp hm
      simp [Flow.inHand, hdone, Phase.held]
  have howed : total (fun i => (delivery b n i).n)
      ((s.flow (delivery b n)).owed (delivery b n) .d) = 0 := by
    refine total_eq_zero fun i m hm => ?_
    cases i with
    | consume => rfl
    | pipe =>
      have hpend : ((s.flow (delivery b n)).phase (.pipe, m)).pending = [] := by
        by_contra hne
        exact hbusy m (.inl hne)
      simp [Flow.owed, hpend]
  have htaken := hB.taken .d
  have hgiven := hB.given .d (by simp [deliveryTerms])
  rw [hheld, add_zero, (readers_delivery _).2] at htaken
  rw [howed, add_zero, writers_delivery, Flow.puts, hempty, List.append_nil] at hgiven
  refine ⟨fun k hk => hbusy k ((busy_iff hS k).mp hk), ⟨hs, hqs⟩, htaken.symm.trans hgiven,
    ⟨total (fun i => (delivery b n i).n) ((s.flow (delivery b n)).inHand (delivery b n) .s), ?_,
      fun v hv x => ?_⟩, hempty⟩
  · have hputs : (s.chan .s).puts = (s.flow (delivery b n)).gots .s := by
      have hp := (hS.still .s).values.conserved
      rw [hp]
      exact (congrArg _ hqs).trans (List.append_nil _)
    rw [hputs, hB.taken .s, (readers_delivery _).1]
    rfl
  · obtain ⟨⟨j, m⟩, hw⟩ := exists_of_mem_total hv
    rw [Flow.inHand] at hw
    split_ifs at hw with hsrc
    · cases j with
      | consume => cases hsrc
      | pipe =>
        by_contra hne
        exact hbusy m (.inr ⟨v, hw, x, hne⟩)
    · cases hw

end

/-- Two workers copy. The first is handed 7, the second is refused and closes the destination; the
consumer ends, and then 7 is put. -/
def leftBehind : List (Pipes.Action Post Job Unit ℕ) :=
  [.piping .pipe, .go .pipe, .go .pipe, .go .pipe, .feed .s 0 7, .channel .s (.lock 0),
    .get (.pipe, 0) 1, .channel .s (.lock 1), .finish, .shut 2, .channel .s (.lock 2),
    .channel .s (.closeNext 2), .shutDone, .get (.pipe, 1) 3, .channel .s (.lock 3),
    .leave (.pipe, 1), .close (.pipe, 1) 0, .channel .d (.lock 0), .channel .d (.closeNext 0),
    .exit (.pipe, 1), .piping .consume, .get (.consume, 0) 1, .channel .d (.lock 1),
    .leave (.consume, 0), .apply (.pipe, 0) (), .put (.pipe, 0) 2, .channel .d (.lock 2),
    .putDone (.pipe, 0)]

def copy : Body Unit ℕ := .oneToOne fun _ v => .ok v

theorem leftBehind_not_delivered :
    ∃ s, (machine (delivery copy 2) .s).ReachableBy Delivers s ∧ s.pc (.consume, 0) = .done ∧
      (s.chan .d).queue = [7] ∧ ¬ Delivered copy s := by
  have he : (machine (delivery copy 2) .s).exec {} leftBehind = some _ := rfl
  have hC : (machine (delivery copy 2) .s).Along Delivers {} leftBehind := by
    refine ⟨trivial, trivial, trivial, trivial, rfl, trivial, trivial, trivial, ?_, trivial,
      trivial, trivial, trivial, trivial, trivial, trivial, trivial, trivial, trivial, trivial,
      trivial, trivial, trivial, trivial, trivial, trivial, trivial, trivial, trivial⟩
    intro p v hp
    rcases p with _ | _ | p <;> cases hp
  refine ⟨_, .exec (.init rfl) hC he, rfl, rfl, fun h => ?_⟩
  cases h.empty

/-- The second worker closes the destination when the first has put 7. -/
def takenAlong : List (Pipes.Action Post Job Unit ℕ) :=
  [.piping .pipe, .go .pipe, .go .pipe, .go .pipe, .feed .s 0 7, .channel .s (.lock 0),
    .get (.pipe, 0) 1, .channel .s (.lock 1), .finish, .shut 2, .channel .s (.lock 2),
    .channel .s (.closeNext 2), .shutDone, .get (.pipe, 1) 3, .channel .s (.lock 3),
    .leave (.pipe, 1), .apply (.pipe, 0) (), .put (.pipe, 0) 2, .channel .d (.lock 2),
    .putDone (.pipe, 0), .close (.pipe, 1) 0, .channel .d (.lock 0), .channel .d (.closeNext 0),
    .exit (.pipe, 1), .piping .consume, .get (.consume, 0) 1, .channel .d (.lock 1),
    .apply (.consume, 0) (), .get (.consume, 0) 3, .channel .d (.lock 3), .leave (.consume, 0)]

theorem delivered_takenAlong :
    ∃ s, (machine (delivery copy 2) .s).exec {} takenAlong = some s ∧
      valuesOf s .consume = [7] ∧ Delivered copy s := by
  have he : (machine (delivery copy 2) .s).exec {} takenAlong = some _ := rfl
  have hC : (machine (delivery copy 2) .s).Along
      (fun s a => Delivers s a ∧ ClosesLast copy s a) {} takenAlong := by
    have ht : True ∧ True := ⟨trivial, trivial⟩
    refine ⟨ht, ht, ht, ht, ⟨rfl, trivial⟩, ht, ht, ht, ⟨?_, trivial⟩, ht, ht, ht, ht, ht, ht, ht,
      ht, ht, ⟨trivial, fun hp => ?_⟩, ht, ht, ⟨trivial, fun _ _ k hk => ?_⟩, ht, ht, ht, ht,
      ⟨trivial, fun hp => ?_⟩, ht, ht, ⟨trivial, fun hp => ?_⟩, ht, trivial⟩
    · intro p v hp
      rcases p with _ | _ | p <;> cases hp
    · cases hp
    · rcases k with _ | _ | k
      · exact hk rfl
      · exact hk
      · exact hk
    · cases hp
    · cases hp
  exact ⟨_, he, rfl, delivered_of_ended (.exec (.init rfl) hC he) rfl⟩

end Data

end Synca
