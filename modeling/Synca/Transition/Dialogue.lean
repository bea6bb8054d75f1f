import Mathlib.Data.List.Basic
import Mathlib.Logic.Function.Basic
import Synca.Transition.Machine

/-!
# Two programs that talk over streams

A sequential program reads a number of items, writes some, or stops; what it does next depends on
where it stands and on what it has read. Two programs talk over two streams. A stream passes on
pieces of any size and holds `cap` items at most, so a call makes its way bit by bit: who reads
waits for the other, and so does who writes to a full stream.

`Trace` says what a program has read and written when it stands somewhere, whatever the pieces were.
The invariant `Sound` ties the two programs to their traces; it holds after any run, also if calls
fail. Each move but a failure is counted, so programs that have little to say cannot talk for ever.
-/

namespace Transition

/-- What a program does next. -/
inductive Wish (β σ : Type*) where
  | read (n : ℕ) (next : List β → σ)
  | write (xs : List β) (next : σ)
  | stop

/-- One of the two. The list `got` is what its current call has read, and `sent` counts what its
current call has written. -/
structure Party (β σ : Type*) where
  pos : σ
  got : List β := []
  sent : ℕ := 0
  /-- A call has failed, and the program is over. -/
  broken : Bool := false
  /-- The calls that have returned. -/
  calls : ℕ := 0

structure Dialogue (β σ : Type*) where
  party : Bool → Party β σ
  /-- What the party has written and the other one has not read. -/
  stream : Bool → List β := fun _ => []
  /-- All that the party has written and read. -/
  wrote : Bool → List β := fun _ => []
  heard : Bool → List β := fun _ => []

inductive Move where
  /-- Party `b` reads or writes `k` items for its current call. -/
  | recv (b : Bool) (k : ℕ)
  | send (b : Bool) (k : ℕ)
  /-- The call of party `b` returns. -/
  | ret (b : Bool)
  /-- There is nothing to read, and the other one is over. -/
  | eof (b : Bool)
  /-- The call of party `b` fails for another reason. -/
  | fault (b : Bool)
  deriving DecidableEq, Repr

def Move.party : Move → Bool
  | .recv b _ | .send b _ | .ret b | .eof b | .fault b => b

namespace Wish

variable {β σ : Type*}

def isStop : Wish β σ → Bool
  | .stop => true
  | _     => false

/-- What a call has written so far. -/
def part (n : ℕ) : Wish β σ → List β
  | .write xs _ => xs.take n
  | _           => []

/-- A call reads and writes what it is asked to at most. -/
def Fits (got : List β) (sent : ℕ) : Wish β σ → Prop
  | .read n _   => got.length ≤ n ∧ sent = 0
  | .write xs _ => got = [] ∧ sent ≤ xs.length
  | .stop       => got = [] ∧ sent = 0

/-- Where a call that is complete leads. -/
def after (got : List β) (sent : ℕ) : Wish β σ → Option σ
  | .read n next    => if got.length = n then some (next got) else none
  | .write xs next  => if sent = xs.length then some next else none
  | .stop           => none

/-- How much is still to be read. -/
def lacks (got : List β) : Wish β σ → ℕ
  | .read n _ => n - got.length
  | _         => 0

/-- The program is one of several. -/
def map {τ : Type*} (e : σ → τ) : Wish β σ → Wish β τ
  | .read n next   => .read n (e ∘ next)
  | .write xs next => .write xs (e next)
  | .stop          => .stop

/-- What is still to be written. -/
def rest (sent : ℕ) : Wish β σ → List β
  | .write xs _ => xs.drop sent
  | _           => []

end Wish

namespace Dialogue

variable {β σ : Type*} (w : σ → Wish β σ) (cap : ℕ) (s₀ : Bool → σ)

def Over (c : Dialogue β σ) (b : Bool) : Prop :=
  (c.party b).broken = true ∨ (w (c.party b).pos).isStop = true

instance (c : Dialogue β σ) (b : Bool) : Decidable (c.Over w b) :=
  inferInstanceAs (Decidable (_ ∨ _))

def mapParty (c : Dialogue β σ) (b : Bool) (f : Party β σ → Party β σ) : Dialogue β σ :=
  { c with party := Function.update c.party b (f (c.party b)) }

def recv (c : Dialogue β σ) (b : Bool) (k : ℕ) : Dialogue β σ :=
  { c.mapParty b fun p => { p with got := p.got ++ (c.stream !b).take k } with
    stream := Function.update c.stream (!b) ((c.stream !b).drop k)
    heard := Function.update c.heard b (c.heard b ++ (c.stream !b).take k) }

def send (c : Dialogue β σ) (b : Bool) (xs : List β) : Dialogue β σ :=
  { c.mapParty b fun p => { p with sent := p.sent + xs.length } with
    stream := Function.update c.stream b (c.stream b ++ xs)
    wrote := Function.update c.wrote b (c.wrote b ++ xs) }

def ret (c : Dialogue β σ) (b : Bool) (s : σ) : Dialogue β σ :=
  c.mapParty b fun p => { p with pos := s, got := [], sent := 0, calls := p.calls + 1 }

def fail (c : Dialogue β σ) (b : Bool) : Dialogue β σ :=
  c.mapParty b fun p => { p with broken := true }

/-- The moves of a program that is not broken. -/
def stepLive (c : Dialogue β σ) : Move → Option (Dialogue β σ)
  | .recv b k =>
    if 0 < k ∧ k ≤ (c.stream !b).length ∧ k ≤ (w (c.party b).pos).lacks (c.party b).got then
      some (c.recv b k)
    else none
  | .send b k =>
    if 0 < k ∧ k ≤ ((w (c.party b).pos).rest (c.party b).sent).length ∧
        (c.stream b).length + k ≤ cap then
      some (c.send b (((w (c.party b).pos).rest (c.party b).sent).take k))
    else none
  | .ret b => ((w (c.party b).pos).after (c.party b).got (c.party b).sent).map (c.ret b)
  | .eof b =>
    if 0 < (w (c.party b).pos).lacks (c.party b).got ∧ c.stream (!b) = [] ∧ c.Over w (!b) then
      some (c.fail b)
    else none
  | .fault b => if (w (c.party b).pos).isStop = false then some (c.fail b) else none

/-- A program that is broken makes no move. -/
def step (c : Dialogue β σ) (m : Move) : Option (Dialogue β σ) :=
  if (c.party m.party).broken = true then none else c.stepLive w cap m

def start : Dialogue β σ := { party := fun b => { pos := s₀ b } }

def machine : Machine (Dialogue β σ) Move where
  init c := c = start s₀
  step   := step w cap

/-! ### Traces -/

/-- A program has gone from `s` to `u` in `n` calls; it has read `i` and written `o`. -/
inductive Trace (s : σ) : ℕ → List β → List β → σ → Prop where
  | refl : Trace s 0 [] [] s
  | read {n : ℕ} {i o : List β} {u : σ} (h : Trace s n i o u) {k : ℕ} {next : List β → σ}
      (hw : w u = .read k next) {xs : List β} (hx : xs.length = k) :
      Trace s (n + 1) (i ++ xs) o (next xs)
  | write {n : ℕ} {i o : List β} {u : σ} (h : Trace s n i o u) {xs : List β} {next : σ}
      (hw : w u = .write xs next) : Trace s (n + 1) i (o ++ xs) next

/-- A program that has read `i` and written `o` in all stands where its trace has led it. -/
structure Follows (s : σ) (p : Party β σ) (i o : List β) : Prop where
  fits : (w p.pos).Fits p.got p.sent
  trace : ∃ i' o', Trace w s p.calls i' o' p.pos ∧ i = i' ++ p.got ∧
    o = o' ++ (w p.pos).part p.sent

structure Sound (c : Dialogue β σ) : Prop where
  follows : ∀ b, Follows w (s₀ b) (c.party b) (c.heard b) (c.wrote b)
  /-- Nothing is lost in a stream, doubled or changed. -/
  stream : ∀ b, c.wrote b = c.heard (!b) ++ c.stream b
  room : ∀ b, (c.stream b).length ≤ cap

variable {w cap s₀} {c c' : Dialogue β σ} {b : Bool}

/-! ### What a move does -/

@[simp] lemma party_mapParty (c : Dialogue β σ) (b a : Bool) (f : Party β σ → Party β σ) :
    (c.mapParty b f).party a = if a = b then f (c.party b) else c.party a :=
  Function.update_apply _ _ _ _

lemma party_recv (c : Dialogue β σ) (b a : Bool) (k : ℕ) : (c.recv b k).party a =
    if a = b then { c.party b with got := (c.party b).got ++ (c.stream !b).take k }
    else c.party a :=
  party_mapParty c b a fun p => { p with got := p.got ++ (c.stream !b).take k }

lemma party_send (c : Dialogue β σ) (b a : Bool) (xs : List β) : (c.send b xs).party a =
    if a = b then { c.party b with sent := (c.party b).sent + xs.length } else c.party a :=
  party_mapParty c b a fun p => { p with sent := p.sent + xs.length }

namespace Follows

variable {s : σ} {p : Party β σ} {i o : List β}

lemma init (s : σ) : Follows w s { pos := s } [] [] := by
  refine ⟨?_, [], [], .refl, rfl, ?_⟩
  · cases hw : w s with
    | read n next => exact ⟨Nat.zero_le _, rfl⟩
    | write xs next => exact ⟨rfl, Nat.zero_le _⟩
    | stop => exact ⟨rfl, rfl⟩
  · cases hw : w s <;> simp [Wish.part]

lemma recv (h : Follows w s p i o) {xs : List β} (hx : xs.length ≤ (w p.pos).lacks p.got)
    (h₀ : 0 < xs.length) : Follows w s { p with got := p.got ++ xs } (i ++ xs) o := by
  obtain ⟨hf, i', o', ht, rfl, rfl⟩ := h
  cases hw : w p.pos with
  | read n next =>
    rw [hw] at hx hf
    have hx : xs.length ≤ n - p.got.length := hx
    refine ⟨?_, i', o', ht, by rw [List.append_assoc], by simp [hw]⟩
    show (w p.pos).Fits _ _
    rw [hw]
    refine ⟨?_, hf.2⟩
    have := hf.1
    rw [List.length_append]
    omega
  | write | stop =>
    rw [hw] at hx
    have hx : xs.length ≤ 0 := hx
    omega

lemma send (h : Follows w s p i o) {xs : List β} (hx : xs <+: (w p.pos).rest p.sent)
    (h₀ : 0 < xs.length) : Follows w s { p with sent := p.sent + xs.length } i (o ++ xs) := by
  obtain ⟨hf, i', o', ht, rfl, rfl⟩ := h
  cases hw : w p.pos with
  | write ys next =>
    rw [hw] at hx hf
    have hx : xs <+: ys.drop p.sent := hx
    have htake : ys.take (p.sent + xs.length) = ys.take p.sent ++ xs := by
      rw [List.take_add, ← List.prefix_iff_eq_take.mp hx]
    refine ⟨?_, i', o', ht, rfl, ?_⟩
    · show (w p.pos).Fits _ _
      rw [hw]
      refine ⟨hf.1, ?_⟩
      have := hx.length_le
      rw [List.length_drop] at this
      show p.sent + xs.length ≤ ys.length
      omega
    · show _ = o' ++ (w p.pos).part _
      rw [hw]
      show o' ++ ys.take p.sent ++ xs = o' ++ ys.take (p.sent + xs.length)
      rw [htake, List.append_assoc]
  | read | stop =>
    rw [hw] at hx
    have hx : xs <+: [] := hx
    rw [List.prefix_nil.mp hx] at h₀
    cases h₀

/-- A call that is complete returns. -/
lemma ret (h : Follows w s p i o) {u : σ} (hu : (w p.pos).after p.got p.sent = some u) :
    Follows w s { p with pos := u, got := [], sent := 0, calls := p.calls + 1 } i o := by
  obtain ⟨hf, i', o', ht, rfl, rfl⟩ := h
  have hfits : ∀ v : σ, (w v).Fits [] 0 ∧ (w v).part 0 = [] := by
    intro v
    cases w v <;> simp [Wish.Fits, Wish.part]
  refine ⟨(hfits u).1, ?_⟩
  show ∃ i'' o'', Trace w s (p.calls + 1) i'' o'' u ∧ i' ++ p.got = i'' ++ [] ∧
    o' ++ (w p.pos).part p.sent = o'' ++ (w u).part 0
  rw [(hfits u).2]
  cases hw : w p.pos with
  | read n next =>
    rw [hw] at hu
    simp only [Wish.after, Option.ite_none_right_eq_some] at hu
    obtain ⟨hn, ⟨⟩⟩ := hu
    exact ⟨_, _, ht.read hw hn, by simp, by simp [Wish.part]⟩
  | write xs next =>
    rw [hw] at hu hf
    simp only [Wish.after, Option.ite_none_right_eq_some] at hu
    obtain ⟨hn, ⟨⟩⟩ := hu
    refine ⟨_, _, ht.write hw, by rw [hf.1], ?_⟩
    simp [Wish.part, hn]
  | stop =>
    rw [hw] at hu
    cases hu

end Follows

namespace Sound

lemma init (hc : machine w cap s₀ |>.init c) : c.Sound w cap s₀ := by
  obtain rfl := hc
  exact ⟨fun b => .init _, fun _ => rfl, fun _ => Nat.zero_le _⟩

/-- Only the program of a party changes. -/
lemma mapParty (hS : c.Sound w cap s₀) {f : Party β σ → Party β σ}
    (hf : Follows w (s₀ b) (f (c.party b)) (c.heard b) (c.wrote b)) :
    (c.mapParty b f).Sound w cap s₀ := by
  refine ⟨fun a => ?_, hS.stream, hS.room⟩
  rw [party_mapParty]
  split_ifs with ha
  · exact ha ▸ hf
  · exact hS.follows a

lemma recv (hS : c.Sound w cap s₀) {k : ℕ} (h₀ : 0 < k) (hk : k ≤ (c.stream !b).length)
    (hl : k ≤ (w (c.party b).pos).lacks (c.party b).got) : (c.recv b k).Sound w cap s₀ := by
  have hlen : ((c.stream !b).take k).length = k := by
    rw [List.length_take]
    omega
  have hstream : ∀ a, (c.recv b k).stream a = if a = !b then (c.stream !b).drop k else c.stream a :=
    fun a => Function.update_apply _ _ _ _
  have hheard : ∀ a, (c.recv b k).heard a =
      if a = b then c.heard b ++ (c.stream !b).take k else c.heard a :=
    fun a => Function.update_apply _ _ _ _
  have hwrote : ∀ a, (c.recv b k).wrote a = c.wrote a := fun _ => rfl
  refine ⟨fun a => ?_, fun a => ?_, fun a => ?_⟩
  · rw [party_recv, hheard, hwrote]
    split_ifs with ha
    · subst ha
      exact (hS.follows a).recv (by rw [hlen]; exact hl) (by rw [hlen]; exact h₀)
    · exact hS.follows a
  · rw [hwrote, hstream, hheard, hS.stream a]
    by_cases ha : a = !b
    · subst ha
      rw [if_pos rfl, Bool.not_not, if_pos rfl, List.append_assoc, List.take_append_drop]
    · obtain rfl : a = b := by
        cases a <;> cases b <;> simp at ha ⊢
      rw [if_neg ha, if_neg (by simp)]
  · rw [hstream]
    split_ifs with ha
    · have := hS.room (!b)
      rw [List.length_drop]
      omega
    · exact hS.room a

lemma send (hS : c.Sound w cap s₀) {xs : List β} (h₀ : 0 < xs.length)
    (hx : xs <+: (w (c.party b).pos).rest (c.party b).sent)
    (hcap : (c.stream b).length + xs.length ≤ cap) : (c.send b xs).Sound w cap s₀ := by
  have hstream : ∀ a, (c.send b xs).stream a = if a = b then c.stream b ++ xs else c.stream a :=
    fun a => Function.update_apply _ _ _ _
  have hwrote : ∀ a, (c.send b xs).wrote a = if a = b then c.wrote b ++ xs else c.wrote a :=
    fun a => Function.update_apply _ _ _ _
  have hheard : ∀ a, (c.send b xs).heard a = c.heard a := fun _ => rfl
  refine ⟨fun a => ?_, fun a => ?_, fun a => ?_⟩
  · rw [party_send, hheard, hwrote]
    split_ifs with ha
    · subst ha
      exact (hS.follows a).send hx h₀
    · exact hS.follows a
  · rw [hwrote, hstream, hheard]
    split_ifs with ha
    · rw [ha, hS.stream b, List.append_assoc]
    · exact hS.stream a
  · rw [hstream]
    split_ifs with ha
    · rwa [List.length_append]
    · exact hS.room a

lemma fail (hS : c.Sound w cap s₀) (b : Bool) : (c.fail b).Sound w cap s₀ :=
  hS.mapParty ⟨(hS.follows b).fits, (hS.follows b).trace⟩

lemma step {m : Move} (hS : c.Sound w cap s₀) (h : c.step w cap m = some c') :
    c'.Sound w cap s₀ := by
  simp only [Dialogue.step, Option.ite_none_left_eq_some] at h
  obtain ⟨-, h⟩ := h
  cases m with
  | recv b k =>
    simp only [stepLive, Option.ite_none_right_eq_some] at h
    obtain ⟨⟨h₀, hk, hl⟩, ⟨⟩⟩ := h
    exact hS.recv h₀ hk hl
  | send b k =>
    simp only [stepLive, Option.ite_none_right_eq_some] at h
    obtain ⟨⟨h₀, hk, hcap⟩, ⟨⟩⟩ := h
    have hlen : ((w (c.party b).pos).rest (c.party b).sent |>.take k).length = k := by
      rw [List.length_take]
      omega
    exact hS.send (by rw [hlen]; exact h₀) (List.take_prefix _ _) (by rw [hlen]; exact hcap)
  | ret b =>
    obtain ⟨u, hu, rfl⟩ := Option.map_eq_some_iff.mp h
    exact hS.mapParty ((hS.follows b).ret hu)
  | eof b =>
    simp only [stepLive, Option.ite_none_right_eq_some] at h
    obtain ⟨-, ⟨⟩⟩ := h
    exact hS.fail b
  | fault b =>
    simp only [stepLive, Option.ite_none_right_eq_some] at h
    obtain ⟨-, ⟨⟩⟩ := h
    exact hS.fail b

end Sound

variable (w cap s₀) in
theorem inductive_sound : (machine w cap s₀).Inductive (fun _ _ => True) (Sound w cap s₀) where
  init _ h := .init h
  step _ _ _ h _ hs := h.step hs

/-- What a party has read is the beginning of what the other one has written. -/
lemma Sound.overhears (hS : c.Sound w cap s₀) (b : Bool) : c.heard (!b) <+: c.wrote b :=
  ⟨_, (hS.stream b).symm⟩

/-! ### Nobody talks for ever -/

/-- What a party has done: items written and read, calls that have returned, and a failure. -/
def work (c : Dialogue β σ) (b : Bool) : ℕ :=
  (c.wrote b).length + (c.heard b).length + (c.party b).calls + (c.party b).broken.toNat

/-- A move of party `b` is work of this party. -/
lemma work_step {m : Move} (h : c.step w cap m = some c') :
    c.work m.party + 1 ≤ c'.work m.party ∧ c'.work (!m.party) = c.work (!m.party) := by
  simp only [Dialogue.step, Option.ite_none_left_eq_some] at h
  obtain ⟨hb, h⟩ := h
  have hbroken : (c.party m.party).broken = false := by simpa using hb
  have hfail : ∀ b, (c.party b).broken = false → c.work b + 1 ≤ (c.fail b).work b ∧
      (c.fail b).work (!b) = c.work (!b) := by
    intro b hb
    simp [work, fail, hb, mapParty]
  cases m with
  | recv b k =>
    simp only [stepLive, Option.ite_none_right_eq_some] at h
    obtain ⟨⟨h₀, hk, hl⟩, ⟨⟩⟩ := h
    simp only [Move.party, work, recv, mapParty, Function.update_self, List.length_append,
      List.length_take]
    simp
    omega
  | send b k =>
    simp only [stepLive, Option.ite_none_right_eq_some] at h
    obtain ⟨⟨h₀, hk, hcap⟩, ⟨⟩⟩ := h
    simp only [Move.party, work, send, mapParty, Function.update_self, List.length_append,
      List.length_take]
    simp
    omega
  | ret b =>
    obtain ⟨u, hu, rfl⟩ := Option.map_eq_some_iff.mp h
    have hne : (!b) ≠ b := by simp
    simp only [Move.party, work, ret, mapParty, Function.update_self, Function.update_of_ne hne]
    exact ⟨by omega, trivial⟩
  | eof b =>
    simp only [stepLive, Option.ite_none_right_eq_some] at h
    obtain ⟨-, ⟨⟩⟩ := h
    exact hfail b hbroken
  | fault b =>
    simp only [stepLive, Option.ite_none_right_eq_some] at h
    obtain ⟨-, ⟨⟩⟩ := h
    exact hfail b hbroken

/-- A run is as long as the work it has done at most. -/
theorem length_le_work {ms : List Move} (h : (machine w cap s₀).exec c ms = some c') :
    c.work false + c.work true + ms.length ≤ c'.work false + c'.work true := by
  induction ms generalizing c with
  | nil =>
    obtain rfl : c = c' := Option.some_injective _ h
    simp
  | cons m ms ih =>
    obtain ⟨d, hd, h⟩ := Option.bind_eq_some_iff.mp h
    have hstep := work_step hd
    have hrest := ih h
    rw [List.length_cons]
    cases hm : m.party <;>
      simp only [hm, Bool.not_true, Bool.not_false] at hstep <;> omega

/-! ### Who cannot move -/

/-- A program that is not broken and can only fail has stopped, waits for something to read, or
waits for room. -/
lemma waits_of_stuck (hS : c.Sound w cap s₀) (hb : (c.party b).broken = false)
    (hstuck : ∀ m : Move, m.party = b → (∀ a, m ≠ .fault a) → c.step w cap m = none) :
    (w (c.party b).pos).isStop = true ∨
    (0 < (w (c.party b).pos).lacks (c.party b).got ∧ c.stream (!b) = [] ∧ ¬ c.Over w !b) ∨
    ((w (c.party b).pos).rest (c.party b).sent ≠ [] ∧ cap ≤ (c.stream b).length) := by
  have hlive : ∀ m : Move, m.party = b → (∀ a, m ≠ .fault a) → c.stepLive w cap m = none := by
    intro m hm hf
    have hs := hstuck m hm hf
    rw [Dialogue.step, hm, if_neg (by simp [hb])] at hs
    exact hs
  have hf := (hS.follows b).fits
  cases hw : w (c.party b).pos with
  | stop => exact .inl rfl
  | read n next =>
    rw [hw] at hf
    have hret := hlive (.ret b) rfl (by simp)
    have hrecv := hlive (.recv b 1) rfl (by simp)
    have heof := hlive (.eof b) rfl (by simp)
    simp only [stepLive, hw, Option.map_eq_none_iff, Wish.after, Wish.lacks, ite_eq_right_iff,
      reduceCtorEq, imp_false] at hret hrecv heof
    have hlen : (c.party b).got.length ≤ n := hf.1
    have hlacks : 0 < n - (c.party b).got.length := by omega
    have hempty : c.stream (!b) = [] := by
      rw [← List.length_eq_zero_iff]
      omega
    exact .inr (.inl ⟨hlacks, hempty, fun ho => heof ⟨hlacks, hempty, ho⟩⟩)
  | write xs next =>
    rw [hw] at hf
    have hret := hlive (.ret b) rfl (by simp)
    have hsend := hlive (.send b 1) rfl (by simp)
    simp only [stepLive, hw, Option.map_eq_none_iff, Wish.after, Wish.rest, ite_eq_right_iff,
      reduceCtorEq, imp_false, List.length_drop] at hret hsend
    have hsent : (c.party b).sent ≤ xs.length := hf.2
    refine .inr (.inr ⟨?_, ?_⟩)
    · show xs.drop (c.party b).sent ≠ []
      rw [ne_eq, List.drop_eq_nil_iff]
      omega
    · omega

/-! ### Programs with states of their own -/

section Beside

variable {τ : Type*} {f : τ → Wish β τ} {g : σ → Wish β σ}

/-- Two programs, each with states of its own. -/
def beside (f : τ → Wish β τ) (g : σ → Wish β σ) : τ ⊕ σ → Wish β (τ ⊕ σ)
  | .inl s => (f s).map .inl
  | .inr s => (g s).map .inr

/-- A program is not disturbed by the states of another. -/
lemma trace_map {ρ : Type*} {v : ρ → Wish β ρ} {e : τ → ρ} (he : ∀ s, v (e s) = (f s).map e)
    {s : τ} {n : ℕ} {i o : List β} {u : ρ} (h : Trace v (e s) n i o u) :
    ∃ u', u = e u' ∧ Trace f s n i o u' := by
  induction h with
  | refl => exact ⟨s, rfl, .refl⟩
  | read h hw hx ih =>
    obtain ⟨u', rfl, ht⟩ := ih
    rw [he] at hw
    cases hf : f u' with
    | read k next =>
      rw [hf] at hw
      obtain ⟨rfl, rfl⟩ := Wish.read.inj hw
      exact ⟨_, rfl, ht.read hf hx⟩
    | write | stop =>
      rw [hf] at hw
      cases hw
  | write h hw ih =>
    obtain ⟨u', rfl, ht⟩ := ih
    rw [he] at hw
    cases hf : f u' with
    | write xs next =>
      rw [hf] at hw
      obtain ⟨rfl, rfl⟩ := Wish.write.inj hw
      exact ⟨_, rfl, ht.write hf⟩
    | read | stop =>
      rw [hf] at hw
      cases hw

end Beside

end Dialogue

end Transition
