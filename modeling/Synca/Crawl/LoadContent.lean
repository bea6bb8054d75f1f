import Mathlib.Data.List.Infix
import Mathlib.Data.List.TakeDrop
import Mathlib.Data.Nat.Notation

/-!
# Reading a page

`loadContent` of `data.cpp`. The bytes of a response come in pieces, as the network delivers them,
and each call of `partialRead` returns the next piece. The header ends with the first blank line;
the body is as long as `content-length` says, or ends with a blank line at the end of a piece.

The regular expressions of Boost, `std::atoi` and the network are parameters.
-/

namespace Synca

namespace Crawl

abbrev Str := List UInt8

/-- A literal of the source. -/
def text (s : String) : Str := s.toList.map fun c => .ofNat c.toNat

def EOL : Str := [13, 10]

def MAX_BUF_SIZE : ℕ := 1024 * 1000

def READ_BUF_SIZE : ℕ := 1024 * 16

/-- `std::string::find`. -/
def find (pat : Str) : Str → Option ℕ
  | []      => if pat = [] then some 0 else none
  | x :: xs => if pat <+: x :: xs then some 0 else (find pat xs).map (· + 1)

/-! ### The network -/

/-- What a call of `partialRead` returns. -/
abbrev Piece := { p : Str // p.length ≤ READ_BUF_SIZE }

/-- What comes over a socket: pieces, and an exception when there are no more. -/
structure Conn (ε : Type) where
  pieces : List Piece
  error : ε

/-- The network, for one call of `loadContent`. -/
structure Net (ε E : Type) where
  resolve : Str → ℕ → Except ε (List E)
  connect : E → Except ε Unit
  write : E → Str → Except ε (Conn ε)

/-- What `loadContent` takes from libraries: the searches in a header, each with its group, and
`std::atoi`. -/
structure Lib where
  eStatus : Str → Option Str
  eLength : Str → Option Str
  eChunked : Str → Bool
  atoi : Str → ℤ

inductive Failure (ε : Type) where
  /-- An exception of the network. -/
  | net (e : ε)
  /-- `VERIFY`. -/
  | verify (what : Str)
  /-- `std::length_error`, of `resize`. -/
  | length
  deriving DecidableEq

def Failure.raise {ε : Type} (cond : String) (msg : Str) : Failure ε :=
  .verify (text ("Verification failed: " ++ cond ++ ": ") ++ msg)

def verify {ε : Type} (cond : Bool) (failure : Failure ε) : Except (Failure ε) Unit :=
  if cond then .ok () else .error failure

section

variable {ε E : Type}

def Conn.bytes (ps : List Piece) : Str := (ps.map (·.1)).flatten

/-- `Socket::read` with a buffer of `n` bytes. -/
def read (error : ε) (ps : List Piece) (n : ℕ) : Except (Failure ε) Str :=
  if n ≤ (Conn.bytes ps).length then .ok ((Conn.bytes ps).take n) else .error (.net error)

/-- The two loops of `loadContent` that read pieces: what was read, and the pieces that are left. -/
def readUntil (stop : Str → Bool) (tooLarge : Failure ε) (error : ε) :
    List Piece → Str → Except (Failure ε) (Str × List Piece)
  | [], resp =>
    if stop resp then .ok (resp, []) else do
      verify (resp.length < MAX_BUF_SIZE) tooLarge
      .error (.net error)
  | p :: ps, resp =>
    if stop resp then .ok (resp, p :: ps) else do
      verify (resp.length < MAX_BUF_SIZE) tooLarge
      verify (!p.1.isEmpty) (.raise "!buf.empty()" (text "Empty buffer on partial read"))
      readUntil stop tooLarge error ps (resp ++ p.1)

def hasHeader (resp : Str) : Bool := (find (EOL ++ EOL) resp).isSome

def readHeader (error : ε) (ps : List Piece) : Except (Failure ε) (Str × List Piece) :=
  readUntil hasHeader (.raise "resp.size() < MAX_BUF_SIZE" (text "Header is too large")) error ps []

/-- There is a blank line in the last four bytes. -/
def atEnd (resp : Str) : Bool := (find (EOL ++ EOL) (resp.drop (resp.length - 4))).isSome

def readChunks (error : ε) (ps : List Piece) (resp : Str) : Except (Failure ε) (Str × List Piece) :=
  readUntil atEnd (.raise "resp.size() < MAX_BUF_SIZE" (text "Response is too large")) error ps resp

def request (host path : Str) : Str :=
  text "GET " ++ path ++ text " HTTP/1.1" ++ EOL ++ text "Host: " ++ host ++ EOL ++ EOL

def allowedStatuses : List Str := [text "200", text "301", text "302", text "303"]

/-- The body, if the header has a `content-length`. The size in `resize` is a `size_t`. -/
def readLength (error : ε) (ps : List Piece) (resp : Str) (header : ℕ) (len : ℤ) :
    Except (Failure ε) Str := do
  verify (0 < len && len < MAX_BUF_SIZE)
    (.raise "len > 0 && len < MAX_BUF_SIZE" (text "Content length: invalid value"))
  verify (resp.length - header ≤ len.toNat) .length
  let buf ← read error ps (len.toNat - (resp.length - header))
  .ok ((resp ++ buf).drop header)

/-- What is done with a response. -/
def receive (lib : Lib) (c : Conn ε) : Except (Failure ε) Str := do
  let (resp, ps) ← readHeader c.error c.pieces
  let header := (find (EOL ++ EOL) resp).getD 0
  let head := resp.take header
  verify (lib.eStatus head).isSome (.raise "result" (text "Invalid http status header"))
  let status := (lib.eStatus head).getD []
  verify (allowedStatuses.contains status)
    (.raise "allowedStatuses.count(status)" (text "Unexpected status: " ++ status))
  match lib.eLength head with
  | some digits => readLength c.error ps resp (header + 4) (lib.atoi digits)
  | none => do
    verify (lib.eChunked head) (.raise "result"
      (text "Either content-length or transfer-encoding must be present in header"))
    let (resp, _) ← readChunks c.error ps resp
    .ok (resp.drop (header + 4))

def loadContent (lib : Lib) (net : Net ε E) (url : Str × Str) :
    Except (Failure ε) (Str × Str) := do
  let ends ← (net.resolve url.1 80).mapError .net
  let unknown := text "Cannot resolve hostname: " ++ url.1
  match ends with
  | []     => .error (.raise "ends != Resolver::EndPoints()" unknown)
  | e :: _ => do
    (net.connect e).mapError .net
    let c ← (net.write e (request url.1 url.2)).mapError .net
    let body ← receive lib c
    .ok (url.1, body)

end

/-! ### Searching -/

section

variable {pat xs ys : Str}

lemma find_eq_some_iff {i : ℕ} :
    find pat xs = some i ↔ pat <+: xs.drop i ∧ i ≤ xs.length ∧ ∀ j < i, ¬ pat <+: xs.drop j := by
  induction xs generalizing i with
  | nil =>
    simp only [find, List.drop_nil, List.prefix_nil, Option.ite_none_right_eq_some,
      Option.some.injEq, List.length_nil, Nat.le_zero]
    constructor
    · rintro ⟨hp, rfl⟩
      exact ⟨hp, rfl, by simp⟩
    · rintro ⟨hp, rfl, -⟩
      exact ⟨hp, rfl⟩
  | cons x xs ih =>
    rw [find]
    split_ifs with hp
    · constructor
      · rintro ⟨⟩
        exact ⟨hp, Nat.zero_le _, by simp⟩
      · rintro ⟨-, -, hfirst⟩
        have hi : ¬ 0 < i := fun h => hfirst 0 h hp
        rw [Nat.eq_zero_of_not_pos hi]
    · constructor
      · intro h
        obtain ⟨i, hi, rfl⟩ := Option.map_eq_some_iff.mp h
        obtain ⟨hpi, hlen, hfirst⟩ := ih.mp hi
        refine ⟨hpi, Nat.succ_le_succ hlen, fun j hj => ?_⟩
        cases j with
        | zero => exact hp
        | succ j => exact hfirst j (Nat.lt_of_succ_lt_succ hj)
      · rintro ⟨hpi, hlen, hfirst⟩
        cases i with
        | zero => exact absurd hpi hp
        | succ i =>
          have hi := ih.mpr ⟨hpi, Nat.le_of_succ_le_succ hlen,
            fun j hj => hfirst (j + 1) (Nat.succ_lt_succ hj)⟩
          rw [hi]
          rfl

lemma find_isSome_iff : (find pat xs).isSome = true ↔ pat <:+: xs := by
  induction xs with
  | nil =>
    rw [find, List.infix_nil]
    split_ifs with hp <;> simp [hp]
  | cons x xs ih =>
    rw [find, List.infix_cons_iff]
    split_ifs with hp
    · simp [hp]
    · rw [Option.isSome_map, ih]
      simp [hp]

/-- The first blank line of `xs` comes after `head` and before `rest`. -/
structure Headed (xs head rest : Str) : Prop where
  eq : xs = head ++ (EOL ++ EOL ++ rest)
  first : ∀ a b, xs = a ++ (EOL ++ EOL ++ b) → head.length ≤ a.length

namespace Headed

variable {head head' rest rest' : Str}

lemma length (h : Headed xs head rest) : xs.length = head.length + 4 + rest.length := by
  rw [h.eq]
  simp [EOL]
  omega

lemma append (h : Headed xs head rest) (ys : Str) : Headed (xs ++ ys) head (rest ++ ys) := by
  refine ⟨by rw [h.eq]; simp, fun a b hab => ?_⟩
  by_contra hlt
  have hlen : (a ++ (EOL ++ EOL)).length ≤ xs.length := by
    rw [h.length]
    simp [EOL]
    omega
  -- a blank line before would be one of `xs`
  have hpre : a ++ (EOL ++ EOL) <+: xs :=
    List.prefix_of_prefix_length_le ⟨b, by rw [hab]; simp⟩ (List.prefix_append xs ys) hlen
  obtain ⟨b', hb'⟩ := hpre
  exact hlt (h.first a b' (by rw [← hb']; simp))

lemma unique (h : Headed xs head rest) (h' : Headed xs head' rest') :
    head = head' ∧ rest = rest' := by
  have heq := h.eq.symm.trans h'.eq
  have hlen : head.length = head'.length :=
    Nat.le_antisymm (h.first _ _ h'.eq) (h'.first _ _ h.eq)
  obtain ⟨rfl, hrest⟩ := List.append_inj heq hlen
  exact ⟨rfl, List.append_cancel_left hrest⟩

lemma find (h : Headed xs head rest) : find (EOL ++ EOL) xs = some head.length := by
  refine find_eq_some_iff.mpr ⟨?_, ?_, fun j hj hp => ?_⟩
  · rw [h.eq, List.drop_left]
    exact List.prefix_append _ _
  · have := h.length
    omega
  · obtain ⟨b, hb⟩ := hp
    have hle := h.first (xs.take j) b (by rw [hb, List.take_append_drop])
    rw [List.length_take] at hle
    omega

end Headed

lemma exists_headed (h : hasHeader xs = true) : ∃ head rest, Headed xs head rest := by
  obtain ⟨i, hi⟩ := Option.isSome_iff_exists.mp h
  obtain ⟨⟨b, hb⟩, hlen, hfirst⟩ := find_eq_some_iff.mp hi
  refine ⟨xs.take i, b, by rw [hb, List.take_append_drop], fun a b' hab => ?_⟩
  rw [List.length_take, Nat.min_eq_left hlen]
  by_contra hlt
  refine hfirst a.length (by omega) ?_
  rw [hab, List.drop_left]
  exact List.prefix_append _ _

lemma atEnd_iff : atEnd xs = true ↔ EOL ++ EOL <:+ xs := by
  rw [atEnd, find_isSome_iff]
  constructor
  · intro h
    have hlen : (xs.drop (xs.length - 4)).length ≤ (EOL ++ EOL).length := by
      rw [List.length_drop]
      show _ ≤ 4
      omega
    rw [h.eq_of_length_le hlen]
    exact List.drop_suffix _ _
  · intro h
    rw [List.suffix_iff_eq_drop.mp h]
    exact List.infix_rfl

end

/-! ### Reading pieces -/

section

variable {ε : Type} {stop : Str → Bool} {tooLarge : Failure ε} {error : ε} {ps : List Piece}
  {resp : Str} {r : Str × List Piece} {k : ℕ}

/-- What was received with the first `k` pieces. -/
def upto (ps : List Piece) (k : ℕ) : Str := Conn.bytes (ps.take k)

lemma upto_zero (ps : List Piece) : upto ps 0 = [] := rfl

lemma upto_cons (p : Piece) (ps : List Piece) (k : ℕ) :
    upto (p :: ps) (k + 1) = p.1 ++ upto ps k := rfl

lemma upto_append (ps : List Piece) (k : ℕ) :
    upto ps k ++ Conn.bytes (ps.drop k) = Conn.bytes ps := by
  rw [upto, Conn.bytes, Conn.bytes, ← List.flatten_append, ← List.map_append, List.take_append_drop]
  rfl

lemma upto_upto (ps : List Piece) (k j : ℕ) :
    upto ps k ++ upto (ps.drop k) j = upto ps (k + j) := by
  rw [upto, upto, upto, Conn.bytes, Conn.bytes, ← List.flatten_append, ← List.map_append,
    List.take_add]
  rfl

/-- The loop ends after `k` pieces. -/
structure Until (stop : Str → Bool) (resp : Str) (ps : List Piece) (k : ℕ) : Prop where
  le : k ≤ ps.length
  stops : stop (resp ++ upto ps k) = true
  goesOn : ∀ j < k, stop (resp ++ upto ps j) = false ∧ (resp ++ upto ps j).length < MAX_BUF_SIZE
  nonempty : ∀ p ∈ ps.take k, p.1 ≠ []

lemma verify_eq_ok {cond : Bool} {failure : Failure ε} {u : Unit} :
    verify cond failure = .ok u ↔ cond = true := by
  cases cond <;> simp [verify]

lemma bind_eq_ok {α β : Type} {x : Except (Failure ε) α} {f : α → Except (Failure ε) β} {b : β} :
    x >>= f = .ok b ↔ ∃ a, x = .ok a ∧ f a = .ok b := by
  cases x with
  | error e =>
    constructor
    · intro h
      cases h
    · rintro ⟨a, h, -⟩
      cases h
  | ok a =>
    constructor
    · exact fun h => ⟨a, rfl, h⟩
    · rintro ⟨_, ⟨⟩, h⟩
      exact h

lemma Until.zero (h : stop resp = true) : Until stop resp ps 0 :=
  ⟨Nat.zero_le _, by rwa [upto_zero, List.append_nil], by simp, by simp⟩

lemma until_cons {p : Piece} (h : stop resp = false) :
    Until stop resp (p :: ps) (k + 1) ↔
      resp.length < MAX_BUF_SIZE ∧ p.1 ≠ [] ∧ Until stop (resp ++ p.1) ps k := by
  constructor
  · rintro ⟨hle, hs, hg, hn⟩
    have h₀ := hg 0 (Nat.succ_pos k)
    rw [upto_zero, List.append_nil] at h₀
    refine ⟨h₀.2, hn p List.mem_cons_self, Nat.le_of_succ_le_succ hle, ?_, fun j hj => ?_, ?_⟩
    · rwa [List.append_assoc, ← upto_cons]
    · rw [List.append_assoc, ← upto_cons]
      exact hg (j + 1) (Nat.succ_lt_succ hj)
    · exact fun q hq => hn q (List.mem_cons_of_mem _ hq)
  · rintro ⟨hmax, hp, hle, hs, hg, hn⟩
    refine ⟨Nat.succ_le_succ hle, by rwa [upto_cons, ← List.append_assoc], fun j hj => ?_, ?_⟩
    · cases j with
      | zero =>
        rw [upto_zero, List.append_nil]
        exact ⟨h, hmax⟩
      | succ j =>
        rw [upto_cons, ← List.append_assoc]
        exact hg j (Nat.lt_of_succ_lt_succ hj)
    · intro q hq
      rcases List.mem_cons.mp hq with rfl | hq
      · exact hp
      · exact hn q hq

/-- The loop returns if there is a piece after which it stops, and all before it can be read. -/
lemma readUntil_eq_ok : readUntil stop tooLarge error ps resp = .ok r ↔
    ∃ k, Until stop resp ps k ∧ r = (resp ++ upto ps k, ps.drop k) := by
  induction ps generalizing resp with
  | nil =>
    rw [readUntil]
    split_ifs with hs
    · constructor
      · rintro ⟨⟩
        exact ⟨0, .zero hs, by simp [upto_zero]⟩
      · rintro ⟨k, hk, rfl⟩
        obtain rfl := Nat.le_zero.mp hk.le
        simp [upto_zero]
    · constructor
      · intro h
        obtain ⟨_, -, h⟩ := bind_eq_ok.mp h
        cases h
      · rintro ⟨k, hk, -⟩
        obtain rfl := Nat.le_zero.mp hk.le
        have := hk.stops
        rw [upto_zero, List.append_nil] at this
        exact absurd this hs
  | cons p ps ih =>
    rw [readUntil]
    split_ifs with hs
    · constructor
      · rintro ⟨⟩
        exact ⟨0, .zero hs, by simp [upto_zero]⟩
      · rintro ⟨k, hk, rfl⟩
        cases k with
        | zero => simp [upto_zero]
        | succ k =>
          have := (hk.goesOn 0 (Nat.succ_pos k)).1
          rw [upto_zero, List.append_nil] at this
          exact absurd hs (by simp [this])
    · have hs : stop resp = false := by simpa using hs
      simp only [bind_eq_ok, verify_eq_ok, ih, decide_eq_true_eq, Bool.not_eq_true',
        List.isEmpty_eq_false_iff]
      constructor
      · rintro ⟨_, hmax, _, hp, k, hk, rfl⟩
        exact ⟨k + 1, (until_cons hs).mpr ⟨hmax, hp, hk⟩, by simp [upto_cons]⟩
      · rintro ⟨k, hk, rfl⟩
        cases k with
        | zero =>
          have := hk.stops
          rw [upto_zero, List.append_nil, hs] at this
          cases this
        | succ k =>
          obtain ⟨hmax, hp, hk⟩ := (until_cons hs).mp hk
          exact ⟨(), hmax, (), hp, k, hk, by simp [upto_cons]⟩

/-- What is in memory when a loop ends. -/
lemma Until.length_lt (h : Until stop resp ps k)
    (hresp : resp.length < MAX_BUF_SIZE + READ_BUF_SIZE) :
    (resp ++ upto ps k).length < MAX_BUF_SIZE + READ_BUF_SIZE := by
  cases k with
  | zero => rwa [upto_zero, List.append_nil]
  | succ k =>
    have hk := (h.goesOn k (Nat.lt_succ_self k)).2
    have hle := h.le
    have hpiece : (upto (ps.drop k) 1).length ≤ READ_BUF_SIZE := by
      rw [List.drop_eq_getElem_cons (by omega)]
      rw [upto_cons, upto_zero, List.append_nil]
      exact ps[k].2
    rw [← upto_upto, ← List.append_assoc, List.length_append]
    omega

end

end Crawl

end Synca
