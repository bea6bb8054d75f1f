import Synca.Network.Hello

/-!
# Sessions of the client and the server

A session is a dialogue over one connection. Whatever the pieces in which the bytes travel and
however little the network holds, a key of at most `limit` bytes is answered by the key and
`" world!"`; a longer one gets something else or an exception. The server answers any peer that
sends requests, one after the other.
-/

namespace Synca

namespace Hello

open Transition Dialogue

/-- The two programs of a session: some peer, which is party `false`, and the server. -/
def talk (signed : Bool) {τ : Type*} (peer : τ → Wish Byte τ) :
    τ ⊕ Server → Wish Byte (τ ⊕ Server) :=
  beside peer (serve signed)

def begins {τ : Type*} (s : τ) : Bool → τ ⊕ Server
  | false => .inl s
  | true  => .inr .readSize

/-- A session of `client::Network::get` for a key. -/
def session (signed : Bool) (cap : ℕ) (key : List Byte) :
    Machine (Dialogue Byte (Client ⊕ Server)) Move :=
  machine (talk signed (get signed)) cap (begins (.writeSize key))

/-! ### The server and any peer -/

/-- The answers to the requests of a stream, up to the first that is not there as a whole, or whose
size the server cannot allocate. -/
def answers (signed : Bool) : ℕ → List Byte → List Byte
  | 0, _      => []
  | n + 1, xs => match unframe signed xs with
    | some (str, rest) => frame (str ++ world) ++ answers signed n rest
    | none             => []

/-- All that the server has to say to a stream; each request takes a byte at least. -/
def replies (signed : Bool) (xs : List Byte) : List Byte := answers signed xs.length xs

section Peer

variable {signed : Bool} {cap n : ℕ} {τ : Type*} {peer : τ → Wish Byte τ} {s : τ}
  {c : Dialogue Byte (τ ⊕ Server)}

lemma unframe_cons {b : Byte} {str xs : List Byte} (hb : toSize signed b = some str.length) :
    unframe signed (b :: (str ++ xs)) = some (str, xs) := by
  simp [unframe, hb]

/-- The answers that are there do not depend on what comes after. -/
lemma answers_asked {rs : List (Byte × List Byte)} (hrs : Sized signed rs) (xs : List Byte) :
    ∀ n, rs.length ≤ n →
      answers signed n (asked rs ++ xs) = answered rs ++ answers signed (n - rs.length) xs := by
  induction rs with
  | nil => simp [asked, answered]
  | cons r rs ih =>
    intro n hn
    obtain ⟨m, rfl⟩ : ∃ m, n = m + 1 := ⟨n - 1, by simp at hn; omega⟩
    have hr := hrs r List.mem_cons_self
    have hrest := ih (fun r hr => hrs r (List.mem_cons_of_mem _ hr)) m (by simpa using hn)
    have happ : asked (r :: rs) ++ xs = r.1 :: (r.2 ++ (asked rs ++ xs)) := by
      simp [asked]
    rw [happ, answers, unframe_cons hr]
    simp only [List.length_cons, Nat.add_sub_add_right]
    rw [hrest]
    simp [answered]

/-- Where the server stands, from what it has read and written. -/
lemma exists_served (hS : c.Sound (talk signed peer) cap (begins s)) :
    ∃ rs u i o, Sized signed rs ∧ (c.party true).pos = .inr u ∧
      Served signed rs (c.party true).calls i o u ∧ c.heard true = i ++ (c.party true).got ∧
      c.wrote true = o ++ (serve signed u).part (c.party true).sent ∧
      (serve signed u).Fits (c.party true).got (c.party true).sent := by
  obtain ⟨hf, i, o, ht, hi, ho⟩ := hS.follows true
  obtain ⟨u, hu, ht⟩ := trace_map (v := talk signed peer) (e := .inr) (fun _ => rfl) ht
  obtain ⟨rs, hrs, hs⟩ := served_of_trace ht
  rw [hu] at hf ho
  refine ⟨rs, u, i, o, hrs, hu, hs, hi, ?_, ?_⟩
  · rw [ho, talk, beside]
    cases serve signed u <;> rfl
  · rw [talk, beside] at hf
    cases hw : serve signed u <;> rw [hw] at hf <;> exact hf

lemma length_le_asked (rs : List (Byte × List Byte)) : rs.length ≤ (asked rs).length := by
  induction rs with
  | nil => exact Nat.le_refl _
  | cons r rs ih =>
    simp only [asked, List.flatMap_cons, List.length_append, List.length_cons] at ih ⊢
    omega

lemma answers_nil (n : ℕ) : answers signed n [] = [] := by
  cases n <;> rfl

/-- The requests that were read are answered first. -/
lemma replies_asked {rs : List (Byte × List Byte)} (hrs : Sized signed rs) (xs : List Byte) :
    ∃ m, xs.length ≤ m ∧ replies signed (asked rs ++ xs) = answered rs ++ answers signed m xs := by
  have hle := length_le_asked rs
  refine ⟨(asked rs ++ xs).length - rs.length, ?_, answers_asked hrs xs _ ?_⟩ <;>
    rw [List.length_append] <;> omega

/-- The answer to a request of which the rest is there. -/
lemma replies_request {rs : List (Byte × List Byte)} (hrs : Sized signed rs) {b : Byte}
    {str : List Byte} (hb : toSize signed b = some str.length) (xs : List Byte) :
    ∃ ys, replies signed (asked rs ++ b :: (str ++ xs)) =
      answered rs ++ (frame (str ++ world) ++ ys) := by
  obtain ⟨m, hm, h⟩ := replies_asked hrs (b :: (str ++ xs))
  obtain ⟨m, rfl⟩ : ∃ k, m = k + 1 := ⟨m - 1, by simp at hm; omega⟩
  refine ⟨answers signed m xs, ?_⟩
  rw [h, answers, unframe_cons hb]

lemma answers_of_sound (hS : c.Sound (talk signed peer) cap (begins s)) :
    c.wrote true <+: replies signed (c.wrote false) ∧
    (0 < (talk signed peer (c.party true).pos).lacks (c.party true).got → c.stream false = [] →
      c.wrote true = replies signed (c.wrote false)) := by
  obtain ⟨rs, u, i, o, hrs, hu, hs, hi, ho, hf⟩ := exists_served hS
  have hw : c.wrote false = c.heard true ++ c.stream false := hS.stream false
  rw [hw, ho, hi, hu]
  generalize (c.party true).got = got at hf
  generalize (c.party true).sent = sent at hf
  generalize (c.party true).calls = calls at hs
  cases hs with
  | readSize =>
    obtain ⟨m, -, hm⟩ := replies_asked hrs (got ++ c.stream false)
    rw [List.append_assoc, hm]
    refine ⟨⟨answers signed m (got ++ c.stream false), by simp [serve, Wish.part]⟩, fun hl he => ?_⟩
    have hgot : got = [] := by
      have hl : 0 < 1 - got.length := hl
      rw [← List.length_eq_zero_iff]
      omega
    rw [he, hgot]
    simp [serve, Wish.part, answers_nil]
  | readStr b n hb =>
    obtain ⟨m, -, hm⟩ := replies_asked hrs (b :: (got ++ c.stream false))
    rw [List.append_assoc, List.append_assoc, List.singleton_append, hm]
    refine ⟨⟨answers signed m (b :: (got ++ c.stream false)), by simp [serve, Wish.part]⟩,
      fun hl he => ?_⟩
    have hshort : ¬ n ≤ got.length := by
      have hl : 0 < n - got.length := hl
      omega
    rw [he, List.append_nil]
    cases m with
    | zero => simp [serve, Wish.part, answers]
    | succ m => simp [serve, Wish.part, answers, unframe, hb, hshort]
  | writeSize b str hb =>
    obtain ⟨ys, hys⟩ := replies_request hrs hb (got ++ c.stream false)
    have happ : asked rs ++ b :: str ++ got ++ c.stream false =
        asked rs ++ b :: (str ++ (got ++ c.stream false)) := by simp
    rw [happ, hys]
    refine ⟨?_, fun hl => absurd hl (Nat.lt_irrefl 0)⟩
    refine (List.prefix_append_right_inj _).mpr ?_
    refine (List.take_prefix sent _).trans ⟨str ++ world ++ ys, rfl⟩
  | writeStr b str hb =>
    obtain ⟨ys, hys⟩ := replies_request hrs hb (got ++ c.stream false)
    have happ : asked rs ++ b :: str ++ got ++ c.stream false =
        asked rs ++ b :: (str ++ (got ++ c.stream false)) := by simp
    rw [happ, hys]
    refine ⟨?_, fun hl => absurd hl (Nat.lt_irrefl 0)⟩
    rw [List.append_assoc]
    refine (List.prefix_append_right_inj _).mpr ?_
    refine (List.prefix_cons_inj _).mpr ?_
    exact (List.take_prefix sent _).trans (List.prefix_append _ _)
  | thrown b hb =>
    obtain ⟨m, -, hm⟩ := replies_asked hrs (b :: (got ++ c.stream false))
    rw [List.append_assoc, List.append_assoc, List.singleton_append, hm]
    exact ⟨⟨answers signed m (b :: (got ++ c.stream false)), by simp [serve, Wish.part]⟩,
      fun hl => absurd hl (Nat.lt_irrefl 0)⟩

/-- The server answers each request, in the order in which they come, and says nothing else: what it
has written is the beginning of the answers to what its peer has written, and all of them when it
waits for the peer. This holds whoever the peer is and however the bytes travel. -/
theorem serve_answers (h : (machine (talk signed peer) cap (begins s)).Reachable c) :
    c.wrote true <+: replies signed (c.wrote false) ∧
    (0 < (talk signed peer (c.party true).pos).lacks (c.party true).got → c.stream false = [] →
      c.wrote true = replies signed (c.wrote false)) :=
  answers_of_sound ((inductive_sound (talk signed peer) cap (begins s)).holds h)

/-- A key, and a session for it. -/
def hi : List Byte := "Hi".toList.map fun c => .ofNat c.toNat

def asks : List Move :=
  [.send false 1, .ret false, .send false 2, .ret false, .recv true 1, .ret true, .recv true 2,
    .ret true, .send true 1, .ret true, .send true 9, .ret true]

theorem serve_answers_asks : ∃ c, (session true 10 hi).exec (start (begins (.writeSize hi))) asks =
    some c ∧ c.wrote true = replies true (c.wrote false) := by
  have he : (session true 10 hi).exec (start (begins (.writeSize hi))) asks = some _ := rfl
  exact ⟨_, he, (serve_answers (.of_exec rfl he)).2 (by decide) rfl⟩

/-! ### Requests one after the other -/

lemma answers_frames {strs : List (List Byte)} (h : ∀ str ∈ strs, str.length ≤ limit signed) :
    ∀ n, strs.length ≤ n →
      answers signed n (strs.flatMap frame) = (strs.map (· ++ world)).flatMap frame := by
  induction strs with
  | nil =>
    intro n _
    exact answers_nil n
  | cons str strs ih =>
    intro n hn
    obtain ⟨m, rfl⟩ : ∃ m, n = m + 1 := ⟨n - 1, by simp at hn; omega⟩
    have hstr := h str List.mem_cons_self
    have hrest := ih (fun s hs => h s (List.mem_cons_of_mem _ hs)) m (by simpa using hn)
    rw [List.flatMap_cons, answers, unframe_frame (by omega)]
    simp only
    rw [hrest, List.map_cons, List.flatMap_cons]

lemma replies_frames {strs : List (List Byte)} (h : ∀ str ∈ strs, str.length ≤ limit signed) :
    replies signed (strs.flatMap frame) = (strs.map (· ++ world)).flatMap frame := by
  refine answers_frames h _ ?_
  induction strs with
  | nil => exact Nat.le_refl _
  | cons str strs ih =>
    have := ih fun s hs => h s (List.mem_cons_of_mem _ hs)
    simp only [List.flatMap_cons, List.length_append, List.length_cons, frame] at this ⊢
    omega

/-- A peer that has sent requests without waiting for the answers, each of `limit` bytes at most,
can read the strings of the answers from what the server writes, in the order of the requests. -/
theorem serve_pipelined {strs : List (List Byte)}
    (h : (machine (talk signed peer) cap (begins s)).Reachable c)
    (hstrs : ∀ str ∈ strs, str.length ≤ limit signed) (hw : c.wrote false = strs.flatMap frame)
    (hl : 0 < (talk signed peer (c.party true).pos).lacks (c.party true).got)
    (he : c.stream false = []) :
    strings signed strs.length (c.wrote true) = some (strs.map (· ++ world)) := by
  have hS := (inductive_sound (talk signed peer) cap (begins s)).holds h
  rw [(answers_of_sound hS).2 hl he, hw, replies_frames hstrs]
  have hframes : ∀ str ∈ strs.map (· ++ world), str.length ≤ limit signed + 7 := by
    intro str hstr
    obtain ⟨r, hr, rfl⟩ := List.mem_map.mp hstr
    have := hstrs r hr
    rw [List.length_append, length_world]
    omega
  have hread := strings_frames hframes
  rwa [List.length_map] at hread

theorem serve_pipelined_asks :
    ∃ c, (session true 10 hi).exec (start (begins (.writeSize hi))) asks = some c ∧
      strings true 1 (c.wrote true) = some [hi ++ world] := by
  have he : (session true 10 hi).exec (start (begins (.writeSize hi))) asks = some _ := rfl
  have hstrs : ∀ str ∈ [hi], str.length ≤ limit true := by decide
  exact ⟨_, he, serve_pipelined (.of_exec rfl he) hstrs rfl (by decide) rfl⟩

end Peer

/-! ### The client and the server -/

section Client

variable {signed : Bool} {cap n : ℕ} {key : List Byte} {c c' : Dialogue Byte (Client ⊕ Server)}

/-- Where the client stands, from what it has read and written. -/
lemma exists_got (hS : c.Sound (talk signed (get signed)) cap (begins (.writeSize key))) :
    ∃ u i o, (c.party false).pos = .inl u ∧ Got signed key (c.party false).calls i o u ∧
      c.heard false = i ++ (c.party false).got ∧
      c.wrote false = o ++ (get signed u).part (c.party false).sent ∧
      (get signed u).Fits (c.party false).got (c.party false).sent := by
  obtain ⟨hf, i, o, ht, hi, ho⟩ := hS.follows false
  obtain ⟨u, hu, ht⟩ := trace_map (v := talk signed (get signed)) (e := .inl) (fun _ => rfl) ht
  rw [hu] at hf ho
  refine ⟨u, i, o, hu, got_of_trace ht, hi, ?_, ?_⟩
  · rw [ho, talk, beside]
    cases get signed u <;> rfl
  · rw [talk, beside] at hf
    cases hw : get signed u <;> rw [hw] at hf <;> exact hf

/-- The client writes nothing but the frame of the key. -/
lemma wrote_client (hS : c.Sound (talk signed (get signed)) cap (begins (.writeSize key))) :
    c.wrote false <+: frame key := by
  obtain ⟨u, i, o, -, hg, -, ho, -⟩ := exists_got hS
  rw [ho]
  generalize (c.party false).sent = sent
  generalize (c.party false).calls = calls at hg
  cases hg with
  | writeSize => exact (List.take_prefix sent _).trans ⟨key, rfl⟩
  | writeKey => exact (List.prefix_cons_inj _).mpr (List.take_prefix sent _)
  | readSize | readVal | returned | thrown => simp [get, Wish.part]

/-- The answer to the frame of a key of any length. -/
lemma replies_frame {n : ℕ} (hn : toSize signed (toChar key.length) = some n) :
    ∃ ys, replies signed (frame key) = frame (key.take n ++ world) ++ ys := by
  have hle : n ≤ key.length := by
    rw [(toSize_le hn).1, toNat_toChar]
    exact Nat.mod_le _ _
  refine ⟨answers signed key.length (key.drop n), ?_⟩
  have hun : unframe signed (frame key) = some (key.take n, key.drop n) := by
    simp [frame, unframe, hn, hle]
  show answers signed (key.length + 1) (frame key) = _
  rw [answers, hun]

/-- A client that has read anything has read it from the answer to its key. -/
lemma heard_client (hS : c.Sound (talk signed (get signed)) cap (begins (.writeSize key)))
    (hw : c.wrote false = frame key) {b : Byte} {xs : List Byte} (hb : c.heard false = b :: xs) :
    ∃ n, toSize signed (toChar key.length) = some n ∧ b = toChar (n + 7) ∧
      ∃ ys, xs <+: key.take n ++ world ++ ys := by
  have hpre : b :: xs <+: replies signed (frame key) := by
    have h := (hS.overhears true).trans (answers_of_sound hS).1
    rwa [Bool.not_true, hb, hw] at h
  cases hn : toSize signed (toChar key.length) with
  | none =>
    have hnil : replies signed (frame key) = [] := by
      show answers signed (key.length + 1) (frame key) = []
      simp [answers, frame, unframe, hn]
    rw [hnil] at hpre
    exact absurd (List.prefix_nil.mp hpre) (List.cons_ne_nil _ _)
  | some n =>
    obtain ⟨ys, hys⟩ := replies_frame hn
    have hlen : (key.take n).length = n := by
      rw [List.length_take, (toSize_le hn).1, toNat_toChar]
      exact Nat.min_eq_left (Nat.mod_le _ _)
    rw [hys, frame, List.cons_append, List.length_append, hlen, length_world] at hpre
    obtain ⟨rfl, hxs⟩ := List.cons_prefix_cons.mp hpre
    exact ⟨n, rfl, rfl, ys, hxs⟩

lemma length_world_append (xs : List Byte) : (xs ++ world).length = xs.length + 7 := by
  rw [List.length_append, length_world]

lemma returned_of_sound (hS : c.Sound (talk signed (get signed)) cap (begins (.writeSize key)))
    {val : List Byte} (hval : (c.party false).pos = .inl (.returned val)) :
    (∃ n m, toSize signed (toChar key.length) = some n ∧ toSize signed (toChar (n + 7)) = some m ∧
      val = (key.take n ++ world).take m) ∧
    (val = key ++ world ↔ key.length ≤ limit signed) := by
  obtain ⟨u, i, o, hu, hg, hi, ho, hf⟩ := exists_got hS
  obtain rfl : u = .returned val := Sum.inl.inj (hu.symm.trans hval)
  generalize (c.party false).calls = calls at hg
  cases hg with
  | returned b _ hb =>
    rw [hf.1, List.append_nil] at hi
    simp only [get, Wish.part, List.append_nil] at ho
    obtain ⟨n, hn, rfl, ys, hys⟩ := heard_client hS ho hi
    have hlen : (key.take n).length = n := by
      rw [List.length_take, (toSize_le hn).1, toNat_toChar]
      exact Nat.min_eq_left (Nat.mod_le _ _)
    have hm : val.length ≤ (key.take n ++ world).length := by
      rw [(toSize_le hb).1, toNat_toChar, length_world_append, hlen]
      exact Nat.mod_le _ _
    have heq : val = (key.take n ++ world).take val.length := by
      have := List.prefix_iff_eq_take.mp hys
      rwa [List.take_append_of_le_length hm] at this
    refine ⟨⟨n, val.length, hn, hb, heq⟩, fun hv => ?_, fun hk => ?_⟩
    · -- the size of the value fits
      have hvl : val.length = key.length + 7 := by rw [hv, length_world_append]
      rw [hvl] at hb
      have := toSize_le hb
      rw [limit]
      split_ifs with hs
      · have := this.2.2 hs
        omega
      · omega
    · obtain rfl : key.length = n :=
        Option.some_injective _ ((toSize_of_fits (by omega)).symm.trans hn)
      have hvl : key.length + 7 = val.length :=
        Option.some_injective _ ((toSize_of_fits (by omega)).symm.trans hb)
      rw [heq, List.take_length, ← hvl, ← length_world_append, List.take_length]

lemma sound_session (h : (session signed cap key).Reachable c) :
    c.Sound (talk signed (get signed)) cap (begins (.writeSize key)) :=
  (inductive_sound _ _ _).holds h

/-- What `get` returns, if it does, whatever happens to the connection. It is the key and
`" world!"` exactly if the key is of `limit` bytes at most. -/
theorem get_returns (h : (session signed cap key).Reachable c) {val : List Byte}
    (hval : (c.party false).pos = .inl (.returned val)) :
    (∃ n m, toSize signed (toChar key.length) = some n ∧ toSize signed (toChar (n + 7)) = some m ∧
      val = (key.take n ++ world).take m) ∧
    (val = key ++ world ↔ key.length ≤ limit signed) :=
  returned_of_sound (sound_session h) hval

/-- The session goes on until the client has its answer. -/
def greets : List Move := asks ++ [.recv false 1, .ret false, .recv false 9, .ret false]

theorem get_returns_greets :
    ∃ c, (session true 10 hi).exec (start (begins (.writeSize hi))) greets = some c ∧
      ∃ val, (c.party false).pos = .inl (.returned val) ∧ val = hi ++ world := by
  have he : (session true 10 hi).exec (start (begins (.writeSize hi))) greets = some _ := rfl
  exact ⟨_, he, _, rfl, (get_returns (.of_exec rfl he) rfl).2.mpr (by decide)⟩

end Client

end Hello

end Synca
