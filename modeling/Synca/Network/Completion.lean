import Synca.Network.Session

/-!
# A session comes to its end

While the network holds, a session for a key of at most `limit` bytes never gets stuck before the
client has its answer, and it takes a bounded number of moves, so the client always gets it. It is
enough that the network holds one byte.
-/

namespace Synca

namespace Hello

open Transition Dialogue

variable {signed : Bool} {cap n : ℕ} {key : List Byte} {c c' : Dialogue Byte (Client ⊕ Server)}

/-- No call fails but for the other side having closed the socket. -/
def Faultless (_ : Dialogue Byte (Client ⊕ Server)) : Move → Prop
  | .fault _ => False
  | _        => True

instance (c : Dialogue Byte (Client ⊕ Server)) (m : Move) : Decidable (Faultless c m) := by
  induction m using Move.casesOn with
  | fault => exact .isFalse id
  | _ => exact .isTrue trivial

/-! ### Answers do not change as more is read -/

lemma unframe_append {xs str rest : List Byte} (h : unframe signed xs = some (str, rest))
    (ys : List Byte) : unframe signed (xs ++ ys) = some (str, rest ++ ys) := by
  cases xs with
  | nil => cases h
  | cons b xs =>
    simp only [unframe, Option.bind_eq_some_iff, Option.ite_none_right_eq_some, Option.some.injEq,
      Prod.mk.injEq, List.cons_append] at h ⊢
    obtain ⟨n, hn, hle, rfl, rfl⟩ := h
    refine ⟨n, hn, ?_, ?_, ?_⟩
    · rw [List.length_append]
      omega
    · rw [List.take_append_of_le_length hle]
    · rw [List.drop_append_of_le_length hle]

lemma answers_append (xs ys : List Byte) {m n : ℕ} (h : m ≤ n) :
    answers signed m xs <+: answers signed n (xs ++ ys) := by
  induction m generalizing n xs with
  | zero => exact List.nil_prefix
  | succ m ih =>
    obtain ⟨n, rfl⟩ : ∃ k, n = k + 1 := ⟨n - 1, by omega⟩
    cases hun : unframe signed xs with
    | none => simp [answers, hun]
    | some r =>
      obtain ⟨str, rest⟩ := r
      simp only [answers, hun, unframe_append hun ys]
      exact (List.prefix_append_right_inj _).mpr (ih rest (by omega))

lemma replies_mono {xs ys : List Byte} (h : xs <+: ys) :
    replies signed xs <+: replies signed ys := by
  obtain ⟨zs, rfl⟩ := h
  exact answers_append xs zs (by simp)

/-! ### Where the two stand -/

lemma heard_server (h : (session signed cap key).Reachable c) : c.heard true <+: frame key := by
  have := (sound_session h).overhears false
  rw [Bool.not_false] at this
  exact this.trans (wrote_client (sound_session h))

lemma isStop_client {u : Client} (hu : (c.party false).pos = .inl u) :
    (talk signed (get signed) (c.party false).pos).isStop = (get signed u).isStop := by
  rw [hu, talk, beside]
  cases get signed u <;> rfl

lemma isStop_server {u : Server} (hu : (c.party true).pos = .inr u) :
    (talk signed (get signed) (c.party true).pos).isStop = (serve signed u).isStop := by
  rw [hu, talk, beside]
  cases serve signed u <;> rfl

/-! ### A key of at most `limit` bytes -/

section Key

variable (hkey : key.length ≤ limit signed)
include hkey

lemma size_key : toSize signed (toChar key.length) = some key.length := toSize_of_fits (by omega)

lemma size_answer : toSize signed (toChar (key.length + 7)) = some (key.length + 7) :=
  toSize_of_fits (by omega)

lemma replies_key : replies signed (frame key) = frame (key ++ world) := by
  have h : replies signed ([key].flatMap frame) = ([key].map (· ++ world)).flatMap frame :=
    replies_frames (by simpa using hkey)
  simpa using h

/-- The one request there is. -/
lemma asked_key {rs : List (Byte × List Byte)} {xs : List Byte} (hrs : Sized signed rs)
    (h : asked rs ++ xs <+: frame key) :
    rs = [] ∨ (rs = [(toChar key.length, key)] ∧ xs = []) := by
  cases rs with
  | nil => exact .inl rfl
  | cons r rs =>
    refine .inr ?_
    obtain ⟨b, str⟩ := r
    have happ : asked ((b, str) :: rs) ++ xs = b :: (str ++ (asked rs ++ xs)) := by simp [asked]
    rw [happ, frame] at h
    obtain ⟨rfl, hrest⟩ := List.cons_prefix_cons.mp h
    have hlen : key.length = str.length :=
      Option.some_injective _ ((size_key hkey).symm.trans (hrs _ List.mem_cons_self))
    obtain rfl : str = key := ((List.prefix_append _ _).trans hrest).eq_of_length hlen.symm
    have hnil : asked rs ++ xs = [] := by
      have := hrest.length_le
      rw [List.length_append] at this
      exact List.length_eq_zero_iff.mp (by omega)
    obtain ⟨ha, hx⟩ := List.append_eq_nil_iff.mp hnil
    have hr : rs.length = 0 := by
      have := length_le_asked rs
      rw [ha] at this
      exact Nat.le_zero.mp this
    rw [List.length_eq_zero_iff.mp hr]
    exact ⟨rfl, hx⟩

lemma wrote_server (h : (session signed cap key).Reachable c) :
    c.wrote true <+: frame (key ++ world) :=
  replies_key hkey ▸ (answers_of_sound (sound_session h)).1.trans
    (replies_mono (wrote_client (sound_session h)))

lemma heard_answer (h : (session signed cap key).Reachable c) :
    c.heard false <+: frame (key ++ world) := by
  have := (sound_session h).overhears true
  rw [Bool.not_true] at this
  exact this.trans (wrote_server hkey h)

/-- The client does not throw. -/
lemma client_of_stop (h : (session signed cap key).Reachable c)
    (hstop : (talk signed (get signed) (c.party false).pos).isStop = true) :
    (c.party false).pos = .inl (.returned (key ++ world)) := by
  obtain ⟨u, i, o, hu, hg, hi, ho, hf⟩ := exists_got (sound_session h)
  rw [isStop_client hu] at hstop
  have hh := heard_answer hkey h
  generalize (c.party false).calls = calls at hg
  cases hg with
  | writeSize | writeKey | readSize | readVal => cases hstop
  | returned m val hm => rw [hu, (returned_of_sound (sound_session h) hu).2.mpr hkey]
  | thrown m hm =>
    rw [hi, frame, length_world_append] at hh
    obtain ⟨rfl, -⟩ := List.cons_prefix_cons.mp hh
    cases hm.symm.trans (size_answer hkey)

/-- Nor does the server. -/
lemma server_not_stop (h : (session signed cap key).Reachable c) :
    (talk signed (get signed) (c.party true).pos).isStop = false := by
  obtain ⟨rs, u, i, o, hrs, hu, hs, hi, ho, hf⟩ := exists_served (sound_session h)
  rw [isStop_server hu]
  have hh := heard_server h
  generalize (c.party true).calls = calls at hs
  cases hs with
  | readSize | readStr | writeSize | writeStr => rfl
  | thrown b hb =>
    rw [hi, List.append_assoc, List.singleton_append] at hh
    rcases asked_key hkey hrs hh with rfl | ⟨-, hx⟩
    · obtain ⟨rfl, -⟩ := List.cons_prefix_cons.mp (show b :: _ <+: frame key from hh)
      cases hb.symm.trans (size_key hkey)
    · exact absurd hx (List.cons_ne_nil _ _)

/-! ### No failure -/

/-- The client does not fail, and the server fails when the client has closed its socket. -/
structure Unbroken (key : List Byte) (c : Dialogue Byte (Client ⊕ Server)) : Prop where
  client : (c.party false).broken = false
  server : (c.party true).broken = true →
    (c.party false).pos = .inl (.returned (key ++ world))

omit hkey in
/-- Only a failure breaks a program, and a program that has stopped makes no move. -/
lemma party_of_step {m : Move} (hs : (session signed cap key).step c m = some c') (b : Bool) :
    ((c'.party b).broken = (c.party b).broken ∨ (m = .eof b ∨ m = .fault b)) ∧
    ((talk signed (get signed) (c.party b).pos).isStop = true →
      (c'.party b).pos = (c.party b).pos) := by
  obtain ⟨-, hs⟩ := Option.ite_none_left_eq_some.mp hs
  cases m with
  | recv a k =>
    obtain ⟨-, ⟨⟩⟩ := Option.ite_none_right_eq_some.mp hs
    rw [party_recv]
    split_ifs with hb
    · exact ⟨.inl (by rw [hb]), fun _ => by rw [hb]⟩
    · exact ⟨.inl rfl, fun _ => rfl⟩
  | send a k =>
    obtain ⟨-, ⟨⟩⟩ := Option.ite_none_right_eq_some.mp hs
    rw [party_send]
    split_ifs with hb
    · exact ⟨.inl (by rw [hb]), fun _ => by rw [hb]⟩
    · exact ⟨.inl rfl, fun _ => rfl⟩
  | ret a =>
    obtain ⟨u, hu, rfl⟩ := Option.map_eq_some_iff.mp hs
    rw [ret, party_mapParty]
    split_ifs with hb
    · refine ⟨.inl (by rw [hb]), fun hstop => ?_⟩
      cases hw : talk signed (get signed) (c.party a).pos with
      | read | write =>
        rw [hb, hw] at hstop
        cases hstop
      | stop => simp [hw, Wish.after] at hu
    · exact ⟨.inl rfl, fun _ => rfl⟩
  | eof a =>
    obtain ⟨-, ⟨⟩⟩ := Option.ite_none_right_eq_some.mp hs
    rw [fail, party_mapParty]
    split_ifs with hb
    · exact ⟨.inr (.inl (by rw [hb])), fun _ => by rw [hb]⟩
    · exact ⟨.inl rfl, fun _ => rfl⟩
  | fault a =>
    obtain ⟨-, ⟨⟩⟩ := Option.ite_none_right_eq_some.mp hs
    rw [fail, party_mapParty]
    split_ifs with hb
    · exact ⟨.inr (.inr (by rw [hb])), fun _ => by rw [hb]⟩
    · exact ⟨.inl rfl, fun _ => rfl⟩

lemma Unbroken.step {m : Move} (hU : Unbroken key c) (h : (session signed cap key).Reachable c)
    (hm : Faultless c m) (hs : (session signed cap key).step c m = some c') :
    Unbroken key c' := by
  have hserver := server_not_stop hkey h
  have hclient : (talk signed (get signed) (c.party false).pos).isStop = true →
      (c'.party false).pos = .inl (.returned (key ++ world)) := fun hstop =>
    ((party_of_step hs false).2 hstop).trans (client_of_stop hkey h hstop)
  have hstop : (c.party false).pos = .inl (.returned (key ++ world)) →
      (talk signed (get signed) (c.party false).pos).isStop = true := fun hu => by
    rw [isStop_client hu]
    rfl
  have heof : ∀ b, m = .eof b →
      0 < (talk signed (get signed) (c.party b).pos).lacks (c.party b).got ∧
        c.Over (talk signed (get signed)) (!b) := by
    rintro b rfl
    obtain ⟨-, hs⟩ := Option.ite_none_left_eq_some.mp hs
    obtain ⟨⟨hl, -, ho⟩, -⟩ := Option.ite_none_right_eq_some.mp hs
    exact ⟨hl, ho⟩
  constructor
  · rcases (party_of_step hs false).1 with hb | rfl | rfl
    · rw [hb, hU.client]
    · -- the server would have to be over
      obtain ⟨hl, ho | ho⟩ := heof false rfl
      · have hu := hU.server ho
        rw [hu] at hl
        exact absurd hl (Nat.lt_irrefl 0)
      · cases hserver.symm.trans ho
    · exact hm.elim
  · intro hb'
    rcases (party_of_step hs true).1 with hb | rfl | rfl
    · exact hclient (hstop (hU.server (hb ▸ hb')))
    · obtain ⟨-, ho | ho⟩ := heof true rfl
      · cases hU.client.symm.trans ho
      · exact hclient ho
    · exact hm.elim

/-! ### What each of the two waits for -/

omit hkey in
lemma lacks_client {u : Client} (hu : (c.party false).pos = .inl u) :
    (talk signed (get signed) (c.party false).pos).lacks (c.party false).got =
      (get signed u).lacks (c.party false).got ∧
    (talk signed (get signed) (c.party false).pos).rest (c.party false).sent =
      (get signed u).rest (c.party false).sent := by
  rw [hu, talk, beside]
  cases get signed u <;> exact ⟨rfl, rfl⟩

omit hkey in
lemma lacks_server {u : Server} (hu : (c.party true).pos = .inr u) :
    (talk signed (get signed) (c.party true).pos).lacks (c.party true).got =
      (serve signed u).lacks (c.party true).got ∧
    (talk signed (get signed) (c.party true).pos).rest (c.party true).sent =
      (serve signed u).rest (c.party true).sent := by
  rw [hu, talk, beside]
  cases serve signed u <;> exact ⟨rfl, rfl⟩

/-- A client that reads has sent its key, and does not have the whole answer. -/
lemma client_reads (h : (session signed cap key).Reachable c)
    (hl : 0 < (talk signed (get signed) (c.party false).pos).lacks (c.party false).got) :
    c.wrote false = frame key ∧ (c.heard false).length < key.length + 8 := by
  obtain ⟨u, i, o, hu, hg, hi, ho, hf⟩ := exists_got (sound_session h)
  rw [(lacks_client hu).1] at hl
  have hh := heard_answer hkey h
  generalize (c.party false).calls = calls at hg
  generalize (c.party false).got = got at hl hi hf
  cases hg with
  | writeSize | writeKey | returned | thrown => exact absurd hl (Nat.lt_irrefl 0)
  | readSize =>
    have hl : 0 < 1 - got.length := hl
    refine ⟨by simpa [get, Wish.part] using ho, ?_⟩
    rw [hi, List.nil_append]
    omega
  | readVal m n hm =>
    have hl : 0 < n - got.length := hl
    refine ⟨by simpa [get, Wish.part] using ho, ?_⟩
    rw [hi, frame, length_world_append] at hh
    obtain ⟨rfl, -⟩ := List.cons_prefix_cons.mp hh
    have hn : n = key.length + 7 := Option.some_injective _ (hm.symm.trans (size_answer hkey))
    rw [hi, List.singleton_append, List.length_cons]
    omega

omit hkey in
/-- A client that writes has not sent all of its key. -/
lemma client_writes (h : (session signed cap key).Reachable c)
    (hr : (talk signed (get signed) (c.party false).pos).rest (c.party false).sent ≠ []) :
    (c.wrote false).length < key.length + 1 := by
  obtain ⟨u, i, o, hu, hg, hi, ho, hf⟩ := exists_got (sound_session h)
  rw [(lacks_client hu).2] at hr
  rw [ho]
  generalize (c.party false).calls = calls at hg
  generalize (c.party false).sent = sent at hr
  cases hg with
  | readSize | readVal | returned | thrown => exact absurd rfl hr
  | writeSize =>
    have hr : [toChar key.length].drop sent ≠ [] := hr
    rw [ne_eq, List.drop_eq_nil_iff, List.length_singleton] at hr
    show ([toChar key.length].take sent).length < key.length + 1
    rw [List.length_take]
    omega
  | writeKey =>
    have hr : key.drop sent ≠ [] := hr
    rw [ne_eq, List.drop_eq_nil_iff] at hr
    show ([toChar key.length] ++ key.take sent).length < key.length + 1
    rw [List.length_append, List.length_take, List.length_singleton]
    omega

/-- The server is at the only request, or it has answered it. -/
lemma server_stands (h : (session signed cap key).Reachable c) :
    ∃ u i o, (c.party true).pos = .inr u ∧ c.heard true = i ++ (c.party true).got ∧
      c.wrote true = o ++ (serve signed u).part (c.party true).sent ∧
      (Served signed [] (c.party true).calls i o u ∨
        ((c.party true).calls = 4 ∧ u = .readSize ∧ o = frame (key ++ world))) := by
  obtain ⟨rs, u, i, o, hrs, hu, hs, hi, ho, -⟩ := exists_served (sound_session h)
  refine ⟨u, i, o, hu, hi, ho, ?_⟩
  have hh := heard_server h
  rw [hi] at hh
  have hrest : ∀ xs, i = asked rs ++ xs →
      rs = [] ∨ (rs = [(toChar key.length, key)] ∧ xs = []) := by
    rintro xs rfl
    rw [List.append_assoc] at hh
    exact (asked_key hkey hrs hh).imp id fun ⟨hr, hx⟩ => ⟨hr, (List.append_eq_nil_iff.mp hx).1⟩
  generalize (c.party true).calls = calls at hs
  cases hs with
  | readSize =>
    rcases hrest [] (List.append_nil _).symm with rfl | ⟨rfl, -⟩
    · exact .inl .readSize
    · exact .inr ⟨rfl, rfl, by simp [answered]⟩
  | readStr b n hb =>
    rcases hrest _ rfl with rfl | ⟨-, hx⟩
    · exact .inl (.readStr b n hb)
    · exact absurd hx (List.cons_ne_nil _ _)
  | writeSize b str hb =>
    rcases hrest _ rfl with rfl | ⟨-, hx⟩
    · exact .inl (.writeSize b str hb)
    · exact absurd hx (List.cons_ne_nil _ _)
  | writeStr b str hb =>
    rcases hrest _ rfl with rfl | ⟨-, hx⟩
    · exact .inl (.writeStr b str hb)
    · exact absurd hx (List.cons_ne_nil _ _)
  | thrown b hb =>
    rcases hrest _ rfl with rfl | ⟨-, hx⟩
    · exact .inl (.thrown b hb)
    · exact absurd hx (List.cons_ne_nil _ _)

/-- A server that reads though it has the key has answered. -/
lemma server_reads (h : (session signed cap key).Reachable c) (hall : c.heard true = frame key)
    (hl : 0 < (talk signed (get signed) (c.party true).pos).lacks (c.party true).got) :
    c.wrote true = frame (key ++ world) ∧ (c.party true).pos = .inr .readSize := by
  obtain ⟨u, i, o, hu, hi, ho, hs | ⟨-, rfl, rfl⟩⟩ := server_stands hkey h
  · rw [(lacks_server hu).1] at hl
    have hlen := congrArg List.length (hi.symm.trans hall)
    rw [List.length_append, frame, List.length_cons] at hlen
    rw [hi] at hall
    generalize (c.party true).calls = calls at hs
    generalize (c.party true).got = got at hl hlen hall
    cases hs with
    | writeSize | writeStr | thrown => exact absurd hl (Nat.lt_irrefl 0)
    | readSize =>
      have hl : 0 < 1 - got.length := hl
      simp [asked] at hlen
      omega
    | readStr b n hb =>
      have hl : 0 < n - got.length := hl
      obtain ⟨rfl, -⟩ := List.cons.inj (show b :: got = toChar key.length :: key from hall)
      have hn : n = key.length := Option.some_injective _ (hb.symm.trans (size_key hkey))
      simp [asked] at hlen
      omega
  · exact ⟨by simpa [serve, Wish.part] using ho, hu⟩

/-- A server that writes has the key, and has not sent all of the answer. -/
lemma server_writes (h : (session signed cap key).Reachable c)
    (hr : (talk signed (get signed) (c.party true).pos).rest (c.party true).sent ≠ []) :
    (c.heard true).length = key.length + 1 ∧ (c.wrote true).length < key.length + 8 := by
  obtain ⟨u, i, o, hu, hi, ho, hs | ⟨-, rfl, rfl⟩⟩ := server_stands hkey h
  · rw [(lacks_server hu).2] at hr
    have hh := heard_server h
    have hlen : (c.heard true).length ≤ key.length + 1 := hh.length_le
    rw [hi] at hh
    rw [hi, List.length_append] at hlen ⊢
    rw [ho]
    generalize (c.party true).calls = calls at hs
    generalize (c.party true).sent = sent at hr
    cases hs with
    | readSize | readStr | thrown => exact absurd rfl hr
    | writeSize b str hb =>
      obtain ⟨rfl, -⟩ := List.cons_prefix_cons.mp
        (show b :: (str ++ _) <+: toChar key.length :: key from hh)
      have hn : str.length = key.length := Option.some_injective _ (hb.symm.trans (size_key hkey))
      have hr : [toChar (str ++ world).length].drop sent ≠ [] := hr
      rw [ne_eq, List.drop_eq_nil_iff, List.length_singleton] at hr
      simp only [asked, answered, List.flatMap_nil, List.nil_append, List.length_cons, serve,
        Wish.part, List.length_take, List.length_nil] at hlen ⊢
      omega
    | writeStr b str hb =>
      obtain ⟨rfl, -⟩ := List.cons_prefix_cons.mp
        (show b :: (str ++ _) <+: toChar key.length :: key from hh)
      have hn : str.length = key.length := Option.some_injective _ (hb.symm.trans (size_key hkey))
      have hr : (str ++ world).drop sent ≠ [] := hr
      rw [ne_eq, List.drop_eq_nil_iff, length_world_append] at hr
      simp only [asked, answered, List.flatMap_nil, List.nil_append, List.length_cons, serve,
        Wish.part, List.length_take, List.length_nil, List.length_append, length_world] at hlen ⊢
      omega
  · rw [hu] at hr
    exact absurd rfl hr

/-! ### The work of a session -/

omit hkey in
lemma calls_client (h : (session signed cap key).Reachable c) : (c.party false).calls ≤ 4 := by
  obtain ⟨u, i, o, -, hg, -⟩ := exists_got (sound_session h)
  generalize (c.party false).calls = calls at hg
  cases hg <;> omega

lemma calls_server (h : (session signed cap key).Reachable c) : (c.party true).calls ≤ 4 := by
  obtain ⟨u, i, o, -, -, -, hs | ⟨hc, -⟩⟩ := server_stands hkey h
  · generalize (c.party true).calls = calls at hs
    cases hs <;> simp
  · exact Nat.le_of_eq hc

lemma work_le (h : (session signed cap key).Reachable c) (hU : Unbroken key c) :
    c.work false + c.work true ≤ 4 * key.length + 27 := by
  have hwc : (c.wrote false).length ≤ key.length + 1 := (wrote_client (sound_session h)).length_le
  have hhs : (c.heard true).length ≤ key.length + 1 := (heard_server h).length_le
  have hws := (wrote_server hkey h).length_le
  have hhc := (heard_answer hkey h).length_le
  rw [frame, List.length_cons, length_world_append] at hws hhc
  have hcc := calls_client h
  have hcs := calls_server hkey h
  have hb : (c.party false).broken.toNat = 0 := by rw [hU.client]; rfl
  have hb' : (c.party true).broken.toNat ≤ 1 := Bool.toNat_le _
  simp only [work]
  omega

omit hkey in
lemma heard_returned (h : (session signed cap key).Reachable c)
    (hval : (c.party false).pos = .inl (.returned (key ++ world))) :
    (c.heard false).length = key.length + 8 := by
  obtain ⟨u, i, o, hu, hg, hi, -, hf⟩ := exists_got (sound_session h)
  obtain rfl : u = .returned (key ++ world) := Sum.inl.inj (hu.symm.trans hval)
  generalize (c.party false).calls = calls at hg
  rw [hi, hf.1, List.append_nil]
  cases hg with
  | returned m _ hm => rw [List.length_cons, length_world_append]

lemma unbroken (h : (session signed cap key).ReachableBy Faultless c) : Unbroken key c := by
  induction h with
  | init h =>
    obtain rfl := h
    exact ⟨rfl, by simp [start]⟩
  | step h hm hs ih => exact ih.step hkey h.reachable hm hs

/-- A session without failures that cannot go on is over, and the client has its answer. -/
lemma returned_of_stuck (h : (session signed cap key).ReachableBy Faultless c) (hcap : 0 < cap)
    (hstuck : ∀ m, Faultless c m → (session signed cap key).step c m = none) :
    (c.party false).pos = .inl (.returned (key ++ world)) ∧ (c.party true).broken = true := by
  have hR := h.reachable
  have hS := sound_session hR
  have hU := unbroken hkey h
  have hfull : ∀ b, cap ≤ (c.stream b).length → (c.heard !b).length < (c.wrote b).length := by
    intro b hb
    rw [hS.stream b, List.length_append]
    omega
  have hempty : ∀ b, c.stream b = [] → c.heard (!b) = c.wrote b := by
    intro b hb
    rw [hS.stream b, hb, List.append_nil]
  have hwc : (c.wrote false).length ≤ key.length + 1 := (wrote_client hS).length_le
  have hno : ∀ b (m : Move), m.party = b → (∀ a, m ≠ .fault a) →
      c.step (talk signed (get signed)) cap m = none := by
    intro b m _ hf
    cases m with
    | fault a => exact absurd rfl (hf a)
    | recv | send | ret | eof => exact hstuck _ trivial
  rcases waits_of_stuck hS hU.client (hno false) with hstop | ⟨hl, he, ho⟩ | ⟨hr, hc⟩
  · -- the client is done; then so is the server
    have hdone := client_of_stop hkey hR hstop
    refine ⟨hdone, ?_⟩
    by_contra hb
    rcases waits_of_stuck hS (by simpa using hb) (hno true) with hstop' | ⟨-, -, ho⟩ | ⟨hr, hc⟩
    · cases (server_not_stop hkey hR).symm.trans hstop'
    · exact ho (.inr hstop)
    · have hheard := hfull true hc
      have hws := (server_writes hkey hR hr).2
      have hhc := heard_returned hR hdone
      rw [Bool.not_true] at hheard
      omega
  · by_cases hb : (c.party true).broken = true
    · rw [hU.server hb] at hl
      exact absurd hl (Nat.lt_irrefl 0)
    · obtain ⟨hw, hhc⟩ := client_reads hkey hR hl
      rcases waits_of_stuck hS (by simpa using hb) (hno true) with hstop' | ⟨hl', he', -⟩ | ⟨-, hc'⟩
      · cases (server_not_stop hkey hR).symm.trans hstop'
      · -- both wait for the other
        have hall : c.heard true = frame key := (hempty false he').trans hw
        have hans := hempty true he
        rw [Bool.not_true, (server_reads hkey hR hall hl').1] at hans
        rw [hans, frame, List.length_cons, length_world_append] at hhc
        omega
      · rw [show c.stream true = [] from he] at hc'
        exact absurd hcap (Nat.not_lt.mpr hc')
  · by_cases hb : (c.party true).broken = true
    · rw [hU.server hb] at hr
      exact absurd rfl hr
    · have hpart := client_writes hR hr
      have hhs := hfull false hc
      rw [Bool.not_false] at hhs
      rcases waits_of_stuck hS (by simpa using hb) (hno true) with hstop' | ⟨-, he', -⟩ | ⟨hr', -⟩
      · cases (server_not_stop hkey hR).symm.trans hstop'
      · rw [show c.stream false = [] from he'] at hc
        exact absurd hcap (Nat.not_lt.mpr hc)
      · have := (server_writes hkey hR hr').1
        omega

end Key

/-- While the network holds, a session for a key of `limit` bytes at most takes a bounded number of
moves, and as long as the client has not returned the key and `" world!"`, or the server has not
seen that the client has closed its socket, it can go on. -/
theorem get_completes (hkey : key.length ≤ limit signed) (hcap : 0 < cap) {ms : List Move}
    (hm : (session signed cap key).Along Faultless (start (begins (.writeSize key))) ms)
    (he : (session signed cap key).exec (start (begins (.writeSize key))) ms = some c) :
    ms.length ≤ 4 * key.length + 27 ∧
    ((∀ m, Faultless c m → (session signed cap key).step c m = none) →
      (c.party false).pos = .inl (.returned (key ++ world)) ∧ (c.party true).broken = true) := by
  have h : (session signed cap key).ReachableBy Faultless c :=
    (Machine.ReachableBy.init rfl).exec hm he
  refine ⟨?_, returned_of_stuck hkey h hcap⟩
  have hlen := length_le_work (w := talk signed (get signed)) he
  have hwork := work_le hkey h.reachable (unbroken hkey h)
  omega

/-- The session ends when the server sees that the client has gone. -/
theorem get_completes_greets : ∃ c, (session true 10 hi).exec (start (begins (.writeSize hi)))
      (greets ++ [Move.eof true]) = some c ∧
      (greets ++ [Move.eof true]).length ≤ 4 * hi.length + 27 := by
  have he : (session true 10 hi).exec (start (begins (.writeSize hi))) (greets ++ [Move.eof true]) =
    some _ := rfl
  exact ⟨_, he, (get_completes (by decide) (by decide) (by decide) he).1⟩

end Hello

end Synca
