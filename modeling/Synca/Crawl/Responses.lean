import Synca.Crawl.LoadContent

/-!
# What comes back from a page

When `loadContent` returns, and what. The body is a beginning of what comes after the first blank
line. Where the header has a `content-length` it does not depend on the pieces, but a response of
which more than its length comes with the header makes `loadContent` throw. A chunked response ends
with the first piece that ends with a blank line, also if this is the header's.
-/

namespace Synca

namespace Crawl

section

variable {ε E : Type} {lib : Lib} {net : Net ε E} {url : Str × Str} {c : Conn ε} {k : ℕ}
  {host body head rest came digits : Str}

/-- The network brings the response `c`. -/
def Reached (net : Net ε E) (url : Str × Str) (c : Conn ε) : Prop :=
  ∃ e es, net.resolve url.1 80 = .ok (e :: es) ∧ net.connect e = .ok () ∧
    net.write e (request url.1 url.2) = .ok c

def Allowed (lib : Lib) (head : Str) : Prop :=
  ∃ status ∈ allowedStatuses, lib.eStatus head = some status

lemma mapError_eq_ok {α : Type} {x : Except ε α} {a : α} :
    (x.mapError .net : Except (Failure ε) α) = .ok a ↔ x = .ok a := by
  cases x <;> simp [Except.mapError]

lemma loadContent_eq_ok : loadContent lib net url = .ok (host, body) ↔
    host = url.1 ∧ ∃ c, Reached net url c ∧ receive lib c = .ok body := by
  rw [loadContent, bind_eq_ok]
  simp only [mapError_eq_ok]
  constructor
  · rintro ⟨ends, hends, h⟩
    cases ends with
    | nil => cases h
    | cons e es =>
      obtain ⟨_, hconnect, h⟩ := bind_eq_ok.mp h
      obtain ⟨c, hwrite, h⟩ := bind_eq_ok.mp h
      obtain ⟨b, hb, ⟨⟩⟩ := bind_eq_ok.mp h
      rw [mapError_eq_ok] at hconnect hwrite
      exact ⟨rfl, c, ⟨e, es, hends, hconnect, hwrite⟩, hb⟩
  · rintro ⟨rfl, c, ⟨e, es, hends, hconnect, hwrite⟩, hb⟩
    refine ⟨_, hends, bind_eq_ok.mpr ⟨(), mapError_eq_ok.mpr hconnect, ?_⟩⟩
    exact bind_eq_ok.mpr ⟨c, mapError_eq_ok.mpr hwrite, bind_eq_ok.mpr ⟨body, hb, rfl⟩⟩

lemma Headed.drop {xs : Str} (h : Headed xs head came) (ys : Str) :
    (xs ++ ys).drop (head.length + 4) = came ++ ys := by
  have h := (h.append ys).eq
  have hlen : (head ++ (EOL ++ EOL)).length = head.length + 4 := by simp [EOL]
  rw [h, ← List.append_assoc, ← hlen, List.drop_left]

lemma readLength_eq_ok {error : ε} {ps : List Piece} {resp : Str} {len : ℤ}
    (h : Headed resp head came) : readLength error ps resp (head.length + 4) len = .ok body ↔
    0 < len ∧ len < MAX_BUF_SIZE ∧ came.length ≤ len.toNat ∧
      len.toNat ≤ (came ++ Conn.bytes ps).length ∧
      body = (came ++ Conn.bytes ps).take len.toNat := by
  have hresp : resp.length - (head.length + 4) = came.length := by
    have := h.length
    omega
  simp only [readLength, bind_eq_ok, verify_eq_ok, hresp, read]
  simp only [Bool.and_eq_true, decide_eq_true_eq, List.length_append]
  constructor
  · rintro ⟨_, ⟨hpos, hmax⟩, _, hcame, buf, hbuf, hbody⟩
    split_ifs at hbuf with hle
    obtain ⟨⟩ := hbuf
    obtain ⟨⟩ := hbody
    refine ⟨hpos, hmax, hcame, by omega, ?_⟩
    rw [h.drop, List.take_append, List.take_of_length_le hcame]
  · rintro ⟨hpos, hmax, hcame, hle, rfl⟩
    refine ⟨(), ⟨hpos, hmax⟩, (), hcame, _, if_pos (by omega), ?_⟩
    rw [h.drop, List.take_append, List.take_of_length_le hcame]

/-- What is returned for a response whose header is there with `k` pieces, when `came` has come
with the header. -/
inductive Body (lib : Lib) (c : Conn ε) (k : ℕ) (head came : Str) : Str → Prop where
  | length (digits : Str) (hd : lib.eLength head = some digits) (hpos : 0 < lib.atoi digits)
      (hmax : lib.atoi digits < MAX_BUF_SIZE) (hcame : came.length ≤ (lib.atoi digits).toNat)
      (hle : (lib.atoi digits).toNat ≤ (came ++ Conn.bytes (c.pieces.drop k)).length) :
      Body lib c k head came ((came ++ Conn.bytes (c.pieces.drop k)).take (lib.atoi digits).toNat)
  | chunks (hd : lib.eLength head = none) (hc : lib.eChunked head = true) (j : ℕ)
      (hj : Until atEnd (upto c.pieces k) (c.pieces.drop k) j) :
      Body lib c k head came (came ++ upto (c.pieces.drop k) j)

lemma receive_eq_ok : receive lib c = .ok body ↔
    ∃ k head came, Until hasHeader [] c.pieces k ∧ Headed (upto c.pieces k) head came ∧
      Allowed lib head ∧ Body lib c k head came body := by
  have hread : ∀ head, (lib.eStatus head).isSome = true ∧
      allowedStatuses.contains ((lib.eStatus head).getD []) = true ↔ Allowed lib head := by
    intro head
    rw [Allowed]
    cases lib.eStatus head <;> simp
  simp only [receive, readHeader, bind_eq_ok, readUntil_eq_ok, verify_eq_ok]
  constructor
  · rintro ⟨_, ⟨k, hk, rfl⟩, _, hs, _, ha, h⟩
    obtain ⟨head, came, hh⟩ := exists_headed hk.stops
    rw [List.nil_append] at hh
    have htake : (upto c.pieces k).take head.length = head := by
      rw [hh.eq, List.take_left]
    simp only [List.nil_append, hh.find, Option.getD_some, htake] at hs ha h
    refine ⟨k, head, came, hk, hh, (hread head).mp ⟨hs, ha⟩, ?_⟩
    cases hd : lib.eLength head with
    | some digits =>
      rw [hd] at h
      obtain ⟨hpos, hmax, hcame, hle, rfl⟩ := (readLength_eq_ok hh).mp h
      exact .length digits hd hpos hmax hcame hle
    | none =>
      rw [hd] at h
      simp only [bind_eq_ok, verify_eq_ok, readChunks, readUntil_eq_ok] at h
      obtain ⟨_, hc, _, ⟨j, hj, rfl⟩, ⟨⟩⟩ := h
      rw [hh.drop]
      exact .chunks hd hc j hj
  · rintro ⟨k, head, came, hk, hh, ha, hbody⟩
    have htake : (upto c.pieces k).take head.length = head := by
      rw [hh.eq, List.take_left]
    obtain ⟨hs, ha⟩ := (hread head).mpr ha
    refine ⟨_, ⟨k, hk, rfl⟩, (), ?_, (), ?_, ?_⟩
    · simpa only [List.nil_append, hh.find, Option.getD_some, htake] using hs
    · simpa only [List.nil_append, hh.find, Option.getD_some, htake] using ha
    · simp only [List.nil_append, hh.find, Option.getD_some, htake]
      cases hbody with
      | length digits hd hpos hmax hcame hle =>
        rw [hd]
        exact (readLength_eq_ok hh).mpr ⟨hpos, hmax, hcame, hle, rfl⟩
      | chunks hd hc j hj =>
        rw [hd]
        simp only [bind_eq_ok, verify_eq_ok, readChunks, readUntil_eq_ok]
        exact ⟨(), hc, _, ⟨j, hj, rfl⟩, by rw [hh.drop]⟩

/-! ### Whole responses -/

lemma Reached.unique {c' : Conn ε} (h : Reached net url c) (h' : Reached net url c') : c = c' := by
  obtain ⟨e, es, hr, -, hw⟩ := h
  obtain ⟨e', es', hr', -, hw'⟩ := h'
  obtain ⟨rfl, rfl⟩ := List.cons.inj (Except.ok.inj (hr.symm.trans hr'))
  exact Except.ok.inj (hw.symm.trans hw')

/-- The header of the first pieces is the header of the response. -/
lemma Headed.whole (h : Headed (upto c.pieces k) head came) :
    Headed (Conn.bytes c.pieces) head (came ++ Conn.bytes (c.pieces.drop k)) := by
  rw [← upto_append c.pieces k]
  exact h.append _

lemma Until.headed (h : Until hasHeader [] c.pieces k)
    (hh : Headed (Conn.bytes c.pieces) head rest) :
    ∃ came, Headed (upto c.pieces k) head came ∧ rest = came ++ Conn.bytes (c.pieces.drop k) := by
  obtain ⟨head', came, hk⟩ := exists_headed h.stops
  rw [List.nil_append] at hk
  obtain ⟨rfl, rfl⟩ := hh.unique hk.whole
  exact ⟨came, hk, rfl⟩

/-- What a call that is connected returns. -/
lemma loadContent_reached (hnet : Reached net url c)
    (hh : Headed (Conn.bytes c.pieces) head rest) :
    loadContent lib net url = .ok (host, body) ↔ host = url.1 ∧ Allowed lib head ∧
      ∃ k came, Until hasHeader [] c.pieces k ∧ Headed (upto c.pieces k) head came ∧
        rest = came ++ Conn.bytes (c.pieces.drop k) ∧ Body lib c k head came body := by
  rw [loadContent_eq_ok]
  constructor
  · rintro ⟨rfl, c', hc', h⟩
    obtain rfl := hnet.unique hc'
    obtain ⟨k, head', came, hk, hhead, ha, hb⟩ := receive_eq_ok.mp h
    obtain ⟨rfl, rfl⟩ := hh.unique hhead.whole
    exact ⟨rfl, ha, k, came, hk, hhead, rfl, hb⟩
  · rintro ⟨rfl, ha, k, came, hk, hhead, -, hb⟩
    exact ⟨rfl, c, hnet, receive_eq_ok.mpr ⟨k, head, came, hk, hhead, ha, hb⟩⟩

/-- A body has less bytes than the buffer may have, with the piece that fills it. -/
lemma Body.length_lt {k : ℕ} {head came : Str} (hb : Body lib c k head came body)
    (hk : Until hasHeader [] c.pieces k) (hh : Headed (upto c.pieces k) head came) :
    body.length < MAX_BUF_SIZE + READ_BUF_SIZE := by
  cases hb with
  | length digits hd hpos hmax hcame hle =>
    rw [List.length_take, Nat.min_eq_left hle]
    omega
  | chunks hd hc j hj =>
    have hlen := hj.length_lt (hk.length_lt (by decide))
    have hall := (hh.append (upto (c.pieces.drop k) j)).length
    rw [List.length_append] at hall hlen
    omega

lemma loadContent_length_lt (h : loadContent lib net url = .ok (host, body)) :
    body.length < MAX_BUF_SIZE + READ_BUF_SIZE := by
  obtain ⟨-, c, -, h⟩ := loadContent_eq_ok.mp h
  obtain ⟨k, head, came, hk, hh, -, hb⟩ := receive_eq_ok.mp h
  exact hb.length_lt hk hh

/-! ### Results -/

/-- A network with one page. -/
def site (ps : List Piece) : Net Unit Unit where
  resolve _ _ := .ok [()]
  connect _   := .ok ()
  write _ _   := .ok ⟨ps, ()⟩

/-- The searches for the pages of the examples below. -/
def searches (length : Option Str) : Lib where
  eStatus _  := some (text "200")
  eLength _  := length
  eChunked _ := length.isNone
  atoi _     := 2

def home : Str × Str := (text "localhost", text "/")

def sized : Str := text "HTTP/1.1 200 OK\r\nContent-Length: 2"

def chunked : Str := text "HTTP/1.1 200 OK\r\nTransfer-Encoding: chunked"

/-- The body comes in two pieces, the first with the header. -/
def hello : List Piece := [⟨sized ++ (EOL ++ EOL ++ text "H"), by decide⟩, ⟨text "i", by decide⟩]

/-- The header comes first. -/
def headFirst : List Piece :=
  [⟨chunked ++ (EOL ++ EOL), by decide⟩, ⟨text "2\r\nHi\r\n0\r\n\r\n", by decide⟩]

/-- What is returned is the beginning of what comes after the first blank line: as many bytes as
`content-length` says, or up to a blank line. -/
theorem loadContent_returns (h : loadContent lib net url = .ok (host, body)) :
    host = url.1 ∧ ∃ c head rest, Reached net url c ∧
      Headed (Conn.bytes c.pieces) head rest ∧ Allowed lib head ∧ body <+: rest ∧
      body.length < MAX_BUF_SIZE + READ_BUF_SIZE ∧
      (∀ digits, lib.eLength head = some digits → (body.length : ℤ) = lib.atoi digits) ∧
      (lib.eLength head = none →
        lib.eChunked head = true ∧ EOL ++ EOL <:+ head ++ (EOL ++ EOL ++ body)) := by
  obtain ⟨rfl, c, hc, h⟩ := loadContent_eq_ok.mp h
  obtain ⟨k, head, came, hk, hh, ha, hb⟩ := receive_eq_ok.mp h
  have hlt := hb.length_lt hk hh
  refine ⟨rfl, c, head, _, hc, hh.whole, ha, ?_⟩
  cases hb with
  | length digits hd hpos hmax hcame hle =>
    have hlen : ((came ++ Conn.bytes (c.pieces.drop k)).take (lib.atoi digits).toNat).length =
        (lib.atoi digits).toNat := by
      rw [List.length_take, Nat.min_eq_left hle]
    refine ⟨List.take_prefix _ _, hlt, fun ds hds => ?_, fun hn => ?_⟩
    · rw [hd] at hds
      obtain ⟨⟩ := hds
      rw [hlen, Int.toNat_of_nonneg (by omega)]
    · rw [hd] at hn
      cases hn
  | chunks hd hc j hj =>
    have hwhole := hh.append (upto (c.pieces.drop k) j)
    refine ⟨?_, hlt, fun ds hds => ?_, fun _ => ⟨hc, ?_⟩⟩
    · rw [← upto_append (c.pieces.drop k) j, ← List.append_assoc]
      exact List.prefix_append _ _
    · rw [hd] at hds
      cases hds
    · rw [← hwhole.eq]
      exact atEnd_iff.mp hj.stops

theorem loadContent_returns_hello : ∃ c head rest, Reached (site hello) home c ∧
    Headed (Conn.bytes c.pieces) head rest ∧ text "Hi" <+: rest := by
  have h : loadContent (searches (some (text "2"))) (site hello) home =
    .ok (text "localhost", text "Hi") := by decide
  obtain ⟨-, c, head, rest, hc, hh, -, hb, -⟩ := loadContent_returns h
  exact ⟨c, head, rest, hc, hh, hb⟩

/-- A response with a `content-length` is returned exactly if it is long enough and no more of it
than that has come with the header. -/
theorem loadContent_length (hnet : Reached net url c)
    (hh : Headed (Conn.bytes c.pieces) head rest) (hd : lib.eLength head = some digits) :
    loadContent lib net url = .ok (host, body) ↔
      host = url.1 ∧ body = rest.take (lib.atoi digits).toNat ∧ Allowed lib head ∧
      0 < lib.atoi digits ∧ lib.atoi digits < MAX_BUF_SIZE ∧
      (lib.atoi digits).toNat ≤ rest.length ∧
      ∃ k, Until hasHeader [] c.pieces k ∧
        (upto c.pieces k).length ≤ head.length + 4 + (lib.atoi digits).toNat := by
  rw [loadContent_reached hnet hh]
  constructor
  · rintro ⟨rfl, ha, k, came, hk, hhead, rfl, hb⟩
    cases hb with
    | length ds hds hpos hmax hcame hle =>
      obtain rfl : digits = ds := Option.some.inj (hd.symm.trans hds)
      have := hhead.length
      exact ⟨rfl, rfl, ha, hpos, hmax, hle, k, hk, by omega⟩
    | chunks hn =>
      rw [hd] at hn
      cases hn
  · rintro ⟨rfl, rfl, ha, hpos, hmax, hle, k, hk, hlen⟩
    obtain ⟨came, hhead, rfl⟩ := hk.headed hh
    have := hhead.length
    exact ⟨rfl, ha, k, came, hk, hhead, rfl, .length digits hd hpos hmax (by omega) hle⟩

lemma headed_of_find {xs head rest : Str} (h : find (EOL ++ EOL) xs = some head.length)
    (heq : xs = head ++ (EOL ++ EOL ++ rest)) : Headed xs head rest := by
  obtain ⟨head', rest', hh⟩ := exists_headed (Option.isSome_of_eq_some h)
  have hlen : head'.length = head.length := Option.some.inj (hh.find.symm.trans h)
  obtain ⟨rfl, hrest⟩ := List.append_inj (hh.eq.symm.trans heq) hlen
  rwa [List.append_cancel_left hrest] at hh

theorem loadContent_length_hello :
    loadContent (searches (some (text "2"))) (site hello) home =
      .ok (text "localhost", text "Hi") := by
  have hh : Headed (Conn.bytes hello) sized (text "Hi") :=
    headed_of_find (by decide) (by decide)
  have hk : Until hasHeader [] hello 1 := ⟨by decide, by decide, by decide, by decide⟩
  exact (loadContent_length ⟨(), [], rfl, rfl, rfl⟩ hh rfl).mpr
    ⟨rfl, by decide, ⟨_, by decide, rfl⟩, by decide, by decide, by decide, 1, hk, by decide⟩

lemma loadContent_chunked_iff (hnet : Reached net url c)
    (hh : Headed (Conn.bytes c.pieces) head rest) (hd : lib.eLength head = none) :
    loadContent lib net url = .ok (host, body) ↔
      host = url.1 ∧ Allowed lib head ∧ lib.eChunked head = true ∧
      ∃ k j, Until hasHeader [] c.pieces k ∧ Until atEnd (upto c.pieces k) (c.pieces.drop k) j ∧
        upto c.pieces (k + j) = head ++ (EOL ++ EOL ++ body) := by
  rw [loadContent_reached hnet hh]
  constructor
  · rintro ⟨rfl, ha, k, came, hk, hhead, rfl, hb⟩
    cases hb with
    | length ds hds =>
      rw [hd] at hds
      cases hds
    | chunks _ hc j hj =>
      refine ⟨rfl, ha, hc, k, j, hk, hj, ?_⟩
      rw [← upto_upto]
      exact (hhead.append _).eq
  · rintro ⟨rfl, ha, hc, k, j, hk, hj, hbody⟩
    obtain ⟨came, hhead, rfl⟩ := hk.headed hh
    rw [← upto_upto, (hhead.append _).eq] at hbody
    obtain rfl := List.append_cancel_left (List.append_cancel_left hbody)
    exact ⟨rfl, ha, k, came, hk, hhead, rfl, .chunks hd hc j hj⟩

/-- A response without is returned up to the first piece, from the one with the end of the header
on, that ends with a blank line. If nothing has come with the header, nothing is returned, whatever
comes after. -/
theorem loadContent_chunked (hnet : Reached net url c)
    (hh : Headed (Conn.bytes c.pieces) head rest) (hd : lib.eLength head = none) :
    (∀ host body, loadContent lib net url = .ok (host, body) ↔
      host = url.1 ∧ Allowed lib head ∧ lib.eChunked head = true ∧
      ∃ k j, Until hasHeader [] c.pieces k ∧ Until atEnd (upto c.pieces k) (c.pieces.drop k) j ∧
        upto c.pieces (k + j) = head ++ (EOL ++ EOL ++ body)) ∧
    (∀ k, Until hasHeader [] c.pieces k → upto c.pieces k = head ++ (EOL ++ EOL) →
      Allowed lib head → lib.eChunked head = true →
      loadContent lib net url = .ok (url.1, [])) := by
  refine ⟨fun _ _ => loadContent_chunked_iff hnet hh hd, fun k hk halone ha hc => ?_⟩
  refine (loadContent_chunked_iff hnet hh hd).mpr ⟨rfl, ha, hc, k, 0, hk, ?_, ?_⟩
  · -- the loop does not read a piece
    refine .zero (atEnd_iff.mpr ?_)
    rw [halone]
    exact List.suffix_append _ _
  · rw [Nat.add_zero, halone, List.append_nil]

theorem loadContent_chunked_headFirst :
    loadContent (searches none) (site headFirst) home = .ok (text "localhost", []) := by
  have hh : Headed (Conn.bytes headFirst) chunked (text "2\r\nHi\r\n0\r\n\r\n") :=
    headed_of_find (by decide) (by decide)
  have hk : Until hasHeader [] headFirst 1 := ⟨by decide, by decide, by decide, by decide⟩
  have hnet : Reached (site headFirst) home ⟨headFirst, ()⟩ := ⟨(), [], rfl, rfl, rfl⟩
  have hd : (searches none).eLength chunked = none := rfl
  exact (loadContent_chunked hnet hh hd).2 1 hk (by decide) ⟨_, by decide, rfl⟩ rfl

end

end Crawl

end Synca
