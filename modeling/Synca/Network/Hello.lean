import Synca.Network.Frames

/-!
# The client and the server of the examples

`client::Network::get` and the handler of `server::serve`, once the connection is there. A call of
`read` or `write` fails when the connection breaks, and `read` also when the other side has closed
the socket; the exception leaves the function, which closes the socket of its own side.
-/

namespace Synca

namespace Hello

open Transition Dialogue

/-- Where `client::Network::get` stands. -/
inductive Client where
  | writeSize (key : List Byte)
  | writeKey (key : List Byte)
  | readSize
  | readVal (n : ℕ)
  | returned (val : List Byte)
  /-- `std::length_error` was thrown. -/
  | thrown
  deriving DecidableEq, Repr

/-- Where the handler of `server::serve` stands. -/
inductive Server where
  | readSize
  | readStr (n : ℕ)
  | writeSize (str : List Byte)
  | writeStr (str : List Byte)
  | thrown
  deriving DecidableEq, Repr

variable (signed : Bool)

/-- The buffer `sz`, which has one byte, gives the size of the next buffer. -/
def alloc {σ : Type*} (sz : List Byte) (next : ℕ → σ) (thrown : σ) : σ :=
  match sz.head?.bind (toSize signed) with
  | some n => next n
  | none   => thrown

/-- `client::Network::get`. -/
def get : Client → Wish Byte Client
  | .writeSize key => .write [toChar key.length] (.writeKey key)
  | .writeKey key  => .write key .readSize
  | .readSize      => .read 1 fun sz => alloc signed sz .readVal .thrown
  | .readVal n     => .read n .returned
  | .returned _    => .stop
  | .thrown        => .stop

/-- The loop of the handler in `server::serve`. -/
def serve : Server → Wish Byte Server
  | .readSize      => .read 1 fun sz => alloc signed sz .readStr .thrown
  | .readStr n     => .read n fun str => .writeSize (str ++ world)
  | .writeSize str => .write [toChar str.length] (.writeStr str)
  | .writeStr str  => .write str .readSize
  | .thrown        => .stop

variable {signed} {n : ℕ} {i o : List Byte}

lemma alloc_some {σ : Type*} {b : Byte} {n : ℕ} (h : toSize signed b = some n) (next : ℕ → σ)
    (thrown : σ) : alloc signed [b] next thrown = next n := by
  simp [alloc, h]

lemma alloc_none {σ : Type*} {b : Byte} (h : toSize signed b = none) (next : ℕ → σ) (thrown : σ) :
    alloc signed [b] next thrown = thrown := by
  simp [alloc, h]

/-! ### What the client has read and written -/

/-- The trace of the client. -/
inductive Got (signed : Bool) (key : List Byte) : ℕ → List Byte → List Byte → Client → Prop where
  | writeSize : Got signed key 0 [] [] (.writeSize key)
  | writeKey : Got signed key 1 [] [toChar key.length] (.writeKey key)
  | readSize : Got signed key 2 [] (frame key) .readSize
  | readVal (m : Byte) (n : ℕ) (hm : toSize signed m = some n) :
      Got signed key 3 [m] (frame key) (.readVal n)
  | returned (m : Byte) (val : List Byte) (hm : toSize signed m = some val.length) :
      Got signed key 4 (m :: val) (frame key) (.returned val)
  | thrown (m : Byte) (hm : toSize signed m = none) : Got signed key 3 [m] (frame key) .thrown

lemma got_of_trace {key : List Byte} {u : Client}
    (h : Trace (get signed) (.writeSize key) n i o u) : Got signed key n i o u := by
  induction h with
  | refl => exact .writeSize
  | read h hw hx ih =>
    cases ih with
    | writeSize | writeKey | returned | thrown => cases hw
    | readSize =>
      obtain ⟨rfl, rfl⟩ := Wish.read.inj hw
      obtain ⟨m, rfl⟩ := List.length_eq_one_iff.mp hx
      cases hm : toSize signed m with
      | some n =>
        beta_reduce
        rw [alloc_some hm]
        exact .readVal m n hm
      | none =>
        beta_reduce
        rw [alloc_none hm]
        exact .thrown m hm
    | readVal m n hm =>
      obtain ⟨rfl, rfl⟩ := Wish.read.inj hw
      exact .returned m _ (hm.trans (congrArg some hx.symm))
  | write h hw ih =>
    cases ih with
    | readSize | readVal | returned | thrown => cases hw
    | writeSize =>
      obtain ⟨rfl, rfl⟩ := Wish.write.inj hw
      exact .writeKey
    | writeKey =>
      obtain ⟨rfl, rfl⟩ := Wish.write.inj hw
      exact .readSize

/-! ### What the server has read and written -/

/-- The requests that were read: a byte and a string of the size it stands for. -/
def asked (rs : List (Byte × List Byte)) : List Byte := rs.flatMap fun r => r.1 :: r.2

/-- What the server answers. -/
def answered (rs : List (Byte × List Byte)) : List Byte := rs.flatMap fun r => frame (r.2 ++ world)

def Sized (signed : Bool) (rs : List (Byte × List Byte)) : Prop :=
  ∀ r ∈ rs, toSize signed r.1 = some r.2.length

/-- The trace of the server after the requests `rs`. -/
inductive Served (signed : Bool) (rs : List (Byte × List Byte)) :
    ℕ → List Byte → List Byte → Server → Prop where
  | readSize : Served signed rs (4 * rs.length) (asked rs) (answered rs) .readSize
  | readStr (b : Byte) (n : ℕ) (hb : toSize signed b = some n) :
      Served signed rs (4 * rs.length + 1) (asked rs ++ [b]) (answered rs) (.readStr n)
  | writeSize (b : Byte) (str : List Byte) (hb : toSize signed b = some str.length) :
      Served signed rs (4 * rs.length + 2) (asked rs ++ b :: str) (answered rs)
        (.writeSize (str ++ world))
  | writeStr (b : Byte) (str : List Byte) (hb : toSize signed b = some str.length) :
      Served signed rs (4 * rs.length + 3) (asked rs ++ b :: str)
        (answered rs ++ [toChar (str ++ world).length]) (.writeStr (str ++ world))
  | thrown (b : Byte) (hb : toSize signed b = none) :
      Served signed rs (4 * rs.length + 1) (asked rs ++ [b]) (answered rs) .thrown

lemma asked_concat (rs : List (Byte × List Byte)) (b : Byte) (str : List Byte) :
    asked (rs ++ [(b, str)]) = asked rs ++ b :: str := by
  simp [asked]

lemma answered_concat (rs : List (Byte × List Byte)) (b : Byte) (str : List Byte) :
    answered (rs ++ [(b, str)]) = answered rs ++ frame (str ++ world) := by
  simp [answered]

lemma served_of_trace {u : Server} (h : Trace (serve signed) .readSize n i o u) :
    ∃ rs, Sized signed rs ∧ Served signed rs n i o u := by
  induction h with
  | refl => exact ⟨[], by simp [Sized], .readSize⟩
  | read h hw hx ih =>
    obtain ⟨rs, hrs, hs⟩ := ih
    cases hs with
    | writeSize | writeStr | thrown => cases hw
    | readSize =>
      obtain ⟨rfl, rfl⟩ := Wish.read.inj hw
      obtain ⟨b, rfl⟩ := List.length_eq_one_iff.mp hx
      cases hb : toSize signed b with
      | some n =>
        beta_reduce
        rw [alloc_some hb]
        exact ⟨rs, hrs, .readStr b n hb⟩
      | none =>
        beta_reduce
        rw [alloc_none hb]
        exact ⟨rs, hrs, .thrown b hb⟩
    | readStr b n hb =>
      obtain ⟨rfl, rfl⟩ := Wish.read.inj hw
      rw [List.append_assoc]
      exact ⟨rs, hrs, .writeSize b _ (hb.trans (congrArg some hx.symm))⟩
  | write h hw ih =>
    obtain ⟨rs, hrs, hs⟩ := ih
    cases hs with
    | readSize | readStr | thrown => cases hw
    | writeSize b str hb =>
      obtain ⟨rfl, rfl⟩ := Wish.write.inj hw
      exact ⟨rs, hrs, .writeStr b str hb⟩
    | writeStr b str hb =>
      obtain ⟨rfl, rfl⟩ := Wish.write.inj hw
      have hserved : Served signed (rs ++ [(b, str)]) _ _ _ _ := .readSize
      rw [asked_concat, answered_concat, List.length_append] at hserved
      refine ⟨rs ++ [(b, str)], ?_, ?_⟩
      · intro r hr
        rcases List.mem_append.mp hr with hr | hr
        · exact hrs r hr
        · rw [List.mem_singleton.mp hr]
          exact hb
      · rw [List.append_assoc]
        exact hserved

end Hello

end Synca
