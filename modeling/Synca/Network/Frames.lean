import Mathlib.Data.List.Flatten
import Mathlib.Data.Nat.Notation
import Synca.Transition.Dialogue

/-!
# The protocol of the two examples

A request is a byte with the size of a string and then the string, and so is the answer. The size is
stored in a `char` and made a `size_t` again when it is read: sizes are taken modulo 256, and where
`char` is signed those from 128 are negative, and `Buffer(size_t(sz[0]), 0)` throws
`std::length_error`.
-/

namespace Synca

namespace Hello

abbrev Byte := UInt8

/-- `" world!"`. -/
def world : List Byte := " world!".toList.map fun c => .ofNat c.toNat

/-- `char(n)`. -/
def toChar (n : ℕ) : Byte := .ofNat n

/-- The size of `Buffer(size_t(sz[0]), 0)`, unless it throws. -/
def toSize (signed : Bool) (b : Byte) : Option ℕ :=
  if signed = true ∧ 128 ≤ b.toNat then none else some b.toNat

/-- The longest key whose answer has a size that a `char` can hold. -/
def limit (signed : Bool) : ℕ := if signed then 120 else 248

lemma length_world : world.length = 7 := rfl

lemma toNat_toChar (n : ℕ) : (toChar n).toNat = n % 256 := UInt8.toNat_ofNat'

lemma toSize_le {signed : Bool} {b : Byte} {n : ℕ} (h : toSize signed b = some n) :
    n = b.toNat ∧ n ≤ 255 ∧ (signed = true → n < 128) := by
  have hb : b.toNat < 256 := b.toNat_lt
  simp only [toSize, Option.ite_none_left_eq_some, Option.some.injEq, not_and, Nat.not_le] at h
  obtain ⟨hs, rfl⟩ := h
  exact ⟨rfl, by omega, hs⟩

lemma toSize_toChar {signed : Bool} {n : ℕ} :
    toSize signed (toChar n) = if signed = true ∧ 128 ≤ n % 256 then none else some (n % 256) := by
  rw [toSize, toNat_toChar]

/-- A size that fits is read as it was written. -/
lemma toSize_of_fits {signed : Bool} {n : ℕ} (h : n ≤ limit signed + 7) :
    toSize signed (toChar n) = some n := by
  rw [toSize_toChar]
  cases signed <;> simp [limit] at h ⊢ <;> omega

/-! ### Frames -/

/-- A string as it is sent: its size, and then the string. -/
def frame (str : List Byte) : List Byte := toChar str.length :: str

/-- A frame and what follows it, unless there is none. -/
def unframe (signed : Bool) : List Byte → Option (List Byte × List Byte)
  | []      => none
  | b :: xs => (toSize signed b).bind fun n =>
    if n ≤ xs.length then some (xs.take n, xs.drop n) else none

/-- The strings of a stream that consists of frames. -/
def strings (signed : Bool) : ℕ → List Byte → Option (List (List Byte))
  | _, []          => some []
  | 0, _           => none
  | n + 1, b :: xs => (unframe signed (b :: xs)).bind fun r =>
    (strings signed n r.2).map (r.1 :: ·)

lemma unframe_frame {signed : Bool} {str : List Byte} (h : str.length ≤ limit signed + 7)
    (xs : List Byte) : unframe signed (frame str ++ xs) = some (str, xs) := by
  simp [frame, unframe, toSize_of_fits h]

/-- What was framed is read back. -/
theorem strings_frames {signed : Bool} {strs : List (List Byte)}
    (h : ∀ str ∈ strs, str.length ≤ limit signed + 7) :
    strings signed strs.length (strs.flatMap frame) = some strs := by
  induction strs with
  | nil => rfl
  | cons str strs ih =>
    have hun := unframe_frame (h str List.mem_cons_self) (strs.flatMap frame)
    have hrest := ih fun s hs => h s (List.mem_cons_of_mem _ hs)
    rw [List.flatMap_cons, List.length_cons]
    show (unframe signed (frame str ++ strs.flatMap frame)).bind _ = _
    rw [hun]
    show (strings signed strs.length (strs.flatMap frame)).map _ = _
    rw [hrest]
    rfl

end Hello

end Synca
