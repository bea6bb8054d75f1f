import Mathlib.Logic.Function.Basic
import Mathlib.Data.List.Basic

/-!
# Intrusive singly linked lists

The nodes of an intrusive list live wherever their owners put them; the list is a root and the
`next` field of each node. `Linked next r xs` says that following `next` from `r` visits exactly the
nodes `xs`, in this order, and ends. Only the `next` fields of the nodes on the list matter, so
writes to other nodes leave it as it is.
-/

namespace Transition

variable {ι : Type*}

def Linked (next : ι → Option ι) : Option ι → List ι → Prop
  | r, []      => r = none
  | r, x :: xs => r = some x ∧ Linked next (next x) xs

namespace Linked

variable {next next' : ι → Option ι} {r : Option ι} {x : ι} {xs ys : List ι}

@[simp] lemma none_iff : Linked next none xs ↔ xs = [] := by
  cases xs <;> simp [Linked]

lemma some_iff : Linked next (some x) xs ↔ ∃ ys, xs = x :: ys ∧ Linked next (next x) ys := by
  cases xs with
  | nil => simp [Linked]
  | cons y ys =>
    constructor
    · rintro ⟨hy, h⟩
      obtain rfl : x = y := by simpa using hy
      exact ⟨ys, rfl, h⟩
    · rintro ⟨zs, hz, h⟩
      obtain ⟨rfl, rfl⟩ : y = x ∧ ys = zs := by simpa using hz
      exact ⟨rfl, h⟩

/-- A root determines the nodes on its list. -/
lemma unique (h : Linked next r xs) (h' : Linked next r ys) : xs = ys := by
  induction xs generalizing r ys with
  | nil =>
    cases h
    exact (none_iff.mp h').symm
  | cons x xs ih =>
    obtain ⟨rfl, h⟩ := h
    obtain ⟨zs, rfl, hz⟩ := some_iff.mp h'
    rw [ih h hz]

lemma congr (h : Linked next r xs) (hn : ∀ x ∈ xs, next' x = next x) : Linked next' r xs := by
  induction xs generalizing r with
  | nil => exact h
  | cons x xs ih =>
    refine ⟨h.1, ?_⟩
    rw [hn x List.mem_cons_self]
    exact ih h.2 fun y hy => hn y (List.mem_cons_of_mem _ hy)

/-- A list without repetitions: no node is met twice on the way to the end. -/
lemma nodup (h : Linked next r xs) : xs.Nodup := by
  -- a node met twice would make a proper tail of the list equal to the list
  induction xs generalizing r with
  | nil => exact List.nodup_nil
  | cons x xs ih =>
    refine List.nodup_cons.mpr ⟨fun hx => ?_, ih h.2⟩
    obtain ⟨as, bs, rfl⟩ := List.append_of_mem hx
    have htail : Linked next (some x) (x :: bs) := by
      have key : ∀ (as : List ι) (r : Option ι), Linked next r (as ++ x :: bs) →
          Linked next (some x) (x :: bs) := by
        intro as
        induction as with
        | nil =>
          rintro r ⟨rfl, hb⟩
          exact ⟨rfl, hb⟩
        | cons a as iha => exact fun r hr => iha _ hr.2
      exact key as _ h.2
    have hall : Linked next (some x) (x :: (as ++ x :: bs)) := ⟨rfl, h.2⟩
    have hlen := congrArg List.length (hall.unique htail)
    simp only [List.length_cons, List.length_append] at hlen
    omega

variable [DecidableEq ι]

/-- A node outside the list may be written. -/
lemma update (h : Linked next r xs) (hx : x ∉ xs) (v : Option ι) :
    Linked (Function.update next x v) r xs := by
  apply h.congr
  intro y hy
  rw [Function.update_of_ne]
  rintro rfl
  exact hx hy

/-- Pushing a node in front. -/
lemma push (h : Linked next r xs) (hx : x ∉ xs) :
    Linked (Function.update next x r) (some x) (x :: xs) := by
  refine ⟨rfl, ?_⟩
  rw [Function.update_self]
  exact h.update hx r

end Linked

end Transition
