import Mathlib.Tactic.Lemma
import Mathlib.Data.List.Nodup

/-!
# Objects with counted owners

A counted object lives as long as some owner holds a reference, and whoever drops the last one
disposes of it. The program keeps a number; the model keeps the list of the owners. `Shared own l`
says that the list is right: each owner, given by the predicate `own`, is in it once.

An owner may come, go, or pass its reference on; the lemmas below are the laws of these. The list
then answers the two questions that a program may put to the number: whether it is zero, and whether
it is one.
-/

namespace Transition

variable {P : Type*}

/-- The references are those of the owners. -/
structure Shared (own : P → Prop) (l : List P) : Prop where
  nodup : l.Nodup
  mem : ∀ p, p ∈ l ↔ own p

namespace Shared

variable {own own' : P → Prop} {l : List P} {p q : P}

lemma congr (h : Shared own l) (ho : ∀ p, own' p ↔ own p) : Shared own' l :=
  ⟨h.nodup, fun p => (h.mem p).trans (ho p).symm⟩

lemma nil (h : ∀ p, ¬ own p) : Shared own [] := ⟨List.nodup_nil, fun p => by simp [h p]⟩

lemma singleton (h : ∀ q, own q ↔ q = p) : Shared own [p] :=
  ⟨List.nodup_singleton p, fun q => by simp [h q]⟩

/-- The count is zero. -/
lemma eq_nil_iff (h : Shared own l) : l = [] ↔ ∀ p, ¬ own p := by
  rw [List.eq_nil_iff_forall_not_mem]
  exact forall_congr' fun p => not_congr (h.mem p)

/-- The count is one, as the owner that asks may see. -/
lemma unique (h : Shared own l) (hl : l.length = 1) (hp : own p) (hq : own q) : q = p := by
  obtain ⟨r, rfl⟩ := List.length_eq_one_iff.mp hl
  rw [List.mem_singleton.mp ((h.mem q).mpr hq), List.mem_singleton.mp ((h.mem p).mpr hp)]

lemma eq_singleton (h : Shared own l) (hl : l.length = 1) (hp : own p) : l = [p] := by
  obtain ⟨r, rfl⟩ := List.length_eq_one_iff.mp hl
  rw [List.mem_singleton.mp ((h.mem p).mpr hp)]

/-- A new owner copies the reference. -/
lemma hold (h : Shared own l) (hp : ¬ own p) (ho : ∀ q, own' q ↔ own q ∨ q = p) :
    Shared own' (l ++ [p]) where
  nodup := by
    rw [List.nodup_append]
    refine ⟨h.nodup, List.nodup_singleton p, ?_⟩
    rintro q hq r hr rfl
    rw [List.mem_singleton.mp hr, h.mem] at hq
    exact hp hq
  mem q := by simp [ho, h.mem]

variable [DecidableEq P]

/-- An owner drops its reference. -/
lemma release (h : Shared own l) (ho : ∀ q, own' q ↔ own q ∧ q ≠ p) :
    Shared own' (l.erase p) where
  nodup := h.nodup.erase p
  mem q := by rw [h.nodup.mem_erase_iff, ho, h.mem, and_comm]

/-- An owner passes its reference on. -/
lemma pass (h : Shared own l) (hq : ¬ own q) (ho : ∀ r, own' r ↔ (own r ∧ r ≠ p) ∨ r = q) :
    Shared own' (l.erase p ++ [q]) := by
  have hr : Shared (fun r => own r ∧ r ≠ p) (l.erase p) := h.release fun _ => Iff.rfl
  exact hr.hold (fun hr => hq hr.1) ho

end Shared

end Transition
