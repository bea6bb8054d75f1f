import Mathlib.Data.List.Basic
import Mathlib.Tactic.Lemma
import Mathlib.Tactic.SplitIfs

/-!
# Allocations and deletions

The history of the objects that one owner allocates and deletes, and of the moment at which the
owner is counted as gone. Deletions follow the discipline of a stack if each takes the object
allocated last among those that are left.
-/

namespace Synca

namespace Collector

inductive HeapEvent (α : Type*) where
  | alloc (x : α)
  /-- The owner is counted as gone. -/
  | count
  | free (x : α)
  deriving DecidableEq, Repr

namespace HeapEvent

variable {α : Type*}

def alloc? : HeapEvent α → Option α
  | .alloc x => some x
  | _        => none

def free? : HeapEvent α → Option α
  | .free x => some x
  | _       => none

end HeapEvent

variable {α : Type*} {x : α} {l l' old ins : List α} {h h' tail : List (HeapEvent α)} {n : ℕ}

def allocs (h : List (HeapEvent α)) : List α := h.filterMap HeapEvent.alloc?

def frees (h : List (HeapEvent α)) : List α := h.filterMap HeapEvent.free?

/-- What is left after a history that begins with the objects `l`, the last one first, if each
deletion takes the first. -/
def left [DecidableEq α] : List α → List (HeapEvent α) → Option (List α)
  | l,      []            => some l
  | l,      .alloc x :: h => left (x :: l) h
  | l,      .count :: h   => left l h
  | [],     .free _ :: _  => none
  | y :: l, .free x :: h  => if x = y then left l h else none

attribute [grind =] HeapEvent.alloc? HeapEvent.free? left

/-- Every object is deleted, the last one first. -/
def Emptied [DecidableEq α] (h : List (HeapEvent α)) : Prop := left [] h = some []

/-- Every object is deleted, the last one first, and the owner is counted after that. -/
def Collected [DecidableEq α] (h : List (HeapEvent α)) : Prop :=
  ∃ pre, h = pre ++ [.count] ∧ Emptied pre

/-- Nothing is allocated once the owner is counted. -/
def ClosedByCount (h : List (HeapEvent α)) : Prop :=
  ∀ pre tail, h = pre ++ .count :: tail → allocs tail = []

/-- The owner allocates the objects `old` and is counted; a loop then deletes them from the end on,
has still the first `n` to delete, and meanwhile the objects `ins` are allocated. -/
structure Swept (old : List α) (n : ℕ) (ins : List α) (h tail : List (HeapEvent α)) : Prop where
  eq : h = old.map .alloc ++ .count :: tail
  freed : frees tail = (old.drop n).reverse
  added : allocs tail = ins
  once : HeapEvent.count ∉ tail

@[simp] lemma allocs_append : allocs (h ++ h') = allocs h ++ allocs h' :=
  List.filterMap_append

@[simp] lemma frees_append : frees (h ++ h') = frees h ++ frees h' :=
  List.filterMap_append

@[simp] lemma allocs_cons_alloc : allocs (.alloc x :: h) = x :: allocs h := rfl

@[simp] lemma allocs_cons_count : allocs (.count :: h) = allocs h := rfl

@[simp] lemma allocs_cons_free : allocs (.free x :: h) = allocs h := rfl

@[simp] lemma frees_cons_alloc : frees (.alloc x :: h) = frees h := rfl

@[simp] lemma frees_cons_count : frees (.count :: h) = frees h := rfl

@[simp] lemma frees_cons_free : frees (.free x :: h) = x :: frees h := rfl

@[simp] lemma allocs_nil : allocs ([] : List (HeapEvent α)) = [] := rfl

@[simp] lemma frees_nil : frees ([] : List (HeapEvent α)) = [] := rfl

@[simp] lemma allocs_map_alloc : allocs (l.map .alloc) = l := by
  induction l with
  | nil => rfl
  | cons x l ih => simp [ih]

@[simp] lemma frees_map_alloc : frees (l.map .alloc) = [] := by
  induction l with
  | nil => rfl
  | cons x l ih => simp [ih]

lemma mem_allocs : x ∈ allocs h ↔ .alloc x ∈ h := by
  induction h with
  | nil => simp
  | cons e h ih => cases e <;> simp [ih]

lemma mem_frees : x ∈ frees h ↔ .free x ∈ h := by
  induction h with
  | nil => simp
  | cons e h ih => cases e <;> simp [ih]

/-- A history without allocations, in which the owner is not counted, is made of deletions. -/
lemma eq_map_free (ha : allocs h = []) (hc : HeapEvent.count ∉ h) : h = (frees h).map .free := by
  induction h with
  | nil => rfl
  | cons e h ih =>
    have hc' : HeapEvent.count ∉ h := fun hm => hc (List.mem_cons_of_mem _ hm)
    cases e with
    | alloc x => simp at ha
    | count => exact absurd List.mem_cons_self hc
    | free x => simpa using ih ha hc'

section Left

variable [DecidableEq α]

lemma left_append : left l (h ++ h') = (left l h).bind fun l' => left l' h' := by
  induction h generalizing l with
  | nil => rfl
  | cons e h ih =>
    cases e with
    | alloc x => exact ih
    | count => exact ih
    | free x =>
      cases l with
      | nil => rfl
      | cons y l =>
        simp only [List.cons_append, left]
        split_ifs
        · exact ih
        · rfl

lemma left_map_alloc : left l (old.map .alloc) = some (old.reverse ++ l) := by
  induction old generalizing l with
  | nil => rfl
  | cons x old ih => simp [left, ih]

lemma left_map_free (old l : List α) : left (old ++ l) (old.map .free) = some l := by
  induction old with
  | nil => cases l <;> rfl
  | cons x old ih => simp [left, ih]

/-- What is left was allocated and not deleted. -/
lemma length_left (hl : left l h = some l') :
    l'.length + (frees h).length = l.length + (allocs h).length := by
  induction h generalizing l with
  | nil =>
    obtain rfl : l = l' := by simpa [left] using hl
    simp
  | cons e h ih =>
    cases e with
    | alloc x =>
      have := ih hl
      simp only [List.length_cons, allocs_cons_alloc, frees_cons_alloc] at this ⊢
      omega
    | count => exact ih hl
    | free x =>
      cases l with
      | nil => cases hl
      | cons y l =>
        simp only [left, Option.ite_none_right_eq_some] at hl
        have := ih hl.2
        simp only [List.length_cons, allocs_cons_free, frees_cons_free] at this ⊢
        omega

end Left

namespace Swept

/-- An object is deleted. -/
lemma free (hS : Swept old (n + 1) ins h tail) (hx : old[n]? = some x) :
    Swept old n ins (h ++ [.free x]) (tail ++ [.free x]) where
  eq := by rw [hS.eq]; simp
  freed := by
    obtain ⟨hn, rfl⟩ := List.getElem?_eq_some_iff.mp hx
    rw [frees_append, hS.freed, List.drop_eq_getElem_cons hn, List.reverse_cons]
    rfl
  added := by rw [allocs_append, hS.added]; simp
  once := by simpa using hS.once

/-- An object is allocated meanwhile. -/
lemma alloc (hS : Swept old n ins h tail) (x : α) :
    Swept old n (ins ++ [x]) (h ++ [.alloc x]) (tail ++ [.alloc x]) where
  eq := by rw [hS.eq]; simp
  freed := by rw [frees_append, hS.freed]; simp
  added := by rw [allocs_append, hS.added]; simp
  once := by simpa using hS.once

/-- The owner is counted. -/
lemma init (old : List α) :
    Swept old old.length [] (old.map .alloc ++ [.count]) [] := ⟨rfl, by simp, rfl, by simp⟩

/-- The owner is counted once. -/
lemma split (hS : Swept old n ins h tail) {pre post : List (HeapEvent α)}
    (h' : h = pre ++ .count :: post) : pre = old.map .alloc ∧ post = tail := by
  have hold : HeapEvent.count ∉ old.map .alloc := by simp
  have heq : old.map .alloc ++ .count :: tail = pre ++ .count :: post := hS.eq.symm.trans h'
  obtain ⟨hpre, -, hpost⟩ := (List.append_cons_inj_of_notMem hold hS.once).mp heq
  exact ⟨hpre.symm, hpost.symm⟩

lemma allocs_eq (hS : Swept old n ins h tail) : Collector.allocs h = old ++ ins := by
  rw [hS.eq]
  simp [hS.added]

lemma frees_eq (hS : Swept old n ins h tail) : Collector.frees h = (old.drop n).reverse := by
  rw [hS.eq]
  simp [hS.freed]

lemma closedByCount_iff (hS : Swept old n ins h tail) : ClosedByCount h ↔ ins = [] := by
  constructor
  · intro hc
    exact hS.added.symm.trans (hc _ _ hS.eq)
  · rintro rfl pre post h'
    rw [(hS.split h').2, hS.added]

variable [DecidableEq α]

/-- The loop has deleted everything, the last one first, exactly if nothing was allocated
meanwhile. -/
lemma emptied_iff (hS : Swept old 0 ins h tail) : Emptied h ↔ ClosedByCount h := by
  rw [hS.closedByCount_iff]
  constructor
  · intro he
    have hlen := length_left he
    rw [hS.allocs_eq, hS.frees_eq] at hlen
    simpa using hlen
  · rintro rfl
    have htail : tail = old.reverse.map .free := by
      rw [eq_map_free hS.added hS.once, hS.freed]
      simp
    rw [Emptied, hS.eq, left_append, left_map_alloc, htail]
    simpa [left] using left_map_free old.reverse []

/-- All is deleted before the owner is counted exactly if nothing is allocated. -/
lemma collected_iff (hS : Swept old n ins h tail) : Collected h ↔ Collector.allocs h = [] := by
  rw [hS.allocs_eq]
  constructor
  · rintro ⟨pre, hpre, he⟩
    obtain ⟨rfl, htail⟩ := hS.split hpre
    have hold : old = [] := by simpa [Emptied, left_map_alloc] using he
    have hins : ins = [] := by rw [← hS.added, ← htail]; rfl
    rw [hold, hins, List.append_nil]
  · intro hnil
    obtain ⟨rfl, rfl⟩ := List.append_eq_nil_iff.mp hnil
    refine ⟨[], ?_, rfl⟩
    rw [hS.eq, eq_map_free hS.added hS.once, hS.freed]
    simp

end Swept

end Collector

end Synca
