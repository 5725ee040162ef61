import Mathlib.Algebra.Ring.Nat
import Mathlib.Data.List.Basic

/-!
# Lists from indexed tables

A table whose entries give lists, each told its index: what the entries before an index give, what it
gives itself, and what those behind it give.
-/

namespace TinyClr.Library

variable {α β : Type*}

/-- What the entries of a table give, one after the other; the first has index `n`. -/
def indexed (f : Nat → α → List β) : List α → Nat → List β
  | [], _ => []
  | x :: xs, n => f n x ++ indexed f xs (n + 1)

variable (f : Nat → α → List β)

theorem indexed_append (xs ys : List α) (n : Nat) :
    indexed f (xs ++ ys) n = indexed f xs n ++ indexed f ys (n + xs.length) := by
  induction xs generalizing n with
  | nil => rfl
  | cons x xs ih =>
    rw [List.cons_append, indexed, indexed, ih, List.append_assoc, List.length_cons,
      Nat.add_assoc n 1, Nat.add_comm 1]

variable {l : List α} {i : Nat} {x : α}

theorem drop_eq_cons (h : l[i]? = some x) :
    l.drop i = x :: l.drop (i + 1) := by
  obtain ⟨hi, rfl⟩ := List.getElem?_eq_some_iff.mp h
  exact List.drop_eq_getElem_cons hi

theorem take_succ_eq (h : l[i]? = some x) :
    l.take (i + 1) = l.take i ++ [x] := by
  rw [List.take_add_one, h]
  rfl

theorem indexed_take_succ (h : l[i]? = some x) :
    indexed f (l.take (i + 1)) 0 = indexed f (l.take i) 0 ++ f i x := by
  obtain ⟨hi, -⟩ := List.getElem?_eq_some_iff.mp h
  rw [take_succ_eq h, indexed_append, List.length_take, Nat.min_eq_left (Nat.le_of_lt hi),
    Nat.zero_add]
  simp only [indexed, List.append_nil]

theorem indexed_split (h : l[i]? = some x) :
    indexed f l 0 = indexed f (l.take i) 0 ++ (f i x ++ indexed f (l.drop (i + 1)) (i + 1)) := by
  obtain ⟨hi, -⟩ := List.getElem?_eq_some_iff.mp h
  have hsplit : l = l.take (i + 1) ++ l.drop (i + 1) := (List.take_append_drop (i + 1) l).symm
  conv_lhs => rw [hsplit]
  rw [indexed_append, indexed_take_succ f h, List.append_assoc, List.length_take,
    Nat.min_eq_left hi, Nat.zero_add]

theorem exists_of_mem_indexed {f : Nat → α → List β} {n : Nat} {y : β}
    (h : y ∈ indexed f l n) : ∃ i x, l[i]? = some x ∧ y ∈ f (n + i) x := by
  induction l generalizing n with
  | nil => exact absurd h List.not_mem_nil
  | cons x xs ih =>
    rcases List.mem_append.mp h with h | h
    · exact ⟨0, x, rfl, h⟩
    · obtain ⟨i, x', hx', hy⟩ := ih h
      refine ⟨i + 1, x', hx', ?_⟩
      rwa [Nat.add_assoc, Nat.add_comm 1 i] at hy

/-- Entries that give no more than a bound each -/
theorem length_indexed_le (bound : α → Nat) (hbound : ∀ n x, (f n x).length ≤ bound x) (l : List α)
    (n : Nat) : (indexed f l n).length ≤ (l.map bound).sum := by
  induction l generalizing n with
  | nil => exact Nat.le_refl 0
  | cons x xs ih =>
    rw [indexed, List.length_append, List.map_cons, List.sum_cons]
    exact Nat.add_le_add (hbound n x) (ih (n + 1))

end TinyClr.Library
