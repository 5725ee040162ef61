import Mathlib.Logic.Function.Basic
import Mathlib.Order.Basic

/-!
# Sliding windows

A ring of cells that holds the last elements of a sequence: element `p` lies in the cell `p` modulo
the number of cells.  The window moves on by writing the next element over the oldest one, and back
by restoring that.
-/

namespace TinyClr.Library

variable {α : Type*} {size : Nat} {f : Nat → α} {cells : Nat → α} {p q : Nat}

/-- The cells hold the last `size` elements of the sequence `f` up to element `q`. -/
def Window (size : Nat) (f : Nat → α) (cells : Nat → α) (q : Nat) : Prop :=
  ∀ p, p ≤ q → q < p + size → cells (p % size) = f p

/-- Elements less than `size` apart lie in different cells. -/
theorem cell_ne (hpq : p < q) (hsize : q < p + size) : p % size ≠ q % size := by
  intro heq
  have hzero := Nat.sub_mod_eq_zero_of_mod_eq heq.symm
  rw [Nat.mod_eq_of_lt (by omega)] at hzero
  omega

namespace Window

/-- A new element takes the place of the oldest one. -/
theorem advance (h : Window size f cells q) :
    Window size f (Function.update cells ((q + 1) % size) (f (q + 1))) (q + 1) := by
  intro p hle hlt
  rcases Nat.lt_or_eq_of_le hle with hlt' | rfl
  · rw [Function.update_of_ne (cell_ne hlt' hlt)]
    exact h p (Nat.le_of_lt_succ hlt') (by omega)
  · exact Function.update_self ..

/-- The oldest element is put back in the place of the newest one. -/
theorem retreat (h : Window size f cells (q + 1)) (hsize : size ≤ q + 1) :
    Window size f (Function.update cells ((q + 1) % size) (f (q + 1 - size))) q := by
  intro p hle hlt
  by_cases hp : p = q + 1 - size
  · subst hp
    rw [← Nat.mod_eq_sub_mod hsize]
    exact Function.update_self ..
  · rw [Function.update_of_ne (cell_ne (Nat.lt_succ_of_le hle) (by omega))]
    exact h p (Nat.le_succ_of_le hle) (by omega)

end Window

end TinyClr.Library
