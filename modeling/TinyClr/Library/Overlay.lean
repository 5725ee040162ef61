import Mathlib.Init

/-!
# Overlays

A part of a map from addresses that is replaced by a buffer.
-/

namespace TinyClr.Library

variable {α : Type*} {f g : Nat → α} {start size a : Nat}

/-- The addresses from `start` on take the elements of `g`, `size` of them. -/
def overlay (f : Nat → α) (start size : Nat) (g : Nat → α) : Nat → α :=
  fun a => if start ≤ a ∧ a < start + size then g (a - start) else f a

theorem overlay_inside (hlow : start ≤ a) (hhigh : a < start + size) :
    overlay f start size g a = g (a - start) := if_pos ⟨hlow, hhigh⟩

theorem overlay_outside (h : a < start ∨ start + size ≤ a) :
    overlay f start size g a = f a := if_neg (by omega)

/-- A buffer that follows another continues it. -/
theorem overlay_overlay (f : Nat → α) (start m n : Nat) (g : Nat → α) :
    overlay (overlay f start m g) (start + m) n (fun i => g (m + i)) =
      overlay f start (m + n) g := by
  funext a
  rcases Nat.lt_or_ge a (start + m) with hfirst | hfirst
  · rw [overlay_outside (Or.inl hfirst)]
    unfold overlay
    congr 1
    exact propext ⟨fun h => ⟨h.1, by omega⟩, fun h => ⟨h.1, hfirst⟩⟩
  · rcases Nat.lt_or_ge a (start + m + n) with hsecond | hsecond
    · rw [overlay_inside hfirst hsecond, overlay_inside (by omega) (by omega)]
      congr 1
      omega
    · rw [overlay_outside (Or.inr hsecond), overlay_outside (Or.inr hfirst),
        overlay_outside (Or.inr (by omega))]

end TinyClr.Library
