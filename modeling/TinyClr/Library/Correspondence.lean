import Mathlib.Logic.Function.Basic

/-!
# Corresponding cells

Two memories that hold the same values at corresponding addresses.
-/

namespace TinyClr.Library

variable {α α' β : Type*} {R R' : α → α' → Prop} {m : α → β} {m' : α' → β}

/-- Corresponding cells hold the same value. -/
def Agrees (R : α → α' → Prop) (m : α → β) (m' : α' → β) : Prop := ∀ a a', R a a' → m a = m' a'

theorem Agrees.mono (h : Agrees R m m') (hsub : ∀ a a', R' a a' → R a a') : Agrees R' m m' :=
  fun a a' hR => h a a' (hsub a a' hR)

variable [DecidableEq α] [DecidableEq α'] {x : α} {x' : α'} {v : β}

/-- A value is written to a pair of cells, which may correspond only from then on. -/
theorem Agrees.update (h : Agrees R m m') (hunique : ∀ a a', R' a a' → (a = x ↔ a' = x'))
    (hold : ∀ a a', R' a a' → a ≠ x → R a a') :
    Agrees R' (Function.update m x v) (Function.update m' x' v) := by
  intro a a' hR
  by_cases ha : a = x
  · have ha' : a' = x' := (hunique a a' hR).mp ha
    rw [ha, ha', Function.update_self, Function.update_self]
  · have ha' : a' ≠ x' := fun heq => ha ((hunique a a' hR).mpr heq)
    rw [Function.update_of_ne ha, Function.update_of_ne ha', h a a' (hold a a' hR ha)]

end TinyClr.Library
