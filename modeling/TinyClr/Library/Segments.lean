import Mathlib.Algebra.Ring.Nat
import Mathlib.Data.List.Basic

/-!
# Numbers counted through segments

The segments of a list follow one another, and each has its length.  `seek` looks for the segment of
a number from the front, and counts what it passes.  It takes the first number behind a segment for
one of that segment.
-/

namespace TinyClr.Library

variable {α : Type*} {len : α → Nat} {l l' ps : List α} {p : α} {passed passed' n m : Nat}

def seek (len : α → Nat) : List α → Nat → Nat → Option (List α × Nat)
  | [], _, _ => none
  | p :: ps, passed, n =>
      if n ≤ passed + len p then some (p :: ps, passed) else seek len ps (passed + len p) n

theorem seek_of_le (h : n ≤ passed + len p) :
    seek len (p :: ps) passed n = some (p :: ps, passed) := if_pos h

theorem seek_of_lt (h : passed + len p < n) :
    seek len (p :: ps) passed n = seek len ps (passed + len p) n := if_neg (Nat.not_le.mpr h)

/-- Where a number has been found, the search for a greater one may go on. -/
theorem seek_resume (h : seek len l passed n = some (l', passed')) (hle : n ≤ m) :
    seek len l passed m = seek len l' passed' m := by
  induction l generalizing passed with
  | nil => cases h
  | cons p ps ih =>
    by_cases hn : n ≤ passed + len p
    · rw [seek_of_le hn] at h
      obtain ⟨rfl, rfl⟩ := Prod.mk.inj (Option.some.inj h)
      rfl
    · rw [seek_of_lt (Nat.not_le.mp hn)] at h
      rw [seek_of_lt (Nat.lt_of_lt_of_le (Nat.not_le.mp hn) hle)]
      exact ih h

/-- The segment that is found: the number is behind the segments before it. -/
theorem seek_eq_some_iff :
    seek len l passed n = some (p :: ps, passed') ↔
      ∃ pre, l = pre ++ p :: ps ∧ passed' = passed + (pre.map len).sum ∧
        (pre = [] ∨ passed' < n) ∧ n ≤ passed' + len p := by
  induction l generalizing passed with
  | nil => simp [seek]
  | cons q qs ih =>
    by_cases hn : n ≤ passed + len q
    · rw [seek_of_le hn]
      constructor
      · intro h
        obtain ⟨⟨rfl, rfl⟩, rfl⟩ := by simpa using h
        exact ⟨[], rfl, rfl, Or.inl rfl, hn⟩
      · rintro ⟨_ | ⟨q', pre⟩, hl, rfl, hpre, -⟩
        · simp_all
        · simp only [List.cons_append, List.cons.injEq] at hl
          obtain ⟨rfl, -⟩ := hl
          rcases hpre with hpre | hpre
          · cases hpre
          · rw [List.map_cons, List.sum_cons] at hpre
            omega
    · rw [seek_of_lt (Nat.not_le.mp hn), ih]
      constructor
      · rintro ⟨pre, rfl, rfl, hpre, hle⟩
        refine ⟨q :: pre, rfl, by rw [List.map_cons, List.sum_cons, Nat.add_assoc], Or.inr ?_, hle⟩
        rcases hpre with rfl | hpre
        · rw [List.map_nil, List.sum_nil]
          omega
        · exact hpre
      · rintro ⟨_ | ⟨q', pre⟩, hl, rfl, hpre, hle⟩
        · simp only [List.nil_append, List.cons.injEq] at hl
          obtain ⟨rfl, -⟩ := hl
          exact absurd hle hn
        · simp only [List.cons_append, List.cons.injEq] at hl
          obtain ⟨rfl, rfl⟩ := hl
          rw [List.map_cons, List.sum_cons, ← Nat.add_assoc] at hpre hle ⊢
          exact ⟨pre, rfl, rfl, Or.inr (hpre.resolve_left (List.cons_ne_nil _ _)), hle⟩

end TinyClr.Library
