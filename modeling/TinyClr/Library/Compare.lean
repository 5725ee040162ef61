import Mathlib.Tactic.Common

/-!
# C-style comparison callbacks

A comparison callback returns a negative, zero or positive integer.  `TotalCompare` says that it
is the three-way comparison of a total preorder; the lemmas are the order facts searches and
sorted sequences rest on.
-/

namespace TinyClr.Library

variable {α : Type*}

/-- `cmp x y` is negative, zero or positive as `x` is below, level with or above `y` in one
    total preorder. -/
structure TotalCompare (cmp : α → α → Int) : Prop where
  swap : ∀ x y, cmp x y < 0 ↔ 0 < cmp y x
  le_trans : ∀ x y z, cmp x y ≤ 0 → cmp y z ≤ 0 → cmp x z ≤ 0

namespace TotalCompare

variable {cmp : α → α → Int} (hc : TotalCompare cmp)

include hc

variable {x y : α}

theorem eq_comm (h : cmp x y = 0) : cmp y x = 0 := by
  have h₁ := hc.swap x y
  have h₂ := hc.swap y x
  omega

variable {z : α}

theorem lt_of_lt_of_le (hxy : cmp x y < 0) (hyz : cmp y z ≤ 0) : cmp x z < 0 := by
  have hle := hc.le_trans x y z (by omega) hyz
  by_contra hnot
  have hzx : cmp z x ≤ 0 := by
    have hswap := hc.swap x z
    omega
  have hyx := hc.le_trans y z x hyz hzx
  have hswap := hc.swap x y
  omega

theorem lt_of_le_of_lt (hxy : cmp x y ≤ 0) (hyz : cmp y z < 0) : cmp x z < 0 := by
  have hle := hc.le_trans x y z hxy (by omega)
  by_contra hnot
  have hzx : cmp z x ≤ 0 := by
    have hswap := hc.swap x z
    omega
  have hzy := hc.le_trans z x y hzx hxy
  have hswap := hc.swap y z
  omega

theorem lt_trans (hxy : cmp x y < 0) (hyz : cmp y z < 0) : cmp x z < 0 :=
  hc.lt_of_lt_of_le hxy (by omega)

end TotalCompare

/-- Strictly ascending for `cmp`: ordered and free of level elements. -/
def Ascending (cmp : α → α → Int) (xs : List α) : Prop :=
  xs.Pairwise fun x y => cmp x y < 0

namespace Ascending

variable {cmp : α → α → Int}

variable {xs ys : List α}

theorem split {a : α} :
    Ascending cmp (xs ++ a :: ys) ↔
      Ascending cmp xs ∧ Ascending cmp ys ∧ (∀ x ∈ xs, cmp x a < 0) ∧ (∀ y ∈ ys, cmp a y < 0) ∧
        ∀ x ∈ xs, ∀ y ∈ ys, cmp x y < 0 := by
  simp only [Ascending, List.pairwise_append, List.pairwise_cons, List.mem_cons]
  constructor
  · rintro ⟨hxs, ⟨ha, hys⟩, hcross⟩
    exact ⟨hxs, hys, fun x hx => hcross x hx a (Or.inl rfl), ha,
      fun x hx y hy => hcross x hx y (Or.inr hy)⟩
  · rintro ⟨hxs, hys, hxa, hay, hcross⟩
    refine ⟨hxs, ⟨hay, hys⟩, fun x hx y hy => ?_⟩
    rcases hy with rfl | hy
    · exact hxa x hx
    · exact hcross x hx y hy

/-- Placing `d` between the elements below it and those above it keeps the sequence ascending. -/
theorem place (hc : TotalCompare cmp) {d : α} (h : Ascending cmp (xs ++ ys))
    (hxs : ∀ x ∈ xs, cmp x d < 0) (hys : ∀ y ∈ ys, 0 < cmp y d) :
    Ascending cmp (xs ++ d :: ys) := by
  obtain ⟨hx, hy, hcross⟩ := List.pairwise_append.mp h
  exact split.mpr ⟨hx, hy, hxs, fun y hmem => (hc.swap d y).mpr (hys y hmem), hcross⟩

/-- Dropping one element keeps the sequence ascending. -/
theorem drop {a : α} (h : Ascending cmp (xs ++ a :: ys)) :
    Ascending cmp (xs ++ ys) := by
  obtain ⟨hx, hy, -, -, hcross⟩ := split.mp h
  exact List.pairwise_append.mpr ⟨hx, hy, hcross⟩

/-- Only the element level with `d` compares equal to it. -/
theorem ne_of_mem (hc : TotalCompare cmp) {b d : α}
    (h : Ascending cmp (xs ++ b :: ys)) (hb : cmp b d = 0) :
    (∀ x ∈ xs, cmp x d < 0) ∧ ∀ y ∈ ys, 0 < cmp y d := by
  obtain ⟨-, -, hxb, hby, -⟩ := split.mp h
  have hdb := hc.eq_comm hb
  exact ⟨fun x hx => hc.lt_of_lt_of_le (hxb x hx) (by omega),
    fun y hy => (hc.swap d y).mp (hc.lt_of_le_of_lt (by omega) (hby y hy))⟩

end Ascending

end TinyClr.Library
