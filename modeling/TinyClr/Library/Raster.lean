import Mathlib.Algebra.Group.Basic
import Mathlib.Logic.Function.Iterate
import Mathlib.Tactic.Linarith
import Mathlib.Tactic.Ring

/-!
# Rasters

A line that is stretched is walked with an error accumulator; a rectangle of cells is painted one
row after the other, the rows lying a stride apart.
-/

namespace TinyClr.Library

/-! ### Error accumulators -/

section Accumulator

variable {σ : Type*} {size numerator : Int} {move : σ → σ} {s : σ}

/-- Takes `size` out of the numerator as long as it can, with one move each time. -/
def catchUp (size : Int) (move : σ → σ) (numerator : Int) (s : σ) : Int × σ :=
  if 0 < size ∧ size ≤ numerator then catchUp size move (numerator - size) (move s)
  else (numerator, s)
termination_by numerator.toNat
decreasing_by omega

theorem catchUp_eq (hsize : 0 < size) (hnumerator : 0 ≤ numerator) :
    catchUp size move numerator s =
      (numerator % size, move^[(numerator / size).toNat] s) := by
  induction hn : numerator.toNat using Nat.strongRecOn generalizing numerator s with
  | ind n ih =>
    rw [catchUp]
    by_cases hle : size ≤ numerator
    · rw [if_pos ⟨hsize, hle⟩, ih (numerator - size).toNat (by omega) (by omega) rfl]
      have hmod : (numerator - size) % size = numerator % size := Int.sub_emod_right numerator size
      have hdiv : (numerator / size).toNat = ((numerator - size) / size).toNat + 1 := by
        have hback : numerator / size = (numerator - size) / size + 1 := by
          rw [← Int.add_mul_ediv_right (numerator - size) 1 hsize.ne', Int.one_mul,
            Int.sub_add_cancel]
        have hnonneg : 0 ≤ (numerator - size) / size :=
          Int.ediv_nonneg (by omega) hsize.le
        omega
      rw [hmod, hdiv, Function.iterate_succ_apply]
    · rw [if_neg (fun h => hle h.2), Int.emod_eq_of_lt hnumerator (by omega),
        Int.ediv_eq_zero_of_lt hnumerator (by omega)]
      rfl

/-- Adding a step to what is left over and catching up goes on where the whole numerator is. -/
theorem catchUp_next (hsize : 0 < size) {total step : Int} (hstep : 0 ≤ step) :
    catchUp size move (total % size + step) s =
      ((total + step) % size, move^[((total + step) / size - total / size).toNat] s) := by
  have hleft : total % size + step = total + step - size * (total / size) := by
    have := Int.emod_add_mul_ediv total size
    linarith
  have hmod : (total % size + step) % size = (total + step) % size :=
    Int.emod_add_emod total size step
  have hdiv : (total % size + step) / size = (total + step) / size - total / size := by
    rw [hleft, Int.sub_mul_ediv_left (total + step) (total / size) hsize.ne']
  rw [catchUp_eq hsize (Int.add_nonneg (Int.emod_nonneg total hsize.ne') hstep), hmod, hdiv]

end Accumulator

theorem iterate_add_stride (stride : Int) (n : Nat) (p : Int) :
    (fun p => p + stride)^[n] p = p + stride * n := by
  induction n generalizing p with
  | zero => simp
  | succ n ih =>
    rw [Function.iterate_succ_apply, ih]
    push_cast
    ring

/-! ### Painted rows and rectangles -/

section Painting

variable {α : Type*} {start stride : Int} {w h : Nat} {cells cells₁ cells' : Int → α}

/-- `w` cells are painted, each with its own brush, the others are left alone. -/
structure PaintsRow (brush : Nat → α → α) (start : Int) (w : Nat) (cells cells' : Int → α) :
    Prop where
  inside : ∀ i < w, cells' (start + i) = brush i (cells (start + i))
  outside : ∀ a, (∀ i < w, a ≠ start + (i : Nat)) → cells' a = cells a

/-- `h` rows of `w` cells are painted, each cell with its own brush, the others are left alone. -/
structure Paints (brush : Nat → Nat → α → α) (start stride : Int) (w h : Nat)
    (cells cells' : Int → α) : Prop where
  inside : ∀ i < w, ∀ j < h,
    cells' (start + stride * j + i) = brush i j (cells (start + stride * j + i))
  outside : ∀ a, (∀ i < w, ∀ j < h, a ≠ start + stride * (j : Nat) + (i : Nat)) →
    cells' a = cells a

theorem PaintsRow.nil (brush : Nat → α → α) : PaintsRow brush start 0 cells cells where
  inside := fun _ hi => absurd hi (Nat.not_lt_zero _)
  outside := fun _ _ => rfl

/-- The first cell, then the others -/
theorem PaintsRow.cons {brush : Nat → α → α}
    (hfirst : cells₁ = Function.update cells start (brush 0 (cells start)))
    (hrest : PaintsRow (fun i => brush (i + 1)) (start + 1) w cells₁ cells') :
    PaintsRow brush start (w + 1) cells cells' := by
  constructor
  · intro i hi
    rcases i with _ | i
    · have hkept := hrest.outside start (fun i _ => by omega)
      simp [hkept, hfirst]
    · have hpainted := hrest.inside i (by omega)
      have hother : cells₁ (start + 1 + i) = cells (start + 1 + i) := by
        rw [hfirst, Function.update_of_ne (by omega)]
      rw [hother] at hpainted
      have haddress : start + ((i + 1 : Nat) : Int) = start + 1 + i := by push_cast; ring
      rw [haddress, hpainted]
  · intro a ha
    have hne : a ≠ start := by
      have := ha 0 (by omega)
      simpa using this
    have hkept := hrest.outside a (fun i hi heq => ha (i + 1) (by omega) (by push_cast; omega))
    rw [hkept, hfirst, Function.update_of_ne hne]

/-- What lies apart from a row that is painted keeps its colours. -/
theorem PaintsRow.kept {brush : Nat → α → α} {color : Int → α} {S : Set Int}
    (hrow : PaintsRow brush start w cells cells') (hcolor : ∀ a ∈ S, cells a = color a)
    (hapart : ∀ i < w, start + ((i : Nat) : Int) ∉ S) : ∀ a ∈ S, cells' a = color a := by
  intro a ha
  rw [hrow.outside a (fun i hi heq => hapart i hi (heq ▸ ha)), hcolor a ha]

theorem Paints.nil (brush : Nat → Nat → α → α) : Paints brush start stride w 0 cells cells where
  inside := fun _ _ _ hj => absurd hj (Nat.not_lt_zero _)
  outside := fun _ _ => rfl

/-- Two cells of rows that do not overlap are different. -/
theorem row_cell_ne (hw : (w : Int) ≤ stride) {i j j' : Nat} (i' : Nat) (hi : i < w)
    (hj : j < j') : start + stride * j + i ≠ start + stride * j' + i' := by
  have hrow : stride * ((j : Int) + 1) ≤ stride * j' :=
    mul_le_mul_of_nonneg_left (by omega) (by omega)
  have : stride * ((j : Int) + 1) = stride * j + stride := by ring
  omega

/-- The first row, then the others -/
theorem Paints.cons {brush : Nat → Nat → α → α} (hw : (w : Int) ≤ stride)
    (hfirst : PaintsRow (fun i => brush i 0) start w cells cells₁)
    (hrest : Paints (fun i j => brush i (j + 1)) (start + stride) stride w h cells₁ cells') :
    Paints brush start stride w (h + 1) cells cells' := by
  have haddress : ∀ i j : Nat, start + stride * ((j + 1 : Nat) : Int) + i =
      start + stride + stride * j + i := by
    intro i j
    push_cast
    ring
  constructor
  · intro i hi j hj
    rcases j with _ | j
    · have hkept := hrest.outside (start + i) (fun i' hi' j' _ => by
        have := @row_cell_ne start _ _ hw _ _ _ i' hi (Nat.succ_pos j')
        rw [haddress] at this
        simpa using this)
      simpa [hkept] using hfirst.inside i hi
    · have hkept := hfirst.outside (start + stride + stride * j + i) (fun i' hi' => by
        have := @row_cell_ne start _ _ hw _ _ _ i hi' (Nat.succ_pos j)
        rw [haddress] at this
        simpa using this.symm)
      rw [haddress, hrest.inside i hi j (by omega), hkept]
  · intro a ha
    have hkept := hrest.outside a (fun i hi j hj heq =>
      ha i hi (j + 1) (by omega) (by rw [haddress]; exact heq))
    have hkept₁ := hfirst.outside a (fun i hi heq => ha i hi 0 (by omega) (by simpa using heq))
    rw [hkept, hkept₁]

end Painting

end TinyClr.Library
