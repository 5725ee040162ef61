import Mathlib.Algebra.Order.Field.Rat
import Mathlib.Data.Rat.Cast.Order
import Mathlib.Tactic.FieldSimp
import Mathlib.Tactic.Linarith
import Mathlib.Tactic.Positivity
import Mathlib.Tactic.Ring

/-!
# Fixed-point numbers

Signed numbers of a given size that stand for their multiples of a power of two, what it means that
one of them is a rational number rounded and kept in range, and how such statements about a
quotient become statements about integers.
-/

namespace TinyClr.Library

@[ext] structure Signed (n : Nat) where
  value : Int
  le_value : -2 ^ n ≤ value
  value_lt : value < 2 ^ n
deriving DecidableEq, Repr

namespace Signed

variable {n : Nat}

def wrap (n : Nat) (x : Int) : Signed n where
  value := x.bmod (2 ^ (n + 1))
  le_value := by
    have hlow := Int.le_bmod (x := x) (m := 2 ^ (n + 1)) (Nat.two_pow_pos _)
    have hhalf : ((2 ^ (n + 1) : Nat) : Int) / 2 = 2 ^ n := by
      rw [Nat.cast_pow, pow_succ]
      exact Int.mul_ediv_cancel _ (by decide)
    rwa [hhalf] at hlow
  value_lt := by
    have hhigh := Int.bmod_lt (x := x) (m := 2 ^ (n + 1)) (Nat.two_pow_pos _)
    have hhalf : (((2 ^ (n + 1) : Nat) : Int) + 1) / 2 = 2 ^ n := by
      have hsum : ((2 ^ (n + 1) : Nat) : Int) + 1 = 1 + 2 * 2 ^ n := by
        rw [Nat.cast_pow, pow_succ]
        push_cast
        ring
      rw [hsum, Int.add_mul_ediv_left _ _ (by decide)]
      exact Int.zero_add _
    rwa [hhalf] at hhigh

def max (n : Nat) : Signed n where
  value := 2 ^ n - 1
  le_value := by
    have hpos : (0 : Int) < 2 ^ n := by positivity
    omega
  value_lt := by omega

def min (n : Nat) : Signed n where
  value := -2 ^ n
  le_value := le_refl _
  value_lt := by
    have hpos : (0 : Int) < 2 ^ n := by positivity
    omega

@[simp] theorem max_value : (max n).value = 2 ^ n - 1 := rfl

@[simp] theorem min_value : (min n).value = -2 ^ n := rfl

theorem wrap_value {x : Int} (hlow : -2 ^ n ≤ x) (hhigh : x < 2 ^ n) : (wrap n x).value = x := by
  have hpow : ((2 ^ (n + 1) : Nat) : Int) = 2 * 2 ^ n := by
    rw [Nat.cast_pow, pow_succ]
    push_cast
    ring
  exact Int.bmod_eq_of_le (by rw [hpow]; omega) (by rw [hpow]; omega)

theorem wrap_add (x k : Int) : wrap n (x + k * 2 ^ (n + 1)) = wrap n x := by
  have hpow : (2 : Int) ^ (n + 1) = ((2 ^ (n + 1) : Nat) : Int) := by push_cast; rfl
  ext
  rw [wrap, wrap, hpow]
  exact Int.add_mul_bmod_self_right x k _

/-- One step out of the range at either end -/
theorem wrap_value_of_ge {x : Int} (hlow : 2 ^ n ≤ x) (hhigh : x < 2 ^ n + 2 ^ (n + 1)) :
    (wrap n x).value = x - 2 ^ (n + 1) := by
  have hpow : (2 : Int) ^ (n + 1) = 2 * 2 ^ n := by ring
  have hx : x = x - 2 ^ (n + 1) + 1 * 2 ^ (n + 1) := by ring
  rw [hx, wrap_add, wrap_value (by omega) (by omega)]
  ring

theorem wrap_value_of_lt {x : Int} (hlow : -2 ^ n - 2 ^ (n + 1) ≤ x) (hhigh : x < -2 ^ n) :
    (wrap n x).value = x + 2 ^ (n + 1) := by
  have hpow : (2 : Int) ^ (n + 1) = 2 * 2 ^ n := by ring
  have hx : x = x + 2 ^ (n + 1) + (-1) * 2 ^ (n + 1) := by ring
  rw [hx, wrap_add, wrap_value (by omega) (by omega)]
  ring

theorem wrap_emod (x : Int) : wrap n (x % 2 ^ (n + 1)) = wrap n x := by
  have hpow : (2 : Int) ^ (n + 1) = ((2 ^ (n + 1) : Nat) : Int) := by push_cast; rfl
  ext
  rw [wrap, wrap, hpow]
  exact Int.emod_bmod x _

/-- What is left of an integer, by its lowest bits -/
theorem wrap_eq_iff (x : Int) (r : Signed n) :
    wrap n x = r ↔ x % 2 ^ (n + 1) = r.value % 2 ^ (n + 1) := by
  have hpow : (2 : Int) ^ (n + 1) = ((2 ^ (n + 1) : Nat) : Int) := by push_cast; rfl
  constructor
  · rintro rfl
    rw [wrap, hpow]
    exact (Int.bmod_emod).symm
  · intro h
    rw [← wrap_emod, h, wrap_emod]
    exact Signed.ext (wrap_value r.le_value r.value_lt)

theorem wrap_neg_wrap (x : Int) : wrap n (-(wrap n x).value) = wrap n (-x) := by
  ext
  rw [wrap, wrap, wrap]
  exact Int.bmod_neg_bmod

def toRat (s : Nat) (a : Signed n) : ℚ := a.value / 2 ^ s

end Signed

/-- `r` is the number `x`, rounded to one of its neighbours if it is in range and replaced by the
    bound if it is not. -/
structure Saturates {n : Nat} (s : Nat) (x : ℚ) (r : Signed n) : Prop where
  inside : (Signed.min n).toRat s ≤ x → x ≤ (Signed.max n).toRat s → |r.toRat s - x| < 1 / 2 ^ s
  above : (Signed.max n).toRat s < x → r = Signed.max n
  below : x < (Signed.min n).toRat s → r = Signed.min n

/-- `r` is the number `x`, rounded towards zero if it is in range and replaced by the bound if it is
    not. -/
structure Truncates {n : Nat} (s : Nat) (x : ℚ) (r : Signed n) : Prop where
  nonneg : 0 ≤ x → x ≤ (Signed.max n).toRat s → r.toRat s ≤ x ∧ x < r.toRat s + 1 / 2 ^ s
  nonpos : x ≤ 0 → (Signed.min n).toRat s ≤ x → x ≤ r.toRat s ∧ r.toRat s < x + 1 / 2 ^ s
  above : (Signed.max n).toRat s < x → r = Signed.max n
  below : x < (Signed.min n).toRat s → r = Signed.min n

/-! ### Quotients of integers -/

section Quotients

variable {n s : Nat} {x : ℚ} {num den : Int} (hden : 0 < den) (hx : x * 2 ^ s = num / den)

include hden hx

theorem quotient_eq : x = num / (den * 2 ^ s) := by
  have hpow : (0 : ℚ) < 2 ^ s := by positivity
  have hden' : (0 : ℚ) < den := by exact_mod_cast hden
  rw [eq_div_iff (ne_of_gt hden')] at hx
  rw [eq_div_iff (by positivity)]
  linarith

theorem div_le_quotient_iff (a : Int) : (a : ℚ) / 2 ^ s ≤ x ↔ a * den ≤ num := by
  have hpow : (0 : ℚ) < 2 ^ s := by positivity
  have hden' : (0 : ℚ) < den := by exact_mod_cast hden
  rw [quotient_eq hden hx, div_le_div_iff₀ hpow (by positivity)]
  constructor
  · intro h
    have h' : (a : ℚ) * den * 2 ^ s ≤ num * 2 ^ s := by linarith
    exact_mod_cast le_of_mul_le_mul_right h' hpow
  · intro h
    have h' : (a : ℚ) * den ≤ num := by exact_mod_cast h
    nlinarith

theorem quotient_le_div_iff (a : Int) : x ≤ (a : ℚ) / 2 ^ s ↔ num ≤ a * den := by
  have hpow : (0 : ℚ) < 2 ^ s := by positivity
  have hden' : (0 : ℚ) < den := by exact_mod_cast hden
  rw [quotient_eq hden hx, div_le_div_iff₀ (by positivity) hpow]
  constructor
  · intro h
    have h' : (num : ℚ) * 2 ^ s ≤ a * den * 2 ^ s := by linarith
    exact_mod_cast le_of_mul_le_mul_right h' hpow
  · intro h
    have h' : (num : ℚ) ≤ a * den := by exact_mod_cast h
    nlinarith

theorem quotient_lt_add_iff (r : Signed n) :
    x < r.toRat s + 1 / 2 ^ s ↔ num - r.value * den < den := by
  have heq : r.toRat s + 1 / 2 ^ s = ((r.value + 1 : Int) : ℚ) / 2 ^ s := by
    rw [Signed.toRat, ← add_div]
    push_cast
    rfl
  rw [heq, ← not_le, div_le_quotient_iff hden hx, not_le, add_mul, one_mul]
  constructor <;> intro h <;> omega

theorem lt_quotient_add_iff (r : Signed n) :
    r.toRat s < x + 1 / 2 ^ s ↔ r.value * den - num < den := by
  have heq : r.toRat s - 1 / 2 ^ s = ((r.value - 1 : Int) : ℚ) / 2 ^ s := by
    rw [Signed.toRat, ← sub_div]
    push_cast
    rfl
  rw [← sub_lt_iff_lt_add, heq, ← not_le, quotient_le_div_iff hden hx, not_le, sub_mul, one_mul]
  constructor <;> intro h <;> omega

theorem quotient_bounds :
    (x ≤ (Signed.max n).toRat s ↔ num ≤ (2 ^ n - 1) * den) ∧
      ((Signed.min n).toRat s ≤ x ↔ -2 ^ n * den ≤ num) :=
  ⟨quotient_le_div_iff hden hx (2 ^ n - 1), div_le_quotient_iff hden hx (-2 ^ n)⟩

theorem saturates_iff (r : Signed n) :
    Saturates s x r ↔
      (-2 ^ n * den ≤ num → num ≤ (2 ^ n - 1) * den →
        r.value * den - num < den ∧ num - r.value * den < den) ∧
      ((2 ^ n - 1) * den < num → r.value = 2 ^ n - 1) ∧
      (num < -2 ^ n * den → r.value = -2 ^ n) := by
  obtain ⟨hmax, hmin⟩ := quotient_bounds (n := n) hden hx
  have habs : |r.toRat s - x| < 1 / 2 ^ s ↔
      r.value * den - num < den ∧ num - r.value * den < den := by
    rw [abs_sub_lt_iff, sub_lt_iff_lt_add', sub_lt_iff_lt_add', lt_quotient_add_iff hden hx,
      quotient_lt_add_iff hden hx]
  constructor
  · intro h
    refine ⟨fun hlow hhigh => habs.mp (h.inside (hmin.mpr hlow) (hmax.mpr hhigh)), fun habove => ?_,
      fun hbelow => ?_⟩
    · rw [h.above (not_le.mp fun hle => not_le.mpr habove (hmax.mp hle)), Signed.max_value]
    · rw [h.below (not_le.mp fun hle => not_le.mpr hbelow (hmin.mp hle)), Signed.min_value]
  · rintro ⟨hinside, habove, hbelow⟩
    refine ⟨fun hlow hhigh => habs.mpr (hinside (hmin.mp hlow) (hmax.mp hhigh)), fun hgt => ?_,
      fun hlt => ?_⟩
    · exact Signed.ext (habove (not_le.mp fun hle => not_le.mpr hgt (hmax.mpr hle)))
    · exact Signed.ext (hbelow (not_le.mp fun hle => not_le.mpr hlt (hmin.mpr hle)))

theorem truncates_iff (r : Signed n) :
    Truncates s x r ↔
      (0 ≤ num → num ≤ (2 ^ n - 1) * den → r.value * den ≤ num ∧ num - r.value * den < den) ∧
      (num ≤ 0 → -2 ^ n * den ≤ num → num ≤ r.value * den ∧ r.value * den - num < den) ∧
      ((2 ^ n - 1) * den < num → r.value = 2 ^ n - 1) ∧
      (num < -2 ^ n * den → r.value = -2 ^ n) := by
  obtain ⟨hmax, hmin⟩ := quotient_bounds (n := n) hden hx
  have hnonneg : 0 ≤ x ↔ 0 ≤ num := by
    have h := div_le_quotient_iff hden hx 0
    rwa [Int.cast_zero, zero_div, zero_mul] at h
  have hnonpos : x ≤ 0 ↔ num ≤ 0 := by
    have h := quotient_le_div_iff hden hx 0
    rwa [Int.cast_zero, zero_div, zero_mul] at h
  have hfloor : r.toRat s ≤ x ∧ x < r.toRat s + 1 / 2 ^ s ↔
      r.value * den ≤ num ∧ num - r.value * den < den :=
    and_congr (div_le_quotient_iff hden hx r.value) (quotient_lt_add_iff hden hx r)
  have hceil : x ≤ r.toRat s ∧ r.toRat s < x + 1 / 2 ^ s ↔
      num ≤ r.value * den ∧ r.value * den - num < den :=
    and_congr (quotient_le_div_iff hden hx r.value) (lt_quotient_add_iff hden hx r)
  constructor
  · intro h
    refine ⟨fun hpos hle => hfloor.mp (h.nonneg (hnonneg.mpr hpos) (hmax.mpr hle)),
      fun hneg hle => hceil.mp (h.nonpos (hnonpos.mpr hneg) (hmin.mpr hle)), fun habove => ?_,
      fun hbelow => ?_⟩
    · rw [h.above (not_le.mp fun hle => not_le.mpr habove (hmax.mp hle)), Signed.max_value]
    · rw [h.below (not_le.mp fun hle => not_le.mpr hbelow (hmin.mp hle)), Signed.min_value]
  · rintro ⟨hpos, hneg, habove, hbelow⟩
    refine ⟨fun hx₀ hle => hfloor.mpr (hpos (hnonneg.mp hx₀) (hmax.mp hle)),
      fun hx₀ hle => hceil.mpr (hneg (hnonpos.mp hx₀) (hmin.mp hle)), fun hgt => ?_, fun hlt => ?_⟩
    · exact Signed.ext (habove (not_le.mp fun hle => not_le.mpr hgt (hmax.mpr hle)))
    · exact Signed.ext (hbelow (not_le.mp fun hle => not_le.mpr hlt (hmin.mpr hle)))

end Quotients

end TinyClr.Library
