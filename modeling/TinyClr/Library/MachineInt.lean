import Mathlib.Algebra.Group.Nat.Defs
import Mathlib.Algebra.Ring.Int.Defs

/-!
# Machine integers as mathematical ones

Values of C's fixed-width types are modelled by `Int` and `Nat`; these are the conversions that
wrap, with the range in which they change nothing, and the two bit operations that codecs use.
-/

namespace TinyClr.Library

/-- The value a 32-bit signed integer holds after a computation that yields `x`. -/
def int32 (x : Int) : Int := x.bmod (2 ^ 32)

/-- The value a 64-bit signed integer holds after a computation that yields `x`. -/
def int64 (x : Int) : Int := x.bmod (2 ^ 64)

/-- The value a 32-bit unsigned integer holds after a computation that yields `x`. -/
def uint32 (x : Int) : Nat := (x % 2 ^ 32).toNat

/-- The value a 16-bit unsigned integer holds after a computation that yields `x`. -/
def uint16 (x : Int) : Nat := (x % 2 ^ 16).toNat

theorem int32_eq_self {x : Int} (hlow : -2 ^ 31 ≤ x) (hhigh : x < 2 ^ 31) : int32 x = x :=
  Int.bmod_eq_of_le (by omega) (by omega)

theorem int32_range (x : Int) : -2 ^ 31 ≤ int32 x ∧ int32 x < 2 ^ 31 := by
  have hlow := Int.le_bmod (x := x) (m := 2 ^ 32) (by decide)
  have hhigh := Int.bmod_lt (x := x) (m := 2 ^ 32) (by decide)
  unfold int32
  omega

/-- Past the signed range by less than the modulus, the value wraps around once. -/
theorem int32_eq_sub {x : Int} (hlow : 2 ^ 31 ≤ x) (hhigh : x < 2 ^ 31 + 2 ^ 32) :
    int32 x = x - 2 ^ 32 := by
  have hshift : int32 (x - 2 ^ 32) = int32 x := Int.sub_bmod_right x (2 ^ 32)
  rw [← hshift]
  exact int32_eq_self (by omega) (by omega)

theorem int64_eq_self {x : Int} (hlow : -2 ^ 63 ≤ x) (hhigh : x < 2 ^ 63) : int64 x = x :=
  Int.bmod_eq_of_le (by omega) (by omega)

theorem uint32_eq_toNat {x : Int} (hlow : 0 ≤ x) (hhigh : x < 2 ^ 32) : uint32 x = x.toNat := by
  unfold uint32
  rw [Int.emod_eq_of_lt hlow hhigh]

theorem uint32_nat {n : Nat} (h : n < 2 ^ 32) : uint32 n = n :=
  (uint32_eq_toNat (by omega) (by omega)).trans (Int.toNat_natCast n)

theorem uint16_eq_toNat {x : Int} (hlow : 0 ≤ x) (hhigh : x < 2 ^ 16) : uint16 x = x.toNat := by
  unfold uint16
  rw [Int.emod_eq_of_lt hlow hhigh]

/-! ### Bit fields -/

/-- Masking with `2 ^ k - 1` keeps the low `k` bits. -/
theorem and_mask (k : Nat) {m : Nat} (hm : m = 2 ^ k - 1) (x : Nat) : x &&& m = x % 2 ^ k := by
  rw [hm]
  exact Nat.and_two_pow_sub_one_eq_mod x k

variable {mask : Nat}

/-- A tag above bit `k` set on the low `k` bits. -/
theorem tag_field (k t : Nat) {tag mask : Nat} (htag : tag = 2 ^ k * t) (hmask : mask = 2 ^ k - 1)
    (x : Nat) : tag ||| (x &&& mask) = x % 2 ^ k + tag := by
  rw [and_mask k hmask, htag, Nat.add_comm]
  exact (Nat.two_pow_add_eq_or_of_lt (Nat.mod_lt x (Nat.two_pow_pos k)) t).symm

/-- Shifting a field in from the right. -/
theorem shift_or (k a : Nat) {b : Nat} (hb : b < 2 ^ k) : (a <<< k) ||| b = a * 2 ^ k + b := by
  rw [← Nat.shiftLeft_add_eq_or_of_lt hb, Nat.shiftLeft_eq]

/-- A mask of high bits -/
theorem and_high_mask (j k : Nat) (hmask : mask = (2 ^ j - 1) * 2 ^ k) (x : Nat) :
    x &&& mask = x / 2 ^ k % 2 ^ j * 2 ^ k := by
  have hpos : 0 < 2 ^ k := Nat.two_pow_pos k
  have hlow : (x &&& mask) % 2 ^ k = 0 := by
    rw [Nat.and_mod_two_pow, hmask, Nat.mul_mod_left, Nat.and_zero]
  have hhigh : (x &&& mask) / 2 ^ k = x / 2 ^ k % 2 ^ j := by
    rw [Nat.and_div_two_pow, hmask, Nat.mul_div_cancel _ hpos]
    exact Nat.and_two_pow_sub_one_eq_mod _ _
  rw [← Nat.div_add_mod (x &&& mask) (2 ^ k), hlow, hhigh, Nat.add_zero, Nat.mul_comm]

/-- A mask of all bits, shifted to the left -/
theorem mask_shift (w j : Nat) (hj : j ≤ w) :
    (2 ^ w - 1) <<< j % 2 ^ w = (2 ^ (w - j) - 1) * 2 ^ j := by
  have hpos : 0 < 2 ^ j := Nat.two_pow_pos j
  have hle : 2 ^ j ≤ 2 ^ w := Nat.pow_le_pow_right (by decide) hj
  have hsplit : (2 ^ w - 1) * 2 ^ j = (2 ^ w - 2 ^ j) + 2 ^ w * (2 ^ j - 1) := by
    have hmul : 2 ^ w ≤ 2 ^ w * 2 ^ j := Nat.le_mul_of_pos_right _ hpos
    rw [Nat.sub_mul, Nat.mul_sub, Nat.one_mul, Nat.mul_one]
    omega
  rw [Nat.shiftLeft_eq, hsplit, Nat.add_mul_mod_self_left, Nat.mod_eq_of_lt (by omega), Nat.sub_mul,
    ← Nat.pow_add, Nat.sub_add_cancel hj, Nat.one_mul]

/-- Whether a number has any of its highest bits -/
theorem and_high_mask_ne_zero (j k : Nat) (hmask : mask = (2 ^ j - 1) * 2 ^ k) {x : Nat}
    (hx : x < 2 ^ (j + k)) : x &&& mask ≠ 0 ↔ 2 ^ k ≤ x := by
  have hpos : 0 < 2 ^ k := Nat.two_pow_pos k
  have hdiv : x / 2 ^ k < 2 ^ j := Nat.div_lt_of_lt_mul (by rwa [Nat.mul_comm, ← Nat.pow_add])
  rw [and_high_mask j k hmask, Nat.mod_eq_of_lt hdiv, Nat.mul_ne_zero_iff, Nat.ne_zero_iff_zero_lt,
    Nat.div_pos_iff]
  exact ⟨fun h => h.1.2, fun h => ⟨⟨hpos, h⟩, Nat.ne_of_gt hpos⟩⟩

/-- Adding a field above the bits already there. -/
theorem or_shift (k : Nat) {a b : Nat} (hb : b < 2 ^ k) : b ||| (a <<< k) = b + a * 2 ^ k := by
  rw [Nat.or_comm, shift_or k a hb, Nat.add_comm]

/-- Adding a field in the middle, with nothing but zeros below. -/
theorem or_field (i j x : Nat) {field : Nat} (hfield : field < 2 ^ i) :
    x * 2 ^ (i + j) ||| (field <<< j) = (x * 2 ^ i + field) * 2 ^ j := by
  have hlt : field <<< j < 2 ^ (i + j) := by
    rw [Nat.shiftLeft_eq, Nat.pow_add]
    exact (Nat.mul_lt_mul_right (Nat.two_pow_pos j)).mpr hfield
  rw [← Nat.shiftLeft_eq x, shift_or (i + j) x hlt, Nat.shiftLeft_eq, Nat.pow_add, Nat.add_mul,
    Nat.mul_assoc]

end TinyClr.Library
