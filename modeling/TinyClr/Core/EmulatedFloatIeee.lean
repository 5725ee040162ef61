import TinyClr.Core.EmulatedFloatSpec
import TinyClr.Library.MachineInt

/-!
# Emulated floating point from IEEE 754

A finite number becomes its value, rounded towards zero, except for a negative one that is out of
range: it becomes the opposite of the largest number, not the smallest.
-/

namespace TinyClr.EmulatedFloat

open TinyClr.Library

/-! ### Values -/

def ieeeValue (fractionBits bias : Nat) (negative : Prop) [Decidable negative]
    (exponent fraction : Nat) : ℚ :=
  (if negative then -1 else 1) *
    if exponent = 0 then fraction * (2 : ℚ) ^ (1 - bias - fractionBits : Int)
    else (2 ^ fractionBits + fraction) * (2 : ℚ) ^ (exponent - bias - fractionBits : Int)

def floatExponent (arg : UInt32) : Nat := arg.toNat / 2 ^ 23 % 2 ^ 8

def floatValue (arg : UInt32) : ℚ :=
  ieeeValue 23 127 (2 ^ 31 ≤ arg.toNat) (floatExponent arg) (arg.toNat % 2 ^ 23)

def doubleExponent (arg : UInt64) : Nat := arg.toNat / 2 ^ 52 % 2 ^ 11

def doubleValue (arg : UInt64) : ℚ :=
  ieeeValue 52 1023 (2 ^ 63 ≤ arg.toNat) (doubleExponent arg) (arg.toNat % 2 ^ 52)

/-! ### Magnitudes -/

/-- A sign and a magnitude that is the floor of a quotient or the largest number: wrong where the
    smallest number is due -/
theorem truncates_magnitude_iff {n s m den magnitude : Nat} {x : ℚ} {r : Signed n}
    (negative : Prop) [Decidable negative] (hden : 0 < den)
    (hx : x * 2 ^ s = ((if negative then -(m : Int) else m : Int) : ℚ) / ((den : Int) : ℚ))
    (hr : r.value = if negative then -(magnitude : Int) else magnitude)
    (hmagnitude : magnitude = if m < 2 ^ n * den then m / den else 2 ^ n - 1) :
    Truncates s x r ↔ ¬ (negative ∧ 2 ^ n * den ≤ m) := by
  have hden' : (0 : Int) < den := by exact_mod_cast hden
  have hpow : ((2 ^ n : Nat) : Int) = 2 ^ n := by push_cast; rfl
  have hone : 1 ≤ 2 ^ n := Nat.one_le_two_pow
  rw [truncates_iff hden' hx, hr]
  have hfits : m < 2 ^ n * den → magnitude * den ≤ m ∧ m < magnitude * den + den ∧
      magnitude < 2 ^ n := by
    intro hlt
    rw [hmagnitude, if_pos hlt]
    refine ⟨Nat.div_mul_le_self m den, ?_, Nat.div_lt_of_lt_mul (by rwa [Nat.mul_comm])⟩
    have hmod := Nat.div_add_mod m den
    have hrest := Nat.mod_lt m hden
    rw [Nat.mul_comm] at hmod
    omega
  have hover : 2 ^ n * den ≤ m → magnitude + 1 = 2 ^ n := by
    intro hle
    rw [hmagnitude, if_neg (Nat.not_lt.mpr hle)]
    exact Nat.sub_add_cancel hone
  rw [← hpow]
  generalize 2 ^ n = bound at *
  by_cases hneg : negative
  · rw [if_pos hneg, if_pos hneg]
    rcases Nat.lt_or_ge m (bound * den) with hlt | hle
    · obtain ⟨hfloor, hnext, hlt'⟩ := hfits hlt
      refine iff_of_true ⟨fun hnonneg _ => ?_, fun _ _ => ?_, fun habove => ?_, fun hbelow => ?_⟩
        fun h => absurd h.2 (Nat.not_le.mpr hlt)
      · have hzero : m = 0 := by omega
        have hnone : magnitude = 0 := by
          have hmul : magnitude * den = 0 := by omega
          exact (Nat.mul_eq_zero.mp hmul).resolve_right hden.ne'
        rw [hzero, hnone]
        omega
      · zify at hfloor hnext
        constructor <;> linarith
      · zify at hone hden
        nlinarith
      · zify at hlt
        linarith
    · refine iff_of_false (fun h => ?_) fun h => h ⟨hneg, hle⟩
      have hmagnitude := hover hle
      zify at hle hmagnitude hone
      rcases le_or_gt (-(bound : Int) * den) (-(m : Int)) with hin | hout
      · have hnear := (h.2.1 (by omega) hin).2
        nlinarith
      · have hmin := h.2.2.2 hout
        omega
  · rw [if_neg hneg, if_neg hneg]
    refine iff_of_true ?_ fun h => hneg h.1
    rcases Nat.lt_or_ge m (bound * den) with hlt | hle
    · obtain ⟨hfloor, hnext, hlt'⟩ := hfits hlt
      zify at hfloor hnext hlt' hone
      refine ⟨fun _ _ => ⟨hfloor, by linarith⟩, fun hnonpos _ => ?_, fun habove => ?_,
        fun hbelow => ?_⟩
      · exact ⟨by omega, by omega⟩
      · have hstep : ((bound : Int) - 1) * den < (magnitude + 1) * den := by linarith
        have hlt := lt_of_mul_lt_mul_right hstep hden'.le
        omega
      · nlinarith
    · have hmagnitude := hover hle
      zify at hle hmagnitude hone
      refine ⟨fun _ hin => ?_, fun hnonpos _ => ?_, fun _ => by omega, fun hbelow => ?_⟩ <;> nlinarith

def scaled (n mantissa : Nat) (exponent : Int) : Nat :=
  if exponent < 0 then mantissa / 2 ^ (-exponent).toNat
  else if mantissa * 2 ^ exponent.toNat < 2 ^ n then mantissa * 2 ^ exponent.toNat
  else 2 ^ n - 1

section Values

variable {fb bias n s : Nat} (negative : Prop) [Decidable negative] {exponent fraction : Nat}
  {r : Signed n}

theorem subnormal_truncates (hfraction : fraction < 2 ^ fb) (hbias : s + 1 ≤ bias)
    (hr : r.value = 0) : Truncates s (ieeeValue fb bias negative 0 fraction) r := by
  have hden : 2 ^ fb ≤ 2 ^ (bias + fb - 1 - s) := Nat.pow_le_pow_right (by decide) (by omega)
  have hexponent : (1 - bias - fb : Int) + s = -((bias + fb - 1 - s : Nat) : Int) := by omega
  have hx : ieeeValue fb bias negative 0 fraction * 2 ^ s =
      ((if negative then -(fraction : Int) else fraction : Int) : ℚ) /
        (((2 ^ (bias + fb - 1 - s) : Nat) : Int) : ℚ) := by
    have hpow : (2 : ℚ) ^ (1 - bias - fb : Int) * 2 ^ s = 1 / 2 ^ (bias + fb - 1 - s) := by
      rw [← zpow_natCast (2 : ℚ) s, ← zpow_add₀ two_ne_zero, hexponent, zpow_neg, zpow_natCast,
        one_div]
    rw [ieeeValue, if_pos rfl, mul_assoc, mul_assoc, hpow]
    split <;> push_cast <;> ring
  have hr' : r.value = if negative then -((0 : Nat) : Int) else ((0 : Nat) : Int) := by
    rw [hr]
    split <;> rfl
  refine (truncates_magnitude_iff negative (Nat.two_pow_pos _) hx hr' ?_).mpr ?_
  · rw [if_pos, Nat.div_eq_of_lt (lt_of_lt_of_le hfraction hden)]
    exact lt_of_lt_of_le (lt_of_lt_of_le hfraction hden)
      (Nat.le_mul_of_pos_left _ (Nat.two_pow_pos n))
  · rintro ⟨-, hle⟩
    have hge := le_trans (Nat.le_mul_of_pos_left _ (Nat.two_pow_pos n)) hle
    omega

theorem ieee_truncates_iff (hfraction : fraction < 2 ^ fb) (hbias : s + 1 ≤ bias) (hfb : fb < n)
    (hr : r.value =
      if negative then -(scaled n (2 ^ fb + fraction) (exponent - bias - (fb - s)) : Int)
      else scaled n (2 ^ fb + fraction) (exponent - bias - (fb - s))) :
    Truncates s (ieeeValue fb bias negative exponent fraction) r ↔
      ¬ (negative ∧ 0 ≤ (exponent - bias - (fb - s) : Int) ∧
        2 ^ n ≤ (2 ^ fb + fraction) * 2 ^ (exponent - bias - (fb - s) : Int).toNat) := by
  have hmantissa : 2 ^ fb + fraction < 2 ^ n := by
    have hle : 2 ^ (fb + 1) ≤ 2 ^ n := Nat.pow_le_pow_right (by decide) hfb
    rw [Nat.pow_succ] at hle
    omega
  by_cases hzero : exponent = 0
  · subst hzero
    refine iff_of_true (subnormal_truncates negative hfraction hbias ?_) fun h => by omega
    have hnone : scaled n (2 ^ fb + fraction) ((0 : Nat) - bias - (fb - s)) = 0 := by
      rw [scaled, if_pos (by omega)]
      refine Nat.div_eq_of_lt (lt_of_lt_of_le (b := 2 ^ (fb + 1)) ?_ ?_)
      · rw [Nat.pow_succ]
        omega
      · exact Nat.pow_le_pow_right (by decide) (by omega)
    rw [hr, hnone]
    split <;> rfl
  have hvalue : ieeeValue fb bias negative exponent fraction * 2 ^ s =
      (if negative then -1 else 1) * (2 ^ fb + fraction) *
        (2 : ℚ) ^ (exponent - bias - (fb - s) : Int) := by
    have hpow : (2 : ℚ) ^ (exponent - bias - fb : Int) * 2 ^ s =
        2 ^ (exponent - bias - (fb - s) : Int) := by
      rw [← zpow_natCast (2 : ℚ) s, ← zpow_add₀ two_ne_zero]
      congr 1
      ring
    rw [ieeeValue, if_neg hzero, ← hpow]
    ring
  generalize (exponent - bias - (fb - s) : Int) = E at *
  rcases lt_or_ge E 0 with hneg | hnonneg
  · have hx : ieeeValue fb bias negative exponent fraction * 2 ^ s =
        ((if negative then -((2 ^ fb + fraction : Nat) : Int) else (2 ^ fb + fraction : Nat) : Int)
          : ℚ) / (((2 ^ (-E).toNat : Nat) : Int) : ℚ) := by
      have hE : E = -((-E).toNat : Int) := by omega
      have hpow : (2 : ℚ) ^ E = 1 / 2 ^ (-E).toNat := by
        rw [hE, zpow_neg, zpow_natCast, one_div, ← hE]
      rw [hvalue, hpow]
      split <;> push_cast <;> ring
    have hlt : 2 ^ fb + fraction < 2 ^ n * 2 ^ (-E).toNat :=
      lt_of_lt_of_le hmantissa (Nat.le_mul_of_pos_right _ (Nat.two_pow_pos _))
    rw [truncates_magnitude_iff negative (Nat.two_pow_pos _) hx hr
      (by rw [scaled, if_pos hneg, if_pos hlt])]
    exact not_congr (and_congr_right fun _ =>
      iff_of_false (Nat.not_le.mpr hlt) fun h => absurd h.1 (not_le.mpr hneg))
  · have hx : ieeeValue fb bias negative exponent fraction * 2 ^ s =
        ((if negative then -(((2 ^ fb + fraction) * 2 ^ E.toNat : Nat) : Int)
          else ((2 ^ fb + fraction) * 2 ^ E.toNat : Nat) : Int) : ℚ) / (((1 : Nat) : Int) : ℚ) := by
      have hpow : (2 : ℚ) ^ E = 2 ^ E.toNat := by
        rw [← zpow_natCast, Int.toNat_of_nonneg hnonneg]
      rw [hvalue, hpow]
      split <;> push_cast <;> ring
    rw [truncates_magnitude_iff negative Nat.one_pos hx hr
      (by rw [scaled, if_neg (not_lt.mpr hnonneg), Nat.mul_one, Nat.div_one])]
    rw [Nat.mul_one]
    exact not_congr (and_congr_right fun _ => (and_iff_right hnonneg).symm)

end Values

/-! ### The conversions -/

variable {mantissa : Nat}

theorem scaled_lt {n : Nat} (hmantissa : mantissa < 2 ^ n) (exponent : Int) :
    scaled n mantissa exponent < 2 ^ n := by
  rw [scaled]
  split
  · exact lt_of_le_of_lt (Nat.div_le_self _ _) hmantissa
  · split
    next hlt => exact hlt
    next => exact Nat.sub_lt (Nat.two_pow_pos n) Nat.one_pos

/-- The branches that both conversions share, and what is left to show of the shift to the left -/
theorem res_eq_scaled {n : Nat} {exponent shifted : Int} (hpos : 0 < mantissa)
    (hmantissa : mantissa < 2 ^ n)
    (hshifted : 0 < exponent → exponent < n →
      shifted = (if mantissa * 2 ^ exponent.toNat < 2 ^ n then mantissa * 2 ^ exponent.toNat
        else 2 ^ n - 1 : Nat)) :
    (if exponent ≤ -n then 0
      else if exponent ≥ n then ((2 ^ n - 1 : Nat) : Int)
      else if exponent > 0 then shifted
      else if exponent < 0 then (mantissa >>> (-exponent).toNat : Nat)
      else mantissa) = scaled n mantissa exponent := by
  rw [scaled]
  by_cases hle : exponent ≤ -n
  · have hpow : 2 ^ n ≤ 2 ^ (-exponent).toNat := Nat.pow_le_pow_right (by decide) (by omega)
    have hne : exponent < 0 := by
      rcases Nat.eq_zero_or_pos n with hn | hn
      · subst hn
        omega
      · omega
    rw [if_pos hle, if_pos hne, Nat.div_eq_of_lt (lt_of_lt_of_le hmantissa hpow), Nat.cast_zero]
  rw [if_neg hle]
  by_cases hneg : exponent < 0
  · rw [if_neg (by omega), if_neg (by omega), if_pos hneg, if_pos hneg, Nat.shiftRight_eq_div_pow]
  rw [if_neg hneg, if_neg hneg]
  by_cases hge : exponent ≥ n
  · have hpow : 2 ^ n ≤ 2 ^ exponent.toNat := Nat.pow_le_pow_right (by decide) (by omega)
    have hlarge : ¬ mantissa * 2 ^ exponent.toNat < 2 ^ n :=
      Nat.not_lt.mpr (le_trans hpow (Nat.le_mul_of_pos_left _ hpos))
    rw [if_pos hge, if_neg hlarge]
  rw [if_neg hge]
  rcases lt_or_eq_of_le (not_lt.mp hneg) with hpos' | hzero
  · rw [if_pos hpos', hshifted hpos' (not_le.mp hge)]
  · have hone : mantissa * 2 ^ exponent.toNat = mantissa := by
      rw [← hzero, Int.toNat_zero, Nat.pow_zero, Nat.mul_one]
    rw [if_neg (by omega), hone, if_pos hmantissa]

theorem floatRes_eq {arg : UInt32} {exponent : Int}
    (hzero : arg = 0 → exponent ≤ -31) (hpos : 0 < mantissa) (hhigh : mantissa < 2 ^ 24) :
    floatRes arg mantissa exponent = scaled 31 mantissa exponent := by
  have hshifted : 0 < exponent → exponent < (31 : Nat) →
      (if (mantissa <<< exponent.toNat % 2 ^ 64) >>> 31 ≠ 0 then (0x7FFFFFFF : Int)
        else ((mantissa <<< exponent.toNat % 2 ^ 64 : Nat) : Int)) =
      (if mantissa * 2 ^ exponent.toNat < 2 ^ 31 then mantissa * 2 ^ exponent.toNat
        else 2 ^ 31 - 1 : Nat) := by
    intro _ hlt
    have hpow : 2 ^ exponent.toNat ≤ 2 ^ 30 := Nat.pow_le_pow_right (by decide) (by omega)
    have hfits : mantissa * 2 ^ exponent.toNat < 2 ^ 64 :=
      lt_of_le_of_lt (Nat.mul_le_mul hhigh.le hpow) (by decide)
    rw [Nat.shiftLeft_eq, Nat.mod_eq_of_lt hfits, Nat.shiftRight_eq_div_pow]
    generalize mantissa * 2 ^ exponent.toNat = product at *
    rcases Nat.lt_or_ge product (2 ^ 31) with hsmall | hlarge
    · rw [if_pos hsmall, if_neg (by omega)]
    · rw [if_neg (Nat.not_lt.mpr hlarge), if_pos (by omega)]
      rfl
  have heq := res_eq_scaled (n := 31) hpos (by omega) hshifted
  by_cases hnull : arg = 0
  · rw [if_pos (by exact hzero hnull)] at heq
    rw [← heq, floatRes, if_pos hnull]
  · rw [← heq, floatRes, if_neg hnull]
    rfl

theorem doubleRes_eq {arg : UInt64} {exponent : Int}
    (hzero : arg = 0 → exponent ≤ -63) (hpos : 0 < mantissa) (hhigh : mantissa < 2 ^ 53) :
    doubleRes arg mantissa exponent = scaled 63 mantissa exponent := by
  have hshifted : 0 < exponent → exponent < (63 : Nat) →
      (if 0xFFFFFFFFFFFFFFFF <<< (63 - exponent).toNat % 2 ^ 64 &&& mantissa ≠ 0 then
          (0x7FFFFFFFFFFFFFFF : Int)
        else ((mantissa <<< exponent.toNat % 2 ^ 64 : Nat) : Int)) =
      (if mantissa * 2 ^ exponent.toNat < 2 ^ 63 then mantissa * 2 ^ exponent.toNat
        else 2 ^ 63 - 1 : Nat) := by
    intro hpos hlt
    obtain ⟨k, hk⟩ : ∃ k : Nat, exponent = k := ⟨exponent.toNat, (Int.toNat_of_nonneg hpos.le).symm⟩
    subst hk
    have hk : k < 63 := by omega
    have hsub : (63 - (k : Int)).toNat = 63 - k := by omega
    have hbits : 64 - (63 - k) = k + 1 := by omega
    have hmask : 0xFFFFFFFFFFFFFFFF <<< (63 - (k : Int)).toNat % 2 ^ 64 =
        (2 ^ (k + 1) - 1) * 2 ^ (63 - k) := by
      rw [hsub, ← hbits]
      exact mask_shift 64 (63 - k) (by omega)
    have hiff : mantissa * 2 ^ k < 2 ^ 63 ↔ mantissa < 2 ^ (63 - k) := by
      have hpow : 2 ^ 63 = 2 ^ (63 - k) * 2 ^ k := by
        rw [← Nat.pow_add, Nat.sub_add_cancel hk.le]
      rw [hpow]
      exact Nat.mul_lt_mul_right (Nat.two_pow_pos k)
    have htest := and_high_mask_ne_zero (k + 1) (63 - k) hmask
      (lt_of_lt_of_le hhigh (Nat.pow_le_pow_right (by decide) (by omega)))
    rw [Nat.and_comm] at htest
    rw [if_congr htest rfl rfl, Int.toNat_natCast, Nat.shiftLeft_eq, if_congr hiff rfl rfl]
    rcases Nat.lt_or_ge mantissa (2 ^ (63 - k)) with hsmall | hlarge
    · rw [if_pos hsmall, if_neg (Nat.not_le.mpr hsmall), Nat.mod_eq_of_lt]
      exact lt_trans (hiff.mpr hsmall) (by decide)
    · rw [if_neg (Nat.not_lt.mpr hlarge), if_pos hlarge]
      rfl
  have heq := res_eq_scaled (n := 63) hpos (by omega) hshifted
  by_cases hnull : arg = 0
  · rw [if_pos (by exact hzero hnull)] at heq
    rw [← heq, doubleRes, if_pos hnull]
  · rw [← heq, doubleRes, if_neg hnull]
    rfl

theorem signed_value {n magnitude : Nat} {res : Int} (hres : res = magnitude)
    (hlt : magnitude < 2 ^ n) {bit negative : Prop} [Decidable bit] [Decidable negative]
    (hiff : bit ↔ negative) :
    (Signed.wrap n (if bit then -res else res)).value =
      if negative then -(magnitude : Int) else magnitude := by
  have hlt' : (magnitude : Int) < 2 ^ n := by exact_mod_cast hlt
  rw [hres, if_congr hiff rfl rfl]
  split
  · exact Signed.wrap_value (by omega) (by omega)
  · exact Signed.wrap_value (by omega) hlt'

theorem setFloatIEEE754_value (arg : UInt32) : (setFloatIEEE754 arg).value =
    if 2 ^ 31 ≤ arg.toNat then
      -(scaled 31 (2 ^ 23 + arg.toNat % 2 ^ 23)
        (floatExponent arg - (127 : Nat) - ((23 : Nat) - (10 : Nat))) : Int)
    else
      scaled 31 (2 ^ 23 + arg.toNat % 2 ^ 23)
        (floatExponent arg - (127 : Nat) - ((23 : Nat) - (10 : Nat))) := by
  have harg : arg.toNat < 2 ^ (1 + 31) := arg.toNat_lt
  have hmantissa : (arg.toNat &&& 0x007FFFFF) ||| 0x00800000 = 2 ^ 23 + arg.toNat % 2 ^ 23 := by
    rw [Nat.or_comm]
    exact (@tag_field 23 1 0x00800000 0x007FFFFF rfl rfl _).trans (Nat.add_comm _ _)
  have hexponent : (arg.toNat >>> 23) &&& 0x000000FF = floatExponent arg := by
    rw [Nat.shiftRight_eq_div_pow]
    exact and_mask 8 rfl _
  have hzero : arg = 0 → (floatExponent arg : Int) - 127 - (23 - HB_FloatShift) ≤ -31 := by
    rintro rfl
    decide
  have hlt : 2 ^ 23 + arg.toNat % 2 ^ 23 < 2 ^ 24 := by omega
  rw [setFloatIEEE754, hmantissa, hexponent]
  exact signed_value (floatRes_eq hzero (by omega) hlt)
    (scaled_lt (lt_trans hlt (by decide)) _) (and_high_mask_ne_zero 1 31 rfl harg)

theorem setDoubleIEEE754_value (arg : UInt64) : (setDoubleIEEE754 arg).value =
    if 2 ^ 63 ≤ arg.toNat then
      -(scaled 63 (2 ^ 52 + arg.toNat % 2 ^ 52)
        (doubleExponent arg - (1023 : Nat) - ((52 : Nat) - (16 : Nat))) : Int)
    else
      scaled 63 (2 ^ 52 + arg.toNat % 2 ^ 52)
        (doubleExponent arg - (1023 : Nat) - ((52 : Nat) - (16 : Nat))) := by
  have harg : arg.toNat < 2 ^ (1 + 63) := arg.toNat_lt
  have hmantissa : (arg.toNat &&& 0x000FFFFFFFFFFFFF) ||| 0x0010000000000000 =
      2 ^ 52 + arg.toNat % 2 ^ 52 := by
    rw [Nat.or_comm]
    exact (@tag_field 52 1 0x0010000000000000 0x000FFFFFFFFFFFFF rfl rfl _).trans (Nat.add_comm _ _)
  have hexponent : (arg.toNat >>> 52) &&& 0x7FF = doubleExponent arg := by
    rw [Nat.shiftRight_eq_div_pow]
    exact and_mask 11 rfl _
  have hzero : arg = 0 → (doubleExponent arg : Int) - 1023 - (52 - HB_DoubleShift) ≤ -63 := by
    rintro rfl
    decide
  have hlt : 2 ^ 52 + arg.toNat % 2 ^ 52 < 2 ^ 53 := by omega
  rw [setDoubleIEEE754, hmantissa, hexponent]
  exact signed_value (doubleRes_eq hzero (by omega) hlt)
    (scaled_lt (lt_trans hlt (by decide)) _) (and_high_mask_ne_zero 1 63 rfl harg)

theorem scaled_overflow_iff {fb n mantissa : Nat} (hlow : 2 ^ fb ≤ mantissa)
    (hhigh : mantissa < 2 ^ (fb + 1)) (hfb : fb < n) (exponent : Int) :
    (0 ≤ exponent ∧ 2 ^ n ≤ mantissa * 2 ^ exponent.toNat) ↔ (n : Int) - fb ≤ exponent := by
  constructor
  · rintro ⟨hpos, hle⟩
    by_contra hlt
    have hpow : mantissa * 2 ^ exponent.toNat < 2 ^ (fb + 1) * 2 ^ (n - fb - 1) :=
      lt_of_lt_of_le (Nat.mul_lt_mul_of_pos_right hhigh (Nat.two_pow_pos _))
        (Nat.mul_le_mul_left _ (Nat.pow_le_pow_right (by decide) (by omega)))
    have hsum : fb + 1 + (n - fb - 1) = n := by omega
    rw [← Nat.pow_add, hsum] at hpow
    omega
  · intro hle
    have hsum : fb + (n - fb) = n := by omega
    have hpow : 2 ^ fb * 2 ^ (n - fb) ≤ mantissa * 2 ^ exponent.toNat :=
      Nat.mul_le_mul hlow (Nat.pow_le_pow_right (by decide) (by omega))
    rw [← Nat.pow_add, hsum] at hpow
    exact ⟨by omega, hpow⟩

theorem setFloatIEEE754_truncates_iff (arg : UInt32) :
    Truncates 10 (floatValue arg) (setFloatIEEE754 arg) ↔
      ¬ (2 ^ 31 ≤ arg.toNat ∧ 148 ≤ floatExponent arg) := by
  have hfraction : arg.toNat % 2 ^ 23 < 2 ^ 23 := Nat.mod_lt _ (by decide)
  rw [floatValue, ieee_truncates_iff _ hfraction (by decide) (by decide)
    (setFloatIEEE754_value arg),
    @scaled_overflow_iff 23 31 _ (by omega) (by omega) (by decide)]
  exact not_congr (and_congr_right fun _ => by omega)

theorem setDoubleIEEE754_truncates_iff (arg : UInt64) :
    Truncates 16 (doubleValue arg) (setDoubleIEEE754 arg) ↔
      ¬ (2 ^ 63 ≤ arg.toNat ∧ 1070 ≤ doubleExponent arg) := by
  have hfraction : arg.toNat % 2 ^ 52 < 2 ^ 52 := Nat.mod_lt _ (by decide)
  rw [doubleValue, ieee_truncates_iff _ hfraction (by decide) (by decide)
    (setDoubleIEEE754_value arg),
    @scaled_overflow_iff 52 63 _ (by omega) (by omega) (by decide)]
  exact not_congr (and_congr_right fun _ => by omega)

/-! ### All operations -/

/-- **When the emulated numbers are saturating fixed-point numbers** -/
theorem emulated_saturates_iff (a b : R4) (a' b' : R8) (arg : UInt32) (arg' : UInt64) :
    Saturates 10 (a.toRat 10 + b.toRat 10) (numericAddR4 a b) ∧
    Saturates 16 (a'.toRat 16 + b'.toRat 16) (numericAddR8 a' b') ∧
    (Saturates 10 (a.toRat 10 - b.toRat 10) (numericSubR4 a b) ↔
      ¬ (a.value = 0 ∧ b = Signed.min 31)) ∧
    (Saturates 16 (a'.toRat 16 - b'.toRat 16) (numericSubR8 a' b') ↔
      ¬ (a'.value = 0 ∧ b' = Signed.min 63)) ∧
    (Saturates 10 (a.toRat 10 * b.toRat 10) (numericMulR4 a b) ↔ MulFineR4 a.value b.value) ∧
    (Saturates 16 (a'.toRat 16 * b'.toRat 16) (numericMulR8 a' b') ↔
      MulFineR8 a'.value b'.value) ∧
    (b.value ≠ 0 → ∃ r, numericDivR4 a b = some r ∧
      (Saturates 10 (a.toRat 10 / b.toRat 10) r ↔ DivFineR4 a.value b.value)) ∧
    (b'.value ≠ 0 → ∃ r, numericDivR8 a' b' = some r ∧
      (Saturates 16 (a'.toRat 16 / b'.toRat 16) r ↔ DivFineR8 a'.value b'.value)) ∧
    (floatExponent arg < 255 →
      (Truncates 10 (floatValue arg) (setFloatIEEE754 arg) ↔
        ¬ (2 ^ 31 ≤ arg.toNat ∧ 148 ≤ floatExponent arg))) ∧
    (doubleExponent arg' < 2047 →
      (Truncates 16 (doubleValue arg') (setDoubleIEEE754 arg') ↔
        ¬ (2 ^ 63 ≤ arg'.toNat ∧ 1070 ≤ doubleExponent arg'))) := by
  refine ⟨checkAdd_saturates a b, checkAdd_saturates a' b', checkSub_saturates_iff a b,
    checkSub_saturates_iff a' b', numericMulR4_saturates_iff a b, numericMulR8_saturates_iff a' b',
    numericDivR4_saturates_iff a b, numericDivR8_saturates_iff a' b',
    fun _ => setFloatIEEE754_truncates_iff arg, fun _ => setDoubleIEEE754_truncates_iff arg'⟩

/-- 1.5 / 0.5, as `R4`, and -0.75 as a float -/
theorem emulated_saturates_example :
    (∃ r, numericDivR4 (Signed.wrap 31 1536) (Signed.wrap 31 512) = some r ∧
      Saturates 10 ((Signed.wrap 31 1536).toRat 10 / (Signed.wrap 31 512).toRat 10) r) ∧
    Truncates 10 (floatValue 0xBF400000) (setFloatIEEE754 0xBF400000) := by
  obtain ⟨-, -, -, -, -, -, hdiv, -, hfloat, -⟩ := emulated_saturates_iff (Signed.wrap 31 1536)
    (Signed.wrap 31 512) (Signed.wrap 63 0) (Signed.wrap 63 0) 0xBF400000 0
  refine ⟨?_, ?_⟩
  · obtain ⟨r, hr, hiff⟩ := hdiv (by decide)
    exact ⟨r, hr, hiff.mpr (Or.inl (by decide))⟩
  · exact (hfloat (by decide)).mpr (by decide)

/-- Half of a half is the largest number, as `R4`, and one divided by two is zero, as `R8`. -/
theorem half_not_saturates :
    numericMulR4 (Signed.wrap 31 512) (Signed.wrap 31 512) = Signed.max 31 ∧
    ¬ Saturates 10 ((Signed.wrap 31 512).toRat 10 * (Signed.wrap 31 512).toRat 10)
      (numericMulR4 (Signed.wrap 31 512) (Signed.wrap 31 512)) ∧
    numericDivR8 (Signed.wrap 63 65536) (Signed.wrap 63 131072) = some (Signed.wrap 63 0) ∧
    ¬ Saturates 16 ((Signed.wrap 63 65536).toRat 16 / (Signed.wrap 63 131072).toRat 16)
      (Signed.wrap 63 0) := by
  have hmul : numericMulR4 (Signed.wrap 31 512) (Signed.wrap 31 512) = Signed.max 31 := by decide
  refine ⟨hmul, fun h => ?_, by decide, fun h => ?_⟩
  · exact absurd ((numericMulR4_saturates_iff _ _).mp h) (by decide)
  · obtain ⟨r, hr, hiff⟩ :=
      numericDivR8_saturates_iff (Signed.wrap 63 65536) (Signed.wrap 63 131072) (by decide)
    have hzero : r = Signed.wrap 63 0 := Option.some.inj (hr.symm.trans (by decide))
    rw [hzero] at hiff
    exact absurd (hiff.mp h) (by decide)

end TinyClr.EmulatedFloat
