import Mathlib.Data.Nat.ModEq
import TinyClr.Core.EmulatedFloat

/-!
# Emulated floating point as saturating arithmetic

For each operation, when its result is the exact one, rounded to a neighbour or kept in range.
Additions always give it.  The tests for an overflow of the other operations are wrong on some
operands, and the division of `R8` loses the fraction.
-/

namespace TinyClr.EmulatedFloat

open TinyClr.Library

/-! ### Sums and differences -/

section Checks

variable {n s : Nat} (a b : Signed n)

theorem checkAdd_saturates :
    Saturates s (a.toRat s + b.toRat s) (checkAdd a b (Signed.wrap n (a.value + b.value))) := by
  have hx : (a.toRat s + b.toRat s) * 2 ^ s = ((a.value + b.value : Int) : ℚ) / ((1 : Int) : ℚ) := by
    rw [Signed.toRat, Signed.toRat]
    push_cast
    field_simp
  have ha := a.le_value
  have ha' := a.value_lt
  have hb := b.le_value
  have hb' := b.value_lt
  have hpow : (2 : Int) ^ (n + 1) = 2 * 2 ^ n := by ring
  rw [saturates_iff Int.one_pos hx]
  have hvalue : (checkAdd a b (Signed.wrap n (a.value + b.value))).value =
      if 2 ^ n ≤ a.value + b.value then 2 ^ n - 1
      else if a.value + b.value < -2 ^ n then -2 ^ n
      else a.value + b.value := by
    rw [checkAdd]
    rcases lt_or_ge (a.value + b.value) (-2 ^ n) with hunder | hlow
    · rw [Signed.wrap_value_of_lt (by omega) hunder, if_neg (by omega), if_pos (by omega),
        if_neg (by omega), if_pos hunder, Signed.min_value]
    rcases lt_or_ge (a.value + b.value) (2 ^ n) with hhigh | hover
    · rw [Signed.wrap_value hlow hhigh, if_neg (by omega), if_neg (by omega), if_neg (by omega),
        if_neg (by omega), Signed.wrap_value hlow hhigh]
    · rw [Signed.wrap_value_of_ge hover (by omega), if_pos (by omega), if_pos hover,
        Signed.max_value]
  rw [hvalue]
  generalize (2 : Int) ^ n = bound at *
  refine ⟨fun hlow hhigh => ?_, fun habove => ?_, fun hbelow => ?_⟩ <;> split <;> omega

theorem checkSub_saturates_iff :
    Saturates s (a.toRat s - b.toRat s) (checkSub a b (Signed.wrap n (a.value - b.value))) ↔
      ¬ (a.value = 0 ∧ b = Signed.min n) := by
  have hx : (a.toRat s - b.toRat s) * 2 ^ s = ((a.value - b.value : Int) : ℚ) / ((1 : Int) : ℚ) := by
    rw [Signed.toRat, Signed.toRat]
    push_cast
    field_simp
  have ha := a.le_value
  have ha' := a.value_lt
  have hb := b.le_value
  have hb' := b.value_lt
  have hpos : (0 : Int) < 2 ^ n := by positivity
  have hpow : (2 : Int) ^ (n + 1) = 2 * 2 ^ n := by ring
  have hmin : b = Signed.min n ↔ b.value = -2 ^ n := ⟨fun h => congrArg Signed.value h, fun h => Signed.ext h⟩
  rw [saturates_iff Int.one_pos hx, hmin]
  have hvalue : (checkSub a b (Signed.wrap n (a.value - b.value))).value =
      if a.value = 0 ∧ b.value = -2 ^ n then -2 ^ n
      else if 2 ^ n ≤ a.value - b.value then 2 ^ n - 1
      else if a.value - b.value < -2 ^ n then -2 ^ n
      else a.value - b.value := by
    rw [checkSub]
    by_cases hzero : a.value = 0 ∧ b.value = -2 ^ n
    · rw [Signed.wrap_value_of_ge (by omega) (by omega), if_neg (by omega), if_neg (by omega),
        if_pos hzero, Signed.wrap_value_of_ge (by omega) (by omega)]
      omega
    rw [if_neg hzero]
    rcases lt_or_ge (a.value - b.value) (-2 ^ n) with hunder | hlow
    · rw [Signed.wrap_value_of_lt (by omega) hunder, if_neg (by omega), if_pos (by omega),
        if_neg (by omega), if_pos hunder, Signed.min_value]
    rcases lt_or_ge (a.value - b.value) (2 ^ n) with hhigh | hover
    · rw [Signed.wrap_value hlow hhigh, if_neg (by omega), if_neg (by omega), if_neg (by omega),
        if_neg (by omega), Signed.wrap_value hlow hhigh]
    · rw [Signed.wrap_value_of_ge hover (by omega), if_pos (by omega), if_pos hover,
        Signed.max_value]
  rw [hvalue]
  generalize (2 : Int) ^ n = bound at *
  constructor
  · rintro ⟨-, habove, -⟩ ⟨hzero, hlow⟩
    rw [if_pos ⟨hzero, hlow⟩] at habove
    omega
  · intro hzero
    rw [if_neg hzero]
    refine ⟨fun hlow hhigh => ?_, fun habove => ?_, fun hbelow => ?_⟩ <;> split <;> omega

/-! ### Products -/

theorem product_eq : a.toRat s * b.toRat s * 2 ^ s =
    ((a.value * b.value : Int) : ℚ) / ((2 ^ s : Int) : ℚ) := by
  rw [Signed.toRat, Signed.toRat]
  push_cast
  field_simp

/-- The test takes a product for an overflow if it has the wrong sign or is closer to zero than a
    factor of that sign. -/
theorem checkMul_value (p : Signed n) (ha : a.value ≠ 0) (hb : b.value ≠ 0) :
    (checkMul a b p).value =
      if 0 < a.value * b.value then
        if p.value < 0 ∨ p.value < a.value ∨ p.value < b.value then 2 ^ n - 1 else p.value
      else if Min.min a.value b.value < p.value then -2 ^ n else p.value := by
  rw [checkMul, if_pos ⟨ha, hb⟩]
  rcases lt_or_gt_of_ne ha with hneg | hpos <;> rcases lt_or_gt_of_ne hb with hneg' | hpos'
  · have hsign : 0 < a.value * b.value := mul_pos_of_neg_of_neg hneg hneg'
    simp only [hneg, hneg', hsign, decide_true, if_true, Bool.not_true, Bool.not_false, true_and,
      Bool.false_eq_true, false_and, if_false]
    split <;> rfl
  · have hsign : ¬ 0 < a.value * b.value := not_lt.mpr (mul_nonpos_of_nonpos_of_nonneg hneg.le hpos'.le)
    have htest : (p.value > 0 ∨ p.value > a.value ∨ p.value > b.value) ↔
        Min.min a.value b.value < p.value := by
      rw [min_eq_left (by omega)]
      omega
    simp only [hneg, not_lt.mpr hpos'.le, hsign, htest, decide_true, if_false, Bool.not_true,
      Bool.false_eq_true, false_and, true_and]
    split <;> rfl
  · have hsign : ¬ 0 < a.value * b.value := not_lt.mpr (mul_nonpos_of_nonneg_of_nonpos hpos.le hneg'.le)
    have htest : (p.value > 0 ∨ p.value > a.value ∨ p.value > b.value) ↔
        Min.min a.value b.value < p.value := by
      rw [min_eq_right (by omega)]
      omega
    simp only [not_lt.mpr hpos.le, hneg', hsign, htest, decide_false, if_true, if_false,
      Bool.not_false, Bool.not_true, Bool.false_eq_true, false_and, true_and]
    split <;> rfl
  · have hsign : 0 < a.value * b.value := mul_pos hpos hpos'
    simp only [not_lt.mpr hpos.le, not_lt.mpr hpos'.le, hsign, decide_false, if_true, if_false,
      Bool.not_false, true_and, Bool.false_eq_true, false_and]
    split <;> rfl

variable {a b}

theorem checkMul_pos_iff {p : Signed n} (hs : (2 : Int) ^ s ≤ 2 ^ n - 1)
    (hpos : 0 < a.value * b.value) (hrange : a.value * b.value ≤ (2 ^ n - 1) * 2 ^ s)
    (hfloor : p.value * 2 ^ s ≤ a.value * b.value) (hp : 0 ≤ p.value)
    (hnext : a.value * b.value < p.value * 2 ^ s + 2 ^ s) :
    Saturates s (a.toRat s * b.toRat s) (checkMul a b p) ↔
      a.value < 0 ∨ 2 ^ s ≤ a.value ∧ 2 ^ s ≤ b.value := by
  have ha : a.value ≠ 0 := left_ne_zero_of_mul hpos.ne'
  have hb : b.value ≠ 0 := right_ne_zero_of_mul hpos.ne'
  have hscale : (0 : Int) < 2 ^ s := by positivity
  have ha₂ := a.value_lt
  have hb₂ := b.value_lt
  rw [saturates_iff hscale (product_eq a b), checkMul_value a b p ha hb, if_pos hpos]
  generalize (2 : Int) ^ s = D at *
  generalize (2 : Int) ^ n = bound at *
  rcases pos_and_pos_or_neg_and_neg_of_mul_pos hpos with ⟨hapos, hbpos⟩ | ⟨haneg, hbneg⟩
  · by_cases hfine : D ≤ a.value ∧ D ≤ b.value
    · have hpa : a.value ≤ p.value := by
        by_contra hlt
        nlinarith [mul_le_mul_of_nonneg_left hfine.2 hapos.le]
      have hpb : b.value ≤ p.value := by
        by_contra hlt
        nlinarith [mul_le_mul_of_nonneg_left hfine.1 hbpos.le]
      rw [if_neg (by omega)]
      refine iff_of_true ⟨fun _ _ => ⟨by omega, by omega⟩, fun habove => by omega,
        fun hbelow => ?_⟩ (Or.inr hfine)
      nlinarith
    · refine iff_of_false (fun h => ?_) fun h => hfine (h.resolve_left (by omega))
      have hlow : -bound * D ≤ a.value * b.value := by nlinarith
      obtain ⟨hupper, -⟩ := h.1 hlow hrange
      have htest : p.value < 0 ∨ p.value < a.value ∨ p.value < b.value := by
        by_contra htest
        rw [not_or, not_or, not_lt, not_lt, not_lt] at htest
        rcases not_and_or.mp hfine with hlt | hlt
        · nlinarith
        · nlinarith
      rw [if_pos htest] at hupper
      have hsmall : a.value * b.value ≤ (bound - 1) * (D - 1) := by
        rcases not_and_or.mp hfine with hlt | hlt
        · nlinarith
        · nlinarith
      nlinarith
  · rw [if_neg (by omega)]
    refine iff_of_true ⟨fun _ _ => ⟨by omega, by omega⟩, fun habove => by omega, fun hbelow => ?_⟩
      (Or.inl haneg)
    nlinarith

theorem checkMul_neg_iff {p : Signed n} (hs : (2 : Int) ^ s ≤ 2 ^ n - 1)
    (hneg : a.value * b.value < 0) (hrange : -2 ^ n * 2 ^ s ≤ a.value * b.value)
    (hlow : a.value * b.value - p.value * 2 ^ s < 2 ^ s)
    (hhigh : p.value * 2 ^ s - a.value * b.value < 2 ^ s) :
    Saturates s (a.toRat s * b.toRat s) (checkMul a b p) ↔ p.value ≤ Min.min a.value b.value := by
  have ha : a.value ≠ 0 := left_ne_zero_of_mul hneg.ne
  have hb : b.value ≠ 0 := right_ne_zero_of_mul hneg.ne
  have hscale : (0 : Int) < 2 ^ s := by positivity
  have ha₁ := a.le_value
  have hb₁ := b.le_value
  have hproduct : a.value * b.value = Min.min a.value b.value * Max.max a.value b.value :=
    (min_mul_max _ _).symm
  have hmin : -2 ^ n ≤ Min.min a.value b.value := le_min ha₁ hb₁
  have hmax : 0 < Max.max a.value b.value := by
    rcases lt_or_gt_of_ne ha with haneg | hapos
    · exact lt_max_of_lt_right (pos_of_mul_neg_right hneg haneg.le)
    · exact lt_max_of_lt_left hapos
  rw [saturates_iff hscale (product_eq a b), checkMul_value a b p ha hb, if_neg hneg.le.not_gt]
  rw [hproduct] at hneg hrange hlow hhigh ⊢
  generalize Min.min a.value b.value = least at *
  generalize Max.max a.value b.value = most at *
  generalize (2 : Int) ^ s = D at *
  generalize (2 : Int) ^ n = bound at *
  by_cases hfine : p.value ≤ least
  · rw [if_neg (by omega)]
    refine iff_of_true ⟨fun _ _ => ⟨hhigh, hlow⟩, fun habove => ?_, fun hbelow => by omega⟩ hfine
    nlinarith
  · refine iff_of_false (fun h => ?_) hfine
    have hbound : least * most ≤ (bound - 1) * D := by nlinarith
    obtain ⟨-, hlower⟩ := h.1 hrange hbound
    rw [if_pos (by omega)] at hlower
    have hleast : least < 0 := neg_of_mul_neg_left hneg hmax.le
    have hmost : most < D := by
      by_contra hge
      have hfirst := mul_le_mul_of_nonneg_right (Int.add_one_le_iff.mpr (not_le.mp hfine)) hscale.le
      have hsecond := mul_le_mul_of_nonpos_left (not_lt.mp hge) hleast.le
      linarith
    nlinarith

theorem checkMul_above_iff {p : Signed n} (habove : (2 ^ n - 1) * 2 ^ s < a.value * b.value) :
    Saturates s (a.toRat s * b.toRat s) (checkMul a b p) ↔
      p.value < 0 ∨ p.value < a.value ∨ p.value < b.value ∨ p.value = 2 ^ n - 1 := by
  have hscale : (0 : Int) < 2 ^ s := by positivity
  have hbound : (0 : Int) < 2 ^ n := by positivity
  have hzero : (0 : Int) ≤ (2 ^ n - 1) * 2 ^ s := mul_nonneg (by omega) hscale.le
  have hpos : 0 < a.value * b.value := lt_of_le_of_lt hzero habove
  have hunder : ¬ a.value * b.value < -2 ^ n * 2 ^ s := by nlinarith
  rw [saturates_iff hscale (product_eq a b), checkMul_value a b p (left_ne_zero_of_mul hpos.ne')
    (right_ne_zero_of_mul hpos.ne'), if_pos hpos]
  constructor
  · rintro ⟨-, hmax, -⟩
    have hmax := hmax habove
    split at hmax <;> omega
  · intro h
    refine ⟨fun _ hle => absurd habove (not_lt.mpr hle), fun _ => ?_, fun hlt => absurd hlt hunder⟩
    split <;> omega

theorem checkMul_below_iff {p : Signed n} (hbelow : a.value * b.value < -2 ^ n * 2 ^ s) :
    Saturates s (a.toRat s * b.toRat s) (checkMul a b p) ↔
      Min.min a.value b.value < p.value ∨ p.value = -2 ^ n := by
  have hscale : (0 : Int) < 2 ^ s := by positivity
  have hbound : (0 : Int) < 2 ^ n := by positivity
  have hzero : -2 ^ n * 2 ^ s ≤ (0 : Int) := by nlinarith
  have hneg : a.value * b.value < 0 := lt_of_lt_of_le hbelow hzero
  have hover : ¬ (2 ^ n - 1) * 2 ^ s < a.value * b.value := by nlinarith
  rw [saturates_iff hscale (product_eq a b), checkMul_value a b p (left_ne_zero_of_mul hneg.ne)
    (right_ne_zero_of_mul hneg.ne), if_neg hneg.le.not_gt]
  constructor
  · rintro ⟨-, -, hmin⟩
    have hmin := hmin hbelow
    split at hmin <;> omega
  · intro h
    refine ⟨fun hle _ => absurd hbelow (not_lt.mpr hle), fun hgt => absurd hgt hover, fun _ => ?_⟩
    split <;> omega

theorem checkMul_zero (hzero : a.value = 0 ∨ b.value = 0) {p : Signed n} (hp : p.value = 0) :
    Saturates s (a.toRat s * b.toRat s) (checkMul a b p) := by
  have hscale : (0 : Int) < 2 ^ s := by positivity
  have hbound : (0 : Int) < 2 ^ n := by positivity
  have hproduct : a.value * b.value = 0 := mul_eq_zero.mpr hzero
  have hvalue : checkMul a b p = p := if_neg fun hne => hzero.elim hne.1 hne.2
  rw [saturates_iff hscale (product_eq a b), hvalue, hp, hproduct]
  refine ⟨fun _ _ => ⟨by omega, by omega⟩, fun habove => ?_, fun hbelow => ?_⟩ <;> nlinarith

end Checks

def ProductInRange (n s : Nat) (product : Int) : Prop :=
  -2 ^ n * 2 ^ s ≤ product ∧ product ≤ (2 ^ n - 1) * 2 ^ s

instance (n s : Nat) (product : Int) : Decidable (ProductInRange n s product) :=
  inferInstanceAs (Decidable (_ ∧ _))

/-- A product that is not in range is taken for one that is not, by what is left of it. -/
def Caught (n : Nat) (a b left : Int) : Prop :=
  0 < a * b ∧ (left < 0 ∨ left < a ∨ left < b ∨ left = 2 ^ n - 1) ∨
    a * b < 0 ∧ (Min.min a b < left ∨ left = -2 ^ n)

instance (n : Nat) (a b left : Int) : Decidable (Caught n a b left) :=
  inferInstanceAs (Decidable (_ ∨ _))

/-- When a product of two `R4` is the exact one: in range, if both factors are negative, both are
    at least one, or the test does not see that the positive one is less than one; out of range, if
    it is caught -/
def MulFineR4 (a b : Int) : Prop :=
  a = 0 ∨ b = 0 ∨
    ProductInRange 31 10 (a * b) ∧
      (0 < a * b ∧ (a < 0 ∨ 2 ^ 10 ≤ a ∧ 2 ^ 10 ≤ b) ∨
        a * b < 0 ∧ a * b < (Min.min a b + 1) * 2 ^ 10) ∨
    ¬ ProductInRange 31 10 (a * b) ∧ Caught 31 a b (Signed.wrap 31 (a * b / 2 ^ 10)).value

instance (a b : Int) : Decidable (MulFineR4 a b) := inferInstanceAs (Decidable (_ ∨ _))

section Products

theorem checkMul_caught_iff {n s : Nat} {a b p : Signed n}
    (hout : ¬ ProductInRange n s (a.value * b.value)) :
    Saturates s (a.toRat s * b.toRat s) (checkMul a b p) ↔
      Caught n a.value b.value p.value := by
  have hscale : (0 : Int) < 2 ^ s := by positivity
  have hbound : (0 : Int) < 2 ^ n := by positivity
  rcases not_and_or.mp hout with hbelow | habove
  · have hneg : a.value * b.value < 0 := by nlinarith
    rw [checkMul_below_iff (not_le.mp hbelow)]
    constructor
    · exact fun h => Or.inr ⟨hneg, h⟩
    · rintro (⟨hpos, -⟩ | ⟨-, h⟩)
      · exact absurd hpos hneg.le.not_gt
      · exact h
  · have hpos : 0 < a.value * b.value := by nlinarith
    rw [checkMul_above_iff (not_le.mp habove)]
    constructor
    · exact fun h => Or.inl ⟨hpos, h⟩
    · rintro (⟨-, h⟩ | ⟨hneg, -⟩)
      · exact h
      · exact absurd hpos hneg.le.not_gt

theorem mul_value_R4 (a b : R4) :
    a.mul b = Signed.wrap 31 (a.value * b.value / 2 ^ 10) := by
  have ha := a.le_value
  have ha' := a.value_lt
  have hb := b.le_value
  have hb' := b.value_lt
  have habs : |a.value * b.value| ≤ 2 ^ 31 * 2 ^ 31 := by
    rw [abs_mul]
    exact mul_le_mul (abs_le.mpr ⟨ha, ha'.le⟩) (abs_le.mpr ⟨hb, hb'.le⟩) (abs_nonneg _) (by positivity)
  obtain ⟨hlow, hhigh⟩ := abs_le.mp habs
  rw [R4.mul, Signed.wrap_value (by omega) (by omega)]
  rfl

theorem numericMulR4_saturates_iff (a b : R4) :
    Saturates 10 (a.toRat 10 * b.toRat 10) (numericMulR4 a b) ↔ MulFineR4 a.value b.value := by
  rw [numericMulR4, mul_value_R4]
  by_cases hzero : a.value = 0 ∨ b.value = 0
  · have hproduct : a.value * b.value = 0 := mul_eq_zero.mpr hzero
    refine iff_of_true (checkMul_zero hzero ?_) (hzero.imp_right Or.inl)
    rw [hproduct, Signed.wrap_value (by norm_num) (by norm_num)]
    rfl
  have hne : a.value * b.value ≠ 0 := fun heq => hzero (mul_eq_zero.mp heq)
  have hfine : MulFineR4 a.value b.value ↔
      ProductInRange 31 10 (a.value * b.value) ∧
        (0 < a.value * b.value ∧ (a.value < 0 ∨ 2 ^ 10 ≤ a.value ∧ 2 ^ 10 ≤ b.value) ∨
          a.value * b.value < 0 ∧ a.value * b.value < (Min.min a.value b.value + 1) * 2 ^ 10) ∨
      ¬ ProductInRange 31 10 (a.value * b.value) ∧
        Caught 31 a.value b.value (Signed.wrap 31 (a.value * b.value / 2 ^ 10)).value :=
    ⟨fun h => (h.resolve_left fun h₀ => hzero (Or.inl h₀)).resolve_left fun h₀ => hzero (Or.inr h₀),
      fun h => Or.inr (Or.inr h)⟩
  rw [hfine]
  by_cases hrange : ProductInRange 31 10 (a.value * b.value)
  · obtain ⟨hlow, hhigh⟩ := hrange
    have hvalue : (Signed.wrap 31 (a.value * b.value / 2 ^ 10)).value = a.value * b.value / 2 ^ 10 :=
      Signed.wrap_value (by omega) (by omega)
    rcases lt_or_gt_of_ne hne with hneg | hpos
    · rw [checkMul_neg_iff (by norm_num) hneg hlow (by rw [hvalue]; omega) (by rw [hvalue]; omega),
        hvalue]
      have hfloor : a.value * b.value / 2 ^ 10 ≤ Min.min a.value b.value ↔
          a.value * b.value < (Min.min a.value b.value + 1) * 2 ^ 10 := by
        constructor <;> intro h <;> omega
      rw [hfloor]
      constructor
      · exact fun h => Or.inl ⟨⟨hlow, hhigh⟩, Or.inr ⟨hneg, h⟩⟩
      · rintro (⟨-, ⟨hpos, -⟩ | ⟨-, h⟩⟩ | ⟨hout, -⟩)
        · exact absurd hpos hneg.le.not_gt
        · exact h
        · exact absurd ⟨hlow, hhigh⟩ hout
    · rw [checkMul_pos_iff (by norm_num) hpos hhigh (by rw [hvalue]; omega) (by rw [hvalue]; omega)
        (by rw [hvalue]; omega)]
      constructor
      · exact fun h => Or.inl ⟨⟨hlow, hhigh⟩, Or.inl ⟨hpos, h⟩⟩
      · rintro (⟨-, ⟨-, h⟩ | ⟨hneg, -⟩⟩ | ⟨hout, -⟩)
        · exact h
        · exact absurd hpos hneg.le.not_gt
        · exact absurd ⟨hlow, hhigh⟩ hout
  · rw [checkMul_caught_iff hrange]
    exact ⟨fun h => Or.inr ⟨hrange, h⟩, fun h => (h.resolve_left fun hin => hrange hin.1).2⟩

/-- The magnitude that `ACCUMULATE` adds up: the product with the lowest part of the second factor
    is cut off at 64 bits before it is shifted. -/
def accumulated (op1 op2 : Nat) : Nat :=
  op1 * (op2 / 2 ^ 16) + op1 * (op2 % 2 ^ 16) % 2 ^ 64 / 2 ^ 16

theorem accumulate_zero (op1 op2 : Nat) :
    R8.accumulate op1 op2 0 = op1 * (op2 % 2 ^ 16) % 2 ^ 64 / 2 ^ 16 := by
  have hshift : ¬ 16 * 0 ≥ HB_DoubleShift := by decide
  have hzero : op2 >>> (16 * 0) = op2 := rfl
  rw [R8.accumulate, if_neg hshift, hzero, Nat.shiftRight_eq_div_pow]
  rfl

theorem accumulate_modEq (op1 op2 k : Nat) :
    R8.accumulate op1 op2 (k + 1) ≡
      op1 * (op2 / 2 ^ (16 * (k + 1)) % 2 ^ 16) * 2 ^ (16 * k) [MOD 2 ^ 64] := by
  have hshift : 16 * (k + 1) ≥ HB_DoubleShift := Nat.le_mul_of_pos_right 16 (Nat.succ_pos k)
  have hsub : 16 * (k + 1) - HB_DoubleShift = 16 * k := by
    rw [HB_DoubleShift]
    omega
  rw [R8.accumulate, if_pos hshift, hsub, Nat.shiftRight_eq_div_pow, Nat.shiftLeft_eq]
  exact (Nat.mod_modEq _ _).trans ((Nat.mod_modEq _ _).mul_right _)

theorem accumulate_sum (op1 op2 : Nat) (hop2 : op2 < 2 ^ 64) :
    (R8.accumulate op1 op2 0 + R8.accumulate op1 op2 1 + R8.accumulate op1 op2 2 +
      R8.accumulate op1 op2 3) % 2 ^ 64 = accumulated op1 op2 % 2 ^ 64 := by
  have hop2' : op2 / 2 ^ 16 = op2 / 2 ^ 16 % 2 ^ 16 + op2 / 2 ^ 32 % 2 ^ 16 * 2 ^ 16 +
      op2 / 2 ^ 48 % 2 ^ 16 * 2 ^ 32 := by omega
  have hparts : op1 * (op2 / 2 ^ 16) = op1 * (op2 / 2 ^ 16 % 2 ^ 16) * 2 ^ 0 +
      op1 * (op2 / 2 ^ 32 % 2 ^ 16) * 2 ^ 16 + op1 * (op2 / 2 ^ 48 % 2 ^ 16) * 2 ^ 32 := by
    rw [pow_zero, mul_one, mul_assoc, mul_assoc op1 _ (2 ^ 32), ← mul_add, ← mul_add, ← hop2']
  have hsum := (((accumulate_modEq op1 op2 0).add_left (R8.accumulate op1 op2 0)).add
    (accumulate_modEq op1 op2 1)).add (accumulate_modEq op1 op2 2)
  have hassoc : accumulated op1 op2 = R8.accumulate op1 op2 0 +
      op1 * (op2 / 2 ^ 16 % 2 ^ 16) * 2 ^ 0 + op1 * (op2 / 2 ^ 32 % 2 ^ 16) * 2 ^ 16 +
      op1 * (op2 / 2 ^ 48 % 2 ^ 16) * 2 ^ 32 := by
    rw [accumulated, hparts, accumulate_zero, add_comm, add_assoc, add_assoc, add_assoc]
  rw [hassoc]
  exact hsum

variable {op1 op2 : Nat}

theorem accumulated_eq_zero (h : op1 = 0 ∨ op2 = 0) : accumulated op1 op2 = 0 := by
  rcases h with rfl | rfl <;> simp [accumulated]

theorem mul_value_R8 (a b : R8) :
    a.mul b = Signed.wrap 63
      (a.value.sign * b.value.sign * accumulated a.value.natAbs b.value.natAbs) := by
  have hop2 : b.value.natAbs < 2 ^ 64 := by
    have hb := b.le_value
    have hb' := b.value_lt
    omega
  have hres : ∀ res : Nat, res = accumulated a.value.natAbs b.value.natAbs % 2 ^ 64 →
      Signed.wrap 63 res = Signed.wrap 63 (accumulated a.value.natAbs b.value.natAbs) := by
    rintro res rfl
    push_cast
    exact Signed.wrap_emod _
  rw [R8.mul, hres _ (accumulate_sum _ _ hop2)]
  generalize hmagnitude : accumulated a.value.natAbs b.value.natAbs = magnitude
  by_cases hzero : a.value = 0 ∨ b.value = 0
  · have hnone : magnitude = 0 := by
      rw [← hmagnitude]
      exact accumulated_eq_zero (hzero.imp Int.natAbs_eq_zero.mpr Int.natAbs_eq_zero.mpr)
    have hvalue : (Signed.wrap 63 ((0 : Nat) : Int)).value = 0 := rfl
    rw [hnone, if_neg fun h => h.2 hvalue, Nat.cast_zero, mul_zero]
  obtain ⟨ha, hb⟩ := not_or.mp hzero
  have hsign : a.value.sign * b.value.sign =
      if decide (a.value < 0) != decide (b.value < 0) then -1 else 1 := by
    rcases lt_or_gt_of_ne ha with ha | ha <;> rcases lt_or_gt_of_ne hb with hb | hb
    · simp [Int.sign_eq_neg_one_of_neg ha, Int.sign_eq_neg_one_of_neg hb, ha, hb]
    · simp [Int.sign_eq_neg_one_of_neg ha, Int.sign_eq_one_of_pos hb, ha, not_lt.mpr hb.le]
    · simp [Int.sign_eq_one_of_pos ha, Int.sign_eq_neg_one_of_neg hb, not_lt.mpr ha.le, hb]
    · simp [Int.sign_eq_one_of_pos ha, Int.sign_eq_one_of_pos hb, not_lt.mpr ha.le, not_lt.mpr hb.le]
  rw [hsign]
  cases decide (a.value < 0) != decide (b.value < 0) with
  | false =>
    rw [if_neg fun h => Bool.noConfusion h.1, if_neg Bool.false_ne_true, one_mul]
  | true =>
    rw [if_pos rfl, neg_one_mul]
    by_cases hvalue : (Signed.wrap 63 (magnitude : Int)).value = 0
    · rw [if_neg fun h => h.2 hvalue, ← Signed.wrap_neg_wrap, hvalue]
      ext
      rw [hvalue]
      rfl
    · rw [if_pos ⟨rfl, hvalue⟩, Signed.wrap_neg_wrap]

theorem accumulated_floor {op1 op2 : Nat} (hfits : op1 * (op2 % 2 ^ 16) < 2 ^ 64) :
    accumulated op1 op2 = op1 * op2 / 2 ^ 16 := by
  have hsplit : op1 * op2 = op1 * (op2 / 2 ^ 16) * 2 ^ 16 + op1 * (op2 % 2 ^ 16) := by
    calc op1 * op2 = op1 * (2 ^ 16 * (op2 / 2 ^ 16) + op2 % 2 ^ 16) := by rw [Nat.div_add_mod]
      _ = _ := by ring
  rw [accumulated, hsplit, Nat.mod_eq_of_lt hfits]
  omega

theorem accumulated_short (hcut : 2 ^ 64 ≤ op1 * (op2 % 2 ^ 16)) :
    (accumulated op1 op2 + 2 ^ 48) * 2 ^ 16 ≤ op1 * op2 := by
  have hsplit : op1 * op2 = op1 * (op2 / 2 ^ 16) * 2 ^ 16 + op1 * (op2 % 2 ^ 16) := by
    calc op1 * op2 = op1 * (2 ^ 16 * (op2 / 2 ^ 16) + op2 % 2 ^ 16) := by rw [Nat.div_add_mod]
      _ = _ := by ring
  rw [accumulated, hsplit]
  generalize op1 * (op2 % 2 ^ 16) = low at *
  generalize op1 * (op2 / 2 ^ 16) = high at *
  have hlow : low % 2 ^ 64 / 2 ^ 16 * 2 ^ 16 + 2 ^ 48 * 2 ^ 16 ≤ low :=
    calc low % 2 ^ 64 / 2 ^ 16 * 2 ^ 16 + 2 ^ 48 * 2 ^ 16
        ≤ low % 2 ^ 64 + 2 ^ 64 * 1 := Nat.add_le_add (Nat.div_mul_le_self _ _) (Nat.le_of_eq rfl)
      _ ≤ low % 2 ^ 64 + 2 ^ 64 * (low / 2 ^ 64) :=
        Nat.add_le_add_left (Nat.mul_le_mul_left _ (Nat.div_pos hcut (Nat.two_pow_pos _))) _
      _ = low := Nat.mod_add_div _ _
  rw [Nat.add_assoc, Nat.add_mul, Nat.add_mul]
  exact Nat.add_le_add_left hlow _

/-- The magnitude is still no smaller than a factor, unless the second is less than one. -/
theorem le_accumulated (hcut : 2 ^ 64 ≤ op1 * (op2 % 2 ^ 16))
    (hone : 2 ^ 16 ≤ op2) : op1 ≤ accumulated op1 op2 ∧ op2 ≤ accumulated op1 op2 := by
  have hquotient : 1 ≤ op2 / 2 ^ 16 := by omega
  have hop1 : 2 ^ 48 ≤ op1 := by
    have hrest : op2 % 2 ^ 16 < 2 ^ 16 := Nat.mod_lt _ (by decide)
    by_contra hlt
    have hmul : op1 * (op2 % 2 ^ 16) ≤ (2 ^ 48 - 1) * 2 ^ 16 :=
      Nat.mul_le_mul (by omega) hrest.le
    omega
  have hfirst : op1 * 1 ≤ op1 * (op2 / 2 ^ 16) := Nat.mul_le_mul_left op1 hquotient
  have hsecond : 2 ^ 48 * (op2 / 2 ^ 16) ≤ op1 * (op2 / 2 ^ 16) := Nat.mul_le_mul_right _ hop1
  rw [accumulated]
  constructor <;> omega

/-- When a product of two `R8` is the exact one: as for `R4`, and in range only if nothing is cut
    off -/
def MulFineR8 (a b : Int) : Prop :=
  a = 0 ∨ b = 0 ∨
    ProductInRange 63 16 (a * b) ∧ a.natAbs * (b.natAbs % 2 ^ 16) < 2 ^ 64 ∧
      (0 < a * b ∧ (a < 0 ∨ 2 ^ 16 ≤ a ∧ 2 ^ 16 ≤ b) ∨ a * b < 0 ∧ 2 ^ 16 ≤ Max.max a b) ∨
    ¬ ProductInRange 63 16 (a * b) ∧
      Caught 63 a b (Signed.wrap 63 (a.sign * b.sign * accumulated a.natAbs b.natAbs)).value

instance (a b : Int) : Decidable (MulFineR8 a b) := inferInstanceAs (Decidable (_ ∨ _))

theorem neg_floor_le_min_iff {a b scale : Int} (hscale : 0 < scale) (hneg : a * b < 0) :
    -((a * b).natAbs / scale) ≤ Min.min a b ↔ scale ≤ Max.max a b := by
  have hproduct : a * b = Min.min a b * Max.max a b := (min_mul_max _ _).symm
  have hmax : 0 < Max.max a b := by
    rcases lt_or_gt_of_ne (left_ne_zero_of_mul hneg.ne) with ha | ha
    · exact lt_max_of_lt_right (pos_of_mul_neg_right hneg ha.le)
    · exact lt_max_of_lt_left ha
  have habs : ((a * b).natAbs : Int) = -(a * b) := Int.ofNat_natAbs_of_nonpos hneg.le
  rw [hproduct] at hneg habs ⊢
  have hmin : Min.min a b < 0 := neg_of_mul_neg_left hneg hmax.le
  rw [habs, neg_le, Int.le_ediv_iff_mul_le hscale, neg_mul, neg_le_neg_iff]
  exact mul_le_mul_left_of_neg hmin

/-- Where something is cut off, neither what is left nor a bound is near the product. -/
theorem not_saturates_of_cut {a b p : R8} (hrange : ProductInRange 63 16 (a.value * b.value))
    (hcut : 2 ^ 64 ≤ a.value.natAbs * (b.value.natAbs % 2 ^ 16))
    (hp : p.value =
      if 0 < a.value * b.value then (accumulated a.value.natAbs b.value.natAbs : Int)
      else -(accumulated a.value.natAbs b.value.natAbs : Int)) :
    ¬ Saturates 16 (a.toRat 16 * b.toRat 16) (checkMul a b p) := by
  intro h
  obtain ⟨hlow, hhigh⟩ := hrange
  have hne : a.value * b.value ≠ 0 := by
    intro hzero
    rcases mul_eq_zero.mp hzero with hzero | hzero <;> rw [hzero] at hcut <;> simp at hcut
  have hshort := accumulated_short hcut
  have hle := le_accumulated hcut
  have ha := a.le_value
  have ha' := a.value_lt
  have hb := b.le_value
  have hb' := b.value_lt
  have habs : (a.value.natAbs * b.value.natAbs : Nat) = (a.value * b.value).natAbs :=
    (Int.natAbs_mul _ _).symm
  have hsmall : ¬ 2 ^ 16 ≤ b.value.natAbs →
      a.value.natAbs * b.value.natAbs ≤ 2 ^ 63 * (2 ^ 16 - 1) := fun hlt =>
    Nat.mul_le_mul (by omega) (by omega)
  rw [saturates_iff (by norm_num) (product_eq a b), checkMul_value a b p
    (left_ne_zero_of_mul hne) (right_ne_zero_of_mul hne)] at h
  obtain ⟨hupper, hlower⟩ := h.1 hlow hhigh
  rw [habs] at hshort hsmall
  generalize accumulated a.value.natAbs b.value.natAbs = magnitude at *
  by_cases hpos : 0 < a.value * b.value
  · rw [if_pos hpos] at hp hupper hlower
    split at hupper
    next htest =>
      have hlt : ¬ 2 ^ 16 ≤ b.value.natAbs := by
        intro hone
        have hone := hle hone
        omega
      have hsmall := hsmall hlt
      omega
    next htest =>
      rw [if_neg htest] at hlower
      omega
  · rw [if_neg hpos] at hp hupper hlower
    split at hlower
    next htest =>
      have hlt : ¬ 2 ^ 16 ≤ b.value.natAbs := by
        intro hone
        have hone := hle hone
        omega
      have hsmall := hsmall hlt
      omega
    next htest =>
      rw [if_neg htest] at hupper
      omega

theorem numericMulR8_saturates_iff (a b : R8) :
    Saturates 16 (a.toRat 16 * b.toRat 16) (numericMulR8 a b) ↔ MulFineR8 a.value b.value := by
  rw [numericMulR8, mul_value_R8]
  by_cases hzero : a.value = 0 ∨ b.value = 0
  · refine iff_of_true (checkMul_zero hzero ?_) (hzero.imp_right Or.inl)
    have hnone := accumulated_eq_zero
      (hzero.imp Int.natAbs_eq_zero.mpr Int.natAbs_eq_zero.mpr)
    rw [hnone, Nat.cast_zero, mul_zero]
    rfl
  have hne : a.value * b.value ≠ 0 := fun heq => hzero (mul_eq_zero.mp heq)
  by_cases hrange : ProductInRange 63 16 (a.value * b.value)
  swap
  · rw [checkMul_caught_iff hrange]
    constructor
    · exact fun h => Or.inr (Or.inr (Or.inr ⟨hrange, h⟩))
    · rintro (h | h | ⟨hin, -⟩ | ⟨-, h⟩)
      · exact absurd (Or.inl h) hzero
      · exact absurd (Or.inr h) hzero
      · exact absurd hin hrange
      · exact h
  obtain ⟨hlow, hhigh⟩ := hrange
  have habs : (a.value.natAbs * b.value.natAbs : Nat) = (a.value * b.value).natAbs :=
    (Int.natAbs_mul _ _).symm
  have hfloor := @accumulated_floor a.value.natAbs b.value.natAbs
  have hle : accumulated a.value.natAbs b.value.natAbs * 2 ^ 16 ≤ (a.value * b.value).natAbs := by
    rw [← habs]
    rcases Nat.lt_or_ge (a.value.natAbs * (b.value.natAbs % 2 ^ 16)) (2 ^ 64) with hfits | hcut
    · rw [hfloor hfits]
      exact Nat.div_mul_le_self _ _
    · exact le_trans (Nat.mul_le_mul_right _ (Nat.le_add_right _ _)) (accumulated_short hcut)
  have hsign : a.value.sign * b.value.sign = if 0 < a.value * b.value then 1 else -1 := by
    rw [← Int.sign_mul]
    rcases lt_or_gt_of_ne hne with hneg | hpos
    · rw [if_neg hneg.le.not_gt, Int.sign_eq_neg_one_of_neg hneg]
    · rw [if_pos hpos, Int.sign_eq_one_of_pos hpos]
  have hvalue : (Signed.wrap 63 (a.value.sign * b.value.sign *
      accumulated a.value.natAbs b.value.natAbs)).value =
      if 0 < a.value * b.value then (accumulated a.value.natAbs b.value.natAbs : Int)
      else -(accumulated a.value.natAbs b.value.natAbs : Int) := by
    rw [hsign]
    split
    · rw [one_mul, Signed.wrap_value (by omega) (by omega)]
    · rw [neg_one_mul, Signed.wrap_value (by omega) (by omega)]
  have hin : MulFineR8 a.value b.value ↔
      a.value.natAbs * (b.value.natAbs % 2 ^ 16) < 2 ^ 64 ∧
        (0 < a.value * b.value ∧ (a.value < 0 ∨ 2 ^ 16 ≤ a.value ∧ 2 ^ 16 ≤ b.value) ∨
          a.value * b.value < 0 ∧ 2 ^ 16 ≤ Max.max a.value b.value) := by
    constructor
    · rintro (h | h | ⟨-, h⟩ | ⟨hout, -⟩)
      · exact absurd (Or.inl h) hzero
      · exact absurd (Or.inr h) hzero
      · exact h
      · exact absurd ⟨hlow, hhigh⟩ hout
    · exact fun h => Or.inr (Or.inr (Or.inl ⟨⟨hlow, hhigh⟩, h⟩))
  rw [hin]
  generalize Signed.wrap 63 (a.value.sign * b.value.sign *
    accumulated a.value.natAbs b.value.natAbs) = p at *
  rcases Nat.lt_or_ge (a.value.natAbs * (b.value.natAbs % 2 ^ 16)) (2 ^ 64) with hfits | hcut
  · have hfloor := hfloor hfits
    rw [habs] at hfloor
    rcases lt_or_gt_of_ne hne with hneg | hpos
    · rw [if_neg hneg.le.not_gt] at hvalue
      rw [checkMul_neg_iff (by norm_num) hneg hlow (by rw [hvalue]; omega) (by rw [hvalue]; omega),
        hvalue, hfloor]
      have hiff := @neg_floor_le_min_iff a.value b.value (2 ^ 16) (by norm_num) hneg
      push_cast at hiff ⊢
      rw [hiff]
      constructor
      · exact fun h => ⟨hfits, Or.inr ⟨hneg, h⟩⟩
      · rintro ⟨-, ⟨hpos, -⟩ | ⟨-, h⟩⟩
        · exact absurd hpos hneg.le.not_gt
        · exact h
    · rw [if_pos hpos] at hvalue
      rw [checkMul_pos_iff (by norm_num) hpos hhigh (by rw [hvalue]; omega) (by rw [hvalue]; omega)
        (by rw [hvalue]; omega)]
      constructor
      · exact fun h => ⟨hfits, Or.inl ⟨hpos, h⟩⟩
      · rintro ⟨-, ⟨-, h⟩ | ⟨hneg, -⟩⟩
        · exact h
        · exact absurd hpos hneg.le.not_gt
  · exact iff_of_false (not_saturates_of_cut ⟨hlow, hhigh⟩ hcut hvalue) fun h =>
      absurd h.1 (not_lt.mpr hcut)

end Products

/-! ### Quotients -/

theorem tdiv_eq_tdiv_abs (num : Int) {b : Int} (hb : b ≠ 0) :
    num.tdiv b = (num * b.sign).tdiv |b| := by
  rcases lt_or_gt_of_ne hb with hneg | hpos
  · rw [Int.sign_eq_neg_one_of_neg hneg, abs_of_neg hneg, mul_neg_one, Int.neg_tdiv, Int.tdiv_neg,
      neg_neg]
  · rw [Int.sign_eq_one_of_pos hpos, abs_of_pos hpos, mul_one]

theorem tdiv_bounds (num : Int) {den : Int} (hden : 0 < den) :
    (0 ≤ num → 0 ≤ num.tdiv den ∧ num.tdiv den * den ≤ num ∧ num < num.tdiv den * den + den) ∧
      (num ≤ 0 → num.tdiv den ≤ 0 ∧ num ≤ num.tdiv den * den ∧
        num.tdiv den * den - den < num) := by
  have hfloor : ∀ m : Int, 0 ≤ m →
      0 ≤ m.tdiv den ∧ m.tdiv den * den ≤ m ∧ m < m.tdiv den * den + den := by
    intro m hm
    have hmod := Int.emod_add_mul_ediv m den
    have hnonneg := Int.emod_nonneg m hden.ne'
    have hlt := Int.emod_lt_of_pos m hden
    have hdiv := Int.ediv_nonneg hm hden.le
    rw [Int.tdiv_eq_ediv_of_nonneg hm]
    rw [mul_comm] at hmod
    exact ⟨hdiv, by omega, by omega⟩
  refine ⟨hfloor num, fun hnum => ?_⟩
  obtain ⟨hnonneg, hlow, hhigh⟩ := hfloor (-num) (by omega)
  rw [Int.neg_tdiv, neg_mul] at hlow hhigh
  rw [Int.neg_tdiv] at hnonneg
  exact ⟨by omega, by omega, by omega⟩

section Quotients

variable {n s : Nat} {a b r : Signed n}

theorem quotient_eq_div (hb : b.value ≠ 0) : a.toRat s / b.toRat s * 2 ^ s =
    ((a.value * 2 ^ s * b.value.sign : Int) : ℚ) / ((|b.value| : Int) : ℚ) := by
  have hb' : (b.value : ℚ) ≠ 0 := by exact_mod_cast hb
  have habs : (b.value.sign : ℚ) * |(b.value : ℚ)| = b.value := by
    exact_mod_cast Int.sign_mul_abs b.value
  have hsign : (b.value.sign : ℚ) * b.value.sign = 1 := by
    rcases lt_or_gt_of_ne hb with hneg | hpos
    · rw [Int.sign_eq_neg_one_of_neg hneg]
      norm_num
    · rw [Int.sign_eq_one_of_pos hpos]
      norm_num
  have habs' : |(b.value : ℚ)| ≠ 0 := abs_ne_zero.mpr hb'
  rw [Signed.toRat, Signed.toRat]
  push_cast
  rw [div_div_div_cancel_right₀ (by positivity), div_mul_eq_mul_div, div_eq_div_iff hb' habs']
  calc (a.value : ℚ) * 2 ^ s * |(b.value : ℚ)|
      = a.value * 2 ^ s * (b.value.sign * b.value.sign) * |(b.value : ℚ)| := by rw [hsign, mul_one]
    _ = a.value * 2 ^ s * b.value.sign * (b.value.sign * |(b.value : ℚ)|) := by ring
    _ = a.value * 2 ^ s * b.value.sign * b.value := by rw [habs]

theorem div_saturates_iff (hb : b.value ≠ 0)
    (hlow : -2 ^ n ≤ (a.value * 2 ^ s).tdiv b.value) (hhigh : (a.value * 2 ^ s).tdiv b.value < 2 ^ n)
    (hpos : 0 ≤ (a.value * 2 ^ s).tdiv b.value → r.value ≤ (a.value * 2 ^ s).tdiv b.value)
    (hneg : (a.value * 2 ^ s).tdiv b.value ≤ 0 → (a.value * 2 ^ s).tdiv b.value ≤ r.value) :
    Saturates s (a.toRat s / b.toRat s) r ↔ r.value = (a.value * 2 ^ s).tdiv b.value := by
  have hden : 0 < |b.value| := abs_pos.mpr hb
  rw [saturates_iff hden (quotient_eq_div hb)]
  rw [tdiv_eq_tdiv_abs _ hb] at *
  obtain ⟨hfloor, hceil⟩ := tdiv_bounds (a.value * 2 ^ s * b.value.sign) hden
  generalize a.value * 2 ^ s * b.value.sign = num at *
  generalize |b.value| = den at *
  generalize num.tdiv den = q at *
  generalize (2 : Int) ^ n = bound at *
  rcases le_total 0 num with hnum | hnum
  · obtain ⟨hq, hle, hlt⟩ := hfloor hnum
    have hunder : ¬ num < -bound * den := by nlinarith
    constructor
    · rintro ⟨hinside, habove, -⟩
      rcases le_or_gt num ((bound - 1) * den) with hin | hout
      · obtain ⟨-, hnear⟩ := hinside (not_lt.mp hunder) hin
        have hstep : q * den < (r.value + 1) * den := by linarith
        have hlt' := lt_of_mul_lt_mul_right hstep hden.le
        have hle' := hpos hq
        omega
      · have hmax := habove hout
        have hle' := hpos hq
        omega
    · rintro rfl
      refine ⟨fun _ _ => ⟨by linarith, by linarith⟩, fun habove => ?_, fun hbelow =>
        absurd hbelow hunder⟩
      have hstep : (bound - 1) * den < (r.value + 1) * den := by linarith
      have hlt' := lt_of_mul_lt_mul_right hstep hden.le
      omega
  · obtain ⟨hq, hle, hlt⟩ := hceil hnum
    have hover : ¬ (bound - 1) * den < num := by nlinarith
    constructor
    · rintro ⟨hinside, -, hbelow⟩
      rcases le_or_gt (-bound * den) num with hin | hout
      · obtain ⟨hnear, -⟩ := hinside hin (not_lt.mp hover)
        have hstep : (r.value - 1) * den < q * den := by linarith
        have hlt' := lt_of_mul_lt_mul_right hstep hden.le
        have hle' := hneg hq
        omega
      · have hmin := hbelow hout
        have hle' := hneg hq
        omega
    · rintro rfl
      refine ⟨fun _ _ => ⟨by linarith, by linarith⟩, fun habove => absurd habove hover,
        fun hbelow => ?_⟩
      have hstep : (r.value - 1) * den < -bound * den := by linarith
      have hlt' := lt_of_mul_lt_mul_right hstep hden.le
      omega

theorem div_above_iff (hb : b.value ≠ 0) (habove : 2 ^ n ≤ (a.value * 2 ^ s).tdiv b.value) :
    Saturates s (a.toRat s / b.toRat s) r ↔ r = Signed.max n := by
  have hden : 0 < |b.value| := abs_pos.mpr hb
  have hbound : (0 : Int) < 2 ^ n := by positivity
  have hmax : r = Signed.max n ↔ r.value = 2 ^ n - 1 :=
    ⟨fun h => congrArg Signed.value h, fun h => Signed.ext h⟩
  rw [saturates_iff hden (quotient_eq_div hb), hmax]
  rw [tdiv_eq_tdiv_abs _ hb] at habove
  obtain ⟨hfloor, hceil⟩ := tdiv_bounds (a.value * 2 ^ s * b.value.sign) hden
  generalize a.value * 2 ^ s * b.value.sign = num at *
  generalize |b.value| = den at *
  have hnum : 0 ≤ num := by
    by_contra hneg
    have hq := (hceil (not_le.mp hneg).le).1
    omega
  have hover : (2 ^ n - 1) * den < num := by nlinarith [(hfloor hnum).2.1]
  refine ⟨fun h => h.2.1 hover, fun h => ⟨fun _ hle => absurd hover (not_lt.mpr hle), fun _ => h,
    fun hlt => ?_⟩⟩
  nlinarith

theorem div_below_iff (hb : b.value ≠ 0) (hbelow : (a.value * 2 ^ s).tdiv b.value < -2 ^ n) :
    Saturates s (a.toRat s / b.toRat s) r ↔ r = Signed.min n := by
  have hden : 0 < |b.value| := abs_pos.mpr hb
  have hbound : (0 : Int) < 2 ^ n := by positivity
  have hmin : r = Signed.min n ↔ r.value = -2 ^ n :=
    ⟨fun h => congrArg Signed.value h, fun h => Signed.ext h⟩
  rw [saturates_iff hden (quotient_eq_div hb), hmin]
  rw [tdiv_eq_tdiv_abs _ hb] at hbelow
  obtain ⟨hfloor, hceil⟩ := tdiv_bounds (a.value * 2 ^ s * b.value.sign) hden
  generalize a.value * 2 ^ s * b.value.sign = num at *
  generalize |b.value| = den at *
  have hnum : num ≤ 0 := by
    by_contra hpos
    have hq := (hfloor (not_le.mp hpos).le).1
    omega
  have hunder : num < -2 ^ n * den := by nlinarith [(hceil hnum).2.1]
  refine ⟨fun h => h.2.2 hunder, fun h => ⟨fun hle _ => absurd hunder (not_lt.mpr hle),
    fun hlt => ?_, fun _ => h⟩⟩
  nlinarith

end Quotients

/-- When a quotient of two `R4` is the exact one: if it is in range, or its lowest bits are those of
    the bound -/
def DivFineR4 (a b : Int) : Prop :=
  (-2 ^ 31 ≤ (a * 2 ^ 10).tdiv b ∧ (a * 2 ^ 10).tdiv b < 2 ^ 31) ∨
    2 ^ 31 ≤ (a * 2 ^ 10).tdiv b ∧ (a * 2 ^ 10).tdiv b % 2 ^ 32 = 2 ^ 31 - 1 ∨
    (a * 2 ^ 10).tdiv b < -2 ^ 31 ∧ (a * 2 ^ 10).tdiv b % 2 ^ 32 = 2 ^ 31

instance (a b : Int) : Decidable (DivFineR4 a b) := inferInstanceAs (Decidable (_ ∨ _))

theorem numericDivR4_saturates_iff (a b : R4) (hb : b.value ≠ 0) :
    ∃ r, numericDivR4 a b = some r ∧
      (Saturates 10 (a.toRat 10 / b.toRat 10) r ↔ DivFineR4 a.value b.value) := by
  have ha := a.le_value
  have ha' := a.value_lt
  refine ⟨a.div b, if_neg hb, ?_⟩
  have hvalue : a.div b = Signed.wrap 31 ((a.value * 2 ^ 10).tdiv b.value) := by
    rw [R4.div, HB_FloatShift, Signed.wrap_value (by omega) (by omega)]
  rw [hvalue, DivFineR4]
  rcases lt_or_ge ((a.value * 2 ^ 10).tdiv b.value) (-2 ^ 31) with hbelow | hlow
  · rw [div_below_iff hb hbelow, Signed.wrap_eq_iff]
    have hmin : (Signed.min 31).value % 2 ^ (31 + 1) = 2 ^ 31 := by decide
    rw [hmin]
    exact ⟨fun h => Or.inr (Or.inr ⟨hbelow, h⟩), by omega⟩
  rcases lt_or_ge ((a.value * 2 ^ 10).tdiv b.value) (2 ^ 31) with hhigh | habove
  · rw [div_saturates_iff hb hlow hhigh (fun _ => (Signed.wrap_value hlow hhigh).le)
      fun _ => (Signed.wrap_value hlow hhigh).ge]
    exact iff_of_true (Signed.wrap_value hlow hhigh) (Or.inl ⟨hlow, hhigh⟩)
  · rw [div_above_iff hb habove, Signed.wrap_eq_iff]
    have hmax : (Signed.max 31).value % 2 ^ (31 + 1) = 2 ^ 31 - 1 := by decide
    rw [hmax]
    exact ⟨fun h => Or.inr (Or.inl ⟨habove, h⟩), by omega⟩

/-- When a quotient of two `R8` is the exact one: if it is in range and an integer but for less than
    a step, or too small and its lowest bits are those of the bound -/
def DivFineR8 (a b : Int) : Prop :=
  (-2 ^ 63 ≤ (a * 2 ^ 16).tdiv b ∧ (a * 2 ^ 16).tdiv b < 2 ^ 63 ∧ |a.tmod b| * 2 ^ 16 < |b|) ∨
    (a * 2 ^ 16).tdiv b < -2 ^ 63 ∧ a.tdiv b % 2 ^ 48 = 2 ^ 47

instance (a b : Int) : Decidable (DivFineR8 a b) := inferInstanceAs (Decidable (_ ∨ _))

/-- The integer part of a quotient, scaled: between the scaled quotient and zero, and the same only
    if the remainder is less than a step -/
theorem tdiv_mul_scale (a : Int) {b scale : Int} (hb : b ≠ 0) (hscale : 0 < scale) :
    (0 ≤ (a * scale).tdiv b → a.tdiv b * scale ≤ (a * scale).tdiv b) ∧
      ((a * scale).tdiv b ≤ 0 → (a * scale).tdiv b ≤ a.tdiv b * scale) ∧
      (a.tdiv b * scale = (a * scale).tdiv b ↔ |a.tmod b| * scale < |b|) ∧
      (0 ≤ a.tdiv b ∧ 0 ≤ (a * scale).tdiv b ∨ a.tdiv b ≤ 0 ∧ (a * scale).tdiv b ≤ 0) := by
  have hden : 0 < |b| := abs_pos.mpr hb
  have hrest : |a.tmod b| = |a * b.sign - a.tdiv b * (|b|)| := by
    rw [Int.tmod_def, ← Int.sign_mul_self_eq_abs b]
    have hsign : a * b.sign - a.tdiv b * (b.sign * b) = (a - b * a.tdiv b) * b.sign := by ring
    rw [hsign, abs_mul]
    rcases lt_or_gt_of_ne hb with hneg | hpos
    · rw [Int.sign_eq_neg_one_of_neg hneg, abs_neg, abs_one, mul_one]
    · rw [Int.sign_eq_one_of_pos hpos, abs_one, mul_one]
  have hnum : a * scale * b.sign = a * b.sign * scale := by ring
  rw [hrest]
  rw [tdiv_eq_tdiv_abs a hb, tdiv_eq_tdiv_abs (a * scale) hb, hnum]
  obtain ⟨hfloor, hceil⟩ := tdiv_bounds (a * b.sign) hden
  obtain ⟨hfloor', hceil'⟩ := tdiv_bounds (a * b.sign * scale) hden
  generalize a * b.sign = num at *
  generalize |b| = den at *
  generalize num.tdiv den = t at *
  generalize (num * scale).tdiv den = q at *
  have hcomm : t * scale * den = t * den * scale := by ring
  rcases le_total 0 num with hpos | hneg
  · obtain ⟨ht, hle, -⟩ := hfloor hpos
    obtain ⟨hq, hle', hlt'⟩ := hfloor' (mul_nonneg hpos hscale.le)
    have hscaled := mul_le_mul_of_nonneg_right hle hscale.le
    have hupper : t * scale ≤ q := by
      have hstep : t * scale * den < (q + 1) * den := by linarith
      exact Int.lt_add_one_iff.mp (lt_of_mul_lt_mul_right hstep hden.le)
    rw [abs_of_nonneg (sub_nonneg.mpr hle), sub_mul]
    refine ⟨fun _ => hupper, fun hzero => ?_, ⟨fun heq => ?_, fun hlt => ?_⟩, Or.inl ⟨ht, hq⟩⟩
    · exact le_trans hzero (mul_nonneg ht hscale.le)
    · rw [← heq] at hlt'
      linarith
    · have hstep : q * den < (t * scale + 1) * den := by linarith
      exact le_antisymm hupper (Int.lt_add_one_iff.mp (lt_of_mul_lt_mul_right hstep hden.le))
  · obtain ⟨ht, hle, -⟩ := hceil hneg
    obtain ⟨hq, hle', hlt'⟩ := hceil' (mul_nonpos_of_nonpos_of_nonneg hneg hscale.le)
    have hscaled := mul_le_mul_of_nonneg_right hle hscale.le
    have hlower : q ≤ t * scale := by
      have hstep : q * den < (t * scale + 1) * den := by linarith
      exact Int.lt_add_one_iff.mp (lt_of_mul_lt_mul_right hstep hden.le)
    rw [abs_of_nonpos (sub_nonpos.mpr hle), neg_mul, sub_mul]
    refine ⟨fun hzero => ?_, fun _ => hlower, ⟨fun heq => ?_, fun hlt => ?_⟩, Or.inr ⟨ht, hq⟩⟩
    · exact le_trans (mul_nonpos_of_nonpos_of_nonneg ht hscale.le) hzero
    · rw [← heq] at hlt'
      linarith
    · have hstep : t * scale * den < (q + 1) * den := by linarith
      exact le_antisymm (Int.lt_add_one_iff.mp (lt_of_mul_lt_mul_right hstep hden.le)) hlower

theorem numericDivR8_saturates_iff (a b : R8) (hb : b.value ≠ 0) :
    ∃ r, numericDivR8 a b = some r ∧
      (Saturates 16 (a.toRat 16 / b.toRat 16) r ↔ DivFineR8 a.value b.value) := by
  have ha := a.le_value
  have ha' := a.value_lt
  obtain ⟨hpos, hneg, hiff, hsigns⟩ := @tdiv_mul_scale a.value b.value (2 ^ 16) hb (by norm_num)
  have habs : |a.value.tdiv b.value| ≤ |a.value| := by
    rw [Int.abs_eq_natAbs, Int.abs_eq_natAbs, Int.natAbs_tdiv]
    exact_mod_cast Nat.div_le_self _ _
  refine ⟨a.div b, if_neg hb, ?_⟩
  rw [R8.div, HB_DoubleShift, DivFineR8]
  rcases lt_or_ge ((a.value * 2 ^ 16).tdiv b.value) (-2 ^ 63) with hbelow | hlow
  · have ht : (Signed.wrap 63 (a.value.tdiv b.value)).value = a.value.tdiv b.value := by
      refine Signed.wrap_value ?_ (by omega)
      have hle := (abs_le.mp habs).1
      rcases abs_cases a.value with ⟨heq, -⟩ | ⟨heq, -⟩ <;> omega
    rw [div_below_iff hb hbelow, Signed.wrap_eq_iff, ht]
    have hmin : (Signed.min 63).value % 2 ^ (63 + 1) = 2 ^ 63 := by decide
    rw [hmin]
    constructor
    · exact fun h => Or.inr ⟨hbelow, by omega⟩
    · rintro (⟨hlow, -⟩ | ⟨-, h⟩)
      · omega
      · omega
  rcases lt_or_ge ((a.value * 2 ^ 16).tdiv b.value) (2 ^ 63) with hhigh | habove
  · have ht : (Signed.wrap 63 (a.value.tdiv b.value)).value = a.value.tdiv b.value :=
      Signed.wrap_value (by omega) (by omega)
    have hr : (Signed.wrap 63 (a.value.tdiv b.value * 2 ^ 16)).value =
        a.value.tdiv b.value * 2 ^ 16 := Signed.wrap_value (by omega) (by omega)
    rw [ht, div_saturates_iff hb hlow hhigh (by rw [hr]; exact hpos) (by rw [hr]; exact hneg), hr,
      hiff]
    constructor
    · exact fun h => Or.inl ⟨hlow, hhigh, h⟩
    · rintro (⟨-, -, h⟩ | ⟨hbelow, -⟩)
      · exact h
      · omega
  · rw [div_above_iff hb habove, Signed.wrap_eq_iff]
    have hmax : (Signed.max 63).value % 2 ^ (63 + 1) = 2 ^ 63 - 1 := by decide
    rw [hmax]
    constructor
    · intro h
      omega
    · rintro (⟨-, hhigh, -⟩ | ⟨hbelow, -⟩) <;> omega

end TinyClr.EmulatedFloat
