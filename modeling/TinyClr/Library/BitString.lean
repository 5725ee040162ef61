import TinyClr.Library.MachineInt
import Mathlib.Data.List.Basic
import Mathlib.Tactic.Common
import Mathlib.Tactic.Ring

/-!
# Bit strings

The bits of a number, the most significant first, as bit-oriented encoders emit them.  Numbers are
cut and joined by division and multiplication by powers of two; the lemmas here say what this does
to their bits.
-/

namespace TinyClr.Library

def bitsOf : Nat → Nat → List Bool
  | 0, _ => []
  | w + 1, v => v.testBit w :: bitsOf w v

/-- The number whose bits these are -/
def ofBits : List Bool → Nat
  | [] => 0
  | b :: bs => b.toNat * 2 ^ bs.length + ofBits bs

@[simp] theorem bitsOf_zero (v : Nat) : bitsOf 0 v = [] := rfl

@[simp] theorem length_bitsOf (w v : Nat) : (bitsOf w v).length = w := by
  induction w with
  | zero => rfl
  | succ w ih => rw [bitsOf, List.length_cons, ih]

/-- The bits of a number, cut in two -/
theorem bitsOf_add (a b v : Nat) : bitsOf (a + b) v = bitsOf a (v / 2 ^ b) ++ bitsOf b v := by
  induction a with
  | zero => rw [Nat.zero_add, bitsOf_zero, List.nil_append]
  | succ a ih =>
    rw [Nat.succ_add, bitsOf, bitsOf, ih, Nat.testBit_div_two_pow,
      List.cons_append]

/-- Only the low bits count. -/
theorem bitsOf_congr {w v v' : Nat} (h : v % 2 ^ w = v' % 2 ^ w) : bitsOf w v = bitsOf w v' := by
  have hlow : ∀ i < w, v.testBit i = v'.testBit i := by
    intro i hi
    have hbit := congrArg (Nat.testBit · i) h
    simpa [Nat.testBit_mod_two_pow, hi] using hbit
  clear h
  induction w with
  | zero => rfl
  | succ w ih =>
    rw [bitsOf, bitsOf, hlow w (Nat.lt_succ_self w), ih fun i hi => hlow i (Nat.lt_succ_of_lt hi)]

/-- A number put in front of another one -/
theorem bitsOf_join (a b x : Nat) {y : Nat} (hy : y < 2 ^ b) :
    bitsOf (a + b) (x * 2 ^ b + y) = bitsOf a x ++ bitsOf b y := by
  have hdiv : (x * 2 ^ b + y) / 2 ^ b = x := by
    rw [Nat.mul_comm, Nat.mul_add_div (Nat.two_pow_pos b), Nat.div_eq_of_lt hy, Nat.add_zero]
  have hmod : (x * 2 ^ b + y) % 2 ^ b = y % 2 ^ b := Nat.mul_add_mod_self_right x (2 ^ b) y
  rw [bitsOf_add, hdiv, bitsOf_congr hmod]

theorem bitsOf_zero_right (w : Nat) : bitsOf w 0 = List.replicate w false := by
  induction w with
  | zero => rfl
  | succ w ih => rw [bitsOf, ih, Nat.zero_testBit, List.replicate_succ]

theorem ofBits_lt (bs : List Bool) : ofBits bs < 2 ^ bs.length := by
  induction bs with
  | nil => exact Nat.one_pos
  | cons b bs ih =>
    rw [ofBits, List.length_cons, pow_succ]
    have hb : b.toNat ≤ 1 := Bool.toNat_le b
    have hmul : b.toNat * 2 ^ bs.length ≤ 2 ^ bs.length := by
      calc b.toNat * 2 ^ bs.length ≤ 1 * 2 ^ bs.length := Nat.mul_le_mul_right _ hb
        _ = 2 ^ bs.length := Nat.one_mul _
    omega

theorem ofBits_append (bs cs : List Bool) :
    ofBits (bs ++ cs) = ofBits bs * 2 ^ cs.length + ofBits cs := by
  induction bs with
  | nil => simp [ofBits]
  | cons b bs ih =>
    rw [List.cons_append, ofBits, ofBits, ih, List.length_append, Nat.pow_add]
    ring

/-- The bits of a number give it back, as far as it fits. -/
theorem ofBits_bitsOf (w v : Nat) : ofBits (bitsOf w v) = v % 2 ^ w := by
  induction w with
  | zero => simp [ofBits, Nat.mod_one]
  | succ w ih =>
    rw [bitsOf, ofBits, length_bitsOf, ih, Nat.testBit_eq_decide_div_mod_eq, pow_succ,
      Nat.mod_mul]
    have htwo := Nat.mod_lt (v / 2 ^ w) Nat.two_pos
    have hbit : (decide (v / 2 ^ w % 2 = 1)).toNat = v / 2 ^ w % 2 := by
      rcases Nat.mod_two_eq_zero_or_one (v / 2 ^ w) with h | h <;> simp [h]
    rw [hbit, Nat.mul_comm, Nat.add_comm]

/-- Numbers with the same bits are the same, as far as they fit. -/
theorem mod_eq_of_bitsOf {w v v' : Nat} (h : bitsOf w v = bitsOf w v') :
    v % 2 ^ w = v' % 2 ^ w := by
  rw [← ofBits_bitsOf, h, ofBits_bitsOf]

end TinyClr.Library
